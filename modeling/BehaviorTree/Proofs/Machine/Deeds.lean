import BehaviorTree.Proofs.Machine.Unwinding

/-! What a step does to lanes and to memory at once, whatever node is on top of the lane, unless that asks a query or
starts another lane. -/

namespace BehaviorTree

open Refusal

namespace Roster

variable {σ : Type} [QuerySystem σ]

/-- What a step of a lane does with memory `s`. -/
inductive Does (p : Program) (now : UInt64) (index : Nat) (rootVisited : Bool) (r : Roster σ) (s : Surroundings) :
    Outcome → Roster σ → Surroundings → Prop
  | yield {k : Kin} {frame : Frame} {node : Node} {child : NodeId} {once : Bool} (top : r.Top p index k frame node)
    (hbottom : k.frames.length = 1) (hroot : node.rootChild? = some (child, once))
    (hagain : rootVisited = true ∨ once = true ∧ frame.childIndex ≠ 0) : Does p now index rootVisited r s .suspend r s
  | enter {k : Kin} {frame : Frame} {node : Node} {child : NodeId} {once : Bool} (top : r.Top p index k frame node)
    (hbottom : k.frames.length = 1) (hroot : node.rootChild? = some (child, once))
    (hfirst : rootVisited = false ∧ (once = true → frame.childIndex = 0)) :
    Does p now index rootVisited r s .enterRoot (r.onLane index fun k => (k.setProgress 1).push (.start child)) s
  | call {k : Kin} {frame : Frame} {node : Node} {progress : UInt16} {child : NodeId} (top : r.Top p index k frame node)
    (habove : 1 < k.frames.length) (hdeed : node.deed frame.childIndex s = .ok (.call child))
    (hcall : node.Calls frame.childIndex progress child) :
    Does p now index rootVisited r s .goOn (r.onLane index fun k => (k.setProgress progress).push (.start child)) s
  | finish {k : Kin} {frame : Frame} {node : Node} {s' : Surroundings} (top : r.Top p index k frame node)
    (habove : 1 < k.frames.length) (hdeed : node.deed frame.childIndex s = .ok (.finish s'))
    (hfinish : node.Finishes frame.childIndex) :
    Does p now index rootVisited r s .goOn (r.onLane index Kin.pop) s'
  | wait {k : Kin} {frame : Frame} {goal : WaitGoal} (top : r.Top p index k frame (.wait goal))
    (hlater : frame.childIndex ≠ 0) : Does p now index rootVisited r s .suspend r s
  | beginWait {k : Kin} {frame : Frame} {goal : WaitGoal} (top : r.Top p index k frame (.wait goal))
    (habove : 1 < k.frames.length) (hfirst : frame.childIndex = 0) :
    Does p now index rootVisited r s .suspend (r.onLane index fun k => (k.setProgress 1).setWaitStart now) s
  | passWait {k : Kin} {frame : Frame} {goal : WaitGoal} (top : r.Top p index k frame (.wait goal))
    (habove : 1 < k.frames.length) (hfirst : frame.childIndex = 0) :
    Does p now index rootVisited r s .goOn (r.onLane index fun k => ((k.setProgress 1).setWaitStart now).pop) s
  | endWait {k : Kin} {frame : Frame} {goal : WaitGoal} (top : r.Top p index k frame (.wait goal))
    (habove : 1 < k.frames.length) (hlater : frame.childIndex ≠ 0) :
    Does p now index rootVisited r s .goOn (r.onLane index Kin.pop) s
  | catch {k : Kin} {frame : Frame} {node : Node} {r' : Roster σ} (top : r.Top p index k frame node)
    (hdeed : node.deed frame.childIndex s = .ok .fail) (hfail : node.Fails frame.childIndex)
    (unwinds : Unwinds p index (r.onLane index Kin.pop) true r') : Does p now index rootVisited r s .goOn r' s
  | restart {k : Kin} {frame : Frame} {node : Node} {r' : Roster σ} (top : r.Top p index k frame node)
    (hdeed : node.deed frame.childIndex s = .ok .fail) (hfail : node.Fails frame.childIndex)
    (unwinds : Unwinds p index (r.onLane index Kin.pop) false r') :
    Does p now index rootVisited r s (if index = 0 then .goOn else .suspend) r'.restart s

end Roster

/-- The state after a step that did this. -/
structure Tick.Did {σ : Type} [QuerySystem σ] (p : Program) (now : UInt64) (index : Nat) (rootVisited : Bool) (r : Roster σ)
    (s : Surroundings) (outcome : Outcome) (t : Tick σ) : Prop where
  does : r.Does p now index rootVisited s outcome t.roster (t.world.surroundings p)
  now : t.world.now = now

theorem Tick.Did.of_shows {σ : Type} [QuerySystem σ] {p : Program} {now : UInt64} {index depth : Nat} {rootVisited : Bool}
    {r r' : Roster σ} {s s' : Surroundings} {outcome : Outcome} {t : Tick σ} (shown : t.Shows p index depth now r')
    (hs : t.world.surroundings p = s') (does : r.Does p now index rootVisited s outcome r' s') :
    t.Did p now index rootVisited r s outcome :=
  ⟨by rwa [shown.roster, hs], shown.now⟩

namespace Act

variable {σ α : Type} {p : Program} {index depth : Nat} {now : UInt64} {r : Roster σ} {t : Tick σ} {s : Surroundings}

/-! ### Memory -/

theorem Still.surroundings {act : Act σ α} (still : act.Still) (p : Program) (t : Tick σ) :
    act.Leads t fun _ t' => t'.world.surroundings p = t.world.surroundings p := by
  refine (still t).mono fun _ t' hmemory => ?_
  obtain ⟨hcomponents, hrest⟩ := Prod.mk.inj hmemory
  obtain ⟨hlookups, hblackboard⟩ := Prod.mk.inj hrest
  simp only [World.surroundings, hcomponents, hlookups, hblackboard]

/-- What is read is what memory says. -/
theorem evaluateWith_reads (value : ValueRef) (read : Surroundings → ValueRef → Except Fault α) (t : Tick σ) :
    (evaluateWith p value read).Leads t fun a t' =>
      t'.world = t.world ∧ read (t.world.surroundings p) value = .ok a :=
  .bind_of_eq rfl (.bind_of_eq rfl (Leads.lift fun _ h => ⟨rfl, h⟩))

theorem writeVar_stores (slot : VarSlot) (value : ValueRef) (t : Tick σ) :
    (writeVar p slot value).Leads t fun _ t' =>
      (t.world.surroundings p).writeVar slot value = .ok (t'.world.surroundings p) := by
  refine .seq (evaluateWith_reads value _ t) fun bytes u ⟨hworld, hbytes⟩ => Leads.onWorld fun world h => ?_
  obtain ⟨board, hboard, h⟩ := bind_eq_ok_iff.mp h
  obtain rfl := Except.ok.inj h
  rw [hworld] at hboard ⊢
  rw [Surroundings.writeVar, hbytes]
  refine bind_eq_ok_iff.mpr ⟨bytes, rfl, bind_eq_ok_iff.mpr ⟨board, hboard, rfl⟩⟩

theorem writeField_stores (component : UInt16) (field : FieldWrite) (t : Tick σ) :
    (writeField p component field).Leads t fun _ t' =>
      (t.world.surroundings p).writeField component field = .ok (t'.world.surroundings p) := by
  unfold writeField
  split_ifs
  · refine .seq (evaluateWith_reads field.value _ t) fun bytes u ⟨hworld, hbytes⟩ => Leads.onWorld fun world h => ?_
    rw [hworld] at h
    rw [Surroundings.writeField, hbytes]
    split at h
    · cases h
    next store hstore =>
      obtain ⟨data, hdata, h⟩ := bind_eq_ok_iff.mp h
      obtain rfl := Except.ok.inj h
      refine bind_eq_ok_iff.mpr ⟨bytes, rfl, ?_⟩
      rw [show (t.world.surroundings p).components = t.world.components from rfl, hstore]
      exact bind_eq_ok_iff.mpr ⟨data, hdata, rfl⟩
  · exact .bind (.of_error (show _ = Except.error Fault.outOfRange from rfl) trivial)

theorem writeFields_stores (component : UInt16) (fields : List FieldWrite) (t : Tick σ) :
    (fields.forM (writeField p component)).Leads t fun _ t' =>
      fields.foldlM (Surroundings.writeField component) (t.world.surroundings p) = .ok (t'.world.surroundings p) := by
  induction fields generalizing t with
  | nil => exact .pure rfl
  | cons field rest ih =>
    rw [List.forM_eq_forM, List.forM_cons]
    refine .seq (writeField_stores component field t) fun _ u hfirst => (ih u).mono fun _ v hrest => ?_
    rw [List.foldlM_cons, hfirst]
    exact hrest

/-! ### Choices -/

/-- The child of a selector is that of one of its branches. -/
theorem choose_picks (branches : List Branch) (progress : Nat) (t : Tick σ) :
    (choose p branches progress).Leads t fun choice _ => ∀ c, choice = some c →
      ∃ place branch, branches[place]? = some branch ∧
        c = (UInt16.ofNat (progress + place + 1), branch.child) := by
  induction branches generalizing progress t with
  | nil => exact .pure fun c hc => nomatch hc
  | cons branch rest ih =>
    refine .seq (Reports.evaluateWith p branch.guard _ t) fun holds t _ => ?_
    cases holds with
    | false =>
      refine (ih (progress + 1) t).mono fun choice _ h c hc => ?_
      obtain ⟨place, picked, hpicked, rfl⟩ := h c hc
      exact ⟨place + 1, picked, hpicked, by rw [Nat.add_right_comm progress 1 place]; rfl⟩
    | true =>
      by_cases h : progress % 0x10000 + 1 < 0x10000
      · simp only [h, if_true]
        refine .pure fun c hc => ?_
        obtain rfl := Option.some.inj hc
        exact ⟨0, branch, rfl, rfl⟩
      · simp only [h, if_true, if_false]
        exact .bind (.of_error (show _ = Except.error Fault.overflow from rfl) trivial)

/-- The branches of a valid selector can be chosen from. -/
theorem choose_shows (valid : p.Valid) (shown : t.Shows p index depth now r) {branches : List Branch}
    (hvalid : p.NodeValid (.selector branches)) :
    (choose p branches 0).Leads t fun choice t' =>
      t'.Shows p index depth now r ∧ ∀ c, choice = some c → c.2.toNat < p.size := by
  have hcount : branches.length ≤ 65535 := hvalid.payload.1
  have hguards : ∀ b ∈ branches, p.RefValid p.expressions.operations.size b.guard ∧
      p.HasSize b.guard ValueType.bool.size ∧ b.child.toNat < p.size := by
    intro b hb
    exact ⟨hvalid.values _ (List.mem_map_of_mem hb), hvalid.payload.2 b hb,
      hvalid.children _ (List.mem_map_of_mem hb)⟩
  exact (Reports.choose p branches 0).quiet.shows shown (choose_ensures valid shown.sound hguards 0 (by omega))

theorem choose_reads (branches : List Branch) (progress : Nat) (t : Tick σ) :
    (choose p branches progress).Leads t fun choice t' =>
      t'.world = t.world ∧ (t.world.surroundings p).choose branches = .ok (choice.map (·.2)) := by
  induction branches generalizing progress t with
  | nil => exact .pure ⟨rfl, rfl⟩
  | cons branch rest ih =>
    refine .seq (evaluateWith_reads branch.guard Surroundings.evaluateBool t) ?_
    rintro holds u ⟨hworld, hguard⟩
    cases holds with
    | false =>
      refine (ih (progress + 1) u).mono fun choice v ⟨hworld', hrest⟩ => ⟨hworld'.trans hworld, ?_⟩
      rw [hworld] at hrest
      rw [Surroundings.choose, hguard]
      exact hrest
    | true =>
      have hchosen : (t.world.surroundings p).choose (branch :: rest) = .ok (some branch.child) := by
        rw [Surroundings.choose, hguard]
        rfl
      by_cases h : progress % 0x10000 + 1 < 0x10000
      · simp only [h, if_true]
        exact .pure ⟨hworld, hchosen⟩
      · simp only [h, if_true, if_false]
        exact .bind (.of_error (show _ = Except.error Fault.overflow from rfl) trivial)

/-! ### Steps -/

section Steps

variable [QuerySystem σ] {rootVisited : Bool}

omit [QuerySystem σ] in
theorem Inner.surroundings {act : Act σ α} (inner : act.Inner) (p : Program) (t : Tick σ) :
    act.Leads t fun _ t' => t'.world.surroundings p = t.world.surroundings p :=
  inner.still.surroundings p t

/-- A part of a step after which the lane goes on. -/
theorem andGoOn_did {act : Act σ Unit} (h : act.Leads t fun _ t' => t'.Did p now index rootVisited r s .goOn) :
    (andGoOn act).Leads t fun outcome t' => t'.Did p now index rootVisited r s outcome :=
  .seq h fun _ _ h => .pure h

theorem call_did (shown : t.Shows p index 2 now r) (hs : t.world.surroundings p = s) {k : Kin} {frame : Frame}
    {node : Node} (top : r.Top p index k frame node) (habove : 1 < k.frames.length) (h : frame.node.toNat < p.size)
    {progress : UInt16} {child : NodeId} (hchild : child.toNat < p.size)
    (hdeed : node.deed frame.childIndex s = .ok (.call child)) (hcall : node.Calls frame.childIndex progress child) :
    (call p index frame.node progress child).Leads t fun _ t' => t'.Did p now index rootVisited r s .goOn := by
  refine ((call_shows shown h hchild progress).and ((Inner.call p index _ progress child).surroundings p t)).mono ?_
  rintro _ t' ⟨shown, hsame⟩
  exact .of_shows shown (hsame.trans hs) (.call top habove hdeed hcall)

theorem finish_did (shown : t.Shows p index 2 now r) {s' : Surroundings} (hs : t.world.surroundings p = s') {k : Kin}
    {frame : Frame} {node : Node} (top : r.Top p index k frame node) (habove : 1 < k.frames.length)
    (h : frame.node.toNat < p.size) (hdeed : node.deed frame.childIndex s = .ok (.finish s'))
    (hfinish : node.Finishes frame.childIndex) :
    (finish p index frame.node).Leads t fun _ t' => t'.Did p now index rootVisited r s .goOn := by
  refine ((finish_shows shown h).and ((Inner.finish p index _).surroundings p t)).mono ?_
  rintro _ t' ⟨shown, hsame⟩
  exact .of_shows shown (hsame.trans hs) (.finish top habove hdeed hfinish)

/-- A failure takes away what is above the nearest catch, or all lanes. -/
theorem fail_did (shown : t.Shows p index 1 now r) (hs : t.world.surroundings p = s) {k : Kin} {frame : Frame}
    {node : Node} (top : r.Top p index k frame node) (h : frame.node.toNat < p.size)
    (hdeed : node.deed frame.childIndex s = .ok .fail) (hfail : node.Fails frame.childIndex) :
    (fail p index frame.node).Leads t fun outcome t' => t'.Did p now index rootVisited r s outcome := by
  have hunwinds : (fail p index frame.node).Leads t fun outcome t' => ∃ caught r',
      (r.onLane index Kin.pop).Unwinds p index caught r' ∧ t'.roster = (if caught then r' else r'.restart) ∧
      t'.world.now = now ∧ outcome = if caught ∨ index = 0 then .goOn else .suspend := by
    rw [fail_eq]
    refine .seq (raise_unwinds shown top.lane h) ?_
    rintro caught t ⟨r', unwinds, shown⟩
    cases caught with
    | true => exact .pure ⟨true, r', unwinds, shown.roster, shown.now, by simp⟩
    | false =>
      refine (restart_roster shown).mono ?_
      rintro outcome t' ⟨hroster, hnow, rfl⟩
      exact ⟨false, r', unwinds, hroster, hnow, by simp⟩
  refine (hunwinds.and ((Still.fail p index _).surroundings p t)).mono ?_
  rintro _ t' ⟨⟨caught, r', unwinds, hroster, hnow, rfl⟩, hsame⟩
  refine ⟨?_, hnow⟩
  rw [hroster, hsame, hs]
  cases caught with
  | true => simpa using .catch top hdeed hfail unwinds
  | false => simpa using .restart top hdeed hfail unwinds

theorem single_did (shown : t.Shows p index 2 now r) (hs : t.world.surroundings p = s) {k : Kin} {frame : Frame}
    {node : Node} (top : r.Top p index k frame node) (habove : 1 < k.frames.length) (h : frame.node.toNat < p.size)
    {child : NodeId} (hchild : child.toNat < p.size)
    (hdeed : node.deed frame.childIndex s = .ok (if frame.childIndex = 0 then .call child else .finish s))
    (hcall : frame.childIndex = 0 → node.Calls frame.childIndex 1 child)
    (hfinish : frame.childIndex ≠ 0 → node.Finishes frame.childIndex) :
    (single p index frame child).Leads t fun _ t' => t'.Did p now index rootVisited r s .goOn := by
  unfold single
  split_ifs with hfirst
  · exact call_did shown hs top habove h hchild (by rw [hdeed, if_pos hfirst]) (hcall hfirst)
  · exact finish_did shown hs top habove h (by rw [hdeed, if_neg hfirst]) (hfinish hfirst)

theorem laneRoot_did (shown : t.Shows p index 1 now r) (hs : t.world.surroundings p = s) {k : Kin} {frame : Frame}
    {node : Node} (top : r.Top p index k frame node) (hbottom : k.frames.length = 1) (h : frame.node.toNat < p.size)
    {child : NodeId} (hchild : child.toNat < p.size) {once : Bool} (hroot : node.rootChild? = some (child, once)) :
    (laneRoot p index frame child once rootVisited).Leads t fun outcome t' =>
      t'.Did p now index rootVisited r s outcome := by
  unfold laneRoot
  split_ifs with hagain
  · refine .seq ((emit_shows shown h .yield).and ((Reports.emit p index _ .yield).inner.surroundings p t)) ?_
    rintro _ t' ⟨shown, hsame⟩
    exact .pure (.of_shows shown (hsame.trans hs) (.yield top hbottom hroot (by simpa using hagain)))
  · refine .seq ((call_shows shown h hchild 1).and ((Inner.call p index _ 1 child).surroundings p t)) ?_
    rintro _ t' ⟨shown, hsame⟩
    exact .pure (.of_shows shown (hsame.trans hs) (.enter top hbottom hroot (by simpa using hagain)))

theorem wait_did (valid : p.Valid) (shown : t.Shows p index 2 now r) (hs : t.world.surroundings p = s) {k : Kin}
    {frame : Frame} {goal : WaitGoal} (top : r.Top p index k frame (.wait goal)) (habove : 1 < k.frames.length)
    (h : frame.node.toNat < p.size) (hgoal : p.NodeValid (.wait goal)) :
    (wait p index frame goal).Leads t fun outcome t' => t'.Did p now index rootVisited r s outcome := by
  have hover {t : Tick σ} {r : Roster σ} (shown : t.Shows p index 2 now r) :
      (waitOver p index goal).Leads t fun _ t' => t'.Shows p index 2 now r :=
    (Reports.waitOver p index goal).quiet.keeps shown (waitOver_ensures valid shown.sound hgoal)
  have hroster : (wait p index frame goal).Leads t fun outcome t' =>
      r.Does p now index rootVisited s outcome t'.roster s ∧ t'.world.now = now := by
    unfold wait
    split_ifs with hfirst
    · refine .seq (setChildIndex_shows shown 1) fun _ t shown => .bind_of_eq rfl ?_
      have hnow : t.world.now = now := shown.now
      refine .seq (setWaitStart_shows shown t.world.now) fun _ t shown => ?_
      rw [Roster.onLane_onLane, hnow] at shown
      refine .seq (hover shown) fun passed t shown => ?_
      cases passed with
      | true =>
        refine .seq (finish_shows shown h) fun _ t shown => .pure ⟨?_, shown.now⟩
        rw [shown.roster, Roster.onLane_onLane]
        exact .passWait top habove hfirst
      | false =>
        refine .seq (emit_shows shown h .wait) fun _ t shown => .pure ⟨?_, shown.now⟩
        rw [shown.roster]
        exact .beginWait top habove hfirst
    · refine .seq (hover shown) fun passed t shown => ?_
      cases passed with
      | true =>
        refine .seq (finish_shows shown h) fun _ t shown => .pure ⟨?_, shown.now⟩
        rw [shown.roster]
        exact .endWait top habove hfirst
      | false =>
        refine .seq (emit_shows shown h .wait) fun _ t shown => .pure ⟨?_, shown.now⟩
        rw [shown.roster]
        exact .wait top hfirst
  refine (hroster.and ((Inner.wait p index frame _).surroundings p t)).mono ?_
  rintro outcome t' ⟨⟨does, hnow⟩, hsame⟩
  exact ⟨by rwa [hsame, hs], hnow⟩

/-! ### Nodes -/

theorem root_did (shown : t.Shows p index 1 now r) (hs : t.world.surroundings p = s) {k : Kin} {frame : Frame}
    {node : Node} (top : r.Top p index k frame node) (h : frame.node.toNat < p.size) {child : NodeId}
    (hchild : child.toNat < p.size) {once : Bool} (hroot : node.rootChild? = some (child, once))
    (hdeed : node.deed frame.childIndex s = .ok (if frame.childIndex = 0 then .call child else .finish s))
    (hcall : frame.childIndex = 0 → node.Calls frame.childIndex 1 child)
    (hfinish : frame.childIndex ≠ 0 → node.Finishes frame.childIndex) :
    (if decide (k.frames.length = 1) then laneRoot p index frame child once rootVisited
      else andGoOn (single p index frame child)).Leads t fun outcome t' => t'.Did p now index rootVisited r s outcome := by
  have hpos := List.length_pos_of_mem (List.mem_of_getLast? top.last)
  by_cases hbottom : k.frames.length = 1
  · rw [if_pos (by simpa using hbottom)]
    exact laneRoot_did shown hs top hbottom h hchild hroot
  · have habove : 1 < k.frames.length := by omega
    rw [if_neg (by simpa using hbottom)]
    exact andGoOn_did (single_did (shown.deepen top.lane habove) hs top habove h hchild hdeed hcall hfinish)

section Nodes

variable {k : Kin} {frame : Frame} {isBottom : Bool} (valid : p.Valid) (shown : t.Shows p index 2 now r)
  (hs : t.world.surroundings p = s) (habove : 1 < k.frames.length) (h : frame.node.toNat < p.size)

include valid shown hs habove h

theorem sequence_did {children : Array NodeId} (top : r.Top p index k frame (.sequence children)) :
    (stepNode p index frame isBottom rootVisited (.sequence children)).Leads t fun outcome t' =>
      t'.Did p now index rootVisited r s outcome := by
  have hvalid := valid.node top.known
  simp only [stepNode]
  cases hchild : children[frame.childIndex.toNat]? with
  | none =>
    exact andGoOn_did (finish_did shown hs top habove h (by simp only [Node.deed, hchild]; rfl) hchild)
  | some child =>
    have hmem : child ∈ children := Array.mem_of_getElem? hchild
    have hlt := (Array.getElem?_eq_some_iff.mp hchild).1
    have hcount : children.size ≤ 65535 := hvalid.payload
    have hfits : frame.childIndex.toNat + 1 < 0x10000 := by omega
    simp only [hfits, if_true]
    refine andGoOn_did (call_did shown hs top habove h
      (hvalid.children child (by simpa [Node.children] using hmem)) ?_ ⟨hfits, rfl, hchild⟩)
    simp only [Node.deed, hchild]
    rfl

theorem selector_did {branches : List Branch} (top : r.Top p index k frame (.selector branches)) :
    (stepNode p index frame isBottom rootVisited (.selector branches)).Leads t fun outcome t' =>
      t'.Did p now index rootVisited r s outcome := by
  have hvalid := valid.node top.known
  have hcount : branches.length ≤ 65535 := hvalid.payload.1
  simp only [stepNode]
  split_ifs with hfirst
  · exact andGoOn_did (finish_did shown hs top habove h (Node.deed_of_decided hfirst (.inl rfl)) hfirst)
  · refine .seq (((choose_shows valid shown hvalid).and (choose_picks branches 0 t)).and (choose_reads branches 0 t)) ?_
    rintro choice u ⟨⟨⟨shown, hchild⟩, hpicks⟩, hworld, hchoose⟩
    have hs' : u.world.surroundings p = s := by rw [hworld, hs]
    have hfirst : frame.childIndex = 0 := by simpa using hfirst
    rw [hs] at hchoose
    have hdeed := Node.deed_of_choose hchoose
    rw [← hfirst] at hdeed
    cases choice with
    | none => exact fail_did (shown.deepen top.lane (by omega)) hs' top h hdeed hfirst
    | some c =>
      obtain ⟨place, branch, hbranch, rfl⟩ := hpicks c rfl
      have hlt := (List.getElem?_eq_some_iff.mp hbranch).1
      refine andGoOn_did (call_did shown hs' top habove h (hchild _ rfl) hdeed
        ⟨hfirst, place, branch, hbranch, ?_, rfl⟩)
      simp only [Nat.zero_add, UInt16.toNat_ofNat']
      omega

theorem optional_did {guard : ValueRef} {child : NodeId} (top : r.Top p index k frame (.optional guard child)) :
    (stepNode p index frame isBottom rootVisited (.optional guard child)).Leads t fun outcome t' =>
      t'.Did p now index rootVisited r s outcome := by
  have hvalid := valid.node top.known
  have hchild := hvalid.children child (by simp [Node.children])
  simp only [stepNode]
  refine andGoOn_did ?_
  split_ifs with hfirst
  · exact finish_did shown hs top habove h (Node.deed_of_decided hfirst (.inr rfl)) trivial
  · have hguard := (Reports.evaluateWith p guard Surroundings.evaluateBool).quiet.keeps shown
      (evaluateBool_ensures valid shown.sound (hvalid.values guard (by simp [Node.values])) hvalid.payload)
    refine .seq (hguard.and (evaluateWith_reads guard Surroundings.evaluateBool t)) ?_
    rintro holds u ⟨shown, hworld, hread⟩
    have hs' : u.world.surroundings p = s := by rw [hworld, hs]
    have hfirst : frame.childIndex = 0 := by simpa using hfirst
    rw [hs] at hread
    have hdeed : (Node.optional guard child).deed 0 s = _ := Node.deed_of_guard hread
    rw [← hfirst] at hdeed
    cases holds with
    | true => exact call_did shown hs' top habove h hchild hdeed ⟨hfirst, rfl, rfl⟩
    | false => exact finish_did shown hs' top habove h hdeed trivial

theorem writeField_did {component : UInt16} {fields : List FieldWrite}
    (top : r.Top p index k frame (.writeField component fields)) :
    (stepNode p index frame isBottom rootVisited (.writeField component fields)).Leads t fun outcome t' =>
      t'.Did p now index rootVisited r s outcome := by
  refine andGoOn_did ?_
  have hwrite : (fields.forM (writeField p component)).Leads t fun _ t' =>
      t'.Sound p (fun _ => True) index 2 0 0 := by
    have hfields := writeFields_eq valid shown.sound.suits (fieldWritable_of_valid (valid.node top.known))
    split at hfields
    · obtain ⟨t', heq, hagent, suits⟩ := hfields
      exact .of_eq heq (shown.sound.of_same (by rw [hagent]) (by rw [hagent]) suits)
    · exact .of_error hfields trivial
  refine .seq ((Quiet.keeps (.forM (Quiet.writeField p component) fields) shown hwrite).and
    (writeFields_stores component fields t)) ?_
  rintro _ u ⟨shown, hstored⟩
  refine finish_did shown rfl top habove h ?_ trivial
  rw [hs] at hstored
  exact bind_eq_ok_iff.mpr ⟨_, hstored, rfl⟩

theorem writeVar_did {slot : VarSlot} {value : ValueRef} (top : r.Top p index k frame (.writeVar slot value)) :
    (stepNode p index frame isBottom rootVisited (.writeVar slot value)).Leads t fun outcome t' =>
      t'.Did p now index rootVisited r s outcome := by
  have hvalid := valid.node top.known
  have hvalue := hvalid.values value (by simp [Node.values])
  have hwrite := (Quiet.writeVar p slot value).keeps shown
    (writeVar_ensures valid shown.sound hvalid.payload.1 hvalue hvalid.payload.2)
  refine andGoOn_did (.seq (hwrite.and (writeVar_stores slot value t)) ?_)
  rintro _ u ⟨shown, hstored⟩
  refine finish_did shown rfl top habove h ?_ trivial
  rw [hs] at hstored
  exact bind_eq_ok_iff.mpr ⟨_, hstored, rfl⟩

end Nodes

/-- Whatever node is on top of the lane, but for queries and parallel nodes. -/
theorem stepNode_did (valid : p.Valid) (shown : t.Shows p index 1 now r) (hs : t.world.surroundings p = s) {k : Kin}
    {frame : Frame} {node : Node} (top : r.Top p index k frame node) (h : frame.node.toNat < p.size)
    (habove : ¬ p.IsLaneRoot frame.node → 1 < k.frames.length) (hkind : node.kind ≠ .parallel ∧ node.kind ≠ .query)
    (rootVisited : Bool) :
    (stepNode p index frame (k.frames.length = 1) rootVisited node).Leads t fun outcome t' =>
      t'.Did p now index rootVisited r s outcome := by
  have hvalid := valid.node top.known
  have habove (hkind : node.kind ≠ .root ∧ node.kind ≠ .threadRoot) : 1 < k.frames.length := by
    refine habove ?_
    rintro ⟨other, hother, hroot⟩
    obtain rfl := Option.some.inj (top.known.symm.trans hother)
    exact hroot.elim hkind.1 hkind.2
  have deep (habove : 1 < k.frames.length) : t.Shows p index 2 now r := shown.deepen top.lane habove
  cases node with
  | query _ _ => exact absurd rfl hkind.2
  | parallel _ _ => exact absurd rfl hkind.1
  | root child | threadRoot child _ =>
    exact root_did shown hs top h (hvalid.children child (by simp [Node.children])) rfl rfl (fun h => ⟨h, rfl, rfl⟩) id
  | fail => exact fail_did shown hs top h rfl trivial
  | nop =>
    have habove := habove (by simp [Node.kind])
    exact andGoOn_did (finish_did (deep habove) hs top habove h rfl trivial)
  | «catch» child =>
    have habove := habove (by simp [Node.kind])
    have hchild := hvalid.children child (by simp [Node.children])
    exact andGoOn_did (single_did (deep habove) hs top habove h hchild rfl (fun h => ⟨h, rfl, rfl⟩) id)
  | sequence _ =>
    have habove := habove (by simp [Node.kind])
    exact sequence_did valid (deep habove) hs habove h top
  | selector _ =>
    have habove := habove (by simp [Node.kind])
    exact selector_did valid (deep habove) hs habove h top
  | optional _ _ =>
    have habove := habove (by simp [Node.kind])
    exact optional_did valid (deep habove) hs habove h top
  | writeField _ _ =>
    have habove := habove (by simp [Node.kind])
    exact writeField_did valid (deep habove) hs habove h top
  | writeVar _ _ =>
    have habove := habove (by simp [Node.kind])
    exact writeVar_did valid (deep habove) hs habove h top
  | wait _ =>
    have habove := habove (by simp [Node.kind])
    exact wait_did valid (deep habove) hs top habove h hvalid

/-- A step of a lane that has neither a query nor a parallel node on top. -/
theorem step_did (valid : p.Valid) {t : Tick σ} (steady : t.Steady p) (orderly : t.roster.Orderly)
    (h : index < t.agent.lanes.lanes.size)
    (hkind : ∀ k frame node, t.roster.Top p index k frame node → node.kind ≠ .parallel ∧ node.kind ≠ .query)
    (rootVisited : Bool) :
    (step p index rootVisited).Leads t fun outcome t' =>
      t'.Did p t.world.now index rootVisited t.roster (t.world.surroundings p) outcome := by
  obtain ⟨shown, k, frame, node, top, hknown, habove, hstep⟩ := step_top steady orderly h
  have hdid := stepNode_did valid shown rfl top hknown habove (hkind k frame node top) rootVisited
  unfold Leads Ensures at hdid ⊢
  rwa [hstep]

end Steps

end Act

end BehaviorTree
