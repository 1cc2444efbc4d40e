import BehaviorTree.Proofs.Machine.Landmarks
import BehaviorTree.Proofs.Machine.LaneOrder

/-! What a step adds to the landmarks of a tick. It is read off the roster: a bottom frame calls its child, the agent
starts over, or there is nothing to tell and the lane stays where it is. -/

namespace BehaviorTree

open Refusal
open Tick (overlooks_landmarks)

namespace Roster

variable {σ : Type} [QuerySystem σ]

/-- A step of a lane, with its landmarks. -/
inductive Marks (p : Program) (index : Nat) (rootVisited : Bool) (r : Roster σ) :
    Outcome → Roster σ → List Landmark → Prop
  | yield {k : Kin} (hk : r.lanes[index]? = some k) (hbottom : k.frames.length = 1) :
    Marks p index rootVisited r .suspend r []
  | enter {k : Kin} {frame : Frame} {child : NodeId} (hk : r.lanes[index]? = some k) (hframes : k.frames = [frame])
    (hfirst : rootVisited = false)
    (honce : ∀ child, p.node? frame.node = some (.threadRoot child false) → frame.childIndex = 0) :
    Marks p index rootVisited r .enterRoot (r.onLane index fun k => (k.setProgress 1).push (.start child))
      [.entered k.id frame.node]
  | other {k : Kin} {outcome : Outcome} {r' : Roster σ} (hk : r.lanes[index]? = some k) (habove : 1 < k.frames.length)
    (keeps : r.Keeps index r') (hstay : outcome ≠ .enterRoot) : Marks p index rootVisited r outcome r' []
  | restart {k : Kin} {r' : Roster σ} (hk : r.lanes[index]? = some k) (habove : 1 < k.frames.length)
    (hnext : r'.next = r.next) :
    Marks p index rootVisited r (if index = 0 then .goOn else .suspend) r'.restart [.restarted k.id]

end Roster

theorem Kin.length_setProgress (progress : UInt16) (k : Kin) :
    (k.setProgress progress).frames.length = k.frames.length := by
  obtain hnil | ⟨lower, frame, hconcat⟩ := List.eq_nil_or_concat k.frames
  · simp [setProgress, hnil]
  · have hframes : k.frames = lower ++ [frame] := by simpa using hconcat
    simp [frames_setProgress hframes, hframes]

/-- A step with its landmarks. -/
def Tick.Marked {σ : Type} [QuerySystem σ] (p : Program) (index : Nat) (rootVisited : Bool) (r : Roster σ)
    (before : List Landmark) (outcome : Outcome) (t : Tick σ) : Prop :=
  ∃ new, t.landmarks = before ++ new ∧ r.Marks p index rootVisited outcome t.roster new

namespace Act

variable {σ : Type} {p : Program} {index depth : Nat} {now : UInt64} {r : Roster σ} {t : Tick σ} {k : Kin}

/-! ### Landmarks -/

theorem emit_landmarks (shown : t.Shows p index depth now r) (hk : r.lanes[index]? = some k) {id : NodeId}
    (h : id.toNat < p.size) (event : EventKind) :
    (emit p index id event).Leads t fun _ t' => ∃ kind,
      t'.landmarks = t.landmarks ++
        (Notice.traced ⟨id, kind, event, k.id, k.frames.length, t.cycle⟩).landmark?.toList := by
  obtain ⟨lane, hlane, hid, hcount⟩ := shown.lane_of hk
  obtain ⟨node, hnode⟩ := Program.node?_of_lt h
  rw [← hid, ← hcount]
  exact .bind_of_eq hlane (.bind_of_eq (node_eq hnode) (.bind_of_eq rfl (.of_eq rfl ⟨_, t.landmarks_push _⟩)))

theorem call_landmarks (shown : t.Shows p index (depth + 1) now r) (hk : r.lanes[index]? = some k) {caller : NodeId}
    (h : caller.toNat < p.size) (progress : UInt16) (child : NodeId) :
    (call p index caller progress child).Leads t fun _ t' =>
      t'.landmarks = t.landmarks ++ if k.frames.length = 1 then [.entered k.id caller] else [] := by
  refine .seq ((setChildIndex_shows shown progress).and (overlooks_landmarks.onLanes index _ t)) ?_
  rintro _ u ⟨shown, hset⟩
  have hk' : (r.onLane index (Kin.setProgress progress)).lanes[index]? = some (k.setProgress progress) := by
    simp [Roster.onLane, hk]
  refine .seq (emit_landmarks shown hk' h .call) ?_
  rintro _ v ⟨kind, hemit⟩
  refine (overlooks_landmarks.onLanes index _ v).mono fun _ _ hpush => ?_
  rw [hpush, hemit, hset, Kin.length_setProgress, Notice.landmark?]
  dsimp only
  split_ifs <;> rfl

/-- A call is no landmark above the bottom of the lane. -/
theorem call_silent (shown : t.Shows p index (depth + 1) now r) (hk : r.lanes[index]? = some k)
    (habove : 1 < k.frames.length) {caller : NodeId} (h : caller.toNat < p.size) (progress : UInt16) (child : NodeId) :
    (call p index caller progress child).Leads t fun _ t' => t'.landmarks = t.landmarks :=
  (call_landmarks shown hk h progress child).mono fun _ t' hcall => by
    rw [hcall, if_neg (by omega), List.append_nil]

theorem single_silent (shown : t.Shows p index (depth + 1) now r) (hk : r.lanes[index]? = some k)
    (habove : 1 < k.frames.length) {frame : Frame} (h : frame.node.toNat < p.size) (child : NodeId) :
    (single p index frame child).Leads t fun _ t' => t'.landmarks = t.landmarks := by
  unfold single
  split_ifs
  · exact call_silent shown hk habove h 1 child
  · exact overlooks_landmarks.finish p index frame.node t

theorem andGoOn_silent {act : Act σ Unit} (h : act.Leads t fun _ t' => t'.landmarks = t.landmarks) :
    (andGoOn act).Leads t fun _ t' => t'.landmarks = t.landmarks :=
  .seq h fun _ _ h => .pure h

variable [QuerySystem σ] {frame : Frame} {node : Node} {rootVisited : Bool}

theorem parallel_silent (shown : t.Shows p index 2 now r) {main thread : NodeId}
    (top : r.Top p index k frame (.parallel main thread)) (habove : 1 < k.frames.length) (h : frame.node.toNat < p.size)
    (hthread : p.IsLaneRoot thread) :
    (parallel p index frame main thread).Leads t fun _ t' => t'.landmarks = t.landmarks := by
  unfold parallel
  split_ifs
  · have hk := top.onLane (Kin.setProgress 1)
    refine .seq ((setChildIndex_shows shown 1).and (overlooks_landmarks.onLanes index _ t)) ?_
    rintro _ u ⟨shown, hset⟩
    have orderly := shown.orderly
    refine .seq ((freshLane_shows shown).and (overlooks_landmarks.freshLane u)) ?_
    rintro id v ⟨⟨rfl, shown⟩, hfresh⟩
    refine .bind_of_eq rfl (.seq ((spawn_shows shown rfl orderly hk hthread).and (overlooks_landmarks.onLanes _ _ v)) ?_)
    rintro place w ⟨shown, hspawn⟩
    have hnotice := (Reports.notice (.spawned frame.node r.next place)).quiet.keeps shown (notice_ensures shown.sound _)
    refine .seq (hnotice.and (overlooks_landmarks.notice rfl w)) ?_
    rintro _ x ⟨shown, hreport⟩
    obtain ⟨lane, hlane⟩ : ∃ lane, Act.lane index x = .ok (lane, x) := ⟨_, lane_eq shown.sound.index_lt⟩
    have hemit := (Reports.emitFor p frame.node .spawn r.next lane.count).quiet.keeps shown
      (emitFor_ensures shown.sound h .spawn r.next lane.count)
    refine .bind_of_eq hlane (.seq (hemit.and (overlooks_landmarks.emitFor p frame.node (by decide) r.next _ x)) ?_)
    rintro _ y ⟨shown, hevent⟩
    have hk' := Roster.getElem?_spawn hk k.id thread
    refine (call_silent shown hk' (by rwa [Kin.length_setProgress]) h 1 main).mono fun _ _ hcall => ?_
    rw [hcall, hevent, hreport, hspawn, hfresh, hset]
  · exact .seq (overlooks_landmarks.abortThread p index frame.node thread t) fun _ u habort =>
      (overlooks_landmarks.finish p index frame.node u).mono fun _ _ hfinish => hfinish.trans habort

/-! ### Failures -/

theorem restart_landmarks (shown : t.Shows p index depth now r) (hk : r.lanes[index]? = some k) :
    (restart index).Leads t fun _ t' => t'.landmarks = t.landmarks ++ [.restarted k.id] := by
  obtain ⟨lane, hlane, hid, -⟩ := shown.lane_of hk
  refine .bind_of_eq hlane (.bind_of_eq rfl ((overlooks_landmarks.startOver index _).mono fun _ _ hsame => ?_))
  rw [hsame, t.landmarks_push, hid]
  rfl

theorem fail_marked (shown : t.Shows p index 1 now r) (top : r.Top p index k frame node) (h : frame.node.toNat < p.size)
    (habove : 1 < k.frames.length) :
    (fail p index frame.node).Leads t fun outcome t' => t'.Marked p index rootVisited r t.landmarks outcome := by
  have silent : (raise p index frame.node : Act σ Bool).Leaves Tick.landmarks :=
    (overlooks_landmarks.emit p index frame.node (by decide)).bind fun _ => (overlooks_landmarks.onLanes index _).bind
      fun _ => (Leaves.lane index).bind fun lane => overlooks_landmarks.unwind p index lane.count
  rw [fail_eq]
  refine .seq ((raise_unwinds shown top.lane h).and (silent t)) ?_
  rintro caught u ⟨⟨r', unwinds, shown'⟩, hsame⟩
  have keeps := (Roster.Keeps.pop r).trans (.unwinds unwinds (shown.orderly.onLane index fun _ => ⟨rfl, rfl⟩))
  cases caught with
  | true =>
    refine .pure ⟨[], by rw [hsame, List.append_nil], ?_⟩
    rw [shown'.roster]
    exact .other top.lane habove keeps (by decide)
  | false =>
    obtain ⟨k', hk', hid⟩ := keeps.exists_lane top.lane
    refine ((restart_roster shown').and (restart_landmarks shown' hk')).mono ?_
    rintro outcome v ⟨⟨hroster, -, rfl⟩, hlandmarks⟩
    refine ⟨[.restarted k.id], by rw [hlandmarks, hsame, hid], ?_⟩
    rw [hroster]
    exact .restart top.lane habove unwinds.next_eq

/-! ### Nodes -/

theorem laneRoot_marked (shown : t.Shows p index 1 now r) (top : r.Top p index k frame node)
    (hbottom : k.frames.length = 1) (h : frame.node.toNat < p.size) {child : NodeId} (hchild : child.toNat < p.size)
    {once : Bool} (hroot : node.rootChild? = some (child, once)) :
    (laneRoot p index frame child once rootVisited).Leads t fun outcome t' =>
      t'.Marked p index rootVisited r t.landmarks outcome := by
  unfold laneRoot
  split_ifs with hagain
  · refine .seq ((emit_shows shown h .yield).and (overlooks_landmarks.emit p index frame.node (by decide) t)) ?_
    rintro _ u ⟨shown, hsame⟩
    refine .pure ⟨[], by rw [hsame, List.append_nil], ?_⟩
    rw [shown.roster]
    exact .yield top.lane hbottom
  · refine .seq ((call_shows shown h hchild 1).and (call_landmarks shown top.lane h 1 child)) ?_
    rintro _ u ⟨shown, hcall⟩
    refine .pure ⟨[.entered k.id frame.node], by rw [hcall, if_pos hbottom], ?_⟩
    obtain ⟨only, hframes⟩ := List.length_eq_one_iff.mp hbottom
    have hlast := top.last
    rw [hframes] at hlast
    obtain rfl : only = frame := Option.some.inj hlast
    rw [shown.roster]
    refine .enter top.lane hframes (by simp_all) fun c hnode => ?_
    obtain rfl := Option.some.inj (top.known.symm.trans hnode)
    obtain ⟨-, rfl⟩ := Prod.mk.inj (Option.some.inj hroot)
    simp_all

/-- A step of a node above the bottom that does not fail. -/
theorem marked_of_silent {act : Act σ Outcome} (shown : t.Shows p index 1 now r) (top : r.Top p index k frame node)
    (habove : 1 < k.frames.length) (hpass : ¬ node.Fails frame.childIndex)
    (moves : act.Leads t fun outcome t' => r.Moves p now index rootVisited outcome t'.roster ∧ t'.world.now = now)
    (silent : act.Leads t fun _ t' => t'.landmarks = t.landmarks) :
    act.Leads t fun outcome t' => t'.Marked p index rootVisited r t.landmarks outcome := by
  refine (moves.and silent).mono ?_
  rintro outcome u ⟨⟨moves, -⟩, hsame⟩
  generalize hroster : u.roster = r' at moves
  refine ⟨[], by rw [hsame, List.append_nil], hroster ▸ .other top.lane habove (moves.keeps shown.orderly top hpass) ?_⟩
  intro hroot
  cases moves with
  | enter top' hbottom _ _ =>
    obtain ⟨rfl, -, -⟩ := top.unique top'
    omega
  | poll _ _ _ polls | ask _ _ _ polls =>
    subst hroot
    cases polls
  | restart top' hfail _ =>
    obtain ⟨-, rfl, rfl⟩ := top.unique top'
    exact hpass hfail
  | _ => cases hroot

/-- Whatever node is on top of the lane. -/
theorem stepNode_marked (valid : p.Valid) (shown : t.Shows p index 1 now r) (top : r.Top p index k frame node)
    (hknown : frame.node.toNat < p.size) (habove : ¬ p.IsLaneRoot frame.node → 1 < k.frames.length)
    (rootVisited : Bool) :
    (stepNode p index frame (k.frames.length = 1) rootVisited node).Leads t fun outcome t' =>
      t'.Marked p index rootVisited r t.landmarks outcome := by
  have hvalid := valid.node top.known
  have moves := stepNode_moves valid shown top hknown habove rootVisited
  have hpos := List.length_pos_of_ne_nil top.ne_nil
  have habove (hkind : node.kind ≠ .root ∧ node.kind ≠ .threadRoot) : 1 < k.frames.length := by
    refine habove ?_
    rintro ⟨other, hother, hroot⟩
    obtain rfl := Option.some.inj (top.known.symm.trans hother)
    exact hroot.elim hkind.1 hkind.2
  have plain (habove : 1 < k.frames.length) (hpass : ¬ node.Fails frame.childIndex)
      (silent : t.Shows p index 2 now r → (stepNode p index frame (k.frames.length = 1) rootVisited node).Leads t
        fun _ t' => t'.landmarks = t.landmarks) :=
    marked_of_silent shown top habove hpass moves (silent (shown.deepen top.lane habove))
  have hfinish := overlooks_landmarks.finish (σ := σ) p index frame.node
  cases node with
  | root child | threadRoot child _ =>
    have hchild := hvalid.children child (by simp [Node.children])
    by_cases hbottom : k.frames.length = 1
    · simp only [stepNode, hbottom, decide_true, if_true]
      exact laneRoot_marked shown top hbottom hknown hchild rfl
    · refine plain (by omega) id fun shown => ?_
      simp only [stepNode, hbottom, decide_false, Bool.false_eq_true, if_false]
      exact andGoOn_silent (single_silent shown top.lane (by omega) hknown child)
  | fail => exact fail_marked shown top hknown (habove (by simp [Node.kind]))
  | selector branches =>
    have habove := habove (by simp [Node.kind])
    by_cases hfirst : frame.childIndex = 0
    · simp only [stepNode, hfirst, ne_eq, not_true_eq_false, if_false]
      refine .seq ((choose_shows valid shown hvalid).and (overlooks_landmarks.choose p branches 0 t)) ?_
      rintro choice u ⟨⟨shown, hchild⟩, hsame⟩
      cases choice with
      | none => exact hsame ▸ fail_marked shown top hknown habove
      | some c =>
        have shown := shown.deepen top.lane habove
        have silent := call_silent shown top.lane habove hknown c.1 c.2
        refine .seq ((call_shows shown hknown (hchild c rfl) c.1).and silent) ?_
        rintro _ v ⟨shown, hcall⟩
        refine .pure ⟨[], by rw [hcall, hsame, List.append_nil], ?_⟩
        rw [shown.roster]
        exact .other top.lane habove (.call top.lane top.ne_nil c.1 (.inr habove) c.2) (by decide)
    · refine plain habove hfirst fun _ => ?_
      simp only [stepNode, if_pos hfirst]
      exact andGoOn_silent (hfinish t)
  | nop => exact plain (habove (by simp [Node.kind])) id fun _ => andGoOn_silent (hfinish t)
  | «catch» child =>
    have habove := habove (by simp [Node.kind])
    exact plain habove id fun shown => andGoOn_silent (single_silent shown top.lane habove hknown child)
  | sequence children =>
    have habove := habove (by simp [Node.kind])
    refine plain habove id fun shown => ?_
    simp only [stepNode]
    refine andGoOn_silent ?_
    cases children[frame.childIndex.toNat]? with
    | none => exact hfinish t
    | some child =>
      by_cases hfits : frame.childIndex.toNat + 1 < 0x10000
      · simp only [hfits, if_true]
        exact call_silent shown top.lane habove hknown _ child
      · simp only [hfits, if_false]
        exact .bind (.of_error (show _ = Except.error Fault.overflow from rfl) trivial)
  | optional guard child =>
    have habove := habove (by simp [Node.kind])
    refine plain habove id fun shown => ?_
    simp only [stepNode]
    refine andGoOn_silent ?_
    split_ifs
    · exact hfinish t
    · have hguard := (Reports.evaluateWith p guard Surroundings.evaluateBool).quiet.keeps shown
        (evaluateBool_ensures valid shown.sound (hvalid.values guard (by simp [Node.values])) hvalid.payload)
      refine .seq (hguard.and (overlooks_landmarks.evaluateWith p guard Surroundings.evaluateBool t)) ?_
      rintro holds u ⟨shown, hsame⟩
      cases holds with
      | true => exact (call_silent shown top.lane habove hknown 1 child).mono fun _ _ hcall => hcall.trans hsame
      | false => exact (hfinish u).mono fun _ _ hfinish => hfinish.trans hsame
  | writeField component fields =>
    refine plain (habove (by simp [Node.kind])) id fun _ => andGoOn_silent ?_
    exact ((Leaves.forM (overlooks_landmarks.writeField p component) fields).bind fun _ => hfinish) t
  | writeVar slot value =>
    refine plain (habove (by simp [Node.kind])) id fun _ => andGoOn_silent ?_
    exact ((overlooks_landmarks.writeVar p slot value).bind fun _ => hfinish) t
  | wait goal => exact plain (habove (by simp [Node.kind])) id fun _ => overlooks_landmarks.wait p index frame goal t
  | query id result =>
    exact plain (habove (by simp [Node.kind])) (fun h => h) fun _ => overlooks_landmarks.query p index frame id result t
  | parallel main thread =>
    have habove := habove (by simp [Node.kind])
    have hthread : p.IsLaneRoot thread := by
      obtain ⟨node, hthread, hkind⟩ := Option.map_eq_some_iff.mp hvalid.payload
      exact ⟨node, hthread, .inr hkind⟩
    exact plain habove id fun shown => andGoOn_silent (parallel_silent shown top habove hknown hthread)

/-- A step that returns. -/
theorem step_marked (valid : p.Valid) {t : Tick σ} (steady : t.Steady p) (orderly : t.roster.Orderly)
    (h : index < t.agent.lanes.lanes.size) (rootVisited : Bool) :
    (step p index rootVisited).Leads t fun outcome t' =>
      t'.Marked p index rootVisited t.roster t.landmarks outcome := by
  obtain ⟨shown, k, frame, node, top, hknown, habove, hstep⟩ := step_top steady orderly h
  have hmarked := stepNode_marked valid shown top hknown habove rootVisited
  unfold Leads Ensures at hmarked ⊢
  rwa [hstep]

end Act

/-! ### Runs -/

/-- Kept along the ticks of an agent. `inv` holds whenever a lane is about to make a step, `rest` when it has
suspended. -/
structure Agent.Turning {σ : Type} [QuerySystem σ] (p : Program) (agent : Agent)
    (inv : Nat → Bool → Roster σ → List Landmark → Prop) (rest : Nat → Roster σ → List Landmark → Prop) : Prop where
  start : ∀ {r : Roster σ} {k : Kin}, r.Regular p → r.lanes[0]? = some k →
    (∀ id, r.Unbegun id → agent.roster.Unbegun id) → inv 0 false r [.began k.id]
  step : ∀ {index : Nat} {rootVisited : Bool} {outcome : Outcome} {r r' : Roster σ} {landmarks new : List Landmark},
    inv index rootVisited r landmarks → r.Regular p → r'.Regular p → r.Marks p index rootVisited outcome r' new →
      match outcome with
      | .goOn => inv index rootVisited r' (landmarks ++ new)
      | .enterRoot => inv index true r' (landmarks ++ new)
      | .suspend => rest index r' (landmarks ++ new)
  next : ∀ {index : Nat} {r : Roster σ} {landmarks : List Landmark} {k : Kin}, rest index r landmarks → r.Regular p →
    r.lanes[index + 1]? = some k → inv (index + 1) false r (landmarks ++ [.began k.id])

/-- A tick between two steps. -/
structure Tick.Going {σ : Type} (p : Program) (t : Tick σ) : Prop where
  lives : ∃ spawns, p.Lives t.agent spawns
  suits : t.world.Suits p

namespace Tick.Going

variable {σ : Type} {p : Program} {index : Nat} {t t' : Tick σ}

theorem steady (going : t.Going p) (valid : p.Valid) : t.Steady p := by
  obtain ⟨spawns, lives⟩ := going.lives
  exact ⟨(lives.tallied valid).1, going.suits⟩

theorem regular (going : t.Going p) (valid : p.Valid) : t.roster.Regular p := by
  obtain ⟨spawns, lives⟩ := going.lives
  exact (lives.regular valid).same rfl rfl

theorem step [QuerySystem σ] (going : t.Going p) (valid : p.Valid) (h : index < t.agent.lanes.lanes.size)
    {rootVisited : Bool} {outcome : Outcome}
    (hstep : Act.step p index rootVisited { t with cycle := t.cycle + 1 } = .ok (outcome, t')) :
    t'.Going p ∧ t'.Marked p index rootVisited t.roster t.landmarks outcome ∧
      (outcome = .suspend ∨ index < t'.agent.lanes.lanes.size) := by
  have steady := (going.steady valid).counted
  obtain ⟨settled, hkept⟩ := Act.step_settled valid steady h hstep
  obtain ⟨spawns, lives⟩ := going.lives
  have lives' := Program.Lives.step (t := { t with cycle := t.cycle + 1 }) lives going.suits h hstep
  have marked := Act.step_marked valid steady (going.regular valid).orderly h rootVisited
  exact ⟨⟨⟨_, lives'⟩, settled.suits⟩, marked.of_ok hstep, hkept⟩

theorem turn (going : t.Going p) (valid : p.Valid) (h : index < t.agent.lanes.lanes.size)
    (hturn : Act.beginTurn p index t = .ok ((), t')) :
    ∃ notices k, t' = { t with notices := notices } ∧ t.roster.lanes[index]? = some k ∧
      t'.landmarks = t.landmarks ++ [.began k.id] := by
  have steady := going.steady valid
  have shown := steady.shows (going.regular valid).orderly h
  obtain ⟨notices, hturn'⟩ := Act.beginTurn_eq steady h
  obtain ⟨id, hknown, hemit⟩ := Act.beginTurn_emit steady h
  obtain ⟨k, hk⟩ := shown.kin_of
  obtain ⟨kind, hlandmarks⟩ := (Act.emit_landmarks shown hk hknown .start).of_ok (hemit.symm.trans hturn)
  exact ⟨notices, k, congrArg Prod.snd (Except.ok.inj (hturn.symm.trans hturn')), hk, hlandmarks⟩

end Tick.Going

section Runs

variable {σ : Type} [QuerySystem σ] {p : Program} {agent : Agent} {inv : Nat → Bool → Roster σ → List Landmark → Prop}
  {rest : Nat → Roster σ → List Landmark → Prop}

namespace Act

variable {index : Nat} {rootVisited : Bool} {t : Tick σ}

/-- Whenever a step begins. -/
theorem Visits.turning (valid : p.Valid) (turning : agent.Turning p inv rest) {budget i : Nat} {u : Tick σ}
    (visits : Visits p budget index rootVisited t i u) (hinv : inv index rootVisited t.roster t.landmarks)
    (going : t.Going p) (h : index < t.agent.lanes.lanes.size) :
    ∃ rootVisited', inv i rootVisited' u.roster u.landmarks := by
  induction visits with
  | here => exact ⟨_, hinv⟩
  | goOn hstep _ ih | enterRoot hstep _ ih =>
    obtain ⟨going', ⟨new, hnew, marks⟩, hkept⟩ := going.step valid h hstep
    have hinv := turning.step hinv (going.regular valid) (going'.regular valid) marks
    exact ih (hnew ▸ hinv) going' (by simpa using hkept)
  | next hstep hmore hturn _ ih =>
    obtain ⟨going', ⟨new, hnew, marks⟩, -⟩ := going.step valid h hstep
    have hrest := turning.step hinv (going.regular valid) (going'.regular valid) marks
    obtain ⟨notices, k, rfl, hk, hbegan⟩ := going'.turn valid hmore hturn
    have hinv := turning.next hrest (going'.regular valid) hk
    exact ih (hbegan ▸ hnew ▸ hinv) ⟨going'.lives, going'.suits⟩ hmore

/-- After the last step. -/
theorem runFrom_turning (valid : p.Valid) (turning : agent.Turning p inv rest) (maxCycles budget : Nat) {t' : Tick σ}
    (hrun : runFrom p maxCycles budget index rootVisited t = .ok t') (hinv : inv index rootVisited t.roster t.landmarks)
    (going : t.Going p) (h : index < t.agent.lanes.lanes.size) :
    ∃ i, rest i t'.roster t'.landmarks ∧ t'.agent.lanes.lanes.size ≤ i + 1 := by
  induction budget generalizing index t rootVisited with
  | zero => cases hrun
  | succ budget ih =>
    rw [runFrom] at hrun
    cases hstep : Act.step p index rootVisited { t with cycle := t.cycle + 1 } with
    | error fault =>
      rw [hstep] at hrun
      cases hrun
    | ok r =>
      obtain ⟨outcome, u⟩ := r
      obtain ⟨going', ⟨new, hnew, marks⟩, hkept⟩ := going.step valid h hstep
      have hafter := turning.step hinv (going.regular valid) (going'.regular valid) marks
      rw [hstep] at hrun
      cases outcome with
      | goOn | enterRoot => exact ih hrun (hnew ▸ hafter) going' (by simpa using hkept)
      | suspend =>
        dsimp only at hrun
        split_ifs at hrun with hmore
        · obtain ⟨notices, hturn⟩ := beginTurn_eq (going'.steady valid) hmore
          rw [hturn] at hrun
          obtain ⟨-, k, -, hk, hbegan⟩ := going'.turn valid hmore hturn
          have hinv := turning.next hafter (going'.regular valid) hk
          exact ih hrun (hbegan ▸ hnew ▸ hinv) ⟨going'.lives, going'.suits⟩ hmore
        · obtain rfl := Except.ok.inj hrun
          exact ⟨index, hnew ▸ hafter, Nat.le_of_not_lt hmore⟩

end Act

namespace Program

variable {world : World σ} {maxCycles : Nat} {spawns : Spawns}

/-- When the first lane begins its turn. -/
theorem start_turning (valid : p.Valid) (turning : agent.Turning p inv rest) (lives : p.Lives agent spawns)
    (suits : world.Suits p) {t t' : Tick σ}
    (hstart : (if agent.lanes.lanes.isEmpty then Act.createPrimary else pure () : Act σ Unit)
      ⟨agent, world, 0, #[]⟩ = .ok ((), t))
    (hturn : Act.beginTurn p 0 t = .ok ((), t')) :
    inv 0 false t'.roster t'.landmarks ∧ t'.Going p ∧ 0 < t'.agent.lanes.lanes.size := by
  have hensures := start_ensures valid (lives.tallied valid).1 suits
  unfold Act.Ensures at hensures
  rw [hstart] at hensures
  obtain ⟨started, hsize⟩ := hensures
  obtain ⟨going, hunbegun, hnone⟩ :
      t.Going p ∧ (∀ id, t.roster.Unbegun id → agent.roster.Unbegun id) ∧ t.landmarks = [] := by
    split_ifs at hstart with hempty
    · have hlanes : agent.lanes.lanes = #[] := Array.isEmpty_iff.mp hempty
      have lives' := Program.Lives.begin (t := ⟨agent, world, 0, #[]⟩) lives suits hlanes hstart
      have hroster := ((Act.createPrimary_roster (t := ⟨agent, world, 0, #[]⟩) hlanes).of_ok hstart).1
      refine ⟨⟨⟨_, lives'⟩, started.suits⟩, fun id hid => ?_, ?_⟩
      · rw [hroster] at hid
        exact hid.of_begin
      · exact (Tick.overlooks_landmarks.createPrimary _).of_ok hstart
    · obtain ⟨-, rfl⟩ := Prod.mk.inj (Except.ok.inj hstart)
      exact ⟨⟨⟨_, lives⟩, suits⟩, fun _ hid => hid, rfl⟩
  obtain ⟨notices, k, rfl, hk, hbegan⟩ := going.turn valid hsize hturn
  rw [hbegan, hnone]
  exact ⟨turning.start (going.regular valid) hk hunbegun, ⟨going.lives, going.suits⟩, hsize⟩

theorem Visits.turning (valid : p.Valid) (turning : agent.Turning p inv rest) (lives : p.Lives agent spawns)
    (suits : world.Suits p) {index : Nat} {u : Tick σ} (visits : p.Visits maxCycles agent world index u) :
    ∃ rootVisited, inv index rootVisited u.roster u.landmarks := by
  obtain ⟨t, t', hstart, hturn, hvisits⟩ := visits
  obtain ⟨hinv, going, hsize⟩ := start_turning valid turning lives suits hstart hturn
  exact hvisits.turning valid turning hinv going hsize

theorem tick_turning (valid : p.Valid) (turning : agent.Turning p inv rest) (lives : p.Lives agent spawns) {t : Tick σ}
    (htick : p.tick maxCycles agent world = .ok t) :
    ∃ index, rest index t.roster t.landmarks ∧ t.roster.lanes.length ≤ index + 1 := by
  obtain ⟨checked, hlanes⟩ := unit_bind_eq_ok_iff.mp htick
  obtain ⟨t', hrun, hcheck⟩ := bind_eq_ok_iff.mp hlanes
  obtain ⟨-, hsame⟩ := unit_bind_eq_ok_iff.mp hcheck
  obtain rfl := Except.ok.inj hsame
  obtain ⟨⟨⟨⟩, started⟩, hstart, hrun⟩ := bind_eq_ok_iff.mp hrun
  obtain ⟨⟨⟨⟩, begun⟩, hturn, hrun⟩ := bind_eq_ok_iff.mp hrun
  obtain ⟨hinv, going, hsize⟩ := start_turning valid turning lives (World.suits_of_check checked) hstart hturn
  obtain ⟨index, hrest, hlast⟩ := Act.runFrom_turning valid turning maxCycles maxCycles hrun hinv going hsize
  exact ⟨index, hrest, (LaneStack.length_kin _).symm ▸ hlast⟩

end Program

end Runs

end BehaviorTree
