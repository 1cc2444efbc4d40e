import BehaviorTree.Proofs.Machine.Kin
import BehaviorTree.Proofs.Machine.Leaves
import BehaviorTree.Proofs.Machine.Step

/-! Rosters: the lanes of an agent by their ids, with the query in flight. What each part of a step does to the
roster is said once; values, memory and reports leave it alone. -/

namespace BehaviorTree

open Refusal

/-- The lanes of an agent, its query in flight, the id of its next lane, and the query system. -/
structure Roster (σ : Type) where
  lanes : List Kin
  holder : Option QueryRequest
  next : LaneId
  queries : σ

namespace Roster

variable {σ : Type}

def onLane (index : Nat) (f : Kin → Kin) (r : Roster σ) : Roster σ :=
  { r with lanes := r.lanes.modify index f }

/-- Adds a lane that a lane of the given id started. -/
def spawn (parent : LaneId) (thread : NodeId) (r : Roster σ) : Roster σ :=
  { r with lanes := r.lanes ++ [⟨r.next, some parent, 0, [.start thread]⟩], next := r.next + 1 }

/-- The primary lane alone, under a new id. -/
def begin (r : Roster σ) : Roster σ :=
  { r with lanes := [⟨r.next, none, 0, [.start .root]⟩], next := r.next + 1 }

/-- No two lanes have the same id, none has one that is still to be given, and every lane is younger than the one
that started it. -/
structure Orderly (r : Roster σ) : Prop where
  nodup : (r.lanes.map (·.id)).Nodup
  fresh : ∀ k ∈ r.lanes, k.id < r.next
  younger : ∀ k ∈ r.lanes, ∀ id, k.parent = some id → id < k.id

variable [QuerySystem σ]

/-- Withdraws the query in flight if the lane that asked it is one of those given. -/
def withdraw (gone : LaneId → Prop) [DecidablePred gone] (r : Roster σ) : Roster σ :=
  match r.holder with
  | some request =>
    if gone request.lane then { r with holder := none, queries := QuerySystem.cancel r.queries request } else r
  | none => r

/-- Removes lanes, and the query that one of them asked. -/
def remove (gone : List LaneId) (r : Roster σ) : Roster σ :=
  { r with lanes := Kin.without gone r.lanes }.withdraw (· ∈ gone)

/-- Removes all lanes and begins anew. -/
def restart (r : Roster σ) : Roster σ :=
  (r.withdraw fun _ => True).begin

/-- The newest lane that a lane started at the given root goes, with its descendants. -/
inductive Releases (index : Nat) (thread : NodeId) (r : Roster σ) : Roster σ → Prop
  | nothing {k : Kin} (hk : r.lanes[index]? = some k) (h : ∀ c ∈ Kin.children r.lanes k.id, c.root? ≠ some thread) :
    Releases index thread r r
  | lane {k c : Kin} {owned : Nat} {gone : List LaneId} (hk : r.lanes[index]? = some k)
    (hc : r.lanes[owned]? = some c) (hparent : c.parent = some k.id) (hroot : c.root? = some thread)
    (hlast : ∀ (j : Nat) (d : Kin), r.lanes[j]? = some d → owned < j → d.parent = some k.id → d.root? ≠ some thread)
    (lineage : Kin.Lineage r.lanes c.id gone) (hkept : (r.remove gone).lanes[index]? = some k) :
    Releases index thread r (r.remove gone)

omit [QuerySystem σ] in
theorem onLane_onLane (index : Nat) (f g : Kin → Kin) (r : Roster σ) :
    (r.onLane index f).onLane index g = r.onLane index (g ∘ f) := by
  simp [onLane, List.modify_modify_eq]

omit [QuerySystem σ] in
theorem mem_onLane {index : Nat} {r : Roster σ} {f : Kin → Kin} {k' : Kin} (h : k' ∈ (r.onLane index f).lanes) :
    ∃ (i : Nat) (k : Kin), r.lanes[i]? = some k ∧ k' = if index = i then f k else k := by
  obtain ⟨i, hi⟩ := List.mem_iff_getElem?.mp h
  rw [onLane, List.getElem?_modify] at hi
  obtain ⟨k, hk, rfl⟩ := Option.map_eq_some_iff.mp hi
  exact ⟨i, k, hk, rfl⟩

omit [QuerySystem σ] in
theorem ids_onLane (index : Nat) (r : Roster σ) {f : Kin → Kin} (hf : ∀ k, Kin.Same k (f k)) :
    (r.onLane index f).lanes.map (·.id) = r.lanes.map (·.id) := by
  apply List.ext_getElem?
  intro i
  simp only [onLane, List.getElem?_map, List.getElem?_modify]
  cases r.lanes[i]? with
  | none => rfl
  | some k =>
    by_cases hi : index = i
    · simp [hi, (hf k).1]
    · simp [hi]

@[simp] theorem withdraw_lanes (gone : LaneId → Prop) [DecidablePred gone] (r : Roster σ) :
    (r.withdraw gone).lanes = r.lanes := by
  unfold withdraw
  split
  · split_ifs <;> rfl
  · rfl

@[simp] theorem withdraw_next (gone : LaneId → Prop) [DecidablePred gone] (r : Roster σ) :
    (r.withdraw gone).next = r.next := by
  unfold withdraw
  split
  · split_ifs <;> rfl
  · rfl

theorem lanes_remove (gone : List LaneId) (r : Roster σ) :
    (r.remove gone).lanes = Kin.without gone r.lanes := by
  rw [remove, withdraw_lanes]

theorem withdraw_congr {gone gone' : LaneId → Prop} [DecidablePred gone] [DecidablePred gone']
    (h : ∀ id, gone id ↔ gone' id) (r : Roster σ) : r.withdraw gone = r.withdraw gone' := by
  unfold withdraw
  split
  next request _ => simp only [h]
  next => rfl

theorem withdraw_withdraw (gone gone' : LaneId → Prop) [DecidablePred gone] [DecidablePred gone'] (r : Roster σ) :
    (r.withdraw gone).withdraw gone' = r.withdraw fun id => gone id ∨ gone' id := by
  cases hholder : r.holder with
  | none => simp [withdraw, hholder]
  | some request =>
    by_cases h : gone request.lane
    · simp [withdraw, hholder, h]
    · by_cases h' : gone' request.lane <;> simp [withdraw, hholder, h, h']

namespace Orderly

variable {r : Roster σ}

omit [QuerySystem σ] in
/-- Lanes may go, and ids may be skipped. -/
theorem mono (orderly : r.Orderly) {r' : Roster σ} (hlanes : r'.lanes.Sublist r.lanes) (hnext : r.next ≤ r'.next) :
    r'.Orderly :=
  ⟨orderly.nodup.sublist (hlanes.map _), fun k hk => Nat.lt_of_lt_of_le (orderly.fresh k (hlanes.mem hk)) hnext,
    fun k hk => orderly.younger k (hlanes.mem hk)⟩

omit [QuerySystem σ] in
/-- Queries have nothing to do with the order of lanes. -/
theorem same {σ' : Type} (orderly : r.Orderly) {r' : Roster σ'} (hlanes : r'.lanes = r.lanes) (hnext : r'.next = r.next) :
    r'.Orderly :=
  ⟨hlanes ▸ orderly.nodup, hlanes ▸ hnext ▸ orderly.fresh, hlanes ▸ orderly.younger⟩

omit [QuerySystem σ] in
/-- A lane stands at one place only. -/
theorem place_inj (orderly : r.Orderly) {i j : Nat} {k : Kin} (hi : r.lanes[i]? = some k) (hj : r.lanes[j]? = some k) :
    i = j := by
  have hlength : i < (r.lanes.map (·.id)).length := by
    rw [List.length_map]
    exact (List.getElem?_eq_some_iff.mp hi).1
  refine (List.getElem?_inj hlength orderly.nodup).mp ?_
  rw [List.getElem?_map, List.getElem?_map, hi, hj]

omit [QuerySystem σ] in
/-- Nobody was started by a lane that is still to come. -/
theorem children_next (orderly : r.Orderly) : Kin.children r.lanes r.next = [] := by
  refine List.filter_eq_nil_iff.mpr fun c hc hparent => ?_
  have hyounger := orderly.younger c hc _ (of_decide_eq_true hparent)
  exact absurd (orderly.fresh c hc) (Nat.lt_asymm hyounger)

omit [QuerySystem σ] in
theorem onLane (orderly : r.Orderly) (index : Nat) {f : Kin → Kin} (hf : ∀ k, Kin.Same k (f k)) :
    (r.onLane index f).Orderly := by
  have hold (k' : Kin) (h : k' ∈ (r.onLane index f).lanes) : ∃ k ∈ r.lanes, k.Same k' := by
    obtain ⟨i, k, hk, rfl⟩ := mem_onLane h
    refine ⟨k, List.mem_of_getElem? hk, ?_⟩
    split_ifs
    · exact hf k
    · exact ⟨rfl, rfl⟩
  refine ⟨ids_onLane index r hf ▸ orderly.nodup, fun k' h => ?_, fun k' h id hid => ?_⟩
  · obtain ⟨k, hk, hsame⟩ := hold k' h
    exact hsame.1 ▸ orderly.fresh k hk
  · obtain ⟨k, hk, hsame⟩ := hold k' h
    exact hsame.1 ▸ orderly.younger k hk id (hsame.2 ▸ hid)

omit [QuerySystem σ] in
theorem spawn (orderly : r.Orderly) {parent : Kin} (h : parent ∈ r.lanes) (thread : NodeId) :
    (r.spawn parent.id thread).Orderly := by
  refine ⟨?_, ?_, ?_⟩
  · simp only [Roster.spawn, List.map_append, List.map_singleton]
    refine List.nodup_append.mpr ⟨orderly.nodup, by simp, ?_⟩
    intro id hid new hnew heq
    obtain ⟨k, hk, rfl⟩ := List.mem_map.mp hid
    exact Nat.ne_of_lt (orderly.fresh k hk) (heq.trans (List.mem_singleton.mp hnew))
  · intro k hk
    obtain hk | hk := List.mem_append.mp hk
    · exact Nat.lt_succ_of_lt (orderly.fresh k hk)
    · rw [List.mem_singleton.mp hk]
      exact Nat.lt_succ_self _
  · intro k hk id hid
    obtain hk | hk := List.mem_append.mp hk
    · exact orderly.younger k hk id hid
    · obtain rfl := List.mem_singleton.mp hk
      exact Option.some.inj hid ▸ orderly.fresh parent h

theorem remove (orderly : r.Orderly) (gone : List LaneId) : (r.remove gone).Orderly := by
  refine orderly.mono ?_ ?_
  · rw [Roster.remove, withdraw_lanes]
    exact List.filter_sublist
  · rw [Roster.remove, withdraw_next]

omit [QuerySystem σ] in
theorem begin (r : Roster σ) : r.begin.Orderly := by
  refine ⟨by simp [Roster.begin], ?_, ?_⟩
  · intro k hk
    rw [List.mem_singleton.mp hk]
    exact Nat.lt_succ_self _
  · intro k hk id hid
    rw [List.mem_singleton.mp hk] at hid
    cases hid

end Orderly

end Roster

/-- What a tick makes of lanes and queries. -/
def Tick.roster {σ : Type} (t : Tick σ) : Roster σ :=
  ⟨t.agent.lanes.kin, t.agent.holder, t.agent.nextLane, t.world.queries⟩

/-- A tick of which the roster is known. The lane that has its turn has at least `depth` frames. -/
structure Tick.Shows {σ : Type} (p : Program) (index depth : Nat) (now : UInt64) (r : Roster σ) (t : Tick σ) :
    Prop where
  sound : t.Sound p (fun _ => True) index depth 0 0
  roster : t.roster = r
  now : t.world.now = now
  orderly : r.Orderly

/-- Supplies do not matter for what an act leads to if it returns. -/
theorem Tick.Sound.supplied {σ : Type} {p : Program} {index depth ids blocks : Nat} {t : Tick σ}
    (sound : t.Sound p (fun _ => True) index depth ids blocks) (ids' blocks' : Nat) :
    t.Sound p (fun _ => True) index depth ids' blocks' :=
  ⟨sound.ordered, sound.suits, sound.framed, sound.occupied, sound.deep, fun _ => trivial, fun _ => trivial⟩

namespace Act

variable {σ α β : Type}

/-! ### Acts that leave the roster alone -/

/-- Neither the roster nor the time changes. -/
abbrev Quiet (act : Act σ α) : Prop :=
  act.Leaves fun t => (t.roster, t.world.now)

theorem Reports.quiet {act : Act σ α} (reports : act.Reports) : act.Quiet :=
  reports.comp fun seen =>
    (Roster.mk seen.1.lanes.kin seen.1.holder seen.1.nextLane seen.2.queries, seen.2.now)

namespace Quiet

theorem onWorld {f : World σ → Except Fault (World σ)}
    (h : ∀ w w', f w = .ok w' → w'.queries = w.queries ∧ w'.now = w.now) : (Act.onWorld f).Quiet := by
  intro t
  refine .onWorld fun world hworld => ?_
  obtain ⟨hqueries, hnow⟩ := h _ _ hworld
  refine Prod.ext ?_ hnow
  show Roster.mk _ _ _ world.queries = _
  rw [hqueries]
  rfl

theorem writeField (p : Program) (component : UInt16) (field : FieldWrite) :
    (Act.writeField p component field : Act σ Unit).Quiet := by
  unfold Act.writeField
  split_ifs
  · refine (Reports.evaluateWith p field.value _).quiet.bind fun bytes => onWorld fun w w' h => ?_
    split at h
    · cases h
    · obtain ⟨data, -, h⟩ := bind_eq_ok_iff.mp h
      obtain rfl := Except.ok.inj h
      exact ⟨rfl, rfl⟩
  · show (MonadExcept.throw Fault.outOfRange : Act σ Unit).Quiet
    exact .throw _

theorem writeVar (p : Program) (slot : VarSlot) (value : ValueRef) : (Act.writeVar p slot value : Act σ Unit).Quiet := by
  refine (Reports.evaluateWith p value _).quiet.bind fun bytes => onWorld fun w w' h => ?_
  obtain ⟨board, -, h⟩ := bind_eq_ok_iff.mp h
  obtain rfl := Except.ok.inj h
  exact ⟨rfl, rfl⟩

theorem write (slot : VarSlot) (value : Constant) : (Act.write slot value : Act σ Unit).Quiet := by
  refine onWorld fun w w' h => ?_
  obtain ⟨board, -, rfl⟩ := map_eq_ok_iff.mp h
  exact ⟨rfl, rfl⟩

end Quiet

section Lanes

variable {p : Program} {index depth : Nat} {now : UInt64} {r : Roster σ} {t : Tick σ}

/-- A quiet act shows the same roster as long as it is sound. -/
theorem Quiet.shows {act : Act σ α} (quiet : act.Quiet) (shown : t.Shows p index depth now r) {depth' : Nat}
    {post : α → Prop}
    (h : act.Leads t fun a t' => t'.Sound p (fun _ => True) index depth' 0 0 ∧ post a) :
    act.Leads t fun a t' => t'.Shows p index depth' now r ∧ post a := by
  refine (h.and (quiet t)).mono fun a t' h => ?_
  obtain ⟨hroster, hnow⟩ := Prod.mk.inj h.2
  exact ⟨⟨h.1.1, hroster.trans shown.roster, hnow.trans shown.now, shown.orderly⟩, h.1.2⟩

/-- A quiet act that keeps the tick sound. -/
theorem Quiet.keeps {act : Act σ α} (quiet : act.Quiet) (shown : t.Shows p index depth now r)
    (h : act.Leads t fun _ t' => t'.Sound p (fun _ => True) index depth 0 0) :
    act.Leads t fun _ t' => t'.Shows p index depth now r :=
  have hshows := quiet.shows shown (h.mono fun _ _ h => ⟨h, trivial⟩)
  hshows.mono fun _ _ h => h.1

/-- What a lane does with its own frames. -/
theorem onLanes_shows (shown : t.Shows p index depth now r) {f : LaneStack → Except Fault (α × LaneStack)} {a : α}
    {lanes : LaneStack} (hf : f t.agent.lanes = .ok (a, lanes)) {g : LaneView → LaneView} {f' : Kin → Kin}
    (hview : lanes.view = t.agent.lanes.view.modify index g) (hid : ∀ v, (g v).id = v.id)
    (howner : ∀ v, (g v).owner = v.owner) (hg : ∀ parent v, Kin.ofView parent (g v) = f' (.ofView parent v))
    {depth' : Nat} (hsound : (onLanes index f).Leads t fun _ t' => t'.Sound p (fun _ => True) index depth' 0 0) :
    (onLanes index f).Leads t fun _ t' => t'.Shows p index depth' now (r.onLane index f') := by
  have hroster : (onLanes index f).Leads t fun _ t' => t'.roster = r.onLane index f' ∧ t'.world.now = now := by
    refine .onLanes hf fun notices => ⟨?_, shown.now⟩
    rw [← shown.roster]
    simp only [Tick.roster, Roster.onLane, LaneStack.kin_of_modify hview hid howner hg]
  refine (hsound.and hroster).mono fun _ _ h => ⟨h.1, h.2.1, h.2.2, ?_⟩
  exact shown.orderly.onLane index (Kin.same_of_ofView hid hg)

theorem setChildIndex_shows (shown : t.Shows p index depth now r) (childIndex : UInt16) :
    (setChildIndex index childIndex).Leads t fun _ t' =>
      t'.Shows p index depth now (r.onLane index (Kin.setProgress childIndex)) := by
  obtain ⟨b, lanes, hset, -, hview, -⟩ :=
    LaneStack.setChildIndex_eq shown.sound.ordered shown.sound.index_lt childIndex
  exact onLanes_shows shown (a := ()) (by rw [hset]; rfl) hview (fun _ => rfl) (fun _ => rfl) (fun _ _ => rfl)
    (setChildIndex_ensures shown.sound childIndex)

theorem setWaitStart_shows (shown : t.Shows p index depth now r) (time : UInt64) :
    (onLanes index fun s => (s.setWaitStart index time).map ((), ·)).Leads t fun _ t' =>
      t'.Shows p index depth now (r.onLane index (Kin.setWaitStart time)) := by
  obtain ⟨lanes, hset, -, hview, -⟩ := LaneStack.setWaitStart_eq shown.sound.ordered shown.sound.index_lt time
  exact onLanes_shows shown (a := ()) (by rw [hset]; rfl) hview (fun _ => rfl) (fun _ => rfl) (fun _ _ => rfl)
    (setWaitStart_ensures shown.sound time)

theorem pop_shows (shown : t.Shows p index (depth + 1) now r) :
    (pop index).Leads t fun _ t' => t'.Shows p index depth now (r.onLane index Kin.pop) := by
  obtain ⟨top, lanes, hpop, -, hview, -⟩ := LaneStack.pop_eq shown.sound.ordered shown.sound.index_lt
  exact onLanes_shows shown (a := ()) (by rw [hpop]; rfl) hview (fun _ => rfl) (fun _ => rfl) (fun _ _ => rfl)
    (pop_ensures shown.sound)

theorem push_shows (shown : t.Shows p index (depth + 1) now r) {child : NodeId} (hchild : child.toNat < p.size) :
    (push index (.start child)).Leads t fun _ t' =>
      t'.Shows p index (depth + 2) now (r.onLane index (Kin.push (.start child))) := by
  obtain ⟨herror, -⟩ | ⟨lanes, hpush, -, hview, -⟩ :=
    LaneStack.push_eq shown.sound.ordered shown.sound.index_lt (.start child)
  · exact .onLanes_error (by rw [herror]; rfl) trivial
  · exact onLanes_shows shown (a := ()) (by rw [hpush]; rfl) hview (fun _ => rfl) (fun _ => rfl) (fun _ _ => rfl)
      (push_ensures (shown.sound.supplied 0 1) hchild)

theorem emit_shows (shown : t.Shows p index depth now r) {id : NodeId} (h : id.toNat < p.size) (event : EventKind) :
    (emit p index id event).Leads t fun _ t' => t'.Shows p index depth now r :=
  (Reports.emit p index id event).quiet.keeps shown (emit_ensures shown.sound h event)

theorem call_shows (shown : t.Shows p index (depth + 1) now r) {caller child : NodeId} (hcaller : caller.toNat < p.size)
    (hchild : child.toNat < p.size) (progress : UInt16) :
    (call p index caller progress child).Leads t fun _ t' =>
      t'.Shows p index (depth + 2) now
        (r.onLane index fun k => (k.setProgress progress).push (.start child)) := by
  refine .seq (setChildIndex_shows shown progress) fun _ t shown => ?_
  refine .seq (emit_shows shown hcaller .call) fun _ t shown => ?_
  exact (push_shows shown hchild).mono fun _ t shown => by rwa [Roster.onLane_onLane] at shown

theorem finish_shows (shown : t.Shows p index (depth + 1) now r) {id : NodeId} (h : id.toNat < p.size) :
    (finish p index id).Leads t fun _ t' => t'.Shows p index depth now (r.onLane index Kin.pop) :=
  .seq (emit_shows shown h .return) fun _ _ shown => pop_shows shown

theorem setHolder_shows (shown : t.Shows p index depth now r) (holder : Option QueryRequest) :
    (setHolder holder).Leads t fun _ t' => t'.Shows p index depth now { r with holder := holder } := by
  refine .of_eq rfl ⟨shown.sound.of_same rfl rfl shown.sound.suits, ?_, shown.now,
    shown.orderly.mono (List.Sublist.refl _) (Nat.le_refl _)⟩
  rw [← shown.roster]
  rfl

/-- What happens to the query system alone. -/
theorem onQueries_shows (shown : t.Shows p index depth now r) (f : σ → σ) :
    (onWorld fun w => .ok { w with queries := f w.queries }).Leads t fun _ t' =>
      t'.Shows p index depth now { r with queries := f r.queries } := by
  have suits := shown.sound.suits
  refine .of_eq (onWorld_eq rfl) ⟨shown.sound.of_same rfl rfl ⟨suits.components, suits.lookups, suits.blackboard⟩, ?_,
    shown.now, shown.orderly.mono (List.Sublist.refl _) (Nat.le_refl _)⟩
  rw [← shown.roster]
  rfl

theorem freshLane_shows (shown : t.Shows p index depth now r) :
    freshLane.Leads t fun id t' => id = r.next ∧ t'.Shows p index depth now { r with next := r.next + 1 } := by
  have hroster : freshLane.Leads t fun id t' =>
      id = r.next ∧ t'.roster = { r with next := r.next + 1 } ∧ t'.world.now = now := by
    rw [← shown.roster]
    by_cases h : t.agent.nextLane + 1 < 0x100000000
    · exact .of_eq (freshLane_of_lt h) ⟨rfl, rfl, shown.now⟩
    · exact .of_error (freshLane_of_le (Nat.le_of_not_lt h)) trivial
  refine ((freshLane_ensures (shown.sound.supplied 1 0)).and hroster).mono fun id t' h => ?_
  exact ⟨h.2.1, h.1, h.2.2.1, h.2.2.2, shown.orderly.mono (List.Sublist.refl _) (Nat.le_succ _)⟩

/-- A new lane names the lane that started it. -/
theorem spawn_shows {k : Kin} {id : LaneId} (shown : t.Shows p index depth now { r with next := id + 1 })
    (hid : id = r.next) (orderly : r.Orderly) (hk : r.lanes[index]? = some k) {place : Nat} {thread : NodeId}
    (hthread : p.IsLaneRoot thread) :
    (onLanes place fun s => s.spawn index thread id).Leads t fun _ t' =>
      t'.Shows p index depth now (r.spawn k.id thread) := by
  subst hid
  have hroster : (onLanes place fun s => s.spawn index thread r.next).Leads t fun _ t' =>
      t'.roster = r.spawn k.id thread ∧ t'.world.now = now := by
    obtain ⟨herror, -⟩ | ⟨lanes, hspawn, -, hview, -⟩ :=
      LaneStack.spawn_eq shown.sound.ordered shown.sound.index_lt thread r.next
    · exact .onLanes_error herror trivial
    · refine .onLanes hspawn fun notices => ⟨?_, shown.now⟩
      have hkin := LaneStack.kin_of_append shown.sound.ordered shown.sound.index_lt hview
      have hold : t.agent.lanes.kin = r.lanes := congrArg Roster.lanes shown.roster
      simp only [Tick.roster, hkin, hold, hk, Option.map_some]
      have hrest := shown.roster
      simp only [Tick.roster, Roster.mk.injEq] at hrest
      simp only [Roster.spawn, hrest]
  refine ((spawn_ensures (shown.sound.supplied 0 1) hthread).and hroster).mono fun _ t' h => ?_
  exact ⟨h.1, h.2.1, h.2.2, orderly.spawn (List.mem_of_getElem? hk) thread⟩

section Queries

variable [QuerySystem σ]

theorem cancel_shows (shown : t.Shows p index depth now r) (request : QueryRequest) :
    (cancel request).Leads t fun _ t' =>
      t'.Shows p index depth now { r with queries := QuerySystem.cancel r.queries request } :=
  onQueries_shows shown (QuerySystem.cancel · request)

/-- The query of a lane that has gone is withdrawn; the others are not. -/
theorem withdraw_shows (shown : t.Shows p index depth now r) {id : NodeId} (h : id.toNat < p.size) (gone : List Lane)
    (frames : Nat) :
    (gone.forM fun lane => do
      match (← get).agent.holder with
      | some request =>
        if request.lane = lane.id then
          setHolder none
          cancel request
      | none => pure ()
      emitFor p id .abort lane.id frames : Act σ Unit).Leads t fun _ t' =>
        t'.Shows p index depth now (r.withdraw (· ∈ gone.map (·.id))) := by
  induction gone generalizing t r with
  | nil =>
    refine .pure ?_
    have hsame : r.withdraw (· ∈ ([] : List Lane).map (·.id)) = r := by
      unfold Roster.withdraw
      split <;> simp
    rwa [hsame]
  | cons lane gone ih =>
    rw [List.forM_eq_forM, List.forM_cons]
    have hreport {t : Tick σ} {r : Roster σ} (shown : t.Shows p index depth now r) :
        (emitFor p id .abort lane.id frames).Leads t fun _ t' => t'.Shows p index depth now r :=
      (Reports.emitFor p id .abort lane.id frames).quiet.keeps shown (emitFor_ensures shown.sound h .abort _ _)
    have hfirst : (do
        match (← get).agent.holder with
        | some request =>
          if request.lane = lane.id then
            setHolder none
            cancel request
        | none => pure ()
        emitFor p id .abort lane.id frames : Act σ Unit).Leads t fun _ t' =>
          t'.Shows p index depth now (r.withdraw (· = lane.id)) := by
      have hholder : r.holder = t.agent.holder := by rw [← shown.roster]; rfl
      refine .bind_of_eq rfl ?_
      unfold Roster.withdraw
      rw [hholder]
      cases t.agent.holder with
      | none => exact hreport shown
      | some request =>
        by_cases hlane : request.lane = lane.id
        · simp only [hlane, if_true]
          refine .seq (setHolder_shows shown none) fun _ t shown => ?_
          exact .seq (cancel_shows shown request) fun _ t shown => hreport shown
        · simp only [hlane, if_false]
          exact hreport shown
    refine .seq hfirst fun _ t shown => (ih shown).mono fun _ t shown => ?_
    rw [Roster.withdraw_withdraw] at shown
    have hsame : r.withdraw (· ∈ (lane :: gone).map (·.id)) =
        r.withdraw fun id => id = lane.id ∨ id ∈ gone.map (·.id) :=
      Roster.withdraw_congr (by simp) r
    rwa [hsame]

theorem abort_shows (shown : t.Shows p index (depth + 1) now r) {id : NodeId} (h : id.toNat < p.size) {owned : Nat}
    (hlt : index < owned) {k c : Kin} (hk : r.lanes[index]? = some k) (hc : r.lanes[owned]? = some c) :
    (abort p index id owned).Leads t fun _ t' => ∃ gone, Kin.Lineage r.lanes c.id gone ∧
      (r.remove gone).lanes[index]? = some k ∧ t'.Shows p index (depth + 1) now (r.remove gone) := by
  have hlanes : t.agent.lanes.kin = r.lanes := congrArg Roster.lanes shown.roster
  have nodup := shown.orderly.nodup
  obtain ⟨gone, lanes, habort, pruned, hkin, lineage⟩ :=
    LaneStack.abort_kin shown.sound.ordered (hlanes ▸ nodup) (by omega) (hlanes ▸ hc)
  refine .bind_of_eq (lane_eq shown.sound.index_lt) (.bind ?_)
  refine .onLanes habort fun notices => ?_
  have hrest := shown.roster
  simp only [Tick.roster] at hrest
  have removed : Tick.Shows p index (depth + 1) now { r with lanes := Kin.without (gone.map (·.id)) r.lanes }
      ⟨⟨lanes, t.agent.holder, t.agent.nextLane⟩, t.world, t.cycle, notices⟩ := by
    refine ⟨shown.sound.pruned pruned hlt _ _ notices, ?_, shown.now,
      shown.orderly.mono List.filter_sublist (Nat.le_refl _)⟩
    simp only [Tick.roster, hkin, hlanes]
    rw [← hrest]
  refine (withdraw_shows removed h gone _).mono fun _ t shown => ⟨_, hlanes ▸ lineage, ?_, shown⟩
  rw [Roster.remove, Roster.withdraw_lanes, ← removed.roster]
  exact pruned.kin_below (hlanes ▸ nodup) hkin hlt (hlanes ▸ hk)

theorem abortThread_shows (shown : t.Shows p index (depth + 1) now r) {id : NodeId} (h : id.toNat < p.size)
    (thread : NodeId) :
    (abortThread p index id thread).Leads t fun _ t' =>
      ∃ r', r.Releases index thread r' ∧ t'.Shows p index (depth + 1) now r' := by
  have hlanes : t.agent.lanes.kin = r.lanes := congrArg Roster.lanes shown.roster
  obtain ⟨k, hk⟩ : ∃ k, r.lanes[index]? = some k := by
    rw [← hlanes]
    exact ⟨_, List.getElem?_eq_getElem (by rw [LaneStack.length_kin]; exact shown.sound.index_lt)⟩
  have hfound := LaneStack.findOwned?_kin shown.sound.ordered (hlanes ▸ shown.orderly.nodup) (hlanes ▸ hk) thread
  refine .bind_of_eq rfl ?_
  cases hfind : t.agent.lanes.findOwned? index thread with
  | none =>
    simp only [hfind, hlanes] at hfound
    exact .pure ⟨r, .nothing hk hfound, shown⟩
  | some owned =>
    simp only [hfind, hlanes] at hfound
    obtain ⟨c, hc, hparent, hroot, hlast⟩ := hfound
    obtain ⟨hlt, -⟩ := LaneStack.findOwned?_eq_some shown.sound.ordered hfind
    refine (abort_shows shown h hlt hk hc).mono fun _ t' ⟨gone, lineage, hkept, shown⟩ => ?_
    exact ⟨_, .lane hk hc hparent hroot hlast lineage hkept, shown⟩

omit [QuerySystem σ] in
theorem createPrimary_roster (hlanes : t.agent.lanes.lanes = #[]) :
    createPrimary.Leads t fun _ t' => t'.roster = t.roster.begin ∧ t'.world.now = t.world.now := by
  by_cases h : t.agent.nextLane + 1 < 0x100000000
  · refine .bind_of_eq (freshLane_of_lt h) ?_
    obtain ⟨herror, -⟩ | ⟨lanes, hcreate, -, hview, -⟩ :=
      LaneStack.createPrimary_eq hlanes .root t.agent.nextLane
    · exact .onLanes_error (by simp only [herror]; rfl) trivial
    · refine .onLanes (a := ()) (by simp only [hcreate]; rfl) fun notices => ⟨?_, rfl⟩
      simp only [Tick.roster, Roster.begin, LaneStack.kin, hview]
      rfl
  · exact .bind (.of_error (freshLane_of_le (Nat.le_of_not_lt h)) trivial)

/-- All lanes go, whichever of them failed. -/
theorem restart_roster (shown : t.Shows p index depth now r) :
    (restart index).Leads t fun outcome t' => t'.roster = r.restart ∧ t'.world.now = now ∧
      outcome = if index = 0 then .goOn else .suspend := by
  have hbegin {t : Tick σ} {r : Roster σ} (hroster : t.roster = r) (hnow : t.world.now = now) :
      (do
        onLanes index fun s => .ok ((), s.reset)
        createPrimary
        return if index = 0 then .goOn else .suspend : Act σ Outcome).Leads t fun outcome t' =>
          t'.roster = r.begin ∧ t'.world.now = now ∧ outcome = if index = 0 then .goOn else .suspend := by
    refine .bind (.onLanes rfl fun notices => .seq (createPrimary_roster rfl) fun _ t' h => .pure ?_)
    refine ⟨?_, h.2.trans hnow, rfl⟩
    rw [h.1, ← hroster]
    rfl
  have hholder : r.holder = t.agent.holder := by rw [← shown.roster]; rfl
  refine .bind_of_eq (lane_eq shown.sound.index_lt) (.bind_of_eq rfl (.bind_of_eq rfl ?_))
  unfold Roster.restart Roster.withdraw
  rw [hholder]
  simp only
  cases t.agent.holder with
  | none => exact hbegin shown.roster shown.now
  | some request =>
    refine .bind_of_eq rfl (.bind_of_eq (onWorld_eq rfl) (hbegin ?_ shown.now))
    simp only [if_true, ← shown.roster]
    rfl

end Queries

end Lanes

end Act

end BehaviorTree
