import BehaviorTree.Proofs.Machine.Chains

/-! Lanes in the order of their ids. A lane that makes a step starts and removes lanes behind it only, unless the agent
starts over, and no bottom frame that has called its child ever forgets it. -/

namespace BehaviorTree

/-- An item that is where it was has lost none of the items before it. -/
theorem take_filter_of_getElem? {α : Type} {p : α → Bool} {items : List α} (nodup : items.Nodup) {i : Nat} {a : α}
    (h : items[i]? = some a) (hkept : (items.filter p)[i]? = some a) :
    (items.filter p).take (i + 1) = items.take (i + 1) := by
  obtain ⟨hi, hget⟩ := List.getElem?_eq_some_iff.mp h
  have ha : p a := (List.mem_filter.mp (List.mem_of_getElem? hkept)).2
  have hfilter : items.filter p = (items.take i).filter p ++ a :: (items.drop (i + 1)).filter p := by
    conv_lhs => rw [← List.take_append_drop i items, ← List.getElem_cons_drop hi, hget, List.filter_append,
      List.filter_cons_of_pos ha]
  have hplace : (items.filter p)[((items.take i).filter p).length]? = some a := by
    rw [hfilter, List.getElem?_append_right (Nat.le_refl _), Nat.sub_self, List.getElem?_cons_zero]
  have hlength : ((items.take i).filter p).length = (items.take i).length := by
    rw [List.length_take_of_le (Nat.le_of_lt hi)]
    exact (List.getElem?_inj (List.getElem?_eq_some_iff.mp hplace).1 (nodup.filter p)).mp (hplace.trans hkept.symm)
  refine take_filter fun b hb => ?_
  rw [List.take_add_one, h] at hb
  obtain hb | hb := List.mem_append.mp hb
  · exact List.length_filter_eq_length_iff.mp hlength b hb
  · obtain rfl : b = a := by simpa using hb
    exact ha

/-- The bottom frame of a lane has not called its child. -/
def Kin.Unbegun (k : Kin) : Prop :=
  ∃ bottom, k.frames.head? = some bottom ∧ bottom.childIndex = 0

namespace Kin

variable {k : Kin}

theorem Unbegun.of_pop (h : k.pop.Unbegun) : k.Unbegun := by
  obtain ⟨bottom, hhead, hzero⟩ := h
  refine ⟨bottom, ?_, hzero⟩
  rw [pop, List.head?_dropLast] at hhead
  split_ifs at hhead
  exact hhead

theorem Unbegun.of_push {frame : Frame} (hframes : k.frames ≠ []) (h : (k.push frame).Unbegun) : k.Unbegun := by
  obtain ⟨bottom, hhead, hzero⟩ := h
  exact ⟨bottom, by rwa [push, List.head?_append_of_ne_nil _ hframes] at hhead, hzero⟩

/-- Progress is seen at the bottom only if that is the top. -/
theorem Unbegun.of_setProgress {progress : UInt16} (hprogress : progress ≠ 0 ∨ 1 < k.frames.length)
    (h : (k.setProgress progress).Unbegun) : k.Unbegun := by
  obtain ⟨bottom, hhead, hzero⟩ := h
  obtain hnil | ⟨lower, frame, hconcat⟩ := List.eq_nil_or_concat k.frames
  · simp [setProgress, hnil] at hhead
  · have hframes : k.frames = lower ++ [frame] := by simpa using hconcat
    rw [frames_setProgress hframes] at hhead
    cases lower with
    | nil =>
      obtain rfl : ⟨frame.node, progress⟩ = bottom := Option.some.inj hhead
      obtain hprogress | hdeep := hprogress
      · exact absurd hzero hprogress
      · simp [hframes] at hdeep
    | cons first rest => exact ⟨bottom, by rw [hframes]; exact hhead, hzero⟩

theorem setProgress_ne_nil (hframes : k.frames ≠ []) (progress : UInt16) : (k.setProgress progress).frames ≠ [] := by
  obtain hnil | ⟨lower, frame, hconcat⟩ := List.eq_nil_or_concat k.frames
  · exact absurd hnil hframes
  · simp [frames_setProgress (show k.frames = lower ++ [frame] by simpa using hconcat)]

end Kin

namespace Roster

variable {σ : Type}

def ids (r : Roster σ) : List LaneId :=
  r.lanes.map (·.id)

section Ids

variable {r : Roster σ} {index : Nat} {id id' : LaneId}

theorem getElem?_ids {k : Kin} (hk : r.lanes[index]? = some k) : r.ids[index]? = some k.id := by
  rw [ids, List.getElem?_map, hk, Option.map_some]

theorem lt_of_sorted (sorted : r.ids.Pairwise (· < ·)) (h : r.ids[index]? = some id)
    (h' : r.ids[index + 1]? = some id') : id < id' := by
  obtain ⟨hlt, rfl⟩ := List.getElem?_eq_some_iff.mp h
  obtain ⟨hlt', rfl⟩ := List.getElem?_eq_some_iff.mp h'
  exact List.pairwise_iff_getElem.mp sorted _ _ hlt hlt' (Nat.lt_succ_self index)

theorem Orderly.lt_next (orderly : r.Orderly) (h : r.ids[index]? = some id) : id < r.next := by
  obtain ⟨k, hk, rfl⟩ := List.mem_map.mp (List.mem_of_getElem? h)
  exact orderly.fresh k hk

end Ids

/-- The lane of the id has not begun, or it is still to come. -/
def Unbegun (r : Roster σ) (id : LaneId) : Prop :=
  r.next ≤ id ∨ ∃ k ∈ r.lanes, k.id = id ∧ k.Unbegun

/-- The lanes up to that of `index` stay, all lanes stay in the order of their ids, and what has begun has begun. -/
structure Keeps (index : Nat) (r r' : Roster σ) : Prop where
  stay : r'.ids.take (index + 1) = r.ids.take (index + 1)
  sorted : r.ids.Pairwise (· < ·) → r'.ids.Pairwise (· < ·)
  unbegun : ∀ id, r'.Unbegun id → r.Unbegun id

namespace Keeps

variable {index : Nat} {r r' r'' : Roster σ}

theorem of_same (hlanes : r'.lanes = r.lanes) (hnext : r'.next = r.next) : r.Keeps index r' where
  stay := by rw [ids, hlanes, ids]
  sorted h := by rwa [ids, hlanes]
  unbegun id h := by rwa [Unbegun, hlanes, hnext] at h

theorem refl (r : Roster σ) : r.Keeps index r :=
  .of_same rfl rfl

theorem trans (h : r.Keeps index r') (h' : r'.Keeps index r'') : r.Keeps index r'' where
  stay := h'.stay.trans h.stay
  sorted := h'.sorted ∘ h.sorted
  unbegun id := h.unbegun id ∘ h'.unbegun id

theorem onLane (r : Roster σ) {f : Kin → Kin} (hsame : ∀ k, Kin.Same k (f k))
    (hbegun : ∀ k, r.lanes[index]? = some k → (f k).Unbegun → k.Unbegun) : r.Keeps index (r.onLane index f) where
  stay := by rw [ids, ids_onLane index r hsame, ids]
  sorted h := by rwa [ids, ids_onLane index r hsame]
  unbegun id h := by
    obtain hnext | ⟨k', hk', rfl, hunbegun⟩ := h
    · exact .inl hnext
    · obtain ⟨i, k, hk, rfl⟩ := mem_onLane hk'
      refine .inr ⟨k, List.mem_of_getElem? hk, ?_⟩
      split_ifs at hunbegun ⊢ with hi
      · subst hi
        exact ⟨(hsame k).1.symm, hbegun k hk hunbegun⟩
      · exact ⟨rfl, hunbegun⟩

theorem pop (r : Roster σ) : r.Keeps index (r.onLane index Kin.pop) :=
  onLane r (fun _ => ⟨rfl, rfl⟩) fun _ _ => .of_pop

theorem setProgress (r : Roster σ) {progress : UInt16} (h : progress ≠ 0) :
    r.Keeps index (r.onLane index (Kin.setProgress progress)) :=
  onLane r (Kin.same_setProgress progress) fun _ _ => .of_setProgress (.inl h)

/-- The top frame makes progress and calls a child. -/
theorem call {k : Kin} (hk : r.lanes[index]? = some k) (hframes : k.frames ≠ []) (progress : UInt16)
    (h : progress ≠ 0 ∨ 1 < k.frames.length) (child : NodeId) :
    r.Keeps index (r.onLane index fun k => (k.setProgress progress).push (.start child)) := by
  refine onLane r (fun _ => ⟨rfl, rfl⟩) fun k' hk' hunbegun => ?_
  obtain rfl := Option.some.inj (hk'.symm.trans hk)
  exact (hunbegun.of_push (Kin.setProgress_ne_nil hframes progress)).of_setProgress h

theorem spawn (orderly : r.Orderly) (h : index < r.lanes.length) (parent : LaneId) (thread : NodeId) :
    r.Keeps index (r.spawn parent thread) where
  stay := by
    rw [ids, Roster.spawn, List.map_append, List.take_append_of_le_length (by simpa using h), ids]
  sorted h := by
    rw [ids, Roster.spawn, List.map_append]
    refine List.pairwise_append.mpr ⟨h, List.pairwise_singleton _ _, fun id hid new hnew => ?_⟩
    obtain ⟨k, hk, rfl⟩ := List.mem_map.mp hid
    obtain rfl : new = r.next := by simpa using hnew
    exact orderly.fresh k hk
  unbegun id h := by
    obtain hnext | ⟨k, hk, hid, hunbegun⟩ := h
    · exact .inl (Nat.le_of_succ_le hnext)
    · obtain hold | hnew := List.mem_append.mp hk
      · exact .inr ⟨k, hold, hid, hunbegun⟩
      · rw [List.mem_singleton.mp hnew] at hid
        exact .inl (Nat.le_of_eq hid)

variable [QuerySystem σ]

theorem remove (orderly : r.Orderly) {gone : List LaneId} {k : Kin} (hk : r.lanes[index]? = some k)
    (hkept : (r.remove gone).lanes[index]? = some k) : r.Keeps index (r.remove gone) where
  stay := by
    rw [lanes_remove] at hkept
    rw [ids, lanes_remove, ids, ← List.map_take, ← List.map_take, Kin.without,
      take_filter_of_getElem? (.of_map _ orderly.nodup) hk hkept]
  sorted h := by
    rw [ids, lanes_remove]
    exact h.sublist (List.filter_sublist.map _)
  unbegun id h := by
    rw [Unbegun, lanes_remove, Roster.remove, withdraw_next] at h
    obtain hnext | ⟨k, hk, hid, hunbegun⟩ := h
    · exact .inl hnext
    · exact .inr ⟨k, (Kin.mem_without.mp hk).1, hid, hunbegun⟩

theorem releases {thread : NodeId} (orderly : r.Orderly) (releases : r.Releases index thread r') :
    r.Keeps index r' := by
  cases releases with
  | nothing _ _ => exact refl r
  | lane hk _ _ _ _ _ hkept => exact remove orderly hk hkept

variable {p : Program}

theorem unwinds {caught : Bool} (unwinds : r.Unwinds p index caught r') (orderly : r.Orderly) :
    r.Keeps index r' := by
  induction unwinds with
  | empty _ _ => exact refl _
  | «catch» _ _ => exact pop _
  | thread _ _ released _ ih =>
    have rest := ih ((released.orderly orderly).onLane index fun _ => ⟨rfl, rfl⟩)
    exact ((releases orderly released).trans (pop _)).trans rest
  | skip _ _ _ ih => exact (pop _).trans (ih (orderly.onLane index fun _ => ⟨rfl, rfl⟩))

theorem polls {request : QueryRequest} {outcome : Outcome} (polls : r.Polls index request outcome r') :
    r.Keeps index r' := by
  cases polls with
  | pending _ => exact .of_same rfl rfl
  | @complete queries _ _ =>
    have hfreed : r.Keeps index { r with holder := none, queries := queries } := of_same rfl rfl
    exact hfreed.trans (pop _)

omit [QuerySystem σ] in
theorem getElem?_ids (keeps : r.Keeps index r') : r'.ids[index]? = r.ids[index]? := by
  have hlt := Nat.lt_succ_self index
  rw [← List.getElem?_take_of_lt hlt, keeps.stay, List.getElem?_take_of_lt hlt]

omit [QuerySystem σ] in
/-- The lane that makes the step stays where it is. -/
theorem exists_lane (keeps : r.Keeps index r') {k : Kin} (hk : r.lanes[index]? = some k) :
    ∃ k', r'.lanes[index]? = some k' ∧ k'.id = k.id := by
  have hid := keeps.getElem?_ids.trans (Roster.getElem?_ids hk)
  rw [ids, List.getElem?_map] at hid
  exact Option.map_eq_some_iff.mp hid

end Keeps

variable [QuerySystem σ] {p : Program} {index : Nat} {r r' : Roster σ}

omit [QuerySystem σ] in
theorem Top.unique {k k' : Kin} {frame frame' : Frame} {node node' : Node} (top : r.Top p index k frame node)
    (top' : r.Top p index k' frame' node') : k' = k ∧ frame' = frame ∧ node' = node := by
  obtain rfl := Option.some.inj (top.lane.symm.trans top'.lane)
  obtain rfl := Option.some.inj (top.last.symm.trans top'.last)
  exact ⟨rfl, rfl, Option.some.inj (top'.known.symm.trans top.known)⟩

omit [QuerySystem σ] in
theorem Top.ne_nil {k : Kin} {frame : Frame} {node : Node} (top : r.Top p index k frame node) : k.frames ≠ [] :=
  List.ne_nil_of_mem (List.mem_of_getLast? top.last)

/-- Every move keeps the lanes up to its own, unless it is a failure that nothing catches. -/
theorem Moves.keeps_or {now : UInt64} {rootVisited : Bool} {outcome : Outcome}
    (moves : r.Moves p now index rootVisited outcome r') (orderly : r.Orderly) :
    r.Keeps index r' ∨ ∃ (k : Kin) (frame : Frame) (node : Node) (r'' : Roster σ), r.Top p index k frame node ∧
      node.Fails frame.childIndex ∧ r' = r''.restart ∧ r''.next = r.next := by
  cases moves with
  | yield _ _ _ _ | wait _ _ | blocked _ _ _ => exact .inl (.refl r)
  | enter top _ _ _ => exact .inl (.call top.lane top.ne_nil 1 (.inl (by decide)) _)
  | call top habove _ => exact .inl (.call top.lane top.ne_nil _ (.inr habove) _)
  | finish _ _ _ => exact .inl (.pop r)
  | beginWait _ _ =>
    exact .inl (.onLane r (fun _ => ⟨rfl, rfl⟩) fun c _ h => Kin.Unbegun.of_setProgress (k := c) (.inl (by decide)) h)
  | passWait _ _ _ =>
    exact .inl (.onLane r (fun _ => ⟨rfl, rfl⟩) fun c _ h =>
      Kin.Unbegun.of_setProgress (k := c) (.inl (by decide)) (Kin.Unbegun.of_pop (k := c.setProgress 1) h))
  | poll _ _ _ polls => exact .inl (.polls polls)
  | @ask k _ id _ _ _ _ _ _ polls =>
    have begun : r.Keeps index (r.onLane index (Kin.setProgress 1)) := .setProgress r (by decide)
    have asked : r.Keeps index ((r.onLane index (Kin.setProgress 1)).submit ⟨id, k.id⟩) :=
      begun.trans (.of_same rfl rfl)
    exact .inl (asked.trans (.polls polls))
  | @fork k _ main thread top _ _ =>
    have begun : r.Keeps index (r.onLane index (Kin.setProgress 1)) := .setProgress r (by decide)
    have hk := top.onLane (Kin.setProgress 1)
    have spawned := Keeps.spawn (orderly.onLane index (Kin.same_setProgress 1)) (List.getElem?_eq_some_iff.mp hk).1
      k.id thread
    have called := Keeps.call (getElem?_spawn hk k.id thread) (Kin.setProgress_ne_nil top.ne_nil 1) 1
      (.inl (by decide)) main
    exact .inl ((begun.trans spawned).trans called)
  | join _ _ _ releases => exact .inl ((Keeps.releases orderly releases).trans (.pop _))
  | «catch» _ _ unwinds =>
    exact .inl ((Keeps.pop r).trans (.unwinds unwinds (orderly.onLane index fun _ => ⟨rfl, rfl⟩)))
  | restart top hfail unwinds => exact .inr ⟨_, _, _, _, top, hfail, rfl, unwinds.next_eq⟩

theorem Moves.keeps {now : UInt64} {rootVisited : Bool} {outcome : Outcome}
    (moves : r.Moves p now index rootVisited outcome r') (orderly : r.Orderly) {k : Kin} {frame : Frame} {node : Node}
    (top : r.Top p index k frame node) (hpass : ¬ node.Fails frame.childIndex) : r.Keeps index r' := by
  obtain keeps | ⟨_, _, _, _, top', hfail, -⟩ := moves.keeps_or orderly
  · exact keeps
  · obtain ⟨-, rfl, rfl⟩ := top.unique top'
    exact absurd hfail hpass

theorem lanes_restart (r : Roster σ) : r.restart.lanes = [⟨r.next, none, 0, [.start .root]⟩] := by
  rw [restart, begin, withdraw_next]

theorem ids_restart (r : Roster σ) : r.restart.ids = [r.next] := by
  rw [ids, lanes_restart, List.map_singleton]

omit [QuerySystem σ] in
/-- No lane from before is left. -/
theorem Unbegun.of_begin {id : LaneId} (h : r.begin.Unbegun id) : r.Unbegun id := by
  obtain hnext | ⟨k, hk, rfl, -⟩ := h
  · exact .inl (Nat.le_of_succ_le hnext)
  · rw [List.mem_singleton.mp hk]
    exact .inl (Nat.le_refl _)

theorem Unbegun.of_restart {id : LaneId} (h : r.restart.Unbegun id) : r.next ≤ id := by
  obtain hnext | ⟨k, hk, rfl, -⟩ := h
  · rw [restart, begin, withdraw_next] at hnext
    exact Nat.le_of_succ_le hnext
  · rw [lanes_restart] at hk
    rw [List.mem_singleton.mp hk]

/-- What is known of the lanes between any two steps. -/
structure Regular (p : Program) (r : Roster σ) : Prop where
  orderly : r.Orderly
  chained : r.Chained p
  sorted : r.ids.Pairwise (· < ·)
  /-- Every lane but the first was started by another one. -/
  started : ∀ (i : Nat) (k : Kin), r.lanes[i]? = some k → i ≠ 0 → ∃ id, k.parent = some id

omit [QuerySystem σ] in
theorem Regular.same {σ' : Type} (regular : r.Regular p) {r' : Roster σ'} (hlanes : r'.lanes = r.lanes)
    (hnext : r'.next = r.next) : r'.Regular p where
  orderly := regular.orderly.same hlanes hnext
  chained k hk := regular.chained k (hlanes ▸ hk)
  sorted := by
    rw [ids, hlanes]
    exact regular.sorted
  started i k hk := regular.started i k (hlanes ▸ hk)

end Roster

theorem Program.Lives.regular {p : Program} {agent : Agent} {spawns : Spawns} (valid : p.Valid)
    (lives : p.Lives agent spawns) : agent.roster.Regular p := by
  obtain ⟨steady, tallied⟩ := lives.tallied valid
  refine ⟨tallied.orderly, lives.chained valid, ?_, fun i k hk hi => ?_⟩
  on_goal 2 =>
    obtain ⟨-, rfl⟩ | ⟨-, k', -, -, hparent⟩ := steady.ordered.parent_of hk
    · exact absurd rfl hi
    · exact ⟨k'.id, hparent⟩
  clear steady tallied
  induction lives with
  | @new capacity block agent h =>
    simp [Roster.ids, Agent.roster, LaneStack.kin, LaneStack.view, (Agent.empty_of_new h).1]
  | @begin σ t t' spawns _ _ hnone h _ =>
    have hroster := ((Act.createPrimary_roster hnone).of_ok h).1
    have begun : t'.roster.ids.Pairwise (· < ·) := hroster ▸ List.pairwise_singleton _ _
    exact begun
  | @step σ _ t t' spawns index rootVisited outcome lives suits hindex h ih =>
    obtain ⟨steady, tallied⟩ := lives.tallied valid
    have orderly : t.roster.Orderly := tallied.orderly.same rfl rfl
    have moves := ((Act.step_moves valid ⟨steady, suits⟩ orderly hindex rootVisited).of_ok h).1
    have kept : t'.roster.ids.Pairwise (· < ·) := by
      obtain keeps | ⟨_, _, _, r, _, _, hrestart, -⟩ := moves.keeps_or orderly
      · exact keeps.sorted ih
      · exact hrestart ▸ List.pairwise_singleton _ _
    exact kept

end BehaviorTree
