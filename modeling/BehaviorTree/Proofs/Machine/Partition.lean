import BehaviorTree.Proofs.Machine.Stacks

/-! The regions of the lanes in the arena. Whatever operations lanes are driven by, the regions stand one behind the
other from the start of the arena, every lane stands behind its owner, and the next operation goes to no place
outside the arena. Only memory can run out. -/

namespace BehaviorTree

open Refusal

namespace LaneOp

/-- The lanes that an operation needs are there. -/
def Accepted (lanes : Nat) : LaneOp → Prop
  | createPrimary _ _ => lanes = 0
  | spawn owner _ _ => owner < lanes
  | push index _ | pop index | top index | setChildIndex index _ | truncate index _ | setWaitStart index _ =>
    index < lanes
  | abort index => 0 < index ∧ index < lanes
  | findOwned _ _ | reset => True

/-- The lanes of which an operation looks at the live frames. -/
def LooksAt (index : Nat) (lane : Lane) : LaneOp → Prop
  | pop i | top i | setChildIndex i _ => i = index
  | findOwned owner _ => lane.owner = some owner
  | _ => False

end LaneOp

theorem Stacks.perform_eq_ok_iff {views : Stacks} {op : LaneOp} :
    (∃ result, views.perform op = .ok result) ↔ op.Accepted views.length := by
  cases op with
  | createPrimary root id => simp [perform, LaneOp.Accepted, ite_eq_ok_iff]
  | spawn owner root id => simp [perform, LaneOp.Accepted, ite_eq_ok_iff]
  | findOwned owner root => simp [perform, LaneOp.Accepted]
  | reset => simp [perform, LaneOp.Accepted]
  | abort index =>
    rw [perform, LaneOp.Accepted]
    split_ifs with hzero h
    · simp [hzero]
    · simp [Nat.pos_of_ne_zero hzero, h]
    · simp [h]
  | push index | pop index | top index | setChildIndex index | truncate index | setWaitStart index =>
    rw [perform, touch, LaneOp.Accepted]
    split_ifs with h <;> simp [h]

namespace LaneStack

variable {s s' : LaneStack} {op : LaneOp} {answer : LaneAnswer}

/-! ### Accepted operations -/

/-- No operation whose lanes are there is refused, unless the arena cannot grow any further. -/
theorem perform_of_accepted (ord : s.Ordered) (h : op.Accepted s.lanes.size) :
    (∃ answer s', s.perform op = .ok (answer, s')) ∨
      s.perform op = .error .tooLarge ∧ maxFrames < s.arena.size + s.block := by
  have hmirrors := perform_mirrors ord op
  obtain ⟨result, hexpected⟩ := Stacks.perform_eq_ok_iff.mpr (length_view s ▸ h)
  rw [hexpected] at hmirrors
  generalize hresult : s.perform op = found at hmirrors
  cases hmirrors with
  | full hfull => exact .inr ⟨rfl, hfull⟩
  | done => exact .inl ⟨_, _, rfl⟩

theorem accepted_of_perform (ord : s.Ordered) (h : s.perform op = .ok (answer, s')) : op.Accepted s.lanes.size :=
  length_view s ▸ Stacks.perform_eq_ok_iff.mp ⟨_, (ord.perform h).2⟩

/-! ### Places in the arena -/

/-- The place where an operation puts a frame, and the end of the region in which it does. -/
def slot? (s : LaneStack) : LaneOp → Option (Nat × Nat)
  | .createPrimary _ _ => some (0, s.arena.size)
  | .spawn _ _ _ => some (s.lanes.back?.elim 0 fun last => last.offset + last.count, s.arena.size)
  | .push index _ => s.lanes[index]?.map fun lane => (lane.offset + lane.count, s.regionEnd index)
  | _ => none

/-- The places that an operation goes to: live frames that it looks at, the place of a frame that it puts and, if
the region of that frame is full, every place behind it, from which or to which a frame moves. -/
inductive Touches (s : LaneStack) (op : LaneOp) : Nat → Prop
  | look {index : Nat} {lane : Lane} (hlane : s.lanes[index]? = some lane) (looks : op.LooksAt index lane) {place : Nat}
    (from_offset : lane.offset ≤ place) (below : place < lane.offset + lane.count) : Touches s op place
  | put {slot bound : Nat} (h : s.slot? op = some (slot, bound)) : Touches s op slot
  | move {slot : Nat} (full : s.slot? op = some (slot, slot)) {place : Nat} (behind : slot ≤ place)
    (below : place < s.arena.size + s.block) : Touches s op place

theorem size_push {index : Nat} {lane : Lane} (hlane : s.lanes[index]? = some lane)
    (hend : s.regionEnd index ≤ s.arena.size) {frame : Frame} (h : s.push index frame = .ok s') :
    lane.offset + lane.count < s'.arena.size ∧
      (lane.offset + lane.count = s.regionEnd index → s'.arena.size = s.arena.size + s.block) := by
  rw [push, lane_of_getElem? hlane] at h
  obtain ⟨_, ⟨⟩, h⟩ := bind_eq_ok_iff.mp h
  obtain ⟨r, hroom, h⟩ := bind_eq_ok_iff.mp h
  split_ifs at h with hslot
  obtain rfl := Except.ok.inj h
  have hsize : ({ r with arena := r.arena.set (lane.offset + lane.count) frame hslot }.modifyLane index
      fun lane => { lane with count := lane.count + 1 }).arena.size = r.arena.size := Array.size_set hslot
  rw [hsize]
  refine ⟨hslot, fun hfull => ?_⟩
  rw [ensureRoom, if_pos hfull] at hroom
  obtain ⟨-, rfl⟩ := ite_eq_ok_iff.mp hroom
  exact size_makeRoom_arena s index hend

/-- What puts a frame pushes it on a lane, which may be a new one. -/
theorem push_of_slot? (ord : s.Ordered) {slot bound : Nat} (hslot : s.slot? op = some (slot, bound))
    (h : s.perform op = .ok (answer, s')) :
    ∃ (r : LaneStack) (index : Nat) (lane : Lane) (frame : Frame), r.push index frame = .ok s' ∧
      r.lanes[index]? = some lane ∧ lane.offset + lane.count = slot ∧ r.regionEnd index = bound ∧
      bound ≤ r.arena.size ∧ r.arena = s.arena ∧ r.block = s.block := by
  cases op with
  | createPrimary root id =>
    obtain ⟨rfl, rfl⟩ := Prod.mk.inj (Option.some.inj hslot)
    obtain ⟨_, hcreate, ⟨⟩⟩ := map_eq_ok_iff.mp h
    obtain ⟨r, hopen, hpush⟩ := bind_eq_ok_iff.mp hcreate
    obtain ⟨-, rfl⟩ := ite_eq_ok_iff.mp hopen
    exact ⟨_, _, _, _, hpush, rfl, rfl, rfl, Nat.le_refl _, rfl, rfl⟩
  | spawn owner root id =>
    obtain ⟨rfl, rfl⟩ := Prod.mk.inj (Option.some.inj hslot)
    obtain ⟨_, hspawn, hs'⟩ := map_eq_ok_iff.mp h
    obtain ⟨r, hopen, hrest⟩ := bind_eq_ok_iff.mp hspawn
    obtain ⟨r', hpush, hr'⟩ := bind_eq_ok_iff.mp hrest
    obtain rfl := Except.ok.inj hr'
    obtain ⟨-, rfl⟩ := Prod.mk.inj hs'
    obtain ⟨-, rfl⟩ := ite_eq_ok_iff.mp hopen
    refine ⟨_, _, _, _, hpush, Array.getElem?_push_size, ?_, ?_, Nat.le_refl _, rfl, rfl⟩
    · cases s.lanes.back? <;> rfl
    · exact regionEnd_of_last (Array.size_push _).le
  | push index frame =>
    obtain ⟨lane, hlane, hplaces⟩ := Option.map_eq_some_iff.mp hslot
    obtain ⟨rfl, rfl⟩ := Prod.mk.inj hplaces
    obtain ⟨_, hpush, ⟨⟩⟩ := map_eq_ok_iff.mp h
    exact ⟨_, _, _, _, hpush, hlane, rfl, rfl, ord.regionEnd_le index, rfl, rfl⟩
  | _ => cases hslot

/-- What looks at live frames leaves the arena as large as it is. -/
theorem size_of_looksAt (ord : s.Ordered) {index : Nat} {lane : Lane} (looks : op.LooksAt index lane)
    (h : s.perform op = .ok (answer, s')) : s'.arena.size = s.arena.size := by
  have accepted := accepted_of_perform ord h
  cases op with
  | pop i =>
    obtain ⟨⟨_, _⟩, hpop, ⟨⟩⟩ := map_eq_ok_iff.mp h
    obtain ⟨top, r, hpop', -, -, harena, -⟩ := pop_eq ord accepted
    obtain ⟨-, rfl⟩ := Prod.mk.inj (Except.ok.inj (hpop.symm.trans hpop'))
    exact congrArg Array.size harena
  | top i =>
    obtain ⟨_, -, ⟨⟩⟩ := map_eq_ok_iff.mp h
    rfl
  | setChildIndex i childIndex =>
    obtain ⟨⟨_, _⟩, hset, ⟨⟩⟩ := map_eq_ok_iff.mp h
    obtain ⟨b, r, hset', -, -, hsize, -⟩ := setChildIndex_eq ord accepted childIndex
    obtain ⟨-, rfl⟩ := Prod.mk.inj (Except.ok.inj (hset.symm.trans hset'))
    exact hsize
  | findOwned owner root =>
    obtain ⟨-, rfl⟩ := Prod.mk.inj (Except.ok.inj h)
    rfl
  | _ => cases looks

theorem lt_size_of_touches (ord : s.Ordered) (h : s.perform op = .ok (answer, s')) {place : Nat}
    (touches : s.Touches op place) : place < s'.arena.size := by
  cases touches with
  | look hlane looks _ below =>
    rw [size_of_looksAt ord looks h]
    exact Nat.lt_of_lt_of_le below (ord.end_le_size hlane)
  | put hslot =>
    obtain ⟨r, index, lane, frame, hpush, hlane, rfl, rfl, hend, -, -⟩ := push_of_slot? ord hslot h
    exact (size_push hlane hend hpush).1
  | move hslot _ below =>
    obtain ⟨r, index, lane, frame, hpush, hlane, hfull, hbound, hend, harena, hblock⟩ := push_of_slot? ord hslot h
    rw [(size_push hlane (hbound ▸ hend) hpush).2 (hfull.trans hbound.symm), harena, hblock]
    exact below

/-! ### Regions -/

/-- The regions of the lanes stand in the arena one behind the other, and the lanes behind their owners. -/
structure Partitioned (s : LaneStack) : Prop where
  start : ∀ lane, s.lanes[0]? = some lane → lane.offset = 0
  primary : ∀ (i : Nat) (lane : Lane), s.lanes[i]? = some lane → (lane.owner = none ↔ i = 0)
  sorted : ∀ (i j : Nat) (lane later : Lane), s.lanes[i]? = some lane → s.lanes[j]? = some later → i ≤ j →
    lane.offset ≤ later.offset
  apart : ∀ (i : Nat) (lane next : Lane), s.lanes[i]? = some lane → s.lanes[i + 1]? = some next →
    lane.offset + lane.count ≤ next.offset
  inside : ∀ (i : Nat) (lane : Lane), s.lanes[i]? = some lane → lane.offset + lane.count ≤ s.arena.size
  owned : ∀ (i : Nat) (lane : Lane) (owner : Nat), s.lanes[i]? = some lane → lane.owner = some owner → owner < i

theorem Ordered.partitioned (ord : s.Ordered) : s.Partitioned where
  start := ord.start
  primary _ _ := ord.owner_eq_none_iff
  sorted i j lane later hlane hlater hij := by
    obtain rfl | hlt := Nat.eq_or_lt_of_le hij
    · rw [Option.some.inj (hlane.symm.trans hlater)]
    · exact Nat.le_trans (Nat.le_add_right _ _) (ord.end_le_offset hlane hlater hlt)
  apart _ _ _ hlane hnext := ord.end_le_offset hlane hnext (Nat.lt_succ_self _)
  inside _ _ := ord.end_le_size
  owned _ _ _ := ord.owned_pos

/-- Lanes that are driven by any operations, none of which is refused, pass the check. Their regions partition the
arena, and from there an operation is refused only if its lanes are missing or the arena cannot grow any further. No
operation goes outside the arena. -/
theorem after_partitioned (capacity block : Nat) (hblock : 0 < block) :
    (maxFrames < capacity ∧ new capacity block = .error .tooLarge) ∨
    ∃ s, new capacity block = .ok s ∧ ∀ (ops : List LaneOp) (r : LaneStack), s.after ops = .ok r →
      r.check = .ok () ∧ r.Partitioned ∧
      ∀ op : LaneOp,
        (op.Accepted r.lanes.size →
          (∃ answer r', r.perform op = .ok (answer, r') ∧ ∀ place, r.Touches op place → place < r'.arena.size) ∨
          r.perform op = .error .tooLarge ∧ maxFrames < r.arena.size + r.block) ∧
        (¬ op.Accepted r.lanes.size → ∃ fault, r.perform op = .error fault) := by
  obtain hfits | hlarge := Nat.lt_or_ge maxFrames capacity |>.symm
  · refine .inr ⟨_, by rw [new, dif_pos hblock, if_pos hfits], fun ops r hafter => ?_⟩
    have ord : r.Ordered := (Ordered.of_isEmpty rfl).after hafter
    refine ⟨ord.check_eq_ok, ord.partitioned, fun op => ⟨fun accepted => ?_, fun refused => ?_⟩⟩
    · obtain ⟨answer, r', hperform⟩ | hfull := perform_of_accepted ord accepted
      · exact .inl ⟨answer, r', hperform, fun place => lt_size_of_touches ord hperform⟩
      · exact .inr hfull
    · cases hperform : r.perform op with
      | error fault => exact ⟨fault, rfl⟩
      | ok result => exact absurd (accepted_of_perform ord hperform) refused
  · exact .inl ⟨hlarge, by rw [new, dif_pos hblock, if_neg (Nat.not_le.mpr hlarge)]⟩

/-- In an arena without any room to begin with, in which two lanes take turns in growing. -/
theorem after_partitioned_collisions :
    ∃ s r, new 0 1 = .ok s ∧ s.after collisions = .ok r ∧ r.check = .ok () ∧ r.Partitioned := by
  obtain ⟨hlarge, -⟩ | ⟨s, hs, hall⟩ := after_partitioned 0 1 (by decide)
  · exact absurd hlarge (Nat.not_lt_zero maxFrames)
  have hrun : (do
      let s ← new 0 1
      let r ← s.after collisions
      return r.lanes.size : Except Fault Nat) = .ok 1 := by
    cbv
  obtain ⟨_, hs', hrun⟩ := bind_eq_ok_iff.mp hrun
  obtain ⟨r, hafter, -⟩ := bind_eq_ok_iff.mp hrun
  obtain rfl := Except.ok.inj (hs.symm.trans hs')
  obtain ⟨hcheck, partitioned, -⟩ := hall collisions r hafter
  exact ⟨s, r, hs, hafter, hcheck, partitioned⟩

end LaneStack

end BehaviorTree
