import BehaviorTree.Machine.Lanes
import BehaviorTree.Proofs.Refusal

/-! Lanes seen as lists of frames. As long as the regions of the lanes follow one another in the arena,
every operation on lanes is an operation on these lists: a lane that grows never touches the frames of
another one, and a lane that goes away takes only its own. -/

namespace BehaviorTree

open Refusal

/-- A lane with its frames, bottom first, instead of their place in the arena. -/
structure LaneView where
  id : LaneId
  owner : Option Nat
  waitStart : UInt64
  frames : List Frame

namespace LaneView

def push (frame : Frame) (v : LaneView) : LaneView :=
  { v with frames := v.frames ++ [frame] }

def pop (v : LaneView) : LaneView :=
  { v with frames := v.frames.dropLast }

/-- Sets the progress of the top frame. -/
def setProgress (childIndex : UInt16) (v : LaneView) : LaneView :=
  { v with frames := v.frames.dropLast ++ (v.frames.getLast?.map ({ · with childIndex := childIndex })).toList }

def setWaitStart (time : UInt64) (v : LaneView) : LaneView :=
  { v with waitStart := time }

end LaneView

namespace LaneStack

def viewOf (s : LaneStack) (lane : Lane) : LaneView :=
  ⟨lane.id, lane.owner, lane.waitStart, s.liveFrames lane⟩

def view (s : LaneStack) : List LaneView :=
  s.lanes.toList.map s.viewOf

/-- The regions of the lanes follow one another from the start of the arena, and every lane but the
first is owned by an earlier one. -/
structure Ordered (s : LaneStack) : Prop where
  start : ∀ lane, s.lanes[0]? = some lane → lane.offset = 0
  room : ∀ (i : Nat) (lane : Lane), s.lanes[i]? = some lane → lane.offset + lane.count ≤ s.regionEnd i
  owned : ∀ (i : Nat) (lane : Lane), s.lanes[i]? = some lane →
    lane.owner = none ∧ i = 0 ∨ ∃ owner, lane.owner = some owner ∧ owner < i

variable {s : LaneStack}

theorem liveFrames_eq (s : LaneStack) (lane : Lane) :
    s.liveFrames lane = (s.arena.toList.drop lane.offset).take lane.count := by
  rw [liveFrames, Array.toList_extract, List.extract_eq_take_drop, Nat.add_sub_cancel_left]

@[simp] theorem length_view (s : LaneStack) : s.view.length = s.lanes.size := by
  simp [view]

theorem getElem?_view (s : LaneStack) (i : Nat) : s.view[i]? = s.lanes[i]?.map s.viewOf := by
  simp [view]

theorem getElem?_view_eq_some_iff {i : Nat} {v : LaneView} :
    s.view[i]? = some v ↔ ∃ lane, s.lanes[i]? = some lane ∧ s.viewOf lane = v := by
  rw [getElem?_view, Option.map_eq_some_iff]

/-! ### Regions -/

theorem regionEnd_of_next {i : Nat} {next : Lane} (h : s.lanes[i + 1]? = some next) :
    s.regionEnd i = next.offset := by
  rw [regionEnd, h]

theorem regionEnd_of_last {i : Nat} (h : s.lanes.size ≤ i + 1) : s.regionEnd i = s.arena.size := by
  rw [regionEnd, Array.getElem?_eq_none h]

namespace Ordered

variable (ord : s.Ordered)
include ord

theorem regionEnd_le (i : Nat) : s.regionEnd i ≤ s.arena.size := by
  induction h : s.lanes.size - i generalizing i with
  | zero => exact Nat.le_of_eq (regionEnd_of_last (by omega))
  | succ n ih =>
    by_cases hlast : s.lanes.size ≤ i + 1
    · exact Nat.le_of_eq (regionEnd_of_last hlast)
    · have hnext := Array.getElem?_eq_getElem (Nat.lt_of_not_le hlast)
      rw [regionEnd_of_next hnext]
      have hroom := ord.room _ _ hnext
      have := ih (i + 1) (by omega)
      omega

/-- A lane ends its region before every later lane begins. -/
theorem regionEnd_le_offset {i j : Nat} {next : Lane} (h : s.lanes[j]? = some next) (hij : i < j) :
    s.regionEnd i ≤ next.offset := by
  induction j, hij using Nat.le_induction generalizing next with
  | base => rw [regionEnd_of_next h]
  | succ j hij ih =>
    have hj : j < s.lanes.size := by
      have := (Array.getElem?_eq_some_iff.mp h).1
      omega
    have hmid := Array.getElem?_eq_getElem hj
    have hnext := ord.room _ _ hmid
    rw [regionEnd_of_next h] at hnext
    have := ih hmid
    omega

theorem regionEnd_mono {i j : Nat} (hij : i ≤ j) : s.regionEnd i ≤ s.regionEnd j := by
  by_cases h : j + 1 < s.lanes.size
  · have hnext := Array.getElem?_eq_getElem h
    rw [regionEnd_of_next hnext]
    exact ord.regionEnd_le_offset hnext (by omega)
  · rw [regionEnd_of_last (i := j) (by omega)]
    exact ord.regionEnd_le i

/-- The frames of a lane lie below the region of every later lane. -/
theorem end_le_offset {i j : Nat} {a b : Lane} (ha : s.lanes[i]? = some a) (hb : s.lanes[j]? = some b)
    (hij : i < j) : a.offset + a.count ≤ b.offset :=
  Nat.le_trans (ord.room _ _ ha) (ord.regionEnd_le_offset hb hij)

theorem end_le_size {i : Nat} {lane : Lane} (h : s.lanes[i]? = some lane) :
    lane.offset + lane.count ≤ s.arena.size :=
  Nat.le_trans (ord.room _ _ h) (ord.regionEnd_le i)

theorem length_liveFrames {i : Nat} {lane : Lane} (h : s.lanes[i]? = some lane) :
    (s.liveFrames lane).length = lane.count := by
  have := ord.end_le_size h
  rw [liveFrames_eq, List.length_take, List.length_drop, Array.length_toList]
  omega

/-- The first lane, and only that one, has no owner. -/
theorem owner_eq_none_iff {i : Nat} {lane : Lane} (h : s.lanes[i]? = some lane) : lane.owner = none ↔ i = 0 := by
  obtain ⟨hnone, hi⟩ | ⟨owner, howner, hlt⟩ := ord.owned i lane h
  · simp [hnone, hi]
  · simp only [howner, reduceCtorEq, false_iff]
    omega

theorem checkLane_eq_ok {i : Nat} {lane : Lane} (h : s.lanes[i]? = some lane) : s.checkLane i lane = .ok () := by
  have howned := ord.owned i lane h
  cases i with
  | zero =>
    have hnone : lane.owner = none := (ord.owner_eq_none_iff h).mpr rfl
    have hstart := ord.start lane h
    have hroom := ord.room 0 lane h
    rw [hstart, Nat.zero_add] at hroom
    simp [checkLane, hroom, hstart, hnone]
    rfl
  | succ before =>
    obtain ⟨-, hzero⟩ | ⟨owner, howner, hlt⟩ := howned
    · omega
    · have hbefore : s.lanes[before]?.all (·.offset ≤ lane.offset) = true := by
        have hlt : before < s.lanes.size := by
          have := (Array.getElem?_eq_some_iff.mp h).1
          omega
        rw [Array.getElem?_eq_getElem hlt]
        have := ord.end_le_offset (Array.getElem?_eq_getElem hlt) h (Nat.lt_succ_self before)
        simp
        omega
      simp [checkLane, ord.room _ lane h, hbefore, howner, hlt]
      rfl

theorem countP_primary (h : 0 < s.lanes.size) : s.lanes.countP (·.owner.isNone) = 1 := by
  obtain ⟨first, rest, hlanes⟩ : ∃ first rest, s.lanes.toList = first :: rest :=
    List.exists_cons_of_length_pos (by simpa using h)
  have hget (i : Nat) : s.lanes[i]? = (first :: rest)[i]? := by
    rw [← hlanes, Array.getElem?_toList]
  have hfirst : first.owner = none := (ord.owner_eq_none_iff (hget 0)).mpr rfl
  have hrest : rest.countP (·.owner.isNone) = 0 := by
    rw [List.countP_eq_zero]
    intro lane hmem
    obtain ⟨i, hi⟩ := List.mem_iff_getElem?.mp hmem
    have hne : lane.owner ≠ none := fun hnone => by
      have := (ord.owner_eq_none_iff (i := i + 1) (by rw [hget]; exact hi)).mp hnone
      omega
    simpa using hne
  rw [← Array.countP_toList, hlanes, List.countP_cons, hrest, hfirst]
  rfl

/-- Lanes that follow one another pass the check at the end of a tick. -/
theorem check_eq_ok : s.check = .ok () := by
  refine unit_bind_eq_ok_iff.mpr ⟨forM_eq_ok_iff.mpr fun a ha => ?_, ?_⟩
  · exact ord.checkLane_eq_ok (by simpa using List.mem_zipIdx_iff_getElem?.mp ha)
  · by_cases h : 0 < s.lanes.size
    · have hnone := (ord.owner_eq_none_iff (Array.getElem?_eq_getElem h)).mpr rfl
      simp [h, ord.countP_primary h, hnone]
      rfl
    · simp [h]
      rfl

end Ordered

/-! ### Reading -/

theorem lane_of_getElem? {i : Nat} {lane : Lane} (h : s.lanes[i]? = some lane) : s.lane i = .ok lane := by
  rw [LaneStack.lane, h]

theorem top?_eq (ord : s.Ordered) {i : Nat} {lane : Lane} (h : s.lanes[i]? = some lane) :
    s.top? i = .ok (s.liveFrames lane).getLast? := by
  have hlength := ord.length_liveFrames h
  rw [top?, lane_of_getElem? h, Except.map]
  by_cases hcount : 0 < lane.count
  · rw [if_pos hcount, List.getLast?_eq_getElem?, hlength, liveFrames_eq, List.getElem?_take_of_lt (by omega),
      List.getElem?_drop, Array.getElem?_toList, Nat.add_sub_assoc hcount]
  · rw [if_neg hcount, List.getLast?_eq_none_iff.mpr (List.length_eq_zero_iff.mp (by omega))]

theorem bottom?_eq (ord : s.Ordered) {i : Nat} {lane : Lane} (h : s.lanes[i]? = some lane) :
    s.bottom? lane = (s.liveFrames lane).head? := by
  have hlength := ord.length_liveFrames h
  rw [bottom?]
  by_cases hcount : 0 < lane.count
  · rw [if_pos hcount, List.head?_eq_getElem?, liveFrames_eq, List.getElem?_take_of_lt hcount, List.getElem?_drop,
      Array.getElem?_toList, Nat.add_zero]
  · rw [if_neg hcount, List.head?_eq_none_iff.mpr (List.length_eq_zero_iff.mp (by omega))]

/-! ### Changes in place -/

theorem getElem?_liveFrames (s : LaneStack) (lane : Lane) (k : Nat) :
    (s.liveFrames lane)[k]? = if k < lane.count then s.arena[lane.offset + k]? else none := by
  rw [liveFrames_eq, List.getElem?_take, List.getElem?_drop, Array.getElem?_toList]

theorem getElem?_modifyLane (s : LaneStack) (index i : Nat) (f : Lane → Lane) :
    (s.modifyLane index f).lanes[i]? = if index = i then s.lanes[i]?.map f else s.lanes[i]? :=
  Array.getElem?_modify

/-- Lanes stay ordered as long as the changed one keeps within its region. -/
theorem Ordered.modifyLane (ord : s.Ordered) {index : Nat} {f : Lane → Lane}
    (hf : ∀ lane, s.lanes[index]? = some lane → (f lane).offset = lane.offset ∧
      lane.offset + (f lane).count ≤ s.regionEnd index ∧ (f lane).owner = lane.owner) :
    (s.modifyLane index f).Ordered := by
  have hlane : ∀ (i : Nat) (lane : Lane), (s.modifyLane index f).lanes[i]? = some lane →
      ∃ old, s.lanes[i]? = some old ∧ lane.offset = old.offset ∧ old.offset + lane.count ≤ s.regionEnd i ∧
        lane.owner = old.owner := by
    intro i lane h
    rw [getElem?_modifyLane] at h
    split_ifs at h with hi
    · subst hi
      obtain ⟨old, hold, rfl⟩ := Option.map_eq_some_iff.mp h
      exact ⟨old, hold, hf old hold⟩
    · exact ⟨lane, h, rfl, ord.room i lane h, rfl⟩
  have hend (i : Nat) : (s.modifyLane index f).regionEnd i = s.regionEnd i := by
    simp only [regionEnd, getElem?_modifyLane]
    split_ifs with hi
    · cases hnext : s.lanes[i + 1]? with
      | none => rfl
      | some next => exact (hf next (hi ▸ hnext)).1
    · rfl
  refine ⟨?_, ?_, ?_⟩
  · intro lane h
    obtain ⟨old, hold, hoffset, _⟩ := hlane 0 lane h
    exact hoffset.trans (ord.start old hold)
  · intro i lane h
    obtain ⟨old, hold, hoffset, hcount, _⟩ := hlane i lane h
    rwa [hend, hoffset]
  · intro i lane h
    obtain ⟨old, hold, _, _, howner⟩ := hlane i lane h
    rw [howner]
    exact ord.owned i old hold

/-- What happens to one lane within its own region is not seen by the others. -/
theorem view_eq_modify (ord : s.Ordered) {s' : LaneStack} {index : Nat} {lane lane' : Lane}
    {g : LaneView → LaneView} (h : s.lanes[index]? = some lane) (h' : s'.lanes[index]? = some lane')
    (hothers : ∀ i, i ≠ index → s'.lanes[i]? = s.lanes[i]?)
    (harena : ∀ k, k < lane.offset ∨ s.regionEnd index ≤ k → s'.arena[k]? = s.arena[k]?)
    (hview : s'.viewOf lane' = g (s.viewOf lane)) : s'.view = s.view.modify index g := by
  apply List.ext_getElem?
  intro i
  rw [List.getElem?_modify, getElem?_view, getElem?_view]
  by_cases hi : index = i
  · subst hi
    simp [h, h', hview]
  · rw [hothers i (Ne.symm hi)]
    cases hother : s.lanes[i]? with
    | none => rfl
    | some other =>
      have hframes : s'.liveFrames other = s.liveFrames other := by
        apply List.ext_getElem?
        intro k
        rw [getElem?_liveFrames, getElem?_liveFrames]
        split_ifs with hk
        · apply harena
          obtain hlt | hgt := Nat.lt_or_gt_of_ne hi
          · exact .inr (Nat.le_trans (ord.regionEnd_le_offset hother hlt) (Nat.le_add_right _ _))
          · have := ord.end_le_offset hother h hgt
            exact .inl (by omega)
        · rfl
      simp [hi, viewOf, hframes]

theorem pop_eq (ord : s.Ordered) {index : Nat} (h : index < s.lanes.size) :
    ∃ top s', s.pop index = .ok (top, s') ∧ s'.Ordered ∧ s'.view = s.view.modify index LaneView.pop ∧
      s'.arena = s.arena ∧ s'.block = s.block := by
  have hlane := Array.getElem?_eq_getElem h
  have hlength := ord.length_liveFrames hlane
  rw [pop, top?_eq ord hlane]
  cases htop : (s.liveFrames s.lanes[index]).getLast? with
  | none =>
    refine ⟨none, s, rfl, ord, ?_, rfl, rfl⟩
    rw [List.getLast?_eq_none_iff] at htop
    exact view_eq_modify ord hlane hlane (fun _ _ => rfl) (fun _ _ => rfl) (by simp [viewOf, LaneView.pop, htop])
  | some top =>
    have hroom (lane : Lane) (h : s.lanes[index]? = some lane) :
        lane.offset + (lane.count - 1) ≤ s.regionEnd index := by
      have := ord.room index lane h
      omega
    refine ⟨some top, _, rfl, ord.modifyLane fun lane h => ⟨rfl, hroom lane h, rfl⟩, ?_, rfl, rfl⟩
    refine view_eq_modify ord hlane (by rw [getElem?_modifyLane, if_pos rfl, hlane]; rfl)
      (fun i hi => by rw [getElem?_modifyLane, if_neg (Ne.symm hi)]) (fun _ _ => rfl) ?_
    simp only [viewOf, LaneView.pop, LaneView.mk.injEq, true_and]
    rw [List.dropLast_eq_take, hlength, liveFrames_eq, liveFrames_eq, List.take_take,
      Nat.min_eq_left (Nat.sub_le _ _)]
    rfl

theorem setWaitStart_eq (ord : s.Ordered) {index : Nat} (h : index < s.lanes.size) (time : UInt64) :
    ∃ s', s.setWaitStart index time = .ok s' ∧ s'.Ordered ∧
      s'.view = s.view.modify index (LaneView.setWaitStart time) ∧ s'.arena = s.arena ∧ s'.block = s.block := by
  have hlane := Array.getElem?_eq_getElem h
  rw [setWaitStart, lane_of_getElem? hlane]
  refine ⟨_, rfl, ord.modifyLane fun lane h => ⟨rfl, ord.room index lane h, rfl⟩, ?_, rfl, rfl⟩
  exact view_eq_modify ord hlane (by rw [getElem?_modifyLane, if_pos rfl, hlane]; rfl)
    (fun i hi => by rw [getElem?_modifyLane, if_neg (Ne.symm hi)]) (fun _ _ => rfl) rfl

/-- Only the regions matter for the order, not the frames in them. -/
theorem Ordered.of_lanes_eq (ord : s.Ordered) {s' : LaneStack} (hlanes : s'.lanes = s.lanes)
    (harena : s'.arena.size = s.arena.size) : s'.Ordered := by
  have hend (i : Nat) : s'.regionEnd i = s.regionEnd i := by
    rw [regionEnd, regionEnd, hlanes, harena]
  refine ⟨?_, ?_, ?_⟩ <;> rw [hlanes]
  · exact ord.start
  · intro i lane h
    rw [hend]
    exact ord.room i lane h
  · exact ord.owned

theorem setChildIndex_eq (ord : s.Ordered) {index : Nat} (h : index < s.lanes.size) (childIndex : UInt16) :
    ∃ b s', s.setChildIndex index childIndex = .ok (b, s') ∧ s'.Ordered ∧
      s'.view = s.view.modify index (LaneView.setProgress childIndex) ∧ s'.arena.size = s.arena.size ∧
      s'.block = s.block := by
  have hlane := Array.getElem?_eq_getElem h
  have hlength := ord.length_liveFrames hlane
  have hroom := ord.room _ _ hlane
  rw [setChildIndex, lane_of_getElem? hlane]
  by_cases hcount : 0 < s.lanes[index].count
  · refine ⟨true, _, if_pos hcount, ord.of_lanes_eq rfl Array.size_modify, ?_, Array.size_modify, rfl⟩
    refine view_eq_modify ord hlane hlane (fun _ _ => rfl) ?_ ?_
    · intro k hk
      rw [Array.getElem?_modify, if_neg (by omega)]
    · simp only [viewOf, LaneView.setProgress, LaneView.mk.injEq, true_and]
      apply List.ext_getElem?
      intro k
      rw [getElem?_liveFrames, Array.getElem?_modify, List.getElem?_append, List.length_dropLast, hlength,
        List.getElem?_dropLast, hlength, getElem?_liveFrames, List.getLast?_eq_getElem?, hlength, getElem?_liveFrames]
      obtain hk | rfl | hk := Nat.lt_trichotomy k (s.lanes[index].count - 1)
      · rw [if_pos (by omega), if_neg (by omega), if_pos hk, if_pos hk, if_pos (by omega)]
      · rw [if_pos (by omega), if_pos (by omega), if_neg (Nat.lt_irrefl _), if_pos (by omega), Nat.sub_self]
        cases s.arena[s.lanes[index].offset + (s.lanes[index].count - 1)]? <;> rfl
      · rw [if_neg (by omega), if_neg (by omega), List.getElem?_eq_none]
        cases (if s.lanes[index].count - 1 < s.lanes[index].count then
          s.arena[s.lanes[index].offset + (s.lanes[index].count - 1)]? else none) <;> simp
        omega
  · refine ⟨false, s, if_neg hcount, ord, ?_, rfl, rfl⟩
    have hnil : s.liveFrames s.lanes[index] = [] := List.length_eq_zero_iff.mp (by omega)
    exact view_eq_modify ord hlane hlane (fun _ _ => rfl) (fun _ _ => rfl) (by simp [viewOf, LaneView.setProgress, hnil])

/-! ### Growth -/

theorem getElem?_makeRoom_arena (s : LaneStack) (index k : Nat) (h : s.regionEnd index ≤ s.arena.size) :
    (s.makeRoom index).arena[k]? =
      if k < s.regionEnd index + s.block then (s.arena ++ Array.replicate s.block default)[k]?
      else s.arena[k - s.block]? := by
  have hsize : ((s.arena ++ Array.replicate s.block default).extract 0 (s.regionEnd index + s.block)).size =
      s.regionEnd index + s.block := by
    rw [Array.size_extract, Array.size_append, Array.size_replicate]
    omega
  rw [makeRoom, Array.getElem?_append, hsize]
  split_ifs with hk
  · rw [Array.getElem?_extract, if_pos (by rw [Array.size_append, Array.size_replicate]; omega), Nat.zero_add]
  · rw [Array.getElem?_extract]
    split_ifs with hbound
    · congr 1
      omega
    · rw [Array.getElem?_eq_none (by omega)]

theorem size_makeRoom_arena (s : LaneStack) (index : Nat) (h : s.regionEnd index ≤ s.arena.size) :
    (s.makeRoom index).arena.size = s.arena.size + s.block := by
  simp only [makeRoom, Array.size_append, Array.size_extract, Array.size_replicate]
  omega

theorem getElem?_makeRoom_lanes (s : LaneStack) (index i : Nat) :
    (s.makeRoom index).lanes[i]? = s.lanes[i]?.map fun lane =>
      if index < i then { lane with offset := lane.offset + s.block } else lane :=
  Array.getElem?_mapIdx

theorem regionEnd_makeRoom (ord : s.Ordered) {index : Nat} (h : index < s.lanes.size) (i : Nat) :
    (s.makeRoom index).regionEnd i = if i < index then s.regionEnd i else s.regionEnd i + s.block := by
  rw [regionEnd, getElem?_makeRoom_lanes]
  cases hnext : s.lanes[i + 1]? with
  | none =>
    have hlast := Array.getElem?_eq_none_iff.mp hnext
    rw [if_neg (by omega), regionEnd_of_last hlast]
    exact size_makeRoom_arena s index (ord.regionEnd_le index)
  | some next =>
    rw [regionEnd_of_next hnext]
    by_cases hi : i < index
    · simp [hi, Nat.not_lt.mpr (Nat.succ_le_of_lt hi)]
    · simp [hi, Nat.lt_succ_of_le (Nat.le_of_not_lt hi)]

theorem Ordered.makeRoom (ord : s.Ordered) {index : Nat} (h : index < s.lanes.size) :
    (s.makeRoom index).Ordered := by
  refine ⟨?_, ?_, ?_⟩
  · intro lane hlane
    rw [getElem?_makeRoom_lanes] at hlane
    obtain ⟨old, hold, rfl⟩ := Option.map_eq_some_iff.mp hlane
    rw [if_neg (Nat.not_lt_zero index)]
    exact ord.start old hold
  · intro i lane hlane
    rw [getElem?_makeRoom_lanes] at hlane
    obtain ⟨old, hold, rfl⟩ := Option.map_eq_some_iff.mp hlane
    have hroom := ord.room i old hold
    rw [regionEnd_makeRoom ord h]
    by_cases hi : index < i
    · rw [if_pos hi, if_neg (by omega)]
      simp only
      omega
    · rw [if_neg hi]
      split_ifs <;> omega
  · intro i lane hlane
    rw [getElem?_makeRoom_lanes] at hlane
    obtain ⟨old, hold, rfl⟩ := Option.map_eq_some_iff.mp hlane
    have howned := ord.owned i old hold
    split_ifs <;> exact howned

/-- Later lanes move up with their frames. -/
theorem view_makeRoom (ord : s.Ordered) (index : Nat) :
    (s.makeRoom index).view = s.view := by
  apply List.ext_getElem?
  intro i
  rw [getElem?_view, getElem?_view, getElem?_makeRoom_lanes, Option.map_map]
  cases hlane : s.lanes[i]? with
  | none => rfl
  | some lane =>
    have hroom := ord.room i lane hlane
    have hframes : (s.makeRoom index).liveFrames
        (if index < i then { lane with offset := lane.offset + s.block } else lane) = s.liveFrames lane := by
      apply List.ext_getElem?
      intro k
      rw [getElem?_liveFrames, getElem?_liveFrames, getElem?_makeRoom_arena s index _ (ord.regionEnd_le index)]
      by_cases hi : index < i
      · have hoffset := ord.regionEnd_le_offset hlane hi
        simp only [if_pos hi]
        split_ifs <;> first | rfl | omega | (congr 1; omega)
      · have hend := ord.regionEnd_mono (Nat.le_of_not_lt hi)
        have hbound := ord.regionEnd_le index
        simp only [if_neg hi]
        by_cases hk : k < lane.count
        · rw [if_pos hk, if_pos hk, if_pos (by omega), Array.getElem?_append_left (by omega)]
        · rw [if_neg hk, if_neg hk]
    simp only [Option.map_some, Function.comp, viewOf, hframes]
    split_ifs <;> rfl

/-- There is room for one more frame, unless the arena cannot grow any further. -/
theorem ensureRoom_eq (ord : s.Ordered) {index : Nat} {lane : Lane} (h : s.lanes[index]? = some lane) :
    s.ensureRoom index (lane.offset + lane.count) = .error .tooLarge ∧ maxFrames < s.arena.size + s.block ∨
      ∃ s', s.ensureRoom index (lane.offset + lane.count) = .ok s' ∧ s'.Ordered ∧ s'.view = s.view ∧
        s'.lanes[index]? = some lane ∧ lane.offset + lane.count < s'.regionEnd index ∧ s'.block = s.block ∧
        s'.arena.size ≤ s.arena.size + s.block := by
  have hindex := (Array.getElem?_eq_some_iff.mp h).1
  have hroom := ord.room index lane h
  have hpos := s.block_pos
  unfold ensureRoom
  split_ifs with hfull hfits
  · refine .inr ⟨_, rfl, ord.makeRoom hindex, view_makeRoom ord index, ?_, ?_, rfl, ?_⟩
    · rw [getElem?_makeRoom_lanes, h, Option.map_some, if_neg (Nat.lt_irrefl _)]
    · rw [regionEnd_makeRoom ord hindex, if_neg (Nat.lt_irrefl _)]
      omega
    · exact Nat.le_of_eq (size_makeRoom_arena s index (ord.regionEnd_le index))
  · exact .inl ⟨rfl, by omega⟩
  · exact .inr ⟨s, rfl, ord, rfl, h, by omega, rfl, Nat.le_add_right _ _⟩

/-- Puts a frame where there is room for it. -/
theorem place_eq (ord : s.Ordered) {index : Nat} {lane : Lane} (h : s.lanes[index]? = some lane)
    (hslot : lane.offset + lane.count < s.regionEnd index) (hbound : lane.offset + lane.count < s.arena.size)
    (frame : Frame) :
    let s' := { s with arena := s.arena.set (lane.offset + lane.count) frame hbound }.modifyLane index
      fun lane => { lane with count := lane.count + 1 }
    s'.Ordered ∧ s'.view = s.view.modify index (LaneView.push frame) := by
  have hlength := ord.length_liveFrames h
  constructor
  · have hset : Ordered { s with arena := s.arena.set (lane.offset + lane.count) frame hbound } :=
      ord.of_lanes_eq rfl (Array.size_set hbound)
    refine hset.modifyLane fun old hold => ⟨rfl, ?_, rfl⟩
    obtain rfl : lane = old := Option.some.inj (h.symm.trans hold)
    have hend : regionEnd { s with arena := s.arena.set (lane.offset + lane.count) frame hbound } index =
        s.regionEnd index := by
      simp only [regionEnd, Array.size_set]
    rw [hend]
    exact hslot
  · refine view_eq_modify ord h (by rw [getElem?_modifyLane, if_pos rfl, h]; rfl)
      (fun i hi => by rw [getElem?_modifyLane, if_neg (Ne.symm hi)]) ?_ ?_
    · intro k hk
      exact Array.getElem?_set_ne hbound (by omega)
    · simp only [viewOf, LaneView.push, LaneView.mk.injEq, true_and]
      apply List.ext_getElem?
      intro k
      rw [getElem?_liveFrames, List.getElem?_append, hlength, getElem?_liveFrames]
      simp only [modifyLane, Array.getElem?_set]
      obtain hk | rfl | hk := Nat.lt_trichotomy k lane.count
      · rw [if_pos (by omega), if_neg (by omega), if_pos hk, if_pos hk]
      · simp
      · rw [if_neg (by omega), if_neg (by omega), List.getElem?_eq_none (by simp; omega)]

/-- A frame is put on top of its lane, and on no other, unless the arena cannot grow any further. -/
theorem push_eq (ord : s.Ordered) {index : Nat} (h : index < s.lanes.size) (frame : Frame) :
    s.push index frame = .error .tooLarge ∧ maxFrames < s.arena.size + s.block ∨
      ∃ s', s.push index frame = .ok s' ∧ s'.Ordered ∧ s'.view = s.view.modify index (LaneView.push frame) ∧
        s'.block = s.block ∧ s'.arena.size ≤ s.arena.size + s.block := by
  have hlane := Array.getElem?_eq_getElem h
  rw [push, lane_of_getElem? hlane]
  generalize s.lanes[index] = lane at hlane
  obtain ⟨herror, hfull⟩ | ⟨r, hr, ordr, hview, hlaner, hslot, hblock, hsize⟩ := ensureRoom_eq ord hlane
  · exact .inl ⟨by simp [bind, Except.bind, herror], hfull⟩
  · right
    have hbound := Nat.lt_of_lt_of_le hslot (ordr.regionEnd_le index)
    obtain ⟨hplaced, hplacedView⟩ := place_eq ordr hlaner hslot hbound frame
    refine ⟨_, ?_, hplaced, hview ▸ hplacedView, hblock, ?_⟩
    · simp only [bind, Except.bind, hr, hbound, dite_true]
      rfl
    · simpa [modifyLane] using hsize

/-! ### New lanes -/

theorem Ordered.of_isEmpty (h : s.lanes = #[]) : s.Ordered := by
  constructor <;> simp [h]

private theorem modify_length_append {α : Type} (items : List α) (last : α) (f : α → α) :
    (items ++ [last]).modify items.length f = items ++ [f last] := by
  induction items with
  | nil => rfl
  | cons item items ih => simp [ih]

/-- A lane without frames behind all others. -/
theorem openOwned_eq (ord : s.Ordered) {owner : Nat} (h : owner < s.lanes.size) (id : LaneId) :
    ∃ s', s.openOwned owner id = .ok s' ∧ s'.Ordered ∧ s'.view = s.view ++ [⟨id, some owner, 0, []⟩] ∧
      s'.arena = s.arena ∧ s'.block = s.block ∧ s'.lanes.size = s.lanes.size + 1 := by
  have hlast := Array.getElem?_eq_getElem (show s.lanes.size - 1 < s.lanes.size by omega)
  generalize s.lanes[s.lanes.size - 1] = last at hlast
  have hsize := ord.end_le_size hlast
  have hopen : s.openOwned owner id =
      .ok { s with lanes := s.lanes.push ⟨id, last.offset + last.count, 0, some owner, 0⟩ } := by
    rw [openOwned, if_pos h, Array.back?, hlast]
  refine ⟨_, hopen, ⟨?_, ?_, ?_⟩, ?_, rfl, rfl, Array.size_push _⟩
  · intro lane hlane
    rw [Array.getElem?_push, if_neg (by omega)] at hlane
    exact ord.start lane hlane
  · intro i lane hlane
    simp only [Array.getElem?_push] at hlane
    split_ifs at hlane with hi
    · obtain rfl := Option.some.inj hlane
      rw [regionEnd_of_last (by simp only [Array.size_push]; omega)]
      simpa using hsize
    · have hroom := ord.room i lane hlane
      by_cases hnext : i + 1 = s.lanes.size
      · obtain rfl : i = s.lanes.size - 1 := by omega
        obtain rfl : last = lane := Option.some.inj (hlast.symm.trans hlane)
        simp only [regionEnd, Array.getElem?_push, if_pos hnext, Nat.le_refl]
      · have hlt := (Array.getElem?_eq_some_iff.mp hlane).1
        have hmid := Array.getElem?_eq_getElem (show i + 1 < s.lanes.size by omega)
        rw [regionEnd_of_next hmid] at hroom
        simpa only [regionEnd, Array.getElem?_push, if_neg hnext, hmid] using hroom
  · intro i lane hlane
    simp only [Array.getElem?_push] at hlane
    split_ifs at hlane with hi
    · obtain rfl := Option.some.inj hlane
      exact .inr ⟨owner, rfl, by omega⟩
    · exact ord.owned i lane hlane
  · simp [view, viewOf, liveFrames]

/-- A lane that begins at `root` stands behind all others, unless the arena cannot grow any further. -/
theorem spawn_eq (ord : s.Ordered) {owner : Nat} (h : owner < s.lanes.size) (root : NodeId) (id : LaneId) :
    s.spawn owner root id = .error .tooLarge ∧ maxFrames < s.arena.size + s.block ∨
      ∃ s', s.spawn owner root id = .ok (s.lanes.size, s') ∧ s'.Ordered ∧
        s'.view = s.view ++ [⟨id, some owner, 0, [.start root]⟩] ∧ s'.block = s.block ∧
        s'.arena.size ≤ s.arena.size + s.block := by
  obtain ⟨r, hr, ordr, hview, harena, hblock, hsize⟩ := openOwned_eq ord h id
  rw [spawn, hr, ← hblock, ← harena]
  obtain ⟨herror, hfull⟩ | ⟨s', hpush, ord', hview', hblock', hsize'⟩ :=
    push_eq ordr (show s.lanes.size < r.lanes.size by omega) (.start root)
  · exact .inl ⟨by simp only [bind, Except.bind, herror], hfull⟩
  · refine .inr ⟨s', by simp only [bind, Except.bind, hpush]; rfl, ord', ?_, hblock', hsize'⟩
    rw [hview', hview, ← length_view, modify_length_append]
    rfl

/-- The first lane begins at `root`, unless the arena cannot grow any further. -/
theorem createPrimary_eq (h : s.lanes = #[]) (root : NodeId) (id : LaneId) :
    s.createPrimary root id = .error .tooLarge ∧ maxFrames < s.arena.size + s.block ∨
      ∃ s', s.createPrimary root id = .ok s' ∧ s'.Ordered ∧ s'.view = [⟨id, none, 0, [.start root]⟩] ∧
        s'.block = s.block ∧ s'.arena.size ≤ s.arena.size + s.block := by
  have hopen : s.openPrimary id = .ok { s with lanes := #[⟨id, 0, 0, none, 0⟩] } := by
    rw [openPrimary, h]
    rfl
  have ord : Ordered { s with lanes := #[⟨id, 0, 0, none, 0⟩] } := by
    refine ⟨?_, ?_, ?_⟩
    · rintro lane ⟨⟩
      rfl
    · intro i lane hlane
      obtain ⟨hi, rfl⟩ := Array.getElem?_eq_some_iff.mp hlane
      simp
    · intro i lane hlane
      obtain ⟨hi, rfl⟩ := Array.getElem?_eq_some_iff.mp hlane
      exact .inl ⟨by simp, by simpa using hi⟩
  rw [createPrimary, hopen]
  obtain hfull | ⟨s', hpush, ord', hview', hrest⟩ := push_eq ord Nat.zero_lt_one (.start root)
  · exact .inl hfull
  · exact .inr ⟨s', hpush, ord', by rw [hview']; simp [view, viewOf, liveFrames, LaneView.push], hrest⟩

end LaneStack

end BehaviorTree
