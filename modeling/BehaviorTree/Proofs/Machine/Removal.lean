import BehaviorTree.Proofs.Machine.Lanes

/-! Removal of lanes. A lane goes away after the lanes that it owns, so that no lane ever loses its owner,
and the lanes below it stay where they are. -/

namespace BehaviorTree

/-- What keeps the first items keeps them where they are. -/
theorem take_filter {α : Type} {p : α → Bool} {items : List α} {n : Nat} (h : ∀ a ∈ items.take n, p a) :
    (items.filter p).take n = items.take n := by
  have hsplit : items.filter p = items.take n ++ (items.drop n).filter p := by
    conv_lhs => rw [← List.take_append_drop n items, List.filter_append, List.filter_eq_self.mpr h]
  by_cases hn : n ≤ items.length
  · rw [hsplit, List.take_left' (List.length_take_of_le hn)]
  · rw [hsplit, List.drop_of_length_le (by omega), List.filter_nil, List.append_nil, List.take_take, Nat.min_self]

namespace LaneStack

variable {s s' : LaneStack}

/-! ### Search -/

theorem findNewest?_eq_some {p : Lane → Bool} {i : Nat} (h : s.findNewest? p = some i) :
    ∃ lane, s.lanes[i]? = some lane ∧ p lane := by
  have hfound := List.find?_some h
  cases hlane : s.lanes[i]? with
  | none => simp [hlane] at hfound
  | some lane => exact ⟨lane, rfl, by simpa [hlane] using hfound⟩

theorem findNewest?_eq_none {p : Lane → Bool} (h : s.findNewest? p = none) {i : Nat} {lane : Lane}
    (hlane : s.lanes[i]? = some lane) : ¬ p lane := by
  have hmem : i ∈ (List.range s.lanes.size).reverse := by
    have := (Array.getElem?_eq_some_iff.mp hlane).1
    simpa using this
  have hmissed := List.find?_eq_none.mp h i hmem
  simpa [hlane] using hmissed

/-! ### A single lane -/

theorem lanes_remove {index : Nat} (h : index < s.lanes.size) :
    (s.remove index).lanes = (s.lanes.eraseIdx index h).map (Lane.shiftOwner index) := by
  rw [remove, Array.eraseIdxIfInBounds, dif_pos h]

theorem getElem?_remove {index : Nat} (h : index < s.lanes.size) (i : Nat) :
    (s.remove index).lanes[i]? = (s.lanes[if i < index then i else i + 1]?).map (Lane.shiftOwner index) := by
  rw [lanes_remove h, Array.getElem?_map, Array.getElem?_eraseIdx]
  split_ifs <;> rfl

theorem getElem?_view_remove {index : Nat} (h : index < s.lanes.size) (i : Nat) :
    (s.remove index).view[i]? = (s.view[if i < index then i else i + 1]?).map fun v =>
      { v with owner := v.owner.map fun owner => if index < owner then owner - 1 else owner } := by
  rw [getElem?_view, getElem?_remove h, getElem?_view, Option.map_map, Option.map_map]
  rfl

theorem shiftOwner_of_le {lane : Lane} {index : Nat} (h : ∀ owner, lane.owner = some owner → owner ≤ index) :
    lane.shiftOwner index = lane := by
  obtain ⟨id, offset, count, owner, waitStart⟩ := lane
  cases owner with
  | none => rfl
  | some owner => simp [Lane.shiftOwner, Nat.not_lt.mpr (h owner rfl)]

/-- Nothing but removals, of lanes from `index` on, leads from `s` to `s'`. -/
structure Pruned (index : Nat) (s s' : LaneStack) : Prop where
  ordered : s'.Ordered
  fewer : s'.lanes.size < s.lanes.size
  below : ∀ i, i < index → s'.lanes[i]? = s.lanes[i]?
  rest : ∀ (i : Nat) (lane : Lane), s'.lanes[i]? = some lane →
    ∃ (j : Nat) (old : Lane), s.lanes[j]? = some old ∧ lane = { old with owner := lane.owner }
  arena : s'.arena = s.arena
  block : s'.block = s.block

theorem Pruned.trans {r : LaneStack} {index owned : Nat} (h : Pruned owned s r) (h' : Pruned index r s')
    (hle : index ≤ owned) : Pruned index s s' where
  ordered := h'.ordered
  fewer := Nat.lt_trans h'.fewer h.fewer
  below i hi := (h'.below i hi).trans (h.below i (Nat.lt_of_lt_of_le hi hle))
  rest i lane hlane := by
    obtain ⟨j, mid, hmid, hsame⟩ := h'.rest i lane hlane
    obtain ⟨k, old, hold, hsame'⟩ := h.rest j mid hmid
    exact ⟨k, old, hold, by rw [hsame, hsame']⟩
  arena := h'.arena.trans h.arena
  block := h'.block.trans h.block

/-- A lane without lanes of its own may go. -/
theorem Ordered.remove (ord : s.Ordered) {index : Nat} (hpos : 0 < index) (h : index < s.lanes.size)
    (hfree : ∀ (i : Nat) (lane : Lane), s.lanes[i]? = some lane → lane.owner ≠ some index) :
    Pruned index s (s.remove index) := by
  have hlane : ∀ (i : Nat) (lane : Lane), (s.remove index).lanes[i]? = some lane →
      ∃ old, s.lanes[if i < index then i else i + 1]? = some old ∧ old.shiftOwner index = lane := by
    intro i lane hi
    rw [getElem?_remove h] at hi
    exact Option.map_eq_some_iff.mp hi
  have hkept (i : Nat) (hi : i < index) : (s.remove index).lanes[i]? = s.lanes[i]? := by
    rw [getElem?_remove h, if_pos hi]
    cases hold : s.lanes[i]? with
    | none => rfl
    | some old =>
      rw [Option.map_some, shiftOwner_of_le]
      intro owner howner
      obtain ⟨hnone, _⟩ | ⟨o, ho, hlt⟩ := ord.owned i old hold
      · simp [hnone] at howner
      · rw [ho] at howner
        have := Option.some.inj howner
        omega
  have hsize : (s.remove index).lanes.size = s.lanes.size - 1 := by
    rw [lanes_remove h, Array.size_map, Array.size_eraseIdx]
  refine ⟨⟨?_, ?_, ?_⟩, by omega, hkept, ?_, rfl, rfl⟩
  · intro lane hfirst
    rw [hkept 0 hpos] at hfirst
    exact ord.start lane hfirst
  · intro i lane hi
    obtain ⟨old, hold, rfl⟩ := hlane i lane hi
    have hroom := ord.room _ old hold
    refine Nat.le_trans hroom ?_
    cases hnext : (s.remove index).lanes[i + 1]? with
    | none =>
      rw [regionEnd_of_last (Array.getElem?_eq_none_iff.mp hnext)]
      exact ord.regionEnd_le _
    | some next =>
      obtain ⟨oldNext, holdNext, rfl⟩ := hlane _ next hnext
      rw [regionEnd_of_next hnext]
      have hlt : (if i < index then i else i + 1) < (if i + 1 < index then i + 1 else i + 1 + 1) := by
        split_ifs <;> omega
      show s.regionEnd _ ≤ oldNext.offset
      exact ord.regionEnd_le_offset holdNext hlt
  · intro i lane hi
    obtain ⟨old, hold, rfl⟩ := hlane i lane hi
    obtain ⟨hnone, hzero⟩ | ⟨owner, howner, hlt⟩ := ord.owned _ old hold
    · split_ifs at hzero
      exact .inl ⟨by simp [Lane.shiftOwner, hnone], hzero⟩
    · have hne : owner ≠ index := fun heq => hfree _ old hold (heq ▸ howner)
      refine .inr ⟨if index < owner then owner - 1 else owner, by rw [Lane.shiftOwner, howner]; rfl, ?_⟩
      split_ifs at hlt ⊢ <;> omega
  · intro i lane hi
    obtain ⟨old, hold, rfl⟩ := hlane i lane hi
    exact ⟨_, old, hold, rfl⟩

/-! ### A lane with all that it owns -/

theorem Ordered.owned_pos (ord : s.Ordered) {owner i : Nat} {lane : Lane} (h : s.lanes[i]? = some lane)
    (howner : lane.owner = some owner) : owner < i := by
  obtain ⟨hnone, _⟩ | ⟨o, ho, hlt⟩ := ord.owned i lane h
  · simp [hnone] at howner
  · obtain rfl : o = owner := Option.some.inj (ho.symm.trans howner)
    exact hlt

/-- Every step removes a lane from `index` on, so that as much fuel as there are such lanes is enough. -/
theorem abortInto_pruned (fuel : Nat) {s : LaneStack} (ord : s.Ordered) {index : Nat} (hpos : 0 < index)
    (h : index < s.lanes.size) (hfuel : s.lanes.size - index ≤ fuel) (removed : Array Lane) :
    Pruned index s (abortInto fuel s index removed).2 := by
  induction fuel generalizing s index removed with
  | zero => omega
  | succ fuel ih =>
    rw [abortInto]
    cases hfind : s.findNewest? (·.owner = some index) with
    | none =>
      have hfree (i : Nat) (lane : Lane) (hlane : s.lanes[i]? = some lane) : lane.owner ≠ some index := by
        simpa using findNewest?_eq_none hfind hlane
      simp only [Array.getElem?_eq_getElem h]
      exact ord.remove hpos h hfree
    | some owned =>
      obtain ⟨lane, hlane, howner⟩ := findNewest?_eq_some hfind
      have hbound := (Array.getElem?_eq_some_iff.mp hlane).1
      have hlt := ord.owned_pos hlane (by simpa using howner)
      have hfirst := ih ord (by omega) hbound (by omega) removed
      have hstays : index < (abortInto fuel s owned removed).2.lanes.size := by
        have hsame := hfirst.below index hlt
        rw [Array.getElem?_eq_getElem h] at hsame
        exact (Array.getElem?_eq_some_iff.mp hsame).1
      have hfewer := hfirst.fewer
      have hsecond := ih hfirst.ordered hpos hstays (by omega) (abortInto fuel s owned removed).1
      exact hfirst.trans hsecond (Nat.le_of_lt hlt)

theorem abort_eq (ord : s.Ordered) {index : Nat} (hpos : 0 < index) (h : index < s.lanes.size) :
    ∃ removed s', s.abort index = .ok (removed, s') ∧ Pruned index s s' := by
  refine ⟨(abortInto s.lanes.size s index #[]).1.toList, _, ?_,
    abortInto_pruned s.lanes.size ord hpos h (Nat.sub_le _ _) #[]⟩
  rw [abort, if_neg (by omega), if_pos h]

/-- The lane of a thread stands above its owner. -/
theorem findOwned?_eq_some (ord : s.Ordered) {owner owned : Nat} {root : NodeId}
    (h : s.findOwned? owner root = some owned) : owner < owned ∧ owned < s.lanes.size := by
  obtain ⟨lane, hlane, hfound⟩ := findNewest?_eq_some h
  have howner : lane.owner = some owner := (of_decide_eq_true hfound).1
  exact ⟨ord.owned_pos hlane howner, (Array.getElem?_eq_some_iff.mp hlane).1⟩

end LaneStack

end BehaviorTree
