import BehaviorTree.Proofs.Machine.Kin
import BehaviorTree.Proofs.Machine.Stacks

/-! The removal of a lane with all that it owns, lanes told apart by their places. Every single removal changes the
places of the lanes behind it and the owners that they name. `Survives` follows the lanes that are left back to the
places at which they stood before the first one went. -/

namespace BehaviorTree

open Refusal

namespace LaneStack

variable {s r r' : LaneStack} {kept order : List Nat} {gone : List Lane}

def Owns (s : LaneStack) (owner i : Nat) : Prop :=
  ∃ lane, s.lanes[i]? = some lane ∧ lane.owner = some owner

/-- The second lane is the first one, or the chain of its owners leads there. -/
def Dominates (s : LaneStack) : Nat → Nat → Prop :=
  Relation.ReflTransGen s.Owns

/-- Neither the second lane nor one on its chain of owners is the first, and of two lanes of one owner the first is
the newer one. -/
def Precedes (s : LaneStack) (first second : Nat) : Prop :=
  ¬ s.Dominates first second ∧ ∀ owner, s.Owns owner first → s.Owns owner second → second < first

/-- How a lane goes, without counting: the newest of those that it owns goes first, as long as there is one. -/
inductive Aborts : LaneStack → Nat → List Lane → LaneStack → Prop
  | owned {s r r' : LaneStack} {index owned : Nat} {gone gone' : List Lane}
    (newest : s.findNewest? (·.owner = some index) = some owned) (first : Aborts s owned gone r)
    (rest : Aborts r index gone' r') : Aborts s index (gone ++ gone') r'
  | last {s : LaneStack} {index : Nat} {lane : Lane} (free : s.findNewest? (·.owner = some index) = none)
    (hlane : s.lanes[index]? = some lane) : Aborts s index [lane] (s.remove index)

/-! ### Termination -/

/-- As much fuel as there are lanes from `index` on is enough. -/
theorem abortInto_aborts (fuel : Nat) {s : LaneStack} (ord : s.Ordered) {index : Nat} (hpos : 0 < index)
    (h : index < s.lanes.size) (hfuel : s.lanes.size - index ≤ fuel) (removed : Array Lane) :
    ∃ gone, (abortInto fuel s index removed).1.toList = removed.toList ++ gone ∧
      Aborts s index gone (abortInto fuel s index removed).2 := by
  induction fuel generalizing s index removed with
  | zero => omega
  | succ fuel ih =>
    rw [abortInto]
    cases hfind : s.findNewest? (·.owner = some index) with
    | none =>
      have hlane := Array.getElem?_eq_getElem h
      simp only [hlane]
      exact ⟨[s.lanes[index]], Array.toList_push, .last hfind hlane⟩
    | some owned =>
      obtain ⟨lane, hlane, howner⟩ := findNewest?_eq_some hfind
      have hbound := (Array.getElem?_eq_some_iff.mp hlane).1
      have hlt := ord.owned_pos hlane (by simpa using howner)
      obtain ⟨gone, hgone, first⟩ := ih ord (by omega) hbound (by omega) removed
      have pruned := abortInto_pruned fuel ord (by omega) hbound (by omega) removed
      have hstays := (Array.getElem?_eq_some_iff.mp ((pruned.below index hlt).trans (Array.getElem?_eq_getElem h))).1
      have hfewer := pruned.fewer
      obtain ⟨gone', hgone', rest⟩ := ih pruned.ordered hpos hstays (by omega) (abortInto fuel s owned removed).1
      exact ⟨gone ++ gone', by rw [hgone', hgone, List.append_assoc], .owned hfind first rest⟩

theorem abort_aborts (ord : s.Ordered) {index : Nat} (hpos : 0 < index) (h : index < s.lanes.size) :
    ∃ gone r, s.abort index = .ok (gone, r) ∧ Aborts s index gone r := by
  obtain ⟨gone, hgone, aborts⟩ := abortInto_aborts s.lanes.size ord hpos h (Nat.sub_le _ _) #[]
  refine ⟨gone, _, ?_, aborts⟩
  rw [abort, if_neg (by omega), if_pos h]
  show Except.ok ((abortInto s.lanes.size s index #[]).1.toList, _) = _
  rw [hgone]
  rfl

/-! ### Places -/

theorem Ordered.lt_of_owns (ord : s.Ordered) {owner i : Nat} (h : s.Owns owner i) : owner < i := by
  obtain ⟨lane, hlane, howner⟩ := h
  exact ord.owned_pos hlane howner

theorem Ordered.le_of_dominates (ord : s.Ordered) {i j : Nat} (h : s.Dominates i j) : i ≤ j := by
  induction h with
  | refl => exact Nat.le_refl i
  | tail _ howns ih => exact Nat.le_trans ih (Nat.le_of_lt (ord.lt_of_owns howns))

theorem owner_unique {owner owner' i : Nat} (h : s.Owns owner i) (h' : s.Owns owner' i) : owner = owner' := by
  obtain ⟨lane, hlane, howner⟩ := h
  obtain ⟨lane', hlane', howner'⟩ := h'
  obtain rfl := Option.some.inj (hlane.symm.trans hlane')
  exact Option.some.inj (howner.symm.trans howner')

/-- The lanes of `r` are those that stood in `s` at these places, in the same order, with the same frames, and owned by
the same lanes. -/
structure Survives (s : LaneStack) (kept : List Nat) (r : LaneStack) : Prop where
  sorted : kept.Pairwise (· < ·)
  size : r.lanes.size = kept.length
  lane : ∀ (k i : Nat), kept[k]? = some i → ∃ old now, s.lanes[i]? = some old ∧ r.lanes[k]? = some now ∧
    now = { old with owner := now.owner } ∧ now.owner.map (kept[·]?) = old.owner.map some
  arena : r.arena = s.arena
  block : r.block = s.block

theorem Survives.refl (ord : s.Ordered) : Survives s (List.range s.lanes.size) s where
  sorted := List.pairwise_lt_range
  size := List.length_range.symm
  lane k i h := by
    obtain ⟨hbound, rfl⟩ := List.getElem?_eq_some_iff.mp h
    rw [List.length_range] at hbound
    rw [List.getElem_range]
    have hlane := Array.getElem?_eq_getElem hbound
    refine ⟨_, _, hlane, hlane, rfl, ?_⟩
    cases howner : s.lanes[k].owner with
    | none => rfl
    | some owner =>
      have := ord.owned_pos hlane howner
      rw [Option.map_some, Option.map_some, List.getElem?_range (by omega)]
  arena := rfl
  block := rfl

namespace Survives

variable (survives : Survives s kept r)
include survives

theorem frames_eq {k i : Nat} (h : kept[k]? = some i) : r.frames k = s.frames i := by
  obtain ⟨old, now, hold, hnow, hsame, -⟩ := survives.lane k i h
  rw [frames, frames, lane_of_getElem? hold, lane_of_getElem? hnow, hsame, Except.map, Except.map, liveFrames, liveFrames,
    survives.arena]

theorem le_of_le {k k' i i' : Nat} (h : kept[k]? = some i) (h' : kept[k']? = some i') (hle : k ≤ k') : i ≤ i' := by
  obtain ⟨hk, hi⟩ := List.getElem?_eq_some_iff.mp h
  obtain ⟨hk', hi'⟩ := List.getElem?_eq_some_iff.mp h'
  obtain rfl | hlt := Nat.eq_or_lt_of_le hle
  · exact Nat.le_of_eq (hi.symm.trans hi')
  · exact hi ▸ hi' ▸ Nat.le_of_lt (List.pairwise_iff_getElem.mp survives.sorted k k' hk hk' hlt)

theorem owns_iff {k k' i i' : Nat} (h : kept[k]? = some i) (h' : kept[k']? = some i') :
    r.Owns k k' ↔ s.Owns i i' := by
  obtain ⟨old, now, hold, hnow, -, howner⟩ := survives.lane k' i' h'
  constructor
  · rintro ⟨lane, hlane, hk⟩
    obtain rfl := Option.some.inj (hnow.symm.trans hlane)
    rw [hk, Option.map_some, h] at howner
    obtain ⟨o, ho, hi⟩ := Option.map_eq_some_iff.mp howner.symm
    exact ⟨old, hold, ho.trans hi⟩
  · rintro ⟨lane, hlane, hi⟩
    obtain rfl := Option.some.inj (hold.symm.trans hlane)
    rw [hi, Option.map_some] at howner
    obtain ⟨o, ho, hplace⟩ := Option.map_eq_some_iff.mp howner
    have hbound := (List.getElem?_eq_some_iff.mp hplace).1
    have hnodup : kept.Nodup := survives.sorted.imp Nat.ne_of_lt
    obtain rfl := (List.getElem?_inj hbound hnodup).mp (hplace.trans h.symm)
    exact ⟨now, hnow, ho⟩

/-- No owner goes before the lanes that it owns. -/
theorem mem_of_dominates {i j : Nat} (h : s.Dominates i j) (hj : j ∈ kept) : i ∈ kept := by
  induction h using Relation.ReflTransGen.head_induction_on with
  | refl => exact hj
  | @head i c howns _ hc =>
    obtain ⟨lane, hlane, howner⟩ := howns
    obtain ⟨k, hk⟩ := List.mem_iff_getElem?.mp hc
    obtain ⟨old, now, hold, -, -, hplace⟩ := survives.lane k c hk
    obtain rfl := Option.some.inj (hold.symm.trans hlane)
    rw [howner, Option.map_some] at hplace
    obtain ⟨o, -, ho⟩ := Option.map_eq_some_iff.mp hplace
    exact List.mem_of_getElem? ho

/-- Whoever owns nothing any more dominates only itself. -/
theorem dominates_iff_eq {k i j : Nat} (hk : kept[k]? = some i) (hfree : ∀ k', ¬ r.Owns k k') (hj : j ∈ kept) :
    s.Dominates i j ↔ j = i := by
  constructor
  · intro h
    obtain rfl | ⟨c, howns, hrest⟩ := Relation.ReflTransGen.cases_head h
    · rfl
    · obtain ⟨k', hk'⟩ := List.mem_iff_getElem?.mp (survives.mem_of_dominates hrest hj)
      exact absurd ((survives.owns_iff hk hk').mpr howns) (hfree k')
  · rintro rfl
    exact .refl

theorem remove {k i : Nat} (hk : kept[k]? = some i) (hfree : ∀ k', ¬ r.Owns k k') :
    Survives s (kept.filter (· ∉ [i])) (r.remove k) := by
  have hbound := (List.getElem?_eq_some_iff.mp hk).1
  have hlanes : k < r.lanes.size := survives.size ▸ hbound
  have herase : kept.filter (· ∉ [i]) = kept.eraseIdx k := by
    have hnodup : kept.Nodup := survives.sorted.imp Nat.ne_of_lt
    rw [← hnodup.erase_getElem k hbound, hnodup.erase_eq_filter, (List.getElem?_eq_some_iff.mp hk).2]
    congr 1
    funext j
    simp [bne, beq_eq_decide]
  rw [herase]
  refine ⟨survives.sorted.eraseIdx k, ?_, fun k' i' hk' => ?_, survives.arena, survives.block⟩
  · rw [lanes_remove hlanes, Array.size_map, Array.size_eraseIdx, List.length_eraseIdx_of_lt hbound, survives.size]
  · have hplace : kept[if k' < k then k' else k' + 1]? = some i' := by
      rw [List.getElem?_eraseIdx] at hk'
      split_ifs at hk' ⊢ <;> exact hk'
    obtain ⟨old, mid, hold, hmid, hsame, howner⟩ := survives.lane _ i' hplace
    refine ⟨old, mid.shiftOwner k, hold, by rw [getElem?_remove hlanes, hmid]; rfl, ?_, ?_⟩
    · rw [hsame]
      rfl
    · rw [← howner, Lane.shiftOwner]
      cases ho : mid.owner with
      | none => rfl
      | some o =>
        have hne : o ≠ k := fun heq => hfree _ ⟨mid, hmid, heq ▸ ho⟩
        simp only [Option.map_some, Option.some.injEq, List.getElem?_eraseIdx]
        split_ifs <;> first | rfl | omega | (congr 1; omega)

/-- A lane stays at its place as long as only lanes behind it go. -/
theorem getElem?_filter {k i : Nat} (hk : kept[k]? = some i) (hbehind : ∀ j ∈ order, i < j) :
    (kept.filter (· ∉ order))[k]? = some i := by
  have hbound := (List.getElem?_eq_some_iff.mp hk).1
  have hfirst : (kept.filter (· ∉ order)).take (k + 1) = kept.take (k + 1) := by
    refine take_filter fun j hj => ?_
    obtain ⟨k', hk', rfl⟩ := List.mem_take_iff_getElem.mp hj
    have hle := survives.le_of_le (List.getElem?_eq_getElem (by omega)) hk (show k' ≤ k by omega)
    simpa using fun hmem => absurd (hbehind _ hmem) (Nat.not_lt.mpr hle)
  rw [← List.getElem?_take_of_lt (Nat.lt_succ_self k), hfirst, List.getElem?_take_of_lt (Nat.lt_succ_self k), hk]

end Survives

/-! ### All that go -/

/-- A lane as it stood at a place, up to the place of its owner. -/
def WasAt (s : LaneStack) (i : Nat) (lane : Lane) : Prop :=
  ∃ old, s.lanes[i]? = some old ∧ lane = { old with owner := lane.owner }

/-- Of the lanes that are kept, those go that a lane dominates, in this order, and the others survive. -/
structure Felled (s : LaneStack) (kept : List Nat) (eldest : Nat) (order : List Nat) (gone : List Lane)
    (r : LaneStack) : Prop where
  ordered : r.Ordered
  mem : ∀ i, i ∈ order ↔ i ∈ kept ∧ s.Dominates eldest i
  pairwise : order.Pairwise s.Precedes
  lanes : List.Forall₂ s.WasAt order gone
  rest : Survives s (kept.filter (· ∉ order)) r

theorem Felled.last {k i : Nat} (survives : Survives s kept r) (ordr : r.Ordered) (hpos : 0 < k) (hk : kept[k]? = some i)
    {lane : Lane} (hlane : r.lanes[k]? = some lane) (free : r.findNewest? (·.owner = some k) = none) :
    Felled s kept i [i] [lane] (r.remove k) := by
  have hfree (k' : Nat) : ¬ r.Owns k k' := by
    rintro ⟨other, hother, howner⟩
    exact absurd howner (by simpa using findNewest?_eq_none free hother)
  refine ⟨?_, fun j => ?_, List.pairwise_singleton _ _, ?_, survives.remove hk hfree⟩
  · exact (ordr.remove hpos (Array.getElem?_eq_some_iff.mp hlane).1 fun k' other hother howner =>
      hfree k' ⟨other, hother, howner⟩).ordered
  · rw [List.mem_singleton]
    constructor
    · rintro rfl
      exact ⟨List.mem_of_getElem? hk, .refl⟩
    · rintro ⟨hj, hdominates⟩
      exact (survives.dominates_iff_eq hk hfree hj).mp hdominates
  · obtain ⟨old, now, hold, hnow, hsame, -⟩ := survives.lane k i hk
    obtain rfl := Option.some.inj (hnow.symm.trans hlane)
    exact .cons ⟨old, hold, hsame⟩ .nil

/-- First the newest of the owned lanes goes, with all that it dominates, then the rest. -/
theorem Felled.append {i owned : Nat} (howns : s.Owns i owned)
    (newest : ∀ j ∈ kept, s.Owns i j → j ≤ owned) {gone' : List Lane} {order' : List Nat}
    (first : Felled s kept owned order gone r) (howned : owned ∈ kept)
    (rest : Felled s (kept.filter (· ∉ order)) i order' gone' r') :
    Felled s kept i (order ++ order') (gone ++ gone') r' where
  ordered := rest.ordered
  mem j := by
    rw [List.mem_append, first.mem, rest.mem, List.mem_filter]
    constructor
    · rintro (⟨hj, h⟩ | ⟨⟨hj, -⟩, h⟩)
      · exact ⟨hj, .head howns h⟩
      · exact ⟨hj, h⟩
    · rintro ⟨hj, h⟩
      by_cases hfirst : j ∈ order
      · exact .inl ((first.mem j).mp hfirst)
      · exact .inr ⟨⟨hj, by simpa using hfirst⟩, h⟩
  pairwise := by
    refine List.pairwise_append.mpr ⟨first.pairwise, rest.pairwise, fun a ha b hb => ?_⟩
    obtain ⟨hb', -⟩ := (rest.mem b).mp hb
    obtain ⟨hbkept, hbstays⟩ := List.mem_filter.mp hb'
    have hbstays : b ∉ order := by simpa using hbstays
    obtain ⟨-, hdominates⟩ := (first.mem a).mp ha
    refine ⟨fun h => hbstays ((first.mem b).mpr ⟨hbkept, hdominates.trans h⟩), fun owner hownsa hownsb => ?_⟩
    obtain rfl | ⟨c, habove, hc⟩ := Relation.ReflTransGen.cases_tail hdominates
    · obtain rfl := owner_unique hownsa howns
      have hne : b ≠ a := fun heq => hbstays (heq ▸ ha)
      exact Nat.lt_of_le_of_ne (newest b hbkept hownsb) hne
    · obtain rfl := owner_unique hownsa hc
      exact absurd ((first.mem b).mpr ⟨hbkept, .tail habove hownsb⟩) hbstays
  lanes := List.rel_append first.lanes rest.lanes
  rest := by
    have hfilter : kept.filter (· ∉ order ++ order') = (kept.filter (· ∉ order)).filter (· ∉ order') := by
      rw [List.filter_filter]
      congr 1
      funext j
      simp [not_or, Bool.and_comm]
    rw [hfilter]
    exact rest.rest

theorem Aborts.felled (ord : s.Ordered) {k i : Nat} (aborts : Aborts r k gone r') (survives : Survives s kept r)
    (ordr : r.Ordered) (hpos : 0 < k) (hk : kept[k]? = some i) : ∃ order, Felled s kept i order gone r' := by
  induction aborts generalizing kept i with
  | last free hlane => exact ⟨[i], .last survives ordr hpos hk hlane free⟩
  | @owned r mid r' k owned gone gone' newest _ _ ihfirst ihrest =>
    obtain ⟨lane, hlane, howner⟩ := findNewest?_eq_some newest
    have howner : lane.owner = some k := by simpa using howner
    have hbound := (Array.getElem?_eq_some_iff.mp hlane).1
    obtain ⟨child, hchild⟩ : ∃ child, kept[owned]? = some child :=
      ⟨_, List.getElem?_eq_getElem (survives.size ▸ hbound)⟩
    have howns := (survives.owns_iff hk hchild).mp ⟨lane, hlane, howner⟩
    have hlt := ordr.owned_pos hlane howner
    obtain ⟨order, first⟩ := ihfirst survives ordr (by omega) hchild
    have hbehind (j : Nat) (hj : j ∈ order) : i < j :=
      Nat.lt_of_lt_of_le (ord.lt_of_owns howns) (ord.le_of_dominates ((first.mem j).mp hj).2)
    obtain ⟨order', rest⟩ := ihrest first.rest first.ordered hpos (survives.getElem?_filter hk hbehind)
    refine ⟨order ++ order', first.append howns (fun j hj hjowned => ?_) (List.mem_of_getElem? hchild) rest⟩
    obtain ⟨k', hk'⟩ := List.mem_iff_getElem?.mp hj
    obtain ⟨other, hother, howner'⟩ := (survives.owns_iff hk hk').mpr hjowned
    -- a later place would have been found instead
    have hplace : ¬ owned < k' := fun hlater => findNewest?_last newest hother hlater (by simpa using howner')
    exact survives.le_of_le hk' hchild (Nat.le_of_not_lt hplace)

/-- A lane goes, and with it all lanes whose owners lead to it, but no others: each of them once, after all that it
dominates, the newest of one owner first. The others keep their order, and each of them its frames and its owner. -/
theorem abort_dominated {capacity block : Nat} (h : new capacity block = .ok s) {ops : List LaneOp}
    (hafter : s.after ops = .ok r) {index : Nat} (hpos : 0 < index) (hindex : index < r.lanes.size) :
    ∃ (gone : List Lane) (r' : LaneStack) (order : List Nat),
      r.abort index = .ok (gone, r') ∧ Aborts r index gone r' ∧
      (∀ i, i ∈ order ↔ r.Dominates index i) ∧ order.Nodup ∧ order.Pairwise r.Precedes ∧
      List.Forall₂ r.WasAt order gone ∧
      Survives r ((List.range r.lanes.size).filter (· ∉ order)) r' ∧
      ∀ k i, ((List.range r.lanes.size).filter (· ∉ order))[k]? = some i → r'.frames k = r.frames i := by
  have ord : r.Ordered := (Ordered.of_isEmpty (new_eq_ok h).1).after hafter
  obtain ⟨gone, r', habort, aborts⟩ := abort_aborts ord hpos hindex
  obtain ⟨order, felled⟩ := aborts.felled ord (.refl ord) ord hpos (List.getElem?_range hindex)
  refine ⟨gone, r', order, habort, aborts, fun i => ?_, ?_, felled.pairwise, felled.lanes, felled.rest,
    fun k i => felled.rest.frames_eq⟩
  · rw [felled.mem, List.mem_range, and_iff_right_iff_imp]
    intro hdominates
    obtain rfl | ⟨_, -, lane, hlane, -⟩ := Relation.ReflTransGen.cases_tail hdominates
    · exact hindex
    · exact (Array.getElem?_eq_some_iff.mp hlane).1
  · refine felled.pairwise.imp fun {a b} hprecedes heq => hprecedes.1 ?_
    rw [heq]
    exact .refl

/-- Lane 1 owns lanes 2 and 3, which own lanes 4 and 6; lane 5 is owned by lane 0. -/
def families : List LaneOp :=
  [.createPrimary ⟨0⟩ 0, .spawn 0 ⟨1⟩ 1, .spawn 1 ⟨2⟩ 2, .spawn 1 ⟨3⟩ 3, .spawn 2 ⟨4⟩ 4, .spawn 0 ⟨5⟩ 5, .spawn 3 ⟨6⟩ 6]

theorem abort_dominated_families :
    ∃ s r, new 0 2 = .ok s ∧ s.after families = .ok r ∧ ∃ gone r' order, r.abort 1 = .ok (gone, r') ∧
      gone.map (·.id) = [6, 3, 4, 2, 1] ∧ (∀ i, i ∈ order ↔ r.Dominates 1 i) ∧ order.Pairwise r.Precedes ∧
      List.Forall₂ r.WasAt order gone := by
  have hrun : (do
      let s ← new 0 2
      let r ← s.after families
      let result ← r.abort 1
      return (r.lanes.size, result.1.map (·.id)) : Except Fault (Nat × List LaneId)) = .ok (7, [6, 3, 4, 2, 1]) := by
    cbv
  obtain ⟨s, hs, hrun⟩ := bind_eq_ok_iff.mp hrun
  obtain ⟨r, hafter, hrun⟩ := bind_eq_ok_iff.mp hrun
  obtain ⟨result, hresult, hrun⟩ := bind_eq_ok_iff.mp hrun
  obtain ⟨hsize, hids⟩ := Prod.mk.inj (Except.ok.inj hrun)
  obtain ⟨gone, r', order, habort, -, hmem, -, hprecedes, hlanes, -⟩ :=
    abort_dominated hs hafter Nat.zero_lt_one (by omega)
  obtain rfl := Except.ok.inj (hresult.symm.trans habort)
  exact ⟨s, r, hs, hafter, gone, r', order, habort, hids, hmem, hprecedes, hlanes⟩

end LaneStack

end BehaviorTree
