import BehaviorTree.Proofs.Machine.Removal

/-! Lanes told apart by their ids, which stay the same when lanes change their places. Every lane names the lane
that started it, and the removal of a lane leaves out its descendants and changes nothing else. -/

namespace BehaviorTree

/-- A lane with its frames, bottom first, and the id of the lane that started it. -/
structure Kin where
  id : LaneId
  parent : Option LaneId
  waitStart : UInt64
  frames : List Frame

namespace Kin

def ofView (parent : Option LaneId) (v : LaneView) : Kin :=
  ⟨v.id, parent, v.waitStart, v.frames⟩

/-- The same lane, with other frames or another time. -/
def Same (k k' : Kin) : Prop :=
  k'.id = k.id ∧ k'.parent = k.parent

/-- What keeps the id of a lane in one view keeps its ties in the other. -/
theorem same_of_ofView {g : LaneView → LaneView} {f : Kin → Kin} (hid : ∀ v, (g v).id = v.id)
    (hg : ∀ parent v, ofView parent (g v) = f (ofView parent v)) (k : Kin) : Same k (f k) := by
  have hk := hg k.parent ⟨k.id, none, k.waitStart, k.frames⟩
  rw [← show ofView k.parent ⟨k.id, none, k.waitStart, k.frames⟩ = k from rfl, ← hk]
  exact ⟨hid _, rfl⟩

def push (frame : Frame) (k : Kin) : Kin :=
  { k with frames := k.frames ++ [frame] }

def pop (k : Kin) : Kin :=
  { k with frames := k.frames.dropLast }

/-- Sets the progress of the top frame. -/
def setProgress (childIndex : UInt16) (k : Kin) : Kin :=
  { k with frames := k.frames.dropLast ++ (k.frames.getLast?.map ({ · with childIndex := childIndex })).toList }

def setWaitStart (time : UInt64) (k : Kin) : Kin :=
  { k with waitStart := time }

/-- The node at the bottom of a lane. -/
def root? (k : Kin) : Option NodeId :=
  k.frames.head?.map (·.node)

end Kin

/-- The lanes that a lane started, the oldest first. -/
def Kin.children (lanes : List Kin) (id : LaneId) : List Kin :=
  lanes.filter (·.parent = some id)

/-- Ids `gone` are those of a lane and of all its descendants. -/
structure Kin.Lineage (lanes : List Kin) (eldest : LaneId) (gone : List LaneId) : Prop where
  self : eldest ∈ gone
  known : ∀ id ∈ gone, ∃ k ∈ lanes, k.id = id
  up : ∀ k ∈ lanes, k.id ∈ gone → k.id = eldest ∨ ∃ id ∈ gone, k.parent = some id
  down : ∀ k ∈ lanes, ∀ id ∈ gone, k.parent = some id → k.id ∈ gone

/-- The lanes that stay when those of the given ids go. -/
def Kin.without (gone : List LaneId) (lanes : List Kin) : List Kin :=
  lanes.filter (·.id ∉ gone)

namespace Kin

variable {lanes : List Kin} {gone : List LaneId} {k : Kin}

@[simp] theorem mem_without : k ∈ without gone lanes ↔ k ∈ lanes ∧ k.id ∉ gone := by
  simp [without]

@[simp] theorem mem_children {id : LaneId} : k ∈ children lanes id ↔ k ∈ lanes ∧ k.parent = some id := by
  simp [children]

theorem without_append (gone gone' : List LaneId) (lanes : List Kin) :
    without (gone ++ gone') lanes = without gone' (without gone lanes) := by
  rw [without, without, without, List.filter_filter]
  congr 1
  funext k
  simp [not_or, Bool.and_comm]

theorem nodup_without (nodup : (lanes.map (·.id)).Nodup) : ((without gone lanes).map (·.id)).Nodup :=
  nodup.sublist (List.filter_sublist.map _)

theorem eq_of_id (nodup : (lanes.map (·.id)).Nodup) {k k' : Kin} (h : k ∈ lanes) (h' : k' ∈ lanes)
    (hid : k.id = k'.id) : k = k' :=
  List.inj_on_of_nodup_map nodup h h' hid

theorem eraseIdx_eq_without (nodup : (lanes.map (·.id)).Nodup) {i : Nat} (h : lanes[i]? = some k) :
    lanes.eraseIdx i = without [k.id] lanes := by
  induction lanes generalizing i with
  | nil => simp at h
  | cons first rest ih =>
    rw [List.map_cons, List.nodup_cons] at nodup
    cases i with
    | zero =>
      obtain rfl : first = k := by simpa using h
      have hrest : without [first.id] rest = rest := by
        refine List.filter_eq_self.mpr fun k hk => ?_
        have hne : k.id ≠ first.id := fun heq => nodup.1 (heq ▸ List.mem_map_of_mem hk)
        simpa using hne
      rw [List.eraseIdx_cons_zero, ← hrest]
      simp [without]
    | succ i =>
      have hmem : k ∈ rest := List.mem_of_getElem? (by simpa using h)
      have hne : first.id ≠ k.id := fun heq => nodup.1 (heq ▸ List.mem_map_of_mem hmem)
      rw [List.eraseIdx_cons_succ, ih nodup.2 (by simpa using h)]
      simp [without, hne]

/-- The lane of an index is the only one with its id. -/
theorem modify_eq_map (nodup : (lanes.map (·.id)).Nodup) {index : Nat} (h : lanes[index]? = some k) (f : Kin → Kin) :
    lanes.modify index f = lanes.map fun c => if c.id = k.id then f c else c := by
  apply List.ext_getElem?
  intro i
  rw [List.getElem?_modify, List.getElem?_map]
  cases hc : lanes[i]? with
  | none => rfl
  | some c =>
    have hiff : index = i ↔ c.id = k.id := by
      constructor
      · rintro rfl
        rw [Option.some.inj (hc.symm.trans h)]
      · intro hid
        have hi : i < (lanes.map (·.id)).length := by
          rw [List.length_map]
          exact (List.getElem?_eq_some_iff.mp hc).1
        refine ((List.getElem?_inj hi nodup).mp ?_).symm
        rw [List.getElem?_map, List.getElem?_map, hc, h]
        exact congrArg some hid
    by_cases hid : c.id = k.id
    · simp [hid, hiff.mpr hid]
    · simp [hid, mt hiff.mp hid]

theorem children_map (f : Kin → Kin) (hf : ∀ k, (f k).parent = k.parent) (id : LaneId) :
    children (lanes.map f) id = (children lanes id).map f := by
  simp [children, List.filter_map, Function.comp_def, hf]

theorem children_append (lanes' : List Kin) (id : LaneId) :
    children (lanes ++ lanes') id = children lanes id ++ children lanes' id :=
  List.filter_append ..

/-- The children that stay are the children of the lanes that stay. -/
theorem children_without (id : LaneId) : children (without gone lanes) id = without gone (children lanes id) := by
  rw [children, without, without, children, List.filter_comm]

/-- No lane stands behind the last child but those that are not children. -/
theorem not_child_of_last {id : LaneId} {before : List Kin} {c : Kin} (h : children lanes id = before ++ [c])
    (nodup : (lanes.map (·.id)).Nodup) {i j : Nat} (hi : lanes[i]? = some c) {d : Kin} (hj : lanes[j]? = some d)
    (hlt : i < j) : d.parent ≠ some id := by
  obtain ⟨first, rest, hsplit, -, hrest⟩ := List.filter_eq_append_iff.mp h
  obtain ⟨middle, last, hmiddle, -, -, hlast⟩ := List.filter_eq_cons_iff.mp hrest
  have hlanes : lanes = (first ++ middle) ++ c :: last := by
    rw [hsplit, hmiddle, List.append_assoc]
  have hplace : i = (first ++ middle).length := by
    have hi' : i < (lanes.map (·.id)).length := by
      rw [List.length_map]
      exact (List.getElem?_eq_some_iff.mp hi).1
    refine (List.getElem?_inj hi' nodup).mp ?_
    rw [List.getElem?_map, List.getElem?_map, hi, hlanes, List.getElem?_append_right (Nat.le_refl _), Nat.sub_self]
    rfl
  have hmem : d ∈ last := by
    rw [hlanes, List.getElem?_append_right (by omega), List.getElem?_cons] at hj
    split_ifs at hj with hzero
    · omega
    · exact List.mem_of_getElem? hj
  have hmissed := List.filter_eq_nil_iff.mp hlast d hmem
  simpa using hmissed

/-- First the descendants of a child go, then the rest. -/
theorem Lineage.append {child : Kin} {id : LaneId} {gone' : List LaneId} (lineage : Lineage lanes child.id gone)
    (nodup : (lanes.map (·.id)).Nodup) (hchild : child ∈ lanes) (hparent : child.parent = some id)
    (lineage' : Lineage (without gone lanes) id gone') : Lineage lanes id (gone ++ gone') where
  self := List.mem_append_right _ lineage'.self
  known := by
    intro id hid
    obtain hid | hid := List.mem_append.mp hid
    · exact lineage.known id hid
    · obtain ⟨k, hmem, hid⟩ := lineage'.known id hid
      exact ⟨k, (mem_without.mp hmem).1, hid⟩
  up := by
    intro k hmem hid
    by_cases hgone : k.id ∈ gone
    · obtain hself | ⟨above, habove, hup⟩ := lineage.up k hmem hgone
      · obtain rfl := eq_of_id nodup hmem hchild hself
        exact .inr ⟨id, List.mem_append_right _ lineage'.self, hparent⟩
      · exact .inr ⟨above, List.mem_append_left _ habove, hup⟩
    · have hgone' := (List.mem_append.mp hid).resolve_left hgone
      obtain hself | ⟨above, habove, hup⟩ := lineage'.up k (mem_without.mpr ⟨hmem, hgone⟩) hgone'
      · exact .inl hself
      · exact .inr ⟨above, List.mem_append_right _ habove, hup⟩
  down := by
    intro k hmem above habove hup
    by_cases hgone : k.id ∈ gone
    · exact List.mem_append_left _ hgone
    · obtain habove | habove := List.mem_append.mp habove
      · exact absurd (lineage.down k hmem above habove hup) hgone
      · exact List.mem_append_right _ (lineage'.down k (mem_without.mpr ⟨hmem, hgone⟩) above habove hup)

end Kin

namespace LaneStack

variable {s s' : LaneStack}

def kinOf (s : LaneStack) (v : LaneView) : Kin :=
  .ofView (v.owner.bind fun owner => s.view[owner]?.map (·.id)) v

def kin (s : LaneStack) : List Kin :=
  s.view.map s.kinOf

@[simp] theorem length_kin (s : LaneStack) : s.kin.length = s.lanes.size := by
  simp [kin]

theorem getElem?_kin (s : LaneStack) (i : Nat) : s.kin[i]? = s.view[i]?.map s.kinOf := by
  simp [kin]

theorem ids_kin (s : LaneStack) : s.kin.map (·.id) = s.view.map (·.id) := by
  simp only [kin, List.map_map]
  rfl

theorem getElem?_ids (s : LaneStack) (i : Nat) : s.view[i]?.map (·.id) = s.kin[i]?.map (·.id) := by
  rw [getElem?_kin, Option.map_map]
  rfl

/-- The owner of a lane is one of the lanes before it. -/
theorem Ordered.owner_view (ord : s.Ordered) {i : Nat} {v : LaneView} (h : s.view[i]? = some v) {owner : Nat}
    (howner : v.owner = some owner) : owner < i ∧ ∃ w, s.view[owner]? = some w := by
  obtain ⟨lane, hlane, rfl⟩ := getElem?_view_eq_some_iff.mp h
  have hlt := ord.owned_pos hlane howner
  have hbound := (Array.getElem?_eq_some_iff.mp hlane).1
  exact ⟨hlt, s.viewOf s.lanes[owner], getElem?_view_eq_some_iff.mpr ⟨_, Array.getElem?_eq_getElem _, rfl⟩⟩

/-- The owner of a lane stands before it, and only the first lane has none. -/
theorem Ordered.parent_of (ord : s.Ordered) {i : Nat} {k : Kin} (hk : s.kin[i]? = some k) :
    k.parent = none ∧ i = 0 ∨ ∃ j k', j < i ∧ s.kin[j]? = some k' ∧ k.parent = some k'.id := by
  obtain ⟨v, hv, rfl⟩ := Option.map_eq_some_iff.mp ((getElem?_kin ..).symm.trans hk)
  obtain ⟨lane, hlane, rfl⟩ := getElem?_view_eq_some_iff.mp hv
  have howner : (s.viewOf lane).owner = lane.owner := rfl
  obtain ⟨hnone, hi⟩ | ⟨owner, hsome, -⟩ := ord.owned i lane hlane
  · refine .inl ⟨?_, hi⟩
    show (s.viewOf lane).owner.bind _ = none
    rw [howner, hnone]
    rfl
  · obtain ⟨hlt, w, hw⟩ := ord.owner_view hv (howner.trans hsome)
    refine .inr ⟨owner, s.kinOf w, hlt, ?_, ?_⟩
    · exact (getElem?_kin ..).trans (congrArg (Option.map s.kinOf) hw)
    · show (s.viewOf lane).owner.bind _ = some w.id
      rw [howner, hsome, Option.bind_some, hw]
      rfl

/-- What changes neither owners nor ids keeps the ties between lanes. -/
theorem kin_of_modify {index : Nat} {g : LaneView → LaneView} {f : Kin → Kin} (hview : s'.view = s.view.modify index g)
    (hid : ∀ v, (g v).id = v.id) (howner : ∀ v, (g v).owner = v.owner)
    (hg : ∀ parent v, Kin.ofView parent (g v) = f (.ofView parent v)) : s'.kin = s.kin.modify index f := by
  have hids (i : Nat) : s'.view[i]?.map (·.id) = s.view[i]?.map (·.id) := by
    rw [hview, List.getElem?_modify]
    cases s.view[i]? with
    | none => rfl
    | some v =>
      by_cases hi : index = i
      · simp [hi, hid]
      · simp [hi]
  have hkin (v : LaneView) : s'.kinOf (g v) = f (s.kinOf v) := by
    rw [kinOf, kinOf, hg, howner]
    congr 2
    cases v.owner with
    | none => rfl
    | some owner => exact hids owner
  have hother (v : LaneView) : s'.kinOf v = s.kinOf v := by
    rw [kinOf, kinOf]
    congr 1
    cases v.owner with
    | none => rfl
    | some owner => exact hids owner
  apply List.ext_getElem?
  intro i
  rw [List.getElem?_modify, getElem?_kin, getElem?_kin, hview, List.getElem?_modify]
  by_cases hi : index = i
  · simp only [hi, if_true]
    cases s.view[i]? with
    | none => rfl
    | some v => simp [hkin]
  · simp only [hi, if_false]
    cases s.view[i]? with
    | none => rfl
    | some v => simp [hother]

/-- A new lane names its owner. -/
theorem kin_of_append (ord : s.Ordered) {owner : Nat} (h : owner < s.lanes.size) {id : LaneId} {frames : List Frame}
    (hview : s'.view = s.view ++ [⟨id, some owner, 0, frames⟩]) :
    s'.kin = s.kin ++ [⟨id, s.kin[owner]?.map (·.id), 0, frames⟩] := by
  have hget {i : Nat} (hi : i < s.lanes.size) : s'.view[i]? = s.view[i]? := by
    rw [hview, List.getElem?_append_left (by rwa [length_view])]
  have hold : s.view.map s'.kinOf = s.kin := by
    apply List.ext_getElem?
    intro i
    rw [getElem?_kin, List.getElem?_map]
    cases hv : s.view[i]? with
    | none => rfl
    | some v =>
      simp only [Option.map_some, kinOf]
      congr 2
      cases howner : v.owner with
      | none => rfl
      | some o =>
        obtain ⟨hlt, -⟩ := ord.owner_view hv howner
        have hi := (List.getElem?_eq_some_iff.mp hv).1
        rw [length_view] at hi
        simp only [Option.bind_some, hget (Nat.lt_trans hlt hi)]
  rw [kin, hview, List.map_append, hold, ← getElem?_ids]
  simp [kinOf, Kin.ofView, hget h]

/-! ### Removal -/

/-- Nothing but the lane itself goes if it has no lanes of its own. -/
theorem kin_remove {index : Nat} (h : index < s.lanes.size)
    (hfree : ∀ (i : Nat) (lane : Lane), s.lanes[i]? = some lane → lane.owner ≠ some index) :
    (s.remove index).kin = s.kin.eraseIdx index := by
  have hids {owner : Nat} (hne : owner ≠ index) :
      ((s.remove index).view[if index < owner then owner - 1 else owner]?).map (·.id) = s.view[owner]?.map (·.id) := by
    rw [getElem?_view_remove h, Option.map_map]
    have hplace : (if (if index < owner then owner - 1 else owner) < index then
        (if index < owner then owner - 1 else owner) else (if index < owner then owner - 1 else owner) + 1) = owner := by
      split_ifs <;> omega
    rw [hplace]
    rfl
  apply List.ext_getElem?
  intro i
  rw [getElem?_kin, List.getElem?_eraseIdx, getElem?_view_remove h, getElem?_kin, getElem?_kin]
  have hplace : (if i < index then Option.map s.kinOf s.view[i]? else Option.map s.kinOf s.view[i + 1]?) =
      Option.map s.kinOf s.view[if i < index then i else i + 1]? := by
    split_ifs <;> rfl
  rw [hplace, Option.map_map]
  cases hv : s.view[if i < index then i else i + 1]? with
  | none => rfl
  | some v =>
    simp only [Option.map_some, Function.comp, kinOf, Kin.ofView]
    congr 2
    cases howner : v.owner with
    | none => rfl
    | some owner =>
      obtain ⟨lane, hlane, rfl⟩ := getElem?_view_eq_some_iff.mp hv
      have hne : owner ≠ index := fun heq => hfree _ lane hlane (heq ▸ howner)
      exact hids hne

/-- A lane is owned by the lane that it names. -/
theorem parent_eq_iff (ord : s.Ordered) (nodup : (s.kin.map (·.id)).Nodup) {i owner : Nat} {v : LaneView} {k : Kin}
    (h : s.view[i]? = some v) (hk : s.kin[owner]? = some k) :
    (s.kinOf v).parent = some k.id ↔ v.owner = some owner := by
  cases howner : v.owner with
  | none => simp [kinOf, Kin.ofView, howner]
  | some o =>
    obtain ⟨-, w, hw⟩ := ord.owner_view h howner
    have hwk : s.kin[o]? = some (s.kinOf w) := by
      rw [getElem?_kin, hw]
      rfl
    have hparent : (s.kinOf v).parent = some w.id := by
      simp [kinOf, Kin.ofView, howner, hw]
    rw [hparent]
    simp only [Option.some.injEq]
    constructor
    · intro hid
      have hio : o < (s.kin.map (·.id)).length := by
        rw [List.length_map]
        exact (List.getElem?_eq_some_iff.mp hwk).1
      refine (List.getElem?_inj hio nodup).mp ?_
      rw [List.getElem?_map, List.getElem?_map, hwk, hk]
      exact congrArg some hid
    · rintro rfl
      rw [hwk] at hk
      exact congrArg Kin.id (Option.some.inj hk)

/-- A lane below all that go stays in its place. -/
theorem Pruned.kin_below {owned index : Nat} (pruned : Pruned owned s s') (nodup : (s.kin.map (·.id)).Nodup)
    {gone : List LaneId} (hkin : s'.kin = Kin.without gone s.kin) (hlt : index < owned) {k : Kin}
    (hk : s.kin[index]? = some k) : s'.kin[index]? = some k := by
  have hid : s'.kin[index]?.map (·.id) = s.kin[index]?.map (·.id) := by
    rw [← getElem?_ids, ← getElem?_ids, getElem?_view, getElem?_view, pruned.below index hlt, Option.map_map,
      Option.map_map]
    rfl
  rw [hk] at hid
  obtain ⟨k', hk', hid⟩ := Option.map_eq_some_iff.mp hid
  have hmem : k' ∈ Kin.without gone s.kin := hkin ▸ List.mem_of_getElem? hk'
  rw [hk', Kin.eq_of_id nodup (Kin.mem_without.mp hmem).1 (List.mem_of_getElem? hk) hid]

/-- The lane of an index, with its descendants, is all that goes. -/
theorem abortInto_kin (fuel : Nat) {s : LaneStack} (ord : s.Ordered) (nodup : (s.kin.map (·.id)).Nodup) {index : Nat}
    (hpos : 0 < index) (hfuel : s.lanes.size - index ≤ fuel) {k : Kin} (hk : s.kin[index]? = some k)
    (removed : Array Lane) :
    ∃ gone : List Lane, (abortInto fuel s index removed).1.toList = removed.toList ++ gone ∧
      (abortInto fuel s index removed).2.kin = Kin.without (gone.map (·.id)) s.kin ∧
      Kin.Lineage s.kin k.id (gone.map (·.id)) := by
  induction fuel generalizing s index k removed with
  | zero =>
    have := (List.getElem?_eq_some_iff.mp hk).1
    rw [length_kin] at this
    omega
  | succ fuel ih =>
    have h : index < s.lanes.size := by
      rw [← length_kin]
      exact (List.getElem?_eq_some_iff.mp hk).1
    have hlane := Array.getElem?_eq_getElem h
    have hkid : s.lanes[index].id = k.id := by
      rw [getElem?_kin, getElem?_view, hlane] at hk
      exact congrArg Kin.id (Option.some.inj hk)
    rw [abortInto]
    cases hfind : s.findNewest? (·.owner = some index) with
    | none =>
      have hfree (i : Nat) (lane : Lane) (hlane : s.lanes[i]? = some lane) : lane.owner ≠ some index := by
        simpa using findNewest?_eq_none hfind hlane
      simp only [hlane]
      refine ⟨[s.lanes[index]], by simp, ?_, ?_⟩
      · rw [kin_remove h hfree, Kin.eraseIdx_eq_without nodup hk, List.map_singleton, hkid]
      · rw [List.map_singleton, hkid]
        refine ⟨by simp, ?_, fun k' _ hgone => .inl (by simpa using hgone), ?_⟩
        · simp only [List.mem_singleton, forall_eq]
          exact ⟨k, List.mem_of_getElem? hk, rfl⟩
        · intro k' hmem id hid hparent
          obtain rfl := List.mem_singleton.mp hid
          obtain ⟨i, hi⟩ := List.mem_iff_getElem?.mp hmem
          rw [getElem?_kin] at hi
          obtain ⟨v, hv, rfl⟩ := Option.map_eq_some_iff.mp hi
          have howner := (parent_eq_iff ord nodup hv hk).mp hparent
          obtain ⟨lane, hlane, rfl⟩ := getElem?_view_eq_some_iff.mp hv
          exact absurd howner (hfree i lane hlane)
    | some owned =>
      obtain ⟨lane, hlaneo, howner⟩ := findNewest?_eq_some hfind
      have hbound := (Array.getElem?_eq_some_iff.mp hlaneo).1
      have howner : lane.owner = some index := by simpa using howner
      have hlt := ord.owned_pos hlaneo howner
      have hvo : s.view[owned]? = some (s.viewOf lane) := getElem?_view_eq_some_iff.mpr ⟨lane, hlaneo, rfl⟩
      have hko : s.kin[owned]? = some (s.kinOf (s.viewOf lane)) := by
        rw [getElem?_kin, hvo]
        rfl
      have hparent := (parent_eq_iff ord nodup hvo hk).mpr howner
      obtain ⟨gone, hremoved, hkin, lineage⟩ := ih ord nodup (by omega) (by omega) hko removed
      have pruned := abortInto_pruned fuel ord (by omega) hbound (by omega) removed
      generalize hresult : abortInto fuel s owned removed = result at hremoved hkin pruned
      obtain ⟨removed', r⟩ := result
      simp only [hresult] at hremoved hkin pruned ⊢
      have nodup' : (r.kin.map (·.id)).Nodup := hkin ▸ Kin.nodup_without nodup
      have hfewer := pruned.fewer
      obtain ⟨gone', hremoved', hkin', lineage'⟩ :=
        ih pruned.ordered nodup' hpos (by omega) (pruned.kin_below nodup hkin hlt hk) removed'
      refine ⟨gone ++ gone', ?_, ?_, ?_⟩
      · rw [hremoved', hremoved, List.append_assoc]
      · rw [hkin', hkin, List.map_append, Kin.without_append]
      · rw [List.map_append]
        exact lineage.append nodup (List.mem_of_getElem? hko) hparent (hkin ▸ lineage')

theorem abort_kin (ord : s.Ordered) (nodup : (s.kin.map (·.id)).Nodup) {index : Nat} (hpos : 0 < index) {k : Kin}
    (hk : s.kin[index]? = some k) :
    ∃ (gone : List Lane) (s' : LaneStack), s.abort index = .ok (gone, s') ∧ Pruned index s s' ∧
      s'.kin = Kin.without (gone.map (·.id)) s.kin ∧ Kin.Lineage s.kin k.id (gone.map (·.id)) := by
  have h : index < s.lanes.size := by
    rw [← length_kin]
    exact (List.getElem?_eq_some_iff.mp hk).1
  obtain ⟨gone, hremoved, hkin, lineage⟩ := abortInto_kin s.lanes.size ord nodup hpos (Nat.sub_le _ _) hk #[]
  refine ⟨gone, _, ?_, abortInto_pruned s.lanes.size ord hpos h (Nat.sub_le _ _) #[], hkin, lineage⟩
  rw [abort, if_neg (by omega), if_pos h]
  show Except.ok ((abortInto s.lanes.size s index #[]).1.toList, _) = _
  rw [hremoved]
  simp

/-! ### Search -/

/-- No later lane is found. -/
theorem findNewest?_last {p : Lane → Bool} {i j : Nat} (h : s.findNewest? p = some i) {lane : Lane}
    (hlane : s.lanes[j]? = some lane) (hlt : i < j) : ¬ p lane := by
  obtain ⟨-, before, after, hsplit, hmissed⟩ := List.find?_eq_some_iff_append.mp h
  have hdescending : ((List.range s.lanes.size).reverse).Pairwise (· > ·) := by
    rw [List.pairwise_reverse]
    exact List.pairwise_lt_range
  have hmem : j ∈ (List.range s.lanes.size).reverse := by
    have := (Array.getElem?_eq_some_iff.mp hlane).1
    simpa using this
  rw [hsplit] at hdescending hmem
  have hbelow := (List.pairwise_append.mp hdescending).2.1
  obtain hbefore | rfl | hafter := by simpa using hmem
  · have := hmissed j hbefore
    simpa [hlane] using this
  · omega
  · have := (List.pairwise_cons.mp hbelow).1 j hafter
    omega

theorem root?_kinOf (ord : s.Ordered) {i : Nat} {lane : Lane} (h : s.lanes[i]? = some lane) :
    (s.bottom? lane).map (·.node) = (s.kinOf (s.viewOf lane)).root? := by
  rw [bottom?_eq ord h]
  rfl

/-- The newest child with the root is found. -/
theorem findOwned?_kin (ord : s.Ordered) (nodup : (s.kin.map (·.id)).Nodup) {owner : Nat} {k : Kin}
    (hk : s.kin[owner]? = some k) (root : NodeId) :
    match s.findOwned? owner root with
    | none => ∀ c ∈ Kin.children s.kin k.id, c.root? ≠ some root
    | some owned => ∃ c, s.kin[owned]? = some c ∧ c.parent = some k.id ∧ c.root? = some root ∧
        ∀ (j : Nat) (d : Kin), s.kin[j]? = some d → owned < j → d.parent = some k.id → d.root? ≠ some root := by
  have hfound {i : Nat} {lane : Lane} (hlane : s.lanes[i]? = some lane) :
      decide (lane.owner = some owner ∧ (s.bottom? lane).map (·.node) = some root) = true ↔
        (s.kinOf (s.viewOf lane)).parent = some k.id ∧ (s.kinOf (s.viewOf lane)).root? = some root := by
    have hv : s.view[i]? = some (s.viewOf lane) := getElem?_view_eq_some_iff.mpr ⟨lane, hlane, rfl⟩
    rw [decide_eq_true_iff, root?_kinOf ord hlane, parent_eq_iff ord nodup hv hk]
    rfl
  have hlaneOf {i : Nat} {c : Kin} (hc : s.kin[i]? = some c) :
      ∃ lane, s.lanes[i]? = some lane ∧ s.kinOf (s.viewOf lane) = c := by
    rw [getElem?_kin] at hc
    obtain ⟨v, hv, rfl⟩ := Option.map_eq_some_iff.mp hc
    obtain ⟨lane, hlane, rfl⟩ := getElem?_view_eq_some_iff.mp hv
    exact ⟨lane, hlane, rfl⟩
  cases hfind : s.findOwned? owner root with
  | none =>
    intro c hc hroot
    obtain ⟨hmem, hparent⟩ := Kin.mem_children.mp hc
    obtain ⟨i, hi⟩ := List.mem_iff_getElem?.mp hmem
    obtain ⟨lane, hlane, rfl⟩ := hlaneOf hi
    exact findNewest?_eq_none hfind hlane ((hfound hlane).mpr ⟨hparent, hroot⟩)
  | some owned =>
    obtain ⟨lane, hlane, hp⟩ := findNewest?_eq_some hfind
    obtain ⟨hparent, hroot⟩ := (hfound hlane).mp hp
    refine ⟨_, by rw [getElem?_kin, getElem?_view, hlane]; rfl, hparent, hroot, ?_⟩
    intro j d hd hlt hparent' hroot'
    obtain ⟨later, hlater, rfl⟩ := hlaneOf hd
    exact findNewest?_last hfind hlater hlt ((hfound hlater).mpr ⟨hparent', hroot'⟩)

end LaneStack

end BehaviorTree
