import BehaviorTree.Proofs.Machine.Parallel

/-! How much work is left. A node weighs as many steps as it takes to get through everything below it, and a frame
weighs what is left of its node. The node at the bottom of a lane pays for all that the lane can do in a turn, and for
the lanes that it started; no move spends more than it takes away. -/

namespace BehaviorTree

namespace Program

/-- The steps that a node takes with everything below it, at most so deep. -/
def weightWithin (p : Program) : (depth : Nat) → NodeId → Nat
  | 0, _ => 0
  | depth + 1, id =>
    match p.node? id with
    | none => 0
    | some node => 1 + (node.children.map fun child => p.weightWithin depth child + 1).sum

def weight (p : Program) : NodeId → Nat :=
  p.weightWithin p.size

end Program

/-- The children that a node with this progress may still call. -/
def Node.left (childIndex : UInt16) : Node → List NodeId
  | .sequence children => children.toList.drop childIndex.toNat
  | node => if childIndex = 0 then node.children else []

namespace Program

/-- The steps that are left of a frame, without those of its callee. -/
def remaining (p : Program) (frame : Frame) : Nat :=
  match p.node? frame.node with
  | none => 0
  | some node => 1 + ((node.left frame.childIndex).map fun child => p.weight child + 1).sum

/-- The steps that are left of a lane until its bottom is on top again, and the one that looks at it then. -/
def workload (p : Program) : List Frame → Nat
  | [] => 0
  | _ :: above => 1 + (above.map p.remaining).sum

end Program

/-- What a whole turn of a lane takes. -/
def Kin.price (p : Program) (k : Kin) : Nat :=
  k.root?.elim 0 p.weight

/-- What the lanes take that a lane started. -/
def Kin.upkeep (p : Program) (lanes : List Kin) (id : LaneId) : Nat :=
  ((Kin.children lanes id).map (Kin.price p)).sum

/-! ### Weights -/

namespace Program

variable {p : Program} {id child : NodeId} {node : Node}

theorem weightWithin_of_unknown (hnode : p.node? id = none) (depth : Nat) : p.weightWithin depth id = 0 := by
  cases depth with
  | zero => rfl
  | succ depth => simp only [weightWithin, hnode]

theorem weight_eq (acyclic : p.Acyclic) (hid : p.Reachable id) (hnode : p.node? id = some node) :
    p.weight id = 1 + (node.children.map fun child => p.weight child + 1).sum := by
  have hstable : p.weightWithin p.size id = p.weightWithin (p.size + 1) id := by
    refine acyclic.induction (motive := fun depth id => p.weightWithin depth id = p.weightWithin (depth + 1) id)
      (fun depth id hnone => ?_) (fun depth id node hnode ih => ?_) hid
    · rw [weightWithin_of_unknown hnone, weightWithin_of_unknown hnone]
    · simp only [weightWithin, hnode] at ih ⊢
      rw [List.map_congr_left fun child hchild => congrArg (· + 1) (ih child hchild)]
  rw [weight, hstable]
  simp only [weightWithin, hnode]

theorem weight_lt_of_child (acyclic : p.Acyclic) (hid : p.Reachable id) (hnode : p.node? id = some node)
    (hchild : child ∈ node.children) : p.weight child + 1 < p.weight id := by
  have hle := List.le_sum_of_mem (List.mem_map_of_mem (f := fun child => p.weight child + 1) hchild)
  rw [weight_eq acyclic hid hnode]
  omega

/-- Nothing weighs more than the root. -/
theorem weight_le_root (acyclic : p.Acyclic) (hid : p.Reachable id) : p.weight id ≤ p.weight .root := by
  induction hid with
  | refl => exact Nat.le_refl _
  | tail hbefore hchild ih =>
    obtain ⟨node, hnode, hmem⟩ := hchild
    have := weight_lt_of_child acyclic hbefore hnode hmem
    omega

theorem weight_pos (acyclic : p.Acyclic) (hid : p.Reachable id) (hnode : p.node? id = some node) : 0 < p.weight id := by
  rw [weight_eq acyclic hid hnode]
  omega

/-! ### Frames -/

theorem remaining_eq (frame : Frame) (hnode : p.node? frame.node = some node) :
    p.remaining frame = 1 + ((node.left frame.childIndex).map fun child => p.weight child + 1).sum := by
  simp only [remaining, hnode]

theorem remaining_pos {frame : Frame} (hnode : p.node? frame.node = some node) : 0 < p.remaining frame := by
  rw [remaining_eq frame hnode]
  omega

/-- A frame that has not begun weighs as much as its node. -/
theorem remaining_start (acyclic : p.Acyclic) (hid : p.Reachable id) : p.remaining (.start id) = p.weight id := by
  cases hnode : p.node? id with
  | none => simp only [remaining, Frame.start, hnode, weight, weightWithin_of_unknown hnode]
  | some node =>
    rw [weight_eq acyclic hid hnode, remaining_eq (.start id) hnode]
    cases node <;> rfl

/-- What a node calls, and the progress that it makes by that. -/
theorem remaining_of_calls {frame : Frame} {progress : UInt16} (hnode : p.node? frame.node = some node)
    (hcall : node.Calls frame.childIndex progress child) :
    p.remaining ⟨frame.node, progress⟩ + p.weight child < p.remaining frame := by
  rw [remaining_eq frame hnode, remaining_eq ⟨frame.node, progress⟩ hnode]
  have hmem := Node.mem_children_of_calls hcall
  -- Only sequences have more than one child to call.
  have honce (hfirst : frame.childIndex = 0) (hlater : progress ≠ 0)
      (hleft : ∀ i, node.left i = if i = 0 then node.children else []) :
      1 + ((node.left progress).map fun child => p.weight child + 1).sum + p.weight child <
        1 + ((node.left frame.childIndex).map fun child => p.weight child + 1).sum := by
    rw [hleft, hleft, if_neg hlater, if_pos hfirst]
    have := List.le_sum_of_mem (List.mem_map_of_mem (f := fun child => p.weight child + 1) hmem)
    simp only [List.map_nil, List.sum_nil]
    omega
  have hone : (1 : UInt16) ≠ 0 := by decide
  cases node with
  | nop | fail | wait _ | query _ _ | parallel _ _ | writeField _ _ | writeVar _ _ => exact hcall.elim
  | root _ | threadRoot _ _ | «catch» _ | optional _ _ =>
    obtain ⟨hfirst, rfl, -⟩ := hcall
    exact honce hfirst hone fun _ => rfl
  | selector branches =>
    obtain ⟨hfirst, place, branch, -, hplace, -⟩ := hcall
    refine honce hfirst ?_ fun _ => rfl
    rintro rfl
    cases hplace
  | sequence children =>
    obtain ⟨hfits, rfl, hchild⟩ := hcall
    obtain ⟨hlt, rfl⟩ := Array.getElem?_eq_some_iff.mp hchild
    have hprogress : (frame.childIndex + 1).toNat = frame.childIndex.toNat + 1 := by
      rw [UInt16.toNat_add]
      exact Nat.mod_eq_of_lt hfits
    have hdrop := List.drop_eq_getElem_cons (l := children.toList) (i := frame.childIndex.toNat) (by simpa using hlt)
    simp only [Node.left, hprogress, hdrop, List.map_cons, List.sum_cons, Array.getElem_toList]
    omega

/-- A frame of a node without children weighs one step at all times. -/
theorem remaining_of_leaf (frame : Frame) (hnode : p.node? frame.node = some node) (hleaf : node.children = [])
    (hkind : node.kind ≠ .sequence) : p.remaining frame = 1 := by
  rw [remaining_eq frame hnode]
  cases node <;> simp [Node.left, hleaf, Node.kind] at hkind ⊢

/-- Once a parallel node has begun, nothing is left of it but to come back to it. -/
theorem remaining_of_begun {main thread : NodeId} (hnode : p.node? id = some (.parallel main thread)) :
    p.remaining ⟨id, 1⟩ = 1 := by
  rw [remaining_eq ⟨id, 1⟩ hnode]
  rfl

theorem remaining_of_parallel {main thread : NodeId} {frame : Frame}
    (hnode : p.node? frame.node = some (.parallel main thread)) (hfirst : frame.childIndex = 0) :
    p.remaining frame = p.weight main + p.weight thread + 3 := by
  rw [remaining_eq frame hnode, hfirst]
  simp only [Node.left, if_true, Node.children, List.map_cons, List.map_nil, List.sum_cons, List.sum_nil]
  omega

/-! ### Stacks -/

variable {frames lower : List Frame} {frame : Frame}

theorem workload_concat (h : lower ≠ []) : p.workload (lower ++ [frame]) = p.workload lower + p.remaining frame := by
  cases lower with
  | nil => exact absurd rfl h
  | cons bottom above => simp [workload, Nat.add_assoc]

theorem workload_pos (h : frames ≠ []) : 0 < p.workload frames := by
  cases frames with
  | nil => exact absurd rfl h
  | cons bottom above =>
    rw [workload]
    omega

theorem workload_pop_lt (hlast : frames.getLast? = some frame) (hnode : p.node? frame.node = some node) :
    p.workload frames.dropLast < p.workload frames := by
  obtain ⟨lower, rfl⟩ := List.getLast?_eq_some_iff.mp hlast
  rw [List.dropLast_concat]
  by_cases h : lower = []
  · subst h
    exact Nat.zero_lt_succ _
  · have := remaining_pos hnode
    rw [workload_concat h]
    omega

end Program

/-! ### Lanes -/

namespace Kin

variable {p : Program} {lanes : List Kin} {k k' : Kin} {index : Nat}

theorem price_eq {id : NodeId} (h : k.root? = some id) : k.price p = p.weight id := by
  rw [price, h]
  rfl

/-- A lane that keeps its bottom, or loses it, is not more expensive. -/
theorem price_le_of_keepsRoot (h : k.KeepsRoot k') : k'.price p ≤ k.price p := by
  cases hroot : k'.root? with
  | none =>
    rw [price, hroot]
    exact Nat.zero_le _
  | some id => rw [price_eq hroot, price_eq (h id hroot)]

/-- The lanes that one lane started stay as expensive as they are if only another lane changes, and that for the
better. -/
theorem upkeep_modify_le (hk : lanes[index]? = some k) {f : Kin → Kin} (hsame : k.Same (f k))
    (hprice : (f k).price p ≤ k.price p) (id : LaneId) : upkeep p (lanes.modify index f) id ≤ upkeep p lanes id := by
  obtain ⟨hlt, rfl⟩ := List.getElem?_eq_some_iff.mp hk
  have hsplit : lanes = lanes.take index ++ lanes[index] :: lanes.drop (index + 1) := by
    rw [← List.drop_eq_getElem_cons hlt, List.take_append_drop]
  have hone : upkeep p [f lanes[index]] id ≤ upkeep p [lanes[index]] id := by
    by_cases h : lanes[index].parent = some id <;> simp [upkeep, children, hsame.2, h, hprice]
  have happend (before after : List Kin) (k : Kin) :
      upkeep p (before ++ k :: after) id = upkeep p before id + (upkeep p [k] id + upkeep p after id) := by
    simp only [upkeep, List.append_cons before k after, children_append, List.map_append, List.sum_append, Nat.add_assoc]
  rw [List.modify_eq_take_cons_drop hlt, happend]
  conv_rhs => rw [hsplit, happend]
  omega

theorem upkeep_without_le (gone : List LaneId) (id : LaneId) : upkeep p (without gone lanes) id ≤ upkeep p lanes id := by
  rw [upkeep, upkeep, children_without]
  exact (List.filter_sublist.map _).sum_le_sum fun _ _ => Nat.zero_le _

theorem upkeep_concat (id : LaneId) : upkeep p (lanes ++ [k]) id =
    upkeep p lanes id + if k.parent = some id then k.price p else 0 := by
  rw [upkeep, children_append, List.map_append, List.sum_append, ← upkeep]
  congr 1
  by_cases h : k.parent = some id <;> simp [children, h]

/-- Lanes that pay for what they started, each started by one before it, are paid by the first. -/
theorem sum_le_price {first : Kin} (rest : List Kin) (cost : Kin → Nat)
    (born : ∀ i k, rest[i]? = some k → ∃ k' ∈ first :: rest.take i, k.parent = some k'.id)
    (afford : ∀ k ∈ first :: rest, cost k + upkeep p (first :: rest) k.id ≤ k.price p) :
    ((first :: rest).map cost).sum ≤ first.price p := by
  induction rest using List.reverseRecOn generalizing cost with
  | nil =>
    have := afford first List.mem_cons_self
    simp only [List.map_cons, List.map_nil, List.sum_cons, List.sum_nil]
    omega
  | append_singleton rest last ih =>
    have hborn (i : Nat) (k : Kin) (hk : rest[i]? = some k) : ∃ k' ∈ first :: rest.take i, k.parent = some k'.id := by
      have hlt := (List.getElem?_eq_some_iff.mp hk).1
      have := born i k (by rwa [List.getElem?_append_left hlt])
      rwa [List.take_append_of_le_length (Nat.le_of_lt hlt)] at this
    have hafford (k : Kin) (hk : k ∈ first :: rest) :
        cost k + (if last.parent = some k.id then last.price p else 0) + upkeep p (first :: rest) k.id ≤ k.price p := by
      have := afford k (by simp only [List.mem_cons, List.mem_append] at hk ⊢; tauto)
      rw [← List.cons_append, upkeep_concat] at this
      omega
    -- The price of the last lane becomes a part of what its parent costs.
    have hsum := ih _ hborn hafford
    obtain ⟨parent, hparent, hid⟩ := born rest.length last (by simp)
    rw [List.take_left] at hparent
    have hshare : last.price p ≤
        ((first :: rest).map fun k => if last.parent = some k.id then last.price p else 0).sum := by
      refine Nat.le_trans ?_ (List.le_sum_of_mem (List.mem_map_of_mem hparent))
      simp [hid]
    have hlast := afford last (by simp)
    rw [← List.cons_append, List.map_append, List.sum_append]
    simp only [List.sum_map_add] at hsum
    simp only [List.map_cons, List.map_nil, List.sum_cons, List.sum_nil] at hsum hshare ⊢
    omega

end Kin

end BehaviorTree
