import BehaviorTree.Program.Validity
import BehaviorTree.Proofs.Refusal

/-! What validation accepts, said without the order of the checks and without their reports. -/

namespace BehaviorTree

open Refusal

namespace Program

/-- The bytes of a constant exist; an operation exists and stands below `limit`. -/
def RefValid (p : Program) (limit : Nat) : ValueRef → Prop
  | .constant offset length => offset.toNat + length.toNat ≤ p.expressions.constants.length
  | .output index slot => slot = 0 ∧ index.toNat < p.expressions.operations.size ∧ index.toNat < limit

def VarValid (p : Program) (slot : VarSlot) : Prop :=
  slot.offset.toNat + slot.length ≤ p.blackboardSize.toNat

def FieldValid (type : ComponentType) (offset : UInt16) (length : Nat) : Prop :=
  offset.toNat + length ≤ type.size.toNat

/-- Number of bytes of a value. -/
def HasSize (p : Program) (value : ValueRef) (size : Nat) : Prop :=
  (p.expressions.resultSize? value).getD 0 = size

/-- What a node needs of the program beside its references. -/
def PayloadValid (p : Program) : Node → Prop
  | .sequence children => children.size ≤ maxChildren
  | .selector branches => branches.length ≤ maxChildren ∧ ∀ b ∈ branches, p.HasSize b.guard ValueType.bool.size
  | .writeField component fields => ∃ type, p.types[component.toNat]? = some type ∧
      ∀ f ∈ fields, FieldValid type f.offset f.length.toNat ∧ p.HasSize f.value f.length.toNat
  | .wait (.duration seconds) => p.HasSize seconds ValueType.float.size
  | .wait (.condition holds) => p.HasSize holds ValueType.bool.size
  | .optional guard _ => p.HasSize guard ValueType.bool.size
  | .writeVar slot value => p.VarValid slot ∧ p.HasSize value slot.length
  | .query _ result => p.VarValid result
  | .parallel _ thread => (p.node? thread).map Node.kind = some .threadRoot
  | .nop | .root _ | .fail | .catch _ | .threadRoot _ _ => True

structure NodeValid (p : Program) (node : Node) : Prop where
  children : ∀ child ∈ node.children, child.toNat < p.size
  values : ∀ value ∈ node.values, p.RefValid p.expressions.operations.size value
  payload : p.PayloadValid node

/-- What an operation needs of the program beside its operands' references. -/
def KindValid (p : Program) : Operation → Prop
  | .readField component offset type =>
    ∃ layout, p.types[component.toNat]? = some layout ∧ FieldValid layout offset type.size
  | .lookupField lookup offset type =>
    ∃ layout, p.lookups[lookup.toNat]? = some (some layout) ∧ FieldValid layout offset type.size
  | .readVar slot => p.VarValid slot
  | .not a => p.HasSize a ValueType.bool.size
  | .and a b | .or a b => p.HasSize a ValueType.bool.size ∧ p.HasSize b ValueType.bool.size
  | .compare _ type lhs rhs => p.HasSize lhs type.size ∧ p.HasSize rhs type.size
  | .arith _ type lhs rhs => type ≠ .bool ∧ p.HasSize lhs type.size ∧ p.HasSize rhs type.size

/-- Operands stand below the operation, so that evaluation goes down. -/
structure OperationValid (p : Program) (index : Nat) (operation : Operation) : Prop where
  operands : ∀ operand ∈ operation.operands, p.RefValid index operand
  kind : p.KindValid operation

structure Valid (p : Program) : Prop where
  nop : p.node? .nop = some .nop
  root : ∃ child, p.node? .root = some (.root child)
  nodes : ∀ entry ∈ p.entries, p.NodeValid entry.node
  operations : ∀ (index : Nat) (operation : Operation),
    p.expressions.operations[index]? = some operation → p.OperationValid index operation

theorem RefValid.mono {p : Program} {limit limit' : Nat} {ref : ValueRef} (h : p.RefValid limit ref)
    (hle : limit ≤ limit') : p.RefValid limit' ref := by
  cases ref with
  | constant offset length => exact h
  | output index slot => exact ⟨h.1, h.2.1, Nat.lt_of_lt_of_le h.2.2 hle⟩

theorem Valid.node {p : Program} (valid : p.Valid) {id : NodeId} {node : Node} (h : p.node? id = some node) :
    p.NodeValid node := by
  obtain ⟨entry, hentry, rfl⟩ := Option.map_eq_some_iff.mp h
  exact valid.nodes entry (Array.mem_of_getElem? hentry)

theorem node?_of_lt {p : Program} {id : NodeId} (h : id.toNat < p.size) : ∃ node, p.node? id = some node :=
  ⟨p.entries[id.toNat].node, by rw [node?, Array.getElem?_eq_getElem h]; rfl⟩

/-! ### Each check -/

variable {p : Program}

theorem validateRef_eq_ok_iff {user limit : Nat} {ref : ValueRef} :
    p.validateRef p.expressions.constants.length user limit ref = .ok () ↔ p.RefValid limit ref := by
  cases ref with
  | constant offset length => simp only [validateRef, ite_eq_ok_iff, RefValid, and_true]
  | output index slot =>
    simp only [validateRef, RefValid]
    split_ifs with hslot hsize hlimit
    · simp [hslot]
    · simp; omega
    · simp; omega
    · simp only [true_iff]
      exact ⟨not_not.mp hslot, by omega, by omega⟩

theorem validateVar_eq_ok_iff {slot : VarSlot} : p.validateVar slot = .ok () ↔ p.VarValid slot := by
  simp only [validateVar, ite_eq_ok_iff, VarValid, and_true]

theorem validateField_eq_ok_iff {component offset : UInt16} {type : ComponentType} {length : Nat} :
    validateField component type offset length = .ok () ↔ FieldValid type offset length := by
  simp only [validateField, ite_eq_ok_iff, FieldValid, and_true]

theorem validateSize_eq_ok_iff {id : NodeId} {value : ValueRef} {expected : Nat} :
    p.validateSize id value expected = .ok () ↔ p.HasSize value expected := by
  simp only [validateSize, ite_eq_ok_iff, HasSize, and_true]

theorem validateChildCount_eq_ok_iff {id : NodeId} {count : Nat} :
    validateChildCount id count = .ok () ↔ count ≤ maxChildren := by
  simp only [validateChildCount, ite_eq_ok_iff, and_true]

theorem validatePayload_eq_ok_iff {id : NodeId} {node : Node} :
    p.validatePayload id node = .ok () ↔ p.PayloadValid node := by
  cases node with
  | sequence children => exact validateChildCount_eq_ok_iff
  | selector branches =>
    simp only [validatePayload, unit_bind_eq_ok_iff, validateChildCount_eq_ok_iff, forM_eq_ok_iff,
      validateSize_eq_ok_iff, PayloadValid]
  | writeField component fields =>
    simp only [validatePayload, PayloadValid]
    split
    next h => simp [h]
    next type h =>
      simp only [forM_eq_ok_iff, unit_bind_eq_ok_iff, validateField_eq_ok_iff, validateSize_eq_ok_iff, h,
        Option.some.injEq, exists_eq_left']
  | wait goal => cases goal <;> exact validateSize_eq_ok_iff
  | optional guard child => exact validateSize_eq_ok_iff
  | writeVar slot value =>
    simp only [validatePayload, unit_bind_eq_ok_iff, validateVar_eq_ok_iff, validateSize_eq_ok_iff, PayloadValid]
  | query id result => exact validateVar_eq_ok_iff
  | parallel main thread => simp only [validatePayload, ite_eq_ok_iff, PayloadValid, and_true]
  | _ => simp only [validatePayload, PayloadValid]

theorem validateNode_eq_ok_iff {id : NodeId} {node : Node} :
    p.validateNode p.expressions.constants.length id node = .ok () ↔ p.NodeValid node := by
  simp only [validateNode, unit_bind_eq_ok_iff, forM_eq_ok_iff, ite_eq_ok_iff, and_true,
    validateRef_eq_ok_iff, validatePayload_eq_ok_iff]
  exact ⟨fun ⟨hc, hv, hp⟩ => ⟨hc, hv, hp⟩, fun h => ⟨h.children, h.values, h.payload⟩⟩

theorem validateOperands_eq_ok_iff {index expected : Nat} {operation : Operation} :
    p.validateOperands index operation expected = .ok () ↔
      ∀ operand ∈ operation.operands, p.HasSize operand expected := by
  simp only [validateOperands, forM_eq_ok_iff, ite_eq_ok_iff, and_true, HasSize]

theorem validateOperation_eq_ok_iff {index : Nat} {operation : Operation} :
    p.validateOperation p.expressions.constants.length index operation = .ok () ↔
      p.OperationValid index operation := by
  have hsplit : p.OperationValid index operation ↔
      (∀ operand ∈ operation.operands, p.RefValid index operand) ∧ p.KindValid operation :=
    ⟨fun h => ⟨h.operands, h.kind⟩, fun h => ⟨h.1, h.2⟩⟩
  rw [hsplit, validateOperation.eq_def, unit_bind_eq_ok_iff, forM_eq_ok_iff]
  simp only [validateRef_eq_ok_iff]
  apply and_congr_right
  intro _
  cases operation with
  | readField component offset type =>
    simp only [KindValid]
    split
    next h => simp [h]
    next layout h => simp [validateField_eq_ok_iff, h]
  | lookupField lookup offset type =>
    simp only [KindValid]
    split
    next layout h => simp [validateField_eq_ok_iff, h]
    next h =>
      simp only [throw_ne_ok, false_iff]
      rintro ⟨layout, hl, _⟩
      exact h layout hl
  | readVar slot => exact validateVar_eq_ok_iff
  | not a => simp [validateOperands_eq_ok_iff, Operation.operands, KindValid]
  | and a b => simp [validateOperands_eq_ok_iff, Operation.operands, KindValid]
  | or a b => simp [validateOperands_eq_ok_iff, Operation.operands, KindValid]
  | compare op type lhs rhs => simp [validateOperands_eq_ok_iff, Operation.operands, KindValid]
  | arith op type lhs rhs =>
    by_cases htype : type = .bool
    · simp [htype, KindValid]
    · simp [htype, validateOperands_eq_ok_iff, Operation.operands, KindValid]

theorem validateHead_eq_ok_iff :
    p.validateHead = .ok () ↔ p.node? .nop = some .nop ∧ ∃ child, p.node? .root = some (.root child) := by
  have hnop : p.node? .nop = p.entries[0]?.map (·.node) := rfl
  have hroot : p.node? .root = p.entries[1]?.map (·.node) := rfl
  rw [hnop, hroot, validateHead]
  split
  next first second h0 h1 =>
    rw [h0, h1]
    split_ifs with hn hr
    · simp [hn]
    · simp only [false_iff, Option.map_some, Option.some.injEq]
      rintro ⟨_, child, h⟩
      exact hr (by rw [h]; rfl)
    · simp only [true_iff, Option.map_some, Option.some.injEq]
      refine ⟨not_not.mp hn, ?_⟩
      cases hk : second.node <;> simp_all [Node.kind]
  next h =>
    simp only [reduceCtorEq, false_iff]
    rintro ⟨h0, child, h1⟩
    obtain ⟨first, h0, -⟩ := Option.map_eq_some_iff.mp h0
    obtain ⟨second, h1, -⟩ := Option.map_eq_some_iff.mp h1
    exact h first second h0 h1

/-- A program is accepted just if it is valid. -/
theorem validate_eq_ok_iff : p.validate = .ok () ↔ p.Valid := by
  have hnodes : (∀ a ∈ p.entries.toList.zipIdx, p.NodeValid a.1.node) ↔
      ∀ entry ∈ p.entries, p.NodeValid entry.node := by
    constructor
    · intro h entry he
      obtain ⟨i, hi, rfl⟩ := Array.mem_iff_getElem.mp he
      exact h (p.entries[i], i) (List.mem_zipIdx_iff_getElem?.mpr (by simp [hi]))
    · intro h a ha
      exact h a.1 (Array.mem_toList_iff.mp (List.fst_mem_of_mem_zipIdx ha))
  have hoperations : (∀ a ∈ p.expressions.operations.toList.zipIdx, p.OperationValid a.2 a.1) ↔
      ∀ index operation, p.expressions.operations[index]? = some operation → p.OperationValid index operation := by
    constructor
    · intro h index operation hi
      exact h (operation, index) (List.mem_zipIdx_iff_getElem?.mpr (by simpa using hi))
    · intro h a ha
      exact h a.2 a.1 (by simpa using List.mem_zipIdx_iff_getElem?.mp ha)
  simp only [validate, unit_bind_eq_ok_iff, validateHead_eq_ok_iff, forM_eq_ok_iff, validateNode_eq_ok_iff,
    validateOperation_eq_ok_iff, hnodes, hoperations]
  exact ⟨fun ⟨⟨hn, hr⟩, hnode, hop⟩ => ⟨hn, hr, hnode, hop⟩, fun h => ⟨⟨h.nop, h.root⟩, h.nodes, h.operations⟩⟩

end Program

end BehaviorTree
