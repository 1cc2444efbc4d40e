import BehaviorTree.Machine.Agent
import BehaviorTree.Proofs.Program.Validity

/-! Evaluation in the surroundings of a valid program. A value of at most four bytes is always there,
and it has the size that validation has promised. A longer one can only be a constant, and is refused. -/

namespace BehaviorTree

open Refusal

namespace Memory

theorem slice_of_le {m : Memory} {offset length : Nat} (h : offset + length ≤ m.size) :
    ∃ bytes, m.slice offset length = .ok bytes ∧ bytes.length = length := by
  refine ⟨_, if_pos h, ?_⟩
  rw [length_toBytes, ByteArray.size_extract]
  omega

theorem overwrite_of_le {m : Memory} {offset : Nat} {new : Bytes} (h : offset + new.length ≤ m.size) :
    ∃ m', m.overwrite offset new = .ok m' ∧ m'.size = m.size := by
  have hbytes := overwrite_toBytes m offset new
  rw [overwrite, if_pos h, Except.map, Bytes.overwrite, length_toBytes, if_pos h] at hbytes
  refine ⟨_, if_pos h, ?_⟩
  have hlength := congrArg (fun r : Except Fault Bytes => r.toOption.elim 0 List.length) hbytes
  simp only [Except.toOption, Option.elim_some, List.length_append, List.length_take, List.length_drop,
    length_toBytes] at hlength
  omega

end Memory

/-! ### Worlds that suit a program -/

/-- The memory that the program refers to is there. -/
structure World.Suits {σ : Type} (world : World σ) (p : Program) : Prop where
  components : ∀ (index : Nat) (type : ComponentType), p.types[index]? = some type →
    ∃ store, world.components[index]? = some store ∧ type.size.toNat ≤ store.data.size
  lookups : ∀ (index : Nat) (type : ComponentType), p.lookups[index]? = some (some type) →
    ∃ store, world.lookups[index]? = some store ∧ type.size.toNat ≤ store.data.size
  blackboard : p.blackboardSize.toNat ≤ world.blackboard.size

/-- The check before a tick lets only worlds pass that suit the program. -/
theorem World.suits_of_check {σ : Type} {world : World σ} {p : Program} (h : world.check p = .ok ()) :
    world.Suits p := by
  simp only [World.check, unit_bind_eq_ok_iff, unless_bind_eq_ok_iff, unless_eq_ok_iff, array_forM_eq_ok_iff] at h
  obtain ⟨hcount, hcomponents, hlookupCount, hlookups, hboard⟩ := h
  refine ⟨?_, ?_, hboard⟩
  · intro index type htype
    obtain ⟨hindex, rfl⟩ := Array.getElem?_eq_some_iff.mp htype
    have hlt : index < world.components.size := hcount ▸ hindex
    refine ⟨world.components[index], Array.getElem?_eq_getElem hlt, ?_⟩
    have hcheck := hcomponents (world.components[index], p.types[index])
      (Array.mem_iff_getElem.mpr ⟨index, by rw [Array.size_zip]; omega, by simp⟩)
    simp only [checkComponent, unless_bind_eq_ok_iff, unless_eq_ok_iff] at hcheck
    exact hcheck.2
  · intro index type htype
    obtain ⟨hindex, hlookup⟩ := Array.getElem?_eq_some_iff.mp htype
    have hlt : index < world.lookups.size := Nat.lt_of_lt_of_le hindex hlookupCount
    refine ⟨world.lookups[index], Array.getElem?_eq_getElem hlt, ?_⟩
    have hcheck := hlookups (world.lookups[index], p.lookups[index])
      (Array.mem_iff_getElem.mpr ⟨index, by rw [Array.size_zip]; omega, by simp⟩)
    simp only [hlookup, checkLookup, unless_bind_eq_ok_iff, unless_eq_ok_iff] at hcheck
    exact hcheck.2

namespace Surroundings

variable {σ : Type} {p : Program} {world : World σ}

theorem readStorage_of_le {stores : Array Storage} {index offset : UInt16} {type : ValueType} {store : Storage}
    (hstore : stores[index.toNat]? = some store) (h : offset.toNat + type.size ≤ store.data.size) :
    ∃ v, readStorage stores index offset type = .ok v ∧ v.bytes.length = type.size := by
  obtain ⟨bytes, hslice, hlength⟩ := Memory.slice_of_le h
  have hshort : bytes.length ≤ 4 := by
    rw [hlength]
    cases type <;> decide
  refine ⟨⟨bytes, hshort⟩, ?_, hlength⟩
  simp only [readStorage, hstore, hslice, bind, Except.bind, Scalar.ofBytes, dif_pos hshort]

theorem size_le_four (type : ValueType) : type.size ≤ 4 := by
  cases type <;> decide

/-- An operation whose operands have values has one too, of the size of its type. -/
theorem apply_ok (suits : world.Suits p) {operand : ValueRef → Except Fault Scalar} {operation : Operation}
    (kind : p.KindValid operation)
    (hoperand : ∀ ref ∈ operation.operands, ∃ v, operand ref = .ok v) :
    ∃ v, (world.surroundings p).apply operand operation = .ok v ∧ v.bytes.length = operation.outputType.size := by
  cases operation with
  | readField component offset type =>
    obtain ⟨layout, hlayout, hfield⟩ := kind
    obtain ⟨store, hstore, hsize⟩ := suits.components _ _ hlayout
    exact readStorage_of_le hstore (Nat.le_trans hfield hsize)
  | lookupField lookup offset type =>
    obtain ⟨layout, hlayout, hfield⟩ := kind
    obtain ⟨store, hstore, hsize⟩ := suits.lookups _ _ hlayout
    exact readStorage_of_le hstore (Nat.le_trans hfield hsize)
  | readVar slot =>
    obtain ⟨bytes, hslice, hlength⟩ := Memory.slice_of_le (Nat.le_trans kind suits.blackboard)
    have hshort : bytes.length ≤ 4 := hlength ▸ size_le_four slot.type
    refine ⟨⟨bytes, hshort⟩, ?_, hlength⟩
    simp only [apply, World.surroundings, hslice, bind, Except.bind, Scalar.ofBytes, dif_pos hshort]
  | not a =>
    obtain ⟨va, ha⟩ := hoperand a (by simp [Operation.operands])
    exact ⟨_, by simp only [apply, ha, bind, Except.bind]; rfl, rfl⟩
  | and a b =>
    obtain ⟨va, ha⟩ := hoperand a (by simp [Operation.operands])
    obtain ⟨vb, hb⟩ := hoperand b (by simp [Operation.operands])
    cases h : va.toBool
    · exact ⟨_, by simp only [apply, ha, h, bind, Except.bind, Bool.false_eq_true, if_false]; rfl, rfl⟩
    · exact ⟨_, by simp only [apply, ha, hb, h, bind, Except.bind, if_true]; rfl, rfl⟩
  | or a b =>
    obtain ⟨va, ha⟩ := hoperand a (by simp [Operation.operands])
    obtain ⟨vb, hb⟩ := hoperand b (by simp [Operation.operands])
    cases h : va.toBool
    · exact ⟨_, by simp only [apply, ha, hb, h, bind, Except.bind, Bool.false_eq_true, if_false]; rfl, rfl⟩
    · exact ⟨_, by simp only [apply, ha, h, bind, Except.bind, if_true]; rfl, rfl⟩
  | compare op type lhs rhs =>
    obtain ⟨vl, hl⟩ := hoperand lhs (by simp [Operation.operands])
    obtain ⟨vr, hr⟩ := hoperand rhs (by simp [Operation.operands])
    exact ⟨_, by simp only [apply, hl, hr, bind, Except.bind]; rfl, rfl⟩
  | arith op type lhs rhs =>
    obtain ⟨vl, hl⟩ := hoperand lhs (by simp [Operation.operands])
    obtain ⟨vr, hr⟩ := hoperand rhs (by simp [Operation.operands])
    cases type with
    | bool => exact absurd rfl kind.1
    | int => exact ⟨_, by simp only [apply, hl, hr, bind, Except.bind]; rfl, rfl⟩
    | float => exact ⟨_, by simp only [apply, hl, hr, bind, Except.bind]; rfl, rfl⟩

/-- Every operand of a valid operation has the size of a scalar. -/
theorem operand_size {operation : Operation} (kind : p.KindValid operation) :
    ∀ ref ∈ operation.operands, ∃ size ≤ 4, p.HasSize ref size := by
  cases operation with
  | readField | lookupField | readVar => simp [Operation.operands]
  | not a => simpa [Operation.operands] using ⟨_, size_le_four _, kind⟩
  | and a b | or a b =>
    simpa [Operation.operands] using ⟨⟨_, size_le_four _, kind.1⟩, ⟨_, size_le_four _, kind.2⟩⟩
  | compare op type lhs rhs =>
    simpa [Operation.operands] using ⟨⟨_, size_le_four _, kind.1⟩, ⟨_, size_le_four _, kind.2⟩⟩
  | arith op type lhs rhs =>
    simpa [Operation.operands] using ⟨⟨_, size_le_four _, kind.2.1⟩, ⟨_, size_le_four _, kind.2.2⟩⟩

/-- A constant is a scalar if it has at most four bytes. -/
theorem evalWithin_constant (world : World σ) {depth : Nat} {offset : UInt32} {length : UInt16}
    (href : p.RefValid depth (.constant offset length)) :
    (world.surroundings p).evalWithin depth (.constant offset length) =
        .error (.scalarTooLong length.toNat) ∧ 4 < length.toNat ∨
      ∃ v, (world.surroundings p).evalWithin depth (.constant offset length) = .ok v ∧
        v.bytes.length = length.toNat ∧ length.toNat ≤ 4 := by
  have hslice : p.expressions.constants.slice offset.toNat length.toNat =
      .ok ((p.expressions.constants.drop offset.toNat).take length.toNat) := if_pos href
  have hlength : ((p.expressions.constants.drop offset.toNat).take length.toNat).length = length.toNat := by
    rw [List.length_take, List.length_drop]
    have : offset.toNat + length.toNat ≤ p.expressions.constants.length := href
    omega
  by_cases hshort : length.toNat ≤ 4
  · refine .inr ⟨⟨_, by rw [hlength]; exact hshort⟩, ?_, hlength, hshort⟩
    cases depth <;>
      simp only [evalWithin, World.surroundings, hslice, bind, Except.bind, Scalar.ofBytes, hlength, hshort, dite_true]
  · refine .inl ⟨?_, by omega⟩
    cases depth <;>
      simp only [evalWithin, World.surroundings, hslice, bind, Except.bind, Scalar.ofBytes, hlength, hshort, dite_false]

/-- Operands stand below their operation, so that the depth goes down with them. -/
theorem evalWithin_ok (valid : p.Valid) (suits : world.Suits p) {depth : Nat} {ref : ValueRef} {size : Nat}
    (href : p.RefValid depth ref) (hsize : p.HasSize ref size) (hshort : size ≤ 4) :
    ∃ v, (world.surroundings p).evalWithin depth ref = .ok v ∧ v.bytes.length = size := by
  induction depth using Nat.strongRecOn generalizing ref size with
  | _ depth ih =>
    cases ref with
    | constant offset length =>
      have hlength : length.toNat = size := hsize
      obtain ⟨_, hwide⟩ | ⟨v, hv, hl, _⟩ := evalWithin_constant world href
      · omega
      · exact ⟨v, hv, hl.trans hlength⟩
    | output index slot =>
      obtain ⟨hslot, hindex, hdepth⟩ := href
      obtain ⟨below, rfl⟩ : ∃ below, depth = below + 1 := ⟨depth - 1, by omega⟩
      have hoperation := Array.getElem?_eq_getElem hindex
      obtain ⟨hoperands, hkind⟩ := valid.operations _ _ hoperation
      have hvalues : ∀ operand ∈ (p.expressions.operations[index.toNat]).operands,
          ∃ v, (world.surroundings p).evalWithin below operand = .ok v := by
        intro operand hmem
        obtain ⟨n, hn, hsize⟩ := operand_size hkind operand hmem
        have hbelow : p.RefValid below operand := (hoperands operand hmem).mono (by omega)
        obtain ⟨v, hv, _⟩ := ih below (by omega) hbelow hsize hn
        exact ⟨v, hv⟩
      obtain ⟨v, hv, hl⟩ := apply_ok suits hkind hvalues
      refine ⟨v, ?_, ?_⟩
      · simp only [evalWithin, hslot, ne_eq, not_true_eq_false, if_false]
        rw [show (world.surroundings p).expressions.operations[index.toNat]? = _ from hoperation]
        exact hv
      · rw [hl, ← hsize]
        simp [Expressions.resultSize?, hoperation]

/-- A scalar of the right size is evaluated to its bytes. -/
theorem evaluate_ok (valid : p.Valid) (suits : world.Suits p) {ref : ValueRef} {size : Nat}
    (href : p.RefValid p.expressions.operations.size ref) (hsize : p.HasSize ref size) (hshort : size ≤ 4) :
    ∃ bytes, (world.surroundings p).evaluate ref size = .ok bytes ∧ bytes.length = size := by
  obtain ⟨v, hv, hl⟩ := evalWithin_ok valid suits (href.mono (Nat.le_succ _)) hsize hshort
  refine ⟨v.bytes, ?_, hl⟩
  have heval : (world.surroundings p).eval ref = .ok v := hv
  simp only [evaluate, heval, bind, Except.bind, hl, if_true]
  rfl

theorem evaluateBool_ok (valid : p.Valid) (suits : world.Suits p) {ref : ValueRef}
    (href : p.RefValid p.expressions.operations.size ref) (hsize : p.HasSize ref ValueType.bool.size) :
    ∃ b, (world.surroundings p).evaluateBool ref = .ok b := by
  obtain ⟨bytes, hbytes, _⟩ := evaluate_ok valid suits href hsize (by decide)
  have hone : (world.surroundings p).evaluate ref 1 = .ok bytes := hbytes
  exact ⟨_, by rw [evaluateBool, hone]; rfl⟩

theorem evaluateFloat_ok (valid : p.Valid) (suits : world.Suits p) {ref : ValueRef}
    (href : p.RefValid p.expressions.operations.size ref) (hsize : p.HasSize ref ValueType.float.size) :
    ∃ bits, (world.surroundings p).evaluateFloat ref = .ok bits := by
  obtain ⟨bytes, hbytes, _⟩ := evaluate_ok valid suits href hsize (by decide)
  have hfour : (world.surroundings p).evaluate ref 4 = .ok bytes := hbytes
  exact ⟨_, by rw [evaluateFloat, hfour]; rfl⟩

/-- A value of more than four bytes is a constant, and no scalar. -/
theorem evaluate_wide (world : World σ) {ref : ValueRef} {size : Nat}
    (href : p.RefValid p.expressions.operations.size ref) (hsize : p.HasSize ref size) (hwide : 4 < size) :
    (world.surroundings p).evaluate ref size = .error (.scalarTooLong size) := by
  cases ref with
  | constant offset length =>
    have hlength : length.toNat = size := hsize
    have hvalid : p.RefValid (p.expressions.operations.size + 1) (.constant offset length) := href
    obtain ⟨herror, _⟩ | ⟨_, _, _, hshort⟩ := evalWithin_constant world hvalid
    · have heval : (world.surroundings p).eval (.constant offset length) = .error (.scalarTooLong length.toNat) :=
        herror
      rw [evaluate, heval, hlength]
      rfl
    · omega
  | output index slot =>
    have hindex := href.2.1
    have hoperation := Array.getElem?_eq_getElem hindex
    have hsame : p.expressions.operations[index.toNat].outputType.size = size := by
      simpa [Program.HasSize, Expressions.resultSize?, hoperation] using hsize
    have hfour := size_le_four p.expressions.operations[index.toNat].outputType
    omega

end Surroundings

end BehaviorTree
