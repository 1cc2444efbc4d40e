import BehaviorTree.Proofs.Machine.Evaluation

/-! How deep evaluation goes. Operands stand below their operation, so that a value nests no more operations than
stand up to it, however often they are shared. From this depth on, an expression of a valid program has one value,
and the size that the program gives for it. -/

namespace BehaviorTree

open Refusal

/-- How many operations a reference can nest if operands stand below their operation. -/
def ValueRef.depth : ValueRef → Nat
  | .constant _ _ => 0
  | .output index _ => index.toNat + 1

namespace Surroundings

variable {s : Surroundings}

/-- An operation only asks for the values of its operands. -/
theorem apply_mono {operand operand' : ValueRef → Except Fault Scalar}
    (h : ∀ ref v, operand ref = .ok v → operand' ref = .ok v) {operation : Operation} {v : Scalar}
    (hv : s.apply operand operation = .ok v) : s.apply operand' operation = .ok v := by
  cases operation with
  | readField | lookupField | readVar => exact hv
  | not a =>
    obtain ⟨va, ha, hv⟩ := bind_eq_ok_iff.mp hv
    exact bind_eq_ok_iff.mpr ⟨va, h _ _ ha, hv⟩
  | and a b =>
    obtain ⟨va, ha, hv⟩ := bind_eq_ok_iff.mp hv
    refine bind_eq_ok_iff.mpr ⟨va, h _ _ ha, ?_⟩
    split_ifs at hv ⊢
    · obtain ⟨vb, hb, hv⟩ := bind_eq_ok_iff.mp hv
      exact bind_eq_ok_iff.mpr ⟨vb, h _ _ hb, hv⟩
    · exact hv
  | or a b =>
    obtain ⟨va, ha, hv⟩ := bind_eq_ok_iff.mp hv
    refine bind_eq_ok_iff.mpr ⟨va, h _ _ ha, ?_⟩
    split_ifs at hv ⊢
    · exact hv
    · obtain ⟨vb, hb, hv⟩ := bind_eq_ok_iff.mp hv
      exact bind_eq_ok_iff.mpr ⟨vb, h _ _ hb, hv⟩
  | compare op type lhs rhs | arith op type lhs rhs =>
    obtain ⟨vl, hl, hv⟩ := bind_eq_ok_iff.mp hv
    obtain ⟨vr, hr, hv⟩ := bind_eq_ok_iff.mp hv
    exact bind_eq_ok_iff.mpr ⟨vl, h _ _ hl, bind_eq_ok_iff.mpr ⟨vr, h _ _ hr, hv⟩⟩

/-- A value that is reached stays the same at every greater depth. -/
theorem evalWithin_mono {depth depth' : Nat} (hle : depth ≤ depth') {ref : ValueRef} {v : Scalar}
    (h : s.evalWithin depth ref = .ok v) : s.evalWithin depth' ref = .ok v := by
  induction depth generalizing depth' ref v with
  | zero =>
    cases ref with
    | constant offset length => simpa only [evalWithin] using h
    | output index slot => cases h
  | succ depth ih =>
    obtain ⟨deeper, rfl⟩ : ∃ deeper, depth' = deeper + 1 := ⟨depth' - 1, by omega⟩
    cases ref with
    | constant offset length => simpa only [evalWithin] using h
    | output index slot =>
      simp only [evalWithin] at h ⊢
      split_ifs at h ⊢
      cases hoperation : s.expressions.operations[index.toNat]? with
      | none =>
        rw [hoperation] at h
        cases h
      | some operation =>
        rw [hoperation] at h
        exact apply_mono (fun ref v hv => ih (by omega) hv) h

end Surroundings

namespace Program

variable {σ : Type} {p : Program} {world : World σ}

/-- The reference is to the output of an operation, or to at most four bytes of the pool. -/
def HasScalar (p : Program) : ValueRef → Prop
  | .constant offset length =>
    offset.toNat + length.toNat ≤ p.expressions.constants.length ∧ length.toNat ≤ 4
  | .output index slot => index.toNat < p.expressions.operations.size ∧ slot = 0

/-- A reference to a scalar is valid from its own depth on, and has a size. -/
theorem HasScalar.valid {ref : ValueRef} (h : p.HasScalar ref) :
    p.RefValid ref.depth ref ∧ ref.depth ≤ p.expressions.operations.size ∧
      ∃ size ≤ 4, p.expressions.resultSize? ref = some size := by
  cases ref with
  | constant offset length => exact ⟨h.1, Nat.zero_le _, length.toNat, h.2, rfl⟩
  | output index slot =>
    obtain ⟨hindex, hslot⟩ := h
    refine ⟨⟨hslot, hindex, Nat.lt_succ_self _⟩, hindex, _,
      Surroundings.size_le_four p.expressions.operations[index.toNat].outputType, ?_⟩
    rw [Expressions.resultSize?, Array.getElem?_eq_getElem hindex]
    rfl

/-- Every operation of an accepted program and every short constant has a value in every world that is checked, whatever
the memory holds. The value is the same at every depth from that of the reference on, it has the size that the program
gives for the reference, and it fills a destination just if this has the same size. -/
theorem eval_total (accepted : p.validate = .ok ()) (checked : world.check p = .ok ()) {ref : ValueRef}
    (scalar : p.HasScalar ref) :
    ∃ v, (world.surroundings p).eval ref = .ok v ∧ p.expressions.resultSize? ref = some v.bytes.length ∧
      (∀ depth ≥ ref.depth, (world.surroundings p).evalWithin depth ref = .ok v) ∧
      ∀ size, (world.surroundings p).evaluate ref size =
        if size = v.bytes.length then .ok v.bytes else .error .resultSize := by
  obtain ⟨href, hdepth, size, hshort, hsize⟩ := scalar.valid
  have hasSize : p.HasSize ref size := by
    rw [HasSize, hsize]
    rfl
  obtain ⟨v, hv, hlength⟩ :=
    Surroundings.evalWithin_ok (validate_eq_ok_iff.mp accepted) (World.suits_of_check checked) href hasSize hshort
  have heval : (world.surroundings p).eval ref = .ok v := Surroundings.evalWithin_mono (Nat.le_succ_of_le hdepth) hv
  refine ⟨v, heval, by rw [hlength]; exact hsize, fun depth hle => Surroundings.evalWithin_mono hle hv, fun size => ?_⟩
  simp only [Surroundings.evaluate, heval, bind, Except.bind, eq_comm (a := size)]
  split_ifs <;> rfl

/-- Every operation uses the one before it twice. -/
def doubler : Program where
  expressions := ⟨[100, 0, 0, 0], #[.readVar ⟨0, .int⟩, .arith .add .int (.output 0 0) (.output 0 0),
    .arith .mul .int (.output 1 0) (.output 1 0), .compare .lt .int (.output 2 0) (.constant 0 4)]⟩
  entries := #[.ofNode .nop, .ofNode (.root ⟨2⟩), .ofNode (.wait (.condition (.output 3 0)))]
  types := #[]
  lookups := #[]
  blackboardSize := 4

/-- Four operations are nested, and the value is one byte. -/
theorem eval_total_doubler : doubler.validate = .ok () ∧
    ∃ v, ((World.blank doubler (Memory.zeros 4) QueryBoard.empty).surroundings doubler).evalWithin 4 (.output 3 0) =
      .ok v ∧ v.bytes.length = 1 := by
  have checked : (World.blank doubler (Memory.zeros 4) QueryBoard.empty).check doubler = .ok () := by cbv
  have scalar : doubler.HasScalar (.output 3 0) := ⟨by decide, rfl⟩
  obtain ⟨v, -, hsize, hdepth, -⟩ := eval_total rfl checked scalar
  exact ⟨rfl, v, hdepth 4 (by decide), (Option.some.inj hsize).symm⟩

end Program

end BehaviorTree
