import BehaviorTree.Proofs.Compile.Emit

/-! Constants share bytes just if they are the same bytes. A constant that the pool does not have yet is put behind all
others, at an offset that suits its length, so that the pool never has two constants that overlap, and what a reference
led to once is there for good. -/

namespace BehaviorTree

/-- The references lead to constants that have no byte in common. -/
def ValueRef.Apart : ValueRef → ValueRef → Prop
  | .constant offset length, .constant offset' length' =>
    offset.toNat + length.toNat ≤ offset'.toNat ∨ offset'.toNat + length'.toNat ≤ offset.toNat
  | _, _ => False

namespace Constant

theorem length_pos (value : Constant) : 0 < value.bytes.length := by
  rw [value.length_bytes]
  cases value.type <;> decide

/-- The reference to a constant that stands at an offset. -/
def refAt (value : Constant) (offset : UInt32) : ValueRef :=
  .constant offset (UInt16.ofNat value.bytes.length)

end Constant

namespace ConstantPool

/-- The pool after a sequence of constants, each of them with the reference that it got. -/
def internAll (values : List Constant) : ConstantPool × List (Constant × ValueRef) :=
  values.foldl (fun (pool, interned) value =>
    ((pool.intern value).2, interned ++ [(value, (pool.intern value).1)])) (empty, [])

theorem internAll_concat (values : List Constant) (value : Constant) :
    internAll (values ++ [value]) = (((internAll values).1.intern value).2,
      (internAll values).2 ++ [(value, ((internAll values).1.intern value).1)]) := by
  simp [internAll]

theorem map_internAll (values : List Constant) : (internAll values).2.map (·.1) = values := by
  induction values using List.reverseRecOn with
  | nil => rfl
  | append_singleton values value ih => simp [internAll_concat, ih]

/-! ### One constant more -/

variable {pool : ConstantPool} {value : Constant} {offset : UInt32} {interned : List (Constant × ValueRef)}

/-- Where the next constant goes. -/
def place (pool : ConstantPool) (value : Constant) : Nat :=
  alignUp pool.bytes.size value.bytes.length

theorem size_le_place (pool : ConstantPool) (value : Constant) : pool.bytes.size ≤ pool.place value := by
  rw [place, value.length_bytes]
  exact le_alignUp pool.bytes.size value.type

/-- Bytes that the pool has are found. -/
theorem intern_of_known (h : pool.offsets[value.bytes]? = some offset) :
    pool.intern value = (value.refAt offset, pool) := by
  simp [intern, h, Constant.refAt]

/-- Bytes that it does not have come behind all others. -/
theorem intern_of_new (h : pool.offsets[value.bytes]? = none) :
    (pool.intern value).1 = value.refAt (UInt32.ofNat (pool.place value)) ∧
      (pool.intern value).2.bytes.size = pool.place value + value.bytes.length ∧
      ∀ encoded : Bytes, (pool.intern value).2.offsets[encoded]? =
        if value.bytes = encoded then some (UInt32.ofNat (pool.place value)) else pool.offsets[encoded]? := by
  have hle := pool.size_le_place value
  simp only [place] at hle
  simp only [intern, h, Constant.refAt, place, true_and]
  constructor
  · simp
    omega
  · intro encoded
    simp [Std.HashMap.getElem?_insert]

theorem size_le_intern (pool : ConstantPool) (value : Constant) : pool.bytes.size ≤ (pool.intern value).2.bytes.size := by
  cases h : pool.offsets[value.bytes]? with
  | none =>
    have := pool.size_le_place value
    have := (intern_of_new h).2.1
    omega
  | some offset => rw [intern_of_known h]

/-- What is on record stays on record. -/
theorem getElem?_intern {encoded : Bytes} (h : pool.offsets[encoded]? = some offset) (value : Constant) :
    (pool.intern value).2.offsets[encoded]? = some offset := by
  cases hvalue : pool.offsets[value.bytes]? with
  | some known => rw [intern_of_known hvalue, h]
  | none =>
    obtain ⟨-, -, hget⟩ := intern_of_new hvalue
    have hne : value.bytes ≠ encoded := by
      rintro rfl
      cases hvalue.symm.trans h
    rw [hget, if_neg hne, h]

/-- The reference is the one on record. -/
theorem known_intern (pool : ConstantPool) (value : Constant) :
    ∃ offset, (pool.intern value).2.offsets[value.bytes]? = some offset ∧ (pool.intern value).1 = value.refAt offset := by
  cases h : pool.offsets[value.bytes]? with
  | some offset =>
    rw [intern_of_known h]
    exact ⟨offset, h, rfl⟩
  | none =>
    obtain ⟨href, -, hget⟩ := intern_of_new h
    exact ⟨_, by rw [hget, if_pos rfl], href⟩

/-- The constants on record suit their offsets and have no byte in common. -/
structure Spaced (pool : ConstantPool) : Prop where
  aligned : ∀ (encoded : Bytes) (offset : UInt32), pool.offsets[encoded]? = some offset → encoded.length ∣ offset.toNat
  apart : ∀ (encoded encoded' : Bytes) (offset offset' : UInt32), pool.offsets[encoded]? = some offset →
    pool.offsets[encoded']? = some offset' → encoded ≠ encoded' →
    offset.toNat + encoded.length ≤ offset'.toNat ∨ offset'.toNat + encoded'.length ≤ offset.toNat

theorem spaced_empty : empty.Spaced where
  aligned := by simp [empty]
  apart := by simp [empty]

theorem Spaced.intern (spaced : pool.Spaced) (formed : pool.Formed) (value : Constant)
    (hsize : (pool.intern value).2.bytes.size < 2 ^ 32) : (pool.intern value).2.Spaced := by
  cases h : pool.offsets[value.bytes]? with
  | some offset =>
    rw [intern_of_known h]
    exact spaced
  | none =>
    obtain ⟨-, hbytes, hget⟩ := intern_of_new h
    have hplace : (UInt32.ofNat (pool.place value)).toNat = pool.place value := by
      apply UInt32.toNat_ofNat_of_lt'
      show pool.place value < 2 ^ 32
      omega
    -- Whatever is on record ends within the bytes of the pool, behind which the new constant begins.
    have hbehind {encoded : Bytes} {offset : UInt32} (hold : pool.offsets[encoded]? = some offset) :
        offset.toNat + encoded.length ≤ pool.place value := by
      have hinside := (formed encoded offset hold).1
      rw [Array.length_toList] at hinside
      exact hinside.trans (pool.size_le_place value)
    constructor
    · intro encoded offset hoffset
      rw [hget] at hoffset
      split_ifs at hoffset with hsame
      · obtain rfl := Option.some.inj hoffset
        rw [hplace, ← hsame]
        exact Nat.dvd_mul_left ..
      · exact spaced.aligned encoded offset hoffset
    · intro encoded encoded' offset offset' hoffset hoffset' hne
      rw [hget] at hoffset hoffset'
      split_ifs at hoffset hoffset' with hsame hsame' hsame'
      · exact absurd (hsame.symm.trans hsame') hne
      · obtain rfl := Option.some.inj hoffset
        rw [hplace]
        exact .inr (hbehind hoffset')
      · obtain rfl := Option.some.inj hoffset'
        rw [hplace]
        exact .inl (hbehind hoffset)
      · exact spaced.apart encoded encoded' offset offset' hoffset hoffset' hne

/-! ### All constants -/

/-- What is known of a pool and of the references that it has given out. -/
structure Stocked (pool : ConstantPool) (interned : List (Constant × ValueRef)) : Prop where
  formed : pool.Formed
  spaced : pool.Spaced
  known : ∀ value ref, (value, ref) ∈ interned →
    ∃ offset, pool.offsets[value.bytes]? = some offset ∧ ref = value.refAt offset

theorem stocked_internAll (values : List Constant) (hsize : (internAll values).1.bytes.size < 2 ^ 32) :
    (internAll values).1.Stocked (internAll values).2 := by
  induction values using List.reverseRecOn with
  | nil => exact ⟨formed_empty, spaced_empty, by simp [internAll]⟩
  | append_singleton values last ih =>
    rw [internAll_concat] at hsize ⊢
    have hle := size_le_intern (internAll values).1 last
    have stocked := ih (hle.trans_lt hsize)
    refine ⟨(interned_intern stocked.formed last).formed, stocked.spaced.intern stocked.formed last hsize, ?_⟩
    intro value ref hmem
    obtain hmem | hlast := List.mem_append.mp hmem
    · obtain ⟨offset, hoffset, href⟩ := stocked.known value ref hmem
      exact ⟨offset, getElem?_intern hoffset last, href⟩
    · obtain ⟨rfl, rfl⟩ := Prod.mk.inj (List.mem_singleton.mp hlast)
      exact known_intern _ value

namespace Stocked

variable {value' : Constant} {ref ref' : ValueRef}

/-- Every reference leads to its constant, at an offset that suits it. -/
theorem leads (stocked : pool.Stocked interned) (hsize : pool.bytes.size < 2 ^ 32) (h : (value, ref) ∈ interned) :
    ∃ offset length, ref = .constant offset length ∧ length.toNat ∣ offset.toNat ∧
      Bytes.slice pool.bytes.toList offset.toNat length.toNat = .ok value.bytes := by
  obtain ⟨offset, hoffset, href⟩ := stocked.known value ref h
  obtain ⟨hinside, hbytes⟩ := stocked.formed _ _ hoffset
  refine ⟨offset, _, href, ?_, ?_⟩ <;> rw [value.toNat_length]
  · exact stocked.spaced.aligned _ _ hoffset
  · rw [Bytes.slice, if_pos hinside, hbytes (by simpa using hsize)]

theorem ref_eq (stocked : pool.Stocked interned) (h : (value, ref) ∈ interned) (h' : (value', ref') ∈ interned)
    (hsame : value.bytes = value'.bytes) : ref = ref' := by
  obtain ⟨offset, hoffset, rfl⟩ := stocked.known value ref h
  obtain ⟨offset', hoffset', rfl⟩ := stocked.known value' ref' h'
  rw [hsame] at hoffset
  obtain rfl := Option.some.inj (hoffset.symm.trans hoffset')
  rw [Constant.refAt, Constant.refAt, hsame]

theorem apart_refs (stocked : pool.Stocked interned) (h : (value, ref) ∈ interned) (h' : (value', ref') ∈ interned)
    (hne : value.bytes ≠ value'.bytes) : ref.Apart ref' := by
  obtain ⟨offset, hoffset, rfl⟩ := stocked.known value ref h
  obtain ⟨offset', hoffset', rfl⟩ := stocked.known value' ref' h'
  have apart := stocked.spaced.apart _ _ _ _ hoffset hoffset' hne
  simpa only [Constant.refAt, ValueRef.Apart, Constant.toNat_length] using apart

/-- A constant has a byte in common with itself. -/
theorem not_apart_self (stocked : pool.Stocked interned) (h : (value, ref) ∈ interned) : ¬ref.Apart ref := by
  obtain ⟨offset, -, rfl⟩ := stocked.known value ref h
  have := value.length_pos
  simp only [Constant.refAt, ValueRef.Apart, Constant.toNat_length]
  omega

end Stocked

/-- Interning is faithful. In the end each reference leads to the bytes of the constant for which it was given out, at an
offset that is a multiple of their number. Constants have the same reference just if they have the same bytes, whatever
their types, and different references lead to bytes that do not overlap. -/
theorem interning_faithful {values : List Constant} {pool : ConstantPool} {interned : List (Constant × ValueRef)}
    (h : internAll values = (pool, interned)) (hsize : pool.bytes.size < 2 ^ 32) :
    interned.map (·.1) = values ∧
    (∀ value ref, (value, ref) ∈ interned → ∃ offset length, ref = .constant offset length ∧
      length.toNat ∣ offset.toNat ∧ Bytes.slice pool.bytes.toList offset.toNat length.toNat = .ok value.bytes) ∧
    ∀ value ref value' ref', (value, ref) ∈ interned → (value', ref') ∈ interned →
      (ref = ref' ↔ value.bytes = value'.bytes) ∧ (ref ≠ ref' → ref.Apart ref') := by
  have hvalues := map_internAll values
  have stocked := stocked_internAll values (by rwa [h])
  rw [h] at hvalues stocked
  refine ⟨hvalues, fun value ref hmem => stocked.leads hsize hmem, fun value ref value' ref' hmem hmem' => ?_⟩
  have hapart (hne : value.bytes ≠ value'.bytes) : ref.Apart ref' := stocked.apart_refs hmem hmem' hne
  refine ⟨⟨fun href => ?_, stocked.ref_eq hmem hmem'⟩, fun hne => hapart fun hsame => hne (stocked.ref_eq hmem hmem' hsame)⟩
  by_contra hne
  exact stocked.not_apart_self hmem (href ▸ hapart hne)

/-- Truth values between numbers, an integer that has the bytes of a number with a point, and one that begins with
the byte of a truth value. -/
def mixture : List Constant :=
  [.bool true, .int 7, .bool true, .float 0x3f000000, .bool false, .int 0x3f000000, .int 1]

/-- Every constant of the mixture with its reference. -/
def mixtureRefs : List (Constant × ValueRef) :=
  [(.bool true, .constant 0 1), (.int 7, .constant 4 4), (.bool true, .constant 0 1), (.float 0x3f000000, .constant 8 4),
    (.bool false, .constant 12 1), (.int 0x3f000000, .constant 8 4), (.int 1, .constant 16 4)]

theorem interning_faithful_mixture : (internAll mixture).2 = mixtureRefs ∧ (internAll mixture).1.bytes.size = 20 ∧
    Bytes.slice (internAll mixture).1.bytes.toList 16 4 = .ok [1, 0, 0, 0] ∧
    (ValueRef.constant 12 1).Apart (.constant 16 4) := by
  have hrefs : (internAll mixture).2 = mixtureRefs := by cbv
  have hsize : (internAll mixture).1.bytes.size = 20 := by cbv
  have hinterned : internAll mixture = ((internAll mixture).1, mixtureRefs) := by rw [← hrefs]
  obtain ⟨-, hleads, hpairs⟩ := interning_faithful hinterned (by rw [hsize]; decide)
  have hint : (.int 1, .constant 16 4) ∈ mixtureRefs := by decide
  have hbool : (.bool false, .constant 12 1) ∈ mixtureRefs := by decide
  obtain ⟨offset, length, href, -, hslice⟩ := hleads _ _ hint
  obtain ⟨rfl, rfl⟩ := ValueRef.constant.inj href
  exact ⟨hrefs, hsize, hslice, (hpairs _ _ _ _ hbool hint).2 (by decide)⟩

end ConstantPool

end BehaviorTree
