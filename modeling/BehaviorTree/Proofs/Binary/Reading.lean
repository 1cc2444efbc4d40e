import BehaviorTree.Program.Decode
import Mathlib.Algebra.Order.Group.Nat
import Mathlib.Data.Nat.Init

/-! Readers in front of the bytes that they are meant for. A reader is described by the bytes that it
takes off the input and the value that it makes of them, whatever follows; such descriptions compose.
Records are only read at offsets that eight divides, numbers at any offset. -/

namespace BehaviorTree

namespace Bytes

@[simp] theorem length_littleEndian (width n : Nat) : (littleEndian width n).length = width := by
  induction width generalizing n with
  | zero => rfl
  | succ width ih => simp [littleEndian, ih]

@[simp] theorem length_zeros (n : Nat) : (zeros n).length = n := by
  simp [zeros]

/-- A number that fits is recovered from its digits. -/
theorem value_littleEndian (width n : Nat) (h : n < Nat.pow 256 width) :
    (littleEndian width n).value = n := by
  induction width generalizing n with
  | zero =>
    have h0 : n = 0 := by simpa using h
    rw [h0]
    rfl
  | succ width ih =>
    have hdiv : n / 256 < Nat.pow 256 width := by
      rw [Nat.div_lt_iff_lt_mul (by decide)]
      exact h
    simp only [littleEndian, value]
    rw [ih _ hdiv, UInt8.toNat_ofNat']
    omega

private theorem toList_loop (b : ByteArray) (i : Nat) (r : List UInt8) :
    ByteArray.toList.loop b i r = r.reverse ++ b.data.toList.drop i := by
  induction h : b.size - i generalizing i r with
  | zero =>
    have hi : b.data.toList.length ≤ i := by
      rw [Array.length_toList, ByteArray.size_data]
      omega
    rw [ByteArray.toList.loop, if_neg (by omega), List.drop_eq_nil_of_le hi, List.append_nil]
  | succ n ih =>
    have hi : i < b.size := by omega
    have hl : i < b.data.toList.length := by simpa using hi
    rw [ByteArray.toList.loop, if_pos hi, ih (i + 1) _ (by omega), List.drop_eq_getElem_cons hl]
    simp [ByteArray.get!, hi, List.reverse_cons, List.append_assoc]

theorem ofText_eq (text : String) : ofText text = text.toUTF8.data.toList := by
  simp [ofText, ByteArray.toList, toList_loop]

theorem length_ofText (text : String) : (ofText text).length = text.utf8ByteSize := by
  rw [ofText_eq, Array.length_toList]
  rfl

/-- The bytes of a text are read back as the text. -/
theorem fromUTF8_ofText (text : String) : String.fromUTF8? ⟨(ofText text).toArray⟩ = some text := by
  have hdata : (⟨(ofText text).toArray⟩ : ByteArray) = text.toUTF8 := by rw [ofText_eq]
  have hvalid : text.toUTF8.IsValidUTF8 := text.isValidUTF8
  rw [hdata, String.fromUTF8?, dif_pos hvalid]
  rfl

end Bytes

namespace Binary

open Bytes

theorem add_padding (n : Nat) : (n + padding n) % 8 = 0 := by
  unfold padding
  omega

theorem padding_add (k n : Nat) (hk : 8 ∣ k) : padding (k + n) = padding n := by
  unfold padding
  omega

theorem length_pad (bytes : Bytes) : (pad bytes).length = bytes.length + padding bytes.length := by
  simp [pad]

theorem dvd_length_pad (bytes : Bytes) : 8 ∣ (pad bytes).length := by
  rw [length_pad]
  exact Nat.dvd_of_mod_eq_zero (add_padding _)

@[simp] theorem length_word16 (n : UInt16) : (word16 n).length = 2 := length_littleEndian _ _

@[simp] theorem length_word32 (n : UInt32) : (word32 n).length = 4 := length_littleEndian _ _

@[simp] theorem length_word64 (n : UInt64) : (word64 n).length = 8 := length_littleEndian _ _

@[simp] theorem length_shortCount (n : Nat) : (shortCount n).length = 2 := length_littleEndian _ _

end Binary

namespace Binary.Reader

open Bytes

/-! ### What the primitive readers do -/

@[simp] theorem pure_apply {α : Type} (a : α) (c : Cursor) : (pure a : Reader α) c = .ok (a, c) := rfl

theorem bind_apply {α β : Type} (r : Reader α) (f : α → Reader β) (c : Cursor) :
    (r >>= f) c = (r c).bind fun (a, c') => f a c' := rfl

@[simp] theorem ok_bind {α β : Type} (a : α) (f : α → Except DecodeError β) :
    (Except.ok a : Except DecodeError α).bind f = f a := rfl

/-- A reader that succeeds hands its value and the rest of the input on. -/
theorem bind_of_ok {α β : Type} {r : Reader α} {c c' : Cursor} {a : α} (h : r c = .ok (a, c'))
    (f : α → Reader β) : (r >>= f) c = f a c' := by
  rw [bind_apply, h]
  rfl

theorem take_append (bytes rest : Bytes) (k : Nat) :
    take bytes.length ⟨bytes ++ rest, k⟩ = .ok (bytes, ⟨rest, k + bytes.length⟩) := by
  simp [take]

theorem number_littleEndian (width n : Nat) (h : n < Nat.pow 256 width) (rest : Bytes) (k : Nat) :
    number width ⟨littleEndian width n ++ rest, k⟩ = .ok (n, ⟨rest, k + width⟩) := by
  have htake := take_append (littleEndian width n) rest k
  rw [length_littleEndian] at htake
  rw [number, bind_of_ok htake, value_littleEndian width n h]
  rfl

@[simp] theorem word8_cons (b : UInt8) (rest : Bytes) (k : Nat) :
    word8 ⟨b :: rest, k⟩ = .ok (b, ⟨rest, k + 1⟩) := by
  have hnumber : number 1 ⟨b :: rest, k⟩ = .ok (b.toNat, ⟨rest, k + 1⟩) := by
    have htake : take 1 ⟨b :: rest, k⟩ = .ok ([b], ⟨rest, k + 1⟩) := take_append [b] rest k
    rw [number, bind_of_ok htake]
    rfl
  rw [word8, bind_of_ok hnumber, UInt8.ofNat_toNat]
  rfl

@[simp] theorem word16_append (n : UInt16) (rest : Bytes) (k : Nat) :
    Reader.word16 ⟨Binary.word16 n ++ rest, k⟩ = .ok (n, ⟨rest, k + 2⟩) := by
  rw [Reader.word16, Binary.word16, bind_of_ok (number_littleEndian 2 n.toNat n.toNat_lt rest k)]
  simp

@[simp] theorem word32_append (n : UInt32) (rest : Bytes) (k : Nat) :
    Reader.word32 ⟨Binary.word32 n ++ rest, k⟩ = .ok (n, ⟨rest, k + 4⟩) := by
  rw [Reader.word32, Binary.word32, bind_of_ok (number_littleEndian 4 n.toNat n.toNat_lt rest k)]
  simp

@[simp] theorem word64_append (n : UInt64) (rest : Bytes) (k : Nat) :
    Reader.word64 ⟨Binary.word64 n ++ rest, k⟩ = .ok (n, ⟨rest, k + 8⟩) := by
  rw [Reader.word64, Binary.word64, bind_of_ok (number_littleEndian 8 n.toNat n.toNat_lt rest k)]
  simp

theorem number_shortCount (count : Nat) (h : count < 0x10000) (rest : Bytes) (k : Nat) :
    number 2 ⟨shortCount count ++ rest, k⟩ = .ok (count, ⟨rest, k + 2⟩) :=
  number_littleEndian 2 count h rest k

theorem align_zeros (n k : Nat) (h : padding k = n) (rest : Bytes) :
    align ⟨zeros n ++ rest, k⟩ = .ok ((), ⟨rest, k + n⟩) := by
  have htake := take_append (zeros n) rest k
  rw [length_zeros] at htake
  simp only [align, h, htake]
  rfl

theorem align_of_dvd (k : Nat) (h : 8 ∣ k) (rest : Bytes) : align ⟨rest, k⟩ = .ok ((), ⟨rest, k⟩) := by
  have hk : padding k = 0 := by unfold padding; omega
  exact align_zeros 0 k hk rest

theorem tagged_cons {α : Type} (field : TagField) (ofTag? : UInt8 → Option α) (tag : UInt8) (a : α)
    (h : ofTag? tag = some a) (rest : Bytes) (k : Nat) :
    tagged field ofTag? ⟨tag :: rest, k⟩ = .ok (a, ⟨rest, k + 1⟩) := by
  rw [tagged, bind_of_ok (word8_cons tag rest k), h]
  rfl

/-! ### Readers and their bytes -/

/-- At every offset that `unit` divides, the reader takes just these bytes off the input, and makes
this value of them. The next reader finds such an offset again. -/
structure Reads {α : Type} (unit : Nat) (r : Reader α) (bytes : Bytes) (a : α) : Prop where
  whole : unit ∣ bytes.length
  run : ∀ (rest : Bytes) (k : Nat), unit ∣ k → r ⟨bytes ++ rest, k⟩ = .ok (a, ⟨rest, k + bytes.length⟩)

namespace Reads

variable {α β : Type} {unit : Nat}

theorem pure (a : α) : Reads unit (Pure.pure a) [] a where
  whole := Nat.dvd_zero _
  run rest k _ := by simp

theorem bind {r : Reader α} {f : α → Reader β} {bytes bytes' : Bytes} {a : α} {b : β}
    (hr : Reads unit r bytes a) (hf : Reads unit (f a) bytes' b) :
    Reads unit (r >>= f) (bytes ++ bytes') b where
  whole := by
    rw [List.length_append]
    exact Nat.dvd_add hr.whole hf.whole
  run rest k hk := by
    rw [List.append_assoc, bind_of_ok (hr.run _ k hk), hf.run rest _ (Nat.dvd_add hk hr.whole),
      List.length_append, Nat.add_assoc]

private theorem manyInto {item : Reader α} (encode : α → Bytes) (items : List α)
    (h : ∀ a ∈ items, Reads unit item (encode a) a) (reversed : List α) (rest : Bytes) (k : Nat)
    (hk : unit ∣ k) :
    Reader.manyInto item items.length reversed ⟨items.flatMap encode ++ rest, k⟩ =
      .ok (reversed.reverse ++ items, ⟨rest, k + (items.flatMap encode).length⟩) := by
  induction items generalizing reversed k with
  | nil => simp [Reader.manyInto]
  | cons a items ih =>
    have ha := h a List.mem_cons_self
    have hrun := ha.run (items.flatMap encode ++ rest) k hk
    simp only [List.flatMap_cons, List.append_assoc, List.length_cons, Reader.manyInto, hrun]
    rw [ih (fun b hb => h b (List.mem_cons_of_mem _ hb)) _ _ (Nat.dvd_add hk ha.whole)]
    simp [Nat.add_assoc]

/-- A counted list is read item by item. -/
theorem many {item : Reader α} (encode : α → Bytes) (items : List α)
    (h : ∀ a ∈ items, Reads unit item (encode a) a) :
    Reads unit (Reader.many items.length item) (items.flatMap encode) items where
  whole := by
    induction items with
    | nil => exact Nat.dvd_zero _
    | cons a items ih =>
      rw [List.flatMap_cons, List.length_append]
      exact Nat.dvd_add (h a List.mem_cons_self).whole (ih fun b hb => h b (List.mem_cons_of_mem _ hb))
  run rest k hk := by
    rw [Reader.many, manyInto encode items h [] rest k hk]
    rfl

end Reads

end Binary.Reader

end BehaviorTree
