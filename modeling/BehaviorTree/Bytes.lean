import BehaviorTree.Fault

/-! Byte strings: little-endian numerals, checked slices and overwrites, and
rounding up to an alignment. -/

namespace BehaviorTree

abbrev Bytes := List UInt8

/-- The least multiple of `align` that is at least `n`. -/
def alignUp (n align : Nat) : Nat :=
  (n + align - 1) / align * align

namespace Bytes

/-- The `width` lowest base-256 digits of `n`, least significant first. -/
def littleEndian : (width : Nat) → (n : Nat) → Bytes
  | 0, _ => []
  | width + 1, n => UInt8.ofNat (n % 256) :: littleEndian width (n / 256)

/-- The number whose base-256 digits are given, least significant first. -/
def value : Bytes → Nat
  | [] => 0
  | b :: rest => b.toNat + 256 * value rest

def zeros (n : Nat) : Bytes :=
  List.replicate n 0

/-- The `length` bytes at `offset`. -/
def slice (bytes : Bytes) (offset length : Nat) : Except Fault Bytes :=
  if offset + length ≤ bytes.length then .ok ((bytes.drop offset).take length)
  else .error .outOfRange

/-- Puts `new` in place of as many bytes at `offset`. -/
def overwrite (bytes : Bytes) (offset : Nat) (new : Bytes) : Except Fault Bytes :=
  if offset + new.length ≤ bytes.length then
    .ok (bytes.take offset ++ new ++ bytes.drop (offset + new.length))
  else .error .outOfRange

/-- The code units of a text in UTF-8. -/
def ofText (text : String) : Bytes :=
  text.toUTF8.toList

end Bytes

end BehaviorTree
