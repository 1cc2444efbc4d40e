import BehaviorTree.Bytes
import BehaviorTree.Decimal.Reading
import BehaviorTree.Decimal.Shortest

/-! Scalar types and literals. A scalar is stored as its bytes, least significant first;
a floating-point literal is its 32 bits. -/

namespace BehaviorTree

/-- The scalar types that flow through value ports. -/
inductive ValueType where
  | bool
  | int
  | float
  deriving DecidableEq, Repr, Inhabited, Hashable

namespace ValueType

/-- Number of bytes of a scalar, which is also its alignment. -/
def size : ValueType → Nat
  | bool => 1
  | int | float => 4

def tag : ValueType → UInt8
  | bool => 0
  | int => 1
  | float => 2

def ofTag? : UInt8 → Option ValueType
  | 0 => some bool
  | 1 => some int
  | 2 => some float
  | _ => none

def name : ValueType → String
  | bool => "bool"
  | int => "int"
  | float => "float"

def ofName? : String → Option ValueType
  | "bool" => some bool
  | "int" => some int
  | "float" => some float
  | _ => none

end ValueType

/-- A literal. -/
inductive Constant where
  | bool (value : Bool)
  | int (value : Int32)
  | float (bits : UInt32)
  deriving DecidableEq, Repr, Inhabited

namespace Constant

def type : Constant → ValueType
  | bool _ => .bool
  | int _ => .int
  | float _ => .float

def zero : ValueType → Constant
  | .bool => bool false
  | .int => int 0
  | .float => float 0

def bytes : Constant → Bytes
  | bool value => [if value then 1 else 0]
  | int value => Bytes.littleEndian 4 value.toUInt32.toNat
  | float bits => Bytes.littleEndian 4 bits.toNat

/-- The scalar of a type that is stored in `bytes`. A truth value reads its first byte only. -/
def ofBytes : ValueType → Bytes → Constant
  | .bool, bytes => bool (bytes.headD 0 != 0)
  | .int, bytes => int (UInt32.ofNat bytes.value).toInt32
  | .float, bytes => float (UInt32.ofNat bytes.value)

/-- Reads a truth value, a number with a point, or an integer of 32 bits. -/
def parse? (text : String) : Option Constant :=
  if text = "true" then some (bool true)
  else if text = "false" then some (bool false)
  else if text.toList.contains '.' then
    (Decimal.binary32.read? text).map fun bits => float (UInt32.ofNat bits)
  else
    match Decimal.readInteger? text with
    | some n => if -0x80000000 ≤ n ∧ n < 0x80000000 then some (int (Int32.ofInt n)) else none
    | none => none

/-- All places of a numeral, with at least one on each side of the point. -/
def positional (n : Decimal.Numeral) : String :=
  let digits := Nat.toDigits 10 n.digits
  let places := (-n.exponent).toNat
  let padded := List.replicate (places + 1 - digits.length) '0' ++ digits
  if 0 ≤ n.exponent then String.ofList (digits ++ List.replicate n.exponent.toNat '0') ++ ".0"
  else
    String.ofList (padded.take (padded.length - places)) ++ "." ++
      String.ofList (padded.drop (padded.length - places))

/-- One digit before the point, and the power of ten. -/
def scientific (n : Decimal.Numeral) : String :=
  match Nat.toDigits 10 n.digits with
  | [] => ""
  | [d] => String.ofList [d] ++ s!"e{n.exponent}"
  | d :: rest => String.ofList (d :: '.' :: rest) ++ s!"e{n.exponent + rest.length}"

/-- The shortest text that reads back; below one ten-thousandth and from ten to the sixteenth on,
in scientific form. -/
def floatText (bits : UInt32) : String :=
  let format := Decimal.binary32
  let magnitude := bits.toNat % format.signBit
  let sign := if format.signBit ≤ bits.toNat then "-" else ""
  if format.infinity < magnitude then "NaN"
  else if magnitude = format.infinity then sign ++ "inf"
  else if magnitude = 0 then sign ++ "0.0"
  else
    match format.shortest? magnitude with
    | none => ""
    | some numeral =>
      if magnitude < format.nearest 1 10000 ∨ format.nearest 10000000000000000 1 ≤ magnitude then
        sign ++ scientific numeral
      else sign ++ positional numeral

def text : Constant → String
  | bool value => if value then "true" else "false"
  | int value => toString value.toInt
  | float bits => floatText bits

end Constant

end BehaviorTree
