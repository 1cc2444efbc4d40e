import BehaviorTree.Decimal.Binary

/-! Readers for the numerals that scripts and the command line contain. Every reader
takes the whole text and refuses blanks and digit separators. -/

namespace BehaviorTree.Decimal

def digitsValue (digits : List Char) : Nat :=
  digits.foldl (fun n c => 10 * n + (c.toNat - '0'.toNat)) 0

/-- One or more decimal digits. -/
def readDigits? (cs : List Char) : Option Nat :=
  if cs ≠ [] ∧ cs.all Char.isDigit then some (digitsValue cs) else none

/-- Digits after at most one plus sign. -/
def readNatural? (text : String) : Option Nat :=
  match text.toList with
  | '+' :: rest => readDigits? rest
  | cs => readDigits? cs

/-- A natural number below a bound. -/
def readBelow? (bound : Nat) (text : String) : Option Nat :=
  (readNatural? text).filter (· < bound)

/-- Digits after at most one sign. -/
def readInteger? (text : String) : Option Int :=
  match text.toList with
  | '+' :: rest => (readDigits? rest).map Int.ofNat
  | '-' :: rest => (readDigits? rest).map fun n => -Int.ofNat n
  | cs => (readDigits? cs).map Int.ofNat

/-- A number below a bound that is not negative; a zero may have any sign. -/
def readSignedBelow? (bound : Nat) (text : String) : Option Nat :=
  ((readInteger? text).bind Int.toNat?).filter (· < bound)

/-- Digits and the number of places after the point, and what follows them. -/
def readFraction (cs : List Char) : List Char × Nat × List Char :=
  let whole := cs.takeWhile Char.isDigit
  match cs.dropWhile Char.isDigit with
  | '.' :: rest =>
    let places := rest.takeWhile Char.isDigit
    (whole ++ places, places.length, rest.dropWhile Char.isDigit)
  | rest => (whole, 0, rest)

/-- An exponent with its mark, or nothing at all. -/
def readExponent? : List Char → Option Int
  | [] => some 0
  | mark :: rest =>
    if mark = 'e' ∨ mark = 'E' then readInteger? (String.ofList rest) else none

/-- The magnitude of an unsigned decimal: digits with at most one point among or beside them, then
at most one exponent. -/
def Format.readDecimal? (f : Format) (cs : List Char) : Option Nat :=
  let (digits, places, rest) := readFraction cs
  if digits = [] then none
  else (readExponent? rest).map fun exponent => f.nearestDecimal (digitsValue digits) (exponent - places)

/-- The magnitude of a number, of `inf`, `infinity` or `nan`. -/
def Format.readMagnitude? (f : Format) (cs : List Char) : Option Nat :=
  let word := String.ofList (cs.map Char.toLower)
  if word = "inf" ∨ word = "infinity" then some f.infinity
  else if word = "nan" then some f.quietNaN
  else f.readDecimal? cs

/-- The bits of a number after at most one sign. -/
def Format.read? (f : Format) (text : String) : Option Nat :=
  match text.toList with
  | '+' :: rest => f.readMagnitude? rest
  | '-' :: rest => (f.readMagnitude? rest).map (f.signBit + ·)
  | cs => f.readMagnitude? cs

end BehaviorTree.Decimal
