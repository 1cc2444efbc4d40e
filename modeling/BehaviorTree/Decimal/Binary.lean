/-! Binary floating-point formats. A magnitude is the natural number of its bits
without the sign, and magnitudes are ordered as their bits are. Rounding is to
nearest, and a tie goes to the even neighbour. -/

namespace BehaviorTree.Decimal

/-- Number of significant bits, and the exponent of the least positive value, negated. -/
structure Format where
  precision : Nat
  scale : Nat
  exponentBits : Nat

def binary32 : Format := ⟨24, 149, 8⟩

def binary64 : Format := ⟨53, 1074, 11⟩

/-- The quotient rounded to the nearest natural number, a tie to the even one. -/
def roundDiv (num den : Nat) : Nat :=
  let q := num / den
  let r := num % den
  if 2 * r < den then q
  else if den < 2 * r then q + 1
  else q + q % 2

namespace Format

/-- The magnitude above every finite one. -/
def infinity (f : Format) : Nat :=
  ((1 <<< f.exponentBits) - 1) <<< (f.precision - 1)

/-- A magnitude that is no number. -/
def quietNaN (f : Format) : Nat :=
  f.infinity + 1 <<< (f.precision - 2)

def signBit (f : Format) : Nat :=
  1 <<< (f.precision - 1 + f.exponentBits)

/-- The magnitude nearest to `num / den`. -/
def nearest (f : Format) (num den : Nat) : Nat :=
  let units := num <<< f.scale
  let shift := (units / den).log2 + 1 - f.precision
  min (shift <<< (f.precision - 1) + roundDiv units (den <<< shift)) f.infinity

/-- Significand and shift of a finite magnitude, whose value is
`significand * 2 ^ shift / 2 ^ scale`. -/
def split (f : Format) (magnitude : Nat) : Nat × Nat :=
  let hidden := 1 <<< (f.precision - 1)
  let exponent := magnitude / hidden
  let fraction := magnitude % hidden
  if exponent = 0 then (fraction, 0) else (hidden + fraction, exponent - 1)

/-- The magnitude nearest to `digits * 10 ^ exponent`. Exponents that put the value beyond every
finite magnitude, or below half of the least positive one, are cut off first. -/
def nearestDecimal (f : Format) (digits : Nat) (exponent : Int) : Nat :=
  let length : Int := digits.log2
  if digits = 0 then 0
  else if ((1 <<< f.exponentBits : Nat) : Int) ≤ exponent then f.infinity
  else if exponent + length < -(f.scale : Int) then 0
  else if 0 ≤ exponent then f.nearest (digits * Nat.pow 10 exponent.toNat) 1
  else f.nearest digits (Nat.pow 10 (-exponent).toNat)

end Format

end BehaviorTree.Decimal
