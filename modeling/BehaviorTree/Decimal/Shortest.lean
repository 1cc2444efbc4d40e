import BehaviorTree.Decimal.Binary

/-! The shortest decimal that reads back as a given binary value. Grids of decimals are
tried from coarse to fine; the first grid with a point among the reals that round
to the value wins, and of two such points the nearer one, of two equally near the greater. -/

namespace BehaviorTree.Decimal

/-- A decimal `digits * 10 ^ exponent`. -/
structure Numeral where
  digits : Nat
  exponent : Int
  deriving DecidableEq, Repr

/-- The reals that round to a value, in quarters of the least positive value: the value itself and
the ends of its interval, which belong to the interval if `closed`. -/
structure Interval where
  value : Nat
  low : Nat
  high : Nat
  closed : Bool

/-- The neighbour below a power of two is half as far away as the one above. -/
def Format.interval (f : Format) (magnitude : Nat) : Interval :=
  let (significand, shift) := f.split magnitude
  let narrow := significand = 1 <<< (f.precision - 1) ∧ 0 < shift
  ⟨(4 * significand) <<< shift,
   (4 * significand - if narrow then 1 else 2) <<< shift,
   (4 * significand + 2) <<< shift,
   significand % 2 = 0⟩

namespace Interval

/-- Whether `point / unit` lies in the interval. -/
def contains (i : Interval) (unit point : Nat) : Bool :=
  if i.closed then i.low * unit ≤ point && point ≤ i.high * unit
  else i.low * unit < point && point < i.high * unit

/-- The point of the grid of multiples of `step / unit` that stands for the interval, as the number
of steps. -/
def pick? (i : Interval) (unit step : Nat) : Option Nat :=
  let below := i.value * unit / step
  let gap := i.value * unit - below * step
  let above := below + 1
  match i.contains unit (below * step), i.contains unit (above * step) with
  | true, true => some (if 2 * gap < step then below else above)
  | true, false => some below
  | false, true => some above
  | false, false => none

end Interval

/-- Tries the grids of exponent `start`, `start - 1`, and so on. -/
def shortestFrom (i : Interval) (units : Nat) : (grids : Nat) → (start : Int) → Option Numeral
  | 0, _ => none
  | grids + 1, start =>
    match i.pick? (Nat.pow 10 (-start).toNat) (Nat.pow 10 start.toNat * units) with
    | some digits => some ⟨digits, start⟩
    | none => shortestFrom i units grids (start - 1)

/-- The shortest numeral of a finite positive magnitude. The first grid is coarser than every
finite magnitude. -/
def Format.shortest? (f : Format) (magnitude : Nat) : Option Numeral :=
  let top := (1 <<< (f.exponentBits - 1)) / 3
  shortestFrom (f.interval magnitude) (4 <<< f.scale) (3 * top) top

end BehaviorTree.Decimal
