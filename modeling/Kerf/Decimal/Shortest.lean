import Kerf.Decimal.Rounding

/-!
# Shortest decimals

The fewest digits that read back to the same double, and of those the nearest. The reals that
round to a double form an interval; the search looks at the two neighbours of the double on ever
finer decimal grids and takes the first that falls into the interval.
-/

set_option autoImplicit false

namespace Kerf.Decimal

/-- A decimal `coefficient * 10 ^ power`. -/
structure Scaled where
  coefficient : Nat
  power : Int
  deriving DecidableEq, Repr

/-- The interval of reals that round to a double, in quarters of the double's last place. -/
structure Interval where
  low : Nat
  middle : Nat
  high : Nat
  closed : Bool

/-- The interval around `mantissa * 2 ^ exponent`. Below a power of two the neighbour is half as
far away, except at the smallest exponent. -/
def Interval.around (mantissa : Nat) (exponent : Int) : Interval :=
  { low := 4 * mantissa - (if mantissa = twoTo 52 ∧ -1074 < exponent then 1 else 2)
    middle := 4 * mantissa
    high := 4 * mantissa + 2
    closed := mantissa % 2 == 0 }

/-- Looks on the grid of multiples of `10 ^ power` for a point of the interval, the lower
neighbour of the middle first and of two points the nearer one; a tie takes the even one. -/
def Interval.onGrid (interval : Interval) (exponent power : Int) : Option Nat :=
  let quarter := exponent - 2
  let here := twoTo quarter.toNat * tenTo (-power).toNat
  let unit := twoTo (-quarter).toNat * tenTo power.toNat
  let inside (count : Nat) : Bool :=
    if interval.closed then interval.low * here ≤ count * unit && count * unit ≤ interval.high * here
    else interval.low * here < count * unit && count * unit < interval.high * here
  let below := interval.middle * here / unit
  match inside below, inside (below + 1) with
  | true, true => some (roundDiv (interval.middle * here) unit)
  | true, false => some below
  | false, true => some (below + 1)
  | false, false => none

/-- Moves trailing zeros of the coefficient into the power. -/
def Scaled.trim (value : Scaled) : Scaled :=
  if _trailing : value.coefficient ≠ 0 ∧ value.coefficient % 10 = 0 then
    Scaled.trim { coefficient := value.coefficient / 10, power := value.power + 1 }
  else value
termination_by value.coefficient
decreasing_by omega

def shortest (mantissa : Nat) (exponent : Int) : Scaled :=
  let interval := Interval.around mantissa exponent
  let lead := leadingPower (numerator mantissa exponent) (denominator exponent)
  let found := (List.range 18).findSome? fun digits =>
    let power := lead - Int.ofNat digits
    (interval.onGrid exponent power).map fun coefficient => { coefficient, power : Scaled }
  (found.getD { coefficient := 0, power := 0 }).trim

end Kerf.Decimal
