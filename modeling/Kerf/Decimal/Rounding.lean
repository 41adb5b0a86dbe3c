import Kerf.Decimal.Binary

/-!
# Rounding to a decimal grid

The nearest whole multiple of a power of ten, a tie going to the even multiple.
-/

set_option autoImplicit false

namespace Kerf.Decimal

/-- The whole number nearest to a quotient; a tie goes to the even neighbour. -/
def roundDiv (dividend divisor : Nat) : Nat :=
  let quotient := dividend / divisor
  let twice := 2 * (dividend % divisor)
  if twice < divisor then quotient
  else if divisor < twice then quotient + 1
  else if quotient % 2 = 0 then quotient
  else quotient + 1

/-- How many units of `10 ^ power` the number `mantissa * 2 ^ exponent` holds, rounded. -/
def unitsOf (mantissa : Nat) (exponent power : Int) : Nat :=
  roundDiv (numerator mantissa exponent * tenTo (-power).toNat)
    (denominator exponent * tenTo power.toNat)

/-- The number of decimal digits of a whole number; one for zero. -/
def digitCount (n : Nat) : Nat := (Nat.toDigits 10 n).length

/-- The power of ten of the leading digit of a positive fraction. -/
def leadingPower (dividend divisor : Nat) : Int :=
  if divisor ≤ dividend then Int.ofNat (digitCount (dividend / divisor)) - 1
  else
    let count := digitCount (divisor / dividend)
    if divisor ≤ dividend * tenTo (count - 1) then 1 - Int.ofNat count else -Int.ofNat count

end Kerf.Decimal
