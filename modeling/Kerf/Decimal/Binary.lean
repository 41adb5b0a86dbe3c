import Kerf.Decimal.Power

/-!
# What a double denotes

A finite double is a signed whole number times a power of two. Everything that turns numbers into
text works on that pair in exact whole-number arithmetic.
-/

set_option autoImplicit false

namespace Kerf.Decimal

/-- The number behind a double. -/
inductive Binary where
  | notANumber
  | infinite (negative : Bool)
  | finite (negative : Bool) (mantissa : Nat) (exponent : Int)
  deriving DecidableEq, Repr

/-- Decodes the 64 bits of a double. -/
def Binary.ofBits (bits : Nat) : Binary :=
  let negative := bits / twoTo 63 % 2 == 1
  let biased := bits / twoTo 52 % twoTo 11
  let fraction := bits % twoTo 52
  if biased = 2047 then
    if fraction = 0 then .infinite negative else .notANumber
  else if biased = 0 then .finite negative fraction (-1074)
  else .finite negative (fraction + twoTo 52) (Int.ofNat biased - 1075)

def Binary.ofFloat (x : Float) : Binary := .ofBits x.toBits.toNat

/-- The numerator of `mantissa * 2 ^ exponent` as a fraction of whole numbers. -/
def numerator (mantissa : Nat) (exponent : Int) : Nat := mantissa * twoTo exponent.toNat

/-- The denominator of `mantissa * 2 ^ exponent` as a fraction of whole numbers. -/
def denominator (exponent : Int) : Nat := twoTo (-exponent).toNat

end Kerf.Decimal
