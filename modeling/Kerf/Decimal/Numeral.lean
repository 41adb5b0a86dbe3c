/-!
# Numerals

A decimal numeral as it stands in a text, and the double nearest to it.
-/

set_option autoImplicit false

namespace Kerf.Decimal

/-- A decimal numeral: a sign, the digits on both sides of the point, and a power of ten. -/
structure Numeral where
  negative : Bool
  whole : List Char
  fraction : List Char
  exponent : Int
  deriving DecidableEq, Repr

def ofDigits (text : List Char) : Nat :=
  text.foldl (fun value digit => 10 * value + (digit.toNat - 48)) 0

/-- Digits beyond this many only matter by not all being zero: a value half way between two
doubles has fewer. -/
def digitLimit : Nat := 800

/-- The nearest double of `coefficient * 10 ^ power`. -/
def nearest (coefficient : Nat) (power : Int) : Float :=
  Float.ofScientific coefficient (power < 0) power.natAbs

/-- The size of a numeral without its sign, or nothing when it exceeds every double. -/
def Numeral.magnitude? (numeral : Numeral) : Option Float :=
  let all := (numeral.whole ++ numeral.fraction).dropWhile (· == '0')
  let power := numeral.exponent - Int.ofNat numeral.fraction.length
  let size := Int.ofNat all.length + power
  if all.isEmpty then some 0
  else if 400 < size then none
  else if size < -400 then some 0
  else
    let rest := all.drop digitLimit
    let value :=
      if rest.isEmpty then nearest (ofDigits all) power
      else
        nearest (10 * ofDigits (all.take digitLimit) + (if rest.all (· == '0') then 0 else 1))
          (power + Int.ofNat rest.length - 1)
    if value.isInf then none else some value

/-- The double nearest to a numeral, or nothing when it exceeds every double. -/
def Numeral.value? (numeral : Numeral) : Option Float :=
  numeral.magnitude?.map fun size => if numeral.negative then -size else size

end Kerf.Decimal
