import Kerf.Decimal.Shortest

/-!
# Number text

How decimals are laid out: with a fixed number of places, positionally, in exponent form, or in
the general form that picks one of the last two by the size of the number.
-/

set_option autoImplicit false

namespace Kerf.Decimal

def digits (n : Nat) : List Char := Nat.toDigits 10 n

/-- Digits padded with leading zeros to a width. -/
def padded (width n : Nat) : List Char :=
  let text := digits n
  List.replicate (width - text.length) '0' ++ text

/-- A whole number of units of `10 ^ -places`, with exactly that many digits after the point and
no point when there are none. -/
def positional (places count : Nat) : List Char :=
  if places = 0 then digits count
  else digits (count / tenTo places) ++ '.' :: padded places (count % tenTo places)

/-- Drops the zeros that end the digits after a point, and the point when nothing follows it. -/
def trimFraction (text : List Char) : List Char :=
  if text.contains '.' then
    match text.reverse.dropWhile (· == '0') with
    | '.' :: rest => rest.reverse
    | rest => rest.reverse
  else text

def signed (negative : Bool) (text : List Char) : List Char :=
  if negative then '-' :: text else text

/-- The texts of the values that are no finite number. -/
def notANumberText : List Char := "NaN".toList
def infiniteText (negative : Bool) : List Char :=
  if negative then "-Inf".toList else "+Inf".toList

/-- A double with a fixed number of places, rounded from its exact value. -/
def fixed (places : Nat) (x : Float) : List Char :=
  match Binary.ofFloat x with
  | .notANumber => notANumberText
  | .infinite negative => infiniteText negative
  | .finite negative mantissa exponent =>
      signed negative (positional places (unitsOf mantissa exponent (-Int.ofNat places)))

/-- An exponent with its sign and at least two digits. -/
def exponentText (power : Int) : List Char :=
  'e' :: (if power < 0 then '-' else '+') :: padded 2 power.natAbs

/-- A coefficient with one digit before the point, followed by its exponent. -/
def exponentForm (coefficient : List Char) (power : Int) : List Char :=
  match coefficient with
  | [] => []
  | first :: [] => first :: exponentText power
  | first :: rest => first :: '.' :: rest ++ exponentText power

def scientific (places : Nat) (x : Float) : List Char :=
  match Binary.ofFloat x with
  | .notANumber => notANumberText
  | .infinite negative => infiniteText negative
  | .finite negative mantissa exponent =>
      if mantissa = 0 then signed negative (exponentForm (List.replicate (places + 1) '0') 0)
      else
        let lead := leadingPower (numerator mantissa exponent) (denominator exponent)
        let count := unitsOf mantissa exponent (lead - Int.ofNat places)
        if count = tenTo (places + 1) then
          signed negative (exponentForm (digits (tenTo places)) (lead + 1))
        else signed negative (exponentForm (digits count) lead)

/-- A decimal without an exponent. -/
def Scaled.plain (value : Scaled) : List Char :=
  if 0 ≤ value.power then digits (value.coefficient * tenTo value.power.toNat)
  else positional value.power.natAbs value.coefficient

def Scaled.exponential (value : Scaled) : List Char :=
  let text := digits value.coefficient
  exponentForm text (value.power + Int.ofNat text.length - 1)

/-- A decimal in exponent form when its leading digit stands for less than `10 ^ -4` or at least
`10 ^ 6`, and otherwise without an exponent. -/
def Scaled.general (value : Scaled) : List Char :=
  let lead := value.power + Int.ofNat (digitCount value.coefficient) - 1
  if lead < -4 || 5 < lead then value.exponential else value.plain

def shortestWith (layout : Scaled → List Char) (x : Float) : List Char :=
  match Binary.ofFloat x with
  | .notANumber => notANumberText
  | .infinite negative => infiniteText negative
  | .finite negative mantissa exponent =>
      if mantissa = 0 then signed negative (layout { coefficient := 0, power := 0 })
      else signed negative (layout (shortest mantissa exponent))

def general (x : Float) : String := String.ofList (shortestWith Scaled.general x)

def plain (x : Float) : String := String.ofList (shortestWith Scaled.plain x)

def exponential (x : Float) : String := String.ofList (shortestWith Scaled.exponential x)

end Kerf.Decimal
