import Kerf.Decimal.Power
import Kerf.Scalar

/-!
# Trigonometry

Circular functions computed from the four arithmetic operations and the square root alone, so that
their last digits are fixed by this file. An angle is first reduced to an eighth of a turn about a
multiple of a quarter turn, where a short polynomial gives sine and cosine. Arc functions reduce to
a rational approximation of the arc tangent on `[0, 0.66]`.
-/

set_option autoImplicit false

namespace Kerf.Trig

open Kerf.Scalar

/-! ## Reduction to one octant -/

/-- An angle as a count of eighths of a turn, modulo eight and even, and what remains of it. -/
structure Octant where
  index : Nat
  remainder : Float

/-- An eighth of a turn in three parts whose sum is exact far beyond double precision. -/
def eighthHigh : Float := 7.85398125648498535156e-1
def eighthMiddle : Float := 3.77489470793079817668e-8
def eighthLow : Float := 2.69515142907905952645e-15

/-- Angles from here on need more digits of `4/π` than a double holds. -/
def reductionLimit : Float := 536870912.0

/-- The first bits of `4/π`, scaled by `2^1200`. -/
def fourOverPi : Nat :=
  0x145f306dc9c882a53f84eafa3ea69bb81b6c52b3278872083fca2c757bd778ac36e48dc74849ba5c00c925dd413a32439fc3bd63962534e7dd1046bea5d768909d338e04d68befc827323ac7306a673e93908bf177bf250763ff12fffbc0b301fde5e2316b414da3eda6cfd9e4f96136e9e8c7ecd3cbfd45aea4f758fd7cbe2f67a0e73ef14a525d4d7f6bf623f1aba10ac06608df8f6

/-- Reduces a moderate non-negative angle by subtracting its eighths in three steps. -/
def reduceNear (x : Float) : Octant :=
  let whole := (x * 1.2732395447351628).toUInt64.toNat
  let even := if whole % 2 = 1 then whole + 1 else whole
  let count := even.toFloat
  { index := even % 8
    remainder := ((x - count * eighthHigh) - count * eighthMiddle) - count * eighthLow }

/-- Reduces a large angle in whole numbers: its mantissa times 192 bits of `4/π`, chosen so that the
product starts with three whole bits, of which the leading 128 bits are kept. The fraction is the
64 bits behind the whole ones; the places its leading zeros leave free are filled with the low word
from its top. -/
def reduceFar (x : Float) : Octant :=
  let bits := x.toBits.toNat
  let mantissa := bits % twoTo 52 + twoTo 52
  let shift := (bits / twoTo 52) % twoTo 11 + 189 - 1075
  let window := fourOverPi * twoTo shift / twoTo 1200 % twoTo 192
  let scaled := mantissa * window / twoTo 64 % twoTo 128
  let index := scaled / twoTo 125
  let fraction := scaled % twoTo 125 / twoTo 61
  let low := scaled % twoTo 64
  let lead := if fraction = 0 then 64 else 63 - fraction.log2
  let filling := if lead < 64 then low / twoTo (63 - lead) else 0
  let digits := (fraction * twoTo (lead + 1) % twoTo 64 + filling) / twoTo 12
  let exponent := 1023 - (lead + 1)
  let remainder := Float.ofBits (UInt64.ofNat (exponent * twoTo 52 + digits))
  if index % 2 = 1 then
    { index := (index + 1) % 8, remainder := (remainder - 1) * 0.7853981633974483 }
  else
    { index := index, remainder := remainder * 0.7853981633974483 }

/-- Reduces a non-negative finite angle. -/
def reduce (x : Float) : Octant :=
  if x >= reductionLimit then reduceFar x else reduceNear x

/-! ## Sine and cosine -/

/-- The value of a polynomial with the given coefficients, the highest power first. -/
def horner (coefficients : List Float) (x : Float) : Float :=
  match coefficients with
  | [] => 0
  | first :: others => others.foldl (fun value coefficient => value * x + coefficient) first

/-- Sine near zero. -/
def sineSeries (z : Float) : Float :=
  let square := z * z
  z + z * square * horner
    [1.58962301576546568060e-10, -2.50507477628578072866e-8, 2.75573136213857245213e-6,
      -1.98412698295895385996e-4, 8.33333333332211858878e-3, -1.66666666666666307295e-1] square

/-- Cosine near zero. -/
def cosineSeries (z : Float) : Float :=
  let square := z * z
  1.0 - 0.5 * square + square * square * horner
    [-1.13585365213876817300e-11, 2.08757008419747316778e-9, -2.75573141792967388112e-7,
      2.48015872888517045348e-5, -1.38888888888730564116e-3, 4.16666666666665929218e-2] square

def sineCosine (angle : Float) : Float × Float :=
  if angle == 0 then (angle, 1)
  else if !angle.isFinite then (notANumber, notANumber)
  else
    let octant := reduce angle.abs
    let lower := octant.index > 3
    let index := if lower then octant.index - 4 else octant.index
    let sine := sineSeries octant.remainder
    let cosine := cosineSeries octant.remainder
    let swapped := index == 1 || index == 2
    let vertical := if swapped then cosine else sine
    let horizontal := if swapped then sine else cosine
    (if (angle < 0) != lower then -vertical else vertical,
      if lower != (index > 1) then -horizontal else horizontal)

def sine (angle : Float) : Float := (sineCosine angle).1

def cosine (angle : Float) : Float := (sineCosine angle).2

/-! ## Arc functions -/

/-- Arc tangent on `[0, 0.66]`. -/
def arcTangentSeries (x : Float) : Float :=
  let square := x * x
  let numerator := horner
    [-8.750608600031904122785e-01, -1.615753718733365076637e+01, -7.500855792314704667340e+01,
      -1.228866684490136173410e+02, -6.485021904942025371773e+01] square
  let denominator := horner
    [1, 2.485846490142306297962e+01, 1.650270098316988542046e+02, 4.328810604912902668951e+02,
      4.853903996359136964868e+02, 1.945506571482613964425e+02] square
  x * (square * numerator / denominator) + x

/-- What the double nearest to a quarter turn lacks of it. -/
def quarterTurnRest : Float := 6.123233995736765886130e-17

def arcTangentPositive (x : Float) : Float :=
  if x <= 0.66 then arcTangentSeries x
  else if x > 2.41421356237309504880 then
    quarterTurn - arcTangentSeries (1 / x) + quarterTurnRest
  else 0.7853981633974483 + arcTangentSeries ((x - 1) / (x + 1)) + 0.5 * quarterTurnRest

def arcTangent (x : Float) : Float :=
  if x == 0 then x
  else if x > 0 then arcTangentPositive x
  else -arcTangentPositive (-x)

/-- Arc sine; not a number outside `[-1, 1]`. -/
def arcSine (x : Float) : Float :=
  if x == 0 then x
  else
    let size := if x < 0 then -x else x
    if size > 1 then notANumber
    else
      let rest := (1 - size * size).sqrt
      let value :=
        if size > 0.7 then quarterTurn - arcTangentPositive (rest / size)
        else arcTangentPositive (size / rest)
      if x < 0 then -value else value

/-- Arc cosine; not a number outside `[-1, 1]`. -/
def arcCosine (x : Float) : Float := quarterTurn - arcSine x

/-- The number `size` with the sign of `sign`. -/
def withSign (size sign : Float) : Float := if signBit sign then -size else size

/-- The angle of the point `(x, y)`, in `(-π, π]`, where the signs of zero coordinates choose
between the ends. -/
def direction (y x : Float) : Float :=
  if y.isNaN || x.isNaN then notANumber
  else if y == 0 then
    if x >= 0 && !signBit x then withSign 0 y else withSign pi y
  else if x == 0 then withSign quarterTurn y
  else if x.isInf then
    if x > 0 then
      if y.isInf then withSign 0.7853981633974483 y else withSign 0 y
    else
      if y.isInf then withSign 2.356194490192345 y else withSign pi y
  else if y.isInf then withSign quarterTurn y
  else
    let angle := arcTangent (y / x)
    if x < 0 then
      if angle <= 0 then angle + pi else angle - pi
    else angle

end Kerf.Trig
