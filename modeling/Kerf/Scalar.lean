/-!
# Scalars

Constants and elementary functions on double-precision numbers. The two pairs of extrema differ
only in how they treat a number that is not a number beside an infinite one.
-/

set_option autoImplicit false

namespace Kerf.Scalar

/-! ## Constants -/

def infinity : Float := 1.0 / 0.0

def notANumber : Float := 0.0 / 0.0

def pi : Float := 3.141592653589793

def turn : Float := 6.283185307179586

def quarterTurn : Float := 1.5707963267948966

def radiansPerDegree : Float := 0.017453292519943295

def degreesPerRadian : Float := 57.29577951308232

/-! ## Sign and extrema -/

/-- Whether the sign bit is set; it tells the two zeros apart. -/
def signBit (x : Float) : Bool := x.toBits >>> 63 == 1

/-- How many positive doubles there are up to a number; their bits count them in order. -/
def doublesUpTo (x : Float) : UInt64 := if 0 < x then x.toBits else 0

/-- The larger of two numbers. A positive infinity wins over everything, then a value that is not
a number wins, and the positive zero is larger than the negative one. -/
def max (x y : Float) : Float :=
  if x == infinity || y == infinity then infinity
  else if x.isNaN || y.isNaN then notANumber
  else if x == 0 && y == 0 then if signBit x then y else x
  else if x > y then x else y

/-- The smaller of two numbers. A negative infinity wins over everything, then a value that is not
a number wins, and the negative zero is smaller than the positive one. -/
def min (x y : Float) : Float :=
  if x == -infinity || y == -infinity then -infinity
  else if x.isNaN || y.isNaN then notANumber
  else if x == 0 && y == 0 then if signBit x then x else y
  else if x < y then x else y

/-- The larger of two numbers, where a value that is not a number wins over everything. -/
def strictMax (x y : Float) : Float :=
  if x.isNaN || y.isNaN then notANumber else max x y

/-- The smaller of two numbers, where a value that is not a number wins over everything. -/
def strictMin (x y : Float) : Float :=
  if x.isNaN || y.isNaN then notANumber else min x y

def clamp (low high x : Float) : Float := max low (min high x)

/-! ## Whole numbers -/

/-- Numbers of this size and more have no fraction. -/
def wholeLimit : Float := 4503599627370496.0

def truncate (x : Float) : Float :=
  if x.abs < wholeLimit then
    let size := x.abs.toUInt64.toFloat
    if signBit x then -size else size
  else x

def ceiling (x : Float) : Float :=
  let whole := truncate x
  if whole < x then whole + 1 else whole

/-- The nearest whole number; a half goes away from zero. -/
def nearestWhole (x : Float) : Float :=
  let whole := truncate x.abs
  let size := if x.abs - whole >= 0.5 then whole + 1 else whole
  if signBit x then -size else size

/-- The whole part of a number as a 64-bit word. Whatever has no such word, including a value that
is not a number, becomes the least word. -/
def toWord (x : Float) : Int64 :=
  if x >= -9223372036854775808.0 && x < 9223372036854775808.0 then
    let size := x.abs.toUInt64.toInt64
    if x < 0 then -size else size
  else Int64.minValue

def ofWord (word : Int64) : Float :=
  if word < 0 then -(-word).toUInt64.toFloat else word.toUInt64.toFloat

/-- The nearest whole number as a 64-bit word; a half goes away from zero. -/
def roundToWord (x : Float) : Int64 := toWord (nearestWhole x)

/-! ## Lengths -/

/-- The length of the diagonal of a rectangle, scaled by the longer side so that it does not
overflow early. -/
def hypot (x y : Float) : Float :=
  let p := x.abs
  let q := y.abs
  if p == infinity || q == infinity then infinity
  else if p.isNaN || q.isNaN then notANumber
  else
    let long := if p < q then q else p
    let short := if p < q then p else q
    if long == 0 then 0
    else
      let ratio := short / long
      long * (1 + ratio * ratio).sqrt

/-- The square root of `1 - x²`, zero where that is negative. -/
def cosineOfSine (x : Float) : Float := (max 0 (1 - x * x)).sqrt

end Kerf.Scalar
