import Kerf.Geometry.Vec

/-!
# Rotary axes

A table with two rotary axes: `a` tilts it about the x axis and `b` spins it about the y axis. A
tool direction is reached when the table turns it straight up. Every direction is reached by two
stances, and `b` is free up to whole turns and altogether free at the cusp, where the direction
lies along the y axis.
-/

set_option autoImplicit false

namespace Kerf.Rotary

open Kerf.Scalar

/-- A setting of the two rotary axes in radians. -/
structure Setting where
  a : Float
  b : Float
  deriving BEq, Inhabited

def Setting.home : Setting := ⟨0, 0⟩

/-- The travel of the rotary axes in radians; `b` may turn as far either way. -/
structure Limits where
  aMin : Float
  aMax : Float
  bMax : Float

/-- How close to the cusp `b` stops mattering. -/
def cuspTolerance : Float := 1e-6

/-- Whether the tilt sits where `b` has no effect. -/
def atCusp (a : Float) : Bool := (a - quarterTurn).abs < cuspTolerance

namespace Setting

/-- The setting for a direction with the tilt in `[-π/2, π/2]`. -/
def primary (direction : Vec) : Setting :=
  ⟨Trig.arcSine (clamp (-1) 1 direction.y), Trig.direction (-direction.x) direction.z⟩

/-- The other stance that reaches the same direction. -/
def alternate (setting : Setting) : Setting := ⟨pi - setting.a, setting.b + pi⟩

/-- The tool direction that a setting turns straight up. -/
def direction (setting : Setting) : Vec :=
  let (sineA, cosineA) := Trig.sineCosine setting.a
  let (sineB, cosineB) := Trig.sineCosine setting.b
  ⟨-cosineA * sineB, sineA, cosineA * cosineB⟩

/-- The rotary travel between two settings. Both axes move together, so the longer move counts. -/
def cost (source target : Setting) : Float :=
  Scalar.max (target.a - source.a).abs (target.b - source.b).abs

def blend (source target : Setting) (fraction : Float) : Setting :=
  ⟨source.a + (target.a - source.a) * fraction, source.b + (target.b - source.b) * fraction⟩

end Setting

/-! ## Table coordinates -/

/-- Turns a vector about the x axis. -/
def tilt (v : Vec) (angle : Float) : Vec :=
  let (sine, cosine) := Trig.sineCosine angle
  ⟨v.x, v.y * cosine - v.z * sine, v.y * sine + v.z * cosine⟩

/-- Turns a vector about the y axis. -/
def spin (v : Vec) (angle : Float) : Vec :=
  let (sine, cosine) := Trig.sineCosine angle
  ⟨v.x * cosine + v.z * sine, v.y, -v.x * sine + v.z * cosine⟩

/-- Where a point of the workpiece ends up when the table turns about its pivot. -/
def toMachine (setting : Setting) (point pivot : Vec) : Vec :=
  tilt (spin (point - pivot) setting.b) setting.a + pivot

/-- The point of the workpiece that the table has turned to a place. -/
def ofMachine (setting : Setting) (place pivot : Vec) : Vec :=
  spin (tilt (place - pivot) (-setting.a)) (-setting.b) + pivot

/-! ## Choosing a setting -/

/-- Shifts an angle by whole turns to within half a turn of a reference. -/
def unwrap (b reference : Float) : Float := b - turn * nearestWhole ((b - reference) / turn)

/-- Takes whole turns off an angle above the limit while the result stays above the negative limit.
Above `2 ^ 56` a turn is lost in rounding. Without the second test the steps would never end there; the
angle is left as it is. -/
def pullDown (bMax b : Float) : Float :=
  if b > bMax && b - turn >= -bMax then
    if doublesUpTo (b - turn) < doublesUpTo b then pullDown bMax (b - turn) else b
  else b
termination_by (doublesUpTo b).toNat
decreasing_by exact UInt64.lt_iff_toNat_lt.mp ‹_›

/-- Adds whole turns to an angle below the negative limit while the result stays below the limit.
A turn that is lost in rounding ends the steps here too. -/
def pullUp (bMax b : Float) : Float :=
  if b < -bMax && b + turn <= bMax then
    if doublesUpTo (-(b + turn)) < doublesUpTo (-b) then pullUp bMax (b + turn) else b
  else b
termination_by (doublesUpTo (-b)).toNat
decreasing_by exact UInt64.lt_iff_toNat_lt.mp ‹_›

/-- Brings an angle within the limit by whole turns where that is possible. -/
def pull (b bMax : Float) : Float := pullUp bMax (pullDown bMax b)

/-- The setting for a direction that continues from a previous setting. The other stance is taken
when its tilt is within the limits and it needs strictly less travel; at the cusp the previous `b`
is kept. -/
def solve (direction : Vec) (previous : Setting) (limits : Limits) : Setting :=
  let first := Setting.primary direction
  let near : Setting := ⟨first.a, pull (unwrap first.b previous.b) limits.bMax⟩
  if atCusp near.a then ⟨near.a, previous.b⟩
  else
    let other := near.alternate
    if other.a < limits.aMin || other.a > limits.aMax then near
    else
      let far : Setting := ⟨other.a, pull (unwrap other.b previous.b) limits.bMax⟩
      if Setting.cost previous far < Setting.cost previous near then far else near

def limitSlack : Float := 1e-9

def Limits.allowsA (limits : Limits) (setting : Setting) : Bool :=
  setting.a >= limits.aMin - limitSlack && setting.a <= limits.aMax + limitSlack

def Limits.allowsB (limits : Limits) (setting : Setting) : Bool :=
  setting.b.abs <= limits.bMax + limitSlack

end Kerf.Rotary
