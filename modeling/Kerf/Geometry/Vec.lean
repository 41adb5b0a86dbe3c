import Kerf.Trig

/-!
# Vectors

Points and directions in space, and points in the plane. A vector shorter than `shortLength`
counts as zero, so directions made from it fall back to the zero vector.
-/

set_option autoImplicit false

namespace Kerf

/-- A point or direction in space. -/
structure Vec where
  x : Float
  y : Float
  z : Float
  deriving BEq, DecidableEq, Inhabited

structure Planar where
  x : Float
  y : Float
  deriving BEq, Inhabited

/-- The length below which a vector counts as zero. -/
def shortLength : Float := 1e-9

def shortLengthSquared : Float := 1e-18

namespace Vec

def zero : Vec := ⟨0, 0, 0⟩
def xAxis : Vec := ⟨1, 0, 0⟩
def yAxis : Vec := ⟨0, 1, 0⟩
def zAxis : Vec := ⟨0, 0, 1⟩

/-! ## Arithmetic -/

def add (a b : Vec) : Vec := ⟨a.x + b.x, a.y + b.y, a.z + b.z⟩
def sub (a b : Vec) : Vec := ⟨a.x - b.x, a.y - b.y, a.z - b.z⟩
def neg (a : Vec) : Vec := ⟨-a.x, -a.y, -a.z⟩

instance : Add Vec := ⟨add⟩
instance : Sub Vec := ⟨sub⟩
instance : Neg Vec := ⟨neg⟩

def scale (a : Vec) (factor : Float) : Vec := ⟨a.x * factor, a.y * factor, a.z * factor⟩

/-- Multiplies every component by the reciprocal of a number. -/
def shrink (a : Vec) (divisor : Float) : Vec := a.scale (1 / divisor)

def grow (a : Vec) (amount : Float) : Vec := ⟨a.x + amount, a.y + amount, a.z + amount⟩

def abs (a : Vec) : Vec := ⟨a.x.abs, a.y.abs, a.z.abs⟩

def dot (a b : Vec) : Float := a.x * b.x + a.y * b.y + a.z * b.z

def cross (a b : Vec) : Vec :=
  ⟨a.y * b.z - a.z * b.y, a.z * b.x - a.x * b.z, a.x * b.y - a.y * b.x⟩

def lengthSquared (a : Vec) : Float := a.x * a.x + a.y * a.y + a.z * a.z

def length (a : Vec) : Float := a.lengthSquared.sqrt

def distance (a b : Vec) : Float := (a - b).length

def components (a : Vec) : List Float := [a.x, a.y, a.z]

/-! ## Directions -/

def isShort (a : Vec) : Bool := a.length < shortLength

def isFinite (a : Vec) : Bool := a.x.isFinite && a.y.isFinite && a.z.isFinite

/-- The vector of length one with the same direction, zero for a short vector. -/
def unit (a : Vec) : Vec :=
  let size := a.length
  if size < shortLength then zero else a.shrink size

def lerp (a b : Vec) (fraction : Float) : Vec := a + (b - a).scale fraction

/-- The angle between two directions, in `[0, π]`. -/
def angleTo (a b : Vec) : Float :=
  let p := a.unit
  let q := b.unit
  Trig.direction (p.cross q).length (p.dot q)

/-- Whether two directions differ by at most an angle. -/
def alignedWith (a b : Vec) (tolerance : Float) : Bool := a.angleTo b <= tolerance

/-- Whether a direction points straight up, as far as machines without rotary axes care. -/
def isVertical (a : Vec) : Bool := a.alignedWith zAxis 1e-6

/-- Some direction at right angles to a vector. -/
def perpendicular (a : Vec) : Vec :=
  let p := a.unit
  if p.x.abs < 0.9 then (p.cross xAxis).unit else (p.cross yAxis).unit

/-- Turns a vector about an axis by an angle, counter-clockwise as seen from the axis's tip. -/
def rotate (a axis : Vec) (angle : Float) : Vec :=
  let k := axis.unit
  let (sine, cosine) := Trig.sineCosine angle
  a.scale cosine + (k.cross a).scale sine + k.scale (k.dot a * (1 - cosine))

/-! ## The plane -/

def flatten (a : Vec) : Planar := ⟨a.x, a.y⟩

end Vec

namespace Planar

def lift (p : Planar) (height : Float) : Vec := ⟨p.x, p.y, height⟩

def add (p q : Planar) : Planar := ⟨p.x + q.x, p.y + q.y⟩
def sub (p q : Planar) : Planar := ⟨p.x - q.x, p.y - q.y⟩

instance : Add Planar := ⟨add⟩
instance : Sub Planar := ⟨sub⟩

def scale (p : Planar) (factor : Float) : Planar := ⟨p.x * factor, p.y * factor⟩

def length (p : Planar) : Float := (p.x * p.x + p.y * p.y).sqrt

end Planar

end Kerf
