import Kerf.Geometry.Vec

/-!
# Rotations

A rotation is an axis and an angle. It is found from the two directions it joins or from the
images of the three coordinate axes.
-/

set_option autoImplicit false

namespace Kerf

open Kerf.Scalar

structure Rotation where
  axis : Vec
  angle : Float

namespace Rotation

def none : Rotation := ⟨Vec.zAxis, 0⟩

/-- The smallest rotation that takes one direction to another. Opposite directions are joined by
half a turn about some perpendicular axis. -/
def between (source target : Vec) : Rotation :=
  let p := source.unit
  let q := target.unit
  let axis := p.cross q
  let angle := Trig.direction axis.length (p.dot q)
  if axis.length < shortLength then
    if angle < quarterTurn then none else ⟨p.perpendicular, pi⟩
  else ⟨axis.unit, angle⟩

/-- The rotation that takes the coordinate axes to an orthonormal frame. Near half a turn the axis
is read off the largest entry of the frame's diagonal. -/
def ofFrame (x y z : Vec) : Rotation :=
  let trace := x.x + y.y + z.z
  let angle := Trig.arcCosine (clamp (-1) 1 ((trace - 1) / 2))
  if angle < shortLength then none
  else if pi - angle < 1e-6 then
    let xx := (x.x + 1) / 2
    let yy := (y.y + 1) / 2
    let zz := (z.z + 1) / 2
    if xx >= yy && xx >= zz then
      let k := xx.sqrt
      ⟨(Vec.mk k (x.y / (2 * k)) (x.z / (2 * k))).unit, angle⟩
    else if yy >= zz then
      let k := yy.sqrt
      ⟨(Vec.mk (y.x / (2 * k)) k (y.z / (2 * k))).unit, angle⟩
    else
      let k := zz.sqrt
      ⟨(Vec.mk (z.x / (2 * k)) (z.y / (2 * k)) k).unit, angle⟩
  else ⟨(Vec.mk (y.z - z.y) (z.x - x.z) (x.y - y.x)).unit, angle⟩

def applyFraction (rotation : Rotation) (fraction : Float) (v : Vec) : Vec :=
  v.rotate rotation.axis (rotation.angle * fraction)

end Rotation

end Kerf
