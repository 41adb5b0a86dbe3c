import Kerf.Geometry.Rotation
import Kerf.Stock.Form

/-!
# Distance fields and enclosing boxes

The signed distance from a point to a form, and the box that encloses the form once its solid has
been turned and moved into place.
-/

set_option autoImplicit false

namespace Kerf.Stock

open Kerf.Scalar

/-! ## Centred solids -/

/-- A solid centred at the origin: a block, or a cylinder about the z axis. -/
inductive Solid where
  | block (half : Vec)
  | rod (halfHeight radius : Float)

def blockDistance (half p : Vec) : Float :=
  let d := p.abs - half
  if d.x > 0 && d.y > 0 && d.z > 0 then d.length
  else if d.x > 0 && d.y > 0 then (d.x * d.x + d.y * d.y).sqrt
  else if d.x > 0 && d.z > 0 then (d.x * d.x + d.z * d.z).sqrt
  else if d.y > 0 && d.z > 0 then (d.y * d.y + d.z * d.z).sqrt
  else if d.x > 0 then d.x
  else if d.y > 0 then d.y
  else if d.z > 0 then d.z
  else Scalar.max (Scalar.max d.x d.y) d.z

def rodDistance (halfHeight radius : Float) (p : Vec) : Float :=
  let across := (p.flatten.length).abs
  let level := p.z.abs
  let dAcross := across - radius
  let dLevel := level - halfHeight
  if dAcross > 0 && dLevel > 0 then (Planar.mk dAcross dLevel).length
  else if level - across > halfHeight - radius then dLevel
  else dAcross

def Solid.distance : Solid → Vec → Float
  | .block half, p => blockDistance half p
  | .rod halfHeight radius, p => rodDistance halfHeight radius p

/-- Half the extent of a centred solid along the coordinate axes. -/
def Solid.extent : Solid → Vec
  | .block half => half
  | .rod halfHeight radius => ⟨radius, radius, halfHeight⟩

/-! ## Placement -/

/-- A rigid motion: the images of the three coordinate axes and of the origin. -/
structure Placement where
  xImage : Vec
  yImage : Vec
  zImage : Vec
  origin : Vec

/-- Turns about an axis and then moves the origin. -/
def Placement.ofRotation (rotation : Rotation) (origin : Vec) : Placement :=
  let k := rotation.axis.shrink rotation.axis.length
  let (s, c) := Trig.sineCosine rotation.angle
  let m := 1 - c
  { xImage := ⟨m * k.x * k.x + c, m * k.x * k.y + k.z * s, m * k.z * k.x - k.y * s⟩
    yImage := ⟨m * k.x * k.y - k.z * s, m * k.y * k.y + c, m * k.y * k.z + k.x * s⟩
    zImage := ⟨m * k.z * k.x + k.y * s, m * k.y * k.z - k.x * s, m * k.z * k.z + c⟩
    origin }

/-- The point that a placement takes to a given one. -/
def Placement.inverse (placement : Placement) (p : Vec) : Vec :=
  let relative := p - placement.origin
  ⟨relative.dot placement.xImage, relative.dot placement.yImage, relative.dot placement.zImage⟩

/-- A box along the coordinate axes. -/
structure Bounds where
  low : Vec
  high : Vec

def lesser (a b : Vec) : Vec := ⟨Scalar.min a.x b.x, Scalar.min a.y b.y, Scalar.min a.z b.z⟩

def greater (a b : Vec) : Vec := ⟨Scalar.max a.x b.x, Scalar.max a.y b.y, Scalar.max a.z b.z⟩

/-- The box that encloses a placed box with the given half extents. -/
def Placement.enclose (placement : Placement) (half : Vec) : Bounds :=
  let reach (axis : Vec) (extent : Float) : Vec × Vec :=
    let p := axis.scale (-extent)
    let q := axis.scale extent
    (lesser p q, greater p q)
  let x := reach placement.xImage half.x
  let y := reach placement.yImage half.y
  let z := reach placement.zImage half.z
  { low := x.1 + y.1 + z.1 + placement.origin
    high := x.2 + y.2 + z.2 + placement.origin }

def Bounds.grow (bounds : Bounds) (distance : Float) : Bounds :=
  let size := bounds.high - bounds.low
  let center := bounds.low + size.scale 0.5
  let half := (size.grow (2 * distance)).scale 0.5
  { low := center - half, high := center + half }

def Bounds.union (p q : Bounds) : Bounds :=
  { low := lesser p.low q.low, high := greater p.high q.high }

/-! ## Forms -/

def Form.solid (form : Form) : Solid :=
  match form.shape with
  | .box box => .block (box.size.scale 0.5)
  | .cylinder cylinder => .rod (cylinder.height / 2) cylinder.radius

def Form.placement (form : Form) : Placement :=
  match form.shape with
  | .box box => .ofRotation (.ofFrame box.xAxis box.yAxis box.zAxis) box.center
  | .cylinder cylinder =>
      .ofRotation (.between Vec.zAxis cylinder.axis)
        (cylinder.base + cylinder.axis.scale (cylinder.height / 2))

/-- The signed distance field of a form, evaluated through its placement. -/
def Form.field (form : Form) (p : Vec) : Float := form.solid.distance (form.placement.inverse p)

/-- The signed distance from a point to the surface of a form, evaluated in the form's own frame. -/
def Form.distance (form : Form) (p : Vec) : Float :=
  match form.shape with
  | .box box => form.solid.distance (box.toLocal (p - box.center))
  | .cylinder cylinder =>
      let relative := p - cylinder.base
      let u := cylinder.axis.perpendicular
      let w := cylinder.axis.cross u
      form.solid.distance
        ⟨relative.dot u, relative.dot w, relative.dot cylinder.axis - cylinder.height / 2⟩

/-- The box that encloses the solid of a form, or of its safety bubble. -/
def Form.enclosure (form : Form) (bubble : Bool) : Bounds :=
  let bounds := form.placement.enclose form.solid.extent
  let distance := form.clearance.safeDistance
  if bubble && distance > 0 then bounds.grow distance else bounds

end Kerf.Stock
