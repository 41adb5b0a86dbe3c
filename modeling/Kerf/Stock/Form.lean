import Kerf.Geometry.Polyline
import Kerf.Decimal.Layout

/-!
# Stock forms

The raw material that a job cuts into: a block or a cylinder, with the distance that rapid moves
keep from it and the slack of its surface. Forms are told apart by an identity, so that two equal
descriptions stay two pieces of material.
-/

set_option autoImplicit false

namespace Kerf.Stock

open Kerf.Scalar

structure Clearance where
  /-- The distance that rapid moves keep. -/
  safeDistance : Float
  /-- The slack added to the surface in every intersection test. -/
  materialTolerance : Float

/-- A rectangular block with its own frame; the third axis is the cross product of the others. -/
structure Box where
  center : Vec
  xAxis : Vec
  yAxis : Vec
  /-- The full extent along the three axes. -/
  size : Vec

/-- A right circular cylinder that stands on its base. -/
structure Cylinder where
  base : Vec
  axis : Vec
  height : Float
  radius : Float

inductive Shape where
  | box (box : Box)
  | cylinder (cylinder : Cylinder)

structure Form where
  identity : Nat
  clearance : Clearance
  shape : Shape

/-- Whether two forms are the same piece of material. -/
def Form.same (f g : Form) : Bool := f.identity == g.identity

/-! ## Making forms -/

inductive FormError where
  | boxSize (size : Vec)
  | boxAxes
  | cylinderSize (height radius : Float)
  | cylinderAxis
  | safeDistance (value : Float)
  | materialTolerance (value : Float)

def bracedText (v : Vec) : String :=
  "\x7b" ++ " ".intercalate (v.components.map Decimal.general) ++ "\x7d"

def FormError.message : FormError → String
  | .boxSize size => "stock: box size must be positive, got " ++ bracedText size
  | .boxAxes => "stock: box axes must be independent"
  | .cylinderSize height radius =>
      "stock: cylinder height and radius must be positive, got " ++ Decimal.general height ++
        " and " ++ Decimal.general radius
  | .cylinderAxis => "stock: cylinder axis must be nonzero"
  | .safeDistance value =>
      "stock: safe distance must not be negative, got " ++ Decimal.general value
  | .materialTolerance value =>
      "stock: material tolerance must not be negative, got " ++ Decimal.general value

def Clearance.check (clearance : Clearance) : Except FormError Unit :=
  if clearance.safeDistance < 0 then .error (.safeDistance clearance.safeDistance)
  else if clearance.materialTolerance < 0 then
    .error (.materialTolerance clearance.materialTolerance)
  else .ok ()

/-- Makes a block whose frame is spanned by two directions. The second is made perpendicular to the
first. -/
def Form.makeBox (identity : Nat) (center xAxis yAxis size : Vec) (clearance : Clearance) :
    Except FormError Form := do
  if size.x <= 0 || size.y <= 0 || size.z <= 0 then throw (.boxSize size)
  clearance.check
  let x := xAxis.unit
  let y := (yAxis - x.scale (yAxis.dot x)).unit
  if x.isShort || y.isShort then throw .boxAxes
  return { identity, clearance, shape := .box { center, xAxis := x, yAxis := y, size } }

def Form.makeCylinder (identity : Nat) (base axis : Vec) (height radius : Float)
    (clearance : Clearance) : Except FormError Form := do
  if height <= 0 || radius <= 0 then throw (.cylinderSize height radius)
  clearance.check
  let unit := axis.unit
  if unit.isShort then throw .cylinderAxis
  return { identity, clearance, shape := .cylinder { base, axis := unit, height, radius } }

/-! ## Frames and extents -/

namespace Box

def zAxis (box : Box) : Vec := box.xAxis.cross box.yAxis

def axes (box : Box) : List Vec := [box.xAxis, box.yAxis, box.zAxis]

def toLocal (box : Box) (v : Vec) : Vec := ⟨v.dot box.xAxis, v.dot box.yAxis, v.dot box.zAxis⟩

/-- Half the size, grown by an amount. -/
def halfSize (box : Box) (growth : Float) : Vec := (box.size.scale 0.5).grow growth

def bounds (box : Box) : Vec × Vec :=
  let half := box.size.scale 0.5
  let reach := (box.axes.zip half.components).foldl
    (fun sum (axis, extent) => sum + (axis.scale extent).abs) Vec.zero
  (box.center - reach, box.center + reach)

end Box

namespace Cylinder

def top (cylinder : Cylinder) : Vec := cylinder.base + cylinder.axis.scale cylinder.height

/-- The least and greatest coordinates. An end disc reaches `radius * √(1 - aᵢ²)` along each
coordinate axis. -/
def bounds (cylinder : Cylinder) : Vec × Vec :=
  let p := cylinder.base
  let q := cylinder.top
  let reach : Vec :=
    ⟨cylinder.radius * cosineOfSine cylinder.axis.x, cylinder.radius * cosineOfSine cylinder.axis.y,
      cylinder.radius * cosineOfSine cylinder.axis.z⟩
  (Vec.mk (strictMin p.x q.x) (strictMin p.y q.y) (strictMin p.z q.z) - reach,
    Vec.mk (strictMax p.x q.x) (strictMax p.y q.y) (strictMax p.z q.z) + reach)

end Cylinder

def Form.bounds (form : Form) : Vec × Vec :=
  match form.shape with
  | .box box => box.bounds
  | .cylinder cylinder => cylinder.bounds

def placeText (p : Vec) : String :=
  "(" ++ ", ".intercalate (p.components.map Decimal.general) ++ ")"

def Form.describe (form : Form) : String :=
  match form.shape with
  | .box box =>
      "box " ++ "x".intercalate (box.size.components.map Decimal.general) ++ " at " ++
        placeText box.center
  | .cylinder cylinder =>
      "cylinder r=" ++ Decimal.general cylinder.radius ++ " h=" ++
        Decimal.general cylinder.height ++ " at " ++ placeText cylinder.base

end Kerf.Stock
