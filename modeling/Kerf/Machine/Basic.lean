import Kerf.Dialect.Basic
import Kerf.Geometry.Rotation
import Kerf.Toolpath.Point

/-!
# Machines

A machine is a dialect together with the axes it drives: two, three, or three and a table that
tilts and turns.
-/

set_option autoImplicit false

namespace Kerf

open Kerf.Scalar

/-- The axes of a machine. -/
inductive Kinematics where
  /-- Only x and y, such as a laser. -/
  | planar
  /-- A fixed tool direction. -/
  | vertical
  /-- A table that tilts and turns about a pivot. -/
  | table (limits : Rotary.Limits) (pivot : Vec)

structure Machine where
  dialect : Dialect
  kinematics : Kinematics

structure UnsupportedKind where
  kind : String

def UnsupportedKind.message (unsupported : UnsupportedKind) : String :=
  "machine: unsupported kind " ++ Text.quoted unsupported.kind

/-- The values of all axes of a machine. Axes that it lacks are zero. -/
structure AxisValues where
  position : Vec
  rotary : Rotary.Setting
  deriving Inhabited

def AxisValues.home : AxisValues := ⟨Vec.zero, .home⟩

namespace Machine

def ofDialect (dialect : Dialect) : Except UnsupportedKind Machine :=
  match dialect.kind with
  | .twoAxis => .ok ⟨dialect, .planar⟩
  | .threeAxis => .ok ⟨dialect, .vertical⟩
  | .abTable => .ok ⟨dialect, .table dialect.limits dialect.pivot⟩
  | .unknown kind => .error ⟨kind⟩

def name (machine : Machine) : String := machine.dialect.name

/-- Whether the machine can turn the tool. -/
def isFiveAxis (machine : Machine) : Bool :=
  match machine.kinematics with
  | .table _ _ => true
  | _ => false

/-- The axis values that bring the tool to a point, continuing from previous values. -/
def forward (machine : Machine) (point : Point) (previous : AxisValues) : AxisValues :=
  match machine.kinematics with
  | .planar => ⟨⟨point.position.x, point.position.y, 0⟩, .home⟩
  | .vertical => ⟨point.position, .home⟩
  | .table limits pivot =>
      let setting := Rotary.solve point.direction previous.rotary limits
      ⟨Rotary.toMachine setting point.position pivot, setting⟩

/-- The tool point that axis values lead to, with feed and speed not set. -/
def inverse (machine : Machine) (values : AxisValues) : Point :=
  match machine.kinematics with
  | .planar | .vertical => Point.make values.position Vec.zAxis
  | .table _ pivot =>
      Point.make (Rotary.ofMachine values.rotary values.position pivot) values.rotary.direction

/-- The rotary settings at both ends of a move. The long way sends `b` round the other side. -/
def rotarySpan (limits : Rotary.Limits) (source target : Point) (long : Bool) :
    Rotary.Setting × Rotary.Setting :=
  let first := Rotary.Setting.primary source.direction
  let last := Rotary.solve target.direction first limits
  if long then
    (first, ⟨last.a, if last.b >= first.b then last.b - turn else last.b + turn⟩)
  else (first, last)

/-- The tool point a fraction of the way between two points, all axes moving evenly. What is
attached to the first point stays attached. -/
def interpolate (machine : Machine) (source target : Point) (fraction : Float) (long : Bool) :
    Point :=
  match machine.kinematics with
  | .planar | .vertical =>
      let rotation := Rotation.between source.direction target.direction
      { source with
        position := source.position.lerp target.position fraction
        direction := (rotation.applyFraction fraction source.direction).unit }
  | .table limits pivot =>
      let (first, last) := rotarySpan limits source target long
      let setting := first.blend last fraction
      let place := (Rotary.toMachine first source.position pivot).lerp
        (Rotary.toMachine last target.position pivot) fraction
      { source with
        position := Rotary.ofMachine setting place pivot
        direction := setting.direction }

/-- The rotation needed between the directions of two points. -/
def angularDistance (machine : Machine) (source target : Point) (long : Bool) : Float :=
  match machine.kinematics with
  | .planar | .vertical => source.direction.angleTo target.direction
  | .table limits _ =>
      let (first, last) := rotarySpan limits source target long
      first.cost last

end Machine

end Kerf
