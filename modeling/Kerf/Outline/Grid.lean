import Kerf.Geometry.Vec

/-!
# The grid

Outlines are worked on with whole coordinates, so that comparisons are exact. The grid is sized to
the outline and the distance it is moved by: coordinates stay within `2 ^ 30`, and products of two
differences within a 64-bit word.
-/

set_option autoImplicit false

namespace Kerf.Outline

open Kerf.Scalar

structure Node where
  x : Int64
  y : Int64
  deriving DecidableEq, Repr, Inhabited

structure Edge where
  source : Node
  target : Node
  deriving DecidableEq, Repr, Inhabited

/-- How the plane is laid on the grid. -/
structure Grid where
  origin : Planar
  /-- Grid units in a unit of length. -/
  scale : Float

/-- The largest coordinate of the grid. -/
def gridLimit : Float := 1073741824.0

/-- The least and greatest coordinates of points, starting from known ones. -/
def extremes (points : List Planar) (low high : Planar) : Planar × Planar :=
  points.foldl
    (fun (low, high) p =>
      (⟨Scalar.min low.x p.x, Scalar.min low.y p.y⟩, ⟨Scalar.max high.x p.x, Scalar.max high.y p.y⟩))
    (low, high)

/-- The grid for an outline that starts at a point and moves by a distance. -/
def Grid.around (first : Planar) (rest : List Planar) (distance : Float) : Grid :=
  let (low, high) := extremes rest first first
  let reach := Scalar.max (high.x - low.x) (high.y - low.y) / 2 + 2 * distance.abs
  let reach := if reach < 1e-12 then 1 else reach
  { origin := ⟨(low.x + high.x) / 2, (low.y + high.y) / 2⟩
    scale := gridLimit / (2 * reach) }

def Grid.snap (grid : Grid) (p : Planar) : Node :=
  ⟨roundToWord ((p.x - grid.origin.x) * grid.scale), roundToWord ((p.y - grid.origin.y) * grid.scale)⟩

def Grid.place (grid : Grid) (node : Node) : Planar :=
  ⟨ofWord node.x / grid.scale + grid.origin.x, ofWord node.y / grid.scale + grid.origin.y⟩

def Node.toPlanar (node : Node) : Planar := ⟨ofWord node.x, ofWord node.y⟩

def Node.ofPlanar (p : Planar) : Node := ⟨roundToWord p.x, roundToWord p.y⟩

def Node.stepTo (a b : Node) : Planar := ⟨ofWord (b.x - a.x), ofWord (b.y - a.y)⟩

def Node.distanceSquared (a b : Node) : Float :=
  let dx := ofWord (a.x - b.x)
  let dy := ofWord (a.y - b.y)
  dx * dx + dy * dy

def Node.segmentDistanceSquared (p a b : Node) : Float :=
  let q := a.stepTo p
  let d := a.stepTo b
  let squared := d.x * d.x + d.y * d.y
  let fraction := if squared > 0 then clamp 0 1 ((q.x * d.x + q.y * d.y) / squared) else 0
  let ex := q.x - fraction * d.x
  let ey := q.y - fraction * d.y
  ex * ex + ey * ey

end Kerf.Outline
