import Kerf.Geometry.Vec

/-!
# Lines, segments and polylines

Distances between points and the segments of a polyline, and the closest points of two lines.
-/

set_option autoImplicit false

namespace Kerf

open Kerf.Scalar

/-- The parameters of the mutually closest points of the lines `p + s * d` and `q + t * e`, or
nothing for parallel or degenerate lines. -/
def closestOnLines (p d q e : Vec) : Option (Float × Float) :=
  let r := p - q
  let dd := d.dot d
  let ee := e.dot e
  let de := d.dot e
  let dr := d.dot r
  let er := e.dot r
  let determinant := dd * ee - de * de
  if determinant.abs < shortLength * dd * ee || dd < shortLength || ee < shortLength then none
  else some ((de * er - dr * ee) / determinant, (dd * er - de * dr) / determinant)

def segmentDistance (p a b : Vec) : Float :=
  let d := b - a
  let squared := d.lengthSquared
  if squared < shortLengthSquared then (p - a).length
  else
    let fraction := clamp 0 1 ((p - a).dot d / squared)
    (p - (a + d.scale fraction)).length

/-- A polyline by its corners. -/
abbrev Polyline := List Vec

namespace Polyline

/-- Folds the distance to every segment of a polyline of at least two corners. -/
def nearestSegment (p : Vec) : Polyline → Float → Float
  | a :: b :: rest, best => nearestSegment p (b :: rest) (Scalar.min best (segmentDistance p a b))
  | _, best => best

/-- The distance from a point to the nearest segment. A single corner is measured to itself, and no
corner is infinitely far away. -/
def distanceFrom (line : Polyline) (p : Vec) : Float :=
  match line with
  | [] => infinity
  | [only] => (p - only).length
  | _ => nearestSegment p line infinity

def lengthFrom : Polyline → Float → Float
  | a :: b :: rest, sum => lengthFrom (b :: rest) (sum + (b - a).length)
  | _, sum => sum

def length (line : Polyline) : Float := lengthFrom line 0

end Polyline

end Kerf
