import Kerf.Outline.Grid

/-!
# Rings

A ring is a cyclic list of grid points. Cleaning a ring removes points that do not change its
shape: repeated ones, and those straight between their neighbours. A point where the ring turns
back on itself stays.
-/

set_option autoImplicit false

namespace Kerf.Outline

open Kerf.Scalar

/-- A cyclic list of grid points. -/
abbrev Ring := List Node

namespace Ring

/-- The points, each moved to the place of the one before it. -/
def following (ring : Ring) : List Node := ring.drop 1 ++ ring.take 1

/-- The points, each moved to the place of the one after it. -/
def preceding (ring : Ring) : List Node := ring.getLast?.toList ++ ring.dropLast

def edges (ring : Ring) : List Edge := List.zipWith Edge.mk ring ring.following

def dedupe : List Node → List Node
  | a :: b :: rest => if a = b then dedupe (b :: rest) else a :: dedupe (b :: rest)
  | short => short

/-- Drops points at the end that repeat the first one. -/
def dropClosing (ring : Ring) : Ring :=
  match ring with
  | first :: second :: rest =>
      if (second :: rest).getLast? = some first then dropClosing ((first :: second :: rest).dropLast)
      else ring
  | _ => ring
termination_by ring.length
decreasing_by simp

/-- Whether a point adds nothing between its neighbours: it repeats the one before it, or lies
straight ahead on the way to the next. -/
def isIdle (previous current next : Node) : Bool :=
  previous == current ||
    (let ax := current.x - previous.x
     let ay := current.y - previous.y
     let bx := next.x - current.x
     let byy := next.y - current.y
     ax * byy - ay * bx == 0 && ax * bx + ay * byy > 0)

/-- Drops all points that add nothing between their neighbours. -/
def cleanPass (ring : Ring) : Ring :=
  ((ring.preceding.zip (ring.zip ring.following)).filter fun (previous, current, next) =>
    !isIdle previous current next).map fun (_, current, _) => current

/-- Repeats passes while they drop something and three points are left. -/
def cleanRepeatedly (ring : Ring) : Ring :=
  if 3 ≤ ring.length then
    let cleaned := cleanPass ring
    if cleaned.length < ring.length then cleanRepeatedly cleaned else ring
  else ring
termination_by ring.length

/-- Drops everything that does not change the shape of a ring. -/
def clean (points : List Node) : Ring := cleanRepeatedly (dropClosing (dedupe points))

/-- Twice the area, positive for a ring that runs counter-clockwise. -/
def doubleArea (ring : Ring) : Float :=
  ring.edges.foldl
    (fun sum edge =>
      let p := edge.source.toPlanar
      let q := edge.target.toPlanar
      sum + (p.x * q.y - q.x * p.y))
    0

/-- The index of the point nearest to a given one, the first of equally near ones. -/
def nearestIndex (ring : Ring) (start : Node) : Nat :=
  (ring.zipIdx.foldl
    (fun (best : Nat × Float) (node, index) =>
      let distance := node.distanceSquared start
      if distance < best.2 then (index, distance) else best)
    (0, infinity)).1

/-- Starts a ring at the point nearest to a given one. -/
def reseam (ring : Ring) (start : Node) : Ring :=
  let index := ring.nearestIndex start
  ring.drop index ++ ring.take index

end Ring

/-- Whether every point of a ring keeps a distance from some segments, less the tolerance of arcs
and two grid units for snapping. A ring left over where an offset passed through itself comes
closer. -/
def keepsClear (ring : Ring) (segments : List Edge) (distance tolerance : Float) : Bool :=
  let least := Scalar.max (distance - tolerance - 2) 0
  let least := least * least
  ring.all fun node =>
    segments.all fun edge => !(node.segmentDistanceSquared edge.source edge.target < least)

end Kerf.Outline
