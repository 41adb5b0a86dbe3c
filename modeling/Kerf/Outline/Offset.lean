import Kerf.Outline.Loop

/-!
# Offset outlines

Moving an outline sideways by a distance, with round corners. The raw curve of a shape with narrow
features crosses itself; what remains is the boundary of the region that it winds around, so a
narrow slot fills in and a narrow neck parts the result.
-/

set_option autoImplicit false

namespace Kerf.Outline

open Kerf.Scalar

/-- The area of a closed outline, positive when it runs counter-clockwise. A repeated first point at
the end does not count. -/
def area (points : List Planar) : Float :=
  let points :=
    if 1 < points.length && points.head? == points.getLast? then points.dropLast else points
  (List.zipWith (fun (p q : Planar) => p.x * q.y - q.x * p.y) points
    (points.drop 1 ++ points.take 1)).foldl (· + ·) 0 / 2

/-- The angle between the samples of an arc that keeps its chords within a tolerance. -/
def arcStep (radius tolerance : Float) : Float :=
  if radius <= tolerance then quarterTurn
  else Scalar.max (2 * Trig.arcCosine (1 - tolerance / radius)) radiansPerDegree

/-- The number of steps an arc takes; at least one. -/
def arcSteps (sweep step : Float) : Nat :=
  let count := (toWord (ceiling (sweep.abs / step))).toInt
  if count < 1 then 1 else count.toNat

/-- Samples the circle about a centre from an arm through an angle, both ends included. -/
def arc (center arm : Planar) (sweep step : Float) : List Node :=
  let count := arcSteps sweep step
  (List.range (count + 1)).map fun index =>
    let (sine, cosine) := Trig.sineCosine (sweep * index.toFloat / count.toFloat)
    Node.ofPlanar
      (center + ⟨arm.x * cosine - arm.y * sine, arm.x * sine + arm.y * cosine⟩)

def circle (center : Node) (radius step : Float) : Ring :=
  (arc center.toPlanar ⟨0, radius⟩ turn step).dropLast

/-- The direction to the left of a step; zero for a step of no length. -/
def leftNormal (step : Planar) : Planar :=
  let length := step.length
  if length == 0 then ⟨0, 0⟩ else ⟨-step.y / length, step.x / length⟩

/-- The angle of a round corner, always clockwise. Turning straight back takes half a turn. -/
def cornerSweep (before after : Planar) (turnsBack : Bool) : Float :=
  let sweep := Trig.direction (before.x * after.y - before.y * after.x)
    (before.x * after.x + before.y * after.y)
  if sweep > 0 || turnsBack then
    let sweep := -sweep.abs
    if sweep == 0 then -pi else sweep
  else sweep

/-- The offset of one corner to the left of travel. A corner that is nearly straight gives one
point, a left turn the crossing of the moved edges, and a right turn an arc. -/
def offsetCorner (distance step : Float) (previous current next : Node) : List Node :=
  let e := previous.stepTo current
  let f := current.stepTo next
  let m := (leftNormal e).scale distance
  let n := (leftNormal f).scale distance
  let p := current.toPlanar
  let cross := e.x * f.y - e.y * f.x
  let dot := e.x * f.x + e.y * f.y
  let nearly := 1e-12 * (e.length * f.length)
  if cross.abs <= nearly && dot > 0 then [Node.ofPlanar (p + n)]
  else if cross > nearly then
    let q := p + m
    let d := (p + n) - q
    [Node.ofPlanar (q + e.scale ((d.x * f.y - d.y * f.x) / cross))]
  else arc p m (cornerSweep m n (cross.abs <= nearly && dot < 0)) step

/-- Moves a ring to the left of travel. -/
def offsetLeft (ring : Ring) (distance step : Float) : Ring :=
  (ring.preceding.zip (ring.zip ring.following)).flatMap fun (previous, current, next) =>
    offsetCorner distance step previous current next

/-! ## Whole outlines -/

/-- The loops of a closed ring moved outward for a positive and inward for a negative amount. -/
def offsetClosed (ring : Ring) (amount distance step tolerance : Float) : List Ring :=
  let reversed := (ring.doubleArea > 0) == (amount > 0)
  let ring : Ring := if reversed then ring.reverse else ring
  let loops := resolve (offsetLeft ring distance step) (ring.doubleArea > 0)
  (loops.filter fun loop => keepsClear loop ring.edges distance tolerance).map fun loop =>
    if reversed then loop.reverse else loop

/-- The outline of an open line. The ring walks out and back, and turning back at both ends makes
round caps. -/
def offsetOpen (line : List Node) (distance step tolerance : Float) : List Ring :=
  let ring : Ring := line ++ (line.drop 1).dropLast.reverse
  let raw := Ring.clean (offsetLeft ring distance step)
  (resolve raw (raw.doubleArea > 0)).filter fun loop =>
    keepsClear loop (List.zipWith Edge.mk line (line.drop 1)) distance tolerance

/-- Starts every loop at its point nearest to the start and puts the nearest loop first. -/
def order (loops : List Ring) (start : Node) : List Ring :=
  let seamed := loops.map fun loop =>
    let ring := loop.reseam start
    (ring, ((ring.head?.map (·.distanceSquared start)).getD 0))
  (Sorting.byInsertion (fun p q => p.2 < q.2) seamed).map (·.1)

/-- The points of a ring, its first one repeated at the end. -/
def Grid.closedLoop (grid : Grid) (ring : Ring) : List Planar :=
  let points := ring.map grid.place
  points ++ points.take 1

/-- Moves an outline sideways and returns the resulting loops, none when the shape collapses.

A closed outline grows for a positive and shrinks for a negative amount; an open one is outlined on
both sides. Loops are closed, and the one nearest to the start comes first. -/
def offset (points : List Planar) (closed : Bool) (amount tolerance : Float) :
    List (List Planar) :=
  match points with
  | [] => []
  | first :: rest =>
      let grid := Grid.around first rest amount
      let nodes := points.map grid.snap
      let start := grid.snap first
      let distance := amount.abs * grid.scale
      let tolerance := Scalar.max tolerance 1e-9 * grid.scale
      let step := arcStep distance tolerance
      let finish (loops : List Ring) := (order loops start).map grid.closedLoop
      if closed then
        let ring := Ring.clean nodes
        if ring.length < 3 || ring.doubleArea == 0 then []
        else if amount == 0 then finish [ring]
        else finish (offsetClosed ring amount distance step tolerance)
      else
        let line := Ring.dedupe nodes
        if amount == 0 then [line.map grid.place]
        else
          match line with
          | [only] => finish [circle only distance step]
          | _ => finish (offsetOpen line distance step tolerance)

end Kerf.Outline
