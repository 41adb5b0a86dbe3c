import Kerf.Sorting
import Kerf.Stock.Form

/-!
# Crossings of lines with stock

Where a line enters and leaves a form that has been grown by a distance, and the way out of the
material nearest to the part of the line inside it.

The way out of a block is undefined when no face is at a comparable distance, which happens only
for coordinates that are infinite or not numbers. Such a query ends in a `Fault`.
-/

set_option autoImplicit false

namespace Kerf.Stock

open Kerf.Scalar

structure Crossing where
  place : Vec
  /-- The outward normal of the surface. -/
  away : Vec
  /-- The distance along the line, negative behind its origin. -/
  along : Float

/-- A query that has no answer. -/
inductive Fault where
  /-- No face of a block is at a comparable distance. -/
  | noFace
  deriving DecidableEq, Repr

/-- The slack in deciding whether a crossing lies within a face. -/
def faceSlack : Float := 1e-9

/-- Crossings closer than this along the line are one crossing at an edge. -/
def mergeDistance : Float := 1e-9

/-! ## Crossings with the whole line -/

/-- One coordinate of a line in the frame of a block: its origin, its slope and the half size. -/
structure Span where
  origin : Float
  slope : Float
  half : Float

/-- Whether a point of the line is between the two faces across one coordinate. -/
def Span.holds (span : Span) (along : Float) : Bool :=
  !((span.origin + span.slope * along).abs > span.half + faceSlack)

/-- The crossings with the two faces across each coordinate, lower face first. -/
def Box.crossings (box : Box) (p direction : Vec) (growth : Float) : List Crossing :=
  let origin := (box.toLocal (p - box.center)).components
  let slope := (box.toLocal direction).components
  let half := (box.halfSize growth).components
  let spans := (origin.zip (slope.zip half)).map fun (o, s, h) => Span.mk o s h
  ((spans.zip box.axes).zipIdx).flatMap fun ((span, axis), index) =>
    if span.slope.abs < shortLength then []
    else
      let others := spans.eraseIdx index
      [-1.0, 1.0].filterMap fun side =>
        let along := (side * span.half - span.origin) / span.slope
        if others.all (·.holds along) then
          some { place := p + direction.scale along, away := axis.scale side, along }
        else none

/-- The crossings with the two end discs and then with the mantle. -/
def Cylinder.crossings (cylinder : Cylinder) (p direction : Vec) (growth : Float) :
    List Crossing :=
  let relative := p - cylinder.base
  let originAlong := relative.dot cylinder.axis
  let slopeAlong := direction.dot cylinder.axis
  let originAcross := relative - cylinder.axis.scale originAlong
  let slopeAcross := direction - cylinder.axis.scale slopeAlong
  let radius := cylinder.radius + growth
  let low := -growth
  let high := cylinder.height + growth
  let ends :=
    if slopeAlong.abs > shortLength then
      [(low, -1.0), (high, 1.0)].filterMap fun (level, side) =>
        let along := (level - originAlong) / slopeAlong
        if (originAcross + slopeAcross.scale along).length <= radius + faceSlack then
          some { place := p + direction.scale along, away := cylinder.axis.scale side, along }
        else none
    else []
  let square := slopeAcross.dot slopeAcross
  let mantle :=
    if square > shortLengthSquared then
      let linear := 2 * originAcross.dot slopeAcross
      let constant := originAcross.dot originAcross - radius * radius
      let discriminant := linear * linear - 4 * square * constant
      if discriminant >= 0 then
        let root := discriminant.sqrt
        [(-linear - root) / (2 * square), (-linear + root) / (2 * square)].filterMap fun along =>
          let level := originAlong + slopeAlong * along
          if level < low - faceSlack || level > high + faceSlack then none
          else
            let radial := originAcross + slopeAcross.scale along
            some { place := p + direction.scale along, away := radial.unit, along }
      else []
    else []
  ends ++ mantle

/-- Joins neighbouring crossings that coincide, blending their normals. The joined entry keeps the
place of the first. -/
def mergeCrossings : List Crossing → List Crossing
  | [] => []
  | first :: rest => go first rest
where
  go (last : Crossing) : List Crossing → List Crossing
    | [] => [last]
    | next :: rest =>
        if next.along - last.along < mergeDistance then
          go { last with away := (last.away + next.away).unit } rest
        else last :: go next rest

/-- Every crossing of the whole line with the form grown by a distance, in order along the line. -/
def Form.lineCrossings (form : Form) (p direction : Vec) (growth : Float) : List Crossing :=
  let all :=
    match form.shape with
    | .box box => box.crossings p direction growth
    | .cylinder cylinder => cylinder.crossings p direction growth
  mergeCrossings (Sorting.byInsertion (fun c d => c.along < d.along) all)

/-! ## The way out -/

/-- A face whose normal is aligned with the line beyond this does not lead out of its way. -/
def headOn : Float := 0.7

/-- Whether leaving along a normal would only follow the line. A zero line has no direction. -/
def followsLine (line normal : Vec) : Bool := !line.isShort && (normal.dot line).abs > headOn

/-- The way to the nearest face of a block and the distance to it. -/
def Box.wayOut (box : Box) (tolerance : Float) (q line : Vec) : Except Fault (Vec × Float) :=
  let offsets := (box.toLocal (q - box.center)).components
  let halves := (box.halfSize tolerance).components
  let faces := (box.axes.zip (offsets.zip halves)).filter fun (axis, _) => !followsLine line axis
  let nearest := faces.foldl
    (fun (best : Option (Vec × Float) × Float) (axis, offset, half) =>
      let distance := half - offset.abs
      if distance < best.2 then (some (axis, offset), distance) else best)
    (none, infinity)
  match nearest with
  | (some (axis, offset), distance) => .ok (axis.scale (if offset < 0 then -1 else 1), distance)
  | (none, _) => .error .noFace

/-- The way to the nearest end or to the mantle of a cylinder and the distance to it. Where the
mantle would only follow the line, the way leads sideways across the line instead. -/
def Cylinder.wayOut (cylinder : Cylinder) (tolerance : Float) (q line : Vec) : Vec × Float :=
  let relative := q - cylinder.base
  let level := relative.dot cylinder.axis
  let radial := relative - cylinder.axis.scale level
  let toEnd : Vec × Float :=
    if followsLine line cylinder.axis then (Vec.zero, infinity)
    else
      let toBase := level + tolerance
      let toTop := cylinder.height + tolerance - level
      if toTop < toBase then (cylinder.axis, toTop) else (cylinder.axis.scale (-1), toBase)
  let outward := radial.unit
  let outward := if outward.isShort then cylinder.axis.perpendicular else outward
  let side :=
    if followsLine line outward then
      let across := (cylinder.axis.cross line).unit
      if across.dot radial < 0 then -across else across
    else outward
  let toMantle := cylinder.radius + tolerance - radial.dot side
  if toMantle < toEnd.2 then (side, toMantle) else toEnd

/-- The outward direction from a point to the nearest surface of the material and the distance to
it, passing over surfaces that face along a line. -/
def Form.wayOut (form : Form) (q line : Vec) : Except Fault (Vec × Float) :=
  match form.shape with
  | .box box => box.wayOut form.clearance.materialTolerance q line
  | .cylinder cylinder => .ok (cylinder.wayOut form.clearance.materialTolerance q line)

/-! ## Rays and segments -/

/-- The crossings ahead on a ray, and a point inside the crossed material with its way out. -/
structure Passage where
  hits : List Crossing
  middle : Vec
  outward : Vec
  outwardDistance : Float

def Passage.empty : Passage := ⟨[], Vec.zero, Vec.zero, 0⟩

/-- The distance to the first crossing, zero without one. -/
def Passage.firstAlong (passage : Passage) : Float := (passage.hits.head?.map (·.along)).getD 0

/-- The distance to the last crossing, zero without one. -/
def Passage.lastAlong (passage : Passage) : Float := (passage.hits.getLast?.map (·.along)).getD 0

/-- A point between two others, nearer to the first. -/
def biasedMiddle (a b : Vec) : Vec := (a.scale 1.5 + b).shrink 2.5

/-- How far the surface of a form lies outside its nominal one for a query with a tolerance. -/
def Form.growth (form : Form) (tolerance : Float) : Float :=
  tolerance + form.clearance.materialTolerance

/-- Casts a ray against a form grown by a tolerance and keeps the crossings at or ahead of its
origin. -/
def Form.castRay (form : Form) (p direction : Vec) (tolerance : Float) : Except Fault Passage :=
  let all := form.lineCrossings p direction.unit (form.growth tolerance)
  let hits := all.filter fun crossing => crossing.along >= -mergeDistance
  match hits.head?, hits.getLast? with
  | some first, some last => do
      let middle := biasedMiddle first.place last.place
      let (outward, outwardDistance) ← form.wayOut middle Vec.zero
      return { hits, middle, outward, outwardDistance }
  | _, _ => .ok .empty

/-- The slack in deciding whether a segment passes through material. -/
def segmentSlack : Float := 1e-7

/-- Whether the segment between two points passes through a form grown by a tolerance, with the
crossings of the ray from the first point. Touching the surface, or only an end of the segment,
does not count. For a segment that passes through, the middle is that of the part inside. -/
def Form.castSegment (form : Form) (a b : Vec) (tolerance : Float) :
    Except Fault (Bool × Passage) := do
  let span := b - a
  let size := span.length
  if size < shortLength then return (false, .empty)
  let direction := span.shrink size
  let passage ← form.castRay a direction tolerance
  let all := form.lineCrossings a direction (form.growth tolerance)
  match all with
  | first :: _ :: _ =>
      let enter := first.along
      let leave := (all.getLast?.map (·.along)).getD 0
      let low := Scalar.max enter 0
      let high := Scalar.min leave size
      if high - low <= segmentSlack || enter >= size - segmentSlack || leave <= segmentSlack then
        return (false, passage)
      let middle := biasedMiddle (a + direction.scale low) (a + direction.scale high)
      let (outward, outwardDistance) ← form.wayOut middle direction
      return (true, { passage with middle, outward, outwardDistance })
  | _ => return (false, passage)

end Kerf.Stock
