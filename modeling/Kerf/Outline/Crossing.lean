import Kerf.Outline.Ring
import Kerf.Sorting

/-!
# Crossings of a ring with itself

A ring is split at every place where two of its edges cross or touch. The pieces still form one
closed walk along the ring.
-/

set_option autoImplicit false

namespace Kerf.Outline

open Kerf.Scalar

/-- The cross product of the steps from one grid point to two others. -/
def orientation (a b c : Node) : Int64 :=
  (b.x - a.x) * (c.y - a.y) - (b.y - a.y) * (c.x - a.x)

/-- Where a grid point lies on a segment, as a fraction of it; nothing unless it lies strictly
between the ends. -/
def interior (q a b : Node) : Option Float :=
  if orientation a b q != 0 then none
  else
    let dx := b.x - a.x
    let dy := b.y - a.y
    let along := (q.x - a.x) * dx + (q.y - a.y) * dy
    let whole := dx * dx + dy * dy
    if along ≤ 0 || whole ≤ along then none else some (ofWord along / ofWord whole)

def boxesMeet (e f : Edge) : Bool :=
  min f.source.x f.target.x ≤ max e.source.x e.target.x &&
    min e.source.x e.target.x ≤ max f.source.x f.target.x &&
    min f.source.y f.target.y ≤ max e.source.y e.target.y &&
    min e.source.y e.target.y ≤ max f.source.y f.target.y

/-- A place where an edge has to be split. -/
structure Cut where
  fraction : Float
  place : Node

/-- Where two edges cross: the fractions of both and the nearest grid point. Edges that only touch
do not cross. -/
def properCrossing (e f : Edge) : Option (Float × Float × Node) :=
  let o1 := ofWord (orientation e.source e.target f.source)
  let o2 := ofWord (orientation e.source e.target f.target)
  let o3 := ofWord (orientation f.source f.target e.source)
  let o4 := ofWord (orientation f.source f.target e.target)
  if o1 == 0 || o2 == 0 || o3 == 0 || o4 == 0 || (o1 > 0) == (o2 > 0) || (o3 > 0) == (o4 > 0) then none
  else
    let fraction := o3 / (o3 - o4)
    let step := e.source.stepTo e.target
    let start := e.source.toPlanar
    some (fraction, o1 / (o1 - o2),
      ⟨roundToWord (start.x + fraction * step.x), roundToWord (start.y + fraction * step.y)⟩)

/-! ## Splitting -/

/-- Walks through cuts in order and on to the end, leaving out steps of no length. -/
def walk (source target : Node) : List Cut → List Edge
  | [] => if target = source then [] else [⟨source, target⟩]
  | cut :: rest =>
      if cut.place = source then walk source target rest
      else ⟨source, cut.place⟩ :: walk cut.place target rest

def pieces (edge : Edge) (cuts : List Cut) : List Edge :=
  walk edge.source edge.target (Sorting.byInsertion (fun c d => c.fraction < d.fraction) cuts)

/-- How grid points and edges are compared when a ring is split. -/
structure Sight where
  /-- Where a grid point lies inside a segment, as a fraction of it. -/
  interior : Node → Node → Node → Option Float
  /-- Where two edges cross: the fractions of both and the nearest grid point. -/
  crossing : Edge → Edge → Option (Float × Float × Node)

namespace Sight

def words : Sight := ⟨Outline.interior, properCrossing⟩

/-- The cuts where ends of one edge touch the inside of another. -/
def touches (sight : Sight) (e f : Edge) : List Cut :=
  [f.source, f.target].filterMap fun node =>
    (sight.interior node e.source e.target).map fun fraction => ⟨fraction, node⟩

/-- The cuts that a later edge of the ring makes in an edge, if the two are looked at. -/
def cutsByLater (sight : Sight) (looks : Edge → Edge → Bool) (e later : Edge) : List Cut :=
  if looks e later then
    sight.touches e later ++
      (sight.crossing e later).toList.map fun (fraction, _, place) => ⟨fraction, place⟩
  else []

def cutsByEarlier (sight : Sight) (looks : Edge → Edge → Bool) (e earlier : Edge) : List Cut :=
  if looks earlier e then
    sight.touches e earlier ++
      (sight.crossing earlier e).toList.map fun (_, fraction, place) => ⟨fraction, place⟩
  else []

/-- Splits edges in order. The edges already split are kept in reverse order. -/
def splitFrom (sight : Sight) (looks : Edge → Edge → Bool) (earlier : List Edge) :
    List Edge → List Edge
  | [] => []
  | edge :: later =>
      let cuts := earlier.reverse.flatMap (sight.cutsByEarlier looks edge) ++
        later.flatMap (sight.cutsByLater looks edge)
      pieces edge cuts ++ sight.splitFrom looks (edge :: earlier) later

/-- Splits a ring, looking only at some pairs of its edges. -/
def split (sight : Sight) (looks : Edge → Edge → Bool) (ring : Ring) : List Edge :=
  sight.splitFrom looks [] ring.edges

end Sight

/-- Splits a ring wherever its edges cross or touch. Edges with separate boxes are not looked at. -/
def split (ring : Ring) : List Edge := Sight.words.split boxesMeet ring

end Kerf.Outline
