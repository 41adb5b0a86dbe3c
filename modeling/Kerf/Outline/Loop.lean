import Kerf.Outline.Crossing

/-!
# Boundary loops

The pieces of a ring that bound the region it winds around are chained into closed loops. Where
several pieces leave a point, the sharpest left turn keeps loops that only touch apart.
-/

set_option autoImplicit false

namespace Kerf.Outline

open Kerf.Scalar

/-! ## Winding -/

/-- Points just left and right of the middle of an edge. -/
def sides (edge : Edge) : Planar × Planar :=
  let d := edge.source.stepTo edge.target
  let length := hypot d.x d.y
  let h := Scalar.min 0.25 (length / 8) / length
  let p := edge.source.toPlanar
  let q := edge.target.toPlanar
  let mx := (p.x + q.x) / 2
  let my := (p.y + q.y) / 2
  (⟨mx - d.y * h, my + d.x * h⟩, ⟨mx + d.y * h, my - d.x * h⟩)

/-- What one edge of a ring adds to the winding number about a point. -/
def windingStep (p : Planar) (edge : Edge) : Int :=
  let a := edge.source.toPlanar
  let b := edge.target.toPlanar
  let d := edge.source.stepTo edge.target
  let side := d.x * (p.y - a.y) - (p.x - a.x) * d.y
  if a.y <= p.y then if b.y > p.y && side > 0 then 1 else 0
  else if b.y <= p.y && side < 0 then -1
  else 0

/-- How many times edges wind counter-clockwise around a point. -/
def winding (edges : List Edge) (p : Planar) : Int :=
  edges.foldl (fun count edge => count + windingStep p edge) 0

/-- Whether a piece of a ring has the region that the ring winds around on its left only. -/
def isBoundary (edges : List Edge) (piece : Edge) : Bool :=
  let (left, right) := sides piece
  winding edges left > 0 && winding edges right ≤ 0

/-! ## Chaining -/

/-- How far an edge turns left from another. -/
def turnBetween (into out : Edge) : Float :=
  let i := into.source.stepTo into.target
  let o := out.source.stepTo out.target
  Trig.direction (i.x * o.y - i.y * o.x) (i.x * o.x + i.y * o.y)

/-- The index of the edge that continues an edge with the sharpest left turn, the first of equally
sharp ones. -/
def leftmost (into : Edge) (unused : List Edge) : Option Nat :=
  (unused.zipIdx.foldl
    (fun (best : Option Nat × Float) (edge, index) =>
      if edge.source = into.target then
        let turn := turnBetween into edge
        if turn > best.2 then (some index, turn) else best
      else best)
    (none, -infinity)).1

/-- Follows edges from one until the loop closes or no edge continues. The corners passed are in
reverse order; the edges left over are returned. -/
def follow (first : Node) (into : Edge) (corners : List Node) (unused : List Edge) :
    Option Ring × List Edge :=
  if into.target = first then (some corners.reverse, unused)
  else
    match leftmost into unused with
    | none => (none, unused)
    | some index =>
        if h : index < unused.length then
          let next := unused[index]
          follow first next (next.source :: corners) (unused.eraseIdx index)
        else (none, unused)
termination_by unused.length
decreasing_by
  rw [List.length_eraseIdx_of_lt h]
  omega

/-- Following edges never adds any. -/
theorem length_follow_le (first : Node) (into : Edge) (corners : List Node) (unused : List Edge) :
    (follow first into corners unused).2.length ≤ unused.length := by
  fun_induction follow first into corners unused with
  | case1 => simp
  | case2 => simp
  | case3 _ _ _ _ _ _ h _ ih =>
      rw [List.length_eraseIdx_of_lt h] at ih
      omega
  | case4 => simp

/-- Chains edges into closed loops. Edges that lead nowhere are dropped. -/
def link (edges : List Edge) : List Ring :=
  match edges with
  | [] => []
  | edge :: rest =>
      let result := follow edge.source edge [edge.source] rest
      result.1.toList ++ link result.2
termination_by edges.length
decreasing_by
  have := length_follow_le edge.source edge [edge.source] rest
  simp only [List.length_cons]
  omega

/-- The loops that bound the region a ring winds around, running the same way round. -/
def resolve (raw : Ring) (counterClockwise : Bool) : List Ring :=
  let ring := Ring.clean raw
  if ring.length < 3 then []
  else
    let ring := if counterClockwise then ring else ring.reverse
    let kept := (split ring).filter (isBoundary ring.edges)
    ((link kept).map Ring.clean).filterMap fun (loop : Ring) =>
      if loop.length < 3 || loop.doubleArea == 0 then none
      else some (if counterClockwise then loop else loop.reverse)

end Kerf.Outline
