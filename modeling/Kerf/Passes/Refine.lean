import Kerf.Machine.Basic
import Kerf.Stock.Crossing
import Kerf.Toolpath.Path

/-!
# Points at the stock surface

Passes of limited depth look at points only, so points are added wherever a segment crosses the
surface of the stock.
-/

set_option autoImplicit false

namespace Kerf.Track

open Kerf.Stock (Form Fault)

/-- Crossings closer than this to the end of a segment add no point. -/
def refineSlack : Float := 1e-7

/-- The fractions at which a segment of some length is split: at its crossings, and halfway between
two of them. -/
def splitFractions (length : Float) (hits : List Float) : List Float :=
  match (hits.filter fun along => along > refineSlack && along < length - refineSlack).map
      (· / length) with
  | [first, second] => [first, (first + second) / 2, second]
  | fractions => fractions

def between (machine : Machine) (form : Form) (a b : Point) : Except Fault Track := do
  let (crosses, passage) ← form.castSegment a.position b.position 0
  if !crosses then return []
  let length := (b.position - a.position).length
  return (splitFractions length (passage.hits.map (·.along))).map fun fraction =>
    let point := machine.interpolate a b fraction false
    point.motion point.position

/-- Adds points where segments cross the surface, and one inside when a segment passes right
through. -/
def refine (machine : Machine) (form : Form) : Track → Except Fault Track
  | a :: b :: rest => do
      let added ← between machine form a b
      let rest ← refine machine form (b :: rest)
      return a :: (added ++ rest)
  | short => .ok short

end Kerf.Track
