import Kerf.Machine.Basic
import Kerf.Route.Line
import Kerf.Stock.Bubble
import Kerf.Toolpath.Path

/-!
# Turning the tool along a line

On a machine that turns the tool, a line is sampled so finely that no step turns the tool far, and
at every sample the whole tool has to be clear of stock.
-/

set_option autoImplicit false

namespace Kerf.Route

open Kerf.Scalar
open Kerf.Stock (Form Fault)

/-- The largest rotation between two samples: a sixtieth of a turn. -/
def maxTurn : Float := 0.10471975511965978

/-- The part of a whole that a length is; everything for a whole of no length. -/
def fractionOf (length whole : Float) : Float :=
  if whole < shortLength then 1 else Scalar.min (length / whole) 1

/-- The number of steps for a rotation; at least one. -/
def turnSteps (rotation : Float) : Nat :=
  let count := (toWord (ceiling (rotation / maxTurn))).toInt
  if count < 1 then 1 else count.toNat

/-- The samples of a segment after its first point: each place with its share of the rotation. -/
def sampleSegment (turn : Float) (a b : Vec) (low high : Float) : List (Vec × Float) :=
  let steps := turnSteps ((high - low) * turn)
  (List.range steps).map fun index =>
    let part := (index + 1).toFloat / steps.toFloat
    (a.lerp b part, low + (high - low) * part)

/-- The samples of a line from a point through others, some length of which is behind. The rotation
goes on evenly with the length. -/
def sampleLine (turn whole behind : Float) (a : Vec) : List Vec → List (Vec × Float)
  | [] => []
  | b :: rest =>
      let ahead := behind + (b - a).length
      sampleSegment turn a b (fractionOf behind whole) (fractionOf ahead whole) ++
        sampleLine turn whole ahead b rest

def gouges (tool : Tool) (point : Point) : List Form → Except Fault Bool
  | [] => .ok false
  | form :: rest => do
      let length := tool.effectiveLength
      if form.contains point.position 0 then return true
      let (crosses, _) ←
        if length > 0 then
          form.castSegment point.position (point.position + point.direction.scale length) 0
        else .ok (false, .empty)
      if crosses then return true
      gouges tool point rest

/-- Points of which none fails a test, or nothing. Testing stops at the first failure. -/
def allClear {ε : Type} (fails : Point → Except ε Bool) : Track → Except ε (Option Track)
  | [] => .ok (some [])
  | point :: rest => do
      if ← fails point then return none
      return (← allClear fails rest).map (point :: ·)

/-- The points between two others along a line, turning one way. The line is given by the points
after its first. -/
def turningPoints (machine : Machine) (line : List Vec) (source target : Point) (long : Bool) :
    Track :=
  let whole := Polyline.length (source.position :: line)
  let turn := machine.angularDistance source target long
  (sampleLine turn whole 0 source.position line).dropLast.map fun (place, fraction) =>
    { target.rapid with
      position := place
      direction := (machine.interpolate source target fraction long).direction }

end Kerf.Route
