import Kerf.Toolpath.Path

/-!
# Lead arcs

A flat track is entered and left on arcs that touch it and turn away until the tool is clear of the
whole track.
-/

set_option autoImplicit false

namespace Kerf.Track

open Kerf.Scalar

/-- Attached to a track that is not flat and so gets no leads. -/
def leadNotFlat : String := "Lead skipped on a path that is not flat"

/-- Attached to an end of a track where no lead turns clear. -/
def leadBlocked : String := "No clear lead found"

/-- The angle between the samples of a lead: at most a twelfth of a turn, and small enough to keep
its chords within a tolerance, but not under a degree. -/
def leadStep (radius tolerance : Float) : Float :=
  let widest := 0.5235987755982989
  Scalar.max
    (if radius > tolerance then
      Scalar.min widest (2 * Trig.arcCosine (1 - tolerance / radius))
    else widest)
    radiansPerDegree

/-- The angles of the samples of a lead, up to half a turn. -/
def leadAngles (step angle : Float) : Nat → List Float
  | 0 => []
  | limit + 1 =>
      if angle <= 3.141592653590793 then angle :: leadAngles step (angle + step) limit else []

/-- Samples that steps of at least a degree need for half a turn, and some to spare. -/
def maxLeadSamples : Nat := 200

/-- Takes samples up to and with the first one that is clear, or nothing when none is. -/
def untilClear (isClear : Vec → Bool) : List Vec → Option (List Vec)
  | [] => none
  | sample :: rest =>
      if isClear sample then some [sample]
      else (untilClear isClear rest).map (sample :: ·)

/-- What a lead has to respect: the track, how far to get away from it, and the arc. -/
structure LeadPlan where
  track : Polyline
  clearance : Float
  radius : Float
  tolerance : Float
  /-- One for an arc centred on the left of travel, minus one on the right. -/
  side : Float

/-- The samples of an arc that leaves a point along a direction and turns counter-clockwise for a
positive and clockwise for a negative `turning`, from the point outward. -/
def leadArc (plan : LeadPlan) (start along : Vec) (turning : Float) : Option (List Vec) :=
  let along := Vec.unit ⟨along.x, along.y, 0⟩
  if along.isShort || plan.radius <= 0 then none
  else
    let normal := along.rotate Vec.zAxis (plan.side * pi / 2)
    let center := start + normal.scale plan.radius
    let step := leadStep plan.radius plan.tolerance
    let samples := (leadAngles step step maxLeadSamples).map fun angle =>
      center + (start - center).rotate Vec.zAxis (turning * angle)
    untilClear (fun sample => plan.track.distanceFrom sample > plan.clearance) samples

/-- The lead plan of a track. The sign of the factor picks the side, and its size is the radius in
tool widths. -/
def leadPlan (tool : Tool) (factor : Float) (track : Track) : LeadPlan :=
  { track := track.positions
    clearance := tool.effectiveInsertWidth / 2
    radius := factor.abs * tool.width
    tolerance := tool.effectiveTolerance
    side := if factor < 0 then -1 else 1 }

def leadIn (plan : LeadPlan) : Track → Option Track
  | first :: second :: _ =>
      (leadArc plan first.position (second.position - first.position) (-plan.side)).map
        fun samples => samples.reverse.map first.motion
  | _ => none

def leadOut (plan : LeadPlan) (track : Track) : Option Track :=
  match track.reverse with
  | last :: previous :: _ =>
      (leadArc plan last.position (last.position - previous.position) plan.side).map
        fun samples => samples.map last.motion
  | _ => none

/-- Adds leads at both ends of a flat track of at least two points. An end without a clear lead gets
a warning instead. -/
def withLeads (tool : Tool) (factor : Float) (track : Track) : Track :=
  if track.length < 2 then track
  else if !track.isFlat then track.warnFirst leadNotFlat
  else
    let plan := leadPlan tool factor track
    let before := leadIn plan track
    let after := leadOut plan track
    let track := if before.isSome then track else track.warnFirst leadBlocked
    let track := if after.isSome then track else track.warnLast leadBlocked
    before.getD [] ++ track ++ after.getD []

end Kerf.Track
