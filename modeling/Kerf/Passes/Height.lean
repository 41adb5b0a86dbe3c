import Kerf.Toolpath.Path

/-!
# Following a track with the cutting surface

A tool that touches a slope with its side has to run off the slope with its tip. Every segment of
the track is moved for that, and consecutive moved segments are joined where they meet.
-/

set_option autoImplicit false

namespace Kerf.Track

open Kerf.Scalar

/-- Attached to a track on a machine that turns the tool instead. -/
def heightOnFiveAxis : String := "Height offset skipped on a 5-axis machine"

/-- The steepest slope that a flat cutting end is lifted for. -/
def maxSlope : Float := 100

/-- How far the tip moves off a segment for the tool to touch it with its side. -/
def surfaceShift (tool : Tool) (span : Vec) : Vec :=
  let radius := tool.radius
  let run := hypot span.x span.y
  if run < shortLength || radius <= 0 then Vec.zero
  else
    match tool.tip with
    | .ball =>
        let normal := (Vec.zAxis - span.scale (span.z / span.lengthSquared)).unit
        normal.scale radius - Vec.zAxis.scale radius
    | .square => Vec.zAxis.scale (radius * Scalar.min (span.z.abs / run) maxSlope)
    | .v | .other => Vec.zero

/-- A moved segment and where the motion enters it. -/
structure SurfaceLine where
  origin : Vec
  /-- The whole segment. -/
  span : Vec
  /-- The point at the start of the segment. -/
  source : Point
  enter : Vec
  /-- Where the motion enters, in parts of the segment. -/
  enterAt : Float

/-- Joins a line to a chain, whose latest line comes first. A join that would make the motion run
backwards along the latest line drops that line, unless it is the only one. -/
def joinLine (line : SurfaceLine) : List SurfaceLine → List SurfaceLine
  | [] => [line]
  | top :: rest =>
      match closestOnLines top.origin top.span line.origin line.span with
      | none => line :: top :: rest
      | some (leaveAt, enterAt) =>
          if leaveAt < top.enterAt - shortLength && !rest.isEmpty then joinLine line rest
          else
            let leave := top.origin + top.span.scale leaveAt
            let enter := (leave.lerp (line.origin + line.span.scale enterAt) 0.5)
            { line with enter, enterAt } :: top :: rest

/-- Extends a chain by the segments of a track. Segments of no length are passed over. -/
def extendChain (tool : Tool) (chain : List SurfaceLine) : Track → List SurfaceLine
  | a :: b :: rest =>
      let span := b.position - a.position
      let chain :=
        if span.length < shortLength then chain
        else
          let origin := a.position + surfaceShift tool span
          joinLine { origin, span, source := a, enter := origin, enterAt := 0 } chain
      extendChain tool chain (b :: rest)
  | _ => chain

/-- Moves a track so that the cutting surface follows it. A track without extent stays. -/
def followSurface (tool : Tool) (track : Track) : Track :=
  match extendChain tool [] track, track.getLast? with
  | final :: earlier, some last =>
      (final :: earlier).reverse.map (fun line => line.source.moveTo line.enter) ++
        [last.moveTo (final.origin + final.span)]
  | _, _ => track

end Kerf.Track
