import Kerf.Outline.Offset
import Kerf.Toolpath.Path

/-!
# Moving a track sideways

A flat track is moved sideways in its plane. A closed one grows or shrinks, an open one becomes an
outline, and one that is pinched apart becomes several.
-/

set_option autoImplicit false

namespace Kerf.Track

/-- Attached to a track that is not flat and so cannot be moved sideways. -/
def offsetNotFlat : String := "2D offset skipped on a path that is not flat"

/-- Gives the first point what is attached to another before its move. -/
def takeAttachments (source : Point) : Track → Track
  | [] => []
  | first :: rest =>
      { first with
        preCode := source.preCode
        warnings := source.warnings
        errors := source.errors } :: rest

/-- Lays the corners of a loop at the height and with the motion of a point. -/
def ofLoop (source : Point) (loop : List Planar) : Track :=
  loop.map fun corner => source.motion (corner.lift source.position.z)

/-- Moves a track sideways by a multiple of half the tool width, or nothing when it collapses. What
is attached to the first point goes to the first loop only. -/
def sideways (tool : Tool) (factor : Float) (track : Track) : Option (List Track) :=
  if !track.isFlat then some [track.warnFirst offsetNotFlat]
  else
    match track with
    | [] => none
    | first :: _ =>
        let tolerance := tool.effectiveTolerance
        let corners := track.positions.map Vec.flatten
        match Outline.offset corners (track.isClosed tolerance) (factor * tool.radius) tolerance with
        | [] => none
        | loop :: rest =>
            some (takeAttachments first (ofLoop first loop) :: rest.map (ofLoop first))

end Kerf.Track
