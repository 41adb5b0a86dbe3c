import Kerf.Stock.Bubble
import Kerf.Toolpath.Path

/-!
# Approaching and leaving

A track is approached from the edge of the safety bubble straight along the tool axis, and left the
same way.
-/

set_option autoImplicit false

namespace Kerf.Track

open Kerf.Stock (Form Fault)

/-- The rapid point straight above another at the edge of the safety bubble, unless it is too close
to matter. -/
def above (tool : Tool) (form : Form) (point : Point) : Except Fault (Option Point) := do
  let place ← form.lift point.position point.direction
  if (place - point.position).length < tool.effectiveMinStep then return none
  return some (point.rapid.moveTo place)

/-- The plunge: a point without a feed of its own takes the plunge feed, if there is one. -/
def plunge (tool : Tool) (point : Point) : Point :=
  if tool.feedPlunge > 0 && point.feed < 0 then { point with feed := tool.feedPlunge } else point

/-- Starts a track with an approach to its first point, which becomes a plunge. -/
def withApproach (tool : Tool) (form : Form) : Track → Except Fault Track
  | [] => .ok []
  | first :: rest => do
      match ← above tool form first with
      | none => return first :: rest
      | some approach => return approach :: plunge tool first :: rest

/-- Ends a track with a retreat from its last point. -/
def withRetreat (tool : Tool) (form : Form) (track : Track) : Except Fault Track :=
  match track.getLast? with
  | none => .ok track
  | some last => do
      let leave ← above tool form last
      return track ++ leave.toList

end Kerf.Track
