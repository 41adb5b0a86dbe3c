import Kerf.Scalar

/-!
# Additions

The stages that still have to run on a path before it can be written.
-/

set_option autoImplicit false

namespace Kerf

/-- The stages asked for on a path. -/
structure Additions where
  /-- Approach from the safety bubble. -/
  insert : Bool := false
  /-- Leave to the safety bubble. -/
  retract : Bool := false
  /-- Split deep cuts into roughing levels. -/
  stepDown : Bool := false
  /-- Skip leading points that are already at depth. -/
  dropStart : Bool := false
  /-- Split at finished stretches longer than this; a negative length never splits. -/
  dropMiddle : Float := -1
  /-- Skip trailing points that are already at depth. -/
  dropEnd : Bool := false
  /-- Move the path so that the cutting surface follows it. -/
  heightOffset : Bool := false
  /-- The size of lead arcs in tool widths; the sign picks the side. -/
  lead : Float := 0
  /-- The heights of finish passes above the path. -/
  onion : List Float := []
  /-- The sideways offset in multiples of half the tool width. -/
  offset : Float := 0
  deriving Inhabited

namespace Additions

def resolved : Additions := {}

def pending (additions : Additions) : Bool :=
  additions.insert || additions.retract || additions.stepDown || additions.heightOffset ||
    additions.lead != 0 || !additions.onion.isEmpty || additions.offset != 0

end Additions

end Kerf
