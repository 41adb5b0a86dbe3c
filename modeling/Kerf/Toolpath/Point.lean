import Kerf.Geometry.Vec

/-!
# Tool points

One position of the tool with its direction, its motion and what is attached to it: code to be
written before and after the move, and messages.
-/

set_option autoImplicit false

namespace Kerf

/-- One tool position. The direction points from the tip back to the spindle. -/
structure Point where
  position : Vec
  direction : Vec
  /-- Zero is a rapid move; a negative feed is taken from the tool. -/
  feed : Float := -1
  /-- A negative speed is taken from the tool. -/
  speed : Float := -1
  preCode : String := ""
  postCode : String := ""
  warnings : List String := []
  errors : List String := []
  deriving DecidableEq, Inhabited

namespace Point

/-- A point with feed and speed not set. A short direction becomes straight up. -/
def make (position direction : Vec) : Point :=
  let unit := direction.unit
  { position, direction := if unit.isShort then Vec.zAxis else unit }

def moveTo (point : Point) (position : Vec) : Point := { point with position }

def lifted (point : Point) (height : Float) : Point :=
  point.moveTo (point.position + point.direction.scale height)

/-- The place, direction, feed and speed of a point alone. -/
def motion (point : Point) (position : Vec) : Point :=
  { position, direction := point.direction, feed := point.feed, speed := point.speed }

/-- A rapid move to the point, with nothing attached. -/
def rapid (point : Point) : Point :=
  { position := point.position, direction := point.direction, feed := 0, speed := point.speed }

def addWarning (point : Point) (message : String) : Point :=
  { point with warnings := point.warnings ++ [message] }

end Point

end Kerf
