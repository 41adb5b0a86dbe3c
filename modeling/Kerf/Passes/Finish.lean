import Kerf.Sorting
import Kerf.Toolpath.Path

/-!
# Finish passes

The last passes run along the track itself or in skins above it, the highest first.
-/

set_option autoImplicit false

namespace Kerf.Track

/-- The order of skins: the higher first, and heights that are not numbers last. -/
def higher (a b : Float) : Bool := b < a || (b.isNaN && !a.isNaN)

/-- The heights of the finish passes; one on the track itself unless skins are asked for. -/
def finishHeights (skins : List Float) : List Float :=
  if skins.isEmpty then [0] else Sorting.byInsertion higher skins

/-- The finish passes of a track, each lifted along the tool direction. -/
def finishing (skins : List Float) (track : Track) : List Track :=
  (finishHeights skins).map fun height => track.map (·.lifted height)

end Kerf.Track
