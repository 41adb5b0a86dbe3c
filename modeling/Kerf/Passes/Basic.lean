import Kerf.Passes.Approach
import Kerf.Passes.Finish
import Kerf.Passes.Height
import Kerf.Passes.Lead
import Kerf.Passes.Refine
import Kerf.Passes.Rough
import Kerf.Passes.Sideways

/-!
# From a path to its passes

The stages asked for on a path expand it into the passes that a machine can cut: it is moved
sideways and to the cutting surface, roughed in levels and finished in skins, and each pass gets
leads and approaches. Nothing but the points of the path changes, and no stage is left to run.
-/

set_option autoImplicit false

namespace Kerf

open Kerf.Stock (Form Fault)

inductive PassError where
  /-- The tool or stock is not known. -/
  | context (cause : PathError)
  | noPoints (path : String)
  /-- The sideways move left nothing. -/
  | collapsed
  /-- A stock query has no answer. -/
  | fault (cause : Fault)
  deriving DecidableEq, Repr

def PassError.message : PassError → String
  | .context cause => cause.message
  | .noPoints path => "pipeline: path " ++ Text.quoted path ++ " has no points"
  | .collapsed => "pipeline: offset removed the whole path"
  | .fault _ => ""

namespace Track

/-- Moves a track to the cutting surface if that is asked for. A machine that turns the tool leaves
it and warns. -/
def atSurface (machine : Machine) (tool : Tool) (additions : Additions) (track : Track) : Track :=
  if !additions.heightOffset then track
  else if machine.isFiveAxis then track.warnFirst heightOnFiveAxis
  else track.followSurface tool

def depthPasses (machine : Machine) (tool : Tool) (form : Form) (additions : Additions)
    (track : Track) : Except Fault (List Track) := do
  if additions.stepDown then
    let track ← refine machine form track
    let rough ← roughing tool form additions track
    return rough ++ finishing additions.onion track
  else return finishing additions.onion track

/-- Adds what is asked for at the ends of a pass. -/
def withEnds (tool : Tool) (form : Form) (additions : Additions) (track : Track) :
    Except Fault Track := do
  let track := if additions.lead != 0 then withLeads tool additions.lead track else track
  let track ← if additions.insert then withApproach tool form track else pure track
  if additions.retract then withRetreat tool form track else pure track

def passesOf (machine : Machine) (tool : Tool) (form : Form) (additions : Additions)
    (loops : List Track) : Except Fault (List Track) := do
  let passes ← loops.mapM fun loop =>
    depthPasses machine tool form additions (atSurface machine tool additions loop)
  passes.flatten.mapM (withEnds tool form additions)

end Track

namespace Path

/-- The loops that a path is moved sideways to. -/
def loops (tool : Tool) (path : Path) : Option (List Track) :=
  if path.additions.offset != 0 then path.points.sideways tool path.additions.offset
  else some [path.points]

/-- The same path along other points, with nothing left to run. -/
def along (path : Path) (points : Track) : Path :=
  { path with points, additions := .resolved }

/-- The passes of a path on a machine, in the order of cutting. -/
def passes (machine : Machine) (path : Path) : Except PassError (List Path) := do
  let (tool, form) ← path.context.mapError .context
  if path.points.isEmpty then throw (.noPoints path.name)
  match path.loops tool with
  | none => throw .collapsed
  | some loops =>
      let tracks ← (Track.passesOf machine tool form path.additions loops).mapError .fault
      return tracks.map path.along

end Path

end Kerf
