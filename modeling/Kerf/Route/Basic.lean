import Kerf.Route.Turn

/-!
# Routes

The rapid points from one tool point to another that keep clear of all safety bubbles. A machine
that turns the tool tries the short way round and then the long one.
-/

set_option autoImplicit false

namespace Kerf.Route

open Kerf.Stock (Form Fault)

def RouteError.message : RouteError → String
  | .noClearLine => "no clear line after " ++ toString maxVias ++ " via points"
  | .noSafeTurn => "route: no safe move from " ++ Text.quoted "" ++ " to " ++ Text.quoted ""
  | .fault _ => ""

/-- The line from one place to another, without the first. -/
def plan (forms : List Form) (a b : Vec) (tolerance : Float) : Except RouteError (List Vec) := do
  match ← (clearLine (viaPoint tolerance · · forms) a [b] maxVias).mapError .fault with
  | some line => return line
  | none => throw .noClearLine

/-- The points between two others along a line, turning the short way unless only the long way is
clear. -/
def turned (machine : Machine) (tool : Tool) (forms : List Form) (line : List Vec)
    (source target : Point) : Except RouteError Track := do
  let attempt (long : Bool) : Except RouteError (Option Track) :=
    (allClear (gouges tool · forms) (turningPoints machine line source target long)).mapError .fault
  match ← attempt false with
  | some points => return points
  | none =>
      match ← attempt true with
      | some points => return points
      | none => throw .noSafeTurn

/-- The rapid points that lead from one point to another, neither included. -/
def between (machine : Machine) (tool : Tool) (forms : List Form) (source target : Point) :
    Except RouteError Track := do
  let line ← plan forms source.position target.position tool.effectiveTolerance
  if machine.isFiveAxis then turned machine tool forms line source target
  else return line.dropLast.map target.rapid.moveTo

end Kerf.Route
