import Kerf.Machine.Writer
import Kerf.Route.Basic

/-!
# Transitions between paths

From the end of one path to the start of the next the tool takes a safe route, if both ends are
clear of the stocks of the two paths. From within a safety bubble it goes straight on, and a long
way counts as an error.
-/

set_option autoImplicit false

namespace Kerf

open Kerf.Stock (Form Fault)
open Kerf.Route (RouteError)

/-- Counted for a long way between two paths that starts or ends in a safety bubble. -/
def longTransition : String := "Long transition between paths may pass through material"

/-- Counted for such a way into an operation. -/
def longEntry : String := "Long transition into an operation may pass through material"

inductive TransitionError where
  /-- The path to go to has no tool or stock. -/
  | context (cause : PathError)
  | route (source target : String) (cause : RouteError)
  deriving DecidableEq, Repr

def TransitionError.message : TransitionError → String
  | .context cause => cause.message
  | .route source target .noSafeTurn =>
      "route: no safe move from " ++ Text.quoted source ++ " to " ++ Text.quoted target
  | .route source target cause => "route: " ++ source ++ " to " ++ target ++ ": " ++ cause.message

namespace Route

/-- The distinct stocks at both ends of a transition. -/
def stocks (source : Option Form) (target : Form) : List Form :=
  match source with
  | none => [target]
  | some source => if source.same target then [source] else [source, target]

/-- Whether one of two places lies in the safety bubble of one of some forms. -/
def inMaterial (forms : List Form) (a b : Vec) (tolerance : Float) : Bool :=
  forms.any fun form => form.inBubble a tolerance || form.inBubble b tolerance

end Route

namespace Machine

/-- Writes the moves from the end of one path to the start of the next, if both have points. -/
def writeTransition (machine : Machine) (program : Program) (source : Option Path) (target : Path)
    (entry : Bool) : Except TransitionError Program :=
  match source.bind (·.points.getLast?), target.points.head? with
  | some last, some first => do
      let (tool, form) ← target.context.mapError .context
      let forms := Route.stocks (source.bind (·.form)) form
      if Route.inMaterial forms last.position first.position tool.effectiveTolerance then
        if (last.position - first.position).length > machine.dialect.pathJump then
          return program.fail (if entry then longEntry else longTransition)
        else return program
      else
        let name := (source.map (·.name)).getD ""
        let points ← (Route.between machine tool forms last first).mapError (.route name target.name)
        return machine.writeMoves program (some tool) points
  | _, _ => .ok program

end Machine

end Kerf
