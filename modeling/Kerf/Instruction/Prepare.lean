import Kerf.Instruction.Basic
import Kerf.Passes.Basic
import Kerf.Route.Transition
import Kerf.Toolpath.Validation

/-!
# Preparing an instruction

Before anything is written the context of all paths is filled in, and every path is checked and
expanded into its passes. Invalid paths and paths that collapse are left out and counted.
-/

set_option autoImplicit false

namespace Kerf

/-- What became of one path of an operation. -/
inductive Outcome where
  /-- The path is invalid. -/
  | skipped
  /-- Its sideways move left nothing. -/
  | collapsed (warnings : List String)
  | cut (warnings : List String) (passes : List Path)

namespace Outcome

def passes : Outcome → List Path
  | .cut _ passes => passes
  | _ => []

def warnings : Outcome → List String
  | .skipped => []
  | .collapsed warnings => warnings
  | .cut warnings _ => warnings

def isSkipped : Outcome → Bool
  | .skipped => true
  | _ => false

/-- Whether nothing of the path was left. -/
def isCollapsed : Outcome → Bool
  | .collapsed _ => true
  | _ => false

end Outcome

def Path.prepare (machine : Machine) (path : Path) : Except PassError Outcome :=
  if path.isInvalid then .ok .skipped
  else
    let warnings := path.validate.map (·.issue.message)
    match path.passes machine with
    | .ok passes => .ok (.cut warnings passes)
    | .error .collapsed => .ok (.collapsed warnings)
    | .error cause => .error cause

/-- An operation whose paths have been prepared. -/
structure Prepared where
  name : String
  outcomes : List Outcome

def Prepared.passes (prepared : Prepared) : List Path := prepared.outcomes.flatMap (·.passes)

def Operation.prepare (machine : Machine) (operation : Operation) : Except PassError Prepared := do
  let outcomes ← operation.paths.mapM (·.prepare machine)
  return { name := operation.name, outcomes }

inductive CompileError where
  | noMachine
  /-- A path has no tool or stock. -/
  | context (cause : PathError)
  /-- A path of an operation has no passes. -/
  | operation (name : String) (cause : PassError)
  /-- The motion before or after the operations has no passes. -/
  | ends (cause : PassError)
  | transition (cause : TransitionError)
  deriving DecidableEq, Repr

def CompileError.message : CompileError → String
  | .noMachine => "emit: instruction has no machine"
  | .context cause => cause.message
  | .operation name cause => "emit: operation " ++ Text.quoted name ++ ": " ++ cause.message
  | .ends cause => cause.message
  | .transition cause => cause.message

namespace Instruction

/-- The operations with all context filled in, up to the first path that stays without. -/
def resolveOperations (instruction : Instruction) : Except CompileError (List Operation) :=
  instruction.operations.mapM fun operation =>
    match operation.resolve instruction.tool instruction.form with
    | (resolved, none) => .ok resolved
    | (_, some cause) => .error (.context cause)

def prepareOperations (instruction : Instruction) (machine : Machine) :
    Except CompileError (List Prepared) := do
  let operations ← instruction.resolveOperations
  operations.mapM fun operation =>
    (operation.prepare machine).mapError (.operation operation.name)

/-- Fills in the context of a motion before or after the operations, from the instruction and then
from its first operation. -/
def resolveEnd (instruction : Instruction) (path : Path) : Path :=
  let path := path.resolve instruction.tool instruction.form
  match instruction.operations with
  | [] => path
  | first :: _ => path.resolve first.tool first.form

/-- A motion before or after the operations, all its passes in one. One without points is left
out. -/
def prepareEnd (instruction : Instruction) (machine : Machine) (path : Option Path) :
    Except CompileError (Option Path) :=
  match path with
  | none => .ok none
  | some path =>
      if path.points.isEmpty then .ok none
      else do
        let path := instruction.resolveEnd path
        let _ ← path.context.mapError CompileError.context
        if !path.additions.pending then return some path
        let passes ← (path.passes machine).mapError .ends
        return some (path.along (passes.flatMap (·.points)))

end Instruction

end Kerf
