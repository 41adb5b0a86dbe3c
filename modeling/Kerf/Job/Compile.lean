import Kerf.Instruction.Compile
import Kerf.Job.Evaluate

/-!
# Compiling jobs

A job is evaluated with the known dialects, moved to another machine if one is chosen, and
compiled.
-/

set_option autoImplicit false

namespace Kerf.Job

open Kerf.Stock (Fault)

inductive JobError where
  /-- The job cannot be evaluated. -/
  | errors (diagnostics : List Diagnostic)
  /-- The chosen machine is not known. -/
  | unknownMachine (cause : UnknownMachine)
  | unsupportedKind (cause : UnsupportedKind)
  | compile (cause : CompileError)
  /-- A stock query has no answer. -/
  | fault (cause : Fault)

def JobError.message : JobError → String
  | .errors diagnostics => "job: " ++ "; ".intercalate (diagnostics.map (·.text))
  | .unknownMachine cause => cause.message
  | .unsupportedKind cause => cause.message
  | .compile cause => cause.message
  | .fault _ => ""

/-- Where jobs are compiled: the known dialects and what was chosen for all jobs. -/
structure Workshop where
  registry : Registry := .builtin
  /-- The machine to use in place of the job's, if it is not empty. -/
  machine : String := ""
  /-- Messages to be counted apart. -/
  ignore : List String := []

namespace Workshop

def machineNamed (workshop : Workshop) (name : String) : Except JobError Machine := do
  let dialect ← (workshop.registry.get name).mapError .unknownMachine
  (Machine.ofDialect dialect).mapError .unsupportedKind

/-- The instruction of a job, on the chosen machine, and the notes about it. -/
def evaluate (workshop : Workshop) (source : String) :
    Except JobError (Instruction × List String) := do
  let evaluation ← (evaluateSource workshop.registry source).mapError .fault
  if !evaluation.errors.isEmpty then throw (.errors evaluation.errors)
  let some instruction := evaluation.instruction
    | throw (.errors [{ line := 0, message := "empty job" }])
  if workshop.machine.isEmpty then return (instruction, evaluation.warnings)
  let machine ← workshop.machineNamed workshop.machine
  return ({ instruction with machine := some machine }, evaluation.warnings)

structure Product where
  instruction : Instruction
  program : Program
  notes : List String

def compile (workshop : Workshop) (source : String) : Except JobError Product := do
  let (instruction, notes) ← workshop.evaluate source
  let program ← (instruction.compile workshop.ignore).mapError .compile
  return { instruction, program, notes }

end Workshop

end Kerf.Job
