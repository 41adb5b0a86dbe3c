import Kerf.Instruction.Prepare

/-!
# Compiling an instruction

The program is written in document order: the motion before the operations, their passes with safe
transitions between them, and the motion after them.
-/

set_option autoImplicit false

namespace Kerf

namespace Machine

/-- Writes a path that has been prepared. -/
def writePrepared (machine : Machine) (program : Program) (path : Path) :
    Except CompileError Program :=
  (machine.writePath program path).mapError .context

/-- Writes the way to a path that has been prepared. -/
def writeWay (machine : Machine) (program : Program) (previous : Option Path) (path : Path)
    (entry : Bool) : Except CompileError Program :=
  (machine.writeTransition program previous path entry).mapError .transition

/-- Writes passes after a previous path, each with its tool and the way to it. Answers the last path
written. -/
def writePasses (machine : Machine) (entry : Bool) (previous : Option Path) (program : Program) :
    List Path → Except CompileError (Option Path × Program)
  | [] => .ok (previous, program)
  | pass :: rest => do
      let program := machine.writeToolChange program pass.tool
      let program ← machine.writeWay program previous pass entry
      let program ← machine.writePrepared program pass
      machine.writePasses false (some pass) program rest

/-- Writes operations after a previous path. One without passes leaves no trace. -/
def writeOperations (machine : Machine) (previous : Option Path) (program : Program) :
    List Prepared → Except CompileError (Option Path × Program)
  | [] => .ok (previous, program)
  | operation :: rest =>
      if operation.passes.isEmpty then machine.writeOperations previous program rest
      else do
        let program := machine.writeOperationStart program operation.name
        let (previous, program) ← machine.writePasses true previous program operation.passes
        machine.writeOperations previous program rest

def writeStart (machine : Machine) (program : Program) :
    Option Path → Except CompileError Program
  | none => .ok program
  | some path => machine.writePrepared (machine.writeToolChange program path.tool) path

def writeFinish (machine : Machine) (previous : Option Path) (program : Program) :
    Option Path → Except CompileError Program
  | none => .ok program
  | some path => do
      let program ← machine.writeWay program previous path false
      machine.writePrepared program path

end Machine

/-- Counts what was left out and what the checks had to say. -/
def Program.noteOutcomes (program : Program) (outcomes : List Outcome) : Program :=
  let skipped := outcomes.countP (·.isSkipped)
  let collapsed := outcomes.countP (·.isCollapsed)
  let program :=
    if skipped = 0 then program
    else program.warn ("Skipped " ++ toString skipped ++ " invalid paths")
  let program :=
    if collapsed = 0 then program
    else program.warn ("Offset removed " ++ toString collapsed ++ " paths")
  (outcomes.flatMap (·.warnings)).foldl Program.warn program

/-- The program of an instruction. Messages in the ignore list are counted apart. -/
def Instruction.compile (instruction : Instruction) (ignore : List String) :
    Except CompileError Program := do
  let some machine := instruction.machine | throw .noMachine
  let operations ← instruction.prepareOperations machine
  let start ← instruction.prepareEnd machine instruction.start
  let finish ← instruction.prepareEnd machine instruction.finish
  let program := machine.writeHeader (Program.empty machine.dialect ignore) instruction.name
  let program ← machine.writeStart program start
  let (previous, program) ← machine.writeOperations start program operations
  let program ← machine.writeFinish previous program finish
  return (machine.writeFooter program).noteOutcomes (operations.flatMap (·.outcomes))

end Kerf
