import Kerf.Job.Call
import Kerf.Job.Diagnostic

/-!
# Evaluating jobs

The expressions of a job are evaluated in order, and the first error ends it. What counts is the
instruction that the job defines.
-/

set_option autoImplicit false

namespace Kerf.Job

open Kerf.Stock (Fault)

inductive Failure where
  | syntaxError (cause : SyntaxError)
  | unbound (name : String)
  | call (function : String) (cause : CallError)
  /-- An expression has no value. -/
  | noValue
  | noInstruction

def Failure.message : Failure → String
  | .syntaxError .unfinished => "parser needs more input"
  | .syntaxError .invalid => "interpreter error"
  | .unbound name => "symbol \x60" ++ name ++ "\x60 not found"
  | .call function cause => "Error calling '" ++ function ++ "': " ++ cause.message
  | .noValue => "interpreter error"
  | .noInstruction => "job defines no instruction"

/-- A step of an evaluation, which may fail and keeps what was made before. -/
abbrev Step (α : Type) := ExceptT Failure (StateM Session) α

/-! ## Arithmetic -/

inductive Arithmetic where
  | add
  | subtract
  | multiply
  | divide
  deriving DecidableEq, Repr

namespace Arithmetic

def ofSign? : String → Option Arithmetic
  | "+" => some .add
  | "-" => some .subtract
  | "*" => some .multiply
  | "/" => some .divide
  | _ => none

/-- An operation on whole numbers, which wrap around. A quotient that is not exact is no whole
number, and nothing is divided by zero. -/
def onInts (operation : Arithmetic) (a b : Int64) : Option Value :=
  match operation with
  | .add => some (.int (a + b))
  | .subtract => some (.int (a - b))
  | .multiply => some (.int (a * b))
  | .divide =>
      if b = 0 then none
      else if a % b = 0 then some (.int (a / b))
      else some (.float (Scalar.ofWord a / Scalar.ofWord b) false)

/-- An operation on numbers that need not be whole. -/
def onFloats (operation : Arithmetic) (a b : Float) : Value :=
  .float
    (match operation with
    | .add => a + b
    | .subtract => a - b
    | .multiply => a * b
    | .divide => a / b)
    false

def onValues (operation : Arithmetic) (a b : Value) : Option Value :=
  match a, b with
  | .int a, .int b => operation.onInts a b
  | .int a, .float b _ => some (operation.onFloats (Scalar.ofWord a) b)
  | .float a _, .int b => some (operation.onFloats a (Scalar.ofWord b))
  | .float a _, .float b _ => some (operation.onFloats a b)
  | _, _ => none

/-- An operation on values from left to right. A single value stays as it is. -/
def onAll (operation : Arithmetic) : List Value → Option Value
  | [] => none
  | first :: rest => rest.foldlM operation.onValues first

end Arithmetic

/-! ## Calls -/

/-- Makes something that is told apart from everything else made. -/
def making (make : Nat → Except CallError Value) : Call Value := do
  let identity ← freshIdentity
  make identity

/-- The call of a function that makes parts of an instruction, by its name in the readable form. -/
def makingCall? : String → Option (List Value → Call Value)
  | "vec3" => some fun values => makeVec3 values
  | "machine" => some fun values => do
      makeMachine (← get).registry (.ofValues values)
  | "tool" => some fun values => making (makeTool · (.ofValues values))
  | "box_stock" => some fun values => making (makeBox · (.ofValues values))
  | "cylinder_stock" => some fun values => making (makeCylinder · (.ofValues values))
  | "pt" => some fun values => makePoint (.ofValues values)
  | "additions" => some fun values => makeAdditions (.ofValues values)
  | "path" => some fun values => makePath (.ofValues values)
  | "project_path" => some fun values => makeProjectedPath (.ofValues values)
  | "operation" => some fun values => makeOperation (.ofValues values)
  | "instruction" => some fun values => do
      let instruction ← makeInstruction (← get).instruction (.ofValues values)
      modify fun session => { session with instruction := some instruction }
      return .instruction instruction
  | _ => none

def makingNames : List String :=
  ["vec3", "machine", "tool", "box_stock", "cylinder_stock", "pt", "additions", "path",
    "project_path", "operation", "instruction"]

/-- Calls a function, told apart from the name it is called by. -/
def callFunction (function calledAs : String) (values : List Value) : Step Value := do
  if function = "list" then return .ofList values
  if function = "array" then return .array values
  if let some operation := Arithmetic.ofSign? function then
    match operation.onAll values with
    | some value => return value
    | none => throw .noValue
  match makingCall? function with
  | some call => (call values).adapt (.call calledAs)
  | none => throw .noValue

/-! ## Names -/

/-- The value of a name, if it has one: a common function, what a definition gave it, a function for
jobs, or nothing at all. -/
def valueOf? (name : String) : Step (Option Value) := do
  if commonFunctions.contains name then return some (.function name)
  match (← get).bindings.lookup name with
  | some value => return some value
  | none =>
      if makingNames.contains name then return some (.function name)
      else if name = "nil" || name = "null" then return some .nil
      else return none

def lookUp (name : String) : Step Value := do
  match ← valueOf? name with
  | some value => return value
  | none => throw (.unbound name)

/-- Calls a function by a name. One that stands for a symbol calls what the symbol stands for. -/
def callByName (name : String) (values : List Value) : Step Value := do
  match ← lookUp name with
  | .function function => callFunction function name values
  | .symbol other =>
      match ← valueOf? other with
      | some (.function function) => callFunction function other values
      | _ => throw .noValue
  | _ => throw .noValue

def bindName (name : String) (value : Value) : Step Unit :=
  modify fun session => { session with bindings := (name, value) :: session.bindings }

mutual

/-- Evaluates an expression. The arguments of a call come before its function. -/
def evaluate : Expr → Step Value
  | .quoted datum => return .ofDatum datum
  | .name name => lookUp name
  | .array items => do
      let values ← evaluateAll items
      return .array values
  | .define name body => do
      let value ← evaluate body
      bindName name value
      return value
  | .call function arguments => do
      let values ← evaluateAll arguments
      callByName function values
  | .apply head arguments => do
      let values ← evaluateAll arguments
      match ← evaluate head with
      | .function function => callFunction function function values
      | _ => throw .noValue
  | .closedForm => throw .noValue

def evaluateAll : List Expr → Step (List Value)
  | [] => return []
  | expr :: rest => do
      let value ← evaluate expr
      let values ← evaluateAll rest
      return value :: values

end

/-! ## Jobs -/

structure Evaluation where
  instruction : Option Instruction := none
  errors : List Diagnostic := []
  warnings : List String := []

/-- Evaluates all expressions of a job, which has to define an instruction. -/
def evaluateJob (exprs : List Expr) : Step Instruction := do
  let _ ← evaluateAll exprs
  match (← get).instruction with
  | some instruction => return instruction
  | none => throw .noInstruction

/-- The evaluation that ended with a failure. A stock query without an answer leaves none. -/
def Evaluation.ofFailure (failure : Failure) (warnings : List String) : Except Fault Evaluation :=
  match failure with
  | .call _ (.fault cause) => .error cause
  | _ => .ok { errors := [.ofText failure.message], warnings }

/-- Evaluates a job source. A blank source is no error and defines nothing. -/
def evaluateSource (registry : Registry) (source : String) : Except Fault Evaluation :=
  let text := source.toList
  if Text.isAllBlank text then .ok {}
  else
    match readJob (readable text) with
    | .error cause => Evaluation.ofFailure (.syntaxError cause) []
    | .ok exprs =>
        match (evaluateJob exprs).run.run { registry } with
        | (.ok instruction, session) =>
            .ok { instruction := some instruction, warnings := session.warnings }
        | (.error failure, session) => Evaluation.ofFailure failure session.warnings

end Kerf.Job
