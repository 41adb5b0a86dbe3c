import Kerf.Dialect.Registry
import Kerf.Job.Arguments
import Kerf.Projection

/-!
# Calls

The functions of a job that make the parts of an instruction, and what can be wrong with a call.
-/

set_option autoImplicit false

namespace Kerf.Job

open Kerf.Stock (Form FormError Fault Clearance)

/-! ## Errors -/

inductive CallError where
  /-- A vector needs three components. -/
  | components (got : Nat)
  | coordinate (function : String) (axis : Char) (cause : Mismatch)
  | noName (function : String)
  | badName (function : String) (cause : Mismatch)
  | option (function key : String) (cause : Mismatch)
  | unknownMachine (cause : UnknownMachine)
  | unsupportedKind (cause : UnsupportedKind)
  | unknownTip (cause : UnknownTip)
  | noWidth (tool : String)
  | form (function : String) (cause : FormError)
  /-- A point has neither a vector nor three coordinates. -/
  | noPosition
  | position (cause : Mismatch)
  /-- An entry of an option that takes a list. -/
  | optionEntry (function key : String) (cause : Mismatch)
  /-- An entry of a path, operation or instruction. -/
  | entry (function name : String) (index : Nat) (expected : String) (got : Value)
  | missingOption (function name key : String)
  | secondInstruction (name first : String)
  /-- A stock query has no answer. -/
  | fault (cause : Fault)

def CallError.message : CallError → String
  | .components got => "vec3 requires exactly 3 arguments, got " ++ toString got
  | .coordinate function axis cause =>
      function ++ ": " ++ String.singleton axis ++ ": " ++ cause.message
  | .noName function => function ++ " requires a name"
  | .badName function cause => function ++ ": name: " ++ cause.message
  | .option function key cause => function ++ ": " ++ key ++ ": " ++ cause.message
  | .unknownMachine cause => "machine: " ++ cause.message
  | .unsupportedKind cause => "machine: " ++ cause.message
  | .unknownTip cause => "tool: " ++ cause.message
  | .noWidth tool => "tool: " ++ Text.quoted tool ++ " needs a positive :width"
  | .form function cause => function ++ ": " ++ cause.message
  | .noPosition => "pt requires a vec3 or three coordinates"
  | .position cause => "pt: " ++ cause.message
  | .optionEntry function key cause => function ++ ": " ++ key ++ " entry: " ++ cause.message
  | .entry function name index expected got =>
      function ++ " " ++ Text.quoted name ++ ": entry " ++ toString index ++ ": expected " ++
        expected ++ ", got " ++ got.render
  | .missingOption function name key =>
      function ++ " " ++ Text.quoted name ++ " requires :" ++ key
  | .secondInstruction name first =>
      "instruction " ++ Text.quoted name ++ ": job already defines " ++ Text.quoted first
  | .fault _ => ""

/-! ## The state of a job -/

/-- What a job has made so far. -/
structure Session where
  registry : Registry
  bindings : List (String × Value) := []
  instruction : Option Instruction := none
  warnings : List String := []
  /-- How many tools and forms have been made, which tells them apart. -/
  made : Nat := 0

/-- A step of a job, which may fail and keeps what was made before. -/
abbrev Call (α : Type) := ExceptT CallError (StateM Session) α

/-- A number that nothing else made has. -/
def freshIdentity : Call Nat := do
  let session ← get
  set { session with made := session.made + 1 }
  return session.made

/-! ## Reading arguments -/

/-- A call in progress: the name of the function and its arguments. -/
structure Request where
  function : String
  arguments : Arguments

namespace Request

/-- Reads the value of a keyword, or takes what holds without it. -/
def option {α : Type} (request : Request) (key : String) (fallback : α)
    (read : Value → Except Mismatch α) : Except CallError α :=
  match request.arguments.get? key with
  | none => .ok fallback
  | some value => (read value).mapError (.option request.function key)

/-- Reads the value of a keyword that may be left open. -/
def option? {α : Type} (request : Request) (key : String) (fallback : Option α)
    (read : Value → Except Mismatch α) : Except CallError (Option α) :=
  request.option key fallback fun value => (read value).map some

/-- The leading name and the positional arguments after it. -/
def name (request : Request) : Except CallError (String × List Value) :=
  match request.arguments.positional with
  | [] => .error (.noName request.function)
  | first :: rest => do
      let name ← first.asString.mapError (.badName request.function)
      return (name, rest)

/-- Reads all entries after a name, with the index of the first that does not fit. -/
def entriesFrom {α : Type} (request : Request) (name expected : String)
    (read : Value → Option α) (index : Nat) : List Value → Except CallError (List α)
  | [] => .ok []
  | value :: rest =>
      match read value with
      | none => .error (.entry request.function name index expected value)
      | some entry => do
          let entries ← request.entriesFrom name expected read (index + 1) rest
          return entry :: entries

/-- Reads all entries after a name, however they are grouped. -/
def entries {α : Type} (request : Request) (name expected : String) (read : Value → Option α)
    (values : List Value) : Except CallError (List α) :=
  request.entriesFrom name expected read 0 (Value.flatten values)

/-- The clearance keywords that all stock forms share. -/
def clearance (request : Request) : Except CallError Clearance := do
  let safeDistance ← request.option "safe" 0 Value.asNumber
  let materialTolerance ← request.option "tolerance" 0 Value.asNumber
  return { safeDistance, materialTolerance }

end Request

def coordinates (function : String) (x y z : Value) : Except CallError Vec := do
  let x ← x.asNumber.mapError (.coordinate function 'x')
  let y ← y.asNumber.mapError (.coordinate function 'y')
  let z ← z.asNumber.mapError (.coordinate function 'z')
  return ⟨x, y, z⟩

/-! ## The functions -/

def makeVec3 (values : List Value) : Except CallError Value :=
  match values with
  | [x, y, z] => (coordinates "vec3" x y z).map .vec3
  | _ => .error (.components values.length)

def makeMachine (registry : Registry) (arguments : Arguments) : Except CallError Value := do
  let (name, _) ← Request.name ⟨"machine", arguments⟩
  let dialect ← (registry.get name).mapError .unknownMachine
  let machine ← (Machine.ofDialect dialect).mapError .unsupportedKind
  return .machine machine

def makeTool (identity : Nat) (arguments : Arguments) : Except CallError Value := do
  let request : Request := ⟨"tool", arguments⟩
  let number (key : String) (fallback : Float) := request.option key fallback Value.asNumber
  let (name, _) ← request.name
  let shape ← request.option? "shape" none Value.asWord
  let tip ←
    match shape with
    | none => .ok Tip.square
    | some shape => (Tip.ofName shape).mapError CallError.unknownTip
  let toolNumber ← request.option "number" 1 Value.asInteger
  let width ← number "width" 0
  let speed ← number "speed" (-1)
  let feedCut ← number "feed-cut" (-1)
  let feedPlunge ← number "feed-plunge" (-1)
  let insertWidth ← number "insert-width" (-1)
  let length ← number "length" (-1)
  let cutDepth ← number "cut-depth" (-1)
  let finishDepth ← number "finish-depth" (-1)
  let tolerance ← number "tolerance" (-1)
  let minStep ← number "min-step" (-1)
  if width <= 0 then throw (.noWidth name)
  return .tool {
    identity, name, number := toolNumber, tip, width, speed, feedCut, feedPlunge, insertWidth,
    length, cutDepth, finishDepth, tolerance, minStep }

def makeBox (identity : Nat) (arguments : Arguments) : Except CallError Value := do
  let request : Request := ⟨"box-stock", arguments⟩
  let center ← request.option "center" Vec.zero Value.asVec
  let size ← request.option "size" Vec.zero Value.asVec
  let xAxis ← request.option "x-axis" Vec.xAxis Value.asVec
  let yAxis ← request.option "y-axis" Vec.yAxis Value.asVec
  let clearance ← request.clearance
  let form ← (Form.makeBox identity center xAxis yAxis size clearance).mapError
    (.form request.function)
  return .form form

def makeCylinder (identity : Nat) (arguments : Arguments) : Except CallError Value := do
  let request : Request := ⟨"cylinder-stock", arguments⟩
  let base ← request.option "base" Vec.zero Value.asVec
  let axis ← request.option "axis" Vec.zAxis Value.asVec
  let height ← request.option "height" 0 Value.asNumber
  let radius ← request.option "radius" 0 Value.asNumber
  let clearance ← request.clearance
  let form ← (Form.makeCylinder identity base axis height radius clearance).mapError
    (.form request.function)
  return .form form

def makePoint (arguments : Arguments) : Except CallError Value := do
  let request : Request := ⟨"pt", arguments⟩
  let position ←
    match arguments.positional with
    | [place] => place.asVec.mapError .position
    | [x, y, z] => coordinates "pt" x y z
    | _ => .error .noPosition
  let direction ← request.option "dir" Vec.zAxis Value.asVec
  let point := Point.make position direction
  let feed ← request.option "feed" point.feed Value.asNumber
  let speed ← request.option "speed" point.speed Value.asNumber
  let preCode ← request.option "pre" "" Value.asString
  let postCode ← request.option "post" "" Value.asString
  let rapid :=
    match arguments.get? "rapid" with
    | some (.bool true) => true
    | _ => false
  return .point { point with feed := if rapid then 0 else feed, speed, preCode, postCode }

def makeAdditions (arguments : Arguments) : Except CallError Value := do
  let request : Request := ⟨"additions", arguments⟩
  let flag (key : String) := request.option key false Value.asFlag
  let insert ← flag "insert"
  let retract ← flag "retract"
  let stepDown ← flag "step-down"
  let dropStart ← flag "drop-start"
  let dropMiddle ← request.option "drop-middle" (-1) Value.asNumber
  let dropEnd ← flag "drop-end"
  let heightOffset ← flag "height-offset"
  let lead ← request.option "lead" 0 Value.asNumber
  let offset ← request.option "offset" 0 Value.asNumber
  let skins ← request.option "onion" [] Value.asItems
  let onion ← skins.mapM fun skin =>
    skin.asNumber.mapError (.optionEntry request.function "onion")
  return .additions {
    insert, retract, stepDown, dropStart, dropMiddle, dropEnd, heightOffset, lead, onion, offset }

def withOptions (request : Request) (path : Path) : Except CallError Path := do
  let tool ← request.option? "tool" path.tool Value.asTool
  let form ← request.option? "stock" path.form Value.asForm
  let additions ← request.option "additions" path.additions Value.asAdditions
  let preCode ← request.option "pre" path.preCode Value.asString
  let postCode ← request.option "post" path.postCode Value.asString
  return { path with tool, form, additions, preCode, postCode }

def makePath (arguments : Arguments) : Except CallError Value := do
  let request : Request := ⟨"path", arguments⟩
  let (name, rest) ← request.name
  let points ← request.entries name "pt"
    (fun value => match value with | .point content => some content | _ => none) rest
  let path ← withOptions request { name, points }
  return .path path

structure ProjectionPlan where
  name : String
  form : Form
  rays : List Projection.Ray
  standoff : Float
  feed : Float

def planProjection (request : Request) : Except CallError ProjectionPlan := do
  let (name, _) ← request.name
  let form ← request.option? "stock" none Value.asForm
  let direction ← request.option "dir" ⟨0, 0, -1⟩ Value.asVec
  let standoff ← request.option "standoff" 0 Value.asNumber
  let feed ← request.option "feed" (-1) Value.asNumber
  let some form := form | throw (.missingOption request.function name "stock")
  let origins ← request.option? "from" none Value.asItems
  let some origins := origins | throw (.missingOption request.function name "from")
  let rays ← origins.mapM fun value => do
    let origin ← value.asVec.mapError (.optionEntry request.function "from")
    return { origin, direction := direction : Projection.Ray }
  return { name, form, rays, standoff, feed }

/-- Makes a path by projecting rays onto stock. Rays that miss it are noted. -/
def makeProjectedPath (arguments : Arguments) : Call Value := do
  let request : Request := ⟨"project-path", arguments⟩
  let plan ← planProjection request
  let landings ← ((Projection.castAll [plan.form] plan.rays plan.standoff).mapError
    CallError.fault : Except CallError (List (Option Projection.Landing)))
  let missed := Projection.missed landings
  if missed > 0 then
    modify fun session =>
      { session with
        warnings := session.warnings ++
          ["project-path " ++ Text.quoted plan.name ++ ": " ++ toString missed ++ " of " ++
            toString plan.rays.length ++ " rays missed the stock"] }
  let path := Projection.toPath plan.name landings
  let path ← withOptions request
    { path with
      form := some plan.form
      points := path.points.map fun point => { point with feed := plan.feed } }
  return .path path

def makeOperation (arguments : Arguments) : Except CallError Value := do
  let request : Request := ⟨"operation", arguments⟩
  let (name, rest) ← request.name
  let paths ← request.entries name "path"
    (fun value => match value with | .path content => some content | _ => none) rest
  let tool ← request.option? "tool" none Value.asTool
  let form ← request.option? "stock" none Value.asForm
  return .operation { name, paths, tool, form }

/-- Makes the instruction from operations. A job has only one. -/
def makeInstruction (existing : Option Instruction) (arguments : Arguments) :
    Except CallError Instruction := do
  let request : Request := ⟨"instruction", arguments⟩
  let (name, rest) ← request.name
  if let some first := existing then throw (.secondInstruction name first.name)
  let machine ← request.option? "machine" none Value.asMachine
  if machine.isNone then throw (.missingOption request.function name "machine")
  let tool ← request.option? "tool" none Value.asTool
  let form ← request.option? "stock" none Value.asForm
  let start ← request.option? "start" none Value.asPath
  let finish ← request.option? "end" none Value.asPath
  let operations ← request.entries name "operation"
    (fun value => match value with | .operation content => some content | _ => none) rest
  return { name, machine, operations, start, finish, tool, form }

end Kerf.Job
