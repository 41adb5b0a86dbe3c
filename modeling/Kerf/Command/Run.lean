import Kerf.Command.Help
import Kerf.Dialect.Decode
import Kerf.Instruction.Preview
import Kerf.Job.Compile
import Kerf.Machine.Reader

/-!
# Running commands

A command reads files and variables through a `Host` and answers what it prints. All that it decides
is the same whatever the host is.
-/

set_option autoImplicit false

namespace Kerf.Command

open Kerf.Job (Workshop)

/-! ## The host -/

inductive FileError where
  | missing
  | isDirectory
  deriving DecidableEq, Repr

/-- What a command needs from its surroundings. -/
structure Host (m : Type → Type) where
  /-- The value of an environment variable. -/
  environment : String → m (Option String)
  readText : String → m (Except FileError String)
  writeText : String → String → m (Except FileError Unit)
  /-- The names in a directory; none if it does not exist. -/
  namesIn : String → m (List String)
  directoryExists : String → m Bool

/-! ## Errors -/

inductive RunError where
  | usage (cause : UsageError)
  | configFile (name : String) (cause : FileError)
  | configSyntax (cause : Yaml.TableError)
  | configValues (causes : List String)
  | logLevel (cause : LevelError)
  | dialectSize (path : String)
  | dialectFile (path : String) (cause : FileError)
  | dialect (path : String) (cause : Dialect.DecodeError)
  | reading (name : String) (cause : FileError)
  | writing (name : String) (cause : FileError)
  | job (cause : Job.JobError)
  | noStock (cause : Instruction.NoStock)
  | noMachine
  | code (cause : Machine.ReadError)
  /-- The program was written but has errors of several kinds. -/
  | errorsInOutput (kinds : Nat)
  | noOutput
  | noDirectory

def readingText (name : String) : FileError → String
  | .missing => "open " ++ name ++ ": no such file or directory"
  | .isDirectory => "read " ++ name ++ ": is a directory"

def writingText (name : String) : FileError → String
  | .missing => "open " ++ name ++ ": no such file or directory"
  | .isDirectory => "open " ++ name ++ ": is a directory"

def maxTableSize : Nat := 1048576

def RunError.message : RunError → String
  | .usage cause => cause.message
  | .configFile name cause => "config: " ++ readingText name cause
  | .configSyntax cause => "config: While parsing config: " ++ cause.message
  | .configValues causes =>
      "config: unmarshal: decoding failed due to the following error(s):\n\n" ++
        "\n".intercalate causes
  | .logLevel cause => "config: log_level: " ++ cause.message
  | .dialectSize path =>
      "dialect: " ++ path ++ " exceeds " ++ toString maxTableSize ++ " bytes"
  | .dialectFile path cause => "dialect: " ++ readingText path cause
  | .dialect path cause => path ++ ": " ++ cause.message
  | .reading name cause => readingText name cause
  | .writing name cause => writingText name cause
  | .job cause => cause.message
  | .noStock cause => cause.message
  | .noMachine => "read: no machine given"
  | .code cause => cause.message
  | .errorsInOutput kinds => "compile: " ++ toString kinds ++ " kinds of error in output"
  | .noOutput => "watch: an output file is required"
  | .noDirectory => "watch: no such file or directory"

/-- What a failed command prints last. -/
def RunError.report (error : RunError) : String :=
  "Error: " ++ error.message ++ "\n" ++
    match error with
    | .usage (.unknownCommand _) => "Run 'chisel --help' for usage.\n"
    | _ => ""

structure Outcome where
  stdout : String := ""
  stderr : String := ""
  failed : Bool := false
  deriving DecidableEq, Repr

section

variable {m : Type → Type} [Monad m]

/-- A step of a command. It prints as it goes and may fail. -/
abbrev Running (m : Type → Type) (α : Type) := ExceptT RunError (StateT Outcome m) α

def ask {α : Type} (question : m α) : Running m α := fun outcome => do
  let answer ← question
  return (.ok answer, outcome)

def print (text : String) : Running m Unit :=
  modify fun outcome => { outcome with stdout := outcome.stdout ++ text }

def note (text : String) : Running m Unit :=
  modify fun outcome => { outcome with stderr := outcome.stderr ++ text }

/-- Goes on with a result, or fails with its cause. -/
def orFail {ε α : Type} (wrap : ε → RunError) : Except ε α → Running m α
  | .ok value => return value
  | .error cause => throw (wrap cause)

/-! ## Settings -/

def variableOf (host : Host m) (name : String) : Running m (Option String) := do
  let value ← ask (host.environment name)
  return value.filter (!·.isEmpty)

def readVariables (host : Host m) : Running m Variables := do
  return {
    logLevel := ← variableOf host "CHISEL_LOG_LEVEL"
    dialectDirectory := ← variableOf host "CHISEL_DIALECT_DIR"
    machine := ← variableOf host "CHISEL_MACHINE"
    ignore := ← variableOf host "CHISEL_IGNORE"
    output := ← variableOf host "CHISEL_OUTPUT" }

/-- The names that a configuration file may have if none is given. -/
def configNames : List String :=
  ["json", "toml", "yaml", "yml", "properties", "props", "prop", "hcl", "tfvars", "dotenv", "env",
    "ini"].map ("chisel." ++ ·) ++ ["chisel"]

/-- The text of the first file that can be read, or an empty one. -/
def firstText (host : Host m) : List String → Running m String
  | [] => return ""
  | name :: rest => do
      match ← ask (host.readText name) with
      | .ok text => return text
      | .error _ => firstText host rest

/-- The entries of the configuration file. Only one that was named has to exist. -/
def readConfig (host : Host m) : Running m Entries := do
  let named ← variableOf host "CHISEL_CONFIG"
  let text ←
    match named with
    | some name => do orFail (.configFile name) (← ask (host.readText name))
    | none => firstText host configNames
  orFail .configSyntax (Yaml.readTable text)

def readSettings (host : Host m) (flags : SettingFlags) : Running m Settings := do
  let entries ← readConfig host
  let environment ← readVariables host
  let settings ← orFail .configValues (Settings.resolve flags environment entries)
  orFail .logLevel (checkLevel settings.logLevel)
  return settings

/-! ## Dialects -/

/-- The parts of a path that matter: steps that stay are dropped, and steps up take back the one
before. -/
def pathParts (rooted : Bool) (parts : List (List Char)) : List (List Char) :=
  (parts.foldl
    (fun (kept : List (List Char)) part =>
      if part.isEmpty || part = ['.'] then kept
      else if part = ['.', '.'] then
        match kept with
        | [] => if rooted then [] else [part]
        | last :: rest => if last = ['.', '.'] then part :: kept else rest
      else part :: kept)
    []).reverse

def cleanPath (path : String) : String :=
  let characters := path.toList
  let rooted := characters.head? = some '/'
  let parts := (pathParts rooted (Text.splitAt '/' characters)).map String.ofList
  let joined := "/".intercalate parts
  if rooted then "/" ++ joined else if joined.isEmpty then "." else joined

def pathIn (directory name : String) : String :=
  match cleanPath directory with
  | "." => name
  | "/" => "/" ++ name
  | clean => clean ++ "/" ++ name

def isTableName (name : String) : Bool :=
  name.endsWith ".yaml" || name.endsWith ".yml"

def addTable (host : Host m) (registry : Registry) (path : String) : Running m Registry := do
  let text ← orFail (.dialectFile path) (← ask (host.readText path))
  if maxTableSize < text.utf8ByteSize then throw (.dialectSize path)
  let dialect ← orFail (.dialect path) (Dialect.decode text)
  return registry.add dialect

/-- The built-in dialects and those in a directory, in the order of their names. -/
def readDialects (host : Host m) (directory : String) : Running m Registry := do
  if directory.isEmpty then return .builtin
  let names ← ask (host.namesIn (cleanPath directory))
  let paths := Sorting.byInsertion (fun p q => p < q)
    ((names.filter isTableName).map (pathIn directory))
  paths.foldlM (addTable host) .builtin

/-! ## Commands -/

def writeOutput (host : Host m) (name code : String) : Running m Unit := do
  if name.isEmpty || name = "-" then print code
  else orFail (.writing name) (← ask (host.writeText name code))

def firstNamed (name fallback : String) : String := if name.isEmpty then fallback else name

def runCompile (host : Host m) (invocation : Invocation) (settings : Settings)
    (workshop : Workshop) : Running m Unit := do
  let name := invocation.subject
  let source ← orFail (.reading name) (← ask (host.readText name))
  let product ← orFail .job (workshop.compile source)
  product.notes.forM fun text => note ("note: " ++ text ++ "\n")
  note product.program.report
  writeOutput host (firstNamed invocation.output settings.output) product.program.text
  let kinds := product.program.countedErrors.length
  if 0 < kinds then throw (.errorsInOutput kinds)

def pointLine (point : Point) : String :=
  let numbers (v : Vec) := " ".intercalate (v.components.map Decimal.general)
  numbers point.position ++ "  " ++ numbers point.direction ++ "  F" ++
    Decimal.general point.feed ++ " S" ++ Decimal.general point.speed ++ "\n"

def runRead (host : Host m) (invocation : Invocation) (workshop : Workshop) : Running m Unit := do
  let name := invocation.subject
  let code ← orFail (.reading name) (← ask (host.readText name))
  if workshop.machine.isEmpty then throw .noMachine
  let machine ← orFail .job (workshop.machineNamed workshop.machine)
  let path ← orFail .code (machine.read code [])
  print (String.join (path.points.map pointLine))

def runStock (host : Host m) (invocation : Invocation) (workshop : Workshop) :
    Running m Unit := do
  let name := invocation.subject
  let source ← orFail (.reading name) (← ask (host.readText name))
  let (instruction, _) ← orFail .job (workshop.evaluate source)
  if !invocation.stl.isEmpty then
    let _ ← orFail .noStock (instruction.preview invocation.bubble)

def directoryOf (path : String) : String :=
  match (pathParts false (Text.splitAt '/' path.toList)).dropLast with
  | [] => if path.toList.head? = some '/' then "/" else "."
  | parts =>
      (if path.toList.head? = some '/' then "/" else "") ++
        "/".intercalate (parts.map String.ofList)

/-- Compiles a job to a file, once it is known where to look for changes. -/
def runWatch (host : Host m) (invocation : Invocation) (settings : Settings)
    (workshop : Workshop) : Running m Unit := do
  let output := firstNamed invocation.output settings.output
  if output.isEmpty then throw .noOutput
  if !(← ask (host.directoryExists (directoryOf invocation.subject))) then throw .noDirectory
  match ← ask (host.readText invocation.subject) with
  | .error _ => return
  | .ok source =>
      match workshop.compile source with
      | .error _ => return
      | .ok product =>
          let _ ← ask (host.writeText output product.program.text)

def runInvocation (host : Host m) (invocation : Invocation) : Running m Unit := do
  let settings ← readSettings host invocation.settings
  let registry ← readDialects host settings.dialectDirectory
  let workshop : Workshop :=
    { registry, machine := settings.machine, ignore := settings.ignore ++ invocation.ignore }
  match invocation.verb with
  | .compile => runCompile host invocation settings workshop
  | .read => runRead host invocation workshop
  | .stock => runStock host invocation workshop
  | .watch => runWatch host invocation settings workshop
  | .dialects => print (String.join (registry.names.map (· ++ "\n")))

def runLine (host : Host m) (arguments : List String) : Running m Unit := do
  match ← orFail .usage (Request.read arguments) with
  | .run invocation => runInvocation host invocation
  | .help topic => print (helpText topic)
  | .helpCommand flags topic => do
      let settings ← readSettings host flags
      let _ ← readDialects host settings.dialectDirectory
      match topic with
      | [] => print (helpText none)
      | name :: _ =>
          match Verb.ofName? name with
          | some verb => print (helpText verb)
          | none =>
              let names := " ".intercalate (topic.map fun name => "\x60" ++ name ++ "\x60")
              note ("Unknown help topic [" ++ names ++ "]\n" ++ programUsage)

def run (host : Host m) (arguments : List String) : m Outcome := do
  let (result, outcome) ← (runLine host arguments).run.run {}
  match result with
  | .ok _ => return outcome
  | .error error =>
      return { outcome with stderr := outcome.stderr ++ error.report, failed := true }

end

end Kerf.Command
