import Kerf.Command.Line
import Kerf.Sorting

/-!
# Help

What the program says about itself: what a command is for, how it is called, and the flags that it
takes, in the order of their names.
-/

set_option autoImplicit false

namespace Kerf.Command

def Verb.summary : Verb → String
  | .compile => "Compile a job file"
  | .read => "Read G-code back into tool points"
  | .stock => "Mesh the stock named by a job"
  | .watch => "Recompile a job whenever it changes"
  | .dialects => "List known machines"

def Verb.callText (verb : Verb) : String :=
  "chisel " ++ verb.name ++ (if verb.takesSubject then " " ++ verb.subjectName else "") ++ " [flags]"

/-- A line about a flag: its letter, its name, the kind of its value and what it does. -/
structure FlagLine where
  letter : Option Char := none
  name : String
  value : String := ""
  purpose : String

def FlagLine.help (topic : String) : FlagLine :=
  { letter := some 'h', name := "help", purpose := "help for " ++ topic }

def FlagLine.ofFlag (verb : Option Verb) (flag : Flag) : FlagLine :=
  match flag with
  | .logLevel =>
      { name := flag.name, value := "string"
        purpose := "log level (debug, info, warn, error) (default \"warn\")" }
  | .dialects =>
      { name := flag.name, value := "string", purpose := "directory of extra dialect tables" }
  | .machine =>
      { name := flag.name, value := "string"
        purpose := "machine overriding the job's, and the machine read back" }
  | .output =>
      { letter := some 'o', name := flag.name, value := "string"
        purpose := if verb = some .compile then "output file (default stdout)" else "output file" }
  | .ignore =>
      { name := flag.name, value := "stringArray", purpose := "report this error text separately" }
  | .stl => { name := flag.name, value := "string", purpose := "write the stock union as STL" }
  | .bubble => { name := flag.name, purpose := "grow each form by its safe distance" }
  | .cells =>
      { name := flag.name, value := "int"
        purpose := "marching cubes resolution (default 200)" }

def FlagLine.leading (line : FlagLine) : String :=
  (match line.letter with
    | some letter => "  -" ++ String.singleton letter ++ ", --"
    | none => "      --") ++
    line.name ++ (if line.value.isEmpty then "" else " " ++ line.value)

/-- Lines about flags, with their purposes below each other. -/
def flagText (lines : List FlagLine) : String :=
  let sorted := Sorting.byInsertion (fun a b => a.name < b.name) lines
  let width := (sorted.map fun line => line.leading.length).foldl max 0
  "\n".intercalate (sorted.map fun line =>
    line.leading ++ String.ofList (List.replicate (width - line.leading.length + 3) ' ') ++
      line.purpose)

def padded (width : Nat) (name : String) : String :=
  name ++ String.ofList (List.replicate (width - name.length) ' ')

def commonLines : List FlagLine := Flag.common.map (FlagLine.ofFlag none)

def Verb.usage (verb : Verb) : String :=
  "Usage:\n  " ++ verb.callText ++ "\n\nFlags:\n" ++
    flagText (.help verb.name :: (Flag.own verb).map (.ofFlag (some verb))) ++
    "\n\nGlobal Flags:\n" ++ flagText commonLines ++ "\n"

/-- The commands with what they are for, in the order of their names. -/
def commandLines : List (String × String) :=
  Sorting.byInsertion (fun a b => a.1 < b.1)
    (("completion", "Generate the autocompletion script for the specified shell") ::
      ("help", "Help about any command") :: Verb.all.map fun verb => (verb.name, verb.summary))

def programUsage : String :=
  "Usage:\n  chisel [command]\n\nAvailable Commands:" ++
    String.join (commandLines.map fun (name, summary) =>
      "\n  " ++ padded 11 name ++ " " ++ summary) ++
    "\n\nFlags:\n" ++ flagText (.help "chisel" :: commonLines) ++
    "\n\nUse \"chisel [command] --help\" for more information about a command.\n"

def helpText : Option Verb → String
  | some verb => verb.summary ++ "\n\n" ++ verb.usage
  | none => "Compile toolpath jobs into G-code\n\n" ++ programUsage

end Kerf.Command
