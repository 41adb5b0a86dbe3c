import Kerf.Program.Entry
import Kerf.Program.Tally
import Kerf.Sorting

/-!
# Programs under construction

A program in the making holds the entries written so far together with what the writer has to
remember: the words that are in force, the setting of the rotary axes, the range each axis has
covered, and the messages counted.
-/

set_option autoImplicit false

namespace Kerf

open Kerf.Scalar

/-- The interval that a value has covered. -/
structure Range where
  low : Float
  high : Float

/-- The words in force: a value for each letter that has one. -/
abbrev Registers := List (String × String)

namespace Registers

def get? (registers : Registers) (letter : String) : Option String := registers.lookup letter

def forget (registers : Registers) (letter : String) : Registers :=
  registers.filter fun entry => entry.1 != letter

def set (registers : Registers) (letter value : String) : Registers :=
  (letter, value) :: registers.forget letter

end Registers

/-- A program in the making. -/
structure Program where
  dialect : Dialect
  /-- Messages that are reported apart from other errors. -/
  ignore : List String := []
  /-- What has been written. -/
  entries : Array Program.Entry := #[]
  registers : Registers := []
  /-- The setting that the rotary axes were last sent to. -/
  rotary : Rotary.Setting := .home
  /-- The ranges covered, in the order of first use. -/
  ranges : List (String × Range) := []
  warnings : Tally := []
  /-- All errors, ignored ones included. -/
  errors : Tally := []

namespace Program

def empty (dialect : Dialect) (ignore : List String) : Program := { dialect, ignore }

/-! ## Writing -/

def write (program : Program) (entry : Entry) : Program :=
  { program with entries := program.entries.push entry }

def text (program : Program) : String := (print program.dialect 0 program.entries.toList).2

/-- The text written after the first entries. -/
def textFrom (program : Program) (start : Nat) : String :=
  let (number, _) := print program.dialect 0 (program.entries.toList.take start)
  (print program.dialect number (program.entries.toList.drop start)).2

def format (program : Program) (x : Float) : String := program.dialect.format x

/-! ## Words in force -/

/-- Forgets letters, so that their next words are written again. -/
def forget (program : Program) (letters : List String) : Program :=
  { program with registers := letters.foldl Registers.forget program.registers }

/-- Puts a word in force and returns it, or nothing when its value is already in force. -/
def word (program : Program) (letter value : String) : Program × Option Word :=
  if program.registers.get? letter == some value then (program, none)
  else
    ({ program with registers := program.registers.set letter value }, some ⟨letter, value⟩)

/-! ## Ranges and messages -/

def widen (key : String) (value : Float) : List (String × Range) → List (String × Range)
  | [] => [(key, ⟨value, value⟩)]
  | (known, range) :: rest =>
      if known == key then
        (known, ⟨Scalar.min range.low value, Scalar.max range.high value⟩) :: rest
      else (known, range) :: widen key value rest

/-- Records that an axis has been at a value. What is not a number leaves no trace. -/
def cover (program : Program) (key : String) (value : Float) : Program :=
  if value.isNaN then program else { program with ranges := widen key value program.ranges }

def warn (program : Program) (message : String) : Program :=
  { program with warnings := program.warnings.add message }

def fail (program : Program) (message : String) : Program :=
  { program with errors := program.errors.add message }

def countedErrors (program : Program) : Tally :=
  program.errors.filter fun entry => !program.ignore.contains entry.1

def ignoredErrors (program : Program) : Tally :=
  program.errors.filter fun entry => program.ignore.contains entry.1

def rangeLines (program : Program) : List String :=
  (Sorting.byInsertion (fun p q => p.1 < q.1) program.ranges).map fun (key, range) =>
    "  " ++ key ++ ": " ++ program.format range.low ++ " to " ++ program.format range.high ++ "\n"

def report (program : Program) : String :=
  (if program.ranges.isEmpty then "" else "Ranges:\n" ++ String.join program.rangeLines) ++
    Tally.describe "Warnings" program.warnings ++
    Tally.describe "Errors" program.countedErrors ++
    Tally.describe "Ignored errors" program.ignoredErrors

end Program

end Kerf
