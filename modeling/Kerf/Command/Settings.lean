import Kerf.Command.Level
import Kerf.Decimal.Layout
import Kerf.Text.Listing
import Kerf.Yaml.Value

/-!
# Settings

Every setting comes from the first place that gives it: a flag, an environment variable, the
configuration file, or else its default.
-/

set_option autoImplicit false

namespace Kerf.Command

open Kerf.Yaml (Value)

structure Settings where
  logLevel : String := "warn"
  dialectDirectory : String := ""
  machine : String := ""
  ignore : List String := []
  output : String := ""
  deriving DecidableEq, Repr

structure SettingFlags where
  logLevel : Option String := none
  dialectDirectory : Option String := none
  machine : Option String := none
  deriving DecidableEq, Repr

/-- The environment variables that are settings; empty ones do not count. -/
structure Variables where
  logLevel : Option String := none
  dialectDirectory : Option String := none
  machine : Option String := none
  ignore : Option String := none
  output : Option String := none
  deriving DecidableEq, Repr

/-! ## The configuration file -/

abbrev Entries := List (String × Value)

/-- The value of a key, in any case of letters. An empty one does not count. -/
def entryOf (entries : Entries) (key : String) : Option Value :=
  match entries.find? fun (name, _) => String.ofList (name.toList.map Char.toLower) == key with
  | some (_, .null) | none => none
  | some (_, value) => some value

/-- The kind of a value that stands for no text. -/
def kindName : Value → String
  | .list _ => "[]interface \x7b\x7d"
  | .table _ => "map[string]interface \x7b\x7d"
  | .timestamp => "time.Time"
  | _ => "string"

def unfitText (name : String) (value : Value) : String :=
  "'" ++ name ++ "' expected type 'string', got unconvertible type '" ++ kindName value ++ "'"

/-- The text that a value stands for, or why it stands for none. -/
def textOf (name : String) (value : Value) : Except (List String) String :=
  match value with
  | .null => .ok ""
  | .text value => .ok value
  | .bool value => .ok (if value then "1" else "0")
  | .int value => .ok (toString value)
  | .float value => .ok (Decimal.plain value)
  | value => .error [unfitText name value]

def commaSeparated (text : String) : List String :=
  if text.isEmpty then [] else (Text.splitAt ',' text.toList).map String.ofList

/-- The texts of values, which count from a number. All that do not fit are told. -/
def textsFrom (name : String) (number : Nat) : List Value → Except (List String) (List String)
  | [] => .ok []
  | value :: rest =>
      match textOf (name ++ "[" ++ toString number ++ "]") value, textsFrom name (number + 1) rest with
      | .ok text, .ok texts => .ok (text :: texts)
      | .ok _, .error causes => .error causes
      | .error causes, .ok _ => .error causes
      | .error causes, .error more => .error (causes ++ more)

/-- The texts that a value stands for: a sequence, a text with commas, or a single value. -/
def textsOf (name : String) (value : Value) : Except (List String) (List String) :=
  match value with
  | .list items => textsFrom name 0 items
  | .text value => .ok (commaSeparated value)
  | .table [] => .ok []
  | value => textsFrom name 0 [value]

/-- A single text with commas is a listing of several. -/
def expandListing (texts : List String) : List String :=
  match texts with
  | [only] => if only.toList.contains ',' then Text.listing only else [only]
  | _ => texts

/-! ## All together -/

def causesOf {α : Type} : Except (List String) α → List String
  | .ok _ => []
  | .error causes => causes

/-- The settings in force, or all values of the configuration file that do not fit. -/
def Settings.resolve (flags : SettingFlags) (environment : Variables) (entries : Entries) :
    Except (List String) Settings :=
  let text (flag given : Option String) (key fallback : String) : Except (List String) String :=
    match flag <|> given, entryOf entries key with
    | some text, _ => .ok text
    | none, some value => textOf key value
    | none, none => .ok fallback
  let ignore : Except (List String) (List String) :=
    match environment.ignore, entryOf entries "ignore" with
    | some text, _ => .ok (commaSeparated text)
    | none, some value => textsOf "ignore" value
    | none, none => .ok []
  let logLevel := text flags.logLevel environment.logLevel "log_level" "warn"
  let dialectDirectory :=
    text flags.dialectDirectory environment.dialectDirectory "dialect_dir" ""
  let machine := text flags.machine environment.machine "machine" ""
  let output := text none environment.output "output" ""
  match logLevel, dialectDirectory, machine, ignore, output with
  | .ok logLevel, .ok dialectDirectory, .ok machine, .ok ignore, .ok output =>
      .ok { logLevel, dialectDirectory, machine, ignore := expandListing ignore, output }
  | _, _, _, _, _ =>
      .error (causesOf logLevel ++ causesOf dialectDirectory ++ causesOf machine ++
        causesOf ignore ++ causesOf output)

end Kerf.Command
