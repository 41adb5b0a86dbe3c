import Kerf.Command.Settings

/-!
# The command line

A command with its flags and arguments. Flags may stand anywhere, and a flag that takes a value
takes it behind an equals sign or from the next argument.
-/

set_option autoImplicit false

namespace Kerf.Command

inductive Verb where
  | compile
  | read
  | stock
  | watch
  | dialects
  deriving DecidableEq, Repr

namespace Verb

def all : List Verb := [.compile, .read, .stock, .watch, .dialects]

def name : Verb → String
  | .compile => "compile"
  | .read => "read"
  | .stock => "stock"
  | .watch => "watch"
  | .dialects => "dialects"

def ofName? (name : String) : Option Verb := all.find? (·.name == name)

def takesSubject (verb : Verb) : Bool := verb ≠ .dialects

def subjectName (verb : Verb) : String := if verb = .read then "FILE" else "JOB"

end Verb

inductive Flag where
  | logLevel
  | dialects
  | machine
  | output
  | ignore
  | stl
  | bubble
  | cells
  deriving DecidableEq, Repr

namespace Flag

def name : Flag → String
  | .logLevel => "log-level"
  | .dialects => "dialects"
  | .machine => "machine"
  | .output => "output"
  | .ignore => "ignore"
  | .stl => "stl"
  | .bubble => "bubble"
  | .cells => "cells"

def common : List Flag := [.logLevel, .dialects, .machine]

def own : Verb → List Flag
  | .compile => [.output, .ignore]
  | .stock => [.stl, .bubble, .cells]
  | .watch => [.output]
  | .read | .dialects => []

def ofVerb (verb : Verb) : List Flag := common ++ own verb

/-- Whether a flag can stand without a value. -/
def isSwitch (flag : Flag) : Bool := flag = .bubble

end Flag

inductive UsageError where
  | unknownCommand (name : String)
  | unknownFlag (name : String)
  | flagSyntax (argument : String)
  | unknownShorthand (letter : Char) (argument : String)
  | noValue (flag : Flag)
  | noShorthandValue (letter : Char) (argument : String)
  | badValue (flag value problem : String)
  | argumentCount (got : Nat)
  | strayArgument (argument : String)
  deriving DecidableEq, Repr

/-- The fewest changes of single letters that make one text out of another. The row holds the counts
for the beginnings of the second text. -/
def changes (row : List Nat) (text : List Char) : List Char → List Nat
  | [] => row
  | c :: rest =>
      let first := row.headD 0 + 1
      let next := (row.zip (row.drop 1)).zip text |>.foldl
        (fun (done : List Nat) ((diagonal, above), other) =>
          let left := done.headD 0
          (if c == other then diagonal else 1 + min diagonal (min above left)) :: done)
        [first]
      changes next.reverse text rest

/-- How far apart two names are, in any case of letters. -/
def distance (a b : String) : Nat :=
  let lower (text : String) := text.toList.map Char.toLower
  (changes (List.range (b.length + 1)) (lower b) (lower a)).getLastD 0

/-- The commands that may have been meant by a name: those that are close to it or start with it. -/
def suggestions (name : String) : List String :=
  (Verb.all.map (·.name) ++ ["completion"]).filter fun known =>
    distance name known ≤ 2 ||
      Text.startsWith (name.toList.map Char.toLower) (known.toList.map Char.toLower)

/-- The commands that may have been meant, as a part of a message. -/
def suggestionText (name : String) : String :=
  match suggestions name with
  | [] => ""
  | names => "\n\nDid you mean this?\n" ++ String.join (names.map fun known => "\t" ++ known ++ "\n")

/-- The first octet of a letter, as a letter between quotes. -/
def letterText (letter : Char) : String :=
  let octet := (String.singleton letter).toUTF8.toList.headD 0
  String.ofList ('\'' :: Text.charBetween '\'' (Char.ofNat octet.toNat) ++ ['\''])

def UsageError.message : UsageError → String
  | .unknownCommand name =>
      "unknown command " ++ Text.quoted name ++ " for \"chisel\"" ++ suggestionText name
  | .unknownFlag name => "unknown flag: --" ++ name
  | .flagSyntax argument => "bad flag syntax: " ++ argument
  | .unknownShorthand letter argument =>
      "unknown shorthand flag: " ++ letterText letter ++ " in -" ++ argument
  | .noValue flag => "flag needs an argument: --" ++ flag.name
  | .noShorthandValue letter argument =>
      "flag needs an argument: " ++ letterText letter ++ " in -" ++ argument
  | .badValue flag value problem =>
      "invalid argument " ++ Text.quoted value ++ " for \"" ++ flag ++ "\" flag: " ++ problem
  | .argumentCount got => "accepts 1 arg(s), received " ++ toString got
  | .strayArgument argument =>
      "unknown command " ++ Text.quoted argument ++ " for \"chisel dialects\""

/-- What a command line asks for. -/
structure Invocation where
  verb : Verb
  /-- The file that the command works on. -/
  subject : String := ""
  settings : SettingFlags := {}
  output : String := ""
  ignore : List String := []
  stl : String := ""
  bubble : Bool := false
  /-- Whether only help was asked for. -/
  help : Bool := false
  deriving DecidableEq, Repr

/-! ## Finding the command -/

/-- Whether an argument takes the next one as its value, as far as is known before the command. -/
def takesNext (argument : List Char) : Bool :=
  !argument.contains '=' &&
    match argument with
    | '-' :: '-' :: _ => true
    | ['-', _] => true
    | _ => false

/-- The first argument that is neither a flag nor the value of one, and the arguments without it. -/
def takeVerb : List String → Option (String × List String)
  | [] => none
  | argument :: rest =>
      let characters := argument.toList
      if argument = "--" then none
      else if takesNext characters then
        match rest with
        | [] => none
        | value :: rest => (takeVerb rest).map fun (verb, others) => (verb, argument :: value :: others)
      else if characters.head? = some '-' || characters.isEmpty then
        (takeVerb rest).map fun (verb, others) => (verb, argument :: others)
      else some (argument, rest)

/-! ## Reading flags -/

def switchOf? : String → Option Bool
  | "1" | "t" | "T" | "true" | "TRUE" | "True" => some true
  | "0" | "f" | "F" | "false" | "FALSE" | "False" => some false
  | _ => none

def switchProblem (value : String) : String :=
  "strconv.ParseBool: parsing " ++ Text.quoted value ++ ": invalid syntax"

/-- Whether every underscore in a number stands between digits or behind the mark of a base. -/
def underscoresFit (text : List Char) : Bool :=
  match text with
  | '0' :: mark :: rest =>
      if ['b', 'B', 'o', 'O', 'x', 'X'].contains mark then joined true rest
      else joined false text
  | _ => joined false text
where
  joined (afterDigit : Bool) : List Char → Bool
    | [] => true
    | '_' :: rest => afterDigit && !rest.isEmpty && rest.head? ≠ some '_' && joined false rest
    | _ :: rest => joined true rest

/-- What is wrong with a number of cells: whole numbers may have a sign, the mark of a base and
underscores. -/
def cellsProblem (value : String) : Option String :=
  let (negative, body) := Yaml.takeSign value.toList
  let limit := if negative then twoTo 63 else twoTo 63 - 1
  let parsing := "strconv.ParseInt: parsing " ++ Text.quoted value ++ ": "
  match Yaml.markedWholeOf (body.filter (· != '_')) with
  | none => some (parsing ++ "invalid syntax")
  | some size =>
      if !underscoresFit body then some (parsing ++ "invalid syntax")
      else if limit < size then some (parsing ++ "value out of range")
      else none

def Invocation.set (invocation : Invocation) (flag : Flag) (value : String) :
    Except UsageError Invocation :=
  let settings := invocation.settings
  match flag with
  | .logLevel => .ok { invocation with settings := { settings with logLevel := some value } }
  | .dialects =>
      .ok { invocation with settings := { settings with dialectDirectory := some value } }
  | .machine => .ok { invocation with settings := { settings with machine := some value } }
  | .output => .ok { invocation with output := value }
  | .ignore => .ok { invocation with ignore := invocation.ignore ++ [value] }
  | .stl => .ok { invocation with stl := value }
  | .bubble =>
      match switchOf? value with
      | some on => .ok { invocation with bubble := on }
      | none => .error (.badValue ("--" ++ flag.name) value (switchProblem value))
  | .cells =>
      match cellsProblem value with
      | none => .ok invocation
      | some problem => .error (.badValue ("--" ++ flag.name) value problem)

/-- Asks for help, or not. -/
def Invocation.setHelp (invocation : Invocation) (value : String) : Except UsageError Invocation :=
  match switchOf? value with
  | some help => .ok { invocation with help }
  | none => .error (.badValue "-h, --help" value (switchProblem value))

/-- Splits a text at its first equals sign. -/
def splitValue (text : List Char) : String × Option String :=
  let name := text.takeWhile (· != '=')
  (String.ofList name,
    if name.length < text.length then some (String.ofList (text.drop (name.length + 1))) else none)

/-- Reads the letters behind a single hyphen. A letter that takes a value takes the rest of them or
the next argument, and `-h` can be followed by others. -/
def readLetters (invocation : Invocation) (rest : List String) :
    List Char → Except UsageError (Invocation × List String)
  | [] => .ok (invocation, rest)
  | letter :: body =>
      let shown := String.ofList (letter :: body)
      if letter == 'h' then
        match body with
        | '=' :: c :: value => do
            return (← invocation.setHelp (String.ofList (c :: value)), rest)
        | body => do
            let invocation ← invocation.setHelp "true"
            readLetters invocation rest body
      else if letter == 'o' && (Flag.ofVerb invocation.verb).contains .output then
        match body, rest with
        | '=' :: c :: value, rest => do
            return (← invocation.set .output (String.ofList (c :: value)), rest)
        | c :: value, rest => do
            return (← invocation.set .output (String.ofList (c :: value)), rest)
        | [], value :: rest => do return (← invocation.set .output value, rest)
        | [], [] => .error (.noShorthandValue letter shown)
      else .error (.unknownShorthand letter shown)

/-- Reads flags and arguments, at most a number of them. The arguments found so far are in order. -/
def readArguments (invocation : Invocation) (found : List String) :
    Nat → List String → Except UsageError (Invocation × List String)
  | 0, rest => .ok (invocation, found ++ rest)
  | _, [] => .ok (invocation, found)
  | limit + 1, argument :: rest =>
      let flags := Flag.ofVerb invocation.verb
      match argument.toList with
      | ['-', '-'] => .ok (invocation, found ++ rest)
      | '-' :: '-' :: body =>
          let (name, value) := splitValue body
          if name.isEmpty || name.toList.head? = some '-' then .error (.flagSyntax argument)
          else if name = "help" then do
            let invocation ← invocation.setHelp (value.getD "true")
            readArguments invocation found limit rest
          else
            match flags.find? (·.name == name), value, rest with
            | none, _, _ => .error (.unknownFlag name)
            | some flag, some value, rest => do
                let invocation ← invocation.set flag value
                readArguments invocation found limit rest
            | some flag, none, rest =>
                if flag.isSwitch then do
                  let invocation ← invocation.set flag "true"
                  readArguments invocation found limit rest
                else
                  match rest with
                  | [] => .error (.noValue flag)
                  | value :: rest => do
                      let invocation ← invocation.set flag value
                      readArguments invocation found limit rest
      | '-' :: letter :: body => do
          let (invocation, rest) ← readLetters invocation rest (letter :: body)
          readArguments invocation found limit rest
      | _ => readArguments invocation (found ++ [argument]) limit rest

inductive Request where
  | run (invocation : Invocation)
  /-- Help about a command, or about the program. -/
  | help (topic : Option Verb)
  /-- The same, asked for by a command of its own. -/
  | helpCommand (settings : SettingFlags) (topic : List String)
  deriving DecidableEq, Repr

/-- What a command line asks for; help about the program if it names no command. The flags are
checked all the same, and `dialects` and `help` take only those of all commands. -/
def Request.read (arguments : List String) : Except UsageError Request :=
  let limit := arguments.length
  match takeVerb arguments with
  | none => do
      let _ ← readArguments { verb := .dialects } [] limit arguments
      return .help none
  | some (name, rest) =>
      match Verb.ofName? name with
      | none =>
          if name = "help" then do
            let (invocation, found) ← readArguments { verb := .dialects } [] limit rest
            return .helpCommand invocation.settings found
          else .error (.unknownCommand name)
      | some verb => do
          let (invocation, found) ← readArguments { verb } [] limit rest
          if invocation.help then return .help verb
          match verb, found with
          | .dialects, [] => return .run invocation
          | .dialects, argument :: _ => throw (.strayArgument argument)
          | _, [subject] => return .run { invocation with subject }
          | _, _ => throw (.argumentCount found.length)

end Kerf.Command
