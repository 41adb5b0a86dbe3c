import Kerf.Decimal.Numeral
import Kerf.Machine.Basic
import Kerf.Text.Blank
import Kerf.Toolpath.Path

/-!
# Reading code

Code is read line by line into a path. A point is made for every line that changes a position, the
feed, the speed or the motion mode. Comments are dropped, letters are read in any case, and moves
in machine coordinates are left out.
-/

set_option autoImplicit false

namespace Kerf.Machine

open Kerf.Text

/-! ## Words -/

/-- The capital of a letter, as far as it is an ASCII letter. Two letters beyond ASCII have one. -/
def capital (c : Char) : Char :=
  if c.toNat == 0x131 then 'I' else if c.toNat == 0x17f then 'S' else c.toUpper

/-- Whether a blank may stand between a letter and its number. -/
def isWordGap (c : Char) : Bool :=
  c == ' ' || c == '\t' || c == '\n' || c == '\r' || c.toNat == 12

/-- Whether the text right behind a code keeps it from being longer. -/
def endsCode (rest : List Char) : Bool :=
  match rest with
  | [] => true
  | c :: _ => !c.isDigit && c != '.'

/-- Whether a code stands somewhere in a line: the letter `G`, any number of zeros, and one of the
given endings. -/
def hasCode (endings : List (List Char)) : List Char → Bool
  | [] => false
  | c :: rest =>
      (c == 'G' &&
        let zeros := rest.takeWhile (· == '0')
        let tail := rest.drop zeros.length
        endings.any fun ending =>
          if ending == ['0'] then !zeros.isEmpty && endsCode tail
          else startsWith ending tail && endsCode (tail.drop ending.length)) ||
      hasCode endings rest

def isRapidLine (line : List Char) : Bool := hasCode [['0']] line

def isFeedLine (line : List Char) : Bool := hasCode [['1'], ['2'], ['3']] line

/-- Whether a line moves in machine coordinates. -/
def isAbsoluteLine (line : List Char) : Bool := hasCode [['5', '3']] line

/-- Reads a number at the start of a text: digits with an optional fraction, or a fraction alone. -/
def numeralAt (text : List Char) : Option Decimal.Numeral :=
  let (negative, body) :=
    match text with
    | '-' :: rest => (true, rest)
    | _ => (false, text)
  let whole := body.takeWhile Char.isDigit
  let fraction :=
    match body.drop whole.length with
    | '.' :: tail => tail.takeWhile Char.isDigit
    | _ => []
  if whole.isEmpty && fraction.isEmpty then none
  else some { negative, whole, fraction, exponent := 0 }

/-- The first number behind a letter. -/
def numeralAfter (letter : Char) : List Char → Option Decimal.Numeral
  | [] => none
  | c :: rest =>
      if c == letter then
        match numeralAt (rest.dropWhile isWordGap) with
        | some numeral => some numeral
        | none => numeralAfter letter rest
      else numeralAfter letter rest

/-- The value of the first number behind a letter. One that exceeds every double counts as absent. -/
def wordValue (letter : Char) (line : List Char) : Option Float :=
  (numeralAfter letter line).bind (·.value?)

/-! ## Lines -/

inductive ReadError where
  | unknownTool (line : Nat) (number : Int)
  | lineTooLong
  deriving DecidableEq, Repr

def ReadError.message : ReadError → String
  | .unknownTool line number =>
      "machine: line " ++ toString line ++ ": unknown tool T" ++ toString number
  | .lineTooLong => "machine: read: bufio.Scanner: token too long"

/-- Lines of this many bytes or more are refused. -/
def lineLimit : Nat := 1048576

/-- What is known after some lines. -/
structure ReadState where
  tool : Option Tool
  axes : List (Char × Float) := []
  rapid : Bool := false
  feed : Float := -1
  speed : Float := -1
  /-- The points made so far, the last one first. -/
  points : List Point := []

def axisLetters (machine : Machine) : List Char :=
  match machine.kinematics with
  | .planar => ['X', 'Y']
  | .vertical => ['X', 'Y', 'Z']
  | .table _ _ => ['X', 'Y', 'Z', 'A', 'B']

/-- The value of an axis, zero before it is first given. -/
def ReadState.axis (state : ReadState) (letter : Char) : Float :=
  (state.axes.lookup letter).getD 0

/-- Takes the value of one axis from a line, and says whether it is new. -/
def readAxis (line : List Char) (state : ReadState × Bool) (letter : Char) : ReadState × Bool :=
  match wordValue letter line with
  | none => state
  | some value =>
      let fresh := match state.1.axes.lookup letter with
        | some old => old != value
        | none => true
      ({ state.1 with axes := (letter, value) :: state.1.axes.filter (·.1 != letter) },
        state.2 || fresh)

/-- Takes the motion mode from a line, and says whether it changed. -/
def readMode (line : List Char) (state : ReadState) : ReadState × Bool :=
  if isRapidLine line && !state.rapid then ({ state with rapid := true }, true)
  else if isFeedLine line && state.rapid then ({ state with rapid := false }, true)
  else (state, false)

def ReadState.point (machine : Machine) (state : ReadState) : Point :=
  let values : AxisValues :=
    ⟨⟨state.axis 'X', state.axis 'Y', state.axis 'Z'⟩,
      ⟨state.axis 'A' / Scalar.degreesPerRadian, state.axis 'B' / Scalar.degreesPerRadian⟩⟩
  { machine.inverse values with
    feed := if state.rapid then 0 else state.feed
    speed := state.speed }

/-- Takes the tool from a line. Without a list of tools every number will do. -/
def readTool (tools : List Tool) (number : Nat) (line : List Char) (state : ReadState) :
    Except ReadError ReadState :=
  match wordValue 'T' line with
  | none => .ok state
  | some value =>
      let wanted := (Scalar.toWord value).toInt
      match tools.reverse.find? (·.number == wanted) with
      | some tool => .ok { state with tool := some tool }
      | none =>
          if tools.isEmpty then .ok state else .error (.unknownTool number wanted)

def readLine (machine : Machine) (tools : List Tool) (number : Nat) (line : List Char)
    (state : ReadState) : Except ReadError ReadState := do
  if isAllBlank line then return state
  let state ← readTool tools number line state
  let (state, changed) := readMode line state
  if isAbsoluteLine line then return state
  let (state, changed) := machine.axisLetters.foldl (readAxis line) (state, changed)
  let (state, changed) :=
    match wordValue 'F' line with
    | some value =>
        if value != state.feed then ({ state with feed := value }, true) else (state, changed)
    | none => (state, changed)
  let (state, changed) :=
    match wordValue 'S' line with
    | some value =>
        if value != state.speed then ({ state with speed := value }, true) else (state, changed)
    | none => (state, changed)
  return if changed then { state with points := state.point machine :: state.points } else state

def byteCount (text : List Char) : Nat := text.foldl (fun count c => count + c.utf8Size) 0

/-- The lines of code; a line end closes a line and does not open another. -/
def codeLines (code : List Char) : List (List Char) :=
  let lines := splitAt '\n' code
  if lines.getLast? == some [] then lines.dropLast else lines

def readLines (machine : Machine) (tools : List Tool) (state : ReadState) :
    Nat → List (List Char) → Except ReadError ReadState
  | _, [] => .ok state
  | number, line :: rest =>
      if lineLimit ≤ byteCount line then .error .lineTooLong
      else
        let line := if line.getLast? == some '\r' then line.dropLast else line
        let line := (machine.dialect.strip line).map capital
        match readLine machine tools number line state with
        | .error cause => .error cause
        | .ok state => readLines machine tools state (number + 1) rest

/-- Reads code into a path. The first tool is in use until a line names another. -/
def read (machine : Machine) (code : String) (tools : List Tool) : Except ReadError Path := do
  let state ← readLines machine tools { tool := tools.head? } 1 (codeLines code.toList)
  return { name := "read", tool := state.tool, points := state.points.reverse }

end Kerf.Machine
