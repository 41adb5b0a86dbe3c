import Kerf.Decimal.Numeral
import Kerf.Decimal.Power
import Kerf.Text.Octets
import Kerf.Yaml.Problem
import Kerf.Yaml.Timestamp

/-!
# Scalars

What a scalar means: nothing, a truth value, a number, a timestamp, or text. A plain scalar tells it
by its looks; a tag can ask for a meaning.
-/

set_option autoImplicit false

namespace Kerf.Yaml

inductive Meaning where
  | null
  | bool (value : Bool)
  | int (value : Int)
  | float (value : Float)
  | timestamp
  | text

def Meaning.tag : Meaning → String
  | .null => "!!null"
  | .bool _ => "!!bool"
  | .int _ => "!!int"
  | .float _ => "!!float"
  | .timestamp => "!!timestamp"
  | .text => "!!str"

/-! ## Whole numbers -/

def digitValue (c : Char) : Option Nat :=
  if c.isDigit then some (c.toNat - '0'.toNat)
  else if 'a' ≤ c && c ≤ 'f' then some (c.toNat - 'a'.toNat + 10)
  else if 'A' ≤ c && c ≤ 'F' then some (c.toNat - 'A'.toNat + 10)
  else none

/-- A whole number in a base, from a non-empty run of its digits. -/
def wholeOf (base : Nat) (text : List Char) : Option Nat :=
  if text.isEmpty then none
  else
    text.foldl
      (fun value c => do
        let value ← value
        let digit ← digitValue c
        if digit < base then some (base * value + digit) else none)
      (some 0)

/-- A whole number with the base marks `0x`, `0o`, `0b`, or a leading zero for octal. -/
def markedWholeOf : List Char → Option Nat
  | '0' :: mark :: rest =>
      if mark == 'x' || mark == 'X' then wholeOf 16 rest
      else if mark == 'o' || mark == 'O' then wholeOf 8 rest
      else if mark == 'b' || mark == 'B' then wholeOf 2 rest
      else wholeOf 8 (mark :: rest)
  | text => wholeOf 10 text

def takeSign : List Char → Bool × List Char
  | '-' :: rest => (true, rest)
  | '+' :: rest => (false, rest)
  | text => (false, text)

/-- A whole number that fits into 64 bits, signed or not, with a reader of its size. -/
def intWith (size : List Char → Option Nat) (text : List Char) : Option Int :=
  let (negative, body) := takeSign text
  match size body with
  | none => none
  | some size =>
      if negative then if size ≤ twoTo 63 then some (-Int.ofNat size) else none
      else if size < twoTo 63 then some (Int.ofNat size)
      else if text == body && size < twoTo 64 then some (Int.ofNat size)
      else none

/-- A whole number whose sign stands behind the mark of its base, which is `0b` or `0o`. -/
def innerSignedOf : List Char → Option Int
  | '0' :: 'b' :: rest => intWith (wholeOf 2) rest
  | '0' :: 'o' :: rest => intWith (wholeOf 8) rest
  | _ => none

/-! ## Decimal numbers -/

/-- Reads the power of ten of a numeral; nothing is a power of zero. -/
def exponentOf : List Char → Option Int
  | [] => some 0
  | mark :: rest =>
      if mark == 'e' || mark == 'E' then
        let (negative, run) := takeSign rest
        if run.isEmpty || !run.all Char.isDigit then none
        else
          let size := Int.ofNat (Decimal.ofDigits run)
          some (if negative then -size else size)
      else none

/-- A decimal numeral with an optional sign, point and exponent. -/
def numeralOf (text : List Char) : Option Decimal.Numeral :=
  let (negative, body) := takeSign text
  let whole := body.takeWhile Char.isDigit
  let rest := body.drop whole.length
  let (fraction, rest) :=
    match rest with
    | '.' :: tail =>
        let run := tail.takeWhile Char.isDigit
        (run, tail.drop run.length)
    | _ => ([], rest)
  if whole.isEmpty && fraction.isEmpty then none
  else (exponentOf rest).map fun exponent => { negative, whole, fraction, exponent }

def floatOf (text : List Char) : Option Float := (numeralOf text).bind (·.value?)

/-- Whether every underscore stands between two digits, after a digit or not. -/
def joinsDigits (afterDigit : Bool) : List Char → Bool
  | [] => true
  | c :: rest =>
      if c == '_' then afterDigit && rest.head?.any (fun c => c.isDigit) && joinsDigits false rest
      else joinsDigits c.isDigit rest

/-! ## Plain scalars -/

def wordMeaning : String → Option Meaning
  | "" | "~" | "null" | "Null" | "NULL" => some .null
  | "true" | "True" | "TRUE" => some (.bool true)
  | "false" | "False" | "FALSE" => some (.bool false)
  | ".nan" | ".NaN" | ".NAN" => some (.float (0.0 / 0.0))
  | ".inf" | ".Inf" | ".INF" | "+.inf" | "+.Inf" | "+.INF" => some (.float (1.0 / 0.0))
  | "-.inf" | "-.Inf" | "-.INF" => some (.float (-1.0 / 0.0))
  | _ => none

/-- The meaning of a scalar that starts with a digit or a sign. Underscores are dropped. -/
def numberMeaning (text : List Char) : Meaning :=
  let plain := text.filter (· != '_')
  match intWith markedWholeOf plain with
  | some value => .int value
  | none =>
      match floatOf plain with
      | some value => .float value
      | none =>
          match innerSignedOf plain with
          | some value => .int value
          | none => .text

/-- The meaning of a scalar by its looks, where timestamps may count or not. -/
def Meaning.ofText (timestamps : Bool) (text : String) : Meaning :=
  match wordMeaning text with
  | some meaning => meaning
  | none =>
      match text.toList with
      | [] => .null
      | first :: rest =>
          if first == '.' then
            if joinsDigits false (first :: rest) then
              match floatOf ((first :: rest).filter (· != '_')) with
              | some value => .float value
              | none => .text
            else .text
          else if first.isDigit || first == '+' || first == '-' then
            if timestamps && Timestamp.isTimestamp (first :: rest) then .timestamp
            else numberMeaning (first :: rest)
          else .text

def Meaning.ofPlain (text : String) : Meaning := .ofText true text

/-! ## Tagged scalars -/

def digit64 (c : Char) : Option Nat :=
  if 'A' ≤ c && c ≤ 'Z' then some (c.toNat - 'A'.toNat)
  else if 'a' ≤ c && c ≤ 'z' then some (c.toNat - 'a'.toNat + 26)
  else if c.isDigit then some (c.toNat - '0'.toNat + 52)
  else if c == '+' then some 62
  else if c == '/' then some 63
  else none

/-- The octets that groups of four digits of base 64 stand for. Only the last group can be short,
and is then filled up. -/
def octets64 : List Char → Option (List UInt8)
  | [] => some []
  | [a, b, '=', '='] => do
      let value := 64 * (← digit64 a) + (← digit64 b)
      return [UInt8.ofNat (value / 16)]
  | [a, b, c, '='] => do
      let value := 4096 * (← digit64 a) + 64 * (← digit64 b) + (← digit64 c)
      return [UInt8.ofNat (value / 1024), UInt8.ofNat (value / 4)]
  | a :: b :: c :: d :: rest => do
      let value :=
        262144 * (← digit64 a) + 4096 * (← digit64 b) + 64 * (← digit64 c) + (← digit64 d)
      let later ← octets64 rest
      return UInt8.ofNat (value / 65536) :: UInt8.ofNat (value / 256) :: UInt8.ofNat value :: later
  | _ => none

/-- What a scalar says: its meaning and, where it is text, that text. -/
structure Content where
  meaning : Meaning
  text : String

/-- The tags that a scalar has to fit. -/
def isFitted (tag : String) : Bool :=
  tag == "!!bool" || tag == "!!int" || tag == "!!float" || tag == "!!null" || tag == "!!timestamp"

/-- What a scalar with a tag says. A whole number fits where a number is asked for, unless it takes
all of 64 bits. -/
def Content.ofTagged (tag text : String) : Except Fault Content :=
  if tag == "!!binary" then
    match octets64 (text.toList.filter fun c => c != '\n' && c != '\r') with
    | some octets => .ok ⟨.text, Text.ofOctets octets⟩
    | none => .error .brokenBinary
  else if isFitted tag then
    let meaning := Meaning.ofText (tag == "!!timestamp") text
    match meaning with
    | .int value =>
        if tag == "!!int" then .ok ⟨meaning, text⟩
        else if tag == "!!float" && value < twoTo 63 then .ok ⟨.float (Float.ofInt value), text⟩
        else .error (.wrongTag meaning.tag text tag)
    | _ =>
        if meaning.tag == tag then .ok ⟨meaning, text⟩
        else .error (.wrongTag meaning.tag text tag)
  else .ok ⟨.text, text⟩

end Kerf.Yaml
