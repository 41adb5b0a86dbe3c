import Kerf.Job.Value
import Kerf.Text.Search

/-!
# Arguments of calls

A call has positional arguments and keyword arguments, in any order. A keyword takes the argument
after it; at the end of a call it is a flag.
-/

set_option autoImplicit false

namespace Kerf.Job

open Kerf.Stock (Form)

/-! ## What an argument has to be -/

/-- What a place in a call takes. -/
inductive Expected where
  | number
  | string
  | keywordOrString
  | vec3
  | integer
  | flag
  | machine
  | tool
  | stock
  | additions
  | path
  | items
  deriving DecidableEq, Repr

def Expected.name : Expected → String
  | .number => "number"
  | .string => "string"
  | .keywordOrString => "keyword or string"
  | .vec3 => "vec3"
  | .integer => "integer"
  | .flag => "true or false"
  | .machine => "machine"
  | .tool => "tool"
  | .stock => "stock"
  | .additions => "additions"
  | .path => "path"
  | .items => "list or array"

structure Mismatch where
  expected : Expected
  got : Value

/-- The text of a mismatch. Plain values are shown with their kind. -/
def Mismatch.message (mismatch : Mismatch) : String :=
  let got := mismatch.got
  "expected " ++ mismatch.expected.name ++ ", got " ++
    match mismatch.expected with
    | .number | .string | .keywordOrString | .vec3 => got.kind ++ " (" ++ got.render ++ ")"
    | .items => got.kind
    | _ => got.render

namespace Value

/-- Drops the mark of a keyword. -/
def unmarked (content : String) : Option String :=
  let mark := keywordMark.toList
  if Text.startsWith mark content.toList then
    some (String.ofList (content.toList.drop mark.length))
  else none

def keyword? : Value → Option String
  | .text content _ => unmarked content
  | _ => none

def asNumber : Value → Except Mismatch Float
  | .int value => .ok (Scalar.ofWord value)
  | .float value _ => .ok value
  | got => .error ⟨.number, got⟩

/-- A string. A keyword is one with its mark. -/
def asString : Value → Except Mismatch String
  | .text content _ => .ok content
  | got => .error ⟨.string, got⟩

/-- A keyword or a plain string, without the mark. -/
def asWord : Value → Except Mismatch String
  | .text content _ => .ok ((unmarked content).getD content)
  | got => .error ⟨.keywordOrString, got⟩

def asVec : Value → Except Mismatch Vec
  | .vec3 v => .ok v
  | got => .error ⟨.vec3, got⟩

def asInteger : Value → Except Mismatch Int
  | .int value => .ok value.toInt
  | got => .error ⟨.integer, got⟩

def asFlag : Value → Except Mismatch Bool
  | .bool value => .ok value
  | got => .error ⟨.flag, got⟩

def asMachine : Value → Except Mismatch Machine
  | .machine content => .ok content
  | got => .error ⟨.machine, got⟩

def asTool : Value → Except Mismatch Tool
  | .tool content => .ok content
  | got => .error ⟨.tool, got⟩

def asForm : Value → Except Mismatch Form
  | .form content => .ok content
  | got => .error ⟨.stock, got⟩

def asAdditions : Value → Except Mismatch Additions
  | .additions content => .ok content
  | got => .error ⟨.additions, got⟩

def asPath : Value → Except Mismatch Path
  | .path content => .ok content
  | got => .error ⟨.path, got⟩

def asItems : Value → Except Mismatch (List Value)
  | .list head tail => .ok (head :: tail)
  | .array items => .ok items
  | .nil => .ok []
  | got => .error ⟨.items, got⟩

end Value

/-! ## Splitting arguments -/

structure Arguments where
  positional : List Value
  /-- Keywords with their values, as they come. -/
  keywords : List (String × Value)

namespace Arguments

def none : Arguments := ⟨[], []⟩

def ofValues : List Value → Arguments
  | [] => none
  | value :: rest =>
      match value.keyword?, rest with
      | some key, taken :: rest =>
          let arguments := ofValues rest
          { arguments with keywords := (key, taken) :: arguments.keywords }
      | some key, [] => ⟨[], [(key, .bool true)]⟩
      | Option.none, rest =>
          let arguments := ofValues rest
          { arguments with positional := value :: arguments.positional }

/-- The value of a keyword; the last one given counts. -/
def get? (arguments : Arguments) (key : String) : Option Value :=
  arguments.keywords.reverse.lookup key

end Arguments

end Kerf.Job
