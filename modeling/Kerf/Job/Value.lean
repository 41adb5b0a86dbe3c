import Kerf.Instruction.Basic
import Kerf.Job.Syntax

/-!
# Values of jobs

What expressions evaluate to: plain values, lists and arrays of them, and the parts of an
instruction.
-/

set_option autoImplicit false

namespace Kerf.Job

open Kerf.Stock (Form)

/-- A value. An empty list is `nil`. -/
inductive Value where
  | int (value : Int64)
  | float (value : Float) (scientific : Bool)
  | text (content : String) (raw : Bool)
  | bool (value : Bool)
  | char (value : Char)
  | comma
  | symbol (name : String)
  /-- A function by its own name. -/
  | function (name : String)
  | nil
  | list (head : Value) (tail : List Value)
  | array (items : List Value)
  | vec3 (v : Vec)
  | machine (content : Machine)
  | tool (content : Tool)
  | form (content : Form)
  | point (content : Point)
  | additions (content : Additions)
  | path (content : Path)
  | operation (content : Operation)
  | instruction (content : Instruction)
  deriving Inhabited

namespace Value

def ofLiteral : Literal → Value
  | .int value => .int value
  | .float value scientific => .float value scientific
  | .text content raw => .text content raw
  | .bool value => .bool value
  | .char value => .char value
  | .comma => .comma

def ofList : List Value → Value
  | [] => .nil
  | head :: tail => .list head tail

mutual

def ofDatum : Datum → Value
  | .literal value => ofLiteral value
  | .symbol name _ => .symbol name
  | .list items => ofList (ofData items)
  | .array items => .array (ofData items)

def ofData : List Datum → List Value
  | [] => []
  | datum :: rest => ofDatum datum :: ofData rest

end

def kind : Value → String
  | .int _ => "*zygo.SexpInt"
  | .float _ _ => "*zygo.SexpFloat"
  | .text _ _ => "*zygo.SexpStr"
  | .bool _ => "*zygo.SexpBool"
  | .char _ => "*zygo.SexpChar"
  | .comma => "*zygo.SexpComma"
  | .symbol _ => "*zygo.SexpSymbol"
  | .function _ => "*zygo.SexpFunction"
  | .nil => "*zygo.SexpSentinel"
  | .list _ _ => "*zygo.SexpPair"
  | .array _ => "*zygo.SexpArray"
  | .vec3 _ => "*engine.sexpVec3"
  | .machine _ => "*engine.sexpMachine"
  | .tool _ => "*engine.sexpTool"
  | .form _ => "*engine.sexpForm"
  | .point _ => "*engine.sexpPoint"
  | .additions _ => "*engine.sexpAdditions"
  | .path _ => "*engine.sexpPath"
  | .operation _ => "*engine.sexpOperation"
  | .instruction _ => "*engine.sexpInstruction"

/-- A vector as the call that makes it. -/
def vecText (v : Vec) : String :=
  "(vec3 " ++ " ".intercalate (v.components.map Decimal.general) ++ ")"

mutual

def render : Value → String
  | .int value => toString value.toInt
  | .float value scientific =>
      if scientific then Decimal.exponential value else Decimal.plain value
  | .text content raw => if raw then "\x60" ++ content ++ "\x60" else Text.quoted content
  | .bool value => if value then "true" else "false"
  | .char value => String.ofList ('\'' :: Text.charBetween '\'' value ++ ['\''])
  | .comma => ","
  | .symbol name => name
  | .function name => "fn [" ++ name ++ "]"
  | .nil => "nil"
  | .list head tail => "(" ++ " ".intercalate (render head :: renderAll tail) ++ ")"
  | .array items => "[" ++ " ".intercalate (renderAll items) ++ "]"
  | .vec3 v => vecText v
  | .machine content => "(machine " ++ Text.quoted content.name ++ ")"
  | .tool content =>
      "(tool " ++ Text.quoted content.name ++ " :number " ++ toString content.number ++ ")"
  | .form content => "(" ++ content.describe ++ ")"
  | .point content => "(pt " ++ vecText content.position ++ ")"
  | .additions _ => "(additions)"
  | .path content =>
      "(path " ++ Text.quoted content.name ++ " ; " ++ toString content.points.length ++ " points)"
  | .operation content =>
      "(operation " ++ Text.quoted content.name ++ " ; " ++ toString content.paths.length ++
        " paths)"
  | .instruction content => "(instruction " ++ Text.quoted content.name ++ ")"

def renderAll : List Value → List String
  | [] => []
  | value :: rest => render value :: renderAll rest

end

mutual

/-- The entries of a value: those of a list or array, however deep, and else the value itself. -/
def entries : Value → List Value
  | .list head tail => entries head ++ flatten tail
  | .array items => flatten items
  | value => [value]

/-- The entries of values in order, so that they may be grouped in any way. -/
def flatten : List Value → List Value
  | [] => []
  | value :: rest => entries value ++ flatten rest

end

end Value

end Kerf.Job
