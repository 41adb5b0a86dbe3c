import Kerf.Decimal.Layout
import Kerf.Dialect.Comment
import Kerf.Dialect.Template
import Kerf.Rotary

/-!
# Dialects

The code table of one machine: how it writes comments and numbers, what frames a program and a
path, and how far its axes travel.
-/

set_option autoImplicit false

namespace Kerf

open Kerf.Scalar

/-- The axes a machine has. -/
inductive Kind where
  | twoAxis
  | threeAxis
  | abTable
  /-- A kind that no machine has. -/
  | unknown (name : String)
  deriving DecidableEq, Repr, Inhabited

def Kind.name : Kind → String
  | .twoAxis => "two-axis"
  | .threeAxis => "three-axis"
  | .abTable => "ab-table"
  | .unknown name => name

def Kind.ofName (name : String) : Kind :=
  match name with
  | "two-axis" => .twoAxis
  | "three-axis" => .threeAxis
  | "ab-table" => .abTable
  | _ => .unknown name

/-- The code table of one machine. Angles are in degrees. -/
structure Dialect where
  name : String := ""
  kind : Kind := .unknown ""
  commentStart : String := ""
  commentEnd : String := ""
  sectionBreak : String := ""
  speedChange : String := ""
  /-- A template for the tool number. -/
  toolChange : String := ""
  header : String := ""
  footer : String := ""
  pathStart : String := ""
  pathEnd : String := ""
  numberLines : Bool := false
  lineStep : Int64 := 0
  /-- The places of numbers; all that are needed when negative. -/
  precision : Int := 0
  /-- The longest jump between paths in material. -/
  pathJump : Float := 0
  aMin : Float := 0
  aMax : Float := 0
  bMax : Float := 0
  pivot : Vec := Vec.zero
  extension : String := ""
  deriving Inhabited

namespace Dialect

/-- Fills in what a table leaves out. The closing comment mark is only filled in together with the
opening one. -/
def withDefaults (dialect : Dialect) : Dialect :=
  { dialect with
    kind := if dialect.kind = .unknown "" then .threeAxis else dialect.kind
    commentStart := if dialect.commentStart.isEmpty then "(" else dialect.commentStart
    commentEnd :=
      if dialect.commentStart.isEmpty && dialect.commentEnd.isEmpty then ")"
      else dialect.commentEnd
    lineStep := if dialect.lineStep = 0 then 10 else dialect.lineStep
    precision := if dialect.precision = 0 then 3 else dialect.precision
    pathJump := if dialect.pathJump == 0 then 2 else dialect.pathJump
    extension := if dialect.extension.isEmpty then "nc" else dialect.extension }

/-! ## Validation -/

inductive Defect where
  | noName
  | unknownKind (name : String)
  | toolChange
  | precision (places : Int)
  | tiltTravel (aMin aMax : Float)
  | spinTravel

def Defect.message : Defect → String
  | .noName => "name is required"
  | .unknownKind name => "unknown kind " ++ Text.quoted name
  | .toolChange => "tool_change must contain %d exactly once"
  | .precision places => "precision " ++ toString places ++ " out of range"
  | .tiltTravel aMin aMax =>
      "a_min " ++ Decimal.general aMin ++ " must be below a_max " ++ Decimal.general aMax
  | .spinTravel => "b_max must be positive"

/-- Everything that makes a table unusable, in the order it is reported. -/
def defects (dialect : Dialect) : List Defect :=
  (if dialect.name.isEmpty then [.noName] else []) ++
    (match dialect.kind with
      | .unknown name => [.unknownKind name]
      | _ => []) ++
    (if !dialect.toolChange.isEmpty &&
        Text.countOf ['%', 'd'] dialect.toolChange.toList ≠ 1 then [.toolChange] else []) ++
    (if dialect.precision < 0 || 8 < dialect.precision then [.precision dialect.precision]
      else []) ++
    (if dialect.kind = .abTable then
      (if dialect.aMin >= dialect.aMax then [.tiltTravel dialect.aMin dialect.aMax] else []) ++
        (if dialect.bMax <= 0 then [.spinTravel] else [])
    else [])

structure Invalid where
  name : String
  defects : List Defect

def Invalid.message (invalid : Invalid) : String :=
  "dialect " ++ Text.quoted invalid.name ++ ": " ++
    "\n".intercalate (invalid.defects.map Defect.message)

def validate (dialect : Dialect) : Except Invalid Unit :=
  if dialect.defects.isEmpty then .ok () else .error ⟨dialect.name, dialect.defects⟩

/-! ## What a table writes -/

/-- The travel of the rotary axes in radians. -/
def limits (dialect : Dialect) : Rotary.Limits :=
  { aMin := dialect.aMin * radiansPerDegree
    aMax := dialect.aMax * radiansPerDegree
    bMax := dialect.bMax * radiansPerDegree }

/-- The block that changes to a tool number; empty without a template. -/
def toolChangeBlock (dialect : Dialect) (number : Int) : String :=
  if dialect.toolChange.isEmpty then "" else Template.fill dialect.toolChange number

def comment (dialect : Dialect) (text : String) : String :=
  dialect.commentStart ++ text ++ dialect.commentEnd

def strip (dialect : Dialect) (line : List Char) : List Char :=
  stripComments dialect.commentStart.toList dialect.commentEnd.toList line

/-- A number as text: rounded to the places of the table, without zeros at the end and without a
negative zero. -/
def format (dialect : Dialect) (x : Float) : String :=
  let text :=
    if dialect.precision < 0 then Decimal.shortestWith Decimal.Scaled.plain x
    else Decimal.fixed dialect.precision.toNat x
  let text := Decimal.trimFraction text
  String.ofList (if text = ['-', '0'] then ['0'] else text)

end Dialect

end Kerf
