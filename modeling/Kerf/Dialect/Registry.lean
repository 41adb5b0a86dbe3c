import Kerf.Dialect.Basic
import Kerf.Sorting

/-!
# Registries

The dialects that jobs can name, starting with the built-in ones.
-/

set_option autoImplicit false

namespace Kerf.Dialect

/-! ## Built-in dialects -/

def generic3 : Dialect :=
  { name := "generic3"
    kind := .threeAxis
    commentStart := "("
    commentEnd := ")"
    sectionBreak := "(------------------------------------------)"
    speedChange := "M03"
    toolChange := "M05\nT%d M06"
    header := "%\nG90 G21 G17\nG54"
    footer := "M05\nG28\nM30\n%"
    lineStep := 10
    precision := 3
    pathJump := 2
    extension := "nc" }

def laser : Dialect :=
  { name := "laser"
    kind := .twoAxis
    commentStart := ";"
    sectionBreak := ";----"
    header := "G90 G21\nM05"
    footer := "M05\nG00 X0 Y0"
    pathStart := "M03"
    pathEnd := "M05"
    lineStep := 10
    precision := 3
    pathJump := 0.5
    extension := "gcode" }

def pocketnc : Dialect :=
  { name := "pocketnc"
    kind := .abTable
    commentStart := "("
    commentEnd := ")"
    sectionBreak := "(------------------------------------------)"
    speedChange := "M03"
    toolChange := "M05\nG53 G00 Z0\nT%d M06\nG43 H%[1]d"
    header := "%\nG90 G21 G17\nG54"
    footer := "M05\nG53 G00 Z0\nG53 G00 A0 B0\nM30\n%"
    numberLines := true
    lineStep := 10
    precision := 4
    pathJump := 1
    aMin := -25
    aMax := 135
    bMax := 9999
    extension := "ngc" }

end Kerf.Dialect

namespace Kerf

/-- Dialects by name; no two have the same. -/
structure Registry where
  dialects : List Dialect

structure UnknownMachine where
  name : String
  known : List String

def UnknownMachine.message (unknown : UnknownMachine) : String :=
  "dialect: unknown machine " ++ Text.quoted unknown.name ++ " (have " ++
    ", ".intercalate unknown.known ++ ")"

namespace Registry

def builtin : Registry := ⟨[Dialect.generic3, Dialect.laser, Dialect.pocketnc]⟩

/-- Adds a dialect in place of any other of its name. -/
def add (registry : Registry) (dialect : Dialect) : Registry :=
  ⟨registry.dialects.filter (·.name != dialect.name) ++ [dialect]⟩

def names (registry : Registry) : List String :=
  Sorting.byInsertion (fun p q => p < q) (registry.dialects.map (·.name))

def get (registry : Registry) (name : String) : Except UnknownMachine Dialect :=
  match registry.dialects.find? (·.name == name) with
  | some dialect => .ok dialect
  | none => .error ⟨name, registry.names⟩

end Registry

end Kerf
