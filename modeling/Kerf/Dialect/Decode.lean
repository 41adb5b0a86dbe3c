import Kerf.Dialect.Basic
import Kerf.Yaml.Layers

/-!
# Reading dialects

A dialect is a table with fixed keys. Everything that does not fit is collected, line by line,
before the table is refused.
-/

set_option autoImplicit false

namespace Kerf.Dialect

open Kerf.Yaml

inductive DecodeError where
  | endOfText
  | broken (cause : Fault)
  | mismatches (texts : List String)
  | invalid (cause : Invalid)

def DecodeError.message : DecodeError → String
  | .endOfText => "dialect: decode: EOF"
  | .broken cause => "dialect: decode: " ++ cause.message
  | .mismatches texts => "dialect: decode: " ++ mismatchesText texts
  | .invalid cause => cause.message

def store {α : Type} (fitted : Fitted α) (dialect : Dialect) (set : α → Dialect) :
    Dialect × List String :=
  match fitted with
  | .value content => (set content, [])
  | .absent => (dialect, [])
  | .wrong texts => (dialect, texts)

def fieldNames : List String :=
  ["name", "kind", "comment_start", "comment_end", "section_break", "speed_change", "tool_change",
    "header", "footer", "path_start", "path_end", "number_lines", "line_step", "precision",
    "path_jump", "a_min", "a_max", "b_max", "pivot", "extension"]

def readField (d : Dialect) (key : String) (value : Node) :
    Except Fault (Dialect × List String) := do
  let text (set : String → Dialect) := do return store (← fitText "string" value) d set
  let number (set : Float → Dialect) := do return store (← fitFloat value) d set
  match key with
  | "name" => text fun s => { d with name := s }
  | "kind" => return store (← fitText "dialect.Kind" value) d fun s => { d with kind := .ofName s }
  | "comment_start" => text fun s => { d with commentStart := s }
  | "comment_end" => text fun s => { d with commentEnd := s }
  | "section_break" => text fun s => { d with sectionBreak := s }
  | "speed_change" => text fun s => { d with speedChange := s }
  | "tool_change" => text fun s => { d with toolChange := s }
  | "header" => text fun s => { d with header := s }
  | "footer" => text fun s => { d with footer := s }
  | "path_start" => text fun s => { d with pathStart := s }
  | "path_end" => text fun s => { d with pathEnd := s }
  | "number_lines" => return store (← fitFlag value) d fun b => { d with numberLines := b }
  | "line_step" => return store (← fitInt value) d fun n => { d with lineStep := Int64.ofInt n }
  | "precision" => return store (← fitInt value) d fun n => { d with precision := n }
  | "path_jump" => number fun x => { d with pathJump := x }
  | "a_min" => number fun x => { d with aMin := x }
  | "a_max" => number fun x => { d with aMax := x }
  | "b_max" => number fun x => { d with bMax := x }
  | "pivot" => return store (← fitTriple value) d fun (x, y, z) => { d with pivot := ⟨x, y, z⟩ }
  | "extension" => text fun s => { d with extension := s }
  | _ => return (d, [])

/-- How far the reading of a dialect has come. -/
structure Progress where
  dialect : Dialect := {}
  wrong : List String := []
  /-- The keys that merged mappings cannot give any more. -/
  given : List String := []

/-- Reads one entry. The keys of the first mapping must not be given twice; merged mappings only
give what is not given yet. -/
def readEntry (merged : Bool) (progress : Progress) (key value : Node) : Except Fault Progress := do
  match ← fitText "string" key with
  | .absent => return progress
  | .wrong texts => return { progress with wrong := progress.wrong ++ texts }
  | .value name =>
      let known := fieldNames.contains name
      let told (problem : String) : Progress :=
        { progress with
          wrong := progress.wrong ++
            ["line " ++ toString key.line ++ ": field " ++ name ++ " " ++ problem ++
              " in type dialect.Dialect"] }
      if progress.given.contains name && (merged || known) then
        return if merged then progress else told "already set"
      let noted := { progress with given := progress.given ++ [name] }
      if !known then return { told "not found" with given := noted.given }
      let (dialect, wrong) ← readField progress.dialect name value
      return { noted with dialect, wrong := progress.wrong ++ wrong }

def readEntries (merged : Bool) :
    Progress → List (Node × Node) → Except Fault Progress
  | progress, [] => .ok progress
  | progress, (key, value) :: rest => do
      readEntries merged (← readEntry merged progress key value) rest

/-- Reads the layers of a mapping, the first one or merged ones. -/
def readLayers (merged : Bool) : Progress → List Layer → Except Fault Progress
  | progress, [] => .ok progress
  | progress, .entries content :: rest => do
      readLayers true (← readEntries merged progress content) rest
  | progress, .repeated texts :: rest =>
      readLayers true { progress with wrong := progress.wrong ++ texts } rest
  | _, .fault cause :: _ => .error cause

/-- The table of a document, without defaults, and what does not fit. -/
def ofNode (node : Node) : Except Fault (Dialect × List String) := do
  match node with
  | .mapping _ _ entries =>
      let progress ← readLayers false {} (mappingLayers entries)
      return (progress.dialect, progress.wrong)
  | _ =>
      let fitted ← fitScalar "dialect.Dialect" (fun _ => (none : Option Dialect)) node
      return (fitted.getD {}, fitted.mismatches)

def complete (dialect : Dialect) : Except Invalid Dialect := do
  let dialect := dialect.withDefaults
  dialect.validate
  return dialect

def decode (text : String) : Except DecodeError Dialect := do
  let broken {α : Type} (result : Except Fault α) : Except DecodeError α :=
    result.mapError .broken
  let some node ← broken (readDocument text) | throw .endOfText
  let (dialect, wrong) ← broken (ofNode node)
  if !wrong.isEmpty then throw (.mismatches wrong)
  (complete dialect).mapError .invalid

end Kerf.Dialect
