import Kerf.Scalar
import Kerf.Text.Quoted
import Kerf.Yaml.Node

/-!
# Fitting nodes

A place in a table asks for text, a truth value or a number. A node fits, is empty, or is told as a
mismatch with its line; mismatches do not stop the reading of a table.
-/

set_option autoImplicit false

namespace Kerf.Yaml

/-- What a node gives to a place: a value, nothing for an empty scalar, or mismatches. -/
inductive Fitted (α : Type) where
  | value (content : α)
  | absent
  | wrong (texts : List String)

def Fitted.getD {α : Type} (fitted : Fitted α) (otherwise : α) : α :=
  match fitted with
  | .value content => content
  | _ => otherwise

def Fitted.mismatches {α : Type} : Fitted α → List String
  | .wrong texts => texts
  | _ => []

/-- What is written at a node, in a mismatch. A long text is cut. -/
def writtenText (tag text : String) : String :=
  if tag == "!!seq" || tag == "!!map" then ""
  else
    let shown := if 10 < text.utf8ByteSize then Text.takeOctets text 7 ++ "..." else text
    " \x60" ++ shown ++ "\x60"

def mismatch (line : Nat) (tag text target : String) : String :=
  "line " ++ toString line ++ ": cannot unmarshal " ++ tag ++ writtenText tag text ++ " into " ++
    target

def mismatchesText (texts : List String) : String :=
  "yaml: unmarshal errors:" ++ String.join (texts.map ("\n  " ++ ·))

/-- Whether two keys are written alike. All sequences are, and all mappings. -/
def Node.sameKey : Node → Node → Bool
  | .scalar _ _ a, .scalar _ _ b => a == b
  | .sequence _ _ _, .sequence _ _ _ => true
  | .mapping _ _ _, .mapping _ _ _ => true
  | .alias _ a _, .alias _ b _ => a == b
  | .loop _ a _ _ _, .loop _ b _ _ _ => a == b
  | .alias _ a _, .loop _ b _ _ _ => a == b
  | .loop _ a _ _ _, .alias _ b _ => a == b
  | _, _ => false

/-- The text that a key is known by. -/
def Node.keyText : Node → String
  | .scalar _ _ text => text
  | .alias _ name _ | .loop _ name _ _ _ => name
  | _ => ""

/-- The keys that are given more than once, each with every later line that repeats it. -/
def repeatedKeys : List (Node × Node) → List String
  | [] => []
  | (key, _) :: rest =>
      ((rest.filter fun (other, _) => key.sameKey other).map fun (other, _) =>
        "line " ++ toString other.line ++ ": mapping key " ++ Text.quoted other.keyText ++
          " already defined at line " ++ toString key.line) ++ repeatedKeys rest

def fitScalar {α : Type} (target : String) (read : Content → Option α) :
    Node → Except Fault (Fitted α)
  | .scalar line tag text => do
      let content ← Content.ofTagged tag text
      match content.meaning with
      | .null => return .absent
      | _ =>
          match read content with
          | some value => return .value value
          | none => return .wrong [mismatch line tag text target]
  | .sequence line tag _ => .ok (.wrong [mismatch line tag "" target])
  | .mapping line tag entries =>
      let repeated := repeatedKeys entries
      .ok (.wrong (if repeated.isEmpty then [mismatch line tag "" target] else repeated))
  | .alias _ _ node => fitScalar target read node
  | .loop _ _ _ line tag => .ok (.wrong [mismatch line tag "" target])

/-- Fits text; every scalar is text. -/
def fitText (target : String) : Node → Except Fault (Fitted String) :=
  fitScalar target fun content => some content.text

/-- Words that stand for a truth value where one is asked for. -/
def flagWord : String → Option Bool
  | "y" | "Y" | "yes" | "on" => some true
  | "n" | "N" | "no" | "off" => some false
  | _ => none

def fitFlag : Node → Except Fault (Fitted Bool) :=
  fitScalar "bool" fun content =>
    match content.meaning with
    | .bool flag => some flag
    | .text => flagWord content.text
    | _ => none

/-- Fits a whole number of 64 bits; the fraction of a number is dropped. -/
def fitInt : Node → Except Fault (Fitted Int) :=
  fitScalar "int" fun content =>
    match content.meaning with
    | .int n => if n < twoTo 63 then some n else none
    | .float x => if x <= 9223372036854775808.0 then some (Scalar.toWord x).toInt else none
    | _ => none

def fitFloat : Node → Except Fault (Fitted Float) :=
  fitScalar "float64" fun content =>
    match content.meaning with
    | .int n => some (Float.ofInt n)
    | .float x => some x
    | _ => none

/-- Fits three numbers. Any other count breaks the whole table; an empty entry is passed over, and
those after it move up. -/
def fitTriple : Node → Except Fault (Fitted (Float × Float × Float))
  | .sequence _ _ items => do
      if items.length ≠ 3 then throw (.wrongCount 3 items.length)
      let fitted ← items.mapM fitFloat
      let wrong := fitted.flatMap Fitted.mismatches
      if !wrong.isEmpty then return .wrong wrong
      let numbers := fitted.filterMap fun
        | .value content => some content
        | _ => none
      return .value (numbers.getD 0 0, numbers.getD 1 0, numbers.getD 2 0)
  | .alias _ _ node => fitTriple node
  | node => fitScalar "[3]float64" (fun _ => none) node

end Kerf.Yaml
