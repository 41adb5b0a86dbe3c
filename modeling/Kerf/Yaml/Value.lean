import Kerf.Yaml.Layers

/-!
# Values

The content of a document where nothing certain is asked for.
-/

set_option autoImplicit false

namespace Kerf.Yaml

inductive Value where
  | null
  | bool (value : Bool)
  | int (value : Int)
  | float (value : Float)
  | timestamp
  | text (value : String)
  | list (items : List Value)
  | table (entries : List (String × Value))

instance : Inhabited Value := ⟨.null⟩

def Content.value (content : Content) : Value :=
  match content.meaning with
  | .null => .null
  | .bool value => .bool value
  | .int value => .int value
  | .float value => .float value
  | .timestamp => .timestamp
  | .text => .text content.text

/-- Reading values collects mismatches. -/
abbrev Valuing := StateT (List String) (Except Fault)

def note (texts : List String) : Valuing Unit := modify (· ++ texts)

mutual

/-- The value of a node, not deeper than the fuel. -/
def valueOf (fuel : Nat) (node : Node) : Valuing Value := do
  let fuel + 1 := fuel | return .null
  match node with
  | .scalar _ tag text => return (← liftM (Content.ofTagged tag text)).value
  | .sequence _ _ items => return .list (← items.mapM fun item => valueOf fuel item)
  | .mapping _ _ entries =>
      return .table
        (← tableOf fuel (fun key => .ok (.value key.keyText)) [] (mappingLayers entries))
  | .alias _ _ target => valueOf fuel target
  | .loop _ name _ _ _ => throw (.endless name)
termination_by (fuel, 0)

/-- The entries of the layers of a mapping, after those that were read before. A key that is there
already is left as it is. -/
def tableOf (fuel : Nat) (keyOf : Node → Except Fault (Fitted String))
    (read : List (String × Value)) (layers : List Layer) : Valuing (List (String × Value)) := do
  match layers with
  | [] => return read
  | .entries content :: rest =>
      let found ← content.filterMapM fun (key, value) => do
        match ← liftM (keyOf key) with
        | .absent => return none
        | .wrong texts => do
            note texts
            return none
        | .value name =>
            if (read.lookup name).isSome then return none
            else return some (name, ← valueOf fuel value)
      tableOf fuel keyOf (read ++ found) rest
  | .repeated texts :: rest => do
      note texts
      tableOf fuel keyOf read rest
  | .fault cause :: _ => throw cause
termination_by (fuel, layers.length + 1)

end

inductive TableError where
  | broken (cause : Fault)
  | mismatches (texts : List String)

def TableError.message : TableError → String
  | .broken cause => cause.message
  | .mismatches texts => mismatchesText texts

/-- Reads a text that has to be a table with texts as keys. An empty text is an empty table. -/
def readTable (text : String) : Except TableError (List (String × Value)) := do
  let content : Valuing (List (String × Value)) := do
    match ← liftM (readDocument text) with
    | none => return []
    | some (.mapping _ _ entries) =>
        tableOf text.length (fitText "string") [] (mappingLayers entries)
    | some node => do
        let fitted ← liftM <|
          fitScalar "map[string]interface \x7b\x7d" (fun _ => (none : Option Unit)) node
        note fitted.mismatches
        return []
  match content.run [] with
  | .error cause => throw (.broken cause)
  | .ok (entries, []) => return entries
  | .ok (_, texts) => throw (.mismatches texts)

end Kerf.Yaml
