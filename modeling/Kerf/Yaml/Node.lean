import Kerf.Yaml.Scalar
import Kerf.Yaml.Token

/-!
# Nodes

A document is a tree of scalars, sequences and mappings. Every node has a tag, given or told by its
looks, and the number of its line, counted from one.
-/

set_option autoImplicit false

namespace Kerf.Yaml

inductive Node where
  | scalar (line : Nat) (tag text : String)
  | sequence (line : Nat) (tag : String) (items : List Node)
  | mapping (line : Nat) (tag : String) (entries : List (Node × Node))
  /-- The content of an anchor that stands elsewhere. -/
  | alias (line : Nat) (name : String) (target : Node)
  /-- An alias within the content of its anchor, a mapping or a sequence with a tag. -/
  | loop (line : Nat) (name : String) (isMapping : Bool) (anchorLine : Nat) (tag : String)
  deriving Repr

instance : Inhabited Node := ⟨.scalar 0 "" ""⟩

def Node.line : Node → Nat
  | .scalar line _ _ | .sequence line _ _ | .mapping line _ _ | .alias line _ _
  | .loop line _ _ _ _ => line

/-- What an anchor stands for: a node, or a collection that is not complete yet. -/
inductive Anchored where
  | node (content : Node)
  | unfinished (isMapping : Bool) (line : Nat) (tag : String)
  deriving Repr

/-- An anchor: its name, a number of its own, and what it stands for. -/
structure Anchor where
  name : String
  number : Nat
  content : Anchored
  deriving Repr

/-- What has been put together of a document. -/
structure Builder where
  scanner : Scanner
  /-- The texts that the handles of tags stand for. -/
  handles : List (String × String) := []
  /-- The anchors, newest first. -/
  anchors : List Anchor := []

abbrev Build := StateT Builder (Except Fault)

namespace Build

def peek : Build Token := do
  let builder ← get
  let (token, scanner) ← liftM builder.scanner.peek
  set { builder with scanner }
  return token

def take : Build Unit := modify fun builder => { builder with scanner := builder.scanner.take }

/-- Fails at a token, within a construct that starts at a mark. -/
def refuse {α : Type} (start : Mark) (token : Token) (problem : Problem) : Build α :=
  throw (.whileJoining start.line token.mark.line problem)

/-! ## Tags and anchors -/

def shortTag (tag : String) : String :=
  let common := "tag:yaml.org,2002:"
  if tag.startsWith common then "!!" ++ (tag.drop common.length).toString else tag

def commonHandles : List (String × String) := [("!", "!"), ("!!", "tag:yaml.org,2002:")]

def resolveTag (start : Mark) (token : Token) (tag : TagText) : Build String := do
  if tag.handle.isEmpty then return shortTag tag.suffix
  match (← get).handles.lookup tag.handle with
  | some leading => return shortTag (leading ++ tag.suffix)
  | none => refuse start token .unknownTagHandle

/-- A tag that was given, or else another one. The tag `!` says nothing. -/
def givenTag (tag : Option String) (otherwise : String) : String :=
  match tag with
  | some tag => if tag == "" || tag == "!" then otherwise else tag
  | none => otherwise

/-- The tag of a scalar that has none. -/
def untaggedTag (text : String) (plain : Bool) : String :=
  if !plain then "!!str"
  else if text == "<<" then "!!merge"
  else (Meaning.ofPlain text).tag

structure Properties where
  anchor : Option String := none
  tag : Option String := none

def Properties.isSome (properties : Properties) : Bool :=
  properties.anchor.isSome || properties.tag.isSome

/-- Remembers an anchor, and says its number. -/
def setAnchor (name : Option String) (content : Anchored) : Build Nat :=
  modifyGet fun builder =>
    let number := builder.anchors.length
    match name with
    | some name => (number, { builder with anchors := ⟨name, number, content⟩ :: builder.anchors })
    | none => (number, builder)

/-- Completes the collection of an anchor. -/
def closeAnchor (name : Option String) (number : Nat) (node : Node) : Build Unit :=
  if name.isNone then pure ()
  else
    modify fun builder =>
      { builder with
        anchors := builder.anchors.map fun anchor =>
          if anchor.number = number then { anchor with content := .node node } else anchor }

def aliasNode (line : Nat) (name : String) : Build Node := do
  match (← get).anchors.find? (·.name == name) with
  | some ⟨_, _, .node content⟩ => return .alias line name content
  | some ⟨_, _, .unfinished isMapping anchorLine tag⟩ =>
      return .loop line name isMapping anchorLine tag
  | none => throw (.unknownAnchor name)

def scalarNode (line : Nat) (properties : Properties) (text : String) (plain : Bool) :
    Build Node := do
  let node := Node.scalar line (givenTag properties.tag (untaggedTag text plain)) text
  let _ ← setAnchor properties.anchor (.node node)
  return node

def emptyNode (mark : Mark) : Node := .scalar (mark.line + 1) "!!null" ""

/-- Reads the anchor and the tag before a node, in either order. -/
def readProperties (start : Mark) : Build Properties := do
  let anchorOf (properties : Properties) : Build Properties := do
    match (← peek).kind with
    | .anchor name => do take; return { properties with anchor := some name }
    | _ => return properties
  let first ← anchorOf {}
  let token ← peek
  match token.kind with
  | .tag written => do
      take
      let _ ← peek
      let next ← if first.anchor.isSome then pure first else anchorOf {}
      let tag ← resolveTag start token written
      return { next with tag := some tag }
  | _ => return first

/-! ## Collections -/

def endsBlockEntry : TokenKind → Bool
  | .key | .value | .blockEnd => true
  | _ => false

def endsDashEntry : TokenKind → Bool
  | .blockEntry | .blockEnd => true
  | _ => false

def endsLevelEntry : TokenKind → Bool
  | .blockEntry | .key | .value | .blockEnd => true
  | _ => false

mutual

/-- Reads a node. Only some places have blocks, and only some have sequences that are not indented.
Each step takes of the fuel. -/
def node (fuel : Nat) (block level : Bool) : Build Node := do
  let fuel + 1 := fuel | throw (.malformed .tooDeep none)
  let first ← peek
  let line := first.mark.line + 1
  if let .alias name := first.kind then
    take
    return ← aliasNode line name
  let properties ← readProperties first.mark
  let token ← peek
  let sequence (items : Build (List Node)) : Build Node := do
    let tag := givenTag properties.tag "!!seq"
    let number ← setAnchor properties.anchor (.unfinished false line tag)
    let node := Node.sequence line tag (← items)
    closeAnchor properties.anchor number node
    return node
  let mapping (entries : Build (List (Node × Node))) : Build Node := do
    let tag := givenTag properties.tag "!!map"
    let number ← setAnchor properties.anchor (.unfinished true line tag)
    let node := Node.mapping line tag (← entries)
    closeAnchor properties.anchor number node
    return node
  match token.kind with
  | .blockEntry =>
      if level then sequence (levelItems fuel)
      else if properties.isSome then scalarNode line properties "" true
      else refuse first.mark token .contentMissing
  | .scalar text plain => do
      take
      scalarNode line properties text plain
  | .flowSequenceStart => do
      take
      sequence (flowItems fuel token.mark true)
  | .flowMappingStart => do
      take
      mapping (flowEntries fuel token.mark true)
  | kind =>
      if block && kind == .blockSequenceStart then do
        take
        sequence (blockItems fuel token.mark)
      else if block && kind == .blockMappingStart then do
        take
        mapping (blockEntries fuel token.mark)
      else if properties.isSome then scalarNode line properties "" true
      else refuse first.mark token .contentMissing
termination_by fuel
decreasing_by all_goals omega

/-- Reads a node, or an empty scalar before a token that ends the place of the node. -/
def nodeUnless (fuel : Nat) (ended : TokenKind → Bool) (block level : Bool) (mark : Mark) :
    Build Node := do
  let fuel + 1 := fuel | throw (.malformed .tooDeep none)
  if ended (← peek).kind then return emptyNode mark else node fuel block level
termination_by fuel
decreasing_by all_goals omega

def blockItems (fuel : Nat) (start : Mark) : Build (List Node) := do
  let fuel + 1 := fuel | throw (.malformed .tooDeep none)
  let token ← peek
  match token.kind with
  | .blockEntry => do
      take
      let first ← nodeUnless fuel endsDashEntry true false token.mark
      return first :: (← blockItems fuel start)
  | .blockEnd => do
      take
      return []
  | _ => refuse start token .dashMissing
termination_by fuel
decreasing_by all_goals omega

/-- Reads the entries of a sequence that is not indented. -/
def levelItems (fuel : Nat) : Build (List Node) := do
  let fuel + 1 := fuel | throw (.malformed .tooDeep none)
  let token ← peek
  match token.kind with
  | .blockEntry => do
      take
      let first ← nodeUnless fuel endsLevelEntry true false token.mark
      return first :: (← levelItems fuel)
  | _ => return []
termination_by fuel
decreasing_by all_goals omega

def blockEntries (fuel : Nat) (start : Mark) : Build (List (Node × Node)) := do
  let fuel + 1 := fuel | throw (.malformed .tooDeep none)
  let token ← peek
  match token.kind with
  | .key => do
      take
      let key ← nodeUnless fuel endsBlockEntry true true token.mark
      let next ← peek
      let value ←
        if next.kind == .value then do
          take
          nodeUnless fuel endsBlockEntry true true next.mark
        else pure (emptyNode next.mark)
      return (key, value) :: (← blockEntries fuel start)
  | .blockEnd => do
      take
      return []
  | _ => refuse start token .keyMissing
termination_by fuel
decreasing_by all_goals omega

/-- Reads the entries of a flow sequence, the first one or later ones. -/
def flowItems (fuel : Nat) (start : Mark) (isFirst : Bool) : Build (List Node) := do
  let fuel + 1 := fuel | throw (.malformed .tooDeep none)
  let token ← peek
  if token.kind == .flowSequenceEnd then
    take
    return []
  unless isFirst do
    if token.kind == .flowEntry then take
    else refuse start token .sequenceEndMissing
  let token ← peek
  match token.kind with
  | .flowSequenceEnd => do
      take
      return []
  | .key => do
      take
      let entry ← flowPair fuel
      let pair := Node.mapping (token.mark.line + 1) "!!map" [entry]
      return pair :: (← flowItems fuel start false)
  | _ => do
      let first ← node fuel false false
      return first :: (← flowItems fuel start false)
termination_by fuel
decreasing_by all_goals omega

/-- Reads the key and the value of a mapping with one entry in a flow sequence. Without a key, the
token behind it is taken all the same. -/
def flowPair (fuel : Nat) : Build (Node × Node) := do
  let fuel + 1 := fuel | throw (.malformed .tooDeep none)
  let token ← peek
  let key ←
    match token.kind with
    | .value | .flowEntry | .flowSequenceEnd => do
        take
        pure (emptyNode token.mark)
    | _ => node fuel false false
  let next ← peek
  let value ←
    if next.kind == .value then do
      take
      nodeUnless fuel (fun kind => kind == .flowEntry || kind == .flowSequenceEnd) false false
        next.mark
    else pure (emptyNode next.mark)
  return (key, value)
termination_by fuel
decreasing_by all_goals omega

/-- Reads the entries of a flow mapping, the first one or later ones. -/
def flowEntries (fuel : Nat) (start : Mark) (isFirst : Bool) : Build (List (Node × Node)) := do
  let fuel + 1 := fuel | throw (.malformed .tooDeep none)
  let token ← peek
  if token.kind == .flowMappingEnd then
    take
    return []
  unless isFirst do
    if token.kind == .flowEntry then take
    else refuse start token .mappingEndMissing
  let token ← peek
  let ended (kind : TokenKind) : Bool := kind == .flowEntry || kind == .flowMappingEnd
  match token.kind with
  | .flowMappingEnd => do
      take
      return []
  | .key => do
      take
      let key ← nodeUnless fuel (fun kind => kind == .value || ended kind) false false token.mark
      let next ← peek
      let value ←
        if next.kind == .value then do
          take
          nodeUnless fuel ended false false next.mark
        else pure (emptyNode next.mark)
      return (key, value) :: (← flowEntries fuel start false)
  | _ => do
      let key ← node fuel false false
      let value := emptyNode (← peek).mark
      return (key, value) :: (← flowEntries fuel start false)
termination_by fuel
decreasing_by all_goals omega

end

/-! ## Documents -/

def directives (fuel : Nat) (version : Bool) (handles : List (String × String)) :
    Build (List (String × String)) := do
  let fuel + 1 := fuel | return handles
  let token ← peek
  match token.kind with
  | .directive (.version major minor) => do
      if version then refuse {} token .versionRepeated
      if major ≠ 1 || minor ≠ 1 then refuse {} token .versionUnknown
      take
      directives fuel true handles
  | .directive (.tag handle leading) => do
      if (handles.lookup handle).isSome then refuse {} token .tagHandleRepeated
      take
      directives fuel version (handles ++ [(handle, leading)])
  | _ => return handles

/-- Reads the first document, if there is one. What follows it stays unread but for one token. -/
def document (fuel : Nat) : Build (Option Node) := do
  let _ ← peek
  take
  let first ← peek
  match first.kind with
  | .streamEnd => return none
  | .directive _ | .documentStart => do
      let handles ← directives fuel false []
      let token ← peek
      if token.kind ≠ .documentStart then refuse {} token .documentStartMissing
      modify fun builder => { builder with handles := handles ++ commonHandles }
      take
      let next ← peek
      let content ←
        match next.kind with
        | .directive _ | .documentStart | .documentEnd | .streamEnd => pure (emptyNode next.mark)
        | _ => node fuel true false
      let _ ← peek
      return some content
  | _ => do
      modify fun builder => { builder with handles := commonHandles }
      let content ← node fuel true false
      let _ ← peek
      return some content

end Build

def readDocument (text : String) : Except Fault (Option Node) := do
  let chars := text.toList
  if !chars.all isAllowed then throw (.malformed .controlCharacter none)
  let scanner := Scanner.ofText chars
  let (node, _) ← (Build.document (8 * chars.length + 64)).run { scanner }
  return node

end Kerf.Yaml
