import Kerf.Yaml.Block
import Kerf.Yaml.Plain
import Kerf.Yaml.Tag

/-!
# Tokens

The parts that documents are put together from. Indentation is told by tokens of its own: blocks
have a start and an end.
-/

set_option autoImplicit false

namespace Kerf.Yaml

inductive TokenKind where
  | streamStart
  | streamEnd
  | directive (content : Directive)
  | documentStart
  | documentEnd
  | blockSequenceStart
  | blockMappingStart
  | blockEnd
  | flowSequenceStart
  | flowSequenceEnd
  | flowMappingStart
  | flowMappingEnd
  | blockEntry
  | flowEntry
  | key
  | value
  | alias (name : String)
  | anchor (name : String)
  | tag (content : TagText)
  | scalar (text : String) (plain : Bool)
  deriving DecidableEq, Repr

structure Token where
  kind : TokenKind
  mark : Mark
  deriving DecidableEq, Repr

/-- A place where a key without a mark may have started. -/
structure SimpleKey where
  possible : Bool := false
  /-- Whether nothing but a key can stand there. -/
  required : Bool := false
  /-- The number of its first token in the document. -/
  number : Nat := 0
  mark : Mark := {}
  deriving DecidableEq, Repr

/-- What has been read of a document, and what has to be remembered for the rest. -/
structure Scanner where
  cursor : Cursor
  /-- No fewer than the characters that are left. -/
  limit : Nat
  started : Bool := false
  /-- The tokens that have been read but not taken. -/
  queue : List Token := []
  /-- How many tokens have been taken. -/
  taken : Nat := 0
  flowLevel : Nat := 0
  /-- The column of the innermost block. -/
  indent : Int := -1
  /-- The columns of the blocks around it. -/
  outer : List Int := []
  keyAllowed : Bool := false
  /-- The possible key of the innermost bracket, and those of the brackets around it. -/
  keys : List SimpleKey := [{}]

namespace Scanner

def ofText (text : List Char) : Scanner :=
  let text := unifyBreaks text
  { cursor := { rest := if text.head? = some '\ufeff' then text.drop 1 else text }
    limit := text.length }

/-- The deepest nesting of brackets or blocks. -/
def depthLimit : Nat := 10000

def fault (scanner : Scanner) (start : Mark) (problem : Problem) : Fault :=
  scanner.cursor.fault start problem

def push (scanner : Scanner) (kind : TokenKind) (mark : Mark) : Scanner :=
  { scanner with queue := scanner.queue ++ [⟨kind, mark⟩] }

def insert (scanner : Scanner) (number : Nat) (kind : TokenKind) (mark : Mark) : Scanner :=
  let place := number - scanner.taken
  { scanner with
    queue := scanner.queue.take place ++ ⟨kind, mark⟩ :: scanner.queue.drop place }

/-! ## Keys -/

def currentKey (scanner : Scanner) : SimpleKey := scanner.keys.head?.getD {}

def setKey (scanner : Scanner) (key : SimpleKey) : Scanner :=
  { scanner with keys := key :: scanner.keys.drop 1 }

/-- Whether a possible key has come to nothing, because its line has ended or it is too long. -/
def isStale (scanner : Scanner) (key : SimpleKey) : Bool :=
  key.mark.line < scanner.cursor.mark.line || key.mark.index + 1024 < scanner.cursor.mark.index

/-- Whether a possible key still counts. One that is required has to. -/
def isLive (scanner : Scanner) (key : SimpleKey) : Except Fault Bool :=
  if !key.possible then .ok false
  else if scanner.isStale key then
    if key.required then .error (scanner.fault key.mark .colonMissing) else .ok false
  else .ok true

def removeKey (scanner : Scanner) : Except Fault Scanner :=
  let key := scanner.currentKey
  if key.possible && key.required then .error (scanner.fault key.mark .colonMissing)
  else .ok (scanner.setKey { key with possible := false })

/-- Notes that a key may start here. -/
def saveKey (scanner : Scanner) : Except Fault Scanner :=
  if scanner.keyAllowed then do
    let cleared ← scanner.removeKey
    return cleared.setKey
      { possible := true
        required := scanner.flowLevel = 0 && scanner.indent = Int.ofNat scanner.cursor.mark.column
        number := scanner.taken + scanner.queue.length
        mark := scanner.cursor.mark }
  else .ok scanner

/-! ## Indentation -/

/-- Starts a block at a column, unless one is there already. Its token goes before the one with a
number, or to the end. -/
def roll (scanner : Scanner) (column : Nat) (number : Option Nat) (kind : TokenKind) (mark : Mark) :
    Except Fault Scanner :=
  if scanner.flowLevel ≠ 0 || Int.ofNat column ≤ scanner.indent then .ok scanner
  else
    let deeper :=
      { scanner with indent := Int.ofNat column, outer := scanner.indent :: scanner.outer }
    if depthLimit < deeper.outer.length then .error (scanner.fault mark .tooDeep)
    else
      match number with
      | some number => .ok (deeper.insert number kind mark)
      | none => .ok (deeper.push kind mark)

/-- Ends all blocks beyond a column. -/
def unrollTo (column : Int) (mark : Mark) (indent : Int) :
    List Int → List Token → Int × List Int × List Token
  | [], queue => (indent, [], queue)
  | next :: outer, queue =>
      if column < indent then unrollTo column mark next outer (queue ++ [⟨.blockEnd, mark⟩])
      else (indent, next :: outer, queue)

/-- Ends all blocks beyond a column, outside of brackets. They end at a mark. -/
def unroll (scanner : Scanner) (column : Int) (mark : Mark) : Scanner :=
  if scanner.flowLevel ≠ 0 then scanner
  else
    let (indent, outer, queue) := unrollTo column mark scanner.indent scanner.outer scanner.queue
    { scanner with indent, outer, queue }

/-- Ends all blocks and gives up the possible key. -/
def settle (scanner : Scanner) : Except Fault Scanner := do
  let scanner ← (scanner.unroll (-1) scanner.cursor.mark).removeKey
  return { scanner with keyAllowed := false }

/-! ## Gaps -/

/-- Goes to the next token, past blanks, comments and line ends. Tabs only count as blanks where no
key may start. -/
def skipGap (scanner : Scanner) : Scanner :=
  let tabs := scanner.flowLevel ≠ 0 || !scanner.keyAllowed
  if _more : (scanner.cursor.skipToToken tabs).rest.head?.any isBreak then
    skipGap
      { scanner with
        cursor := (scanner.cursor.skipToToken tabs).nextLine
        keyAllowed := scanner.flowLevel = 0 || scanner.keyAllowed }
  else { scanner with cursor := scanner.cursor.skipToToken tabs }
termination_by scanner.cursor.rest.length
decreasing_by
  have most := scanner.cursor.length_skipToToken_le tabs
  show (scanner.cursor.skipToToken tabs).nextLine.rest.length < scanner.cursor.rest.length
  rw [Cursor.rest_nextLine, List.length_drop]
  cases left : (scanner.cursor.skipToToken tabs).rest with
  | nil => simp [left] at _more
  | cons c rest =>
      rw [left] at most
      simp only [List.length_cons] at *
      omega

/-! ## Tokens -/

def fetchEnd (scanner : Scanner) : Except Fault Scanner := do
  let mark := scanner.cursor.mark
  let mark := if mark.column = 0 then mark else { mark with line := mark.line + 1, column := 0 }
  let scanner := { scanner with cursor := { scanner.cursor with mark } }
  let scanner ← scanner.settle
  return scanner.push .streamEnd mark

def fetchDirective (scanner : Scanner) : Except Fault Scanner := do
  let scanner ← scanner.settle
  let (directive, after) ← readDirective scanner.cursor
  return { scanner with cursor := after }.push (.directive directive) scanner.cursor.mark

def fetchDocumentMark (scanner : Scanner) (kind : TokenKind) : Except Fault Scanner := do
  let scanner ← scanner.settle
  return { scanner with cursor := scanner.cursor.skip 3 }.push kind scanner.cursor.mark

def fetchOpening (scanner : Scanner) (kind : TokenKind) : Except Fault Scanner := do
  let scanner ← scanner.saveKey
  let mark := scanner.cursor.mark
  let deeper :=
    { scanner with
      keys := {} :: scanner.keys
      flowLevel := scanner.flowLevel + 1
      keyAllowed := true }
  if depthLimit < deeper.flowLevel then throw (scanner.fault mark .tooDeep)
  return { deeper with cursor := scanner.cursor.next }.push kind mark

def fetchClosing (scanner : Scanner) (kind : TokenKind) : Except Fault Scanner := do
  let scanner ← scanner.removeKey
  let outside :=
    if scanner.flowLevel = 0 then scanner
    else { scanner with flowLevel := scanner.flowLevel - 1, keys := scanner.keys.drop 1 }
  return { outside with keyAllowed := false, cursor := scanner.cursor.next }.push kind
    scanner.cursor.mark

def fetchFlowEntry (scanner : Scanner) : Except Fault Scanner := do
  let scanner ← scanner.removeKey
  return { scanner with keyAllowed := true, cursor := scanner.cursor.next }.push .flowEntry
    scanner.cursor.mark

def fetchBlockEntry (scanner : Scanner) : Except Fault Scanner := do
  let mark := scanner.cursor.mark
  if scanner.flowLevel = 0 && !scanner.keyAllowed then throw (scanner.fault mark .entryNotAllowed)
  let scanner ← scanner.roll mark.column none .blockSequenceStart mark
  let scanner ← scanner.removeKey
  return { scanner with keyAllowed := true, cursor := scanner.cursor.next }.push .blockEntry mark

def fetchKey (scanner : Scanner) : Except Fault Scanner := do
  let mark := scanner.cursor.mark
  if scanner.flowLevel = 0 && !scanner.keyAllowed then throw (scanner.fault mark .keyNotAllowed)
  let scanner ← scanner.roll mark.column none .blockMappingStart mark
  let scanner ← scanner.removeKey
  return { scanner with keyAllowed := scanner.flowLevel = 0, cursor := scanner.cursor.next }.push
    .key mark

/-- Reads the colon of a value. A key without a mark gets its tokens now. -/
def fetchValue (scanner : Scanner) : Except Fault Scanner := do
  let mark := scanner.cursor.mark
  let key := scanner.currentKey
  let ready ←
    if ← scanner.isLive key then do
      let scanner := scanner.insert key.number .key key.mark
      let scanner ← scanner.roll key.mark.column (some key.number) .blockMappingStart key.mark
      pure { scanner.setKey { key with possible := false } with keyAllowed := false }
    else do
      if scanner.flowLevel = 0 && !scanner.keyAllowed then
        throw (scanner.fault mark .valueNotAllowed)
      let scanner ← scanner.roll mark.column none .blockMappingStart mark
      pure
        { scanner.setKey { key with possible := false } with keyAllowed := scanner.flowLevel = 0 }
  return { ready with cursor := scanner.cursor.next }.push .value mark

/-- Reads a token that may be a key, with a reader of its content. -/
def fetchContent (scanner : Scanner)
    (read : Cursor → Except Fault (TokenKind × Bool × Cursor)) : Except Fault Scanner := do
  let scanner ← scanner.saveKey
  let (kind, keyAllowed, after) ← read scanner.cursor
  return { scanner with keyAllowed, cursor := after }.push kind scanner.cursor.mark

def fetchBlock (scanner : Scanner) (literal : Bool) : Except Fault Scanner := do
  let scanner ← scanner.removeKey
  let (text, after) ← readBlock literal scanner.indent scanner.cursor
  return { scanner with keyAllowed := true, cursor := after }.push
    (.scalar (String.ofList text) false) scanner.cursor.mark

def startsPlain (inFlow : Bool) (c : Char) (rest : List Char) : Bool :=
  !(isBlank c || isBreak c || "-?:,[]\x7b\x7d#&*!|>'\"%@\x60".toList.contains c) ||
    (c == '-' && !rest.head?.any isBlank) ||
    (!inFlow && (c == '?' || c == ':') && !atGap rest)

def fetchFrom (scanner : Scanner) (c : Char) (rest : List Char) : Except Fault Scanner :=
  let inFlow := scanner.flowLevel ≠ 0
  if c == '[' then scanner.fetchOpening .flowSequenceStart
  else if c == '\x7b' then scanner.fetchOpening .flowMappingStart
  else if c == ']' then scanner.fetchClosing .flowSequenceEnd
  else if c == '\x7d' then scanner.fetchClosing .flowMappingEnd
  else if c == ',' then scanner.fetchFlowEntry
  else if c == '-' && atGap rest then scanner.fetchBlockEntry
  else if c == '?' && (inFlow || atGap rest) then scanner.fetchKey
  else if c == ':' && (inFlow || atGap rest) then scanner.fetchValue
  else if c == '*' then
    scanner.fetchContent fun cursor => do
      let (name, after) ← readAnchor cursor
      return (.alias name, false, after)
  else if c == '&' then
    scanner.fetchContent fun cursor => do
      let (name, after) ← readAnchor cursor
      return (.anchor name, false, after)
  else if c == '!' then
    scanner.fetchContent fun cursor => do
      let (tag, after) ← readTag cursor
      return (.tag tag, false, after)
  else if c == '|' && !inFlow then scanner.fetchBlock true
  else if c == '>' && !inFlow then scanner.fetchBlock false
  else if c == '\'' || c == '"' then
    scanner.fetchContent fun cursor => do
      let (text, after) ← readQuoted (c == '\'') cursor
      return (.scalar (String.ofList text) false, false, after)
  else if startsPlain inFlow c rest then
    scanner.fetchContent fun cursor => do
      let scalar ← readPlain scanner.indent inFlow cursor
      return (.scalar (String.ofList scalar.text) true, scalar.lineEnded, scalar.cursor)
  else .error (scanner.fault scanner.cursor.mark .noToken)

/-- Goes past a comment behind a token. The dash of an entry leaves it to what follows. -/
def skipLineComment (scanner : Scanner) : Scanner :=
  if (scanner.queue.getLast?.map (·.kind)) = some .blockEntry then scanner
  else { scanner with cursor := scanner.cursor.skipLineComment }

/-- Reads one more token, or several of which the last one tells that there are others before it. -/
def fetch (scanner : Scanner) : Except Fault Scanner :=
  if !scanner.started then
    .ok ({ scanner with started := true, keyAllowed := true }.push .streamStart scanner.cursor.mark)
  else
    let mark := scanner.cursor.mark
    let scanner := scanner.skipGap
    let scanner := scanner.unroll (Int.ofNat scanner.cursor.mark.column) mark
    match scanner.cursor.rest with
    | [] => scanner.fetchEnd
    | c :: rest =>
        if scanner.cursor.mark.column = 0 && c == '%' then scanner.fetchDirective
        else if scanner.cursor.atDocumentMark then
          scanner.fetchDocumentMark (if c == '-' then .documentStart else .documentEnd)
        else (scanner.fetchFrom c rest).map skipLineComment

/-! ## Taking tokens -/

/-- The possible key that starts with the next token, if there is one. -/
def keyAtHead (scanner : Scanner) : Option SimpleKey :=
  scanner.keys.find? fun key => key.possible && key.number == scanner.taken

/-- Reads on until the next token is settled: two more tokens are known, and it is not the start of
a key that has yet to come to its colon. -/
def fill : Nat → Scanner → Except Fault Scanner
  | 0, scanner => .ok scanner
  | fuel + 1, scanner => do
      let settled ←
        if scanner.queue.length ≤ 2 then pure false
        else
          match scanner.keyAtHead with
          | none => pure true
          | some key => do pure (!(← scanner.isLive key))
      if settled then return scanner
      let scanner ← scanner.fetch
      scanner.fill fuel

def peek (scanner : Scanner) : Except Fault (Token × Scanner) := do
  let scanner ← scanner.fill (scanner.limit + 4)
  match scanner.queue with
  | token :: _ => return (token, scanner)
  | [] => return (⟨.streamEnd, scanner.cursor.mark⟩, scanner)

def take (scanner : Scanner) : Scanner :=
  { scanner with queue := scanner.queue.drop 1, taken := scanner.taken + 1 }

end Scanner

end Kerf.Yaml
