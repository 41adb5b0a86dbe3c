import Kerf.Yaml.Quoted

/-!
# Anchors, tags and directives

What stands before the content of a node or of a document.
-/

set_option autoImplicit false

namespace Kerf.Yaml

/-! ## Anchors -/

/-- Reads the name of an anchor or alias, standing at its mark. -/
def readAnchor (cursor : Cursor) : Except Fault (String × Cursor) :=
  let start := cursor.mark
  let (name, after) := cursor.next.takeWhile isNameChar
  let ended := match after.rest with
    | [] => true
    | c :: _ => atGap after.rest || ['?', ':', ',', ']', '\x7d', '%', '@', '\x60'].contains c
  if name.isEmpty || !ended then .error (after.fault start .anchorNameMissing)
  else .ok (String.ofList name, after)

/-! ## Tags -/

/-- Whether a character may stand in a tag; a percent sign starts an escaped octet. -/
def isTagChar (c : Char) : Bool :=
  isNameChar c || ";/?:@&=+$,.!~*'()[]%".toList.contains c

/-- The number of octets of a character, told by the first one. -/
def octetCount (octet : Nat) : Option Nat :=
  if octet < 0x80 then some 1
  else if 0xc0 ≤ octet && octet < 0xe0 then some 2
  else if 0xe0 ≤ octet && octet < 0xf0 then some 3
  else if 0xf0 ≤ octet && octet < 0xf8 then some 4
  else none

/-- Reads an escaped octet, standing at its percent sign. -/
def readOctet (start : Mark) (cursor : Cursor) : Except Fault (Nat × Cursor) :=
  match cursor.rest with
  | '%' :: rest =>
      match hexNumber 0 2 rest with
      | some octet => .ok (octet, cursor.skip 3)
      | none => .error (cursor.fault start .octetMissing)
  | _ => .error (cursor.fault start .octetMissing)

def readOctets (start : Mark) (value : Nat) : Nat → Cursor → Except Fault (Nat × Cursor)
  | 0, cursor => .ok (value, cursor)
  | count + 1, cursor => do
      let (octet, after) ← readOctet start cursor
      if octet < 0x80 || 0xc0 ≤ octet then throw (cursor.fault start .trailingOctet)
      readOctets start (64 * value + octet % 64) count after

def readEscapedChar (start : Mark) (cursor : Cursor) : Except Fault (Char × Cursor) := do
  let (octet, after) ← readOctet start cursor
  match octetCount octet with
  | none => throw (cursor.fault start .leadingOctet)
  | some 1 => return (Char.ofNat octet, after)
  | some count =>
      let (code, after) ← readOctets start (octet % Nat.pow 2 (7 - count)) (count - 1) after
      return (Char.ofNat code, after)

/-- Reads the characters of a tag, after some in reverse order. -/
def tagChars (start : Mark) (read : List Char) (cursor : Cursor) :
    Except Fault (List Char × Cursor) :=
  match _left : cursor.rest with
  | [] => .ok (read.reverse, cursor)
  | c :: _ =>
      if c == '%' then
        match readEscapedChar start cursor with
        | .error fault => .error fault
        | .ok (meant, after) =>
            if _shorter : after.rest.length < cursor.rest.length then
              tagChars start (meant :: read) after
            else .ok (read.reverse, cursor)
      else if isTagChar c then tagChars start (c :: read) cursor.next
      else .ok (read.reverse, cursor)
termination_by cursor.rest.length
decreasing_by
  all_goals
    simp only [Cursor.rest_next, _left, List.length_drop, List.length_cons] at *
    omega

/-- Reads a handle such as `!name!`, standing at its first mark. Without a second mark it is the
start of a tag. -/
def readHandle (start : Mark) (cursor : Cursor) : Except Fault (List Char × Cursor) :=
  match cursor.rest with
  | '!' :: _ =>
      let (name, after) := cursor.next.takeWhile isNameChar
      match after.rest with
      | '!' :: _ => .ok ('!' :: name ++ ['!'], after.next)
      | _ => .ok ('!' :: name, after)
  | _ => .error (cursor.fault start .tagMarkMissing)

/-- A tag as written: a handle, which may be empty, and what follows it. -/
structure TagText where
  handle : String
  suffix : String
  deriving DecidableEq, Repr

def readTag (cursor : Cursor) : Except Fault (TagText × Cursor) := do
  let start := cursor.mark
  let (tag, after) ←
    match cursor.rest.drop 1 with
    | '<' :: _ => do
        let (suffix, after) ← tagChars start [] (cursor.skip 2)
        if suffix.isEmpty then throw (after.fault start .tagMissing)
        if after.rest.head? ≠ some '>' then throw (after.fault start .tagEndMissing)
        pure ((⟨"", String.ofList suffix⟩ : TagText), after.next)
    | _ => do
        let (handle, after) ← readHandle start cursor
        if 1 < handle.length && handle.getLast? == some '!' then
          let (suffix, after) ← tagChars start [] after
          if suffix.isEmpty then throw (after.fault start .tagMissing)
          pure (⟨String.ofList handle, String.ofList suffix⟩, after)
        else
          let (suffix, after) ← tagChars start (handle.drop 1).reverse after
          if suffix.isEmpty then pure (⟨"", "!"⟩, after)
          else pure (⟨"!", String.ofList suffix⟩, after)
  if !atGap after.rest then throw (after.fault start .blankMissing)
  return (tag, after)

/-! ## Directives -/

inductive Directive where
  | version (major minor : Nat)
  | tag (handle leading : String)
  deriving DecidableEq, Repr

def readVersionPart (start : Mark) (cursor : Cursor) : Except Fault (Nat × Cursor) :=
  let (run, after) := cursor.takeWhile Char.isDigit
  if 2 < run.length then .error ((cursor.skip 2).fault start .versionTooLong)
  else if run.isEmpty then .error (after.fault start .versionMissing)
  else .ok (run.foldl (fun value c => 10 * value + (c.toNat - 48)) 0, after)

def readVersion (start : Mark) (cursor : Cursor) : Except Fault (Directive × Cursor) := do
  let (major, after) ← readVersionPart start (cursor.skipWhile isBlank)
  if after.rest.head? ≠ some '.' then throw (after.fault start .versionBroken)
  let (minor, after) ← readVersionPart start after.next
  return (.version major minor, after)

def readTagDirective (start : Mark) (cursor : Cursor) : Except Fault (Directive × Cursor) := do
  let (handle, after) ← readHandle start (cursor.skipWhile isBlank)
  if handle.getLast? ≠ some '!' then throw (after.fault start .tagMarkMissing)
  if !after.rest.head?.any isBlank then throw (after.fault start .directiveBlankMissing)
  let (leading, after) ← tagChars start [] (after.skipWhile isBlank)
  if leading.isEmpty then throw (after.fault start .tagMissing)
  if !atGap after.rest then throw (after.fault start .blankMissing)
  return (.tag (String.ofList handle) (String.ofList leading), after)

/-- Reads a directive with its line, standing at its percent sign. -/
def readDirective (cursor : Cursor) : Except Fault (Directive × Cursor) := do
  let start := cursor.mark
  let (name, after) := cursor.next.takeWhile isNameChar
  if name.isEmpty then throw (after.fault start .directiveNameMissing)
  if !atGap after.rest then throw (after.fault start .directiveNameBroken)
  let (directive, after) ←
    if name = "YAML".toList then readVersion start after
    else if name = "TAG".toList then readTagDirective start after
    else throw (after.fault start .unknownDirective)
  let after := after.skipWhile isBlank
  let after := if after.rest.head? = some '#' then after.skipLine else after
  if !atLineEnd after.rest then throw (after.fault start .lineEndMissing)
  return (directive, if after.rest.isEmpty then after else after.nextLine)

end Kerf.Yaml
