import Kerf.Yaml.Problem

/-!
# Places in a document

A cursor is what is left of a document and the place where it stands. Every line end is one
character: all ways to end a line are made a line feed, but for the two separators of lines and
paragraphs, which stay.
-/

set_option autoImplicit false

namespace Kerf.Yaml

/-! ## Characters -/

def isBreak (c : Char) : Bool := c == '\n' || c == '\u2028' || c == '\u2029'

def isBlank (c : Char) : Bool := c == ' ' || c == '\t'

/-- Whether a character may stand in the names of anchors, handles and directives. -/
def isNameChar (c : Char) : Bool := c.isAlphanum || c == '_' || c == '-'

/-- Whether a text starts with a line end or is empty. -/
def atLineEnd : List Char → Bool
  | [] => true
  | c :: _ => isBreak c

/-- Whether a text starts with a blank or a line end or is empty. -/
def atGap : List Char → Bool
  | [] => true
  | c :: _ => isBlank c || isBreak c

/-- Whether a document may hold a character. -/
def isAllowed (c : Char) : Bool :=
  let code := c.toNat
  code == 0x09 || code == 0x0a || code == 0x0d || (0x20 ≤ code && code ≤ 0x7e) || code == 0x85 ||
    (0xa0 ≤ code && code ≤ 0xd7ff) || (0xe000 ≤ code && code ≤ 0xfffd) || 0x10000 ≤ code

/-- Makes the ways to end a line one. -/
def unifyBreaks : List Char → List Char
  | '\r' :: '\n' :: rest => '\n' :: unifyBreaks rest
  | '\r' :: rest => '\n' :: unifyBreaks rest
  | '\u0085' :: rest => '\n' :: unifyBreaks rest
  | c :: rest => c :: unifyBreaks rest
  | [] => []

/-! ## Cursors -/

/-- A place, with everything counted from zero. -/
structure Mark where
  index : Nat := 0
  line : Nat := 0
  column : Nat := 0
  deriving DecidableEq, Repr

structure Cursor where
  rest : List Char
  mark : Mark := {}
  /-- The line ends since the last character that is neither blank nor a line end. -/
  breaks : Nat := 0
  deriving DecidableEq, Repr

namespace Cursor

def next (cursor : Cursor) : Cursor :=
  match cursor.rest with
  | [] => cursor
  | c :: rest =>
      { rest
        mark :=
          { cursor.mark with
            index := cursor.mark.index + 1
            column := cursor.mark.column + 1 }
        breaks := if isBlank c then cursor.breaks else 0 }

def nextLine (cursor : Cursor) : Cursor :=
  { rest := cursor.rest.drop 1
    mark := { index := cursor.mark.index + 1, line := cursor.mark.line + 1, column := 0 }
    breaks := cursor.breaks + 1 }

theorem rest_next (cursor : Cursor) : cursor.next.rest = cursor.rest.drop 1 := by
  unfold next
  split <;> simp_all

theorem rest_nextLine (cursor : Cursor) : cursor.nextLine.rest = cursor.rest.drop 1 := rfl

def skip (cursor : Cursor) : Nat → Cursor
  | 0 => cursor
  | count + 1 => cursor.next.skip count

theorem rest_skip (cursor : Cursor) (count : Nat) :
    (cursor.skip count).rest = cursor.rest.drop count := by
  induction count generalizing cursor with
  | zero => rfl
  | succ count ih => rw [skip, ih, rest_next, List.drop_drop, Nat.add_comm]

/-- Goes past one character, whether it ends a line or not. -/
def pass (cursor : Cursor) : Cursor :=
  if atLineEnd cursor.rest then cursor.nextLine else cursor.next

theorem rest_pass (cursor : Cursor) : cursor.pass.rest = cursor.rest.drop 1 := by
  unfold pass
  split
  · exact rest_nextLine cursor
  · exact rest_next cursor

/-- Goes past several characters, whether they end lines or not. -/
def passMany (cursor : Cursor) : Nat → Cursor
  | 0 => cursor
  | count + 1 => cursor.pass.passMany count

theorem rest_passMany (cursor : Cursor) (count : Nat) :
    (cursor.passMany count).rest = cursor.rest.drop count := by
  induction count generalizing cursor with
  | zero => rfl
  | succ count ih => rw [passMany, ih, rest_pass, List.drop_drop, Nat.add_comm]

/-- Takes the characters up to the first one without a property. -/
def takeWhile (cursor : Cursor) (property : Char → Bool) : List Char × Cursor :=
  let taken := cursor.rest.takeWhile property
  (taken, cursor.skip taken.length)

def skipWhile (cursor : Cursor) (property : Char → Bool) : Cursor :=
  (cursor.takeWhile property).2

theorem length_skip_le (cursor : Cursor) (count : Nat) :
    (cursor.skip count).rest.length ≤ cursor.rest.length := by
  rw [rest_skip, List.length_drop]
  omega

theorem length_skipWhile_le (cursor : Cursor) (property : Char → Bool) :
    (cursor.skipWhile property).rest.length ≤ cursor.rest.length :=
  length_skip_le cursor _

def skipLine (cursor : Cursor) : Cursor := cursor.skipWhile fun c => !isBreak c

theorem length_skipLine_le (cursor : Cursor) : cursor.skipLine.rest.length ≤ cursor.rest.length :=
  length_skipWhile_le cursor _

/-- Whether a mark that starts or ends a document stands here. -/
def atDocumentMark (cursor : Cursor) : Bool :=
  cursor.mark.column == 0 &&
    match cursor.rest with
    | '-' :: '-' :: '-' :: rest => atGap rest
    | '.' :: '.' :: '.' :: rest => atGap rest
    | _ => false

/-- A problem here, within a construct that starts at a mark. -/
def fault (cursor : Cursor) (start : Mark) (problem : Problem) : Fault :=
  .whileReading start.line cursor.mark.line problem

/-! ## Comments -/

/-- How far comments are looked for. -/
def commentReach : Nat := 512

/-- Goes past a comment and all comments on the lines after it, up to the end of the last one. -/
def skipComments (cursor : Cursor) : Cursor :=
  let gap := (cursor.skipLine.rest.drop 1).takeWhile fun c => isBlank c || isBreak c
  if _closer : gap.length + 1 < commentReach ∧
      (cursor.skipLine.passMany (gap.length + 1)).rest.head? = some '#' then
    (cursor.skipLine.passMany (gap.length + 1)).skipComments
  else cursor.skipLine
termination_by cursor.rest.length
decreasing_by
  have more := _closer.2
  have most := cursor.length_skipLine_le
  rw [rest_passMany] at more ⊢
  rw [List.length_drop]
  cases left : List.drop (gap.length + 1) cursor.skipLine.rest with
  | nil => simp [left] at more
  | cons c rest =>
      have count := congrArg List.length left
      rw [List.length_drop, List.length_cons] at count
      omega

theorem length_skipComments_le (cursor : Cursor) :
    cursor.skipComments.rest.length ≤ cursor.rest.length := by
  fun_induction skipComments cursor with
  | case1 cursor gap closer ih =>
      have most := cursor.length_skipLine_le
      rw [rest_passMany, List.length_drop] at ih
      omega
  | case2 cursor gap closer => exact cursor.length_skipLine_le

def skipLineComment (cursor : Cursor) : Cursor :=
  if cursor.breaks ≠ 0 then cursor
  else
    let gap := cursor.rest.takeWhile isBlank
    if gap.length < commentReach && (cursor.rest.drop gap.length).head? == some '#' then
      cursor.skipLine
    else cursor

/-- Goes to the next token or line end, past blanks and comments. Tabs count as blanks or not. -/
def skipToToken (cursor : Cursor) (tabs : Bool) : Cursor :=
  let start :=
    if cursor.mark.column = 0 && cursor.rest.head? = some '\ufeff' then cursor.next else cursor
  let reached := start.skipWhile fun c => c == ' ' || (tabs && c == '\t')
  if reached.rest.head? = some '#' then reached.skipComments else reached

theorem length_skipToToken_le (cursor : Cursor) (tabs : Bool) :
    (cursor.skipToToken tabs).rest.length ≤ cursor.rest.length := by
  have first : ∀ start : Cursor, start.rest.length ≤ cursor.rest.length →
      (if (start.skipWhile fun c => c == ' ' || (tabs && c == '\t')).rest.head? = some '#' then
        (start.skipWhile fun c => c == ' ' || (tabs && c == '\t')).skipComments
      else start.skipWhile fun c => c == ' ' || (tabs && c == '\t')).rest.length ≤
        cursor.rest.length := by
    intro start most
    have reached := start.length_skipWhile_le fun c => c == ' ' || (tabs && c == '\t')
    split
    · exact Nat.le_trans (length_skipComments_le _) (Nat.le_trans reached most)
    · exact Nat.le_trans reached most
  unfold skipToToken
  split
  · exact first _ (by rw [rest_next, List.length_drop]; omega)
  · exact first _ (Nat.le_refl _)

end Cursor

end Kerf.Yaml
