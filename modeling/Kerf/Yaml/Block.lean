import Kerf.Yaml.Gap

/-!
# Block scalars

A bar or an angle starts a block of lines that are indented further. Behind a bar line ends stay;
behind an angle they are folded between lines that start with a word. A sign tells what becomes of
the line ends at the end: a minus drops them, a plus keeps all, and otherwise one stays.
-/

set_option autoImplicit false

namespace Kerf.Yaml

/-- What becomes of the line ends at the end of a block. -/
inductive Chomping where
  | strip
  | clip
  | keep
  deriving DecidableEq, Repr

/-- The marks behind the bar or angle of a block. -/
structure BlockHeader where
  chomping : Chomping := .clip
  /-- The indentation relative to the surrounding one. -/
  increment : Option Nat := none
  deriving DecidableEq, Repr

def readChomping (cursor : Cursor) : Option Chomping × Cursor :=
  match cursor.rest with
  | '+' :: _ => (some .keep, cursor.next)
  | '-' :: _ => (some .strip, cursor.next)
  | _ => (none, cursor)

def readIncrement (start : Mark) (cursor : Cursor) : Except Fault (Option Nat × Cursor) :=
  match cursor.rest with
  | c :: _ =>
      if c == '0' then .error (cursor.fault start .zeroIndentation)
      else if c.isDigit then .ok (some (c.toNat - 48), cursor.next)
      else .ok (none, cursor)
  | [] => .ok (none, cursor)

/-- Reads a header up to the end of its line, standing behind the bar or angle. Sign and digit come
in any order. -/
def readHeader (start : Mark) (cursor : Cursor) : Except Fault (BlockHeader × Cursor) := do
  let (sign, cursor) := readChomping cursor
  let (increment, cursor) ← readIncrement start cursor
  let (sign, cursor) :=
    if sign.isNone && increment.isSome then readChomping cursor else (sign, cursor)
  let cursor := cursor.skipWhile isBlank
  let cursor := if cursor.rest.head? = some '#' then cursor.skipLine else cursor
  if !atLineEnd cursor.rest then throw (cursor.fault start .lineEndMissing)
  let cursor := if cursor.rest.isEmpty then cursor else cursor.nextLine
  return ({ chomping := sign.getD .clip, increment }, cursor)

/-- Goes past blanks up to a column, if one is given. -/
def skipIndent (limit : Option Nat) (cursor : Cursor) : Cursor :=
  let blanks := (cursor.rest.takeWhile (· == ' ')).length
  match limit with
  | none => cursor.skip blanks
  | some column => cursor.skip (min blanks (column - cursor.mark.column))

theorem length_skipIndent_le (limit : Option Nat) (cursor : Cursor) :
    (skipIndent limit cursor).rest.length ≤ cursor.rest.length := by
  unfold skipIndent
  split <;> exact Cursor.length_skip_le cursor _

/-- Goes past empty lines and the indentation of the next line. Answers the line ends in reverse
order and the furthest column seen. -/
def blockBreaks (start : Mark) (limit : Option Nat) (read : List Char) (furthest : Nat)
    (cursor : Cursor) : Except Fault (List Char × Nat × Cursor) :=
  let indented := skipIndent limit cursor
  let furthest := max furthest indented.mark.column
  let inIndent := limit.all fun column => indented.mark.column < column
  match _left : indented.rest with
  | [] => .ok (read, furthest, indented)
  | c :: _ =>
      if inIndent && c == '\t' then .error (indented.fault start .tabForIndentation)
      else if isBreak c then blockBreaks start limit (c :: read) furthest indented.nextLine
      else .ok (read, furthest, indented)
termination_by cursor.rest.length
decreasing_by
  have most := length_skipIndent_le limit cursor
  rw [_left, List.length_cons] at most
  rw [Cursor.rest_nextLine, _left, List.length_drop, List.length_cons]
  omega

theorem length_blockBreaks_le {start : Mark} {limit : Option Nat} {read : List Char}
    {furthest : Nat} {cursor : Cursor} {found : List Char × Nat × Cursor}
    (result : blockBreaks start limit read furthest cursor = .ok found) :
    found.2.2.rest.length ≤ cursor.rest.length := by
  fun_induction blockBreaks start limit read furthest cursor with
  | case1 =>
      cases result
      exact length_skipIndent_le limit _
  | case2 => cases result
  | case3 =>
      rename_i ih
      have later := ih result
      rw [Cursor.rest_nextLine, List.length_drop] at later
      exact Nat.le_trans later (Nat.le_trans (Nat.sub_le _ _) (length_skipIndent_le limit _))
  | case4 =>
      cases result
      exact length_skipIndent_le limit _

/-- Where the lines of a block stand. -/
structure BlockContext where
  start : Mark
  literal : Bool
  column : Nat

/-- What has been read of a block, in reverse order. -/
structure BlockText where
  read : List Char := []
  /-- The end of the last line. -/
  lineEnd : List Char := []
  /-- The ends of the empty lines after it. -/
  empty : List Char := []
  /-- Whether the last line starts with a blank. -/
  blankLine : Bool := false

/-- Joins the next line to a block, given whether it starts with a blank. -/
def BlockText.join (text : BlockText) (literal blank : Bool) : List Char :=
  let folds := !literal && !text.blankLine && !blank && text.lineEnd == ['\n']
  let joint :=
    if folds then if text.empty.isEmpty then [' '] else [] else text.lineEnd
  text.empty ++ (joint ++ text.read)

/-- Goes past the end of a line, unless it is the end of the text. -/
def pastLine (cursor : Cursor) : Cursor := if cursor.rest.isEmpty then cursor else cursor.nextLine

theorem length_pastLine_lt (cursor : Cursor) (property : Char → Bool) (more : cursor.rest ≠ []) :
    (pastLine (cursor.skipWhile property)).rest.length < cursor.rest.length := by
  have most := cursor.length_skipWhile_le property
  have some := List.length_pos_iff.mpr more
  unfold pastLine
  split
  · next ended => rw [List.isEmpty_iff.mp ended]; exact some
  · next left =>
      have rest := List.length_pos_iff.mpr fun ended => left (List.isEmpty_iff.mpr ended)
      rw [Cursor.rest_nextLine, List.length_drop]
      omega

def blockLines (context : BlockContext) (text : BlockText) (cursor : Cursor) :
    Except Fault (BlockText × Cursor) :=
  match _left : cursor.rest with
  | [] => .ok (text, cursor)
  | c :: _ =>
      if cursor.mark.column ≠ context.column then .ok (text, cursor)
      else
        let blank := isBlank c
        let joined := text.join context.literal blank
        let ended := cursor.skipWhile fun c => !isBreak c
        match _found : blockBreaks context.start (some context.column) [] 0 (pastLine ended) with
        | .error fault => .error fault
        | .ok (empty, _, following) =>
            let line := (cursor.takeWhile fun c => !isBreak c).1
            let lineEnd := ended.rest.take 1
            blockLines context
              { read := line.reverse ++ joined, lineEnd, empty, blankLine := blank } following
termination_by cursor.rest.length
decreasing_by
  have later := length_blockBreaks_le _found
  have shorter := length_pastLine_lt cursor (fun c => !isBreak c) (by simp [_left])
  exact Nat.lt_of_le_of_lt later shorter

def BlockText.content (text : BlockText) : Chomping → List Char
  | .strip => text.read.reverse
  | .clip => (text.lineEnd ++ text.read).reverse
  | .keep => (text.empty ++ (text.lineEnd ++ text.read)).reverse

/-- Reads a block scalar within an indentation, standing at its bar or angle. -/
def readBlock (literal : Bool) (indent : Int) (cursor : Cursor) :
    Except Fault (List Char × Cursor) := do
  let start := cursor.mark
  let (header, cursor) ← readHeader start cursor.next
  let limit := header.increment.map fun increment =>
    if 0 ≤ indent then indent.toNat + increment else increment
  let (empty, furthest, cursor) ← blockBreaks start limit [] 0 cursor
  let column := limit.getD (max 1 (max furthest (indent + 1).toNat))
  let (text, cursor) ← blockLines { start, literal, column } { empty } cursor
  return (text.content header.chomping, cursor)

end Kerf.Yaml
