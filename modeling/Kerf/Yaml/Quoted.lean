import Kerf.Yaml.Gap

/-!
# Quoted scalars

In single quotes a doubled quote is a quote and everything else stands for itself. In double quotes
a backslash starts an escape. Line ends are folded in both.
-/

set_option autoImplicit false

namespace Kerf.Yaml

/-- The character that an escape letter stands for. -/
def escapeOf : Char → Option Char
  | '0' => some '\x00'
  | 'a' => some '\x07'
  | 'b' => some '\x08'
  | 't' | '\t' => some '\t'
  | 'n' => some '\n'
  | 'v' => some '\x0b'
  | 'f' => some '\x0c'
  | 'r' => some '\r'
  | 'e' => some '\x1b'
  | ' ' => some ' '
  | '"' => some '"'
  | '\'' => some '\''
  | '\\' => some '\\'
  | 'N' => some '\u0085'
  | '_' => some '\u00a0'
  | 'L' => some '\u2028'
  | 'P' => some '\u2029'
  | _ => none

def escapeLength : Char → Option Nat
  | 'x' => some 2
  | 'u' => some 4
  | 'U' => some 8
  | _ => none

def hexValue (c : Char) : Option Nat :=
  if c.isDigit then some (c.toNat - 48)
  else if 'a' ≤ c && c ≤ 'f' then some (c.toNat - 87)
  else if 'A' ≤ c && c ≤ 'F' then some (c.toNat - 55)
  else none

def hexNumber (value : Nat) : Nat → List Char → Option Nat
  | 0, _ => some value
  | count + 1, c :: rest =>
      match hexValue c with
      | some digit => hexNumber (16 * value + digit) count rest
      | none => none
  | _ + 1, [] => none

/-- Reads an escape, standing at its backslash. -/
def readEscape (start : Mark) (cursor : Cursor) : Except Fault (Char × Cursor) :=
  match cursor.rest.drop 1 with
  | [] => .error (cursor.fault start .unknownEscape)
  | letter :: digits =>
      match escapeLength letter, escapeOf letter with
      | some count, _ =>
          let after := cursor.skip 2
          match hexNumber 0 count digits with
          | none => .error (after.fault start .digitMissing)
          | some code =>
              if code.isValidChar then .ok (Char.ofNat code, after.skip count)
              else .error (after.fault start .invalidCode)
      | none, some meant => .ok (meant, cursor.skip 2)
      | none, none => .error (cursor.fault start .unknownEscape)

theorem length_readEscape_lt {start : Mark} {cursor : Cursor} {found : Char × Cursor}
    (result : readEscape start cursor = .ok found) :
    found.2.rest.length < cursor.rest.length := by
  have shorter : ∀ letter digits, cursor.rest.drop 1 = letter :: digits →
      (cursor.skip 2).rest.length < cursor.rest.length := by
    intro letter digits left
    have count := congrArg List.length left
    rw [List.length_drop, List.length_cons] at count
    rw [Cursor.rest_skip, List.length_drop]
    omega
  unfold readEscape at result
  split at result
  · cases result
  · next letter digits left =>
      split at result
      · split at result
        · cases result
        · split at result
          · cases result
            exact Nat.lt_of_le_of_lt (Cursor.length_skip_le _ _) (shorter letter digits left)
          · cases result
      · cases result
        exact shorter letter digits left
      · cases result

mutual

/-- Reads the words of a quoted scalar, after a text in reverse order. -/
def quotedWord (single : Bool) (start : Mark) (read : List Char) (cursor : Cursor) :
    Except Fault (List Char × Cursor) :=
  match _left : cursor.rest with
  | [] => .error (cursor.fault start .endInQuotes)
  | c :: rest =>
      if isBlank c || isBreak c then quotedGap single start read (Gap.add {} c) cursor.pass
      else if single then
        if c == '\'' then
          if rest.head? == some '\'' then quotedWord single start ('\'' :: read) (cursor.skip 2)
          else .ok (read.reverse, cursor.next)
        else quotedWord single start (c :: read) cursor.next
      else if c == '"' then .ok (read.reverse, cursor.next)
      else if c == '\\' then
        if rest.head?.any isBreak then
          quotedGap single start read { folded := true } cursor.next.nextLine
        else
          match _found : readEscape start cursor with
          | .error fault => .error fault
          | .ok (meant, after) => quotedWord single start (meant :: read) after
      else quotedWord single start (c :: read) cursor.next
termination_by 2 * cursor.rest.length
decreasing_by
  all_goals
    first
      | exact Nat.mul_lt_mul_of_pos_left (length_readEscape_lt _found) (by decide)
      | simp only [Cursor.rest_pass, Cursor.rest_skip, Cursor.rest_next, Cursor.rest_nextLine,
          _left, List.length_drop, List.length_cons]
        simp_all
        try omega

def quotedGap (single : Bool) (start : Mark) (read : List Char) (gap : Gap) (cursor : Cursor) :
    Except Fault (List Char × Cursor) :=
  match _left : cursor.rest with
  | [] => .error (cursor.fault start .endInQuotes)
  | c :: _ =>
      if isBlank c || isBreak c then quotedGap single start read (gap.add c) cursor.pass
      else if cursor.atDocumentMark then .error (cursor.fault start .documentMarkInQuotes)
      else quotedWord single start (gap.addTo read) cursor
termination_by 2 * cursor.rest.length + 1
decreasing_by
  all_goals
    simp only [Cursor.rest_pass, _left, List.length_drop, List.length_cons]
    try omega

end

def readQuoted (single : Bool) (cursor : Cursor) : Except Fault (List Char × Cursor) :=
  quotedWord single cursor.mark [] cursor.next

end Kerf.Yaml
