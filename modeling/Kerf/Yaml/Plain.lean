import Kerf.Yaml.Gap

/-!
# Plain scalars

A scalar without quotes goes on over several lines as long as they are indented. It ends at a colon
before a gap, at a comment, and within brackets at the marks that stand between entries.
-/

set_option autoImplicit false

namespace Kerf.Yaml

structure PlainScalar where
  text : List Char
  /-- Whether a line ended after it. -/
  lineEnded : Bool
  cursor : Cursor

structure PlainContext where
  start : Mark
  /-- The least column of its further lines. -/
  indent : Int
  /-- Whether it stands within brackets. -/
  inFlow : Bool

def PlainContext.endsAt (context : PlainContext) (c : Char) (rest : List Char) : Bool :=
  (c == ':' && atGap rest) ||
    (context.inFlow && [',', '?', '[', ']', '\x7b', '\x7d'].contains c)

mutual

/-- Reads the words of a plain scalar, after a text in reverse order and a gap. -/
def plainWord (context : PlainContext) (read : List Char) (gap : Gap) (cursor : Cursor) :
    Except Fault PlainScalar :=
  match _left : cursor.rest with
  | [] => .ok ⟨read.reverse, gap.folded, cursor⟩
  | c :: rest =>
      if isBlank c || isBreak c then plainGap context read (Gap.add {} c) cursor.pass
      else if context.endsAt c rest then .ok ⟨read.reverse, gap.folded, cursor⟩
      else plainWord context (c :: gap.addTo read) {} cursor.next
termination_by 2 * cursor.rest.length
decreasing_by
  all_goals
    simp only [Cursor.rest_pass, Cursor.rest_next, _left, List.length_drop, List.length_cons]
    omega

def plainGap (context : PlainContext) (read : List Char) (gap : Gap) (cursor : Cursor) :
    Except Fault PlainScalar :=
  match _left : cursor.rest with
  | [] => .ok ⟨read.reverse, gap.folded, cursor⟩
  | c :: _ =>
      if isBlank c || isBreak c then
        if gap.folded && c == '\t' && Int.ofNat cursor.mark.column < context.indent then
          .error (cursor.fault context.start .tabInIndentation)
        else plainGap context read (gap.add c) cursor.pass
      else if (!context.inFlow && Int.ofNat cursor.mark.column < context.indent) ||
          cursor.atDocumentMark || c == '#' then
        .ok ⟨read.reverse, gap.folded, cursor⟩
      else plainWord context read gap cursor
termination_by 2 * cursor.rest.length + 1
decreasing_by
  all_goals
    simp only [Cursor.rest_pass, _left, List.length_drop, List.length_cons]
    try omega

end

def readPlain (indent : Int) (inFlow : Bool) (cursor : Cursor) : Except Fault PlainScalar :=
  plainWord { start := cursor.mark, indent := indent + 1, inFlow } [] {} cursor

end Kerf.Yaml
