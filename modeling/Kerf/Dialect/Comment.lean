import Kerf.Text.Search

/-!
# Comments in code

A comment runs from an opening mark to a closing mark, or to the end of the line when there is no
closing mark or it is missing.
-/

set_option autoImplicit false

namespace Kerf.Dialect

open Kerf.Text

/-- Removes comments from a line, the first one first. What stood on both sides of a comment is
joined before the search goes on. -/
def stripComments (opening closing line : List Char) : List Char :=
  match _found : cut? opening line with
  | none => line
  | some (before, rest) =>
      if _empty : closing.isEmpty then before
      else
        match _ended : cut? closing rest with
        | none => before
        | some (_, after) => stripComments opening closing (before ++ after)
termination_by line.length
decreasing_by
  have whole := length_of_cut? _found
  have tail := length_of_cut? _ended
  have positive : 0 < closing.length := by
    cases closing with
    | nil => simp at _empty
    | cons _ _ => simp
  simp only [List.length_append]
  omega

/-- A text as it may stand in a comment: without the closing mark and then without the opening
one. -/
def commentBody (opening closing text : List Char) : List Char :=
  eraseAll opening (eraseAll closing text)

end Kerf.Dialect
