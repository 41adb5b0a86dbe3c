/-!
# Searching text

Cutting a text at the first place where a pattern stands, removing every such place, and splitting
at a character.
-/

set_option autoImplicit false

namespace Kerf.Text

/-- Cuts a text at the first occurrence of a pattern. What has been passed over is kept in reverse
order. -/
def cutFrom (pattern passed : List Char) : List Char → Option (List Char × List Char)
  | [] => if pattern.isEmpty then some (passed.reverse, []) else none
  | c :: rest =>
      if pattern.isPrefixOf (c :: rest) then
        some (passed.reverse, (c :: rest).drop pattern.length)
      else cutFrom pattern (c :: passed) rest

/-- What stands before and after the first occurrence of a pattern. -/
def cut? (pattern text : List Char) : Option (List Char × List Char) := cutFrom pattern [] text

/-- A cut takes exactly the pattern out of the text. -/
theorem length_of_cutFrom {pattern text : List Char} {passed before after : List Char}
    (found : cutFrom pattern passed text = some (before, after)) :
    before.length + pattern.length + after.length = passed.length + text.length := by
  induction text generalizing passed with
  | nil =>
      unfold cutFrom at found
      split at found
      · next empty =>
          simp only [Option.some.injEq, Prod.mk.injEq] at found
          obtain ⟨rfl, rfl⟩ := found
          simp_all
      · simp at found
  | cons c rest ih =>
      unfold cutFrom at found
      split at found
      · next starts =>
          simp only [Option.some.injEq, Prod.mk.injEq] at found
          obtain ⟨rfl, rfl⟩ := found
          have bound := (List.isPrefixOf_iff_prefix.mp starts).length_le
          simp only [List.length_reverse, List.length_drop]
          omega
      · have := ih found
        simp only [List.length_cons] at this ⊢
        omega

/-- The parts of a cut and the pattern make up the length of the text. -/
theorem length_of_cut? {pattern text before after : List Char}
    (found : cut? pattern text = some (before, after)) :
    before.length + pattern.length + after.length = text.length := by
  simpa using length_of_cutFrom found

/-- Removes a pattern wherever it stands, from left to right. A number of characters that belong to
an occurrence are passed over; what is kept is in reverse order. -/
def eraseFrom (pattern : List Char) : Nat → List Char → List Char → List Char
  | _, kept, [] => kept.reverse
  | skip + 1, kept, _ :: rest => eraseFrom pattern skip kept rest
  | 0, kept, c :: rest =>
      if !pattern.isEmpty && pattern.isPrefixOf (c :: rest) then
        eraseFrom pattern (pattern.length - 1) kept rest
      else eraseFrom pattern 0 (c :: kept) rest

/-- Removes every occurrence of a pattern. The empty pattern stands nowhere. -/
def eraseAll (pattern text : List Char) : List Char := eraseFrom pattern 0 [] text

/-- How many times a pattern stands in a text without overlap. -/
def countFrom (pattern : List Char) : Nat → List Char → Nat
  | _, [] => 0
  | skip + 1, _ :: rest => countFrom pattern skip rest
  | 0, c :: rest =>
      if !pattern.isEmpty && pattern.isPrefixOf (c :: rest) then
        countFrom pattern (pattern.length - 1) rest + 1
      else countFrom pattern 0 rest

def countOf (pattern text : List Char) : Nat := countFrom pattern 0 text

/-- Splits at a character. The piece under way and the pieces before it are in reverse order. -/
def splitFrom (separator : Char) (pieces : List (List Char)) (piece : List Char) :
    List Char → List (List Char)
  | [] => (piece.reverse :: pieces).reverse
  | c :: rest =>
      if c == separator then splitFrom separator (piece.reverse :: pieces) [] rest
      else splitFrom separator pieces (c :: piece) rest

/-- The pieces of a text between the occurrences of a character; always at least one. -/
def splitAt (separator : Char) (text : List Char) : List (List Char) :=
  splitFrom separator [] [] text

def startsWith (pattern text : List Char) : Bool := pattern.isPrefixOf text

end Kerf.Text
