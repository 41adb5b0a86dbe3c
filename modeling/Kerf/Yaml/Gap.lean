import Kerf.Yaml.Cursor

/-!
# Gaps between words

Between the words of a scalar stand blanks, which are kept, or line ends with blanks around them,
which are folded: a single line end becomes a blank, and of several the first one is dropped.
-/

set_option autoImplicit false

namespace Kerf.Yaml

/-- What separates two words of a scalar. Texts are kept in reverse order. -/
structure Gap where
  /-- The blanks, as long as no line has ended. -/
  blanks : List Char := []
  /-- Whether a line ended. -/
  folded : Bool := false
  /-- The first line end, if it counts. -/
  first : Option Char := none
  /-- The line ends after the first. -/
  more : List Char := []
  deriving DecidableEq, Repr

namespace Gap

def add (gap : Gap) (c : Char) : Gap :=
  if isBreak c then
    if gap.folded then { gap with more := c :: gap.more }
    else { folded := true, first := some c }
  else if gap.folded then gap
  else { gap with blanks := c :: gap.blanks }

/-- What a gap stands for. -/
def text (gap : Gap) : List Char :=
  if gap.folded then
    if gap.first = some '\n' then
      if gap.more.isEmpty then [' '] else gap.more.reverse
    else gap.first.toList ++ gap.more.reverse
  else gap.blanks.reverse

/-- Adds what a gap stands for to a text in reverse order. -/
def addTo (gap : Gap) (read : List Char) : List Char := gap.text.reverse ++ read

end Gap

end Kerf.Yaml
