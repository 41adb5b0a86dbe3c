import Kerf.Text.Blank
import Kerf.Text.Search

/-!
# Listings

Texts separated by commas.
-/

set_option autoImplicit false

namespace Kerf.Text

/-- The entries of a listing, without blanks around them and without empty ones. -/
def listing (text : String) : List String :=
  ((splitAt ',' text.toList).map trimBlanks).filterMap fun entry =>
    if entry.isEmpty then none else some (String.ofList entry)

end Kerf.Text
