/-!
# Sorting by insertion

Insertion from the back, which keeps the order of equal entries and stays well defined for a
comparison that is no order, such as one on numbers that may not be numbers.
-/

set_option autoImplicit false

namespace Kerf.Sorting

/-- Puts an entry into a list kept in reverse order, past the entries it comes before. -/
def insertBack {α : Type} (before : α → α → Bool) (entry : α) : List α → List α
  | [] => [entry]
  | last :: rest =>
      if before entry last then last :: insertBack before entry rest else entry :: last :: rest

def byInsertion {α : Type} (before : α → α → Bool) (entries : List α) : List α :=
  (entries.foldl (fun sorted entry => insertBack before entry sorted) []).reverse

end Kerf.Sorting
