import Kerf.Proofs.Comments

/-!
# Lines without comments

Taking a comment out of a line joins what stood on both sides of it, and the join can hold an
opening mark that was not there before. The search therefore starts over with the joined line. It
still ends, since every round takes out a whole comment with both its marks.

Main statement: with an opening mark, every line comes down to a part of it that holds no opening
mark, within as many rounds as the marks fit into the line.
-/

set_option autoImplicit false

namespace Kerf

open Kerf.Text

/-! ## First occurrences -/

namespace Text

/-- A pattern stands between two parts of a text, and nowhere further to the left. -/
structure FirstAt (pattern text before after : List Char) : Prop where
  whole : text = before ++ pattern ++ after
  first : ∀ front, front ++ pattern <+: text → before.length ≤ front.length

variable {pattern text before after : List Char}

theorem FirstAt.isPrefix (here : FirstAt pattern text before after) : before ++ pattern <+: text :=
  ⟨after, here.whole.symm⟩

theorem FirstAt.isInfix (here : FirstAt pattern text before after) : pattern <:+: text :=
  ⟨before, after, here.whole.symm⟩

theorem FirstAt.unique {before' after' : List Char} (here : FirstAt pattern text before after)
    (there : FirstAt pattern text before' after') : before = before' ∧ after = after' := by
  have size : before.length = before'.length :=
    Nat.le_antisymm (here.first before' there.isPrefix) (there.first before here.isPrefix)
  have same := here.whole.symm.trans there.whole
  rw [List.append_assoc, List.append_assoc] at same
  obtain ⟨front, back⟩ := List.append_inj same size
  exact ⟨front, List.append_cancel_left back⟩

/-- An occurrence inside what stands before the first one would come earlier. -/
theorem FirstAt.not_isInfix_before (here : FirstAt pattern text before after)
    (nonempty : pattern ≠ []) : ¬ pattern <:+: before := by
  rintro ⟨front, back, shape⟩
  have inside : front ++ pattern <+: before := ⟨back, shape⟩
  have earlier : front ++ pattern <+: text :=
    inside.trans ((List.prefix_append before pattern).trans here.isPrefix)
  have bound := here.first front earlier
  have some := List.length_pos_iff.mpr nonempty
  rw [← shape, List.length_append, List.length_append] at bound
  omega

private theorem first_of_cutFrom {passed front : List Char}
    (found : cutFrom pattern passed text = some (before, after)) (starts : front ++ pattern <+: text) :
    before.length ≤ passed.length + front.length := by
  induction text generalizing passed front with
  | nil =>
      unfold cutFrom at found
      split at found
      · cases found
        simp
      · cases found
  | cons c rest ih =>
      unfold cutFrom at found
      split at found
      · cases found
        simp
      · next other =>
          cases front with
          | nil => exact absurd (List.isPrefixOf_iff_prefix.mpr starts) other
          | cons d front =>
              have bound := ih found (List.cons_prefix_cons.mp starts).2
              simp only [List.length_cons] at bound ⊢
              omega

private theorem cutFrom_eq_none_iff {passed : List Char} :
    cutFrom pattern passed text = none ↔ ¬ pattern <:+: text := by
  induction text generalizing passed with
  | nil => simp [cutFrom]
  | cons c rest ih =>
      rw [cutFrom, List.infix_cons_iff, ← List.isPrefixOf_iff_prefix]
      split
      · next starts => simp [starts]
      · next other => simp [other, ih]

theorem cut?_eq_none_iff : cut? pattern text = none ↔ ¬ pattern <:+: text := cutFrom_eq_none_iff

/-- A cut is made at the first occurrence. -/
theorem cut?_eq_some_iff :
    cut? pattern text = some (before, after) ↔ FirstAt pattern text before after := by
  have firstAt : ∀ {front back}, cut? pattern text = some (front, back) →
      FirstAt pattern text front back := fun found =>
    ⟨eq_of_cut? found, fun _ starts => by simpa using first_of_cutFrom found starts⟩
  refine ⟨firstAt, fun here => ?_⟩
  cases found : cut? pattern text with
  | none => exact absurd here.isInfix (cut?_eq_none_iff.mp found)
  | some parts =>
      obtain ⟨rfl, rfl⟩ := (firstAt found).unique here
      rfl

end Text

/-! ## Rounds -/

namespace Dialect

/-- One round of the search: the first comment that is closed is taken out with its marks. -/
inductive Removes (opening closing : List Char) : List Char → List Char → Prop where
  | comment {line before rest body after : List Char} :
      closing ≠ [] → FirstAt opening line before rest → FirstAt closing rest body after →
      Removes opening closing line (before ++ after)

/-- The last round: no comment is left, or one that goes on to the end of the line. -/
inductive Leaves (opening closing : List Char) : List Char → List Char → Prop where
  | plain {line : List Char} : ¬ opening <:+: line → Leaves opening closing line line
  | unclosed {line before rest : List Char} :
      FirstAt opening line before rest → closing = [] ∨ ¬ closing <:+: rest →
      Leaves opening closing line before

/-- A search through a line with the number of comments taken out on the way. -/
inductive Strips (opening closing : List Char) : Nat → List Char → List Char → Prop where
  | leaves {line result : List Char} :
      Leaves opening closing line result → Strips opening closing 0 line result
  | removes {count : Nat} {line next result : List Char} :
      Removes opening closing line next → Strips opening closing count next result →
      Strips opening closing (count + 1) line result

variable {opening closing line next result : List Char} {count : Nat}

theorem Removes.sublist (round : Removes opening closing line next) : next.Sublist line := by
  obtain ⟨_, opened, closed⟩ := round
  rw [opened.whole, closed.whole, List.append_assoc]
  exact List.Sublist.append_left ((List.sublist_append_right _ _).trans
    (List.sublist_append_right _ _)) _

theorem Removes.length_le (round : Removes opening closing line next) :
    next.length + (opening.length + closing.length) ≤ line.length := by
  obtain ⟨_, opened, closed⟩ := round
  rw [opened.whole, closed.whole]
  simp only [List.length_append]
  omega

theorem Leaves.sublist (round : Leaves opening closing line result) : result.Sublist line := by
  cases round with
  | plain => exact List.Sublist.refl _
  | unclosed opened _ =>
      exact ((List.prefix_append _ _).trans opened.isPrefix).sublist

/-- What the last round leaves holds no opening mark, since it ends before the first one. -/
theorem Leaves.not_isInfix (round : Leaves opening closing line result) (marked : opening ≠ []) :
    ¬ opening <:+: result := by
  cases round with
  | plain absent => exact absent
  | unclosed opened _ => exact opened.not_isInfix_before marked

theorem Leaves.unique {result' : List Char} (round : Leaves opening closing line result)
    (other : Leaves opening closing line result') : result = result' := by
  cases round with
  | plain absent =>
      cases other with
      | plain => rfl
      | unclosed opened _ => exact absurd opened.isInfix absent
  | unclosed opened _ =>
      cases other with
      | plain absent => exact absurd opened.isInfix absent
      | unclosed opened' _ => exact (opened.unique opened').1

theorem Removes.unique {next' : List Char} (round : Removes opening closing line next)
    (other : Removes opening closing line next') : next = next' := by
  obtain ⟨_, opened, closed⟩ := round
  obtain ⟨_, opened', closed'⟩ := other
  obtain ⟨rfl, rfl⟩ := opened.unique opened'
  obtain ⟨_, rfl⟩ := closed.unique closed'
  rfl

theorem Removes.not_leaves (round : Removes opening closing line next) :
    ¬ Leaves opening closing line result := by
  intro last
  obtain ⟨nonempty, opened, closed⟩ := round
  cases last with
  | plain absent => exact absent opened.isInfix
  | unclosed opened' endless =>
      obtain ⟨_, rfl⟩ := opened.unique opened'
      exact endless.elim nonempty fun absent => absent closed.isInfix

/-! ## Searches -/

theorem Strips.sublist (search : Strips opening closing count line result) :
    result.Sublist line := by
  induction search with
  | leaves last => exact last.sublist
  | removes round _ ih => exact ih.trans round.sublist

theorem Strips.not_isInfix (search : Strips opening closing count line result)
    (marked : opening ≠ []) : ¬ opening <:+: result := by
  induction search with
  | leaves last => exact last.not_isInfix marked
  | removes _ _ ih => exact ih

/-- Every round takes the length of both marks off the line. -/
theorem Strips.count_mul_le (search : Strips opening closing count line result) :
    count * (opening.length + closing.length) ≤ line.length := by
  induction search with
  | leaves => simp
  | removes round _ ih =>
      have shorter := round.length_le
      rw [Nat.add_mul, Nat.one_mul]
      omega

theorem Strips.unique {count' : Nat} {result' : List Char}
    (search : Strips opening closing count line result)
    (other : Strips opening closing count' line result') : count = count' ∧ result = result' := by
  induction search generalizing count' with
  | leaves last =>
      cases other with
      | leaves last' => exact ⟨rfl, last.unique last'⟩
      | removes round _ => exact absurd last round.not_leaves
  | removes round _ ih =>
      cases other with
      | leaves last => exact absurd last round.not_leaves
      | removes round' rest =>
          obtain rfl := round.unique round'
          obtain ⟨rfl, same⟩ := ih rest
          exact ⟨rfl, same⟩

/-- The comments of a line are taken out by a search that comes to an end. -/
theorem strips_stripComments (opening closing line : List Char) :
    ∃ count, Strips opening closing count line (stripComments opening closing line) := by
  fun_induction stripComments opening closing line with
  | case1 line absent => exact ⟨0, .leaves (.plain (cut?_eq_none_iff.mp absent))⟩
  | case2 line before rest found endless =>
      exact ⟨0, .leaves (.unclosed (cut?_eq_some_iff.mp found) (.inl (List.isEmpty_iff.mp endless)))⟩
  | case3 line before rest found _ absent =>
      exact ⟨0, .leaves (.unclosed (cut?_eq_some_iff.mp found) (.inr (cut?_eq_none_iff.mp absent)))⟩
  | case4 line before rest found nonempty body after ended ih =>
      obtain ⟨count, search⟩ := ih
      have round := Removes.comment (by simpa using nonempty) (cut?_eq_some_iff.mp found)
        (cut?_eq_some_iff.mp ended)
      exact ⟨count + 1, .removes round search⟩

theorem stripComments_of_not_isInfix (absent : ¬ opening <:+: line) :
    stripComments opening closing line = line :=
  stripComments_of_not_found (cut?_eq_none_iff.mpr absent)

/-- With an opening mark, and with any closing mark or none, the comments of every line are taken out
by a search that ends after at most as many rounds as both marks fit into the line, and there is only
one such search. It leaves a part of the line in order without any opening mark. Lines without one
stay as they are, so that nothing is left to take out a second time. -/
theorem strip_complete (dialect : Dialect) (marked : dialect.commentStart ≠ "")
    (line : List Char) :
    let opening := dialect.commentStart.toList
    let closing := dialect.commentEnd.toList
    (∃ count, Strips opening closing count line (dialect.strip line) ∧
      count * (opening.length + closing.length) ≤ line.length) ∧
    (∀ count result, Strips opening closing count line result → result = dialect.strip line) ∧
    (dialect.strip line).Sublist line ∧
    ¬ opening <:+: dialect.strip line ∧
    (¬ opening <:+: line → dialect.strip line = line) ∧
    dialect.strip (dialect.strip line) = dialect.strip line := by
  intro opening closing
  have nonempty : opening ≠ [] := by simpa [opening] using marked
  obtain ⟨count, search⟩ := strips_stripComments opening closing line
  have clean := search.not_isInfix nonempty
  exact ⟨⟨count, search, search.count_mul_le⟩, fun _ _ other => (other.unique search).2,
    search.sublist, clean, stripComments_of_not_isInfix, stripComments_of_not_isInfix clean⟩

/-- A comment inside an opening mark: the first round puts together the mark that the second one
finds. -/
theorem strip_complete_joined :
    let dialect : Dialect := { commentStart := "/*", commentEnd := "*/" }
    let line := "//* a */* b */G01 X1".toList
    dialect.commentStart ≠ "" ∧ dialect.strip line = "G01 X1".toList ∧
      ¬ "/*".toList <:+: "G01 X1".toList ∧
      dialect.strip "G01 X1".toList = "G01 X1".toList := by
  intro dialect line
  have marked : dialect.commentStart ≠ "" := by decide
  have first : Removes "/*".toList "*/".toList line ("/".toList ++ "* b */G01 X1".toList) :=
    have opened : cut? "/*".toList line = some ("/".toList, " a */* b */G01 X1".toList) := by
      decide +kernel
    have closed : cut? "*/".toList " a */* b */G01 X1".toList =
        some (" a ".toList, "* b */G01 X1".toList) := by decide +kernel
    .comment (by decide) (cut?_eq_some_iff.mp opened) (cut?_eq_some_iff.mp closed)
  have second : Removes "/*".toList "*/".toList ("/".toList ++ "* b */G01 X1".toList)
      ("".toList ++ "G01 X1".toList) :=
    have opened : cut? "/*".toList ("/".toList ++ "* b */G01 X1".toList) =
        some ("".toList, " b */G01 X1".toList) := by decide +kernel
    have closed : cut? "*/".toList " b */G01 X1".toList = some (" b ".toList, "G01 X1".toList) := by
      decide +kernel
    .comment (by decide) (cut?_eq_some_iff.mp opened) (cut?_eq_some_iff.mp closed)
  have last : cut? "/*".toList "G01 X1".toList = none := by decide +kernel
  have search : Strips "/*".toList "*/".toList 2 line "G01 X1".toList :=
    .removes first (.removes second (.leaves (.plain (cut?_eq_none_iff.mp last))))
  obtain ⟨_, only, _, clean, _, again⟩ := strip_complete dialect marked line
  rw [← only 2 _ search] at clean again
  exact ⟨marked, (only 2 _ search).symm, clean, again⟩

end Dialect

end Kerf
