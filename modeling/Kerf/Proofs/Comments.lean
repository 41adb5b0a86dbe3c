import Kerf.Dialect.Decode
import Kerf.Proofs.Printing

/-!
# Comments

What becomes of a text that is written as a comment. The marks of comments are taken out of it, the
closing mark first, but what is left of a text may hold a mark again, and a line end in the text or
a blank at the end of a mark can set part of the line free.

Main statement: a comment is gone from every line it is written to exactly when it is confined, and
it is always confined when the marks are plain and the text cannot put a closing mark together.
-/

set_option autoImplicit false

namespace Kerf

open Kerf.Text

/-! ## Erasing and cutting -/

namespace Text

private theorem mem_of_mem_eraseFrom {pattern kept text : List Char} {skip : Nat} {c : Char}
    (member : c ∈ eraseFrom pattern skip kept text) : c ∈ kept ∨ c ∈ text := by
  fun_induction eraseFrom pattern skip kept text with
  | case1 skip kept => exact .inl (List.mem_reverse.mp member)
  | case2 kept rest skip _ ih => exact (ih member).imp_right (List.mem_cons_of_mem _)
  | case3 kept c rest _ ih => exact (ih member).imp_right (List.mem_cons_of_mem _)
  | case4 kept d rest _ ih =>
      rcases ih member with inside | later
      · rcases List.mem_cons.mp inside with rfl | old
        · exact .inr List.mem_cons_self
        · exact .inl old
      · exact .inr (List.mem_cons_of_mem _ later)

theorem mem_of_mem_eraseAll {pattern text : List Char} {c : Char}
    (member : c ∈ eraseAll pattern text) : c ∈ text := by
  simpa using mem_of_mem_eraseFrom member

/-- A single character is erased for good. -/
theorem not_mem_eraseAll_singleton (c : Char) (text : List Char) : c ∉ eraseAll [c] text := by
  suffices general : ∀ kept, c ∉ kept → c ∉ eraseFrom [c] 0 kept text from general [] (by simp)
  induction text with
  | nil => simp [eraseFrom]
  | cons d text ih =>
      intro kept absent
      by_cases same : d = c
      · simpa [eraseFrom, same] using ih kept absent
      · have other : (c == d) = false := by simpa using Ne.symm same
        simpa [eraseFrom, List.isPrefixOf, other] using ih (d :: kept) (by simp [absent, Ne.symm same])

private theorem cut?_append (pattern rest : List Char) :
    cut? pattern (pattern ++ rest) = some ([], rest) := by
  rw [cut?]
  cases shape : pattern ++ rest with
  | nil =>
      rw [List.append_eq_nil_iff] at shape
      simp [cutFrom, shape.1, shape.2]
  | cons c text =>
      have starts : pattern.isPrefixOf (c :: text) = true := by
        rw [List.isPrefixOf_iff_prefix, ← shape]
        exact List.prefix_append pattern rest
      rw [cutFrom, if_pos starts, ← shape, List.drop_left]
      rfl

/-- A pattern that cannot begin in the front is found at the end or not at all. -/
theorem after_eq_nil_of_cut? {pattern front text before after : List Char}
    (absent : ∀ c ∈ pattern.head?, c ∉ front) (nonempty : pattern ≠ [])
    (part : text <+: front ++ pattern) (found : cut? pattern text = some (before, after)) :
    after = [] := by
  obtain ⟨c, rest, shape⟩ := List.exists_cons_of_ne_nil nonempty
  obtain ⟨tail, whole⟩ := part
  rw [eq_of_cut? found, List.append_assoc, List.append_assoc] at whole
  have behind : front.length ≤ before.length := by
    rcases List.append_eq_append_iff.mp whole with ⟨inner, split, start⟩ | ⟨inner, split, _⟩
    · cases inner with
      | nil => simp [split]
      | cons d inner =>
          -- The pattern would begin with a character of the front.
          rw [shape] at start
          have first : c = d := (List.cons.inj start).1
          refine absurd ?_ (absent c (by simp [shape]))
          rw [split, first]
          simp
    · simp [split]
  have lengths := congrArg List.length whole
  simp only [List.length_append] at lengths
  exact List.length_eq_zero_iff.mp (by omega)

end Text

/-! ## Taking comments out -/

namespace Dialect

theorem stripComments_of_not_found {opening closing line : List Char}
    (absent : cut? opening line = none) : stripComments opening closing line = line := by
  rw [stripComments]
  split
  · rfl
  · next found => rw [absent] at found; cases found

/-- A line that starts with a comment goes on behind its closing mark, if there is any. -/
theorem stripComments_opening (opening closing rest : List Char) :
    stripComments opening closing (opening ++ rest) =
      if closing.isEmpty then []
      else
        match cut? closing rest with
        | none => []
        | some (_, after) => stripComments opening closing after := by
  have found := cut?_append opening rest
  rw [stripComments]
  split
  · next absent => rw [found] at absent; cases absent
  · next before behind same =>
      rw [found] at same
      cases same
      split
      · rfl
      · split <;> next ended => simp [ended]

/-- Marks that stand in a line as they are: no blanks where the opening mark begins and ends, and no
line ends. -/
structure PlainMarks (dialect : Dialect) : Prop where
  first : ∀ c ∈ dialect.commentStart.toList.head?, isBlank c = false
  last : ∀ c ∈ dialect.commentStart.toList.getLast?, isBlank c = false
  opening : '\n' ∉ dialect.commentStart.toList
  closing : '\n' ∉ dialect.commentEnd.toList

end Dialect

namespace Program

/-! ## Confined comments -/

/-- A comment as it is printed, numbers apart. -/
def commentLine (dialect : Dialect) (text : String) : List Char :=
  let body := Dialect.commentBody dialect.commentStart.toList dialect.commentEnd.toList text.toList
  trimEnd (fun c => c == ' ' || c == '\t')
    (dialect.commentStart.toList ++ body ++ dialect.commentEnd.toList)

/-- What stands behind the opening mark, line by line. -/
def commentRest (dialect : Dialect) (text : String) : List (List Char) :=
  splitAt '\n' ((commentLine dialect text).drop dialect.commentStart.toList.length)

/-- A comment that cannot get out. Its line still starts with the opening mark and gets no number,
nothing is left behind the first closing mark, and nothing of the lines that follow. -/
structure Confines (dialect : Dialect) (text : String) : Prop where
  marked : dialect.commentStart.toList <+: commentLine dialect text
  unbroken : '\n' ∉ dialect.commentStart.toList
  unnumbered : (dialect.numberLines && isNumbered dialect (commentLine dialect text)) = false
  closed : dialect.commentEnd.toList ≠ [] → ∀ line ∈ (commentRest dialect text).head?,
    ∀ before after, cut? dialect.commentEnd.toList line = some (before, after) →
      isAllBlank (dialect.strip after) = true
  others : ∀ line ∈ (commentRest dialect text).tail, isAllBlank (dialect.strip line) = true

variable {dialect : Dialect} {text : String}

theorem printLine_comment (dialect : Dialect) (number : Int64) (text : String) :
    ∀ line ∈ Entry.lines dialect (.comment text),
      (printLine dialect number line).2 =
        if dialect.numberLines && isNumbered dialect (commentLine dialect text) then
          'N' :: (toString (number + dialect.lineStep).toInt).toList ++
            ' ' :: commentLine dialect text
        else commentLine dialect text := by
  intro line member
  have same : trimEnd (fun c => c == ' ' || c == '\t') line = commentLine dialect text := by
    rw [Entry.lines, List.mem_singleton] at member
    simp [member, commentLine, Dialect.comment]
  rw [printLine, same]
  split <;> rfl

/-- A marked line in one piece is blank exactly when nothing gets out behind it. -/
theorem blank_commentLine_iff (marked : dialect.commentStart.toList <+: commentLine dialect text)
    (unbroken : '\n' ∉ dialect.commentStart.toList) :
    (∀ line ∈ splitAt '\n' (commentLine dialect text), isAllBlank (dialect.strip line) = true) ↔
      (dialect.commentEnd.toList ≠ [] → ∀ line ∈ (commentRest dialect text).head?,
        ∀ before after, cut? dialect.commentEnd.toList line = some (before, after) →
          isAllBlank (dialect.strip after) = true) ∧
      ∀ line ∈ (commentRest dialect text).tail, isAllBlank (dialect.strip line) = true := by
  obtain ⟨rest, whole⟩ := marked
  obtain ⟨first, others, pieces, lines⟩ := splitAt_front unbroken rest
  have behind : commentRest dialect text = first :: others := by
    rw [commentRest, ← whole, List.drop_left, pieces]
  have start : isAllBlank (dialect.strip (dialect.commentStart.toList ++ first)) = true ↔
      (dialect.commentEnd.toList ≠ [] → ∀ before after,
        cut? dialect.commentEnd.toList first = some (before, after) →
          isAllBlank (dialect.strip after) = true) := by
    rw [Dialect.strip, Dialect.stripComments_opening]
    by_cases endless : dialect.commentEnd.toList = []
    · simp [endless, isAllBlank]
    · rw [if_neg (by simpa using endless)]
      cases ended : cut? dialect.commentEnd.toList first with
      | none => simp [isAllBlank]
      | some parts =>
          obtain ⟨before, after⟩ := parts
          simp [endless, Dialect.strip]
  rw [← whole, lines, behind]
  simp only [List.head?_cons, Option.mem_some_iff, List.tail_cons, List.forall_mem_cons,
    forall_eq', start]

/-- What the comment leaves on each of its lines is blank when the comment is confined. -/
theorem Confines.blank (confined : Confines dialect text) :
    ∀ line ∈ splitAt '\n' (commentLine dialect text), isAllBlank (dialect.strip line) = true :=
  (blank_commentLine_iff confined.marked confined.unbroken).mpr ⟨confined.closed, confined.others⟩

/-- A line that starts with an `N` is seen when comments do not start like that. -/
theorem not_blank_of_numbered {line : List Char} {mark : Char} {marks : List Char}
    (opening : dialect.commentStart.toList = mark :: marks) (foreign : mark ≠ 'N') :
    isAllBlank (dialect.strip ('N' :: line)) = false := by
  have absent : mark ∉ ['N'] := by simpa using foreign
  obtain ⟨tail, stripped, _⟩ :=
    @Dialect.stripComments_append mark marks dialect.commentEnd.toList ['N'] absent line
  have kept : dialect.strip ('N' :: line) = 'N' :: tail := by
    rw [Dialect.strip, opening]
    exact stripped
  rw [kept]
  rfl

theorem marked_of_visible
    (visible : ∀ c ∈ dialect.commentStart.toList.getLast?, isBlank c = false) :
    ∃ rest, commentLine dialect text = dialect.commentStart.toList ++ rest ∧
      rest <+: Dialect.commentBody dialect.commentStart.toList dialect.commentEnd.toList
        text.toList ++ dialect.commentEnd.toList := by
  have kept : ∀ c ∈ dialect.commentStart.toList.getLast?, (c == ' ' || c == '\t') = false := by
    intro c last
    have seen := visible c last
    cases blank : c == ' ' || c == '\t' with
    | false => rfl
    | true =>
        simp only [Bool.or_eq_true, beq_iff_eq] at blank
        rcases blank with rfl | rfl <;> cases seen
  refine ⟨_, ?_, trimEnd_prefix (fun c => c == ' ' || c == '\t') _⟩
  rw [commentLine, List.append_assoc, trimEnd_append kept]

/-- A line gets no number when it starts with a mark that blanks do not belong to. -/
theorem isNumbered_of_visible {rest : List Char}
    (first : ∀ c ∈ dialect.commentStart.toList.head?, isBlank c = false)
    (last : ∀ c ∈ dialect.commentStart.toList.getLast?, isBlank c = false) :
    isNumbered dialect (dialect.commentStart.toList ++ rest) = false := by
  have starts : startsWith dialect.commentStart.toList
      (trimBlanks (dialect.commentStart.toList ++ rest)) = true := by
    rw [startsWith, List.isPrefixOf_iff_prefix]
    cases shape : dialect.commentStart.toList with
    | nil => exact List.nil_prefix
    | cons mark marks =>
        rw [shape] at first last
        have kept : ((mark :: marks) ++ rest).dropWhile isBlank = (mark :: marks) ++ rest := by
          rw [List.cons_append, List.dropWhile_cons_of_neg (by simp [first mark rfl])]
        rw [trimBlanks, kept, trimEnd_append last]
        exact List.prefix_append _ _
  simp [isNumbered, starts]

/-- A comment whose line gets a number is seen. -/
theorem exists_seen_of_numbered
    (visible : ∀ c ∈ dialect.commentStart.toList.getLast?, isBlank c = false)
    (numbered : isNumbered dialect (commentLine dialect text) = true) (digits : List Char) :
    ∃ line ∈ splitAt '\n' ('N' :: digits ++ ' ' :: commentLine dialect text),
      isAllBlank (dialect.strip line) = false := by
  obtain ⟨rest, whole, _⟩ := @marked_of_visible dialect text visible
  obtain ⟨piece, others, _, pieces⟩ := splitAt_cons_of_ne (by decide : 'N' ≠ '\n')
    (digits ++ ' ' :: commentLine dialect text)
  refine ⟨'N' :: piece, by rw [List.cons_append, pieces]; exact List.mem_cons_self, ?_⟩
  rw [whole] at numbered
  -- Only a mark that starts with a blank lets its own line be numbered.
  cases opening : dialect.commentStart.toList with
  | nil => simp [isNumbered, startsWith, opening] at numbered
  | cons mark marks =>
      refine not_blank_of_numbered opening ?_
      rintro rfl
      have plain : isNumbered dialect (dialect.commentStart.toList ++ rest) = false :=
        isNumbered_of_visible (by simp [opening]; decide) visible
      rw [plain] at numbered
      cases numbered

/-- A comment whose opening mark has a line end is seen. -/
theorem unbroken_of_blank
    (visible : ∀ c ∈ dialect.commentStart.toList.getLast?, isBlank c = false)
    (gone : ∀ line ∈ splitAt '\n' (commentLine dialect text),
      isAllBlank (dialect.strip line) = true) : '\n' ∉ dialect.commentStart.toList := by
  intro broken
  obtain ⟨rest, whole, _⟩ := @marked_of_visible dialect text visible
  have nonempty : dialect.commentStart.toList ≠ [] := List.ne_nil_of_mem broken
  have seen := visible _ (List.getLast?_eq_some_getLast nonempty)
  have inside : dialect.commentStart.toList.getLast nonempty ∈ commentLine dialect text := by
    rw [whole]
    exact List.mem_append_left _ (List.getLast_mem nonempty)
  have notBreak : dialect.commentStart.toList.getLast nonempty ≠ '\n' := by
    intro same
    rw [same] at seen
    cases seen
  obtain ⟨piece, listed, member⟩ := exists_mem_splitAt inside notBreak
  -- No single line holds a mark with a line end, so nothing is taken out of this one.
  have absent : cut? dialect.commentStart.toList piece = none := by
    cases found : cut? dialect.commentStart.toList piece with
    | none => rfl
    | some parts =>
        refine absurd ?_ (of_mem_splitAt listed).1
        rw [eq_of_cut? found]
        simp [broken]
  have allBlank := gone piece listed
  rw [Dialect.strip, Dialect.stripComments_of_not_found absent] at allBlank
  rw [List.all_eq_true.mp allBlank _ member] at seen
  cases seen

/-- When the opening mark does not end in a blank, comments that are gone were confined. -/
theorem Confines.of_blank
    (visible : ∀ c ∈ dialect.commentStart.toList.getLast?, isBlank c = false) (number : Int64)
    (blank : ∀ source ∈ Entry.lines dialect (.comment text),
      ∀ line ∈ splitAt '\n' (printLine dialect number source).2,
        isAllBlank (dialect.strip line) = true) : Confines dialect text := by
  have gone := blank _ (List.mem_singleton_self _)
  rw [printLine_comment dialect number text _ (List.mem_singleton_self _)] at gone
  have unnumbered :
      (dialect.numberLines && isNumbered dialect (commentLine dialect text)) = false := by
    rw [Bool.eq_false_iff]
    intro numbered
    rw [if_pos numbered] at gone
    obtain ⟨line, listed, seen⟩ :=
      exists_seen_of_numbered visible (Bool.and_eq_true_iff.mp numbered).2 _
    rw [gone line listed] at seen
    cases seen
  rw [if_neg (by simp [unnumbered])] at gone
  have unbroken := unbroken_of_blank visible gone
  obtain ⟨rest, whole, _⟩ := @marked_of_visible dialect text visible
  have marked : dialect.commentStart.toList <+: commentLine dialect text := ⟨rest, whole.symm⟩
  obtain ⟨closed, others⟩ := (blank_commentLine_iff marked unbroken).mp gone
  exact ⟨marked, unbroken, unnumbered, closed, others⟩

private theorem strip_nil (dialect : Dialect) : dialect.strip [] = [] := by
  rw [Dialect.strip, Dialect.stripComments]
  split
  · rfl
  · next found =>
      have parts := List.append_eq_nil_iff.mp (eq_of_cut? found).symm
      have before := (List.append_eq_nil_iff.mp parts.1).1
      split
      · exact before
      · split
        · exact before
        · next ended =>
            rw [parts.2] at ended
            have closing := List.append_eq_nil_iff.mp (eq_of_cut? ended).symm
            simp_all

/-- Plain marks confine every text in one line out of which no closing mark can be made: a mark of
one character is erased for good, and another one has to begin somewhere. -/
theorem Confines.of_plainMarks (plain : dialect.PlainMarks) (single : '\n' ∉ text.toList)
    (unclosable : dialect.commentEnd.toList.length ≤ 1 ∨
      ∀ c ∈ dialect.commentEnd.toList.head?, c ∉ text.toList) : Confines dialect text := by
  obtain ⟨rest, whole, part⟩ := @marked_of_visible dialect text plain.last
  have absent : ∀ c ∈ dialect.commentEnd.toList.head?,
      c ∉ Dialect.commentBody dialect.commentStart.toList dialect.commentEnd.toList
        text.toList := by
    intro c head member
    have inside := mem_of_mem_eraseAll member
    rcases unclosable with short | missing
    · have closing : dialect.commentEnd.toList = [c] := by
        cases shape : dialect.commentEnd.toList with
        | nil => simp [shape] at head
        | cons d others =>
            rw [shape] at head short
            cases head
            simpa using short
      rw [closing] at inside
      exact not_mem_eraseAll_singleton c text.toList inside
    · exact missing c head (mem_of_mem_eraseAll inside)
  have unbroken : '\n' ∉ rest := by
    intro member
    rcases List.mem_append.mp (part.subset member) with body | closing
    · exact single (mem_of_mem_eraseAll (mem_of_mem_eraseAll body))
    · exact plain.closing closing
  have behind : commentRest dialect text = [rest] := by
    rw [commentRest, whole, List.drop_left, splitAt_of_not_mem unbroken]
  refine ⟨⟨rest, whole.symm⟩, plain.opening, ?_, ?_, by simp [behind]⟩
  · rw [whole, isNumbered_of_visible plain.first plain.last, Bool.and_false]
  · intro closing line listed before after found
    rw [behind] at listed
    cases listed
    rw [after_eq_nil_of_cut? absent closing part found, strip_nil]
    rfl

/-! ## Comments in programs -/

private theorem codeLines_textFrom (program : Program) (text : String) :
    ∃ number, Machine.codeLines
        ((program.write (.comment text)).textFrom program.entries.size).toList =
      (Entry.lines program.dialect (.comment text)).flatMap fun source =>
        splitAt '\n' (printLine program.dialect number source).2 := by
  refine ⟨(print program.dialect 0 program.entries.toList).1, ?_⟩
  rw [textFrom_write, toList_print, Machine.codeLines_closed]
  simp [Entry.lines, printed]

/-- Comments do not get out of their lines as long as they are confined. Writing a comment adds lines
at the end of the program, and when the comment is confined each of them is blank once comments are
taken out. That is the only way for marks that do not end in a blank. Every text in one line is
confined between plain marks when the closing mark has at most one character or begins with one that
is not in the text. -/
theorem comment_confined (program : Program) (text : String) :
    let dialect := program.dialect
    let after := program.write (.comment text)
    let added := after.textFrom program.entries.size
    let lines := Machine.codeLines added.toList
    after.text = program.text ++ added ∧
    (Confines dialect text → ∀ line ∈ lines, isAllBlank (dialect.strip line) = true) ∧
    ((∀ c ∈ dialect.commentStart.toList.getLast?, isBlank c = false) →
      (∀ line ∈ lines, isAllBlank (dialect.strip line) = true) → Confines dialect text) ∧
    (dialect.PlainMarks → '\n' ∉ text.toList →
      (dialect.commentEnd.toList.length ≤ 1 ∨
        ∀ c ∈ dialect.commentEnd.toList.head?, c ∉ text.toList) →
      Confines dialect text) := by
  intro dialect after added lines
  obtain ⟨number, shape⟩ := codeLines_textFrom program text
  refine ⟨program.text_write (.comment text), ?_, ?_, Confines.of_plainMarks⟩
  · intro confined line member
    simp only [lines, added, after, shape] at member
    obtain ⟨source, listed, inside⟩ := List.mem_flatMap.mp member
    rw [printLine_comment dialect number text source listed,
      if_neg (by simp [dialect, confined.unnumbered])] at inside
    exact confined.blank line inside
  · intro visible blank
    refine Confines.of_blank visible number fun source listed line inside => blank line ?_
    simp only [lines, added, after, shape]
    exact List.mem_flatMap.mpr ⟨source, listed, inside⟩

/-- A name that closes the comment and opens it again stays inside. -/
theorem comment_confined_reopened :
    let dialect : Dialect :=
      { commentStart := "(", commentEnd := ")", numberLines := true, lineStep := 10 }
    let program := Program.empty dialect []
    let text := "rough) G00 Z-50 ("
    let added := (program.write (.comment text)).textFrom program.entries.size
    dialect.PlainMarks ∧ '\n' ∉ text.toList ∧ dialect.commentEnd.toList.length ≤ 1 ∧
      added = "(rough G00 Z-50 )\n" ∧
      ∀ line ∈ Machine.codeLines added.toList, isAllBlank (dialect.strip line) = true := by
  intro dialect program text added
  have plain : dialect.PlainMarks := by
    constructor
    · simp [dialect, isBlank]
    · simp [dialect, isBlank]
    · decide +kernel
    · decide +kernel
  have single : '\n' ∉ text.toList := by decide +kernel
  have short : dialect.commentEnd.toList.length ≤ 1 := by decide +kernel
  have shown : added = "(rough G00 Z-50 )\n" := by decide +kernel
  obtain ⟨_, confined, _, always⟩ := comment_confined program text
  exact ⟨plain, single, short, shown, confined (always plain single (.inl short))⟩

/-- What is left when a closing mark is erased can be a closing mark again, and it sets the rest of
the text free. -/
theorem comment_escapes :
    let table : Dialect := { name := "m", commentStart := "/*", commentEnd := "*/" }
    ∃ dialect, table.complete.toOption = some dialect ∧
      let program := Program.empty dialect []
      let added := (program.write (.comment "**//G00 Z-50")).textFrom program.entries.size
      added = "/**/G00 Z-50*/\n" ∧
      ∃ line ∈ Machine.codeLines added.toList,
        dialect.strip line = "G00 Z-50*/".toList ∧ isAllBlank (dialect.strip line) = false := by
  intro table
  refine ⟨table.withDefaults, rfl, ?_⟩
  intro program added
  have shown : added = "/**/G00 Z-50*/\n" := by decide +kernel
  have lines : Machine.codeLines added.toList = ["/*".toList ++ "*/G00 Z-50*/".toList] := by
    rw [shown]
    decide +kernel
  have ended : cut? "*/".toList "*/G00 Z-50*/".toList = some ([], "G00 Z-50*/".toList) := by
    decide +kernel
  have plain : cut? "/*".toList "G00 Z-50*/".toList = none := by decide +kernel
  have left : table.withDefaults.strip ("/*".toList ++ "*/G00 Z-50*/".toList) =
      "G00 Z-50*/".toList := by
    have opened := Dialect.stripComments_opening "/*".toList "*/".toList "*/G00 Z-50*/".toList
    rw [ended, if_neg (by decide)] at opened
    exact opened.trans (Dialect.stripComments_of_not_found plain)
  refine ⟨shown, _, by rw [lines]; exact List.mem_singleton_self _, left, ?_⟩
  rw [left]
  decide

end Program

end Kerf
