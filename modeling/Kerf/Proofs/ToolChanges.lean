import Kerf.Dialect.Registry
import Mathlib.Data.List.Infix
import Mathlib.Tactic.SplitIfs

/-!
# Tool change blocks

A table is accepted if `%d` stands once in its tool change template. That counts characters, while
filling a template reads directives: the `%d` of `%%d` is none, a number that an earlier directive
took is missing for it, and any other directive is followed in its own way.

Main statement: `faithful_iff_isPlain`. The blocks of an accepted table are its template with the
number in place of `%d` and `%[1]d` and a percent sign in place of `%%`, without a marker, exactly if
the template is plain, which can be read off it; and a template with a single percent sign is plain.
The argument in one direction follows the template. In the other it counts percent signs: with no
marker, every directive writes at most as many as it is replaced by, and one of another kind fewer.
-/

set_option autoImplicit false

namespace Kerf.Dialect

namespace Template

/-! ## Where a directive ends -/

private theorem readFlags_suffix (flags : Flags) (text : List Char) :
    (readFlags flags text).2 <:+ text := by
  fun_induction readFlags flags text with
  | case1 flags rest ih => exact ih.trans (List.suffix_cons _ _)
  | case2 flags rest ih => exact ih.trans (List.suffix_cons _ _)
  | case3 flags rest ih => exact ih.trans (List.suffix_cons _ _)
  | case4 flags rest ih => exact ih.trans (List.suffix_cons _ _)
  | case5 flags rest ih => exact ih.trans (List.suffix_cons _ _)
  | case6 => exact List.suffix_rfl

theorem readIndex_suffix (text : List Char) : (readIndex text).2 <:+ text := by
  unfold readIndex
  split
  · next rest =>
      dsimp only
      split
      · next after dropped =>
          have inside := List.drop_suffix (rest.takeWhile (· != ']')).length rest
          rw [dropped] at inside
          split
          · exact List.suffix_cons _ _
          · exact ((List.suffix_cons _ _).trans inside).trans (List.suffix_cons _ _)
      · exact List.suffix_cons _ _
  · exact List.suffix_rfl

theorem readSize_suffix (text : List Char) : (readSize text).2 <:+ text := by
  unfold readSize
  split
  · exact List.suffix_cons _ _
  · dsimp only
    split
    · exact List.drop_suffix _ _
    · split
      · exact List.suffix_rfl
      · exact List.nil_suffix

/-- A directive ends with its verb, or with the template. -/
theorem readDirective_verb (text : List Char) : ∃ left, left <:+ text ∧
    (readDirective text).1.verb = left.head? ∧ (readDirective text).2 = left.tail := by
  have verb (complete : Bool) (text : List Char) :
      (if complete then (none, text) else readIndex text).2 <:+ text := by
    split
    · exact List.suffix_rfl
    · exact readIndex_suffix text
  have start := ((readSize_suffix _).trans (readIndex_suffix _)).trans (readFlags_suffix {} text)
  unfold readDirective
  dsimp only
  generalize (readSize (readIndex (readFlags {} text).2).2).2 = rest at start
  split
  · next found =>
      refine ⟨_, ((verb _ _).trans ?_).trans start, congrArg List.head? found.symm,
        congrArg List.tail found.symm⟩
      split
      · exact ((readSize_suffix _).trans (readIndex_suffix _)).trans (List.suffix_cons _ _)
      · exact List.suffix_rfl
  · exact ⟨[], List.nil_suffix, rfl, rfl⟩

theorem readDirective_suffix (text : List Char) : (readDirective text).2 <:+ text := by
  obtain ⟨left, suffix, _, rest⟩ := readDirective_verb text
  rw [rest]
  exact (List.tail_suffix left).trans suffix

/-! ## One piece after another -/

/-- A text is read from one piece to the next. -/
theorem piece_induction {motive : List Char → Prop} (nil : motive [])
    (literal : ∀ c rest, c ≠ '%' → motive rest → motive (c :: rest))
    (directive : ∀ rest, motive (readDirective rest).2 → motive ('%' :: rest)) (text : List Char) :
    motive text := by
  induction length : text.length using Nat.strong_induction_on generalizing text with
  | _ size ih =>
      cases text with
      | nil => exact nil
      | cons c rest =>
          have shorter := (readDirective_suffix rest).length_le
          rw [List.length_cons] at length
          by_cases percent : c = '%'
          · subst percent
            exact directive rest (ih _ (by omega) _ rfl)
          · exact literal c rest percent (ih _ (by omega) _ rfl)

variable {c : Char} {progress : Progress}

theorem readPieces_literal (count : Nat) (rest : List Char) (literal : c ≠ '%') :
    readPieces (count + 1) (c :: rest) = .literal c :: readPieces count rest := by
  rw [readPieces]
  exact fun percent => absurd percent literal

theorem readPieces_directive (count : Nat) (rest : List Char) :
    readPieces (count + 1) ('%' :: rest) =
      .directive (readDirective rest).1 :: readPieces count (readDirective rest).2 := by
  rw [readPieces]

private theorem readPieces_of_le (text : List Char) {count : Nat} (enough : text.length ≤ count) :
    readPieces count text = pieces text := by
  unfold pieces
  induction text using piece_induction generalizing count with
  | nil => cases count <;> rfl
  | literal c rest literal ih =>
      obtain ⟨count, rfl⟩ := Nat.exists_eq_add_of_lt enough
      rw [readPieces_literal _ rest literal, ih (by omega)]
      exact (readPieces_literal _ rest literal).symm
  | directive rest ih =>
      obtain ⟨count, rfl⟩ := Nat.exists_eq_add_of_lt enough
      have shorter := (readDirective_suffix rest).length_le
      rw [List.length_cons, readPieces_directive, readPieces_directive, ih (by omega), ih shorter]

private theorem pieces_literal (rest : List Char) (literal : c ≠ '%') :
    pieces (c :: rest) = .literal c :: pieces rest :=
  readPieces_literal _ rest literal

private theorem pieces_directive (rest : List Char) :
    pieces ('%' :: rest) = .directive (readDirective rest).1 :: pieces (readDirective rest).2 := by
  rw [← readPieces_of_le _ (readDirective_suffix rest).length_le]
  exact readPieces_directive _ rest

/-! ## Blocks as templates describe them -/

def decimal (n : Int) : List Char := (toString n).toList

/-- What a directive reads as once the number stands in it: `%d` and `%[1]d` are the number, `%%` is
a percent sign, and all others stay as they are written. -/
def replaceDirective (n : Int) (written : List Char) : List Char :=
  if written = ['d'] ∨ written = ['[', '1', ']', 'd'] then decimal n
  else if written = ['%'] then ['%']
  else '%' :: written

/-- A template with a number in place of the directives for it. -/
def replaceText (n : Int) : List Char → List Char
  | [] => []
  | c :: rest =>
      if c = '%' then
        let after := (readDirective rest).2
        replaceDirective n (rest.take (rest.length - after.length)) ++ replaceText n after
      else c :: replaceText n rest
  termination_by text => text.length
  decreasing_by
    · exact Nat.lt_succ_of_le (readDirective_suffix rest).length_le
    · exact Nat.lt_succ_self _

/-- Whether a text holds the start of a marker. -/
def Marked (text : List Char) : Prop := ['%', '!'] <:+: text

instance : DecidablePred Marked := fun text => inferInstanceAs (Decidable (['%', '!'] <:+: text))

/-- Whether a template has only directives that write the number plainly: `%%` away from an
exclamation mark, `%[1]d`, and `%d` if the number has not been written; and it is written. -/
def isPlain (written : Bool) : List Char → Bool
  | [] => written
  | '%' :: '%' :: rest => rest.head? != some '!' && isPlain written rest
  | '%' :: 'd' :: rest => !written && isPlain true rest
  | '%' :: '[' :: '1' :: ']' :: 'd' :: rest => isPlain true rest
  | '%' :: _ => false
  | _ :: rest => isPlain written rest

theorem isPlain_literal (written : Bool) (rest : List Char) (literal : c ≠ '%') :
    isPlain written (c :: rest) = isPlain written rest := by
  rw [isPlain]
  · exact fun _ percent => absurd percent literal
  · exact fun _ percent => absurd percent literal
  · exact fun _ percent => absurd percent literal
  · exact literal

theorem replaceText_literal (n : Int) (rest : List Char) (literal : c ≠ '%') :
    replaceText n (c :: rest) = c :: replaceText n rest := by
  rw [replaceText, if_neg literal]

/-- A template filled from some progress on, with the report of a number that nothing took. -/
def fillFrom (n : Int) (progress : Progress) (text : List Char) : List Char :=
  let (progress, filled) := fillPieces n progress (pieces text)
  filled ++ if progress.next = 0 && !progress.indexed then
    "%!(EXTRA int=".toList ++ (Layout.mk {} none none).number n 10 false false ++ [')'] else []

private theorem fill_eq (template : String) (n : Int) :
    fill template n = String.ofList (fillFrom n {} template.toList) :=
  rfl

theorem fillFrom_literal (n : Int) (progress : Progress) (rest : List Char) (literal : c ≠ '%') :
    fillFrom n progress (c :: rest) = c :: fillFrom n progress rest := by
  unfold fillFrom
  rw [pieces_literal rest literal]
  rfl

theorem fillFrom_directive (n : Int) (progress : Progress) (rest : List Char) :
    fillFrom n progress ('%' :: rest) = ((readDirective rest).1.fill n progress).2 ++
      fillFrom n ((readDirective rest).1.fill n progress).1 (readDirective rest).2 := by
  unfold fillFrom
  rw [pieces_directive, fillPieces]
  exact List.append_assoc _ _ _

/-! ## The plain directives -/

theorem decimal_eq (n : Int) :
    decimal n = (if n < 0 then ['-'] else []) ++ Nat.toDigits 10 n.natAbs := by
  cases n with
  | ofNat m =>
      change (String.ofList (Nat.toDigits 10 m)).toList = [] ++ Nat.toDigits 10 m
      exact String.toList_ofList
  | negSucc m =>
      rw [if_pos (Int.negSucc_lt_zero m)]
      change ("-" ++ String.ofList (Nat.toDigits 10 (m + 1))).toList = _
      rw [String.toList_append]
      exact congrArg (['-'] ++ ·) String.toList_ofList

theorem number_eq_decimal (n : Int) :
    (Layout.mk {} none none).number n 10 false false = decimal n := by
  rw [decimal_eq]
  simp [Layout.number, Layout.padWith, baseDigits]

theorem mem_decimal {n : Int} (member : c ∈ decimal n) : c = '-' ∨ c.isDigit = true := by
  rw [decimal_eq, List.mem_append] at member
  rcases member with sign | digit
  · split at sign
    · exact .inl (List.mem_singleton.mp sign)
    · cases sign
  · exact .inr (Nat.isDigit_of_mem_toDigits (by decide) (by decide) digit)

private theorem decimal_ne_nil (n : Int) : decimal n ≠ [] := by
  rw [decimal_eq]
  exact List.append_ne_nil_of_right_ne_nil _ Nat.toDigits_ne_nil

section

variable (n : Int) (progress : Progress) (rest : List Char)

theorem fillFrom_percent :
    fillFrom n progress ('%' :: '%' :: rest) = '%' :: fillFrom n progress rest :=
  fillFrom_directive n progress ('%' :: rest)

theorem fill_number : (readDirective ('d' :: rest)).1.fill n progress =
    if progress.next ≠ 0 then (progress, "%!d(MISSING)".toList)
    else ({ progress with next := 1 }, decimal n) := by
  rw [← number_eq_decimal]
  rfl

theorem fillFrom_number (fresh : progress.next = 0) :
    fillFrom n progress ('%' :: 'd' :: rest) =
      decimal n ++ fillFrom n { progress with next := 1 } rest := by
  rw [fillFrom_directive, fill_number, if_neg (not_not.mpr fresh)]
  rfl

theorem fillFrom_indexed :
    fillFrom n progress ('%' :: '[' :: '1' :: ']' :: 'd' :: rest) =
      decimal n ++ fillFrom n { next := 1, indexed := true } rest := by
  rw [fillFrom_directive, ← number_eq_decimal]
  rfl

end

/-! ## Markers -/

section

variable {c : Char} {text front : List Char}

theorem marked_percent : Marked ('%' :: text) ↔ text.head? = some '!' ∨ Marked text := by
  unfold Marked
  rw [List.infix_cons_iff, List.cons_prefix_cons]
  cases text with
  | nil => simp
  | cons c text => simp [List.cons_prefix_cons, eq_comm]

theorem marked_literal (literal : c ≠ '%') : Marked (c :: text) ↔ Marked text := by
  unfold Marked
  rw [List.infix_cons_iff, List.cons_prefix_cons, or_iff_right]
  exact fun start => literal start.1.symm

theorem Marked.append_left (marked : Marked front) (text : List Char) : Marked (front ++ text) :=
  marked.trans (List.prefix_append front text).isInfix

theorem Marked.append_right (marked : Marked text) (front : List Char) : Marked (front ++ text) :=
  marked.trans (List.suffix_append front text).isInfix

private theorem marked_append (none : '%' ∉ front) : Marked (front ++ text) ↔ Marked text := by
  induction front with
  | nil => rfl
  | cons c front ih =>
      rw [List.mem_cons, not_or] at none
      rw [List.cons_append, marked_literal (Ne.symm none.1), ih none.2]

/-- A number that has been taken is missing. -/
theorem marked_fillFrom_number (n : Int) {progress : Progress} (taken : progress.next ≠ 0) :
    Marked (fillFrom n progress ('%' :: 'd' :: text)) := by
  have start : Marked "%!d(MISSING)".toList := by decide
  rw [fillFrom_directive, fill_number, if_pos taken]
  exact start.append_left _

theorem marked_decimal (n : Int) : Marked (decimal n ++ text) ↔ Marked text := by
  refine marked_append fun member => ?_
  rcases mem_decimal member with sign | digit
  · cases sign
  · cases digit

end

/-! ## Plain templates -/

/-- Whether the progress fits a template whose number has been written before, or not. -/
def Progress.Matches (progress : Progress) (written : Bool) : Prop :=
  (progress.next = 0 ↔ written = false) ∧ (written = false → progress.indexed = false)

theorem replaceText_directive (n : Int) (written rest : List Char)
    (ends : (readDirective (written ++ rest)).2 = rest) :
    replaceText n ('%' :: (written ++ rest)) = replaceDirective n written ++ replaceText n rest := by
  rw [replaceText, if_pos rfl, ends]
  simp

theorem exists_written (rest : List Char) : ∃ written, written ++ (readDirective rest).2 = rest ∧
    ∀ n, replaceText n ('%' :: rest) =
      replaceDirective n written ++ replaceText n (readDirective rest).2 := by
  obtain ⟨written, split⟩ := readDirective_suffix rest
  refine ⟨written, split, fun n => ?_⟩
  have described := replaceText_directive n written (readDirective rest).2 (by rw [split])
  rwa [split] at described

theorem replaceText_percent (n : Int) (rest : List Char) :
    replaceText n ('%' :: '%' :: rest) = '%' :: replaceText n rest :=
  replaceText_directive n ['%'] rest rfl

theorem replaceText_number (n : Int) (rest : List Char) :
    replaceText n ('%' :: 'd' :: rest) = decimal n ++ replaceText n rest :=
  replaceText_directive n ['d'] rest rfl

theorem replaceText_indexed (n : Int) (rest : List Char) :
    replaceText n ('%' :: '[' :: '1' :: ']' :: 'd' :: rest) = decimal n ++ replaceText n rest :=
  replaceText_directive n ['[', '1', ']', 'd'] rest rfl

private theorem head?_decimal (n : Int) (text : List Char) :
    (decimal n ++ text).head? ≠ some '!' := by
  intro mark
  rw [List.head?_append_of_ne_nil _ (decimal_ne_nil n)] at mark
  rcases mem_decimal (List.mem_of_head? mark) with sign | digit
  · cases sign
  · cases digit

/-- No directive starts with an exclamation mark, whatever it reads as. -/
theorem head?_replaceText {n : Int} {text : List Char} (mark : (replaceText n text).head? = some '!') :
    text.head? = some '!' := by
  cases text with
  | nil => rwa [replaceText] at mark
  | cons c rest =>
      by_cases percent : c = '%'
      · subst percent
        exfalso
        obtain ⟨written, _, described⟩ := exists_written rest
        rw [described n, replaceDirective] at mark
        split at mark
        · exact head?_decimal n _ mark
        · split at mark
          · cases mark
          · cases mark
      · rwa [replaceText_literal n rest percent] at mark

/-- A plain template is filled as it reads. -/
theorem fillFrom_eq_replaceText (n : Int) {written : Bool} {text : List Char}
    (agrees : progress.Matches written) (plain : isPlain written text = true) :
    fillFrom n progress text = replaceText n text := by
  fun_induction isPlain written text generalizing progress with
  | case1 written =>
      have taken : progress.next ≠ 0 := fun fresh => by
        rw [agrees.1.mp fresh] at plain
        cases plain
      rw [replaceText]
      change (if decide (progress.next = 0) && _ then _ else _) = _
      rw [decide_eq_false taken]
      rfl
  | case2 written rest ih =>
      rw [fillFrom_percent, replaceText_percent, ih agrees (Bool.and_eq_true_iff.mp plain).2]
  | case3 written rest ih =>
      obtain ⟨fresh, later⟩ := Bool.and_eq_true_iff.mp plain
      rw [Bool.not_eq_true'] at fresh
      rw [fillFrom_number n progress rest (agrees.1.mpr fresh), replaceText_number, ih _ later]
      exact ⟨by simp, by simp⟩
  | case4 written rest ih =>
      rw [fillFrom_indexed, replaceText_indexed, ih _ plain]
      exact ⟨by simp, by simp⟩
  | case5 written rest _ _ _ => cases plain
  | case6 written c rest _ _ _ literal ih =>
      rw [fillFrom_literal n progress rest literal, replaceText_literal n rest literal,
        ih agrees plain]

private theorem not_marked_replaceText (n : Int) {written : Bool} {text : List Char}
    (plain : isPlain written text = true) : ¬ Marked (replaceText n text) := by
  fun_induction isPlain written text with
  | case1 written =>
      rw [replaceText]
      exact fun marked => nomatch List.eq_nil_of_infix_nil marked
  | case2 written rest ih =>
      obtain ⟨apart, later⟩ := Bool.and_eq_true_iff.mp plain
      rw [replaceText_percent, marked_percent, not_or]
      exact ⟨fun mark => by simp [head?_replaceText mark] at apart, ih later⟩
  | case3 written rest ih =>
      rw [replaceText_number, marked_decimal]
      exact ih (Bool.and_eq_true_iff.mp plain).2
  | case4 written rest ih =>
      rw [replaceText_indexed, marked_decimal]
      exact ih plain
  | case5 written rest _ _ _ => cases plain
  | case6 written c rest _ _ _ literal ih =>
      rw [replaceText_literal n rest literal, marked_literal literal]
      exact ih plain

/-! ## Other directives

Zero stands for all numbers here. As the code of a character a number may itself write a percent
sign, but zero never does.
-/

section

variable (layout : Layout) {front text : List Char}

theorem not_mem_ite {condition : Prop} [Decidable condition] (first : '%' ∉ front)
    (second : '%' ∉ text) : '%' ∉ if condition then front else text := by
  split
  · exact first
  · exact second

theorem not_mem_replicate {filler : Char} (other : '%' ≠ filler) (count : Nat) :
    '%' ∉ List.replicate count filler :=
  fun member => other (List.eq_of_mem_replicate member)

theorem not_mem_padWith {filler : Char} (other : '%' ≠ filler) (none : '%' ∉ text) :
    '%' ∉ layout.padWith filler text :=
  not_mem_ite (List.not_mem_append none (not_mem_replicate other _))
    (List.not_mem_append (not_mem_replicate other _) none)

theorem not_mem_pad (none : '%' ∉ text) : '%' ∉ layout.pad text := by
  unfold Layout.pad
  split
  · exact not_mem_padWith layout (by decide) none
  · exact not_mem_padWith layout (by decide) none

theorem not_mem_number (base : Nat) (upper octal : Bool) :
    '%' ∉ layout.number 0 base upper octal := by
  have digits : baseDigits base (0 : Int).natAbs upper = ['0'] := by
    cases upper <;> simp [baseDigits]
  have body (count : Nat) : '%' ∉ List.replicate count '0' ++ ['0'] :=
    List.not_mem_append (not_mem_replicate (by decide) count) (by decide)
  have binary : '%' ∉ ['0', 'b'] := by decide
  have octals : '%' ∉ ['0', 'o'] := by decide
  have hex : '%' ∉ ['0', if upper then 'X' else 'x'] := by cases upper <;> decide
  have zero : '%' ∉ ['0'] := by decide
  unfold Layout.number
  rw [digits]
  refine not_mem_ite (not_mem_replicate (by decide) _) (not_mem_padWith layout (by decide)
    (List.not_mem_append ?_ ?_))
  · exact not_mem_ite (by decide) (not_mem_ite (by decide) (not_mem_ite (by decide) (by decide)))
  · refine not_mem_ite (List.not_mem_append octals ?_) ?_
    all_goals
      exact not_mem_ite (body _) (not_mem_ite (List.not_mem_append binary (body _))
        (not_mem_ite (not_mem_ite (body _) (List.not_mem_append zero (body _)))
          (not_mem_ite (List.not_mem_append hex (body _)) (body _))))

private theorem not_mem_quote : '%' ∉ layout.quote (charOf 0) := by
  have inner : Text.charBetween '\'' (charOf 0) = ['\\', 'x', '0', '0'] := by decide +kernel
  have ascii : decide (0x80 ≤ (charOf 0).toNat) = false := by decide
  unfold Layout.quote
  rw [ascii, Bool.and_false, inner]
  exact not_mem_pad layout (by decide)

private theorem not_mem_codePoint : '%' ∉ layout.codePoint 0 := by
  have code (width : Nat) : '%' ∉ (Text.hexText width 0).map Char.toUpper := by
    rw [Text.hexText, List.map_append, List.map_replicate]
    exact List.not_mem_append (not_mem_replicate (by decide) _) (by decide)
  have sign : '%' ∉ ['U', '+'] := by decide
  unfold Layout.codePoint
  exact not_mem_padWith layout (by decide)
    (List.not_mem_append (List.not_mem_append sign (code _)) (not_mem_ite (by decide) (by decide)))

theorem marked_unfit (n : Int) (verb : Char) : Marked (layout.unfit n verb) := by
  have start : Marked "%!".toList := List.infix_rfl
  exact ((start.append_left _).append_left _).append_left _

/-- Whatever a verb writes for zero has no percent sign unless it is a marker. -/
theorem marked_or_not_mem_verb (verb : Char) :
    Marked (layout.verb 0 verb) ∨ '%' ∉ layout.verb 0 verb := by
  unfold Layout.verb
  split
  · exact .inr (not_mem_number layout _ _ _)
  · exact .inr (not_mem_number layout.plainly _ _ _)
  · exact .inr (not_mem_number layout _ _ _)
  · exact .inr (not_mem_number layout _ _ _)
  · exact .inr (not_mem_number layout _ _ _)
  · exact .inr (not_mem_number layout _ _ _)
  · exact .inr (not_mem_number layout _ _ _)
  · exact .inr (not_mem_pad layout (by decide))
  · exact .inr (not_mem_quote layout)
  · exact .inr (not_mem_codePoint layout)
  · exact .inr (not_mem_pad layout fun member => absurd (List.mem_of_mem_take member) (by decide))
  · exact .inl (marked_unfit layout.plainly _ _)
  · exact .inl (marked_unfit layout _ _)

end

section

variable (directive : Directive) (n : Int) (progress : Progress)

private theorem marked_widthFrom : (directive.widthFrom n progress).2.2 = [] ∨
    Marked (directive.widthFrom n progress).2.2 := by
  unfold Directive.widthFrom
  split
  · exact .inl rfl
  · split
    · exact .inl rfl
    · exact .inr (show Marked "%!(BADWIDTH)".toList by decide)

private theorem marked_precisionFrom : (directive.precisionFrom n progress).2.2 = [] ∨
    Marked (directive.precisionFrom n progress).2.2 := by
  unfold Directive.precisionFrom
  split
  · exact .inl rfl
  · split
    · split
      · exact .inr (show Marked "%!(BADPREC)".toList by decide)
      · exact .inl rfl
    · exact .inr (show Marked "%!(BADPREC)".toList by decide)

/-- A directive leaves a marker, or writes a percent sign for its own, or writes the number. -/
theorem fill_cases : Marked (directive.fill n progress).2 ∨
    directive.verb = some '%' ∧ (directive.fill n progress).2 = ['%'] ∨
      directive.verb ≠ some '%' ∧ ∃ layout verb,
        (directive.fill n progress).2 = Layout.verb layout n verb := by
  have start : Marked "%!".toList := List.infix_rfl
  have first := marked_widthFrom directive n
  have second := marked_precisionFrom directive n
  unfold Directive.fill
  dsimp only
  have marks (before after : Progress) :
      (directive.widthFrom n before).2.2 ++ (directive.precisionFrom n after).2.2 = [] ∨
        Marked ((directive.widthFrom n before).2.2 ++ (directive.precisionFrom n after).2.2) := by
    rcases first before with none | marked
    · rw [none]
      exact second after
    · exact .inr (marked.append_left _)
  split
  · exact .inl (Marked.append_right (by decide) _)
  · next percent =>
      rcases marks _ _ with none | marked
      · exact .inr (.inl ⟨percent, by rw [none]; rfl⟩)
      · exact .inl (marked.append_left _)
  · next verb other written =>
      split
      · exact .inl ((start.append_right _).append_left _)
      · split
        · exact .inl ((start.append_right _).append_left _)
        · rcases marks _ _ with none | marked
          · exact .inr (.inr ⟨fun same => other (Option.some_inj.mp (written.symm.trans same)),
              _, _, by rw [none]; rfl⟩)
          · exact .inl (marked.append_left _)

end

/-- The percent signs that a directive writes. -/
def Directive.signs (directive : Directive) : Nat := if directive.verb = some '%' then 1 else 0

theorem count_fill {directive : Directive} (clean : ¬ Marked (directive.fill 0 progress).2) :
    (directive.fill 0 progress).2.count '%' = directive.signs := by
  unfold Directive.signs
  rcases fill_cases directive 0 progress with marked | ⟨percent, sign⟩ | ⟨other, layout, verb, number⟩
  · exact absurd marked clean
  · rw [sign, if_pos percent]
    rfl
  · rw [number] at clean ⊢
    rw [if_neg other]
    exact List.count_eq_zero.mpr ((marked_or_not_mem_verb layout verb).resolve_left clean)

/-- Whether a directive as written is `%%`, `%d` or `%[1]d`. -/
def IsKnown (written : List Char) : Prop :=
  written = ['%'] ∨ written = ['d'] ∨ written = ['[', '1', ']', 'd']

private theorem mem_written {written rest : List Char}
    (split : written ++ (readDirective rest).2 = rest)
    (percent : (readDirective rest).1.verb = some '%') : '%' ∈ written := by
  obtain ⟨left, ⟨front, whole⟩, verb, after⟩ := readDirective_verb rest
  rw [verb] at percent
  obtain ⟨tail, rfl⟩ := List.head?_eq_some_iff.mp percent
  rw [after] at split
  have same : written ++ tail = (front ++ ['%']) ++ tail := by
    rw [List.append_assoc]
    exact split.trans whole.symm
  rw [List.append_cancel_right same]
  exact List.mem_append_right _ (List.mem_singleton.mpr rfl)

/-- What a directive is replaced by has the percent signs that it writes, and an unknown one has
more. -/
theorem count_replaceDirective (n : Int) {written rest : List Char}
    (split : written ++ (readDirective rest).2 = rest) :
    (readDirective rest).1.signs ≤ (replaceDirective n written).count '%' ∧
      (¬ IsKnown written →
        (readDirective rest).1.signs < (replaceDirective n written).count '%') := by
  have own : (readDirective rest).1.signs ≤ written.count '%' := by
    unfold Directive.signs
    split_ifs with percent
    · exact List.count_pos_iff.mpr (mem_written split percent)
    · exact Nat.zero_le _
  unfold replaceDirective
  split_ifs with number percent
  · have none : written.count '%' = 0 := by
      rcases number with rfl | rfl
      · rfl
      · rfl
    exact ⟨by omega, fun unknown => absurd (.inr number) unknown⟩
  · rw [percent] at own
    exact ⟨own, fun unknown => absurd (.inl percent) unknown⟩
  · rw [List.count_cons_self]
    exact ⟨by omega, fun _ => by omega⟩

/-! ## Templates that are not plain -/

theorem fillFrom_nil (n : Int) (progress : Progress) : Marked (fillFrom n progress []) ∨
    fillFrom n progress [] = [] ∧ (progress.next = 0 → progress.indexed = true) := by
  have start : Marked "%!(EXTRA int=".toList := by decide
  unfold fillFrom
  change Marked (if progress.next = 0 && !progress.indexed then _ else _) ∨
    (if progress.next = 0 && !progress.indexed then _ else _) = [] ∧ _
  split
  · exact .inl ((start.append_left _).append_left _)
  · next taken =>
      refine .inr ⟨rfl, fun fresh => ?_⟩
      simpa [fresh] using taken

private theorem count_fillFrom_le (progress : Progress) (text : List Char)
    (clean : ¬ Marked (fillFrom 0 progress text)) :
    (fillFrom 0 progress text).count '%' ≤ (replaceText 0 text).count '%' := by
  induction text using piece_induction generalizing progress with
  | nil =>
      rw [((fillFrom_nil 0 progress).resolve_left clean).1]
      exact Nat.zero_le _
  | literal c rest literal ih =>
      rw [fillFrom_literal 0 progress rest literal, marked_literal literal] at clean
      rw [fillFrom_literal 0 progress rest literal, replaceText_literal 0 rest literal,
        List.count_cons_of_ne literal, List.count_cons_of_ne literal]
      exact ih progress clean
  | directive rest ih =>
      obtain ⟨written, split, described⟩ := exists_written rest
      rw [fillFrom_directive] at clean ⊢
      have here := count_fill fun marked => clean (marked.append_left _)
      have later := ih _ fun marked => clean (marked.append_right _)
      rw [described, List.count_append, List.count_append, here]
      exact Nat.add_le_add (count_replaceDirective 0 split).1 later

/-- Whether filling with zero leaves no marker and no fewer percent signs than the template reads. -/
structure Tight (progress : Progress) (text : List Char) : Prop where
  clean : ¬ Marked (fillFrom 0 progress text)
  same : (fillFrom 0 progress text).count '%' = (replaceText 0 text).count '%'

section

variable {progress : Progress} {rest : List Char}

theorem Tight.literal {c : Char} (literal : c ≠ '%') (tight : Tight progress (c :: rest)) :
    Tight progress rest := by
  obtain ⟨clean, same⟩ := tight
  rw [fillFrom_literal 0 progress rest literal] at clean same
  rw [replaceText_literal 0 rest literal, List.count_cons_of_ne literal,
    List.count_cons_of_ne literal] at same
  exact ⟨fun marked => clean ((marked_literal literal).mpr marked), same⟩

theorem Tight.percent (tight : Tight progress ('%' :: '%' :: rest)) :
    rest.head? ≠ some '!' ∧ Tight progress rest := by
  obtain ⟨clean, same⟩ := tight
  rw [fillFrom_percent] at clean same
  rw [marked_percent, not_or] at clean
  rw [replaceText_percent, List.count_cons_self, List.count_cons_self] at same
  refine ⟨fun mark => clean.1 ?_, clean.2, Nat.succ_inj.mp same⟩
  obtain ⟨tail, rfl⟩ := List.head?_eq_some_iff.mp mark
  rw [fillFrom_literal 0 progress tail (by decide)]
  rfl

theorem Tight.number (tight : Tight progress ('%' :: 'd' :: rest)) :
    progress.next = 0 ∧ Tight { progress with next := 1 } rest := by
  obtain ⟨clean, same⟩ := tight
  have fresh : progress.next = 0 := by
    by_contra taken
    exact clean (marked_fillFrom_number 0 taken)
  rw [fillFrom_number 0 progress rest fresh] at clean same
  rw [replaceText_number, List.count_append, List.count_append] at same
  exact ⟨fresh, fun marked => clean ((marked_decimal 0).mpr marked), Nat.add_left_cancel same⟩

theorem Tight.indexed (tight : Tight progress ('%' :: '[' :: '1' :: ']' :: 'd' :: rest)) :
    Tight { next := 1, indexed := true } rest := by
  obtain ⟨clean, same⟩ := tight
  rw [fillFrom_indexed] at clean same
  rw [replaceText_indexed, List.count_append, List.count_append] at same
  exact ⟨fun marked => clean ((marked_decimal 0).mpr marked), Nat.add_left_cancel same⟩

/-- A directive of another kind would write fewer percent signs than it is replaced by. -/
theorem Tight.known (tight : Tight progress ('%' :: rest)) :
    rest = '%' :: (readDirective rest).2 ∨ rest = 'd' :: (readDirective rest).2 ∨
      rest = '[' :: '1' :: ']' :: 'd' :: (readDirective rest).2 := by
  obtain ⟨clean, same⟩ := tight
  obtain ⟨written, split, described⟩ := exists_written rest
  by_cases known : IsKnown written
  · rcases known with rfl | rfl | rfl
    · exact .inl split.symm
    · exact .inr (.inl split.symm)
    · exact .inr (.inr split.symm)
  · rw [fillFrom_directive] at clean same
    have here := count_fill fun marked => clean (marked.append_left _)
    have later := count_fillFrom_le _ _ fun marked => clean (marked.append_right _)
    have more := (count_replaceDirective 0 split).2 known
    rw [described, List.count_append, List.count_append, here] at same
    omega

end

/-- A template that is filled with zero as it reads is plain. -/
theorem isPlain_of_tight {written : Bool} {text : List Char} (agrees : progress.Matches written)
    (tight : Tight progress text) : isPlain written text = true := by
  induction text using piece_induction generalizing progress written with
  | nil =>
      obtain ⟨_, taken⟩ := (fillFrom_nil 0 progress).resolve_left tight.clean
      by_contra fresh
      rw [isPlain, Bool.not_eq_true] at fresh
      have indexed := taken (agrees.1.mpr fresh)
      rw [agrees.2 fresh] at indexed
      cases indexed
  | literal c rest literal ih =>
      rw [isPlain_literal written rest literal]
      exact ih agrees (tight.literal literal)
  | directive rest ih =>
      rcases tight.known with percent | number | indexed
      · rw [percent] at tight ⊢
        obtain ⟨apart, later⟩ := tight.percent
        rw [isPlain, ih agrees later, Bool.and_true]
        exact bne_iff_ne.mpr apart
      · rw [number] at tight ⊢
        obtain ⟨fresh, later⟩ := tight.number
        rw [isPlain, agrees.1.mp fresh]
        exact ih ⟨by simp, by simp⟩ later
      · rw [indexed] at tight ⊢
        exact ih ⟨by simp, by simp⟩ tight.indexed

/-! ## One percent sign -/

private theorem isPlain_of_not_mem (written : Bool) {text : List Char} (none : '%' ∉ text) :
    isPlain written text = written := by
  induction text with
  | nil => rfl
  | cons c rest ih =>
      rw [List.mem_cons, not_or] at none
      rw [isPlain_literal written rest (Ne.symm none.1), ih none.2]

theorem countOf_literal (rest : List Char) (literal : c ≠ '%') :
    Text.countOf ['%', 'd'] (c :: rest) = Text.countOf ['%', 'd'] rest := by
  unfold Text.countOf
  rw [Text.countFrom, if_neg]
  simp [Ne.symm literal]

private theorem countOf_percent {next : Char} (after : List Char) (other : next ≠ 'd') :
    Text.countOf ['%', 'd'] ('%' :: next :: after) = Text.countOf ['%', 'd'] (next :: after) := by
  unfold Text.countOf
  rw [Text.countFrom, if_neg]
  simp [Ne.symm other]

private theorem countOf_of_not_mem {text : List Char} (none : '%' ∉ text) :
    Text.countOf ['%', 'd'] text = 0 := by
  induction text with
  | nil => rfl
  | cons c rest ih =>
      rw [List.mem_cons, not_or] at none
      rw [countOf_literal rest (Ne.symm none.1), ih none.2]

/-- With no other percent sign, a `%d` that is counted is one that writes the number. -/
theorem isPlain_of_countOf {text : List Char} (counted : Text.countOf ['%', 'd'] text = 1)
    (single : text.count '%' = 1) : isPlain false text = true := by
  induction text with
  | nil => cases counted
  | cons c rest ih =>
      by_cases percent : c = '%'
      · subst percent
        rw [List.count_cons_self] at single
        have none : '%' ∉ rest := List.count_eq_zero.mp (Nat.succ_inj.mp single)
        cases rest with
        | nil => cases counted
        | cons next after =>
            rw [List.mem_cons, not_or] at none
            by_cases number : next = 'd'
            · subst number
              exact isPlain_of_not_mem true none.2
            · rw [countOf_percent after number,
                countOf_of_not_mem (List.not_mem_cons_of_ne_of_not_mem none.1 none.2)] at counted
              cases counted
      · rw [countOf_literal rest percent] at counted
        rw [List.count_cons_of_ne percent] at single
        rw [isPlain_literal false rest percent]
        exact ih counted single

end Template

/-! ## Blocks of accepted tables -/

/-- Whether a block is what its template reads as with the number in it, and no marker. -/
def Faithful (dialect : Dialect) (number : Int) : Prop :=
  (dialect.toolChangeBlock number).toList =
      Template.replaceText number dialect.toolChange.toList ∧
    ¬ Template.Marked (dialect.toolChangeBlock number).toList

instance (dialect : Dialect) (number : Int) : Decidable (dialect.Faithful number) :=
  inferInstanceAs (Decidable (_ ∧ _))

private theorem countOf_of_validate {dialect : Dialect} (accepted : dialect.validate = .ok ())
    (some : dialect.toolChange.isEmpty = false) :
    Text.countOf ['%', 'd'] dialect.toolChange.toList = 1 := by
  unfold validate at accepted
  split at accepted
  · next empty =>
      by_contra other
      rw [List.isEmpty_iff, defects] at empty
      simp only [List.append_eq_nil_iff] at empty
      obtain ⟨⟨⟨_, template⟩, _⟩, _⟩ := empty
      simp [some, other] at template
  · cases accepted

theorem toList_toolChangeBlock {dialect : Dialect} (some : dialect.toolChange.isEmpty = false)
    (number : Int) : (dialect.toolChangeBlock number).toList =
      Template.fillFrom number {} dialect.toolChange.toList := by
  rw [toolChangeBlock, some, if_neg Bool.false_ne_true, Template.fill_eq, String.toList_ofList]

/-- The blocks of an accepted table are faithful exactly if its template is plain. -/
theorem faithful_iff_isPlain {dialect : Dialect} (accepted : dialect.validate = .ok ())
    (some : dialect.toolChange.isEmpty = false) :
    (dialect.toolChange.toList.count '%' = 1 →
      Template.isPlain false dialect.toolChange.toList = true) ∧
    ((∀ number, dialect.Faithful number) ↔
      Template.isPlain false dialect.toolChange.toList = true) := by
  have agrees : Template.Progress.Matches {} false := ⟨by simp, by simp⟩
  refine ⟨Template.isPlain_of_countOf (countOf_of_validate accepted some), fun faithful => ?_,
    fun plain number => ?_⟩
  · obtain ⟨same, clean⟩ := faithful 0
    rw [toList_toolChangeBlock some] at same clean
    exact Template.isPlain_of_tight agrees ⟨clean, by rw [same]⟩
  · rw [Faithful, toList_toolChangeBlock some, Template.fillFrom_eq_replaceText number agrees plain]
    exact ⟨rfl, Template.not_marked_replaceText number plain⟩

/-- A table that writes the tool number twice, once by its place. -/
theorem faithful_pocketnc : pocketnc.validate = .ok () ∧ pocketnc.toolChange.isEmpty = false ∧
    ∀ number, pocketnc.Faithful number := by
  have accepted : pocketnc.validate = .ok () := if_pos (by decide +kernel)
  have some : pocketnc.toolChange.isEmpty = false := by decide +kernel
  exact ⟨accepted, some, (faithful_iff_isPlain accepted some).2.mpr (by decide +kernel)⟩

/-- A percent sign that is written twice counts as the start of `%d`, but no number follows it. -/
theorem accepted_not_faithful :
    let dialect : Dialect := { name := "x", kind := .threeAxis, toolChange := "T%%d M06" }
    dialect.validate = .ok () ∧ dialect.toolChange.isEmpty = false ∧
      dialect.toolChangeBlock 3 = "T%d M06%!(EXTRA int=3)" ∧ ¬ dialect.Faithful 3 :=
  ⟨if_pos (by decide +kernel), by decide +kernel, by decide +kernel, by decide +kernel⟩

end Kerf.Dialect
