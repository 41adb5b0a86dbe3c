import Kerf.Proofs.Reading
import Kerf.Program.Basic

/-!
# Printed lines

How the lines of a program come back when its text is taken apart again: a printed line is its
number followed by the line without blanks at its end, the text is cut where a line was closed, and
a line made of words starts with those words.
-/

set_option autoImplicit false

namespace Kerf

open Kerf.Text

/-! ## Splitting -/

namespace Text

theorem splitFrom_eq (separator : Char) (pieces : List (List Char)) (piece text : List Char) :
    splitFrom separator pieces piece text =
      pieces.reverse ++ splitFrom separator [] piece text := by
  induction text generalizing pieces piece with
  | nil => simp [splitFrom]
  | cons c rest ih =>
      rw [splitFrom, splitFrom]
      split
      · rw [ih, ih [piece.reverse]]
        simp
      · exact ih pieces (c :: piece)

variable {separator : Char} {front : List Char}

theorem splitFrom_append (absent : separator ∉ front) (piece back : List Char) :
    splitFrom separator [] piece (front ++ back) =
      splitFrom separator [] (front.reverse ++ piece) back := by
  induction front generalizing piece with
  | nil => rfl
  | cons c front ih =>
      rw [List.mem_cons, not_or] at absent
      have different : (c == separator) = false := by simpa using Ne.symm absent.1
      rw [List.cons_append, splitFrom, different, if_neg (by decide), ih absent.2]
      simp

private theorem splitFrom_cons (separator : Char) (piece text : List Char) :
    ∃ first rest, splitFrom separator [] piece text = (piece.reverse ++ first) :: rest ∧
      first <+: text ∧ ∀ other ∈ rest, other ⊆ text := by
  induction text generalizing piece with
  | nil => exact ⟨[], [], by simp [splitFrom], List.prefix_refl [], by simp⟩
  | cons c text ih =>
      rw [splitFrom]
      split
      · obtain ⟨first, rest, shape, part, inside⟩ := ih []
        refine ⟨[], first :: rest, ?_, List.nil_prefix, ?_⟩
        · rw [splitFrom_eq, shape]
          simp
        · intro other member
          apply List.subset_cons_of_subset
          rcases List.mem_cons.mp member with rfl | later
          · exact part.subset
          · exact inside other later
      · obtain ⟨first, rest, shape, part, inside⟩ := ih (c :: piece)
        refine ⟨c :: first, rest, by rw [shape]; simp, List.prefix_cons_inj c |>.mpr part, ?_⟩
        exact fun other member => List.subset_cons_of_subset c (inside other member)

/-- The pieces of a text that starts without the separator: the first one starts in the same way,
and all they hold comes from the text. -/
theorem splitAt_append (absent : separator ∉ front) (back : List Char) :
    ∃ first rest, splitAt separator (front ++ back) = (front ++ first) :: rest ∧
      first <+: back ∧ ∀ other ∈ rest, other ⊆ back := by
  obtain ⟨first, rest, shape, part, inside⟩ := splitFrom_cons separator (front.reverse ++ []) back
  refine ⟨first, rest, ?_, part, inside⟩
  rw [splitAt, splitFrom_append absent, shape]
  simp

theorem splitAt_separator (separator : Char) (front back : List Char) :
    splitAt separator (front ++ separator :: back) =
      splitAt separator front ++ splitAt separator back := by
  suffices general : ∀ piece, splitFrom separator [] piece (front ++ separator :: back) =
      splitFrom separator [] piece front ++ splitFrom separator [] [] back from general []
  induction front with
  | nil =>
      intro piece
      have closed : splitFrom separator [] piece (separator :: back) =
          splitFrom separator [piece.reverse] [] back := by simp [splitFrom]
      rw [List.nil_append, closed, splitFrom_eq]
      rfl
  | cons c front ih =>
      intro piece
      rw [List.cons_append, splitFrom, splitFrom]
      split
      · rw [splitFrom_eq, ih, splitFrom_eq separator [piece.reverse] [] front]
        simp
      · exact ih (c :: piece)

private theorem splitFrom_piece (separator : Char) (piece text : List Char) :
    ∃ first rest, splitAt separator text = first :: rest ∧
      splitFrom separator [] piece text = (piece.reverse ++ first) :: rest := by
  suffices uniform : ∃ first rest, ∀ piece,
      splitFrom separator [] piece text = (piece.reverse ++ first) :: rest by
    obtain ⟨first, rest, shape⟩ := uniform
    exact ⟨first, rest, shape [], shape piece⟩
  induction text with
  | nil => exact ⟨[], [], by simp [splitFrom]⟩
  | cons c text ih =>
      obtain ⟨first, rest, shape⟩ := ih
      by_cases closes : c == separator
      · refine ⟨[], splitAt separator text, ?_⟩
        intro piece
        rw [splitFrom, if_pos closes, splitFrom_eq, splitAt]
        simp
      · refine ⟨c :: first, rest, ?_⟩
        intro piece
        rw [splitFrom, if_neg closes, shape]
        simp

/-- A front without the separator belongs to the first piece. -/
theorem splitAt_front (absent : separator ∉ front) (back : List Char) :
    ∃ first rest, splitAt separator back = first :: rest ∧
      splitAt separator (front ++ back) = (front ++ first) :: rest := by
  obtain ⟨first, rest, plain, shape⟩ := splitFrom_piece separator (front.reverse ++ []) back
  refine ⟨first, rest, plain, ?_⟩
  rw [splitAt, splitFrom_append absent, shape]
  simp

theorem splitAt_of_not_mem {text : List Char} (absent : separator ∉ text) :
    splitAt separator text = [text] := by
  have whole := splitFrom_append absent [] []
  rw [List.append_nil, List.append_nil] at whole
  rw [splitAt, whole]
  simp [splitFrom]

theorem splitAt_cons_self (separator : Char) (text : List Char) :
    splitAt separator (separator :: text) = [] :: splitAt separator text :=
  splitAt_separator separator [] text

theorem splitAt_cons_of_ne {c : Char} (other : c ≠ separator) (text : List Char) :
    ∃ first rest, splitAt separator text = first :: rest ∧
      splitAt separator (c :: text) = (c :: first) :: rest := by
  have absent : separator ∉ [c] := by simpa using Ne.symm other
  exact splitAt_front absent text

theorem of_mem_splitAt {text piece : List Char} (member : piece ∈ splitAt separator text) :
    separator ∉ piece ∧ piece.Sublist text := by
  induction text generalizing piece with
  | nil =>
      rw [splitAt_of_not_mem (by simp), List.mem_singleton] at member
      simp [member]
  | cons c text ih =>
      by_cases closes : c = separator
      · rw [closes, splitAt_cons_self] at member
        rcases List.mem_cons.mp member with rfl | later
        · simp
        · exact ⟨(ih later).1, (ih later).2.cons c⟩
      · obtain ⟨first, rest, pieces, shape⟩ := splitAt_cons_of_ne closes text
        rw [pieces] at ih
        rw [shape] at member
        rcases List.mem_cons.mp member with rfl | later
        · obtain ⟨absent, part⟩ := ih List.mem_cons_self
          exact ⟨by simpa using ⟨Ne.symm closes, absent⟩, part.cons_cons c⟩
        · obtain ⟨absent, part⟩ := ih (List.mem_cons_of_mem _ later)
          exact ⟨absent, part.cons c⟩

/-- Nothing is lost by splitting but the separators. -/
theorem exists_mem_splitAt {c : Char} {text : List Char} (member : c ∈ text)
    (kept : c ≠ separator) : ∃ piece ∈ splitAt separator text, c ∈ piece := by
  induction text with
  | nil => cases member
  | cons d text ih =>
      by_cases closes : d = separator
      · have later : c ∈ text := by
          rcases List.mem_cons.mp member with same | later
          · exact absurd (same.trans closes) kept
          · exact later
        obtain ⟨piece, listed, inside⟩ := ih later
        rw [closes, splitAt_cons_self]
        exact ⟨piece, List.mem_cons_of_mem _ listed, inside⟩
      · obtain ⟨first, rest, pieces, shape⟩ := splitAt_cons_of_ne closes text
        rw [pieces] at ih
        rw [shape]
        rcases List.mem_cons.mp member with rfl | later
        · exact ⟨c :: first, List.mem_cons_self, List.mem_cons_self⟩
        · obtain ⟨piece, listed, inside⟩ := ih later
          rcases List.mem_cons.mp listed with rfl | behind
          · exact ⟨d :: piece, List.mem_cons_self, List.mem_cons_of_mem _ inside⟩
          · exact ⟨piece, List.mem_cons_of_mem _ behind, inside⟩

end Text

/-! ## Texts of programs -/

namespace Program

/-- Lines as they are printed after a line with some number. -/
def printed (dialect : Dialect) : Int64 → List (List Char) → List (List Char)
  | _, [] => []
  | number, line :: lines =>
      (printLine dialect number line).2 :: printed dialect (printLine dialect number line).1 lines

private theorem printLines_eq (dialect : Dialect) (number : Int64) (lines : List (List Char)) :
    (printLines dialect number lines).2.reverse =
      (printed dialect number lines).map String.ofList := by
  suffices general : ∀ done : List String, (lines.foldl
      (fun (state : Int64 × List String) line =>
        ((printLine dialect state.1 line).1,
          String.ofList (printLine dialect state.1 line).2 :: state.2))
      (number, done)).2.reverse =
        done.reverse ++ (printed dialect number lines).map String.ofList from general []
  induction lines generalizing number with
  | nil => simp [printed]
  | cons line lines ih =>
      intro done
      rw [List.foldl_cons, ih]
      simp [printed]

theorem toList_print (dialect : Dialect) (number : Int64) (entries : List Entry) :
    (print dialect number entries).2.toList =
      (printed dialect number (entries.flatMap (Entry.lines dialect))).flatMap (· ++ ['\n']) := by
  unfold print
  dsimp only
  rw [printLines_eq, String.toList_join, List.map_map, List.flatMap_map]
  congr 1
  funext line
  simp

/-- The text of a program is its printed lines, each closed by a line end. -/
theorem toList_text (program : Program) :
    program.text.toList =
      (printed program.dialect 0
        (program.entries.toList.flatMap (Entry.lines program.dialect))).flatMap (· ++ ['\n']) :=
  toList_print program.dialect 0 program.entries.toList

private theorem printLines_append (dialect : Dialect) (number : Int64)
    (front back : List (List Char)) : let reached := printLines dialect number front
    let ended := printLines dialect reached.1 back
    printLines dialect number (front ++ back) = (ended.1, ended.2 ++ reached.2) := by
  suffices general : ∀ (number : Int64) (done : List String),
      back.foldl (fun (state : Int64 × List String) line =>
        ((printLine dialect state.1 line).1,
          String.ofList (printLine dialect state.1 line).2 :: state.2)) (number, done) =
        ((printLines dialect number back).1, (printLines dialect number back).2 ++ done) by
    exact List.foldl_append.trans (general _ _)
  intro number done
  induction back generalizing number done with
  | nil => rfl
  | cons line lines ih =>
      have once := ih (printLine dialect number line).1
        [String.ofList (printLine dialect number line).2]
      have more := ih (printLine dialect number line).1
        (String.ofList (printLine dialect number line).2 :: done)
      rw [List.foldl_cons, more]
      simp only [printLines, List.foldl_cons] at once ⊢
      rw [once]
      simp

private theorem print_append (dialect : Dialect) (number : Int64) (front back : List Entry) :
    let reached := print dialect number front
    let ended := print dialect reached.1 back
    print dialect number (front ++ back) = (ended.1, reached.2 ++ ended.2) := by
  have lines := printLines_append dialect number (front.flatMap (Entry.lines dialect))
    (back.flatMap (Entry.lines dialect))
  simp only [print, List.flatMap_append, lines]
  simp [String.join_append]

/-- An entry is printed after some line number. -/
theorem textFrom_write (program : Program) (entry : Entry) :
    (program.write entry).textFrom program.entries.size =
      (print program.dialect (print program.dialect 0 program.entries.toList).1 [entry]).2 := by
  have size : program.entries.size = program.entries.toList.length := by simp
  rw [textFrom, entries_write, size, List.take_left, List.drop_left]
  rfl

theorem text_write (program : Program) (entry : Entry) :
    (program.write entry).text =
      program.text ++ (program.write entry).textFrom program.entries.size := by
  rw [textFrom_write, text, entries_write]
  exact congrArg Prod.snd (print_append program.dialect 0 program.entries.toList [entry])

end Program

namespace Machine

/-- The lines of code are the pieces of the lines that were closed. -/
theorem codeLines_closed (lines : List (List Char)) :
    codeLines (lines.flatMap (· ++ ['\n'])) = lines.flatMap (splitAt '\n') := by
  have pieces : splitAt '\n' (lines.flatMap (· ++ ['\n'])) =
      lines.flatMap (splitAt '\n') ++ [[]] := by
    induction lines with
    | nil => rfl
    | cons line lines ih =>
        rw [List.flatMap_cons, List.append_assoc, List.singleton_append, splitAt_separator, ih,
          List.flatMap_cons, List.append_assoc]
  unfold codeLines
  rw [pieces]
  simp

end Machine

/-! ## Characters of words -/

/-- The characters of line numbers and of the words of a motion. -/
def isPlainChar (c : Char) : Bool :=
  c.isUpper || c.isDigit || c == ' ' || c == '.' || c == '-'

theorem isPlainChar_of_isDigit {c : Char} (digit : c.isDigit = true) : isPlainChar c = true := by
  simp [isPlainChar, digit]

theorem Decimal.Numeral.Plain.of_mem_text {numeral : Decimal.Numeral} (plain : numeral.Plain)
    {c : Char} (member : c ∈ numeral.text) : c.isDigit = true ∨ c = '.' ∨ c = '-' := by
  have digits : ∀ d ∈ numeral.unsignedText, d.isDigit = true ∨ d = '.' ∨ d = '-' := by
    intro d inside
    rcases List.mem_append.mp inside with whole | part
    · exact .inl (plain.whole d whole)
    · split at part
      · cases part
      · rcases List.mem_cons.mp part with point | fraction
        · exact .inr (.inl point)
        · exact .inl (plain.fraction d fraction)
  rw [Decimal.Numeral.text_eq] at member
  split at member
  · rcases List.mem_cons.mp member with sign | inside
    · exact .inr (.inr sign)
    · exact digits c inside
  · exact digits c member

theorem isPlainChar_of_mem_text {numeral : Decimal.Numeral} (plain : numeral.Plain) {c : Char}
    (member : c ∈ numeral.text) : isPlainChar c = true := by
  rcases plain.of_mem_text member with digit | rfl | rfl
  · exact isPlainChar_of_isDigit digit
  · rfl
  · rfl

theorem toNat_lt_of_isPlainChar {c : Char} (plain : isPlainChar c = true) : c.toNat < 97 := by
  simp only [isPlainChar, Bool.or_eq_true, beq_iff_eq] at plain
  rcases plain with (((upper | digit) | rfl) | rfl) | rfl
  · simp only [Char.isUpper, decide_eq_true_eq, ge_iff_le, UInt32.le_iff_toNat_le] at upper
    exact Nat.lt_of_le_of_lt upper.2 (by decide)
  · exact Nat.lt_of_le_of_lt (Decimal.digit_bounds digit).2 (by decide)
  · decide
  · decide
  · decide

namespace Machine

theorem capital_of_isPlainChar {c : Char} (plain : isPlainChar c = true) : capital c = c := by
  have small := toNat_lt_of_isPlainChar plain
  have notDotless : (c.toNat == 0x131) = false := by simpa using (by omega : c.toNat ≠ 0x131)
  have notLong : (c.toNat == 0x17f) = false := by simpa using (by omega : c.toNat ≠ 0x17f)
  have notLower : ¬('a'.val ≤ c.val ∧ c.val ≤ 'z'.val) := by
    intro lower
    have bound := UInt32.le_iff_toNat_le.mp lower.1
    exact absurd small (Nat.not_lt_of_le bound)
  rw [capital, notDotless, notLong, if_neg (by decide), if_neg (by decide), Char.toUpper,
    dif_neg notLower]

/-- Plain characters survive cleaning when the mark of comments is not one of them. -/
theorem survives_of_isPlainChar {mark c : Char} (foreign : isPlainChar mark = false)
    (plain : isPlainChar c = true) : Survives mark c := by
  refine ⟨?_, ?_, capital_of_isPlainChar plain⟩
  · rintro rfl
    rw [foreign] at plain
    cases plain
  · rintro rfl
    exact absurd plain (by decide)

end Machine

/-! ## Characters of numbers -/

namespace Decimal

/-- The characters of all that a number can be written as, infinite ones included. -/
def isNumberChar (c : Char) : Bool :=
  c.isDigit || ['.', '-', '+', 'N', 'a', 'I', 'n', 'f'].contains c

theorem isUpper_of_isDigit {c : Char} (digit : c.isDigit = true) : c.isUpper = false := by
  have bounds := digit_bounds digit
  rw [Bool.eq_false_iff]
  intro upper
  simp only [Char.isUpper, decide_eq_true_eq, ge_iff_le, UInt32.le_iff_toNat_le] at upper
  have least : 65 ≤ c.toNat := upper.1
  omega

theorem isNumberChar_of_isDigit {c : Char} (digit : c.isDigit = true) : isNumberChar c = true := by
  simp [isNumberChar, digit]

theorem isNumberChar_signed {negative : Bool} {text : List Char}
    (inside : ∀ c ∈ text, isNumberChar c = true) :
    ∀ c ∈ signed negative text, isNumberChar c = true := by
  intro c member
  unfold signed at member
  split at member
  · rcases List.mem_cons.mp member with rfl | rest
    · rfl
    · exact inside c rest
  · exact inside c member

theorem isNumberChar_digits (n : Nat) : ∀ c ∈ digits n, isNumberChar c = true := fun _ member =>
  isNumberChar_of_isDigit (isDigit_of_mem_digits member)

theorem isNumberChar_positional (places count : Nat) :
    ∀ c ∈ positional places count, isNumberChar c = true := by
  intro c member
  unfold positional at member
  split at member
  · exact isNumberChar_digits count c member
  · rcases List.mem_append.mp member with whole | part
    · exact isNumberChar_digits _ c whole
    · rcases List.mem_cons.mp part with rfl | fraction
      · rfl
      · exact isNumberChar_of_isDigit (isDigit_of_mem_padded fraction)

private theorem isNumberChar_plain (value : Scaled) : ∀ c ∈ value.plain, isNumberChar c = true := by
  unfold Scaled.plain
  split
  · exact isNumberChar_digits _
  · exact isNumberChar_positional _ _

theorem isNumberChar_infiniteText (negative : Bool) :
    ∀ c ∈ infiniteText negative, isNumberChar c = true := by
  cases negative <;> exact List.all_iff_forall_prop.mp (by decide)

private theorem mem_of_mem_trimFraction {text : List Char} {c : Char}
    (member : c ∈ trimFraction text) : c ∈ text := by
  have dropped : ∀ d ∈ text.reverse.dropWhile (· == '0'), d ∈ text := fun d inside =>
    List.mem_reverse.mp ((List.dropWhile_sublist _).subset inside)
  unfold trimFraction at member
  split at member
  · split at member
    · next rest shape =>
        exact dropped c (shape ▸ List.mem_cons_of_mem _ (List.mem_reverse.mp member))
    · exact dropped c (List.mem_reverse.mp member)
  · exact member

end Decimal

open Kerf.Decimal in
theorem Dialect.isNumberChar_format (dialect : Dialect) (x : Float) :
    ∀ c ∈ (dialect.format x).toList, isNumberChar c = true := by
  have fixedChars : ∀ places, ∀ c ∈ fixed places x, isNumberChar c = true := by
    intro places
    unfold fixed
    split
    · exact List.all_iff_forall_prop.mp (by decide)
    · exact isNumberChar_infiniteText _
    · exact isNumberChar_signed (isNumberChar_positional _ _)
  have plainChars : ∀ c ∈ shortestWith Scaled.plain x, isNumberChar c = true := by
    unfold shortestWith
    split
    · exact List.all_iff_forall_prop.mp (by decide)
    · exact isNumberChar_infiniteText _
    · split <;> exact isNumberChar_signed (isNumberChar_plain _)
  have rawChars : ∀ c ∈ (if dialect.precision < 0 then shortestWith Scaled.plain x
      else fixed dialect.precision.toNat x), isNumberChar c = true := by
    split
    · exact plainChars
    · exact fixedChars _
  unfold format
  generalize (if dialect.precision < 0 then shortestWith Scaled.plain x
    else fixed dialect.precision.toNat x) = raw at rawChars
  intro c member
  rw [String.toList_ofList] at member
  split at member
  · cases List.mem_singleton.mp member
    rfl
  · exact rawChars c (mem_of_mem_trimFraction member)

theorem capital_not_mem_of_isNumberChar {c : Char} (number : Decimal.isNumberChar c = true) :
    Machine.capital c ∉ ['G', 'X', 'Y', 'Z'] := by
  simp only [Decimal.isNumberChar, Bool.or_eq_true, List.contains_iff_mem] at number
  rcases number with digit | letter
  · rw [Machine.capital_of_isPlainChar (isPlainChar_of_isDigit digit)]
    intro member
    have bounds := Decimal.digit_bounds digit
    simp only [List.mem_cons, List.not_mem_nil, or_false] at member
    rcases member with rfl | rfl | rfl | rfl <;> exact absurd bounds (by decide)
  · have letters : ∀ c ∈ ['.', '-', '+', 'N', 'a', 'I', 'n', 'f'],
        Machine.capital c ∉ ['G', 'X', 'Y', 'Z'] := List.all_iff_forall_prop.mp (by decide)
    exact letters c letter

/-! ## Texts with blanks between them -/

theorem mem_intercalate_blank {texts : List (List Char)} {c : Char}
    (member : c ∈ [' '].intercalate texts) : c = ' ' ∨ ∃ text ∈ texts, c ∈ text := by
  induction texts with
  | nil => cases member
  | cons text texts ih =>
      cases texts with
      | nil => exact .inr ⟨text, List.mem_singleton_self text, by simpa using member⟩
      | cons next texts =>
          rw [List.intercalate_cons_cons, List.append_assoc, List.mem_append, List.mem_append,
            List.mem_singleton] at member
          rcases member with here | rfl | later
          · exact .inr ⟨text, List.mem_cons_self, here⟩
          · exact .inl rfl
          · rcases ih later with blank | ⟨other, listed, inside⟩
            · exact .inl blank
            · exact .inr ⟨other, List.mem_cons_of_mem _ listed, inside⟩

/-- Where one of the texts stands among the others. -/
theorem intercalate_blank_append (before : List (List Char)) (text : List Char)
    (after : List (List Char)) :
    ∃ lead rest, [' '].intercalate (before ++ text :: after) = lead ++ (text ++ rest) ∧
      (∀ c ∈ lead, c = ' ' ∨ ∃ other ∈ before, c ∈ other) ∧
      (∀ c ∈ rest, c = ' ' ∨ ∃ other ∈ after, c ∈ other) ∧ Machine.Apart rest := by
  induction before with
  | nil =>
      cases after with
      | nil => exact ⟨[], [], by simp, by simp, by simp, fun c head => by cases head⟩
      | cons next after =>
          refine ⟨[], ' ' :: [' '].intercalate (next :: after), by simp, by simp, ?_, ?_⟩
          · intro c member
            rcases List.mem_cons.mp member with rfl | later
            · exact .inl rfl
            · exact mem_intercalate_blank later
          · intro c head
            cases head
            rfl
  | cons first before ih =>
      obtain ⟨lead, rest, shape, leading, trailing, apart⟩ := ih
      refine ⟨first ++ ' ' :: lead, rest, ?_, ?_, trailing, apart⟩
      · rw [List.cons_append, List.intercalate_cons_of_ne_nil (by simp), shape]
        simp
      · intro c member
        rcases List.mem_append.mp member with here | behind
        · exact .inr ⟨first, List.mem_cons_self, here⟩
        · rcases List.mem_cons.mp behind with rfl | later
          · exact .inl rfl
          · rcases leading c later with blank | ⟨other, listed, inside⟩
            · exact .inl blank
            · exact .inr ⟨other, List.mem_cons_of_mem _ listed, inside⟩

/-! ## One printed line -/

namespace Text

theorem trimEnd_append {drop : Char → Bool} {front : List Char}
    (kept : ∀ c ∈ front.getLast?, drop c = false) (back : List Char) :
    trimEnd drop (front ++ back) = front ++ trimEnd drop back := by
  have whole : front.reverse.dropWhile drop = front.reverse := by
    cases shape : front.reverse with
    | nil => rfl
    | cons c rest =>
        have last : front.getLast? = some c := by rw [List.getLast?_eq_head?_reverse, shape]; rfl
        rw [List.dropWhile_cons_of_neg (by simp [kept c last])]
  unfold trimEnd
  rw [List.reverse_append, List.dropWhile_append]
  split
  · next none => rw [whole, List.isEmpty_iff.mp none, List.reverse_reverse]; simp
  · rw [List.reverse_append, List.reverse_reverse]

theorem trimEnd_prefix (drop : Char → Bool) (text : List Char) : trimEnd drop text <+: text := by
  rw [← List.reverse_suffix, trimEnd, List.reverse_reverse]
  exact List.dropWhile_suffix drop

end Text

namespace Program

theorem mem_toString_int {n : Int} {c : Char} (member : c ∈ (toString n).toList) :
    c = '-' ∨ c.isDigit = true := by
  cases n with
  | ofNat n =>
      have inside : c ∈ n.repr.toList := member
      rw [Nat.toList_repr] at inside
      exact .inr (Decimal.isDigit_of_mem_digits inside)
  | negSucc n =>
      have inside : c ∈ ("-" ++ (n + 1).repr).toList := member
      rw [String.toList_append, List.mem_append, Nat.toList_repr] at inside
      rcases inside with sign | digits
      · exact .inl (by simpa using sign)
      · exact .inr (Decimal.isDigit_of_mem_digits digits)

/-- A printed line is a number, if any, followed by the line as far as it is not blank. -/
theorem printLine_append (dialect : Dialect) (number : Int64) {front : List Char}
    (kept : ∀ c ∈ front.getLast?, c ≠ ' ' ∧ c ≠ '\t') (back : List Char) :
    ∃ lead rest, (printLine dialect number (front ++ back)).2 = lead ++ (front ++ rest) ∧
      rest <+: back ∧ ∀ c ∈ lead, isPlainChar c = true ∧ (c.isUpper = true → c = 'N') := by
  have trimmed : trimEnd (fun c => c == ' ' || c == '\t') (front ++ back) =
      front ++ trimEnd (fun c => c == ' ' || c == '\t') back :=
    trimEnd_append (fun c last => by simpa using kept c last) back
  have part := trimEnd_prefix (fun c => c == ' ' || c == '\t') back
  unfold printLine
  rw [trimmed]
  generalize trimEnd (fun c => c == ' ' || c == '\t') back = rest at part
  dsimp only
  split
  · refine ⟨'N' :: (toString (number + dialect.lineStep).toInt).toList ++ [' '], rest, ?_, part, ?_⟩
    · simp
    · intro c member
      rw [List.cons_append, List.mem_cons, List.mem_append, List.mem_singleton] at member
      rcases member with rfl | digits | rfl
      · decide
      · rcases mem_toString_int digits with rfl | digit
        · decide
        · refine ⟨isPlainChar_of_isDigit digit, fun upper => ?_⟩
          rw [Decimal.isUpper_of_isDigit digit] at upper
          cases upper
      · decide
  · exact ⟨[], rest, rfl, part, fun c member => by cases member⟩

end Program

namespace Machine

/-- The lines that a line of a program is read as. The first one starts with the number and with
whatever plain characters the line starts with; what comes behind is taken from the line. -/
theorem splitAt_printLine {dialect : Dialect} {mark : Char} {marks : List Char}
    (opening : dialect.commentStart.toList = mark :: marks) (foreign : isPlainChar mark = false)
    (number : Int64) {front : List Char} (plain : ∀ c ∈ front, isPlainChar c = true)
    (kept : ∀ c ∈ front.getLast?, c ≠ ' ') (back : List Char) :
    ∃ first others lead tail,
      splitAt '\n' (Program.printLine dialect number (front ++ back)).2 = first :: others ∧
      cleanLine dialect first = lead ++ (front ++ tail) ∧
      (∀ c ∈ lead, c.isUpper = true → c = 'N') ∧ (∀ c ∈ tail, ∃ d ∈ back, capital d = c) ∧
      (Apart back → Apart tail) ∧ ∀ other ∈ others, other ⊆ back := by
  have visible : ∀ c ∈ front.getLast?, c ≠ ' ' ∧ c ≠ '\t' := by
    intro c last
    refine ⟨kept c last, ?_⟩
    rintro rfl
    exact absurd (plain '\t' (List.mem_of_getLast? last)) (by decide)
  obtain ⟨lead, rest, line, part, numbers⟩ :=
    Program.printLine_append dialect number visible back
  -- Number and front hold no line end, so both lie in the first line that is read.
  have headPlain : ∀ c ∈ lead ++ front, isPlainChar c = true := by
    intro c member
    rcases List.mem_append.mp member with before | behind
    · exact (numbers c before).1
    · exact plain c behind
  have unbroken : '\n' ∉ lead ++ front := fun member =>
    absurd (headPlain '\n' member) (by decide)
  have markVisible : mark ≠ ' ' := by
    rintro rfl
    exact absurd foreign (by decide)
  obtain ⟨piece, others, pieces, within, inside⟩ := splitAt_append unbroken rest
  obtain ⟨tail, cleaned, source, apart⟩ := cleanLine_append opening markVisible
    (fun c member => survives_of_isPlainChar foreign (headPlain c member)) piece
  have pieceOfBack : piece <+: back := within.trans part
  refine ⟨(lead ++ front) ++ piece, others, lead, tail, ?_, ?_, fun c member => (numbers c member).2,
    ?_, fun blank => apart (blank.of_isPrefix pieceOfBack), ?_⟩
  · rw [line, ← List.append_assoc, pieces]
  · rw [cleaned, List.append_assoc]
  · intro c member
    obtain ⟨d, found, same⟩ := source c member
    exact ⟨d, pieceOfBack.subset found, same⟩
  · exact fun other member => List.Subset.trans (inside other member) part.subset

section Words

variable {dialect : Dialect} {mark : Char} {marks : List Char} {letter : Char}

theorem isPlainChar_of_isUpper (upper : letter.isUpper = true) : isPlainChar letter = true := by
  simp [isPlainChar, upper]

/-- How a word of a line is read back, and what is left for the lines that come behind. -/
theorem splitAt_word (opening : dialect.commentStart.toList = mark :: marks)
    (foreign : isPlainChar mark = false) (number : Int64) (upper : letter.isUpper = true)
    (named : letter ≠ 'N') {numeral : Decimal.Numeral} (spelled : numeral.Plain)
    {before after : List (List Char)}
    (earlier : ∀ text ∈ before, ∀ c ∈ text, isPlainChar c = true ∧ c ≠ letter)
    (later : ∀ text ∈ after, ∀ c ∈ text, capital c ≠ letter) :
    ∃ first others lead tail,
      splitAt '\n' (Program.printLine dialect number
        ([' '].intercalate (before ++ (letter :: numeral.text) :: after))).2 = first :: others ∧
      cleanLine dialect first = lead ++ letter :: (numeral.text ++ tail) ∧
      letter ∉ lead ∧ letter ∉ tail ∧ Apart tail ∧
      ∀ other ∈ others, ∀ c ∈ other, c = ' ' ∨ ∃ text ∈ after, c ∈ text := by
  have notBlank : ' ' ≠ letter := by
    rintro rfl
    exact absurd upper (by decide)
  obtain ⟨early, rest, line, leading, trailing, apart⟩ :=
    intercalate_blank_append before (letter :: numeral.text) after
  have word : ∀ c ∈ letter :: numeral.text, isPlainChar c = true ∧ c ≠ ' ' := by
    intro c member
    rcases List.mem_cons.mp member with rfl | inside
    · exact ⟨isPlainChar_of_isUpper upper, notBlank.symm⟩
    · refine ⟨isPlainChar_of_mem_text spelled inside, ?_⟩
      rintro rfl
      exact absurd (spelled.of_mem_text inside) (by decide)
  -- No character up to the end of the word can start a comment, so cleaning keeps them all.
  have plain : ∀ c ∈ early ++ (letter :: numeral.text), isPlainChar c = true := by
    intro c member
    rcases List.mem_append.mp member with lead | here
    · rcases leading c lead with rfl | ⟨text, listed, inside⟩
      · rfl
      · exact (earlier text listed c inside).1
    · exact (word c here).1
  have kept : ∀ c ∈ (early ++ (letter :: numeral.text)).getLast?, c ≠ ' ' := by
    intro c last
    rw [List.getLast?_append, List.getLast?_cons, Option.some_or] at last
    exact (word c (List.mem_of_getLast? (List.getLast?_cons.trans last))).2
  obtain ⟨first, others, numbers, tail, pieces, cleaned, silent, source, blank, remaining⟩ :=
    splitAt_printLine opening foreign number plain kept rest
  rw [List.append_assoc, ← line] at pieces
  refine ⟨first, others, numbers ++ early, tail, pieces, ?_, ?_, ?_, blank apart, ?_⟩
  · rw [cleaned]
    simp
  · intro member
    rcases List.mem_append.mp member with digits | lead
    · exact named (silent letter digits upper)
    · rcases leading letter lead with same | ⟨text, listed, inside⟩
      · exact notBlank same.symm
      · exact (earlier text listed letter inside).2 rfl
  · intro member
    obtain ⟨c, inside, same⟩ := source letter member
    rcases trailing c inside with rfl | ⟨text, listed, here⟩
    · exact notBlank (capital_blank.symm.trans same)
    · exact later text listed c here same
  · exact fun other member c inside => trailing c (remaining other member inside)

/-- A letter that no text of a line has is not read from it, nor from the lines that come behind. -/
theorem splitAt_wordless (opening : dialect.commentStart.toList = mark :: marks)
    (foreign : isPlainChar mark = false) (number : Int64) (upper : letter.isUpper = true)
    (named : letter ≠ 'N') {texts : List (List Char)}
    (silent : ∀ text ∈ texts, ∀ c ∈ text, capital c ≠ letter) :
    ∃ first others,
      splitAt '\n' (Program.printLine dialect number ([' '].intercalate texts)).2 =
        first :: others ∧
      letter ∉ cleanLine dialect first ∧ ∀ other ∈ others, ∀ c ∈ other, capital c ≠ letter := by
  have absent : ∀ c ∈ [' '].intercalate texts, capital c ≠ letter := by
    rintro c member rfl
    rcases mem_intercalate_blank member with rfl | ⟨text, listed, inside⟩
    · exact absurd upper (by decide)
    · exact silent text listed c inside rfl
  obtain ⟨first, others, numbers, tail, pieces, cleaned, digits, source, _, remaining⟩ :=
    @splitAt_printLine dialect mark marks opening foreign number [] (by simp) (by simp)
      ([' '].intercalate texts)
  refine ⟨first, others, pieces, ?_, fun other member c inside =>
    absent c (remaining other member inside)⟩
  rw [cleaned, List.nil_append]
  intro member
  rcases List.mem_append.mp member with lead | behind
  · exact named (digits letter lead upper)
  · obtain ⟨c, inside, same⟩ := source letter behind
    exact absent c inside same

end Words

end Machine

end Kerf
