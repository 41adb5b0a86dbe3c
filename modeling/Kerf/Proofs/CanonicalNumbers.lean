import Kerf.Proofs.Reading

/-!
# Canonical numbers

A number is written with a fixed number of places, and then the zeros that end its fraction are
dropped, the point as well when nothing follows it. What is left denotes the same number, and it is
the only text of its form that does.
-/

set_option autoImplicit false

namespace Kerf.Decimal

/-! ## Digits -/

theorem ofDigits_lt {text : List Char} (digits : ∀ c ∈ text, c.isDigit = true) :
    ofDigits text < 10 ^ text.length := by
  induction text with
  | nil => decide
  | cons c rest ih =>
      have bounds := digit_bounds (digits c List.mem_cons_self)
      have below := ih fun d member => digits d (List.mem_cons_of_mem c member)
      have leading : 10 ^ rest.length * (c.toNat - 48) ≤ 10 ^ rest.length * 9 :=
        Nat.mul_le_mul_left _ (by omega)
      rw [ofDigits_cons, List.length_cons, Nat.pow_succ]
      omega

theorem eq_of_mul_add_eq {base high high' low low' : Nat} (small : low < base)
    (small' : low' < base) (same : base * high + low = base * high' + low') :
    high = high' ∧ low = low' := by
  have positive : 0 < base := Nat.zero_lt_of_lt small
  obtain ⟨quotient, remainder⟩ :=
    (Nat.div_mod_unique positive).mpr ⟨Nat.add_comm low (base * high), small⟩
  obtain ⟨quotient', remainder'⟩ :=
    (Nat.div_mod_unique positive).mpr ⟨(Nat.add_comm low' (base * high')).trans same.symm, small'⟩
  exact ⟨quotient.symm.trans quotient', remainder.symm.trans remainder'⟩

/-- Digits are determined by their number and by what they denote. -/
theorem ofDigits_inj {first second : List Char} (digits : ∀ c ∈ first, c.isDigit = true)
    (digits' : ∀ c ∈ second, c.isDigit = true) (size : first.length = second.length)
    (same : ofDigits first = ofDigits second) : first = second := by
  induction first generalizing second with
  | nil => exact (List.length_eq_zero_iff.mp size.symm).symm
  | cons c first ih =>
      cases second with
      | nil => cases size
      | cons d second =>
          have shorter : first.length = second.length := Nat.succ.inj size
          have inside := fun e member => digits e (List.mem_cons_of_mem c member)
          have inside' := fun e member => digits' e (List.mem_cons_of_mem d member)
          rw [ofDigits_cons, ofDigits_cons, shorter] at same
          obtain ⟨lead, rest⟩ := eq_of_mul_add_eq (shorter ▸ ofDigits_lt inside)
            (ofDigits_lt inside') same
          have bounds := digit_bounds (digits c List.mem_cons_self)
          have bounds' := digit_bounds (digits' d List.mem_cons_self)
          have equal : c = d := Char.toNat_inj.mp (by omega)
          rw [equal, ih inside inside' shorter rest]

/-- Digits without superfluous zeros in front are not longer than others for the same number. -/
theorem length_le_of_ofDigits_eq {first second : List Char}
    (digits : ∀ c ∈ first, c.isDigit = true) (leading : first.head? = some '0' → first = ['0'])
    (digits' : ∀ c ∈ second, c.isDigit = true) (nonempty : second ≠ [])
    (same : ofDigits first = ofDigits second) : first.length ≤ second.length := by
  have some := List.length_pos_iff.mpr nonempty
  cases first with
  | nil => exact Nat.zero_le _
  | cons c rest =>
      by_cases zero : c = '0'
      · rw [leading (by rw [zero]; rfl)]
        exact some
      · have size : 10 ^ rest.length < 10 ^ second.length :=
          Nat.lt_of_le_of_lt (le_ofDigits (digits c List.mem_cons_self) zero)
            (same ▸ ofDigits_lt digits')
        exact (Nat.pow_lt_pow_iff_right (by decide)).mp size

private theorem digits_leading (n : Nat) : (digits n).head? = some '0' → digits n = ['0'] := by
  intro zero
  obtain ⟨rest, shape⟩ := List.head?_eq_some_iff.mp zero
  rcases Nat.eq_zero_or_pos rest.length with none | some
  · rw [shape, List.length_eq_zero_iff.mp none]
  · -- The number would fit into the digits behind the zero.
    have value := ofDigits_digits n
    have inside : ∀ c ∈ rest, c.isDigit = true := by
      intro c member
      apply @isDigit_of_mem_digits n
      rw [shape]
      exact List.mem_cons_of_mem _ member
    rw [shape, ofDigits_cons] at value
    have below : n < 10 ^ rest.length := by
      have bound := ofDigits_lt inside
      have nothing : '0'.toNat - 48 = 0 := rfl
      rw [nothing, Nat.mul_zero, Nat.zero_add] at value
      omega
    have short : (digits n).length ≤ rest.length :=
      (Nat.length_toDigits_le_iff (by decide) some).mpr below
    rw [shape, List.length_cons] at short
    omega

/-! ## What a text denotes -/

/-- The number that a text of digits denotes, with an optional sign in front and an optional point
among the digits. -/
def denoted (text : List Char) : ℚ :=
  let size : ℚ :=
    (ofDigits (text.filter Char.isDigit) : ℚ) / 10 ^ (text.dropWhile (· != '.')).tail.length
  if text.head? = some '-' then -size else size

/-- The number that a numeral denotes, without its sign. -/
def Numeral.size (numeral : Numeral) : ℚ :=
  (ofDigits (numeral.whole ++ numeral.fraction) : ℚ) / 10 ^ numeral.fraction.length

section Plain

variable {numeral : Numeral}

theorem filter_unsignedText (plain : numeral.Plain) :
    numeral.unsignedText.filter Char.isDigit = numeral.whole ++ numeral.fraction := by
  rw [Numeral.unsignedText, List.filter_append, List.filter_eq_self.mpr plain.whole]
  split
  · next none => rw [List.isEmpty_iff.mp none, List.filter_nil]
  · rw [List.filter_cons_of_neg (by decide), List.filter_eq_self.mpr plain.fraction]

theorem tail_dropWhile_unsignedText (plain : numeral.Plain) :
    (numeral.unsignedText.dropWhile (· != '.')).tail = numeral.fraction := by
  have passed : ∀ c ∈ numeral.whole, (c != '.') = true := by
    intro c member
    have digit := plain.whole c member
    rw [bne_iff_ne]
    rintro rfl
    rw [isDigit_point] at digit
    cases digit
  rw [Numeral.unsignedText, List.dropWhile_append_of_pos passed]
  split
  · next none => rw [List.isEmpty_iff.mp none]; rfl
  · rfl

theorem denoted_text (plain : numeral.Plain) :
    denoted numeral.text = if numeral.negative then -numeral.size else numeral.size := by
  rw [Numeral.text_eq, denoted, Numeral.size]
  cases numeral.negative with
  | true =>
      rw [if_pos rfl, List.filter_cons_of_neg (by decide), List.dropWhile_cons_of_pos (by decide),
        filter_unsignedText plain, tail_dropWhile_unsignedText plain]
      rfl
  | false =>
      obtain ⟨c, tail, shape, digit⟩ := unsignedText_eq_cons plain
      have unsigned : numeral.unsignedText.head? ≠ some '-' := by
        rw [shape]
        rintro same
        cases same
        exact absurd digit (by decide)
      simp only [Bool.false_eq_true, ↓reduceIte]
      rw [if_neg unsigned, filter_unsignedText plain, tail_dropWhile_unsignedText plain]

example : denoted "-03.250".toList = -13 / 4 := by decide +kernel

end Plain

/-! ## Fixed and tidy numerals -/

/-- A plain numeral without superfluous zeros in front. -/
structure Numeral.Bare (numeral : Numeral) : Prop extends numeral.Plain where
  leading : numeral.whole.head? = some '0' → numeral.whole = ['0']

/-- A numeral with a fixed number of places. -/
structure Numeral.Fixed (numeral : Numeral) (places : Nat) : Prop extends numeral.Bare where
  places : numeral.fraction.length = places

/-- A numeral with at most so many places and no zero at the end of its fraction. -/
structure Numeral.Tidy (numeral : Numeral) (places : Nat) : Prop extends numeral.Bare where
  fits : numeral.fraction.length ≤ places
  trimmed : numeral.fraction.getLast? ≠ some '0'

/-- The texts of numerals with a fixed number of places: an optional sign, digits without superfluous
zeros in front, and a point with as many digits as there are places, if any. -/
def FixedForm (places : Nat) (text : List Char) : Prop :=
  ∃ numeral : Numeral, numeral.Fixed places ∧ text = numeral.text

/-- The texts of tidy numerals: an optional sign, digits without superfluous zeros in front, and
possibly a point with at least one digit and at most so many, the last of which is not zero. -/
def TidyForm (places : Nat) (text : List Char) : Prop :=
  ∃ numeral : Numeral, numeral.Tidy places ∧ text = numeral.text

theorem fixedForm_fixed {x : Float} (finite : x.isFinite = true) (places : Nat) :
    FixedForm places (fixed places x) := by
  obtain ⟨negative, count, text, _⟩ := fixed_positional finite places
  refine ⟨Numeral.ofCount negative places count, ⟨⟨Numeral.plain_ofCount negative places count, ?_⟩,
    Numeral.length_fraction_ofCount negative places count⟩, ?_⟩
  · exact digits_leading _
  · rw [text, Numeral.text_ofCount]

/-! ## Dropping zeros -/

theorem Numeral.size_trimmed (numeral : Numeral) : numeral.trimmed.size = numeral.size := by
  obtain ⟨zeros, length, value⟩ := numeral.ofDigits_trimmed
  unfold Numeral.size
  rw [length, value, pow_add]
  push_cast
  field_simp

theorem Numeral.Fixed.tidy_trimmed {numeral : Numeral} {places : Nat}
    (fixed : numeral.Fixed places) : numeral.trimmed.Tidy places where
  toPlain := fixed.toPlain.trimmed
  leading := fixed.leading
  fits := by
    obtain ⟨zeros, length, _⟩ := numeral.ofDigits_trimmed
    rw [fixed.places] at length
    omega
  trimmed := by
    have last := List.head?_dropWhile_not (· == '0') numeral.fraction.reverse
    intro zero
    rw [Numeral.trimmed, List.getLast?_reverse] at zero
    rw [zero] at last
    cases last

theorem Numeral.tidy_zero (places : Nat) : Numeral.zero.Tidy places where
  toPlain := Numeral.plain_zero
  leading := fun _ => rfl
  fits := Nat.zero_le _
  trimmed := by decide

/-- What is shown of a numeral is tidy, denotes the same number and is no negative zero. -/
theorem Numeral.Fixed.exists_tidy {numeral : Numeral} {places : Nat}
    (fixed : numeral.Fixed places) :
    ∃ shown : Numeral, shown.Tidy places ∧ shown.text ≠ ['-', '0'] ∧
      denoted shown.text = denoted numeral.text ∧
      (if trimFraction numeral.text = ['-', '0'] then ['0'] else trimFraction numeral.text) =
        shown.text := by
  have tidy := fixed.tidy_trimmed
  have same : denoted numeral.trimmed.text = denoted numeral.text := by
    rw [denoted_text tidy.toPlain, denoted_text fixed.toPlain, numeral.size_trimmed]
    rfl
  rw [trimFraction_text fixed.toPlain]
  split
  · next zero =>
      refine ⟨Numeral.zero, Numeral.tidy_zero places, by decide, ?_, rfl⟩
      rw [← same, zero]
      decide +kernel
  · next other => exact ⟨numeral.trimmed, tidy, other, same, rfl⟩

/-! ## One text for each number -/

section Tidy

variable {first second : Numeral} {places : Nat}

/-- The last digit of a fraction is not zero. -/
theorem Numeral.Tidy.not_ten_dvd (tidy : first.Tidy places) (nonempty : first.fraction ≠ []) :
    ¬ 10 ∣ ofDigits (first.whole ++ first.fraction) := by
  obtain ⟨front, last, shape⟩ := (List.eq_nil_or_concat' first.fraction).resolve_left nonempty
  have digit := digit_bounds (tidy.fraction last (by simp [shape]))
  have nonzero : last.toNat ≠ 48 := by
    intro zero
    have same : last = '0' := Char.toNat_inj.mp zero
    exact tidy.trimmed (by simp [shape, same])
  have value : ofDigits [last] = last.toNat - 48 := Nat.zero_add _
  rw [shape, ← List.append_assoc, ofDigits_append, value, List.length_singleton]
  omega

theorem Numeral.Tidy.length_le (tidy : first.Tidy places) (same : first.size = second.size) :
    first.fraction.length ≤ second.fraction.length := by
  by_contra longer
  obtain ⟨more, size⟩ := Nat.exists_eq_add_of_lt (not_le.mp longer)
  have nonempty : first.fraction ≠ [] := by
    rw [← List.length_pos_iff, size]
    exact Nat.succ_pos _
  apply tidy.not_ten_dvd nonempty
  -- The longer fraction is the shorter one with zeros behind it.
  have scaled : ofDigits (first.whole ++ first.fraction) =
      10 ^ (more + 1) * ofDigits (second.whole ++ second.fraction) := by
    rw [Numeral.size, Numeral.size, div_eq_div_iff (by positivity) (by positivity), size,
      Nat.add_assoc, pow_add] at same
    have cleared : (ofDigits (first.whole ++ first.fraction) : ℚ) =
        10 ^ (more + 1) * ofDigits (second.whole ++ second.fraction) := by
      apply mul_right_cancel₀ (by positivity : (10 : ℚ) ^ second.fraction.length ≠ 0)
      rw [same]
      ring
    exact_mod_cast cleared
  rw [scaled, Nat.pow_succ']
  exact (Nat.dvd_mul_right _ _).mul_right _

/-- Tidy numerals of the same size have the same digits. -/
theorem Numeral.Tidy.digits_eq (tidy : first.Tidy places) (other : second.Tidy places)
    (same : first.size = second.size) :
    first.whole = second.whole ∧ first.fraction = second.fraction := by
  have size : first.fraction.length = second.fraction.length :=
    Nat.le_antisymm (tidy.length_le same) (other.length_le same.symm)
  have value : ofDigits (first.whole ++ first.fraction) =
      ofDigits (second.whole ++ second.fraction) := by
    rw [Numeral.size, Numeral.size, size, div_left_inj' (by positivity)] at same
    exact_mod_cast same
  rw [ofDigits_append, ofDigits_append, size] at value
  obtain ⟨whole, fraction⟩ := eq_of_mul_add_eq (size ▸ ofDigits_lt tidy.fraction)
    (ofDigits_lt other.fraction) value
  have width : first.whole.length = second.whole.length :=
    Nat.le_antisymm
      (length_le_of_ofDigits_eq tidy.whole tidy.leading other.whole other.whole_ne_nil whole)
      (length_le_of_ofDigits_eq other.whole other.leading tidy.whole tidy.whole_ne_nil whole.symm)
  exact ⟨ofDigits_inj tidy.whole other.whole width whole,
    ofDigits_inj tidy.fraction other.fraction size fraction⟩

/-- A tidy numeral has a sign exactly if it denotes a negative number, the negative zero apart. -/
theorem Numeral.Tidy.negative_iff (tidy : first.Tidy places) (proper : first.text ≠ ['-', '0']) :
    first.negative = true ↔ denoted first.text < 0 := by
  have positive : 0 ≤ first.size := by
    unfold Numeral.size
    positivity
  rw [denoted_text tidy.toPlain]
  cases sign : first.negative with
  | false => simpa using positive
  | true =>
      have nonzero : first.size ≠ 0 := by
        intro zero
        have nothing : Numeral.zero.size = 0 := by decide +kernel
        obtain ⟨whole, fraction⟩ := tidy.digits_eq (Numeral.tidy_zero places)
          (zero.trans nothing.symm)
        apply proper
        rw [Numeral.text, sign, whole, fraction]
        rfl
      simpa using lt_of_le_of_ne positive nonzero.symm

/-- Apart from the negative zero, tidy numerals that denote the same number are written alike. -/
theorem Numeral.Tidy.text_eq_of_denoted_eq (tidy : first.Tidy places) (other : second.Tidy places)
    (proper : first.text ≠ ['-', '0']) (proper' : second.text ≠ ['-', '0'])
    (same : denoted first.text = denoted second.text) : first.text = second.text := by
  have sign : first.negative = second.negative := by
    rw [Bool.eq_iff_iff, tidy.negative_iff proper, other.negative_iff proper', same]
  have size : first.size = second.size := by
    rw [denoted_text tidy.toPlain, denoted_text other.toPlain, sign] at same
    split at same
    · exact neg_injective same
    · exact same
  obtain ⟨whole, fraction⟩ := tidy.digits_eq other size
  rw [Numeral.text, Numeral.text, sign, whole, fraction]

end Tidy

end Kerf.Decimal

namespace Kerf.Dialect

open Kerf.Decimal Kerf.Machine

/-! ## Formatted numbers -/

variable {dialect : Dialect} {x y : Float}

/-- A finite double is shown as a tidy numeral for what its fixed places denote. -/
theorem exists_shown (placed : 0 ≤ dialect.precision) (finite : x.isFinite = true) :
    ∃ shown : Numeral, shown.Tidy dialect.precision.toNat ∧ shown.text ≠ ['-', '0'] ∧
      denoted shown.text = denoted (fixed dialect.precision.toNat x) ∧
      (dialect.format x).toList = shown.text := by
  obtain ⟨numeral, form, text⟩ := fixedForm_fixed finite dialect.precision.toNat
  obtain ⟨shown, tidy, proper, same, shape⟩ := form.exists_tidy
  refine ⟨shown, tidy, proper, by rw [same, text], ?_⟩
  rw [format, if_neg (not_lt.mpr placed), text, ← shape]
  exact String.toList_ofList

/-- Numbers are written canonically. With a fixed number of places the text of a finite double is an
optional sign, digits without superfluous zeros in front and a point with as many digits. The text
written in a dialect denotes the same number, is tidy and no negative zero, and the reader takes it
for a number up to its end, whatever follows that could not go on with one. Two doubles are written
alike exactly when their texts with fixed places denote the same number. -/
theorem format_canonical (placed : 0 ≤ dialect.precision) (finite : x.isFinite = true)
    (finite' : y.isFinite = true) :
    let places := dialect.precision.toNat
    let text := (dialect.format x).toList
    FixedForm places (fixed places x) ∧
    denoted text = denoted (fixed places x) ∧
    TidyForm places text ∧
    dialect.format x ≠ "-0" ∧
    (∃ numeral : Numeral, numeral.text = text ∧
      ∀ rest, endsCode rest = true → numeralAt (text ++ rest) = some numeral) ∧
    (dialect.format x = dialect.format y ↔
      denoted (fixed places x) = denoted (fixed places y)) := by
  intro places text
  obtain ⟨shown, tidy, proper, same, shape⟩ := exists_shown placed finite
  obtain ⟨shown', tidy', proper', same', shape'⟩ := exists_shown placed finite'
  have read : ∀ rest, endsCode rest = true → numeralAt (text ++ rest) = some shown := by
    intro rest ends
    change numeralAt ((dialect.format x).toList ++ rest) = some shown
    rw [shape]
    exact numeralAt_text tidy.toPlain ends
  refine ⟨fixedForm_fixed finite places, (congrArg denoted shape).trans same,
    ⟨shown, tidy, shape⟩, ?_, ⟨shown, shape.symm, read⟩, ?_⟩
  · intro zero
    rw [zero] at shape
    exact proper shape.symm
  · rw [← String.toList_inj, shape, shape', ← same, ← same']
    exact ⟨fun alike => by rw [alike], tidy.text_eq_of_denoted_eq tidy' proper proper'⟩

/-- A small negative number and a small positive one are both written as zero. -/
theorem format_canonical_zero :
    let dialect : Dialect := { precision := 3 }
    let x : Float := -0.0001
    let y : Float := 0.0004
    0 ≤ dialect.precision ∧ x.isFinite = true ∧ y.isFinite = true ∧
      fixed 3 x = "-0.000".toList ∧ fixed 3 y = "0.000".toList ∧
      TidyForm 3 (dialect.format x).toList ∧ denoted (dialect.format x).toList = 0 ∧
      dialect.format x ≠ "-0" ∧ dialect.format x = dialect.format y := by
  intro dialect x y
  have placed : 0 ≤ dialect.precision := by decide
  have finite : x.isFinite = true := by decide +kernel
  have finite' : y.isFinite = true := by decide +kernel
  have below : fixed 3 x = "-0.000".toList := by decide +kernel
  have above : fixed 3 y = "0.000".toList := by decide +kernel
  obtain ⟨_, value, tidy, proper, _, alike⟩ := format_canonical placed finite finite'
  refine ⟨placed, finite, finite', below, above, tidy, ?_, proper, ?_⟩
  · rw [value]
    change denoted (fixed 3 x) = 0
    rw [below]
    decide +kernel
  · apply alike.mpr
    change denoted (fixed 3 x) = denoted (fixed 3 y)
    rw [below, above]
    decide +kernel

end Kerf.Dialect
