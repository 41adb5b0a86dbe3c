import Kerf.Proofs.Doubles
import Kerf.Decimal.Layout
import Kerf.Decimal.Numeral
import Kerf.Dialect.Basic
import Mathlib.Data.Bool.AllAny
import Mathlib.Tactic.Ring

/-!
# Numerals of numbers

The text of a finite double in a dialect is a plain numeral: an optional sign, digits, and an
optional fraction. What it denotes lies below the half way mark beyond the largest double, so that
it always reads back to a finite double.
-/

set_option autoImplicit false

namespace Kerf.Decimal

open Kerf.Doubles (halfWay Fits)

/-! ## Digits -/

theorem ofDigits_eq (text : List Char) : ofDigits text = Nat.ofDigitChars 10 text 0 := rfl

theorem ofDigits_append (front back : List Char) :
    ofDigits (front ++ back) = 10 ^ back.length * ofDigits front + ofDigits back := by
  rw [ofDigits_eq, Nat.ofDigitChars_append, Nat.ofDigitChars_eq_ofDigitChars_zero]
  rfl

theorem ofDigits_digits (n : Nat) : ofDigits (digits n) = n := Nat.ofDigitChars_ten_toDigits

theorem ofDigits_replicate (count : Nat) : ofDigits (List.replicate count '0') = 0 := by
  rw [ofDigits_eq, Nat.ofDigitChars_replicate_zero, Nat.mul_zero]

theorem isDigit_of_mem_digits {n : Nat} {c : Char} (member : c ∈ digits n) : c.isDigit = true :=
  Nat.isDigit_of_mem_toDigits (by decide) (by decide) member

variable {c : Char} {n places mantissa : Nat} {numeral : Numeral} {x : Float} {exponent : Int}

theorem digit_bounds (digit : c.isDigit = true) : 48 ≤ c.toNat ∧ c.toNat ≤ 57 := by
  simp only [Char.isDigit, Bool.and_eq_true, decide_eq_true_eq, ge_iff_le,
    UInt32.le_iff_toNat_le] at digit
  exact digit

theorem ofDigits_cons (c : Char) (rest : List Char) :
    ofDigits (c :: rest) = 10 ^ rest.length * (c.toNat - 48) + ofDigits rest := by
  have single : ofDigits [c] = c.toNat - 48 := Nat.zero_add _
  rw [← single]
  exact ofDigits_append [c] rest

/-- Without zeros in front, digits denote at least a one with as many digits. -/
theorem le_ofDigits {rest : List Char} (digit : c.isDigit = true) (nonzero : c ≠ '0') :
    10 ^ rest.length ≤ ofDigits (c :: rest) := by
  have bounds := digit_bounds digit
  have different : c.toNat ≠ 48 := fun same => nonzero (Char.toNat_inj.mp same)
  rw [ofDigits_cons]
  exact Nat.le_trans (Nat.le_mul_of_pos_right _ (by omega)) (Nat.le_add_right _ _)

private theorem length_padded {width : Nat} (some : 0 < width) (fits : n < 10 ^ width) :
    (padded width n).length = width := by
  have short : (digits n).length ≤ width := (Nat.length_toDigits_le_iff (by decide) some).mpr fits
  simp only [padded, List.length_append, List.length_replicate]
  omega

private theorem ofDigits_padded (width n : Nat) : ofDigits (padded width n) = n := by
  rw [padded, ofDigits_append, ofDigits_replicate, ofDigits_digits, Nat.mul_zero, Nat.zero_add]

theorem isDigit_of_mem_padded {width : Nat} (member : c ∈ padded width n) : c.isDigit = true := by
  rcases List.mem_append.mp member with zero | digit
  · rw [List.eq_of_mem_replicate zero]
    decide
  · exact isDigit_of_mem_digits digit

theorem ofDigits_dropWhile (text : List Char) :
    ofDigits (text.dropWhile (· == '0')) = ofDigits text := by
  induction text with
  | nil => rfl
  | cons c rest ih =>
      by_cases zero : c = '0'
      · subst zero
        rw [List.dropWhile_cons_of_pos (by rfl), ih, ofDigits_cons]
        simp
      · rw [List.dropWhile_cons_of_neg (by simpa using zero)]

/-! ## Values -/

/-- A numeral of digits with nothing but an optional sign and an optional fraction. -/
structure Numeral.Plain (numeral : Numeral) : Prop where
  whole_ne_nil : numeral.whole ≠ []
  whole : ∀ c ∈ numeral.whole, c.isDigit = true
  fraction : ∀ c ∈ numeral.fraction, c.isDigit = true
  exponent : numeral.exponent = 0

theorem Numeral.Plain.isDigit (plain : numeral.Plain) :
    ∀ c ∈ (numeral.whole ++ numeral.fraction).dropWhile (· == '0'), c.isDigit = true := by
  intro c member
  rcases List.mem_append.mp ((List.dropWhile_sublist _).subset member) with whole | fraction
  · exact plain.whole c whole
  · exact plain.fraction c fraction

/-- A numeral that denotes less than the half way mark beyond the largest double. With a fraction it
denotes far less. -/
structure Numeral.Moderate (numeral : Numeral) : Prop where
  whole : ofDigits (numeral.whole ++ numeral.fraction) < halfWay * 10 ^ numeral.fraction.length
  part : numeral.fraction ≠ [] →
    ofDigits (numeral.whole ++ numeral.fraction) < 2 ^ 62 * 10 ^ numeral.fraction.length

theorem halfWayAt_lt_ten (exponent count : Nat) (enough : 54 + exponent ≤ 13 * count) :
    Doubles.halfWayAt exponent < 10 ^ (4 * count) := by
  have grows : 2 ^ (13 * count) ≤ 10 ^ (4 * count) := by
    rw [Nat.pow_mul, Nat.pow_mul]
    exact Nat.pow_le_pow_left (by decide) count
  exact Nat.lt_of_lt_of_le (Doubles.halfWayAt_lt exponent)
    (Nat.le_trans (Nat.pow_le_pow_right (by decide) enough) grows)

theorem fits_zero : Fits 971 (0 : Float) :=
  Doubles.fits_ofScientific_whole (Doubles.halfWayAt_pos 970)

theorem fits_nearest_fraction {coefficient : Nat} (some : 0 < places)
    (below : coefficient < 10 ^ places * 2 ^ 64) : Fits 971 (nearest coefficient (-places)) := by
  have negative : decide (-(places : Int) < 0) = true := by simpa using some
  rw [nearest, negative, Int.natAbs_neg, Int.natAbs_natCast]
  exact Doubles.fits_ofScientific_fraction some below

theorem length_lt_of_lt {rest : List Char} {bound count : Nat} (digit : c.isDigit = true)
    (nonzero : c ≠ '0') (mark : bound ≤ 10 ^ count)
    (below : ofDigits (c :: rest) < bound * 10 ^ places) : rest.length < count + places := by
  have size : 10 ^ rest.length < 10 ^ (count + places) := by
    rw [Nat.pow_add]
    exact Nat.lt_of_le_of_lt (le_ofDigits digit nonzero)
      (Nat.lt_of_lt_of_le below (Nat.mul_le_mul_right _ mark))
  exact (Nat.pow_lt_pow_iff_right (by decide)).mp size

private theorem fits_nearest {all : List Char} (whole : ofDigits all < halfWay * 10 ^ places)
    (part : places ≠ 0 → ofDigits all < 2 ^ 62 * 10 ^ places) :
    Fits 971 (nearest (ofDigits all) (0 - places)) := by
  rw [Int.zero_sub]
  cases places with
  | zero => exact Doubles.fits_ofScientific_whole (by simpa using whole)
  | succ places =>
      apply fits_nearest_fraction (Nat.succ_pos places)
      have below := part (by simp)
      rw [Nat.mul_comm] at below
      exact Nat.lt_trans below (Nat.mul_lt_mul_of_pos_left (by decide) (Nat.pow_pos (by decide)))

/-- Digits beyond a limit may be replaced by a single one. -/
theorem fits_nearest_cut {front back : List Char} {last : Nat} (sticky : last ≤ 1)
    (short : back.length < places) (part : ofDigits (front ++ back) < 2 ^ 62 * 10 ^ places) :
    Fits 971 (nearest (10 * ofDigits front + last) (0 - places + back.length - 1)) := by
  -- At least one digit of the fraction is kept, so the power of ten stays negative.
  obtain ⟨more, rfl⟩ := Nat.exists_eq_add_of_lt short
  have power : (0 - ((back.length + more + 1 : Nat) : Int) + back.length - 1) = -(more + 2 : Nat) := by
    omega
  rw [power]
  apply fits_nearest_fraction (by omega)
  have front_lt : ofDigits front < 2 ^ 62 * 10 ^ (more + 1) := by
    rw [ofDigits_append, Nat.add_assoc, Nat.pow_add, Nat.mul_left_comm] at part
    exact Nat.lt_of_mul_lt_mul_left (Nat.lt_of_le_of_lt (Nat.le_add_right _ _) part)
  have wider : 10 ^ (more + 2) = 10 * 10 ^ (more + 1) := Nat.pow_succ'
  rw [wider]
  omega

theorem Numeral.magnitude?_of_moderate (plain : numeral.Plain) (moderate : numeral.Moderate) :
    ∃ size, numeral.magnitude? = some size ∧ Fits 971 size := by
  have digits := plain.isDigit
  have value := ofDigits_dropWhile (numeral.whole ++ numeral.fraction)
  have leading := List.head?_dropWhile_not (· == '0') (numeral.whole ++ numeral.fraction)
  have whole := moderate.whole
  have part := moderate.part
  unfold Numeral.magnitude?
  rw [plain.exponent]
  generalize (numeral.whole ++ numeral.fraction).dropWhile (· == '0') = all at digits value leading
  rw [← value] at whole part
  cases all with
  | nil => exact ⟨0, rfl, fits_zero⟩
  | cons c rest =>
      have nonzero : c ≠ '0' := by simpa using leading
      have reach := length_lt_of_lt (digits c List.mem_cons_self) nonzero
        (Nat.le_of_lt (halfWayAt_lt_ten 970 79 (by decide))) whole
      have part' : numeral.fraction.length ≠ 0 →
          ofDigits (c :: rest) < 2 ^ 62 * 10 ^ numeral.fraction.length :=
        fun some => part fun none => some (by simp [none])
      simp only [Int.ofNat_eq_natCast, List.length_cons]
      rw [if_neg (by simp), if_neg (by omega)]
      split
      · exact ⟨0, rfl, fits_zero⟩
      · split
        · have fits := fits_nearest whole part'
          rw [Doubles.isInf_of_fits fits]
          exact ⟨_, rfl, fits⟩
        · next long =>
            have cut : (c :: rest).take digitLimit ++ (c :: rest).drop digitLimit = c :: rest :=
              List.take_append_drop digitLimit (c :: rest)
            have size : ((c :: rest).drop digitLimit).length ≠ 0 := by
              intro none
              exact long (List.isEmpty_iff.mpr (List.length_eq_zero_iff.mp none))
            have dropped : ((c :: rest).drop digitLimit).length = rest.length + 1 - 800 := by
              rw [List.length_drop, List.length_cons, digitLimit]
            have sticky : (if ((c :: rest).drop digitLimit).all (· == '0') then 0 else 1) ≤ 1 := by
              split <;> decide
            have short : ((c :: rest).drop digitLimit).length < numeral.fraction.length := by omega
            have below := part' (by omega)
            rw [← cut] at below
            have fits := fits_nearest_cut sticky short below
            rw [Doubles.isInf_of_fits fits]
            exact ⟨_, rfl, fits⟩

theorem Numeral.value?_of_moderate (plain : numeral.Plain) (moderate : numeral.Moderate) :
    ∃ value, numeral.value? = some value ∧ Fits 971 value := by
  obtain ⟨size, magnitude, fits⟩ := magnitude?_of_moderate plain moderate
  refine ⟨if numeral.negative then -size else size, by rw [Numeral.value?, magnitude]; rfl, ?_⟩
  split
  · exact Doubles.fits_neg fits (by decide) (by decide)
  · exact fits

/-! ## Texts -/

/-- The text of a numeral without a power of ten. -/
def Numeral.text (numeral : Numeral) : List Char :=
  signed numeral.negative
    (numeral.whole ++ if numeral.fraction.isEmpty then [] else '.' :: numeral.fraction)

private theorem exists_replicate_of_zeros (text : List Char) :
    ∃ count, text = (text.reverse.dropWhile (· == '0')).reverse ++ List.replicate count '0' := by
  refine ⟨(text.reverse.takeWhile (· == '0')).length, ?_⟩
  have zeros : text.reverse.takeWhile (· == '0') =
      List.replicate (text.reverse.takeWhile (· == '0')).length '0' := by
    apply List.eq_replicate_iff.mpr
    refine ⟨rfl, fun c member => ?_⟩
    have zero := List.all_eq_true.mp List.all_takeWhile c member
    simpa using zero
  rw [← List.reverse_replicate, ← zeros, ← List.reverse_append, List.takeWhile_append_dropWhile,
    List.reverse_reverse]

theorem isDigit_point : '.'.isDigit = false := by decide

/-- Dropping the zeros at the end of a fraction leaves the text of a numeral. -/
theorem trimFraction_point (negative : Bool) {whole fraction : List Char}
    (digits : ∀ c ∈ fraction, c.isDigit = true) :
    trimFraction (signed negative (whole ++ '.' :: fraction)) =
      Numeral.text ⟨negative, whole, (fraction.reverse.dropWhile (· == '0')).reverse, 0⟩ := by
  have split : (signed negative (whole ++ '.' :: fraction)).reverse =
      fraction.reverse ++ '.' :: (signed negative whole).reverse := by
    cases negative <;> simp [signed]
  have dropped : (fraction.reverse ++ '.' :: (signed negative whole).reverse).dropWhile (· == '0') =
      fraction.reverse.dropWhile (· == '0') ++ '.' :: (signed negative whole).reverse := by
    rw [List.dropWhile_append]
    split
    · next none =>
        rw [List.isEmpty_iff.mp none]
        rfl
    · rfl
  have point : (signed negative (whole ++ '.' :: fraction)).contains '.' = true := by
    cases negative <;> simp [signed]
  have inside : ∀ c ∈ fraction.reverse.dropWhile (· == '0'), c.isDigit = true := fun c member =>
    digits c (List.mem_reverse.mp ((List.dropWhile_sublist _).subset member))
  unfold trimFraction
  rw [if_pos point, split, dropped]
  unfold Numeral.text
  cases kept : fraction.reverse.dropWhile (· == '0') with
  | nil => cases negative <;> simp [signed]
  | cons c rest =>
      have notPoint : c ≠ '.' := by
        rintro rfl
        have digit := inside '.' (by rw [kept]; exact List.mem_cons_self)
        rw [isDigit_point] at digit
        cases digit
      simp only [List.cons_append]
      split
      · next same => exact absurd (List.cons.inj same).1 notPoint
      · cases negative <;> simp [signed]

/-- Without a fraction nothing is dropped, not even zeros. -/
theorem trimFraction_whole (negative : Bool) {whole : List Char}
    (digits : ∀ c ∈ whole, c.isDigit = true) :
    trimFraction (signed negative whole) = Numeral.text ⟨negative, whole, [], 0⟩ := by
  have pointless : (signed negative whole).contains '.' = false := by
    have absent : '.' ∉ whole := by
      intro member
      have digit := digits '.' member
      rw [isDigit_point] at digit
      cases digit
    cases negative <;> simp [signed, absent]
  rw [trimFraction, pointless]
  simp [Numeral.text]

/-- A numeral without the zeros at the end of its fraction. -/
def Numeral.trimmed (numeral : Numeral) : Numeral :=
  { numeral with fraction := (numeral.fraction.reverse.dropWhile (· == '0')).reverse }

theorem Numeral.Plain.trimmed (plain : numeral.Plain) : numeral.trimmed.Plain where
  whole_ne_nil := plain.whole_ne_nil
  whole := plain.whole
  fraction := fun c member => plain.fraction c
    (List.mem_reverse.mp ((List.dropWhile_sublist _).subset (List.mem_reverse.mp member)))
  exponent := plain.exponent

theorem trimFraction_text (plain : numeral.Plain) :
    trimFraction numeral.text = numeral.trimmed.text := by
  obtain ⟨negative, whole, fraction, exponent⟩ := numeral
  cases fraction with
  | nil => simpa [Numeral.text, Numeral.trimmed] using trimFraction_whole negative plain.whole
  | cons c rest => exact trimFraction_point negative plain.fraction

/-- Every zero that is dropped makes the digits denote a tenth and the fraction shorter by one. -/
theorem Numeral.ofDigits_trimmed (numeral : Numeral) :
    ∃ zeros, numeral.fraction.length = numeral.trimmed.fraction.length + zeros ∧
      ofDigits (numeral.whole ++ numeral.fraction) =
        10 ^ zeros * ofDigits (numeral.trimmed.whole ++ numeral.trimmed.fraction) := by
  obtain ⟨zeros, shape⟩ := exists_replicate_of_zeros numeral.fraction
  refine ⟨zeros, ?_, ?_⟩
  · nth_rewrite 1 [shape]
    rw [List.length_append, List.length_replicate]
    rfl
  · nth_rewrite 1 [shape]
    rw [← List.append_assoc, ofDigits_append, ofDigits_replicate, List.length_replicate, Nat.add_zero]
    rfl

/-- The numeral of a count of small units with all its places. -/
def Numeral.ofCount (negative : Bool) (places count : Nat) : Numeral where
  negative := negative
  whole := digits (count / 10 ^ places)
  fraction := if places = 0 then [] else padded places (count % 10 ^ places)
  exponent := 0

theorem Numeral.plain_ofCount (negative : Bool) (places count : Nat) :
    (Numeral.ofCount negative places count).Plain where
  whole_ne_nil := Nat.toDigits_ne_nil
  whole := fun _ => isDigit_of_mem_digits
  fraction := by
    unfold Numeral.ofCount
    split
    · exact List.forall_mem_nil _
    · exact fun _ => isDigit_of_mem_padded
  exponent := rfl

theorem Numeral.length_fraction_ofCount (negative : Bool) (places count : Nat) :
    (Numeral.ofCount negative places count).fraction.length = places := by
  unfold Numeral.ofCount
  split
  · next none => exact none.symm
  · next some =>
      exact length_padded (Nat.pos_of_ne_zero some) (Nat.mod_lt _ (Nat.pow_pos (by decide)))

theorem Numeral.ofDigits_ofCount (negative : Bool) (places count : Nat) :
    ofDigits ((Numeral.ofCount negative places count).whole ++
      (Numeral.ofCount negative places count).fraction) = count := by
  have length := Numeral.length_fraction_ofCount negative places count
  have fraction : ofDigits (Numeral.ofCount negative places count).fraction =
      count % 10 ^ places := by
    unfold Numeral.ofCount
    split
    · next none =>
        rw [none, Nat.pow_zero, Nat.mod_one]
        rfl
    · exact ofDigits_padded _ _
  rw [ofDigits_append, length, fraction]
  change 10 ^ places * ofDigits (digits (count / 10 ^ places)) + _ = count
  rw [ofDigits_digits]
  exact Nat.div_add_mod count (10 ^ places)

theorem Numeral.text_ofCount (negative : Bool) (places count : Nat) :
    (Numeral.ofCount negative places count).text = signed negative (positional places count) := by
  have length := Numeral.length_fraction_ofCount negative places count
  unfold Numeral.text positional
  split
  · next empty =>
      rw [List.isEmpty_iff.mp empty] at length
      cases length
      simp [Numeral.ofCount]
  · next nonempty =>
      have some : places ≠ 0 := by
        rintro rfl
        exact nonempty rfl
      rw [if_neg some, Numeral.ofCount, if_neg some]
      rfl

/-- A whole count has nothing but zeros behind the point. -/
theorem dropWhile_padded_zero (places : Nat) :
    (padded places 0).reverse.dropWhile (· == '0') = [] := by
  have zeros : padded places 0 = List.replicate (places - 1 + 1) '0' :=
    List.replicate_succ'.symm
  rw [zeros, List.reverse_replicate, List.dropWhile_replicate]
  rfl

theorem lt_of_trimmed {value bound : Nat} (zeros : Nat)
    (below : 10 ^ zeros * value < bound * 10 ^ (places + zeros)) : value < bound * 10 ^ places := by
  have scaled : bound * 10 ^ (places + zeros) = 10 ^ zeros * (bound * 10 ^ places) := by
    rw [Nat.pow_add, Nat.mul_comm (10 ^ places), Nat.mul_left_comm]
  rw [scaled] at below
  exact Nat.lt_of_mul_lt_mul_left below

/-- A numeral for a count of small units, without the zeros at the end of its fraction. -/
structure Numeral.Counts (numeral : Numeral) (negative : Bool) (places count : Nat) : Prop where
  sign : numeral.negative = negative
  whole : numeral.whole = digits (count / 10 ^ places)
  fits : numeral.fraction.length ≤ places
  trimmed : count % 10 ^ places = 0 → numeral.fraction = []
  value : 10 ^ (places - numeral.fraction.length) * ofDigits (numeral.whole ++ numeral.fraction) =
    count

/-- Bounds on a count of small units hold without the zeros at its end. -/
theorem Numeral.Counts.moderate {negative : Bool} {count : Nat}
    (counts : numeral.Counts negative places count) (whole : count < halfWay * 10 ^ places)
    (part : count % 10 ^ places ≠ 0 → count < 2 ^ 62 * 10 ^ places) : numeral.Moderate := by
  have total : numeral.fraction.length + (places - numeral.fraction.length) = places :=
    Nat.add_sub_cancel' counts.fits
  constructor
  · apply lt_of_trimmed (places - numeral.fraction.length)
    rw [total, counts.value]
    exact whole
  · intro nonempty
    apply lt_of_trimmed (places - numeral.fraction.length)
    rw [total, counts.value]
    exact part fun none => nonempty (counts.trimmed none)

/-- The text of a count of small units is that of a numeral for it. -/
theorem exists_counts (negative : Bool) (places count : Nat) :
    ∃ numeral : Numeral, numeral.Plain ∧ numeral.Counts negative places count ∧
      trimFraction (signed negative (positional places count)) = numeral.text := by
  have plain := Numeral.plain_ofCount negative places count
  have length := Numeral.length_fraction_ofCount negative places count
  obtain ⟨zeros, size, value⟩ := (Numeral.ofCount negative places count).ofDigits_trimmed
  rw [length] at size
  rw [Numeral.ofDigits_ofCount] at value
  refine ⟨(Numeral.ofCount negative places count).trimmed, plain.trimmed, ⟨rfl, rfl, ?_, ?_, ?_⟩, ?_⟩
  · omega
  · intro none
    have dropped : (Numeral.ofCount negative places count).fraction.reverse.dropWhile (· == '0') =
        [] := by
      unfold Numeral.ofCount
      rw [none]
      split
      · rfl
      · exact dropWhile_padded_zero places
    rw [Numeral.trimmed, dropped]
    rfl
  · have rest : places - (Numeral.ofCount negative places count).trimmed.fraction.length = zeros := by
      omega
    rw [rest]
    exact value.symm
  · rw [← Numeral.text_ofCount, trimFraction_text plain]

/-- A count of small units as a numeral. The bound on a count that is not whole is lower. -/
theorem trimFraction_positional (negative : Bool) {count : Nat}
    (whole : count < halfWay * 10 ^ places)
    (part : count % 10 ^ places ≠ 0 → count < 2 ^ 62 * 10 ^ places) :
    ∃ numeral : Numeral, numeral.Plain ∧ numeral.Moderate ∧
      trimFraction (signed negative (positional places count)) = numeral.text := by
  obtain ⟨numeral, plain, counts, text⟩ := exists_counts negative places count
  exact ⟨numeral, plain, counts.moderate whole part, text⟩

/-! ## Doubles as counts of small units -/

open Float.Model in
theorem unpackExponent_toNat (bits : BitVec 64) :
    (@UnpackedFloat.unpackExponent Format.binary64 bits).toNat = bits.toNat / 2 ^ 52 % 2 ^ 11 := by
  simp [UnpackedFloat.unpackExponent, BitVec.extractLsb, Nat.shiftRight_eq_div_pow]

open Float.Model in
theorem biased_ne_of_isFinite (finite : x.isFinite = true) :
    x.toBits.toNat / 2 ^ 52 % 2 ^ 11 ≠ 2047 := by
  intro top
  have ones : @UnpackedFloat.unpackExponent Format.binary64 x.toModel.toBits.toBitVec = -1#11 := by
    apply BitVec.eq_of_toNat_eq
    rw [unpackExponent_toNat]
    exact top
  change (UnpackedFloat.unpack Format.binary64 x.toModel.toBits.toBitVec).isFinite = true at finite
  unfold UnpackedFloat.unpack at finite
  simp only at finite
  rw [if_pos ones] at finite
  split at finite <;> cases finite

theorem Binary.ofFloat_eq (x : Float) :
    Binary.ofFloat x =
      if x.toBits.toNat / 2 ^ 52 % 2 ^ 11 = 2047 then
        if x.toBits.toNat % 2 ^ 52 = 0 then .infinite (x.toBits.toNat / 2 ^ 63 % 2 == 1)
        else .notANumber
      else if x.toBits.toNat / 2 ^ 52 % 2 ^ 11 = 0 then
        .finite (x.toBits.toNat / 2 ^ 63 % 2 == 1) (x.toBits.toNat % 2 ^ 52) (-1074)
      else
        .finite (x.toBits.toNat / 2 ^ 63 % 2 == 1) (x.toBits.toNat % 2 ^ 52 + 2 ^ 52)
          ((x.toBits.toNat / 2 ^ 52 % 2 ^ 11 : Nat) - 1075) :=
  rfl

theorem Binary.ofFloat_of_isFinite (finite : x.isFinite = true) :
    ∃ negative mantissa exponent, Binary.ofFloat x = .finite negative mantissa exponent ∧
      mantissa < 2 ^ 53 ∧ exponent ≤ 971 := by
  have low := biased_ne_of_isFinite finite
  have bounded : x.toBits.toNat / 2 ^ 52 % 2 ^ 11 < 2 ^ 11 := Nat.mod_lt _ (by decide)
  have fraction : x.toBits.toNat % 2 ^ 52 < 2 ^ 52 := Nat.mod_lt _ (by decide)
  rw [Binary.ofFloat_eq, if_neg low]
  split
  · exact ⟨_, _, _, rfl, by omega, by decide⟩
  · exact ⟨_, _, _, rfl, by omega, by omega⟩

theorem roundDiv_cases (dividend divisor : Nat) :
    roundDiv dividend divisor = dividend / divisor ∨
      roundDiv dividend divisor = dividend / divisor + 1 := by
  unfold roundDiv
  dsimp only
  split
  · exact .inl rfl
  · split
    · exact .inr rfl
    · split
      · exact .inl rfl
      · exact .inr rfl

private theorem roundDiv_le (dividend divisor : Nat) :
    roundDiv dividend divisor ≤ dividend / divisor + 1 := by
  rcases roundDiv_cases dividend divisor with down | up
  · exact down ▸ Nat.le_succ _
  · exact Nat.le_of_eq up

private theorem roundDiv_one (dividend : Nat) : roundDiv dividend 1 = dividend := by
  simp [roundDiv, Nat.mod_one]

/-- The units that a double holds stay below the bounds on numerals. -/
theorem unitsOf_bounds (places : Nat) (bits : mantissa < 2 ^ 53) (range : exponent ≤ 971) :
    unitsOf mantissa exponent (-places) < halfWay * 10 ^ places ∧
      (unitsOf mantissa exponent (-places) % 10 ^ places ≠ 0 →
        unitsOf mantissa exponent (-places) < 2 ^ 62 * 10 ^ places) := by
  have scale : (-(-(places : Int))).toNat = places := by omega
  have unit : (-(places : Int)).toNat = 0 := by omega
  have positive : 0 < 10 ^ places := Nat.pow_pos (by decide)
  unfold unitsOf numerator denominator
  rw [scale, unit]
  change roundDiv (mantissa * 2 ^ exponent.toNat * 10 ^ places) (2 ^ (-exponent).toNat * 1) < _ ∧
    (roundDiv (mantissa * 2 ^ exponent.toNat * 10 ^ places) (2 ^ (-exponent).toNat * 1) % 10 ^ places ≠
      0 → roundDiv (mantissa * 2 ^ exponent.toNat * 10 ^ places) (2 ^ (-exponent).toNat * 1) < _)
  rw [Nat.mul_one]
  rcases Int.le_total 0 exponent with whole | part
  · have one : (-exponent).toNat = 0 := by omega
    rw [one, Nat.pow_zero, roundDiv_one, Nat.mul_mod_left]
    refine ⟨Nat.mul_lt_mul_of_pos_right ?_ positive, fun nonzero => absurd rfl nonzero⟩
    exact Doubles.mul_two_pow_lt_halfWayAt bits (by omega)
  · have one : exponent.toNat = 0 := by omega
    rw [one, Nat.pow_zero, Nat.mul_one]
    have rounded := roundDiv_le (mantissa * 10 ^ places) (2 ^ (-exponent).toNat)
    have quotient : mantissa * 10 ^ places / 2 ^ (-exponent).toNat ≤ mantissa * 10 ^ places :=
      Nat.div_le_self _ _
    have scaled : (mantissa + 1) * 10 ^ places ≤ 2 ^ 53 * 10 ^ places :=
      Nat.mul_le_mul_right _ bits
    rw [Nat.add_mul, Nat.one_mul] at scaled
    have small : roundDiv (mantissa * 10 ^ places) (2 ^ (-exponent).toNat) < 2 ^ 62 * 10 ^ places := by
      omega
    refine ⟨Nat.lt_of_lt_of_le small (Nat.mul_le_mul_right _ ?_), fun _ => small⟩
    exact Doubles.two_pow_le_halfWayAt (by decide)

/-! ## Shortest decimals -/

theorem le_of_inside {interval : Interval} {point here : Nat}
    (inside : (if interval.closed then
        decide (interval.low * here ≤ point) && decide (point ≤ interval.high * here)
      else decide (interval.low * here < point) && decide (point < interval.high * here)) = true) :
    point ≤ interval.high * here ∧ (interval.closed = false → point < interval.high * here) := by
  cases ends : interval.closed with
  | true =>
      simp only [ends, ↓reduceIte, Bool.and_eq_true, decide_eq_true_eq] at inside
      exact ⟨inside.2, fun opened => by cases opened⟩
  | false =>
      simp only [ends, Bool.false_eq_true, ↓reduceIte, Bool.and_eq_true, decide_eq_true_eq] at inside
      exact ⟨Nat.le_of_lt inside.2, fun _ => inside.2⟩

/-- A point that the search finds does not lie beyond the interval, nor at its end if that is
open. -/
theorem le_of_onGrid {interval : Interval} {power : Int} {count : Nat}
    (found : interval.onGrid exponent power = some count) :
    count * (2 ^ (-(exponent - 2)).toNat * 10 ^ power.toNat) ≤
        interval.high * (2 ^ (exponent - 2).toNat * 10 ^ (-power).toNat) ∧
      (interval.closed = false →
        count * (2 ^ (-(exponent - 2)).toNat * 10 ^ power.toNat) <
          interval.high * (2 ^ (exponent - 2).toNat * 10 ^ (-power).toNat)) := by
  unfold Interval.onGrid at found
  dsimp only at found
  split at found
  · next lower upper =>
      have nearest := Option.some.inj found
      rcases roundDiv_cases (interval.middle * (twoTo (exponent - 2).toNat * tenTo (-power).toNat))
        (twoTo (-(exponent - 2)).toNat * tenTo power.toNat) with down | up
      · rw [← nearest, down]
        exact le_of_inside lower
      · rw [← nearest, up]
        exact le_of_inside upper
  · next lower _ =>
      rw [← Option.some.inj found]
      exact le_of_inside lower
  · next _ upper =>
      rw [← Option.some.inj found]
      exact le_of_inside upper
  · cases found

theorem trim_spec (value : Scaled) :
    ∃ zeros : Nat, value.trim.power = value.power + zeros ∧
      value.coefficient = value.trim.coefficient * 10 ^ zeros := by
  fun_induction Scaled.trim value with
  | case1 value trailing ih =>
      obtain ⟨zeros, power, coefficient⟩ := ih
      refine ⟨zeros + 1, by rw [power]; dsimp only; omega, ?_⟩
      dsimp only at coefficient
      rw [Nat.pow_succ, ← Nat.mul_assoc, ← coefficient]
      omega
  | case2 value _ => exact ⟨0, by simp, by simp⟩

/-- What is found on a grid, without the zeros at the end of its digits. -/
theorem shortest_cases (mantissa : Nat) (exponent : Int) :
    shortest mantissa exponent = ⟨0, 0⟩ ∨
      ∃ place < 18, ∃ count,
        (Interval.around mantissa exponent).onGrid exponent
          (leadingPower (numerator mantissa exponent) (denominator exponent) - (place : Nat)) =
            some count ∧
        shortest mantissa exponent = Scaled.trim ⟨count,
          leadingPower (numerator mantissa exponent) (denominator exponent) - (place : Nat)⟩ := by
  unfold shortest
  dsimp only
  generalize search : List.findSome? _ (List.range 18) = found
  cases found with
  | none =>
      left
      rw [Option.getD_none, Scaled.trim, dif_neg (by simp)]
  | some value =>
      right
      obtain ⟨place, listed, here⟩ := List.exists_of_findSome?_eq_some search
      obtain ⟨count, found, rfl⟩ := Option.map_eq_some_iff.mp here
      exact ⟨place, List.mem_range.mp listed, count, found, rfl⟩

/-- A point on a grid lies below the half way mark beyond the largest number of its size. -/
theorem lt_of_onGrid_around {power : Int} {count : Nat} (bits : mantissa < 2 ^ 53)
    (found : (Interval.around mantissa exponent).onGrid exponent power = some count) :
    count * (2 ^ (-(exponent - 2)).toNat * 10 ^ power.toNat) <
      2 * (2 ^ 54 - 1) * (2 ^ (exponent - 2).toNat * 10 ^ (-power).toNat) := by
  obtain ⟨le, lt⟩ := le_of_onGrid found
  have positive : 0 < 2 ^ (exponent - 2).toNat * 10 ^ (-power).toNat :=
    Nat.mul_pos (Nat.two_pow_pos _) (Nat.pow_pos (by decide))
  rcases Nat.mod_two_eq_zero_or_one mantissa with even | odd
  · -- The largest mantissa is odd, so a closed interval ends before the mark.
    apply Nat.lt_of_le_of_lt le
    apply Nat.mul_lt_mul_of_pos_right _ positive
    change 4 * mantissa + 2 < _
    omega
  · have opened : (Interval.around mantissa exponent).closed = false := by
      simp [Interval.around, odd]
    apply Nat.lt_of_lt_of_le (lt opened)
    apply Nat.mul_le_mul_right
    change 4 * mantissa + 2 ≤ _
    omega

/-- A shortest decimal that is whole lies below the half way mark beyond the largest double. -/
theorem shortest_whole (bits : mantissa < 2 ^ 53) (range : exponent ≤ 971)
    (whole : 0 ≤ (shortest mantissa exponent).power) :
    (shortest mantissa exponent).coefficient * 10 ^ (shortest mantissa exponent).power.toNat <
      halfWay := by
  rcases shortest_cases mantissa exponent with none | ⟨place, _, count, found, trimmed⟩
  · rw [none, Nat.zero_mul]
    exact Doubles.halfWayAt_pos 970
  · rw [trimmed] at whole ⊢
    have below := lt_of_onGrid_around bits found
    generalize leadingPower (numerator mantissa exponent) (denominator exponent) - (place : Nat) =
      power at below whole ⊢
    obtain ⟨zeros, moved, coefficient⟩ := trim_spec ⟨count, power⟩
    dsimp only at moved coefficient
    generalize Scaled.trim ⟨count, power⟩ = value at whole moved coefficient ⊢
    have total : zeros + power.toNat = value.power.toNat + (-power).toNat := by omega
    have scaled : count * (2 ^ (-(exponent - 2)).toNat * 10 ^ power.toNat) =
        10 ^ (-power).toNat *
          (value.coefficient * 10 ^ value.power.toNat * 2 ^ (-(exponent - 2)).toNat) := by
      have powers : 10 ^ zeros * 10 ^ power.toNat = 10 ^ value.power.toNat * 10 ^ (-power).toNat := by
        rw [← Nat.pow_add, ← Nat.pow_add, total]
      rw [coefficient]
      calc value.coefficient * 10 ^ zeros * (2 ^ (-(exponent - 2)).toNat * 10 ^ power.toNat)
          = value.coefficient * 2 ^ (-(exponent - 2)).toNat * (10 ^ zeros * 10 ^ power.toNat) := by
            ring
        _ = _ := by rw [powers]; ring
    have mark : 2 * (2 ^ 54 - 1) * (2 ^ (exponent - 2).toNat * 10 ^ (-power).toNat) =
        10 ^ (-power).toNat * (2 * (2 ^ 54 - 1) * 2 ^ (exponent - 2).toNat) := by
      rw [← Nat.mul_assoc, Nat.mul_comm]
    rw [scaled, mark] at below
    have single := Nat.lt_of_mul_lt_mul_left below
    apply Nat.lt_of_le_of_lt (Nat.le_mul_of_pos_right _ (Nat.two_pow_pos _))
    exact Nat.lt_of_lt_of_le single (Doubles.two_mul_two_pow_le_halfWayAt (by omega))

theorem digitCount_le_iff {count : Nat} (some : 0 < count) :
    digitCount n ≤ count ↔ n < 10 ^ count :=
  Nat.length_toDigits_le_iff (by decide) some

/-- A number with few digits before the point that is no fraction has few digits at all. -/
theorem lt_of_leadingPower_le (positive : 0 < mantissa) (whole : 0 ≤ exponent)
    (lead : leadingPower (numerator mantissa exponent) (denominator exponent) ≤ 17) :
    mantissa * 2 ^ exponent.toNat < 10 ^ 18 := by
  have one : denominator exponent = 1 := by
    have none : (-exponent).toNat = 0 := by omega
    rw [denominator, none]
    rfl
  have some : 1 ≤ numerator mantissa exponent := Nat.mul_pos positive (Nat.two_pow_pos _)
  rw [leadingPower, one, if_pos some, Nat.div_one, Int.ofNat_eq_natCast] at lead
  have digits : digitCount (numerator mantissa exponent) ≤ 18 := by omega
  exact (digitCount_le_iff (by decide)).mp digits

private theorem around_high_lt (positive : 0 < mantissa) (bits : mantissa < 2 ^ 53)
    (small : 0 ≤ exponent → mantissa * 2 ^ exponent.toNat < 10 ^ 18) :
    (Interval.around mantissa exponent).high * 2 ^ (exponent - 2).toNat < 2 ^ 62 := by
  change (4 * mantissa + 2) * 2 ^ (exponent - 2).toNat < 2 ^ 62
  rcases Int.lt_or_le exponent 2 with low | high
  · have none : (exponent - 2).toNat = 0 := by omega
    rw [none]
    omega
  · have four : 2 ^ exponent.toNat = 4 * 2 ^ (exponent - 2).toNat := by
      have split : exponent.toNat = (exponent - 2).toNat + 2 := by omega
      rw [split, Nat.pow_add, Nat.mul_comm]
    have limit := small (by omega)
    rw [four] at limit
    have double : (4 * mantissa + 2) * 2 ^ (exponent - 2).toNat ≤
        8 * mantissa * 2 ^ (exponent - 2).toNat := Nat.mul_le_mul_right _ (by omega)
    have regroup : 8 * mantissa * 2 ^ (exponent - 2).toNat =
        2 * (mantissa * (4 * 2 ^ (exponent - 2).toNat)) := by ring
    omega

/-- A shortest decimal with a fraction has a moderate size. -/
theorem shortest_part (positive : 0 < mantissa) (bits : mantissa < 2 ^ 53)
    (part : (shortest mantissa exponent).power < 0) :
    (shortest mantissa exponent).coefficient <
      2 ^ 62 * 10 ^ (shortest mantissa exponent).power.natAbs := by
  rcases shortest_cases mantissa exponent with none | ⟨place, few, count, found, trimmed⟩
  · rw [none] at part
    exact absurd part (by decide)
  · rw [trimmed] at part ⊢
    have upper := (le_of_onGrid found).1
    obtain ⟨zeros, moved, coefficient⟩ := trim_spec ⟨count,
      leadingPower (numerator mantissa exponent) (denominator exponent) - (place : Nat)⟩
    dsimp only at moved coefficient
    have lead : leadingPower (numerator mantissa exponent) (denominator exponent) ≤ 17 := by omega
    have limit := around_high_lt positive bits fun whole => lt_of_leadingPower_le positive whole lead
    generalize leadingPower (numerator mantissa exponent) (denominator exponent) - (place : Nat) =
      power at upper part moved coefficient ⊢
    generalize Scaled.trim ⟨count, power⟩ = value at part moved coefficient ⊢
    have unit : power.toNat = 0 := by omega
    have scale : (-power).toNat = zeros + value.power.natAbs := by omega
    rw [unit, scale, coefficient, Nat.pow_zero, Nat.mul_one, Nat.pow_add] at upper
    -- The zeros taken off the count stand on both sides.
    have single : value.coefficient * 2 ^ (-(exponent - 2)).toNat ≤
        (Interval.around mantissa exponent).high * 2 ^ (exponent - 2).toNat *
          10 ^ value.power.natAbs := by
      apply Nat.le_of_mul_le_mul_left _ (Nat.pow_pos (by decide) : 0 < 10 ^ zeros)
      calc 10 ^ zeros * (value.coefficient * 2 ^ (-(exponent - 2)).toNat)
          = value.coefficient * 10 ^ zeros * 2 ^ (-(exponent - 2)).toNat := by ring
        _ ≤ _ := upper
        _ = _ := by ring
    apply Nat.lt_of_le_of_lt (Nat.le_mul_of_pos_right _ (Nat.two_pow_pos _))
    apply Nat.lt_of_le_of_lt single
    exact Nat.mul_lt_mul_of_pos_right limit (Nat.pow_pos (by decide))

/-! ## Formatted numbers -/

/-- A finite double without an exponent is a count of small units within the bounds on numerals. -/
theorem shortestWith_plain (finite : x.isFinite = true) :
    ∃ negative places count, shortestWith Scaled.plain x = signed negative (positional places count) ∧
      count < halfWay * 10 ^ places ∧
      (count % 10 ^ places ≠ 0 → count < 2 ^ 62 * 10 ^ places) := by
  obtain ⟨negative, mantissa, exponent, denoted, bits, range⟩ := Binary.ofFloat_of_isFinite finite
  unfold shortestWith
  rw [denoted]
  dsimp only
  split
  · refine ⟨negative, 0, 0, rfl, ?_, fun nonzero => absurd rfl nonzero⟩
    rw [Nat.pow_zero, Nat.mul_one]
    exact Doubles.halfWayAt_pos 970
  · next nonzero =>
      unfold Scaled.plain
      split
      · next whole =>
          refine ⟨negative, 0, _, rfl, ?_, fun part => absurd (Nat.mod_one _) part⟩
          rw [Nat.pow_zero, Nat.mul_one]
          exact shortest_whole bits range whole
      · next part =>
          have small := shortest_part (Nat.pos_of_ne_zero nonzero) bits (Int.not_le.mp part)
          have bound : 2 ^ 62 ≤ halfWay := Doubles.two_pow_le_halfWayAt (by decide)
          refine ⟨negative, _, _, rfl, ?_, fun _ => small⟩
          exact Nat.lt_of_lt_of_le small (Nat.mul_le_mul_right _ bound)

theorem fixed_positional (finite : x.isFinite = true) (places : Nat) :
    ∃ negative count, fixed places x = signed negative (positional places count) ∧
      count < halfWay * 10 ^ places ∧
      (count % 10 ^ places ≠ 0 → count < 2 ^ 62 * 10 ^ places) := by
  obtain ⟨negative, mantissa, exponent, denoted, bits, range⟩ := Binary.ofFloat_of_isFinite finite
  obtain ⟨whole, part⟩ := unitsOf_bounds places bits range
  refine ⟨negative, unitsOf mantissa exponent (-places), ?_, whole, part⟩
  rw [fixed, denoted]
  rfl

def Numeral.zero : Numeral := { negative := false, whole := ['0'], fraction := [], exponent := 0 }

theorem Numeral.plain_zero : Numeral.zero.Plain where
  whole_ne_nil := by decide
  whole := List.all_iff_forall_prop.mp (by decide)
  fraction := List.forall_mem_nil _
  exponent := rfl

theorem Numeral.moderate_zero : Numeral.zero.Moderate where
  whole := Nat.mul_pos (Doubles.halfWayAt_pos 970) (by decide)
  part := fun some => absurd rfl some

end Kerf.Decimal

namespace Kerf.Dialect

open Kerf.Decimal

/-- A finite double is written as a plain numeral of moderate size. -/
theorem format_numeral (dialect : Dialect) {x : Float} (finite : x.isFinite = true) :
    ∃ numeral : Numeral, numeral.Plain ∧ numeral.Moderate ∧
      (dialect.format x).toList = numeral.text := by
  have trimmed : ∃ numeral : Numeral, numeral.Plain ∧ numeral.Moderate ∧
      trimFraction (if dialect.precision < 0 then shortestWith Scaled.plain x
        else fixed dialect.precision.toNat x) = numeral.text := by
    split
    · obtain ⟨negative, places, count, text, whole, part⟩ := shortestWith_plain finite
      rw [text]
      exact trimFraction_positional negative whole part
    · obtain ⟨negative, count, text, whole, part⟩ :=
        fixed_positional finite dialect.precision.toNat
      rw [text]
      exact trimFraction_positional negative whole part
  obtain ⟨numeral, plain, moderate, text⟩ := trimmed
  simp only [format, text, String.toList_ofList]
  split
  · exact ⟨Numeral.zero, Numeral.plain_zero, Numeral.moderate_zero, rfl⟩
  · exact ⟨numeral, plain, moderate, rfl⟩

end Kerf.Dialect
