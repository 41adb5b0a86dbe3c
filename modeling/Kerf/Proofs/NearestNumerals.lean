import Kerf.Proofs.Numerals
import Kerf.Proofs.Reading
import Kerf.Proofs.WholeParts

/-!
# Nearest numerals

A double is written with a fixed number of places as the nearest count of small units, and a count
of small units is read as the nearest double. Both steps take ties to the even side, so that two
doubles are written alike whenever their texts are read as equal numbers. The bits of a double give
the number behind it, and positive doubles are in the order of their bits.
-/

set_option autoImplicit false

namespace Kerf.Doubles

open Float.Model Float.Model.UnpackedFloat
open Kerf.Decimal (Binary nearest)

/-! ## The number behind a double -/

/-- A whole number with a sign. -/
def oriented (negative : Bool) (count : Nat) : ℤ := if negative then -count else count

theorem natAbs_oriented (negative : Bool) (count : Nat) : (oriented negative count).natAbs = count := by
  cases negative <;> simp [oriented]

private theorem unpackMantissa_toNat (bits : BitVec 64) :
    (@unpackMantissa Format.binary64 bits).toNat = bits.toNat % 2 ^ 52 := by
  simp [unpackMantissa, BitVec.extractLsb]

private theorem ofBitVec_unpackSign (bits : BitVec 64) :
    Sign.ofBitVec (@unpackSign Format.binary64 bits) =
      if bits.toNat / 2 ^ 63 % 2 == 1 then .negative else .positive := by
  have bit : (@unpackSign Format.binary64 bits).toNat = bits.toNat / 2 ^ 63 % 2 := by
    simp [unpackSign, BitVec.extractLsb, Nat.shiftRight_eq_div_pow]
  unfold Sign.ofBitVec
  rcases Nat.mod_two_eq_zero_or_one (bits.toNat / 2 ^ 63) with zero | one
  · rw [zero] at bit ⊢
    rw [if_pos (BitVec.eq_of_toNat_eq bit)]
    rfl
  · rw [one] at bit ⊢
    rw [if_neg]
    · rfl
    · intro none
      rw [none] at bit
      cases bit

/-- The number behind a finite double is its value. -/
theorem value_of_binary {x : Float} {negative : Bool} {mantissa : Nat} {exponent : Int}
    (denoted : Binary.ofFloat x = .finite negative mantissa exponent) :
    value x = oriented negative mantissa * 2 ^ exponent := by
  have biased : (@unpackExponent Format.binary64 x.toModel.toBits.toBitVec).toNat =
      x.toBits.toNat / 2 ^ 52 % 2 ^ 11 := Decimal.unpackExponent_toNat _
  have fraction : (@unpackMantissa Format.binary64 x.toModel.toBits.toBitVec).toNat =
      x.toBits.toNat % 2 ^ 52 := unpackMantissa_toNat _
  have sign : Sign.ofBitVec (@unpackSign Format.binary64 x.toModel.toBits.toBitVec) =
      if x.toBits.toNat / 2 ^ 63 % 2 == 1 then .negative else .positive := ofBitVec_unpackSign _
  have top := fun infinite : @unpackExponent Format.binary64 x.toModel.toBits.toBitVec = -1#11 =>
    biased.symm.trans (congrArg BitVec.toNat infinite)
  have bottom : @unpackExponent Format.binary64 x.toModel.toBits.toBitVec = 0#11 ↔
      x.toBits.toNat / 2 ^ 52 % 2 ^ 11 = 0 := by
    rw [← biased]
    exact ⟨fun zero => congrArg BitVec.toNat zero, fun zero => BitVec.eq_of_toNat_eq zero⟩
  rw [Binary.ofFloat_eq] at denoted
  change valueOf (unpack Format.binary64 x.toModel.toBits.toBitVec) = _
  unfold UnpackedFloat.unpack
  dsimp only
  rw [sign]
  generalize (x.toBits.toNat / 2 ^ 63 % 2 == 1) = minus at denoted ⊢
  split at denoted
  · split at denoted <;> cases denoted
  · next finite =>
      rw [if_neg (fun infinite => finite (top infinite))]
      split at denoted
      · next low =>
          cases denoted
          rw [if_pos (bottom.mpr low), ← fraction]
          split
          · next none =>
              rw [none]
              cases negative <;> exact (zero_mul _).symm
          · rw [bottom.mpr low]
            cases negative <;> rfl
      · next high =>
          cases denoted
          rw [if_neg (fun low => high (bottom.mp low)), ← fraction, ← biased]
          rw [Nat.add_comm _ (2 ^ 52), ← toNat_implicit]
          cases negative <;> rfl

/-! ## Doubles in the order of their bits -/

/-- The number behind the bits of a double without a sign. -/
def sizeAt (bits : Nat) : ℚ :=
  if bits / 2 ^ 52 = 0 then ((bits % 2 ^ 52 : ℕ) : ℚ) * 2 ^ (-1074 : ℤ)
  else ((bits % 2 ^ 52 + 2 ^ 52 : ℕ) : ℚ) * 2 ^ ((bits / 2 ^ 52 : ℕ) - 1075 : ℤ)

private theorem monotone_sizeAt : Monotone sizeAt := by
  refine monotone_nat_of_le_succ fun bits => ?_
  have doubled : ∀ exponent : ℕ, (2 : ℚ) ^ ((exponent + 1 : ℕ) - 1075 : ℤ) =
      2 * 2 ^ (exponent - 1075 : ℤ) := by
    intro exponent
    rw [← zpow_one_add₀ two_ne_zero]
    congr 1
    push_cast
    ring
  unfold sizeAt
  by_cases carry : bits % 2 ^ 52 + 1 < 2 ^ 52
  · rw [show (bits + 1) / 2 ^ 52 = bits / 2 ^ 52 by omega,
      show (bits + 1) % 2 ^ 52 = bits % 2 ^ 52 + 1 by omega]
    split
    · gcongr
      omega
    · gcongr
      omega
  · -- The fraction starts again at zero, and the exponent goes up.
    rw [show (bits + 1) / 2 ^ 52 = bits / 2 ^ 52 + 1 by omega,
      show (bits + 1) % 2 ^ 52 = 0 by omega, if_neg (Nat.succ_ne_zero _),
      show bits % 2 ^ 52 = 2 ^ 52 - 1 by omega]
    split
    · next low =>
        rw [low]
        gcongr <;> norm_num
    · rw [doubled, ← mul_assoc]
      gcongr
      norm_num

theorem value_eq_sizeAt {x : Float} (finite : x.isFinite = true) (positive : 0 < value x) :
    value x = sizeAt x.toBits.toNat := by
  have below : x.toBits.toNat < 2 ^ 63 := by
    have unsigned := signBit_of_pos positive
    unfold Scalar.signBit at unsigned
    rw [beq_eq_false_iff_ne, ne_eq, ← UInt64.toNat_inj] at unsigned
    change ¬ x.toBits.toNat >>> 63 = 1 at unsigned
    have := x.toBits.toNat_lt
    omega
  have exponent : x.toBits.toNat / 2 ^ 52 % 2 ^ 11 = x.toBits.toNat / 2 ^ 52 := by omega
  have biased := Decimal.biased_ne_of_isFinite finite
  have sign : (x.toBits.toNat / 2 ^ 63 % 2 == 1) = false := by
    rw [beq_eq_false_iff_ne]
    omega
  have denoted := Binary.ofFloat_eq x
  rw [if_neg biased, exponent, sign] at denoted
  unfold sizeAt
  split at denoted
  · next low =>
      rw [if_pos low, value_of_binary denoted]
      rfl
  · next high =>
      rw [if_neg high, value_of_binary denoted]
      rfl

/-- Below a positive double there are fewer positive ones. -/
theorem doublesUpTo_lt {x y : Float} (left : Fits 971 x) (right : Fits 971 y)
    (positive : 0 < value y) (less : value x < value y) :
    Scalar.doublesUpTo x < Scalar.doublesUpTo y := by
  have zero := between_zero.fits
  have counted : ∀ bits : UInt64, sizeAt bits.toNat < value y → bits < y.toBits := by
    intro bits below
    rw [value_eq_sizeAt (fits_iff_isFinite.mp right) positive] at below
    exact UInt64.lt_iff_toNat_lt.mpr (monotone_sizeAt.reflect_lt below)
  unfold Scalar.doublesUpTo
  rw [if_pos ((lt_iff zero right).mpr (by rwa [value_zero]))]
  apply counted
  split
  · next above =>
      rw [lt_iff zero left, value_zero] at above
      rwa [← value_eq_sizeAt (fits_iff_isFinite.mp left) above]
  · simpa [sizeAt] using positive

/-! ## Reading a decimal -/

private theorem powersOfTen_spec : ∀ power : Fin 23,
    Fits 971 (Float.exactlyRepresentablePowersOfTen[power]) ∧
      value (Float.exactlyRepresentablePowersOfTen[power]) = 10 ^ power.val := by
  decide +kernel

private theorem round_whole_spec {count : Nat} (positive : 0 < count) :
    Canonical (roundWithAccuracy Format.binary64 .positive (count * 2 ^ 53) (-53) .exact) ∧
      Rounds count
        (valueOf (roundWithAccuracy Format.binary64 .positive (count * 2 ^ 53) (-53) .exact)) := by
  have large : (1 : ℚ) ≤ count := by exact_mod_cast positive
  have size : ((count * 2 ^ 53 : ℕ) : ℚ) * 2 ^ (-53 : ℤ) = count := by
    push_cast
    rw [mul_assoc]
    norm_num
  have leading : (2 : ℚ) ^ (0 : ℤ) ≤ |(count : ℚ)| := by
    rw [zpow_zero, abs_of_nonneg (by positivity)]
    exact large
  have enough := le_lastBit leading
  have spec := roundWithAccuracy_spec .positive (-53) (represents_exact (count * 2 ^ 53))
    (by positivity) (by rw [size]; omega)
  rw [size] at spec
  simpa only [Sign.apply, Int.cast_one, one_mul] using spec

private theorem ofScientific_spec (count : Nat) {places : Nat} (few : places ≤ 2048) :
    Canonical (UnpackedFloat.ofScientific Format.binary64 count (-(places : Int))) ∧
      Rounds ((count : ℚ) / 10 ^ places)
        (valueOf (UnpackedFloat.ofScientific Format.binary64 count (-(places : Int)))) := by
  unfold UnpackedFloat.ofScientific
  split
  · next zero =>
      subst zero
      refine ⟨trivial, ?_⟩
      rw [Nat.cast_zero, zero_div]
      exact rounds_zero
  · next nonzero =>
      have positive : 0 < count := Nat.pos_of_ne_zero nonzero
      rw [if_neg (by change ¬ (-(places : Int) > 2 ^ 11); omega),
        if_neg (by change ¬ (-(places : Int) < -(2 ^ 11 + (count.log2 : Int))); omega)]
      split
      · next whole =>
          have none : places = 0 := by omega
          subst none
          have scaled : count <<< Format.binary64.mantissaBits * 10 ^ (-((0 : ℕ) : Int)).toNat =
              count * 2 ^ 53 := by
            rw [Nat.shiftLeft_eq]
            exact Nat.mul_one _
          rw [pow_zero, div_one]
          simp only [UnpackedFloat.mul, scaled]
          exact round_whole_spec positive
      · obtain ⟨canonical, rounds⟩ := div_finite_spec .positive .positive 0 0 positive
          (Nat.pow_pos (by decide : 0 < 10) : 0 < 10 ^ (- -(places : Int)).toNat)
        refine ⟨canonical, ?_⟩
        have exact : valueOf (.finite .positive count 0 positive) /
            valueOf (.finite .positive (10 ^ (- -(places : Int)).toNat) 0
              (Nat.pow_pos (by decide : 0 < 10))) = (count : ℚ) / 10 ^ places := by
          simp [valueOf, Sign.apply]
        rw [exact] at rounds
        exact rounds

private theorem value_count {count : Nat} (small : count < 2 ^ 53) :
    Fits 971 count.toUInt64.toFloat ∧ value count.toUInt64.toFloat = count := by
  have word : count.toUInt64.toNat = count := by
    rw [Nat.toUInt64_eq, UInt64.toNat_ofNat', Nat.mod_eq_of_lt (by omega)]
  have spec := value_toFloat (by rw [word]; omega : count.toUInt64.toNat ≤ 2 ^ 53)
  rwa [word] at spec

/-- A decimal is read as the double nearest to it. -/
theorem rounds_nearest {count places : Nat} (few : places ≤ 2048)
    (fits : Fits 971 (nearest count (-places))) :
    Rounds ((count : ℚ) / 10 ^ places) (value (nearest count (-places))) := by
  unfold nearest Float.ofScientific at *
  rw [Int.natAbs_neg, Int.natAbs_natCast] at *
  split
  · next small =>
      obtain ⟨finite, whole⟩ := value_count small.1
      obtain ⟨power, size⟩ := powersOfTen_spec ⟨places, Nat.lt_succ_of_le small.2⟩
      have bound : (count : ℚ) ≤ 2 ^ 1023 :=
        le_trans (by exact_mod_cast small.1.le : (count : ℚ) ≤ 2 ^ 53)
          (pow_le_pow_right₀ (by norm_num) (by norm_num))
      have least : (1 : ℚ) ≤ 10 ^ places := one_le_pow₀ (by norm_num)
      split
      · have scale : value (Float.exactlyRepresentablePowersOfTen[
            (⟨places, Nat.lt_succ_of_le small.2⟩ : Fin 23)]) ≠ 0 := by
          rw [size]
          positivity
        have quotient := (value_div finite power scale (by
          rw [whole, size, abs_of_nonneg (div_nonneg count.cast_nonneg (by positivity))]
          exact (div_le_self count.cast_nonneg least).trans bound)).2
        rw [whole, size] at quotient
        exact quotient
      · next none =>
          have zero : places = 0 := by simpa using none
          subst zero
          have product := (value_mul finite power (by
            rw [whole, size, pow_zero, mul_one, abs_of_nonneg count.cast_nonneg]
            exact bound)).2
          rw [whole, size, pow_zero, mul_one] at product
          rw [pow_zero, div_one]
          exact product
  · next large =>
      rw [dif_neg large] at fits
      have power : (if decide (-(places : Int) < 0) = true then Int.negOfNat places
          else Int.ofNat places) = -(places : Int) := by
        rcases Nat.eq_zero_or_pos places with rfl | some
        · rfl
        · rw [if_pos (by simpa using some), Int.negOfNat_eq]
          rfl
      dsimp only at fits ⊢
      rw [power] at fits ⊢
      obtain ⟨canonical, rounds⟩ := ofScientific_spec count few
      have within := within_of_pack canonical fits
      change Rounds _ (valueOf (Float.Model.pack
        (UnpackedFloat.ofScientific Format.binary64 count (-(places : Int)))).unpack)
      rw [unpack_pack_of_canonical canonical within]
      exact rounds

end Kerf.Doubles

namespace Kerf.Decimal

open Kerf.Doubles
open Kerf.Yaml (floatOf)

theorem Numeral.rounds_magnitude? {numeral : Numeral} (plain : numeral.Plain)
    (moderate : numeral.Moderate) (few : numeral.fraction.length ≤ 300) :
    ∃ size, numeral.magnitude? = some size ∧ Fits 971 size ∧
      Rounds ((ofDigits (numeral.whole ++ numeral.fraction) : ℚ) / 10 ^ numeral.fraction.length)
        (value size) := by
  obtain ⟨size, found, fits⟩ := magnitude?_of_moderate plain moderate
  refine ⟨size, found, fits, ?_⟩
  have digits := plain.isDigit
  have leading := List.head?_dropWhile_not (· == '0') (numeral.whole ++ numeral.fraction)
  have whole := moderate.whole
  unfold Numeral.magnitude? at found
  rw [plain.exponent] at found
  rw [← ofDigits_dropWhile] at whole ⊢
  generalize (numeral.whole ++ numeral.fraction).dropWhile (· == '0') = all at *
  cases all with
  | nil =>
      cases found
      rw [value_zero]
      simpa [ofDigits] using rounds_zero
  | cons c rest =>
      have nonzero : c ≠ '0' := by simpa using leading
      have reach := length_lt_of_lt (digits c List.mem_cons_self) nonzero
        (Nat.le_of_lt (halfWayAt_lt_ten 970 79 (by decide))) whole
      have all : (c :: rest).drop digitLimit = [] :=
        List.drop_eq_nil_of_le (by rw [List.length_cons, digitLimit]; omega)
      simp only [Int.ofNat_eq_natCast, List.length_cons, all, List.isEmpty_nil, Int.zero_sub,
        ↓reduceIte] at found
      rw [if_neg (by simp), if_neg (by omega), if_neg (by omega)] at found
      split at found
      · cases found
      · cases found
        exact rounds_nearest (by omega) fits

/-! ## Writing a decimal -/

open Float.Model.UnpackedFloat in
/-- Rounding a quotient is what rounding does to a mantissa with a fraction behind it. -/
theorem roundDiv_eq (dividend : Nat) {divisor : Nat} (positive : 0 < divisor) :
    roundDiv dividend divisor =
      (ExtendedMantissa.ofMantissaAndAccuracy (dividend / divisor)
        (accuracyOfFraction (dividend % divisor) divisor)).roundedMantissa := by
  unfold roundDiv accuracyOfFraction
  dsimp only
  generalize dividend / divisor = quotient
  generalize dividend % divisor = remainder
  rcases Nat.eq_zero_or_pos remainder with rfl | some
  · rw [if_pos (by omega), if_pos rfl]
    rfl
  · rw [if_neg (Nat.ne_of_gt some)]
    rcases Nat.lt_trichotomy (2 * remainder) divisor with less | tie | more
    · rw [if_pos less, Nat.compare_eq_lt.mpr less]
      rfl
    · rw [if_neg (by omega), if_neg (by omega), Nat.compare_eq_eq.mpr tie]
      change _ = quotient + quotient % 2
      split <;> omega
    · rw [if_neg (by omega), if_pos more, Nat.compare_eq_gt.mpr more]
      rfl

/-- A quotient is rounded to the nearest whole number. -/
theorem nearest_roundDiv (dividend : Nat) {divisor : Nat} (positive : 0 < divisor) :
    Nearest (roundDiv dividend divisor) ((dividend : ℚ) / divisor) := by
  rw [roundDiv_eq dividend positive]
  exact (represents_fraction dividend positive).nearest

private theorem nearest_unitsOf (mantissa : Nat) (exponent : Int) (places : Nat) :
    Nearest (unitsOf mantissa exponent (-places)) ((mantissa : ℚ) * 2 ^ exponent * 10 ^ places) := by
  have scale : (-(-(places : Int))).toNat = places := by omega
  have unit : (-(places : Int)).toNat = 0 := by omega
  have rounded := nearest_roundDiv (mantissa * 2 ^ exponent.toNat * 10 ^ places)
    (Nat.two_pow_pos (-exponent).toNat)
  have exact : ((mantissa * 2 ^ exponent.toNat * 10 ^ places : ℕ) : ℚ) / (2 ^ (-exponent).toNat : ℕ) =
      (mantissa : ℚ) * 2 ^ exponent * 10 ^ places := by
    have split : exponent = (exponent.toNat : ℤ) - ((-exponent).toNat : ℤ) := by omega
    push_cast
    conv_rhs => rw [split, zpow_sub₀ (by norm_num), zpow_natCast, zpow_natCast]
    ring
  rw [exact] at rounded
  unfold unitsOf numerator denominator
  rw [scale, unit]
  change Nearest (roundDiv (mantissa * 2 ^ exponent.toNat * 10 ^ places)
    (2 ^ (-exponent).toNat * 1) : ℕ) _
  rw [Nat.mul_one]
  exact rounded

/-- Bounds within which a count of small units can be read. -/
def Bounded (places count : Nat) : Prop :=
  count < halfWay * 10 ^ places ∧ (count % 10 ^ places ≠ 0 → count < 2 ^ 62 * 10 ^ places)

/-- The text of a count of small units, without zeros at the end of the fraction. -/
def countText (places : Nat) (count : ℤ) : List Char :=
  trimFraction (signed (decide (count < 0)) (positional places count.natAbs))

theorem trimFraction_zero (negative : Bool) (places : Nat) :
    trimFraction (signed negative (positional places 0)) = signed negative ['0'] := by
  obtain ⟨numeral, plain, counts, text⟩ := exists_counts negative places 0
  have whole : numeral.whole = ['0'] := by
    rw [counts.whole, Nat.zero_div]
    rfl
  rw [text, Numeral.text, counts.sign, whole, counts.trimmed (Nat.zero_mod _)]
  rfl

/-- A count of at least one unit is not written as a negative zero. -/
theorem trimFraction_ne {negative : Bool} {places count : Nat} (positive : 0 < count) :
    trimFraction (signed negative (positional places count)) ≠ ['-', '0'] := by
  obtain ⟨numeral, plain, counts, text⟩ := exists_counts negative places count
  rw [text, Numeral.text_eq]
  intro same
  split at same
  · have zero : numeral.unsignedText = ['0'] := (List.cons.inj same).2
    rw [Numeral.unsignedText, List.append_eq_singleton_iff] at zero
    rcases zero with ⟨none, _⟩ | ⟨whole, part⟩
    · exact plain.whole_ne_nil none
    · have fraction : numeral.fraction = [] := by
        by_contra some
        rw [if_neg (by simpa using some)] at part
        cases part
      have value := counts.value
      rw [whole, fraction, List.append_nil] at value
      have nothing : ofDigits ['0'] = 0 := rfl
      rw [nothing, Nat.mul_zero] at value
      omega
  · obtain ⟨c, tail, shape, digit⟩ := unsignedText_eq_cons plain
    rw [shape] at same
    cases same
    exact absurd digit (by decide)

/-! ## Reading a count -/

/-- The text of a count is read as the double nearest to it. -/
theorem rounds_countText {places : Nat} {count : ℤ} (few : places ≤ 300)
    (bounded : Bounded places count.natAbs) :
    ∃ heard, floatOf (countText places count) = some heard ∧ Fits 971 heard ∧
      Rounds ((count : ℚ) / 10 ^ places) (value heard) := by
  obtain ⟨numeral, plain, counts, text⟩ := exists_counts (decide (count < 0)) places count.natAbs
  obtain ⟨size, found, fits, rounds⟩ := numeral.rounds_magnitude? plain
    (counts.moderate bounded.1 bounded.2) (counts.fits.trans few)
  have exact : (ofDigits (numeral.whole ++ numeral.fraction) : ℚ) / 10 ^ numeral.fraction.length =
      (count.natAbs : ℚ) / 10 ^ places := by
    rw [div_eq_div_iff (by positivity) (by positivity), ← counts.value]
    push_cast
    nth_rewrite 1 [← Nat.sub_add_cancel counts.fits]
    rw [pow_add]
    ring
  rw [exact, Nat.cast_natAbs, Int.cast_abs] at rounds
  rw [countText, text, floatOf_text plain, Numeral.value?, found, counts.sign]
  refine ⟨_, rfl, ?_⟩
  dsimp only
  rcases lt_or_ge count 0 with negative | positive
  · rw [decide_eq_true negative, if_pos rfl, value_neg fits]
    rw [abs_of_neg (by exact_mod_cast negative), neg_div] at rounds
    have mirrored := rounds.neg
    rw [neg_neg] at mirrored
    exact ⟨Doubles.fits_neg fits (by decide) (by decide), mirrored⟩
  · rw [decide_eq_false (by omega), if_neg (by decide)]
    rw [abs_of_nonneg (by exact_mod_cast positive)] at rounds
    exact ⟨fits, rounds⟩

private theorem length_countText {places : Nat} {count : ℤ} (bounded : Bounded places count.natAbs) :
    (countText places count).length ≤ 318 + places := by
  obtain ⟨numeral, plain, counts, text⟩ := exists_counts (decide (count < 0)) places count.natAbs
  have small : count.natAbs / 10 ^ places < 10 ^ (4 * 79) := by
    apply Nat.div_lt_of_lt_mul
    rw [Nat.mul_comm]
    exact bounded.1.trans (Nat.mul_lt_mul_of_pos_right (halfWayAt_lt_ten 970 79 (by decide))
      (Nat.pow_pos (by decide)))
  have whole : numeral.whole.length ≤ 4 * 79 := by
    rw [counts.whole]
    exact (digitCount_le_iff (by decide : 0 < 4 * 79)).mpr small
  have fraction := counts.fits
  have body : numeral.unsignedText.length ≤ 317 + places := by
    rw [Numeral.unsignedText, List.length_append]
    split
    · rw [List.length_nil]
      omega
    · rw [List.length_cons]
      omega
  rw [countText, text, Numeral.text_eq]
  split
  · rw [List.length_cons]
    omega
  · omega

end Kerf.Decimal

namespace Kerf

open Kerf.Decimal Kerf.Doubles
open Kerf.Yaml (floatOf)

/-- A count that is not negative zero is written as it is. -/
theorem countText_oriented (negative : Bool) (places count : Nat) :
    (if trimFraction (signed negative (positional places count)) = ['-', '0'] then ['0']
      else trimFraction (signed negative (positional places count))) =
        countText places (oriented negative count) := by
  rw [countText, natAbs_oriented]
  rcases Nat.eq_zero_or_pos count with rfl | positive
  · rw [trimFraction_zero, trimFraction_zero]
    cases negative <;> rfl
  · have sign : decide (oriented negative count < 0) = negative := by
      cases negative <;> simp [oriented, positive]
    rw [if_neg (trimFraction_ne positive), sign]

/-- A finite double is written as the nearest count of small units. -/
theorem Dialect.format_count {dialect : Dialect} (exact : 0 ≤ dialect.precision) {x : Float}
    (finite : x.isFinite = true) :
    ∃ count : ℤ, Nearest count (value x * 10 ^ dialect.precision.toNat) ∧
      Bounded dialect.precision.toNat count.natAbs ∧
      (dialect.format x).toList = countText dialect.precision.toNat count := by
  obtain ⟨negative, mantissa, exponent, denoted, bits, range⟩ := Binary.ofFloat_of_isFinite finite
  have bounds := unitsOf_bounds dialect.precision.toNat bits range
  have units := nearest_unitsOf mantissa exponent dialect.precision.toNat
  refine ⟨oriented negative (unitsOf mantissa exponent (-dialect.precision.toNat)), ?_, ?_, ?_⟩
  · rw [value_of_binary denoted]
    cases negative with
    | false => exact units
    | true =>
        have mirrored := units.neg
        rw [← neg_mul, ← neg_mul] at mirrored
        simpa [oriented] using mirrored
  · rw [natAbs_oriented]
    exact bounds
  · rw [← countText_oriented, format, if_neg (not_lt.mpr exact), fixed, denoted]
    exact String.toList_ofList

/-- How a number is written and read back: as a count of small units, and as the double nearest to
that count. -/
structure Written (dialect : Dialect) (x : Float) (count : ℤ) (heard : Float) : Prop where
  nearest : Nearest count (value x * 10 ^ dialect.precision.toNat)
  text : (dialect.format x).toList = countText dialect.precision.toNat count
  short : (dialect.format x).toList.length ≤ 318 + dialect.precision.toNat
  read : floatOf (dialect.format x).toList = some heard
  fits : Fits 971 heard
  rounds : Rounds ((count : ℚ) / 10 ^ dialect.precision.toNat) (value heard)

/-- A dialect with a number of places that dialects may have. -/
structure Dialect.Placed (dialect : Dialect) : Prop where
  least : 0 ≤ dialect.precision
  most : dialect.precision ≤ 8

section

variable {dialect : Dialect} {x y : Float}

theorem exists_written (placed : dialect.Placed) (finite : x.isFinite = true) :
    ∃ count heard, Written dialect x count heard := by
  obtain ⟨count, nearest, bounded, text⟩ := Dialect.format_count placed.least finite
  have most := placed.most
  obtain ⟨heard, read, fits, rounds⟩ := rounds_countText (by omega) bounded
  rw [← text] at read
  refine ⟨count, heard, nearest, text, ?_, read, fits, rounds⟩
  rw [text]
  exact length_countText bounded

/-- The double read back is no farther from what is written than the double that was written. -/
theorem Written.close {count : ℤ} {heard : Float} (written : Written dialect x count heard)
    (finite : x.isFinite = true) :
    |(count : ℚ) - value heard * 10 ^ dialect.precision.toNat| ≤
      |value x * 10 ^ dialect.precision.toNat - count| := by
  have scale : (0 : ℚ) < 10 ^ dialect.precision.toNat := by positivity
  have precise := precise_of_canonical (canonical_of_fits (fits_iff_isFinite.mpr finite))
  have closest := written.rounds.closest precise
  have spread : ∀ z : ℚ, |(count : ℚ) / 10 ^ dialect.precision.toNat - z| *
      10 ^ dialect.precision.toNat = |(count : ℚ) - z * 10 ^ dialect.precision.toNat| := by
    intro z
    rw [← abs_of_pos scale, ← abs_mul, abs_of_pos scale, sub_mul, div_mul_cancel₀ _ scale.ne']
  have scaled := mul_le_mul_of_nonneg_right closest scale.le
  rw [spread, spread, abs_sub_comm (count : ℚ) (valueOf _ * _)] at scaled
  exact scaled

/-- Numbers whose texts are read as equal numbers are written alike: two neighbouring counts can only
be read as one double when both of them come from a tie, and a tie goes to an even count. -/
theorem Written.format_eq {count other : ℤ} {heard heard' : Float}
    (left : Written dialect x count heard) (right : Written dialect y other heard')
    (finite : x.isFinite = true) (finite' : y.isFinite = true) (same : (heard == heard') = true) :
    dialect.format x = dialect.format y := by
  have equal : value heard = value heard' := (value_eq_iff left.fits right.fits).mp same
  have first := left.close finite
  have second := right.close finite'
  have half := left.nearest.1
  have half' := right.nearest.1
  rw [equal] at first
  have reach : |(count : ℚ) - other| ≤
      |value x * 10 ^ dialect.precision.toNat - count| +
        |value y * 10 ^ dialect.precision.toNat - other| := by
    refine (abs_sub_le _ (value heard' * 10 ^ dialect.precision.toNat) _).trans ?_
    rw [abs_sub_comm _ (other : ℚ)]
    exact add_le_add first second
  have counts : count = other := by
    by_contra apart
    have gap : (1 : ℚ) ≤ |(count : ℚ) - other| := by
      exact_mod_cast Int.one_le_abs (sub_ne_zero.mpr apart)
    have even := left.nearest.2 (by linarith)
    have even' := right.nearest.2 (by linarith)
    have least : |count - other| ≤ 1 := by
      have : |(count : ℚ) - other| ≤ 1 := by linarith
      exact_mod_cast this
    obtain ⟨n, rfl⟩ := even
    obtain ⟨m, rfl⟩ := even'
    rw [abs_le] at least
    omega
  apply String.toList_inj.mp
  rw [left.text, right.text, counts]

private theorem least_unit (placed : dialect.Placed) :
    (2 : ℚ) ^ (-1022 : ℤ) ≤ 1 / 10 ^ dialect.precision.toNat := by
  have few : dialect.precision.toNat ≤ 8 := by
    have most := placed.most
    omega
  calc (2 : ℚ) ^ (-1022 : ℤ) ≤ 2 ^ (-27 : ℤ) := zpow_le_zpow_right₀ (by norm_num) (by norm_num)
    _ ≤ 1 / 10 ^ 8 := by norm_num
    _ ≤ 1 / 10 ^ dialect.precision.toNat :=
        one_div_le_one_div_of_le (by positivity) (pow_le_pow_right₀ (by norm_num) few)

/-- A number is read back as a positive one exactly when it is more than half a unit. -/
theorem Written.pos_iff {count : ℤ} {heard : Float} (written : Written dialect x count heard)
    (placed : dialect.Placed) :
    0 < value heard ↔ 1 / 2 < value x * 10 ^ dialect.precision.toNat := by
  rw [← written.nearest.pos_iff]
  constructor
  · intro above
    by_contra negative
    have below : (count : ℚ) / 10 ^ dialect.precision.toNat ≤ 0 :=
      div_nonpos_of_nonpos_of_nonneg (by exact_mod_cast not_lt.mp negative) (by positivity)
    have zero : Precise 0 := ⟨0, 0, by norm_num, by norm_num, by norm_num⟩
    exact absurd (written.rounds.le_of_precise zero below) (not_le.mpr above)
  · intro some
    have unit : (2 : ℚ) ^ (-1022 : ℤ) ≤ count / 10 ^ dialect.precision.toNat := by
      refine (least_unit placed).trans (div_le_div_of_nonneg_right ?_ (by positivity))
      exact_mod_cast some
    have positive : (0 : ℚ) < count / 10 ^ dialect.precision.toNat :=
      lt_of_lt_of_le (zpow_pos (by norm_num) _) unit
    exact lt_of_lt_of_le (mul_pos leastShare_bounds.1 positive) (written.rounds.share unit)

theorem Written.nonneg {count : ℤ} {heard : Float} (written : Written dialect x count heard)
    (above : 0 ≤ value x) : 0 ≤ value heard := by
  have positive : 0 ≤ count := written.nearest.nonneg (by positivity)
  exact written.rounds.nonneg (div_nonneg (by exact_mod_cast positive) (by positivity))

end

end Kerf
