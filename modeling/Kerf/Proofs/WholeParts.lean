import Kerf.Proofs.Intervals

/-!
# Whole parts of doubles

Within the limits of words, the whole part of a double and the next whole number are those of the
number that it stands for.
-/

set_option autoImplicit false

namespace Kerf.Doubles

open Float.Model
open Float.Model.UnpackedFloat

/-! ## Whole parts -/

/-- The fraction is cut off. -/
theorem roundToInt_positive (mantissa : Nat) (exponent : Int) :
    roundToInt .positive mantissa exponent = ⌊(mantissa : ℚ) * 2 ^ exponent⌋ := by
  unfold roundToInt decreaseExponent shiftToExponent
  dsimp only
  rw [mantissa_shift, mantissa_ofMantissaAndAccuracy]
  rcases le_total 0 exponent with whole | fraction
  · obtain ⟨count, rfl⟩ := Int.eq_ofNat_of_zero_le whole
    have power : (mantissa : ℚ) * 2 ^ (count : ℤ) = ((mantissa * 2 ^ count : ℕ) : ℤ) := by
      push_cast
      rw [zpow_natCast]
    rw [power, Int.floor_intCast]
    simp [Sign.apply, Nat.shiftLeft_eq]
  · obtain ⟨count, rfl⟩ : ∃ count : Nat, exponent = -count := ⟨exponent.natAbs, by omega⟩
    have power : (mantissa : ℚ) * 2 ^ (-count : ℤ) = (mantissa : ℚ) / ((2 ^ count : ℕ) : ℚ) := by
      push_cast
      rw [zpow_neg, zpow_natCast, div_eq_mul_inv]
    rw [power, Rat.floor_natCast_div_natCast]
    simp [Sign.apply, Nat.shiftLeft_eq]

section

variable {x : Float}

theorem toNat_toUInt64 (fits : Fits 971 x) (low : 0 ≤ value x) (high : value x < 2 ^ 64) :
    (x.toUInt64.toNat : ℤ) = ⌊value x⌋ := by
  change ((UInt64.ofNatClamp (x.toModel.unpack.toInt 0 (UInt64.size - 1)).toNat).toNat : ℤ) = _
  have whole : x.toModel.unpack.toInt 0 (UInt64.size - 1) = ⌊value x⌋ := by
    unfold value at *
    unfold Fits at fits
    generalize x.toModel.unpack = u at *
    cases u with
    | infinity sign => exact fits.elim
    | notANumber => exact fits.elim
    | zero sign => exact Int.floor_zero.symm
    | finite sign mantissa exponent positive =>
        cases sign with
        | negative =>
            rw [valueOf_negative] at low
            exact absurd low (not_le.mpr (neg_lt_zero.mpr (valueOf_positive exponent positive)))
        | positive =>
            change roundToInt .positive mantissa exponent = _
            rw [roundToInt_positive]
            simp [valueOf, Sign.apply]
  have above : 0 ≤ ⌊value x⌋ := Int.floor_nonneg.mpr low
  have below : ⌊value x⌋ < 2 ^ 64 := Int.floor_lt.mpr (by exact_mod_cast high)
  rw [whole, UInt64.toNat_ofNatClamp_of_lt (by rw [UInt64.size]; omega)]
  omega

private theorem toInt_toInt64 {word : UInt64} (small : word.toNat < 2 ^ 63) :
    word.toInt64.toInt = word.toNat := by
  change word.toBitVec.toInt = word.toBitVec.toNat
  exact BitVec.toInt_eq_toNat_of_lt (by change 2 * word.toNat < 2 ^ 64; omega)

theorem rounds_toFloat (word : UInt64) :
    Fits 971 word.toFloat ∧ Rounds word.toNat (value word.toFloat) := by
  obtain ⟨canonical, rounds⟩ := normalize_spec word.toNat 0 .positive
  rw [zpow_zero, mul_one, Int.cast_natCast] at rounds
  have bound : (word.toNat : ℚ) ≤ 2 ^ 64 := by exact_mod_cast word.toNat_lt.le
  exact fits_of_rounds canonical rounds (by
    rw [abs_of_nonneg (by positivity)]
    exact bound.trans (pow_le_pow_right₀ (by norm_num) (by norm_num)))

theorem value_toFloat {word : UInt64} (small : word.toNat ≤ 2 ^ 53) :
    Fits 971 word.toFloat ∧ value word.toFloat = word.toNat := by
  obtain ⟨fits, rounds⟩ := rounds_toFloat word
  have precise : Precise (word.toNat : ℚ) :=
    ⟨word.toNat, 0, by simp, by rw [abs_of_nonneg (by positivity)]; exact_mod_cast small, by norm_num⟩
  exact ⟨fits, rounds.eq_of_precise precise⟩

theorem value_toFloat_pos_iff (word : UInt64) : 0 < value word.toFloat ↔ 0 < word.toNat := by
  obtain ⟨_, rounds⟩ := rounds_toFloat word
  constructor
  · intro above
    by_contra none
    have few : word.toNat = 0 := by omega
    rw [(value_toFloat (by omega)).2, few, Nat.cast_zero] at above
    exact lt_irrefl _ above
  · intro some
    have whole : ((1 : ℤ) : ℚ) ≤ word.toNat := by exact_mod_cast some
    exact lt_of_lt_of_le (by norm_num)
      (rounds.ge_of_precise (precise_intCast (by norm_num) (by norm_num)) whole)

/-- The leading bit has the sign of the value. -/
theorem valueOf_unpack_signed (bits : BitVec Format.binary64.numBits) :
    0 ≤ ((Sign.ofBitVec (unpackSign bits)).apply 1 : ℤ) * valueOf (unpack Format.binary64 bits) := by
  have finite (sign : Sign) (mantissa : Nat) (exponent : Int) (some : 0 < mantissa) :
      0 ≤ ((sign.apply 1 : ℤ) : ℚ) * valueOf (.finite sign mantissa exponent some) := by
    have size := (valueOf_positive exponent some).le
    cases sign with
    | positive => simpa [Sign.apply] using size
    | negative =>
        rw [valueOf_negative]
        simpa [Sign.apply] using size
  unfold UnpackedFloat.unpack
  dsimp only
  split
  · split
    · exact (mul_zero _).ge
    · exact (mul_zero _).ge
  · split
    · split
      · exact (mul_zero _).ge
      · exact finite _ _ _ _
    · exact finite _ _ _ _

private theorem unpackSign_of_pos {bits : BitVec Format.binary64.numBits}
    (positive : 0 < valueOf (unpack Format.binary64 bits)) : unpackSign bits = 0#1 := by
  by_contra signed
  have sign : Sign.ofBitVec (unpackSign bits) = .negative := if_neg signed
  have product := valueOf_unpack_signed bits
  rw [sign] at product
  norm_num [Sign.apply] at product
  linarith

private theorem unpackSign_of_neg {bits : BitVec Format.binary64.numBits}
    (negative : valueOf (unpack Format.binary64 bits) < 0) : unpackSign bits ≠ 0#1 := by
  intro unsigned
  have sign : Sign.ofBitVec (unpackSign bits) = .positive := if_pos unsigned
  have product := valueOf_unpack_signed bits
  rw [sign] at product
  norm_num [Sign.apply] at product
  linarith

theorem signBit_of_pos (positive : 0 < value x) : Scalar.signBit x = false := by
  have sign := congrArg BitVec.toNat (unpackSign_of_pos positive)
  have cut : (x.toModel.toBits.toNat >>> 63) % 2 ^ 1 = 0 :=
    (BitVec.extractLsb'_toNat _ _ _).symm.trans sign
  unfold Scalar.signBit
  rw [beq_eq_false_iff_ne]
  intro bit
  have whole : x.toModel.toBits.toNat >>> 63 = 1 := congrArg UInt64.toNat bit
  omega

private theorem signBit_of_neg (negative : value x < 0) : Scalar.signBit x = true := by
  by_contra unsigned
  have bit : ¬ x.toModel.toBits >>> 63 = 1 := fun set => unsigned (beq_iff_eq.mpr set)
  refine unpackSign_of_neg negative (BitVec.eq_of_toNat_eq ?_)
  have whole : x.toModel.toBits.toNat >>> 63 ≠ 1 := fun set => bit (UInt64.toNat_inj.mp set)
  have few : x.toModel.toBits.toNat >>> 63 < 2 := by
    have := x.toModel.toBits.toNat_lt
    omega
  have cut : (x.toModel.toBits.toNat >>> 63) % 2 ^ 1 = 0 := by omega
  exact (BitVec.extractLsb'_toNat _ _ _).trans cut

theorem wholeLimit_spec : Fits 971 Scalar.wholeLimit ∧ value Scalar.wholeLimit = 2 ^ 52 := by
  decide +kernel

/-- Below the limit, a number without its fraction is the whole part of its size. -/
theorem size_spec (fits : Fits 971 x) (small : |value x| < 2 ^ 52) :
    Fits 971 x.abs.toUInt64.toFloat ∧ value x.abs.toUInt64.toFloat = ⌊|value x|⌋ := by
  have count := toNat_toUInt64 (fits_abs fits) (value_abs fits ▸ abs_nonneg _)
    (value_abs fits ▸ small.trans (by norm_num))
  rw [value_abs fits] at count
  have few : x.abs.toUInt64.toNat ≤ 2 ^ 53 := by
    have : ⌊|value x|⌋ < 2 ^ 52 := Int.floor_lt.mpr (by exact_mod_cast small)
    omega
  obtain ⟨finite, whole⟩ := value_toFloat few
  exact ⟨finite, whole.trans (by exact_mod_cast count)⟩

theorem abs_lt_wholeLimit (fits : Fits 971 x) :
    x.abs < Scalar.wholeLimit ↔ |value x| < 2 ^ 52 := by
  rw [lt_iff (fits_abs fits) wholeLimit_spec.1, value_abs fits, wholeLimit_spec.2]

theorem truncate_spec (fits : Fits 971 x) (positive : 0 < value x) (small : value x < 2 ^ 52) :
    Fits 971 (Scalar.truncate x) ∧ value (Scalar.truncate x) = ⌊value x⌋ := by
  rw [← abs_of_pos positive] at small
  have size := size_spec fits small
  rw [Scalar.truncate, if_pos ((abs_lt_wholeLimit fits).mpr small), signBit_of_pos positive]
  rwa [abs_of_pos positive] at size

theorem ceiling_spec (fits : Fits 971 x) (positive : 0 < value x) (small : value x < 2 ^ 52) :
    Fits 971 (Scalar.ceiling x) ∧ value (Scalar.ceiling x) = ⌈value x⌉ := by
  obtain ⟨finite, whole⟩ := truncate_spec fits positive small
  have few : ⌊value x⌋ < 2 ^ 52 := Int.floor_lt.mpr (by exact_mod_cast small)
  have some : 0 ≤ ⌊value x⌋ := Int.floor_nonneg.mpr positive.le
  unfold Scalar.ceiling
  dsimp only
  split
  · next fraction =>
      rw [lt_iff finite fits, whole] at fraction
      have next : ⌈value x⌉ = ⌊value x⌋ + 1 := by
        rw [Int.ceil_eq_iff]
        push_cast
        exact ⟨by linarith, (Int.lt_floor_add_one (value x)).le⟩
      have exact : Between ⌊value x⌋ ⌊value x⌋ (Scalar.truncate x) := ⟨finite, whole.ge, whole.le⟩
      have sum := exact.add between_one (by omega) (by omega)
      rw [next]
      exact ⟨sum.fits, le_antisymm sum.high sum.low⟩
  · next even =>
      rw [lt_iff finite fits, whole, not_lt] at even
      have same : ⌈value x⌉ = ⌊value x⌋ := by
        refine le_antisymm (Int.ceil_le.mpr even) (Int.floor_le_ceil _)
      rw [same]
      exact ⟨finite, whole⟩

theorem wordLimits :
    (Fits 971 (-9223372036854775808.0) ∧ value (-9223372036854775808.0) = -2 ^ 63) ∧
      Fits 971 9223372036854775808.0 ∧ value 9223372036854775808.0 = 2 ^ 63 := by
  decide +kernel

private theorem toInt_toWord (fits : Fits 971 x) (positive : 0 ≤ value x)
    (small : value x < 2 ^ 63) : (Scalar.toWord x).toInt = ⌊value x⌋ := by
  obtain ⟨least, most⟩ := wordLimits
  have above : x ≥ -9223372036854775808.0 := by
    rw [ge_iff_le, le_iff least.1 fits, least.2]
    exact le_trans (by norm_num) positive
  have below : x < 9223372036854775808.0 := by
    rwa [lt_iff fits most.1, most.2]
  have unsigned : ¬ x < 0 := by
    rwa [lt_iff fits between_zero.fits, value_zero, not_lt]
  have size : value x.abs = value x := by
    rw [value_abs fits, abs_of_nonneg positive]
  have word := toNat_toUInt64 (fits_abs fits) (size ▸ positive)
    (size ▸ small.trans (by norm_num))
  rw [size] at word
  have few : ⌊value x⌋ < 2 ^ 63 := Int.floor_lt.mpr (by exact_mod_cast small)
  unfold Scalar.toWord
  rw [decide_eq_true above, decide_eq_true below, Bool.and_self, if_pos rfl]
  dsimp only
  rw [if_neg unsigned, toInt_toInt64 (by omega)]
  exact word

theorem toWord_spec {count : ℕ} (fits : Fits 971 x) (whole : value x = count) (small : count < 2 ^ 63) :
    (Scalar.toWord x).toInt = count := by
  rw [toInt_toWord fits (by rw [whole]; positivity) (by rw [whole]; exact_mod_cast small), whole]
  exact Int.floor_natCast count

theorem between_truncate {bound : ℤ} (between : Between (-bound) bound x) (small : bound < 2 ^ 52) :
    Between (-bound) bound (Scalar.truncate x) := by
  have size : |value x| ≤ bound := abs_le.mpr ⟨by exact_mod_cast between.low, between.high⟩
  have limited : |value x| < 2 ^ 52 := size.trans_lt (by exact_mod_cast small)
  obtain ⟨finite, whole⟩ := size_spec between.fits limited
  have some : 0 ≤ ⌊|value x|⌋ := Int.floor_nonneg.mpr (abs_nonneg _)
  have few : ⌊|value x|⌋ ≤ bound := Int.cast_le.mp ((Int.floor_le _).trans size)
  have cut : Between 0 bound x.abs.toUInt64.toFloat :=
    ⟨finite, by rw [whole]; exact_mod_cast some, by rw [whole]; exact_mod_cast few⟩
  rw [Scalar.truncate, if_pos ((abs_lt_wholeLimit between.fits).mpr limited)]
  dsimp only
  split
  · exact cut.neg.mono (le_refl _) (by omega)
  · exact cut.mono (by omega) (le_refl _)

theorem between_abs {bound : ℤ} (between : Between (-bound) bound x) :
    Between 0 bound x.abs := by
  refine ⟨fits_abs between.fits, ?_, ?_⟩
  · rw [value_abs between.fits]
    exact_mod_cast abs_nonneg _
  · rw [value_abs between.fits]
    exact abs_le.mpr ⟨by exact_mod_cast between.low, between.high⟩

theorem between_nearestWhole {bound : ℤ} (between : Between (-bound) bound x)
    (small : bound < 2 ^ 52) : Between (-(bound + 1)) (bound + 1) (Scalar.nearestWhole x) := by
  have size := between_abs between
  have positive : 0 ≤ bound := Int.cast_le.mp (size.low.trans size.high)
  have whole := between_truncate (size.mono (by omega) (le_refl _)) small
  have rounded : ∀ up : Prop, ∀ [Decidable up], Between (-(bound + 1)) (bound + 1)
      (if up then Scalar.truncate x.abs + 1 else Scalar.truncate x.abs) := by
    intro up _
    split
    · exact (whole.add between_one (by omega) (by omega)).mono (by omega) (le_refl _)
    · exact whole.mono (by omega) (by omega)
  unfold Scalar.nearestWhole
  dsimp only
  split
  · exact (rounded _).neg.mono (le_refl _) (by omega)
  · exact rounded _

/-- Without its sign, a number loses less than one with its fraction. -/
theorem truncate_abs_spec {bound : ℤ} (between : Between (-bound) bound x) (small : bound < 2 ^ 52) :
    Fits 971 (Scalar.truncate x.abs) ∧ value (Scalar.truncate x.abs) = ⌊|value x|⌋ := by
  have size := between_abs between
  have same := value_abs between.fits
  rcases (abs_nonneg (value x)).eq_or_lt with zero | positive
  · have none : Between (-0) 0 x.abs := ⟨size.fits, by simp [same], by simp [same, ← zero]⟩
    have cut := between_truncate none (by norm_num)
    rw [← zero, Int.floor_zero]
    exact ⟨cut.fits, le_antisymm cut.high cut.low⟩
  · rw [← same] at positive ⊢
    exact truncate_spec size.fits positive (size.high.trans_lt (by exact_mod_cast small))

/-- The nearest whole number is at most one away. -/
theorem abs_nearestWhole_sub_le {bound : ℤ} (between : Between (-bound) bound x)
    (small : bound < 2 ^ 52) : |value (Scalar.nearestWhole x) - value x| ≤ 1 := by
  obtain ⟨finite, whole⟩ := truncate_abs_spec between small
  have lower := Int.floor_le |value x|
  have upper := (Int.lt_floor_add_one |value x|).le
  have some : 0 ≤ ⌊|value x|⌋ := Int.floor_nonneg.mpr (abs_nonneg _)
  have few : ⌊|value x|⌋ < 2 ^ 52 := by
    have high : |value x| ≤ bound := abs_le.mpr ⟨by exact_mod_cast between.low, between.high⟩
    have : ⌊|value x|⌋ ≤ bound := Int.cast_le.mp (lower.trans high)
    omega
  have exact : Between ⌊|value x|⌋ ⌊|value x|⌋ (Scalar.truncate x.abs) :=
    ⟨finite, whole.ge, whole.le⟩
  have next := exact.add between_one (by omega) (by omega)
  obtain ⟨size, chosen⟩ : ∃ size, (if x.abs - Scalar.truncate x.abs >= 0.5 then
    Scalar.truncate x.abs + 1 else Scalar.truncate x.abs) = size := ⟨_, rfl⟩
  have fits : Fits 971 size := by
    rw [← chosen]
    split
    · exact next.fits
    · exact finite
  have close : |value size - (|value x|)| ≤ 1 := by
    rw [← chosen, abs_le]
    split
    · have low := next.low
      have high := next.high
      push_cast at low high
      constructor <;> linarith
    · rw [whole]
      constructor <;> linarith
  unfold Scalar.nearestWhole
  dsimp only
  rw [chosen]
  rcases lt_trichotomy (value x) 0 with negative | zero | positive
  · rw [signBit_of_neg negative, if_pos rfl, value_neg fits]
    rwa [abs_of_neg negative, ← abs_neg, neg_sub', neg_neg] at close
  · rw [zero, abs_zero, sub_zero] at close
    rw [zero, sub_zero]
    split
    · rwa [value_neg fits, abs_neg]
    · exact close
  · rw [signBit_of_pos positive]
    rwa [abs_of_pos positive] at close

end

end Kerf.Doubles
