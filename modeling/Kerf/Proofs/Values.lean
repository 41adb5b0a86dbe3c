import Kerf.Proofs.Magnitudes
import Kerf.Proofs.Rounding

/-!
# The numbers that doubles stand for

Finite doubles stand for rational numbers. Sums, products and quotients that do not overflow are the
exact results, rounded; comparing doubles compares the numbers.
-/

set_option autoImplicit false

namespace Kerf.Doubles

open Float.Model
open Float.Model.UnpackedFloat

/-! ## Mantissas with further bits -/

/-- Whether a number has a mantissa with a round and a sticky bit. -/
def Represents (number : ExtendedMantissa) (x : ℚ) : Prop :=
  match number.roundBit, number.stickyBit with
  | false, false => x = number.mantissa
  | false, true => number.mantissa < x ∧ x < number.mantissa + 1 / 2
  | true, false => x = number.mantissa + 1 / 2
  | true, true => number.mantissa + 1 / 2 < x ∧ x < number.mantissa + 1

theorem represents_exact (mantissa : Nat) :
    Represents (ExtendedMantissa.ofMantissaAndAccuracy mantissa .exact) mantissa :=
  rfl

theorem Represents.bounds {number : ExtendedMantissa} {x : ℚ} (represents : Represents number x) :
    number.mantissa ≤ x ∧ x < number.mantissa + 1 := by
  obtain ⟨mantissa, roundBit, stickyBit⟩ := number
  cases roundBit <;> cases stickyBit <;> simp only [Represents] at represents ⊢
  · rw [represents]
    constructor <;> linarith
  · constructor <;> linarith
  · rw [represents]
    constructor <;> linarith
  · constructor <;> linarith

theorem Represents.shiftRightOne {number : ExtendedMantissa} {x : ℚ}
    (represents : Represents number x) : Represents number.shiftRightOne (x / 2) := by
  obtain ⟨mantissa, roundBit, stickyBit⟩ := number
  have parts : ((mantissa % 2 : ℕ) : ℚ) + 2 * ((mantissa / 2 : ℕ) : ℚ) = mantissa := by
    exact_mod_cast Nat.mod_add_div mantissa 2
  rcases Nat.mod_two_eq_zero_or_one mantissa with even | odd
  · rw [even, Nat.cast_zero, zero_add] at parts
    cases roundBit <;> cases stickyBit <;>
      simp only [Represents, ExtendedMantissa.shiftRightOne, even, ← parts, bne_self_eq_false,
        Bool.or_false, Bool.or_true] at represents ⊢
    · linarith
    all_goals constructor <;> linarith
  · rw [odd, Nat.cast_one] at parts
    have bit : (1 != 0) = true := rfl
    cases roundBit <;> cases stickyBit <;>
      simp only [Represents, ExtendedMantissa.shiftRightOne, odd, ← parts, bit,
        Bool.or_false, Bool.or_true] at represents ⊢
    · linarith
    all_goals constructor <;> linarith

theorem Represents.shift {number : ExtendedMantissa} {x : ℚ} (represents : Represents number x)
    (count : Nat) : Represents (number >>> count) (x / 2 ^ count) := by
  change Represents (count.repeat ExtendedMantissa.shiftRightOne number) _
  induction count with
  | zero => simpa [Nat.repeat] using represents
  | succ count ih =>
      rw [Nat.repeat, pow_succ, ← div_div]
      exact ih.shiftRightOne

theorem nearest_of_lt {count : ℤ} {x : ℚ} (close : |x - count| < 1 / 2) : Nearest count x :=
  ⟨close.le, fun tie => absurd tie close.ne⟩

theorem Represents.nearest {number : ExtendedMantissa} {x : ℚ} (represents : Represents number x) :
    Nearest number.roundedMantissa x := by
  obtain ⟨mantissa, roundBit, stickyBit⟩ := number
  cases roundBit with
  | false =>
      cases stickyBit with
      | false =>
          have same : x = mantissa := represents
          rw [same]
          exact nearest_self mantissa
      | true =>
          obtain ⟨low, high⟩ : (mantissa : ℚ) < x ∧ x < mantissa + 1 / 2 := represents
          apply nearest_of_lt
          change |x - (mantissa : ℤ)| < 1 / 2
          rw [abs_lt]
          push_cast
          constructor <;> linarith
  | true =>
      cases stickyBit with
      | false =>
          have half : x = mantissa + 1 / 2 := represents
          change Nearest (mantissa + mantissa % 2 : ℕ) x
          rw [half]
          rcases Nat.mod_two_eq_zero_or_one mantissa with even | odd
          · rw [even, add_zero]
            refine ⟨?_, fun _ => ?_⟩
            · norm_num
            · exact_mod_cast Nat.even_iff.mpr even
          · rw [odd]
            refine ⟨?_, fun _ => ?_⟩
            · push_cast
              rw [abs_le]
              constructor <;> linarith
            · exact_mod_cast (Nat.odd_iff.mpr odd).add_one
      | true =>
          obtain ⟨low, high⟩ : (mantissa : ℚ) + 1 / 2 < x ∧ x < mantissa + 1 := represents
          apply nearest_of_lt
          change |x - ((mantissa + 1 : ℕ) : ℤ)| < 1 / 2
          rw [abs_lt]
          push_cast
          constructor <;> linarith

/-! ## Rounded numbers -/

/-- The number that an unpacked double stands for; zero for what is no finite number. -/
def valueOf : UnpackedFloat → ℚ
  | .finite sign mantissa exponent _ => (sign.apply mantissa : ℤ) * 2 ^ exponent
  | _ => 0

/-- Whether an unpacked number is finite and has the mantissa and exponent of a double, if there were
no largest exponent. -/
def Canonical : UnpackedFloat → Prop
  | .zero _ => True
  | .finite _ mantissa exponent _ =>
      mantissa < 2 ^ 53 ∧ -1074 ≤ exponent ∧ (exponent = -1074 ∨ 2 ^ 52 ≤ mantissa)
  | _ => False

variable {mantissa : Nat} {exponent : Int} {u : UnpackedFloat}

theorem lastBit_of_mantissa (positive : 0 < mantissa) (exponent : Int) {x : ℚ}
    (low : (mantissa : ℚ) * 2 ^ exponent ≤ x) (high : x < (mantissa + 1) * 2 ^ exponent) :
    lastBit x = max (mantissa.log2 + exponent - 52) (-1074) := by
  have power : (0 : ℚ) < 2 ^ exponent := zpow_pos (by norm_num) _
  have start : (2 : ℚ) ^ mantissa.log2 ≤ mantissa := by
    exact_mod_cast Nat.log2_self_le positive.ne'
  have stop : (mantissa : ℚ) + 1 ≤ 2 ^ (mantissa.log2 + 1) := by
    exact_mod_cast Nat.lt_log2_self
  have size : |x| = x := abs_of_nonneg (le_trans (by positivity) low)
  apply lastBit_eq
  · rw [size, zpow_add₀ (by norm_num), zpow_natCast]
    exact (mul_le_mul_of_nonneg_right start power.le).trans low
  · rw [size, add_right_comm, zpow_add₀ (by norm_num)]
    refine high.trans_le (mul_le_mul_of_nonneg_right ?_ power.le)
    exact_mod_cast stop

private theorem grid_eq_lastBit {accuracy : Accuracy} {x : ℚ}
    (represents : Represents (ExtendedMantissa.ofMantissaAndAccuracy mantissa accuracy) x)
    (positive : 0 < x) (fine : exponent ≤ lastBit (x * 2 ^ exponent)) :
    grid mantissa exponent = lastBit (x * 2 ^ exponent) := by
  have power : (0 : ℚ) < 2 ^ exponent := zpow_pos (by norm_num) _
  obtain ⟨low, high⟩ := represents.bounds
  rw [mantissa_ofMantissaAndAccuracy] at low high
  have scaledHigh := mul_lt_mul_of_pos_right high power
  rcases Nat.eq_zero_or_pos mantissa with rfl | nonzero
  · -- Less than one unit is left, so only the smallest grid is fine enough.
    have small : |x * 2 ^ exponent| < 2 ^ exponent := by
      rw [abs_of_pos (mul_pos positive power)]
      simpa using scaledHigh
    have log := (Int.lt_zpow_iff_log_lt (b := 2) (by norm_num)
      (abs_pos.mpr (mul_pos positive power).ne')).mp (by exact_mod_cast small)
    rw [lastBit] at fine ⊢
    rw [grid]
    simp only [Nat.log2_zero]
    omega
  · have scaledLow := mul_le_mul_of_nonneg_right low power.le
    rw [lastBit_of_mantissa nonzero exponent scaledLow scaledHigh] at fine ⊢
    rw [grid]
    omega

/-- A mantissa of at most 53 bits and the next one keeps its grid or moves up by one. -/
theorem grid_of_le (small : mantissa ≤ 2 ^ 53) (low : -1074 ≤ exponent) :
    mantissa < 2 ^ 53 ∧ grid mantissa exponent = exponent ∨
      mantissa = 2 ^ 53 ∧ grid mantissa exponent = exponent + 1 := by
  rcases Nat.lt_or_eq_of_le small with below | rfl
  · refine .inl ⟨below, ?_⟩
    have bits := log2_lt_of_lt (by decide) below
    rw [grid]
    omega
  · refine .inr ⟨rfl, ?_⟩
    rw [grid, Nat.log2_two_pow]
    omega

/-- The result of rounding has the rounded mantissa, or half of it with the next exponent. -/
theorem roundWithAccuracy_cases (sign : Sign) (mantissa : Nat) (exponent : Int) (accuracy : Accuracy) :
    let rounded := (onGrid mantissa exponent accuracy).roundedMantissa
    rounded = 0 ∧ roundWithAccuracy Format.binary64 sign mantissa exponent accuracy = .zero sign ∨
      ∃ kept power positive, roundWithAccuracy Format.binary64 sign mantissa exponent accuracy =
          .finite sign kept power positive ∧
        (kept = rounded ∧ rounded < 2 ^ 53 ∧ power = grid mantissa exponent ∨
          kept = 2 ^ 52 ∧ rounded = 2 ^ 53 ∧ power = grid mantissa exponent + 1) := by
  intro rounded
  have low : -1074 ≤ grid mantissa exponent := by
    rw [grid]
    omega
  have small : rounded ≤ 2 ^ 53 := by
    have below := mantissa_onGrid_lt mantissa exponent accuracy
    rcases roundedMantissa_cases (onGrid mantissa exponent accuracy) with same | ⟨_, up⟩
    · exact same.le.trans below.le
    · exact up.le.trans below
  have kept := mantissa_onGrid rounded (grid mantissa exponent) .exact
  unfold roundWithAccuracy
  simp only [shiftToTargetExponent_eq]
  change rounded = 0 ∧ (if zero : (onGrid rounded (grid mantissa exponent) .exact).mantissa = 0
    then UnpackedFloat.zero sign else _) = _ ∨ _
  rcases grid_of_le small low with ⟨below, same⟩ | ⟨full, next⟩
  · rw [same, sub_self, Int.toNat_zero, pow_zero, Nat.div_one] at kept
    rcases Nat.eq_zero_or_pos rounded with zero | nonzero
    · exact .inl ⟨zero, dif_pos (kept.trans zero)⟩
    · have some : (onGrid rounded (grid mantissa exponent) .exact).mantissa ≠ 0 :=
        kept.trans_ne nonzero.ne'
      exact .inr ⟨_, _, Nat.pos_of_ne_zero some, dif_neg some, .inl ⟨kept, below, same⟩⟩
  · have half : (onGrid rounded (grid mantissa exponent) .exact).mantissa = 2 ^ 52 := by
      rw [kept, next, add_sub_cancel_left, full]
      rfl
    have some : (onGrid rounded (grid mantissa exponent) .exact).mantissa ≠ 0 :=
      half.trans_ne (by decide)
    exact .inr ⟨_, _, Nat.pos_of_ne_zero some, dif_neg some, .inr ⟨half, full, next⟩⟩

theorem valueOf_finite (sign : Sign) (positive : 0 < mantissa) :
    valueOf (.finite sign mantissa exponent positive) =
      (sign.apply 1 : ℤ) * (mantissa * 2 ^ exponent) := by
  cases sign <;> simp [valueOf, Sign.apply]

theorem rounds_signed (sign : Sign) {x r : ℚ} (rounds : Rounds x r) :
    Rounds ((sign.apply 1 : ℤ) * x) ((sign.apply 1 : ℤ) * r) := by
  cases sign with
  | negative => simpa [Sign.apply] using rounds.neg
  | positive => simpa [Sign.apply] using rounds

/-- Rounding keeps the nearest multiple of the last bit, with the sign that is given. -/
theorem roundWithAccuracy_spec (sign : Sign) (exponent : Int) {accuracy : Accuracy} {x : ℚ}
    (represents : Represents (ExtendedMantissa.ofMantissaAndAccuracy mantissa accuracy) x)
    (positive : 0 < x) (fine : exponent ≤ lastBit (x * 2 ^ exponent)) :
    Canonical (roundWithAccuracy Format.binary64 sign mantissa exponent accuracy) ∧
      Rounds ((sign.apply 1 : ℤ) * (x * 2 ^ exponent))
        (valueOf (roundWithAccuracy Format.binary64 sign mantissa exponent accuracy)) := by
  have onto := grid_eq_lastBit represents positive fine
  have bits := zpow_lastBit_pos (x * 2 ^ exponent)
  have low : -1074 ≤ lastBit (x * 2 ^ exponent) := le_max_right _ _
  have nearest : Nearest (onGrid mantissa exponent accuracy).roundedMantissa
      (x * 2 ^ exponent / 2 ^ lastBit (x * 2 ^ exponent)) := by
    have shifted := represents.shift (grid mantissa exponent - exponent).toNat
    have scaled : x / 2 ^ (grid mantissa exponent - exponent).toNat =
        x * 2 ^ exponent / 2 ^ lastBit (x * 2 ^ exponent) := by
      have split : lastBit (x * 2 ^ exponent) =
          ((grid mantissa exponent - exponent).toNat : ℤ) + exponent := by omega
      have power : (2 : ℚ) ^ exponent ≠ 0 := zpow_ne_zero _ (by norm_num)
      rw [split, zpow_add₀ (by norm_num), zpow_natCast, mul_div_mul_right _ _ power]
    rw [← scaled]
    exact shifted.nearest
  have rounds : Rounds (x * 2 ^ exponent)
      ((onGrid mantissa exponent accuracy).roundedMantissa * 2 ^ grid mantissa exponent) := by
    rw [onto]
    exact ⟨_, nearest, by push_cast; rfl⟩
  rcases roundWithAccuracy_cases sign mantissa exponent accuracy with
    ⟨zero, result⟩ | ⟨_, _, nonzero, result, ⟨rfl, below, rfl⟩ | ⟨rfl, full, rfl⟩⟩
  · rw [result]
    rw [zero, Nat.cast_zero, zero_mul] at rounds
    refine ⟨trivial, ?_⟩
    simpa [valueOf] using rounds_signed sign rounds
  · rw [result, valueOf_finite]
    refine ⟨⟨below, by omega, ?_⟩, rounds_signed sign rounds⟩
    rcases eq_or_lt_of_le low with lowest | above
    · exact .inl (by omega)
    · have magnitude : 0 < x * 2 ^ exponent := mul_pos positive (zpow_pos (by norm_num) _)
      obtain ⟨leading, _⟩ := leading_of_lastBit magnitude.ne' above
      rw [abs_of_pos magnitude, add_comm, zpow_add₀ (by norm_num), ← le_div_iff₀ bits] at leading
      have bound : (2 ^ 52 : ℤ) ≤ (onGrid mantissa exponent accuracy).roundedMantissa :=
        nearest.ge (by push_cast; exact_mod_cast leading)
      exact .inr (by exact_mod_cast bound)
  · rw [result, valueOf_finite]
    refine ⟨⟨by decide, by omega, .inr (le_refl _)⟩, ?_⟩
    have whole : ((2 ^ 52 : ℕ) : ℚ) * 2 ^ (grid mantissa exponent + 1) =
        (onGrid mantissa exponent accuracy).roundedMantissa * 2 ^ grid mantissa exponent := by
      rw [full, zpow_add_one₀ (by norm_num)]
      push_cast
      ring
    rw [whole]
    exact rounds_signed sign rounds

/-! ## Packing -/

theorem toNat_implicit (mantissa : BitVec 52) : (1#1 ++ mantissa).toNat = 2 ^ 52 + mantissa.toNat := by
  have one : (1#1).toNat = 1 := rfl
  rw [BitVec.toNat_append, Nat.shiftLeft_eq, one, Nat.mul_comm,
    ← Nat.two_pow_add_eq_or_of_lt mantissa.isLt, Nat.mul_one]

private theorem canonical_unpack {limit : Int} {bits : BitVec Format.binary64.numBits}
    (within : Within limit (unpack Format.binary64 bits)) :
    Canonical (unpack Format.binary64 bits) := by
  have bias : ((Format.binary64.exponentBias : Int) + Format.binary64.mantissaBitsWithoutImplicit) =
      1075 := rfl
  unfold UnpackedFloat.unpack at within ⊢
  dsimp only at within ⊢
  rw [bias] at within ⊢
  by_cases top : unpackExponent bits = -1#11
  · rw [if_pos top] at within
    split at within
    · exact within.elim
    · exact within.elim
  · rw [if_neg top]
    by_cases zero : unpackExponent bits = 0#11
    · rw [if_pos zero]
      split
      · trivial
      · have lowest : (unpackExponent bits).toNat = 0 := congrArg BitVec.toNat zero
        exact ⟨Nat.lt_trans (unpackMantissa bits).isLt (by decide), by omega, .inl (by omega)⟩
    · rw [if_neg zero]
      have positive : (unpackExponent bits).toNat ≠ 0 :=
        fun none => zero (BitVec.eq_of_toNat_eq none)
      refine ⟨(1#1 ++ unpackMantissa bits).isLt, by omega, .inr ?_⟩
      rw [toNat_implicit]
      exact Nat.le_add_right _ _

theorem canonical_of_fits {limit : Int} {x : Float} (fits : Fits limit x) :
    Canonical x.toModel.unpack :=
  canonical_unpack fits

theorem log2_of_canonical (low : 2 ^ 52 ≤ mantissa) (high : mantissa < 2 ^ 53) :
    mantissa.log2 = 52 := by
  rw [Nat.log2_eq_iff (by omega)]
  exact ⟨low, high⟩

theorem finite_congr {sign : Sign} {mantissa' : Nat} {exponent' : Int} (positive : 0 < mantissa)
    (positive' : 0 < mantissa') (same : mantissa = mantissa') (power : exponent = exponent') :
    UnpackedFloat.finite sign mantissa exponent positive =
      .finite sign mantissa' exponent' positive' := by
  subst same power
  rfl

private theorem unpack_subnormal (sign : Sign) (positive : 0 < mantissa)
    (small : mantissa < 2 ^ 52) : unpack Format.binary64
      (packComponents Format.binary64 sign 0#11 (BitVec.ofNat 52 mantissa)) =
        .finite sign mantissa (-1074) positive := by
  have whole : (BitVec.ofNat 52 mantissa).toNat = mantissa := by
    rw [BitVec.toNat_ofNat, Nat.mod_eq_of_lt small]
  have nonzero : BitVec.ofNat 52 mantissa ≠ 0#52 := by
    intro none
    rw [none] at whole
    exact positive.ne whole
  unfold UnpackedFloat.unpack
  simp only [unpackMantissa_packComponents, unpackExponent_packComponents,
    unpackSign_packComponents, Sign.ofBitVec_toBitVec]
  rw [if_neg (by decide), if_pos trivial, dif_neg nonzero]
  exact finite_congr _ _ whole rfl

private theorem unpack_normal (sign : Sign) (positive : 0 < mantissa) (leading : 2 ^ 52 ≤ mantissa)
    (bits : mantissa < 2 ^ 53) (low : -1074 ≤ exponent) (high : exponent ≤ 971) :
    unpack Format.binary64 (packComponents Format.binary64 sign
      (BitVec.ofNat 11 (exponent + 1075).toNat) (BitVec.ofNat 52 mantissa)) =
        .finite sign mantissa exponent positive := by
  have bias : ((Format.binary64.exponentBias : Int) +
      Format.binary64.mantissaBitsWithoutImplicit) = 1075 := rfl
  have power : (BitVec.ofNat 11 (exponent + 1075).toNat).toNat = (exponent + 1075).toNat := by
    rw [BitVec.toNat_ofNat]
    exact Nat.mod_eq_of_lt (by omega)
  have top : BitVec.ofNat 11 (exponent + 1075).toNat ≠ -1#11 := by
    intro full
    rw [full] at power
    have : (-1#11).toNat = 2047 := by decide
    omega
  have bottom : BitVec.ofNat 11 (exponent + 1075).toNat ≠ 0#11 := by
    intro none
    rw [none] at power
    have : (0#11).toNat = 0 := rfl
    omega
  unfold UnpackedFloat.unpack
  simp only [unpackMantissa_packComponents, unpackExponent_packComponents,
    unpackSign_packComponents, Sign.ofBitVec_toBitVec]
  rw [bias, if_neg top, if_neg bottom]
  refine finite_congr _ _ ?_ (by rw [power]; omega)
  rw [toNat_implicit, BitVec.toNat_ofNat]
  omega

theorem unpack_pack_of_canonical (canonical : Canonical u) (within : Within 971 u) :
    (Float.Model.pack u).unpack = u := by
  change unpack Format.binary64 (UnpackedFloat.pack Format.binary64 u) = u
  cases u with
  | infinity sign => exact within.elim
  | notANumber => exact within.elim
  | zero sign => exact unpack_packedZero
  | finite sign mantissa exponent positive =>
      obtain ⟨bits, low, normal⟩ := canonical
      have high := within.2
      have bias : ((Format.binary64.exponentBias : Int) +
          Format.binary64.mantissaBitsWithoutImplicit) = 1075 := rfl
      unfold UnpackedFloat.pack
      dsimp only
      rw [add_assoc, bias, if_neg (show ¬ 2 ^ 11 ≤ (exponent + 1075).toNat + 1 by omega)]
      rcases Nat.lt_or_ge mantissa (2 ^ 52) with subnormal | leading
      · have short : mantissa.log2 + 1 ≠ Format.binary64.mantissaBits := by
          have := log2_lt_of_lt (by decide) subnormal
          change mantissa.log2 + 1 ≠ 53
          omega
        obtain rfl : exponent = -1074 := by omega
        rw [if_neg short]
        exact unpack_subnormal sign positive subnormal
      · have long : mantissa.log2 + 1 = Format.binary64.mantissaBits := by
          rw [log2_of_canonical leading bits]
          rfl
        rw [if_pos long]
        exact unpack_normal sign positive leading bits low high

/-! ## Unpacked results -/

theorem precise_of_canonical (canonical : Canonical u) : Precise (valueOf u) := by
  cases u with
  | infinity sign => exact canonical.elim
  | notANumber => exact canonical.elim
  | zero sign => exact ⟨0, 0, by simp [valueOf], by norm_num, by norm_num⟩
  | finite sign mantissa exponent positive =>
      refine ⟨sign.apply mantissa, exponent, rfl, ?_, canonical.2.1⟩
      have bits : (mantissa : ℤ) ≤ 2 ^ 53 := by exact_mod_cast canonical.1.le
      cases sign with
      | negative => rwa [Sign.apply, abs_neg, Nat.abs_cast]
      | positive => rwa [Sign.apply, Nat.abs_cast]

theorem lastBit_of_canonical (positive : 0 < mantissa) (bits : mantissa < 2 ^ 53)
    (normal : exponent = -1074 ∨ 2 ^ 52 ≤ mantissa) (low : -1074 ≤ exponent) :
    lastBit (mantissa * 2 ^ exponent) = exponent := by
  have power : (0 : ℚ) < 2 ^ exponent := zpow_pos (by norm_num) _
  rw [lastBit_of_mantissa positive exponent le_rfl (by linarith)]
  rcases normal with rfl | leading
  · have := log2_lt_of_lt (by decide) bits
    omega
  · rw [log2_of_canonical leading bits]
    omega

theorem rounds_self (canonical : Canonical u) : Rounds (valueOf u) (valueOf u) := by
  cases u with
  | infinity sign => exact canonical.elim
  | notANumber => exact canonical.elim
  | zero sign => exact ⟨0, by simpa [valueOf] using nearest_self 0, by simp [valueOf]⟩
  | finite sign mantissa exponent positive =>
      obtain ⟨bits, low, normal⟩ := canonical
      have power : (2 : ℚ) ^ exponent ≠ 0 := zpow_ne_zero _ (by norm_num)
      rw [valueOf_finite]
      apply rounds_signed
      refine ⟨mantissa, ?_, ?_⟩
      · rw [lastBit_of_canonical positive bits normal low, mul_div_cancel_right₀ _ power]
        exact nearest_self mantissa
      · rw [lastBit_of_canonical positive bits normal low]
        norm_cast

theorem round_spec (sign : Sign) (exponent : Int) (positive : 0 < mantissa) :
    Canonical (UnpackedFloat.round Format.binary64 sign mantissa exponent) ∧
      Rounds ((sign.apply 1 : ℤ) * (mantissa * 2 ^ exponent))
        (valueOf (UnpackedFloat.round Format.binary64 sign mantissa exponent)) := by
  have target : Format.binary64.targetExponent (totalExponent mantissa exponent) =
      max (mantissa.log2 + 1 + exponent - 53) (-1074) := rfl
  unfold UnpackedFloat.round decreaseExponent
  dsimp only
  rw [target]
  generalize amount : (exponent - max (mantissa.log2 + 1 + exponent - 53) (-1074)).toNat = count
  have same : ((mantissa <<< count : ℕ) : ℚ) * 2 ^ (exponent - count) = mantissa * 2 ^ exponent := by
    rw [Nat.shiftLeft_eq, zpow_sub₀ (by norm_num), zpow_natCast]
    push_cast
    field_simp
  have power : (0 : ℚ) < 2 ^ exponent := zpow_pos (by norm_num) _
  have last : lastBit (mantissa * 2 ^ exponent) = max (mantissa.log2 + exponent - 52) (-1074) :=
    lastBit_of_mantissa positive exponent le_rfl (by linarith)
  have spec := roundWithAccuracy_spec sign (exponent - count)
    (represents_exact (mantissa <<< count)) ?_ ?_
  · rwa [same] at spec
  · rw [Nat.shiftLeft_eq]
    positivity
  · rw [same, last]
    omega

theorem normalize_spec (mantissa exponent : Int) (zero : Sign) :
    Canonical (UnpackedFloat.normalize Format.binary64 mantissa exponent zero) ∧
      Rounds (mantissa * 2 ^ exponent)
        (valueOf (UnpackedFloat.normalize Format.binary64 mantissa exponent zero)) := by
  unfold UnpackedFloat.normalize
  split
  · next negative =>
      have below := Int.compare_eq_lt.mp negative
      have spec := round_spec .negative exponent (by omega : 0 < (-mantissa).toNat)
      have size : (((-mantissa).toNat : ℕ) : ℚ) = -mantissa := by
        rw [← Int.cast_natCast, Int.toNat_of_nonneg (by omega)]
        push_cast
        rfl
      rw [size] at spec
      simpa [Sign.apply] using spec
  · next equal =>
      rw [Int.compare_eq_eq.mp equal]
      refine ⟨trivial, 0, ?_, ?_⟩
      · simpa using nearest_self 0
      · simp [valueOf]
  · next positive =>
      have above := Int.compare_eq_gt.mp positive
      have spec := round_spec .positive exponent (by omega : 0 < mantissa.toNat)
      have size : ((mantissa.toNat : ℕ) : ℚ) = mantissa := by
        rw [← Int.cast_natCast, Int.toNat_of_nonneg (by omega)]
      rw [size] at spec
      simpa [Sign.apply] using spec

theorem rounds_zero : Rounds 0 0 := ⟨0, by simpa using nearest_self 0, by simp⟩

theorem sign_mul (sign sign' : Sign) :
    ((sign * sign').apply 1 : ℤ) = sign.apply 1 * sign'.apply 1 := by
  cases sign <;> cases sign' <;> rfl

private theorem sign_div (sign sign' : Sign) : sign / sign' = sign * sign' := by
  cases sign <;> cases sign' <;> rfl

private theorem sign_neg (sign : Sign) : ((-sign).apply 1 : ℤ) = -sign.apply 1 := by
  cases sign <;> rfl

private theorem inv_sign (sign : Sign) : ((sign.apply 1 : ℤ) : ℚ)⁻¹ = (sign.apply 1 : ℤ) := by
  cases sign <;> norm_num [Sign.apply]

private theorem mul_spec {x y : UnpackedFloat} (left : Canonical x) (right : Canonical y) :
    Canonical (mul Format.binary64 x y) ∧
      Rounds (valueOf x * valueOf y) (valueOf (mul Format.binary64 x y)) := by
  cases x with
  | infinity sign => exact left.elim
  | notANumber => exact left.elim
  | zero sign =>
      cases y with
      | infinity sign => exact right.elim
      | notANumber => exact right.elim
      | zero sign => exact ⟨trivial, by simpa [valueOf, UnpackedFloat.mul] using rounds_zero⟩
      | finite sign mantissa exponent positive =>
          exact ⟨trivial, by simpa [valueOf, UnpackedFloat.mul] using rounds_zero⟩
  | finite sign mantissa exponent positive =>
      cases y with
      | infinity sign => exact right.elim
      | notANumber => exact right.elim
      | zero sign => exact ⟨trivial, by simpa [valueOf, UnpackedFloat.mul] using rounds_zero⟩
      | finite sign' mantissa' exponent' positive' =>
          obtain ⟨bits, low, normal⟩ := left
          obtain ⟨bits', low', normal'⟩ := right
          have some : 0 < mantissa * mantissa' := Nat.mul_pos positive positive'
          have power : (0 : ℚ) < 2 ^ (exponent + exponent') := zpow_pos (by norm_num) _
          have last := lastBit_of_mantissa some (exponent + exponent') le_rfl (by linarith)
          have product : valueOf (.finite sign mantissa exponent positive) *
              valueOf (.finite sign' mantissa' exponent' positive') =
              ((sign * sign').apply 1 : ℤ) *
                ((mantissa * mantissa' : ℕ) * 2 ^ (exponent + exponent')) := by
            rw [valueOf_finite, valueOf_finite, sign_mul, zpow_add₀ (by norm_num)]
            push_cast
            ring
          rw [product]
          refine roundWithAccuracy_spec (sign * sign') (exponent + exponent')
            (represents_exact (mantissa * mantissa')) (by exact_mod_cast some) ?_
          -- A product of subnormal numbers is far below the last bit, any other has enough bits.
          have enough : exponent + exponent' ≤ -1074 ∨ 52 ≤ (mantissa * mantissa').log2 := by
            have large : ∀ {n m : Nat}, 2 ^ 52 ≤ n → 0 < m → 52 ≤ (n * m).log2 := by
              intro n m leading whole
              exact (Nat.le_log2 (Nat.mul_pos (by omega) whole).ne').mpr
                (leading.trans (Nat.le_mul_of_pos_right n whole))
            rcases normal with rfl | leading
            · rcases normal' with rfl | leading'
              · exact .inl (by norm_num)
              · exact .inr (by rw [Nat.mul_comm]; exact large leading' positive)
            · exact .inr (large leading positive')
          rw [last]
          omega

theorem represents_fraction (dividend : Nat) {divisor : Nat} (positive : 0 < divisor) :
    Represents (ExtendedMantissa.ofMantissaAndAccuracy (dividend / divisor)
      (accuracyOfFraction (dividend % divisor) divisor)) (dividend / divisor) := by
  have whole : (0 : ℚ) < divisor := by exact_mod_cast positive
  have parts : (divisor : ℚ) * (dividend / divisor : ℕ) + (dividend % divisor : ℕ) = dividend := by
    exact_mod_cast Nat.div_add_mod dividend divisor
  have rest : ((dividend % divisor : ℕ) : ℚ) < divisor := by
    exact_mod_cast Nat.mod_lt dividend positive
  have quotient : (dividend : ℚ) / divisor =
      (dividend / divisor : ℕ) + (dividend % divisor : ℕ) / (divisor : ℚ) := by
    rw [← parts]
    field_simp
  rw [quotient, accuracyOfFraction]
  have below : ((dividend % divisor : ℕ) : ℚ) / divisor < 1 := (div_lt_one whole).mpr rest
  generalize dividend % divisor = remainder at below
  generalize dividend / divisor = mantissa
  rcases Nat.eq_zero_or_pos remainder with rfl | some
  · rw [if_pos rfl, Nat.cast_zero, zero_div, add_zero]
    exact represents_exact mantissa
  · rw [if_neg some.ne']
    have above : (0 : ℚ) < remainder / divisor := div_pos (by exact_mod_cast some) whole
    rcases lt_trichotomy (2 * remainder) divisor with less | half | more
    · rw [Nat.compare_eq_lt.mpr less]
      have bound : (remainder : ℚ) / divisor < 1 / 2 := by
        rw [div_lt_div_iff₀ whole (by norm_num)]
        exact_mod_cast (by omega : remainder * 2 < 1 * divisor)
      exact ⟨lt_add_of_pos_right _ above, add_lt_add_right bound _⟩
    · rw [Nat.compare_eq_eq.mpr half]
      have bound : (remainder : ℚ) / divisor = 1 / 2 := by
        rw [div_eq_div_iff whole.ne' (by norm_num)]
        exact_mod_cast (by omega : remainder * 2 = 1 * divisor)
      exact congrArg _ bound
    · rw [Nat.compare_eq_gt.mpr more]
      have bound : 1 / 2 < (remainder : ℚ) / divisor := by
        rw [div_lt_div_iff₀ (by norm_num) whole]
        exact_mod_cast (by omega : 1 * divisor < remainder * 2)
      exact ⟨add_lt_add_right bound _, add_lt_add_right below _⟩

/-- Dividing mantissas of any size rounds the exact quotient. -/
theorem div_finite_spec (sign sign' : Sign) {mantissa' : Nat} (exponent exponent' : Int)
    (positive : 0 < mantissa) (positive' : 0 < mantissa') :
    Canonical (UnpackedFloat.div Format.binary64 (.finite sign mantissa exponent positive)
      (.finite sign' mantissa' exponent' positive')) ∧
    Rounds (valueOf (.finite sign mantissa exponent positive) /
        valueOf (.finite sign' mantissa' exponent' positive'))
      (valueOf (UnpackedFloat.div Format.binary64 (.finite sign mantissa exponent positive)
        (.finite sign' mantissa' exponent' positive'))) := by
  have target : Format.binary64.targetExponent
      (totalExponent mantissa exponent - totalExponent mantissa' exponent') =
      max (mantissa.log2 + 1 + exponent - (mantissa'.log2 + 1 + exponent') - 53) (-1074) := rfl
  unfold UnpackedFloat.div divCore
  dsimp only
  rw [target]
  generalize low : min (exponent - exponent') _ = power
  generalize amount : (exponent - exponent' - power).toNat = count
  have whole : (0 : ℚ) < mantissa := by exact_mod_cast positive
  have whole' : (0 : ℚ) < mantissa' := by exact_mod_cast positive'
  have size : ((mantissa <<< count : ℕ) : ℚ) / mantissa' * 2 ^ power =
      mantissa * 2 ^ exponent / (mantissa' * 2 ^ exponent') := by
    have split : exponent = (count : ℤ) + power + exponent' := by omega
    rw [Nat.shiftLeft_eq, split, zpow_add₀ (by norm_num), zpow_add₀ (by norm_num),
      zpow_natCast]
    push_cast
    field_simp
  have exact : valueOf (.finite sign mantissa exponent positive) /
      valueOf (.finite sign' mantissa' exponent' positive') =
      ((sign / sign').apply 1 : ℤ) * (((mantissa <<< count : ℕ) : ℚ) / mantissa' * 2 ^ power) := by
    rw [valueOf_finite, valueOf_finite, sign_div, sign_mul, size, mul_div_mul_comm,
      div_eq_mul_inv ((sign.apply 1 : ℤ) : ℚ), inv_sign]
    push_cast
    ring
  have positiveCount : 0 < mantissa <<< count := by
    rw [Nat.shiftLeft_eq]
    exact Nat.mul_pos positive (Nat.two_pow_pos count)
  rw [exact]
  refine roundWithAccuracy_spec (sign / sign') power
    (represents_fraction (mantissa <<< count) positive')
    (div_pos (by exact_mod_cast positiveCount) whole') ?_
  have start : (2 : ℚ) ^ mantissa.log2 ≤ mantissa := by
    exact_mod_cast Nat.log2_self_le positive.ne'
  have stop : (mantissa' : ℚ) ≤ 2 ^ (mantissa'.log2 + 1) := by
    exact_mod_cast Nat.lt_log2_self.le
  have leading : (2 : ℚ) ^ ((mantissa.log2 : ℤ) + exponent - (mantissa'.log2 + 1 + exponent')) ≤
      |(mantissa : ℚ) * 2 ^ exponent / (mantissa' * 2 ^ exponent')| := by
    rw [abs_of_pos (by positivity), zpow_sub₀ (by norm_num), zpow_add₀ (by norm_num),
      zpow_add₀ (by norm_num)]
    apply div_le_div₀ (by positivity) ?_ (by positivity) ?_
    · exact mul_le_mul_of_nonneg_right (by exact_mod_cast start) (by positivity)
    · exact mul_le_mul_of_nonneg_right (by exact_mod_cast stop) (by positivity)
  have enough := le_lastBit leading
  have lowest : -1074 ≤ lastBit ((mantissa : ℚ) * 2 ^ exponent / (mantissa' * 2 ^ exponent')) :=
    le_max_right _ _
  rw [size]
  omega

theorem div_spec {x y : UnpackedFloat} (left : Canonical x) (right : Canonical y)
    (nonzero : valueOf y ≠ 0) :
    Canonical (UnpackedFloat.div Format.binary64 x y) ∧
      Rounds (valueOf x / valueOf y) (valueOf (UnpackedFloat.div Format.binary64 x y)) := by
  cases y with
  | infinity sign => exact right.elim
  | notANumber => exact right.elim
  | zero sign => exact absurd rfl nonzero
  | finite sign' mantissa' exponent' positive' =>
      cases x with
      | infinity sign => exact left.elim
      | notANumber => exact left.elim
      | zero sign =>
          refine ⟨trivial, ?_⟩
          change Rounds (0 / _) 0
          rw [zero_div]
          exact rounds_zero
      | finite sign mantissa exponent positive =>
          exact div_finite_spec sign sign' exponent exponent' positive positive'

/-- A number brought to a smaller exponent is the same number. -/
theorem valueOf_aligned (sign : Sign) {lower : Int} (positive : 0 < mantissa)
    (le : lower ≤ exponent) :
    ((sign.apply (decreaseExponent mantissa exponent lower).1 : ℤ) : ℚ) * 2 ^ lower =
      valueOf (.finite sign mantissa exponent positive) := by
  have split : exponent = ((exponent - lower).toNat : ℤ) + lower := by omega
  have scaled : (((decreaseExponent mantissa exponent lower).1 : ℕ) : ℚ) * 2 ^ lower =
      mantissa * 2 ^ exponent := by
    conv_rhs => rw [split, zpow_add₀ (by norm_num), zpow_natCast, ← mul_assoc]
    rw [decreaseExponent, Nat.shiftLeft_eq]
    push_cast
    rfl
  rw [valueOf_finite, ← scaled]
  cases sign with
  | negative =>
      simp only [Sign.apply]
      push_cast
      ring
  | positive =>
      simp only [Sign.apply]
      push_cast
      ring

theorem add_spec {x y : UnpackedFloat} (left : Canonical x) (right : Canonical y) :
    Canonical (UnpackedFloat.add Format.binary64 x y) ∧
      Rounds (valueOf x + valueOf y) (valueOf (UnpackedFloat.add Format.binary64 x y)) := by
  cases x with
  | infinity sign => exact left.elim
  | notANumber => exact left.elim
  | zero sign =>
      have nothing : valueOf (.zero sign) = 0 := rfl
      rw [nothing, zero_add]
      cases y with
      | infinity sign => exact right.elim
      | notANumber => exact right.elim
      | zero sign' =>
          change Canonical (if _ then UnpackedFloat.zero _ else .zero _) ∧
            Rounds 0 (valueOf (if _ then UnpackedFloat.zero _ else .zero _))
          split <;> exact ⟨trivial, rounds_zero⟩
      | finite sign' mantissa' exponent' positive' => exact ⟨right, rounds_self right⟩
  | finite sign mantissa exponent positive =>
      cases y with
      | infinity sign => exact right.elim
      | notANumber => exact right.elim
      | zero sign' =>
          have nothing : valueOf (.zero sign') = 0 := rfl
          rw [nothing, add_zero]
          exact ⟨left, rounds_self left⟩
      | finite sign' mantissa' exponent' positive' =>
          have spec := normalize_spec
            (sign.apply (decreaseExponent mantissa exponent (min exponent exponent')).1 +
              sign'.apply (decreaseExponent mantissa' exponent' (min exponent exponent')).1)
            (min exponent exponent') .positive
          rw [Int.cast_add, add_mul, valueOf_aligned sign positive (min_le_left _ _),
            valueOf_aligned sign' positive' (min_le_right _ _)] at spec
          exact spec

theorem Canonical.neg (canonical : Canonical u) : Canonical u.neg := by
  cases u <;> exact canonical

theorem valueOf_neg (u : UnpackedFloat) : valueOf u.neg = -valueOf u := by
  cases u with
  | finite sign mantissa exponent positive =>
      change valueOf (.finite (-sign) mantissa exponent positive) = _
      rw [valueOf_finite, valueOf_finite, sign_neg]
      push_cast
      ring
  | _ => exact neg_zero.symm

theorem sub_spec {x y : UnpackedFloat} (left : Canonical x) (right : Canonical y) :
    Canonical (UnpackedFloat.sub Format.binary64 x y) ∧
      Rounds (valueOf x - valueOf y) (valueOf (UnpackedFloat.sub Format.binary64 x y)) := by
  rw [sub_eq_add, sub_eq_add_neg, ← valueOf_neg]
  exact add_spec left right.neg

/-! ## Doubles -/

/-- The number that a double stands for; zero for what is no finite number. -/
def value (x : Float) : ℚ := valueOf x.toModel.unpack

instance (limit : Int) (u : UnpackedFloat) : Decidable (Within limit u) :=
  match u with
  | .zero _ => inferInstanceAs (Decidable True)
  | .finite _ mantissa exponent _ =>
      inferInstanceAs (Decidable (mantissa < 2 ^ 53 ∧ exponent ≤ limit))
  | .infinity _ => inferInstanceAs (Decidable False)
  | .notANumber => inferInstanceAs (Decidable False)

instance (limit : Int) (x : Float) : Decidable (Fits limit x) :=
  inferInstanceAs (Decidable (Within limit x.toModel.unpack))

theorem abs_valueOf_finite (sign : Sign) (positive : 0 < mantissa) :
    |valueOf (.finite sign mantissa exponent positive)| = mantissa * 2 ^ exponent := by
  rw [valueOf_finite, abs_mul, abs_of_pos (by positivity : (0 : ℚ) < mantissa * 2 ^ exponent)]
  cases sign <;> norm_num [Sign.apply]

theorem within_of_canonical (canonical : Canonical u) (small : |valueOf u| < 2 ^ 1024) :
    Within 971 u := by
  cases u with
  | infinity sign => exact canonical
  | notANumber => exact canonical
  | zero sign => trivial
  | finite sign mantissa exponent positive =>
      obtain ⟨bits, low, normal⟩ := canonical
      refine ⟨bits, ?_⟩
      by_contra large
      have leading : 2 ^ 52 ≤ mantissa := by omega
      have power : (2 : ℚ) ^ (972 : ℤ) ≤ 2 ^ exponent :=
        zpow_le_zpow_right₀ (by norm_num) (by omega)
      have start : (2 : ℚ) ^ 52 ≤ mantissa := by exact_mod_cast leading
      have product := mul_le_mul start power (by positivity) (by positivity)
      rw [abs_valueOf_finite] at small
      have total : (2 : ℚ) ^ 52 * 2 ^ (972 : ℤ) = 2 ^ 1024 := by
        rw [← zpow_natCast, ← zpow_natCast, ← zpow_add₀ (by norm_num)]
        norm_num
      rw [total] at product
      exact absurd (product.trans_lt small) (lt_irrefl _)

/-- An exact result that does not overflow becomes a finite double. -/
theorem fits_of_rounds {x : ℚ} (canonical : Canonical u) (rounds : Rounds x (valueOf u))
    (small : |x| ≤ 2 ^ 1023) :
    Within 971 (Float.Model.pack u).unpack ∧ Rounds x (valueOf (Float.Model.pack u).unpack) := by
  have limit : Precise (2 ^ 1023) := ⟨1, 1023, by norm_num, by norm_num, by norm_num⟩
  have bounded := rounds.abs_le_of_precise limit small
  have less : |valueOf u| < 2 ^ 1024 :=
    bounded.trans_lt (pow_lt_pow_right₀ (by norm_num) (by norm_num))
  have within := within_of_canonical canonical less
  rw [unpack_pack_of_canonical canonical within]
  exact ⟨within, rounds⟩

section

variable {x y : Float}

theorem value_add (left : Fits 971 x) (right : Fits 971 y) (small : |value x + value y| ≤ 2 ^ 1023) :
    Fits 971 (x + y) ∧ Rounds (value x + value y) (value (x + y)) := by
  obtain ⟨canonical, rounds⟩ := add_spec (canonical_of_fits left) (canonical_of_fits right)
  exact fits_of_rounds canonical rounds small

theorem value_sub (left : Fits 971 x) (right : Fits 971 y) (small : |value x - value y| ≤ 2 ^ 1023) :
    Fits 971 (x - y) ∧ Rounds (value x - value y) (value (x - y)) := by
  obtain ⟨canonical, rounds⟩ := sub_spec (canonical_of_fits left) (canonical_of_fits right)
  exact fits_of_rounds canonical rounds small

theorem value_mul (left : Fits 971 x) (right : Fits 971 y) (small : |value x * value y| ≤ 2 ^ 1023) :
    Fits 971 (x * y) ∧ Rounds (value x * value y) (value (x * y)) := by
  obtain ⟨canonical, rounds⟩ := mul_spec (canonical_of_fits left) (canonical_of_fits right)
  exact fits_of_rounds canonical rounds small

theorem value_div (left : Fits 971 x) (right : Fits 971 y) (nonzero : value y ≠ 0)
    (small : |value x / value y| ≤ 2 ^ 1023) :
    Fits 971 (x / y) ∧ Rounds (value x / value y) (value (x / y)) := by
  obtain ⟨canonical, rounds⟩ :=
    div_spec (canonical_of_fits left) (canonical_of_fits right) nonzero
  exact fits_of_rounds canonical rounds small

end

end Kerf.Doubles
