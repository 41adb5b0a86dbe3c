import Mathlib

/-!
# Rounding to double precision

What rounding does to rational numbers: 53 bits are kept, or fewer near zero, and a tie goes to the
even neighbour. No number of double precision is closer than the result.
-/

set_option autoImplicit false

namespace Kerf.Doubles

/-- Whether a whole number is nearest to a rational one; a tie goes to the even neighbour. -/
def Nearest (count : ℤ) (x : ℚ) : Prop :=
  |x - count| ≤ 1 / 2 ∧ (|x - count| = 1 / 2 → Even count)

/-- The exponent of the last bit that is kept of a number. -/
def lastBit (x : ℚ) : ℤ := max (Int.log 2 |x| - 52) (-1074)

/-- Whether a number is another one rounded to double precision. -/
def Rounds (x r : ℚ) : Prop :=
  ∃ count : ℤ, Nearest count (x / 2 ^ lastBit x) ∧ r = count * 2 ^ lastBit x

/-- Whether a number has double precision: at most 53 bits, and none below the last one of all. -/
def Precise (y : ℚ) : Prop := ∃ (count exponent : ℤ), y = count * 2 ^ exponent ∧
  |count| ≤ 2 ^ 53 ∧ -1074 ≤ exponent

variable {x r y : ℚ} {count other : ℤ}

/-! ## Whole numbers -/

theorem nearest_self (count : ℤ) : Nearest count count := by
  constructor
  · norm_num
  · norm_num

theorem Nearest.neg (nearest : Nearest count x) : Nearest (-count) (-x) := by
  have same : |-x - ((-count : ℤ) : ℚ)| = |x - count| := by
    rw [← abs_neg]
    push_cast
    congr 1
    ring
  unfold Nearest
  rw [same]
  exact ⟨nearest.1, fun tie => (nearest.2 tie).neg⟩

/-- No other whole number is closer. -/
theorem Nearest.closest (nearest : Nearest count x) (other : ℤ) : |x - count| ≤ |x - other| := by
  rcases eq_or_ne count other with rfl | apart
  · exact le_refl _
  · have gap : (1 : ℚ) ≤ |(count : ℚ) - other| := by
      exact_mod_cast Int.one_le_abs (sub_ne_zero.mpr apart)
    have between : |(count : ℚ) - other| ≤ |x - count| + |x - other| := by
      rw [abs_sub_comm x count]
      exact abs_sub_le _ _ _
    have := nearest.1
    linarith

theorem Nearest.nonneg (nearest : Nearest count x) (positive : 0 ≤ x) : 0 ≤ count := by
  have bound := (abs_le.mp nearest.1).2
  have above : (-1 : ℚ) < count := by linarith
  have : (-1 : ℤ) < count := by exact_mod_cast above
  omega

theorem Nearest.le (nearest : Nearest count x) (below : x ≤ other) : count ≤ other := by
  by_contra above
  have next : (other : ℚ) + 1 ≤ count := by exact_mod_cast not_le.mp above
  have bound := (abs_le.mp nearest.1).1
  have := nearest.1
  linarith

theorem Nearest.ge (nearest : Nearest count x) (above : (other : ℚ) ≤ x) : other ≤ count := by
  have mirrored : -count ≤ -other := nearest.neg.le (by push_cast; exact neg_le_neg above)
  exact neg_le_neg_iff.mp mirrored

/-- Half of one goes to zero. -/
theorem Nearest.pos_iff (nearest : Nearest count x) : 0 < count ↔ 1 / 2 < x := by
  have bounds := abs_le.mp nearest.1
  constructor
  · intro positive
    have one : (1 : ℚ) ≤ count := by exact_mod_cast positive
    by_contra small
    have tie : x - count = -(1 / 2) := by linarith
    have even := nearest.2 (by rw [tie]; norm_num)
    have single : (count : ℚ) = 1 := by linarith
    rw [(by exact_mod_cast single : count = 1)] at even
    exact absurd even (by decide)
  · intro large
    have above : (0 : ℚ) < count := by linarith
    exact_mod_cast above

/-! ## Powers of two -/

theorem zpow_lastBit_pos (x : ℚ) : (0 : ℚ) < 2 ^ lastBit x := zpow_pos (by norm_num) _

theorem lastBit_neg (x : ℚ) : lastBit (-x) = lastBit x := by
  rw [lastBit, lastBit, abs_neg]

theorem lastBit_eq {exponent : ℤ} (low : (2 : ℚ) ^ exponent ≤ |x|)
    (high : |x| < (2 : ℚ) ^ (exponent + 1)) : lastBit x = max (exponent - 52) (-1074) := by
  have positive : 0 < |x| := lt_of_lt_of_le (zpow_pos (by norm_num) _) low
  have above := (Int.zpow_le_iff_le_log (b := 2) (by norm_num) positive).mp (by exact_mod_cast low)
  have below := (Int.lt_zpow_iff_log_lt (b := 2) (by norm_num) positive).mp (by exact_mod_cast high)
  rw [lastBit]
  congr 1
  omega

theorem le_lastBit {exponent : ℤ} (low : (2 : ℚ) ^ exponent ≤ |x|) : exponent - 52 ≤ lastBit x := by
  have positive : 0 < |x| := lt_of_lt_of_le (zpow_pos (by norm_num) _) low
  have above := (Int.zpow_le_iff_le_log (b := 2) (by norm_num) positive).mp (by exact_mod_cast low)
  rw [lastBit]
  omega

/-- Above the lowest of all, the last bit that is kept is 52 places below the leading one. -/
theorem leading_of_lastBit (nonzero : x ≠ 0) (high : -1074 < lastBit x) :
    (2 : ℚ) ^ (lastBit x + 52) ≤ |x| ∧ |x| < 2 ^ (lastBit x + 53) := by
  have log : Int.log 2 |x| = lastBit x + 52 := by
    rw [lastBit] at high ⊢
    omega
  have low := Int.zpow_log_le_self (b := 2) (by norm_num) (abs_pos.mpr nonzero)
  have top := Int.lt_zpow_succ_log_self (b := 2) (by norm_num) |x|
  rw [log] at low top
  rw [add_assoc] at top
  exact ⟨by exact_mod_cast low, by exact_mod_cast top⟩

private theorem zpow_lastBit_le (normal : (2 : ℚ) ^ (-1022 : ℤ) ≤ |x|) :
    (2 : ℚ) ^ lastBit x ≤ |x| * 2 ^ (-52 : ℤ) := by
  have positive : 0 < |x| := lt_of_lt_of_le (zpow_pos (by norm_num) _) normal
  have log := (Int.zpow_le_iff_le_log (b := 2) (by norm_num) positive).mp (by exact_mod_cast normal)
  have last : lastBit x = Int.log 2 |x| + -52 := by
    rw [lastBit]
    omega
  have low := Int.zpow_log_le_self (b := 2) (by norm_num) positive
  rw [last, zpow_add₀ (by norm_num)]
  exact mul_le_mul_of_nonneg_right (by exact_mod_cast low) (by positivity)

/-! ## Results of rounding -/

theorem Rounds.neg (rounds : Rounds x r) : Rounds (-x) (-r) := by
  obtain ⟨count, nearest, rfl⟩ := rounds
  refine ⟨-count, ?_, ?_⟩
  · rw [lastBit_neg, neg_div]
    exact nearest.neg
  · rw [lastBit_neg]
    push_cast
    ring

theorem Rounds.nonneg (rounds : Rounds x r) (positive : 0 ≤ x) : 0 ≤ r := by
  obtain ⟨count, nearest, rfl⟩ := rounds
  have counted := nearest.nonneg (div_nonneg positive (zpow_lastBit_pos x).le)
  exact mul_nonneg (by exact_mod_cast counted) (zpow_lastBit_pos x).le

theorem abs_sub_scaled (x : ℚ) (count : ℤ) {scale : ℚ} (positive : 0 < scale) :
    |x - count * scale| = |x / scale - count| * scale := by
  rw [← abs_of_pos positive, ← abs_mul, abs_of_pos positive, sub_mul,
    div_mul_cancel₀ x positive.ne']

theorem Rounds.error (rounds : Rounds x r) : |x - r| ≤ 2 ^ lastBit x / 2 := by
  obtain ⟨count, nearest, rfl⟩ := rounds
  rw [abs_sub_scaled x count (zpow_lastBit_pos x)]
  have := mul_le_mul_of_nonneg_right nearest.1 (zpow_lastBit_pos x).le
  linarith

theorem Rounds.relative (rounds : Rounds x r) (normal : (2 : ℚ) ^ (-1022 : ℤ) ≤ |x|) :
    |x - r| ≤ |x| * 2 ^ (-53 : ℤ) := by
  have half : |x| * (2 : ℚ) ^ (-53 : ℤ) = |x| * 2 ^ (-52 : ℤ) / 2 := by norm_num; ring
  rw [half]
  exact rounds.error.trans (div_le_div_of_nonneg_right (zpow_lastBit_le normal) (by norm_num))

/-- What is left of a number at the least when it is rounded once. -/
def leastShare : ℚ := 1 - 2 ^ (-53 : ℤ)

theorem leastShare_bounds : 0 < leastShare ∧ leastShare ≤ 1 := by
  norm_num [leastShare]

theorem Rounds.share (rounds : Rounds x r) (normal : (2 : ℚ) ^ (-1022 : ℤ) ≤ x) :
    leastShare * x ≤ r := by
  have positive : 0 ≤ x := (zpow_pos (by norm_num : (0 : ℚ) < 2) _).le.trans normal
  have close := rounds.relative (normal.trans (le_abs_self x))
  rw [abs_of_nonneg positive] at close
  have below := (abs_le.mp close).2
  rw [leastShare, sub_mul, one_mul]
  linarith

theorem Precise.neg (precise : Precise y) : Precise (-y) := by
  obtain ⟨count, exponent, rfl, bits, low⟩ := precise
  refine ⟨-count, exponent, ?_, ?_, low⟩
  · push_cast
    ring
  · rwa [abs_neg]

theorem Rounds.closest_multiple (rounds : Rounds x r) (other : ℤ) :
    |x - r| ≤ |x - other * 2 ^ lastBit x| := by
  obtain ⟨count, nearest, rfl⟩ := rounds
  have positive := zpow_lastBit_pos x
  rw [abs_sub_scaled x _ positive, abs_sub_scaled x _ positive]
  exact mul_le_mul_of_nonneg_right (nearest.closest other) positive.le

theorem Rounds.closest_of_pos (rounds : Rounds x r) (positive : 0 < x) (precise : Precise y) :
    |x - r| ≤ |x - y| := by
  obtain ⟨own, exponent, rfl, bits, low⟩ := precise
  rcases le_or_gt (lastBit x) exponent with onGrid | finer
  · have split : exponent = ((exponent - lastBit x).toNat : ℤ) + lastBit x := by omega
    have multiple : (own : ℚ) * 2 ^ exponent =
        (own * 2 ^ (exponent - lastBit x).toNat : ℤ) * 2 ^ lastBit x := by
      conv_lhs => rw [split, zpow_add₀ (by norm_num), zpow_natCast, ← mul_assoc]
      push_cast
      rfl
    rw [multiple]
    exact rounds.closest_multiple _
  · -- A finer number is no larger than the power of two that the number starts with.
    obtain ⟨leading, _⟩ := leading_of_lastBit positive.ne' (by omega)
    have power : ((2 ^ 52 : ℤ) : ℚ) * 2 ^ lastBit x = 2 ^ (lastBit x + 52) := by
      rw [add_comm, zpow_add₀ (by norm_num)]
      norm_num
    have small : (own : ℚ) * 2 ^ exponent ≤ 2 ^ (lastBit x + 52) := by
      have bound : (own : ℚ) ≤ 2 ^ 53 := by exact_mod_cast (abs_le.mp bits).2
      calc (own : ℚ) * 2 ^ exponent ≤ 2 ^ 53 * 2 ^ exponent :=
            mul_le_mul_of_nonneg_right bound (zpow_pos (by norm_num) _).le
        _ = 2 ^ (53 + exponent) := by rw [zpow_add₀ (by norm_num)]; norm_num
        _ ≤ 2 ^ (lastBit x + 52) := zpow_le_zpow_right₀ (by norm_num) (by omega)
    rw [abs_of_pos positive] at leading
    calc |x - r| ≤ |x - (2 ^ 52 : ℤ) * 2 ^ lastBit x| := rounds.closest_multiple _
      _ = x - 2 ^ (lastBit x + 52) := by rw [power, abs_of_nonneg (sub_nonneg.mpr leading)]
      _ ≤ x - own * 2 ^ exponent := sub_le_sub_left small x
      _ ≤ |x - own * 2 ^ exponent| := le_abs_self _

/-- No number of double precision is closer to a number than the result of rounding it. -/
theorem Rounds.closest (rounds : Rounds x r) (precise : Precise y) : |x - r| ≤ |x - y| := by
  rcases lt_trichotomy x 0 with negative | rfl | positive
  · have mirrored := rounds.neg.closest_of_pos (neg_pos.mpr negative) precise.neg
    rw [neg_sub_neg, neg_sub_neg, abs_sub_comm r, abs_sub_comm y] at mirrored
    exact mirrored
  · have zero := rounds.closest_multiple 0
    rw [Int.cast_zero, zero_mul, sub_self, abs_zero] at zero
    exact zero.trans (abs_nonneg _)
  · exact rounds.closest_of_pos positive precise

/-- A number of double precision is not changed by rounding. -/
theorem Rounds.eq_of_precise (rounds : Rounds x r) (precise : Precise x) : r = x := by
  have none := rounds.closest precise
  rw [sub_self, abs_zero] at none
  have := abs_nonpos_iff.mp none
  linarith

theorem Rounds.le_of_precise (rounds : Rounds x r) (precise : Precise y) (below : x ≤ y) : r ≤ y := by
  have closest := rounds.closest precise
  rw [abs_of_nonpos (sub_nonpos.mpr below), abs_sub_comm] at closest
  have := le_abs_self (r - x)
  linarith

theorem Rounds.ge_of_precise (rounds : Rounds x r) (precise : Precise y) (above : y ≤ x) : y ≤ r := by
  have mirrored := rounds.neg.le_of_precise precise.neg (neg_le_neg above)
  exact neg_le_neg_iff.mp mirrored

theorem Rounds.abs_le_of_precise (rounds : Rounds x r) (precise : Precise y) (below : |x| ≤ y) :
    |r| ≤ y := by
  obtain ⟨low, high⟩ := abs_le.mp below
  exact abs_le.mpr ⟨rounds.ge_of_precise precise.neg low, rounds.le_of_precise precise high⟩

end Kerf.Doubles
