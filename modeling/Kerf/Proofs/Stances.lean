import Kerf.Proofs.NearestNumerals
import Kerf.Proofs.RotaryTravel

/-!
# Stances within the limits

Two stances reach a direction. The far one is taken when its tilt is within the limits and it needs
less travel; whether its spin is within the limits is not asked, and neither is whether the near one
is within them.

Main statement: `solve_within`. A tilt within the limits is never given up. Where one of the stances is
within the limits, the chosen one is too except in two cases: the near stance is within them and left
for a far one whose spin is not, or it is not within them and kept. A table that spins half a turn
either way has no trouble with the spin: there the chosen stance is within the limits whenever the tilt
of the near one is.
-/

set_option autoImplicit false

namespace Kerf

/-! ## Rounding errors -/

namespace Doubles

/-- What rounding changes at the most in a number below a power of two. -/
theorem Rounds.error_le {x r : ℚ} (rounds : Rounds x r) (power : ℤ) (small : |x| < 2 ^ power)
    (normal : -1021 ≤ power) : |x - r| ≤ 2 ^ (power - 54) := by
  rcases eq_or_ne x 0 with rfl | nonzero
  · rw [rounds.eq_of_precise ⟨0, 0, by simp, by simp, by norm_num⟩, sub_self, abs_zero]
    positivity
  · have order : Int.log 2 |x| < power :=
      (Int.lt_zpow_iff_log_lt (by norm_num) (abs_pos.mpr nonzero)).mp (by exact_mod_cast small)
    have bit : lastBit x ≤ power - 53 := max_le (by omega) (by omega)
    calc |x - r| ≤ 2 ^ lastBit x / 2 := rounds.error
      _ ≤ 2 ^ (power - 53) / 2 :=
        div_le_div_of_nonneg_right (zpow_le_zpow_right₀ (by norm_num) bit) (by norm_num)
      _ = 2 ^ (power - 53 - 1) := (zpow_sub_one₀ (by norm_num) _).symm
      _ = 2 ^ (power - 54) := by rw [sub_sub]; norm_num

section

variable {x y : Float} {bound bound' : ℤ}

theorem Between.size (between : Between (-bound) bound x) : |value x| ≤ bound :=
  abs_le.mpr ⟨by exact_mod_cast between.low, between.high⟩

theorem rounds_of_spec {z : Float} {result : ℚ} (power : ℕ)
    (spec : |result| ≤ 2 ^ 1023 → Fits 971 z ∧ Rounds result (value z)) (small : |result| < 2 ^ power)
    (top : power ≤ 1023) :
    Fits 971 z ∧ Rounds result (value z) ∧ |result - value z| ≤ 2 ^ ((power : ℤ) - 54) := by
  obtain ⟨fits, rounds⟩ := spec (small.le.trans (pow_le_pow_right₀ (by norm_num) top))
  exact ⟨fits, rounds, rounds.error_le power (by exact_mod_cast small) (by omega)⟩

/-- An operation whose exact result is of moderate size is off by little. -/
theorem close_of_spec {z : Float} {result : ℚ}
    (spec : |result| ≤ 2 ^ 1023 → Fits 971 z ∧ Rounds result (value z)) (limited : |result| ≤ bound)
    (small : bound < 2 ^ 40) : |result - value z| ≤ 2 ^ (-14 : ℤ) :=
  (rounds_of_spec 40 spec (limited.trans_lt (by exact_mod_cast small)) (by norm_num)).2.2

theorem close_sub (left : Between (-bound) bound x) (right : Between (-bound') bound' y)
    (small : bound + bound' < 2 ^ 40) : |value x - value y - value (x - y)| ≤ 2 ^ (-14 : ℤ) := by
  refine close_of_spec (value_sub left.fits right.fits) ?_ small
  push_cast
  exact (abs_sub _ _).trans (add_le_add left.size right.size)

private theorem close_mul (left : Between (-bound) bound x) (right : Between (-bound') bound' y)
    (small : bound * bound' < 2 ^ 40) : |value x * value y - value (x * y)| ≤ 2 ^ (-14 : ℤ) := by
  refine close_of_spec (value_mul left.fits right.fits) ?_ small
  rw [abs_mul]
  push_cast
  exact mul_le_mul left.size right.size (abs_nonneg _) ((abs_nonneg _).trans left.size)

private theorem close_div (left : Between (-bound) bound x) (fits : Fits 971 y) (long : 1 ≤ value y)
    (small : bound < 2 ^ 40) : |value x / value y - value (x / y)| ≤ 2 ^ (-14 : ℤ) := by
  have positive : 0 < value y := lt_of_lt_of_le one_pos long
  refine close_of_spec (value_div left.fits fits positive.ne') ?_ small
  rw [abs_div, abs_of_pos positive]
  exact (div_le_self (abs_nonneg _) long).trans left.size

end

end Doubles

namespace Rotary

open Doubles
open Kerf.Scalar

/-! ## Whole turns -/

section

variable {b reference bMax : Float}

theorem turn_eq : value turn = 2 * value pi := by decide +kernel

theorem one_le_turn : 1 ≤ value turn := by exact_mod_cast between_turn.low

theorem between_turn_symmetric : Between (-7) 7 turn := between_turn.symmetric (by norm_num) (le_refl _)

/-- Whole turns bring an angle close to its reference. -/
theorem between_unwrap (angle : Between (-2 ^ 29) (2 ^ 29) b)
    (origin : Between (-2 ^ 24) (2 ^ 24) reference) :
    Between (-2 ^ 25) (2 ^ 25) (unwrap b reference) := by
  have short : value turn ≤ 7 := by exact_mod_cast between_turn.high
  have apart : Between (-2 ^ 30) (2 ^ 30) (b - reference) :=
    (angle.sub origin (by norm_num) (by norm_num)).mono (by norm_num) (by norm_num)
  have ratio : Between (-2 ^ 30) (2 ^ 30) ((b - reference) / turn) :=
    apart.div between_turn.fits one_le_turn (by norm_num) (by norm_num) (by norm_num) (by norm_num)
  have count := between_nearestWhole ratio (by norm_num)
  have turns := between_turn_symmetric.mul count (by norm_num)
  -- One turn at the most is lost where the count is rounded; all other errors are far below one.
  have first := close_sub angle origin (by norm_num)
  have second := close_div apart between_turn.fits one_le_turn (by norm_num)
  have third := abs_nearestWhole_sub_le ratio (by norm_num)
  have fourth := close_mul between_turn_symmetric count (by norm_num)
  have last := close_sub angle turns (by norm_num)
  generalize value (nearestWhole ((b - reference) / turn)) = n at third fourth
  have whole : |value (b - reference) - value turn * n| ≤ 7 * (1 + 2 ^ (-14 : ℤ)) := by
    have positive : 0 < value turn := lt_of_lt_of_le one_pos one_le_turn
    have scaled : value (b - reference) - value turn * n =
        value turn * (value (b - reference) / value turn - n) := by
      rw [mul_sub, mul_div_cancel₀ _ positive.ne']
    rw [scaled, abs_mul, abs_of_pos positive]
    refine mul_le_mul short ?_ (abs_nonneg _) (by norm_num)
    rw [abs_sub_comm] at third
    calc |value (b - reference) / value turn - n|
        ≤ |value (b - reference) / value turn - value ((b - reference) / turn)| +
            |value ((b - reference) / turn) - n| := abs_sub_le _ _ _
      _ ≤ 1 + 2 ^ (-14 : ℤ) := by linarith
  rw [abs_le] at first fourth last whole
  norm_num at first fourth last whole
  have low := origin.low
  have high := origin.high
  push_cast at low high
  refine ⟨(angle.sub turns (by norm_num) (by norm_num)).fits, ?_, ?_⟩
  · push_cast
    unfold unwrap
    linarith
  · push_cast
    unfold unwrap
    linarith

/-! ## Pulling an angle within its limit -/

theorem pullDown_of_le (low : ¬ b > bMax) : pullDown bMax b = b := by
  rw [pullDown, decide_eq_false low, Bool.false_and]
  rfl

theorem pullUp_of_ge (high : ¬ b < -bMax) : pullUp bMax b = b := by
  rw [pullUp, decide_eq_false high, Bool.false_and]
  rfl

theorem precise_limit (finite : Fits 971 bMax) : Precise (value bMax) :=
  precise_of_canonical (canonical_of_fits finite)

theorem rounds_sub_turn (angle : Between (-2 ^ 25) (2 ^ 25) b) :
    Fits 971 (b - turn) ∧ Rounds (value b - value turn) (value (b - turn)) ∧
      |value b - value turn - value (b - turn)| ≤ 2 ^ (-28 : ℤ) := by
  refine rounds_of_spec 26 (value_sub angle.fits between_turn.fits) ?_ (by norm_num)
  calc |value b - value turn| ≤ |value b| + |value turn| := abs_sub _ _
    _ ≤ 2 ^ 25 + 7 :=
      add_le_add (by exact_mod_cast angle.size) (by exact_mod_cast between_turn_symmetric.size)
    _ < 2 ^ 26 := by norm_num

theorem rounds_add_turn (angle : Between (-2 ^ 25) (2 ^ 25) b) :
    Fits 971 (b + turn) ∧ Rounds (value b + value turn) (value (b + turn)) ∧
      |value b + value turn - value (b + turn)| ≤ 2 ^ (-28 : ℤ) := by
  refine rounds_of_spec 26 (value_add angle.fits between_turn.fits) ?_ (by norm_num)
  calc |value b + value turn| ≤ |value b| + |value turn| := abs_add_le _ _
    _ ≤ 2 ^ 25 + 7 :=
      add_le_add (by exact_mod_cast angle.size) (by exact_mod_cast between_turn_symmetric.size)
    _ < 2 ^ 26 := by norm_num

/-- With half a turn either way, an angle above the limit gets down to it and not below the negative
limit. -/
theorem pullDown_within (finite : Fits 971 bMax) (half : value pi ≤ value bMax)
    (angle : Between (-2 ^ 25) (2 ^ 25) b) (above : -value bMax ≤ value b) :
    Fits 971 (pullDown bMax b) ∧ |value (pullDown bMax b)| ≤ value bMax := by
  have opposite := fits_neg finite (by norm_num) (le_refl _)
  fun_induction pullDown bMax b with
  | case1 b loop _ ih =>
      obtain ⟨high, stays⟩ := Bool.and_eq_true_iff.mp loop
      obtain ⟨fits, _, _⟩ := rounds_sub_turn angle
      have moved := angle.sub between_turn (by norm_num) (by norm_num)
      have limit := angle.high
      rw [decide_eq_true_iff, gt_iff_lt, lt_iff finite angle.fits] at high
      rw [decide_eq_true_iff, ge_iff_le, le_iff opposite fits, value_neg finite] at stays
      refine ih ⟨fits, ?_, moved.high.trans (by norm_num)⟩ stays
      push_cast at limit ⊢
      linarith
  | case2 b loop stuck =>
      obtain ⟨high, _⟩ := Bool.and_eq_true_iff.mp loop
      obtain ⟨fits, _, close⟩ := rounds_sub_turn angle
      rw [decide_eq_true_iff, gt_iff_lt, lt_iff finite angle.fits] at high
      norm_num [abs_le] at close
      refine absurd (doublesUpTo_lt fits angle.fits ?_ ?_) stuck
      · linarith [turn_eq, one_le_turn]
      · linarith [one_le_turn]
  | case3 b stops =>
      obtain ⟨fits, rounds, _⟩ := rounds_sub_turn angle
      refine ⟨angle.fits, abs_le.mpr ⟨above, not_lt.mp fun high => stops ?_⟩⟩
      have stays : -value bMax ≤ value (b - turn) :=
        rounds.ge_of_precise (precise_limit finite).neg (by linarith [turn_eq])
      rw [Bool.and_eq_true_iff, decide_eq_true_iff, decide_eq_true_iff, gt_iff_lt, ge_iff_le,
        lt_iff finite angle.fits, le_iff opposite fits, value_neg finite]
      exact ⟨high, stays⟩

private theorem pullUp_within (finite : Fits 971 bMax) (half : value pi ≤ value bMax)
    (angle : Between (-2 ^ 25) (2 ^ 25) b) (below : value b ≤ value bMax) :
    Fits 971 (pullUp bMax b) ∧ |value (pullUp bMax b)| ≤ value bMax := by
  have opposite := fits_neg finite (by norm_num) (le_refl _)
  fun_induction pullUp bMax b with
  | case1 b loop _ ih =>
      obtain ⟨low, stays⟩ := Bool.and_eq_true_iff.mp loop
      obtain ⟨fits, _, _⟩ := rounds_add_turn angle
      have moved := angle.add between_turn (by norm_num) (by norm_num)
      have limit := angle.low
      rw [decide_eq_true_iff, lt_iff angle.fits opposite, value_neg finite] at low
      rw [decide_eq_true_iff, le_iff fits finite] at stays
      refine ih ⟨fits, le_trans (by norm_num) moved.low, ?_⟩ stays
      push_cast at limit ⊢
      linarith
  | case2 b loop stuck =>
      obtain ⟨low, _⟩ := Bool.and_eq_true_iff.mp loop
      obtain ⟨fits, _, close⟩ := rounds_add_turn angle
      rw [decide_eq_true_iff, lt_iff angle.fits opposite, value_neg finite] at low
      norm_num [abs_le] at close
      refine absurd (doublesUpTo_lt (fits_neg fits (by norm_num) (le_refl _))
        (fits_neg angle.fits (by norm_num) (le_refl _)) ?_ ?_) stuck
      · rw [value_neg angle.fits]
        linarith [turn_eq, one_le_turn]
      · rw [value_neg angle.fits, value_neg fits]
        linarith [one_le_turn]
  | case3 b stops =>
      obtain ⟨fits, rounds, _⟩ := rounds_add_turn angle
      refine ⟨angle.fits, abs_le.mpr ⟨not_lt.mp fun low => stops ?_, below⟩⟩
      have stays : value (b + turn) ≤ value bMax :=
        rounds.le_of_precise (precise_limit finite) (by linarith [turn_eq])
      rw [Bool.and_eq_true_iff, decide_eq_true_iff, decide_eq_true_iff,
        lt_iff angle.fits opposite, le_iff fits finite, value_neg finite]
      exact ⟨low, stays⟩

private theorem abs_pull_le (finite : Fits 971 bMax) (half : value pi ≤ value bMax)
    (angle : Between (-2 ^ 25) (2 ^ 25) b) :
    Fits 971 (pull b bMax) ∧ |value (pull b bMax)| ≤ value bMax := by
  have opposite := fits_neg finite (by norm_num) (le_refl _)
  unfold pull
  rcases le_or_gt (value b) (value bMax) with low | high
  · rw [pullDown_of_le (by rwa [gt_iff_lt, lt_iff finite angle.fits, not_lt])]
    exact pullUp_within finite half angle low
  · obtain ⟨fits, within⟩ := pullDown_within finite half angle
      (by linarith [turn_eq, one_le_turn])
    have stays : ¬ pullDown bMax b < -bMax := by
      rw [lt_iff fits opposite, value_neg finite, not_lt]
      exact (abs_le.mp within).1
    rw [pullUp_of_ge stays]
    exact ⟨fits, within⟩

private theorem pull_of_infinite (infinite : bMax.toModel.unpack = .infinity .positive) :
    pull b bMax = b := by
  have low : ¬ b > bMax := by
    rw [gt_iff_lt, lt_iff_rank, (top_of_infinite infinite).2]
    exact fun above => not_top_lt above.2.2
  have high : ¬ b < -bMax := by
    rw [lt_iff_rank, (bottom_of_infinite (unpack_neg_infinity infinite)).2]
    exact fun below => not_lt_bot below.2.2
  unfold pull
  rw [pullDown_of_le low, pullUp_of_ge high]

/-- With half a turn either way, whole turns bring every angle within the limit. -/
theorem pull_within (half : pi ≤ bMax) (angle : Between (-2 ^ 25) (2 ^ 25) b) :
    Fits 971 (pull b bMax) ∧ (pull b bMax).abs ≤ bMax := by
  have fits : Fits 971 pi := Trig.between_angles.2.2.2.2.1.fits
  by_cases finite : Fits 971 bMax
  · obtain ⟨pulled, within⟩ := abs_pull_le finite ((le_iff fits finite).mp half) angle
    refine ⟨pulled, ?_⟩
    rwa [le_iff (fits_abs pulled) finite, value_abs pulled]
  · have infinite := unpack_of_le fits half finite
    rw [pull_of_infinite infinite]
    refine ⟨angle.fits, le_iff_rank.mpr ⟨isNumber_of_fits (fits_abs angle.fits), ?_⟩⟩
    obtain ⟨number, top⟩ := top_of_infinite infinite
    exact ⟨number, top ▸ le_top⟩

end

/-! ## The two stances -/

/-- The stance with the tilt in `[-π/2, π/2]`, its spin brought close to a previous setting. -/
def nearStance (direction : Vec) (previous : Setting) (limits : Limits) : Setting :=
  ⟨(Setting.primary direction).a, pull (unwrap (Setting.primary direction).b previous.b) limits.bMax⟩

/-- The other stance, its spin brought close to the same setting. -/
def farStance (direction : Vec) (previous : Setting) (limits : Limits) : Setting :=
  let other := (nearStance direction previous limits).alternate
  ⟨other.a, pull (unwrap other.b previous.b) limits.bMax⟩

/-- Whether the far stance has its tilt within the limits and needs less travel. -/
def prefersFar (direction : Vec) (previous : Setting) (limits : Limits) : Bool :=
  let far := farStance direction previous limits
  !(far.a < limits.aMin || far.a > limits.aMax) &&
    previous.cost far < previous.cost (nearStance direction previous limits)

/-- Whether a setting is within the travel of both axes. -/
def Limits.allows (limits : Limits) (setting : Setting) : Bool :=
  limits.allowsA setting && limits.allowsB setting

section

variable {direction : Vec} {previous : Setting} {limits : Limits}

theorem solve_eq (off : atCusp (Setting.primary direction).a = false) :
    solve direction previous limits = if prefersFar direction previous limits then
      farStance direction previous limits else nearStance direction previous limits := by
  change (if atCusp (Setting.primary direction).a then _ else
    if (farStance direction previous limits).a < limits.aMin ||
        (farStance direction previous limits).a > limits.aMax then nearStance direction previous limits
    else if previous.cost (farStance direction previous limits) <
        previous.cost (nearStance direction previous limits) then farStance direction previous limits
    else nearStance direction previous limits) = _
  rw [off, if_neg Bool.false_ne_true, prefersFar]
  split
  · next outside => rw [outside]; rfl
  · next inside =>
      rw [Bool.not_eq_true] at inside
      rw [inside, Bool.not_false, Bool.true_and]
      simp only [decide_eq_true_eq]

theorem limitSlack_spec : Fits 971 limitSlack ∧ 0 ≤ value limitSlack ∧ value limitSlack ≤ 1 := by
  decide +kernel

/-- The far stance is only taken with its tilt within the limits, so a tilt that can be compared with
them stays so. -/
theorem allowsA_far (allowed : limits.allowsA (nearStance direction previous limits) = true)
    (preferred : prefersFar direction previous limits = true) :
    limits.allowsA (farStance direction previous limits) = true := by
  obtain ⟨slack, nonneg, small⟩ := limitSlack_spec
  unfold Limits.allowsA at allowed ⊢
  rw [Bool.and_eq_true_iff, decide_eq_true_iff, decide_eq_true_iff] at allowed ⊢
  obtain ⟨above, below⟩ := allowed
  obtain ⟨lowest, number, _⟩ := le_iff_rank.mp above
  obtain ⟨_, highest, _⟩ := le_iff_rank.mp below
  have far : IsNumber (farStance direction previous limits).a :=
    isNumber_sub Trig.between_angles.2.2.2.2.1.fits number
  unfold prefersFar at preferred
  simp only [Bool.and_eq_true, Bool.not_eq_true', Bool.or_eq_false_iff, decide_eq_false_iff_not]
    at preferred
  obtain ⟨⟨low, high⟩, _⟩ := preferred
  exact ⟨sub_small_le (le_of_not_less far (isNumber_of_sub lowest) low) slack nonneg small,
    le_add_small (le_of_not_less (isNumber_of_add highest) far high) slack nonneg small⟩

theorem allowsA_solve (off : atCusp (Setting.primary direction).a = false)
    (allowed : limits.allowsA (nearStance direction previous limits) = true) :
    limits.allowsA (solve direction previous limits) = true := by
  rw [solve_eq off]
  split
  · next preferred => exact allowsA_far allowed preferred
  · exact allowed

theorem allowsB_of_abs_le {setting : Setting} (within : setting.b.abs ≤ limits.bMax) :
    limits.allowsB setting = true := by
  obtain ⟨slack, nonneg, small⟩ := limitSlack_spec
  exact decide_eq_true (le_add_small within slack nonneg small)

/-- With half a turn either way, both stances have their spin within the limits. -/
theorem allowsB_stances (half : pi ≤ limits.bMax) (across : Fits 971 direction.x)
    (along : Fits 971 direction.z) (origin : Between (-2 ^ 24) (2 ^ 24) previous.b) :
    limits.allowsB (nearStance direction previous limits) = true ∧
      limits.allowsB (farStance direction previous limits) = true := by
  have first : Between (-2 ^ 24) (2 ^ 24) (Setting.primary direction).b :=
    (moderate_primary direction).2
      (Trig.fits_direction (fits_neg across (by norm_num) (le_refl _)) along)
  have unwrapped := between_unwrap (first.mono (by norm_num) (by norm_num)) origin
  obtain ⟨fits, near⟩ := pull_within half unwrapped
  have pulled : Between (-2 ^ 25) (2 ^ 25) (nearStance direction previous limits).b :=
    moderate_pull unwrapped.moderate (by norm_num) (by norm_num) fits
  have turned := pulled.add Trig.between_angles.2.2.2.2.1 (by norm_num) (by norm_num)
  have other := between_unwrap (turned.mono (by norm_num) (by norm_num)) origin
  obtain ⟨_, far⟩ := pull_within half other
  exact ⟨allowsB_of_abs_le near, allowsB_of_abs_le far⟩

private theorem allows_solve_iff (off : atCusp (Setting.primary direction).a = false)
    (reachable : limits.allows (nearStance direction previous limits) = true ∨
      limits.allows (farStance direction previous limits) = true) :
    limits.allows (solve direction previous limits) = true ↔
      if limits.allows (nearStance direction previous limits) then
        prefersFar direction previous limits = true →
          limits.allowsB (farStance direction previous limits) = true
      else prefersFar direction previous limits = true := by
  rw [solve_eq off]
  by_cases near : limits.allows (nearStance direction previous limits) = true
  · rw [if_pos near]
    by_cases preferred : prefersFar direction previous limits = true
    · have tilt := allowsA_far (Bool.and_eq_true_iff.mp near).1 preferred
      rw [if_pos preferred, Limits.allows, tilt, Bool.true_and]
      exact ⟨fun far _ => far, fun far => far preferred⟩
    · rw [if_neg preferred]
      exact ⟨fun _ taken => absurd taken preferred, fun _ => near⟩
  · rw [if_neg near]
    by_cases preferred : prefersFar direction previous limits = true
    · rw [if_pos preferred]
      exact ⟨fun _ => preferred, fun _ => reachable.resolve_left near⟩
    · rw [if_neg preferred]
      exact ⟨fun allowed => absurd allowed near, fun taken => absurd taken preferred⟩

/-- When the chosen stance is within the limits. -/
theorem solve_within (off : atCusp (Setting.primary direction).a = false) :
    (limits.allowsA (nearStance direction previous limits) = true →
      limits.allowsA (solve direction previous limits) = true) ∧
    (limits.allows (nearStance direction previous limits) = true ∨
        limits.allows (farStance direction previous limits) = true →
      (limits.allows (solve direction previous limits) = true ↔
        if limits.allows (nearStance direction previous limits) then
          prefersFar direction previous limits = true →
            limits.allowsB (farStance direction previous limits) = true
        else prefersFar direction previous limits = true)) ∧
    (pi ≤ limits.bMax → direction.x.isFinite = true → direction.z.isFinite = true →
      Between (-2 ^ 24) (2 ^ 24) previous.b →
      limits.allowsA (nearStance direction previous limits) = true →
      limits.allows (solve direction previous limits) = true) := by
  refine ⟨allowsA_solve off, allows_solve_iff off, ?_⟩
  intro half across along origin allowed
  obtain ⟨near, far⟩ := allowsB_stances half (fits_iff_isFinite.mpr across)
    (fits_iff_isFinite.mpr along) origin
  rw [Limits.allows, allowsA_solve off allowed, Bool.true_and, solve_eq off]
  split
  · exact far
  · exact near

end

/-- From a thousand radians away the spin still comes back within its travel. -/
theorem solve_within_upright :
    let limits : Limits := ⟨-1, 4, 4⟩
    atCusp (Setting.primary ⟨0, 0, 1⟩).a = false ∧ pi ≤ limits.bMax ∧
      Between (-2 ^ 24) (2 ^ 24) 1000 ∧
        limits.allows (solve ⟨0, 0, 1⟩ ⟨3, 1000⟩ limits) = true := by
  have off : atCusp (Setting.primary ⟨0, 0, 1⟩).a = false := by decide +kernel
  have half : pi ≤ (4 : Float) := by decide +kernel
  have origin : Between (-2 ^ 24) (2 ^ 24) 1000 := by decide +kernel
  exact ⟨off, half, origin, (solve_within off).2.2 half (by decide +kernel) (by decide +kernel) origin
    (by decide +kernel)⟩

/-- A table with a short spin leaves a stance within the limits for one that is nearer and beyond them. -/
theorem solve_beyond_spin :
    let limits : Limits := ⟨-4, 4, 1⟩
    atCusp (Setting.primary ⟨0, 0, 1⟩).a = false ∧
      limits.allows (nearStance ⟨0, 0, 1⟩ ⟨3, 3⟩ limits) = true ∧
        limits.allows (solve ⟨0, 0, 1⟩ ⟨3, 3⟩ limits) = false := by
  decide +kernel

-- A tilt beyond its limit is kept where the other stance is within the limits and farther away.
example :
    let limits : Limits := ⟨1, 4, 4⟩
    atCusp (Setting.primary ⟨0, 0, 1⟩).a = false ∧
      limits.allows (farStance ⟨0, 0, 1⟩ ⟨0, 0⟩ limits) = true ∧
        limits.allows (solve ⟨0, 0, 1⟩ ⟨0, 0⟩ limits) = false := by
  decide +kernel

end Rotary

end Kerf
