import Kerf.Machine.Basic
import Kerf.Proofs.Numbers
import Kerf.Proofs.WholeParts

/-!
# Bounds of rotary travel

However long the limits of a table are, the rotary travel between two directions is small whenever it
is a number at all. The bounds are crude: they only have to keep counts of steps within a word. They
follow the arc functions, the choice of a stance and the shifts by whole turns.
-/

set_option autoImplicit false

namespace Kerf

namespace Doubles

/-- Whether a double is small unless it is no finite number. -/
def Moderate (bound : ℤ) (x : Float) : Prop := Fits 971 x → Between (-bound) bound x

section

variable {x y : Float} {bound bound' : ℤ}

theorem Between.moderate (between : Between (-bound) bound x) : Moderate bound x := fun _ => between

theorem Between.symmetric {low high : ℤ} (between : Between low high x) (lower : -bound ≤ low)
    (upper : high ≤ bound) : Between (-bound) bound x :=
  between.mono lower upper

theorem Between.nonneg (between : Between (-bound) bound x) : 0 ≤ bound := by
  have : -bound ≤ bound := Int.cast_le.mp (between.low.trans between.high)
  omega

theorem Moderate.mono (moderate : Moderate bound x) (wider : bound ≤ bound') : Moderate bound' x :=
  fun fits => (moderate fits).symmetric (by omega) wider

theorem Moderate.add (left : Moderate bound x) (right : Moderate bound' y)
    (small : bound + bound' ≤ 2 ^ 53) : Moderate (bound + bound') (x + y) := by
  intro fits
  obtain ⟨first, second⟩ := fits_of_add fits
  exact ((left first).add (right second) (by omega) small).symmetric (by omega) (le_refl _)

theorem Moderate.sub (left : Moderate bound x) (right : Moderate bound' y)
    (small : bound + bound' ≤ 2 ^ 53) : Moderate (bound + bound') (x - y) := by
  intro fits
  obtain ⟨first, second⟩ := fits_of_sub fits
  exact ((left first).sub (right second) (by omega) (by omega)).symmetric (by omega) (by omega)

theorem Moderate.neg (moderate : Moderate bound x) : Moderate bound (-x) :=
  fun fits => (moderate (fits_of_neg fits)).neg.symmetric (le_refl _) (by omega)

end

end Doubles

/-! ## Arc functions -/

namespace Trig

open Doubles
open Kerf.Scalar

/-- The angles that the arc functions add up, and their largest results. -/
theorem between_angles :
    Between (-4) 4 0 ∧ Between (-4) 4 0.7853981633974483 ∧ Between (-4) 4 quarterTurn ∧
      Between (-4) 4 2.356194490192345 ∧ Between (-4) 4 pi ∧ Between (-4) 4 quarterTurnRest ∧
      Between (-4) 4 (0.5 * quarterTurnRest) := by
  decide +kernel

/-- Where the arc tangent passes from one reduction to the next. -/
theorem between_limits : Between 0 1 0.66 ∧ Between 1 3 2.41421356237309504880 := by decide +kernel

section

variable {others : List Float} {first x : Float} {low high bottom top : ℤ}

/-- Each coefficient of a polynomial on `[0, 4]` adds to at most four times the ones before it. -/
theorem between_steps (coefficients : ∀ c ∈ others, Between (-low) high c)
    (start : Between (-bottom) top first) (argument : Between 0 4 x) (lower : low ≤ bottom)
    (upper : high ≤ top) (negative : 0 ≤ bottom) (positive : 0 ≤ top)
    (small : (bottom + top) * 5 ^ others.length ≤ 2 ^ 53) :
    Between (-(bottom * 5 ^ others.length)) (top * 5 ^ others.length) (horner (first :: others) x) := by
  induction others generalizing first bottom top with
  | nil => simpa [horner] using start
  | cons c others ih =>
      obtain ⟨own, later⟩ := List.forall_mem_cons.mp coefficients
      rw [List.length_cons, pow_succ] at small
      have rest : (bottom + top) * 5 ≤ 2 ^ 53 := by
        have : (1 : ℤ) ≤ 5 ^ others.length := one_le_pow₀ (by norm_num)
        nlinarith
      have product := start.scale argument (by omega) positive (by omega) (by omega)
      have next : Between (-(bottom * 5)) (top * 5) (first * x + c) :=
        (product.add own (by omega) (by omega)).mono (by omega) (by omega)
      have done := ih later next (by omega) (by omega) (by omega) (by omega) (by
        calc (bottom * 5 + top * 5) * 5 ^ others.length
            = (bottom + top) * (5 ^ others.length * 5) := by ring
          _ ≤ 2 ^ 53 := small)
      rw [List.length_cons, pow_succ]
      have lowest : bottom * (5 ^ others.length * 5) = bottom * 5 * 5 ^ others.length := by ring
      have highest : top * (5 ^ others.length * 5) = top * 5 * 5 ^ others.length := by ring
      rw [lowest, highest]
      exact done

theorem between_horner (low high : ℤ) (coefficients : ∀ c ∈ first :: others, Between (-low) high c)
    (argument : Between 0 4 x) (negative : 0 ≤ low) (positive : 0 ≤ high)
    (short : others.length = 4) (small : (low + high) * 625 ≤ 2 ^ 53) :
    Between (-(low * 625)) (high * 625) (horner (first :: others) x) := by
  obtain ⟨start, later⟩ := List.forall_mem_cons.mp coefficients
  have power : (5 : ℤ) ^ others.length = 625 := by
    rw [short]
    norm_num
  have bounds := between_steps later start argument (le_refl _) (le_refl _) negative positive
    (power ▸ small)
  rwa [power] at bounds

end

private theorem between_square {x : Float} (argument : Between (-2) 2 x) : Between 0 4 (x * x) := by
  have square := argument.mul argument (by norm_num)
  exact ⟨square.fits, by exact_mod_cast value_nonneg (nonnegative_mul_self x), square.high⟩

/-- The coefficients of the arc tangent, where those of the denominator are all positive. -/
theorem between_coefficients :
    (∀ c ∈ [-8.750608600031904122785e-01, -1.615753718733365076637e+01,
        -7.500855792314704667340e+01, -1.228866684490136173410e+02, -6.485021904942025371773e+01],
      Between (-123) 0 c) ∧
    (∀ c ∈ [1, 2.485846490142306297962e+01, 1.650270098316988542046e+02,
        4.328810604912902668951e+02, 4.853903996359136964868e+02], Between (-0) 486 c) ∧
    Between 1 195 1.945506571482613964425e+02 := by
  decide +kernel

theorem between_arcTangentSeries {x : Float} (argument : Between (-2) 2 x) :
    Between (-2 ^ 22) (2 ^ 22) (arcTangentSeries x) := by
  obtain ⟨above, below, last⟩ := between_coefficients
  have square := between_square argument
  have numerator := between_horner 123 0 above square (by norm_num) (le_refl _) rfl (by norm_num)
  have before := between_horner 0 486 below square (le_refl _) (by norm_num) rfl (by norm_num)
  have denominator := (before.scale square (by norm_num) (by norm_num) (by norm_num)
    (by norm_num)).add last (by norm_num) (by norm_num)
  have long := denominator.low
  norm_num at long
  have product := (square.symmetric (by norm_num) (le_refl _)).mul
    (numerator.symmetric (le_refl _) (by norm_num)) (by norm_num)
  have quotient := product.div denominator.fits long (by norm_num) (by norm_num) (by norm_num)
    (by norm_num)
  have whole := (argument.mul quotient (by norm_num)).add argument (by norm_num) (by norm_num)
  exact whole.mono (by norm_num) (by norm_num)

theorem fits_of_arcTangentSeries {x : Float} (fits : Fits 971 (arcTangentSeries x)) : Fits 971 x :=
  (fits_of_add fits).2

section

variable {x y : Float}

/-- The inverse of what lies beyond a limit of two and more, be it infinite. -/
theorem between_inverse {limit : Float} (fits : Fits 971 limit) (two : 1 ≤ value limit)
    (beyond : limit < x) : Between 0 1 (1 / x) := by
  have one : Between 0 1 1 := between_one.mono (by norm_num) (le_refl _)
  by_cases finite : Fits 971 x
  · have long := two.trans ((lt_iff fits finite).mp beyond).le
    exact one.div finite long (le_refl _) (by norm_num) (by norm_num) (by norm_num)
  · have inverse : (1 / x).toModel.unpack = .zero .positive := by
      change (Float.Model.pack (Float.Model.UnpackedFloat.div Float.Model.Format.binary64 _
        x.toModel.unpack)).unpack = _
      rw [unpack_of_le fits (le_of_less beyond) finite]
      rfl
    refine ⟨?_, ?_, ?_⟩
    · rw [fits_iff, inverse]
      rfl
    · rw [value, inverse]
      norm_num [valueOf]
    · rw [value, inverse]
      norm_num [valueOf]

/-- The arc tangent is small, wherever an argument that is not large is finite. -/
theorem between_arcTangentPositive (nonnegative : Nonnegative x.toModel.unpack)
    (small : x ≤ 0.66 → Fits 971 x) (middle : ¬ x > 2.41421356237309504880 → Fits 971 x) :
    Between (-2 ^ 23) (2 ^ 23) (arcTangentPositive x) := by
  obtain ⟨_, eighth, quarter, _, _, rest, half⟩ := between_angles
  obtain ⟨near, far⟩ := between_limits
  have above : ((0 : ℤ) : ℚ) ≤ value x := by exact_mod_cast value_nonneg nonnegative
  unfold arcTangentPositive
  split
  · next low =>
      have finite := small low
      have argument : Between 0 1 x :=
        ⟨finite, above, ((le_iff finite near.fits).mp low).trans near.high⟩
      exact (between_arcTangentSeries (argument.mono (by norm_num) (by norm_num))).mono
        (by norm_num) (by norm_num)
  · split
    · next large =>
        have inverse := between_inverse far.fits (by exact_mod_cast far.low) large
        have series := between_arcTangentSeries (inverse.mono (by norm_num) (by norm_num))
        have angle := (quarter.sub series (by norm_num) (by norm_num)).add rest (by norm_num)
          (by norm_num)
        exact angle.mono (by norm_num) (by norm_num)
    · next high =>
        have finite := middle high
        have below : value x ≤ 3 := by
          rw [gt_iff_lt, lt_iff far.fits finite, not_lt] at high
          exact_mod_cast high.trans far.high
        have argument : Between 0 3 x := ⟨finite, above, below⟩
        have divisor := argument.add between_one (by norm_num) (by norm_num)
        have ratio := (argument.sub between_one (by norm_num) (by norm_num)).div divisor.fits
          (by exact_mod_cast divisor.low) (by norm_num) (by norm_num) (by norm_num) (by norm_num)
        have series := between_arcTangentSeries (ratio.mono (by norm_num) (by norm_num))
        have angle := (eighth.add series (by norm_num) (by norm_num)).add half (by norm_num)
          (by norm_num)
        exact angle.mono (by norm_num) (by norm_num)

theorem moderate_arcTangentPositive (nonnegative : Nonnegative x.toModel.unpack) :
    Moderate (2 ^ 23) (arcTangentPositive x) := by
  intro fits
  unfold arcTangentPositive at fits
  have small (low : x ≤ 0.66) : Fits 971 x := by
    rw [if_pos low] at fits
    exact fits_of_arcTangentSeries fits
  refine between_arcTangentPositive nonnegative small fun high => ?_
  by_cases low : x ≤ 0.66
  · exact small low
  · rw [if_neg low, if_neg high] at fits
    have quotient := fits_of_arcTangentSeries (fits_of_add (fits_of_add fits).1).2
    exact (fits_of_sub (fits_of_div quotient)).1

theorem moderate_of_beq_zero {bound : ℤ} (zero : (x == 0) = true) (nonneg : 0 ≤ bound) :
    Moderate bound x := by
  intro fits
  have none : value x = 0 := ((value_eq_iff fits between_zero.fits).mp zero).trans value_zero
  refine ⟨fits, ?_, ?_⟩
  · rw [none]
    exact_mod_cast neg_nonpos.mpr nonneg
  · rw [none]
    exact_mod_cast nonneg

theorem nonnegative_neg (below : Fits 971 x → value x ≤ 0) : Nonnegative (-x).toModel.unpack := by
  refine nonnegative_of_value fun fits => ?_
  have finite := fits_of_neg fits
  rw [value_neg finite]
  exact neg_nonneg.mpr (below finite)

theorem moderate_arcTangent (x : Float) : Moderate (2 ^ 23) (arcTangent x) := by
  unfold arcTangent
  split
  · next zero => exact moderate_of_beq_zero zero (by norm_num)
  · split
    · next positive =>
        refine moderate_arcTangentPositive (nonnegative_of_value fun fits => ?_)
        rw [gt_iff_lt, lt_iff between_zero.fits fits, value_zero] at positive
        exact positive.le
    · next negative =>
        refine (moderate_arcTangentPositive (nonnegative_neg fun fits => ?_)).neg
        rwa [gt_iff_lt, lt_iff between_zero.fits fits, value_zero, not_lt] at negative

theorem not_fits_special : ¬ Fits 971 infinity ∧ ¬ Fits 971 notANumber := by decide +kernel

theorem moderate_notANumber {bound : ℤ} : Moderate bound notANumber :=
  fun fits => absurd fits not_fits_special.2

private theorem moderate_arcSine (x : Float) : Moderate (2 ^ 24) (arcSine x) := by
  have quarter := between_angles.2.2.1
  unfold arcSine
  split
  · next zero => exact moderate_of_beq_zero zero (by norm_num)
  · have positive : Nonnegative (if x < 0 then -x else x).toModel.unpack := by
      split
      · next negative =>
          refine nonnegative_neg fun fits => ?_
          rw [lt_iff fits between_zero.fits, value_zero] at negative
          exact negative.le
      · next positive =>
          refine nonnegative_of_value fun fits => ?_
          rwa [lt_iff fits between_zero.fits, value_zero, not_lt] at positive
    generalize (if x < 0 then -x else x) = size at positive
    have rest := nonnegative_sqrt (1 - size * size)
    have value : Moderate (2 ^ 24) (if size > 0.7 then
        quarterTurn - arcTangentPositive ((1 - size * size).sqrt / size)
        else arcTangentPositive (size / (1 - size * size).sqrt)) := by
      split
      · exact (quarter.moderate.sub (moderate_arcTangentPositive (nonnegative_div rest positive))
          (by norm_num)).mono (by norm_num)
      · exact (moderate_arcTangentPositive (nonnegative_div positive rest)).mono (by norm_num)
    dsimp only
    split
    · exact moderate_notANumber
    · split
      · exact value.neg
      · exact value

private theorem moderate_withSign {size : Float} {bound : ℤ} (small : Between (-bound) bound size)
    (sign : Float) : Moderate bound (withSign size sign) := by
  unfold withSign
  split
  · exact small.moderate.neg
  · exact small.moderate

private theorem moderate_direction (y x : Float) : Moderate (2 ^ 24) (direction y x) := by
  obtain ⟨zero, eighth, quarter, third, half, _⟩ := between_angles
  have constant {size : Float} (small : Between (-4) 4 size) : Moderate (2 ^ 24) (withSign size y) :=
    (moderate_withSign small y).mono (by norm_num)
  unfold direction
  split
  · exact moderate_notANumber
  · split
    · split
      · exact constant zero
      · exact constant half
    · split
      · exact constant quarter
      · split
        · split
          · split
            · exact constant eighth
            · exact constant zero
          · split
            · exact constant third
            · exact constant half
        · split
          · exact constant quarter
          · have angle := moderate_arcTangent (y / x)
            dsimp only
            split
            · split
              · exact (angle.add half.moderate (by norm_num)).mono (by norm_num)
              · exact (angle.sub half.moderate (by norm_num)).mono (by norm_num)
            · exact angle.mono (by norm_num)

theorem between_of_le {limit : Float} {low high : ℤ} (bounded : Between low high limit)
    (nonneg : 0 ≤ x) (le : x ≤ limit) : Between 0 high x := by
  have fits : Fits 971 x := by
    by_contra infinite
    have top := unpack_of_le between_zero.fits nonneg infinite
    have bottom := unpack_of_ge bounded.fits le infinite
    rw [top] at bottom
    cases bottom
  rw [le_iff between_zero.fits fits, value_zero] at nonneg
  exact ⟨fits, by exact_mod_cast nonneg, ((le_iff fits bounded.fits).mp le).trans bounded.high⟩

/-- The arc tangent is finite even at infinity. -/
theorem fits_arcTangentPositive (nonneg : 0 ≤ x) : Fits 971 (arcTangentPositive x) := by
  obtain ⟨near, far⟩ := between_limits
  have number := (le_iff_rank.mp nonneg).2.1
  have above : Nonnegative x.toModel.unpack := nonnegative_of_value fun fits => by
    rwa [le_iff between_zero.fits fits, value_zero] at nonneg
  exact (between_arcTangentPositive above (fun low => (between_of_le near nonneg low).fits)
    fun high => (between_of_le far nonneg
      (le_of_not_less (isNumber_of_fits far.fits) number high)).fits).fits

private theorem fits_arcTangent (number : IsNumber x) : Fits 971 (arcTangent x) := by
  unfold arcTangent
  split
  · next zero => exact fits_of_beq zero between_zero.fits
  · split
    · next positive => exact fits_arcTangentPositive (le_of_less positive)
    · next negative =>
        exact fits_neg (fits_arcTangentPositive (neg_nonneg_of_not_pos number negative))
          (by norm_num) (le_refl _)

theorem fits_withSign {size : Float} (fits : Fits 971 size) (sign : Float) :
    Fits 971 (withSign size sign) := by
  unfold withSign
  split
  · exact fits_neg fits (by norm_num) (le_refl _)
  · exact fits

/-- A step of finite extent has a finite direction. -/
theorem fits_direction (first : Fits 971 y) (second : Fits 971 x) : Fits 971 (direction y x) := by
  obtain ⟨zero, _, quarter, _, half, _⟩ := between_angles
  unfold direction
  rw [isNaN_of_fits first, isNaN_of_fits second, isInf_of_fits first, isInf_of_fits second]
  simp only [Bool.or_self, Bool.false_eq_true, if_false]
  split
  · split
    · exact fits_withSign zero.fits y
    · exact fits_withSign half.fits y
  · split
    · exact fits_withSign quarter.fits y
    · next nonzero =>
        have quotient : IsNumber (y / x) := by
          refine isNumber_div first second fun none => nonzero ?_
          rwa [value_eq_iff second between_zero.fits, value_zero]
        have angle := moderate_arcTangent (y / x) (fits_arcTangent quotient)
        split
        · split
          · exact (angle.add half (by norm_num) (by norm_num)).fits
          · exact (angle.sub half (by norm_num) (by norm_num)).fits
        · exact angle.fits

end

end Trig

/-! ## Whole turns -/

namespace Rotary

open Doubles
open Kerf.Scalar

section

variable {b reference bMax : Float} {bound limit : ℤ}

theorem between_turn : Between 1 7 turn := by decide +kernel

theorem moderate_unwrap (angle : Moderate bound b) (origin : Between (-limit) limit reference)
    (small : bound + limit < 2 ^ 40) :
    Moderate (bound + 7 * (bound + limit + 1)) (unwrap b reference) := by
  intro fits
  have own := angle (fits_of_sub fits).1
  have nonneg := own.nonneg
  have nonneg' := origin.nonneg
  have apart : Between (-(bound + limit)) (bound + limit) (b - reference) :=
    (own.sub origin (by omega) (by omega)).mono (by omega) (by omega)
  have count := between_nearestWhole (apart.div between_turn.fits (by exact_mod_cast between_turn.low)
    (by omega) (by omega) (by omega) (by omega)) (by omega)
  have turns := (between_turn.symmetric (by norm_num) (le_refl _)).mul count (by omega)
  exact (own.sub turns (by omega) (by omega)).symmetric (by omega) (by omega)

/-- A limit between a finite angle and the negative of one is finite. -/
theorem fits_of_le_neg {x y : Float} (left : Fits 971 x) (right : Fits 971 y) (above : bMax ≤ x)
    (below : -bMax ≤ y) : Fits 971 bMax := by
  by_contra infinite
  have lowest := unpack_neg_infinity (unpack_of_ge left above infinite)
  have both := unpack_of_ge right below fun fits => infinite (fits_of_neg fits)
  rw [lowest] at both
  cases both

private theorem fits_of_neg_ge {x y : Float} (left : Fits 971 x) (right : Fits 971 y)
    (below : x ≤ -bMax) (above : y ≤ bMax) : Fits 971 bMax := by
  by_contra infinite
  have highest := unpack_neg_infinity (unpack_of_le right above infinite)
  have both := unpack_of_le left below fun fits => infinite (fits_of_neg fits)
  rw [highest] at both
  cases both

/-- A turn taken off above the limit leaves the angle small: if the limit is positive the angle was,
and if it is negative the rest is positive. -/
theorem moderate_sub_turn (angle : Moderate bound b) (least : 7 ≤ bound) (small : bound < 2 ^ 40)
    (above : b > bMax) (stays : b - turn >= -bMax) : Moderate bound (b - turn) := by
  intro fits
  have own := angle (fits_of_sub fits).1
  have moved := own.sub between_turn (by omega) (by omega)
  have finite := fits_of_le_neg own.fits fits (le_of_less above) stays
  rw [ge_iff_le, le_iff (fits_neg finite (by norm_num) (le_refl _)) fits, value_neg finite] at stays
  rw [gt_iff_lt, lt_iff finite own.fits] at above
  refine ⟨fits, ?_, moved.high.trans (by exact_mod_cast (by omega : bound - 1 ≤ bound))⟩
  rcases le_or_gt 0 (value bMax) with positive | negative
  · have high : Between 0 bound b := ⟨own.fits, by exact_mod_cast positive.trans above.le, own.high⟩
    have lowest := high.sub between_turn (by omega) (by omega)
    exact le_trans (by exact_mod_cast (by omega : -bound ≤ 0 - 7)) lowest.low
  · have : ((-bound : ℤ) : ℚ) ≤ 0 := by exact_mod_cast (by omega : -bound ≤ 0)
    linarith

private theorem moderate_add_turn (angle : Moderate bound b) (least : 7 ≤ bound)
    (small : bound < 2 ^ 40)
    (below : b < -bMax) (stays : b + turn <= bMax) : Moderate bound (b + turn) := by
  intro fits
  have own := angle (fits_of_add fits).1
  have moved := own.add between_turn (by omega) (by omega)
  have finite := fits_of_neg_ge own.fits fits (le_of_less below) stays
  rw [le_iff fits finite] at stays
  rw [lt_iff own.fits (fits_neg finite (by norm_num) (le_refl _)), value_neg finite] at below
  refine ⟨fits, le_trans (by exact_mod_cast (by omega : -bound ≤ -bound + 1)) moved.low, ?_⟩
  rcases le_or_gt 0 (value bMax) with positive | negative
  · have low : Between (-bound) 0 b := ⟨own.fits, own.low, by push_cast; linarith⟩
    have highest := low.add between_turn (by omega) (by omega)
    exact highest.high.trans (by exact_mod_cast (by omega : 0 + 7 ≤ bound))
  · have : (0 : ℚ) ≤ bound := by exact_mod_cast (by omega : 0 ≤ bound)
    linarith

private theorem moderate_pullDown (angle : Moderate bound b) (least : 7 ≤ bound)
    (small : bound < 2 ^ 40) : Moderate bound (pullDown bMax b) := by
  fun_induction pullDown bMax b with
  | case1 b loop _ ih =>
      obtain ⟨above, stays⟩ := Bool.and_eq_true_iff.mp loop
      exact ih (moderate_sub_turn angle least small (of_decide_eq_true above)
        (of_decide_eq_true stays))
  | case2 => exact angle
  | case3 => exact angle

private theorem moderate_pullUp (angle : Moderate bound b) (least : 7 ≤ bound)
    (small : bound < 2 ^ 40) : Moderate bound (pullUp bMax b) := by
  fun_induction pullUp bMax b with
  | case1 b loop _ ih =>
      obtain ⟨below, stays⟩ := Bool.and_eq_true_iff.mp loop
      exact ih (moderate_add_turn angle least small (of_decide_eq_true below)
        (of_decide_eq_true stays))
  | case2 => exact angle
  | case3 => exact angle

theorem moderate_pull (angle : Moderate bound b) (least : 7 ≤ bound) (small : bound < 2 ^ 40) :
    Moderate bound (pull b bMax) :=
  moderate_pullUp (moderate_pullDown angle least small) least small

end

/-! ## Stances -/

theorem moderate_primary (direction : Vec) :
    Moderate (2 ^ 24) (Setting.primary direction).a ∧ Moderate (2 ^ 24) (Setting.primary direction).b :=
  ⟨Trig.moderate_arcSine _, Trig.moderate_direction _ _⟩

private theorem moderate_solve {direction : Vec} {previous : Setting} {limits : Limits}
    (origin : Between (-2 ^ 24) (2 ^ 24) previous.b) :
    Moderate (2 ^ 32) (solve direction previous limits).a ∧
      Moderate (2 ^ 32) (solve direction previous limits).b := by
  obtain ⟨tilt, spin⟩ := moderate_primary direction
  have half : Moderate 4 pi := Trig.between_angles.2.2.2.2.1.moderate
  have near : Moderate (2 ^ 28) (pull (unwrap (Setting.primary direction).b previous.b) limits.bMax) :=
    moderate_pull ((moderate_unwrap spin origin (by norm_num)).mono (by norm_num)) (by norm_num)
      (by norm_num)
  have other : Moderate (2 ^ 32) (pi - (Setting.primary direction).a) :=
    (half.sub tilt (by norm_num)).mono (by norm_num)
  have far : Moderate (2 ^ 32) (pull (unwrap (pull (unwrap (Setting.primary direction).b previous.b)
      limits.bMax + pi) previous.b) limits.bMax) :=
    moderate_pull ((moderate_unwrap (near.add half (by norm_num)) origin (by norm_num)).mono
      (by norm_num)) (by norm_num) (by norm_num)
  unfold solve
  dsimp only
  split
  · exact ⟨tilt.mono (by norm_num), fun _ => origin.symmetric (by norm_num) (by norm_num)⟩
  · split
    · exact ⟨tilt.mono (by norm_num), near.mono (by norm_num)⟩
    · split
      · exact ⟨other, far⟩
      · exact ⟨tilt.mono (by norm_num), near.mono (by norm_num)⟩

/-! ## Travel -/

theorem abs_cases {x : Float} (infinite : ¬ Fits 971 x) :
    (x.abs == infinity) = true ∨ x.abs.isNaN = true := by
  rw [fits_iff] at infinite
  have shape := unpack_abs x
  generalize x.toModel.unpack = u at infinite shape
  cases u with
  | zero sign => exact absurd rfl infinite
  | finite sign mantissa exponent positive => exact absurd rfl infinite
  | infinity sign =>
      left
      change (x.abs.toModel.unpack.compare infinity.toModel.unpack == some .eq) = true
      rw [shape]
      rfl
  | notANumber =>
      right
      change x.abs.toModel.unpack.isNaN = true
      rw [shape]
      rfl

/-- The larger of two sizes is finite only if both are. -/
theorem fits_of_max {x y : Float} (fits : Fits 971 (Scalar.max x.abs y.abs)) :
    Fits 971 x ∧ Fits 971 y := by
  obtain ⟨top, none⟩ := Trig.not_fits_special
  by_contra infinite
  rw [not_and_or] at infinite
  apply infinite.elim
  · intro left
    unfold Scalar.max at fits
    rcases abs_cases left with large | missing
    · rw [large, Bool.true_or, if_pos rfl] at fits
      exact top fits
    · rw [missing, Bool.true_or, if_pos rfl] at fits
      split at fits
      · exact top fits
      · exact none fits
  · intro right
    unfold Scalar.max at fits
    rcases abs_cases right with large | missing
    · rw [large, Bool.or_true, if_pos rfl] at fits
      exact top fits
    · rw [missing, Bool.or_true, if_pos rfl] at fits
      split at fits
      · exact top fits
      · exact none fits

private theorem fits_of_cost {source target : Setting} (fits : Fits 971 (source.cost target)) :
    Fits 971 (target.a - source.a) ∧ Fits 971 (target.b - source.b) :=
  fits_of_max fits

private theorem between_cost {source target : Setting} {bound : ℤ}
    (tilt : Between (-bound) bound (target.a - source.a))
    (spin : Between (-bound) bound (target.b - source.b)) : Between 0 bound (source.cost target) := by
  have first := between_abs tilt
  have second := between_abs spin
  unfold Setting.cost
  rcases max_eq_of_fits first.fits second.fits with same | same
  · rw [same]
    exact first
  · rw [same]
    exact second

end Rotary

namespace Machine

open Doubles
open Kerf.Rotary

section

variable {limits : Limits} {source target : Point} {long : Bool}

private theorem fst_rotarySpan :
    (rotarySpan limits source target long).1 = Setting.primary source.direction := by
  unfold rotarySpan
  cases long <;> simp

private theorem moderate_snd_rotarySpan
    (origin : Between (-2 ^ 24) (2 ^ 24) (Setting.primary source.direction).b) :
    Moderate (2 ^ 33) (rotarySpan limits source target long).2.a ∧
      Moderate (2 ^ 33) (rotarySpan limits source target long).2.b := by
  obtain ⟨tilt, spin⟩ :=
    @moderate_solve target.direction (Setting.primary source.direction) limits origin
  have whole : Moderate 7 Scalar.turn := fun _ => between_turn.symmetric (by norm_num) (le_refl _)
  unfold rotarySpan
  dsimp only
  generalize solve target.direction (Setting.primary source.direction) limits = last at tilt spin ⊢
  cases long with
  | false =>
      simp only [Bool.false_eq_true, ↓reduceIte]
      exact ⟨tilt.mono (by norm_num), spin.mono (by norm_num)⟩
  | true =>
      simp only [↓reduceIte]
      refine ⟨tilt.mono (by norm_num), ?_⟩
      split
      · exact (spin.sub whole (by norm_num)).mono (by norm_num)
      · exact (spin.add whole (by norm_num)).mono (by norm_num)

end

/-- A machine that turns the tool never turns it far. -/
theorem between_angularDistance {machine : Machine} {source target : Point} {long : Bool}
    (turning : machine.isFiveAxis = true)
    (finite : Fits 971 (machine.angularDistance source target long)) :
    Between 0 (2 ^ 34) (machine.angularDistance source target long) := by
  unfold isFiveAxis at turning
  unfold angularDistance at finite ⊢
  split at turning
  · next limits pivot kinematics =>
      rw [kinematics] at finite ⊢
      dsimp only at finite ⊢
      rw [fst_rotarySpan] at finite ⊢
      obtain ⟨tilts, spins⟩ := fits_of_cost finite
      obtain ⟨tilt, spin⟩ := moderate_primary source.direction
      obtain ⟨tilt', spin'⟩ := moderate_snd_rotarySpan (spin (fits_of_sub spins).2)
      refine between_cost ?_ ?_
      · exact ((tilt'.sub tilt (by norm_num)).mono (by norm_num)) tilts
      · exact ((spin'.sub spin (by norm_num)).mono (by norm_num)) spins
  · cases turning

end Machine

end Kerf
