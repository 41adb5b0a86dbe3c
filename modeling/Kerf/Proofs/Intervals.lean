import Kerf.Proofs.Values

/-!
# Order and bounds of doubles

Doubles are compared as the numbers that they stand for. A bound on what goes into an operation is a
bound on its result, since rounding never crosses a whole number of moderate size. What is no finite
number stays so through sums and products.
-/

set_option autoImplicit false

namespace Kerf.Doubles

open Float.Model
open Float.Model.UnpackedFloat

/-! ## Order -/

/-- A larger exponent makes a number larger, whatever the mantissas. -/
theorem magnitude_lt {mantissa mantissa' : Nat} {exponent exponent' : Int}
    (bits : mantissa < 2 ^ 53) (normal' : exponent' = -1074 ∨ 2 ^ 52 ≤ mantissa')
    (low : -1074 ≤ exponent) (later : exponent < exponent') :
    (mantissa : ℚ) * 2 ^ exponent < mantissa' * 2 ^ exponent' := by
  have leading : (2 : ℚ) ^ 52 ≤ mantissa' := by exact_mod_cast (by omega : 2 ^ 52 ≤ mantissa')
  have below : (mantissa : ℚ) < 2 ^ 53 := by exact_mod_cast bits
  calc (mantissa : ℚ) * 2 ^ exponent < 2 ^ 53 * 2 ^ exponent :=
        mul_lt_mul_of_pos_right below (zpow_pos (by norm_num) _)
    _ = 2 ^ 52 * 2 ^ (exponent + 1) := by
        rw [zpow_add_one₀ (by norm_num)]
        ring
    _ ≤ 2 ^ 52 * 2 ^ exponent' := by
        gcongr
        · norm_num
        · omega
    _ ≤ mantissa' * 2 ^ exponent' := by gcongr

private theorem compare_magnitudes {mantissa mantissa' : Nat} {exponent exponent' : Int}
    (bits : mantissa < 2 ^ 53) (normal : exponent = -1074 ∨ 2 ^ 52 ≤ mantissa)
    (low : -1074 ≤ exponent) (bits' : mantissa' < 2 ^ 53)
    (normal' : exponent' = -1074 ∨ 2 ^ 52 ≤ mantissa') (low' : -1074 ≤ exponent') :
    (compare exponent exponent').then (compare mantissa mantissa') =
      compare ((mantissa : ℚ) * 2 ^ exponent) (mantissa' * 2 ^ exponent') := by
  rcases lt_trichotomy exponent exponent' with less | rfl | more
  · rw [Int.compare_eq_lt.mpr less,
      compare_lt_iff_lt.mpr (magnitude_lt bits normal' low less)]
    rfl
  · have power : (0 : ℚ) < 2 ^ exponent := zpow_pos (by norm_num) _
    rw [Int.compare_eq_eq.mpr rfl, Ordering.then]
    rcases lt_trichotomy mantissa mantissa' with less | rfl | more
    · rw [Nat.compare_eq_lt.mpr less, compare_lt_iff_lt.mpr]
      exact mul_lt_mul_of_pos_right (by exact_mod_cast less) power
    · rw [Nat.compare_eq_eq.mpr rfl, compare_eq_iff_eq.mpr rfl]
    · rw [Nat.compare_eq_gt.mpr more, compare_gt_iff_gt.mpr]
      exact mul_lt_mul_of_pos_right (by exact_mod_cast more) power
  · rw [Int.compare_eq_gt.mpr more,
      compare_gt_iff_gt.mpr (magnitude_lt bits' normal low' more)]
    rfl

theorem valueOf_positive {mantissa : Nat} (exponent : Int) (positive : 0 < mantissa) :
    0 < valueOf (.finite .positive mantissa exponent positive) := by
  have : (0 : ℚ) < mantissa := by exact_mod_cast positive
  simp only [valueOf, Sign.apply, Int.cast_natCast]
  positivity

theorem valueOf_negative {mantissa : Nat} (exponent : Int) (positive : 0 < mantissa) :
    valueOf (.finite .negative mantissa exponent positive) =
      -valueOf (.finite .positive mantissa exponent positive) := by
  simp [valueOf, Sign.apply]

private theorem compare_neg (x y : ℚ) : compare (-x) (-y) = (compare x y).swap := by
  rcases lt_trichotomy x y with less | rfl | more
  · rw [compare_lt_iff_lt.mpr less, compare_gt_iff_gt.mpr (neg_lt_neg less)]
    rfl
  · rw [compare_eq_iff_eq.mpr rfl, compare_eq_iff_eq.mpr rfl]
    rfl
  · rw [compare_gt_iff_gt.mpr more, compare_lt_iff_lt.mpr (neg_lt_neg more)]
    rfl

/-- Doubles are compared as numbers. -/
theorem compare_eq {x y : UnpackedFloat} (left : Canonical x) (right : Canonical y) :
    x.compare y = some (compare (valueOf x) (valueOf y)) := by
  have nothing : ∀ sign, valueOf (.zero sign) = 0 := fun _ => rfl
  cases x with
  | infinity sign => exact left.elim
  | notANumber => exact left.elim
  | zero sign =>
      rw [nothing]
      cases y with
      | infinity sign => exact right.elim
      | notANumber => exact right.elim
      | zero sign' =>
          rw [nothing, compare_eq_iff_eq.mpr rfl]
          rfl
      | finite sign' mantissa' exponent' positive' =>
          have above := valueOf_positive exponent' positive'
          cases sign' with
          | negative =>
              rw [valueOf_negative, compare_gt_iff_gt.mpr (neg_lt_zero.mpr above)]
              rfl
          | positive =>
              rw [compare_lt_iff_lt.mpr above]
              rfl
  | finite sign mantissa exponent positive =>
      obtain ⟨bits, low, normal⟩ := left
      have above := valueOf_positive exponent positive
      cases y with
      | infinity sign => exact right.elim
      | notANumber => exact right.elim
      | zero sign' =>
          rw [nothing]
          cases sign with
          | negative =>
              rw [valueOf_negative, compare_lt_iff_lt.mpr (neg_lt_zero.mpr above)]
              rfl
          | positive =>
              rw [compare_gt_iff_gt.mpr above]
              rfl
      | finite sign' mantissa' exponent' positive' =>
          obtain ⟨bits', low', normal'⟩ := right
          have above' := valueOf_positive exponent' positive'
          have magnitudes : (compare exponent exponent').then (compare mantissa mantissa') =
              compare (valueOf (.finite .positive mantissa exponent positive))
                (valueOf (.finite .positive mantissa' exponent' positive')) := by
            simp only [valueOf, Sign.apply, Int.cast_natCast]
            exact compare_magnitudes bits normal low bits' normal' low'
          cases sign with
          | negative =>
              rw [valueOf_negative]
              cases sign' with
              | negative =>
                  rw [valueOf_negative, compare_neg, ← magnitudes]
                  rfl
              | positive =>
                  rw [compare_lt_iff_lt.mpr ((neg_lt_zero.mpr above).trans above')]
                  rfl
          | positive =>
              cases sign' with
              | negative =>
                  rw [valueOf_negative,
                    compare_gt_iff_gt.mpr ((neg_lt_zero.mpr above').trans above)]
                  rfl
              | positive =>
                  rw [← magnitudes]
                  rfl

section

variable {x y : Float}

theorem lt_iff (left : Fits 971 x) (right : Fits 971 y) : x < y ↔ value x < value y := by
  have spec := compare_eq (canonical_of_fits left) (canonical_of_fits right)
  calc x < y ↔ x.toModel.unpack.lt y.toModel.unpack = true := decide_eq_true_iff
    _ ↔ some (compare (value x) (value y)) = some .lt := by
        rw [UnpackedFloat.lt, spec, beq_iff_eq]
        rfl
    _ ↔ value x < value y := by rw [Option.some_inj, compare_lt_iff_lt]

theorem le_iff (left : Fits 971 x) (right : Fits 971 y) : x ≤ y ↔ value x ≤ value y := by
  have spec := compare_eq (canonical_of_fits left) (canonical_of_fits right)
  calc x ≤ y ↔ x.toModel.unpack.le y.toModel.unpack = true := decide_eq_true_iff
    _ ↔ (compare (value x) (value y)).isLE = true := by
        rw [UnpackedFloat.le, spec]
        rfl
    _ ↔ value x ≤ value y := by rw [Ordering.isLE_iff_ne_gt, compare_gt_iff_gt, not_lt]

theorem value_abs (fits : Fits 971 x) : value x.abs = |value x| := by
  unfold value
  unfold Fits at fits
  rw [unpack_abs]
  generalize x.toModel.unpack = u at fits
  cases u with
  | infinity sign => exact fits.elim
  | notANumber => exact fits.elim
  | zero sign => exact abs_zero.symm
  | finite sign mantissa exponent positive =>
      rw [abs_valueOf_finite]
      change valueOf (.finite .positive mantissa exponent positive) = _
      rw [valueOf_finite]
      exact one_mul _

theorem value_neg (fits : Fits 971 x) : value (-x) = -value x := by
  have unpacked : (-x).toModel.unpack = x.toModel.unpack.neg :=
    unpack_pack_of_canonical (canonical_of_fits fits).neg (Within.neg fits)
  unfold value
  rw [unpacked, valueOf_neg]

theorem value_eq_iff (left : Fits 971 x) (right : Fits 971 y) :
    (x == y) = true ↔ value x = value y := by
  have spec := compare_eq (canonical_of_fits left) (canonical_of_fits right)
  change (x.toModel.unpack.compare y.toModel.unpack == some .eq) = true ↔ _
  rw [beq_iff_eq, spec, Option.some_inj, compare_eq_iff_eq]
  rfl

end

/-! ## Finite results -/

private theorem within_of_isFinite {bits : BitVec Format.binary64.numBits}
    (finite : (unpack Format.binary64 bits).isFinite = true) :
    Within 971 (unpack Format.binary64 bits) := by
  have bias : ((Format.binary64.exponentBias : Int) + Format.binary64.mantissaBitsWithoutImplicit) =
      1075 := rfl
  unfold UnpackedFloat.unpack at finite ⊢
  dsimp only at finite ⊢
  rw [bias] at finite ⊢
  by_cases top : unpackExponent bits = -1#11
  · rw [if_pos top] at finite
    split at finite <;> cases finite
  · rw [if_neg top]
    have size : (unpackExponent bits).toNat < 2 ^ 11 := (unpackExponent bits).isLt
    have below : (unpackExponent bits).toNat ≠ 2047 :=
      fun same => top (BitVec.eq_of_toNat_eq same)
    split
    · next zero =>
        split
        · trivial
        · refine ⟨Nat.lt_trans (unpackMantissa bits).isLt (by decide), ?_⟩
          rw [zero]
          decide
    · exact ⟨(1#1 ++ unpackMantissa bits).isLt, by omega⟩

theorem fits_iff {x : Float} : Fits 971 x ↔ x.toModel.unpack.isFinite = true := by
  constructor
  · intro fits
    unfold Fits at fits
    generalize x.toModel.unpack = u at fits
    cases u with
    | infinity sign => exact fits.elim
    | notANumber => exact fits.elim
    | zero sign => rfl
    | finite sign mantissa exponent positive => rfl
  · exact within_of_isFinite

theorem fits_iff_isFinite {x : Float} : Fits 971 x ↔ x.isFinite = true := fits_iff

/-- Packing loses no exponent that is too large. -/
theorem within_of_pack {u : UnpackedFloat} (canonical : Canonical u)
    (within : Within 971 (Float.Model.pack u).unpack) : Within 971 u := by
  cases u with
  | infinity sign => exact canonical
  | notANumber => exact canonical
  | zero sign => trivial
  | finite sign mantissa exponent positive =>
      refine ⟨canonical.1, ?_⟩
      by_contra large
      have packed : UnpackedFloat.pack Format.binary64 (.finite sign mantissa exponent positive) =
          packedInfinity Format.binary64 sign := by
        unfold UnpackedFloat.pack
        dsimp only
        rw [if_pos]
        change 2 ^ 11 ≤ (exponent + 1023 + 52).toNat + 1
        omega
      change Within 971 (unpack Format.binary64
        (UnpackedFloat.pack Format.binary64 (.finite sign mantissa exponent positive))) at within
      rw [packed] at within
      cases sign <;> exact within.elim

theorem isFinite_of_pack {u : UnpackedFloat} (within : Within 971 (Float.Model.pack u).unpack) :
    u.isFinite = true := by
  cases u with
  | infinity sign => cases sign <;> exact within.elim
  | notANumber => exact within.elim
  | zero sign => rfl
  | finite sign mantissa exponent positive => rfl

section

variable {x y : Float}

theorem isFinite_of_add {u v : UnpackedFloat}
    (finite : (UnpackedFloat.add Format.binary64 u v).isFinite = true) :
    u.isFinite = true ∧ v.isFinite = true := by
  cases u with
  | notANumber => cases finite
  | infinity sign =>
      cases v with
      | infinity sign' => cases sign <;> cases sign' <;> cases finite
      | _ => cases finite
  | _ =>
      cases v with
      | infinity sign' => cases finite
      | notANumber => cases finite
      | _ => exact ⟨rfl, rfl⟩

theorem isFinite_neg (u : UnpackedFloat) : u.neg.isFinite = u.isFinite := by
  cases u <;> rfl

theorem fits_of_add (fits : Fits 971 (x + y)) : Fits 971 x ∧ Fits 971 y := by
  rw [fits_iff, fits_iff]
  exact isFinite_of_add (isFinite_of_pack fits)

theorem fits_of_sub (fits : Fits 971 (x - y)) : Fits 971 x ∧ Fits 971 y := by
  have finite := isFinite_of_pack fits
  rw [sub_eq_add] at finite
  rw [fits_iff, fits_iff, ← isFinite_neg y.toModel.unpack]
  exact isFinite_of_add finite

theorem fits_of_mul (fits : Fits 971 (x * y)) : Fits 971 x ∧ Fits 971 y := by
  have finite : (UnpackedFloat.mul Format.binary64 x.toModel.unpack y.toModel.unpack).isFinite =
    true := isFinite_of_pack fits
  rw [fits_iff, fits_iff]
  generalize x.toModel.unpack = u at finite
  generalize y.toModel.unpack = v at finite
  cases u with
  | notANumber => cases finite
  | infinity sign => cases v <;> cases finite
  | _ =>
      cases v with
      | infinity sign' => cases finite
      | notANumber => cases finite
      | _ => exact ⟨rfl, rfl⟩

theorem fits_of_div (fits : Fits 971 (x / y)) : Fits 971 x := by
  have finite : (UnpackedFloat.div Format.binary64 x.toModel.unpack y.toModel.unpack).isFinite =
    true := isFinite_of_pack fits
  rw [fits_iff]
  generalize x.toModel.unpack = u at finite
  generalize y.toModel.unpack = v at finite
  cases u with
  | notANumber => cases finite
  | infinity sign => cases v <;> cases finite
  | _ => rfl

theorem fits_of_abs (fits : Fits 971 x.abs) : Fits 971 x := by
  rw [fits_iff, unpack_abs] at fits
  rw [fits_iff]
  generalize x.toModel.unpack = u at fits
  cases u <;> exact fits

theorem fits_of_neg (fits : Fits 971 (-x)) : Fits 971 x := by
  rw [fits_iff, ← isFinite_neg]
  exact isFinite_of_pack fits

theorem le_of_less (less : x < y) : x ≤ y := by
  have compared : x.toModel.unpack.lt y.toModel.unpack = true := decide_eq_true_iff.mp less
  have same : x.toModel.unpack.compare y.toModel.unpack = some .lt := beq_iff_eq.mp compared
  refine decide_eq_true_iff.mpr ?_
  change x.toModel.unpack.le y.toModel.unpack = true
  rw [UnpackedFloat.le, same]
  rfl

theorem not_less_self (x : Float) : ¬ x < x := by
  intro less
  have compared : x.toModel.unpack.lt x.toModel.unpack = true := decide_eq_true_iff.mp less
  have same : x.toModel.unpack.compare x.toModel.unpack = some .lt := beq_iff_eq.mp compared
  generalize x.toModel.unpack = u at same
  cases u with
  | infinity sign => cases sign <;> cases same
  | notANumber => cases same
  | zero sign => cases same
  | finite sign mantissa exponent positive =>
      cases sign <;> simp [UnpackedFloat.compare, Ordering.then] at same

/-- Only the positive infinity lies above a finite number without being one. -/
theorem unpack_of_le (left : Fits 971 x) (le : x ≤ y) (infinite : ¬ Fits 971 y) :
    y.toModel.unpack = .infinity .positive := by
  have compared : x.toModel.unpack.le y.toModel.unpack = true := decide_eq_true_iff.mp le
  rw [fits_iff] at left infinite
  generalize x.toModel.unpack = u at left compared
  generalize y.toModel.unpack = v at infinite compared
  cases v with
  | zero sign => exact absurd rfl infinite
  | finite sign mantissa exponent positive => exact absurd rfl infinite
  | notANumber => cases u <;> cases compared
  | infinity sign =>
      cases sign with
      | positive => rfl
      | negative =>
          cases u with
          | infinity sign' => cases left
          | notANumber => cases left
          | zero sign' => cases compared
          | finite sign' mantissa exponent positive => cases sign' <;> cases compared

/-- Only the negative infinity lies below a finite number without being one. -/
theorem unpack_of_ge (right : Fits 971 y) (le : x ≤ y) (infinite : ¬ Fits 971 x) :
    x.toModel.unpack = .infinity .negative := by
  have compared : x.toModel.unpack.le y.toModel.unpack = true := decide_eq_true_iff.mp le
  rw [fits_iff] at right infinite
  generalize x.toModel.unpack = u at infinite compared
  generalize y.toModel.unpack = v at right compared
  cases u with
  | zero sign => exact absurd rfl infinite
  | finite sign mantissa exponent positive => exact absurd rfl infinite
  | notANumber => cases compared
  | infinity sign =>
      cases sign with
      | negative => rfl
      | positive =>
          cases v with
          | infinity sign' => cases right
          | notANumber => cases right
          | _ => cases compared

theorem unpack_neg_infinity {sign : Sign} (infinite : x.toModel.unpack = .infinity sign) :
    (-x).toModel.unpack = .infinity (-sign) := by
  change (Float.Model.pack x.toModel.unpack.neg).unpack = _
  rw [infinite]
  cases sign <;> rfl

/-- A sum that does not overflow is the exact one rounded. -/
theorem rounds_add (fits : Fits 971 (x + y)) : Rounds (value x + value y) (value (x + y)) := by
  obtain ⟨left, right⟩ := fits_of_add fits
  obtain ⟨canonical, rounds⟩ := add_spec (canonical_of_fits left) (canonical_of_fits right)
  have within := within_of_pack canonical fits
  have unpacked : (x + y).toModel.unpack = _ := unpack_pack_of_canonical canonical within
  unfold value
  rw [unpacked]
  exact rounds

end

/-! ## Signs -/

section

variable {x y : Float}

theorem value_nonneg (nonnegative : Nonnegative x.toModel.unpack) : 0 ≤ value x := by
  unfold value
  generalize x.toModel.unpack = u at nonnegative
  cases u with
  | finite sign mantissa exponent positive =>
      cases nonnegative
      exact (valueOf_positive exponent positive).le
  | _ => exact le_refl _

theorem nonnegative_of_value (above : Fits 971 x → 0 ≤ value x) : Nonnegative x.toModel.unpack := by
  by_cases fits : Fits 971 x
  · have positive := above fits
    unfold value at positive
    generalize x.toModel.unpack = u at positive
    cases u with
    | finite sign mantissa exponent some =>
        cases sign with
        | negative =>
            rw [valueOf_negative] at positive
            exact absurd positive (not_le.mpr (neg_lt_zero.mpr (valueOf_positive exponent some)))
        | positive => rfl
    | _ => trivial
  · rw [fits_iff] at fits
    generalize x.toModel.unpack = u at fits
    cases u with
    | finite sign mantissa exponent some => exact absurd rfl fits
    | _ => trivial

theorem nonnegative_sqrt (x : Float) : Nonnegative x.sqrt.toModel.unpack := by
  change Nonnegative (Float.Model.pack
    (UnpackedFloat.sqrt Format.binary64 x.toModel.unpack)).unpack
  apply nonnegative_unpack_pack
  generalize x.toModel.unpack = u
  cases u with
  | notANumber => trivial
  | zero sign => trivial
  | infinity sign => cases sign <;> trivial
  | finite sign mantissa exponent positive =>
      cases sign with
      | negative => trivial
      | positive => exact nonnegative_roundWithAccuracy _ _ _

theorem nonnegative_div (left : Nonnegative x.toModel.unpack) (right : Nonnegative y.toModel.unpack) :
    Nonnegative (x / y).toModel.unpack := by
  change Nonnegative (Float.Model.pack
    (UnpackedFloat.div Format.binary64 x.toModel.unpack y.toModel.unpack)).unpack
  apply nonnegative_unpack_pack
  generalize x.toModel.unpack = u at left
  generalize y.toModel.unpack = v at right
  cases u with
  | finite sign mantissa exponent positive =>
      cases v with
      | finite sign' mantissa' exponent' positive' =>
          cases left
          cases right
          exact nonnegative_roundWithAccuracy _ _ _
      | _ => trivial
  | _ => cases v <;> trivial

end

/-! ## Bounds -/

/-- Whether a double is finite and lies between two whole numbers. -/
structure Between (low high : ℤ) (x : Float) : Prop where
  fits : Fits 971 x
  low : low ≤ value x
  high : value x ≤ high

instance (low high : ℤ) (x : Float) : Decidable (Between low high x) :=
  decidable_of_iff (Fits 971 x ∧ low ≤ value x ∧ value x ≤ high)
    ⟨fun ⟨fits, above, below⟩ => ⟨fits, above, below⟩,
      fun between => ⟨between.fits, between.low, between.high⟩⟩

theorem between_zero : Between 0 0 0 := by decide +kernel

theorem between_one : Between 1 1 1 := by decide +kernel

theorem value_zero : value 0 = 0 := by
  have spec := between_zero
  exact le_antisymm (by exact_mod_cast spec.high) (by exact_mod_cast spec.low)

theorem precise_intCast {count : ℤ} (low : -2 ^ 53 ≤ count) (high : count ≤ 2 ^ 53) :
    Precise count :=
  ⟨count, 0, by simp, abs_le.mpr ⟨low, high⟩, by norm_num⟩

/-- Rounding does not cross a whole number of moderate size. -/
theorem between_of_spec {z : Float} {x : ℚ} {low high : ℤ}
    (spec : |x| ≤ 2 ^ 1023 → Fits 971 z ∧ Rounds x (value z)) (above : low ≤ x) (below : x ≤ high)
    (bottom : -2 ^ 53 ≤ low) (top : high ≤ 2 ^ 53) : Between low high z := by
  have ordered : low ≤ high := by exact_mod_cast above.trans below
  have lower : (-2 ^ 53 : ℚ) ≤ low := by exact_mod_cast bottom
  have upper : (high : ℚ) ≤ 2 ^ 53 := by exact_mod_cast top
  have moderate : |x| ≤ 2 ^ 53 := abs_le.mpr ⟨lower.trans above, below.trans upper⟩
  obtain ⟨fits, rounds⟩ := spec (moderate.trans (pow_le_pow_right₀ (by norm_num) (by norm_num)))
  refine ⟨fits, ?_, ?_⟩
  · exact rounds.ge_of_precise (precise_intCast bottom (by omega)) above
  · exact rounds.le_of_precise (precise_intCast (by omega) top) below

section

variable {x y : Float} {low high low' high' : ℤ}

theorem Between.mono (between : Between low high x) (lower : low' ≤ low) (upper : high ≤ high') :
    Between low' high' x := by
  refine ⟨between.fits, le_trans ?_ between.low, between.high.trans ?_⟩
  · exact_mod_cast lower
  · exact_mod_cast upper

theorem Between.add (left : Between low high x) (right : Between low' high' y)
    (bottom : -2 ^ 53 ≤ low + low') (top : high + high' ≤ 2 ^ 53) :
    Between (low + low') (high + high') (x + y) := by
  refine between_of_spec (value_add left.fits right.fits) ?_ ?_ bottom top
  · push_cast
    exact add_le_add left.low right.low
  · push_cast
    exact add_le_add left.high right.high

theorem Between.sub (left : Between low high x) (right : Between low' high' y)
    (bottom : -2 ^ 53 ≤ low - high') (top : high - low' ≤ 2 ^ 53) :
    Between (low - high') (high - low') (x - y) := by
  refine between_of_spec (value_sub left.fits right.fits) ?_ ?_ bottom top
  · push_cast
    exact sub_le_sub left.low right.high
  · push_cast
    exact sub_le_sub left.high right.low

/-- A factor that is not negative keeps zero inside. -/
theorem Between.scale {factor : ℤ} (left : Between low high x) (right : Between 0 factor y)
    (lower : low ≤ 0) (upper : 0 ≤ high) (bottom : -2 ^ 53 ≤ low * factor)
    (top : high * factor ≤ 2 ^ 53) : Between (low * factor) (high * factor) (x * y) := by
  have positive : 0 ≤ value y := by exact_mod_cast right.low
  have negative : (low : ℚ) ≤ 0 := by exact_mod_cast lower
  have some : (0 : ℚ) ≤ high := by exact_mod_cast upper
  refine between_of_spec (value_mul left.fits right.fits) ?_ ?_ bottom top
  · push_cast
    exact (mul_le_mul_of_nonpos_left right.high negative).trans
      (mul_le_mul_of_nonneg_right left.low positive)
  · push_cast
    exact (mul_le_mul_of_nonneg_right left.high positive).trans
      (mul_le_mul_of_nonneg_left right.high some)

theorem Between.mul (left : Between (-high) high x) (right : Between (-high') high' y)
    (top : high * high' ≤ 2 ^ 53) : Between (-(high * high')) (high * high') (x * y) := by
  have first : |value x| ≤ high := abs_le.mpr ⟨by exact_mod_cast left.low, left.high⟩
  have second : |value y| ≤ high' := abs_le.mpr ⟨by exact_mod_cast right.low, right.high⟩
  have product : |value x * value y| ≤ high * high' := by
    rw [abs_mul]
    exact mul_le_mul first second (abs_nonneg _) ((abs_nonneg _).trans first)
  obtain ⟨above, below⟩ := abs_le.mp product
  refine between_of_spec (value_mul left.fits right.fits) ?_ ?_ (by omega) top
  · push_cast
    exact above
  · push_cast
    exact below

/-- A divisor of one and more brings a number closer to zero. -/
theorem Between.div (left : Between low high x) (fits : Fits 971 y) (long : 1 ≤ value y)
    (lower : low ≤ 0) (upper : 0 ≤ high) (bottom : -2 ^ 53 ≤ low) (top : high ≤ 2 ^ 53) :
    Between low high (x / y) := by
  have divisor : 0 < value y := lt_of_lt_of_le one_pos long
  have negative : (low : ℚ) ≤ 0 := by exact_mod_cast lower
  have positive : (0 : ℚ) ≤ high := by exact_mod_cast upper
  refine between_of_spec (value_div left.fits fits divisor.ne') ?_ ?_ bottom top
  · rw [le_div_iff₀ divisor]
    exact (mul_le_of_one_le_right negative long).trans left.low
  · rw [div_le_iff₀ divisor]
    exact left.high.trans (le_mul_of_one_le_right positive long)

theorem Between.neg (between : Between low high x) : Between (-high) (-low) (-x) := by
  refine ⟨fits_neg between.fits (by norm_num) (le_refl _), ?_, ?_⟩
  · rw [value_neg between.fits]
    push_cast
    exact neg_le_neg between.high
  · rw [value_neg between.fits]
    push_cast
    exact neg_le_neg between.low

end

end Kerf.Doubles
