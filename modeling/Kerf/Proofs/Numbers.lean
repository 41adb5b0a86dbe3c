import Kerf.Proofs.Intervals
import Mathlib.Data.EReal.Basic

/-!
# Doubles as an order

Doubles other than the value that is not a number are totally ordered: the finite ones as the numbers
that they stand for, between the two infinities. A comparison holds exactly if both sides are numbers
and stand in that order.
-/

set_option autoImplicit false

namespace Kerf.Doubles

open Float.Model
open Float.Model.UnpackedFloat

/-- Whether a double is a number, finite or infinite. -/
def IsNumber (x : Float) : Prop := x.toModel.unpack ≠ .notANumber

/-- The place of an unpacked double on the line with its two ends. -/
noncomputable def rankOf : UnpackedFloat → EReal
  | .infinity .positive => ⊤
  | .infinity .negative => ⊥
  | u => ((valueOf u : ℝ) : EReal)

/-- The place of a double on the line with its two ends. -/
noncomputable def rank (x : Float) : EReal := rankOf x.toModel.unpack

section

variable {x y z : Float}

theorem number_cases (number : IsNumber x) :
    Fits 971 x ∧ rank x = ((value x : ℝ) : EReal) ∨
      x.toModel.unpack = .infinity .positive ∧ rank x = ⊤ ∨
        x.toModel.unpack = .infinity .negative ∧ rank x = ⊥ := by
  rw [fits_iff]
  unfold IsNumber at number
  unfold rank value
  generalize x.toModel.unpack = u at number
  cases u with
  | infinity sign =>
      cases sign with
      | positive => exact .inr (.inl ⟨rfl, rfl⟩)
      | negative => exact .inr (.inr ⟨rfl, rfl⟩)
  | notANumber => exact absurd rfl number
  | zero sign => exact .inl ⟨rfl, rfl⟩
  | finite sign mantissa exponent positive => exact .inl ⟨rfl, rfl⟩

theorem isNumber_of_fits (fits : Fits 971 x) : IsNumber x := by
  intro none
  rw [fits_iff, none] at fits
  cases fits

theorem rank_of_fits (fits : Fits 971 x) : rank x = ((value x : ℝ) : EReal) := by
  rcases number_cases (isNumber_of_fits fits) with ⟨_, place⟩ | ⟨infinite, _⟩ | ⟨infinite, _⟩
  · exact place
  · rw [fits_iff, infinite] at fits
    cases fits
  · rw [fits_iff, infinite] at fits
    cases fits

theorem compare_infinity {u : UnpackedFloat} (finite : u.isFinite = true) :
    u.compare (.infinity .positive) = some .lt ∧ u.compare (.infinity .negative) = some .gt ∧
      UnpackedFloat.compare (.infinity .positive) u = some .gt ∧
        UnpackedFloat.compare (.infinity .negative) u = some .lt := by
  cases u with
  | infinity sign => cases finite
  | notANumber => cases finite
  | zero sign => exact ⟨rfl, rfl, rfl, rfl⟩
  | finite sign mantissa exponent positive => cases sign <;> exact ⟨rfl, rfl, rfl, rfl⟩

/-- Comparing doubles that are numbers compares their places. -/
theorem compare_eq_rank (left : IsNumber x) (right : IsNumber y) :
    x.toModel.unpack.compare y.toModel.unpack = some (compare (rank x) (rank y)) := by
  rcases number_cases left with ⟨finite, place⟩ | ⟨infinite, place⟩ | ⟨infinite, place⟩
  · obtain ⟨below, above, _⟩ := compare_infinity (fits_iff.mp finite)
    rcases number_cases right with ⟨finite', place'⟩ | ⟨infinite', place'⟩ | ⟨infinite', place'⟩ <;>
      rw [place, place']
    · rw [compare_eq (canonical_of_fits finite) (canonical_of_fits finite')]
      change some (compare (value x) (value y)) = _
      rcases lt_trichotomy (value x) (value y) with less | same | more
      · rw [compare_lt_iff_lt.mpr less, compare_lt_iff_lt.mpr]
        exact_mod_cast less
      · rw [same, compare_eq_iff_eq.mpr rfl, compare_eq_iff_eq.mpr rfl]
      · rw [compare_gt_iff_gt.mpr more, compare_gt_iff_gt.mpr]
        exact_mod_cast more
    · rw [infinite', below, compare_lt_iff_lt.mpr (EReal.coe_lt_top _)]
    · rw [infinite', above, compare_gt_iff_gt.mpr (EReal.bot_lt_coe _)]
  · rcases number_cases right with ⟨finite', place'⟩ | ⟨infinite', place'⟩ | ⟨infinite', place'⟩ <;>
      rw [infinite, place, place']
    · rw [(compare_infinity (fits_iff.mp finite')).2.2.1,
        compare_gt_iff_gt.mpr (EReal.coe_lt_top _)]
    · rw [infinite', compare_eq_iff_eq.mpr rfl]
      rfl
    · rw [infinite', compare_gt_iff_gt.mpr bot_lt_top]
      rfl
  · rcases number_cases right with ⟨finite', place'⟩ | ⟨infinite', place'⟩ | ⟨infinite', place'⟩ <;>
      rw [infinite, place, place']
    · rw [(compare_infinity (fits_iff.mp finite')).2.2.2,
        compare_lt_iff_lt.mpr (EReal.bot_lt_coe _)]
    · rw [infinite', compare_lt_iff_lt.mpr bot_lt_top]
      rfl
    · rw [infinite', compare_eq_iff_eq.mpr rfl]
      rfl

theorem isNumber_of_compare {ordering : Ordering}
    (compared : x.toModel.unpack.compare y.toModel.unpack = some ordering) :
    IsNumber x ∧ IsNumber y := by
  unfold IsNumber
  generalize x.toModel.unpack = u at compared
  generalize y.toModel.unpack = v at compared
  constructor
  · rintro rfl
    cases compared
  · rintro rfl
    cases u <;> cases compared

theorem le_iff_rank : x ≤ y ↔ IsNumber x ∧ IsNumber y ∧ rank x ≤ rank y := by
  have unfolded : x ≤ y ↔ (x.toModel.unpack.compare y.toModel.unpack).any Ordering.isLE = true :=
    decide_eq_true_iff
  have ordered (left : IsNumber x) (right : IsNumber y) :
      (x.toModel.unpack.compare y.toModel.unpack).any Ordering.isLE = true ↔ rank x ≤ rank y := by
    rw [compare_eq_rank left right, Option.any_some, Ordering.isLE_iff_ne_gt,
      compare_gt_iff_gt, not_lt]
  rw [unfolded]
  constructor
  · intro compared
    cases known : x.toModel.unpack.compare y.toModel.unpack with
    | none =>
        rw [known] at compared
        cases compared
    | some ordering =>
        obtain ⟨left, right⟩ := isNumber_of_compare known
        exact ⟨left, right, (ordered left right).mp compared⟩
  · rintro ⟨left, right, le⟩
    exact (ordered left right).mpr le

theorem lt_iff_rank : x < y ↔ IsNumber x ∧ IsNumber y ∧ rank x < rank y := by
  have unfolded : x < y ↔ x.toModel.unpack.compare y.toModel.unpack = some .lt :=
    decide_eq_true_iff.trans beq_iff_eq
  rw [unfolded]
  constructor
  · intro compared
    obtain ⟨left, right⟩ := isNumber_of_compare compared
    rw [compare_eq_rank left right, Option.some_inj, compare_lt_iff_lt] at compared
    exact ⟨left, right, compared⟩
  · rintro ⟨left, right, less⟩
    rw [compare_eq_rank left right, compare_lt_iff_lt.mpr less]

theorem le_of_not_less (left : IsNumber x) (right : IsNumber y) (less : ¬ x < y) : y ≤ x := by
  rw [lt_iff_rank] at less
  exact le_iff_rank.mpr ⟨right, left, not_lt.mp fun below => less ⟨left, right, below⟩⟩

/-! ## The ends of the line -/

theorem top_of_infinite (infinite : x.toModel.unpack = .infinity .positive) :
    IsNumber x ∧ rank x = ⊤ := by
  rw [IsNumber, rank, infinite]
  exact ⟨UnpackedFloat.noConfusion, rfl⟩

theorem bottom_of_infinite (infinite : x.toModel.unpack = .infinity .negative) :
    IsNumber x ∧ rank x = ⊥ := by
  rw [IsNumber, rank, infinite]
  exact ⟨UnpackedFloat.noConfusion, rfl⟩

theorem neg_infinity_lt (fits : Fits 971 x) : -Scalar.infinity < x := by
  obtain ⟨number, bottom⟩ := bottom_of_infinite (x := -Scalar.infinity) rfl
  refine lt_iff_rank.mpr ⟨number, isNumber_of_fits fits, ?_⟩
  rw [bottom, rank_of_fits fits]
  exact EReal.bot_lt_coe _

theorem neg_nonneg_of_not_pos (number : IsNumber x) (below : ¬ 0 < x) : 0 ≤ -x := by
  have zero := isNumber_of_fits between_zero.fits
  have le : x ≤ 0 := le_of_not_less zero number below
  by_cases fits : Fits 971 x
  · rw [le_iff fits between_zero.fits, value_zero] at le
    rw [le_iff between_zero.fits (fits_neg fits (by norm_num) (le_refl _)), value_zero,
      value_neg fits]
    exact neg_nonneg.mpr le
  · obtain ⟨number', top⟩ :=
      top_of_infinite (unpack_neg_infinity (unpack_of_ge between_zero.fits le fits))
    exact le_iff_rank.mpr ⟨zero, number', top ▸ le_top⟩

theorem fits_of_beq (same : (x == y) = true) (fits : Fits 971 y) : Fits 971 x := by
  rw [fits_iff] at fits ⊢
  rcases beq_iff.mp same with ⟨sign, _, zero, _⟩ | ⟨equal, _⟩
  · rw [zero]
    rfl
  · rwa [equal]

/-! ## Extrema -/

theorem beq_iff_rank : (x == y) = true ↔ IsNumber x ∧ IsNumber y ∧ rank x = rank y := by
  change (x.toModel.unpack.compare y.toModel.unpack == some .eq) = true ↔ _
  rw [beq_iff_eq]
  constructor
  · intro compared
    obtain ⟨left, right⟩ := isNumber_of_compare compared
    rw [compare_eq_rank left right, Option.some_inj, compare_eq_iff_eq] at compared
    exact ⟨left, right, compared⟩
  · rintro ⟨left, right, same⟩
    rw [compare_eq_rank left right, compare_eq_iff_eq.mpr same]

theorem isNaN_iff : x.isNaN = true ↔ ¬ IsNumber x := by
  change x.toModel.unpack.isNaN = true ↔ _
  unfold IsNumber
  cases x.toModel.unpack <;> simp [UnpackedFloat.isNaN]

theorem isNaN_of_isNumber (number : IsNumber x) : x.isNaN = false :=
  Bool.eq_false_iff.mpr fun missing => isNaN_iff.mp missing number

theorem rank_eq_of_beq (both : (x == z && y == z) = true) : rank x = rank y := by
  rw [Bool.and_eq_true, beq_iff_rank, beq_iff_rank] at both
  exact both.1.2.2.trans both.2.2.2.symm

theorem rank_min (left : IsNumber x) (right : IsNumber y) :
    IsNumber (Scalar.min x y) ∧ rank (Scalar.min x y) = min (rank x) (rank y) := by
  obtain ⟨number, bottom⟩ := bottom_of_infinite (x := -Scalar.infinity) rfl
  unfold Scalar.min
  split
  · next infinite =>
      refine ⟨number, ?_⟩
      rw [Bool.or_eq_true, beq_iff_rank, beq_iff_rank, bottom] at infinite
      rcases infinite with ⟨_, _, lowest⟩ | ⟨_, _, lowest⟩
      · rw [bottom, lowest, min_eq_left bot_le]
      · rw [bottom, lowest, min_eq_right bot_le]
  · rw [isNaN_of_isNumber left, isNaN_of_isNumber right, Bool.or_false, if_neg Bool.false_ne_true]
    split
    · next zeros =>
        have same := rank_eq_of_beq zeros
        rw [same, min_self]
        split
        · exact ⟨left, same⟩
        · exact ⟨right, rfl⟩
    · split
      · next less => exact ⟨left, (min_eq_left (lt_iff_rank.mp less).2.2.le).symm⟩
      · next less =>
          exact ⟨right, (min_eq_right (le_iff_rank.mp (le_of_not_less left right less)).2.2).symm⟩

theorem value_min (left : Fits 971 x) (right : Fits 971 y) :
    value (Scalar.min x y) = min (value x) (value y) := by
  have place := (rank_min (isNumber_of_fits left) (isNumber_of_fits right)).2
  rw [rank_of_fits left, rank_of_fits right, rank_of_fits (fits_min left right),
    ← EReal.coe_strictMono.monotone.map_min] at place
  exact_mod_cast place

private theorem rank_max (left : IsNumber x) (right : IsNumber y) :
    IsNumber (Scalar.max x y) ∧ rank (Scalar.max x y) = max (rank x) (rank y) := by
  obtain ⟨number, top⟩ := top_of_infinite (x := Scalar.infinity) rfl
  unfold Scalar.max
  split
  · next infinite =>
      refine ⟨number, ?_⟩
      rw [Bool.or_eq_true, beq_iff_rank, beq_iff_rank, top] at infinite
      rcases infinite with ⟨_, _, highest⟩ | ⟨_, _, highest⟩
      · rw [top, highest, max_eq_left le_top]
      · rw [top, highest, max_eq_right le_top]
  · rw [isNaN_of_isNumber left, isNaN_of_isNumber right, Bool.or_false, if_neg Bool.false_ne_true]
    split
    · next zeros =>
        have same := rank_eq_of_beq zeros
        rw [same, max_self]
        split
        · exact ⟨right, rfl⟩
        · exact ⟨left, same⟩
    · split
      · next less => exact ⟨left, (max_eq_left (lt_iff_rank.mp less).2.2.le).symm⟩
      · next less =>
          exact ⟨right, (max_eq_right (le_iff_rank.mp (le_of_not_less right left less)).2.2).symm⟩

/-- Without two numbers, the smaller one is below or beside everything. -/
theorem not_lt_min (missing : ¬ (IsNumber x ∧ IsNumber y)) : ¬ z < Scalar.min x y := by
  have either : (x.isNaN || y.isNaN) = true := by
    rwa [Bool.or_eq_true, isNaN_iff, isNaN_iff, ← not_and_or]
  unfold Scalar.min
  rw [either, if_pos rfl, lt_iff_rank]
  split
  · rw [(bottom_of_infinite (x := -Scalar.infinity) rfl).2]
    exact fun less => not_lt_bot less.2.2
  · exact fun less => less.2.1 rfl

private theorem not_max_le (missing : ¬ (IsNumber x ∧ IsNumber y)) (finite : Fits 971 z) :
    ¬ Scalar.max x y ≤ z := by
  have either : (x.isNaN || y.isNaN) = true := by
    rwa [Bool.or_eq_true, isNaN_iff, isNaN_iff, ← not_and_or]
  unfold Scalar.max
  rw [either, if_pos rfl, le_iff_rank, rank_of_fits finite]
  split
  · rw [(top_of_infinite (x := Scalar.infinity) rfl).2]
    exact fun le => not_le.mpr (EReal.coe_lt_top _) le.2.2
  · exact fun le => le.1 rfl

theorem lt_min_iff_lt : z < Scalar.min x y ↔ z < x ∧ z < y := by
  by_cases numbers : IsNumber x ∧ IsNumber y
  · obtain ⟨number, place⟩ := rank_min numbers.1 numbers.2
    rw [lt_iff_rank, lt_iff_rank, lt_iff_rank, place, lt_min_iff]
    tauto
  · refine iff_of_false (not_lt_min numbers) fun less => numbers ?_
    exact ⟨(lt_iff_rank.mp less.1).2.1, (lt_iff_rank.mp less.2).2.1⟩

theorem max_between {low high limit : Float} (ordered : low ≤ high) (limited : ¬ high < x)
    (finite : Fits 971 limit) (reached : Scalar.max x low ≤ limit) :
    low ≤ Scalar.max x low ∧ Scalar.max x low ≤ high := by
  obtain ⟨lowest, highest, below⟩ := le_iff_rank.mp ordered
  have number : IsNumber x := by
    by_contra missing
    exact not_max_le (fun numbers => missing numbers.1) finite reached
  obtain ⟨larger, place⟩ := rank_max number lowest
  have above := (le_iff_rank.mp (le_of_not_less highest number limited)).2.2
  exact ⟨le_iff_rank.mpr ⟨lowest, larger, place ▸ le_max_right _ _⟩,
    le_iff_rank.mpr ⟨larger, highest, place ▸ max_le above below⟩⟩

theorem fits_of_le_of_le (left : Fits 971 x) (right : Fits 971 z) (above : x ≤ y) (below : y ≤ z) :
    Fits 971 y := by
  by_contra infinite
  have top := unpack_of_le left above infinite
  rw [unpack_of_ge right below infinite] at top
  cases top

/-! ## Results that are numbers -/

/-- What overflows becomes infinite, and remains a number. -/
theorem isNumber_of_canonical {u : UnpackedFloat} (canonical : Canonical u) :
    (Float.Model.pack u).unpack ≠ .notANumber := by
  by_cases within : Within 971 u
  · rw [unpack_pack_of_canonical canonical within]
    rintro rfl
    exact canonical.elim
  · cases u with
    | infinity sign => exact canonical.elim
    | notANumber => exact canonical.elim
    | zero sign => exact absurd trivial within
    | finite sign mantissa exponent positive =>
        have large : 971 < exponent := by
          by_contra small
          exact within ⟨canonical.1, not_lt.mp small⟩
        have bias : ((Format.binary64.exponentBias : Int) +
            Format.binary64.mantissaBitsWithoutImplicit) = 1075 := rfl
        have top : unpack Format.binary64 (packedInfinity Format.binary64 sign) = .infinity sign := by
          cases sign <;> rfl
        change unpack Format.binary64 (UnpackedFloat.pack Format.binary64 _) ≠ _
        unfold UnpackedFloat.pack
        dsimp only
        rw [add_assoc, bias, if_pos (show 2 ^ 11 ≤ (exponent + 1075).toNat + 1 by omega),
          top]
        exact UnpackedFloat.noConfusion

theorem isNumber_div (left : Fits 971 x) (right : Fits 971 y) (nonzero : value y ≠ 0) :
    IsNumber (x / y) :=
  isNumber_of_canonical (div_spec (canonical_of_fits left) (canonical_of_fits right) nonzero).1

theorem unpack_pack_infinity (sign : Sign) :
    (Float.Model.pack (.infinity sign)).unpack = .infinity sign := by
  cases sign <;> rfl

theorem unpack_pack_notANumber : (Float.Model.pack .notANumber).unpack = .notANumber := rfl

theorem add_infinity {u : UnpackedFloat} (sign : Sign) (finite : u.isFinite = true) :
    UnpackedFloat.add Format.binary64 u (.infinity sign) = .infinity sign ∧
      UnpackedFloat.add Format.binary64 (.infinity sign) u = .infinity sign := by
  cases u with
  | infinity sign' => cases finite
  | notANumber => cases finite
  | _ => exact ⟨rfl, rfl⟩

theorem unpack_sub_infinite {sign : Sign} (left : Fits 971 x)
    (infinite : y.toModel.unpack = .infinity sign) : (x - y).toModel.unpack = .infinity (-sign) := by
  change (Float.Model.pack (UnpackedFloat.sub _ _ y.toModel.unpack)).unpack = _
  have mirrored : (UnpackedFloat.infinity sign).neg = .infinity (-sign) := rfl
  rw [sub_eq_add, infinite, mirrored, (add_infinity (-sign) (fits_iff.mp left)).1,
    unpack_pack_infinity]

theorem unpack_infinite_add {sign : Sign} (infinite : x.toModel.unpack = .infinity sign)
    (right : Fits 971 y) : (x + y).toModel.unpack = .infinity sign := by
  change (Float.Model.pack (UnpackedFloat.add _ x.toModel.unpack _)).unpack = _
  rw [infinite, (add_infinity sign (fits_iff.mp right)).2, unpack_pack_infinity]

theorem unpack_infinite_sub {sign : Sign} (infinite : x.toModel.unpack = .infinity sign)
    (right : Fits 971 y) : (x - y).toModel.unpack = .infinity sign := by
  have finite : y.toModel.unpack.neg.isFinite = true := (isFinite_neg _).trans (fits_iff.mp right)
  change (Float.Model.pack (UnpackedFloat.sub _ x.toModel.unpack _)).unpack = _
  rw [sub_eq_add, infinite, (add_infinity sign finite).2, unpack_pack_infinity]

theorem isNumber_sub (left : Fits 971 x) (right : IsNumber y) : IsNumber (x - y) := by
  rcases number_cases right with ⟨finite, _⟩ | ⟨infinite, _⟩ | ⟨infinite, _⟩
  · exact isNumber_of_canonical (sub_spec (canonical_of_fits left) (canonical_of_fits finite)).1
  · exact (bottom_of_infinite (unpack_sub_infinite left infinite)).1
  · exact (top_of_infinite (unpack_sub_infinite left infinite)).1

theorem isNumber_of_add (number : IsNumber (x + y)) : IsNumber x := by
  intro none
  apply number
  change (Float.Model.pack (UnpackedFloat.add Format.binary64 x.toModel.unpack
    y.toModel.unpack)).unpack = _
  rw [none]
  exact unpack_pack_notANumber

theorem isNumber_of_sub (number : IsNumber (x - y)) : IsNumber x := by
  intro none
  apply number
  change (Float.Model.pack (UnpackedFloat.sub Format.binary64 x.toModel.unpack
    y.toModel.unpack)).unpack = _
  rw [none]
  exact unpack_pack_notANumber

/-! ## A little more or less -/

private theorem abs_value_add_two_lt (fits : Fits 971 x) : |value x| + 2 < 2 ^ 1024 := by
  have room : (2 : ℚ) < 2 ^ 971 :=
    calc (2 : ℚ) < 2 ^ 2 := by norm_num
      _ ≤ 2 ^ 971 := pow_le_pow_right₀ (by norm_num) (by norm_num)
  unfold Fits at fits
  unfold value
  generalize x.toModel.unpack = u at fits
  cases u with
  | infinity sign => exact fits.elim
  | notANumber => exact fits.elim
  | zero sign =>
      have nothing : |valueOf (.zero sign)| = 0 := abs_zero
      rw [nothing, zero_add]
      exact room.trans_le (pow_le_pow_right₀ (by norm_num) (by norm_num))
  | finite sign mantissa exponent positive =>
      obtain ⟨bits, high⟩ := fits
      have digits : (mantissa : ℚ) + 1 ≤ 2 ^ 53 := by exact_mod_cast bits
      have power : (2 : ℚ) ^ exponent ≤ 2 ^ 971 := by
        rw [← zpow_natCast]
        exact zpow_le_zpow_right₀ (by norm_num) high
      calc |valueOf (.finite sign mantissa exponent positive)| + 2
          = mantissa * 2 ^ exponent + 2 := by rw [abs_valueOf_finite]
        _ < mantissa * 2 ^ 971 + 2 ^ 971 :=
            add_lt_add_of_le_of_lt (mul_le_mul_of_nonneg_left power (Nat.cast_nonneg _)) room
        _ = (mantissa + 1) * 2 ^ 971 := (add_one_mul _ _).symm
        _ ≤ 2 ^ 53 * 2 ^ 971 := mul_le_mul_of_nonneg_right digits (by positivity)
        _ = 2 ^ 1024 := (pow_add 2 53 971).symm

/-- A result that is hardly any larger than a double does not overflow. -/
theorem fits_of_rounds_near {u : UnpackedFloat} {r : ℚ} (left : Fits 971 x) (canonical : Canonical u)
    (rounds : Rounds r (valueOf u)) (near : |r - value x| ≤ 1) :
    Within 971 (Float.Model.pack u).unpack ∧ Rounds r (valueOf (Float.Model.pack u).unpack) := by
  have closest := rounds.closest (precise_of_canonical (canonical_of_fits left))
  have less : |valueOf u| < 2 ^ 1024 := by
    have apart : |valueOf u - value x| ≤ 2 := by
      have := abs_sub_le (valueOf u) r (value x)
      rw [abs_sub_comm (valueOf u) r] at this
      exact this.trans (by linarith [closest.trans near])
    have total := abs_sub_abs_le_abs_sub (valueOf u) (value x)
    exact lt_of_le_of_lt (by linarith) (abs_value_add_two_lt left)
  have within := within_of_canonical canonical less
  rw [unpack_pack_of_canonical canonical within]
  exact ⟨within, rounds⟩

/-- Adding a little makes nothing smaller. -/
theorem le_add_small (le : x ≤ y) (fits : Fits 971 z) (low : 0 ≤ value z) (high : value z ≤ 1) :
    x ≤ y + z := by
  obtain ⟨left, right, placed⟩ := le_iff_rank.mp le
  suffices more : IsNumber (y + z) ∧ rank y ≤ rank (y + z) from
    le_iff_rank.mpr ⟨left, more.1, placed.trans more.2⟩
  rcases number_cases right with ⟨finite, place⟩ | ⟨infinite, place⟩ | ⟨infinite, place⟩
  · obtain ⟨canonical, rounds⟩ := add_spec (canonical_of_fits finite) (canonical_of_fits fits)
    obtain ⟨within, rounds⟩ := fits_of_rounds_near finite canonical rounds (by
      rw [← value, add_sub_cancel_left, ← value, abs_of_nonneg low]
      exact high)
    have sum : Fits 971 (y + z) := within
    have above : value y ≤ value (y + z) :=
      rounds.ge_of_precise (precise_of_canonical (canonical_of_fits finite))
        (le_add_of_nonneg_right low)
    rw [place, rank_of_fits sum]
    exact ⟨isNumber_of_fits sum, by exact_mod_cast above⟩
  · obtain ⟨number, top⟩ := top_of_infinite (unpack_infinite_add infinite fits)
    exact ⟨number, top ▸ le_top⟩
  · obtain ⟨number, bottom⟩ := bottom_of_infinite (unpack_infinite_add infinite fits)
    exact ⟨number, place ▸ bot_le⟩

/-- Taking a little away makes nothing larger. -/
theorem sub_small_le (le : x ≤ y) (fits : Fits 971 z) (low : 0 ≤ value z) (high : value z ≤ 1) :
    x - z ≤ y := by
  obtain ⟨left, right, placed⟩ := le_iff_rank.mp le
  suffices less : IsNumber (x - z) ∧ rank (x - z) ≤ rank x from
    le_iff_rank.mpr ⟨less.1, right, less.2.trans placed⟩
  rcases number_cases left with ⟨finite, place⟩ | ⟨infinite, place⟩ | ⟨infinite, place⟩
  · obtain ⟨canonical, rounds⟩ := sub_spec (canonical_of_fits finite) (canonical_of_fits fits)
    obtain ⟨within, rounds⟩ := fits_of_rounds_near finite canonical rounds (by
      rw [← value, sub_sub_cancel_left, abs_neg, ← value, abs_of_nonneg low]
      exact high)
    have difference : Fits 971 (x - z) := within
    have below : value (x - z) ≤ value x :=
      rounds.le_of_precise (precise_of_canonical (canonical_of_fits finite))
        (sub_le_self _ low)
    rw [place, rank_of_fits difference]
    exact ⟨isNumber_of_fits difference, by exact_mod_cast below⟩
  · obtain ⟨number, top⟩ := top_of_infinite (unpack_infinite_sub infinite fits)
    exact ⟨number, place ▸ le_top⟩
  · obtain ⟨number, bottom⟩ := bottom_of_infinite (unpack_infinite_sub infinite fits)
    exact ⟨number, bottom ▸ bot_le⟩

end

end Kerf.Doubles
