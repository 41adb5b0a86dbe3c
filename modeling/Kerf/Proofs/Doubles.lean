import Mathlib

/-!
# Doubles that do not overflow

A double is within a limit if it is finite and its exponent does not exceed the limit. Rounding
raises the exponent by at most one, and by none when the number stays below the half way mark to
the next power of two. So the nearest double of a decimal is finite whenever the decimal lies below
the half way mark beyond the largest double.
-/

set_option autoImplicit false

namespace Kerf.Doubles

open Float.Model
open Float.Model.UnpackedFloat

/-- Whether an unpacked number is finite with at most 53 bits and an exponent up to a limit. -/
def Within (limit : Int) : UnpackedFloat → Prop
  | .zero _ => True
  | .finite _ mantissa exponent _ => mantissa < 2 ^ 53 ∧ exponent ≤ limit
  | _ => False

variable {limit : Int} {x y : Float}

theorem Within.mono {wider : Int} {x : UnpackedFloat} (within : Within limit x)
    (le : limit ≤ wider) : Within wider x := by
  cases x with
  | infinity sign => exact within
  | notANumber => exact within
  | zero sign => trivial
  | finite sign mantissa exponent positive => exact ⟨within.1, Int.le_trans within.2 le⟩

/-! ## Rounding -/

theorem mantissa_shift (number : ExtendedMantissa) (count : Nat) :
    (number >>> count).mantissa = number.mantissa / 2 ^ count := by
  change (count.repeat ExtendedMantissa.shiftRightOne number).mantissa = _
  induction count with
  | zero => simp [Nat.repeat]
  | succ count ih =>
      rw [Nat.repeat, ExtendedMantissa.shiftRightOne, ih, Nat.div_div_eq_div_mul, Nat.pow_succ]

private theorem roundBit_shift (number : ExtendedMantissa) (count : Nat) :
    (number >>> (count + 1)).roundBit = (number.mantissa / 2 ^ count % 2 != 0) := by
  rw [← mantissa_shift]
  rfl

theorem roundedMantissa_cases (number : ExtendedMantissa) :
    number.roundedMantissa = number.mantissa ∨
      number.roundBit = true ∧ number.roundedMantissa = number.mantissa + 1 := by
  obtain ⟨mantissa, roundBit, stickyBit⟩ := number
  cases roundBit with
  | false =>
      left
      cases stickyBit <;> rfl
  | true =>
      cases stickyBit with
      | true => exact .inr ⟨rfl, rfl⟩
      | false =>
          change mantissa + mantissa % 2 = mantissa ∨
            true = true ∧ mantissa + mantissa % 2 = mantissa + 1
          rcases Nat.mod_two_eq_zero_or_one mantissa with even | odd
          · exact .inl (by omega)
          · exact .inr ⟨rfl, by omega⟩

/-- The exponent that a number is rounded at. -/
def grid (mantissa : Nat) (exponent : Int) : Int :=
  max exponent (max (mantissa.log2 + 1 + exponent - 53) (-1074))

/-- The mantissa of a number on its grid, before it is rounded. -/
def onGrid (mantissa : Nat) (exponent : Int) (accuracy : Accuracy) : ExtendedMantissa :=
  ExtendedMantissa.ofMantissaAndAccuracy mantissa accuracy >>>
    (grid mantissa exponent - exponent).toNat

theorem shiftToTargetExponent_eq (mantissa : Nat) (exponent : Int) (accuracy : Accuracy) :
    shiftToTargetExponent Format.binary64 mantissa exponent accuracy =
      (onGrid mantissa exponent accuracy, grid mantissa exponent) := by
  have target : Format.binary64.targetExponent (totalExponent mantissa exponent) =
      max (mantissa.log2 + 1 + exponent - 53) (-1074) := rfl
  have amount : (grid mantissa exponent - exponent).toNat =
      (max (mantissa.log2 + 1 + exponent - 53) (-1074) - exponent).toNat := by
    unfold grid
    omega
  have reached : exponent + ((max (mantissa.log2 + 1 + exponent - 53) (-1074) - exponent).toNat : Int) =
      grid mantissa exponent := by
    unfold grid
    omega
  unfold shiftToTargetExponent shiftToExponent onGrid
  rw [target, amount]
  exact Prod.ext rfl reached

theorem mantissa_ofMantissaAndAccuracy (mantissa : Nat) (accuracy : Accuracy) :
    (ExtendedMantissa.ofMantissaAndAccuracy mantissa accuracy).mantissa = mantissa := by
  cases accuracy with
  | exact => rfl
  | inexact side => cases side <;> rfl

theorem mantissa_onGrid (mantissa : Nat) (exponent : Int) (accuracy : Accuracy) :
    (onGrid mantissa exponent accuracy).mantissa =
      mantissa / 2 ^ (grid mantissa exponent - exponent).toNat := by
  rw [onGrid, mantissa_shift, mantissa_ofMantissaAndAccuracy]

theorem mantissa_onGrid_lt (mantissa : Nat) (exponent : Int) (accuracy : Accuracy) :
    (onGrid mantissa exponent accuracy).mantissa < 2 ^ 53 := by
  rw [mantissa_onGrid]
  apply Nat.div_lt_of_lt_mul
  rw [← Nat.pow_add]
  apply Nat.lt_of_lt_of_le Nat.lt_log2_self
  apply Nat.pow_le_pow_right Nat.two_pos
  unfold grid
  omega

theorem within_of_grid_le (sign : Sign) (mantissa : Nat) (exponent : Int) (accuracy : Accuracy)
    (le : grid (onGrid mantissa exponent accuracy).roundedMantissa (grid mantissa exponent) ≤ limit) :
    Within limit (roundWithAccuracy Format.binary64 sign mantissa exponent accuracy) := by
  unfold roundWithAccuracy
  simp only [shiftToTargetExponent_eq]
  split
  · trivial
  · exact ⟨mantissa_onGrid_lt _ _ _, le⟩

theorem log2_lt_of_lt {n bits : Nat} (positive : 0 < bits) (small : n < 2 ^ bits) :
    n.log2 < bits := by
  rcases Nat.eq_zero_or_pos n with rfl | nonzero
  · simpa using positive
  · exact (Nat.log2_lt (Nat.ne_of_gt nonzero)).mpr small

/-- Rounding raises the exponent of the grid by at most one. -/
theorem within_roundWithAccuracy (sign : Sign) (mantissa : Nat) (exponent : Int)
    (accuracy : Accuracy) :
    Within (grid mantissa exponent + 1)
      (roundWithAccuracy Format.binary64 sign mantissa exponent accuracy) := by
  apply within_of_grid_le
  have small := mantissa_onGrid_lt mantissa exponent accuracy
  -- Rounding up may carry into one more bit, hence the one more in the exponent.
  have rounded : (onGrid mantissa exponent accuracy).roundedMantissa < 2 ^ 54 := by
    rcases roundedMantissa_cases (onGrid mantissa exponent accuracy) with same | ⟨_, up⟩ <;> omega
  have bits := log2_lt_of_lt (by decide) rounded
  unfold grid
  omega

/-- A number below the half way mark to the next power of two stays on its grid. The mark is given by
the bits of the number that are kept and the first one that is not. -/
theorem within_roundWithAccuracy_of_lt (sign : Sign) {mantissa : Nat} {exponent : Int} {count : Nat}
    (accuracy : Accuracy) (shifted : grid mantissa exponent = exponent + (count + 1 : Nat))
    (below : mantissa / 2 ^ count < 2 ^ 54 - 1) :
    Within (grid mantissa exponent)
      (roundWithAccuracy Format.binary64 sign mantissa exponent accuracy) := by
  apply within_of_grid_le
  have amount : (grid mantissa exponent - exponent).toNat = count + 1 := by omega
  have kept : (onGrid mantissa exponent accuracy).mantissa = mantissa / 2 ^ count / 2 := by
    rw [mantissa_onGrid, amount, Nat.pow_succ, Nat.div_div_eq_div_mul]
  have rounded : (onGrid mantissa exponent accuracy).roundedMantissa < 2 ^ 53 := by
    rcases roundedMantissa_cases (onGrid mantissa exponent accuracy) with same | ⟨half, up⟩
    · rw [same]
      exact mantissa_onGrid_lt mantissa exponent accuracy
    · rw [onGrid, amount, roundBit_shift, mantissa_ofMantissaAndAccuracy] at half
      have odd : mantissa / 2 ^ count % 2 = 1 := by
        rcases Nat.mod_two_eq_zero_or_one (mantissa / 2 ^ count) with even | odd
        · rw [even] at half
          cases half
        · exact odd
      omega
  have bits := log2_lt_of_lt (by decide) rounded
  unfold grid
  omega

/-! ## Packing -/

/-- Components that are neither infinite nor no number unpack within the limit of their exponent. -/
theorem within_unpack (sign : Sign) (exponent : BitVec 11) (mantissa : BitVec 52)
    (finite : exponent ≠ -1#11) :
    Within (max (exponent.toNat - 1075) (-1074))
      (unpack Format.binary64 (packComponents Format.binary64 sign exponent mantissa)) := by
  have bias : ((Format.binary64.exponentBias : Int) + Format.binary64.mantissaBitsWithoutImplicit) =
      1075 := rfl
  unfold UnpackedFloat.unpack
  simp only [unpackMantissa_packComponents, unpackExponent_packComponents]
  rw [bias, if_neg finite]
  split
  · next zero =>
      split
      · trivial
      · refine ⟨Nat.lt_trans mantissa.isLt (by decide), ?_⟩
        rw [zero]
        decide
  · exact ⟨(1#1 ++ mantissa).isLt, by omega⟩

theorem within_unpack_pack {x : UnpackedFloat} (within : Within limit x) (low : -1074 ≤ limit)
    (high : limit ≤ 971) : Within limit (Float.Model.pack x).unpack := by
  change Within limit (unpack Format.binary64 (UnpackedFloat.pack Format.binary64 x))
  cases x with
  | infinity sign => exact within.elim
  | notANumber => exact within.elim
  | zero sign => exact (within_unpack sign 0#11 0#52 (by decide)).mono (by simpa using low)
  | finite sign mantissa exponent positive =>
      have small : (exponent + 1075).toNat < 2047 := by
        have := within.2
        omega
      have fits : ¬ 2 ^ 11 ≤ (exponent + 1075).toNat + 1 := by omega
      have biased : (BitVec.ofNat 11 (exponent + 1075).toNat).toNat = (exponent + 1075).toNat := by
        rw [BitVec.toNat_ofNat]
        exact Nat.mod_eq_of_lt (by omega)
      have finite : BitVec.ofNat 11 (exponent + 1075).toNat ≠ -1#11 := by
        intro same
        have equal := congrArg BitVec.toNat same
        rw [biased] at equal
        have top : (-1#11).toNat = 2047 := by decide
        omega
      have sum : exponent + (Format.binary64.exponentBias : Int) +
          (Format.binary64.mantissaBitsWithoutImplicit : Int) = exponent + 1075 := by
        change exponent + 1023 + 52 = exponent + 1075
        omega
      unfold UnpackedFloat.pack
      simp only [sum]
      rw [if_neg fits]
      split
      · refine (within_unpack sign _ _ finite).mono ?_
        rw [biased]
        have := within.2
        omega
      · exact (within_unpack sign 0#11 _ (by decide)).mono (by simpa using low)

/-! ## Operations -/

/-- Whether a double is finite with an exponent up to a limit. -/
def Fits (limit : Int) (x : Float) : Prop := Within limit x.toModel.unpack

theorem within_mul {low high : Int} {x y : UnpackedFloat} (left : Within low x)
    (right : Within high y) :
    Within (max (low + high + 53) (-1074) + 1) (mul Format.binary64 x y) := by
  cases x with
  | infinity sign => exact left.elim
  | notANumber => exact left.elim
  | zero sign =>
      cases y with
      | infinity sign => exact right.elim
      | notANumber => exact right.elim
      | zero sign => trivial
      | finite sign mantissa exponent positive => trivial
  | finite sign mantissa exponent positive =>
      cases y with
      | infinity sign => exact right.elim
      | notANumber => exact right.elim
      | zero sign => trivial
      | finite sign' mantissa' exponent' positive' =>
          have product : mantissa * mantissa' < 2 ^ 106 :=
            Nat.lt_of_lt_of_le (Nat.mul_lt_mul'' left.1 right.1) (by decide)
          have bits := log2_lt_of_lt (by decide) product
          refine (within_roundWithAccuracy _ _ _ _).mono ?_
          have := left.2
          have := right.2
          unfold grid
          omega

/-- A quotient keeps within the exponents of the numbers divided and the bits of the quotient. -/
theorem within_div {bits : Nat} (sign sign' : Sign) {mantissa mantissa' : Nat}
    (exponent exponent' : Int) (positive : 0 < mantissa) (positive' : 0 < mantissa')
    (small : mantissa < mantissa' * 2 ^ bits) :
    Within (max (exponent - exponent' + bits) (-1074) + 1)
      (div Format.binary64 (.finite sign mantissa exponent positive)
        (.finite sign' mantissa' exponent' positive')) := by
  unfold UnpackedFloat.div divCore
  dsimp only
  refine (within_roundWithAccuracy _ _ _ _).mono ?_
  generalize low : min (exponent - exponent') _ = target
  have below : target ≤ exponent - exponent' := by omega
  have shift : ((exponent - exponent' - target).toNat : Int) = exponent - exponent' - target := by
    omega
  generalize (exponent - exponent' - target).toNat = count at shift
  have quotient : mantissa <<< count / mantissa' < 2 ^ (bits + count) := by
    rw [Nat.shiftLeft_eq]
    apply Nat.div_lt_of_lt_mul
    rw [Nat.pow_add, ← Nat.mul_assoc]
    exact Nat.mul_lt_mul_of_pos_right small (Nat.two_pow_pos count)
  have log : (mantissa <<< count / mantissa').log2 ≤ bits + count := by
    rcases Nat.eq_zero_or_pos (mantissa <<< count / mantissa') with zero | nonzero
    · rw [zero]
      exact Nat.zero_le _
    · exact Nat.le_of_lt ((Nat.log2_lt (Nat.ne_of_gt nonzero)).mpr quotient)
  unfold grid
  omega

theorem Within.div {x : UnpackedFloat} (within : Within limit x) (sign : Sign) {mantissa : Nat}
    (exponent : Int) (positive : 0 < mantissa) :
    Within (max (limit - exponent + 53) (-1074) + 1)
      (UnpackedFloat.div Format.binary64 x (.finite sign mantissa exponent positive)) := by
  cases x with
  | infinity sign' => exact within.elim
  | notANumber => exact within.elim
  | zero sign' => trivial
  | finite sign' mantissa' exponent' positive' =>
      have small : mantissa' < mantissa * 2 ^ 53 :=
        Nat.lt_of_lt_of_le within.1 (Nat.le_mul_of_pos_left _ positive)
      refine (within_div sign' sign exponent' exponent positive' positive small).mono ?_
      have := within.2
      omega

theorem fits_toFloat (n : UInt64) : Fits 13 n.toFloat := by
  change Within 13
    (Float.Model.pack (UnpackedFloat.normalize Format.binary64 n.toNat 0 .positive)).unpack
  refine within_unpack_pack ?_ (by decide) (by decide)
  unfold UnpackedFloat.normalize
  split
  · next negative =>
      have := Int.compare_eq_lt.mp negative
      omega
  · trivial
  · unfold UnpackedFloat.round decreaseExponent
    dsimp only
    refine (within_roundWithAccuracy _ _ _ _).mono ?_
    generalize (0 - Format.binary64.targetExponent (totalExponent (n.toNat : Int).toNat 0)).toNat =
      count
    have shifted : (n.toNat : Int).toNat <<< count < 2 ^ (64 + count) := by
      rw [Int.toNat_natCast, Nat.shiftLeft_eq, Nat.pow_add]
      exact Nat.mul_lt_mul_of_pos_right n.toNat_lt (Nat.two_pow_pos count)
    have bits := log2_lt_of_lt (by omega) shifted
    unfold grid
    omega

/-! ## Decimals -/

/-- Whether an unpacked number is one that the powers of ten up to the 22nd are among. -/
def isModerate : UnpackedFloat → Bool
  | .finite _ mantissa exponent _ => mantissa < 2 ^ 53 && -52 ≤ exponent && exponent ≤ 21
  | _ => false

theorem isModerate_powersOfTen :
    ∀ x ∈ Float.exactlyRepresentablePowersOfTen.toList, isModerate x.toModel.unpack = true := by
  decide +kernel

private theorem fits_mul_of_isModerate (left : Fits 13 x)
    (right : isModerate y.toModel.unpack = true) : Fits 971 (x * y) := by
  change Within 971
    (Float.Model.pack (mul Format.binary64 x.toModel.unpack y.toModel.unpack)).unpack
  have power : Within 21 y.toModel.unpack := by
    cases unpacked : y.toModel.unpack with
    | finite sign mantissa exponent positive =>
        rw [unpacked] at right
        simp only [isModerate, Bool.and_eq_true, decide_eq_true_eq] at right
        exact ⟨right.1.1, right.2⟩
    | infinity sign => simp [unpacked, isModerate] at right
    | notANumber => simp [unpacked, isModerate] at right
    | zero sign => trivial
  exact within_unpack_pack ((within_mul left power).mono (by decide)) (by decide) (by decide)

private theorem fits_div_of_isModerate (left : Fits 13 x)
    (right : isModerate y.toModel.unpack = true) : Fits 971 (x / y) := by
  change Within 971 (Float.Model.pack
    (UnpackedFloat.div Format.binary64 x.toModel.unpack y.toModel.unpack)).unpack
  refine within_unpack_pack ?_ (by decide) (by decide)
  cases divisor : y.toModel.unpack with
  | infinity sign => simp [divisor, isModerate] at right
  | notANumber => simp [divisor, isModerate] at right
  | zero sign => simp [divisor, isModerate] at right
  | finite sign mantissa exponent positive =>
      rw [divisor] at right
      simp only [isModerate, Bool.and_eq_true, decide_eq_true_eq] at right
      exact (Within.div left sign exponent positive).mono (by omega)

/-- The half way mark from the largest number of 53 bits to the next power of two. -/
def halfWayAt (exponent : Nat) : Nat := (2 ^ 54 - 1) * 2 ^ exponent

theorem halfWayAt_lt (exponent : Nat) : halfWayAt exponent < 2 ^ (54 + exponent) := by
  rw [halfWayAt, Nat.pow_add]
  exact Nat.mul_lt_mul_of_pos_right (by decide) (Nat.two_pow_pos exponent)

theorem halfWayAt_pos (exponent : Nat) : 0 < halfWayAt exponent :=
  Nat.mul_pos (by decide) (Nat.two_pow_pos exponent)

theorem two_pow_le_halfWayAt {bits exponent : Nat} (le : bits ≤ 53 + exponent) :
    2 ^ bits ≤ halfWayAt exponent := by
  apply Nat.le_trans (Nat.pow_le_pow_right Nat.two_pos le)
  rw [halfWayAt, Nat.pow_add]
  exact Nat.mul_le_mul_right _ (by decide)

theorem mul_two_pow_lt_halfWayAt {mantissa count exponent : Nat} (bits : mantissa < 2 ^ 53)
    (le : count ≤ exponent + 1) : mantissa * 2 ^ count < halfWayAt exponent := by
  apply Nat.lt_of_le_of_lt (Nat.mul_le_mul_left _ (Nat.pow_le_pow_right Nat.two_pos le))
  rw [halfWayAt, Nat.pow_succ, Nat.mul_comm (2 ^ exponent), ← Nat.mul_assoc]
  exact Nat.mul_lt_mul_of_pos_right (by omega) (Nat.two_pow_pos exponent)

theorem two_mul_two_pow_le_halfWayAt {count exponent : Nat} (lt : count < exponent) :
    2 * (2 ^ 54 - 1) * 2 ^ count ≤ halfWayAt exponent := by
  rw [halfWayAt, Nat.mul_comm 2, Nat.mul_assoc, ← Nat.pow_succ']
  exact Nat.mul_le_mul_left _ (Nat.pow_le_pow_right Nat.two_pos lt)

/-- The half way mark beyond the largest double. -/
def halfWay : Nat := halfWayAt 970

private theorem log2_mul_two_pow {n : Nat} (positive : 0 < n) (count : Nat) :
    (n * 2 ^ count).log2 = n.log2 + count := by
  induction count with
  | zero => simp
  | succ count ih =>
      have nonzero : n * 2 ^ count ≠ 0 :=
        Nat.mul_ne_zero (Nat.ne_of_gt positive) (Nat.ne_of_gt (Nat.two_pow_pos count))
      rw [Nat.pow_succ, ← Nat.mul_assoc, Nat.mul_comm, Nat.log2_two_mul nonzero, ih, Nat.add_assoc]

/-- A whole number below the half way mark to a power of two rounds to less than that power. -/
theorem within_round_whole {n exponent : Nat} (positive : 0 < n) (below : n < halfWayAt exponent) :
    Within (exponent + 1)
      (roundWithAccuracy Format.binary64 .positive (n * 2 ^ 53) (-53) .exact) := by
  have bits : n.log2 < 54 + exponent :=
    (Nat.log2_lt (Nat.ne_of_gt positive)).mpr (Nat.lt_trans below (halfWayAt_lt exponent))
  have reached : grid (n * 2 ^ 53) (-53) = n.log2 - 52 := by
    unfold grid
    rw [log2_mul_two_pow positive]
    omega
  by_cases top : n.log2 = exponent + 53
  · -- Only here can rounding up leave the range, and the number is too small for that.
    have kept : n * 2 ^ 53 / 2 ^ (exponent + 53) < 2 ^ 54 - 1 := by
      apply Nat.div_lt_of_lt_mul
      calc n * 2 ^ 53 < halfWayAt exponent * 2 ^ 53 := Nat.mul_lt_mul_of_pos_right below (by decide)
        _ = 2 ^ (exponent + 53) * (2 ^ 54 - 1) := by
            rw [halfWayAt, Nat.mul_assoc, ← Nat.pow_add, Nat.mul_comm]
    refine (within_roundWithAccuracy_of_lt .positive .exact ?_ kept).mono ?_
    · rw [reached, top]
      omega
    · rw [reached, top]
      omega
  · refine (within_roundWithAccuracy .positive (n * 2 ^ 53) (-53) .exact).mono ?_
    omega

/-- The nearest double of a whole number below the half way mark beyond the largest double is
finite. -/
theorem fits_ofScientific_whole {n : Nat} (below : n < halfWay) :
    Fits 971 (Float.ofScientific n false 0) := by
  unfold Float.ofScientific
  split
  · exact fits_mul_of_isModerate (fits_toFloat _) (isModerate_powersOfTen _ (by simp))
  · change Within 971
      (Float.Model.pack (UnpackedFloat.ofScientific Format.binary64 n (Int.ofNat 0))).unpack
    refine within_unpack_pack ?_ (by decide) (by decide)
    unfold UnpackedFloat.ofScientific
    split
    · trivial
    · next nonzero =>
        have scaled : n <<< Format.binary64.mantissaBits * 10 ^ (Int.ofNat 0).toNat = n * 2 ^ 53 := by
          rw [Nat.shiftLeft_eq]
          exact Nat.mul_one _
        rw [if_neg (by decide), if_neg (by simp), if_pos (by decide)]
        simp only [UnpackedFloat.mul, scaled]
        exact within_round_whole (Nat.pos_of_ne_zero nonzero) below

theorem fits_ofScientific_fraction {n places : Nat} (some : 0 < places)
    (below : n < 10 ^ places * 2 ^ 64) : Fits 971 (Float.ofScientific n true places) := by
  unfold Float.ofScientific
  split
  · exact fits_div_of_isModerate (fits_toFloat _) (isModerate_powersOfTen _ (by simp))
  · change Within 971
      (Float.Model.pack (UnpackedFloat.ofScientific Format.binary64 n (Int.negOfNat places))).unpack
    refine within_unpack_pack ?_ (by decide) (by decide)
    have minus : Int.negOfNat places = -(places : Int) := Int.negOfNat_eq
    have negative : ¬ 0 ≤ Int.negOfNat places := by omega
    have bounded : ¬ Int.negOfNat places > 2 ^ Format.binary64.exponentBits := by
      have : (0 : Int) < 2 ^ Format.binary64.exponentBits := by decide
      omega
    have size : (-Int.negOfNat places).toNat = places := by omega
    unfold UnpackedFloat.ofScientific
    by_cases zero : n = 0
    · rw [dif_pos zero]
      trivial
    · rw [dif_neg zero, if_neg bounded, if_neg negative]
      split
      · trivial
      · have small : n < 10 ^ (-Int.negOfNat places).toNat * 2 ^ 64 := by
          rw [size]
          exact below
        exact (within_div .positive .positive 0 0 _ _ small).mono (by decide)

/-! ## Status and equality -/

theorem isInf_of_fits (fits : Fits limit x) : x.isInf = false := by
  change x.toModel.unpack.isInf = false
  unfold Fits at fits
  cases unpacked : x.toModel.unpack with
  | infinity sign => rw [unpacked] at fits; exact fits.elim
  | notANumber => rfl
  | zero sign => rfl
  | finite sign mantissa exponent positive => rfl

theorem Within.neg {u : UnpackedFloat} (within : Within limit u) : Within limit u.neg := by
  cases u <;> exact within

theorem fits_neg (fits : Fits limit x) (low : -1074 ≤ limit) (high : limit ≤ 971) :
    Fits limit (-x) :=
  within_unpack_pack (Within.neg fits) low high

/-- A difference is the sum with the other sign. -/
theorem sub_eq_add (x y : UnpackedFloat) :
    UnpackedFloat.sub Format.binary64 x y = UnpackedFloat.add Format.binary64 x y.neg := by
  cases x with
  | finite sign mantissa exponent positive =>
      cases y with
      | finite sign' mantissa' exponent' positive' =>
          have mirrored : ∀ m : Int, (-sign').apply m = -sign'.apply m := by
            intro m
            cases sign' <;> simp [Sign.apply]
          change normalize _ (_ - _) _ _ = normalize _ (_ + _) _ _
          rw [mirrored, Int.sub_eq_add_neg]
      | _ => rfl
  | _ => cases y <;> rfl

theorem compare_eq_eq {x y : UnpackedFloat} :
    x.compare y = some .eq ↔
      (∃ sign sign', x = .zero sign ∧ y = .zero sign') ∨ x = y ∧ x ≠ .notANumber := by
  cases x with
  | notANumber => cases y <;> simp [UnpackedFloat.compare]
  | infinity sign =>
      cases y with
      | infinity sign' => cases sign <;> cases sign' <;> simp [UnpackedFloat.compare, compare]
      | _ => cases sign <;> simp [UnpackedFloat.compare]
  | zero sign =>
      cases y with
      | infinity sign' => cases sign' <;> simp [UnpackedFloat.compare]
      | finite sign' mantissa exponent positive => cases sign' <;> simp [UnpackedFloat.compare]
      | _ => simp [UnpackedFloat.compare]
  | finite sign mantissa exponent positive =>
      cases y with
      | infinity sign' => cases sign <;> cases sign' <;> simp [UnpackedFloat.compare]
      | notANumber => simp [UnpackedFloat.compare]
      | zero sign' => cases sign <;> simp [UnpackedFloat.compare]
      | finite sign' mantissa' exponent' positive' =>
          cases sign <;> cases sign' <;>
            simp [UnpackedFloat.compare, Ordering.then_eq_eq, and_comm]

theorem beq_iff :
    (x == y) = true ↔
      (∃ sign sign', x.toModel.unpack = .zero sign ∧ y.toModel.unpack = .zero sign') ∨
        x.toModel.unpack = y.toModel.unpack ∧ x.toModel.unpack ≠ .notANumber := by
  rw [← compare_eq_eq]
  change (x.toModel.unpack.compare y.toModel.unpack == some .eq) = true ↔ _
  exact beq_iff_eq

theorem beq_self_of_fits (fits : Fits limit x) : (x == x) = true := by
  refine beq_iff.mpr (.inr ⟨rfl, ?_⟩)
  intro unpacked
  rw [Fits, unpacked] at fits
  exact fits

theorem beq_trans {z : Float} (first : (x == y) = true) (second : (y == z) = true) :
    (x == z) = true := by
  rcases beq_iff.mp first with ⟨sign, sign', left, middle⟩ | ⟨same, number⟩
  · rcases beq_iff.mp second with ⟨_, sign, _, right⟩ | ⟨same, _⟩
    · exact beq_iff.mpr (.inl ⟨_, _, left, right⟩)
    · exact beq_iff.mpr (.inl ⟨_, _, left, same ▸ middle⟩)
  · rcases beq_iff.mp second with ⟨_, _, middle, right⟩ | ⟨equal, _⟩
    · exact beq_iff.mpr (.inl ⟨_, _, same.trans middle, right⟩)
    · exact beq_iff.mpr (.inr ⟨same.trans equal, number⟩)

end Kerf.Doubles
