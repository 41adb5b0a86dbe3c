import Kerf.Geometry.Vec
import Kerf.Proofs.Doubles

/-!
# How large results can get

Bounds on the exponents of sums, products, quotients and square roots. They are generous, but numbers
of moderate size stay far from overflowing through any number of steps that is known in advance.
-/

set_option autoImplicit false

namespace Kerf.Doubles

open Float.Model
open Float.Model.UnpackedFloat

variable {limit other : Int} {x y : Float}

theorem Fits.mono {wider : Int} (fits : Fits limit x) (le : limit ≤ wider) : Fits wider x :=
  Within.mono fits le

/-! ## Sums -/

private theorem log2_shiftLeft_lt {mantissa bits : Nat} (small : mantissa < 2 ^ bits)
    (positive : 0 < bits) (count : Nat) : (mantissa <<< count).log2 < bits + count := by
  apply log2_lt_of_lt (by omega)
  rw [Nat.shiftLeft_eq, Nat.pow_add]
  exact Nat.mul_lt_mul_of_pos_right small (Nat.two_pow_pos count)

theorem within_round (sign : Sign) {mantissa bits : Nat} {exponent : Int}
    (small : mantissa < 2 ^ (bits + 1)) (low : -1074 ≤ limit) (exponents : exponent ≤ limit)
    (total : bits + exponent ≤ limit + 52) :
    Within (limit + 1) (UnpackedFloat.round Format.binary64 sign mantissa exponent) := by
  unfold UnpackedFloat.round decreaseExponent
  dsimp only
  refine (within_roundWithAccuracy _ _ _ _).mono ?_
  generalize (exponent - Format.binary64.targetExponent (totalExponent mantissa exponent)).toNat = count
  have log := log2_shiftLeft_lt small (Nat.succ_pos bits) count
  unfold grid
  omega

private theorem within_normalize {mantissa : Int} {bits : Nat} {exponent : Int} (zero : Sign)
    (small : mantissa.natAbs < 2 ^ (bits + 1)) (low : -1074 ≤ limit) (exponents : exponent ≤ limit)
    (total : bits + exponent ≤ limit + 52) :
    Within (limit + 1) (UnpackedFloat.normalize Format.binary64 mantissa exponent zero) := by
  unfold UnpackedFloat.normalize
  split
  · next negative =>
      have below := Int.compare_eq_lt.mp negative
      exact within_round _ (by omega) low exponents total
  · trivial
  · next positive =>
      have above := Int.compare_eq_gt.mp positive
      exact within_round _ (by omega) low exponents total

theorem natAbs_apply (sign : Sign) (mantissa : Nat) :
    (sign.apply (mantissa : Int)).natAbs = mantissa := by
  cases sign <;> simp [Sign.apply]

/-- Two numbers that are brought to one exponent and added or subtracted. -/
theorem within_aligned {mantissa mantissa' : Nat} {exponent exponent' : Int} {sum : Int}
    (small : mantissa < 2 ^ 53) (small' : mantissa' < 2 ^ 53) (low : -1074 ≤ limit)
    (le : exponent ≤ limit) (le' : exponent' ≤ limit)
    (bounded : sum.natAbs ≤
      (decreaseExponent mantissa exponent (min exponent exponent')).1 +
        (decreaseExponent mantissa' exponent' (min exponent exponent')).1) :
    Within (limit + 2)
      (UnpackedFloat.normalize Format.binary64 sum (min exponent exponent') .positive) := by
  unfold decreaseExponent at bounded
  dsimp only at bounded
  rw [Nat.shiftLeft_eq, Nat.shiftLeft_eq] at bounded
  generalize gap : (max exponent exponent' - min exponent exponent').toNat = count
  have power : 2 ^ (exponent - min exponent exponent').toNat ≤ 2 ^ count :=
    Nat.pow_le_pow_right Nat.two_pos (by omega)
  have power' : 2 ^ (exponent' - min exponent exponent').toNat ≤ 2 ^ count :=
    Nat.pow_le_pow_right Nat.two_pos (by omega)
  have left := Nat.mul_le_mul (Nat.le_sub_one_of_lt small) power
  have right := Nat.mul_le_mul (Nat.le_sub_one_of_lt small') power'
  have total : sum.natAbs < 2 ^ (53 + count + 1) := by
    have double : 2 ^ (53 + count + 1) = 2 ^ 54 * 2 ^ count := by
      rw [← Nat.pow_add]
      congr 1
      omega
    have := Nat.two_pow_pos count
    omega
  have rounded : Within (limit + 1 + 1)
      (UnpackedFloat.normalize Format.binary64 sum (min exponent exponent') .positive) :=
    within_normalize .positive total (by omega) (by omega) (by omega)
  exact rounded.mono (by omega)

theorem within_add {u v : UnpackedFloat} (left : Within limit u) (right : Within limit v)
    (low : -1074 ≤ limit) : Within (limit + 2) (UnpackedFloat.add Format.binary64 u v) := by
  cases u with
  | infinity sign => exact left.elim
  | notANumber => exact left.elim
  | zero sign =>
      cases v with
      | infinity sign => exact right.elim
      | notANumber => exact right.elim
      | zero sign' =>
          change Within _ (if _ then UnpackedFloat.zero _ else .zero _)
          split <;> trivial
      | finite sign' mantissa' exponent' positive' => exact right.mono (by omega)
  | finite sign mantissa exponent positive =>
      cases v with
      | infinity sign => exact right.elim
      | notANumber => exact right.elim
      | zero sign' => exact left.mono (by omega)
      | finite sign' mantissa' exponent' positive' =>
          refine within_aligned left.1 right.1 low left.2 right.2 ?_
          refine Nat.le_trans (Int.natAbs_add_le _ _) ?_
          rw [natAbs_apply, natAbs_apply]
          exact Nat.le_refl _

theorem fits_add (left : Fits limit x) (right : Fits limit y) (low : -1074 ≤ limit)
    (high : limit ≤ 969) : Fits (limit + 2) (x + y) :=
  within_unpack_pack (within_add left right low) (by omega) (by omega)

theorem fits_sub (left : Fits limit x) (right : Fits limit y) (low : -1074 ≤ limit)
    (high : limit ≤ 969) : Fits (limit + 2) (x - y) := by
  refine within_unpack_pack ?_ (by omega) (by omega)
  rw [sub_eq_add]
  exact within_add left (Within.neg right) low

/-! ## Products and quotients -/

theorem fits_mul (left : Fits limit x) (right : Fits other y) (low : -1074 ≤ limit + other + 53)
    (high : limit + other + 54 ≤ 971) : Fits (limit + other + 54) (x * y) := by
  change Within _ (Float.Model.pack
    (UnpackedFloat.mul Format.binary64 x.toModel.unpack y.toModel.unpack)).unpack
  exact within_unpack_pack ((within_mul left right).mono (by omega)) (by omega) high

/-- Whether a number is large enough to divide by. -/
def Long (y : Float) : Prop :=
  ∃ sign mantissa exponent positive,
    y.toModel.unpack = .finite sign mantissa exponent positive ∧ -82 ≤ exponent

theorem long_of_not_lt (fits : Fits limit y) (long : ¬ y < shortLength) : Long y := by
  have short : shortLength.toModel.unpack = .finite .positive 4835703278458517 (-82) (by decide) := rfl
  have compared : y.toModel.unpack.lt shortLength.toModel.unpack ≠ true :=
    fun less => long (decide_eq_true_iff.mpr less)
  rw [short] at compared
  unfold Fits at fits
  cases unpacked : y.toModel.unpack with
  | infinity sign => rw [unpacked] at fits; exact fits.elim
  | notANumber => rw [unpacked] at fits; exact fits.elim
  | zero sign => rw [unpacked] at compared; exact absurd rfl compared
  | finite sign mantissa exponent positive =>
      rw [unpacked] at compared
      cases sign with
      | negative => exact absurd rfl compared
      | positive =>
          refine ⟨.positive, mantissa, exponent, positive, unpacked, ?_⟩
          by_contra below
          apply compared
          have less : compare exponent (-82) = .lt := Int.compare_eq_lt.mpr (by omega)
          simp [UnpackedFloat.lt, UnpackedFloat.compare, less]

theorem fits_div (left : Fits limit x) (right : Long y) (low : -1074 ≤ limit)
    (high : limit + 136 ≤ 971) : Fits (limit + 136) (x / y) := by
  change Within _ (Float.Model.pack
    (UnpackedFloat.div Format.binary64 x.toModel.unpack y.toModel.unpack)).unpack
  refine within_unpack_pack ?_ (by omega) high
  obtain ⟨sign, mantissa, exponent, positive, unpacked, large⟩ := right
  rw [unpacked]
  exact (Within.div left sign exponent positive).mono (by omega)

/-! ## Square roots -/

def Nonnegative : UnpackedFloat → Prop
  | .finite sign _ _ _ => sign = .positive
  | _ => True

theorem nonnegative_unpack (exponent : BitVec 11) (mantissa : BitVec 52) :
    Nonnegative
      (unpack Format.binary64 (packComponents Format.binary64 .positive exponent mantissa)) := by
  have sign : Sign.ofBitVec (unpackSign (packComponents Format.binary64 .positive exponent mantissa)) =
      .positive := by
    rw [unpackSign_packComponents]
    rfl
  unfold UnpackedFloat.unpack
  simp only [sign]
  split
  · split <;> trivial
  · split
    · split
      · trivial
      · rfl
    · rfl

theorem nonnegative_unpack_pack {u : UnpackedFloat} (nonnegative : Nonnegative u) :
    Nonnegative (Float.Model.pack u).unpack := by
  change Nonnegative (unpack Format.binary64 (UnpackedFloat.pack Format.binary64 u))
  cases u with
  | notANumber => exact nonnegative_unpack _ _
  | infinity sign => cases sign <;> trivial
  | zero sign => cases sign <;> trivial
  | finite sign mantissa exponent positive =>
      cases nonnegative
      unfold UnpackedFloat.pack
      dsimp only
      split
      · exact nonnegative_unpack _ _
      · split
        · exact nonnegative_unpack _ _
        · exact nonnegative_unpack _ _

theorem nonnegative_roundWithAccuracy (mantissa : Nat) (exponent : Int) (accuracy : Accuracy) :
    Nonnegative (roundWithAccuracy Format.binary64 .positive mantissa exponent accuracy) := by
  unfold roundWithAccuracy
  dsimp only
  split
  · trivial
  · rfl

theorem nonnegative_mul_self (x : Float) : Nonnegative (x * x).toModel.unpack := by
  change Nonnegative (Float.Model.pack
    (UnpackedFloat.mul Format.binary64 x.toModel.unpack x.toModel.unpack)).unpack
  apply nonnegative_unpack_pack
  generalize x.toModel.unpack = a
  cases a with
  | infinity sign => trivial
  | notANumber => trivial
  | zero sign => trivial
  | finite sign mantissa exponent positive =>
      cases sign <;> exact nonnegative_roundWithAccuracy _ _ _

theorem nonnegative_add (left : Nonnegative x.toModel.unpack) (right : Nonnegative y.toModel.unpack) :
    Nonnegative (x + y).toModel.unpack := by
  change Nonnegative (Float.Model.pack
    (UnpackedFloat.add Format.binary64 x.toModel.unpack y.toModel.unpack)).unpack
  apply nonnegative_unpack_pack
  generalize x.toModel.unpack = a at left
  generalize y.toModel.unpack = b at right
  cases a with
  | notANumber => trivial
  | infinity sign =>
      cases b with
      | infinity sign' =>
          change Nonnegative (if _ then UnpackedFloat.infinity _ else .notANumber)
          split <;> trivial
      | _ => trivial
  | zero sign =>
      cases b with
      | zero sign' =>
          change Nonnegative (if _ then UnpackedFloat.zero _ else .zero _)
          split <;> trivial
      | finite sign' mantissa' exponent' positive' => exact right
      | _ => trivial
  | finite sign mantissa exponent positive =>
      cases b with
      | finite sign' mantissa' exponent' positive' =>
          cases left
          cases right
          change Nonnegative (UnpackedFloat.normalize Format.binary64 (_ + _) _ .positive)
          unfold UnpackedFloat.normalize
          split
          · next negative =>
              have below := Int.compare_eq_lt.mp negative
              have sum := Int.add_nonneg (Int.natCast_nonneg (decreaseExponent mantissa exponent
                (min exponent exponent')).1) (Int.natCast_nonneg (decreaseExponent mantissa' exponent'
                (min exponent exponent')).1)
              exact absurd below (Int.not_lt.mpr sum)
          · trivial
          · exact nonnegative_roundWithAccuracy _ _ _
      | zero sign' => exact left
      | _ => trivial

private theorem sqrt_lt_two_pow {n bits : Nat} (small : n < 2 ^ (2 * bits)) :
    Nat.sqrt n < 2 ^ bits := by
  rw [Nat.sqrt_lt', ← Nat.pow_mul, Nat.mul_comm]
  exact small

private theorem fits_sqrt (fits : Fits limit x) (nonnegative : Nonnegative x.toModel.unpack)
    (low : 0 ≤ limit) (high : limit + 1 ≤ 971) : Fits (limit + 1) x.sqrt := by
  change Within _ (Float.Model.pack (UnpackedFloat.sqrt Format.binary64 x.toModel.unpack)).unpack
  refine within_unpack_pack ?_ (by omega) high
  unfold Fits at fits
  generalize x.toModel.unpack = a at fits nonnegative
  cases a with
  | infinity sign => exact fits.elim
  | notANumber => exact fits.elim
  | zero sign => trivial
  | finite sign mantissa exponent positive =>
      cases nonnegative
      unfold UnpackedFloat.sqrt sqrtCore
      dsimp only
      refine (within_roundWithAccuracy _ _ _ _).mono ?_
      generalize bound : min (exponent.ediv 2) _ = target
      have halved : target ≤ exponent / 2 := by
        rw [← bound]
        exact min_le_left _ _
      generalize shift : (exponent - 2 * target).toNat = count
      have shifted : mantissa <<< count < 2 ^ (2 * ((54 + count) / 2)) := by
        rw [Nat.shiftLeft_eq]
        refine Nat.lt_of_lt_of_le (Nat.mul_lt_mul_of_pos_right fits.1 (Nat.two_pow_pos count)) ?_
        rw [← Nat.pow_add]
        exact Nat.pow_le_pow_right Nat.two_pos (by omega)
      have log := log2_lt_of_lt (by omega) (sqrt_lt_two_pow shifted)
      have := fits.2
      unfold grid
      omega

/-! ## Absolute values -/

private theorem unpack_pack_unpack (bits : BitVec Format.binary64.numBits) :
    UnpackedFloat.unpack Format.binary64
        (UnpackedFloat.pack Format.binary64 (UnpackedFloat.unpack Format.binary64 bits)) =
      UnpackedFloat.unpack Format.binary64 bits := by
  rw [pack_unpack]
  split
  · next nan =>
      simp only [isNaNBits, Bool.decide_and, Bool.and_eq_true, decide_eq_true_eq] at nan
      rw [unpack_packedNaN]
      unfold UnpackedFloat.unpack
      dsimp only
      rw [if_pos nan.1, if_neg nan.2]
  · rfl

private theorem abs_unpack (bits : BitVec Format.binary64.numBits) :
    (UnpackedFloat.unpack Format.binary64 bits).abs =
      UnpackedFloat.unpack Format.binary64
        (packComponents Format.binary64 .positive (unpackExponent bits) (unpackMantissa bits)) := by
  unfold UnpackedFloat.unpack
  simp only [unpackExponent_packComponents, unpackMantissa_packComponents, unpackSign_packComponents]
  split
  · split <;> rfl
  · split
    · split <;> rfl
    · rfl

theorem unpack_abs (x : Float) : x.abs.toModel.unpack = x.toModel.unpack.abs := by
  change UnpackedFloat.unpack Format.binary64 (UnpackedFloat.pack Format.binary64
    (UnpackedFloat.unpack Format.binary64 x.toModel.toBits.toBitVec).abs) =
      (UnpackedFloat.unpack Format.binary64 x.toModel.toBits.toBitVec).abs
  rw [abs_unpack, unpack_pack_unpack]

theorem fits_abs (fits : Fits limit x) : Fits limit x.abs := by
  unfold Fits at fits ⊢
  rw [unpack_abs]
  generalize x.toModel.unpack = a at fits
  cases a with
  | infinity sign => exact fits.elim
  | notANumber => exact fits.elim
  | zero sign => trivial
  | finite sign mantissa exponent positive => exact fits

theorem long_of_not_abs_lt (fits : Fits limit y) (long : ¬ y.abs < shortLength) : Long y := by
  obtain ⟨sign, mantissa, exponent, positive, unpacked, large⟩ := long_of_not_lt (fits_abs fits) long
  rw [unpack_abs] at unpacked
  cases shape : y.toModel.unpack with
  | finite own mantissa' exponent' positive' =>
      rw [shape] at unpacked
      cases unpacked
      exact ⟨own, mantissa, exponent, positive, shape, large⟩
  | _ =>
      rw [shape] at unpacked
      cases unpacked

theorem lt_infinity_of_fits (fits : Fits limit x) : x < Scalar.infinity := by
  have top : Scalar.infinity.toModel.unpack = .infinity .positive := rfl
  apply decide_eq_true_iff.mpr
  change x.toModel.unpack.lt Scalar.infinity.toModel.unpack = true
  rw [top]
  unfold Fits at fits
  generalize x.toModel.unpack = a at fits
  cases a with
  | infinity sign => exact fits.elim
  | notANumber => exact fits.elim
  | zero sign => rfl
  | finite sign mantissa exponent positive => cases sign <;> rfl

/-! ## Extrema -/

theorem beq_infinity_of_fits (fits : Fits limit x) : (x == Scalar.infinity) = false := by
  have top : Scalar.infinity.toModel.unpack = .infinity .positive := rfl
  rw [Bool.eq_false_iff, ne_eq, beq_iff, top]
  rintro (⟨_, _, _, impossible⟩ | ⟨same, _⟩)
  · cases impossible
  · rw [Fits, same] at fits
    exact fits

theorem beq_neg_infinity_of_fits (fits : Fits limit x) : (x == -Scalar.infinity) = false := by
  have bottom : (-Scalar.infinity).toModel.unpack = .infinity .negative := rfl
  rw [Bool.eq_false_iff, ne_eq, beq_iff, bottom]
  rintro (⟨_, _, _, impossible⟩ | ⟨same, _⟩)
  · cases impossible
  · rw [Fits, same] at fits
    exact fits

theorem isNaN_of_fits (fits : Fits limit x) : x.isNaN = false := by
  change x.toModel.unpack.isNaN = false
  unfold Fits at fits
  generalize x.toModel.unpack = a at fits
  cases a with
  | notANumber => exact fits.elim
  | _ => rfl

/-- The larger of two finite numbers is one of them. -/
theorem max_eq_of_fits (left : Fits limit x) (right : Fits other y) :
    Scalar.max x y = x ∨ Scalar.max x y = y := by
  unfold Scalar.max
  rw [beq_infinity_of_fits left, beq_infinity_of_fits right, isNaN_of_fits left, isNaN_of_fits right]
  simp only [Bool.or_false, Bool.false_eq_true, ↓reduceIte]
  split
  · split
    · exact .inr rfl
    · exact .inl rfl
  · split
    · exact .inl rfl
    · exact .inr rfl

theorem fits_max (left : Fits limit x) (right : Fits limit y) : Fits limit (Scalar.max x y) := by
  rcases max_eq_of_fits left right with same | same
  · rwa [same]
  · rwa [same]

private theorem min_eq_of_fits (left : Fits limit x) (right : Fits other y) :
    Scalar.min x y = x ∨ Scalar.min x y = y := by
  unfold Scalar.min
  rw [beq_neg_infinity_of_fits left, beq_neg_infinity_of_fits right, isNaN_of_fits left,
    isNaN_of_fits right]
  simp only [Bool.or_false, Bool.false_eq_true, ↓reduceIte]
  split
  · split
    · exact .inl rfl
    · exact .inr rfl
  · split
    · exact .inl rfl
    · exact .inr rfl

theorem fits_min (left : Fits limit x) (right : Fits limit y) : Fits limit (Scalar.min x y) := by
  rcases min_eq_of_fits left right with same | same
  · rwa [same]
  · rwa [same]

end Kerf.Doubles

/-! ## Vectors -/

namespace Kerf.Vec

open Kerf.Doubles

/-- Whether all components of a vector are finite with exponents up to a limit. -/
structure Within (limit : Int) (v : Vec) : Prop where
  x : Fits limit v.x
  y : Fits limit v.y
  z : Fits limit v.z

variable {limit other : Int} {v w : Vec} {factor : Float}

theorem Within.mono {wider : Int} (within : v.Within limit) (le : limit ≤ wider) : v.Within wider :=
  ⟨within.x.mono le, within.y.mono le, within.z.mono le⟩

theorem Within.of_mem_components (within : v.Within limit) {x : Float}
    (member : x ∈ v.components) : Fits limit x := by
  simp only [components, List.mem_cons, List.not_mem_nil, or_false] at member
  rcases member with rfl | rfl | rfl
  · exact within.x
  · exact within.y
  · exact within.z

theorem within_add (left : v.Within limit) (right : w.Within limit) (low : -1074 ≤ limit)
    (high : limit ≤ 969) : (v + w).Within (limit + 2) :=
  ⟨fits_add left.x right.x low high, fits_add left.y right.y low high,
    fits_add left.z right.z low high⟩

theorem within_sub (left : v.Within limit) (right : w.Within limit) (low : -1074 ≤ limit)
    (high : limit ≤ 969) : (v - w).Within (limit + 2) :=
  ⟨fits_sub left.x right.x low high, fits_sub left.y right.y low high,
    fits_sub left.z right.z low high⟩

theorem within_scale (left : v.Within limit) (right : Fits other factor)
    (low : -1074 ≤ limit + other + 53) (high : limit + other + 54 ≤ 971) :
    (v.scale factor).Within (limit + other + 54) :=
  ⟨fits_mul left.x right low high, fits_mul left.y right low high, fits_mul left.z right low high⟩

/-- A sum of three numbers, as it is made from products of components. -/
theorem fits_sum {x y z : Float} (first : Fits limit x) (second : Fits limit y) (third : Fits limit z)
    (low : -1074 ≤ limit) (high : limit ≤ 967) : Fits (limit + 4) (x + y + z) := by
  have front := fits_add first second low (by omega)
  exact (fits_add front (third.mono (by omega)) (by omega) (by omega)).mono (by omega)

theorem fits_dot (left : v.Within limit) (right : w.Within other) (low : -1074 ≤ limit + other + 53)
    (high : limit + other + 54 ≤ 967) : Fits (limit + other + 58) (v.dot w) := by
  refine (fits_sum (fits_mul left.x right.x low ?_) (fits_mul left.y right.y low ?_)
    (fits_mul left.z right.z low ?_) ?_ high).mono ?_ <;> omega

private theorem nonnegative_lengthSquared (v : Vec) : Nonnegative v.lengthSquared.toModel.unpack :=
  nonnegative_add (nonnegative_add (nonnegative_mul_self v.x) (nonnegative_mul_self v.y))
    (nonnegative_mul_self v.z)

theorem fits_length (within : v.Within limit) (low : 0 ≤ limit) (high : 2 * limit + 59 ≤ 971) :
    Fits (2 * limit + 59) v.length := by
  have square : Fits (limit + limit + 58) v.lengthSquared :=
    fits_dot within within (by omega) (by omega)
  exact (fits_sqrt square (nonnegative_lengthSquared v) (by omega) (by omega)).mono (by omega)

theorem within_shrink (within : v.Within limit) {divisor : Float} (long : Long divisor)
    (low : -1000 ≤ limit) (high : limit + 138 ≤ 971) : (v.shrink divisor).Within (limit + 138) := by
  have one : Fits (-52) 1 := ⟨by decide, by decide⟩
  have reciprocal := fits_div one long (by omega) (by omega)
  exact (within_scale within reciprocal (by omega) (by omega)).mono (by omega)

theorem within_unit (within : v.Within limit) (low : 0 ≤ limit) (high : 2 * limit + 138 ≤ 971) :
    v.unit.Within (limit + 138) := by
  unfold unit
  dsimp only
  split
  · exact ⟨trivial, trivial, trivial⟩
  · next long =>
      have size := fits_length within low (by omega)
      exact within_shrink within (long_of_not_lt size long) (by omega) (by omega)

end Kerf.Vec
