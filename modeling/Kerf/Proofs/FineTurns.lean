import Kerf.Proofs.RotaryTravel
import Kerf.Proofs.SafeTurns

/-!
# Fine steps of turning

A line along which the tool turns has so many samples that no step turns it further than allowed, but
for rounding. The shares of the segments add up to the whole turn. This fails for a line that is too
short to be divided: the tool then turns in as many steps as the line has segments.
-/

set_option autoImplicit false

namespace Kerf.Route

open Doubles
open Kerf.Scalar
open Kerf.Stock (Form)

/-! ## Counts of steps -/

theorem between_maxTurn : Between 0 1 maxTurn ∧ 1 / 16 ≤ value maxTurn := by decide +kernel

theorem one_le_turnSteps (rotation : Float) : 1 ≤ turnSteps rotation := by
  unfold turnSteps
  dsimp only
  split <;> omega

variable {rotation x whole : Float} {a : Vec}

theorem turnSteps_of_toWord {count : ℕ}
    (counted : (toWord (ceiling (rotation / maxTurn))).toInt = count) :
    turnSteps rotation = max 1 count := by
  unfold turnSteps
  rw [counted]
  dsimp only
  split <;> omega

/-- There are no fewer steps than the rotation needs. -/
theorem le_turnSteps (fits : Fits 971 (rotation / maxTurn))
    (small : value (rotation / maxTurn) < 2 ^ 52) :
    value (rotation / maxTurn) ≤ turnSteps rotation := by
  rcases le_or_gt (value (rotation / maxTurn)) 0 with none | positive
  · exact none.trans (by positivity)
  · obtain ⟨finite, whole⟩ := ceiling_spec fits positive small
    have few : ⌈value (rotation / maxTurn)⌉ ≤ 2 ^ 52 := Int.ceil_le.mpr (by exact_mod_cast small.le)
    have some : 0 ≤ ⌈value (rotation / maxTurn)⌉ := Int.ceil_nonneg positive.le
    obtain ⟨count, same⟩ := Int.eq_ofNat_of_zero_le some
    rw [same] at whole few
    have counted := toWord_spec finite (by exact_mod_cast whole) (by omega)
    rw [turnSteps_of_toWord counted]
    have enough := Int.le_ceil (value (rotation / maxTurn))
    rw [same] at enough
    exact enough.trans (by exact_mod_cast le_max_right 1 count)

private theorem truncate_of_infinite (infinite : ¬ Fits 971 x) : truncate x = x := by
  unfold truncate
  rw [if_neg]
  intro less
  have lowest := unpack_of_ge wholeLimit_spec.1 (le_of_less less) fun fits =>
    infinite (fits_of_abs fits)
  rw [unpack_abs] at lowest
  generalize x.toModel.unpack = u at lowest
  cases u <;> cases lowest

private theorem toWord_of_infinite (infinite : ¬ Fits 971 x) : toWord x = Int64.minValue := by
  unfold toWord
  rw [if_neg]
  intro within
  obtain ⟨above, below⟩ := Bool.and_eq_true_iff.mp within
  have highest := unpack_of_le wordLimits.1.1 (of_decide_eq_true above) infinite
  have lowest := unpack_of_ge wordLimits.2.1 (le_of_less (of_decide_eq_true below)) infinite
  rw [highest] at lowest
  cases lowest

/-- What is no finite number is no reason for a second step. -/
theorem turnSteps_of_infinite (infinite : ¬ Fits 971 rotation) : turnSteps rotation = 1 := by
  have quotient : ¬ Fits 971 (rotation / maxTurn) := fun fits => infinite (fits_of_div fits)
  have whole : ceiling (rotation / maxTurn) = rotation / maxTurn := by
    unfold ceiling
    rw [truncate_of_infinite quotient]
    exact if_neg (not_less_self _)
  unfold turnSteps
  rw [whole, toWord_of_infinite quotient]
  rfl

private theorem turnSteps_of_zero (fits : Fits 971 rotation) (none : value rotation = 0) :
    turnSteps rotation = 1 := by
  have step : value maxTurn ≠ 0 := (lt_of_lt_of_le (by norm_num) between_maxTurn.2).ne'
  have quotient : Between (-0) 0 (rotation / maxTurn) :=
    between_of_spec (value_div fits between_maxTurn.1.fits step) (by rw [none]; norm_num)
      (by rw [none]; norm_num) (by norm_num) (by norm_num)
  have whole := between_truncate quotient (by norm_num)
  have same : value (truncate (rotation / maxTurn)) = 0 :=
    le_antisymm (by exact_mod_cast whole.high) (by simpa using whole.low)
  have even : ¬ truncate (rotation / maxTurn) < rotation / maxTurn := by
    rw [lt_iff whole.fits quotient.fits, same, not_lt]
    exact_mod_cast quotient.high
  have counted : (toWord (ceiling (rotation / maxTurn))).toInt = (0 : ℕ) := by
    unfold ceiling
    dsimp only
    rw [if_neg even]
    exact toWord_spec whole.fits (by rw [same]; norm_num) (by norm_num)
  rw [turnSteps_of_toWord counted]
  rfl

/-- A result that is not tiny keeps its share when it is rounded. -/
theorem share_of_spec {z : Float} {x : ℚ} (high : ℤ)
    (spec : |x| ≤ 2 ^ 1023 → Fits 971 z ∧ Rounds x (value z)) (above : 2 ^ (-40 : ℤ) ≤ x)
    (below : x ≤ high) (top : high ≤ 2 ^ 53) : Between 0 high z ∧ leastShare * x ≤ value z := by
  have positive : 0 ≤ x := (zpow_pos (by norm_num : (0 : ℚ) < 2) _).le.trans above
  have between : Between 0 high z :=
    between_of_spec spec (by exact_mod_cast positive) below (by norm_num) top
  have bounded : |x| ≤ 2 ^ 1023 := by
    rw [abs_of_nonneg positive]
    have limit : (high : ℚ) ≤ 2 ^ 53 := by exact_mod_cast top
    exact (below.trans limit).trans (pow_le_pow_right₀ (by norm_num) (by norm_num))
  have normal : (2 : ℚ) ^ (-1022 : ℤ) ≤ 2 ^ (-40 : ℤ) :=
    zpow_le_zpow_right₀ (by norm_num) (by norm_num)
  exact ⟨between, (spec bounded).2.share (normal.trans above)⟩

/-- The steps of a segment cover its share of the turn but for three roundings. -/
theorem share_le_turnSteps {turn low high : Float} (turns : Between 0 (2 ^ 34) turn)
    (start : Between 0 1 low) (stop : Between 0 1 high) :
    leastShare ^ 3 * ((value high - value low) * (value turn / value maxTurn)) ≤
      turnSteps ((high - low) * turn) := by
  have least : (1 : ℚ) ≤ turnSteps ((high - low) * turn) := by
    exact_mod_cast one_le_turnSteps _
  have half : 1 / 2 ≤ leastShare := by norm_num [leastShare]
  obtain ⟨positive, most⟩ := leastShare_bounds
  obtain ⟨step, wide⟩ := between_maxTurn
  have divisor : 0 < value maxTurn := lt_of_lt_of_le (by norm_num) wide
  have from0 := start.low
  have to1 := stop.high
  have turnAbove := turns.low
  have turnBelow := turns.high
  push_cast at from0 to1 turnAbove turnBelow
  set apart := value high - value low
  rcases le_or_gt (apart * (value turn / value maxTurn)) 1 with small | large
  · refine le_trans ?_ least
    exact (mul_le_mul_of_nonneg_left small (by positivity)).trans
      (by rw [mul_one]; exact pow_le_one₀ positive.le most)
  · -- More than one step: all numbers on the way are large enough to be rounded well.
    have needed : 1 / 16 < apart * value turn := by
      rw [← mul_div_assoc, lt_div_iff₀ divisor, one_mul] at large
      exact lt_of_le_of_lt wide large
    have ahead : 0 < apart := by
      by_contra behind
      have := mul_nonpos_of_nonpos_of_nonneg (not_lt.mp behind) turnAbove
      linarith
    have large' : (2 : ℚ) ^ (-40 : ℤ) ≤ apart := by
      have := mul_le_mul_of_nonneg_left turnBelow ahead.le
      norm_num at this ⊢
      linarith
    obtain ⟨difference, first⟩ := share_of_spec 1 (value_sub stop.fits start.fits) large'
      (by push_cast; linarith) (by norm_num)
    have product : leastShare * (apart * value turn) ≤ value (high - low) * value turn := by
      rw [← mul_assoc]
      exact mul_le_mul_of_nonneg_right first turnAbove
    have some : 1 / 32 ≤ value (high - low) * value turn := by nlinarith
    have few : value (high - low) * value turn ≤ 2 ^ 34 := by
      have := difference.high
      push_cast at this
      nlinarith
    obtain ⟨rotation, second⟩ := share_of_spec (2 ^ 34) (value_mul difference.fits turns.fits)
      (le_trans (by norm_num) some) (by exact_mod_cast few) (by norm_num)
    have quotientLow : 1 / 64 ≤ value ((high - low) * turn) / value maxTurn := by
      rw [le_div_iff₀ divisor]
      have := step.high
      push_cast at this
      nlinarith
    have quotientHigh : value ((high - low) * turn) / value maxTurn ≤ 2 ^ 38 := by
      rw [div_le_iff₀ divisor]
      have := rotation.high
      push_cast at this
      nlinarith
    obtain ⟨quotient, third⟩ := share_of_spec (2 ^ 38)
      (value_div rotation.fits step.fits divisor.ne') (le_trans (by norm_num) quotientLow)
      (by exact_mod_cast quotientHigh) (by norm_num)
    have bounded : value ((high - low) * turn / maxTurn) < 2 ^ 52 :=
      quotient.high.trans_lt (by norm_num)
    calc leastShare ^ 3 * (apart * (value turn / value maxTurn))
        = leastShare * (leastShare * (leastShare * (apart * value turn)) / value maxTurn) := by ring
      _ ≤ leastShare * (leastShare * (value (high - low) * value turn) / value maxTurn) := by gcongr
      _ ≤ leastShare * (value ((high - low) * turn) / value maxTurn) := by gcongr
      _ ≤ value ((high - low) * turn / maxTurn) := third
      _ ≤ turnSteps ((high - low) * turn) := le_turnSteps quotient.fits bounded

/-! ## Shares of a line -/

theorem shortLength_pos : Fits 971 shortLength ∧ 0 < value shortLength := by decide +kernel

section

variable {length whole : Float}

private theorem whole_pos (fits : Fits 971 whole) (long : ¬ whole < shortLength) :
    0 < value whole := by
  rw [lt_iff fits shortLength_pos.1, not_lt] at long
  exact lt_of_lt_of_le shortLength_pos.2 long

/-- The part of a line that a length is lies between nothing and all of it. -/
theorem between_fractionOf {low high : ℤ} (fits : Fits 971 whole) (long : ¬ whole < shortLength)
    (finite : Fits 971 length) (above : low * value whole ≤ value length)
    (below : value length ≤ high * value whole) (bottom : 0 ≤ low) (top : high ≤ 1) :
    Between low high (fractionOf length whole) := by
  have positive := whole_pos fits long
  have quotient : Between low high (length / whole) := by
    refine between_of_spec (value_div finite fits positive.ne') ?_ ?_ (by omega) (by omega)
    · rwa [le_div_iff₀ positive]
    · rwa [div_le_iff₀ positive]
  have small : value (length / whole) ≤ value 1 := by
    have one := between_one.low
    have limit : (high : ℚ) ≤ 1 := by exact_mod_cast top
    push_cast at one
    exact (quotient.high.trans limit).trans one
  unfold fractionOf
  rw [if_neg long]
  have same := value_min quotient.fits between_one.fits
  rw [min_eq_left small] at same
  exact ⟨fits_min quotient.fits between_one.fits, same ▸ quotient.low, same ▸ quotient.high⟩

end

private theorem fractionOf_zero (fits : Fits 971 whole) (long : ¬ whole < shortLength) :
    value (fractionOf 0 whole) = 0 := by
  have start : Between 0 0 (fractionOf 0 whole) :=
    between_fractionOf fits long between_zero.fits (by rw [value_zero]; simp)
      (by rw [value_zero]; simp) (le_refl _) (by norm_num)
  exact le_antisymm (by exact_mod_cast start.high) (by exact_mod_cast start.low)

/-- Adding a length never goes back. -/
theorem value_le_add_length {sum : Float} {v : Vec} (finite : Fits 971 (sum + v.length)) :
    Fits 971 sum ∧ value sum ≤ value (sum + v.length) := by
  have own := (fits_of_add finite).1
  refine ⟨own, (rounds_add finite).ge_of_precise (precise_of_canonical (canonical_of_fits own)) ?_⟩
  exact le_add_of_nonneg_right (value_nonneg (nonnegative_sqrt _))

private theorem value_le_lengthFrom {line : List Vec} {sum : Float}
    (finite : Fits 971 (Polyline.lengthFrom (a :: line) sum)) :
    Fits 971 sum ∧ value sum ≤ value (Polyline.lengthFrom (a :: line) sum) := by
  induction line generalizing a sum with
  | nil => exact ⟨finite, le_refl _⟩
  | cons b rest ih =>
      rw [Polyline.lengthFrom] at finite ⊢
      obtain ⟨next, onward⟩ := ih finite
      obtain ⟨own, ahead⟩ := value_le_add_length next
      exact ⟨own, ahead.trans onward⟩

theorem length_sampleSegment (turn : Float) (a b : Vec) (low high : Float) :
    (sampleSegment turn a b low high).length = turnSteps ((high - low) * turn) := by
  simp [sampleSegment]

/-- The samples of a line cover what is left of the turn, since the shares of its segments add up. -/
theorem share_le_sampleLine {line : List Vec} {turn behind : Float}
    (turns : Between 0 (2 ^ 34) turn) (finite : Fits 971 whole) (long : ¬ whole < shortLength)
    (added : Polyline.lengthFrom (a :: line) behind = whole) (start : 0 ≤ value behind) :
    leastShare ^ 3 * ((1 - value (fractionOf behind whole)) * (value turn / value maxTurn)) ≤
      (sampleLine turn whole behind a line).length := by
  induction line generalizing a behind with
  | nil =>
      have all : behind = whole := added
      subst all
      have full : Between 1 1 (fractionOf behind behind) :=
        between_fractionOf finite long finite (by simp) (by simp) (by norm_num) (le_refl _)
      have one : value (fractionOf behind behind) = 1 :=
        le_antisymm (by exact_mod_cast full.high) (by exact_mod_cast full.low)
      rw [one, sub_self, zero_mul, mul_zero]
      exact Nat.cast_nonneg _
  | cons b rest ih =>
      rw [Polyline.lengthFrom] at added
      obtain ⟨next, onward⟩ := value_le_lengthFrom (added ▸ finite)
      rw [added] at onward
      obtain ⟨here, ahead⟩ := value_le_add_length next
      have part {length : Float} (fits : Fits 971 length) (above : 0 ≤ value length)
          (below : value length ≤ value whole) : Between 0 1 (fractionOf length whole) :=
        between_fractionOf finite long fits (by simpa using above) (by simpa using below) (le_refl _)
          (le_refl _)
      have segment := share_le_turnSteps turns (part here start (ahead.trans onward))
        (part next (start.trans ahead) onward)
      have later := ih added (start.trans ahead)
      rw [sampleLine, List.length_append, length_sampleSegment, Nat.cast_add]
      calc leastShare ^ 3 * ((1 - value (fractionOf behind whole)) * (value turn / value maxTurn))
          = leastShare ^ 3 * ((value (fractionOf (behind + (b - a).length) whole) -
              value (fractionOf behind whole)) * (value turn / value maxTurn)) +
            leastShare ^ 3 * ((1 - value (fractionOf (behind + (b - a).length) whole)) *
              (value turn / value maxTurn)) := by ring
        _ ≤ _ := add_le_add segment later

/-! ## Lines that are not divided -/

/-- Whether a double is zero unless it is no finite number. -/
def Idle (x : Float) : Prop := Fits 971 x → value x = 0

theorem Idle.sub {y : Float} (left : Idle x) (right : Idle y) : Idle (x - y) := by
  intro fits
  obtain ⟨first, second⟩ := fits_of_sub fits
  have difference : Between 0 0 (x - y) :=
    between_of_spec (value_sub first second) (by simp [left first, right second])
      (by simp [left first, right second]) (by norm_num) (by norm_num)
  exact le_antisymm (by exact_mod_cast difference.high) (by exact_mod_cast difference.low)

theorem turnSteps_of_idle {factor : Float} (idle : Idle factor) (turn : Float) :
    turnSteps (factor * turn) = 1 := by
  by_cases fits : Fits 971 (factor * turn)
  · obtain ⟨first, second⟩ := fits_of_mul fits
    have product : Between 0 0 (factor * turn) :=
      between_of_spec (value_mul first second) (by simp [idle first]) (by simp [idle first])
        (by norm_num) (by norm_num)
    refine turnSteps_of_zero fits ?_
    exact le_antisymm (by exact_mod_cast product.high) (by exact_mod_cast product.low)
  · exact turnSteps_of_infinite fits

private theorem div_cases {u v : Float.Model.UnpackedFloat} (infinite : ¬ v.isFinite = true) :
    u.div Float.Model.Format.binary64 v = .notANumber ∨
      ∃ sign, u.div Float.Model.Format.binary64 v = .zero sign := by
  cases v with
  | zero sign => exact absurd rfl infinite
  | finite sign mantissa exponent positive => exact absurd rfl infinite
  | notANumber =>
      left
      cases u <;> rfl
  | infinity sign =>
      cases u with
      | notANumber => exact .inl rfl
      | infinity sign' => exact .inl rfl
      | zero sign' => exact .inr ⟨_, rfl⟩
      | finite sign' mantissa exponent positive => exact .inr ⟨_, rfl⟩

/-- Nothing is left of a number that is divided by what is no finite one. -/
theorem div_of_infinite {x y : Float} (infinite : ¬ Fits 971 y) :
    (x / y).toModel.unpack = .notANumber ∨ Fits 971 (x / y) ∧ value (x / y) = 0 := by
  have unpacked : (x / y).toModel.unpack = (Float.Model.pack (x.toModel.unpack.div
    Float.Model.Format.binary64 y.toModel.unpack)).unpack := rfl
  rw [fits_iff] at infinite ⊢
  rw [value, unpacked]
  rcases @div_cases x.toModel.unpack _ infinite with missing | ⟨sign, none⟩
  · left
    rw [missing]
    rfl
  · right
    rw [none]
    cases sign <;> exact ⟨rfl, rfl⟩

theorem idle_fractionOf (infinite : ¬ Fits 971 whole) (long : ¬ whole < shortLength)
    (length : Float) : Idle (fractionOf length whole) := by
  unfold fractionOf
  rw [if_neg long]
  rcases @div_of_infinite length whole infinite with missing | ⟨fits, none⟩
  · have outside : (length / whole == -infinity) = false := by
      change ((length / whole).toModel.unpack.compare (-infinity).toModel.unpack == some .eq) = false
      rw [missing]
      rfl
    have nan : (length / whole).isNaN = true := by
      change (length / whole).toModel.unpack.isNaN = true
      rw [missing]
      rfl
    intro fits
    rw [Scalar.min, outside, beq_neg_infinity_of_fits between_one.fits, nan] at fits
    exact absurd fits Trig.not_fits_special.2
  · intro _
    have one := between_one.low
    rw [value_min fits between_one.fits, none, min_eq_left]
    exact le_trans (by norm_num) one

private theorem turnSteps_of_undivided {turn : Float}
    (undivided : whole < shortLength ∨ ¬ Fits 971 whole ∨ ¬ Fits 971 turn) (before after : Float) :
    turnSteps ((fractionOf after whole - fractionOf before whole) * turn) = 1 := by
  by_cases short : whole < shortLength
  · have full (length : Float) : fractionOf length whole = 1 := if_pos short
    rw [full, full]
    refine turnSteps_of_idle (fun _ => ?_) turn
    have difference := between_one.sub between_one (by norm_num) (by norm_num)
    exact le_antisymm (by exact_mod_cast difference.high) (by exact_mod_cast difference.low)
  · rcases undivided with again | infinite | infinite
    · exact absurd again short
    · exact turnSteps_of_idle
        ((idle_fractionOf infinite short after).sub (idle_fractionOf infinite short before)) turn
    · exact turnSteps_of_infinite fun fits => infinite (fits_of_mul fits).2

private theorem length_le_sampleLine (turn whole behind : Float) (a : Vec) (line : List Vec) :
    line.length ≤ (sampleLine turn whole behind a line).length := by
  induction line generalizing a behind with
  | nil => exact le_refl _
  | cons b rest ih =>
      rw [sampleLine, List.length_append, length_sampleSegment, List.length_cons]
      have here := one_le_turnSteps ((fractionOf (behind + (b - a).length) whole -
        fractionOf behind whole) * turn)
      have later := ih (behind + (b - a).length) b
      omega

private theorem length_sampleLine {turn : Float}
    (single : ∀ before after,
      turnSteps ((fractionOf after whole - fractionOf before whole) * turn) = 1) (behind : Float)
    (a : Vec) (line : List Vec) : (sampleLine turn whole behind a line).length = line.length := by
  induction line generalizing a behind with
  | nil => rfl
  | cons b rest ih =>
      rw [sampleLine, List.length_append, length_sampleSegment, List.length_cons, single, ih]
      omega

/-! ## Routes -/

private theorem plan_ne_nil {forms : List Form} {b : Vec} {tolerance : Float} {line : List Vec}
    (planned : plan forms a b tolerance = .ok line) : line ≠ [] := by
  obtain ⟨count, _, led, _⟩ := clearLine_eq_some (plan_eq_ok planned)
  have counted := led.length
  rintro rfl
  rw [List.length_nil, List.length_singleton] at counted
  omega

private theorem length_turningPoints {machine : Machine} {line : List Vec} {source target : Point}
    {long : Bool} (some : line ≠ []) : (turningPoints machine line source target long).length + 1 =
      (sampleLine (machine.angularDistance source target long)
        (Polyline.length (source.position :: line)) 0 source.position line).length := by
  have least := length_le_sampleLine (machine.angularDistance source target long)
    (Polyline.length (source.position :: line)) 0 source.position line
  have positive := List.length_pos_iff.mpr some
  rw [turningPoints, List.length_map, List.length_dropLast]
  omega

/-- Where the tool turns, a route has as many steps as the turn needs, but for rounding, if its line
is long enough to be divided and both its length and the turn are numbers. Otherwise it has as many
steps as its line has segments, however far the tool turns. -/
theorem between_fineSteps {machine : Machine} {tool : Tool} {forms : List Form} {source target : Point}
    {points : Track} (turns : machine.isFiveAxis = true)
    (found : between machine tool forms source target = .ok points) :
    ∃ line long, plan forms source.position target.position tool.effectiveTolerance = .ok line ∧
      points = turningPoints machine line source target long ∧
      let whole := Polyline.length (source.position :: line)
      let turn := machine.angularDistance source target long
      (whole.isFinite = true ∧ turn.isFinite = true ∧ ¬ whole < shortLength →
        leastShare ^ 3 * (value turn / value maxTurn) ≤ points.length + 1) ∧
      (whole.isFinite = false ∨ turn.isFinite = false ∨ whole < shortLength →
        points.length + 1 = line.length) := by
  simp only [between, turns, ↓reduceIte] at found
  obtain ⟨line, planned, turned⟩ := bind_eq_ok.mp found
  obtain ⟨long, rfl, _⟩ := turned_eq_ok.mp turned
  have count : (turningPoints machine line source target long).length + 1 = _ :=
    length_turningPoints (plan_ne_nil planned)
  refine ⟨line, long, planned, rfl, ?_, ?_⟩
  · rintro ⟨finite, turning, divided⟩
    rw [← fits_iff_isFinite] at finite turning
    have travel := Machine.between_angularDistance turns turning
    have covered := share_le_sampleLine travel finite divided rfl value_zero.ge
    rw [← count, fractionOf_zero finite divided, sub_zero, one_mul] at covered
    exact_mod_cast covered
  · intro undivided
    rw [count]
    refine length_sampleLine (turnSteps_of_undivided ?_) _ _ _
    rw [fits_iff_isFinite, fits_iff_isFinite, Bool.not_eq_true, Bool.not_eq_true]
    tauto

/-! ## Turning at one place -/

/-- A tool that is not in the way of anything. -/
def shortMill : Tool :=
  { identity := 0, name := "", number := 1, tip := .ball, width := 2 }

def upright : Point := { position := ⟨0, 0, 8⟩, direction := ⟨0, 0, 1⟩ }

def leaning : Point := { position := ⟨1, 0, 8⟩, direction := ⟨1, 0, 0⟩ }

/-- Along a line the tool makes a quarter turn in fifteen steps. -/
theorem between_fineSteps_leaning :
    ∃ points, between tiltTable shortMill [] upright leaning = .ok points ∧ points.length = 14 ∧
      leastShare ^ 3 * (value (tiltTable.angularDistance upright leaning false) / value maxTurn) ≤
        points.length + 1 := by
  have routed : ∃ points, between tiltTable shortMill [] upright leaning = .ok points ∧
      points.length = 14 := by
    decide +kernel
  obtain ⟨points, found, count⟩ := routed
  refine ⟨points, found, count, ?_⟩
  obtain ⟨line, long, planned, rfl, fine, _⟩ := between_fineSteps rfl found
  have straight : plan [] upright.position leaning.position shortMill.effectiveTolerance =
      .ok [leaning.position] := by
    decide +kernel
  cases straight.symm.trans planned
  cases long with
  | false =>
      refine fine ?_
      decide +kernel
  | true =>
      have other : (turningPoints tiltTable [leaning.position] upright leaning true).length ≠ 14 := by
        decide +kernel
      exact absurd count other

/-- At one place the tool makes a quarter turn in a single step. -/
theorem between_atOnePlace :
    let fallen : Point := { upright with direction := ⟨1, 0, 0⟩ }
    between tiltTable shortMill [] upright fallen = .ok [] ∧
      14 < value (tiltTable.angularDistance upright fallen false) / value maxTurn := by
  decide +kernel

end Kerf.Route
