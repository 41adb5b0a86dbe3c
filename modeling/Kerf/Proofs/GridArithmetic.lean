import Kerf.Outline.Crossing
import Kerf.Proofs.GridSteps

/-!
# Word arithmetic on the whole grid

Coordinates reach `2 ^ 30`, so their differences reach `2 ^ 31` and products of two differences
`2 ^ 62`. A sum or difference of two such products may be one more than the largest word. A cross
product never is: it is twice the area of a triangle, and that is at most the area of the square that
holds it. A dot product is, but only along a diagonal of the grid, from one corner to the opposite one.

Main statements: `orientation_onGrid`, by which the orientation of three grid points is always exact,
and `interior_onGrid`, by which the points inside a segment are found unless it is a diagonal of the
grid, and those of a diagonal never.
-/

set_option autoImplicit false

namespace Kerf.Outline

/-! ## Formulas over words -/

/-- A number worked out from words. -/
inductive Formula where
  | word (value : Int64)
  | add (left right : Formula)
  | sub (left right : Formula)
  | mul (left right : Formula)

namespace Formula

/-- The value in words, which wrap around. -/
def wrapped : Formula → Int64
  | word value => value
  | add left right => left.wrapped + right.wrapped
  | sub left right => left.wrapped - right.wrapped
  | mul left right => left.wrapped * right.wrapped

def exact : Formula → Int
  | word value => value.toInt
  | add left right => left.exact + right.exact
  | sub left right => left.exact - right.exact
  | mul left right => left.exact * right.exact

def IsWord (number : Int) : Prop := -2 ^ 63 ≤ number ∧ number < 2 ^ 63

instance (number : Int) : Decidable (IsWord number) := inferInstanceAs (Decidable (_ ∧ _))

/-- Whether every sum, difference and product that a formula forms is within the range of words. -/
def Fits : Formula → Prop
  | word _ => True
  | add left right => left.Fits ∧ right.Fits ∧ IsWord (left.exact + right.exact)
  | sub left right => left.Fits ∧ right.Fits ∧ IsWord (left.exact - right.exact)
  | mul left right => left.Fits ∧ right.Fits ∧ IsWord (left.exact * right.exact)

theorem IsWord.bmod_eq {number : Int} (range : IsWord number) : number.bmod (2 ^ 64) = number :=
  Int.bmod_eq_of_le (by have := range.1; omega) (by have := range.2; omega)

theorem isWord_of_abs_le {number bound : Int} (small : |number| ≤ bound) (room : bound < 2 ^ 63) :
    IsWord number := by
  have range := abs_le.mp small
  exact ⟨by omega, by omega⟩

theorem toInt_wrapped {formula : Formula} (fits : formula.Fits) :
    formula.wrapped.toInt = formula.exact := by
  induction formula with
  | word value => rfl
  | add left right leftIH rightIH =>
      obtain ⟨fitsLeft, fitsRight, range⟩ := fits
      rw [wrapped, Int64.toInt_add, leftIH fitsLeft, rightIH fitsRight, exact, range.bmod_eq]
  | sub left right leftIH rightIH =>
      obtain ⟨fitsLeft, fitsRight, range⟩ := fits
      rw [wrapped, Int64.toInt_sub, leftIH fitsLeft, rightIH fitsRight, exact, range.bmod_eq]
  | mul left right leftIH rightIH =>
      obtain ⟨fitsLeft, fitsRight, range⟩ := fits
      rw [wrapped, Int64.toInt_mul, leftIH fitsLeft, rightIH fitsRight, exact, range.bmod_eq]

/-- The cross product of the steps from one grid point to two others. -/
def turn (a b c : Node) : Formula :=
  .sub (.mul (.sub (.word b.x) (.word a.x)) (.sub (.word c.y) (.word a.y)))
    (.mul (.sub (.word b.y) (.word a.y)) (.sub (.word c.x) (.word a.x)))

/-- The dot product of the steps from one grid point to two others. -/
def reach (a b c : Node) : Formula :=
  .add (.mul (.sub (.word b.x) (.word a.x)) (.sub (.word c.x) (.word a.x)))
    (.mul (.sub (.word b.y) (.word a.y)) (.sub (.word c.y) (.word a.y)))

end Formula

/-! ## Triangles on the grid -/

/-- The largest coordinate of the grid as a whole number. -/
def gridReach : Int := (Scalar.toWord gridLimit).toInt

private theorem gridReach_eq : gridReach = 2 ^ 30 := by decide +kernel

def Node.OnGrid (node : Node) : Prop := |node.x.toInt| ≤ gridReach ∧ |node.y.toInt| ≤ gridReach

instance (node : Node) : Decidable node.OnGrid := inferInstanceAs (Decidable (_ ∧ _))

namespace Exact

private theorem sum_abs_sub_le {x y z bound : Int} (smallX : |x| ≤ bound) (smallY : |y| ≤ bound)
    (smallZ : |z| ≤ bound) : |y - z| + |z - x| + |x - y| ≤ 4 * bound := by
  rw [abs_le] at smallX smallY smallZ
  -- The three differences add up to twice the largest of them.
  rcases abs_cases (y - z) with first | first <;> rcases abs_cases (z - x) with second | second <;>
    rcases abs_cases (x - y) with third | third <;> omega

/-- Twice the area of a triangle is at most the area of a square that holds it. -/
theorem abs_cross_le {a b c : Int × Int} {bound : Int} (smallA : |a.1| ≤ bound ∧ |a.2| ≤ bound)
    (smallB : |b.1| ≤ bound ∧ |b.2| ≤ bound) (smallC : |c.1| ≤ bound ∧ |c.2| ≤ bound) :
    |cross (b - a) (c - a)| ≤ 2 * bound * (2 * bound) := by
  have nonneg : 0 ≤ bound := (abs_nonneg _).trans smallA.1
  calc |cross (b - a) (c - a)|
      = |a.1 * (b.2 - c.2) + b.1 * (c.2 - a.2) + c.1 * (a.2 - b.2)| := by
        congr 1
        simp only [cross, Prod.fst_sub, Prod.snd_sub]
        ring
    _ ≤ |a.1 * (b.2 - c.2)| + |b.1 * (c.2 - a.2)| + |c.1 * (a.2 - b.2)| := abs_add_three _ _ _
    _ = |a.1| * |b.2 - c.2| + |b.1| * |c.2 - a.2| + |c.1| * |a.2 - b.2| := by
        rw [abs_mul, abs_mul, abs_mul]
    _ ≤ bound * |b.2 - c.2| + bound * |c.2 - a.2| + bound * |a.2 - b.2| := by
        gcongr
        · exact smallA.1
        · exact smallB.1
        · exact smallC.1
    _ = bound * (|b.2 - c.2| + |c.2 - a.2| + |a.2 - b.2|) := by ring
    _ ≤ bound * (4 * bound) :=
        mul_le_mul_of_nonneg_left (sum_abs_sub_le smallA.2 smallB.2 smallC.2) nonneg
    _ = 2 * bound * (2 * bound) := by ring

end Exact

namespace Node.OnGrid

variable {a b c : Node}

theorem abs_exact_le (grid : a.OnGrid) : |a.exact.1| ≤ 2 ^ 30 ∧ |a.exact.2| ≤ 2 ^ 30 := by
  rw [← gridReach_eq]
  exact grid

theorem abs_toward_le (gridA : a.OnGrid) (gridB : b.OnGrid) :
    |(a.toward b).1| ≤ 2 ^ 31 ∧ |(a.toward b).2| ≤ 2 ^ 31 := by
  obtain ⟨smallAX, smallAY⟩ := gridA.abs_exact_le
  obtain ⟨smallBX, smallBY⟩ := gridB.abs_exact_le
  constructor
  · exact (abs_sub _ _).trans ((add_le_add smallBX smallAX).trans (by norm_num))
  · exact (abs_sub _ _).trans ((add_le_add smallBY smallAY).trans (by norm_num))

end Node.OnGrid

namespace Formula

theorem fits_mul_sub {p q r s : Int64} (first : |p.toInt - q.toInt| ≤ 2 ^ 31)
    (second : |r.toInt - s.toInt| ≤ 2 ^ 31) :
    (mul (sub (word p) (word q)) (sub (word r) (word s))).Fits ∧
      |(p.toInt - q.toInt) * (r.toInt - s.toInt)| ≤ 2 ^ 62 := by
  have small : |(p.toInt - q.toInt) * (r.toInt - s.toInt)| ≤ 2 ^ 62 := by
    rw [abs_mul]
    exact (mul_le_mul first second (abs_nonneg _) (by norm_num)).trans (by norm_num)
  refine ⟨⟨⟨trivial, trivial, ?_⟩, ⟨trivial, trivial, ?_⟩, ?_⟩, small⟩
  · exact isWord_of_abs_le first (by norm_num)
  · exact isWord_of_abs_le second (by norm_num)
  · exact isWord_of_abs_le small (by norm_num)

variable {a b c : Node}

theorem fits_turn (gridA : a.OnGrid) (gridB : b.OnGrid) (gridC : c.OnGrid) :
    (turn a b c).Fits ∧ |(turn a b c).exact| ≤ 2 ^ 62 := by
  obtain ⟨stepBX, stepBY⟩ := gridA.abs_toward_le gridB
  obtain ⟨stepCX, stepCY⟩ := gridA.abs_toward_le gridC
  have area : |(turn a b c).exact| ≤ 2 ^ 62 :=
    (Exact.abs_cross_le gridA.abs_exact_le gridB.abs_exact_le gridC.abs_exact_le).trans
      (by norm_num)
  exact ⟨⟨(fits_mul_sub stepBX stepCY).1, (fits_mul_sub stepBY stepCX).1,
    isWord_of_abs_le area (by norm_num)⟩, area⟩

/-- A dot product fits unless it is one more than the largest word. -/
theorem fits_reach_iff (gridA : a.OnGrid) (gridB : b.OnGrid) (gridC : c.OnGrid) :
    (reach a b c).Fits ↔ (reach a b c).exact < 2 ^ 63 := by
  obtain ⟨stepBX, stepBY⟩ := gridA.abs_toward_le gridB
  obtain ⟨stepCX, stepCY⟩ := gridA.abs_toward_le gridC
  obtain ⟨fitsX, smallX⟩ := fits_mul_sub stepBX stepCX
  obtain ⟨fitsY, smallY⟩ := fits_mul_sub stepBY stepCY
  have lowX := (abs_le.mp smallX).1
  have lowY := (abs_le.mp smallY).1
  constructor
  · rintro ⟨-, -, range⟩
    exact range.2
  · intro below
    refine ⟨fitsX, fitsY, ?_, below⟩
    change _ ≤ (b.x.toInt - a.x.toInt) * (c.x.toInt - a.x.toInt) +
      (b.y.toInt - a.y.toInt) * (c.y.toInt - a.y.toInt)
    omega

end Formula

theorem toInt_orientation {a b c : Node} (gridA : a.OnGrid) (gridB : b.OnGrid) (gridC : c.OnGrid) :
    (orientation a b c).toInt = Exact.cross (a.toward b) (a.toward c) :=
  Formula.toInt_wrapped (Formula.fits_turn gridA gridB gridC).1

/-- The orientation of three grid points is exact. No difference or product on the way to it leaves
the range of words, and the cross product itself is at most `2 ^ 62` in size, although the difference
of two products of that size need not be. -/
theorem orientation_onGrid {a b c : Node} (gridA : a.OnGrid) (gridB : b.OnGrid) (gridC : c.OnGrid) :
    orientation a b c = (Formula.turn a b c).wrapped ∧ (Formula.turn a b c).Fits ∧
      |Exact.cross (a.toward b) (a.toward c)| ≤ 2 ^ 62 ∧
      (orientation a b c).toInt = Exact.cross (a.toward b) (a.toward c) := by
  obtain ⟨fits, area⟩ := Formula.fits_turn gridA gridB gridC
  exact ⟨rfl, fits, area, toInt_orientation gridA gridB gridC⟩

/-- Three corners of the grid, where the bound is reached. -/
theorem orientation_onGrid_corners :
    Node.OnGrid ⟨-1073741824, -1073741824⟩ ∧ Node.OnGrid ⟨1073741824, -1073741824⟩ ∧
      Node.OnGrid ⟨-1073741824, 1073741824⟩ ∧
      (orientation ⟨-1073741824, -1073741824⟩ ⟨1073741824, -1073741824⟩
        ⟨-1073741824, 1073741824⟩).toInt = 2 ^ 62 := by
  have gridA : Node.OnGrid ⟨-1073741824, -1073741824⟩ := by decide +kernel
  have gridB : Node.OnGrid ⟨1073741824, -1073741824⟩ := by decide +kernel
  have gridC : Node.OnGrid ⟨-1073741824, 1073741824⟩ := by decide +kernel
  obtain ⟨_, _, _, exact⟩ := orientation_onGrid gridA gridB gridC
  exact ⟨gridA, gridB, gridC, exact.trans (by decide)⟩

/-! ## Points inside segments -/

namespace Exact

/-- Whether a point lies on the segment between two others, apart from both. -/
def Inside (q a b : Int × Int) : Prop :=
  cross (b - a) (q - a) = 0 ∧ 0 < dot (q - a) (b - a) ∧ dot (q - a) (b - a) < dot (b - a) (b - a)

instance (q a b : Int × Int) : Decidable (Inside q a b) := inferInstanceAs (Decidable (_ ∧ _ ∧ _))

end Exact

/-- Whether two points of the grid are opposite corners of it. -/
def Opposite (a b : Node) : Prop := |(a.toward b).1| = 2 ^ 31 ∧ |(a.toward b).2| = 2 ^ 31

instance (a b : Node) : Decidable (Opposite a b) := inferInstanceAs (Decidable (_ ∧ _))

theorem interior_isSome_iff (q a b : Node) :
    (interior q a b).isSome = true ↔
      (Formula.turn a b q).wrapped.toInt = 0 ∧ 0 < (Formula.reach a q b).wrapped.toInt ∧
        (Formula.reach a q b).wrapped.toInt < (Formula.reach a b b).wrapped.toInt := by
  change (if (Formula.turn a b q).wrapped != 0 then none
    else if (Formula.reach a q b).wrapped ≤ 0 ||
        (Formula.reach a b b).wrapped ≤ (Formula.reach a q b).wrapped then none
      else some (Scalar.ofWord (Formula.reach a q b).wrapped /
        Scalar.ofWord (Formula.reach a b b).wrapped)).isSome = true ↔ _
  have level : (Formula.turn a b q).wrapped.toInt = 0 ↔ (Formula.turn a b q).wrapped = 0 := by
    rw [← Int64.toInt_zero, Int64.toInt_inj]
  rw [level]
  split
  · next turned => exact iff_of_false (by simp) fun ⟨straight, _⟩ => bne_iff_ne.mp turned straight
  · next straight =>
      rw [Bool.not_eq_true, bne_eq_false_iff_eq] at straight
      have stops : ((Formula.reach a q b).wrapped ≤ 0 ||
          (Formula.reach a b b).wrapped ≤ (Formula.reach a q b).wrapped) = true ↔
          (Formula.reach a q b).wrapped.toInt ≤ 0 ∨
            (Formula.reach a b b).wrapped.toInt ≤ (Formula.reach a q b).wrapped.toInt := by
        rw [Bool.or_eq_true, decide_eq_true_iff, decide_eq_true_iff, Int64.le_iff_toInt_le,
          Int64.le_iff_toInt_le, Int64.toInt_zero]
      split
      · next outside =>
          refine iff_of_false (by simp) fun ⟨_, ahead, short⟩ => ?_
          rcases stops.mp outside with behind | beyond <;> omega
      · next inside =>
          rw [stops, not_or, not_le, not_le] at inside
          exact iff_of_true rfl ⟨straight, inside⟩

section

variable {q a b : Node}

theorem dot_lt_of_not_opposite (gridQ : q.OnGrid) (gridA : a.OnGrid) (gridB : b.OnGrid)
    (apart : ¬ Opposite a b) : Exact.dot (a.toward q) (a.toward b) < 2 ^ 63 := by
  obtain ⟨stepQX, stepQY⟩ := gridA.abs_toward_le gridQ
  obtain ⟨stepBX, stepBY⟩ := gridA.abs_toward_le gridB
  have short : |(a.toward b).1| + |(a.toward b).2| < 2 ^ 32 := by
    unfold Opposite at apart
    omega
  calc Exact.dot (a.toward q) (a.toward b)
      ≤ |(a.toward q).1 * (a.toward b).1| + |(a.toward q).2 * (a.toward b).2| :=
        add_le_add (le_abs_self _) (le_abs_self _)
    _ ≤ 2 ^ 31 * |(a.toward b).1| + 2 ^ 31 * |(a.toward b).2| := by
        rw [abs_mul, abs_mul]
        gcongr
    _ < 2 ^ 63 := by omega

theorem reach_of_opposite (corners : Opposite a b) : (Formula.reach a b b).exact = 2 ^ 63 := by
  change (a.toward b).1 * (a.toward b).1 + (a.toward b).2 * (a.toward b).2 = _
  rw [← abs_mul_abs_self, ← abs_mul_abs_self (a.toward b).2, corners.1, corners.2]
  norm_num

/-- Along a diagonal of the grid the squared length wraps around to the least word. -/
theorem toInt_reach_of_opposite (gridA : a.OnGrid) (gridB : b.OnGrid) (corners : Opposite a b) :
    (Formula.reach a b b).wrapped.toInt = -2 ^ 63 := by
  obtain ⟨stepX, stepY⟩ := gridA.abs_toward_le gridB
  have sum := Int64.toInt_add
    (Formula.mul (.sub (.word b.x) (.word a.x)) (.sub (.word b.x) (.word a.x))).wrapped
    (Formula.mul (.sub (.word b.y) (.word a.y)) (.sub (.word b.y) (.word a.y))).wrapped
  rw [Formula.toInt_wrapped (Formula.fits_mul_sub stepX stepX).1,
    Formula.toInt_wrapped (Formula.fits_mul_sub stepY stepY).1] at sum
  calc (Formula.reach a b b).wrapped.toInt = (Formula.reach a b b).exact.bmod (2 ^ 64) := sum
    _ = -2 ^ 63 := by
        rw [reach_of_opposite corners]
        decide

theorem interior_of_opposite (gridA : a.OnGrid) (gridB : b.OnGrid) (corners : Opposite a b) :
    interior q a b = none := by
  rw [← Option.not_isSome_iff_eq_none, interior_isSome_iff,
    toInt_reach_of_opposite gridA gridB corners]
  have least := Int64.le_toInt (Formula.reach a q b).wrapped
  rintro ⟨-, -, short⟩
  omega

theorem fits_of_not_opposite (gridQ : q.OnGrid) (gridA : a.OnGrid) (gridB : b.OnGrid)
    (apart : ¬ Opposite a b) : (Formula.reach a q b).Fits ∧ (Formula.reach a b b).Fits :=
  ⟨(Formula.fits_reach_iff gridA gridQ gridB).mpr (dot_lt_of_not_opposite gridQ gridA gridB apart),
    (Formula.fits_reach_iff gridA gridB gridB).mpr (dot_lt_of_not_opposite gridB gridA gridB apart)⟩

theorem interior_iff_inside (gridQ : q.OnGrid) (gridA : a.OnGrid) (gridB : b.OnGrid)
    (apart : ¬ Opposite a b) :
    (interior q a b).isSome = true ↔ Exact.Inside q.exact a.exact b.exact := by
  obtain ⟨along, whole⟩ := fits_of_not_opposite gridQ gridA gridB apart
  rw [interior_isSome_iff, Formula.toInt_wrapped (Formula.fits_turn gridA gridB gridQ).1,
    Formula.toInt_wrapped along, Formula.toInt_wrapped whole]
  rfl

end

/-- Which points inside a segment of the grid are found. They are exactly those inside it in exact
arithmetic, unless the segment is a diagonal of the grid: its squared length is one more than the
largest word, and nothing is found inside it. This is also the only way in which a sum, difference or
product that is formed leaves the range of words. -/
theorem interior_onGrid {q a b : Node} (gridQ : q.OnGrid) (gridA : a.OnGrid) (gridB : b.OnGrid) :
    ((interior q a b).isSome = true ↔
      Exact.Inside q.exact a.exact b.exact ∧ ¬ Opposite a b) ∧
    ((Formula.turn a b q).Fits ∧ (Formula.reach a q b).Fits ∧ (Formula.reach a b b).Fits ↔
      ¬ Opposite a b) := by
  by_cases corners : Opposite a b
  · rw [interior_of_opposite gridA gridB corners, Formula.fits_reach_iff gridA gridB gridB,
      reach_of_opposite corners]
    simp [corners]
  · rw [interior_iff_inside gridQ gridA gridB corners]
    exact ⟨(and_iff_left corners).symm, iff_of_true
      ⟨(Formula.fits_turn gridA gridB gridQ).1, fits_of_not_opposite gridQ gridA gridB corners⟩
      corners⟩

/-- The middle of a segment that is one unit short of a diagonal at both ends. -/
theorem interior_onGrid_besideDiagonal :
    Node.OnGrid ⟨0, 0⟩ ∧ Node.OnGrid ⟨-1073741824, -1073741823⟩ ∧
      Node.OnGrid ⟨1073741824, 1073741823⟩ ∧
      (interior ⟨0, 0⟩ ⟨-1073741824, -1073741823⟩ ⟨1073741824, 1073741823⟩).isSome = true := by
  have gridQ : Node.OnGrid ⟨0, 0⟩ := by decide +kernel
  have gridA : Node.OnGrid ⟨-1073741824, -1073741823⟩ := by decide +kernel
  have gridB : Node.OnGrid ⟨1073741824, 1073741823⟩ := by decide +kernel
  exact ⟨gridQ, gridA, gridB, (interior_onGrid gridQ gridA gridB).1.mpr (by decide)⟩

/-- A ring with a diagonal of the grid as its first edge. The eighth point is on that edge, and the
ring crosses it there. -/
def acrossDiagonal : Ring :=
  [⟨1073741824, 1073741824⟩, ⟨-1073741824, -1073741824⟩, ⟨235314516, -35612561⟩,
    ⟨158355949, -58367417⟩, ⟨-332360328, -11356647⟩, ⟨-429101074, 104727300⟩,
    ⟨-313964857, 202594077⟩, ⟨166029984, 166029984⟩, ⟨255935052, 102708492⟩, ⟨242989846, -6492947⟩]

/-- A point inside a diagonal of the grid is not found, so that a piece of the split ring runs over
it. -/
theorem diagonal_not_split :
    (∀ node ∈ acrossDiagonal, node.OnGrid) ∧
      Exact.Inside (166029984, 166029984) (2 ^ 30, 2 ^ 30) (-2 ^ 30, -2 ^ 30) ∧
      (interior ⟨166029984, 166029984⟩ ⟨1073741824, 1073741824⟩
        ⟨-1073741824, -1073741824⟩).isSome = false ∧
      ⟨⟨1073741824, 1073741824⟩, ⟨-39420384, -39420384⟩⟩ ∈ split acrossDiagonal := by
  refine ⟨by decide +kernel, by decide, by decide, by decide +kernel⟩

end Kerf.Outline
