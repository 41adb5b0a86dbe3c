import Kerf.Outline.Ring
import Mathlib.Algebra.Order.Group.Unbundled.Abs
import Mathlib.Algebra.Order.Ring.Abs
import Mathlib.Algebra.Group.Prod
import Mathlib.Tactic.Linarith
import Mathlib.Tactic.Ring

/-!
# Steps on the grid in exact arithmetic

Coordinates are 64-bit words, which wrap around. Near the middle of the grid their differences and
products are small enough not to, so there the words agree with whole numbers. With whole numbers,
two steps go the same way when their cross product is zero and their dot product positive, and a grid
point lies straight between its neighbours when the steps into and out of it go the same way.
-/

set_option autoImplicit false

namespace Kerf.Outline

/-! ## Words that do not wrap around -/

section

variable {a b : Int64} {m n : Int}

theorem toInt_of_abs_le {word : Int64} {value bound : Int}
    (wrapped : word.toInt = value.bmod (2 ^ 64)) (small : |value| ≤ bound) (room : bound < 2 ^ 63) :
    word.toInt = value ∧ |word.toInt| ≤ bound := by
  have range := abs_le.mp small
  have same : word.toInt = value := by rw [wrapped, Int.bmod_eq_of_le (by omega) (by omega)]
  exact ⟨same, by rwa [same]⟩

theorem toInt_sub_of_abs_le (left : |a.toInt| ≤ m) (right : |b.toInt| ≤ n) (room : m + n < 2 ^ 63) :
    (a - b).toInt = a.toInt - b.toInt ∧ |(a - b).toInt| ≤ m + n :=
  toInt_of_abs_le (Int64.toInt_sub a b) ((abs_sub _ _).trans (add_le_add left right)) room

private theorem toInt_add_of_abs_le (left : |a.toInt| ≤ m) (right : |b.toInt| ≤ n)
    (room : m + n < 2 ^ 63) : (a + b).toInt = a.toInt + b.toInt ∧ |(a + b).toInt| ≤ m + n :=
  toInt_of_abs_le (Int64.toInt_add a b) ((abs_add_le _ _).trans (add_le_add left right)) room

theorem toInt_mul_of_abs_le (left : |a.toInt| ≤ m) (right : |b.toInt| ≤ n) (room : m * n < 2 ^ 63) :
    (a * b).toInt = a.toInt * b.toInt ∧ |(a * b).toInt| ≤ m * n := by
  refine toInt_of_abs_le (Int64.toInt_mul a b) ?_ room
  rw [abs_mul]
  exact mul_le_mul left right (abs_nonneg _) ((abs_nonneg _).trans left)

end

/-! ## Steps that go the same way -/

namespace Exact

def cross (u v : Int × Int) : Int := u.1 * v.2 - u.2 * v.1

def dot (u v : Int × Int) : Int := u.1 * v.1 + u.2 * v.2

/-- Whether steps go the same way. -/
def SameWay (u v : Int × Int) : Prop := cross u v = 0 ∧ 0 < dot u v

instance (u v : Int × Int) : Decidable (SameWay u v) := inferInstanceAs (Decidable (_ ∧ _))

variable {u v w : Int × Int}

@[simp] theorem cross_self (u : Int × Int) : cross u u = 0 := by
  unfold cross
  ring

theorem SameWay.symm (same : SameWay u v) : SameWay v u := by
  obtain ⟨level, ahead⟩ := same
  unfold cross at level
  unfold dot at ahead
  constructor
  · unfold cross
    linarith
  · unfold dot
    linarith

theorem dot_self_pos (long : v ≠ 0) : 0 < dot v v := by
  have first := mul_self_nonneg v.1
  have second := mul_self_nonneg v.2
  unfold dot
  by_contra short
  refine long (Prod.ext ?_ ?_)
  · exact mul_self_eq_zero.mp (by linarith)
  · exact mul_self_eq_zero.mp (by linarith)

theorem SameWay.refl (long : v ≠ 0) : SameWay v v := ⟨cross_self v, dot_self_pos long⟩

theorem SameWay.ne_zero (same : SameWay u v) : v ≠ 0 := by
  rintro rfl
  exact absurd same.2 (by simp [dot])

theorem SameWay.trans (first : SameWay u v) (second : SameWay v w) : SameWay u w := by
  have long := dot_self_pos first.ne_zero
  have turned : dot v v * cross u w = cross u v * dot v w + dot u v * cross v w := by
    unfold cross dot
    ring
  have reached : dot v v * dot u w = dot u v * dot v w - cross u v * cross v w := by
    unfold cross dot
    ring
  rw [first.1, second.1, zero_mul, mul_zero, add_zero] at turned
  rw [first.1, zero_mul, sub_zero] at reached
  constructor
  · exact (mul_eq_zero.mp turned).resolve_left (ne_of_gt long)
  · have positive := mul_pos first.2 second.2
    rw [← reached] at positive
    exact (mul_pos_iff_of_pos_left long).mp positive

theorem SameWay.add_left (same : SameWay u v) : SameWay (u + v) v := by
  have long := dot_self_pos same.ne_zero
  obtain ⟨level, ahead⟩ := same
  constructor
  · have split : cross (u + v) v = cross u v + cross v v := by
      simp only [cross, Prod.fst_add, Prod.snd_add]
      ring
    rw [split, level, cross_self, add_zero]
  · have split : dot (u + v) v = dot u v + dot v v := by
      simp only [dot, Prod.fst_add, Prod.snd_add]
      ring
    rw [split]
    exact add_pos ahead long

end Exact

section

variable {ax ay bx byy : Int64} {m n : Int} (smallAX : |ax.toInt| ≤ m) (smallAY : |ay.toInt| ≤ m)
  (smallBX : |bx.toInt| ≤ n) (smallBY : |byy.toInt| ≤ n) (room : m * n + m * n < 2 ^ 63)

include smallAX smallAY smallBX smallBY room

private theorem toInt_cross :
    (ax * byy - ay * bx).toInt = Exact.cross (ax.toInt, ay.toInt) (bx.toInt, byy.toInt) := by
  have half : m * n < 2 ^ 63 := by
    have := mul_nonneg ((abs_nonneg _).trans smallAX) ((abs_nonneg _).trans smallBX)
    omega
  obtain ⟨first, firstSmall⟩ := toInt_mul_of_abs_le smallAX smallBY half
  obtain ⟨second, secondSmall⟩ := toInt_mul_of_abs_le smallAY smallBX half
  rw [(toInt_sub_of_abs_le firstSmall secondSmall room).1, first, second]
  rfl

private theorem toInt_dot :
    (ax * bx + ay * byy).toInt = Exact.dot (ax.toInt, ay.toInt) (bx.toInt, byy.toInt) := by
  have half : m * n < 2 ^ 63 := by
    have := mul_nonneg ((abs_nonneg _).trans smallAX) ((abs_nonneg _).trans smallBX)
    omega
  obtain ⟨first, firstSmall⟩ := toInt_mul_of_abs_le smallAX smallBX half
  obtain ⟨second, secondSmall⟩ := toInt_mul_of_abs_le smallAY smallBY half
  rw [(toInt_add_of_abs_le firstSmall secondSmall room).1, first, second]
  rfl

end

/-! ## Grid points -/

/-- The coordinates of a grid point as whole numbers. -/
def Node.exact (node : Node) : Int × Int := (node.x.toInt, node.y.toInt)

def Node.toward (a b : Node) : Int × Int := b.exact - a.exact

/-- Whether a grid point lies straight between two others, apart from both. -/
def Straight (previous current next : Node) : Prop :=
  Exact.SameWay (previous.toward current) (current.toward next)

instance (previous current next : Node) : Decidable (Straight previous current next) :=
  inferInstanceAs (Decidable (Exact.SameWay _ _))

theorem Node.exact_injective : Function.Injective Node.exact := by
  rintro ⟨x, y⟩ ⟨x', y'⟩ same
  rwa [Node.exact, Node.exact, Prod.mk.injEq, Int64.toInt_inj, Int64.toInt_inj,
    ← Node.mk.injEq] at same

theorem Node.toward_add (a b c : Node) : a.toward b + b.toward c = a.toward c :=
  (add_comm _ _).trans (sub_add_sub_cancel c.exact b.exact a.exact)

theorem Node.toward_eq_zero {a b : Node} : a.toward b = 0 ↔ a = b := by
  rw [Node.toward, sub_eq_zero]
  exact exact_injective.eq_iff.trans eq_comm

/-- Whether a grid point is at most `2 ^ 29` from the middle of the grid in each coordinate. -/
def Node.IsNear (node : Node) : Prop := |node.x.toInt| ≤ 2 ^ 29 ∧ |node.y.toInt| ≤ 2 ^ 29

instance (node : Node) : Decidable node.IsNear := inferInstanceAs (Decidable (_ ∧ _))

theorem Node.IsNear.toward_eq {a b : Node} (nearA : a.IsNear) (nearB : b.IsNear) :
    a.toward b = ((b.x - a.x).toInt, (b.y - a.y).toInt) ∧
      |(b.x - a.x).toInt| ≤ 2 ^ 30 ∧ |(b.y - a.y).toInt| ≤ 2 ^ 30 := by
  obtain ⟨exactX, smallX⟩ := toInt_sub_of_abs_le nearB.1 nearA.1 (by norm_num)
  obtain ⟨exactY, smallY⟩ := toInt_sub_of_abs_le nearB.2 nearA.2 (by norm_num)
  rw [exactX, exactY]
  rw [exactX] at smallX
  rw [exactY] at smallY
  exact ⟨rfl, by omega, by omega⟩

/-- Near the middle of the grid, whether a point of a ring is dropped is decided exactly. -/
theorem isIdle_iff {previous current next : Node} (nearP : previous.IsNear) (nearC : current.IsNear)
    (nearN : next.IsNear) :
    Ring.isIdle previous current next = true ↔
      previous = current ∨ Straight previous current next := by
  obtain ⟨stepIn, smallAX, smallAY⟩ := nearP.toward_eq nearC
  obtain ⟨stepOut, smallBX, smallBY⟩ := nearC.toward_eq nearN
  unfold Ring.isIdle Straight Exact.SameWay
  rw [stepIn, stepOut, ← toInt_cross smallAX smallAY smallBX smallBY (by norm_num),
    ← toInt_dot smallAX smallAY smallBX smallBY (by norm_num)]
  simp only [Bool.or_eq_true, beq_iff_eq, Bool.and_eq_true, decide_eq_true_eq, gt_iff_lt,
    Int64.lt_iff_toInt_lt, ← Int64.toInt_inj, Int64.toInt_zero]

end Kerf.Outline
