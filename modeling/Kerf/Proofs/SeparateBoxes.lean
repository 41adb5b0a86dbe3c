import Kerf.Proofs.ClosedTours
import Kerf.Proofs.GridArithmetic
import Kerf.Proofs.WholeParts
import Mathlib.Tactic.LinearCombination

/-!
# Edges with separate boxes

A ring is split by looking at all pairs of its edges, and pairs whose boxes are apart are passed over.
That loses no cut. A point inside an edge, and the point where two edges cross, is a mean of the ends
of an edge with weights that are not negative, so it is in the box around that edge. Whatever one edge
cuts of another is therefore in both boxes.

Main statement: `split_without_boxes`. Separate boxes rule out all cuts in exact arithmetic, and the
ring is split in the same way if no pair is passed over. On the grid this holds of the arithmetic of
words too.
-/

set_option autoImplicit false

namespace Kerf.Outline

/-! ## Boxes in exact arithmetic -/

namespace Exact

/-- The cross product of the steps from one point to two others. -/
def turn (a b c : Int × Int) : Int := cross (b - a) (c - a)

def Opposed (m n : Int) : Prop := m < 0 ∧ 0 < n ∨ 0 < m ∧ n < 0

/-- Whether two segments cross: the ends of each are strictly on both sides of the other. -/
def Crosses (a₀ a₁ b₀ b₁ : Int × Int) : Prop :=
  Opposed (turn a₀ a₁ b₀) (turn a₀ a₁ b₁) ∧ Opposed (turn b₀ b₁ a₀) (turn b₀ b₁ a₁)

def BoxesMeet (a₀ a₁ b₀ b₁ : Int × Int) : Prop :=
  min b₀.1 b₁.1 ≤ max a₀.1 a₁.1 ∧ min a₀.1 a₁.1 ≤ max b₀.1 b₁.1 ∧
    min b₀.2 b₁.2 ≤ max a₀.2 a₁.2 ∧ min a₀.2 a₁.2 ≤ max b₀.2 b₁.2

instance (m n : Int) : Decidable (Opposed m n) := inferInstanceAs (Decidable (_ ∨ _))

instance (a₀ a₁ b₀ b₁ : Int × Int) : Decidable (Crosses a₀ a₁ b₀ b₁) :=
  inferInstanceAs (Decidable (_ ∧ _))

instance (a₀ a₁ b₀ b₁ : Int × Int) : Decidable (BoxesMeet a₀ a₁ b₀ b₁) :=
  inferInstanceAs (Decidable (_ ∧ _ ∧ _ ∧ _))

variable {q a b a₀ a₁ b₀ b₁ : Int × Int} {v w s t : Int}

theorem mean_bounds (left : 0 ≤ v) (right : 0 ≤ w) (x y : Int) :
    (v + w) * min x y ≤ v * x + w * y ∧ v * x + w * y ≤ (v + w) * max x y := by
  rw [add_mul, add_mul]
  constructor
  · exact add_le_add (mul_le_mul_of_nonneg_left (min_le_left x y) left)
      (mul_le_mul_of_nonneg_left (min_le_right x y) right)
  · exact add_le_add (mul_le_mul_of_nonneg_left (le_max_left x y) left)
      (mul_le_mul_of_nonneg_left (le_max_right x y) right)

/-- Two weights of a mean over a common denominator. -/
structure Weights (v w denominator : Int) : Prop where
  left : 0 ≤ v
  right : 0 ≤ w
  total : v + w = denominator

theorem boxesMeet_of_means {n : Int} (positive : 0 < n) (first : Weights v w n)
    (second : Weights s t n) (x : v * a₀.1 + w * a₁.1 = s * b₀.1 + t * b₁.1)
    (y : v * a₀.2 + w * a₁.2 = s * b₀.2 + t * b₁.2) : BoxesMeet a₀ a₁ b₀ b₁ := by
  have boundsA := mean_bounds first.left first.right
  have boundsB := mean_bounds second.left second.right
  rw [first.total] at boundsA
  rw [second.total] at boundsB
  refine ⟨?_, ?_, ?_, ?_⟩ <;> refine le_of_mul_le_mul_left ?_ positive
  · exact (boundsB b₀.1 b₁.1).1.trans (x ▸ (boundsA a₀.1 a₁.1).2)
  · exact (boundsA a₀.1 a₁.1).1.trans (x ▸ (boundsB b₀.1 b₁.1).2)
  · exact (boundsB b₀.2 b₁.2).1.trans (y ▸ (boundsA a₀.2 a₁.2).2)
  · exact (boundsA a₀.2 a₁.2).1.trans (y ▸ (boundsB b₀.2 b₁.2).2)

theorem BoxesMeet.symm (meet : BoxesMeet a₀ a₁ b₀ b₁) : BoxesMeet b₀ b₁ a₀ a₁ :=
  ⟨meet.2.1, meet.1, meet.2.2.2, meet.2.2.1⟩

/-- A point inside a segment is a mean of its ends, by how far along it lies. -/
theorem boxesMeet_of_inside (inside : Inside q a b) (listed : q = b₀ ∨ q = b₁) :
    BoxesMeet a b b₀ b₁ := by
  obtain ⟨level, ahead, short⟩ := inside
  have positive := ahead.trans short
  have along : Weights (dot (b - a) (b - a) - dot (q - a) (b - a)) (dot (q - a) (b - a))
      (dot (b - a) (b - a)) := ⟨sub_nonneg.mpr short.le, ahead.le, sub_add_cancel _ _⟩
  have x : (dot (b - a) (b - a) - dot (q - a) (b - a)) * a.1 + dot (q - a) (b - a) * b.1 =
      dot (b - a) (b - a) * q.1 := by
    simp only [cross, dot, Prod.fst_sub, Prod.snd_sub] at level ⊢
    linear_combination (b.2 - a.2) * level
  have y : (dot (b - a) (b - a) - dot (q - a) (b - a)) * a.2 + dot (q - a) (b - a) * b.2 =
      dot (b - a) (b - a) * q.2 := by
    simp only [cross, dot, Prod.fst_sub, Prod.snd_sub] at level ⊢
    linear_combination (a.1 - b.1) * level
  rcases listed with rfl | rfl
  · exact boxesMeet_of_means positive along ⟨positive.le, le_rfl, add_zero _⟩
      (by rw [x, zero_mul, add_zero]) (by rw [y, zero_mul, add_zero])
  · exact boxesMeet_of_means positive along ⟨le_rfl, positive.le, zero_add _⟩
      (by rw [x, zero_mul, zero_add]) (by rw [y, zero_mul, zero_add])

/-- The point where two segments cross is a mean of the ends of each, by how far these are from the
other segment. -/
theorem boxesMeet_of_crosses (crosses : Crosses a₀ a₁ b₀ b₁) : BoxesMeet a₀ a₁ b₀ b₁ := by
  obtain ⟨first, second⟩ := crosses
  have across : turn b₀ b₁ a₀ - turn b₀ b₁ a₁ = turn a₀ a₁ b₁ - turn a₀ a₁ b₀ := by
    simp only [turn, cross, Prod.fst_sub, Prod.snd_sub]
    ring
  have x : turn b₀ b₁ a₀ * a₁.1 - turn b₀ b₁ a₁ * a₀.1 =
      turn a₀ a₁ b₁ * b₀.1 - turn a₀ a₁ b₀ * b₁.1 := by
    simp only [turn, cross, Prod.fst_sub, Prod.snd_sub]
    ring
  have y : turn b₀ b₁ a₀ * a₁.2 - turn b₀ b₁ a₁ * a₀.2 =
      turn a₀ a₁ b₁ * b₀.2 - turn a₀ a₁ b₀ * b₁.2 := by
    simp only [turn, cross, Prod.fst_sub, Prod.snd_sub]
    ring
  -- Both weights are distances from the other segment, so their signs go with the side that `a₀` is on.
  unfold Opposed at first second
  rcases second with ⟨below, above⟩ | ⟨above, below⟩
  · exact boxesMeet_of_means (n := turn b₀ b₁ a₁ - turn b₀ b₁ a₀) (v := turn b₀ b₁ a₁)
      (w := -turn b₀ b₁ a₀) (s := -turn a₀ a₁ b₁) (t := turn a₀ a₁ b₀) (by omega)
      ⟨by omega, by omega, by omega⟩ ⟨by omega, by omega, by omega⟩ (by linarith) (by linarith)
  · exact boxesMeet_of_means (n := turn b₀ b₁ a₀ - turn b₀ b₁ a₁) (v := -turn b₀ b₁ a₁)
      (w := turn b₀ b₁ a₀) (s := turn a₀ a₁ b₁) (t := -turn a₀ a₁ b₀) (by omega)
      ⟨by omega, by omega, by omega⟩ ⟨by omega, by omega, by omega⟩ (by linarith) (by linarith)

/-- Segments with separate boxes have nothing to do with each other. -/
theorem apart_of_not_boxesMeet (separate : ¬ BoxesMeet a₀ a₁ b₀ b₁) :
    ¬ Inside b₀ a₀ a₁ ∧ ¬ Inside b₁ a₀ a₁ ∧ ¬ Inside a₀ b₀ b₁ ∧ ¬ Inside a₁ b₀ b₁ ∧
      ¬ Crosses a₀ a₁ b₀ b₁ :=
  ⟨fun inside => separate (boxesMeet_of_inside inside (.inl rfl)),
    fun inside => separate (boxesMeet_of_inside inside (.inr rfl)),
    fun inside => separate (boxesMeet_of_inside inside (.inl rfl)).symm,
    fun inside => separate (boxesMeet_of_inside inside (.inr rfl)).symm,
    fun crosses => separate (boxesMeet_of_crosses crosses)⟩

end Exact

private theorem toInt_min (a b : Int64) : (min a b).toInt = min a.toInt b.toInt := by
  change (if a ≤ b then a else b).toInt = _
  split
  · next ordered => exact (min_eq_left (Int64.le_iff_toInt_le.mp ordered)).symm
  · next reversed =>
      rw [Int64.le_iff_toInt_le, not_le] at reversed
      exact (min_eq_right reversed.le).symm

private theorem toInt_max (a b : Int64) : (max a b).toInt = max a.toInt b.toInt := by
  change (if a ≤ b then b else a).toInt = _
  split
  · next ordered => exact (max_eq_right (Int64.le_iff_toInt_le.mp ordered)).symm
  · next reversed =>
      rw [Int64.le_iff_toInt_le, not_le] at reversed
      exact (max_eq_left reversed.le).symm

/-- Boxes are compared without arithmetic, so nothing wraps around. -/
theorem boxesMeet_iff (e f : Edge) :
    boxesMeet e f = true ↔
      Exact.BoxesMeet e.source.exact e.target.exact f.source.exact f.target.exact := by
  simp only [boxesMeet, Bool.and_eq_true, decide_eq_true_eq, Int64.le_iff_toInt_le, toInt_min,
    toInt_max, and_assoc]
  rfl

/-! ## Splitting with other tests -/

namespace Sight

/-- Splits a ring, looking at all pairs of its edges. -/
def splitPlainly (sight : Sight) (ring : Ring) : List Edge := sight.split (fun _ _ => true) ring

/-- The comparisons in exact arithmetic, with whatever is answered where there is something. -/
def exact (fraction : Node → Node → Node → Float) (place : Edge → Edge → Float × Float × Node) :
    Sight where
  interior q a b :=
    if Exact.Inside q.exact a.exact b.exact then some (fraction q a b) else none
  crossing e f :=
    if Exact.Crosses e.source.exact e.target.exact f.source.exact f.target.exact then
      some (place e f)
    else none

end Sight

/-! ## Pairs that need no look -/

/-- Whether an edge leads from one of some grid points to another. -/
def Edge.Among (edge : Edge) (nodes : List Node) : Prop := edge.source ∈ nodes ∧ edge.target ∈ nodes

private theorem among_of_mem_edges {ring : Ring} {edge : Edge} (member : edge ∈ ring.edges) :
    edge.Among ring := by
  unfold Ring.edges at member
  rw [List.mem_iff_getElem?] at member
  obtain ⟨index, found⟩ := member
  obtain ⟨source, target, first, second, rfl⟩ := List.getElem?_zipWith_eq_some.mp found
  have follows := List.mem_of_getElem? second
  unfold Ring.following at follows
  refine ⟨List.mem_of_getElem? first, ?_⟩
  exact (List.mem_append.mp follows).elim List.mem_of_mem_drop List.mem_of_mem_take

namespace Sight

/-- Whether everything that is seen among some grid points is there in exact arithmetic. -/
structure Faithful (sight : Sight) (nodes : List Node) : Prop where
  interior : ∀ q ∈ nodes, ∀ e : Edge, e.Among nodes →
    (sight.interior q e.source e.target).isSome = true →
    Exact.Inside q.exact e.source.exact e.target.exact
  crossing : ∀ e f : Edge, e.Among nodes → f.Among nodes → (sight.crossing e f).isSome = true →
    Exact.Crosses e.source.exact e.target.exact f.source.exact f.target.exact

private theorem faithful_exact (fraction : Node → Node → Node → Float)
    (place : Edge → Edge → Float × Float × Node) (nodes : List Node) :
    (exact fraction place).Faithful nodes where
  interior _ _ _ _ seen := Option.isSome_ite.mp seen
  crossing _ _ _ _ seen := Option.isSome_ite.mp seen

section

variable {sight : Sight} {nodes : List Node} {e f : Edge}

theorem touches_eq_nil (faithful : sight.Faithful nodes) (amongE : e.Among nodes)
    (amongF : f.Among nodes)
    (first : ¬ Exact.Inside f.source.exact e.source.exact e.target.exact)
    (second : ¬ Exact.Inside f.target.exact e.source.exact e.target.exact) :
    sight.touches e f = [] := by
  have unseen : ∀ q ∈ nodes, ¬ Exact.Inside q.exact e.source.exact e.target.exact →
      sight.interior q e.source e.target = none := by
    intro q listed outside
    rw [← Option.not_isSome_iff_eq_none]
    exact mt (faithful.interior q listed e amongE) outside
  simp [touches, unseen _ amongF.1 first, unseen _ amongF.2 second]

theorem cuts_of_separate (faithful : sight.Faithful nodes) (amongE : e.Among nodes)
    (amongF : f.Among nodes) (separate : ¬ boxesMeet e f = true) :
    sight.touches e f = [] ∧ sight.touches f e = [] ∧ sight.crossing e f = none := by
  obtain ⟨first, second, third, fourth, across⟩ := Exact.apart_of_not_boxesMeet
    (mt (boxesMeet_iff e f).mpr separate)
  refine ⟨touches_eq_nil faithful amongE amongF first second,
    touches_eq_nil faithful amongF amongE third fourth, ?_⟩
  rw [← Option.not_isSome_iff_eq_none]
  exact mt (faithful.crossing e f amongE amongF) across

private theorem cutsByLater_eq (faithful : sight.Faithful nodes) (amongE : e.Among nodes)
    (amongF : f.Among nodes) :
    sight.cutsByLater boxesMeet e f = sight.cutsByLater (fun _ _ => true) e f := by
  unfold cutsByLater
  split
  · rfl
  · next separate =>
      obtain ⟨untouched, _, uncrossed⟩ := cuts_of_separate faithful amongE amongF separate
      simp [untouched, uncrossed]

private theorem cutsByEarlier_eq (faithful : sight.Faithful nodes) (amongE : e.Among nodes)
    (amongF : f.Among nodes) :
    sight.cutsByEarlier boxesMeet e f = sight.cutsByEarlier (fun _ _ => true) e f := by
  unfold cutsByEarlier
  split
  · rfl
  · next separate =>
      -- An earlier edge is the first of the pair that is looked at.
      obtain ⟨_, untouched, uncrossed⟩ := cuts_of_separate faithful amongF amongE separate
      simp [untouched, uncrossed]

/-- A ring is split in the same way if no pair of edges is passed over. -/
theorem splitFrom_eq (faithful : sight.Faithful nodes) {earlier edges : List Edge}
    (amongEarlier : ∀ edge ∈ earlier, edge.Among nodes) (among : ∀ edge ∈ edges, edge.Among nodes) :
    sight.splitFrom boxesMeet earlier edges = sight.splitFrom (fun _ _ => true) earlier edges := by
  induction edges generalizing earlier with
  | nil => rfl
  | cons edge later ih =>
      obtain ⟨amongEdge, amongLater⟩ := List.forall_mem_cons.mp among
      have before : earlier.reverse.flatMap (sight.cutsByEarlier boxesMeet edge) =
          earlier.reverse.flatMap (sight.cutsByEarlier (fun _ _ => true) edge) :=
        List.flatMap_congr fun other member =>
          cutsByEarlier_eq faithful amongEdge (amongEarlier other (List.mem_reverse.mp member))
      have behind : later.flatMap (sight.cutsByLater boxesMeet edge) =
          later.flatMap (sight.cutsByLater (fun _ _ => true) edge) :=
        List.flatMap_congr fun other member =>
          cutsByLater_eq faithful amongEdge (amongLater other member)
      rw [splitFrom, splitFrom, before, behind,
        ih (List.forall_mem_cons.mpr ⟨amongEdge, amongEarlier⟩) amongLater]

end

theorem split_eq {sight : Sight} {ring : Ring} (faithful : sight.Faithful ring) :
    sight.split boxesMeet ring = sight.splitPlainly ring :=
  splitFrom_eq faithful (fun _ member => nomatch member) fun _ => among_of_mem_edges

end Sight

/-! ## The grid -/

theorem zero_lt_ofWord_iff (word : Int64) : 0 < Scalar.ofWord word ↔ 0 < word.toInt := by
  have fits := (fits_ofWord word).mono (by norm_num : (13 : Int) ≤ 971)
  rw [Doubles.lt_iff Doubles.between_zero.fits fits, Doubles.value_zero]
  unfold Scalar.ofWord
  split
  · next negative =>
      rw [Int64.lt_iff_toInt_lt, Int64.toInt_zero] at negative
      obtain ⟨fits, rounds⟩ := Doubles.rounds_toFloat (-word).toUInt64
      rw [Doubles.value_neg fits]
      have nonneg := rounds.nonneg (by positivity)
      exact iff_of_false (by linarith) (by omega)
  · next nonneg =>
      rw [Int64.lt_iff_toInt_lt, Int64.toInt_zero] at nonneg
      rw [Doubles.value_toFloat_pos_iff,
        Int64.toNat_toUInt64_of_le (Int64.le_iff_toInt_le.mpr (by rw [Int64.toInt_zero]; omega)),
        ← Int64.toNat_toInt]
      omega

theorem opposed_of_ofWord {v w : Int64} (first : ¬ (Scalar.ofWord v == 0) = true)
    (second : ¬ (Scalar.ofWord w == 0) = true)
    (apart : ¬ (decide (Scalar.ofWord v > 0) == decide (Scalar.ofWord w > 0)) = true) :
    Exact.Opposed v.toInt w.toInt := by
  have nonzero : ∀ word : Int64, ¬ (Scalar.ofWord word == 0) = true → word.toInt ≠ 0 := by
    intro word unlike zero
    rw [← Int64.toInt_zero, Int64.toInt_inj] at zero
    rw [zero] at unlike
    exact unlike (by decide +kernel)
  have leftNonzero := nonzero v first
  have rightNonzero := nonzero w second
  rw [beq_iff_eq, decide_eq_decide, gt_iff_lt, gt_iff_lt, zero_lt_ofWord_iff,
    zero_lt_ofWord_iff] at apart
  unfold Exact.Opposed
  omega

private theorem crosses_of_properCrossing {e f : Edge} (sourceE : e.source.OnGrid)
    (targetE : e.target.OnGrid) (sourceF : f.source.OnGrid) (targetF : f.target.OnGrid)
    (seen : (properCrossing e f).isSome = true) :
    Exact.Crosses e.source.exact e.target.exact f.source.exact f.target.exact := by
  unfold properCrossing at seen
  dsimp only at seen
  split at seen
  · cases seen
  · next across =>
      simp only [Bool.or_eq_true, not_or] at across
      obtain ⟨⟨⟨⟨⟨first, second⟩, third⟩, fourth⟩, sidesF⟩, sidesE⟩ := across
      have opposedF := opposed_of_ofWord first second sidesF
      have opposedE := opposed_of_ofWord third fourth sidesE
      rw [toInt_orientation sourceE targetE sourceF, toInt_orientation sourceE targetE targetF]
        at opposedF
      rw [toInt_orientation sourceF targetF sourceE, toInt_orientation sourceF targetF targetE]
        at opposedE
      exact ⟨opposedF, opposedE⟩

/-- On the grid, words see nothing that is not there. -/
theorem faithful_words {nodes : List Node} (grid : ∀ node ∈ nodes, node.OnGrid) :
    Sight.words.Faithful nodes where
  interior q listed e among seen := by
    -- Nothing is seen inside a diagonal of the grid, where words are not exact.
    by_cases corners : Opposite e.source e.target
    · change (interior q e.source e.target).isSome = true at seen
      rw [interior_of_opposite (grid _ among.1) (grid _ among.2) corners] at seen
      cases seen
    · exact (interior_iff_inside (grid q listed) (grid _ among.1) (grid _ among.2) corners).mp seen
  crossing e f amongE amongF seen :=
    crosses_of_properCrossing (grid _ amongE.1) (grid _ amongE.2) (grid _ amongF.1)
      (grid _ amongF.2) seen

/-- Passing over edges with separate boxes loses no cut. For all points with whole coordinates, if the
boxes around two segments are apart, no end of one lies inside the other and they do not cross, and
that is what is tested of two edges. So a ring is split into the same pieces whether or not separate
pairs are passed over: if points and edges are compared in exact arithmetic, for every ring, and in
words, for every ring on the grid. -/
theorem split_without_boxes :
    (∀ a₀ a₁ b₀ b₁ : Int × Int, ¬ Exact.BoxesMeet a₀ a₁ b₀ b₁ →
      ¬ Exact.Inside b₀ a₀ a₁ ∧ ¬ Exact.Inside b₁ a₀ a₁ ∧ ¬ Exact.Inside a₀ b₀ b₁ ∧
        ¬ Exact.Inside a₁ b₀ b₁ ∧ ¬ Exact.Crosses a₀ a₁ b₀ b₁) ∧
    (∀ e f : Edge, boxesMeet e f = true ↔
      Exact.BoxesMeet e.source.exact e.target.exact f.source.exact f.target.exact) ∧
    (∀ fraction place, ∀ ring : Ring, (Sight.exact fraction place).split boxesMeet ring =
      (Sight.exact fraction place).splitPlainly ring) ∧
    ∀ ring : Ring, (∀ node ∈ ring, node.OnGrid) → split ring = Sight.words.splitPlainly ring := by
  refine ⟨fun _ _ _ _ => Exact.apart_of_not_boxesMeet, boxesMeet_iff, ?_, ?_⟩
  · intro fraction place ring
    exact Sight.split_eq (Sight.faithful_exact fraction place ring)
  · intro ring grid
    exact Sight.split_eq (faithful_words grid)

/-- A ring whose first and third edges cross, and whose second and fourth edges have separate boxes. -/
theorem split_without_boxes_bow :
    ¬ Exact.BoxesMeet (3, 3) (3, 0) (0, 3) (0, 0) ∧ ¬ Exact.Crosses (3, 3) (3, 0) (0, 3) (0, 0) ∧
      (∀ node ∈ [Node.mk 0 0, ⟨3, 3⟩, ⟨3, 0⟩, ⟨0, 3⟩], node.OnGrid) ∧
      split [⟨0, 0⟩, ⟨3, 3⟩, ⟨3, 0⟩, ⟨0, 3⟩] =
        Sight.words.splitPlainly [⟨0, 0⟩, ⟨3, 3⟩, ⟨3, 0⟩, ⟨0, 3⟩] := by
  obtain ⟨apart, _, _, onGrid⟩ := split_without_boxes
  have separate : ¬ Exact.BoxesMeet (3, 3) (3, 0) (0, 3) (0, 0) := by decide
  have grid : ∀ node ∈ [Node.mk 0 0, ⟨3, 3⟩, ⟨3, 0⟩, ⟨0, 3⟩], node.OnGrid := by decide +kernel
  exact ⟨separate, (apart _ _ _ _ separate).2.2.2.2, grid, onGrid _ grid⟩

end Kerf.Outline
