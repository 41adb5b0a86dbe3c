import Kerf.Outline.Offset

/-!
# Loops of an offset outline

However an outline is moved sideways, each loop that is left has points: what is chained, cleaned and
kept has at least three, a circle has one for each step of its arc, and turning a loop to another
start or sorting loops by distance drops none.
-/

set_option autoImplicit false

namespace Kerf

/-! ## Sorting -/

namespace Sorting

variable {α : Type} (before : α → α → Bool)

private theorem perm_insertBack (entry : α) (entries : List α) :
    (insertBack before entry entries).Perm (entry :: entries) := by
  induction entries with
  | nil => exact .refl _
  | cons last rest ih =>
      unfold insertBack
      split
      · exact (ih.cons last).trans (.swap entry last rest)
      · exact .refl _

private theorem perm_foldl_insertBack (entries sorted : List α) :
    (entries.foldl (fun sorted entry => insertBack before entry sorted) sorted).Perm
      (entries ++ sorted) := by
  induction entries generalizing sorted with
  | nil => exact .refl _
  | cons entry rest ih =>
      exact (ih _).trans (((perm_insertBack before entry sorted).append_left rest).trans
        List.perm_middle)

/-- Sorting keeps every entry, whatever the comparison answers. -/
theorem perm_byInsertion (entries : List α) : (byInsertion before entries).Perm entries := by
  have kept := perm_foldl_insertBack before entries []
  rw [List.append_nil] at kept
  exact (List.reverse_perm _).trans kept

end Sorting

namespace Outline

open Kerf.Scalar

/-! ## Rings -/

theorem Ring.dedupe_ne_nil {nodes : List Node} (nonempty : nodes ≠ []) : Ring.dedupe nodes ≠ [] := by
  fun_induction Ring.dedupe nodes with
  | case1 a rest ih => exact ih (List.cons_ne_nil a rest)
  | case2 a b rest different ih => exact List.cons_ne_nil a _
  | case3 short => exact nonempty

@[simp] theorem Ring.length_reseam (ring : Ring) (start : Node) :
    (ring.reseam start).length = ring.length := by
  simp only [Ring.reseam, List.length_append, List.length_drop, List.length_take]
  omega

theorem circle_ne_nil (center : Node) (radius step : Float) : circle center radius step ≠ [] := by
  have counted : 1 ≤ arcSteps turn step := by
    unfold arcSteps
    dsimp only
    split <;> omega
  apply List.ne_nil_of_length_pos
  simp only [circle, arc, List.length_dropLast, List.length_map, List.length_range]
  omega

/-! ## Loops -/

theorem three_le_of_mem_resolve {raw : Ring} {counterClockwise : Bool} {loop : Ring}
    (member : loop ∈ resolve raw counterClockwise) : 3 ≤ loop.length := by
  unfold resolve at member
  dsimp only at member
  split at member
  · cases member
  · obtain ⟨ring, _, kept⟩ := List.mem_filterMap.mp member
    split at kept
    · cases kept
    · next large =>
        have three : 3 ≤ ring.length := by
          rw [Bool.or_eq_true, not_or, decide_eq_true_eq] at large
          omega
        cases kept
        split
        · exact three
        · rwa [List.length_reverse]

theorem three_le_of_mem_offsetClosed {ring : Ring} {amount distance step tolerance : Float}
    {loop : Ring} (member : loop ∈ offsetClosed ring amount distance step tolerance) :
    3 ≤ loop.length := by
  obtain ⟨kept, listed, rfl⟩ := List.mem_map.mp member
  have three := three_le_of_mem_resolve (List.mem_filter.mp listed).1
  split
  · rwa [List.length_reverse]
  · exact three

private theorem three_le_of_mem_offsetOpen {line : List Node} {distance step tolerance : Float}
    {loop : Ring} (member : loop ∈ offsetOpen line distance step tolerance) : 3 ≤ loop.length :=
  three_le_of_mem_resolve (List.mem_filter.mp member).1

theorem exists_of_mem_order {loops : List Ring} {start : Node} {loop : Ring}
    (member : loop ∈ order loops start) : ∃ source ∈ loops, loop = source.reseam start := by
  obtain ⟨seamed, sorted, rfl⟩ := List.mem_map.mp member
  obtain ⟨source, listed, rfl⟩ :=
    List.mem_map.mp ((Sorting.perm_byInsertion _ _).mem_iff.mp sorted)
  exact ⟨source, listed, rfl⟩

private theorem closedLoop_ne_nil (grid : Grid) {ring : Ring} (nonempty : ring ≠ []) :
    grid.closedLoop ring ≠ [] := by
  cases ring with
  | nil => exact absurd rfl nonempty
  | cons node rest => simp [Grid.closedLoop]

/-- Loops with points have points when they have been put in order and laid back on the plane. -/
theorem ne_nil_of_mem_ordered {grid : Grid} {loops : List Ring} {start : Node}
    (nonempty : ∀ loop ∈ loops, loop ≠ []) {loop : List Planar}
    (member : loop ∈ (order loops start).map grid.closedLoop) : loop ≠ [] := by
  obtain ⟨ring, ordered, rfl⟩ := List.mem_map.mp member
  obtain ⟨source, listed, rfl⟩ := exists_of_mem_order ordered
  apply closedLoop_ne_nil
  apply List.ne_nil_of_length_pos
  rw [Ring.length_reseam]
  exact List.length_pos_iff.mpr (nonempty source listed)

/-- No loop of a moved outline is empty. -/
theorem ne_nil_of_mem_offset {points : List Planar} {closed : Bool} {amount tolerance : Float}
    {loop : List Planar} (member : loop ∈ offset points closed amount tolerance) : loop ≠ [] := by
  have large : ∀ ring : Ring, 3 ≤ ring.length → ring ≠ [] := by
    intro ring three
    exact List.ne_nil_of_length_pos (by omega)
  unfold offset at member
  split at member
  · cases member
  · next first rest =>
      dsimp only at member
      split at member
      · split at member
        · cases member
        · next kept =>
            have three : 3 ≤ (Ring.clean ((first :: rest).map
                (Grid.around first rest amount).snap)).length := by
              rw [Bool.or_eq_true, not_or, decide_eq_true_eq] at kept
              omega
            split at member
            · refine ne_nil_of_mem_ordered ?_ member
              intro ring only
              rw [List.mem_singleton.mp only]
              exact large _ three
            · exact ne_nil_of_mem_ordered
                (fun ring listed => large ring (three_le_of_mem_offsetClosed listed)) member
      · split at member
        · have line : Ring.dedupe ((first :: rest).map (Grid.around first rest amount).snap) ≠ [] :=
            Ring.dedupe_ne_nil (by simp)
          rw [List.mem_singleton.mp member]
          simpa using line
        · split at member
          · refine ne_nil_of_mem_ordered ?_ member
            intro ring only
            rw [List.mem_singleton.mp only]
            exact circle_ne_nil _ _ _
          · exact ne_nil_of_mem_ordered
              (fun ring listed => large ring (three_le_of_mem_offsetOpen listed)) member

end Outline

end Kerf
