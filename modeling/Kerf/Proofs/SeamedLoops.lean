import Kerf.Proofs.CleanRings
import Mathlib.Data.List.Rotate

/-!
# The loops of an offset outline and their seams

The loops of an offset outline are accepted one by one, and then each of them is started at another
point, they are put in order, laid back on the plane and closed. None of these steps adds, drops or
changes a vertex.

Main statement: `offset_loops`. An offset by zero gives back the cleaned ring, or the line without
repeated points, and any other offset gives exactly the loops that were accepted.
-/

set_option autoImplicit false

namespace Kerf.Outline

open Kerf.Scalar

/-! ## Order and seams -/

private theorem isRotated_reseam (ring : Ring) (start : Node) : ring ~r ring.reseam start := by
  have turned : (ring.take (ring.nearestIndex start) ++ ring.drop (ring.nearestIndex start)) ~r
      ring.reseam start :=
    List.isRotated_append
  rwa [List.take_append_drop] at turned

private theorem perm_order (loops : List Ring) (start : Node) :
    (order loops start).Perm (loops.map fun loop => loop.reseam start) := by
  have sorted := (Sorting.perm_byInsertion (fun p q : Ring × Float => p.2 < q.2)
    (loops.map fun loop => (loop.reseam start,
      (((loop.reseam start).head?.map (·.distanceSquared start)).getD 0)))).map Prod.fst
  rwa [List.map_map] at sorted

/-- Whether outlines are some loops of the grid laid back on the plane, in any order: each one is a
loop from one of its points on, with that point repeated at the end. -/
structure Seamed (grid : Grid) (loops : List Ring) (outlines : List (List Planar)) : Prop where
  closed : ∀ outline ∈ outlines, 2 ≤ outline.length ∧ outline.head? = outline.getLast?
  vertices : ∃ turned : List Ring, List.Forall₂ List.IsRotated loops turned ∧
    (outlines.map List.dropLast).Perm (turned.map fun ring => ring.map grid.place)

theorem closedLoop_cons (grid : Grid) (first : Node) (rest : List Node) :
    grid.closedLoop (first :: rest) =
      (grid.place first :: rest.map grid.place) ++ [grid.place first] := by
  simp [Grid.closedLoop]

private theorem dropLast_closedLoop (grid : Grid) (ring : Ring) :
    (grid.closedLoop ring).dropLast = ring.map grid.place := by
  cases ring with
  | nil => rfl
  | cons first rest => rw [closedLoop_cons, List.dropLast_concat, List.map_cons]

theorem seamed_order (grid : Grid) {loops : List Ring} (start : Node)
    (nonempty : ∀ loop ∈ loops, loop ≠ []) :
    Seamed grid loops ((order loops start).map grid.closedLoop) := by
  refine ⟨fun outline member => ?_, loops.map fun loop => loop.reseam start, ?_, ?_⟩
  · obtain ⟨ring, ordered, rfl⟩ := List.mem_map.mp member
    obtain ⟨source, listed, rfl⟩ := exists_of_mem_order ordered
    have points : source.reseam start ≠ [] := by
      apply List.ne_nil_of_length_pos
      rw [Ring.length_reseam]
      exact List.length_pos_iff.mpr (nonempty source listed)
    obtain ⟨first, rest, known⟩ := List.exists_cons_of_ne_nil points
    rw [known, closedLoop_cons, List.getLast?_concat]
    simp
  · rw [List.forall₂_map_right_iff]
    exact List.forall₂_same.mpr fun loop _ => isRotated_reseam loop start
  · have placed : (List.dropLast ∘ grid.closedLoop) = List.map grid.place :=
      funext (dropLast_closedLoop grid)
    rw [List.map_map, placed]
    exact (perm_order loops start).map _

theorem Seamed.singleton {grid : Grid} {ring : Ring} {outlines : List (List Planar)}
    (seamed : Seamed grid [ring] outlines) :
    ∃ outline turned, outlines = [outline] ∧ ring ~r turned ∧
      outline.dropLast = turned.map grid.place ∧ outline.head? = outline.getLast? := by
  obtain ⟨_, rotated, placed⟩ := seamed.vertices
  obtain ⟨turned, _, same, nothing, rfl⟩ := List.forall₂_cons_left_iff.mp rotated
  cases nothing
  rw [List.map_singleton, List.perm_singleton] at placed
  obtain ⟨outline, rfl, known⟩ := List.map_eq_singleton_iff.mp placed
  exact ⟨outline, turned, rfl, same, known, (seamed.closed outline (by simp)).2⟩

/-! ## Whole outlines -/

/-- Whether a ring has no inside: too few points, or no area. -/
def Ring.Collapsed (ring : Ring) : Prop := ring.length < 3 ∨ ring.doubleArea == 0

/-- The loops of a raw curve that keep clear of the segments it was moved away from. -/
def accepted (raw : Ring) (counterClockwise : Bool) (segments : List Edge)
    (distance tolerance : Float) : List Ring :=
  (resolve raw counterClockwise).filter fun loop => keepsClear loop segments distance tolerance

/-- What is accepted of a ring. For a move to its right it is turned round, and its loops back again. -/
def acceptedOf (ring : Ring) (amount distance step tolerance : Float) : List Ring :=
  let around (side : Ring) : List Ring :=
    accepted (offsetLeft side distance step) (side.doubleArea > 0) side.edges distance tolerance
  if (ring.doubleArea > 0) == (amount > 0) then (around ring.reverse).map List.reverse
  else around ring

/-- What is accepted around a line: the circle of a single point, or loops of the way out and back. -/
def acceptedAround (line : List Node) (distance step tolerance : Float) : List Ring :=
  match line with
  | [only] => [circle only distance step]
  | line =>
      let raw := Ring.clean (offsetLeft (line ++ (line.drop 1).dropLast.reverse) distance step)
      accepted raw (raw.doubleArea > 0) (List.zipWith Edge.mk line (line.drop 1)) distance tolerance

private theorem offsetClosed_eq (ring : Ring) (amount distance step tolerance : Float) :
    offsetClosed ring amount distance step tolerance =
      acceptedOf ring amount distance step tolerance := by
  unfold offsetClosed acceptedOf
  dsimp only
  cases (decide (ring.doubleArea > 0) == decide (amount > 0)) with
  | true => rfl
  | false => exact List.map_id _

private theorem ne_nil_of_mem_acceptedAround {line : List Node} {distance step tolerance : Float}
    {loop : Ring} (member : loop ∈ acceptedAround line distance step tolerance) : loop ≠ [] := by
  unfold acceptedAround at member
  split at member
  · rw [List.mem_singleton.mp member]
    exact circle_ne_nil _ _ _
  · have three := three_le_of_mem_resolve (List.mem_filter.mp member).1
    exact List.ne_nil_of_length_pos (by omega)

section

variable (first : Planar) (rest : List Planar) (amount tolerance : Float)

private theorem offset_open :
    offset (first :: rest) false amount tolerance =
      let grid := Grid.around first rest amount
      let line := Ring.dedupe ((first :: rest).map grid.snap)
      let distance := amount.abs * grid.scale
      let slack := Scalar.max tolerance 1e-9 * grid.scale
      if amount == 0 then [line.map grid.place]
      else (order (acceptedAround line distance (arcStep distance slack) slack)
        (grid.snap first)).map grid.closedLoop := by
  simp only [offset, Bool.false_eq_true, ↓reduceIte]
  split
  · rfl
  · generalize Ring.dedupe _ = line
    rcases line with _ | ⟨only, _ | ⟨second, others⟩⟩ <;> rfl

/-- Moving an outline changes no loop and loses none. A closed outline that collapsed has no loop. One
that is moved by nothing comes back as its clean ring, in the same direction, started at some point and
closed, and an open one as its points without repeats, all on the grid. Otherwise the loops are exactly
those that keep clear of the outline, or the circle of a single point, each started at some point and
closed, in some order. -/
theorem offset_loops :
    let grid := Grid.around first rest amount
    let nodes := (first :: rest).map grid.snap
    let ring := Ring.clean nodes
    let line := nodes.destutter (· ≠ ·)
    let distance := amount.abs * grid.scale
    let slack := Scalar.max tolerance 1e-9 * grid.scale
    let step := arcStep distance slack
    let outlines := fun closed => offset (first :: rest) closed amount tolerance
    (ring.Collapsed → outlines true = []) ∧
      (¬ ring.Collapsed → amount == 0 → ∃ outline turned, outlines true = [outline] ∧
        ring ~r turned ∧ outline.dropLast = turned.map grid.place ∧
        outline.head? = outline.getLast?) ∧
      (¬ ring.Collapsed → ¬ amount == 0 →
        Seamed grid (acceptedOf ring amount distance step slack) (outlines true)) ∧
      (amount == 0 → outlines false = [line.map grid.place]) ∧
      (¬ amount == 0 → Seamed grid (acceptedAround line distance step slack) (outlines false)) := by
  intro grid nodes ring line distance slack step outlines
  have deduped : Ring.dedupe nodes = line := dedupe_eq_destutter nodes
  have collapses : (ring.length < 3 || ring.doubleArea == 0) = true ↔ ring.Collapsed := by
    rw [Bool.or_eq_true, decide_eq_true_eq]
    rfl
  have ofClosed : outlines true = if ring.length < 3 || ring.doubleArea == 0 then []
      else if amount == 0 then (order [ring] (grid.snap first)).map grid.closedLoop
      else (order (offsetClosed ring amount distance step slack) (grid.snap first)).map
        grid.closedLoop := rfl
  have ofOpen := offset_open first rest amount tolerance
  refine ⟨fun collapsed => ?_, fun wide zero => ?_, fun wide moved => ?_, fun zero => ?_,
    fun moved => ?_⟩
  · rw [ofClosed, if_pos (collapses.mpr collapsed)]
  · rw [ofClosed, if_neg (mt collapses.mp wide), if_pos zero]
    refine (seamed_order grid (grid.snap first) fun loop only => ?_).singleton
    rw [List.mem_singleton.mp only]
    rintro none
    exact wide (.inl (by simp [none]))
  · rw [ofClosed, if_neg (mt collapses.mp wide), if_neg moved, ← offsetClosed_eq]
    refine seamed_order grid (grid.snap first) fun loop listed => ?_
    have three := three_le_of_mem_offsetClosed listed
    exact List.ne_nil_of_length_pos (by omega)
  · change offset (first :: rest) false amount tolerance = _
    rw [ofOpen]
    dsimp only
    rw [if_pos zero, deduped]
  · change Seamed grid _ (offset (first :: rest) false amount tolerance)
    rw [ofOpen]
    dsimp only
    rw [if_neg moved, deduped]
    exact seamed_order grid (grid.snap first) fun loop => ne_nil_of_mem_acceptedAround

end

/-- A square that is closed by its first point. -/
def closedSquare : List Planar := [⟨0, 0⟩, ⟨2, 0⟩, ⟨2, 2⟩, ⟨0, 2⟩, ⟨0, 0⟩]

theorem offset_loops_closedSquare :
    ¬ (Ring.clean (closedSquare.map
        (Grid.around ⟨0, 0⟩ closedSquare.tail 0).snap)).Collapsed ∧
      (∃ outline turned, offset closedSquare true 0 0.1 = [outline] ∧
        Ring.clean (closedSquare.map (Grid.around ⟨0, 0⟩ closedSquare.tail 0).snap) ~r turned ∧
        outline.dropLast = turned.map (Grid.around ⟨0, 0⟩ closedSquare.tail 0).place ∧
        outline.head? = outline.getLast?) := by
  have wide : ¬ (Ring.clean (closedSquare.map
      (Grid.around ⟨0, 0⟩ closedSquare.tail 0).snap)).Collapsed := by
    unfold Ring.Collapsed
    decide +kernel
  exact ⟨wide, (offset_loops ⟨0, 0⟩ closedSquare.tail 0 0.1).2.1 wide (by decide +kernel)⟩

end Kerf.Outline
