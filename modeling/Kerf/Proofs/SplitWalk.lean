import Kerf.Proofs.ClosedTours

/-!
# The closed walk of a split ring

Splitting replaces each edge of a ring by a walk through its cuts. Such a walk starts and ends where
the edge does, wherever the cuts lie and in whatever order they come, because a step of no length is
left out and the next step starts at the place that was reached. The walks of a ring's edges
therefore join to one walk around the ring.

Main statement: `split_goesRound`. The pieces of a split ring have a length each, lead from vertex to
vertex of the ring in its order and back to the first one, and as many of them leave each grid point
as enter it.
-/

set_option autoImplicit false

namespace Kerf.Outline

/-! ## Walks -/

private theorem leads_walk (source target : Node) (cuts : List Cut) :
    Leads source target (walk source target cuts) := by
  induction cuts generalizing source with
  | nil =>
      unfold walk
      split
      · next same => exact same.symm
      · exact ⟨rfl, rfl⟩
  | cons cut rest ih =>
      unfold walk
      split
      · exact ih source
      · exact ⟨rfl, ih cut.place⟩

private theorem source_ne_target_of_mem_walk {source target : Node} {cuts : List Cut} {edge : Edge}
    (member : edge ∈ walk source target cuts) : edge.source ≠ edge.target := by
  induction cuts generalizing source with
  | nil =>
      unfold walk at member
      split at member
      · cases member
      · next apart =>
          rw [List.mem_singleton.mp member]
          exact Ne.symm apart
  | cons cut rest ih =>
      unfold walk at member
      split at member
      · exact ih member
      · next apart =>
          rcases List.mem_cons.mp member with rfl | later
          · exact Ne.symm apart
          · exact ih later

theorem Leads.append {source middle target : Node} {front back : List Edge}
    (first : Leads source middle front) (second : Leads middle target back) :
    Leads source target (front ++ back) := by
  induction front generalizing source with
  | nil =>
      obtain rfl : source = middle := first
      exact second
  | cons edge rest ih => exact ⟨first.1, ih first.2⟩

/-- Whether a walk can stand for an edge: it starts and ends where the edge does, and none of its
steps has no length. -/
structure Replaces (edge : Edge) (leg : List Edge) : Prop where
  leads : Leads edge.source edge.target leg
  proper : ∀ step ∈ leg, step.source ≠ step.target

private theorem replaces_walk (edge : Edge) (cuts : List Cut) :
    Replaces edge (walk edge.source edge.target cuts) :=
  ⟨leads_walk _ _ cuts, fun _ => source_ne_target_of_mem_walk⟩

theorem Leads.replace {source target : Node} {edges : List Edge} {legs : List (List Edge)}
    (leads : Leads source target edges) (replaced : List.Forall₂ Replaces edges legs) :
    Leads source target legs.flatten := by
  induction replaced generalizing source with
  | nil => exact leads
  | cons standsFor _ ih =>
      obtain ⟨rfl, later⟩ := leads
      exact standsFor.leads.append (ih later)

private theorem source_ne_target_of_replaced {edges : List Edge} {legs : List (List Edge)}
    (replaced : List.Forall₂ Replaces edges legs) :
    ∀ step ∈ legs.flatten, step.source ≠ step.target := by
  induction replaced with
  | nil => exact fun _ member => nomatch member
  | cons standsFor _ ih =>
      rw [List.flatten_cons]
      exact List.forall_mem_append.mpr ⟨standsFor.proper, ih⟩

/-- A walk enters and leaves each grid point equally often, but for its two ends. -/
theorem Leads.balancedBut {source target : Node} {edges : List Edge}
    (leads : Leads source target edges) : BalancedBut target source edges := by
  intro node
  induction edges generalizing source with
  | nil =>
      obtain rfl : source = target := leads
      rfl
  | cons edge rest ih =>
      obtain ⟨rfl, later⟩ := leads
      have counted := ih later
      rw [List.countP_cons, List.countP_cons]
      simp only [decide_eq_true_eq]
      omega

theorem Leads.balanced {node : Node} {edges : List Edge} (leads : Leads node node edges) :
    Balanced edges := fun other => Nat.add_right_cancel (leads.balancedBut other)

/-! ## Rings -/

private theorem leads_zipWith_tail (first last : Node) (rest : List Node) :
    Leads first last (List.zipWith Edge.mk (first :: rest) (rest ++ [last])) := by
  induction rest generalizing first with
  | nil => exact ⟨rfl, rfl⟩
  | cons second rest ih => exact ⟨rfl, ih second⟩

private theorem leads_edges (first : Node) (rest : List Node) :
    Leads first first (Ring.edges (first :: rest)) :=
  leads_zipWith_tail first first rest

/-- Whether edges go once around a ring as one closed walk. -/
structure GoesRound (ring : Ring) (edges : List Edge) : Prop where
  proper : ∀ edge ∈ edges, edge.source ≠ edge.target
  /-- Each edge ends where the next one starts, and the last one where the first one starts. -/
  linked : ∀ (index : Nat) (edge : Edge), edges[index]? = some edge →
    (edges.map (·.source))[(index + 1) % edges.length]? = some edge.target
  /-- The edges are one walk for each vertex of the ring, in ring order, to the vertex after it. -/
  ordered : ∃ legs : List (List Edge), legs.flatten = edges ∧
    List.Forall₂ (fun (side : Edge) leg => Leads side.source side.target leg) ring.edges legs
  balanced : Balanced edges

theorem Leads.linked {node : Node} {edges : List Edge} (leads : Leads node node edges) {index : Nat}
    {edge : Edge} (found : edges[index]? = some edge) :
    (edges.map (·.source))[(index + 1) % edges.length]? = some edge.target := by
  obtain ⟨within, rfl⟩ := List.getElem?_eq_some_iff.mp found
  have round : Round edges.get (List.finRange edges.length) (edges.map (·.source)) := by
    refine ⟨?_, by rw [List.map_get_finRange], node, by rwa [List.map_get_finRange]⟩
    exact List.ne_nil_of_length_pos (by rw [List.length_finRange]; omega)
  have next := (round.along.step index ⟨index, within⟩ (by simp [within])).2
  rwa [List.length_map] at next

private theorem goesRound_flatten {ring : Ring} {legs : List (List Edge)}
    (replaced : List.Forall₂ Replaces ring.edges legs) : GoesRound ring legs.flatten := by
  have closed : ∃ node, Leads node node legs.flatten := by
    cases ring with
    | nil =>
        cases replaced
        exact ⟨default, rfl⟩
    | cons first rest => exact ⟨first, (leads_edges first rest).replace replaced⟩
  obtain ⟨node, leads⟩ := closed
  exact ⟨source_ne_target_of_replaced replaced, fun _ _ => leads.linked,
    ⟨legs, rfl, replaced.imp fun _ _ standsFor => standsFor.leads⟩, leads.balanced⟩

/-! ## Splitting -/

/-- The walk around a ring through given cuts of the edge at each position. -/
def Ring.walkThrough (ring : Ring) (cuts : Nat → List Cut) : List Edge :=
  (ring.edges.mapIdx fun index edge => walk edge.source edge.target (cuts index)).flatten

private theorem replaces_mapIdx_walk (edges : List Edge) (cuts : Nat → List Cut) :
    List.Forall₂ Replaces edges
      (edges.mapIdx fun index edge => walk edge.source edge.target (cuts index)) := by
  induction edges generalizing cuts with
  | nil => exact .nil
  | cons edge later ih =>
      rw [List.mapIdx_cons]
      exact .cons (replaces_walk edge (cuts 0)) (ih fun index => cuts (index + 1))

private theorem exists_cuts_splitFrom (sight : Sight) (looks : Edge → Edge → Bool)
    (earlier edges : List Edge) : ∃ cuts : Nat → List Cut, sight.splitFrom looks earlier edges =
      (edges.mapIdx fun index edge => walk edge.source edge.target (cuts index)).flatten := by
  induction edges generalizing earlier with
  | nil => exact ⟨fun _ => [], rfl⟩
  | cons edge later ih =>
      obtain ⟨cuts, split⟩ := ih (edge :: earlier)
      refine ⟨fun index => index.casesOn (Sorting.byInsertion (fun c d => c.fraction < d.fraction)
        (earlier.reverse.flatMap (sight.cutsByEarlier looks edge) ++
          later.flatMap (sight.cutsByLater looks edge))) cuts, ?_⟩
      rw [List.mapIdx_cons, List.flatten_cons]
      exact congrArg (_ ++ ·) split

/-- Splitting a ring at its crossings keeps it closed. The pieces go once around the ring: none has
equal ends, each ends where the next one starts, they pass the vertices in ring order, and as many
leave each grid point as enter it. The places of the cuts do not matter for this, nor their number or
order, so neither does how crossing points are rounded. -/
theorem split_goesRound (ring : Ring) :
    GoesRound ring (split ring) ∧ (∃ cuts, split ring = ring.walkThrough cuts) ∧
      ∀ cuts, GoesRound ring (ring.walkThrough cuts) := by
  have through (cuts : Nat → List Cut) : GoesRound ring (ring.walkThrough cuts) :=
    goesRound_flatten (replaces_mapIdx_walk ring.edges cuts)
  obtain ⟨cuts, split⟩ := exists_cuts_splitFrom Sight.words boxesMeet [] ring.edges
  refine ⟨?_, ⟨cuts, split⟩, through⟩
  change GoesRound ring (Sight.words.splitFrom boxesMeet [] ring.edges)
  rw [split]
  exact through cuts

/-- Four vertices whose first and third edges cross between grid points. -/
example : split [⟨0, 0⟩, ⟨3, 3⟩, ⟨3, 0⟩, ⟨0, 3⟩] =
    [⟨⟨0, 0⟩, ⟨2, 2⟩⟩, ⟨⟨2, 2⟩, ⟨3, 3⟩⟩, ⟨⟨3, 3⟩, ⟨3, 0⟩⟩, ⟨⟨3, 0⟩, ⟨2, 2⟩⟩, ⟨⟨2, 2⟩, ⟨0, 3⟩⟩,
      ⟨⟨0, 3⟩, ⟨0, 0⟩⟩] := by
  decide +kernel

end Kerf.Outline
