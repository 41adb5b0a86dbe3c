import Kerf.Outline.Loop
import Kerf.Proofs.RotaryTravel
import Mathlib.Data.List.FinRange

/-!
# Closed tours of grid edges

Linking edges walks from edge to edge and takes each one away. An edge always has an angle to another,
so a walk goes on wherever some edge is left to go on with. Where as many edges leave each grid point
as enter it, an open walk has one more edge to leave its end by, so it cannot get stuck, and what a
closed walk leaves behind is balanced again.

Main statement: `link_tours`. The loops are closed tours along edges of the list, no two of them use
the same one, and balanced edges are used up.
-/

set_option autoImplicit false

namespace Kerf

/-! ## The edge that goes on -/

namespace Outline

open Doubles
open Kerf.Scalar

theorem fits_ofWord (word : Int64) : Fits 13 (ofWord word) := by
  unfold ofWord
  split
  · exact fits_neg (fits_toFloat _) (by norm_num) (by norm_num)
  · exact fits_toFloat _

/-- However long two edges are, the turn between them can be compared. -/
theorem neg_infinity_lt_turnBetween (into out : Edge) : -infinity < turnBetween into out := by
  have product (v w : Int64) : Fits 80 (ofWord v * ofWord w) :=
    fits_mul (fits_ofWord v) (fits_ofWord w) (by norm_num) (by norm_num)
  have across := fits_sub (product (into.target.x - into.source.x) (out.target.y - out.source.y))
    (product (into.target.y - into.source.y) (out.target.x - out.source.x)) (by norm_num)
    (by norm_num)
  have along := fits_add (product (into.target.x - into.source.x) (out.target.x - out.source.x))
    (product (into.target.y - into.source.y) (out.target.y - out.source.y)) (by norm_num)
    (by norm_num)
  exact neg_infinity_lt (Trig.fits_direction (across.mono (by norm_num)) (along.mono (by norm_num)))

/-- The sharper of the best turn so far and the turn into a further edge. -/
def sharper (into : Edge) (best : Option Nat × Float) (candidate : Edge × Nat) :
    Option Nat × Float :=
  if candidate.1.source = into.target then
    if turnBetween into candidate.1 > best.2 then
      (some candidate.2, turnBetween into candidate.1)
    else best
  else best

theorem leftmost_eq (into : Edge) (unused : List Edge) :
    leftmost into unused = (unused.zipIdx.foldl (sharper into) (none, -infinity)).1 :=
  rfl

section

variable {into : Edge} {best : Option Nat × Float} {candidates : List (Edge × Nat)}

private theorem isSome_foldl_sharper (found : best.1.isSome = true) :
    (candidates.foldl (sharper into) best).1.isSome = true := by
  induction candidates generalizing best with
  | nil => exact found
  | cons candidate rest ih =>
      refine ih ?_
      unfold sharper
      split
      · split
        · rfl
        · exact found
      · exact found

/-- The first edge that goes on is taken, and one that is taken is only given up for another. -/
theorem isSome_foldl_of_mem {candidate : Edge × Nat} (member : candidate ∈ candidates)
    (leaves : candidate.1.source = into.target) :
    (candidates.foldl (sharper into) (none, -infinity)).1.isSome = true := by
  induction candidates with
  | nil => cases member
  | cons head rest ih =>
      rw [List.foldl_cons]
      by_cases goes : head.1.source = into.target
      · refine isSome_foldl_sharper ?_
        rw [sharper, if_pos goes, if_pos (neg_infinity_lt_turnBetween into head.1)]
        rfl
      · rcases List.mem_cons.mp member with rfl | later
        · exact absurd leaves goes
        · rw [sharper, if_neg goes]
          exact ih later

private theorem foldl_sharper_cases {index : Nat}
    (found : (candidates.foldl (sharper into) best).1 = some index) :
    best.1 = some index ∨ ∃ edge, (edge, index) ∈ candidates ∧ edge.source = into.target := by
  induction candidates generalizing best with
  | nil => exact .inl found
  | cons head rest ih =>
      rcases ih found with kept | ⟨edge, member, leaves⟩
      · unfold sharper at kept
        split at kept
        · next goes =>
            split at kept
            · exact .inr ⟨head.1, by simp [← Option.some_inj.mp kept], goes⟩
            · exact .inl kept
        · exact .inl kept
      · exact .inr ⟨edge, List.mem_cons_of_mem _ member, leaves⟩

end

variable {into : Edge} {unused : List Edge} {index : Nat}

theorem leftmost_eq_some (found : leftmost into unused = some index) :
    ∃ edge, unused[index]? = some edge ∧ edge.source = into.target := by
  rw [leftmost_eq] at found
  rcases foldl_sharper_cases found with none | ⟨edge, member, leaves⟩
  · cases none
  · exact ⟨edge, List.mk_mem_zipIdx_iff_getElem?.mp member, leaves⟩

theorem source_of_leftmost (found : leftmost into unused = some index)
    (within : index < unused.length) : unused[index].source = into.target := by
  obtain ⟨edge, known, leaves⟩ := leftmost_eq_some found
  rw [List.getElem?_eq_getElem within, Option.some_inj] at known
  rwa [known]

private theorem leftmost_ne_none {edge : Edge} (member : edge ∈ unused)
    (leaves : edge.source = into.target) : leftmost into unused ≠ none := by
  obtain ⟨index, found⟩ := List.mem_iff_getElem?.mp member
  rw [leftmost_eq, ← Option.isSome_iff_ne_none]
  exact isSome_foldl_of_mem (List.mk_mem_zipIdx_iff_getElem?.mpr found) leaves

/-! ## One walk -/

/-- Whether edges lead from one grid point to another, each one starting where the one before it
ends. -/
def Leads : Node → Node → List Edge → Prop
  | source, target, [] => source = target
  | source, target, edge :: rest => edge.source = source ∧ Leads edge.target target rest

/-- Whether as many edges leave each grid point as enter it. -/
def Balanced (edges : List Edge) : Prop :=
  ∀ node : Node, edges.countP (·.source = node) = edges.countP (·.target = node)

private theorem balanced_iff_perm {edges : List Edge} :
    (edges.map (·.source)).Perm (edges.map (·.target)) ↔ Balanced edges := by
  rw [List.perm_iff_count, Balanced]
  refine forall_congr' fun node => ?_
  rw [List.count_eq_countP, List.count_eq_countP, List.countP_map, List.countP_map]
  exact Iff.rfl

instance (edges : List Edge) : Decidable (Balanced edges) := decidable_of_iff _ balanced_iff_perm

/-- Whether edges are balanced up to a walk from one grid point to another that has been taken out of
them. -/
def BalancedBut (source target : Node) (edges : List Edge) : Prop :=
  ∀ node : Node, edges.countP (·.source = node) + (if source = node then 1 else 0) =
    edges.countP (·.target = node) + (if target = node then 1 else 0)

section

variable {α : Type} (edge : α → Edge)

/-- A walk takes the edges that it goes along and leaves the others. If it closes, the edges that it
took lead on to its start, and its corners are where they start. -/
theorem follow_spec (first : Node) (into : Edge) (corners : List Node) (unused : List Edge)
    (free : List α) (labelled : unused = free.map edge) :
    ∃ tour left : List α, (tour ++ left).Perm free ∧
      (follow first into corners unused).2 = left.map edge ∧
      ∀ ring, (follow first into corners unused).1 = some ring →
        Leads into.target first (tour.map edge) ∧
          ring = corners.reverse ++ (tour.map edge).map (·.source) := by
  fun_induction follow first into corners unused generalizing free with
  | case1 into corners unused closes =>
      refine ⟨[], free, .refl _, labelled, fun ring same => ⟨closes, ?_⟩⟩
      rw [← Option.some_inj.mp same, List.map_nil, List.map_nil, List.append_nil]
  | case2 into corners unused opened stuck =>
      refine ⟨[], free, .refl _, labelled, fun ring unclosed => ?_⟩
      cases unclosed
  | case3 into corners unused opened index found within next ih =>
      subst labelled
      have room : index < free.length := by rwa [List.length_map] at within
      obtain ⟨tour, left, used, rest, closed⟩ := ih (free.eraseIdx index) (List.eraseIdx_map ..)
      have whole : (free[index] :: free.eraseIdx index).Perm free :=
        List.getElem_cons_eraseIdx_perm room
      have label : next = edge free[index] := List.getElem_map ..
      refine ⟨free[index] :: tour, left, (used.cons _).trans whole, rest, fun ring same => ?_⟩
      obtain ⟨leads, traced⟩ := closed ring same
      refine ⟨?_, ?_⟩
      · rw [List.map_cons, ← label]
        exact ⟨source_of_leftmost found within, leads⟩
      · rw [traced, List.map_cons, List.map_cons, ← label, List.reverse_cons, List.append_assoc,
          List.singleton_append]
  | case4 into corners unused opened index found outside =>
      refine ⟨[], free, .refl _, labelled, fun ring unclosed => ?_⟩
      cases unclosed

end

/-- Balanced edges, but for a walk that is under way, let it close, and leave balanced edges. -/
theorem follow_balanced {first : Node} (corners : List Node)
    (balanced : BalancedBut first into.target unused) :
    (follow first into corners unused).1.isSome = true ∧
      Balanced (follow first into corners unused).2 := by
  fun_induction follow first into corners unused with
  | case1 into corners unused closes =>
      refine ⟨rfl, fun node => ?_⟩
      have counted := balanced node
      rw [closes] at counted
      exact Nat.add_right_cancel counted
  | case2 into corners unused opened stuck =>
      -- The walk has entered its last point once more than it has left it.
      have counted := balanced into.target
      rw [if_neg (Ne.symm opened), if_pos rfl] at counted
      obtain ⟨edge, member, leaves⟩ := List.countP_pos_iff.mp
        (show 0 < unused.countP (·.source = into.target) by omega)
      exact absurd stuck (leftmost_ne_none member (of_decide_eq_true leaves))
  | case3 into corners unused opened index found within next ih =>
      refine ih fun node => ?_
      have counted := balanced node
      have whole : (next :: unused.eraseIdx index).Perm unused :=
        List.getElem_cons_eraseIdx_perm within
      rw [← whole.countP_eq, ← whole.countP_eq, List.countP_cons, List.countP_cons,
        source_of_leftmost found within] at counted
      simp only [decide_eq_true_eq] at counted
      omega
  | case4 into corners unused opened index found outside =>
      obtain ⟨_, known, _⟩ := leftmost_eq_some found
      exact absurd (List.getElem?_eq_some_iff.mp known).1 outside

/-! ## All walks -/

/-- Whether a ring goes along the edges at some positions of a list: from each corner to the next one,
and from the last corner to the first. -/
structure Along (edges : List Edge) (tour : List (Fin edges.length)) (ring : Ring) : Prop where
  corners : ring ≠ []
  count : tour.length = ring.length
  step : ∀ (index : Nat) (position : Fin edges.length), tour[index]? = some position →
    ring[index]? = some (edges.get position).source ∧
      ring[(index + 1) % ring.length]? = some (edges.get position).target

/-- Each edge of a walk ends where the next one starts, or where the walk ends. -/
theorem Leads.step {source target : Node} {edges : List Edge} (leads : Leads source target edges)
    {edge : Edge} (found : edges[index]? = some edge) :
    (edges.map (·.source) ++ [target])[index + 1]? = some edge.target := by
  induction edges generalizing source index with
  | nil => cases found
  | cons first rest ih =>
      obtain ⟨_, later⟩ := leads
      cases index with
      | succ index => exact ih later found
      | zero =>
          obtain rfl : first = edge := Option.some_inj.mp found
          cases rest with
          | nil => exact congrArg some later.symm
          | cons second others => exact congrArg some later.1

/-- Whether a ring has the starts of some edges for its corners, and the edges lead once round. -/
structure Round {α : Type} (edge : α → Edge) (tour : List α) (ring : Ring) : Prop where
  nonempty : tour ≠ []
  traced : ring = (tour.map edge).map (·.source)
  leads : ∃ first, Leads first first (tour.map edge)

/-- A closed walk comes back to its first corner. -/
theorem Round.along {edges : List Edge} {tour : List (Fin edges.length)} {ring : Ring}
    (round : Round edges.get tour ring) : Along edges tour ring := by
  obtain ⟨nonempty, traced, first, leads⟩ := round
  have count : tour.length = ring.length := by rw [traced, List.length_map, List.length_map]
  have start : ring[0]? = some first := by
    cases tour with
    | nil => exact absurd rfl nonempty
    | cons position rest =>
        rw [traced]
        exact congrArg some leads.1
  refine ⟨?_, count, fun index position found => ?_⟩
  · rintro rfl
    cases start
  · have passed : (tour.map edges.get)[index]? = some (edges.get position) := by
      rw [List.getElem?_map, found, Option.map_some]
    have within : index < ring.length := count ▸ (List.getElem?_eq_some_iff.mp found).1
    refine ⟨by rw [traced, List.getElem?_map, passed, Option.map_some], ?_⟩
    have next := leads.step passed
    rw [← traced] at next
    rcases Nat.lt_or_ge (index + 1) ring.length with inside | last
    · rwa [Nat.mod_eq_of_lt inside, ← List.getElem?_append_left inside]
    · obtain turned : index + 1 = ring.length := by omega
      rw [turned, List.getElem?_append_right (le_refl _), Nat.sub_self] at next
      rw [turned, Nat.mod_self, start]
      exact next

/-- The first edge of balanced edges is a walk that is under way. -/
theorem Balanced.tail {first : Edge} {rest : List Edge} (balanced : Balanced (first :: rest)) :
    BalancedBut first.source first.target rest := by
  intro node
  have counted := balanced node
  rw [List.countP_cons, List.countP_cons] at counted
  simpa only [decide_eq_true_eq] using counted

/-- Loops use the labels of a list of edges at most once, and those of balanced edges exactly once. -/
theorem link_spec {α : Type} (edge : α → Edge) (edges : List Edge) (free : List α)
    (labelled : edges = free.map edge) :
    ∃ tours : List (List α), List.Subperm tours.flatten free ∧
      List.Forall₂ (Round edge) tours (link edges) ∧
      (Balanced edges → tours.flatten.Perm free) := by
  fun_induction link edges generalizing free with
  | case1 =>
      obtain rfl := List.map_eq_nil_iff.mp labelled.symm
      exact ⟨[], List.Subperm.refl _, .nil, fun _ => .refl _⟩
  | case2 first rest result ih =>
      obtain ⟨label, others, rfl, rfl, rfl⟩ := List.map_eq_cons_iff.mp labelled.symm
      obtain ⟨tour, left, used, remains, closed⟩ :=
        follow_spec edge (edge label).source (edge label) [(edge label).source] _ others rfl
      obtain ⟨tours, apart, rounds, exhausted⟩ := ih left remains
      have held : (label :: tour ++ left).Perm (label :: others) := used.cons label
      cases outcome : result.1 with
      | none =>
          have passed : left.Subperm (label :: others) :=
            (List.sublist_append_right (label :: tour) left).subperm.trans held.subperm
          refine ⟨tours, apart.trans passed, rounds, fun balanced => ?_⟩
          have closes := (follow_balanced [(edge label).source] balanced.tail).1
          change result.1.isSome = true at closes
          rw [outcome] at closes
          cases closes
      | some ring =>
          obtain ⟨leads, traced⟩ := closed ring outcome
          have round : Round edge (label :: tour) ring :=
            ⟨List.cons_ne_nil _ _, traced, _, rfl, leads⟩
          refine ⟨(label :: tour) :: tours, ?_, .cons round rounds, fun balanced => ?_⟩
          · rw [List.flatten_cons]
            exact ((List.subperm_append_left _).mpr apart).trans held.subperm
          · rw [List.flatten_cons]
            have rest := (follow_balanced [(edge label).source] balanced.tail).2
            exact ((exhausted rest).append_left _).trans held

/-- Linking edges decomposes them into closed tours. Each loop goes along edges of the list from corner
to corner and back to the first one, no position of the list is used twice within a loop or by two
loops, and if as many edges leave each grid point as enter it, every position is used exactly once. -/
theorem link_tours (edges : List Edge) :
    ∃ tours : List (List (Fin edges.length)),
      List.Forall₂ (Along edges) tours (link edges) ∧ tours.flatten.Nodup ∧
      (Balanced edges → ∀ position, tours.flatten.count position = 1) := by
  obtain ⟨tours, apart, rounds, exhausted⟩ := link_spec edges.get edges (List.finRange edges.length)
    (List.map_get_finRange edges).symm
  have once : tours.flatten.Nodup := by
    obtain ⟨sorted, same, listed⟩ := apart
    exact same.nodup_iff.mp (listed.nodup (List.nodup_finRange _))
  refine ⟨tours, rounds.imp fun _ _ round => round.along, once, fun balanced position => ?_⟩
  exact List.count_eq_one_of_mem once
    ((exhausted balanced).mem_iff.mpr (List.mem_finRange position))

/-- Two there-and-back ways that meet in one grid point, with the first of them listed twice. -/
def touchingWays : List Edge :=
  [⟨⟨0, 0⟩, ⟨2, 0⟩⟩, ⟨⟨0, 0⟩, ⟨2, 0⟩⟩, ⟨⟨0, 0⟩, ⟨0, 3⟩⟩, ⟨⟨2, 0⟩, ⟨0, 0⟩⟩, ⟨⟨0, 3⟩, ⟨0, 0⟩⟩,
    ⟨⟨2, 0⟩, ⟨0, 0⟩⟩]

theorem link_tours_touchingWays :
    Balanced touchingWays ∧
      ∃ tours : List (List (Fin touchingWays.length)),
        List.Forall₂ (Along touchingWays) tours (link touchingWays) ∧ tours.flatten.Nodup ∧
        ∀ position, tours.flatten.count position = 1 := by
  have balanced : Balanced touchingWays := by decide
  obtain ⟨tours, along, once, exhausted⟩ := link_tours touchingWays
  exact ⟨balanced, tours, along, once, exhausted balanced⟩

end Outline

end Kerf
