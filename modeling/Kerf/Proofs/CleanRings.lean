import Kerf.Proofs.GridSteps
import Kerf.Proofs.OutlineLoops
import Mathlib.Data.List.Chain
import Mathlib.Data.List.Destutter
import Mathlib.Tactic.LinearCombination

/-!
# The shape of a cleaned ring

A pass over a ring drops all points that lie straight between their neighbours at once, each judged
by the neighbours it had before. A run of such points goes one way only, so what is left on both sides
of it is joined by a step that goes the same way, and the turns there stay what they were. One pass is
therefore enough, and a ring cannot be dropped as a whole, because a closed line cannot go one way
only.

Main statement: `clean_shape`. A cleaned ring is part of the given points, has no repeated and no
straight point, encloses the same area, and is not changed by cleaning it again.
-/

set_option autoImplicit false

namespace Kerf.Outline

open Exact

/-! ## Lines -/

/-- The points of a line between its ends, each with its neighbours. -/
def corners : List Node → List (Node × Node × Node)
  | a :: b :: c :: rest => (a, b, c) :: corners (b :: c :: rest)
  | _ => []

/-- Whether no point of a line lies straight between its neighbours. -/
def Bent (line : List Node) : Prop :=
  ∀ corner ∈ corners line, ¬ Straight corner.1 corner.2.1 corner.2.2

variable {a b c first : Node} {ring : Ring}

theorem bent_cons {rest : List Node} :
    Bent (a :: b :: c :: rest) ↔ ¬ Straight a b c ∧ Bent (b :: c :: rest) :=
  List.forall_mem_cons

theorem bent_pair (a b : Node) : Bent [a, b] := fun _ member => nomatch member

theorem bent_corner (turns : ¬ Straight a b c) : Bent [a, b, c] :=
  bent_cons.mpr ⟨turns, bent_pair b c⟩

private theorem corners_overlap (front back : List Node) (a b : Node) :
    corners (front ++ a :: b :: back) = corners (front ++ [a, b]) ++ corners (a :: b :: back) := by
  induction front with
  | nil => rfl
  | cons first front ih =>
      rcases front with _ | ⟨second, _ | ⟨third, front⟩⟩
      · rfl
      · rfl
      · exact congrArg (List.cons _) ih

theorem bent_overlap {front back : List Node} :
    Bent (front ++ a :: b :: back) ↔ Bent (front ++ [a, b]) ∧ Bent (a :: b :: back) := by
  unfold Bent
  rw [corners_overlap, List.forall_mem_append]

/-- The step by which a line leaves its start. -/
def departure : List Node → Int × Int
  | a :: b :: _ => a.toward b
  | _ => 0

/-- The step by which a line reaches its end. -/
def arrival : List Node → Int × Int
  | [a, b] => a.toward b
  | _ :: rest => arrival rest
  | [] => 0

private theorem arrival_concat (front : List Node) (a b : Node) :
    arrival (front ++ [a, b]) = a.toward b := by
  induction front with
  | nil => rfl
  | cons first front ih =>
      rw [List.cons_append, arrival, ih]
      cases front <;> simp

theorem arrival_closed (start : Node) (front : List Node) (a b : Node) :
    arrival (start :: (front ++ [a] ++ [b])) = a.toward b := by
  rw [List.append_assoc]
  exact arrival_concat (start :: front) a b

/-- The area that a line sweeps as seen from the middle of the grid, twice over. -/
def sweep : List Node → Int
  | a :: b :: rest => cross a.exact b.exact + sweep (b :: rest)
  | _ => 0

theorem sweep_append (front back : List Node) (a : Node) :
    sweep (front ++ a :: back) = sweep (front ++ [a]) + sweep (a :: back) := by
  induction front with
  | nil => simp [sweep]
  | cons first front ih =>
      cases front with
      | nil => simp [sweep]
      | cons second front =>
          simp only [List.cons_append, sweep] at ih ⊢
          rw [ih, add_assoc]

theorem cross_of_sameWay (same : SameWay (a.toward b) (b.toward c)) :
    cross a.exact c.exact = cross a.exact b.exact + cross b.exact c.exact := by
  have level := same.1
  simp only [cross, Node.toward, Prod.fst_sub, Prod.snd_sub] at level ⊢
  linear_combination -level

/-! ## Thinning a line -/

/-- Whether a line from a start becomes another one from there when the points that lie straight
between their neighbours are left out, by the neighbours that they have in the first line. -/
inductive Thins : Node → List Node → List Node → Prop where
  | leg {a b : Node} : a ≠ b → Thins a [b] [b]
  | drop {a b c : Node} {rest thin : List Node} :
      Straight a b c → Thins b (c :: rest) thin → Thins a (b :: c :: rest) thin
  | keep {a b c : Node} {rest thin : List Node} :
      a ≠ b → ¬ Straight a b c → Thins b (c :: rest) thin → Thins a (b :: c :: rest) (b :: thin)

theorem sameWay_skip (same : SameWay (a.toward b) (b.toward c)) :
    SameWay (a.toward b) (a.toward c) ∧ SameWay (b.toward c) (a.toward c) := by
  have late := same.add_left
  have early := same.symm.add_left
  rw [Node.toward_add] at late
  rw [add_comm, Node.toward_add] at early
  exact ⟨early.symm, late.symm⟩

namespace Thins

variable {a : Node} {line thin : List Node}

theorem sameDeparture (thins : Thins a line thin) :
    SameWay (departure (a :: line)) (departure (a :: thin)) := by
  -- From the end back: the way on from a dropped point is known, and the way into it is the same.
  induction thins with
  | leg apart => exact .refl (mt Node.toward_eq_zero.mp apart)
  | @drop a b c rest thin straight _ ih =>
      cases thin with
      | nil => exact absurd rfl ih.ne_zero
      | cons next thin => exact (sameWay_skip (straight.trans ih)).1
  | keep apart => exact .refl (mt Node.toward_eq_zero.mp apart)

theorem exists_next (thins : Thins a line thin) : ∃ next rest, thin = next :: rest := by
  cases thin with
  | nil => exact absurd rfl thins.sameDeparture.ne_zero
  | cons next rest => exact ⟨next, rest, rfl⟩

theorem sameWay_of_drop {b c next : Node} {rest : List Node} (straight : Straight a b c)
    (thins : Thins b (c :: rest) (next :: thin)) : SameWay (a.toward b) (b.toward next) :=
  straight.trans thins.sameDeparture

private theorem sameArrival (thins : Thins a line thin) :
    SameWay (arrival (a :: line)) (arrival (a :: thin)) := by
  induction thins with
  | leg apart => exact .refl (mt Node.toward_eq_zero.mp apart)
  | drop straight thins ih =>
      obtain ⟨next, rest, rfl⟩ := thins.exists_next
      cases rest with
      | nil => exact ih.trans (sameWay_skip (thins.sameWay_of_drop straight)).2
      | cons after rest => exact ih
  | keep _ _ thins ih =>
      obtain ⟨next, rest, rfl⟩ := thins.exists_next
      exact ih

theorem apart (thins : Thins a line thin) : (a :: thin).IsChain (· ≠ ·) := by
  induction thins with
  | leg apart => exact List.isChain_pair.mpr apart
  | drop straight thins ih =>
      obtain ⟨next, rest, rfl⟩ := thins.exists_next
      have long := (sameWay_skip (thins.sameWay_of_drop straight)).1.ne_zero
      exact List.isChain_cons_cons.mpr ⟨mt Node.toward_eq_zero.mpr long, ih.tail⟩
  | keep apart _ _ ih => exact List.isChain_cons_cons.mpr ⟨apart, ih⟩

theorem bent (thins : Thins a line thin) : Bent (a :: thin) := by
  induction thins with
  | leg _ => exact bent_pair _ _
  | drop straight thins ih =>
      obtain ⟨next, _ | ⟨after, rest⟩, rfl⟩ := thins.exists_next
      · exact bent_pair _ _
      · obtain ⟨turns, later⟩ := bent_cons.mp ih
        have same := (sameWay_skip (thins.sameWay_of_drop straight)).2
        exact bent_cons.mpr ⟨fun ahead => turns (same.trans ahead), later⟩
  | keep _ turns thins ih =>
      obtain ⟨next, rest, rfl⟩ := thins.exists_next
      exact bent_cons.mpr ⟨fun ahead => turns (ahead.trans thins.sameDeparture.symm), ih⟩

theorem sweep_eq (thins : Thins a line thin) : sweep (a :: thin) = sweep (a :: line) := by
  induction thins with
  | leg _ => rfl
  | drop straight thins ih =>
      obtain ⟨next, rest, rfl⟩ := thins.exists_next
      have joined := cross_of_sameWay (thins.sameWay_of_drop straight)
      simp only [sweep] at ih ⊢
      linarith
  | keep _ _ thins ih => simp only [sweep, ih]

end Thins

/-! ## A pass over a ring -/

/-- The points of a line between its ends that a pass keeps. -/
def keptCorners (line : List Node) : List Node :=
  ((corners line).filter fun corner => !Ring.isIdle corner.1 corner.2.1 corner.2.2).map (·.2.1)

theorem keptCorners_cons (a b c : Node) (rest : List Node) :
    keptCorners (a :: b :: c :: rest) =
      if Ring.isIdle a b c then keptCorners (b :: c :: rest)
      else b :: keptCorners (b :: c :: rest) := by
  unfold keptCorners
  rw [corners, List.filter_cons]
  cases Ring.isIdle a b c <;> rfl

private theorem thins_keptCorners {middle : List Node} {stop : Node}
    (near : ∀ node ∈ a :: (middle ++ [stop]), node.IsNear)
    (apart : (a :: (middle ++ [stop])).IsChain (· ≠ ·)) :
    Thins a (middle ++ [stop]) (keptCorners (a :: (middle ++ [stop])) ++ [stop]) := by
  induction middle generalizing a with
  | nil => exact .leg (List.isChain_pair.mp apart)
  | cons b middle ih =>
      obtain ⟨nearA, nearLater⟩ := List.forall_mem_cons.mp near
      obtain ⟨different, later⟩ := List.isChain_cons_cons.mp apart
      have thins := ih nearLater later
      obtain ⟨c, rest, known⟩ : ∃ c rest, middle ++ [stop] = c :: rest :=
        List.exists_cons_of_ne_nil (by simp)
      rw [List.cons_append] at nearLater ⊢
      rw [known] at thins nearLater ⊢
      rw [keptCorners_cons]
      have idle := isIdle_iff nearA (nearLater b (by simp)) (nearLater c (by simp))
      split
      · next dropped => exact .drop ((idle.mp dropped).resolve_left different) thins
      · next kept => exact .keep different (fun straight => kept (idle.mpr (.inr straight))) thins

private theorem zip_neighbours (ring : List Node) (before after : Node) :
    (before :: ring.dropLast).zip (ring.zip (ring.drop 1 ++ [after])) =
      corners (before :: (ring ++ [after])) := by
  induction ring generalizing before with
  | nil => rfl
  | cons first rest ih =>
      cases rest with
      | nil => rfl
      | cons second rest => exact congrArg (List.cons _) (ih first)

/-- A pass judges each point of a ring by its neighbours, the first and the last one by each other. -/
theorem cleanPass_eq {last : Node} {rest : List Node}
    (ends : (first :: rest).getLast? = some last) :
    Ring.cleanPass (first :: rest) = keptCorners (last :: first :: (rest ++ [first])) := by
  have cyclic : Ring.preceding (first :: rest) = last :: (first :: rest).dropLast := by
    rw [Ring.preceding, ends]
    rfl
  unfold Ring.cleanPass
  rw [cyclic]
  exact congrArg (fun list => List.map (·.2.1) (List.filter _ list))
    (zip_neighbours (first :: rest) last first)

/-- Whether no point of a ring repeats the one before it, all the way round. -/
def Ring.Apart (ring : Ring) : Prop := (ring ++ ring.take 1).IsChain (· ≠ ·)

/-- Whether no point of a ring lies straight between its neighbours. -/
def Ring.Turning (ring : Ring) : Prop := Bent (ring ++ ring.take 2)

/-- The cross products along the edges of a ring, summed up exactly: twice its area. -/
def Ring.shoelace (ring : Ring) : Int :=
  (ring.edges.map fun edge => cross edge.source.exact edge.target.exact).sum

theorem Ring.shoelace_cons (first : Node) (rest : List Node) :
    Ring.shoelace (first :: rest) = sweep (first :: (rest ++ [first])) := by
  have summed (start stop : Node) : ((List.zipWith Edge.mk (start :: rest) (rest ++ [stop])).map
      fun edge => cross edge.source.exact edge.target.exact).sum = sweep (start :: (rest ++ [stop])) := by
    induction rest generalizing start with
    | nil => simp [sweep]
    | cons second rest ih => simpa [sweep] using ih second
  exact summed first first

theorem Bent.redirect {front : List Node} (bent : Bent (front ++ [a, b]))
    (same : SameWay (a.toward c) (a.toward b)) : Bent (front ++ [a, c]) := by
  rcases front.eq_nil_or_concat' with rfl | ⟨front, before, rfl⟩
  · exact bent_pair a c
  · rw [List.append_assoc, List.singleton_append] at bent ⊢
    obtain ⟨early, late⟩ := bent_overlap.mp bent
    refine bent_overlap.mpr ⟨early, bent_corner fun ahead => ?_⟩
    exact (bent_cons.mp late).1 (ahead.trans same)

section

-- A closed line is thinned from its start on, so the start is judged last: it is kept as a corner
-- between the last and the next point, or left out between them.
variable {first next last : Node} {earlier later : List Node}
  (ends : next :: later = earlier ++ [last])

include ends

theorem cons_append_eq (stop : Node) (back : List Node) :
    next :: (later ++ stop :: back) = earlier ++ last :: stop :: back := by
  rw [← List.cons_append, ends, List.append_assoc]
  rfl

private theorem turning_of_keep (bent : Bent (first :: next :: (later ++ [first])))
    (turns : ¬ Straight last first next) : Ring.Turning (first :: next :: later) := by
  change Bent (first :: (next :: (later ++ first :: [next])))
  rw [cons_append_eq ends] at bent ⊢
  rw [← List.cons_append] at bent ⊢
  exact bent_overlap.mpr ⟨bent, bent_corner turns⟩

private theorem turning_of_drop (bent : Bent (first :: next :: (later ++ [first])))
    (straight : Straight last first next) (longer : later ≠ []) : Ring.Turning (next :: later) := by
  obtain ⟨early, late⟩ := sameWay_skip straight
  obtain ⟨after, rest, rfl⟩ := List.exists_cons_of_ne_nil longer
  obtain ⟨turns, tail⟩ := bent_cons.mp bent
  change Bent (next :: (after :: rest ++ [first])) at tail
  change Bent (next :: (after :: rest ++ next :: [after]))
  rw [cons_append_eq ends] at tail ⊢
  exact bent_overlap.mpr
    ⟨tail.redirect early.symm, bent_corner fun ahead => turns (late.trans ahead)⟩

private theorem apart_of_drop (apart : (first :: next :: (later ++ [first])).IsChain (· ≠ ·))
    (different : last ≠ next) : Ring.Apart (next :: later) := by
  have tail := apart.tail
  change (next :: (later ++ [next])).IsChain (· ≠ ·)
  rw [List.tail_cons, cons_append_eq ends, List.isChain_append_cons_cons] at tail
  rw [cons_append_eq ends, List.isChain_append_cons_cons]
  exact ⟨tail.1, different, List.isChain_singleton next⟩

private theorem shoelace_of_drop (straight : Straight last first next) :
    Ring.shoelace (next :: later) = sweep (first :: next :: (later ++ [first])) := by
  rw [Ring.shoelace_cons, sweep, cons_append_eq ends, cons_append_eq ends,
    sweep_append earlier [next], sweep_append earlier [first]]
  simp only [sweep, cross_of_sameWay straight]
  ring

end

/-- What a pass leaves of a ring, from its first point on. -/
theorem cleanPass_cases {rest : List Node} (longer : rest ≠ [])
    (near : ∀ node ∈ first :: rest, node.IsNear) (apart : Ring.Apart (first :: rest)) :
    ∃ next later earlier last, next :: later = earlier ++ [last] ∧
      Thins first (rest ++ [first]) (next :: (later ++ [first])) ∧
      (Straight last first next ∧ Ring.cleanPass (first :: rest) = next :: later ∨
        ¬ Straight last first next ∧ Ring.cleanPass (first :: rest) = first :: next :: later) := by
  have nearClosed : ∀ node ∈ first :: (rest ++ [first]), node.IsNear := by
    intro node member
    apply near
    simp only [List.mem_cons, List.mem_append, List.not_mem_nil, or_false] at member ⊢
    tauto
  have thins := thins_keptCorners nearClosed apart
  have leaving := thins.sameDeparture
  have arriving := thins.sameArrival
  obtain ⟨front, final, rfl⟩ := rest.eq_nil_or_concat'.resolve_left longer
  cases kept : keptCorners (first :: (front ++ [final] ++ [first])) with
  | nil =>
      -- A closed line would have to come back by going one way only.
      rw [kept] at leaving
      exact absurd (Node.toward_eq_zero.mpr rfl) leaving.ne_zero
  | cons next later =>
      obtain ⟨earlier, last, ends⟩ := (next :: later).eq_nil_or_concat'.resolve_left (by simp)
      rw [kept] at thins leaving
      rw [kept, ends, arrival_closed, arrival_closed] at arriving
      refine ⟨next, later, earlier, last, ends, thins, ?_⟩
      have pass : Ring.cleanPass (first :: (front ++ [final])) =
          keptCorners (final :: first :: (front ++ [final] ++ [first])) :=
        cleanPass_eq (by rw [← List.cons_append, List.getLast?_concat])
      obtain ⟨second, tail, known⟩ : ∃ second tail, front ++ [final] ++ [first] = second :: tail :=
        List.exists_cons_of_ne_nil (by simp)
      rw [known] at leaving nearClosed kept
      rw [known, keptCorners_cons, kept] at pass
      have turned : Straight final first second ↔ Straight last first next :=
        ⟨fun ahead => (arriving.symm.trans ahead).trans leaving,
          fun ahead => (arriving.trans ahead).trans leaving.symm⟩
      have different : final ≠ first := mt Node.toward_eq_zero.mpr arriving.symm.ne_zero
      have idle := isIdle_iff (near final (by simp)) (near first (by simp))
        (nearClosed second (by simp))
      rw [pass]
      split
      · next dropped =>
          exact .inl ⟨turned.mp ((idle.mp dropped).resolve_left different), rfl⟩
      · next stays =>
          exact .inr ⟨fun straight => stays (idle.mpr (.inr (turned.mpr straight))), rfl⟩

theorem cleanPass_spec (near : ∀ node ∈ ring, node.IsNear) (apart : ring.Apart)
    (two : 2 ≤ ring.length) :
    2 ≤ (Ring.cleanPass ring).length ∧ (Ring.cleanPass ring).Apart ∧
      (Ring.cleanPass ring).Turning ∧ (Ring.cleanPass ring).shoelace = ring.shoelace := by
  obtain ⟨first, rest, rfl⟩ : ∃ first rest, ring = first :: rest :=
    List.exists_cons_of_length_pos (by omega)
  have longer : rest ≠ [] := by
    rintro rfl
    simp at two
  obtain ⟨next, later, earlier, last, ends, thins, ⟨straight, pass⟩ | ⟨turns, pass⟩⟩ :=
    cleanPass_cases longer near apart
  · have different : last ≠ next := mt Node.toward_eq_zero.mpr (sameWay_skip straight).1.ne_zero
    have remains : later ≠ [] := by
      rintro rfl
      have same := congrArg List.getLast? ends
      rw [List.getLast?_concat] at same
      exact different (Option.some_inj.mp same).symm
    rw [pass]
    refine ⟨Nat.succ_le_succ (List.length_pos_iff.mpr remains), apart_of_drop ends thins.apart different,
      turning_of_drop ends thins.bent straight remains, ?_⟩
    rw [shoelace_of_drop ends straight, Ring.shoelace_cons]
    exact thins.sweep_eq
  · rw [pass]
    refine ⟨by simp, thins.apart, turning_of_keep ends thins.bent turns, ?_⟩
    rw [Ring.shoelace_cons, Ring.shoelace_cons]
    exact thins.sweep_eq

private theorem map_corners (a stop : Node) (middle : List Node) :
    (corners (a :: (middle ++ [stop]))).map (·.2.1) = middle := by
  induction middle generalizing a with
  | nil => rfl
  | cons b middle ih =>
      cases middle with
      | nil => rfl
      | cons c middle => exact congrArg (List.cons b) (ih b)

private theorem sublist_keptCorners (a stop : Node) (middle : List Node) :
    (keptCorners (a :: (middle ++ [stop]))).Sublist middle := by
  have kept : (keptCorners (a :: (middle ++ [stop]))).Sublist
      ((corners (a :: (middle ++ [stop]))).map (·.2.1)) :=
    List.filter_sublist.map _
  rwa [map_corners] at kept

theorem sublist_cleanPass (ring : Ring) : (Ring.cleanPass ring).Sublist ring := by
  cases ring with
  | nil => exact List.Sublist.refl _
  | cons first rest =>
      rw [cleanPass_eq (List.getLast?_eq_some_getLast (List.cons_ne_nil first rest))]
      exact sublist_keptCorners _ first (first :: rest)

/-! ## All passes -/

private theorem sublist_cleanRepeatedly (ring : Ring) :
    (Ring.cleanRepeatedly ring).Sublist ring := by
  fun_induction Ring.cleanRepeatedly ring with
  | case1 ring _ cleaned _ ih => exact ih.trans (sublist_cleanPass ring)
  | case2 => exact List.Sublist.refl _
  | case3 => exact List.Sublist.refl _

private theorem cleanRepeatedly_spec (near : ∀ node ∈ ring, node.IsNear) (apart : ring.Apart)
    (two : 2 ≤ ring.length) : (Ring.cleanRepeatedly ring).Apart ∧
      (3 ≤ (Ring.cleanRepeatedly ring).length → (Ring.cleanRepeatedly ring).Turning) ∧
      (Ring.cleanRepeatedly ring).shoelace = ring.shoelace := by
  have pass := cleanPass_spec near apart two
  fun_induction Ring.cleanRepeatedly ring with
  | case1 ring three cleaned shorter ih =>
      have nearPass : ∀ node ∈ cleaned, node.IsNear :=
        fun node member => near node ((sublist_cleanPass ring).subset member)
      obtain ⟨left, apartPass, _, same⟩ := pass
      obtain ⟨apartLast, turning, total⟩ := ih nearPass apartPass left
        (cleanPass_spec nearPass apartPass left)
      exact ⟨apartLast, turning, total.trans same⟩
  | case2 ring three cleaned stays =>
      have whole : cleaned = ring := (sublist_cleanPass ring).eq_of_length_le (Nat.le_of_not_lt stays)
      refine ⟨apart, fun _ => ?_, rfl⟩
      rw [← whole]
      exact pass.2.2.1
  | case3 ring short => exact ⟨apart, fun three => absurd three short, rfl⟩

private theorem cleanRepeatedly_idem (ring : Ring) :
    Ring.cleanRepeatedly (Ring.cleanRepeatedly ring) = Ring.cleanRepeatedly ring := by
  fun_induction Ring.cleanRepeatedly ring with
  | case1 _ _ _ _ ih => exact ih
  | case2 ring three cleaned stays => rw [Ring.cleanRepeatedly, if_pos three, if_neg stays]
  | case3 ring short => rw [Ring.cleanRepeatedly, if_neg short]

/-! ## Repeated points -/

theorem dedupe_eq_destutter (points : List Node) :
    Ring.dedupe points = points.destutter (· ≠ ·) := by
  fun_induction Ring.dedupe points with
  | case1 a rest ih =>
      rw [ih, List.destutter_cons_cons, if_neg (by simp)]
      rfl
  | case2 a b rest different ih =>
      rw [ih, List.destutter_cons_cons, if_pos different]
      rfl
  | case3 short many =>
      rcases short with _ | ⟨a, _ | ⟨b, rest⟩⟩
      · rfl
      · rfl
      · exact absurd rfl (many a b rest)

theorem exists_dedupe_cons (first : Node) (rest : List Node) :
    ∃ later, Ring.dedupe (first :: rest) = first :: later := by
  induction rest with
  | nil => exact ⟨[], rfl⟩
  | cons second rest ih =>
      unfold Ring.dedupe
      split
      · next same =>
          subst same
          exact ih
      · exact ⟨_, rfl⟩

private theorem sweep_dedupe (points : List Node) (stop : Node) :
    sweep (Ring.dedupe points ++ [stop]) = sweep (points ++ [stop]) := by
  fun_induction Ring.dedupe points with
  | case1 a rest ih => simpa [sweep] using ih
  | case2 a b rest different ih =>
      obtain ⟨later, known⟩ := exists_dedupe_cons b rest
      rw [known] at ih ⊢
      exact congrArg (_ + ·) ih
  | case3 short many => rfl

private theorem shoelace_dedupe (points : List Node) :
    Ring.shoelace (Ring.dedupe points) = Ring.shoelace points := by
  cases points with
  | nil => rfl
  | cons first rest =>
      obtain ⟨later, known⟩ := exists_dedupe_cons first rest
      have swept := sweep_dedupe (first :: rest) first
      rw [known] at swept ⊢
      rw [Ring.shoelace_cons, Ring.shoelace_cons]
      exact swept

private theorem isPrefix_dropClosing (ring : Ring) : ring.dropClosing <+: ring := by
  fun_induction Ring.dropClosing ring with
  | case1 first second rest _ ih => exact ih.trans (List.dropLast_prefix _)
  | case2 => exact List.prefix_rfl
  | case3 => exact List.prefix_rfl

private theorem shoelace_dropClosing (ring : Ring) : ring.dropClosing.shoelace = ring.shoelace := by
  fun_induction Ring.dropClosing ring with
  | case1 first second rest repeats ih =>
      obtain ⟨middle, known⟩ := List.getLast?_eq_some_iff.mp repeats
      rw [ih, known, ← List.cons_append, List.dropLast_concat, List.cons_append,
        Ring.shoelace_cons, Ring.shoelace_cons, List.append_assoc]
      change _ = sweep ((first :: middle) ++ first :: [first])
      rw [sweep_append]
      simp [sweep]
  | case2 => rfl
  | case3 => rfl

theorem apart_iff {second : Node} {rest : List Node} :
    Ring.Apart (first :: second :: rest) ↔
      (first :: second :: rest).IsChain (· ≠ ·) ∧ (second :: rest).getLast? ≠ some first := by
  unfold Ring.Apart
  rw [List.take_succ_cons, List.take_zero, List.isChain_append, List.getLast?_cons_cons]
  refine and_congr_right fun _ => ⟨fun closed ends => ?_, fun opened => ⟨.singleton _, ?_⟩⟩
  · exact closed.2 first ends first rfl rfl
  · rintro last ends _ ⟨⟩ rfl
    exact opened ends

private theorem apart_dropClosing (chain : ring.IsChain (· ≠ ·)) :
    ring.dropClosing.length ≤ 1 ∨ ring.dropClosing.Apart := by
  fun_induction Ring.dropClosing ring with
  | case1 first second rest _ ih => exact ih <| List.IsChain.prefix chain (List.dropLast_prefix _)
  | case2 first second rest opened => exact .inr (apart_iff.mpr ⟨chain, opened⟩)
  | case3 ring short =>
      rcases ring with _ | ⟨first, _ | ⟨second, rest⟩⟩
      · exact .inl (by simp)
      · exact .inl (by simp)
      · exact absurd rfl (short first second rest)

private theorem dropClosing_of_apart (apart : ring.Apart) : ring.dropClosing = ring := by
  rcases ring with _ | ⟨first, _ | ⟨second, rest⟩⟩
  · simp [Ring.dropClosing]
  · simp [Ring.dropClosing]
  · rw [Ring.dropClosing, if_neg (apart_iff.mp apart).2]

/-! ## Clean rings -/

theorem sublist_dropClosing_dedupe (points : List Node) :
    (Ring.dropClosing (Ring.dedupe points)).Sublist points := by
  refine (isPrefix_dropClosing _).sublist.trans ?_
  rw [dedupe_eq_destutter]
  exact points.destutter_sublist _

private theorem sublist_clean (points : List Node) : (Ring.clean points).Sublist points :=
  (sublist_cleanRepeatedly _).trans (sublist_dropClosing_dedupe points)

theorem clean_cases {points : List Node} (near : ∀ node ∈ points, node.IsNear) :
    (Ring.clean points).shoelace = Ring.shoelace points ∧
      ((Ring.clean points).length ≤ 1 ∨ (Ring.clean points).Apart ∧
        (3 ≤ (Ring.clean points).length → (Ring.clean points).Turning)) := by
  have chain : (Ring.dedupe points).IsChain (· ≠ ·) := by
    rw [dedupe_eq_destutter]
    exact points.isChain_destutter _
  have listed := sublist_dropClosing_dedupe points
  have total := (shoelace_dropClosing _).trans (shoelace_dedupe points)
  unfold Ring.clean
  rcases Nat.lt_or_ge (Ring.dropClosing (Ring.dedupe points)).length 2 with short | two
  · rw [Ring.cleanRepeatedly, if_neg (by omega)]
    exact ⟨total, .inl (by omega)⟩
  · have apart := (apart_dropClosing chain).resolve_left (by omega)
    obtain ⟨apartLast, turning, same⟩ :=
      cleanRepeatedly_spec (fun node member => near node (listed.subset member)) apart two
    exact ⟨same.trans total, .inr ⟨apartLast, turning⟩⟩

private theorem clean_idem {points : List Node} (near : ∀ node ∈ points, node.IsNear) :
    Ring.clean (Ring.clean points) = Ring.clean points := by
  rcases (clean_cases near).2 with short | ⟨apart, _⟩
  · generalize Ring.clean points = ring at short
    rcases ring with _ | ⟨first, _ | ⟨second, rest⟩⟩
    · simp [Ring.clean, Ring.dedupe, Ring.dropClosing, Ring.cleanRepeatedly]
    · simp [Ring.clean, Ring.dedupe, Ring.dropClosing, Ring.cleanRepeatedly]
    · simp at short
  · have chain := apart.left_of_append
    have stays : Ring.dedupe (Ring.clean points) = Ring.clean points := by
      rw [dedupe_eq_destutter, List.destutter_of_isChain _ _ chain]
    change (Ring.dropClosing (Ring.dedupe (Ring.clean points))).cleanRepeatedly = Ring.clean points
    rw [stays, dropClosing_of_apart apart]
    exact cleanRepeatedly_idem _

/-- Cleaning keeps the shape of a ring near the middle of the grid. What is left are some of its points
in their order. None repeats the one before it and none lies straight between its neighbours, all the
way round, the exact area is the same, and cleaning once more changes nothing. -/
theorem clean_shape {points : List Node} (near : ∀ node ∈ points, node.IsNear) :
    (Ring.clean points).Sublist points ∧
      (1 < (Ring.clean points).length → (Ring.clean points).Apart) ∧
      (3 ≤ (Ring.clean points).length → (Ring.clean points).Turning) ∧
      (Ring.clean points).shoelace = Ring.shoelace points ∧
      Ring.clean (Ring.clean points) = Ring.clean points := by
  obtain ⟨total, outcome⟩ := clean_cases near
  refine ⟨sublist_clean points, fun two => ?_, fun three => ?_, total, clean_idem near⟩
  · exact (outcome.resolve_left (by omega)).1
  · exact (outcome.resolve_left (by omega)).2 three

/-- A square that starts inside a side, with a repeated corner, a spike and its start at the end. -/
def looseSquare : List Node :=
  [⟨2, 0⟩, ⟨4, 0⟩, ⟨4, 2⟩, ⟨7, 2⟩, ⟨9, 2⟩, ⟨4, 2⟩, ⟨4, 4⟩, ⟨4, 4⟩, ⟨0, 4⟩, ⟨0, 0⟩, ⟨1, 0⟩, ⟨2, 0⟩]

theorem clean_shape_looseSquare :
    (∀ node ∈ looseSquare, node.IsNear) ∧
      Ring.clean looseSquare = [⟨4, 0⟩, ⟨4, 2⟩, ⟨9, 2⟩, ⟨4, 2⟩, ⟨4, 4⟩, ⟨0, 4⟩, ⟨0, 0⟩] ∧
      (Ring.clean looseSquare).Apart ∧ (Ring.clean looseSquare).Turning ∧
      (Ring.clean looseSquare).shoelace = Ring.shoelace looseSquare ∧
      Ring.clean (Ring.clean looseSquare) = Ring.clean looseSquare := by
  have near : ∀ node ∈ looseSquare, node.IsNear := by decide +kernel
  have cleaned : Ring.clean looseSquare =
      [⟨4, 0⟩, ⟨4, 2⟩, ⟨9, 2⟩, ⟨4, 2⟩, ⟨4, 4⟩, ⟨0, 4⟩, ⟨0, 0⟩] := by
    decide +kernel
  obtain ⟨_, apart, turning, total, fixed⟩ := clean_shape near
  exact ⟨near, cleaned, apart (by rw [cleaned]; decide), turning (by rw [cleaned]; decide), total,
    fixed⟩

end Kerf.Outline
