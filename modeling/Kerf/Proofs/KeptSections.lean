import Kerf.Proofs.Dressing
import Kerf.Proofs.Numbers
import Mathlib.Data.List.Chain
import Mathlib.Data.List.Nodup

/-!
# The sections kept of a level

A level is cut in sections, and what lies between them is finished. The sections are described by a
relation that goes from one to the next: either a section reaches up to the last index that is kept,
or it ends at a finished stretch that is long enough to be left out.

Main statement: `keptSections_cut_once`. The sections stand in order and apart, every unfinished index
lies in exactly one of them, and so the roughing passes of a level cut each of its unfinished points
exactly once.
-/

set_option autoImplicit false

namespace Kerf.Track

open Kerf.Stock (Form)

def Section.indices (kept : Section) : List Nat :=
  List.range' kept.first (kept.last + 1 - kept.first)

variable {index last : Nat} {finished : List Bool} {limit : Float}

theorem Section.mem_indices {kept : Section} :
    index ∈ kept.indices ↔ kept.first ≤ index ∧ index ≤ kept.last := by
  rw [indices, List.mem_range'_1]
  omega

/-- Whether a stretch of a level may be left out: it is finished from one index to another, which are
at least three points, and it is longer than the limit. -/
structure Skippable (level : Track) (finished : List Bool) (limit : Float) (low high : Nat) :
    Prop where
  finished : ∀ index, low ≤ index → index ≤ high → finished[index]? = some true
  count : 3 ≤ (level.cutSection ⟨low, high⟩).length
  long : (level.cutSection ⟨low, high⟩).positions.length > limit

private theorem length_cutSection (track : Track) (kept : Section) :
    (track.cutSection kept).length = min (kept.last + 1 - kept.first) (track.length - kept.first) := by
  rw [cutSection, List.length_take, List.length_drop]

theorem Skippable.add_two_le {level : Track} {low high : Nat}
    (skippable : Skippable level finished limit low high) : low + 2 ≤ high := by
  have count := skippable.count
  rw [length_cutSection] at count
  dsimp only at count
  omega

/-- What is kept of the indices from a first to a last one when finished stretches are left out. -/
inductive Divided (level : Track) (finished : List Bool) (limit : Float) (last : Nat) :
    Nat → List Section → Prop where
  | whole {first : Nat} : first ≤ last → Divided level finished limit last first [⟨first, last⟩]
  | split {first low high : Nat} {sections : List Section} :
      first ≤ low → Skippable level finished limit low high →
      Divided level finished limit last high sections →
      Divided level finished limit last first (⟨first, low⟩ :: sections)

namespace Divided

variable {level : Track} {finished : List Bool} {limit : Float} {first last : Nat}
  {sections : List Section}

theorem bounds (divided : Divided level finished limit last first sections) :
    first ≤ last ∧
      ∀ kept ∈ sections, first ≤ kept.first ∧ kept.first ≤ kept.last ∧ kept.last ≤ last := by
  induction divided with
  | whole ordered => simp [ordered]
  | split ordered skippable _ ih =>
      have apart := skippable.add_two_le
      obtain ⟨room, later⟩ := ih
      refine ⟨by omega, List.forall_mem_cons.mpr ⟨⟨Nat.le_refl _, ordered, by dsimp only; omega⟩, ?_⟩⟩
      intro kept member
      obtain ⟨after, inner⟩ := later kept member
      exact ⟨by omega, inner⟩

theorem ordered (divided : Divided level finished limit last first sections) :
    sections.Pairwise fun front back => front.last < back.first := by
  induction divided with
  | whole _ => exact List.pairwise_singleton _ _
  | split _ skippable rest ih =>
      have apart := skippable.add_two_le
      refine List.pairwise_cons.mpr ⟨fun kept member => ?_, ih⟩
      have after := (rest.bounds.2 kept member).1
      dsimp only
      omega

private theorem exists_head (divided : Divided level finished limit last first sections) :
    ∃ kept rest, sections = kept :: rest ∧ kept.first = first := by
  cases divided with
  | whole _ => exact ⟨_, _, rfl, rfl⟩
  | split _ _ _ => exact ⟨_, _, rfl, rfl⟩

theorem gaps (divided : Divided level finished limit last first sections) :
    sections.IsChain fun front back =>
      Skippable level finished limit front.last back.first := by
  induction divided with
  | whole _ => exact List.isChain_singleton _
  | split _ skippable rest ih =>
      obtain ⟨kept, others, rfl, begins⟩ := rest.exists_head
      exact List.isChain_cons_cons.mpr ⟨by rwa [begins], ih⟩

/-- Nothing between the first and the last index is lost but what is finished. -/
theorem covers (divided : Divided level finished limit last first sections) {index : Nat}
    (unfinished : finished[index]? = some false) (after : first ≤ index) (before : index ≤ last) :
    ∃ kept ∈ sections, index ∈ kept.indices := by
  induction divided with
  | whole _ => exact ⟨_, List.mem_singleton_self _, Section.mem_indices.mpr ⟨after, before⟩⟩
  | @split first low high _ _ skippable _ ih =>
      by_cases within : index ≤ low
      · exact ⟨_, List.mem_cons_self, Section.mem_indices.mpr ⟨after, within⟩⟩
      · by_cases inside : index ≤ high
        · have done := skippable.finished index (by omega) inside
          rw [unfinished] at done
          cases done
        · obtain ⟨kept, member, held⟩ := ih (by omega)
          exact ⟨kept, List.mem_cons_of_mem _ member, held⟩

end Divided

/-! ## Splitting at finished stretches -/

/-- The finished points that some points of a level begin with, as a part of the level. -/
theorem skippable_of_takeWhile {marked : List (Point × Bool)} {count : Nat} {point : Point}
    {rest : List (Point × Bool)} {stretch : Track}
    (defined : stretch = point :: (rest.takeWhile (·.2)).map (·.1))
    (inside : (marked.drop index).take count = (point, true) :: rest) (three : 3 ≤ stretch.length)
    (long : stretch.positions.length > limit) :
    Skippable (marked.map (·.1)) (marked.map (·.2)) limit index (index + stretch.length - 1) := by
  obtain ⟨done, known⟩ : ∃ done, done = (point, true) :: rest.takeWhile (·.2) := ⟨_, rfl⟩
  have flagged : ∀ entry ∈ done, entry.2 = true := by
    rw [known]
    exact List.forall_mem_cons.mpr ⟨rfl, List.all_eq_true.mp List.all_takeWhile⟩
  have same : stretch = done.map (·.1) := by rw [known, List.map_cons, defined]
  have size : stretch.length = done.length := by rw [same, List.length_map]
  have front : done = (marked.drop index).take done.length := by
    have leads : done <+: marked.drop index := by
      rw [known]
      exact ((List.prefix_cons_inj _).mpr (List.takeWhile_prefix _)).trans
        (inside ▸ List.take_prefix count _)
    exact List.prefix_iff_eq_take.mp leads
  have cut : Track.cutSection (marked.map (·.1)) ⟨index, index + stretch.length - 1⟩ = stretch := by
    rw [cutSection, same, List.length_map,
      show index + done.length - 1 + 1 - index = done.length by omega, ← List.map_drop,
      ← List.map_take, ← front]
  refine ⟨fun position low high => ?_, by rwa [cut], by rwa [cut]⟩
  have held : position - index < done.length := by omega
  have among : done[position - index]? = marked[position]? := by
    rw [front, List.getElem?_take_of_lt held, List.getElem?_drop]
    congr 1
    omega
  rw [List.getElem?_map, ← among, List.getElem?_eq_getElem held]
  exact congrArg some (flagged _ (List.getElem_mem held))

/-- What follows the finished points that some points of a level begin with. -/
theorem inside_of_dropWhile {marked : List (Point × Bool)} {point : Point}
    {rest : List (Point × Bool)}
    (inside : (point, true) :: rest = (marked.drop index).take (last - index)) :
    rest.dropWhile (·.2) =
      (marked.drop (index + (rest.takeWhile (·.2)).length + 1)).take
        (last - (index + (rest.takeWhile (·.2)).length + 1)) := by
  have tail : rest.dropWhile (·.2) = rest.drop (rest.takeWhile (·.2)).length := by
    have cut : (rest.takeWhile (·.2) ++ rest.dropWhile (·.2)).drop (rest.takeWhile (·.2)).length =
        rest.dropWhile (·.2) :=
      List.drop_left
    rw [List.takeWhile_append_dropWhile] at cut
    exact cut.symm
  have behind := congrArg (List.drop ((rest.takeWhile (·.2)).length + 1)) inside
  rw [List.drop_succ_cons, List.drop_take, List.drop_drop, ← tail] at behind
  rw [behind, Nat.sub_sub, Nat.add_assoc]

/-- Splitting divides the indices from the first one on, given the marked points strictly inside. -/
theorem divided_splitMiddle {marked : List (Point × Bool)} {first : Nat}
    {inside : List (Point × Bool)} (given : inside = (marked.drop index).take (last - index))
    (ordered : first ≤ last) (behind : first ≤ index) (total : last < marked.length) :
    Divided (marked.map (·.1)) (marked.map (·.2)) limit last first
      (splitMiddle limit first index last inside) := by
  have room : inside.length = last - index := by
    rw [given, List.length_take, List.length_drop]
    omega
  fun_induction splitMiddle limit first index last inside with
  | case1 first index => exact .whole ordered
  | case2 first index point rest ih =>
      rw [List.length_cons] at room
      refine ih ?_ ordered (by omega) (by omega)
      have tail := congrArg (List.drop 1) given
      rwa [List.drop_succ_cons, List.drop_zero, List.drop_take, List.drop_drop,
        show last - index - 1 = last - (index + 1) by omega] at tail
  | case3 first index point rest stretch final long ih =>
      have size : stretch.length = (rest.takeWhile (·.2)).length + 1 := by simp [stretch]
      have onward : final = index + (rest.takeWhile (·.2)).length := by omega
      have shorter := (List.takeWhile_sublist (l := rest) (·.2)).length_le
      rw [List.length_cons] at room
      rw [Bool.and_eq_true, decide_eq_true_eq, decide_eq_true_eq] at long
      refine .split behind (skippable_of_takeWhile rfl given.symm long.1 long.2) ?_
      refine ih ?_ (by omega) (by omega) ?_
      · rw [onward]
        exact inside_of_dropWhile given
      · rw [inside_of_dropWhile given, List.length_take, List.length_drop]
        omega
  | case4 first index point rest stretch final short ih =>
      have size : stretch.length = (rest.takeWhile (·.2)).length + 1 := by simp [stretch]
      have onward : final = index + (rest.takeWhile (·.2)).length := by omega
      refine ih ?_ ordered (by omega) ?_
      · rw [onward]
        exact inside_of_dropWhile given
      · rw [inside_of_dropWhile given, List.length_take, List.length_drop]
        omega

/-! ## The ends of what is kept -/

theorem length_takeWhile_le {flags : List Bool} (unfinished : flags[index]? = some false) :
    (flags.takeWhile id).length ≤ index := by
  induction flags generalizing index with
  | nil => cases unfinished
  | cons flag rest ih =>
      cases flag with
      | false => exact Nat.zero_le _
      | true =>
          cases index with
          | zero => cases unfinished
          | succ index =>
              rw [List.getElem?_cons_succ] at unfinished
              exact Nat.succ_le_succ (ih unfinished)

theorem firstKept_le (unfinished : finished[index]? = some false) (drop : Bool) :
    ∃ first, firstKept drop finished = some first ∧ first ≤ index := by
  have leading := length_takeWhile_le unfinished
  obtain ⟨inside, _⟩ := List.getElem?_eq_some_iff.mp unfinished
  unfold firstKept
  dsimp only
  split
  · exact ⟨0, rfl, Nat.zero_le _⟩
  · rw [if_neg (by omega)]
    exact ⟨_, rfl, by omega⟩

theorem le_lastKept (unfinished : finished[index]? = some false) (drop : Bool) :
    ∃ last, lastKept drop finished = some last ∧ index ≤ last := by
  obtain ⟨inside, _⟩ := List.getElem?_eq_some_iff.mp unfinished
  have mirrored : finished.reverse[finished.length - 1 - index]? = some false := by
    rw [List.getElem?_reverse (by omega), ← unfinished]
    congr 1
    omega
  have trailing := length_takeWhile_le mirrored
  unfold lastKept
  dsimp only
  split
  · exact ⟨_, rfl, by omega⟩
  · rw [if_neg (by omega)]
    exact ⟨_, rfl, by omega⟩

/-! ## Kept sections -/

theorem enclosed_of_kept {dropStart dropEnd : Bool} {first : Nat}
    (start : firstKept dropStart finished = some first)
    (stop : lastKept dropEnd finished = some last) (unfinished : finished[index]? = some false) :
    first ≤ index ∧ index ≤ last := by
  obtain ⟨low, begins, after⟩ := firstKept_le unfinished dropStart
  obtain ⟨high, ends, before⟩ := le_lastKept unfinished dropEnd
  rw [start] at begins
  rw [stop] at ends
  cases begins
  cases ends
  exact ⟨after, before⟩

private theorem exists_kept_unfinished {dropStart dropEnd : Bool} {level : Track} {first : Nat}
    (paired : finished.length = level.length) (start : firstKept dropStart finished = some first)
    (stop : lastKept dropEnd finished = some last) (unfinished : finished[index]? = some false) :
    ∃ entry ∈ ((level.zip finished).drop first).take (last + 1 - first), entry.2 = false := by
  obtain ⟨after, before⟩ := enclosed_of_kept start stop unfinished
  rw [← List.map_snd_zip (Nat.le_of_eq paired), List.getElem?_map] at unfinished
  obtain ⟨entry, here, flag⟩ := Option.map_eq_some_iff.mp unfinished
  refine ⟨entry, List.mem_of_getElem? (i := index - first) ?_, flag⟩
  rw [List.getElem?_take_of_lt (by omega), List.getElem?_drop, ← here]
  congr 1
  omega

/-- Either nothing is kept and nothing is unfinished, or the indices between two that enclose all
unfinished ones are divided. -/
theorem keptSections_cases (additions : Additions) {level : Track}
    (paired : finished.length = level.length) :
    keptSections additions level finished = [] ∧ (∀ index : Nat, finished[index]? ≠ some false) ∨
    ∃ first last, last < level.length ∧
      Divided level finished additions.dropMiddle last first
        (keptSections additions level finished) ∧
      ∀ index : Nat, finished[index]? = some false → first ≤ index ∧ index ≤ last := by
  have points : (level.zip finished).map (·.1) = level := List.map_fst_zip (Nat.le_of_eq paired.symm)
  have flags : (level.zip finished).map (·.2) = finished := List.map_snd_zip (Nat.le_of_eq paired)
  have size : (level.zip finished).length = level.length := by rw [← List.length_map, points]
  unfold keptSections
  split
  · next first last start stop =>
      have enclosed : ∀ index : Nat, finished[index]? = some false → first ≤ index ∧ index ≤ last :=
        fun _ => enclosed_of_kept start stop
      have final := lastKept_le stop
      dsimp only
      split
      · next nothing =>
          refine .inl ⟨rfl, fun index unfinished => ?_⟩
          -- An unfinished point is among the kept ones, so these are neither none nor all finished.
          obtain ⟨entry, member, flag⟩ := exists_kept_unfinished paired start stop unfinished
          rw [Bool.or_eq_true, Bool.and_eq_true, List.isEmpty_iff, List.all_eq_true] at nothing
          rcases nothing with none | ⟨_, all⟩
          · rw [none] at member
            cases member
          · have done := all entry member
            rw [flag] at done
            cases done
      · next worth =>
          rw [Bool.or_eq_true, not_or, List.isEmpty_iff] at worth
          have filled := List.length_pos_iff.mpr worth.1
          rw [List.length_take, List.length_drop, size] at filled
          refine .inr ⟨first, last, by omega, ?_, enclosed⟩
          split
          · have inside : ((((level.zip finished).drop first).take (last + 1 - first)).drop 1).dropLast =
                ((level.zip finished).drop (first + 1)).take (last - (first + 1)) := by
              rw [List.drop_take, List.drop_drop, List.dropLast_eq_take, List.take_take,
                List.length_take, List.length_drop, size]
              congr 1
              omega
            have divided : Divided ((level.zip finished).map (·.1)) ((level.zip finished).map (·.2))
                additions.dropMiddle last first _ :=
              divided_splitMiddle inside (by omega) (Nat.le_succ first) (by omega)
            rwa [points, flags] at divided
          · exact .whole (by omega)
  · next missing =>
      refine .inl ⟨rfl, fun index unfinished => ?_⟩
      obtain ⟨first, start, _⟩ := firstKept_le unfinished additions.dropStart
      obtain ⟨last, stop, _⟩ := le_lastKept unfinished additions.dropEnd
      exact missing first last start stop

/-- What is asked of the sections kept of a level: they lie in the level, in order and apart, every
unfinished index is in one of them and in no other, and between two of them a stretch is left out
that may be. -/
structure CutsOnce (level : Track) (finished : List Bool) (limit : Float) (sections : List Section) :
    Prop where
  within : ∀ kept ∈ sections, kept.first ≤ kept.last ∧ kept.last < level.length
  apart : sections.Pairwise fun front back => front.last < back.first
  once : ∀ index : Nat, finished[index]? = some false →
    (sections.flatMap Section.indices).count index = 1
  leftOut : ∀ index < level.length, index ∉ sections.flatMap Section.indices →
    finished[index]? = some true
  gaps : sections.IsChain fun front back => Skippable level finished limit front.last back.first

private theorem nodup_indices {sections : List Section}
    (apart : sections.Pairwise fun front back => front.last < back.first) :
    (sections.flatMap Section.indices).Nodup := by
  refine List.pairwise_flatMap.mpr ⟨fun kept _ => List.nodup_range', apart.imp ?_⟩
  intro front back before index first other second
  have left := (Section.mem_indices.mp first).2
  have right := (Section.mem_indices.mp second).1
  omega

theorem cutsOnce_keptSections (additions : Additions) {level : Track}
    (paired : finished.length = level.length) :
    CutsOnce level finished additions.dropMiddle (keptSections additions level finished) := by
  have covered : ∀ index : Nat, finished[index]? = some false →
      index ∈ (keptSections additions level finished).flatMap Section.indices := by
    intro index unfinished
    rcases keptSections_cases additions paired with ⟨_, none⟩ | ⟨first, last, _, divided, enclosed⟩
    · exact absurd unfinished (none index)
    · obtain ⟨after, before⟩ := enclosed index unfinished
      exact List.mem_flatMap.mpr (divided.covers unfinished after before)
  have apart : (keptSections additions level finished).Pairwise
      fun front back => front.last < back.first := by
    rcases keptSections_cases additions paired with ⟨empty, _⟩ | ⟨first, last, _, divided, _⟩
    · rw [empty]
      exact .nil
    · exact divided.ordered
  constructor
  case within => exact fun kept member => bounds_of_mem_keptSections paired member
  case apart => exact apart
  case once =>
    exact fun index unfinished =>
      List.count_eq_one_of_mem (nodup_indices apart) (covered index unfinished)
  case leftOut =>
    intro index inside outside
    obtain ⟨flag, known⟩ : ∃ flag, finished[index]? = some flag :=
      ⟨_, List.getElem?_eq_getElem (paired ▸ inside)⟩
    cases flag with
    | false => exact absurd (covered index known) outside
    | true => exact known
  case gaps =>
    rcases keptSections_cases additions paired with ⟨empty, _⟩ | ⟨first, last, _, divided, _⟩
    · rw [empty]
      exact .nil
    · exact divided.gaps

open Float.Model in
private theorem not_nonnegative_of_negative {x : Float} (negative : x < 0) :
    ¬ x ≥ 0 := fun nonnegative =>
  (Doubles.lt_iff_rank.mp negative).2.2.not_ge (Doubles.le_iff_rank.mp nonnegative).2.2

/-- A level is cut as a whole if nothing may be left out. -/
theorem keptSections_of_keep_all {additions : Additions} (start : additions.dropStart = false)
    (stop : additions.dropEnd = false) (middle : additions.dropMiddle < 0) {level : Track}
    (paired : finished.length = level.length) (nonempty : level ≠ []) :
    keptSections additions level finished = [⟨0, level.length - 1⟩] := by
  have positive := List.length_pos_iff.mpr nonempty
  have filled : ((level.zip finished).take (level.length - 1 + 1)).isEmpty = false := by
    rw [List.isEmpty_eq_false_iff, ← List.length_pos_iff, List.length_take, List.length_zip]
    omega
  simp [keptSections, firstKept, lastKept, start, stop, not_nonnegative_of_negative middle, paired,
    filled]

/-! ## Roughing -/

/-- The most material above any point. -/
def deepest (deep : List (Point × Float)) : Float :=
  deep.foldl (fun deepest (_, depth) => Scalar.max deepest depth) 0

/-- The roughing passes of one level. -/
def levelPasses (tool : Tool) (additions : Additions) (deep : List (Point × Float)) (number : Nat) :
    List Track :=
  (keptSections additions (level tool number deep) (finishedAbove tool number deep)).map
    (level tool number deep).cutSection

/-- The points of a track from an index on, by their indices. -/
theorem take_drop_eq (track : Track) (first count : Nat) :
    (track.drop first).take count = (List.range' first count).filterMap (track[·]?) := by
  induction count generalizing first with
  | zero => rw [List.take_zero, List.range'_zero, List.filterMap_nil]
  | succ count ih =>
      rw [List.range'_succ, List.filterMap_cons]
      by_cases inside : first < track.length
      · rw [List.drop_eq_getElem_cons inside, List.take_succ_cons, ih, List.getElem?_eq_getElem inside]
      · rw [List.getElem?_eq_none (by omega), List.drop_eq_nil_of_le (by omega), List.take_nil, ← ih,
          List.drop_eq_nil_of_le (by omega), List.take_nil]

private theorem flatten_levelPasses (tool : Tool) (additions : Additions)
    (deep : List (Point × Float)) (number : Nat) :
    (levelPasses tool additions deep number).flatten =
      ((keptSections additions (level tool number deep) (finishedAbove tool number deep)).flatMap
        Section.indices).filterMap ((level tool number deep)[·]?) := by
  rw [levelPasses, ← List.flatMap_def, List.filterMap_flatMap]
  exact congrArg (List.flatMap · _) (funext fun kept => take_drop_eq _ _ _)

private theorem roughing_eq_ok {tool : Tool} {form : Form} {additions : Additions} {track : Track}
    {passes : List Track} (found : roughing tool form additions track = .ok passes) :
    ∃ deep, withDepths form track = .ok deep ∧
      passes = (List.range (levelCount tool (deepest deep))).flatMap fun index =>
        levelPasses tool additions deep (index + 1) := by
  obtain ⟨deep, measured, same⟩ := bind_eq_ok.mp found
  cases same
  exact ⟨deep, measured, rfl⟩

/-- Leaving out finished sections never leaves out material. For any points and flags the kept
sections cut every unfinished index once and leave out nothing but what is finished; they are the
whole level if nothing may be left out. So the passes of every level of a track go through each of
its unfinished points exactly once. -/
theorem keptSections_cut_once (additions : Additions) :
    (∀ (level : Track) (finished : List Bool), finished.length = level.length →
      CutsOnce level finished additions.dropMiddle (keptSections additions level finished) ∧
      (additions.dropStart = false → additions.dropEnd = false → additions.dropMiddle < 0 →
        level ≠ [] → keptSections additions level finished = [⟨0, level.length - 1⟩])) ∧
    ∀ (tool : Tool) (form : Form) (track : Track) (passes : List Track),
      roughing tool form additions track = .ok passes →
      ∃ deep, withDepths form track = .ok deep ∧ deep.map (·.1) = track ∧
        passes = ((List.range (levelCount tool (deepest deep))).flatMap fun index =>
          levelPasses tool additions deep (index + 1)) ∧
        ∀ number, ∃ cut : List Nat,
          (levelPasses tool additions deep number).flatten =
            cut.filterMap ((level tool number deep)[·]?) ∧
          (∀ index ∈ cut, index < track.length) ∧
          ∀ index : Nat, (finishedAbove tool number deep)[index]? = some false →
            cut.count index = 1 := by
  constructor
  · intro level finished paired
    refine ⟨cutsOnce_keptSections additions paired, fun start stop middle nonempty => ?_⟩
    exact keptSections_of_keep_all start stop middle paired nonempty
  · intro tool form track passes found
    obtain ⟨deep, measured, same⟩ := roughing_eq_ok found
    refine ⟨deep, measured, map_fst_withDepths measured, same, fun number => ?_⟩
    have paired : (finishedAbove tool number deep).length = (level tool number deep).length := by
      simp [finishedAbove, level]
    have cuts := cutsOnce_keptSections additions paired
    have size : (level tool number deep).length = track.length := by
      rw [level, List.length_map, ← map_fst_withDepths measured, List.length_map]
    refine ⟨_, flatten_levelPasses tool additions deep number, fun index member => ?_, cuts.once⟩
    obtain ⟨kept, listed, held⟩ := List.mem_flatMap.mp member
    have final := (cuts.within kept listed).2
    have inner := (Section.mem_indices.mp held).2
    omega

/-- A track along the top of a block that goes down twice. -/
def twoDips : Track :=
  [⟨-1, 0, 2⟩, ⟨-0.75, 0, 2⟩, ⟨-0.5, 0, 0⟩, ⟨-0.25, 0, 2⟩, ⟨0, 0, 2⟩, ⟨0.25, 0, 2⟩, ⟨0.5, 0, 2⟩,
    ⟨0.75, 0, 1⟩, ⟨1, 0, 2⟩].map (Point.make · Vec.zAxis)

def onTop : List Bool := [true, true, false, true, true, true, true, false, true]

def dropAll : Additions := { stepDown := true, dropStart := true, dropMiddle := 0.5, dropEnd := true }

def mill : Tool := { identity := 0, name := "mill", number := 1, tip := .square, width := 2 }

theorem keptSections_cut_once_twoDips :
    keptSections dropAll twoDips onTop = [⟨1, 3⟩, ⟨6, 8⟩] ∧
    CutsOnce twoDips onTop 0.5 (keptSections dropAll twoDips onTop) ∧
    keptSections {} twoDips (List.replicate 9 true) = [⟨0, 8⟩] ∧
    ∃ passes, roughing mill Route.lowBlock dropAll twoDips = .ok passes ∧
      passes.map List.length = [3, 3] ∧
      ∃ deep, withDepths Route.lowBlock twoDips = .ok deep ∧
        ∀ number, ∃ cut : List Nat,
          (levelPasses mill dropAll deep number).flatten =
            cut.filterMap ((level mill number deep)[·]?) ∧
          ∀ index : Nat, (finishedAbove mill number deep)[index]? = some false →
            cut.count index = 1 := by
  have rough : (roughing mill Route.lowBlock dropAll twoDips).map (·.map List.length) =
      .ok [3, 3] := by
    decide +kernel
  refine ⟨by decide +kernel, ((keptSections_cut_once dropAll).1 twoDips _ rfl).1, ?_, ?_⟩
  · exact ((keptSections_cut_once {}).1 twoDips _ rfl).2 rfl rfl (by decide +kernel) (by decide)
  · cases found : roughing mill Route.lowBlock dropAll twoDips with
    | error cause =>
        rw [found] at rough
        cases rough
    | ok passes =>
        rw [found] at rough
        obtain ⟨deep, measured, _, _, cuts⟩ :=
          (keptSections_cut_once dropAll).2 mill Route.lowBlock twoDips passes found
        refine ⟨passes, rfl, Except.ok.inj rough, deep, measured, fun number => ?_⟩
        obtain ⟨cut, same, _, once⟩ := cuts number
        exact ⟨cut, same, once⟩

end Kerf.Track
