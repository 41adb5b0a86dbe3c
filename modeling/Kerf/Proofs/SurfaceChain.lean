import Kerf.Passes.Height
import Mathlib.Data.List.Forall2
import Mathlib.Data.List.Perm.Subperm

/-!
# The order of a track at the cutting surface

A chain of moved segments grows at its end. A join that would run backwards takes segments off the end
again, but never the first one, so the segments of a chain stay in the order of the track and the first
of them is the first one with a length.

Main statement: `followSurface_keepsOrder`.
-/

set_option autoImplicit false

namespace Kerf.Track

/-- Whether a segment of a track has no length to speak of. -/
def IsStill (track : Track) (index : Nat) : Prop :=
  ∀ a b, track[index]? = some a → track[index + 1]? = some b →
    (b.position - a.position).length < shortLength

/-- Whether a segment of a track is the first one with a length. -/
def IsFirstLong (track : Track) (index : Nat) : Prop :=
  ¬ track.IsStill index ∧ ∀ earlier < index, track.IsStill earlier

/-- Whether a chain, whose latest line comes first, has lines for segments of a track below an index, in
the order of the track and from its first segment with a length on. -/
inductive Climbs (track : Track) : Nat → List SurfaceLine → Prop where
  | start {first count : Nat} {line : SurfaceLine} :
      track.IsFirstLong first → first < count → track[first]? = some line.source →
      Climbs track count [line]
  | next {index count : Nat} {line top : SurfaceLine} {chain : List SurfaceLine} :
      Climbs track index (top :: chain) → index < count → track[index]? = some line.source →
      Climbs track count (line :: top :: chain)

namespace Climbs

variable {track : Track} {count : Nat} {chain : List SurfaceLine}

theorem mono {later : Nat} (climbs : Climbs track count chain) (after : count ≤ later) :
    Climbs track later chain := by
  cases climbs with
  | start long before source => exact .start long (by omega) source
  | next climbs before source => exact .next climbs (by omega) source

theorem tail {line top : SurfaceLine} (climbs : Climbs track count (line :: top :: chain)) :
    Climbs track count (top :: chain) := by
  cases climbs with
  | next climbs before _ => exact climbs.mono (by omega)

/-- Joining the line of the next segment keeps the order, however many lines it drops. -/
theorem joinLine {line : SurfaceLine} (climbs : Climbs track count chain)
    (source : track[count]? = some line.source) :
    Climbs track (count + 1) (joinLine line chain) := by
  induction chain with
  | nil => cases climbs
  | cons top rest ih =>
      unfold Track.joinLine
      split
      · exact .next climbs (by omega) source
      · split
        · next backwards =>
            cases rest with
            | nil => simp at backwards
            | cons second rest => exact ih climbs.tail
        · exact .next climbs (by omega) source

theorem exists_indices (climbs : Climbs track count chain) :
    ∃ indices : List Nat, (∃ first, indices.head? = some first ∧ track.IsFirstLong first) ∧
      indices.Pairwise (· < ·) ∧ (∀ index ∈ indices, index < count) ∧
      List.Forall₂ (fun index line => track[index]? = some line.source) indices chain.reverse := by
  induction climbs with
  | @start first count line long before source =>
      exact ⟨[first], ⟨first, rfl, long⟩, by simp, by simpa using before, by simpa using source⟩
  | @next index count line top chain _ before source ih =>
      obtain ⟨indices, ⟨first, head, long⟩, increasing, below, sources⟩ := ih
      refine ⟨indices ++ [index], ⟨first, ?_, long⟩, ?_, ?_, ?_⟩
      · rw [List.head?_append, head, Option.some_or]
      · exact List.pairwise_append.mpr ⟨increasing, List.pairwise_singleton _ _, by simpa using below⟩
      · intro member listed
        rcases List.mem_append.mp listed with earlier | last
        · exact Nat.lt_trans (below member earlier) before
        · rwa [List.mem_singleton.mp last]
      · rw [List.reverse_cons]
        exact List.rel_append sources (.cons source .nil)

end Climbs

/-! ## Chains of a track -/

/-- What is known of a chain when the segments below an index have been joined to it. -/
def Chained (track : Track) (count : Nat) (chain : List SurfaceLine) : Prop :=
  chain = [] ∧ (∀ index < count, track.IsStill index) ∨ Climbs track count chain

theorem Chained.step {track : Track} {count : Nat} {chain : List SurfaceLine}
    (chained : Chained track count chain) {a b : Point} (here : track[count]? = some a)
    (there : track[count + 1]? = some b) {line : SurfaceLine} (source : line.source = a) :
    Chained track (count + 1)
      (if (b.position - a.position).length < shortLength then chain else joinLine line chain) := by
  have segment : track.IsStill count ↔ (b.position - a.position).length < shortLength := by
    constructor
    · exact fun still => still a b here there
    · intro short a' b' here' there'
      rw [here] at here'
      rw [there] at there'
      cases here'
      cases there'
      exact short
  rw [← source] at here
  split
  · next short =>
      rcases chained with ⟨rfl, still⟩ | climbs
      · refine .inl ⟨rfl, fun index below => ?_⟩
        rcases Nat.lt_succ_iff_lt_or_eq.mp below with earlier | rfl
        · exact still index earlier
        · exact segment.mpr short
      · exact .inr (climbs.mono (Nat.le_succ count))
  · next long =>
      rcases chained with ⟨rfl, still⟩ | climbs
      · exact .inr (.start ⟨mt segment.mp long, still⟩ (Nat.lt_succ_self count) here)
      · exact .inr (climbs.joinLine here)

private theorem chained_extendChain (tool : Tool) {track remaining : Track} {count : Nat}
    {chain : List SurfaceLine} (left : track.drop count = remaining) (nonempty : remaining ≠ [])
    (chained : Chained track count chain) :
    Chained track (track.length - 1) (extendChain tool chain remaining) := by
  induction remaining generalizing chain count with
  | nil => exact absurd rfl nonempty
  | cons a rest ih =>
      cases rest with
      | nil =>
          have counted := congrArg List.length left
          rw [List.length_drop, List.length_singleton] at counted
          rwa [extendChain, show track.length - 1 = count by omega]
          exact fun _ _ _ many => nomatch many
      | cons b rest =>
          have here : track[count]? = some a := by
            rw [← List.head?_drop, left, List.head?_cons]
          have onward : track.drop (count + 1) = b :: rest := by
            rw [← List.drop_drop, left, List.drop_succ_cons, List.drop_zero]
          have there : track[count + 1]? = some b := by
            rw [← List.head?_drop, onward, List.head?_cons]
          exact ih onward (List.cons_ne_nil _ _) (chained.step here there rfl)

private theorem chained_whole (tool : Tool) {track : Track} (nonempty : track ≠ []) :
    Chained track (track.length - 1) (extendChain tool [] track) :=
  chained_extendChain tool rfl nonempty (.inl ⟨rfl, fun _ below => absurd below (Nat.not_lt_zero _)⟩)

theorem isStill_of_le {track : Track} {index : Nat} (outside : track.length - 1 ≤ index) :
    track.IsStill index := by
  intro a b _ there
  have within := (List.getElem?_eq_some_iff.mp there).1
  omega

end Kerf.Track

namespace Kerf

/-- Whether a point is another one somewhere else: it has the other's direction, feed, speed, code and
messages. -/
def Point.IsMoved (point source : Point) : Prop := point = source.moveTo point.position

namespace Track

/-- Whether a track is made of some points of another one, in their order and each somewhere else, from
the start of its first segment with a length on, and of its last point. -/
structure KeepsOrder (track result : Track) : Prop where
  two_le : 2 ≤ result.length
  le_length : result.length ≤ track.length
  sources : ∃ indices : List Nat, indices.Pairwise (· < ·) ∧
    (∀ index ∈ indices, index < track.length - 1) ∧
    (∃ first, indices.head? = some first ∧ track.IsFirstLong first) ∧
    List.Forall₂ (fun index point => ∃ source, track[index]? = some source ∧ point.IsMoved source)
      indices result.dropLast
  last : ∃ point source, result.getLast? = some point ∧ track.getLast? = some source ∧
    point.IsMoved source

private theorem length_le_of_increasing {indices : List Nat} {count : Nat}
    (increasing : indices.Pairwise (· < ·)) (below : ∀ index ∈ indices, index < count) :
    indices.length ≤ count := by
  have distinct : indices.Nodup := increasing.imp Nat.ne_of_lt
  have fits : indices.Subperm (List.range count) :=
    List.subperm_of_subset distinct fun index member => List.mem_range.mpr (below index member)
  simpa using fits.length_le

theorem Climbs.keepsOrder {track : Track} {final : SurfaceLine} {earlier : List SurfaceLine}
    (climbs : Climbs track (track.length - 1) (final :: earlier)) {last : Point}
    (ended : track.getLast? = some last) (stop : Vec) :
    KeepsOrder track ((final :: earlier).reverse.map (fun line => line.source.moveTo line.enter) ++
      [last.moveTo stop]) := by
  obtain ⟨indices, first, increasing, below, sources⟩ := climbs.exists_indices
  have counted := sources.length_eq
  have fits := length_le_of_increasing increasing below
  rw [List.length_reverse, List.length_cons] at counted
  refine ⟨?_, ?_, ⟨indices, increasing, below, first, ?_⟩, last.moveTo stop, last, ?_, ended, rfl⟩
  · simp
  · simp only [List.length_append, List.length_map, List.length_reverse, List.length_cons,
      List.length_nil]
    omega
  · rw [List.dropLast_concat, List.forall₂_map_right_iff]
    exact sources.imp fun index line known => ⟨line.source, known, rfl⟩
  · rw [List.getLast?_concat]

/-- Moving a track to the cutting surface keeps its order and its ends. A track without a segment of
some length stays as it is. -/
theorem followSurface_keepsOrder (tool : Tool) (track : Track) :
    ((∀ index, track.IsStill index) → track.followSurface tool = track) ∧
      (¬ (∀ index, track.IsStill index) → KeepsOrder track (track.followSurface tool)) := by
  rcases eq_or_ne track [] with rfl | nonempty
  · exact ⟨fun _ => rfl, fun long => absurd (fun index => isStill_of_le (Nat.zero_le index)) long⟩
  obtain ⟨last, ended⟩ : ∃ last, track.getLast? = some last :=
    ⟨_, List.getLast?_eq_some_getLast nonempty⟩
  unfold followSurface
  rw [ended]
  rcases chained_whole tool nonempty with ⟨none, still⟩ | climbs
  · rw [none]
    refine ⟨fun _ => rfl, fun long => absurd (fun index => ?_) long⟩
    rcases Nat.lt_or_ge index (track.length - 1) with inside | outside
    · exact still index inside
    · exact isStill_of_le outside
  · obtain ⟨_, ⟨first, _, long, _⟩, _⟩ := climbs.exists_indices
    refine ⟨fun still => absurd (still first) long, fun _ => ?_⟩
    cases chain : extendChain tool [] track with
    | nil =>
        rw [chain] at climbs
        cases climbs
    | cons final earlier =>
        rw [chain] at climbs
        exact climbs.keepsOrder ended _

/-- A track that stands still at first and then crosses a notch; its points are told apart by feed. -/
def acrossNotch : Track :=
  [⟨⟨0, 0, 0⟩, Vec.zAxis, 1, -1, "", "", [], []⟩, ⟨⟨0, 0, 0⟩, Vec.zAxis, 2, -1, "", "", [], []⟩,
    ⟨⟨4, 0, 0⟩, Vec.zAxis, 3, -1, "", "", [], []⟩, ⟨⟨4.5, 0, -1⟩, Vec.zAxis, 4, -1, "", "", [], []⟩,
    ⟨⟨5, 0, 0⟩, Vec.zAxis, 5, -1, "", "", [], []⟩, ⟨⟨9, 0, 0⟩, Vec.zAxis, 6, -1, "", "", [], []⟩]

/-- A ball too wide for the notch. -/
def wideBall : Tool := { identity := 0, name := "ball", number := 1, tip := .ball, width := 4 }

theorem followSurface_keepsOrder_acrossNotch :
    ¬ (∀ index, acrossNotch.IsStill index) ∧
      KeepsOrder acrossNotch (acrossNotch.followSurface wideBall) ∧
      ((acrossNotch.followSurface wideBall).map (·.feed) == [2, 4, 5, 6]) = true := by
  have moves : ¬ (∀ index, acrossNotch.IsStill index) :=
    fun still => absurd (still 1 _ _ rfl rfl) (by decide +kernel)
  exact ⟨moves, (followSurface_keepsOrder wideBall acrossNotch).2 moves, by decide +kernel⟩

end Track

end Kerf
