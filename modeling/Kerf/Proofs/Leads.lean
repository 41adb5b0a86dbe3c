import Kerf.Passes.Lead
import Kerf.Proofs.Numbers
import Kerf.Proofs.Stances

/-!
# Leads around a track

A lead is a search along the samples of an arc, from an end of the track outward, for the first one
that is clear of the whole track. Half a turn never needs as many samples as the search allows for, so
an end is blocked only when no sample up to half a turn is clear.

Main statement: `withLeads_framed`. The track itself stays as it is, apart from a warning where it is
not flat or where an end is blocked, and the moves around it are bare.
-/

set_option autoImplicit false

namespace Kerf

open Kerf.Doubles

/-! ## Distance to a line -/

namespace Polyline

/-- Whether a place is farther than a clearance from every segment of a line. -/
def Clear (line : Polyline) (clearance : Float) (place : Vec) : Prop :=
  ∀ a b, [a, b] <:+: line → clearance < segmentDistance place a b

theorem clear_cons_iff {a b : Vec} {rest : Polyline} {clearance : Float} {place : Vec} :
    Clear (a :: b :: rest) clearance place ↔
      clearance < segmentDistance place a b ∧ Clear (b :: rest) clearance place := by
  constructor
  · intro clear
    exact ⟨clear a b ⟨[], rest, rfl⟩, fun p q pair => clear p q (List.infix_cons pair)⟩
  · rintro ⟨first, later⟩ p q pair
    rcases List.infix_cons_iff.mp pair with atFront | behind
    · obtain ⟨rfl, same⟩ := List.cons_prefix_cons.mp atFront
      obtain ⟨rfl, _⟩ := List.cons_prefix_cons.mp same
      exact first
    · exact later p q behind

private theorem clear_singleton {a : Vec} {clearance : Float} {place : Vec} :
    Clear [a] clearance place :=
  fun _ _ pair => absurd pair.length_le (by simp)

private theorem lt_nearestSegment_iff {place : Vec} {line : Polyline} {best clearance : Float} :
    clearance < nearestSegment place line best ↔ clearance < best ∧ line.Clear clearance place := by
  fun_induction nearestSegment place line best with
  | case1 best a b rest ih => rw [ih, lt_min_iff_lt, clear_cons_iff, and_assoc]
  | case2 line best short =>
      have clear : Clear line clearance place := by
        match line with
        | [] => exact fun _ _ pair => absurd pair.length_le (by simp)
        | [a] => exact clear_singleton
        | a :: b :: rest => exact (short a b rest rfl).elim
      exact (and_iff_left clear).symm

theorem lt_distanceFrom_iff {line : Polyline} (long : 2 ≤ List.length line) {clearance : Float}
    {place : Vec} : clearance < line.distanceFrom place ↔ line.Clear clearance place := by
  obtain _ | ⟨a, _ | ⟨b, rest⟩⟩ := line
  · exact absurd long (by simp)
  · exact absurd long (by simp)
  · change clearance < nearestSegment place (a :: b :: rest) Scalar.infinity ↔ _
    rw [lt_nearestSegment_iff, and_iff_right_iff_imp, clear_cons_iff]
    -- There is a segment, so what is below its distance is a number below the infinite start.
    rintro ⟨less, _⟩
    obtain ⟨number, _, placed⟩ := lt_iff_rank.mp less
    obtain ⟨infinite, top⟩ := top_of_infinite (x := Scalar.infinity) rfl
    exact lt_iff_rank.mpr ⟨number, infinite, top ▸ placed.trans_le le_top⟩

end Polyline

namespace Track

/-! ## Samples for half a turn -/

/-- A step that is a number at all is between one degree and a twelfth of a turn. -/
theorem leadStep_bounds {radius tolerance limit : Float} (finite : Fits 971 limit)
    (reached : leadStep radius tolerance ≤ limit) :
    Fits 971 (leadStep radius tolerance) ∧ 1 / 58 ≤ value (leadStep radius tolerance) ∧
      value (leadStep radius tolerance) ≤ 1 := by
  have widest : Between 0 1 0.5235987755982989 := by decide +kernel
  have degree : Between 0 1 Scalar.radiansPerDegree ∧ 1 / 58 ≤ value Scalar.radiansPerDegree := by
    decide +kernel
  have ordered : Scalar.radiansPerDegree ≤ 0.5235987755982989 := by decide +kernel
  have irreflexive : ¬ (0.5235987755982989 : Float) < 0.5235987755982989 := by decide +kernel
  obtain ⟨above, below⟩ := max_between ordered (by
    split
    · exact fun less => irreflexive (lt_min_iff_lt.mp less).1
    · exact irreflexive) finite reached
  change Scalar.radiansPerDegree ≤ leadStep radius tolerance at above
  change leadStep radius tolerance ≤ 0.5235987755982989 at below
  have fits := fits_of_le_of_le degree.1.fits widest.fits above below
  rw [le_iff degree.1.fits fits] at above
  rw [le_iff fits widest.fits] at below
  exact ⟨fits, degree.2.trans above, below.trans (by exact_mod_cast widest.high)⟩

theorem leadAngles_of_beyond {step angle : Float} (beyond : ¬ angle ≤ 3.141592653590793)
    (limit : Nat) : leadAngles step angle limit = [] := by
  cases limit with
  | zero => rfl
  | succ limit => exact if_neg beyond

variable {limit : Nat} {track : Track} {first last : Point}

private theorem leadAngles_add {step angle : Float} (finite : Fits 971 step)
    (wide : 1 / 58 ≤ value step)
    (narrow : value step ≤ 1) (finite' : Fits 971 angle) (positive : 0 ≤ value angle)
    (enough : 63 / 20 ≤ value angle + limit / 60) (more : Nat) :
    leadAngles step angle (limit + more) = leadAngles step angle limit := by
  have halfTurn : Fits 971 3.141592653590793 ∧ value 3.141592653590793 < 63 / 20 := by decide +kernel
  -- Each sample is a degree farther at least, less what rounding takes, so what is missing to half a
  -- turn is a sixtieth for each sample that is left.
  induction limit generalizing angle with
  | zero =>
      have beyond : ¬ angle ≤ 3.141592653590793 := by
        rw [le_iff finite' halfTurn.1]
        push_cast at enough
        linarith [halfTurn.2]
      rw [leadAngles_of_beyond beyond, leadAngles_of_beyond beyond]
  | succ limit ih =>
      rw [Nat.add_right_comm, leadAngles, leadAngles]
      split
      · next within =>
          rw [le_iff finite' halfTurn.1] at within
          obtain ⟨fits, _, error⟩ := rounds_of_spec 3 (value_add finite' finite) (by
            rw [abs_of_nonneg (by linarith)]
            linarith [halfTurn.2]) (by norm_num)
          have grown : value angle + 1 / 60 ≤ value (angle + step) := by
            have := (abs_le.mp error).2
            norm_num at this
            linarith
          rw [ih fits (by linarith) (by push_cast at enough; linarith)]
      · rfl

private theorem leadAngles_of_le (radius tolerance : Float) (more : maxLeadSamples ≤ limit) :
    leadAngles (leadStep radius tolerance) (leadStep radius tolerance) limit =
      leadAngles (leadStep radius tolerance) (leadStep radius tolerance) maxLeadSamples := by
  obtain ⟨extra, rfl⟩ := Nat.exists_eq_add_of_le more
  by_cases reached : leadStep radius tolerance ≤ 3.141592653590793
  · obtain ⟨fits, wide, narrow⟩ := leadStep_bounds (by decide +kernel) reached
    refine leadAngles_add fits wide narrow fits (by linarith) ?_ extra
    norm_num [maxLeadSamples]
    linarith
  · rw [leadAngles_of_beyond reached, leadAngles_of_beyond reached]

/-! ## One lead -/

/-- The places that a lead can pass, from its start outward. There are none for a heading that is too
short or a radius that is not positive. -/
def leadPlaces (plan : LeadPlan) (start along : Vec) (turning : Float) (limit : Nat) : List Vec :=
  let along := Vec.unit ⟨along.x, along.y, 0⟩
  if along.isShort || plan.radius <= 0 then []
  else
    let normal := along.rotate Vec.zAxis (plan.side * Scalar.pi / 2)
    let center := start + normal.scale plan.radius
    let step := leadStep plan.radius plan.tolerance
    (leadAngles step step limit).map fun angle =>
      center + (start - center).rotate Vec.zAxis (turning * angle)

/-- The places that a lead into a track can pass, from its first point outward. -/
def entryPlaces (plan : LeadPlan) (track : Track) (limit : Nat) : List Vec :=
  match track with
  | first :: second :: _ =>
      leadPlaces plan first.position (second.position - first.position) (-plan.side) limit
  | _ => []

/-- The places that a lead out of a track can pass, from its last point outward. -/
def exitPlaces (plan : LeadPlan) (track : Track) (limit : Nat) : List Vec :=
  match track.reverse with
  | last :: previous :: _ =>
      leadPlaces plan last.position (last.position - previous.position) plan.side limit
  | _ => []

/-- The moves of a lead at a stop of a line, from the stop outward: up to the first place that is
clear of the line, or none where no place is. -/
inductive Lead (line : Polyline) (clearance : Float) (stop : Point) (places : List Vec) :
    Track → Prop where
  | blocked (never : ∀ place ∈ places, ¬ line.Clear clearance place) :
      Lead line clearance stop places []
  | found {near far : List Vec} {place : Vec} (divided : places = near ++ place :: far)
      (early : ∀ earlier ∈ near, ¬ line.Clear clearance earlier)
      (clear : line.Clear clearance place) :
      Lead line clearance stop places ((near ++ [place]).map stop.motion)

/-- Whether a move has the direction, feed and speed of a stop and carries nothing. -/
structure BareMove (stop move : Point) : Prop where
  direction : move.direction = stop.direction
  feed : move.feed = stop.feed
  speed : move.speed = stop.speed
  preCode : move.preCode = ""
  postCode : move.postCode = ""
  warnings : move.warnings = []
  errors : move.errors = []

/-- A stop with a warning if its lead is blocked. -/
def noted (moves : Track) (stop : Point) : Point :=
  if moves.isEmpty then stop.addWarning leadBlocked else stop

section

variable {line : Polyline} {clearance : Float} {stop : Point} {places : List Vec} {moves : Track}

theorem Lead.bareMove (lead : Lead line clearance stop places moves) :
    ∀ move ∈ moves, BareMove stop move := by
  intro move member
  cases lead with
  | blocked => cases member
  | found =>
      obtain ⟨place, _, rfl⟩ := List.mem_map.mp member
      exact ⟨rfl, rfl, rfl, rfl, rfl, rfl, rfl⟩

theorem Lead.lt_distanceFrom (lead : Lead line clearance stop places moves)
    (long : 2 ≤ List.length line) :
    ∀ outermost ∈ moves.getLast?, clearance < line.distanceFrom outermost.position := by
  intro outermost member
  cases lead with
  | blocked => cases member
  | found divided early clear =>
      rw [List.map_append, List.map_singleton, List.getLast?_concat, Option.mem_some_iff] at member
      exact member ▸ (Polyline.lt_distanceFrom_iff long).mpr clear

private theorem untilClear_eq_none {isClear : Vec → Bool} {samples : List Vec}
    (blocked : untilClear isClear samples = none) : ∀ sample ∈ samples, isClear sample = false := by
  fun_induction untilClear isClear samples with
  | case1 => simp
  | case2 sample rest clear => cases blocked
  | case3 sample rest clear ih =>
      rw [Option.map_eq_none_iff] at blocked
      exact List.forall_mem_cons.mpr ⟨Bool.eq_false_iff.mpr clear, ih blocked⟩

private theorem untilClear_eq_some {isClear : Vec → Bool} {samples taken : List Vec}
    (found : untilClear isClear samples = some taken) :
    ∃ near place far, taken = near ++ [place] ∧ samples = near ++ place :: far ∧
      (∀ earlier ∈ near, isClear earlier = false) ∧ isClear place = true := by
  fun_induction untilClear isClear samples generalizing taken with
  | case1 => cases found
  | case2 sample rest clear =>
      cases found
      exact ⟨[], sample, rest, rfl, rfl, by simp, clear⟩
  | case3 sample rest clear ih =>
      obtain ⟨later, search, rfl⟩ := Option.map_eq_some_iff.mp found
      obtain ⟨near, place, far, rfl, rfl, early, free⟩ := ih search
      exact ⟨sample :: near, place, far, rfl, rfl,
        List.forall_mem_cons.mpr ⟨Bool.eq_false_iff.mpr clear, early⟩, free⟩

/-- A search along the places of a lead comes to a lead, and to nothing where it is blocked. -/
theorem exists_lead (long : 2 ≤ List.length line) (clearance : Float) (stop : Point)
    (places : List Vec) :
    ∃ moves, Lead line clearance stop places moves ∧
      (untilClear (fun sample => line.distanceFrom sample > clearance) places).map
        (List.map stop.motion) = if moves.isEmpty then none else some moves := by
  have far_iff (place : Vec) :
      (decide (line.distanceFrom place > clearance)) = true ↔ line.Clear clearance place :=
    decide_eq_true_iff.trans (Polyline.lt_distanceFrom_iff long)
  have near_iff (place : Vec) :
      (decide (line.distanceFrom place > clearance)) = false ↔ ¬ line.Clear clearance place := by
    rw [← far_iff, Bool.not_eq_true]
  cases search : untilClear (fun sample => line.distanceFrom sample > clearance) places with
  | none =>
      have never := untilClear_eq_none search
      exact ⟨[], .blocked fun place member => (near_iff place).mp (never place member), rfl⟩
  | some taken =>
      obtain ⟨near, place, far, rfl, divided, early, clear⟩ := untilClear_eq_some search
      refine ⟨_, .found divided (fun earlier member => (near_iff earlier).mp (early earlier member))
        ((far_iff place).mp clear), ?_⟩
      simp

end

/-! ## Both ends -/

theorem leadArc_eq (plan : LeadPlan) (start along : Vec) (turning : Float) :
    leadArc plan start along turning =
      untilClear (fun sample => plan.track.distanceFrom sample > plan.clearance)
        (leadPlaces plan start along turning maxLeadSamples) := by
  unfold leadArc leadPlaces
  dsimp only
  split <;> rfl

theorem leadPlaces_of_le (plan : LeadPlan) (start along : Vec) (turning : Float)
    (more : maxLeadSamples ≤ limit) :
    leadPlaces plan start along turning limit =
      leadPlaces plan start along turning maxLeadSamples := by
  unfold leadPlaces
  dsimp only
  rw [leadAngles_of_le plan.radius plan.tolerance more]

private theorem entryPlaces_of_le (plan : LeadPlan) (track : Track) (more : maxLeadSamples ≤ limit) :
    entryPlaces plan track limit = entryPlaces plan track maxLeadSamples := by
  unfold entryPlaces
  split
  · exact leadPlaces_of_le _ _ _ _ more
  · rfl

private theorem exitPlaces_of_le (plan : LeadPlan) (track : Track) (more : maxLeadSamples ≤ limit) :
    exitPlaces plan track limit = exitPlaces plan track maxLeadSamples := by
  unfold exitPlaces
  split
  · exact leadPlaces_of_le _ _ _ _ more
  · rfl

private theorem leadIn_eq (plan : LeadPlan) {rest : Track} (start : track = first :: rest) :
    leadIn plan track =
      ((untilClear (fun sample => plan.track.distanceFrom sample > plan.clearance)
        (entryPlaces plan track maxLeadSamples)).map (List.map first.motion)).map List.reverse := by
  subst start
  cases rest with
  | nil => rfl
  | cons second rest =>
      unfold leadIn entryPlaces
      dsimp only
      rw [leadArc_eq, Option.map_map]
      congr 1
      funext samples
      exact List.map_reverse

private theorem leadOut_eq (plan : LeadPlan) {front : Track} (stop : track = front ++ [last]) :
    leadOut plan track =
      (untilClear (fun sample => plan.track.distanceFrom sample > plan.clearance)
        (exitPlaces plan track maxLeadSamples)).map (List.map last.motion) := by
  subst stop
  unfold leadOut exitPlaces
  rw [List.reverse_concat]
  cases front.reverse with
  | nil => rfl
  | cons previous others =>
      dsimp only
      rw [leadArc_eq]

private theorem exists_leadIn (plan : LeadPlan) (long : 2 ≤ List.length plan.track) {rest : Track}
    (start : track = first :: rest) : ∃ before, (∀ limit, maxLeadSamples ≤ limit →
        Lead plan.track plan.clearance first (entryPlaces plan track limit) before) ∧
      leadIn plan track = if before.isEmpty then none else some before.reverse := by
  obtain ⟨before, lead, searched⟩ :=
    exists_lead long plan.clearance first (entryPlaces plan track maxLeadSamples)
  refine ⟨before, fun limit more => (entryPlaces_of_le plan track more).symm ▸ lead, ?_⟩
  rw [leadIn_eq plan start, searched]
  split <;> rfl

private theorem exists_leadOut (plan : LeadPlan) (long : 2 ≤ List.length plan.track) {front : Track}
    (stop : track = front ++ [last]) : ∃ after, (∀ limit, maxLeadSamples ≤ limit →
        Lead plan.track plan.clearance last (exitPlaces plan track limit) after) ∧
      leadOut plan track = if after.isEmpty then none else some after := by
  obtain ⟨after, lead, searched⟩ :=
    exists_lead long plan.clearance last (exitPlaces plan track maxLeadSamples)
  refine ⟨after, fun limit more => (exitPlaces_of_le plan track more).symm ▸ lead, ?_⟩
  rw [leadOut_eq plan stop, searched]

private theorem warnLast_concat (message : String) (front : Track) (last : Point) :
    warnLast message (front ++ [last]) = front ++ [last.addWarning message] := by
  induction front with
  | nil => rfl
  | cons point front ih =>
      have nonempty : front ++ [last] ≠ [] := List.concat_ne_nil last front
      obtain ⟨next, others, same⟩ := List.exists_cons_of_ne_nil nonempty
      rw [List.cons_append, same, warnLast, ← same, ih, List.cons_append]
      exact fun alone => nomatch alone

private theorem withLeads_of_flat {tool : Tool} {factor : Float} {middle before after : Track}
    (ends : track = first :: (middle ++ [last])) (flat : track.isFlat = true)
    (entry : leadIn (leadPlan tool factor track) track =
      if before.isEmpty then none else some before.reverse)
    (exit : leadOut (leadPlan tool factor track) track =
      if after.isEmpty then none else some after) :
    track.withLeads tool factor =
      before.reverse ++ (noted before first :: (middle ++ [noted after last])) ++ after := by
  have long : ¬ track.length < 2 := by simp [ends]
  have late (first : Point) : warnLast leadBlocked (first :: (middle ++ [last])) =
      first :: (middle ++ [last.addWarning leadBlocked]) :=
    warnLast_concat leadBlocked (first :: middle) last
  unfold withLeads
  rw [if_neg long, flat, Bool.not_true, if_neg Bool.false_ne_true]
  dsimp only
  rw [entry, exit, ends]
  cases before <;> cases after <;> simp [noted, warnFirst, late]

private theorem exists_ends (long : 2 ≤ track.length) :
    ∃ first middle last, track = first :: (middle ++ [last]) := by
  obtain _ | ⟨first, rest⟩ := track
  · exact absurd long (by simp)
  · have nonempty : rest ≠ [] := by
      rintro rfl
      exact absurd long (by simp)
    exact ⟨first, rest.dropLast, rest.getLast nonempty, by rw [List.dropLast_append_getLast]⟩

/-- A track that is not flat gets one warning. A flat one stays in one piece between bare moves: those
before it are listed from its first point outward, and those after it from its last point. An end
without moves is warned of, and has none only if no place on its arc is clear. -/
theorem withLeads_framed (tool : Tool) (factor : Float) (track : Track) (long : 2 ≤ track.length) :
    (track.isFlat = false → ∃ first rest, track = first :: rest ∧
      track.withLeads tool factor = first.addWarning leadNotFlat :: rest) ∧
    (track.isFlat = true → ∃ first middle last before after,
      track = first :: (middle ++ [last]) ∧
      track.withLeads tool factor =
        before.reverse ++ (noted before first :: (middle ++ [noted after last])) ++ after ∧
      (∀ move ∈ before, BareMove first move) ∧ (∀ move ∈ after, BareMove last move) ∧
      (∀ outermost ∈ before.getLast?,
        tool.effectiveInsertWidth / 2 < track.positions.distanceFrom outermost.position) ∧
      (∀ outermost ∈ after.getLast?,
        tool.effectiveInsertWidth / 2 < track.positions.distanceFrom outermost.position) ∧
      ∀ limit, maxLeadSamples ≤ limit →
        Lead track.positions (tool.effectiveInsertWidth / 2) first
          (entryPlaces (leadPlan tool factor track) track limit) before ∧
        Lead track.positions (tool.effectiveInsertWidth / 2) last
          (exitPlaces (leadPlan tool factor track) track limit) after) := by
  obtain ⟨first, middle, last, ends⟩ := exists_ends long
  have corners : 2 ≤ List.length track.positions := by rwa [positions, List.length_map]
  constructor
  · intro steep
    refine ⟨first, middle ++ [last], ends, ?_⟩
    unfold withLeads
    rw [if_neg (not_lt.mpr long), steep, Bool.not_false, if_pos rfl, ends]
    rfl
  · intro flat
    have stop : track = first :: middle ++ [last] := ends
    obtain ⟨before, into, entry⟩ := exists_leadIn (leadPlan tool factor track) corners ends
    obtain ⟨after, out, exit⟩ := exists_leadOut (leadPlan tool factor track) corners stop
    have entered := into maxLeadSamples (le_refl _)
    have left := out maxLeadSamples (le_refl _)
    exact ⟨first, middle, last, before, after, ends, withLeads_of_flat ends flat entry exit,
      entered.bareMove, left.bareMove, entered.lt_distanceFrom corners, left.lt_distanceFrom corners,
      fun limit more => ⟨into limit more, out limit more⟩⟩

/-- A line that stays at its end, where no heading is left for a lead. -/
def resting : Track :=
  [Point.make ⟨0, 0, 5⟩ Vec.zAxis, Point.make ⟨10, 0, 5⟩ Vec.zAxis, Point.make ⟨10, 0, 5⟩ Vec.zAxis]

/-- A mill whose leads take the widest steps. -/
def roughingMill : Tool :=
  { identity := 0, name := "", number := 1, tip := .square, width := 2, tolerance := 0.5 }

theorem withLeads_framed_resting :
    2 ≤ resting.length ∧ resting.isFlat = true ∧
      (resting.withLeads roughingMill 1).map (·.warnings) = [[], [], [], [leadBlocked]] ∧
      ∃ first middle last before after, resting = first :: (middle ++ [last]) ∧
        resting.withLeads roughingMill 1 =
          before.reverse ++ (noted before first :: (middle ++ [noted after last])) ++ after ∧
        (∀ move ∈ before, BareMove first move) ∧
        ∀ outermost ∈ before.getLast?,
          roughingMill.effectiveInsertWidth / 2 <
            resting.positions.distanceFrom outermost.position := by
  have long : 2 ≤ resting.length := by decide
  have flat : resting.isFlat = true := by decide +kernel
  obtain ⟨first, middle, last, before, after, ends, framed, bare, _, clear, _⟩ :=
    (withLeads_framed roughingMill 1 resting long).2 flat
  exact ⟨long, flat, by decide +kernel, first, middle, last, before, after, ends, framed, bare, clear⟩

end Track

end Kerf
