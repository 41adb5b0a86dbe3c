import Kerf.Proofs.PassContract

/-!
# What stages do to the points of a track

A stage moves points, gives them another feed or a warning, and puts points between them that carry
nothing. Only following the surface and roughing leave points out, and the finish passes are not
roughed: what lasts at the surface is on every one of them.
-/

set_option autoImplicit false

namespace Kerf

open Kerf.Stock (Form Fault)

/-- The warnings of the stages after the sideways move. -/
def stageWarnings : List String := [Track.heightOnFiveAxis, Track.leadNotFlat, Track.leadBlocked]

/-- Whether a point carries nothing, apart from warnings of the stages. -/
structure Point.Added (point : Point) : Prop where
  preCode : point.preCode = ""
  postCode : point.postCode = ""
  errors : point.errors = []
  warnings : point.warnings ⊆ stageWarnings

/-- Whether a point carries what another one does, and perhaps warnings of the stages. -/
structure Point.Keeps (source point : Point) : Prop where
  preCode : point.preCode = source.preCode
  postCode : point.postCode = source.postCode
  errors : point.errors = source.errors
  warnings : ∃ stages, stages ⊆ stageWarnings ∧ point.warnings = source.warnings ++ stages

namespace Point

theorem Keeps.refl (point : Point) : Keeps point point :=
  ⟨rfl, rfl, rfl, [], List.nil_subset _, (List.append_nil _).symm⟩

theorem Keeps.moveTo (point : Point) (place : Vec) : Keeps point (point.moveTo place) :=
  ⟨rfl, rfl, rfl, [], List.nil_subset _, (List.append_nil _).symm⟩

theorem Keeps.lifted (point : Point) (height : Float) : Keeps point (point.lifted height) :=
  Keeps.moveTo point _

theorem Keeps.addWarning (point : Point) {message : String} (known : message ∈ stageWarnings) :
    Keeps point (point.addWarning message) :=
  ⟨rfl, rfl, rfl, [message], by simpa using known, rfl⟩

theorem Keeps.trans {first second third : Point} (before : Keeps first second)
    (after : Keeps second third) : Keeps first third := by
  obtain ⟨early, earlyKnown, earlier⟩ := before.warnings
  obtain ⟨late, lateKnown, later⟩ := after.warnings
  refine ⟨after.preCode.trans before.preCode, after.postCode.trans before.postCode,
    after.errors.trans before.errors, early ++ late, List.append_subset.mpr ⟨earlyKnown, lateKnown⟩, ?_⟩
  rw [later, earlier, List.append_assoc]

theorem Added.keeps {source point : Point} (added : source.Added) (kept : source.Keeps point) :
    point.Added := by
  obtain ⟨stages, known, warned⟩ := kept.warnings
  refine ⟨kept.preCode.trans added.preCode, kept.postCode.trans added.postCode,
    kept.errors.trans added.errors, ?_⟩
  rw [warned]
  exact List.append_subset.mpr ⟨added.warnings, known⟩

theorem added_motion (point : Point) (place : Vec) : (point.motion place).Added :=
  ⟨rfl, rfl, rfl, List.nil_subset _⟩

private theorem added_rapid (point : Point) (place : Vec) : (point.rapid.moveTo place).Added :=
  ⟨rfl, rfl, rfl, List.nil_subset _⟩

end Point

namespace Track

/-- Whether a track has the points of another one, each with what it carries, and between them only
points that carry nothing. -/
inductive Dressed : Track → Track → Prop where
  | nil : Dressed [] []
  | added {source track : Track} {point : Point} :
      point.Added → Dressed source track → Dressed source (point :: track)
  | kept {source track : Track} {before after : Point} :
      before.Keeps after → Dressed source track → Dressed (before :: source) (after :: track)

namespace Dressed

theorem map {change : Point → Point} (keeps : ∀ point : Point, point.Keeps (change point))
    (track : Track) : Dressed track (track.map change) := by
  induction track with
  | nil => exact .nil
  | cons point rest ih => exact .kept (keeps point) ih

theorem refl (track : Track) : Dressed track track := by
  simpa using map Point.Keeps.refl track

theorem of_added {track : Track} (added : ∀ point ∈ track, point.Added) : Dressed [] track := by
  induction track with
  | nil => exact .nil
  | cons point rest ih =>
      obtain ⟨here, later⟩ := List.forall_mem_cons.mp added
      exact .added here (ih later)

theorem append {first second front back : Track} (before : Dressed first front)
    (after : Dressed second back) : Dressed (first ++ second) (front ++ back) := by
  induction before with
  | nil => exact after
  | added bare _ ih => exact .added bare ih
  | kept keeps _ ih => exact .kept keeps ih

theorem between {front source track back : Track} (before : Dressed [] front)
    (middle : Dressed source track) (after : Dressed [] back) :
    Dressed source (front ++ track ++ back) := by
  simpa using (before.append middle).append after

theorem trans {first second third : Track} (before : Dressed first second)
    (after : Dressed second third) : Dressed first third := by
  induction after generalizing first with
  | nil => exact before
  | added bare _ ih => exact .added bare (ih before)
  | kept keeps _ ih =>
      cases before with
      | added bare earlier => exact .added (bare.keeps keeps) (ih earlier)
      | kept keptBefore earlier => exact .kept (keptBefore.trans keeps) (ih earlier)

/-- What is left of a dressed track is dressed from what is left of its source. -/
theorem of_sublist {source track part : Track} (dressed : Dressed source track)
    (sublist : part.Sublist track) : ∃ less : Track, less.Sublist source ∧ Dressed less part := by
  induction dressed generalizing part with
  | nil =>
      cases sublist
      exact ⟨[], .slnil, .nil⟩
  | added bare _ ih =>
      cases sublist with
      | cons _ within => exact ih within
      | cons_cons _ within =>
          obtain ⟨less, smaller, rest⟩ := ih within
          exact ⟨less, smaller, .added bare rest⟩
  | @kept _ _ before _ keeps _ ih =>
      cases sublist with
      | cons _ within =>
          obtain ⟨less, smaller, rest⟩ := ih within
          exact ⟨less, smaller.cons _, rest⟩
      | cons_cons _ within =>
          obtain ⟨less, smaller, rest⟩ := ih within
          exact ⟨before :: less, smaller.cons_cons _, .kept keeps rest⟩

end Dressed

/-! ## Warnings -/

theorem dressed_warnFirst {message : String} (known : message ∈ stageWarnings) (track : Track) :
    Dressed track (track.warnFirst message) := by
  cases track with
  | nil => exact .nil
  | cons first rest => exact .kept (.addWarning first known) (.refl rest)

private theorem dressed_warnLast {message : String} (known : message ∈ stageWarnings)
    (track : Track) : Dressed track (track.warnLast message) := by
  fun_induction warnLast message track with
  | case1 => exact .nil
  | case2 last => exact .kept (.addWarning last known) .nil
  | case3 point rest _ ih => exact .kept (.refl point) ih

/-! ## The surface -/

/-- The points of a track that last when it is moved to the surface: those that start a line of the
chain, and the last one. A track without extent stays as it is. -/
def lasting (tool : Tool) (track : Track) : Track :=
  match extendChain tool [] track, track.getLast? with
  | final :: earlier, some last => (final :: earlier).reverse.map (·.source) ++ [last]
  | _, _ => track

/-- The points of a track that last when it is moved to the surface if that is asked for. -/
def lastingAt (machine : Machine) (tool : Tool) (additions : Additions) (track : Track) : Track :=
  if additions.heightOffset && !machine.isFiveAxis then lasting tool track else track

private theorem sources_joinLine (line : SurfaceLine) (chain : List SurfaceLine) :
    ((joinLine line chain).reverse.map (·.source)).Sublist
      (chain.reverse.map (·.source) ++ [line.source]) := by
  induction chain with
  | nil => exact List.Sublist.refl _
  | cons top rest ih =>
      unfold joinLine
      split
      · simp
      · split
        · refine ih.trans ?_
          simp
        · simp

private theorem sources_extendChain (tool : Tool) (chain : List SurfaceLine) (track : Track) :
    ((extendChain tool chain track).reverse.map (·.source)).Sublist
      (chain.reverse.map (·.source) ++ track.dropLast) := by
  fun_induction extendChain tool chain track with
  | case1 chain a b rest span longer ih =>
      refine ih.trans ?_
      rw [List.dropLast_cons_cons, List.append_cons]
      apply List.Sublist.append_right
      simp only [longer]
      split
      · exact List.sublist_append_left _ _
      · exact sources_joinLine _ chain
  | case2 chain track _ => exact List.sublist_append_left _ _

private theorem sublist_lasting (tool : Tool) (track : Track) :
    (lasting tool track).Sublist track := by
  unfold lasting
  split
  · next final earlier last chained ended =>
      have sources := sources_extendChain tool [] track
      obtain ⟨front, rfl⟩ := List.getLast?_eq_some_iff.mp ended
      rw [chained, List.reverse_nil, List.map_nil, List.nil_append, List.dropLast_concat] at sources
      exact sources.append_right [last]
  · exact List.Sublist.refl _

theorem sublist_lastingAt (machine : Machine) (tool : Tool) (additions : Additions)
    (track : Track) : (lastingAt machine tool additions track).Sublist track := by
  unfold lastingAt
  split
  · exact sublist_lasting tool track
  · exact List.Sublist.refl track

private theorem dressed_followSurface (tool : Tool) (track : Track) :
    Dressed (lasting tool track) (track.followSurface tool) := by
  have lines : ∀ chain : List SurfaceLine,
      Dressed (chain.map (·.source)) (chain.map fun line => line.source.moveTo line.enter) := by
    intro chain
    induction chain with
    | nil => exact .nil
    | cons line rest ih => exact .kept (.moveTo line.source line.enter) ih
  unfold lasting followSurface
  cases extendChain tool [] track with
  | nil => exact .refl track
  | cons final earlier =>
      cases track.getLast? with
      | none => exact .refl track
      | some last => exact .append (lines _) (.kept (.moveTo last _) .nil)

theorem dressed_atSurface (machine : Machine) (tool : Tool) (additions : Additions) (track : Track) :
    Dressed (lastingAt machine tool additions track) (track.atSurface machine tool additions) := by
  unfold lastingAt atSurface
  cases additions.heightOffset with
  | false => exact .refl track
  | true =>
      cases machine.isFiveAxis with
      | true => exact dressed_warnFirst (by simp [stageWarnings]) track
      | false => exact dressed_followSurface tool track

/-! ## Levels and skins -/

variable {form : Form} {track : Track} {tool : Tool} {additions : Additions}

private theorem dressed_refine {machine : Machine} {refined : Track}
    (found : refine machine form track = .ok refined) : Dressed track refined := by
  induction track generalizing refined with
  | nil =>
      cases found
      exact .nil
  | cons a rest ih =>
      cases rest with
      | nil =>
          cases found
          exact .refl [a]
      | cons b rest =>
          obtain ⟨added, between, later⟩ := bind_eq_ok.mp found
          obtain ⟨tail, onward, same⟩ := bind_eq_ok.mp later
          cases same
          refine .kept (.refl a) (Dressed.append (.of_added ?_) (ih onward))
          obtain ⟨⟨crosses, passage⟩, _, answer⟩ := bind_eq_ok.mp between
          cases crosses with
          | false =>
              cases answer
              simp
          | true =>
              cases answer
              intro point member
              obtain ⟨fraction, _, rfl⟩ := List.mem_map.mp member
              exact Point.added_motion _ _

theorem dressed_of_mem_finishing {skins : List Float} {pass : Track}
    (member : pass ∈ finishing skins track) : Dressed track pass := by
  obtain ⟨height, _, rfl⟩ := List.mem_map.mp member
  exact .map (fun point => Point.Keeps.lifted point height) track

theorem map_fst_withDepths {deep : List (Point × Float)}
    (measured : withDepths form track = .ok deep) : deep.map (·.1) = track := by
  induction track generalizing deep with
  | nil =>
      cases measured
      rfl
  | cons point rest ih =>
      rw [withDepths, List.mapM_cons] at measured
      obtain ⟨first, found, later⟩ := bind_eq_ok.mp measured
      obtain ⟨others, followed, same⟩ := bind_eq_ok.mp later
      obtain ⟨depth, _, answer⟩ := bind_eq_ok.mp found
      cases answer
      cases same
      rw [List.map_cons, ih followed]

private theorem dressed_level (tool : Tool) (number : Nat) (deep : List (Point × Float)) :
    Dressed (deep.map (·.1)) (level tool number deep) := by
  induction deep with
  | nil => exact .nil
  | cons head rest ih => exact .kept (.lifted head.1 _) ih

private theorem dressed_of_mem_roughing {passes : List Track}
    (found : roughing tool form additions track = .ok passes) {pass : Track}
    (member : pass ∈ passes) : ∃ part : Track, part.Sublist track ∧ Dressed part pass := by
  obtain ⟨deep, measured, same⟩ := bind_eq_ok.mp found
  cases same
  obtain ⟨index, _, cut⟩ := List.mem_flatMap.mp member
  obtain ⟨kept, _, rfl⟩ := List.mem_map.mp cut
  have whole := dressed_level tool (index + 1) deep
  rw [map_fst_withDepths measured] at whole
  exact whole.of_sublist ((List.take_sublist _ _).trans (List.drop_sublist _ _))

/-- Every pass is dressed from a part of the track, and some pass from all of it. -/
theorem dressed_depthPasses {machine : Machine} {passes : List Track}
    (found : depthPasses machine tool form additions track = .ok passes) :
    (∀ pass ∈ passes, ∃ part : Track, part.Sublist track ∧ Dressed part pass) ∧
      ∃ pass ∈ passes, Dressed track pass := by
  have finished : ∀ refined : Track, ∃ pass, pass ∈ finishing additions.onion refined := by
    intro refined
    apply List.exists_mem_of_length_pos
    rw [length_finishing]
    omega
  unfold depthPasses at found
  split at found
  · obtain ⟨refined, crossed, later⟩ := bind_eq_ok.mp found
    obtain ⟨rough, levels, same⟩ := bind_eq_ok.mp later
    cases same
    have whole := dressed_refine crossed
    constructor
    · intro pass member
      rcases List.mem_append.mp member with deep | last
      · obtain ⟨part, smaller, dressed⟩ := dressed_of_mem_roughing levels deep
        obtain ⟨less, least, earlier⟩ := whole.of_sublist smaller
        exact ⟨less, least, earlier.trans dressed⟩
      · exact ⟨track, .refl _, whole.trans (dressed_of_mem_finishing last)⟩
    · obtain ⟨pass, last⟩ := finished refined
      exact ⟨pass, List.mem_append_right _ last, whole.trans (dressed_of_mem_finishing last)⟩
  · cases found
    constructor
    · intro pass member
      exact ⟨track, .refl _, dressed_of_mem_finishing member⟩
    · obtain ⟨pass, last⟩ := finished track
      exact ⟨pass, last, dressed_of_mem_finishing last⟩

/-! ## The ends of a pass -/

private theorem added_of_mem_leadIn {plan : LeadPlan} {point : Point}
    (member : point ∈ (leadIn plan track).getD []) : point.Added := by
  unfold leadIn at member
  split at member
  · next first second _ =>
      cases arc : leadArc plan first.position (second.position - first.position) (-plan.side) with
      | none => simp [arc] at member
      | some samples =>
          rw [arc] at member
          obtain ⟨sample, _, rfl⟩ := List.mem_map.mp member
          exact Point.added_motion first sample
  · cases member

private theorem added_of_mem_leadOut {plan : LeadPlan} {point : Point}
    (member : point ∈ (leadOut plan track).getD []) : point.Added := by
  unfold leadOut at member
  split at member
  · next last previous _ _ =>
      cases arc : leadArc plan last.position (last.position - previous.position) plan.side with
      | none => simp [arc] at member
      | some samples =>
          rw [arc] at member
          obtain ⟨sample, _, rfl⟩ := List.mem_map.mp member
          exact Point.added_motion last sample
  · cases member

private theorem dressed_withLeads (tool : Tool) (factor : Float) (track : Track) :
    Dressed track (track.withLeads tool factor) := by
  unfold withLeads
  split
  · exact .refl track
  · split
    · exact dressed_warnFirst (by simp [stageWarnings]) track
    · have blocked : leadBlocked ∈ stageWarnings := by simp [stageWarnings]
      dsimp only
      have before : Dressed [] ((leadIn (leadPlan tool factor track) track).getD []) :=
        .of_added fun _ => added_of_mem_leadIn
      have after : Dressed [] ((leadOut (leadPlan tool factor track) track).getD []) :=
        .of_added fun _ => added_of_mem_leadOut
      have first : Dressed track
          (if (leadIn (leadPlan tool factor track) track).isSome then track
            else track.warnFirst leadBlocked) := by
        split
        · exact .refl track
        · exact dressed_warnFirst blocked track
      have last : ∀ entered : Track, Dressed entered
          (if (leadOut (leadPlan tool factor track) track).isSome then entered
            else entered.warnLast leadBlocked) := by
        intro entered
        split
        · exact .refl entered
        · exact dressed_warnLast blocked entered
      exact before.between (first.trans (last _)) after

theorem added_of_above {point reached : Point}
    (found : above tool form point = .ok (some reached)) : reached.Added := by
  obtain ⟨place, _, answer⟩ := bind_eq_ok.mp found
  split at answer
  · cases answer
  · cases answer
    exact Point.added_rapid point place

private theorem keeps_plunge (tool : Tool) (point : Point) : point.Keeps (plunge tool point) := by
  unfold plunge
  split
  · exact ⟨rfl, rfl, rfl, [], List.nil_subset _, (List.append_nil _).symm⟩
  · exact .refl point

private theorem dressed_withApproach {approached : Track}
    (found : withApproach tool form track = .ok approached) : Dressed track approached := by
  cases track with
  | nil =>
      cases found
      exact .nil
  | cons first rest =>
      obtain ⟨reached, lifted, answer⟩ := bind_eq_ok.mp found
      cases reached with
      | none =>
          cases answer
          exact .refl _
      | some approach =>
          cases answer
          exact .added (added_of_above lifted) (.kept (keeps_plunge tool first) (.refl rest))

private theorem dressed_withRetreat {left : Track} (found : withRetreat tool form track = .ok left) :
    Dressed track left := by
  unfold withRetreat at found
  split at found
  · cases found
    exact .refl track
  · obtain ⟨reached, lifted, answer⟩ := bind_eq_ok.mp found
    cases answer
    refine Dressed.between .nil (.refl track) (.of_added ?_)
    intro point member
    rw [Option.mem_toList.mp member] at lifted
    exact added_of_above lifted

theorem dressed_withEnds {pass : Track} (found : withEnds tool form additions track = .ok pass) :
    Dressed track pass := by
  have leads : Dressed track
      (if additions.lead != 0 then withLeads tool additions.lead track else track) := by
    split
    · exact dressed_withLeads tool additions.lead track
    · exact .refl track
  rw [withEnds_eq] at found
  obtain ⟨entered, approached, left⟩ := bind_eq_ok.mp found
  have entry : Dressed track entered := by
    refine leads.trans ?_
    split at approached
    · exact dressed_withApproach approached
    · cases approached
      exact .refl _
  refine entry.trans ?_
  split at left
  · exact dressed_withRetreat left
  · cases left
    exact .refl _

/-! ## All passes -/

section

variable {machine : Machine} {tool : Tool} {form : Form} {additions : Additions}
  {loops passes : List Track}

theorem dressed_of_mem_passesOf (found : passesOf machine tool form additions loops = .ok passes)
    {pass : Track} (member : pass ∈ passes) :
    ∃ loop ∈ loops, ∃ part : Track,
      part.Sublist (lastingAt machine tool additions loop) ∧ Dressed part pass := by
  obtain ⟨cuts, deepened, ended⟩ := bind_eq_ok.mp found
  obtain ⟨cut, inside, finished⟩ := exists_of_mem_mapM ended member
  obtain ⟨group, grouped, listed⟩ := List.mem_flatten.mp inside
  obtain ⟨loop, source, deep⟩ := exists_of_mem_mapM deepened grouped
  obtain ⟨part, smaller, dressed⟩ := (dressed_depthPasses deep).1 cut listed
  obtain ⟨less, least, earlier⟩ :=
    (dressed_atSurface machine tool additions loop).of_sublist smaller
  exact ⟨loop, source, less, least, earlier.trans (dressed.trans (dressed_withEnds finished))⟩

theorem exists_dressed_of_passesOf
    (found : passesOf machine tool form additions loops = .ok passes) {loop : Track}
    (source : loop ∈ loops) :
    ∃ pass ∈ passes, Dressed (lastingAt machine tool additions loop) pass := by
  obtain ⟨cuts, deepened, ended⟩ := bind_eq_ok.mp found
  obtain ⟨group, grouped, deep⟩ := exists_result_of_mapM deepened source
  obtain ⟨cut, listed, dressed⟩ := (dressed_depthPasses deep).2
  obtain ⟨pass, member, finished⟩ :=
    exists_result_of_mapM ended (List.mem_flatten.mpr ⟨group, grouped, listed⟩)
  refine ⟨pass, member, ?_⟩
  exact (dressed_atSurface machine tool additions loop).trans
    (dressed.trans (dressed_withEnds finished))

end

end Track

end Kerf
