import Kerf.Machine.Writer
import Kerf.Passes.Basic
import Kerf.Proofs.ClearRoute
import Kerf.Proofs.OutlineLoops

/-!
# The contract of the passes

What a path can be expected to expand into. No stage loses the last point of a track, so every pass
has something to cut; there is a finish pass for each skin and one in any case; and what is not a
point stays with the path, except that nothing is left to run.

Main statement: the passes of a path can be written as they are, and a path without passes has no
context, has no points, or was moved sideways to nothing.
-/

set_option autoImplicit false

namespace Kerf

open Kerf.Stock (Form Fault)

namespace Track

/-! ## Moving sideways and to the surface -/

variable {track : Track} {tool : Tool} {machine : Machine} {form : Form} {kept : Section}
  {additions : Additions}

theorem warnFirst_ne_nil (nonempty : track ≠ []) (message : String) :
    track.warnFirst message ≠ [] := by
  cases track with
  | nil => exact absurd rfl nonempty
  | cons first rest => exact List.cons_ne_nil _ _

private theorem warnLast_ne_nil (nonempty : track ≠ []) (message : String) :
    track.warnLast message ≠ [] := by
  cases track with
  | nil => exact absurd rfl nonempty
  | cons first rest => cases rest <;> exact List.cons_ne_nil _ _

theorem ofLoop_ne_nil {loop : List Planar} (nonempty : loop ≠ []) (source : Point) :
    ofLoop source loop ≠ [] :=
  fun empty => nonempty (List.map_eq_nil_iff.mp empty)

private theorem takeAttachments_ne_nil (nonempty : track ≠ []) (source : Point) :
    takeAttachments source track ≠ [] := by
  cases track with
  | nil => exact absurd rfl nonempty
  | cons first rest => exact List.cons_ne_nil _ _

/-- Only a flat track can collapse. -/
theorem isFlat_of_sideways_eq_none {factor : Float}
    (collapsed : track.sideways tool factor = none) : track.isFlat = true := by
  unfold sideways at collapsed
  split at collapsed
  · cases collapsed
  · next flat => simpa using flat

private theorem ne_nil_of_sideways {factor : Float} {loops : List Track}
    (moved : track.sideways tool factor = some loops) (nonempty : track ≠ []) :
    loops ≠ [] ∧ ∀ loop ∈ loops, loop ≠ [] := by
  unfold sideways at moved
  split at moved
  · cases moved
    refine ⟨List.cons_ne_nil _ _, ?_⟩
    intro loop member
    rw [List.mem_singleton.mp member]
    exact warnFirst_ne_nil nonempty offsetNotFlat
  · split at moved
    · cases moved
    · next first rest _ =>
        dsimp only at moved
        split at moved
        · cases moved
        · next corners others found =>
            cases moved
            refine ⟨List.cons_ne_nil _ _, ?_⟩
            have outlined : ∀ loop ∈ corners :: others, loop ≠ [] := by
              intro loop member
              rw [← found] at member
              exact Outline.ne_nil_of_mem_offset member
            intro loop member
            rcases List.mem_cons.mp member with rfl | later
            · exact takeAttachments_ne_nil (ofLoop_ne_nil (outlined _ List.mem_cons_self) first) first
            · obtain ⟨other, listed, rfl⟩ := List.mem_map.mp later
              exact ofLoop_ne_nil (outlined _ (List.mem_cons_of_mem _ listed)) first

private theorem followSurface_ne_nil (nonempty : track ≠ []) (tool : Tool) :
    track.followSurface tool ≠ [] := by
  unfold followSurface
  split
  · exact List.append_ne_nil_of_right_ne_nil _ (List.cons_ne_nil _ _)
  · exact nonempty

private theorem atSurface_ne_nil (nonempty : track ≠ []) (machine : Machine) (tool : Tool)
    (additions : Additions) : track.atSurface machine tool additions ≠ [] := by
  unfold atSurface
  split
  · exact nonempty
  · split
    · exact warnFirst_ne_nil nonempty heightOnFiveAxis
    · exact followSurface_ne_nil nonempty tool

/-! ## Levels and skins -/

private theorem ne_nil_of_refine {refined : Track} (found : refine machine form track = .ok refined)
    (nonempty : track ≠ []) : refined ≠ [] := by
  cases track with
  | nil => exact absurd rfl nonempty
  | cons first rest =>
      cases rest with
      | nil =>
          cases found
          exact nonempty
      | cons second rest =>
          obtain ⟨added, _, later⟩ := bind_eq_ok.mp found
          obtain ⟨tail, _, same⟩ := bind_eq_ok.mp later
          cases same
          exact List.cons_ne_nil _ _

/-- Sections that are split off lie within the section that is split. -/
theorem bounds_of_mem_splitMiddle {limit : Float} {first index last : Nat}
    {inside : List (Point × Bool)} (ordered : first ≤ last) (behind : first ≤ index)
    (room : index + inside.length ≤ last + 1)
    (member : kept ∈ splitMiddle limit first index last inside) :
    kept.first ≤ kept.last ∧ kept.last ≤ last := by
  fun_induction splitMiddle limit first index last inside with
  | case1 first index =>
      rw [List.mem_singleton.mp member]
      exact ⟨ordered, Nat.le_refl _⟩
  | case2 first index point rest ih =>
      simp only [List.length_cons] at room
      exact ih ordered (by omega) (by omega) member
  | case3 first index point rest stretch final long ih =>
      have parts : (rest.takeWhile (·.2)).length + (rest.dropWhile (·.2)).length = rest.length := by
        rw [← List.length_append, List.takeWhile_append_dropWhile]
      simp only [final, stretch, List.length_cons, List.length_map] at room ih member
      rcases List.mem_cons.mp member with rfl | later
      · exact ⟨behind, by dsimp only; omega⟩
      · exact ih (by omega) (by omega) (by omega) later
  | case4 first index point rest stretch final short ih =>
      have parts : (rest.takeWhile (·.2)).length + (rest.dropWhile (·.2)).length = rest.length := by
        rw [← List.length_append, List.takeWhile_append_dropWhile]
      simp only [final, stretch, List.length_cons, List.length_map] at room ih member
      exact ih ordered (by omega) (by omega) member

theorem lastKept_le {drop : Bool} {finished : List Bool} {last : Nat}
    (kept : lastKept drop finished = some last) : last ≤ finished.length - 1 := by
  unfold lastKept at kept
  dsimp only at kept
  split at kept
  · cases kept
    exact Nat.le_refl _
  · split at kept
    · cases kept
    · cases kept
      exact Nat.sub_le _ _

/-- The sections kept of a level are ranges of its indices. -/
theorem bounds_of_mem_keptSections {level : Track} {finished : List Bool}
    (paired : finished.length = level.length)
    (member : kept ∈ keptSections additions level finished) :
    kept.first ≤ kept.last ∧ kept.last < level.length := by
  unfold keptSections at member
  split at member
  · next first last _ ends =>
      have final := lastKept_le ends
      dsimp only at member
      split at member
      · cases member
      · next worth =>
          rw [Bool.or_eq_true, not_or, List.isEmpty_iff] at worth
          have length : (((level.zip finished).drop first).take (last + 1 - first)).length =
              min (last + 1 - first) (level.length - first) := by
            simp [paired]
          have positive := List.length_pos_iff.mpr worth.1
          rw [length] at positive
          split at member
          · have inner := bounds_of_mem_splitMiddle (by omega) (by omega)
              (by simp only [List.length_dropLast, List.length_drop, length]; omega) member
            omega
          · rw [List.mem_singleton.mp member]
            dsimp only
            omega
  · cases member

private theorem cutSection_ne_nil (ordered : kept.first ≤ kept.last)
    (inside : kept.last < track.length) : track.cutSection kept ≠ [] := by
  apply List.ne_nil_of_length_pos
  simp only [cutSection, List.length_take, List.length_drop]
  omega

private theorem ne_nil_of_mem_roughing {passes : List Track}
    (found : roughing tool form additions track = .ok passes) {pass : Track}
    (member : pass ∈ passes) : pass ≠ [] := by
  obtain ⟨deep, _, same⟩ := bind_eq_ok.mp found
  cases same
  obtain ⟨index, _, cut⟩ := List.mem_flatMap.mp member
  obtain ⟨kept, listed, rfl⟩ := List.mem_map.mp cut
  obtain ⟨ordered, inside⟩ := bounds_of_mem_keptSections (by simp [finishedAbove, level]) listed
  exact cutSection_ne_nil ordered inside

theorem length_finishing (skins : List Float) (track : Track) :
    (finishing skins track).length = max 1 skins.length := by
  rw [finishing, List.length_map, finishHeights]
  split
  · next none => simp [List.isEmpty_iff.mp none]
  · next skinned =>
      have positive := List.length_pos_iff.mpr (mt List.isEmpty_iff.mpr skinned)
      rw [(Sorting.perm_byInsertion _ _).length_eq]
      omega

theorem ne_nil_of_mem_finishing {skins : List Float} {pass : Track}
    (member : pass ∈ finishing skins track) (nonempty : track ≠ []) : pass ≠ [] := by
  obtain ⟨height, _, rfl⟩ := List.mem_map.mp member
  exact fun empty => nonempty (List.map_eq_nil_iff.mp empty)

private theorem depthPasses_spec {passes : List Track}
    (found : depthPasses machine tool form additions track = .ok passes) (nonempty : track ≠ []) :
    max 1 additions.onion.length ≤ passes.length ∧ ∀ pass ∈ passes, pass ≠ [] := by
  unfold depthPasses at found
  split at found
  · obtain ⟨refined, crossed, later⟩ := bind_eq_ok.mp found
    obtain ⟨rough, levels, same⟩ := bind_eq_ok.mp later
    cases same
    constructor
    · rw [List.length_append, length_finishing]
      omega
    · intro pass member
      rcases List.mem_append.mp member with deep | last
      · exact ne_nil_of_mem_roughing levels deep
      · exact ne_nil_of_mem_finishing last (ne_nil_of_refine crossed nonempty)
  · cases found
    exact ⟨Nat.le_of_eq (length_finishing _ _).symm, fun pass member => ne_nil_of_mem_finishing member nonempty⟩

/-! ## The ends of a pass -/

private theorem withLeads_ne_nil (nonempty : track ≠ []) (tool : Tool) (factor : Float) :
    track.withLeads tool factor ≠ [] := by
  unfold withLeads
  split
  · exact nonempty
  · split
    · exact warnFirst_ne_nil nonempty leadNotFlat
    · apply List.append_ne_nil_of_left_ne_nil
      apply List.append_ne_nil_of_right_ne_nil
      have entered : (if (leadIn (leadPlan tool factor track) track).isSome then track
          else track.warnFirst leadBlocked) ≠ [] := by
        split
        · exact nonempty
        · exact warnFirst_ne_nil nonempty leadBlocked
      split
      · exact entered
      · exact warnLast_ne_nil entered leadBlocked

private theorem ne_nil_of_withApproach {approached : Track}
    (found : withApproach tool form track = .ok approached) (nonempty : track ≠ []) :
    approached ≠ [] := by
  cases track with
  | nil => exact absurd rfl nonempty
  | cons first rest =>
      obtain ⟨reached, _, answer⟩ := bind_eq_ok.mp found
      cases reached <;>
      · cases answer
        exact List.cons_ne_nil _ _

private theorem ne_nil_of_withRetreat {left : Track} (found : withRetreat tool form track = .ok left)
    (nonempty : track ≠ []) : left ≠ [] := by
  unfold withRetreat at found
  split at found
  · cases found
    exact nonempty
  · obtain ⟨reached, _, answer⟩ := bind_eq_ok.mp found
    cases answer
    exact List.append_ne_nil_of_left_ne_nil nonempty _

theorem withEnds_eq (tool : Tool) (form : Form) (additions : Additions) (track : Track) :
    withEnds tool form additions track =
      let led := if additions.lead != 0 then withLeads tool additions.lead track else track
      (if additions.insert then withApproach tool form led else .ok led) >>= fun entered =>
        if additions.retract then withRetreat tool form entered else .ok entered := by
  unfold withEnds
  dsimp only
  split <;> rfl

private theorem ne_nil_of_withEnds {pass : Track}
    (found : withEnds tool form additions track = .ok pass)
    (nonempty : track ≠ []) : pass ≠ [] := by
  have led : (if additions.lead != 0 then withLeads tool additions.lead track else track) ≠ [] := by
    split
    · exact withLeads_ne_nil nonempty tool additions.lead
    · exact nonempty
  rw [withEnds_eq] at found
  obtain ⟨entered, approached, later⟩ := bind_eq_ok.mp found
  have entry : entered ≠ [] := by
    split at approached
    · exact ne_nil_of_withApproach approached led
    · cases approached
      exact led
  split at later
  · exact ne_nil_of_withRetreat later entry
  · cases later
    exact entry

/-- The passes of some loops: at least as many as one loop has skins, and all with points. -/
theorem passesOf_spec {loops passes : List Track}
    (found : passesOf machine tool form additions loops = .ok passes) (loopsSome : loops ≠ [])
    (nonempty : ∀ loop ∈ loops, loop ≠ []) :
    max 1 additions.onion.length ≤ passes.length ∧ ∀ pass ∈ passes, pass ≠ [] := by
  obtain ⟨cuts, deepened, ended⟩ := bind_eq_ok.mp found
  have groups : ∀ group ∈ cuts,
      max 1 additions.onion.length ≤ group.length ∧ ∀ cut ∈ group, cut ≠ [] := by
    intro group member
    obtain ⟨loop, listed, deep⟩ := exists_of_mem_mapM deepened member
    exact depthPasses_spec deep (atSurface_ne_nil (nonempty loop listed) machine tool additions)
  constructor
  · rw [length_mapM ended]
    cases cuts with
    | nil =>
        have same := length_mapM deepened
        exact absurd (List.length_eq_zero_iff.mp same.symm) loopsSome
    | cons group others =>
        have first := (groups group List.mem_cons_self).1
        rw [List.flatten_cons, List.length_append]
        omega
  · intro pass member
    obtain ⟨cut, inside, finished⟩ := exists_of_mem_mapM ended member
    obtain ⟨group, grouped, listed⟩ := List.mem_flatten.mp inside
    exact ne_nil_of_withEnds finished ((groups group grouped).2 cut listed)

/-! ## Stages that ask the stock -/

/-- Only levels, approach and retreat ask the stock anything, so without them there is always an
answer. -/
theorem exists_passesOf (machine : Machine) (tool : Tool) (form : Form)
    (asksNothing : (additions.stepDown || additions.insert || additions.retract) = false)
    (loops : List Track) : ∃ passes, passesOf machine tool form additions loops = .ok passes := by
  simp only [Bool.or_eq_false_iff] at asksNothing
  obtain ⟨⟨levels, approach⟩, retreat⟩ := asksNothing
  have deepens : ∀ loop ∈ loops, ∃ group, depthPasses machine tool form additions
      (atSurface machine tool additions loop) = .ok group := by
    intro loop _
    simp only [depthPasses, levels]
    exact ⟨_, rfl⟩
  obtain ⟨cuts, deepened⟩ := exists_mapM deepens
  have finishes : ∀ cut ∈ cuts.flatten, ∃ pass, withEnds tool form additions cut = .ok pass := by
    intro cut _
    simp only [withEnds, approach, retreat]
    exact ⟨_, rfl⟩
  obtain ⟨passes, ended⟩ := exists_mapM finishes
  exact ⟨passes, bind_eq_ok.mpr ⟨cuts, deepened, ended⟩⟩

end Track

/-! ## Context -/

namespace Path

/-- What a path lacks to be written, the tool first. -/
def lack (path : Path) : Option Missing :=
  if path.tool.isNone then some .tool else if path.form.isNone then some .stock else none

theorem context_eq_ok {path : Path} {tool : Tool} {form : Form} :
    path.context = .ok (tool, form) ↔ path.tool = some tool ∧ path.form = some form := by
  unfold context
  cases path.tool <;> cases path.form <;> simp

theorem context_eq_error {path : Path} {cause : PathError} :
    path.context = .error cause ↔
      ∃ missing, path.lack = some missing ∧ cause = .missingContext path.name missing := by
  unfold context lack
  cases path.tool <;> cases path.form <;> simp [eq_comm]

theorem exists_context_resolve (path : Path) {tool : Option Tool} {form : Option Form}
    (held : tool.isSome = true) (stock : form.isSome = true) :
    ∃ context, (path.resolve tool form).context = .ok context := by
  obtain ⟨tool, rfl⟩ := Option.isSome_iff_exists.mp held
  obtain ⟨form, rfl⟩ := Option.isSome_iff_exists.mp stock
  unfold context resolve
  cases path.tool <;> cases path.form <;> exact ⟨_, rfl⟩

/-- Nothing is filled in where nothing is missing. -/
theorem resolve_of_context {path : Path} {context : Tool × Form}
    (known : path.context = .ok context) (tool : Option Tool) (form : Option Form) :
    path.resolve tool form = path := by
  obtain ⟨held, stock⟩ := context_eq_ok.mp known
  unfold resolve
  rw [held, stock]
  change { path with tool := some context.1, form := some context.2 } = path
  rw [← held, ← stock]

theorem ready_eq_ok {path : Path} {context : Tool × Form} :
    path.ready = .ok context ↔ path.context = .ok context ∧ path.additions.pending = false := by
  unfold ready
  rw [bind_eq_ok]
  cases path.additions.pending <;> simp [bind, Except.bind, pure, Except.pure, throw, throwThe,
    MonadExceptOf.throw]

private theorem pending_resolved : Additions.resolved.pending = false := by decide +kernel

/-- A path along other points has nothing left to run, so that it can be written as soon as its
context is known. -/
theorem ready_along {path : Path} {context : Tool × Form} (known : path.context = .ok context)
    (points : Track) : (path.along points).ready = .ok context :=
  ready_eq_ok.mpr ⟨known, pending_resolved⟩

end Path

theorem Machine.exists_writePath {path : Path} {context : Tool × Form}
    (ready : path.ready = .ok context) (machine : Machine) (program : Program) :
    ∃ written, machine.writePath program path = .ok written := by
  unfold writePath
  rw [ready]
  exact ⟨_, rfl⟩

/-! ## Passes -/

namespace Path

variable {path : Path} {machine : Machine}

private theorem isFlat_of_loops_eq_none {tool : Tool} (collapsed : path.loops tool = none) :
    (path.additions.offset != 0) = true ∧ path.points.isFlat = true := by
  unfold loops at collapsed
  split at collapsed
  · next offset => exact ⟨offset, Track.isFlat_of_sideways_eq_none collapsed⟩
  · cases collapsed

private theorem ne_nil_of_loops {tool : Tool} {loops : List Track}
    (moved : path.loops tool = some loops)
    (nonempty : path.points ≠ []) : loops ≠ [] ∧ ∀ loop ∈ loops, loop ≠ [] := by
  unfold Path.loops at moved
  split at moved
  · exact Track.ne_nil_of_sideways moved nonempty
  · cases moved
    exact ⟨List.cons_ne_nil _ _, by simpa using nonempty⟩

/-- How a path comes to have passes. -/
theorem passes_eq_ok {passes : List Path} (found : path.passes machine = .ok passes) :
    ∃ tool form loops tracks, path.context = .ok (tool, form) ∧ path.points ≠ [] ∧
      path.loops tool = some loops ∧
      Track.passesOf machine tool form path.additions loops = .ok tracks ∧
      passes = tracks.map path.along := by
  obtain ⟨⟨tool, form⟩, known, later⟩ := bind_eq_ok.mp found
  dsimp only at later
  split at later
  · cases later
  · next filled =>
      split at later
      · cases later
      · next loops moved =>
          obtain ⟨tracks, expanded, same⟩ := bind_eq_ok.mp later
          cases same
          exact ⟨tool, form, loops, tracks, mapError_eq_ok.mp known,
            mt List.isEmpty_iff.mpr filled, moved, mapError_eq_ok.mp expanded, rfl⟩

/-- How a path comes to have none. -/
inductive NoPasses (machine : Machine) (path : Path) : PassError → Prop where
  | lacking {missing : Missing} : path.lack = some missing →
      NoPasses machine path (.context (.missingContext path.name missing))
  | empty : path.points = [] → NoPasses machine path (.noPoints path.name)
  | collapsed {tool : Tool} {form : Form} : path.context = .ok (tool, form) →
      path.loops tool = none → NoPasses machine path .collapsed
  | stuck {tool : Tool} {form : Form} {loops : List Track} {fault : Fault} :
      path.context = .ok (tool, form) →
      Track.passesOf machine tool form path.additions loops = .error fault →
      NoPasses machine path (.fault fault)

theorem noPasses_of_passes {cause : PassError} (failed : path.passes machine = .error cause) :
    NoPasses machine path cause := by
  rcases bind_eq_error.mp failed with unknown | ⟨⟨tool, form⟩, known, later⟩
  · obtain ⟨original, lacking, rfl⟩ := mapError_eq_error.mp unknown
    obtain ⟨missing, lack, rfl⟩ := context_eq_error.mp lacking
    exact .lacking lack
  · have context := mapError_eq_ok.mp known
    dsimp only at later
    split at later
    · next empty =>
        cases later
        exact .empty (List.isEmpty_iff.mp empty)
    · split at later
      · next collapsed =>
          cases later
          exact .collapsed context collapsed
      · rcases bind_eq_error.mp later with stopped | ⟨_, _, impossible⟩
        · obtain ⟨fault, unanswered, rfl⟩ := mapError_eq_error.mp stopped
          exact .stuck context unanswered
        · cases impossible

theorem passes_eq_error {cause : PassError} (failed : path.passes machine = .error cause) :
    (∃ missing, path.lack = some missing ∧
        cause = .context (.missingContext path.name missing)) ∨
      path.points = [] ∧ cause = .noPoints path.name ∨
      (path.additions.offset != 0) = true ∧ path.points.isFlat = true ∧ cause = .collapsed ∨
      (path.additions.stepDown || path.additions.insert || path.additions.retract) = true ∧
        ∃ fault, cause = .fault fault := by
  cases noPasses_of_passes failed with
  | lacking lack => exact .inl ⟨_, lack, rfl⟩
  | empty empty => exact .inr (.inl ⟨empty, rfl⟩)
  | collapsed _ collapsed =>
      obtain ⟨offset, flat⟩ := isFlat_of_loops_eq_none collapsed
      exact .inr (.inr (.inl ⟨offset, flat, rfl⟩))
  | @stuck tool form loops fault _ unanswered =>
      refine .inr (.inr (.inr ⟨?_, fault, rfl⟩))
      -- Nothing but the stock can leave a query without an answer.
      cases asks : path.additions.stepDown || path.additions.insert || path.additions.retract
      · obtain ⟨passes, answered⟩ := Track.exists_passesOf machine tool form asks loops
        rw [answered] at unanswered
        cases unanswered
      · rfl

theorem ready_of_mem_passes {passes : List Path} (found : path.passes machine = .ok passes)
    {pass : Path} (member : pass ∈ passes) : ∃ context, pass.ready = .ok context := by
  obtain ⟨tool, form, loops, tracks, known, _, _, _, rfl⟩ := passes_eq_ok found
  obtain ⟨track, _, rfl⟩ := List.mem_map.mp member
  exact ⟨(tool, form), ready_along known track⟩

theorem passes_spec {passes : List Path} (found : path.passes machine = .ok passes) :
    max 1 path.additions.onion.length ≤ passes.length ∧ ∀ pass ∈ passes, pass.points ≠ [] := by
  obtain ⟨tool, form, loops, tracks, _, nonempty, moved, expanded, rfl⟩ := passes_eq_ok found
  obtain ⟨loopsSome, filled⟩ := ne_nil_of_loops moved nonempty
  obtain ⟨counted, points⟩ := Track.passesOf_spec expanded loopsSome filled
  refine ⟨by rwa [List.length_map], ?_⟩
  intro pass member
  obtain ⟨track, listed, rfl⟩ := List.mem_map.mp member
  exact points track listed

/-- The contract of the passes. A path has a pass for each skin and at least one, and every pass has
points, is the path in all but its points and stages, and can be written on every program. A path
without passes lacks its tool or stock, has no points, or is flat and was asked to move sideways,
unless a query of the stock, which only three stages make, has no answer. -/
theorem passes_contract (machine : Machine) (path : Path) :
    (∀ passes, path.passes machine = .ok passes →
      max 1 path.additions.onion.length ≤ passes.length ∧
      ∀ pass ∈ passes, pass.points ≠ [] ∧ pass.name = path.name ∧ pass.tool = path.tool ∧
        pass.form = path.form ∧ pass.preCode = path.preCode ∧ pass.postCode = path.postCode ∧
        (∃ context, pass.ready = .ok context) ∧
        ∀ program, ∃ written, machine.writePath program pass = .ok written) ∧
    ∀ cause, path.passes machine = .error cause →
      (∃ missing, path.lack = some missing ∧
        cause = .context (.missingContext path.name missing)) ∨
      path.points = [] ∧ cause = .noPoints path.name ∨
      (path.additions.offset != 0) = true ∧ path.points.isFlat = true ∧ cause = .collapsed ∨
      (path.additions.stepDown || path.additions.insert || path.additions.retract) = true ∧
        ∃ fault, cause = .fault fault := by
  refine ⟨?_, fun cause failed => passes_eq_error failed⟩
  intro passes found
  obtain ⟨counted, points⟩ := passes_spec found
  refine ⟨counted, ?_⟩
  intro pass member
  obtain ⟨context, ready⟩ := ready_of_mem_passes found member
  obtain ⟨_, _, _, tracks, _, _, _, _, rfl⟩ := passes_eq_ok found
  have filled := points pass member
  obtain ⟨track, _, rfl⟩ := List.mem_map.mp member
  exact ⟨filled, rfl, rfl, rfl, rfl, rfl, ⟨context, ready⟩,
    fun program => machine.exists_writePath ready program⟩

/-- A hole in the middle of a block, to be drilled in a level and two skins with an approach and a
retreat for each. -/
def hole : Path :=
  { name := "hole"
    points := [{ position := Vec.zero, direction := Vec.zAxis, feed := 100 }]
    tool := some { identity := 0, name := "drill", number := 1, tip := .v, width := 1 }
    form := some Route.lowBlock
    additions := { insert := true, retract := true, stepDown := true, onion := [0.25, 0.5] }
    preCode := "M8" }

theorem passes_contract_hole :
    let machine : Machine := ⟨{}, .vertical⟩
    (∃ passes, hole.passes machine = .ok passes ∧ 2 ≤ passes.length ∧
      ∀ pass ∈ passes, pass.points ≠ [] ∧ pass.name = "hole" ∧ pass.preCode = "M8" ∧
        ∀ program, ∃ written, machine.writePath program pass = .ok written) ∧
    ∃ cause, ({ hole with form := none }).passes machine = .error cause ∧
      cause = .context (.missingContext "hole" .stock) := by
  intro machine
  have succeeds : (hole.passes machine).isOk = true := by decide +kernel
  constructor
  · obtain ⟨passes, found⟩ := exists_of_isOk succeeds
    obtain ⟨counted, contract⟩ := (passes_contract machine hole).1 passes found
    refine ⟨passes, found, counted, ?_⟩
    intro pass member
    obtain ⟨points, name, _, _, preCode, _, _, writable⟩ := contract pass member
    exact ⟨points, name, preCode, writable⟩
  · refine ⟨_, rfl, ?_⟩
    rcases (passes_contract machine { hole with form := none }).2 _ rfl with
      ⟨missing, lack, same⟩ | ⟨empty, _⟩ | ⟨_, _, other⟩ | ⟨_, fault, other⟩
    · cases lack
      exact same
    · cases empty
    · cases other
    · cases other

end Path

end Kerf
