import Kerf.Instruction.Prepare
import Kerf.Proofs.Dressing

/-!
# What passes carry

The stages that expand a path into its passes move, add and drop points, but the only messages they
write themselves are warnings. So every error on a point of a pass was on a point of the path.
-/

set_option autoImplicit false

namespace Kerf

open Kerf.Stock (Form Fault)

namespace Track

def errors (track : Track) : List String := track.flatMap (·.errors)

theorem errors_cons (point : Point) (track : Track) :
    errors (point :: track) = point.errors ++ errors track :=
  rfl

theorem mem_errors {track : Track} {message : String} :
    message ∈ errors track ↔ ∃ point ∈ track, message ∈ point.errors :=
  List.mem_flatMap

theorem errors_eq_nil {track : Track} (bare : ∀ point ∈ track, point.errors = []) :
    errors track = [] :=
  List.flatMap_eq_nil_iff.mpr bare

theorem errors_subset_of_mem {track : Track} {point : Point} (member : point ∈ track) :
    point.errors ⊆ errors track :=
  fun _ attached => mem_errors.mpr ⟨point, member, attached⟩

theorem errors_subset {track source : Track}
    (kept : ∀ point ∈ track, point.errors ⊆ errors source) : errors track ⊆ errors source := by
  intro message attached
  obtain ⟨point, member, here⟩ := mem_errors.mp attached
  exact kept point member here

private theorem errors_mono {track source : Track} (included : track ⊆ source) :
    errors track ⊆ errors source :=
  errors_subset fun _ member => errors_subset_of_mem (included member)

/-! ## Stages -/

@[simp] theorem errors_warnFirst (message : String) (track : Track) :
    errors (track.warnFirst message) = errors track := by
  cases track <;> rfl

theorem errors_ofLoop (source : Point) (loop : List Planar) : errors (ofLoop source loop) = [] := by
  apply errors_eq_nil
  intro point member
  obtain ⟨corner, _, rfl⟩ := List.mem_map.mp member
  rfl

private theorem errors_takeAttachments (source : Point) (track : Track) :
    errors (takeAttachments source track) ⊆ source.errors ++ errors track := by
  cases track with
  | nil => exact List.nil_subset _
  | cons first rest =>
      intro message attached
      rcases List.mem_append.mp attached with here | later
      · exact List.mem_append_left _ here
      · exact List.mem_append_right _ (List.mem_append_right _ later)

/-- A track moved sideways takes over the errors of its first point and no others. -/
theorem errors_sideways {tool : Tool} {factor : Float} {track : Track} {loops : List Track}
    (moved : track.sideways tool factor = some loops) :
    ∀ loop ∈ loops, errors loop ⊆ errors track := by
  unfold sideways at moved
  split at moved
  · cases moved
    intro loop member
    rw [List.mem_singleton.mp member, errors_warnFirst]
    exact List.Subset.refl _
  · split at moved
    · cases moved
    · next first rest _ =>
        simp only at moved
        split at moved
        · cases moved
        · next corners others _ =>
            cases moved
            intro loop member
            rcases List.mem_cons.mp member with rfl | later
            · intro message attached
              have source := errors_takeAttachments _ _ attached
              rw [errors_ofLoop, List.append_nil] at source
              exact errors_subset_of_mem List.mem_cons_self source
            · obtain ⟨other, _, rfl⟩ := List.mem_map.mp later
              rw [errors_ofLoop]
              exact List.nil_subset _

theorem Dressed.errors_eq {source track : Track} (dressed : Dressed source track) :
    errors track = errors source := by
  induction dressed with
  | nil => rfl
  | added bare _ ih => rw [errors_cons, bare.errors, List.nil_append, ih]
  | kept keeps _ ih => rw [errors_cons, errors_cons, keeps.errors, ih]

private theorem errors_passesOf {machine : Machine} {tool : Tool} {form : Form}
    {additions : Additions}
    {loops passes : List Track} (found : passesOf machine tool form additions loops = .ok passes)
    {pass : Track} (member : pass ∈ passes) : ∃ loop ∈ loops, errors pass ⊆ errors loop := by
  obtain ⟨loop, source, part, smaller, dressed⟩ := dressed_of_mem_passesOf found member
  refine ⟨loop, source, ?_⟩
  rw [dressed.errors_eq]
  exact errors_mono (smaller.trans (sublist_lastingAt machine tool additions loop)).subset

end Track

/-! ## Paths -/

theorem Path.errors_loops {tool : Tool} {path : Path} {loops : List Track}
    (moved : path.loops tool = some loops) :
    ∀ loop ∈ loops, loop.errors ⊆ path.points.errors := by
  unfold Path.loops at moved
  split at moved
  · exact Track.errors_sideways moved
  · cases moved
    intro loop member
    rw [List.mem_singleton.mp member]
    exact List.Subset.refl _

theorem Path.errors_passes {machine : Machine} {path : Path} {passes : List Path}
    (found : path.passes machine = .ok passes) :
    ∀ pass ∈ passes, pass.points.errors ⊆ path.points.errors := by
  obtain ⟨_, _, loops, tracks, _, _, moved, expanded, rfl⟩ := passes_eq_ok found
  intro pass member
  obtain ⟨track, inside, rfl⟩ := List.mem_map.mp member
  obtain ⟨loop, source, kept⟩ := Track.errors_passesOf expanded inside
  exact List.Subset.trans kept (errors_loops moved loop source)

/-- What is written of a prepared path are its passes, if anything. -/
theorem Path.exists_passes_of_prepare {machine : Machine} {path : Path} {outcome : Outcome}
    (found : path.prepare machine = .ok outcome) {pass : Path} (member : pass ∈ outcome.passes) :
    ∃ passes, path.passes machine = .ok passes ∧ pass ∈ passes := by
  unfold prepare at found
  split at found
  · cases found
    cases member
  · dsimp only at found
    split at found
    · next passes expanded =>
        cases found
        exact ⟨passes, expanded, member⟩
    · cases found
      cases member
    · cases found

theorem Path.errors_prepare {machine : Machine} {path : Path} {outcome : Outcome}
    (found : path.prepare machine = .ok outcome) :
    ∀ pass ∈ outcome.passes, pass.points.errors ⊆ path.points.errors := by
  intro pass member
  obtain ⟨passes, expanded, listed⟩ := exists_passes_of_prepare found member
  exact errors_passes expanded pass listed

/-- A path of a resolved operation is a given one, with its context filled in if it was reached. -/
theorem Operation.source_of_mem_resolvePaths {tool : Option Tool} {form : Option Form}
    {paths : List Path} {path : Path} (member : path ∈ (resolvePaths tool form paths).1) :
    ∃ source ∈ paths, path = source ∨ path = source.resolve tool form := by
  induction paths with
  | nil => cases member
  | cons head rest ih =>
      unfold resolvePaths at member
      dsimp only at member
      split at member
      · rcases List.mem_cons.mp member with rfl | later
        · exact ⟨head, List.mem_cons_self, .inr rfl⟩
        · exact ⟨path, List.mem_cons_of_mem _ later, .inl rfl⟩
      · rcases List.mem_cons.mp member with rfl | later
        · exact ⟨head, List.mem_cons_self, .inr rfl⟩
        · obtain ⟨source, listed, same⟩ := ih later
          exact ⟨source, List.mem_cons_of_mem _ listed, same⟩

/-! ## Instructions -/

namespace Instruction

/-- The paths of an instruction as they were given. -/
def paths (instruction : Instruction) : List Path :=
  instruction.start.toList ++ instruction.operations.flatMap (·.paths) ++ instruction.finish.toList

/-- Where the passes of a prepared operation come from. -/
theorem source_of_mem_prepareOperations {instruction : Instruction} {machine : Machine}
    {operations : List Prepared} (found : instruction.prepareOperations machine = .ok operations)
    {operation : Prepared} (listed : operation ∈ operations) :
    ∃ original ∈ instruction.operations, operation.name = original.name ∧
      ∀ pass ∈ operation.passes, ∃ given ∈ original.paths, ∃ path outcome,
        (path = given ∨ path = given.resolve (original.tool <|> instruction.tool)
          (original.form <|> instruction.form)) ∧
        path.prepare machine = .ok outcome ∧ pass ∈ outcome.passes := by
  obtain ⟨resolved, filled, prepared⟩ := bind_eq_ok.mp found
  obtain ⟨source, inside, expanded⟩ := exists_of_mem_mapM prepared listed
  obtain ⟨outcomes, done, same⟩ := bind_eq_ok.mp (mapError_eq_ok.mp expanded)
  cases same
  obtain ⟨original, known, resolves⟩ := exists_of_mem_mapM filled inside
  split at resolves
  · next _ _ filling =>
      cases resolves
      have became := congrArg Prod.fst filling
      subst became
      refine ⟨original, known, rfl, ?_⟩
      intro pass member
      obtain ⟨outcome, among, passed⟩ := List.mem_flatMap.mp member
      obtain ⟨path, kept, prepares⟩ := exists_of_mem_mapM done among
      obtain ⟨given, owned, either⟩ := Operation.source_of_mem_resolvePaths kept
      exact ⟨given, owned, path, outcome, either, prepares, passed⟩
  · cases resolves

/-- Every error on a pass of an operation was on a path of the instruction. -/
theorem errors_prepareOperations {instruction : Instruction} {machine : Machine}
    {operations : List Prepared} (found : instruction.prepareOperations machine = .ok operations)
    {operation : Prepared} (listed : operation ∈ operations) {pass : Path}
    (member : pass ∈ operation.passes) :
    ∃ path ∈ instruction.paths, pass.points.errors ⊆ path.points.errors := by
  obtain ⟨original, known, _, passes⟩ := source_of_mem_prepareOperations found listed
  obtain ⟨given, owned, path, outcome, either, became, passed⟩ := passes pass member
  have points : path.points = given.points := by
    rcases either with rfl | rfl <;> rfl
  refine ⟨given, ?_, ?_⟩
  · exact List.mem_append_left _
      (List.mem_append_right _ (List.mem_flatMap.mpr ⟨original, known, owned⟩))
  · rw [← points]
    exact Path.errors_prepare became pass passed

theorem points_resolveEnd (instruction : Instruction) (path : Path) :
    (instruction.resolveEnd path).points = path.points := by
  unfold resolveEnd
  split <;> rfl

theorem errors_prepareEnd {instruction : Instruction} {machine : Machine} {path : Option Path}
    {prepared : Path} (found : instruction.prepareEnd machine path = .ok (some prepared)) :
    ∃ given ∈ path, prepared.points.errors ⊆ given.points.errors := by
  unfold prepareEnd at found
  split at found
  · cases found
  · next given =>
      refine ⟨given, rfl, ?_⟩
      split at found
      · cases found
      · dsimp only at found
        obtain ⟨context, _, later⟩ := bind_eq_ok.mp found
        rw [← points_resolveEnd instruction given]
        split at later
        · cases later
          exact List.Subset.refl _
        · obtain ⟨passes, expanded, same⟩ := bind_eq_ok.mp later
          cases same
          apply Track.errors_subset
          intro point member
          obtain ⟨pass, inside, here⟩ := List.mem_flatMap.mp member
          exact List.Subset.trans (Track.errors_subset_of_mem here)
            (Path.errors_passes (mapError_eq_ok.mp expanded) pass inside)

end Instruction

end Kerf
