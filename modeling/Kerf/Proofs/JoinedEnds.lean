import Kerf.Proofs.Journal

/-!
# Joined ends

The motions before and after the operations are expanded into passes like all others, but what is
written of each is one path along the points of all its passes. So the ways between these passes are
never looked at, and a long one in material goes unnoticed.

Main statement: the texts for long ways in material are counted for the ways between the paths written
and for nothing within them, and a program is the same if its ends are given joined from the beginning.
-/

set_option autoImplicit false

namespace Kerf

open Kerf.Stock (Form)

/-! ## Ways that are recorded -/

theorem Way.exists_isLongJump {machine : Machine} {ways : List Way} :
    (∃ way ∈ ways, way.isLongJump machine) ↔
      longEntry ∈ messages machine ways ∨ longTransition ∈ messages machine ways := by
  constructor
  · rintro ⟨way, member, long⟩
    have listed : way.message ∈ messages machine ways :=
      List.mem_map_of_mem (List.mem_filter.mpr ⟨member, long⟩)
    unfold message at listed
    split at listed
    · exact .inl listed
    · exact .inr listed
  · intro counted
    have found : ∀ text ∈ messages machine ways, ∃ way ∈ ways, way.isLongJump machine := by
      intro text listed
      obtain ⟨way, kept, _⟩ := List.mem_map.mp listed
      exact ⟨way, List.mem_filter.mp kept⟩
    exact counted.elim (found longEntry) (found longTransition)

namespace Machine

/-- Whether the way from one path to another is recorded as a long one in material, whatever program
it is written to. -/
def RecordsJump (machine : Machine) (source target : Path) : Prop :=
  ∀ program entry, machine.writeTransition program (some source) target entry =
    .ok (program.fail (if entry then longEntry else longTransition))

private theorem recordsJump_of_isLongJump {machine : Machine} {source target : Path}
    (long : Way.isLongJump machine ⟨source, target, false⟩ = true) :
    machine.RecordsJump source target := by
  intro program entry
  unfold Way.isLongJump at long
  split at long
  · next last first tool form left begins held stock =>
      have context : target.context = .ok (tool, form) := Path.context_eq_ok.mpr ⟨held, stock⟩
      obtain ⟨inside, far⟩ := Bool.and_eq_true_iff.mp long
      unfold writeTransition
      rw [Option.bind_some, left, begins, context]
      exact (if_pos inside).trans (if_pos (of_decide_eq_true far))
  · cases long

private theorem isLongJump_of_recordsJump {machine : Machine} {source target : Path}
    (records : machine.RecordsJump source target) :
    Way.isLongJump machine ⟨source, target, false⟩ = true := by
  -- Any program will do, since acts never count the text but for a long way.
  let program := Program.empty machine.dialect []
  let acts := machine.transitionActs program.rotary (some source) target false
  have written : program.fail longTransition = machine.performAll program acts := by
    rw [← machine.writeTransition_eq, records program false]
    rfl
  have counted : (program.fail longTransition).errors.count longTransition =
      (acts.flatMap (·.errors)).count longTransition := by
    rw [written, (Prod.mk.inj (machine.tallies_performAll program acts)).2, Tally.count_addAll,
      count_failures (by decide)]
    exact Nat.zero_add _
  cases long : Way.isLongJump machine ⟨source, target, false⟩ with
  | true => rfl
  | false =>
      rw [machine.errors_transitionActs, Option.toList_some, List.map_singleton,
        Way.messages_singleton, long] at counted
      cases counted

private theorem recordsJump_iff {machine : Machine} {source target : Path} :
    machine.RecordsJump source target ↔ Way.isLongJump machine ⟨source, target, false⟩ = true :=
  ⟨isLongJump_of_recordsJump, recordsJump_of_isLongJump⟩

instance (machine : Machine) (source target : Path) : Decidable (machine.RecordsJump source target) :=
  decidable_of_iff _ recordsJump_iff.symm

end Machine

/-! ## Ends -/

theorem Track.length_passesOf_single {machine : Machine} {tool : Tool} {form : Form}
    {additions : Additions} (levels : additions.stepDown = false) (skins : additions.onion = [])
    {loop : Track} {passes : List Track}
    (found : passesOf machine tool form additions [loop] = .ok passes) : passes.length = 1 := by
  obtain ⟨cuts, deepened, ended⟩ := bind_eq_ok.mp found
  have cut : depthPasses machine tool form additions (atSurface machine tool additions loop) =
      .ok (finishing additions.onion (atSurface machine tool additions loop)) := by
    unfold depthPasses
    rw [levels]
    rfl
  rw [List.mapM_cons, cut] at deepened
  cases deepened
  rw [length_mapM ended]
  simp [length_finishing, skins]

theorem Path.length_passes_of_settled {machine : Machine} {path : Path} {passes : List Path}
    (settled : path.additions.pending = false) (found : path.passes machine = .ok passes) :
    passes.length = 1 := by
  obtain ⟨tool, form, loops, tracks, _, _, moved, expanded, rfl⟩ := passes_eq_ok found
  simp only [Additions.pending, Bool.or_eq_false_iff, Bool.not_eq_false'] at settled
  obtain ⟨⟨⟨⟨⟨_, levels⟩, _⟩, _⟩, skins⟩, offset⟩ := settled
  rw [Path.loops, offset] at moved
  cases moved
  rw [List.length_map]
  exact Track.length_passesOf_single levels (List.isEmpty_iff.mp skins) expanded

namespace Instruction

variable {instruction : Instruction} {machine : Machine} {ignore : List String} {program : Program}

/-- What is written of a motion before or after the operations: nothing if it has no points, the motion
itself if no stage is left to run on it, and otherwise one path along the points of all its passes. -/
inductive WrittenEnd (instruction : Instruction) (machine : Machine) :
    Option Path → Option Path → Prop where
  | absent : WrittenEnd instruction machine none none
  | empty (given : Path) (bare : given.points = []) : WrittenEnd instruction machine (some given) none
  | plain (given : Path) (filled : given.points ≠ [])
      (settled : given.additions.pending = false) :
      WrittenEnd instruction machine (some given) (some (instruction.resolveEnd given))
  | joined (given : Path) (filled : given.points ≠ []) (unsettled : given.additions.pending = true)
      (passes : List Path) (expanded : (instruction.resolveEnd given).passes machine = .ok passes) :
      WrittenEnd instruction machine (some given)
        (some ((instruction.resolveEnd given).along (passes.flatMap (·.points))))

theorem additions_resolveEnd (instruction : Instruction) (path : Path) :
    (instruction.resolveEnd path).additions = path.additions := by
  unfold resolveEnd
  split <;> rfl

theorem writtenEnd_of_prepareEnd {given prepared : Option Path}
    (found : instruction.prepareEnd machine given = .ok prepared) :
    instruction.WrittenEnd machine given prepared := by
  unfold prepareEnd at found
  split at found
  · cases found
    exact .absent
  · next path =>
      split at found
      · next bare =>
          cases found
          exact .empty path (List.isEmpty_iff.mp bare)
      · next filled =>
          have points := mt List.isEmpty_iff.mpr filled
          obtain ⟨context, _, later⟩ := bind_eq_ok.mp found
          rw [additions_resolveEnd] at later
          split at later
          · next settled =>
              cases later
              exact .plain path points (by simpa using settled)
          · next unsettled =>
              obtain ⟨passes, expanded, same⟩ := bind_eq_ok.mp later
              cases same
              exact .joined path points (by simpa using unsettled) passes (mapError_eq_ok.mp expanded)

private theorem prepareEnd_of_writable {path : Path} (writable : path.Writable)
    (instruction : Instruction)
    (machine : Machine) : instruction.prepareEnd machine (some path) = .ok (some path) := by
  obtain ⟨context, ready⟩ := writable.ready
  obtain ⟨known, settled⟩ := Path.ready_eq_ok.mp ready
  unfold prepareEnd
  dsimp only
  rw [if_neg (mt List.isEmpty_iff.mp writable.points), resolveEnd_of_context known, known, settled]
  rfl

/-- An end that has been prepared is not changed by preparing it once more. -/
theorem prepareEnd_prepared {given prepared : Option Path}
    (found : instruction.prepareEnd machine given = .ok prepared) :
    instruction.prepareEnd machine prepared = .ok prepared := by
  cases prepared with
  | none => rfl
  | some path => exact prepareEnd_of_writable (writable_of_prepareEnd found) instruction machine

/-- Whether the way from one pass of an end to the next would be recorded as a long one in material. -/
def HidesJump (instruction : Instruction) (machine : Machine) : Prop :=
  ∃ given ∈ instruction.start.toList ++ instruction.finish.toList, ∃ passes,
    (instruction.resolveEnd given).passes machine = .ok passes ∧
      ∃ pair ∈ passes.zip passes.tail, machine.RecordsJump pair.1 pair.2

instance (instruction : Instruction) (machine : Machine) :
    Decidable (instruction.HidesJump machine) :=
  inferInstanceAs (Decidable (∃ given ∈ instruction.start.toList ++ instruction.finish.toList,
    ∃ passes, (instruction.resolveEnd given).passes machine = .ok passes ∧
      ∃ pair ∈ passes.zip passes.tail, machine.RecordsJump pair.1 pair.2))

def withEnds (instruction : Instruction) (start finish : Option Path) : Instruction :=
  { instruction with start, finish }

/-- Ends that can be written as they are have one pass each and so hide nothing. -/
theorem not_hidesJump_withEnds {start finish : Option Path}
    (writable : ∀ path ∈ start.toList ++ finish.toList, path.Writable) (instruction : Instruction)
    (machine : Machine) : ¬(instruction.withEnds start finish).HidesJump machine := by
  rintro ⟨path, listed, passes, expanded, pair, inside, _⟩
  obtain ⟨context, ready⟩ := (writable path listed).ready
  obtain ⟨known, settled⟩ := Path.ready_eq_ok.mp ready
  rw [resolveEnd_of_context known] at expanded
  obtain ⟨pass, rfl⟩ := List.length_eq_one_iff.mp (Path.length_passes_of_settled settled expanded)
  cases inside

namespace Plan

def joined (plan : instruction.Plan machine) :
    (instruction.withEnds plan.start plan.finish).Plan machine where
  operations := plan.operations
  start := plan.start
  finish := plan.finish
  prepared := plan.prepared
  before := prepareEnd_prepared plan.before
  after := prepareEnd_prepared plan.after

private theorem compile_of_writes (plan : instruction.Plan machine)
    (known : instruction.machine = some machine) (writes : plan.Writes ignore program) :
    instruction.compile ignore = .ok program := by
  obtain ⟨written, legs, rfl⟩ := writes
  rw [compile_eq known, plan.prepared, plan.before, plan.after]
  change (machine.writeLegs _ plan.legs >>= _) = _
  rw [legs]
  rfl

end Plan

/-- Long ways in material within an end are not recorded. What is written of each end is one path along
the points of all its passes, and the program is the same as if the ends were given like that, where
nothing can be hidden. The texts for long ways are counted for the ways between the paths written and
where they are attached to a point. So if an end hides a long way, then a text is counted just if
something else calls for it. -/
theorem compile_joins_ends (compiled : instruction.compile ignore = .ok program) :
    ∃ (machine : Machine) (plan : instruction.Plan machine),
      instruction.machine = some machine ∧ plan.Writes ignore program ∧
      instruction.WrittenEnd machine instruction.start plan.start ∧
      instruction.WrittenEnd machine instruction.finish plan.finish ∧
      (instruction.withEnds plan.start plan.finish).compile ignore = .ok program ∧
      ¬(instruction.withEnds plan.start plan.finish).HidesJump machine ∧
      let ways := plan.legs.flatMap (·.ways)
      let attached := plan.paths.flatMap (·.points.errors)
      let total := fun message =>
        program.countedErrors.count message + program.ignoredErrors.count message
      (∀ entry : Bool,
        let text := if entry then longEntry else longTransition
        total text =
          ways.countP (fun way => way.isLongJump machine && way.entry == entry) +
            attached.count text) ∧
      ((instruction.HidesJump machine → 0 < total longEntry + total longTransition) ↔
        (instruction.HidesJump machine →
          (∃ way ∈ ways, way.isLongJump machine) ∨ longEntry ∈ attached ∨
            longTransition ∈ attached)) := by
  obtain ⟨machine, known⟩ := exists_machine compiled
  obtain ⟨plan, writes⟩ := exists_plan known compiled
  have ends : ∀ path ∈ plan.start.toList ++ plan.finish.toList, path.Writable := by
    intro path listed
    apply plan.writable_of_mem_paths
    rw [Plan.mem_paths]
    rcases List.mem_append.mp listed with first | last
    · exact .inl (Option.mem_toList.mp first)
    · exact .inr (.inr (Option.mem_toList.mp last))
  refine ⟨machine, plan, known, writes, writtenEnd_of_prepareEnd plan.before,
    writtenEnd_of_prepareEnd plan.after,
    plan.joined.compile_of_writes known writes, not_hidesJump_withEnds ends instruction machine,
    ?_, ?_⟩
  · intro entry
    have other : (if entry then longEntry else longTransition) ∉ Machine.boundMessages := by
      cases entry <;> decide
    dsimp only
    rw [Program.count_countedErrors_add_ignoredErrors, plan.count_errors writes other,
      Way.count_messages]
  · dsimp only
    rw [Program.count_countedErrors_add_ignoredErrors, Program.count_countedErrors_add_ignoredErrors,
      plan.count_errors writes (by decide), plan.count_errors writes (by decide)]
    refine imp_congr_right fun _ => ?_
    rw [Way.exists_isLongJump, ← List.count_pos_iff, ← List.count_pos_iff, ← List.count_pos_iff,
      ← List.count_pos_iff]
    omega

/-- A job that faces a block in two skins before its operations, going back through the block from the
end of the first to the beginning of the second. -/
def skinned (operations : List Operation) : Instruction :=
  { name := "skins"
    machine := some ⟨{ pathJump := 2 }, .vertical⟩
    operations
    start := some
      { name := "face"
        points := [Point.make ⟨-1, 0, 2⟩ Vec.zAxis, Point.make ⟨3, 0, 2⟩ Vec.zAxis]
        additions := { onion := [0, 0.5] } }
    tool := some { identity := 0, name := "mill", number := 1, tip := .square, width := 2 }
    form := some Route.lowBlock }

/-- A slot that begins far from where the block has been faced. -/
def slot : Operation :=
  { name := "slot"
    paths :=
      [{ name := "a", points := [Point.make ⟨-2, 2, 2⟩ Vec.zAxis, Point.make ⟨2, 2, 2⟩ Vec.zAxis] }] }

theorem compile_joins_ends_slot :
    let machine : Machine := ⟨{ pathJump := 2 }, .vertical⟩
    ∃ program, (skinned [slot]).compile [] = .ok program ∧ (skinned [slot]).HidesJump machine ∧
      program.countedErrors.count longEntry + program.ignoredErrors.count longEntry = 1 ∧
      program.countedErrors.count longTransition + program.ignoredErrors.count longTransition = 0 := by
  intro machine
  have succeeds : ((skinned [slot]).compile []).isOk = true := by decide +kernel
  have hides : (skinned [slot]).HidesJump machine := by decide +kernel
  have evaluated : ((skinned [slot]).legs machine).map (fun legs =>
      let ways := legs.flatMap (·.ways)
      (ways.countP (fun way => way.isLongJump machine && way.entry == true),
        ways.countP (fun way => way.isLongJump machine && way.entry == false),
        legs.flatMap (·.path.points.errors))) = .ok (1, 0, []) := by
    decide +kernel
  obtain ⟨program, compiled⟩ := exists_of_isOk succeeds
  obtain ⟨other, plan, known, _, _, _, _, _, counts, _⟩ := compile_joins_ends compiled
  cases known
  rw [plan.instruction_legs] at evaluated
  obtain ⟨entries, others, bare⟩ := by simpa only [Prod.mk.injEq] using Except.ok.inj evaluated
  have attached : plan.paths.flatMap (·.points.errors) = [] := (plan.flatMap_paths _).trans bare
  refine ⟨program, compiled, hides, ?_, ?_⟩
  · refine (counts true).trans ?_
    rw [entries, attached]
    rfl
  · refine (counts false).trans ?_
    rw [others, attached]
    rfl

/-- Without the slot nothing is recorded at all. -/
theorem skinned_unrecorded :
    let machine : Machine := ⟨{ pathJump := 2 }, .vertical⟩
    ∃ program, (skinned []).compile [] = .ok program ∧ (skinned []).HidesJump machine ∧
      program.countedErrors = [] ∧ program.ignoredErrors = [] := by
  intro machine
  have hides : (skinned []).HidesJump machine := by decide +kernel
  have evaluated : ((skinned []).compile []).map (fun program =>
      (program.countedErrors, program.ignoredErrors)) = .ok ([], []) := by
    decide +kernel
  cases compiled : (skinned []).compile [] with
  | error cause =>
      rw [compiled] at evaluated
      cases evaluated
  | ok program =>
      rw [compiled] at evaluated
      obtain ⟨counted, ignored⟩ := Prod.mk.inj (Except.ok.inj evaluated)
      exact ⟨program, rfl, hides, counted, ignored⟩

end Instruction

end Kerf
