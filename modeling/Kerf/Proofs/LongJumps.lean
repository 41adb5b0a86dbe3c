import Kerf.Proofs.Journal

/-!
# Long ways in material

Between two written paths the tool may go straight through material. Such a way is counted as an
error whenever it is long, under one text when it leads into an operation and under another one when
it does not.

Main statement: a program that was compiled counts each of the two texts as often as there are such
ways between the paths written, and no other cause adds to them.
-/

set_option autoImplicit false

namespace Kerf

open Kerf.Machine (boundMessages)

/-! ## The paths written -/

/-- Paths written one after another, the first of them marked. -/
def marked (entry : Bool) : List Path → List (Path × Bool)
  | [] => []
  | path :: rest => (path, entry) :: marked false rest

/-- All paths written, in order, the first pass of each operation marked. -/
def writtenPaths (start : Option Path) (operations : List Prepared) (finish : Option Path) :
    List (Path × Bool) :=
  marked false start.toList ++ operations.flatMap (fun operation => marked true operation.passes) ++
    marked false finish.toList

/-- The ways to paths from the ones before them, after a previous path. -/
def waysFrom (previous : Option Path) : List (Path × Bool) → List Way
  | [] => []
  | (path, entry) :: rest =>
      previous.toList.map (fun source => ⟨source, path, entry⟩) ++ waysFrom (some path) rest

/-! ## Legs -/

namespace Leg

/-- The path of a leg, marked if an operation begins with it. -/
def written (leg : Leg) : Path × Bool := (leg.path, leg.heading.isSome)

theorem waysFrom_written_append (previous : Option Path) (front : List Leg)
    (back : List (Path × Bool)) :
    waysFrom previous (front.map written ++ back) =
      waysFrom previous (front.map written) ++ waysFrom (latest previous front) back := by
  induction front generalizing previous with
  | nil => rfl
  | cons leg rest ih =>
      rw [List.map_cons, List.cons_append, written, waysFrom, waysFrom, ih, List.append_assoc]
      rfl

private theorem ofPasses_ways (heading : Option String) (previous : Option Path)
    (passes : List Path) :
    (ofPasses heading previous passes).map written = marked heading.isSome passes ∧
      (ofPasses heading previous passes).flatMap (·.ways) =
        waysFrom previous (marked heading.isSome passes) := by
  induction passes generalizing heading previous with
  | nil => exact ⟨rfl, rfl⟩
  | cons pass rest ih =>
      obtain ⟨paths, ways⟩ := ih none (some pass)
      rw [ofPasses, List.map_cons, List.flatMap_cons, paths, ways, marked, waysFrom]
      exact ⟨rfl, rfl⟩

private theorem ofOperations_ways (previous : Option Path) (operations : List Prepared) :
    let paths := operations.flatMap fun operation => marked true operation.passes
    (ofOperations previous operations).map written = paths ∧
      (ofOperations previous operations).flatMap (·.ways) = waysFrom previous paths := by
  induction operations generalizing previous with
  | nil => exact ⟨rfl, rfl⟩
  | cons operation rest ih =>
      obtain ⟨first, entry⟩ := ofPasses_ways (some operation.name) previous operation.passes
      rw [Option.isSome_some] at first entry
      obtain ⟨paths, ways⟩ :=
        ih (latest previous (ofPasses (some operation.name) previous operation.passes))
      dsimp only
      rw [ofOperations, List.map_append, List.flatMap_append, List.flatMap_cons, paths, ways, entry,
        ← first, waysFrom_written_append]
      exact ⟨rfl, rfl⟩

/-- The ways of the legs of a program are those between its paths. -/
theorem all_ways (start : Option Path) (operations : List Prepared) (finish : Option Path) :
    (all start operations finish).flatMap (·.ways) =
      waysFrom none (writtenPaths start operations finish) := by
  obtain ⟨paths, ways⟩ := ofOperations_ways start operations
  have opened : marked false start.toList ++
      operations.flatMap (fun operation => marked true operation.passes) =
        (opening start operations).map written := by
    rw [opening, List.map_append, paths]
    cases start <;> rfl
  rw [all, writtenPaths, opened, waysFrom_written_append, List.flatMap_append]
  congr 1
  · rw [← opened, opening, List.flatMap_append, ways]
    cases start <;> rfl
  · cases finish <;> rfl

end Leg

namespace Instruction

/-- Every error on a path written was on a path of the instruction. -/
theorem Plan.errors_of_mem_paths {instruction : Instruction} {machine : Machine}
    (plan : instruction.Plan machine) {path : Path} (written : path ∈ plan.paths) :
    ∃ given ∈ instruction.paths, path.points.errors ⊆ given.points.errors := by
  rcases mem_paths.mp written with first | ⟨operation, listed, member⟩ | last
  · obtain ⟨given, listed, kept⟩ := errors_prepareEnd (plan.before.trans (by rw [first]))
    exact ⟨given, List.mem_append_left _ (List.mem_append_left _ (Option.mem_toList.mpr listed)), kept⟩
  · exact errors_prepareOperations plan.prepared listed member
  · obtain ⟨given, listed, kept⟩ := errors_prepareEnd (plan.after.trans (by rw [last]))
    exact ⟨given, List.mem_append_right _ (Option.mem_toList.mpr listed), kept⟩

/-- A message that no point carries and no axis causes is counted for long ways in material only. -/
theorem count_compile {instruction : Instruction} {ignore : List String} {program : Program}
    (compiled : instruction.compile ignore = .ok program) :
    ∃ machine operations start finish,
      instruction.machine = some machine ∧
      instruction.prepareOperations machine = .ok operations ∧
      instruction.prepareEnd machine instruction.start = .ok start ∧
      instruction.prepareEnd machine instruction.finish = .ok finish ∧
      ∀ message ∉ boundMessages, (∀ path ∈ instruction.paths, message ∉ path.points.errors) →
        program.errors.count message =
          (Way.messages machine
            (waysFrom none (writtenPaths start operations finish))).count message := by
  obtain ⟨machine, known⟩ := exists_machine compiled
  obtain ⟨plan, writes⟩ := exists_plan known compiled
  refine ⟨machine, plan.operations, plan.start, plan.finish, known, plan.prepared, plan.before,
    plan.after, ?_⟩
  intro message other silent
  have bare : message ∉ plan.paths.flatMap (·.points.errors) := by
    intro carried
    obtain ⟨path, written, attached⟩ := List.mem_flatMap.mp carried
    obtain ⟨given, listed, kept⟩ := plan.errors_of_mem_paths written
    exact silent given listed (kept attached)
  rw [plan.count_errors writes other, List.count_eq_zero.mpr bare, Nat.add_zero, Plan.legs, Leg.all_ways]

/-- No long jump through material is silent. Among the ways between the paths of a compiled program,
in the order in which they are written, each long one that starts or ends in a safety bubble is
counted once: under one text if it leads to the first pass of an operation and under the other one if
not. Nothing else is counted under the two texts, unless a point carried one from the beginning. -/
theorem compile_counts_long_jumps {instruction : Instruction} {ignore : List String}
    {program : Program} (compiled : instruction.compile ignore = .ok program)
    (silent : ∀ path ∈ instruction.paths, ∀ point ∈ path.points,
      longEntry ∉ point.errors ∧ longTransition ∉ point.errors) :
    ∃ machine operations start finish,
      instruction.machine = some machine ∧
      instruction.prepareOperations machine = .ok operations ∧
      instruction.prepareEnd machine instruction.start = .ok start ∧
      instruction.prepareEnd machine instruction.finish = .ok finish ∧
      let ways := waysFrom none (writtenPaths start operations finish)
      let total := fun message =>
        program.countedErrors.count message + program.ignoredErrors.count message
      total longEntry = (ways.countP fun way => way.isLongJump machine && way.entry) ∧
      total longTransition = (ways.countP fun way => way.isLongJump machine && !way.entry) ∧
      total longEntry + total longTransition = ways.countP (·.isLongJump machine) := by
  obtain ⟨machine, operations, start, finish, known, prepared, before, after, counts⟩ :=
    count_compile compiled
  refine ⟨machine, operations, start, finish, known, prepared, before, after, ?_⟩
  have entries := counts longEntry (by decide) (by
    intro path listed attached
    obtain ⟨point, member, carried⟩ := Track.mem_errors.mp attached
    exact (silent path listed point member).1 carried)
  have others := counts longTransition (by decide) (by
    intro path listed attached
    obtain ⟨point, member, carried⟩ := Track.mem_errors.mp attached
    exact (silent path listed point member).2 carried)
  have into := Way.count_messages machine (waysFrom none (writtenPaths start operations finish)) true
  have onward :=
    Way.count_messages machine (waysFrom none (writtenPaths start operations finish)) false
  simp only [↓reduceIte, Bool.false_eq_true, beq_true, beq_false] at into onward
  simp only [Program.count_countedErrors_add_ignoredErrors, entries, others, into, onward, true_and]
  have split := List.countP_eq_countP_filter_add
    (waysFrom none (writtenPaths start operations finish)) (Way.isLongJump machine) Way.entry
  rw [split, List.countP_filter, List.countP_filter]

/-- A job that enters the bubble of a block from afar, stays in it between two cuts, and leaves it on
a long way. -/
def throughBlock : Instruction :=
  let cutTo (x y z : Float) : Point := { position := ⟨x, y, z⟩, direction := Vec.zAxis, feed := 100 }
  { name := "through"
    machine := some ⟨{ pathJump := 2 }, .vertical⟩
    operations :=
      [{ name := "cut"
         paths :=
          [{ name := "first", points := [cutTo (-1) 0 2.5, cutTo 1 0 2.5] },
            { name := "second", points := [cutTo 1 1 2.5, cutTo (-1) 1 2.5] }] }]
    start := some { name := "start", points := [cutTo (-8) 0 8] }
    finish := some { name := "finish", points := [cutTo 8 0 8] }
    tool := some { identity := 0, name := "mill", number := 1, tip := .square, width := 1 }
    form := some Route.lowBlock }

theorem compile_counts_long_jumps_throughBlock :
    ∃ program, throughBlock.compile [] = .ok program ∧
      (∀ path ∈ throughBlock.paths, ∀ point ∈ path.points,
        longEntry ∉ point.errors ∧ longTransition ∉ point.errors) ∧
      program.countedErrors.count longEntry + program.ignoredErrors.count longEntry = 1 ∧
      program.countedErrors.count longTransition + program.ignoredErrors.count longTransition = 1 := by
  have succeeds : (throughBlock.compile []).isOk = true := by decide +kernel
  have silent : ∀ path ∈ throughBlock.paths, ∀ point ∈ path.points,
      longEntry ∉ point.errors ∧ longTransition ∉ point.errors := by decide +kernel
  have evaluated :
      (throughBlock.prepareOperations ⟨{ pathJump := 2 }, .vertical⟩ >>= fun operations =>
        throughBlock.prepareEnd ⟨{ pathJump := 2 }, .vertical⟩ throughBlock.start >>= fun start =>
        throughBlock.prepareEnd ⟨{ pathJump := 2 }, .vertical⟩ throughBlock.finish >>= fun finish =>
        let ways := waysFrom none (writtenPaths start operations finish)
        .ok (ways.countP fun way => way.isLongJump ⟨{ pathJump := 2 }, .vertical⟩ && way.entry,
          ways.countP fun way => way.isLongJump ⟨{ pathJump := 2 }, .vertical⟩ && !way.entry)) =
      .ok (1, 1) := by
    decide +kernel
  cases compiled : throughBlock.compile [] with
  | error cause =>
      rw [compiled] at succeeds
      cases succeeds
  | ok program =>
      obtain ⟨machine, operations, start, finish, known, prepared, before, after, entries,
        others, _⟩ :=
        compile_counts_long_jumps compiled silent
      cases known
      rw [prepared, before, after] at evaluated
      obtain ⟨into, onward⟩ := Prod.mk.inj (Except.ok.inj evaluated)
      exact ⟨program, rfl, silent, entries.trans into, others.trans onward⟩

end Instruction

end Kerf
