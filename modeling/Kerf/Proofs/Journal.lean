import Kerf.Proofs.ClearRoute
import Kerf.Proofs.IgnoreList
import Kerf.Proofs.Ways

/-!
# The journal of a program

The warnings and errors of a program in the order in which they are recorded while its legs are
written: what is attached to the points of the paths, what the writer has to say itself, and at last
what became of the paths that were left out.

Main statement: of every error but the writer's own there are as many as were attached to the points
of the paths written, and the report lists each message that was recorded once, where it was first
recorded, with the number of times.
-/

set_option autoImplicit false

namespace Kerf

open Kerf.Machine (boundMessages)

/-! ## Tallies of a journal -/

namespace Tally

/-- Every message of a journal once, in the order of first occurrence, with its count. -/
def ofJournal (journal : List String) : Tally :=
  journal.eraseDups.map fun message => (message, journal.count message)

theorem keys_add (tally : Tally) (message : String) :
    (tally.add message).map (·.1) =
      if message ∈ tally.map (·.1) then tally.map (·.1) else tally.map (·.1) ++ [message] := by
  induction tally with
  | nil => rfl
  | cons entry rest ih =>
      obtain ⟨known, number⟩ := entry
      by_cases same : known = message
      · simp [add, same]
      · rw [add, if_neg (by simpa using same), List.map_cons, ih, List.map_cons]
        by_cases later : message ∈ rest.map (·.1) <;> simp [later, Ne.symm same]

private theorem nodup_keys_add {tally : Tally} (once : (tally.map (·.1)).Nodup) (message : String) :
    ((tally.add message).map (·.1)).Nodup := by
  rw [keys_add]
  split
  · exact once
  · next fresh =>
      refine List.nodup_append.mpr ⟨once, by simp, ?_⟩
      intro known listed other last same
      rw [List.mem_singleton.mp last] at same
      exact fresh (same ▸ listed)

private theorem nodup_keys_addAll (tally : Tally) (once : (tally.map (·.1)).Nodup)
    (journal : List String) : ((tally.addAll journal).map (·.1)).Nodup := by
  induction journal generalizing tally with
  | nil => exact once
  | cons message rest ih => exact ih (tally.add message) (nodup_keys_add once message)

private theorem keys_addAll (tally : Tally) (journal : List String) :
    (tally.addAll journal).map (·.1) =
      tally.map (·.1) ++ (journal.removeAll (tally.map (·.1))).eraseDups := by
  induction journal generalizing tally with
  | nil => simp [addAll, List.removeAll]
  | cons message rest ih =>
      rw [addAll_cons, ih, keys_add, List.cons_removeAll]
      generalize tally.map (·.1) = keys
      by_cases known : message ∈ keys
      · simp [known]
      · -- What is new after the message is what was new before, less the message itself.
        have others : rest.removeAll (keys ++ [message]) =
            (rest.removeAll keys).filter fun other => !other == message := by
          simp only [List.removeAll, List.filter_filter]
          apply List.filter_congr
          intro other _
          rw [Bool.eq_iff_iff]
          simp [and_comm]
        simp [known, others, List.eraseDups_cons]

private theorem eq_map_count {tally : Tally} (once : (tally.map (·.1)).Nodup) :
    tally = (tally.map (·.1)).map fun message => (message, tally.count message) := by
  induction tally with
  | nil => rfl
  | cons entry rest ih =>
      obtain ⟨known, number⟩ := entry
      rw [List.map_cons, List.nodup_cons] at once
      rw [List.map_cons, List.map_cons, count_cons, if_pos rfl]
      refine congrArg _ ((ih once.2).trans (List.map_congr_left ?_))
      intro message listed
      have different : message ≠ known := fun same => once.1 (same ▸ listed)
      rw [count_cons, if_neg different]

/-- Counting a journal message by message gives its tally. -/
theorem addAll_nil (journal : List String) : addAll [] journal = ofJournal journal := by
  have once : ((addAll [] journal).map (·.1)).Nodup := nodup_keys_addAll [] List.nodup_nil journal
  have counts : ∀ message, (addAll [] journal).count message = journal.count message := by
    intro message
    rw [count_addAll, count, List.lookup_nil, Option.getD_none, Nat.zero_add]
  rw [eq_map_count once, keys_addAll, List.map_nil, List.removeAll_nil, List.nil_append]
  simp only [counts, ofJournal]

private theorem filter_add (keep : String → Bool) (tally : Tally) (message : String) :
    (tally.add message).filter (fun entry => keep entry.1) =
      if keep message then add message (tally.filter fun entry => keep entry.1)
      else tally.filter fun entry => keep entry.1 := by
  induction tally with
  | nil => cases kept : keep message <;> simp [add, kept]
  | cons entry rest ih =>
      obtain ⟨known, number⟩ := entry
      by_cases same : known = message
      · subst same
        cases kept : keep known <;> simp [add, kept]
      · cases kept : keep known <;> cases wanted : keep message <;>
          simp [add, same, kept, wanted, ih]

private theorem filter_addAll (keep : String → Bool) (tally : Tally) (journal : List String) :
    (tally.addAll journal).filter (fun entry => keep entry.1) =
      addAll (tally.filter fun entry => keep entry.1) (journal.filter keep) := by
  induction journal generalizing tally with
  | nil => rfl
  | cons message rest ih =>
      rw [addAll_cons, ih, filter_add, List.filter_cons]
      split <;> rfl

theorem filter_ofJournal (keep : String → Bool) (journal : List String) :
    (ofJournal journal).filter (fun entry => keep entry.1) = ofJournal (journal.filter keep) := by
  rw [← addAll_nil, filter_addAll, List.filter_nil, addAll_nil]

end Tally

/-! ## Reports -/

namespace Report

def line (message : String) (times : Nat) : String :=
  if times = 1 then "  " ++ message ++ " (1 time)\n"
  else "  " ++ message ++ " (" ++ toString times ++ " times)\n"

/-- A section on the messages of a journal: nothing if there are none, and otherwise a title and a
line for each message, in the order of first occurrence. -/
def onJournal (title : String) (journal : List String) : String :=
  if journal.isEmpty then ""
  else
    title ++ ":\n" ++
      String.join (journal.eraseDups.map fun message => line message (journal.count message))

def onRanges (program : Program) : String :=
  if program.ranges.isEmpty then "" else "Ranges:\n" ++ String.join program.rangeLines

theorem describe_ofJournal (title : String) (journal : List String) :
    Tally.describe title (Tally.ofJournal journal) = onJournal title journal := by
  cases journal with
  | nil => rfl
  | cons first rest =>
      simp [Tally.describe, Tally.ofJournal, Tally.lines, onJournal, line, List.eraseDups_cons,
        Function.comp_def]

end Report

/-! ## Legs -/

/-- The way that a leg takes, if there is a path before it. -/
def Leg.ways (leg : Leg) : List Way :=
  leg.source.toList.map fun source => ⟨source, leg.path, leg.heading.isSome⟩

namespace Machine

/-- The acts of a leg after its opening: those of its way and those of its path. -/
def legActs (machine : Machine) (program : Program) (leg : Leg) : List Act :=
  let opened := machine.openLeg program leg
  let way := machine.transitionActs opened.rotary leg.source leg.path leg.heading.isSome
  way ++ machine.pathActs (machine.performAll opened way).rotary leg.path

/-- The acts of legs that are written one after another. -/
def runActs (machine : Machine) (program : Program) : List Leg → List Act
  | [] => []
  | leg :: rest =>
      let acts := machine.legActs program leg
      acts ++ machine.runActs (machine.performAll (machine.openLeg program leg) acts) rest

theorem writeLeg_eq {machine : Machine} {program after : Program} {leg : Leg}
    (written : machine.writeLeg program leg = .ok after) :
    after = machine.performAll (machine.openLeg program leg) (machine.legActs program leg) := by
  obtain ⟨reached, way, prepared⟩ := bind_eq_ok.mp written
  rw [writePrepared_eq prepared, reachLeg_eq way, ← performAll_append]
  rfl

private theorem tallies_openLeg (machine : Machine) (program : Program) (leg : Leg) :
    (machine.openLeg program leg).tallies = program.tallies := by
  unfold openLeg writeHeading
  cases leg.heading <;> dsimp only <;> split <;> simp

private theorem tallies_writeLegs {machine : Machine} {program after : Program} {legs : List Leg}
    (written : machine.writeLegs program legs = .ok after) : after.tallies =
      (program.warnings.addAll ((machine.runActs program legs).flatMap (·.warnings)),
        program.errors.addAll ((machine.runActs program legs).flatMap (·.failures machine))) := by
  induction legs generalizing program with
  | nil =>
      cases written
      rfl
  | cons leg rest ih =>
      rw [writeLegs_cons] at written
      obtain ⟨cut, here, later⟩ := bind_eq_ok.mp written
      -- Opening the leg records nothing, so that its acts count on from the program.
      have counted := machine.tallies_performAll (machine.openLeg program leg)
        (machine.legActs program leg)
      obtain ⟨warnings, errors⟩ := Prod.mk.inj (machine.tallies_openLeg program leg)
      rw [warnings, errors, ← writeLeg_eq here] at counted
      obtain ⟨warned, failed⟩ := Prod.mk.inj counted
      rw [ih later, warned, failed, ← Tally.addAll_append, ← Tally.addAll_append, runActs,
        ← writeLeg_eq here, List.flatMap_append, List.flatMap_append]

/-- But for rotary axes out of bounds, a leg records an error for a long way in material and those
attached to the points of its path. -/
theorem count_legActs {message : String} (other : message ∉ boundMessages) {leg : Leg}
    (writable : leg.path.Writable) (machine : Machine) (program : Program) :
    ((machine.legActs program leg).flatMap (·.failures machine)).count message =
      (Way.messages machine leg.ways).count message + leg.path.points.errors.count message := by
  obtain ⟨context, ready⟩ := writable.ready
  rw [count_failures other, legActs, List.flatMap_append, errors_transitionActs,
    errors_pathActs ready, List.count_append]
  rfl

private theorem count_runActs {message : String} (other : message ∉ boundMessages) {legs : List Leg}
    (writable : ∀ leg ∈ legs, leg.path.Writable) (machine : Machine) (program : Program) :
    ((machine.runActs program legs).flatMap (·.failures machine)).count message =
      (Way.messages machine (legs.flatMap (·.ways))).count message +
        (legs.flatMap (·.path.points.errors)).count message := by
  induction legs generalizing program with
  | nil => rfl
  | cons leg rest ih =>
      obtain ⟨here, later⟩ := List.forall_mem_cons.mp writable
      rw [runActs, List.flatMap_append, List.count_append, count_legActs other here, ih later,
        List.flatMap_cons, List.flatMap_cons, Way.messages_append, List.count_append,
        List.count_append]
      omega

end Machine

/-! ## Compiling -/

namespace Program

private theorem tallies_noteOutcomes (program : Program) (outcomes : List Outcome) :
    (program.noteOutcomes outcomes).tallies =
      (program.warnings.addAll (Outcome.remarks outcomes), program.errors) := by
  rw [noteOutcomes_eq]
  rfl

end Program

namespace Instruction

variable {instruction : Instruction} {machine : Machine} {ignore : List String} {program : Program}

private theorem tallies_heading (instruction : Instruction) (machine : Machine)
    (ignore : List String) : (instruction.heading machine ignore).tallies = ([], []) :=
  machine.tallies_writeHeader (Program.empty machine.dialect ignore) instruction.name

namespace Plan

def acts (plan : instruction.Plan machine) (ignore : List String) : List Act :=
  machine.runActs (instruction.heading machine ignore) plan.legs

def warnings (plan : instruction.Plan machine) (ignore : List String) : List String :=
  (plan.acts ignore).flatMap (·.warnings) ++
    Outcome.remarks (plan.operations.flatMap (·.outcomes))

def errors (plan : instruction.Plan machine) (ignore : List String) : List String :=
  (plan.acts ignore).flatMap (·.failures machine)

theorem flatMap_paths (plan : instruction.Plan machine) {Value : Type} (view : Path → List Value) :
    plan.paths.flatMap view = plan.legs.flatMap fun leg => view leg.path := by
  rw [← plan.paths_legs, List.flatMap_map]

theorem tallies_of_writes (plan : instruction.Plan machine) (writes : plan.Writes ignore program) :
    program.warnings = Tally.ofJournal (plan.warnings ignore) ∧
      program.errors = Tally.ofJournal (plan.errors ignore) := by
  obtain ⟨written, legs, rfl⟩ := writes
  have counted := Machine.tallies_writeLegs legs
  obtain ⟨noWarnings, noErrors⟩ := Prod.mk.inj (instruction.tallies_heading machine ignore)
  rw [noWarnings, noErrors, ← machine.tallies_writeFooter written] at counted
  obtain ⟨warned, failed⟩ := Prod.mk.inj counted
  obtain ⟨remarked, kept⟩ := Prod.mk.inj
    ((machine.writeFooter written).tallies_noteOutcomes (plan.operations.flatMap (·.outcomes)))
  constructor
  · rw [remarked, warned, ← Tally.addAll_append, Tally.addAll_nil]
    rfl
  · rw [kept, failed, Tally.addAll_nil]
    rfl

/-- But for rotary axes out of bounds, the errors of a program are its long ways in material and what
is attached to the points of its paths. -/
theorem count_errors (plan : instruction.Plan machine) (writes : plan.Writes ignore program)
    {message : String} (other : message ∉ boundMessages) :
    program.errors.count message =
      (Way.messages machine (plan.legs.flatMap (·.ways))).count message +
        (plan.paths.flatMap (·.points.errors)).count message := by
  rw [(plan.tallies_of_writes writes).2, ← Tally.addAll_nil, Tally.count_addAll,
    plan.flatMap_paths, errors, acts,
    Machine.count_runActs other fun leg member => plan.writable_of_mem_legs member]
  exact Nat.zero_add _

end Plan

/-- The errors that the writer records by itself. -/
def writerMessages : List String := boundMessages ++ [longEntry, longTransition]

/-- Diagnostics are accounted for. Of each error but the writer's own there are as many, counted or
ignored, as are attached to the points of the paths written. The report is made of the ranges and of
one section each for the warnings, the errors that count and the ignored errors. A section lists each
message recorded once, in the order of first occurrence, with the number of times it was recorded. -/
theorem compile_accounts (compiled : instruction.compile ignore = .ok program) :
    ∃ (machine : Machine) (plan : instruction.Plan machine),
      instruction.machine = some machine ∧ plan.Writes ignore program ∧
      (∀ message, message ∉ writerMessages →
        program.countedErrors.count message + program.ignoredErrors.count message =
          (plan.paths.flatMap (·.points.errors)).count message) ∧
      let warnings := plan.warnings ignore
      let counted := (plan.errors ignore).filter (· ∉ ignore)
      let ignored := (plan.errors ignore).filter (· ∈ ignore)
      program.warnings = Tally.ofJournal warnings ∧
      program.countedErrors = Tally.ofJournal counted ∧
      program.ignoredErrors = Tally.ofJournal ignored ∧
      program.report = Report.onRanges program ++ Report.onJournal "Warnings" warnings ++
        Report.onJournal "Errors" counted ++ Report.onJournal "Ignored errors" ignored := by
  obtain ⟨machine, known⟩ := exists_machine compiled
  obtain ⟨plan, writes⟩ := exists_plan known compiled
  obtain ⟨warnings, errors⟩ := plan.tallies_of_writes writes
  have list := ignore_of_compile compiled
  have keeps : (fun message => !ignore.contains message) = fun message => decide (message ∉ ignore) := by
    funext message
    simp
  have drops : ignore.contains = fun message => decide (message ∈ ignore) := by
    funext message
    simp
  have counted : program.countedErrors =
      Tally.ofJournal ((plan.errors ignore).filter (· ∉ ignore)) := by
    rw [Program.countedErrors, list, errors, ← keeps]
    exact Tally.filter_ofJournal (fun message => !ignore.contains message) _
  have ignored : program.ignoredErrors =
      Tally.ofJournal ((plan.errors ignore).filter (· ∈ ignore)) := by
    rw [Program.ignoredErrors, list, errors, ← drops]
    exact Tally.filter_ofJournal ignore.contains _
  refine ⟨machine, plan, known, writes, ?_, warnings, counted, ignored, ?_⟩
  · intro message foreign
    rw [writerMessages, List.mem_append, not_or] at foreign
    have ways : message ∉ Way.messages machine (plan.legs.flatMap (·.ways)) :=
      fun noted => foreign.2 (Way.messages_subset machine _ noted)
    rw [Program.count_countedErrors_add_ignoredErrors, plan.count_errors writes foreign.1,
      List.count_eq_zero.mpr ways, Nat.zero_add]
  · rw [Program.report, warnings, counted, ignored, Report.describe_ofJournal,
      Report.describe_ofJournal, Report.describe_ofJournal]
    rfl

/-- A block that is faced with a mill that chatters on the way to it and at both ends of the cut, where
it also leaves a burr. -/
def chattering : Instruction :=
  let cutTo (x : Float) (errors : List String) : Point :=
    { position := ⟨x, 0, 5⟩, direction := Vec.zAxis, feed := 100, errors }
  { name := "job"
    machine := some ⟨{}, .vertical⟩
    operations :=
      [{ name := "face"
         paths := [{ name := "a", points := [cutTo 0 ["chatter"], cutTo 1 ["burr", "chatter"]] }] }]
    start := some { name := "start", points := [cutTo (-1) ["chatter"]] }
    tool := some { identity := 0, name := "mill", number := 1, tip := .square, width := 2 }
    form := some Route.lowBlock }

theorem compile_accounts_chattering :
    ∃ program, chattering.compile ["chatter"] = .ok program ∧
      program.countedErrors.count "chatter" + program.ignoredErrors.count "chatter" = 3 ∧
      program.countedErrors.count "burr" + program.ignoredErrors.count "burr" = 1 ∧
      program.report = Report.onRanges program ++ "" ++ "Errors:\n  burr (1 time)\n" ++
        "Ignored errors:\n  chatter (3 times)\n" := by
  have succeeds : (chattering.compile ["chatter"]).isOk = true := by decide +kernel
  -- What the prepared legs carry, what their acts record, and what is said about the paths.
  have evaluated :
      (chattering.legs ⟨{}, .vertical⟩).map (fun legs =>
        let acts :=
          Machine.runActs ⟨{}, .vertical⟩ (chattering.heading ⟨{}, .vertical⟩ ["chatter"]) legs
        (legs.flatMap (·.path.points.errors), acts.flatMap (·.failures ⟨{}, .vertical⟩),
          acts.flatMap (·.warnings))) =
      .ok (["chatter", "chatter", "burr", "chatter"], ["chatter", "chatter", "burr", "chatter"], []) := by
    decide +kernel
  have remarked :
      (chattering.prepareOperations ⟨{}, .vertical⟩).map (fun operations =>
        Outcome.remarks (operations.flatMap (·.outcomes))) = .ok [] := by
    decide +kernel
  obtain ⟨program, compiled⟩ := exists_of_isOk succeeds
  obtain ⟨machine, plan, known, _, attached, _, _, _, report⟩ := compile_accounts compiled
  cases known
  rw [plan.instruction_legs] at evaluated
  rw [plan.prepared] at remarked
  obtain ⟨carried, recorded, warned⟩ := by simpa only [Prod.mk.injEq] using Except.ok.inj evaluated
  have warnings : plan.warnings ["chatter"] = [] := by
    rw [Plan.warnings, Plan.acts, warned]
    exact Except.ok.inj remarked
  have errors : plan.errors ["chatter"] = ["chatter", "chatter", "burr", "chatter"] := recorded
  refine ⟨program, compiled, ?_, ?_, ?_⟩
  · rw [attached "chatter" (by decide), plan.flatMap_paths, carried]
    decide
  · rw [attached "burr" (by decide), plan.flatMap_paths, carried]
    decide
  · rw [report, warnings, errors]
    rfl

end Instruction

end Kerf
