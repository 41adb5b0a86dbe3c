import Kerf.Proofs.Annotations
import Kerf.Proofs.Legs

/-!
# Ignored messages

Nothing that is written depends on which messages are ignored. The list is only looked at when the
errors of a finished program are divided into those that count and those that are ignored.

Main statement: with another list an instruction compiles to the same program or fails for the same
cause, and the same errors are divided in another way.
-/

set_option autoImplicit false

namespace Kerf

def Program.ignoring (program : Program) (ignore : List String) : Program := { program with ignore }

@[simp] theorem Program.rotary_ignoring (program : Program) (ignore : List String) :
    (program.ignoring ignore).rotary = program.rotary := rfl

theorem Program.writeRaw_ignoring (program : Program) (ignore : List String) (block : String) :
    (program.ignoring ignore).writeRaw block = (program.writeRaw block).ignoring ignore := by
  unfold writeRaw
  split <;> rfl

namespace Machine

section

variable (machine : Machine) (program : Program) (ignore : List String)

/-- No act looks at the messages that are ignored. -/
theorem perform_ignoring (act : Act) :
    machine.perform (program.ignoring ignore) act = (machine.perform program act).ignoring ignore := by
  have warnings : (machine.perform program act).warnings = program.warnings.addAll act.warnings :=
    congrArg Prod.fst (machine.tallies_perform program act)
  have performed := machine.perform_annotated program ignore program.warnings act
  rw [← warnings] at performed
  exact performed

private theorem writeToolChange_ignoring (tool : Option Tool) :
    machine.writeToolChange (program.ignoring ignore) tool =
      (machine.writeToolChange program tool).ignoring ignore :=
  machine.perform_ignoring program ignore (.toolChange tool)

private theorem performAll_ignoring (acts : List Act) :
    machine.performAll (program.ignoring ignore) acts =
      (machine.performAll program acts).ignoring ignore := by
  induction acts generalizing program with
  | nil => rfl
  | cons act rest ih => rw [performAll_cons, performAll_cons, perform_ignoring, ih]

theorem writeMoves_ignoring (tool : Option Tool) (points : List Point) :
    machine.writeMoves (program.ignoring ignore) tool points =
      (machine.writeMoves program tool points).ignoring ignore := by
  rw [writeMoves_eq, writeMoves_eq, performAll_ignoring, Program.rotary_ignoring]

private theorem writeTransition_ignoring (source : Option Path) (target : Path) (entry : Bool) :
    machine.writeTransition (program.ignoring ignore) source target entry =
      (machine.writeTransition program source target entry).map (·.ignoring ignore) := by
  unfold writeTransition
  split
  · cases target.context with
    | error cause => rfl
    | ok context =>
        obtain ⟨tool, form⟩ := context
        have known : Except.mapError TransitionError.context (.ok (tool, form)) = .ok (tool, form) := rfl
        rw [known]
        simp only [bind, Except.bind, pure, Except.pure]
        split
        · split <;> rfl
        · split
          · rfl
          · simp [Except.map, writeMoves_ignoring]
  · rfl

private theorem writePath_ignoring (path : Path) :
    machine.writePath (program.ignoring ignore) path =
      (machine.writePath program path).map (·.ignoring ignore) := by
  unfold writePath
  cases path.ready with
  | error cause => rfl
  | ok context =>
      simp only [bind, Except.bind, pure, Except.pure, Except.map, Program.writeRaw_ignoring,
        writeMoves_ignoring]
      split <;> rw [Program.writeRaw_ignoring]

private theorem writeOperationStart_ignoring (name : String) :
    machine.writeOperationStart (program.ignoring ignore) name =
      (machine.writeOperationStart program name).ignoring ignore := by
  unfold writeOperationStart
  dsimp only
  split <;> split <;> rfl

private theorem openLeg_ignoring (leg : Leg) :
    machine.openLeg (program.ignoring ignore) leg = (machine.openLeg program leg).ignoring ignore := by
  unfold openLeg writeHeading
  cases leg.heading <;> dsimp only <;> split <;>
    simp only [writeOperationStart_ignoring, writeToolChange_ignoring]

private theorem writeLeg_ignoring (leg : Leg) :
    machine.writeLeg (program.ignoring ignore) leg =
      (machine.writeLeg program leg).map (·.ignoring ignore) := by
  have way : machine.reachLeg (program.ignoring ignore) leg =
      (machine.reachLeg program leg).map (·.ignoring ignore) := by
    rw [reachLeg, reachLeg, openLeg_ignoring, writeWay, writeWay, writeTransition_ignoring]
    cases machine.writeTransition (machine.openLeg program leg) leg.source leg.path
      leg.heading.isSome <;> rfl
  rw [writeLeg, writeLeg, way]
  apply map_bind_comm
  intro reached
  rw [writePrepared, writePrepared, writePath_ignoring]
  cases machine.writePath reached leg.path <;> rfl

private theorem writeLegs_ignoring (legs : List Leg) :
    machine.writeLegs (program.ignoring ignore) legs =
      (machine.writeLegs program legs).map (·.ignoring ignore) := by
  induction legs generalizing program with
  | nil => rfl
  | cons leg rest ih =>
      rw [writeLegs_cons, writeLegs_cons, writeLeg_ignoring]
      exact map_bind_comm ih

private theorem writeFooter_ignoring :
    machine.writeFooter (program.ignoring ignore) =
      (machine.writeFooter program).ignoring ignore := by
  unfold writeFooter
  dsimp only
  split <;> rfl

end

end Machine

theorem Program.noteOutcomes_ignoring (program : Program) (ignore : List String)
    (outcomes : List Outcome) :
    (program.ignoring ignore).noteOutcomes outcomes =
      (program.noteOutcomes outcomes).ignoring ignore := by
  rw [noteOutcomes_eq, noteOutcomes_eq]
  rfl

/-! ## Dividing errors -/

namespace Program

/-- All errors of a program: those that count, and those that are ignored. -/
def allErrors (program : Program) : Tally := program.countedErrors ++ program.ignoredErrors

/-- Whether the errors of a program are divided by a list: what is in the list is ignored, and what is
not counts, each as often as it occurs among all errors. -/
structure DividedBy (program : Program) (ignore : List String) : Prop where
  ignored : ∀ message, List.lookup message program.ignoredErrors =
    if message ∈ ignore then List.lookup message program.allErrors else none
  counted : ∀ message, List.lookup message program.countedErrors =
    if message ∈ ignore then none else List.lookup message program.allErrors

theorem lookup_ignoredErrors (program : Program) (message : String) :
    List.lookup message program.ignoredErrors =
      if message ∈ program.ignore then List.lookup message program.errors else none := by
  rw [ignoredErrors, lookup_filter program.ignore.contains]
  simp

theorem lookup_countedErrors (program : Program) (message : String) :
    List.lookup message program.countedErrors =
      if message ∈ program.ignore then none else List.lookup message program.errors := by
  rw [countedErrors, lookup_filter fun known => !program.ignore.contains known]
  by_cases listed : message ∈ program.ignore <;> simp [listed]

theorem lookup_allErrors (program : Program) (message : String) :
    List.lookup message program.allErrors = List.lookup message program.errors := by
  rw [allErrors, List.lookup_append, lookup_countedErrors, lookup_ignoredErrors]
  by_cases listed : message ∈ program.ignore <;> simp [listed]

theorem dividedBy_ignore (program : Program) : program.DividedBy program.ignore where
  ignored := by
    intro message
    rw [lookup_ignoredErrors, lookup_allErrors]
  counted := by
    intro message
    rw [lookup_countedErrors, lookup_allErrors]

end Program

/-! ## Compiling -/

namespace Instruction

private theorem heading_ignoring (instruction : Instruction) (machine : Machine)
    (first second : List String) :
    (instruction.heading machine first).ignoring second = instruction.heading machine second := by
  unfold heading Machine.writeHeader
  dsimp only
  split <;> split <;> rfl

/-- Another list of ignored messages changes nothing but the list in the program. -/
theorem compile_ignoring (instruction : Instruction) (first second : List String) :
    instruction.compile second = (instruction.compile first).map (·.ignoring second) := by
  cases known : instruction.machine with
  | none =>
      rw [compile_of_no_machine known, compile_of_no_machine known]
      rfl
  | some machine =>
      rw [compile_eq known, compile_eq known]
      cases instruction.prepareOperations machine with
      | error cause => rfl
      | ok operations =>
          cases instruction.prepareEnd machine instruction.start with
          | error cause => rfl
          | ok start =>
              cases instruction.prepareEnd machine instruction.finish with
              | error cause => rfl
              | ok finish =>
                  simp only [bind, Except.bind]
                  rw [← instruction.heading_ignoring machine first second,
                    Machine.writeLegs_ignoring]
                  cases machine.writeLegs (instruction.heading machine first)
                      (Leg.all start operations finish) with
                  | error cause => rfl
                  | ok written =>
                      simp only [Except.map, Machine.writeFooter_ignoring,
                        Program.noteOutcomes_ignoring]

theorem ignore_of_compile {instruction : Instruction} {ignore : List String} {program : Program}
    (compiled : instruction.compile ignore = .ok program) : program.ignore = ignore := by
  have same := instruction.compile_ignoring ignore ignore
  rw [compiled] at same
  exact congrArg Program.ignore (Except.ok.inj same)

/-- The ignore list only reclassifies. With any two lists an instruction fails for the same cause or
compiles to programs with the same code, ranges and warnings, and with the same errors in the same
numbers. In each program the errors in its list are ignored, and all others count. -/
theorem compile_reclassifies (instruction : Instruction) (first second : List String) :
    EndAlike
      (fun program other =>
        program.text = other.text ∧ program.ranges = other.ranges ∧
        program.warnings = other.warnings ∧
        (∀ message,
          List.lookup message program.allErrors = List.lookup message other.allErrors) ∧
        program.DividedBy first ∧ other.DividedBy second)
      (instruction.compile first) (instruction.compile second) := by
  have changed := instruction.compile_ignoring first second
  cases compiled : instruction.compile first with
  | error cause =>
      rw [compiled] at changed
      rw [changed]
      exact .failed cause
  | ok program =>
      rw [compiled] at changed
      rw [changed]
      refine .returned ⟨rfl, rfl, rfl, ?_, ?_, (program.ignoring second).dividedBy_ignore⟩
      · intro message
        rw [Program.lookup_allErrors, Program.lookup_allErrors]
        rfl
      · rw [← ignore_of_compile compiled]
        exact program.dividedBy_ignore

end Instruction

end Kerf
