import Kerf.Proofs.Attachments
import Kerf.Proofs.Emission
import Kerf.Instruction.Compile

/-!
# Recorded messages

While acts are carried out, messages are counted as they are recorded. A note records what it holds,
and a move records which of the rotary axes it sends out of bounds; nothing else records anything.
-/

set_option autoImplicit false

namespace Kerf

open Kerf.Program (Word Entry)

namespace Tally

theorem count_cons (known : String) (number : Nat) (rest : Tally) (message : String) :
    count ((known, number) :: rest) message =
      if message = known then number else count rest message := by
  unfold count
  by_cases same : message = known
  · simp [same]
  · have different : (message == known) = false := beq_eq_false_iff_ne.mpr same
    simp [List.lookup_cons, same, different]

private theorem count_add (tally : Tally) (message other : String) :
    (tally.add message).count other = tally.count other + if other = message then 1 else 0 := by
  induction tally with
  | nil =>
      rw [add, count_cons]
      by_cases same : other = message <;> simp [same, count]
  | cons entry rest ih =>
      obtain ⟨known, number⟩ := entry
      by_cases same : known = message
      · subst same
        by_cases here : other = known <;> simp [add, count_cons, here]
      · by_cases here : other = known
        · subst here
          simp [add, count_cons, same]
        · simp [add, count_cons, same, here, ih]

theorem addAll_cons (tally : Tally) (message : String) (rest : List String) :
    tally.addAll (message :: rest) = (tally.add message).addAll rest :=
  rfl

theorem addAll_append (tally : Tally) (front back : List String) :
    tally.addAll (front ++ back) = (tally.addAll front).addAll back :=
  List.foldl_append

theorem count_addAll (tally : Tally) (messages : List String) (other : String) :
    (tally.addAll messages).count other = tally.count other + messages.count other := by
  induction messages generalizing tally with
  | nil => rfl
  | cons message rest ih =>
      rw [addAll_cons, ih, count_add, List.count_cons]
      by_cases same : other = message
      · simp [same]
        omega
      · simp [same, Ne.symm same]

end Tally

namespace Program

/-- Every error is either counted or ignored. -/
theorem count_countedErrors_add_ignoredErrors (program : Program) (message : String) :
    program.countedErrors.count message + program.ignoredErrors.count message =
      program.errors.count message := by
  simp only [countedErrors, ignoredErrors, Tally.count]
  rw [lookup_filter (fun known => !program.ignore.contains known),
    lookup_filter program.ignore.contains]
  cases program.ignore.contains message <;> simp

/-! ## What records nothing -/

def tallies (program : Program) : Tally × Tally := (program.warnings, program.errors)

@[simp] theorem tallies_word (program : Program) (letter value : String) :
    (program.word letter value).1.tallies = program.tallies := by
  unfold word; split <;> rfl

@[simp] theorem tallies_forget (program : Program) (letters : List String) :
    (program.forget letters).tallies = program.tallies := rfl

@[simp] theorem tallies_write (program : Program) (entry : Entry) :
    (program.write entry).tallies = program.tallies := rfl

@[simp] theorem tallies_writeRaw (program : Program) (block : String) :
    (program.writeRaw block).tallies = program.tallies := by
  unfold writeRaw; split <;> rfl

end Program

namespace Machine

@[simp] theorem tallies_writeToolChange (machine : Machine) (program : Program)
    (tool : Option Tool) : (machine.writeToolChange program tool).tallies = program.tallies := by
  cases tool with
  | none => rfl
  | some tool =>
      rcases machine.writeToolChange_cases program tool with
        ⟨_, same⟩ | ⟨_, _, changed⟩ | ⟨_, _, remark, changed⟩
      · rw [same]
      · simp [changed]
      · simp [changed]

@[simp] theorem tallies_writeOperationStart (machine : Machine) (program : Program) (name : String) :
    (machine.writeOperationStart program name).tallies = program.tallies := by
  unfold writeOperationStart
  dsimp only
  split <;> split <;> rfl

@[simp] theorem tallies_writeHeader (machine : Machine) (program : Program) (name : String) :
    (machine.writeHeader program name).tallies = program.tallies := by
  unfold writeHeader
  dsimp only
  split <;> split <;> rfl

@[simp] theorem tallies_writeFooter (machine : Machine) (program : Program) :
    (machine.writeFooter program).tallies = program.tallies := by
  unfold writeFooter
  dsimp only
  split <;> rfl

/-! ## Acts -/

/-- The errors of a setting that the rotary axes cannot be sent to. -/
def outOfBounds (machine : Machine) (setting : Rotary.Setting) : List String :=
  match machine.kinematics with
  | .planar | .vertical => []
  | .table limits _ =>
      (if limits.allowsA setting then [] else [outOfBoundsA]) ++
        (if limits.allowsB setting then [] else [outOfBoundsB])

end Machine

namespace Act

/-- The warnings that an act records, in order. -/
def warnings : Act → List String
  | .note warnings _ => warnings
  | _ => []

/-- The errors that an act was given to record, in order. -/
def errors : Act → List String
  | .note _ errors => errors
  | _ => []

/-- All errors that an act records on a machine, in order. -/
def failures (machine : Machine) : Act → List String
  | .move _ _ values => machine.outOfBounds values.rotary
  | act => act.errors

@[simp] theorem errors_raw (block : String) : (Act.raw block).errors = [] := rfl

end Act

namespace Machine

private theorem tallies_noteRotary (machine : Machine) (program : Program)
    (setting : Rotary.Setting) : (machine.noteRotary program setting).tallies =
      (program.warnings, program.errors.addAll (machine.outOfBounds setting)) := by
  unfold noteRotary outOfBounds
  cases machine.kinematics with
  | planar => rfl
  | vertical => rfl
  | table limits pivot =>
      dsimp only
      cases limits.allowsA setting <;> cases limits.allowsB setting <;> rfl

private theorem tallies_writeMove (machine : Machine) (program : Program) (tool : Option Tool)
    (point : Point) (values : AxisValues) : (machine.writeMove program tool point values).tallies =
      (program.warnings, program.errors.addAll (machine.outOfBounds values.rotary)) := by
  obtain ⟨_, _, _, frame⟩ := machine.writeMove_frame program tool point values
  rw [frame]
  exact machine.tallies_noteRotary program values.rotary

theorem tallies_perform (machine : Machine) (program : Program) (act : Act) :
    (machine.perform program act).tallies =
      (program.warnings.addAll act.warnings, program.errors.addAll (act.failures machine)) := by
  cases act with
  | toolChange tool => exact machine.tallies_writeToolChange program tool
  | raw block => exact program.tallies_writeRaw block
  | note warnings errors => rfl
  | move tool point values => exact machine.tallies_writeMove program tool point values

theorem tallies_performAll (machine : Machine) (program : Program) (acts : List Act) :
    (machine.performAll program acts).tallies =
      (program.warnings.addAll (acts.flatMap (·.warnings)),
        program.errors.addAll (acts.flatMap (·.failures machine))) := by
  induction acts generalizing program with
  | nil => rfl
  | cons act rest ih =>
      obtain ⟨warnings, errors⟩ := Prod.mk.inj (machine.tallies_perform program act)
      rw [performAll_cons, ih, warnings, errors, ← Tally.addAll_append, ← Tally.addAll_append,
        List.flatMap_cons, List.flatMap_cons]

/-- The messages that a move itself can count. -/
def boundMessages : List String := [outOfBoundsA, outOfBoundsB]

private theorem outOfBounds_subset (machine : Machine) (setting : Rotary.Setting) :
    machine.outOfBounds setting ⊆ boundMessages := by
  unfold outOfBounds
  split
  · exact List.nil_subset _
  · exact List.nil_subset _
  · split <;> split <;> simp [boundMessages]

/-- Other messages are recorded only where an act was given them. -/
theorem count_failures {message : String} (other : message ∉ boundMessages) (machine : Machine)
    (acts : List Act) :
    (acts.flatMap (·.failures machine)).count message = (acts.flatMap (·.errors)).count message := by
  induction acts with
  | nil => rfl
  | cons act rest ih =>
      have here : (act.failures machine).count message = act.errors.count message := by
        cases act with
        | move tool point values =>
            exact List.count_eq_zero.mpr fun noted => other (machine.outOfBounds_subset _ noted)
        | toolChange tool => rfl
        | raw block => rfl
        | note warnings errors => rfl
      rw [List.flatMap_cons, List.flatMap_cons, List.count_append, List.count_append, here, ih]

/-! ## Calls -/

private theorem errors_pointActs (machine : Machine) (tool : Option Tool) (warned : Bool)
    (points : List (Point × AxisValues)) :
    (machine.pointActs tool warned points).flatMap (·.errors) = Track.errors (points.map (·.1)) := by
  induction points generalizing warned with
  | nil => rfl
  | cons head rest ih =>
      obtain ⟨point, values⟩ := head
      rw [pointActs, List.flatMap_append, ih, List.map_cons, Track.errors_cons]
      simp [Act.errors]

theorem errors_moveActs (machine : Machine) (rotary : Rotary.Setting) (tool : Option Tool)
    (points : List Point) :
    (machine.moveActs rotary tool points).flatMap (·.errors) = Track.errors points := by
  rw [moveActs, errors_pointActs, List.map_fst_zip]
  exact Nat.le_of_eq (machine.length_solveAxes rotary points).symm

theorem errors_pathActs {path : Path} {context : Tool × Stock.Form} (ready : path.ready = .ok context)
    (machine : Machine) (rotary : Rotary.Setting) :
    (machine.pathActs rotary path).flatMap (·.errors) = path.points.errors := by
  unfold pathActs
  rw [ready]
  dsimp only
  split <;> simp [errors_moveActs]

end Machine

/-! ## Outcomes -/

/-- What is said about the paths of the operations once all has been written. -/
def Outcome.remarks (outcomes : List Outcome) : List String :=
  let skipped := outcomes.countP (·.isSkipped)
  let collapsed := outcomes.countP (·.isCollapsed)
  (if skipped = 0 then [] else ["Skipped " ++ toString skipped ++ " invalid paths"]) ++
    (if collapsed = 0 then [] else ["Offset removed " ++ toString collapsed ++ " paths"]) ++
    outcomes.flatMap (·.warnings)

namespace Program

private theorem foldl_warn (messages : List String) (program : Program) :
    messages.foldl warn program =
      { program with warnings := program.warnings.addAll messages } := by
  induction messages generalizing program with
  | nil => rfl
  | cons message rest ih => rw [List.foldl_cons, ih, warn, Tally.addAll_cons]

/-- Noting outcomes counts remarks and changes nothing else. -/
theorem noteOutcomes_eq (program : Program) (outcomes : List Outcome) :
    program.noteOutcomes outcomes =
      { program with warnings := program.warnings.addAll (Outcome.remarks outcomes) } := by
  unfold noteOutcomes Outcome.remarks
  dsimp only
  rw [foldl_warn, Tally.addAll_append, Tally.addAll_append]
  split <;> split <;> rfl

end Program

end Kerf
