import Kerf.Proofs.Messages

/-!
# Annotations

The list of ignored messages and the warnings counted so far are kept on a program, but nothing that
is written depends on them.
-/

set_option autoImplicit false

namespace Kerf

open Kerf.Program (Word Entry)

namespace Program

def annotated (program : Program) (ignore : List String) (warnings : Tally) : Program :=
  { program with ignore, warnings }

section

variable (program : Program) (ignore : List String) (warnings : Tally)

@[simp] theorem rotary_annotated : (program.annotated ignore warnings).rotary = program.rotary := rfl

@[simp] theorem format_annotated (value : Float) :
    (program.annotated ignore warnings).format value = program.format value := rfl

@[simp] theorem write_annotated (entry : Entry) :
    (program.annotated ignore warnings).write entry =
      (program.write entry).annotated ignore warnings := rfl

@[simp] theorem forget_annotated (letters : List String) :
    (program.annotated ignore warnings).forget letters =
      (program.forget letters).annotated ignore warnings := rfl

@[simp] theorem word_annotated (letter value : String) :
    (program.annotated ignore warnings).word letter value =
      ((program.word letter value).1.annotated ignore warnings, (program.word letter value).2) := by
  unfold word
  rw [show (program.annotated ignore warnings).registers = program.registers from rfl]
  split <;> rfl

@[simp] theorem cover_annotated (key : String) (value : Float) :
    (program.annotated ignore warnings).cover key value =
      (program.cover key value).annotated ignore warnings := by
  unfold cover
  split <;> rfl

@[simp] theorem writeRaw_annotated (block : String) :
    (program.annotated ignore warnings).writeRaw block =
      (program.writeRaw block).annotated ignore warnings := by
  unfold writeRaw
  split <;> rfl

@[simp] theorem addWord_annotated (words : List Word) (letter value : String) :
    addWord (program.annotated ignore warnings, words) letter value =
      ((addWord (program, words) letter value).1.annotated ignore warnings,
        (addWord (program, words) letter value).2) := by
  simp [addWord]

end

end Program

namespace Machine

section

variable (machine : Machine) (program : Program) (ignore : List String) (warnings : Tally)

@[simp] theorem foldl_addAxis_annotated (axes : List (String × Float)) (words : List Word) :
    axes.foldl addAxis (program.annotated ignore warnings, words) =
      ((axes.foldl addAxis (program, words)).1.annotated ignore warnings,
        (axes.foldl addAxis (program, words)).2) := by
  induction axes generalizing program words with
  | nil => rfl
  | cons axis rest ih =>
      rw [List.foldl_cons, List.foldl_cons, ← ih]
      simp [addAxis]

@[simp] theorem noteRotary_annotated (setting : Rotary.Setting) :
    machine.noteRotary (program.annotated ignore warnings) setting =
      (machine.noteRotary program setting).annotated ignore warnings := by
  unfold noteRotary
  cases machine.kinematics with
  | planar => rfl
  | vertical => rfl
  | table limits pivot =>
      dsimp only
      split <;> split <;> rfl

@[simp] theorem motionWords_annotated (rapid : Bool) (values : AxisValues) :
    machine.motionWords (program.annotated ignore warnings) rapid values =
      ((machine.motionWords program rapid values).1.annotated ignore warnings,
        (machine.motionWords program rapid values).2) := by
  simp only [motionWords_eq, Program.addWord_annotated, foldl_addAxis_annotated,
    noteRotary_annotated, Prod.eta]
  generalize (if rapid then "00" else "01") = mode
  generalize (machine.coordinates values).foldl addAxis (Program.addWord (program, []) "G" mode) =
    moved
  split
  · rfl
  · split <;> rfl

private theorem writeMove_annotated (tool : Option Tool) (point : Point) (values : AxisValues) :
    machine.writeMove (program.annotated ignore warnings) tool point values =
      (machine.writeMove program tool point values).annotated ignore warnings := by
  simp only [writeMove, motionWords_annotated]
  generalize machine.motionWords program (effectiveFeed tool point == 0) values = moved
  obtain ⟨moved, words⟩ := moved
  by_cases cuts : effectiveFeed tool point > 0 <;> by_cases spins : effectiveSpeed tool point >= 0 <;>
    simp [cuts, spins, apply_ite (Program.annotated · ignore warnings)]

private theorem writeToolChange_annotated (tool : Option Tool) :
    machine.writeToolChange (program.annotated ignore warnings) tool =
      (machine.writeToolChange program tool).annotated ignore warnings := by
  cases tool with
  | none => rfl
  | some tool =>
      simp only [writeToolChange, Program.word_annotated]
      cases program.word "T" (toString tool.number) with
      | mk changed word =>
          cases word with
          | none => rfl
          | some word =>
              dsimp only
              split <;> simp

/-- An act does the same under other annotations, and counts its warnings on top of them. -/
theorem perform_annotated (act : Act) :
    machine.perform (program.annotated ignore warnings) act =
      (machine.perform program act).annotated ignore (warnings.addAll act.warnings) := by
  cases act with
  | toolChange tool => exact machine.writeToolChange_annotated program ignore warnings tool
  | raw block => exact program.writeRaw_annotated ignore warnings block
  | note messages errors => rfl
  | move tool point values =>
      exact machine.writeMove_annotated program ignore warnings tool point values

end

end Machine

end Kerf
