import Kerf.Proofs.Registers

/-!
# A controller

The other side of a program: a register for every letter, which each word overwrites. Foreign code
may do anything to the registers, so a run of a program through a controller is a relation and not
a function.

A program tracks a letter when no such run contradicts the value it takes to be in force.
-/

set_option autoImplicit false

namespace Kerf

open Kerf.Program (Word Entry)

/-- The register of every letter. -/
abbrev Controller := String → String

namespace Controller

/-- Overwrites registers with words, in their order. -/
def obey (controller : Controller) (words : List Word) : Controller :=
  words.foldl
    (fun registers word letter => if letter = word.letter then word.value else registers letter)
    controller

/-- What one entry may do to the registers. A foreign block may do anything. The code for a change of
speed at the end of a move only brings the speed of its words into force: it changes no register. -/
inductive Step : Controller → Entry → Controller → Prop where
  | block {before after : Controller} {text : String} : Step before (.block text) after
  | line {registers : Controller} {text : String} : Step registers (.line text) registers
  | comment {registers : Controller} {text : String} : Step registers (.comment text) registers
  | move {registers : Controller} {words : List Word} {speedChange : String} :
      Step registers (.move words speedChange) (registers.obey words)

/-- What entries may do to the registers, one after another. -/
inductive Runs : Controller → List Entry → Controller → Prop where
  | done {registers : Controller} : Runs registers [] registers
  | next {first second last : Controller} {entry : Entry} {rest : List Entry} :
      Step first entry second → Runs second rest last → Runs first (entry :: rest) last

/-- Whether the axes of a machine stand at the texts of values. A planar machine has two of them and a
vertical one three; a table adds its two rotary axes, in degrees. -/
def StandsAt (controller : Controller) (kinematics : Kinematics) (format : Float → String)
    (values : AxisValues) : Prop :=
  let place := values.position
  match kinematics with
  | .planar => controller "X" = format place.x ∧ controller "Y" = format place.y
  | .vertical =>
      controller "X" = format place.x ∧ controller "Y" = format place.y ∧
        controller "Z" = format place.z
  | .table _ _ =>
      controller "X" = format place.x ∧ controller "Y" = format place.y ∧
        controller "Z" = format place.z ∧
        controller "A" = format (values.rotary.a * Scalar.degreesPerRadian) ∧
        controller "B" = format (values.rotary.b * Scalar.degreesPerRadian)

theorem obey_cons (controller : Controller) (word : Word) (words : List Word) :
    controller.obey (word :: words) =
      obey (fun letter => if letter = word.letter then word.value else controller letter) words :=
  rfl

theorem obey_of_not_mem {words : List Word} {letter : String} (controller : Controller)
    (absent : letter ∉ words.map (·.letter)) :
    controller.obey words letter = controller letter := by
  induction words generalizing controller with
  | nil => rfl
  | cons word words ih =>
      rw [List.map_cons, List.mem_cons, not_or] at absent
      rw [obey_cons, ih _ absent.2, if_neg absent.1]

theorem obey_of_mem {words : List Word} {letter value : String} (controller : Controller)
    (once : (words.map (·.letter)).Nodup) (written : ⟨letter, value⟩ ∈ words) :
    controller.obey words letter = value := by
  induction words generalizing controller with
  | nil => cases written
  | cons word words ih =>
      rw [List.map_cons, List.nodup_cons] at once
      rw [obey_cons]
      rcases List.mem_cons.mp written with rfl | later
      · rw [obey_of_not_mem _ once.1, if_pos rfl]
      · exact ih _ once.2 later

theorem runs_append {start last : Controller} {front back : List Entry} :
    Runs start (front ++ back) last ↔ ∃ middle, Runs start front middle ∧ Runs middle back last := by
  induction front generalizing start with
  | nil =>
      constructor
      · intro run
        exact ⟨start, .done, run⟩
      · rintro ⟨middle, front, back⟩
        cases front
        exact back
  | cons entry front ih =>
      constructor
      · intro run
        cases run with
        | next step rest =>
            obtain ⟨middle, frontRun, backRun⟩ := ih.mp rest
            exact ⟨middle, .next step frontRun, backRun⟩
      · rintro ⟨middle, frontRun, backRun⟩
        cases frontRun with
        | next step rest => exact .next step (ih.mpr ⟨middle, rest, backRun⟩)

theorem runs_singleton {start last : Controller} {entry : Entry} :
    Runs start [entry] last ↔ Step start entry last := by
  constructor
  · intro run
    cases run with
    | next step rest =>
        cases rest
        exact step
  · intro step
    exact .next step .done

end Controller

open Controller

namespace Program

/-- No run of the program contradicts the value in force for a letter. -/
def Tracks (program : Program) (letter : String) : Prop :=
  ∀ start controller value, Runs start program.entries.toList controller →
    program.registers.get? letter = some value → controller letter = value

variable {program : Program} {letter : String}

/-- A letter without a value in force is tracked, whatever has been written. -/
theorem tracks_of_get?_eq_none (unknown : program.registers.get? letter = none) :
    program.Tracks letter := by
  intro start controller value _ inForce
  rw [unknown] at inForce
  cases inForce

theorem tracks_empty (dialect : Dialect) (ignore : List String) (letter : String) :
    (Program.empty dialect ignore).Tracks letter :=
  tracks_of_get?_eq_none rfl

theorem Tracks.of_eq {other : Program} (tracks : program.Tracks letter)
    (entries : other.entries.toList = program.entries.toList)
    (register : other.registers.get? letter = program.registers.get? letter) :
    other.Tracks letter := by
  intro start controller value run inForce
  rw [entries] at run
  rw [register] at inForce
  exact tracks start controller value run inForce

theorem Tracks.write_comment (tracks : program.Tracks letter) (text : String) :
    (program.write (.comment text)).Tracks letter := by
  intro start controller value run inForce
  rw [entries_write, runs_append] at run
  obtain ⟨middle, front, back⟩ := run
  cases runs_singleton.mp back with
  | comment => exact tracks start _ value front inForce

/-- After a foreign block nothing about the motion is taken for granted. -/
theorem Tracks.writeRaw (tracks : program.Tracks letter) (motion : letter ∈ motionLetters)
    (block : String) : (program.writeRaw block).Tracks letter := by
  unfold Program.writeRaw
  split
  · exact tracks
  · apply tracks_of_get?_eq_none
    rw [get?_forget, if_pos motion]

end Program

end Kerf
