import Kerf.Proofs.Annotations

/-!
# Writing in parts

A run of points may be handed to the writer in one call or in several. Each call solves the rotary
axes anew from where they were left and blends the spin through the cusp on its own, so a cut inside
a passage of the cusp can be seen. Everywhere else it cannot.

Main statement: two calls leave the program that one call with all points leaves, except that a
slanted tool may be complained about once more.
-/

set_option autoImplicit false

namespace Kerf

open Kerf.Program (Word Entry)
open Rotary (Setting)

namespace Machine

/-! ## Settings -/

/-- A run of settings that is not left at the cusp. -/
def EndsOffCusp (settings : List Setting) : Prop := ∀ last ∈ settings.getLast?, last.atCusp = false

/-- A run of settings that is not entered at the cusp. -/
def BeginsOffCusp (settings : List Setting) : Prop := ∀ first ∈ settings.head?, first.atCusp = false

theorem EndsOffCusp.of_append (front : List Setting) {back : List Setting}
    (ends : EndsOffCusp (front ++ back)) : EndsOffCusp back := by
  intro last found
  apply ends
  rw [List.getLast?_append, found]
  rfl

/-- A passage of the cusp is over before a run ends off the cusp. -/
theorem EndsOffCusp.passage {setting : Setting} {rest : List Setting}
    (ends : EndsOffCusp (setting :: rest)) (cusp : setting.atCusp = true) :
    ∃ run next later, rest = run ++ next :: later ∧ (∀ inner ∈ run, inner.atCusp = true) ∧
      ¬ next.atCusp = true ∧ rest.dropWhile (·.atCusp) = next :: later ∧
      EndsOffCusp (next :: later) := by
  induction rest generalizing setting with
  | nil =>
      have off := ends setting rfl
      rw [cusp] at off
      cases off
  | cons second rest ih =>
      by_cases inside : second.atCusp = true
      · obtain ⟨run, next, later, rfl, all, off, left, endsLater⟩ := ih (ends.of_append [_]) inside
        exact ⟨second :: run, next, later, rfl, List.forall_mem_cons.mpr ⟨inside, all⟩, off,
          (List.dropWhile_cons_of_pos inside).trans left, endsLater⟩
      · exact ⟨[], second, rest, rfl, by simp, inside, List.dropWhile_cons_of_neg inside,
          ends.of_append [_]⟩

/-- Off the cusp it does not matter what came before. -/
theorem smoothFrom_of_begins {settings : List Setting} (begins : BeginsOffCusp settings)
    (before other : Option Float) : smoothFrom before settings = smoothFrom other settings := by
  cases settings with
  | nil => rw [smoothFrom, smoothFrom]
  | cons setting rest =>
      have off : setting.atCusp = false := begins setting rfl
      rw [smoothFrom, smoothFrom, off]
      rfl

private theorem smoothFrom_append {front back : List Setting} (ends : EndsOffCusp front)
    (begins : BeginsOffCusp back) (before : Option Float) :
    smoothFrom before (front ++ back) = smoothFrom before front ++ smoothCusp back := by
  fun_induction smoothFrom before front with
  | case1 before => exact smoothFrom_of_begins begins before none
  | case2 before setting rest cusp run after ih =>
      -- The passage ends inside the front, so that the back has no part in its blend.
      obtain ⟨inner, next, later, rfl, all, off, left, endsLater⟩ := ends.passage cusp
      rw [show after = next :: later from left] at ih ⊢
      rw [List.append_assoc, ← ih endsLater, List.cons_append, smoothFrom, if_pos cusp]
      simp [run, List.append_assoc, List.dropWhile_append_of_pos all,
        List.takeWhile_append_of_pos all, off]
  | case3 before setting rest off ih =>
      rw [List.cons_append, smoothFrom, if_neg off, ih (ends.of_append [_]), List.cons_append]

/-- A run that ends off the cusp is left as it was solved. -/
theorem getLast?_smoothFrom {settings : List Setting} (ends : EndsOffCusp settings)
    (before : Option Float) : (smoothFrom before settings).getLast? = settings.getLast? := by
  fun_induction smoothFrom before settings with
  | case1 before => rfl
  | case2 before setting rest cusp run after ih =>
      obtain ⟨inner, next, later, rfl, all, off, left, endsLater⟩ := ends.passage cusp
      rw [show after = next :: later from left] at ih ⊢
      rw [List.getLast?_append, ih endsLater, ← List.cons_append, List.getLast?_append,
        List.getLast?_eq_some_getLast (List.cons_ne_nil next later)]
      rfl
  | case3 before setting rest off ih =>
      rw [List.getLast?_cons, List.getLast?_cons, ih (ends.of_append [_])]

/-- The setting that the rotary axes are in once points have been solved. -/
def settled (limits : Rotary.Limits) (rotary : Setting) (points : List Point) : Setting :=
  (solveRotary limits rotary points).getLast?.getD rotary

private theorem solveRotary_append (limits : Rotary.Limits) (rotary : Setting)
    (front back : List Point) : solveRotary limits rotary (front ++ back) =
      solveRotary limits rotary front ++ solveRotary limits (settled limits rotary front) back := by
  induction front generalizing rotary with
  | nil => rfl
  | cons point rest ih =>
      rw [List.cons_append, solveRotary, ih, solveRotary, settled, settled, solveRotary,
        List.getLast?_cons]
      rfl

/-- On a table, neither does the front leave the rotary axes at the cusp nor does the back begin
there. -/
def JoinsOffCusp (machine : Machine) (rotary : Setting) (front back : List Point) : Prop :=
  ∀ limits pivot, machine.kinematics = .table limits pivot →
    EndsOffCusp (solveRotary limits rotary front) ∧
      BeginsOffCusp (solveRotary limits (settled limits rotary front) back)

end Machine

/-! ## The setting that is kept -/

namespace Machine

private theorem rotary_noteRotary (machine : Machine) (program : Program) (setting : Setting) :
    (machine.noteRotary program setting).rotary =
      if machine.isFiveAxis then setting else program.rotary := by
  unfold noteRotary isFiveAxis
  cases machine.kinematics with
  | planar => rfl
  | vertical => rfl
  | table limits pivot =>
      dsimp only
      split <;> split <;> rfl

private theorem rotary_writeMove (machine : Machine) (program : Program) (tool : Option Tool)
    (point : Point) (values : AxisValues) :
    (machine.writeMove program tool point values).rotary =
      if machine.isFiveAxis then values.rotary else program.rotary := by
  obtain ⟨_, _, _, frame⟩ := machine.writeMove_frame program tool point values
  rw [frame]
  exact machine.rotary_noteRotary program values.rotary

/-- A table keeps the setting of the last point written. -/
theorem rotary_pointActs (machine : Machine) (program : Program) (tool : Option Tool) (warned : Bool)
    (targets : List (Point × AxisValues)) :
    (machine.performAll program (machine.pointActs tool warned targets)).rotary =
      if machine.isFiveAxis then ((targets.map (·.2)).map (·.rotary)).getLast?.getD program.rotary
      else program.rotary := by
  induction targets generalizing program warned with
  | nil => simp [performAll, pointActs]
  | cons target rest ih =>
      obtain ⟨point, values⟩ := target
      rw [pointActs, performAll_append, ih, List.map_cons, List.map_cons, List.getLast?_cons]
      simp only [performAll, List.foldl_cons, List.foldl_nil, perform, rotary_writeRaw,
        rotary_writeMove]
      cases machine.isFiveAxis <;> rfl

private theorem settings_solveAxes {machine : Machine} {limits : Rotary.Limits} {pivot : Vec}
    (turns : machine.kinematics = .table limits pivot) (rotary : Setting) (points : List Point) :
    (machine.solveAxes rotary points).map (·.rotary) =
      smoothCusp (solveRotary limits rotary points) := by
  have covered : (smoothCusp (solveRotary limits rotary points)).length = points.length := by
    rw [smoothCusp, length_smoothFrom, length_solveRotary]
  simp only [solveAxes, turns, List.map_map]
  exact List.map_snd_zip (Nat.le_of_eq covered)

private theorem rotary_writeMoves {machine : Machine} {limits : Rotary.Limits} {pivot : Vec}
    (turns : machine.kinematics = .table limits pivot) {program : Program} {points : List Point}
    (ends : EndsOffCusp (solveRotary limits program.rotary points)) (tool : Option Tool) :
    (machine.writeMoves program tool points).rotary = settled limits program.rotary points := by
  have fiveAxis : machine.isFiveAxis = true := by rw [isFiveAxis, turns]
  have covered := Nat.le_of_eq (machine.length_solveAxes program.rotary points)
  rw [writeMoves_eq, moveActs, rotary_pointActs, if_pos fiveAxis, List.map_snd_zip covered,
    settings_solveAxes turns, smoothCusp, getLast?_smoothFrom ends]
  rfl

private theorem solveAxes_append {machine : Machine} {program : Program} {front back : List Point}
    (joined : machine.JoinsOffCusp program.rotary front back) (tool : Option Tool) :
    machine.solveAxes program.rotary (front ++ back) =
      machine.solveAxes program.rotary front ++
        machine.solveAxes (machine.writeMoves program tool front).rotary back := by
  cases axes : machine.kinematics with
  | planar => simp [solveAxes, axes]
  | vertical => simp [solveAxes, axes]
  | table limits pivot =>
      obtain ⟨ends, begins⟩ := joined limits pivot axes
      rw [rotary_writeMoves axes ends]
      simp only [solveAxes, axes]
      rw [solveRotary_append, smoothCusp, smoothFrom_append ends begins, List.zip_append,
        List.map_append]
      · rfl
      · rw [length_smoothFrom, length_solveRotary]

/-! ## Warnings -/

/-- Whether the tool is slanted at a point, on a machine without rotary axes. -/
def meetsSlanted (machine : Machine) (point : Point) : Bool :=
  !machine.isFiveAxis && !point.direction.isVertical

theorem pointActs_cons (machine : Machine) (tool : Option Tool) (warned : Bool) (point : Point)
    (values : AxisValues) (rest : List (Point × AxisValues)) :
    machine.pointActs tool warned ((point, values) :: rest) =
      [.note (if !warned && machine.meetsSlanted point then notVertical :: point.warnings
          else point.warnings) point.errors,
        .raw point.preCode, .move tool point values, .raw point.postCode] ++
        machine.pointActs tool (warned || machine.meetsSlanted point) rest := by
  have slanted : (!machine.isFiveAxis && !warned && !point.direction.isVertical) =
      (!warned && machine.meetsSlanted point) := by
    rw [Bool.and_assoc, Bool.and_left_comm]
    rfl
  have told : (warned || !warned && machine.meetsSlanted point) =
      (warned || machine.meetsSlanted point) := by
    cases warned <;> rfl
  rw [pointActs, slanted, told]

private theorem pointActs_append (machine : Machine) (tool : Option Tool) (warned : Bool)
    (front back : List (Point × AxisValues)) : machine.pointActs tool warned (front ++ back) =
      machine.pointActs tool warned front ++
        machine.pointActs tool (warned || (front.map (·.1)).any machine.meetsSlanted) back := by
  induction front generalizing warned with
  | nil => simp [pointActs]
  | cons target rest ih =>
      obtain ⟨point, values⟩ := target
      rw [List.cons_append, pointActs_cons, ih, pointActs_cons, List.append_assoc, List.map_cons,
        List.any_cons, Bool.or_assoc]

/-- Points are written with the warnings attached to them, and at most once with one more. -/
theorem count_warnings_pointActs (machine : Machine) (tool : Option Tool) (warned : Bool)
    (targets : List (Point × AxisValues)) (message : String) :
    ((machine.pointActs tool warned targets).flatMap (·.warnings)).count message =
      (targets.flatMap (·.1.warnings)).count message +
        if !warned && (targets.map (·.1)).any machine.meetsSlanted then
          [notVertical].count message
        else 0 := by
  induction targets generalizing warned with
  | nil => simp [pointActs]
  | cons target rest ih =>
      obtain ⟨point, values⟩ := target
      rw [pointActs_cons, List.flatMap_append, List.count_append, ih, List.flatMap_cons,
        List.count_append, List.map_cons, List.any_cons]
      generalize machine.meetsSlanted point = here
      generalize (rest.map (·.1)).any machine.meetsSlanted = later
      cases warned <;> cases here <;> cases later <;>
        simp [Act.warnings, List.count_cons] <;> omega

end Machine

/-! ## Programs without their warnings -/

def Program.unwarned (program : Program) : Program := { program with warnings := [] }

def Act.muted : Act → Act
  | .note _ errors => .note [] errors
  | act => act

namespace Machine

private theorem ignore_perform (machine : Machine) (program : Program) (act : Act) :
    (machine.perform program act).ignore = program.ignore := by
  have performed := machine.perform_annotated program program.ignore program.warnings act
  exact congrArg (·.ignore) performed

private theorem perform_unwarned (machine : Machine) (program : Program) (act : Act) :
    machine.perform program.unwarned act.muted = (machine.perform program act).unwarned := by
  have performed := machine.perform_annotated program program.ignore [] act
  have kept : (machine.perform program act).unwarned =
      (machine.perform program act).annotated program.ignore [] := by
    rw [← machine.ignore_perform program act]
    rfl
  rw [kept]
  cases act with
  | note warnings errors => rfl
  | toolChange tool => exact performed
  | raw block => exact performed
  | move tool point values => exact performed

theorem performAll_unwarned (machine : Machine) (program : Program) (acts : List Act) :
    machine.performAll program.unwarned (acts.map Act.muted) =
      (machine.performAll program acts).unwarned := by
  induction acts generalizing program with
  | nil => rfl
  | cons act rest ih => rw [List.map_cons, performAll_cons, perform_unwarned, ih, performAll_cons]

private theorem muted_pointActs (machine : Machine) (tool : Option Tool) (warned other : Bool)
    (targets : List (Point × AxisValues)) : (machine.pointActs tool warned targets).map Act.muted =
      (machine.pointActs tool other targets).map Act.muted := by
  induction targets generalizing warned other with
  | nil => rfl
  | cons target rest ih =>
      rw [pointActs, pointActs, List.map_append, List.map_append]
      exact congrArg _ (ih _ _)

theorem count_warnings_performAll (machine : Machine) (program : Program) (acts : List Act)
    (message : String) :
    (machine.performAll program acts).warnings.count message =
      program.warnings.count message + (acts.flatMap (·.warnings)).count message := by
  rw [← Tally.count_addAll]
  exact congrArg (·.1.count message) (machine.tallies_performAll program acts)

/-- One call and two calls move to the same places, and only differ in what has been said when the
back begins. -/
theorem writeMoves_parts {machine : Machine} {program : Program} {front back : List Point}
    (joined : machine.JoinsOffCusp program.rotary front back) (tool : Option Tool) :
    ∃ near far, far.map (·.1) = back ∧
      machine.writeMoves program tool (front ++ back) =
        machine.performAll program (machine.pointActs tool false near ++
          machine.pointActs tool (front.any machine.meetsSlanted) far) ∧
      machine.writeMoves (machine.writeMoves program tool front) tool back =
        machine.performAll program
          (machine.pointActs tool false near ++ machine.pointActs tool false far) := by
  have zipped : ∀ (rotary : Setting) (points : List Point),
      (points.zip (machine.solveAxes rotary points)).map (·.1) = points := by
    intro rotary points
    exact List.map_fst_zip (Nat.le_of_eq (machine.length_solveAxes rotary points).symm)
  refine ⟨front.zip (machine.solveAxes program.rotary front), _,
    zipped (machine.writeMoves program tool front).rotary back, ?_, ?_⟩
  · have appended := machine.pointActs_append tool false
      (front.zip (machine.solveAxes program.rotary front))
      (back.zip (machine.solveAxes (machine.writeMoves program tool front).rotary back))
    rw [zipped, Bool.false_or] at appended
    rw [← appended, writeMoves_eq, moveActs, solveAxes_append joined tool, List.zip_append]
    exact (machine.length_solveAxes program.rotary front).symm
  · rw [performAll_append, ← moveActs, ← moveActs, ← writeMoves_eq, ← writeMoves_eq]

/-- Writing is compositional. Points that are written in two calls leave the program that they leave
in one, with the same text, words in force, rotary setting, ranges and errors, unless the rotary axes
of a table are at the cusp where the first call ends or the second begins. The warnings are the same
but for the one about a slanted tool, which each call gives once. -/
theorem writeMoves_append {machine : Machine} {program : Program} {front back : List Point}
    (joined : machine.JoinsOffCusp program.rotary front back) (tool : Option Tool) :
    let once := machine.writeMoves program tool (front ++ back)
    let twice := machine.writeMoves (machine.writeMoves program tool front) tool back
    twice = { once with warnings := twice.warnings } ∧
      (∀ message, message ≠ notVertical →
        twice.warnings.count message = once.warnings.count message) ∧
      twice.warnings.count notVertical =
        once.warnings.count notVertical +
          if front.any machine.meetsSlanted && back.any machine.meetsSlanted then 1 else 0 := by
  intro once twice
  obtain ⟨near, far, points, onceActs, twiceActs⟩ := writeMoves_parts joined tool
  have same : twice.unwarned = once.unwarned := by
    rw [show twice = _ from twiceActs, show once = _ from onceActs, ← performAll_unwarned,
      ← performAll_unwarned, List.map_append, List.map_append,
      muted_pointActs machine tool false (front.any machine.meetsSlanted) far]
  have counts : ∀ message, twice.warnings.count message = once.warnings.count message +
      if front.any machine.meetsSlanted && back.any machine.meetsSlanted then
        [notVertical].count message else 0 := by
    intro message
    rw [show twice = _ from twiceActs, show once = _ from onceActs, count_warnings_performAll,
      count_warnings_performAll, List.flatMap_append, List.flatMap_append, List.count_append,
      List.count_append, count_warnings_pointActs machine tool false far,
      count_warnings_pointActs machine tool _ far, points]
    cases front.any machine.meetsSlanted with
    | false => simp
    | true =>
        simp
        omega
  refine ⟨congrArg (fun program => { program with warnings := twice.warnings }) same, ?_, ?_⟩
  · intro message other
    rw [counts, List.count_singleton]
    simp [Ne.symm other]
  · rw [counts, List.count_singleton_self]

/-- Two runs over the cusp on a table: each goes through it and comes out again. -/
theorem writeMoves_append_overCusp :
    let limits : Rotary.Limits := ⟨-0.5, 2.5, 7⟩
    let machine : Machine := ⟨{ commentStart := "(" }, .table limits Vec.zero⟩
    let program := Program.empty machine.dialect []
    let towards (direction : Vec) : Point := { position := ⟨1, 2, 3⟩, direction, feed := 100 }
    let front := [towards Vec.zAxis, towards Vec.yAxis, towards ⟨0.6, 0, 0.8⟩]
    let back := [towards Vec.zAxis, towards Vec.yAxis, towards Vec.zAxis]
    (solveRotary limits .home (front ++ back)).map (·.atCusp) =
        [false, true, false, false, true, false] ∧
      machine.JoinsOffCusp program.rotary front back ∧
      (machine.writeMoves (machine.writeMoves program none front) none back).text =
        (machine.writeMoves program none (front ++ back)).text := by
  intro limits machine program towards front back
  have joined : machine.JoinsOffCusp program.rotary front back := by
    intro travel pivot turns
    cases turns
    have solved : (solveRotary limits .home front).getLast?.map (·.atCusp) = some false ∧
        (solveRotary limits (settled limits .home front) back).head?.map (·.atCusp) = some false := by
      decide +kernel
    constructor
    · intro last found
      have flag := solved.1
      rw [show (solveRotary limits .home front).getLast? = some last from found] at flag
      exact Option.some.inj flag
    · intro first found
      have flag := solved.2
      rw [show (solveRotary limits (settled limits .home front) back).head? = some first from found]
        at flag
      exact Option.some.inj flag
  have unread : ∀ (written : Program) (warnings : Tally),
      ({ written with warnings } : Program).text = written.text := fun _ _ => rfl
  refine ⟨by decide +kernel, joined, ?_⟩
  rw [(writeMoves_append joined none).1, unread]

end Machine

end Kerf
