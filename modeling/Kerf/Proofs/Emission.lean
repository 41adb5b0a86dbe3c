import Kerf.Proofs.Modal
import Kerf.Route.Transition

/-!
# Emission

Sessions of calls to the writer. Each call comes down to a few kinds of acts, so that a session is a
list of acts and every moment of it is a place in that list.

Main statement: at every moment a controller that has obeyed the program so far has its axes where
the program says, moves with the mode and feed of the point, and was never told anything twice.
-/

set_option autoImplicit false

namespace Kerf

open Kerf.Program (Word Entry motionLetters)
open Kerf.Controller (Runs)

inductive Call where
  | toolChange (tool : Option Tool)
  | moves (tool : Option Tool) (points : List Point)
  | path (path : Path)
  | transition (source : Option Path) (target : Path) (entry : Bool)

/-- What the writer does at one moment. -/
inductive Act where
  | toolChange (tool : Option Tool)
  | raw (block : String)
  | note (warnings errors : List String)
  | move (tool : Option Tool) (point : Point) (values : AxisValues)

namespace Machine

/-! ## Calls and acts -/

/-- Carries out a call. One that fails leaves the program as it was. -/
def call (machine : Machine) (program : Program) : Call → Program
  | .toolChange tool => machine.writeToolChange program tool
  | .moves tool points => machine.writeMoves program tool points
  | .path path => (machine.writePath program path).toOption.getD program
  | .transition source target entry =>
      (machine.writeTransition program source target entry).toOption.getD program

def session (machine : Machine) (program : Program) (calls : List Call) : Program :=
  calls.foldl machine.call program

def perform (machine : Machine) (program : Program) : Act → Program
  | .toolChange tool => machine.writeToolChange program tool
  | .raw block => program.writeRaw block
  | .note warnings errors =>
      { program with
        warnings := program.warnings.addAll warnings
        errors := program.errors.addAll errors }
  | .move tool point values => machine.writeMove program tool point values

def performAll (machine : Machine) (program : Program) (acts : List Act) : Program :=
  acts.foldl machine.perform program

/-- The acts that write points with their axis values. -/
def pointActs (machine : Machine) (tool : Option Tool) (warned : Bool) :
    List (Point × AxisValues) → List Act
  | [] => []
  | (point, values) :: rest =>
      let slanted := !machine.isFiveAxis && !warned && !point.direction.isVertical
      [.note (if slanted then notVertical :: point.warnings else point.warnings) point.errors,
        .raw point.preCode, .move tool point values, .raw point.postCode] ++
        machine.pointActs tool (warned || slanted) rest

/-- The acts that write points as moves, continuing from a rotary setting. -/
def moveActs (machine : Machine) (rotary : Rotary.Setting) (tool : Option Tool)
    (points : List Point) : List Act :=
  machine.pointActs tool false (points.zip (machine.solveAxes rotary points))

theorem performAll_append (machine : Machine) (program : Program) (front back : List Act) :
    machine.performAll program (front ++ back) =
      machine.performAll (machine.performAll program front) back :=
  List.foldl_append

private theorem writePoints_eq (machine : Machine) (tool : Option Tool) (warned : Bool)
    (program : Program) (points : List (Point × AxisValues)) :
    machine.writePoints tool warned program points =
      machine.performAll program (machine.pointActs tool warned points) := by
  induction points generalizing warned program with
  | nil => rfl
  | cons head rest ih =>
      obtain ⟨point, values⟩ := head
      rw [writePoints, ih, pointActs, performAll_append]
      congr 1
      split <;> rfl

theorem writeMoves_eq (machine : Machine) (program : Program) (tool : Option Tool)
    (points : List Point) :
    machine.writeMoves program tool points =
      machine.performAll program (machine.moveActs program.rotary tool points) :=
  machine.writePoints_eq tool false program (points.zip (machine.solveAxes program.rotary points))

/-- The acts that write a path, if it is ready. -/
def pathActs (machine : Machine) (rotary : Rotary.Setting) (path : Path) : List Act :=
  match path.ready with
  | .error _ => []
  | .ok (tool, _) =>
      let moves := machine.moveActs rotary (some tool) path.points
      let switched :=
        match machine.kinematics with
        | .planar => .raw machine.dialect.pathStart :: moves ++ [.raw machine.dialect.pathEnd]
        | _ => moves
      .raw path.preCode :: switched ++ [.raw path.postCode]

/-- The acts that write the way to a path: an error for a long way in material, and otherwise the
moves of a route if there is one. -/
def transitionActs (machine : Machine) (rotary : Rotary.Setting) (source : Option Path)
    (target : Path) (entry : Bool) : List Act :=
  match source.bind (·.points.getLast?), target.points.head?, target.context with
  | some last, some first, .ok (tool, form) =>
      let forms := Route.stocks (source.bind (·.form)) form
      if Route.inMaterial forms last.position first.position tool.effectiveTolerance then
        if (last.position - first.position).length > machine.dialect.pathJump then
          [.note [] [if entry then longEntry else longTransition]]
        else []
      else
        match Route.between machine tool forms last first with
        | .error _ => []
        | .ok points => machine.moveActs rotary (some tool) points
  | _, _, _ => []

def callActs (machine : Machine) (program : Program) : Call → List Act
  | .toolChange tool => [.toolChange tool]
  | .moves tool points => machine.moveActs program.rotary tool points
  | .path path => machine.pathActs program.rotary path
  | .transition source target entry =>
      machine.transitionActs program.rotary source target entry

def sessionActs (machine : Machine) (program : Program) : List Call → List Act
  | [] => []
  | call :: rest =>
      machine.callActs program call ++ machine.sessionActs (machine.call program call) rest

@[simp] theorem rotary_writeRaw (program : Program) (block : String) :
    (program.writeRaw block).rotary = program.rotary := by
  unfold Program.writeRaw; split <;> rfl

theorem performAll_cons (machine : Machine) (program : Program) (act : Act) (acts : List Act) :
    machine.performAll program (act :: acts) =
      machine.performAll (machine.perform program act) acts :=
  rfl

theorem writePath_eq (machine : Machine) (program : Program) (path : Path) :
    (machine.writePath program path).toOption.getD program =
      machine.performAll program (machine.pathActs program.rotary path) := by
  unfold writePath pathActs
  cases ready : path.ready with
  | error cause => rfl
  | ok context =>
      obtain ⟨tool, form⟩ := context
      simp only [bind, Except.bind, pure, Except.pure, Except.toOption, Option.getD_some]
      cases axes : machine.kinematics with
      | planar => simp [performAll, perform, writeMoves_eq]
      | vertical => simp [performAll, perform, writeMoves_eq]
      | table limits pivot => simp [performAll, perform, writeMoves_eq]

theorem writeTransition_eq (machine : Machine) (program : Program) (source : Option Path)
    (target : Path) (entry : Bool) :
    (machine.writeTransition program source target entry).toOption.getD program =
      machine.performAll program
        (machine.transitionActs program.rotary source target entry) := by
  unfold writeTransition transitionActs
  cases source.bind (·.points.getLast?) with
  | none => rfl
  | some last =>
      cases target.points.head? with
      | none => rfl
      | some first =>
          cases target.context with
          | error cause => rfl
          | ok context =>
              obtain ⟨tool, form⟩ := context
              have known : (Except.ok (tool, form)).mapError TransitionError.context =
                  .ok (tool, form) := rfl
              simp only [known, bind, Except.bind, pure, Except.pure]
              split
              · split <;> rfl
              · cases Route.between machine tool (Route.stocks (source.bind (·.form)) form) last
                  first with
                | error cause => rfl
                | ok points => exact machine.writeMoves_eq program (some tool) points

private theorem call_eq (machine : Machine) (program : Program) (call : Call) :
    machine.call program call = machine.performAll program (machine.callActs program call) := by
  cases call with
  | toolChange tool => rfl
  | moves tool points => exact machine.writeMoves_eq program tool points
  | path path => exact machine.writePath_eq program path
  | transition source target entry => exact machine.writeTransition_eq program source target entry

theorem session_eq (machine : Machine) (program : Program) (calls : List Call) :
    machine.session program calls =
      machine.performAll program (machine.sessionActs program calls) := by
  induction calls generalizing program with
  | nil => rfl
  | cons call rest ih =>
      rw [sessionActs, performAll_append, ← call_eq]
      exact ih (machine.call program call)

/-! ## Every point is written -/

theorem length_fillCusp (before after : Option Float) (run : List Rotary.Setting) :
    (fillCusp before after run).length = run.length := by
  cases before <;> cases after <;> simp [fillCusp]

theorem length_smoothFrom (before : Option Float) (settings : List Rotary.Setting) :
    (smoothFrom before settings).length = settings.length := by
  fun_induction smoothFrom before settings with
  | case1 => rfl
  | case2 before setting rest cusp run after ih =>
      have parts : (rest.takeWhile Rotary.Setting.atCusp).length +
          (rest.dropWhile Rotary.Setting.atCusp).length = rest.length := by
        rw [← List.length_append, List.takeWhile_append_dropWhile]
      simp only [List.length_append, length_fillCusp, ih, List.length_cons, run, after]
      omega
  | case3 before setting rest plain ih => simp [ih]

theorem length_solveRotary (limits : Rotary.Limits) (previous : Rotary.Setting)
    (points : List Point) : (solveRotary limits previous points).length = points.length := by
  induction points generalizing previous with
  | nil => rfl
  | cons point rest ih => simp [solveRotary, ih]

theorem length_solveAxes (machine : Machine) (rotary : Rotary.Setting) (points : List Point) :
    (machine.solveAxes rotary points).length = points.length := by
  unfold solveAxes
  split
  · simp
  · simp
  · simp [smoothCusp, length_smoothFrom, length_solveRotary]

end Machine

/-- The point that an act moves to, with its axis values. -/
def Act.target : Act → Option (Point × AxisValues)
  | .move _ point values => some (point, values)
  | _ => none

namespace Machine

theorem targets_pointActs (machine : Machine) (tool : Option Tool) (warned : Bool)
    (points : List (Point × AxisValues)) :
    (machine.pointActs tool warned points).filterMap Act.target = points := by
  induction points generalizing warned with
  | nil => rfl
  | cons head rest ih =>
      obtain ⟨point, values⟩ := head
      rw [pointActs, List.filterMap_append, ih]
      rfl

/-- Writing points moves to each of them once, in their order. -/
theorem points_moveActs (machine : Machine) (rotary : Rotary.Setting) (tool : Option Tool)
    (points : List Point) :
    ((machine.moveActs rotary tool points).filterMap Act.target).map (·.1) = points := by
  rw [moveActs, targets_pointActs, List.map_fst_zip]
  exact Nat.le_of_eq (machine.length_solveAxes rotary points).symm

/-! ## What every act keeps -/

/-- What a change to a tool can do: nothing when the tool is loaded, and otherwise it is put in force,
its block is written if there is one, and the speed is forgotten. -/
theorem writeToolChange_cases (machine : Machine) (program : Program) (tool : Tool) :
    let loaded := (program.word "T" (toString tool.number)).1
    let block := machine.dialect.toolChangeBlock tool.number
    program.registers.get? "T" = some (toString tool.number) ∧
        machine.writeToolChange program (some tool) = program ∨
      program.registers.get? "T" ≠ some (toString tool.number) ∧ block.isEmpty ∧
        machine.writeToolChange program (some tool) = loaded.forget ["S"] ∨
      program.registers.get? "T" ≠ some (toString tool.number) ∧ ¬ block.isEmpty ∧
        ∃ remark, machine.writeToolChange program (some tool) =
          ((loaded.write (.comment remark)).writeRaw block).forget ["S"] := by
  by_cases held : program.registers.get? "T" = some (toString tool.number)
  · refine .inl ⟨held, ?_⟩
    rw [writeToolChange, Program.word_of_inForce held]
  · have changed := Program.word_of_changed held
    by_cases empty : (machine.dialect.toolChangeBlock tool.number).isEmpty
    · refine .inr (.inl ⟨held, empty, ?_⟩)
      rw [writeToolChange, changed]
      simp [empty]
    · refine .inr (.inr ⟨held, empty, "tool " ++ toString tool.number ++ " " ++ tool.name, ?_⟩)
      rw [writeToolChange, changed]
      simp [empty]

private theorem writeToolChange_tracks {program : Program} {letter : String}
    (tracks : program.Tracks letter) (motion : letter ∈ motionLetters) (machine : Machine)
    (tool : Option Tool) : (machine.writeToolChange program tool).Tracks letter := by
  have notT : letter ≠ "T" := by rintro rfl; exact absurd motion (by decide)
  have notS : letter ∉ ["S"] := by
    intro member
    rw [List.mem_singleton.mp member] at motion
    exact absurd motion (by decide)
  cases tool with
  | none => exact tracks
  | some tool =>
      have loaded : (program.word "T" (toString tool.number)).1.Tracks letter :=
        tracks.of_eq (by simp) (by rw [Program.get?_word, if_neg notT])
      rcases machine.writeToolChange_cases program tool with
        ⟨_, same⟩ | ⟨_, _, changed⟩ | ⟨_, _, remark, changed⟩
      · rw [same]
        exact tracks
      · rw [changed]
        exact loaded.of_eq (by simp) (by rw [Program.get?_forget, if_neg notS])
      · rw [changed]
        exact ((loaded.write_comment remark).writeRaw motion _).of_eq rfl
          (by rw [Program.get?_forget, if_neg notS])

/-- One act keeps track of the motion. -/
theorem perform_tracks {program : Program} {letter : String} (tracks : program.Tracks letter)
    (motion : letter ∈ motionLetters) (machine : Machine) (act : Act) :
    (machine.perform program act).Tracks letter := by
  cases act with
  | toolChange tool => exact writeToolChange_tracks tracks motion machine tool
  | raw block => exact tracks.writeRaw motion block
  | note warnings errors => exact tracks.of_eq rfl rfl
  | move tool point values => exact writeMove_tracks tracks machine tool point values

private theorem performAll_tracks {program : Program} {letter : String}
    (tracks : program.Tracks letter)
    (motion : letter ∈ motionLetters) (machine : Machine) (acts : List Act) :
    (machine.performAll program acts).Tracks letter := by
  induction acts generalizing program with
  | nil => exact tracks
  | cons act acts ih => exact ih (perform_tracks tracks motion machine act)

@[simp] theorem dialect_writeToolChange (machine : Machine) (program : Program)
    (tool : Option Tool) : (machine.writeToolChange program tool).dialect = program.dialect := by
  cases tool with
  | none => rfl
  | some tool =>
      rcases machine.writeToolChange_cases program tool with
        ⟨_, same⟩ | ⟨_, _, changed⟩ | ⟨_, _, remark, changed⟩
      · rw [same]
      · simp [changed]
      · simp [changed]

@[simp] theorem dialect_writeMove (machine : Machine) (program : Program) (tool : Option Tool)
    (point : Point) (values : AxisValues) :
    (machine.writeMove program tool point values).dialect = program.dialect := by
  obtain ⟨_, _, _, frame⟩ := machine.writeMove_frame program tool point values
  rw [frame]
  exact machine.dialect_noteRotary program values.rotary

theorem dialect_performAll (machine : Machine) (program : Program) (acts : List Act) :
    (machine.performAll program acts).dialect = program.dialect := by
  induction acts generalizing program with
  | nil => rfl
  | cons act acts ih =>
      rw [performAll_cons, ih]
      cases act <;> simp [perform]

end Machine

/-- The words of an entry; only moves have any. -/
def Program.Entry.words : Entry → List Word
  | .move words _ => words
  | _ => []

namespace Machine

/-! ## What every act writes -/

/-- Acts that move nowhere write no words. -/
theorem perform_wordless {act : Act} (still : act.target = none) (machine : Machine)
    (program : Program) :
    ∃ lines, (machine.perform program act).entries.toList = program.entries.toList ++ lines ∧
      ∀ line ∈ lines, line.words = [] := by
  cases act with
  | toolChange tool =>
      cases tool with
      | none => exact ⟨[], by simp [perform, writeToolChange], by simp⟩
      | some tool =>
          rcases machine.writeToolChange_cases program tool with
            ⟨_, same⟩ | ⟨_, _, changed⟩ | ⟨_, filled, remark, changed⟩
          · exact ⟨[], by simp [perform, same], by simp⟩
          · exact ⟨[], by simp [perform, changed], by simp⟩
          · refine ⟨[.comment remark, .block (machine.dialect.toolChangeBlock tool.number)], ?_, ?_⟩
            · simp [perform, changed, Program.entries_writeRaw, filled]
            · simp [Entry.words]
  | raw block =>
      refine ⟨if block.isEmpty then [] else [.block block], program.entries_writeRaw block, ?_⟩
      intro line member
      split at member
      · cases member
      · rw [List.mem_singleton.mp member]
        rfl
  | note warnings errors => exact ⟨[], by simp [perform], by simp⟩
  | move tool point values => cases still

private theorem standsAt_iff {machine : Machine} {values : AxisValues} {controller : Controller}
    {format : Float → String} :
    controller.StandsAt machine.kinematics format values ↔
      ∀ axis ∈ machine.coordinates values, controller axis.1 = format axis.2 := by
  unfold coordinates Controller.StandsAt
  cases machine.kinematics with
  | planar => simp
  | vertical => simp
  | table limits pivot => simp

/-- A move writes only new words, and afterwards every controller that was tracked so far is in
place and moves as it should. -/
theorem writeMove_settles {program : Program}
    (tracks : ∀ letter ∈ motionLetters, program.Tracks letter) (machine : Machine)
    (tool : Option Tool) (point : Point) (values : AxisValues) :
    let after := machine.writeMove program tool point values
    let feed := effectiveFeed tool point
    ∃ lines, after.entries.toList = program.entries.toList ++ lines ∧
      (∀ line ∈ lines, ∀ word ∈ line.words,
        program.registers.get? word.letter ≠ some word.value) ∧
      ∀ start controller, Runs start after.entries.toList controller →
        controller.StandsAt machine.kinematics program.format values ∧
        ∀ line ∈ lines, (∃ word ∈ line.words, word.letter ∈ axisWords) →
          controller "G" = (if feed == 0 then "00" else "01") ∧
          (feed > 0 → controller "F" = program.format feed) := by
  dsimp only
  have spec := moveWords_spec machine program tool point values
  have tracked : ∀ letter ∈ motionLetters,
      (machine.writeMove program tool point values).Tracks letter :=
    fun letter motion => writeMove_tracks (tracks letter motion) machine tool point values
  obtain ⟨speedChange, _, shape⟩ := writeMove_eq machine program tool point values
  have registers := registers_writeMove machine program tool point values
  have inPlace : ∀ start controller,
      Runs start (machine.writeMove program tool point values).entries.toList controller →
      controller.StandsAt machine.kinematics program.format values := by
    intro start controller run
    refine standsAt_iff.mpr fun axis member => ?_
    have motion : axis.1 ∈ motionLetters :=
      (by decide : axisWords ⊆ motionLetters) (coordinates_subset member)
    exact tracked axis.1 motion start controller _ run (registers ▸ spec.axes axis member)
  -- Nothing may be written at all; the axes are then in place because they are tracked.
  by_cases silent : (machine.moveWords program tool point values).2.isEmpty
  · refine ⟨[], ?_, by simp, ?_⟩
    · rw [shape]
      simp [silent, spec.entries]
    · intro start controller run
      exact ⟨inPlace start controller run, by simp⟩
  · refine ⟨[.move (machine.moveWords program tool point values).2 speedChange], ?_, ?_, ?_⟩
    · rw [shape]
      simp [silent, spec.entries]
    · intro line member
      rw [List.mem_singleton.mp member]
      exact spec.modal.fresh
    · intro start controller run
      refine ⟨inPlace start controller run, ?_⟩
      intro line member moves
      rw [List.mem_singleton.mp member] at moves
      constructor
      · exact tracked "G" (by decide) start controller _ run (registers ▸ spec.mode moves)
      · intro positive
        exact tracked "F" (by decide) start controller _ run (registers ▸ spec.feed positive)

/-- Modal emission is sound and minimal. A session of calls on a new program is a list of acts, and
all words come from the moves among them. Once a point has been written, every controller that has
obeyed the program, whatever its foreign blocks did, has each axis of the machine at the text of the
value solved for the point. A line that moves an axis runs with the mode and the feed of its point. No word
repeats a value that was in force. -/
theorem session_modal (machine : Machine) (dialect : Dialect) (ignore : List String)
    (calls : List Call) :
    let fresh := Program.empty dialect ignore
    let acts := machine.sessionActs fresh calls
    machine.session fresh calls = machine.performAll fresh acts ∧
    (∀ rotary tool points,
      ((machine.moveActs rotary tool points).filterMap Act.target).map (·.1) = points) ∧
    (∀ earlier act later, acts = earlier ++ act :: later → act.target = none →
      let before := machine.performAll fresh earlier
      ∃ lines, (machine.perform before act).entries.toList = before.entries.toList ++ lines ∧
        ∀ line ∈ lines, line.words = []) ∧
    ∀ earlier tool point values later, acts = earlier ++ .move tool point values :: later →
      let before := machine.performAll fresh earlier
      let after := machine.perform before (.move tool point values)
      let feed := effectiveFeed tool point
      ∃ lines, after.entries.toList = before.entries.toList ++ lines ∧
        (∀ line ∈ lines, ∀ word ∈ line.words,
          before.registers.get? word.letter ≠ some word.value) ∧
        ∀ start controller, Runs start after.entries.toList controller →
          controller.StandsAt machine.kinematics dialect.format values ∧
          ∀ line ∈ lines, (∃ word ∈ line.words, word.letter ∈ axisWords) →
            controller "G" = (if feed == 0 then "00" else "01") ∧
            (feed > 0 → controller "F" = dialect.format feed) := by
  refine ⟨machine.session_eq _ calls, machine.points_moveActs, ?_, ?_⟩
  · intro earlier act later _ still
    exact perform_wordless still machine _
  · intro earlier tool point values later _
    have tracks : ∀ letter ∈ motionLetters,
        (machine.performAll (.empty dialect ignore) earlier).Tracks letter :=
      fun letter motion =>
        performAll_tracks (Program.tracks_empty dialect ignore letter) motion machine earlier
    have texts : (machine.performAll (.empty dialect ignore) earlier).format = dialect.format :=
      congrArg Dialect.format (machine.dialect_performAll (.empty dialect ignore) earlier)
    have settled := writeMove_settles tracks machine tool point values
    rw [texts] at settled
    exact settled

/-- A rapid move behind a foreign block: whatever the block did, the controller ends up in place. -/
theorem session_modal_behind_block :
    let dialect : Dialect := { commentStart := "(", precision := 3 }
    let machine : Machine := ⟨dialect, .vertical⟩
    let point : Point :=
      { position := ⟨1.5, 0, -2⟩, direction := Vec.zAxis, feed := 0, preCode := "M8" }
    let move : Act := .move none point ⟨point.position, .home⟩
    ∃ earlier later,
      machine.sessionActs (.empty dialect []) [.moves none [point]] = earlier ++ move :: later ∧
      ∀ start controller,
        Runs start
          (machine.perform (machine.performAll (.empty dialect []) earlier) move).entries.toList
          controller →
        controller "X" = "1.5" ∧ controller "Y" = "0" ∧ controller "Z" = "-2" := by
  have texts : let format := Dialect.format { commentStart := "(", precision := 3 }
      format 1.5 = "1.5" ∧ format 0 = "0" ∧ format (-2) = "-2" := by decide +kernel
  intro dialect machine point move
  refine ⟨[.note _ [], .raw "M8"], [.raw ""], rfl, ?_⟩
  intro start controller run
  obtain ⟨_, _, _, settled⟩ := (session_modal machine dialect [] [.moves none [point]]).2.2.2
    [.note _ [], .raw "M8"] none point ⟨point.position, .home⟩ [.raw ""] rfl
  obtain ⟨⟨x, y, z⟩, _⟩ := settled start controller run
  exact ⟨x.trans texts.1, y.trans texts.2.1, z.trans texts.2.2⟩

end Machine

end Kerf
