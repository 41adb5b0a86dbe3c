import Kerf.Machine.Axes
import Kerf.Toolpath.Path

/-!
# Writing code

Moves are modal: a word is only written when its value differs from the one in force. Foreign
blocks may move the machine, so after one nothing about the motion is taken for granted.
-/

set_option autoImplicit false

namespace Kerf

open Kerf.Program (Word)

/-! ## Messages -/

/-- Counted when the tilt leaves its travel. -/
def outOfBoundsA : String := "Out of bounds on A"

/-- Counted when the spin leaves its travel. -/
def outOfBoundsB : String := "Out of bounds on B"

/-- Counted when a machine without rotary axes meets a slanted tool. -/
def notVertical : String := "Tool direction is not vertical on a machine without rotary axes"

namespace Program

/-- The letters whose words a foreign block may have changed. -/
def motionLetters : List String := ["G", "X", "Y", "Z", "A", "B", "F"]

/-- Writes a foreign block and forgets the motion. -/
def writeRaw (program : Program) (block : String) : Program :=
  if block.isEmpty then program else (program.write (.block block)).forget motionLetters

/-- Puts a word in force and adds it to a list when it has to be written. -/
def addWord (state : Program × List Word) (letter value : String) : Program × List Word :=
  let (program, word) := state.1.word letter value
  (program, state.2 ++ word.toList)

end Program

namespace Machine

/-! ## Moves -/

/-- The feed of a point, taken from the tool when it is not set. -/
def effectiveFeed (tool : Option Tool) (point : Point) : Float :=
  if point.feed < 0 then (tool.map (·.feedCut)).getD point.feed else point.feed

/-- The speed of a point, taken from the tool when it is not set. -/
def effectiveSpeed (tool : Option Tool) (point : Point) : Float :=
  if point.speed < 0 then (tool.map (·.speed)).getD point.speed else point.speed

/-- The values to be written for the axes that a machine has; rotary axes in degrees. -/
def coordinates (machine : Machine) (values : AxisValues) : List (String × Float) :=
  let p := values.position
  match machine.kinematics with
  | .planar => [("X", p.x), ("Y", p.y)]
  | .vertical => [("X", p.x), ("Y", p.y), ("Z", p.z)]
  | .table _ _ =>
      [("X", p.x), ("Y", p.y), ("Z", p.z), ("A", values.rotary.a * Scalar.degreesPerRadian),
        ("B", values.rotary.b * Scalar.degreesPerRadian)]

/-- Records the setting of the rotary axes and counts those out of bounds. -/
def noteRotary (machine : Machine) (program : Program) (setting : Rotary.Setting) : Program :=
  match machine.kinematics with
  | .planar | .vertical => program
  | .table limits _ =>
      let program := { program with rotary := setting }
      let program := if limits.allowsA setting then program else program.fail outOfBoundsA
      if limits.allowsB setting then program else program.fail outOfBoundsB

/-- The words of a motion: its mode and the axes that change. A change of mode alone is not worth a
line and is forgotten again. -/
def motionWords (machine : Machine) (program : Program) (rapid : Bool) (values : AxisValues) :
    Program × List Word :=
  let start := program.word "G" (if rapid then "00" else "01")
  let (program, words) := (machine.coordinates values).foldl
    (fun state (letter, value) =>
      let program := state.1.cover letter value
      Program.addWord (program, state.2) letter (program.format value))
    (start.1, start.2.toList)
  let program := machine.noteRotary program values.rotary
  if words.any (·.letter != "G") then (program, words)
  else if words.isEmpty then (program, [])
  else (program.forget ["G"], [])

/-- Writes one move. A line with nothing new is left out. -/
def writeMove (machine : Machine) (program : Program) (tool : Option Tool) (point : Point)
    (values : AxisValues) : Program :=
  let feed := effectiveFeed tool point
  let speed := effectiveSpeed tool point
  let state := machine.motionWords program (feed == 0) values
  let state := if feed > 0 then Program.addWord state "F" (state.1.format feed) else state
  let (program, spindle) :=
    if speed >= 0 then state.1.word "S" (state.1.format speed) else (state.1, none)
  let words := state.2 ++ spindle.toList
  if words.isEmpty then program
  else program.write (.move words (if spindle.isSome then machine.dialect.speedChange else ""))

def noteMessages (program : Program) (point : Point) : Program :=
  { program with
    warnings := program.warnings.addAll point.warnings
    errors := program.errors.addAll point.errors }

def writePoint (machine : Machine) (program : Program) (tool : Option Tool) (point : Point)
    (values : AxisValues) : Program :=
  let program := (noteMessages program point).writeRaw point.preCode
  (machine.writeMove program tool point values).writeRaw point.postCode

/-- Writes points with their axis values. The first slanted tool on a machine without rotary axes
is counted. -/
def writePoints (machine : Machine) (tool : Option Tool) (warned : Bool) (program : Program) :
    List (Point × AxisValues) → Program
  | [] => program
  | (point, values) :: rest =>
      let slanted := !machine.isFiveAxis && !warned && !point.direction.isVertical
      let program := if slanted then program.warn notVertical else program
      machine.writePoints tool (warned || slanted) (machine.writePoint program tool point values)
        rest

def writeMoves (machine : Machine) (program : Program) (tool : Option Tool) (points : List Point) :
    Program :=
  machine.writePoints tool false program
    (points.zip (machine.solveAxes program.rotary points))

/-! ## Frames -/

def writeHeader (machine : Machine) (program : Program) (name : String) : Program :=
  let d := machine.dialect
  let program := if d.header.isEmpty then program else program.write (.block d.header)
  let program := if name.isEmpty then program else program.write (.comment name)
  program.write (.comment ("machine " ++ d.name))

def writeFooter (machine : Machine) (program : Program) : Program :=
  let footer := machine.dialect.footer
  if footer.isEmpty then program else program.write (.block footer)

def writeOperationStart (machine : Machine) (program : Program) (name : String) : Program :=
  let mark := machine.dialect.sectionBreak
  let program := if mark.isEmpty then program else program.write (.line mark)
  if name.isEmpty then program else program.write (.comment name)

/-- Changes to a tool unless it is already loaded. The change block moves the machine, so the next
move states everything again. -/
def writeToolChange (machine : Machine) (program : Program) (tool : Option Tool) : Program :=
  match tool with
  | none => program
  | some tool =>
      match program.word "T" (toString tool.number) with
      | (program, none) => program
      | (program, some _) =>
          let block := machine.dialect.toolChangeBlock tool.number
          let program :=
            if block.isEmpty then program
            else
              (program.write (.comment ("tool " ++ toString tool.number ++ " " ++ tool.name))).writeRaw
                block
          program.forget ["S"]

/-- Writes a path that has its context and no stage left to run. A machine with two axes switches
on before the path and off after it. -/
def writePath (machine : Machine) (program : Program) (path : Path) : Except PathError Program := do
  let (tool, _) ← path.ready
  let program := program.writeRaw path.preCode
  let program :=
    match machine.kinematics with
    | .planar =>
        let program := program.writeRaw machine.dialect.pathStart
        let program := machine.writeMoves program (some tool) path.points
        program.writeRaw machine.dialect.pathEnd
    | _ => machine.writeMoves program (some tool) path.points
  return program.writeRaw path.postCode

end Machine

end Kerf
