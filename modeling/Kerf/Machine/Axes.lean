import Kerf.Machine.Basic
import Kerf.Program.Basic

/-!
# Axis values of a run of points

The rotary settings of consecutive points follow from one another. At the cusp the spin has no
effect on the tool, so it is blended evenly between the settings on either side.
-/

set_option autoImplicit false

namespace Kerf

def Rotary.Setting.withB (setting : Rotary.Setting) (b : Float) : Rotary.Setting :=
  ⟨setting.a, b⟩

def Rotary.Setting.atCusp (setting : Rotary.Setting) : Bool := Rotary.atCusp setting.a

namespace Machine

open Rotary (Setting)

/-- Fills a run of settings at the cusp from the spins before and after it. -/
def fillCusp (before after : Option Float) (run : List Setting) : List Setting :=
  match before, after with
  | none, none => run
  | none, some after => run.map (·.withB after)
  | some before, none => run.map (·.withB before)
  | some before, some after =>
      let steps := (run.length + 1).toFloat
      run.zipIdx.map fun (setting, index) =>
        setting.withB (before + (after - before) * (index + 1).toFloat / steps)

/-- Blends the spin through every run of settings at the cusp, after a setting with some spin. -/
def smoothFrom (before : Option Float) (settings : List Setting) : List Setting :=
  match settings with
  | [] => []
  | setting :: rest =>
      if setting.atCusp then
        let run := setting :: rest.takeWhile Setting.atCusp
        let after := rest.dropWhile Setting.atCusp
        fillCusp before (after.head?.map (·.b)) run ++ smoothFrom before after
      else setting :: smoothFrom (some setting.b) rest
termination_by settings.length
decreasing_by
  · have := (List.dropWhile_sublist (l := rest) Setting.atCusp).length_le
    simp only [List.length_cons]
    omega
  · simp

/-- Blends the spin through every run of settings at the cusp. -/
def smoothCusp (settings : List Setting) : List Setting := smoothFrom none settings

/-- The rotary settings of points, each continuing from the one before. -/
def solveRotary (limits : Rotary.Limits) (previous : Setting) : List Point → List Setting
  | [] => []
  | point :: rest =>
      let setting := Rotary.solve point.direction previous limits
      setting :: solveRotary limits setting rest

/-- The axis values of a run of points, continuing from a rotary setting. -/
def solveAxes (machine : Machine) (rotary : Setting) (points : List Point) : List AxisValues :=
  match machine.kinematics with
  | .planar | .vertical => points.map fun point => machine.forward point .home
  | .table limits pivot =>
      (points.zip (smoothCusp (solveRotary limits rotary points))).map fun (point, setting) =>
        ⟨Rotary.toMachine setting point.position pivot, setting⟩

end Machine

end Kerf
