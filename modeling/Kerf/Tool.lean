import Kerf.Scalar
import Kerf.Text.Quoted

/-!
# Tools

The numbers of one tool in one material. Optional values are negative when they are not set, and
each has a rule for what holds instead.
-/

set_option autoImplicit false

namespace Kerf

open Kerf.Scalar

inductive Tip where
  | ball
  | square
  | v
  | other
  deriving DecidableEq, Repr, Inhabited

def Tip.name : Tip → String
  | .ball => "ball"
  | .square => "square"
  | .v => "v"
  | .other => "other"

structure UnknownTip where
  name : String

def UnknownTip.message (unknown : UnknownTip) : String :=
  "toolpath: unknown tool shape " ++ Text.quoted unknown.name

/-- The profile with a name, in any case of letters. The letters of all names are ASCII. -/
def Tip.ofName (name : String) : Except UnknownTip Tip :=
  match String.ofList (name.toList.map Char.toLower) with
  | "ball" => .ok .ball
  | "square" => .ok .square
  | "flat" => .ok .square
  | "v" => .ok .v
  | "other" => .ok .other
  | _ => .error ⟨name⟩

/-- A tool. Tools are told apart by an identity, so that equal descriptions stay apart. -/
structure Tool where
  identity : Nat
  name : String
  number : Int
  tip : Tip
  /-- The cutting diameter. -/
  width : Float
  /-- The spindle speed. -/
  speed : Float := -1
  feedCut : Float := -1
  feedPlunge : Float := -1
  /-- The width of the cut that leads have to clear. -/
  insertWidth : Float := -1
  /-- The length from the holder to the tip. -/
  length : Float := -1
  /-- The deepest single roughing pass. -/
  cutDepth : Float := -1
  /-- The material left for the finish pass. -/
  finishDepth : Float := -1
  tolerance : Float := -1
  minStep : Float := -1
  deriving Inhabited

namespace Tool

def radius (tool : Tool) : Float := tool.width / 2

/-- The roughing depth; unlimited when it is not set. -/
def effectiveCutDepth (tool : Tool) : Float :=
  if tool.cutDepth <= 0 then infinity else tool.cutDepth

/-- The finish allowance; none when it is not set. -/
def effectiveFinishDepth (tool : Tool) : Float :=
  if tool.finishDepth < 0 then 0 else tool.finishDepth

/-- The insert width; the cutting width when it is not set. -/
def effectiveInsertWidth (tool : Tool) : Float :=
  if tool.insertWidth < 0 then tool.width else tool.insertWidth

/-- The geometric tolerance; a hundredth when it is not set. -/
def effectiveTolerance (tool : Tool) : Float :=
  if tool.tolerance < 0 then 0.01 else tool.tolerance

/-- The length; zero when it is not set. -/
def effectiveLength (tool : Tool) : Float := if tool.length < 0 then 0 else tool.length

/-- The smallest move that matters; the tolerance when it is not set. -/
def effectiveMinStep (tool : Tool) : Float :=
  if tool.minStep < 0 then tool.effectiveTolerance else tool.minStep

end Tool

end Kerf
