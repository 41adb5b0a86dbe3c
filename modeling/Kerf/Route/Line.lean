import Kerf.Stock.Crossing

/-!
# Lines clear of stock

A straight line that enters a safety bubble is led around it by via points, one at a time.
-/

set_option autoImplicit false

namespace Kerf.Route

open Kerf.Stock (Form Fault)

inductive RouteError where
  /-- Via points were added up to the limit and some segment is still blocked. -/
  | noClearLine
  /-- Both ways of turning the tool bring it into stock. -/
  | noSafeTurn
  /-- A stock query has no answer. -/
  | fault (cause : Fault)
  deriving DecidableEq, Repr

/-- The most via points of a line. -/
def maxVias : Nat := 200

/-- How far beyond the safe distance a via point is moved out of material. -/
def pushOut : Float := 1.1

/-- The via point that leads a segment out of the first bubble it enters, or nothing when it is
clear of all forms. -/
def viaPoint (tolerance : Float) (a b : Vec) : List Form → Except Fault (Option Vec)
  | [] => .ok none
  | form :: rest => do
      let safe := form.clearance.safeDistance
      let (crosses, passage) ← form.castSegment a b (safe - tolerance)
      if crosses then
        return some
          (passage.middle + passage.outward.scale (passage.outwardDistance + pushOut * safe))
      else viaPoint tolerance a b rest

/-- Adds a via point to the first blocked segment of a line from a point through others, or answers
nothing when no segment is blocked. -/
def detour {ε : Type} (via : Vec → Vec → Except ε (Option Vec)) (a : Vec) :
    List Vec → Except ε (Option (List Vec))
  | [] => .ok none
  | b :: rest => do
      match ← via a b with
      | some place => return some (place :: b :: rest)
      | none => return (← detour via b rest).map (b :: ·)

/-- Adds via points until no segment is blocked, at most a given number. Answers the points after
the first, or nothing when the limit is reached. -/
def clearLine {ε : Type} (via : Vec → Vec → Except ε (Option Vec)) (a : Vec) (line : List Vec)
    (limit : Nat) : Except ε (Option (List Vec)) := do
  match ← detour via a line with
  | none => return some line
  | some longer =>
      match limit with
      | 0 => return none
      | limit + 1 => clearLine via a longer limit

end Kerf.Route
