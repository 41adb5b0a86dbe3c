import Kerf.Stock.Bubble
import Kerf.Toolpath.Path

/-!
# Roughing passes

Deep material is removed in levels, the shallowest first. A level cuts at most the cut depth of the
tool deeper than the one above it and stays clear of the finish allowance. Sections where a level
removes nothing new can be left out.
-/

set_option autoImplicit false

namespace Kerf.Track

open Kerf.Scalar
open Kerf.Stock (Form Fault)

/-! ## Sections worth cutting -/

/-- A section of a track by its first and last index, both included. -/
structure Section where
  first : Nat
  last : Nat
  deriving DecidableEq, Repr

/-- Splits a section at finished stretches. The points strictly inside it are given from an index
on, each with whether it is finished. A stretch is left out when it has at least three points and
is longer than the limit; the sections keep its two ends. -/
def splitMiddle (limit : Float) (first index last : Nat) (inside : List (Point × Bool)) :
    List Section :=
  match inside with
  | [] => [⟨first, last⟩]
  | (_, false) :: rest =>
      splitMiddle limit first (index + 1) last rest
  | (point, true) :: rest =>
      let stretch : Track := point :: (rest.takeWhile (·.2)).map (·.1)
      let final := index + stretch.length - 1
      if 3 ≤ stretch.length && stretch.positions.length > limit then
        ⟨first, index⟩ :: splitMiddle limit final (final + 1) last (rest.dropWhile (·.2))
      else splitMiddle limit first (final + 1) last (rest.dropWhile (·.2))
termination_by inside.length
decreasing_by
  · simp
  all_goals
    have := (List.dropWhile_sublist (l := rest) (·.2)).length_le
    simp only [List.length_cons]
    omega

/-- The index of the first point to keep: the one before the first unfinished point when leading
points may be left out. Nothing if no point is unfinished. -/
def firstKept (drop : Bool) (finished : List Bool) : Option Nat :=
  let leading := (finished.takeWhile id).length
  if !drop then some 0
  else if leading = finished.length then none
  else some (leading - 1)

/-- The index of the last point to keep: the one after the last unfinished point when trailing
points may be left out. Nothing if no point is unfinished. -/
def lastKept (drop : Bool) (finished : List Bool) : Option Nat :=
  let trailing := (finished.reverse.takeWhile id).length
  if !drop then some (finished.length - 1)
  else if trailing = finished.length then none
  else some (finished.length - 1 - (trailing - 1))

/-- The sections of a level that are worth cutting, given which points remove nothing new. -/
def keptSections (additions : Additions) (level : Track) (finished : List Bool) : List Section :=
  match firstKept additions.dropStart finished, lastKept additions.dropEnd finished with
  | some first, some last =>
      let kept := (level.zip finished).drop first |>.take (last + 1 - first)
      let mayDrop := additions.dropStart || additions.dropEnd || additions.dropMiddle >= 0
      if kept.isEmpty || (mayDrop && kept.all (·.2)) then []
      else if additions.dropMiddle >= 0 then
        splitMiddle additions.dropMiddle first (first + 1) last (kept.drop 1).dropLast
      else [⟨first, last⟩]
  | _, _ => []

def cutSection (track : Track) (kept : Section) : Track :=
  (track.drop kept.first).take (kept.last + 1 - kept.first)

/-! ## Levels -/

/-- The number of levels for a depth, none within the tolerance of the finish allowance. -/
def levelCount (tool : Tool) (deepest : Float) : Nat :=
  let cut := tool.effectiveCutDepth
  let finish := tool.effectiveFinishDepth
  let tolerance := tool.effectiveTolerance
  if deepest - finish <= tolerance then 0
  else if cut == infinity then 1
  else (toWord (ceiling ((deepest - finish - tolerance) / cut))).toInt.toNat

/-- The points of a level, counted from one: each at most that many cut depths down. -/
def level (tool : Tool) (number : Nat) (deep : List (Point × Float)) : Track :=
  deep.map fun (point, depth) =>
    point.lifted
      (Scalar.max (depth - tool.effectiveCutDepth * number.toFloat) tool.effectiveFinishDepth)

/-- Which points of a level remove nothing new: the levels above have come down to the finish
allowance there. -/
def finishedAbove (tool : Tool) (number : Nat) (deep : List (Point × Float)) : List Bool :=
  let above := if number > 1 then tool.effectiveCutDepth * (number - 1).toFloat else 0
  deep.map fun (_, depth) =>
    depth - above <= tool.effectiveFinishDepth + tool.effectiveTolerance

/-- Pairs every point with the material above it. -/
def withDepths (form : Form) (track : Track) : Except Fault (List (Point × Float)) :=
  track.mapM fun point => do
    let depth ← form.depth point.position point.direction
    return (point, depth)

def roughing (tool : Tool) (form : Form) (additions : Additions) (track : Track) :
    Except Fault (List Track) := do
  let deep ← withDepths form track
  let deepest := deep.foldl (fun deepest (_, depth) => Scalar.max deepest depth) 0
  return (List.range (levelCount tool deepest)).flatMap fun index =>
    let points := level tool (index + 1) deep
    (keptSections additions points (finishedAbove tool (index + 1) deep)).map
      (points.cutSection ·)

end Kerf.Track
