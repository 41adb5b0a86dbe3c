import Kerf.Proofs.Messages
import Kerf.Proofs.SafeTurns
import Kerf.Route.Transition

/-!
# Ways between paths

The way from one path to the next goes straight on in material, and a long one there is recorded. A
way that is clear of material has a route, whose points carry no messages.
-/

set_option autoImplicit false

namespace Kerf

open Kerf.Stock (Form)

/-- The way from one written path to the next. -/
structure Way where
  source : Path
  target : Path
  /-- Whether the target is the first pass of an operation. -/
  entry : Bool

namespace Way

/-- Whether a way starts or ends in the safety bubble of a stock of its paths and is longer than the
machine may jump there. -/
def isLongJump (machine : Machine) (way : Way) : Bool :=
  match way.source.points.getLast?, way.target.points.head?, way.target.tool, way.target.form with
  | some last, some first, some tool, some form =>
      (Route.stocks way.source.form form).any (fun stock =>
        stock.inBubble last.position tool.effectiveTolerance ||
          stock.inBubble first.position tool.effectiveTolerance) &&
        (last.position - first.position).length > machine.dialect.pathJump
  | _, _, _, _ => false

/-- The text under which a long way is counted. -/
def message (way : Way) : String := if way.entry then longEntry else longTransition

/-- The texts counted for the long ways among some. -/
def messages (machine : Machine) (ways : List Way) : List String :=
  (ways.filter (·.isLongJump machine)).map message

theorem messages_append (machine : Machine) (front back : List Way) :
    messages machine (front ++ back) = messages machine front ++ messages machine back := by
  simp [messages]

theorem messages_singleton (machine : Machine) (way : Way) :
    messages machine [way] = if way.isLongJump machine then [way.message] else [] := by
  cases jumps : way.isLongJump machine <;> simp [messages, jumps]

theorem messages_subset (machine : Machine) (ways : List Way) :
    messages machine ways ⊆ [longEntry, longTransition] := by
  intro text counted
  obtain ⟨way, _, rfl⟩ := List.mem_map.mp counted
  unfold message
  split <;> simp

theorem count_messages (machine : Machine) (ways : List Way) (entry : Bool) :
    (messages machine ways).count (if entry then longEntry else longTransition) =
      ways.countP fun way => way.isLongJump machine && way.entry == entry := by
  induction ways with
  | nil => rfl
  | cons way rest ih =>
      have texts : longTransition ≠ longEntry := by decide
      rw [← List.singleton_append, messages_append, List.count_append, List.countP_append, ih]
      congr 1
      rw [messages_singleton]
      cases jumps : way.isLongJump machine <;> cases into : way.entry <;> cases entry <;>
        simp [message, jumps, into, texts, texts.symm]

end Way

/-! ## Routes and transitions -/

theorem Route.errors_turningPoints (machine : Machine) (line : List Vec) (source target : Point)
    (long : Bool) : Track.errors (turningPoints machine line source target long) = [] := by
  apply Track.errors_eq_nil
  intro point member
  obtain ⟨sample, _, rfl⟩ := List.mem_map.mp member
  rfl

theorem Route.errors_between {machine : Machine} {tool : Tool} {forms : List Form}
    {source target : Point} {points : Track}
    (found : between machine tool forms source target = .ok points) : points.errors = [] := by
  obtain ⟨line, _, later⟩ := bind_eq_ok.mp found
  split at later
  · obtain ⟨long, rfl, _, _⟩ := turned_eq_ok.mp later
    exact errors_turningPoints machine line source target long
  · cases later
    apply Track.errors_eq_nil
    intro point member
    obtain ⟨place, _, rfl⟩ := List.mem_map.mp member
    rfl

namespace Machine

/-- A transition notes a text exactly for a long way in material. -/
theorem errors_transitionActs (machine : Machine) (rotary : Rotary.Setting) (source : Option Path)
    (target : Path) (entry : Bool) :
    (machine.transitionActs rotary source target entry).flatMap (·.errors) =
      Way.messages machine (source.toList.map fun source => ⟨source, target, entry⟩) := by
  cases source with
  | none => rfl
  | some source =>
      rw [Option.toList_some, List.map_singleton, Way.messages_singleton]
      unfold transitionActs Path.context Way.isLongJump
      simp only [Option.bind_some]
      cases source.points.getLast? with
      | none => rfl
      | some last =>
          cases target.points.head? with
          | none => rfl
          | some first =>
              cases target.tool with
              | none => rfl
              | some tool =>
                  cases target.form with
                  | none => rfl
                  | some form =>
                      dsimp only
                      change _ = if (Route.inMaterial (Route.stocks source.form form) last.position
                        first.position tool.effectiveTolerance && _) = true then _ else _
                      cases Route.inMaterial (Route.stocks source.form form) last.position
                        first.position tool.effectiveTolerance with
                      | true =>
                          by_cases long : (last.position - first.position).length >
                            machine.dialect.pathJump <;> simp [long, Act.errors, Way.message]
                      | false =>
                          simp only [Bool.false_and, Bool.false_eq_true, ↓reduceIte]
                          split
                          · rfl
                          · next points routed =>
                              rw [errors_moveActs, Route.errors_between routed]

end Machine

end Kerf
