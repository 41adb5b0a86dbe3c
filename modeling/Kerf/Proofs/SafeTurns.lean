import Kerf.Proofs.ClearRoute

/-!
# Safe ways of turning

A route of a machine that turns the tool is the samples of one way round, and the tool is clear of
stock at all of them. The long way is taken only after a sample of the short one has failed, and the
route is given up only after a sample of each has.
-/

set_option autoImplicit false

namespace Kerf

namespace Route

open Kerf.Stock (Form Fault)

/-! ## The tool at one point -/

/-- Whether the tool at a point stays out of all forms: its tip is inside none, and its body, if it
has any length, passes through none. -/
def Free (tool : Tool) (forms : List Form) (point : Point) : Prop :=
  ∀ form ∈ forms, form.contains point.position 0 = false ∧
    (tool.effectiveLength > 0 → ∃ passage,
      form.castSegment point.position
        (point.position + point.direction.scale tool.effectiveLength) 0 = .ok (false, passage))

private theorem gouges_eq_false {tool : Tool} {forms : List Form} {point : Point} :
    gouges tool point forms = .ok false ↔ Free tool forms point := by
  induction forms with
  | nil => simp [gouges, Free]
  | cons form rest ih =>
      rw [Free, List.forall_mem_cons, ← Free, ← ih, gouges]
      cases form.contains point.position 0 with
      | true => simp [pure, Except.pure]
      | false =>
          by_cases reaches : tool.effectiveLength > 0
          · cases form.castSegment point.position
                (point.position + point.direction.scale tool.effectiveLength) 0 with
            | error fault => simp [reaches, bind, Except.bind]
            | ok answer =>
                obtain ⟨crosses, passage⟩ := answer
                cases crosses <;> simp [reaches, bind, Except.bind, pure, Except.pure]
          · simp [reaches, bind, Except.bind]

/-! ## The samples of one way round -/

/-- Whether the tests of a track stop at a point where the tool touches stock, having passed all
points before it. -/
def Gouging (tool : Tool) (forms : List Form) (track : Track) : Prop :=
  ∃ earlier point later, track = earlier ++ point :: later ∧
    (∀ passed ∈ earlier, gouges tool passed forms = .ok false) ∧
    gouges tool point forms = .ok true

section

variable {Error : Type} {fails : Point → Except Error Bool} {track : Track}

theorem allClear_eq_some {points : Track} :
    allClear fails track = .ok (some points) ↔
      points = track ∧ ∀ point ∈ track, fails point = .ok false := by
  induction track generalizing points with
  | nil => simp [allClear, eq_comm]
  | cons point rest ih =>
      rw [allClear, bind_eq_ok, List.forall_mem_cons]
      constructor
      · rintro ⟨failed, tested, later⟩
        cases failed with
        | true => cases later
        | false =>
            obtain ⟨onward, tried, same⟩ := bind_eq_ok.mp later
            cases onward with
            | none => cases same
            | some onward =>
                cases same
                obtain ⟨rfl, passed⟩ := ih.mp tried
                exact ⟨rfl, tested, passed⟩
      · rintro ⟨rfl, tested, passed⟩
        exact ⟨false, tested, bind_eq_ok.mpr ⟨some rest, ih.mpr ⟨rfl, passed⟩, rfl⟩⟩

theorem allClear_eq_none :
    allClear fails track = .ok none ↔
      ∃ earlier point later, track = earlier ++ point :: later ∧
        (∀ passed ∈ earlier, fails passed = .ok false) ∧ fails point = .ok true := by
  induction track with
  | nil => simp [allClear]
  | cons point rest ih =>
      rw [allClear, bind_eq_ok]
      constructor
      · rintro ⟨failed, tested, later⟩
        cases failed with
        | true => exact ⟨[], point, rest, rfl, by simp, tested⟩
        | false =>
            obtain ⟨onward, tried, same⟩ := bind_eq_ok.mp later
            cases onward with
            | some onward => cases same
            | none =>
                obtain ⟨earlier, reached, behind, rfl, passed, here⟩ := ih.mp tried
                refine ⟨point :: earlier, reached, behind, rfl, ?_, here⟩
                exact List.forall_mem_cons.mpr ⟨tested, passed⟩
      · rintro ⟨earlier, reached, behind, whole, passed, here⟩
        cases earlier with
        | nil =>
            cases whole
            exact ⟨true, here, rfl⟩
        | cons first earlier =>
            cases whole
            obtain ⟨tested, onward⟩ := List.forall_mem_cons.mp passed
            refine ⟨false, tested, bind_eq_ok.mpr ⟨none, ?_, rfl⟩⟩
            exact ih.mpr ⟨earlier, reached, behind, rfl, onward, here⟩

end

variable {machine : Machine} {tool : Tool} {forms : List Form} {line : List Vec}
  {source target : Point}

/-- A sample is a rapid at the speed of the target, turned some way round, with nothing attached. -/
theorem exists_of_mem_turningPoints {long : Bool} {point : Point}
    (member : point ∈ turningPoints machine line source target long) :
    ∃ place fraction, point = { target.rapid with
      position := place
      direction := (machine.interpolate source target fraction long).direction } := by
  obtain ⟨⟨place, fraction⟩, _, rfl⟩ := List.mem_map.mp member
  exact ⟨place, fraction, rfl⟩

/-! ## The way taken -/

theorem turned_eq_ok {points : Track} :
    turned machine tool forms line source target = .ok points ↔
      ∃ long, points = turningPoints machine line source target long ∧
        (∀ point ∈ points, gouges tool point forms = .ok false) ∧
        (long = true → Gouging tool forms (turningPoints machine line source target false)) := by
  constructor
  · intro found
    obtain ⟨short, tried, onward⟩ := bind_eq_ok.mp found
    have first := mapError_eq_ok.mp tried
    cases short with
    | some clear =>
        cases onward
        obtain ⟨rfl, passed⟩ := allClear_eq_some.mp first
        exact ⟨false, rfl, passed, by simp⟩
    | none =>
        obtain ⟨long, tried, last⟩ := bind_eq_ok.mp onward
        have second := mapError_eq_ok.mp tried
        cases long with
        | none => cases last
        | some clear =>
            cases last
            obtain ⟨rfl, passed⟩ := allClear_eq_some.mp second
            exact ⟨true, rfl, passed, fun _ => allClear_eq_none.mp first⟩
  · rintro ⟨long, rfl, passed, after⟩
    have clear := allClear_eq_some.mpr ⟨rfl, passed⟩
    cases long with
    | false => exact bind_eq_ok.mpr ⟨some _, mapError_eq_ok.mpr clear, rfl⟩
    | true =>
        have first := allClear_eq_none.mpr (after rfl)
        refine bind_eq_ok.mpr ⟨none, mapError_eq_ok.mpr first, ?_⟩
        exact bind_eq_ok.mpr ⟨some _, mapError_eq_ok.mpr clear, rfl⟩

private theorem turned_eq_noSafeTurn :
    turned machine tool forms line source target = .error .noSafeTurn ↔
      ∀ long, Gouging tool forms (turningPoints machine line source target long) := by
  constructor
  · intro failed
    rcases bind_eq_error.mp failed with unanswered | ⟨short, tried, onward⟩
    · obtain ⟨_, _, impossible⟩ := mapError_eq_error.mp unanswered
      cases impossible
    have first := mapError_eq_ok.mp tried
    cases short with
    | some clear => cases onward
    | none =>
        rcases bind_eq_error.mp onward with unanswered | ⟨long, tried, last⟩
        · obtain ⟨_, _, impossible⟩ := mapError_eq_error.mp unanswered
          cases impossible
        have second := mapError_eq_ok.mp tried
        cases long with
        | some clear => cases last
        | none =>
            intro long
            cases long with
            | false => exact allClear_eq_none.mp first
            | true => exact allClear_eq_none.mp second
  · intro gouging
    have first := allClear_eq_none.mpr (gouging false)
    have second := allClear_eq_none.mpr (gouging true)
    refine bind_eq_error.mpr (.inr ⟨none, mapError_eq_ok.mpr first, ?_⟩)
    exact bind_eq_error.mpr (.inr ⟨none, mapError_eq_ok.mpr second, rfl⟩)

/-- The search for a line never reports that the tool cannot turn. -/
theorem plan_ne_noSafeTurn {a b : Vec} {tolerance : Float} :
    plan forms a b tolerance ≠ .error .noSafeTurn := by
  intro failed
  rcases bind_eq_error.mp failed with unanswered | ⟨line, _, last⟩
  · obtain ⟨_, _, impossible⟩ := mapError_eq_error.mp unanswered
    cases impossible
  · cases line <;> cases last

/-- Where the tool turns, a route is found exactly if the samples of the short way round are clear
of stock, or if one of them is not and those of the long way are. It is given up exactly if each way
round has a sample that is not clear. -/
theorem between_turning (turns : machine.isFiveAxis = true) :
    (∀ points, between machine tool forms source target = .ok points ↔
      ∃ line, plan forms source.position target.position tool.effectiveTolerance = .ok line ∧
        ∃ long, points = turningPoints machine line source target long ∧
          (∀ point ∈ points, gouges tool point forms = .ok false ∧ Free tool forms point ∧
            point.feed = 0 ∧ point.speed = target.speed) ∧
          (long = true → Gouging tool forms (turningPoints machine line source target false))) ∧
    (between machine tool forms source target = .error .noSafeTurn ↔
      ∃ line, plan forms source.position target.position tool.effectiveTolerance = .ok line ∧
        ∀ long, Gouging tool forms (turningPoints machine line source target long)) := by
  simp only [between, turns, ↓reduceIte]
  constructor
  · intro points
    rw [bind_eq_ok]
    refine exists_congr fun line => and_congr_right fun _ => ?_
    rw [turned_eq_ok]
    refine exists_congr fun long => and_congr_right fun same => and_congr_left fun _ => ?_
    constructor
    · intro passed point member
      obtain ⟨place, fraction, shape⟩ := exists_of_mem_turningPoints (same ▸ member)
      refine ⟨passed point member, gouges_eq_false.mp (passed point member), ?_, ?_⟩
      · rw [shape, Point.rapid]
      · rw [shape, Point.rapid]
    · intro safe point member
      exact (safe point member).1
  · rw [bind_eq_error]
    simp only [plan_ne_noSafeTurn, false_or, turned_eq_noSafeTurn]

/-! ## A wall in the way -/

/-- A wall across the second axis that is to be kept at a distance. -/
def wall (thickness : Float) : Form :=
  { identity := 0
    clearance := ⟨1, 0⟩
    shape := .box
      { center := Vec.zero, xAxis := Vec.xAxis, yAxis := Vec.yAxis, size := ⟨4, thickness, 4⟩ } }

/-- A table that tilts from a little below level to well past upright. -/
def tiltTable : Machine := ⟨{}, .table ⟨-0.4363323129985824, 2.356194490192345, 174.5⟩ Vec.zero⟩

/-- A tool whose tolerance is larger than the distance kept from the wall. -/
def coarseMill : Tool :=
  { identity := 0, name := "", number := 1, tip := .ball, width := 2, tolerance := 1.05 }

def beforeWall : Point := { position := ⟨0, -2, 1.97⟩, direction := ⟨0, 0, 1⟩ }

def behindWall : Point :=
  { position := ⟨0, 58, 1.97⟩, direction := ⟨0.15643446504023098, 0, -0.9876883405951377⟩ }

/-- The first sample of the short way lies inside a thin wall and the samples of the long way pass
it on both sides. No way leads past a thick wall. -/
theorem between_turning_behindWall :
    (∃ points, between tiltTable coarseMill [wall 0.2] beforeWall behindWall = .ok points ∧
      points.length = 31 ∧ ∀ point ∈ points, Free coarseMill [wall 0.2] point) ∧
    between tiltTable coarseMill [wall 4] beforeWall behindWall = .error .noSafeTurn ∧
    ∃ line, ∀ long,
      Gouging coarseMill [wall 4] (turningPoints tiltTable line beforeWall behindWall long) := by
  have turns : tiltTable.isFiveAxis = true := rfl
  constructor
  · have routed : ∃ points, between tiltTable coarseMill [wall 0.2] beforeWall behindWall =
        .ok points ∧ points.length = 31 := by
      decide +kernel
    obtain ⟨points, found, count⟩ := routed
    obtain ⟨_, _, _, _, safe, _⟩ := ((between_turning turns).1 points).mp found
    exact ⟨points, found, count, fun point member => (safe point member).2.1⟩
  · have stuck : between tiltTable coarseMill [wall 4] beforeWall behindWall =
        .error .noSafeTurn := by
      decide +kernel
    obtain ⟨line, _, gouging⟩ := (between_turning turns).2.mp stuck
    exact ⟨stuck, line, gouging⟩

end Route

end Kerf
