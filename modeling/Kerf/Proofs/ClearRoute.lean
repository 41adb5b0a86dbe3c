import Kerf.Proofs.Failing
import Kerf.Route.Basic
import Mathlib.Data.List.Chain

/-!
# Routes that keep clear

A line that the search for via points returns has no blocked segment left, starts and ends where it
was asked to, and holds at most as many via points as are allowed. The search gives up only when
that many have been added and some segment is still blocked.
-/

set_option autoImplicit false

namespace Kerf

namespace Route

open Kerf.Stock (Form Fault)

/-! ## Segments -/

/-- Whether a segment keeps the safe distance, less a tolerance, from all forms. -/
def Clear (forms : List Form) (tolerance : Float) (a b : Vec) : Prop :=
  ∀ form ∈ forms, ∃ passage,
    form.castSegment a b (form.clearance.safeDistance - tolerance) = .ok (false, passage)

/-- Whether a segment comes closer than the safe distance, less a tolerance, to some form. -/
def Blocked (forms : List Form) (tolerance : Float) (a b : Vec) : Prop :=
  ∃ form ∈ forms, ∃ passage,
    form.castSegment a b (form.clearance.safeDistance - tolerance) = .ok (true, passage)

/-- Whether the test of a segment against some form has no answer. -/
def Unanswered (forms : List Form) (tolerance : Float) (a b : Vec) (fault : Fault) : Prop :=
  ∃ form ∈ forms, form.castSegment a b (form.clearance.safeDistance - tolerance) = .error fault

theorem viaPoint_cons (tolerance : Float) (a b : Vec) (form : Form) (rest : List Form) :
    viaPoint tolerance a b (form :: rest) =
      form.castSegment a b (form.clearance.safeDistance - tolerance) >>= fun answer =>
        if answer.1 then
          .ok (some (answer.2.middle + answer.2.outward.scale
            (answer.2.outwardDistance + pushOut * form.clearance.safeDistance)))
        else viaPoint tolerance a b rest :=
  rfl

variable {tolerance : Float} {a b : Vec}

private theorem clear_of_viaPoint {forms : List Form}
    (free : viaPoint tolerance a b forms = .ok none) : Clear forms tolerance a b := by
  induction forms with
  | nil => intro form member; cases member
  | cons form rest ih =>
      rw [viaPoint_cons] at free
      obtain ⟨⟨crosses, passage⟩, cast, answer⟩ := bind_eq_ok.mp free
      cases crosses with
      | true => simp at answer
      | false =>
          intro other member
          rcases List.mem_cons.mp member with rfl | later
          · exact ⟨passage, cast⟩
          · exact ih (by simpa using answer) other later

private theorem blocked_of_viaPoint {place : Vec} {forms : List Form}
    (led : viaPoint tolerance a b forms = .ok (some place)) : Blocked forms tolerance a b := by
  induction forms with
  | nil => cases led
  | cons form rest ih =>
      rw [viaPoint_cons] at led
      obtain ⟨⟨crosses, passage⟩, cast, answer⟩ := bind_eq_ok.mp led
      cases crosses with
      | true => exact ⟨form, List.mem_cons_self, passage, cast⟩
      | false =>
          obtain ⟨other, member, crossed⟩ := ih (by simpa using answer)
          exact ⟨other, List.mem_cons_of_mem _ member, crossed⟩

theorem unanswered_of_viaPoint {forms : List Form} {fault : Fault}
    (failed : viaPoint tolerance a b forms = .error fault) :
    Unanswered forms tolerance a b fault := by
  induction forms with
  | nil => cases failed
  | cons form rest ih =>
      rw [viaPoint_cons] at failed
      rcases bind_eq_error.mp failed with here | ⟨⟨crosses, passage⟩, cast, later⟩
      · exact ⟨form, List.mem_cons_self, here⟩
      · cases crosses with
        | true => simp at later
        | false =>
            obtain ⟨other, member, crossed⟩ := ih (by simpa using later)
            exact ⟨other, List.mem_cons_of_mem _ member, crossed⟩

/-! ## Via points -/

section Search

variable {ε : Type} {via : Vec → Vec → Except ε (Option Vec)}

theorem detour_cons (via : Vec → Vec → Except ε (Option Vec)) (a b : Vec) (rest : List Vec) :
    detour via a (b :: rest) =
      via a b >>= fun
        | some place => .ok (some (place :: b :: rest))
        | none => detour via b rest >>= fun longer => .ok (longer.map (b :: ·)) :=
  rfl

private theorem chain_of_detour {a : Vec} {line : List Vec}
    (straight : detour via a line = .ok none) :
    (a :: line).IsChain fun p q => via p q = .ok none := by
  induction line generalizing a with
  | nil => exact .singleton a
  | cons b rest ih =>
      rw [detour_cons] at straight
      obtain ⟨answer, tested, later⟩ := bind_eq_ok.mp straight
      cases answer with
      | some place => simp at later
      | none =>
          obtain ⟨longer, onward, same⟩ := bind_eq_ok.mp later
          cases longer with
          | some longer => simp at same
          | none => exact List.isChain_cons_cons.mpr ⟨tested, ih onward⟩

/-- A detour puts one point into a segment that is blocked. -/
theorem insert_of_detour {a : Vec} {line longer : List Vec}
    (led : detour via a line = .ok (some longer)) :
    ∃ front p q back place, a :: line = front ++ p :: q :: back ∧
      a :: longer = front ++ p :: place :: q :: back ∧ via p q = .ok (some place) := by
  induction line generalizing a longer with
  | nil => cases led
  | cons b rest ih =>
      rw [detour_cons] at led
      obtain ⟨answer, tested, later⟩ := bind_eq_ok.mp led
      cases answer with
      | some place =>
          have shape : place :: b :: rest = longer := by simpa using later
          subst shape
          exact ⟨[], a, b, rest, place, rfl, rfl, tested⟩
      | none =>
          obtain ⟨onward, found, same⟩ := bind_eq_ok.mp later
          cases onward with
          | none => simp at same
          | some onward =>
              have shape : b :: onward = longer := by simpa using same
              subst shape
              obtain ⟨front, p, q, back, place, before, after, blocked⟩ := ih found
              exact ⟨a :: front, p, q, back, place, by rw [before]; rfl, by rw [after]; rfl,
                blocked⟩

theorem failure_of_detour {a : Vec} {line : List Vec} {cause : ε}
    (failed : detour via a line = .error cause) :
    ∃ p q, [p, q] <:+: a :: line ∧ via p q = .error cause := by
  induction line generalizing a with
  | nil => cases failed
  | cons b rest ih =>
      rw [detour_cons] at failed
      rcases bind_eq_error.mp failed with here | ⟨answer, tested, later⟩
      · exact ⟨a, b, ⟨[], rest, rfl⟩, here⟩
      · cases answer with
        | some place => cases later
        | none =>
            rcases bind_eq_error.mp later with onward | ⟨longer, _, impossible⟩
            · obtain ⟨p, q, inside, here⟩ := ih onward
              exact ⟨p, q, List.infix_cons inside, here⟩
            · cases impossible

/-- The line that a number of detours lead to. -/
inductive Led (via : Vec → Vec → Except ε (Option Vec)) (a : Vec) :
    Nat → List Vec → List Vec → Prop where
  | here {line : List Vec} : Led via a 0 line line
  | detour {count : Nat} {line longer last : List Vec} :
      detour via a line = .ok (some longer) → Led via a count longer last →
      Led via a (count + 1) line last

theorem Led.length {a : Vec} {count : Nat} {line last : List Vec} (led : Led via a count line last) :
    last.length = line.length + count := by
  induction led with
  | here => rfl
  | detour step _ ih =>
      obtain ⟨front, p, q, back, place, before, after, _⟩ := insert_of_detour step
      have shorter := congrArg List.length before
      have longer := congrArg List.length after
      simp only [List.length_cons, List.length_append] at shorter longer
      omega

theorem Led.getLast? {a : Vec} {count : Nat} {line last : List Vec}
    (led : Led via a count line last) : (a :: last).getLast? = (a :: line).getLast? := by
  induction led with
  | here => rfl
  | detour step _ ih =>
      obtain ⟨front, p, q, back, place, before, after, _⟩ := insert_of_detour step
      rw [ih, before, after]
      simp [List.getLast?_append, List.getLast?_cons]

theorem clearLine_eq (via : Vec → Vec → Except ε (Option Vec)) (a : Vec) (line : List Vec)
    (limit : Nat) :
    clearLine via a line limit = detour via a line >>= fun
      | none => .ok (some line)
      | some longer =>
          match limit with
          | 0 => .ok none
          | limit + 1 => clearLine via a longer limit := by
  rw [clearLine]
  rfl

/-- A line that the search returns is reached by at most as many detours as are allowed and needs no
more. -/
theorem clearLine_eq_some {a : Vec} {line result : List Vec} {limit : Nat}
    (found : clearLine via a line limit = .ok (some result)) :
    ∃ count ≤ limit, Led via a count line result ∧ detour via a result = .ok none := by
  induction limit generalizing line with
  | zero =>
      rw [clearLine_eq] at found
      obtain ⟨answer, tested, later⟩ := bind_eq_ok.mp found
      cases answer with
      | some longer => simp at later
      | none =>
          have same : line = result := by simpa using later
          subst same
          exact ⟨0, Nat.le_refl 0, .here, tested⟩
  | succ limit ih =>
      rw [clearLine_eq] at found
      obtain ⟨answer, tested, later⟩ := bind_eq_ok.mp found
      cases answer with
      | none =>
          have same : line = result := by simpa using later
          subst same
          exact ⟨0, Nat.zero_le _, .here, tested⟩
      | some longer =>
          obtain ⟨count, bounded, led, free⟩ := ih later
          exact ⟨count + 1, Nat.succ_le_succ bounded, .detour tested led, free⟩

/-- The search gives up only when all detours have been made and another is needed. -/
theorem clearLine_eq_none {a : Vec} {line : List Vec} {limit : Nat}
    (stuck : clearLine via a line limit = .ok none) :
    ∃ last longer, Led via a limit line last ∧ detour via a last = .ok (some longer) := by
  induction limit generalizing line with
  | zero =>
      rw [clearLine_eq] at stuck
      obtain ⟨answer, tested, later⟩ := bind_eq_ok.mp stuck
      cases answer with
      | none => simp at later
      | some longer => exact ⟨line, longer, .here, tested⟩
  | succ limit ih =>
      rw [clearLine_eq] at stuck
      obtain ⟨answer, tested, later⟩ := bind_eq_ok.mp stuck
      cases answer with
      | none => simp at later
      | some longer =>
          obtain ⟨last, further, led, blocked⟩ := ih later
          exact ⟨last, further, .detour tested led, blocked⟩

theorem clearLine_eq_error {a : Vec} {line : List Vec} {limit : Nat} {cause : ε}
    (failed : clearLine via a line limit = .error cause) :
    ∃ count ≤ limit, ∃ last, Led via a count line last ∧ detour via a last = .error cause := by
  induction limit generalizing line with
  | zero =>
      rw [clearLine_eq] at failed
      rcases bind_eq_error.mp failed with here | ⟨answer, _, later⟩
      · exact ⟨0, Nat.le_refl 0, line, .here, here⟩
      · cases answer <;> cases later
  | succ limit ih =>
      rw [clearLine_eq] at failed
      rcases bind_eq_error.mp failed with here | ⟨answer, tested, later⟩
      · exact ⟨0, Nat.zero_le _, line, .here, here⟩
      · cases answer with
        | none => cases later
        | some longer =>
            obtain ⟨count, bounded, last, led, here⟩ := ih later
            exact ⟨count + 1, Nat.succ_le_succ bounded, last, .detour tested led, here⟩

end Search

/-! ## Routes -/

theorem plan_eq_ok {forms : List Form} {line : List Vec}
    (planned : plan forms a b tolerance = .ok line) :
    clearLine (viaPoint tolerance · · forms) a [b] maxVias = .ok (some line) := by
  obtain ⟨answer, searched, later⟩ := bind_eq_ok.mp planned
  cases answer with
  | none => cases later
  | some found =>
      cases later
      exact mapError_eq_ok.mp searched

theorem plan_eq_error {forms : List Form} {cause : RouteError}
    (failed : plan forms a b tolerance = .error cause) :
    cause = .noClearLine ∧ clearLine (viaPoint tolerance · · forms) a [b] maxVias = .ok none ∨
      ∃ fault, cause = .fault fault ∧
        clearLine (viaPoint tolerance · · forms) a [b] maxVias = .error fault := by
  rcases bind_eq_error.mp failed with here | ⟨answer, searched, later⟩
  · obtain ⟨fault, search, rfl⟩ := mapError_eq_error.mp here
    exact .inr ⟨fault, rfl, search⟩
  · cases answer with
    | none =>
        cases later
        exact .inl ⟨rfl, mapError_eq_ok.mp searched⟩
    | some found => cases later

theorem between_straight {machine : Machine} (straight : machine.isFiveAxis = false) (tool : Tool)
    (forms : List Form) (source target : Point) :
    between machine tool forms source target =
      plan forms source.position target.position tool.effectiveTolerance >>= fun line =>
        .ok (line.dropLast.map target.rapid.moveTo) := by
  simp only [between, straight]
  rfl

/-- A machine that cannot turn the tool takes only routes that keep clear. No segment from the source
through the points of the route to the target comes too close to a form. The points are bare rapid
moves with the direction and speed of the target, at most 200 of them. There is no route only if 200
via points have been added and some segment is still blocked, or a test of a segment has no answer. -/
theorem between_clear {machine : Machine} (straight : machine.isFiveAxis = false) (tool : Tool)
    (forms : List Form) (source target : Point) :
    (∀ points, between machine tool forms source target = .ok points →
      (source.position :: points.map (·.position) ++ [target.position]).IsChain
        (Clear forms tool.effectiveTolerance) ∧
      (∀ point ∈ points, point.feed = 0 ∧ point.direction = target.direction ∧
        point.speed = target.speed ∧ point.preCode = "" ∧ point.postCode = "" ∧
        point.warnings = [] ∧ point.errors = []) ∧
      points.length ≤ 200) ∧
    ∀ cause, between machine tool forms source target = .error cause →
      cause = .noClearLine ∧
        (∃ line, Led (viaPoint tool.effectiveTolerance · · forms) source.position 200
            [target.position] line ∧
          ∃ p q, [p, q] <:+: source.position :: line ∧
            Blocked forms tool.effectiveTolerance p q) ∨
      ∃ fault p q, cause = .fault fault ∧ Unanswered forms tool.effectiveTolerance p q fault := by
  rw [between_straight straight]
  constructor
  · intro points routed
    obtain ⟨line, planned, shape⟩ := bind_eq_ok.mp routed
    have same : line.dropLast.map target.rapid.moveTo = points := by simpa using shape
    obtain ⟨count, bounded, led, free⟩ := clearLine_eq_some (plan_eq_ok planned)
    have count_eq : line.length = 1 + count := led.length
    -- Detours only add points in front of the last one, which stays the target.
    have ends : line.getLast? = some target.position := by
      have last := led.getLast?
      cases line with
      | nil => simp at count_eq; omega
      | cons head tail => simpa [List.getLast?_cons] using last
    have whole : line = line.dropLast ++ [target.position] :=
      (List.dropLast_append_getLast? target.position ends).symm
    have places : points.map (·.position) = line.dropLast := by
      rw [← same, List.map_map]
      exact List.map_id' _
    refine ⟨?_, ?_, ?_⟩
    · rw [places, List.cons_append, ← whole]
      exact (chain_of_detour free).imp fun p q tested => clear_of_viaPoint tested
    · intro point member
      rw [← same] at member
      obtain ⟨place, _, rfl⟩ := List.mem_map.mp member
      exact ⟨rfl, rfl, rfl, rfl, rfl, rfl, rfl⟩
    · rw [← same, List.length_map, List.length_dropLast, count_eq]
      simpa [maxVias] using bounded
  · intro cause failed
    rcases bind_eq_error.mp failed with unplanned | ⟨line, _, impossible⟩
    · rcases plan_eq_error unplanned with ⟨rfl, stuck⟩ | ⟨fault, rfl, unanswered⟩
      · obtain ⟨last, longer, led, blocked⟩ := clearLine_eq_none stuck
        obtain ⟨front, p, q, back, place, inside, _, tested⟩ := insert_of_detour blocked
        exact .inl ⟨rfl, last, led, p, q, ⟨front, back, by simp [inside]⟩,
          blocked_of_viaPoint tested⟩
      · obtain ⟨count, _, last, _, here⟩ := clearLine_eq_error unanswered
        obtain ⟨p, q, _, tested⟩ := failure_of_detour here
        exact .inr ⟨fault, p, q, rfl, unanswered_of_viaPoint tested⟩
    · cases impossible

/-- A block with a safe distance of one. -/
def lowBlock : Form :=
  { identity := 0
    clearance := ⟨1, 0⟩
    shape := .box { center := Vec.zero, xAxis := Vec.xAxis, yAxis := Vec.yAxis, size := ⟨4, 4, 4⟩ } }

/-- The via point of a segment that grazes the bubble of the block. -/
def overBlock : Vec :=
  match viaPoint 0.01 ⟨-8, 0, 2.95⟩ ⟨8, 0, 2.95⟩ [lowBlock] with
  | .ok (some place) => place
  | _ => Vec.zero

private theorem clearLine_overBlock :
    clearLine (viaPoint 0.01 · · [lowBlock]) ⟨-8, 0, 2.95⟩ [⟨8, 0, 2.95⟩] maxVias =
      .ok (some [overBlock, ⟨8, 0, 2.95⟩]) := by
  have blocked : viaPoint 0.01 ⟨-8, 0, 2.95⟩ ⟨8, 0, 2.95⟩ [lowBlock] = .ok (some overBlock) := by
    decide +kernel
  have before : viaPoint 0.01 ⟨-8, 0, 2.95⟩ overBlock [lowBlock] = .ok none := by
    decide +kernel
  have after : viaPoint 0.01 overBlock ⟨8, 0, 2.95⟩ [lowBlock] = .ok none := by
    decide +kernel
  rw [clearLine_eq, detour_cons, blocked]
  change clearLine _ _ [overBlock, ⟨8, 0, 2.95⟩] 199 = _
  rw [clearLine_eq, detour_cons, before, detour_cons, after]
  rfl

/-- A route across the edge of the bubble of a block takes one via point and keeps clear. -/
theorem between_clear_overBlock :
    let machine : Machine := ⟨{}, .vertical⟩
    let tool : Tool := { identity := 0, name := "", number := 1, tip := .square, width := 1 }
    let source : Point := { position := ⟨-8, 0, 2.95⟩, direction := Vec.zAxis }
    let target : Point := { position := ⟨8, 0, 2.95⟩, direction := Vec.zAxis }
    let point : Point := target.rapid.moveTo overBlock
    machine.isFiveAxis = false ∧ between machine tool [lowBlock] source target = .ok [point] ∧
      [source.position, point.position, target.position].IsChain
        (Clear [lowBlock] tool.effectiveTolerance) := by
  intro machine tool source target point
  have straight : machine.isFiveAxis = false := rfl
  have slack : tool.effectiveTolerance = 0.01 := by decide +kernel
  have routed : between machine tool [lowBlock] source target = .ok [point] := by
    rw [between_straight straight, plan, slack, clearLine_overBlock]
    rfl
  exact ⟨straight, routed, ((between_clear straight tool [lowBlock] source target).1 _ routed).1⟩

end Route

end Kerf
