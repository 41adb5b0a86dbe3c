import Kerf.Proofs.CompileErrors
import Kerf.Proofs.Journal

/-!
# Leaving out paths

A path of an operation that is invalid, or of which its sideways move leaves nothing, is not written.
What is written of the other paths does not depend on it: neither the ways between them nor where an
operation begins.

Main statement: an instruction with a tool and a stock of its own compiles to the same code, with the
same ranges and errors, if any such paths are left out from the beginning.
-/

set_option autoImplicit false

namespace Kerf

open Kerf.Stock (Form)

/-- A list from which some items that may be removed have been left out. -/
inductive Pruned {Item : Type} (removable : Item → Prop) : List Item → List Item → Prop where
  | nil : Pruned removable [] []
  | keep (item : Item) {items kept : List Item} :
      Pruned removable items kept → Pruned removable (item :: items) (item :: kept)
  | drop {item : Item} {items kept : List Item} :
      removable item → Pruned removable items kept → Pruned removable (item :: items) kept

/-! ## Paths that are not written -/

namespace Path

theorem any_generalIssues (path : Path) :
    path.generalIssues.any (fun issue => issue.severity == .error) = false := by
  unfold generalIssues
  split <;> split <;> rfl

theorem isInvalid_resolve (path : Path) (tool : Option Tool) (form : Option Form) :
    (path.resolve tool form).isInvalid = path.isInvalid := by
  unfold isInvalid validate
  change List.any (if path.points.isEmpty then _ else _) _ = _
  split
  · rfl
  · simp only [List.any_append, List.any_map, Function.comp_def]
    rw [any_generalIssues, any_generalIssues]
    rfl

/-- Whether the sideways move of a path leaves nothing of it. -/
def Collapses (path : Path) : Prop := ∃ tool ∈ path.tool, path.loops tool = none

theorem prepare_of_isInvalid {path : Path} (invalid : path.isInvalid = true) (machine : Machine) :
    path.prepare machine = .ok .skipped :=
  if_pos invalid

private theorem prepare_of_collapses {path : Path} {context : Tool × Form}
    (known : path.context = .ok context) (valid : path.isInvalid = false)
    (collapses : path.Collapses) (machine : Machine) :
    ∃ warnings, path.prepare machine = .ok (.collapsed warnings) := by
  obtain ⟨tool, held, collapsed⟩ := collapses
  obtain ⟨own, form⟩ := context
  cases held.symm.trans (context_eq_ok.mp known).1
  have filled : path.points.isEmpty = false :=
    List.isEmpty_eq_false_iff.mpr (points_ne_nil_of_not_isInvalid valid)
  have expanded : path.passes machine = .error .collapsed := by
    refine bind_eq_error.mpr (.inr ⟨(tool, form), mapError_eq_ok.mpr known, ?_⟩)
    dsimp only
    rw [filled, collapsed]
    rfl
  refine ⟨path.validate.map (·.issue.message), ?_⟩
  unfold prepare
  rw [valid, expanded]
  rfl

end Path

/-! ## Operations -/

theorem Operation.resolvePaths_eq {tool : Option Tool} {form : Option Form}
    (held : tool.isSome = true) (stock : form.isSome = true) (paths : List Path) :
    resolvePaths tool form paths = (paths.map (·.resolve tool form), none) := by
  induction paths with
  | nil => rfl
  | cons path rest ih =>
      obtain ⟨context, known⟩ := path.exists_context_resolve held stock
      unfold resolvePaths
      dsimp only
      rw [ih, known]
      rfl

namespace Instruction

variable {instruction : Instruction} {machine : Machine}

/-- A path of an operation with what it lacks filled in. -/
def supplied (instruction : Instruction) (operation : Operation) (path : Path) : Path :=
  path.resolve (operation.tool <|> instruction.tool) (operation.form <|> instruction.form)

def equip (instruction : Instruction) (operation : Operation) : Operation :=
  { operation with
    tool := operation.tool <|> instruction.tool
    form := operation.form <|> instruction.form
    paths := operation.paths.map (instruction.supplied operation) }

def withOperations (instruction : Instruction) (operations : List Operation) : Instruction :=
  { instruction with operations }

def prepareOperation (instruction : Instruction) (machine : Machine) (operation : Operation) :
    Except CompileError Prepared :=
  ((instruction.equip operation).prepare machine).mapError (.operation operation.name)

/-- Whether an instruction has a tool and a stock for all that have none. -/
structure Equipped (instruction : Instruction) : Prop where
  tool : instruction.tool.isSome = true
  form : instruction.form.isSome = true

namespace Equipped

private theorem exists_context (equipped : instruction.Equipped) (operation : Operation)
    (path : Path) : ∃ context, (instruction.supplied operation path).context = .ok context :=
  path.exists_context_resolve (by simp [equipped.tool]) (by simp [equipped.form])

private theorem resolve_eq (equipped : instruction.Equipped) (operation : Operation) :
    operation.resolve instruction.tool instruction.form = (instruction.equip operation, none) := by
  unfold Operation.resolve
  dsimp only
  rw [Operation.resolvePaths_eq (by simp [equipped.tool]) (by simp [equipped.form])]
  rfl

theorem prepareOperations_eq (equipped : instruction.Equipped) (machine : Machine) :
    instruction.prepareOperations machine =
      instruction.operations.mapM (instruction.prepareOperation machine) := by
  have resolved : instruction.resolveOperations =
      pure (instruction.operations.map instruction.equip) := by
    unfold resolveOperations
    simp only [equipped.resolve_eq]
    exact List.mapM_pure
  unfold prepareOperations
  rw [resolved, pure_bind, List.mapM_map]
  rfl

theorem resolveEnd_eq (equipped : instruction.Equipped) (path : Path) :
    instruction.resolveEnd path = path.resolve instruction.tool instruction.form := by
  obtain ⟨context, known⟩ := path.exists_context_resolve equipped.tool equipped.form
  unfold resolveEnd
  split
  · rfl
  · exact Path.resolve_of_context known _ _

end Equipped

/-! ## Leaving out -/

/-- Whether a path of an operation is not written: it is invalid, or with the tool that it is supplied
with its sideways move leaves nothing of it. -/
def Traceless (instruction : Instruction) (operation : Operation) (path : Path) : Prop :=
  path.isInvalid ∨ (instruction.supplied operation path).Collapses

/-- Operations from which some paths that are not written have been left out, and also some that no
path is left of. -/
inductive PrunedOperations (instruction : Instruction) :
    List Operation → List Operation → Prop where
  | nil : PrunedOperations instruction [] []
  | keep (operation : Operation) {kept : List Path} {operations others : List Operation} :
      Pruned (instruction.Traceless operation) operation.paths kept →
      PrunedOperations instruction operations others →
      PrunedOperations instruction (operation :: operations)
        ({ operation with paths := kept } :: others)
  | drop {operation : Operation} {operations others : List Operation} :
      Pruned (instruction.Traceless operation) operation.paths [] →
      PrunedOperations instruction operations others →
      PrunedOperations instruction (operation :: operations) others

namespace Equipped

private theorem prepare_of_traceless (equipped : instruction.Equipped) {operation : Operation}
    {path : Path} (traceless : instruction.Traceless operation path) (machine : Machine) :
    ∃ outcome, (instruction.supplied operation path).prepare machine = .ok outcome ∧
      outcome.passes = [] := by
  obtain ⟨context, known⟩ := equipped.exists_context operation path
  cases invalid : (instruction.supplied operation path).isInvalid with
  | true => exact ⟨.skipped, Path.prepare_of_isInvalid invalid machine, rfl⟩
  | false =>
      rcases traceless with rejected | collapses
      · rw [supplied, Path.isInvalid_resolve, rejected] at invalid
        cases invalid
      · obtain ⟨warnings, prepared⟩ := Path.prepare_of_collapses known invalid collapses machine
        exact ⟨.collapsed warnings, prepared, rfl⟩

private theorem mapM_prepare_alike (equipped : instruction.Equipped) {operation : Operation}
    {paths kept : List Path} (pruned : Pruned (instruction.Traceless operation) paths kept)
    (machine : Machine) :
    EndAlike (fun full reduced => full.flatMap Outcome.passes = reduced.flatMap Outcome.passes)
      ((paths.map (instruction.supplied operation)).mapM (·.prepare machine))
      ((kept.map (instruction.supplied operation)).mapM (·.prepare machine)) := by
  induction pruned with
  | nil => exact .returned rfl
  | keep path _ ih =>
      rw [List.map_cons, List.map_cons, List.mapM_cons, List.mapM_cons]
      refine (EndAlike.refl _).bind fun outcome _ same => ih.bind fun full reduced alike => ?_
      refine .returned ?_
      rw [List.flatMap_cons, List.flatMap_cons, same, alike]
  | drop traceless _ ih =>
      obtain ⟨outcome, prepared, bare⟩ := equipped.prepare_of_traceless traceless machine
      rw [List.map_cons, List.mapM_cons, prepared]
      refine ih.bind_left fun full reduced alike => .returned ?_
      rw [List.flatMap_cons, bare, List.nil_append, alike]

theorem prepareOperation_alike (equipped : instruction.Equipped) {operation : Operation}
    {kept : List Path} (pruned : Pruned (instruction.Traceless operation) operation.paths kept)
    (machine : Machine) :
    EndAlike (fun full reduced => full.name = reduced.name ∧ full.passes = reduced.passes)
      (instruction.prepareOperation machine operation)
      (instruction.prepareOperation machine { operation with paths := kept }) := by
  refine EndAlike.mapError _ ((equipped.mapM_prepare_alike pruned machine).bind ?_)
  exact fun full reduced alike => .returned ⟨rfl, alike⟩

/-- Leaving out paths that are not written makes no difference to the legs. -/
theorem mapM_prepareOperation_alike (equipped : instruction.Equipped)
    {operations others : List Operation} (pruned : instruction.PrunedOperations operations others)
    (machine : Machine) :
    EndAlike
      (fun full reduced =>
        ∀ previous, Leg.ofOperations previous full = Leg.ofOperations previous reduced)
      (operations.mapM (instruction.prepareOperation machine))
      (others.mapM (instruction.prepareOperation machine)) := by
  induction pruned with
  | nil => exact .returned fun _ => rfl
  | keep operation paths _ ih =>
      rw [List.mapM_cons, List.mapM_cons]
      refine (equipped.prepareOperation_alike paths machine).bind ?_
      rintro first second ⟨name, passes⟩
      refine ih.bind fun full reduced alike => .returned fun previous => ?_
      rw [Leg.ofOperations, Leg.ofOperations, name, passes, alike]
  | drop paths _ ih =>
      -- An operation without paths is always prepared and has no passes, and so has this one.
      obtain ⟨prepared, done, _, bare⟩ := (equipped.prepareOperation_alike paths machine).exists_of_ok
      rw [List.mapM_cons, done]
      refine ih.bind_left fun full reduced alike => .returned fun previous => ?_
      rw [Leg.ofOperations, bare]
      exact alike previous

theorem withOperations (equipped : instruction.Equipped) (operations : List Operation) :
    (instruction.withOperations operations).Equipped :=
  ⟨equipped.tool, equipped.form⟩

private theorem prepareEnd_withOperations (equipped : instruction.Equipped)
    (operations : List Operation) (machine : Machine) (path : Option Path) :
    (instruction.withOperations operations).prepareEnd machine path =
      instruction.prepareEnd machine path := by
  unfold prepareEnd
  simp only [equipped.resolveEnd_eq, (equipped.withOperations operations).resolveEnd_eq]
  rfl

end Equipped

/-- Paths that are not written leave no trace in a program. If any of them are left out of an equipped
instruction, and operations that no path is left of, then compiling fails for the same cause or gives
the same code, ranges and errors. -/
theorem compile_prunes (equipped : instruction.Equipped) {operations : List Operation}
    (pruned : instruction.PrunedOperations instruction.operations operations) (ignore : List String) :
    EndAlike
      (fun full reduced =>
        full.text = reduced.text ∧ full.ranges = reduced.ranges ∧
        full.countedErrors = reduced.countedErrors ∧ full.ignoredErrors = reduced.ignoredErrors)
      (instruction.compile ignore) ((instruction.withOperations operations).compile ignore) := by
  cases known : instruction.machine with
  | none =>
      have same : (instruction.withOperations operations).machine = none := known
      rw [compile_of_no_machine known, compile_of_no_machine same]
      exact .failed CompileError.noMachine
  | some machine =>
      have same : (instruction.withOperations operations).machine = some machine := known
      rw [compile_eq known, compile_eq same, equipped.prepareOperations_eq,
        (equipped.withOperations operations).prepareOperations_eq]
      refine (equipped.mapM_prepareOperation_alike pruned machine).bind fun full reduced alike => ?_
      simp only [equipped.prepareEnd_withOperations]
      refine (EndAlike.refl _).bind fun start _ started => ?_
      refine (EndAlike.refl _).bind fun finish _ finished => ?_
      subst started finished
      -- From here on both are written from the same legs, and nothing but the remarks differs.
      have legs : Leg.all start full finish = Leg.all start reduced finish := by
        rw [Leg.all, Leg.all, Leg.opening, Leg.opening, alike]
      rw [legs]
      refine (EndAlike.refl _).bind fun written _ wrote => .returned ?_
      subst wrote
      rw [Program.noteOutcomes_eq, Program.noteOutcomes_eq]
      exact ⟨rfl, rfl, rfl, rfl⟩

end Instruction

/-! ## An outline that collapses -/

namespace Outline

theorem Ring.length_clean_there_and_back (a b : Node) : (clean [a, b, a]).length < 3 := by
  by_cases same : a = b
  · simp [clean, dedupe, same, dropClosing, cleanRepeatedly]
  · simp [clean, dedupe, same, Ne.symm same, dropClosing, cleanRepeatedly]

/-- A closed outline that goes there and back has no inside that could be moved sideways. -/
theorem offset_there_and_back (p q : Planar) (amount tolerance : Float) :
    offset [p, q, p] true amount tolerance = [] := by
  simp [offset, Ring.length_clean_there_and_back]

end Outline

theorem Track.sideways_there_and_back {tool : Tool} {factor : Float} {first second last : Point}
    (flat : isFlat [first, second, last] = true)
    (closed : isClosed [first, second, last] tool.effectiveTolerance = true)
    (back : last.position = first.position) : sideways tool factor [first, second, last] = none := by
  simp [sideways, flat, closed, positions, back, Outline.offset_there_and_back]

namespace Instruction

def slit : Path :=
  { name := "slit"
    points :=
      [Point.make ⟨0, 0, 2⟩ Vec.zAxis, Point.make ⟨1, 0, 2⟩ Vec.zAxis, Point.make ⟨0, 0, 2⟩ Vec.zAxis]
    additions := { offset := 1 } }

def acrossTop : Path :=
  { name := "across"
    points := [Point.make ⟨-1, 0, 2⟩ Vec.zAxis, Point.make ⟨1, 0, 2⟩ Vec.zAxis] }

/-- A block that is cut across between a path that leads nowhere and a slit that cannot be widened,
after an operation with nothing but a path without points. -/
def littered : Instruction :=
  { name := "job"
    machine := some ⟨{}, .vertical⟩
    operations :=
      [{ name := "void", paths := [{ name := "empty" }] },
        { name := "face"
          paths :=
            [{ name := "nowhere", points := [Point.make ⟨0 / 0, 0, 2⟩ Vec.zAxis] }, acrossTop, slit] }]
    tool := some { identity := 0, name := "mill", number := 1, tip := .square, width := 4 }
    form := some Route.lowBlock }

theorem compile_prunes_littered :
    ∃ full reduced,
      littered.compile [] = .ok full ∧
      (littered.withOperations [{ name := "face", paths := [acrossTop] }]).compile [] = .ok reduced ∧
      full.text = reduced.text ∧ full.ranges = reduced.ranges ∧
      full.countedErrors = reduced.countedErrors ∧ full.ignoredErrors = reduced.ignoredErrors := by
  -- That the whole instruction compiles too is what the reduced one shows.
  have succeeds : ((littered.withOperations [{ name := "face", paths := [acrossTop] }]).compile
      []).isOk = true := by
    decide +kernel
  have pruned : littered.PrunedOperations littered.operations
      [{ name := "face", paths := [acrossTop] }] := by
    refine .drop (.drop (.inl (by decide +kernel)) .nil) ?_
    refine .keep { name := "face", paths := _ } (.drop (.inl (by decide +kernel)) ?_) .nil
    refine .keep acrossTop (.drop (.inr ⟨_, rfl, ?_⟩) .nil)
    exact (if_pos (by decide +kernel)).trans
      (Track.sideways_there_and_back (by decide +kernel) (by decide +kernel) rfl)
  obtain ⟨reduced, compiled⟩ := exists_of_isOk succeeds
  have alike := compile_prunes ⟨rfl, rfl⟩ pruned []
  rw [compiled] at alike
  obtain ⟨full, done, same⟩ := alike.exists_of_ok
  exact ⟨full, reduced, done, compiled, same⟩

end Instruction

end Kerf
