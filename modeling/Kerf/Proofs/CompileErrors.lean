import Kerf.Proofs.ClearRoute
import Kerf.Proofs.Legs

/-!
# Why an instruction has no program

Every cause that compiling can fail for: a path without tool or stock, a motion before or after the
operations that its sideways move leaves nothing of, and a way between two paths that is nowhere
clear. Besides these a query of the stock may have no answer, which no caller gets to see as an error.

Main statement: `compile_failures`. The checks made while writing never fail, because preparing the
paths has established what they ask for.
-/

set_option autoImplicit false

namespace Kerf

open Kerf.Stock (Form)
open Kerf.Route (RouteError)

namespace CompileError

/-- Whether a query of the stock without an answer is behind an error. -/
def isFault : CompileError → Bool
  | .operation _ (.fault _) | .ends (.fault _) | .transition (.route _ _ (.fault _)) => true
  | _ => false

/-- The path error that an error passes on. -/
def pathError? : CompileError → Option PathError
  | .context cause | .operation _ (.context cause) | .ends (.context cause)
  | .transition (.context cause) => some cause
  | _ => none

private theorem pathError?_of_isFault {cause : CompileError} (fault : cause.isFault = true) :
    cause.pathError? = none := by
  unfold isFault at fault
  split at fault
  · rfl
  · rfl
  · rfl
  · cases fault

end CompileError

/-! ## Preparing paths -/

variable {path : Path} {machine : Machine}

theorem Path.lack_of_context {context : Tool × Form} (known : path.context = .ok context) :
    path.lack = none := by
  obtain ⟨tool, form⟩ := Path.context_eq_ok.mp known
  simp [Path.lack, tool, form]

theorem Path.points_ne_nil_of_not_isInvalid (valid : path.isInvalid = false) :
    path.points ≠ [] := by
  intro empty
  simp [isInvalid, validate, empty, Issue.severity] at valid

theorem Path.prepare_eq_error {cause : PassError} (failed : path.prepare machine = .error cause) :
    path.isInvalid = false ∧ cause ≠ .collapsed ∧ path.passes machine = .error cause := by
  unfold prepare at failed
  split at failed
  · cases failed
  · next valid =>
      dsimp only at failed
      split at failed
      · cases failed
      · cases failed
      · next remaining stopped =>
          cases failed
          exact ⟨by simpa using valid, remaining, stopped⟩

/-- A path with tool and stock has an outcome, unless a query of the stock has no answer. -/
theorem Path.isFault_of_prepare {cause : PassError} (complete : path.lack = none)
    (failed : path.prepare machine = .error cause) : ∃ fault, cause = .fault fault := by
  obtain ⟨valid, remaining, expanded⟩ := prepare_eq_error failed
  rcases passes_eq_error expanded with
    ⟨missing, lacking, _⟩ | ⟨empty, _⟩ | ⟨_, _, collapsed⟩ | ⟨_, fault, same⟩
  · rw [complete] at lacking
    cases lacking
  · exact absurd empty (points_ne_nil_of_not_isInvalid valid)
  · exact absurd collapsed remaining
  · exact ⟨fault, same⟩

/-! ## Context over three levels -/

namespace Operation

/-- The first path that stays without context, as an error. -/
theorem resolvePaths_snd (tool : Option Tool) (form : Option Form) (paths : List Path) :
    (resolvePaths tool form paths).2 = paths.findSome? fun path =>
      (path.resolve tool form).lack.map (.missingContext path.name) := by
  induction paths with
  | nil => rfl
  | cons path rest ih =>
      rw [resolvePaths, List.findSome?_cons]
      dsimp only
      split
      · next cause lacking =>
          obtain ⟨missing, lack, rfl⟩ := Path.context_eq_error.mp lacking
          rw [lack]
          rfl
      · next known =>
          rw [Path.lack_of_context known]
          exact ih

private theorem resolve_snd (operation : Operation) (tool : Option Tool) (form : Option Form) :
    (operation.resolve tool form).2 = operation.paths.findSome? fun path =>
      (path.resolve (operation.tool <|> tool) (operation.form <|> form)).lack.map
        (.missingContext path.name) :=
  resolvePaths_snd _ _ _

/-- Paths that have all been resolved lack nothing. -/
theorem lack_of_mem_resolvePaths {tool : Option Tool} {form : Option Form} {paths : List Path}
    (complete : (resolvePaths tool form paths).2 = none) {path : Path}
    (member : path ∈ (resolvePaths tool form paths).1) : path.lack = none := by
  induction paths with
  | nil => cases member
  | cons first rest ih =>
      rw [resolvePaths] at complete member
      dsimp only at complete member
      split at complete
      · cases complete
      · next known =>
          rw [known] at member
          rcases List.mem_cons.mp member with rfl | later
          · exact Path.lack_of_context known
          · exact ih complete later

end Operation

namespace Instruction

/-- The paths of the operations in document order, each with its operation. -/
def operationPaths (instruction : Instruction) : List (Operation × Path) :=
  instruction.operations.flatMap fun operation => operation.paths.map (operation, ·)

/-- What a path of an operation lacks: a tool or stock that neither itself nor its operation nor the
instruction has, the tool first. -/
def lack (instruction : Instruction) (operation : Operation) (path : Path) : Option Missing :=
  if path.tool.isNone && operation.tool.isNone && instruction.tool.isNone then some .tool
  else if path.form.isNone && operation.form.isNone && instruction.form.isNone then some .stock
  else none

private theorem lack_eq (instruction : Instruction) (operation : Operation) (path : Path) :
    instruction.lack operation path =
      (path.resolve (operation.tool <|> instruction.tool)
        (operation.form <|> instruction.form)).lack := by
  unfold lack Path.lack Path.resolve
  cases path.tool <;> cases operation.tool <;> cases instruction.tool <;> cases path.form <;>
    cases operation.form <;> cases instruction.form <;> rfl

/-- The error of the first path in document order that lacks something. -/
def firstLack (instruction : Instruction) : Option PathError :=
  instruction.operationPaths.findSome? fun (operation, path) =>
    (instruction.lack operation path).map (.missingContext path.name)

variable {instruction : Instruction} {cause : CompileError}

/-- Operations are resolved up to the first path that lacks something. -/
theorem resolveOperations_eq_error :
    instruction.resolveOperations = .error cause ↔
      ∃ original, instruction.firstLack = some original ∧ cause = .context original := by
  simp only [resolveOperations, firstLack, operationPaths, lack_eq]
  induction instruction.operations with
  | nil => simp [pure, Except.pure]
  | cons operation rest ih =>
      rw [List.flatMap_cons, List.findSome?_append, List.findSome?_map, List.mapM_cons, bind_eq_error]
      have first := operation.resolve_snd instruction.tool instruction.form
      cases resolved : operation.resolve instruction.tool instruction.form with
      | mk filled stopped =>
          rw [resolved] at first
          cases stopped with
          | some original =>
              simp only [Function.comp_def, ← first, Option.some_or]
              simp [eq_comm]
          | none =>
              simp only [Function.comp_def, ← first, Option.none_or, ← ih, bind_eq_error]
              simp [pure, Except.pure]

private theorem lack_of_resolveOperations {operations : List Operation}
    (resolved : instruction.resolveOperations = .ok operations) {operation : Operation}
    (listed : operation ∈ operations) {path : Path} (member : path ∈ operation.paths) :
    path.lack = none := by
  obtain ⟨source, _, became⟩ := exists_of_mem_mapM resolved listed
  split at became
  · next filled complete =>
      cases became
      have known := congrArg Prod.snd complete
      have same := congrArg (fun answer => answer.1.paths) complete
      dsimp only at same
      rw [← same] at member
      exact Operation.lack_of_mem_resolvePaths known member
  · cases became

/-- Operations that have been resolved can be prepared, unless a query of the stock has no answer. -/
theorem isFault_of_prepareOperations {machine : Machine} {operations : List Operation}
    (resolved : instruction.resolveOperations = .ok operations)
    (failed : instruction.prepareOperations machine = .error cause) : cause.isFault = true := by
  rcases bind_eq_error.mp failed with lacking | ⟨same, again, later⟩
  · rw [resolved] at lacking
    cases lacking
  · rw [resolved] at again
    cases again
    obtain ⟨earlier, operation, rest, rfl, _, stopped⟩ := mapM_eq_error.mp later
    obtain ⟨original, here, rfl⟩ := mapError_eq_error.mp stopped
    rcases bind_eq_error.mp here with inside | ⟨_, _, impossible⟩
    · obtain ⟨before, path, after, whole, _, broken⟩ := mapM_eq_error.mp inside
      have member : path ∈ operation.paths := by simp [whole]
      obtain ⟨fault, rfl⟩ :=
        Path.isFault_of_prepare (lack_of_resolveOperations resolved (by simp) member) broken
      rfl
    · cases impossible

private theorem name_resolveEnd (instruction : Instruction) (path : Path) :
    (instruction.resolveEnd path).name = path.name := by
  unfold resolveEnd
  split <;> rfl

/-- Why a motion before or after the operations cannot be prepared. -/
theorem prepareEnd_eq_error {machine : Machine} {path : Option Path}
    (failed : instruction.prepareEnd machine path = .error cause) :
    ∃ given, path = some given ∧ given.points ≠ [] ∧
      ((∃ missing, (instruction.resolveEnd given).lack = some missing ∧
          cause = .context (.missingContext given.name missing)) ∨
        (instruction.resolveEnd given).passes machine = .error .collapsed ∧
          cause = .ends .collapsed ∨
        cause.isFault = true) := by
  unfold prepareEnd at failed
  split at failed
  · cases failed
  · next given =>
      split at failed
      · cases failed
      · next filled =>
          have nonempty := mt List.isEmpty_iff.mpr filled
          refine ⟨given, rfl, nonempty, ?_⟩
          rcases bind_eq_error.mp failed with unknown | ⟨context, known, later⟩
          · obtain ⟨original, lacking, rfl⟩ := mapError_eq_error.mp unknown
            obtain ⟨missing, lack, rfl⟩ := Path.context_eq_error.mp lacking
            rw [name_resolveEnd]
            exact .inl ⟨missing, lack, rfl⟩
          · split at later
            · cases later
            · rcases bind_eq_error.mp later with stopped | ⟨_, _, impossible⟩
              · obtain ⟨original, expanded, rfl⟩ := mapError_eq_error.mp stopped
                rcases Path.passes_eq_error expanded with
                  ⟨missing, lacking, _⟩ | ⟨empty, _⟩ | ⟨_, _, rfl⟩ | ⟨_, fault, rfl⟩
                · rw [Path.lack_of_context (mapError_eq_ok.mp known)] at lacking
                  cases lacking
                · rw [points_resolveEnd] at empty
                  exact absurd empty nonempty
                · exact .inr (.inl ⟨expanded, rfl⟩)
                · exact .inr (.inr rfl)
              · cases impossible

end Instruction

/-! ## Ways and legs -/

/-- Why there is no way between two points. Only a machine that turns the tool can fail to turn it
safely. -/
theorem Route.between_eq_error {tool : Tool} {forms : List Form} {source target : Point}
    {cause : RouteError} (failed : between machine tool forms source target = .error cause) :
    cause = .noClearLine ∨ machine.isFiveAxis = true ∧ cause = .noSafeTurn ∨
      ∃ fault, cause = .fault fault := by
  rcases bind_eq_error.mp failed with unplanned | ⟨line, _, later⟩
  · rcases plan_eq_error unplanned with ⟨rfl, _⟩ | ⟨fault, rfl, _⟩
    · exact .inl rfl
    · exact .inr (.inr ⟨fault, rfl⟩)
  · split at later
    · next turns =>
        rcases bind_eq_error.mp later with short | ⟨first, _, onward⟩
        · obtain ⟨fault, _, rfl⟩ := mapError_eq_error.mp short
          exact .inr (.inr ⟨fault, rfl⟩)
        · cases first with
          | some points => cases onward
          | none =>
              rcases bind_eq_error.mp onward with long | ⟨second, _, last⟩
              · obtain ⟨fault, _, rfl⟩ := mapError_eq_error.mp long
                exact .inr (.inr ⟨fault, rfl⟩)
              · cases second with
                | some points => cases last
                | none =>
                    cases last
                    exact .inr (.inl ⟨turns, rfl⟩)
    · cases later

/-- A leg to a path that can be written fails only for its way. -/
theorem Machine.writeLeg_eq_error {program : Program} {leg : Leg} {cause : CompileError}
    (writable : leg.path.Writable) (failed : machine.writeLeg program leg = .error cause) :
    ∃ source reason, cause = .transition (.route source leg.path.name reason) ∧
      (reason = .noClearLine ∨ machine.isFiveAxis = true ∧ reason = .noSafeTurn ∨
        ∃ fault, reason = .fault fault) := by
  obtain ⟨context, ready⟩ := writable.ready
  have known := (Path.ready_eq_ok.mp ready).1
  rcases bind_eq_error.mp failed with unreached | ⟨reached, _, uncut⟩
  · obtain ⟨original, stopped, rfl⟩ := mapError_eq_error.mp unreached
    unfold writeTransition at stopped
    split at stopped
    · rcases bind_eq_error.mp stopped with lacking | ⟨⟨tool, form⟩, _, later⟩
      · obtain ⟨_, unknown, _⟩ := mapError_eq_error.mp lacking
        rw [known] at unknown
        cases unknown
      · dsimp only at later
        split at later
        · split at later <;> cases later
        · rcases bind_eq_error.mp later with unrouted | ⟨_, _, impossible⟩
          · obtain ⟨reason, nowhere, rfl⟩ := mapError_eq_error.mp unrouted
            exact ⟨_, reason, rfl, Route.between_eq_error nowhere⟩
          · cases impossible
    · cases stopped
  · obtain ⟨original, refused, _⟩ := mapError_eq_error.mp uncut
    obtain ⟨written, accepted⟩ := machine.exists_writePath ready reached
    rw [accepted] at refused
    cases refused

/-! ## Compiling -/

namespace Instruction

/-- The errors that compiling an instruction on a machine may end with. -/
inductive Failure (instruction : Instruction) (machine : Machine) : CompileError → Prop where
  | operationLacks {operation : Operation} {path : Path} {missing : Missing} :
      (operation, path) ∈ instruction.operationPaths →
      instruction.lack operation path = some missing →
      Failure instruction machine (.context (.missingContext path.name missing))
  | endLacks {path : Path} {missing : Missing} :
      instruction.start = some path ∨ instruction.finish = some path →
      (instruction.resolveEnd path).lack = some missing →
      Failure instruction machine (.context (.missingContext path.name missing))
  | collapsed {path : Path} :
      instruction.start = some path ∨ instruction.finish = some path →
      (instruction.resolveEnd path).passes machine = .error .collapsed →
      Failure instruction machine (.ends .collapsed)
  | noSafeTurn (source target : String) : machine.isFiveAxis = true →
      Failure instruction machine (.transition (.route source target .noSafeTurn))
  | noClearLine (source target : String) :
      Failure instruction machine (.transition (.route source target .noClearLine))

variable {instruction : Instruction} {machine : Machine} {cause : CompileError}

/-- The first path without tool or stock, in terms of what comes before it. -/
theorem firstLack_eq_some {cause : PathError} (found : instruction.firstLack = some cause) :
    ∃ earlier operation path later missing,
      instruction.operationPaths = earlier ++ (operation, path) :: later ∧
      (∀ other ∈ earlier, instruction.lack other.1 other.2 = none) ∧
      instruction.lack operation path = some missing ∧
      cause = .missingContext path.name missing := by
  obtain ⟨earlier, ⟨operation, path⟩, later, whole, here, complete⟩ :=
    List.findSome?_eq_some_iff.mp found
  obtain ⟨missing, lacking, rfl⟩ := Option.map_eq_some_iff.mp here
  refine ⟨earlier, operation, path, later, missing, whole, ?_, lacking, rfl⟩
  exact fun other member => Option.map_eq_none_iff.mp (complete other member)

theorem failure_of_prepareEnd {path : Option Path}
    (among : path = instruction.start ∨ path = instruction.finish)
    (failed : instruction.prepareEnd machine path = .error cause) :
    cause.isFault = true ∨ instruction.Failure machine cause := by
  obtain ⟨given, rfl, _, reason⟩ := prepareEnd_eq_error failed
  have place := among.imp Eq.symm Eq.symm
  rcases reason with ⟨missing, lacking, rfl⟩ | ⟨collapsed, rfl⟩ | fault
  · exact .inr (.endLacks place lacking)
  · exact .inr (.collapsed place collapsed)
  · exact .inl fault

theorem failure_of_compile (known : instruction.machine = some machine) {ignore : List String}
    (failed : instruction.compile ignore = .error cause) :
    cause.isFault = true ∨ instruction.Failure machine cause := by
  rw [compile_eq known] at failed
  rcases bind_eq_error.mp failed with unprepared | ⟨operations, prepared, failed⟩
  · cases resolved : instruction.resolveOperations with
    | ok operations => exact .inl (isFault_of_prepareOperations resolved unprepared)
    | error first =>
        obtain ⟨original, lacking, rfl⟩ := resolveOperations_eq_error.mp resolved
        obtain ⟨earlier, operation, path, later, missing, whole, _, lack, rfl⟩ :=
          firstLack_eq_some lacking
        rw [prepareOperations, resolved] at unprepared
        cases unprepared
        exact .inr (.operationLacks (by simp [whole]) lack)
  · rcases bind_eq_error.mp failed with unprepared | ⟨start, before, failed⟩
    · exact failure_of_prepareEnd (.inl rfl) unprepared
    · rcases bind_eq_error.mp failed with unprepared | ⟨finish, after, failed⟩
      · exact failure_of_prepareEnd (.inr rfl) unprepared
      · rcases bind_eq_error.mp failed with unwritten | ⟨_, _, impossible⟩
        · obtain ⟨program, leg, member, stopped⟩ := Machine.writeLegs_eq_error unwritten
          let plan : instruction.Plan machine := ⟨operations, start, finish, prepared, before, after⟩
          obtain ⟨source, reason, rfl, kind⟩ :=
            Machine.writeLeg_eq_error (plan.writable_of_mem_legs member) stopped
          rcases kind with rfl | ⟨turns, rfl⟩ | ⟨fault, rfl⟩
          · exact .inr (.noClearLine source leg.path.name)
          · exact .inr (.noSafeTurn source leg.path.name turns)
          · exact .inl rfl
        · cases impossible

theorem Failure.pathError?_ne (failure : instruction.Failure machine cause) (name : String) :
    cause.pathError? ≠ some (.unprocessedAdditions name) := by
  cases failure <;> simp [CompileError.pathError?]

/-- The failures of compiling. With all queries of the stock answered, compiling fails only for a
missing tool or stock, for a motion before or after the operations that collapses, or for a way that
is nowhere clear. No path is ever found unprocessed, operations with all context can be prepared, and
the first path of an operation without context is the one that is reported. -/
theorem compile_failures {instruction : Instruction} {machine : Machine}
    (known : instruction.machine = some machine) (ignore : List String) :
    (∀ cause, instruction.compile ignore = .error cause →
      (cause.isFault = false → instruction.Failure machine cause) ∧
      ∀ name, cause.pathError? ≠ some (.unprocessedAdditions name)) ∧
    (∀ operations, instruction.resolveOperations = .ok operations →
      (∃ prepared, instruction.prepareOperations machine = .ok prepared) ∨
      ∃ cause, instruction.prepareOperations machine = .error cause ∧ cause.isFault = true) ∧
    ((∃ operation path, (operation, path) ∈ instruction.operationPaths ∧
        instruction.lack operation path ≠ none) →
      ∃ earlier operation path later missing,
        instruction.operationPaths = earlier ++ (operation, path) :: later ∧
        (∀ other ∈ earlier, instruction.lack other.1 other.2 = none) ∧
        instruction.lack operation path = some missing ∧
        instruction.compile ignore = .error (.context (.missingContext path.name missing))) := by
  refine ⟨?_, ?_, ?_⟩
  · intro cause failed
    rcases failure_of_compile known failed with fault | failure
    · refine ⟨fun answered => ?_, fun name => ?_⟩
      · rw [fault] at answered
        cases answered
      · simp [CompileError.pathError?_of_isFault fault]
    · exact ⟨fun _ => failure, failure.pathError?_ne⟩
  · intro operations resolved
    cases prepared : instruction.prepareOperations machine with
    | ok passes => exact .inl ⟨passes, rfl⟩
    | error cause => exact .inr ⟨cause, rfl, isFault_of_prepareOperations resolved prepared⟩
  · rintro ⟨operation, path, member, lacking⟩
    cases first : instruction.firstLack with
    | none =>
        have complete := List.findSome?_eq_none_iff.mp first (operation, path) member
        exact absurd (Option.map_eq_none_iff.mp complete) lacking
    | some cause =>
        have resolved := resolveOperations_eq_error.mpr ⟨cause, first, rfl⟩
        obtain ⟨earlier, operation, path, later, missing, whole, complete, lack, rfl⟩ :=
          firstLack_eq_some first
        refine ⟨earlier, operation, path, later, missing, whole, complete, lack, ?_⟩
        rw [compile_eq known, prepareOperations, resolved]
        rfl

/-- Two operations, the second of which has a path without stock before one without a tool. -/
def halfKnown : Instruction :=
  let mill : Tool := { identity := 0, name := "mill", number := 1, tip := .square, width := 2 }
  { name := "job"
    machine := some ⟨{}, .vertical⟩
    operations :=
      [{ name := "face", paths := [{ name := "a", form := some Route.lowBlock }], tool := some mill },
        { name := "drill", paths := [{ name := "b", tool := some mill }, { name := "c" }] }] }

theorem compile_failures_halfKnown :
    halfKnown.Failure ⟨{}, .vertical⟩ (.context (.missingContext "b" .stock)) ∧
      ∃ earlier operation path later missing,
        halfKnown.operationPaths = earlier ++ (operation, path) :: later ∧
        (∀ other ∈ earlier, halfKnown.lack other.1 other.2 = none) ∧
        halfKnown.lack operation path = some missing ∧
        halfKnown.compile [] = .error (.context (.missingContext path.name missing)) := by
  have compiled : halfKnown.compile [] = .error (.context (.missingContext "b" .stock)) := rfl
  obtain ⟨failures, _, first⟩ := compile_failures (rfl : halfKnown.machine = some ⟨{}, .vertical⟩) []
  refine ⟨(failures _ compiled).1 rfl, first ?_⟩
  exact ⟨_, _, List.mem_cons_of_mem _ (List.mem_cons_of_mem _ List.mem_cons_self),
    Option.some_ne_none Missing.tool⟩

end Instruction

end Kerf
