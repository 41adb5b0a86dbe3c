import Kerf.Instruction.Compile
import Kerf.Proofs.Attachments
import Kerf.Proofs.Emission
import Kerf.Proofs.PassContract

/-!
# The legs of a program

A program is written in legs. Each leads from the path before to another one and ends with cutting
that; the first leg of an operation begins with its heading, and every leg changes to the tool of its
path, except for the one that leads to the motion after the operations.

Main statements: compiling is to prepare all paths and then to write their legs one after another,
and every path of a leg has points and can be written.
-/

set_option autoImplicit false

namespace Kerf

/-- One path of a program with the way that leads to it. -/
structure Leg where
  /-- The name of the operation that begins with the path. -/
  heading : Option String := none
  /-- Whether the tool of the path is changed to. -/
  changesTool : Bool := true
  /-- The path written before. -/
  source : Option Path := none
  path : Path

namespace Leg

/-- The last path written when some legs follow a previous path. -/
def latest (previous : Option Path) (legs : List Leg) : Option Path :=
  legs.foldl (fun _ leg => some leg.path) previous

def ofPasses (heading : Option String) (previous : Option Path) : List Path → List Leg
  | [] => []
  | pass :: rest =>
      { heading, source := previous, path := pass } :: ofPasses none (some pass) rest

def ofOperations (previous : Option Path) : List Prepared → List Leg
  | [] => []
  | operation :: rest =>
      let legs := ofPasses (some operation.name) previous operation.passes
      legs ++ ofOperations (latest previous legs) rest

/-- The legs up to the end of the operations. -/
def opening (start : Option Path) (operations : List Prepared) : List Leg :=
  start.toList.map (fun path => { path := path }) ++ ofOperations start operations

/-- The leg to the motion after the operations, which keeps the tool that is loaded. -/
def closing (previous finish : Option Path) : List Leg :=
  finish.toList.map fun path => { changesTool := false, source := previous, path }

def all (start : Option Path) (operations : List Prepared) (finish : Option Path) : List Leg :=
  opening start operations ++ closing (latest none (opening start operations)) finish

theorem latest_append (previous : Option Path) (front back : List Leg) :
    latest previous (front ++ back) = latest (latest previous front) back :=
  List.foldl_append

private theorem latest_opening (start : Option Path) (operations : List Prepared) :
    latest none (opening start operations) = latest start (ofOperations start operations) := by
  rw [opening, latest_append]
  cases start <;> rfl

theorem paths_ofPasses (heading : Option String) (previous : Option Path) (passes : List Path) :
    (ofPasses heading previous passes).map (·.path) = passes := by
  induction passes generalizing heading previous with
  | nil => rfl
  | cons pass rest ih => rw [ofPasses, List.map_cons, ih]

private theorem paths_ofOperations (previous : Option Path) (operations : List Prepared) :
    (ofOperations previous operations).map (·.path) = operations.flatMap (·.passes) := by
  induction operations generalizing previous with
  | nil => rfl
  | cons operation rest ih =>
      rw [ofOperations, List.map_append, paths_ofPasses, ih, List.flatMap_cons]

/-- There is one leg for each path, in the order of writing. -/
theorem paths_all (start : Option Path) (operations : List Prepared) (finish : Option Path) :
    (all start operations finish).map (·.path) =
      start.toList ++ operations.flatMap (·.passes) ++ finish.toList := by
  cases start <;> cases finish <;> simp [all, opening, closing, paths_ofOperations]

end Leg

/-! ## Writing legs -/

namespace Machine

/-- Writes the heading of an operation if there is one. -/
def writeHeading (machine : Machine) (program : Program) : Option String → Program
  | none => program
  | some name => machine.writeOperationStart program name

theorem writeHeading_frame (machine : Machine) (program : Program) (heading : Option String) :
    ∃ entries, machine.writeHeading program heading = { program with entries } := by
  cases heading with
  | none => exact ⟨program.entries, rfl⟩
  | some name =>
      unfold writeHeading writeOperationStart
      dsimp only
      split <;> split <;> exact ⟨_, rfl⟩

/-- Writes what comes before the way of a leg. -/
def openLeg (machine : Machine) (program : Program) (leg : Leg) : Program :=
  let program := machine.writeHeading program leg.heading
  if leg.changesTool then machine.writeToolChange program leg.path.tool else program

/-- Writes a leg up to the path that it leads to. -/
def reachLeg (machine : Machine) (program : Program) (leg : Leg) : Except CompileError Program :=
  machine.writeWay (machine.openLeg program leg) leg.source leg.path leg.heading.isSome

def writeLeg (machine : Machine) (program : Program) (leg : Leg) : Except CompileError Program :=
  machine.reachLeg program leg >>= fun reached => machine.writePrepared reached leg.path

def writeLegs (machine : Machine) (program : Program) (legs : List Leg) :
    Except CompileError Program :=
  legs.foldlM machine.writeLeg program

theorem writeLegs_cons (machine : Machine) (program : Program) (leg : Leg) (legs : List Leg) :
    machine.writeLegs program (leg :: legs) =
      machine.writeLeg program leg >>= fun written => machine.writeLegs written legs :=
  List.foldlM_cons

theorem writeLegs_append (machine : Machine) (program : Program) (front back : List Leg) :
    machine.writeLegs program (front ++ back) =
      machine.writeLegs program front >>= fun written => machine.writeLegs written back :=
  List.foldlM_append

private theorem writePasses_cons (machine : Machine) (entry : Bool) (previous : Option Path)
    (program : Program) (pass : Path) (rest : List Path) :
    machine.writePasses entry previous program (pass :: rest) =
      machine.writeWay (machine.writeToolChange program pass.tool) previous pass entry >>=
        fun reached => machine.writePrepared reached pass >>= fun written =>
          machine.writePasses false (some pass) written rest :=
  rfl

/-- Passes are written in legs; a heading is written only if there are some. -/
theorem writePasses_eq (machine : Machine) (heading : Option String) (previous : Option Path)
    (program : Program) {passes : List Path} (begins : heading.isSome → passes ≠ []) :
    machine.writePasses heading.isSome previous (machine.writeHeading program heading) passes =
      machine.writeLegs program (Leg.ofPasses heading previous passes) >>= fun written =>
        .ok (Leg.latest previous (Leg.ofPasses heading previous passes), written) := by
  induction passes generalizing heading previous program with
  | nil =>
      cases heading with
      | none => rfl
      | some name => exact absurd rfl (begins rfl)
  | cons pass rest ih =>
      have none : (none : Option String).isSome → rest ≠ [] := by simp
      rw [writePasses_cons, Leg.ofPasses, writeLegs_cons, writeLeg]
      simp only [bind_assoc]
      congr 1
      funext reached
      congr 1
      funext written
      exact ih Option.none (some pass) written none

private theorem writeOperations_eq (machine : Machine) (previous : Option Path) (program : Program)
    (operations : List Prepared) : machine.writeOperations previous program operations =
      machine.writeLegs program (Leg.ofOperations previous operations) >>= fun written =>
        .ok (Leg.latest previous (Leg.ofOperations previous operations), written) := by
  induction operations generalizing previous program with
  | nil => rfl
  | cons operation rest ih =>
      unfold writeOperations
      split
      · next empty =>
          rw [ih, Leg.ofOperations, List.isEmpty_iff.mp empty]
          rfl
      · next filled =>
          change (machine.writePasses (some operation.name).isSome previous
            (machine.writeHeading program (some operation.name)) operation.passes >>=
              fun result => machine.writeOperations result.1 result.2 rest) = _
          rw [machine.writePasses_eq (some operation.name) previous program
            fun _ => mt List.isEmpty_iff.mpr filled, Leg.ofOperations, writeLegs_append]
          simp only [bind_assoc]
          congr 1
          funext written
          rw [Leg.latest_append]
          exact ih _ written

private theorem writeStart_eq (machine : Machine) (program : Program) (start : Option Path) :
    machine.writeStart program start =
      machine.writeLegs program (start.toList.map fun path => { path := path }) := by
  cases start with
  | none => rfl
  | some path =>
      rw [Option.toList_some, List.map_singleton, writeLegs_cons]
      exact (bind_pure _).symm

private theorem writeFinish_eq (machine : Machine) (previous : Option Path) (program : Program)
    (finish : Option Path) : machine.writeFinish previous program finish =
      machine.writeLegs program (Leg.closing previous finish) := by
  cases finish with
  | none => rfl
  | some path =>
      rw [Leg.closing, Option.toList_some, List.map_singleton, writeLegs_cons]
      exact (bind_pure _).symm

/-- Every leg of a program that has been written was reached and then cut. -/
theorem writeLegs_split {machine : Machine} {program after : Program} {front back : List Leg}
    {leg : Leg} (written : machine.writeLegs program (front ++ leg :: back) = .ok after) :
    ∃ before reached cut, machine.writeLegs program front = .ok before ∧
      machine.reachLeg before leg = .ok reached ∧
      machine.writePrepared reached leg.path = .ok cut ∧
      machine.writeLegs cut back = .ok after := by
  rw [writeLegs_append] at written
  obtain ⟨before, earlier, later⟩ := bind_eq_ok.mp written
  rw [writeLegs_cons] at later
  obtain ⟨cut, here, onward⟩ := bind_eq_ok.mp later
  obtain ⟨reached, way, prepared⟩ := bind_eq_ok.mp here
  exact ⟨before, reached, cut, earlier, way, prepared, onward⟩

/-- The points travelled through from one path to the next; none within a safety bubble. -/
def travel (machine : Machine) (source : Option Path) (target : Path) : Track :=
  match source.bind (·.points.getLast?), target.points.head?, target.context with
  | some last, some first, .ok (tool, form) =>
      let forms := Route.stocks (source.bind (·.form)) form
      if Route.inMaterial forms last.position first.position tool.effectiveTolerance then []
      else (Route.between machine tool forms last first).toOption.getD []
  | _, _, _ => []

/-- A way has nothing but the moves of its route and what may be noted about it. -/
theorem transitionActs_eq (machine : Machine) (rotary : Rotary.Setting) (source : Option Path)
    (target : Path) (entry : Bool) :
    ∃ notes : List Act, (∀ act ∈ notes, ∃ errors, act = .note [] errors) ∧
      machine.transitionActs rotary source target entry =
        notes ++ machine.moveActs rotary target.tool (machine.travel source target) := by
  unfold transitionActs travel
  cases source.bind (·.points.getLast?) with
  | none => exact ⟨[], by simp, rfl⟩
  | some last =>
      cases target.points.head? with
      | none => exact ⟨[], by simp, rfl⟩
      | some first =>
          cases known : target.context with
          | error cause => exact ⟨[], by simp, rfl⟩
          | ok context =>
              obtain ⟨tool, form⟩ := context
              dsimp only
              split
              · split
                · exact ⟨[.note [] _], by simp, rfl⟩
                · exact ⟨[], by simp, rfl⟩
              · rw [(Path.context_eq_ok.mp known).1]
                cases Route.between machine tool (Route.stocks (source.bind (·.form)) form) last
                    first with
                | error cause => exact ⟨[], by simp, rfl⟩
                | ok points => exact ⟨[], by simp, rfl⟩

/-- The way of a leg that has been reached is a list of acts. -/
theorem reachLeg_eq {machine : Machine} {before reached : Program} {leg : Leg}
    (way : machine.reachLeg before leg = .ok reached) :
    reached = machine.performAll (machine.openLeg before leg)
      (machine.transitionActs (machine.openLeg before leg).rotary leg.source leg.path
        leg.heading.isSome) := by
  have written := machine.writeTransition_eq (machine.openLeg before leg) leg.source leg.path
    leg.heading.isSome
  rw [mapError_eq_ok.mp way] at written
  exact written

theorem writePrepared_eq {machine : Machine} {reached cut : Program} {path : Path}
    (prepared : machine.writePrepared reached path = .ok cut) :
    cut = machine.performAll reached (machine.pathActs reached.rotary path) := by
  have written := machine.writePath_eq reached path
  rw [mapError_eq_ok.mp prepared] at written
  exact written

theorem writeLegs_eq_error {machine : Machine} {program : Program} {legs : List Leg}
    {cause : CompileError} (failed : machine.writeLegs program legs = .error cause) :
    ∃ before, ∃ leg ∈ legs, machine.writeLeg before leg = .error cause := by
  induction legs generalizing program with
  | nil => cases failed
  | cons leg rest ih =>
      rw [writeLegs_cons] at failed
      rcases bind_eq_error.mp failed with here | ⟨written, _, later⟩
      · exact ⟨program, leg, List.mem_cons_self, here⟩
      · obtain ⟨before, other, listed, there⟩ := ih later
        exact ⟨before, other, List.mem_cons_of_mem _ listed, there⟩

end Machine

/-! ## Prepared paths -/

/-- Whether a path can be written as it is and has something to cut. -/
structure Path.Writable (path : Path) : Prop where
  ready : ∃ context, path.ready = .ok context
  points : path.points ≠ []

theorem Path.writable_of_mem_passes {machine : Machine} {path : Path} {passes : List Path}
    (found : path.passes machine = .ok passes) {pass : Path} (member : pass ∈ passes) :
    pass.Writable :=
  ⟨ready_of_mem_passes found member, (passes_spec found).2 pass member⟩

/-- A pass differs from its path in its points and in that nothing is left to run. -/
theorem Path.along_of_mem_prepare {machine : Machine} {path : Path} {outcome : Outcome}
    (found : path.prepare machine = .ok outcome) {pass : Path} (member : pass ∈ outcome.passes) :
    ∃ points, pass = path.along points := by
  obtain ⟨passes, expanded, listed⟩ := exists_passes_of_prepare found member
  obtain ⟨_, _, _, tracks, _, _, _, _, rfl⟩ := passes_eq_ok expanded
  obtain ⟨track, _, rfl⟩ := List.mem_map.mp listed
  exact ⟨track, rfl⟩

theorem Path.writable_of_prepare {machine : Machine} {path : Path} {outcome : Outcome}
    (found : path.prepare machine = .ok outcome) {pass : Path} (member : pass ∈ outcome.passes) :
    pass.Writable := by
  obtain ⟨passes, expanded, listed⟩ := exists_passes_of_prepare found member
  exact writable_of_mem_passes expanded listed

namespace Instruction

variable {instruction : Instruction} {machine : Machine}

private theorem writable_of_prepareOperations {operations : List Prepared}
    (found : instruction.prepareOperations machine = .ok operations) {pass : Path}
    (member : pass ∈ operations.flatMap (·.passes)) : pass.Writable := by
  obtain ⟨operation, listed, inside⟩ := List.mem_flatMap.mp member
  obtain ⟨original, _, _, passes⟩ := source_of_mem_prepareOperations found listed
  obtain ⟨_, _, path, outcome, _, became, passed⟩ := passes pass inside
  exact Path.writable_of_prepare became passed

theorem resolveEnd_of_context {path : Path} {context : Tool × Stock.Form}
    (known : path.context = .ok context) (instruction : Instruction) :
    instruction.resolveEnd path = path := by
  unfold resolveEnd
  rw [Path.resolve_of_context known]
  split
  · rfl
  · exact Path.resolve_of_context known _ _

theorem writable_of_prepareEnd {path : Option Path} {prepared : Path}
    (found : instruction.prepareEnd machine path = .ok (some prepared)) : prepared.Writable := by
  unfold prepareEnd at found
  split at found
  · cases found
  · next given =>
      split at found
      · cases found
      · next filled =>
          obtain ⟨context, known, later⟩ := bind_eq_ok.mp found
          have contextKnown := mapError_eq_ok.mp known
          split at later
          · next settled =>
              cases later
              refine ⟨⟨context, Path.ready_eq_ok.mpr ⟨contextKnown, by simpa using settled⟩⟩, ?_⟩
              rw [points_resolveEnd]
              exact mt List.isEmpty_iff.mpr filled
          · obtain ⟨passes, expanded, same⟩ := bind_eq_ok.mp later
            cases same
            refine ⟨⟨context, Path.ready_along contextKnown _⟩, ?_⟩
            obtain ⟨counted, points⟩ := Path.passes_spec (mapError_eq_ok.mp expanded)
            cases passes with
            | nil => simp at counted
            | cons pass rest =>
                rw [List.flatMap_cons]
                exact List.append_ne_nil_of_left_ne_nil (points pass List.mem_cons_self) _

/-! ## Compiling -/

/-- A program without anything but its header. -/
def heading (instruction : Instruction) (machine : Machine) (ignore : List String) : Program :=
  machine.writeHeader (Program.empty machine.dialect ignore) instruction.name

theorem compile_of_no_machine (unknown : instruction.machine = none) (ignore : List String) :
    instruction.compile ignore = .error .noMachine := by
  unfold compile
  rw [unknown]
  rfl

/-- Compiling prepares all paths and writes their legs one after another. -/
theorem compile_eq (known : instruction.machine = some machine) (ignore : List String) :
    instruction.compile ignore =
      instruction.prepareOperations machine >>= fun operations =>
      instruction.prepareEnd machine instruction.start >>= fun start =>
      instruction.prepareEnd machine instruction.finish >>= fun finish =>
      machine.writeLegs (instruction.heading machine ignore)
        (Leg.all start operations finish) >>= fun written =>
      .ok ((machine.writeFooter written).noteOutcomes (operations.flatMap (·.outcomes))) := by
  unfold compile
  rw [known]
  dsimp only
  congr 1
  funext operations
  congr 1
  funext start
  congr 1
  funext finish
  rw [Machine.writeStart_eq, Leg.all, Leg.latest_opening, Leg.opening, List.append_assoc,
    Machine.writeLegs_append]
  simp only [Machine.writeOperations_eq, Machine.writeFinish_eq, Machine.writeLegs_append, bind_assoc]
  rfl

def legs (instruction : Instruction) (machine : Machine) : Except CompileError (List Leg) :=
  instruction.prepareOperations machine >>= fun operations =>
  instruction.prepareEnd machine instruction.start >>= fun start =>
  instruction.prepareEnd machine instruction.finish >>= fun finish =>
  .ok (Leg.all start operations finish)

/-- What an instruction is written from on a machine: its paths, all of them prepared. -/
structure Plan (instruction : Instruction) (machine : Machine) where
  operations : List Prepared
  start : Option Path
  finish : Option Path
  prepared : instruction.prepareOperations machine = .ok operations
  before : instruction.prepareEnd machine instruction.start = .ok start
  after : instruction.prepareEnd machine instruction.finish = .ok finish

namespace Plan

variable {instruction : Instruction} {machine : Machine}

/-- The legs up to the end of the operations. -/
def opening (plan : instruction.Plan machine) : List Leg := Leg.opening plan.start plan.operations

/-- The leg to the motion after the operations, if there is one. -/
def closing (plan : instruction.Plan machine) : List Leg :=
  Leg.closing (Leg.latest none plan.opening) plan.finish

def legs (plan : instruction.Plan machine) : List Leg :=
  Leg.all plan.start plan.operations plan.finish

theorem instruction_legs (plan : instruction.Plan machine) :
    instruction.legs machine = .ok plan.legs := by
  rw [Instruction.legs, plan.prepared, plan.before, plan.after]
  rfl

theorem map_legs (plan : instruction.Plan machine) {Value : Type} {measure : Leg → Value}
    {values : List Value}
    (evaluated : (instruction.legs machine).map (·.map measure) = .ok values) :
    plan.legs.map measure = values := by
  rw [plan.instruction_legs] at evaluated
  exact Except.ok.inj evaluated

theorem legs_eq (plan : instruction.Plan machine) : plan.legs = plan.opening ++ plan.closing := rfl

theorem mem_closing {plan : instruction.Plan machine} {leg : Leg} :
    leg ∈ plan.closing ↔ ∃ path ∈ plan.finish,
      leg = { changesTool := false, source := Leg.latest none plan.opening, path } := by
  simp [closing, Leg.closing, eq_comm]

def paths (plan : instruction.Plan machine) : List Path :=
  plan.start.toList ++ plan.operations.flatMap (·.passes) ++ plan.finish.toList

theorem mem_paths {plan : instruction.Plan machine} {path : Path} :
    path ∈ plan.paths ↔
      path ∈ plan.start ∨ (∃ operation ∈ plan.operations, path ∈ operation.passes) ∨
        path ∈ plan.finish := by
  simp [paths]

theorem paths_legs (plan : instruction.Plan machine) : plan.legs.map (·.path) = plan.paths :=
  Leg.paths_all plan.start plan.operations plan.finish

theorem writable_of_mem_paths (plan : instruction.Plan machine) {path : Path}
    (written : path ∈ plan.paths) : path.Writable := by
  rcases mem_paths.mp written with first | ⟨operation, listed, member⟩ | last
  · exact writable_of_prepareEnd (plan.before.trans (by rw [first]))
  · exact writable_of_prepareOperations plan.prepared (List.mem_flatMap.mpr ⟨operation, listed, member⟩)
  · exact writable_of_prepareEnd (plan.after.trans (by rw [last]))

/-- Every path of a program can be written and has points. -/
theorem writable_of_mem_legs (plan : instruction.Plan machine) {leg : Leg}
    (member : leg ∈ plan.legs) : leg.path.Writable := by
  apply plan.writable_of_mem_paths
  rw [← paths_legs]
  exact List.mem_map_of_mem member

end Plan

/-- Whether a program is what the legs of a plan and a footer make. -/
def Plan.Writes {instruction : Instruction} {machine : Machine} (plan : instruction.Plan machine)
    (ignore : List String) (program : Program) : Prop :=
  ∃ written, machine.writeLegs (instruction.heading machine ignore) plan.legs = .ok written ∧
    program = (machine.writeFooter written).noteOutcomes (plan.operations.flatMap (·.outcomes))

theorem exists_machine {ignore : List String} {program : Program}
    (compiled : instruction.compile ignore = .ok program) :
    ∃ machine, instruction.machine = some machine := by
  cases known : instruction.machine with
  | none =>
      rw [compile_of_no_machine known] at compiled
      cases compiled
  | some machine => exact ⟨machine, rfl⟩

theorem exists_plan (known : instruction.machine = some machine) {ignore : List String}
    {program : Program} (compiled : instruction.compile ignore = .ok program) :
    ∃ plan : instruction.Plan machine, plan.Writes ignore program := by
  rw [compile_eq known] at compiled
  obtain ⟨operations, prepared, later⟩ := bind_eq_ok.mp compiled
  obtain ⟨start, before, later⟩ := bind_eq_ok.mp later
  obtain ⟨finish, after, later⟩ := bind_eq_ok.mp later
  obtain ⟨written, legs, same⟩ := bind_eq_ok.mp later
  cases same
  exact ⟨⟨operations, start, finish, prepared, before, after⟩, written, legs, rfl⟩

end Instruction

end Kerf
