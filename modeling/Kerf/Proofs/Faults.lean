import Kerf.Instruction.Preview
import Kerf.Proofs.Answers
import Kerf.Proofs.CompileErrors
import Kerf.Proofs.JoinedEnds
import Kerf.Proofs.Shares

/-!
# Queries of the stock without an answer

The way out of a block leads through its nearest face, and there may be none. What becomes of that: where
compiling asks the stock, and which stock it asks.

Main statement: `compile_faults`. Two paths so far apart that their distance is no number are enough to
get compiling stuck, although both are valid.
-/

set_option autoImplicit false

namespace Kerf

namespace Stock

open Kerf.Scalar

/-! ## Blocks -/

def Form.isBlock (form : Form) : Bool :=
  match form.shape with
  | .box _ => true
  | .cylinder _ => false

section

variable {form : Form} {fault : Fault}

/-- Only a block leaves a query without an answer. -/
theorem Form.isBlock_of_wayOut {q line : Vec} (failed : form.wayOut q line = .error fault) :
    form.isBlock = true := by
  cases known : form.shape with
  | box box => rw [isBlock, known]
  | cylinder cylinder =>
      rw [wayOut, known] at failed
      cases failed

theorem Form.isBlock_of_castRay {p direction : Vec} {tolerance : Float}
    (failed : form.castRay p direction tolerance = .error fault) : form.isBlock = true := by
  obtain ⟨_, _, _, _, lost⟩ := castRay_eq_error failed
  exact isBlock_of_wayOut lost

theorem Form.isBlock_of_castSegment {a b : Vec} {tolerance : Float}
    (failed : form.castSegment a b tolerance = .error fault) : form.isBlock = true := by
  obtain ⟨_, ray | ⟨_, _, lost⟩⟩ := castSegment_eq_error failed
  · exact isBlock_of_castRay ray
  · exact isBlock_of_wayOut lost

theorem Form.isBlock_of_depth {p direction : Vec} (failed : form.depth p direction = .error fault) :
    form.isBlock = true := by
  rcases bind_eq_error.mp failed with here | ⟨_, _, impossible⟩
  · exact isBlock_of_castRay here
  · cases impossible

theorem Form.isBlock_of_lift {p direction : Vec} (failed : form.lift p direction = .error fault) :
    form.isBlock = true := by
  rcases bind_eq_error.mp failed with here | ⟨passage, _, later⟩
  · exact isBlock_of_castRay here
  · split at later <;> cases later

end

end Stock

open Kerf.Stock (Form Fault)

/-! ## Passes -/

namespace Track

variable {machine : Machine} {tool : Tool} {form : Form} {fault : Fault} {additions : Additions}

theorem isBlock_of_above {point : Point} (failed : above tool form point = .error fault) :
    form.isBlock = true := by
  rcases bind_eq_error.mp failed with here | ⟨place, _, later⟩
  · exact Form.isBlock_of_lift here
  · split at later <;> cases later

private theorem isBlock_of_withApproach {track : Track}
    (failed : withApproach tool form track = .error fault) : form.isBlock = true := by
  cases track with
  | nil => cases failed
  | cons first rest =>
      rcases bind_eq_error.mp failed with here | ⟨approach, _, later⟩
      · exact isBlock_of_above here
      · cases approach <;> cases later

private theorem isBlock_of_withRetreat {track : Track}
    (failed : withRetreat tool form track = .error fault) : form.isBlock = true := by
  unfold withRetreat at failed
  split at failed
  · cases failed
  · rcases bind_eq_error.mp failed with here | ⟨_, _, impossible⟩
    · exact isBlock_of_above here
    · cases impossible

private theorem isBlock_of_refine {track : Track}
    (failed : refine machine form track = .error fault) : form.isBlock = true := by
  induction track with
  | nil => cases failed
  | cons a rest ih =>
      cases rest with
      | nil => cases failed
      | cons b rest =>
          rcases bind_eq_error.mp failed with here | ⟨added, _, later⟩
          · rcases bind_eq_error.mp here with inside | ⟨answer, _, onward⟩
            · exact Form.isBlock_of_castSegment inside
            · dsimp only at onward
              split at onward <;> cases onward
          · rcases bind_eq_error.mp later with onward | ⟨_, _, impossible⟩
            · exact ih onward
            · cases impossible

private theorem isBlock_of_roughing {track : Track}
    (failed : roughing tool form additions track = .error fault) : form.isBlock = true := by
  rcases bind_eq_error.mp failed with here | ⟨_, _, impossible⟩
  · obtain ⟨_, point, _, _, _, stopped⟩ := mapM_eq_error.mp here
    rcases bind_eq_error.mp stopped with inside | ⟨_, _, impossible⟩
    · exact Form.isBlock_of_depth inside
    · cases impossible
  · cases impossible

private theorem isBlock_of_depthPasses {track : Track}
    (failed : depthPasses machine tool form additions track = .error fault) :
    form.isBlock = true := by
  unfold depthPasses at failed
  split at failed
  · rcases bind_eq_error.mp failed with here | ⟨refined, _, later⟩
    · exact isBlock_of_refine here
    · rcases bind_eq_error.mp later with onward | ⟨_, _, impossible⟩
      · exact isBlock_of_roughing onward
      · cases impossible
  · cases failed

private theorem isBlock_of_withEnds {track : Track}
    (failed : withEnds tool form additions track = .error fault) : form.isBlock = true := by
  rw [withEnds_eq] at failed
  rcases bind_eq_error.mp failed with here | ⟨approached, _, later⟩
  · split at here
    · exact isBlock_of_withApproach here
    · cases here
  · split at later
    · exact isBlock_of_withRetreat later
    · cases later

private theorem isBlock_of_passesOf {loops : List Track}
    (failed : passesOf machine tool form additions loops = .error fault) : form.isBlock = true := by
  rcases bind_eq_error.mp failed with here | ⟨passes, _, later⟩
  · obtain ⟨_, loop, _, _, _, stopped⟩ := mapM_eq_error.mp here
    exact isBlock_of_depthPasses stopped
  · obtain ⟨_, pass, _, _, _, stopped⟩ := mapM_eq_error.mp later
    exact isBlock_of_withEnds stopped

end Track

theorem Path.isBlock_of_passes {machine : Machine} {path : Path} {fault : Fault}
    (failed : path.passes machine = .error (.fault fault)) :
    ∃ form, path.form = some form ∧ form.isBlock = true := by
  cases noPasses_of_passes failed with
  | @stuck _ form _ _ known unanswered =>
      exact ⟨form, (context_eq_ok.mp known).2, Track.isBlock_of_passesOf unanswered⟩

/-- Whether some stage is asked for that looks at the stock. -/
def Additions.asksStock (additions : Additions) : Bool :=
  additions.stepDown || additions.insert || additions.retract

theorem Path.asks_of_passes {machine : Machine} {path : Path} {fault : Fault}
    (failed : path.passes machine = .error (.fault fault)) :
    path.additions.asksStock = true := by
  rcases passes_eq_error failed with ⟨_, _, other⟩ | ⟨_, other⟩ | ⟨_, _, other⟩ | ⟨asks, _⟩
  · cases other
  · cases other
  · cases other
  · exact asks

/-! ## Routes -/

namespace Route

variable {machine : Machine} {tool : Tool} {forms : List Form} {fault : Fault}

private theorem isBlock_of_plan {a b : Vec} {tolerance : Float}
    (failed : plan forms a b tolerance = .error (.fault fault)) :
    ∃ form ∈ forms, form.isBlock = true := by
  rcases plan_eq_error failed with ⟨impossible, _⟩ | ⟨_, same, unanswered⟩
  · cases impossible
  · obtain ⟨count, _, last, _, here⟩ := clearLine_eq_error unanswered
    obtain ⟨p, q, _, tested⟩ := failure_of_detour here
    obtain ⟨form, member, cast⟩ := unanswered_of_viaPoint tested
    exact ⟨form, member, Form.isBlock_of_castSegment cast⟩

private theorem isBlock_of_gouges {point : Point} (failed : gouges tool point forms = .error fault) :
    ∃ form ∈ forms, form.isBlock = true := by
  induction forms with
  | nil => cases failed
  | cons form rest ih =>
      unfold gouges at failed
      dsimp only at failed
      split at failed
      · cases failed
      · split at failed
        · rcases bind_eq_error.mp failed with here | ⟨⟨crosses, _⟩, _, later⟩
          · exact ⟨form, List.mem_cons_self, Form.isBlock_of_castSegment here⟩
          · cases crosses with
            | true => cases later
            | false =>
                obtain ⟨other, member, block⟩ := ih later
                exact ⟨other, List.mem_cons_of_mem _ member, block⟩
        · obtain ⟨other, member, block⟩ := ih failed
          exact ⟨other, List.mem_cons_of_mem _ member, block⟩

theorem isBlock_of_allClear {track : Track}
    (failed : allClear (gouges tool · forms) track = .error fault) :
    ∃ form ∈ forms, form.isBlock = true := by
  induction track with
  | nil => cases failed
  | cons point rest ih =>
      rcases bind_eq_error.mp failed with here | ⟨fails, _, later⟩
      · exact isBlock_of_gouges here
      · cases fails with
        | true => cases later
        | false =>
            rcases bind_eq_error.mp later with onward | ⟨_, _, impossible⟩
            · exact ih onward
            · cases impossible

private theorem isBlock_of_between {source target : Point}
    (failed : between machine tool forms source target = .error (.fault fault)) :
    ∃ form ∈ forms, form.isBlock = true := by
  rcases bind_eq_error.mp failed with unplanned | ⟨line, _, later⟩
  · exact isBlock_of_plan unplanned
  · split at later
    · rcases bind_eq_error.mp later with short | ⟨first, _, onward⟩
      · obtain ⟨_, stopped, same⟩ := mapError_eq_error.mp short
        exact isBlock_of_allClear stopped
      · cases first with
        | some points => cases onward
        | none =>
            rcases bind_eq_error.mp onward with long | ⟨second, _, last⟩
            · obtain ⟨_, stopped, same⟩ := mapError_eq_error.mp long
              exact isBlock_of_allClear stopped
            · cases second <;> cases last
    · cases later

end Route

/-! ## The stock of a program -/

theorem Path.form_of_mem_resolve {path : Path} {tool : Option Tool} {default : Option Form}
    {form : Form} (holds : form ∈ (path.resolve tool default).form) :
    form ∈ path.form ∨ form ∈ default := by
  have either : path.form.or default = some form := by
    rw [Option.or_eq_orElse]
    exact holds
  exact (Option.or_eq_some_iff.mp either).imp_right And.right

namespace Leg

theorem mem_latest {previous : Option Path} {legs : List Leg} {path : Path}
    (last : path ∈ latest previous legs) : path ∈ previous ∨ path ∈ legs.map (·.path) := by
  induction legs generalizing previous with
  | nil => exact .inl last
  | cons leg rest ih =>
      rcases ih last with here | later
      · cases here
        exact .inr List.mem_cons_self
      · exact .inr (List.mem_cons_of_mem _ later)

private theorem source_of_mem_ofPasses {heading : Option String} {previous : Option Path}
    {passes : List Path} {leg : Leg} (member : leg ∈ ofPasses heading previous passes)
    {source : Path} (before : source ∈ leg.source) : source ∈ previous ∨ source ∈ passes := by
  induction passes generalizing heading previous with
  | nil => cases member
  | cons pass rest ih =>
      rcases List.mem_cons.mp member with rfl | later
      · exact .inl before
      · rcases ih later with here | onward
        · cases here
          exact .inr List.mem_cons_self
        · exact .inr (List.mem_cons_of_mem _ onward)

private theorem source_of_mem_ofOperations {previous : Option Path} {operations : List Prepared}
    {leg : Leg} (member : leg ∈ ofOperations previous operations) {source : Path}
    (before : source ∈ leg.source) :
    source ∈ previous ∨ source ∈ operations.flatMap (·.passes) := by
  induction operations generalizing previous with
  | nil => cases member
  | cons operation rest ih =>
      rw [List.flatMap_cons, List.mem_append]
      rcases List.mem_append.mp member with here | later
      · exact (source_of_mem_ofPasses here before).imp_right .inl
      · rcases ih later with last | onward
        · rcases mem_latest last with earlier | passed
          · exact .inl earlier
          · rw [paths_ofPasses] at passed
            exact .inr (.inl passed)
        · exact .inr (.inr onward)

end Leg

namespace Instruction

variable {instruction : Instruction} {machine : Machine}

/-- Each leg leads away from a path of the program. -/
theorem Plan.source_of_mem_legs (plan : instruction.Plan machine) {leg : Leg}
    (member : leg ∈ plan.legs) {source : Path} (before : source ∈ leg.source) :
    source ∈ plan.paths := by
  have opened : ∀ {path}, path ∈ plan.opening.map (·.path) → path ∈ plan.paths := by
    intro path inside
    rw [← plan.paths_legs, plan.legs_eq, List.map_append]
    exact List.mem_append_left _ inside
  rcases List.mem_append.mp member with opening | closing
  · rcases List.mem_append.mp opening with first | later
    · obtain ⟨path, _, rfl⟩ := List.mem_map.mp first
      cases before
    · rw [mem_paths]
      rcases Leg.source_of_mem_ofOperations later before with start | passed
      · exact .inl start
      · exact .inr (.inl (List.mem_flatMap.mp passed))
  · obtain ⟨path, _, rfl⟩ := List.mem_map.mp closing
    rcases Leg.mem_latest before with impossible | inside
    · cases impossible
    · exact opened inside

theorem mem_mentions {form : Form} :
    form ∈ instruction.mentions ↔ form ∈ instruction.form ∨
      (∃ operation ∈ instruction.operations,
        form ∈ operation.form ∨ ∃ path ∈ operation.paths, form ∈ path.form) ∨
      ∃ path, (path ∈ instruction.start ∨ path ∈ instruction.finish) ∧ form ∈ path.form := by
  simp [mentions, or_and_right, exists_or, Option.bind_eq_some_iff]

theorem form_of_supplied {operation : Operation} (listed : operation ∈ instruction.operations)
    {given : Path} (owned : given ∈ operation.paths) {form : Form}
    (holds : form ∈ (instruction.supplied operation given).form) : form ∈ instruction.mentions := by
  rw [mem_mentions]
  rcases Path.form_of_mem_resolve holds with own | filled
  · exact .inr (.inl ⟨operation, listed, .inr ⟨given, owned, own⟩⟩)
  · cases shared : operation.form with
    | none =>
        rw [shared] at filled
        exact .inl filled
    | some other =>
        rw [shared] at filled
        exact .inr (.inl ⟨operation, listed, .inl (shared ▸ filled)⟩)

theorem form_of_resolveEnd {given : Path}
    (place : given ∈ instruction.start ∨ given ∈ instruction.finish) {form : Form}
    (holds : form ∈ (instruction.resolveEnd given).form) : form ∈ instruction.mentions := by
  rw [mem_mentions]
  unfold resolveEnd at holds
  dsimp only at holds
  split at holds
  · rcases Path.form_of_mem_resolve holds with own | default
    · exact .inr (.inr ⟨given, place, own⟩)
    · exact .inl default
  · next first _ operations =>
      rcases Path.form_of_mem_resolve holds with early | filled
      · rcases Path.form_of_mem_resolve early with own | default
        · exact .inr (.inr ⟨given, place, own⟩)
        · exact .inl default
      · exact .inr (.inl ⟨first, by simp [operations], .inl filled⟩)

theorem form_of_prepareEnd {given : Option Path}
    (place : given = instruction.start ∨ given = instruction.finish) {prepared : Path}
    (found : instruction.prepareEnd machine given = .ok (some prepared)) {form : Form}
    (holds : form ∈ prepared.form) : form ∈ instruction.mentions := by
  have among : ∀ path, given = some path → path ∈ instruction.start ∨ path ∈ instruction.finish := by
    rintro path rfl
    exact place.imp Eq.symm Eq.symm
  cases writtenEnd_of_prepareEnd found with
  | plain path => exact form_of_resolveEnd (among path rfl) holds
  | joined path => exact form_of_resolveEnd (among path rfl) holds

/-- The stock of every path of a program is mentioned in the instruction. -/
theorem Plan.form_of_mem_paths (plan : instruction.Plan machine) {path : Path}
    (written : path ∈ plan.paths) {form : Form} (holds : form ∈ path.form) :
    form ∈ instruction.mentions := by
  rcases mem_paths.mp written with first | ⟨prepared, listed, passed⟩ | last
  · exact form_of_prepareEnd (.inl rfl) (plan.before.trans (by rw [first])) holds
  · obtain ⟨operation, known, _, passes⟩ := source_of_mem_prepareOperations plan.prepared listed
    obtain ⟨given, owned, source, outcome, either, became, member⟩ := passes path passed
    obtain ⟨points, rfl⟩ := Path.along_of_mem_prepare became member
    change form ∈ source.form at holds
    rcases either with rfl | rfl
    · exact mem_mentions.mpr (.inr (.inl ⟨operation, known, .inr ⟨source, owned, holds⟩⟩))
    · exact form_of_supplied known owned holds
  · exact form_of_prepareEnd (.inr rfl) (plan.after.trans (by rw [last])) holds

end Instruction

/-! ## Where compiling gets stuck -/

/-- Whether the way of a leg asks something of the stock that has no answer. -/
def Leg.Stuck (machine : Machine) (leg : Leg) (source : Path) (fault : Fault) : Prop :=
  ∃ last first tool form, leg.source = some source ∧ source.points.getLast? = some last ∧
    leg.path.points.head? = some first ∧ leg.path.context = .ok (tool, form) ∧
    let forms := Route.stocks source.form form
    Route.inMaterial forms last.position first.position tool.effectiveTolerance = false ∧
      Route.between machine tool forms last first = .error (.fault fault)

theorem Machine.stuck_of_writeLeg {machine : Machine} {program : Program} {leg : Leg}
    {cause : CompileError} (failed : machine.writeLeg program leg = .error cause)
    (unanswered : cause.isFault = true) :
    ∃ source fault, leg.Stuck machine source fault ∧
      cause = .transition (.route source.name leg.path.name (.fault fault)) := by
  rcases bind_eq_error.mp failed with unreached | ⟨reached, _, uncut⟩
  · obtain ⟨original, stopped, rfl⟩ := mapError_eq_error.mp unreached
    unfold writeTransition at stopped
    split at stopped
    · next last first ends begins =>
        obtain ⟨source, before, lastly⟩ := Option.bind_eq_some_iff.mp ends
        rcases bind_eq_error.mp stopped with lacking | ⟨⟨tool, form⟩, known, later⟩
        · obtain ⟨_, _, rfl⟩ := mapError_eq_error.mp lacking
          cases unanswered
        · dsimp only at later
          split at later
          · split at later <;> cases later
          · next outside =>
              rcases bind_eq_error.mp later with unrouted | ⟨_, _, impossible⟩
              · obtain ⟨reason, nowhere, rfl⟩ := mapError_eq_error.mp unrouted
                rw [before] at nowhere outside
                cases reason with
                | noClearLine | noSafeTurn => cases unanswered
                | fault fault =>
                    refine ⟨source, fault, ⟨last, first, tool, form, before, lastly, begins,
                      mapError_eq_ok.mp known, by simpa using outside, nowhere⟩, ?_⟩
                    rw [before]
                    rfl
              · cases impossible
    · cases stopped
  · obtain ⟨original, _, rfl⟩ := mapError_eq_error.mp uncut
    cases unanswered

/-- Only a block that one of the two paths is cut from gets a leg stuck. -/
theorem Leg.Stuck.exists_block {machine : Machine} {leg : Leg} {source : Path} {fault : Fault}
    (stuck : leg.Stuck machine source fault) :
    ∃ form, (form ∈ source.form ∨ form ∈ leg.path.form) ∧ form.isBlock = true := by
  obtain ⟨last, first, tool, target, _, _, _, known, _, nowhere⟩ := stuck
  obtain ⟨form, member, block⟩ := Route.isBlock_of_between nowhere
  have held : leg.path.form = some target := (Path.context_eq_ok.mp known).2
  refine ⟨form, ?_, block⟩
  unfold Route.stocks at member
  split at member
  · rw [List.mem_singleton.mp member]
    exact .inr held
  · next own =>
      split at member
      · rw [List.mem_singleton.mp member]
        exact .inl own
      · rcases List.mem_cons.mp member with rfl | later
        · exact .inl own
        · rw [List.mem_singleton.mp later]
          exact .inr held

namespace Instruction

/-- The steps of compiling that may find no answer: expanding a path of an operation or a motion
before or after the operations into its passes, and finding a way. -/
inductive Stuck (instruction : Instruction) (machine : Machine) : CompileError → Prop where
  | operation {operation : Operation} {given : Path} {fault : Fault} :
      operation ∈ instruction.operations → given ∈ operation.paths → given.isInvalid = false →
      given.additions.asksStock = true →
      (instruction.supplied operation given).passes machine = .error (.fault fault) →
      Stuck instruction machine (.operation operation.name (.fault fault))
  | ends {given : Path} {fault : Fault} :
      given ∈ instruction.start ∨ given ∈ instruction.finish →
      given.additions.asksStock = true →
      (instruction.resolveEnd given).passes machine = .error (.fault fault) →
      Stuck instruction machine (.ends (.fault fault))
  | way (plan : instruction.Plan machine) {leg : Leg} {source : Path} {fault : Fault} :
      leg ∈ plan.legs → leg.Stuck machine source fault →
      Stuck instruction machine (.transition (.route source.name leg.path.name (.fault fault)))

variable {instruction : Instruction} {machine : Machine} {cause : CompileError}

private theorem stuck_of_prepareOperations
    (failed : instruction.prepareOperations machine = .error cause)
    (unanswered : cause.isFault = true) : instruction.Stuck machine cause := by
  rcases bind_eq_error.mp failed with lacking | ⟨resolved, filled, later⟩
  · obtain ⟨_, _, rfl⟩ := resolveOperations_eq_error.mp lacking
    cases unanswered
  · obtain ⟨earlier, equipped, rest, whole, _, stopped⟩ := mapM_eq_error.mp later
    obtain ⟨original, here, rfl⟩ := mapError_eq_error.mp stopped
    rcases bind_eq_error.mp here with inside | ⟨_, _, impossible⟩
    · obtain ⟨before, path, after, paths, _, broken⟩ := mapM_eq_error.mp inside
      have listed : equipped ∈ instruction.operations.map instruction.equip := by
        rw [← resolved_eq filled, whole]
        simp
      obtain ⟨operation, known, rfl⟩ := List.mem_map.mp listed
      have owned : path ∈ operation.paths.map (instruction.supplied operation) := by
        change path ∈ (instruction.equip operation).paths
        rw [paths]
        simp
      obtain ⟨given, member, rfl⟩ := List.mem_map.mp owned
      obtain ⟨valid, _, stuck⟩ := Path.prepare_eq_error broken
      -- Filling in what a path lacks leaves its name, points and additions alone.
      cases original with
      | fault fault =>
          have asks := Path.asks_of_passes stuck
          have checked : given.isInvalid = false := (Path.isInvalid_resolve _ _ _).symm.trans valid
          change instruction.Stuck machine (.operation operation.name (.fault fault))
          exact .operation known member checked asks stuck
      | context | noPoints | collapsed => cases unanswered
    · cases impossible

theorem stuck_of_prepareEnd {given : Option Path}
    (place : given = instruction.start ∨ given = instruction.finish)
    (failed : instruction.prepareEnd machine given = .error cause)
    (unanswered : cause.isFault = true) : instruction.Stuck machine cause := by
  unfold prepareEnd at failed
  split at failed
  · cases failed
  · next path =>
      split at failed
      · cases failed
      · rcases bind_eq_error.mp failed with lacking | ⟨_, _, later⟩
        · obtain ⟨_, _, rfl⟩ := mapError_eq_error.mp lacking
          cases unanswered
        · split at later
          · cases later
          · rcases bind_eq_error.mp later with stopped | ⟨_, _, impossible⟩
            · obtain ⟨original, stuck, rfl⟩ := mapError_eq_error.mp stopped
              cases original with
              | fault fault =>
                  refine .ends (place.imp Eq.symm Eq.symm) ?_ stuck
                  rw [← instruction.additions_resolveEnd path]
                  exact Path.asks_of_passes stuck
              | context | noPoints | collapsed => cases unanswered
            · cases impossible

/-- Compiling fails with an unanswered query only in one of the steps that ask the stock. -/
theorem stuck_of_compile (known : instruction.machine = some machine) {ignore : List String}
    (failed : instruction.compile ignore = .error cause) (unanswered : cause.isFault = true) :
    instruction.Stuck machine cause := by
  rw [compile_eq known] at failed
  rcases bind_eq_error.mp failed with unprepared | ⟨operations, prepared, failed⟩
  · exact stuck_of_prepareOperations unprepared unanswered
  · rcases bind_eq_error.mp failed with unprepared | ⟨start, before, failed⟩
    · exact stuck_of_prepareEnd (.inl rfl) unprepared unanswered
    · rcases bind_eq_error.mp failed with unprepared | ⟨finish, after, failed⟩
      · exact stuck_of_prepareEnd (.inr rfl) unprepared unanswered
      · rcases bind_eq_error.mp failed with unwritten | ⟨_, _, impossible⟩
        · obtain ⟨program, leg, member, stopped⟩ := Machine.writeLegs_eq_error unwritten
          obtain ⟨source, fault, stuck, rfl⟩ := Machine.stuck_of_writeLeg stopped unanswered
          exact .way ⟨operations, start, finish, prepared, before, after⟩ member stuck
        · cases impossible

/-- Whatever step gets stuck, a block is behind it that the instruction mentions. -/
theorem Stuck.exists_block (stuck : instruction.Stuck machine cause) :
    ∃ form ∈ instruction.mentions, form.isBlock = true := by
  cases stuck with
  | operation listed owned _ _ failed =>
      obtain ⟨form, holds, block⟩ := Path.isBlock_of_passes failed
      exact ⟨form, form_of_supplied listed owned holds, block⟩
  | ends place _ failed =>
      obtain ⟨form, holds, block⟩ := Path.isBlock_of_passes failed
      exact ⟨form, form_of_resolveEnd place holds, block⟩
  | @way plan leg source fault member stuck =>
      obtain ⟨form, own | other, block⟩ := stuck.exists_block
      · obtain ⟨_, _, _, _, before, _⟩ := stuck
        exact ⟨form, plan.form_of_mem_paths (plan.source_of_mem_legs member before) own, block⟩
      · have written : leg.path ∈ plan.paths := by
          rw [← plan.paths_legs]
          exact List.mem_map_of_mem member
        exact ⟨form, plan.form_of_mem_paths written other, block⟩

/-- When compiling meets a query without an answer. Such a query is met only while a path is expanded
that asks for it or while a way is found, and only with a block; without blocks compiling ends with a
program or with an error that it reports. A block answers exactly if some face that does not look along
the line is at a distance that can be compared. It does so for rays of moderate numbers, and for
segments of them that are not head on to all faces. -/
theorem compile_faults (instruction : Instruction) (ignore : List String) :
    (∀ cause, instruction.compile ignore = .error cause → cause.isFault = true →
      ∃ machine, instruction.machine = some machine ∧ instruction.Stuck machine cause ∧
        ∃ form ∈ instruction.mentions, form.isBlock = true) ∧
    ((∀ form ∈ instruction.mentions, form.isBlock = false) →
      (∃ program, instruction.compile ignore = .ok program) ∨
        instruction.compile ignore = .error .noMachine ∨
        ∃ machine cause, instruction.machine = some machine ∧
          instruction.compile ignore = .error cause ∧ instruction.Failure machine cause) ∧
    (∀ (box : Stock.Box) (tolerance : Float) (q line : Vec),
      (∃ way, box.wayOut tolerance q line = .ok way) ↔
        ∃ face ∈ box.faces tolerance q,
          Stock.followsLine line face.1 = false ∧ Stock.faceDistance face < Scalar.infinity) ∧
    (∀ (form : Form) (box : Stock.Box) (tolerance : Float), form.shape = .box box → box.Moderate →
      form.clearance.Moderate → Doubles.Fits 49 tolerance →
      (∀ p direction : Vec, p.Within 47 → direction.Within 187 →
        ∃ passage, form.castRay p direction tolerance = .ok passage) ∧
      ∀ a b : Vec, a.Within 47 → b.Within 47 →
        (∃ axis ∈ box.axes,
          Stock.followsLine ((b - a).shrink (b - a).length) axis = false) →
        ∃ answer, form.castSegment a b tolerance = .ok answer) := by
  have found : ∀ cause, instruction.compile ignore = .error cause → cause.isFault = true →
      ∃ machine, instruction.machine = some machine ∧ instruction.Stuck machine cause ∧
        ∃ form ∈ instruction.mentions, form.isBlock = true := by
    intro cause failed unanswered
    cases known : instruction.machine with
    | none =>
        rw [compile_of_no_machine known] at failed
        cases failed
        cases unanswered
    | some machine =>
        have stuck := stuck_of_compile known failed unanswered
        exact ⟨machine, rfl, stuck, stuck.exists_block⟩
  refine ⟨found, ?_, fun box tolerance q line => Stock.Box.exists_wayOut_iff, ?_⟩
  · intro round
    cases compiled : instruction.compile ignore with
    | ok program => exact .inl ⟨program, rfl⟩
    | error cause =>
        cases known : instruction.machine with
        | none =>
            rw [compile_of_no_machine known] at compiled
            exact .inr (.inl compiled.symm)
        | some machine =>
            rcases failure_of_compile known compiled with unanswered | failure
            · obtain ⟨_, _, _, form, mentioned, block⟩ := found cause compiled unanswered
              rw [round form mentioned] at block
              cases block
            · exact .inr (.inr ⟨machine, cause, rfl, rfl, failure⟩)
  · intro form box tolerance block moderate kept fits
    refine ⟨?_, ?_⟩
    · intro p direction origin slant
      exact moderate.exists_castRay block kept origin slant fits
    · intro a b first second across
      exact moderate.exists_castSegment block kept first second fits across

/-- Two paths of one point each, whose distance from each other is no number. -/
def farApart (form : Form) : Instruction :=
  { name := "job"
    machine := some ⟨{ commentStart := "(", commentEnd := ")" }, .vertical⟩
    operations :=
      [{ name := "face"
         paths :=
          [{ name := "left", points := [Point.make ⟨-1e308, 0, 5⟩ Vec.zAxis] },
            { name := "right", points := [Point.make ⟨1e308, 0, 5⟩ Vec.zAxis] }] }]
    tool := some { identity := 0, name := "mill", number := 1, tip := .square, width := 2 }
    form := some form }

/-- A rod with a safe distance of one. -/
def lowRod : Form :=
  { identity := 0
    clearance := ⟨1, 0⟩
    shape := .cylinder { base := Vec.zero, axis := Vec.zAxis, height := 2, radius := 2 } }

def causeOf? {ε α : Type} : Except ε α → Option ε
  | .error cause => some cause
  | .ok _ => none

private theorem eq_error_of_causeOf? {ε α : Type} {result : Except ε α} {cause : ε}
    (found : causeOf? result = some cause) : result = .error cause := by
  cases result with
  | error other => rw [Option.some.inj found]
  | ok _ => cases found

theorem compile_farApart :
    (farApart Route.lowBlock).compile [] =
      .error (.transition (.route "left" "right" (.fault .noFace))) :=
  eq_error_of_causeOf? (by decide +kernel)

theorem compile_faults_farApart :
    (∃ machine, (farApart Route.lowBlock).machine = some machine ∧
      (farApart Route.lowBlock).Stuck machine
        (.transition (.route "left" "right" (.fault .noFace)))) ∧
    ((∃ program, (farApart lowRod).compile [] = .ok program) ∨
      (farApart lowRod).compile [] = .error .noMachine ∨
      ∃ machine cause, (farApart lowRod).machine = some machine ∧
        (farApart lowRod).compile [] = .error cause ∧ (farApart lowRod).Failure machine cause) ∧
    (∃ passage, Route.lowBlock.castRay ⟨-8, 1, 0⟩ ⟨2, 0, 0⟩ 0.25 = .ok passage) ∧
    ∃ answer, Route.lowBlock.castSegment ⟨-8, 1, 0⟩ ⟨8, 1, 0⟩ 0.25 = .ok answer := by
  obtain ⟨found, _, _, answered⟩ := compile_faults (farApart Route.lowBlock) []
  obtain ⟨machine, known, stuck, _⟩ := found _ compile_farApart rfl
  have block : Route.lowBlock.shape = .box
      { center := Vec.zero, xAxis := Vec.xAxis, yAxis := Vec.yAxis, size := ⟨4, 4, 4⟩ } := rfl
  obtain ⟨rays, segments⟩ := answered Route.lowBlock _ 0.25 block
    ⟨⟨trivial, trivial, trivial⟩, ⟨⟨by decide, by decide⟩, ⟨by decide, by decide⟩, ⟨by decide, by decide⟩⟩,
      ⟨⟨by decide, by decide⟩, trivial, trivial⟩, ⟨trivial, ⟨by decide, by decide⟩, trivial⟩⟩
    ⟨⟨by decide, by decide⟩, trivial⟩ ⟨by decide, by decide⟩
  refine ⟨⟨machine, known, stuck⟩, ?_, ?_, ?_⟩
  · refine (compile_faults (farApart lowRod) []).2.1 ?_
    intro form mentioned
    cases List.mem_singleton.mp mentioned
    rfl
  · exact rays _ _ ⟨⟨by decide, by decide⟩, ⟨by decide, by decide⟩, trivial⟩
      ⟨⟨by decide, by decide⟩, trivial, trivial⟩
  · refine segments _ _ ⟨⟨by decide, by decide⟩, ⟨by decide, by decide⟩, trivial⟩
      ⟨⟨by decide, by decide⟩, ⟨by decide, by decide⟩, trivial⟩ ⟨Vec.yAxis, ?_, by decide +kernel⟩
    exact List.mem_cons_of_mem _ List.mem_cons_self

/-- Two valid paths above a block, and still a query without an answer. -/
theorem farApart_unanswered :
    (∀ operation ∈ (farApart Route.lowBlock).operations, ∀ path ∈ operation.paths,
      path.validate = []) ∧
    (farApart Route.lowBlock).compile [] =
      .error (.transition (.route "left" "right" (.fault .noFace))) :=
  ⟨by decide +kernel, compile_farApart⟩

end Instruction

end Kerf
