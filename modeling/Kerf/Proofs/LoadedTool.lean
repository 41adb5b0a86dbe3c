import Kerf.Proofs.ClearRoute
import Kerf.Proofs.Legs

/-!
# The loaded tool

Which tool is loaded while the paths of a program are cut. Nothing but a change of tool touches its
register, so what is loaded is the tool of the last leg that changes it.

Main statement: every path up to the end of the operations is cut with its own tool from the first to
the last act, and the motion after the operations with the tool of the path before it, whatever its
own tool is.
-/

set_option autoImplicit false

namespace Kerf

/-- The number of the tool that was last changed to. -/
def Program.loaded (program : Program) : Option String := program.registers.get? "T"

def Path.toolNumber (path : Path) : Option String := path.tool.map fun tool => toString tool.number

theorem Path.Writable.exists_tool {path : Path} (writable : path.Writable) :
    ∃ tool, path.tool = some tool := by
  obtain ⟨⟨tool, form⟩, ready⟩ := writable.ready
  exact ⟨tool, (Path.context_eq_ok.mp (Path.ready_eq_ok.mp ready).1).1⟩

def Act.isToolChange : Act → Bool
  | .toolChange _ => true
  | _ => false

namespace Machine

/-! ## Acts -/

/-- A move touches no letters but its own. -/
theorem get?_writeMove_of_not_mem {letter : String} (other : letter ∉ "G" :: "F" :: "S" :: axisWords)
    (machine : Machine) (program : Program) (tool : Option Tool) (point : Point)
    (values : AxisValues) :
    (machine.writeMove program tool point values).registers.get? letter =
      program.registers.get? letter := by
  simp only [List.mem_cons, not_or] at other
  obtain ⟨notG, notF, notS, notAxis⟩ := other
  have moved := (motionWords_spec machine program (effectiveFeed tool point == 0) values).others
    letter (by simp [notG, notAxis])
  rw [registers_writeMove, ← moved]
  exact (get?_addWanted_of_ne notS).trans (get?_addWanted_of_ne notF)

theorem loaded_writeRaw (program : Program) (block : String) :
    (program.writeRaw block).loaded = program.loaded := by
  unfold Program.writeRaw Program.loaded
  split
  · rfl
  · rw [Program.get?_forget, if_neg (by decide)]
    rfl

private theorem loaded_writeToolChange (machine : Machine) (program : Program) (tool : Tool) :
    (machine.writeToolChange program (some tool)).loaded = some (toString tool.number) := by
  have inForce : (program.word "T" (toString tool.number)).1.loaded =
      some (toString tool.number) := by
    rw [Program.loaded, Program.get?_word, if_pos rfl]
  have kept : ∀ changed : Program, (changed.forget ["S"]).loaded = changed.loaded := by
    intro changed
    rw [Program.loaded, Program.get?_forget, if_neg (by decide), Program.loaded]
  rcases machine.writeToolChange_cases program tool with
    ⟨held, same⟩ | ⟨_, _, changed⟩ | ⟨_, _, remark, changed⟩
  · rw [same]
    exact held
  · rw [changed, kept, inForce]
  · rw [changed, kept, loaded_writeRaw]
    exact inForce

variable {act : Act} {machine : Machine} {leg : Leg}

private theorem loaded_perform (other : act.isToolChange = false) (machine : Machine)
    (program : Program) : (machine.perform program act).loaded = program.loaded := by
  cases act with
  | toolChange tool => cases other
  | raw block => exact loaded_writeRaw program block
  | note warnings errors => rfl
  | move tool point values =>
      exact get?_writeMove_of_not_mem (by decide) machine program tool point values

theorem loaded_performAll {acts : List Act} (others : ∀ act ∈ acts, act.isToolChange = false)
    (machine : Machine) (program : Program) :
    (machine.performAll program acts).loaded = program.loaded := by
  induction acts generalizing program with
  | nil => rfl
  | cons act acts ih =>
      obtain ⟨here, later⟩ := List.forall_mem_cons.mp others
      rw [performAll_cons, ih later, loaded_perform here]

theorem isToolChange_of_mem_pointActs {tool : Option Tool} {warned : Bool}
    {targets : List (Point × AxisValues)} (member : act ∈ machine.pointActs tool warned targets) :
    act.isToolChange = false := by
  induction targets generalizing warned with
  | nil => cases member
  | cons head rest ih =>
      rcases List.mem_append.mp member with here | later
      · simp only [List.mem_cons, List.not_mem_nil, or_false] at here
        rcases here with rfl | rfl | rfl | rfl <;> rfl
      · exact ih later

theorem isToolChange_of_mem_pathActs {rotary : Rotary.Setting} {path : Path}
    (member : act ∈ machine.pathActs rotary path) : act.isToolChange = false := by
  unfold pathActs at member
  cases ready : path.ready with
  | error cause =>
      rw [ready] at member
      cases member
  | ok context =>
      rw [ready] at member
      rcases List.mem_append.mp member with front | last
      · rcases List.mem_cons.mp front with rfl | inside
        · rfl
        · cases axes : machine.kinematics with
          | planar =>
              rw [axes] at inside
              rcases List.mem_append.mp inside with lit | off
              · rcases List.mem_cons.mp lit with rfl | moving
                · rfl
                · exact isToolChange_of_mem_pointActs moving
              · rw [List.mem_singleton.mp off]
                rfl
          | vertical =>
              rw [axes] at inside
              exact isToolChange_of_mem_pointActs inside
          | table limits pivot =>
              rw [axes] at inside
              exact isToolChange_of_mem_pointActs inside
      · rw [List.mem_singleton.mp last]
        rfl

theorem isToolChange_of_mem_transitionActs {rotary : Rotary.Setting} {source : Option Path}
    {target : Path} {entry : Bool}
    (member : act ∈ machine.transitionActs rotary source target entry) :
    act.isToolChange = false := by
  obtain ⟨notes, silent, acts⟩ := machine.transitionActs_eq rotary source target entry
  rw [acts] at member
  rcases List.mem_append.mp member with noted | moving
  · obtain ⟨errors, rfl⟩ := silent act noted
    rfl
  · exact isToolChange_of_mem_pointActs moving

/-! ## Legs -/

private theorem loaded_openLeg (machine : Machine) (program : Program) {tool : Tool}
    (known : leg.path.tool = some tool) : (machine.openLeg program leg).loaded =
      if leg.changesTool then some (toString tool.number) else program.loaded := by
  have headed : (machine.writeHeading program leg.heading).loaded = program.loaded := by
    obtain ⟨entries, frame⟩ := machine.writeHeading_frame program leg.heading
    rw [frame]
    rfl
  unfold openLeg
  rw [known]
  dsimp only
  split
  · exact machine.loaded_writeToolChange _ tool
  · exact headed

private theorem loaded_reachLeg {before reached : Program}
    (way : machine.reachLeg before leg = .ok reached) :
    reached.loaded = (machine.openLeg before leg).loaded := by
  rw [reachLeg_eq way]
  exact loaded_performAll (fun act => isToolChange_of_mem_transitionActs) machine _

/-- The program at some moment of cutting the path of a leg, when legs are written. -/
def Cutting (machine : Machine) (program : Program) (legs : List Leg) (leg : Leg)
    (moment : Program) : Prop :=
  ∃ front back before reached past future, legs = front ++ leg :: back ∧
    machine.writeLegs program front = .ok before ∧ machine.reachLeg before leg = .ok reached ∧
    machine.pathActs reached.rotary leg.path = past ++ future ∧
    moment = machine.performAll reached past

/-- A path is cut with its own tool if its leg changes to that, and otherwise with the tool that was
loaded before. -/
theorem loaded_of_pathActs {before reached : Program} {tool : Tool}
    (known : leg.path.tool = some tool) (way : machine.reachLeg before leg = .ok reached)
    {past future : List Act} (acts : machine.pathActs reached.rotary leg.path = past ++ future) :
    (machine.performAll reached past).loaded =
      if leg.changesTool then some (toString tool.number) else before.loaded := by
  have cutting : ∀ act ∈ past, act.isToolChange = false := by
    intro act member
    apply isToolChange_of_mem_pathActs
    rw [acts]
    exact List.mem_append_left _ member
  rw [loaded_performAll cutting, loaded_reachLeg way, machine.loaded_openLeg before known]

/-- After legs that change to their tools, the tool of the last path is loaded. -/
theorem loaded_writeLegs {program after : Program} {legs : List Leg}
    (writable : ∀ leg ∈ legs, leg.path.Writable) (changes : ∀ leg ∈ legs, leg.changesTool = true)
    {previous : Option Path} (loaded : program.loaded = previous.bind (·.toolNumber))
    (written : machine.writeLegs program legs = .ok after) :
    after.loaded = (Leg.latest previous legs).bind (·.toolNumber) := by
  induction legs generalizing program previous with
  | nil =>
      cases written
      exact loaded
  | cons leg rest ih =>
      obtain ⟨first, later⟩ := List.forall_mem_cons.mp writable
      obtain ⟨change, onward⟩ := List.forall_mem_cons.mp changes
      obtain ⟨tool, known⟩ := first.exists_tool
      rw [writeLegs_cons] at written
      obtain ⟨cut, here, rested⟩ := bind_eq_ok.mp written
      obtain ⟨reached, way, prepared⟩ := bind_eq_ok.mp here
      have acts := (List.append_nil (machine.pathActs reached.rotary leg.path)).symm
      have moment := loaded_of_pathActs known way acts
      rw [← writePrepared_eq prepared, if_pos change] at moment
      have own : cut.loaded = (some leg.path).bind (·.toolNumber) := by
        rw [moment, Option.bind_some, Path.toolNumber, known]
        rfl
      exact ih later onward own rested

end Machine

namespace Leg

private theorem changesTool_of_mem_ofPasses {heading : Option String} {previous : Option Path}
    {passes : List Path} {leg : Leg} (member : leg ∈ ofPasses heading previous passes) :
    leg.changesTool = true := by
  induction passes generalizing heading previous with
  | nil => cases member
  | cons pass rest ih =>
      rcases List.mem_cons.mp member with rfl | later
      · rfl
      · exact ih later

private theorem changesTool_of_mem_ofOperations {previous : Option Path} {operations : List Prepared}
    {leg : Leg} (member : leg ∈ ofOperations previous operations) : leg.changesTool = true := by
  induction operations generalizing previous with
  | nil => cases member
  | cons operation rest ih =>
      rcases List.mem_append.mp member with here | later
      · exact changesTool_of_mem_ofPasses here
      · exact ih later

theorem changesTool_of_mem_opening {start : Option Path} {operations : List Prepared} {leg : Leg}
    (member : leg ∈ opening start operations) : leg.changesTool = true := by
  rcases List.mem_append.mp member with first | later
  · obtain ⟨path, _, rfl⟩ := List.mem_map.mp first
    rfl
  · exact changesTool_of_mem_ofOperations later

/-- Whether a leg changes the tool, and the tools of the path before it and of its own. -/
def tools (leg : Leg) : Bool × Option String × Option String :=
  (leg.changesTool, leg.source.bind (·.toolNumber), leg.path.toolNumber)

end Leg

/-! ## Compiling -/

namespace Instruction

variable {instruction : Instruction} {machine : Machine} {ignore : List String}

private theorem loaded_heading (instruction : Instruction) (machine : Machine)
    (ignore : List String) : (instruction.heading machine ignore).loaded = none := by
  unfold heading Machine.writeHeader
  dsimp only
  split <;> split <;> rfl

namespace Plan

theorem exists_cutting (plan : instruction.Plan machine) {program : Program}
    (writes : plan.Writes ignore program) {leg : Leg} (member : leg ∈ plan.legs) :
    ∃ moment, machine.Cutting (instruction.heading machine ignore) plan.legs leg moment := by
  obtain ⟨written, legs, _⟩ := writes
  obtain ⟨front, back, whole⟩ := List.append_of_mem member
  rw [whole] at legs
  obtain ⟨before, reached, _, earlier, way, _, _⟩ := Machine.writeLegs_split legs
  exact ⟨reached, front, back, before, reached, [], _, whole, earlier, way, rfl, rfl⟩

theorem loaded_of_mem_opening (plan : instruction.Plan machine) {leg : Leg}
    (member : leg ∈ plan.opening) {moment : Program}
    (cutting : machine.Cutting (instruction.heading machine ignore) plan.legs leg moment) :
    moment.loaded = leg.path.toolNumber := by
  obtain ⟨front, back, before, reached, past, future, _, _, way, acts, rfl⟩ := cutting
  obtain ⟨tool, known⟩ := (plan.writable_of_mem_legs (List.mem_append_left _ member)).exists_tool
  rw [Machine.loaded_of_pathActs known way acts, if_pos (Leg.changesTool_of_mem_opening member),
    Path.toolNumber, known]
  rfl

private theorem mem_closing_of_keeps (plan : instruction.Plan machine) {leg : Leg}
    (member : leg ∈ plan.legs) (keeps : leg.changesTool = false) : leg ∈ plan.closing := by
  rcases List.mem_append.mp member with opening | closing
  · have changes := Leg.changesTool_of_mem_opening opening
    rw [keeps] at changes
    cases changes
  · exact closing

/-- Before the motion after the operations all other legs have been written. -/
theorem eq_opening_of_closing (plan : instruction.Plan machine) {leg : Leg}
    (member : leg ∈ plan.closing) {front back : List Leg}
    (whole : plan.legs = front ++ leg :: back) : front = plan.opening := by
  obtain ⟨path, given, rfl⟩ := mem_closing.mp member
  rw [legs_eq, closing, Option.mem_def.mp given] at whole
  rcases List.append_eq_append_iff.mp whole with ⟨middle, same, tail⟩ | ⟨middle, same, tail⟩
  · cases middle with
    | nil => rw [same, List.append_nil]
    | cons first rest => simp [Leg.closing] at tail
  · cases middle with
    | nil => rw [same, List.append_nil]
    | cons first rest =>
        -- The leg would be one of those that change the tool.
        rw [List.cons_append, List.cons.injEq] at tail
        have listed : first ∈ plan.opening := by simp [same]
        have changes := Leg.changesTool_of_mem_opening listed
        rw [← tail.1] at changes
        cases changes

/-- The motion after the operations takes over the tool of the path before it. -/
theorem loaded_of_mem_closing (plan : instruction.Plan machine) {leg : Leg}
    (member : leg ∈ plan.closing) {moment : Program}
    (cutting : machine.Cutting (instruction.heading machine ignore) plan.legs leg moment) :
    moment.loaded = (Leg.latest none plan.opening).bind (·.toolNumber) := by
  obtain ⟨front, back, before, reached, past, future, whole, earlier, way, acts, rfl⟩ := cutting
  obtain ⟨tool, known⟩ := (plan.writable_of_mem_legs (List.mem_append_right _ member)).exists_tool
  rw [plan.eq_opening_of_closing member whole] at earlier
  obtain ⟨path, _, rfl⟩ := mem_closing.mp member
  rw [Machine.loaded_of_pathActs known way acts, if_neg Bool.false_ne_true]
  refine Machine.loaded_writeLegs ?_ ?_ (instruction.loaded_heading machine ignore) earlier
  · exact fun other listed => plan.writable_of_mem_legs (List.mem_append_left _ listed)
  · exact fun other listed => Leg.changesTool_of_mem_opening listed

theorem exists_cutting_finish (plan : instruction.Plan machine) {program : Program}
    (writes : plan.Writes ignore program) {path : Path} (given : path ∈ plan.finish) :
    ∃ leg moment, machine.Cutting (instruction.heading machine ignore) plan.legs leg moment ∧
      leg.path = path ∧
      moment.loaded = (Leg.latest none plan.opening).bind (·.toolNumber) := by
  have member := mem_closing.mpr ⟨path, given, rfl⟩
  obtain ⟨moment, cutting⟩ := plan.exists_cutting writes (List.mem_append_right _ member)
  exact ⟨_, moment, cutting, rfl, plan.loaded_of_mem_closing member cutting⟩

end Plan

/-- The tools that paths are cut with. Every path of a program has a tool and is cut. The motion
before the operations and all passes are cut with their own tools. The motion after the operations is
cut with the tool of the last path before it, and with none if there is no such path, so that all
paths are cut with their own tools just if that tool is also its own. -/
theorem compile_loads_tools (known : instruction.machine = some machine) {program : Program}
    (compiled : instruction.compile ignore = .ok program) :
    ∃ plan : instruction.Plan machine, plan.Writes ignore program ∧
      let cutting := machine.Cutting (instruction.heading machine ignore) plan.legs
      let last := (Leg.latest none plan.opening).bind (·.toolNumber)
      (∀ leg ∈ plan.legs, (∃ tool, leg.path.tool = some tool) ∧ ∃ moment, cutting leg moment) ∧
      (∀ leg ∈ plan.opening, ∀ moment, cutting leg moment →
        moment.loaded = leg.path.toolNumber) ∧
      (∀ leg ∈ plan.closing, ∀ moment, cutting leg moment → moment.loaded = last) ∧
      ((∀ leg moment, cutting leg moment → moment.loaded = leg.path.toolNumber) ↔
        ∀ path ∈ plan.finish, path.toolNumber = last) := by
  obtain ⟨plan, writes⟩ := exists_plan known compiled
  refine ⟨plan, writes, ?_, ?_, ?_, ?_⟩
  · intro leg member
    exact ⟨(plan.writable_of_mem_legs member).exists_tool, plan.exists_cutting writes member⟩
  · exact fun leg member moment cutting => plan.loaded_of_mem_opening member cutting
  · exact fun leg member moment cutting => plan.loaded_of_mem_closing member cutting
  · constructor
    · intro own path given
      obtain ⟨leg, moment, cutting, rfl, loaded⟩ := plan.exists_cutting_finish writes given
      rw [← own leg moment cutting, loaded]
    · intro same leg moment cutting
      have listed : leg ∈ plan.opening ++ plan.closing := by
        obtain ⟨front, back, _, _, _, _, whole, _⟩ := cutting
        simp [← plan.legs_eq, whole]
      rcases List.mem_append.mp listed with opening | closing
      · exact plan.loaded_of_mem_opening opening cutting
      · obtain ⟨path, given, rfl⟩ := Plan.mem_closing.mp closing
        rw [plan.loaded_of_mem_closing closing cutting, same path given]

/-- A block faced with a mill, and a bore after it that asks for a tool. -/
def facedAndBored (bit : Tool) : Instruction :=
  { name := "job"
    machine := some ⟨{}, .vertical⟩
    operations :=
      [{ name := "face"
         paths :=
          [{ name := "a", points := [Point.make ⟨-1, 0, 5⟩ Vec.zAxis, Point.make ⟨1, 0, 5⟩ Vec.zAxis] }] }]
    finish := some
      { name := "bore"
        points := [Point.make ⟨1, 0, 5⟩ Vec.zAxis, Point.make ⟨1, 0, 4⟩ Vec.zAxis]
        tool := some bit }
    tool := some { identity := 0, name := "mill", number := 1, tip := .square, width := 2 }
    form := some Route.lowBlock }

theorem compile_loads_tools_mill :
    let mill : Tool := { identity := 0, name := "mill", number := 1, tip := .square, width := 2 }
    let machine : Machine := ⟨{}, .vertical⟩
    ∃ program, (facedAndBored mill).compile [] = .ok program ∧
      ∃ plan : (facedAndBored mill).Plan machine, ∀ leg moment,
        machine.Cutting ((facedAndBored mill).heading machine []) plan.legs leg moment →
        moment.loaded = leg.path.toolNumber := by
  intro mill machine
  have succeeds : ((facedAndBored mill).compile []).isOk = true := by decide +kernel
  have tools : ((facedAndBored mill).legs machine).map (·.map Leg.tools) =
      .ok [(true, none, some "1"), (false, some "1", some "1")] := by
    decide +kernel
  obtain ⟨program, compiled⟩ := exists_of_isOk succeeds
  have known : (facedAndBored mill).machine = some machine := rfl
  obtain ⟨plan, _, _, _, _, own⟩ := compile_loads_tools known compiled
  refine ⟨program, compiled, plan, own.mpr ?_⟩
  intro path given
  have member : _ ∈ plan.legs := List.mem_append_right _ (Plan.mem_closing.mpr ⟨path, given, rfl⟩)
  have listed : Leg.tools _ ∈ plan.legs.map Leg.tools := List.mem_map_of_mem member
  rw [plan.map_legs tools] at listed
  obtain ⟨last, finish⟩ : (Leg.latest none plan.opening).bind (·.toolNumber) = some "1" ∧
      path.toolNumber = some "1" := by
    simpa [Leg.tools] using listed
  rw [last, finish]

/-- The bore is cut with the mill although it asks for a drill. -/
theorem bore_cut_with_mill :
    let drill : Tool := { identity := 1, name := "drill", number := 2, tip := .v, width := 1 }
    let machine : Machine := ⟨{}, .vertical⟩
    ∃ program, (facedAndBored drill).compile [] = .ok program ∧
      ∃ (plan : (facedAndBored drill).Plan machine) (leg : Leg) (moment : Program),
        machine.Cutting ((facedAndBored drill).heading machine []) plan.legs leg moment ∧
        leg.path.toolNumber = some "2" ∧ moment.loaded = some "1" := by
  intro drill machine
  have succeeds : ((facedAndBored drill).compile []).isOk = true := by decide +kernel
  have tools : ((facedAndBored drill).legs machine).map (·.map Leg.tools) =
      .ok [(true, none, some "1"), (false, some "1", some "2")] := by
    decide +kernel
  obtain ⟨program, compiled⟩ := exists_of_isOk succeeds
  have known : (facedAndBored drill).machine = some machine := rfl
  obtain ⟨plan, writes⟩ := exists_plan known compiled
  have listed : (false, some "1", some "2") ∈ plan.legs.map Leg.tools := by
    rw [plan.map_legs tools]
    exact .tail _ (.head _)
  obtain ⟨leg, member, same⟩ := List.mem_map.mp listed
  obtain ⟨keeps, last, own⟩ : leg.changesTool = false ∧
      leg.source.bind (·.toolNumber) = some "1" ∧ leg.path.toolNumber = some "2" := by
    simpa [Leg.tools] using same
  obtain ⟨path, given, rfl⟩ := Plan.mem_closing.mp (plan.mem_closing_of_keeps member keeps)
  obtain ⟨leg, moment, cutting, rfl, loaded⟩ := plan.exists_cutting_finish writes given
  exact ⟨program, compiled, plan, leg, moment, cutting, own, loaded.trans last⟩

end Instruction

end Kerf
