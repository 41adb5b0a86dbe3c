import Kerf.Proofs.ClearRoute
import Kerf.Proofs.Legs

/-!
# Switching on and off

A machine with two axes is switched on before each path and off after it. The code that does so is
foreign, so that the place of the tool is unknown after either.

Main statement: on every leg of a program the machine travels to a path while it is off and is
switched on where that travel ends, which need not be where the path begins. The first move of the
path then goes there, with both axes stated, and all others lead from one of its points to the next.
-/

set_option autoImplicit false

namespace Kerf

open Kerf.Program (Word Entry)

/-! ## Places in words -/

/-- The words for the two axes of a plane, if there are any. -/
abbrev PlaneWords := Option String × Option String

def PlaneWords.unknown : PlaneWords := (none, none)

namespace Program

/-- The value that an entry leaves for a letter. Foreign code leaves none. -/
def Entry.valueAfter (letter : String) (value : Option String) : Entry → Option String
  | .block _ => none
  | .move words _ => ((words.find? (·.letter == letter)).map (·.value)).or value
  | _ => value

/-- The last value written for a letter behind all foreign code. -/
def lastValue (program : Program) (letter : String) : Option String :=
  program.entries.toList.foldl (Entry.valueAfter letter) none

theorem lastValue_write (program : Program) (entry : Entry) (letter : String) :
    (program.write entry).lastValue letter = entry.valueAfter letter (program.lastValue letter) := by
  rw [lastValue, entries_write, List.foldl_append]
  rfl

def stated (program : Program) : PlaneWords := (program.lastValue "X", program.lastValue "Y")

/-- The words in force for the place of the tool. -/
def place (program : Program) : PlaneWords :=
  (program.registers.get? "X", program.registers.get? "Y")

/-- The words in force for the place are those last written for it. -/
def KeepsPlace (program : Program) : Prop := program.stated = program.place

@[simp] theorem place_word_tool (program : Program) (number : String) :
    (program.word "T" number).1.place = program.place := by
  simp [place, get?_word]

@[simp] theorem place_forget_speed (program : Program) :
    (program.forget ["S"]).place = program.place := by
  simp [place, get?_forget]

@[simp] theorem stated_word (program : Program) (letter value : String) :
    (program.word letter value).1.stated = program.stated := by
  simp [stated, lastValue]

@[simp] theorem stated_forget (program : Program) (letters : List String) :
    (program.forget letters).stated = program.stated := rfl

theorem KeepsPlace.write {program : Program} (keeps : program.KeepsPlace) {entry : Entry}
    (quiet : ∀ letter value, entry.valueAfter letter value = value) :
    (program.write entry).KeepsPlace := by
  rw [KeepsPlace, stated, lastValue_write, lastValue_write, quiet, quiet]
  exact keeps

theorem place_writeRaw (program : Program) (block : String) :
    (program.writeRaw block).place = if block.isEmpty then program.place else .unknown := by
  unfold writeRaw place
  split
  · rfl
  · rw [get?_forget, get?_forget, if_pos (by decide), if_pos (by decide)]
    rfl

theorem KeepsPlace.writeRaw {program : Program} (keeps : program.KeepsPlace) (block : String) :
    (program.writeRaw block).KeepsPlace := by
  rw [KeepsPlace, place_writeRaw]
  unfold Program.writeRaw
  split
  · exact keeps
  · change (program.write (.block block)).stated = .unknown
    rw [stated, lastValue_write, lastValue_write]
    rfl

theorem place_writeRaw_of_unknown {program : Program} (unknown : program.place = .unknown)
    (block : String) : (program.writeRaw block).place = .unknown := by
  rw [place_writeRaw, unknown, ite_self]

end Program

namespace Dialect

def placeWords (dialect : Dialect) (place : Vec) : PlaneWords :=
  (some (dialect.format place.x), some (dialect.format place.y))

/-- The words for the place where points end; unknown if there are none. -/
def endWords (dialect : Dialect) (track : Track) : PlaneWords :=
  match track.getLast? with
  | none => .unknown
  | some last => dialect.placeWords last.position

end Dialect

namespace Machine

/-! ## Acts -/

variable {program cut before : Program} {leg : Leg}

/-- Acts that move nowhere leave an unknown place unknown. -/
theorem place_perform_of_still {act : Act} (still : act.target = none) (machine : Machine)
    (unknown : program.place = .unknown) : (machine.perform program act).place = .unknown := by
  cases act with
  | toolChange tool =>
      cases tool with
      | none => exact unknown
      | some tool =>
          have loaded : (program.word "T" (toString tool.number)).1.place = .unknown := by
            rw [Program.place_word_tool, unknown]
          rcases machine.writeToolChange_cases program tool with
            ⟨_, same⟩ | ⟨_, _, changed⟩ | ⟨_, _, remark, changed⟩
          · rw [perform, same, unknown]
          · rw [perform, changed, Program.place_forget_speed, loaded]
          · rw [perform, changed, Program.place_forget_speed]
            apply Program.place_writeRaw_of_unknown
            exact loaded
  | raw block => exact Program.place_writeRaw_of_unknown unknown block
  | note warnings errors => exact unknown
  | move tool point values => cases still

/-- The word of a letter that stands once in a line is found there. -/
theorem find?_word {words : List Word} (once : (words.map (·.letter)).Nodup) {word : Word}
    (member : word ∈ words) : words.find? (·.letter == word.letter) = some word := by
  induction words with
  | nil => cases member
  | cons first rest ih =>
      rw [List.map_cons, List.nodup_cons] at once
      rcases List.mem_cons.mp member with rfl | later
      · rw [List.find?_cons_of_pos (by simp)]
      · have different : (first.letter == word.letter) = false := by
          rw [beq_eq_false_iff_ne]
          exact fun same => once.1 (same ▸ List.mem_map_of_mem later)
        rw [List.find?_cons, different]
        exact ih once.2 later

variable {machine : Machine}

/-- What is in force for an axis after a move is what was last written for it. -/
theorem lastValue_writeMove {values : AxisValues} {axis : String × Float}
    (member : axis ∈ machine.coordinates values)
    (same : program.lastValue axis.1 = program.registers.get? axis.1) (tool : Option Tool)
    (point : Point) :
    (machine.writeMove program tool point values).lastValue axis.1 =
      (machine.writeMove program tool point values).registers.get? axis.1 := by
  have spec := moveWords_spec machine program tool point values
  obtain ⟨speedChange, _, shape⟩ := writeMove_eq machine program tool point values
  have before : (machine.moveWords program tool point values).1.lastValue axis.1 =
      program.registers.get? axis.1 := by
    rw [← same, Program.lastValue, spec.entries, Program.lastValue]
  rw [registers_writeMove, spec.axes axis member, shape]
  dsimp only
  split
  · next silent =>
      rcases spec.modal.inForce _ _ (spec.axes axis member) with written | ⟨_, held⟩
      · rw [List.isEmpty_iff.mp silent] at written
        cases written
      · rw [before, held]
  · rw [Program.lastValue_write, before, Entry.valueAfter]
    rcases spec.modal.inForce _ _ (spec.axes axis member) with written | ⟨absent, held⟩
    · rw [find?_word spec.modal.once written]
      rfl
    · have missing : (machine.moveWords program tool point values).2.find?
          (·.letter == axis.1) = none := by
        rw [List.find?_eq_none]
        intro word listed same
        rw [beq_iff_eq] at same
        exact absent (same ▸ List.mem_map_of_mem listed)
      rw [missing, held]
      rfl

theorem place_performAll_of_still {acts : List Act} (still : ∀ act ∈ acts, act.target = none)
    (machine : Machine) (unknown : program.place = .unknown) :
    (machine.performAll program acts).place = .unknown := by
  induction acts generalizing program with
  | nil => exact unknown
  | cons act acts ih =>
      obtain ⟨here, later⟩ := List.forall_mem_cons.mp still
      exact ih later (place_perform_of_still here machine unknown)

section Planar

variable {machine : Machine} (planar : machine.kinematics = .planar)
include planar

theorem coordinates_planar (values : AxisValues) :
    machine.coordinates values = [("X", values.position.x), ("Y", values.position.y)] := by
  rw [coordinates, planar]

theorem place_writeMove (program : Program) (tool : Option Tool) (point : Point)
    (values : AxisValues) :
    (machine.writeMove program tool point values).place =
      program.dialect.placeWords values.position := by
  have axes := (moveWords_spec machine program tool point values).axes
  rw [coordinates_planar planar] at axes
  have x := axes ("X", values.position.x) (.head _)
  have y := axes ("Y", values.position.y) (.tail _ (.head _))
  rw [Program.place, registers_writeMove, x, y]
  rfl

/-- Every act leaves those words in force for the place that were last written. -/
theorem perform_keepsPlace (act : Act) {program : Program} (keeps : program.KeepsPlace) :
    (machine.perform program act).KeepsPlace := by
  cases act with
  | toolChange tool =>
      cases tool with
      | none => exact keeps
      | some tool =>
          have loaded : (program.word "T" (toString tool.number)).1.KeepsPlace := by
            rw [Program.KeepsPlace, Program.stated_word, Program.place_word_tool]
            exact keeps
          have spun : ∀ changed : Program, changed.KeepsPlace → (changed.forget ["S"]).KeepsPlace := by
            intro changed kept
            rw [Program.KeepsPlace, Program.stated_forget, Program.place_forget_speed]
            exact kept
          rcases machine.writeToolChange_cases program tool with
            ⟨_, same⟩ | ⟨_, _, changed⟩ | ⟨_, _, remark, changed⟩
          · rw [perform, same]
            exact keeps
          · rw [perform, changed]
            exact spun _ loaded
          · rw [perform, changed]
            exact spun _ ((loaded.write fun _ _ => rfl).writeRaw _)
  | raw block => exact keeps.writeRaw block
  | note warnings errors => exact keeps
  | move tool point values =>
      have listed := coordinates_planar planar values
      have x : ("X", values.position.x) ∈ machine.coordinates values := by simp [listed]
      have y : ("Y", values.position.y) ∈ machine.coordinates values := by simp [listed]
      exact Prod.ext (lastValue_writeMove x (congrArg Prod.fst keeps) tool point)
        (lastValue_writeMove y (congrArg Prod.snd keeps) tool point)

theorem performAll_keepsPlace (acts : List Act) {program : Program} (keeps : program.KeepsPlace) :
    (machine.performAll program acts).KeepsPlace := by
  induction acts generalizing program with
  | nil => exact keeps
  | cons act acts ih => exact ih (perform_keepsPlace planar act keeps)

/-- The first move from an unknown place states both axes. -/
theorem writeMove_states_place {program : Program} (unknown : program.place = .unknown)
    (tool : Option Tool) (point : Point) (values : AxisValues) :
    ∃ words speedChange,
      (machine.writeMove program tool point values).entries.toList =
        program.entries.toList ++ [.move words speedChange] ∧
      ⟨"X", program.format values.position.x⟩ ∈ words ∧
      ⟨"Y", program.format values.position.y⟩ ∈ words := by
  have spec := moveWords_spec machine program tool point values
  obtain ⟨speedChange, _, shape⟩ := writeMove_eq machine program tool point values
  -- A value that was not in force before has to be among the words.
  have stated : ∀ axis ∈ machine.coordinates values, program.registers.get? axis.1 = none →
      ⟨axis.1, program.format axis.2⟩ ∈ (machine.moveWords program tool point values).2 := by
    intro axis member absent
    rcases spec.modal.inForce _ _ (spec.axes axis member) with written | ⟨_, held⟩
    · exact written
    · rw [absent] at held
      cases held
  rw [coordinates_planar planar] at stated
  have x := stated ("X", values.position.x) (.head _) (congrArg Prod.fst unknown)
  have y := stated ("Y", values.position.y) (.tail _ (.head _)) (congrArg Prod.snd unknown)
  refine ⟨(machine.moveWords program tool point values).2, speedChange, ?_, x, y⟩
  have filled : (machine.moveWords program tool point values).2.isEmpty = false :=
    List.isEmpty_eq_false_iff_exists_mem.mpr ⟨_, x⟩
  rw [shape]
  simp [filled, spec.entries]

theorem moveActs_planar (rotary : Rotary.Setting) (tool : Option Tool) (points : List Point) :
    machine.moveActs rotary tool points =
      machine.pointActs tool false (points.map fun point => (point, machine.forward point .home)) := by
  have targets : points.zip (points.map fun point => machine.forward point .home) =
      points.map fun point => (point, machine.forward point .home) := by
    induction points with
    | nil => rfl
    | cons point rest ih => rw [List.map_cons, List.zip_cons_cons, ih, List.map_cons]
  rw [moveActs, solveAxes, planar]
  dsimp only
  rw [targets]

/-- Where the moves to some points end, unless foreign code follows the last of them. -/
theorem place_pointActs (program : Program) (tool : Option Tool) (warned : Bool)
    (points : List Point) :
    (machine.performAll program (machine.pointActs tool warned
        (points.map fun point => (point, machine.forward point .home)))).place =
      match points.getLast? with
      | none => program.place
      | some last =>
          if last.postCode.isEmpty then program.dialect.placeWords last.position else .unknown := by
  induction points generalizing program warned with
  | nil => rfl
  | cons point rest ih =>
      rw [List.map_cons, pointActs, performAll_append, ih, dialect_performAll]
      cases rest with
      | nil =>
          dsimp only [performAll, List.foldl_cons, List.foldl_nil, perform]
          rw [Program.place_writeRaw, place_writeMove planar, Program.dialect_writeRaw, forward, planar]
          rfl
      | cons second rest =>
          obtain ⟨last, ends⟩ : ∃ last, (second :: rest).getLast? = some last :=
            ⟨_, List.getLast?_eq_some_getLast (List.cons_ne_nil _ _)⟩
          rw [List.getLast?_cons_cons, ends]

private theorem values_of_mem_moveActs {rotary : Rotary.Setting} {tool other : Option Tool}
    {points : List Point} {point : Point} {values : AxisValues}
    (member : .move other point values ∈ machine.moveActs rotary tool points) :
    values = machine.forward point .home := by
  have target : (point, values) ∈ (machine.moveActs rotary tool points).filterMap Act.target :=
    List.mem_filterMap.mpr ⟨_, member, rfl⟩
  rw [moveActs_planar planar, targets_pointActs] at target
  obtain ⟨_, _, same⟩ := List.mem_map.mp target
  cases same
  rfl

/-! ## Legs -/

/-- Nothing is attached to the points of a way. -/
theorem postCode_of_mem_travel {source : Option Path} {target : Path} {point : Point}
    (member : point ∈ machine.travel source target) : point.postCode = "" := by
  have straight : machine.isFiveAxis = false := by rw [isFiveAxis, planar]
  unfold travel at member
  split at member
  · next last first tool form _ _ _ =>
      dsimp only at member
      split at member
      · cases member
      · cases found : Route.between machine tool (Route.stocks (source.bind (·.form)) form) last
            first with
        | error cause =>
            rw [found] at member
            cases member
        | ok points =>
            rw [found] at member
            rw [Route.between_straight straight] at found
            obtain ⟨line, _, same⟩ := bind_eq_ok.mp found
            cases same
            obtain ⟨place, _, rfl⟩ := List.mem_map.mp member
            rfl
  · cases member

private theorem place_travel {program : Program} (unknown : program.place = .unknown)
    (rotary : Rotary.Setting) (tool : Option Tool) (source : Option Path) (target : Path) :
    (machine.performAll program
        (machine.moveActs rotary tool (machine.travel source target))).place =
      program.dialect.endWords (machine.travel source target) := by
  rw [moveActs_planar planar, place_pointActs planar, Dialect.endWords]
  cases ends : (machine.travel source target).getLast? with
  | none => exact unknown
  | some last =>
      have bare := postCode_of_mem_travel planar (List.mem_of_getLast? ends)
      simp [bare]

end Planar

/-- A program between two legs: the place of the tool is unknown. -/
structure Idle (machine : Machine) (program : Program) : Prop where
  place : program.place = .unknown
  keeps : program.KeepsPlace
  dialect : program.dialect = machine.dialect

theorem Idle.write (idle : machine.Idle program) {entry : Entry}
    (quiet : ∀ letter value, entry.valueAfter letter value = value) :
    machine.Idle (program.write entry) :=
  ⟨idle.place, idle.keeps.write quiet, idle.dialect⟩

theorem Idle.openLeg (planar : machine.kinematics = .planar) (idle : machine.Idle program)
    (leg : Leg) : machine.Idle (machine.openLeg program leg) := by
  have headed : machine.Idle (machine.writeHeading program leg.heading) := by
    cases leg.heading with
    | none => exact idle
    | some name =>
        unfold writeHeading writeOperationStart
        dsimp only
        split <;> split
        · exact idle
        · exact idle.write fun _ _ => rfl
        · exact idle.write fun _ _ => rfl
        · exact (idle.write fun _ _ => rfl).write fun _ _ => rfl
  unfold Machine.openLeg
  dsimp only
  split
  · have still : (Act.toolChange leg.path.tool).target = none := rfl
    exact ⟨place_perform_of_still still machine headed.place,
      perform_keepsPlace planar (.toolChange leg.path.tool) headed.keeps,
      (dialect_writeToolChange machine _ _).trans headed.dialect⟩
  · exact headed

/-- A program that has reached a path and is switched on for it. -/
def switchedOn (machine : Machine) (reached : Program) (path : Path) : Program :=
  (reached.writeRaw path.preCode).writeRaw machine.dialect.pathStart

/-- The acts between switching on and switching off. -/
def cuttingActs (machine : Machine) (reached : Program) (path : Path) : List Act :=
  machine.moveActs reached.rotary path.tool path.points

theorem writePrepared_planar (planar : machine.kinematics = .planar) {reached : Program}
    {path : Path} (writable : path.Writable)
    (prepared : machine.writePrepared reached path = .ok cut) :
    cut = ((machine.performAll (machine.switchedOn reached path)
      (machine.cuttingActs reached path)).writeRaw machine.dialect.pathEnd).writeRaw
        path.postCode := by
  obtain ⟨⟨tool, form⟩, ready⟩ := writable.ready
  have known := (Path.context_eq_ok.mp (Path.ready_eq_ok.mp ready).1).1
  rw [writePrepared_eq prepared, pathActs, ready, planar, cuttingActs, known]
  simp [performAll, perform, switchedOn]

theorem Idle.reachLeg (planar : machine.kinematics = .planar) {reached : Program}
    (idle : machine.Idle before) (way : machine.reachLeg before leg = .ok reached) :
    reached.KeepsPlace ∧ reached.dialect = machine.dialect := by
  have opened := idle.openLeg planar leg
  rw [reachLeg_eq way]
  exact ⟨performAll_keepsPlace planar _ opened.keeps,
    (dialect_performAll machine _ _).trans opened.dialect⟩

/-- Between legs the place is unknown, because the machine has been switched off. -/
theorem Idle.writeLeg (planar : machine.kinematics = .planar)
    (stop : machine.dialect.pathEnd ≠ "") {reached : Program} (idle : machine.Idle before)
    (writable : leg.path.Writable) (way : machine.reachLeg before leg = .ok reached)
    (prepared : machine.writePrepared reached leg.path = .ok cut) : machine.Idle cut := by
  obtain ⟨keeps, dialect⟩ := idle.reachLeg planar way
  refine ⟨?_, ?_, ?_⟩
  · rw [writePrepared_planar planar writable prepared]
    apply Program.place_writeRaw_of_unknown
    rw [Program.place_writeRaw, if_neg (by simpa using stop)]
  · rw [writePrepared_eq prepared]
    exact performAll_keepsPlace planar _ keeps
  · rw [writePrepared_eq prepared, dialect_performAll, dialect]

theorem Idle.writeLegs (planar : machine.kinematics = .planar)
    (stop : machine.dialect.pathEnd ≠ "") {after : Program} {legs : List Leg}
    (idle : machine.Idle program) (writable : ∀ leg ∈ legs, leg.path.Writable)
    (written : machine.writeLegs program legs = .ok after) : machine.Idle after := by
  induction legs generalizing program with
  | nil =>
      cases written
      exact idle
  | cons leg rest ih =>
      obtain ⟨first, later⟩ := List.forall_mem_cons.mp writable
      rw [writeLegs_cons] at written
      obtain ⟨cut, here, rested⟩ := bind_eq_ok.mp written
      obtain ⟨reached, way, prepared⟩ := bind_eq_ok.mp here
      exact ih (idle.writeLeg planar stop first way prepared) later rested

/-- The words for the place where a machine is switched on for the path of a leg. -/
def switchPlace (machine : Machine) (leg : Leg) : PlaneWords :=
  if leg.path.preCode.isEmpty then
    machine.dialect.endWords (machine.travel leg.source leg.path)
  else .unknown

/-- How a leg is written on a machine that is switched on for its path: from the program before it
over the one that has reached the path to the one that has cut it. -/
structure Switched (machine : Machine) (leg : Leg) (before reached cut : Program) : Prop where
  /-- All travel comes before switching on. -/
  travelled : ∃ notes : List Act, (∀ act ∈ notes, act.target = none) ∧
    reached = machine.performAll (machine.openLeg before leg)
      (notes ++ machine.moveActs (machine.openLeg before leg).rotary leg.path.tool
        (machine.travel leg.source leg.path))
  /-- The machine is switched on where its travel ends, as far as that is known. -/
  place : (reached.writeRaw leg.path.preCode).stated = machine.switchPlace leg
  on : (machine.switchedOn reached leg.path).entries.toList =
    (reached.writeRaw leg.path.preCode).entries.toList ++ [.block machine.dialect.pathStart]
  /-- Nothing but the points of the path is moved to until it is switched off. -/
  points : ((machine.cuttingActs reached leg.path).filterMap Act.target).map (·.1) =
    leg.path.points
  off : cut = ((machine.performAll (machine.switchedOn reached leg.path)
    (machine.cuttingActs reached leg.path)).writeRaw machine.dialect.pathEnd).writeRaw
      leg.path.postCode
  /-- Every move ends at its point. -/
  arrives : ∀ past tool point values future,
    machine.cuttingActs reached leg.path = past ++ .move tool point values :: future →
    (machine.performAll (machine.switchedOn reached leg.path)
      (past ++ [.move tool point values])).stated = machine.dialect.placeWords point.position
  /-- The first move states both axes, wherever it comes from. -/
  enters : ∀ past tool point values future,
    machine.cuttingActs reached leg.path = past ++ .move tool point values :: future →
    (∀ act ∈ past, act.target = none) →
    let lit := machine.performAll (machine.switchedOn reached leg.path) past
    ∃ words speedChange,
      (machine.perform lit (.move tool point values)).entries.toList =
        lit.entries.toList ++ [.move words speedChange] ∧
      ⟨"X", machine.dialect.format point.position.x⟩ ∈ words ∧
      ⟨"Y", machine.dialect.format point.position.y⟩ ∈ words

theorem Idle.switched (planar : machine.kinematics = .planar)
    (start : machine.dialect.pathStart ≠ "") {reached : Program} (idle : machine.Idle before)
    (writable : leg.path.Writable) (way : machine.reachLeg before leg = .ok reached)
    (prepared : machine.writePrepared reached leg.path = .ok cut) :
    machine.Switched leg before reached cut := by
  obtain ⟨notes, silent, acts⟩ := machine.transitionActs_eq (machine.openLeg before leg).rotary
    leg.source leg.path leg.heading.isSome
  have still : ∀ act ∈ notes, act.target = none := by
    intro act member
    obtain ⟨errors, rfl⟩ := silent act member
    rfl
  have opened := idle.openLeg planar leg
  obtain ⟨keeps, dialect⟩ := idle.reachLeg planar way
  have travelled := reachLeg_eq way
  rw [acts] at travelled
  have lit : (machine.switchedOn reached leg.path).place = .unknown := by
    rw [switchedOn, Program.place_writeRaw, if_neg (by simpa using start)]
  have litKeeps : ∀ acts,
      (machine.performAll (machine.switchedOn reached leg.path) acts).KeepsPlace :=
    fun acts => performAll_keepsPlace planar acts ((keeps.writeRaw _).writeRaw _)
  have litDialect : ∀ acts, (machine.performAll (machine.switchedOn reached leg.path) acts).dialect =
      machine.dialect := by
    intro acts
    rw [dialect_performAll, switchedOn, Program.dialect_writeRaw, Program.dialect_writeRaw, dialect]
  have target : ∀ past tool point values future,
      machine.cuttingActs reached leg.path = past ++ .move tool point values :: future →
      values.position.x = point.position.x ∧ values.position.y = point.position.y := by
    intro past tool point values future whole
    have member : .move tool point values ∈ machine.cuttingActs reached leg.path := by simp [whole]
    rw [values_of_mem_moveActs planar member, forward, planar]
    exact ⟨rfl, rfl⟩
  refine ⟨⟨notes, still, travelled⟩, ?_, ?_, machine.points_moveActs _ _ _,
    writePrepared_planar planar writable prepared, ?_, ?_⟩
  · rw [keeps.writeRaw, Program.place_writeRaw, travelled, performAll_append]
    have noted := place_performAll_of_still still machine opened.place
    rw [place_travel planar noted, dialect_performAll, opened.dialect, switchPlace]
  · rw [switchedOn, Program.entries_writeRaw, if_neg (by simpa using start)]
  · intro past tool point values future whole
    obtain ⟨x, y⟩ := target past tool point values future whole
    have moved := place_writeMove planar
      (machine.performAll (machine.switchedOn reached leg.path) past) tool point values
    rw [litDialect, Dialect.placeWords, x, y] at moved
    rw [litKeeps, performAll_append]
    exact moved
  · intro past tool point values future whole silentPast
    obtain ⟨x, y⟩ := target past tool point values future whole
    have here := place_performAll_of_still silentPast machine lit
    obtain ⟨words, speedChange, entries, xWord, yWord⟩ :=
      writeMove_states_place planar here tool point values
    rw [Program.format, litDialect] at xWord yWord
    exact ⟨words, speedChange, entries, x ▸ xWord, y ▸ yWord⟩

/-- The words for the place where the path of a leg begins. -/
def firstPlace (machine : Machine) (leg : Leg) : Option PlaneWords :=
  leg.path.points.head?.map fun point => machine.dialect.placeWords point.position

def burner : Machine :=
  ⟨{ commentStart := ";", precision := 3, pathStart := "M03", pathEnd := "M05" }, .planar⟩

end Machine

namespace Instruction

open Machine (burner)

private theorem idle_heading (instruction : Instruction) (machine : Machine) (ignore : List String) :
    machine.Idle (instruction.heading machine ignore) := by
  unfold heading Machine.writeHeader
  dsimp only
  split <;> split <;> exact ⟨rfl, rfl, rfl⟩

variable {instruction : Instruction} {machine : Machine} {ignore : List String}

theorem Plan.switched (plan : instruction.Plan machine) (planar : machine.kinematics = .planar)
    (start : machine.dialect.pathStart ≠ "") (stop : machine.dialect.pathEnd ≠ "") {program : Program}
    (writes : plan.Writes ignore program) {front back : List Leg} {leg : Leg}
    (whole : plan.legs = front ++ leg :: back) :
    ∃ before reached cut,
      machine.writeLegs (instruction.heading machine ignore) front = .ok before ∧
      machine.reachLeg before leg = .ok reached ∧
      machine.writePrepared reached leg.path = .ok cut ∧
      machine.Switched leg before reached cut := by
  have writable : ∀ other ∈ front ++ leg :: back, other.path.Writable := by
    intro other member
    exact plan.writable_of_mem_legs (whole ▸ member)
  obtain ⟨written, legs, _⟩ := writes
  rw [whole] at legs
  obtain ⟨before, reached, cut, earlier, way, prepared, _⟩ := Machine.writeLegs_split legs
  have idle := (instruction.idle_heading machine ignore).writeLegs planar stop
    (fun other member => writable other (List.mem_append_left _ member)) earlier
  exact ⟨before, reached, cut, earlier, way, prepared,
    idle.switched planar start (writable leg (by simp)) way prepared⟩

/-- Where a machine is switched on. A machine with two axes that is switched on and off by foreign
code travels to a path while it is off. It is switched on at the last point of its way there, or at an
unknown place if the way has no points or foreign code comes in between. From there the first move of
the path goes to the first point, with both axes stated, and until the machine is switched off it
moves to the points of the path and nowhere else. -/
theorem compile_switches (known : instruction.machine = some machine)
    (planar : machine.kinematics = .planar) (start : machine.dialect.pathStart ≠ "")
    (stop : machine.dialect.pathEnd ≠ "") {program : Program}
    (compiled : instruction.compile ignore = .ok program) :
    ∃ plan : instruction.Plan machine, plan.Writes ignore program ∧
      ∀ front leg back, plan.legs = front ++ leg :: back →
        ∃ before reached cut,
          machine.writeLegs (instruction.heading machine ignore) front = .ok before ∧
          machine.reachLeg before leg = .ok reached ∧
          machine.writePrepared reached leg.path = .ok cut ∧
          machine.Switched leg before reached cut := by
  obtain ⟨plan, writes⟩ := exists_plan known compiled
  exact ⟨plan, writes, fun front leg back whole => plan.switched planar start stop writes whole⟩

/-- Two paths on either side of a block, with a way through the top of its safety bubble. -/
def acrossBlock : Instruction :=
  { name := "across"
    machine := some burner
    operations :=
      [{ name := "cut"
         paths :=
          [{ name := "a", points := [Point.make ⟨-8, 5, 2.95⟩ Vec.zAxis, Point.make ⟨-8, 0, 2.95⟩ Vec.zAxis] },
            { name := "b", points := [Point.make ⟨8, 0, 2.95⟩ Vec.zAxis, Point.make ⟨8, 5, 2.95⟩ Vec.zAxis] }] }]
    tool := some { identity := 0, name := "jet", number := 1, tip := .other, width := 0.2 }
    form := some Route.lowBlock }

theorem exists_program_acrossBlock : ∃ program, acrossBlock.compile [] = .ok program :=
  exists_of_isOk (by decide +kernel)

theorem exists_leg_acrossBlock (plan : acrossBlock.Plan burner) :
    ∃ front leg back, plan.legs = front ++ leg :: back ∧
      burner.switchPlace leg = (some "-0.598", some "0") ∧
      burner.firstPlace leg = some (some "8", some "0") := by
  have evaluated : (acrossBlock.legs burner).map
      (·.map fun leg => (burner.switchPlace leg, burner.firstPlace leg)) =
      .ok [(.unknown, some (some "-8", some "5")),
        ((some "-0.598", some "0"), some (some "8", some "0"))] := by
    decide +kernel
  have places := plan.map_legs evaluated
  obtain ⟨first, rest, whole, _, later⟩ := List.map_eq_cons_iff.mp places
  obtain ⟨second, none, whole', same, _⟩ := List.map_eq_cons_iff.mp later
  cases whole'
  exact ⟨[first], second, none, whole, congrArg Prod.fst same, congrArg Prod.snd same⟩

theorem compile_switches_acrossBlock :
    ∃ program, acrossBlock.compile [] = .ok program ∧
      ∃ (plan : acrossBlock.Plan burner) (front back : List Leg) (leg : Leg)
        (before reached cut : Program), plan.legs = front ++ leg :: back ∧
        burner.switchPlace leg = (some "-0.598", some "0") ∧
        burner.Switched leg before reached cut := by
  obtain ⟨program, compiled⟩ := exists_program_acrossBlock
  have known : acrossBlock.machine = some burner := rfl
  obtain ⟨plan, _, switched⟩ := compile_switches known rfl (by decide) (by decide) compiled
  obtain ⟨front, leg, back, whole, place, _⟩ := exists_leg_acrossBlock plan
  obtain ⟨before, reached, cut, _, _, _, cycle⟩ := switched front leg back whole
  exact ⟨program, compiled, plan, front, back, leg, before, reached, cut, whole, place, cycle⟩

/-- The machine is switched on above the block and not where the second path begins. -/
theorem acrossBlock_switched_on_elsewhere :
    ∃ program, acrossBlock.compile [] = .ok program ∧
      ∃ (plan : acrossBlock.Plan burner) (front back : List Leg) (leg : Leg)
        (before reached : Program), plan.legs = front ++ leg :: back ∧
        burner.writeLegs (acrossBlock.heading burner []) front = .ok before ∧
        burner.reachLeg before leg = .ok reached ∧
        (reached.writeRaw leg.path.preCode).stated = (some "-0.598", some "0") ∧
        burner.firstPlace leg = some (some "8", some "0") := by
  obtain ⟨program, compiled⟩ := exists_program_acrossBlock
  have known : acrossBlock.machine = some burner := rfl
  obtain ⟨plan, writes⟩ := exists_plan known compiled
  obtain ⟨front, leg, back, whole, place, first⟩ := exists_leg_acrossBlock plan
  obtain ⟨before, reached, cut, earlier, way, _, cycle⟩ :=
    plan.switched rfl (by decide) (by decide) writes whole
  exact ⟨program, compiled, plan, front, back, leg, before, reached, whole, earlier, way,
    cycle.place.trans place, first⟩

end Instruction

end Kerf
