import Kerf.Proofs.Comments
import Kerf.Proofs.JoinedEnds
import Kerf.Proofs.LoadedTool

/-!
# Line ends in entries

Foreign blocks are taken apart at their line ends before they are printed. All other entries are
printed as one line, whatever they are made of: a section break, a speed change, comment marks, and
the names of machines, jobs, operations and tools.

Main statement: when none of these holds a line end, no entry of a compiled program does.
-/

set_option autoImplicit false

namespace Kerf

open Kerf.Program (Word Entry)
open Kerf.Text

/-- The texts of a dialect that are written without being taken apart are single lines. -/
structure Dialect.SingleLined (dialect : Dialect) : Prop where
  opening : '\n' ∉ dialect.commentStart.toList
  closing : '\n' ∉ dialect.commentEnd.toList
  sectionBreak : '\n' ∉ dialect.sectionBreak.toList
  speedChange : '\n' ∉ dialect.speedChange.toList
  name : '\n' ∉ dialect.name.toList

namespace Program.Entry

/-! ## Entries -/

def Unbroken (dialect : Dialect) (entry : Entry) : Prop :=
  ∀ line ∈ entry.lines dialect, '\n' ∉ line

theorem Unbroken.block (dialect : Dialect) (text : String) :
    (Entry.block text).Unbroken dialect :=
  fun _ member => (of_mem_splitAt member).1

theorem Unbroken.line (dialect : Dialect) {text : String} (single : '\n' ∉ text.toList) :
    (Entry.line text).Unbroken dialect := by
  intro line member
  rw [List.mem_singleton.mp member]
  exact single

theorem Unbroken.comment {dialect : Dialect} (lined : dialect.SingleLined) {text : String}
    (single : '\n' ∉ text.toList) : (Entry.comment text).Unbroken dialect := by
  intro line member inside
  rw [List.mem_singleton.mp member, Dialect.comment] at inside
  simp only [String.toList_append, String.toList_ofList, List.mem_append] at inside
  rcases inside with (opening | body) | closing
  · exact lined.opening opening
  · exact single (mem_of_mem_eraseAll (mem_of_mem_eraseAll body))
  · exact lined.closing closing

theorem Unbroken.move (dialect : Dialect) {words : List Word} {change : String}
    (plain : ∀ word ∈ words, '\n' ∉ word.text.toList) (single : '\n' ∉ change.toList) :
    (Entry.move words change).Unbroken dialect := by
  intro line member inside
  rw [List.mem_singleton.mp member, String.toList_intercalate] at inside
  rcases mem_intercalate_blank inside with blank | ⟨text, listed, within⟩
  · cases blank
  · obtain ⟨source, among, rfl⟩ := List.mem_map.mp listed
    rcases List.mem_append.mp among with spoken | last
    · obtain ⟨word, written, rfl⟩ := List.mem_map.mp spoken
      exact plain word written within
    · split at last
      · cases last
      · rw [List.mem_singleton.mp last] at within
        exact single within

end Program.Entry

namespace Machine

/-! ## Acts -/

/-- A program without line ends in its entries. -/
def Unbroken (machine : Machine) (program : Program) : Prop :=
  ∀ entry ∈ program.entries.toList, entry.Unbroken machine.dialect

variable {machine : Machine} {program : Program}

theorem Unbroken.of_eq (unbroken : machine.Unbroken program) {other : Program}
    (entries : other.entries = program.entries) : machine.Unbroken other := by
  unfold Unbroken
  rw [entries]
  exact unbroken

theorem Unbroken.write (unbroken : machine.Unbroken program) {entry : Entry}
    (single : entry.Unbroken machine.dialect) : machine.Unbroken (program.write entry) := by
  intro other member
  rw [Program.entries_write] at member
  rcases List.mem_append.mp member with old | new
  · exact unbroken other old
  · rw [List.mem_singleton.mp new]
    exact single

theorem Unbroken.writeRaw (unbroken : machine.Unbroken program) (block : String) :
    machine.Unbroken (program.writeRaw block) := by
  unfold Program.writeRaw
  split
  · exact unbroken
  · exact (unbroken.write (.block _ block)).of_eq rfl

theorem Unbroken.writeComment (unbroken : machine.Unbroken program)
    (lined : machine.dialect.SingleLined) {text : String} (single : '\n' ∉ text.toList) :
    machine.Unbroken (program.write (.comment text)) :=
  unbroken.write (.comment lined single)

theorem Unbroken.writeToolChange (unbroken : machine.Unbroken program)
    (lined : machine.dialect.SingleLined) {tool : Option Tool}
    (single : ∀ held ∈ tool, '\n' ∉ held.name.toList) :
    machine.Unbroken (machine.writeToolChange program tool) := by
  cases tool with
  | none => exact unbroken
  | some tool =>
      have loaded : machine.Unbroken (program.word "T" (toString tool.number)).1 :=
        unbroken.of_eq (by simp)
      have remark : '\n' ∉ ("tool " ++ toString tool.number ++ " " ++ tool.name).toList := by
        have number : '\n' ∉ (toString tool.number).toList := by
          intro member
          rcases Program.mem_toString_int member with sign | digit
          · cases sign
          · cases digit
        simp only [String.toList_append, List.mem_append, not_or]
        exact ⟨⟨⟨by decide, number⟩, by decide⟩, single tool rfl⟩
      rw [Machine.writeToolChange]
      split
      · next same =>
          rw [same] at loaded
          exact loaded
      · next changed _ same =>
          have held : machine.Unbroken changed := by
            rw [same] at loaded
            exact loaded
          dsimp only
          split
          · exact held.of_eq rfl
          · exact ((held.writeComment lined remark).writeRaw _).of_eq rfl

private theorem text_of_mem_moveWords {tool : Option Tool} {point : Point} {values : AxisValues}
    {word : Word} (member : word ∈ (machine.moveWords program tool point values).2) :
    '\n' ∉ word.text.toList := by
  have number : ∀ x, '\n' ∉ (program.dialect.format x).toList := fun x inside =>
    absurd (program.dialect.isNumberChar_format x '\n' inside) (by decide)
  have spelled : ∀ letter ∈ "G" :: "F" :: "S" :: axisWords, ∀ x,
      '\n' ∉ (Word.text ⟨letter, program.format x⟩).toList := by
    intro letter listed x
    have plain : ∀ letter ∈ "G" :: "F" :: "S" :: axisWords, '\n' ∉ letter.toList := by decide
    rw [Word.text, String.toList_append, List.mem_append, not_or]
    exact ⟨plain letter listed, number x⟩
  obtain ⟨settings, words, set⟩ := moveWords_append machine program tool point values
  rw [words] at member
  rcases List.mem_append.mp member with moved | later
  · have spec := motionWords_spec machine program (effectiveFeed tool point == 0) values
    rcases spec.stated word moved with rfl | ⟨axis, listed, rfl⟩
    · cases effectiveFeed tool point == 0 <;> decide
    · refine spelled axis.1 ?_ axis.2
      exact List.mem_cons_of_mem _ (List.mem_cons_of_mem _ (List.mem_cons_of_mem _
        (coordinates_subset listed)))
  · rcases set word later with rfl | rfl
    · exact spelled "F" (by simp) _
    · exact spelled "S" (by simp) _

theorem Unbroken.writeMove (unbroken : machine.Unbroken program)
    (lined : machine.dialect.SingleLined) (tool : Option Tool) (point : Point)
    (values : AxisValues) : machine.Unbroken (machine.writeMove program tool point values) := by
  have spec := moveWords_spec machine program tool point values
  obtain ⟨change, either, shape⟩ := writeMove_eq machine program tool point values
  have single : '\n' ∉ change.toList := by
    rcases either with rfl | rfl
    · decide
    · exact lined.speedChange
  have worded : machine.Unbroken (machine.moveWords program tool point values).1 :=
    unbroken.of_eq spec.entries
  rw [shape]
  dsimp only
  split
  · exact worded
  · exact worded.write (.move _ (fun word => text_of_mem_moveWords) single)

theorem Unbroken.perform (unbroken : machine.Unbroken program)
    (lined : machine.dialect.SingleLined) {act : Act} (other : act.isToolChange = false) :
    machine.Unbroken (machine.perform program act) := by
  cases act with
  | toolChange tool => cases other
  | raw block => exact unbroken.writeRaw block
  | note warnings errors => exact unbroken.of_eq rfl
  | move tool point values => exact unbroken.writeMove lined tool point values

theorem Unbroken.performAll (unbroken : machine.Unbroken program)
    (lined : machine.dialect.SingleLined) {acts : List Act}
    (others : ∀ act ∈ acts, act.isToolChange = false) :
    machine.Unbroken (machine.performAll program acts) := by
  induction acts generalizing program with
  | nil => exact unbroken
  | cons act acts ih =>
      obtain ⟨here, later⟩ := List.forall_mem_cons.mp others
      exact ih (unbroken.perform lined here) later

end Machine

/-! ## Legs -/

/-- The names that a leg may write are single lines. -/
structure Leg.SingleLined (leg : Leg) : Prop where
  heading : ∀ name ∈ leg.heading, '\n' ∉ name.toList
  tool : ∀ tool ∈ leg.path.tool, '\n' ∉ tool.name.toList

namespace Machine

variable {machine : Machine} {program : Program}

theorem Unbroken.openLeg (unbroken : machine.Unbroken program)
    (lined : machine.dialect.SingleLined) {leg : Leg} (single : leg.SingleLined) :
    machine.Unbroken (machine.openLeg program leg) := by
  have headed : machine.Unbroken (machine.writeHeading program leg.heading) := by
    cases named : leg.heading with
    | none => exact unbroken
    | some name =>
        have marked : machine.Unbroken (if machine.dialect.sectionBreak.isEmpty then program
            else program.write (.line machine.dialect.sectionBreak)) := by
          split
          · exact unbroken
          · exact unbroken.write (.line _ lined.sectionBreak)
        unfold writeHeading writeOperationStart
        dsimp only
        split
        · exact marked
        · exact marked.writeComment lined (single.heading name named)
  unfold Machine.openLeg
  dsimp only
  split
  · exact headed.writeToolChange lined single.tool
  · exact headed

theorem Unbroken.writeLeg (unbroken : machine.Unbroken program)
    (lined : machine.dialect.SingleLined) {leg : Leg} (single : leg.SingleLined) {after : Program}
    (written : machine.writeLeg program leg = .ok after) : machine.Unbroken after := by
  rw [writeLeg_eq written]
  refine (unbroken.openLeg lined single).performAll lined ?_
  intro act member
  rcases List.mem_append.mp member with way | cutting
  · exact isToolChange_of_mem_transitionActs way
  · exact isToolChange_of_mem_pathActs cutting

theorem Unbroken.writeLegs (unbroken : machine.Unbroken program)
    (lined : machine.dialect.SingleLined) {legs : List Leg}
    (single : ∀ leg ∈ legs, leg.SingleLined) {after : Program}
    (written : machine.writeLegs program legs = .ok after) : machine.Unbroken after := by
  induction legs generalizing program with
  | nil =>
      cases written
      exact unbroken
  | cons leg rest ih =>
      obtain ⟨here, later⟩ := List.forall_mem_cons.mp single
      rw [writeLegs_cons] at written
      obtain ⟨middle, first, onward⟩ := bind_eq_ok.mp written
      exact ih (unbroken.writeLeg lined here first) later onward

end Machine

/-! ## Names of an instruction -/

namespace Leg

private theorem heading_of_mem_ofPasses {heading : Option String} {previous : Option Path}
    {passes : List Path} {leg : Leg} (member : leg ∈ ofPasses heading previous passes)
    {name : String} (named : name ∈ leg.heading) : name ∈ heading := by
  induction passes generalizing heading previous with
  | nil => cases member
  | cons pass rest ih =>
      rcases List.mem_cons.mp member with rfl | later
      · exact named
      · cases ih later

private theorem heading_of_mem_ofOperations {previous : Option Path} {operations : List Prepared}
    {leg : Leg} (member : leg ∈ ofOperations previous operations) {name : String}
    (named : name ∈ leg.heading) : ∃ operation ∈ operations, operation.name = name := by
  induction operations generalizing previous with
  | nil => cases member
  | cons operation rest ih =>
      rcases List.mem_append.mp member with here | later
      · have own := heading_of_mem_ofPasses here named
        exact ⟨operation, List.mem_cons_self, Option.some.inj own⟩
      · obtain ⟨other, listed, same⟩ := ih later
        exact ⟨other, List.mem_cons_of_mem _ listed, same⟩

/-- Headings are the names of operations; the motions before and after them have none. -/
theorem heading_of_mem_all {start finish : Option Path} {operations : List Prepared} {leg : Leg}
    (member : leg ∈ all start operations finish) {name : String} (named : name ∈ leg.heading) :
    ∃ operation ∈ operations, operation.name = name := by
  rcases List.mem_append.mp member with opening | closing
  · rcases List.mem_append.mp opening with first | later
    · obtain ⟨path, _, rfl⟩ := List.mem_map.mp first
      cases named
    · exact heading_of_mem_ofOperations later named
  · obtain ⟨path, _, rfl⟩ := List.mem_map.mp closing
    cases named

end Leg

theorem Path.tool_of_mem_resolve {path : Path} {tool : Option Tool} {form : Option Stock.Form}
    {held : Tool} (holds : held ∈ (path.resolve tool form).tool) :
    held ∈ path.tool ∨ held ∈ tool := by
  have either : path.tool.or tool = some held := by
    rw [Option.or_eq_orElse]
    exact holds
  exact (Option.or_eq_some_iff.mp either).imp_right And.right

namespace Instruction

/-- The tools that an instruction names anywhere. -/
def tools (instruction : Instruction) : List Tool :=
  instruction.tool.toList ++ instruction.operations.flatMap (·.tool.toList) ++
    instruction.paths.flatMap (·.tool.toList)

/-- The names that an instruction may write are single lines. -/
structure SingleLined (instruction : Instruction) : Prop where
  name : '\n' ∉ instruction.name.toList
  operations : ∀ operation ∈ instruction.operations, '\n' ∉ operation.name.toList
  tools : ∀ tool ∈ instruction.tools, '\n' ∉ tool.name.toList

variable {instruction : Instruction} {machine : Machine}

theorem mem_tools {tool : Tool} :
    tool ∈ instruction.tools ↔ tool ∈ instruction.tool ∨
      (∃ operation ∈ instruction.operations, tool ∈ operation.tool) ∨
      ∃ path ∈ instruction.paths, tool ∈ path.tool := by
  simp [tools]

private theorem tool_of_mem_resolveEnd {path : Path} {held : Tool}
    (holds : held ∈ (instruction.resolveEnd path).tool) :
    held ∈ path.tool ∨ held ∈ instruction.tool ∨
      ∃ operation ∈ instruction.operations, held ∈ operation.tool := by
  unfold resolveEnd at holds
  split at holds
  · exact (Path.tool_of_mem_resolve holds).imp_right .inl
  · next first _ operations =>
      rcases Path.tool_of_mem_resolve holds with early | filled
      · exact (Path.tool_of_mem_resolve early).imp_right .inl
      · exact .inr (.inr ⟨first, by simp [operations], filled⟩)

theorem tool_of_prepareEnd {path : Option Path} (listed : ∀ given ∈ path, given ∈ instruction.paths)
    {prepared : Path} (found : instruction.prepareEnd machine path = .ok (some prepared))
    {held : Tool} (holds : held ∈ prepared.tool) : held ∈ instruction.tools := by
  have resolved : ∃ given ∈ path, held ∈ (instruction.resolveEnd given).tool := by
    cases writtenEnd_of_prepareEnd found with
    | plain given => exact ⟨given, rfl, holds⟩
    | joined given => exact ⟨given, rfl, holds⟩
  obtain ⟨given, inside, filled⟩ := resolved
  rw [mem_tools]
  rcases tool_of_mem_resolveEnd filled with own | default | shared
  · exact .inr (.inr ⟨given, listed given inside, own⟩)
  · exact .inl default
  · exact .inr (.inl shared)

private theorem tool_of_mem_prepareOperations {operations : List Prepared}
    (found : instruction.prepareOperations machine = .ok operations) {operation : Prepared}
    (listed : operation ∈ operations) {pass : Path} (member : pass ∈ operation.passes) {held : Tool}
    (holds : held ∈ pass.tool) : held ∈ instruction.tools := by
  obtain ⟨original, known, _, passes⟩ := source_of_mem_prepareOperations found listed
  obtain ⟨given, owned, path, outcome, either, became, passed⟩ := passes pass member
  have among : given ∈ instruction.paths := List.mem_append_left _
    (List.mem_append_right _ (List.mem_flatMap.mpr ⟨original, known, owned⟩))
  obtain ⟨points, rfl⟩ := Path.along_of_mem_prepare became passed
  change held ∈ path.tool at holds
  rw [mem_tools]
  rcases either with rfl | rfl
  · exact .inr (.inr ⟨path, among, holds⟩)
  · rcases Path.tool_of_mem_resolve holds with own | filled
    · exact .inr (.inr ⟨given, among, own⟩)
    · cases shared : original.tool with
      | none =>
          rw [shared] at filled
          exact .inl filled
      | some tool =>
          rw [shared] at filled
          exact .inr (.inl ⟨original, known, shared ▸ filled⟩)

theorem Plan.singleLined_of_mem_legs (plan : instruction.Plan machine)
    (single : instruction.SingleLined) {leg : Leg} (member : leg ∈ plan.legs) :
    leg.SingleLined := by
  refine ⟨?_, ?_⟩
  · intro name named
    obtain ⟨operation, listed, same⟩ := Leg.heading_of_mem_all member named
    obtain ⟨original, given, own, _⟩ := source_of_mem_prepareOperations plan.prepared listed
    rw [← same, own]
    exact single.operations original given
  · intro held holds
    apply single.tools
    have written : leg.path ∈ plan.paths := by
      rw [← plan.paths_legs]
      exact List.mem_map_of_mem member
    rcases mem_paths.mp written with first | ⟨operation, listed, passed⟩ | last
    · refine tool_of_prepareEnd ?_ (plan.before.trans (by rw [first])) holds
      intro given start
      exact List.mem_append_left _ (List.mem_append_left _ (Option.mem_toList.mpr start))
    · exact tool_of_mem_prepareOperations plan.prepared listed passed holds
    · refine tool_of_prepareEnd ?_ (plan.after.trans (by rw [last])) holds
      intro given finish
      exact List.mem_append_right _ (Option.mem_toList.mpr finish)

/-- A compiled program has no line ends in its entries when no text has any that is written without
being taken apart. -/
theorem unbroken_of_compile (known : instruction.machine = some machine)
    (lined : machine.dialect.SingleLined) (single : instruction.SingleLined)
    {ignore : List String} {program : Program} (compiled : instruction.compile ignore = .ok program) :
    machine.Unbroken program := by
  have fresh : machine.Unbroken (Program.empty machine.dialect ignore) :=
    fun entry member => by cases member
  have headed : machine.Unbroken (instruction.heading machine ignore) := by
    have framed : machine.Unbroken (if machine.dialect.header.isEmpty
        then Program.empty machine.dialect ignore
        else (Program.empty machine.dialect ignore).write (.block machine.dialect.header)) := by
      split
      · exact fresh
      · exact fresh.write (.block _ _)
    have machineName : '\n' ∉ ("machine " ++ machine.dialect.name).toList := by
      rw [String.toList_append, List.mem_append, not_or]
      exact ⟨by decide, lined.name⟩
    unfold heading Machine.writeHeader
    dsimp only
    refine Machine.Unbroken.writeComment ?_ lined machineName
    split
    · exact framed
    · exact framed.writeComment lined single.name
  obtain ⟨plan, written, legs, rfl⟩ := exists_plan known compiled
  have cut : machine.Unbroken written :=
    headed.writeLegs lined (fun leg => plan.singleLined_of_mem_legs single) legs
  have footed : machine.Unbroken (machine.writeFooter written) := by
    unfold Machine.writeFooter
    dsimp only
    split
    · exact cut
    · exact cut.write (.block _ _)
  rw [Program.noteOutcomes_eq]
  exact footed.of_eq rfl

end Instruction

end Kerf
