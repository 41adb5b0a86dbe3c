import Kerf.Proofs.Unbroken

/-!
# Numbers of lines

Which lines of a program are numbered. A line end inside an entry makes a line that is printed
without a number, whatever stands in it.

Main statement: the numbers of a program have no gaps and leave no line out as long as every line
printed without one may go without, and that is so when no line end is written but those of blocks.
-/

set_option autoImplicit false

namespace Kerf

open Kerf.Program (Entry isNumbered printLine printed)
open Kerf.Text

namespace Program

/-! ## Numbered lines -/

/-- A line that needs no number: it is blank, a percent sign or a comment. -/
def Exempt (dialect : Dialect) (line : List Char) : Prop :=
  trimBlanks line = [] ∨ trimBlanks line = ['%'] ∨
    dialect.commentStart.toList <+: trimBlanks line

theorem exempt_iff {dialect : Dialect} {line : List Char} :
    Exempt dialect line ↔ isNumbered dialect line = false := by
  simp only [Exempt, isNumbered, startsWith, ← List.isPrefixOf_iff_prefix, Bool.and_eq_false_iff,
    Bool.not_eq_false', List.isEmpty_iff, bne_eq_false_iff_eq, or_assoc]

/-- Lines that go on from a number of numbered lines: each one needs no number, or it starts with
the next multiple of the step. -/
inductive Numbered (dialect : Dialect) : Nat → List (List Char) → Prop where
  | done {count : Nat} : Numbered dialect count []
  | exempt {count : Nat} {line : List Char} {lines : List (List Char)} :
      Exempt dialect line → Numbered dialect count lines → Numbered dialect count (line :: lines)
  | next {count : Nat} {line : List Char} {lines : List (List Char)} :
      'N' :: (toString (((count + 1 : Nat) : Int) * dialect.lineStep.toInt)).toList ++ [' '] <+:
        line →
      Numbered dialect (count + 1) lines → Numbered dialect count (line :: lines)

variable {dialect : Dialect}

theorem Numbered.append {count : Nat} {front back : List (List Char)}
    (exempt : ∀ line ∈ front, Exempt dialect line) (numbered : Numbered dialect count back) :
    Numbered dialect count (front ++ back) := by
  induction front with
  | nil => exact numbered
  | cons line front ih =>
      obtain ⟨here, later⟩ := List.forall_mem_cons.mp exempt
      exact .exempt here (ih later)

theorem Numbered.of_mem {count : Nat} {lines : List (List Char)}
    (numbered : Numbered dialect count lines) {line : List Char} (member : line ∈ lines) :
    Exempt dialect line ∨ line.head? = some 'N' := by
  induction numbered with
  | done => cases member
  | exempt here _ ih =>
      rcases List.mem_cons.mp member with rfl | later
      · exact .inl here
      · exact ih later
  | next starts _ ih =>
      rcases List.mem_cons.mp member with rfl | later
      · obtain ⟨rest, rfl⟩ := starts
        exact .inr rfl
      · exact ih later

/-! ## Loose lines -/

/-- A line as it is printed behind its number. -/
def shown (source : List Char) : List Char := trimEnd (fun c => c == ' ' || c == '\t') source

/-- The lines that a line of an entry is printed as without a number. -/
def looseLines (dialect : Dialect) (source : List Char) : List (List Char) :=
  if isNumbered dialect (shown source) then (splitAt '\n' (shown source)).tail
  else splitAt '\n' (shown source)

def numberedCount (dialect : Dialect) (sources : List (List Char)) : Nat :=
  sources.countP fun source => isNumbered dialect (shown source)

private theorem exempt_of_mem_looseLines {source : List Char} (unbroken : '\n' ∉ source)
    {line : List Char} (member : line ∈ looseLines dialect source) : Exempt dialect line := by
  have part : shown source <+: source := trimEnd_prefix _ source
  have single : '\n' ∉ shown source := fun inside => unbroken (part.subset inside)
  rw [looseLines, splitAt_of_not_mem single] at member
  split at member
  · cases member
  · next plain =>
      rw [List.mem_singleton.mp member, exempt_iff]
      simpa using plain

theorem printLine_eq (numbering : dialect.numberLines = true) (number : Int64)
    (source : List Char) :
    printLine dialect number source =
      if isNumbered dialect (shown source) then
        (number + dialect.lineStep,
          'N' :: (toString (number + dialect.lineStep).toInt).toList ++ ' ' :: shown source)
      else (number, shown source) := by
  simp only [printLine, numbering, Bool.true_and]
  rfl

/-- A numbered line of an entry is printed as a line with the number and its loose lines. -/
theorem splitAt_of_isNumbered (numbering : dialect.numberLines = true) (number : Int64)
    {source : List Char} (counts : isNumbered dialect (shown source) = true) :
    ∃ rest, splitAt '\n' (printLine dialect number source).2 =
      ('N' :: (toString (number + dialect.lineStep).toInt).toList ++ [' '] ++ rest) ::
        looseLines dialect source := by
  have label : '\n' ∉ 'N' :: (toString (number + dialect.lineStep).toInt).toList ++ [' '] := by
    intro member
    rw [List.cons_append, List.mem_cons, List.mem_append, List.mem_singleton] at member
    rcases member with letter | digits | blank
    · cases letter
    · rcases mem_toString_int digits with sign | digit
      · cases sign
      · cases digit
    · cases blank
  obtain ⟨first, rest, pieces, lines⟩ := splitAt_front label (shown source)
  refine ⟨first, ?_⟩
  rw [printLine_eq numbering, if_pos counts, looseLines, if_pos counts, pieces, List.tail_cons,
    ← lines, List.append_assoc, List.singleton_append]

theorem splitAt_of_not_isNumbered (numbering : dialect.numberLines = true) (number : Int64)
    {source : List Char} (exempt : ¬ isNumbered dialect (shown source) = true) :
    splitAt '\n' (printLine dialect number source).2 = looseLines dialect source := by
  rw [printLine_eq numbering, if_neg exempt, looseLines, if_neg exempt]

private theorem looseLines_subset (numbering : dialect.numberLines = true) (number : Int64)
    {sources : List (List Char)} {source : List Char} (listed : source ∈ sources) :
    looseLines dialect source ⊆ (printed dialect number sources).flatMap (splitAt '\n') := by
  induction sources generalizing number with
  | nil => cases listed
  | cons first rest ih =>
      rw [printed, List.flatMap_cons]
      rcases List.mem_cons.mp listed with rfl | later
      · apply List.subset_append_of_subset_left
        by_cases counts : isNumbered dialect (shown source) = true
        · obtain ⟨tail, lines⟩ := splitAt_of_isNumbered numbering number counts
          rw [lines]
          exact List.subset_cons_of_subset _ (List.Subset.refl _)
        · rw [splitAt_of_not_isNumbered numbering number counts]
          exact List.Subset.refl _
      · exact List.subset_append_of_subset_right _ (ih _ later)

/-! ## Numbers in range -/

/-- The whole numbers that line numbers are kept in. -/
def InRange (value : Int) : Prop := -2 ^ 63 ≤ value ∧ value < 2 ^ 63

theorem InRange.of_le {step : Int} {count total : Nat} (fewer : count ≤ total)
    (range : InRange (total * step)) : InRange (count * step) := by
  have order : (count : Int) ≤ total := Int.ofNat_le.mpr fewer
  have positive : (0 : Int) ≤ count := Int.natCast_nonneg count
  obtain ⟨low, high⟩ := range
  rcases Int.le_total 0 step with up | down
  · have upper := Int.mul_le_mul_of_nonneg_right order up
    have lower := Int.mul_nonneg positive up
    exact ⟨by omega, by omega⟩
  · have lower := Int.mul_le_mul_of_nonpos_right order down
    have upper := Int.mul_nonpos_of_nonneg_of_nonpos positive down
    exact ⟨by omega, by omega⟩

private theorem toInt_add_step {number step : Int64} {count : Nat}
    (reached : number.toInt = count * step.toInt)
    (range : InRange ((count + 1 : Nat) * step.toInt)) :
    (number + step).toInt = (count + 1 : Nat) * step.toInt := by
  have sum : number.toInt + step.toInt = (count + 1 : Nat) * step.toInt := by
    rw [reached, Int.natCast_add, Int.add_mul]
    simp
  obtain ⟨low, high⟩ := range
  rw [Int64.toInt_add, sum, Int.bmod_eq_of_le (by omega) (by omega)]

/-- Lines are numbered without gaps when the loose ones need no number. -/
theorem numbered_printed (numbering : dialect.numberLines = true) {sources : List (List Char)}
    (loose : ∀ source ∈ sources, ∀ line ∈ looseLines dialect source, Exempt dialect line)
    {count : Nat} {number : Int64} (reached : number.toInt = count * dialect.lineStep.toInt)
    (range : InRange ((count + numberedCount dialect sources : Nat) * dialect.lineStep.toInt)) :
    Numbered dialect count ((printed dialect number sources).flatMap (splitAt '\n')) := by
  induction sources generalizing count number with
  | nil => exact .done
  | cons source rest ih =>
      obtain ⟨here, later⟩ := List.forall_mem_cons.mp loose
      rw [printed, List.flatMap_cons]
      by_cases counts : isNumbered dialect (shown source) = true
      · have next : (printLine dialect number source).1 = number + dialect.lineStep := by
          rw [printLine_eq numbering, if_pos counts]
        obtain ⟨tail, lines⟩ := splitAt_of_isNumbered numbering number counts
        have total : numberedCount dialect (source :: rest) = numberedCount dialect rest + 1 := by
          simp [numberedCount, counts]
        rw [total] at range
        have stepped := toInt_add_step reached (range.of_le (by omega))
        rw [lines, next, stepped, List.cons_append]
        refine .next (List.prefix_append _ _) (.append here (ih later stepped ?_))
        rwa [Nat.add_right_comm, Nat.add_assoc]
      · have same : (printLine dialect number source).1 = number := by
          rw [printLine_eq numbering, if_neg counts]
        have total : numberedCount dialect (source :: rest) = numberedCount dialect rest := by
          simp [numberedCount, counts]
        rw [total] at range
        rw [same, splitAt_of_not_isNumbered numbering number counts]
        exact .append here (ih later reached range)

end Program

namespace Machine

private theorem dialect_openLeg (machine : Machine) (program : Program) (leg : Leg) :
    (machine.openLeg program leg).dialect = program.dialect := by
  have headed : (machine.writeHeading program leg.heading).dialect = program.dialect := by
    obtain ⟨entries, frame⟩ := machine.writeHeading_frame program leg.heading
    rw [frame]
  unfold openLeg
  dsimp only
  split
  · rw [dialect_writeToolChange, headed]
  · exact headed

private theorem dialect_writeLegs {machine : Machine} {program after : Program} {legs : List Leg}
    (written : machine.writeLegs program legs = .ok after) : after.dialect = program.dialect := by
  induction legs generalizing program with
  | nil =>
      cases written
      rfl
  | cons leg rest ih =>
      rw [writeLegs_cons] at written
      obtain ⟨middle, first, onward⟩ := bind_eq_ok.mp written
      rw [ih onward, writeLeg_eq first, dialect_performAll, dialect_openLeg]

end Machine

namespace Instruction

open Kerf.Program (Exempt Numbered looseLines numberedCount InRange)

private theorem dialect_of_compile {instruction : Instruction} {machine : Machine}
    (known : instruction.machine = some machine) {ignore : List String} {program : Program}
    (compiled : instruction.compile ignore = .ok program) :
    program.dialect = machine.dialect := by
  obtain ⟨plan, written, legs, rfl⟩ := exists_plan known compiled
  have headed : (instruction.heading machine ignore).dialect = machine.dialect := by
    unfold heading Machine.writeHeader
    dsimp only
    split <;> split <;> rfl
  have footed : (machine.writeFooter written).dialect = written.dialect := by
    unfold Machine.writeFooter
    dsimp only
    split <;> rfl
  rw [Program.noteOutcomes_eq]
  exact footed.trans ((Machine.dialect_writeLegs legs).trans headed)

/-- Lines are numbered without gaps. When lines are numbered and no line number leaves its range,
every line of a compiled program is numbered in turn or needs no number, provided that what is
printed without one needs none. That holds when the texts that are not taken apart into lines have
no line ends, whatever blocks there are; and a line printed without a number must need none, unless
it brings its own. -/
theorem compile_numbers_lines {instruction : Instruction} {machine : Machine}
    (known : instruction.machine = some machine) (numbering : machine.dialect.numberLines = true)
    {ignore : List String} {program : Program}
    (compiled : instruction.compile ignore = .ok program) :
    let dialect := machine.dialect
    let lines := Machine.codeLines program.text.toList
    let sources := program.entries.toList.flatMap (Entry.lines dialect)
    let loose := sources.flatMap (looseLines dialect)
    (InRange (numberedCount dialect sources * dialect.lineStep.toInt) →
      (∀ line ∈ loose, Exempt dialect line) → Numbered dialect 0 lines) ∧
    (dialect.SingleLined → instruction.SingleLined → ∀ line ∈ loose, Exempt dialect line) ∧
    (Numbered dialect 0 lines → ∀ line ∈ loose, Exempt dialect line ∨ line.head? = some 'N') := by
  intro dialect lines sources loose
  have printed : lines = (printed dialect 0 sources).flatMap (splitAt '\n') := by
    have same : program.dialect = dialect := dialect_of_compile known compiled
    simp only [lines, sources, Program.toList_text, Machine.codeLines_closed, same]
  refine ⟨?_, ?_, ?_⟩
  · intro range exempt
    rw [printed]
    refine Program.numbered_printed numbering ?_ (by simp) (by simpa using range)
    exact fun source listed line member =>
      exempt line (List.mem_flatMap.mpr ⟨source, listed, member⟩)
  · intro lined single line member
    obtain ⟨source, listed, inside⟩ := List.mem_flatMap.mp member
    obtain ⟨entry, written, among⟩ := List.mem_flatMap.mp listed
    have unbroken := unbroken_of_compile known lined single compiled entry written
    exact Program.exempt_of_mem_looseLines (unbroken source among) inside
  · intro numbered line member
    obtain ⟨source, listed, inside⟩ := List.mem_flatMap.mp member
    rw [printed] at numbered
    exact numbered.of_mem (Program.looseLines_subset numbering 0 listed inside)

/-- A block faced once on a machine with three axes. -/
def faced (table : Dialect) : Instruction :=
  { name := "job"
    machine := some ⟨table.withDefaults, .vertical⟩
    operations :=
      [{ name := "cut"
         paths :=
          [{ name := "a", points := [Point.make ⟨-1, 0, 5⟩ Vec.zAxis, Point.make ⟨1, 0, 5⟩ Vec.zAxis] }] }]
    tool := some
      { identity := 0, name := "mill", number := 1, tip := .square, width := 2, feedCut := 600 }
    form := some Route.lowBlock }

/-- Blocks of several lines with any line ends are numbered line by line. -/
theorem compile_numbers_lines_ofBlocks :
    let table : Dialect :=
      { name := "m", numberLines := true, header := "%\r\nG90\rG21\n",
        toolChange := "M05\nT%d M06", sectionBreak := "M01" }
    ∃ program, (faced table).compile [] = .ok program ∧
      program.text = "%\nN10 G90\nN20 G21\n(job)\n(machine m)\nN30 M01\n(cut)\n(tool 1 mill)\n" ++
        "N40 M05\nN50 T1 M06\nN60 G01 X-1 Y0 Z5 F600\nN70 X1\n" ∧
      Numbered table.withDefaults 0 (Machine.codeLines program.text.toList) := by
  intro table
  have succeeds : ((faced table).compile []).isOk = true := by decide +kernel
  have text : ((faced table).compile []).map (·.text) =
      .ok ("%\nN10 G90\nN20 G21\n(job)\n(machine m)\nN30 M01\n(cut)\n(tool 1 mill)\n" ++
        "N40 M05\nN50 T1 M06\nN60 G01 X-1 Y0 Z5 F600\nN70 X1\n") := by
    decide +kernel
  have counted : ((faced table).compile []).map (fun program => numberedCount table.withDefaults
      (program.entries.toList.flatMap (Entry.lines table.withDefaults))) = .ok 7 := by
    decide +kernel
  obtain ⟨program, compiled⟩ := exists_of_isOk succeeds
  rw [compiled] at text counted
  have known : (faced table).machine = some ⟨table.withDefaults, .vertical⟩ := rfl
  obtain ⟨numbered, always, _⟩ := compile_numbers_lines known rfl compiled
  have lined : table.withDefaults.SingleLined :=
    ⟨by decide, by decide, by decide, by decide, by decide⟩
  have single : (faced table).SingleLined := by
    constructor <;> decide
  have seven : numberedCount table.withDefaults
      (program.entries.toList.flatMap (Entry.lines table.withDefaults)) = 7 :=
    Except.ok.inj counted
  refine ⟨program, compiled, Except.ok.inj text, numbered ?_ (always lined single)⟩
  rw [seven]
  exact ⟨by decide, by decide⟩

/-- A section break of two lines gets one number. -/
theorem section_break_unnumbered :
    let table : Dialect := { name := "m", numberLines := true, sectionBreak := "G04 P1\nM01" }
    table.complete.toOption = some table.withDefaults ∧
    ∃ program, (faced table).compile [] = .ok program ∧
      program.text =
        "(job)\n(machine m)\nN10 G04 P1\nM01\n(cut)\nN20 G01 X-1 Y0 Z5 F600\nN30 X1\n" ∧
      ¬ Numbered table.withDefaults 0 (Machine.codeLines program.text.toList) := by
  intro table
  have succeeds : ((faced table).compile []).isOk = true := by decide +kernel
  have text : ((faced table).compile []).map (·.text) =
      .ok "(job)\n(machine m)\nN10 G04 P1\nM01\n(cut)\nN20 G01 X-1 Y0 Z5 F600\nN30 X1\n" := by
    decide +kernel
  obtain ⟨program, compiled⟩ := exists_of_isOk succeeds
  rw [compiled] at text
  have printed : program.text =
      "(job)\n(machine m)\nN10 G04 P1\nM01\n(cut)\nN20 G01 X-1 Y0 Z5 F600\nN30 X1\n" :=
    Except.ok.inj text
  refine ⟨rfl, program, compiled, printed, ?_⟩
  intro numbered
  have listed : "M01".toList ∈ Machine.codeLines program.text.toList := by
    rw [printed]
    decide +kernel
  rcases numbered.of_mem listed with exempt | own
  · have counts : isNumbered table.withDefaults "M01".toList = true := by decide +kernel
    rw [Program.exempt_iff.mp exempt] at counts
    cases counts
  · cases own

end Instruction

end Kerf
