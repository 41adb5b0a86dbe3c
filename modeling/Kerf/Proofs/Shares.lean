import Kerf.Proofs.Pruning
import Mathlib.Data.List.Forall2

/-!
# The share of a path in a program

Between its header and its footer a program is made of shares: one for each path of the instruction, in
document order. The paths of operations are checked before anything is written of them. The motion
before the operations and the one after them are not.

Main statement: nothing is written of an invalid path of an operation, while a motion before the
operations that has points is written whether it is valid or not.
-/

set_option autoImplicit false

namespace Kerf

open Kerf.Program (Entry)

/-! ## Programs only grow -/

namespace Machine

theorem perform_grows (machine : Machine) (program : Program) (act : Act) :
    program.entries.toList <+: (machine.perform program act).entries.toList := by
  cases still : act.target with
  | none =>
      obtain ⟨lines, grown, _⟩ := perform_wordless still machine program
      exact ⟨lines, grown.symm⟩
  | some target =>
      cases act with
      | toolChange | raw | note => cases still
      | move tool point values =>
          have spec := moveWords_spec machine program tool point values
          obtain ⟨speedChange, _, shape⟩ := writeMove_eq machine program tool point values
          rw [perform, shape]
          dsimp only
          split
          · exact spec.entries.symm ▸ List.prefix_rfl
          · rw [Program.entries_write, spec.entries]
            exact List.prefix_append _ _

theorem performAll_grows (machine : Machine) (program : Program) (acts : List Act) :
    program.entries.toList <+: (machine.performAll program acts).entries.toList := by
  induction acts generalizing program with
  | nil => exact List.prefix_rfl
  | cons act rest ih => exact (machine.perform_grows program act).trans (ih _)

theorem writeHeading_grows (machine : Machine) (program : Program) (heading : Option String) :
    program.entries.toList <+: (machine.writeHeading program heading).entries.toList := by
  cases heading with
  | none => exact List.prefix_rfl
  | some name =>
      unfold writeHeading writeOperationStart
      dsimp only
      split <;> split <;> simp

theorem openLeg_grows (machine : Machine) (program : Program) (leg : Leg) :
    program.entries.toList <+: (machine.openLeg program leg).entries.toList := by
  unfold openLeg
  split
  · exact (machine.writeHeading_grows program leg.heading).trans
      (machine.perform_grows _ (.toolChange leg.path.tool))
  · exact machine.writeHeading_grows program leg.heading

variable {machine : Machine} {program : Program}

private theorem writeLegs_grows {after : Program} {legs : List Leg}
    (written : machine.writeLegs program legs = .ok after) :
    program.entries.toList <+: after.entries.toList := by
  induction legs generalizing program with
  | nil =>
      cases written
      exact List.prefix_rfl
  | cons leg rest ih =>
      rw [writeLegs_cons] at written
      obtain ⟨cut, here, later⟩ := bind_eq_ok.mp written
      refine List.IsPrefix.trans ?_ (ih later)
      rw [writeLeg_eq here]
      exact (machine.openLeg_grows program leg).trans (machine.performAll_grows _ _)

/-! ## The first move is always written -/

theorem writeRaw_unset (unset : program.registers.get? "X" = none) (block : String) :
    (program.writeRaw block).registers.get? "X" = none := by
  unfold Program.writeRaw
  split
  · exact unset
  · rw [Program.get?_forget]
    rfl

theorem perform_unset {act : Act} (still : act.target = none)
    (unset : program.registers.get? "X" = none) :
    (machine.perform program act).registers.get? "X" = none := by
  cases act with
  | move => cases still
  | note => exact unset
  | raw block => exact writeRaw_unset unset block
  | toolChange tool =>
      cases tool with
      | none => exact unset
      | some tool =>
          have loaded : (program.word "T" (toString tool.number)).1.registers.get? "X" = none := by
            rw [Program.get?_word]
            exact unset
          rcases machine.writeToolChange_cases program tool with
            ⟨_, same⟩ | ⟨_, _, changed⟩ | ⟨_, _, remark, changed⟩
          · rw [perform, same]
            exact unset
          · rw [perform, changed, Program.get?_forget]
            exact loaded
          · rw [perform, changed, Program.get?_forget]
            have noted : ((program.word "T" (toString tool.number)).1.write
                (.comment remark)).registers.get? "X" = none := loaded
            exact writeRaw_unset noted _

private theorem x_mem_coordinates (machine : Machine) (values : AxisValues) :
    ("X", values.position.x) ∈ machine.coordinates values := by
  unfold coordinates
  dsimp only
  split <;> exact List.mem_cons_self

/-- A move that nothing is known of where it starts is written. -/
theorem perform_writes {act : Act} (moves : act.target ≠ none)
    (unset : program.registers.get? "X" = none) :
    program.entries.size < (machine.perform program act).entries.size := by
  cases act with
  | toolChange | raw | note => exact absurd rfl moves
  | move tool point values =>
      have spec := moveWords_spec machine program tool point values
      obtain ⟨speedChange, _, shape⟩ := writeMove_eq machine program tool point values
      have told : (machine.moveWords program tool point values).2 ≠ [] := by
        intro silent
        have placed := spec.axes _ (machine.x_mem_coordinates values)
        rcases spec.modal.inForce _ _ placed with member | ⟨_, held⟩
        · rw [silent] at member
          cases member
        · rw [unset] at held
          cases held
      rw [perform, shape, if_neg (mt List.isEmpty_iff.mp told)]
      simp [Program.write, spec.entries]

private theorem performAll_writes {acts : List Act} (moves : ∃ act ∈ acts, act.target ≠ none)
    (unset : program.registers.get? "X" = none) :
    program.entries.size < (machine.performAll program acts).entries.size := by
  induction acts generalizing program with
  | nil =>
      obtain ⟨act, member, _⟩ := moves
      cases member
  | cons act rest ih =>
      have onward := (machine.performAll_grows (machine.perform program act) rest).length_le
      have here := (machine.perform_grows program act).length_le
      simp only [Array.length_toList] at onward here
      rw [performAll_cons]
      by_cases still : act.target = none
      · obtain ⟨other, member, target⟩ := moves
        rcases List.mem_cons.mp member with rfl | later
        · exact absurd still target
        · exact Nat.lt_of_le_of_lt here (ih ⟨other, later, target⟩ (perform_unset still unset))
      · exact Nat.lt_of_lt_of_le (perform_writes still unset) onward

private theorem exists_move_pathActs {path : Path} (writable : path.Writable) (machine : Machine)
    (rotary : Rotary.Setting) : ∃ act ∈ machine.pathActs rotary path, act.target ≠ none := by
  obtain ⟨⟨tool, form⟩, ready⟩ := writable.ready
  have points := machine.points_moveActs rotary (some tool) path.points
  obtain ⟨act, member, target⟩ :
      ∃ act ∈ machine.moveActs rotary (some tool) path.points, act.target ≠ none := by
    by_contra none
    push Not at none
    rw [List.filterMap_eq_nil_iff.mpr none] at points
    exact writable.points points.symm
  refine ⟨act, ?_, target⟩
  unfold pathActs
  rw [ready]
  dsimp only
  split <;> simp [member]

/-- A program whose first leg has a path with points is longer than its header. -/
theorem writeLeg_writes {cut : Program} {leg : Leg}
    (written : machine.writeLeg program leg = .ok cut) (writable : leg.path.Writable)
    (bare : leg.heading = none) (unset : program.registers.get? "X" = none) :
    program.entries.size < cut.entries.size := by
  have still : (Act.toolChange leg.path.tool).target = none := rfl
  have unsetOpened : (machine.openLeg program leg).registers.get? "X" = none := by
    unfold openLeg
    rw [bare]
    split
    · exact perform_unset still unset
    · exact unset
  have opened := (machine.openLeg_grows program leg).length_le
  simp only [Array.length_toList] at opened
  obtain ⟨act, member, target⟩ := machine.exists_move_pathActs writable
    (machine.performAll (machine.openLeg program leg)
      (machine.transitionActs (machine.openLeg program leg).rotary leg.source leg.path
        leg.heading.isSome)).rotary
  rw [writeLeg_eq written]
  refine Nat.lt_of_le_of_lt opened (performAll_writes ⟨act, ?_, target⟩ unsetOpened)
  exact List.mem_append_right _ member

end Machine

/-! ## What becomes of the paths of operations -/

theorem Operation.paths_of_resolved {tool : Option Tool} {form : Option Stock.Form}
    {paths : List Path} (complete : (resolvePaths tool form paths).2 = none) :
    (resolvePaths tool form paths).1 = paths.map (·.resolve tool form) := by
  induction paths with
  | nil => rfl
  | cons path rest ih =>
      unfold resolvePaths at complete ⊢
      dsimp only at complete ⊢
      split at complete
      · cases complete
      · exact congrArg (List.cons _) (ih complete)

namespace Instruction

variable {instruction : Instruction} {machine : Machine}

theorem resolved_eq {operations : List Operation}
    (filled : instruction.resolveOperations = .ok operations) :
    operations = instruction.operations.map instruction.equip := by
  have pairs := forall₂_of_mapM filled
  rw [← List.forall₂_eq_eq_eq, List.forall₂_map_right_iff]
  refine List.Forall₂.flip (pairs.imp ?_)
  intro original resolved resolves
  split at resolves
  · next complete =>
      cases resolves
      obtain ⟨became, none⟩ := Prod.mk.inj complete
      rw [← became, Operation.paths_of_resolved none]
      rfl
  · cases resolves

/-- Whether an operation has been prepared: each of its paths, with what it lacked, has become one of
the outcomes. -/
def Prepares (instruction : Instruction) (machine : Machine) (original : Operation)
    (prepared : Prepared) : Prop :=
  List.Forall₂
    (fun given outcome => (instruction.supplied original given).prepare machine = .ok outcome)
    original.paths prepared.outcomes

theorem forall₂_prepares {operations : List Prepared}
    (found : instruction.prepareOperations machine = .ok operations) :
    List.Forall₂ (instruction.Prepares machine) instruction.operations operations := by
  obtain ⟨resolved, filled, prepared⟩ := bind_eq_ok.mp found
  have pairs := forall₂_of_mapM prepared
  rw [resolved_eq filled, List.forall₂_map_left_iff] at pairs
  refine pairs.imp fun original operation done => ?_
  obtain ⟨outcomes, expanded, same⟩ := bind_eq_ok.mp (mapError_eq_ok.mp done)
  cases same
  exact List.forall₂_map_left_iff.mp (forall₂_of_mapM expanded)

end Instruction

/-! ## Shares -/

/-- Where a path stands in an instruction. -/
inductive Place where
  | start
  | operation
  | finish
  deriving DecidableEq

/-- A path of an instruction with what belongs to it. -/
structure Share (Item : Type) where
  place : Place
  given : Path
  items : List Item

def Share.owner {Item : Type} (share : Share Item) : Place × Path := (share.place, share.given)

/-- The paths of an instruction in document order, each with its place. -/
def Instruction.owners (instruction : Instruction) : List (Place × Path) :=
  instruction.start.toList.map (.start, ·) ++
    instruction.operations.flatMap (fun operation => operation.paths.map (.operation, ·)) ++
    instruction.finish.toList.map (.finish, ·)

namespace Leg

/-- The legs of an operation by the paths that they are written of. -/
def outcomeShares (heading : Option String) (previous : Option Path) :
    List (Path × Outcome) → List (Share Leg)
  | [] => []
  | (given, outcome) :: rest =>
      let legs := ofPasses heading previous outcome.passes
      ⟨.operation, given, legs⟩ ::
        outcomeShares (if legs.isEmpty then heading else none) (latest previous legs) rest

/-- The legs of operations by the paths that they are written of. -/
def operationShares (previous : Option Path) : List (Operation × Prepared) → List (Share Leg)
  | [] => []
  | (original, prepared) :: rest =>
      let legs := ofPasses (some prepared.name) previous prepared.passes
      outcomeShares (some prepared.name) previous (original.paths.zip prepared.outcomes) ++
        operationShares (latest previous legs) rest

private theorem ofPasses_append (heading : Option String) (previous : Option Path)
    (front back : List Path) : ofPasses heading previous (front ++ back) =
      ofPasses heading previous front ++
        ofPasses (if (ofPasses heading previous front).isEmpty then heading else none)
          (latest previous (ofPasses heading previous front)) back := by
  induction front generalizing heading previous with
  | nil => rfl
  | cons pass rest ih =>
      rw [List.cons_append, ofPasses, ih]
      cases rest <;> rfl

private theorem items_outcomeShares (heading : Option String) (previous : Option Path)
    (pairs : List (Path × Outcome)) : (outcomeShares heading previous pairs).flatMap (·.items) =
      ofPasses heading previous (pairs.flatMap (·.2.passes)) := by
  induction pairs generalizing heading previous with
  | nil => rfl
  | cons pair rest ih =>
      rw [outcomeShares, List.flatMap_cons, ih, List.flatMap_cons, ofPasses_append]

private theorem owners_outcomeShares (heading : Option String) (previous : Option Path)
    (pairs : List (Path × Outcome)) : (outcomeShares heading previous pairs).map (·.owner) =
      (pairs.map (·.1)).map (.operation, ·) := by
  induction pairs generalizing heading previous with
  | nil => rfl
  | cons pair rest ih => rw [outcomeShares, List.map_cons, ih, List.map_cons, List.map_cons]; rfl

private theorem mem_outcomeShares {heading : Option String} {previous : Option Path}
    {pairs : List (Path × Outcome)} {share : Share Leg}
    (member : share ∈ outcomeShares heading previous pairs) :
    share.place = .operation ∧
      ∃ outcome, (share.given, outcome) ∈ pairs ∧ (outcome.passes = [] → share.items = []) := by
  induction pairs generalizing heading previous with
  | nil => cases member
  | cons pair rest ih =>
      rcases List.mem_cons.mp member with rfl | later
      · refine ⟨rfl, pair.2, List.mem_cons_self, ?_⟩
        intro bare
        dsimp only
        rw [bare]
        rfl
      · obtain ⟨place, outcome, listed, bare⟩ := ih later
        exact ⟨place, outcome, List.mem_cons_of_mem _ listed, bare⟩

variable {instruction : Instruction} {machine : Machine}

private theorem flatMap_zip_outcomes {original : Operation} {prepared : Prepared}
    (prepares : instruction.Prepares machine original prepared) :
    (original.paths.zip prepared.outcomes).flatMap (·.2.passes) = prepared.passes := by
  have paired := prepares.length_eq
  calc (original.paths.zip prepared.outcomes).flatMap (·.2.passes)
      = ((original.paths.zip prepared.outcomes).map (·.2)).flatMap (·.passes) := by
        rw [List.flatMap_map]
    _ = prepared.passes := by rw [List.map_snd_zip (Nat.le_of_eq paired.symm)]; rfl

variable {originals : List Operation} {operations : List Prepared}

private theorem items_operationShares
    (prepares : List.Forall₂ (instruction.Prepares machine) originals operations)
    (previous : Option Path) :
    (operationShares previous (originals.zip operations)).flatMap (·.items) =
      ofOperations previous operations := by
  induction prepares generalizing previous with
  | nil => rfl
  | cons prepared _ ih =>
      rw [List.zip_cons_cons, operationShares, List.flatMap_append, items_outcomeShares,
        flatMap_zip_outcomes prepared, ih, ofOperations]

private theorem owners_operationShares
    (prepares : List.Forall₂ (instruction.Prepares machine) originals operations)
    (previous : Option Path) :
    (operationShares previous (originals.zip operations)).map (·.owner) =
      originals.flatMap (fun operation => operation.paths.map (.operation, ·)) := by
  induction prepares generalizing previous with
  | nil => rfl
  | cons prepared _ ih =>
      rw [List.zip_cons_cons, operationShares, List.map_append, owners_outcomeShares, ih,
        List.map_fst_zip (Nat.le_of_eq prepared.length_eq), List.flatMap_cons]

/-- No leg is written of an invalid path of an operation. -/
theorem items_of_mem_operationShares
    (prepares : List.Forall₂ (instruction.Prepares machine) originals operations)
    {previous : Option Path} {share : Share Leg}
    (member : share ∈ operationShares previous (originals.zip operations)) :
    share.place = .operation ∧ (share.given.isInvalid = true → share.items = []) := by
  induction prepares generalizing previous with
  | nil => cases member
  | @cons original prepared _ _ prepares _ ih =>
      rcases List.mem_append.mp member with here | later
      · obtain ⟨place, outcome, listed, bare⟩ := mem_outcomeShares here
        refine ⟨place, fun invalid => bare ?_⟩
        have rejected : (instruction.supplied original share.given).isInvalid = true :=
          (Path.isInvalid_resolve _ _ _).trans invalid
        have became := List.forall₂_zip prepares listed
        rw [Path.prepare_of_isInvalid rejected] at became
        cases became
        rfl
      · exact ih later

end Leg

namespace Machine

/-- What is written when the legs of shares are written one after another, share by share. -/
def writeShares (machine : Machine) (program : Program) : List (Share Leg) → List (Share Entry)
  | [] => []
  | share :: rest =>
      match machine.writeLegs program share.items with
      | .error _ => []
      | .ok written =>
          ⟨share.place, share.given, written.entries.toList.drop program.entries.size⟩ ::
            machine.writeShares written rest

/-- A program that is written from shares has theirs added, one after another. -/
theorem writeShares_spec {machine : Machine} {program after : Program} {shares : List (Share Leg)}
    (written : machine.writeLegs program (shares.flatMap (·.items)) = .ok after) :
    after.entries.toList =
        program.entries.toList ++ (machine.writeShares program shares).flatMap (·.items) ∧
      (machine.writeShares program shares).map (·.owner) = shares.map (·.owner) := by
  induction shares generalizing program with
  | nil =>
      cases written
      simp [writeShares]
  | cons share rest ih =>
      rw [List.flatMap_cons, writeLegs_append] at written
      obtain ⟨cut, here, later⟩ := bind_eq_ok.mp written
      obtain ⟨entries, owners⟩ := ih later
      have grown := List.prefix_iff_eq_append.mp (writeLegs_grows here)
      rw [Array.length_toList] at grown
      rw [writeShares, here]
      constructor
      · rw [List.flatMap_cons, ← List.append_assoc, grown, entries]
      · rw [List.map_cons, List.map_cons, owners]
        rfl

private theorem mem_writeShares {machine : Machine} {program : Program} {shares : List (Share Leg)}
    {share : Share Entry} (member : share ∈ machine.writeShares program shares) :
    ∃ source ∈ shares, share.place = source.place ∧ share.given = source.given ∧
      (source.items = [] → share.items = []) := by
  induction shares generalizing program with
  | nil => cases member
  | cons first rest ih =>
      unfold writeShares at member
      split at member
      · cases member
      · next written here =>
          rcases List.mem_cons.mp member with rfl | later
          · refine ⟨first, List.mem_cons_self, rfl, rfl, ?_⟩
            intro bare
            rw [bare] at here
            cases here
            exact List.drop_length
          · obtain ⟨source, listed, same⟩ := ih later
            exact ⟨source, List.mem_cons_of_mem _ listed, same⟩

private theorem entries_writeFooter (machine : Machine) (program : Program) :
    (machine.writeFooter program).entries.toList =
      program.entries.toList ++
        (if machine.dialect.footer.isEmpty then [] else [.block machine.dialect.footer]) := by
  unfold writeFooter
  dsimp only
  split
  · rw [List.append_nil]
  · exact Program.entries_write program _

end Machine

namespace Instruction

variable {instruction : Instruction} {machine : Machine}

private theorem registers_heading (instruction : Instruction) (machine : Machine)
    (ignore : List String) : (instruction.heading machine ignore).registers = [] := by
  unfold heading Machine.writeHeader
  dsimp only
  split <;> split <;> rfl

/-- A motion before or after the operations is written exactly if it has points. -/
theorem eq_none_of_prepareEnd {given : Path} {prepared : Option Path}
    (found : instruction.prepareEnd machine (some given) = .ok prepared) :
    prepared = none ↔ given.points = [] := by
  unfold prepareEnd at found
  dsimp only at found
  split at found
  · next empty =>
      cases found
      simp [List.isEmpty_iff.mp empty]
  · next filled =>
      have points := mt List.isEmpty_iff.mpr filled
      obtain ⟨context, _, later⟩ := bind_eq_ok.mp found
      split at later
      · cases later
        simp [points]
      · obtain ⟨passes, _, same⟩ := bind_eq_ok.mp later
        cases same
        simp [points]

namespace Plan

/-- The legs of a plan by the paths of the instruction that they are written of. -/
def legShares (plan : instruction.Plan machine) : List (Share Leg) :=
  instruction.start.toList.map
      (fun given => ⟨.start, given, plan.start.toList.map fun path => { path := path }⟩) ++
    Leg.operationShares plan.start (instruction.operations.zip plan.operations) ++
    instruction.finish.toList.map fun given => ⟨.finish, given, plan.closing⟩

def shares (plan : instruction.Plan machine) (ignore : List String) : List (Share Entry) :=
  machine.writeShares (instruction.heading machine ignore) plan.legShares

private theorem start_eq_none (plan : instruction.Plan machine) (absent : instruction.start = none) :
    plan.start = none := by
  have before := plan.before
  rw [absent] at before
  exact (Except.ok.inj before).symm

private theorem finish_eq_none (plan : instruction.Plan machine)
    (absent : instruction.finish = none) : plan.finish = none := by
  have after := plan.after
  rw [absent] at after
  exact (Except.ok.inj after).symm

variable {given : Path} {ignore : List String} {program : Program}

theorem start_eq_none_iff (plan : instruction.Plan machine) (own : instruction.start = some given) :
    plan.start = none ↔ given.points = [] :=
  eq_none_of_prepareEnd (own ▸ plan.before)

private theorem finish_eq_none_iff (plan : instruction.Plan machine)
    (own : instruction.finish = some given) : plan.finish = none ↔ given.points = [] :=
  eq_none_of_prepareEnd (own ▸ plan.after)

theorem items_legShares (plan : instruction.Plan machine) :
    plan.legShares.flatMap (·.items) = plan.legs := by
  have opening : (instruction.start.toList.map fun given : Path =>
      (⟨.start, given, plan.start.toList.map fun path => { path := path }⟩ : Share Leg)).flatMap
        (·.items) = plan.start.toList.map fun path => { path := path } := by
    cases absent : instruction.start with
    | none =>
        rw [plan.start_eq_none absent]
        rfl
    | some given => simp
  have closing : (instruction.finish.toList.map fun given : Path =>
      (⟨.finish, given, plan.closing⟩ : Share Leg)).flatMap (·.items) = plan.closing := by
    cases absent : instruction.finish with
    | none =>
        rw [closing, plan.finish_eq_none absent]
        rfl
    | some given => simp
  rw [legShares, List.flatMap_append, List.flatMap_append, opening, closing,
    Leg.items_operationShares (forall₂_prepares plan.prepared)]
  rfl

private theorem owners_legShares (plan : instruction.Plan machine) :
    plan.legShares.map (·.owner) = instruction.owners := by
  rw [legShares, List.map_append, List.map_append,
    Leg.owners_operationShares (forall₂_prepares plan.prepared), List.map_map, List.map_map]
  rfl

/-- A program is its header, the shares of all paths and its footer. -/
theorem entries_of_writes {plan : instruction.Plan machine} (writes : plan.Writes ignore program) :
    (plan.shares ignore).map (·.owner) = instruction.owners ∧
      program.entries.toList =
        (instruction.heading machine ignore).entries.toList ++
          (plan.shares ignore).flatMap (·.items) ++
          (if machine.dialect.footer.isEmpty then [] else [.block machine.dialect.footer]) := by
  obtain ⟨written, legs, rfl⟩ := writes
  rw [← plan.items_legShares] at legs
  obtain ⟨entries, owners⟩ := Machine.writeShares_spec legs
  refine ⟨owners.trans plan.owners_legShares, ?_⟩
  rw [Program.noteOutcomes_eq, shares, ← entries]
  exact machine.entries_writeFooter written

/-- When nothing is written of a path: an invalid path of an operation, and any other motion without
points. -/
theorem items_eq_nil (plan : instruction.Plan machine) {share : Share Entry}
    (member : share ∈ plan.shares ignore) :
    (share.place = .start ∧ instruction.start = some share.given ∧
        (share.given.points = [] → share.items = [])) ∨
      (share.place = .operation ∧ (share.given.isInvalid = true → share.items = [])) ∨
      (share.place = .finish ∧ instruction.finish = some share.given ∧
        (share.given.points = [] → share.items = [])) := by
  obtain ⟨source, listed, place, given, bare⟩ := Machine.mem_writeShares member
  rw [place, given]
  rcases List.mem_append.mp listed with front | last
  · rcases List.mem_append.mp front with first | cutting
    · obtain ⟨path, known, rfl⟩ := List.mem_map.mp first
      have own := Option.mem_toList.mp known
      refine .inl ⟨rfl, own, fun empty => bare ?_⟩
      rw [(plan.start_eq_none_iff own).mpr empty]
      rfl
    · obtain ⟨operation, invalid⟩ :=
        Leg.items_of_mem_operationShares (forall₂_prepares plan.prepared) cutting
      exact .inr (.inl ⟨operation, fun rejected => bare (invalid rejected)⟩)
  · obtain ⟨path, known, rfl⟩ := List.mem_map.mp last
    have own := Option.mem_toList.mp known
    refine .inr (.inr ⟨rfl, own, fun empty => bare ?_⟩)
    dsimp only
    rw [closing, (plan.finish_eq_none_iff own).mpr empty]
    rfl

/-- Something is always written of a motion before the operations that has points. -/
theorem exists_start_share {plan : instruction.Plan machine} (writes : plan.Writes ignore program)
    (own : instruction.start = some given) (points : given.points ≠ []) :
    ∃ share ∈ plan.shares ignore,
      share.place = .start ∧ share.given = given ∧ share.items ≠ [] := by
  obtain ⟨written, legs, _⟩ := writes
  obtain ⟨path, prepared⟩ :=
    Option.ne_none_iff_exists'.mp (mt (plan.start_eq_none_iff own).mp points)
  have writable : path.Writable := writable_of_prepareEnd (plan.before.trans (by rw [prepared]))
  let share : Share Leg := ⟨.start, given, [{ path }]⟩
  obtain ⟨rest, shares⟩ : ∃ rest, plan.legShares = share :: rest := by
    unfold legShares
    rw [own, prepared]
    exact ⟨_, rfl⟩
  rw [← items_legShares, shares, List.flatMap_cons, Machine.writeLegs_append] at legs
  obtain ⟨cut, here, _⟩ := bind_eq_ok.mp legs
  refine ⟨⟨.start, given, cut.entries.toList.drop (instruction.heading machine ignore).entries.size⟩,
    ?_, rfl, rfl, ?_⟩
  · rw [Plan.shares, shares, Machine.writeShares, here]
    exact List.mem_cons_self
  · rw [Machine.writeLegs_cons] at here
    obtain ⟨_, first, last⟩ := bind_eq_ok.mp here
    cases last
    have unset : (instruction.heading machine ignore).registers.get? "X" = none := by
      rw [registers_heading]
      rfl
    have longer := Machine.writeLeg_writes first writable rfl unset
    simpa using longer

/-- When nothing is written of any invalid path. -/
theorem omits_invalid_iff {plan : instruction.Plan machine} (writes : plan.Writes ignore program) :
    (∀ share ∈ plan.shares ignore, share.given.isInvalid = true → share.items = []) ↔
      (∀ given, instruction.start = some given → given.points ≠ [] → given.isInvalid = false) ∧
      ∀ share ∈ plan.shares ignore, share.place = .finish → share.given.points ≠ [] →
        share.given.isInvalid = true → share.items = [] := by
  constructor
  · intro omits
    refine ⟨?_, fun share member _ _ => omits share member⟩
    intro given own points
    obtain ⟨share, member, _, rfl, filled⟩ := exists_start_share writes own points
    exact Bool.eq_false_iff.mpr (mt (omits share member) filled)
  · rintro ⟨before, after⟩ share member invalid
    rcases plan.items_eq_nil member with ⟨_, own, bare⟩ | ⟨_, bare⟩ | ⟨place, _, bare⟩
    · by_cases points : share.given.points = []
      · exact bare points
      · rw [before share.given own points] at invalid
        cases invalid
    · exact bare invalid
    · by_cases points : share.given.points = []
      · exact bare points
      · exact after share member place points invalid

end Plan

/-- Between header and footer a program has one share for each path of the instruction, in document
order. The share of an invalid path of an operation is empty; that of a motion before the operations
never is, if it has points. So invalid paths are kept out of a program exactly if the motion before the
operations is valid or has no points, and the motion after them is so too or has an empty share. -/
theorem compile_shares (known : instruction.machine = some machine) {ignore : List String}
    {program : Program} (compiled : instruction.compile ignore = .ok program) :
    ∃ plan : instruction.Plan machine, plan.Writes ignore program ∧
      let shares := plan.shares ignore
      shares.map (·.owner) = instruction.owners ∧
      program.entries.toList =
        (instruction.heading machine ignore).entries.toList ++ shares.flatMap (·.items) ++
          (if machine.dialect.footer.isEmpty then [] else [.block machine.dialect.footer]) ∧
      (∀ share ∈ shares, share.place = .operation → share.given.isInvalid = true →
        share.items = []) ∧
      (∀ given, instruction.start = some given → given.points ≠ [] →
        ∃ share ∈ shares, share.place = .start ∧ share.given = given ∧ share.items ≠ []) ∧
      ((∀ share ∈ shares, share.given.isInvalid = true → share.items = []) ↔
        (∀ given, instruction.start = some given → given.points ≠ [] → given.isInvalid = false) ∧
        ∀ share ∈ shares, share.place = .finish → share.given.points ≠ [] →
          share.given.isInvalid = true → share.items = []) := by
  obtain ⟨plan, writes⟩ := exists_plan known compiled
  obtain ⟨owners, entries⟩ := Plan.entries_of_writes writes
  refine ⟨plan, writes, owners, entries, ?_, fun given => Plan.exists_start_share writes,
    Plan.omits_invalid_iff writes⟩
  intro share member place invalid
  rcases plan.items_eq_nil member with ⟨other, _⟩ | ⟨_, bare⟩ | ⟨other, _⟩
  · cases other.symm.trans place
  · exact bare invalid
  · cases other.symm.trans place

def nowhere : Path := { name := "nowhere", points := [Point.make ⟨0 / 0, 0, 2⟩ Vec.zAxis] }

/-- A block that is cut across after some motion, with a path that leads nowhere in between. -/
def approached (start : Path) : Instruction :=
  { name := "job"
    machine := some ⟨{ commentStart := "(", commentEnd := ")" }, .vertical⟩
    operations := [{ name := "face", paths := [nowhere, acrossTop] }]
    start := some start
    tool := some { identity := 0, name := "mill", number := 1, tip := .square, width := 4 }
    form := some Route.lowBlock }

theorem compile_shares_approached :
    let machine : Machine := ⟨{ commentStart := "(", commentEnd := ")" }, .vertical⟩
    ∃ program, (approached acrossTop).compile [] = .ok program ∧
      ∃ plan : (approached acrossTop).Plan machine, plan.Writes [] program ∧
        (∃ share ∈ plan.shares [], share.owner = (.operation, nowhere) ∧ share.items = []) ∧
        ∀ share ∈ plan.shares [], share.given.isInvalid = true → share.items = [] := by
  intro machine
  have succeeds : ((approached acrossTop).compile []).isOk = true := by decide +kernel
  obtain ⟨program, compiled⟩ := exists_of_isOk succeeds
  have known : (approached acrossTop).machine = some machine := rfl
  obtain ⟨plan, writes, owners, _, omitted, _, kept⟩ := compile_shares known compiled
  refine ⟨program, compiled, plan, writes, ?_, kept.mpr ⟨?_, ?_⟩⟩
  · have listed : (.operation, nowhere) ∈ (plan.shares []).map (·.owner) := by
      rw [owners]
      exact .tail _ (.head _)
    obtain ⟨share, member, same⟩ := List.mem_map.mp listed
    obtain ⟨place, given⟩ := Prod.mk.inj same
    have invalid : nowhere.isInvalid = true := by decide +kernel
    exact ⟨share, member, same, omitted share member place (given ▸ invalid)⟩
  · intro given own _
    cases own
    decide +kernel
  · intro share member place
    rcases plan.items_eq_nil member with ⟨other, _⟩ | ⟨other, _⟩ | ⟨_, absent, _⟩
    · cases other.symm.trans place
    · cases other.symm.trans place
    · cases absent

/-- A motion before the operations that begins nowhere is written all the same. -/
theorem invalid_start_written :
    let astray : Path := { nowhere with points := nowhere.points ++ acrossTop.points }
    let machine : Machine := ⟨{ commentStart := "(", commentEnd := ")" }, .vertical⟩
    astray.isInvalid = true ∧
    ∃ program, (approached astray).compile [] = .ok program ∧
      program.text =
        "(job)\n(machine )\nG01 XNaN Y0 Z2\nX-1\nX1\n(face)\nX-1\nX1\n" ∧
      ∃ plan : (approached astray).Plan machine, plan.Writes [] program ∧
        ∃ share ∈ plan.shares [], share.given = astray ∧ share.items ≠ [] := by
  intro astray machine
  have text : ((approached astray).compile []).map (·.text) =
      .ok "(job)\n(machine )\nG01 XNaN Y0 Z2\nX-1\nX1\n(face)\nX-1\nX1\n" := by
    decide +kernel
  have succeeds : ((approached astray).compile []).isOk = true := by decide +kernel
  obtain ⟨program, compiled⟩ := exists_of_isOk succeeds
  have known : (approached astray).machine = some machine := rfl
  obtain ⟨plan, writes⟩ := exists_plan known compiled
  rw [compiled] at text
  have own : (approached astray).start = some astray := rfl
  obtain ⟨share, member, _, given, filled⟩ :=
    Plan.exists_start_share writes own (List.cons_ne_nil _ _)
  exact ⟨by decide +kernel, program, compiled, Except.ok.inj text, plan, writes, share, member, given,
    filled⟩

end Instruction

end Kerf
