import Kerf.Proofs.Faults

/-!
# The stock that a preview shows

A preview walks through an instruction and collects every piece of stock that is mentioned, each of
them once. Compiling walks through it too, and gives every path the stock that it is cut from: its own,
or else what the operation and the instruction have in store for it. The two walks have nothing in
common but the instruction, and still no path is cut from stock that the preview does not show.

Main statement: `compile_cuts_shown_stock`.
-/

set_option autoImplicit false

namespace Kerf

open Kerf.Stock (Form)

/-! ## First mentions -/

theorem Stock.Form.same_iff {f g : Form} : f.same g = true ↔ f.identity = g.identity := beq_iff_eq

/-- Whether some forms are the different ones among all that are mentioned, in the order of their
first mention. -/
structure FirstMentions (mentions shown : List Form) : Prop where
  /-- Each form is shown as it is mentioned first. -/
  first : ∀ form ∈ shown, mentions[mentions.findIdx (·.same form)]? = some form
  ordered : shown.Pairwise fun f g => mentions.findIdx (·.same f) < mentions.findIdx (·.same g)
  complete : ∀ form ∈ mentions, ∃ other ∈ shown, other.same form = true

/-- Adds a form to those seen before unless it is one of them. -/
def noteForm (seen : List Form) (form : Form) : List Form :=
  if seen.any (·.same form) then seen else seen ++ [form]

namespace FirstMentions

variable {mentions shown : List Form} {form : Form}

theorem findIdx_lt (firsts : FirstMentions mentions shown) (member : form ∈ shown) :
    mentions.findIdx (·.same form) < mentions.length :=
  (List.getElem?_eq_some_iff.mp (firsts.first form member)).1

/-- A further mention does not change where a form that is shown is mentioned first. -/
theorem findIdx_append (firsts : FirstMentions mentions shown) (member : form ∈ shown)
    (further : List Form) :
    (mentions ++ further).findIdx (·.same form) = mentions.findIdx (·.same form) := by
  rw [List.findIdx_append, if_pos (firsts.findIdx_lt member)]

private theorem findIdx_of_unseen (firsts : FirstMentions mentions shown)
    (unseen : ∀ other ∈ shown, ¬ other.same form = true) :
    mentions.findIdx (·.same form) = mentions.length := by
  refine List.findIdx_eq_length.mpr fun mention listed => ?_
  obtain ⟨other, member, same⟩ := firsts.complete mention listed
  have apart := unseen other member
  rw [Stock.Form.same_iff] at same apart
  rw [← Bool.not_eq_true, Stock.Form.same_iff, ← same]
  exact apart

theorem first_append (firsts : FirstMentions mentions shown) (further : List Form) {other : Form}
    (member : other ∈ shown) :
    (mentions ++ further)[(mentions ++ further).findIdx (·.same other)]? = some other := by
  rw [firsts.findIdx_append member, List.getElem?_append_left (firsts.findIdx_lt member)]
  exact firsts.first other member

theorem ordered_append (firsts : FirstMentions mentions shown) (further : List Form) :
    shown.Pairwise fun f g => (mentions ++ further).findIdx (·.same f) <
      (mentions ++ further).findIdx (·.same g) := by
  refine firsts.ordered.imp_of_mem fun memberF memberG earlier => ?_
  rwa [firsts.findIdx_append memberF, firsts.findIdx_append memberG]

/-- A form that is mentioned again. -/
theorem again (firsts : FirstMentions mentions shown)
    (seen : ∃ other ∈ shown, other.same form = true) : FirstMentions (mentions ++ [form]) shown where
  first _ := firsts.first_append [form]
  ordered := firsts.ordered_append [form]
  complete mention listed := by
    rcases List.mem_append.mp listed with earlier | last
    · exact firsts.complete mention earlier
    · rw [List.mem_singleton.mp last]
      exact seen

/-- A form that has not been mentioned before. -/
theorem concat (firsts : FirstMentions mentions shown)
    (unseen : ∀ other ∈ shown, ¬ other.same form = true) :
    FirstMentions (mentions ++ [form]) (shown ++ [form]) := by
  have place : (mentions ++ [form]).findIdx (·.same form) = mentions.length := by
    rw [List.findIdx_append, firsts.findIdx_of_unseen unseen, if_neg (lt_irrefl _)]
    simp [Stock.Form.same]
  refine { first := ?_, ordered := ?_, complete := ?_ }
  · intro other member
    rcases List.mem_append.mp member with earlier | last
    · exact firsts.first_append [form] earlier
    · rw [List.mem_singleton.mp last, place]
      exact List.getElem?_concat_length
  · refine List.pairwise_append.mpr ⟨firsts.ordered_append [form], List.pairwise_singleton _ _, ?_⟩
    intro other member last listed
    rw [List.mem_singleton.mp listed, place, firsts.findIdx_append member]
    exact firsts.findIdx_lt member
  · intro mention listed
    rcases List.mem_append.mp listed with earlier | last
    · obtain ⟨other, member, same⟩ := firsts.complete mention earlier
      exact ⟨other, List.mem_append_left _ member, same⟩
    · rw [List.mem_singleton.mp last]
      exact ⟨form, by simp, Stock.Form.same_iff.mpr rfl⟩

theorem note (firsts : FirstMentions mentions shown) (form : Form) :
    FirstMentions (mentions ++ [form]) (noteForm shown form) := by
  unfold noteForm
  split
  · next seen => exact firsts.again (List.any_eq_true.mp seen)
  · next unseen =>
      exact firsts.concat fun other member same =>
        unseen (List.any_eq_true.mpr ⟨other, member, same⟩)

theorem distinct (firsts : FirstMentions mentions shown) :
    shown.Pairwise fun f g => f.same g = false := by
  refine firsts.ordered.imp fun {f g} earlier => ?_
  rw [← Bool.not_eq_true, Stock.Form.same_iff]
  intro same
  -- Forms that are the same have their first mention in common.
  have alike : (fun form : Form => form.same f) = (·.same g) := by
    funext form
    rw [Stock.Form.same, Stock.Form.same, same]
  rw [alike] at earlier
  exact lt_irrefl _ earlier

end FirstMentions

theorem Instruction.firstMentions_forms (instruction : Instruction) :
    FirstMentions instruction.mentions instruction.forms := by
  change FirstMentions instruction.mentions (instruction.mentions.foldl noteForm [])
  -- The induction is on the mentions from the last one on, as they are walked through.
  induction instruction.mentions using List.reverseRecOn with
  | nil => exact { first := by simp, ordered := List.Pairwise.nil, complete := by simp }
  | append_singleton mentions form ih =>
      rw [List.foldl_append]
      exact ih.note form

/-! ## Paths of which nothing is cut -/

namespace Path

variable {machine : Machine} {path : Path} {outcome : Outcome}

private theorem collapses_of_passes (failed : path.passes machine = .error .collapsed) :
    path.Collapses := by
  cases noPasses_of_passes failed with
  | @collapsed tool _ known collapsed => exact ⟨tool, (context_eq_ok.mp known).1, collapsed⟩

/-- A path that has been prepared has no passes exactly if it is invalid or has collapsed. -/
theorem passes_eq_nil_iff (found : path.prepare machine = .ok outcome) :
    outcome.passes = [] ↔ path.isInvalid = true ∨ path.Collapses := by
  unfold prepare at found
  split at found
  · next invalid =>
      cases found
      exact iff_of_true rfl (.inl invalid)
  · next valid =>
      dsimp only at found
      split at found
      · next passes expanded =>
          cases found
          obtain ⟨counted, _⟩ := passes_spec expanded
          obtain ⟨tool, form, loops, _, known, _, moved, _⟩ := passes_eq_ok expanded
          refine iff_of_false ?_ ?_
          · change passes ≠ []
            rintro rfl
            simp at counted
          · rintro (invalid | ⟨other, held, collapsed⟩)
            · exact valid invalid
            · cases held.symm.trans (context_eq_ok.mp known).1
              cases collapsed.symm.trans moved
      · next expanded =>
          cases found
          exact iff_of_true rfl (.inr (collapses_of_passes expanded))
      · cases found

end Path

/-! ## Where the stock of a path comes from -/

namespace Instruction

variable {instruction : Instruction} {machine : Machine} {ignore : List String} {program : Program}

/-- The stock for a path of an operation: its own, or else that of the operation, or else that of the
instruction. -/
def stockOf (instruction : Instruction) (operation : Operation) (path : Path) : Option Form :=
  path.form <|> operation.form <|> instruction.form

/-- The stock for a motion before or after the operations: its own, or else that of the instruction, or
else that of the first operation. -/
def stockOfEnd (instruction : Instruction) (path : Path) : Option Form :=
  path.form <|> instruction.form <|> instruction.operations.head?.bind (·.form)

private theorem form_supplied (instruction : Instruction) (operation : Operation) (path : Path) :
    (instruction.supplied operation path).form = instruction.stockOf operation path :=
  rfl

theorem form_resolveEnd (instruction : Instruction) (path : Path) :
    (instruction.resolveEnd path).form = instruction.stockOfEnd path := by
  unfold resolveEnd stockOfEnd
  cases instruction.operations with
  | nil =>
      change (path.form <|> instruction.form) = _
      cases path.form <;> cases instruction.form <;> rfl
  | cons first rest =>
      change ((path.form <|> instruction.form) <|> first.form) = _
      cases path.form <;> rfl

theorem form_of_writtenEnd {given : Option Path} {written : Path}
    (ends : instruction.WrittenEnd machine given (some written)) :
    ∃ path ∈ given, written.form = instruction.stockOfEnd path := by
  cases ends with
  | plain path => exact ⟨path, rfl, instruction.form_resolveEnd path⟩
  | joined path => exact ⟨path, rfl, instruction.form_resolveEnd path⟩

/-- Whether everything that is written is cut from the stock meant for it: each path of an operation
with its outcome, and the motions before and after the operations. -/
structure Plan.Stocked (plan : instruction.Plan machine) : Prop where
  operations :
    List.Forall₂
      (fun operation prepared =>
        List.Forall₂
          (fun path outcome =>
            ∀ pass ∈ outcome.passes, pass.form = instruction.stockOf operation path)
          operation.paths prepared.outcomes)
      instruction.operations plan.operations
  start : ∀ written ∈ plan.start, ∃ path ∈ instruction.start,
    written.form = instruction.stockOfEnd path
  finish : ∀ written ∈ plan.finish, ∃ path ∈ instruction.finish,
    written.form = instruction.stockOfEnd path

theorem form_of_prepare {operation : Operation} {path : Path} {outcome : Outcome}
    (found : (instruction.supplied operation path).prepare machine = .ok outcome) :
    ∀ pass ∈ outcome.passes, pass.form = instruction.stockOf operation path := by
  intro pass member
  obtain ⟨points, rfl⟩ := Path.along_of_mem_prepare found member
  exact instruction.form_supplied operation path

theorem Plan.stocked (plan : instruction.Plan machine) : plan.Stocked where
  operations :=
    (forall₂_prepares plan.prepared).imp fun _ _ prepares =>
      List.Forall₂.imp (fun _ _ => form_of_prepare) prepares
  start := fun _ written =>
    form_of_writtenEnd (writtenEnd_of_prepareEnd (plan.before.trans (congrArg _ written)))
  finish := fun _ written =>
    form_of_writtenEnd (writtenEnd_of_prepareEnd (plan.after.trans (congrArg _ written)))

/-! ## Stock that is shown and stock that is cut -/

/-- Whether a form is the stock for something that is written. -/
inductive Cuts (instruction : Instruction) (form : Form) : Prop where
  | path {operation : Operation} {path : Path} (listed : operation ∈ instruction.operations)
      (owned : path ∈ operation.paths) (stock : form ∈ instruction.stockOf operation path)
      (traced : ¬instruction.Traceless operation path)
  | ends {path : Path} (place : path ∈ instruction.start ∨ path ∈ instruction.finish)
      (stock : form ∈ instruction.stockOfEnd path) (filled : path.points ≠ [])

theorem passes_ne_nil_iff {operation : Operation} {path : Path} {outcome : Outcome}
    (found : (instruction.supplied operation path).prepare machine = .ok outcome) :
    outcome.passes ≠ [] ↔ ¬instruction.Traceless operation path := by
  rw [Ne, Path.passes_eq_nil_iff found, supplied, Path.isInvalid_resolve]
  rfl

theorem exists_writtenEnd_iff {given written : Option Path}
    (ends : instruction.WrittenEnd machine given written) (form : Form) :
    (∃ path ∈ written, form ∈ path.form) ↔
      ∃ path ∈ given, form ∈ instruction.stockOfEnd path ∧ path.points ≠ [] := by
  cases ends with
  | absent => simp
  | empty path bare => simp [bare]
  | plain path filled => simp [form_resolveEnd, filled]
  | joined path filled => simp [Path.along, form_resolveEnd, filled]

namespace Plan

variable (plan : instruction.Plan machine) {form : Form}

/-- What compiling cuts, read off the instruction. -/
theorem cuts_iff : (∃ path ∈ plan.paths, form ∈ path.form) ↔ instruction.Cuts form := by
  have start := exists_writtenEnd_iff (writtenEnd_of_prepareEnd plan.before) form
  have finish := exists_writtenEnd_iff (writtenEnd_of_prepareEnd plan.after) form
  constructor
  · rintro ⟨path, written, held⟩
    rcases mem_paths.mp written with first | ⟨prepared, among, passed⟩ | last
    · obtain ⟨given, own, stock, filled⟩ := start.mp ⟨path, first, held⟩
      exact .ends (.inl own) stock filled
    · obtain ⟨operation, listed, prepares⟩ :=
        exists_of_mem_forall₂ (forall₂_prepares plan.prepared).flip among
      obtain ⟨outcome, inside, member⟩ := List.mem_flatMap.mp passed
      obtain ⟨given, owned, found⟩ := exists_of_mem_forall₂ (List.Forall₂.flip prepares) inside
      refine .path listed owned ?_ ((passes_ne_nil_iff found).mp (List.ne_nil_of_mem member))
      rwa [← form_of_prepare found path member]
    · obtain ⟨given, own, stock, filled⟩ := finish.mp ⟨path, last, held⟩
      exact .ends (.inr own) stock filled
  · intro cuts
    cases cuts with
    | path listed owned stock traced =>
        obtain ⟨prepared, among, prepares⟩ :=
          exists_of_mem_forall₂ (forall₂_prepares plan.prepared) listed
        obtain ⟨outcome, inside, found⟩ := exists_of_mem_forall₂ prepares owned
        obtain ⟨pass, member⟩ := List.exists_mem_of_ne_nil _ ((passes_ne_nil_iff found).mpr traced)
        have passed : pass ∈ prepared.passes := List.mem_flatMap.mpr ⟨outcome, inside, member⟩
        refine ⟨pass, mem_paths.mpr (.inr (.inl ⟨prepared, among, passed⟩)), ?_⟩
        rwa [form_of_prepare found pass member]
    | ends place stock filled =>
        rcases place with own | own
        · obtain ⟨path, first, held⟩ := start.mpr ⟨_, own, stock, filled⟩
          exact ⟨path, mem_paths.mpr (.inl first), held⟩
        · obtain ⟨path, last, held⟩ := finish.mpr ⟨_, own, stock, filled⟩
          exact ⟨path, mem_paths.mpr (.inr (.inr last)), held⟩

/-- Every path that is written has stock, and the preview shows it. -/
theorem shown_of_mem_paths {path : Path} (written : path ∈ plan.paths) :
    ∃ form ∈ path.form, ∃ shown ∈ instruction.forms, shown.same form = true := by
  obtain ⟨⟨⟨tool, form⟩, ready⟩, _⟩ := plan.writable_of_mem_paths written
  have held : form ∈ path.form := (Path.context_eq_ok.mp (Path.ready_eq_ok.mp ready).1).2
  exact ⟨form, held,
    instruction.firstMentions_forms.complete form (plan.form_of_mem_paths written held)⟩

end Plan

/-- Previewing shows the stock that compiling cuts. The forms of an instruction that compiles are
distinct, and they are the first mentions in the order of mention. Every path written has its stock from
the first place that has some, and that is among the forms shown. Of these, compiling cuts the ones that
are the stock for something that is written. -/
theorem compile_cuts_shown_stock (compiled : instruction.compile ignore = .ok program) :
    instruction.forms.Pairwise (fun f g => f.same g = false) ∧
    FirstMentions instruction.mentions instruction.forms ∧
    ∃ (machine : Machine) (plan : instruction.Plan machine),
      instruction.machine = some machine ∧ plan.Writes ignore program ∧ plan.Stocked ∧
      (∀ path ∈ plan.paths,
        ∃ form ∈ path.form, ∃ shown ∈ instruction.forms, shown.same form = true) ∧
      ∀ form, (∃ path ∈ plan.paths, form ∈ path.form) ↔ instruction.Cuts form := by
  have firsts := instruction.firstMentions_forms
  obtain ⟨machine, known⟩ := exists_machine compiled
  obtain ⟨plan, writes⟩ := exists_plan known compiled
  refine ⟨firsts.distinct, firsts, machine, plan, known, writes, plan.stocked, ?_, ?_⟩
  · exact fun path => plan.shown_of_mem_paths
  · exact fun form => plan.cuts_iff

/-- One of several blocks of the same size. -/
def numberedBlock (identity : Nat) : Form := { Route.lowBlock with identity }

/-- Two blocks that are cut by turns, with no default for the motions before and after, and a third one
with nothing to cut from it. -/
def byTurns : Instruction :=
  { name := "job"
    machine := some ⟨{}, .vertical⟩
    start := some acrossTop
    operations :=
      [{ name := "face"
         form := some (numberedBlock 4)
         paths := [acrossTop, { acrossTop with form := some (numberedBlock 7) }, acrossTop] },
        { name := "again"
          paths :=
            [{ acrossTop with form := some (numberedBlock 7) },
              { name := "empty", form := some (numberedBlock 2) }] }]
    finish := some { acrossTop with form := some (numberedBlock 4) }
    tool := some { identity := 0, name := "mill", number := 1, tip := .square, width := 4 } }

theorem compile_cuts_shown_stock_byTurns :
    byTurns.forms.map (·.identity) = [4, 7, 2] ∧
    ∃ program machine, ∃ plan : byTurns.Plan machine, byTurns.compile [] = .ok program ∧
      plan.Writes [] program ∧
      plan.paths.map (·.form.map (·.identity)) =
        [some 4, some 4, some 7, some 4, some 7, some 4] ∧
      (∀ path ∈ plan.paths,
        ∃ form ∈ path.form, ∃ shown ∈ byTurns.forms, shown.same form = true) ∧
      ¬byTurns.Cuts (numberedBlock 2) := by
  have succeeds : (byTurns.compile []).isOk = true := by decide +kernel
  have cut : (byTurns.legs ⟨{}, .vertical⟩).map
      (·.map fun leg => leg.path.form.map (·.identity)) =
        .ok [some 4, some 4, some 7, some 4, some 7, some 4] := by
    decide +kernel
  obtain ⟨program, compiled⟩ := exists_of_isOk succeeds
  obtain ⟨_, _, machine, plan, known, writes, _, shown, cuts⟩ := compile_cuts_shown_stock compiled
  cases known
  have stocks : plan.paths.map (·.form.map (·.identity)) =
      [some 4, some 4, some 7, some 4, some 7, some 4] := by
    rw [← plan.map_legs cut, ← plan.paths_legs, List.map_map]
    rfl
  refine ⟨by decide, program, _, plan, compiled, writes, stocks, shown, ?_⟩
  rw [← cuts]
  rintro ⟨path, written, held⟩
  have listed := List.mem_map_of_mem (f := fun path : Path => path.form.map (·.identity)) written
  rw [stocks, Option.mem_def.mp held] at listed
  revert listed
  decide

end Instruction

end Kerf
