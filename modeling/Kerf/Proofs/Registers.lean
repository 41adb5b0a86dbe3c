import Kerf.Machine.Writer

/-!
# Laws of the words in force

Reading a register after a value was put in force or forgotten, and what the bookkeeping of a
program leaves alone. The writers are only ever looked at through these laws.
-/

set_option autoImplicit false

namespace Kerf

/-- Looking a key up where only some of them were kept. -/
theorem lookup_filter {κ α : Type} [BEq κ] [LawfulBEq κ] (keep : κ → Bool) (entries : List (κ × α))
    (key : κ) :
    (entries.filter fun entry => keep entry.1).lookup key =
      if keep key then entries.lookup key else none := by
  induction entries with
  | nil => simp
  | cons entry rest ih =>
      obtain ⟨known, value⟩ := entry
      by_cases same : key = known
      · subst same
        cases kept : keep key with
        | false => simpa [List.filter_cons, kept] using ih
        | true => simp [kept]
      · have different : (key == known) = false := beq_eq_false_iff_ne.mpr same
        cases kept : keep known with
        | false => simpa [List.filter_cons, kept, List.lookup_cons, different] using ih
        | true => simpa [List.filter_cons, kept, List.lookup_cons, different] using ih

theorem lookup_filter_ne {κ α : Type} [BEq κ] [LawfulBEq κ] (entries : List (κ × α))
    (key other : κ) :
    (entries.filter (·.1 != key)).lookup other =
      if other == key then none else entries.lookup other := by
  rw [lookup_filter (· != key)]
  cases same : other == key <;> simp [bne, same]

namespace Registers

theorem get?_forget (registers : Registers) (letter other : String) :
    (registers.forget letter).get? other =
      if other = letter then none else registers.get? other := by
  simpa [forget, get?] using lookup_filter_ne registers letter other

private theorem get?_set (registers : Registers) (letter value other : String) :
    (registers.set letter value).get? other =
      if other = letter then some value else registers.get? other := by
  by_cases same : other = letter
  · subst same
    simp [set, get?]
  · have different : (other == letter) = false := by simpa using same
    have forgotten := get?_forget registers letter other
    rw [if_neg same] at forgotten ⊢
    simpa [set, get?, List.lookup_cons, different] using forgotten

private theorem get?_forgetAll (letters : List String) (registers : Registers) (other : String) :
    (letters.foldl forget registers).get? other =
      if other ∈ letters then none else registers.get? other := by
  induction letters generalizing registers with
  | nil => simp
  | cons letter rest ih =>
      rw [List.foldl_cons, ih, get?_forget]
      by_cases later : other ∈ rest
      · simp [later]
      · by_cases same : other = letter <;> simp [later, same]

end Registers

namespace Program

/-! ## One word -/

theorem get?_word (program : Program) (letter value other : String) :
    (program.word letter value).1.registers.get? other =
      if other = letter then some value else program.registers.get? other := by
  unfold word
  split
  · next inForce =>
      by_cases same : other = letter
      · subst same
        simpa using inForce
      · simp [same]
  · exact Registers.get?_set program.registers letter value other

theorem word_of_inForce {program : Program} {letter value : String}
    (inForce : program.registers.get? letter = some value) :
    program.word letter value = (program, none) := by
  simp [word, inForce]

theorem word_of_changed {program : Program} {letter value : String}
    (changed : program.registers.get? letter ≠ some value) :
    program.word letter value = ((program.word letter value).1, some ⟨letter, value⟩) := by
  simp [word, changed]

@[simp] theorem entries_word (program : Program) (letter value : String) :
    (program.word letter value).1.entries = program.entries := by
  unfold word; split <;> rfl

@[simp] theorem dialect_word (program : Program) (letter value : String) :
    (program.word letter value).1.dialect = program.dialect := by
  unfold word; split <;> rfl

/-! ## Forgetting and foreign blocks -/

theorem get?_forget (program : Program) (letters : List String) (other : String) :
    (program.forget letters).registers.get? other =
      if other ∈ letters then none else program.registers.get? other :=
  Registers.get?_forgetAll letters program.registers other

@[simp] theorem entries_forget (program : Program) (letters : List String) :
    (program.forget letters).entries = program.entries := rfl

@[simp] theorem dialect_forget (program : Program) (letters : List String) :
    (program.forget letters).dialect = program.dialect := rfl

@[simp] theorem dialect_write (program : Program) (entry : Entry) :
    (program.write entry).dialect = program.dialect := rfl

@[simp] theorem registers_write (program : Program) (entry : Entry) :
    (program.write entry).registers = program.registers := rfl

@[simp] theorem entries_write (program : Program) (entry : Entry) :
    (program.write entry).entries.toList = program.entries.toList ++ [entry] := by
  simp [write]

@[simp] theorem dialect_writeRaw (program : Program) (block : String) :
    (program.writeRaw block).dialect = program.dialect := by
  unfold writeRaw; split <;> rfl

theorem entries_writeRaw (program : Program) (block : String) :
    (program.writeRaw block).entries.toList =
      program.entries.toList ++ (if block.isEmpty then [] else [.block block]) := by
  unfold writeRaw; split <;> simp

/-! ## Ranges and messages -/

@[simp] theorem entries_cover (program : Program) (key : String) (value : Float) :
    (program.cover key value).entries = program.entries := by
  unfold cover; split <;> rfl

@[simp] theorem registers_cover (program : Program) (key : String) (value : Float) :
    (program.cover key value).registers = program.registers := by
  unfold cover; split <;> rfl

@[simp] theorem dialect_cover (program : Program) (key : String) (value : Float) :
    (program.cover key value).dialect = program.dialect := by
  unfold cover; split <;> rfl

end Program

/-! ## Rotary settings -/

namespace Machine

/-- Noting a setting of the rotary axes touches nothing but the setting and the errors. -/
theorem noteRotary_frame (machine : Machine) (program : Program) (setting : Rotary.Setting) :
    ∃ rotary errors, machine.noteRotary program setting = { program with rotary, errors } := by
  unfold noteRotary
  split
  · exact ⟨program.rotary, program.errors, rfl⟩
  · exact ⟨program.rotary, program.errors, rfl⟩
  · dsimp only
    split <;> split <;> exact ⟨setting, _, rfl⟩

@[simp] theorem entries_noteRotary (machine : Machine) (program : Program)
    (setting : Rotary.Setting) :
    (machine.noteRotary program setting).entries = program.entries := by
  obtain ⟨_, _, frame⟩ := noteRotary_frame machine program setting
  rw [frame]

@[simp] theorem registers_noteRotary (machine : Machine) (program : Program)
    (setting : Rotary.Setting) :
    (machine.noteRotary program setting).registers = program.registers := by
  obtain ⟨_, _, frame⟩ := noteRotary_frame machine program setting
  rw [frame]

@[simp] theorem dialect_noteRotary (machine : Machine) (program : Program)
    (setting : Rotary.Setting) :
    (machine.noteRotary program setting).dialect = program.dialect := by
  obtain ⟨_, _, frame⟩ := noteRotary_frame machine program setting
  rw [frame]

end Machine

end Kerf
