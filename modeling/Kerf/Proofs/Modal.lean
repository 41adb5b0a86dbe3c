import Kerf.Proofs.Controller

/-!
# Modal lines

What the words of one line have to do with the values in force before and after it, and that the
line of every move is of that kind: it brings each axis to its place, states the mode and the feed
it runs with, and says nothing that was in force already.
-/

set_option autoImplicit false

namespace Kerf

open Kerf.Program (Word Entry)
open Kerf.Controller (Runs runs_append runs_singleton obey_of_mem obey_of_not_mem)

/-- A line of words that leads from some values in force to others. Each letter stands once, no word
repeats what was in force, and what is in force afterwards was written or in force before. -/
structure Modal (before : Registers) (words : List Word) (after : Registers) : Prop where
  fresh : ∀ word ∈ words, before.get? word.letter ≠ some word.value
  once : (words.map (·.letter)).Nodup
  inForce : ∀ letter value, after.get? letter = some value →
    ⟨letter, value⟩ ∈ words ∨ letter ∉ words.map (·.letter) ∧ before.get? letter = some value

namespace Modal

theorem refl (registers : Registers) : Modal registers [] registers where
  fresh := by simp
  once := by simp
  inForce := by
    intro letter value inForce
    exact .inr ⟨by simp, inForce⟩

/-- A further word keeps a line modal when its letter has not been touched yet. -/
theorem addWord {before : Registers} {program : Program} {words : List Word} {letter : String}
    (modal : Modal before words program.registers) (absent : letter ∉ words.map (·.letter))
    (untouched : program.registers.get? letter = before.get? letter) (value : String) :
    Modal before (Program.addWord (program, words) letter value).2
      (Program.addWord (program, words) letter value).1.registers := by
  simp only [Program.addWord]
  by_cases held : program.registers.get? letter = some value
  · rw [Program.word_of_inForce held]
    simpa using modal
  · have changed : before.get? letter ≠ some value := untouched ▸ held
    rw [Program.word_of_changed held]
    refine ⟨?_, ?_, ?_⟩
    · intro earlier member
      rcases List.mem_append.mp member with old | new
      · exact modal.fresh earlier old
      · have last : earlier = ⟨letter, value⟩ := by simpa using new
        rw [last]
        exact changed
    · rw [List.map_append, List.nodup_append]
      refine ⟨modal.once, by simp, ?_⟩
      intro earlier member other singleton equal
      have last : other = letter := by simpa using singleton
      exact absent (last ▸ equal ▸ member)
    · intro other inside inForce
      rw [Program.get?_word] at inForce
      split at inForce
      · next same =>
          cases inForce
          subst same
          exact .inl (by simp)
      · next different =>
          rcases modal.inForce other inside inForce with old | ⟨notOld, old⟩
          · exact .inl (List.mem_append_left _ old)
          · exact .inr ⟨by simp [notOld, different], old⟩

/-- Taking a change of mode back leaves an empty line. -/
theorem withdraw {before : Registers} {program : Program} {words : List Word}
    (modal : Modal before words program.registers) (bare : ∀ word ∈ words, word.letter = "G") :
    Modal before [] (program.forget ["G"]).registers where
  fresh := by simp
  once := by simp
  inForce := by
    intro letter value inForce
    rw [Program.get?_forget] at inForce
    split at inForce
    · cases inForce
    · next other =>
        rcases modal.inForce letter value inForce with written | ⟨_, held⟩
        · exact absurd (bare _ written) (by simpa using other)
        · exact .inr ⟨by simp, held⟩

/-- A controller that agrees before a modal line agrees after it. -/
theorem obey {before after : Registers} {words : List Word} (modal : Modal before words after)
    {controller : Controller} {letter value : String}
    (agrees : ∀ held, before.get? letter = some held → controller letter = held)
    (inForce : after.get? letter = some value) : controller.obey words letter = value := by
  rcases modal.inForce letter value inForce with written | ⟨absent, held⟩
  · exact obey_of_mem controller modal.once written
  · rw [obey_of_not_mem controller absent]
    exact agrees value held

end Modal

/-! ## Adding words -/

namespace Program

theorem mem_addWord {state : Program × List Word} {letter value : String} {word : Word}
    (member : word ∈ (addWord state letter value).2) :
    word ∈ state.2 ∨ word = ⟨letter, value⟩ := by
  simp only [addWord] at member
  by_cases held : state.1.registers.get? letter = some value
  · rw [word_of_inForce held] at member
    exact .inl (by simpa using member)
  · rw [word_of_changed held] at member
    simpa using member

theorem get?_addWord (state : Program × List Word) (letter value other : String) :
    (addWord state letter value).1.registers.get? other =
      if other = letter then some value else state.1.registers.get? other :=
  get?_word state.1 letter value other

@[simp] theorem entries_addWord (state : Program × List Word) (letter value : String) :
    (addWord state letter value).1.entries = state.1.entries :=
  entries_word state.1 letter value

@[simp] theorem dialect_addWord (state : Program × List Word) (letter value : String) :
    (addWord state letter value).1.dialect = state.1.dialect :=
  dialect_word state.1 letter value

end Program

namespace Machine

/-! ## The words of a motion -/

def addAxis (state : Program × List Word) (axis : String × Float) : Program × List Word :=
  Program.addWord (state.1.cover axis.1 axis.2, state.2) axis.1 (state.1.format axis.2)

theorem motionWords_eq (machine : Machine) (program : Program) (rapid : Bool)
    (values : AxisValues) :
    machine.motionWords program rapid values =
      let start := Program.addWord (program, []) "G" (if rapid then "00" else "01")
      let moved := (machine.coordinates values).foldl addAxis start
      let noted := machine.noteRotary moved.1 values.rotary
      if moved.2.any (·.letter != "G") then (noted, moved.2)
      else if moved.2.isEmpty then (noted, [])
      else (noted.forget ["G"], []) := by
  have step : (fun (state : Program × List Word) (axis : String × Float) =>
      let program := state.1.cover axis.1 axis.2
      Program.addWord (program, state.2) axis.1 (program.format axis.2)) = addAxis := by
    funext state axis
    simp [addAxis, Program.format]
  unfold motionWords
  rw [← step]
  rfl

theorem get?_addAxis (state : Program × List Word) (axis : String × Float) (other : String) :
    (addAxis state axis).1.registers.get? other =
      if other = axis.1 then some (state.1.format axis.2) else state.1.registers.get? other := by
  simp [addAxis, Program.get?_addWord]

@[simp] theorem entries_addAxis (state : Program × List Word) (axis : String × Float) :
    (addAxis state axis).1.entries = state.1.entries := by
  simp [addAxis]

@[simp] theorem dialect_addAxis (state : Program × List Word) (axis : String × Float) :
    (addAxis state axis).1.dialect = state.1.dialect := by
  simp [addAxis]

@[simp] theorem entries_foldl_addAxis (axes : List (String × Float))
    (state : Program × List Word) : (axes.foldl addAxis state).1.entries = state.1.entries := by
  induction axes generalizing state with
  | nil => rfl
  | cons axis axes ih => rw [List.foldl_cons, ih, entries_addAxis]

@[simp] theorem dialect_foldl_addAxis (axes : List (String × Float))
    (state : Program × List Word) : (axes.foldl addAxis state).1.dialect = state.1.dialect := by
  induction axes generalizing state with
  | nil => rfl
  | cons axis axes ih => rw [List.foldl_cons, ih, dialect_addAxis]

theorem get?_foldl_addAxis_of_not_mem {axes : List (String × Float)} {letter : String}
    (state : Program × List Word) (absent : letter ∉ axes.map (·.1)) :
    (axes.foldl addAxis state).1.registers.get? letter = state.1.registers.get? letter := by
  induction axes generalizing state with
  | nil => rfl
  | cons axis axes ih =>
      rw [List.map_cons, List.mem_cons, not_or] at absent
      rw [List.foldl_cons, ih _ absent.2, get?_addAxis, if_neg absent.1]

private theorem get?_foldl_addAxis_of_mem {axes : List (String × Float)} {axis : String × Float}
    (state : Program × List Word) (once : (axes.map (·.1)).Nodup) (member : axis ∈ axes) :
    (axes.foldl addAxis state).1.registers.get? axis.1 = some (state.1.format axis.2) := by
  induction axes generalizing state with
  | nil => cases member
  | cons first axes ih =>
      rw [List.map_cons, List.nodup_cons] at once
      rw [List.foldl_cons]
      rcases List.mem_cons.mp member with rfl | later
      · rw [get?_foldl_addAxis_of_not_mem _ once.1, get?_addAxis, if_pos rfl]
      · rw [ih _ once.2 later]
        simp [Program.format]

variable {state : Program × List Word} {program : Program}

/-- A line stays modal while the words of different axes are added to it. -/
theorem modal_foldl_addAxis {before : Registers} {axes : List (String × Float)}
    (modal : Modal before state.2 state.1.registers) (once : (axes.map (·.1)).Nodup)
    (untouched : ∀ axis ∈ axes, axis.1 ∉ state.2.map (·.letter) ∧
      state.1.registers.get? axis.1 = before.get? axis.1) :
    Modal before (axes.foldl addAxis state).2 (axes.foldl addAxis state).1.registers := by
  induction axes generalizing state with
  | nil => exact modal
  | cons first axes ih =>
      rw [List.map_cons, List.nodup_cons] at once
      obtain ⟨absent, register⟩ := untouched first List.mem_cons_self
      have added : Modal before (addAxis state first).2 (addAxis state first).1.registers := by
        apply Modal.addWord
        · simpa using modal
        · exact absent
        · simpa using register
      apply ih added once.2
      intro axis member
      obtain ⟨absent, register⟩ := untouched axis (List.mem_cons_of_mem _ member)
      have different : axis.1 ≠ first.1 := by
        intro same
        exact once.1 (same ▸ List.mem_map_of_mem member)
      constructor
      · intro present
        obtain ⟨word, written, letter⟩ := List.mem_map.mp present
        rcases Program.mem_addWord written with old | rfl
        · exact absent (letter ▸ List.mem_map_of_mem old)
        · exact different letter.symm
      · rw [get?_addAxis, if_neg different, register]

def axisWords : List String := ["X", "Y", "Z", "A", "B"]

private theorem coordinates_nodup (machine : Machine) (values : AxisValues) :
    ((machine.coordinates values).map (·.1)).Nodup := by
  unfold coordinates
  dsimp only
  split <;> simp

theorem coordinates_subset {machine : Machine} {values : AxisValues} {axis : String × Float}
    (member : axis ∈ machine.coordinates values) : axis.1 ∈ axisWords := by
  unfold coordinates at member
  dsimp only at member
  split at member <;> simp only [List.mem_cons, List.not_mem_nil, or_false] at member <;>
    grind [axisWords]

def modeWord (rapid : Bool) : Word := ⟨"G", if rapid then "00" else "01"⟩

/-- What the words of a motion do: they are modal, bring every axis to its place, and state the mode
whenever an axis moves. Only the mode and the axes are touched. -/
structure MotionWords (machine : Machine) (program : Program) (rapid : Bool) (values : AxisValues)
    (after : Program) (words : List Word) : Prop where
  modal : Modal program.registers words after.registers
  axes : ∀ axis ∈ machine.coordinates values,
    after.registers.get? axis.1 = some (program.format axis.2)
  mode : (∃ word ∈ words, word.letter ≠ "G") →
    after.registers.get? "G" = some (modeWord rapid).value
  stated : ∀ word ∈ words, word = modeWord rapid ∨
    ∃ axis ∈ machine.coordinates values, word = ⟨axis.1, program.format axis.2⟩
  others : ∀ letter, letter ∉ "G" :: axisWords →
    after.registers.get? letter = program.registers.get? letter
  entries : after.entries = program.entries
  dialect : after.dialect = program.dialect

theorem MotionWords.letters {machine : Machine} {after : Program} {rapid : Bool}
    {values : AxisValues} {words : List Word}
    (spec : MotionWords machine program rapid values after words) {word : Word}
    (member : word ∈ words) : word.letter ∈ "G" :: axisWords := by
  rcases spec.stated word member with rfl | ⟨axis, listed, rfl⟩
  · exact List.mem_cons_self
  · exact List.mem_cons_of_mem _ (coordinates_subset listed)

private theorem modeWord_modal (program : Program) (mode : String) :
    Modal program.registers (Program.addWord (program, []) "G" mode).2
      (Program.addWord (program, []) "G" mode).1.registers :=
  Modal.addWord (.refl program.registers) (by simp) rfl mode

private theorem stated_foldl_addAxis {axes : List (String × Float)} {word : Word}
    (member : word ∈ (axes.foldl addAxis state).2) :
    word ∈ state.2 ∨ ∃ axis ∈ axes, word = ⟨axis.1, state.1.format axis.2⟩ := by
  induction axes generalizing state with
  | nil => exact .inl member
  | cons axis axes ih =>
      rcases ih member with earlier | ⟨other, listed, same⟩
      · rcases Program.mem_addWord earlier with old | rfl
        · exact .inl old
        · exact .inr ⟨axis, List.mem_cons_self, rfl⟩
      · refine .inr ⟨other, List.mem_cons_of_mem _ listed, ?_⟩
        rw [same]
        simp [Program.format]

/-- The mode and the axes of a motion, before a mode that stands alone is taken back. -/
private theorem foldl_addAxis_spec (machine : Machine) (program : Program) (rapid : Bool)
    (values : AxisValues) {moved : Program × List Word}
    (result : (machine.coordinates values).foldl addAxis
      (Program.addWord (program, []) "G" (modeWord rapid).value) = moved) :
    MotionWords machine program rapid values moved.1 moved.2 := by
  subst result
  have once := coordinates_nodup machine values
  have unlisted : ∀ letter, letter ∉ axisWords →
      letter ∉ (machine.coordinates values).map (·.1) := by
    intro letter other present
    obtain ⟨axis, member, same⟩ := List.mem_map.mp present
    exact other (same ▸ coordinates_subset member)
  have notMode : ∀ axis ∈ machine.coordinates values, axis.1 ≠ "G" := by
    intro axis member same
    exact unlisted "G" (by decide) (same ▸ List.mem_map_of_mem member)
  refine ⟨?_, ?_, fun _ => ?_, ?_, ?_, by simp, by simp⟩
  · apply modal_foldl_addAxis (modeWord_modal program _) once
    intro axis member
    constructor
    · intro present
      obtain ⟨word, written, letter⟩ := List.mem_map.mp present
      rcases Program.mem_addWord written with old | rfl
      · cases old
      · exact notMode axis member letter.symm
    · rw [Program.get?_addWord, if_neg (notMode axis member)]
  · intro axis member
    rw [get?_foldl_addAxis_of_mem _ once member]
    simp [Program.format]
  · rw [get?_foldl_addAxis_of_not_mem _ (unlisted "G" (by decide)), Program.get?_addWord, if_pos rfl]
  · intro word member
    rcases stated_foldl_addAxis member with first | ⟨axis, listed, rfl⟩
    · rcases Program.mem_addWord first with old | same
      · cases old
      · exact .inl same
    · exact .inr ⟨axis, listed, by simp [Program.format]⟩
  · intro letter other
    rw [List.mem_cons, not_or] at other
    rw [get?_foldl_addAxis_of_not_mem _ (unlisted letter other.2), Program.get?_addWord,
      if_neg other.1]

theorem motionWords_spec (machine : Machine) (program : Program) (rapid : Bool)
    (values : AxisValues) :
    MotionWords machine program rapid values (machine.motionWords program rapid values).1
      (machine.motionWords program rapid values).2 := by
  have shape := motionWords_eq machine program rapid values
  generalize result : (machine.coordinates values).foldl addAxis
    (Program.addWord (program, []) "G" (modeWord rapid).value) = moved
  obtain ⟨modal, axes, mode, stated, others, entries, dialect⟩ :=
    foldl_addAxis_spec machine program rapid values result
  have noted : machine.motionWords program rapid values =
      if moved.2.any (·.letter != "G") then (machine.noteRotary moved.1 values.rotary, moved.2)
      else if moved.2.isEmpty then (machine.noteRotary moved.1 values.rotary, [])
      else ((machine.noteRotary moved.1 values.rotary).forget ["G"], []) := by
    rw [shape, ← result]
    rfl
  rw [noted]
  split
  · exact ⟨by simpa using modal, by simpa using axes, by simpa using mode, stated,
      by simpa using others, by simpa using entries, by simpa using dialect⟩
  · next bare =>
      have onlyMode : ∀ word ∈ moved.2, word.letter = "G" := by
        intro word member
        simpa using fun different => bare (List.any_eq_true.mpr ⟨word, member, different⟩)
      split
      · next nothing =>
          have none : moved.2 = [] := by simpa using nothing
          rw [none] at modal
          exact ⟨by simpa using modal, by simpa using axes, by simp, by simp,
            by simpa using others, by simpa using entries, by simpa using dialect⟩
      · refine ⟨Modal.withdraw (by simpa using modal) onlyMode, ?_, by simp, by simp, ?_,
          by simpa using entries, by simpa using dialect⟩
        · intro axis member
          have notMode : axis.1 ∉ ["G"] := by
            intro same
            have letter := coordinates_subset member
            rw [List.mem_singleton.mp same] at letter
            exact absurd letter (by decide)
          rw [Program.get?_forget, if_neg notMode]
          simpa using axes axis member
        · intro letter other
          have notMode : letter ∉ ["G"] := by
            intro same
            exact other (List.mem_singleton.mp same ▸ List.mem_cons_self)
          rw [Program.get?_forget, if_neg notMode]
          simpa using others letter other

/-! ## The words of a move -/

def addWanted (wanted : Prop) [Decidable wanted] (state : Program × List Word)
    (letter value : String) : Program × List Word :=
  if wanted then Program.addWord state letter value else state

section Wanted

variable {wanted : Prop} [Decidable wanted] {letter value : String}

theorem modal_addWanted {before : Registers} (modal : Modal before state.2 state.1.registers)
    (absent : letter ∉ state.2.map (·.letter))
    (untouched : state.1.registers.get? letter = before.get? letter) :
    Modal before (addWanted wanted state letter value).2
      (addWanted wanted state letter value).1.registers := by
  unfold addWanted
  split
  · exact modal.addWord absent untouched value
  · exact modal

theorem get?_addWanted_of_ne {other : String} (different : other ≠ letter) :
    (addWanted wanted state letter value).1.registers.get? other =
      state.1.registers.get? other := by
  unfold addWanted
  split
  · rw [Program.get?_addWord, if_neg different]
  · rfl

theorem get?_addWanted_self (holds : wanted) :
    (addWanted wanted state letter value).1.registers.get? letter = some value := by
  rw [addWanted, if_pos holds, Program.get?_addWord, if_pos rfl]

theorem mem_addWanted {word : Word} (member : word ∈ (addWanted wanted state letter value).2) :
    word ∈ state.2 ∨ word.letter = letter := by
  unfold addWanted at member
  split at member
  · rcases Program.mem_addWord member with old | rfl
    · exact .inl old
    · exact .inr rfl
  · exact .inl member

theorem addWanted_append (wanted : Prop) [Decidable wanted] (state : Program × List Word)
    (letter value : String) :
    ∃ words, (addWanted wanted state letter value).2 = state.2 ++ words ∧
      ∀ word ∈ words, word = ⟨letter, value⟩ := by
  unfold addWanted Program.addWord
  split
  · refine ⟨_, rfl, ?_⟩
    intro word member
    rw [Option.mem_toList] at member
    unfold Program.word at member
    split at member
    · cases member
    · exact (Option.some.inj member).symm
  · exact ⟨[], by simp, by simp⟩

@[simp] theorem entries_addWanted :
    (addWanted wanted state letter value).1.entries = state.1.entries := by
  unfold addWanted; split <;> simp

@[simp] theorem dialect_addWanted :
    (addWanted wanted state letter value).1.dialect = state.1.dialect := by
  unfold addWanted; split <;> simp

end Wanted

/-- The words of a move and the program that has them in force, before anything is written. -/
def moveWords (machine : Machine) (program : Program) (tool : Option Tool) (point : Point)
    (values : AxisValues) : Program × List Word :=
  let feed := effectiveFeed tool point
  let speed := effectiveSpeed tool point
  let state := machine.motionWords program (feed == 0) values
  let state := addWanted (feed > 0) state "F" (state.1.format feed)
  addWanted (speed >= 0) state "S" (state.1.format speed)

/-- The words of a move are those of its motion, followed by its feed and its speed. -/
theorem moveWords_append (machine : Machine) (program : Program) (tool : Option Tool)
    (point : Point) (values : AxisValues) :
    ∃ settings, (machine.moveWords program tool point values).2 =
        (machine.motionWords program (effectiveFeed tool point == 0) values).2 ++ settings ∧
      ∀ word ∈ settings, word = ⟨"F", program.format (effectiveFeed tool point)⟩ ∨
        word = ⟨"S", program.format (effectiveSpeed tool point)⟩ := by
  let motion := machine.motionWords program (effectiveFeed tool point == 0) values
  let fed := addWanted (effectiveFeed tool point > 0) motion "F"
    (motion.1.format (effectiveFeed tool point))
  have motionDialect : motion.1.dialect = program.dialect :=
    (motionWords_spec machine program (effectiveFeed tool point == 0) values).dialect
  have fedDialect : fed.1.dialect = program.dialect := by
    rw [dialect_addWanted, motionDialect]
  obtain ⟨feeds, fedWords, feed⟩ := addWanted_append (effectiveFeed tool point > 0) motion "F"
    (motion.1.format (effectiveFeed tool point))
  obtain ⟨speeds, allWords, speed⟩ := addWanted_append (effectiveSpeed tool point >= 0) fed "S"
    (fed.1.format (effectiveSpeed tool point))
  refine ⟨feeds ++ speeds, ?_, ?_⟩
  · rw [← List.append_assoc, ← fedWords]
    exact allWords
  · intro word member
    rcases List.mem_append.mp member with early | late
    · left
      rw [feed word early, Program.format, motionDialect, Program.format]
    · right
      rw [speed word late, Program.format, fedDialect, Program.format]

/-- A move writes its words in one line, or nothing when there are none. A change of speed may be
followed by what the dialect has for it. -/
theorem writeMove_eq (machine : Machine) (program : Program) (tool : Option Tool) (point : Point)
    (values : AxisValues) :
    ∃ speedChange, (speedChange = "" ∨ speedChange = machine.dialect.speedChange) ∧
      machine.writeMove program tool point values =
        let state := machine.moveWords program tool point values
        if state.2.isEmpty then state.1 else state.1.write (.move state.2 speedChange) := by
  have choice : ∀ spindle : Option Word,
      (if spindle.isSome then machine.dialect.speedChange else "") = "" ∨
        (if spindle.isSome then machine.dialect.speedChange else "") =
          machine.dialect.speedChange := by
    intro spindle
    cases spindle <;> simp
  simp only [writeMove, moveWords, addWanted]
  by_cases spindle : effectiveSpeed tool point >= 0
  · simp only [spindle, ↓reduceIte]
    exact ⟨_, choice _, rfl⟩
  · simp only [spindle, ↓reduceIte, Option.toList_none, List.append_nil]
    exact ⟨_, choice none, rfl⟩

/-- What the words of a move do: they are modal, bring every axis to its place, state mode and feed
whenever an axis moves, and state the speed. -/
structure MoveWords (machine : Machine) (program : Program) (tool : Option Tool) (point : Point)
    (values : AxisValues) (after : Program) (words : List Word) : Prop where
  modal : Modal program.registers words after.registers
  axes : ∀ axis ∈ machine.coordinates values,
    after.registers.get? axis.1 = some (program.format axis.2)
  mode : (∃ word ∈ words, word.letter ∈ axisWords) →
    after.registers.get? "G" = some (if effectiveFeed tool point == 0 then "00" else "01")
  feed : effectiveFeed tool point > 0 →
    after.registers.get? "F" = some (program.format (effectiveFeed tool point))
  speed : effectiveSpeed tool point >= 0 →
    after.registers.get? "S" = some (program.format (effectiveSpeed tool point))
  entries : after.entries = program.entries
  dialect : after.dialect = program.dialect

theorem moveWords_spec (machine : Machine) (program : Program) (tool : Option Tool)
    (point : Point) (values : AxisValues) :
    MoveWords machine program tool point values (machine.moveWords program tool point values).1
      (machine.moveWords program tool point values).2 := by
  let rapid := effectiveFeed tool point == 0
  let motion := machine.motionWords program rapid values
  let fed := addWanted (effectiveFeed tool point > 0) motion "F"
    (motion.1.format (effectiveFeed tool point))
  have spec : MotionWords machine program rapid values motion.1 motion.2 :=
    motionWords_spec machine program rapid values
  have motionFormat : motion.1.format = program.format := by
    funext x
    rw [Program.format, spec.dialect, Program.format]
  have fedFormat : fed.1.format = program.format := by
    rw [← motionFormat]
    funext x
    simp [fed, Program.format]
  have noWord : ∀ letter, letter ∉ "G" :: axisWords → letter ∉ motion.2.map (·.letter) := by
    intro letter other present
    obtain ⟨word, member, same⟩ := List.mem_map.mp present
    exact other (same ▸ spec.letters member)
  have fedModal : Modal program.registers fed.2 fed.1.registers :=
    modal_addWanted spec.modal (noWord "F" (by decide)) (spec.others "F" (by decide))
  have spindleAbsent : "S" ∉ fed.2.map (·.letter) := by
    intro present
    obtain ⟨word, member, same⟩ := List.mem_map.mp present
    rcases mem_addWanted member with old | feedWord
    · exact noWord "S" (by decide) (same ▸ List.mem_map_of_mem old)
    · exact absurd (same.symm.trans feedWord) (by decide)
  have spindleUntouched : fed.1.registers.get? "S" = program.registers.get? "S" := by
    rw [get?_addWanted_of_ne (by decide), spec.others "S" (by decide)]
  -- Feed and speed come last and leave the registers of the motion alone.
  have kept : ∀ letter, letter ∈ "G" :: axisWords →
      (machine.moveWords program tool point values).1.registers.get? letter =
        motion.1.registers.get? letter := by
    intro letter member
    have notF : letter ≠ "F" := by rintro rfl; exact absurd member (by decide)
    have notS : letter ≠ "S" := by rintro rfl; exact absurd member (by decide)
    exact (get?_addWanted_of_ne notS).trans (get?_addWanted_of_ne notF)
  refine ⟨modal_addWanted fedModal spindleAbsent spindleUntouched, ?_, ?_, ?_, ?_, ?_, ?_⟩
  · intro axis member
    rw [kept axis.1 (List.mem_cons_of_mem _ (coordinates_subset member))]
    exact spec.axes axis member
  · rintro ⟨word, member, letter⟩
    rw [kept "G" (by decide)]
    apply spec.mode
    refine ⟨word, ?_, by rintro same; exact absurd (same ▸ letter) (by decide)⟩
    -- The words added behind the motion are not those of an axis.
    rcases mem_addWanted member with earlier | spindleWord
    · rcases mem_addWanted earlier with old | feedWord
      · exact old
      · exact absurd (feedWord ▸ letter) (by decide)
    · exact absurd (spindleWord ▸ letter) (by decide)
  · intro positive
    rw [← motionFormat]
    exact (get?_addWanted_of_ne (by decide)).trans (get?_addWanted_self positive)
  · intro positive
    rw [← fedFormat]
    exact get?_addWanted_self positive
  · rw [moveWords, entries_addWanted, entries_addWanted, spec.entries]
  · rw [moveWords, dialect_addWanted, dialect_addWanted, spec.dialect]

/-! ## What a move leaves alone -/

/-- Programs that differ in nothing but what is in force and the ranges. -/
def Framed (frame program : Program) : Prop :=
  ∃ registers ranges, program = { frame with registers, ranges }

variable {frame : Program}

theorem Framed.addWord (framed : Framed frame state.1) (letter value : String) :
    Framed frame (Program.addWord state letter value).1 := by
  obtain ⟨registers, ranges, same⟩ := framed
  change Framed frame (state.1.word letter value).1
  rw [Program.word, same]
  split <;> exact ⟨_, ranges, rfl⟩

theorem Framed.addWanted (framed : Framed frame state.1) (wanted : Prop) [Decidable wanted]
    (letter value : String) : Framed frame (Machine.addWanted wanted state letter value).1 := by
  unfold Machine.addWanted
  split
  · exact framed.addWord letter value
  · exact framed

theorem Framed.foldl_addAxis (framed : Framed frame state.1) (axes : List (String × Float)) :
    Framed frame (axes.foldl addAxis state).1 := by
  induction axes generalizing state with
  | nil => exact framed
  | cons axis axes ih =>
      refine ih (@Framed.addWord (state.1.cover axis.1 axis.2, state.2) frame ?_ _ _)
      obtain ⟨registers, ranges, same⟩ := framed
      rw [Program.cover, same]
      split <;> exact ⟨registers, _, rfl⟩

theorem Framed.noteRotary (framed : Framed frame program) (machine : Machine)
    (setting : Rotary.Setting) :
    Framed (machine.noteRotary frame setting) (machine.noteRotary program setting) := by
  obtain ⟨registers, ranges, rfl⟩ := framed
  refine ⟨registers, ranges, ?_⟩
  unfold Machine.noteRotary
  cases machine.kinematics with
  | planar => rfl
  | vertical => rfl
  | table limits pivot =>
      dsimp only
      split <;> split <;> rfl

private theorem framed_motionWords (machine : Machine) (program : Program) (rapid : Bool)
    (values : AxisValues) : Framed (machine.noteRotary program values.rotary)
      (machine.motionWords program rapid values).1 := by
  have start : Framed program program := ⟨_, _, rfl⟩
  rw [motionWords_eq]
  generalize (if rapid then "00" else "01") = mode
  have noted := ((@Framed.addWord (program, []) program start "G" mode).foldl_addAxis
    (machine.coordinates values)).noteRotary machine values.rotary
  dsimp only
  split
  · exact noted
  · split
    · exact noted
    · obtain ⟨_, ranges, same⟩ := noted
      exact ⟨_, ranges, by rw [same]; rfl⟩

/-- Beyond noting the rotary axes, a move touches nothing but what is in force, the ranges and the
entries. -/
theorem writeMove_frame (machine : Machine) (program : Program) (tool : Option Tool) (point : Point)
    (values : AxisValues) :
    ∃ registers ranges entries, machine.writeMove program tool point values =
      { machine.noteRotary program values.rotary with registers, ranges, entries } := by
  have motion := framed_motionWords machine program (effectiveFeed tool point == 0) values
  obtain ⟨registers, ranges, words⟩ : Framed (machine.noteRotary program values.rotary)
      (machine.moveWords program tool point values).1 :=
    (motion.addWanted _ _ _).addWanted _ _ _
  obtain ⟨_, _, written⟩ := machine.writeMove_eq program tool point values
  rw [written]
  dsimp only
  split
  · exact ⟨registers, ranges, _, words⟩
  · rw [Program.write, words]
    exact ⟨registers, ranges, _, rfl⟩

theorem registers_writeMove (machine : Machine) (program : Program) (tool : Option Tool)
    (point : Point) (values : AxisValues) :
    (machine.writeMove program tool point values).registers =
      (machine.moveWords program tool point values).1.registers := by
  obtain ⟨_, _, shape⟩ := writeMove_eq machine program tool point values
  rw [shape]
  dsimp only
  split <;> rfl

theorem writeMove_tracks {letter : String} (tracks : program.Tracks letter) (machine : Machine)
    (tool : Option Tool) (point : Point) (values : AxisValues) :
    (machine.writeMove program tool point values).Tracks letter := by
  have spec := moveWords_spec machine program tool point values
  obtain ⟨speedChange, _, shape⟩ := writeMove_eq machine program tool point values
  rw [shape]
  dsimp only
  split
  · next silent =>
      have none : (machine.moveWords program tool point values).2 = [] := by simpa using silent
      have modal := spec.modal
      rw [none] at modal
      intro start controller value run inForce
      rw [spec.entries] at run
      exact modal.obey (tracks start controller · run) inForce
  · intro start controller value run inForce
    rw [Program.entries_write, spec.entries, runs_append] at run
    obtain ⟨middle, front, back⟩ := run
    cases runs_singleton.mp back with
    | move => exact spec.modal.obey (tracks start middle · front) inForce

end Machine

end Kerf
