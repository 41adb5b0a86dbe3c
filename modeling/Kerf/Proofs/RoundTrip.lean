import Kerf.Proofs.Emission
import Kerf.Proofs.Printing

/-!
# Reading back what was written

On a machine with three axes the reader follows the writer: after every move the value it holds for
an axis is the number in the word that the writer has in force. So the places it finds are those of
the points written, as their numbers were rounded, with repetitions here and there.
-/

set_option autoImplicit false

namespace Kerf

open Kerf.Program (Word Entry)
open Kerf.Text
open Kerf.Yaml (floatOf)

/-! ## Places with repetitions -/

/-- Places heard again: each is repeated any number of times, and is only missed when it compares
equal to the place before it. -/
inductive Echoes : Option Vec → List Vec → List Vec → Prop where
  | done {previous : Option Vec} : Echoes previous [] []
  | missed {previous place : Vec} {places heard : List Vec} :
      (previous == place) = true → Echoes (some place) places heard →
      Echoes (some previous) (place :: places) heard
  | repeated {previous : Option Vec} {place : Vec} {places heard : List Vec} (more : Nat) :
      Echoes (some place) places heard →
      Echoes previous (place :: places) (List.replicate (more + 1) place ++ heard)

theorem eraseReps_cons_cons (first second : Vec) (rest : List Vec) :
    (first :: second :: rest).eraseReps =
      if first == second then (first :: rest).eraseReps
      else first :: (second :: rest).eraseReps := by
  have moved : ∀ (rest : List Vec) (last : Vec) (kept : List Vec),
      List.eraseRepsBy.loop (· == ·) last rest kept =
        kept.reverse ++ List.eraseRepsBy.loop (· == ·) last rest [] := by
    intro rest
    induction rest with
    | nil => simp [List.eraseRepsBy.loop]
    | cons next rest ih =>
        intro last kept
        unfold List.eraseRepsBy.loop
        split
        · exact ih last kept
        · rw [ih, ih next [last]]
          simp
  simp only [List.eraseReps, List.eraseRepsBy]
  rw [List.eraseRepsBy.loop]
  split
  · next same => rw [if_pos same]
  · next different =>
      rw [if_neg (by simp [different]), moved]
      rfl

theorem eraseReps_replicate {first place : Vec} (same : (first == place) = true) (count : Nat)
    (rest : List Vec) :
    (first :: (List.replicate count place ++ rest)).eraseReps = (first :: rest).eraseReps := by
  induction count with
  | zero => rfl
  | succ count ih =>
      rw [List.replicate_succ, List.cons_append, eraseReps_cons_cons, if_pos same, ih]

namespace Vec

theorem beq_iff {a b : Vec} :
    (a == b) = true ↔ (a.x == b.x) = true ∧ (a.y == b.y) = true ∧ (a.z == b.z) = true := by
  obtain ⟨ax, ay, az⟩ := a
  obtain ⟨bx, by', bz⟩ := b
  change (ax == bx && (ay == by' && az == bz)) = true ↔ _
  simp only [Bool.and_eq_true]

theorem beq_trans {a b c : Vec} (first : (a == b) = true) (second : (b == c) = true) :
    (a == c) = true := by
  rw [beq_iff] at first second ⊢
  exact ⟨Doubles.beq_trans first.1 second.1, Doubles.beq_trans first.2.1 second.2.1,
    Doubles.beq_trans first.2.2 second.2.2⟩

end Vec

/-- Behind a place that compares equal to the last one, repetitions make no difference. -/
theorem Echoes.eraseReps_cons {places heard : List Vec} {previous first : Vec}
    (echoes : Echoes (some previous) places heard) (same : (first == previous) = true)
    (numbers : ∀ place ∈ places, (place == place) = true) :
    (first :: heard).eraseReps = (first :: places).eraseReps := by
  induction places generalizing previous first heard with
  | nil =>
      cases echoes
      rfl
  | cons place places ih =>
      have later : ∀ other ∈ places, (other == other) = true := fun other member =>
        numbers other (List.mem_cons_of_mem _ member)
      rw [eraseReps_cons_cons]
      cases echoes with
      | missed equal rest =>
          have again := Vec.beq_trans same equal
          rw [if_pos again]
          exact ih rest again later
      | repeated more rest =>
          rw [List.replicate_succ, List.cons_append, eraseReps_cons_cons]
          split
          · next again =>
              rw [eraseReps_replicate again]
              exact ih rest again later
          · have self := numbers place List.mem_cons_self
            rw [eraseReps_replicate self, ih rest self later]

/-- Places heard again from the start are the same up to repetitions. -/
theorem Echoes.eraseReps_eq {places heard : List Vec} (echoes : Echoes none places heard)
    (numbers : ∀ place ∈ places, (place == place) = true) :
    heard.eraseReps = places.eraseReps := by
  cases echoes with
  | done => rfl
  | @repeated _ place places heard more rest =>
      have self := numbers place List.mem_cons_self
      rw [List.replicate_succ, List.cons_append, eraseReps_replicate self]
      exact rest.eraseReps_cons self fun other member =>
        numbers other (List.mem_cons_of_mem _ member)

namespace Machine

/-! ## The line of a move -/

/-- A word made of a capital letter and a plain numeral. The letter `N` is left to line numbers. -/
structure Spelled (word : Word) (letter : Char) (numeral : Decimal.Numeral) : Prop where
  upper : letter.isUpper = true
  named : letter ≠ 'N'
  plain : numeral.Plain
  letter : word.letter = String.singleton letter
  value : word.value.toList = numeral.text

section Spelled

variable {word : Word} {letter : Char} {numeral : Decimal.Numeral}

theorem singleton_inj {a b : Char} (same : String.singleton a = String.singleton b) : a = b := by
  have lists := congrArg String.toList same
  simpa using lists

theorem Spelled.text (spelled : Spelled word letter numeral) :
    word.text.toList = letter :: numeral.text := by
  rw [Word.text, String.toList_append, spelled.letter, spelled.value, String.toList_singleton]
  rfl

theorem Spelled.isPlainChar (spelled : Spelled word letter numeral) {c : Char}
    (member : c ∈ word.text.toList) : isPlainChar c = true := by
  rw [spelled.text] at member
  rcases List.mem_cons.mp member with rfl | inside
  · exact isPlainChar_of_isUpper spelled.upper
  · exact isPlainChar_of_mem_text spelled.plain inside

/-- The only capital in a word is its letter. -/
theorem Spelled.capital_eq (spelled : Spelled word letter numeral) {c : Char}
    (member : c ∈ word.text.toList) (upper : (capital c).isUpper = true) : capital c = letter := by
  rw [capital_of_isPlainChar (spelled.isPlainChar member)] at upper ⊢
  rw [spelled.text] at member
  rcases List.mem_cons.mp member with rfl | inside
  · rfl
  · rcases spelled.plain.of_mem_text inside with digit | rfl | rfl
    · rw [Decimal.isUpper_of_isDigit digit] at upper
      cases upper
    · exact absurd upper (by decide)
    · exact absurd upper (by decide)

end Spelled

def lineOf (motion : List Word) (later : List (List Char)) : List Char :=
  [' '].intercalate (motion.map (·.text.toList) ++ later)

/-- Comments start unlike any number or word of a motion. -/
def CommentsApart (dialect : Dialect) : Prop :=
  ∃ mark marks, dialect.commentStart.toList = mark :: marks ∧ isPlainChar mark = false

/-- Words with each letter once, printed together with the texts behind them: the first line that is
read, and the lines that come behind it. -/
structure Printed (dialect : Dialect) (words : List Word) (later : List (List Char))
    (first : List Char) (others : List (List Char)) : Prop where
  marked : CommentsApart dialect
  spelled : ∀ word ∈ words, ∃ letter numeral, Spelled word letter numeral
  once : (words.map (·.letter)).Nodup
  pieces : ∃ number, splitAt '\n' (Program.printLine dialect number (lineOf words later)).2 =
    first :: others

section Words

variable {dialect : Dialect} {words : List Word} {later : List (List Char)} {letter : Char}
  {first : List Char} {others : List (List Char)}

theorem exists_printed (marked : CommentsApart dialect)
    (spelled : ∀ word ∈ words, ∃ letter numeral, Spelled word letter numeral)
    (once : (words.map (·.letter)).Nodup) (later : List (List Char)) (number : Int64) :
    ∃ first others, splitAt '\n' (Program.printLine dialect number (lineOf words later)).2 =
        first :: others ∧ Printed dialect words later first others := by
  obtain ⟨mark, marks, opening, foreign⟩ := marked
  obtain ⟨first, others, _, _, pieces, _⟩ := @splitAt_printLine dialect mark marks opening foreign
    number [] (by simp) (by simp) (lineOf words later)
  exact ⟨first, others, pieces, ⟨mark, marks, opening, foreign⟩, spelled, once, number, pieces⟩

theorem capital_ne_of_absent
    (spelled : ∀ word ∈ words, ∃ letter numeral, Spelled word letter numeral)
    (upper : letter.isUpper = true) (absent : String.singleton letter ∉ words.map (·.letter)) :
    ∀ text ∈ words.map (·.text.toList), ∀ c ∈ text, capital c ≠ letter := by
  rintro text listed c inside rfl
  obtain ⟨word, member, rfl⟩ := List.mem_map.mp listed
  obtain ⟨own, numeral, spells⟩ := spelled word member
  rw [spells.capital_eq inside upper, ← spells.letter] at absent
  exact absent (List.mem_map_of_mem member)

/-- How a word of a line is read back. The lines behind the first do not have its letter. -/
theorem Printed.spoken (printed : Printed dialect words later first others) {word : Word}
    (member : word ∈ words) {numeral : Decimal.Numeral} (own : Spelled word letter numeral)
    (quiet : ∀ text ∈ later, ∀ c ∈ text, capital c ≠ letter) :
    (∃ lead tail, cleanLine dialect first = lead ++ letter :: (numeral.text ++ tail) ∧
      letter ∉ lead ∧ letter ∉ tail ∧ Apart tail) ∧
    ∀ other ∈ others, ∀ c ∈ other, capital c ≠ letter := by
  obtain ⟨⟨mark, marks, opening, foreign⟩, spelled, once, number, pieces⟩ := printed
  obtain ⟨before, after, rfl⟩ := List.append_of_mem member
  rw [List.map_append, List.map_cons, List.nodup_append, List.nodup_cons, own.letter] at once
  have absentBefore : String.singleton letter ∉ before.map (·.letter) := fun inside =>
    once.2.2 _ inside _ List.mem_cons_self rfl
  have earlier := capital_ne_of_absent
    (fun other inside => spelled other (List.mem_append_left _ inside)) own.upper absentBefore
  have trailing := capital_ne_of_absent (fun other inside =>
    spelled other (List.mem_append_right _ (List.mem_cons_of_mem _ inside))) own.upper once.2.1.1
  have silent : ∀ text ∈ after.map (·.text.toList) ++ later, ∀ c ∈ text, capital c ≠ letter := by
    intro text listed
    rcases List.mem_append.mp listed with spoken | rest
    · exact trailing text spoken
    · exact quiet text rest
  have plain : ∀ text ∈ before.map (·.text.toList), ∀ c ∈ text,
      isPlainChar c = true ∧ c ≠ letter := by
    intro text listed c inside
    have different := earlier text listed c inside
    obtain ⟨other, spoken, rfl⟩ := List.mem_map.mp listed
    obtain ⟨_, _, spells⟩ := spelled other (List.mem_append_left _ spoken)
    rw [capital_of_isPlainChar (spells.isPlainChar inside)] at different
    exact ⟨spells.isPlainChar inside, different⟩
  have whole : lineOf (before ++ word :: after) later =
      [' '].intercalate (before.map (·.text.toList) ++
        (letter :: numeral.text) :: (after.map (·.text.toList) ++ later)) := by
    rw [lineOf, List.map_append, List.map_cons, List.append_assoc, List.cons_append, own.text]
  obtain ⟨_, _, lead, tail, same, cleaned, early, late, apart, source⟩ :=
    splitAt_word opening foreign number own.upper own.named own.plain plain silent
  rw [← whole, pieces] at same
  cases same
  refine ⟨⟨lead, tail, cleaned, early, late, apart⟩, ?_⟩
  rintro other inside c here rfl
  rcases source other inside c here with rfl | ⟨text, listed, found⟩
  · exact absurd own.upper (by decide)
  · exact silent text listed c found rfl

theorem Printed.wordValue (printed : Printed dialect words later first others) {word : Word}
    (member : word ∈ words) {numeral : Decimal.Numeral} (own : Spelled word letter numeral)
    (quiet : ∀ text ∈ later, ∀ c ∈ text, capital c ≠ letter) :
    Machine.wordValue letter (cleanLine dialect first) = floatOf word.value.toList := by
  obtain ⟨⟨lead, tail, cleaned, early, _, apart⟩, _⟩ := printed.spoken member own quiet
  rw [cleaned, wordValue_word early own.plain apart, own.value, Decimal.floatOf_text own.plain]

/-- A letter that no word of a line has is not read from it. -/
theorem Printed.unspoken (printed : Printed dialect words later first others)
    (upper : letter.isUpper = true) (named : letter ≠ 'N')
    (absent : String.singleton letter ∉ words.map (·.letter))
    (quiet : ∀ text ∈ later, ∀ c ∈ text, capital c ≠ letter) :
    letter ∉ cleanLine dialect first ∧ ∀ other ∈ others, ∀ c ∈ other, capital c ≠ letter := by
  obtain ⟨⟨mark, marks, opening, foreign⟩, spelled, _, number, pieces⟩ := printed
  have silent : ∀ text ∈ words.map (·.text.toList) ++ later, ∀ c ∈ text, capital c ≠ letter := by
    intro text listed
    rcases List.mem_append.mp listed with spoken | rest
    · exact capital_ne_of_absent spelled upper absent text spoken
    · exact quiet text rest
  obtain ⟨_, _, same, missing, behind⟩ :=
    splitAt_wordless opening foreign number upper named silent
  rw [lineOf] at pieces
  rw [pieces] at same
  cases same
  exact ⟨missing, behind⟩

/-- Whether or not a word has a letter, it does not reach the lines behind the first one. -/
theorem Printed.others_silent (printed : Printed dialect words later first others)
    (upper : letter.isUpper = true) (named : letter ≠ 'N')
    (quiet : ∀ text ∈ later, ∀ c ∈ text, capital c ≠ letter) :
    ∀ other ∈ others, ∀ c ∈ other, capital c ≠ letter := by
  by_cases present : String.singleton letter ∈ words.map (·.letter)
  · obtain ⟨word, listed, same⟩ := List.mem_map.mp present
    obtain ⟨own, numeral, spells⟩ := printed.spelled word listed
    have equal : own = letter := singleton_inj (spells.letter.symm.trans same)
    subst equal
    exact (printed.spoken listed spells quiet).2
  · exact (printed.unspoken upper named present quiet).2

end Words

/-- The letters that matter to the motion of a machine with three axes. -/
def trackedLetters : List Char := ['G', 'X', 'Y', 'Z']

theorem upper_of_tracked {letter : Char} (tracked : letter ∈ trackedLetters) :
    letter.isUpper = true ∧ letter ≠ 'N' := by
  have all : ∀ letter ∈ trackedLetters, letter.isUpper = true ∧ letter ≠ 'N' :=
    List.all_iff_forall_prop.mp (by decide)
  exact all letter tracked

theorem spelled_modeWord (rapid : Bool) :
    Spelled (modeWord rapid) 'G' ⟨false, if rapid then ['0', '0'] else ['0', '1'], [], 0⟩ := by
  cases rapid <;>
    exact ⟨by decide, by decide, ⟨by decide, List.all_iff_forall_prop.mp (by decide),
      List.forall_mem_nil _, rfl⟩, by decide, by decide⟩

/-- A line whose only code is a mode does not move in machine coordinates. -/
theorem Printed.relative {dialect : Dialect} {words : List Word} {later : List (List Char)}
    {first : List Char} {others : List (List Char)}
    (printed : Printed dialect words later first others)
    (mode : ∀ word ∈ words, word.letter = "G" → ∃ rapid, word = modeWord rapid)
    (quiet : ∀ text ∈ later, ∀ c ∈ text, capital c ≠ 'G') :
    isAbsoluteLine (cleanLine dialect first) = false := by
  by_cases present : "G" ∈ words.map (·.letter)
  · obtain ⟨word, member, letter⟩ := List.mem_map.mp present
    obtain ⟨rapid, rfl⟩ := mode word member letter
    obtain ⟨⟨lead, tail, cleaned, early, late, apart⟩, _⟩ :=
      printed.spoken member (spelled_modeWord rapid) quiet
    have absolute := (hasCode_mode early late apart rapid).1
    rw [cleaned]
    cases rapid <;> exact absolute
  · have absent : String.singleton 'G' ∉ words.map (·.letter) := present
    exact hasCode_of_not_mem (printed.unspoken (by decide) (by decide) absent quiet).1 _

/-- The texts of a line: words with each letter once and no code but a mode, and then texts without any
of some letters. -/
structure WordLine (letters : List Char) (words : List Word) (later : List (List Char)) : Prop where
  spelled : ∀ word ∈ words, ∃ letter numeral, Spelled word letter numeral
  mode : ∀ word ∈ words, word.letter = "G" → ∃ rapid, word = modeWord rapid
  once : (words.map (·.letter)).Nodup
  quiet : ∀ text ∈ later, ∀ c ∈ text, capital c ∉ letters

section Lines

variable {dialect : Dialect} {words : List Word} {later : List (List Char)} {letter : Char}
  {first : List Char} {others : List (List Char)}

theorem WordLine.silent {letters : List Char} (shape : WordLine letters words later)
    (listed : letter ∈ letters) : ∀ text ∈ later, ∀ c ∈ text, capital c ≠ letter := by
  rintro text member c inside rfl
  exact shape.quiet text member c inside listed

/-- The lines behind the first one say nothing about the motion. -/
theorem WordLine.others_quiet (shape : WordLine trackedLetters words later)
    (printed : Printed dialect words later first others) :
    ∀ other ∈ others, ∀ c ∈ other, capital c ∉ trackedLetters := by
  intro other member c here tracked
  obtain ⟨upper, named⟩ := upper_of_tracked tracked
  exact printed.others_silent upper named (shape.silent tracked) other member c here rfl

end Lines

/-! ## Rounded places -/

end Machine

/-- The place whose numbers a dialect writes for a position. -/
def Dialect.rounded (dialect : Dialect) (position : Vec) : Option Vec := do
  let x ← floatOf (dialect.format position.x).toList
  let y ← floatOf (dialect.format position.y).toList
  let z ← floatOf (dialect.format position.z).toList
  return ⟨x, y, z⟩

theorem Dialect.floatOf_format (dialect : Dialect) {x : Float} (finite : x.isFinite = true) :
    ∃ numeral value, numeral.Plain ∧ (dialect.format x).toList = Decimal.Numeral.text numeral ∧
      floatOf (dialect.format x).toList = some value ∧ (value == value) = true := by
  obtain ⟨numeral, plain, moderate, text⟩ := dialect.format_numeral finite
  obtain ⟨value, denoted, fits⟩ := Decimal.Numeral.value?_of_moderate plain moderate
  refine ⟨numeral, value, plain, text, ?_, Doubles.beq_self_of_fits fits⟩
  rw [text, Decimal.floatOf_text plain, denoted]

theorem Dialect.rounded_eq {dialect : Dialect} {position place : Vec}
    (x : floatOf (dialect.format position.x).toList = some place.x)
    (y : floatOf (dialect.format position.y).toList = some place.y)
    (z : floatOf (dialect.format position.z).toList = some place.z) :
    dialect.rounded position = some place := by
  rw [rounded, x, y, z]
  rfl

theorem Dialect.rounded_of_isFinite (dialect : Dialect) {position : Vec}
    (finite : position.isFinite = true) :
    ∃ place, dialect.rounded position = some place ∧ (place == place) = true := by
  simp only [Vec.isFinite, Bool.and_eq_true] at finite
  obtain ⟨_, x, _, _, readX, selfX⟩ := dialect.floatOf_format finite.1.1
  obtain ⟨_, y, _, _, readY, selfY⟩ := dialect.floatOf_format finite.1.2
  obtain ⟨_, z, _, _, readZ, selfZ⟩ := dialect.floatOf_format finite.2
  exact ⟨⟨x, y, z⟩, rounded_eq readX readY readZ, Vec.beq_iff.mpr ⟨selfX, selfY, selfZ⟩⟩

namespace Machine

/-- The place that the axes have been given, once each of them has. -/
def ReadState.reached (state : ReadState) : Option Vec := do
  let x ← state.axes.lookup 'X'
  let y ← state.axes.lookup 'Y'
  let z ← state.axes.lookup 'Z'
  return ⟨x, y, z⟩

/-- The reader holds for every axis the number in the word that the writer has in force. -/
def InStep (registers : Registers) (state : ReadState) : Prop :=
  ∀ letter ∈ ['X', 'Y', 'Z'], state.axes.lookup letter =
    (registers.get? (String.singleton letter)).bind fun text => floatOf text.toList

section Moves

variable {machine : Machine} {program : Program} {values : AxisValues}

theorem mem_coordinates_vertical (vertical : machine.kinematics = .vertical)
    {axis : String × Float} (member : axis ∈ machine.coordinates values) :
    ∃ letter ∈ ['X', 'Y', 'Z'], axis.1 = String.singleton letter := by
  simp only [coordinates, vertical, List.mem_cons, List.not_mem_nil, or_false] at member
  rcases member with rfl | rfl | rfl
  · exact ⟨'X', by decide, (by decide : "X" = String.singleton 'X')⟩
  · exact ⟨'Y', by decide, (by decide : "Y" = String.singleton 'Y')⟩
  · exact ⟨'Z', by decide, (by decide : "Z" = String.singleton 'Z')⟩

theorem finite_of_mem_coordinates (vertical : machine.kinematics = .vertical)
    (finite : values.position.isFinite = true) {axis : String × Float}
    (member : axis ∈ machine.coordinates values) : axis.2.isFinite = true := by
  simp only [Vec.isFinite, Bool.and_eq_true] at finite
  simp only [coordinates, vertical, List.mem_cons, List.not_mem_nil, or_false] at member
  rcases member with rfl | rfl | rfl
  · exact finite.1.1
  · exact finite.1.2
  · exact finite.2

/-- The words of a move make up a line of the kind that can be read back. -/
theorem wordLine_motionWords (vertical : machine.kinematics = .vertical)
    (finite : values.position.isFinite = true) (rapid : Bool) {later : List (List Char)}
    (quiet : ∀ text ∈ later, ∀ c ∈ text, capital c ∉ trackedLetters) :
    WordLine trackedLetters (machine.motionWords program rapid values).2 later := by
  have spec := motionWords_spec machine program rapid values
  refine ⟨?_, ?_, spec.modal.once, quiet⟩
  · intro word member
    rcases spec.stated word member with rfl | ⟨axis, listed, rfl⟩
    · exact ⟨'G', _, spelled_modeWord rapid⟩
    · obtain ⟨letter, tracked, same⟩ := mem_coordinates_vertical vertical listed
      obtain ⟨numeral, _, plain, text, _⟩ := program.dialect.floatOf_format
        (finite_of_mem_coordinates vertical finite listed)
      obtain ⟨upper, named⟩ := upper_of_tracked (List.mem_cons_of_mem _ tracked)
      exact ⟨letter, numeral, upper, named, plain, same, text⟩
  · intro word member letter
    rcases spec.stated word member with rfl | ⟨axis, listed, rfl⟩
    · exact ⟨rapid, rfl⟩
    · have other := coordinates_subset listed
      rw [show axis.1 = "G" from letter] at other
      exact absurd other (by decide)

/-- What a move tells of the axes: each is given the number of its new word, or keeps the word that
it has. -/
def Told (before after : Registers) (said : Char → Option Float) : Prop :=
  ∀ letter ∈ ['X', 'Y', 'Z'], ∃ text value,
    after.get? (String.singleton letter) = some text ∧ floatOf text.toList = some value ∧
      (value == value) = true ∧
      (said letter = some value ∨
        said letter = none ∧ before.get? (String.singleton letter) = some text)

section Telling

variable {before after : Registers} {said : Char → Option Float} {state next : ReadState}

/-- A reader that was in step and takes what it is told is in step again. -/
theorem Told.inStep (told : Told before after said) (inStep : InStep before state)
    (read : ∀ letter ∈ ['X', 'Y', 'Z'],
      next.axes.lookup letter = (said letter).or (state.axes.lookup letter)) :
    InStep after next := by
  intro letter member
  obtain ⟨text, value, held, denoted, _, given | ⟨silent, kept⟩⟩ := told letter member
  · rw [read letter member, given, held]
    exact denoted.symm
  · rw [read letter member, silent, held, inStep letter member, kept]
    rfl

/-- When nothing it is told is different, the reader stays where it compares equal. -/
theorem Told.unchanged (told : Told before after said) (inStep : InStep before state)
    (same : ∀ letter ∈ ['X', 'Y', 'Z'], ∀ value, said letter = some value →
      ∃ old, state.axes.lookup letter = some old ∧ (old == value) = true) :
    ∀ letter ∈ ['X', 'Y', 'Z'], ∃ old value, state.axes.lookup letter = some old ∧
      (after.get? (String.singleton letter)).bind (fun text => floatOf text.toList) = some value ∧
      (old == value) = true := by
  intro letter member
  obtain ⟨text, value, held, denoted, self, given | ⟨_, kept⟩⟩ := told letter member
  · obtain ⟨old, known, equal⟩ := same letter member value given
    exact ⟨old, value, known, by rw [held]; exact denoted, equal⟩
  · refine ⟨value, value, ?_, by rw [held]; exact denoted, self⟩
    rw [inStep letter member, kept]
    exact denoted

end Telling

theorem exists_coordinate (vertical : machine.kinematics = .vertical) (values : AxisValues)
    {letter : Char} (member : letter ∈ ['X', 'Y', 'Z']) :
    ∃ value, (String.singleton letter, value) ∈ machine.coordinates values := by
  simp only [coordinates, vertical]
  simp only [List.mem_cons, List.not_mem_nil, or_false] at member
  rcases member with rfl | rfl | rfl
  · exact ⟨values.position.x, .head _⟩
  · exact ⟨values.position.y, .tail _ (.head _)⟩
  · exact ⟨values.position.z, .tail _ (.tail _ (.head _))⟩

private theorem axis_ne_setting : ∀ letter ∈ ['X', 'Y', 'Z'],
    String.singleton letter ≠ "F" ∧ String.singleton letter ≠ "S" :=
  List.all_iff_forall_prop.mp (by decide)

private theorem setting_not_tracked : ∀ letter ∈ ['F', 'S'], capital letter ∉ trackedLetters :=
  List.all_iff_forall_prop.mp (by decide)

/-- A reader that hears exactly the words of the motion is told of all axes. -/
theorem told_moveWords (vertical : machine.kinematics = .vertical)
    (finite : values.position.isFinite = true) (tool : Option Tool) (point : Point)
    {said : Char → Option Float}
    (given : ∀ letter ∈ ['X', 'Y', 'Z'], ∀ text, ⟨String.singleton letter, text⟩ ∈
      (machine.motionWords program (effectiveFeed tool point == 0) values).2 →
        said letter = floatOf text.toList)
    (silent : ∀ letter ∈ ['X', 'Y', 'Z'], String.singleton letter ∉
      (machine.motionWords program (effectiveFeed tool point == 0) values).2.map (·.letter) →
        said letter = none) :
    Told program.registers (machine.moveWords program tool point values).1.registers said := by
  intro letter member
  have spec := moveWords_spec machine program tool point values
  obtain ⟨settings, words, stated⟩ := moveWords_append machine program tool point values
  obtain ⟨x, listed⟩ := exists_coordinate vertical values member
  obtain ⟨_, value, _, _, denoted, self⟩ := program.dialect.floatOf_format
    (finite_of_mem_coordinates vertical finite listed)
  have inForce := spec.axes _ listed
  refine ⟨_, value, inForce, denoted, self, ?_⟩
  rcases spec.modal.inForce _ _ inForce with written | ⟨absent, held⟩
  · rw [words] at written
    rcases List.mem_append.mp written with motion | setting
    · exact .inl ((given letter member _ motion).trans denoted)
    · have same := stated _ setting
      have distinct := axis_ne_setting letter member
      exact absurd (same.imp (congrArg Word.letter) (congrArg Word.letter)) (not_or.mpr distinct)
  · rw [words, List.map_append] at absent
    exact .inr ⟨silent letter member fun inside => absent (List.mem_append_left _ inside), held⟩

/-- The texts behind the words of a motion. -/
def laterTexts (settings : List Word) (change : String) : List (List Char) :=
  settings.map (·.text.toList) ++ if change.isEmpty then [] else [change.toList]

theorem lines_move (dialect : Dialect) (motion settings : List Word) (change : String) :
    Entry.lines dialect (.move (motion ++ settings) change) =
      [lineOf motion (laterTexts settings change)] := by
  unfold Entry.lines lineOf laterTexts
  dsimp only
  rw [String.toList_intercalate, List.map_append, List.map_append, List.map_append, List.map_map,
    List.map_map, List.append_assoc]
  congr 2
  split <;> rfl

variable {dialect : Dialect} {state : ReadState}

private theorem quiet_laterTexts {settings : List Word} {change : String} {feed speed : Float}
    (stated : ∀ word ∈ settings, word = ⟨"F", dialect.format feed⟩ ∨
      word = ⟨"S", dialect.format speed⟩)
    (silent : ∀ c ∈ change.toList, capital c ∉ trackedLetters) :
    ∀ text ∈ laterTexts settings change, ∀ c ∈ text, capital c ∉ trackedLetters := by
  intro text member c inside
  rcases List.mem_append.mp member with setting | last
  · obtain ⟨word, listed, rfl⟩ := List.mem_map.mp setting
    have source : c ∈ ['F', 'S'] ∨ ∃ value, c ∈ (dialect.format value).toList := by
      rcases stated word listed with rfl | rfl <;>
      · rw [Word.text, String.toList_append, List.mem_append] at inside
        exact inside.imp (fun here => by simp_all) fun digits => ⟨_, digits⟩
    rcases source with letter | ⟨value, digits⟩
    · exact setting_not_tracked c letter
    · exact capital_not_mem_of_isNumberChar (dialect.isNumberChar_format value c digits)
  · split at last
    · cases last
    · cases List.mem_singleton.mp last
      exact silent c inside

/-- The lines of code that lines of a program are printed as. -/
def codeOf (dialect : Dialect) (number : Int64) (lines : List (List Char)) : List (List Char) :=
  (Program.printed dialect number lines).flatMap (splitAt '\n')

theorem codeOf_append (dialect : Dialect) (number : Int64) (front : List (List Char)) :
    ∃ reached, ∀ back, codeOf dialect number (front ++ back) =
      codeOf dialect number front ++ codeOf dialect reached back := by
  induction front generalizing number with
  | nil => exact ⟨number, fun back => rfl⟩
  | cons line front ih =>
      obtain ⟨reached, later⟩ := ih (Program.printLine dialect number line).1
      refine ⟨reached, fun back => ?_⟩
      have shape : ∀ lines, codeOf dialect number (line :: lines) =
          splitAt '\n' (Program.printLine dialect number line).2 ++
            codeOf dialect (Program.printLine dialect number line).1 lines := fun lines => by
        rw [codeOf, Program.printed, List.flatMap_cons]
        rfl
      rw [List.cons_append, shape, shape, later, List.append_assoc]

theorem codeOf_singleton (dialect : Dialect) (number : Int64) (line : List Char) :
    codeOf dialect number [line] = splitAt '\n' (Program.printLine dialect number line).2 := by
  simp [codeOf, Program.printed]

/-- Whatever number they start with, entries with short lines can be read from a state, and lead to
an outcome. -/
def ReadsTo (machine : Machine) (state : ReadState) (entries : List Entry)
    (outcome : ReadState → Prop) : Prop :=
  ∀ number count,
    (∀ line ∈ codeOf machine.dialect number (entries.flatMap (Entry.lines machine.dialect)),
      byteCount line < lineLimit) →
    ∃ next, readLines machine [] state count
      (codeOf machine.dialect number (entries.flatMap (Entry.lines machine.dialect))) = .ok next ∧
        outcome next

theorem ReadsTo.append {front back : List Entry} {between outcome : ReadState → Prop}
    (first : ReadsTo machine state front between)
    (second : ∀ next, between next → ReadsTo machine next back outcome) :
    ReadsTo machine state (front ++ back) outcome := by
  intro number count short
  obtain ⟨reached, code⟩ := codeOf_append machine.dialect number
    (front.flatMap (Entry.lines machine.dialect))
  rw [List.flatMap_append, code] at short ⊢
  obtain ⟨next, read, arrived⟩ := first number count fun line member =>
    short line (List.mem_append_left _ member)
  rw [readLines_append read]
  exact second next arrived reached _ fun line member => short line (List.mem_append_right _ member)

/-- What reading the lines of one move does: the reader keeps in step and arrives at a place, and
makes points there unless it was at an equal place before. -/
structure Arrives (state next : ReadState) (registers : Registers) (place : Vec) : Prop where
  inStep : InStep registers next
  reached : next.reached = some place
  points : ∃ made, next.points = made ++ state.points ∧
    (∀ point ∈ made, point.position = place) ∧
    (made = [] → ∃ old, state.reached = some old ∧ (old == place) = true)

private theorem place_of_reached {place : Vec} (reached : state.reached = some place) :
    state.place = place := by
  unfold ReadState.reached at reached
  cases x : state.axes.lookup 'X' with
  | none => rw [x] at reached; cases reached
  | some _ =>
      cases y : state.axes.lookup 'Y' with
      | none => rw [x, y] at reached; cases reached
      | some _ =>
          cases z : state.axes.lookup 'Z' with
          | none => rw [x, y, z] at reached; cases reached
          | some _ =>
              rw [x, y, z] at reached
              cases reached
              simp only [ReadState.place, ReadState.axis, x, y, z, Option.getD_some]

theorem reached_eq {place : Vec} (x : state.axes.lookup 'X' = some place.x)
    (y : state.axes.lookup 'Y' = some place.y) (z : state.axes.lookup 'Z' = some place.z) :
    state.reached = some place := by
  rw [ReadState.reached, x, y, z]
  rfl

private theorem register_vertical (vertical : machine.kinematics = .vertical) {registers : Registers}
    (axes : ∀ axis ∈ machine.coordinates values,
      registers.get? axis.1 = some (dialect.format axis.2)) :
    registers.get? (String.singleton 'X') = some (dialect.format values.position.x) ∧
      registers.get? (String.singleton 'Y') = some (dialect.format values.position.y) ∧
      registers.get? (String.singleton 'Z') = some (dialect.format values.position.z) := by
  simp only [coordinates, vertical] at axes
  exact ⟨axes _ (.head _), axes _ (.tail _ (.head _)), axes _ (.tail _ (.tail _ (.head _)))⟩

/-- A reader that is told of all axes arrives at the rounded place. -/
theorem Told.arrives (vertical : machine.kinematics = .vertical) {before after : Registers}
    {said : Char → Option Float} {next : ReadState} (told : Told before after said)
    (inStep : InStep before state) (finite : values.position.isFinite = true) {place : Vec}
    (rounded : dialect.rounded values.position = some place)
    (axes : ∀ axis ∈ machine.coordinates values, after.get? axis.1 = some (dialect.format axis.2))
    (read : ∀ letter ∈ ['X', 'Y', 'Z'],
      next.axes.lookup letter = (said letter).or (state.axes.lookup letter))
    (points : ∃ made, next.points = made ++ state.points ∧
      (∀ point ∈ made, point.position = next.place) ∧
      (made = [] → ∀ letter ∈ ['X', 'Y', 'Z'], ∀ value, said letter = some value →
      ∃ old, state.axes.lookup letter = some old ∧ (old == value) = true)) :
    Arrives state next after place := by
  have inStepNext := told.inStep inStep read
  obtain ⟨heldX, heldY, heldZ⟩ := register_vertical vertical axes
  simp only [Vec.isFinite, Bool.and_eq_true] at finite
  obtain ⟨_, x, _, _, readX, _⟩ := dialect.floatOf_format finite.1.1
  obtain ⟨_, y, _, _, readY, _⟩ := dialect.floatOf_format finite.1.2
  obtain ⟨_, z, _, _, readZ, _⟩ := dialect.floatOf_format finite.2
  have same : dialect.rounded values.position = some ⟨x, y, z⟩ :=
    Dialect.rounded_eq readX readY readZ
  rw [same] at rounded
  cases rounded
  have reached : next.reached = some ⟨x, y, z⟩ := by
    apply reached_eq
    · rw [inStepNext 'X' (by decide), heldX, Option.bind_some, readX]
    · rw [inStepNext 'Y' (by decide), heldY, Option.bind_some, readY]
    · rw [inStepNext 'Z' (by decide), heldZ, Option.bind_some, readZ]
  obtain ⟨made, joined, placed, still⟩ := points
  refine ⟨inStepNext, reached, made, joined, ?_, ?_⟩
  · intro point member
    rw [placed point member, place_of_reached reached]
  · intro nothing
    have unchanged := told.unchanged inStep (still nothing)
    obtain ⟨oldX, _, knownX, sameX, equalX⟩ := unchanged 'X' (by decide)
    obtain ⟨oldY, _, knownY, sameY, equalY⟩ := unchanged 'Y' (by decide)
    obtain ⟨oldZ, _, knownZ, sameZ, equalZ⟩ := unchanged 'Z' (by decide)
    rw [heldX, Option.bind_some, readX] at sameX
    rw [heldY, Option.bind_some, readY] at sameY
    rw [heldZ, Option.bind_some, readZ] at sameZ
    cases sameX
    cases sameY
    cases sameZ
    exact ⟨⟨oldX, oldY, oldZ⟩, reached_eq knownX knownY knownZ,
      Vec.beq_iff.mpr ⟨equalX, equalY, equalZ⟩⟩

theorem not_mem_cleanLine (marked : CommentsApart dialect) {line : List Char} {letter : Char}
    (source : ∀ c ∈ line, capital c ≠ letter) : letter ∉ cleanLine dialect line := by
  obtain ⟨mark, marks, opening, foreign⟩ := marked
  have visible : mark ≠ ' ' := by
    rintro rfl
    exact absurd foreign (by decide)
  obtain ⟨tail, cleaned, taken, _⟩ :=
    @cleanLine_append dialect mark marks opening visible [] (by simp) line
  intro member
  rw [← List.nil_append line, cleaned, List.nil_append] at member
  obtain ⟨c, inside, same⟩ := taken letter member
  exact source c inside same

private theorem quiet_cleanLine (vertical : machine.kinematics = .vertical)
    (marked : CommentsApart machine.dialect) {line : List Char} (source : ∀ c ∈ line, capital c ∉ trackedLetters) :
    Quiet machine (cleanLine machine.dialect line) := by
  have silent : ∀ letter ∈ trackedLetters, letter ∉ cleanLine machine.dialect line := by
    intro letter tracked
    apply not_mem_cleanLine marked
    rintro c inside rfl
    exact source c inside tracked
  refine ⟨silent 'G' (by decide), fun letter member => silent letter ?_⟩
  rw [axisLetters_vertical vertical] at member
  exact List.mem_cons_of_mem _ member

/-- Reading the line of a move tells of all axes. -/
theorem readLines_move (vertical : machine.kinematics = .vertical)
    (marked : CommentsApart machine.dialect) {motion : List Word} {later : List (List Char)}
    (shape : WordLine trackedLetters motion later) (number : Int64) (count : Nat) (state : ReadState)
    (short : ∀ line ∈ codeOf machine.dialect number [lineOf motion later],
      byteCount line < lineLimit) :
    ∃ line next,
      readLines machine [] state count (codeOf machine.dialect number [lineOf motion later]) =
        .ok next ∧ LinesRead machine line state next ∧
      (∀ letter ∈ ['X', 'Y', 'Z'], ∀ text, ⟨String.singleton letter, text⟩ ∈ motion →
        wordValue letter line = floatOf text.toList) ∧
      ∀ letter ∈ ['X', 'Y', 'Z'], String.singleton letter ∉ motion.map (·.letter) →
        wordValue letter line = none := by
  rw [codeOf_singleton] at short ⊢
  obtain ⟨first, others, pieces, printed⟩ :=
    exists_printed marked shape.spelled shape.once later number
  have quiet := shape.others_quiet printed
  rw [pieces] at short ⊢
  obtain ⟨next, read, lines⟩ := readLines_spec vertical short
    (printed.relative shape.mode (shape.silent (by decide)))
    (fun other member => quiet_cleanLine vertical marked (quiet other member)) state count
  refine ⟨cleanLine machine.dialect first, next, read, lines, ?_, ?_⟩
  · intro letter member text listed
    obtain ⟨own, numeral, spells⟩ := shape.spelled _ listed
    have same : letter = own := singleton_inj spells.letter
    subst same
    have said := printed.wordValue listed spells (shape.silent (List.mem_cons_of_mem _ member))
    exact said
  · intro letter member absent
    have tracked : letter ∈ trackedLetters := List.mem_cons_of_mem _ member
    obtain ⟨upper, named⟩ := upper_of_tracked tracked
    exact wordValue_of_not_mem
      (printed.unspoken upper named absent (shape.silent tracked)).1

/-- A machine with three axes whose comments start unlike any number or word of a motion, and whose
code for a change of speed has no letter that matters to the motion. -/
structure Legible (machine : Machine) : Prop where
  vertical : machine.kinematics = .vertical
  marked : CommentsApart machine.dialect
  silent : ∀ c ∈ machine.dialect.speedChange.toList, capital c ∉ trackedLetters

/-- One move: whatever it writes, reading that brings the reader to the rounded place. -/
theorem writeMove_arrives (legible : Legible machine)
    (dialect : program.dialect = machine.dialect) (finite : values.position.isFinite = true)
    {place : Vec} (rounded : machine.dialect.rounded values.position = some place)
    (tool : Option Tool) (point : Point) :
    ∃ entries, (machine.writeMove program tool point values).entries.toList =
        program.entries.toList ++ entries ∧
      ∀ state, InStep program.registers state → ReadsTo machine state entries fun next =>
        Arrives state next (machine.writeMove program tool point values).registers place := by
  obtain ⟨vertical, marked, silent⟩ := legible
  have spec := moveWords_spec machine program tool point values
  obtain ⟨change, chosen, written⟩ := writeMove_eq machine program tool point values
  obtain ⟨settings, words, stated⟩ := moveWords_append machine program tool point values
  have axes : ∀ axis ∈ machine.coordinates values,
      (machine.moveWords program tool point values).1.registers.get? axis.1 =
        some (machine.dialect.format axis.2) := by
    rw [← dialect]
    exact spec.axes
  rw [written]
  dsimp only
  split
  · next nothing =>
      have still : (machine.motionWords program (effectiveFeed tool point == 0) values).2 = [] := by
        rw [List.isEmpty_iff, words] at nothing
        exact (List.append_eq_nil_iff.mp nothing).1
      refine ⟨[], by rw [spec.entries, List.append_nil], fun state inStep number count _ => ?_⟩
      have told := @told_moveWords machine program values vertical finite tool point
        (fun _ => none) (by rw [still]; simp) (fun _ _ _ => rfl)
      refine ⟨state, rfl, told.arrives vertical inStep finite rounded axes ?_ ?_⟩
      · exact fun _ _ => rfl
      · exact ⟨[], rfl, by simp, by simp⟩
  · refine ⟨[.move (machine.moveWords program tool point values).2 change], ?_, ?_⟩
    · rw [Program.entries_write, spec.entries]
    · intro state inStep number count short
      have later : ∀ text ∈ laterTexts settings change, ∀ c ∈ text, capital c ∉ trackedLetters := by
        apply quiet_laterTexts stated
        rcases chosen with rfl | rfl
        · simp
        · exact silent
      have line : [Entry.move (machine.moveWords program tool point values).2 change].flatMap
          (Entry.lines machine.dialect) =
            [lineOf (machine.motionWords program (effectiveFeed tool point == 0) values).2
              (laterTexts settings change)] := by
        rw [List.flatMap_singleton, words, lines_move]
      rw [line] at short ⊢
      obtain ⟨first, next, read, ⟨lookup, points⟩, given, absent⟩ := readLines_move vertical marked
        (wordLine_motionWords vertical finite _ later) number count state short
      rw [axisLetters_vertical vertical] at lookup points
      have told := told_moveWords vertical finite tool point given absent
      exact ⟨next, read, told.arrives vertical inStep finite rounded axes lookup points⟩

theorem writePoint_of_bare (program : Program) (tool : Option Tool) {point : Point}
    (values : AxisValues) (before : point.preCode = "") (after : point.postCode = "") :
    machine.writePoint program tool point values =
      machine.writeMove (noteMessages program point) tool point values := by
  rw [writePoint, before, after]
  rfl

/-- Points without codes are written as moves. Warnings precede each move; they touch neither the
entries nor what is in force. -/
theorem writePoints_cons (machine : Machine) (tool : Option Tool) (warned : Bool) (program : Program)
    {point : Point} (values : AxisValues) (before : point.preCode = "") (after : point.postCode = "")
    (rest : List (Point × AxisValues)) :
    ∃ noted later, (noted.entries = program.entries ∧ noted.dialect = program.dialect ∧
        noted.registers = program.registers) ∧
      machine.writePoints tool warned program ((point, values) :: rest) =
        machine.writePoints tool later (machine.writeMove noted tool point values) rest := by
  rw [writePoints, writePoint_of_bare _ _ _ before after]
  generalize (!machine.isFiveAxis && !warned && !point.direction.isVertical) = slanted
  refine ⟨_, _, ?_, rfl⟩
  cases slanted <;> exact ⟨rfl, rfl, rfl⟩

theorem Arrives.echoes {next : ReadState} {registers : Registers} {place : Vec}
    (arrives : Arrives state next registers place) {last : ReadState} {places : List Vec}
    {heard : List Point} (points : last.points = heard.reverse ++ next.points)
    (later : Echoes next.reached places (heard.map (·.position))) :
    ∃ all : List Point, last.points = all.reverse ++ state.points ∧
      Echoes state.reached (place :: places) (all.map (·.position)) := by
  obtain ⟨made, joined, placed, still⟩ := arrives.points
  rw [arrives.reached] at later
  refine ⟨made.reverse ++ heard, by rw [points, joined]; simp, ?_⟩
  cases made with
  | nil =>
      obtain ⟨old, before, equal⟩ := still rfl
      rw [before]
      exact .missed equal later
  | cons point made =>
      have repeated : ((point :: made).reverse).map (·.position) =
          List.replicate (made.length + 1) place := by
        apply List.eq_replicate_iff.mpr
        refine ⟨by simp, fun other member => ?_⟩
        obtain ⟨source, inside, rfl⟩ := List.mem_map.mp member
        exact placed source (List.mem_reverse.mp inside)
      rw [List.map_append, repeated]
      exact .repeated made.length later

/-- Many moves: the reader hears the rounded places of all points. -/
theorem writePoints_echo (legible : Legible machine) (tool : Option Tool)
    {points : List (Point × AxisValues)} {places : List Vec}
    (bare : ∀ entry ∈ points, entry.1.preCode = "" ∧ entry.1.postCode = "")
    (finite : ∀ entry ∈ points, entry.2.position.isFinite = true)
    (rounded : points.map (fun entry => machine.dialect.rounded entry.2.position) =
      places.map some) (warned : Bool) {program : Program}
    (dialect : program.dialect = machine.dialect) :
    ∃ entries, (machine.writePoints tool warned program points).entries.toList =
        program.entries.toList ++ entries ∧
      ∀ state, InStep program.registers state → ReadsTo machine state entries fun next =>
        ∃ heard : List Point, next.points = heard.reverse ++ state.points ∧
          Echoes state.reached places (heard.map (·.position)) := by
  induction points generalizing places warned program with
  | nil =>
      cases places with
      | cons place places => cases rounded
      | nil =>
          refine ⟨[], (List.append_nil _).symm, fun state _ number count _ => ?_⟩
          exact ⟨state, rfl, [], rfl, .done⟩
  | cons entry points ih =>
      obtain ⟨point, values⟩ := entry
      cases places with
      | nil => cases rounded
      | cons place places =>
          obtain ⟨here, later⟩ := List.cons.inj rounded
          obtain ⟨before, after⟩ := bare _ List.mem_cons_self
          obtain ⟨noted, further, ⟨sameEntries, sameDialect, sameRegisters⟩, shape⟩ :=
            writePoints_cons machine tool warned program values before after points
          obtain ⟨front, written, arrives⟩ := writeMove_arrives legible
            (sameDialect.trans dialect) (finite _ List.mem_cons_self) here tool point
          obtain ⟨back, rest, echo⟩ := ih
            (fun other member => bare other (List.mem_cons_of_mem _ member))
            (fun other member => finite other (List.mem_cons_of_mem _ member)) later
            further (by rw [dialect_writeMove, sameDialect, dialect] :
              (machine.writeMove noted tool point values).dialect = machine.dialect)
          rw [shape]
          refine ⟨front ++ back, ?_, fun state inStep => ?_⟩
          · rw [rest, written, sameEntries, List.append_assoc]
          · rw [← sameRegisters] at inStep
            -- The reader in step with the registers carries the induction over to the later points.
            refine (arrives state inStep).append fun next arrived number count short => ?_
            obtain ⟨last, read, heard, points, echoes⟩ := echo next arrived.inStep number count short
            exact ⟨last, read, arrived.echoes points echoes⟩

theorem axes_vertical (vertical : machine.kinematics = .vertical) (rotary : Rotary.Setting)
    (points : List Point) :
    points.zip (machine.solveAxes rotary points) =
      points.map fun point => (point, ⟨point.position, .home⟩) := by
  have forward : ∀ point, machine.forward point .home = ⟨point.position, .home⟩ := by
    intro point
    rw [Machine.forward, vertical]
  rw [solveAxes, vertical]
  dsimp only
  rw [← List.map_prod_left_eq_zip]
  exact List.map_congr_left fun point _ => by rw [forward]

theorem codeLines_text {program : Program} (dialect : program.dialect = machine.dialect) :
    codeLines program.text.toList =
      codeOf machine.dialect 0 (program.entries.toList.flatMap (Entry.lines machine.dialect)) := by
  rw [Program.toList_text, codeLines_closed, dialect]
  rfl

theorem read_eq_ok {code : String} {tools : List Tool} {path : Path} :
    machine.read code tools = .ok path ↔
      ∃ state, readLines machine tools { tool := tools.head? } 1 (codeLines code.toList) =
          .ok state ∧
        path = { name := "read", tool := state.tool, points := state.points.reverse } := by
  rw [read, bind_eq_ok]
  constructor
  · rintro ⟨state, read, same⟩
    cases same
    exact ⟨state, read, rfl⟩
  · rintro ⟨state, read, rfl⟩
    exact ⟨state, read, rfl⟩

theorem inStep_empty (dialect : Dialect) (ignore : List String) (tool : Option Tool) :
    InStep (Program.empty dialect ignore).registers { tool := tool } := fun _ _ => rfl

private theorem exists_rounded (dialect : Dialect) {points : List Point}
    (finite : ∀ point ∈ points, point.position.isFinite = true) : ∃ places : List Vec,
      points.map (fun point => dialect.rounded point.position) = places.map some ∧
      ∀ place ∈ places, (place == place) = true := by
  induction points with
  | nil => exact ⟨[], rfl, by simp⟩
  | cons point points ih =>
      obtain ⟨place, rounded, self⟩ :=
        dialect.rounded_of_isFinite (finite point List.mem_cons_self)
      obtain ⟨places, later, selves⟩ :=
        ih fun other member => finite other (List.mem_cons_of_mem _ member)
      refine ⟨place :: places, by rw [List.map_cons, rounded, later, List.map_cons], ?_⟩
      intro other member
      rcases List.mem_cons.mp member with rfl | rest
      · exact self
      · exact selves other rest

end Moves

/-- Writing points and reading the code back. The places of the points after rounding exist; the
code can be read exactly when none of its lines reaches the limit; and what is read are those
places up to immediate repetitions. -/
theorem read_writeMoves {machine : Machine} (legible : Legible machine) (ignore : List String)
    (tool : Option Tool) {points : List Point}
    (finite : ∀ point ∈ points, point.position.isFinite = true)
    (bare : ∀ point ∈ points, point.preCode = "" ∧ point.postCode = "") :
    let code := (machine.writeMoves (Program.empty machine.dialect ignore) tool points).text
    ∃ places : List Vec,
      points.map (fun point => machine.dialect.rounded point.position) = places.map some ∧
      ((∃ path, machine.read code [] = .ok path) ↔
        ∀ line ∈ codeLines code.toList, byteCount line < lineLimit) ∧
      ∀ path, machine.read code [] = .ok path →
        (path.points.map (·.position)).eraseReps = places.eraseReps := by
  dsimp only
  obtain ⟨places, rounded, selves⟩ := exists_rounded machine.dialect finite
  refine ⟨places, rounded, ?_⟩
  have dialect : (machine.writeMoves (Program.empty machine.dialect ignore) tool points).dialect =
      machine.dialect := by
    rw [writeMoves_eq, dialect_performAll]
    rfl
  have moves : machine.writeMoves (Program.empty machine.dialect ignore) tool points =
      machine.writePoints tool false (Program.empty machine.dialect ignore)
        (points.map fun point => (point, ⟨point.position, .home⟩)) := by
    rw [writeMoves, axes_vertical legible.vertical]
  obtain ⟨entries, written, echo⟩ : ∃ entries,
      (machine.writeMoves (Program.empty machine.dialect ignore) tool points).entries.toList =
        entries ∧ ReadsTo machine { tool := none } entries fun next =>
          ∃ heard : List Point, next.points = heard.reverse ++ [] ∧
            Echoes none places (heard.map (·.position)) := by
    have roundedMoves : (points.map fun point =>
        (point, (⟨point.position, .home⟩ : AxisValues))).map
          (fun entry => machine.dialect.rounded entry.2.position) = places.map some := by
      rw [List.map_map]
      exact rounded
    obtain ⟨entries, written, echo⟩ := writePoints_echo legible tool (by simpa using bare)
      (by simpa using finite) roundedMoves false
      (rfl : (Program.empty machine.dialect ignore).dialect = machine.dialect)
    rw [moves]
    exact ⟨entries, written, echo _ (inStep_empty machine.dialect ignore none)⟩
  have lines := codeLines_text dialect
  rw [written] at lines
  have reads := echo 0 1
  rw [← lines] at reads
  refine ⟨⟨?_, ?_⟩, ?_⟩
  · rintro ⟨path, done⟩
    obtain ⟨state, read, _⟩ := read_eq_ok.mp done
    exact short_of_readLines read
  · intro short
    obtain ⟨next, read, _⟩ := reads short
    exact ⟨_, read_eq_ok.mpr ⟨next, read, rfl⟩⟩
  · intro path done
    obtain ⟨state, read, rfl⟩ := read_eq_ok.mp done
    obtain ⟨next, again, heard, points, echoes⟩ := reads (short_of_readLines read)
    -- The state read is the one that the echo is about.
    cases read.symm.trans again
    rw [points, List.append_nil, List.reverse_reverse]
    exact echoes.eraseReps_eq selves

/-- A mill that numbers its lines and has a comment in its code for a change of speed. -/
def numberedMill : Machine where
  dialect :=
    { commentStart := "(", commentEnd := ")", speedChange := "M3 (up)", numberLines := true,
      lineStep := 10, precision := 3 }
  kinematics := .vertical

private theorem legible_numberedMill : numberedMill.Legible where
  vertical := rfl
  marked := ⟨'(', [], by decide, by decide⟩
  silent := List.all_iff_forall_prop.mp (by decide)

/-- A rapid move, a cut that starts where it ended, and a cut to a place that is rounded. -/
def shortTrip : List Point :=
  [{ position := ⟨1, 2, 3⟩, direction := Vec.zAxis, feed := 0, speed := 900 },
    { position := ⟨1, 2, 3⟩, direction := Vec.zAxis, feed := 150 },
    { position := ⟨1.0004, -0.0001, -2.5⟩, direction := Vec.zAxis, feed := 150 }]

theorem read_writeMoves_shortTrip :
    (∀ point ∈ shortTrip, point.position.isFinite = true) ∧
      ∃ (path : Path) (places : List Vec), numberedMill.read
          (numberedMill.writeMoves (Program.empty numberedMill.dialect []) none shortTrip).text [] =
            .ok path ∧
        shortTrip.map (fun point => numberedMill.dialect.rounded point.position) =
          places.map some ∧
        (path.points.map (·.position)).eraseReps = places.eraseReps := by
  have finite : ∀ point ∈ shortTrip, point.position.isFinite = true := by decide +kernel
  obtain ⟨places, rounded, succeeds, same⟩ :=
    read_writeMoves legible_numberedMill [] none finite (by decide)
  obtain ⟨path, done⟩ := succeeds.mpr (by decide +kernel)
  exact ⟨finite, path, places, done, rounded, same path done⟩

/-! ## Lines that are too long -/

/-- A mill with some code for a change of speed. -/
def millWith (change : String) : Machine where
  dialect := { commentStart := "(", commentEnd := ")", speedChange := change, precision := 3 }
  kinematics := .vertical

/-- A rapid move that states a speed. -/
def spinUp : Point := { position := ⟨1, 2, 3⟩, direction := Vec.zAxis, feed := 0, speed := 900 }

private theorem format_millWith (change : String) (x : Float) :
    (millWith change).dialect.format x = (millWith "").dialect.format x := rfl

private theorem entries_spinUp (change : String) :
    ((millWith change).writeMoves (Program.empty (millWith change).dialect []) none
      [spinUp]).entries.toList =
        [.move [⟨"G", "00"⟩, ⟨"X", "1"⟩, ⟨"Y", "2"⟩, ⟨"Z", "3"⟩, ⟨"S", "900"⟩] change] := by
  have feed : effectiveFeed none spinUp = 0 := by decide +kernel
  have speed : effectiveSpeed none spinUp = 900 := by decide +kernel
  have x : (millWith "").dialect.format 1 = "1" := by decide +kernel
  have y : (millWith "").dialect.format 2 = "2" := by decide +kernel
  have z : (millWith "").dialect.format 3 = "3" := by decide +kernel
  have s : (millWith "").dialect.format 900 = "900" := by decide +kernel
  have zero : ((0 : Float) == 0) = true := by decide +kernel
  have idle : ¬(0 : Float) > 0 := by decide +kernel
  have spins : (900 : Float) >= 0 := by decide +kernel
  have vertical : (millWith change).kinematics = .vertical := rfl
  have place : spinUp.position = ⟨1, 2, 3⟩ := rfl
  have fresh : ∀ program : Program, program.registers = [] → program.entries = #[] →
      program.dialect = (millWith change).dialect →
      ((millWith change).writeMove program none spinUp ⟨spinUp.position, .home⟩).entries.toList =
        [.move [⟨"G", "00"⟩, ⟨"X", "1"⟩, ⟨"Y", "2"⟩, ⟨"Z", "3"⟩, ⟨"S", "900"⟩] change] := by
    intro program registers entries dialect
    simp only [writeMove, motionWords, feed, speed, coordinates, noteRotary, vertical, place, zero,
      idle, spins, if_true, if_false, List.foldl_cons, List.foldl_nil]
    simp [Program.addWord, Program.word, Registers.get?, Registers.set, Registers.forget,
      List.lookup_cons, registers, entries, Program.write, Program.format, dialect,
      format_millWith, x, y, z, s]
    rfl
  rw [writeMoves, axes_vertical rfl]
  simp only [List.map_cons, List.map_nil, writePoints]
  rw [writePoint_of_bare _ _ _ rfl rfl]
  apply fresh
  all_goals
    split <;> rfl

private theorem length_le_byteCount (text : List Char) : text.length ≤ byteCount text := by
  suffices general : ∀ count, count + text.length ≤
      text.foldl (fun count c => count + c.utf8Size) count by simpa [byteCount] using general 0
  induction text with
  | nil => intro count; exact Nat.le_refl _
  | cons c text ih =>
      intro count
      have positive := Char.utf8Size_pos c
      have later := ih (count + c.utf8Size)
      rw [List.foldl_cons, List.length_cons]
      omega

/-- The line of the move: words without a line end, and then the code for the change of speed. -/
theorem lines_spinUp {change : String} (stated : change.toList ≠ []) :
    ∃ lead rest, Entry.lines (millWith change).dialect
        (.move [⟨"G", "00"⟩, ⟨"X", "1"⟩, ⟨"Y", "2"⟩, ⟨"Z", "3"⟩, ⟨"S", "900"⟩] change) =
          [(lead ++ change.toList) ++ rest] ∧ '\n' ∉ lead := by
  have present : change.isEmpty = false := by
    rw [Bool.eq_false_iff]
    intro empty
    have blank : change = "" := by simpa using empty
    rw [blank] at stated
    exact stated rfl
  obtain ⟨lead, rest, line, leading, _, _⟩ := intercalate_blank_append
    (["G00", "X1", "Y2", "Z3", "S900"].map String.toList) change.toList []
  refine ⟨lead, rest, ?_, ?_⟩
  · rw [List.append_assoc, ← line]
    simp only [Entry.lines, present, String.toList_intercalate, Bool.false_eq_true, if_false]
    rfl
  · intro early
    rcases leading '\n' early with blank | ⟨text, listed, broken⟩
    · exact absurd blank (by decide)
    · have unbroken : ∀ text ∈ ["G00", "X1", "Y2", "Z3", "S900"].map String.toList, '\n' ∉ text :=
        List.all_iff_forall_prop.mp (by decide)
      exact unbroken text listed broken

/-- A code for a change of speed that fills a line makes the text one that cannot be read. -/
theorem read_spinUp {letters : Nat} (long : lineLimit ≤ letters) {change : String}
    (spelled : change.toList = List.replicate letters 'M') :
    (millWith change).read
      ((millWith change).writeMoves (Program.empty (millWith change).dialect []) none
        [spinUp]).text [] = .error .lineTooLong := by
  have dialect : ((millWith change).writeMoves (Program.empty (millWith change).dialect []) none
      [spinUp]).dialect = (millWith change).dialect := by
    rw [writeMoves_eq, dialect_performAll]
    rfl
  have positive : letters ≠ 0 := Nat.ne_of_gt (Nat.lt_of_lt_of_le (by decide) long)
  have stated : change.toList ≠ [] := by simpa [spelled] using positive
  obtain ⟨lead, rest, lines, unbrokenLead⟩ := lines_spinUp stated
  have kept : ∀ c ∈ (lead ++ change.toList).getLast?, c ≠ ' ' ∧ c ≠ '\t' := by
    intro c last
    rw [List.getLast?_append, spelled, List.getLast?_replicate, if_neg positive] at last
    cases last
    decide
  obtain ⟨numbers, tail, printed, _, plain⟩ :=
    Program.printLine_append (millWith change).dialect 0 kept rest
  have unbroken : '\n' ∉ numbers ++ (lead ++ change.toList) := by
    intro member
    rcases List.mem_append.mp member with number | inside
    · exact absurd (plain '\n' number).1 (by decide)
    · rcases List.mem_append.mp inside with early | letters
      · exact unbrokenLead early
      · rw [spelled] at letters
        exact absurd (List.eq_of_mem_replicate letters) (by decide)
  obtain ⟨first, others, pieces, _, _⟩ := splitAt_append unbroken tail
  have code : codeOf (millWith change).dialect 0 [(lead ++ change.toList) ++ rest] =
      (numbers ++ (lead ++ change.toList) ++ first) :: others := by
    rw [codeOf, Program.printed, printed, ← List.append_assoc, Program.printed,
      List.flatMap_singleton, pieces]
  have tooLong : lineLimit ≤ byteCount (numbers ++ (lead ++ change.toList) ++ first) := by
    apply Nat.le_trans long
    apply Nat.le_trans _ (length_le_byteCount _)
    simp only [List.length_append, spelled, List.length_replicate]
    omega
  rw [read, codeLines_text dialect, entries_spinUp, List.flatMap_singleton, lines, code,
    readLines_cons, if_pos tooLong]
  rfl

/-- A mill whose code for a change of speed fills a line by itself cannot read what it writes. -/
theorem read_writeMoves_overlong :
    let mill := millWith (String.ofList (List.replicate lineLimit 'M'))
    mill.Legible ∧
      (∀ c ∈ mill.dialect.speedChange.toList, capital c ∉ ['G', 'T', 'X', 'Y', 'Z', 'F']) ∧
      (spinUp.position.isFinite ∧ spinUp.feed.isFinite ∧ spinUp.speed.isFinite) ∧
      (spinUp.preCode = "" ∧ spinUp.postCode = "") ∧
      mill.read (mill.writeMoves (Program.empty mill.dialect []) none [spinUp]).text [] =
        .error .lineTooLong := by
  have letters : ∀ n c, c ∈ (String.ofList (List.replicate n 'M')).toList → c = 'M' := by
    intro n c member
    rw [String.toList_ofList] at member
    exact List.eq_of_mem_replicate member
  refine ⟨⟨rfl, ⟨'(', [], by decide, by decide⟩, ?_⟩, ?_, by decide +kernel, by decide,
    read_spinUp (Nat.le_refl lineLimit) String.toList_ofList⟩
  · intro c member
    rw [letters lineLimit c member]
    decide
  · intro c member
    rw [letters lineLimit c member]
    decide

end Machine

end Kerf
