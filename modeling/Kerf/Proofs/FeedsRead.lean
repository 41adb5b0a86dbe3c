import Kerf.Dialect.Registry
import Kerf.Proofs.HeardLines
import Kerf.Proofs.NearestNumerals

/-!
# Feeds read back

A reader of the code that moves are written as follows the words in force: it has the mode and the
feed of the writer whenever an axis moves. Main statement: a line that moves an axis is read as a
point with the feed that is written for it, so that rapid moves stay rapid moves, and cuts stay cuts
unless their feed is rounded away.
-/

set_option autoImplicit false

namespace Kerf

open Kerf.Program (Word Entry)
open Kerf.Text
open Kerf.Yaml (floatOf)
open Kerf.Doubles (Fits value value_zero value_eq_iff fits_iff_isFinite)

namespace Machine

/-! ## Following the words in force -/

/-- A reader that follows a writer: it has its axes where the words in force say, and moves with the
mode and the feed that are in force. -/
structure Follows (dialect : Dialect) (registers : Registers) (state : ReadState) : Prop where
  inStep : InStep registers state
  numbers : ∀ letter ∈ ['X', 'Y', 'Z'], ∀ text,
    registers.get? (String.singleton letter) = some text →
      ∃ x : Float, x.isFinite = true ∧ text = dialect.format x
  mode : ∀ rapid, registers.get? "G" = some (modeWord rapid).value → state.rapid = rapid
  feed : ∀ text, registers.get? "F" = some text →
    ∃ number, floatOf text.toList = some number ∧ (number == state.feed) = true

private theorem follows_empty (dialect : Dialect) (ignore : List String) (tool : Option Tool) :
    Follows dialect (Program.empty dialect ignore).registers { tool := tool } where
  inStep := inStep_empty dialect ignore tool
  numbers := fun _ _ _ held => by cases held
  mode := fun _ held => by cases held
  feed := fun _ held => by cases held

/-- The feed after a line compares equal to the number that the line states. -/
theorem beq_heardFeed {line : List Char} {number : Float}
    (stated : wordValue 'F' line = some number) (self : (number == number) = true) (feed : Float) :
    (number == heardFeed line feed) = true := by
  unfold heardFeed
  rw [stated]
  dsimp only
  split
  · exact self
  · next same => simpa [bne] using same

/-- A modal line that is heard keeps the reader following. -/
theorem Follows.of_modal {dialect : Dialect} {before after : Registers} {state next : ReadState}
    {words : List Word} (follows : Follows dialect before state) (modal : Modal before words after)
    (inStep : InStep after next)
    (numbers : ∀ letter ∈ ['X', 'Y', 'Z'], ∀ text,
      after.get? (String.singleton letter) = some text →
        ∃ x : Float, x.isFinite = true ∧ text = dialect.format x)
    (mode : ∀ rapid, modeWord rapid ∈ words → next.rapid = rapid)
    (modeless : "G" ∉ words.map (·.letter) → next.rapid = state.rapid)
    (feed : ∀ text, ⟨"F", text⟩ ∈ words →
      ∃ number, floatOf text.toList = some number ∧ (number == next.feed) = true)
    (feedless : "F" ∉ words.map (·.letter) → next.feed = state.feed) :
    Follows dialect after next := by
  refine ⟨inStep, numbers, ?_, ?_⟩
  · intro rapid inForce
    rcases modal.inForce _ _ inForce with written | ⟨absent, held⟩
    · exact mode rapid written
    · rw [modeless absent]
      exact follows.mode rapid held
  · intro text inForce
    rcases modal.inForce _ _ inForce with written | ⟨absent, held⟩
    · exact feed text written
    · rw [feedless absent]
      exact follows.feed text held

/-- A machine with three axes whose dialect can be used, with a code for a change of speed that is
short and has no letter of the motion or the feed. -/
structure FeedLegible (machine : Machine) : Prop extends Legible machine where
  unfed : ∀ c ∈ machine.dialect.speedChange.toList, capital c ≠ 'F'
  placed : machine.dialect.Placed
  brief : byteCount machine.dialect.speedChange.toList + 4096 ≤ lineLimit

/-- What is heard of a feed: nothing of a rapid move, and otherwise the number that is written. That
is positive when the feed is more than half of the smallest unit, and zero when it is not. -/
structure FeedHeard (dialect : Dialect) (feed heard : Float) : Prop where
  rapid : (feed == 0) = true → heard = 0
  number : feed > 0 →
    ∃ number, floatOf (dialect.format feed).toList = some number ∧ (number == heard) = true
  cut : feed > 0 → 1 / 2 < value feed * 10 ^ dialect.precision.toNat → heard > 0
  lost : feed > 0 → value feed * 10 ^ dialect.precision.toNat ≤ 1 / 2 → (heard == 0) = true

theorem fits_of_beq {x y : Float} (fits : Fits 971 x) (same : (x == y) = true) : Fits 971 y := by
  unfold Fits at fits ⊢
  rcases Doubles.beq_iff.mp same with ⟨_, _, _, zero⟩ | ⟨equal, _⟩
  · rw [zero]
    trivial
  · rw [← equal]
    exact fits

section Hearing

variable {dialect : Dialect} {feed heard number : Float}

theorem value_pos_of_gt (finite : feed.isFinite = true) (positive : feed > 0) : 0 < value feed := by
  have less := (Doubles.lt_iff Decimal.fits_zero (fits_iff_isFinite.mpr finite)).mp positive
  rwa [value_zero] at less

/-- The number that is written for a positive feed is zero or positive with the count of units. -/
theorem feedHeard_of_number (placed : dialect.Placed) (finite : feed.isFinite = true)
    (positive : feed > 0) (read : floatOf (dialect.format feed).toList = some number)
    (same : (number == heard) = true) : FeedHeard dialect feed heard := by
  have above := value_pos_of_gt finite positive
  obtain ⟨count, own, written⟩ := exists_written placed finite
  rw [written.read] at read
  cases read
  have fits := fits_of_beq written.fits same
  have equal := (value_eq_iff written.fits fits).mp same
  refine ⟨?_, fun _ => ⟨_, written.read, same⟩, ?_, ?_⟩
  · intro rapid
    have zero := (value_eq_iff (fits_iff_isFinite.mpr finite) Decimal.fits_zero).mp rapid
    rw [value_zero] at zero
    exact absurd zero above.ne'
  · intro _ large
    rw [gt_iff_lt, Doubles.lt_iff Decimal.fits_zero fits, value_zero, ← equal]
    exact (written.pos_iff placed).mpr large
  · intro _ small
    rw [value_eq_iff fits Decimal.fits_zero, value_zero, ← equal]
    have below := not_lt.mp (mt (written.pos_iff placed).mp (not_lt.mpr small))
    exact le_antisymm below (written.nonneg above.le)

end Hearing

section Moves

variable {machine : Machine} {program : Program} {tool : Option Tool} {point : Point}
  {values : AxisValues}

/-- Everything that a move writes is finite. -/
structure Measured (tool : Option Tool) (point : Point) (values : AxisValues) : Prop where
  position : values.position.isFinite = true
  feed : (effectiveFeed tool point).isFinite = true
  speed : (effectiveSpeed tool point).isFinite = true

/-- The letters that numbers are written behind. -/
def numberLetters : List Char := ['X', 'Y', 'Z', 'F', 'S']

/-- A word of a move is its mode or a letter with a finite number. -/
theorem mem_moveWords (vertical : machine.kinematics = .vertical)
    (measured : Measured tool point values) {word : Word}
    (member : word ∈ (machine.moveWords program tool point values).2) :
    word = modeWord (effectiveFeed tool point == 0) ∨
      ∃ letter ∈ numberLetters, ∃ x : Float, x.isFinite = true ∧
        word = ⟨String.singleton letter, program.format x⟩ := by
  obtain ⟨settings, words, stated⟩ := moveWords_append machine program tool point values
  rw [words] at member
  rcases List.mem_append.mp member with moved | setting
  · have motion := motionWords_spec machine program (effectiveFeed tool point == 0) values
    rcases motion.stated word moved with mode | ⟨axis, listed, same⟩
    · exact .inl mode
    · obtain ⟨letter, among, named⟩ := mem_coordinates_vertical vertical listed
      have part : ['X', 'Y', 'Z'] ⊆ numberLetters := by decide
      refine .inr ⟨letter, part among, axis.2,
        finite_of_mem_coordinates vertical measured.position listed, ?_⟩
      rw [same, named]
  · rcases stated word setting with same | same
    · exact .inr ⟨'F', by decide, _, measured.feed, same⟩
    · exact .inr ⟨'S', by decide, _, measured.speed, same⟩

private theorem exists_of_mem_moveWords (vertical : machine.kinematics = .vertical)
    (measured : Measured tool point values) {letter : Char} (listed : letter ∈ numberLetters)
    {text : String}
    (member : ⟨String.singleton letter, text⟩ ∈ (machine.moveWords program tool point values).2) :
    ∃ x : Float, x.isFinite = true ∧ text = program.dialect.format x := by
  have different : ∀ letter ∈ numberLetters, String.singleton letter ≠ "G" :=
    List.all_iff_forall_prop.mp (by decide)
  rcases mem_moveWords vertical measured member with same | ⟨_, _, x, finite, same⟩
  · exact absurd (congrArg Word.letter same) (different letter listed)
  · exact ⟨x, finite, congrArg Word.value same⟩

theorem eq_of_mem_laterTexts {change : String}
    (chosen : change = "" ∨ change = machine.dialect.speedChange) {text : List Char}
    (member : text ∈ laterTexts [] change) : text = machine.dialect.speedChange.toList := by
  unfold laterTexts at member
  rw [List.map_nil, List.nil_append] at member
  split at member
  · cases member
  · next present =>
      rcases chosen with rfl | rfl
      · exact absurd rfl present
      · exact List.mem_singleton.mp member

theorem wordLine_moveWords (legible : FeedLegible machine) (measured : Measured tool point values)
    (program : Program) {change : String}
    (chosen : change = "" ∨ change = machine.dialect.speedChange) :
    WordLine ('F' :: trackedLetters) (machine.moveWords program tool point values).2
      (laterTexts [] change) := by
  have capitals : ∀ letter ∈ numberLetters, letter.isUpper = true ∧ letter ≠ 'N' ∧
      String.singleton letter ≠ "G" := List.all_iff_forall_prop.mp (by decide)
  refine ⟨?_, ?_, (moveWords_spec machine program tool point values).modal.once, ?_⟩
  · intro word member
    rcases mem_moveWords legible.vertical measured member with rfl | ⟨letter, listed, x, finite, rfl⟩
    · exact ⟨'G', _, spelled_modeWord _⟩
    · obtain ⟨upper, named, _⟩ := capitals letter listed
      obtain ⟨numeral, _, plain, text, _⟩ := program.dialect.floatOf_format finite
      exact ⟨letter, numeral, upper, named, plain, rfl, text⟩
  · intro word member letter
    rcases mem_moveWords legible.vertical measured member with rfl | ⟨other, listed, x, _, rfl⟩
    · exact ⟨_, rfl⟩
    · exact absurd letter (capitals other listed).2.2
  · intro text listed c inside
    rw [eq_of_mem_laterTexts chosen listed] at inside
    rw [List.mem_cons, not_or]
    exact ⟨legible.unfed c inside, legible.silent c inside⟩

private theorem length_text_moveWords (legible : FeedLegible machine)
    (measured : Measured tool point values) (dialect : program.dialect = machine.dialect)
    {word : Word} (member : word ∈ (machine.moveWords program tool point values).2) :
    word.text.toList.length ≤ 327 := by
  rcases mem_moveWords legible.vertical measured member with rfl | ⟨letter, _, x, finite, rfl⟩
  · cases effectiveFeed tool point == 0 <;> decide
  · obtain ⟨_, _, written⟩ := exists_written legible.placed finite
    have short := written.short
    have most := legible.placed.most
    rw [← dialect] at short most
    change (String.singleton letter ++ program.dialect.format x).toList.length ≤ 327
    rw [String.toList_append, List.length_append, String.toList_singleton, List.length_singleton]
    omega

/-- A move has at most six words, all of them short. -/
theorem brief_moveWords (legible : FeedLegible machine) (measured : Measured tool point values)
    (dialect : program.dialect = machine.dialect) {change : String}
    (chosen : change = "" ∨ change = machine.dialect.speedChange) :
    Brief machine.dialect [.move (machine.moveWords program tool point values).2 change] := by
  have shape := wordLine_moveWords legible measured program chosen
  apply brief_move
  · have part : (machine.moveWords program tool point values).2.map (·.letter) ⊆
        "G" :: numberLetters.map String.singleton := by
      intro letter member
      obtain ⟨word, listed, rfl⟩ := List.mem_map.mp member
      rcases mem_moveWords legible.vertical measured listed with rfl | ⟨other, named, _, _, rfl⟩
      · exact List.mem_cons_self
      · exact List.mem_cons_of_mem _ (List.mem_map_of_mem named)
    have few := (List.subperm_of_subset shape.once part).length_le
    rwa [List.length_map] at few
  · intro word member
    obtain ⟨_, _, spells⟩ := shape.spelled word member
    rw [byteCount_of_plain fun c inside => spells.isPlainChar inside]
    exact length_text_moveWords legible measured dialect member
  · rcases chosen with rfl | rfl
    · exact Nat.le_trans (Nat.le_add_left _ _) legible.brief
    · exact legible.brief

/-- A reader that follows is told of a new word by a number that differs. -/
theorem Follows.new_axis {dialect : Dialect} {registers : Registers} {state : ReadState}
    (follows : Follows dialect registers state) (placed : dialect.Placed) {letter : Char}
    (listed : letter ∈ ['X', 'Y', 'Z']) {x : Float} (finite : x.isFinite = true)
    (fresh : registers.get? (String.singleton letter) ≠ some (dialect.format x)) {number : Float}
    (read : floatOf (dialect.format x).toList = some number) :
    ¬ ∃ old, state.axes.lookup letter = some old ∧ (old == number) = true := by
  rintro ⟨old, known, same⟩
  rw [follows.inStep letter listed] at known
  obtain ⟨text, held, before⟩ := Option.bind_eq_some_iff.mp known
  obtain ⟨y, finite', rfl⟩ := follows.numbers letter listed text held
  obtain ⟨_, _, left⟩ := exists_written placed finite'
  obtain ⟨_, _, right⟩ := exists_written placed finite
  have first := left.read.symm.trans before
  have second := right.read.symm.trans read
  cases first
  cases second
  exact fresh (by rw [held, left.format_eq right finite' finite same])

def MovesAxis (entries : List Entry) : Prop :=
  ∃ entry ∈ entries, ∃ word ∈ entry.words, word.letter ∈ axisWords

instance (entries : List Entry) : Decidable (MovesAxis entries) :=
  inferInstanceAs (Decidable (∃ entry ∈ entries, ∃ word ∈ entry.words, word.letter ∈ axisWords))

/-- What reading the entries of one move does to the points: a line with a word of an axis makes
points, and all of them have the feed that is heard. -/
structure Hears (machine : Machine) (feed : Float) (entries : List Entry)
    (state next : ReadState) : Prop where
  points : ∃ made, next.points = made ++ state.points ∧
    ('\n' ∉ machine.dialect.speedChange.toList → made.length ≤ 1) ∧
    (MovesAxis entries → made ≠ [] ∧ ∀ point ∈ made, FeedHeard machine.dialect feed point.feed)

/-- A reader that follows a move hears its feed. -/
theorem Follows.feedHeard {dialect : Dialect} {registers : Registers} {state : ReadState}
    (follows : Follows dialect registers state) (placed : dialect.Placed) {feed : Float}
    (finite : feed.isFinite = true)
    (mode : registers.get? "G" = some (modeWord (feed == 0)).value)
    (stated : feed > 0 → registers.get? "F" = some (dialect.format feed)) :
    FeedHeard dialect feed state.motionFeed := by
  have rapid := follows.mode _ mode
  unfold ReadState.motionFeed
  rw [rapid]
  by_cases positive : feed > 0
  · have cutting : (feed == 0) = false := by
      rw [Bool.eq_false_iff, ne_eq,
        value_eq_iff (fits_iff_isFinite.mpr finite) Decimal.fits_zero, value_zero]
      exact (value_pos_of_gt finite positive).ne'
    rw [cutting, if_neg (by decide)]
    obtain ⟨number, read, same⟩ := follows.feed _ (stated positive)
    exact feedHeard_of_number placed finite positive read same
  · refine ⟨fun zero => by rw [zero, if_pos rfl], ?_, ?_, ?_⟩
    all_goals exact fun above => absurd above positive

theorem numbers_moveWords (vertical : machine.kinematics = .vertical)
    (measured : Measured tool point values) (dialect : program.dialect = machine.dialect) :
    ∀ letter ∈ ['X', 'Y', 'Z'], ∀ text,
      (machine.moveWords program tool point values).1.registers.get? (String.singleton letter) =
        some text → ∃ x : Float, x.isFinite = true ∧ text = machine.dialect.format x := by
  intro letter listed text held
  obtain ⟨x, member⟩ := exists_coordinate vertical values listed
  have finite := finite_of_mem_coordinates vertical measured.position member
  have inForce := (moveWords_spec machine program tool point values).axes _ member
  rw [held, Program.format, dialect] at inForce
  exact ⟨x, finite, Option.some.inj inForce⟩

/-- A reader that is told of the words of a move goes on following. -/
theorem Follows.moved {state next : ReadState} {line : List Char}
    (vertical : machine.kinematics = .vertical) (dialect : program.dialect = machine.dialect)
    (measured : Measured tool point values)
    (follows : Follows machine.dialect program.registers state)
    (conveys : Conveys (machine.moveWords program tool point values).2 line)
    (rapid : next.rapid = (readMode line state).1.rapid)
    (feed : next.feed = heardFeed line state.feed)
    (inStep : InStep (machine.moveWords program tool point values).1.registers next) :
    Follows machine.dialect (machine.moveWords program tool point values).1.registers next := by
  have spec := moveWords_spec machine program tool point values
  apply follows.of_modal spec.modal inStep (numbers_moveWords vertical measured dialect)
  · intro mode member
    rw [rapid, conveys.mode mode member]
  · intro absent
    rw [rapid, conveys.modeless absent]
  · intro text member
    obtain ⟨x, finite, rfl⟩ := exists_of_mem_moveWords vertical measured
      (by decide : 'F' ∈ numberLetters) member
    obtain ⟨_, number, _, _, denoted, self⟩ := program.dialect.floatOf_format finite
    refine ⟨number, denoted, ?_⟩
    rw [feed]
    exact beq_heardFeed ((conveys.number 'F' (by decide) _ member).trans denoted) self state.feed
  · intro absent
    rw [feed, heardFeed, conveys.feedless absent]

/-- A word of an axis is written because its text is new, so it tells a reader that follows of a
number that the reader does not have. -/
theorem Follows.told_new {state : ReadState} {line : List Char} (legible : FeedLegible machine)
    (dialect : program.dialect = machine.dialect) (measured : Measured tool point values)
    (follows : Follows machine.dialect program.registers state)
    (conveys : Conveys (machine.moveWords program tool point values).2 line) {word : Word}
    (member : word ∈ (machine.moveWords program tool point values).2)
    (letter : word.letter ∈ axisWords) :
    ∃ own ∈ machine.axisLetters, ∃ number, wordValue own line = some number ∧
      ¬ ∃ old, state.axes.lookup own = some old ∧ (old == number) = true := by
  have axes : ∀ letter ∈ numberLetters, String.singleton letter ∈ axisWords →
      letter ∈ ['X', 'Y', 'Z'] := List.all_iff_forall_prop.mp (by decide)
  have fresh := (moveWords_spec machine program tool point values).modal.fresh word member
  rw [axisLetters_vertical legible.vertical]
  rcases mem_moveWords legible.vertical measured member with rfl | ⟨own, named, x, finite, rfl⟩
  · exact absurd (show "G" ∈ axisWords from letter) (by decide)
  · have axis := axes own named letter
    obtain ⟨_, number, _, _, denoted, _⟩ := machine.dialect.floatOf_format finite
    have formatted : program.format x = machine.dialect.format x := by
      rw [Program.format, dialect]
    rw [formatted] at fresh member
    exact ⟨own, axis, number,
      (conveys.number own (List.mem_cons_of_mem _ axis) _ member).trans denoted,
      follows.new_axis legible.placed axis finite fresh denoted⟩

/-- The line of a move: the reader follows, and hears the feed whenever an axis moves. -/
theorem Follows.heard {state next : ReadState} (legible : FeedLegible machine)
    (dialect : program.dialect = machine.dialect) (measured : Measured tool point values)
    {change : String} (chosen : change = "" ∨ change = machine.dialect.speedChange)
    (follows : Follows machine.dialect program.registers state) {number : Int64} {count : Nat}
    (read : readLines machine [] state count (codeOf machine.dialect number
      [lineOf (machine.moveWords program tool point values).2 (laterTexts [] change)]) = .ok next)
    (inStep : InStep (machine.moveWords program tool point values).1.registers next) :
    Follows machine.dialect (machine.moveWords program tool point values).1.registers next ∧
      Hears machine (effectiveFeed tool point)
        [.move (machine.moveWords program tool point values).2 change] state next := by
  have spec := moveWords_spec machine program tool point values
  obtain ⟨line, conveys, rapid, feed, made, points, few, feeds, still⟩ :=
    (wordLine_moveWords legible measured program chosen).heard legible.marked read
  have following := follows.moved legible.vertical dialect measured conveys rapid feed inStep
  refine ⟨following, made, points, ?_, ?_⟩
  · intro unbroken
    apply few
    intro text listed
    rw [eq_of_mem_laterTexts chosen listed]
    exact unbroken
  · rintro ⟨entry, listed, word, member, letter⟩
    cases List.mem_singleton.mp listed
    constructor
    · intro nothing
      obtain ⟨own, tracked, value, told, new⟩ :=
        follows.told_new legible dialect measured conveys member letter
      exact new (still nothing own tracked value told)
    · intro other inside
      rw [feeds other inside]
      apply following.feedHeard legible.placed measured.feed
      · exact spec.mode ⟨word, member, letter⟩
      · rw [← dialect]
        exact spec.feed

/-- One move: reading what it writes keeps the reader following, and the reader hears its feed. -/
theorem writeMove_heard (legible : FeedLegible machine)
    (dialect : program.dialect = machine.dialect) (measured : Measured tool point values) :
    ∃ entries, (machine.writeMove program tool point values).entries.toList =
        program.entries.toList ++ entries ∧ Brief machine.dialect entries ∧
      ∀ state, Follows machine.dialect program.registers state →
        ReadsTo machine state entries fun next =>
          Follows machine.dialect (machine.writeMove program tool point values).registers next ∧
            Hears machine (effectiveFeed tool point) entries state next := by
  obtain ⟨place, rounded, _⟩ := machine.dialect.rounded_of_isFinite measured.position
  obtain ⟨entries, added, arrives⟩ := writeMove_arrives legible.toLegible dialect measured.position
    rounded tool point
  have spec := moveWords_spec machine program tool point values
  obtain ⟨change, chosen, written⟩ := writeMove_eq machine program tool point values
  have shape : entries = [] ∧ (machine.moveWords program tool point values).2 = [] ∨
      entries = [.move (machine.moveWords program tool point values).2 change] := by
    rw [written] at added
    dsimp only at added
    split at added
    · next nothing =>
        rw [spec.entries] at added
        exact .inl ⟨by simpa using added.symm, List.isEmpty_iff.mp nothing⟩
    · rw [Program.entries_write, spec.entries] at added
      exact .inr (List.append_cancel_left added).symm
  rw [registers_writeMove] at arrives ⊢
  refine ⟨entries, added, ?_, ?_⟩
  · rcases shape with ⟨rfl, _⟩ | rfl
    · exact brief_nil _
    · exact brief_moveWords legible measured dialect chosen
  · intro state follows number count short
    obtain ⟨next, read, arrived⟩ := arrives state follows.inStep number count short
    refine ⟨next, read, ?_⟩
    rcases shape with ⟨rfl, silent⟩ | rfl
    · cases read
      have modal := spec.modal
      rw [silent] at modal
      refine ⟨follows.of_modal modal arrived.inStep
        (numbers_moveWords legible.vertical measured dialect) (by simp) (fun _ => rfl) (by simp)
        (fun _ => rfl), [], rfl, fun _ => Nat.zero_le 1, ?_⟩
      rintro ⟨entry, member, _⟩
      cases member
    · have line := lines_move machine.dialect (machine.moveWords program tool point values).2 []
        change
      rw [List.append_nil] at line
      rw [List.flatMap_singleton, line] at read
      exact follows.heard legible dialect measured chosen read arrived.inStep

/-! ## Reading along -/

/-- A reader that has read what is written of a program so far, and follows it. -/
structure HasRead (machine : Machine) (program : Program) (state : ReadState) : Prop where
  dialect : program.dialect = machine.dialect
  read : readLines machine [] { tool := none } 1 (codeOf machine.dialect 0
    (program.entries.toList.flatMap (Entry.lines machine.dialect))) = .ok state
  follows : Follows machine.dialect program.registers state

private theorem hasRead_empty (machine : Machine) (ignore : List String) :
    HasRead machine (Program.empty machine.dialect ignore) { tool := none } :=
  ⟨rfl, rfl, follows_empty machine.dialect ignore none⟩

theorem writePoints_append (machine : Machine) (tool : Option Tool) (warned : Bool)
    (program : Program) (front back : List (Point × AxisValues)) :
    ∃ later, machine.writePoints tool warned program (front ++ back) =
      machine.writePoints tool later (machine.writePoints tool warned program front) back := by
  induction front generalizing warned program with
  | nil => exact ⟨warned, rfl⟩
  | cons entry front ih =>
      rw [List.cons_append, writePoints, writePoints]
      exact ih _ _

section Reading

variable {state : ReadState}

theorem HasRead.of_eq {other : Program} (hasRead : HasRead machine program state)
    (entries : other.entries = program.entries) (dialect : other.dialect = program.dialect)
    (registers : other.registers = program.registers) : HasRead machine other state :=
  ⟨dialect.trans hasRead.dialect, entries ▸ hasRead.read, registers ▸ hasRead.follows⟩

/-- A program is read into the points of the state that its lines lead to. -/
theorem HasRead.read_text (hasRead : HasRead machine program state) :
    machine.read program.text [] =
      .ok { name := "read", tool := state.tool, points := state.points.reverse } := by
  refine read_eq_ok.mpr ⟨state, ?_, rfl⟩
  rw [codeLines_text hasRead.dialect]
  exact hasRead.read

/-- A step: what one move adds is read on from where the reader is. -/
theorem HasRead.writeMove (hasRead : HasRead machine program state) (legible : FeedLegible machine)
    (measured : Measured tool point values) :
    ∃ entries next, (machine.writeMove program tool point values).entries.toList =
        program.entries.toList ++ entries ∧
      HasRead machine (machine.writeMove program tool point values) next ∧
      Hears machine (effectiveFeed tool point) entries state next := by
  obtain ⟨entries, added, brief, reads⟩ := writeMove_heard legible hasRead.dialect measured
  obtain ⟨reached, code⟩ := codeOf_append machine.dialect 0
    (program.entries.toList.flatMap (Entry.lines machine.dialect))
  obtain ⟨next, read, follows, hears⟩ := reads state hasRead.follows reached _ (brief reached)
  refine ⟨entries, next, added, ⟨?_, ?_, follows⟩, hears⟩
  · rw [dialect_writeMove, hasRead.dialect]
  · rw [added, List.flatMap_append, code, readLines_append hasRead.read]
    exact read

/-- A step of a run: a point without codes. -/
theorem HasRead.writePoint (hasRead : HasRead machine program state) (legible : FeedLegible machine)
    (bare : point.preCode = "" ∧ point.postCode = "") (measured : Measured tool point values)
    (warned : Bool) :
    ∃ entries next, (machine.writePoints tool warned program [(point, values)]).entries.toList =
        program.entries.toList ++ entries ∧
      HasRead machine (machine.writePoints tool warned program [(point, values)]) next ∧
      Hears machine (effectiveFeed tool point) entries state next := by
  obtain ⟨noted, later, ⟨entries, dialect, registers⟩, shape⟩ :=
    writePoints_cons machine tool warned program values bare.1 bare.2 []
  obtain ⟨added, next, written, moved, hears⟩ :=
    (hasRead.of_eq entries dialect registers).writeMove legible measured
  rw [shape]
  exact ⟨added, next, by rw [← entries]; exact written, moved, hears⟩

/-- A run: the points of many moves are added to those that are there. -/
theorem HasRead.writePoints {points : List (Point × AxisValues)} (legible : FeedLegible machine)
    (bare : ∀ entry ∈ points, entry.1.preCode = "" ∧ entry.1.postCode = "")
    (measured : ∀ entry ∈ points, Measured tool entry.1 entry.2) (warned : Bool)
    (hasRead : HasRead machine program state) :
    ∃ entries next made, (machine.writePoints tool warned program points).entries.toList =
        program.entries.toList ++ entries ∧
      HasRead machine (machine.writePoints tool warned program points) next ∧
      next.points = made ++ state.points := by
  induction points generalizing warned program state with
  | nil => exact ⟨[], state, [], (List.append_nil _).symm, hasRead, rfl⟩
  | cons entry points ih =>
      obtain ⟨point, values⟩ := entry
      obtain ⟨later, split⟩ := writePoints_append machine tool warned program [(point, values)] points
      obtain ⟨front, between, written, moved, hears⟩ := hasRead.writePoint legible
        (bare _ List.mem_cons_self) (measured _ List.mem_cons_self) warned
      obtain ⟨back, next, made, rest, done, joined⟩ := ih
        (fun other member => bare other (List.mem_cons_of_mem _ member))
        (fun other member => measured other (List.mem_cons_of_mem _ member)) later moved
      obtain ⟨first, added, _⟩ := hears.points
      rw [List.singleton_append] at split
      rw [split]
      refine ⟨front ++ back, next, made ++ first, ?_, done, ?_⟩
      · rw [rest, written, List.append_assoc]
      · rw [joined, added, List.append_assoc]

end Reading

end Moves

/-- A point with the values of the axes of a machine that has three. -/
def upright (point : Point) : Point × AxisValues := (point, ⟨point.position, .home⟩)

section Upright

variable {machine : Machine}

theorem writeMoves_eq_upright (vertical : machine.kinematics = .vertical) (ignore : List String)
    (tool : Option Tool) (points : List Point) :
    machine.writeMoves (Program.empty machine.dialect ignore) tool points =
      machine.writePoints tool false (Program.empty machine.dialect ignore) (points.map upright) := by
  rw [writeMoves, axes_vertical vertical]
  rfl

theorem writeMoves_rest (vertical : machine.kinematics = .vertical) (ignore : List String)
    (tool : Option Tool) (front back : List Point) :
    ∃ later, machine.writeMoves (Program.empty machine.dialect ignore) tool (front ++ back) =
      machine.writePoints tool later
        (machine.writeMoves (Program.empty machine.dialect ignore) tool front)
        (back.map upright) := by
  rw [writeMoves_eq_upright vertical, writeMoves_eq_upright vertical, List.map_append]
  exact writePoints_append machine tool false _ _ _

end Upright

/-- Writing points and reading the code back. The code can be read, and so can the code of any first
points, which makes up the first part of it. The lines that a point adds after others make points,
one at most unless the code for a change of speed has a line end; with a word of an axis in them they
make at least one, and its feed is the one heard of the feed that the point has. -/
theorem read_feeds {machine : Machine} (legible : FeedLegible machine) (ignore : List String)
    (tool : Option Tool) {before after : List Point} {point : Point}
    (finite : ∀ other ∈ before ++ point :: after, other.position.isFinite = true ∧
      (effectiveFeed tool other).isFinite = true ∧ (effectiveSpeed tool other).isFinite = true)
    (bare : ∀ other ∈ before ++ point :: after, other.preCode = "" ∧ other.postCode = "") :
    let written := machine.writeMoves (Program.empty machine.dialect ignore) tool
    let heard := fun points => (machine.read (written points).text []).map (·.points)
    ∃ lines rest first made last,
      (written (before ++ [point])).entries.toList =
        (written before).entries.toList ++ lines ∧
      (written (before ++ point :: after)).entries.toList =
        (written before).entries.toList ++ lines ++ rest ∧
      heard before = .ok first ∧ heard (before ++ [point]) = .ok (first ++ made) ∧
      heard (before ++ point :: after) = .ok (first ++ made ++ last) ∧
      ('\n' ∉ machine.dialect.speedChange.toList → made.length ≤ 1) ∧
      (MovesAxis lines → made ≠ [] ∧
        ∀ other ∈ made, FeedHeard machine.dialect (effectiveFeed tool point) other.feed) := by
  dsimp only
  have measured : ∀ other ∈ before ++ point :: after, Measured tool other (upright other).2 :=
    fun other member => ⟨(finite other member).1, (finite other member).2.1, (finite other member).2.2⟩
  have allMeasured : ∀ {part}, part ⊆ before ++ point :: after →
      ∀ entry ∈ part.map upright, Measured tool entry.1 entry.2 := by
    intro part inside entry member
    obtain ⟨other, among, rfl⟩ := List.mem_map.mp member
    exact measured other (inside among)
  have front : before ⊆ before ++ point :: after := List.subset_append_left _ _
  have here : point ∈ before ++ point :: after := by simp
  have back : after ⊆ before ++ point :: after := fun other member =>
    List.mem_append_right _ (List.mem_cons_of_mem _ member)
  have split : before ++ point :: after = (before ++ [point]) ++ after := by simp
  obtain ⟨later, through⟩ := writeMoves_rest legible.vertical ignore tool before [point]
  obtain ⟨further, whole⟩ := writeMoves_rest legible.vertical ignore tool (before ++ [point]) after
  obtain ⟨_, early, _, _, first, _⟩ := (hasRead_empty machine ignore).writePoints legible
    (List.forall_mem_map.mpr fun other member => bare other (front member))
    (allMeasured front) false
  rw [← writeMoves_eq_upright legible.vertical] at first
  obtain ⟨lines, between, added, second, hears⟩ := first.writePoint legible (bare point here)
    (measured point here) later
  rw [split, whole, through]
  obtain ⟨rest, late, last, more, third, joined⟩ := second.writePoints legible
    (List.forall_mem_map.mpr fun other member => bare other (back member))
    (allMeasured back) further
  obtain ⟨made, points, few, feeds⟩ := hears.points
  refine ⟨lines, rest, early.points.reverse, made.reverse, last.reverse, added, ?_, ?_, ?_, ?_, ?_, ?_⟩
  · exact more.trans (by rw [← added])
  · rw [first.read_text]
    rfl
  · exact (congrArg _ second.read_text).trans (by simp [Except.map, points])
  · exact (congrArg _ third.read_text).trans (by simp [Except.map, points, joined])
  · simpa using few
  · simpa using feeds

/-- The vertical mill that is built in. -/
def builtinMill : Machine := ⟨Dialect.generic3, .vertical⟩

private theorem feedLegible_builtinMill : builtinMill.FeedLegible where
  vertical := rfl
  marked := ⟨'(', [], by decide, by decide⟩
  silent := List.all_iff_forall_prop.mp (by decide)
  unfed := List.all_iff_forall_prop.mp (by decide)
  placed := ⟨by decide, by decide⟩
  brief := by decide +kernel

/-- A rapid move, a cut with a feed just above half of the smallest unit, and one that goes on. -/
def approach : Point :=
  { position := ⟨1, 2, 3⟩, direction := Vec.zAxis, feed := 0, speed := 900 }

def slowCut : Point :=
  { position := ⟨1.0004, -0.0001, -2.5⟩, direction := Vec.zAxis, feed := 0.000501 }

def goingOn : Point :=
  { position := ⟨4, 2, -2.5⟩, direction := Vec.zAxis, feed := 0.000501 }

theorem read_feeds_slowCut :
    (∀ other ∈ [approach] ++ slowCut :: [goingOn], other.position.isFinite = true ∧
      (effectiveFeed none other).isFinite = true ∧ (effectiveSpeed none other).isFinite = true) ∧
    let heard := fun points => (builtinMill.read
      (builtinMill.writeMoves (Program.empty builtinMill.dialect []) none points).text []).map
        (·.points)
    ∃ first cut last, heard [approach] = .ok first ∧
      heard [approach, slowCut] = .ok (first ++ [cut]) ∧
      heard [approach, slowCut, goingOn] = .ok (first ++ [cut] ++ last) ∧ cut.feed > 0 := by
  have finite : ∀ other ∈ [approach] ++ slowCut :: [goingOn], other.position.isFinite = true ∧
      (effectiveFeed none other).isFinite = true ∧
        (effectiveSpeed none other).isFinite = true := by decide +kernel
  obtain ⟨lines, rest, first, made, last, added, _, early, through, whole, few, feeds⟩ :=
    read_feeds feedLegible_builtinMill [] none finite (by decide)
  have moved : MovesAxis lines := by
    rw [← @List.drop_left _ _ lines, ← added]
    decide +kernel
  obtain ⟨some, heard⟩ := feeds moved
  obtain ⟨cut, rfl⟩ : ∃ cut, made = [cut] := by
    apply List.length_eq_one_iff.mp
    have least := List.length_pos_of_ne_nil some
    have most := few (by decide)
    omega
  refine ⟨finite, first, cut, last, early, through, whole, ?_⟩
  exact (heard cut List.mem_cons_self).cut (by decide +kernel) (by decide +kernel)

/-- A cut with a feed that is rounded away. -/
def faintCut : Point := { position := ⟨1, 2, 3⟩, direction := Vec.zAxis, feed := 0.0001 }

theorem faintCut_read_as_rapid :
    effectiveFeed none faintCut > 0 ∧
      MovesAxis (builtinMill.writeMoves (Program.empty builtinMill.dialect []) none
        [faintCut]).entries.toList ∧
      ((builtinMill.read (builtinMill.writeMoves (Program.empty builtinMill.dialect []) none
        [faintCut]).text []).map fun path => path.points.map (·.feed == 0)).toOption =
          some [true] := by
  decide +kernel

end Machine

end Kerf
