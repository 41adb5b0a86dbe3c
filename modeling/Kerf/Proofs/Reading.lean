import Kerf.Proofs.Failing
import Kerf.Proofs.Numerals
import Kerf.Proofs.Registers
import Kerf.Machine.Reader
import Kerf.Yaml.Scalar

/-!
# Reading lines back

What the reader makes of one line: which number it finds behind a letter, what cleaning leaves of a
line whose front holds nothing but plain words, and how a line changes the axes and the points. On
a machine with three axes no line can fail to be read when no tools are given, short lines provided.
-/

set_option autoImplicit false

namespace Kerf

open Kerf.Decimal (Numeral)
open Kerf.Text
open Kerf.Yaml (takeSign numeralOf floatOf)

/-! ## Numbers in a text -/

namespace Decimal

open Kerf.Machine (endsCode)

theorem takeWhile_append_of_stop {keep : Char → Bool} {front rest : List Char}
    (kept : ∀ c ∈ front, keep c = true) (stop : ∀ c ∈ rest.head?, keep c = false) :
    (front ++ rest).takeWhile keep = front := by
  rw [List.takeWhile_append_of_pos kept]
  cases rest with
  | nil => exact List.append_nil front
  | cons c rest => rw [List.takeWhile_cons_of_neg (by simp [stop c rfl]), List.append_nil]

/-- What stands behind the sign of a numeral. -/
def Numeral.unsignedText (numeral : Numeral) : List Char :=
  numeral.whole ++ if numeral.fraction.isEmpty then [] else '.' :: numeral.fraction

theorem Numeral.text_eq (numeral : Numeral) :
    numeral.text = if numeral.negative then '-' :: numeral.unsignedText
      else numeral.unsignedText := rfl

section Plain

variable {numeral : Numeral} {rest : List Char}

theorem stop_of_endsCode (ends : endsCode rest = true) : ∀ c ∈ rest.head?, c.isDigit = false := by
  intro c head
  cases rest with
  | nil => cases head
  | cons d rest =>
      cases head
      simp only [endsCode, Bool.and_eq_true] at ends
      simpa using ends.1

theorem takeWhile_unsignedText (plain : numeral.Plain) (ends : endsCode rest = true) :
    (numeral.unsignedText ++ rest).takeWhile Char.isDigit = numeral.whole := by
  unfold Numeral.unsignedText
  rw [List.append_assoc]
  apply takeWhile_append_of_stop plain.whole
  intro c head
  split at head
  · exact stop_of_endsCode ends c head
  · cases head
    exact isDigit_point

theorem drop_unsignedText (numeral : Numeral) (rest : List Char) :
    (numeral.unsignedText ++ rest).drop numeral.whole.length =
      (if numeral.fraction.isEmpty then [] else '.' :: numeral.fraction) ++ rest := by
  rw [Numeral.unsignedText, List.append_assoc, List.drop_left]

theorem unsignedText_eq_cons (plain : numeral.Plain) :
    ∃ c tail, numeral.unsignedText = c :: tail ∧ c.isDigit = true := by
  cases digits : numeral.whole with
  | nil => exact absurd digits plain.whole_ne_nil
  | cons c tail =>
      refine ⟨c, _, by rw [Numeral.unsignedText, digits, List.cons_append], ?_⟩
      exact plain.whole c (by rw [digits]; exact List.mem_cons_self)

theorem eq_of_exponent (plain : numeral.Plain) :
    { negative := numeral.negative, whole := numeral.whole, fraction := numeral.fraction,
      exponent := 0 } = numeral := by
  obtain ⟨negative, whole, fraction, exponent⟩ := numeral
  have none := plain.exponent
  dsimp only at none
  rw [none]

theorem floatOf_text (plain : numeral.Plain) : floatOf numeral.text = numeral.value? := by
  have sign : takeSign numeral.text = (numeral.negative, numeral.unsignedText) := by
    rw [Numeral.text_eq]
    cases numeral.negative with
    | true => rfl
    | false =>
        obtain ⟨c, tail, shape, digit⟩ := unsignedText_eq_cons plain
        rw [if_neg (by decide), shape]
        unfold takeSign
        split
        · next same =>
            cases same
            exact absurd digit (by decide)
        · next same =>
            cases same
            exact absurd digit (by decide)
        · rfl
  have found : numeralOf numeral.text = some numeral := by
    have whole := @takeWhile_unsignedText numeral [] plain rfl
    have dropped := drop_unsignedText numeral []
    have some : numeral.whole.isEmpty = false := by simpa using plain.whole_ne_nil
    rw [List.append_nil] at whole dropped
    unfold numeralOf
    rw [sign]
    dsimp only
    rw [whole, dropped, some, List.append_nil]
    refine Eq.trans ?_ (congrArg Option.some (eq_of_exponent plain))
    cases digits : numeral.fraction with
    | nil => rfl
    | cons c tail =>
        have run : (c :: tail ++ []).takeWhile Char.isDigit = c :: tail :=
          takeWhile_append_of_stop (digits ▸ plain.fraction) (stop_of_endsCode rfl)
        rw [List.append_nil] at run
        simp only [List.isEmpty_cons, Bool.false_eq_true, ↓reduceIte, Bool.false_and, run,
          List.drop_length]
        rfl
  rw [floatOf, found]
  rfl

end Plain

end Decimal

namespace Machine

open Kerf.Decimal

/-- What `numeralAt` makes of a text behind its sign. -/
def numeralBehind (negative : Bool) (body : List Char) : Option Numeral :=
  let whole := body.takeWhile Char.isDigit
  let fraction :=
    match body.drop whole.length with
    | '.' :: tail => tail.takeWhile Char.isDigit
    | _ => []
  if whole.isEmpty && fraction.isEmpty then none
  else some { negative, whole, fraction, exponent := 0 }

private theorem numeralAt_minus (body : List Char) :
    numeralAt ('-' :: body) = numeralBehind true body :=
  rfl

private theorem numeralAt_cons {c : Char} (unsigned : c ≠ '-') (body : List Char) :
    numeralAt (c :: body) = numeralBehind false (c :: body) := by
  unfold numeralAt
  split
  next found =>
    split at found
    · next minus => exact absurd (List.cons.inj minus).1 unsigned
    · cases found
      rfl

variable {numeral : Numeral} {front : List Char} {letter : Char}

private theorem numeralBehind_text {rest : List Char} (plain : numeral.Plain)
    (ends : endsCode rest = true) :
    numeralBehind numeral.negative (numeral.unsignedText ++ rest) = some numeral := by
  have some : numeral.whole.isEmpty = false := by simpa using plain.whole_ne_nil
  unfold numeralBehind
  dsimp only
  rw [takeWhile_unsignedText plain ends, drop_unsignedText, some, Bool.false_and,
    if_neg (by decide)]
  refine Eq.trans ?_ (congrArg Option.some (eq_of_exponent plain))
  cases digits : numeral.fraction with
  | nil =>
      simp only [List.isEmpty_nil, ↓reduceIte, List.nil_append]
      split
      · simp [endsCode] at ends
      · rfl
  | cons c tail =>
      simp only [List.isEmpty_cons, Bool.false_eq_true, ↓reduceIte, List.cons_append]
      rw [← List.cons_append,
        takeWhile_append_of_stop (digits ▸ plain.fraction) (stop_of_endsCode ends)]

/-- A numeral is read back from the front of a text that does not go on with it. -/
theorem numeralAt_text {rest : List Char} (plain : numeral.Plain) (ends : endsCode rest = true) :
    numeralAt (numeral.text ++ rest) = some numeral := by
  have behind := numeralBehind_text plain ends
  obtain ⟨c, tail, shape, digit⟩ := unsignedText_eq_cons plain
  rw [Numeral.text_eq]
  cases sign : numeral.negative with
  | true =>
      rw [sign] at behind
      rw [if_pos rfl, List.cons_append, numeralAt_minus]
      exact behind
  | false =>
      have unsigned : c ≠ '-' := by
        rintro rfl
        exact absurd digit (by decide)
      rw [sign, shape, List.cons_append] at behind
      rw [if_neg (by decide), shape, List.cons_append, numeralAt_cons unsigned]
      exact behind

/-! ## Words in a line -/

/-- A text that is empty or starts with a blank, so that no word before it goes on in it. -/
def Apart (text : List Char) : Prop := ∀ c ∈ text.head?, c = ' '

theorem Apart.endsCode {text : List Char} (apart : Apart text) : endsCode text = true := by
  cases text with
  | nil => rfl
  | cons c text =>
      rw [apart c rfl]
      rfl

theorem Apart.of_isPrefix {text : List Char} (apart : Apart text) (part : front <+: text) :
    Apart front := by
  obtain ⟨back, rfl⟩ := part
  cases front with
  | nil => intro c head; cases head
  | cons c front => exact apart

theorem numeralAfter_append (absent : letter ∉ front) (back : List Char) :
    numeralAfter letter (front ++ back) = numeralAfter letter back := by
  induction front with
  | nil => rfl
  | cons c front ih =>
      rw [List.mem_cons, not_or] at absent
      have different : (c == letter) = false := by simpa using Ne.symm absent.1
      rw [List.cons_append, numeralAfter, different]
      exact ih absent.2

theorem wordValue_of_not_mem {line : List Char} (absent : letter ∉ line) :
    wordValue letter line = none := by
  have nothing := numeralAfter_append absent []
  rw [List.append_nil] at nothing
  rw [wordValue, nothing]
  rfl

/-- A word is found behind a text without its letter. -/
theorem wordValue_word {tail : List Char} (absent : letter ∉ front) (plain : numeral.Plain)
    (apart : Apart tail) :
    wordValue letter (front ++ letter :: (numeral.text ++ tail)) = numeral.value? := by
  have gapless : (numeral.text ++ tail).dropWhile isWordGap = numeral.text ++ tail := by
    obtain ⟨c, rest, shape, digit⟩ := unsignedText_eq_cons plain
    have noGap : isWordGap c = false := by
      have bounds := digit_bounds digit
      simp only [isWordGap, Bool.or_eq_false_iff, beq_eq_false_iff_ne]
      refine ⟨⟨⟨⟨?_, ?_⟩, ?_⟩, ?_⟩, by omega⟩ <;>
        · rintro rfl
          exact absurd bounds (by decide)
    rw [Numeral.text_eq]
    cases numeral.negative with
    | true => rfl
    | false =>
        rw [if_neg (by decide), shape, List.cons_append, List.dropWhile_cons_of_neg (by simp [noGap])]
  rw [wordValue, numeralAfter_append absent, numeralAfter, if_pos BEq.rfl, gapless,
    numeralAt_text plain apart.endsCode]
  rfl

theorem hasCode_append (absent : 'G' ∉ front) (endings : List (List Char)) (back : List Char) :
    hasCode endings (front ++ back) = hasCode endings back := by
  induction front with
  | nil => rfl
  | cons c front ih =>
      rw [List.mem_cons, not_or] at absent
      have different : (c == 'G') = false := by simpa using Ne.symm absent.1
      rw [List.cons_append, hasCode, different, ih absent.2]
      rfl

theorem hasCode_of_not_mem {line : List Char} (absent : 'G' ∉ line)
    (endings : List (List Char)) : hasCode endings line = false := by
  have nothing := hasCode_append absent endings []
  rw [List.append_nil] at nothing
  exact nothing

/-- What a mode word switches to. -/
theorem hasCode_mode {tail : List Char} (before : 'G' ∉ front) (after : 'G' ∉ tail)
    (apart : Apart tail) (rapid : Bool) :
    isAbsoluteLine (front ++ 'G' :: ((if rapid then ['0', '0'] else ['0', '1']) ++ tail)) = false ∧
      isRapidLine (front ++ 'G' :: ((if rapid then ['0', '0'] else ['0', '1']) ++ tail)) = rapid ∧
      isFeedLine (front ++ 'G' :: ((if rapid then ['0', '0'] else ['0', '1']) ++ tail)) = !rapid := by
  have zeros : tail.takeWhile (· == '0') = [] := by
    cases tail with
    | nil => rfl
    | cons c tail => rw [apart c rfl]; rfl
  have absolute : startsWith ['5', '3'] tail = false := by
    cases tail with
    | nil => rfl
    | cons c tail => rw [apart c rfl]; rfl
  have other : ∀ c ∈ ['1', '2', '3'], startsWith [c] tail = false := by
    intro c listed
    cases tail with
    | nil => rfl
    | cons d tail =>
        have visible : (c == ' ') = false := by
          simp only [List.mem_cons, List.not_mem_nil, or_false] at listed
          rcases listed with rfl | rfl | rfl <;> rfl
        rw [apart d rfl, startsWith, List.isPrefixOf, visible]
        rfl
  simp only [isAbsoluteLine, isRapidLine, isFeedLine, hasCode_append before, hasCode]
  cases rapid with
  | true =>
      have rest : ∀ endings, hasCode endings ('0' :: '0' :: tail) = false :=
        hasCode_of_not_mem (by simpa using after)
      simp [rest, zeros, absolute, other, apart.endsCode]
  | false =>
      have rest : ∀ endings, hasCode endings ('0' :: '1' :: tail) = false :=
        hasCode_of_not_mem (by simpa using after)
      have digit : endsCode ('1' :: tail) = false := rfl
      simp [rest, startsWith, digit, apart.endsCode]

end Machine

/-! ## Comments -/

namespace Text

private theorem eq_of_cutFrom {pattern text passed before after : List Char}
    (found : cutFrom pattern passed text = some (before, after)) :
    ∃ inner, before = passed.reverse ++ inner ∧ text = inner ++ pattern ++ after := by
  induction text generalizing passed with
  | nil =>
      unfold cutFrom at found
      split at found
      · next empty =>
          cases found
          exact ⟨[], by simp, by simpa using empty⟩
      · cases found
  | cons c rest ih =>
      unfold cutFrom at found
      split at found
      · next starts =>
          cases found
          obtain ⟨after, shape⟩ := List.isPrefixOf_iff_prefix.mp starts
          refine ⟨[], by simp, ?_⟩
          rw [← shape, List.drop_left, List.nil_append]
      · obtain ⟨inner, shape, split⟩ := ih found
        refine ⟨c :: inner, by simp [shape], by simp [split]⟩

theorem eq_of_cut? {pattern text before after : List Char}
    (found : cut? pattern text = some (before, after)) : text = before ++ pattern ++ after := by
  obtain ⟨inner, rfl, shape⟩ := eq_of_cutFrom found
  exact shape

/-- A pattern is not found inside a front without its first character. -/
theorem exists_inner_of_cut? {mark : Char} {marks front back before rest : List Char}
    (absent : mark ∉ front) (found : cut? (mark :: marks) (front ++ back) = some (before, rest)) :
    ∃ inner, before = front ++ inner ∧ back = inner ++ mark :: (marks ++ rest) := by
  have shape := eq_of_cut? found
  rw [List.append_assoc, List.append_eq_append_iff] at shape
  rcases shape with ⟨inner, same, split⟩ | ⟨inner, same, split⟩
  · exact ⟨inner, same, split⟩
  · cases inner with
    | nil => exact ⟨[], by simpa using same.symm, split.symm⟩
    | cons c inner =>
        have first : mark = c := (List.cons.inj split).1
        exact absurd (by rw [same, first]; simp) absent

end Text

namespace Dialect

/-- Comments are taken out behind a front without the first character of their mark. -/
theorem stripComments_append {mark : Char} {marks closing front : List Char}
    (absent : mark ∉ front) (back : List Char) :
    ∃ tail, stripComments (mark :: marks) closing (front ++ back) = front ++ tail ∧
      tail.Sublist back ∧ (mark ≠ ' ' → Machine.Apart back → Machine.Apart tail) := by
  induction size : back.length using Nat.strongRecOn generalizing back with
  | ind n ih =>
      rw [stripComments]
      split
      · exact ⟨back, rfl, List.Sublist.refl back, fun _ => id⟩
      · next before rest found =>
          obtain ⟨inner, rfl, split⟩ := exists_inner_of_cut? absent found
          have apart : ∀ after, mark ≠ ' ' → Machine.Apart back →
              Machine.Apart (inner ++ after) := by
            intro after visible blank
            cases inner with
            | nil => exact absurd (blank mark (by rw [split]; rfl)) visible
            | cons c inner => exact fun d head => blank d (by rw [split]; exact head)
          split
          · refine ⟨inner, rfl, by rw [split]; exact List.sublist_append_left _ _, ?_⟩
            simpa using apart []
          · split
            · refine ⟨inner, rfl, by rw [split]; exact List.sublist_append_left _ _, ?_⟩
              simpa using apart []
            · next comment after ended =>
                have later : after.Sublist (marks ++ rest) := by
                  rw [eq_of_cut? ended]
                  exact (List.sublist_append_right _ _).trans (List.sublist_append_right _ _)
                have within : (inner ++ after).Sublist back := by
                  rw [split]
                  exact List.Sublist.append_left (later.cons mark) inner
                have shorter : (inner ++ after).length < n := by
                  have bound := later.length_le
                  rw [← size, split]
                  simp only [List.length_append, List.length_cons] at bound ⊢
                  omega
                obtain ⟨tail, stripped, part, blank⟩ := ih _ shorter (inner ++ after) rfl
                rw [List.append_assoc]
                exact ⟨tail, stripped, part.trans within,
                  fun visible => blank visible ∘ apart after visible⟩

end Dialect

namespace Machine

/-! ## Axes -/

theorem lookup_readAxis (line : List Char) (state : ReadState × Bool) (letter other : Char) :
    (readAxis line state letter).1.axes.lookup other =
      if other = letter then (wordValue letter line).or (state.1.axes.lookup other)
      else state.1.axes.lookup other := by
  unfold readAxis
  split
  · next silent => simp [silent]
  · next value found =>
      rw [List.lookup_cons, lookup_filter_ne, found]
      by_cases same : other = letter
      · simp [same]
      · have different : (other == letter) = false := by simpa using same
        rw [different, if_neg same]
        rfl

/-- An axis that is given nothing new keeps a value that compares equal. -/
theorem unchanged_readAxis {line : List Char} {state : ReadState × Bool} {letter : Char}
    (unchanged : (readAxis line state letter).2 = false) :
    state.2 = false ∧ ∀ value, wordValue letter line = some value →
      ∃ old, state.1.axes.lookup letter = some old ∧ (old == value) = true := by
  unfold readAxis at unchanged
  split at unchanged
  · next silent =>
      refine ⟨unchanged, fun value found => ?_⟩
      rw [silent] at found
      cases found
  · next value found =>
      obtain ⟨before, fresh⟩ := Bool.or_eq_false_iff.mp unchanged
      refine ⟨before, fun given same => ?_⟩
      rw [found] at same
      cases same
      split at fresh
      · next old held => exact ⟨old, held, by simpa [bne] using fresh⟩
      · cases fresh

private theorem frame_readAxis (line : List Char) (state : ReadState × Bool) (letter : Char) :
    ∃ axes, (readAxis line state letter).1 = { state.1 with axes } := by
  unfold readAxis
  split <;> exact ⟨_, rfl⟩

/-- What reading several axes from a line does. -/
structure AxesRead (line : List Char) (letters : List Char) (before after : ReadState × Bool) :
    Prop where
  lookup : ∀ letter, after.1.axes.lookup letter =
    if letter ∈ letters then (wordValue letter line).or (before.1.axes.lookup letter)
    else before.1.axes.lookup letter
  unchanged : after.2 = false → before.2 = false ∧ ∀ letter ∈ letters, ∀ value,
    wordValue letter line = some value →
      ∃ old, before.1.axes.lookup letter = some old ∧ (old == value) = true
  frame : ∃ axes, after.1 = { before.1 with axes }

theorem axesRead_foldl (line : List Char) (letters : List Char) (state : ReadState × Bool) :
    AxesRead line letters state (letters.foldl (readAxis line) state) := by
  induction letters generalizing state with
  | nil => exact ⟨by simp, by simp, ⟨_, rfl⟩⟩
  | cons first letters ih =>
      obtain ⟨lookup, unchanged, axes, frame⟩ := ih (readAxis line state first)
      rw [List.foldl_cons]
      refine ⟨?_, ?_, ?_⟩
      · intro letter
        rw [lookup, lookup_readAxis]
        by_cases same : letter = first
        · subst same
          cases wordValue letter line <;> simp
        · simp [same]
      · intro nothing
        obtain ⟨step, later⟩ := unchanged nothing
        obtain ⟨before, here⟩ := unchanged_readAxis step
        refine ⟨before, fun letter member value found => ?_⟩
        by_cases same : letter = first
        · subst same
          exact here value found
        · have given := later letter (List.mem_of_ne_of_mem same member) value found
          rwa [lookup_readAxis, if_neg same] at given
      · obtain ⟨between, step⟩ := frame_readAxis line state first
        exact ⟨axes, by rw [frame, step]⟩

/-! ## One line -/

/-- The place that the axes have reached. -/
def ReadState.place (state : ReadState) : Vec := ⟨state.axis 'X', state.axis 'Y', state.axis 'Z'⟩

/-- What one line does to the axes of a machine and to the points: either a point is made where the
axes are, or no axis was given a value different from the one it had. -/
structure LineRead (machine : Machine) (line : List Char) (before after : ReadState) : Prop where
  lookup : ∀ letter ∈ machine.axisLetters,
    after.axes.lookup letter = (wordValue letter line).or (before.axes.lookup letter)
  points : (∃ point, point = after.point machine ∧ after.points = point :: before.points) ∨
    after.points = before.points ∧ ∀ letter ∈ machine.axisLetters, ∀ value,
      wordValue letter line = some value →
        ∃ old, before.axes.lookup letter = some old ∧ (old == value) = true

private theorem readTool_nil (number : Nat) (line : List Char) (state : ReadState) :
    readTool [] number line state = .ok state := by
  unfold readTool
  split <;> rfl

theorem readMode_frame (line : List Char) (state : ReadState) :
    ∃ rapid, (readMode line state).1 = { state with rapid } := by
  unfold readMode
  split
  · exact ⟨_, rfl⟩
  · split <;> exact ⟨_, rfl⟩

theorem wordValue_of_isAllBlank {machine : Machine} {line : List Char}
    (blank : isAllBlank line = true) {letter : Char} (member : letter ∈ machine.axisLetters) :
    wordValue letter line = none := by
  apply wordValue_of_not_mem
  intro inside
  have white := List.all_eq_true.mp blank letter inside
  unfold axisLetters at member
  split at member <;> simp only [List.mem_cons, List.not_mem_nil, or_false] at member
  all_goals
    rcases member with rfl | rfl | rfl | rfl | rfl
  all_goals exact absurd white (by decide)

/-- Takes a setting of the spindle or the feed from a line, and says whether anything changed. -/
def readSetting (letter : Char) (held : ReadState → Float) (hold : Float → ReadState → ReadState)
    (line : List Char) (state : ReadState × Bool) : ReadState × Bool :=
  match wordValue letter line with
  | some value => if value != held state.1 then (hold value state.1, true) else state
  | none => state

/-- A setting changes neither axes nor points, and never takes a change back. -/
theorem readSetting_frame {letter : Char} {held : ReadState → Float}
    {hold : Float → ReadState → ReadState}
    (frame : ∀ value state, (hold value state).axes = state.axes ∧
      (hold value state).points = state.points) (line : List Char) (state : ReadState × Bool) :
    (readSetting letter held hold line state).1.axes = state.1.axes ∧
      (readSetting letter held hold line state).1.points = state.1.points ∧
      ((readSetting letter held hold line state).2 = false → state.2 = false) := by
  unfold readSetting
  split
  · next value found =>
      split
      · exact ⟨(frame value state.1).1, (frame value state.1).2, nofun⟩
      · exact ⟨rfl, rfl, id⟩
  · exact ⟨rfl, rfl, id⟩

def readSettings (line : List Char) (state : ReadState × Bool) : ReadState × Bool :=
  readSetting 'S' (·.speed) (fun speed state => { state with speed }) line
    (readSetting 'F' (·.feed) (fun feed state => { state with feed }) line state)

private theorem readSettings_frame (line : List Char) (state : ReadState × Bool) :
    (readSettings line state).1.axes = state.1.axes ∧
      (readSettings line state).1.points = state.1.points ∧
      ((readSettings line state).2 = false → state.2 = false) := by
  obtain ⟨fedAxes, fedPoints, fedChange⟩ := readSetting_frame
    (fun _ _ => ⟨rfl, rfl⟩ : ∀ (feed : Float) (state : ReadState),
      { state with feed }.axes = state.axes ∧ { state with feed }.points = state.points) line state
  obtain ⟨axes, points, change⟩ := readSetting_frame
    (fun _ _ => ⟨rfl, rfl⟩ : ∀ (speed : Float) (state : ReadState),
      { state with speed }.axes = state.axes ∧ { state with speed }.points = state.points) line
    (readSetting 'F' (·.feed) (fun feed state => { state with feed }) line state)
  exact ⟨axes.trans fedAxes, points.trans fedPoints, fedChange ∘ change⟩

theorem readLine_eq (machine : Machine) (number : Nat) {line : List Char} (state : ReadState)
    (visible : isAllBlank line = false) (relative : isAbsoluteLine line = false) :
    readLine machine [] number line state =
      let read := readSettings line
        (machine.axisLetters.foldl (readAxis line) (readMode line state))
      .ok (if read.2 then { read.1 with points := read.1.point machine :: read.1.points }
        else read.1) := by
  unfold readLine
  rw [visible, if_neg (by decide), readTool_nil, relative]
  unfold readSettings readSetting
  cases wordValue 'F' line <;> cases wordValue 'S' line <;> rfl

/-- No line fails to be read. One that does not move in machine coordinates brings its axes to what
it says, and makes a point unless nothing has changed. -/
theorem readLine_spec (machine : Machine) (number : Nat) {line : List Char}
    (relative : isAbsoluteLine line = false) (state : ReadState) :
    ∃ after, readLine machine [] number line state = .ok after ∧
      LineRead machine line state after := by
  cases blank : isAllBlank line with
  | true =>
      refine ⟨state, by rw [readLine, blank]; rfl, ?_, .inr ⟨rfl, ?_⟩⟩
      · intro letter member
        rw [wordValue_of_isAllBlank blank member]
        rfl
      · intro letter member value found
        rw [wordValue_of_isAllBlank blank member] at found
        cases found
  | false =>
      rw [readLine_eq machine number state blank relative]
      obtain ⟨rapid, mode⟩ := readMode_frame line state
      have axes := axesRead_foldl line machine.axisLetters (readMode line state)
      generalize machine.axisLetters.foldl (readAxis line) (readMode line state) = moved at axes ⊢
      obtain ⟨sameAxes, samePoints, sameChange⟩ := readSettings_frame line moved
      generalize readSettings line moved = last at sameAxes samePoints sameChange ⊢
      obtain ⟨values, frame⟩ := axes.frame
      have points : last.1.points = state.points := by
        rw [samePoints, frame, mode]
      have lookup : ∀ letter ∈ machine.axisLetters, last.1.axes.lookup letter =
          (wordValue letter line).or (state.axes.lookup letter) := by
        intro letter member
        rw [sameAxes, axes.lookup, if_pos member, mode]
      refine ⟨_, rfl, ?_, ?_⟩
      · split <;> exact lookup
      · split
        · exact .inl ⟨_, rfl, by rw [← points]; rfl⟩
        · next still =>
            refine .inr ⟨points, ?_⟩
            have same := (axes.unchanged (sameChange (by simpa using still))).2
            rwa [mode] at same

/-! ## Cleaning -/

/-- A line as it is looked at: without a carriage return at its end, without comments, and in
capitals. -/
def cleanLine (dialect : Dialect) (line : List Char) : List Char :=
  (dialect.strip (if line.getLast? == some '\r' then line.dropLast else line)).map capital

/-- A character that cleaning leaves alone wherever it stands before the first comment. -/
def Survives (mark c : Char) : Prop := c ≠ mark ∧ c ≠ '\r' ∧ capital c = c

theorem capital_blank : capital ' ' = ' ' := by decide

theorem Apart.map_capital {text : List Char} (apart : Apart text) : Apart (text.map capital) := by
  cases text with
  | nil => intro c head; cases head
  | cons c text =>
      intro d head
      cases head
      rw [apart c rfl, capital_blank]

/-- Cleaning keeps a front of surviving characters and takes what follows from what followed. -/
theorem cleanLine_append {dialect : Dialect} {mark : Char} {marks : List Char}
    (opening : dialect.commentStart.toList = mark :: marks) (visible : mark ≠ ' ')
    {front : List Char} (survives : ∀ c ∈ front, Survives mark c) (back : List Char) :
    ∃ tail, cleanLine dialect (front ++ back) = front ++ tail ∧
      (∀ c ∈ tail, ∃ d ∈ back, capital d = c) ∧ (Apart back → Apart tail) := by
  have cut : ∃ rest, (if (front ++ back).getLast? == some '\r' then (front ++ back).dropLast
      else front ++ back) = front ++ rest ∧ rest <+: back := by
    split
    · next last =>
        cases back with
        | nil =>
            rw [List.append_nil, beq_iff_eq] at last
            exact absurd rfl (survives '\r' (List.mem_of_getLast? last)).2.1
        | cons c back =>
            exact ⟨(c :: back).dropLast, List.dropLast_append_of_ne_nil (by simp),
              List.dropLast_prefix _⟩
    · exact ⟨back, rfl, List.prefix_refl back⟩
  obtain ⟨rest, kept, part⟩ := cut
  have absent : mark ∉ front := fun member => (survives mark member).1 rfl
  obtain ⟨tail, stripped, within, apart⟩ := @Dialect.stripComments_append mark marks
    dialect.commentEnd.toList front absent rest
  have same : front.map capital = front :=
    (List.map_congr_left fun c member => (survives c member).2.2).trans (List.map_id front)
  refine ⟨tail.map capital, ?_, ?_, ?_⟩
  · rw [cleanLine, kept, Dialect.strip, opening, stripped, List.map_append, same]
  · intro c member
    obtain ⟨d, inside, rfl⟩ := List.mem_map.mp member
    exact ⟨d, part.subset (within.subset inside), rfl⟩
  · intro blank
    exact (apart visible (blank.of_isPrefix part)).map_capital

/-! ## Many lines -/

theorem readLines_cons (machine : Machine) (tools : List Tool) (state : ReadState) (number : Nat)
    (line : List Char) (lines : List (List Char)) :
    readLines machine tools state number (line :: lines) =
      if lineLimit ≤ byteCount line then .error .lineTooLong
      else readLine machine tools number (cleanLine machine.dialect line) state >>=
        fun state => readLines machine tools state (number + 1) lines := by
  rw [readLines]
  split
  · rfl
  · dsimp only
    split
    · next cause failed =>
        have stopped : readLine machine tools number (cleanLine machine.dialect line) state =
          .error cause := failed
        rw [stopped]
        rfl
    · next after read =>
        have continued : readLine machine tools number (cleanLine machine.dialect line) state =
          .ok after := read
        rw [continued]
        rfl

theorem short_of_readLines {machine : Machine} {tools : List Tool} {state after : ReadState}
    {number : Nat} {lines : List (List Char)}
    (read : readLines machine tools state number lines = .ok after) :
    ∀ line ∈ lines, byteCount line < lineLimit := by
  induction lines generalizing state number with
  | nil => intro line member; cases member
  | cons first lines ih =>
      rw [readLines_cons] at read
      split at read
      · cases read
      · next short =>
          obtain ⟨between, _, rest⟩ := bind_eq_ok.mp read
          intro line member
          rcases List.mem_cons.mp member with rfl | later
          · exact Nat.lt_of_not_le short
          · exact ih rest line later

theorem readLines_append {machine : Machine} {tools : List Tool} {state between : ReadState}
    {number : Nat} {front : List (List Char)}
    (read : readLines machine tools state number front = .ok between) (back : List (List Char)) :
    readLines machine tools state number (front ++ back) =
      readLines machine tools between (number + front.length) back := by
  induction front generalizing state number with
  | nil =>
      cases read
      rfl
  | cons first lines ih =>
      rw [readLines_cons] at read
      rw [List.cons_append, readLines_cons]
      split at read
      · cases read
      · next short =>
          obtain ⟨next, here, rest⟩ := bind_eq_ok.mp read
          rw [if_neg short, here]
          have later := ih rest
          rw [show number + 1 + lines.length = number + (first :: lines).length by
            simp only [List.length_cons]; omega] at later
          exact later

section Vertical

variable {machine : Machine}

theorem axisLetters_vertical (vertical : machine.kinematics = .vertical) :
    machine.axisLetters = ['X', 'Y', 'Z'] := by
  rw [axisLetters, vertical]

theorem position_point (vertical : machine.kinematics = .vertical) (state : ReadState) :
    (state.point machine).position = state.place := by
  rw [ReadState.point, inverse, vertical]
  rfl

theorem place_eq_of_lookup (vertical : machine.kinematics = .vertical) {state other : ReadState}
    (same : ∀ letter ∈ machine.axisLetters, state.axes.lookup letter = other.axes.lookup letter) :
    state.place = other.place := by
  rw [axisLetters_vertical vertical] at same
  simp only [ReadState.place, ReadState.axis, same 'X' (by decide), same 'Y' (by decide),
    same 'Z' (by decide)]

/-- What several lines do to the axes and the points when only the first says anything about the
axes: the points made all lie where the axes end up. -/
structure LinesRead (machine : Machine) (line : List Char) (before after : ReadState) : Prop where
  lookup : ∀ letter ∈ machine.axisLetters,
    after.axes.lookup letter = (wordValue letter line).or (before.axes.lookup letter)
  points : ∃ made, after.points = made ++ before.points ∧
    (∀ point ∈ made, point.position = after.place) ∧
    (made = [] → ∀ letter ∈ machine.axisLetters, ∀ value, wordValue letter line = some value →
      ∃ old, before.axes.lookup letter = some old ∧ (old == value) = true)

/-- The points that a line makes together with the lines behind it. -/
theorem LineRead.made {line : List Char} {before between after : ReadState}
    (spec : LineRead machine line before between) {holds : Point → Prop} {later : List Point}
    (own : holds (between.point machine)) (points : after.points = later ++ between.points)
    (rest : ∀ point ∈ later, holds point) :
    ∃ made, after.points = made ++ before.points ∧ made.length ≤ later.length + 1 ∧
      (∀ point ∈ made, holds point) ∧
      (made = [] → ∀ letter ∈ machine.axisLetters, ∀ value, wordValue letter line = some value →
        ∃ old, before.axes.lookup letter = some old ∧ (old == value) = true) := by
  rcases spec.points with ⟨point, here, first⟩ | ⟨first, unchanged⟩
  · refine ⟨later ++ [point], by rw [points, first]; simp, by simp, ?_, by simp⟩
    intro other member
    rcases List.mem_append.mp member with earlier | last
    · exact rest other earlier
    · rw [List.mem_singleton.mp last, here]
      exact own
  · exact ⟨later, by rw [points, first], Nat.le_succ _, rest, fun _ => unchanged⟩

/-- A line that says nothing about the motion. -/
def Quiet (machine : Machine) (line : List Char) : Prop :=
  'G' ∉ line ∧ ∀ letter ∈ machine.axisLetters, letter ∉ line

/-- Lines that say nothing about the motion only repeat the place reached. -/
theorem readLines_quiet (vertical : machine.kinematics = .vertical) {lines : List (List Char)}
    (short : ∀ line ∈ lines, byteCount line < lineLimit)
    (quiet : ∀ line ∈ lines, Quiet machine (cleanLine machine.dialect line)) (state : ReadState)
    (number : Nat) :
    ∃ after made, readLines machine [] state number lines = .ok after ∧
      (∀ letter ∈ machine.axisLetters, after.axes.lookup letter = state.axes.lookup letter) ∧
      after.points = made ++ state.points ∧ ∀ point ∈ made, point.position = state.place := by
  induction lines generalizing state number with
  | nil => exact ⟨state, [], rfl, fun _ _ => rfl, rfl, fun _ member => by cases member⟩
  | cons line lines ih =>
      have silent := quiet line List.mem_cons_self
      have small := Nat.not_le_of_lt (short line List.mem_cons_self)
      obtain ⟨between, read, spec⟩ := readLine_spec machine number
        (hasCode_of_not_mem silent.1 [['5', '3']]) state
      have kept : ∀ letter ∈ machine.axisLetters,
          between.axes.lookup letter = state.axes.lookup letter := by
        intro letter member
        rw [spec.lookup letter member, wordValue_of_not_mem (silent.2 letter member)]
        rfl
      have still := place_eq_of_lookup vertical kept
      obtain ⟨after, made, rest, lookup, points, placed⟩ :=
        ih (fun other member => short other (List.mem_cons_of_mem _ member))
          (fun other member => quiet other (List.mem_cons_of_mem _ member)) between (number + 1)
      rw [still] at placed
      rw [readLines_cons, if_neg small, read]
      have same : ∀ letter ∈ machine.axisLetters,
          after.axes.lookup letter = state.axes.lookup letter := fun letter member =>
        (lookup letter member).trans (kept letter member)
      -- A quiet line may still make a point, by its feed or speed, but only at the same place.
      obtain ⟨all, total, _, everywhere, _⟩ := spec.made
        ((position_point vertical between).trans still) points placed
      exact ⟨after, all, rest, same, total, everywhere⟩

/-- A line followed by lines that say nothing about the motion. -/
theorem readLines_spec (vertical : machine.kinematics = .vertical) {line : List Char}
    {lines : List (List Char)} (short : ∀ other ∈ line :: lines, byteCount other < lineLimit)
    (relative : isAbsoluteLine (cleanLine machine.dialect line) = false)
    (quiet : ∀ other ∈ lines, Quiet machine (cleanLine machine.dialect other))
    (state : ReadState) (number : Nat) :
    ∃ after, readLines machine [] state number (line :: lines) = .ok after ∧
      LinesRead machine (cleanLine machine.dialect line) state after := by
  obtain ⟨between, read, spec⟩ := readLine_spec machine number relative state
  obtain ⟨after, made, rest, lookup, points, placed⟩ := readLines_quiet vertical
    (fun other member => short other (List.mem_cons_of_mem _ member)) quiet between (number + 1)
  have still : after.place = between.place := place_eq_of_lookup vertical lookup
  have small := Nat.not_le_of_lt (short line List.mem_cons_self)
  refine ⟨after, by rw [readLines_cons, if_neg small, read]; exact rest, ?_, ?_⟩
  · intro letter member
    rw [lookup letter member, spec.lookup letter member]
  · rw [still]
    obtain ⟨all, total, _, everywhere, unchanged⟩ := spec.made
      (position_point vertical between) points placed
    exact ⟨all, total, everywhere, unchanged⟩

end Vertical

end Machine

end Kerf
