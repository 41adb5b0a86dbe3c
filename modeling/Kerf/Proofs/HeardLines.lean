import Kerf.Proofs.RoundTrip

/-!
# What is heard in a line

How the reader takes the mode and the feed of the words of a line, which points it makes of them, and
how many bytes a line of few words has.
-/

set_option autoImplicit false

namespace Kerf

open Kerf.Program (Word Entry)
open Kerf.Text
open Kerf.Yaml (floatOf)

namespace Machine

/-! ## The mode and the feed of a line -/

private theorem rapid_readMode (line : List Char) (state : ReadState) {rapid : Bool}
    (toRapid : isRapidLine line = rapid) (toFeed : isFeedLine line = !rapid) :
    (readMode line state).1.rapid = rapid := by
  unfold readMode
  rw [toRapid, toFeed]
  cases rapid <;> cases held : state.rapid <;> simp [held]

theorem rapid_readMode_of_not_mem {line : List Char} (silent : 'G' ∉ line) (state : ReadState) :
    (readMode line state).1.rapid = state.rapid := by
  have none := hasCode_of_not_mem silent
  simp [readMode, isRapidLine, isFeedLine, none]

/-- The feed after a line. -/
def heardFeed (line : List Char) (feed : Float) : Float :=
  match wordValue 'F' line with
  | some number => if number != feed then number else feed
  | none => feed

/-- The feed of the points that are made next. -/
def ReadState.motionFeed (state : ReadState) : Float := if state.rapid then 0 else state.feed

private theorem settings_frame (line : List Char) (state : ReadState × Bool) :
    (readSettings line state).1.rapid = state.1.rapid ∧
      (readSettings line state).1.feed = heardFeed line state.1.feed := by
  have speed : ∀ other : ReadState × Bool,
      (readSetting 'S' (·.speed) (fun speed state => { state with speed }) line other).1.rapid =
        other.1.rapid ∧
      (readSetting 'S' (·.speed) (fun speed state => { state with speed }) line other).1.feed =
        other.1.feed := by
    intro other
    unfold readSetting
    split
    · split <;> exact ⟨rfl, rfl⟩
    · exact ⟨rfl, rfl⟩
  obtain ⟨rapid, feed⟩ := speed
    (readSetting 'F' (·.feed) (fun feed state => { state with feed }) line state)
  unfold readSettings
  rw [rapid, feed]
  unfold readSetting heardFeed
  cases wordValue 'F' line with
  | none => exact ⟨rfl, rfl⟩
  | some number =>
      dsimp only
      split <;> exact ⟨rfl, rfl⟩

theorem not_mem_of_isAllBlank {line : List Char} (blank : isAllBlank line = true) {letter : Char}
    (visible : isBlank letter = false) : letter ∉ line := by
  intro inside
  rw [List.all_eq_true.mp blank letter inside] at visible
  cases visible

/-- What a line does to the mode and the feed. -/
theorem readLine_heard {machine : Machine} {number : Nat} {line : List Char}
    (relative : isAbsoluteLine line = false) {state after : ReadState}
    (read : readLine machine [] number line state = .ok after) :
    after.rapid = (readMode line state).1.rapid ∧ after.feed = heardFeed line state.feed := by
  cases blank : isAllBlank line with
  | true =>
      rw [readLine, blank] at read
      cases read
      rw [rapid_readMode_of_not_mem (not_mem_of_isAllBlank blank (by decide)), heardFeed,
        wordValue_of_not_mem (not_mem_of_isAllBlank blank (by decide))]
      exact ⟨rfl, rfl⟩
  | false =>
      rw [readLine_eq machine number state blank relative] at read
      obtain ⟨axes, frame⟩ := (axesRead_foldl line machine.axisLetters (readMode line state)).frame
      obtain ⟨rapid, mode⟩ := readMode_frame line state
      have settings := settings_frame line
        (machine.axisLetters.foldl (readAxis line) (readMode line state))
      rw [frame] at settings
      have feed : (readMode line state).1.feed = state.feed := by rw [mode]
      dsimp only at settings read
      rw [feed] at settings
      split at read
      · cases read
        exact settings
      · cases read
        exact settings

section Lines

variable {machine : Machine} {state after : ReadState} {number : Nat}

theorem feed_point (machine : Machine) (state : ReadState) :
    (state.point machine).feed = state.motionFeed := rfl

/-- Lines without a mode and a feed leave both as they are, for the points that they make too. -/
theorem readLines_still {lines : List (List Char)}
    (silent : ∀ line ∈ lines, 'G' ∉ cleanLine machine.dialect line ∧
      'F' ∉ cleanLine machine.dialect line)
    (read : readLines machine [] state number lines = .ok after) :
    after.rapid = state.rapid ∧ after.feed = state.feed ∧
      ∃ made, after.points = made ++ state.points ∧ made.length ≤ lines.length ∧
        ∀ point ∈ made, point.feed = state.motionFeed := by
  induction lines generalizing state number with
  | nil =>
      cases read
      exact ⟨rfl, rfl, [], rfl, Nat.le_refl 0, fun _ member => by cases member⟩
  | cons line lines ih =>
      obtain ⟨modeless, feedless⟩ := silent line List.mem_cons_self
      rw [readLines_cons] at read
      split at read
      · cases read
      · obtain ⟨between, here, rest⟩ := bind_eq_ok.mp read
        have relative := hasCode_of_not_mem modeless [['5', '3']]
        obtain ⟨rapid, feed⟩ := readLine_heard relative here
        rw [rapid_readMode_of_not_mem modeless] at rapid
        rw [heardFeed, wordValue_of_not_mem feedless] at feed
        have same : between.motionFeed = state.motionFeed := by
          rw [ReadState.motionFeed, rapid, feed, ReadState.motionFeed]
        obtain ⟨rapidLater, feedLater, made, points, few, feeds⟩ :=
          ih (fun other member => silent other (List.mem_cons_of_mem _ member)) rest
        rw [same] at feeds
        refine ⟨rapidLater.trans rapid, feedLater.trans feed, ?_⟩
        obtain ⟨_, again, spec⟩ := readLine_spec machine number relative state
        rw [here] at again
        cases again
        obtain ⟨all, total, more, everywhere, _⟩ := spec.made
          ((feed_point machine between).trans same) points feeds
        exact ⟨all, total, more.trans (Nat.succ_le_succ few), everywhere⟩

/-- What a line that may have a mode and a feed does together with the lines behind it. -/
theorem readLines_heard {line : List Char} {lines : List (List Char)}
    (relative : isAbsoluteLine (cleanLine machine.dialect line) = false)
    (silent : ∀ line ∈ lines, 'G' ∉ cleanLine machine.dialect line ∧
      'F' ∉ cleanLine machine.dialect line)
    (read : readLines machine [] state number (line :: lines) = .ok after) :
    after.rapid = (readMode (cleanLine machine.dialect line) state).1.rapid ∧
      after.feed = heardFeed (cleanLine machine.dialect line) state.feed ∧
      ∃ made, after.points = made ++ state.points ∧ made.length ≤ lines.length + 1 ∧
        (∀ point ∈ made, point.feed = after.motionFeed) ∧
        (made = [] → ∀ letter ∈ machine.axisLetters, ∀ value,
          wordValue letter (cleanLine machine.dialect line) = some value →
            ∃ old, state.axes.lookup letter = some old ∧ (old == value) = true) := by
  rw [readLines_cons] at read
  split at read
  · cases read
  · obtain ⟨between, here, rest⟩ := bind_eq_ok.mp read
    obtain ⟨rapid, feed⟩ := readLine_heard relative here
    obtain ⟨rapidLater, feedLater, made, points, few, feeds⟩ := readLines_still silent rest
    have same : after.motionFeed = between.motionFeed := by
      rw [ReadState.motionFeed, rapidLater, feedLater, ReadState.motionFeed]
    obtain ⟨_, again, spec⟩ := readLine_spec machine number relative state
    rw [here] at again
    cases again
    refine ⟨rapidLater.trans rapid, feedLater.trans feed, ?_⟩
    rw [same]
    obtain ⟨all, total, more, everywhere, unchanged⟩ := spec.made
      (feed_point machine between) points feeds
    exact ⟨all, total, more.trans (Nat.succ_le_succ few), everywhere, unchanged⟩

end Lines

/-! ## The words of a line -/

/-- What is heard in a line of words. -/
structure Conveys (words : List Word) (line : List Char) : Prop where
  mode : ∀ rapid, modeWord rapid ∈ words → ∀ state, (readMode line state).1.rapid = rapid
  modeless : "G" ∉ words.map (·.letter) → ∀ state, (readMode line state).1.rapid = state.rapid
  number : ∀ letter ∈ ['F', 'X', 'Y', 'Z'], ∀ text, ⟨String.singleton letter, text⟩ ∈ words →
    wordValue letter line = floatOf text.toList
  feedless : "F" ∉ words.map (·.letter) → wordValue 'F' line = none

section Words

variable {dialect : Dialect} {words : List Word} {later : List (List Char)} {first : List Char}
  {others : List (List Char)}

theorem WordLine.conveys (shape : WordLine ('F' :: trackedLetters) words later)
    (printed : Printed dialect words later first others) :
    Conveys words (cleanLine dialect first) := by
  constructor
  · intro rapid member state
    obtain ⟨⟨lead, tail, cleaned, early, late, apart⟩, _⟩ :=
      printed.spoken member (spelled_modeWord rapid) (shape.silent (by decide))
    obtain ⟨_, toRapid, toFeed⟩ := hasCode_mode early late apart rapid
    rw [cleaned]
    apply rapid_readMode
    · cases rapid <;> exact toRapid
    · cases rapid <;> exact toFeed
  · intro absent state
    have missing : String.singleton 'G' ∉ words.map (·.letter) := absent
    exact rapid_readMode_of_not_mem (printed.unspoken (by decide) (by decide) missing
      (shape.silent (by decide))).1 state
  · intro letter listed text member
    obtain ⟨own, numeral, spells⟩ := shape.spelled _ member
    have same : letter = own := singleton_inj spells.letter
    subst same
    have part : ['F', 'X', 'Y', 'Z'] ⊆ 'F' :: trackedLetters := by decide
    have said := printed.wordValue member spells (shape.silent (part listed))
    exact said
  · intro absent
    have missing : String.singleton 'F' ∉ words.map (·.letter) := absent
    exact wordValue_of_not_mem (printed.unspoken (by decide) (by decide) missing
      (shape.silent (by decide))).1

/-- Without a line end in the texts behind the words there is one line. -/
theorem Printed.single (printed : Printed dialect words later first others)
    (unbroken : ∀ text ∈ later, '\n' ∉ text) : others = [] := by
  obtain ⟨_, spelled, _, number, pieces⟩ := printed
  obtain ⟨lead, rest, printed, part, plain⟩ := @Program.printLine_append dialect number [] (by simp)
    (lineOf words later)
  have absent : '\n' ∉ (Program.printLine dialect number (lineOf words later)).2 := by
    rw [← List.nil_append (lineOf words later), printed, List.nil_append]
    intro member
    rcases List.mem_append.mp member with digits | inside
    · exact absurd (plain '\n' digits).1 (by decide)
    · rcases mem_intercalate_blank (part.subset inside) with blank | ⟨text, listed, here⟩
      · exact absurd blank (by decide)
      · rcases List.mem_append.mp listed with spoken | behind
        · obtain ⟨word, own, rfl⟩ := List.mem_map.mp spoken
          obtain ⟨_, _, spells⟩ := spelled word own
          exact absurd (spells.isPlainChar here) (by decide)
        · exact unbroken text behind here
  rw [splitAt_of_not_mem absent] at pieces
  exact (List.cons.inj pieces).2.symm

/-- What reading a line of words does to the mode and the feed, and which points it makes. -/
theorem WordLine.heard {machine : Machine} (shape : WordLine ('F' :: trackedLetters) words later)
    (marked : CommentsApart machine.dialect) {number : Int64} {count : Nat} {state next : ReadState}
    (read : readLines machine [] state count
      (codeOf machine.dialect number [lineOf words later]) = .ok next) :
    ∃ line, Conveys words line ∧ next.rapid = (readMode line state).1.rapid ∧
      next.feed = heardFeed line state.feed ∧
      ∃ made, next.points = made ++ state.points ∧
        ((∀ text ∈ later, '\n' ∉ text) → made.length ≤ 1) ∧
        (∀ point ∈ made, point.feed = next.motionFeed) ∧
        (made = [] → ∀ letter ∈ machine.axisLetters, ∀ value, wordValue letter line = some value →
          ∃ old, state.axes.lookup letter = some old ∧ (old == value) = true) := by
  obtain ⟨first, others, pieces, printed⟩ :=
    exists_printed marked shape.spelled shape.once later number
  have silent {letter : Char} (listed : letter ∈ 'F' :: trackedLetters)
      (upper : letter.isUpper = true) (named : letter ≠ 'N') :
      ∀ other ∈ others, letter ∉ cleanLine machine.dialect other := fun other member =>
    not_mem_cleanLine marked (printed.others_silent upper named (shape.silent listed) other member)
  have behind : ∀ other ∈ others, 'G' ∉ cleanLine machine.dialect other ∧
      'F' ∉ cleanLine machine.dialect other := fun other member =>
    ⟨silent (by decide) (by decide) (by decide) other member,
      silent (by decide) (by decide) (by decide) other member⟩
  have relative := printed.relative shape.mode (shape.silent (by decide))
  rw [codeOf_singleton, pieces] at read
  obtain ⟨rapid, feed, made, points, few, feeds, still⟩ := readLines_heard relative behind read
  refine ⟨_, shape.conveys printed, rapid, feed, made, points, ?_, feeds, still⟩
  intro unbroken
  rw [printed.single unbroken] at few
  exact few

end Words

end Machine

/-! ## Bytes of a line -/

theorem Program.length_toString_int64 (number : Int64) : (toString number.toInt).toList.length ≤ 20 := by
  have low := number.le_toInt
  have high := number.toInt_lt
  have digits : ∀ n : Nat, n ≤ 2 ^ 63 → n.repr.toList.length ≤ 19 := by
    intro n small
    rw [Nat.toList_repr]
    exact (Decimal.digitCount_le_iff (by decide : 0 < 19)).mpr (Nat.lt_of_le_of_lt small (by decide))
  cases shape : number.toInt with
  | ofNat n =>
      rw [shape, Int.ofNat_eq_natCast] at high
      have least := digits n (by omega)
      change n.repr.toList.length ≤ 20
      omega
  | negSucc n =>
      have least := digits (n + 1) (by omega)
      change ("-" ++ (n + 1).repr).toList.length ≤ 20
      rw [String.toList_append, List.length_append]
      have one : "-".toList.length = 1 := rfl
      omega

namespace Machine

theorem byteCount_eq (text : List Char) : byteCount text = (text.map Char.utf8Size).sum := by
  suffices general : ∀ count, text.foldl (fun count c => count + c.utf8Size) count =
      count + (text.map Char.utf8Size).sum by simpa [byteCount] using general 0
  induction text with
  | nil => intro count; rfl
  | cons c text ih =>
      intro count
      rw [List.foldl_cons, ih, List.map_cons, List.sum_cons, Nat.add_assoc]

theorem byteCount_cons (c : Char) (text : List Char) :
    byteCount (c :: text) = c.utf8Size + byteCount text := by
  rw [byteCount_eq, byteCount_eq, List.map_cons, List.sum_cons]

theorem byteCount_append (front back : List Char) :
    byteCount (front ++ back) = byteCount front + byteCount back := by
  simp only [byteCount_eq, List.map_append, List.sum_append]

theorem byteCount_le_of_sublist {part text : List Char} (part_of : part.Sublist text) :
    byteCount part ≤ byteCount text := by
  rw [byteCount_eq, byteCount_eq]
  exact (part_of.map _).sum_le_sum fun _ _ => Nat.zero_le _

theorem byteCount_of_plain {text : List Char} (plain : ∀ c ∈ text, isPlainChar c = true) :
    byteCount text = text.length := by
  induction text with
  | nil => rfl
  | cons c text ih =>
      have one : c.utf8Size = 1 := by
        have small : c.toNat < 97 := toNat_lt_of_isPlainChar (plain c List.mem_cons_self)
        exact Char.utf8Size_eq_one_iff.mpr (UInt32.le_iff_toNat_le.mpr (by change c.toNat ≤ 127; omega))
      rw [byteCount_cons, ih fun d member => plain d (List.mem_cons_of_mem _ member), one,
        List.length_cons, Nat.add_comm]

private theorem byteCount_printLine (dialect : Dialect) (number : Int64) (line : List Char) :
    byteCount (Program.printLine dialect number line).2 ≤ 22 + byteCount line := by
  have part := trimEnd_prefix (fun c => c == ' ' || c == '\t') line
  have kept := byteCount_le_of_sublist part.sublist
  unfold Program.printLine
  dsimp only
  split
  · have digits := Program.length_toString_int64 (number + dialect.lineStep)
    have plain : byteCount (toString (number + dialect.lineStep).toInt).toList =
        (toString (number + dialect.lineStep).toInt).toList.length := by
      apply byteCount_of_plain
      intro c member
      rcases Program.mem_toString_int member with rfl | digit
      · rfl
      · exact isPlainChar_of_isDigit digit
    have mark : 'N'.utf8Size = 1 := by decide
    have blank : ' '.utf8Size = 1 := by decide
    rw [List.cons_append, byteCount_cons, byteCount_append, byteCount_cons, mark, blank, plain]
    omega
  · exact Nat.le_trans kept (Nat.le_add_left _ _)

private theorem byteCount_intercalate (texts : List (List Char)) :
    byteCount ([' '].intercalate texts) ≤ (texts.map fun text => byteCount text + 1).sum := by
  induction texts with
  | nil => exact Nat.le_refl 0
  | cons text texts ih =>
      rw [List.map_cons, List.sum_cons]
      cases texts with
      | nil =>
          rw [List.intercalate_singleton]
          exact Nat.le_add_right _ _ |>.trans (Nat.le_add_right _ _)
      | cons next texts =>
          have blank : byteCount [' '] = 1 := by decide
          rw [List.intercalate_cons_cons, byteCount_append, byteCount_append, blank]
          omega

/-- Entries whose lines of code all stay below the limit, whatever number they start with. -/
def Brief (dialect : Dialect) (entries : List Entry) : Prop :=
  ∀ number, ∀ line ∈ codeOf dialect number (entries.flatMap (Entry.lines dialect)),
    byteCount line < lineLimit

theorem brief_nil (dialect : Dialect) : Brief dialect [] := by
  intro number line member
  cases member

/-- A line of few words, none of them long. -/
theorem brief_move {dialect : Dialect} {words : List Word} {change : String}
    (few : words.length ≤ 6) (short : ∀ word ∈ words, byteCount word.text.toList ≤ 327)
    (room : byteCount change.toList + 4096 ≤ lineLimit) :
    Brief dialect [.move words change] := by
  intro number line member
  have shape := lines_move dialect words [] change
  rw [List.append_nil] at shape
  rw [List.flatMap_singleton, shape, codeOf_singleton] at member
  have total : ((words.map (·.text.toList)).map fun text => byteCount text + 1).sum ≤
      words.length * 328 := by
    have bound := List.sum_le_card_nsmul
      ((words.map (·.text.toList)).map fun text => byteCount text + 1) 328 (by
        intro size listed
        obtain ⟨text, inside, rfl⟩ := List.mem_map.mp listed
        obtain ⟨word, own, rfl⟩ := List.mem_map.mp inside
        have := short word own
        omega)
    simpa using bound
  have rest : ((laterTexts [] change).map fun text => byteCount text + 1).sum ≤
      byteCount change.toList + 1 := by
    unfold laterTexts
    split
    · exact Nat.zero_le _
    · simp
  have whole := byteCount_intercalate (words.map (·.text.toList) ++ laterTexts [] change)
  rw [List.map_append, List.sum_append] at whole
  have printed := byteCount_printLine dialect number (lineOf words (laterTexts [] change))
  have piece := byteCount_le_of_sublist (of_mem_splitAt member).2
  rw [← lineOf] at whole
  omega

end Machine

end Kerf
