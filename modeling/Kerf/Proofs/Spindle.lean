import Kerf.Proofs.Emission

/-!
# The speed of the spindle

A foreign block makes the writer forget the motion but not the speed, and a change of tool makes it
forget the speed as well. So a speed is as old as the last word that states it, and what a
controller makes of it depends on the foreign code behind that word alone.

Main statement: behind every point with a speed, the last speed word of the program states the speed
of the point and was written after the last change of tool.
-/

set_option autoImplicit false

namespace Kerf

open Kerf.Program (Word Entry)

namespace Program

/-! ## The last word of a letter -/

def Entry.tells (letter : String) (entry : Entry) : Bool :=
  (entry.words.map (·.letter)).contains letter

/-- The entries behind the last word of a letter; all of them when there is none. -/
def since (letter : String) (entries : List Entry) : List Entry :=
  (entries.reverse.takeWhile (!·.tells letter)).reverse

theorem tells_of_mem_since {letter : String} {entries : List Entry} {entry : Entry}
    (member : entry ∈ since letter entries) : entry.tells letter = false := by
  have silent := List.all_eq_true.mp
    (List.all_takeWhile (p := (!·.tells letter)) (l := entries.reverse))
  simpa using silent entry (List.mem_reverse.mp member)

private theorem since_append {letter : String} {lines : List Entry}
    (silent : ∀ line ∈ lines, line.tells letter = false) (entries : List Entry) :
    since letter (entries ++ lines) = since letter entries ++ lines := by
  have kept : ∀ line ∈ lines.reverse, (!line.tells letter) = true := by
    intro line member
    simp [silent line (List.mem_reverse.mp member)]
  rw [since, List.reverse_append, List.takeWhile_append_of_pos kept, List.reverse_append,
    List.reverse_reverse, since]

private theorem since_concat {letter : String} {entry : Entry} (tells : entry.tells letter)
    (entries : List Entry) : since letter (entries ++ [entry]) = [] := by
  simp [since, tells]

/-- The last word of a letter among entries: what stands before its line, and the line. -/
structure LastWord (letter value : String) (entries front : List Entry) (words : List Word)
    (change : String) : Prop where
  split : entries = front ++ .move words change :: since letter entries
  once : (words.map (·.letter)).Nodup
  written : ⟨letter, value⟩ ∈ words

theorem LastWord.of_line {letter value : String} {words : List Word}
    (once : (words.map (·.letter)).Nodup) (written : ⟨letter, value⟩ ∈ words) (change : String)
    (front : List Entry) :
    LastWord letter value (front ++ [.move words change]) front words change := by
  have tells : (Entry.move words change).tells letter = true := by
    simp only [Entry.tells, Entry.words, List.contains_eq_mem, decide_eq_true_eq]
    exact List.mem_map_of_mem written
  exact ⟨by rw [since_concat tells], once, written⟩

variable {letter value change : String} {entries front : List Entry} {words : List Word}

theorem LastWord.append (last : LastWord letter value entries front words change)
    {lines : List Entry} (silent : ∀ line ∈ lines, line.tells letter = false) :
    LastWord letter value (entries ++ lines) front words change := by
  refine ⟨?_, last.once, last.written⟩
  rw [since_append silent]
  have longer := congrArg (· ++ lines) last.split
  simpa using longer

/-- There is only one place for the last word of a letter. -/
theorem LastWord.front_eq {held other : String} {before : List Entry} {line : List Word}
    (last : LastWord letter value entries front words change)
    (again : LastWord letter held entries before line other) : before = front := by
  have same := again.split.symm.trans last.split
  exact (List.append_inj' same rfl).1

end Program

namespace Controller

/-! ## Runs behind the last word -/

open Kerf.Program (since LastWord tells_of_mem_since)

/-- What entries may do to the registers when no foreign code among them touches a letter. -/
inductive Spares (letter : String) : Controller → List Entry → Controller → Prop where
  | done {registers : Controller} : Spares letter registers [] registers
  | next {first second last : Controller} {entry : Entry} {rest : List Entry} :
      Step first entry second →
      ((∃ block, entry = .block block) → second letter = first letter) →
      Spares letter second rest last → Spares letter first (entry :: rest) last

variable {letter value change : String} {entries front : List Entry} {words : List Word}
  {start last : Controller}

theorem Spares.of_runs (run : Runs start entries last) (clean : ∀ block, .block block ∉ entries) :
    Spares letter start entries last := by
  induction run with
  | done => exact .done
  | next step rest ih =>
      refine .next step ?_ (ih fun block member => clean block (List.mem_cons_of_mem _ member))
      rintro ⟨block, rfl⟩
      exact absurd List.mem_cons_self (clean block)

theorem Spares.runs (run : Spares letter start entries last) : Runs start entries last := by
  induction run with
  | done => exact .done
  | next step _ _ ih => exact .next step ih

/-- A letter that no word states and no foreign code touches stays as it is. -/
theorem Spares.keeps (run : Spares letter start entries last)
    (silent : ∀ entry ∈ entries, entry.tells letter = false) : last letter = start letter := by
  induction run with
  | done => rfl
  | @next first second last entry rest step kept _ ih =>
      have later : last letter = second letter :=
        ih fun entry member => silent entry (List.mem_cons_of_mem _ member)
      rw [later]
      cases step with
      | block => exact kept ⟨_, rfl⟩
      | line => rfl
      | comment => rfl
      | move =>
          apply obey_of_not_mem
          simpa [Entry.tells, Entry.words] using silent _ List.mem_cons_self

/-- Foreign code may leave everything alone, so that there is a run from every start. -/
theorem exists_spares (letter : String) (start : Controller) (entries : List Entry) :
    ∃ last, Spares letter start entries last := by
  induction entries generalizing start with
  | nil => exact ⟨start, .done⟩
  | cons entry rest ih =>
      cases entry with
      | block text =>
          obtain ⟨last, run⟩ := ih start
          exact ⟨last, .next .block (fun _ => rfl) run⟩
      | line text =>
          obtain ⟨last, run⟩ := ih start
          exact ⟨last, .next .line (fun _ => rfl) run⟩
      | comment text =>
          obtain ⟨last, run⟩ := ih start
          exact ⟨last, .next .comment (fun _ => rfl) run⟩
      | move words change =>
          obtain ⟨last, run⟩ := ih (start.obey words)
          exact ⟨last, .next .move (by simp) run⟩

/-- Whatever happened before it, a controller has obeyed the last word. -/
theorem obeys_lastWord (word : LastWord letter value entries front words change)
    (run : Runs start (front ++ [.move words change]) last) : last letter = value := by
  obtain ⟨middle, _, line⟩ := runs_append.mp run
  cases runs_singleton.mp line with
  | move => exact obey_of_mem middle word.once word.written

/-- A word is kept when the foreign code behind it leaves its letter alone. -/
theorem keeps_lastWord (word : LastWord letter value entries front words change)
    {middle : Controller} (obeyed : Runs start (front ++ [.move words change]) middle)
    (spared : Spares letter middle (since letter entries) last) : last letter = value := by
  rw [spared.keeps fun entry => tells_of_mem_since]
  exact obeys_lastWord word obeyed

/-- A word is certain to be kept only when there is no foreign code behind it. -/
theorem certain_iff (word : LastWord letter value entries front words change) :
    (∀ start last, Runs start entries last → last letter = value) ↔
      ∀ block, .block block ∉ since letter entries := by
  have split : entries = front ++ [.move words change] ++ since letter entries := by
    simpa using word.split
  constructor
  · intro certain block member
    obtain ⟨behind, rest, parts⟩ := List.append_of_mem member
    obtain ⟨reached, early⟩ :=
      exists_spares letter (fun _ => value) (front ++ [.move words change] ++ behind)
    -- The block puts another value in place of the word, and nothing behind it puts it right.
    let spoilt : Controller := fun _ => value ++ "0"
    obtain ⟨final, late⟩ := exists_spares letter spoilt rest
    have silent : ∀ entry ∈ rest, entry.tells letter = false := by
      intro entry member
      have inside : entry ∈ since letter entries := by simp [parts, member]
      exact tells_of_mem_since inside
    have kept : final letter = spoilt letter := late.keeps silent
    have whole : Runs (fun _ => value) entries final := by
      rw [split, parts, ← List.append_assoc]
      exact runs_append.mpr ⟨reached, early.runs, .next .block late.runs⟩
    have same : value ++ "0" = value := kept.symm.trans (certain _ _ whole)
    have lengths := congrArg String.length same
    simp at lengths
  · intro clean start last run
    rw [split] at run
    obtain ⟨middle, obeyed, rest⟩ := runs_append.mp run
    exact keeps_lastWord word obeyed (.of_runs rest clean)

end Controller

namespace Program

/-! ## What every act keeps -/

/-- A value in force for a letter is the one that its last word states, and that word was written
after a mark. -/
structure Told (letter : String) (mark : List Entry) (program : Program) : Prop where
  reached : mark <+: program.entries.toList
  last : ∀ value, program.registers.get? letter = some value →
    ∃ front words change, mark <+: front ∧
      LastWord letter value program.entries.toList front words change

theorem Told.of_unknown {letter : String} {program : Program}
    (unknown : program.registers.get? letter = none) :
    program.Told letter program.entries.toList := by
  refine ⟨List.prefix_rfl, ?_⟩
  intro value inForce
  rw [unknown] at inForce
  cases inForce

/-- Entries without the letter behind a program that only forgets. -/
theorem Told.append {letter : String} {mark lines : List Entry} {program after : Program}
    (told : program.Told letter mark)
    (entries : after.entries.toList = program.entries.toList ++ lines)
    (silent : ∀ line ∈ lines, line.tells letter = false)
    (inForce : ∀ value, after.registers.get? letter = some value →
      program.registers.get? letter = some value) : after.Told letter mark := by
  refine ⟨?_, ?_⟩
  · rw [entries]
    exact told.reached.trans (List.prefix_append _ _)
  · intro value held
    obtain ⟨front, words, change, marked, last⟩ := told.last value (inForce value held)
    exact ⟨front, words, change, marked, entries ▸ last.append silent⟩

end Program

namespace Machine

open Kerf.Program (LastWord since)
open Kerf.Controller (Runs Spares)

variable {program : Program} {mark : List Entry}

private theorem get?_perform_of_still {act : Act} (still : act.target = none) {letter value : String}
    (notTool : letter ≠ "T") {machine : Machine}
    (inForce : (machine.perform program act).registers.get? letter = some value) :
    program.registers.get? letter = some value := by
  have ofForget : ∀ {program : Program} {letters : List String},
      (program.forget letters).registers.get? letter = some value →
        program.registers.get? letter = some value := by
    intro program letters held
    rw [Program.get?_forget] at held
    split at held
    · cases held
    · exact held
  have ofRaw : ∀ {program : Program} {block : String},
      (program.writeRaw block).registers.get? letter = some value →
        program.registers.get? letter = some value := by
    intro program block held
    unfold Program.writeRaw at held
    split at held
    · exact held
    · exact ofForget held
  cases act with
  | note warnings errors => exact inForce
  | raw block => exact ofRaw inForce
  | move tool point values => cases still
  | toolChange tool =>
      cases tool with
      | none => exact inForce
      | some tool =>
          have ofLoaded : ∀ {held : String},
              (program.word "T" (toString tool.number)).1.registers.get? letter = some held →
                program.registers.get? letter = some held := by
            intro held loaded
            rwa [Program.get?_word, if_neg notTool] at loaded
          rw [perform] at inForce
          rcases machine.writeToolChange_cases program tool with
            ⟨_, same⟩ | ⟨_, _, changed⟩ | ⟨_, _, remark, changed⟩
          · rwa [same] at inForce
          · rw [changed] at inForce
            exact ofLoaded (ofForget inForce)
          · rw [changed] at inForce
            have written := ofRaw (ofForget inForce)
            exact ofLoaded written

private theorem writeMove_told {letter : String} (told : program.Told letter mark)
    (machine : Machine) (tool : Option Tool) (point : Point) (values : AxisValues) :
    (machine.writeMove program tool point values).Told letter mark := by
  have spec := moveWords_spec machine program tool point values
  have registers := registers_writeMove machine program tool point values
  obtain ⟨change, _, shape⟩ := writeMove_eq machine program tool point values
  generalize machine.moveWords program tool point values = state at spec registers shape
  by_cases silent : state.2.isEmpty
  · have none : state.2 = [] := by simpa using silent
    have entries : (machine.writeMove program tool point values).entries.toList =
        program.entries.toList ++ [] := by
      rw [shape]
      simp [silent, spec.entries]
    refine told.append entries (by simp) ?_
    intro value held
    rw [registers] at held
    rcases spec.modal.inForce letter value held with written | ⟨_, before⟩
    · rw [none] at written
      cases written
    · exact before
  · have entries : (machine.writeMove program tool point values).entries.toList =
        program.entries.toList ++ [.move state.2 change] := by
      rw [shape]
      simp [silent, spec.entries]
    refine ⟨?_, ?_⟩
    · rw [entries]
      exact told.reached.trans (List.prefix_append _ _)
    · intro value held
      rw [registers] at held
      rw [entries]
      rcases spec.modal.inForce letter value held with written | ⟨absent, before⟩
      · exact ⟨_, _, _, told.reached, .of_line spec.modal.once written change _⟩
      · obtain ⟨front, words, other, marked, last⟩ := told.last value before
        refine ⟨front, words, other, marked, last.append ?_⟩
        intro line member
        rw [List.mem_singleton.mp member]
        simpa [Entry.tells, Entry.words] using absent

/-- One act keeps a letter told, unless it is the letter of the tool: that one is put in force by a
change of tool and stated by no word. -/
theorem perform_told {letter : String} (notTool : letter ≠ "T") (told : program.Told letter mark)
    (machine : Machine) (act : Act) : (machine.perform program act).Told letter mark := by
  cases target : act.target with
  | none =>
      obtain ⟨lines, entries, wordless⟩ := perform_wordless target machine program
      refine told.append entries ?_ fun value => get?_perform_of_still target notTool
      intro line member
      simp [Entry.tells, wordless line member]
  | some place =>
      cases act with
      | move tool point values => exact writeMove_told told machine tool point values
      | toolChange tool => cases target
      | raw block => cases target
      | note warnings errors => cases target

theorem performAll_told {letter : String} (notTool : letter ≠ "T")
    (told : program.Told letter mark) (machine : Machine) (acts : List Act) :
    (machine.performAll program acts).Told letter mark := by
  induction acts generalizing program with
  | nil => exact told
  | cons act acts ih => exact ih (perform_told notTool told machine act)

/-- A change of tool that takes place leaves no speed in force. -/
theorem get?_speed_writeToolChange {tool : Tool}
    (changes : program.registers.get? "T" ≠ some (toString tool.number)) (machine : Machine) :
    (machine.writeToolChange program (some tool)).registers.get? "S" = none := by
  rcases machine.writeToolChange_cases program tool with
    ⟨held, _⟩ | ⟨_, _, changed⟩ | ⟨_, _, remark, changed⟩
  · exact absurd held changes
  · rw [changed, Program.get?_forget, if_pos (by simp)]
  · rw [changed, Program.get?_forget, if_pos (by simp)]

private theorem get?_speed_writeMove {tool : Option Tool} {point : Point}
    (driven : effectiveSpeed tool point >= 0) (machine : Machine) (program : Program)
    (values : AxisValues) :
    (machine.writeMove program tool point values).registers.get? "S" =
      some (program.dialect.format (effectiveSpeed tool point)) := by
  rw [registers_writeMove]
  exact (moveWords_spec machine program tool point values).speed driven

/-- The speed is as fresh as its last word. In a session of calls on a new program, once a point with
a speed has been written, the last speed word of the program states that speed, and it stands behind
all that was written up to any change of tool that took place. So a controller runs at that speed
when the foreign code behind this word leaves the speed alone, whatever the code before it did; and
it is bound to do so only when there is no such code. -/
theorem session_speed (machine : Machine) (dialect : Dialect) (ignore : List String)
    (calls : List Call) :
    let fresh := Program.empty dialect ignore
    let acts := machine.sessionActs fresh calls
    machine.session fresh calls = machine.performAll fresh acts ∧
    (∀ rotary tool points,
      ((machine.moveActs rotary tool points).filterMap Act.target).map (·.1) = points) ∧
    ∀ earlier tool point values later, acts = earlier ++ .move tool point values :: later →
      effectiveSpeed tool point >= 0 →
      let after := machine.performAll fresh (earlier ++ [.move tool point values])
      let speed := dialect.format (effectiveSpeed tool point)
      let behind := since "S" after.entries.toList
      ∃ front words change,
        after.entries.toList = front ++ .move words change :: behind ∧
        ⟨"S", speed⟩ ∈ words ∧
        (∀ sooner next rest, earlier = sooner ++ .toolChange (some next) :: rest →
          (machine.performAll fresh sooner).registers.get? "T" ≠ some (toString next.number) →
          (machine.performAll fresh (sooner ++ [.toolChange (some next)])).entries.toList <+:
            front) ∧
        (∀ start middle controller, Runs start (front ++ [.move words change]) middle →
          Spares "S" middle behind controller → controller "S" = speed) ∧
        ((∀ start controller, Runs start after.entries.toList controller →
            controller "S" = speed) ↔
          ∀ block, .block block ∉ behind) := by
  intro fresh acts
  refine ⟨machine.session_eq fresh calls, machine.points_moveActs, ?_⟩
  intro earlier tool point values later _ driven after speed behind
  have inForce : after.registers.get? "S" = some speed := by
    have written := get?_speed_writeMove driven machine (machine.performAll fresh earlier) values
    rw [dialect_performAll] at written
    simp only [after, performAll_append]
    exact written
  have told : after.Told "S" fresh.entries.toList :=
    performAll_told (by decide) (.of_unknown rfl) machine _
  obtain ⟨front, words, change, _, last⟩ := told.last speed inForce
  refine ⟨front, words, change, last.split, last.written, ?_, ?_, Controller.certain_iff last⟩
  · intro sooner next rest parts changes
    have unknown :
        (machine.performAll fresh (sooner ++ [.toolChange (some next)])).registers.get? "S" =
          none := by
      rw [performAll_append]
      exact get?_speed_writeToolChange changes machine
    have since : after.Told "S"
        (machine.performAll fresh (sooner ++ [.toolChange (some next)])).entries.toList := by
      have parted : after = machine.performAll
          (machine.performAll fresh (sooner ++ [.toolChange (some next)]))
          (rest ++ [.move tool point values]) := by
        rw [← performAll_append]
        simp [after, parts]
      rw [parted]
      exact performAll_told (by decide) (.of_unknown unknown) machine _
    obtain ⟨before, _, _, marked, again⟩ := since.last speed inForce
    exact last.front_eq again ▸ marked
  · intro start middle controller obeyed spared
    exact Controller.keeps_lastWord last obeyed spared

/-- A tool is changed for another one that runs as fast: the block of the change and the code of the
point may do anything to the speed, which the move then states again. -/
theorem session_speed_changedTool :
    let dialect : Dialect :=
      { commentStart := "(", commentEnd := ")", toolChange := "T%d M06", speedChange := "M03",
        precision := 3 }
    let machine : Machine := ⟨dialect, .vertical⟩
    let mill : Tool :=
      { identity := 0, name := "mill", number := 1, tip := .square, width := 2, speed := 12000 }
    let drill : Tool := { mill with identity := 1, name := "drill", number := 2 }
    let point : Point := { position := ⟨0, 0, 1⟩, direction := Vec.zAxis }
    let cooled : Point := { point with preCode := "M8" }
    let move : Act := .move (some drill) cooled ⟨cooled.position, .home⟩
    ∃ earlier later,
      machine.sessionActs (.empty dialect [])
          [.moves (some mill) [point], .toolChange (some drill), .moves (some drill) [cooled]] =
        earlier ++ move :: later ∧
      effectiveSpeed (some drill) cooled >= 0 ∧
      ∀ start controller,
        Runs start (machine.performAll (.empty dialect []) (earlier ++ [move])).entries.toList
          controller →
        controller "S" = "12000" := by
  intro dialect machine mill drill point cooled move
  let earlier : List Act :=
    [.note [] [], .raw "", .move (some mill) point ⟨point.position, .home⟩, .raw "",
      .toolChange (some drill), .note [] [], .raw "M8"]
  have upright : Vec.zAxis.isVertical = true := by decide +kernel
  have acts : machine.sessionActs (.empty dialect [])
      [.moves (some mill) [point], .toolChange (some drill), .moves (some drill) [cooled]] =
        earlier ++ move :: [.raw ""] := by
    simp [sessionActs, callActs, moveActs, pointActs, solveAxes, forward, upright, earlier, move,
      machine, cooled, point]
  have driven : effectiveSpeed (some drill) cooled >= 0 := by decide +kernel
  have text : dialect.format (effectiveSpeed (some drill) cooled) = "12000" := by decide +kernel
  have restated :
      since "S" (machine.performAll (.empty dialect []) (earlier ++ [move])).entries.toList =
        [] := by decide +kernel
  refine ⟨earlier, [.raw ""], acts, driven, ?_⟩
  intro start controller run
  obtain ⟨_, _, _, _, _, _, _, certain⟩ := (session_speed machine dialect []
    [.moves (some mill) [point], .toolChange (some drill), .moves (some drill) [cooled]]).2.2
    earlier (some drill) cooled ⟨cooled.position, .home⟩ [.raw ""] acts driven
  have clean : ∀ block, Entry.block block ∉
      since "S" (machine.performAll (.empty dialect []) (earlier ++ [move])).entries.toList := by
    simp [restated]
  exact (certain.mpr clean start controller run).trans text

/-- Code in front of a point sets the speed, and the move to the point does not state it again. -/
theorem session_speed_stale :
    let dialect : Dialect := { commentStart := "(", speedChange := "M03", precision := 3 }
    let machine : Machine := ⟨dialect, .vertical⟩
    let mill : Tool :=
      { identity := 0, name := "mill", number := 1, tip := .square, width := 2, speed := 12000,
        feedCut := 600 }
    let first : Point := { position := ⟨0, 0, 1⟩, direction := Vec.zAxis }
    let second : Point :=
      { position := ⟨5, 0, 1⟩, direction := Vec.zAxis, preCode := "S500 M03" }
    let move : Act := .move (some mill) second ⟨second.position, .home⟩
    ∃ earlier later,
      machine.sessionActs (.empty dialect []) [.moves (some mill) [first, second]] =
        earlier ++ move :: later ∧
      effectiveSpeed (some mill) second >= 0 ∧
      ∃ start controller,
        Runs start (machine.performAll (.empty dialect []) (earlier ++ [move])).entries.toList
          controller ∧
        controller "S" ≠ dialect.format (effectiveSpeed (some mill) second) := by
  intro dialect machine mill first second move
  let earlier : List Act :=
    [.note [] [], .raw "", .move (some mill) first ⟨first.position, .home⟩, .raw "",
      .note [] [], .raw "S500 M03"]
  have entries : (machine.performAll (.empty dialect []) (earlier ++ [move])).entries.toList =
      [.move [⟨"G", "01"⟩, ⟨"X", "0"⟩, ⟨"Y", "0"⟩, ⟨"Z", "1"⟩, ⟨"F", "600"⟩, ⟨"S", "12000"⟩] "M03",
        .block "S500 M03",
        .move [⟨"G", "01"⟩, ⟨"X", "5"⟩, ⟨"Y", "0"⟩, ⟨"Z", "1"⟩, ⟨"F", "600"⟩] ""] := by
    decide +kernel
  have text : dialect.format (effectiveSpeed (some mill) second) = "12000" := by decide +kernel
  have upright : Vec.zAxis.isVertical = true := by decide +kernel
  have acts : machine.sessionActs (.empty dialect []) [.moves (some mill) [first, second]] =
      earlier ++ move :: [.raw ""] := by
    simp [sessionActs, callActs, moveActs, pointActs, solveAxes, forward, upright, earlier, move,
      machine, first, second]
  refine ⟨earlier, [.raw ""], acts, by decide +kernel, fun _ => "", ?_⟩
  refine ⟨Controller.obey (fun _ => "500")
    [⟨"G", "01"⟩, ⟨"X", "5"⟩, ⟨"Y", "0"⟩, ⟨"Z", "1"⟩, ⟨"F", "600"⟩], ?_, ?_⟩
  · rw [entries]
    exact .next .move (.next .block (.next .move .done))
  · rw [text]
    decide

end Machine

end Kerf
