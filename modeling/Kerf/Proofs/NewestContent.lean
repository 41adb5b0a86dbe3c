import Kerf.Output.Writer
import Mathlib.Data.List.Induction

/-!
# The newest content wins

Submissions and closing come at any time between the steps of a writer. What is known in between is
an invariant with one clause for each phase: as long as nothing newer is pending, the content in hand
is the newest one and is not cancelled, and the temporary file holds exactly the bytes written so far.

Main statement: `newest_content_written`. The output file never holds part of a content, a writer that
has come to rest has written the newest one, and a writer that is left alone comes to rest.
-/

set_option autoImplicit false

namespace Kerf.Output

/-- What can happen to a writer. -/
inductive Event where
  | submit (content : ByteArray)
  | close
  | step

/-- A writer with the contents that it has accepted so far, the oldest first. -/
structure History where
  writer : Writer
  accepted : List ByteArray := []

namespace History

/-- What an event makes of a writer whose file operations succeed. A refused submission changes
nothing. -/
def react (history : History) : Event → History
  | .submit content =>
      match history.writer.submit content with
      | .ok writer => { writer, accepted := history.accepted ++ [content] }
      | .error _ => history
  | .close => { history with writer := history.writer.close }
  | .step => { history with writer := history.writer.step {} }

def after (initial : Option ByteArray) (events : List Event) : History :=
  events.foldl react { writer := { file := initial } }

private theorem after_concat (initial : Option ByteArray) (events : List Event) (event : Event) :
    after initial (events ++ [event]) = (after initial events).react event := by
  rw [after, List.foldl_append]
  rfl

end History

/-! ## What is known between two events -/

/-- Whether a file holds the newest of the accepted contents, if there are any. -/
def Current (accepted : List ByteArray) (file : Option ByteArray) : Prop :=
  ∀ newest, accepted.getLast? = some newest → file = some newest

/-- What is known of the content in hand, given what is pending and which write is cancelled next. It
is cancelled exactly if there is something newer. -/
structure InHand (accepted : List ByteArray) (pending : Option ByteArray) (cancels : Option Nat)
    (write : Write) : Prop where
  member : write.content ∈ accepted
  handle : cancels = some write.handle
  superseded : write.cancelled = pending.isSome
  newest : pending = none → accepted.getLast? = some write.content

/-- What is known in each phase. No write fails. -/
def Stage (accepted : List ByteArray) (writer : Writer) : Phase → Prop
  | .idle => writer.temporary = none ∧ writer.pending = none ∧ Current accepted writer.file
  | .taking | .recording .completed =>
      writer.temporary = none ∧ (writer.pending = none → Current accepted writer.file)
  | .creating write =>
      writer.temporary = none ∧ InHand accepted writer.pending writer.cancels write
  | .checking write written | .writing write written =>
      writer.temporary = some (write.content.extract 0 written) ∧ written ≤ write.content.size ∧
        InHand accepted writer.pending writer.cancels write
  | .placing write =>
      writer.temporary = some write.content ∧ InHand accepted writer.pending writer.cancels write
  | .discarding .cancelled => writer.pending ≠ none
  | .recording .cancelled => writer.temporary = none ∧ writer.pending ≠ none
  | .discarding _ | .recording .failed => False

/-- The contents in hand, of which there is at most one. -/
def Phase.inHand : Phase → Nat
  | .idle | .taking => 0
  | _ => 1

structure Sound (initial : Option ByteArray) (history : History) : Prop where
  running : history.writer.running = false ↔ history.writer.phase = .idle
  pending : ∀ content, history.writer.pending = some content →
    history.accepted.getLast? = some content
  whole : history.writer.file = initial ∨
    ∃ content ∈ history.accepted, history.writer.file = some content
  counts : history.writer.completed + history.writer.cancelled + history.writer.phase.inHand +
    history.writer.pending.toList.length ≤ history.accepted.length
  stage : Stage history.accepted history.writer history.writer.phase

private theorem sound_start (initial : Option ByteArray) :
    Sound initial { writer := { file := initial } } := by
  constructor
  case running => exact iff_of_true rfl rfl
  case pending => intro content impossible; cases impossible
  case whole => exact .inl rfl
  case counts => exact Nat.le_refl _
  case stage => exact ⟨rfl, rfl, fun newest impossible => by cases impossible⟩

/-! ## Submitting and closing -/

/-- What a submission makes of the phase of a running writer. -/
theorem elim_cancel_cases (cancels : Option Nat) (phase : Phase) :
    cancels.elim phase (phase.cancel ·) = phase ∨
      ∃ handle, cancels = some handle ∧ cancels.elim phase (phase.cancel ·) = phase.cancel handle := by
  cases cancels with
  | none => exact .inl rfl
  | some handle => exact .inr ⟨handle, rfl, rfl⟩

private theorem inHand_elim_cancel (cancels : Option Nat) (phase : Phase) :
    (cancels.elim phase (phase.cancel ·)).inHand = phase.inHand := by
  rcases elim_cancel_cases cancels phase with same | ⟨handle, _, same⟩
  · rw [same]
  · rw [same]
    cases phase <;> rfl

private theorem elim_cancel_eq_idle {cancels : Option Nat} {phase : Phase} :
    cancels.elim phase (phase.cancel ·) = .idle ↔ phase = .idle := by
  rcases elim_cancel_cases cancels phase with same | ⟨handle, _, same⟩
  · rw [same]
  · rw [same]
    cases phase <;> simp [Phase.cancel]

theorem elim_cancel_of_inert {phase : Phase} (inert : ∀ handle, phase.cancel handle = phase)
    (cancels : Option Nat) : cancels.elim phase (phase.cancel ·) = phase := by
  rcases elim_cancel_cases cancels phase with same | ⟨handle, _, same⟩
  · exact same
  · rw [same, inert]

section

variable {initial : Option ByteArray} {history : History} {accepted : List ByteArray}
  {content : ByteArray} {writer after : Writer}

/-- New content cancels the write in hand, because the handle that it finds belongs to that one. -/
theorem InHand.cancel {pending : Option ByteArray} {cancels : Option Nat} {write : Write}
    (held : InHand accepted pending cancels write) (content : ByteArray) :
    InHand (accepted ++ [content]) (some content) (some write.handle)
      (write.cancel write.handle) := by
  constructor
  case member => exact List.mem_append_left _ held.member
  case handle => rfl
  case superseded => simp [Write.cancel]
  case newest => intro empty; cases empty

theorem Stage.submit {phase : Phase} (stage : Stage accepted writer phase) (busy : phase ≠ .idle)
    (content : ByteArray) :
    Stage (accepted ++ [content])
      { writer with
        pending := some content
        phase := writer.cancels.elim phase (phase.cancel ·) }
      (writer.cancels.elim phase (phase.cancel ·)) := by
  have filled : some content ≠ none := by simp
  cases phase with
  | idle => exact absurd rfl busy
  | taking =>
      rw [elim_cancel_of_inert fun _ => rfl]
      exact ⟨stage.1, fun empty => absurd empty filled⟩
  | creating write =>
      rw [stage.2.handle]
      exact ⟨stage.1, stage.2.cancel content⟩
  | checking write written =>
      rw [stage.2.2.handle]
      exact ⟨stage.1, stage.2.1, stage.2.2.cancel content⟩
  | writing write written =>
      rw [stage.2.2.handle]
      exact ⟨stage.1, stage.2.1, stage.2.2.cancel content⟩
  | placing write =>
      rw [stage.2.handle]
      exact ⟨stage.1, stage.2.cancel content⟩
  | discarding ending =>
      rw [elim_cancel_of_inert fun _ => rfl]
      cases ending with
      | completed => exact stage
      | cancelled => exact filled
      | failed => exact stage
  | recording ending =>
      rw [elim_cancel_of_inert fun _ => rfl]
      cases ending with
      | completed => exact ⟨stage.1, fun empty => absurd empty filled⟩
      | cancelled => exact ⟨stage.1, filled⟩
      | failed => exact stage

theorem Sound.submit (sound : Sound initial history)
    (accepted : history.writer.submit content = .ok after) :
    Sound initial { writer := after, accepted := history.accepted ++ [content] } := by
  have counts := sound.counts
  have whole : history.writer.file = initial ∨
      ∃ other ∈ history.accepted ++ [content], history.writer.file = some other := by
    refine sound.whole.imp_right ?_
    rintro ⟨other, member, same⟩
    exact ⟨other, List.mem_append_left _ member, same⟩
  unfold Writer.submit at accepted
  split at accepted
  · cases accepted
  · split at accepted
    · next busy =>
        have moving : history.writer.phase ≠ .idle := by
          intro resting
          rw [sound.running.mpr resting] at busy
          cases busy
        cases accepted
        constructor
        case running => simp [busy, elim_cancel_eq_idle, moving]
        case pending => simp
        case whole => exact whole
        case counts =>
          simp only [inHand_elim_cancel, Option.toList_some, List.length_append, List.length_cons,
            List.length_nil]
          omega
        case stage => exact sound.stage.submit moving content
    · next resting =>
        have idle := sound.running.mp (by simpa using resting)
        have stage := sound.stage
        rw [idle] at stage
        cases accepted
        constructor
        case running => simp
        case pending => simp
        case whole => exact whole
        case counts =>
          simp only [Phase.inHand, Option.toList_some, List.length_append, List.length_cons,
            List.length_nil]
          omega
        case stage => exact ⟨stage.1, fun empty => by cases empty⟩

theorem Sound.close (sound : Sound initial history) :
    Sound initial { history with writer := history.writer.close } :=
  ⟨sound.running, sound.pending, sound.whole, sound.counts, sound.stage⟩

/-! ## Steps -/

theorem InHand.newest_or_pending {pending : Option ByteArray} {cancels : Option Nat} {write : Write}
    (held : InHand accepted pending cancels write) :
    Current accepted (some write.content) ∨ pending ≠ none := by
  cases pending with
  | none =>
      refine .inl fun newest last => ?_
      rw [held.newest rfl] at last
      exact last
  | some content => exact .inr (by simp)

/-- A chunk goes behind the bytes written so far. -/
theorem Stage.writeChunk {write : Write} {written : Nat}
    (stage : Stage accepted writer (.writing write written)) :
    Stage accepted (writer.writeChunk write written) (writer.writeChunk write written).phase := by
  obtain ⟨temporary, inside, held⟩ := stage
  have grown : (writer.writeChunk write written).temporary =
      some (write.content.extract 0 (min (written + chunkSize) write.content.size)) := by
    simp only [Writer.writeChunk, temporary, Option.map_some, ByteArray.extract_append_extract]
    congr 2
    omega
  unfold Writer.writeChunk at grown ⊢
  dsimp only at grown ⊢
  split
  · next last =>
      refine ⟨grown.trans ?_, held⟩
      rw [last, ByteArray.extract_zero_size]
  · exact ⟨grown, Nat.min_le_right _ _, held⟩

theorem inHand_writeChunk (writer : Writer) (write : Write) (written : Nat) :
    (writer.writeChunk write written).phase.inHand = 1 := by
  unfold Writer.writeChunk
  dsimp only
  split <;> rfl

/-- A chunk changes the temporary file and the phase. -/
theorem writeChunk_frame (writer : Writer) (write : Write) (written : Nat) :
    ∃ temporary phase, writer.writeChunk write written = { writer with temporary, phase } :=
  ⟨_, _, rfl⟩

theorem Stage.take (stage : Stage accepted writer .taking)
    (pending : ∀ content, writer.pending = some content → accepted.getLast? = some content) :
    Stage accepted writer.take writer.take.phase := by
  obtain ⟨temporary, current⟩ := stage
  unfold Writer.take
  split
  · next empty => exact ⟨temporary, empty, current empty⟩
  · next content filled =>
      have newest := pending content filled
      exact ⟨temporary, List.mem_of_getLast? newest, rfl, rfl, fun _ => newest⟩

theorem Stage.step (stage : Stage accepted writer writer.phase)
    (pending : ∀ content, writer.pending = some content → accepted.getLast? = some content) :
    Stage accepted (writer.step {}) (writer.step {}).phase := by
  unfold Writer.step
  split
  · exact stage
  · next phase =>
      rw [phase] at stage
      exact stage.take pending
  · next write phase =>
      rw [phase] at stage
      refine ⟨?_, Nat.zero_le _, stage.2⟩
      rw [ByteArray.extract_eq_empty_iff.mpr (by omega)]
      rfl
  · next write written phase =>
      rw [phase] at stage
      obtain ⟨temporary, inside, held⟩ := stage
      dsimp only
      split
      · next superseded =>
          rw [held.superseded] at superseded
          exact Option.isSome_iff_ne_none.mp superseded
      · exact ⟨temporary, inside, held⟩
  · next write written phase =>
      rw [phase] at stage
      exact stage.writeChunk
  · next write phase =>
      rw [phase] at stage
      obtain ⟨temporary, held⟩ := stage
      refine ⟨rfl, fun empty => ?_⟩
      dsimp only at empty ⊢
      rw [temporary]
      exact held.newest_or_pending.resolve_right (absurd empty)
  · next ending phase =>
      rw [phase] at stage
      cases ending with
      | completed => exact stage.elim
      | cancelled => exact ⟨rfl, stage⟩
      | failed => exact stage.elim
  · next ending phase =>
      rw [phase] at stage
      cases ending with
      | completed => exact stage
      | cancelled => exact ⟨stage.1, fun empty => absurd empty stage.2⟩
      | failed => exact stage.elim

private theorem running_step (runs : writer.running = false ↔ writer.phase = .idle) :
    (writer.step {}).running = false ↔ (writer.step {}).phase = .idle := by
  unfold Writer.step
  split
  · exact runs
  · next phase =>
      rw [phase] at runs
      unfold Writer.take
      split
      · simp
      · simpa using runs
  · next phase =>
      rw [phase] at runs
      simpa using runs
  · next write written phase =>
      rw [phase] at runs
      cases write.cancelled <;> simpa using runs
  · next write written phase =>
      rw [phase] at runs
      have moving : (writer.writeChunk write written).phase ≠ .idle := by
        intro resting
        have held := inHand_writeChunk writer write written
        rw [resting] at held
        cases held
      have same : (writer.writeChunk write written).running = writer.running := by
        obtain ⟨_, _, chunk⟩ := writeChunk_frame writer write written
        rw [chunk]
      simpa [moving, same] using runs
  · next phase =>
      rw [phase] at runs
      simpa using runs
  · next phase =>
      rw [phase] at runs
      simpa using runs
  · next ending phase =>
      rw [phase] at runs
      cases ending <;> simpa [Writer.record] using runs

private theorem pending_step (writer : Writer) :
    (writer.step {}).pending = writer.pending ∨ (writer.step {}).pending = none := by
  unfold Writer.step
  split
  case h_2 =>
    unfold Writer.take
    split
    · exact .inl rfl
    · exact .inr rfl
  case h_5 write written _ =>
    obtain ⟨_, _, chunk⟩ := writeChunk_frame writer write written
    rw [if_pos rfl, chunk]
    exact .inl rfl
  case h_8 ending _ => cases ending <;> exact .inl rfl
  all_goals exact .inl rfl

/-- The file changes only when a temporary file with a whole content is moved into its place. -/
theorem whole_step (stage : Stage accepted writer writer.phase)
    (whole : writer.file = initial ∨ ∃ content ∈ accepted, writer.file = some content) :
    (writer.step {}).file = initial ∨ ∃ content ∈ accepted, (writer.step {}).file = some content := by
  unfold Writer.step
  split
  case h_2 =>
    unfold Writer.take
    split <;> exact whole
  case h_5 write written _ =>
    obtain ⟨_, _, chunk⟩ := writeChunk_frame writer write written
    rw [if_pos rfl, chunk]
    exact whole
  case h_6 write phase =>
    rw [phase] at stage
    exact .inr ⟨write.content, stage.2.member, stage.1⟩
  case h_8 ending _ => cases ending <;> exact whole
  all_goals exact whole

/-- A content in hand is counted when it has ended, and not again. -/
theorem counts_step (stage : Stage accepted writer writer.phase) :
    (writer.step {}).completed + (writer.step {}).cancelled + (writer.step {}).phase.inHand +
        (writer.step {}).pending.toList.length ≤
      writer.completed + writer.cancelled + writer.phase.inHand + writer.pending.toList.length := by
  unfold Writer.step
  split
  · exact Nat.le_refl _
  · next phase =>
      unfold Writer.take
      split
      · next empty => simp [phase, empty, Phase.inHand]
      · next content filled => simp [phase, filled, Phase.inHand]
  · next phase => simp [phase, Phase.inHand]
  · next write written phase => cases write.cancelled <;> simp [phase, Phase.inHand]
  · next write written phase =>
      have held := inHand_writeChunk writer write written
      obtain ⟨_, _, chunk⟩ := writeChunk_frame writer write written
      rw [if_pos rfl, held, phase, chunk]
      exact Nat.le_refl _
  · next phase => simp [phase, Phase.inHand]
  · next phase => simp [phase, Phase.inHand]
  · next ending phase =>
      rw [phase] at stage ⊢
      cases ending with
      | completed => simp [Writer.record, Phase.inHand]; omega
      | cancelled => simp [Writer.record, Phase.inHand]; omega
      | failed => exact stage.elim

theorem Sound.step (sound : Sound initial history) :
    Sound initial { history with writer := history.writer.step {} } := by
  constructor
  case running => exact running_step sound.running
  case pending =>
    intro content filled
    rcases pending_step history.writer with same | empty
    · exact sound.pending content (same.symm.trans filled)
    · cases empty.symm.trans filled
  case whole => exact whole_step sound.stage sound.whole
  case counts => exact Nat.le_trans (counts_step sound.stage) sound.counts
  case stage => exact sound.stage.step sound.pending

theorem Sound.react (sound : Sound initial history) (event : Event) :
    Sound initial (history.react event) := by
  cases event with
  | submit content =>
      unfold History.react
      dsimp only
      split
      · next accepted => exact sound.submit accepted
      · exact sound
  | close => exact sound.close
  | step => exact sound.step

end

/-- The invariant holds after all events, in whatever order they come. -/
theorem sound_after (initial : Option ByteArray) (events : List Event) :
    Sound initial (History.after initial events) := by
  induction events using List.reverseRecOn with
  | nil => exact sound_start initial
  | append_singleton events event ih =>
      rw [History.after_concat]
      exact ih.react event

/-! ## Coming to rest -/

private theorem chunksLeft_next {content : ByteArray} {written : Nat}
    (more : written + chunkSize < content.size) :
    Writer.chunksLeft content (written + chunkSize) + 1 = Writer.chunksLeft content written := by
  unfold Writer.chunksLeft
  rw [show content.size - written = content.size - (written + chunkSize) + chunkSize by omega,
    Nat.add_div_right _ (by decide)]

private theorem workLeft_writeChunk {writer : Writer} {write : Write} {written : Nat}
    (phase : writer.phase = .writing write written) :
    (writer.writeChunk write written).workLeft < writer.workLeft := by
  unfold Writer.writeChunk Writer.workLeft
  rw [phase]
  dsimp only
  by_cases last : min (written + chunkSize) write.content.size = write.content.size
  · rw [if_pos last]
    dsimp only
    omega
  · have ahead : written + chunkSize < write.content.size := by omega
    have fewer := chunksLeft_next ahead
    rw [if_neg last, Nat.min_eq_left (Nat.le_of_lt ahead)]
    dsimp only
    omega

/-- Every step of a writer that is not idle leaves less to do. -/
theorem workLeft_step (destination : Destination) {writer : Writer} (busy : writer.phase ≠ .idle) :
    (writer.step destination).workLeft < writer.workLeft := by
  unfold Writer.step
  split
  · next phase => exact absurd phase busy
  · next phase =>
      unfold Writer.take
      split
      · next empty => simp [Writer.workLeft, phase, empty]
      · next content filled => simp [Writer.workLeft, phase, filled]
  · next phase =>
      split <;> (simp only [Writer.workLeft, phase]; omega)
  · next write written phase =>
      cases write.cancelled with
      | true =>
          simp only [Writer.workLeft, phase, ↓reduceIte]
          omega
      | false => simp [Writer.workLeft, phase]
  · next write written phase =>
      split
      · exact workLeft_writeChunk phase
      · simp only [Writer.workLeft, phase]
        omega
  · next phase => split <;> simp [Writer.workLeft, phase]
  · next phase => simp [Writer.workLeft, phase]
  · next ending phase => cases ending <;> simp [Writer.workLeft, Writer.record, phase]

private theorem workLeft_pos {writer : Writer} (busy : writer.phase ≠ .idle) :
    0 < writer.workLeft := by
  unfold Writer.workLeft
  cases phase : writer.phase with
  | idle => exact absurd phase busy
  | _ => simp only; omega

private theorem workLeft_repeat (destination : Destination) (writer : Writer) (count : Nat) :
    (Nat.repeat (Writer.step destination) count writer).phase = .idle ∨
      (Nat.repeat (Writer.step destination) count writer).workLeft + count ≤ writer.workLeft := by
  induction count with
  | zero => exact .inr (Nat.le_refl _)
  | succ count ih =>
      rw [Nat.repeat]
      by_cases resting : (Nat.repeat (Writer.step destination) count writer).phase = .idle
      · left
        rw [Writer.step, resting]
        exact resting
      · have less := workLeft_step destination resting
        have bound := ih.resolve_left resting
        exact .inr (by omega)

/-- A writer that is left alone comes to rest. -/
theorem phase_finish (destination : Destination) (writer : Writer) :
    (writer.finish destination).phase = .idle := by
  by_contra busy
  have positive := workLeft_pos busy
  have bound := (workLeft_repeat destination writer writer.workLeft).resolve_left busy
  unfold Writer.finish at positive
  omega

theorem Sound.finish {initial : Option ByteArray} {history : History}
    (sound : Sound initial history) :
    Sound initial { history with writer := history.writer.finish {} } := by
  unfold Writer.finish
  generalize history.writer.workLeft = count
  induction count with
  | zero => exact sound
  | succ count ih => exact ih.step

/-! ## Which submissions are accepted -/

/-- The contents submitted before closing. -/
def submissions : List Event → List ByteArray
  | [] => []
  | .submit content :: rest => content :: submissions rest
  | .close :: _ => []
  | .step :: rest => submissions rest

private theorem closed_step (destination : Destination) (writer : Writer) :
    (writer.step destination).closed = writer.closed := by
  unfold Writer.step
  split
  case h_2 =>
    unfold Writer.take
    split <;> rfl
  case h_5 write written _ =>
    obtain ⟨_, _, chunk⟩ := writeChunk_frame writer write written
    rw [chunk]
    split <;> rfl
  case h_8 ending _ => cases ending <;> rfl
  all_goals first | rfl | (split <;> rfl)

private theorem submit_cases (writer : Writer) (content : ByteArray) :
    writer.closed = true ∧ writer.submit content = .error .closed ∨
      ∃ after, writer.closed = false ∧ writer.submit content = .ok after ∧ after.closed = false := by
  unfold Writer.submit
  split
  · next closed => exact .inl ⟨closed, rfl⟩
  · next still =>
      have unclosed : writer.closed = false := by simpa using still
      split <;> exact .inr ⟨_, unclosed, rfl, unclosed⟩

private theorem accepted_foldl (history : History) (events : List Event) :
    (events.foldl History.react history).accepted =
      history.accepted ++ if history.writer.closed then [] else submissions events := by
  induction events generalizing history with
  | nil => simp [submissions]
  | cons event rest ih =>
      rw [List.foldl_cons, ih]
      cases event with
      | submit content =>
          rcases submit_cases history.writer content with
            ⟨closed, refused⟩ | ⟨after, unclosed, accepted, still⟩
          · simp [History.react, refused, closed]
          · simp [History.react, accepted, unclosed, still, submissions]
      | close => simp [History.react, Writer.close, submissions]
      | step => simp [History.react, closed_step, submissions]

/-- The newest content wins. However submissions and closing fall between the steps of a writer whose
file operations succeed, the accepted contents are those submitted before closing; the file holds what
it held in the beginning or the whole of an accepted content; whenever the writer does not run it holds
the newest one, and nothing is pending or left behind; no content is counted twice; and a writer that
is left alone stops running. -/
theorem newest_content_written (initial : Option ByteArray) (events : List Event) :
    (History.after initial events).accepted = submissions events ∧
    ((History.after initial events).writer.file = initial ∨
      ∃ content ∈ submissions events,
        (History.after initial events).writer.file = some content) ∧
    ((History.after initial events).writer.running = false →
      ∀ newest, (submissions events).getLast? = some newest →
        (History.after initial events).writer.file = some newest ∧
        (History.after initial events).writer.pending = none ∧
        (History.after initial events).writer.temporary = none) ∧
    (History.after initial events).writer.completed +
        (History.after initial events).writer.cancelled ≤ (submissions events).length ∧
    ((History.after initial events).writer.finish {}).running = false := by
  have sound := sound_after initial events
  have accepted : (History.after initial events).accepted = submissions events :=
    accepted_foldl { writer := { file := initial } } events
  rw [← accepted]
  refine ⟨rfl, sound.whole, fun resting newest last => ?_, ?_, ?_⟩
  · have stage := sound.stage
    rw [sound.running.mp resting] at stage
    obtain ⟨temporary, pending, current⟩ := stage
    exact ⟨current newest last, pending, temporary⟩
  · have counts := sound.counts
    omega
  · exact sound.finish.running.mpr (phase_finish {} _)

/-- One content that is cancelled before its first chunk, one that is too late to be, the newest one,
and one that comes after closing. -/
def threeContents : List Event :=
  [.submit ⟨#[1]⟩, .step, .step, .submit ⟨#[2]⟩, .step, .step, .step, .step, .step, .step, .step,
    .submit ⟨#[3]⟩, .step, .step, .close, .submit ⟨#[4]⟩, .step, .step, .step, .step, .step, .step, .step]

theorem newest_content_written_threeContents :
    (History.after none (threeContents.take 12)).writer.running = true ∧
    (History.after none threeContents).writer.running = false ∧
    (History.after none threeContents).writer.file = some ⟨#[3]⟩ ∧
    (History.after none threeContents).writer.completed = 2 ∧
    (History.after none threeContents).writer.cancelled = 1 := by
  have resting : (History.after none threeContents).writer.running = false := rfl
  obtain ⟨_, _, rest, _, _⟩ := newest_content_written none threeContents
  exact ⟨rfl, resting, (rest resting ⟨#[3]⟩ rfl).1, rfl, rfl⟩

end Kerf.Output
