/-!
# The background writer

A writer owns one output file. Content is written to a temporary file in chunks and then moved into
place, so that the output is never seen half written. New content cancels a write in progress at the
next chunk, and of several new contents only the newest is written.

Submitting and closing happen at any time between the steps of the writer. A step is as much as
happens without a look at what others may have changed in between.
-/

set_option autoImplicit false

namespace Kerf.Output

/-- How many bytes are written between looks at cancellation. -/
def chunkSize : Nat := 65536

inductive Ending where
  | completed
  | cancelled
  | failed
  deriving DecidableEq, Repr

structure Write where
  content : ByteArray
  /-- Tells the write from all others of the same writer. -/
  handle : Nat
  cancelled : Bool := false

/-- What a writer is about to do. -/
inductive Phase where
  /-- Nothing, until content is submitted. -/
  | idle
  /-- Take the pending content, if there is any. -/
  | taking
  /-- Make a temporary file. -/
  | creating (write : Write)
  /-- Look at cancellation, with some bytes written. -/
  | checking (write : Write) (written : Nat)
  /-- Write the next chunk behind the bytes written so far. -/
  | writing (write : Write) (written : Nat)
  /-- Move the finished temporary file into place. -/
  | placing (write : Write)
  /-- Remove the temporary file of a write that has ended early. -/
  | discarding (ending : Ending)
  /-- Note how a write ended. -/
  | recording (ending : Ending)

/-- What the file system lets the writer do. -/
structure Destination where
  /-- A temporary file can be made next to the output. -/
  creates : Bool := true
  /-- Bytes can be added to a temporary file. -/
  writes : Bool := true
  /-- A temporary file can be moved to the output. -/
  renames : Bool := true
  deriving DecidableEq, Repr

structure Writer where
  phase : Phase := .idle
  /-- The newest content that is not being written yet. -/
  pending : Option ByteArray := none
  /-- Whether the writer takes steps by itself. -/
  running : Bool := false
  /-- The write that new content cancels. -/
  cancels : Option Nat := none
  /-- How many contents have been taken so far. -/
  taken : Nat := 0
  closed : Bool := false
  /-- Whether the last write that was not cancelled failed. -/
  failed : Bool := false
  completed : Nat := 0
  cancelled : Nat := 0
  /-- What the temporary file holds, if it exists. -/
  temporary : Option ByteArray := none
  /-- What the output file holds, if it exists. -/
  file : Option ByteArray := none

inductive SubmitError where
  | closed
  deriving DecidableEq, Repr

def SubmitError.message : SubmitError → String
  | .closed => "sink: writer closed"

def Write.cancel (handle : Nat) (write : Write) : Write :=
  { write with cancelled := write.cancelled || write.handle == handle }

def Phase.cancel (handle : Nat) : Phase → Phase
  | .creating write => .creating (write.cancel handle)
  | .checking write written => .checking (write.cancel handle) written
  | .writing write written => .writing (write.cancel handle) written
  | .placing write => .placing (write.cancel handle)
  | phase => phase

namespace Writer

/-- Submits content to replace the file. A writer that is running is told by cancelling its write,
any other one is started. -/
def submit (writer : Writer) (content : ByteArray) : Except SubmitError Writer :=
  if writer.closed then .error .closed
  else if writer.running then
    .ok { writer with
      pending := some content
      phase := writer.cancels.elim writer.phase (writer.phase.cancel ·) }
  else .ok { writer with pending := some content, running := true, phase := .taking }

def close (writer : Writer) : Writer := { writer with closed := true }

/-- Notes how a write ended. A cancelled write says nothing about failure. -/
def record (writer : Writer) : Ending → Writer
  | .completed => { writer with completed := writer.completed + 1, failed := false }
  | .cancelled => { writer with cancelled := writer.cancelled + 1 }
  | .failed => { writer with failed := true }

/-- Takes the pending content, or stops running without one. -/
def take (writer : Writer) : Writer :=
  match writer.pending with
  | none => { writer with running := false, cancels := none, phase := .idle }
  | some content =>
      { writer with
        pending := none
        cancels := some writer.taken
        taken := writer.taken + 1
        phase := .creating { content, handle := writer.taken } }

def writeChunk (writer : Writer) (write : Write) (written : Nat) : Writer :=
  let stop := min (written + chunkSize) write.content.size
  { writer with
    temporary := writer.temporary.map (· ++ write.content.extract written stop)
    phase := if stop = write.content.size then .placing write else .checking write stop }

/-- One step of the writer. An idle writer does nothing. -/
def step (destination : Destination) (writer : Writer) : Writer :=
  match writer.phase with
  | .idle => writer
  | .taking => writer.take
  | .creating write =>
      if destination.creates then
        { writer with temporary := some .empty, phase := .checking write 0 }
      else { writer with phase := .recording .failed }
  | .checking write written =>
      { writer with
        phase := if write.cancelled then .discarding .cancelled else .writing write written }
  | .writing write written =>
      if destination.writes then writer.writeChunk write written
      else { writer with phase := .discarding .failed }
  | .placing _ =>
      if destination.renames then
        { writer with file := writer.temporary, temporary := none, phase := .recording .completed }
      else { writer with phase := .discarding .failed }
  | .discarding ending => { writer with temporary := none, phase := .recording ending }
  | .recording ending => { writer.record ending with phase := .taking }

/-- The chunks left of a content behind the next one. -/
def chunksLeft (content : ByteArray) (written : Nat) : Nat :=
  (content.size - written) / chunkSize

/-- A bound on the steps until the writer is idle, if nothing more is submitted. -/
def workLeft (writer : Writer) : Nat :=
  (match writer.pending with
    | none => 0
    | some content => 7 + 2 * chunksLeft content 0) +
    match writer.phase with
    | .idle => 0
    | .taking => 1
    | .recording _ => 2
    | .discarding _ => 3
    | .placing _ => 4
    | .writing write written => 5 + 2 * chunksLeft write.content written
    | .checking write written => 6 + 2 * chunksLeft write.content written
    | .creating write => 7 + 2 * chunksLeft write.content 0

/-- Lets the writer finish all that was submitted. -/
def finish (destination : Destination) (writer : Writer) : Writer :=
  Nat.repeat (step destination) writer.workLeft writer

end Writer

end Kerf.Output
