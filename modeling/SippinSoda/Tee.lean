import SippinSoda.Basic
import SippinSoda.Lib.Machine

/-!
# The recording tee (`RecordedBody`, `Tap` and the worker of `record`)

A response body is forwarded frame by frame; with recording on, each data frame is first
written to a bounded pipe, whose other end a worker reads, decodes and stores. The body,
the worker and whoever cancels the entry run concurrently, so a poll of the body is a
sequence of steps between which the others move.

Every step of `poll_frame` that reads or writes something the others see is one event of
the machine; what the inner body, the pipe, the file and the budget answer is in the event.

* **body** — `BodyPc`, the place in `poll_frame` or in the drop of the tap;
* **pipe** — the bytes accepted from the body and those the worker has not read yet;
* **worker** — `WorkerPc`, over a `Decoder`.
-/

namespace SippinSoda.Tee

/-- The state in `Entry::result`, without its error; `partially` is the source's "partial". -/
inductive RecordState where
  | recording
  | complete
  | partially
  | unavailable
  deriving DecidableEq, Repr

/-- What `Entry::finish` makes of it: only a recording is finished. -/
def RecordState.finish (result state : RecordState) : RecordState :=
  if result = .recording then state else result

/-! ## Decoders -/

/-- A streaming decoder: the output that the bytes it has consumed determine, and whether
it may report the end of its output then, given that the pipe is or is not at its end. -/
structure Decoder where
  output : List UInt8 → List UInt8
  ends : List UInt8 → Bool → Bool
  /-- More input only adds output. -/
  grows : ∀ consumed more, output consumed <+: output (consumed ++ more)

/-- No decoder: the pipe itself. -/
def identity : Decoder where
  output consumed := consumed
  ends _ eof := eof
  grows consumed more := List.prefix_append consumed more

/-- The decoders of `async_compression`. A gzip decoder with `multiple_members` starts the
next member until the pipe ends. -/
structure Codecs where
  gzip : Decoder
  deflate : Decoder
  br : Decoder
  gzip_to_end : ∀ consumed, gzip.ends consumed false = false

/-- The reader `record` builds for a `Content-Encoding`. -/
def Codecs.source (codecs : Codecs) (encoding : Str) : Option Decoder :=
  if encoding = [] ∨ encoding = "identity".toList then some identity
  else if encoding = "gzip".toList then some codecs.gzip
  else if encoding = "deflate".toList then some codecs.deflate
  else if encoding = "br".toList then some codecs.br
  else none

/-! ## State -/

/-- The inner body: `endOfStream` when `is_end_stream` holds and `None` is still to come. -/
inductive Inner where
  | streaming
  | endOfStream
  | ended
  | failed
  deriving DecidableEq, Repr

/-- `is_end_stream` of the inner body. -/
def Inner.isEndStream : Inner → Bool
  | .endOfStream | .ended => true
  | _ => false

/-- What `poll_frame` yields, `Pending` apart. -/
inductive Out where
  | frame (frame : Frame)
  | error
  | done
  deriving DecidableEq, Repr

/-- What follows once the tap is dropped. -/
inductive After where
  | check
  | emit
  | error
  | done
  | gone
  deriving DecidableEq, Repr

/-- The body between two polls (`idle`), inside one, or after its last. -/
inductive BodyPc where
  | idle
  /-- About to poll the inner body. -/
  | inner
  /-- At the head of the loop that writes to the pipe. -/
  | loop
  /-- About to call `poll_write`. -/
  | put
  /-- About to ask `is_end_stream`. -/
  | check
  /-- About to poll the worker's task, for the end of the body or before the last frame. -/
  | join (atEnd : Bool)
  /-- `Tap::drop`: about to finish the entry, then about to abort and close. -/
  | dropTap (after : After)
  | closeTap (after : After)
  /-- About to return the pending frame. -/
  | emit
  | finished
  deriving DecidableEq, Repr

inductive WorkerPc where
  | start
  | head
  | reading
  | reserving
  | writing
  | publishing
  | finishing (state : RecordState)
  | ended
  deriving DecidableEq, Repr

/-- The tap: is `input`, the writing end of the pipe, still there? -/
structure Tap where
  input : Bool
  deriving DecidableEq, Repr

structure State where
  pc : BodyPc
  inner : Inner
  /-- The frames the inner body has returned. -/
  frames : List Frame
  pending : Option Frame
  written : Nat
  tap : Option Tap
  /-- What `poll_frame` has yielded. -/
  out : List Out
  /-- The bytes the pipe has accepted, and those of them the worker has yet to read. -/
  accepted : List UInt8
  unread : List UInt8
  worker : WorkerPc
  /-- The bytes the decoder has consumed. -/
  consumed : List UInt8
  /-- Decoded bytes in the worker's buffer. -/
  buffer : List UInt8
  /-- The recorded bytes. -/
  file : List UInt8
  total : Nat
  aborted : Bool
  cancelled : Bool
  result : RecordState
  deriving DecidableEq, Repr

/-- The reading end of the pipe sees its end. -/
def State.eof (s : State) : Bool :=
  s.unread.isEmpty && s.tap.all fun tap => !tap.input

/-- The data of the pending frame. -/
def State.pendingData (s : State) : List UInt8 := (s.pending.map Frame.bytes).getD []

/-- The concatenated data frames of the inner body. -/
def State.data (s : State) : List UInt8 := s.frames.flatMap Frame.bytes

/-! ## Steps of the body -/

inductive Event where
  /-- `poll_frame` is called. -/
  | poll
  /-- What the inner body's `poll_frame` returns. -/
  | innerPending
  | innerFrame (frame : Frame) (endOfStream : Bool)
  | innerError
  | innerDone
  /-- `is_end_stream` of the inner body becomes true between two of its frames' polls. -/
  | innerEndOfStream
  /-- The body's next step, when there is nothing to decide. -/
  | go
  /-- What `poll_write` returns: `count` bytes, `Pending`, or zero bytes or an error. -/
  | accept (count : Nat)
  | full
  | refuse
  /-- The body is dropped between two polls. -/
  | dropBody
  /-- `Entry::cancel`. -/
  | cancel
  /-- The worker's next step, when there is nothing to decide. -/
  | work
  /-- The worker reads: the decoder consumes bytes, and delivers some or ends or fails. -/
  | read (consume deliver : Nat)
  | readEnd (consume : Nat)
  | readError (consume : Nat)
  /-- What the budget answers. -/
  | reserve (granted : Bool)
  /-- The write to the file ends well, or after `count` bytes. -/
  | wrote
  | writeError (count : Nat)
  /-- The aborted worker stops at an await. -/
  | stopWorker
  deriving DecidableEq, Repr

def After.pc : After → BodyPc
  | .check => .check
  | .emit => .emit
  | .error | .done | .gone => .finished

/-- What the body yields after the drop of the tap. -/
def After.out : After → List Out
  | .error => [.error]
  | .done => [.done]
  | .check | .emit | .gone => []

/-- The body goes on after the drop of the tap. -/
def After.next (s : State) (after : After) : State :=
  { s with pc := after.pc, out := s.out ++ after.out }

/-- `self.tap.take()`: the drop of the tap, if there is one. -/
def takeTap (s : State) (after : After) : State :=
  match s.tap with
  | none => After.next s after
  | some _ => { s with pc := .dropTap after }

/-- One straight-line step of `poll_frame`, or of the drop it is in. -/
def bodyStep (s : State) : Option State :=
  match s.pc with
  | .loop =>
      if s.written < s.pendingData.length then
        match s.tap with
        | none => some { s with pc := .check }
        | some _ => if s.cancelled then some (takeTap s .check) else some { s with pc := .put }
      else some { s with pc := .check }
  | .put =>
      -- `let Some(input) = &mut tap.input else { break }`
      match s.tap with
      | some ⟨true⟩ => none
      | _ => some { s with pc := .check }
  | .check =>
      if s.inner.isEndStream then
        match s.tap with
        | none => some { s with pc := .emit }
        | some _ => some { s with tap := some ⟨false⟩, pc := .join false }
      else some { s with pc := .emit }
  | .join atEnd =>
      if s.worker = .ended then some (takeTap s (if atEnd then .done else .emit))
      else some { s with pc := .idle }
  | .dropTap after => some { s with result := s.result.finish .partially, pc := .closeTap after }
  | .closeTap after => some (After.next { s with aborted := true, tap := none } after)
  | .emit => some { s with
      pc := .idle
      pending := none
      out := s.out ++ (s.pending.map Out.frame).toList }
  | .idle | .inner | .finished => none

/-- What the inner body answers to its poll. -/
def innerStep (s : State) : Event → Option State
  | .innerPending => if s.inner = .streaming then some { s with pc := .idle } else none
  | .innerFrame frame endOfStream =>
      if s.inner = .streaming then some { s with
        pc := .loop
        inner := if endOfStream then .endOfStream else .streaming
        frames := s.frames ++ [frame]
        pending := some frame
        written := 0 }
      else none
  | .innerError =>
      if s.inner = .streaming then some (takeTap { s with inner := .failed } .error) else none
  | .innerDone =>
      if s.inner = .failed then none
      else
        let ended := { s with inner := .ended }
        match s.tap with
        | none => some (After.next ended .done)
        | some _ => some { ended with tap := some ⟨false⟩, pc := .join true }
  | _ => none

/-- What `poll_write` answers. The pipe refuses once its reader is gone. -/
def putStep (s : State) : Event → Option State
  | .accept count =>
      let chunk := (s.pendingData.drop s.written).take count
      if 0 < count ∧ chunk.length = count ∧ s.worker ≠ .ended then some { s with
        pc := .loop
        written := s.written + count
        accepted := s.accepted ++ chunk
        unread := s.unread ++ chunk }
      else none
  | .full => some { s with pc := .idle }
  | .refuse => some (takeTap s .check)
  | _ => none

/-! ## Steps of the worker -/

/-- A step of the worker over its decoder, `none` for an unknown encoding. -/
def workerStep (source : Option Decoder) (s : State) : Event → Option State
  | .work =>
    match s.worker with
    | .start => match source with
        | none => some { s with worker := .finishing .unavailable }
        | some _ => some { s with worker := .head }
    | .head => some { s with worker := if s.cancelled then .ended else .reading }
    | .publishing => some { s with worker := .head, total := s.total + s.buffer.length,
                                   buffer := [] }
    | .finishing state => some { s with worker := .ended, result := s.result.finish state }
    | _ => none
  | .read consume deliver =>
    match s.worker, source with
    | .reading, some decoder =>
        let consumed := s.consumed ++ s.unread.take consume
        let chunk := ((decoder.output consumed).drop s.file.length).take deliver
        if 0 < deliver ∧ chunk.length = deliver then some { s with
          worker := .reserving
          consumed := consumed
          unread := s.unread.drop consume
          buffer := chunk }
        else none
    | _, _ => none
  | .readEnd consume =>
    match s.worker, source with
    | .reading, some decoder =>
        let consumed := s.consumed ++ s.unread.take consume
        let read := { s with consumed := consumed, unread := s.unread.drop consume }
        if decoder.ends consumed read.eof ∧ s.file.length = (decoder.output consumed).length then
          some { read with worker := .finishing .complete }
        else none
    | _, _ => none
  | .readError consume =>
    match s.worker with
    | .reading => some { s with
        worker := .finishing .partially
        consumed := s.consumed ++ s.unread.take consume
        unread := s.unread.drop consume }
    | _ => none
  | .reserve granted =>
    match s.worker with
    | .reserving =>
        if s.cancelled then some { s with worker := .ended }
        else if granted then some { s with worker := .writing }
        -- the result is overwritten, whatever it is
        else some { s with worker := .ended, result := .partially }
    | _ => none
  | .wrote =>
    match s.worker with
    | .writing => some { s with worker := .publishing, file := s.file ++ s.buffer }
    | _ => none
  | .writeError count =>
    match s.worker with
    | .writing => some { s with
        worker := .finishing .partially
        file := s.file ++ s.buffer.take count }
    | _ => none
  | .stopWorker =>
    if s.aborted ∧ (s.worker = .start ∨ s.worker = .reading ∨ s.worker = .writing) then
      some { s with worker := .ended }
    else none
  | _ => none

/-! ## The machine -/

/-- Who an event's answer is for. -/
inductive Asked where
  | inner
  | pipe
  | worker
  deriving DecidableEq, Repr

def answers : Event → Asked
  | .innerPending | .innerFrame .. | .innerError | .innerDone => .inner
  | .accept _ | .full | .refuse => .pipe
  | _ => .worker

def step (source : Option Decoder) (s : State) : Event → Option State
  | .poll =>
      if s.pc = .idle then some { s with pc := if s.pending.isNone then .inner else .loop }
      else none
  | .innerEndOfStream =>
      if s.inner = .streaming then some { s with inner := .endOfStream } else none
  | .go => bodyStep s
  | .dropBody => if s.pc = .idle then some (takeTap s .gone) else none
  | .cancel => some { s with cancelled := true, aborted := true }
  | event =>
      match s.pc, s.tap, answers event with
      | .inner, _, .inner => innerStep s event
      -- `poll_write` is called only when the tap has its input
      | .put, some ⟨true⟩, .pipe => putStep s event
      | _, _, .worker => workerStep source s event
      | _, _, _ => none

/-- A body about to be polled for the first time. One that is not recorded has no tap and
no worker. -/
def start (recorded : Bool) : State where
  pc := .idle
  inner := .streaming
  frames := []
  pending := none
  written := 0
  tap := if recorded then some ⟨true⟩ else none
  out := []
  accepted := []
  unread := []
  worker := if recorded then .start else .ended
  consumed := []
  buffer := []
  file := []
  total := 0
  aborted := false
  cancelled := false
  result := .recording

/-- A response body of this encoding, its pipe and its worker. -/
def machine (codecs : Codecs) (encoding : Str) (recorded : Bool) : Machine State Event where
  start := start recorded
  step := step (codecs.source encoding)

end SippinSoda.Tee
