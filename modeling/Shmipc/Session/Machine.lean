import Shmipc.Common.Trans

/-!
# One direction of a session pair

The sending side has one goroutine per stream, which flushes messages and may
close the stream, and the goroutine `Session.send`; the receiving side is one
event loop. Two channels lead from one to the other:

* the shared IO queue, read inside `handlePolling`;
* the socket, fed by the send loop from `sendCh` and by the fast path of
  `wakeUpPeer`, read frame by frame.

The steps are those of `Stream.Flush` and `writeFallback` (stream.go:199-271),
of the notification in `Stream.close` (stream.go:313-323), of `wakeUpPeer`
(session.go:616-631), `waitForSend` and `send` (session.go:384-465), and of
`handlePolling`, `handleFallbackData` and `handleStreamClose`
(protocol_manager.go). Messages are abstract here: what a chain of shared
slices or a frame's payload holds is the subject of the buffer modules. The
session stays open, and the receiver does not close its streams.
-/

namespace Shmipc.Session

open Common

/-- An element of the IO queue: a message with status `streamOpened` or a
    notification with status `streamClosed`. -/
inductive Elem (M : Type*)
  | data (id : ℕ) (m : M)
  | closed (id : ℕ)
  deriving DecidableEq

/-- A frame on the socket: `typePolling`, `typeFallbackData`,
    `typeStreamClose`. -/
inductive Frame (M : Type*)
  | polling
  | fallbackData (id : ℕ) (m : M)
  | streamClose (id : ℕ)
  deriving DecidableEq

/-- Where the goroutine of a stream is; a constructor stands for the step that
    is taken next. -/
inductive StreamPc (M : Type*)
  | idle
  /-- `Flush`: `sendQueue().put` of a message, with so many retries left. -/
  | put (m : M) (retries : ℕ)
  /-- `Flush` after `ErrQueueFull`: the `select`, or the error return once no
      retry is left. -/
  | select (m : M) (retries : ℕ)
  /-- `close`: `sendQueue().put` of the notification. -/
  | putClose
  /-- `wakeUpPeer`: `markWorking`. -/
  | markWorking
  /-- `wakeUpPeer`: `CompareAndSwapUint32(&s.writing, 0, 1)`. -/
  | casWriting
  /-- Fast path: `writeEventData` of the polling event. -/
  | writePolling
  /-- Fast path: `StoreUint32(&s.writing, 0)`. -/
  | clearWriting
  /-- Fast path: `asyncNotify(s.notifyContinueWriteCh)`. -/
  | notify
  /-- Slow path: the polling event is sent to `sendCh`. -/
  | sendPolling
  /-- `writeFallback`: the frame is sent to `sendCh`. -/
  | sendFallback (m : M)
  /-- `close` on a full queue: the `typeStreamClose` event is sent to `sendCh`. -/
  | sendClose
  /-- `waitForSendErr`: the receive from `errCh`. -/
  | waitErr
  deriving DecidableEq

/-- Where `Session.send` is. -/
inductive LoopPc (M : Type*)
  /-- The receive from `sendCh`. -/
  | recv
  /-- `CompareAndSwapUint32(&s.writing, 0, 1)`. -/
  | casWriting (f : Frame M)
  /-- `<-s.notifyContinueWriteCh`. -/
  | waitNotify (f : Frame M)
  /-- `writeEventData`. -/
  | write (f : Frame M)
  /-- `StoreUint32(&s.writing, 0)`. -/
  | clearWriting (f : Frame M)
  /-- `asyncSendErr(ready.Err, nil)`. -/
  | ack (f : Frame M)
  deriving DecidableEq

/-- Where the receiving event loop is. -/
inductive RecvPc (M : Type*)
  /-- Between two frames. -/
  | idle
  /-- `handlePolling`: `recvQueue.pop()`. -/
  | pop
  /-- `handlePolling`: the popped element is handled. -/
  | handle (e : Elem M)
  /-- `markNotWorking`: `StoreUint32(q.workingFlag, 0)`. -/
  | storeZero
  /-- `markNotWorking`: `q.size()`. -/
  | loadSize
  /-- `markNotWorking`: `StoreUint32(q.workingFlag, 1)`. -/
  | storeOne
  deriving DecidableEq

/-- The two sides and what is under way between them. -/
structure State (M : Type*) where
  /-- The sending goroutine of each stream. -/
  pc : ℕ → StreamPc M
  /-- `Stream.inFallbackState`. -/
  inFallbackState : ℕ → Bool
  /-- `Close` was called. -/
  closed : ℕ → Bool
  /-- The messages passed to `Flush`, in order, without those whose `Flush` has
      returned an error. -/
  flushed : ℕ → List M
  /-- `errCh` of the stream's current `waitForSend` holds the result. -/
  errCh : ℕ → Bool
  /-- The frames of calls that gave up on their `errCh` before the result came. -/
  abandoned : ℕ → ℕ
  queue : List (Elem M)
  workingFlag : Bool
  writing : Bool
  notifyContinueWriteCh : Bool
  sendCh : List (Frame M)
  loop : LoopPc M
  /-- Written to the socket and not yet handled. -/
  socket : List (Frame M)
  recv : RecvPc M
  /-- The receiving session is a client: `getStream` creates no stream. -/
  isClient : Bool
  /-- The keys of the receiver's `session.streams`. -/
  streams : ℕ → Bool
  /-- Every message ever added to the receiving stream's `pendingData`. -/
  pendingData : ℕ → List M
  /-- The receiver has handled the stream's close notification. -/
  closeHandled : ℕ → Bool
  /-- The receiver has run `halfClose` on the stream. -/
  halfClosed : ℕ → Bool

/-- The steps. `flush i m fromShm` enters `Flush` on stream `i`, with `fromShm`
    saying whether the message could be written to shared memory; `fail i` is the
    error return of the call the stream's goroutine is in. -/
inductive Act (M : Type*)
  | flush (i : ℕ) (m : M) (fromShm : Bool)
  | close (i : ℕ)
  | stream (i : ℕ)
  | fail (i : ℕ)
  | send
  | recv

variable {M : Type*}

/-- The capacity of `sendCh` (session.go:139). -/
def sendChCap : ℕ := 4096

/-- "retry 10 times." (stream.go:232) -/
def flushRetries : ℕ := 10

/-- `s` with the goroutine of stream `i` at `pc`. -/
def State.setPc (s : State M) (i : ℕ) (pc : StreamPc M) : State M :=
  { s with pc := Function.update s.pc i pc }

/-- `s.sendCh <- f`, which blocks while the channel is full. -/
def State.sendTo (s : State M) (f : Frame M) : Option (State M) :=
  if s.sendCh.length < sendChCap then some { s with sendCh := s.sendCh ++ [f] } else none

/-- `Flush` up to the choice of the route: once a message does not come from
    shared memory the stream stays in the fallback state. -/
def stepFlush (s : State M) (i : ℕ) (m : M) (fromShm : Bool) : Option (State M) :=
  match s.pc i, s.closed i with
  | .idle, false =>
    let inFallback := s.inFallbackState i || !fromShm
    some { s.setPc i (if inFallback then .sendFallback m else .put m flushRetries) with
      inFallbackState := Function.update s.inFallbackState i inFallback
      flushed := Function.update s.flushed i (s.flushed i ++ [m]) }
  | _, _ => none

/-- `Close` up to the notification. -/
def stepClose (s : State M) (i : ℕ) : Option (State M) :=
  match s.pc i, s.closed i with
  | .idle, false => some { s.setPc i .putClose with closed := Function.update s.closed i true }
  | _, _ => none

/-- The step of stream `i`'s goroutine on a queue of capacity `cap`. -/
def stepStream (cap : ℕ) (s : State M) (i : ℕ) : Option (State M) :=
  match s.pc i with
  | .idle => none
  | .put m retries =>
    if s.queue.length < cap then
      some { s.setPc i .markWorking with queue := s.queue ++ [.data i m] }
    else some (s.setPc i (.select m retries))
  | .select _ 0 => none
  | .select m (retries + 1) => some (s.setPc i (.put m retries))
  | .putClose =>
    if s.queue.length < cap then
      some { s.setPc i .markWorking with queue := s.queue ++ [.closed i] }
    else some (s.setPc i .sendClose)
  | .markWorking =>
    if s.workingFlag then some (s.setPc i .idle)
    else some { s.setPc i .casWriting with workingFlag := true }
  | .casWriting =>
    if s.writing then some (s.setPc i .sendPolling)
    else some { s.setPc i .writePolling with writing := true }
  | .writePolling => some { s.setPc i .clearWriting with socket := s.socket ++ [.polling] }
  | .clearWriting => some { s.setPc i .notify with writing := false }
  | .notify => some { s.setPc i .idle with notifyContinueWriteCh := true }
  | .sendPolling => (s.setPc i .idle).sendTo .polling
  | .sendFallback m => (s.setPc i .waitErr).sendTo (.fallbackData i m)
  | .sendClose => (s.setPc i .waitErr).sendTo (.streamClose i)
  | .waitErr =>
    if s.errCh i then some { s.setPc i .idle with errCh := Function.update s.errCh i false }
    else none

/-- The error returns: `Flush` gives up on a full queue (the write deadline, the
    close of the stream or the last retry); `waitForSend` gives up on a full
    `sendCh` or, with the frame handed over, on its `errCh`. A `Flush` that fails
    takes its message out of `flushed`. -/
def stepFail (s : State M) (i : ℕ) : Option (State M) :=
  let giveUp := { s.setPc i .idle with flushed := Function.update s.flushed i (s.flushed i).dropLast }
  match s.pc i with
  | .select _ _ | .sendFallback _ => some giveUp
  | .sendClose => some (s.setPc i .idle)
  | .waitErr =>
    some { if s.closed i then s.setPc i .idle else giveUp with
      errCh := Function.update s.errCh i false
      abandoned := Function.update s.abandoned i (s.abandoned i + if s.errCh i then 0 else 1) }
  | _ => none

/-- `asyncSendErr` for a frame of stream `i`: the frames of a stream are written in
    order, so those of abandoned calls come first and nobody hears of them. -/
def State.ackStream (s : State M) (i : ℕ) : State M :=
  match s.abandoned i with
  | 0 => { s with errCh := Function.update s.errCh i true }
  | n + 1 => { s with abandoned := Function.update s.abandoned i n }

/-- `asyncSendErr` on the channel of the call that sent `f`; a polling event has
    none. -/
def State.ackTo (s : State M) : Frame M → State M
  | .polling => s
  | .fallbackData i _ | .streamClose i => s.ackStream i

/-- The step of `Session.send`. -/
def stepSend (s : State M) : Option (State M) :=
  match s.loop with
  | .recv =>
    match s.sendCh with
    | [] => none
    | f :: rest => some { s with sendCh := rest, loop := .casWriting f }
  | .casWriting f =>
    if s.writing then some { s with loop := .waitNotify f }
    else some { s with loop := .write f, writing := true }
  | .waitNotify f =>
    if s.notifyContinueWriteCh then
      some { s with loop := .casWriting f, notifyContinueWriteCh := false }
    else none
  | .write f => some { s with loop := .clearWriting f, socket := s.socket ++ [f] }
  | .clearWriting f => some { s with loop := .ack f, writing := false }
  | .ack f => some { s.ackTo f with loop := .recv }

/-- `getStream(id, streamOpened)` followed by `fillDataToReadBuffer`: a server
    creates an unknown stream, a client drops the message. -/
def State.deliver (s : State M) (i : ℕ) (m : M) : State M :=
  if s.streams i || !s.isClient then
    { s with
      streams := Function.update s.streams i true
      pendingData := Function.update s.pendingData i (s.pendingData i ++ [m]) }
  else s

/-- The close notification of stream `i`: `halfClose`, if there is the stream. -/
def State.closeStream (s : State M) (i : ℕ) : State M :=
  { s with
    closeHandled := Function.update s.closeHandled i true
    halfClosed := if s.streams i then Function.update s.halfClosed i true else s.halfClosed }

/-- The step of the receiving event loop. -/
def stepRecv (s : State M) : Option (State M) :=
  match s.recv with
  | .idle =>
    match s.socket with
    | [] => none
    | .polling :: rest => some { s with socket := rest, recv := .pop }
    | .fallbackData i m :: rest => some { s.deliver i m with socket := rest }
    | .streamClose i :: rest => some { s.closeStream i with socket := rest }
  | .pop =>
    match s.queue with
    | [] => some { s with recv := .storeZero }
    | e :: rest => some { s with queue := rest, recv := .handle e }
  | .handle (.data i m) => some { s.deliver i m with recv := .pop }
  | .handle (.closed i) => some { s.closeStream i with recv := .pop }
  | .storeZero => some { s with recv := .loadSize, workingFlag := false }
  | .loadSize =>
    match s.queue with
    | [] => some { s with recv := .idle }
    | _ :: _ => some { s with recv := .storeOne }
  | .storeOne => some { s with recv := .pop, workingFlag := true }

def step (cap : ℕ) (s : State M) : Act M → Option (State M)
  | .flush i m fromShm => stepFlush s i m fromShm
  | .close i => stepClose s i
  | .stream i => stepStream cap s i
  | .fail i => stepFail s i
  | .send => stepSend s
  | .recv => stepRecv s

/-- A fresh direction of a session pair; the receiver may already know streams. -/
def initial (isClient : Bool) (streams : ℕ → Bool) : State M where
  pc := fun _ => .idle
  inFallbackState := fun _ => false
  closed := fun _ => false
  flushed := fun _ => []
  errCh := fun _ => false
  abandoned := fun _ => 0
  queue := []
  workingFlag := false
  writing := false
  notifyContinueWriteCh := false
  sendCh := []
  loop := .recv
  socket := []
  recv := .idle
  isClient := isClient
  streams := streams
  pendingData := fun _ => []
  closeHandled := fun _ => false
  halfClosed := fun _ => false

/-- One direction of a session pair with an IO queue of capacity `cap`. -/
def machine (M : Type*) (cap : ℕ) : Sys (State M) (Act M) where
  init s := ∃ isClient streams, s = initial isClient streams
  next := step cap

/-! ## What is under way -/

/-- The frame the send loop has taken from `sendCh` and not yet written. -/
def LoopPc.frame : LoopPc M → List (Frame M)
  | .casWriting f | .waitNotify f | .write f => [f]
  | _ => []

/-- The frames on their way to the receiver, in the order it will handle them if
    no polling event is written on the fast path. -/
def State.wire (s : State M) : List (Frame M) := s.socket ++ (s.loop.frame ++ s.sendCh)

/-- The message of a frame or element of stream `i`. -/
def Frame.dataFor (i : ℕ) : Frame M → Option M
  | .fallbackData j m => if j = i then some m else none
  | _ => none

def Elem.dataFor (i : ℕ) : Elem M → Option M
  | .data j m => if j = i then some m else none
  | .closed _ => none

/-- The messages of stream `i` among frames, and in the queue. -/
def framesFor (i : ℕ) (w : List (Frame M)) : List M := w.filterMap (Frame.dataFor i)

def queueFor (i : ℕ) (q : List (Elem M)) : List M := q.filterMap (Elem.dataFor i)

/-- The message the receiver has popped for stream `i` and not yet handled. -/
def RecvPc.msgFor (i : ℕ) : RecvPc M → List M
  | .handle e => (e.dataFor i).toList
  | _ => []

/-- The message a goroutine is about to put or send. -/
def StreamPc.msg : StreamPc M → List M
  | .put m _ | .select m _ | .sendFallback m => [m]
  | _ => []

/-- The receiver has the stream or will create it. -/
def State.Accepts (s : State M) (i : ℕ) : Prop := s.streams i = true ∨ s.isClient = false

/-- No frame selected by `p` is reached before a polling event. -/
def Announced (p : Frame M → Prop) : List (Frame M) → Prop
  | [] => True
  | .polling :: _ => True
  | f :: w => ¬ p f ∧ Announced p w

end Shmipc.Session
