import Shmipc.Common.Trans

/-!
# One stream and the goroutines that work on it

Calls of `Stream.Close`, the event loop in `halfClose` and
`fillDataToReadBuffer`, and the callback goroutines that
`fillDataToReadBuffer` starts (stream.go:273-344 and 388-428). Each atomic
access of `state`, `callbackInProcess` and `callbackCloseState` is a step of
its own; the session stays open.

What is received is counted in messages, and the calls the user or the peer
can see (`OnLocalClose`, `OnRemoteClose`, the close notification) are counted
too. A `Close` from inside `OnData` is a call that runs while its goroutine
stands at `onData`.
-/

namespace Shmipc.Stream

open Common

/-- `streamState` (stream.go:38-42). -/
inductive StreamState
  | opened
  | closed
  | halfClosed
  deriving DecidableEq, Repr

/-- Where a call of `close` (stream.go:289-327) is. -/
inductive ClosePc
  /-- `oldState := s.getStreamState()`. -/
  | loadState
  /-- `CompareAndSwapUint32(&s.state, oldState, streamClosed)`. -/
  | cas (oldState : StreamState)
  /-- `asyncGoroutineWg.Wait()`. -/
  | wait (oldState : StreamState)
  /-- `clean()`. -/
  | clean (oldState : StreamState)
  /-- `safeCloseNotify()` and `callback.OnLocalClose()`. -/
  | onLocalClose
  /-- The notification of the peer, by queue or by event. -/
  | notifyPeer
  | returned
  deriving DecidableEq, Repr

/-- Where a call of `Close` (stream.go:275-285) is; `C` says where its `close` is. -/
inductive CloserPc (C : Type := ClosePc)
  /-- `StoreUint32(&s.callbackCloseState, callbackWaitExit)`. -/
  | storeWaitExit
  /-- `LoadUint32(&s.callbackInProcess)`. -/
  | loadInProcess
  /-- `CompareAndSwapUint32(&s.state, streamOpened, streamHalfClosed)`. -/
  | casHalf
  | close (pc : C)
  | returned
  deriving DecidableEq, Repr

/-- Where a callback goroutine (stream.go:403-423) is. -/
inductive CallbackPc (C : Type := ClosePc)
  /-- `s.pendingData.moveTo(s.recvBuf)`. -/
  | moveTo
  /-- `s.IsOpen() && s.recvBuf.Len() > 0`. -/
  | test
  /-- `callback.OnData(s.recvBuf)`. -/
  | onData
  /-- `StoreUint32(&s.callbackInProcess, 0)`. -/
  | storeZero
  /-- `LoadUint32(&s.callbackCloseState)`. -/
  | loadCloseState
  /-- `asyncGoroutineWg.Done()` before `close()`. -/
  | doneAndClose
  | close (pc : C)
  /-- `len(s.pendingData.unread) > 0`. -/
  | testUnread
  /-- `CompareAndSwapUint32(&s.callbackInProcess, 0, 1)`. -/
  | casInProcess
  /-- `asyncGoroutineWg.Done()` after the loop. -/
  | done
  | finished
  deriving DecidableEq, Repr

/-- Where the event loop is. -/
inductive LoopPc
  | idle
  /-- `halfClose`: the CAS. -/
  | halfCas
  /-- `halfClose`: `callback.OnRemoteClose()`. -/
  | onRemoteClose
  /-- `fillDataToReadBuffer`: `pendingData.add`. -/
  | add
  /-- `fillDataToReadBuffer`: `getStreamState()`. -/
  | loadState
  /-- `fillDataToReadBuffer` on a closed stream: the data is dropped. -/
  | clear
  /-- `fillDataToReadBuffer`: the CAS on `callbackInProcess`. -/
  | casInProcess
  /-- `fillDataToReadBuffer`: `asyncGoroutineWg.Add(1)`. -/
  | wgAdd
  /-- `fillDataToReadBuffer`: `gopool.Go`. -/
  | spawn
  deriving DecidableEq, Repr

/-- What the goroutines share. -/
structure Shared where
  /-- Whether callbacks are installed; they are not changed. -/
  callbacks : Bool
  state : StreamState := .opened
  /-- The stream is in `session.streams`. -/
  inStreams : Bool := true
  /-- `callbackCloseState` is `callbackWaitExit`. -/
  waitExit : Bool := false
  callbackInProcess : Bool := false
  asyncGoroutineWg : ℤ := 0
  /-- `len(pendingData.unread)`. -/
  unread : ℕ := 0
  /-- Messages moved to `recvBuf` and not consumed. -/
  recvLen : ℕ := 0
  onLocalClose : ℕ := 0
  onRemoteClose : ℕ := 0
  /-- Close notifications sent to the peer. -/
  notified : ℕ := 0
  deriving DecidableEq, Repr

structure State where
  shared : Shared
  closers : List CloserPc := []
  goroutines : List CallbackPc := []
  loop : LoopPc := .idle
  deriving DecidableEq, Repr

/-- The steps: `close` is a new call of `Close`, `data` and `peerClose` are what
    the event loop reads for the stream; the others continue a call. `consumed`
    is what an `OnData` takes. -/
inductive Act
  | close
  | closer (k : ℕ)
  | data
  | peerClose
  | loop
  | goroutine (k : ℕ) (consumed : ℕ)
  deriving DecidableEq, Repr

/-- The step of a call of `close`; `none` while `Wait` blocks or after the return. -/
def stepClose (s : Shared) : ClosePc → Option (Shared × ClosePc)
  | .loadState => some (s, if s.state = .closed then .returned else .cas s.state)
  | .cas old =>
    if s.state = old then
      some ({ s with state := .closed }, if s.callbacks then .wait old else .clean old)
    else some (s, .returned)
  | .wait old => if s.asyncGoroutineWg = 0 then some (s, .clean old) else none
  | .clean old =>
    some ({ s with inStreams := false, unread := 0, recvLen := 0 },
      if old = .opened then .onLocalClose else .returned)
  | .onLocalClose =>
    some ({ s with onLocalClose := s.onLocalClose + if s.callbacks then 1 else 0 }, .notifyPeer)
  | .notifyPeer => some ({ s with notified := s.notified + 1 }, .returned)
  | .returned => none

/-- The step of a call of `Close`. -/
def stepCloser (s : Shared) : CloserPc → Option (Shared × CloserPc)
  | .storeWaitExit => some ({ s with waitExit := true }, .loadInProcess)
  | .loadInProcess => some (s, if s.callbackInProcess then .casHalf else .close .loadState)
  | .casHalf =>
    some (if s.state = .opened then { s with state := .halfClosed } else s, .returned)
  | .close .returned => some (s, .returned)
  | .close pc => (stepClose s pc).map fun r => (r.1, .close r.2)
  | .returned => none

/-- The step of a callback goroutine. -/
def stepGoroutine (s : Shared) (consumed : ℕ) : CallbackPc → Option (Shared × CallbackPc)
  | .moveTo => some ({ s with recvLen := s.recvLen + s.unread, unread := 0 }, .test)
  | .test => some (s, if s.state = .opened ∧ 0 < s.recvLen then .onData else .storeZero)
  | .onData => some ({ s with recvLen := s.recvLen - consumed }, .moveTo)
  | .storeZero => some ({ s with callbackInProcess := false }, .loadCloseState)
  | .loadCloseState => some (s, if s.waitExit then .doneAndClose else .testUnread)
  | .doneAndClose =>
    some ({ s with asyncGoroutineWg := s.asyncGoroutineWg - 1 }, .close .loadState)
  | .close .returned => some (s, .finished)
  | .close pc => (stepClose s pc).map fun r => (r.1, .close r.2)
  | .testUnread => some (s, if 0 < s.unread then .casInProcess else .done)
  | .casInProcess =>
    if s.callbackInProcess then some (s, .done)
    else some ({ s with callbackInProcess := true }, .moveTo)
  | .done => some ({ s with asyncGoroutineWg := s.asyncGoroutineWg - 1 }, .finished)
  | .finished => none

/-- The step of the event loop; the flag says that a goroutine is started. -/
def stepLoop (s : Shared) : LoopPc → Option (Shared × LoopPc × Bool)
  | .idle => none
  | .halfCas =>
    if s.state = .opened then
      some ({ s with state := .halfClosed }, if s.callbacks then .onRemoteClose else .idle, false)
    else some (s, .idle, false)
  | .onRemoteClose => some ({ s with onRemoteClose := s.onRemoteClose + 1 }, .idle, false)
  | .add => some ({ s with unread := s.unread + 1 }, .loadState, false)
  | .loadState =>
    some (s, if s.state = .closed then .clear else if s.callbacks then .casInProcess else .idle,
      false)
  | .clear => some ({ s with unread := 0, recvLen := 0 }, .idle, false)
  | .casInProcess =>
    if s.callbackInProcess then some (s, .idle, false)
    else some ({ s with callbackInProcess := true }, .wgAdd, false)
  | .wgAdd => some ({ s with asyncGoroutineWg := s.asyncGoroutineWg + 1 }, .spawn, false)
  | .spawn => some (s, .idle, true)

def step (s : State) : Act → Option State
  | .close =>
    some { s with
      closers := s.closers ++ [if s.shared.callbacks then .storeWaitExit else .loadInProcess] }
  | .closer k =>
    s.closers[k]?.bind fun pc => (stepCloser s.shared pc).map fun r =>
      { s with shared := r.1, closers := s.closers.set k r.2 }
  | .data => if s.loop = .idle then some { s with loop := .add } else none
  | .peerClose => if s.loop = .idle then some { s with loop := .halfCas } else none
  | .loop =>
    (stepLoop s.shared s.loop).map fun r =>
      { s with
        shared := r.1
        loop := r.2.1
        goroutines := if r.2.2 then s.goroutines ++ [.moveTo] else s.goroutines }
  | .goroutine k consumed =>
    s.goroutines[k]?.bind fun pc => (stepGoroutine s.shared consumed pc).map fun r =>
      { s with shared := r.1, goroutines := s.goroutines.set k r.2 }

/-- A freshly opened stream, with or without callbacks. -/
def initial (callbacks : Bool) : State where
  shared := { callbacks := callbacks }

def machine : Sys State Act where
  init s := ∃ callbacks, s = initial callbacks
  next := step

end Shmipc.Stream
