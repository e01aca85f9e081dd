import Shmipc.Common.Directory
import Shmipc.Common.Trans

/-!
# Connections and the event loop

A connection is a socket, a `connEventHandler` and an entry of `conns` and of the epoll
instance (event_dispatcher_linux.go:41-75, 139-159, 177-211, 227-263, 286-345). It is set up
by the goroutine that makes the session, written to by others, and taken down by the event
loop: `deferredClose` marks it and posts a function that removes it from the epoll
instance and from `conns` and closes the socket, whose descriptor may then be used again for
another file.

The epoll instance holds the handler as a number only, so `conns` keeps it alive. It is
edge-triggered: a socket is put on the ready list when something happens to it and taken from
there by `epollWait`, which reports what the socket is ready for at that time. A socket is
ready for writing if at most `low` bytes are buffered; as long as it is, a write does not fail
with `EAGAIN`, and it never takes more than `high`.

`Session.Close` posts the call of `close`, and a handler is closed by the event loop only. How
functions are posted and run is the subject of `Lambda`; `shutdown` is not called by the
program. What is read is the subject of `Protocol.ReadBuffer`: here `onReadReady` is one step.

A system call of the event loop itself does not fail.

Results:
* `lives_step`: what a step does to the lives of the connections.
* `events_reach_open_connections`: an event is handled by a handler whose socket is open, and
  a connection is taken down once, without touching any other.

The calls of `write` are the subject of `WriteLoop`.
-/

namespace Shmipc.EventDispatcher.Conns

open Common

/-! ## The model -/

/-- An open file: the socket of a connection, or something else. -/
inductive File
  | conn (c : ℕ)
  | other (n : ℕ)
  deriving DecidableEq

/-- The functions that are posted. -/
inductive Lambda
  /-- By `Session.Close`, with a call of `close` (session.go:314-318). -/
  | close (c : ℕ)
  /-- By `deferredClose` (event_dispatcher_linux.go:237-243). -/
  | cleanup (c : ℕ)
  | other
  deriving DecidableEq

/-- What `epollWait` reports of a socket. -/
structure Events where
  rdhup : Bool
  read : Bool
  write : Bool
  deriving DecidableEq

/-- How far the setup of a connection is (`setCallback`). -/
inductive OpenPc
  | unmade
  /-- Made by `newConnection`. -/
  | made
  /-- The lock is taken. -/
  | locked
  /-- The socket is in the epoll instance. -/
  | added
  | failed
  | done
  deriving DecidableEq

def EBADF : ℕ := 9
def EAGAIN : ℕ := 11
def EPIPE : ℕ := 32

/-- Where a call of `write` is, with what is left to be written. -/
inductive WritePc
  /-- With an errno, if it has failed. -/
  | returned (e : Option ℕ)
  /-- The head of the loop. -/
  | check (left : List UInt8)
  /-- The system call. -/
  | sys (left : List UInt8)
  /-- `<-c.onWriteReadyCh`. -/
  | wait (left : List UInt8)
  deriving DecidableEq

/-- `connEventHandler`, with the call of `write`: there is one at a time. -/
structure Handler where
  fd : ℕ := 0
  /-- `file` is open. -/
  file : Bool := false
  opening : OpenPc := .unmade
  isClose : Bool := false
  /-- There is something in `onWriteReadyCh`. -/
  notified : Bool := false
  /-- `onWriteReadyCh` is closed. -/
  chClosed : Bool := false
  writer : WritePc := .returned none
  /-- What is to be written, and what was. -/
  data : List UInt8 := []
  sent : List UInt8 := []
  /-- The last check of `isClose` has found it 0. -/
  seenOpen : Bool := false
  /-- How many bytes of it went to another file. -/
  astray : ℕ := 0

abbrev Batch := List (ℕ × Events)

/-- What the event loop goes on with after `deferredClose`. -/
inductive Cont
  /-- The rest of `handleEvent`, and the other events. -/
  | batch (out : Bool) (rest : Batch)
  | lambdas (rest : List Lambda)

/-- Where the event loop is. -/
inductive LoopPc
  /-- `epollWait`. -/
  | wait
  /-- `d.lock.Lock()`. -/
  | lock (batch : Batch)
  /-- The head of the loop over the events. -/
  | events (batch : Batch)
  /-- `onReadReady`. -/
  | read (c : ℕ) (out : Bool) (rest : Batch)
  /-- `onWriteReady`. -/
  | writeReady (c : ℕ) (rest : Batch)
  /-- `asyncNotify`. -/
  | notify (c : ℕ) (rest : Batch)
  /-- `deferredClose`. -/
  | cas (c : ℕ) (k : Cont)
  | closeCh (c : ℕ) (k : Cont)
  | post (c : ℕ) (k : Cont)
  /-- `runLambda`. -/
  | lambdas (running : List Lambda)
  /-- The function that `deferredClose` posts. -/
  | del (c : ℕ) (rest : List Lambda)
  | delLock (c : ℕ) (rest : List Lambda)
  | delete (c : ℕ) (rest : List Lambda)
  | closeFile (c : ℕ) (rest : List Lambda)
  /-- A send on a closed channel, or a second `close` of it. -/
  | panicked

/-- Who has `d.lock`. -/
inductive Holder
  | opener (c : ℕ)
  | loop
  deriving DecidableEq

/-- How much of what was written a socket buffers. -/
structure Marks where
  low : ℕ
  high : ℕ
  lt : low < high

structure State where
  handler : ℕ → Handler := fun _ => {}
  /-- The open files of the process. -/
  table : ℕ → Option File := fun _ => none
  /-- The epoll instance: the handler of a file. -/
  interest : File → Option ℕ := fun _ => none
  /-- Its ready list. -/
  ready : List File := []
  buffered : File → ℕ := fun _ => 0
  conns : ℕ → Option ℕ := fun _ => none
  lock : Option Holder := none
  pendingLambda : List Lambda := []
  loop : LoopPc := .wait

namespace State

def set (s : State) (c : ℕ) (h : Handler) : State :=
  { s with handler := Function.update s.handler c h }

/-- Something happens to a file. -/
def arm (s : State) (f : File) : State :=
  { s with ready := if (s.interest f).isSome ∧ f ∉ s.ready then s.ready ++ [f] else s.ready }

def runLambda (s : State) : State :=
  { s with loop := .lambdas s.pendingLambda, pendingLambda := [] }

end State

/-- After `onReadReady` (event_dispatcher_linux.go:66-70). -/
def afterRead (c : ℕ) (out : Bool) (rest : Batch) : LoopPc :=
  if out then .writeReady c rest else .events rest

def Cont.resume (c : ℕ) : Cont → LoopPc
  | batch out rest => afterRead c out rest
  | lambdas rest => .lambdas rest

/-- `handleEvent` (event_dispatcher_linux.go:54-71). -/
def handleEvent (c : ℕ) (ev : Events) (rest : Batch) : LoopPc :=
  if ev.rdhup then .cas c (.batch false rest)
  else if ev.read then .read c ev.write rest
  else afterRead c ev.write rest

/-- What `epollWait` reports of a file, if something; `ev` is what is not about writing. -/
def poll (m : Marks) (s : State) (f : File) (ev : Events) : Option (ℕ × Events) :=
  let ev := { ev with write := decide (s.buffered f ≤ m.low) }
  if ev.rdhup || ev.read || ev.write then (s.interest f).map fun c => (c, ev) else none

/-- The event loop after `epollWait` (event_dispatcher_linux.go:326-345). -/
def epollWait (m : Marks) (s : State) (polled : List Events) : State :=
  let batch := (s.ready.zip polled).filterMap fun (f, ev) => poll m s f ev
  let s := { s with ready := s.ready.drop polled.length }
  if batch = [] then s.runLambda else { s with loop := .lock batch }

/-- A step of the event loop; `eof` is for `onReadReady`. -/
def loopStep (eof : Bool) (s : State) : LoopPc → Option State
  | .wait | .panicked => none
  | .lock batch =>
    if s.lock = none then some { s with lock := some .loop, loop := .events batch } else none
  | .events [] => some { s.runLambda with lock := none }
  | .events ((c, ev) :: rest) => some { s with loop := handleEvent c ev rest }
  | .read c out rest =>
    some { s with loop := if eof then .cas c (.batch out rest) else afterRead c out rest }
  | .writeReady c rest =>
    some { s with loop := if (s.handler c).isClose then .events rest else .notify c rest }
  | .notify c rest =>
    if (s.handler c).chClosed then some { s with loop := .panicked }
    else some { s.set c { s.handler c with notified := true } with loop := .events rest }
  | .cas c k =>
    if (s.handler c).isClose then some { s with loop := k.resume c }
    else some { s.set c { s.handler c with isClose := true } with loop := .closeCh c k }
  | .closeCh c k =>
    if (s.handler c).chClosed then some { s with loop := .panicked }
    else some { s.set c { s.handler c with chClosed := true } with loop := .post c k }
  | .post c k => some { s with pendingLambda := s.pendingLambda ++ [.cleanup c], loop := k.resume c }
  | .lambdas [] => some { s with loop := .wait }
  | .lambdas (.close c :: rest) => some { s with loop := .cas c (.lambdas rest) }
  | .lambdas (.cleanup c :: rest) => some { s with loop := .del c rest }
  | .lambdas (.other :: rest) => some { s with loop := .lambdas rest }
  | .del c rest =>
    -- the descriptor is looked up: it need not be that of the connection
    match s.table (s.handler c).fd with
    | none => some { s with loop := .delLock c rest }
    | some f => some { s with interest := Function.update s.interest f none
                              ready := s.ready.erase f
                              loop := .delLock c rest }
  | .delLock c rest =>
    if s.lock = none then some { s with lock := some .loop, loop := .delete c rest } else none
  | .delete c rest =>
    some { s with conns := Function.update s.conns (s.handler c).fd none
                  lock := none
                  loop := .closeFile c rest }
  | .closeFile c rest =>
    if (s.handler c).file then
      some { s.set c { s.handler c with file := false } with
        table := Function.update s.table (s.handler c).fd none
        loop := .lambdas rest }
    else some { s with loop := .lambdas rest }

/-- A step of `write` (event_dispatcher_linux.go:140-159). The system call takes `n` bytes; with
    `n = 0` it fails with `EAGAIN`. -/
def writeStep (m : Marks) (s : State) (c n : ℕ) : Option State :=
  let h := s.handler c
  match h.writer with
  | .returned _ => none
  | .check [] => some (s.set c { h with writer := .returned none })
  | .check left =>
    some (s.set c { h with writer := if h.isClose then .returned (some EPIPE) else .sys left
                           seenOpen := !h.isClose })
  | .sys left =>
    match s.table h.fd with
    | none => some (s.set c { h with writer := .returned (some EBADF) })
    | some f =>
      if n = 0 then
        if m.low < s.buffered f then some (s.set c { h with writer := .wait left }) else none
      else if n ≤ left.length ∧ s.buffered f + n ≤ m.high then
        some { s.set c { h with writer := .check (left.drop n)
                                sent := h.sent ++ left.take n
                                astray := if f = .conn c then h.astray else h.astray + n } with
          buffered := Function.update s.buffered f (s.buffered f + n) }
      else none
  | .wait left =>
    if h.notified then some (s.set c { h with writer := .check left, notified := false })
    else if h.chClosed then some (s.set c { h with writer := .check left })
    else none

inductive Act
  /-- A connection with the descriptor `fd` is made. -/
  | newConnection (c fd : ℕ)
  /-- Other files of the process. -/
  | openOther (n fd : ℕ)
  | closeOther (fd : ℕ)
  /-- `setCallback`: the lock is taken. -/
  | setCallback (c : ℕ)
  | epollAdd (c : ℕ) (ok : Bool)
  /-- The entry in `conns` is made and the lock is given back. -/
  | addConn (c : ℕ)
  /-- `Session.Close` posts. -/
  | sessionClose (c : ℕ)
  | postOther
  /-- The peer takes `n` bytes. -/
  | drain (f : File) (n : ℕ)
  /-- Bytes or the end of the connection arrive. -/
  | arrive (f : File)
  /-- `write` is called. -/
  | write (c : ℕ) (data : List UInt8)
  | writer (c n : ℕ)
  /-- The system call of `write` fails, and not with `EAGAIN`. -/
  | writeFails (c errno : ℕ)
  | wait (polled : List Events)
  | loop (eof : Bool)
  deriving DecidableEq

def WritePc.Returned : WritePc → Prop
  | returned _ => True
  | _ => False

instance : (pc : WritePc) → Decidable pc.Returned
  | .returned _ => .isTrue trivial
  | .check _ | .sys _ | .wait _ => .isFalse id

def LoopPc.isWait : LoopPc → Bool
  | .wait => true
  | _ => false

def step (m : Marks) (s : State) : Act → Option State
  | .newConnection c fd =>
    if (s.handler c).opening = .unmade ∧ s.table fd = none then
      some { s.set c { fd := fd, file := true, opening := .made } with
        table := Function.update s.table fd (some (.conn c)) }
    else none
  | .openOther n fd =>
    if s.table fd = none then
      some { s with table := Function.update s.table fd (some (.other n)) }
    else none
  | .closeOther fd =>
    match s.table fd with
    | some (.other _) => some { s with table := Function.update s.table fd none }
    | _ => none
  | .setCallback c =>
    if (s.handler c).opening = .made ∧ s.lock = none then
      some { s.set c { s.handler c with opening := .locked } with lock := some (.opener c) }
    else none
  | .epollAdd c ok =>
    if (s.handler c).opening = .locked then
      match ok, s.table (s.handler c).fd with
      | true, some f =>
        some ({ s.set c { s.handler c with opening := .added } with
          interest := Function.update s.interest f (some c) }.arm f)
      | _, _ => some { s.set c { s.handler c with opening := .failed } with lock := none }
    else none
  | .addConn c =>
    if (s.handler c).opening = .added then
      some { s.set c { s.handler c with opening := .done } with
        conns := Function.update s.conns (s.handler c).fd (some c)
        lock := none }
    else none
  | .sessionClose c =>
    if (s.handler c).opening = .done then
      some { s with pendingLambda := s.pendingLambda ++ [.close c] }
    else none
  | .postOther => some { s with pendingLambda := s.pendingLambda ++ [.other] }
  | .drain f n =>
    if 0 < n ∧ n ≤ s.buffered f then
      let s := { s with buffered := Function.update s.buffered f (s.buffered f - n) }
      some (if s.buffered f ≤ m.low then s.arm f else s)
    else none
  | .arrive f => some (s.arm f)
  | .write c data =>
    if (s.handler c).opening = .done ∧ (s.handler c).writer.Returned then
      some (s.set c { s.handler c with
        writer := .check data, data := data, sent := [], seenOpen := false, astray := 0 })
    else none
  | .writer c n => writeStep m s c n
  | .writeFails c errno =>
    match (s.handler c).writer with
    | .sys _ =>
      if errno ≠ 0 ∧ errno ≠ EAGAIN then
        some (s.set c { s.handler c with writer := .returned (some errno) })
      else none
    | _ => none
  | .wait polled =>
    if s.loop.isWait ∧ polled.length ≤ s.ready.length ∧ (polled = [] → s.ready = []) then
      some (epollWait m s polled)
    else none
  | .loop eof => loopStep eof s s.loop

def machine (m : Marks) : Sys State Act where
  init s := s = {}
  next := step m

/-- What the event loop can do. -/
inductive LoopMoves (s : State) : LoopPc → State → Prop
  | lock {batch : Batch} (hlock : s.lock = none) :
      LoopMoves s (.lock batch) { s with lock := some .loop, loop := .events batch }
  | unlock : LoopMoves s (.events []) { s.runLambda with lock := none }
  | event {c : ℕ} {ev : Events} {rest : Batch} :
      LoopMoves s (.events ((c, ev) :: rest)) { s with loop := handleEvent c ev rest }
  | read {c : ℕ} {out : Bool} {rest : Batch} (eof : Bool) : LoopMoves s (.read c out rest)
      { s with loop := if eof then .cas c (.batch out rest) else afterRead c out rest }
  | writeReady {c : ℕ} {rest : Batch} : LoopMoves s (.writeReady c rest)
      { s with loop := if (s.handler c).isClose then .events rest else .notify c rest }
  | notify {c : ℕ} {rest : Batch} (hch : (s.handler c).chClosed = false) : LoopMoves s (.notify c rest)
      { s.set c { s.handler c with notified := true } with loop := .events rest }
  | resume {c : ℕ} {k : Cont} (hclose : (s.handler c).isClose = true) :
      LoopMoves s (.cas c k) { s with loop := k.resume c }
  | cas {c : ℕ} {k : Cont} (hclose : (s.handler c).isClose = false) : LoopMoves s (.cas c k)
      { s.set c { s.handler c with isClose := true } with loop := .closeCh c k }
  | closeCh {c : ℕ} {k : Cont} (hch : (s.handler c).chClosed = false) : LoopMoves s (.closeCh c k)
      { s.set c { s.handler c with chClosed := true } with loop := .post c k }
  | sendPanics {c : ℕ} {rest : Batch} (hch : (s.handler c).chClosed = true) :
      LoopMoves s (.notify c rest) { s with loop := .panicked }
  | closePanics {c : ℕ} {k : Cont} (hch : (s.handler c).chClosed = true) :
      LoopMoves s (.closeCh c k) { s with loop := .panicked }
  | post {c : ℕ} {k : Cont} : LoopMoves s (.post c k)
      { s with pendingLambda := s.pendingLambda ++ [.cleanup c], loop := k.resume c }
  | idle : LoopMoves s (.lambdas []) { s with loop := .wait }
  | close {c : ℕ} {rest : List Lambda} :
      LoopMoves s (.lambdas (.close c :: rest)) { s with loop := .cas c (.lambdas rest) }
  | cleanup {c : ℕ} {rest : List Lambda} :
      LoopMoves s (.lambdas (.cleanup c :: rest)) { s with loop := .del c rest }
  | other {rest : List Lambda} : LoopMoves s (.lambdas (.other :: rest)) { s with loop := .lambdas rest }
  | delFails {c : ℕ} {rest : List Lambda} (hfd : s.table (s.handler c).fd = none) :
      LoopMoves s (.del c rest) { s with loop := .delLock c rest }
  | del {c : ℕ} {f : File} {rest : List Lambda} (hfd : s.table (s.handler c).fd = some f) :
      LoopMoves s (.del c rest)
        { s with interest := Function.update s.interest f none
                 ready := s.ready.erase f
                 loop := .delLock c rest }
  | delLock {c : ℕ} {rest : List Lambda} (hlock : s.lock = none) :
      LoopMoves s (.delLock c rest) { s with lock := some .loop, loop := .delete c rest }
  | delete {c : ℕ} {rest : List Lambda} : LoopMoves s (.delete c rest)
      { s with conns := Function.update s.conns (s.handler c).fd none
               lock := none
               loop := .closeFile c rest }
  | closeFile {c : ℕ} {rest : List Lambda} (hfile : (s.handler c).file = true) :
      LoopMoves s (.closeFile c rest)
        { s.set c { s.handler c with file := false } with
          table := Function.update s.table (s.handler c).fd none
          loop := .lambdas rest }
  | closeFails {c : ℕ} {rest : List Lambda} (hfile : (s.handler c).file = false) :
      LoopMoves s (.closeFile c rest) { s with loop := .lambdas rest }

theorem loopStep_moves {s t : State} {eof : Bool} {pc : LoopPc} (hs : loopStep eof s pc = some t) :
    LoopMoves s pc t := by
  unfold loopStep at hs
  split at hs
  · cases hs
  · cases hs
  · split_ifs at hs with hlock
    cases hs
    exact .lock hlock
  · cases hs
    exact .unlock
  · cases hs
    exact .event
  · cases hs
    exact .read eof
  · cases hs
    exact .writeReady
  · split_ifs at hs with hch
    · cases hs
      exact .sendPanics hch
    · cases hs
      exact .notify (by simpa using hch)
  · split_ifs at hs with hcl
    · cases hs
      exact .resume hcl
    · cases hs
      exact .cas (by simpa using hcl)
  · split_ifs at hs with hch
    · cases hs
      exact .closePanics hch
    · cases hs
      exact .closeCh (by simpa using hch)
  · cases hs
    exact .post
  · cases hs
    exact .idle
  · cases hs
    exact .close
  · cases hs
    exact .cleanup
  · cases hs
    exact .other
  · split at hs
    · rename_i hfd
      cases hs
      exact .delFails hfd
    · rename_i f hfd
      cases hs
      exact .del hfd
  · split_ifs at hs with hlock
    cases hs
    exact .delLock hlock
  · cases hs
    exact .delete
  · split_ifs at hs with hf
    · cases hs
      exact .closeFile hf
    · cases hs
      exact .closeFails (by simpa using hf)

/-! ## The life of a connection -/

inductive Life
  | unmade
  | made
  /-- The lock is held for it. -/
  | locked
  | added
  | failed
  | live
  /-- `isClose` is set. -/
  | closing
  /-- The channel is closed. -/
  | closed
  /-- The cleanup is posted. -/
  | posted
  | running
  | unregistered
  | deleted
  /-- The socket is closed. -/
  | gone
  deriving DecidableEq

namespace Life

def opening : Life → OpenPc
  | unmade => .unmade
  | made => .made
  | locked => .locked
  | added => .added
  | failed => .failed
  | _ => .done

def file : Life → Bool
  | unmade | gone => false
  | _ => true

def isClose : Life → Bool
  | unmade | made | locked | added | failed | live => false
  | _ => true

def chClosed : Life → Bool
  | closing => false
  | l => l.isClose

/-- The socket is in the epoll instance. -/
def registered : Life → Bool
  | added | live | closing | closed | posted | running => true
  | _ => false

/-- The handler is in `conns`. -/
def inConns : Life → Bool
  | live | closing | closed | posted | running | unregistered => true
  | _ => false

/-- The event loop is about to change it. -/
def Busy : Life → Prop
  | closing | closed | running | unregistered | deleted => True
  | _ => False

/-- The steps of the setup. -/
inductive Opens : Life → Life → Prop
  | made : Opens unmade made
  | locked : Opens made locked
  | added : Opens locked added
  | failed : Opens locked failed
  | live : Opens added live

end Life

namespace LoopPc

/-- The connection that the event loop is taking down. -/
def busy : LoopPc → Option (ℕ × Life)
  | closeCh c _ => some (c, .closing)
  | post c _ => some (c, .closed)
  | del c _ => some (c, .running)
  | delLock c _ | delete c _ => some (c, .unregistered)
  | closeFile c _ => some (c, .deleted)
  | _ => none

/-- The functions that are still to be run in this round. -/
def running : LoopPc → List Lambda
  | lambdas rest | del _ rest | delLock _ rest | delete _ rest | closeFile _ rest => rest
  | cas _ (.lambdas rest) | closeCh _ (.lambdas rest) | post _ (.lambdas rest) => rest
  | _ => []

/-- The handlers whose events are being handled, and are still to be handled. -/
def handling : LoopPc → List ℕ
  | lock batch | events batch => batch.map Prod.fst
  | read c _ rest | writeReady c rest | notify c rest => c :: rest.map Prod.fst
  | cas c (.batch _ rest) | closeCh c (.batch _ rest) | post c (.batch _ rest) =>
    c :: rest.map Prod.fst
  | _ => []

/-- What the event loop is about to do is in order. -/
def Going (life : ℕ → Life) : LoopPc → Prop
  | notify c _ => (life c).isClose = false
  | cas c _ => (life c).opening = .done
  | panicked => False
  | _ => True

/-- The event loop has the lock. -/
def Locked : LoopPc → Prop
  | events _ | read _ _ _ | writeReady _ _ | notify _ _ => True
  | cas _ (.batch _ _) | closeCh _ (.batch _ _) | post _ (.batch _ _) => True
  | delete _ _ => True
  | _ => False

end LoopPc

/-- The handler of a connection. -/
def Matches (h : Handler) (l : Life) : Prop :=
  h.opening = l.opening ∧ h.file = l.file ∧ h.isClose = l.isClose ∧ h.chClosed = l.chClosed

/-- The sockets and the tables that they are in. -/
structure Sockets (handler : ℕ → Handler) (table : ℕ → Option File) (interest : File → Option ℕ)
    (conns : ℕ → Option ℕ) (life : ℕ → Life) : Prop where
  like : ∀ c, Matches (handler c) (life c)
  files : Lists table File.conn (fun c => (handler c).fd) fun c => (life c).file = true
  watched : Lists interest id File.conn fun c => (life c).registered = true
  known : Lists conns id (fun c => (handler c).fd) fun c => (life c).inConns = true

/-- What the event loop and the goroutine that has the lock are about to do. -/
structure Control (lock : Option Holder) (loop : LoopPc) (pending : List Lambda) (life : ℕ → Life) :
    Prop where
  opener : ∀ c, lock = some (.opener c) ↔ life c = .locked ∨ life c = .added
  locked : lock = some .loop ↔ loop.Locked
  busy : ∀ c l, loop.busy = some (c, l) ↔ life c = l ∧ l.Busy
  cleanup : ∀ c, (loop.running ++ pending).count (.cleanup c) = if life c = .posted then 1 else 0
  close : ∀ c, .close c ∈ loop.running ++ pending → (life c).opening = .done
  handling : ∀ c ∈ loop.handling, (life c).registered = true
  going : loop.Going life

/-- The state, with the lives of the connections. -/
structure Lives (s : State) (life : ℕ → Life) : Prop where
  sockets : Sockets s.handler s.table s.interest s.conns life
  control : Control s.lock s.loop s.pendingLambda life

section Sockets

variable {handler : ℕ → Handler} {table table' : ℕ → Option File} {interest interest' : File → Option ℕ}
  {conns conns' : ℕ → Option ℕ} {life : ℕ → Life} {c : ℕ} {l : Life}
  {h' : Handler}

section Update

variable (P : Life → Bool)

theorem update_same (hP : P l = P (life c)) (c' : ℕ) :
    P (Function.update life c l c') = true ↔ P (life c') = true := by
  rcases eq_or_ne c' c with rfl | hne
  · rw [Function.update_self, hP]
  · rw [Function.update_of_ne hne]

theorem update_on (hP : P l = true) (c' : ℕ) :
    P (Function.update life c l c') = true ↔ P (life c') = true ∨ c' = c := by
  rcases eq_or_ne c' c with rfl | hne
  · simp [hP]
  · simp [hne]

theorem update_off (hP : P l = false) (c' : ℕ) :
    P (Function.update life c l c') = true ↔ P (life c') = true ∧ c' ≠ c := by
  rcases eq_or_ne c' c with rfl | hne
  · simp [hP]
  · simp [hne]

end Update

theorem File.conn_injective : Function.Injective File.conn := fun _ _ h => File.conn.inj h

theorem fd_update (hfd : h'.fd = (handler c).fd) (c' : ℕ) :
    (Function.update handler c h' c').fd = (handler c').fd := by
  rcases eq_or_ne c' c with rfl | hne
  · rw [Function.update_self, hfd]
  · rw [Function.update_of_ne hne]

namespace Sockets

variable (h : Sockets handler table interest conns life)

include h

theorem table_eq (hf : (life c).file = true) :
    table (handler c).fd = some (.conn c) := h.files.get (i := c) hf

/-- The life of one connection changes, and the tables with it. -/
theorem change (hm : Matches h' l)
    (hfd : h'.fd = (handler c).fd)
    (htable : Lists table' File.conn (fun c => (handler c).fd)
      fun c' => (Function.update life c l c').file = true)
    (hinterest : Lists interest' id File.conn fun c' => (Function.update life c l c').registered = true)
    (hconns : Lists conns' id (fun c => (handler c).fd)
      fun c' => (Function.update life c l c').inConns = true) :
    Sockets (Function.update handler c h') table' interest' conns' (Function.update life c l) := by
  refine ⟨fun c' => ?_, htable.congr (fun _ => Iff.rfl) fun c' _ => fd_update hfd c', hinterest,
    hconns.congr (fun _ => Iff.rfl) fun c' _ => fd_update hfd c'⟩
  rcases eq_or_ne c' c with rfl | hne
  · rwa [Function.update_self, Function.update_self]
  · rw [Function.update_of_ne hne, Function.update_of_ne hne]
    exact h.like c'

section Same

variable {l₀ : Life} (hlife : life c = l₀)

include hlife

theorem files_same (hl : l.file = l₀.file) : Lists table File.conn (fun c => (handler c).fd)
    fun c' => (Function.update life c l c').file = true :=
  h.files.congr (update_same Life.file (hlife ▸ hl)) fun _ _ => rfl

theorem watched_same (hl : l.registered = l₀.registered) : Lists interest id File.conn
    fun c' => (Function.update life c l c').registered = true :=
  h.watched.congr (update_same Life.registered (hlife ▸ hl)) fun _ _ => rfl

theorem known_same (hl : l.inConns = l₀.inConns) : Lists conns id (fun c => (handler c).fd)
    fun c' => (Function.update life c l c').inConns = true :=
  h.known.congr (update_same Life.inConns (hlife ▸ hl)) fun _ _ => rfl

/-- The life of one connection changes, and the tables do not. -/
theorem turn (hm : Matches h' l) (hfd : h'.fd = (handler c).fd) (hfile : l.file = l₀.file)
    (hreg : l.registered = l₀.registered) (hin : l.inConns = l₀.inConns) :
    Sockets (Function.update handler c h') table interest conns (Function.update life c l) :=
  h.change hm hfd (h.files_same hlife hfile) (h.watched_same hlife hreg) (h.known_same hlife hin)

/-- The handler does not show the change. -/
theorem relabel (hm : ∀ h : Handler, Matches h l₀ = Matches h l) (hfile : l.file = l₀.file)
    (hreg : l.registered = l₀.registered) (hin : l.inConns = l₀.inConns) :
    Sockets handler table interest conns (Function.update life c l) := by
  have ht := h.turn hlife ((hm _).mp (hlife ▸ h.like c)) rfl hfile hreg hin
  rwa [Function.update_eq_self] at ht

end Same

/-- Nothing changes but what a writer sees. -/
theorem writes (hfd : h'.fd = (handler c).fd) (hm : Matches (handler c) (life c) → Matches h' (life c)) :
    Sockets (Function.update handler c h') table interest conns life := by
  have ht := h.turn rfl (hm (h.like c)) hfd rfl rfl rfl
  rwa [Function.update_eq_self] at ht

theorem newConnection {fd : ℕ}
    (hlife : life c = .unmade) (hfree : table fd = none) :
    Sockets (Function.update handler c { fd := fd, file := true, opening := .made })
      (Function.update table fd (some (.conn c))) interest conns (Function.update life c .made) := by
  -- the connection that is made was in no table
  have hkey : ∀ c', c' ≠ c →
      (Function.update handler c { fd := fd, file := true, opening := .made } c').fd = (handler c').fd :=
    fun c' hne => by rw [Function.update_of_ne hne]
  have hfd : (Function.update handler c { fd := fd, file := true, opening := .made } c).fd = fd := by
    rw [Function.update_self]
  refine ⟨fun c' => ?_, ?_, ?_, ?_⟩
  · rcases eq_or_ne c' c with rfl | hne
    · rw [Function.update_self, Function.update_self]
      exact ⟨rfl, rfl, rfl, rfl⟩
    · rw [Function.update_of_ne hne, Function.update_of_ne hne]
      exact h.like c'
  · have htable := h.files.congr (fun _ => Iff.rfl) fun c' hf => hkey c' fun hcc => by
      simp [hcc, hlife, Life.file] at hf
    have hins := htable.insert (i := c) File.conn_injective (by rw [hfd]; exact hfree)
      (update_on Life.file (l := .made) rfl)
    rwa [hfd] at hins
  · exact h.watched_same hlife rfl
  · refine h.known.congr (update_same Life.inConns (by rw [hlife]; rfl)) fun c' hin => hkey c' ?_
    rintro rfl
    simp [hlife, Life.inConns] at hin

theorem epollAdd (hlife : life c = .locked) :
    Sockets (Function.update handler c { handler c with opening := .added }) table
      (Function.update interest (.conn c) (some c)) conns (Function.update life c .added) := by
  have hm := h.like c
  rw [hlife] at hm
  refine h.change ⟨rfl, hm.2⟩ rfl ?_ ?_ ?_
  · exact h.files_same hlife rfl
  · refine h.watched.insert (i := c) Function.injective_id ?_ (update_on Life.registered rfl)
    refine h.watched.eq_none Function.surjective_id fun c' hc' hkey => ?_
    cases hkey
    simp [hlife, Life.registered] at hc'
  · exact h.known_same hlife rfl

theorem addConn (hlife : life c = .added) :
    Sockets (Function.update handler c { handler c with opening := .done }) table interest
      (Function.update conns (handler c).fd (some c)) (Function.update life c .live) := by
  have hm := h.like c
  rw [hlife] at hm
  refine h.change ⟨rfl, hm.2⟩ rfl ?_ ?_ ?_
  · exact h.files_same hlife rfl
  · exact h.watched_same hlife rfl
  · refine h.known.insert (i := c) Function.injective_id ?_ (update_on Life.inConns rfl)
    refine h.known.eq_none Function.surjective_id fun c' hc' hkey => ?_
    -- two open sockets have different descriptors
    have hfile : (life c').file = true := by
      cases hl : life c' <;> simp_all [Life.file, Life.inConns]
    obtain rfl := h.files.key_inj File.conn_injective hfile (by rw [hlife]; rfl) hkey
    simp [hlife, Life.inConns] at hc'

theorem del (hlife : life c = .running) :
    Sockets handler table (Function.update interest (.conn c) none) conns
      (Function.update life c .unregistered) := by
  have hm := h.like c
  rw [hlife] at hm
  rw [← Function.update_eq_self c handler]
  refine h.change hm rfl ?_ ?_ ?_
  · exact h.files_same hlife rfl
  · exact h.watched.erase (i := c) Function.injective_id (by rw [hlife]; rfl)
      (update_off Life.registered rfl)
  · exact h.known_same hlife rfl

theorem delete (hlife : life c = .unregistered) :
    Sockets handler table interest (Function.update conns (handler c).fd none)
      (Function.update life c .deleted) := by
  have hm := h.like c
  rw [hlife] at hm
  have hc : Sockets (Function.update handler c (handler c)) table interest
      (Function.update conns (handler c).fd none) (Function.update life c .deleted) := by
    refine h.change hm rfl ?_ ?_ ?_
    · exact h.files_same hlife rfl
    · exact h.watched_same hlife rfl
    · exact h.known.erase (i := c) Function.injective_id (by rw [hlife]; rfl) (update_off Life.inConns rfl)
  rwa [Function.update_eq_self] at hc

theorem closeFile (hlife : life c = .deleted) :
    Sockets (Function.update handler c { handler c with file := false })
      (Function.update table (handler c).fd none) interest conns (Function.update life c .gone) := by
  have hm := h.like c
  rw [hlife] at hm
  refine h.change ⟨hm.1, rfl, hm.2.2⟩ rfl ?_ ?_ ?_
  · exact h.files.erase (i := c) File.conn_injective (by rw [hlife]; rfl) (update_off Life.file rfl)
  · exact h.watched_same hlife rfl
  · exact h.known_same hlife rfl

end Sockets

end Sockets

section Control

variable {lock lock' : Option Holder} {loop : LoopPc} {pending : List Lambda} {life : ℕ → Life} {c : ℕ}
  {l : Life}

/-- The event loop goes on, with nothing taken down. -/
theorem Control.goto {loop' : LoopPc} (h : Control lock loop pending life)
    (hlocked : loop'.Locked ↔ loop.Locked) (hbusy : loop'.busy = loop.busy)
    (hrun : loop'.running = loop.running) (hhandling : ∀ c ∈ loop'.handling, c ∈ loop.handling)
    (hgoing : loop'.Going life) : Control lock loop' pending life where
  opener := h.opener
  locked := h.locked.trans hlocked.symm
  busy := by rw [hbusy]; exact h.busy
  cleanup := by rw [hrun]; exact h.cleanup
  close := by rw [hrun]; exact h.close
  handling c hc := h.handling c (hhandling c hc)
  going := hgoing

/-- The connections whose events are handled are set up. -/
theorem Control.opening_of_handling (h : Control lock loop pending life) (hl : loop.Locked)
    (hc : c ∈ loop.handling) : (life c).opening = .done := by
  have hreg := h.handling c hc
  have hopener := h.opener c
  rw [h.locked.mpr hl] at hopener
  cases hlife : life c <;> simp_all [Life.registered, Life.opening]

section Loop

variable {batch rest : Batch} {ev : Events} {out : Bool} {k : Cont} {running : List Lambda}

attribute [local grind =] LoopPc.Locked LoopPc.busy LoopPc.running LoopPc.handling LoopPc.Going
  Function.update_apply Life.Busy Life.registered Life.opening Life.isClose

/-- The goroutine that sets up a connection takes a step. -/
theorem Control.opens (h : Control lock loop pending life) (hl : Life.Opens (life c) l)
    (hloop : lock' = some .loop ↔ lock = some .loop)
    (hopener : ∀ c', lock' = some (.opener c') ↔
      Function.update life c l c' = .locked ∨ Function.update life c l c' = .added) :
    Control lock' loop pending (Function.update life c l) := by
  have hnot : ¬(life c).Busy ∧ ¬l.Busy ∧ life c ≠ .posted ∧ l ≠ .posted ∧ l.isClose = false ∧
      ((life c).opening ≠ .done) ∧ ((life c).registered = true → l.registered = true) := by
    generalize life c = l₀ at hl
    cases hl <;> simp [Life.Busy, Life.isClose, Life.opening, Life.registered]
  exact {
    opener := hopener
    locked := hloop.trans h.locked
    busy := by grind [h.busy]
    cleanup := by grind [h.cleanup]
    close := by grind [h.close]
    handling := by grind [h.handling]
    going := by cases loop <;> grind [h.going] }

/-- The event loop changes the life of a connection that is set up. -/
theorem Control.turn {loop' : LoopPc} {pending' : List Lambda} (h : Control lock loop pending life)
    (hdone : (life c).opening = .done) (hdone' : l.opening = .done)
    (hopener : ∀ c', lock' = some (.opener c') ↔ lock = some (.opener c'))
    (hlocked : lock' = some .loop ↔ loop'.Locked)
    (hbusy : ∀ c' l', loop'.busy = some (c', l') ↔ Function.update life c l c' = l' ∧ l'.Busy)
    (hcleanup : ∀ c', (loop'.running ++ pending').count (.cleanup c') =
      if Function.update life c l c' = .posted then 1 else 0)
    (hclose : ∀ c', .close c' ∈ loop'.running ++ pending' → .close c' ∈ loop.running ++ pending)
    (hhandling : ∀ c' ∈ loop'.handling, c' ∈ loop.handling ∧ (c' = c → l.registered = true))
    (hgoing : loop'.Going (Function.update life c l)) :
    Control lock' loop' pending' (Function.update life c l) where
  opener := by grind [h.opener]
  locked := hlocked
  busy := hbusy
  cleanup := hcleanup
  close := by grind [h.close]
  handling := by grind [h.handling]
  going := hgoing

theorem Control.lock_events (h : Control none (.lock batch) pending life) :
    Control (some .loop) (.events batch) pending life :=
  { h with
    opener := by grind [h.opener]
    locked := iff_of_true rfl trivial }

theorem Control.runLambda (h : Control lock .wait pending life) :
    Control lock (.lambdas pending) [] life :=
  { h with
    cleanup := by grind [h.cleanup]
    close := by grind [h.close] }

theorem Control.report (h : Control lock .wait pending life)
    (hb : ∀ c ∈ batch.map Prod.fst, (life c).registered = true) :
    Control lock (.lock batch) pending life :=
  { h with handling := hb }

theorem Control.unlock_events (h : Control lock (.events []) pending life) :
    Control none (.lambdas pending) [] life :=
  { h with
    opener := fun c => by
      rw [← h.opener c, h.locked.mpr trivial]
      simp
    locked := iff_of_false nofun id
    cleanup := by grind [h.cleanup]
    close := by grind [h.close] }

theorem Control.afterRead (h : Control lock loop pending life) (hl : loop.Locked) (hb : loop.busy = none)
    (hrun : loop.running = []) (hhandling : ∀ c' ∈ c :: rest.map Prod.fst, c' ∈ loop.handling) :
    Control lock (afterRead c out rest) pending life := by
  unfold Conns.afterRead
  split_ifs
  · exact h.goto (iff_of_true trivial hl) hb.symm hrun.symm hhandling trivial
  · exact h.goto (iff_of_true trivial hl) hb.symm hrun.symm
      (fun c' hc' => hhandling c' (List.mem_cons_of_mem _ hc')) trivial

theorem Control.handleEvent (h : Control lock (.events ((c, ev) :: rest)) pending life) :
    Control lock (handleEvent c ev rest) pending life := by
  have hdone := h.opening_of_handling (c := c) trivial List.mem_cons_self
  unfold Conns.handleEvent
  split_ifs
  · exact h.goto Iff.rfl rfl rfl (fun _ hc => hc) hdone
  · exact h.goto Iff.rfl rfl rfl (fun _ hc => hc) trivial
  · exact h.afterRead trivial rfl rfl fun _ hc => hc

theorem Control.read (h : Control lock (.read c out rest) pending life) (eof : Bool) :
    Control lock (if eof then .cas c (.batch out rest) else Conns.afterRead c out rest) pending life := by
  have hdone := h.opening_of_handling (c := c) trivial List.mem_cons_self
  split_ifs
  · exact h.goto Iff.rfl rfl rfl (fun _ hc => hc) hdone
  · exact h.afterRead trivial rfl rfl fun _ hc => hc

theorem Control.writeReady (h : Control lock (.writeReady c rest) pending life) :
    Control lock (if (life c).isClose then .events rest else .notify c rest) pending life := by
  split_ifs with hcl
  · exact h.goto Iff.rfl rfl rfl (fun _ => List.mem_cons_of_mem _) trivial
  · exact h.goto Iff.rfl rfl rfl (fun _ hc => hc) (by simpa [LoopPc.Going] using hcl)

theorem Control.notified (h : Control lock (.notify c rest) pending life) :
    Control lock (.events rest) pending life :=
  h.goto Iff.rfl rfl rfl (fun _ => List.mem_cons_of_mem _) trivial

theorem Control.resume (h : Control lock (.cas c k) pending life) :
    Control lock (k.resume c) pending life := by
  cases k with
  | batch out rest => exact h.afterRead trivial rfl rfl fun _ hc => hc
  | lambdas rest => exact h.goto Iff.rfl rfl rfl (fun _ hc => hc) trivial

theorem Control.closing (h : Control lock (.cas c k) pending life) (hlife : life c = .live) :
    Control lock (.closeCh c k) pending (Function.update life c .closing) := by
  refine h.turn h.going rfl (fun _ => Iff.rfl) ?_ ?_ ?_ ?_ ?_ trivial
  · cases k <;> exact h.locked
  · grind [h.busy]
  · cases k <;> grind [h.cleanup]
  · cases k <;> exact fun _ => id
  · cases k <;> exact fun c' hc' => ⟨hc', fun _ => rfl⟩

theorem Control.closed (h : Control lock (.closeCh c k) pending life) :
    Control lock (.post c k) pending (Function.update life c .closed) := by
  have hlife := ((h.busy c .closing).mp rfl).1
  refine h.turn (by rw [hlife]; rfl) rfl (fun _ => Iff.rfl) ?_ ?_ ?_ ?_ ?_ trivial
  · cases k <;> exact h.locked
  · grind [h.busy]
  · cases k <;> grind [h.cleanup]
  · cases k <;> exact fun _ => id
  · cases k <;> exact fun c' hc' => ⟨hc', fun _ => rfl⟩

theorem Control.posted (h : Control lock (.post c k) pending life) :
    Control lock (k.resume c) (pending ++ [.cleanup c]) (Function.update life c .posted) := by
  have hlife := ((h.busy c .closed).mp rfl).1
  have hdone : (life c).opening = .done := by rw [hlife]; rfl
  cases k with
  | batch out rest =>
    show Control lock (if out then .writeReady c rest else .events rest) _ _
    split_ifs <;> refine h.turn hdone rfl (fun _ => Iff.rfl) h.locked ?_ ?_ ?_ ?_ trivial <;>
      grind [h.busy, h.cleanup]
  | lambdas rest =>
    refine h.turn hdone rfl (fun _ => Iff.rfl) h.locked ?_ ?_ ?_ (fun _ hc => (nomatch hc)) trivial
    · grind [h.busy, Cont.resume]
    · grind [h.cleanup, Cont.resume]
    · grind [Cont.resume]

theorem Control.idle (h : Control lock (.lambdas []) pending life) : Control lock .wait pending life :=
  h.goto Iff.rfl rfl rfl (fun _ hc => hc) trivial

theorem Control.skip_lambda {f : Lambda} (h : Control lock (.lambdas (f :: running)) pending life)
    (hf : ∀ c, f ≠ .cleanup c) : Control lock (.lambdas running) pending life :=
  { h with
    cleanup := fun c => by
      rw [← h.cleanup c]
      exact (List.count_cons_of_ne (hf c)).symm
    close := fun c hc => h.close c (List.mem_cons_of_mem _ hc) }

theorem Control.close_lambda (h : Control lock (.lambdas (.close c :: running)) pending life) :
    Control lock (.cas c (.lambdas running)) pending life :=
  { h.skip_lambda (by simp) with going := h.close c List.mem_cons_self }

theorem Control.cleanup_lambda (h : Control lock (.lambdas (.cleanup c :: running)) pending life) :
    life c = .posted ∧ Control lock (.del c running) pending (Function.update life c .running) := by
  have hlife : life c = .posted := by grind [h.cleanup c]
  refine ⟨hlife, h.turn (by rw [hlife]; rfl) rfl (fun _ => Iff.rfl) h.locked ?_ ?_
    (fun _ => List.mem_cons_of_mem _) (fun _ hc => (nomatch hc)) trivial⟩
  · grind [h.busy]
  · intro c'
    have hcount := h.cleanup c'
    grind

theorem Control.unregistered (h : Control lock (.del c running) pending life) :
    Control lock (.delLock c running) pending (Function.update life c .unregistered) := by
  have hlife := ((h.busy c .running).mp rfl).1
  refine h.turn (by rw [hlife]; rfl) rfl (fun _ => Iff.rfl) h.locked ?_ ?_ (fun _ => id)
    (fun _ hc => (nomatch hc)) trivial
  · grind [h.busy]
  · grind [h.cleanup]

theorem Control.delLock (h : Control none (.delLock c running) pending life) :
    Control (some .loop) (.delete c running) pending life :=
  { h with
    opener := by grind [h.opener]
    locked := iff_of_true rfl trivial }

theorem Control.deleted (h : Control lock (.delete c running) pending life) :
    Control none (.closeFile c running) pending (Function.update life c .deleted) := by
  have hlife := ((h.busy c .unregistered).mp rfl).1
  refine h.turn (by rw [hlife]; rfl) rfl ?_ (iff_of_false nofun id) ?_ ?_ (fun _ => id)
    (fun _ hc => (nomatch hc)) trivial
  · simp [h.locked.mpr trivial]
  · grind [h.busy]
  · grind [h.cleanup]

theorem Control.gone (h : Control lock (.closeFile c running) pending life) :
    Control lock (.lambdas running) pending (Function.update life c .gone) := by
  have hlife := ((h.busy c .deleted).mp rfl).1
  refine h.turn (by rw [hlife]; rfl) rfl (fun _ => Iff.rfl) h.locked ?_ ?_ (fun _ => id)
    (fun _ hc => (nomatch hc)) trivial
  · grind [h.busy]
  · grind [h.cleanup]

end Loop

end Control

/-! ## What a step does to the lives -/

section Step

variable {m : Marks} {s t : State} {life : ℕ → Life} {c : ℕ}

theorem lives_init : Lives {} fun _ => .unmade := by
  refine ⟨⟨fun _ => ⟨rfl, rfl, rfl, rfl⟩, ?_, ?_, ?_⟩, ?_⟩
  · intro k i
    simp [Life.file]
  · intro k i
    simp [Life.registered]
  · intro k i
    simp [Life.inConns]
  · constructor <;> simp [LoopPc.Locked, LoopPc.busy, LoopPc.running, LoopPc.handling, LoopPc.Going]
    simp [Life.Busy]

theorem Matches.life_eq_of {h : Handler} {l l' : Life} (hm : Matches h l) (ho : h.opening = l'.opening)
    (hne : l'.opening ≠ .done) : l = l' := by
  have hl : l.opening = l'.opening := by rw [← hm.1, ho]
  cases l <;> cases l' <;> simp_all [Life.opening]

theorem lives_newConnection (h : Lives s life) {fd : ℕ} (hs : step m s (.newConnection c fd) = some t) :
    Lives t (Function.update life c .made) := by
  simp only [step] at hs
  split_ifs at hs with hc
  cases hs
  have hlife : life c = .unmade := (h.sockets.like c).life_eq_of hc.1 (by decide)
  refine ⟨h.sockets.newConnection hlife hc.2, h.control.opens (hlife ▸ .made) Iff.rfl fun c' => ?_⟩
  refine (h.control.opener c').trans ?_
  grind [Function.update_apply]

theorem lives_setCallback (h : Lives s life) (hs : step m s (.setCallback c) = some t) :
    Lives t (Function.update life c .locked) := by
  simp only [step] at hs
  split_ifs at hs with hc
  cases hs
  have hlife : life c = .made := (h.sockets.like c).life_eq_of hc.1 (by decide)
  have hm := h.sockets.like c
  rw [hlife] at hm
  refine ⟨h.sockets.turn hlife ⟨rfl, hm.2⟩ rfl rfl rfl rfl,
    h.control.opens (hlife ▸ .locked) (by simp [hc.2]) fun c' => ?_⟩
  have hopener := h.control.opener c'
  grind [Function.update_apply]

theorem lives_epollAdd (h : Lives s life) {ok : Bool} (hs : step m s (.epollAdd c ok) = some t) :
    ∃ l, Lives t (Function.update life c l) := by
  simp only [step] at hs
  split_ifs at hs with hc
  have hlife : life c = .locked := (h.sockets.like c).life_eq_of hc (by decide)
  have hlock : s.lock = some (.opener c) := (h.control.opener c).mpr (.inl hlife)
  have hm := h.sockets.like c
  rw [hlife] at hm
  rw [h.sockets.table_eq (by rw [hlife]; rfl)] at hs
  cases ok with
  | true =>
    cases hs
    refine ⟨.added, h.sockets.epollAdd hlife,
      h.control.opens (hlife ▸ .added) Iff.rfl fun c' => (h.control.opener c').trans ?_⟩
    grind [Function.update_apply]
  | false =>
    cases hs
    refine ⟨.failed, h.sockets.turn (l := .failed) hlife ⟨rfl, hm.2⟩ rfl rfl rfl rfl,
      h.control.opens (hlife ▸ .failed) (by simp [hlock]) fun c' => ?_⟩
    have hopener := h.control.opener c'
    grind [Function.update_apply]

theorem lives_addConn (h : Lives s life) (hs : step m s (.addConn c) = some t) :
    Lives t (Function.update life c .live) := by
  simp only [step] at hs
  split_ifs at hs with hc
  cases hs
  have hlife : life c = .added := (h.sockets.like c).life_eq_of hc (by decide)
  have hlock : s.lock = some (.opener c) := (h.control.opener c).mpr (.inr hlife)
  refine ⟨h.sockets.addConn hlife, h.control.opens (hlife ▸ .live) (by simp [hlock]) fun c' => ?_⟩
  have hopener := h.control.opener c'
  grind [Function.update_apply]

theorem Control.post_lambda {lock : Option Holder} {loop : LoopPc} {pending : List Lambda} {f : Lambda}
    (h : Control lock loop pending life) (hf : ∀ c, f ≠ .cleanup c)
    (hclose : ∀ c, f = .close c → (life c).opening = .done) :
    Control lock loop (pending ++ [f]) life := by
  refine ⟨h.opener, h.locked, h.busy, fun c => ?_, fun c hc => ?_, h.handling, h.going⟩
  · rw [← List.append_assoc, List.count_append, h.cleanup c, List.count_singleton]
    simp [hf c]
  · rw [← List.append_assoc, List.mem_append, List.mem_singleton] at hc
    rcases hc with hc | rfl
    · exact h.close c hc
    · exact hclose c rfl

theorem lives_writer (h : Lives s life) {n : ℕ} (hs : writeStep m s c n = some t) : Lives t life := by
  unfold writeStep at hs
  cases hw : (s.handler c).writer with
  | returned e => simp [hw] at hs
  | check left =>
    simp only [hw] at hs
    cases left <;> cases hs <;> exact ⟨h.sockets.writes rfl id, h.control⟩
  | sys left =>
    simp only [hw] at hs
    split at hs
    · cases hs
      exact ⟨h.sockets.writes rfl id, h.control⟩
    · split_ifs at hs <;> cases hs <;> exact ⟨h.sockets.writes rfl id, h.control⟩
  | wait left =>
    simp only [hw] at hs
    split_ifs at hs <;> cases hs <;> exact ⟨h.sockets.writes rfl id, h.control⟩

theorem lives_wait (h : Lives s life) {polled : List Events} (hs : step m s (.wait polled) = some t) :
    Lives t life := by
  simp only [step] at hs
  split_ifs at hs with hc
  cases hs
  have hw : s.loop = .wait := by
    cases hl : s.loop <;> simp_all [LoopPc.isWait]
  have hco := h.control
  rw [hw] at hco
  unfold epollWait
  simp only
  split_ifs with hb
  · exact ⟨h.sockets, hco.runLambda⟩
  · refine ⟨h.sockets, hco.report fun c hc => ?_⟩
    obtain ⟨e, he, rfl⟩ := List.mem_map.mp hc
    obtain ⟨⟨f, ev⟩, -, hpoll⟩ := List.mem_filterMap.mp he
    unfold poll at hpoll
    simp only at hpoll
    split_ifs at hpoll
    obtain ⟨c, hi, rfl⟩ := Option.map_eq_some_iff.mp hpoll
    exact ((h.sockets.watched f c).mp hi).1

theorem lives_loop {pc : LoopPc} (h : Lives s life) (hpc : s.loop = pc) (hs : LoopMoves s pc t) :
    ∃ life', Lives t life' := by
  obtain ⟨hso, hco⟩ := h
  rw [hpc] at hco
  cases hs with
  | lock hlock =>
    rw [hlock] at hco
    exact ⟨life, hso, hco.lock_events⟩
  | unlock => exact ⟨life, hso, hco.unlock_events⟩
  | event => exact ⟨life, hso, hco.handleEvent⟩
  | read eof => exact ⟨life, hso, hco.read eof⟩
  | @writeReady c rest =>
    refine ⟨life, hso, ?_⟩
    rw [(hso.like c).2.2.1]
    exact hco.writeReady
  | notify hch => exact ⟨life, hso.writes rfl id, hco.notified⟩
  | @sendPanics c rest hch =>
    have hopen : (life c).isClose = false := hco.going
    rw [(hso.like c).2.2.2] at hch
    cases hlife : life c <;> simp_all [Life.chClosed, Life.isClose]
  | resume hcl => exact ⟨life, hso, hco.resume⟩
  | @cas c k hcl =>
    have hm := hso.like c
    have hlife : life c = .live := by
      have hdone : (life c).opening = .done := hco.going
      rw [hm.2.2.1] at hcl
      cases hlife : life c <;> simp_all [Life.opening, Life.isClose]
    rw [hlife] at hm
    exact ⟨_, hso.turn (l := .closing) hlife ⟨hm.1, hm.2.1, rfl, hm.2.2.2⟩ rfl rfl rfl rfl, hco.closing hlife⟩
  | @closeCh c k hch =>
    have hlife := ((hco.busy c .closing).mp rfl).1
    have hm := hso.like c
    rw [hlife] at hm
    exact ⟨_, hso.turn (l := .closed) hlife ⟨hm.1, hm.2.1, hm.2.2.1, rfl⟩ rfl rfl rfl rfl, hco.closed⟩
  | @closePanics c k hch =>
    have hlife := ((hco.busy c .closing).mp rfl).1
    rw [(hso.like c).2.2.2, hlife] at hch
    cases hch
  | @post c k =>
    have hlife := ((hco.busy c .closed).mp rfl).1
    exact ⟨_, hso.relabel (l := .posted) hlife (fun _ => rfl) rfl rfl rfl, hco.posted⟩
  | idle => exact ⟨life, hso, hco.idle⟩
  | close => exact ⟨life, hso, hco.close_lambda⟩
  | cleanup =>
    obtain ⟨hlife, hco⟩ := hco.cleanup_lambda
    exact ⟨_, hso.relabel (l := .running) hlife (fun _ => rfl) rfl rfl rfl, hco⟩
  | other => exact ⟨life, hso, hco.skip_lambda (by simp)⟩
  | @delFails c rest hfd =>
    have hlife := ((hco.busy c .running).mp rfl).1
    rw [hso.table_eq (by rw [hlife]; rfl)] at hfd
    cases hfd
  | @del c f rest hfd =>
    have hlife := ((hco.busy c .running).mp rfl).1
    rw [hso.table_eq (by rw [hlife]; rfl)] at hfd
    cases hfd
    exact ⟨_, hso.del hlife, hco.unregistered⟩
  | delLock hlock =>
    rw [hlock] at hco
    exact ⟨life, hso, hco.delLock⟩
  | @delete c rest =>
    have hlife := ((hco.busy c .unregistered).mp rfl).1
    exact ⟨_, hso.delete hlife, hco.deleted⟩
  | @closeFile c rest hfile =>
    have hlife := ((hco.busy c .deleted).mp rfl).1
    exact ⟨_, hso.closeFile hlife, hco.gone⟩
  | @closeFails c rest hfile =>
    have hlife := ((hco.busy c .deleted).mp rfl).1
    rw [(hso.like c).2.1, hlife] at hfile
    cases hfile

/-- **Step.** -/
theorem lives_step (h : Lives s life) {a : Act} (hs : step m s a = some t) : ∃ life', Lives t life' := by
  cases a with
  | newConnection c fd => exact ⟨_, lives_newConnection h hs⟩
  | setCallback c => exact ⟨_, lives_setCallback h hs⟩
  | epollAdd c ok => exact (lives_epollAdd h hs).imp' _ fun _ => id
  | addConn c => exact ⟨_, lives_addConn h hs⟩
  | writer c n => exact ⟨life, lives_writer h hs⟩
  | wait polled => exact ⟨life, lives_wait h hs⟩
  | loop eof => exact lives_loop h rfl (loopStep_moves hs)
  | openOther n fd =>
    simp only [step] at hs
    split_ifs at hs with hc
    cases hs
    obtain ⟨hlike, hfiles, hwatched, hknown⟩ := h.sockets
    exact ⟨life, ⟨hlike, hfiles.of_ne (by simp [hc]) (by simp), hwatched, hknown⟩, h.control⟩
  | closeOther fd =>
    simp only [step] at hs
    split at hs
    · rename_i n hfd
      cases hs
      obtain ⟨hlike, hfiles, hwatched, hknown⟩ := h.sockets
      exact ⟨life, ⟨hlike, hfiles.of_ne (by simp [hfd]) (by simp), hwatched, hknown⟩, h.control⟩
    · cases hs
  | sessionClose c =>
    simp only [step] at hs
    split_ifs at hs with hc
    cases hs
    refine ⟨life, h.sockets, h.control.post_lambda (by simp) fun c' hc' => ?_⟩
    cases hc'
    rw [← (h.sockets.like c).1, hc]
  | postOther =>
    cases hs
    exact ⟨life, h.sockets, h.control.post_lambda (by simp) (by simp)⟩
  | drain f n =>
    simp only [step] at hs
    split_ifs at hs <;> cases hs <;> exact ⟨life, h.sockets, h.control⟩
  | arrive f =>
    cases hs
    exact ⟨life, h.sockets, h.control⟩
  | write c data =>
    simp only [step] at hs
    split_ifs at hs
    cases hs
    exact ⟨life, h.sockets.writes rfl id, h.control⟩
  | writeFails c errno =>
    simp only [step] at hs
    split at hs
    · split_ifs at hs
      cases hs
      exact ⟨life, h.sockets.writes rfl id, h.control⟩
    · cases hs

/-- **Run.** -/
theorem lives_reachable (hr : (machine m).Reachable s) : ∃ life, Lives s life := by
  refine hr.invariant (fun s => ∃ life, Lives s life) ?_ ?_
  · rintro s rfl
    exact ⟨_, lives_init⟩
  · rintro s a t ⟨life, h⟩ - hs
    exact lives_step h hs

end Step

/-- What is said of a connection by the tables is true, and what is to be done will find it so. -/
structure InPlace (s : State) : Prop where
  /-- An event is handled, or waits to be, only if the socket is open under the descriptor of
      the handler; when the lock is held, `conns` keeps the handler alive. -/
  events : ∀ c ∈ s.loop.handling, s.table (s.handler c).fd = some (.conn c) ∧
    s.interest (.conn c) = some c ∧ (s.loop.Locked → s.conns (s.handler c).fd = some c)
  /-- No send on a closed channel, and no second `close` of it. -/
  channel : s.loop ≠ .panicked
  /-- The epoll instance reports a socket to its own handler. -/
  interest : ∀ f c, s.interest f = some c → f = .conn c ∧ s.table (s.handler c).fd = some (.conn c)
  conns : ∀ fd c, s.conns fd = some c → (s.handler c).fd = fd ∧ s.table fd = some (.conn c)
  /-- What takes a connection down finds its own socket and its own entry. -/
  takedown : ∀ c l, s.loop.busy = some (c, l) → s.table (s.handler c).fd = some (.conn c) ∧
    (l ≠ .deleted → s.conns (s.handler c).fd = some c)
  /-- The cleanup of a connection is posted once; then everything is still in place. -/
  cleanup : ∀ c, .cleanup c ∈ s.loop.running ++ s.pendingLambda →
    (s.loop.running ++ s.pendingLambda).count (.cleanup c) = 1 ∧
      s.table (s.handler c).fd = some (.conn c) ∧ s.conns (s.handler c).fd = some c
  /-- No closed connection is forgotten. -/
  closed : ∀ c, (s.handler c).isClose = true → (s.handler c).file = true →
    .cleanup c ∈ s.loop.running ++ s.pendingLambda ∨ ∃ l, s.loop.busy = some (c, l)

theorem Lives.inPlace {s : State} {life : ℕ → Life} (h : Lives s life) : InPlace s := by
  obtain ⟨hso, hco⟩ := h
  have hopen : ∀ c, (life c).registered = true ∨ (life c).inConns = true ∨ (life c).Busy →
      s.table (s.handler c).fd = some (.conn c) := by
    intro c hc
    refine hso.table_eq ?_
    cases hl : life c <;> simp_all [Life.registered, Life.inConns, Life.Busy, Life.file]
  have hposted : ∀ c, .cleanup c ∈ s.loop.running ++ s.pendingLambda → life c = .posted := by
    intro c hc
    by_contra hne
    have hcount := hco.cleanup c
    rw [if_neg hne, List.count_eq_zero] at hcount
    exact hcount hc
  refine ⟨fun c hc => ?_, fun hp => (hp ▸ hco.going :), fun f c hf => ?_, fun fd c hc => ?_,
    fun c l hb => ?_, fun c hc => ?_, fun c hcl hf => ?_⟩
  · have hreg := hco.handling c hc
    refine ⟨hopen c (.inl hreg), hso.watched.get (i := c) hreg, fun hl => hso.known.get (i := c) ?_⟩
    have hdone := hco.opening_of_handling hl hc
    cases hlife : life c <;> simp_all [Life.registered, Life.opening, Life.inConns]
  · obtain ⟨hreg, rfl⟩ := (hso.watched f c).mp hf
    exact ⟨rfl, hopen c (.inl hreg)⟩
  · obtain ⟨hin, rfl⟩ := (hso.known fd c).mp hc
    exact ⟨rfl, hopen c (.inr (.inl hin))⟩
  · obtain ⟨rfl, hbusy⟩ := (hco.busy c l).mp hb
    refine ⟨hopen c (.inr (.inr hbusy)), fun hne => hso.known.get (i := c) ?_⟩
    cases hlife : life c <;> simp_all [Life.Busy, Life.inConns]
  · have hlife := hposted c hc
    refine ⟨by rw [hco.cleanup c, if_pos hlife], hopen c (.inl (by rw [hlife]; rfl)), ?_⟩
    exact hso.known.get (i := c) (by rw [hlife]; rfl)
  · have hm := hso.like c
    rw [hm.2.2.1] at hcl
    rw [hm.2.1] at hf
    by_cases hp : life c = .posted
    · refine .inl (List.count_pos_iff.mp ?_)
      rw [hco.cleanup c, if_pos hp]
      exact Nat.one_pos
    · refine .inr ⟨life c, (hco.busy c _).mpr ⟨rfl, ?_⟩⟩
      cases hlife : life c <;> simp_all [Life.isClose, Life.file, Life.Busy]

/-- **Safety.** -/
theorem events_reach_open_connections {m : Marks} {s : State} (hr : (machine m).Reachable s) : InPlace s := by
  obtain ⟨life, h⟩ := lives_reachable hr
  exact h.inPlace

/-- A connection is closed by its peer, and its descriptor is used by the next one. -/
def reuseRun : List Act := [
  .newConnection 0 5, .setCallback 0, .epollAdd 0 true, .addConn 0, .wait [⟨true, false, false⟩],
  .loop false, .loop false, .loop false, .loop false, .loop false, .loop false, .loop false, .loop false,
  .loop false, .loop false, .loop false, .loop false,
  .newConnection 1 5, .setCallback 1, .epollAdd 1 true, .addConn 1, .wait [⟨false, true, false⟩],
  .loop false, .loop false]

theorem events_reach_open_connections_reuse : ∃ s, (machine ⟨0, 1, Nat.one_pos⟩).Reachable s ∧
    (s.handler 0).fd = (s.handler 1).fd ∧ 1 ∈ s.loop.handling ∧ InPlace s ∧
    s.table (s.handler 1).fd = some (.conn 1) := by
  obtain ⟨s, hr, hfd, hh⟩ := (machine ⟨0, 1, Nat.one_pos⟩).exists_reachable_of_run {} reuseRun
    (fun s => (s.handler 0).fd = (s.handler 1).fd ∧ 1 ∈ s.loop.handling) rfl (by decide +kernel)
  have h := events_reach_open_connections hr
  exact ⟨s, hr, hfd, hh, h, (h.events 1 hh).1⟩

end Shmipc.EventDispatcher.Conns
