import Shmipc.Common.FrameWriter
import Shmipc.Protocol.Event
import Shmipc.Session.Machine

/-!
# The writers of a session's socket

Two kinds of goroutines write to the connection of a session: the send loop, which takes its
items from `sendCh`, and the callers of `wakeUpPeer` and `Session.hotRestart`, which write
directly where they win the flag `writing` and hand their frame to the send loop where they do
not. A caller that gives the flag back puts a token in `notifyContinueWriteCh`, which has one
place; the send loop waits for a token each time it finds the flag taken.

The steps are those of `send` (session.go:439-465), `wakeUpPeer` behind `markWorking`
(session.go:616-631), `hotRestart` (session.go:690-712), the first `select` of
`waitForSendErr` (session.go:406-415) and `connEventHandler.write`
(event_dispatcher_linux.go:139-159), whose system call accepts any number of bytes. The session
may be shut down and the connection closed at any time. A socket that has refused a write
refuses all later ones. The result sent to an item's error channel is left out: nothing here
reads it.

* `step_move`: the machine is a system of writers in the sense of `Common.FrameWriter`, which
  gives mutual exclusion and the bytes.
* `Inv.woken`: whom the send loop waits for.
* `whole_frames_and_loop_woken`: both, in every state of every run.
-/

namespace Shmipc.SendLoop

open Common
open Session (sendChCap)

/-! ## Connection -/

/-- `connEventHandler.write` with the bytes it has not written: before the load of `isClose`,
    and before the system call. -/
inductive Write
  | load (rest : List UInt8)
  | syscall (rest : List UInt8)
  deriving DecidableEq

structure Conn where
  isClose : Bool
  /-- The socket refuses writes with an error that is not `EAGAIN`. -/
  refuses : Bool
  wire : List UInt8
  deriving DecidableEq

/-- What a step of `connEventHandler.write` leads to. -/
inductive Written
  | more (w : Write)
  | returned (err : Bool)
  deriving DecidableEq

/-- One step of `connEventHandler.write`. The system call accepts `n` bytes; 0 stands for
    `EAGAIN`, after which the goroutine waits until the connection is writable or closed. -/
def Conn.write (c : Conn) (n : ℕ) : Write → Option (Conn × Written)
  | .load rest =>
    if rest = [] then some (c, .returned false)
    else if c.isClose then some (c, .returned true)
    else some (c, .more (.syscall rest))
  | .syscall rest =>
    if c.refuses then some (c, .returned true)
    else if n ≤ rest.length then
      some ({ c with wire := c.wire ++ rest.take n }, .more (.load (rest.drop n)))
    else none

/-! ## Goroutines -/

/-- `sendReady` (session.go:96-101). -/
structure Ready where
  hdr : Option (List UInt8)
  body : Option (List UInt8)
  deriving DecidableEq

/-- The frame an item stands for. -/
def Ready.bytes (r : Ready) : List UInt8 := r.hdr.getD [] ++ r.body.getD []

/-- Where `Session.send` is; a constructor stands for the step that is taken next. -/
inductive LoopPc
  | select
  /-- `CompareAndSwapUint32(&s.writing, 0, 1)`. -/
  | cas (r : Ready)
  /-- `<-s.notifyContinueWriteCh`. -/
  | wait (r : Ready)
  /-- `writeEventData(ready.Hdr, ready.Err)`. -/
  | hdr (w : Write) (body : Option (List UInt8))
  /-- `writeEventData(ready.Body, ready.Err)`. -/
  | body (w : Write)
  /-- `StoreUint32(&s.writing, 0)`. -/
  | store
  | exited
  deriving DecidableEq

/-- Behind the header. -/
def LoopPc.startBody : Option (List UInt8) → LoopPc
  | some data => .body (.load data)
  | none => .store

/-- Behind the successful `CompareAndSwapUint32`. -/
def LoopPc.start (r : Ready) : LoopPc :=
  match r.hdr with
  | some data => .hdr (.load data) r.body
  | none => startBody r.body

/-- The functions with a fast and a slow path. -/
inductive Call
  | wakeUpPeer
  | hotRestart (epoch : UInt64)
  | hotRestartAck (epoch : UInt64)
  deriving DecidableEq

/-- What a call has to send. -/
def Call.data (v : UInt8) : Call → List UInt8
  | .wakeUpPeer => Protocol.Frame.encode v .polling
  | .hotRestart epoch => Protocol.Frame.encode v (.hotRestart epoch)
  | .hotRestartAck epoch => Protocol.Frame.encode v (.hotRestartAck epoch)

/-- Where a caller is. -/
inductive CallPc
  /-- `CompareAndSwapUint32(&s.writing, 0, 1)`. -/
  | cas (data : List UInt8)
  /-- Fast path: `writeEventData`. -/
  | write (w : Write)
  /-- Fast path: `StoreUint32(&s.writing, 0)`. -/
  | store
  /-- Fast path: `asyncNotify(s.notifyContinueWriteCh)`. -/
  | notify
  /-- Slow path: the item is sent to `sendCh`. -/
  | slow (data : List UInt8)
  | returned
  deriving DecidableEq

/-- Between winning the flag and the notification. -/
def CallPc.Notifies : CallPc → Prop
  | .write _ | .store | .notify => True
  | .cas _ | .slow _ | .returned => False

structure State where
  writing : Bool
  /-- `notifyContinueWriteCh` holds a token. -/
  notifyContinueWriteCh : Bool
  sendCh : List Ready
  /-- `shutdownCh` is closed. -/
  shutdown : Bool
  conn : Conn
  loop : LoopPc
  callers : List CallPc
  /-- The frames that were passed to the session. -/
  submitted : List (List UInt8)
  /-- The frames whose goroutine has won the flag, in that order. -/
  begun : List (List UInt8)
  /-- Some `connEventHandler.write` has returned an error. -/
  failed : Bool
  deriving DecidableEq

def State.setCall (s : State) (k : ℕ) (c : CallPc) : State :=
  { s with callers := s.callers.set k c }

inductive Act
  /-- A goroutine enters `hotRestart`, or `wakeUpPeer` with a successful `markWorking`. -/
  | call (c : Call)
  /-- A goroutine in `waitForSend` finds room in `sendCh`. -/
  | waitForSend (r : Ready)
  /-- A step of the caller `k`. -/
  | caller (k n : ℕ)
  /-- A step of `send`. -/
  | send (n : ℕ)
  /-- `send` finds `shutdownCh` closed. -/
  | exit
  /-- `Session.Close` closes `shutdownCh`. -/
  | shutdown
  /-- `deferredClose` sets `isClose`. -/
  | closeConn
  /-- The socket fails. -/
  | refuse
  deriving DecidableEq

/-- The fast and the slow path. -/
def stepCall (s : State) (k n : ℕ) : CallPc → Option State
  | .cas data =>
    if s.writing then some (s.setCall k (.slow data))
    else some { s.setCall k (.write (.load data)) with
      writing := true, begun := s.begun ++ [data] }
  | .write w =>
    match s.conn.write n w with
    | none => none
    | some (conn, .more w') => some { s.setCall k (.write w') with conn := conn }
    | some (conn, .returned err) =>
      some { s.setCall k .store with conn := conn, failed := s.failed || err }
  | .store => some { s.setCall k .notify with writing := false }
  | .notify => some { s.setCall k .returned with notifyContinueWriteCh := true }
  | .slow data =>
    if s.sendCh.length < sendChCap then
      some { s.setCall k .returned with sendCh := s.sendCh ++ [⟨none, some data⟩] }
    else none
  | .returned => none

/-- `Session.send`. A failed write of the header is followed by the body all the same. -/
def stepSend (s : State) (n : ℕ) : LoopPc → Option State
  | .select =>
    match s.sendCh with
    | [] => none
    | r :: rest => some { s with loop := .cas r, sendCh := rest }
  | .cas r =>
    if s.writing then some { s with loop := .wait r }
    else some { s with loop := .start r, writing := true, begun := s.begun ++ [r.bytes] }
  | .wait r =>
    if s.notifyContinueWriteCh then
      some { s with loop := .cas r, notifyContinueWriteCh := false }
    else none
  | .hdr w data =>
    match s.conn.write n w with
    | none => none
    | some (conn, .more w') => some { s with loop := .hdr w' data, conn := conn }
    | some (conn, .returned err) =>
      some { s with loop := .startBody data, conn := conn, failed := s.failed || err }
  | .body w =>
    match s.conn.write n w with
    | none => none
    | some (conn, .more w') => some { s with loop := .body w', conn := conn }
    | some (conn, .returned err) =>
      some { s with loop := .store, conn := conn, failed := s.failed || err }
  | .store => some { s with loop := .select, writing := false }
  | .exited => none

/-- One step of a session of protocol version `v`. -/
def step (v : UInt8) (s : State) : Act → Option State
  | .call c =>
    some { s with
      callers := s.callers ++ [.cas (c.data v)], submitted := s.submitted ++ [c.data v] }
  | .waitForSend r =>
    if s.sendCh.length < sendChCap then
      some { s with sendCh := s.sendCh ++ [r], submitted := s.submitted ++ [r.bytes] }
    else none
  | .caller k n => (s.callers[k]?).bind (stepCall s k n)
  | .send n => stepSend s n s.loop
  | .exit => if s.loop = .select ∧ s.shutdown then some { s with loop := .exited } else none
  | .shutdown => some { s with shutdown := true }
  | .closeConn => some { s with conn := { s.conn with isClose := true } }
  | .refuse => some { s with conn := { s.conn with refuses := true } }

/-- A session behind `newSession`. -/
def initial : State where
  writing := false
  notifyContinueWriteCh := false
  sendCh := []
  shutdown := false
  conn := ⟨false, false, []⟩
  loop := .select
  callers := []
  submitted := []
  begun := []
  failed := false

def machine (v : UInt8) : Sys State Act := ⟨(· = initial), step v⟩

/-! ## The session as a system of writers -/

open FrameWriter (Output Load Local Move holding waiting)

/-- The goroutine has found the connection open. -/
def Write.mark : Write → Bool
  | .load _ => false
  | .syscall _ => true

def Write.rest : Write → List UInt8
  | .load rest | .syscall rest => rest

def LoopPc.load : LoopPc → Load UInt8
  | .select | .exited => 0
  | .cas r | .wait r => waiting r.bytes
  | .hdr w data => holding w.mark (w.rest ++ data.getD [])
  | .body w => holding w.mark w.rest
  | .store => holding false []

def CallPc.load : CallPc → Load UInt8
  | .cas data | .slow data => waiting data
  | .write w => holding w.mark w.rest
  | .store => holding false []
  | .notify | .returned => 0

/-- What waits in `sendCh`. -/
def queued (sendCh : List Ready) : Load UInt8 := (sendCh.map fun r => waiting r.bytes).sum

def State.load (s : State) : Load UInt8 :=
  (s.callers.map CallPc.load).sum + (s.loop.load + queued s.sendCh)

def State.output (s : State) : Output UInt8 where
  flag := s.writing
  closed := s.conn.isClose
  broken := s.conn.refuses
  failed := s.failed
  wire := s.conn.wire
  begun := s.begun
  submitted := s.submitted

theorem load_startBody (body : Option (List UInt8)) :
    (LoopPc.startBody body).load = holding false (body.getD []) := by
  cases body <;> rfl

theorem load_start (r : Ready) : (LoopPc.start r).load = holding false r.bytes := by
  obtain ⟨_ | data, body⟩ := r
  · exact load_startBody body
  · rfl

theorem queued_append (q : List Ready) (r : Ready) :
    queued (q ++ [r]) = queued q + waiting r.bytes := by
  simp [queued]

section Moves

variable {v : UInt8} {s t : State} {a : Act} {k n : ℕ} {c : CallPc} {conn : Conn} {w w' : Write}
  {err : Bool}

/-- A write that goes on; `tail` is what the goroutine writes after it. -/
theorem write_more (tail : List UInt8) (h : s.conn.write n w = some (conn, .more w')) :
    Local s.output (holding w.mark (w.rest ++ tail)) { s with conn := conn }.output
      (holding w'.mark (w'.rest ++ tail)) := by
  cases w with
  | load rest =>
    rw [Conn.write] at h
    split_ifs at h with hrest hc
    · cases h
    · cases h
    · cases h
      exact .check (Bool.eq_false_of_not_eq_true hc)
  | syscall rest =>
    rw [Conn.write] at h
    split_ifs at h with hr hn
    · cases h
    · cases h
      have hl := @Local.chunk _ s.output (rest ++ tail) n (Bool.eq_false_of_not_eq_true hr)
      rwa [List.take_append_of_le_length hn, List.drop_append_of_le_length hn] at hl

theorem write_returned (tail : List UInt8) (h : s.conn.write n w = some (conn, .returned err)) :
    Local s.output (holding w.mark (w.rest ++ tail))
      { s with conn := conn, failed := s.failed || err }.output (holding false tail) := by
  cases w with
  | load rest =>
    rw [Conn.write] at h
    split_ifs at h with hrest hc
    · cases h
      rw [Bool.or_false, hrest]
      exact .quiet
    · cases h
      rw [Bool.or_true]
      exact .fail (.inl hc)
    · cases h
  | syscall rest =>
    rw [Conn.write] at h
    split_ifs at h with hr hn
    · cases h
      rw [Bool.or_true]
      exact .fail (.inr hr)
    · cases h

/-- What everyone but the caller `k` has to write. -/
def State.others (s : State) (k : ℕ) : Load UInt8 :=
  ((s.callers.eraseIdx k).map CallPc.load).sum + (s.loop.load + queued s.sendCh)

theorem load_eq_others (hk : s.callers[k]? = some c) : s.load = s.others k + c.load := by
  rw [State.load, sum_map_eraseIdx hk, State.others, add_right_comm]

theorem load_setCall (hk : s.callers[k]? = some c) (c' : CallPc) :
    (s.setCall k c').load = s.others k + c'.load := by
  rw [State.load, State.setCall, sum_map_set_eraseIdx hk, State.others, add_right_comm]

/-- A step of a caller that changes its own share. -/
theorem move_of_caller (c' : CallPc) (hk : s.callers[k]? = some c) (ht : t.load = (s.setCall k c').load)
    (hl : Local s.output c.load t.output c'.load) : Move s.output s.load t.output t.load := by
  rw [ht, load_setCall hk, load_eq_others hk]
  exact .ofLocal _ hl

/-- A step of the send loop that changes its own share. -/
theorem move_of_loop (hcallers : t.callers = s.callers) (hsendCh : t.sendCh = s.sendCh)
    (hl : Local s.output s.loop.load t.output t.loop.load) :
    Move s.output s.load t.output t.load := by
  have hload : ∀ u : State, u.load =
      (u.callers.map CallPc.load).sum + queued u.sendCh + u.loop.load := fun u => by
    rw [State.load, add_comm u.loop.load, add_assoc]
  rw [hload, hload, hcallers, hsendCh]
  exact .ofLocal _ hl

/-- A step that hands a frame on, or none. -/
theorem move_of_load_eq (hload : t.load = s.load) (hout : t.output = s.output) :
    Move s.output s.load t.output t.load := by
  have h := Move.ofLocal 0 (Local.quiet (o := s.output) (x := s.load))
  rw [zero_add] at h
  rwa [hload, hout]

theorem stepCall_move (hk : s.callers[k]? = some c) (h : stepCall s k n c = some t) :
    Move s.output s.load t.output t.load := by
  cases c with
  | cas data =>
    rw [stepCall] at h
    split_ifs at h with hw
    · cases h
      exact move_of_caller (.slow data) hk rfl .quiet
    · cases h
      exact move_of_caller (.write (.load data)) hk rfl
        (.win (Bool.eq_false_of_not_eq_true hw))
  | write w =>
    rw [stepCall] at h
    split at h
    · cases h
    · next conn w' hw =>
      cases h
      have hl := write_more [] hw
      rw [List.append_nil, List.append_nil] at hl
      exact move_of_caller (.write w') hk rfl hl
    · next conn err hw =>
      cases h
      have hl := write_returned [] hw
      rw [List.append_nil] at hl
      exact move_of_caller .store hk rfl hl
  | store =>
    cases h
    exact move_of_caller .notify hk rfl .release
  | notify =>
    cases h
    exact move_of_caller .returned hk rfl .quiet
  | slow data =>
    rw [stepCall] at h
    split_ifs at h
    cases h
    -- the frame moves from the caller to the channel
    refine move_of_load_eq ?_ rfl
    rw [load_eq_others hk, State.load, State.setCall, sum_map_set_eraseIdx hk, queued_append,
      State.others]
    show _ + 0 + (_ + (_ + waiting data)) = _ + (_ + _) + waiting data
    rw [add_zero, add_assoc, add_assoc]
  | returned => cases h

theorem stepSend_move (h : stepSend s n s.loop = some t) :
    Move s.output s.load t.output t.load := by
  cases hloop : s.loop with
  | select =>
    rw [hloop, stepSend] at h
    split at h
    · cases h
    · next r rest hch =>
      cases h
      refine move_of_load_eq ?_ rfl
      rw [State.load, State.load, hloop, hch, queued, queued, List.map_cons, List.sum_cons]
      show _ + (waiting r.bytes + _) = _ + (0 + (waiting r.bytes + _))
      rw [zero_add]
  | cas r =>
    rw [hloop, stepSend] at h
    split_ifs at h with hw
    · cases h
      refine move_of_loop rfl rfl ?_
      rw [hloop]
      exact .quiet
    · cases h
      refine move_of_loop rfl rfl ?_
      rw [hloop, load_start]
      exact .win (Bool.eq_false_of_not_eq_true hw)
  | wait r =>
    rw [hloop, stepSend] at h
    split_ifs at h
    cases h
    refine move_of_loop rfl rfl ?_
    rw [hloop]
    exact .quiet
  | hdr w data =>
    rw [hloop, stepSend] at h
    split at h
    · cases h
    · next conn w' hw =>
      cases h
      refine move_of_loop rfl rfl ?_
      rw [hloop]
      exact write_more _ hw
    · next conn err hw =>
      cases h
      refine move_of_loop rfl rfl ?_
      rw [hloop, load_startBody]
      exact write_returned _ hw
  | body w =>
    rw [hloop, stepSend] at h
    split at h
    · cases h
    · next conn w' hw =>
      cases h
      refine move_of_loop rfl rfl ?_
      have hl := write_more [] hw
      rw [List.append_nil, List.append_nil] at hl
      rw [hloop]
      exact hl
    · next conn err hw =>
      cases h
      refine move_of_loop rfl rfl ?_
      have hl := write_returned [] hw
      rw [List.append_nil] at hl
      rw [hloop]
      exact hl
  | store =>
    rw [hloop] at h
    cases h
    refine move_of_loop rfl rfl ?_
    rw [hloop]
    exact .release
  | exited =>
    rw [hloop] at h
    cases h

/-- A step that adds a frame to what is to be written. -/
theorem move_submit (frame : List UInt8) (hload : t.load = s.load + waiting frame)
    (hout : t.output = { s.output with submitted := s.output.submitted + {frame} }) :
    Move s.output s.load t.output t.load := by
  rw [hload, hout]
  exact .submit frame

/-- **Step.** Every step of the session is a step of a system of writers. -/
theorem step_move (h : step v s a = some t) : Move s.output s.load t.output t.load := by
  cases a with
  | call call =>
    cases h
    refine move_submit (call.data v) ?_ ?_
    · rw [State.load, State.load, List.map_append, List.sum_append, add_right_comm]
      simp [CallPc.load]
    · simp [State.output, ← Multiset.coe_add]
  | waitForSend r =>
    rw [step] at h
    split_ifs at h
    cases h
    refine move_submit r.bytes ?_ ?_
    · rw [State.load, State.load, queued_append, add_assoc, add_assoc]
    · simp [State.output, ← Multiset.coe_add]
  | caller k n =>
    obtain ⟨c, hk, hc⟩ := Option.bind_eq_some_iff.mp h
    exact stepCall_move hk hc
  | send n => exact stepSend_move h
  | exit =>
    rw [step] at h
    split_ifs at h with hloop
    cases h
    refine move_of_loop rfl rfl ?_
    rw [hloop.1]
    exact .quiet
  | shutdown =>
    cases h
    exact move_of_load_eq rfl rfl
  | closeConn =>
    cases h
    exact .close
  | refuse =>
    cases h
    exact .sever

end Moves

/-! ## Invariant -/

/-- Goroutines inside `connEventHandler.write`. -/
def LoopPc.writers : LoopPc → ℕ
  | .hdr _ _ | .body _ => 1
  | .select | .cas _ | .wait _ | .store | .exited => 0

def CallPc.writers : CallPc → ℕ
  | .write _ => 1
  | .cas _ | .store | .notify | .slow _ | .returned => 0

def State.writers (s : State) : ℕ := (s.callers.map CallPc.writers).sum + s.loop.writers

/-- The token is there, or somebody brings it. -/
def State.Woken (s : State) : Prop :=
  s.notifyContinueWriteCh = true ∨ ∃ c ∈ s.callers, c.Notifies

structure Inv (s : State) : Prop where
  writer : FrameWriter.Inv s.output s.load
  woken : ∀ r, s.loop = .wait r → s.Woken

section Woken

variable {v : UInt8} {s t : State} {a : Act} {k n : ℕ} {c : CallPc}

theorem queued_fst : ∀ q : List Ready, (queued q).1 = 0
  | [] => rfl
  | r :: q => by
    show (waiting r.bytes).1 + (queued q).1 = 0
    rw [queued_fst q]
    rfl

/-- Whoever holds the flag is the send loop or a caller. -/
theorem mem_load {p : Bool × List UInt8} (hp : p ∈ s.load.1) :
    p ∈ s.loop.load.1 ∨ ∃ c ∈ s.callers, p ∈ c.load.1 := by
  rw [State.load, Prod.fst_add, Prod.fst_add, queued_fst, add_zero, Multiset.mem_add] at hp
  refine hp.symm.imp_right fun hp => ?_
  generalize s.callers = cs at hp ⊢
  induction cs with
  | nil => exact absurd hp (Multiset.notMem_zero p)
  | cons c cs ih =>
    rw [List.map_cons, List.sum_cons, Prod.fst_add, Multiset.mem_add] at hp
    rcases hp with hp | hp
    · exact ⟨c, List.mem_cons_self, hp⟩
    · obtain ⟨c', hc', hp'⟩ := ih hp
      exact ⟨c', List.mem_cons_of_mem _ hc', hp'⟩

theorem CallPc.notifies_of_mem {p : Bool × List UInt8} (hp : p ∈ c.load.1) : c.Notifies := by
  cases c with
  | write _ | store | notify => trivial
  | cas _ | slow _ | returned => exact absurd hp (Multiset.notMem_zero p)

/-- The send loop begins to wait only while a caller holds the flag. -/
theorem Inv.notifies_of_writing (h : Inv s) (hw : s.writing = true)
    (hloop : s.loop.load.1 = 0) : ∃ c ∈ s.callers, c.Notifies := by
  have hcard := h.writer.card
  rw [show s.output.flag = true from hw, if_pos rfl] at hcard
  obtain ⟨p, hp⟩ := Multiset.card_pos_iff_exists_mem.mp (by rw [hcard]; exact Nat.one_pos)
  rcases mem_load hp with hp | ⟨c, hc, hp⟩
  · rw [hloop] at hp
    exact absurd hp (Multiset.notMem_zero p)
  · exact ⟨c, hc, c.notifies_of_mem hp⟩

/-- A caller on its way to the notification gets there or brings the token. -/
theorem stepCall_woken (hk : s.callers[k]? = some c) (h : stepCall s k n c = some t) :
    t.loop = s.loop ∧ (s.Woken → t.Woken) := by
  cases c with
  | cas data =>
    rw [stepCall] at h
    split_ifs at h <;> cases h <;>
      exact ⟨rfl, Or.imp_right fun he => exists_set hk he fun hf => (nomatch hf)⟩
  | write w =>
    rw [stepCall] at h
    split at h
    · cases h
    all_goals
      cases h
      exact ⟨rfl, Or.imp_right fun he => exists_set hk he fun _ => trivial⟩
  | store =>
    cases h
    exact ⟨rfl, Or.imp_right fun he => exists_set hk he fun _ => trivial⟩
  | notify =>
    cases h
    exact ⟨rfl, fun _ => .inl rfl⟩
  | slow data =>
    rw [stepCall] at h
    split_ifs at h
    cases h
    exact ⟨rfl, Or.imp_right fun he => exists_set hk he fun hf => (nomatch hf)⟩
  | returned => cases h

/-- The send loop gets to its receive only from a failed `CompareAndSwapUint32`. -/
theorem stepSend_wait {r : Ready} (h : stepSend s n s.loop = some t) (ht : t.loop = .wait r) :
    s.writing = true ∧ s.loop = .cas r ∧ t.callers = s.callers := by
  cases hloop : s.loop with
  | select =>
    rw [hloop, stepSend] at h
    split at h <;> cases h
    cases ht
  | cas r' =>
    rw [hloop, stepSend] at h
    split_ifs at h with hw
    · cases h
      cases ht
      exact ⟨hw, rfl, rfl⟩
    · cases h
      obtain ⟨_ | hdr, _ | body⟩ := r' <;> cases ht
  | wait r' =>
    rw [hloop, stepSend] at h
    split_ifs at h
    cases h
    cases ht
  | hdr w data =>
    rw [hloop, stepSend] at h
    split at h <;> cases h
    · cases ht
    · cases data <;> cases ht
  | body w =>
    rw [hloop, stepSend] at h
    split at h <;> cases h <;> cases ht
  | store =>
    rw [hloop] at h
    cases h
    cases ht
  | exited =>
    rw [hloop] at h
    cases h

/-- **Step.** -/
theorem step_inv (h : Inv s) (hs : step v s a = some t) : Inv t := by
  refine ⟨h.writer.move (step_move hs), fun r hr => ?_⟩
  cases a with
  | call call =>
    cases hs
    exact (h.woken r hr).imp_right fun ⟨c, hc, hn⟩ => ⟨c, List.mem_append_left _ hc, hn⟩
  | waitForSend r' =>
    rw [step] at hs
    split_ifs at hs
    cases hs
    exact h.woken r hr
  | caller k n =>
    obtain ⟨c, hk, hc⟩ := Option.bind_eq_some_iff.mp hs
    obtain ⟨hloop, hkeep⟩ := stepCall_woken hk hc
    exact hkeep (h.woken r (hloop ▸ hr))
  | send n =>
    obtain ⟨hw, hloop, hcallers⟩ := stepSend_wait hs hr
    rw [State.Woken, hcallers]
    exact .inr (h.notifies_of_writing hw (by rw [hloop]; rfl))
  | exit =>
    rw [step] at hs
    split_ifs at hs
    cases hs
    cases hr
  | shutdown | closeConn | refuse =>
    cases hs
    exact h.woken r hr

theorem inv_initial : Inv initial where
  writer := {
    card := rfl
    idle := fun _ _ => rfl
    rest := fun _ p hp => absurd hp (Multiset.notMem_zero p)
    cut := List.prefix_rfl
    stopped := fun hf => (nomatch hf)
    conserved := rfl }
  woken := fun _ hr => (nomatch hr)

/-- **Run.** -/
theorem inv_of_reachable (hr : (machine v).Reachable s) : Inv s :=
  hr.invariant Inv (by rintro _ rfl; exact inv_initial) fun _ _ _ h _ hs => step_inv h hs

end Woken

/-! ## Result -/

section Result

variable {s : State}

theorem LoopPc.writers_le : ∀ l : LoopPc, l.writers ≤ l.load.1.card
  | .hdr _ _ | .body _ => Nat.le_refl 1
  | .select | .cas _ | .wait _ | .store | .exited => Nat.zero_le _

theorem CallPc.writers_le : ∀ c : CallPc, c.writers ≤ c.load.1.card
  | .write _ => Nat.le_refl 1
  | .cas _ | .store | .notify | .slow _ | .returned => Nat.zero_le _

theorem writers_le_card (s : State) : s.writers ≤ s.load.1.card := by
  rw [State.writers, State.load, Prod.fst_add, Prod.fst_add, queued_fst, add_zero,
    Multiset.card_add]
  refine Nat.add_le_add ?_ ?_
  · induction s.callers with
    | nil => exact Nat.le_refl 0
    | cons c cs ih =>
      rw [List.map_cons, List.map_cons, List.sum_cons, List.sum_cons, Prod.fst_add,
        Multiset.card_add]
      exact Nat.add_le_add c.writers_le ih
  · exact s.loop.writers_le

/-- Outside `connEventHandler.write` nothing of a frame is left. -/
theorem rest_eq_nil {p : Bool × List UInt8} (hp : p ∈ s.load.1) (hw : s.writers = 0) :
    p.2 = [] := by
  obtain ⟨hcallers, hloop⟩ := Nat.add_eq_zero_iff.mp hw
  have hstore : p ∈ (holding false []).1 → p.2 = [] := fun h => by
    rw [Multiset.mem_singleton.mp h]
  rcases mem_load hp with hp | ⟨c, hc, hp⟩
  · cases hl : s.loop with
    | hdr _ _ | body _ =>
      rw [hl] at hloop
      cases hloop
    | store =>
      rw [hl] at hp
      exact hstore hp
    | select | cas _ | wait _ | exited =>
      rw [hl] at hp
      exact absurd hp (Multiset.notMem_zero p)
  · have h0 := List.sum_eq_zero_iff.mp hcallers _ (List.mem_map_of_mem hc)
    cases c with
    | write _ => cases h0
    | store => exact hstore hp
    | cas _ | notify | slow _ | returned => exact absurd hp (Multiset.notMem_zero p)

/-- The bytes on the socket. -/
structure WholeFrames (s : State) : Prop where
  /-- Complete frames, in the order in which the flag was won, and a part of one more. -/
  frames : ∃ whole rest part, s.begun = whole ++ rest ∧ s.conn.wire = whole.flatten ++ part ∧
    part <+: rest.headD []
  /-- Complete frames only, while nobody writes and no write has failed. -/
  complete : s.failed = false → s.writers = 0 → s.conn.wire = s.begun.flatten
  /-- Every frame that was passed to the session is begun once or still waits. -/
  conserved : (s.submitted : Multiset (List UInt8)) = s.begun + s.load.2

theorem Inv.wholeFrames (h : Inv s) : WholeFrames s where
  frames := h.writer.frames
  complete hf hw := by
    rcases Multiset.empty_or_exists_mem s.load.1 with h0 | ⟨p, hp⟩
    · exact h.writer.idle hf h0
    · have hrest := h.writer.rest hf p hp
      rwa [rest_eq_nil hp hw, List.append_nil] at hrest
  conserved := h.writer.conserved

end Result

/-- **Main theorem.** In every state of every run at most one goroutine is inside
    `connEventHandler.write`, the socket carries whole frames, and the send loop waits on an
    empty channel only while some caller is between winning the flag and its notification. -/
theorem whole_frames_and_loop_woken {v : UInt8} {s : State} (hr : (machine v).Reachable s) :
    s.writers ≤ 1 ∧ WholeFrames s ∧
      ∀ r, s.loop = .wait r → s.notifyContinueWriteCh = false → ∃ c ∈ s.callers, c.Notifies := by
  have h := inv_of_reachable hr
  refine ⟨?_, h.wholeFrames, fun r hloop hempty => ?_⟩
  · calc s.writers ≤ s.load.1.card := writers_le_card s
      _ = if s.writing then 1 else 0 := h.writer.card
      _ ≤ 1 := by split_ifs <;> decide
  · rcases h.woken r hloop with htoken | hsome
    · rw [hempty] at htoken
      cases htoken
    · exact hsome

/-- A caller of `wakeUpPeer` has written three of its eight bytes; the send loop waits for it
    with an item of two parts. -/
theorem loop_waits_for_wakeUpPeer : ∃ s, (machine 3).Reachable s ∧ s.writers ≤ 1 ∧
    s.conn.wire.length = 3 ∧ s.loop = .wait ⟨some [1, 2], some [3]⟩ ∧
    ∃ c ∈ s.callers, c.Notifies := by
  obtain ⟨s, hr, hlen, hloop, hempty⟩ := (machine 3).exists_reachable_of_run initial
    [.call .wakeUpPeer, .waitForSend ⟨some [1, 2], some [3]⟩, .caller 0 0, .caller 0 0,
      .caller 0 3, .send 0, .send 0]
    (fun s => s.conn.wire.length = 3 ∧ s.loop = .wait ⟨some [1, 2], some [3]⟩ ∧
      s.notifyContinueWriteCh = false) rfl (by decide)
  obtain ⟨hone, -, hwoken⟩ := whole_frames_and_loop_woken hr
  exact ⟨s, hr, hone, hlen, hloop, hwoken _ hloop hempty⟩

end Shmipc.SendLoop
