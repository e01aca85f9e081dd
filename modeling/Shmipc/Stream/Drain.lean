import Shmipc.Stream.DataPath

/-!
# Closing a stream gives its slots back

One stream of the two processes, with every goroutine that works on it: calls of `Close`, the
event loop in `fillDataToReadBuffer`, callback goroutines, and the user inside and outside of
`OnData` (stream.go:273-334 and 387-428). The rest of the system goes on meanwhile.

Each atomic access and each section under the lock of `pendingData` is a step. `moveTo` and
the readers do not take the `recycleMux` of `recvBuf`; so `recycle` has two steps, the loop
that gives the slices back and the final `clean`, which drops what was appended in between.
The stream is not put in a pool, and its session stays open.

Results:
* `closed_stream_owns_nothing`: a closed stream that nobody works on owns no slot, if nothing
  was pinned when `close` came to `recvBuf`, the user's calls came before or inside `OnData`,
  and no `moveTo` fell into a `recycle`.
* `pinned_slot_leaked`: without a release before `Close` the pinned slots are lost.
* `late_message_leaked`: the race of `moveTo` and `recycle`.
-/

namespace Shmipc.Drain

open Common Buffer LinkedBuffer DataPath
open Shmipc.Stream (StreamState CloserPc CallbackPc)

/-! ## Model -/

/-- How far the call of `close` is that has closed the stream (stream.go:295-334). -/
inductive Progress
  /-- The stream is not closed. -/
  | before
  /-- `asyncGoroutineWg.Wait()`, if there are callbacks. -/
  | wait
  /-- `session.onStreamClose`. -/
  | onStreamClose
  /-- `pendingData.clear()`. -/
  | clear
  /-- `recvBuf.recycle()`: the loop. -/
  | recvRecycle
  /-- `recvBuf.recycle()`: `clean()`. -/
  | recvClean
  /-- `sendBuf.recycle()`. -/
  | sendRecycle
  /-- The notifications that follow do not concern the buffers. -/
  | done
  deriving DecidableEq

/-- Where a call of `close` is, up to the CAS. -/
inductive ClosingPc
  /-- `oldState := s.getStreamState()`. -/
  | loadState
  /-- `CompareAndSwapUint32(&s.state, oldState, streamClosed)`. -/
  | cas (oldState : { state : StreamState // state ≠ .closed })
  /-- The CAS succeeded, which happens once: see `State.progress`. -/
  | clean
  | returned
  deriving DecidableEq

/-- Where the event loop is in `fillDataToReadBuffer` (stream.go:387-428). -/
inductive FillPc
  | idle
  /-- `pendingData.add`. -/
  | add (u : Unread)
  /-- `getStreamState()`. -/
  | loadState
  /-- `pendingData.clear()` on a closed stream. -/
  | clear
  /-- `recvBuf.recycle()` on a closed stream: the loop. -/
  | recvRecycle
  /-- `recvBuf.recycle()`: `clean()`. -/
  | recvClean
  | getCallbacks
  /-- `CompareAndSwapUint32(&s.callbackInProcess, 0, 1)`. -/
  | casInProcess
  /-- `asyncGoroutineWg.Add(1)`. -/
  | wgAdd
  /-- `gopool.Go`. -/
  | spawn
  deriving DecidableEq

structure State where
  net : Net
  /-- `callbackCloseState` is `callbackWaitExit`. -/
  waitExit : Bool := false
  callbackInProcess : Bool := false
  asyncGoroutineWg : ℤ := 0
  /-- The lock of `recvBuf` is held. -/
  recycleMux : Bool := false
  progress : Progress := .before
  closers : List (CloserPc ClosingPc) := []
  goroutines : List (CallbackPc ClosingPc) := []
  loop : FillPc := .idle

/-- The steps. Those of the user and of the rest of the system are steps of the two
    processes. -/
inductive Act
  /-- A new call of `Close`. -/
  | close
  | closer (j : ℕ)
  | goroutine (j : ℕ)
  | loop
  /-- The event loop of process `v` takes an element for the stream from the queue. -/
  | receive (v : View)
  /-- It gets a fallback frame for the stream. -/
  | receiveFallback (v : View) (id : ℕ) (payload : List UInt8)
  | user (a : DataPath.Act)
  | other (a : DataPath.Act)
  deriving DecidableEq

/-- It is behind the CAS. -/
def ClosingPc.cleaners : ClosingPc → ℕ
  | .clean => 1
  | _ => 0

end Shmipc.Drain

namespace Shmipc.Stream

open Drain (ClosingPc)

def CloserPc.cleaners : CloserPc ClosingPc → ℕ
  | .close pc => pc.cleaners
  | _ => 0

namespace CallbackPc

def cleaners : CallbackPc ClosingPc → ℕ
  | .close pc => pc.cleaners
  | _ => 0

/-- It is counted in `asyncGoroutineWg`. -/
def running : CallbackPc ClosingPc → ℕ
  | .close _ | .finished => 0
  | _ => 1

def inside : CallbackPc ClosingPc → ℕ
  | .onData => 1
  | _ => 0

end CallbackPc

end Shmipc.Stream

namespace Shmipc.DataPath.End

open Common Buffer

variable (bm : Manager) (m : Mem) (e : End)

/-- `pendingData.clear()`. -/
def clear : Go (Mem × End) := do
  let m ← LinkedBuffer.clear bm e.pendingData m
  return (m, { e with pendingData := [] })

/-- `recvBuf.recycle()`. -/
def recycleRecv : Go (Mem × End) := do
  let (m, l) ← e.recvBuf.recycle bm m
  return (m, { e with recvBuf := l })

/-- `sendBuf.recycle()`. -/
def recycleSend : Go (Mem × End) := do
  let (m, l) ← e.sendBuf.recycle bm m
  return (m, { e with sendBuf := l })

end Shmipc.DataPath.End

namespace Shmipc.Drain

open Common Buffer LinkedBuffer DataPath
open Shmipc.Stream (StreamState CloserPc CallbackPc)

section Model

variable (bm : View → Manager) (k : ℕ)

/-- An operation on stream `k`. -/
def State.onStream (s : State) (f : End → Go (Mem × End)) : Option State :=
  (s.net.onEnd k f).map fun net => { s with net := net }

/-- A change of the fields of stream `k`. -/
def State.edit (s : State) (f : End → End) : Option State :=
  s.onStream k fun e => .ok (s.net.mem, f e)

/-- What follows the CAS in `close` (stream.go:296-299 and 329-334); `none` while it waits. -/
def stepClean (e : End) (s : State) : Option State :=
  match s.progress with
  | .before | .done => none
  | .wait =>
    if e.callbacks = true ∧ s.asyncGoroutineWg ≠ 0 then none
    else some { s with progress := .onStreamClose }
  | .onStreamClose =>
    (s.edit k fun e => { e with registered := false }).map ({ · with progress := .clear })
  | .clear =>
    (s.onStream k fun e => e.clear (bm e.side) s.net.mem).map ({ · with progress := .recvRecycle })
  | .recvRecycle =>
    if s.recycleMux = true then none
    else (s.onStream k fun e => e.recycleRecv (bm e.side) s.net.mem).map
      ({ · with recycleMux := true, progress := .recvClean })
  | .recvClean =>
    (s.edit k fun e => { e with recvBuf := e.recvBuf.clean }).map
      ({ · with recycleMux := false, progress := .sendRecycle })
  | .sendRecycle =>
    (s.onStream k fun e => e.recycleSend (bm e.side) s.net.mem).map ({ · with progress := .done })

/-- `close` (stream.go:289-327). -/
def stepClose (e : End) (s : State) : ClosingPc → Option (State × ClosingPc)
  | .loadState => some (s, if h : e.state = .closed then .returned else .cas ⟨e.state, h⟩)
  | .cas old =>
    if e.state = old.1 then
      (s.edit k fun e => { e with state := .closed }).map
        fun s => ({ s with progress := .wait }, .clean)
    else some (s, .returned)
  | .clean => (stepClean bm k e s).map
    fun s => (s, if s.progress = .done then .returned else .clean)
  | .returned => none

/-- `Close` (stream.go:275-285). -/
def stepCloser (e : End) (s : State) : CloserPc ClosingPc → Option (State × CloserPc ClosingPc)
  | .storeWaitExit => some ({ s with waitExit := true }, .loadInProcess)
  | .loadInProcess => some (s, if s.callbackInProcess = true then .casHalf else .close .loadState)
  | .casHalf =>
    (s.edit k fun e => { e with
      state := if e.state = .opened then .halfClosed else e.state }).map (·, .returned)
  | .close .returned => some (s, .returned)
  | .close pc => (stepClose bm k e s pc).map fun r => (r.1, .close r.2)
  | .returned => none

/-- A callback goroutine (stream.go:403-423). -/
def stepGoroutine (e : End) (s : State) : CallbackPc ClosingPc → Option (State × CallbackPc ClosingPc)
  | .moveTo => (s.onStream k fun e => e.moveTo (bm e.side) s.net.mem).map (·, .test)
  | .test =>
    some (s, if e.state = .opened ∧ 0 < e.recvBuf.len then .onData else .storeZero)
  | .onData => some (s, .moveTo)
  | .storeZero => some ({ s with callbackInProcess := false }, .loadCloseState)
  | .loadCloseState => some (s, if s.waitExit = true then .doneAndClose else .testUnread)
  | .doneAndClose =>
    some ({ s with asyncGoroutineWg := s.asyncGoroutineWg - 1 }, .close .loadState)
  | .close .returned => some (s, .finished)
  | .close pc => (stepClose bm k e s pc).map fun r => (r.1, .close r.2)
  | .testUnread => some (s, if e.pendingData = [] then .done else .casInProcess)
  | .casInProcess =>
    if s.callbackInProcess = true then some (s, .done)
    else some ({ s with callbackInProcess := true }, .moveTo)
  | .done => some ({ s with asyncGoroutineWg := s.asyncGoroutineWg - 1 }, .finished)
  | .finished => none

/-- The event loop in `fillDataToReadBuffer`. -/
def stepLoop (e : End) (s : State) : Option State :=
  match s.loop with
  | .idle => none
  | .add u => (s.edit k fun e => e.add u).map ({ · with loop := .loadState })
  | .loadState => some { s with loop := if e.state = .closed then .clear else .getCallbacks }
  | .clear =>
    (s.onStream k fun e => e.clear (bm e.side) s.net.mem).map ({ · with loop := .recvRecycle })
  | .recvRecycle =>
    if s.recycleMux = true then none
    else (s.onStream k fun e => e.recycleRecv (bm e.side) s.net.mem).map
      ({ · with recycleMux := true, loop := .recvClean })
  | .recvClean =>
    (s.edit k fun e => { e with recvBuf := e.recvBuf.clean }).map
      ({ · with recycleMux := false, loop := .idle })
  | .getCallbacks => some { s with loop := if e.callbacks = true then .casInProcess else .idle }
  | .casInProcess =>
    if s.callbackInProcess = true then some { s with loop := .idle }
    else some { s with callbackInProcess := true, loop := .wgAdd }
  | .wgAdd => some { s with asyncGoroutineWg := s.asyncGoroutineWg + 1, loop := .spawn }
  | .spawn => some { s with goroutines := s.goroutines ++ [.moveTo], loop := .idle }

/-- A call of the user on stream `k`. -/
def UserCall : DataPath.Act → Prop
  | .write j _ | .flush j _ | .moveTo j | .call j _ | .releasePreviousRead j
  | .releaseReadAndReuse j | .setCallbacks j | .setDeadlines j _ _ => j = k
  | _ => False

instance : ∀ a, Decidable (UserCall k a)
  | .write .. | .flush .. | .moveTo _ | .call .. | .releasePreviousRead _ | .releaseReadAndReuse _
  | .setCallbacks _ | .setDeadlines .. => inferInstanceAs (Decidable (_ = k))
  | .openStream _ | .unregister _ | .halfClose _ | .poll _ | .fallbackData .. | .put _ =>
    inferInstanceAs (Decidable False)

/-- `getStream` for a message; the event loop goes on to `fillDataToReadBuffer`. -/
def receive (s : State) (net : Net) (v : View) (id : ℕ) (u : Unread) : Option State :=
  if s.loop = .idle ∧ (net.getStream v id).2 = some k then
    some { s with net := (net.getStream v id).1, loop := .add u }
  else none

def next (s : State) : Act → Option State
  | .close => s.net.ends[k]?.map fun e =>
    { s with
      closers := s.closers ++ [if e.callbacks = true then .storeWaitExit else .loadInProcess] }
  | .closer j => s.net.ends[k]?.bind fun e => s.closers[j]?.bind fun pc =>
    (stepCloser bm k e s pc).map fun r => { r.1 with closers := s.closers.set j r.2 }
  | .goroutine j => s.net.ends[k]?.bind fun e => s.goroutines[j]?.bind fun pc =>
    (stepGoroutine bm k e s pc).map fun r => { r.1 with goroutines := s.goroutines.set j r.2 }
  | .loop => s.net.ends[k]?.bind fun e => stepLoop bm k e s
  | .receive v =>
    match s.net.queue v with
    | [] => none
    | (id, offset) :: rest =>
      receive k s { s.net with queue := Function.update s.net.queue v rest } v id (.chain offset)
  | .receiveFallback v id payload => receive k s s.net v id (.fallback payload)
  | .user a =>
    if UserCall k a then (s.net.next bm a).map fun net => { s with net := net } else none
  | .other a =>
    if Idle k s.net a then (s.net.next bm a).map fun net => { s with net := net } else none

/-- The runs on the created memory `m`, before stream `k` is opened. -/
def runs (m : Mem) : Sys State Act where
  init s := s = { net := { mem := m } }
  next := next bm k

/-- Nothing is pinned when `close` comes to `recvBuf`. -/
def Released (s : State) : Prop :=
  s.progress = .recvRecycle → ∀ e ∈ s.net.ends[k]?, e.recvBuf.pinnedList = []

/-- The user's calls come before the stream is closed or from inside `OnData`; what was read
    is released before; no `moveTo` and no call of the user falls into a `recycle` of
    `recvBuf`; each `Reserve` asks for less than `2 ^ 32` bytes. -/
def Allowed (s : State) : Act → Prop
  | .user a => Net.Small s.net a ∧ s.recycleMux = false ∧
    ((∀ e ∈ s.net.ends[k]?, e.state ≠ .closed) ∨ .onData ∈ s.goroutines)
  | .other a => Net.Small s.net a
  | .closer j => s.closers[j]? = some (.close .clean) → Released k s
  | .goroutine j => (s.goroutines[j]? = some .moveTo → s.recycleMux = false) ∧
    (s.goroutines[j]? = some (.close .clean) → Released k s)
  | _ => True

instance (s : State) : Decidable (Released k s) :=
  inferInstanceAs (Decidable (_ = _ → ∀ e ∈ s.net.ends[k]?, e.recvBuf.pinnedList = []))

instance (s : State) : ∀ a, Decidable (Allowed k s a)
  | .user a => inferInstanceAs (Decidable (Net.Small s.net a ∧ s.recycleMux = false ∧
    ((∀ e ∈ s.net.ends[k]?, e.state ≠ .closed) ∨ .onData ∈ s.goroutines)))
  | .other a => inferInstanceAs (Decidable (Net.Small s.net a))
  | .closer j => inferInstanceAs (Decidable (s.closers[j]? = _ → Released k s))
  | .goroutine j => inferInstanceAs (Decidable ((s.goroutines[j]? = _ → s.recycleMux = false) ∧
    (s.goroutines[j]? = _ → Released k s)))
  | .close | .loop | .receive _ | .receiveFallback .. => inferInstanceAs (Decidable True)

/-- Nobody works on the stream. -/
def State.Quiet (s : State) : Prop :=
  (∀ pc ∈ s.closers, pc = .returned) ∧ (∀ g ∈ s.goroutines, g = .finished) ∧ s.loop = .idle

instance (s : State) : Decidable s.Quiet :=
  inferInstanceAs (Decidable ((∀ pc ∈ s.closers, _) ∧ (∀ g ∈ s.goroutines, _) ∧ _))

end Model

/-! ## Invariant -/

namespace Progress

def closed : Progress → Bool
  | .before => false
  | _ => true

/-- `Wait` and `clean` are going on. -/
def active : Progress → Bool
  | .before | .done => false
  | _ => true

def waited : Progress → Bool
  | .before | .wait => false
  | _ => true

def cleared : Progress → Bool
  | .recvRecycle | .recvClean | .sendRecycle | .done => true
  | _ => false

def recycled : Progress → Bool
  | .recvClean | .sendRecycle | .done => true
  | _ => false

/-- `recycleMux` is held. -/
def holds : Progress → Bool
  | .recvClean => true
  | _ => false

def finished : Progress → Bool
  | .done => true
  | _ => false

end Progress

namespace FillPc

/-- The loop is going to look at the state, or has seen that the stream is closed: it will
    clear `pendingData`, unless `close` does. -/
def clears : FillPc → Bool
  | .loadState | .clear => true
  | _ => false

/-- Likewise for `recvBuf`. -/
def recycles : FillPc → Bool
  | .loadState | .clear | .recvRecycle => true
  | _ => false

/-- `recycleMux` is held. -/
def holds : FillPc → Bool
  | .recvClean => true
  | _ => false

/-- The loop has found callbacks. -/
def starts : FillPc → Bool
  | .casInProcess | .wgAdd | .spawn => true
  | _ => false

/-- The next goroutine is counted already. -/
def spawns : FillPc → Bool
  | .spawn => true
  | _ => false

/-- The message that the event loop has in hand. -/
def parts : FillPc → List Part
  | .add u => pendingParts [u]
  | _ => []

end FillPc

theorem waited_closed {p : Progress} (h : p.waited = true) : p.closed = true := by
  cases p <;> first | rfl | cases h

theorem recycled_cleared {p : Progress} (h : p.recycled = true) : p.cleared = true := by
  cases p <;> first | rfl | cases h

theorem cleared_closed {p : Progress} (h : p.cleared = true) : p.closed = true := by
  cases p <;> first | rfl | cases h

theorem clears_of_recycles {pc : FillPc} (h : pc.recycles = false) : pc.clears = false := by
  cases pc <;> first | rfl | cases h

/-- The stream `e` when `cleaners` calls are at `clean`, `asyncGoroutineWg` counts `running`
    goroutines and `inside` of them are in `OnData`. -/
structure Inv (cleaners running inside : ℕ) (s : State) (e : End) : Prop where
  one : cleaners = s.progress.active.toNat
  count : s.asyncGoroutineWg = running + s.loop.spawns.toNat
  le : inside ≤ running
  closed : e.state = .closed ↔ s.progress.closed = true
  callbacks : 0 < running ∨ s.loop.starts = true → e.callbacks = true
  waited : s.progress.waited = true → inside = 0
  mux : s.recycleMux.toNat = s.progress.holds.toNat + s.loop.holds.toNat
  popped : s.recycleMux = true → e.recvBuf.slices = []
  pending : s.progress.cleared = true → s.loop.clears = false → e.pendingData = []
  recv : s.progress.recycled = true → s.loop.recycles = false → e.recvBuf.slices = []
  pinned : s.progress.recycled = true → e.recvBuf.pinnedList = []
  send : s.progress.finished = true → e.sendBuf.slices = []

section

variable {cleaners running inside : ℕ} {s : State} {e : End}

theorem Inv.mux_free (h : Inv cleaners running inside s e) (hm : s.recycleMux = false) :
    s.progress.holds = false ∧ s.loop.holds = false := by
  have hmux := h.mux
  rw [hm] at hmux
  cases hp : s.progress.holds <;> cases hl : s.loop.holds <;> simp_all

theorem Inv.mux_progress (h : Inv cleaners running inside s e) (hp : s.progress.holds = true) :
    s.recycleMux = true ∧ s.loop.holds = false := by
  have hmux := h.mux
  rw [hp] at hmux
  cases hm : s.recycleMux <;> cases hl : s.loop.holds <;> simp_all

theorem Inv.mux_loop (h : Inv cleaners running inside s e) (hl : s.loop.holds = true) :
    s.recycleMux = true ∧ s.progress.holds = false := by
  have hmux := h.mux
  rw [hl] at hmux
  cases hm : s.recycleMux <;> cases hp : s.progress.holds <;> simp_all

end

def State.parts (s : State) : List Part := s.loop.parts ++ s.net.parts

section Steps

variable {cs : List SizeClass} {len : ℕ} (hL : Layout cs len) {bm : View → Manager} {k : ℕ}
  {s s' : State} {e e' : End} {m m' : Mem}

/-! ### The operations -/

theorem clear_spec {bm : Manager} (hM : ManagerOk cs bm) (h : e.clear bm m = .ok (m', e')) :
    e' = { e with pendingData := [] } ∧ (ownership hL).Steps m e.parts m' e'.parts := by
  obtain ⟨m1, hrun, h⟩ := Go.bind_ok.mp h
  cases h
  have hclear : (ownership hL).Steps m (pendingParts e.pendingData) m' [] := clear_steps hM _ _ hrun
  exact ⟨rfl, (hclear.frame [.recv e.recvBuf, .send e.sendBuf]).perm List.perm_append_comm (.refl _)⟩

theorem recycleRecv_spec {bm : Manager} (hM : ManagerOk cs bm)
    (h : e.recycleRecv bm m = .ok (m', e')) : e' = { e with recvBuf := e.recvBuf.clean } ∧
      (ownership hL).Steps m e.parts m' e'.parts := by
  obtain ⟨⟨m1, l⟩, hrun, h⟩ := Go.bind_ok.mp h
  cases h
  obtain ⟨rfl, hsteps⟩ := recycle_recv_steps hM hrun
  exact ⟨rfl, hsteps.frame (.send e.sendBuf :: pendingParts e.pendingData)⟩

theorem recycleSend_spec {bm : Manager} (hM : ManagerOk cs bm)
    (h : e.recycleSend bm m = .ok (m', e')) : e' = { e with sendBuf := e.sendBuf.clean } ∧
      (ownership hL).Steps m e.parts m' e'.parts := by
  obtain ⟨⟨m1, l⟩, hrun, h⟩ := Go.bind_ok.mp h
  cases h
  obtain ⟨rfl, hsteps⟩ := recycle_send_steps hM hrun
  exact ⟨rfl, (hsteps.frame (.recv e.recvBuf :: pendingParts e.pendingData)).perm
    (List.Perm.swap ..) (List.Perm.swap ..)⟩

theorem onStream_inv (he : s.net.ends[k]? = some e) {f : End → Go (Mem × End)}
    (h : s.onStream k f = some s') : ∃ net e', s' = { s with net := net } ∧
      f e = .ok (net.mem, e') ∧ net.ends[k]? = some e' ∧
      ((ownership hL).Steps s.net.mem e.parts net.mem e'.parts →
        (ownership hL).Steps s.net.mem s.net.parts net.mem net.parts) := by
  obtain ⟨net, hnet, rfl⟩ := Option.map_eq_some_iff.mp h
  obtain ⟨e1, m, e', he1, hf, rfl⟩ := onEnd_inv hnet
  rw [he] at he1
  cases he1
  refine ⟨_, e', rfl, hf, List.getElem?_set_self (List.getElem?_eq_some_iff.mp he).1, ?_⟩
  intro hsteps
  exact onEnd_steps hnet fun e1 m1 e2 he1 hf1 => by
    rw [he] at he1
    cases he1
    rw [hf] at hf1
    cases hf1
    exact hsteps

theorem edit_inv (he : s.net.ends[k]? = some e) {f : End → End} (h : s.edit k f = some s') :
    ∃ net, s' = { s with net := net } ∧ net.ends[k]? = some (f e) ∧
      ((ownership hL).Steps s.net.mem e.parts s.net.mem (f e).parts →
        (ownership hL).Steps s.net.mem s.net.parts net.mem net.parts) := by
  obtain ⟨net, e', rfl, hf, hk, hsteps⟩ := onStream_inv hL he h
  obtain ⟨hm, rfl⟩ := Prod.mk.inj (Except.ok.inj hf)
  exact ⟨net, rfl, hk, fun hstep => hsteps (hm ▸ hstep)⟩

/-! ### The call of `close` that closes the stream -/

/-- What a step of a goroutine comes to. -/
structure Goes {cs : List SizeClass} {len : ℕ} (hL : Layout cs len) (k : ℕ) (s s' : State)
    (cleaners running inside : ℕ) : Prop where
  inv : ∃ e', s'.net.ends[k]? = some e' ∧ Inv cleaners running inside s' e'
  steps : (ownership hL).Steps s.net.mem s.net.parts s'.net.mem s'.net.parts
  closers : s'.closers = s.closers
  goroutines : s'.goroutines = s.goroutines
  loop : s'.loop = s.loop

theorem stepClean_goes (hM : ∀ v, ManagerOk cs (bm v)) {n c d : ℕ} (hi : Inv (n + 1) c d s e)
    (he : s.net.ends[k]? = some e) (hrel : Released k s) (h : stepClean bm k e s = some s') :
    Goes hL k s s' (n + if s'.progress = .done then 0 else 1) c d := by
  obtain ⟨net, w, cip, wg, mux, progress, closers, goroutines, loop⟩ := s
  cases progress with
  | before => cases h
  | done => cases h
  | wait =>
    simp only [stepClean] at h
    split_ifs at h with hw
    cases h
    have hd : d = 0 := by
      by_contra hd
      have hle := hi.le
      have hcall := hi.callbacks (.inl (by omega))
      have hcount := hi.count
      apply hw
      refine ⟨hcall, ?_⟩
      simp only [] at hcount
      omega
    exact ⟨⟨e, he, { hi with waited := fun _ => hd }⟩, Ownership.Steps.refl _ _, rfl, rfl, rfl⟩
  | onStreamClose =>
    obtain ⟨s1, hedit, rfl⟩ := Option.map_eq_some_iff.mp h
    obtain ⟨net', rfl, hk, hsteps⟩ := edit_inv hL he hedit
    refine ⟨⟨_, hk, { hi with }⟩, hsteps (Ownership.Steps.refl _ _), rfl, rfl, rfl⟩
  | clear =>
    obtain ⟨s1, hrun, rfl⟩ := Option.map_eq_some_iff.mp h
    obtain ⟨net', e', rfl, hf, hk, hsteps⟩ := onStream_inv hL he hrun
    obtain ⟨rfl, hstep⟩ := clear_spec hL (hM e.side) hf
    exact ⟨⟨_, hk, { hi with pending := fun _ _ => rfl }⟩, hsteps hstep, rfl, rfl, rfl⟩
  | recvRecycle =>
    simp only [stepClean] at h
    split_ifs at h with hmux
    obtain ⟨s1, hrun, rfl⟩ := Option.map_eq_some_iff.mp h
    obtain ⟨net', e', rfl, hf, hk, hsteps⟩ := onStream_inv hL he hrun
    obtain ⟨rfl, hstep⟩ := recycleRecv_spec hL (hM e.side) hf
    have hpin : e.recvBuf.pinnedList = [] := hrel rfl e he
    refine ⟨⟨_, hk, { hi with
      mux := ?_
      popped := fun _ => rfl
      recv := fun _ _ => rfl
      pinned := fun _ => hpin }⟩, hsteps hstep, rfl, rfl, rfl⟩
    show 1 = 1 + loop.holds.toNat
    rw [(hi.mux_free (by simpa using hmux)).2]
    rfl
  | recvClean =>
    obtain ⟨s1, hedit, rfl⟩ := Option.map_eq_some_iff.mp h
    obtain ⟨net', rfl, hk, hsteps⟩ := edit_inv hL he hedit
    obtain ⟨hheld, hloop⟩ := hi.mux_progress rfl
    have hempty : e.recvBuf.slices = [] := hi.popped hheld
    refine ⟨⟨_, hk, { hi with
      mux := ?_
      popped := fun _ => rfl
      recv := fun _ _ => rfl }⟩, hsteps ((clean_steps hempty).frame _),
      rfl, rfl, rfl⟩
    show 0 = 0 + loop.holds.toNat
    rw [show loop.holds = false from hloop]
    rfl
  | sendRecycle =>
    obtain ⟨s1, hrun, rfl⟩ := Option.map_eq_some_iff.mp h
    obtain ⟨net', e', rfl, hf, hk, hsteps⟩ := onStream_inv hL he hrun
    obtain ⟨rfl, hstep⟩ := recycleSend_spec hL (hM e.side) hf
    refine ⟨⟨_, hk, { hi with send := fun _ => rfl, one := ?_ }⟩, hsteps hstep, rfl, rfl, rfl⟩
    exact Nat.succ.inj hi.one

/-! ### Calls of `close` and `Close` -/

theorem stepClose_goes (hM : ∀ v, ManagerOk cs (bm v)) {n c d : ℕ} {pc pc' : ClosingPc}
    (hi : Inv (n + pc.cleaners) c d s e) (he : s.net.ends[k]? = some e)
    (hrel : pc = .clean → Released k s) (h : stepClose bm k e s pc = some (s', pc')) :
    Goes hL k s s' (n + pc'.cleaners) c d := by
  cases pc with
  | loadState =>
    cases h
    refine ⟨⟨e, he, ?_⟩, Ownership.Steps.refl _ _, rfl, rfl, rfl⟩
    split <;> exact hi
  | cas old =>
    simp only [stepClose] at h
    split_ifs at h with hcas
    · obtain ⟨s1, hedit, h⟩ := Option.map_eq_some_iff.mp h
      obtain ⟨net', rfl, hk, hsteps⟩ := edit_inv hL he hedit
      cases h
      -- nobody has closed the stream before
      obtain ⟨net, w, cip, wg, mux, progress, closers, goroutines, loop⟩ := s
      have hopen : progress.closed = false := by
        have hne : e.state ≠ .closed := hcas ▸ old.2
        simpa using fun hc => hne (hi.closed.mpr hc)
      have hbefore : progress = .before := by
        cases progress with
        | before => rfl
        | _ => cases hopen
      subst hbefore
      refine ⟨⟨_, hk, { hi with one := ?_, closed := ⟨fun _ => rfl, fun _ => rfl⟩ }⟩,
        hsteps (Ownership.Steps.refl _ _), rfl, rfl, rfl⟩
      exact congrArg (· + 1) hi.one
    · cases h
      exact ⟨⟨e, he, hi⟩, Ownership.Steps.refl _ _, rfl, rfl, rfl⟩
  | clean =>
    obtain ⟨s1, hrun, h⟩ := Option.map_eq_some_iff.mp h
    have hgoes := stepClean_goes hL hM hi he (hrel rfl) hrun
    cases h
    by_cases hdone : s'.progress = .done
    · rw [if_pos hdone] at hgoes ⊢
      exact hgoes
    · rw [if_neg hdone] at hgoes ⊢
      exact hgoes
  | returned => cases h

theorem stepCloser_goes (hM : ∀ v, ManagerOk cs (bm v)) {n c d : ℕ} {pc pc' : CloserPc ClosingPc}
    (hi : Inv (n + pc.cleaners) c d s e) (he : s.net.ends[k]? = some e)
    (hrel : pc = .close .clean → Released k s) (h : stepCloser bm k e s pc = some (s', pc')) :
    Goes hL k s s' (n + pc'.cleaners) c d := by
  have hclose : ∀ {pc1 : ClosingPc}, pc = .close pc1 →
      (stepClose bm k e s pc1).map (fun r => (r.1, CloserPc.close r.2)) = some (s', pc') →
      Goes hL k s s' (n + pc'.cleaners) c d := by
    rintro pc1 rfl h
    obtain ⟨⟨s1, pc2⟩, hrun, h⟩ := Option.map_eq_some_iff.mp h
    have hgoes := stepClose_goes hL hM hi he (fun hpc => hrel (hpc ▸ rfl)) hrun
    cases h
    exact hgoes
  cases pc with
  | storeWaitExit =>
    cases h
    exact ⟨⟨e, he, { hi with }⟩, Ownership.Steps.refl _ _, rfl, rfl, rfl⟩
  | loadInProcess =>
    cases h
    refine ⟨⟨e, he, ?_⟩, Ownership.Steps.refl _ _, rfl, rfl, rfl⟩
    split <;> exact hi
  | casHalf =>
    obtain ⟨s1, hedit, h⟩ := Option.map_eq_some_iff.mp h
    obtain ⟨net', rfl, hk, hsteps⟩ := edit_inv hL he hedit
    cases h
    refine ⟨⟨_, hk, { hi with closed := ?_ }⟩, hsteps (Ownership.Steps.refl _ _), rfl, rfl, rfl⟩
    refine Iff.trans ?_ hi.closed
    show (if e.state = .opened then StreamState.halfClosed else e.state) = .closed ↔ _
    cases e.state <;> simp
  | returned => cases h
  | close pc1 =>
    cases pc1 with
    | returned =>
      cases h
      exact ⟨⟨e, he, hi⟩, Ownership.Steps.refl _ _, rfl, rfl, rfl⟩
    | loadState | cas old | clean => exact hclose rfl h

/-! ### Callback goroutines -/

theorem moveTo_inv {bm : Manager} (h : e.moveTo bm m = .ok (m', e')) :
    e'.state = e.state ∧ e'.callbacks = e.callbacks ∧ e'.sendBuf = e.sendBuf ∧
      e'.pendingData = [] ∧ e'.recvBuf.pinnedList = e.recvBuf.pinnedList ∧
      (e.pendingData = [] → e'.recvBuf = e.recvBuf) := by
  obtain ⟨⟨m1, l⟩, hmove, h⟩ := Go.bind_ok.mp h
  cases h
  refine ⟨rfl, rfl, rfl, rfl, (moveTo_extends _ _ _ hmove).pinnedList, fun hnil => ?_⟩
  rw [hnil] at hmove
  cases hmove
  rfl

theorem stepGoroutine_goes (hM : ∀ v, ManagerOk cs (bm v)) {n c d : ℕ} {g g' : CallbackPc ClosingPc}
    (hi : Inv (n + g.cleaners) (c + g.running) (d + g.inside) s e)
    (he : s.net.ends[k]? = some e) (hd : d ≤ c)
    (hmux : g = .moveTo → s.recycleMux = false) (hrel : g = .close .clean → Released k s)
    (h : stepGoroutine bm k e s g = some (s', g')) :
    Goes hL k s s' (n + g'.cleaners) (c + g'.running) (d + g'.inside) := by
  -- `asyncGoroutineWg.Done()`
  have hdone : ∀ {g1 : CallbackPc ClosingPc}, g.cleaners = 0 → g.running = 1 → g1.cleaners = 0 →
      g1.running = 0 → g1.inside = 0 → Goes hL k s
        { s with asyncGoroutineWg := s.asyncGoroutineWg - 1 }
        (n + g1.cleaners) (c + g1.running) (d + g1.inside) := by
    intro g1 h0 h1 h0' h1' h2'
    rw [h0, h1] at hi
    rw [h0', h1', h2']
    refine ⟨⟨e, he, { hi with count := ?_, le := hd, callbacks := ?_, waited := ?_ }⟩,
      Ownership.Steps.refl _ _, rfl, rfl, rfl⟩
    · have hcount := hi.count
      show s.asyncGoroutineWg - 1 = _
      push_cast at hcount ⊢
      omega
    · exact fun hc => hi.callbacks (hc.imp (fun _ => Nat.succ_pos c) id)
    · intro hw
      have := hi.waited hw
      omega
  have hclose : ∀ {pc : ClosingPc}, g = .close pc →
      (stepClose bm k e s pc).map (fun r => (r.1, CallbackPc.close r.2)) = some (s', g') →
      Goes hL k s s' (n + g'.cleaners) (c + g'.running) (d + g'.inside) := by
    rintro pc rfl h
    obtain ⟨⟨s1, pc2⟩, hrun, h⟩ := Option.map_eq_some_iff.mp h
    have hgoes := stepClose_goes hL hM hi he (fun hpc => hrel (hpc ▸ rfl)) hrun
    cases h
    exact hgoes
  cases g with
  | moveTo =>
    obtain ⟨s1, hrun, h⟩ := Option.map_eq_some_iff.mp h
    obtain ⟨net', e', rfl, hf, hk, hsteps⟩ := onStream_inv hL he hrun
    cases h
    obtain ⟨hstate, hcall, hsend, hpending, hpin, hsame⟩ := moveTo_inv hf
    refine ⟨⟨e', hk, { hi with
      closed := hstate ▸ hi.closed
      callbacks := hcall ▸ hi.callbacks
      popped := ?_
      pending := fun _ _ => hpending
      recv := ?_
      pinned := fun hp => hpin.trans (hi.pinned hp)
      send := hsend ▸ hi.send }⟩, hsteps (End.moveTo_steps (hM e.side) hf), rfl, rfl, rfl⟩
    · intro hm
      rw [show s.recycleMux = true from hm] at hmux
      cases hmux rfl
    · -- what comes after `clear` is recycled by the loop
      intro hrec hloop
      have hpend : e.pendingData = [] := hi.pending (recycled_cleared hrec) (clears_of_recycles hloop)
      rw [hsame hpend]
      exact hi.recv hrec hloop
  | test =>
    cases h
    refine ⟨⟨e, he, ?_⟩, Ownership.Steps.refl _ _, rfl, rfl, rfl⟩
    split
    · rename_i hopen
      refine { hi with le := Nat.succ_le_succ hd, waited := fun hw => ?_ }
      have hclosed := hi.closed.mpr (waited_closed hw)
      rw [hopen.1] at hclosed
      cases hclosed
    · exact hi
  | onData =>
    cases h
    refine ⟨⟨e, he, { hi with le := Nat.le_succ_of_le hd, waited := fun hw => ?_ }⟩,
      Ownership.Steps.refl _ _, rfl, rfl, rfl⟩
    cases hi.waited hw
  | storeZero =>
    cases h
    exact ⟨⟨e, he, { hi with }⟩, Ownership.Steps.refl _ _, rfl, rfl, rfl⟩
  | loadCloseState =>
    cases h
    refine ⟨⟨e, he, ?_⟩, Ownership.Steps.refl _ _, rfl, rfl, rfl⟩
    split <;> exact hi
  | doneAndClose =>
    cases h
    exact hdone rfl rfl rfl rfl rfl
  | testUnread =>
    cases h
    refine ⟨⟨e, he, ?_⟩, Ownership.Steps.refl _ _, rfl, rfl, rfl⟩
    split <;> exact hi
  | casInProcess =>
    simp only [stepGoroutine] at h
    split_ifs at h
    · cases h
      exact ⟨⟨e, he, hi⟩, Ownership.Steps.refl _ _, rfl, rfl, rfl⟩
    · cases h
      exact ⟨⟨e, he, { hi with }⟩, Ownership.Steps.refl _ _, rfl, rfl, rfl⟩
  | done =>
    cases h
    exact hdone rfl rfl rfl rfl rfl
  | finished => cases h
  | close pc =>
    cases pc with
    | returned =>
      cases h
      exact ⟨⟨e, he, hi⟩, Ownership.Steps.refl _ _, rfl, rfl, rfl⟩
    | loadState | cas old | clean => exact hclose rfl h

/-! ### The event loop -/

/-- The goroutines that a step of the event loop starts. -/
def FillPc.started : FillPc → List (CallbackPc ClosingPc)
  | .spawn => [.moveTo]
  | _ => []

/-- What a step of the event loop comes to. -/
structure LoopGoes {cs : List SizeClass} {len : ℕ} (hL : Layout cs len) (k : ℕ) (s s' : State)
    (cleaners running inside : ℕ) : Prop where
  inv : ∃ e', s'.net.ends[k]? = some e' ∧ Inv cleaners running inside s' e'
  steps : (ownership hL).Steps s.net.mem s.parts s'.net.mem s'.parts
  closers : s'.closers = s.closers
  goroutines : s'.goroutines = s.goroutines ++ s.loop.started

theorem add_goes {n c d : ℕ} {u : Unread} (hi : Inv n c d s e) (he : s.net.ends[k]? = some e)
    (hloop : s.loop = .add u) (h : (s.edit k fun e => e.add u) = some s') :
    LoopGoes hL k s { s' with loop := .loadState } n c d := by
  obtain ⟨net', rfl, hk, -⟩ := edit_inv hL he h
  obtain ⟨net1, hrun, heq⟩ := Option.map_eq_some_iff.mp h
  obtain rfl : net1 = net' := congrArg State.net heq
  refine ⟨⟨_, hk, ?_⟩, ?_, rfl, ?_⟩
  · refine { hi with
      count := ?_
      callbacks := fun hc => hi.callbacks (.inl (hc.resolve_right fun h => nomatch h))
      mux := ?_
      pending := fun _ h => nomatch h
      recv := fun _ h => nomatch h }
    · have hcount := hi.count
      rw [hloop] at hcount
      exact hcount
    · have hmux := hi.mux
      rw [hloop] at hmux
      exact hmux
  · unfold State.parts
    rw [hloop]
    cases u with
    | chain offset => exact add_steps hrun
    | fallback payload => exact fields_steps hrun fun e => (e.add_parts _).trans (List.append_nil _)
  · rw [hloop]
    exact (List.append_nil _).symm

theorem stepLoop_goes (hM : ∀ v, ManagerOk cs (bm v)) {n c d : ℕ} (hi : Inv n c d s e)
    (he : s.net.ends[k]? = some e) (h : stepLoop bm k e s = some s') :
    LoopGoes hL k s s' n (c + (s.loop.started.map CallbackPc.running).sum) d := by
  obtain ⟨net, w, cip, wg, mux, progress, closers, goroutines, loop⟩ := s
  have hnil : goroutines = goroutines ++ [] := (List.append_nil _).symm
  cases loop with
  | idle => cases h
  | add u =>
    obtain ⟨s1, hedit, rfl⟩ := Option.map_eq_some_iff.mp h
    exact add_goes hL hi he rfl hedit
  | loadState =>
    cases h
    simp only []
    split
    · exact ⟨⟨e, he, { hi with }⟩, Ownership.Steps.refl _ _, rfl, hnil⟩
    · rename_i hopen
      have hclosed : ∀ {P : Prop}, progress.closed = true → P := fun hc =>
        absurd (hi.closed.mpr hc) hopen
      exact ⟨⟨e, he, { hi with
        pending := fun hc _ => hclosed (cleared_closed hc)
        recv := fun hc _ => hclosed (cleared_closed (recycled_cleared hc)) }⟩,
        Ownership.Steps.refl _ _, rfl, hnil⟩
  | clear =>
    obtain ⟨s1, hrun, rfl⟩ := Option.map_eq_some_iff.mp h
    obtain ⟨net', e', rfl, hf, hk, hsteps⟩ := onStream_inv hL he hrun
    obtain ⟨rfl, hstep⟩ := clear_spec hL (hM e.side) hf
    exact ⟨⟨_, hk, { hi with pending := fun _ _ => rfl }⟩, hsteps hstep, rfl, hnil⟩
  | recvRecycle =>
    simp only [stepLoop] at h
    split_ifs at h with hmux
    obtain ⟨s1, hrun, rfl⟩ := Option.map_eq_some_iff.mp h
    obtain ⟨net', e', rfl, hf, hk, hsteps⟩ := onStream_inv hL he hrun
    obtain ⟨rfl, hstep⟩ := recycleRecv_spec hL (hM e.side) hf
    refine ⟨⟨_, hk, { hi with
      mux := ?_
      popped := fun _ => rfl
      recv := fun _ _ => rfl }⟩, hsteps hstep, rfl, hnil⟩
    show 1 = progress.holds.toNat + 1
    rw [show progress.holds = false from (hi.mux_free (by simpa using hmux)).1]
    rfl
  | recvClean =>
    obtain ⟨s1, hedit, rfl⟩ := Option.map_eq_some_iff.mp h
    obtain ⟨net', rfl, hk, hsteps⟩ := edit_inv hL he hedit
    obtain ⟨hheld, hprogress⟩ := hi.mux_loop rfl
    have hempty : e.recvBuf.slices = [] := hi.popped hheld
    refine ⟨⟨_, hk, { hi with
      mux := ?_
      popped := fun _ => rfl
      recv := fun _ _ => rfl }⟩, hsteps ((clean_steps hempty).frame _), rfl, hnil⟩
    show 0 = progress.holds.toNat + 0
    rw [show progress.holds = false from hprogress]
    rfl
  | getCallbacks =>
    cases h
    simp only []
    split
    · rename_i hcall
      exact ⟨⟨e, he, { hi with callbacks := fun _ => hcall }⟩, Ownership.Steps.refl _ _, rfl, hnil⟩
    · exact ⟨⟨e, he, { hi with }⟩, Ownership.Steps.refl _ _, rfl, hnil⟩
  | casInProcess =>
    simp only [stepLoop] at h
    split_ifs at h
    · cases h
      exact ⟨⟨e, he, { hi with callbacks := fun _ => hi.callbacks (.inr rfl) }⟩,
        Ownership.Steps.refl _ _, rfl, hnil⟩
    · cases h
      exact ⟨⟨e, he, { hi with }⟩, Ownership.Steps.refl _ _, rfl, hnil⟩
  | wgAdd =>
    cases h
    refine ⟨⟨e, he, { hi with count := ?_ }⟩, Ownership.Steps.refl _ _, rfl, hnil⟩
    exact congrArg (· + 1) hi.count
  | spawn =>
    cases h
    refine ⟨⟨e, he, { hi with
      count := ?_
      le := Nat.le_succ_of_le hi.le
      callbacks := fun _ => hi.callbacks (.inr rfl) }⟩, Ownership.Steps.refl _ _, rfl, rfl⟩
    have hcount := hi.count
    show wg = ((c + 1 : ℕ) : ℤ) + 0
    push_cast
    exact hcount

/-! ### The user and the rest of the system -/

theorem user_inv {net net' : Net} {a : DataPath.Act} (ha : UserCall k a)
    (he : net.ends[k]? = some e) (hnext : net.next bm a = some net') :
    ∃ e', net'.ends[k]? = some e' ∧ e'.state = e.state ∧
      (e.callbacks = true → e'.callbacks = true) := by
  have hset : ∀ e' : End, (net.ends.set k e')[k]? = some e' := fun e' =>
    List.getElem?_set_self (List.getElem?_eq_some_iff.mp he).1
  -- an operation that returns a stream with these fields
  have hend : ∀ {f : End → Go (Mem × End)}, net.onEnd k f = some net' →
      (∀ m e', f e = .ok (m, e') → e'.state = e.state ∧ (e.callbacks = true → e'.callbacks = true)) →
      ∃ e', net'.ends[k]? = some e' ∧ e'.state = e.state ∧
        (e.callbacks = true → e'.callbacks = true) := by
    intro f hrun hf
    obtain ⟨e1, m, e', he1, hfe, rfl⟩ := onEnd_inv hrun
    rw [he] at he1
    cases he1
    exact ⟨e', hset e', hf m e' hfe⟩
  cases a with
  | write j c | releasePreviousRead j | releaseReadAndReuse j =>
    cases ha
    refine hend hnext fun m e' hf => ?_
    obtain ⟨r, -, h⟩ := Go.bind_ok.mp hf
    cases h
    exact ⟨rfl, id⟩
  | flush j put =>
    cases ha
    obtain ⟨e1, m, e', sent, he1, hf, rfl⟩ := flush_inv hnext
    rw [he] at he1
    cases he1
    obtain ⟨r, -, h⟩ := Go.bind_ok.mp hf
    cases h
    exact ⟨_, hset _, rfl, id⟩
  | moveTo j =>
    cases ha
    refine hend hnext fun m e' hf => ?_
    obtain ⟨hstate, hcall, -⟩ := moveTo_inv hf
    exact ⟨hstate, fun hc => hcall.trans hc⟩
  | call j c =>
    cases ha
    refine hend hnext fun m e' hf => ?_
    split_ifs at hf
    · obtain ⟨r, -, h⟩ := Go.bind_ok.mp hf
      cases h
      exact ⟨rfl, id⟩
    · cases hf
      exact ⟨rfl, id⟩
  | setCallbacks j =>
    cases ha
    simp only [Net.next] at hnext
    refine hend hnext fun m e' hf => ?_
    cases hf
    exact ⟨rfl, fun _ => rfl⟩
  | setDeadlines j r w =>
    cases ha
    simp only [Net.next] at hnext
    refine hend hnext fun m e' hf => ?_
    cases hf
    exact ⟨rfl, id⟩
  | _ => cases ha

/-- A call of the user before `close` is past `Wait`. -/
theorem Inv.user {n c d : ℕ} {net : Net} (hi : Inv n c d s e) (hstate : e'.state = e.state)
    (hcall : e.callbacks = true → e'.callbacks = true) (hmux : s.recycleMux = false)
    (hwait : s.progress.waited = false) : Inv n c d { s with net := net } e' := by
  have hrec : s.progress.recycled = false ∧ s.progress.cleared = false ∧
      s.progress.finished = false := by
    revert hwait
    cases s.progress <;> simp [Progress.waited, Progress.recycled, Progress.cleared, Progress.finished]
  refine { hi with
    closed := hstate ▸ hi.closed
    callbacks := fun hc => hcall (hi.callbacks hc)
    popped := fun h => ?_
    pending := fun h => ?_
    recv := fun h => ?_
    pinned := fun h => ?_
    send := fun h => ?_ }
  · rw [show s.recycleMux = true from h] at hmux
    cases hmux
  · rw [show s.progress.cleared = true from h] at hrec
    cases hrec.2.1
  · rw [show s.progress.recycled = true from h] at hrec
    cases hrec.1
  · rw [show s.progress.recycled = true from h] at hrec
    cases hrec.1
  · rw [show s.progress.finished = true from h] at hrec
    cases hrec.2.2

theorem Inv.halfClose {n c d : ℕ} {net : Net} (hi : Inv n c d s e) (hopen : e.state = .opened) :
    Inv n c d { s with net := net } { e with state := .halfClosed } := by
  refine { hi with closed := ?_ }
  have hclosed := hi.closed
  rw [hopen] at hclosed
  refine ⟨(nomatch ·), fun h => ?_⟩
  cases hclosed.mpr h

theorem inv_new (net : Net) (side : View) (id : ℕ) :
    Inv 0 0 0 { net := net } { side := side, id := id } := by
  constructor <;> simp [Progress.active, Progress.closed, Progress.waited, Progress.cleared,
    Progress.recycled, Progress.holds, Progress.finished, FillPc.starts, FillPc.spawns, FillPc.holds]

/-- The event loop takes a message for the stream. -/
theorem Inv.receive {n c d : ℕ} {net : Net} (hi : Inv n c d s e) (hidle : s.loop = .idle)
    (u : Unread) : Inv n c d { s with net := net, loop := .add u } e := by
  obtain ⟨net0, w, cip, wg, mux, progress, closers, goroutines, loop⟩ := s
  cases hidle
  exact { hi with }

end Steps

/-! ## Runs -/

namespace State

def cleaners (s : State) : ℕ :=
  (s.closers.map CloserPc.cleaners).sum + (s.goroutines.map CallbackPc.cleaners).sum

def running (s : State) : ℕ := (s.goroutines.map CallbackPc.running).sum

/-- How many goroutines are in `OnData`. -/
def inside (s : State) : ℕ := (s.goroutines.map CallbackPc.inside).sum

end State

/-- Every slot is accounted for, and the stream is in order once it is there. -/
structure Good {cs : List SizeClass} {len : ℕ} (hL : Layout cs len) (k : ℕ) (s : State) : Prop where
  absent : s.net.ends[k]? = none → s = { net := s.net }
  inv : ∀ e, s.net.ends[k]? = some e → Inv s.cleaners s.running s.inside s e
  shared : (ownership hL).Shared s.net.mem s.parts

section Runs

variable {cs : List SizeClass} {len : ℕ} {hL : Layout cs len} {bm : View → Manager} {k : ℕ}
  {s s' t : State} {e : End}

theorem Good.of_end (he : s.net.ends[k]? = some e)
    (hi : Inv s.cleaners s.running s.inside s e)
    (hs : (ownership hL).Shared s.net.mem s.parts) : Good hL k s where
  absent hnone := by
    rw [he] at hnone
    cases hnone
  inv e1 he1 := by
    rw [he] at he1
    cases he1
    exact hi
  shared := hs

theorem inside_le_running (l : List (CallbackPc ClosingPc)) :
    (l.map CallbackPc.inside).sum ≤ (l.map CallbackPc.running).sum := by
  refine List.sum_le_sum fun g _ => ?_
  cases g <;> simp [CallbackPc.inside, CallbackPc.running]

theorem shared_of_steps (h : (ownership hL).Shared s.net.mem s.parts)
    (hs : (ownership hL).Steps s.net.mem s.parts t.net.mem t.parts) :
    (ownership hL).Shared t.net.mem t.parts := by
  rw [← List.append_nil s.parts] at h
  rw [← List.append_nil t.parts]
  exact h.steps hs

/-- The message in hand is not touched by a step of somebody else. -/
theorem net_steps (hs : (ownership hL).Steps s.net.mem s.net.parts t.net.mem t.net.parts)
    (hloop : t.loop = s.loop) : (ownership hL).Steps s.net.mem s.parts t.net.mem t.parts := by
  unfold State.parts
  rw [hloop]
  exact (hs.frame _).perm List.perm_append_comm List.perm_append_comm

theorem good_closer (hM : ∀ v, ManagerOk cs (bm v)) (h : Good hL k s) {j : ℕ}
    (hrel : s.closers[j]? = some (.close .clean) → Released k s)
    (hnext : next bm k s (.closer j) = some t) : Good hL k t := by
  obtain ⟨e, he, hnext⟩ := Option.bind_eq_some_iff.mp hnext
  obtain ⟨pc, hpc, hnext⟩ := Option.bind_eq_some_iff.mp hnext
  obtain ⟨⟨s1, pc'⟩, hstep, rfl⟩ := Option.map_eq_some_iff.mp hnext
  -- the others, and this call
  have hi := h.inv e he
  unfold State.cleaners at hi
  rw [sum_map_eraseIdx hpc, add_right_comm] at hi
  have hgoes := stepCloser_goes hL hM hi he (fun heq => hrel (heq ▸ hpc)) hstep
  obtain ⟨e', he', hi'⟩ := hgoes.inv
  refine Good.of_end he' ?_ (shared_of_steps h.shared (net_steps hgoes.steps hgoes.loop))
  have hsum : ({ s1 with closers := s.closers.set j pc' } : State).cleaners =
      ((s.closers.eraseIdx j).map CloserPc.cleaners).sum +
        (s.goroutines.map CallbackPc.cleaners).sum + pc'.cleaners := by
    unfold State.cleaners
    rw [sum_map_set_eraseIdx hpc, hgoes.goroutines, add_right_comm]
  rw [hsum]
  unfold State.running State.inside
  rw [show ({ s1 with closers := s.closers.set j pc' } : State).goroutines = s.goroutines from
    hgoes.goroutines]
  exact { hi' with }

theorem good_goroutine (hM : ∀ v, ManagerOk cs (bm v)) (h : Good hL k s) {j : ℕ}
    (hmux : s.goroutines[j]? = some .moveTo → s.recycleMux = false)
    (hrel : s.goroutines[j]? = some (.close .clean) → Released k s)
    (hnext : next bm k s (.goroutine j) = some t) : Good hL k t := by
  obtain ⟨e, he, hnext⟩ := Option.bind_eq_some_iff.mp hnext
  obtain ⟨g, hg, hnext⟩ := Option.bind_eq_some_iff.mp hnext
  obtain ⟨⟨s1, g'⟩, hstep, rfl⟩ := Option.map_eq_some_iff.mp hnext
  have hi := h.inv e he
  unfold State.cleaners State.running State.inside at hi
  rw [sum_map_eraseIdx hg CallbackPc.cleaners, sum_map_eraseIdx hg CallbackPc.running,
    sum_map_eraseIdx hg CallbackPc.inside, ← add_assoc] at hi
  have hgoes := stepGoroutine_goes hL hM hi he (inside_le_running _) (fun heq => hmux (heq ▸ hg))
    (fun heq => hrel (heq ▸ hg)) hstep
  obtain ⟨e', he', hi'⟩ := hgoes.inv
  refine Good.of_end he' ?_ (shared_of_steps h.shared (net_steps hgoes.steps hgoes.loop))
  unfold State.cleaners State.running State.inside
  simp only []
  rw [sum_map_set_eraseIdx hg, sum_map_set_eraseIdx hg, sum_map_set_eraseIdx hg, hgoes.closers,
    ← add_assoc]
  exact { hi' with }

theorem good_loop (hM : ∀ v, ManagerOk cs (bm v)) (h : Good hL k s)
    (hnext : next bm k s .loop = some t) : Good hL k t := by
  obtain ⟨e, he, hstep⟩ := Option.bind_eq_some_iff.mp hnext
  have hgoes := stepLoop_goes hL hM (h.inv e he) he hstep
  obtain ⟨e', he', hi'⟩ := hgoes.inv
  refine Good.of_end he' ?_ (shared_of_steps h.shared hgoes.steps)
  -- a new goroutine is neither in `OnData` nor in `close`
  have hnew : (s.loop.started.map CallbackPc.cleaners).sum = 0 ∧
      (s.loop.started.map CallbackPc.inside).sum = 0 := by
    cases s.loop <;> exact ⟨rfl, rfl⟩
  unfold State.cleaners State.running State.inside at hi' ⊢
  rw [hgoes.closers, hgoes.goroutines, List.map_append, List.map_append, List.map_append,
    List.sum_append, List.sum_append, List.sum_append, hnew.1, hnew.2]
  exact hi'

theorem good_close (h : Good hL k s) (hnext : next bm k s .close = some t) : Good hL k t := by
  obtain ⟨e, he, rfl⟩ := Option.map_eq_some_iff.mp hnext
  have hi := h.inv e he
  refine Good.of_end he ?_ h.shared
  have hsum : ({ s with closers := s.closers ++
      [if e.callbacks = true then CloserPc.storeWaitExit else .loadInProcess] } : State).cleaners =
      s.cleaners := by
    unfold State.cleaners
    rw [List.map_append, List.sum_append]
    split <;> rfl
  rw [hsum]
  exact { hi with }

/-- The stream is as before, opened, or closed by its peer. -/
theorem inv_untouched (h : Good hL k s) {net : Net} (hk : Untouched s.net.ends[k]? net.ends[k]?) :
    ∀ e, net.ends[k]? = some e → Inv s.cleaners s.running s.inside { s with net := net } e := by
  intro e he
  rw [he] at hk
  generalize hold : s.net.ends[k]? = o at hk
  cases hk with
  | same => exact { h.inv e hold with }
  | opened side id =>
    rw [h.absent hold]
    exact inv_new net side id
  | peerClosed e0 hopen => exact (h.inv e0 hold).halfClose hopen

theorem good_other (hM : ∀ v, ManagerOk cs (bm v)) (h : Good hL k s) {a : DataPath.Act}
    (ha : Net.Small s.net a) (hnext : next bm k s (.other a) = some t) : Good hL k t := by
  simp only [next] at hnext
  split_ifs at hnext with hidle
  obtain ⟨net, hnet, rfl⟩ := Option.map_eq_some_iff.mp hnext
  have hk := idle_step hidle hnet
  refine ⟨fun hnone => ?_, inv_untouched h hk, ?_⟩
  · have hold : s.net.ends[k]? = none := by
      rw [show net.ends[k]? = none from hnone] at hk
      generalize s.net.ends[k]? = o at hk
      cases hk
      rfl
    rw [h.absent hold]
  · exact shared_of_steps h.shared
      (net_steps (t := { s with net := net }) (next_steps hM ha hnet) rfl)

theorem good_receive (h : Good hL k s) {net : Net} {v : View} {id : ℕ} {u : Unread}
    (hnext : receive k s net v id u = some t) (hends : net.ends = s.net.ends)
    (hmem : net.mem = s.net.mem) (hparts : s.net.parts.Perm (pendingParts [u] ++ net.parts)) :
    Good hL k t := by
  unfold receive at hnext
  split_ifs at hnext with hc
  cases hnext
  obtain ⟨hidle, hfound⟩ := hc
  obtain ⟨e, he⟩ := getStream_found hfound
  have hk := untouched_getStream (k := k) net v id
  rw [hends] at hk
  refine Good.of_end he { (inv_untouched h hk e he).receive hidle u with }
    (shared_of_steps h.shared ?_)
  have hget : (ownership hL).Steps net.mem _ _ _ := getStream_steps net v id
  have hframe := hget.frame (pendingParts [u])
  rw [hmem] at hframe
  unfold State.parts
  rw [hidle]
  exact hframe.perm (hparts.trans List.perm_append_comm) List.perm_append_comm

theorem target_of_userCall {a : DataPath.Act} (ha : UserCall k a) : a.target = some k := by
  cases a <;> first | exact congrArg some ha | exact ha.elim

theorem good_user (hM : ∀ v, ManagerOk cs (bm v)) (h : Good hL k s) {a : DataPath.Act}
    (ha : Allowed k s (.user a)) (hnext : next bm k s (.user a) = some t) : Good hL k t := by
  simp only [next] at hnext
  split_ifs at hnext with huser
  obtain ⟨net, hnet, rfl⟩ := Option.map_eq_some_iff.mp hnext
  obtain ⟨hsmall, hmux, hwhen⟩ := ha
  obtain ⟨e0, -, hold, -⟩ := target_inv (target_of_userCall huser) hnet
  obtain ⟨e', he', hstate, hcall⟩ := user_inv huser hold hnet
  have hi := h.inv e0 hold
  -- inside `OnData`, `close` is still in `Wait`
  have hwait : s.progress.waited = false := by
    by_contra hw
    have hwaited : s.progress.waited = true := by simpa using hw
    rcases hwhen with hopen | hdata
    · exact hopen e0 hold (hi.closed.mpr (waited_closed hwaited))
    · have hone : CallbackPc.inside .onData ≤ s.inside :=
        List.single_le_sum (by simp) _ (List.mem_map_of_mem hdata)
      rw [hi.waited hwaited] at hone
      cases hone
  exact Good.of_end he' { hi.user hstate hcall hmux hwait with } (shared_of_steps h.shared
    (net_steps (t := { s with net := net }) (next_steps hM hsmall hnet) rfl))

/-- **Step.** -/
theorem good_step (hM : ∀ v, ManagerOk cs (bm v)) (h : Good hL k s) {a : Act} (ha : Allowed k s a)
    (hnext : next bm k s a = some t) : Good hL k t := by
  cases a with
  | close => exact good_close h hnext
  | closer j => exact good_closer hM h ha hnext
  | goroutine j => exact good_goroutine hM h ha.1 ha.2 hnext
  | loop => exact good_loop hM h hnext
  | receive v =>
    simp only [next] at hnext
    split at hnext
    · cases hnext
    · rename_i id offset rest hq
      exact good_receive h hnext rfl rfl (pop_perm hq)
  | receiveFallback v id payload => exact good_receive h hnext rfl rfl (.refl _)
  | user a => exact good_user hM h ha hnext
  | other a => exact good_other hM h ha hnext

/-- **Run.** -/
theorem good_of_reachable {m : Mem} (hc : Created cs (bm .creator) m) (hM : ∀ v, ManagerOk cs (bm v))
    (hs : (runs bm k m).ReachableWhen (Allowed k) s) : Good hc.layout k s := by
  refine hs.invariant (Good hc.layout k) ?_ ?_
  · rintro s rfl
    exact ⟨fun _ => rfl, fun e he => (nomatch he), shared_created hc⟩
  · intro s a t h ha hnext
    exact good_step hM h ha hnext

/-- When nobody works on a closed stream, `clean` is done. -/
theorem finished_of_quiet (hi : Inv s.cleaners s.running s.inside s e) (hq : s.Quiet)
    (hclosed : e.state = .closed) : s.progress.finished = true := by
  have hzero : s.cleaners = 0 := by
    have hc : (s.closers.map CloserPc.cleaners).sum = 0 := List.sum_eq_zero fun x hx => by
      obtain ⟨pc, hpc, rfl⟩ := List.mem_map.mp hx
      rw [hq.1 pc hpc]
      rfl
    have hg : (s.goroutines.map CallbackPc.cleaners).sum = 0 := List.sum_eq_zero fun x hx => by
      obtain ⟨g, hg, rfl⟩ := List.mem_map.mp hx
      rw [hq.2.1 g hg]
      rfl
    rw [State.cleaners, hc, hg]
  have hone := hi.one
  have hstarted := hi.closed.mp hclosed
  rw [hzero] at hone
  revert hone hstarted
  cases s.progress <;> simp [Progress.active, Progress.closed, Progress.finished]

end Runs

section

variable {pairs : List SizePercentPair} {m m0 : Mem} {bm bm' : Manager} {k : ℕ} {s : State} {e : End}

end

/-- A server's stream with callbacks: a message of two slots is read and released inside
    `OnData`, during which `Close` is called; another message comes while the goroutine
    closes the stream. -/
def closeInOnData : List Act := List.flatten [
  [.other (.openStream 1), .other (.write 0 (.writeBytes (List.replicate 30 7))),
    .other (.flush 0 true), .receive .mapper, .loop, .user (.setCallbacks 1)],
  List.replicate 5 .loop,
  [.goroutine 0, .goroutine 0, .user (.call 1 (.readBytes 3)), .user (.call 1 (.readBytes 27)),
    .user (.releasePreviousRead 1), .user (.write 1 (.writeByte 1)), .close, .closer 0, .closer 0,
    .closer 0, .other (.write 0 (.writeByte 2)), .other (.flush 0 true)],
  List.replicate 8 (.goroutine 0), [.receive .mapper], List.replicate 5 (.goroutine 0),
  List.replicate 5 .loop, List.replicate 2 (.goroutine 0)]

/-- A message of two slots is read beyond the first, and the stream is closed. -/
def closeUnreleased : List Act := List.flatten [
  [.other (.openStream 1), .other (.write 0 (.writeBytes (List.replicate 30 7))),
    .other (.flush 0 true), .receive .mapper, .loop, .loop, .loop, .user (.moveTo 1),
    .user (.call 1 (.readBytes 3)), .user (.call 1 (.readBytes 24)), .close],
  List.replicate 10 (.closer 0)]

/-- `Close` passes `Wait` before the event loop has started the goroutine for the first
    message; a second message is added, and moved, between the loop and the `clean` of
    `recvBuf.recycle`. -/
def moveInRecycle : List Act := List.flatten [
  [.other (.openStream 1), .other (.write 0 (.writeByte 1)), .other (.flush 0 true),
    .receive .mapper, .loop, .user (.setCallbacks 1), .loop, .loop, .other (.write 0 (.writeByte 2)),
    .other (.flush 0 true), .close],
  List.replicate 5 (.closer 0), [.loop, .loop, .loop, .receive .mapper],
  List.replicate 3 (.closer 0), [.loop, .goroutine 0], List.replicate 3 (.closer 0),
  List.replicate 4 .loop, List.replicate 6 (.goroutine 0)]

/-- The slot 88 of the second message is in no place at all. -/
theorem late_message_leaked : ∃ m0 bm bm', TwoProcesses [⟨24, 100⟩] (zeroMem 264) m0 bm bm' ∧
    ∃ s ∈ (runs (Views.managerOf bm bm') 1 m0).run { net := { mem := m0 } } moveInRecycle,
      ∃ e ∈ s.net.ends[1]?, e.state = .closed ∧ s.Quiet ∧
        88 ∉ bm.freeSlots s.net.mem ++ s.net.owned :=
  exists_twoProcesses _ (by decide +kernel)

end Shmipc.Drain
