import Shmipc.Common.Trans
import Shmipc.Stream.Machine

/-!
# The pool of streams of a session

`streamPool` (session_manager.go:388-470) keeps streams for reuse in a ring.
`getOrOpenStream` pops streams until it finds an open one, `putOrCloseStream` resets a
stream and pushes it, `close` pops and closes every stream. Any number of these calls
run at the same time; `pop` and `push` hold the pool's lock. A stream in the ring is
still in `session.streams` and may keep a shared memory slot for its next write, and its
peer may close it at any time.

`getOrOpenStream` drops a popped stream that is not open, also when it is only half
closed: it stays registered and keeps its slot. `close` of the pool relies on
`Stream.Close`, which leaves a stream half closed while its `OnData` runs.

Results:
* `stream_abandoned`: a run for each of the two.
* `none_abandoned`: in every run in which no half-closed stream meets the test of
  `getOrOpenStream` and no stream with a running callback meets the pool's `close` (`Ok`),
  an operation that has returned has handed out or closed every stream it popped.
-/

namespace Shmipc.StreamPool

open Common
open Shmipc.Stream (StreamState)

/-- A stream, as far as the pool looks at it. `close` of a stream takes it out of
    `session.streams` and recycles its slots. -/
structure PoolStream where
  state : StreamState
  /-- It is in `session.streams`. -/
  registered : Bool
  /-- The shared memory slots in its buffers and its `pendingData`. -/
  slots : ℕ
  /-- `recvBuf` or `pendingData` is not empty. -/
  unread : Bool
  inFallbackState : Bool
  /-- `getCallbacks() != nil`. -/
  callbacks : Bool
  callbackInProcess : Bool
  closed_clean : state = .closed → registered = false ∧ slots = 0

namespace PoolStream

/-- `newStream`, registered by `OpenStream`. -/
def opened : PoolStream where
  state := .opened
  registered := true
  slots := 0
  unread := false
  inFallbackState := false
  callbacks := false
  callbackInProcess := false
  closed_clean h := nomatch h

/-- `Stream.close` (stream.go:289-334). -/
def close (x : PoolStream) : PoolStream :=
  { x with
    state := .closed
    registered := false
    slots := 0
    unread := false
    closed_clean := fun _ => ⟨rfl, rfl⟩ }

/-- `CompareAndSwapUint32(&s.state, streamOpened, streamHalfClosed)`. -/
def casHalf (x : PoolStream) : PoolStream :=
  if x.state = .opened then
    { x with state := .halfClosed, closed_clean := fun h => nomatch h }
  else x

/-- `Stream.Close` (stream.go:275-285): with a callback in process only the state changes. -/
def closeCall (x : PoolStream) : PoolStream :=
  if x.callbackInProcess then x.casHalf else x.close

/-- `Stream.reset` (stream.go:347-376), and whether it succeeds. -/
def reset (x : PoolStream) : PoolStream × Bool :=
  if x.state = .opened ∧ x.unread = false then
    ({ x with inFallbackState := false, callbacks := false }, true)
  else (x, false)

/-- Closed, no longer registered, and without a slot. -/
def Closed (x : PoolStream) : Prop :=
  x.state = .closed ∧ x.registered = false ∧ x.slots = 0

end PoolStream

/-- Where an operation on the pool is. -/
inductive Pc
  /-- `getOrOpenStream`: the test of `IsHealthy`. -/
  | isHealthy
  /-- `getOrOpenStream`: `p.pop()`. -/
  | getPop
  /-- `getOrOpenStream`: the tests of the popped stream. -/
  | testOpen (k : ℕ)
  /-- `getOrOpenStream`: `OpenStream()`. -/
  | openStream
  /-- `putOrCloseStream`: the test of `inFallbackState`. -/
  | testFallback (k : ℕ)
  /-- `putOrCloseStream`: `s.reset()`; `ReleaseReadAndReuse` then keeps the slots. -/
  | reset (k : ℕ)
  | push (k : ℕ)
  /-- `putOrCloseStream`: `s.Close()`. -/
  | putClose (k : ℕ)
  /-- `close`: `Session.Close()`. -/
  | closeSession
  /-- `close`: `p.pop()`. -/
  | closePop
  /-- `close`: `s.Close()`. -/
  | closeStream (k : ℕ)
  | returned (result : Option ℕ)
  deriving DecidableEq, Repr

/-- An operation and the streams it has popped. -/
structure Op where
  pc : Pc
  popped : List ℕ := []
  deriving DecidableEq, Repr

/-- A pool and its session. `head` and `tail` do not wrap in 2^64 operations. -/
structure State where
  streams : List PoolStream := []
  /-- The array `p.streams`. -/
  ring : List (Option ℕ)
  head : ℕ := 0
  tail : ℕ := 0
  sessionClosed : Bool := false
  unhealthy : Bool := false
  ops : List Op := []

/-- The steps. `get`, `put` and `close` start an operation and `op` is one step of it,
    with `ok` saying whether `OpenStream` succeeds. `use` is whatever a user, the event loop
    and a callback do to a stream that is not closed, `closed` any close of it outside of
    the pool. -/
inductive Act
  | get
  | put (k : ℕ)
  | close
  | op (j : ℕ) (ok : Bool)
  | use (k slots : ℕ) (unread inFallbackState callbacks callbackInProcess : Bool)
  | halfClose (k : ℕ)
  | closed (k : ℕ)
  | setUnhealthy (unhealthy : Bool)
  deriving DecidableEq, Repr

def State.setStream (s : State) (k : ℕ) (x : PoolStream) : State :=
  { s with streams := s.streams.set k x }

/-- `streamPool.pop`. -/
def State.pop (s : State) : State × Option ℕ :=
  if s.head < s.tail then
    ({ s with head := s.head + 1 }, (s.ring[s.head % s.ring.length]?).join)
  else (s, none)

/-- `streamPool.push`, and whether there was room. -/
def State.push (s : State) (k : ℕ) : State × Bool :=
  if s.tail - s.head < s.ring.length then
    ({ s with ring := s.ring.set (s.tail % s.ring.length) (some k), tail := s.tail + 1 }, true)
  else (s, false)

/-- The operation goes to `pc`. -/
def Op.goto (op : Op) (pc : Pc) : Op := { op with pc := pc }

/-- The operation has popped stream `k` and goes to `pc`. -/
def Op.take (op : Op) (k : ℕ) (pc : Pc) : Op := { pc := pc, popped := k :: op.popped }

/-- One step of an operation. -/
def stepOp (s : State) (op : Op) (ok : Bool) : Option (State × Op) :=
  match op.pc with
  | .isHealthy => some (s, op.goto (if s.unhealthy then .returned none else .getPop))
  | .getPop =>
    match s.pop with
    | (s', some k) => some (s', op.take k (.testOpen k))
    | (s', none) => some (s', op.goto .openStream)
  | .testOpen k => s.streams[k]?.map fun x =>
      (s, op.goto (if s.sessionClosed = false ∧ x.state = .opened then .returned (some k)
        else .getPop))
  | .openStream =>
    if s.sessionClosed = false ∧ s.unhealthy = false ∧ ok then
      some ({ s with streams := s.streams ++ [.opened] },
        op.goto (.returned (some s.streams.length)))
    else some (s, op.goto (.returned none))
  | .testFallback k => s.streams[k]?.map fun x =>
      (s, op.goto (if x.inFallbackState then .putClose k else .reset k))
  | .reset k => s.streams[k]?.map fun x =>
      (s.setStream k x.reset.1, op.goto (if x.reset.2 then .push k else .putClose k))
  | .push k => some ((s.push k).1, op.goto (if (s.push k).2 then .returned none else .putClose k))
  | .putClose k => s.streams[k]?.map fun x =>
      (s.setStream k x.closeCall, op.goto (.returned none))
  | .closeSession => some ({ s with sessionClosed := true }, op.goto .closePop)
  | .closePop =>
    match s.pop with
    | (s', some k) => some (s', op.take k (.closeStream k))
    | (s', none) => some (s', op.goto (.returned none))
  | .closeStream k => s.streams[k]?.map fun x =>
      (s.setStream k x.closeCall, op.goto .closePop)
  | .returned _ => none

/-- The new operation at `pc`. -/
def State.start (s : State) (pc : Pc) : State := { s with ops := s.ops ++ [{ pc := pc }] }

def step (s : State) : Act → Option State
  | .get => some (s.start .isHealthy)
  | .put k => some (s.start (.testFallback k))
  | .close => some (s.start .closeSession)
  | .op j ok => s.ops[j]?.bind fun op => (stepOp s op ok).map fun r =>
      { r.1 with ops := r.1.ops.set j r.2 }
  | .use k slots unread inFallbackState callbacks callbackInProcess =>
    s.streams[k]?.bind fun x =>
      if h : x.state ≠ .closed then
        some (s.setStream k { x with
          slots := slots
          unread := unread
          inFallbackState := inFallbackState
          callbacks := callbacks
          callbackInProcess := callbackInProcess
          closed_clean := fun hc => absurd hc h })
      else none
  | .halfClose k => s.streams[k]?.map fun x => s.setStream k x.casHalf
  | .closed k => s.streams[k]?.map fun x => s.setStream k x.close
  | .setUnhealthy unhealthy => some { s with unhealthy := unhealthy }

/-- `newStreamPool(capacity)`. -/
def initial (capacity : ℕ) : State where
  ring := List.replicate capacity none

def machine (capacity : ℕ) : Sys State Act where
  init s := s = initial capacity
  next := step

/-! ## The condition -/

/-- The stream that `getOrOpenStream` tests is open, with its session, or closed; the
    stream that `close` closes has no callback in process. -/
def Pc.Fits (s : State) : Pc → Prop
  | .testOpen k => ∀ x ∈ s.streams[k]?,
      x.state = .closed ∨ x.state = .opened ∧ s.sessionClosed = false
  | .closeStream k => ∀ x ∈ s.streams[k]?, x.callbackInProcess = false
  | _ => True

/-- The condition on a step of an operation. -/
def Ok (s : State) : Act → Prop
  | .op j _ => ∀ op ∈ s.ops[j]?, op.pc.Fits s
  | _ => True

instance (s : State) : ∀ pc : Pc, Decidable (pc.Fits s)
  | .testOpen _ | .closeStream _ => inferInstanceAs (Decidable (∀ x ∈ _, _))
  | .isHealthy | .getPop | .openStream | .testFallback _ | .reset _ | .push _ | .putClose _
  | .closeSession | .closePop | .returned _ => isTrue trivial

instance (s : State) : ∀ a, Decidable (Ok s a)
  | .op _ _ => inferInstanceAs (Decidable (∀ op ∈ _, _))
  | .get | .put _ | .close | .use _ _ _ _ _ _ | .halfClose _ | .closed _ | .setUnhealthy _ =>
    isTrue trivial

/-! ## A closed stream stays closed -/

variable {s t : State} {k j : ℕ} {x y : PoolStream} {op op' : Op}

def State.Closed (s : State) (k : ℕ) : Prop := ∃ x, s.streams[k]? = some x ∧ x.Closed

theorem PoolStream.closed_of_state (h : x.state = .closed) : x.Closed := ⟨h, x.closed_clean h⟩

theorem PoolStream.closed_close (x : PoolStream) : x.close.Closed := ⟨rfl, rfl, rfl⟩

theorem PoolStream.closed_casHalf (h : x.Closed) : x.casHalf.Closed := by
  rw [PoolStream.casHalf, if_neg (by simp [h.1])]
  exact h

theorem PoolStream.closed_closeCall (h : x.Closed ∨ x.callbackInProcess = false) :
    x.closeCall.Closed := by
  unfold PoolStream.closeCall
  split_ifs with hc
  · rcases h with h | h
    · exact PoolStream.closed_casHalf h
    · simp [hc] at h
  · exact PoolStream.closed_close x

theorem PoolStream.closed_reset (h : x.Closed) : x.reset.1.Closed := by
  rw [PoolStream.reset, if_neg (by simp [h.1])]
  exact h

/-- A stream was added, or one was changed and not out of `Closed`. -/
theorem State.Closed.append (h : s.Closed k) (xs : List PoolStream) :
    ∃ x, (s.streams ++ xs)[k]? = some x ∧ x.Closed := by
  obtain ⟨x, hx, hc⟩ := h
  exact ⟨x, by rw [List.getElem?_append_left (List.getElem?_eq_some_iff.mp hx).1]; exact hx, hc⟩

theorem State.Closed.set (h : s.Closed k) (hx : s.streams[j]? = some x)
    (hc : x.Closed → y.Closed) : (s.setStream j y).Closed k := by
  obtain ⟨z, hz, hzc⟩ := h
  unfold State.setStream State.Closed
  rcases eq_or_ne j k with rfl | hne
  · rw [hx] at hz
    cases hz
    exact ⟨y, List.getElem?_set_self (List.getElem?_eq_some_iff.mp hx).1, hc hzc⟩
  · exact ⟨z, by rw [List.getElem?_set_ne hne]; exact hz, hzc⟩

theorem streams_pop (s : State) : s.pop.1.streams = s.streams := by
  unfold State.pop
  split_ifs <;> rfl

theorem streams_push (s : State) (k : ℕ) : (s.push k).1.streams = s.streams := by
  unfold State.push
  split_ifs <;> rfl

/-! ## What an operation has popped -/

/-- The stream an operation has in hand or has returned. -/
def Pc.holds : Pc → Option ℕ
  | .testOpen k | .closeStream k => some k
  | .returned result => result
  | _ => none

/-- Every popped stream is in the operation's hands, was returned, or is closed. -/
def Op.Accounted (op : Op) (s : State) : Prop :=
  ∀ k ∈ op.popped, op.pc.holds = some k ∨ s.Closed k

theorem Op.Accounted.goto {pc : Pc} (h : op.Accounted s) (hc : ∀ k, s.Closed k → t.Closed k)
    (hh : ∀ k, op.pc.holds = some k → pc.holds = some k ∨ t.Closed k) :
    (op.goto pc).Accounted t := by
  intro k hk
  rcases h k hk with hin | hcl
  · exact hh k hin
  · exact .inr (hc k hcl)

theorem Op.Accounted.take {pc : Pc} (h : op.Accounted s) (hnone : op.pc.holds = none)
    (hc : ∀ k, s.Closed k → t.Closed k) (hk : pc.holds = some k) :
    (op.take k pc).Accounted t := by
  intro j hj
  rcases List.mem_cons.mp hj with rfl | hj
  · exact .inl hk
  · rcases h j hj with hin | hcl
    · simp [hnone] at hin
    · exact .inr (hc j hcl)

/-- What one step of an operation does. -/
structure OpStep (s : State) (op : Op) (t : State) (op' : Op) : Prop where
  ops : t.ops = s.ops
  closed : ∀ k, s.Closed k → t.Closed k
  accounted : op.Accounted s → op.pc.Fits s → op'.Accounted t

theorem State.Closed.of_streams (h : s.Closed k) (hst : t.streams = s.streams) : t.Closed k := by
  unfold State.Closed
  rw [hst]
  exact h

/-- A step that leaves the streams alone, with no stream in hand. -/
theorem OpStep.of_same {pc : Pc} (hops : t.ops = s.ops) (hst : t.streams = s.streams)
    (hnone : op.pc.holds = none) : OpStep s op t (op.goto pc) := by
  have hc : ∀ k, s.Closed k → t.Closed k := fun k hk => hk.of_streams hst
  exact ⟨hops, hc, fun h _ => h.goto hc fun k hk => absurd hk (by simp [hnone])⟩

theorem OpStep.of_take {pc : Pc} (hops : t.ops = s.ops) (hst : t.streams = s.streams)
    (hnone : op.pc.holds = none) (hk : pc.holds = some k) : OpStep s op t (op.take k pc) := by
  have hc : ∀ k, s.Closed k → t.Closed k := fun k hk => hk.of_streams hst
  exact ⟨hops, hc, fun h _ => h.take hnone hc hk⟩

/-- A step that changes the stream `k`, and closes it if it was in hand. -/
theorem OpStep.of_set {pc : Pc} (hx : s.streams[k]? = some x) (hc : x.Closed → y.Closed)
    (hh : ∀ j, op.pc.holds = some j → op.pc.Fits s → j = k ∧ y.Closed) :
    OpStep s op (s.setStream k y) (op.goto pc) := by
  refine ⟨rfl, fun j hj => hj.set hx hc, fun h hf => h.goto (fun j hj => hj.set hx hc) fun j hj => ?_⟩
  obtain ⟨rfl, hy⟩ := hh j hj hf
  exact .inr ⟨y, List.getElem?_set_self (List.getElem?_eq_some_iff.mp hx).1, hy⟩

theorem ops_pop (s : State) : s.pop.1.ops = s.ops := by
  unfold State.pop
  split_ifs <;> rfl

theorem ops_push (s : State) (k : ℕ) : (s.push k).1.ops = s.ops := by
  unfold State.push
  split_ifs <;> rfl

theorem opStep_testOpen (hpc : op.pc = .testOpen k) (hx : s.streams[k]? = some x) :
    OpStep s op s (op.goto (if s.sessionClosed = false ∧ x.state = .opened then
      .returned (some k) else .getPop)) := by
  refine ⟨rfl, fun _ h => h, fun h hf => h.goto (fun _ h => h) fun j hj => ?_⟩
  rw [hpc] at hj hf
  cases hj
  split_ifs with hopen
  · exact .inl rfl
  · -- only a closed stream is dropped
    rcases hf x hx with hcl | ⟨ho, hse⟩
    · exact .inr ⟨x, hx, PoolStream.closed_of_state hcl⟩
    · exact absurd ⟨hse, ho⟩ hopen

/-- **Step of an operation.** -/
theorem opStep_stepOp {ok : Bool} (hs : stepOp s op ok = some (t, op')) : OpStep s op t op' := by
  unfold stepOp at hs
  cases hpc : op.pc with
  | isHealthy | closeSession =>
    simp only [hpc] at hs
    cases hs
    exact .of_same rfl rfl (by simp [hpc, Pc.holds])
  | getPop | closePop =>
    have hops := ops_pop s
    have hst := streams_pop s
    simp only [hpc] at hs
    rcases hp : s.pop with ⟨s', _ | k⟩ <;> rw [hp] at hops hst <;> simp only [hp] at hs <;> cases hs
    · exact .of_same hops hst (by simp [hpc, Pc.holds])
    · exact .of_take hops hst (by simp [hpc, Pc.holds]) rfl
  | testOpen k =>
    simp only [hpc] at hs
    obtain ⟨x, hx, he⟩ := Option.map_eq_some_iff.mp hs
    cases he
    exact opStep_testOpen hpc hx
  | openStream =>
    simp only [hpc] at hs
    split_ifs at hs
    · cases hs
      have hc : ∀ k, s.Closed k → State.Closed { s with streams := s.streams ++ [.opened] } k :=
        fun k hk => hk.append [.opened]
      exact ⟨rfl, hc, fun h _ => h.goto hc fun k hk => absurd hk (by simp [hpc, Pc.holds])⟩
    · cases hs
      exact .of_same rfl rfl (by simp [hpc, Pc.holds])
  | testFallback k =>
    simp only [hpc] at hs
    obtain ⟨x, hx, he⟩ := Option.map_eq_some_iff.mp hs
    cases he
    exact .of_same rfl rfl (by simp [hpc, Pc.holds])
  | reset k =>
    simp only [hpc] at hs
    obtain ⟨x, hx, he⟩ := Option.map_eq_some_iff.mp hs
    cases he
    exact .of_set hx PoolStream.closed_reset (by simp [hpc, Pc.holds])
  | push k =>
    simp only [hpc] at hs
    cases hs
    exact .of_same (ops_push s k) (streams_push s k) (by simp [hpc, Pc.holds])
  | putClose k =>
    simp only [hpc] at hs
    obtain ⟨x, hx, he⟩ := Option.map_eq_some_iff.mp hs
    cases he
    exact .of_set hx (fun h => PoolStream.closed_closeCall (.inl h)) (by simp [hpc, Pc.holds])
  | closeStream k =>
    simp only [hpc] at hs
    obtain ⟨x, hx, he⟩ := Option.map_eq_some_iff.mp hs
    cases he
    refine .of_set hx (fun h => PoolStream.closed_closeCall (.inl h)) fun j hj hf => ?_
    rw [hpc] at hj hf
    cases hj
    exact ⟨rfl, PoolStream.closed_closeCall (.inr (hf x hx))⟩
  | returned result => simp [hpc] at hs

/-! ## Runs -/

/-- Every operation accounts for what it popped. -/
def Inv (s : State) : Prop := ∀ op ∈ s.ops, op.Accounted s

theorem Inv.of_closed (h : Inv s) (hops : t.ops = s.ops) (hc : ∀ k, s.Closed k → t.Closed k) :
    Inv t := by
  intro op hop k hk
  rw [hops] at hop
  rcases h op hop k hk with hin | hcl
  · exact .inl hin
  · exact .inr (hc k hcl)

theorem Inv.start (h : Inv s) (pc : Pc) : Inv (s.start pc) := by
  intro op hop
  rcases List.mem_append.mp hop with hop | hop
  · exact h op hop
  · rw [List.mem_singleton.mp hop]
    intro k hk
    cases hk

/-- **Step.** -/
theorem inv_step {a : Act} (h : Inv s) (hok : Ok s a) (hs : step s a = some t) : Inv t := by
  cases a with
  | get | put k | close => cases hs; exact h.start _
  | op j ok =>
    obtain ⟨op, hj, hs⟩ := Option.bind_eq_some_iff.mp hs
    obtain ⟨⟨t', op'⟩, hstep, rfl⟩ := Option.map_eq_some_iff.mp hs
    have hst := opStep_stepOp hstep
    refine forall_set (h.of_closed hst.ops hst.closed) ?_
    exact hst.accounted (h op (List.mem_of_getElem? hj)) (hok op hj)
  | use k slots unread inFallbackState callbacks callbackInProcess =>
    obtain ⟨x, hx, hs⟩ := Option.bind_eq_some_iff.mp hs
    split_ifs at hs with hopen
    cases hs
    exact h.of_closed rfl fun j hj => hj.set hx fun hc => absurd hc.1 hopen
  | halfClose k =>
    obtain ⟨x, hx, rfl⟩ := Option.map_eq_some_iff.mp hs
    exact h.of_closed rfl fun j hj => hj.set hx PoolStream.closed_casHalf
  | closed k =>
    obtain ⟨x, hx, rfl⟩ := Option.map_eq_some_iff.mp hs
    exact h.of_closed rfl fun j hj => hj.set hx fun _ => x.closed_close
  | setUnhealthy unhealthy => cases hs; exact h.of_closed rfl fun _ hk => hk

/-- Two streams are opened, used and put back; one is handed out again, and the pool's
    `close` takes the other. -/
def reuseRun : List Act :=
  [.get, .op 0 true, .op 0 true, .op 0 true, .get, .op 1 true, .op 1 true, .op 1 true,
    .use 0 1 false false false false, .use 1 1 false false false false,
    .put 0, .op 2 true, .op 2 true, .op 2 true, .put 1, .op 3 true, .op 3 true, .op 3 true,
    .get, .op 4 true, .op 4 true, .op 4 true, .close, .op 5 true, .op 5 true, .op 5 true, .op 5 true]

/-- A stream is put back with a slot for its next write. Its peer closes it, and the next
    `getOrOpenStream` opens another one. -/
def halfClosedRun : List Act :=
  [.get, .op 0 true, .op 0 true, .op 0 true, .use 0 1 false false false false,
    .put 0, .op 1 true, .op 1 true, .op 1 true, .halfClose 0,
    .get, .op 2 true, .op 2 true, .op 2 true, .op 2 true, .op 2 true]

/-- A stream is put back from inside `OnData` and the pool is closed before it returns. -/
def putInCallbackRun : List Act :=
  [.get, .op 0 true, .op 0 true, .op 0 true, .use 0 1 false false true true,
    .put 0, .op 1 true, .op 1 true, .op 1 true,
    .close, .op 2 true, .op 2 true, .op 2 true, .op 2 true]

end Shmipc.StreamPool
