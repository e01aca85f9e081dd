import Shmipc.Common.Trans

/-!
# The `net.Listener` adapter

`listener` (net_listener.go) wraps a raw listener: a goroutine for each raw connection makes a
session, registers it and hands its streams, wrapped as connections, to `Accept`. A session is
closed by a goroutine of its own that waits for the session's wait group. The listener holds
one reference of it and every wrapper holds one.

The steps are those of the goroutine in `listenLoop` (net_listener.go:68-120), of `Accept` and
`Close` (net_listener.go:125-154), of `newStreamWrapper` (net_listener.go:190-193) and of
`streamWrapper.Close` (net_listener.go:211-217); a section under `mu` is one step. Raw
connections come at any time, also to a goroutine that was started before `Close`. A session
may be shut down at any time by its peer or an error. `Accept` may take any wrapper of the
backlog: the order in the channel does not matter here.

`sync.WaitGroup` panics in `Wait` if the group was used again before the woken waiter has seen
the counter at 0. The process is then gone (`crashed`).

* `Inv.count`: the counter is the number of references.
* `references_counted`: what it is worth once the listener is closed.
* `wrapper_dropped`: the `select` of the accept loop can drop a wrapper with its reference.
-/

namespace Shmipc.NetListener

open Common

/-! ## Model -/

/-- Where the goroutine of a session is; a constructor stands for the step that is taken
    next. -/
inductive LoopPc
  /-- The section that registers the session. -/
  | register
  /-- `session.Close()` for a closed listener. -/
  | refuse
  /-- `session.AcceptStream()`. -/
  | accept
  /-- `newStreamWrapper`. -/
  | wrap
  /-- The `select` with the wrapper `w`. -/
  | offer (w : ℕ)
  /-- `session.Close()` after an error. -/
  | fail
  /-- The section that removes the session. -/
  | remove
  | returned
  deriving DecidableEq

/-- The goroutine that closes the session. -/
inductive Waiter
  /-- The session is not registered yet. -/
  | absent
  /-- `wg.Wait()`. -/
  | start
  /-- Asleep in `wg.Wait()`. -/
  | asleep
  /-- Woken: it looks at the counter once more. -/
  | woken
  /-- `session.Close()`. -/
  | close
  | returned
  deriving DecidableEq

structure Sess where
  pc : LoopPc
  /-- `l.sessions` has the session. -/
  registered : Bool
  /-- The counter of the wait group. -/
  wg : ℤ
  waiter : Waiter
  /-- `shutdownCh` of the session is closed. -/
  shutdown : Bool
  deriving DecidableEq

/-- `wg.Done()`. -/
def Sess.done (x : Sess) : Sess :=
  { x with
    wg := x.wg - 1
    waiter := if x.wg = 1 ∧ x.waiter = .asleep then .woken else x.waiter }

/-- Where a wrapper is: with the accept loop, in the channel, with the caller of `Accept`, or
    nowhere. -/
inductive Place
  | offered
  | backlog
  | delivered
  | dropped
  deriving DecidableEq

/-- `streamWrapper.Close`: not called, between the `CompareAndSwapUint32` and `wg.Done()`, done. -/
inductive Closing
  | unclosed
  | closing
  | closed
  deriving DecidableEq

structure Wrapper where
  sess : ℕ
  place : Place
  state : Closing
  deriving DecidableEq

/-- A call of `listener.Close`. -/
inductive CloserPc
  /-- `CompareAndSwapUint32(&l.closed, 0, 1)`. -/
  | cas
  /-- `close(l.closeCh)`. -/
  | closeCh
  /-- The section that releases the sessions. -/
  | release
  | returned
  deriving DecidableEq

structure State where
  closed : Bool
  /-- `closeCh` is closed. -/
  closeCh : Bool
  sessions : List Sess
  wrappers : List Wrapper
  closers : List CloserPc
  crashed : Bool
  deriving DecidableEq

/-- The steps of the goroutine of a session. -/
inductive LoopAct
  | register
  | refuse
  /-- `AcceptStream` returns a stream. -/
  | accept
  /-- `AcceptStream` returns an error. -/
  | acceptErr
  | wrap
  /-- The `select` finds `closeCh` closed. -/
  | drop
  /-- The `select` finds room in `backlog`. -/
  | send
  /-- The `select` finds a caller that waits in `Accept`. -/
  | handOff
  | fail
  | remove
  deriving DecidableEq

inductive Act
  /-- `Server` returns a session to the goroutine of a raw connection. -/
  | establish
  | loop (k : ℕ) (a : LoopAct)
  /-- A step of the goroutine that waits for the wait group of the session `k`. -/
  | waiter (k : ℕ)
  /-- The session `k` is shut down for another reason. -/
  | shutdown (k : ℕ)
  /-- `Accept` takes the wrapper `w` from the backlog. -/
  | accept (w : ℕ)
  /-- `Close` of the wrapper `w`: `CompareAndSwapUint32(&s.closed, 0, 1)`. -/
  | closeConn (w : ℕ)
  /-- `Close` of the wrapper `w`: `stream.Close()` and `wg.Done()`. -/
  | doneConn (w : ℕ)
  /-- A goroutine calls `listener.Close`. -/
  | close
  | closer (j : ℕ)
  deriving DecidableEq

def State.setSess (s : State) (k : ℕ) (x : Sess) : State :=
  { s with sessions := s.sessions.set k x }

/-- The wrapper `w` is put somewhere. -/
def State.put (s : State) (w : ℕ) (place : Place) : State :=
  match s.wrappers[w]? with
  | some v => { s with wrappers := s.wrappers.set w { v with place := place } }
  | none => s

/-- `len(l.backlog)`. -/
def State.backlogLen (s : State) : ℕ := s.wrappers.countP (·.place = .backlog)

/-- The goroutine in `listenLoop`, with a backlog of `cap` places. -/
def stepLoop (cap : ℕ) (s : State) (k : ℕ) (x : Sess) : LoopAct → Option State
  | .register =>
    if x.pc ≠ .register then none
    else if s.closed then some (s.setSess k { x with pc := .refuse })
    else some (s.setSess k
      { x with pc := .accept, registered := true, wg := x.wg + 1, waiter := .start })
  | .refuse =>
    if x.pc ≠ .refuse then none
    else some (s.setSess k { x with pc := .returned, shutdown := true })
  | .accept => if x.pc ≠ .accept then none else some (s.setSess k { x with pc := .wrap })
  | .acceptErr =>
    if x.pc ≠ .accept ∨ x.shutdown = false then none
    else some (s.setSess k { x with pc := .fail })
  | .wrap =>
    if x.pc ≠ .wrap then none
    else some { s.setSess k { x with pc := .offer s.wrappers.length, wg := x.wg + 1 } with
      wrappers := s.wrappers ++ [⟨k, .offered, .unclosed⟩] }
  | .drop =>
    match x.pc with
    | .offer w =>
      if s.closeCh then some ((s.setSess k { x with pc := .returned }).put w .dropped) else none
    | _ => none
  | .send =>
    match x.pc with
    | .offer w =>
      if s.backlogLen < cap then some ((s.setSess k { x with pc := .accept }).put w .backlog)
      else none
    | _ => none
  | .handOff =>
    match x.pc with
    | .offer w => some ((s.setSess k { x with pc := .accept }).put w .delivered)
    | _ => none
  | .fail =>
    if x.pc ≠ .fail then none
    else some (s.setSess k { x with pc := .remove, shutdown := true })
  | .remove =>
    if x.pc ≠ .remove then none
    else if x.registered then
      some (s.setSess k { x.done with pc := .returned, registered := false })
    else some (s.setSess k { x with pc := .returned })

/-- `wg.Wait()` and `session.Close()`. -/
def stepWaiter (s : State) (k : ℕ) (x : Sess) : Option State :=
  match x.waiter with
  | .start => some (s.setSess k { x with waiter := if x.wg = 0 then .close else .asleep })
  | .woken =>
    if x.wg = 0 then some (s.setSess k { x with waiter := .close })
    else some { s with crashed := true }
  | .close => some (s.setSess k { x with waiter := .returned, shutdown := true })
  | .absent | .asleep | .returned => none

/-- What the last section of `listener.Close` does to a session. -/
def Sess.release (x : Sess) : Sess :=
  if x.registered then { x.done with registered := false } else x

/-- `listener.Close`. -/
def stepClose (s : State) (j : ℕ) : CloserPc → Option State
  | .cas =>
    some { s with
      closed := true
      closers := s.closers.set j (if s.closed then .release else .closeCh) }
  | .closeCh => some { s with closeCh := true, closers := s.closers.set j .release }
  | .release =>
    some { s with
      sessions := s.sessions.map Sess.release
      closers := s.closers.set j .returned }
  | .returned => none

/-- One step of a process that has not crashed. -/
def stepLive (cap : ℕ) (s : State) : Act → Option State
  | .establish =>
    some { s with sessions := s.sessions ++ [⟨.register, false, 0, .absent, false⟩] }
  | .loop k a => (s.sessions[k]?).bind fun x => stepLoop cap s k x a
  | .waiter k => (s.sessions[k]?).bind fun x => stepWaiter s k x
  | .shutdown k => (s.sessions[k]?).map fun x => s.setSess k { x with shutdown := true }
  | .accept w =>
    (s.wrappers[w]?).bind fun v => if v.place = .backlog then some (s.put w .delivered) else none
  | .closeConn w =>
    (s.wrappers[w]?).bind fun v =>
      if v.place = .delivered ∧ v.state = .unclosed then
        some { s with wrappers := s.wrappers.set w { v with state := .closing } }
      else none
  | .doneConn w =>
    (s.wrappers[w]?).bind fun v =>
      if v.state = .closing then
        (s.sessions[v.sess]?).map fun x =>
          { s.setSess v.sess x.done with wrappers := s.wrappers.set w { v with state := .closed } }
      else none
  | .close => some { s with closers := s.closers ++ [.cas] }
  | .closer j => (s.closers[j]?).bind (stepClose s j)

def step (cap : ℕ) (s : State) (a : Act) : Option State :=
  if s.crashed then none else stepLive cap s a

/-- `newListener`. -/
def initial : State := ⟨false, false, [], [], [], false⟩

/-- An adapter with a backlog of `cap` places. -/
def machine (cap : ℕ) : Sys State Act := ⟨(· = initial), step cap⟩

/-! ## References -/

/-- The references of the session `k` that a wrapper holds. -/
def Wrapper.refs (k : ℕ) (v : Wrapper) : ℕ := if v.sess = k ∧ v.state ≠ .closed then 1 else 0

def refs (ws : List Wrapper) (k : ℕ) : ℕ := (ws.map (Wrapper.refs k)).sum

/-- The wrapper `w` is of the session `k` and still with its accept loop. -/
def Offered (ws : List Wrapper) (w k : ℕ) : Prop :=
  ∃ state, ws[w]? = some (Wrapper.mk k .offered state)

/-- A session among the wrappers: the counter is the reference of the listener and those of
    the wrappers. -/
structure SessOk (ws : List Wrapper) (k : ℕ) (x : Sess) : Prop where
  count : x.wg = (x.registered.toNat + refs ws k : ℕ)
  asleep : x.waiter = .asleep → 0 < x.wg
  finished : x.waiter = .returned → x.shutdown = true
  fresh : x.pc = .register → x.registered = false
  offer : ∀ w, x.pc = .offer w → Offered ws w k

/-- A wrapper of one of `n` sessions: only a caller of `Accept` closes it. -/
structure WrapperOk (n : ℕ) (v : Wrapper) : Prop where
  known : v.sess < n
  place : v.state ≠ .unclosed → v.place = .delivered

structure Inv (s : State) : Prop where
  sessions : ∀ k x, s.sessions[k]? = some x → SessOk s.wrappers k x
  wrappers : ∀ v ∈ s.wrappers, WrapperOk s.sessions.length v
  closed : ∀ c ∈ s.closers, c ≠ .cas → s.closed = true
  /-- Once some `Close` has returned, the listener holds no reference. -/
  released : .returned ∈ s.closers → ∀ x ∈ s.sessions, x.registered = false

/-- The wrappers of the session `j` are the same to it. -/
def SameFor (j : ℕ) (ws ws' : List Wrapper) : Prop :=
  refs ws' j = refs ws j ∧ ∀ w, Offered ws w j → Offered ws' w j

section Steps

variable {cap : ℕ} {s t : State} {a : Act} {k j w n : ℕ} {x x' : Sess} {v v' : Wrapper}
  {ws ws' : List Wrapper}

theorem SessOk.frame (h : SessOk ws j x) (hsame : SameFor j ws ws') : SessOk ws' j x where
  count := hsame.1 ▸ h.count
  asleep := h.asleep
  finished := h.finished
  fresh := h.fresh
  offer w hw := hsame.2 w (h.offer w hw)

theorem SameFor.refl (j : ℕ) (ws : List Wrapper) : SameFor j ws ws := ⟨rfl, fun _ h => h⟩

theorem Wrapper.refs_eq_zero (h : v.sess ≠ j) : v.refs j = 0 := if_neg fun hj => h hj.1

theorem refs_append (ws : List Wrapper) (v : Wrapper) :
    refs (ws ++ [v]) j = refs ws j + v.refs j := by
  simp [refs]

theorem sameFor_append (hv : v.sess ≠ j) : SameFor j ws (ws ++ [v]) := by
  refine ⟨by rw [refs_append, Wrapper.refs_eq_zero hv, Nat.add_zero], fun w => ?_⟩
  rintro ⟨state, hw⟩
  exact ⟨state, by rwa [List.getElem?_append_left (List.getElem?_eq_some_iff.mp hw).1]⟩

/-- A wrapper that changes is not offered, or not by the session. -/
theorem Offered.set {i : ℕ} (h : Offered ws i j) (hw : ws[w]? = some v)
    (hv : v.place ≠ .offered ∨ v.sess ≠ j) : Offered (ws.set w v') i j := by
  obtain ⟨state, hi⟩ := h
  have hne : w ≠ i := by
    rintro rfl
    rw [hw] at hi
    cases Option.some.inj hi
    exact hv.elim (fun h => h rfl) fun h => h rfl
  exact ⟨state, by rwa [List.getElem?_set_ne hne]⟩

theorem sameFor_set (hw : ws[w]? = some v) (hv : v.place ≠ .offered ∨ v.sess ≠ j)
    (hrefs : v'.refs j = v.refs j) : SameFor j ws (ws.set w v') := by
  refine ⟨?_, fun i hi => hi.set hw hv⟩
  have hsum := sum_map_set hw v' (Wrapper.refs j)
  rw [hrefs] at hsum
  exact Nat.add_right_cancel hsum

/-- A step of the session `k`, which may change its wrappers. -/
theorem Inv.set (h : Inv s) (hk : s.sessions[k]? = some x) (hself : SessOk ws' k x')
    (hothers : ∀ j, j ≠ k → SameFor j s.wrappers ws')
    (hws : ∀ v ∈ ws', WrapperOk s.sessions.length v)
    (hreg : x'.registered = true → x.registered = true ∨ s.closed = false) :
    Inv { s with sessions := s.sessions.set k x', wrappers := ws' } where
  sessions := forall_getElem?_set hk hself fun j y hne hj =>
    (h.sessions j y hj).frame (hothers j hne)
  wrappers v hv := by
    show WrapperOk (s.sessions.set k x').length v
    rw [List.length_set]
    exact hws v hv
  closed := h.closed
  released hret := by
    refine forall_set (h.released hret) ?_
    rw [← Bool.not_eq_true]
    intro hx'
    rcases hreg hx' with hx | hclosed
    · rw [h.released hret x (List.mem_of_getElem? hk)] at hx
      cases hx
    · rw [h.closed _ hret (by decide)] at hclosed
      cases hclosed

theorem Inv.setSess (h : Inv s) (hk : s.sessions[k]? = some x) (hself : SessOk s.wrappers k x')
    (hreg : x'.registered = true → x.registered = true ∨ s.closed = false) :
    Inv (s.setSess k x') :=
  h.set hk hself (fun _ _ => .refl _ _) h.wrappers hreg

/-- A wrapper changes and no session does. -/
theorem Inv.setWrapper (h : Inv s) (hw : s.wrappers[w]? = some v) (hplace : v.place ≠ .offered)
    (hrefs : ∀ j, v'.refs j = v.refs j) (hv' : WrapperOk s.sessions.length v') :
    Inv { s with wrappers := s.wrappers.set w v' } where
  sessions j y hj := (h.sessions j y hj).frame (sameFor_set hw (.inl hplace) (hrefs j))
  wrappers := forall_set h.wrappers hv'
  closed := h.closed
  released := h.released

/-- `wg.Done()` of a session that loses a reference. -/
theorem SessOk.done (h : SessOk ws k x) {registered : Bool} {pc : LoopPc}
    (hpc : pc = x.pc ∨ pc = .returned) (hreg : registered = true → x.registered = true)
    (hcount : registered.toNat + refs ws' k + 1 = x.registered.toNat + refs ws k)
    (hoffer : ∀ w, Offered ws w k → Offered ws' w k) :
    SessOk ws' k { x.done with pc := pc, registered := registered } where
  count := by
    show x.wg - 1 = (registered.toNat + refs ws' k : ℕ)
    rw [h.count, ← hcount, Nat.cast_add_one, add_sub_cancel_right]
  asleep hw := by
    have hwait : (if x.wg = 1 ∧ x.waiter = .asleep then Waiter.woken else x.waiter) = .asleep := hw
    split_ifs at hwait with hone
    have hpos := h.asleep hwait
    show 0 < x.wg - 1
    have hne : x.wg ≠ 1 := fun h1 => hone ⟨h1, hwait⟩
    omega
  finished hw := by
    have hwait : (if x.wg = 1 ∧ x.waiter = .asleep then Waiter.woken else x.waiter) = .returned := hw
    split_ifs at hwait
    exact h.finished hwait
  fresh hpc' := by
    rcases hpc with rfl | rfl
    · rw [← Bool.not_eq_true]
      intro hr
      have hx := h.fresh hpc'
      rw [hreg hr] at hx
      cases hx
    · cases hpc'
  offer w hw := by
    rcases hpc with rfl | rfl
    · exact hoffer w (h.offer w hw)
    · cases hw

theorem Inv.giveAway (h : Inv s) (hk : s.sessions[k]? = some x) (hpc : x.pc = .offer w)
    (pc : LoopPc) (hpc' : pc ≠ .register ∧ ∀ i, pc ≠ .offer i) (place : Place) :
    Inv ((s.setSess k { x with pc := pc }).put w place) := by
  have hx := h.sessions k x hk
  obtain ⟨state, hw⟩ := hx.offer w hpc
  have hv := h.wrappers _ (List.mem_of_getElem? hw)
  have hstate : state = .unclosed := by
    by_contra hne
    cases hv.place hne
  rw [State.put, State.setSess]
  simp only [hw]
  refine h.set hk ?_ (fun j hj => sameFor_set hw (.inr fun hkj => hj hkj.symm) rfl)
    (forall_set h.wrappers ⟨hv.known, fun hne => absurd hstate hne⟩) .inl
  refine ⟨?_, hx.asleep, hx.finished, fun hr => absurd hr hpc'.1, fun i hi =>
    absurd hi (hpc'.2 i)⟩
  have hsum := sum_map_set hw ⟨k, place, state⟩ (Wrapper.refs k)
  have hrefs : refs (s.wrappers.set w ⟨k, place, state⟩) k = refs s.wrappers k :=
    Nat.add_right_cancel hsum
  exact hrefs ▸ hx.count

/-- The session goes to another step with its counter and its reference. -/
theorem SessOk.goto (h : SessOk ws k x) (pc : LoopPc)
    (hpc : pc ≠ .register ∧ ∀ w, pc ≠ .offer w) (shutdown : Bool)
    (hshutdown : x.shutdown = true → shutdown = true) :
    SessOk ws k { x with pc := pc, shutdown := shutdown } :=
  ⟨h.count, h.asleep, fun hw => hshutdown (h.finished hw), fun hr => absurd hr hpc.1,
    fun w hw => absurd hw (hpc.2 w)⟩

theorem stepLoop_inv (h : Inv s) (hk : s.sessions[k]? = some x) {a : LoopAct}
    (hs : stepLoop cap s k x a = some t) : Inv t := by
  have hx := h.sessions k x hk
  cases a with
  | register =>
    rw [stepLoop] at hs
    split_ifs at hs with hpc hclosed
    · cases hs
      exact h.setSess hk (hx.goto .refuse ⟨nofun, fun _ => nofun⟩ _ id) .inl
    · cases hs
      refine h.setSess hk ⟨?_, fun hw => (nomatch hw), fun hw => (nomatch hw),
        fun hr => (nomatch hr), fun w hw => (nomatch hw)⟩
        fun _ => .inr (Bool.eq_false_of_not_eq_true hclosed)
      show x.wg + 1 = ((true.toNat + refs s.wrappers k : ℕ) : ℤ)
      rw [hx.count, hx.fresh (not_not.mp hpc), Bool.toNat_false, Bool.toNat_true, Nat.zero_add,
        Nat.cast_add, Nat.cast_one, add_comm]
  | refuse =>
    rw [stepLoop] at hs
    split_ifs at hs with hpc
    cases hs
    exact h.setSess hk (hx.goto .returned ⟨nofun, fun _ => nofun⟩ true fun _ => rfl) .inl
  | accept =>
    rw [stepLoop] at hs
    split_ifs at hs with hpc
    cases hs
    exact h.setSess hk (hx.goto .wrap ⟨nofun, fun _ => nofun⟩ _ id) .inl
  | acceptErr =>
    rw [stepLoop] at hs
    split_ifs at hs with hpc
    cases hs
    exact h.setSess hk (hx.goto .fail ⟨nofun, fun _ => nofun⟩ _ id) .inl
  | wrap =>
    rw [stepLoop] at hs
    split_ifs at hs with hpc
    cases hs
    have hnew : Offered (s.wrappers ++ [⟨k, .offered, .unclosed⟩]) s.wrappers.length k :=
      ⟨.unclosed, List.getElem?_concat_length⟩
    refine h.set hk ⟨?_, fun hw => ?_, hx.finished, fun hr => (nomatch hr), fun w hw => ?_⟩
      (fun j hj => sameFor_append fun hkj => hj hkj.symm) ?_ .inl
    · show x.wg + 1 = _
      rw [refs_append, hx.count, Wrapper.refs, if_pos ⟨rfl, nofun⟩]
      rfl
    · exact Int.lt_add_one_of_le (hx.asleep hw).le
    · cases hw
      exact hnew
    · refine List.forall_mem_append.mpr ⟨h.wrappers, fun v hv => ?_⟩
      rw [List.mem_singleton.mp hv]
      exact ⟨(List.getElem?_eq_some_iff.mp hk).1, fun hne => absurd rfl hne⟩
  | drop =>
    rw [stepLoop] at hs
    split at hs
    · next w hpc =>
      split_ifs at hs
      cases hs
      exact h.giveAway hk hpc .returned ⟨nofun, fun _ => nofun⟩ .dropped
    · cases hs
  | send =>
    rw [stepLoop] at hs
    split at hs
    · next w hpc =>
      split_ifs at hs
      cases hs
      exact h.giveAway hk hpc .accept ⟨nofun, fun _ => nofun⟩ .backlog
    · cases hs
  | handOff =>
    rw [stepLoop] at hs
    split at hs
    · next w hpc =>
      cases hs
      exact h.giveAway hk hpc .accept ⟨nofun, fun _ => nofun⟩ .delivered
    · cases hs
  | fail =>
    rw [stepLoop] at hs
    split_ifs at hs with hpc
    cases hs
    exact h.setSess hk (hx.goto .remove ⟨nofun, fun _ => nofun⟩ true fun _ => rfl) .inl
  | remove =>
    rw [stepLoop] at hs
    split_ifs at hs with hpc hreg
    · cases hs
      refine h.setSess hk (hx.done (.inr rfl) (fun hr => (nomatch hr)) ?_ fun _ hw => hw)
        (fun hr => (nomatch hr))
      rw [hreg, Bool.toNat_false, Bool.toNat_true, Nat.zero_add, Nat.add_comm]
    · cases hs
      exact h.setSess hk (hx.goto .returned ⟨nofun, fun _ => nofun⟩ _ id) .inl

theorem stepWaiter_inv (h : Inv s) (hk : s.sessions[k]? = some x)
    (hs : stepWaiter s k x = some t) : Inv t := by
  have hx := h.sessions k x hk
  rw [stepWaiter] at hs
  split at hs
  · cases hs
    refine h.setSess hk ⟨hx.count, fun hw => ?_, fun hw => ?_, hx.fresh, hx.offer⟩ .inl
    · have hwait : (if x.wg = 0 then Waiter.close else .asleep) = .asleep := hw
      split_ifs at hwait with hzero
      have hcount := hx.count
      show 0 < x.wg
      omega
    · have hwait : (if x.wg = 0 then Waiter.close else .asleep) = .returned := hw
      split_ifs at hwait
  · split_ifs at hs
    · cases hs
      exact h.setSess hk ⟨hx.count, fun hw => (nomatch hw), fun hw => (nomatch hw), hx.fresh,
        hx.offer⟩ .inl
    · cases hs
      exact ⟨h.sessions, h.wrappers, h.closed, h.released⟩
  · cases hs
    exact h.setSess hk ⟨hx.count, fun hw => (nomatch hw), fun _ => rfl, hx.fresh, hx.offer⟩ .inl
  · cases hs
  · cases hs
  · cases hs

theorem SessOk.release (h : SessOk ws k x) : SessOk ws k x.release := by
  rw [Sess.release]
  split_ifs with hreg
  · refine h.done (.inl rfl) (fun hr => (nomatch hr)) ?_ fun _ hw => hw
    rw [hreg, Bool.toNat_false, Bool.toNat_true, Nat.zero_add, Nat.add_comm]
  · exact h

theorem Sess.release_registered (x : Sess) : x.release.registered = false := by
  rw [Sess.release]
  split_ifs with hreg
  · rfl
  · exact Bool.eq_false_of_not_eq_true hreg

theorem stepClose_inv (h : Inv s) {c : CloserPc} (hj : s.closers[j]? = some c)
    (hs : stepClose s j c = some t) : Inv t := by
  -- only the section that releases the sessions leads to the return
  have hback : ∀ {c'}, c' ≠ .returned → .returned ∈ s.closers.set j c' →
      .returned ∈ s.closers := fun hne hmem => by
    rcases List.mem_or_eq_of_mem_set hmem with hmem | heq
    · exact hmem
    · exact absurd heq.symm hne
  cases c with
  | cas =>
    cases hs
    refine ⟨h.sessions, h.wrappers, fun _ _ _ => rfl, fun hret => h.released (hback ?_ hret)⟩
    split_ifs <;> decide
  | closeCh =>
    cases hs
    refine ⟨h.sessions, h.wrappers, fun c hc hne => ?_, fun hret =>
      h.released (hback (by decide) hret)⟩
    exact h.closed _ (List.mem_of_getElem? hj) (by decide)
  | release =>
    cases hs
    refine ⟨fun k x hk => ?_, fun v hv => ?_, fun c hc hne => ?_, fun _ x hx => ?_⟩
    · rw [List.getElem?_map] at hk
      obtain ⟨y, hy, rfl⟩ := Option.map_eq_some_iff.mp hk
      exact (h.sessions k y hy).release
    · show WrapperOk (s.sessions.map Sess.release).length v
      rw [List.length_map]
      exact h.wrappers v hv
    · exact h.closed _ (List.mem_of_getElem? hj) (by decide)
    · obtain ⟨y, -, rfl⟩ := List.mem_map.mp hx
      exact y.release_registered
  | returned => cases hs

/-- A new session has no wrapper. -/
theorem Inv.refs_new (h : Inv s) : refs s.wrappers s.sessions.length = 0 := by
  refine List.sum_eq_zero_iff.mpr fun n hn => ?_
  obtain ⟨v, hv, rfl⟩ := List.mem_map.mp hn
  exact Wrapper.refs_eq_zero (h.wrappers v hv).known.ne

/-- **Step.** -/
theorem step_inv (h : Inv s) (hs : step cap s a = some t) : Inv t := by
  rw [step] at hs
  split_ifs at hs
  cases a with
  | establish =>
    cases hs
    refine ⟨fun k x hk => ?_, fun v hv => ?_, h.closed, fun hret => ?_⟩
    · rcases getElem?_concat_cases hk with hk | ⟨rfl, rfl⟩
      · exact h.sessions k x hk
      · refine ⟨?_, fun hw => (nomatch hw), fun hw => (nomatch hw), fun _ => rfl,
          fun w hw => (nomatch hw)⟩
        rw [h.refs_new]
        rfl
    · show WrapperOk (s.sessions ++ [_]).length v
      rw [List.length_append]
      have hok := h.wrappers v hv
      exact ⟨Nat.lt_add_right _ hok.known, hok.place⟩
    · refine List.forall_mem_append.mpr ⟨h.released hret, fun x hx => ?_⟩
      rw [List.mem_singleton.mp hx]
  | loop k a =>
    obtain ⟨x, hk, hx⟩ := Option.bind_eq_some_iff.mp hs
    exact stepLoop_inv h hk hx
  | waiter k =>
    obtain ⟨x, hk, hx⟩ := Option.bind_eq_some_iff.mp hs
    exact stepWaiter_inv h hk hx
  | shutdown k =>
    obtain ⟨x, hk, rfl⟩ := Option.map_eq_some_iff.mp hs
    have hx := h.sessions k x hk
    exact h.setSess hk ⟨hx.count, hx.asleep, fun _ => rfl, hx.fresh, hx.offer⟩ .inl
  | accept w =>
    obtain ⟨v, hw, hv⟩ := Option.bind_eq_some_iff.mp hs
    split_ifs at hv with hplace
    cases hv
    have hok := h.wrappers v (List.mem_of_getElem? hw)
    rw [State.put]
    simp only [hw]
    exact h.setWrapper hw (by rw [hplace]; decide) (fun _ => rfl) ⟨hok.known, fun _ => rfl⟩
  | closeConn w =>
    obtain ⟨v, hw, hv⟩ := Option.bind_eq_some_iff.mp hs
    split_ifs at hv with hstate
    cases hv
    have hok := h.wrappers v (List.mem_of_getElem? hw)
    refine h.setWrapper hw (by rw [hstate.1]; decide) (fun j => ?_) ⟨hok.known, fun _ => hstate.1⟩
    simp [Wrapper.refs, hstate.2]
  | doneConn w =>
    obtain ⟨v, hw, hv⟩ := Option.bind_eq_some_iff.mp hs
    split_ifs at hv with hstate
    obtain ⟨x, hk, rfl⟩ := Option.map_eq_some_iff.mp hv
    have hok := h.wrappers v (List.mem_of_getElem? hw)
    have hplace : v.place = .delivered := hok.place (by rw [hstate]; decide)
    have hoff : v.place ≠ .offered := by rw [hplace]; decide
    refine h.set hk ((h.sessions _ x hk).done (.inl rfl) id ?_ fun i hi => hi.set hw (.inl hoff))
      (fun j hj => sameFor_set hw (.inl hoff) ?_)
      (forall_set h.wrappers ⟨hok.known, fun _ => hplace⟩) .inl
    · -- the wrapper had one reference and has none
      have hsum := sum_map_set hw { v with state := .closed } (Wrapper.refs v.sess)
      have hone : v.refs v.sess = 1 := if_pos ⟨rfl, by rw [hstate]; decide⟩
      have hzero : Wrapper.refs v.sess { v with state := .closed } = 0 :=
        if_neg fun hc => hc.2 rfl
      rw [hone, hzero] at hsum
      rw [Nat.add_assoc]
      exact congrArg (x.registered.toNat + ·) hsum
    · rw [Wrapper.refs_eq_zero hj.symm]
      exact if_neg fun hc => hc.2 rfl
  | close =>
    cases hs
    refine ⟨h.sessions, h.wrappers, fun c hc hne => ?_, fun hret => ?_⟩
    · rcases List.mem_append.mp hc with hc | hc
      · exact h.closed c hc hne
      · exact absurd (List.mem_singleton.mp hc) hne
    · rcases List.mem_append.mp hret with hret | hret
      · exact h.released hret
      · cases List.mem_singleton.mp hret
  | closer j =>
    obtain ⟨c, hj, hc⟩ := Option.bind_eq_some_iff.mp hs
    exact stepClose_inv h hj hc

theorem inv_initial : Inv initial where
  sessions _ _ hk := (nomatch hk)
  wrappers _ hv := (nomatch hv)
  closed _ hc := (nomatch hc)
  released hret := (nomatch hret)

/-- **Run.** -/
theorem inv_of_reachable (hr : (machine cap).Reachable s) : Inv s :=
  hr.invariant Inv (by rintro _ rfl; exact inv_initial) fun _ _ _ h _ hs => step_inv h hs

end Steps

/-! ## A closed listener -/

/-- Every connection of the session `k` that a caller of `Accept` has or can get is closed. -/
def State.Settled (s : State) (k : ℕ) : Prop :=
  ∀ v ∈ s.wrappers, v.sess = k → v.place = .delivered ∨ v.place = .backlog → v.state = .closed

/-- Some wrapper of the session `k` is with its accept loop, or was dropped by it. -/
def State.Stray (s : State) (k : ℕ) : Prop :=
  ∃ v ∈ s.wrappers, v.sess = k ∧ (v.place = .offered ∨ v.place = .dropped)

/-- The session `k` is closed. -/
def State.SessionClosed (s : State) (k : ℕ) : Prop :=
  ∃ x, s.sessions[k]? = some x ∧ x.shutdown = true

section Closed

variable {cap : ℕ} {s : State} {k : ℕ} {x : Sess}

theorem refs_eq_zero_iff (h : Inv s) (hsettled : s.Settled k) :
    refs s.wrappers k = 0 ↔ ¬s.Stray k := by
  rw [refs, List.sum_eq_zero_iff, List.forall_mem_map]
  constructor
  · rintro hzero ⟨v, hv, rfl, hplace⟩
    -- nobody but a caller of `Accept` can have closed it
    have hclosed : v.state = .closed := by
      by_contra hne
      exact absurd (hzero v hv) (by rw [Wrapper.refs, if_pos ⟨rfl, hne⟩]; decide)
    have hdel := (h.wrappers v hv).place (by rw [hclosed]; decide)
    rw [hdel] at hplace
    rcases hplace with hp | hp <;> cases hp
  · intro hstray v hv
    refine if_neg ?_
    rintro ⟨hsess, hne⟩
    cases hplace : v.place with
    | offered => exact hstray ⟨v, hv, hsess, .inl hplace⟩
    | dropped => exact hstray ⟨v, hv, hsess, .inr hplace⟩
    | backlog => exact hne (hsettled v hv hsess (.inr hplace))
    | delivered => exact hne (hsettled v hv hsess (.inl hplace))

/-- The steps the waiter has before it. -/
def Waiter.rank : Waiter → ℕ
  | .start | .woken => 2
  | .close => 1
  | .absent | .asleep | .returned => 0

/-- The waiter of the session `k` is up, with the counter at 0. -/
def State.Up (s : State) (k : ℕ) : Prop :=
  s.crashed = false ∧ ∃ x, s.sessions[k]? = some x ∧ x.wg = 0 ∧ x.waiter ≠ .absent ∧
    x.waiter ≠ .asleep ∧ (x.waiter = .returned → x.shutdown = true)

def State.rank (s : State) (k : ℕ) : ℕ := (s.sessions[k]?).elim 0 (·.waiter.rank)

/-- A step of the waiter, to the state `x'` of its session. -/
theorem waiter_step (hlive : s.crashed = false) (hk : s.sessions[k]? = some x) (hzero : x.wg = 0)
    (hup : x.waiter ≠ .absent ∧ x.waiter ≠ .asleep ∧ x.waiter ≠ .returned) :
    ∃ x', step cap s (.waiter k) = some (s.setSess k x') ∧ x'.wg = 0 ∧ x'.waiter ≠ .absent ∧
      x'.waiter ≠ .asleep ∧ (x'.waiter = .returned → x'.shutdown = true) ∧
      x'.waiter.rank < x.waiter.rank := by
  have hstep : step cap s (.waiter k) = stepWaiter s k x := by
    rw [step, hlive, if_neg Bool.false_ne_true, stepLive, hk, Option.bind_some]
  rw [hstep, stepWaiter]
  cases hw : x.waiter with
  | start =>
    exact ⟨_, rfl, hzero, by simp [hzero], by simp [hzero], by simp [hzero],
      by simp [hzero, Waiter.rank]⟩
  | woken =>
    simp only [if_pos hzero]
    exact ⟨_, rfl, hzero, nofun, nofun, nofun, Nat.lt_succ_self 1⟩
  | close => exact ⟨_, rfl, hzero, nofun, nofun, fun _ => rfl, Nat.lt_succ_self 0⟩
  | absent => exact absurd hw hup.1
  | asleep => exact absurd hw hup.2.1
  | returned => exact absurd hw hup.2.2

/-- With the counter at 0 the waiter closes the session. -/
theorem waiter_closes (hup : s.Up k) :
    (machine cap).Inevitable (· = .waiter k) (·.SessionClosed k) s := by
  refine Sys.inevitable_of_decreasing (·.rank k) (·.Up k) (fun s hs => ?_)
    (fun s a t hs hopen ha ht => ?_) hup
  · obtain ⟨hlive, x, hk, hzero, habsent, hasleep, hfin⟩ := hs
    by_cases hret : x.waiter = .returned
    · exact .inl ⟨x, hk, hfin hret⟩
    · obtain ⟨x', hx', -⟩ := waiter_step hlive hk hzero ⟨habsent, hasleep, hret⟩
      exact .inr ⟨_, _, rfl, hx'⟩
  · obtain ⟨hlive, x, hk, hzero, habsent, hasleep, hfin⟩ := hs
    subst ha
    have hret : x.waiter ≠ .returned := fun hret => hopen ⟨x, hk, hfin hret⟩
    obtain ⟨x', hx', hzero', habsent', hasleep', hfin', hlt⟩ :=
      @waiter_step cap s k x hlive hk hzero ⟨habsent, hasleep, hret⟩
    cases hx'.symm.trans ht
    have hk' : (s.setSess k x').sessions[k]? = some x' :=
      List.getElem?_set_self (List.getElem?_eq_some_iff.mp hk).1
    refine ⟨⟨hlive, x', hk', hzero', habsent', hasleep', hfin'⟩, ?_⟩
    show State.rank (s.setSess k x') k < State.rank s k
    rw [State.rank, State.rank, hk', hk]
    exact hlt

end Closed

/-- **Main theorem.** The counter of a session is never negative. Once some call of `Close`
    has returned and every connection that was delivered or is in the backlog is closed, it is
    0 exactly if no other wrapper of the session was made; if it is 0, the goroutine that
    waits for it closes the session. -/
theorem references_counted {cap : ℕ} {s : State} (hr : (machine cap).Reachable s) {k : ℕ} {x : Sess}
    (hk : s.sessions[k]? = some x) :
    0 ≤ x.wg ∧
    (.returned ∈ s.closers → s.Settled k →
      (x.wg = 0 ↔ ¬s.Stray k) ∧
      (x.wg = 0 → x.waiter ≠ .absent → s.crashed = false →
        (machine cap).Inevitable (· = .waiter k) (·.SessionClosed k) s)) := by
  have h := inv_of_reachable hr
  have hx := h.sessions k x hk
  refine ⟨by rw [hx.count]; exact Int.natCast_nonneg _, fun hret hsettled => ⟨?_, ?_⟩⟩
  · rw [← refs_eq_zero_iff h hsettled, hx.count, h.released hret x (List.mem_of_getElem? hk),
      Bool.toNat_false, Nat.zero_add, Int.natCast_eq_zero]
  · intro hzero habsent hlive
    refine waiter_closes ⟨hlive, x, hk, hzero, habsent, fun hasleep => ?_, hx.finished⟩
    have hpos := hx.asleep hasleep
    omega

/-- One session, whose stream is accepted and closed before the listener is. -/
theorem references_counted_one_stream : ∃ s x, (machine 1).Reachable s ∧
    s.sessions[0]? = some x ∧ x.wg = 0 ∧
    (machine 1).Inevitable (· = .waiter 0) (·.SessionClosed 0) s := by
  obtain ⟨s, hr, hs⟩ := (machine 1).exists_reachable_of_run initial
    [.establish, .loop 0 .register, .waiter 0, .loop 0 .accept, .loop 0 .wrap, .loop 0 .send,
      .accept 0, .closeConn 0, .doneConn 0, .close, .closer 0, .closer 0, .closer 0]
    (fun s => s = ⟨true, true, [⟨.accept, false, 0, .woken, false⟩],
      [⟨0, .delivered, .closed⟩], [.returned], false⟩) rfl (by decide)
  cases hs
  exact ⟨_, _, hr, rfl, rfl, ((references_counted hr rfl).2 (by decide) (by simp [State.Settled])).2
    rfl (by decide) rfl⟩

/-- **Counterexample.** The accept loop has made a wrapper when the listener is closed: its
    `select` takes `closeCh`, nobody can close the wrapper, and the counter stays at 1. And a
    stream that arrives just after the last reference was released ends the process. -/
theorem wrapper_dropped :
    (∃ s x, (machine 4096).Reachable s ∧ s.sessions[0]? = some x ∧ .returned ∈ s.closers ∧
      s.Settled 0 ∧ x.pc = .returned ∧ x.wg = 1 ∧ x.waiter = .asleep ∧ x.shutdown = false) ∧
    ∃ s, (machine 4096).Reachable s ∧ .returned ∈ s.closers ∧ s.crashed = true := by
  constructor
  · obtain ⟨s, hr, hs⟩ := (machine 4096).exists_reachable_of_run initial
      [.establish, .loop 0 .register, .waiter 0, .loop 0 .accept, .loop 0 .wrap, .close,
        .closer 0, .closer 0, .closer 0, .loop 0 .drop]
      (fun s => s = ⟨true, true, [⟨.returned, false, 1, .asleep, false⟩],
        [⟨0, .dropped, .unclosed⟩], [.returned], false⟩) rfl (by decide)
    cases hs
    exact ⟨_, _, hr, rfl, by decide, by simp [State.Settled], rfl, rfl, rfl, rfl⟩
  · exact (machine 4096).exists_reachable_of_run initial
      [.establish, .loop 0 .register, .waiter 0, .loop 0 .accept, .close, .closer 0, .closer 0,
        .closer 0, .loop 0 .wrap, .waiter 0] _ rfl (by decide)

end Shmipc.NetListener
