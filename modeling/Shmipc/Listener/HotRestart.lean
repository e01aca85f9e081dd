import Shmipc.Common.Trans
import Shmipc.Protocol.Event

/-!
# The hot restart of a listener

`HotRestart` (listener.go:174-212) sends an event with its epoch to every session and
counts the answers it expects in `hotRestartAckCount`; `handleHotRestartAck`
(protocol_manager.go:304-320) takes one off for every answer with the listener's epoch;
`checkHotRestart` (listener.go:233-281) ends the restart when the count is zero or when
it has waited too long. All of them hold `listener.mu`, so each is one step.

`Run` (listener.go:158-169) adds a session when its handshake is done; `HotRestart` asks for
it, and the model lets sessions in before, so it has more runs than the program.

An attempt is a call of `HotRestart` that is not refused. Attempts are numbered here, and
every event on its way carries the number of its attempt; the listener does not know it.

Results:
* `late_ack_counted`: after a timeout the answer to the abandoned attempt makes the
  count negative, or, once the restart is tried again with the same epoch, ends the new
  attempt although its event is not answered.
* `done_only_when_acked`: in every run in which an answer with the listener's epoch
  answers the attempt in progress (`Timely`), the count is never negative and a restart
  is done only when all its events are answered.
-/

namespace Shmipc.Listener

open Common

/-- `sessionSateType` (const.go). -/
inductive RestartState
  | default
  | hotRestart
  | hotRestartDone
  deriving DecidableEq, Repr

/-- What the listener uses of a session. -/
structure Sess where
  handshakeDone : Bool
  state : RestartState := .default
  /-- The session is in `sessions.data`. -/
  present : Bool := true
  deriving DecidableEq, Repr

/-- A hot restart event that is not answered yet. -/
structure Event where
  session : ℕ
  epoch : ℕ
  attempt : ℕ
  deriving DecidableEq, Repr

structure State where
  state : RestartState := .default
  epoch : ℕ := 0
  hotRestartAckCount : ℤ := 0
  sessions : List Sess := []
  /-- The goroutines in `checkHotRestart`. -/
  checkers : ℕ := 0
  attempt : ℕ := 0
  inFlight : List Event := []
  /-- The sessions each attempt has sent its event to, and those that have answered it. -/
  sent : List (ℕ × ℕ) := []
  acked : List (ℕ × ℕ) := []
  deriving DecidableEq, Repr

/-- The steps. `hotRestart` has the order in which the map is iterated, `ack` the number of
    the event that is answered. -/
inductive Act
  | connect (handshakeDone : Bool)
  | leave (k : ℕ)
  | hotRestart (epoch : ℕ) (order : List ℕ)
  | ack (i : ℕ)
  | tick
  | timeout
  deriving DecidableEq, Repr

/-- The rest of the loop's body for a session that was told. -/
def State.send (s : State) (epoch k : ℕ) (x : Sess) : State :=
  { s with
    sessions := s.sessions.set k { x with state := .hotRestart }
    hotRestartAckCount := s.hotRestartAckCount + 1
    inFlight := s.inFlight ++ [⟨k, epoch, s.attempt⟩]
    sent := s.sent ++ [(k, s.attempt)] }

/-- The errors of `HotRestart`: the two of errors.go:73-77, both with "try again later", and
    that of `Session.hotRestart`. -/
inductive RestartErr
  | hotRestartInProgress
  | inHandshakeStage
  | invalidEventType (event : Protocol.EventType)
  deriving DecidableEq

/-- The error of `Session.hotRestart` (session.go:692-694). -/
def sessionHotRestart (event : Protocol.EventType) : Option RestartErr :=
  if event ≠ .hotRestart ∧ event ≠ .hotRestartAck then some (.invalidEventType event) else none

/-- The loop of `HotRestart` over `sessions.data`. -/
def restartLoop (epoch : ℕ) : List ℕ → State → State × Option RestartErr
  | [], s => (s, none)
  | k :: ks, s =>
    match s.sessions[k]? with
    | none => restartLoop epoch ks s
    | some x =>
      if !x.handshakeDone then (s, some .inHandshakeStage)
      else if x.state ≠ .default then restartLoop epoch ks s
      else
        match sessionHotRestart .hotRestart with
        | some err => ({ s with state := .default }, some err)
        | none => restartLoop epoch ks (s.send epoch k x)

/-- The numbers of the sessions in `sessions.data`. -/
def State.data (s : State) : List ℕ :=
  (List.range s.sessions.length).filter fun k => (s.sessions[k]?.map Sess.present).getD false

/-- The beginning of an attempt. -/
def State.begin (s : State) (epoch : ℕ) : State :=
  { s with state := .hotRestart, epoch := epoch, attempt := s.attempt + 1 }

/-- `HotRestart`. After `ErrInHandshakeStage` the listener stays in `hotRestartState` and no
    `checkHotRestart` is started. -/
def State.callHotRestart (s : State) (epoch : ℕ) (order : List ℕ) : State × Option RestartErr :=
  if s.state = .hotRestart then (s, some .hotRestartInProgress)
  else
    match restartLoop epoch order (s.begin epoch) with
    | (t, some err) => (t, some err)
    | (t, none) => ({ t with checkers := t.checkers + 1 }, none)

def State.hotRestart (s : State) (epoch : ℕ) (order : List ℕ) : State :=
  (s.callHotRestart epoch order).1

/-- `handleHotRestartAck` for an event. -/
def State.handleAck (s : State) (e : Event) : State :=
  if e.epoch = s.epoch then
    { s with
      hotRestartAckCount := s.hotRestartAckCount - 1
      sessions := s.sessions.modify e.session fun x => { x with state := .hotRestartDone } }
  else s

def step (s : State) : Act → Option State
  | .connect handshakeDone =>
    some { s with sessions := s.sessions ++ [{ handshakeDone := handshakeDone }] }
  | .leave k =>
    some { s with sessions := s.sessions.modify k fun x => { x with present := false } }
  | .hotRestart epoch order =>
    if order.Perm s.data then some (s.hotRestart epoch order) else none
  | .ack i => s.inFlight[i]?.map fun e =>
      { s.handleAck e with
        inFlight := s.inFlight.eraseIdx i
        acked := s.acked ++ [(e.session, e.attempt)] }
  | .tick =>
    if s.checkers = 0 then none
    else if s.state ≠ .hotRestart then some { s with checkers := s.checkers - 1 }
    else if s.hotRestartAckCount = 0 then
      some { s with state := .hotRestartDone, checkers := s.checkers - 1 }
    else some s
  | .timeout =>
    if s.checkers = 0 then none
    else some { s with
      state := .default
      hotRestartAckCount := 0
      sessions := s.sessions.map fun x => if x.present then { x with state := .default } else x
      checkers := s.checkers - 1 }

def machine : Sys State Act where
  init s := s = {}
  next := step

/-! ## The condition -/

/-- The condition on a step: an answer with the listener's epoch answers the attempt that is
    in progress. -/
def Timely (s : State) : Act → Prop
  | .ack i => ∀ e ∈ s.inFlight[i]?, e.epoch = s.epoch →
      e.attempt = s.attempt ∧ s.state = .hotRestart
  | _ => True

instance (s : State) : ∀ a, Decidable (Timely s a)
  | .ack _ => inferInstanceAs (Decidable (∀ e ∈ _, _))
  | .connect _ | .leave _ | .hotRestart _ _ | .tick | .timeout => isTrue trivial

/-! ## The invariant -/

/-- The events of the current attempt that are not answered. -/
def State.outstanding (s : State) : ℕ := s.inFlight.countP fun e => e.attempt = s.attempt

structure Inv (s : State) : Prop where
  count : s.hotRestartAckCount = if s.state = .hotRestart then (s.outstanding : ℤ) else 0
  old : ∀ e ∈ s.inFlight, e.attempt ≤ s.attempt
  epoch : ∀ e ∈ s.inFlight, e.attempt = s.attempt → e.epoch = s.epoch
  /-- What was sent is answered or on its way. -/
  sent : ∀ p ∈ s.sent, p ∈ s.acked ∨ ∃ e ∈ s.inFlight, (e.session, e.attempt) = p

theorem inv_initial : Inv {} := by
  constructor <;> simp

variable {s t : State}

/-- What telling a session keeps, the loop keeps, by induction on the sessions it has still to
    visit. -/
theorem restartLoop_invariant {P : State → Prop} {epoch : ℕ}
    (hsend : ∀ s k x, P s → P (s.send epoch k x)) (order : List ℕ) (h : P s) :
    P (restartLoop epoch order s).1 := by
  induction order generalizing s with
  | nil => exact h
  | cons k ks ih =>
    rw [restartLoop]
    cases s.sessions[k]? with
    | none => exact ih h
    | some x =>
      have hnone : sessionHotRestart .hotRestart = none := by decide
      simp only [hnone]
      split_ifs
      · exact h
      · exact ih h
      · exact ih (hsend s k x h)

theorem callHotRestart_of_ne {epoch : ℕ} {order : List ℕ} (hst : s.state ≠ .hotRestart) :
    s.callHotRestart epoch order =
      match restartLoop epoch order (s.begin epoch) with
      | (t, some err) => (t, some err)
      | (t, none) => ({ t with checkers := t.checkers + 1 }, none) := by
  rw [State.callHotRestart, if_neg hst]

theorem inv_send (h : Inv s) (hst : s.state = .hotRestart) {k : ℕ} {x : Sess} :
    Inv (s.send s.epoch k x) := by
  have hcount := h.count
  rw [if_pos hst] at hcount
  refine ⟨?_, fun e he => ?_, fun e he hatt => ?_, fun p hp => ?_⟩
  · rw [if_pos (show (s.send s.epoch k x).state = .hotRestart from hst)]
    unfold State.outstanding at hcount ⊢
    simp [State.send, hcount]
  · rcases List.mem_append.mp he with he | he
    · exact h.old e he
    · rw [List.mem_singleton.mp he]
      exact le_rfl
  · rcases List.mem_append.mp he with he | he
    · exact h.epoch e he hatt
    · rw [List.mem_singleton.mp he]
      rfl
  · rcases List.mem_append.mp hp with hp | hp
    · refine (h.sent p hp).imp_right ?_
      rintro ⟨e, he, hep⟩
      exact ⟨e, List.mem_append_left _ he, hep⟩
    · refine .inr ⟨_, List.mem_append_right _ List.mem_cons_self, ?_⟩
      rw [List.mem_singleton.mp hp]

/-- A new attempt starts with no event of its own on the way. -/
theorem inv_begin (h : Inv s) (hst : s.state ≠ .hotRestart) (epoch : ℕ) :
    Inv (s.begin epoch) := by
  have hnew : ∀ e ∈ s.inFlight, e.attempt ≠ s.attempt + 1 := fun e he => by
    have := h.old e he
    omega
  have hcount := h.count
  rw [if_neg hst] at hcount
  refine ⟨?_, fun e he => (h.old e he).trans (Nat.le_succ _),
    fun e he hatt => absurd hatt (hnew e he), h.sent⟩
  have h0 : s.inFlight.countP (fun e => e.attempt = s.attempt + 1) = 0 := by
    rw [List.countP_eq_zero]
    simpa using hnew
  show s.hotRestartAckCount = ((s.inFlight.countP fun e => e.attempt = s.attempt + 1 : ℕ) : ℤ)
  rw [hcount, h0]
  rfl

theorem inv_hotRestart (h : Inv s) (epoch : ℕ) (order : List ℕ) :
    Inv (s.hotRestart epoch order) := by
  unfold State.hotRestart
  by_cases hst : s.state = .hotRestart
  · rwa [State.callHotRestart, if_pos hst]
  · have hall := restartLoop_invariant
      (P := fun t => Inv t ∧ t.state = .hotRestart ∧ t.epoch = epoch)
      (fun t k x ht => ⟨ht.2.2 ▸ inv_send ht.1 ht.2.1, ht.2⟩) order ⟨inv_begin h hst epoch, rfl, rfl⟩
    rw [callHotRestart_of_ne hst]
    generalize restartLoop epoch order (s.begin epoch) = r at hall ⊢
    obtain ⟨t, _ | err⟩ := r
    · exact ⟨hall.1.count, hall.1.old, hall.1.epoch, hall.1.sent⟩
    · exact hall.1

theorem inv_ack {i : ℕ} {e : Event} (h : Inv s) (hi : s.inFlight[i]? = some e)
    (hok : e.epoch = s.epoch → e.attempt = s.attempt ∧ s.state = .hotRestart) :
    Inv { s.handleAck e with
      inFlight := s.inFlight.eraseIdx i
      acked := s.acked ++ [(e.session, e.attempt)] } := by
  have hmem : e ∈ s.inFlight := List.mem_of_getElem? hi
  have hperm := cons_eraseIdx_perm hi
  have hsub : ∀ f ∈ s.inFlight.eraseIdx i, f ∈ s.inFlight := fun f hf =>
    hperm.subset (List.mem_cons_of_mem _ hf)
  have hout : s.outstanding = (s.inFlight.eraseIdx i).countP (fun f => f.attempt = s.attempt) +
      if e.attempt = s.attempt then 1 else 0 := by
    unfold State.outstanding
    rw [← hperm.countP_eq, List.countP_cons]
    simp
  have hsent : ∀ p ∈ s.sent, p ∈ s.acked ++ [(e.session, e.attempt)] ∨
      ∃ f ∈ s.inFlight.eraseIdx i, (f.session, f.attempt) = p := by
    intro p hp
    rcases h.sent p hp with hp | ⟨f, hf, rfl⟩
    · exact .inl (List.mem_append_left _ hp)
    · rcases List.mem_cons.mp (hperm.symm.subset hf) with rfl | hf
      · exact .inl (List.mem_append_right _ List.mem_cons_self)
      · exact .inr ⟨f, hf, rfl⟩
  have hcount := h.count
  unfold State.handleAck
  by_cases hep : e.epoch = s.epoch
  · obtain ⟨hatt, hst⟩ := hok hep
    rw [if_pos hep]
    refine ⟨?_, fun f hf => h.old f (hsub f hf), fun f hf => h.epoch f (hsub f hf), hsent⟩
    rw [if_pos hst] at hcount ⊢
    rw [if_pos hatt] at hout
    show s.hotRestartAckCount - 1 =
      (((s.inFlight.eraseIdx i).countP fun f => f.attempt = s.attempt : ℕ) : ℤ)
    omega
  · have hatt : e.attempt ≠ s.attempt := fun ha => hep (h.epoch e hmem ha)
    rw [if_neg hep]
    refine ⟨?_, fun f hf => h.old f (hsub f hf), fun f hf => h.epoch f (hsub f hf), hsent⟩
    rw [if_neg hatt] at hout
    show s.hotRestartAckCount = if s.state = .hotRestart then
      (((s.inFlight.eraseIdx i).countP _ : ℕ) : ℤ) else 0
    rw [hcount, hout]
    rfl

/-! ## Runs -/

/-- **Step.** -/
theorem inv_step {a : Act} (h : Inv s) (hok : Timely s a) (hs : step s a = some t) : Inv t := by
  cases a with
  | connect b | leave k =>
    cases hs
    exact ⟨h.count, h.old, h.epoch, h.sent⟩
  | hotRestart epoch order =>
    rw [step] at hs
    split_ifs at hs
    cases hs
    exact inv_hotRestart h epoch order
  | ack i =>
    obtain ⟨e, hi, rfl⟩ := Option.map_eq_some_iff.mp hs
    exact inv_ack h hi (hok e hi)
  | tick =>
    rw [step] at hs
    split_ifs at hs with h0 hst hc
    · cases hs
      exact ⟨h.count, h.old, h.epoch, h.sent⟩
    · cases hs
      exact ⟨hc, h.old, h.epoch, h.sent⟩
    · cases hs
      exact h
  | timeout =>
    rw [step] at hs
    split_ifs at hs
    cases hs
    exact ⟨rfl, h.old, h.epoch, h.sent⟩

/-- **Run.** -/
theorem inv_of_reachable (hr : machine.ReachableWhen Timely s) : Inv s := by
  refine hr.invariant Inv (fun s hs => ?_) fun s a t h hok ht => inv_step h hok ht
  obtain rfl : s = {} := hs
  exact inv_initial

theorem state_hotRestart (epoch : ℕ) (order : List ℕ) :
    (s.hotRestart epoch order).state = .hotRestart := by
  unfold State.hotRestart
  by_cases hst : s.state = .hotRestart
  · rwa [State.callHotRestart, if_pos hst]
  · have hall : (restartLoop epoch order (s.begin epoch)).1.state = .hotRestart :=
      restartLoop_invariant (P := fun t => t.state = .hotRestart) (fun _ _ _ => id) order rfl
    rw [callHotRestart_of_ne hst]
    generalize restartLoop epoch order (s.begin epoch) = r at hall ⊢
    obtain ⟨t, _ | err⟩ := r <;> exact hall

/-- Only a check that finds the count at zero ends a restart as done. -/
theorem step_done {a : Act} (hs : step s a = some t) (hd : t.state = .hotRestartDone)
    (hne : s.state ≠ .hotRestartDone) :
    s.state = .hotRestart ∧ s.hotRestartAckCount = 0 ∧ t.attempt = s.attempt ∧
      t.sent = s.sent ∧ t.acked = s.acked := by
  cases a with
  | connect b | leave k =>
    cases hs
    exact absurd hd hne
  | hotRestart epoch order =>
    rw [step] at hs
    split_ifs at hs
    cases hs
    rw [state_hotRestart] at hd
    cases hd
  | ack i =>
    obtain ⟨e, hi, rfl⟩ := Option.map_eq_some_iff.mp hs
    have hst : (s.handleAck e).state = s.state := by
      unfold State.handleAck
      split_ifs <;> rfl
    exact absurd (hst.symm.trans hd) hne
  | tick =>
    rw [step] at hs
    split_ifs at hs with h0 hst hc
    · cases hs
      exact absurd hd hne
    · cases hs
      exact ⟨not_not.mp hst, hc, rfl, rfl, rfl⟩
    · cases hs
      exact absurd hd hne
  | timeout =>
    rw [step] at hs
    split_ifs at hs
    cases hs
    cases hd

/-- **Main theorem.** In every run as `Timely` says, the count is not negative, and a step
    that ends the restart as done is taken only when every session the attempt has sent
    its event to has answered it. -/
theorem done_only_when_acked (hr : machine.ReachableWhen Timely s) :
    0 ≤ s.hotRestartAckCount ∧
    ∀ a t, step s a = some t → t.state = .hotRestartDone → s.state ≠ .hotRestartDone →
      ∀ k, (k, t.attempt) ∈ t.sent → (k, t.attempt) ∈ t.acked := by
  have h := inv_of_reachable hr
  refine ⟨?_, fun a t hs hd hne k hk => ?_⟩
  · rw [h.count]
    split_ifs
    · exact Int.natCast_nonneg _
    · exact le_rfl
  · obtain ⟨hst, hzero, hatt, hsent, hacked⟩ := step_done hs hd hne
    rw [hatt, hsent] at hk
    rw [hatt, hacked]
    refine (h.sent _ hk).resolve_right ?_
    rintro ⟨e, he, hep⟩
    have hout : s.outstanding = 0 := by
      have hcount := h.count
      rw [if_pos hst] at hcount
      omega
    have hno := List.countP_eq_zero.mp hout e he
    exact hno (by simpa using congrArg Prod.snd hep)

/-- Two sessions, both of which answer. -/
def twoAcksRun : List Act :=
  [.connect true, .connect true, .hotRestart 5 [1, 0], .tick, .ack 1, .tick, .ack 0]

theorem done_after_two_acks : ∃ s t, machine.ReachableWhen Timely s ∧
    step s .tick = some t ∧ t.state = .hotRestartDone ∧ (0, t.attempt) ∈ t.acked ∧
    (1, t.attempt) ∈ t.acked := by
  obtain ⟨s, hs, hne, t, ht, hd, h0, h1⟩ := machine.exists_reachableWhen_of_run Timely {} twoAcksRun
    (fun s => s.state ≠ .hotRestartDone ∧ ∃ t ∈ step s .tick,
      t.state = .hotRestartDone ∧ (0, t.attempt) ∈ t.sent ∧ (1, t.attempt) ∈ t.sent)
    rfl (by decide) (by decide)
  obtain ⟨-, h⟩ := done_only_when_acked hs
  exact ⟨s, t, hs, ht, hd, h _ t ht hd hne 0 h0, h _ t ht hd hne 1 h1⟩

/-- The restart times out, and then its event is answered. -/
def lateAckRun : List Act := [.connect true, .hotRestart 5 [0], .timeout, .ack 0]

/-- The restart times out and is tried again with the same epoch; the event of the first
    attempt is answered. -/
def retryRun : List Act :=
  [.connect true, .hotRestart 5 [0], .timeout, .hotRestart 5 [0], .ack 0, .tick]

/-- A negative count, and a restart that is done although its event is not answered. -/
theorem late_ack_counted :
    (∃ s, machine.Reachable s ∧ s.hotRestartAckCount = -1) ∧
    ∃ s, machine.Reachable s ∧ s.state = .hotRestartDone ∧ s.attempt = 2 ∧ (0, 2) ∈ s.sent ∧
      (0, 2) ∉ s.acked := by
  constructor
  · exact machine.exists_reachable_of_run {} lateAckRun _ rfl (by decide)
  · exact machine.exists_reachable_of_run {} retryRun _ rfl (by decide)

end Shmipc.Listener
