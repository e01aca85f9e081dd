import Shmipc.Stream.LocalClose

/-!
# Callbacks: one `OnData` at a time, and what it is offered

A callback goroutine gives up `callbackInProcess` first and then looks for new data,
while the event loop adds data first and then tries to take the flag. Whatever is in
`pendingData` therefore always has somebody who is going to look at it (`AsyncInv`), as
long as `Close` is not called.

The inner loop of the goroutine also asks whether the stream is still open. Once the
peer's close is handled, nothing more is offered to `OnData`, even if it was received
before the close.

Results:
* `one_onData_none_stranded`: at most one goroutine works on `recvBuf`; on an open
  stream with no goroutine running and the event loop outside `fillDataToReadBuffer`
  nothing is left in `pendingData` or in `recvBuf`.
* `offered_iff`: what was received before the peer's close is offered to `OnData`
  exactly when, at the moment the close is handled, nothing waits for an `OnData` that
  has not begun (`State.Settled`).
* `close_before_first_test`: a run in which one message and a close arrive and `OnData`
  is never called.
-/

namespace Shmipc.Stream

open Common

variable {s t : State} {k : ℕ}

/-! ## Positions -/

/-- One while the goroutine holds `callbackInProcess`. -/
def CallbackPc.holding : CallbackPc → ℕ
  | .moveTo | .test | .onData | .storeZero => 1
  | _ => 0

/-- One while the event loop holds it for the goroutine it starts. -/
def LoopPc.holding : LoopPc → ℕ
  | .wgAdd | .spawn => 1
  | _ => 0

/-- The goroutine works on `recvBuf`. -/
def CallbackPc.Reads : CallbackPc → Prop
  | .moveTo | .test | .onData => True
  | _ => False

/-- The goroutine is going to look at `pendingData`, or to see that another one does. -/
def CallbackPc.Rechecks : CallbackPc → Prop
  | .moveTo | .test | .onData | .storeZero | .loadCloseState | .testUnread | .casInProcess => True
  | _ => False

/-- The goroutine is not on its way to `close`. -/
def CallbackPc.Stays : CallbackPc → Prop
  | .doneAndClose | .close _ => False
  | _ => True

/-- The event loop has added data and not yet tried `callbackInProcess`, or holds it. -/
def LoopPc.Announces : LoopPc → Prop
  | .loadState | .casInProcess | .wgAdd | .spawn => True
  | _ => False

theorem CallbackPc.Reads.holding {pc : CallbackPc} (h : pc.Reads) : pc.holding = 1 := by
  cases pc <;> first | rfl | exact h.elim

theorem CallbackPc.rechecks_of_holding {pc : CallbackPc} (h : pc.holding ≠ 0) : pc.Rechecks := by
  cases pc <;> first | exact trivial | exact absurd rfl h

/-! ## The invariant -/

structure AsyncInv (s : State) : Prop where
  callbacks : s.shared.callbacks = true
  waitExit : s.shared.waitExit = false
  closers : s.closers = []
  state : s.shared.state ≠ .closed
  loop : s.loop ≠ .clear
  stays : ∀ pc ∈ s.goroutines, pc.Stays
  /-- `callbackInProcess` says whether it has a holder, and there is one at most. -/
  holder : (s.goroutines.map CallbackPc.holding).sum + s.loop.holding =
    s.shared.callbackInProcess.toNat
  /-- On an open stream a goroutine leaves `recvBuf` only when it is empty. -/
  recv : s.shared.state = .opened → 0 < s.shared.recvLen → ∃ pc ∈ s.goroutines, pc.Reads
  /-- Somebody is going to look at what is in `pendingData`. -/
  unread : 0 < s.shared.unread → s.loop.Announces ∨ ∃ pc ∈ s.goroutines, pc.Rechecks

theorem asyncInv_initial : AsyncInv (initial true) where
  callbacks := rfl
  waitExit := rfl
  closers := rfl
  state h := nomatch h
  loop h := nomatch h
  stays pc h := by simp [initial] at h
  holder := rfl
  recv _ h := by simp [initial] at h
  unread h := by simp [initial] at h

/-- A sum of `holding` that is not zero has a goroutine that looks. -/
theorem exists_rechecks {l : List CallbackPc} (h : (l.map CallbackPc.holding).sum ≠ 0) :
    ∃ pc ∈ l, pc.Rechecks := by
  obtain ⟨n, hn, h0⟩ := List.exists_mem_ne_zero_of_sum_ne_zero h
  obtain ⟨pc, hpc, rfl⟩ := List.mem_map.mp hn
  exact ⟨pc, hpc, CallbackPc.rechecks_of_holding h0⟩

theorem holding_le_sum {l : List CallbackPc} {pc : CallbackPc} (h : pc ∈ l) :
    pc.holding ≤ (l.map CallbackPc.holding).sum :=
  List.le_sum_of_mem (List.mem_map_of_mem h)

/-- Two goroutines that hold the flag are one. -/
theorem AsyncInv.eq_of_holding (h : AsyncInv s) {i j : ℕ} {p q : CallbackPc}
    (hi : s.goroutines[i]? = some p) (hj : s.goroutines[j]? = some q) (hp : p.holding = 1)
    (hq : q.holding = 1) : i = j := by
  by_contra hne
  have hsum := sum_map_set hi .finished CallbackPc.holding
  have hj' : (s.goroutines.set i .finished)[j]? = some q := by rw [List.getElem?_set_ne hne, hj]
  have hle := holding_le_sum (List.mem_of_getElem? hj')
  have hflag := Bool.toNat_le s.shared.callbackInProcess
  have hholder := h.holder
  have h0 : CallbackPc.finished.holding = 0 := rfl
  omega

/-! ## The callback goroutines -/

/-- What a step of a goroutine keeps that takes data from nobody's care. -/
theorem AsyncInv.of_goroutine {s' : Shared} {pc pc' : CallbackPc} (h : AsyncInv s)
    (hk : s.goroutines[k]? = some pc) (hcb : s'.callbacks = s.shared.callbacks)
    (hwe : s'.waitExit = s.shared.waitExit) (hst : s'.state = s.shared.state)
    (hstays : pc'.Stays)
    (hhold : s'.callbackInProcess.toNat + pc.holding =
      s.shared.callbackInProcess.toNat + pc'.holding)
    (hrecv : s.shared.state = .opened → 0 < s'.recvLen →
      pc'.Reads ∨ 0 < s.shared.recvLen ∧ (pc.Reads → pc'.Reads))
    (hunread : 0 < s'.unread → 0 < s.shared.unread ∧
      (pc'.Rechecks ∨ ¬ pc.Rechecks ∨ s'.callbackInProcess = true)) :
    AsyncInv { s with shared := s', goroutines := s.goroutines.set k pc' } := by
  have hholder : ((s.goroutines.set k pc').map CallbackPc.holding).sum + s.loop.holding =
      s'.callbackInProcess.toNat := by
    have hsum := sum_map_set hk pc' CallbackPc.holding
    have hold := h.holder
    omega
  refine ⟨hcb.trans h.callbacks, hwe.trans h.waitExit, h.closers, hst ▸ h.state, h.loop,
    forall_set h.stays hstays, hholder, fun ho hr => ?_, fun hu => ?_⟩
  · rw [show s'.state = .opened ↔ s.shared.state = .opened by rw [hst]] at ho
    rcases hrecv ho hr with hn | ⟨hr', himp⟩
    · exact ⟨pc', mem_set_self hk pc', hn⟩
    · exact exists_set hk (h.recv ho hr') himp
  · obtain ⟨hu', hn | hn | hp⟩ := hunread hu
    · exact .inr ⟨pc', mem_set_self hk pc', hn⟩
    · exact (h.unread hu').imp_right fun hex => exists_set hk hex fun hr => absurd hr hn
    · -- the flag is held, by the event loop or by another goroutine
      rw [hp, Bool.toNat_true] at hholder
      change _ ∨ ∃ pc ∈ s.goroutines.set k pc', pc.Rechecks
      by_cases hl : s.loop.holding = 0
      · exact .inr (exists_rechecks (by omega))
      · refine .inl ?_
        show s.loop.Announces
        revert hl
        cases s.loop <;> first | exact fun _ => trivial | exact fun hl => absurd rfl hl

theorem asyncInv_stepGoroutine {s' : Shared} {n : ℕ} {pc pc' : CallbackPc} (h : AsyncInv s)
    (hk : s.goroutines[k]? = some pc) (hs : stepGoroutine s.shared n pc = some (s', pc')) :
    AsyncInv { s with shared := s', goroutines := s.goroutines.set k pc' } := by
  have hpc : pc ∈ s.goroutines := List.mem_of_getElem? hk
  cases pc with
  | moveTo =>
    cases hs
    exact h.of_goroutine hk rfl rfl rfl trivial rfl
      (fun _ _ => .inl trivial) (fun hu => absurd hu (lt_irrefl 0))
  | test =>
    by_cases hc : s.shared.state = .opened ∧ 0 < s.shared.recvLen
    · rw [stepGoroutine, if_pos hc] at hs
      cases hs
      exact h.of_goroutine hk rfl rfl rfl trivial rfl
        (fun _ _ => .inl trivial) (fun hu => ⟨hu, .inl trivial⟩)
    · rw [stepGoroutine, if_neg hc] at hs
      cases hs
      exact h.of_goroutine hk rfl rfl rfl trivial rfl
        (fun ho hr => absurd ⟨ho, hr⟩ hc) (fun hu => ⟨hu, .inl trivial⟩)
  | onData =>
    cases hs
    exact h.of_goroutine hk rfl rfl rfl trivial rfl
      (fun _ _ => .inl trivial) (fun hu => ⟨hu, .inl trivial⟩)
  | storeZero =>
    cases hs
    have hle : 1 ≤ _ := holding_le_sum hpc
    have hflag := Bool.toNat_le s.shared.callbackInProcess
    have hholder := h.holder
    have hone : s.shared.callbackInProcess.toNat = 1 := by omega
    exact h.of_goroutine hk rfl rfl rfl trivial (by rw [hone]; rfl)
      (fun _ hr => .inr ⟨hr, fun hc => hc.elim⟩) (fun hu => ⟨hu, .inl trivial⟩)
  | loadCloseState =>
    rw [stepGoroutine, h.waitExit] at hs
    cases hs
    exact h.of_goroutine hk rfl rfl rfl trivial rfl
      (fun _ hr => .inr ⟨hr, fun hc => hc.elim⟩) (fun hu => ⟨hu, .inl trivial⟩)
  | doneAndClose | close c => exact (h.stays _ hpc).elim
  | testUnread =>
    by_cases hu : 0 < s.shared.unread
    · rw [stepGoroutine, if_pos hu] at hs
      cases hs
      exact h.of_goroutine hk rfl rfl rfl trivial rfl
        (fun _ hr => .inr ⟨hr, fun hc => hc.elim⟩) (fun hu => ⟨hu, .inl trivial⟩)
    · rw [stepGoroutine, if_neg hu] at hs
      cases hs
      exact h.of_goroutine hk rfl rfl rfl trivial rfl
        (fun _ hr => .inr ⟨hr, fun hc => hc.elim⟩) (fun hu' => absurd hu' hu)
  | casInProcess =>
    cases hp : s.shared.callbackInProcess with
    | true =>
      rw [stepGoroutine, if_pos hp] at hs
      cases hs
      exact h.of_goroutine hk rfl rfl rfl trivial rfl
        (fun _ hr => .inr ⟨hr, fun hc => hc.elim⟩) (fun hu => ⟨hu, .inr (.inr hp)⟩)
    | false =>
      rw [stepGoroutine, if_neg (by rw [hp]; exact Bool.false_ne_true)] at hs
      cases hs
      exact h.of_goroutine hk rfl rfl rfl trivial (by rw [hp]; rfl) (fun _ _ => .inl trivial)
        (fun hu => ⟨hu, .inl trivial⟩)
  | done =>
    cases hs
    exact h.of_goroutine hk rfl rfl rfl trivial rfl
      (fun _ hr => .inr ⟨hr, fun hc => hc.elim⟩) (fun hu => ⟨hu, .inr (.inl id)⟩)
  | finished => cases hs

/-! ## The event loop -/

/-- What a step of the event loop keeps that starts no goroutine. -/
theorem AsyncInv.of_loop {s' : Shared} {pc : LoopPc} (h : AsyncInv s)
    (hcb : s'.callbacks = s.shared.callbacks) (hwe : s'.waitExit = s.shared.waitExit)
    (hst : s'.state ≠ .closed) (hopen : s'.state = .opened → s.shared.state = .opened)
    (hrecv : s'.recvLen = s.shared.recvLen) (hpc : pc ≠ .clear)
    (hhold : s'.callbackInProcess.toNat + s.loop.holding =
      s.shared.callbackInProcess.toNat + pc.holding)
    (hunread : pc.Announces ∨ (0 < s'.unread → 0 < s.shared.unread) ∧
      (¬ s.loop.Announces ∨ ∃ pc ∈ s.goroutines, pc.Rechecks)) :
    AsyncInv { s with shared := s', loop := pc } := by
  refine ⟨hcb.trans h.callbacks, hwe.trans h.waitExit, h.closers, hst, hpc, h.stays, ?_,
    fun ho hr => h.recv (hopen ho) (hrecv ▸ hr), fun hu => ?_⟩
  · have hold := h.holder
    show (s.goroutines.map CallbackPc.holding).sum + pc.holding = s'.callbackInProcess.toNat
    omega
  · rcases hunread with ha | ⟨hu', ha⟩
    · exact .inl ha
    · refine .inr ?_
      rcases ha with ha | hex
      · exact (h.unread (hu' hu)).resolve_left ha
      · exact hex

theorem asyncInv_stepLoop {s' : Shared} {pc : LoopPc} {sp : Bool} (h : AsyncInv s)
    (hs : stepLoop s.shared s.loop = some (s', pc, sp)) :
    AsyncInv { s with
      shared := s'
      loop := pc
      goroutines := if sp then s.goroutines ++ [.moveTo] else s.goroutines } := by
  cases hl : s.loop with
  | idle => rw [hl] at hs; cases hs
  | halfCas =>
    by_cases hst : s.shared.state = .opened
    · rw [hl, stepLoop, if_pos hst, if_pos h.callbacks] at hs
      cases hs
      exact h.of_loop rfl rfl (by simp) (by simp) rfl (by simp) (by rw [hl]; rfl)
        (.inr ⟨id, .inl (by rw [hl]; exact id)⟩)
    · rw [hl, stepLoop, if_neg hst] at hs
      cases hs
      exact h.of_loop rfl rfl h.state id rfl (by simp) (by rw [hl]; rfl)
        (.inr ⟨id, .inl (by rw [hl]; exact id)⟩)
  | onRemoteClose =>
    rw [hl] at hs
    cases hs
    exact h.of_loop rfl rfl h.state id rfl (by simp) (by rw [hl]; rfl)
      (.inr ⟨id, .inl (by rw [hl]; exact id)⟩)
  | add =>
    rw [hl] at hs
    cases hs
    exact h.of_loop rfl rfl h.state id rfl (by simp) (by rw [hl]; rfl) (.inl trivial)
  | loadState =>
    rw [hl, stepLoop, if_neg h.state, h.callbacks] at hs
    cases hs
    exact h.of_loop rfl rfl h.state id rfl (by simp) (by rw [hl]; rfl) (.inl trivial)
  | clear => exact absurd hl h.loop
  | casInProcess =>
    cases hp : s.shared.callbackInProcess with
    | true =>
      -- the flag is held by a goroutine, which looks at `pendingData` after it gives it up
      rw [hl, stepLoop, if_pos hp] at hs
      cases hs
      have hholder := h.holder
      rw [hl, hp, Bool.toNat_true] at hholder
      have hsum : (s.goroutines.map CallbackPc.holding).sum ≠ 0 := by
        intro h0
        rw [h0] at hholder
        cases hholder
      exact h.of_loop rfl rfl h.state id rfl (by simp) (by rw [hl]; rfl)
        (.inr ⟨id, .inr (exists_rechecks hsum)⟩)
    | false =>
      rw [hl, stepLoop, if_neg (by rw [hp]; exact Bool.false_ne_true)] at hs
      cases hs
      exact h.of_loop rfl rfl h.state id rfl (by simp) (by rw [hl, hp]; rfl) (.inl trivial)
  | wgAdd =>
    rw [hl] at hs
    cases hs
    exact h.of_loop rfl rfl h.state id rfl (by simp) (by rw [hl]; rfl) (.inl trivial)
  | spawn =>
    rw [hl] at hs
    cases hs
    have hnew : CallbackPc.moveTo ∈ s.goroutines ++ [.moveTo] :=
      List.mem_append_right _ List.mem_cons_self
    refine ⟨h.callbacks, h.waitExit, h.closers, h.state, by simp, fun q hq => ?_, ?_,
      fun _ _ => ⟨_, hnew, trivial⟩, fun _ => .inr ⟨_, hnew, trivial⟩⟩
    · rcases List.mem_append.mp hq with hq | hq
      · exact h.stays q hq
      · rw [List.mem_singleton.mp hq]
        trivial
    · have hold := h.holder
      rw [hl] at hold
      show ((s.goroutines ++ [CallbackPc.moveTo]).map CallbackPc.holding).sum + 0 = _
      rw [List.map_append, List.sum_append]
      exact hold

/-! ## Runs without a local close -/

/-- A stream whose callbacks were set before its first data. -/
def async : Sys State Act where
  init s := s = initial true
  next := step

/-- `Close` is not called. -/
def NoClose (_ : State) (a : Act) : Prop := a ≠ .close

instance (s : State) (a : Act) : Decidable (NoClose s a) :=
  inferInstanceAs (Decidable (_ ≠ _))

/-- **Step.** -/
theorem asyncInv_step {a : Act} (h : AsyncInv s) (ha : a ≠ .close) (hs : step s a = some t) :
    AsyncInv t := by
  cases a with
  | close => exact absurd rfl ha
  | closer k =>
    rw [step, h.closers] at hs
    cases hs
  | data | peerClose =>
    rw [step] at hs
    split_ifs at hs with hl
    cases hs
    exact h.of_loop rfl rfl h.state id rfl (by simp) (by rw [hl]; rfl)
      (.inr ⟨id, .inl (by rw [hl]; exact id)⟩)
  | loop =>
    obtain ⟨⟨s', pc, sp⟩, hstep, rfl⟩ := Option.map_eq_some_iff.mp hs
    exact asyncInv_stepLoop h hstep
  | goroutine k n =>
    obtain ⟨pc, hk, hs⟩ := Option.bind_eq_some_iff.mp hs
    obtain ⟨⟨s', pc'⟩, hstep, rfl⟩ := Option.map_eq_some_iff.mp hs
    exact asyncInv_stepGoroutine h hk hstep

/-- **Run.** -/
theorem asyncInv_of_reachable (hr : async.ReachableWhen NoClose s) : AsyncInv s := by
  refine hr.invariant AsyncInv (fun s hs => ?_) fun s a t h hok ht => asyncInv_step h hok ht
  rw [show s = initial true from hs]
  exact asyncInv_initial

/-- **Main theorem.** In every run without a local close at most one goroutine works on
    `recvBuf`, so at most one is in `OnData`; and on an open stream, with no goroutine
    running and the event loop outside `fillDataToReadBuffer`, nothing is left. -/
theorem one_onData_none_stranded (hr : async.ReachableWhen NoClose s) :
    (∀ (i j : ℕ) (p q : CallbackPc), s.goroutines[i]? = some p → s.goroutines[j]? = some q →
      p.Reads → q.Reads → i = j) ∧
    (s.shared.state = .opened → s.loop = .idle → (∀ pc ∈ s.goroutines, pc = .finished) →
      s.shared.unread = 0 ∧ s.shared.recvLen = 0) := by
  have h := asyncInv_of_reachable hr
  refine ⟨fun i j p q hi hj hp hq => h.eq_of_holding hi hj hp.holding hq.holding,
    fun ho hl hfin => ⟨?_, ?_⟩⟩
  · refine Nat.eq_zero_of_not_pos fun hu => ?_
    rcases h.unread hu with ha | ⟨pc, hpc, hre⟩
    · rw [hl] at ha
      exact ha
    · rw [hfin pc hpc] at hre
      exact hre
  · refine Nat.eq_zero_of_not_pos fun hrecv => ?_
    obtain ⟨pc, hpc, hre⟩ := h.recv ho hrecv
    rw [hfin pc hpc] at hre
    exact hre

/-- A second message arrives while the goroutine is between its test of `recvBuf` and the
    store of `callbackInProcess`; the goroutine finds it and goes round again. -/
def secondMessageRun : List Act :=
  [Act.data, .loop, .loop, .loop, .loop, .loop, .goroutine 0 0, .goroutine 0 0, .goroutine 0 1,
    .goroutine 0 0, .goroutine 0 0, .data, .loop, .loop, .loop] ++
  List.replicate 4 (Act.goroutine 0 0) ++
  [Act.goroutine 0 0, .goroutine 0 0, .goroutine 0 1] ++ List.replicate 6 (Act.goroutine 0 0)

theorem none_stranded_second_message : ∃ s, async.ReachableWhen NoClose s ∧
    s.goroutines = [.finished] ∧ s.shared.unread = 0 ∧ s.shared.recvLen = 0 := by
  obtain ⟨s, hs, ho, hl, hg⟩ := async.exists_reachableWhen_of_run NoClose (initial true)
    secondMessageRun (fun s => s.shared.state = .opened ∧ s.loop = .idle ∧
      s.goroutines = [.finished]) rfl (by decide) (by decide)
  obtain ⟨-, h⟩ := one_onData_none_stranded hs
  exact ⟨s, hs, hg, h ho hl (by rw [hg]; simp)⟩

/-! ## What is offered to `OnData` -/

/-- A run with a record of the messages added to `pendingData` and of those that were in
    `recvBuf` when an `OnData` began. Both come in the order of arrival, so two counts
    are enough. -/
structure Traced where
  state : State
  added : ℕ := 0
  offered : ℕ := 0
  deriving DecidableEq

/-- The step adds a message to `pendingData`. -/
def Adds (s : State) : Act → Prop
  | .loop => s.loop = .add
  | _ => False

/-- The step begins an `OnData`. -/
def Offers (s : State) : Act → Prop
  | .goroutine k _ => s.goroutines[k]? = some .test ∧ s.shared.state = .opened ∧
      0 < s.shared.recvLen
  | _ => False

instance (s : State) : ∀ a, Decidable (Adds s a)
  | .loop => inferInstanceAs (Decidable (_ = _))
  | .close | .closer _ | .data | .peerClose | .goroutine _ _ => isFalse id

instance (s : State) : ∀ a, Decidable (Offers s a)
  | .goroutine _ _ => inferInstanceAs (Decidable (_ ∧ _))
  | .close | .closer _ | .data | .peerClose | .loop => isFalse id

/-- What `OnData` is offered is all that has been added and is not in `pendingData` any
    more. -/
def Traced.next (x : Traced) (a : Act) : Option Traced :=
  (step x.state a).map fun t =>
    { state := t
      added := x.added + if Adds x.state a then 1 else 0
      offered := if Offers x.state a then x.added - x.state.shared.unread else x.offered }

def traced : Sys Traced Act where
  init x := x = { state := initial true }
  next := Traced.next

/-- No local close; the peer sends nothing after its close; `OnData` takes what it is
    given. -/
def Consumes (x : Traced) : Act → Prop
  | .close => False
  | .data => x.state.shared.state = .opened
  | .goroutine k n => x.state.goroutines[k]? = some .onData → x.state.shared.recvLen ≤ n
  | _ => True

instance (x : Traced) : ∀ a, Decidable (Consumes x a)
  | .close => isFalse id
  | .data => inferInstanceAs (Decidable (_ = _))
  | .goroutine _ _ => inferInstanceAs (Decidable (_ → _))
  | .closer _ | .peerClose | .loop => isTrue trivial

/-- Nothing waits for an `OnData` that has not begun: `pendingData` is empty, and what is in
    `recvBuf` has been passed to the `OnData` that runs. -/
def State.Settled (s : State) : Prop :=
  s.shared.unread = 0 ∧ (s.shared.recvLen = 0 ∨ .onData ∈ s.goroutines)

instance (s : State) : Decidable s.Settled := inferInstanceAs (Decidable (_ ∧ _))

/-- The messages in `recvBuf` that no `OnData` has been passed. -/
def State.waiting (s : State) : ℕ := if .onData ∈ s.goroutines then 0 else s.shared.recvLen

theorem settled_iff : s.Settled ↔ s.shared.unread + s.waiting = 0 := by
  unfold State.Settled State.waiting
  split_ifs with h <;> simp [h]

structure TracedInv (x : Traced) : Prop where
  base : AsyncInv x.state
  counted : x.state.shared.state = .opened →
    x.added = x.offered + x.state.shared.unread + x.state.waiting
  noData : x.state.shared.state ≠ .opened → x.state.loop ≠ .add

/-- A goroutine that neither begins nor ends an `OnData`. -/
theorem mem_set_iff {l : List CallbackPc} {pc pc' : CallbackPc} (hk : l[k]? = some pc)
    (h : pc ≠ .onData) (h' : pc' ≠ .onData) : .onData ∈ l.set k pc' ↔ .onData ∈ l := by
  refine ⟨fun hm => ?_, fun hm => mem_set_of_ne hk hm h.symm⟩
  rcases List.mem_or_eq_of_mem_set hm with hm | he
  · exact hm
  · exact absurd he.symm h'

/-- While a goroutine holds the flag elsewhere, none is in `OnData`. -/
theorem AsyncInv.not_onData (h : AsyncInv s) {pc : CallbackPc} (hk : s.goroutines[k]? = some pc)
    (hpc : pc.holding = 1) (hne : pc ≠ .onData) : .onData ∉ s.goroutines := by
  intro hm
  obtain ⟨j, hj⟩ := List.mem_iff_getElem?.mp hm
  obtain rfl := h.eq_of_holding hk hj hpc rfl
  rw [hk] at hj
  exact hne (Option.some.inj hj)

/-- The count, when a goroutine moves. -/
theorem counted_stepGoroutine {x : Traced} {s' : Shared} {n : ℕ} {pc pc' : CallbackPc}
    (h : TracedInv x) (ho : x.state.shared.state = .opened)
    (hk : x.state.goroutines[k]? = some pc) (hn : pc = .onData → x.state.shared.recvLen ≤ n)
    (hs : stepGoroutine x.state.shared n pc = some (s', pc')) :
    x.added = (if Offers x.state (.goroutine k n) then x.added - x.state.shared.unread
        else x.offered) + s'.unread +
      State.waiting { x.state with shared := s', goroutines := x.state.goroutines.set k pc' } := by
  have hcount := h.counted ho
  have hstays := h.base.stays pc (List.mem_of_getElem? hk)
  have hoffers : Offers x.state (.goroutine k n) ↔ pc = .test ∧ 0 < x.state.shared.recvLen := by
    simp [Offers, hk, ho]
  by_cases hoff : pc = .test ∧ 0 < x.state.shared.recvLen
  · obtain ⟨rfl, hr⟩ := hoff
    rw [stepGoroutine, if_pos ⟨ho, hr⟩] at hs
    cases hs
    rw [if_pos (hoffers.mpr ⟨rfl, hr⟩)]
    simp only [State.waiting, if_pos (mem_set_self hk CallbackPc.onData)]
    omega
  rw [if_neg (mt hoffers.mp hoff)]
  have hkeep : pc ≠ .onData → pc' ≠ .onData → s'.unread = x.state.shared.unread →
      s'.recvLen = x.state.shared.recvLen → x.added = x.offered + s'.unread +
        State.waiting { x.state with
          shared := s', goroutines := x.state.goroutines.set k pc' } := by
    intro h1 h2 hu hr
    simp only [State.waiting, mem_set_iff hk h1 h2, hu, hr]
    exact hcount
  cases pc with
  | moveTo =>
    cases hs
    have hno := h.base.not_onData hk rfl (by simp)
    have hno' : .onData ∉ x.state.goroutines.set k .test := by
      rwa [mem_set_iff hk (by simp) (by simp)]
    simp only [State.waiting, if_neg hno, if_neg hno'] at hcount ⊢
    omega
  | test =>
    have hr : ¬ (x.state.shared.state = .opened ∧ 0 < x.state.shared.recvLen) := by simp_all
    rw [stepGoroutine, if_neg hr] at hs
    cases hs
    exact hkeep (by simp) (by simp) rfl rfl
  | onData =>
    cases hs
    have hw : x.state.waiting = 0 := if_pos (List.mem_of_getElem? hk)
    have hz : x.state.shared.recvLen - n = 0 := Nat.sub_eq_zero_of_le (hn rfl)
    simp only [State.waiting, hz, ite_self]
    omega
  | storeZero | done =>
    cases hs
    exact hkeep (by simp) (by simp) rfl rfl
  | loadCloseState | testUnread =>
    cases hs
    exact hkeep (by simp) (by split_ifs <;> simp) rfl rfl
  | casInProcess =>
    rw [stepGoroutine] at hs
    split_ifs at hs <;> cases hs <;> exact hkeep (by simp) (by simp) rfl rfl
  | doneAndClose | close c => exact hstays.elim
  | finished => cases hs

/-- What a step of the event loop does to the data, outside the closed path. -/
theorem stepLoop_data {s s' : Shared} {pc pc' : LoopPc} {sp : Bool} (hpc : pc ≠ .clear)
    (h : stepLoop s pc = some (s', pc', sp)) :
    (s'.state = .opened → s.state = .opened) ∧ pc' ≠ .add ∧ s'.recvLen = s.recvLen ∧
      s'.unread = s.unread + if pc = .add then 1 else 0 := by
  cases pc with
  | idle => cases h
  | halfCas | casInProcess =>
    rw [stepLoop] at h
    split_ifs at h with hc <;> cases h <;> simp
  | loadState =>
    cases h
    refine ⟨id, ?_, rfl, rfl⟩
    split_ifs <;> simp
  | clear => exact absurd rfl hpc
  | onRemoteClose | add | wgAdd | spawn =>
    cases h
    simp

theorem stepGoroutine_state {s s' : Shared} {n : ℕ} {pc pc' : CallbackPc} (hpc : pc.Stays)
    (h : stepGoroutine s n pc = some (s', pc')) : s'.state = s.state := by
  cases pc with
  | casInProcess =>
    rw [stepGoroutine] at h
    split_ifs at h <;> cases h <;> rfl
  | doneAndClose | close c => exact hpc.elim
  | finished => cases h
  | _ => cases h; rfl

/-- **Step.** -/
theorem tracedInv_step {x y : Traced} {a : Act} (h : TracedInv x) (hok : Consumes x a)
    (hs : x.next a = some y) : TracedInv y := by
  obtain ⟨t, ht, rfl⟩ := Option.map_eq_some_iff.mp hs
  have hne : a ≠ .close := by
    rintro rfl
    exact hok
  have hbase := asyncInv_step h.base hne ht
  cases a with
  | close => exact absurd rfl hne
  | closer k =>
    rw [step, h.base.closers] at ht
    cases ht
  | data | peerClose =>
    rw [step] at ht
    split_ifs at ht
    cases ht
    exact ⟨hbase, h.counted, by simp_all [Consumes]⟩
  | loop =>
    obtain ⟨⟨s', pc, sp⟩, hstep, rfl⟩ := Option.map_eq_some_iff.mp ht
    obtain ⟨hopen, hpc, hrecv, hunread⟩ := stepLoop_data h.base.loop hstep
    refine ⟨hbase, fun ho => ?_, fun _ => hpc⟩
    have hcount := h.counted (hopen ho)
    have hmem : .onData ∈ (if sp then x.state.goroutines ++ [.moveTo] else x.state.goroutines) ↔
        .onData ∈ x.state.goroutines := by
      cases sp <;> simp
    show x.added + (if x.state.loop = .add then 1 else 0) = x.offered + s'.unread + State.waiting _
    simp only [State.waiting, hmem, hrecv] at hcount ⊢
    omega
  | goroutine k n =>
    obtain ⟨pc, hk, ht⟩ := Option.bind_eq_some_iff.mp ht
    obtain ⟨⟨s', pc'⟩, hstep, rfl⟩ := Option.map_eq_some_iff.mp ht
    have hst : s'.state = x.state.shared.state :=
      stepGoroutine_state (h.base.stays pc (List.mem_of_getElem? hk)) hstep
    refine ⟨hbase, fun ho => ?_, fun hno => ?_⟩
    · refine counted_stepGoroutine h (hst ▸ ho) hk (fun he => ?_) hstep
      exact hok (he ▸ hk)
    · exact h.noData fun ho => hno (hst.trans ho)

/-- **Run.** -/
theorem tracedInv_of_reachable {x : Traced} (hr : traced.ReachableWhen Consumes x) :
    TracedInv x := by
  refine hr.invariant TracedInv (fun x hx => ?_) fun x a y h hok hy => tracedInv_step h hok hy
  obtain rfl : x = { state := initial true } := hx
  exact ⟨asyncInv_initial, fun _ => rfl, fun h => absurd rfl h⟩

/-- Once the stream is not open, nothing is added and nothing is offered. -/
theorem unchanged_of_not_open {x y : Traced} {as : List Act} (h : TracedInv x)
    (hx : x.state.shared.state ≠ .opened) (hok : traced.RunOk Consumes x as)
    (hy : traced.run x as = some y) : y.added = x.added ∧ y.offered = x.offered := by
  induction as generalizing x with
  | nil =>
    cases hy
    exact ⟨rfl, rfl⟩
  | cons a as ih =>
    obtain ⟨z, hz, hy⟩ := Option.bind_eq_some_iff.mp hy
    have hinv := tracedInv_step h hok.1 hz
    obtain ⟨t, ht, rfl⟩ := Option.map_eq_some_iff.mp hz
    have hadds : ¬ Adds x.state a := by
      cases a with
      | loop => exact h.noData hx
      | _ => exact id
    have hoffers : ¬ Offers x.state a := by
      cases a with
      | goroutine k n => exact fun ho => hx ho.2.1
      | _ => exact id
    have hst : t.shared.state ≠ .opened := by
      cases a with
      | close => exact hok.1.elim
      | closer k =>
        rw [step, h.base.closers] at ht
        cases ht
      | data | peerClose =>
        rw [step] at ht
        split_ifs at ht
        cases ht
        exact hx
      | loop =>
        obtain ⟨⟨s', pc, sp⟩, hstep, rfl⟩ := Option.map_eq_some_iff.mp ht
        exact fun ho => hx ((stepLoop_data h.base.loop hstep).1 ho)
      | goroutine k n =>
        obtain ⟨pc, hk, ht⟩ := Option.bind_eq_some_iff.mp ht
        obtain ⟨⟨s', pc'⟩, hstep, rfl⟩ := Option.map_eq_some_iff.mp ht
        exact fun ho => hx
          ((stepGoroutine_state (h.base.stays pc (List.mem_of_getElem? hk)) hstep).symm.trans ho)
    obtain ⟨h1, h2⟩ := ih hinv hst (hok.2 _ hz) hy
    rw [h1, h2, if_neg hadds, if_neg hoffers]
    exact ⟨rfl, rfl⟩

/-- **Main theorem.** The event loop is about to handle the peer's close in state `x`. In
    every later state, and so when all goroutines have finished, everything that was added
    before has been offered to `OnData` if and only if nothing waits in `x`. -/
theorem offered_iff {x y : Traced} {as : List Act} (hr : traced.ReachableWhen Consumes x)
    (hl : x.state.loop = .halfCas) (ho : x.state.shared.state = .opened)
    (hok : traced.RunOk Consumes x (.loop :: as)) (hy : traced.run x (.loop :: as) = some y) :
    y.offered = y.added ↔ x.state.Settled := by
  have h := tracedInv_of_reachable hr
  obtain ⟨z, hz, hy⟩ := Option.bind_eq_some_iff.mp hy
  have hinv := tracedInv_step h hok.1 hz
  have hrest := hok.2 z hz
  have hcount := h.counted ho
  obtain ⟨t, ht, rfl⟩ := Option.map_eq_some_iff.mp hz
  obtain ⟨⟨s', pc, sp⟩, hstep, rfl⟩ := Option.map_eq_some_iff.mp ht
  have hadds : ¬ Adds x.state .loop := by
    show ¬ x.state.loop = .add
    simp [hl]
  rw [hl, stepLoop, if_pos ho, if_pos h.base.callbacks] at hstep
  cases hstep
  obtain ⟨h1, h2⟩ := unchanged_of_not_open hinv (by simp) hrest hy
  rw [h1, h2, if_neg hadds, settled_iff]
  show x.offered = x.added + 0 ↔ _
  omega

/-- One message, an `OnData` that takes it, then the peer's close. -/
def messageThenCloseRun : List Act :=
  [Act.data, .loop, .loop, .loop, .loop, .loop] ++
  [Act.goroutine 0 0, .goroutine 0 0, .peerClose]

/-- The goroutine runs to its end after the close. -/
def finishRun : List Act :=
  [Act.loop, .goroutine 0 1] ++ List.replicate 6 (Act.goroutine 0 0)

theorem offered_message_then_close : ∃ x y, traced.ReachableWhen Consumes x ∧
    traced.run x (.loop :: finishRun) = some y ∧ y.state.goroutines = [.finished] ∧
    y.offered = y.added := by
  obtain ⟨x, hx, hl, ho, hset, hok, y, hy, hfin⟩ := traced.exists_reachableWhen_of_run Consumes
    { state := initial true } messageThenCloseRun
    (fun x => x.state.loop = .halfCas ∧ x.state.shared.state = .opened ∧ x.state.Settled ∧
      traced.RunOk Consumes x (.loop :: finishRun) ∧
      ∃ y ∈ traced.run x (.loop :: finishRun), y.state.goroutines = [.finished])
    rfl (by decide) (by decide)
  exact ⟨x, y, hx, hy, hfin, (offered_iff hx hl ho hok hy).mpr hset⟩

/-- One message and the peer's close, both before the first step of the goroutine. -/
def closeFirstRun : List Act :=
  [Act.data, .loop, .loop, .loop, .loop, .loop, .peerClose, .loop, .loop] ++
  List.replicate 6 (Act.goroutine 0 0)

/-- The goroutine has finished, and the message was never offered to `OnData`. -/
theorem close_before_first_test : ∃ x, traced.ReachableWhen Consumes x ∧ x.state.loop = .idle ∧
    x.state.goroutines = [.finished] ∧ x.added = 1 ∧ x.offered = 0 :=
  traced.exists_reachableWhen_of_run Consumes { state := initial true } closeFirstRun _ rfl
    (by decide) (by decide)

end Shmipc.Stream
