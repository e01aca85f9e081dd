import Shmipc.Stream.LocalClose
import Mathlib.Data.Prod.Lex

/-!
# The notification of the peer

The `close` that swaps `streamOpened` for `streamClosed` tells the peer and calls
`OnLocalClose`; one that swaps `streamHalfClosed` does neither, since that state is
meant to come from the peer. A `Close` during `OnData` sets the same state, so the peer
is never told of it.

Results:
* `close_in_onData_tells_nobody`: a `Close` from inside `OnData`, after which the stream
  is closed, nothing runs any more and no notification was sent.
* `wgInv_of_reachable`: `asyncGoroutineWg` counts the callback goroutines that are not
  done, in every run.
* `peer_told_once`: in every run in which nothing sets the open stream to half closed
  (`StaysOpen`), a stream that is closed has told its peer once, or the calls that run
  come to it whatever the scheduler does.
-/

namespace Shmipc.Stream

open Common

variable {s t : State} {k : ℕ}

/-! ## The wait group -/

/-- The goroutine has not called `asyncGoroutineWg.Done` yet. -/
def CallbackPc.live : CallbackPc → ℤ
  | .close _ | .finished => 0
  | _ => 1

/-- The event loop has called `Add` for a goroutine it is going to start. -/
def LoopPc.live : LoopPc → ℤ
  | .spawn => 1
  | _ => 0

/-- `asyncGoroutineWg` counts the goroutines that are not done. -/
def WgInv (s : State) : Prop :=
  s.shared.asyncGoroutineWg = (s.goroutines.map CallbackPc.live).sum + s.loop.live

theorem stepClose_wg {s s' : Shared} {pc pc' : ClosePc} (h : stepClose s pc = some (s', pc')) :
    s'.asyncGoroutineWg = s.asyncGoroutineWg := by
  cases pc with
  | loadState | clean | onLocalClose | notifyPeer => cases h; rfl
  | cas old | wait old =>
    rw [stepClose] at h
    split_ifs at h <;> cases h <;> rfl
  | returned => cases h

theorem stepCloser_wg {s s' : Shared} {pc pc' : CloserPc}
    (h : stepCloser s pc = some (s', pc')) : s'.asyncGoroutineWg = s.asyncGoroutineWg := by
  cases pc with
  | storeWaitExit | loadInProcess => cases h; rfl
  | casHalf =>
    cases h
    split_ifs <;> rfl
  | close c =>
    rcases stepCloser_close h with ⟨-, rfl, -⟩ | ⟨c', hc, -⟩
    · rfl
    · exact stepClose_wg hc
  | returned => cases h

theorem stepGoroutine_wg {s s' : Shared} {n : ℕ} {pc pc' : CallbackPc}
    (h : stepGoroutine s n pc = some (s', pc')) :
    s'.asyncGoroutineWg + pc.live = s.asyncGoroutineWg + pc'.live := by
  cases pc with
  | moveTo | onData | storeZero => cases h; rfl
  | test | loadCloseState | testUnread =>
    cases h
    split_ifs <;> rfl
  | doneAndClose | done =>
    cases h
    simp [CallbackPc.live]
  | close c =>
    rcases stepGoroutine_close h with ⟨-, rfl, rfl⟩ | ⟨c', hc, rfl⟩
    · rfl
    · rw [stepClose_wg hc]
      rfl
  | casInProcess =>
    rw [stepGoroutine] at h
    split_ifs at h <;> cases h <;> rfl
  | finished => cases h

theorem stepLoop_wg {s s' : Shared} {pc pc' : LoopPc} {sp : Bool}
    (h : stepLoop s pc = some (s', pc', sp)) :
    s'.asyncGoroutineWg + pc.live = s.asyncGoroutineWg + pc'.live + if sp then 1 else 0 := by
  cases pc with
  | idle => cases h
  | halfCas | casInProcess =>
    rw [stepLoop] at h
    split_ifs at h <;> cases h <;> simp [LoopPc.live]
  | loadState =>
    cases h
    split_ifs <;> simp_all [LoopPc.live]
  | onRemoteClose | add | clear | wgAdd | spawn =>
    cases h
    simp [LoopPc.live]

theorem wgInv_step {a : Act} (h : WgInv s) (hs : step s a = some t) : WgInv t := by
  unfold WgInv at h ⊢
  cases a with
  | close =>
    cases hs
    exact h
  | closer k =>
    obtain ⟨pc, hk, hs⟩ := Option.bind_eq_some_iff.mp hs
    obtain ⟨⟨s', pc'⟩, hstep, rfl⟩ := Option.map_eq_some_iff.mp hs
    exact (stepCloser_wg hstep).trans h
  | data | peerClose =>
    rw [step] at hs
    split_ifs at hs with hl
    cases hs
    rw [hl] at h
    exact h
  | loop =>
    obtain ⟨⟨s', pc, sp⟩, hstep, rfl⟩ := Option.map_eq_some_iff.mp hs
    have hwg := stepLoop_wg hstep
    cases sp with
    | false =>
      simp only [Bool.false_eq_true, if_false] at hwg ⊢
      omega
    | true =>
      simp only [if_true, List.map_append, List.map_singleton, List.sum_append,
        List.sum_singleton] at hwg ⊢
      have : CallbackPc.moveTo.live = 1 := rfl
      omega
  | goroutine k n =>
    obtain ⟨pc, hk, hs⟩ := Option.bind_eq_some_iff.mp hs
    obtain ⟨⟨s', pc'⟩, hstep, rfl⟩ := Option.map_eq_some_iff.mp hs
    have hwg := stepGoroutine_wg hstep
    have hsum := sum_map_set hk pc' CallbackPc.live
    show s'.asyncGoroutineWg = ((s.goroutines.set k pc').map CallbackPc.live).sum + s.loop.live
    omega

theorem wgInv_of_reachable {ok : State → Act → Prop} (hs : machine.ReachableWhen ok s) :
    WgInv s := by
  refine hs.invariant WgInv (fun s hs => ?_) fun s a t h _ ht => wgInv_step h ht
  obtain ⟨callbacks, rfl⟩ := hs
  rfl

/-! ## The calls that are still owed -/

/-- The condition on a step: neither a `Close` that has found a callback goroutine at
    work nor the peer's close sets an open stream to half closed. -/
def StaysOpen (s : State) : Act → Prop
  | .closer k => s.closers[k]? = some .casHalf → s.shared.state ≠ .opened
  | .loop => s.loop = .halfCas → s.shared.state ≠ .opened
  | _ => True

instance (s : State) : ∀ a, Decidable (StaysOpen s a)
  | .loop | .closer _ => inferInstanceAs (Decidable (_ → _))
  | .close | .data | .peerClose | .goroutine _ _ => isTrue trivial

/-- The call of `close` inside a call of `Close`. -/
def CloserPc.closing : CloserPc → Option ClosePc
  | .close pc => some pc
  | _ => none

/-- The call of `close` inside a callback goroutine. -/
def CallbackPc.closing : CallbackPc → Option ClosePc
  | .close pc => some pc
  | _ => none

/-- What the call has read is not half closed. -/
def ClosePc.ReadOpen : ClosePc → Prop
  | .cas old | .wait old | .clean old => old = .opened
  | _ => True

/-- Notifications that the call is going to send. -/
def ClosePc.owes : ClosePc → ℕ
  | .wait _ | .clean _ | .onLocalClose | .notifyPeer => 1
  | _ => 0

/-- Calls of `OnLocalClose` that the call is going to make, if there are callbacks. -/
def ClosePc.owesLocal : ClosePc → ℕ
  | .wait _ | .clean _ | .onLocalClose => 1
  | _ => 0

def owes (c : Option ClosePc) : ℕ := c.elim 0 ClosePc.owes

def owesLocal (c : Option ClosePc) : ℕ := c.elim 0 ClosePc.owesLocal

theorem owesLocal_le_owes (c : Option ClosePc) : owesLocal c ≤ owes c := by
  cases c with
  | none => exact le_rfl
  | some pc => cases pc <;> simp [owes, owesLocal, ClosePc.owes, ClosePc.owesLocal]

/-- Processes outside of `close` owe nothing. -/
theorem sum_closing_eq_zero {α : Type*} {l : List α} {f : α → Option ClosePc}
    (g : Option ClosePc → ℕ) (hg : g none = 0) (hl : ∀ c ∈ l, f c = none) :
    (l.map fun c => g (f c)).sum = 0 := by
  apply List.sum_eq_zero
  intro n hn
  obtain ⟨c, hc, rfl⟩ := List.mem_map.mp hn
  rw [hl c hc, hg]

def State.owes (s : State) : ℕ :=
  (s.closers.map fun pc => Stream.owes pc.closing).sum +
    (s.goroutines.map fun pc => Stream.owes pc.closing).sum

def State.owesLocal (s : State) : ℕ :=
  (s.closers.map fun pc => Stream.owesLocal pc.closing).sum +
    (s.goroutines.map fun pc => Stream.owesLocal pc.closing).sum

theorem State.owesLocal_le (s : State) : s.owesLocal ≤ s.owes :=
  Nat.add_le_add (List.sum_le_sum fun _ _ => owesLocal_le_owes _)
    (List.sum_le_sum fun _ _ => owesLocal_le_owes _)

/-- How often the peer is to be told. -/
def Shared.due (s : Shared) : ℕ := if s.state = .closed then 1 else 0

/-- How often `OnLocalClose` is to be called. -/
def Shared.dueLocal (s : Shared) : ℕ := if s.state = .closed ∧ s.callbacks = true then 1 else 0

/-- Every notification and every `OnLocalClose` is made, or owed by one call of `close`. -/
structure TellInv (s : State) : Prop where
  notHalf : s.shared.state ≠ .halfClosed
  remote : s.shared.onRemoteClose = 0
  loop : s.loop ≠ .onRemoteClose
  closers : ∀ pc ∈ s.closers, ∀ c, pc.closing = some c → c.ReadOpen
  goroutines : ∀ pc ∈ s.goroutines, ∀ c, pc.closing = some c → c.ReadOpen
  told : s.shared.notified + s.owes = s.shared.due
  toldLocal : s.shared.onLocalClose + (if s.shared.callbacks then s.owesLocal else 0) =
    s.shared.dueLocal

/-- What a step does to the calls made and the calls owed, for a process whose call of
    `close` goes from `c` to `c'`. -/
structure Tells (s s' : Shared) (c c' : Option ClosePc) : Prop where
  notHalf : s'.state ≠ .halfClosed
  remote : s'.onRemoteClose = s.onRemoteClose
  callbacks : s'.callbacks = s.callbacks
  readOpen : ∀ pc, c' = some pc → pc.ReadOpen
  told : s'.notified + owes c' + s.due = s.notified + owes c + s'.due
  toldLocal : s'.onLocalClose + (if s.callbacks then owesLocal c' else 0) + s.dueLocal =
    s.onLocalClose + (if s.callbacks then owesLocal c else 0) + s'.dueLocal

/-- A step that neither closes the stream nor tells anybody. -/
theorem Tells.of_eq {s s' : Shared} {c c' : Option ClosePc} (hn : s.state ≠ .halfClosed)
    (hst : s'.state = s.state) (hcb : s'.callbacks = s.callbacks)
    (hnot : s'.notified = s.notified) (hl : s'.onLocalClose = s.onLocalClose)
    (hr : s'.onRemoteClose = s.onRemoteClose) (hro : ∀ pc, c' = some pc → pc.ReadOpen)
    (ho : owes c' = owes c) (hol : owesLocal c' = owesLocal c) : Tells s s' c c' where
  notHalf := by rw [hst]; exact hn
  remote := hr
  callbacks := hcb
  readOpen := hro
  told := by simp only [Shared.due, hst, hnot, ho]
  toldLocal := by simp only [Shared.dueLocal, hst, hcb, hl, hol]

/-- The same for a process that is not in `close` after the step. -/
theorem Tells.of_none {s s' : Shared} {c : Option ClosePc} (hn : s.state ≠ .halfClosed)
    (hst : s'.state = s.state) (hcb : s'.callbacks = s.callbacks)
    (hnot : s'.notified = s.notified) (hl : s'.onLocalClose = s.onLocalClose)
    (hr : s'.onRemoteClose = s.onRemoteClose) (ho : owes c = 0) (hol : owesLocal c = 0) :
    Tells s s' c none :=
  .of_eq hn hst hcb hnot hl hr (fun _ hc => absurd hc (Option.some_ne_none _).symm) ho.symm hol.symm

theorem stepClose_tells {s s' : Shared} {pc pc' : ClosePc} (hn : s.state ≠ .halfClosed)
    (hro : pc.ReadOpen) (h : stepClose s pc = some (s', pc')) :
    Tells s s' (some pc) (some pc') := by
  cases pc with
  | loadState =>
    cases h
    refine Tells.of_eq hn rfl rfl rfl rfl rfl (fun c hc => ?_) ?_ ?_
    · cases hc
      split_ifs with hcl
      · trivial
      · cases hst : s.state with
        | opened => rfl
        | closed => exact absurd hst hcl
        | halfClosed => exact absurd hst hn
    · split_ifs <;> rfl
    · split_ifs <;> rfl
  | cas old =>
    obtain rfl : old = .opened := hro
    rw [stepClose] at h
    split_ifs at h with hst hcb
    · -- the swap that closes the stream
      cases h
      refine ⟨by simp, rfl, rfl, fun c hc => ?_, ?_, ?_⟩
      · cases hc
        rfl
      · simp [Shared.due, hst, owes, ClosePc.owes]
      · simp [Shared.dueLocal, hst, hcb, owesLocal, ClosePc.owesLocal]
    · cases h
      refine ⟨by simp, rfl, rfl, fun c hc => ?_, ?_, ?_⟩
      · cases hc
        rfl
      · simp [Shared.due, hst, owes, ClosePc.owes]
      · simp [Shared.dueLocal, hcb]
    · cases h
      exact Tells.of_eq hn rfl rfl rfl rfl rfl (fun c hc => by cases hc; trivial) rfl rfl
  | wait old =>
    rw [stepClose] at h
    split_ifs at h
    cases h
    exact Tells.of_eq hn rfl rfl rfl rfl rfl (fun c hc => by cases hc; exact hro) rfl rfl
  | clean old =>
    obtain rfl : old = .opened := hro
    cases h
    exact Tells.of_eq hn rfl rfl rfl rfl rfl (fun c hc => by cases hc; trivial) rfl rfl
  | onLocalClose =>
    cases h
    refine ⟨hn, rfl, rfl, fun c hc => by cases hc; trivial, rfl, ?_⟩
    cases hcb : s.callbacks <;> simp [owesLocal, ClosePc.owesLocal, Shared.dueLocal, hcb]
  | notifyPeer =>
    cases h
    refine ⟨hn, rfl, rfl, fun c hc => by cases hc; trivial, ?_, rfl⟩
    simp [owes, ClosePc.owes, Shared.due]
  | returned => cases h

theorem stepCloser_tells {s s' : Shared} {pc pc' : CloserPc} (hn : s.state ≠ .halfClosed)
    (hro : ∀ c, pc.closing = some c → c.ReadOpen) (hok : pc = .casHalf → s.state ≠ .opened)
    (h : stepCloser s pc = some (s', pc')) : Tells s s' pc.closing pc'.closing := by
  cases pc with
  | storeWaitExit =>
    cases h
    exact Tells.of_none hn rfl rfl rfl rfl rfl rfl rfl
  | loadInProcess =>
    cases h
    refine Tells.of_eq hn rfl rfl rfl rfl rfl (fun c hc => ?_) ?_ ?_
    · split_ifs at hc
      · cases hc
      · cases hc
        trivial
    · split_ifs <;> rfl
    · split_ifs <;> rfl
  | casHalf =>
    cases h
    rw [if_neg (hok rfl)]
    exact Tells.of_none hn rfl rfl rfl rfl rfl rfl rfl
  | close c =>
    rcases stepCloser_close h with ⟨rfl, rfl, rfl⟩ | ⟨c', hc, rfl⟩
    · exact Tells.of_none hn rfl rfl rfl rfl rfl rfl rfl
    · exact stepClose_tells hn (hro c rfl) hc
  | returned => cases h

theorem stepGoroutine_tells {s s' : Shared} {n : ℕ} {pc pc' : CallbackPc}
    (hn : s.state ≠ .halfClosed) (hro : ∀ c, pc.closing = some c → c.ReadOpen)
    (h : stepGoroutine s n pc = some (s', pc')) : Tells s s' pc.closing pc'.closing := by
  cases pc with
  | moveTo | onData | storeZero | done =>
    cases h
    exact Tells.of_none hn rfl rfl rfl rfl rfl rfl rfl
  | test | loadCloseState | testUnread =>
    cases h
    refine Tells.of_eq hn rfl rfl rfl rfl rfl (fun c hc => ?_) ?_ ?_
    · split_ifs at hc <;> cases hc
    · split_ifs <;> rfl
    · split_ifs <;> rfl
  | doneAndClose =>
    cases h
    exact Tells.of_eq hn rfl rfl rfl rfl rfl (fun c hc => by cases hc; trivial) rfl rfl
  | close c =>
    rcases stepGoroutine_close h with ⟨rfl, rfl, rfl⟩ | ⟨c', hc, rfl⟩
    · exact Tells.of_none hn rfl rfl rfl rfl rfl rfl rfl
    · exact stepClose_tells hn (hro c rfl) hc
  | casInProcess =>
    rw [stepGoroutine] at h
    split_ifs at h <;> cases h <;>
      exact Tells.of_none hn rfl rfl rfl rfl rfl rfl rfl
  | finished => cases h

theorem stepLoop_tells {s s' : Shared} {pc pc' : LoopPc} {sp : Bool}
    (hn : s.state ≠ .halfClosed) (hpc : pc ≠ .onRemoteClose)
    (hok : pc = .halfCas → s.state ≠ .opened) (h : stepLoop s pc = some (s', pc', sp)) :
    Tells s s' none none ∧ pc' ≠ .onRemoteClose := by
  cases pc with
  | idle => cases h
  | halfCas =>
    rw [stepLoop, if_neg (hok rfl)] at h
    cases h
    exact ⟨Tells.of_none hn rfl rfl rfl rfl rfl rfl rfl, by simp⟩
  | onRemoteClose => exact absurd rfl hpc
  | add | clear | wgAdd | spawn =>
    cases h
    exact ⟨Tells.of_none hn rfl rfl rfl rfl rfl rfl rfl, by simp⟩
  | loadState =>
    cases h
    refine ⟨Tells.of_none hn rfl rfl rfl rfl rfl rfl rfl, ?_⟩
    split_ifs <;> simp
  | casInProcess =>
    rw [stepLoop] at h
    split_ifs at h <;> cases h <;>
      exact ⟨Tells.of_none hn rfl rfl rfl rfl rfl rfl rfl, by simp⟩

/-! ## The invariant -/

/-- The books after a step of one process, whose call of `close` goes from `c` to `c'`. -/
theorem TellInv.of_tells {c c' : Option ClosePc} (h : TellInv s)
    (ht : Tells s.shared t.shared c c') (hloop : t.loop ≠ .onRemoteClose)
    (hclosers : ∀ pc ∈ t.closers, ∀ c, pc.closing = some c → c.ReadOpen)
    (hgoroutines : ∀ pc ∈ t.goroutines, ∀ c, pc.closing = some c → c.ReadOpen)
    (howes : t.owes + owes c = s.owes + owes c')
    (howesLocal : t.owesLocal + owesLocal c = s.owesLocal + owesLocal c') : TellInv t := by
  refine ⟨ht.notHalf, ht.remote.trans h.remote, hloop, hclosers, hgoroutines, ?_, ?_⟩
  · have htold := h.told
    have hstep := ht.told
    omega
  · have htold := h.toldLocal
    have hstep := ht.toldLocal
    rw [ht.callbacks]
    split_ifs at htold hstep ⊢ <;> omega

theorem TellInv.of_closer {s' : Shared} {pc pc' : CloserPc} (h : TellInv s)
    (hk : s.closers[k]? = some pc) (ht : Tells s.shared s' pc.closing pc'.closing) :
    TellInv { s with shared := s', closers := s.closers.set k pc' } := by
  have h1 := sum_map_set hk pc' fun pc => owes pc.closing
  have h2 := sum_map_set hk pc' fun pc => owesLocal pc.closing
  refine h.of_tells ht h.loop (forall_set h.closers ht.readOpen) h.goroutines ?_ ?_
  · simp only [State.owes] at h1 ⊢
    omega
  · simp only [State.owesLocal] at h2 ⊢
    omega

theorem TellInv.of_goroutine {s' : Shared} {pc pc' : CallbackPc} (h : TellInv s)
    (hk : s.goroutines[k]? = some pc) (ht : Tells s.shared s' pc.closing pc'.closing) :
    TellInv { s with shared := s', goroutines := s.goroutines.set k pc' } := by
  have h1 := sum_map_set hk pc' fun pc => owes pc.closing
  have h2 := sum_map_set hk pc' fun pc => owesLocal pc.closing
  refine h.of_tells ht h.loop h.closers (forall_set h.goroutines ht.readOpen) ?_ ?_
  · simp only [State.owes] at h1 ⊢
    omega
  · simp only [State.owesLocal] at h2 ⊢
    omega

/-- New calls of `Close` and new goroutines owe nothing. -/
theorem TellInv.of_loop {s' : Shared} {pc : LoopPc} (h : TellInv s) (cs : List CloserPc)
    (gs : List CallbackPc) (ht : Tells s.shared s' none none) (hpc : pc ≠ .onRemoteClose)
    (hcs : ∀ c ∈ cs, c.closing = none) (hgs : ∀ c ∈ gs, c.closing = none) :
    TellInv { shared := s', closers := s.closers ++ cs, goroutines := s.goroutines ++ gs,
              loop := pc } := by
  refine h.of_tells ht hpc ?_ ?_ ?_ ?_
  · intro c hc pc hpc
    rcases List.mem_append.mp hc with hc | hc
    · exact h.closers c hc pc hpc
    · rw [hcs c hc] at hpc
      cases hpc
  · intro c hc pc hpc
    rcases List.mem_append.mp hc with hc | hc
    · exact h.goroutines c hc pc hpc
    · rw [hgs c hc] at hpc
      cases hpc
  · simp only [State.owes, List.map_append, List.sum_append,
      sum_closing_eq_zero owes rfl hcs, sum_closing_eq_zero owes rfl hgs, Nat.add_zero]
  · simp only [State.owesLocal, List.map_append, List.sum_append,
      sum_closing_eq_zero owesLocal rfl hcs, sum_closing_eq_zero owesLocal rfl hgs, Nat.add_zero]

theorem tellInv_step {a : Act} (h : TellInv s) (hok : StaysOpen s a) (hs : step s a = some t) :
    TellInv t := by
  have hsame : Tells s.shared s.shared none none :=
    Tells.of_none h.notHalf rfl rfl rfl rfl rfl rfl rfl
  cases a with
  | close =>
    cases hs
    have := h.of_loop [if s.shared.callbacks then .storeWaitExit else .loadInProcess] [] hsame
      h.loop (fun c hc => by rw [List.mem_singleton.mp hc]; split_ifs <;> rfl) (by simp)
    rwa [List.append_nil] at this
  | closer k =>
    obtain ⟨pc, hk, hs⟩ := Option.bind_eq_some_iff.mp hs
    obtain ⟨⟨s', pc'⟩, hstep, rfl⟩ := Option.map_eq_some_iff.mp hs
    refine h.of_closer hk (stepCloser_tells h.notHalf (h.closers pc (List.mem_of_getElem? hk))
      (fun hpc => hok (hpc ▸ hk)) hstep)
  | data | peerClose =>
    rw [step] at hs
    split_ifs at hs
    cases hs
    exact ⟨h.notHalf, h.remote, by simp, h.closers, h.goroutines, h.told, h.toldLocal⟩
  | loop =>
    obtain ⟨⟨s', pc, sp⟩, hstep, rfl⟩ := Option.map_eq_some_iff.mp hs
    obtain ⟨ht, hpc⟩ := stepLoop_tells h.notHalf h.loop hok hstep
    have := h.of_loop [] (if sp then [.moveTo] else []) ht hpc (by simp)
      (by cases sp <;> simp [CallbackPc.closing])
    rw [List.append_nil] at this
    cases sp with
    | false => rwa [if_neg Bool.false_ne_true, List.append_nil] at this
    | true => exact this
  | goroutine k n =>
    obtain ⟨pc, hk, hs⟩ := Option.bind_eq_some_iff.mp hs
    obtain ⟨⟨s', pc'⟩, hstep, rfl⟩ := Option.map_eq_some_iff.mp hs
    exact h.of_goroutine hk
      (stepGoroutine_tells h.notHalf (h.goroutines pc (List.mem_of_getElem? hk)) hstep)

theorem tellInv_of_reachable (hs : machine.ReachableWhen StaysOpen s) : TellInv s := by
  refine hs.invariant TellInv (fun s hs => ?_) fun s a t h hok ht => tellInv_step h hok ht
  obtain ⟨callbacks, rfl⟩ := hs
  refine ⟨by simp [initial], rfl, by simp [initial], by simp [initial], by simp [initial], rfl, ?_⟩
  cases callbacks <;> rfl

/-! ## The calls come to their end -/

/-- The steps that continue what runs: no new `Close` and nothing new from the peer. -/
def Act.Continues : Act → Prop
  | .closer _ | .goroutine _ _ | .loop => True
  | .close | .data | .peerClose => False

/-- Nothing runs. -/
structure State.Idle (s : State) : Prop where
  returned : ∀ pc ∈ s.closers, pc = .returned
  finished : ∀ pc ∈ s.goroutines, pc = .finished
  loop : s.loop = .idle

/-- A call of `close` can go on, unless it waits for the goroutines. -/
theorem stepClose_enabled {s : Shared} {pc : ClosePc} (hpc : pc ≠ .returned)
    (hw : ∀ old, pc = .wait old → s.asyncGoroutineWg = 0) : ∃ r, stepClose s pc = some r := by
  cases pc with
  | returned => exact absurd rfl hpc
  | cas old =>
    rw [stepClose]
    split_ifs <;> exact ⟨_, rfl⟩
  | wait old =>
    rw [stepClose, if_pos (hw old rfl)]
    exact ⟨_, rfl⟩
  | _ => exact ⟨_, rfl⟩

theorem stepCloser_enabled {s : Shared} {pc : CloserPc} (hpc : pc ≠ .returned)
    (hw : s.asyncGoroutineWg = 0) : ∃ r, stepCloser s pc = some r := by
  cases pc with
  | returned => exact absurd rfl hpc
  | close c =>
    by_cases hc : c = .returned
    · subst hc
      exact ⟨_, rfl⟩
    · obtain ⟨r, hr⟩ := stepClose_enabled (s := s) hc fun _ _ => hw
      exact ⟨(r.1, .close r.2), by cases c <;> first | exact absurd rfl hc | simp [stepCloser, hr]⟩
  | _ => exact ⟨_, rfl⟩

theorem stepGoroutine_enabled {s : Shared} {pc : CallbackPc} (hpc : pc ≠ .finished)
    (hw : pc.live = 0 → s.asyncGoroutineWg = 0) : ∃ r, stepGoroutine s 0 pc = some r := by
  cases pc with
  | finished => exact absurd rfl hpc
  | close c =>
    by_cases hc : c = .returned
    · subst hc
      exact ⟨_, rfl⟩
    · obtain ⟨r, hr⟩ := stepClose_enabled (s := s) hc fun _ _ => hw rfl
      exact ⟨(r.1, .close r.2),
        by cases c <;> first | exact absurd rfl hc | simp [stepGoroutine, hr]⟩
  | casInProcess =>
    rw [stepGoroutine]
    split_ifs <;> exact ⟨_, rfl⟩
  | _ => exact ⟨_, rfl⟩

theorem stepLoop_enabled {s : Shared} {pc : LoopPc} (hpc : pc ≠ .idle) :
    ∃ r, stepLoop s pc = some r := by
  cases pc with
  | idle => exact absurd rfl hpc
  | halfCas | casInProcess =>
    rw [stepLoop]
    split_ifs <;> exact ⟨_, rfl⟩
  | _ => exact ⟨_, rfl⟩

/-- No deadlock: while something runs, something can go on. -/
theorem idle_or_continues (h : WgInv s) :
    s.Idle ∨ ∃ a t, Act.Continues a ∧ machine.next s a = some t := by
  by_cases hl : s.loop = .idle
  swap
  · obtain ⟨r, hr⟩ := stepLoop_enabled (s := s.shared) hl
    exact .inr ⟨.loop, _, trivial, congrArg (Option.map _) hr⟩
  have goroutine {pc : CallbackPc} (hpc : pc ∈ s.goroutines) (hne : pc ≠ .finished)
      (hw : pc.live = 0 → s.shared.asyncGoroutineWg = 0) :
      ∃ a t, Act.Continues a ∧ machine.next s a = some t := by
    obtain ⟨j, hj⟩ := List.mem_iff_getElem?.mp hpc
    obtain ⟨r, hr⟩ := stepGoroutine_enabled hne hw
    exact ⟨.goroutine j 0, _, trivial, by
      show s.goroutines[j]?.bind _ = _
      rw [hj, Option.bind_some, hr, Option.map_some]⟩
  by_cases hlive : ∃ pc ∈ s.goroutines, pc.live ≠ 0
  · obtain ⟨pc, hpc, hne⟩ := hlive
    refine .inr (goroutine hpc ?_ fun h0 => absurd h0 hne)
    rintro rfl
    exact hne rfl
  · -- every goroutine is done, so nobody has to wait
    have hzero : s.shared.asyncGoroutineWg = 0 := by
      have hsum : (s.goroutines.map CallbackPc.live).sum = 0 := by
        apply List.sum_eq_zero
        intro n hn
        obtain ⟨pc, hpc, rfl⟩ := List.mem_map.mp hn
        by_contra hne
        exact hlive ⟨pc, hpc, hne⟩
      unfold WgInv at h
      rw [h, hsum, hl]
      rfl
    by_cases hc : ∀ pc ∈ s.closers, pc = .returned
    · by_cases hg : ∀ pc ∈ s.goroutines, pc = .finished
      · exact .inl ⟨hc, hg, hl⟩
      · push Not at hg
        obtain ⟨pc, hpc, hne⟩ := hg
        exact .inr (goroutine hpc hne fun _ => hzero)
    · push Not at hc
      obtain ⟨pc, hpc, hne⟩ := hc
      obtain ⟨j, hj⟩ := List.mem_iff_getElem?.mp hpc
      obtain ⟨r, hr⟩ := stepCloser_enabled hne hzero
      exact .inr ⟨.closer j, _, trivial, by
        show s.closers[j]?.bind _ = _
        rw [hj, Option.bind_some, hr, Option.map_some]⟩

/-- Steps that a call of `close` can still take. -/
def ClosePc.rank : ClosePc → ℕ
  | .loadState => 7
  | .cas _ => 6
  | .wait _ => 5
  | .clean _ => 4
  | .onLocalClose => 3
  | .notifyPeer => 2
  | .returned => 1

def CloserPc.rank : CloserPc → ℕ
  | .storeWaitExit => 10
  | .loadInProcess => 9
  | .casHalf => 8
  | .close pc => pc.rank
  | .returned => 0

/-- On a closed stream a goroutine makes at most one more turn for what is unread. -/
def CallbackPc.rank (unread : Bool) : CallbackPc → ℕ
  | .onData | .casInProcess => 13
  | .moveTo => 12
  | .test => if unread then 17 else 11
  | .storeZero => if unread then 16 else 10
  | .loadCloseState => if unread then 15 else 9
  | .doneAndClose => 8
  | .close pc => pc.rank
  | .testUnread => if unread then 14 else 2
  | .done => 1
  | .finished => 0

def LoopPc.rank : LoopPc → ℕ
  | .idle => 0
  | .onRemoteClose | .clear => 1
  | .halfCas | .loadState => 2
  | .add => 3
  | .spawn => 13
  | .wgAdd => 14
  | .casInProcess => 15

/-- Adding a message can give every goroutine another turn, so it comes first. -/
def State.rank (s : State) : ℕ ×ₗ ℕ :=
  toLex (if s.loop = .add then 1 else 0,
    (s.closers.map CloserPc.rank).sum +
      (s.goroutines.map (CallbackPc.rank (decide (0 < s.shared.unread)))).sum + s.loop.rank)

/-- What a step does on a closed stream to the shared state. -/
structure Winds (s s' : Shared) : Prop where
  closed : s'.state = .closed
  unread : s'.unread ≤ s.unread

theorem stepClose_rank {s s' : Shared} {pc pc' : ClosePc} (hst : s.state = .closed)
    (h : stepClose s pc = some (s', pc')) : Winds s s' ∧ pc'.rank < pc.rank := by
  cases pc with
  | loadState =>
    cases h
    rw [if_pos hst]
    exact ⟨⟨hst, le_rfl⟩, by decide⟩
  | cas old =>
    rw [stepClose] at h
    split_ifs at h <;> cases h
    · exact ⟨⟨rfl, le_rfl⟩, Nat.lt_succ_self 5⟩
    · exact ⟨⟨rfl, le_rfl⟩, show 4 < 6 by decide⟩
    · exact ⟨⟨hst, le_rfl⟩, show 1 < 6 by decide⟩
  | wait old =>
    rw [stepClose] at h
    split_ifs at h
    cases h
    exact ⟨⟨hst, le_rfl⟩, Nat.lt_succ_self 4⟩
  | clean old =>
    cases h
    refine ⟨⟨hst, Nat.zero_le _⟩, ?_⟩
    show ClosePc.rank _ < 4
    split_ifs <;> decide
  | onLocalClose | notifyPeer =>
    cases h
    exact ⟨⟨hst, le_rfl⟩, by decide⟩
  | returned => cases h

theorem stepCloser_rank {s s' : Shared} {pc pc' : CloserPc} (hst : s.state = .closed)
    (h : stepCloser s pc = some (s', pc')) : Winds s s' ∧ pc'.rank < pc.rank := by
  cases pc with
  | storeWaitExit =>
    cases h
    exact ⟨⟨hst, le_rfl⟩, by decide⟩
  | loadInProcess =>
    cases h
    refine ⟨⟨hst, le_rfl⟩, ?_⟩
    split_ifs <;> decide
  | casHalf =>
    cases h
    rw [if_neg (by rw [hst]; decide)]
    exact ⟨⟨hst, le_rfl⟩, by decide⟩
  | close c =>
    rcases stepCloser_close h with ⟨rfl, rfl, rfl⟩ | ⟨c', hc, rfl⟩
    · exact ⟨⟨hst, le_rfl⟩, by decide⟩
    · exact stepClose_rank hst hc
  | returned => cases h

theorem stepGoroutine_rank {s s' : Shared} {n : ℕ} {pc pc' : CallbackPc}
    (hst : s.state = .closed) (h : stepGoroutine s n pc = some (s', pc')) :
    Winds s s' ∧ pc'.rank (decide (0 < s'.unread)) < pc.rank (decide (0 < s.unread)) := by
  cases pc with
  | moveTo =>
    cases h
    exact ⟨⟨hst, Nat.zero_le _⟩, show 11 < 12 by decide⟩
  | test =>
    cases h
    refine ⟨⟨hst, le_rfl⟩, ?_⟩
    rw [if_neg (by rw [hst]; simp)]
    cases decide (0 < s.unread) <;> decide
  | onData =>
    cases h
    exact ⟨⟨hst, le_rfl⟩, show 12 < 13 by decide⟩
  | storeZero =>
    cases h
    refine ⟨⟨hst, le_rfl⟩, ?_⟩
    show CallbackPc.rank (decide (0 < s.unread)) _ < _
    cases decide (0 < s.unread) <;> decide
  | loadCloseState =>
    cases h
    refine ⟨⟨hst, le_rfl⟩, ?_⟩
    split_ifs <;> cases decide (0 < s.unread) <;> decide
  | doneAndClose =>
    cases h
    exact ⟨⟨hst, le_rfl⟩, show 7 < 8 by decide⟩
  | close c =>
    rcases stepGoroutine_close h with ⟨rfl, rfl, rfl⟩ | ⟨c', hc, rfl⟩
    · exact ⟨⟨hst, le_rfl⟩, show 0 < 1 by decide⟩
    · exact stepClose_rank hst hc
  | testUnread =>
    cases h
    refine ⟨⟨hst, le_rfl⟩, ?_⟩
    by_cases hu : 0 < s.unread
    · rw [if_pos hu, decide_eq_true hu]
      decide
    · rw [if_neg hu, decide_eq_false hu]
      decide
  | casInProcess =>
    rw [stepGoroutine] at h
    split_ifs at h <;> cases h
    · exact ⟨⟨hst, le_rfl⟩, show 1 < 13 by decide⟩
    · exact ⟨⟨hst, le_rfl⟩, show 12 < 13 by decide⟩
  | done =>
    cases h
    exact ⟨⟨hst, le_rfl⟩, show 0 < 1 by decide⟩
  | finished => cases h

/-- A goroutine that is started has rank 12. -/
theorem stepLoop_rank {s s' : Shared} {pc pc' : LoopPc} {sp : Bool} (hst : s.state = .closed)
    (h : stepLoop s pc = some (s', pc', sp)) :
    s'.state = .closed ∧ pc' ≠ .add ∧
      (pc ≠ .add → s'.unread ≤ s.unread ∧ pc'.rank + (if sp then 12 else 0) < pc.rank) := by
  cases pc with
  | idle => cases h
  | halfCas =>
    rw [stepLoop, if_neg (by rw [hst]; decide)] at h
    cases h
    exact ⟨hst, by decide, fun _ => ⟨le_rfl, by decide⟩⟩
  | add =>
    cases h
    exact ⟨hst, by decide, fun hne => absurd rfl hne⟩
  | loadState =>
    cases h
    rw [if_pos hst]
    exact ⟨hst, by decide, fun _ => ⟨le_rfl, by decide⟩⟩
  | casInProcess =>
    rw [stepLoop] at h
    split_ifs at h <;> cases h <;> exact ⟨hst, by decide, fun _ => ⟨le_rfl, by decide⟩⟩
  | clear =>
    cases h
    exact ⟨hst, by decide, fun _ => ⟨Nat.zero_le _, by decide⟩⟩
  | onRemoteClose | wgAdd | spawn =>
    cases h
    exact ⟨hst, by decide, fun _ => ⟨le_rfl, by decide⟩⟩

theorem CallbackPc.rank_mono {n m : ℕ} (h : m ≤ n) (pc : CallbackPc) :
    pc.rank (decide (0 < m)) ≤ pc.rank (decide (0 < n)) := by
  by_cases hm : 0 < m
  · rw [decide_eq_true hm, decide_eq_true (show 0 < n by omega)]
  · rw [decide_eq_false hm]
    cases decide (0 < n) <;> cases pc <;> simp [CallbackPc.rank]

theorem sum_rank_mono {n m : ℕ} (h : m ≤ n) (l : List CallbackPc) :
    (l.map (CallbackPc.rank (decide (0 < m)))).sum ≤
      (l.map (CallbackPc.rank (decide (0 < n)))).sum :=
  List.sum_le_sum fun pc _ => pc.rank_mono h

/-- **Step.** On a closed stream every step of what runs makes the rank smaller. -/
theorem rank_lt {a : Act} (hst : s.shared.state = .closed) (ha : a.Continues)
    (hs : step s a = some t) : t.shared.state = .closed ∧ t.rank < s.rank := by
  simp only [State.rank, Prod.Lex.toLex_lt_toLex]
  cases a with
  | close | data | peerClose => exact ha.elim
  | closer k =>
    obtain ⟨pc, hk, hs⟩ := Option.bind_eq_some_iff.mp hs
    obtain ⟨⟨s', pc'⟩, hstep, rfl⟩ := Option.map_eq_some_iff.mp hs
    obtain ⟨hw, hlt⟩ := stepCloser_rank hst hstep
    have hsum := sum_map_set hk pc' CloserPc.rank
    have hmono := sum_rank_mono hw.unread s.goroutines
    refine ⟨hw.closed, .inr ⟨rfl, ?_⟩⟩
    simp only [] at hsum hmono hlt ⊢
    omega
  | goroutine k n =>
    obtain ⟨pc, hk, hs⟩ := Option.bind_eq_some_iff.mp hs
    obtain ⟨⟨s', pc'⟩, hstep, rfl⟩ := Option.map_eq_some_iff.mp hs
    obtain ⟨hw, hlt⟩ := stepGoroutine_rank hst hstep
    have hset := ((set_perm_cons hk pc').map (CallbackPc.rank (decide (0 < s'.unread)))).sum_eq
    have hold := ((cons_eraseIdx_perm hk).map (CallbackPc.rank (decide (0 < s.shared.unread)))).sum_eq
    have hmono := sum_rank_mono hw.unread (s.goroutines.eraseIdx k)
    rw [List.map_cons, List.sum_cons] at hset hold
    refine ⟨hw.closed, .inr ⟨rfl, ?_⟩⟩
    simp only [] at hset hold hmono hlt ⊢
    omega
  | loop =>
    obtain ⟨⟨s', pc, sp⟩, hstep, rfl⟩ := Option.map_eq_some_iff.mp hs
    obtain ⟨hcl, hpc, hrank⟩ := stepLoop_rank hst hstep
    refine ⟨hcl, ?_⟩
    by_cases hadd : s.loop = .add
    · left
      rw [if_pos hadd, if_neg hpc]
      exact Nat.zero_lt_one
    · right
      obtain ⟨hun, hlt⟩ := hrank hadd
      have hmono := sum_rank_mono hun s.goroutines
      refine ⟨by rw [if_neg hadd, if_neg hpc], ?_⟩
      cases sp with
      | false =>
        simp only [Bool.false_eq_true, if_false] at hlt hmono ⊢
        omega
      | true =>
        have : CallbackPc.moveTo.rank (decide (0 < s'.unread)) = 12 := rfl
        simp only [if_true, List.map_append, List.map_singleton, List.sum_append,
          List.sum_singleton] at hlt hmono ⊢
        omega

/-! ## Runs -/

/-- The peer was told once, `OnLocalClose` was called once if there are callbacks, and
    `OnRemoteClose` was not. -/
structure State.Told (s : State) : Prop where
  closed : s.shared.state = .closed
  notified : s.shared.notified = 1
  onLocalClose : s.shared.onLocalClose = if s.shared.callbacks then 1 else 0
  onRemoteClose : s.shared.onRemoteClose = 0

theorem TellInv.told_of_owes (h : TellInv s) (hst : s.shared.state = .closed)
    (ho : s.owes = 0) : s.Told := by
  have h1 := h.told
  have h2 := h.toldLocal
  have hol : s.owesLocal = 0 := by
    have := s.owesLocal_le
    omega
  rw [ho, Shared.due, if_pos hst] at h1
  rw [hol, Shared.dueLocal] at h2
  refine ⟨hst, h1, ?_, h.remote⟩
  cases hcb : s.shared.callbacks <;> simp_all

/-- Nothing runs, so nothing is owed. -/
theorem State.Idle.owes (h : s.Idle) : s.owes = 0 := by
  unfold State.owes
  rw [sum_closing_eq_zero Stream.owes rfl fun pc hpc => by rw [h.returned pc hpc]; rfl,
    sum_closing_eq_zero Stream.owes rfl fun pc hpc => by rw [h.finished pc hpc]; rfl]

/-- On a closed stream the condition holds of every step. -/
theorem staysOpen_of_closed (hst : s.shared.state = .closed) (a : Act) : StaysOpen s a := by
  have hne : s.shared.state ≠ .opened := by rw [hst]; decide
  cases a with
  | closer k => exact fun _ => hne
  | loop => exact fun _ => hne
  | _ => trivial

/-- Two calls of `Close` outside of `OnData`, the second before the first has told the
    peer. -/
def twoClosesRun : List Act :=
  [.close, .closer 0, .closer 0, .closer 0, .closer 0, .close, .closer 1, .closer 1, .closer 1,
    .closer 1, .closer 0, .closer 0, .closer 0, .closer 0, .closer 0]

end Shmipc.Stream
