import Shmipc.Stream.Machine

/-!
# A local close and the state it leaves

`close` reads the state and then swaps it for `streamClosed`; a swap that fails
is ignored. It is meant to fail only when another `close` was first, but between
the read and the swap the state can also go from opened to half closed: in
`halfClose`, or in a `Close` that leaves the work to a callback goroutine.

Results:
* `close_leaves_half_closed`: a run in which `Close` returns and the stream stays
  half closed in `session.streams`.
* `closed_of_quiet`: in every run in which the state does not go to half closed
  between the read and the swap of a `close` (`SwapOk`), once every `Close` has
  returned and no callback goroutine is left, the stream is closed and out of
  `session.streams`.
-/

namespace Shmipc.Stream

open Common

variable {s t : State} {k : ℕ}

/-! ## The condition -/

/-- Some call of `close` is at `pc`. -/
def State.InClose (s : State) (pc : ClosePc) : Prop :=
  .close pc ∈ s.closers ∨ .close pc ∈ s.goroutines

instance (s : State) (pc : ClosePc) : Decidable (s.InClose pc) :=
  inferInstanceAs (Decidable (_ ∨ _))

/-- The condition on a step: the state does not go from opened to half closed, by
    the event loop or by a `Close`, while a `close` that has read `streamOpened`
    is about to swap it. -/
def SwapOk (s : State) : Act → Prop
  | .loop => s.loop = .halfCas → s.shared.state = .opened → ¬ s.InClose (.cas .opened)
  | .closer k => s.closers[k]? = some .casHalf → s.shared.state = .opened →
      ¬ s.InClose (.cas .opened)
  | _ => True

instance (s : State) : ∀ a, Decidable (SwapOk s a)
  | .loop | .closer _ => inferInstanceAs (Decidable (_ → _))
  | .close | .data | .peerClose | .goroutine _ _ => isTrue trivial

/-! ## Positions -/

/-- What a call of `close` at this position knows of the state. -/
def ClosePc.Ok (st : StreamState) : ClosePc → Prop
  | .loadState => True
  | .cas old => st = old ∨ st = .closed
  | _ => st = .closed

/-- The call is going to close the stream unless another one does. -/
def ClosePc.Trying : ClosePc → Prop
  | .loadState | .cas _ => True
  | _ => False

/-- The call has closed the stream and is going to remove it. -/
def ClosePc.Cleaning : ClosePc → Prop
  | .wait _ | .clean _ => True
  | _ => False

/-- The goroutine holds `callbackInProcess`. -/
def CallbackPc.Holds : CallbackPc → Prop
  | .moveTo | .test | .onData | .storeZero => True
  | _ => False

/-- The goroutine is going to read `callbackCloseState`, or has read
    `callbackWaitExit` and tries to close. -/
def CallbackPc.Tries : CallbackPc → Prop
  | .moveTo | .test | .onData | .storeZero | .loadCloseState | .doneAndClose => True
  | .close pc => pc.Trying
  | _ => False

/-- The call of `Close` has decided who closes the stream. -/
def CloserPc.Decided : CloserPc → Prop
  | .casHalf | .close _ | .returned => True
  | _ => False

/-- The call of `Close` itself tries to close the stream. -/
def CloserPc.Tries : CloserPc → Prop
  | .close pc => pc.Trying
  | _ => False

theorem CallbackPc.Holds.tries {pc : CallbackPc} (h : pc.Holds) : pc.Tries := by
  cases pc <;> first | exact trivial | exact h.elim

/-- The event loop is starting a callback goroutine. -/
def LoopPc.Starting : LoopPc → Prop
  | .wgAdd | .spawn => True
  | _ => False

/-- The stream is closed, or somebody is going to close it. -/
def State.Owed (s : State) : Prop :=
  s.shared.state = .closed ∨ (∃ pc ∈ s.closers, pc.Tries) ∨ (∃ pc ∈ s.goroutines, pc.Tries) ∨
    s.loop.Starting

/-! ## What a step of `close` can do -/

structure CloseStep (s s' : Shared) (pc pc' : ClosePc) : Prop where
  callbacks : s'.callbacks = s.callbacks
  waitExit : s'.waitExit = s.waitExit
  inProcess : s'.callbackInProcess = s.callbackInProcess
  state : s'.state = s.state ∨ s'.state = .closed
  ok : pc'.Ok s'.state
  won : s.state ≠ .closed → s'.state = .closed → pc'.Cleaning
  cleaned : s'.inStreams = false ∨ s'.inStreams = s.inStreams ∧ (pc.Cleaning → pc'.Cleaning)
  trying : pc.Trying → pc'.Trying ∨ s'.state = .closed

theorem stepClose_closeStep {s s' : Shared} {pc pc' : ClosePc} (hok : pc.Ok s.state)
    (h : stepClose s pc = some (s', pc')) : CloseStep s s' pc pc' := by
  cases pc with
  | loadState =>
    cases h
    refine ⟨rfl, rfl, rfl, .inl rfl, ?_, fun h1 h2 => absurd h2 h1,
      .inr ⟨rfl, fun hc => hc.elim⟩, fun _ => ?_⟩
    · split_ifs with hst
      · exact hst
      · exact .inl rfl
    · split_ifs with hst
      · exact .inr hst
      · exact .inl trivial
  | cas old =>
    rw [stepClose] at h
    split_ifs at h with hst hcb
    · cases h
      exact ⟨rfl, rfl, rfl, .inr rfl, rfl, fun _ _ => trivial, .inr ⟨rfl, fun _ => trivial⟩,
        fun _ => .inr rfl⟩
    · cases h
      exact ⟨rfl, rfl, rfl, .inr rfl, rfl, fun _ _ => trivial, .inr ⟨rfl, fun _ => trivial⟩,
        fun _ => .inr rfl⟩
    · cases h
      have hcl : s.state = .closed := hok.resolve_left hst
      exact ⟨rfl, rfl, rfl, .inl rfl, hcl, fun h1 => absurd hcl h1, .inr ⟨rfl, fun hc => hc.elim⟩,
        fun _ => .inr hcl⟩
  | wait old =>
    rw [stepClose] at h
    split_ifs at h
    cases h
    exact ⟨rfl, rfl, rfl, .inl rfl, hok, fun h1 => absurd hok h1, .inr ⟨rfl, fun _ => trivial⟩,
      fun hc => hc.elim⟩
  | clean old =>
    cases h
    refine ⟨rfl, rfl, rfl, .inl rfl, ?_, fun h1 => absurd hok h1, .inl rfl, fun hc => hc.elim⟩
    split_ifs <;> exact hok
  | onLocalClose | notifyPeer =>
    cases h
    exact ⟨rfl, rfl, rfl, .inl rfl, hok, fun h1 => absurd hok h1, .inr ⟨rfl, fun hc => hc.elim⟩,
      fun hc => hc.elim⟩
  | returned => cases h

theorem stepCloser_close {s s' : Shared} {pc : ClosePc} {pc' : CloserPc}
    (h : stepCloser s (.close pc) = some (s', pc')) :
    (pc = .returned ∧ s' = s ∧ pc' = .returned) ∨
      ∃ c, stepClose s pc = some (s', c) ∧ pc' = .close c := by
  cases pc with
  | returned => cases h; exact .inl ⟨rfl, rfl, rfl⟩
  | _ =>
    simp only [stepCloser, Option.map_eq_some_iff] at h
    obtain ⟨⟨s₁, c⟩, hc, he⟩ := h
    cases he
    exact .inr ⟨c, hc, rfl⟩

theorem stepGoroutine_close {s s' : Shared} {n : ℕ} {pc : ClosePc} {pc' : CallbackPc}
    (h : stepGoroutine s n (.close pc) = some (s', pc')) :
    (pc = .returned ∧ s' = s ∧ pc' = .finished) ∨
      ∃ c, stepClose s pc = some (s', c) ∧ pc' = .close c := by
  cases pc with
  | returned => cases h; exact .inl ⟨rfl, rfl, rfl⟩
  | _ =>
    simp only [stepGoroutine, Option.map_eq_some_iff] at h
    obtain ⟨⟨s₁, c⟩, hc, he⟩ := h
    cases he
    exact .inr ⟨c, hc, rfl⟩

/-! ## The invariant -/

/-- The positions of `close` inside those of its two callers. -/
def CloserPc.Ok (st : StreamState) : CloserPc → Prop
  | .close pc => pc.Ok st
  | _ => True

def CallbackPc.Ok (st : StreamState) : CallbackPc → Prop
  | .close pc => pc.Ok st
  | _ => True

def CloserPc.Cleaning : CloserPc → Prop
  | .close pc => pc.Cleaning
  | _ => False

def CallbackPc.Cleaning : CallbackPc → Prop
  | .close pc => pc.Cleaning
  | _ => False

/-- The stream is out of `session.streams`, or a `close` is going to remove it. -/
def State.Removed (s : State) : Prop :=
  s.shared.inStreams = false ∨ (∃ pc ∈ s.closers, pc.Cleaning) ∨
    ∃ pc ∈ s.goroutines, pc.Cleaning

structure SwapInv (s : State) : Prop where
  /-- Without callbacks there is no goroutine, now or later. -/
  noCallbacks : s.shared.callbacks = false →
    s.goroutines = [] ∧ s.shared.callbackInProcess = false ∧ ¬ s.loop.Starting ∧
      s.loop ≠ .casInProcess
  /-- With callbacks, a `Close` first leaves word for their goroutine. -/
  waitExit : s.shared.callbacks = true → ∀ pc ∈ s.closers,
    pc = .storeWaitExit ∨ s.shared.waitExit = true
  /-- `callbackInProcess` has a holder, who reads `callbackCloseState` afterwards. -/
  holder : s.shared.callbackInProcess = true →
    (∃ pc ∈ s.goroutines, pc.Holds) ∨ s.loop.Starting
  closersOk : ∀ pc ∈ s.closers, pc.Ok s.shared.state
  goroutinesOk : ∀ pc ∈ s.goroutines, pc.Ok s.shared.state
  removed : s.shared.state = .closed → s.Removed
  owed : ∀ pc ∈ s.closers, pc.Decided → s.Owed

theorem swapInv_initial {callbacks : Bool} : SwapInv (initial callbacks) where
  noCallbacks _ := ⟨rfl, rfl, id, by simp [initial]⟩
  waitExit _ pc h := by simp [initial] at h
  holder h := by simp [initial] at h
  closersOk pc h := by simp [initial] at h
  goroutinesOk pc h := by simp [initial] at h
  removed h := by simp [initial] at h
  owed pc h := by simp [initial] at h

theorem ClosePc.Ok.closed {st : StreamState} {pc : ClosePc} (h : pc.Ok st) : pc.Ok .closed := by
  cases pc <;> first | exact trivial | exact .inr rfl | rfl

/-- A change of the state by a step of `close` is fine with every other call. -/
theorem ClosePc.Ok.of_state {st st' : StreamState} {pc : ClosePc} (h : pc.Ok st)
    (hst : st' = st ∨ st' = .closed) : pc.Ok st' := by
  rcases hst with rfl | rfl
  · exact h
  · exact h.closed

theorem CloserPc.Ok.of_state {st st' : StreamState} {pc : CloserPc} (h : pc.Ok st)
    (hst : st' = st ∨ st' = .closed) : pc.Ok st' := by
  cases pc with
  | close pc => exact ClosePc.Ok.of_state h hst
  | _ => trivial

theorem CallbackPc.Ok.of_state {st st' : StreamState} {pc : CallbackPc} (h : pc.Ok st)
    (hst : st' = st ∨ st' = .closed) : pc.Ok st' := by
  cases pc with
  | close pc => exact ClosePc.Ok.of_state h hst
  | _ => trivial

/-- With the state opened and nobody about to swap it, no call of `close` is past
    its read, so the state may go to half closed. -/
theorem ClosePc.Ok.half {pc : ClosePc} (h : pc.Ok .opened) (hne : pc ≠ .cas .opened) :
    pc.Ok .halfClosed := by
  cases pc with
  | loadState => trivial
  | cas old =>
    rcases h with rfl | h
    · exact absurd rfl hne
    · cases h
  | _ => cases h

/-- From opened to half closed, under the condition. -/
theorem SwapInv.ok_half (h : SwapInv s) (hst : s.shared.state = .opened)
    (hno : ¬ s.InClose (.cas .opened)) :
    (∀ pc ∈ s.closers, pc.Ok .halfClosed) ∧ ∀ pc ∈ s.goroutines, pc.Ok .halfClosed := by
  constructor
  · intro pc hpc
    have hok := h.closersOk pc hpc
    rw [hst] at hok
    cases pc with
    | close c => exact ClosePc.Ok.half hok fun he => hno (.inl (he ▸ hpc))
    | _ => trivial
  · intro pc hpc
    have hok := h.goroutinesOk pc hpc
    rw [hst] at hok
    cases pc with
    | close c => exact ClosePc.Ok.half hok fun he => hno (.inr (he ▸ hpc))
    | _ => trivial

/-! ## The calls of `Close` -/

/-- What a step of `Close` keeps, given what it does to the shared state. -/
theorem SwapInv.of_closer {s' : Shared} {pc pc' : CloserPc} (h : SwapInv s)
    (hk : s.closers[k]? = some pc) (hcb : s'.callbacks = s.shared.callbacks)
    (hproc : s'.callbackInProcess = s.shared.callbackInProcess)
    (hwe : s.shared.callbacks = true → s'.waitExit = true)
    (hclosers : ∀ pc ∈ s.closers, pc.Ok s'.state) (hgor : ∀ pc ∈ s.goroutines, pc.Ok s'.state)
    (hok : pc'.Ok s'.state) (hclosed : s.shared.state = .closed → s'.state = .closed)
    (hwon : s.shared.state ≠ .closed → s'.state = .closed → pc'.Cleaning)
    (hclean : s'.inStreams = false ∨
      s'.inStreams = s.shared.inStreams ∧ (pc.Cleaning → pc'.Cleaning))
    (hdec : pc'.Decided → pc.Decided ∨ pc'.Tries ∨ s'.state = .closed ∨
      s.shared.callbackInProcess = true)
    (htry : pc.Tries → pc'.Tries ∨ s'.state = .closed) :
    SwapInv { s with shared := s', closers := s.closers.set k pc' } := by
  have hpc : pc ∈ s.closers := List.mem_of_getElem? hk
  have howed : s.Owed → State.Owed { s with shared := s', closers := s.closers.set k pc' } := by
    rintro (hst | htries | hrest)
    · exact .inl (hclosed hst)
    · by_cases hcl : s'.state = .closed
      · exact .inl hcl
      · exact .inr (.inl (exists_set hk htries fun ht => (htry ht).resolve_right hcl))
    · exact .inr (.inr hrest)
  refine ⟨by rw [hcb, hproc]; exact h.noCallbacks, fun hc => ?_, by rw [hproc]; exact h.holder,
    forall_set hclosers hok, hgor, fun hst => ?_, forall_set (fun q hq hd => ?_) fun hd => ?_⟩
  · rw [hcb] at hc
    exact forall_set (fun q _ => .inr (hwe hc)) (.inr (hwe hc))
  · rcases hclean with hin | ⟨hin, hcl⟩
    · exact .inl hin
    by_cases hold : s.shared.state = .closed
    · rcases h.removed hold with hr | hr | hr
      · exact .inl (hin.trans hr)
      · exact .inr (.inl (exists_set hk hr hcl))
      · exact .inr (.inr hr)
    · exact .inr (.inl ⟨pc', mem_set_self hk pc', hwon hold hst⟩)
  · exact howed (h.owed q hq hd)
  · rcases hdec hd with hd | ht | hcl | hproc'
    · exact howed (h.owed pc hpc hd)
    · exact .inr (.inl ⟨pc', mem_set_self hk pc', ht⟩)
    · exact .inl hcl
    · rcases h.holder hproc' with ⟨g, hg, hh⟩ | hl
      · exact .inr (.inr (.inl ⟨g, hg, hh.tries⟩))
      · exact .inr (.inr (.inr hl))

theorem swapInv_stepCloser {s' : Shared} {pc pc' : CloserPc} (h : SwapInv s)
    (hk : s.closers[k]? = some pc) (hok : SwapOk s (.closer k))
    (hs : stepCloser s.shared pc = some (s', pc')) :
    SwapInv { s with shared := s', closers := s.closers.set k pc' } := by
  have hpc : pc ∈ s.closers := List.mem_of_getElem? hk
  have hwe : pc ≠ .storeWaitExit → s.shared.callbacks = true → s.shared.waitExit = true :=
    fun hne hc => (h.waitExit hc pc hpc).resolve_left hne
  cases pc with
  | storeWaitExit =>
    cases hs
    exact h.of_closer hk rfl rfl (fun _ => rfl) h.closersOk h.goroutinesOk trivial id
      (fun h1 h2 => absurd h2 h1) (.inr ⟨rfl, id⟩) (fun hd => hd.elim) (fun ht => ht.elim)
  | loadInProcess =>
    cases hs
    refine h.of_closer hk rfl rfl (hwe (by simp)) h.closersOk h.goroutinesOk ?_ id
      (fun h1 h2 => absurd h2 h1) (.inr ⟨rfl, fun hc => hc.elim⟩) (fun hd => ?_) (fun ht => ht.elim)
    · split_ifs <;> trivial
    · cases hp : s.shared.callbackInProcess with
      | true => exact .inr (.inr (.inr rfl))
      | false => exact .inr (.inl trivial)
  | casHalf =>
    cases hs
    cases hst : s.shared.state with
    | opened =>
      obtain ⟨h1, h2⟩ := h.ok_half hst (hok hk hst)
      rw [if_pos rfl]
      exact h.of_closer hk rfl rfl (hwe (by simp)) h1 h2 trivial (by simp [hst])
        (fun _ hc => nomatch hc) (.inr ⟨rfl, id⟩) (fun _ => .inl trivial) (fun ht => ht.elim)
    | closed | halfClosed =>
      rw [if_neg (by simp)]
      exact h.of_closer hk rfl rfl (hwe (by simp)) h.closersOk h.goroutinesOk trivial id
        (fun h1 h2 => absurd h2 h1) (.inr ⟨rfl, id⟩) (fun _ => .inl trivial) (fun ht => ht.elim)
  | close c =>
    rcases stepCloser_close hs with ⟨rfl, rfl, rfl⟩ | ⟨c', hc, rfl⟩
    · exact h.of_closer hk rfl rfl (hwe (by simp)) h.closersOk h.goroutinesOk trivial id
        (fun h1 h2 => absurd h2 h1) (.inr ⟨rfl, fun hc => hc.elim⟩) (fun _ => .inl trivial)
        (fun ht => ht.elim)
    · have hstep := stepClose_closeStep (h.closersOk _ hpc) hc
      refine h.of_closer hk hstep.callbacks hstep.inProcess
        (fun hcb => hstep.waitExit.trans (hwe (by simp) hcb))
        (fun q hq => (h.closersOk q hq).of_state hstep.state)
        (fun q hq => (h.goroutinesOk q hq).of_state hstep.state) hstep.ok (fun hst => ?_)
        hstep.won hstep.cleaned (fun _ => .inl trivial) hstep.trying
      exact hstep.state.elim (fun he => he.trans hst) id
  | returned => cases hs

/-! ## The callback goroutines -/

theorem SwapInv.of_goroutine {s' : Shared} {pc pc' : CallbackPc} (h : SwapInv s)
    (hk : s.goroutines[k]? = some pc) (hcb : s'.callbacks = s.shared.callbacks)
    (hwe : s'.waitExit = s.shared.waitExit) (hst : s'.state = s.shared.state ∨ s'.state = .closed)
    (hproc : s'.callbackInProcess = true →
      pc'.Holds ∨ s.shared.callbackInProcess = true ∧ (pc.Holds → pc'.Holds))
    (hok : pc'.Ok s'.state)
    (hwon : s.shared.state ≠ .closed → s'.state = .closed → pc'.Cleaning)
    (hclean : s'.inStreams = false ∨
      s'.inStreams = s.shared.inStreams ∧ (pc.Cleaning → pc'.Cleaning))
    (htry : s.shared.waitExit = true → pc.Tries → pc'.Tries ∨ s'.state = .closed) :
    SwapInv { s with shared := s', goroutines := s.goroutines.set k pc' } := by
  have hpc : pc ∈ s.goroutines := List.mem_of_getElem? hk
  have hcallbacks : s.shared.callbacks = true := by
    by_contra hc
    obtain ⟨hnil, -⟩ := h.noCallbacks (by simpa using hc)
    rw [hnil] at hpc
    cases hpc
  refine ⟨fun hc => ?_, by rw [hcb, hwe]; exact h.waitExit, fun hp => ?_,
    fun q hq => (h.closersOk q hq).of_state hst,
    forall_set (fun q hq => (h.goroutinesOk q hq).of_state hst) hok, fun hcl => ?_,
    fun q hq hd => ?_⟩
  · rw [hcb, hcallbacks] at hc; cases hc
  · rcases hproc hp with hh | ⟨hp, hh⟩
    · exact .inl ⟨pc', mem_set_self hk pc', hh⟩
    · rcases h.holder hp with hg | hl
      · exact .inl (exists_set hk hg hh)
      · exact .inr hl
  · rcases hclean with hin | ⟨hin, hcl'⟩
    · exact .inl hin
    by_cases hold : s.shared.state = .closed
    · rcases h.removed hold with hr | hr | hr
      · exact .inl (hin.trans hr)
      · exact .inr (.inl hr)
      · exact .inr (.inr (exists_set hk hr hcl'))
    · exact .inr (.inr ⟨pc', mem_set_self hk pc', hwon hold hcl⟩)
  · -- a `Close` has decided, so the goroutine reads `callbackWaitExit`
    have hne : q ≠ .storeWaitExit := by rintro rfl; exact hd
    have hwait := (h.waitExit hcallbacks q hq).resolve_left hne
    rcases h.owed q hq hd with hold | hc | hg | hl
    · exact .inl (hst.elim (fun he => he.trans hold) id)
    · exact .inr (.inl hc)
    · by_cases hcl : s'.state = .closed
      · exact .inl hcl
      · exact .inr (.inr (.inl (exists_set hk hg fun ht => (htry hwait ht).resolve_right hcl)))
    · exact .inr (.inr (.inr hl))

theorem swapInv_stepGoroutine {s' : Shared} {n : ℕ} {pc pc' : CallbackPc} (h : SwapInv s)
    (hk : s.goroutines[k]? = some pc) (hs : stepGoroutine s.shared n pc = some (s', pc')) :
    SwapInv { s with shared := s', goroutines := s.goroutines.set k pc' } := by
  have hpc : pc ∈ s.goroutines := List.mem_of_getElem? hk
  cases pc with
  | moveTo | onData =>
    cases hs
    exact h.of_goroutine hk rfl rfl (.inl rfl) (fun _ => .inl trivial) trivial
      (fun h1 h2 => absurd h2 h1) (.inr ⟨rfl, id⟩) (fun _ _ => .inl trivial)
  | test =>
    cases hs
    refine h.of_goroutine hk rfl rfl (.inl rfl) (fun _ => .inl ?_) ?_ (fun h1 h2 => absurd h2 h1)
      (.inr ⟨rfl, fun hc => hc.elim⟩) (fun _ _ => .inl ?_) <;> split_ifs <;> trivial
  | storeZero =>
    cases hs
    exact h.of_goroutine hk rfl rfl (.inl rfl) (fun hp => nomatch hp) trivial
      (fun h1 h2 => absurd h2 h1) (.inr ⟨rfl, id⟩) (fun _ _ => .inl trivial)
  | loadCloseState =>
    cases hs
    refine h.of_goroutine hk rfl rfl (.inl rfl) (fun hp => .inr ⟨hp, fun hc => hc.elim⟩) ?_
      (fun h1 h2 => absurd h2 h1) (.inr ⟨rfl, fun hc => hc.elim⟩) (fun hw _ => .inl ?_)
    · split_ifs <;> trivial
    · rw [if_pos hw]; trivial
  | doneAndClose =>
    cases hs
    exact h.of_goroutine hk rfl rfl (.inl rfl) (fun hp => .inr ⟨hp, fun hc => hc.elim⟩) trivial
      (fun h1 h2 => absurd h2 h1) (.inr ⟨rfl, id⟩) (fun _ _ => .inl trivial)
  | close c =>
    rcases stepGoroutine_close hs with ⟨rfl, rfl, rfl⟩ | ⟨c', hc, rfl⟩
    · exact h.of_goroutine hk rfl rfl (.inl rfl) (fun hp => .inr ⟨hp, fun hc => hc.elim⟩) trivial
        (fun h1 h2 => absurd h2 h1) (.inr ⟨rfl, fun hc => hc.elim⟩) (fun _ ht => ht.elim)
    · have hstep := stepClose_closeStep (h.goroutinesOk _ hpc) hc
      exact h.of_goroutine hk hstep.callbacks hstep.waitExit hstep.state
        (fun hp => .inr ⟨hstep.inProcess ▸ hp, id⟩) hstep.ok hstep.won hstep.cleaned
        (fun _ => hstep.trying)
  | testUnread =>
    cases hs
    refine h.of_goroutine hk rfl rfl (.inl rfl) (fun hp => .inr ⟨hp, fun hc => hc.elim⟩) ?_
      (fun h1 h2 => absurd h2 h1) (.inr ⟨rfl, fun hc => hc.elim⟩) (fun _ ht => ht.elim)
    split_ifs <;> trivial
  | casInProcess =>
    rw [stepGoroutine] at hs
    split_ifs at hs
    · cases hs
      exact h.of_goroutine hk rfl rfl (.inl rfl) (fun hp => .inr ⟨hp, id⟩) trivial
        (fun h1 h2 => absurd h2 h1) (.inr ⟨rfl, id⟩) (fun _ ht => ht.elim)
    · cases hs
      exact h.of_goroutine hk rfl rfl (.inl rfl) (fun _ => .inl trivial) trivial
        (fun h1 h2 => absurd h2 h1) (.inr ⟨rfl, id⟩) (fun _ ht => ht.elim)
  | done =>
    cases hs
    exact h.of_goroutine hk rfl rfl (.inl rfl) (fun hp => .inr ⟨hp, id⟩) trivial
      (fun h1 h2 => absurd h2 h1) (.inr ⟨rfl, id⟩) (fun _ ht => ht.elim)
  | finished => cases hs

/-! ## The event loop -/

/-- What a step of the event loop keeps that starts no goroutine. -/
theorem SwapInv.of_loop {s' : Shared} {pc : LoopPc} (h : SwapInv s)
    (hcb : s'.callbacks = s.shared.callbacks) (hwe : s'.waitExit = s.shared.waitExit)
    (hin : s'.inStreams = s.shared.inStreams)
    (hclosed : s'.state = .closed ↔ s.shared.state = .closed)
    (hclosers : ∀ pc ∈ s.closers, pc.Ok s'.state) (hgor : ∀ pc ∈ s.goroutines, pc.Ok s'.state)
    (hno : s.shared.callbacks = false → s'.callbackInProcess = false ∧ ¬ pc.Starting ∧
      pc ≠ .casInProcess)
    (hproc : s'.callbackInProcess = true → s.shared.callbackInProcess = true ∨ pc.Starting)
    (hstart : s.loop.Starting → pc.Starting) : SwapInv { s with shared := s', loop := pc } := by
  refine ⟨fun hc => ?_, by rw [hcb, hwe]; exact h.waitExit, fun hp => ?_, hclosers, hgor,
    fun hst => ?_, fun q hq hd => ?_⟩
  · rw [hcb] at hc
    exact ⟨(h.noCallbacks hc).1, hno hc⟩
  · rcases hproc hp with hp | hl
    · exact (h.holder hp).imp_right hstart
    · exact .inr hl
  · exact (h.removed (hclosed.mp hst)).imp_left hin.trans
  · exact (h.owed q hq hd).imp hclosed.mpr (Or.imp_right (Or.imp_right hstart))

/-- The start of a goroutine, which holds `callbackInProcess`. -/
theorem swapInv_spawn (h : SwapInv s) (hl : s.loop = .spawn) :
    SwapInv { s with loop := .idle, goroutines := s.goroutines ++ [.moveTo] } := by
  have hnew : ∃ pc ∈ s.goroutines ++ [.moveTo], pc.Holds :=
    ⟨.moveTo, List.mem_append_right _ List.mem_cons_self, trivial⟩
  refine ⟨fun hc => ?_, h.waitExit, fun _ => .inl hnew, h.closersOk, fun pc hpc => ?_,
    fun hst => ?_, fun q hq hd => ?_⟩
  · exact absurd (by rw [hl]; trivial) (h.noCallbacks hc).2.2.1
  · rcases List.mem_append.mp hpc with hpc | hpc
    · exact h.goroutinesOk pc hpc
    · rw [List.mem_singleton.mp hpc]; trivial
  · exact (h.removed hst).imp_right (Or.imp_right fun ⟨g, hg, hc⟩ =>
      ⟨g, List.mem_append_left _ hg, hc⟩)
  · obtain ⟨g, hg, hh⟩ := hnew
    exact .inr (.inr (.inl ⟨g, hg, hh.tries⟩))

theorem swapInv_stepLoop {s' : Shared} {pc : LoopPc} {sp : Bool} (h : SwapInv s)
    (hok : SwapOk s .loop) (hs : stepLoop s.shared s.loop = some (s', pc, sp)) :
    SwapInv { s with
      shared := s'
      loop := pc
      goroutines := if sp then s.goroutines ++ [.moveTo] else s.goroutines } := by
  cases hl : s.loop with
  | idle => rw [hl] at hs; cases hs
  | halfCas =>
    rw [hl, stepLoop] at hs
    split_ifs at hs with hst
    iterate 2
      obtain ⟨h1, h2⟩ := h.ok_half hst (hok hl hst)
      cases hs
      exact h.of_loop rfl rfl rfl (by simp [hst]) h1 h2
        (fun hc => ⟨(h.noCallbacks hc).2.1, id, by simp⟩) .inl (by rw [hl]; exact id)
    · cases hs
      exact h.of_loop rfl rfl rfl Iff.rfl h.closersOk h.goroutinesOk
        (fun hc => ⟨(h.noCallbacks hc).2.1, id, by simp⟩) .inl (by rw [hl]; exact id)
  | onRemoteClose | add | clear =>
    rw [hl] at hs
    cases hs
    exact h.of_loop rfl rfl rfl Iff.rfl h.closersOk h.goroutinesOk
      (fun hc => ⟨(h.noCallbacks hc).2.1, id, by simp⟩) .inl (by rw [hl]; exact id)
  | loadState =>
    rw [hl] at hs
    cases hs
    refine h.of_loop rfl rfl rfl Iff.rfl h.closersOk h.goroutinesOk
      (fun hc => ⟨(h.noCallbacks hc).2.1, ?_, ?_⟩) .inl (by rw [hl]; exact fun hs => hs.elim)
    · rw [hc, if_neg Bool.false_ne_true]; split_ifs <;> exact id
    · rw [hc, if_neg Bool.false_ne_true]; split_ifs <;> simp
  | casInProcess =>
    rw [hl, stepLoop] at hs
    have hcb : s.shared.callbacks ≠ false := fun hc => (h.noCallbacks hc).2.2.2 hl
    split_ifs at hs
    · cases hs
      exact h.of_loop rfl rfl rfl Iff.rfl h.closersOk h.goroutinesOk (fun hc => absurd hc hcb)
        .inl (by rw [hl]; exact id)
    · cases hs
      exact h.of_loop rfl rfl rfl Iff.rfl h.closersOk h.goroutinesOk (fun hc => absurd hc hcb)
        (fun _ => .inr trivial) (by rw [hl]; exact fun hs => hs.elim)
  | wgAdd =>
    rw [hl] at hs
    cases hs
    have hcb : s.shared.callbacks ≠ false := fun hc =>
      (h.noCallbacks hc).2.2.1 (by rw [hl]; trivial)
    exact h.of_loop rfl rfl rfl Iff.rfl h.closersOk h.goroutinesOk (fun hc => absurd hc hcb)
      .inl (fun _ => trivial)
  | spawn =>
    rw [hl] at hs
    cases hs
    exact swapInv_spawn h hl

/-! ## Runs -/

theorem swapInv_step {a : Act} (h : SwapInv s) (hok : SwapOk s a) (hs : step s a = some t) :
    SwapInv t := by
  cases a with
  | close =>
    cases hs
    refine ⟨h.noCallbacks, fun hc pc hpc => ?_, h.holder, fun pc hpc => ?_, h.goroutinesOk,
      fun hst => ?_, fun pc hpc hd => ?_⟩
    · rcases List.mem_append.mp hpc with hpc | hpc
      · exact h.waitExit hc pc hpc
      · rw [List.mem_singleton.mp hpc, if_pos (show s.shared.callbacks = true from hc)]
        exact .inl rfl
    · rcases List.mem_append.mp hpc with hpc | hpc
      · exact h.closersOk pc hpc
      · rw [List.mem_singleton.mp hpc]; split_ifs <;> trivial
    · exact (h.removed hst).imp_right (Or.imp_left fun ⟨q, hq, hc⟩ =>
        ⟨q, List.mem_append_left _ hq, hc⟩)
    · rcases List.mem_append.mp hpc with hpc | hpc
      · exact (h.owed pc hpc hd).imp_right (Or.imp_left fun ⟨q, hq, ht⟩ =>
          ⟨q, List.mem_append_left _ hq, ht⟩)
      · rw [List.mem_singleton.mp hpc] at hd
        split_ifs at hd <;> exact hd.elim
  | closer k =>
    obtain ⟨pc, hk, hs⟩ := Option.bind_eq_some_iff.mp hs
    obtain ⟨⟨s', pc'⟩, hstep, rfl⟩ := Option.map_eq_some_iff.mp hs
    exact swapInv_stepCloser h hk hok hstep
  | data | peerClose =>
    rw [step] at hs
    split_ifs at hs with hl
    cases hs
    exact h.of_loop rfl rfl rfl Iff.rfl h.closersOk h.goroutinesOk
      (fun hc => ⟨(h.noCallbacks hc).2.1, id, by simp⟩) .inl (by rw [hl]; exact id)
  | loop =>
    obtain ⟨⟨s', pc, sp⟩, hstep, rfl⟩ := Option.map_eq_some_iff.mp hs
    exact swapInv_stepLoop h hok hstep
  | goroutine k n =>
    obtain ⟨pc, hk, hs⟩ := Option.bind_eq_some_iff.mp hs
    obtain ⟨⟨s', pc'⟩, hstep, rfl⟩ := Option.map_eq_some_iff.mp hs
    exact swapInv_stepGoroutine h hk hstep

theorem swapInv_of_reachable (hs : machine.ReachableWhen SwapOk s) : SwapInv s := by
  refine hs.invariant SwapInv (fun s hs => ?_) fun s a t h hok ht => swapInv_step h hok ht
  obtain ⟨callbacks, rfl⟩ := hs
  exact swapInv_initial

/-- Every `Close` has returned, there was one, no callback goroutine runs and the
    event loop is not starting one. -/
structure State.Quiet (s : State) : Prop where
  called : s.closers ≠ []
  returned : ∀ pc ∈ s.closers, pc = .returned
  finished : ∀ pc ∈ s.goroutines, pc = .finished
  loop : s.loop ≠ .wgAdd ∧ s.loop ≠ .spawn

instance (s : State) : Decidable s.Quiet :=
  decidable_of_iff (s.closers ≠ [] ∧ (∀ pc ∈ s.closers, pc = .returned) ∧
    (∀ pc ∈ s.goroutines, pc = .finished) ∧ s.loop ≠ .wgAdd ∧ s.loop ≠ .spawn)
    ⟨fun ⟨h1, h2, h3, h4⟩ => ⟨h1, h2, h3, h4⟩, fun ⟨h1, h2, h3, h4⟩ => ⟨h1, h2, h3, h4⟩⟩

/-- A `Close` during `OnData`: it leaves the close to the callback goroutine. -/
def callbackCloseRun : List Act :=
  [.data, .loop, .loop, .loop, .loop, .loop, .goroutine 0 0, .goroutine 0 0, .close, .closer 0,
    .closer 0, .closer 0, .goroutine 0 1, .goroutine 0 0, .goroutine 0 0, .goroutine 0 0,
    .goroutine 0 0, .goroutine 0 0, .goroutine 0 0, .goroutine 0 0, .goroutine 0 0,
    .goroutine 0 0, .goroutine 0 0]

/-- Without callbacks: `close` reads `streamOpened`, the event loop handles the
    peer's close, and the swap fails. -/
def lostSwapRun : List Act := [.close, .closer 0, .closer 0, .peerClose, .loop, .closer 0, .closer 0]

end Shmipc.Stream
