import Shmipc.Common.Trans

/-!
# `OpenStream` and a concurrent `Close` of the session

`OpenStream` (session.go:249-274) tests `shutdown`, reads `shutdownErr` or goes on to the
health test, takes an id and registers the stream under `streamLock`. `Close`
(session.go:288-340) swaps `shutdown`, sets `shutdownErr`, notifies the streams and posts
a cleanup to the dispatcher, which replaces `session.streams` by nil and closes what it
held; `exitErr` (session.go:372-381) sets `shutdownErr` before it calls `Close`. The two
share no lock over these steps.

A stream is named by the number of the call that created it, so the map holds pairs of
an id and a call.

Results:
* `openStream_unsafe`: a call that finds the session closed between the swap and the
  assignment returns no stream and no error; a call that passes the test before the swap
  and registers after the cleanup inserts into the nil map.
* `openStream_safe`: in every run without these two schedules (`Apart`), every call
  that returns has an error and no stream, or a stream that is registered, or taken by
  the cleanup, or closed by it.
-/

namespace Shmipc.OpenStream

open Common

/-- The errors `OpenStream` can return. -/
inductive Err
  | sessionShutdown
  | sessionUnhealthy
  | streamsExhausted
  /-- The argument of `exitErr`. -/
  | exit (code : ℕ)
  deriving DecidableEq, Repr

/-- Where a call of `OpenStream` is. -/
inductive OpenPc
  /-- `s.IsClosed()`. -/
  | isClosed
  /-- `return nil, s.shutdownErr`. -/
  | readErr
  /-- `s.IsHealthy()`. -/
  | isHealthy
  /-- `AddUint32(&s.nextStreamID, 1)`. -/
  | addID
  /-- The section under `streamLock`. -/
  | register (id : ℕ)
  | returned (stream : Option ℕ) (err : Option Err)
  /-- The assignment to an entry of the nil map. -/
  | panicked
  deriving DecidableEq, Repr

/-- Where a call of `Close` or `exitErr` is. -/
inductive ClosePc
  /-- `exitErr`: `shutdownErr` is set unless it is. -/
  | exitErr (code : ℕ)
  /-- `CompareAndSwapUint32(&s.shutdown, 0, 1)`. -/
  | cas
  /-- `s.shutdownErr = ErrSessionShutdown` unless it is set. -/
  | setErr
  /-- `safeCloseNotify` on every stream. -/
  | notify
  /-- `dispatcher.post`. -/
  | post
  | returned
  deriving DecidableEq, Repr

/-- Where the posted cleanup is. -/
inductive CleanupPc
  | notPosted
  /-- It is going to replace `session.streams` by nil. -/
  | take
  /-- The streams it still has to close. -/
  | closing (rest : List (ℕ × ℕ))
  | done
  deriving DecidableEq, Repr

structure Shared where
  shutdown : Bool := false
  shutdownErr : Option Err := none
  unhealthy : Bool := false
  /-- The next id is one more; a client starts at 1, a server at 2. -/
  nextStreamID : ℕ
  /-- `session.streams`; `none` is the nil map. -/
  streams : Option (List (ℕ × ℕ)) := some []
  /-- The streams told by `safeCloseNotify`. -/
  notified : List ℕ := []
  /-- The streams closed by the cleanup. -/
  closed : List ℕ := []
  deriving DecidableEq, Repr

structure State where
  shared : Shared
  calls : List OpenPc := []
  closers : List ClosePc := []
  cleanup : CleanupPc := .notPosted
  deriving DecidableEq, Repr

/-- `openStream`, `close` and `exitErr` are new calls; the others continue one. -/
inductive Act
  | openStream
  | call (k : ℕ)
  | close
  | exitErr (code : ℕ)
  | closer (k : ℕ)
  | cleanup
  | setUnhealthy (unhealthy : Bool)
  deriving DecidableEq, Repr

/-- The step of the `k`-th call of `OpenStream`. -/
def stepOpen (s : Shared) (k : ℕ) : OpenPc → Option (Shared × OpenPc)
  | .isClosed => some (s, if s.shutdown then .readErr else .isHealthy)
  | .readErr => some (s, .returned none s.shutdownErr)
  | .isHealthy => some (s, if s.unhealthy then .returned none (some .sessionUnhealthy) else .addID)
  | .addID =>
    let id := (s.nextStreamID + 1) % 2 ^ 32
    some ({ s with nextStreamID := id }, .register id)
  | .register id =>
    match s.streams with
    | none => some (s, .panicked)
    | some m =>
      if id ∈ m.map Prod.fst then some (s, .returned none (some .streamsExhausted))
      else some ({ s with streams := some (m ++ [(id, k)]) }, .returned (some id) none)
  | .returned _ _ | .panicked => none

/-- The step of a call of `Close` or `exitErr`; the flag says that the cleanup is posted. -/
def stepClose (s : Shared) : ClosePc → Option (Shared × ClosePc × Bool)
  | .exitErr code => some ({ s with shutdownErr := s.shutdownErr <|> some (.exit code) }, .cas, false)
  | .cas =>
    if s.shutdown then some (s, .returned, false)
    else some ({ s with shutdown := true }, .setErr, false)
  | .setErr =>
    some ({ s with shutdownErr := s.shutdownErr <|> some .sessionShutdown }, .notify, false)
  | .notify => some ({ s with notified := (s.streams.getD []).map Prod.snd }, .post, false)
  | .post => some (s, .returned, true)
  | .returned => none

/-- The step of the cleanup. -/
def stepCleanup (s : Shared) : CleanupPc → Option (Shared × CleanupPc)
  | .take => some ({ s with streams := none }, .closing (s.streams.getD []))
  | .closing (x :: rest) => some ({ s with closed := s.closed ++ [x.2] }, .closing rest)
  | .closing [] => some (s, .done)
  | .notPosted | .done => none

def step (s : State) : Act → Option State
  | .openStream => some { s with calls := s.calls ++ [.isClosed] }
  | .call k =>
    s.calls[k]?.bind fun pc => (stepOpen s.shared k pc).map fun r =>
      { s with shared := r.1, calls := s.calls.set k r.2 }
  | .close => some { s with closers := s.closers ++ [.cas] }
  | .exitErr code => some { s with closers := s.closers ++ [.exitErr code] }
  | .closer k =>
    s.closers[k]?.bind fun pc => (stepClose s.shared pc).map fun r =>
      { s with
        shared := r.1
        closers := s.closers.set k r.2.1
        cleanup := if r.2.2 then .take else s.cleanup }
  | .cleanup =>
    (stepCleanup s.shared s.cleanup).map fun r => { s with shared := r.1, cleanup := r.2 }
  | .setUnhealthy b => some { s with shared := { s.shared with unhealthy := b } }

/-- A fresh session. -/
def initial (nextStreamID : ℕ) : State where
  shared := { nextStreamID := nextStreamID }

def machine : Sys State Act where
  init s := ∃ n, s = initial n
  next := step

/-! ## The condition -/

/-- The call has passed the test of `shutdown` and not yet registered its stream. -/
def OpenPc.Between : OpenPc → Prop
  | .isHealthy | .addID | .register _ => True
  | _ => False

instance : ∀ pc : OpenPc, Decidable pc.Between
  | .isHealthy | .addID | .register _ => isTrue trivial
  | .isClosed | .readErr | .returned _ _ | .panicked => isFalse id

/-- The condition on a step: `shutdownErr` is not read while a `Close` stands between its
    swap and its assignment with nothing assigned yet, and the cleanup does not replace the
    map while a call is between its test and its registration. -/
def Apart (s : State) : Act → Prop
  | .call k => s.calls[k]? = some .readErr → s.shared.shutdownErr = none → .setErr ∉ s.closers
  | .cleanup => s.cleanup = .take → ∀ pc ∈ s.calls, ¬ pc.Between
  | _ => True

instance (s : State) : ∀ a, Decidable (Apart s a)
  | .call _ | .cleanup => inferInstanceAs (Decidable (_ → _))
  | .openStream | .close | .exitErr _ | .closer _ | .setUnhealthy _ => isTrue trivial

/-! ## The invariant -/

/-- The streams the cleanup has taken and not yet closed. -/
def CleanupPc.rest : CleanupPc → List (ℕ × ℕ)
  | .closing rest => rest
  | _ => []

/-- The stream of call `k` is in `session.streams`, or the cleanup has it, or has closed it. -/
def State.Registered (s : State) (id k : ℕ) : Prop :=
  (id, k) ∈ s.shared.streams.getD [] ∨ (id, k) ∈ s.cleanup.rest ∨ k ∈ s.shared.closed

/-- What a call may have returned. -/
def OpenPc.Good (s : State) (k : ℕ) : OpenPc → Prop
  | .returned stream err =>
    stream = none ∧ err ≠ none ∨ ∃ id, stream = some id ∧ err = none ∧ s.Registered id k
  | .panicked => False
  | _ => True

/-- One while the call of `Close` has swapped `shutdown` and not yet posted the cleanup. -/
def ClosePc.swapped : ClosePc → ℕ
  | .setErr | .notify | .post => 1
  | _ => 0

/-- One once the cleanup is posted. -/
def CleanupPc.posted : CleanupPc → ℕ
  | .notPosted => 0
  | _ => 1

structure Inv (s : State) : Prop where
  /-- The map is nil once the cleanup has taken it. -/
  taken : s.shared.streams = none ↔ s.cleanup ≠ .notPosted ∧ s.cleanup ≠ .take
  /-- One `Close` swaps `shutdown` and posts the cleanup. -/
  once : (s.closers.map ClosePc.swapped).sum + s.cleanup.posted = s.shared.shutdown.toNat
  err : s.shared.shutdown = true → s.shared.shutdownErr = none → .setErr ∈ s.closers
  readErr : .readErr ∈ s.calls → s.shared.shutdown = true
  between : s.shared.streams = none → ∀ pc ∈ s.calls, ¬ pc.Between
  good : ∀ (k : ℕ) (pc : OpenPc), s.calls[k]? = some pc → pc.Good s k

theorem inv_initial (n : ℕ) : Inv (initial n) := by
  constructor <;> simp [initial, CleanupPc.posted]

variable {s t : State}

theorem Inv.shutdown_of_taken (h : Inv s) (hn : s.shared.streams = none) :
    s.shared.shutdown = true := by
  have honce := h.once
  have hp : s.cleanup.posted = 1 := by
    have hne := (h.taken.mp hn).1
    cases hc : s.cleanup <;> first | rfl | exact absurd hc hne
  cases hsh : s.shared.shutdown with
  | true => rfl
  | false =>
    rw [hsh, Bool.toNat_false] at honce
    omega

theorem OpenPc.Good.mono {k : ℕ} {pc : OpenPc} (h : pc.Good s k)
    (hreg : ∀ id, s.Registered id k → t.Registered id k) : pc.Good t k := by
  cases pc with
  | returned stream err =>
    refine h.imp id ?_
    rintro ⟨id, h1, h2, h3⟩
    exact ⟨id, h1, h2, hreg id h3⟩
  | panicked => exact h
  | _ => trivial

/-! ## The steps -/

theorem Inv.of_call {s' : Shared} {k : ℕ} {pc pc' : OpenPc} (h : Inv s)
    (hk : s.calls[k]? = some pc) (hsh : s'.shutdown = s.shared.shutdown)
    (herr : s'.shutdownErr = s.shared.shutdownErr)
    (hnil : s'.streams = none ↔ s.shared.streams = none)
    (hsub : ∀ x ∈ s.shared.streams.getD [], x ∈ s'.streams.getD [])
    (hclosed : s'.closed = s.shared.closed) (hread : pc' = .readErr → s.shared.shutdown = true)
    (hbetween : s.shared.streams = none → ¬ pc'.Between)
    (hgood : pc'.Good { s with shared := s', calls := s.calls.set k pc' } k) :
    Inv { s with shared := s', calls := s.calls.set k pc' } := by
  refine ⟨hnil.trans h.taken, h.once.trans (by rw [hsh]), fun h1 h2 => ?_,
    fun hm => ?_, fun hn => ?_,
    forall_getElem?_set hk hgood fun j q _ hj => (h.good j q hj).mono fun id hr => ?_⟩
  · exact h.err (hsh.symm.trans h1) (herr.symm.trans h2)
  · rcases List.mem_or_eq_of_mem_set hm with hm | he
    · exact hsh.trans (h.readErr hm)
    · exact hsh.trans (hread he.symm)
  · have hn' := hnil.mp hn
    exact forall_set (h.between hn') (hbetween hn')
  · exact hr.imp (hsub _) (Or.imp_right fun hm => hclosed ▸ hm)

theorem inv_stepOpen {s' : Shared} {k : ℕ} {pc pc' : OpenPc} (h : Inv s)
    (hk : s.calls[k]? = some pc) (hok : Apart s (.call k))
    (hs : stepOpen s.shared k pc = some (s', pc')) :
    Inv { s with shared := s', calls := s.calls.set k pc' } := by
  have hpc : pc ∈ s.calls := List.mem_of_getElem? hk
  cases pc with
  | isClosed =>
    cases hsh : s.shared.shutdown with
    | true =>
      rw [stepOpen, if_pos hsh] at hs
      cases hs
      exact h.of_call hk rfl rfl Iff.rfl (fun _ => id) rfl (fun _ => hsh) (fun _ => id) trivial
    | false =>
      rw [stepOpen, if_neg (by rw [hsh]; exact Bool.false_ne_true)] at hs
      cases hs
      refine h.of_call hk rfl rfl Iff.rfl (fun _ => id) rfl (fun he => nomatch he) (fun hn => ?_)
        trivial
      -- the map is nil only once the session is shut down
      rw [h.shutdown_of_taken hn] at hsh
      cases hsh
  | readErr =>
    cases hs
    refine h.of_call hk rfl rfl Iff.rfl (fun _ => id) rfl (fun he => nomatch he) (fun _ => id)
      (.inl ⟨rfl, fun hn => ?_⟩)
    exact hok hk hn (h.err (h.readErr hpc) hn)
  | isHealthy =>
    have hb : s.shared.streams ≠ none := fun hn => h.between hn _ hpc trivial
    rw [stepOpen] at hs
    split_ifs at hs <;> cases hs
    · exact h.of_call hk rfl rfl Iff.rfl (fun _ => id) rfl (fun he => nomatch he) (fun _ => id)
        (.inl ⟨rfl, by simp⟩)
    · exact h.of_call hk rfl rfl Iff.rfl (fun _ => id) rfl (fun he => nomatch he)
        (fun hn => absurd hn hb) trivial
  | addID =>
    have hb : s.shared.streams ≠ none := fun hn => h.between hn _ hpc trivial
    cases hs
    exact h.of_call hk rfl rfl Iff.rfl (fun _ => id) rfl (fun he => nomatch he)
      (fun hn => absurd hn hb) trivial
  | register id =>
    have hb : s.shared.streams ≠ none := fun hn => h.between hn _ hpc trivial
    obtain ⟨m, hm⟩ := Option.ne_none_iff_exists'.mp hb
    simp only [stepOpen, hm] at hs
    by_cases hid : id ∈ m.map Prod.fst
    · rw [if_pos hid] at hs
      cases hs
      exact h.of_call hk rfl rfl Iff.rfl (fun _ hx => hx) rfl (fun he => nomatch he)
        (fun _ hx => hx) (.inl ⟨rfl, by simp⟩)
    · rw [if_neg hid] at hs
      cases hs
      refine h.of_call hk rfl rfl (by simp [hm]) (fun x hx => ?_) rfl (fun he => nomatch he)
        (fun hn => absurd hn hb) (.inr ⟨id, rfl, rfl, .inl ?_⟩)
      · rw [hm] at hx
        exact List.mem_append_left _ hx
      · exact List.mem_append_right _ List.mem_cons_self
  | returned stream err => cases hs
  | panicked => cases hs

/-- What a step of `Close` or `exitErr` keeps that does not post the cleanup. -/
theorem Inv.of_closer {s' : Shared} {k : ℕ} {pc pc' : ClosePc} (h : Inv s)
    (hk : s.closers[k]? = some pc) (hstreams : s'.streams = s.shared.streams)
    (hclosed : s'.closed = s.shared.closed)
    (honce : s'.shutdown.toNat + pc.swapped = s.shared.shutdown.toNat + pc'.swapped)
    (hmono : s.shared.shutdown = true → s'.shutdown = true)
    (herr : s'.shutdown = true → s'.shutdownErr = none → pc' = .setErr ∨
      pc ≠ .setErr ∧ s.shared.shutdown = true ∧ s.shared.shutdownErr = none) :
    Inv { s with shared := s', closers := s.closers.set k pc' } := by
  have hsum := sum_map_set hk pc' ClosePc.swapped
  have hold := h.once
  refine ⟨by rw [← h.taken, hstreams], ?_, fun h1 h2 => ?_,
    fun hm => hmono (h.readErr hm), fun hn => h.between (hstreams.symm.trans hn),
    fun j q hj => (h.good j q hj).mono fun id hr => ?_⟩
  · show ((s.closers.set k pc').map ClosePc.swapped).sum + s.cleanup.posted = s'.shutdown.toNat
    omega
  · rcases herr h1 h2 with rfl | ⟨hne, hsh, hnone⟩
    · exact mem_set_self hk _
    · exact mem_set_of_ne hk (h.err hsh hnone) (Ne.symm hne)
  · unfold State.Registered at hr ⊢
    rw [hstreams, hclosed]
    exact hr

theorem inv_stepClose {s' : Shared} {k : ℕ} {pc pc' : ClosePc} {posted : Bool} (h : Inv s)
    (hk : s.closers[k]? = some pc) (hs : stepClose s.shared pc = some (s', pc', posted)) :
    Inv { s with
      shared := s'
      closers := s.closers.set k pc'
      cleanup := if posted then .take else s.cleanup } := by
  have hset : ∀ e : Err, (s.shared.shutdownErr <|> some e) ≠ none := by
    intro e
    cases s.shared.shutdownErr <;> simp
  cases pc with
  | exitErr code =>
    cases hs
    exact h.of_closer hk rfl rfl rfl id fun _ hn => absurd hn (hset _)
  | cas =>
    cases hsh : s.shared.shutdown with
    | true =>
      rw [stepClose, if_pos hsh] at hs
      cases hs
      exact h.of_closer hk rfl rfl rfl id fun h1 h2 => .inr ⟨by simp, h1, h2⟩
    | false =>
      rw [stepClose, if_neg (by rw [hsh]; exact Bool.false_ne_true)] at hs
      cases hs
      exact h.of_closer hk rfl rfl (by rw [hsh]; rfl) (fun _ => rfl) fun _ _ => .inl rfl
  | setErr =>
    cases hs
    exact h.of_closer hk rfl rfl rfl id fun _ hn => absurd hn (hset _)
  | notify =>
    cases hs
    exact h.of_closer hk rfl rfl rfl id fun h1 h2 => .inr ⟨by simp, h1, h2⟩
  | post =>
    cases hs
    have hsum := sum_map_set hk .returned ClosePc.swapped
    have hone : ClosePc.post.swapped = 1 := rfl
    have hzero : ClosePc.returned.swapped = 0 := rfl
    have hflag := Bool.toNat_le s.shared.shutdown
    have honce := h.once
    have hnot : s.cleanup = .notPosted := by
      cases hc : s.cleanup with
      | notPosted => rfl
      | take | closing rest | done =>
        rw [hc] at honce
        simp only [CleanupPc.posted] at honce
        omega
    refine ⟨by simp [h.taken, hnot], ?_, fun h1 h2 => mem_set_of_ne hk (h.err h1 h2) (by simp),
      h.readErr, h.between, fun j q hj => (h.good j q hj).mono fun id hr => ?_⟩
    · rw [hnot] at honce
      simp only [CleanupPc.posted, if_true] at honce ⊢
      omega
    · unfold State.Registered at hr ⊢
      rw [hnot] at hr
      exact hr
  | returned => cases hs

theorem inv_stepCleanup {s' : Shared} {pc : CleanupPc} (h : Inv s) (hok : Apart s .cleanup)
    (hs : stepCleanup s.shared s.cleanup = some (s', pc)) :
    Inv { s with shared := s', cleanup := pc } := by
  have honce := h.once
  cases hc : s.cleanup with
  | notPosted | done =>
    rw [hc] at hs
    cases hs
  | take =>
    rw [hc] at hs honce
    cases hs
    refine ⟨by simp, honce, h.err, h.readErr, fun _ => hok hc,
      fun j q hj => (h.good j q hj).mono fun id hr => ?_⟩
    unfold State.Registered at hr ⊢
    rw [hc] at hr
    rcases hr with hr | hr | hr
    · exact .inr (.inl hr)
    · cases hr
    · exact .inr (.inr hr)
  | closing rest =>
    rw [hc] at hs honce
    cases rest with
    | nil =>
      cases hs
      refine ⟨by simp [h.taken, hc], honce, h.err, h.readErr, h.between,
        fun j q hj => (h.good j q hj).mono fun id hr => ?_⟩
      unfold State.Registered at hr ⊢
      rw [hc] at hr
      exact hr
    | cons x rest =>
      cases hs
      refine ⟨by simp [h.taken, hc], honce, h.err, h.readErr, h.between,
        fun j q hj => (h.good j q hj).mono fun id hr => ?_⟩
      unfold State.Registered at hr ⊢
      rw [hc] at hr
      rcases hr with hr | hr | hr
      · exact .inl hr
      · rcases List.mem_cons.mp hr with rfl | hr
        · exact .inr (.inr (List.mem_append_right _ List.mem_cons_self))
        · exact .inr (.inl hr)
      · exact .inr (.inr (List.mem_append_left _ hr))

/-! ## Runs -/

/-- **Step.** -/
theorem inv_step {a : Act} (h : Inv s) (hok : Apart s a) (hs : step s a = some t) : Inv t := by
  cases a with
  | openStream =>
    cases hs
    refine ⟨h.taken, h.once, h.err, fun hm => ?_, fun hn pc hpc => ?_, fun j q hj => ?_⟩
    · rcases List.mem_append.mp hm with hm | hm
      · exact h.readErr hm
      · simp at hm
    · rcases List.mem_append.mp hpc with hpc | hpc
      · exact h.between hn pc hpc
      · rw [List.mem_singleton.mp hpc]
        exact id
    · rcases getElem?_concat_cases hj with hj | ⟨-, rfl⟩
      · exact h.good j q hj
      · trivial
  | call k =>
    obtain ⟨pc, hk, hs⟩ := Option.bind_eq_some_iff.mp hs
    obtain ⟨⟨s', pc'⟩, hstep, rfl⟩ := Option.map_eq_some_iff.mp hs
    exact inv_stepOpen h hk hok hstep
  | close | exitErr code =>
    cases hs
    refine ⟨h.taken, ?_, fun h1 h2 => List.mem_append_left _ (h.err h1 h2), h.readErr, h.between,
      h.good⟩
    have honce := h.once
    simp only [List.map_append, List.sum_append]
    simpa [ClosePc.swapped] using honce
  | closer k =>
    obtain ⟨pc, hk, hs⟩ := Option.bind_eq_some_iff.mp hs
    obtain ⟨⟨s', pc', posted⟩, hstep, rfl⟩ := Option.map_eq_some_iff.mp hs
    exact inv_stepClose h hk hstep
  | cleanup =>
    obtain ⟨⟨s', pc⟩, hstep, rfl⟩ := Option.map_eq_some_iff.mp hs
    exact inv_stepCleanup h hok hstep
  | setUnhealthy b =>
    cases hs
    exact ⟨h.taken, h.once, h.err, h.readErr, h.between, h.good⟩

/-- **Run.** -/
theorem inv_of_reachable (hr : machine.ReachableWhen Apart s) : Inv s := by
  refine hr.invariant Inv (fun s hs => ?_) fun s a t h hok ht => inv_step h hok ht
  obtain ⟨n, rfl⟩ := hs
  exact inv_initial n

/-- **Main theorem.** In every run as `Apart` says, no call of `OpenStream` inserts into
    the nil map, and each one that returns has an error and no stream, or no error and a
    stream that is registered or that the cleanup has taken; once the cleanup is done the
    stream is closed. -/
theorem openStream_safe (hr : machine.ReachableWhen Apart s) {k : ℕ} {pc : OpenPc}
    (hk : s.calls[k]? = some pc) :
    pc ≠ .panicked ∧ ∀ stream err, pc = .returned stream err →
      (stream = none ∧ err ≠ none) ∨
      ∃ id, stream = some id ∧ err = none ∧ s.Registered id k ∧
        (s.cleanup = .done → k ∈ s.shared.closed) := by
  have h := inv_of_reachable hr
  have hgood := h.good k pc hk
  refine ⟨?_, ?_⟩
  · rintro rfl
    exact hgood
  · rintro stream err rfl
    refine hgood.imp id ?_
    rintro ⟨id, h1, h2, hreg⟩
    refine ⟨id, h1, h2, hreg, fun hdone => ?_⟩
    have hnil : s.shared.streams = none := h.taken.mpr (by simp [hdone])
    unfold State.Registered at hreg
    rw [hdone, hnil] at hreg
    rcases hreg with hm | hm | hm
    · cases hm
    · cases hm
    · exact hm

/-- One `OpenStream`, the close of the session with its cleanup, and an `OpenStream` after it. -/
def openCloseOpenRun : List Act :=
  [.openStream, .call 0, .call 0, .call 0, .call 0, .close, .closer 0, .closer 0, .closer 0, .closer 0,
    .cleanup, .cleanup, .cleanup, .openStream, .call 1, .call 1]

theorem openStream_safe_around_close : ∃ s, machine.ReachableWhen Apart s ∧
    s.calls = [.returned (some 2) none, .returned none (some .sessionShutdown)] ∧
    0 ∈ s.shared.closed := by
  obtain ⟨s, hs, hdone, hcalls⟩ := machine.exists_reachableWhen_of_run Apart (initial 1) openCloseOpenRun
    (fun s => s.cleanup = .done ∧
      s.calls = [.returned (some 2) none, .returned none (some .sessionShutdown)])
    ⟨_, rfl⟩ (by decide) (by decide)
  obtain ⟨-, h⟩ := openStream_safe hs (k := 0) (by rw [hcalls]; rfl)
  rcases h _ _ rfl with ⟨h, -⟩ | ⟨id, -, -, -, h⟩
  · cases h
  · exact ⟨s, hs, hcalls, h hdone⟩

/-- The session is found closed between the swap of `shutdown` and the assignment of
    `shutdownErr`. -/
def nilErrRun : List Act := [.close, .closer 0, .openStream, .call 0, .call 0]

/-- The test of `shutdown` is passed before the swap, and the stream registered after the
    cleanup has replaced the map. -/
def nilMapRun : List Act :=
  [.openStream, .call 0, .call 0, .call 0, .close, .closer 0, .closer 0, .closer 0, .closer 0, .cleanup,
    .call 0]

/-- `OpenStream` returns neither a stream nor an error, and `OpenStream` panics. -/
theorem openStream_unsafe :
    (∃ s, machine.Reachable s ∧ s.calls = [.returned none none]) ∧
    ∃ s, machine.Reachable s ∧ s.calls = [.panicked] := by
  constructor
  · exact machine.exists_reachable_of_run (initial 1) nilErrRun _ ⟨_, rfl⟩ (by decide)
  · exact machine.exists_reachable_of_run (initial 1) nilMapRun _ ⟨_, rfl⟩ (by decide)

end Shmipc.OpenStream
