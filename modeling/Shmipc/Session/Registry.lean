import Shmipc.Common.Trans

/-!
# The registry of buffer managers

`bufferManagers.bms` maps a path to a buffer manager with a reference count
(buffer_manager.go:122-257). A client takes its reference in `initMemManager`, a server in
the goroutine that `initProtocol` starts (protocol_manager.go); it is given back by
`newSession` when the protocol fails (session.go:155-166) and by the cleanup that
`Session.Close` posts (session.go:314-337). `newSession` has other returns with an error
that do not give it back.

The outcome of each call that can fail is part of the step. The registry's own functions
run under its mutex, so each is one step.

Results:
* `newSession_leaks`: a queue that cannot be created, a connection that cannot be
  registered, and a timeout before the server's goroutine takes its reference each leave
  a count with no session.
* `refCount_eq_sessions`: in every run without these failures (`Balanced`), the count of
  a path is the number of sessions that use it, there is an entry exactly when it is
  positive, and the memory is mapped exactly then.
-/

namespace Shmipc.Registry

open Common

variable {P : Type*} [DecidableEq P]

/-! ## The registry -/

/-- `bufferManagers.bms`, with the number of mappings of each path that are not unmapped. -/
structure GlobalBufferManager (P : Type*) where
  refCount : P → Option ℤ
  mapped : P → ℕ

/-- `atomic.AddInt32`. -/
def addInt32 (n c : ℤ) : ℤ := (n + c).bmod (2 ^ 32)

/-- `getGlobalBufferManager` and `getGlobalBufferManagerWithMemFd`
    (buffer_manager.go:122-245): the path's entry, or a new one; `ok` is whether a new
    manager can be created or mapped. -/
def GlobalBufferManager.getGlobalBufferManager (r : GlobalBufferManager P) (path : P) (ok : Bool) :
    Option (GlobalBufferManager P) :=
  match r.refCount path with
  | some n => some { r with refCount := Function.update r.refCount path (some (addInt32 n 1)) }
  | none =>
    if ok then
      some
        { refCount := Function.update r.refCount path (some 1)
          mapped := Function.update r.mapped path (r.mapped path + 1) }
    else none

/-- `addGlobalBufferManagerRefCount(path, -1)` (buffer_manager.go:247-257). -/
def GlobalBufferManager.release (r : GlobalBufferManager P) (path : P) : GlobalBufferManager P :=
  match r.refCount path with
  | some n =>
    if addInt32 n (-1) ≤ 0 then
      { refCount := Function.update r.refCount path none
        mapped := Function.update r.mapped path (r.mapped path - 1) }
    else { r with refCount := Function.update r.refCount path (some (addInt32 n (-1))) }
  | none => r

/-! ## The sessions -/

/-- Where `newSession` is, and what has become of the session afterwards. -/
inductive MainPc
  /-- A client's `initMemManager`: the buffer manager. -/
  | getBufferManager
  /-- A client's `initMemManager`: the queue. -/
  | createQueueManager
  /-- `initProtocol`: the goroutine is started. -/
  | initProtocol
  /-- `initProtocol`: the `select`. -/
  | wait
  /-- `newSession` after `initProtocol` returned an error. -/
  | failInit
  /-- `eventConn.setCallback`. -/
  | setCallback
  | failed
  | returned
  /-- `Close` has posted its cleanup. -/
  | closing
  | cleaned
  deriving DecidableEq, Repr

/-- Where the goroutine of `initProtocol` is. -/
inductive InitPc
  | notStarted
  /-- A client's part of the protocol. -/
  | exchange
  /-- A server: up to `mappingQueueManager`. -/
  | mapQueue
  | getBufferManager
  /-- `s.bufferManager = bm`. -/
  | assign
  /-- The acknowledgement, which the second version does not send. -/
  | ack
  | finished
  deriving DecidableEq, Repr

structure Sess (P : Type*) where
  path : P
  isClient : Bool
  main : MainPc
  init : InitPc := .notStarted
  /-- The local variable `bm` holds a manager. -/
  bm : Bool := false
  /-- `s.bufferManager` is not nil. -/
  bufferManager : Bool := false
  /-- Whether the result in `resultCh` is nil. -/
  resultCh : Option Bool := none
  deriving DecidableEq

structure State (P : Type*) where
  registry : GlobalBufferManager P := ⟨fun _ => none, fun _ => 0⟩
  sessions : List (Sess P) := []

/-- The steps; `ok` is the outcome of what can fail in them. -/
inductive Act (P : Type*)
  | newSession (path : P) (isClient : Bool)
  | main (k : ℕ) (ok : Bool)
  | timeout (k : ℕ)
  | init (k : ℕ) (ok : Bool)
  | close (k : ℕ)
  | cleanup (k : ℕ)

/-- The step of `newSession` (session.go:107-180, 637-675). -/
def stepMain (r : GlobalBufferManager P) (x : Sess P) (ok : Bool) :
    Option (GlobalBufferManager P × Sess P) :=
  match x.main with
  | .getBufferManager =>
    match r.getGlobalBufferManager x.path ok with
    | some r' => some (r', { x with main := .createQueueManager, bm := true })
    | none => some (r, { x with main := .failed })
  | .createQueueManager =>
    some (r, if ok then { x with main := .initProtocol, bufferManager := true }
      else { x with main := .failed })
  | .initProtocol =>
    some (r, { x with main := .wait, init := if x.isClient then .exchange else .mapQueue })
  | .wait => x.resultCh.map fun result =>
      (r, { x with main := if result then .setCallback else .failInit })
  | .failInit =>
    some (if x.bufferManager then r.release x.path else r, { x with main := .failed })
  | .setCallback => some (r, { x with main := if ok then .returned else .failed })
  | .failed | .returned | .closing | .cleaned => none

/-- The step of the goroutine of `initProtocol`. -/
def stepInit (r : GlobalBufferManager P) (x : Sess P) (ok : Bool) :
    Option (GlobalBufferManager P × Sess P) :=
  match x.init with
  | .exchange => some (r, { x with init := .finished, resultCh := some ok })
  | .mapQueue =>
    some (r, if ok then { x with init := .getBufferManager }
      else { x with init := .finished, resultCh := some false })
  | .getBufferManager =>
    match r.getGlobalBufferManager x.path ok with
    | some r' => some (r', { x with init := .assign, bm := true })
    | none => some (r, { x with init := .finished, resultCh := some false })
  | .assign => some (r, { x with init := .ack, bufferManager := true })
  | .ack => some (r, { x with init := .finished, resultCh := some ok })
  | .notStarted | .finished => none

/-- The timeout of `initProtocol`. -/
def stepTimeout (r : GlobalBufferManager P) (x : Sess P) : Option (GlobalBufferManager P × Sess P) :=
  if x.main = .wait then some (r, { x with main := .failInit }) else none

/-- `Session.Close`, which does nothing the second time. -/
def stepClose (r : GlobalBufferManager P) (x : Sess P) : Option (GlobalBufferManager P × Sess P) :=
  match x.main with
  | .returned => some (r, { x with main := .closing })
  | .closing | .cleaned => some (r, x)
  | _ => none

/-- The posted cleanup. -/
def stepCleanup (r : GlobalBufferManager P) (x : Sess P) : Option (GlobalBufferManager P × Sess P) :=
  if x.main = .closing then
    some (if x.bufferManager then r.release x.path else r, { x with main := .cleaned })
  else none

/-- `f` on the `k`-th session. -/
def State.on (s : State P) (k : ℕ)
    (f : GlobalBufferManager P → Sess P → Option (GlobalBufferManager P × Sess P)) :
    Option (State P) :=
  s.sessions[k]?.bind fun x => (f s.registry x).map fun p =>
    { registry := p.1, sessions := s.sessions.set k p.2 }

def step (s : State P) : Act P → Option (State P)
  | .newSession path isClient =>
    some { s with sessions := s.sessions ++
      [{ path, isClient, main := if isClient then .getBufferManager else .initProtocol }] }
  | .main k ok => s.on k fun r x => stepMain r x ok
  | .timeout k => s.on k stepTimeout
  | .init k ok => s.on k fun r x => stepInit r x ok
  | .close k => s.on k stepClose
  | .cleanup k => s.on k stepCleanup

def machine (P : Type*) [DecidableEq P] : Sys (State P) (Act P) where
  init s := s = {}
  next := step

/-! ## The condition -/

/-- There is room for one more reference in an `int32`. -/
def GlobalBufferManager.Room (r : GlobalBufferManager P) (path : P) : Prop :=
  ∀ n ∈ r.refCount path, n + 1 < 2 ^ 31

instance (r : GlobalBufferManager P) (path : P) : Decidable (r.Room path) :=
  inferInstanceAs (Decidable (∀ n ∈ _, _))

/-- The goroutine does not take a reference any more, and has handed over the one it has. -/
def Sess.Settled (x : Sess P) : Prop := x.isClient = true ∨ x.init = .ack ∨ x.init = .finished

instance (x : Sess P) : Decidable x.Settled := inferInstanceAs (Decidable (_ ∨ _))

def Sess.MainOk (r : GlobalBufferManager P) (ok : Bool) (x : Sess P) : Prop :=
  (x.main = .createQueueManager → ok = true) ∧ (x.main = .setCallback → ok = true) ∧
    (x.main = .failInit → x.Settled) ∧ (x.main = .getBufferManager → r.Room x.path)

instance (r : GlobalBufferManager P) (ok : Bool) (x : Sess P) : Decidable (x.MainOk r ok) :=
  inferInstanceAs (Decidable (_ ∧ _))

/-- The condition on a step: the queue of a client can be created, a connection can be
    registered, `newSession` does not give up on a server's goroutine that has not set
    `s.bufferManager` yet, and a path has fewer than `2^31 - 1` references. -/
def Balanced (s : State P) : Act P → Prop
  | .main k ok => ∀ x ∈ s.sessions[k]?, x.MainOk s.registry ok
  | .init k _ => ∀ x ∈ s.sessions[k]?, x.init = .getBufferManager → s.registry.Room x.path
  | _ => True

instance (s : State P) : ∀ a, Decidable (Balanced s a)
  | .main _ _ | .init _ _ => inferInstanceAs (Decidable (∀ x ∈ _, _))
  | .newSession _ _ | .timeout _ | .close _ | .cleanup _ => isTrue trivial

/-! ## Counting -/

/-- A count as the registry has it. -/
def entry (n : ℕ) : Option ℤ := if n = 0 then none else some n

/-- The registry says how many users each path has, and maps the memory of those that
    have one. -/
structure GlobalBufferManager.Counts (r : GlobalBufferManager P) (n : P → ℕ) : Prop where
  refCount : ∀ path, r.refCount path = entry (n path)
  mapped : ∀ path, r.mapped path = min 1 (n path)
  small : ∀ path, n path < 2 ^ 31

variable {r r' : GlobalBufferManager P} {n n' : P → ℕ} {path : P} {ok : Bool}

theorem addInt32_of_lt {a c : ℤ} (h1 : -2 ^ 31 ≤ a + c) (h2 : a + c < 2 ^ 31) :
    addInt32 a c = a + c := by
  unfold addInt32
  rw [Int.bmod_eq_of_le]
  · simpa using h1
  · simpa using h2

theorem GlobalBufferManager.Counts.update (h : r.Counts n)
    (hother : ∀ q ≠ path, n' q = n q) (hsmall : n' path < 2 ^ 31) :
    GlobalBufferManager.Counts
      ⟨Function.update r.refCount path (entry (n' path)),
        Function.update r.mapped path (min 1 (n' path))⟩ n' := by
  refine ⟨fun q => ?_, fun q => ?_, fun q => ?_⟩
  · rcases eq_or_ne q path with rfl | hq
    · exact Function.update_self ..
    · rw [hother q hq, ← h.refCount]
      exact Function.update_of_ne hq ..
  · rcases eq_or_ne q path with rfl | hq
    · exact Function.update_self ..
    · rw [hother q hq, ← h.mapped]
      exact Function.update_of_ne hq ..
  · rcases eq_or_ne q path with rfl | hq
    · exact hsmall
    · rw [hother q hq]
      exact h.small q

theorem GlobalBufferManager.Counts.acquire (h : r.Counts n) (hroom : r.Room path)
    (hr : r.getGlobalBufferManager path ok = some r') (hother : ∀ q ≠ path, n' q = n q)
    (hone : n' path = n path + 1) : r'.Counts n' := by
  have hcount := h.refCount path
  have hmapped := h.mapped path
  unfold GlobalBufferManager.getGlobalBufferManager at hr
  by_cases h0 : n path = 0
  · rw [hcount, entry, if_pos h0] at hr
    cases ok with
    | false => cases hr
    | true =>
      cases hr
      have hnew := h.update hother (by omega)
      rw [hone, h0] at hnew
      rw [hmapped, h0]
      exact hnew
  · have hsome : r.refCount path = some (n path : ℤ) := by rw [hcount, entry, if_neg h0]
    rw [hsome] at hr
    cases hr
    have hlt := hroom _ hsome
    have hnew := h.update hother (by omega)
    have hentry : entry (n' path) = some (addInt32 (n path) 1) := by
      rw [addInt32_of_lt (by omega) hlt, entry, if_neg (by omega), hone]
      rfl
    have hmin : Function.update r.mapped path (min 1 (n' path)) = r.mapped := by
      rw [Function.update_eq_self_iff, hmapped]
      omega
    rwa [hentry, hmin] at hnew

theorem GlobalBufferManager.Counts.release (h : r.Counts n)
    (hother : ∀ q ≠ path, n' q = n q) (hone : n' path + 1 = n path) :
    (r.release path).Counts n' := by
  have hsmall := h.small path
  have hmapped := h.mapped path
  have hsome : r.refCount path = some (n path : ℤ) := by
    rw [h.refCount, entry, if_neg (by omega)]
  have hdec : addInt32 (n path) (-1) = n' path := by
    rw [addInt32_of_lt (by omega) (by omega)]
    omega
  have hnew := h.update hother (by omega)
  unfold GlobalBufferManager.release
  simp only [hsome, hdec]
  by_cases h0 : n' path = 0
  · rw [if_pos (by omega), hmapped]
    rw [h0] at hnew
    rw [show min 1 (n path) - 1 = min 1 0 by omega]
    exact hnew
  · rw [if_neg (by omega)]
    have hmin : Function.update r.mapped path (min 1 (n' path)) = r.mapped := by
      rw [Function.update_eq_self_iff, hmapped]
      omega
    rwa [entry, if_neg h0, hmin] at hnew

/-! ## What a step does to one session -/

/-- The session has a reference. -/
def Sess.Holds (x : Sess P) : Prop := x.bm = true ∧ x.main ≠ .failed ∧ x.main ≠ .cleaned

instance (x : Sess P) : Decidable x.Holds := inferInstanceAs (Decidable (_ ∧ _))

/-- What is known while the protocol is initialised, from the goroutine's position. -/
def Sess.InitOk (x : Sess P) : Prop :=
  match x.isClient, x.init with
  | true, .exchange => x.bm = true ∧ x.bufferManager = true ∧ x.resultCh = none
  | true, .finished => x.bm = true ∧ x.bufferManager = true
  | false, .mapQueue | false, .getBufferManager =>
    x.bm = false ∧ x.bufferManager = false ∧ x.resultCh = none
  | false, .assign => x.bm = true ∧ x.bufferManager = false ∧ x.resultCh = none
  | false, .ack => x.bm = true ∧ x.bufferManager = true ∧ x.resultCh = none
  | false, .finished => x.bufferManager = x.bm ∧ (x.resultCh = some true → x.bm = true)
  | _, _ => False

/-- What is known of a session from the position of `newSession`. -/
def Sess.Ok (x : Sess P) : Prop :=
  match x.main with
  | .getBufferManager =>
    x.isClient = true ∧ x.bm = false ∧ x.init = .notStarted ∧ x.resultCh = none
  | .createQueueManager =>
    x.isClient = true ∧ x.bm = true ∧ x.init = .notStarted ∧ x.resultCh = none
  | .initProtocol =>
    x.bm = x.isClient ∧ x.bufferManager = x.isClient ∧ x.init = .notStarted ∧ x.resultCh = none
  | .wait | .failInit => x.InitOk
  | .setCallback | .returned | .closing =>
    x.bm = true ∧ x.bufferManager = true ∧ x.init = .finished
  | .cleaned => x.init = .finished
  | .failed => x.init ≠ .mapQueue ∧ x.init ≠ .getBufferManager

/-- What a step does to the registry, given whether the session has a reference before and
    after. -/
inductive Move (r : GlobalBufferManager P) (x y : Sess P) : GlobalBufferManager P → Prop
  | keep : (x.Holds ↔ y.Holds) → Move r x y r
  | acquire {r' : GlobalBufferManager P} {ok : Bool} : ¬ x.Holds → y.Holds → r.Room x.path →
      r.getGlobalBufferManager x.path ok = some r' → Move r x y r'
  | release : x.Holds → ¬ y.Holds → Move r x y (r.release x.path)

/-- A step of one session keeps its path and what is known of it. -/
structure Good (r r' : GlobalBufferManager P) (x y : Sess P) : Prop where
  path : y.path = x.path
  ok : y.Ok
  move : Move r x y r'

variable {x y : Sess P}

theorem good_stepMain (h : x.Ok) (hok : x.MainOk r ok) (hs : stepMain r x ok = some (r', y)) :
    Good r r' x y := by
  obtain ⟨hqueue, hcall, hsettled, hroom⟩ := hok
  unfold stepMain at hs
  unfold Sess.Ok at h
  cases hm : x.main with
  | getBufferManager =>
    simp only [hm] at hs h
    obtain ⟨h1, h2, h3, h4⟩ := h
    cases hr : r.getGlobalBufferManager x.path ok with
    | none =>
      rw [hr] at hs
      cases hs
      exact ⟨rfl, by simp [Sess.Ok, h3], .keep (by simp [Sess.Holds, h2])⟩
    | some r₁ =>
      rw [hr] at hs
      cases hs
      exact ⟨rfl, ⟨h1, rfl, h3, h4⟩,
        .acquire (by simp [Sess.Holds, h2]) (by simp [Sess.Holds]) (hroom hm) hr⟩
  | createQueueManager =>
    simp only [hm] at hs h
    obtain ⟨h1, h2, h3, h4⟩ := h
    rw [hqueue hm] at hs
    cases hs
    exact ⟨rfl, ⟨h2.trans h1.symm, h1.symm, h3, h4⟩, .keep (by simp [Sess.Holds, h2, hm])⟩
  | initProtocol =>
    simp only [hm] at hs h
    obtain ⟨h1, h2, h3, h4⟩ := h
    cases hs
    refine ⟨rfl, ?_, .keep (by simp [Sess.Holds, hm])⟩
    cases hc : x.isClient <;> simp [Sess.Ok, Sess.InitOk, hc, h1, h2, h4]
  | wait =>
    simp only [hm] at hs h
    obtain ⟨result, hres, hs⟩ := Option.map_eq_some_iff.mp hs
    cases hs
    cases result with
    | false =>
      refine ⟨rfl, ?_, .keep (by simp [Sess.Holds, hm])⟩
      exact h
    | true =>
      have hfin : x.bm = true ∧ x.bufferManager = true ∧ x.init = .finished := by
        unfold Sess.InitOk at h
        cases hc : x.isClient <;> cases hi : x.init <;> simp_all
      exact ⟨rfl, hfin, .keep (by simp [Sess.Holds, hm])⟩
  | failInit =>
    simp only [hm] at hs h
    cases hs
    have hset := hsettled hm
    have hboth : x.bufferManager = x.bm ∧ x.init ≠ .mapQueue ∧ x.init ≠ .getBufferManager := by
      unfold Sess.InitOk at h
      unfold Sess.Settled at hset
      cases hc : x.isClient <;> cases hi : x.init <;> simp_all
    obtain ⟨hbm, hinit⟩ := hboth
    refine ⟨rfl, hinit, ?_⟩
    cases hb : x.bufferManager with
    | false =>
      rw [if_neg Bool.false_ne_true]
      exact .keep (by simp [Sess.Holds, ← hbm, hb])
    | true =>
      rw [if_pos rfl]
      exact .release (by simp [Sess.Holds, ← hbm, hb, hm]) (by simp [Sess.Holds])
  | setCallback =>
    simp only [hm] at hs h
    rw [hcall hm] at hs
    cases hs
    exact ⟨rfl, h, .keep (by simp [Sess.Holds, hm])⟩
  | failed | returned | closing | cleaned =>
    simp only [hm] at hs
    cases hs

theorem good_stepTimeout (h : x.Ok) (hs : stepTimeout r x = some (r', y)) : Good r r' x y := by
  unfold stepTimeout at hs
  split_ifs at hs with hm
  cases hs
  unfold Sess.Ok at h
  simp only [hm] at h
  exact ⟨rfl, h, .keep (by simp [Sess.Holds, hm])⟩

theorem good_stepClose (h : x.Ok) (hs : stepClose r x = some (r', y)) : Good r r' x y := by
  have h' := h
  unfold stepClose at hs
  unfold Sess.Ok at h'
  cases hm : x.main with
  | returned =>
    simp only [hm] at hs h'
    cases hs
    exact ⟨rfl, h', .keep (by simp [Sess.Holds, hm])⟩
  | closing | cleaned =>
    simp only [hm] at hs
    cases hs
    exact ⟨rfl, h, .keep Iff.rfl⟩
  | _ =>
    simp only [hm] at hs
    cases hs

theorem good_stepCleanup (h : x.Ok) (hs : stepCleanup r x = some (r', y)) : Good r r' x y := by
  by_cases hm : x.main = .closing
  · unfold Sess.Ok at h
    simp only [hm] at h
    obtain ⟨h1, h2, h3⟩ := h
    rw [stepCleanup, if_pos hm, if_pos h2] at hs
    cases hs
    exact ⟨rfl, h3, .release (by simp [Sess.Holds, h1, hm]) (by simp [Sess.Holds])⟩
  · rw [stepCleanup, if_neg hm] at hs
    cases hs

/-- The goroutine, while `newSession` waits for it or gives up on it. -/
theorem good_stepInit_of_initOk (hm : x.main = .wait ∨ x.main = .failInit) (h : x.InitOk)
    (hroom : x.init = .getBufferManager → r.Room x.path)
    (hs : stepInit r x ok = some (r', y)) : Good r r' x y := by
  have hok : ∀ z : Sess P, z.main = x.main → z.InitOk → z.Ok := by
    intro z hz hi
    unfold Sess.Ok
    rcases hm with hm | hm <;> simp only [hz, hm] <;> exact hi
  have hholds : ∀ z : Sess P, z.main = x.main → (z.Holds ↔ z.bm = true) := by
    intro z hz
    rcases hm with hm | hm <;> simp [Sess.Holds, hz, hm]
  have hkeep : ∀ z : Sess P, z.main = x.main → z.bm = x.bm → (x.Holds ↔ z.Holds) := by
    intro z hz hb
    rw [hholds z hz, hholds x rfl, hb]
  unfold stepInit at hs
  unfold Sess.InitOk at h
  cases hi : x.init with
  | notStarted | finished =>
    simp only [hi] at hs
    cases hs
  | exchange =>
    cases hc : x.isClient with
    | false => simp only [hc, hi] at h
    | true =>
      simp only [hc, hi] at hs h
      cases hs
      exact ⟨rfl, hok _ rfl (by simp [Sess.InitOk, h]), .keep (hkeep _ rfl rfl)⟩
  | mapQueue =>
    cases hc : x.isClient with
    | true => simp only [hc, hi] at h
    | false =>
      simp only [hc, hi] at hs h
      obtain ⟨h1, h2, h3⟩ := h
      cases hs
      cases ok
      · exact ⟨rfl, hok _ rfl (by simp [Sess.InitOk, h1, h2]), .keep (hkeep _ rfl rfl)⟩
      · exact ⟨rfl, hok _ rfl (by simp [Sess.InitOk, h1, h2, h3]), .keep (hkeep _ rfl rfl)⟩
  | getBufferManager =>
    cases hc : x.isClient with
    | true => simp only [hc, hi] at h
    | false =>
      simp only [hc, hi] at hs h
      obtain ⟨h1, h2, h3⟩ := h
      cases hr : r.getGlobalBufferManager x.path ok with
      | none =>
        rw [hr] at hs
        cases hs
        exact ⟨rfl, hok _ rfl (by simp [Sess.InitOk, h1, h2]), .keep (hkeep _ rfl rfl)⟩
      | some r₁ =>
        rw [hr] at hs
        cases hs
        exact ⟨rfl, hok _ rfl (by simp [Sess.InitOk, h2, h3]),
          .acquire (by simp [hholds x rfl, h1]) (by simp [hholds]) (hroom hi) hr⟩
  | assign | ack =>
    cases hc : x.isClient with
    | true => simp only [hc, hi] at h
    | false =>
      simp only [hc, hi] at hs h
      obtain ⟨h1, h2, h3⟩ := h
      cases hs
      exact ⟨rfl, hok _ rfl (by simp [Sess.InitOk, h1, h2, h3]), .keep (hkeep _ rfl rfl)⟩

/-- The goroutine, after `newSession` has given up on it. -/
theorem good_stepInit_of_failed (hm : x.main = .failed)
    (h : x.init ≠ .mapQueue ∧ x.init ≠ .getBufferManager)
    (hs : stepInit r x ok = some (r', y)) : Good r r' x y := by
  unfold stepInit at hs
  cases hi : x.init with
  | notStarted | finished =>
    simp only [hi] at hs
    cases hs
  | mapQueue => exact absurd hi h.1
  | getBufferManager => exact absurd hi h.2
  | exchange | assign | ack =>
    simp only [hi] at hs
    cases hs
    exact ⟨rfl, by simp [Sess.Ok, hm], .keep (by simp [Sess.Holds, hm])⟩

theorem good_stepInit (h : x.Ok) (hroom : x.init = .getBufferManager → r.Room x.path)
    (hs : stepInit r x ok = some (r', y)) : Good r r' x y := by
  have hrun : x.init ≠ .notStarted ∧ x.init ≠ .finished := by
    unfold stepInit at hs
    constructor <;> intro hi <;> simp only [hi] at hs <;> cases hs
  unfold Sess.Ok at h
  cases hm : x.main with
  | getBufferManager | createQueueManager | initProtocol =>
    simp only [hm] at h
    exact absurd h.2.2.1 hrun.1
  | wait | failInit =>
    simp only [hm] at h
    exact good_stepInit_of_initOk (by simp [hm]) h hroom hs
  | setCallback | returned | closing =>
    simp only [hm] at h
    exact absurd h.2.2 hrun.2
  | cleaned =>
    simp only [hm] at h
    exact absurd h hrun.2
  | failed =>
    simp only [hm] at h
    exact good_stepInit_of_failed hm h hs

/-! ## Runs -/

/-- The sessions on a path that have a reference: those that were returned and are not
    cleaned up, and those `newSession` is still working on. -/
def State.users (s : State P) (path : P) : ℕ :=
  (s.sessions.map fun x => if x.path = path ∧ x.Holds then 1 else 0).sum

/-- The sessions on a path that were returned and are not cleaned up. -/
def State.live (s : State P) (path : P) : ℕ :=
  (s.sessions.map fun x =>
    if x.path = path ∧ (x.main = .returned ∨ x.main = .closing) then 1 else 0).sum

structure Inv (s : State P) : Prop where
  ok : ∀ x ∈ s.sessions, x.Ok
  counts : s.registry.Counts s.users

variable {s t : State P}

/-- A step of one session moves the count of its path as it moves the registry. -/
theorem Inv.of_good {k : ℕ} (h : Inv s) (hk : s.sessions[k]? = some x)
    (hgood : Good s.registry r' x y) :
    Inv { registry := r', sessions := s.sessions.set k y } := by
  refine ⟨forall_set h.ok hgood.ok, ?_⟩
  have hsum := fun q => sum_map_set hk y fun z : Sess P => if z.path = q ∧ z.Holds then 1 else 0
  have hcounts := h.counts
  unfold State.users at hcounts ⊢
  obtain ⟨hpath, -, hmove⟩ := hgood
  simp only [hpath] at hsum
  have hother : ∀ q ≠ x.path,
      ((s.sessions.set k y).map fun z => if z.path = q ∧ z.Holds then 1 else 0).sum =
        (s.sessions.map fun z => if z.path = q ∧ z.Holds then 1 else 0).sum := by
    intro q hq
    have := hsum q
    simpa [Ne.symm hq] using this
  have hself := hsum x.path
  cases hmove with
  | keep hiff =>
    have hsame : (fun q => ((s.sessions.set k y).map fun z =>
        if z.path = q ∧ z.Holds then 1 else 0).sum) = fun q =>
          (s.sessions.map fun z => if z.path = q ∧ z.Holds then 1 else 0).sum := by
      funext q
      have := hsum q
      simp only [hiff] at this
      omega
    show GlobalBufferManager.Counts _ _
    rw [hsame]
    exact hcounts
  | acquire hx hy hroom hr =>
    refine hcounts.acquire hroom hr hother ?_
    simpa [hx, hy] using hself
  | release hx hy =>
    refine hcounts.release hother ?_
    simpa [hx, hy] using hself

/-- **Step.** -/
theorem inv_step {a : Act P} (h : Inv s) (hok : Balanced s a) (hs : step s a = some t) :
    Inv t := by
  have hon : ∀ k f, s.on k f = some t → (∀ r' x y, s.sessions[k]? = some x → x.Ok →
      f s.registry x = some (r', y) → Good s.registry r' x y) → Inv t := by
    intro k f hs hf
    obtain ⟨x, hk, hs⟩ := Option.bind_eq_some_iff.mp hs
    obtain ⟨⟨r', y⟩, hstep, rfl⟩ := Option.map_eq_some_iff.mp hs
    exact h.of_good hk (hf r' x y hk (h.ok x (List.mem_of_getElem? hk)) hstep)
  cases a with
  | newSession path isClient =>
    cases hs
    refine ⟨fun x hx => ?_, ?_⟩
    · rcases List.mem_append.mp hx with hx | hx
      · exact h.ok x hx
      · rw [List.mem_singleton.mp hx]
        cases isClient <;> simp [Sess.Ok]
    · have hcounts := h.counts
      unfold State.users at hcounts ⊢
      simpa [Sess.Holds] using hcounts
  | main k ok =>
    exact hon k (fun r x => stepMain r x ok) hs fun r' x y hk hx => good_stepMain hx (hok x hk)
  | timeout k => exact hon k _ hs fun r' x y _ hx => good_stepTimeout hx
  | init k ok =>
    exact hon k (fun r x => stepInit r x ok) hs fun r' x y hk hx => good_stepInit hx (hok x hk)
  | close k => exact hon k _ hs fun r' x y _ hx => good_stepClose hx
  | cleanup k => exact hon k _ hs fun r' x y _ hx => good_stepCleanup hx

/-- **Run.** -/
theorem inv_of_reachable (hr : (machine P).ReachableWhen Balanced s) : Inv s := by
  refine hr.invariant Inv (fun s hs => ?_) fun s a t h hok ht => inv_step h hok ht
  obtain rfl : s = {} := hs
  exact ⟨by simp, fun _ => rfl, fun _ => rfl, fun _ => by simp [State.users]⟩

/-- `newSession` has returned, with a session or with an error. -/
def Sess.Ended (x : Sess P) : Prop :=
  x.main = .returned ∨ x.main = .closing ∨ x.main = .cleaned ∨ x.main = .failed

theorem Sess.Ended.holds_iff {Q : Type*} {z : Sess Q} (h : z.Ended) (hok : z.Ok) :
    z.Holds ↔ z.main = .returned ∨ z.main = .closing := by
  unfold Sess.Ok at hok
  rcases h with hm | hm | hm | hm <;> simp_all [Sess.Holds]

/-- Between the calls of `newSession` only returned sessions have a reference. -/
theorem Inv.users_eq_live (h : Inv s) (hend : ∀ x ∈ s.sessions, x.Ended) (path : P) :
    s.users path = s.live path := by
  unfold State.users State.live
  refine congrArg List.sum (List.map_congr_left fun x hx => ?_)
  simp only [(hend x hx).holds_iff (h.ok x hx)]

/-- **Main theorem.** In every run as `Balanced` says, the count of a path is the number of
    sessions that have a reference, there is an entry exactly when it is positive, and the
    memory is mapped exactly then; between the calls of `newSession` these are the
    sessions that were returned and are not cleaned up. -/
theorem refCount_eq_sessions (hr : (machine P).ReachableWhen Balanced s) (path : P) :
    (s.registry.refCount path = entry (s.users path) ∧
      s.registry.mapped path = min 1 (s.users path)) ∧
    ((∀ x ∈ s.sessions, x.Ended) → s.users path = s.live path) := by
  have h := inv_of_reachable hr
  exact ⟨⟨h.counts.refCount path, h.counts.mapped path⟩, fun hend => h.users_eq_live hend path⟩

/-- A server and a client on one path; the client is closed twice. -/
def serverClientRun : List (Act ℕ) :=
  [.newSession 0 false, .main 0 true, .init 0 true, .init 0 true, .init 0 true, .init 0 true,
    .main 0 true, .main 0 true, .newSession 0 true, .main 1 true, .main 1 true, .main 1 true,
    .init 1 true, .main 1 true, .main 1 true, .close 1, .close 1, .cleanup 1]

instance (x : Sess P) : Decidable x.Ended := inferInstanceAs (Decidable (_ ∨ _))

theorem refCount_after_client_close : ∃ s, (machine ℕ).ReachableWhen Balanced s ∧
    s.live 0 = 1 ∧ s.registry.refCount 0 = entry 1 ∧ s.registry.mapped 0 = 1 := by
  obtain ⟨s, hs, hend, hlive⟩ := (machine ℕ).exists_reachableWhen_of_run Balanced {} serverClientRun
    (fun s => (∀ x ∈ s.sessions, x.Ended) ∧ s.live 0 = 1) rfl (by decide) (by decide)
  obtain ⟨⟨h1, h2⟩, h3⟩ := refCount_eq_sessions hs 0
  rw [h3 hend, hlive] at h1 h2
  exact ⟨s, hs, hlive, h1, h2⟩

/-- The queue of a client cannot be created. -/
def noQueueRun : List (Act ℕ) := [.newSession 0 true, .main 0 true, .main 0 false]

/-- The connection cannot be registered. -/
def noCallbackRun : List (Act ℕ) :=
  [.newSession 0 true, .main 0 true, .main 0 true, .main 0 true, .init 0 true, .main 0 true,
    .main 0 false]

/-- A server gives up before its goroutine takes the reference. -/
def lateInitRun : List (Act ℕ) :=
  [.newSession 0 false, .main 0 true, .timeout 0, .main 0 true, .init 0 true, .init 0 true,
    .init 0 true, .init 0 true]

/-- `newSession` has failed, and the registry keeps a reference of nobody. -/
theorem newSession_leaks : [noQueueRun, noCallbackRun, lateInitRun].Forall fun as =>
    ∃ s, (machine ℕ).run {} as = some s ∧ (machine ℕ).Reachable s ∧
      s.sessions.map Sess.main = [.failed] ∧ s.registry.refCount 0 = some 1 ∧ s.live 0 = 0 := by
  rw [List.forall_iff_forall_mem]
  intro as has
  obtain ⟨s, hs, hp⟩ : ∃ s ∈ (machine ℕ).run {} as, s.sessions.map Sess.main = [.failed] ∧
      s.registry.refCount 0 = some 1 ∧ s.live 0 = 0 := by
    revert as
    decide
  exact ⟨s, hs, (machine ℕ).run_reachable {} as rfl hs, hp⟩

end Shmipc.Registry
