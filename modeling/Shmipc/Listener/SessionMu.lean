import Shmipc.Listener.HotRestart

/-!
# `sessionMu` and the callbacks that come back to it

`sessions.sessionMu` (listener.go:297-346) is taken by `HotRestart`, `resetState`, `add`,
`closeAll` and `onHotRestart`, and by `removeShutdownSession`, which the first `Close` of a
session of the listener calls through `OnShutdown` (session.go:288-305). A write that
fails closes its session (`writeEventData`, `exitErr`), and `add` on a closed listener
does. Go's mutexes are not reentrant.

A goroutine is the stack of instructions it has still to execute, as the source has them
in sequence; a call pushes the callee's. Any number of goroutines are interleaved. On the slow
path of `Session.hotRestart` there is room in `sendCh` (session.go:708), so it does not wait.

Results:
* `requests_held_mutex`: `HotRestart` with a write that fails, and `add` on a closed
  listener, each request `sessionMu` while they hold it.
* `no_request_of_held_mutex`: in every run in which a write of `HotRestart` fails only on
  a session that is closed already, and `add` comes to a closed listener only with such a
  session (`Quiet`), no goroutine requests a mutex it holds; and a goroutine whose
  mutexes are not held by others returns.
-/

namespace Shmipc.SessionMu

open Common
open Listener (RestartState)

/-- `Listener.mu` and `sessions.sessionMu`. -/
inductive Mutex
  | mu
  | sessionMu
  deriving DecidableEq, Repr

inductive Instr
  | lock (m : Mutex)
  | unlock (m : Mutex)
  /-- `HotRestart`: the test and the change of `l.state`. -/
  | testRestart
  /-- `HotRestart`: the `range` over `sessions.data`. -/
  | rangeData
  /-- `HotRestart`: the sessions the loop has still to visit. -/
  | tell (ks : List ℕ)
  /-- `Session.hotRestart`: `writeEventData` on the fast path, or the channel. -/
  | write (k : ℕ)
  /-- `session.state = hotRestartState`. -/
  | mark (k : ℕ)
  /-- `Session.Close`. -/
  | closeSession (k : ℕ)
  /-- The body of `removeShutdownSession`. -/
  | removeShutdown
  /-- The rest of `Session.Close`: the notifications and the posted cleanup. -/
  | finishClose (k : ℕ)
  /-- `Listener.Close`: the test and the change of `isClose`. -/
  | testClose
  /-- `closeAll` under the mutex. -/
  | takeData
  /-- The body of `add`. -/
  | addSession (k : ℕ)
  /-- `resetState`: the listener's part. -/
  | resetListener
  /-- `resetState`: the sessions' part. -/
  | resetSessions
  /-- The body of `onHotRestart`. -/
  | countSessions
  deriving DecidableEq, Repr

/-- What is read of a session under the mutexes. -/
structure Info where
  handshakeDone : Bool := true
  state : RestartState := .default
  deriving DecidableEq, Repr

structure World where
  holder : Mutex → Option ℕ := fun _ => none
  /-- `sessions.data`; `none` is the nil map. -/
  data : Option (List ℕ) := some []
  /-- The sessions whose `shutdown` is set. -/
  shutdown : List ℕ := []
  info : ℕ → Info := fun _ => {}
  state : RestartState := .default
  isClose : Bool := false

structure State where
  world : World := {}
  goroutines : List (List Instr) := []

/-- The operations on the session set. -/
inductive Op
  | hotRestart
  | resetState
  | close
  | add (k : ℕ)
  | onHotRestart
  /-- `checkHotRestart` when the count is zero. -/
  | checkDone
  | sessionClose (k : ℕ)
  deriving DecidableEq, Repr

/-- The operations up to their first branch. -/
def Op.program : Op → List Instr
  | .hotRestart => [.lock .mu, .testRestart]
  | .resetState =>
    [.lock .mu, .resetListener, .lock .sessionMu, .resetSessions, .unlock .sessionMu, .unlock .mu]
  | .close => [.lock .mu, .testClose]
  | .add k => [.lock .sessionMu, .addSession k, .unlock .sessionMu]
  | .onHotRestart => [.lock .sessionMu, .countSessions, .unlock .sessionMu]
  | .checkDone =>
    [.lock .mu, .lock .sessionMu, .countSessions, .unlock .sessionMu, .unlock .mu]
  | .sessionClose k => [.closeSession k]

/-- One instruction of goroutine `g`, which has `rest` to do afterwards. `fast` and `ok` are
    the swap of `writing` and the outcome of the write. -/
def exec (w : World) (g : ℕ) (fast ok : Bool) (rest : List Instr) :
    Instr → Option (World × List Instr)
  | .lock m =>
    if w.holder m = none then
      some ({ w with holder := Function.update w.holder m (some g) }, rest)
    else none
  | .unlock m => some ({ w with holder := Function.update w.holder m none }, rest)
  | .testRestart =>
    if w.state = .hotRestart then some (w, .unlock .mu :: rest)
    else some ({ w with state := .hotRestart },
      .lock .sessionMu :: .rangeData :: .unlock .sessionMu :: .unlock .mu :: rest)
  | .rangeData => some (w, .tell (w.data.getD []) :: rest)
  | .tell [] => some (w, rest)
  | .tell (k :: ks) =>
    if !(w.info k).handshakeDone then some (w, rest)
    else if (w.info k).state ≠ .default then some (w, .tell ks :: rest)
    else some (w, .write k :: .mark k :: .tell ks :: rest)
  | .write k => some (w, if fast && !ok then .closeSession k :: rest else rest)
  | .mark k =>
    some ({ w with
      info := Function.update w.info k { w.info k with state := .hotRestart } }, rest)
  | .closeSession k =>
    if k ∈ w.shutdown then some (w, rest)
    else some ({ w with shutdown := k :: w.shutdown },
      .lock .sessionMu :: .removeShutdown :: .unlock .sessionMu :: .finishClose k :: rest)
  | .removeShutdown =>
    some ({ w with data := w.data.map fun d => d.filter fun k => k ∉ w.shutdown }, rest)
  | .finishClose _ => some (w, rest)
  | .testClose =>
    if w.isClose then some (w, .unlock .mu :: rest)
    else some ({ w with isClose := true },
      .lock .sessionMu :: .takeData :: .unlock .mu :: rest)
  | .takeData =>
    some ({ w with data := none },
      .unlock .sessionMu :: ((w.data.getD []).map .closeSession ++ rest))
  | .addSession k =>
    match w.data with
    | some d => some ({ w with data := some (d ++ [k]) }, rest)
    | none => some (w, .closeSession k :: rest)
  | .resetListener => some ({ w with state := .default }, rest)
  | .resetSessions =>
    some ({ w with info := fun k =>
      if k ∈ w.data.getD [] then { w.info k with state := .default } else w.info k }, rest)
  | .countSessions => some (w, rest)

/-- `call` starts an operation in a new goroutine; `reorder` is another order of iteration
    of the map. -/
inductive Act
  | call (op : Op)
  | go (g : ℕ) (fast ok : Bool)
  | reorder (d : List ℕ)
  deriving DecidableEq, Repr

def step (s : State) : Act → Option State
  | .call op => some { s with goroutines := s.goroutines ++ [op.program] }
  | .go g fast ok =>
    match s.goroutines[g]? with
    | some (i :: rest) => (exec s.world g fast ok rest i).map fun r =>
        { world := r.1, goroutines := s.goroutines.set g r.2 }
    | _ => none
  | .reorder d =>
    if ∃ d' ∈ s.world.data, d.Perm d' then some { s with world := { s.world with data := some d } }
    else none

/-- Any sessions, of which some may not have finished their handshake. -/
def machine : Sys State Act where
  init s := ∃ info, s = { world := { info := info } }
  next := step

/-! ## The condition -/

/-- The condition on an instruction: a write that fails is on a closed session, and so is
    an `add` on a closed listener. -/
def Instr.Quiet (w : World) (fast ok : Bool) : Instr → Prop
  | .write k => fast = true → ok = false → k ∈ w.shutdown
  | .addSession k => w.data = none → k ∈ w.shutdown
  | _ => True

instance (w : World) (fast ok : Bool) : ∀ i : Instr, Decidable (i.Quiet w fast ok)
  | .write _ => inferInstanceAs (Decidable (_ → _ → _))
  | .addSession _ => inferInstanceAs (Decidable (_ → _))
  | .lock _ | .unlock _ | .testRestart | .rangeData | .tell _ | .mark _ | .closeSession _
  | .removeShutdown | .finishClose _ | .testClose | .takeData | .resetListener | .resetSessions
  | .countSessions => isTrue trivial

def Quiet (s : State) : Act → Prop
  | .go g fast ok => ∀ stack ∈ s.goroutines[g]?, ∀ i ∈ stack.head?, i.Quiet s.world fast ok
  | _ => True

instance (s : State) : ∀ a, Decidable (Quiet s a)
  | .go _ _ _ => inferInstanceAs (Decidable (∀ stack ∈ _, _))
  | .call _ | .reorder _ => isTrue trivial

/-! ## Stacks that request nothing they hold -/

/-- The stack, executed with the mutexes `held`, requests none it holds and gives back what
    it holds; `shut` are sessions whose `Close` returns at once. -/
def Safe (shut : List ℕ) : (Mutex → Bool) → List Instr → Prop
  | held, [] => ∀ m, held m = false
  | held, .lock m :: r => held m = false ∧ Safe shut (Function.update held m true) r
  | held, .unlock m :: r => held m = true ∧ Safe shut (Function.update held m false) r
  | held, .closeSession k :: r => (held .sessionMu = false ∨ k ∈ shut) ∧ Safe shut held r
  | held, .testRestart :: r | held, .testClose :: r =>
    held .mu = true ∧ held .sessionMu = false ∧ Safe shut (Function.update held .mu false) r
  | held, .takeData :: r =>
    held .sessionMu = true ∧ Safe shut (Function.update held .sessionMu false) r
  | held, _ :: r => Safe shut held r

theorem safe_mono {shut shut' : List ℕ} (hsub : shut ⊆ shut') {stack : List Instr} :
    ∀ {held : Mutex → Bool}, Safe shut held stack → Safe shut' held stack := by
  induction stack with
  | nil => exact id
  | cons i r ih =>
    intro held h
    cases i with
    | lock m | unlock m => exact ⟨h.1, ih h.2⟩
    | closeSession k => exact ⟨h.1.imp_right fun hk => hsub hk, ih h.2⟩
    | testRestart | testClose => exact ⟨h.1, h.2.1, ih h.2.2⟩
    | takeData => exact ⟨h.1, ih h.2⟩
    | _ => exact ih h

theorem safe_closeSessions {shut ks : List ℕ} {held : Mutex → Bool} {r : List Instr}
    (hheld : held .sessionMu = false) (h : Safe shut held r) :
    Safe shut held (ks.map .closeSession ++ r) := by
  induction ks with
  | nil => exact h
  | cons k ks ih => exact ⟨.inl hheld, ih⟩

/-- A section under `sessionMu` inside one under `mu`. -/
theorem safe_section {shut : List ℕ} {held : Mutex → Bool} {r : List Instr}
    (hmu : held .mu = true) (hsm : held .sessionMu = false)
    (h : Safe shut (Function.update held .mu false) r) :
    Safe shut held
      (.lock .sessionMu :: .rangeData :: .unlock .sessionMu :: .unlock .mu :: r) := by
  have hback : Function.update (Function.update held .sessionMu true) .sessionMu false = held := by
    rw [Function.update_idem, Function.update_eq_self_iff, hsm]
  refine ⟨hsm, Function.update_self .., ?_⟩
  rw [hback]
  exact ⟨hmu, h⟩

theorem safe_program (shut : List ℕ) (op : Op) : Safe shut (fun _ => false) op.program := by
  cases op with
  | resetState | checkDone =>
    simp only [Op.program, Safe, Function.update]
    refine ⟨by simp, by simp, by simp, by simp, fun m => ?_⟩
    cases m <;> simp
  | _ => simp [Op.program, Safe, Function.update]

/-! ## One instruction -/

/-- The mutexes goroutine `g` holds. -/
def World.held (w : World) (g : ℕ) (m : Mutex) : Bool := w.holder m = some g

variable {w w' : World} {g : ℕ} {fast ok : Bool} {i : Instr} {rest stack : List Instr}

theorem held_update (m : Mutex) (o : Option ℕ) :
    World.held { w with holder := Function.update w.holder m o } g =
      Function.update (w.held g) m (decide (o = some g)) := by
  funext m'
  unfold World.held
  rcases eq_or_ne m' m with rfl | hne
  · simp
  · simp [Function.update_of_ne hne]

theorem held_lock (m : Mutex) :
    World.held { w with holder := Function.update w.holder m (some g) } g =
      Function.update (w.held g) m true := by
  rw [held_update, decide_eq_true rfl]

theorem held_unlock (m : Mutex) :
    World.held { w with holder := Function.update w.holder m none } g =
      Function.update (w.held g) m false := by
  rw [held_update, decide_eq_false nofun]

/-- A change of the holder of `m` that does not concern `g`. -/
theorem held_update_of_ne {m : Mutex} {o : Option ℕ} (hold : w.holder m ≠ some g)
    (hnew : o ≠ some g) :
    World.held { w with holder := Function.update w.holder m o } g = w.held g := by
  rw [held_update, Function.update_eq_self_iff, World.held, decide_eq_false hnew,
    decide_eq_false hold]

/-- **Step.** An instruction of a safe stack leaves a safe stack, and the mutexes of the other
    goroutines alone. -/
theorem safe_exec (h : Safe w.shutdown (w.held g) (i :: rest)) (hq : i.Quiet w fast ok)
    (he : exec w g fast ok rest i = some (w', stack)) :
    Safe w'.shutdown (w'.held g) stack ∧ w.shutdown ⊆ w'.shutdown ∧
      ∀ g' ≠ g, w'.held g' = w.held g' := by
  cases i with
  | lock m =>
    rw [exec] at he
    split_ifs at he with hm
    cases he
    refine ⟨?_, List.Subset.refl _, fun g' hne => ?_⟩
    · rw [held_lock]
      exact h.2
    · exact held_update_of_ne (by simp [hm]) (by simpa using hne.symm)
  | unlock m =>
    cases he
    refine ⟨?_, List.Subset.refl _, fun g' hne => ?_⟩
    · rw [held_unlock]
      exact h.2
    · have hm : w.holder m = some g := by simpa [World.held] using h.1
      exact held_update_of_ne (by simpa [hm] using hne.symm) (by simp)
  | testRestart | testClose =>
    obtain ⟨hmu, hsm, hr⟩ := h
    rw [exec] at he
    split_ifs at he
    · cases he
      exact ⟨⟨hmu, hr⟩, List.Subset.refl _, fun _ _ => rfl⟩
    · cases he
      exact ⟨safe_section hmu hsm hr, List.Subset.refl _, fun _ _ => rfl⟩
  | tell ks =>
    cases ks with
    | nil =>
      cases he
      exact ⟨h, List.Subset.refl _, fun _ _ => rfl⟩
    | cons k ks =>
      rw [exec] at he
      split_ifs at he <;> cases he <;> exact ⟨h, List.Subset.refl _, fun _ _ => rfl⟩
  | write k =>
    cases he
    refine ⟨?_, List.Subset.refl _, fun _ _ => rfl⟩
    split_ifs with hf
    · obtain ⟨h1, h2⟩ : fast = true ∧ ok = false := by simpa using hf
      exact ⟨.inr (hq h1 h2), h⟩
    · exact h
  | closeSession k =>
    rw [exec] at he
    split_ifs at he with hk
    · cases he
      exact ⟨h.2, List.Subset.refl _, fun _ _ => rfl⟩
    · cases he
      have hsm := h.1.resolve_right hk
      have hsub : w.shutdown ⊆ k :: w.shutdown := List.subset_cons_self ..
      refine ⟨⟨hsm, by simp, ?_⟩, hsub, fun _ _ => rfl⟩
      show Safe _ (Function.update (Function.update (w.held g) .sessionMu true) .sessionMu false)
        rest
      rw [Function.update_idem, Function.update_eq_self_iff.mpr hsm.symm]
      exact safe_mono hsub h.2
  | takeData =>
    cases he
    refine ⟨⟨h.1, ?_⟩, List.Subset.refl _, fun _ _ => rfl⟩
    exact safe_closeSessions (by simp) h.2
  | addSession k =>
    cases hd : w.data with
    | none =>
      simp only [exec, hd] at he
      cases he
      exact ⟨⟨.inr (hq hd), h⟩, List.Subset.refl _, fun _ _ => rfl⟩
    | some d =>
      simp only [exec, hd] at he
      cases he
      exact ⟨h, List.Subset.refl _, fun _ _ => rfl⟩
  | rangeData | mark k | removeShutdown | finishClose k | resetListener | resetSessions
  | countSessions =>
    cases he
    exact ⟨h, List.Subset.refl _, fun _ _ => rfl⟩

/-! ## Runs -/

/-- Every goroutine's stack is safe with the mutexes it holds. -/
def Inv (s : State) : Prop :=
  (∀ m g, s.world.holder m = some g → g < s.goroutines.length) ∧
  ∀ g stack, s.goroutines[g]? = some stack → Safe s.world.shutdown (s.world.held g) stack

variable {s t : State}

theorem inv_step {a : Act} (h : Inv s) (hq : Quiet s a) (hs : step s a = some t) : Inv t := by
  obtain ⟨hlt, hsafe⟩ := h
  cases a with
  | call op =>
    cases hs
    refine ⟨fun m g hg => ?_, fun g stack hg => ?_⟩
    · rw [List.length_append]
      exact Nat.lt_add_right _ (hlt m g hg)
    · rcases getElem?_concat_cases hg with hg | ⟨rfl, rfl⟩
      · exact hsafe g stack hg
      · -- a new goroutine holds nothing
        have hnone : s.world.held s.goroutines.length = fun _ => false := by
          funext m
          simpa [World.held] using fun hm => (hlt m _ hm).false
        rw [hnone]
        exact safe_program _ op
  | go g fast ok =>
    rw [step] at hs
    cases hk : s.goroutines[g]? with
    | none =>
      rw [hk] at hs
      cases hs
    | some stack =>
      cases stack with
      | nil =>
        rw [hk] at hs
        cases hs
      | cons i rest =>
        rw [hk] at hs
        obtain ⟨⟨w', stack'⟩, he, rfl⟩ := Option.map_eq_some_iff.mp hs
        obtain ⟨hnew, hsub, hothers⟩ := safe_exec (hsafe g _ hk) (hq _ hk i rfl) he
        refine ⟨fun m g' hg' => ?_, forall_getElem?_set hk hnew fun j c hj hc => ?_⟩
        · rw [List.length_set]
          by_cases hgg : g' = g
          · rw [hgg]
            exact (List.getElem?_eq_some_iff.mp hk).1
          · refine hlt m g' ?_
            have hiff : w'.holder m = some g' ↔ s.world.holder m = some g' := by
              simpa [World.held] using congrFun (hothers g' hgg) m
            exact hiff.mp hg'
        · rw [hothers j hj]
          exact safe_mono hsub (hsafe j c hc)
  | reorder d =>
    rw [step] at hs
    split_ifs at hs
    cases hs
    exact ⟨hlt, hsafe⟩

/-- **Run.** -/
theorem inv_of_reachable (hr : machine.ReachableWhen Quiet s) : Inv s := by
  refine hr.invariant Inv (fun s hs => ?_) fun s a t h hok ht => inv_step h hok ht
  obtain ⟨info, rfl⟩ := hs
  exact ⟨fun m g hg => (nomatch hg), fun g stack hg => (nomatch hg)⟩

/-! ## A goroutine that is not kept waiting ends -/

/-- An upper bound on the instructions a goroutine executes for one of its stack, with at
    most `n` sessions in the map. -/
def Instr.cost (n : ℕ) : Instr → ℕ
  | .closeSession _ => 5
  | .write _ => 6
  | .tell ks => 1 + 8 * ks.length
  | .rangeData => 2 + 8 * n
  | .testRestart => 6 + 8 * n
  | .takeData => 2 + 5 * n
  | .testClose => 5 + 5 * n
  | .addSession _ => 6
  | _ => 1

def stackCost (n : ℕ) (stack : List Instr) : ℕ := (stack.map (Instr.cost n)).sum

/-- The sessions an instruction adds to the map. -/
def Instr.adds : Instr → ℕ
  | .addSession _ => 1
  | _ => 0

/-- A bound on the size of the map while the stack is executed. -/
def size (w : World) (stack : List Instr) : ℕ :=
  (w.data.getD []).length + (stack.map Instr.adds).sum

theorem cost_mono {n n' : ℕ} (h : n ≤ n') (i : Instr) : i.cost n ≤ i.cost n' := by
  cases i <;> simp only [Instr.cost] <;> omega

theorem stackCost_mono {n n' : ℕ} (h : n ≤ n') (stack : List Instr) :
    stackCost n stack ≤ stackCost n' stack :=
  List.sum_le_sum fun i _ => cost_mono h i

theorem stackCost_closeSessions (n : ℕ) (ks : List ℕ) (r : List Instr) :
    stackCost n (ks.map .closeSession ++ r) = 5 * ks.length + stackCost n r := by
  induction ks with
  | nil => simp [stackCost]
  | cons k ks ih =>
    simp only [stackCost, List.map_cons, List.cons_append, List.sum_cons, Instr.cost,
      List.length_cons] at ih ⊢
    omega

theorem adds_closeSessions (ks : List ℕ) (r : List Instr) :
    ((ks.map Instr.closeSession ++ r).map Instr.adds).sum = (r.map Instr.adds).sum := by
  induction ks with
  | nil => rfl
  | cons k ks ih => simpa [Instr.adds] using ih

/-- Every instruction makes the cost of the stack smaller. -/
theorem cost_exec (he : exec w g fast ok rest i = some (w', stack)) :
    stackCost (size w' stack) stack < stackCost (size w (i :: rest)) (i :: rest) := by
  have hsmaller : size w' stack ≤ size w (i :: rest) →
      stackCost (size w (i :: rest)) stack < stackCost (size w (i :: rest)) (i :: rest) →
      stackCost (size w' stack) stack < stackCost (size w (i :: rest)) (i :: rest) :=
    fun h1 h2 => (stackCost_mono h1 stack).trans_lt h2
  cases i with
  | takeData =>
    cases he
    refine hsmaller ?_ ?_
    · simp only [size, List.map_cons, List.sum_cons, adds_closeSessions, Instr.adds]
      simp
    · simp only [stackCost, List.map_cons, List.sum_cons, Instr.cost]
      have := stackCost_closeSessions (size w (.takeData :: rest)) (w.data.getD []) rest
      simp only [stackCost] at this
      rw [this]
      have hle : (w.data.getD []).length ≤ size w (.takeData :: rest) := Nat.le_add_right ..
      omega
  | addSession k =>
    cases hd : w.data with
    | none =>
      simp only [exec, hd] at he
      cases he
      refine hsmaller ?_ ?_
      · simp [size, Instr.adds]
      · simp [stackCost, Instr.cost]
    | some d =>
      simp only [exec, hd] at he
      cases he
      refine hsmaller ?_ ?_
      · simp only [size, hd, Option.getD_some, List.map_cons, List.sum_cons, Instr.adds,
          List.length_append, List.length_singleton]
        omega
      · simp [stackCost, Instr.cost]
  | removeShutdown =>
    cases he
    refine hsmaller ?_ ?_
    · cases hd : w.data with
      | none => simp [size, hd]
      | some d =>
        have := List.length_filter_le (fun k => k ∉ w.shutdown) d
        simp only [size, hd, Option.map_some, Option.getD_some, List.map_cons, List.sum_cons]
        omega
    · simp [stackCost, Instr.cost]
  | tell ks =>
    cases ks with
    | nil =>
      cases he
      refine hsmaller ?_ ?_
      · simp [size, Instr.adds]
      · simp [stackCost, Instr.cost]
    | cons k ks =>
      rw [exec] at he
      split_ifs at he <;> cases he
      all_goals
        refine hsmaller ?_ ?_
        · simp [size, Instr.adds]
        · simp only [stackCost, List.map_cons, List.sum_cons, Instr.cost, List.length_cons]
          omega
  | write k =>
    cases he
    refine hsmaller ?_ ?_
    · split_ifs <;> simp [size, Instr.adds]
    · split_ifs <;> simp [stackCost, Instr.cost]
  | lock m | testRestart | closeSession k | testClose =>
    rw [exec] at he
    split_ifs at he <;> cases he
    all_goals
      refine hsmaller ?_ ?_
      · simp [size, Instr.adds]
      · simp only [stackCost, List.map_cons, List.sum_cons, Instr.cost]
        omega
  | rangeData =>
    cases he
    refine hsmaller ?_ ?_
    · simp [size, Instr.adds]
    · simp only [stackCost, List.map_cons, List.sum_cons, Instr.cost]
      have hle : (w.data.getD []).length ≤ size w (.rangeData :: rest) := Nat.le_add_right ..
      omega
  | unlock m | mark k | finishClose k | resetListener | resetSessions | countSessions =>
    cases he
    refine hsmaller ?_ ?_
    · simp [size, Instr.adds]
    · simp [stackCost, Instr.cost]

/-- The only instruction that waits is `lock`. -/
theorem exec_eq_none (he : exec w g fast ok rest i = none) :
    ∃ m, i = .lock m ∧ w.holder m ≠ none := by
  cases i with
  | lock m =>
    rw [exec] at he
    split_ifs at he with hm
    exact ⟨m, rfl, hm⟩
  | tell ks =>
    cases ks with
    | nil => cases he
    | cons k ks =>
      rw [exec] at he
      split_ifs at he
  | testRestart | closeSession k | testClose =>
    rw [exec] at he
    split_ifs at he
  | addSession k =>
    rw [exec] at he
    cases hd : w.data <;> simp [hd] at he
  | _ => cases he

/-- A goroutine changes the holder of a mutex to itself or to nobody. -/
theorem holder_exec (he : exec w g fast ok rest i = some (w', stack)) (m : Mutex) :
    w'.holder m = w.holder m ∨ w'.holder m = some g ∨ w'.holder m = none := by
  cases i with
  | lock m' =>
    rw [exec] at he
    split_ifs at he
    cases he
    rcases eq_or_ne m m' with rfl | hne
    · exact .inr (.inl (Function.update_self ..))
    · exact .inl (Function.update_of_ne hne ..)
  | unlock m' =>
    cases he
    rcases eq_or_ne m m' with rfl | hne
    · exact .inr (.inr (Function.update_self ..))
    · exact .inl (Function.update_of_ne hne ..)
  | tell ks =>
    cases ks with
    | nil =>
      cases he
      exact .inl rfl
    | cons k ks =>
      rw [exec] at he
      split_ifs at he <;> cases he <;> exact .inl rfl
  | testRestart | closeSession k | testClose =>
    rw [exec] at he
    split_ifs at he <;> cases he <;> exact .inl rfl
  | addSession k =>
    cases hd : w.data <;> simp only [exec, hd] at he <;> cases he <;> exact .inl rfl
  | _ =>
    cases he
    exact .inl rfl

/-- Every mutex is free or held by `g`. -/
def World.FreeFor (w : World) (g : ℕ) : Prop := ∀ m, w.holder m = none ∨ w.holder m = some g

/-- A step of goroutine `g`. -/
def Of (g : ℕ) (a : Act) : Prop := ∃ fast ok, a = .go g fast ok

/-- Goroutine `g` has returned, or requests a mutex it holds. -/
def Stopped (g : ℕ) (s : State) : Prop :=
  s.goroutines[g]? = some [] ∨
    ∃ m rest, s.goroutines[g]? = some (.lock m :: rest) ∧ s.world.holder m = some g

/-- With nobody else holding a mutex, a goroutine comes to its end. -/
theorem inevitable_stopped {stack : List Instr} (hg : s.goroutines[g]? = some stack)
    (hfree : s.world.FreeFor g) : machine.Inevitable (Of g) (Stopped g) s := by
  refine Sys.inevitable_of_decreasing
    (fun s => (s.goroutines[g]?.map fun stack => stackCost (size s.world stack) stack).getD 0)
    (fun s => (∃ stack, s.goroutines[g]? = some stack) ∧ s.world.FreeFor g) ?_ ?_ ⟨⟨_, hg⟩, hfree⟩
  · rintro s ⟨⟨stack, hg⟩, hfree⟩
    cases stack with
    | nil => exact .inl (.inl hg)
    | cons i rest =>
      cases he : exec s.world g true true rest i with
      | none =>
        obtain ⟨m, rfl, hm⟩ := exec_eq_none he
        exact .inl (.inr ⟨m, rest, hg, (hfree m).resolve_left hm⟩)
      | some r =>
        refine .inr ⟨.go g true true, { world := r.1, goroutines := s.goroutines.set g r.2 },
          ⟨true, true, rfl⟩, ?_⟩
        show step s (.go g true true) = _
        simp only [step, hg, he, Option.map_some]
  · rintro s a t ⟨⟨stack, hg⟩, hfree⟩ - ⟨fast, ok, rfl⟩ hs
    change step s (.go g fast ok) = some t at hs
    cases stack with
    | nil =>
      simp only [step, hg] at hs
      cases hs
    | cons i rest =>
      simp only [step, hg] at hs
      obtain ⟨⟨w', stack'⟩, he, rfl⟩ := Option.map_eq_some_iff.mp hs
      have hnew : (s.goroutines.set g stack')[g]? = some stack' :=
        List.getElem?_set_self (List.getElem?_eq_some_iff.mp hg).1
      refine ⟨⟨⟨_, hnew⟩, fun m => ?_⟩, ?_⟩
      · rcases holder_exec he m with h | h | h
        · rw [h]
          exact hfree m
        · exact .inr h
        · exact .inl h
      · simp only [hnew, hg, Option.map_some, Option.getD_some]
        exact cost_exec he

/-- The machine, while it goes on as `Quiet` says. -/
def quietMachine : Sys State Act where
  init := machine.init
  next s a := if Quiet s a then step s a else none

/-- Goroutine `g` has returned, or there is no step of it as `Quiet` says. -/
def Returned (g : ℕ) (s : State) : Prop :=
  s.goroutines[g]? = some [] ∨ ∀ fast ok, ¬Quiet s (.go g fast ok)

theorem Inv.not_held {m : Mutex} (h : Inv s) (hg : s.goroutines[g]? = some (.lock m :: rest)) :
    s.world.holder m ≠ some g := by
  intro hm
  have hheld : s.world.held g m = false := (h.2 g _ hg).1
  simp [World.held, hm] at hheld

/-- Whether there is a step of `g` does not depend on its outcome. -/
theorem step_go_outcome (hs : step s (.go g fast ok) = some t) (fast' ok' : Bool) :
    ∃ t, step s (.go g fast' ok') = some t := by
  cases hg : s.goroutines[g]? with
  | none => simp [step, hg] at hs
  | some stack =>
    cases stack with
    | nil => simp [step, hg] at hs
    | cons i rest =>
      simp only [step, hg] at hs ⊢
      cases he : exec s.world g fast' ok' rest i with
      | some r => exact ⟨_, rfl⟩
      | none =>
        obtain ⟨m, rfl, hm⟩ := exec_eq_none he
        simp [exec, hm] at hs

/-- A goroutine that comes to its end returns, if it goes on as `Quiet` says. -/
theorem inevitable_returned (h : machine.Inevitable (Of g) (Stopped g) s) (hi : Inv s) :
    quietMachine.Inevitable (Of g) (Returned g) s := by
  induction h with
  | now hs =>
    obtain hret | ⟨m, rest, hg, hm⟩ := hs
    · exact .now (.inl hret)
    · exact absurd hm (hi.not_held hg)
  | @later s hgo _ ih =>
    by_cases hq : ∀ fast ok, ¬Quiet s (.go g fast ok)
    · exact .now (.inr hq)
    push Not at hq
    obtain ⟨fast, ok, hq⟩ := hq
    obtain ⟨_, _, ⟨fast', ok', rfl⟩, hs⟩ := hgo
    obtain ⟨t, ht⟩ := step_go_outcome hs fast ok
    refine .later ⟨_, t, ⟨fast, ok, rfl⟩, (if_pos hq).trans ht⟩ fun a t ha ht => ?_
    obtain ⟨hqa, hstep⟩ := Option.ite_none_right_eq_some.mp ht
    exact ih a t ha hstep (inv_step hi hqa hstep)

/-- **Main theorem.** In every run as `Quiet` says, no goroutine requests a mutex it holds; and
    a goroutine whose mutexes nobody else holds comes to its end whatever the outcomes of its
    writes, and returns if it goes on as `Quiet` says. -/
theorem no_request_of_held_mutex (hr : machine.ReachableWhen Quiet s) (g : ℕ) :
    (∀ m rest, s.goroutines[g]? = some (.lock m :: rest) → s.world.holder m ≠ some g) ∧
    ∀ stack, s.goroutines[g]? = some stack → s.world.FreeFor g →
      machine.Inevitable (Of g) (Stopped g) s ∧ quietMachine.Inevitable (Of g) (Returned g) s := by
  have hi := inv_of_reachable hr
  refine ⟨fun m rest hg => hi.not_held hg, fun stack hg hfree => ?_⟩
  have hstops := inevitable_stopped hg hfree
  exact ⟨hstops, inevitable_returned hstops hi⟩

/-- A session is added, and the listener restarts with a write that succeeds; the last step
    is to the request of `sessionMu`. -/
def restartRun : List Act :=
  [.call (.add 0), .go 0 true true, .go 0 true true, .go 0 true true, .call .hotRestart,
    .go 1 true true, .go 1 true true]

theorem no_request_in_hotRestart : ∃ s, machine.ReachableWhen Quiet s ∧
    s.goroutines[1]? = some [.lock .sessionMu, .rangeData, .unlock .sessionMu, .unlock .mu] ∧
    s.world.holder .mu = some 1 ∧ s.world.holder .sessionMu ≠ some 1 ∧
    quietMachine.Inevitable (Of 1) (Returned 1) s := by
  obtain ⟨s, hs, hg, hmu, hsm⟩ := machine.exists_reachableWhen_of_run Quiet {} restartRun
    (fun s => s.goroutines[1]? =
        some [.lock .sessionMu, .rangeData, .unlock .sessionMu, .unlock .mu] ∧
      s.world.holder .mu = some 1 ∧ s.world.holder .sessionMu = none)
    ⟨fun _ => {}, rfl⟩ (by decide) (by decide)
  obtain ⟨h1, h2⟩ := no_request_of_held_mutex hs 1
  refine ⟨s, hs, hg, hmu, h1 _ _ hg, (h2 _ hg fun m => ?_).2⟩
  cases m with
  | mu => exact .inr hmu
  | sessionMu => exact .inl hsm

/-- `HotRestart` with one session, whose write fails. -/
def failedWriteRun : List Act :=
  [.call (.add 0), .go 0 true true, .go 0 true true, .go 0 true true, .call .hotRestart,
    .go 1 true true, .go 1 true true, .go 1 true true, .go 1 true true, .go 1 true true,
    .go 1 true false, .go 1 true true]

/-- The listener is closed, and a connection it has accepted is added. -/
def lateAddRun : List Act :=
  [.call .close, .go 0 true true, .go 0 true true, .go 0 true true, .go 0 true true,
    .go 0 true true, .go 0 true true, .call (.add 0), .go 1 true true, .go 1 true true,
    .go 1 true true]

/-- Goroutine 1 holds `sessionMu` and requests it. -/
theorem requests_held_mutex : [failedWriteRun, lateAddRun].Forall fun as =>
    ∃ s, machine.run {} as = some s ∧ machine.Reachable s ∧
      s.world.holder .sessionMu = some 1 ∧
      ∃ stack, s.goroutines[1]? = some stack ∧ stack.head? = some (.lock .sessionMu) := by
  rw [List.forall_iff_forall_mem]
  intro as has
  obtain ⟨s, hs, hsm, hg⟩ : ∃ s ∈ machine.run {} as, s.world.holder .sessionMu = some 1 ∧
      s.goroutines[1]?.bind List.head? = some (.lock .sessionMu) := by
    revert as
    decide
  have hr := machine.run_reachable {} as ⟨fun _ => {}, rfl⟩ hs
  exact ⟨s, hs, hr, hsm, Option.bind_eq_some_iff.mp hg⟩

end Shmipc.SessionMu
