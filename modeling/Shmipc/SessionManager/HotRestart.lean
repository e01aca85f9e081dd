import Shmipc.Listener.HotRestart

/-!
# The hot restart of a session manager

A `SessionManager` has one pool of streams per session. `handleSessionManagerHotRestart`
(session_manager.go:296-349) replaces the pool of the session that received the event by a
new one and keeps the old one in `reservePools`; `checkHotRestart`
(session_manager.go:251-285) answers the server once both have the same size. One
goroutine per pool rebuilds sessions that were closed (session_manager.go:185-249); it
stores the new session after it has given up the lock.

Pools are numbered in the order of their creation. The pools at the beginning of the
restart, its epoch, the number of pools created before it and the acks that were sent are
kept beside the code's state.

Result:
* `acks_after_all_moved`: in every run, whenever `checkHotRestart` sends its acks, every pool
  was replaced in this restart by one with a session of its epoch, `reservePools` holds
  exactly the pools that were replaced, and the epoch is that of the restart.
-/

namespace Shmipc.SessionManager

open Common
open Listener (RestartState)

/-- The session stored in a pool. -/
structure Sess where
  epochID : ℕ
  closed : Bool := false
  deriving DecidableEq, Repr

/-- Where the goroutine of a pool is. -/
inductive LoopPc
  /-- The test of `sm.state` and the read of `sm.pools[id]`. -/
  | readState
  /-- `<-pool.Session().CloseChan()` and the second test of `sm.state`. -/
  | waitClose (pool : ℕ)
  /-- `pool.close()`. -/
  | closePool (pool : ℕ)
  /-- After the timer: the section under the lock. -/
  | rebuild (pool : ℕ)
  /-- `pool.session.Store(session)`, with the session's epoch. -/
  | store (pool : ℕ) (epochID : ℕ)
  deriving DecidableEq, Repr

structure State where
  pools : List ℕ
  reservePools : List (ℕ × ℕ) := []
  /-- The session in each pool. -/
  session : ℕ → Sess := fun _ => { epochID := 0 }
  /-- The number of pools created. -/
  next : ℕ
  epoch : ℕ := 0
  state : RestartState := .default
  /-- The goroutines in `checkHotRestart`. -/
  checkers : ℕ := 0
  loops : List LoopPc
  /-- `pools`, the epoch and `next` at the beginning of the restart. -/
  before : List ℕ := []
  began : ℕ := 0
  mark : ℕ := 0
  /-- The calls of `hotRestart(epoch, typeHotRestartAck)`, with the pool whose session
      makes it. -/
  acks : List (ℕ × ℕ) := []

/-- The steps; `ok` is whether a new session can be created. -/
inductive Act
  | event (sessionID epoch : ℕ) (ok : Bool)
  | tick
  | timeout
  | sessionClosed (pool : ℕ)
  | loop (k : ℕ) (ok : Bool)
  deriving DecidableEq, Repr

/-- `streamPool.close` on some pools. -/
def closePools (ps : List ℕ) (session : ℕ → Sess) (p : ℕ) : Sess :=
  if p ∈ ps then { session p with closed := true } else session p

/-- "the first session to receive hot restart event will clear reservePools and set state" -/
def State.begin (s : State) (epoch : ℕ) : State :=
  if s.state = .hotRestart then s
  else { s with
    state := .hotRestart
    epoch := epoch
    session := closePools (s.reservePools.map Prod.snd) s.session
    reservePools := []
    checkers := s.checkers + 1
    before := s.pools
    began := epoch
    mark := s.next }

/-- The new pool takes the place of the old one. An index out of range panics, which
    the handler recovers from. -/
def State.replace (s : State) (sessionID : ℕ) : State :=
  match s.pools[sessionID]? with
  | none => s
  | some p => { s with
      session := Function.update s.session s.next { epochID := s.epoch }
      next := s.next + 1
      reservePools := s.reservePools ++ [(sessionID, p)]
      pools := s.pools.set sessionID s.next }

/-- `handleSessionManagerHotRestart`. -/
def State.handleHotRestart (s : State) (sessionID epoch : ℕ) (ok : Bool) : State :=
  if s.state = .hotRestart ∧ s.epoch ≠ epoch then s
  else if sessionID ∈ (s.begin epoch).reservePools.map Prod.fst then s.begin epoch
  else if ok then (s.begin epoch).replace sessionID
  else s.begin epoch

/-- The step of the goroutine of pool `k`. -/
def stepLoop (s : State) (k : ℕ) (ok : Bool) : LoopPc → Option (State × LoopPc)
  | .readState =>
    if s.state = .hotRestart then some (s, .readState)
    else s.pools[k]?.map fun p => (s, .waitClose p)
  | .waitClose p =>
    if (s.session p).closed then
      some (s, if s.state = .hotRestart then .readState else .closePool p)
    else none
  | .closePool p => some ({ s with session := closePools [p] s.session }, .rebuild p)
  | .rebuild p => s.pools[k]?.map fun q =>
      (s, if (s.session q).epochID ≠ (s.session p).epochID then .readState
        else if ok then .store p s.epoch else .rebuild p)
  | .store p epochID =>
    some ({ s with session := Function.update s.session p { epochID := epochID } }, .readState)

def step (s : State) : Act → Option State
  | .event sessionID epoch ok => some (s.handleHotRestart sessionID epoch ok)
  | .tick =>
    if s.checkers = 0 then none
    else if s.reservePools.length = s.pools.length then
      some { s with
        state := .default
        acks := s.acks ++ s.reservePools.map fun x => (s.epoch, x.2)
        checkers := s.checkers - 1 }
    else some s
  | .timeout =>
    if s.checkers = 0 then none
    else some { s with
      state := .default
      session := closePools (s.reservePools.map Prod.snd) s.session
      reservePools := []
      checkers := s.checkers - 1 }
  | .sessionClosed p => some { s with session := closePools [p] s.session }
  | .loop k ok =>
    s.loops[k]?.bind fun pc => (stepLoop s k ok pc).map fun r =>
      { r.1 with loops := r.1.loops.set k r.2 }

/-- `NewSessionManager` with `n` sessions. -/
def initial (n : ℕ) : State where
  pools := List.range n
  next := n
  loops := List.replicate n .readState

def machine (n : ℕ) : Sys State Act where
  init s := s = initial n
  next := step

/-! ## The invariant -/

/-- The pool the goroutine works on. -/
def LoopPc.pool : LoopPc → Option ℕ
  | .readState => none
  | .waitClose p | .closePool p | .rebuild p | .store p _ => some p

/-- What is known during a restart. -/
structure Restart (s : State) : Prop where
  epoch : s.epoch = s.began
  length : s.before.length = s.pools.length
  mark : s.mark ≤ s.next
  before : ∀ p ∈ s.before, p < s.mark
  /-- No goroutine works on a pool of this restart: it takes one only outside of it. -/
  captured : ∀ pc ∈ s.loops, ∀ p ∈ pc.pool, p < s.mark
  keys : (s.reservePools.map Prod.fst).Nodup
  moved : ∀ x ∈ s.reservePools, s.before[x.1]? = some x.2 ∧
    ∃ q, s.pools[x.1]? = some q ∧ s.mark ≤ q ∧ (s.session q).epochID = s.epoch
  kept : ∀ k, k ∉ s.reservePools.map Prod.fst → s.pools[k]? = s.before[k]?

structure Inv (n : ℕ) (s : State) : Prop where
  length : s.pools.length = n
  pools : ∀ p ∈ s.pools, p < s.next
  captured : ∀ pc ∈ s.loops, ∀ p ∈ pc.pool, p < s.next
  checkers : s.checkers = if s.state = .hotRestart then 1 else 0
  restart : s.state = .hotRestart → Restart s

variable {s t : State} {n : ℕ}

theorem inv_initial (n : ℕ) : Inv n (initial n) where
  length := List.length_range
  pools p hp := List.mem_range.mp hp
  captured pc hpc p hp := by
    rw [List.eq_of_mem_replicate hpc] at hp
    cases hp
  checkers := rfl
  restart h := nomatch h

theorem epochID_closePools (ps : List ℕ) (session : ℕ → Sess) (p : ℕ) :
    (closePools ps session p).epochID = (session p).epochID := by
  unfold closePools
  split_ifs <;> rfl

/-- A change of sessions that leaves the epochs of the restart's pools alone. -/
theorem Inv.of_session {f : ℕ → Sess} (h : Inv n s)
    (hf : s.state = .hotRestart → ∀ q, s.mark ≤ q → (f q).epochID = (s.session q).epochID) :
    Inv n { s with session := f } := by
  refine ⟨h.length, h.pools, h.captured, h.checkers, fun hst => ?_⟩
  obtain ⟨h1, h2, h3, h4, h5, h6, h7, h8⟩ := h.restart hst
  refine ⟨h1, h2, h3, h4, h5, h6, fun x hx => ?_, h8⟩
  obtain ⟨hb, q, hq, hm, he⟩ := h7 x hx
  exact ⟨hb, q, hq, hm, (hf hst q hm).trans he⟩

/-! ## The events -/

theorem inv_begin (h : Inv n s) (epoch : ℕ) : Inv n (s.begin epoch) := by
  unfold State.begin
  split_ifs with hst
  · exact h
  · refine ⟨h.length, h.pools, h.captured, ?_, fun _ => ?_⟩
    · have hc := h.checkers
      rw [if_neg hst] at hc
      show s.checkers + 1 = 1
      rw [hc]
    · exact ⟨rfl, rfl, le_rfl, h.pools, h.captured, List.nodup_nil,
        fun x hx => absurd hx List.not_mem_nil, fun k _ => rfl⟩

theorem state_begin (epoch : ℕ) : (s.begin epoch).state = .hotRestart := by
  unfold State.begin
  split_ifs with hst
  · exact hst
  · rfl

/-- A pool is replaced once in a restart. -/
theorem inv_replace {k : ℕ} (h : Inv n s) (hst : s.state = .hotRestart)
    (hk : k ∉ s.reservePools.map Prod.fst) : Inv n (s.replace k) := by
  unfold State.replace
  cases hp : s.pools[k]? with
  | none => exact h
  | some p =>
    have hr := h.restart hst
    have hlt : k < s.pools.length := (List.getElem?_eq_some_iff.mp hp).1
    refine ⟨(List.length_set ..).trans h.length, fun q hq => ?_,
      fun pc hpc q hq => (h.captured pc hpc q hq).trans (Nat.lt_succ_self _), h.checkers,
      fun _ => ?_⟩
    · rcases List.mem_or_eq_of_mem_set hq with hq | rfl
      · exact (h.pools q hq).trans (Nat.lt_succ_self _)
      · exact Nat.lt_succ_self _
    · refine ⟨hr.epoch, by simpa using hr.length, hr.mark.trans (Nat.le_succ _), hr.before,
        hr.captured, ?_, fun x hx => ?_, fun j hj => ?_⟩
      · simp only [List.map_append, List.map_cons, List.map_nil]
        exact List.nodup_append.mpr ⟨hr.keys, List.nodup_singleton _, by
          intro a ha b hb
          rw [List.mem_singleton.mp hb]
          rintro rfl
          exact hk ha⟩
      · rcases List.mem_append.mp hx with hold | hnew
        · obtain ⟨hb, q, hq, hm, he⟩ := hr.moved x hold
          have hne : k ≠ x.1 := by
            rintro rfl
            exact hk (List.mem_map_of_mem hold)
          refine ⟨hb, q, by simpa [List.getElem?_set_ne hne] using hq, hm, ?_⟩
          have hqn : q ≠ s.next := (h.pools q (List.mem_of_getElem? hq)).ne
          simpa [Function.update_of_ne hqn] using he
        · rw [List.mem_singleton.mp hnew]
          refine ⟨(hr.kept k hk).symm.trans hp, s.next, List.getElem?_set_self hlt, hr.mark, ?_⟩
          simp
      · have hjk : j ∉ s.reservePools.map Prod.fst ∧ j ≠ k := by simpa using hj
        show (s.pools.set k s.next)[j]? = s.before[j]?
        rw [List.getElem?_set_ne hjk.2.symm]
        exact hr.kept j hjk.1

theorem inv_handleHotRestart (h : Inv n s) (sessionID epoch : ℕ) (ok : Bool) :
    Inv n (s.handleHotRestart sessionID epoch ok) := by
  have hb := inv_begin h epoch
  unfold State.handleHotRestart
  split_ifs with h1 h2
  · exact h
  · exact hb
  · exact inv_replace hb (state_begin epoch) h2
  · exact hb

/-! ## The goroutines of the pools -/

/-- A goroutine goes on to a pool that it had or that is of no restart in progress. -/
theorem Inv.of_loop {k : ℕ} {pc : LoopPc} (h : Inv n s)
    (hpc : ∀ p ∈ pc.pool, p < s.next ∧ (s.state = .hotRestart → p < s.mark)) :
    Inv n { s with loops := s.loops.set k pc } := by
  refine ⟨h.length, h.pools, forall_set h.captured fun p hp => (hpc p hp).1, h.checkers, fun hst => ?_⟩
  obtain ⟨h1, h2, h3, h4, h5, h6, h7, h8⟩ := h.restart hst
  exact ⟨h1, h2, h3, h4, forall_set h5 fun p hp => (hpc p hp).2 hst, h6, h7, h8⟩

theorem inv_stepLoop {k : ℕ} {ok : Bool} {pc pc' : LoopPc} (h : Inv n s)
    (hk : s.loops[k]? = some pc) (hs : stepLoop s k ok pc = some (t, pc')) :
    Inv n { t with loops := t.loops.set k pc' } := by
  have hmem := List.mem_of_getElem? hk
  have hown : ∀ p ∈ pc.pool, p < s.next ∧ (s.state = .hotRestart → p < s.mark) := fun p hp =>
    ⟨h.captured pc hmem p hp, fun hst => (h.restart hst).captured pc hmem p hp⟩
  cases pc with
  | readState =>
    rw [stepLoop] at hs
    split_ifs at hs with hst
    · cases hs
      exact h.of_loop fun p hp => nomatch hp
    · obtain ⟨p, hp, he⟩ := Option.map_eq_some_iff.mp hs
      cases he
      refine h.of_loop fun q hq => ?_
      cases hq
      exact ⟨h.pools p (List.mem_of_getElem? hp), fun hst' => absurd hst' hst⟩
  | waitClose p =>
    rw [stepLoop] at hs
    split_ifs at hs with hc hst
    · cases hs
      exact h.of_loop fun p hp => nomatch hp
    · cases hs
      exact h.of_loop hown
  | closePool p =>
    cases hs
    have h' : Inv n { s with session := closePools [p] s.session } :=
      h.of_session fun _ q _ => epochID_closePools ..
    exact h'.of_loop hown
  | rebuild p =>
    obtain ⟨q, -, he⟩ := Option.map_eq_some_iff.mp hs
    cases he
    refine h.of_loop fun p' hp' => ?_
    split_ifs at hp'
    · cases hp'
    · exact hown p' hp'
    · exact hown p' hp'
  | store p epochID =>
    cases hs
    have h' : Inv n { s with session := Function.update s.session p { epochID := epochID } } := by
      refine h.of_session fun hst q hq => ?_
      -- the pool was taken before the restart, so it is not one of the restart's
      have hne : q ≠ p := fun he => absurd ((hown p rfl).2 hst) (not_lt.mpr (he ▸ hq))
      rw [Function.update_of_ne hne]
    exact h'.of_loop fun p hp => nomatch hp

/-! ## Runs -/

/-- **Step.** -/
theorem inv_step {a : Act} (h : Inv n s) (hs : step s a = some t) : Inv n t := by
  cases a with
  | event sessionID epoch ok =>
    cases hs
    exact inv_handleHotRestart h sessionID epoch ok
  | tick =>
    rw [step] at hs
    split_ifs at hs with h0 hlen
    · cases hs
      refine ⟨h.length, h.pools, h.captured, ?_, fun hst => nomatch hst⟩
      have hc := h.checkers
      split_ifs at hc
      · show s.checkers - 1 = 0
        omega
      · exact absurd hc h0
    · cases hs
      exact h
  | timeout =>
    rw [step] at hs
    split_ifs at hs with h0
    cases hs
    refine ⟨h.length, h.pools, h.captured, ?_, fun hst => nomatch hst⟩
    have hc := h.checkers
    split_ifs at hc
    · show s.checkers - 1 = 0
      omega
    · exact absurd hc h0
  | sessionClosed p =>
    cases hs
    exact h.of_session fun _ q _ => epochID_closePools ..
  | loop k ok =>
    obtain ⟨pc, hk, hs⟩ := Option.bind_eq_some_iff.mp hs
    obtain ⟨⟨t', pc'⟩, hstep, rfl⟩ := Option.map_eq_some_iff.mp hs
    exact inv_stepLoop h hk hstep

/-- **Run.** -/
theorem inv_of_reachable (hr : (machine n).Reachable s) : Inv n s := by
  refine hr.invariant (Inv n) (fun s hs => ?_) fun s a t h _ ht => inv_step h ht
  rw [show s = initial n from hs]
  exact inv_initial n

/-- As many keys as pools: every pool has been replaced. -/
theorem Restart.all_moved (h : Restart s) (hlen : s.reservePools.length = s.pools.length) {k : ℕ}
    (hk : k < s.pools.length) : k ∈ s.reservePools.map Prod.fst := by
  have hsub : s.reservePools.map Prod.fst ⊆ List.range s.pools.length := by
    intro j hj
    obtain ⟨x, hx, rfl⟩ := List.mem_map.mp hj
    obtain ⟨-, q, hq, -⟩ := h.moved x hx
    exact List.mem_range.mpr (List.getElem?_eq_some_iff.mp hq).1
  have hperm : (s.reservePools.map Prod.fst).Perm (List.range s.pools.length) :=
    (List.subperm_of_subset h.keys hsub).perm_of_length_le (by simp [hlen])
  exact hperm.symm.subset (List.mem_range.mpr hk)

theorem acks_handleHotRestart (sessionID epoch : ℕ) (ok : Bool) :
    (s.handleHotRestart sessionID epoch ok).acks = s.acks := by
  have hb : (s.begin epoch).acks = s.acks := by
    unfold State.begin
    split_ifs <;> rfl
  unfold State.handleHotRestart
  split_ifs
  · rfl
  · exact hb
  · unfold State.replace
    split <;> exact hb
  · exact hb

theorem acks_stepLoop {k : ℕ} {ok : Bool} {pc pc' : LoopPc}
    (hs : stepLoop s k ok pc = some (t, pc')) : t.acks = s.acks := by
  cases pc <;> simp only [stepLoop] at hs <;> grind

/-- Only a tick that finds all pools moved sends acks. -/
theorem acks_step {a : Act} (hs : step s a = some t) (hsent : t.acks ≠ s.acks) :
    0 < s.checkers ∧ s.reservePools.length = s.pools.length ∧
      t.acks = s.acks ++ s.reservePools.map fun x => (s.epoch, x.2) := by
  cases a with
  | event sessionID epoch ok =>
    cases hs
    exact absurd (acks_handleHotRestart sessionID epoch ok) hsent
  | tick =>
    rw [step] at hs
    split_ifs at hs with h0 hlen
    · cases hs
      exact ⟨Nat.pos_of_ne_zero h0, hlen, rfl⟩
    · cases hs
      exact absurd rfl hsent
  | timeout =>
    rw [step] at hs
    split_ifs at hs
    cases hs
    exact absurd rfl hsent
  | sessionClosed p =>
    cases hs
    exact absurd rfl hsent
  | loop k ok =>
    obtain ⟨pc, -, hs⟩ := Option.bind_eq_some_iff.mp hs
    obtain ⟨⟨t', pc'⟩, hstep, rfl⟩ := Option.map_eq_some_iff.mp hs
    exact absurd (acks_stepLoop hstep) hsent

/-- **Main theorem.** In every run of a manager with `n` pools, a step that sends acks sends
    one through each pool in `reservePools`, all with one epoch: that of the restart, which
    `sm.epoch` still is. Then each pool holds a session of that epoch, `reservePools` has for
    each `k` exactly the pool that `pools[k]` was at the beginning of the restart, and no pool
    is in both. -/
theorem acks_after_all_moved {a : Act} (hr : (machine n).Reachable s) (hs : step s a = some t)
    (hsent : t.acks ≠ s.acks) :
    ∃ e, t.acks = s.acks ++ (s.reservePools.map fun x => (e, x.2)) ∧ s.epoch = e ∧ s.began = e ∧
      s.pools.length = n ∧
      (∀ k < n, ∃ q, s.pools[k]? = some q ∧ (s.session q).epochID = e) ∧
      (∀ k p, (k, p) ∈ s.reservePools ↔ s.before[k]? = some p) ∧
      ∀ x ∈ s.reservePools, x.2 ∉ s.pools := by
  obtain ⟨hc, hlen, hacks⟩ := acks_step hs hsent
  have h := inv_of_reachable hr
  have hst : s.state = .hotRestart := by
    by_contra hne
    have := h.checkers
    rw [if_neg hne] at this
    omega
  have hre := h.restart hst
  have hpool : ∀ k < s.pools.length, ∃ p q, (k, p) ∈ s.reservePools ∧ s.before[k]? = some p ∧
      s.pools[k]? = some q ∧ s.mark ≤ q ∧ (s.session q).epochID = s.epoch := by
    intro k hk
    obtain ⟨⟨k', p⟩, hx, rfl⟩ := List.mem_map.mp (hre.all_moved hlen hk)
    obtain ⟨hb, q, hq, hm, he⟩ := hre.moved _ hx
    exact ⟨p, q, hx, hb, hq, hm, he⟩
  refine ⟨s.epoch, hacks, rfl, hre.epoch.symm, h.length, fun k hk => ?_,
    fun k p => ⟨fun hx => (hre.moved _ hx).1, fun hb => ?_⟩, fun x hx hmem => ?_⟩
  · obtain ⟨p, q, -, -, hq, -, he⟩ := hpool k (h.length ▸ hk)
    exact ⟨q, hq, he⟩
  · have hk : k < s.pools.length := hre.length ▸ (List.getElem?_eq_some_iff.mp hb).1
    obtain ⟨p', q, hx, hb', -⟩ := hpool k hk
    rw [hb] at hb'
    cases hb'
    exact hx
  · -- what was replaced is older than the restart, what replaced it is not
    have hold : x.2 < s.mark := hre.before x.2 (List.mem_of_getElem? (hre.moved x hx).1)
    obtain ⟨k, hk⟩ := List.mem_iff_getElem?.mp hmem
    obtain ⟨p, q, -, -, hq, hm, -⟩ := hpool k (List.getElem?_eq_some_iff.mp hk).1
    rw [hk] at hq
    cases hq
    omega

/-- Two pools, one of which is being rebuilt when the events arrive. -/
def rebuildRun : List Act :=
  [.loop 0 true, .sessionClosed 0, .loop 0 true, .loop 0 true, .loop 0 true, .event 1 7 true,
    .event 0 7 true, .event 0 7 true, .loop 0 true]

theorem acks_after_rebuild : ∃ s t, (machine 2).Reachable s ∧ step s .tick = some t ∧
    t.acks = [(7, 1), (7, 0)] ∧ ∃ q, s.pools[0]? = some q ∧ (s.session q).epochID = 7 := by
  obtain ⟨s, hs, hep, hnone, t, ht, hacks⟩ := (machine 2).exists_reachable_of_run (initial 2) rebuildRun
    (fun s => s.epoch = 7 ∧ s.acks = [] ∧ ∃ t ∈ step s .tick, t.acks = [(7, 1), (7, 0)]) rfl
    (by decide)
  obtain ⟨e, -, he, -, -, hq, -⟩ := acks_after_all_moved hs ht (by simp [hacks, hnone])
  exact ⟨s, t, hs, ht, hacks, hep ▸ he ▸ hq 0 (by decide)⟩

end Shmipc.SessionManager
