import Shmipc.Listener.HotRestart

/-!
# A hot restart that fails

`HotRestart` (listener.go:174-212) enters `hotRestartState` first and then visits the sessions
in the order of the map; a session whose handshake is not done ends the loop with
`ErrInHandshakeStage`, and an error of `Session.hotRestart` would end it with that error and
set the listener's state back to `defaultState`.

Results:
* `failed_hotRestart_unchanged_iff`: a call that fails leaves the listener and its sessions as
  they were exactly if it was refused or the handshakes of all sessions it visits are done.
* `stuck_run`: a listener without a `checkHotRestart` never leaves `hotRestartState`, so that
  after `ErrInHandshakeStage` every later call is refused.
* `handshake_error_stuck`: such a call.
-/

namespace Shmipc.Listener

open Common

/-- The handshakes of the visited sessions are done. -/
def State.HandshakesDone (s : State) (order : List ℕ) : Prop :=
  ∀ k ∈ order, ∀ x ∈ s.sessions[k]?, x.handshakeDone = true

/-- The listener's state, its count and the sessions are the same. -/
def Unchanged (s t : State) : Prop :=
  t.state = s.state ∧ t.hotRestartAckCount = s.hotRestartAckCount ∧ t.sessions = s.sessions

section

variable {s t : State} {a : Act} {epoch : ℕ} {order : List ℕ} {err : RestartErr}

theorem handshakesDone_send {k : ℕ} {x : Sess} (hk : s.sessions[k]? = some x) :
    (s.send epoch k x).HandshakesDone order ↔ s.HandshakesDone order := by
  refine forall₂_congr fun j _ => ?_
  rcases eq_or_ne j k with rfl | hne
  · have hset : (s.send epoch j x).sessions[j]? = some { x with state := .hotRestart } :=
      List.getElem?_set_self (List.getElem?_eq_some_iff.mp hk).1
    simp [hset, hk]
  · have hset : (s.send epoch k x).sessions[j]? = s.sessions[j]? := List.getElem?_set_ne hne.symm
    rw [hset]

/-- The loop stops only at a session in its handshake: `Session.hotRestart` has no error for
    this event type. -/
theorem restartLoop_snd :
    s.HandshakesDone order ∧ (restartLoop epoch order s).2 = none ∨
      ¬s.HandshakesDone order ∧ (restartLoop epoch order s).2 = some .inHandshakeStage := by
  induction order generalizing s with
  | nil => exact .inl ⟨fun k hk => (nomatch hk), rfl⟩
  | cons k ks ih =>
    have hnone : sessionHotRestart .hotRestart = none := by decide
    have hcons : s.HandshakesDone (k :: ks) ↔
        (∀ x ∈ s.sessions[k]?, x.handshakeDone = true) ∧ s.HandshakesDone ks := List.forall_mem_cons
    rw [restartLoop, hcons]
    cases hk : s.sessions[k]? with
    | none => simpa using ih
    | some x =>
      simp only [hnone, Option.mem_some_iff, forall_eq']
      split_ifs with hx hst
      · exact .inr ⟨fun h => by simp [h.1] at hx, rfl⟩
      · simpa [show x.handshakeDone = true by simpa using hx] using ih
      · have hsend := @ih (s.send epoch k x)
        rw [handshakesDone_send hk] at hsend
        simpa [show x.handshakeDone = true by simpa using hx] using hsend

/-- A call that is not refused fails exactly if a handshake is not done, and then leaves the
    listener in `hotRestartState`. -/
theorem callHotRestart_error (epoch : ℕ) (order : List ℕ) (hst : s.state ≠ .hotRestart) :
    s.HandshakesDone order ∧ (s.callHotRestart epoch order).2 = none ∨
      ¬s.HandshakesDone order ∧ (s.callHotRestart epoch order).2 = some .inHandshakeStage ∧
        (s.callHotRestart epoch order).1.state = .hotRestart := by
  have hstate : (s.callHotRestart epoch order).1.state = .hotRestart := state_hotRestart epoch order
  have hloop : s.HandshakesDone order ∧ _ ∨ ¬s.HandshakesDone order ∧ _ :=
    @restartLoop_snd (s.begin epoch) epoch order
  rw [callHotRestart_of_ne hst] at hstate ⊢
  generalize restartLoop epoch order (s.begin epoch) = r at hloop hstate ⊢
  obtain ⟨t, _ | err⟩ := r
  · exact hloop.imp id fun h => ⟨h.1, (nomatch h.2)⟩
  · exact hloop.imp (fun h => ⟨h.1, (nomatch h.2)⟩) fun h => ⟨h.1, h.2, hstate⟩

/-- **Main theorem.** A call that returns an error leaves the listener and its sessions as they
    were, exactly if a restart was in progress or the handshakes of all visited sessions are
    done. -/
theorem failed_hotRestart_unchanged_iff {s : State} {epoch : ℕ} {order : List ℕ} :
    (∀ err, (s.callHotRestart epoch order).2 = some err →
      Unchanged s (s.callHotRestart epoch order).1) ↔
    s.state = .hotRestart ∨ s.HandshakesDone order := by
  by_cases hst : s.state = .hotRestart
  · refine iff_of_true (fun err _ => ?_) (.inl hst)
    rw [State.callHotRestart, if_pos hst]
    exact ⟨rfl, rfl, rfl⟩
  · simp only [hst, false_or]
    rcases callHotRestart_error epoch order hst with ⟨hd, hnone⟩ | ⟨hd, herr, hstate⟩
    · refine iff_of_true (fun err herr => ?_) hd
      rw [hnone] at herr
      cases herr
    · refine iff_of_false (fun h => hst ?_) hd
      rw [← (h _ herr).1, hstate]

/-! ## Retrying -/

/-- **Step.** Only a `checkHotRestart` ends a restart, and only an accepted call starts one. -/
theorem stuck_step (hst : s.state = .hotRestart) (hc : s.checkers = 0)
    (hs : step s a = some t) : t.state = .hotRestart ∧ t.checkers = 0 := by
  cases a with
  | connect b | leave k =>
    cases hs
    exact ⟨hst, hc⟩
  | hotRestart epoch order =>
    rw [step] at hs
    split_ifs at hs
    cases hs
    rw [State.hotRestart, State.callHotRestart, if_pos hst]
    exact ⟨hst, hc⟩
  | ack i =>
    obtain ⟨e, -, rfl⟩ := Option.map_eq_some_iff.mp hs
    show (s.handleAck e).state = .hotRestart ∧ (s.handleAck e).checkers = 0
    unfold State.handleAck
    split_ifs <;> exact ⟨hst, hc⟩
  | tick | timeout =>
    rw [step, if_pos hc] at hs
    cases hs

/-- **Run.** From a state in `hotRestartState` without a `checkHotRestart`, every later call is
    refused. -/
theorem stuck_run (hst : s.state = .hotRestart) (hc : s.checkers = 0)
    (hr : (Sys.mk (· = s) step).Reachable t) (epoch : ℕ) (order : List ℕ) :
    t.callHotRestart epoch order = (t, some .hotRestartInProgress) := by
  have hinv : t.state = .hotRestart ∧ t.checkers = 0 :=
    hr.invariant (fun t => t.state = .hotRestart ∧ t.checkers = 0)
      (by rintro _ rfl; exact ⟨hst, hc⟩) fun _ _ _ h _ hs => stuck_step h.1 h.2 hs
  rw [State.callHotRestart, if_pos hinv.1]

end

/-- Two sessions, the second one in its handshake. -/
def handshaking : State := { sessions := [{ handshakeDone := true }, { handshakeDone := false }] }

/-- **Counterexample.** The first session is told, the second one ends the call with an error:
    the listener stays in `hotRestartState` with the count at 1 and no `checkHotRestart`, and
    whatever happens then, every call is refused. -/
theorem handshake_error_stuck :
    [0, 1].Perm handshaking.data ∧
    ∃ t, handshaking.callHotRestart 5 [0, 1] = (t, some .inHandshakeStage) ∧
      t.state = .hotRestart ∧ t.hotRestartAckCount = 1 ∧
      t.sessions = [{ handshakeDone := true, state := .hotRestart }, { handshakeDone := false }] ∧
      ∀ u, (Sys.mk (· = t) step).Reachable u → ∀ epoch order,
        u.callHotRestart epoch order = (u, some .hotRestartInProgress) :=
  ⟨by decide, _, rfl, rfl, rfl, rfl, fun _ hu => stuck_run rfl rfl hu⟩

end Shmipc.Listener
