import Shmipc.EventDispatcher.Conns

/-!
# Writing to a connection

`write` (event_dispatcher_linux.go:140-159) makes system calls until everything is taken. When
the socket takes nothing it waits for `onWriteReadyCh`, where the event loop puts something
when the socket is reported as ready for writing, and which is closed with the connection.

The descriptor is not protected: between the check of `isClose` and the system call the
connection may be taken down and its descriptor given to another file.

Results:
* `write_result`: a write that returns without an error has had everything taken, in order. A
  system call takes bytes to another file only behind a check that found the connection open,
  when it has been closed since and its descriptor is that of another file.
-/

namespace Shmipc.EventDispatcher.Conns

open Common

/-! ## What is written -/

/-- What was written and what is left. -/
def WriteOk (h : Handler) : Prop :=
  match h.writer with
  | .returned none => h.sent = h.data
  | .returned (some _) => h.sent <+: h.data
  | .check left => h.sent ++ left = h.data
  | .sys left | .wait left => h.sent ++ left = h.data ∧ left ≠ []

structure Writing (h : Handler) : Prop where
  bytes : WriteOk h
  setUp : h.opening ≠ .done → h.writer = .returned none
  /-- The system call comes behind a check of `isClose`. -/
  checked : ∀ left, h.writer = .sys left → h.seenOpen = true

/-- The write of `c` has found the connection open and makes its system call; the connection is
    closed now, and the descriptor is that of another file. -/
def Astray (s : State) (c : ℕ) : Prop :=
  ∃ left f, (s.handler c).writer = .sys left ∧ (s.handler c).seenOpen = true ∧
    (s.handler c).isClose = true ∧ s.table (s.handler c).fd = some f ∧ f ≠ .conn c

/-- What a step does to a handler that is not a step of its writer. -/
structure Grows (h h' : Handler) : Prop where
  writer : h'.writer = h.writer
  data : h'.data = h.data
  sent : h'.sent = h.sent
  seenOpen : h'.seenOpen = h.seenOpen
  astray : h'.astray = h.astray
  opening : h.opening = .done → h'.opening = .done

theorem Grows.refl (h : Handler) : Grows h h := ⟨rfl, rfl, rfl, rfl, rfl, id⟩

theorem Writing.grows {h h' : Handler} (hw : Writing h) (hg : Grows h h') : Writing h' := by
  refine ⟨?_, fun ho => ?_, fun left hl => ?_⟩
  · have hb := hw.bytes
    unfold WriteOk at hb ⊢
    rw [hg.writer, hg.data, hg.sent]
    exact hb
  · rw [hg.writer]
    exact hw.setUp fun hd => ho (hg.opening hd)
  · rw [hg.writer] at hl
    rw [hg.seenOpen]
    exact hw.checked left hl

section Step

variable {m : Marks} {s t : State} {life : ℕ → Life} {c : ℕ}

theorem grows_set {c' : ℕ} {h' : Handler} (hg : Grows (s.handler c') h') :
    Grows (s.handler c) ((s.set c' h').handler c) := by
  rcases eq_or_ne c c' with rfl | hne
  · simpa [State.set] using hg
  · simpa [State.set, hne] using Grows.refl _

theorem grows_loop {pc : LoopPc} (hs : LoopMoves s pc t) : Grows (s.handler c) (t.handler c) := by
  cases hs with
  | notify hch | cas hcl | closeCh hch => exact grows_set ⟨rfl, rfl, rfl, rfl, rfl, id⟩
  | closeFile hfile => exact grows_set ⟨rfl, rfl, rfl, rfl, rfl, id⟩
  | _ => exact .refl _

/-- The steps that are about the writer of a connection. -/
def Act.Writes (c : ℕ) : Act → Prop
  | .newConnection c' _ | .write c' _ | .writer c' _ | .writeFails c' _ => c' = c
  | _ => False

theorem grows_set_of_ne {c' : ℕ} {h' : Handler} (hne : ¬c' = c) :
    Grows (s.handler c) ((s.set c' h').handler c) := by
  simpa [State.set, Ne.symm hne] using Grows.refl _

theorem writeStep_handler {c' n : ℕ} (hs : writeStep m s c' n = some t) :
    ∃ h' buffered, t = { s.set c' h' with buffered := buffered } := by
  unfold writeStep at hs
  cases hw : (s.handler c').writer with
  | returned e => simp [hw] at hs
  | check left =>
    simp only [hw] at hs
    cases left <;> cases hs <;> exact ⟨_, _, rfl⟩
  | sys left =>
    simp only [hw] at hs
    split at hs
    · cases hs
      exact ⟨_, _, rfl⟩
    · split_ifs at hs <;> cases hs <;> exact ⟨_, _, rfl⟩
  | wait left =>
    simp only [hw] at hs
    split_ifs at hs <;> cases hs <;> exact ⟨_, _, rfl⟩

theorem grows_step {a : Act} (hs : step m s a = some t) (ha : ¬a.Writes c) :
    Grows (s.handler c) (t.handler c) := by
  cases a with
  | newConnection c' fd | write c' data =>
    simp only [step] at hs
    split_ifs at hs
    cases hs
    exact grows_set_of_ne ha
  | setCallback c' =>
    simp only [step] at hs
    split_ifs at hs with hc
    cases hs
    exact grows_set ⟨rfl, rfl, rfl, rfl, rfl, fun hd => by simp [hc.1] at hd⟩
  | epollAdd c' ok =>
    simp only [step] at hs
    split_ifs at hs with hc
    split at hs <;> cases hs <;>
      exact grows_set ⟨rfl, rfl, rfl, rfl, rfl, fun hd => by simp [hc] at hd⟩
  | addConn c' =>
    simp only [step] at hs
    split_ifs at hs with hc
    cases hs
    exact grows_set ⟨rfl, rfl, rfl, rfl, rfl, fun _ => rfl⟩
  | writer c' n =>
    obtain ⟨h', buffered, rfl⟩ := writeStep_handler hs
    exact grows_set_of_ne ha
  | writeFails c' errno =>
    simp only [step] at hs
    split at hs
    · split_ifs at hs
      cases hs
      exact grows_set_of_ne ha
    · cases hs
  | wait polled =>
    simp only [step] at hs
    split_ifs at hs
    cases hs
    unfold epollWait
    simp only
    split_ifs <;> exact .refl _
  | loop eof => exact grows_loop (loopStep_moves hs)
  | drain f n | sessionClose c' | openOther n fd =>
    simp only [step] at hs
    split_ifs at hs <;> cases hs <;> exact .refl _
  | arrive f | postOther =>
    cases hs
    exact .refl _
  | closeOther fd =>
    simp only [step] at hs
    split at hs <;> cases hs
    exact .refl _

/-- The descriptor of a connection is that of another file, or of none, only when the connection
    has been taken down. -/
theorem Lives.closed_of_table (h : Lives s life) (hd : (s.handler c).opening = .done)
    (hfd : s.table (s.handler c).fd ≠ some (.conn c)) : (s.handler c).isClose = true := by
  have hm := h.sockets.like c
  have hfile : (life c).file = false := by
    by_contra hf
    exact hfd (h.sockets.table_eq (by simpa using hf))
  rw [hm.2.2.1]
  rw [hm.1] at hd
  cases hlife : life c <;> simp_all [Life.file, Life.opening, Life.isClose]

theorem writing_writer (h : Lives s life) (hw : Writing (s.handler c)) {n : ℕ}
    (hs : writeStep m s c n = some t) :
    Writing (t.handler c) ∧ ((s.handler c).astray < (t.handler c).astray → Astray s c) := by
  obtain ⟨hbytes, hsetUp, hchecked⟩ := hw
  unfold WriteOk at hbytes
  have hdone : (s.handler c).writer ≠ .returned none → (s.handler c).opening = .done := fun hne => by
    by_contra ho
    exact hne (hsetUp ho)
  unfold writeStep at hs
  cases hpc : (s.handler c).writer with
  | returned e => simp [hpc] at hs
  | check left =>
    simp only [hpc] at hs hbytes
    have hd := hdone (by simp [hpc])
    cases left with
    | nil =>
      cases hs
      simp only [State.set, Function.update_self]
      exact ⟨⟨by simpa [WriteOk] using hbytes, by simp [hd], by simp⟩, by simp⟩
    | cons x left =>
      cases hs
      simp only [State.set, Function.update_self]
      split_ifs with hcl
      · exact ⟨⟨by simp [WriteOk, ← hbytes], by simp [hd], by simp⟩, by simp⟩
      · exact ⟨⟨by simpa [WriteOk] using hbytes, by simp [hd], by simp [hcl]⟩, by simp⟩
  | sys left =>
    simp only [hpc] at hs hbytes
    have hd := hdone (by simp [hpc])
    split at hs
    · cases hs
      simp only [State.set, Function.update_self]
      exact ⟨⟨by simp [WriteOk, ← hbytes.1], by simp [hd], by simp⟩, by simp⟩
    · rename_i f hfd
      split_ifs at hs with _ _ _ hf
      · cases hs
        simp only [State.set, Function.update_self]
        exact ⟨⟨by simpa [WriteOk] using hbytes, by simp [hd], by simp⟩, by simp⟩
      · cases hs
        simp only [State.set, Function.update_self]
        exact ⟨⟨by simpa [WriteOk] using hbytes.1, by simp [hd], by simp⟩, by simp⟩
      · cases hs
        simp only [State.set, Function.update_self]
        exact ⟨⟨by simpa [WriteOk] using hbytes.1, by simp [hd], by simp⟩, fun _ => ⟨left, f, hpc,
          hchecked left hpc, h.closed_of_table hd (by rw [hfd]; simpa using hf), hfd, hf⟩⟩
  | wait left =>
    simp only [hpc] at hs hbytes
    have hd := hdone (by simp [hpc])
    split_ifs at hs <;> cases hs <;> simp only [State.set, Function.update_self] <;>
      exact ⟨⟨by simpa [WriteOk] using hbytes.1, by simp [hd], by simp⟩, by simp⟩

/-- **Step.** -/
theorem writing_step (h : Lives s life) (hw : Writing (s.handler c)) {a : Act}
    (hs : step m s a = some t) :
    Writing (t.handler c) ∧ ((s.handler c).astray < (t.handler c).astray →
      (∃ n, a = .writer c n) ∧ Astray s c) := by
  by_cases ha : a.Writes c
  · cases a with
    | newConnection c' fd =>
      obtain rfl : c' = c := ha
      simp only [step] at hs
      split_ifs at hs
      cases hs
      simp only [State.set, Function.update_self]
      exact ⟨⟨rfl, fun _ => rfl, by simp⟩, by simp⟩
    | write c' data =>
      obtain rfl : c' = c := ha
      simp only [step] at hs
      split_ifs at hs with hc
      cases hs
      simp only [State.set, Function.update_self]
      exact ⟨⟨rfl, fun hne => absurd hc.1 hne, by simp⟩, by simp⟩
    | writer c' n =>
      obtain rfl : c' = c := ha
      exact (writing_writer h hw hs).imp id fun hastray hlt => ⟨⟨n, rfl⟩, hastray hlt⟩
    | writeFails c' errno =>
      obtain rfl : c' = c := ha
      simp only [step] at hs
      split at hs
      · rename_i left hpc
        split_ifs at hs
        cases hs
        obtain ⟨hbytes, hsetUp, -⟩ := hw
        unfold WriteOk at hbytes
        rw [hpc] at hbytes hsetUp
        simp only [State.set, Function.update_self]
        exact ⟨⟨by simp [WriteOk, ← hbytes.1], fun hne => absurd (hsetUp hne) (by simp), by simp⟩,
          by simp⟩
      · cases hs
    | _ => exact ha.elim
  · have hg := grows_step hs ha
    exact ⟨hw.grows hg, fun hlt => absurd hg.astray (by omega)⟩

end Step

/-- **Run.** -/
theorem writing_reachable {m : Marks} {s : State} (hr : (machine m).Reachable s) :
    (∃ life, Lives s life) ∧ ∀ c, Writing (s.handler c) := by
  refine hr.invariant (fun s => (∃ life, Lives s life) ∧ ∀ c, Writing (s.handler c)) ?_ ?_
  · rintro s rfl
    exact ⟨⟨_, lives_init⟩, fun c => ⟨rfl, fun _ => rfl, by simp⟩⟩
  · rintro s a t ⟨⟨life, hl⟩, hw⟩ - hs
    exact ⟨lives_step hl hs, fun c => (writing_step hl (hw c) hs).1⟩

/-- **Results of `write`.** What it has written is the start of what it was given, and all of it
    if it returns no error. Bytes go to another file only in a system call of `write` itself,
    behind a check that found the connection open, when the connection has been closed
    since and the descriptor is that of another file. -/
theorem write_result {m : Marks} {s : State} (hr : (machine m).Reachable s) (c : ℕ) :
    (s.handler c).sent <+: (s.handler c).data ∧
    ((s.handler c).writer = .returned none → (s.handler c).sent = (s.handler c).data) ∧
    ∀ a t, step m s a = some t → (s.handler c).astray < (t.handler c).astray →
      (∃ n, a = .writer c n) ∧ Astray s c := by
  obtain ⟨⟨life, hl⟩, hw⟩ := writing_reachable hr
  have hbytes := (hw c).bytes
  unfold WriteOk at hbytes
  refine ⟨?_, fun hret => by rwa [hret] at hbytes, fun a t hs => (writing_step hl (hw c) hs).2⟩
  cases hpc : (s.handler c).writer with
  | returned e =>
    rw [hpc] at hbytes
    cases e with
    | none => exact hbytes ▸ List.prefix_rfl
    | some e => exact hbytes
  | check left =>
    rw [hpc] at hbytes
    exact ⟨left, hbytes⟩
  | sys left | wait left =>
    rw [hpc] at hbytes
    exact ⟨left, hbytes.1⟩

/-- The socket is closed and its descriptor used again between the check of `isClose` and the
    system call. -/
def astrayRun : List Act := [
  .newConnection 0 5, .setCallback 0, .epollAdd 0 true, .addConn 0, .write 0 [7, 8], .writer 0 0,
  .wait [⟨true, false, false⟩], .loop false, .loop false, .loop false, .loop false, .loop false,
  .loop false, .loop false, .loop false, .loop false, .loop false, .loop false, .loop false,
  .newConnection 1 5]

/-- The next system call takes a byte to the new connection. -/
theorem write_result_astray : ∃ s, (machine ⟨0, 4, by decide⟩).Reachable s ∧ Astray s 0 ∧
    ∃ t, step ⟨0, 4, by decide⟩ s (.writer 0 1) = some t ∧ t.buffered (.conn 1) = 1 := by
  obtain ⟨s, hr, t, ht, hlt, hbuf⟩ := (machine ⟨0, 4, by decide⟩).exists_reachable_of_run {} astrayRun
    (fun s => ∃ t ∈ step ⟨0, 4, by decide⟩ s (.writer 0 1),
      (s.handler 0).astray < (t.handler 0).astray ∧ t.buffered (.conn 1) = 1) rfl (by decide +kernel)
  exact ⟨s, hr, ((write_result hr 0).2.2 _ t ht hlt).2, t, ht, hbuf⟩

end Shmipc.EventDispatcher.Conns
