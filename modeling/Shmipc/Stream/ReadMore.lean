import Shmipc.Stream.Machine

/-!
# `readMore` and the end of the stream

A reader in `Stream.readMore` (stream.go:135-185) against the event loop, which handles
data messages and then the peer's close (`fillDataToReadBuffer`, stream.go:388-399, and
`halfClose`, stream.go:336-344). `pendingData` is locked, so moving it to `recvBuf` is
one step; so are each look at `recvBuf`, at the state and at a channel. There are no
callbacks, and nothing closes the stream on this side.

`readMore` drains `pendingData` before it looks at the state. What is added in between
is not seen, so a close that follows it at once ends the stream before its last data.

Results:
* `end_of_stream_before_data`: such a run.
* `endOfStream_after_data`: in every run in which the state is not set to half closed
  between the drain and the look at the state with data pending (`DrainOk`),
  `ErrEndOfStream` comes after all data.
-/

namespace Shmipc.Stream.ReadMore

open Common

/-! ## The machine -/

/-- What `readMore` returns. -/
inductive Result
  | ok
  | endOfStream
  | streamClosed
  | timeout
  deriving DecidableEq, Repr

/-- Where a call of `readMore(minSize)` is. -/
inductive ReadPc
  | idle
  /-- The first `s.pendingData.moveTo(s.recvBuf)`. -/
  | moveTo (minSize : ℤ)
  /-- `recvLen := s.recvBuf.Len()` and its comparisons. -/
  | len (minSize : ℤ)
  /-- `s.IsOpen()`, with `recvLen` 0. -/
  | loadState (minSize : ℤ)
  | select (minSize : ℤ)
  /-- After `<-s.recvNotifyCh`: `moveTo`. -/
  | notified (minSize : ℤ)
  /-- After `<-s.recvNotifyCh`: `s.recvBuf.Len() >= minSize`. -/
  | notifiedLen (minSize : ℤ)
  /-- After `<-s.closeNotifyCh`: `moveTo`. -/
  | closed (minSize : ℤ)
  /-- After `<-s.closeNotifyCh`: `s.recvBuf.Len() >= minSize`. -/
  | closedLen (minSize : ℤ)
  /-- After `<-s.closeNotifyCh`: `s.getStreamState()`. -/
  | closedState (minSize : ℤ)
  | returned (minSize : ℤ) (result : Result)
  deriving DecidableEq, Repr

/-- Where the event loop is. -/
inductive LoopPc
  | idle
  /-- `pendingData.add(buf)`. -/
  | add (buf : List UInt8)
  /-- `getStreamState()` in `fillDataToReadBuffer`. -/
  | loadState
  /-- On a closed stream: `pendingData.clear()` and `recvBuf.recycle()`. -/
  | clear
  /-- `asyncNotify(s.recvNotifyCh)`. -/
  | notify
  /-- The swap in `halfClose`. -/
  | halfCas
  /-- `safeCloseNotify()`. -/
  | closeNotify
  deriving DecidableEq, Repr

structure State where
  state : StreamState := .opened
  /-- `pendingData.unread`, each entry with its bytes. -/
  unread : List (List UInt8) := []
  recvBuf : List UInt8 := []
  /-- The channel, of capacity 1, holds a value. -/
  recvNotifyCh : Bool := false
  /-- The channel is closed. -/
  closeNotifyCh : Bool := false
  loop : LoopPc := .idle
  reader : ReadPc := .idle
  /-- The event loop has come to the peer's close. -/
  peerClosed : Bool := false
  /-- Bytes of the data messages that the event loop has come to. -/
  received : List UInt8 := []
  /-- Bytes that the user has read out of `recvBuf`. -/
  consumed : List UInt8 := []
  deriving DecidableEq, Repr

/-- The case that a `select` takes; a case that is not ready cannot be taken. -/
inductive Case
  | recvNotify
  | closeNotify
  | timeout
  deriving DecidableEq, Repr

/-- `data` and `peerClose` are what the event loop reads for the stream, `call` is a new
    call of `readMore` and `consume` what the user reads between two calls. -/
inductive Act
  | data (buf : List UInt8)
  | peerClose
  | loop
  | call (minSize : ℤ)
  | reader (c : Case)
  | consume (n : ℕ)
  deriving DecidableEq, Repr

/-- `pendingData.moveTo(s.recvBuf)`. -/
def State.moveTo (s : State) : State :=
  { s with recvBuf := s.recvBuf ++ s.unread.flatten, unread := [] }

/-- `s.recvBuf.Len()`. -/
def State.len (s : State) : ℤ := s.recvBuf.length

def stepReader (s : State) (c : Case) : Option State :=
  match s.reader with
  | .idle | .returned _ _ => none
  | .moveTo m => some { s.moveTo with reader := .len m }
  | .len m =>
    some { s with
      reader := if m ≤ s.len then .returned m .ok
        else if s.len = 0 then .loadState m else .select m }
  | .loadState m =>
    some { s with
      reader := if s.state = .opened then .select m else .returned m .endOfStream }
  | .select m =>
    match c with
    | .recvNotify =>
      if s.recvNotifyCh then some { s with recvNotifyCh := false, reader := .notified m } else none
    | .closeNotify => if s.closeNotifyCh then some { s with reader := .closed m } else none
    | .timeout => some { s with reader := .returned m .timeout }
  | .notified m => some { s.moveTo with reader := .notifiedLen m }
  | .notifiedLen m =>
    some { s with reader := if m ≤ s.len then .returned m .ok else .select m }
  | .closed m => some { s.moveTo with reader := .closedLen m }
  | .closedLen m =>
    some { s with reader := if m ≤ s.len then .returned m .ok else .closedState m }
  | .closedState m =>
    some { s with
      reader := .returned m (if s.state = .halfClosed then .endOfStream else .streamClosed) }

def stepLoop (s : State) : Option State :=
  match s.loop with
  | .idle => none
  | .add buf => some { s with unread := s.unread ++ [buf], loop := .loadState }
  | .loadState => some { s with loop := if s.state = .closed then .clear else .notify }
  | .clear => some { s with unread := [], recvBuf := [], loop := .idle }
  | .notify => some { s with recvNotifyCh := true, loop := .idle }
  | .halfCas =>
    if s.state = .opened then some { s with state := .halfClosed, loop := .closeNotify }
    else some { s with loop := .idle }
  | .closeNotify => some { s with closeNotifyCh := true, loop := .idle }

/-- No call of `readMore` runs. -/
def ReadPc.Free : ReadPc → Prop
  | .idle | .returned _ _ => True
  | _ => False

instance : DecidablePred ReadPc.Free
  | .idle | .returned _ _ => isTrue trivial
  | .moveTo _ | .len _ | .loadState _ | .select _ | .notified _ | .notifiedLen _ | .closed _
  | .closedLen _ | .closedState _ => isFalse id

def step (s : State) : Act → Option State
  | .data buf =>
    if s.loop = .idle ∧ s.peerClosed = false then
      some { s with loop := .add buf, received := s.received ++ buf }
    else none
  | .peerClose =>
    if s.loop = .idle ∧ s.peerClosed = false then
      some { s with loop := .halfCas, peerClosed := true }
    else none
  | .loop => stepLoop s
  | .call m => if s.reader.Free then some { s with reader := .moveTo m } else none
  | .reader c => stepReader s c
  | .consume n =>
    if s.reader.Free then
      some { s with
        recvBuf := s.recvBuf.drop n, consumed := s.consumed ++ s.recvBuf.take n, reader := .idle }
    else none

def machine : Sys State Act where
  init s := s = {}
  next := step

/-! ## The invariant -/

/-- The reader has drained `pendingData` and not looked at the state yet. -/
def ReadPc.Drained : ReadPc → Prop
  | .len _ | .loadState _ => True
  | _ => False

instance : DecidablePred ReadPc.Drained
  | .len _ | .loadState _ => isTrue trivial
  | .idle | .moveTo _ | .select _ | .notified _ | .notifiedLen _ | .closed _ | .closedLen _
  | .closedState _ | .returned _ _ => isFalse id

/-- The condition on a step: the event loop does not set the state to half closed while a
    reader with nothing in `recvBuf` is between its drain and its look at the state and
    there is data pending. -/
def DrainOk (s : State) : Act → Prop
  | .loop => s.loop = .halfCas → s.reader.Drained → s.recvBuf = [] → s.unread = []
  | _ => True

instance (s : State) : ∀ a, Decidable (DrainOk s a)
  | .loop => inferInstanceAs (Decidable (_ → _))
  | .data _ | .peerClose | .call _ | .reader _ | .consume _ => isTrue trivial

/-- Bytes that the event loop has read and not added yet. -/
def LoopPc.adding : LoopPc → List UInt8
  | .add buf => buf
  | _ => []

/-- Where the event loop can be once it has come to the peer's close. -/
def LoopPc.Closing : LoopPc → Prop
  | .idle | .halfCas | .closeNotify => True
  | _ => False

/-- The stream is half closed and all of it is in `recvBuf`. -/
structure State.AtEnd (s : State) : Prop where
  half : s.state = .halfClosed
  drained : s.unread = []

/-- What the reader knows. -/
def ReadPc.Ok (s : State) : ReadPc → Prop
  | .len _ => s.state = .halfClosed → s.recvBuf = [] → s.unread = []
  | .loadState m => s.recvBuf = [] ∧ 0 < m ∧ (s.state = .halfClosed → s.unread = [])
  | .closed _ => s.state = .halfClosed
  | .closedLen _ => s.AtEnd
  | .closedState m => s.AtEnd ∧ s.len < m
  | .returned m .endOfStream => s.AtEnd ∧ s.len < m
  | _ => True

structure Inv (s : State) : Prop where
  bytes : s.consumed ++ s.recvBuf ++ s.unread.flatten ++ s.loop.adding = s.received
  notClosed : s.state ≠ .closed
  peerClosed : s.state = .halfClosed ∨ s.loop = .halfCas → s.peerClosed = true
  closing : s.peerClosed = true → s.loop.Closing
  notified : s.closeNotifyCh = true → s.state = .halfClosed
  notifying : s.loop = .closeNotify → s.state = .halfClosed
  clear : s.loop ≠ .clear
  reader : s.reader.Ok s

variable {s t : State}

theorem inv_initial : Inv {} where
  bytes := rfl
  notClosed := by decide
  peerClosed h := h.elim (fun h => nomatch h) fun h => nomatch h
  closing h := nomatch h
  notified h := nomatch h
  notifying h := nomatch h
  clear := by decide
  reader := trivial

/-- A step of the reader leaves the event loop's side as it is. -/
theorem Inv.of_reader (h : Inv s) {recvBuf : List UInt8} {unread : List (List UInt8)}
    {ch : Bool} {pc : ReadPc} (hbytes : recvBuf ++ unread.flatten = s.recvBuf ++ s.unread.flatten)
    (hpc : pc.Ok { s with recvBuf := recvBuf, unread := unread, recvNotifyCh := ch, reader := pc }) :
    Inv { s with recvBuf := recvBuf, unread := unread, recvNotifyCh := ch, reader := pc } := by
  refine ⟨?_, h.notClosed, h.peerClosed, h.closing, h.notified, h.notifying, h.clear, hpc⟩
  show s.consumed ++ recvBuf ++ unread.flatten ++ s.loop.adding = s.received
  rw [← h.bytes, List.append_assoc s.consumed, hbytes, List.append_assoc s.consumed s.recvBuf]

/-- A step of the reader that moves the pending data. -/
theorem Inv.of_moveTo (h : Inv s) {pc : ReadPc} (hpc : pc.Ok { s.moveTo with reader := pc }) :
    Inv { s.moveTo with reader := pc } := by
  refine h.of_reader ?_ hpc
  exact List.append_nil _

theorem inv_stepReader {c : Case} (h : Inv s) (hs : stepReader s c = some t) : Inv t := by
  have hr := h.reader
  have half : s.state ≠ .opened → s.state = .halfClosed := by
    intro hne
    cases hst : s.state with
    | opened => exact absurd hst hne
    | closed => exact absurd hst h.notClosed
    | halfClosed => rfl
  unfold stepReader at hs
  cases hpc : s.reader with
  | idle | returned m r =>
    rw [hpc] at hs
    cases hs
  | moveTo m =>
    rw [hpc] at hs
    cases hs
    exact h.of_moveTo fun _ _ => rfl
  | len m =>
    rw [hpc] at hs hr
    cases hs
    refine h.of_reader rfl ?_
    split_ifs with hle hz
    · trivial
    · have hnil : s.recvBuf = [] := by
        unfold State.len at hz
        exact List.length_eq_zero_iff.mp (by omega)
      exact ⟨hnil, by omega, fun hst => hr hst hnil⟩
    · trivial
  | loadState m =>
    rw [hpc] at hs hr
    obtain ⟨hnil, hm, hun⟩ := hr
    cases hs
    refine h.of_reader rfl ?_
    split_ifs with hst
    · trivial
    · refine ⟨⟨half hst, hun (half hst)⟩, ?_⟩
      show (s.recvBuf.length : ℤ) < m
      rw [hnil]
      exact hm
  | select m =>
    rw [hpc] at hs
    cases c with
    | recvNotify =>
      simp only at hs
      split_ifs at hs
      cases hs
      exact h.of_reader rfl trivial
    | closeNotify =>
      simp only at hs
      split_ifs at hs with hch
      cases hs
      exact h.of_reader rfl (h.notified hch)
    | timeout =>
      cases hs
      exact h.of_reader rfl trivial
  | notified m =>
    rw [hpc] at hs
    cases hs
    exact h.of_moveTo trivial
  | notifiedLen m =>
    rw [hpc] at hs
    cases hs
    refine h.of_reader rfl ?_
    split_ifs <;> trivial
  | closed m =>
    rw [hpc] at hs hr
    cases hs
    exact h.of_moveTo ⟨hr, rfl⟩
  | closedLen m =>
    rw [hpc] at hs hr
    cases hs
    refine h.of_reader rfl ?_
    split_ifs with hle
    · trivial
    · exact ⟨⟨hr.half, hr.drained⟩, not_le.mp hle⟩
  | closedState m =>
    rw [hpc] at hs hr
    cases hs
    refine h.of_reader rfl ?_
    rw [if_pos hr.1.half]
    exact ⟨⟨hr.1.half, hr.1.drained⟩, hr.2⟩

/-- What the reader knows is about `recvBuf`, the state and, once half closed, about
    `unread`. -/
theorem ReadPc.Ok.congr {pc : ReadPc} (h : pc.Ok s) (hb : t.recvBuf = s.recvBuf)
    (hst : t.state = s.state) (hu : s.state = .halfClosed → t.unread = s.unread) : pc.Ok t := by
  have hend : s.AtEnd → t.AtEnd := fun he =>
    ⟨hst.trans he.half, (hu he.half).trans he.drained⟩
  have hlen : t.len = s.len := by unfold State.len; rw [hb]
  cases pc with
  | len m =>
    intro h1 h2
    rw [hst] at h1
    rw [hb] at h2
    exact (hu h1).trans (h h1 h2)
  | loadState m =>
    refine ⟨hb.trans h.1, h.2.1, fun h1 => ?_⟩
    rw [hst] at h1
    exact (hu h1).trans (h.2.2 h1)
  | closed m => exact hst.trans h
  | closedLen m => exact hend h
  | closedState m => exact ⟨hend h.1, hlen ▸ h.2⟩
  | returned m r =>
    cases r with
    | endOfStream => exact ⟨hend h.1, hlen ▸ h.2⟩
    | _ => trivial
  | _ => trivial

/-- The swap to half closed: nobody is past the end yet, and `DrainOk` looks after a
    reader that has drained. -/
theorem ReadPc.Ok.half {pc : ReadPc} (h : pc.Ok s) (hst : s.state = .opened)
    (hok : pc.Drained → s.recvBuf = [] → s.unread = []) (hb : t.recvBuf = s.recvBuf)
    (hu : t.unread = s.unread) : pc.Ok t := by
  have hno : ¬ s.AtEnd := by
    intro he
    have := he.half
    rw [hst] at this
    cases this
  cases pc with
  | len m =>
    intro _ h2
    rw [hu]
    rw [hb] at h2
    exact hok trivial h2
  | loadState m =>
    refine ⟨hb.trans h.1, h.2.1, fun _ => ?_⟩
    rw [hu]
    exact hok trivial h.1
  | closed m =>
    have : s.state = .halfClosed := h
    rw [hst] at this
    cases this
  | closedLen m => exact absurd h hno
  | closedState m => exact absurd h.1 hno
  | returned m r =>
    cases r with
    | endOfStream => exact absurd h.1 hno
    | _ => trivial
  | _ => trivial

/-- The stream's side after a step of the event loop that leaves the state and `recvBuf`
    alone. -/
theorem Inv.of_loop (h : Inv s) {unread : List (List UInt8)} {ch : Bool} {pc : LoopPc}
    (hbytes : unread.flatten ++ pc.adding = s.unread.flatten ++ s.loop.adding)
    (hu : s.peerClosed = true → unread = s.unread) (hpc : s.peerClosed = true → pc.Closing)
    (hcas : pc ≠ .halfCas) (hnot : pc ≠ .closeNotify) (hclear : pc ≠ .clear) :
    Inv { s with unread := unread, recvNotifyCh := ch, loop := pc } := by
  refine ⟨?_, h.notClosed, ?_, hpc, h.notified, fun hl => absurd hl hnot, hclear, ?_⟩
  · show s.consumed ++ s.recvBuf ++ unread.flatten ++ pc.adding = s.received
    rw [← h.bytes, List.append_assoc, hbytes, List.append_assoc (s.consumed ++ s.recvBuf)]
  · rintro (hst | hl)
    · exact h.peerClosed (.inl hst)
    · exact absurd hl hcas
  · exact h.reader.congr rfl rfl fun hst => hu (h.peerClosed (.inl hst))

theorem inv_stepLoop (h : Inv s) (hok : DrainOk s .loop) (hs : stepLoop s = some t) : Inv t := by
  -- data comes before the peer's close
  have hdata : ¬ s.loop.Closing → s.peerClosed ≠ true := fun hl hp => hl (h.closing hp)
  unfold stepLoop at hs
  cases hl : s.loop with
  | idle =>
    rw [hl] at hs
    cases hs
  | add buf =>
    rw [hl] at hs hdata
    cases hs
    refine h.of_loop ?_ (fun hp => absurd hp (hdata id)) (fun hp => absurd hp (hdata id))
      (by simp) (by simp) (by simp)
    rw [hl]
    simp [LoopPc.adding]
  | loadState =>
    rw [hl] at hs hdata
    cases hs
    rw [if_neg h.notClosed]
    refine h.of_loop ?_ (fun _ => rfl) (fun hp => absurd hp (hdata id)) (by simp) (by simp)
      (by simp)
    rw [hl]
    rfl
  | clear => exact absurd hl h.clear
  | notify =>
    rw [hl] at hs
    cases hs
    refine h.of_loop ?_ (fun _ => rfl) (fun _ => trivial) (by simp) (by simp) (by simp)
    rw [hl]
    rfl
  | halfCas =>
    rw [hl] at hs
    simp only at hs
    split_ifs at hs with hst
    · cases hs
      have hb := h.bytes
      rw [hl] at hb
      exact ⟨hb, by simp, fun _ => h.peerClosed (.inr hl), fun _ => trivial, fun _ => rfl,
        fun _ => rfl, by simp, h.reader.half hst (hok hl) rfl rfl⟩
    · cases hs
      refine h.of_loop ?_ (fun _ => rfl) (fun _ => trivial) (by simp) (by simp) (by simp)
      rw [hl]
      rfl
  | closeNotify =>
    rw [hl] at hs
    cases hs
    have hb := h.bytes
    rw [hl] at hb
    refine ⟨hb, h.notClosed, ?_, fun _ => trivial, fun _ => h.notifying hl,
      fun hl => (nomatch hl), by simp, h.reader.congr rfl rfl fun _ => rfl⟩
    exact fun _ => h.peerClosed (.inl (h.notifying hl))

theorem inv_step {a : Act} (h : Inv s) (hok : DrainOk s a) (hs : step s a = some t) : Inv t := by
  cases a with
  | data buf =>
    rw [step] at hs
    split_ifs at hs with hc
    cases hs
    refine ⟨?_, h.notClosed, ?_, fun hp => ?_, h.notified, fun hl => (nomatch hl), by simp,
      h.reader.congr rfl rfl fun _ => rfl⟩
    · have hb := h.bytes
      rw [hc.1, show LoopPc.idle.adding = [] from rfl, List.append_nil] at hb
      show s.consumed ++ s.recvBuf ++ s.unread.flatten ++ buf = s.received ++ buf
      rw [hb]
    · rintro (hst | hl)
      · exact h.peerClosed (.inl hst)
      · cases hl
    · exact absurd hc.2 (by rw [show s.peerClosed = true from hp]; decide)
  | peerClose =>
    rw [step] at hs
    split_ifs at hs with hc
    cases hs
    have hb := h.bytes
    rw [hc.1] at hb
    exact ⟨hb, h.notClosed, fun _ => rfl, fun _ => trivial, h.notified, fun hl => (nomatch hl),
      by simp, h.reader.congr rfl rfl fun _ => rfl⟩
  | loop => exact inv_stepLoop h hok hs
  | call m =>
    rw [step] at hs
    split_ifs at hs
    cases hs
    exact h.of_reader rfl trivial
  | reader c => exact inv_stepReader h hs
  | consume n =>
    rw [step] at hs
    split_ifs at hs
    cases hs
    refine ⟨?_, h.notClosed, h.peerClosed, h.closing, h.notified, h.notifying, h.clear, trivial⟩
    rw [← h.bytes, List.append_assoc s.consumed, List.take_append_drop]

theorem inv_of_reachable (hs : machine.ReachableWhen DrainOk s) : Inv s := by
  refine hs.invariant Inv (fun s hs => ?_) fun s a t h hok ht => inv_step h hok ht
  obtain rfl := hs
  exact inv_initial

/-! ## The end of the stream -/

/-- **Main theorem.** In every run as `DrainOk` says, with any data messages, calls of
    `readMore` and reads between them: when `readMore` has returned `ErrEndOfStream`, the
    stream is half closed, `pendingData` is empty, `recvBuf` has every byte received that
    the user has not read, and they are fewer than `minSize`. -/
theorem endOfStream_after_data (s : State) (hs : machine.ReachableWhen DrainOk s) (minSize : ℤ)
    (hr : s.reader = .returned minSize .endOfStream) :
    s.peerClosed = true ∧ s.unread = [] ∧ s.consumed ++ s.recvBuf = s.received ∧
      (s.recvBuf.length : ℤ) < minSize := by
  have h := inv_of_reachable hs
  have hread := h.reader
  rw [hr] at hread
  obtain ⟨⟨hhalf, hun⟩, hlen⟩ := hread
  have hp := h.peerClosed (.inl hhalf)
  refine ⟨hp, hun, ?_, hlen⟩
  have hb := h.bytes
  have hadding : s.loop.adding = [] := by
    have hc := h.closing hp
    cases hl : s.loop with
    | add buf =>
      rw [hl] at hc
      exact hc.elim
    | _ => rfl
  rw [hun, hadding] at hb
  simpa using hb

/-- One byte and the close, read in two calls. -/
def lastByteRun : List Act :=
  [.data [7], .loop, .loop, .loop, .call 1, .reader .timeout, .reader .timeout, .consume 1,
    .peerClose, .loop, .loop, .call 1, .reader .timeout, .reader .timeout, .reader .timeout]

theorem endOfStream_after_last_byte :
    ∃ s, machine.ReachableWhen DrainOk s ∧ s.reader = .returned 1 .endOfStream ∧
      s.unread = [] ∧ s.consumed ++ s.recvBuf = [7] := by
  obtain ⟨s, hs, hr, hrec⟩ := machine.exists_reachableWhen_of_run DrainOk {} lastByteRun
    (fun s => s.reader = .returned 1 .endOfStream ∧ s.received = [7]) rfl (by decide) (by decide)
  obtain ⟨-, hun, hall, -⟩ := endOfStream_after_data s hs 1 hr
  exact ⟨s, hs, hr, hun, hall.trans hrec⟩

/-- The reader drains nothing; one byte and the close arrive; the reader looks at the
    state. -/
def lateDataRun : List Act :=
  [.call 1, .reader .timeout, .reader .timeout, .data [7], .loop, .loop, .loop, .peerClose, .loop,
    .loop, .reader .timeout]

/-- `ErrEndOfStream` with a byte pending. -/
theorem end_of_stream_before_data :
    ∃ s, machine.Reachable s ∧ s.reader = .returned 1 .endOfStream ∧ s.unread = [[7]] ∧
      s.recvBuf = [] ∧ s.consumed = [] :=
  machine.exists_reachable_of_run {} lateDataRun _ rfl (by decide)

end Shmipc.Stream.ReadMore
