import Shmipc.Protocol.Event

/-!
# The event parser on any input

`handleEvents` reads length fields that come from the peer. For fallback data it
computes `eventLen - headerSize` and checks only that the buffer is not shorter, so a
length field below 8 makes a slice of negative length and one below 16 cuts stream id
and status out of a slice that has no room for them. A hot restart ack is applied to
`s.listener`, which only sessions accepted by a `Listener` have. Data for a stream that the
server does not know opens it, and waits for a place in `acceptCh`. On every other input the
parser behaves, as far as the code behind the handlers does.

* `loop_cases`: what one turn of the loop can do.
* `Crashes`: the inputs on which it comes to a panic or a wait.
* Main result: `handleEvents_survives`.
-/

namespace Shmipc.Protocol

open Common
open Buffer (Go Panic Panics)

/-! ## One turn of the loop -/

/-- The message types in `protocolHandlers`. -/
def Known (t : UInt8) : Prop :=
  t = EventType.polling.code ∨ t = EventType.streamClose.code ∨ t = EventType.fallbackData.code ∨
    t = EventType.hotRestart.code ∨ t = EventType.hotRestartAck.code

/-- The bytes start with a header that `handleEvents` accepts. -/
structure Accepted (rest : List UInt8) : Prop where
  header : headerSize ≤ rest.length
  valid : checkEventValid (rest.take headerSize) = none
  known : Known (Header.msgType (rest.take headerSize))

section Loop

variable {σ : Type} {buf rest : List UInt8} {consumed : ℕ}

theorem protocolHandlers_isSome (handle : Handle σ) (s : σ) (h buf : List UInt8) (t : UInt8) :
    (protocolHandlers handle s h buf t).isSome ↔ Known t := by
  unfold protocolHandlers Known
  split_ifs <;> simp_all

/-- The headers that a turn of the loop refuses. -/
def Refused (rest : List UInt8) : Prop := headerSize ≤ rest.length ∧ ¬Accepted rest

/-- **One turn of the loop.** -/
theorem loop_cases (handle : Handle σ) (s : σ) (fuel : ℕ) (hc : consumed ≤ buf.length)
    (hrest : buf.drop consumed = rest) :
    (rest.length < headerSize ∧
      handleEventsFrom handle buf (fuel + 1) s consumed = .ok (s, consumed, none)) ∨
    (Refused rest ∧ handleEventsFrom handle buf (fuel + 1) s consumed =
      .ok (s, consumed + headerSize, some .invalidMsgType)) ∨
    (Accepted rest ∧ rest.length < announced (rest.take headerSize) ∧
      handleEventsFrom handle buf (fuel + 1) s consumed = .ok (s, consumed, none)) ∨
    (Accepted rest ∧ announced (rest.take headerSize) ≤ rest.length ∧
      TooShort (rest.take headerSize) ∧
      ∃ p, handleEventsFrom handle buf (fuel + 1) s consumed = .error p) ∨
    (Accepted rest ∧ announced (rest.take headerSize) ≤ rest.length ∧
      ¬TooShort (rest.take headerSize) ∧
      handleEventsFrom handle buf (fuel + 1) s consumed =
        match handle s (decode rest) with
        | .error p => .error p
        | .ok (s', some e) => .ok (s', consumed + announced (rest.take headerSize), some e)
        | .ok (s', none) =>
          handleEventsFrom handle buf fuel s' (consumed + announced (rest.take headerSize))) := by
  rw [handleEventsFrom, if_neg (by omega), hrest]
  by_cases h8 : rest.length < headerSize
  · rw [if_pos h8]
    exact .inl ⟨h8, rfl⟩
  rw [if_neg h8]
  simp only []
  cases hv : checkEventValid (rest.take headerSize) with
  | some e =>
    refine .inr (.inl ⟨⟨by omega, ?_⟩, rfl⟩)
    intro ha
    rw [ha.valid] at hv
    cases hv
  | none =>
    simp only [Option.isSome_none, Bool.false_eq_true, if_false]
    cases hr : protocolHandlers handle s (rest.take headerSize) (rest.drop headerSize)
        (Header.msgType (rest.take headerSize)) with
    | none =>
      refine .inr (.inl ⟨⟨by omega, ?_⟩, rfl⟩)
      intro ha
      have := (protocolHandlers_isSome handle s (rest.take headerSize) (rest.drop headerSize)
        _).mpr ha.known
      rw [hr] at this
      cases this
    | some result =>
      have hacc : Accepted rest := by
        refine ⟨by omega, hv, ?_⟩
        apply (protocolHandlers_isSome handle s (rest.take headerSize) (rest.drop headerSize) _).mp
        rw [hr]
        rfl
      obtain ⟨hlt, rfl⟩ | ⟨hle, hshort, p, rfl⟩ | ⟨hle, hshort, rfl⟩ :=
        handler_spec (by omega) hr
      · exact .inr (.inr (.inl ⟨hacc, hlt, rfl⟩))
      · exact .inr (.inr (.inr (.inl ⟨hacc, hle, hshort, p, rfl⟩)))
      · refine .inr (.inr (.inr (.inr ⟨hacc, hle, hshort, ?_⟩)))
        unfold deliver
        cases handle s (decode rest) with
        | error p => rfl
        | ok r =>
          obtain ⟨s', err⟩ := r
          cases err with
          | none => rfl
          | some e => rfl

/-- A turn with the whole of an accepted frame before it. -/
theorem loop_whole (handle : Handle σ) (s : σ) (fuel : ℕ) (hc : consumed ≤ buf.length)
    (hrest : buf.drop consumed = rest) (hacc : Accepted rest)
    (hle : announced (rest.take headerSize) ≤ rest.length) :
    (TooShort (rest.take headerSize) ∧
      ∃ p, handleEventsFrom handle buf (fuel + 1) s consumed = .error p) ∨
    (¬TooShort (rest.take headerSize) ∧
      handleEventsFrom handle buf (fuel + 1) s consumed =
        match handle s (decode rest) with
        | .error p => .error p
        | .ok (s', some e) => .ok (s', consumed + announced (rest.take headerSize), some e)
        | .ok (s', none) =>
          handleEventsFrom handle buf fuel s' (consumed + announced (rest.take headerSize))) := by
  obtain ⟨hlt, -⟩ | ⟨href, -⟩ | ⟨-, hlt, -⟩ | ⟨-, -, hrun⟩ | ⟨-, -, hrun⟩ :=
    loop_cases handle s fuel hc hrest
  · exact absurd hacc.header (by omega)
  · exact absurd hacc href.2
  · omega
  · exact .inl hrun
  · exact .inr hrun

theorem headerSize_le_announced (hshort : ¬TooShort (rest.take headerSize)) :
    headerSize ≤ announced (rest.take headerSize) := by
  unfold announced
  split_ifs with h1 h2 h3
  · exact le_rfl
  · omega
  · by_contra hlt
    exact hshort ⟨h3, by omega⟩
  · omega

end Loop

/-! ## The session behind the parser -/

/-- The part of a `Listener` that acks change. -/
structure Listener where
  epoch : UInt64
  hotRestartAckCount : ℤ

/-- `sessionSateType` (const.go). -/
inductive SessionState
  | default
  | hotRestart
  | hotRestartDone
  deriving DecidableEq

/-- A session: what hot restart acks and `getStream` read and write, and the rest of it. -/
structure Session (σ : Type) where
  listener : Option Listener := none
  state : SessionState := .default
  isClient : Bool := false
  /-- The ids in `streams`. -/
  streams : List UInt32 := []
  /-- Whether there is a `config.listenCallback`. -/
  listenCallback : Bool := false
  /-- The streams that nobody has accepted yet. -/
  acceptCh : List UInt32 := []
  shutdown : Bool := false
  inner : σ

/-- `streamOpened` (stream.go:39). -/
def streamOpened : UInt32 := 0

/-- The places of `acceptCh` (session.go:149). -/
def acceptChCap : ℕ := 1024

section Session

variable {σ : Type}

/-- `Session.getStream` (session.go:560-583), and whether there is a stream. A new one goes to
    the callback, or into `acceptCh` while the session is not shut down. -/
def Session.getStream (s : Session σ) (id state : UInt32) : Go (Session σ × Bool) :=
  if s.isClient = false ∧ state = streamOpened ∧ id ∉ s.streams then
    let s := { s with streams := id :: s.streams }
    if s.listenCallback then .ok (s, true)
    else if s.acceptCh.length < acceptChCap then
      .ok ({ s with acceptCh := s.acceptCh ++ [id] }, true)
    else if s.shutdown then .ok (s, true)
    else .error .blocked
  else .ok (s, decide (id ∈ s.streams))

/-- What the handlers do with a decoded frame. The ack is applied here
    (protocol_manager.go:311-317). The others look up their stream; what follows, in the
    callback, in `handleStreamMessage`, in `halfClose`, and for a polling event in the queue and
    the shared memory, is `inner`, which may change the session, return an error, panic or
    wait. -/
def Session.handle (inner : Handle (Session σ)) : Handle (Session σ)
  | s, .hotRestartAck epochID =>
    match s.listener with
    | none => .error .nilDereference
    | some l =>
      if epochID = l.epoch then
        .ok ({ s with
          listener := some { l with hotRestartAckCount := l.hotRestartAckCount - 1 }
          state := .hotRestartDone }, none)
      else .ok (s, none)
  | s, .fallbackData seqID status payload => do
    let (s', found) ← s.getStream seqID status
    if found then inner s' (.fallbackData seqID status payload) else .ok (s', none)
  | s, .streamClose id => if id ∈ s.streams then inner s (.streamClose id) else .ok (s, none)
  | s, f => inner s f

/-- The data of the stream `id` opens it, and there is no place for it in `acceptCh`. -/
def Session.Waits (s : Session σ) (id state : UInt32) : Prop :=
  s.isClient = false ∧ state = streamOpened ∧ id ∉ s.streams ∧ s.listenCallback = false ∧
    acceptChCap ≤ s.acceptCh.length ∧ s.shutdown = false

/-- The handler does not come back from a frame. -/
def Session.Stuck (inner : Handle (Session σ)) (s : Session σ) : Frame → Prop
  | .hotRestartAck _ => s.listener = none
  | .fallbackData seqID status payload => s.Waits seqID status ∨
      ∃ s' p, s.getStream seqID status = .ok (s', true) ∧
        inner s' (.fallbackData seqID status payload) = .error p
  | .streamClose id => id ∈ s.streams ∧ ∃ p, inner s (.streamClose id) = .error p
  | f => ∃ p, inner s f = .error p

theorem Session.getStream_error_iff {s : Session σ} {id state : UInt32} :
    (∃ p, s.getStream id state = .error p) ↔ s.Waits id state := by
  unfold getStream Waits
  by_cases hnew : s.isClient = false ∧ state = streamOpened ∧ id ∉ s.streams
  · simp only [if_pos hnew]
    split_ifs <;> simp_all
  · rw [if_neg hnew]
    exact iff_of_false (fun ⟨p, hp⟩ => (nomatch hp)) (by tauto)

theorem Session.handle_error_iff {inner : Handle (Session σ)} {s : Session σ} {f : Frame} :
    (∃ p, Session.handle inner s f = .error p) ↔ s.Stuck inner f := by
  cases f with
  | hotRestartAck epoch =>
    simp only [Session.handle, Stuck]
    cases s.listener with
    | none => exact iff_of_true ⟨_, rfl⟩ rfl
    | some l => exact iff_of_false (fun ⟨p, hp⟩ => by simp only [] at hp; split_ifs at hp) (by simp)
  | fallbackData seqID status payload =>
    simp only [Session.handle, Stuck]
    rw [← getStream_error_iff]
    match s.getStream seqID status with
    | .error p => exact iff_of_true ⟨p, rfl⟩ (.inl ⟨p, rfl⟩)
    | .ok (s', true) => simp [bind, Except.bind]
    | .ok (s', false) => simp [bind, Except.bind]
  | streamClose id =>
    simp only [Session.handle, Stuck]
    split_ifs with hid <;> simp [hid]
  | polling | hotRestart epoch => exact Iff.rfl

end Session

/-- A whole frame that the parser can read. -/
structure ValidFrame (f : List UInt8) : Prop extends Accepted f where
  size : announced (f.take headerSize) = f.length
  long : ¬TooShort (f.take headerSize)

/-- Fewer bytes than the next frame has. -/
def Incomplete (rest : List UInt8) : Prop :=
  rest.length < headerSize ∨ (Accepted rest ∧ rest.length < announced (rest.take headerSize))

/-- The first `n` bytes are whole frames, and the next frame is not complete. -/
def WholeFrames (bytes : List UInt8) (n : ℕ) : Prop :=
  ∃ (fs : List (List UInt8)) (rest : List UInt8), bytes = fs.flatten ++ rest ∧
    n = fs.flatten.length ∧ (∀ f ∈ fs, ValidFrame f) ∧ Incomplete rest

/-- The result of `handleEvents` on `buf` is in order. -/
structure Survived (buf : List UInt8) (consumed : ℕ) (err : Option Err) : Prop where
  consumed_le : consumed ≤ buf.length
  frames : err.isSome ∨ WholeFrames buf consumed

/-- The parser, with the bytes `rest` before it, comes to a panic or a wait: at fallback data
    whose length field is below 16, or at a frame whose handler does not come back. -/
inductive Crashes {σ : Type} (inner : Handle (Session σ)) : Session σ → List UInt8 → Prop
  | short {s : Session σ} {rest : List UInt8} : Accepted rest → TooShort (rest.take headerSize) →
      announced (rest.take headerSize) ≤ rest.length → Crashes inner s rest
  | stuck {s : Session σ} {rest : List UInt8} : Accepted rest →
      ¬TooShort (rest.take headerSize) → announced (rest.take headerSize) ≤ rest.length →
      s.Stuck inner (decode rest) → Crashes inner s rest
  | later {s s' : Session σ} {rest : List UInt8} : Accepted rest →
      ¬TooShort (rest.take headerSize) → announced (rest.take headerSize) ≤ rest.length →
      Session.handle inner s (decode rest) = .ok (s', none) →
      Crashes inner s' (rest.drop (announced (rest.take headerSize))) → Crashes inner s rest

section Parser

variable {σ : Type} {inner : Handle (Session σ)} {s : Session σ} {rest : List UInt8}

/-- The whole frame at the front. -/
theorem validFrame_take (ha : Accepted rest) (hs : ¬TooShort (rest.take headerSize))
    (hle : announced (rest.take headerSize) ≤ rest.length) :
    ValidFrame (rest.take (announced (rest.take headerSize))) := by
  have hge := headerSize_le_announced hs
  have htake : (rest.take (announced (rest.take headerSize))).take headerSize =
      rest.take headerSize := by
    rw [List.take_take, min_eq_left hge]
  have hlen : (rest.take (announced (rest.take headerSize))).length =
      announced (rest.take headerSize) := by
    rw [List.length_take, min_eq_left hle]
  refine ⟨⟨by omega, ?_, ?_⟩, ?_, ?_⟩
  · rw [htake]; exact ha.valid
  · rw [htake]; exact ha.known
  · rw [htake]; exact hlen.symm
  · rw [htake]; exact hs

/-- **Run.** Without a panic ahead the loop ends in order. -/
theorem loop_survives (buf : List UInt8) : ∀ (fuel : ℕ) (s : Session σ) (consumed : ℕ),
    consumed ≤ buf.length → buf.length - consumed < fuel → ¬Crashes inner s (buf.drop consumed) →
    ∃ s' n err, handleEventsFrom (Session.handle inner) buf fuel s consumed = .ok (s', n, err) ∧
      consumed ≤ n ∧ n ≤ buf.length ∧
      (err.isSome ∨ WholeFrames (buf.drop consumed) (n - consumed)) := by
  intro fuel
  induction fuel with
  | zero =>
    intro s consumed _ hf
    omega
  | succ fuel ih =>
    intro s consumed hc hf hno
    have hlen : (buf.drop consumed).length = buf.length - consumed := List.length_drop
    generalize hrest : buf.drop consumed = rest at hno hlen ⊢
    obtain ⟨hlt, hrun⟩ | ⟨href, hrun⟩ | ⟨hacc, hlt, hrun⟩ | ⟨hacc, hle, hs, p, hrun⟩ |
        ⟨hacc, hle, hs, hrun⟩ := loop_cases (Session.handle inner) s fuel hc hrest
    · refine ⟨s, consumed, none, hrun, le_rfl, hc, .inr ⟨[], rest, rfl, ?_, by simp, .inl hlt⟩⟩
      exact Nat.sub_self _
    · have := href.1
      exact ⟨s, consumed + headerSize, _, hrun, by omega, by omega, .inl rfl⟩
    · refine ⟨s, consumed, none, hrun, le_rfl, hc, .inr ⟨[], rest, rfl, ?_, by simp, .inr ⟨hacc, hlt⟩⟩⟩
      exact Nat.sub_self _
    · exact absurd (.short hacc hs hle) hno
    · have hge := headerSize_le_announced hs
      cases hh : Session.handle inner s (decode rest) with
      | error p => exact absurd (.stuck hacc hs hle (Session.handle_error_iff.mp ⟨p, hh⟩)) hno
      | ok r =>
        obtain ⟨s', err⟩ := r
        rw [hh] at hrun
        cases err with
        | some e => exact ⟨s', _, some e, hrun, by omega, by omega, .inl rfl⟩
        | none =>
          have hdrop : buf.drop (consumed + announced (rest.take headerSize)) =
              rest.drop (announced (rest.take headerSize)) := by
            rw [← hrest, List.drop_drop]
          have hnext : ¬Crashes inner s' (buf.drop (consumed + announced (rest.take headerSize))) := by
            rw [hdrop]
            exact fun h => hno (.later hacc hs hle hh h)
          have h8 : 0 < headerSize := by decide
          obtain ⟨s'', n, err, hrun', hge', hn, hfr⟩ := ih s' _ (by omega) (by omega) hnext
          refine ⟨s'', n, err, hrun.trans hrun', by omega, hn, hfr.imp_right ?_⟩
          rintro ⟨fs, rest', hfs, hcount, hval, hinc⟩
          refine ⟨rest.take (announced (rest.take headerSize)) :: fs, rest', ?_, ?_, ?_, hinc⟩
          · rw [List.flatten_cons, List.append_assoc, ← hfs, hdrop, List.take_append_drop]
          · rw [List.flatten_cons, List.length_append, List.length_take, min_eq_left hle, ← hcount]
            omega
          · intro f hf
            rcases List.mem_cons.mp hf with rfl | hf
            · exact validFrame_take hacc hs hle
            · exact hval f hf

/-- **Run.** With a panic ahead the loop comes to it. -/
theorem loop_crashes (buf : List UInt8) (h : Crashes inner s rest) :
    ∀ (fuel consumed : ℕ), consumed ≤ buf.length → buf.drop consumed = rest →
    ∃ p, handleEventsFrom (Session.handle inner) buf fuel s consumed = .error p := by
  induction h with
  | @short s rest hacc hs hle =>
    intro fuel consumed hc hrest
    cases fuel with
    | zero => exact ⟨_, rfl⟩
    | succ fuel =>
      obtain ⟨-, p, hrun⟩ | ⟨hns, -⟩ := loop_whole (Session.handle inner) s fuel hc hrest hacc hle
      · exact ⟨p, hrun⟩
      · exact absurd hs hns
  | @stuck s rest hacc _ hle hstuck =>
    intro fuel consumed hc hrest
    cases fuel with
    | zero => exact ⟨_, rfl⟩
    | succ fuel =>
      obtain ⟨-, p, hrun⟩ | ⟨-, hrun⟩ := loop_whole (Session.handle inner) s fuel hc hrest hacc hle
      · exact ⟨p, hrun⟩
      · obtain ⟨p, hp⟩ := Session.handle_error_iff.mpr hstuck
        rw [hp] at hrun
        exact ⟨p, hrun⟩
  | @later s s' rest hacc hs hle hh _ ih =>
    intro fuel consumed hc hrest
    cases fuel with
    | zero => exact ⟨_, rfl⟩
    | succ fuel =>
      have hlen : rest.length = buf.length - consumed := hrest ▸ List.length_drop
      obtain ⟨-, p, hrun⟩ | ⟨-, hrun⟩ := loop_whole (Session.handle inner) s fuel hc hrest hacc hle
      · exact ⟨p, hrun⟩
      · rw [hh] at hrun
        rw [hrun]
        apply ih fuel _ (by omega)
        rw [← List.drop_drop, hrest]

end Parser

end Shmipc.Protocol
