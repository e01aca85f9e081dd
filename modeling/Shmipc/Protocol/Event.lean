import Shmipc.Common.Bytes
import Shmipc.Buffer.Slice

/-!
# Events on the connection

The frames two sessions exchange over their unix domain socket: an 8-byte header
with length, magic number, version and type, and a body that depends on the type
(protocol_event.go). The encoders are spread over the source; the decoding is done
by the `protocolHandlers` (protocol_manager.go), which `handleEvents`
(session.go:519-544) runs over the unread bytes of the connection.

What a handler does with a decoded frame is a parameter `handle` of the parser: the
streams, the queue and the listener behind it are other modules' subject, and the
parser only looks at the error that comes back.

* `Frame.encode`: the senders.
* `handleFallbackData` … `handleStreamClose`: the handlers, with Go's slice checks.
* `handler_spec`: what each of them does, in one equation.
* `handleEvents`: the loop.
-/

namespace Shmipc.Protocol

open Common
open Buffer (Go Panic)

/-! ## Headers -/

def headerSize : ℕ := 8
def magicNumber : ℕ := 0x7758
def epochIDLen : ℕ := 8

/-- `eventType` (protocol_event.go:26-46). -/
inductive EventType
  | shareMemoryByFilePath
  | polling
  | streamClose
  | fallbackData
  | exchangeProtoVersion
  | shareMemoryByMemfd
  | ackShareMemory
  | ackReadyRecvFD
  | hotRestart
  | hotRestartAck
  deriving DecidableEq

def EventType.code : EventType → UInt8
  | .shareMemoryByFilePath => 0
  | .polling => 1
  | .streamClose => 2
  | .fallbackData => 3
  | .exchangeProtoVersion => 4
  | .shareMemoryByMemfd => 5
  | .ackShareMemory => 6
  | .ackReadyRecvFD => 7
  | .hotRestart => 8
  | .hotRestartAck => 9

def maxEventType : UInt8 := EventType.hotRestartAck.code

/-- The errors a handler can report (errors.go, buffer_manager.go:559-571). -/
inductive Err
  | invalidVersion
  | invalidMsgType
  /-- `readBufferSlice` was given an offset outside the shared memory. -/
  | brokenOffset (offset : ℕ)
  deriving DecidableEq

namespace Header

/-- `header.Length` (protocol_event.go:57-59). -/
def length (h : List UInt8) : ℕ := ofBe (h.take 4)

/-- `header.Magic`. -/
def magic (h : List UInt8) : ℕ := ofBe ((h.drop 4).take 2)

/-- `header.Version`. -/
def version (h : List UInt8) : UInt8 := h.getD 6 0

/-- `header.MsgType`. -/
def msgType (h : List UInt8) : UInt8 := h.getD 7 0

/-- `header.encode` (protocol_event.go:78-83). -/
def encode (length : ℕ) (version : UInt8) (msgType : EventType) : List UInt8 :=
  be 4 length ++ be 2 magicNumber ++ [version, msgType.code]

end Header

/-- `checkEventValid` (protocol_event.go:124-136). -/
def checkEventValid (hdr : List UInt8) : Option Err :=
  if Header.magic hdr ≠ magicNumber ∨ Header.version hdr = 0 then some .invalidVersion
  else if maxEventType < Header.msgType hdr then some .invalidMsgType
  else none

section Header

variable (len : ℕ) (v : UInt8) (t : EventType) (body : List UInt8)

@[simp] theorem Header.length_encode : (Header.encode len v t).length = headerSize := by
  simp [Header.encode, headerSize]

theorem Header.length_of_encode : Header.length (Header.encode len v t) = len % 2 ^ 32 := by
  unfold Header.length Header.encode
  rw [List.append_assoc, List.take_left' (length_be 4 len), ofBe_be_mod]
  norm_num

theorem Header.magic_of_encode : Header.magic (Header.encode len v t) = magicNumber := by
  unfold Header.magic Header.encode
  rw [List.append_assoc, List.drop_left' (length_be 4 len), List.take_left' (length_be 2 _),
    ofBe_be (by decide)]

theorem Header.version_of_encode : Header.version (Header.encode len v t) = v := by
  simp [Header.version, Header.encode, List.getD]

theorem Header.msgType_of_encode : Header.msgType (Header.encode len v t) = t.code := by
  simp [Header.msgType, Header.encode, List.getD]

theorem EventType.code_le : ¬maxEventType < t.code := by
  cases t <;> decide

/-- The encoder's headers pass the check. -/
theorem checkEventValid_encode (hv : v ≠ 0) : checkEventValid (Header.encode len v t) = none := by
  unfold checkEventValid
  rw [Header.magic_of_encode, Header.version_of_encode, Header.msgType_of_encode,
    if_neg (by simpa using hv), if_neg t.code_le]

end Header

/-! ## Frames -/

/-- The frames that follow the handshake. -/
inductive Frame
  | polling
  | streamClose (id : UInt32)
  | fallbackData (seqID status : UInt32) (payload : List UInt8)
  | hotRestart (epoch : UInt64)
  | hotRestartAck (epoch : UInt64)
  deriving DecidableEq

/-- The bytes a session of protocol version `v` sends for a frame:
    `pollingEventWithVersion` (protocol_event.go:48-53), the close event
    (stream.go:318-321), `fallbackDataEvent.encode` with the payload behind it
    (protocol_event.go:88-95, stream.go:256-271), `hotRestart` (session.go:690-712). -/
def Frame.encode (v : UInt8) : Frame → List UInt8
  | .polling => Header.encode headerSize v .polling
  | .streamClose id => Header.encode (headerSize + 4) v .streamClose ++ be 4 id.toNat
  | .fallbackData seqID status payload =>
    Header.encode (headerSize + 8 + payload.length) v .fallbackData ++
      (be 4 seqID.toNat ++ be 4 status.toNat) ++ payload
  | .hotRestart epoch => Header.encode (headerSize + 8) v .hotRestart ++ be 8 epoch.toNat
  | .hotRestartAck epoch => Header.encode (headerSize + 8) v .hotRestartAck ++ be 8 epoch.toNat

/-- The frame as the receiver sees it: `handleFallbackData` keeps the low byte of the
    status. -/
def Frame.received : Frame → Frame
  | .fallbackData seqID status payload => .fallbackData seqID (status &&& 0xff) payload
  | f => f

/-! ## Handlers -/

/-- The behaviour behind the parser: the state after a frame, and an error. -/
abbrev Handle (σ : Type*) := σ → Frame → Go (σ × Option Err)

/-- What a `protocolHandler` returns, with the state it leaves. -/
structure Handled (σ : Type*) where
  session : σ
  consumed : ℕ
  stop : Bool
  err : Option Err

/-- `bs[lo:hi]`. -/
def slice (bs : List UInt8) (lo hi : ℕ) : Go (List UInt8) :=
  if lo ≤ hi ∧ hi ≤ bs.length then .ok ((bs.take hi).drop lo) else .error .sliceBounds

section Handlers

variable {σ : Type} (handle : Handle σ) (s : σ) (h buf : List UInt8)

/-- The frame goes to the session, and `n` bytes are consumed. -/
def deliver (f : Frame) (n : ℕ) : Go (Handled σ) := do
  let (s', err) ← handle s f
  pure ⟨s', n, false, err⟩

/-- `handlePolling` (protocol_manager.go:257-288). -/
def handlePolling : Go (Handled σ) := deliver handle s .polling headerSize

/-- `handleFallbackData` (protocol_manager.go:153-177). -/
def handleFallbackData : Go (Handled σ) :=
  let eventLen := Header.length h
  let payloadLen : ℤ := eventLen - headerSize
  if (buf.length : ℤ) < payloadLen then .ok ⟨s, 0, true, none⟩
  else if payloadLen < 0 then .error .makeSlice
  else do
    let data := buf.take payloadLen.toNat
    let seqID ← slice data 0 4
    let status ← slice data 4 8
    let payload ← slice data 8 data.length
    deliver handle s (.fallbackData (UInt32.ofNat (ofBe seqID))
      (UInt32.ofNat (ofBe status) &&& 0xff) payload) eventLen

/-- A handler whose body is one number of `n` bytes. -/
def handleNumber (n : ℕ) (frame : ℕ → Frame) : Go (Handled σ) :=
  if buf.length < n then .ok ⟨s, 0, true, none⟩
  else do
    let number ← slice buf 0 n
    deliver handle s (frame (ofBe number)) (headerSize + n)

/-- `handleHotRestart` (protocol_manager.go:290-302). -/
def handleHotRestart : Go (Handled σ) :=
  handleNumber handle s buf epochIDLen fun epoch => .hotRestart (UInt64.ofNat epoch)

/-- `handleHotRestartAck` (protocol_manager.go:304-320). -/
def handleHotRestartAck : Go (Handled σ) :=
  handleNumber handle s buf epochIDLen fun epoch => .hotRestartAck (UInt64.ofNat epoch)

/-- `handleStreamClose` (protocol_manager.go:322-338). -/
def handleStreamClose : Go (Handled σ) :=
  handleNumber handle s buf 4 fun id => .streamClose (UInt32.ofNat id)

/-- The table `protocolHandlers` (protocol_manager.go:32-38) at a message type: the
    handler applied to its arguments, or nothing where the table has none. -/
def protocolHandlers (msgType : UInt8) : Option (Go (Handled σ)) :=
  if msgType = EventType.polling.code then some (handlePolling handle s)
  else if msgType = EventType.streamClose.code then some (handleStreamClose handle s buf)
  else if msgType = EventType.fallbackData.code then some (handleFallbackData handle s h buf)
  else if msgType = EventType.hotRestart.code then some (handleHotRestart handle s buf)
  else if msgType = EventType.hotRestartAck.code then some (handleHotRestartAck handle s buf)
  else none

end Handlers

/-! ## The loop -/

section Loop

variable {σ : Type} (handle : Handle σ) (buf : List UInt8)

/-- The loop of `handleEvents`, with `consumed` bytes behind it. -/
def handleEventsFrom : ℕ → σ → ℕ → Go (σ × ℕ × Option Err)
  | 0, _, _ => .error .endlessLoop
  | fuel + 1, s, consumed =>
    if buf.length < consumed then .error .sliceBounds
    else if (buf.drop consumed).length < headerSize then .ok (s, consumed, none)
    else
      let eventHeader := (buf.drop consumed).take headerSize
      if (checkEventValid eventHeader).isSome then
        .ok (s, consumed + headerSize, some .invalidMsgType)
      else
        match protocolHandlers handle s eventHeader ((buf.drop consumed).drop headerSize)
            (Header.msgType eventHeader) with
        | none => .ok (s, consumed + headerSize, some .invalidMsgType)
        | some result => do
          let r ← result
          if r.err.isSome then .ok (r.session, consumed + r.consumed, r.err)
          else if r.stop then .ok (r.session, consumed + r.consumed, none)
          else handleEventsFrom fuel r.session (consumed + r.consumed)

/-- `Session.handleEvents` (session.go:519-544): the session afterwards, the number of
    consumed bytes and the error. -/
def handleEvents (s : σ) : Go (σ × ℕ × Option Err) := handleEventsFrom handle buf (buf.length + 1) s 0

end Loop

/-! ## What a handler does -/

/-- The bytes a frame with header `h` takes, or says it takes. -/
def announced (h : List UInt8) : ℕ :=
  if Header.msgType h = EventType.polling.code then headerSize
  else if Header.msgType h = EventType.streamClose.code then headerSize + 4
  else if Header.msgType h = EventType.fallbackData.code then Header.length h
  else headerSize + epochIDLen

/-- A header of fallback data that leaves no room for stream id and status. -/
def TooShort (h : List UInt8) : Prop :=
  Header.msgType h = EventType.fallbackData.code ∧ Header.length h < headerSize + 8

/-- The frame at the front of `rest`. -/
def decode (rest : List UInt8) : Frame :=
  let h := rest.take headerSize
  let body := rest.drop headerSize
  if Header.msgType h = EventType.polling.code then .polling
  else if Header.msgType h = EventType.streamClose.code then
    .streamClose (UInt32.ofNat (ofBe (body.take 4)))
  else if Header.msgType h = EventType.fallbackData.code then
    .fallbackData (UInt32.ofNat (ofBe (body.take 4)))
      (UInt32.ofNat (ofBe ((body.drop 4).take 4)) &&& 0xff)
      ((body.take (Header.length h - headerSize)).drop 8)
  else if Header.msgType h = EventType.hotRestart.code then
    .hotRestart (UInt64.ofNat (ofBe (body.take epochIDLen)))
  else .hotRestartAck (UInt64.ofNat (ofBe (body.take epochIDLen)))

section Spec

variable {σ : Type} {handle : Handle σ} {s : σ} {h buf rest : List UInt8}

theorem slice_zero {n : ℕ} (hn : n ≤ buf.length) : slice buf 0 n = .ok (buf.take n) := by
  unfold slice
  rw [if_pos ⟨Nat.zero_le _, hn⟩, List.drop_zero]

theorem handleNumber_eq (n : ℕ) (frame : ℕ → Frame) :
    handleNumber handle s buf n frame =
      if buf.length < n then .ok ⟨s, 0, true, none⟩
      else deliver handle s (frame (ofBe (buf.take n))) (headerSize + n) := by
  unfold handleNumber
  split
  · rfl
  · rw [slice_zero (by omega)]
    rfl

theorem handleFallbackData_stop (hlen : headerSize + buf.length < Header.length h) :
    handleFallbackData handle s h buf = .ok ⟨s, 0, true, none⟩ := by
  unfold handleFallbackData
  simp only []
  rw [if_pos (by omega)]

/-- A length field below 16 that the buffer can satisfy is a panic. -/
theorem handleFallbackData_tooShort (hlen : Header.length h ≤ headerSize + buf.length)
    (hshort : Header.length h < headerSize + 8) :
    ∃ p, handleFallbackData handle s h buf = .error p := by
  unfold handleFallbackData
  simp only []
  rw [if_neg (by omega)]
  by_cases hneg : (Header.length h : ℤ) - headerSize < 0
  · rw [if_pos hneg]
    exact ⟨_, rfl⟩
  rw [if_neg hneg]
  have hdata : (buf.take ((Header.length h : ℤ) - headerSize).toNat).length < 8 := by
    rw [List.length_take]
    omega
  generalize buf.take ((Header.length h : ℤ) - headerSize).toNat = data at hdata
  have hstatus : slice data 4 8 = .error .sliceBounds := by
    unfold slice
    rw [if_neg (by omega)]
  cases hseq : slice data 0 4 with
  | error p => exact ⟨p, rfl⟩
  | ok seqID =>
    refine ⟨.sliceBounds, ?_⟩
    simp only [bind, Except.bind, hstatus]

theorem handleFallbackData_ok (hlen : Header.length h ≤ headerSize + buf.length)
    (hge : headerSize + 8 ≤ Header.length h) :
    handleFallbackData handle s h buf =
      deliver handle s (.fallbackData (UInt32.ofNat (ofBe (buf.take 4)))
        (UInt32.ofNat (ofBe ((buf.drop 4).take 4)) &&& 0xff)
        ((buf.take (Header.length h - headerSize)).drop 8)) (Header.length h) := by
  have hto : ((Header.length h : ℤ) - headerSize).toNat = Header.length h - headerSize := by omega
  unfold handleFallbackData
  simp only []
  rw [if_neg (by omega), if_neg (by omega), hto]
  generalize hn : Header.length h - headerSize = n
  have hdata : (buf.take n).length = n := by
    rw [List.length_take]
    omega
  have h0 : slice (buf.take n) 0 4 = .ok (buf.take 4) := by
    rw [slice_zero (by omega), List.take_take, min_eq_left (by omega)]
  have h4 : slice (buf.take n) 4 8 = .ok ((buf.drop 4).take 4) := by
    unfold slice
    rw [if_pos (by omega), List.take_take, min_eq_left (by omega), List.drop_take]
  have h8 : slice (buf.take n) 8 (buf.take n).length = .ok ((buf.take n).drop 8) := by
    unfold slice
    rw [if_pos (by omega), List.take_length]
  rw [h0, h4, h8]
  rfl

/-- What can come of the bytes `rest` from a header on: the handler waits for more, it
    panics, or the session gets the frame. -/
def Outcome (handle : Handle σ) (s : σ) (rest : List UInt8) (result : Go (Handled σ)) : Prop :=
  (rest.length < announced (rest.take headerSize) ∧ result = .ok ⟨s, 0, true, none⟩) ∨
  (announced (rest.take headerSize) ≤ rest.length ∧ TooShort (rest.take headerSize) ∧
    ∃ p, result = .error p) ∨
  (announced (rest.take headerSize) ≤ rest.length ∧ ¬TooShort (rest.take headerSize) ∧
    result = deliver handle s (decode rest) (announced (rest.take headerSize)))

/-- **What the handler of a type does.** -/
theorem handler_spec (h8 : headerSize ≤ rest.length) {result : Go (Handled σ)}
    (hr : protocolHandlers handle s (rest.take headerSize) (rest.drop headerSize)
      (Header.msgType (rest.take headerSize)) = some result) : Outcome handle s rest result := by
  have hdrop : (rest.drop headerSize).length + headerSize = rest.length := by
    rw [List.length_drop]
    omega
  -- the handlers with a body of fixed size
  have hnum : ∀ (n : ℕ) (frame : ℕ → Frame),
      announced (rest.take headerSize) = headerSize + n → ¬TooShort (rest.take headerSize) →
      decode rest = frame (ofBe ((rest.drop headerSize).take n)) →
      result = handleNumber handle s (rest.drop headerSize) n frame →
      Outcome handle s rest result := by
    intro n frame ha hs hd he
    rw [handleNumber_eq] at he
    unfold Outcome
    rw [ha, hd]
    by_cases hlt : (rest.drop headerSize).length < n
    · rw [if_pos hlt] at he
      exact .inl ⟨by omega, he⟩
    · rw [if_neg hlt] at he
      exact .inr (.inr ⟨by omega, hs, he⟩)
  unfold protocolHandlers at hr
  split at hr
  · rename_i ht
    have ha : announced (rest.take headerSize) = headerSize := by
      unfold announced
      rw [if_pos ht]
    have hs : ¬TooShort (rest.take headerSize) := by
      intro hs
      exact absurd (ht.symm.trans hs.1) (by decide)
    have hd : decode rest = .polling := by
      unfold decode
      simp only []
      rw [if_pos ht]
    cases hr
    unfold Outcome
    rw [ha, hd]
    exact .inr (.inr ⟨h8, hs, rfl⟩)
  rename_i ht1
  split at hr
  · rename_i ht
    cases hr
    refine hnum 4 _ ?_ ?_ ?_ rfl
    · unfold announced
      rw [if_neg ht1, if_pos ht]
    · intro hs
      exact absurd (ht.symm.trans hs.1) (by decide)
    · unfold decode
      simp only []
      rw [if_neg ht1, if_pos ht]
  rename_i ht2
  split at hr
  · rename_i ht
    have ha : announced (rest.take headerSize) = Header.length (rest.take headerSize) := by
      unfold announced
      rw [if_neg ht1, if_neg ht2, if_pos ht]
    have hd : decode rest = .fallbackData (UInt32.ofNat (ofBe ((rest.drop headerSize).take 4)))
        (UInt32.ofNat (ofBe (((rest.drop headerSize).drop 4).take 4)) &&& 0xff)
        (((rest.drop headerSize).take
          (Header.length (rest.take headerSize) - headerSize)).drop 8) := by
      unfold decode
      simp only []
      rw [if_neg ht1, if_neg ht2, if_pos ht]
    cases hr
    unfold Outcome
    rw [ha, hd]
    by_cases hlt : rest.length < Header.length (rest.take headerSize)
    · exact .inl ⟨hlt, handleFallbackData_stop (by omega)⟩
    by_cases hshort : Header.length (rest.take headerSize) < headerSize + 8
    · exact .inr (.inl ⟨by omega, ⟨ht, hshort⟩, handleFallbackData_tooShort (by omega) hshort⟩)
    · exact .inr (.inr ⟨by omega, fun hs => hshort hs.2,
        handleFallbackData_ok (by omega) (by omega)⟩)
  rename_i ht3
  have ha : announced (rest.take headerSize) = headerSize + epochIDLen := by
    unfold announced
    rw [if_neg ht1, if_neg ht2, if_neg ht3]
  have hs : ¬TooShort (rest.take headerSize) := fun hs => ht3 hs.1
  split at hr
  · rename_i ht
    cases hr
    refine hnum epochIDLen _ ha hs ?_ rfl
    unfold decode
    simp only []
    rw [if_neg ht1, if_neg ht2, if_neg ht3, if_pos ht]
  rename_i ht4
  split at hr
  · cases hr
    refine hnum epochIDLen _ ha hs ?_ rfl
    unfold decode
    simp only []
    rw [if_neg ht1, if_neg ht2, if_neg ht3, if_neg ht4]
  · cases hr

end Spec

end Shmipc.Protocol
