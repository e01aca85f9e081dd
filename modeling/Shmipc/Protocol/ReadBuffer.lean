import Shmipc.Protocol.Parser
import Shmipc.Common.Mem
import Shmipc.Common.Trans

/-!
# Frames through the read buffer

The receiving side of a connection (event_dispatcher_linux.go:161-226): bytes are read
into a buffer that grows when it is full, compacts when it grows and shrinks when it
was emptied; `onEventData` runs the parser over the unread part whenever a megabyte has
gathered and whenever the socket is drained, and `commitRead` takes the consumed bytes
off. The kernel may split the stream anywhere.

The frames arrive as they were sent, in order and once each, however the stream is
split, with one exception the encoder does not show: of the 32-bit status of fallback
data the receiver keeps the low byte.

* `decode_encode`: one frame.
* `loop_frames`: the parser on a part of a stream of frames.
* `inv_act`: one read or drain.
* Main result: `frames_dispatched`.
-/

namespace Shmipc.Protocol

open Common
open Buffer (Go Panic)

/-! ## One frame -/

def Frame.type : Frame → EventType
  | .polling => .polling
  | .streamClose _ => .streamClose
  | .fallbackData .. => .fallbackData
  | .hotRestart _ => .hotRestart
  | .hotRestartAck _ => .hotRestartAck

/-- The bytes behind the header. -/
def Frame.body : Frame → List UInt8
  | .polling => []
  | .streamClose id => be 4 id.toNat
  | .fallbackData seqID status payload => be 4 seqID.toNat ++ be 4 status.toNat ++ payload
  | .hotRestart epoch | .hotRestartAck epoch => be 8 epoch.toNat

/-- What the senders send: fallback data has a payload, and its length fits the field. -/
def Frame.Sendable : Frame → Prop
  | .fallbackData _ _ payload => payload ≠ [] ∧ headerSize + 8 + payload.length < 2 ^ 32
  | _ => True

instance (f : Frame) : Decidable f.Sendable := by
  cases f <;> unfold Frame.Sendable <;> infer_instance

section OneFrame

variable {v : UInt8} {f : Frame} {rest : List UInt8}

theorem Frame.encode_eq (v : UInt8) (f : Frame) :
    f.encode v = Header.encode (headerSize + f.body.length) v f.type ++ f.body := by
  cases f with
  | polling | streamClose id => simp [Frame.encode, Frame.body, Frame.type]
  | fallbackData seqID status payload =>
    have hlen : headerSize + 8 + payload.length =
        headerSize + (Frame.fallbackData seqID status payload).body.length := by
      simp only [Frame.body, List.length_append, length_be]
      omega
    rw [Frame.encode, hlen, List.append_assoc]
    simp only [Frame.body, Frame.type, List.append_assoc]
  | hotRestart epoch | hotRestartAck epoch => simp [Frame.encode, Frame.body, Frame.type]

theorem Frame.length_encode (v : UInt8) (f : Frame) :
    (f.encode v).length = headerSize + f.body.length := by
  rw [Frame.encode_eq, List.length_append, Header.length_encode]

theorem Frame.body_lt (hf : f.Sendable) : headerSize + f.body.length < 2 ^ 32 := by
  cases f with
  | polling => decide
  | streamClose id => simp [Frame.body, headerSize]
  | fallbackData seqID status payload =>
    have := hf.2
    simp only [Frame.body, List.length_append, length_be]
    omega
  | hotRestart epoch | hotRestartAck epoch => simp [Frame.body, headerSize]

/-- The header of a frame in the stream. -/
def Frame.header (v : UInt8) (f : Frame) : List UInt8 :=
  Header.encode (headerSize + f.body.length) v f.type

theorem Frame.known (f : Frame) : Known f.type.code := by
  cases f <;> simp [Frame.type, Known]

theorem accepted_of_header (hv : v ≠ 0) (h8 : headerSize ≤ rest.length)
    (hh : rest.take headerSize = f.header v) : Accepted rest := by
  refine ⟨h8, ?_, ?_⟩
  · rw [hh]
    exact checkEventValid_encode _ _ _ hv
  · rw [hh, Frame.header, Header.msgType_of_encode]
    exact f.known

theorem announced_header (hf : f.Sendable) : announced (f.header v) = (f.encode v).length := by
  have hlt := Frame.body_lt hf
  unfold announced Frame.header
  rw [Frame.length_encode, Header.msgType_of_encode, Header.length_of_encode,
    Nat.mod_eq_of_lt hlt]
  cases f with
  | polling => rfl
  | streamClose id => simp [Frame.type, Frame.body, EventType.code]
  | fallbackData seqID status payload => simp [Frame.type, EventType.code]
  | hotRestart epoch => simp [Frame.type, Frame.body, EventType.code, epochIDLen]
  | hotRestartAck epoch => simp [Frame.type, Frame.body, EventType.code, epochIDLen]

theorem not_tooShort_header (hf : f.Sendable) : ¬TooShort (f.header v) := by
  have hlt := Frame.body_lt hf
  rintro ⟨ht, hshort⟩
  unfold Frame.header at ht hshort
  rw [Header.msgType_of_encode] at ht
  rw [Header.length_of_encode, Nat.mod_eq_of_lt hlt] at hshort
  cases f with
  | fallbackData seqID status payload =>
    simp only [Frame.body, List.length_append, length_be] at hshort
    omega
  | polling => exact absurd ht (by decide)
  | streamClose id | hotRestart epoch => exact absurd ht (by simp [Frame.type, EventType.code])
  | hotRestartAck epoch => exact absurd ht (by simp [Frame.type, EventType.code])

/-- **One frame.** What stands in the stream is decoded, with the status cut down. -/
theorem decode_encode (v : UInt8) (hf : f.Sendable) (rest : List UInt8) :
    decode (f.encode v ++ rest) = f.received := by
  have hlt := Frame.body_lt hf
  have h32 : ∀ n : UInt32, UInt32.ofNat (ofBe (be 4 n.toNat)) = n := by
    intro n
    rw [ofBe_be (by have := n.toNat_lt; norm_num; omega), UInt32.ofNat_toNat]
  have h64 : ∀ n : UInt64, UInt64.ofNat (ofBe (be 8 n.toNat)) = n := by
    intro n
    rw [ofBe_be (by have := n.toNat_lt; norm_num; omega), UInt64.ofNat_toNat]
  unfold decode
  simp only []
  rw [Frame.encode_eq, List.append_assoc, List.take_left' (Header.length_encode ..),
    List.drop_left' (Header.length_encode ..), Header.msgType_of_encode, Header.length_of_encode,
    Nat.mod_eq_of_lt hlt, Nat.add_sub_cancel_left]
  cases f with
  | polling => rfl
  | streamClose id =>
    simp only [Frame.type, Frame.body]
    rw [if_neg (by decide), if_pos trivial, List.take_left' (length_be ..), h32]
    rfl
  | fallbackData seqID status payload =>
    rw [List.take_left' rfl]
    simp only [Frame.type, Frame.body, List.append_assoc]
    rw [if_neg (by decide), if_neg (by decide), if_pos trivial, List.take_left' (length_be ..),
      List.drop_left' (length_be ..), List.take_left' (length_be ..), h32, h32,
      ← List.append_assoc, List.drop_left' (by simp)]
    rfl
  | hotRestart epoch =>
    simp only [Frame.type, Frame.body, epochIDLen]
    rw [if_neg (by decide), if_neg (by decide), if_neg (by decide), if_pos trivial,
      List.take_left' (length_be ..), h64]
    rfl
  | hotRestartAck epoch =>
    simp only [Frame.body, epochIDLen]
    rw [List.take_left' (length_be 8 _), h64]
    rfl

end OneFrame

/-! ## The parser on a stream of frames -/

/-- The session only notes which frames it was given. -/
def record : Handle (List Frame) := fun dispatched f => .ok (dispatched ++ [f], none)

/-- The bytes of a sequence of frames. -/
def encodeAll (v : UInt8) (frames : List Frame) : List UInt8 := (frames.map (Frame.encode v)).flatten

section Stream

variable {v : UInt8} {buf : List UInt8}

theorem encodeAll_cons (v : UInt8) (f : Frame) (fs : List Frame) :
    encodeAll v (f :: fs) = f.encode v ++ encodeAll v fs := rfl

theorem encodeAll_append (v : UInt8) (fs fs' : List Frame) :
    encodeAll v (fs ++ fs') = encodeAll v fs ++ encodeAll v fs' := by
  unfold encodeAll
  rw [List.map_append, List.flatten_append]

theorem loop_part (hv : v ≠ 0) {f : Frame} (hf : f.Sendable) {fuel consumed : ℕ}
    {d : List Frame} {tail more : List UInt8} (hc : consumed ≤ buf.length)
    (hrest : buf.drop consumed ++ more = f.encode v ++ tail)
    (hpart : (buf.drop consumed).length < (f.encode v).length) :
    handleEventsFrom record buf (fuel + 1) d consumed = .ok (d, consumed, none) := by
  have hhead : headerSize ≤ (buf.drop consumed).length →
      (buf.drop consumed).take headerSize = f.header v := by
    intro h8
    have htake := congrArg (List.take headerSize) hrest
    rw [List.take_append_of_le_length h8, Frame.encode_eq, List.append_assoc,
      List.take_left' (Header.length_encode ..)] at htake
    exact htake
  obtain ⟨-, hrun⟩ | ⟨href, -⟩ | ⟨-, -, hrun⟩ | ⟨hacc, -, hs, -⟩ | ⟨hacc, hle, -, -⟩ :=
    loop_cases record d fuel hc rfl
  · exact hrun
  · exact absurd (accepted_of_header hv href.1 (hhead href.1)) href.2
  · exact hrun
  · rw [hhead hacc.header] at hs
    exact absurd hs (not_tooShort_header hf)
  · rw [hhead hacc.header, announced_header hf] at hle
    omega

theorem loop_frame (hv : v ≠ 0) {f : Frame} (hf : f.Sendable) {fuel consumed : ℕ} {d : List Frame}
    {rest : List UInt8} (hc : consumed ≤ buf.length)
    (hrest : buf.drop consumed = f.encode v ++ rest) :
    handleEventsFrom record buf (fuel + 1) d consumed =
      handleEventsFrom record buf fuel (d ++ [f.received]) (consumed + (f.encode v).length) := by
  have hlen := Frame.length_encode v f
  have h8 : headerSize ≤ (f.encode v ++ rest).length := by
    rw [List.length_append]
    omega
  have hhead : (f.encode v ++ rest).take headerSize = f.header v := by
    rw [Frame.encode_eq, List.append_assoc, List.take_left' (Header.length_encode ..)]
    rfl
  have hle : announced ((f.encode v ++ rest).take headerSize) ≤ (f.encode v ++ rest).length := by
    rw [hhead, announced_header hf, List.length_append]
    omega
  obtain ⟨hs, -⟩ | ⟨-, hrun⟩ :=
    loop_whole record d fuel hc hrest (accepted_of_header hv h8 hhead) hle
  · rw [hhead] at hs
    exact absurd hs (not_tooShort_header hf)
  · rw [hrun, decode_encode v hf, hhead, announced_header hf]
    rfl

/-- **Run.** Over a part of a stream of frames the parser hands over the whole frames in
    it, in order; over all of the stream, all of them. -/
theorem loop_frames (buf : List UInt8) (hv : v ≠ 0) (frames : List Frame)
    (hf : ∀ f ∈ frames, f.Sendable) :
    ∀ (fuel consumed : ℕ) (d : List Frame) (more : List UInt8), consumed ≤ buf.length →
    buf.length - consumed < fuel → buf.drop consumed ++ more = encodeAll v frames →
    ∃ done todo, frames = done ++ todo ∧ consumed + (encodeAll v done).length ≤ buf.length ∧
      (more = [] → todo = []) ∧
      handleEventsFrom record buf fuel d consumed =
        .ok (d ++ done.map Frame.received, consumed + (encodeAll v done).length, none) := by
  induction frames with
  | nil =>
    intro fuel consumed d more hc hfuel hrest
    obtain ⟨fuel, rfl⟩ := Nat.exists_eq_succ_of_ne_zero (show fuel ≠ 0 by omega)
    refine ⟨[], [], rfl, hc, fun _ => rfl, ?_⟩
    have hnil : buf.drop consumed = [] := (List.append_eq_nil_iff.mp hrest).1
    obtain ⟨-, hrun⟩ | ⟨href, -⟩ | ⟨hacc, -⟩ | ⟨hacc, -⟩ | ⟨hacc, -⟩ :=
      loop_cases record d fuel hc hnil
    · rw [hrun, List.map_nil, List.append_nil]
      rfl
    · exact absurd href.1 (by decide)
    · exact absurd hacc.header (by decide)
    · exact absurd hacc.header (by decide)
    · exact absurd hacc.header (by decide)
  | cons f fs ih =>
    intro fuel consumed d more hc hfuel hrest
    obtain ⟨fuel, rfl⟩ := Nat.exists_eq_succ_of_ne_zero (show fuel ≠ 0 by omega)
    rw [encodeAll_cons] at hrest
    have hfs := hf f List.mem_cons_self
    have hlen := Frame.length_encode v f
    by_cases hpart : (buf.drop consumed).length < (f.encode v).length
    · refine ⟨[], f :: fs, rfl, hc, ?_, ?_⟩
      · rintro rfl
        rw [List.append_nil] at hrest
        rw [hrest, List.length_append] at hpart
        omega
      · rw [loop_part hv hfs hc hrest hpart, List.map_nil, List.append_nil]
        rfl
    · obtain ⟨rest, hsplit⟩ : ∃ rest, buf.drop consumed = f.encode v ++ rest := by
        obtain ⟨rest, hr⟩ := List.prefix_of_prefix_length_le
          (List.prefix_append (f.encode v) (encodeAll v fs)) (hrest ▸ List.prefix_append _ more)
          (by omega)
        exact ⟨rest, hr.symm⟩
      have hdrop : buf.drop (consumed + (f.encode v).length) = rest := by
        rw [← List.drop_drop, hsplit, List.drop_left' rfl]
      have hlens := congrArg List.length hsplit
      rw [List.length_drop, List.length_append] at hlens
      have h8 : headerSize = 8 := rfl
      obtain ⟨done, todo, hfr, hle, hmore, hrun⟩ := ih (fun g hg => hf g (List.mem_cons_of_mem f hg))
        fuel (consumed + (f.encode v).length) (d ++ [f.received]) more (by omega) (by omega) (by
          rw [hdrop]
          rw [hsplit, List.append_assoc] at hrest
          exact List.append_cancel_left hrest)
      refine ⟨f :: done, todo, by rw [hfr]; rfl, ?_, hmore, ?_⟩
      · rw [encodeAll_cons, List.length_append]
        omega
      · rw [loop_frame hv hfs hc hsplit, hrun, encodeAll_cons, List.length_append, List.map_cons,
          List.append_assoc, Nat.add_assoc]
        rfl

end Stream

/-! ## The read buffer -/

/-- `connEventHandler` (event_dispatcher_linux.go:41-52) with its session: whether that is
    closed, and the frames its handlers were given. -/
structure Conn where
  readBuffer : Mem
  readStartOff : ℕ
  readEndOff : ℕ
  closed : Bool
  dispatched : List Frame

/-- `make([]byte, n)`. -/
def makeBytes (n : ℕ) : Mem := ⟨n, fun _ => 0⟩

def onDataThreshold : ℕ := 1024 * 1024

/-- `newConnection` (event_dispatcher_linux.go:292-301). -/
def newConnection : Conn where
  readBuffer := makeBytes (64 * 1024)
  readStartOff := 0
  readEndOff := 0
  closed := false
  dispatched := []

namespace Conn

/-- `c.readBuffer[c.readStartOff:c.readEndOff]`. -/
def unread (c : Conn) : List UInt8 := c.readBuffer.read c.readStartOff (c.readEndOff - c.readStartOff)

/-- `maybeExpandReadBuffer` (event_dispatcher_linux.go:161-169). -/
def maybeExpandReadBuffer (c : Conn) : Conn :=
  if c.readBuffer.len - c.readEndOff = 0 then
    { c with
      readBuffer := (makeBytes (2 * c.readBuffer.len)).write 0 c.unread
      readEndOff := c.readEndOff - c.readStartOff
      readStartOff := 0 }
  else c

/-- `commitRead` (event_dispatcher_linux.go:210-226). -/
def commitRead (c : Conn) (n : ℕ) : Conn :=
  let c := { c with readStartOff := c.readStartOff + n }
  if c.readStartOff = c.readEndOff then
    let minResizedBufferSize := 4 * 1024 * 1024
    let c :=
      if c.readBuffer.len > minResizedBufferSize then
        { c with readBuffer := { c.readBuffer with len := c.readBuffer.len / 2 } }
      else c
    { c with readStartOff := 0, readEndOff := 0 }
  else c

/-- `Session.onEventData` (session.go:491-502) on the unread part. -/
def onEventData (c : Conn) : Go Conn :=
  if c.closed then .ok c
  else if c.readEndOff < c.readStartOff ∨ c.readBuffer.len < c.readEndOff then .error .sliceBounds
  else do
    let (dispatched, consumed, err) ← handleEvents record c.unread c.dispatched
    let c := { c with dispatched := dispatched }.commitRead consumed
    pure { c with closed := err.isSome }

/-- A turn of the loop in `onReadReady` (event_dispatcher_linux.go:172-200) in which the
    kernel gave the bytes `bs`; an empty read is `EAGAIN`. -/
def onReadReady (c : Conn) (bs : List UInt8) : Go Conn :=
  let c := c.maybeExpandReadBuffer
  if c.readBuffer.len ≤ c.readEndOff then .error .indexOutOfRange
  else if bs = [] then c.onEventData
  else
    let c := { c with
      readBuffer := c.readBuffer.write c.readEndOff bs
      readEndOff := c.readEndOff + bs.length }
    if c.readEndOff - c.readStartOff ≥ onDataThreshold then c.onEventData else .ok c

end Conn

/-! ## The stream -/

/-- The connection, and what the peer sent and was not read yet. -/
structure World where
  conn : Conn
  socket : List UInt8

/-- The kernel gives `n` bytes, or says that there are none. -/
inductive Act
  | read (n : ℕ)
  | drained

/-- The kernel gives at least one byte and at most what is free in the buffer. -/
def World.Enabled (w : World) : Act → Prop
  | .read n => 1 ≤ n ∧ n ≤ w.socket.length ∧
      n ≤ w.conn.maybeExpandReadBuffer.readBuffer.len - w.conn.maybeExpandReadBuffer.readEndOff
  | .drained => True

instance (w : World) (a : Act) : Decidable (w.Enabled a) := by
  cases a <;> unfold World.Enabled <;> infer_instance

def World.act (w : World) : Act → Go World
  | .read n => do
    let conn ← w.conn.onReadReady (w.socket.take n)
    pure { conn := conn, socket := w.socket.drop n }
  | .drained => do
    let conn ← w.conn.onReadReady []
    pure { w with conn := conn }

/-- A new connection on which the peer sends `frames`. -/
def wire (v : UInt8) (frames : List Frame) : Sys World Act where
  init w := w = ⟨newConnection, encodeAll v frames⟩
  next w a := if w.Enabled a then (w.act a).toOption else none

section Buffer

variable {v : UInt8} {frames : List Frame} {c : Conn} {bs more : List UInt8}

/-- Between two turns: the offsets are in range, and what is unread and what `more` will
    come are the frames not dispatched yet. -/
structure ReadInv (v : UInt8) (frames : List Frame) (c : Conn) (more : List UInt8) : Prop where
  start_le : c.readStartOff ≤ c.readEndOff
  end_le : c.readEndOff ≤ c.readBuffer.len
  pos : 0 < c.readBuffer.len
  opened : c.closed = false
  split : ∃ done todo, frames = done ++ todo ∧ c.dispatched = done.map Frame.received ∧
    c.unread ++ more = encodeAll v todo

theorem ReadInv.expand (h : ReadInv v frames c more) :
    ReadInv v frames c.maybeExpandReadBuffer more ∧
      c.maybeExpandReadBuffer.readEndOff < c.maybeExpandReadBuffer.readBuffer.len := by
  have hs := h.start_le
  have he := h.end_le
  have hp := h.pos
  unfold Conn.maybeExpandReadBuffer
  split
  · have hlen : c.unread.length = c.readEndOff - c.readStartOff := Mem.length_read
    refine ⟨⟨Nat.zero_le _, ?_, ?_, h.opened, ?_⟩, ?_⟩
    · show c.readEndOff - c.readStartOff ≤ 2 * c.readBuffer.len
      omega
    · show 0 < 2 * c.readBuffer.len
      omega
    · obtain ⟨done, todo, hf, hd, hu⟩ := h.split
      refine ⟨done, todo, hf, hd, ?_⟩
      rw [← hu]
      congr 1
      show ((makeBytes _).write 0 c.unread).read 0 (c.readEndOff - c.readStartOff - 0) = c.unread
      rw [Nat.sub_zero, ← hlen, Mem.read_write]
    · show c.readEndOff - c.readStartOff < 2 * c.readBuffer.len
      omega
  · exact ⟨h, by omega⟩

/-- The bytes the kernel gave stand behind the unread ones. -/
theorem ReadInv.receive (h : ReadInv v frames c (bs ++ more))
    (hfree : bs.length ≤ c.readBuffer.len - c.readEndOff) :
    ReadInv v frames { c with
      readBuffer := c.readBuffer.write c.readEndOff bs
      readEndOff := c.readEndOff + bs.length } more := by
  have hs := h.start_le
  have he := h.end_le
  refine ⟨?_, ?_, h.pos, h.opened, ?_⟩
  · show c.readStartOff ≤ c.readEndOff + bs.length
    omega
  · show c.readEndOff + bs.length ≤ c.readBuffer.len
    omega
  · obtain ⟨done, todo, hf, hd, hu⟩ := h.split
    refine ⟨done, todo, hf, hd, ?_⟩
    rw [← hu, ← List.append_assoc]
    congr 1
    show (c.readBuffer.write c.readEndOff bs).read c.readStartOff
      (c.readEndOff + bs.length - c.readStartOff) = c.unread ++ bs
    rw [show c.readEndOff + bs.length - c.readStartOff =
      (c.readEndOff - c.readStartOff) + bs.length by omega, Mem.read_append,
      show c.readStartOff + (c.readEndOff - c.readStartOff) = c.readEndOff by omega,
      Mem.read_write, Mem.read_congr (Mem.write_sameOn (by omega))]
    rfl

/-- `commitRead` takes the first `n` unread bytes off. -/
theorem commitRead_spec (hs : c.readStartOff + n ≤ c.readEndOff) (he : c.readEndOff ≤ c.readBuffer.len)
    (hp : 0 < c.readBuffer.len) :
    (c.commitRead n).readStartOff ≤ (c.commitRead n).readEndOff ∧
      (c.commitRead n).readEndOff ≤ (c.commitRead n).readBuffer.len ∧
      0 < (c.commitRead n).readBuffer.len ∧ (c.commitRead n).dispatched = c.dispatched ∧
      (c.commitRead n).unread = c.unread.drop n := by
  have hdrop : c.readBuffer.read (c.readStartOff + n) (c.readEndOff - (c.readStartOff + n)) =
      c.unread.drop n := by
    unfold Conn.unread
    rw [show c.readEndOff - c.readStartOff = n + (c.readEndOff - (c.readStartOff + n)) by omega,
      Mem.read_append, List.drop_left' Mem.length_read]
  unfold Conn.commitRead
  simp only []
  by_cases heq : c.readStartOff + n = c.readEndOff
  · have hnil : c.unread.drop n = [] := by
      rw [← hdrop, heq, Nat.sub_self]
      rfl
    rw [if_pos heq, hnil]
    split
    · exact ⟨le_rfl, Nat.zero_le _, by show 0 < c.readBuffer.len / 2; omega, rfl, rfl⟩
    · exact ⟨le_rfl, Nat.zero_le _, hp, rfl, rfl⟩
  · rw [if_neg heq]
    exact ⟨hs, he, hp, rfl, hdrop⟩

/-- `onEventData` dispatches whole frames; with nothing more to come, all of them. -/
theorem ReadInv.onEventData (hv : v ≠ 0) (hf : ∀ f ∈ frames, f.Sendable)
    (h : ReadInv v frames c more) :
    ∃ c', c.onEventData = .ok c' ∧ ReadInv v frames c' more ∧
      (more = [] → c'.dispatched = frames.map Frame.received ∧ c'.readStartOff = c'.readEndOff) := by
  have hs := h.start_le
  have he := h.end_le
  obtain ⟨done, todo, rfl, hd, hu⟩ := h.split
  have hlen : c.unread.length = c.readEndOff - c.readStartOff := Mem.length_read
  obtain ⟨now, later, rfl, hle, hmore, hrun⟩ := loop_frames c.unread hv todo
    (fun f hm => hf f (List.mem_append_right _ hm)) (c.unread.length + 1) 0 c.dispatched more
    (Nat.zero_le _) (by omega) hu
  rw [Nat.zero_add] at hle hrun
  have hrun' : handleEvents record c.unread c.dispatched =
      .ok (c.dispatched ++ now.map Frame.received, (encodeAll v now).length, none) := hrun
  have hdisp : c.dispatched ++ now.map Frame.received = (done ++ now).map Frame.received := by
    rw [hd, List.map_append]
  have hrest : c.unread.drop (encodeAll v now).length ++ more = encodeAll v later := by
    have hsplit := congrArg (List.drop (encodeAll v now).length) hu
    rw [encodeAll_append, List.drop_left' rfl, List.drop_append_of_le_length hle] at hsplit
    exact hsplit
  obtain ⟨h1, h2, h3, h4, h6⟩ := commitRead_spec
    (c := { c with dispatched := c.dispatched ++ now.map Frame.received })
    (n := (encodeAll v now).length)
    (by show c.readStartOff + (encodeAll v now).length ≤ c.readEndOff; omega) he h.pos
  generalize hc : Conn.commitRead _ _ = c1 at h1 h2 h3 h4 h6
  refine ⟨{ c1 with closed := false }, ?_,
    ⟨h1, h2, h3, rfl, done ++ now, later, by rw [List.append_assoc], h4.trans hdisp, ?_⟩, ?_⟩
  · unfold Conn.onEventData
    rw [if_neg (by rw [h.opened]; decide), if_neg (by omega), hrun']
    show Except.ok { Conn.commitRead _ _ with closed := false } = _
    rw [hc]
  · rw [← hrest]
    exact congrArg (· ++ more) h6
  · rintro rfl
    obtain rfl := hmore rfl
    refine ⟨h4.trans (by rw [hdisp, List.append_nil]), le_antisymm h1 ?_⟩
    have hnil : c1.unread.length = 0 := by
      rw [h6]
      rw [List.append_nil] at hrest
      exact congrArg List.length hrest
    unfold Conn.unread at hnil
    rw [Mem.length_read] at hnil
    exact Nat.sub_eq_zero_iff_le.mp hnil

/-- **Step.** A turn of the loop. -/
theorem ReadInv.onReadReady (bs : List UInt8) (hv : v ≠ 0) (hf : ∀ f ∈ frames, f.Sendable)
    (h : ReadInv v frames c (bs ++ more))
    (hfree : bs.length ≤ c.maybeExpandReadBuffer.readBuffer.len - c.maybeExpandReadBuffer.readEndOff) :
    ∃ c', c.onReadReady bs = .ok c' ∧ ReadInv v frames c' more ∧
      (bs = [] → more = [] →
        c'.dispatched = frames.map Frame.received ∧ c'.readStartOff = c'.readEndOff) := by
  obtain ⟨hx, hlt⟩ := h.expand
  unfold Conn.onReadReady
  simp only []
  rw [if_neg (by omega)]
  by_cases hbs : bs = []
  · subst hbs
    rw [if_pos rfl]
    obtain ⟨c', hrun, hinv, hall⟩ := ReadInv.onEventData hv hf hx
    exact ⟨c', hrun, hinv, fun _ => hall⟩
  rw [if_neg hbs]
  have hr := hx.receive hfree
  split
  · obtain ⟨c', hrun, hinv, -⟩ := ReadInv.onEventData hv hf hr
    exact ⟨c', hrun, hinv, fun he => absurd he hbs⟩
  · exact ⟨_, rfl, hr, fun he => absurd he hbs⟩

/-- **Step** of the stream. -/
theorem inv_act {w : World} {a : Act} (hv : v ≠ 0) (hf : ∀ f ∈ frames, f.Sendable)
    (h : ReadInv v frames w.conn w.socket) (ha : w.Enabled a) :
    ∃ w', w.act a = .ok w' ∧ ReadInv v frames w'.conn w'.socket ∧
      (a = .drained → w.socket = [] → w'.conn.dispatched = frames.map Frame.received ∧
        w'.conn.readStartOff = w'.conn.readEndOff) := by
  cases a with
  | read n =>
    obtain ⟨-, hn, hfree⟩ := ha
    have hlen : (w.socket.take n).length = n := by
      rw [List.length_take]
      omega
    obtain ⟨c', hrun, hinv, -⟩ := ReadInv.onReadReady (w.socket.take n) hv hf
      (by rwa [List.take_append_drop n w.socket]) (by omega)
    refine ⟨⟨c', w.socket.drop n⟩, ?_, hinv, fun he => nomatch he⟩
    simp only [World.act, hrun, bind, Except.bind, pure, Except.pure]
  | drained =>
    obtain ⟨c', hrun, hinv, hall⟩ := ReadInv.onReadReady [] hv hf h (Nat.zero_le _)
    refine ⟨⟨c', w.socket⟩, ?_, hinv, fun _ hs => hall rfl hs⟩
    simp only [World.act, hrun, bind, Except.bind, pure, Except.pure]

/-- **Run.** -/
theorem inv_reachable {w : World} (hv : v ≠ 0) (hf : ∀ f ∈ frames, f.Sendable)
    (hr : (wire v frames).Reachable w) : ReadInv v frames w.conn w.socket := by
  apply hr.invariant (fun w => ReadInv v frames w.conn w.socket)
  · rintro w rfl
    exact ⟨le_rfl, Nat.zero_le _, Nat.succ_pos _, rfl, [], frames, rfl, rfl, rfl⟩
  · intro w a w' h _ hn
    simp only [wire] at hn
    split at hn
    · rename_i ha
      obtain ⟨w'', hrun, hinv, -⟩ := inv_act hv hf h ha
      rw [hrun] at hn
      cases hn
      exact hinv
    · cases hn

/-- **Main theorem.** However the kernel splits the stream of `frames`: before each read
    the buffer has free space, no turn of the loop panics, what was dispatched is a first
    part of the frames as they are received, and the drain after the last byte leaves all
    of them dispatched and no byte unconsumed. -/
theorem frames_dispatched (v : UInt8) (hv : v = 2 ∨ v = 3) (frames : List Frame)
    (hf : ∀ f ∈ frames, f.Sendable) (w : World) (hr : (wire v frames).Reachable w) :
    w.conn.maybeExpandReadBuffer.readEndOff < w.conn.maybeExpandReadBuffer.readBuffer.len ∧
      (∀ a, w.Enabled a → ∃ w', w.act a = .ok w') ∧
      w.conn.dispatched <+: frames.map Frame.received ∧
      (w.socket = [] → ∀ w', w.act .drained = .ok w' →
        w'.conn.dispatched = frames.map Frame.received ∧
        w'.conn.readStartOff = w'.conn.readEndOff) := by
  have hv0 : v ≠ 0 := by
    rcases hv with rfl | rfl <;> decide
  have hinv := inv_reachable hv0 hf hr
  refine ⟨hinv.expand.2, ?_, ?_, ?_⟩
  · intro a ha
    obtain ⟨w', hrun, -⟩ := inv_act hv0 hf hinv ha
    exact ⟨w', hrun⟩
  · obtain ⟨done, todo, rfl, hd, -⟩ := hinv.split
    rw [hd, List.map_append]
    exact List.prefix_append _ _
  · intro hs w' hw
    obtain ⟨w'', hrun, -, hall⟩ := inv_act hv0 hf hinv (a := .drained) trivial
    rw [hrun] at hw
    cases hw
    exact hall rfl hs

end Buffer

/-- A payload and a polling event, cut inside the first header and inside the payload. -/
def twoFrames : List Frame := [.fallbackData 7 0 [1, 2, 3], .polling]

/-- The two frames arrive whole after three reads, the second of them drained. -/
theorem frames_dispatched_two_frames :
    ∃ w, (wire 2 twoFrames).Reachable w ∧ w.socket = [] ∧
      w.conn.dispatched <+: twoFrames.map Frame.received ∧
      ∀ w', w.act .drained = .ok w' → w'.conn.dispatched = twoFrames := by
  obtain ⟨w, hr, hs⟩ := (wire 2 twoFrames).exists_reachable_of_run
    ⟨newConnection, encodeAll 2 twoFrames⟩ [.read 3, .read 14, .drained, .read 10]
    (fun w => w.socket = []) rfl (by decide +kernel)
  obtain ⟨-, -, hpre, hall⟩ := frames_dispatched 2 (.inl rfl) twoFrames (by decide) w hr
  exact ⟨w, hr, hs, hpre, fun w' hw => (hall hs w' hw).1⟩

/-- A status of 256 arrives as 0. -/
theorem status_cut_to_byte :
    ∃ w, (wire 2 [.fallbackData 7 256 [1]]).Reachable w ∧ w.socket = [] ∧
      w.conn.readStartOff = w.conn.readEndOff ∧ w.conn.dispatched = [.fallbackData 7 0 [1]] :=
  (wire 2 [.fallbackData 7 256 [1]]).exists_reachable_of_run
    ⟨newConnection, encodeAll 2 [.fallbackData 7 256 [1]]⟩ [.read 17, .drained] _ rfl
    (by decide +kernel)

end Shmipc.Protocol
