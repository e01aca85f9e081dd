import Shmipc.Protocol.Event
import Shmipc.Common.Mem

/-!
# Shared memory metadata in the handshake

The client announces its two mappings by path: `generateShmMetadata`
(session.go:354-368) writes each path behind a 16-bit length, and the server takes
them apart with `extractShmMetadata` (session.go:677-688). The server reads
`hdr.Length() - headerSize` bytes, an unsigned subtraction, and slices what it got by
the two inner lengths, without a check on any of them.

* `extractShmMetadata_generate`: paths of at most 65535 bytes come back as they were.
* `extractShmMetadata_ok_iff`: the bodies that can be taken apart.
* Main result: `shmMetadata_decoding`.
-/

namespace Shmipc.Protocol

open Common
open Buffer (Go Panic Panics)

/-- A path behind its length. -/
def lengthPrefixed (path : List UInt8) : List UInt8 := be 2 path.length ++ path

/-- `Session.generateShmMetadata` (session.go:354-368). -/
def generateShmMetadata (queuePath bufferPath : List UInt8) (communicationVersion : UInt8)
    (eventType : EventType) : List UInt8 :=
  let body := lengthPrefixed queuePath ++ lengthPrefixed bufferPath
  Header.encode (headerSize + body.length) communicationVersion eventType ++ body

/-- `Session.extractShmMetadata` (session.go:677-688): buffer path and queue path. -/
def extractShmMetadata (body : List UInt8) : Go (List UInt8 × List UInt8) := do
  let queuePathLen ← slice body 0 2
  let offset := 2
  let queuePath ← slice body offset (offset + ofBe queuePathLen)
  let offset := offset + ofBe queuePathLen
  let bufferPathLen ← slice body offset (offset + 2)
  let offset := offset + 2
  let bufferPath ← slice body offset (offset + ofBe bufferPathLen)
  pure (bufferPath, queuePath)

/-- `hdr.Length()-headerSize`, in `uint32`. -/
def metadataLen (hdr : List UInt8) : ℕ := u32 (Header.length hdr + 2 ^ 32 - headerSize)

/-- How `handleShareMemoryByFilePath` (protocol_manager.go:122-133) and
    `handleShareMemoryByMemFd` (protocol_manager.go:187-196) begin: read the body from
    the connection and take it apart. `none` is the error of `blockReadFull` when the
    connection ends. -/
def recvShmMetadata (hdr input : List UInt8) : Go (Option (List UInt8 × List UInt8)) :=
  if input.length < metadataLen hdr then .ok none
  else (extractShmMetadata (input.take (metadataLen hdr))).map some

/-- The header leaves room for itself, and the body is two length-prefixed paths, maybe
    with something behind them. -/
structure WellFormed (hdr body : List UInt8) : Prop where
  header : headerSize ≤ Header.length hdr
  paths : ∃ queuePath bufferPath rest, queuePath.length < 2 ^ 16 ∧ bufferPath.length < 2 ^ 16 ∧
    body = lengthPrefixed queuePath ++ (lengthPrefixed bufferPath ++ rest)

section Metadata

variable {body rest path : List UInt8}

/-- Reading a path behind `off` bytes. -/
theorem slice_lengthPrefixed (front rest : List UInt8) (hp : path.length < 2 ^ 16) :
    slice (front ++ (lengthPrefixed path ++ rest)) front.length (front.length + 2) =
        .ok (be 2 path.length) ∧
      ofBe (be 2 path.length) = path.length ∧
      slice (front ++ (lengthPrefixed path ++ rest)) (front.length + 2)
        (front.length + 2 + path.length) = .ok path := by
  have htake : ∀ k, (front ++ (be 2 path.length ++ (path ++ rest))).take (front.length + k) =
      front ++ (be 2 path.length ++ (path ++ rest)).take k := by
    intro k
    rw [List.take_append, List.take_of_length_le (by omega), Nat.add_sub_cancel_left]
  unfold slice lengthPrefixed
  rw [List.append_assoc]
  refine ⟨?_, ofBe_be (by simpa using hp), ?_⟩
  · rw [if_pos (by simp), htake, List.drop_left' rfl, List.take_left' (length_be 2 _)]
  · rw [if_pos (by simp; omega), Nat.add_assoc, htake, ← List.drop_drop, List.drop_left' rfl,
      List.take_append, List.take_of_length_le (by simp), length_be, Nat.add_sub_cancel_left,
      List.take_left' rfl, List.drop_left' (length_be 2 _)]

/-- **Round trip**, also with something behind the paths. -/
theorem extractShmMetadata_generate {queuePath bufferPath : List UInt8} (rest : List UInt8)
    (hq : queuePath.length < 2 ^ 16) (hb : bufferPath.length < 2 ^ 16) :
    extractShmMetadata (lengthPrefixed queuePath ++ (lengthPrefixed bufferPath ++ rest)) =
      .ok (bufferPath, queuePath) := by
  obtain ⟨hl0, hn0, hp0⟩ :=
    slice_lengthPrefixed [] (lengthPrefixed bufferPath ++ rest) hq
  obtain ⟨hl1, hn1, hp1⟩ := slice_lengthPrefixed (lengthPrefixed queuePath) rest hb
  have hlen : (lengthPrefixed queuePath).length = 2 + queuePath.length := by
    simp [lengthPrefixed]
  simp only [List.nil_append, List.length_nil, Nat.zero_add] at hl0 hp0
  rw [hlen] at hl1 hp1
  unfold extractShmMetadata
  simp only [bind, Except.bind, hl0, hn0, hp0, hl1, hn1, hp1, pure, Except.pure]

theorem slice_ok {lo hi : ℕ} {bs r : List UInt8} (h : slice bs lo hi = .ok r) :
    lo ≤ hi ∧ hi ≤ bs.length ∧ r = (bs.take hi).drop lo := by
  unfold slice at h
  split at h
  · rename_i hle
    cases h
    exact ⟨hle.1, hle.2, rfl⟩
  · cases h

/-- A path that was sliced off stands behind its length. -/
theorem eq_lengthPrefixed (off : ℕ) {len : List UInt8} (hl : slice body off (off + 2) = .ok len)
    (hp : slice body (off + 2) (off + 2 + ofBe len) = .ok path) :
    path.length < 2 ^ 16 ∧
      body.drop off = lengthPrefixed path ++ body.drop (off + 2 + path.length) := by
  obtain ⟨-, h2, rfl⟩ := slice_ok hl
  obtain ⟨-, h3, rfl⟩ := slice_ok hp
  have hd : (body.take (off + 2)).drop off = (body.drop off).take 2 := by
    rw [List.drop_take, Nat.add_sub_cancel_left]
  rw [hd] at h3 ⊢
  have hlen2 : ((body.drop off).take 2).length = 2 := by
    rw [List.length_take, List.length_drop]
    omega
  have hlt := ofBe_lt ((body.drop off).take 2)
  rw [hlen2] at hlt
  generalize hn : ofBe ((body.drop off).take 2) = n at h3 hlt ⊢
  have hpath : (body.take (off + 2 + n)).drop (off + 2) = (body.drop (off + 2)).take n := by
    rw [List.drop_take, Nat.add_sub_cancel_left]
  have hplen : ((body.drop (off + 2)).take n).length = n := by
    rw [List.length_take, List.length_drop]
    omega
  have hbe : be 2 n = (body.drop off).take 2 := by
    obtain ⟨a, b, hab⟩ : ∃ a b, (body.drop off).take 2 = [a, b] := List.length_eq_two.mp hlen2
    rw [hab] at hn ⊢
    have ha := a.toNat_lt
    have hb := b.toNat_lt
    simp only [ofBe, List.length_cons, List.length_nil] at hn
    simp only [be, List.cons.injEq, and_true]
    constructor
    · apply UInt8.toNat_inj.mp
      rw [UInt8.toNat_ofNat']
      omega
    · apply UInt8.toNat_inj.mp
      rw [UInt8.toNat_ofNat']
      omega
  rw [hpath, hplen]
  refine ⟨by omega, ?_⟩
  unfold lengthPrefixed
  rw [hplen, hbe, List.append_assoc, Nat.add_assoc, ← List.drop_drop, ← List.drop_drop]
  generalize body.drop off = tail
  rw [← List.drop_drop, List.take_append_drop, List.take_append_drop]

/-- **The bodies that can be taken apart.** -/
theorem extractShmMetadata_ok_iff (body : List UInt8) :
    (∃ r, extractShmMetadata body = .ok r) ↔
      ∃ queuePath bufferPath rest, queuePath.length < 2 ^ 16 ∧ bufferPath.length < 2 ^ 16 ∧
        body = lengthPrefixed queuePath ++ (lengthPrefixed bufferPath ++ rest) := by
  constructor
  · rintro ⟨r, hr⟩
    unfold extractShmMetadata at hr
    obtain ⟨ql, hql, hr⟩ := Buffer.Go.bind_ok.mp hr
    obtain ⟨qp, hqp, hr⟩ := Buffer.Go.bind_ok.mp hr
    obtain ⟨bl, hbl, hr⟩ := Buffer.Go.bind_ok.mp hr
    obtain ⟨bp, hbp, -⟩ := Buffer.Go.bind_ok.mp hr
    have hqlen : qp.length = ofBe ql := by
      obtain ⟨-, hle, rfl⟩ := slice_ok hqp
      rw [List.length_drop, List.length_take]
      omega
    obtain ⟨hq, hbody⟩ := eq_lengthPrefixed 0 hql (by simpa using hqp)
    obtain ⟨hb, htail⟩ := eq_lengthPrefixed _ hbl hbp
    refine ⟨qp, bp, body.drop (2 + ofBe ql + 2 + bp.length), hq, hb, ?_⟩
    rw [← htail]
    rw [List.drop_zero] at hbody
    rw [← hqlen]
    simpa using hbody
  · rintro ⟨qp, bp, rest, hq, hb, rfl⟩
    exact ⟨_, extractShmMetadata_generate rest hq hb⟩

/-- **Main theorem.** Paths of at most 65535 bytes come back as they were sent, in a
    message as long as its header says. For any header, whether it passes
    `checkEventValid` or not, and any body of the length it announces, decoding neither
    underflows nor slices out of range exactly if the message is well formed. -/
theorem shmMetadata_decoding (queuePath bufferPath : List UInt8) (v : UInt8) (t : EventType)
    (hq : queuePath.length ≤ 65535) (hb : bufferPath.length ≤ 65535) (hdr body : List UInt8)
    (hbody : body.length = metadataLen hdr) :
    (Header.length ((generateShmMetadata queuePath bufferPath v t).take headerSize) =
        (generateShmMetadata queuePath bufferPath v t).length ∧
      extractShmMetadata ((generateShmMetadata queuePath bufferPath v t).drop headerSize) =
        .ok (bufferPath, queuePath)) ∧
    ((headerSize ≤ Header.length hdr ∧ ∃ r, recvShmMetadata hdr body = .ok r) ↔
      WellFormed hdr body) := by
  refine ⟨⟨?_, ?_⟩, ?_⟩
  · unfold generateShmMetadata
    simp only []
    rw [List.take_left' (Header.length_encode ..), Header.length_of_encode]
    simp only [lengthPrefixed, List.length_append, Header.length_encode, length_be, headerSize]
    omega
  · unfold generateShmMetadata
    simp only []
    rw [List.drop_left' (Header.length_encode ..)]
    have := extractShmMetadata_generate [] (show queuePath.length < 2 ^ 16 by omega)
      (show bufferPath.length < 2 ^ 16 by omega)
    rwa [List.append_nil] at this
  · have hrecv : recvShmMetadata hdr body = (extractShmMetadata body).map some := by
      unfold recvShmMetadata
      rw [if_neg (by omega), List.take_of_length_le (by omega)]
    have hok : (∃ r, recvShmMetadata hdr body = .ok r) ↔ ∃ r, extractShmMetadata body = .ok r := by
      rw [hrecv]
      cases extractShmMetadata body with
      | error p => exact ⟨by rintro ⟨_, ⟨⟩⟩, by rintro ⟨_, ⟨⟩⟩⟩
      | ok r => exact ⟨fun _ => ⟨r, rfl⟩, fun _ => ⟨some r, rfl⟩⟩
    rw [hok, extractShmMetadata_ok_iff]
    exact ⟨fun h => ⟨h.1, h.2⟩, fun h => ⟨h.header, h.paths⟩⟩

end Metadata

/-- The header and body of the metadata for the paths `q` and `b`. -/
theorem shmMetadata_decoding_sample :
    checkEventValid [0, 0, 0, 14, 0x77, 0x58, 2, 0] = none ∧
      WellFormed [0, 0, 0, 14, 0x77, 0x58, 2, 0] [0, 1, 113, 0, 1, 98] := by
  refine ⟨by decide +kernel, ?_⟩
  refine (shmMetadata_decoding [113] [98] 2 .shareMemoryByFilePath (by decide) (by decide)
    [0, 0, 0, 14, 0x77, 0x58, 2, 0] [0, 1, 113, 0, 1, 98] (by decide +kernel)).2.mp ?_
  exact ⟨by decide +kernel, some ([98], [113]), by decide +kernel⟩

/-- A header that announces nothing but itself passes the check; its empty body is sliced
    out of range. A length field of 0 underflows to a body of 4 GiB. -/
theorem shmMetadata_panics :
    checkEventValid [0, 0, 0, 8, 0x77, 0x58, 2, 0] = none ∧
      metadataLen [0, 0, 0, 8, 0x77, 0x58, 2, 0] = 0 ∧
      Panics (recvShmMetadata [0, 0, 0, 8, 0x77, 0x58, 2, 0] []) .sliceBounds ∧
      checkEventValid [0, 0, 0, 0, 0x77, 0x58, 2, 0] = none ∧
      metadataLen [0, 0, 0, 0, 0x77, 0x58, 2, 0] = 4294967288 := by
  decide +kernel

end Shmipc.Protocol
