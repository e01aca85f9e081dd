import Shmipc.Common.Trans
import Shmipc.Buffer.Create
import Shmipc.Buffer.Moves
import Shmipc.Buffer.Reader
import Shmipc.Buffer.Receive

/-!
# A receive buffer is a flat list of bytes

The state of a receive buffer along any mix of messages that come in, reader calls,
releases, and changes that others make to the shared memory.

Results:
* `call_spec`: each reader does to the buffer what `Call.flat` does to a list.
* `readers_flat`: in every state that is reached, `Len` is the number of unread
  bytes, and any sequence of calls gives the results it gives on the flat list.
-/

namespace Shmipc.Buffer

open Common LinkedBuffer

/-! ## Calls -/

inductive Call
  | readBytes (size : ℤ)
  | readString (size : ℤ)
  | discard (size : ℤ)
  | peek (size : ℤ)
  | readByte
  /-- `read` into a slice of `size` bytes. -/
  | read (size : ℕ)
  deriving DecidableEq

inductive Reply
  | bytes (bs : List UInt8)
  | byte (b : UInt8)
  | count (n : ℤ)
  deriving DecidableEq

namespace Call

/-- The call on a buffer that has enough data. -/
def run (bm : Manager) (m : Mem) (l : LinkedBuffer) : Call → Go (Mem × LinkedBuffer × Reply)
  | readBytes size => do
    let (m, l, r) ← l.readBytes bm m size
    return (m, l, .bytes r.bytes)
  | readString size => do
    let (m, l, bs) ← l.readString bm m size
    return (m, l, .bytes bs)
  | discard size => do
    let (m, l, n) ← l.discard bm m size
    return (m, l, .count n)
  | peek size => do
    let (l, r) ← l.peek m size
    return (m, l, .bytes r.bytes)
  | readByte => do
    let (m, l, b) ← l.readByte bm m
    return (m, l, .byte b)
  | read size => do
    let (m, l, bs) ← l.read bm m size
    return (m, l, .bytes bs)

/-- The call goes on to the data: `readMore` was not needed, or it returned `nil`. -/
def Ready (len : ℤ) : Call → Prop
  | readBytes size | readString size | peek size => size ≤ 0 ∨ size ≤ len
  | discard size => size ≤ len
  | readByte => 1 ≤ len
  | read size => size = 0 ∨ 1 ≤ len

instance (len : ℤ) (c : Call) : Decidable (c.Ready len) := by
  cases c <;> unfold Ready <;> infer_instance

/-- The sizes that the call takes when `u` is to be read. -/
def Ok (u : List UInt8) : Call → Prop
  | readBytes size | readString size | discard size | peek size => 1 ≤ size ∧ size ≤ u.length
  | readByte => 1 ≤ u.length
  | read size => 1 ≤ size

instance (u : List UInt8) (c : Call) : Decidable (c.Ok u) := by
  cases c <;> unfold Ok <;> infer_instance

/-- The call on a list of bytes: the reply, and the bytes it leaves. -/
def flat (u : List UInt8) : Call → Reply × List UInt8
  | readBytes size | readString size => (.bytes (u.take size.toNat), u.drop size.toNat)
  | discard size => (.count size, u.drop size.toNat)
  | peek size => (.bytes (u.take size.toNat), u)
  | readByte => (.byte (u.headD 0), u.tail)
  | read size => (.bytes (u.take (min size u.length)), u.drop (min size u.length))

end Call

/-- Calls one after the other. -/
def runCalls (bm : Manager) : List Call → Mem → LinkedBuffer → Go (Mem × LinkedBuffer × List Reply)
  | [], m, l => .ok (m, l, [])
  | c :: calls, m, l => do
    let (m, l, r) ← c.run bm m l
    let (m, l, rs) ← runCalls bm calls m l
    return (m, l, r :: rs)

def flatCalls : List Call → List UInt8 → List Reply × List UInt8
  | [], u => ([], u)
  | c :: calls, u => ((c.flat u).1 :: (flatCalls calls (c.flat u).2).1,
      (flatCalls calls (c.flat u).2).2)

def CallsOk : List Call → List UInt8 → Prop
  | [], _ => True
  | c :: calls, u => c.Ok u ∧ CallsOk calls (c.flat u).2

/-! ## The buffer's invariant -/

/-- A receive buffer between calls. Only its front slice may be exhausted. -/
structure RecvOk (cs : List SizeClass) (m : Mem) (l : LinkedBuffer) (others free : List ℕ) : Prop
    extends Readable cs m l others free where
  len : l.len = (l.unread m).length
  tail : ∀ s ∈ l.slices.tail, 0 < s.size
  shm : l.isFromShm = true → ∀ s ∈ l.slices, ShmSlice cs s

section Calls

variable {cs : List SizeClass} {bm : Manager} {m m' : Mem} {l l' : LinkedBuffer}
  {others free free' : List ℕ} {n : ℕ} {d : ℤ}

theorem call_called {c : Call} {r : Reply} (h : c.run bm m l = .ok (m', l', r)) :
    Called bm m l m' l' := by
  cases c <;> obtain ⟨_, hrun, h⟩ := Go.bind_ok.mp h <;> cases h
  case readBytes => exact readBytes_called hrun
  case readString => exact readString_called hrun
  case discard => exact discard_called hrun
  case peek => exact peek_called hrun
  case readByte => exact readByte_called hrun
  case read => exact read_called hrun

theorem RecvOk.left (hM : ManagerOk cs bm) (h : RecvOk cs m l others free)
    (hleft : Left cs others n d m l m' l' free') (hmv : ReadMoves bm (m, l) (m', l'))
    (hd : d = (min n (l.unread m).length : ℕ)) : RecvOk cs m' l' others free' := by
  obtain ⟨free'', hmoved⟩ := hmv.moved hM h.toOwns
  have hlen := hleft.length
  refine ⟨hleft.readable, ?_, fun s hs => h.tail s (hleft.tail.subset hs), fun hf s hs => ?_⟩
  · rw [hleft.len, h.len, hd]
    omega
  · have hmem := hmoved.headers.subset (List.mem_map_of_mem hs)
    obtain ⟨t, ht, he⟩ := List.mem_map.mp hmem
    have hshm := h.shm (hmoved.isFromShm ▸ hf) t ht
    exact (hleft.readable.slices s hs).shm_of_header (he ▸ hshm.header)

/-- **Main theorem for one call.** -/
theorem call_spec (hM : ManagerOk cs bm) (h : RecvOk cs m l others free) {c : Call}
    (hc : c.Ok (l.unread m)) :
    ∃ m' l' free', c.run bm m l = .ok (m', l', (c.flat (l.unread m)).1) ∧
      l'.unread m' = (c.flat (l.unread m)).2 ∧ RecvOk cs m' l' others free' := by
  cases c with
  | readBytes size =>
    obtain ⟨m', l', free', slot, hrun, hleft⟩ := readBytes_spec hM h.toReadable hc.1 hc.2
    refine ⟨m', l', free', ?_, hleft.unread, h.left hM hleft (readBytes_called hrun).moves ?_⟩
    · rw [Call.run, hrun]; rfl
    · have := hc.1; have := hc.2; omega
  | readString size =>
    obtain ⟨m', l', free', hrun, hleft⟩ := readString_spec hM h.toReadable hc.1 hc.2
    refine ⟨m', l', free', ?_, hleft.unread, h.left hM hleft (readString_called hrun).moves ?_⟩
    · rw [Call.run, hrun]; rfl
    · have := hc.1; have := hc.2; omega
  | discard size =>
    obtain ⟨m', l', free', hrun, hleft⟩ := discard_spec hM h.toReadable hc.1 hc.2
    refine ⟨m', l', free', ?_, hleft.unread, h.left hM hleft (discard_called hrun).moves ?_⟩
    · rw [Call.run, hrun]; rfl
    · have := hc.1; have := hc.2; omega
  | peek size =>
    obtain ⟨l', slot, hrun, hleft⟩ := peek_spec h.toReadable hc.1 hc.2
    refine ⟨m, l', free, ?_, hleft.unread, h.left hM hleft (peek_called hrun).moves (by simp)⟩
    rw [Call.run, hrun]; rfl
  | readByte =>
    obtain ⟨b, u, hu⟩ := List.exists_cons_of_length_pos hc
    obtain ⟨m', l', free', hrun, hleft⟩ := readByte_spec hM h.toReadable h.tail hu
    refine ⟨m', l', free', ?_, ?_, h.left hM hleft (readByte_called hrun).moves ?_⟩
    · rw [Call.run, hrun, hu]; rfl
    · rw [hleft.unread, hu]; rfl
    · rw [hu]; simp
  | read size =>
    obtain ⟨m', l', free', hrun, hleft⟩ := read_spec hM h.toReadable hc
    refine ⟨m', l', free', ?_, ?_, h.left hM hleft (read_called hrun).moves rfl⟩
    · rw [Call.run, hrun, Call.flat, ← List.take_eq_take_min]; rfl
    · rw [hleft.unread, Call.flat, ← List.drop_eq_drop_min]

theorem runCalls_spec (hM : ManagerOk cs bm) : ∀ (calls : List Call) (m : Mem) (l : LinkedBuffer)
    (free : List ℕ), RecvOk cs m l others free → CallsOk calls (l.unread m) →
    ∃ m' l' free', runCalls bm calls m l = .ok (m', l', (flatCalls calls (l.unread m)).1) ∧
      l'.unread m' = (flatCalls calls (l.unread m)).2 ∧ RecvOk cs m' l' others free' := by
  intro calls
  induction calls with
  | nil => intro m l free h _; exact ⟨m, l, free, rfl, rfl, h⟩
  | cons c calls ih =>
    intro m l free h hc
    obtain ⟨m1, l1, free1, hrun, hu, h1⟩ := call_spec hM h hc.1
    obtain ⟨m', l', free', hruns, hu', h'⟩ := ih m1 l1 free1 h1 (hu ▸ hc.2)
    refine ⟨m', l', free', ?_, ?_, h'⟩
    · rw [runCalls, hrun]
      simp only [bind, Except.bind, hruns, pure, Except.pure, hu]
      rfl
    · rw [hu', hu]
      rfl

end Calls

/-! ## Runs -/

/-- A receive buffer and the shared memory. -/
structure Receiver where
  mem : Mem
  buf : LinkedBuffer

namespace Receiver

/-- The slots the buffer owns. -/
def own (r : Receiver) : List ℕ := slotsOf r.buf.slices ++ slotsOf r.buf.pinnedList

inductive Act
  /-- `moveTo` of what came in since the last one. -/
  | moveTo (unread : List Unread)
  | call (c : Call)
  | releasePreviousRead
  /-- Other streams and the peer write to the shared memory. -/
  | others (m : Mem)

/-- `none` is where the code panics. -/
def next (bm : Manager) (r : Receiver) : Act → Option Receiver
  | .moveTo unread =>
    match LinkedBuffer.moveTo bm unread r.mem r.buf with
    | .ok (m, l) => some ⟨m, l⟩
    | .error _ => none
  | .call c =>
    match c.run bm r.mem r.buf with
    | .ok (m, l, _) => some ⟨m, l⟩
    | .error _ => none
  | .releasePreviousRead =>
    match r.buf.releasePreviousRead bm r.mem with
    | .ok (m, l) => some ⟨m, l⟩
    | .error _ => none
  | .others m => some ⟨m, r.buf⟩

/-- The runs of a new stream's receive buffer. -/
def runs (bm : Manager) (m : Mem) : Sys Receiver Act where
  init r := r = ⟨m, {}⟩
  next := next bm

/-- The messages are such as one sender produces: chains of slots that nobody else
    owns, then fallback payloads, none of them empty. -/
def Sent (cs : List SizeClass) (bm : Manager) (r : Receiver) (unread : List Unread) : Prop :=
  ∃ (ms : List (List ℕ)) (ps : List (List UInt8)), unread = ms.map msgOf ++ ps.map .fallback ∧
    (∀ as ∈ ms, ChainAt cs r.mem as ∧ msgBytes r.mem as ≠ []) ∧
    (r.own ++ (ms.flatten ++ bm.freeSlots r.mem)).Nodup ∧ (∀ p ∈ ps, p ≠ []) ∧
    (r.buf.isFromShm = false → ms = [])

/-- The others keep to their own slots and leave the free chains in order. -/
structure Apart (cs : List SizeClass) (bm : Manager) (r : Receiver) (m : Mem) : Prop where
  len : m.len = r.mem.len
  own : ∀ a ∈ r.own, ∀ cap, IsSlot cs a cap → r.mem.SameOn m a (a + 20 + cap)
  heap : ∃ free, Heap cs m free
  free : ∀ a ∈ bm.freeSlots m, a ∉ r.own

/-- What the users of the buffer keep to. -/
def Allowed (cs : List SizeClass) (bm : Manager) (r : Receiver) : Act → Prop
  | .moveTo unread => r.Sent cs bm unread
  | .call c => c.Ok (r.buf.unread r.mem)
  | .releasePreviousRead => True
  | .others m => r.Apart cs bm m

end Receiver

section Runs

variable {cs : List SizeClass} {bm : Manager} {m m' : Mem} {l : LinkedBuffer}
  {others free free' as : List ℕ} {r r' : Receiver}

/-- Slots that are neither the buffer's nor free are owned elsewhere. -/
theorem Owns.regroup (as : List ℕ) (h : Owns cs m l others free) (hheap : Heap cs m' free')
    (hlen : m'.len = m.len) (has : ∀ a ∈ as, a ∈ allSlots cs)
    (hnd : (slotsOf l.slices ++ (slotsOf l.pinnedList ++ (as ++ free'))).Nodup) :
    ∃ others', Owns cs m' l (as ++ others') free' := by
  have hmem : ∀ a ∈ slotsOf l.slices ++ (slotsOf l.pinnedList ++ (as ++ free')), a ∈ allSlots cs := by
    intro a ha
    have hall := (h.all.mem_iff (a := a)).mp
    simp only [List.mem_append] at ha hall
    rcases ha with ha | ha | ha | ha
    · exact hall (.inl ha)
    · exact hall (.inr (.inl ha))
    · exact has a ha
    · exact mem_allSlots.mpr (hheap.isSlot ha)
  obtain ⟨t, ht, hsub⟩ := hnd.subperm hmem
  obtain ⟨others', hp⟩ := hsub.exists_perm_append
  refine ⟨others', hlen ▸ h.layout, hheap, h.slices, h.pinned, List.Perm.trans ?_ hp.symm⟩
  refine List.Perm.trans ?_ (ht.symm.append_right others')
  simp only [List.append_assoc]
  exact ((List.perm_append_comm.append_left _).append_left _).append_left _

/-- Receiving appends the bytes of the messages. -/
theorem RecvOk.received {new : List BufferSlice} {l' : LinkedBuffer}
    (h : RecvOk cs m l (as ++ others) free)
    (hrec : Received cs as others free m l m' l' free' new) :
    RecvOk cs m' l' others free' ∧ l'.unread m' = l.unread m ++ msgBytes m as := by
  have hold : l.slices.flatMap (·.bytes m') = l.slices.flatMap (·.bytes m) := by
    refine flatMap_bytes_congr h.slices h.bounds hrec.data fun a ha hT => ?_
    have hnd := h.nodup
    simp only [List.nodup_append, List.mem_append] at hnd hT
    grind
  have hunread : l'.unread m' = l.unread m ++ msgBytes m as := by
    rw [LinkedBuffer.unread, hrec.slices, List.flatMap_append, hold, hrec.bytes]
    rfl
  refine ⟨⟨⟨hrec.owns, fun s hs => ?_⟩, ?_, fun s hs => ?_, fun hf s hs => ?_⟩, hunread⟩
  · rw [hrec.slices] at hs
    exact (List.mem_append.mp hs).elim (h.bounds s) (hrec.bounds s)
  · rw [hrec.len, hunread, h.len, List.length_append, Nat.cast_add]
  · rw [hrec.slices] at hs
    cases hl : l.slices with
    | nil =>
      rw [hl, List.nil_append] at hs
      exact hrec.pos s (List.mem_of_mem_tail hs)
    | cons t ts =>
      rw [hl, List.cons_append, List.tail_cons] at hs
      refine (List.mem_append.mp hs).elim (fun hs => h.tail s ?_) (hrec.pos s)
      rw [hl]
      exact hs
  · rw [hrec.slices] at hs
    refine (List.mem_append.mp hs).elim (h.shm ?_ s) (hrec.shm s)
    rw [hrec.rest] at hf
    exact hf

theorem RecvOk.fallback (h : RecvOk cs m l others free) {payload : List UInt8} (hp : payload ≠ []) :
    RecvOk cs m (l.appendBufferSlice (fallbackSlice payload)) others free ∧
      (l.appendBufferSlice (fallbackSlice payload)).unread m = l.unread m ++ payload := by
  have hpos := List.length_pos_iff.mpr hp
  have hsize : (fallbackSlice payload).size = payload.length := by
    simp [fallbackSlice, BufferSlice.size, newHeapSlice]
  have hslices : (l.appendBufferSlice (fallbackSlice payload)).slices =
      l.slices ++ [fallbackSlice payload] := rfl
  have hheap : HeapSlice (fallbackSlice payload) :=
    ⟨rfl, ⟨payload, rfl, Nat.mod_le _ _⟩, rfl⟩
  have hunread : (l.appendBufferSlice (fallbackSlice payload)).unread m = l.unread m ++ payload := by
    rw [LinkedBuffer.unread, hslices, List.flatMap_append, List.flatMap_singleton]
    simp [BufferSlice.bytes, BufferSlice.size, fallbackSlice, newHeapSlice, LinkedBuffer.unread]
  refine ⟨⟨⟨⟨h.layout, h.heap, fun s hs => ?_, h.pinned, ?_⟩, fun s hs => ?_⟩, ?_, fun s hs => ?_,
    fun hf => ?_⟩, hunread⟩
  · rw [hslices] at hs
    refine (List.mem_append.mp hs).elim (h.slices s) fun hs => ?_
    rw [List.mem_singleton.mp hs]
    exact .inr hheap
  · rw [hslices, slotsOf_append, slotsOf_cons_heap hheap, show slotsOf [] = [] from rfl,
      List.append_nil]
    exact h.all
  · rw [hslices] at hs
    refine (List.mem_append.mp hs).elim (h.bounds s) fun hs => ?_
    rw [List.mem_singleton.mp hs]
    exact ⟨le_rfl, Int.natCast_nonneg _, le_rfl⟩
  · rw [hunread, List.length_append, Nat.cast_add, ← h.len, ← hsize]
    rfl
  · rw [hslices] at hs
    cases hl : l.slices with
    | nil => rw [hl] at hs; simp at hs
    | cons t ts =>
      rw [hl, List.cons_append, List.tail_cons] at hs
      refine (List.mem_append.mp hs).elim (fun hs => h.tail s (by rw [hl]; exact hs)) fun hs => ?_
      rw [List.mem_singleton.mp hs, hsize]
      omega
  · simp [LinkedBuffer.appendBufferSlice, fallbackSlice, newHeapSlice] at hf

theorem moveTo_fallbacks (bm : Manager) : ∀ (ps : List (List UInt8)) (l : LinkedBuffer),
    RecvOk cs m l others free → (∀ p ∈ ps, p ≠ []) →
    ∃ l', LinkedBuffer.moveTo bm (ps.map .fallback) m l = .ok (m, l') ∧
      RecvOk cs m l' others free := by
  intro ps
  induction ps with
  | nil => intro l h _; exact ⟨l, rfl, h⟩
  | cons p ps ih =>
    intro l h hps
    rw [List.forall_mem_cons] at hps
    exact ih _ (h.fallback hps.1).1 hps.2

/-- **Step.** Messages of one sender are taken in without a panic. -/
theorem moveTo_sent (hM : ManagerOk cs bm) (h : RecvOk cs r.mem r.buf others free)
    {unread : List Unread} (hs : r.Sent cs bm unread) :
    ∃ m' l' others' free', LinkedBuffer.moveTo bm unread r.mem r.buf = .ok (m', l') ∧
      RecvOk cs m' l' others' free' := by
  obtain ⟨ms, ps, rfl, hms, hnd, hps, hfall⟩ := hs
  have hperm := h.heap.freeSlots_perm hM
  obtain ⟨others', howns⟩ := h.toOwns.regroup ms.flatten h.heap rfl (fun a ha => by
      obtain ⟨as, has, ha⟩ := List.mem_flatten.mp ha
      obtain ⟨cap, hslot, -⟩ := (hms as has).1.slots a ha
      exact mem_allSlots.mpr ⟨cap, hslot⟩) (by
    rw [Receiver.own, List.append_assoc] at hnd
    exact (((hperm.append_left _).append_left _).append_left _).nodup_iff.mp hnd)
  have h0 : RecvOk cs r.mem r.buf (ms.flatten ++ others') free :=
    ⟨⟨howns, h.bounds⟩, h.len, h.tail, h.shm⟩
  have hchains : ∃ m1 l1 free1 new, LinkedBuffer.moveTo bm (ms.map msgOf) r.mem r.buf = .ok (m1, l1) ∧
      Received cs ms.flatten others' free r.mem r.buf m1 l1 free1 new := by
    cases hf : r.buf.isFromShm with
    | false =>
      obtain rfl := hfall hf
      exact ⟨_, _, free, [], rfl, .refl howns⟩
    | true =>
      exact moveTo_chains hM ms r.mem r.buf free howns hms fun s hs =>
        h.shm hf s (List.mem_of_getLast? hs)
  obtain ⟨m1, l1, free1, new, hrun, hrec⟩ := hchains
  obtain ⟨l2, hrun', h2⟩ := moveTo_fallbacks bm ps l1 (h0.received hrec).1 hps
  refine ⟨m1, l2, others', free1, ?_, h2⟩
  rw [moveTo_append, hrun]
  exact hrun'

/-- The slices that `ReleasePreviousRead` gives up are read to their end. -/
theorem release_unread (hM : ManagerOk cs bm) (h : RecvOk cs m l others free) {l' : LinkedBuffer}
    (hrun : l.releasePreviousRead bm m = .ok (m', l')) : l'.unread m' = l.unread m := by
  obtain ⟨m1, l1, gone, hrun', hs, hgone, howns, hkeep, -⟩ := releasePreviousRead_spec hM h.toOwns
  rw [hrun] at hrun'
  cases hrun'
  have hmem : ∀ s ∈ l'.slices, s ∈ l.slices := fun s hs' => hs ▸ List.mem_append_right _ hs'
  have hempty : gone.flatMap (·.bytes m) = [] := by
    refine List.flatMap_eq_nil_iff.mpr fun s hs' => List.eq_nil_of_length_eq_zero ?_
    have := (h.bounds s (hs ▸ List.mem_append_left _ hs')).length_bytes (m := m)
    have := hgone s hs'
    omega
  rw [LinkedBuffer.unread, LinkedBuffer.unread, hs, List.flatMap_append, hempty, List.nil_append]
  refine flatMap_bytes_congr howns.slices (fun s hs' => h.bounds s (hmem s hs')) hkeep.data
    fun a ha hT => ?_
  have hnd := howns.nodup
  simp only [List.nodup_append, List.mem_append] at hnd hT
  grind

theorem release_step (hM : ManagerOk cs bm) (h : RecvOk cs m l others free) :
    ∃ m' l' free', l.releasePreviousRead bm m = .ok (m', l') ∧ RecvOk cs m' l' others free' := by
  obtain ⟨m', l', gone, hrun, hs, hgone, howns, hkeep, -, hlen, hf, -⟩ :=
    releasePreviousRead_spec hM h.toOwns
  have hmem : ∀ s ∈ l'.slices, s ∈ l.slices := fun s hs' => hs ▸ List.mem_append_right _ hs'
  refine ⟨m', l', _, hrun, ⟨howns, fun s hs' => h.bounds s (hmem s hs')⟩, ?_, fun s hs' => h.tail s ?_,
    fun hf' s hs' => h.shm (hf ▸ hf') s (hmem s hs')⟩
  · rw [hlen, release_unread hM h hrun, h.len]
  · rw [hs]
    cases gone with
    | nil => exact hs'
    | cons g gs => exact List.mem_append_right _ (List.mem_of_mem_tail hs')

/-- What the others do leaves the buffer its slots. -/
theorem Receiver.Apart.owns (hm : r.Apart cs bm m') (hM : ManagerOk cs bm)
    (h : Owns cs r.mem r.buf others free) : ∃ others' free', Owns cs m' r.buf others' free' ∧
      Keeps cs ((allSlots cs).filter fun a => a ∉ r.own) r.mem m' := by
  obtain ⟨free', hheap⟩ := hm.heap
  have hperm := hheap.freeSlots_perm hM
  have hown : r.own.Nodup := by
    have hnd := h.nodup
    rw [← List.append_assoc] at hnd
    exact (List.nodup_append.mp hnd).1
  obtain ⟨others', howns⟩ := h.regroup [] hheap hm.len (by simp) (by
    rw [← List.append_assoc]
    refine List.nodup_append.mpr ⟨hown, hheap.nodup (hm.len ▸ h.layout), ?_⟩
    rintro a ha b hb rfl
    exact hm.free a (hperm.mem_iff.mpr hb) ha)
  refine ⟨others', free', howns, hm.len, fun a cap hslot ha => ?_⟩
  have hmem : a ∈ r.own := by
    by_contra hnot
    exact ha (List.mem_filter.mpr ⟨mem_allSlots.mpr ⟨cap, hslot⟩, by simpa using hnot⟩)
  exact hm.own a hmem cap hslot

theorem Receiver.not_others {a : ℕ} (ha : a ∈ slotsOf r.buf.slices) :
    a ∉ (allSlots cs).filter fun a => a ∉ r.own := by
  intro hT
  have hnot : a ∉ r.own := by simpa using (List.mem_filter.mp hT).2
  exact hnot (List.mem_append_left _ ha)

theorem others_step (hM : ManagerOk cs bm) (h : RecvOk cs r.mem r.buf others free)
    (hm : r.Apart cs bm m') : ∃ others' free', RecvOk cs m' r.buf others' free' := by
  obtain ⟨others', free', howns, hkeep⟩ := hm.owns hM h.toOwns
  have hunread : r.buf.unread m' = r.buf.unread r.mem :=
    flatMap_bytes_congr h.slices h.bounds hkeep.data fun a ha => Receiver.not_others ha
  exact ⟨_, free', ⟨howns, h.bounds⟩, by rw [hunread]; exact h.len, h.tail, h.shm⟩

/-- **Run.** The invariant holds in every state that is reached. -/
theorem recvOk_of_reachable (hR : Ready cs bm m)
    (hr : (Receiver.runs bm m).ReachableWhen (Receiver.Allowed cs bm) r) :
    ∃ others free, RecvOk cs r.mem r.buf others free := by
  have hM := hR.manager
  refine hr.invariant (fun r => ∃ others free, RecvOk cs r.mem r.buf others free) ?_ ?_
  · rintro r rfl
    obtain ⟨free, hheap⟩ := hR.heap
    obtain ⟨t, ht, hsub⟩ := (hheap.nodup hR.layout).subperm fun a ha =>
      mem_allSlots.mpr (hheap.isSlot ha)
    obtain ⟨others, hp⟩ := hsub.exists_perm_append
    refine ⟨others, free, ⟨⟨hR.layout, hheap, by simp, by simp, ?_⟩, by simp⟩, rfl, by simp, by simp⟩
    show (others ++ free).Perm _
    exact List.perm_append_comm.trans ((ht.symm.append_right others).trans hp.symm)
  · rintro r act r' ⟨others, free, h⟩ hok hnext
    cases act with
    | moveTo unread =>
      obtain ⟨m', l', others', free', hrun, h'⟩ := moveTo_sent hM h hok
      simp only [Receiver.runs, Receiver.next, hrun] at hnext
      cases hnext
      exact ⟨others', free', h'⟩
    | call c =>
      obtain ⟨m', l', free', hrun, -, h'⟩ := call_spec hM h hok
      simp only [Receiver.runs, Receiver.next, hrun] at hnext
      cases hnext
      exact ⟨others, free', h'⟩
    | releasePreviousRead =>
      obtain ⟨m', l', free', hrun, h'⟩ := release_step hM h
      simp only [Receiver.runs, Receiver.next, hrun] at hnext
      cases hnext
      exact ⟨others, free', h'⟩
    | others m' =>
      cases hnext
      exact others_step (r := r) hM h hok

/-- **Main theorem.** Whatever messages, calls, releases and work of others have led to
    it, a receive buffer with unread bytes `u` has `Len() = |u|`, and any calls with
    sizes that fit return, and give and leave what they do on the list `u`. -/
theorem readers_flat (hR : Ready cs bm m)
    (hr : (Receiver.runs bm m).ReachableWhen (Receiver.Allowed cs bm) r) :
    r.buf.len = (r.buf.unread r.mem).length ∧
      ∀ calls, CallsOk calls (r.buf.unread r.mem) →
        ∃ m' l', runCalls bm calls r.mem r.buf =
            .ok (m', l', (flatCalls calls (r.buf.unread r.mem)).1) ∧
          l'.unread m' = (flatCalls calls (r.buf.unread r.mem)).2 ∧
          l'.len = (l'.unread m').length := by
  have hM := hR.manager
  obtain ⟨others, free, h⟩ := recvOk_of_reachable hR hr
  refine ⟨h.len, fun calls hc => ?_⟩
  obtain ⟨m', l', free', hrun, hu, h'⟩ := runCalls_spec hM calls r.mem r.buf free h hc
  exact ⟨m', l', hrun, hu, h'.len⟩

end Runs

/-- A memory with four slots of four bytes. -/
def fourSlots : Mem × Manager :=
  match createBufferManager [⟨4, 100⟩] (zeroMem 140) 0 with
  | .ok (.ok r) => r
  | _ => (zeroMem 0, ⟨[], 0, 0⟩)

/-- The memory with a message of six bytes that was written to it. -/
def sixBytes : Mem :=
  match ({} : LinkedBuffer).writeBytes fourSlots.2 fourSlots.1 [1, 2, 3, 4, 5, 6] >>= fun r =>
      r.2.done fourSlots.2 r.1 with
  | .ok (m, _) => m
  | .error _ => zeroMem 0

theorem fourSlots_ready : Ready [⟨8, 4, 4⟩] fourSlots.2 fourSlots.1 := by
  have h : createBufferManager [⟨4, 100⟩] (zeroMem 140) 0 = .ok (.ok fourSlots) := rfl
  exact createBufferManager_ready (by decide) (by simp) (by decide) (by decide) h

theorem len_sixBytes : sixBytes.len = fourSlots.1.len := by decide +kernel

theorem sixBytes_heap : Heap [⟨8, 4, 4⟩] sixBytes [92, 116] := by
  refine ⟨fun _ => [48, 72], ?_, by decide⟩
  simp only [List.mem_singleton, forall_eq]
  refine ⟨⟨?_, ?_, ?_, ?_, ?_, ?_, ?_⟩, ?_, ?_, ?_⟩ <;> decide +kernel

/-- The buffer after an action. -/
def after (r : Receiver) (act : Receiver.Act) : Receiver := (r.next fourSlots.2 act).getD r

theorem after_reachable {r : Receiver} {act : Receiver.Act}
    (hr : (Receiver.runs fourSlots.2 fourSlots.1).ReachableWhen
      (Receiver.Allowed [⟨8, 4, 4⟩] fourSlots.2) r)
    (hok : Receiver.Allowed [⟨8, 4, 4⟩] fourSlots.2 r act)
    (h : (r.next fourSlots.2 act).isSome = true) :
    (Receiver.runs fourSlots.2 fourSlots.1).ReachableWhen
      (Receiver.Allowed [⟨8, 4, 4⟩] fourSlots.2) (after r act) :=
  hr.step_getD hok h

/-- The message is taken in and read in part, and a fallback payload follows. -/
def sixBytesRead : Receiver :=
  after (after (after ⟨sixBytes, {}⟩ (.moveTo [.chain 44])) (.call (.readBytes 3)))
    (.moveTo [.fallback [7, 8]])

theorem sixBytesRead_reachable : (Receiver.runs fourSlots.2 fourSlots.1).ReachableWhen
    (Receiver.Allowed [⟨8, 4, 4⟩] fourSlots.2) sixBytesRead := by
  have hsent : Receiver.Allowed [⟨8, 4, 4⟩] fourSlots.2 ⟨fourSlots.1, {}⟩ (.others sixBytes) :=
    Receiver.Apart.mk len_sixBytes (by simp [Receiver.own, slotsOf]) ⟨_, sixBytes_heap⟩
      (by simp [Receiver.own, slotsOf])
  have hstart : (Receiver.runs fourSlots.2 fourSlots.1).ReachableWhen
      (Receiver.Allowed [⟨8, 4, 4⟩] fourSlots.2) ⟨sixBytes, {}⟩ := .step (.init rfl) hsent rfl
  have hchain : ChainAt [⟨8, 4, 4⟩] sixBytes [44, 68] := by
    refine ⟨by decide +kernel, fun a ha => ⟨4, ⟨⟨8, 4, 4⟩, by simp, rfl, ?_⟩, ?_⟩⟩ <;>
      revert a <;> decide +kernel
  have hread : Call.Ok ((after ⟨sixBytes, {}⟩ (.moveTo [.chain 44])).buf.unread
      (after ⟨sixBytes, {}⟩ (.moveTo [.chain 44])).mem) (.readBytes 3) := by decide +kernel
  refine after_reachable (after_reachable (after_reachable hstart ?_ ?_) ?_ ?_) ?_ ?_
  · exact ⟨[[44, 68]], [], rfl, by simpa using ⟨hchain, by decide +kernel⟩, by decide +kernel,
      by simp, by simp⟩
  · decide +kernel
  · exact hread
  · decide +kernel
  · exact ⟨[], [[7, 8]], rfl, by simp, by decide +kernel, by simp, by simp⟩
  · decide +kernel

theorem readers_flat_six_bytes : sixBytesRead.buf.len = 5 ∧
    ∃ m' l', runCalls fourSlots.2 [.peek 2, .readBytes 4, .readByte] sixBytesRead.mem
        sixBytesRead.buf = .ok (m', l', [.bytes [4, 5], .bytes [4, 5, 6, 7], .byte 8]) ∧
      l'.unread m' = [] := by
  have hu : sixBytesRead.buf.unread sixBytesRead.mem = [4, 5, 6, 7, 8] := by decide +kernel
  obtain ⟨hlen, hcalls⟩ := readers_flat fourSlots_ready sixBytesRead_reachable
  rw [hu] at hlen hcalls
  obtain ⟨m', l', hrun, hrest, -⟩ := hcalls [.peek 2, .readBytes 4, .readByte] (by
    simp [CallsOk, Call.Ok, Call.flat])
  exact ⟨hlen, m', l', hrun, hrest⟩

end Shmipc.Buffer
