import Shmipc.Config
import Shmipc.Queue.Fifo

/-!
# Two queues in one memory

`createQueueManager` (queue.go:88-120) makes a file of `countQueueMemSize(queueCap)*queueCount`
bytes and creates a queue in each half of it, the first to send and the second to receive.
`mappingQueueManager` (147-173) maps the file in the peer, which takes the halves from the size of
the file, and the capacity from the memory, and sends where the creator receives. The variants on a
memfd (59-86, 122-145) do the same with their memory.

A queue is a record of addresses in the whole memory here, and the four kinds of calls, puts and
pops of both processes, run over that memory: `link`. Every call reads and writes where the record
of its own process points to.

The size is computed in `int`, but the end of `queueBytesOnMemory` in `uint32`, so the two agree
only below capacity 357913940; `VerifyConfig` sets no bound.

Results:
* `step_view`: a step on a half of the memory is the step on a memory of that size.
* `step_sameOff`: it leaves the rest of the memory alone.
* `linkInv_step`, `linkInv_reachable`: both queues stay sound, in every interleaving.
* `link_order`: both directions are in order.
* `queues_consistent_iff`: which accepted capacities give two queues that the processes agree on.
-/

namespace Shmipc.Ring

open Common
open Buffer (Go)
open Shmipc.Queue (QueueElement queueElementLen)

/-! ## The model -/

def queueCount : ℕ := 2

/-- The queue of a slice that starts at `base`, in the addresses of the whole memory. -/
def Queue.shift (base : ℕ) (q : Queue) : Queue :=
  { q with
    head := base + q.head
    tail := base + q.tail
    workingFlag := base + q.workingFlag
    start := base + q.start }

/-- `queueManager` (queue.go:34-41). -/
structure QueueManager where
  sendQueue : Queue
  recvQueue : Queue
  deriving DecidableEq

/-- The loop `mem[i] = 0`. -/
def clearMem (mem : Mem) : Mem :=
  { mem with byte := fun x => if x < mem.len then 0 else mem.byte x }

/-- `createQueueManager` (queue.go:88-120), once the file is mapped: the memory and the manager.
    The new mapping holds `bytes`. -/
def createQueueManager (arm : Bool) (bytes : ℕ → UInt8) (queueCap : ℕ) : Go (Mem × QueueManager) := do
  let memSize := countQueueMemSize queueCap * queueCount
  let mem := clearMem ⟨memSize, bytes⟩
  let (data, sendQueue) ← createQueueFromBytes arm (mem.slice 0 (memSize / 2)) queueCap
  let mem := mem.paste 0 data
  let (data, recvQueue) ← createQueueFromBytes arm (mem.slice (memSize / 2) memSize) queueCap
  let mem := mem.paste (memSize / 2) data
  pure (mem, ⟨sendQueue.shift 0, recvQueue.shift (memSize / 2)⟩)

inductive MappingError
  | memorySize
  deriving DecidableEq, Repr

def MappingError.message : MappingError → String
  | .memorySize => "the memory size of queue should be a multiple of 16"

/-- `mappingQueueManager` (queue.go:147-173), on a file that holds `mem`. -/
def mappingQueueManager (arm : Bool) (mem : Mem) : Go (Except MappingError QueueManager) :=
  let mappingSize := mem.len
  if arm ∧ mappingSize % 16 ≠ 0 then pure (.error .memorySize)
  else do
    let sendQueue ← mappingQueueFromBytes arm (mem.slice (mappingSize / 2) mappingSize)
    let recvQueue ← mappingQueueFromBytes arm (mem.slice 0 (mappingSize / 2))
    pure (.ok ⟨sendQueue.shift (mappingSize / 2), recvQueue.shift 0⟩)

/-- The calls on the two queues. Both states have the memory. -/
structure Link (P : Type*) where
  /-- On the `sendQueue` of the creator: it puts, and the peer pops. -/
  out : State P
  /-- On its `recvQueue`: the peer puts, and the creator pops. -/
  back : State P

inductive LinkAct (P : Type*)
  | out (a : Act P)
  | back (a : Act P)

/-- The record that a step goes by: that of the producers' process or of the consumer's. -/
def Act.queue {P : Type*} (producer consumer : Queue) : Act P → Queue
  | .put .. | .producer _ => producer
  | .pop | .consumer => consumer

section Model

variable {P : Type*} [DecidableEq P]

def Link.step (creator peer : QueueManager) (s : Link P) : LinkAct P → Option (Link P)
  | .out a => (Ring.step (a.queue creator.sendQueue peer.recvQueue) s.out a).map fun t =>
    { out := t, back := { s.back with mem := t.mem } }
  | .back a => (Ring.step (a.queue peer.sendQueue creator.recvQueue) s.back a).map fun t =>
    { out := { s.out with mem := t.mem }, back := t }

/-- The creator and its peer over the memory `mem`. -/
def link (P : Type*) [DecidableEq P] (creator peer : QueueManager) (mem : Mem) :
    Sys (Link P) (LinkAct P) where
  init s := s = ⟨initial P mem, initial P mem⟩
  next := Link.step creator peer

/-- The step keeps the counters below `2 ^ 63`. -/
def Link.Below (creator peer : QueueManager) (s : Link P) : LinkAct P → Prop
  | .out a => Ring.Below (a.queue creator.sendQueue peer.recvQueue) s.out a
  | .back a => Ring.Below (a.queue peer.sendQueue creator.recvQueue) s.back a

end Model

/-! ## What is asked of the queues -/

/-- The bytes of a queue. -/
def Queue.Bytes (q : Queue) (x : ℕ) : Prop :=
  (q.head ≤ x ∧ x < q.head + 8) ∨ (q.tail ≤ x ∧ x < q.tail + 8) ∨
    (q.workingFlag ≤ x ∧ x < q.workingFlag + 4) ∨ (q.start ≤ x ∧ x < q.start + q.len)

/-- The word of `queueBytesOnMemory` that a `put` writes next. -/
def PutPc.access : PutPc → Option ℤ
  | .writeSeqID _ off => some off
  | .writeOffset _ off => some (off + 4)
  | .writeStatus _ off => some (off + 8)
  | .idle | .lock _ | .loadTail _ | .loadHead .. | .addTail _ | .unlock | .unlockFull _
  | .panicked => none

/-- The word that a `pop` reads next. -/
def PopPc.access : PopPc → Option ℤ
  | .readSeqID off => some off
  | .readOffset off _ => some (off + 4)
  | .readStatus off _ _ => some (off + 8)
  | .idle | .loadHead | .loadTail _ | .addHead _ | .panicked => none

/-- No call indexes outside of `queueBytesOnMemory`. -/
structure State.InRange {P : Type*} (q : Queue) (s : State P) : Prop where
  put : ∀ p i, (s.producer p).access = some i → 0 ≤ i ∧ i + 4 ≤ q.len
  pop : ∀ i, s.consumer.access = some i → 0 ≤ i ∧ i + 4 ≤ q.len
  no_panic : ∀ x w, .panic x w ∉ s.returns

/-- The two processes have the same two queues, of the size that was asked for. -/
structure Agreed (queueCap : ℕ) (mem : Mem) (creator peer : QueueManager) : Prop where
  out : peer.recvQueue = creator.sendQueue
  back : peer.sendQueue = creator.recvQueue
  inside : ∀ x, creator.sendQueue.Bytes x ∨ creator.recvQueue.Bytes x → x < mem.len
  apart : ∀ x, creator.sendQueue.Bytes x → ¬creator.recvQueue.Bytes x
  sendLen : creator.sendQueue.len = queueElementLen * queueCap
  recvLen : creator.recvQueue.len = queueElementLen * queueCap

/-- Creation and mapping succeed, with queues that the two processes agree on; a peer that maps the
    memory later gets the same; and no call on either side indexes outside of its queue. -/
def Consistent (arm : Bool) (queueCap : ℕ) : Prop :=
  ∀ bytes : ℕ → UInt8, ∃ mem creator peer,
    createQueueManager arm bytes queueCap = .ok (mem, creator) ∧
    Agreed queueCap mem creator peer ∧
    ∀ (P : Type) [DecidableEq P] (s : Link P),
      (link P creator peer mem).ReachableWhen (Link.Below creator peer) s →
        mappingQueueManager arm s.out.mem = .ok (.ok peer) ∧
        s.out.InRange creator.sendQueue ∧ s.back.InRange creator.recvQueue

/-! ## A half of the memory -/

def State.view {P : Type*} (lo hi : ℕ) (s : State P) : State P := { s with mem := s.mem.slice lo hi }

section View

variable {P : Type*} {q : Queue} {lo hi : ℕ} {s t : State P}

@[simp] theorem len_shift : (q.shift lo).len = q.len := rfl

@[simp] theorem cap_shift : (q.shift lo).cap = q.cap := rfl

theorem loadHead_view : q.loadHead (s.view lo hi).mem = (q.shift lo).loadHead s.mem := rfl

theorem loadTail_view : q.loadTail (s.view lo hi).mem = (q.shift lo).loadTail s.mem := rfl

theorem queueOffset_shift (i : ℤ) : (q.shift lo).queueOffset i = q.queueOffset i := rfl

theorem index_shift (i : ℤ) : (q.shift lo).index i = (q.index i).map (lo + ·) := by
  unfold Queue.index
  rw [len_shift]
  by_cases h : 0 ≤ i ∧ i < q.len
  · rw [if_pos h, if_pos h]
    exact congrArg _ (Nat.add_assoc _ _ _)
  · rw [if_neg h, if_neg h]
    rfl

theorem slice_increment (m : Mem) (a : ℕ) :
    (increment m (lo + a)).slice lo hi = increment (m.slice lo hi) a := by
  unfold increment
  rw [Mem.slice_set64, Mem.get64_slice]

theorem popWord_view (i : ℤ) (pc : ℕ → PopPc) :
    (s.popWord (q.shift lo) i pc).view lo hi = (s.view lo hi).popWord q i pc := by
  unfold State.popWord
  rw [index_shift]
  cases q.index i <;> rfl

theorem stepPop_view (pc : PopPc) :
    (stepPop (q.shift lo) s pc).map (State.view lo hi) = stepPop q (s.view lo hi) pc := by
  cases pc with
  | idle | panicked | loadHead => rfl
  | loadTail head =>
    simp only [stepPop]
    rw [loadTail_view, queueOffset_shift]
    split_ifs
    · rfl
    · cases q.queueOffset head <;> rfl
  | readSeqID off | readOffset off w | readStatus off w w' =>
    simp only [stepPop, Option.map_some, popWord_view]
  | addHead e =>
    simp only [stepPop, Option.map_some]
    rw [State.view, State.view, ← slice_increment]
    rfl

variable [DecidableEq P]

theorem putWord_view (p : P) (i : ℤ) (v : ℕ) (pc : PutPc) :
    (s.putWord (q.shift lo) p i v pc).view lo hi = (s.view lo hi).putWord q p i v pc := by
  unfold State.putWord
  rw [index_shift]
  cases q.index i with
  | error x => rfl
  | ok a =>
    simp only [Except.map, State.view, Mem.slice_set32]
    rfl

theorem stepPut_view (p : P) (pc : PutPc) :
    (stepPut (q.shift lo) s p pc).map (State.view lo hi) = stepPut q (s.view lo hi) p pc := by
  cases pc with
  | idle | panicked | loadTail e | unlock | unlockFull n => rfl
  | lock e =>
    simp only [stepPut]
    rw [show (s.view lo hi).mutex = s.mutex from rfl]
    split_ifs <;> rfl
  | loadHead e tail =>
    simp only [stepPut]
    rw [loadHead_view, queueOffset_shift, cap_shift]
    split_ifs
    · rfl
    · cases q.queueOffset tail <;> rfl
  | writeSeqID e off | writeOffset e off | writeStatus e off =>
    simp only [stepPut, Option.map_some, putWord_view]
  | addTail e =>
    simp only [stepPut, Option.map_some]
    rw [State.view, State.view, ← slice_increment]
    rfl

/-- A step on a half of the memory is the step on a memory of that size. -/
theorem step_view (a : Act P) :
    (step (q.shift lo) s a).map (State.view lo hi) = step q (s.view lo hi) a := by
  cases a with
  | put p e =>
    simp only [step]
    rw [show (s.view lo hi).producer = s.producer from rfl]
    split_ifs <;> rfl
  | producer p => exact stepPut_view p _
  | pop =>
    simp only [step]
    rw [show (s.view lo hi).consumer = s.consumer from rfl]
    split_ifs <;> rfl
  | consumer => exact stepPop_view _

end View

/-! ## The rest of the memory -/

section Rest

variable {P : Type*} {arm : Bool} {q : Queue} {lo hi : ℕ} {s t : State P}

/-- The bytes of the slice that `q` is in. -/
def Within (lo : ℕ) (q : Queue) (x : ℕ) : Prop := lo ≤ x ∧ x < lo + 24 + q.len

theorem sameOff_increment {a : ℕ} (ha : a + 8 ≤ 24) (m : Mem) :
    m.SameOff (Within lo q) (increment m (lo + a)) :=
  ⟨rfl, fun x hx => Mem.byte_congr (Mem.set64_sameOn (by unfold Within at hx; omega))⟩

/-- The calls of `put` and `pop` are at a slot of the queue. -/
theorem Inv.inRange (hq : Sound q) (h : Inv arm q s) : s.InRange q where
  put p i hi := by
    have hp := h.producers p
    have hhead := h.contents.head_le
    have hslot : s.mem.get64 q.tail < s.mem.get64 q.head + q.cap →
        q.slotOffset (s.mem.get64 q.tail) + 12 ≤ q.len :=
      fun hroom => hq.slotOffset_lt (by omega) _
    cases hpc : s.producer p with
    | writeSeqID e off | writeOffset e off | writeStatus e off =>
      rw [hpc] at hi hp
      cases hi
      obtain ⟨-, -, hroom, rfl, -⟩ := hp
      have := hslot hroom
      omega
    | idle | lock e | loadTail e | loadHead e tail | addTail e | unlock | unlockFull n | panicked =>
      rw [hpc] at hi
      cases hi
  pop i hi := by
    have hp := h.consumer
    have htail := h.contents.tail_le
    have hslot : ∀ e, s.puts[s.mem.get64 q.head]? = some e →
        q.slotOffset (s.mem.get64 q.head) + 12 ≤ q.len := by
      intro e he
      have hlt := h.contents.lt_tail he
      exact hq.slotOffset_lt (by omega) _
    cases hpc : s.consumer with
    | readSeqID off =>
      rw [hpc] at hi hp
      cases hi
      obtain ⟨rfl, e, he⟩ := hp
      have := hslot e he
      omega
    | readOffset off w | readStatus off w w' =>
      rw [hpc] at hi hp
      cases hi
      obtain ⟨rfl, e, he, -⟩ := hp
      have := hslot e he
      omega
    | idle | loadHead | loadTail head | addHead e | panicked =>
      rw [hpc] at hi
      cases hi
  no_panic x w hr := h.returns _ hr

/-- The invariant depends on the bytes of the queue only. -/
theorem Inv.congr (hq : Sound q) (h : Inv arm q s) {m : Mem} (hlen : m.len = s.mem.len)
    (hm : s.mem.SameOn m 0 (24 + q.len)) : Inv arm q { s with mem := m } := by
  have hcnt := hq.counters
  have htl := hq.tail
  have eh : m.get64 q.head = s.mem.get64 q.head := Mem.get64_congr (hm.mono (by omega) (by omega))
  have et : m.get64 q.tail = s.mem.get64 q.tail := Mem.get64_congr (hm.mono (by omega) (by omega))
  have hslot : ∀ i, 0 < q.cap → s.mem.SameOn m (q.slot i) (q.slot i + 12) := by
    intro i hc
    have hlt := hq.slotOffset_lt hc i
    have hstart := hq.start
    exact hm.mono (by omega) (by unfold Queue.slot; omega)
  have hhead := h.contents.head_le
  constructor
  · rw [← h.mapped]
    exact mappingQueueFromBytes_congr hlen (Mem.get32_congr (hm.mono le_rfl (by omega)))
  · obtain ⟨hw, hb⟩ := contents_iff.mp h.contents
    refine contents_iff.mpr ?_
    show RingQueue.Window q.cap (Holds q m) (m.get64 q.head) (m.get64 q.tail) s.puts s.pops ∧
      m.get64 q.tail < 2 ^ 63
    rw [eh, et]
    refine ⟨⟨hw.head_le, hw.tail_le, hw.length, hw.popped_eq, fun i e hi he => ?_⟩, hb⟩
    have hlt := hw.lt_tail he
    have htail := hw.tail_le
    exact (hw.stored i e hi he).congr (hslot i (by omega))
  · exact fun p => (h.producers p).mono eh.ge et fun hroom => hslot _ (by omega)
  · exact h.consumer.congr eh fun _ he => he
  · exact h.returns

/-- What a step on one queue means for another that is apart from it. -/
theorem Inv.apart {q' : Queue} {lo' : ℕ} {m : Mem} (hq : Sound q) (h : Inv arm q (s.view lo hi))
    (hm : s.mem.SameOff (Within lo' q') m)
    (hap : lo' + 24 + q'.len ≤ lo ∨ lo + 24 + q.len ≤ lo') :
    Inv arm q (State.view lo hi { s with mem := m }) := by
  refine Inv.congr hq h rfl (Mem.SameOn.slice (hm.sameOn fun x h1 h2 => ?_))
  unfold Within
  omega

variable [DecidableEq P]

theorem putWord_sameOff (hq : Placed q) {i : ℤ} (hi : 0 ≤ i ∧ i + 4 ≤ q.len) (p : P) (v : ℕ)
    (pc : PutPc) : s.mem.SameOff (Within lo q) (s.putWord (q.shift lo) p i v pc).mem := by
  have hidx : (q.shift lo).index i = .ok (lo + q.start + i.toNat) := by
    unfold Queue.index
    rw [len_shift, if_pos (by omega)]
    rfl
  rw [State.putWord_ok _ _ _ _ hidx]
  have hstart := hq.start
  refine ⟨rfl, fun x hx => Mem.byte_set32_of_ne ?_⟩
  unfold Within at hx
  omega

/-- A step on the queue at `lo` leaves the bytes before and behind it alone. -/
theorem step_sameOff (hq : Sound q) (h : Inv arm q (s.view lo hi)) {a : Act P}
    (hs : step (q.shift lo) s a = some t) : s.mem.SameOff (Within lo q) t.mem := by
  have hcnt := hq.counters
  have htl := hq.tail
  have hrange := h.inRange hq
  cases a with
  | put p e | pop =>
    simp only [step] at hs
    split_ifs at hs
    cases hs
    exact .refl _ _
  | producer p =>
    have hput := hrange.put p
    change stepPut (q.shift lo) s p (s.producer p) = some t at hs
    change ∀ i, (s.producer p).access = some i → _ at hput
    cases hpc : s.producer p with
    | idle | panicked =>
      rw [hpc] at hs
      cases hs
    | lock e =>
      rw [hpc] at hs
      simp only [stepPut] at hs
      split_ifs at hs
      cases hs
      exact .refl _ _
    | loadHead e tail =>
      rw [hpc] at hs
      simp only [stepPut] at hs
      split_ifs at hs
      · cases hs
        exact .refl _ _
      · split at hs <;> cases hs <;> exact .refl _ _
    | loadTail e | unlock | unlockFull n =>
      rw [hpc] at hs
      cases hs
      exact .refl _ _
    | writeSeqID e off | writeOffset e off | writeStatus e off =>
      rw [hpc] at hs hput
      cases hs
      exact putWord_sameOff hq.toPlaced (hput _ rfl) p _ _
    | addTail e =>
      rw [hpc] at hs
      cases hs
      exact sameOff_increment htl _
  | consumer =>
    change stepPop (q.shift lo) s s.consumer = some t at hs
    cases hpc : s.consumer with
    | idle | panicked =>
      rw [hpc] at hs
      cases hs
    | loadHead =>
      rw [hpc] at hs
      cases hs
      exact .refl _ _
    | loadTail head =>
      rw [hpc] at hs
      simp only [stepPop] at hs
      split_ifs at hs
      · cases hs
        exact .refl _ _
      · split at hs <;> cases hs <;> exact .refl _ _
    | readSeqID off | readOffset off w | readStatus off w w' =>
      rw [hpc] at hs
      simp only [stepPop, State.popWord] at hs
      split at hs <;> cases hs <;> exact .refl _ _
    | addHead e =>
      rw [hpc] at hs
      cases hs
      exact sameOff_increment (by omega) _

/-- **Step** on the queue at `lo`. -/
theorem Inv.step_shift (hq : Sound q) (h : Inv arm q (s.view lo hi)) {a : Act P}
    (hok : Below (q.shift lo) s a) (hs : step (q.shift lo) s a = some t) :
    Inv arm q (t.view lo hi) := by
  have hview : step q (s.view lo hi) a = some (t.view lo hi) := by
    rw [← step_view, hs, Option.map_some]
  refine inv_step hq h (fun u hu => ?_) hview
  cases hview.symm.trans hu
  exact hok t hs

end Rest

/-! ## Creation and mapping -/

/-- What `createQueueFromBytes` leaves in its slice `m`. -/
structure Fresh (arm : Bool) (queueCap : ℕ) (m : Mem) (q : Queue) : Prop where
  mapped : mappingQueueFromBytes arm m = .ok q
  placed : Placed q
  cap : q.cap = queueCap
  len : q.len + 24 = u32 (24 + u32 (queueCap * 12))
  head : m.get64 q.head = 0
  tail : m.get64 q.tail = 0

section Create

variable {arm : Bool} {queueCap : ℕ} {bytes : ℕ → UInt8} {data m m' mem : Mem} {q q' : Queue}
  {creator : QueueManager}

theorem fresh_of_create (hc : queueCap < 2 ^ 32)
    (h : createQueueFromBytes arm data queueCap = .ok (m, q)) :
    Fresh arm queueCap m q ∧ m.len = data.len := by
  obtain ⟨hmap, hpl, hcap, hlen, hhead, htail⟩ := createQueueFromBytes_spec hc h
  refine ⟨⟨hmap, hpl, hcap, hlen, hhead, htail⟩, ?_⟩
  unfold createQueueFromBytes at h
  obtain ⟨q', -, hret⟩ := Buffer.Go.bind_ok.mp h
  cases hret
  rfl

/-- Only the header counts. -/
theorem Fresh.congr (h : Fresh arm queueCap m q) (hlen : m'.len = m.len) (hs : m.SameOn m' 0 24) :
    Fresh arm queueCap m' q := by
  have hcnt := h.placed.counters
  have htl := h.placed.tail
  refine ⟨?_, h.placed, h.cap, h.len, ?_, ?_⟩
  · rw [← h.mapped]
    exact mappingQueueFromBytes_congr hlen (Mem.get32_congr (hs.mono le_rfl (by omega)))
  · rw [← h.head]
    exact Mem.get64_congr (hs.mono (by omega) (by omega))
  · rw [← h.tail]
    exact Mem.get64_congr (hs.mono (by omega) (by omega))

/-- Below the bound the queue has the size that was asked for. -/
theorem Fresh.sound (h : Fresh arm queueCap m q) (hb : 24 + 12 * queueCap < 2 ^ 32) : Sound q := by
  refine ⟨h.placed, ?_⟩
  have hlen := h.len
  have hcap := h.cap
  unfold u32 at hlen
  omega

/-- All pointers of the queue are into its slice. -/
theorem Fresh.within (h : Fresh arm queueCap m q) {lo x : ℕ} (hx : (q.shift lo).Bytes x) :
    Within lo q x := by
  obtain ⟨-, -, -, hflag, -⟩ := mappingQueueFromBytes_ok h.mapped
  have hflag' : q.workingFlag + 4 ≤ 24 := by
    rw [hflag]
    split_ifs <;> omega
  have hstart := h.placed.start
  have hcnt := h.placed.counters
  have htl := h.placed.tail
  simp only [Queue.Bytes, Queue.shift] at hx
  unfold Within
  omega

/-- What `createQueueManager` returns when it returns. -/
theorem createQueueManager_spec (hc : queueCap < 2 ^ 32)
    (h : createQueueManager arm bytes queueCap = .ok (mem, creator)) :
    mem.len = 2 * countQueueMemSize queueCap ∧ ∃ q q',
      creator = ⟨q.shift 0, q'.shift (countQueueMemSize queueCap)⟩ ∧
      Fresh arm queueCap (mem.slice 0 (countQueueMemSize queueCap)) q ∧
      Fresh arm queueCap
        (mem.slice (countQueueMemSize queueCap) (2 * countQueueMemSize queueCap)) q' := by
  have hn : 24 ≤ countQueueMemSize queueCap := Nat.le_add_right _ _
  unfold createQueueManager queueCount at h
  generalize countQueueMemSize queueCap = n at *
  simp only [Nat.mul_comm n 2, Nat.mul_div_cancel_left n (Nat.succ_pos 1)] at h
  obtain ⟨⟨data, q⟩, hsend, h⟩ := Buffer.Go.bind_ok.mp h
  obtain ⟨⟨data', q'⟩, hrecv, h⟩ := Buffer.Go.bind_ok.mp h
  cases h
  obtain ⟨hf, hlen⟩ := fresh_of_create hc hsend
  obtain ⟨hf', hlen'⟩ := fresh_of_create hc hrecv
  have hl : data.len = n := hlen
  have hl' : data'.len = n := by
    rw [hlen', Mem.len_slice]
    omega
  refine ⟨rfl, q, q', rfl, hf.congr ?_ ?_, hf'.congr ?_ ?_⟩
  · rw [hl, Mem.len_slice, Nat.sub_zero]
  · -- the second queue is written behind the first
    have hfirst := @Mem.slice_paste (clearMem ⟨2 * n, bytes⟩) 0 n data
    have hsecond := @Mem.paste_sameOn ((clearMem ⟨2 * n, bytes⟩).paste 0 data) n data' (0 + 0) (0 + n)
      (.inr (by omega))
    exact (hfirst.mono le_rfl (by omega)).trans (hsecond.slice.mono le_rfl (by omega))
  · rw [hl', Mem.len_slice]
    omega
  · exact Mem.slice_paste.mono le_rfl (by omega)

theorem createQueueManager_ok (arm : Bool) (bytes : ℕ → UInt8) (hb : 24 + 12 * queueCap < 2 ^ 32) :
    ∃ mem creator, createQueueManager arm bytes queueCap = .ok (mem, creator) := by
  have hsize : countQueueMemSize queueCap * queueCount = 2 * countQueueMemSize queueCap :=
    Nat.mul_comm _ _
  have hcreate : ∀ data : Mem, data.len = countQueueMemSize queueCap →
      ∃ r, createQueueFromBytes arm data queueCap = .ok r := by
    intro data hlen
    obtain ⟨m, q, h⟩ := createQueueFromBytes_ok arm hlen hb
    exact ⟨(m, q), h⟩
  unfold createQueueManager
  rw [hsize]
  obtain ⟨r, hsend⟩ := hcreate ((clearMem ⟨2 * countQueueMemSize queueCap, bytes⟩).slice 0
    (2 * countQueueMemSize queueCap / 2)) (by rw [Mem.len_slice]; omega)
  obtain ⟨r', hrecv⟩ := hcreate (((clearMem ⟨2 * countQueueMemSize queueCap, bytes⟩).paste 0 r.1).slice
    (2 * countQueueMemSize queueCap / 2) (2 * countQueueMemSize queueCap))
    (by rw [Mem.len_slice]; omega)
  exact ⟨_, _, Buffer.Go.bind_ok.mpr ⟨r, hsend, Buffer.Go.bind_ok.mpr ⟨r', hrecv, rfl⟩⟩⟩

/-- The peer maps a memory whose halves can be mapped. -/
theorem mappingQueueManager_ok {n : ℕ} (hlen : mem.len = 2 * n) (harm : arm = true → 2 * n % 16 = 0)
    (h : mappingQueueFromBytes arm (mem.slice 0 n) = .ok q)
    (h' : mappingQueueFromBytes arm (mem.slice n (2 * n)) = .ok q') :
    mappingQueueManager arm mem = .ok (.ok ⟨q'.shift n, q.shift 0⟩) := by
  have hhalf : 2 * n / 2 = n := Nat.mul_div_cancel_left n (Nat.succ_pos 1)
  have hcheck : ¬(arm = true ∧ 2 * n % 16 ≠ 0) := fun hne => hne.2 (harm hne.1)
  unfold mappingQueueManager
  simp only [hlen, hhalf, h, h']
  rw [if_neg hcheck]
  rfl

end Create

/-! ## Both queues -/

section Both

variable {P : Type*} {arm : Bool} {n : ℕ} {q q' : Queue} {s t : Link P}

/-- Each queue is as if it had its half of the memory to itself. -/
structure LinkInv (arm : Bool) (n : ℕ) (q q' : Queue) (s : Link P) : Prop where
  mem : s.back.mem = s.out.mem
  len : s.out.mem.len = 2 * n
  out : Inv arm q (s.out.view 0 n)
  back : Inv arm q' (s.back.view n (2 * n))

/-- The two queues fill the memory. -/
structure Halves (n : ℕ) (q q' : Queue) : Prop where
  out : Sound q
  back : Sound q'
  outLen : 24 + q.len = n
  backLen : 24 + q'.len = n

theorem Fresh.halves {queueCap : ℕ} {m m' : Mem} (hf : Fresh arm queueCap m q)
    (hf' : Fresh arm queueCap m' q') (hb : 24 + 12 * queueCap < 2 ^ 32) :
    Halves (countQueueMemSize queueCap) q q' := by
  have hq := hf.sound hb
  have hq' := hf'.sound hb
  have hn : countQueueMemSize queueCap = 24 + 12 * queueCap := rfl
  refine ⟨hq, hq', ?_, ?_⟩
  · rw [hq.len, hf.cap]
    omega
  · rw [hq'.len, hf'.cap]
    omega

@[simp] theorem Act.queue_self (q : Queue) (a : Act P) : a.queue q q = q := by
  cases a <;> rfl

variable [DecidableEq P]

/-- **Step.** -/
theorem linkInv_step (hq : Halves n q q') (h : LinkInv arm n q q' s) {a : LinkAct P}
    (hok : Link.Below ⟨q.shift 0, q'.shift n⟩ ⟨q'.shift n, q.shift 0⟩ s a)
    (hs : Link.step ⟨q.shift 0, q'.shift n⟩ ⟨q'.shift n, q.shift 0⟩ s a = some t) :
    LinkInv arm n q q' t := by
  have hlen := hq.outLen
  have hlen' := hq.backLen
  cases a with
  | out a =>
    simp only [Link.step, Act.queue_self] at hs
    simp only [Link.Below, Act.queue_self] at hok
    obtain ⟨u, hu, rfl⟩ := Option.map_eq_some_iff.mp hs
    have hoff := step_sameOff hq.out h.out hu
    refine ⟨rfl, hoff.len.trans h.len, h.out.step_shift hq.out hok hu, ?_⟩
    rw [← h.mem] at hoff
    exact h.back.apart hq.back hoff (by omega)
  | back a =>
    simp only [Link.step, Act.queue_self] at hs
    simp only [Link.Below, Act.queue_self] at hok
    obtain ⟨u, hu, rfl⟩ := Option.map_eq_some_iff.mp hs
    have hoff := step_sameOff hq.back h.back hu
    rw [h.mem] at hoff
    exact ⟨rfl, hoff.len.trans h.len, h.out.apart hq.out hoff (by omega),
      h.back.step_shift hq.back hok hu⟩

/-- **Run.** -/
theorem linkInv_reachable {mem : Mem} {queueCap : ℕ} (hq : Halves n q q') (hlen : mem.len = 2 * n)
    (hf : Fresh arm queueCap (mem.slice 0 n) q) (hf' : Fresh arm queueCap (mem.slice n (2 * n)) q')
    (hr : (link P ⟨q.shift 0, q'.shift n⟩ ⟨q'.shift n, q.shift 0⟩ mem).ReachableWhen
      (Link.Below ⟨q.shift 0, q'.shift n⟩ ⟨q'.shift n, q.shift 0⟩) s) : LinkInv arm n q q' s := by
  apply hr.invariant (LinkInv arm n q q')
  · rintro s rfl
    exact ⟨rfl, hlen, inv_initial hf.mapped hf.head hf.tail, inv_initial hf'.mapped hf'.head hf'.tail⟩
  · intro s a t h hok hs
    exact linkInv_step hq h hok hs

/-- **Both directions are in order**: what one process puts the other pops, each queue as if it
    were alone. -/
theorem link_order {mem : Mem} {queueCap : ℕ} {bytes : ℕ → UInt8} {creator : QueueManager}
    (hb : 24 + 12 * queueCap < 2 ^ 32)
    (hcreate : createQueueManager arm bytes queueCap = .ok (mem, creator))
    (hr : (link P creator ⟨creator.recvQueue, creator.sendQueue⟩ mem).ReachableWhen
      (Link.Below creator ⟨creator.recvQueue, creator.sendQueue⟩) s) :
    s.out.pops <+: s.out.puts ∧ s.back.pops <+: s.back.puts := by
  obtain ⟨hlen, q, q', rfl, hf, hf'⟩ := createQueueManager_spec (by omega) hcreate
  have h := linkInv_reachable (hf.halves hf' hb) hlen hf hf' hr
  exact ⟨h.out.fifo.order, h.back.fifo.order⟩

end Both

/-! ## The result -/

/-- Below the bound the queues are consistent, if the size of the memory passes the peer's check. -/
theorem consistent_of_bound {arm : Bool} {queueCap : ℕ} (hb : 24 + 12 * queueCap < 2 ^ 32)
    (harm : arm = true → queueCap % 8 = 0) : Consistent arm queueCap := by
  intro bytes
  obtain ⟨mem, creator, hcreate⟩ := createQueueManager_ok arm bytes hb
  obtain ⟨hlen, q, q', rfl, hf, hf'⟩ := createQueueManager_spec (by omega) hcreate
  have hn : countQueueMemSize queueCap = 24 + 12 * queueCap := rfl
  have hq := hf.halves hf' hb
  generalize countQueueMemSize queueCap = n at *
  have hql := hq.outLen
  have hql' := hq.backLen
  have hmod : arm = true → 2 * n % 16 = 0 := fun h => by
    have := harm h
    omega
  refine ⟨mem, _, ⟨q'.shift n, q.shift 0⟩, hcreate, ⟨rfl, rfl, fun x hx => ?_, fun x hx hx' => ?_, ?_,
    ?_⟩, fun P _ s hr => ?_⟩
  · rcases hx with hx | hx
    · have := hf.within hx
      unfold Within at this
      omega
    · have := hf'.within hx
      unfold Within at this
      omega
  · have h := hf.within hx
    have h' := hf'.within hx'
    unfold Within at h h'
    omega
  · show q.len = 12 * queueCap
    omega
  · show q'.len = 12 * queueCap
    omega
  · have h := linkInv_reachable hq hlen hf hf' hr
    have hout := h.out.inRange hq.out
    have hback := h.back.inRange hq.back
    exact ⟨mappingQueueManager_ok h.len hmod h.out.mapped (h.mem ▸ h.back.mapped),
      ⟨hout.put, hout.pop, hout.no_panic⟩, ⟨hback.put, hback.pop, hback.no_panic⟩⟩

/-- **Main theorem.** The queues of an accepted configuration are consistent exactly if the end of
    a queue fits into 32 bits. -/
theorem queues_consistent_iff {p : Platform} {config : Config} (hv : verifyConfig p config = .ok ())
    (hcap : config.queueCap < 2 ^ 32) :
    Consistent p.isArmArch config.queueCap ↔
      queueHeaderLength + queueElementLen * config.queueCap < 2 ^ 32 := by
  obtain ⟨-, -, -, -, harm, -⟩ := (verifyConfig_ok_iff p config).mp hv
  constructor
  · intro h
    obtain ⟨mem, creator, peer, hcreate, hagreed, -⟩ := h fun _ => 0
    obtain ⟨-, q, q', rfl, hf, -⟩ := createQueueManager_spec hcap hcreate
    have hlen : q.len = 12 * config.queueCap := hagreed.sendLen
    have hend := hf.len
    have hlt := u32_lt (24 + u32 (config.queueCap * 12))
    show 24 + 12 * config.queueCap < 2 ^ 32
    omega
  · intro hb
    exact consistent_of_bound hb harm

theorem queues_consistent_default :
    verifyConfig ⟨"linux", "arm64"⟩ defaultConfig = .ok () ∧
      Consistent (Platform.isArmArch ⟨"linux", "arm64"⟩) defaultConfig.queueCap := by
  have hv : verifyConfig ⟨"linux", "arm64"⟩ defaultConfig = .ok () := by decide
  exact ⟨hv, (queues_consistent_iff hv (by decide)).mpr (by decide)⟩

instance {P : Type*} [DecidableEq P] (creator peer : QueueManager) (s : Link P) (a : LinkAct P) :
    Decidable (Link.Below creator peer s a) :=
  match a with
  | .out a => inferInstanceAs (Decidable (Ring.Below (a.queue _ _) s.out a))
  | .back a => inferInstanceAs (Decidable (Ring.Below (a.queue _ _) s.back a))

/-- A capacity at which the end of a queue is 32 modulo `2 ^ 32`. -/
def hugeQueues : Config := { defaultConfig with queueCap := 357913942 }

/-- The memory and the manager of the creator. -/
def hugeMem : Mem :=
  ((createQueueManager false (fun _ => 0) hugeQueues.queueCap).toOption.map Prod.fst).getD
    ⟨0, fun _ => 0⟩

def hugeCreator : QueueManager where
  sendQueue := wrappedQueue.shift 0
  recvQueue := wrappedQueue.shift (countQueueMemSize hugeQueues.queueCap)

def hugePeer : QueueManager := ⟨hugeCreator.recvQueue, hugeCreator.sendQueue⟩

/-- **Counterexample.** Creation and mapping succeed, with slices of 8 bytes, and the first `put`
    of the creator indexes behind its slice. Two capacities below that, the creation panics. -/
theorem put_indexes_outside_huge_queue :
    verifyConfig ⟨"linux", "amd64"⟩ hugeQueues = .ok () ∧
      createQueueManager false (fun _ => 0) hugeQueues.queueCap = .ok (hugeMem, hugeCreator) ∧
      mappingQueueManager false hugeMem = .ok (.ok hugePeer) ∧
      hugeCreator.sendQueue.len = 8 ∧ hugeCreator.recvQueue.len = 8 ∧
      (∃ s : Link Unit,
        (link Unit hugeCreator hugePeer hugeMem).ReachableWhen (Link.Below hugeCreator hugePeer) s ∧
        s.out.returns = [.panic .indexOutOfRange true] ∧ s.out.mutex = some ()) ∧
      ¬Consistent false hugeQueues.queueCap ∧
      createQueueManager false (fun _ => 0) (hugeQueues.queueCap - 2) = .error .sliceBounds := by
  have hcreate : createQueueManager false (fun _ => 0) hugeQueues.queueCap =
      .ok (hugeMem, hugeCreator) := rfl
  refine ⟨by decide, hcreate, rfl, rfl, rfl, ?_, ?_, rfl⟩
  · exact (link Unit hugeCreator hugePeer hugeMem).exists_reachableWhen_of_run
      (Link.Below hugeCreator hugePeer) ⟨initial Unit hugeMem, initial Unit hugeMem⟩
      (.out (.put () ⟨1, 2, 3⟩) :: List.replicate 6 (.out (.producer ()))) _ rfl
      (by decide +kernel) (by decide +kernel)
  · intro h
    obtain ⟨mem, creator, peer, hcreate', hagreed, -⟩ := h fun _ => 0
    cases hcreate.symm.trans hcreate'
    exact absurd hagreed.sendLen (by decide)

end Shmipc.Ring
