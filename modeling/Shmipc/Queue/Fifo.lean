import Shmipc.Common.RingQueue
import Shmipc.Queue.Ring

/-!
# The IO queue is a bounded FIFO

The counters say which elements are in the queue, and the three words of element
number `i` stand in slot `i % cap`: producers write slot `tail` only, while
`tail < head + cap`, and the consumer reads slot `head` only, while `head < tail`,
so the two never meet.

`Fifo` is what the callers rely on. It needs the end of `queueBytesOnMemory` to be
where `countQueueMemSize` put it, and `queueHeaderLength + cap*queueElementLen` is
computed in `uint32`: from capacity 357913940 on it wraps around, and either the
mapping panics or a later `put` indexes behind the shortened slice, with its mutex
locked and part of the element written.

* `Contents`: what the memory says about the elements put and popped.
* `inv_step`, `inv_reachable`: the invariant, for a queue whose end did not wrap.
* `put_all`: from a wrapped queue a run of puts leads to the panic.
* Main result: `queue_fifo`.
-/

namespace Shmipc.Ring

open Common
open Buffer (Go Panic)
open Shmipc.Queue (QueueElement queueElementLen)

/-- What the queue promises its callers. -/
structure Fifo {P : Type*} (arm : Bool) (q : Queue) (c : ℕ) (s : State P) : Prop where
  /-- A process that maps the memory gets the same queue. -/
  mapped : mappingQueueFromBytes arm s.mem = .ok q
  order : s.pops <+: s.puts
  size_nonneg : 0 ≤ q.size s.mem
  size_le : q.size s.mem ≤ c
  full : ∀ (n : ℤ) w, .full n w ∈ s.returns → n = c ∧ w = false
  empty : ∀ (n : ℤ) w, .empty n w ∈ s.returns → n = 0 ∧ w = false
  no_panic : ∀ x w, .panic x w ∉ s.returns

/-! ## Slots -/

/-- The counters stand in the header, behind the capacity, and the elements behind
    the header. -/
structure Placed (q : Queue) : Prop where
  start : q.start = 24
  head : 4 ≤ q.head
  counters : q.head + 8 ≤ q.tail
  tail : q.tail + 8 ≤ 24

/-- A queue whose end did not wrap around. -/
structure Sound (q : Queue) : Prop extends Placed q where
  len : q.len = q.cap * 12

/-- The offset of slot `i` in `queueBytesOnMemory`. -/
def Queue.slotOffset (q : Queue) (i : ℕ) : ℕ := i % q.cap * 12

/-- The address of slot `i`. -/
def Queue.slot (q : Queue) (i : ℕ) : ℕ := q.start + q.slotOffset i

/-- Slot `i` holds the words of `e`. -/
def Holds (q : Queue) (m : Mem) (i : ℕ) (e : QueueElement) : Prop :=
  m.get32 (q.slot i) = e.seqID ∧ m.get32 (q.slot i + 4) = e.offsetInShmBuf ∧
    m.get32 (q.slot i + 8) = e.status

section Slots

variable {q : Queue} {m m' : Mem} {i j : ℕ} {e : QueueElement}

theorem Placed.slot_ge (hq : Placed q) (i : ℕ) : 24 ≤ q.slot i := by
  unfold Queue.slot
  have := hq.start
  omega

/-- A word written to a slot is no part of a counter. -/
theorem Placed.counters_set32 (hq : Placed q) (m : Mem) (i k v : ℕ) :
    (m.set32 (q.slot i + k) v).get64 q.head = m.get64 q.head ∧
      (m.set32 (q.slot i + k) v).get64 q.tail = m.get64 q.tail := by
  have hge := hq.slot_ge i
  have hcnt := hq.counters
  have htl := hq.tail
  exact ⟨Mem.get64_set32_of_ne (by omega), Mem.get64_set32_of_ne (by omega)⟩

theorem queueOffset_ok (hc : 0 < q.cap) (i : ℕ) : q.queueOffset i = .ok (q.slotOffset i : ℤ) := by
  unfold Queue.queueOffset Queue.slotOffset
  rw [if_neg (by omega), ← Int.ofNat_tmod]
  rfl

theorem index_ok {k : ℕ} (h : q.slotOffset i + k < q.len) :
    q.index (q.slotOffset i + k : ℕ) = .ok (q.slot i + k) := by
  unfold Queue.index Queue.slot
  rw [if_pos (by omega), Int.toNat_natCast, Nat.add_assoc]

/-- The three words of a slot are inside the queue. -/
theorem Sound.slotOffset_lt (hq : Sound q) (hc : 0 < q.cap) (i : ℕ) : q.slotOffset i + 12 ≤ q.len := by
  unfold Queue.slotOffset
  rw [hq.len]
  have hlt := Nat.mod_lt i hc
  calc i % q.cap * 12 + 12 = (i % q.cap + 1) * 12 := by ring
    _ ≤ q.cap * 12 := Nat.mul_le_mul_right _ hlt

theorem slot_apart (hne : i % q.cap ≠ j % q.cap) :
    q.slot i + 12 ≤ q.slot j ∨ q.slot j + 12 ≤ q.slot i := by
  unfold Queue.slot Queue.slotOffset
  omega

theorem Holds.congr (h : Holds q m i e) (hs : m.SameOn m' (q.slot i) (q.slot i + 12)) :
    Holds q m' i e := by
  obtain ⟨h0, h4, h8⟩ := h
  refine ⟨?_, ?_, ?_⟩
  · rw [Mem.get32_congr (hs.mono le_rfl (by omega)), h0]
  · rw [Mem.get32_congr (hs.mono (by omega) (by omega)), h4]
  · rw [Mem.get32_congr (hs.mono (by omega) (by omega)), h8]

end Slots

/-! ## The contents of the queue -/

/-- The counters and slots of memory `m` stand for the elements `puts` and `pops`. -/
structure Contents (q : Queue) (m : Mem) (puts pops : List QueueElement) : Prop where
  head_le : m.get64 q.head ≤ m.get64 q.tail
  tail_le : m.get64 q.tail ≤ m.get64 q.head + q.cap
  below : m.get64 q.tail < 2 ^ 63
  length : puts.length = m.get64 q.tail
  pops_eq : pops = puts.take (m.get64 q.head)
  stored : ∀ i e, m.get64 q.head ≤ i → puts[i]? = some e → Holds q m i e

section Contents

variable {q : Queue} {m m' : Mem} {puts pops : List QueueElement} {e : QueueElement}

theorem Contents.loads (h : Contents q m puts pops) :
    q.loadHead m = m.get64 q.head ∧ q.loadTail m = m.get64 q.tail ∧
      q.size m = m.get64 q.tail - m.get64 q.head := by
  have hh : q.loadHead m = m.get64 q.head :=
    toInt64_of_lt (lt_of_le_of_lt h.head_le h.below)
  have ht : q.loadTail m = m.get64 q.tail := toInt64_of_lt h.below
  refine ⟨hh, ht, ?_⟩
  unfold Queue.size
  rw [hh, ht]

/-- The counters and slots are a ring. -/
theorem contents_iff : Contents q m puts pops ↔
    RingQueue.Window q.cap (Holds q m) (m.get64 q.head) (m.get64 q.tail) puts pops ∧
      m.get64 q.tail < 2 ^ 63 :=
  ⟨fun h => ⟨⟨h.head_le, h.tail_le, h.length, h.pops_eq, h.stored⟩, h.below⟩,
    fun h => ⟨h.1.head_le, h.1.tail_le, h.2, h.1.length, h.1.popped_eq, h.1.stored⟩⟩

theorem Contents.lt_tail (h : Contents q m puts pops) {i : ℕ} (he : puts[i]? = some e) :
    i < m.get64 q.tail := (contents_iff.mp h).1.lt_tail he

/-- Writing to the slot at `tail` while there is room. -/
theorem Contents.write (hq : Sound q) (h : Contents q m puts pops)
    (hroom : m.get64 q.tail < m.get64 q.head + q.cap) {k v : ℕ} (hk : k ≤ 8) :
    Contents q (m.set32 (q.slot (m.get64 q.tail) + k) v) puts pops := by
  obtain ⟨eh, et⟩ := hq.counters_set32 m (m.get64 q.tail) k v
  obtain ⟨hw, hb⟩ := contents_iff.mp h
  rw [contents_iff, eh, et]
  refine ⟨hw.write hroom fun i e hne he => he.congr (Mem.set32_sameOn ?_), hb⟩
  have hap := slot_apart hne
  omega

theorem increment_head (hq : Placed q) (hb : m.get64 q.head + 1 < 2 ^ 64) :
    (increment m q.head).get64 q.head = m.get64 q.head + 1 ∧
      (increment m q.head).get64 q.tail = m.get64 q.tail := by
  have hcnt := hq.counters
  unfold increment
  rw [Nat.mod_eq_of_lt hb]
  exact ⟨Mem.get64_set64 hb, Mem.get64_set64_of_ne (by omega)⟩

theorem increment_tail (hq : Placed q) (hb : m.get64 q.tail + 1 < 2 ^ 64) :
    (increment m q.tail).get64 q.tail = m.get64 q.tail + 1 ∧
      (increment m q.tail).get64 q.head = m.get64 q.head := by
  have hcnt := hq.counters
  unfold increment
  rw [Nat.mod_eq_of_lt hb]
  exact ⟨Mem.get64_set64 hb, Mem.get64_set64_of_ne (by omega)⟩

/-- A counter is no part of a slot. -/
theorem Holds.increment (hq : Sound q) {i a : ℕ} (ha : a + 8 ≤ 24) (h : Holds q m i e) :
    Holds q (increment m a) i e := by
  have hge := hq.slot_ge i
  apply h.congr
  apply Mem.set64_sameOn
  omega

/-- The increment of `tail` puts the element written to the slot. -/
theorem Contents.put (hq : Sound q) (h : Contents q m puts pops)
    (hroom : m.get64 q.tail < m.get64 q.head + q.cap) (he : Holds q m (m.get64 q.tail) e)
    (hb : m.get64 q.tail + 1 < 2 ^ 63) : Contents q (increment m q.tail) (puts ++ [e]) pops := by
  obtain ⟨et, eh⟩ := increment_tail hq.toPlaced (m := m) (by omega)
  obtain ⟨hw, -⟩ := contents_iff.mp h
  rw [contents_iff, eh, et]
  exact ⟨(hw.push hroom he).mono fun i e hh => hh.increment hq hq.tail, hb⟩

/-- The increment of `head` takes the element at `head` out. -/
theorem Contents.pop (hq : Sound q) (h : Contents q m puts pops)
    (he : puts[m.get64 q.head]? = some e) : Contents q (increment m q.head) puts (pops ++ [e]) := by
  have hlt := h.lt_tail he
  have hb := h.below
  have htl := h.tail_le
  obtain ⟨eh, et⟩ := increment_head hq.toPlaced (m := m) (by omega)
  have hcnt := hq.counters
  have htail := hq.tail
  obtain ⟨hw, -⟩ := contents_iff.mp h
  rw [contents_iff, eh, et]
  exact ⟨(hw.pop he).mono fun i e hh => hh.increment hq (by omega), hb⟩

end Contents

/-! ## The invariant -/

/-- What holds of a producer at `pc`: `locked` says that it owns the mutex, `wrote`
    that its call has written. -/
def PutOk (q : Queue) (m : Mem) (locked : Prop) (wrote : Bool) : PutPc → Prop
  | .idle => True
  | .lock e => Fits e ∧ wrote = false
  | .loadTail e => locked ∧ Fits e ∧ wrote = false
  | .loadHead e tail => locked ∧ Fits e ∧ wrote = false ∧ tail = m.get64 q.tail
  | .writeSeqID e off =>
    locked ∧ Fits e ∧ m.get64 q.tail < m.get64 q.head + q.cap ∧ off = q.slotOffset (m.get64 q.tail)
  | .writeOffset e off =>
    locked ∧ Fits e ∧ m.get64 q.tail < m.get64 q.head + q.cap ∧
      off = q.slotOffset (m.get64 q.tail) ∧ m.get32 (q.slot (m.get64 q.tail)) = e.seqID
  | .writeStatus e off =>
    locked ∧ Fits e ∧ m.get64 q.tail < m.get64 q.head + q.cap ∧
      off = q.slotOffset (m.get64 q.tail) ∧ m.get32 (q.slot (m.get64 q.tail)) = e.seqID ∧
      m.get32 (q.slot (m.get64 q.tail) + 4) = e.offsetInShmBuf
  | .addTail e =>
    locked ∧ m.get64 q.tail < m.get64 q.head + q.cap ∧ Holds q m (m.get64 q.tail) e
  | .unlock => locked
  | .unlockFull n => locked ∧ n = q.cap ∧ wrote = false
  | .panicked => False

/-- What holds of the consumer at `pc`. -/
def PopOk (q : Queue) (m : Mem) (puts : List QueueElement) (wrote : Bool) : PopPc → Prop
  | .idle => True
  | .loadHead => wrote = false
  | .loadTail head => wrote = false ∧ head = m.get64 q.head
  | .readSeqID off => off = q.slotOffset (m.get64 q.head) ∧ ∃ e, puts[m.get64 q.head]? = some e
  | .readOffset off seqID =>
    off = q.slotOffset (m.get64 q.head) ∧ ∃ e, puts[m.get64 q.head]? = some e ∧ seqID = e.seqID
  | .readStatus off seqID offset =>
    off = q.slotOffset (m.get64 q.head) ∧
      ∃ e, puts[m.get64 q.head]? = some e ∧ seqID = e.seqID ∧ offset = e.offsetInShmBuf
  | .addHead e => puts[m.get64 q.head]? = some e
  | .panicked => False

/-- What holds of a call that ended. -/
def ReturnOk (q : Queue) : Return → Prop
  | .put _ | .pop _ => True
  | .full n w => n = q.cap ∧ w = false
  | .empty n w => n = 0 ∧ w = false
  | .panic .. => False

structure Inv {P : Type*} (arm : Bool) (q : Queue) (s : State P) : Prop where
  mapped : mappingQueueFromBytes arm s.mem = .ok q
  contents : Contents q s.mem s.puts s.pops
  producers : ∀ p, PutOk q s.mem (s.mutex = some p) (s.putWrote p) (s.producer p)
  consumer : PopOk q s.mem s.puts s.popWrote s.consumer
  returns : ∀ r ∈ s.returns, ReturnOk q r

section Frames

variable {q : Queue} {m m' : Mem} {locked locked' : Prop} {wrote : Bool}

/-- A producer without the mutex does not depend on the memory. -/
theorem PutOk.of_not_locked {pc : PutPc} (h : PutOk q m locked wrote pc) (hl : ¬locked) :
    PutOk q m' locked' wrote pc := by
  cases pc with
  | idle => trivial
  | lock e => exact h
  | unlock => exact absurd h hl
  | panicked => exact h
  | loadTail | loadHead | writeSeqID | writeOffset | writeStatus | addTail | unlockFull =>
    exact absurd h.1 hl

/-- A producer depends on `tail`, on the room and, if there is room, on the slot at `tail`. -/
theorem PutOk.mono {pc : PutPc} (h : PutOk q m locked wrote pc)
    (hh : m.get64 q.head ≤ m'.get64 q.head) (ht : m'.get64 q.tail = m.get64 q.tail)
    (hs : m.get64 q.tail < m.get64 q.head + q.cap →
      m.SameOn m' (q.slot (m.get64 q.tail)) (q.slot (m.get64 q.tail) + 12)) :
    PutOk q m' locked wrote pc := by
  cases pc with
  | idle => trivial
  | lock e | loadTail e | unlock | unlockFull n | panicked => exact h
  | loadHead e tail => unfold PutOk; rw [ht]; exact h
  | writeSeqID e off =>
    obtain ⟨hl, hf, hroom, hoff⟩ := h
    unfold PutOk
    rw [ht]
    exact ⟨hl, hf, by omega, hoff⟩
  | writeOffset e off =>
    obtain ⟨hl, hf, hroom, hoff, h0⟩ := h
    unfold PutOk
    rw [ht, Mem.get32_congr ((hs hroom).mono le_rfl (by omega))]
    exact ⟨hl, hf, by omega, hoff, h0⟩
  | writeStatus e off =>
    obtain ⟨hl, hf, hroom, hoff, h0, h4⟩ := h
    unfold PutOk
    rw [ht, Mem.get32_congr ((hs hroom).mono le_rfl (by omega)),
      Mem.get32_congr ((hs hroom).mono (by omega) (by omega))]
    exact ⟨hl, hf, by omega, hoff, h0, h4⟩
  | addTail e =>
    obtain ⟨hl, hroom, he⟩ := h
    unfold PutOk
    rw [ht]
    exact ⟨hl, by omega, he.congr (hs hroom)⟩

/-- A pop leaves more room for the producer. -/
theorem PutOk.increment_head (hq : Sound q) {pc : PutPc} (h : PutOk q m locked wrote pc)
    (hb : m.get64 q.head + 1 < 2 ^ 64) : PutOk q (increment m q.head) locked wrote pc := by
  obtain ⟨eh, et⟩ := Ring.increment_head hq.toPlaced hb
  refine h.mono (by omega) et fun _ => Mem.set64_sameOn ?_
  have hcnt := hq.counters
  have htail := hq.tail
  have hge := hq.slot_ge (m.get64 q.tail)
  omega

/-- The consumer depends on `head` and the element there. -/
theorem PopOk.congr {puts puts' : List QueueElement} {pc : PopPc} (h : PopOk q m puts wrote pc)
    (hh : m'.get64 q.head = m.get64 q.head)
    (hp : ∀ e, puts[m.get64 q.head]? = some e → puts'[m.get64 q.head]? = some e) :
    PopOk q m' puts' wrote pc := by
  cases pc with
  | idle => trivial
  | loadHead => exact h
  | loadTail head => unfold PopOk; rw [hh]; exact h
  | readSeqID off =>
    obtain ⟨hoff, e, he⟩ := h
    unfold PopOk
    rw [hh]
    exact ⟨hoff, e, hp e he⟩
  | readOffset off seqID =>
    obtain ⟨hoff, e, he, h0⟩ := h
    unfold PopOk
    rw [hh]
    exact ⟨hoff, e, hp e he, h0⟩
  | readStatus off seqID offset =>
    obtain ⟨hoff, e, he, h0, h4⟩ := h
    unfold PopOk
    rw [hh]
    exact ⟨hoff, e, hp e he, h0, h4⟩
  | addHead e => unfold PopOk; rw [hh]; exact hp e h
  | panicked => exact h

end Frames

section Records

variable {P : Type*} {arm : Bool} {q : Queue} {s t : State P}

theorem owns_of_locked {p : P} (hm : s.mutex = some p) (p' : P) (hne : p' ≠ p) :
    s.mutex ≠ some p' := by
  rw [hm]
  intro he
  exact hne (Option.some.inj he).symm

theorem puts_append (s : State P) (r : Return) :
    { s with returns := s.returns ++ [r] }.puts = s.puts ++ r.putElement.toList := by
  unfold State.puts
  rw [List.filterMap_append, List.filterMap_cons, List.filterMap_nil]
  cases r.putElement <;> rfl

theorem pops_append (s : State P) (r : Return) :
    { s with returns := s.returns ++ [r] }.pops = s.pops ++ r.popElement.toList := by
  unfold State.pops
  rw [List.filterMap_append, List.filterMap_cons, List.filterMap_nil]
  cases r.popElement <;> rfl

theorem returns_append (h : Inv arm q s) {r : Return} (hr : ReturnOk q r) :
    ∀ r' ∈ s.returns ++ [r], ReturnOk q r' := by
  intro r' hr'
  rcases List.mem_append.mp hr' with hr' | hr'
  · exact h.returns r' hr'
  · rw [List.mem_singleton.mp hr']
    exact hr

theorem Inv.record (h : Inv arm q s) {r : Return} (hr : ReturnOk q r)
    (hput : r.putElement = none) (hpop : r.popElement = none) :
    Inv arm q { s with returns := s.returns ++ [r] } := by
  have hputs : { s with returns := s.returns ++ [r] }.puts = s.puts := by
    rw [puts_append, hput]
    exact List.append_nil _
  have hpops : { s with returns := s.returns ++ [r] }.pops = s.pops := by
    rw [pops_append, hpop]
    exact List.append_nil _
  constructor
  · exact h.mapped
  · rw [hputs, hpops]
    exact h.contents
  · exact h.producers
  · rw [hputs]
    exact h.consumer
  · exact returns_append h hr

/-- A step of the consumer that leaves the memory alone. -/
theorem Inv.popQuiet (h : Inv arm q s) {pc : PopPc} (hpc : PopOk q s.mem s.puts s.popWrote pc) :
    Inv arm q { s with consumer := pc } where
  mapped := h.mapped
  contents := h.contents
  producers := h.producers
  consumer := hpc
  returns := h.returns

theorem Inv.popWord (hq : Sound q) (h : Inv arm q s) {e : QueueElement}
    (he : s.puts[s.mem.get64 q.head]? = some e) {k : ℕ} (hk : k ≤ 8) {pc : ℕ → PopPc}
    (hpc : PopOk q s.mem s.puts s.popWrote (pc (s.mem.get32 (q.slot (s.mem.get64 q.head) + k)))) :
    Inv arm q (s.popWord q (q.slotOffset (s.mem.get64 q.head) + k : ℕ) pc) := by
  have hlt := h.contents.lt_tail he
  have htail := h.contents.tail_le
  have hin := hq.slotOffset_lt (q := q) (by omega) (s.mem.get64 q.head)
  rw [State.popWord_ok _ _ (index_ok (by omega))]
  exact h.popQuiet hpc

theorem Inv.addHead (hq : Sound q) (h : Inv arm q s) {e : QueueElement}
    (he : s.puts[s.mem.get64 q.head]? = some e) :
    Inv arm q { s with
      consumer := .idle
      mem := increment s.mem q.head
      popWrote := true
      returns := s.returns ++ [.pop e] } := by
  have hlt := h.contents.lt_tail he
  have hb := h.contents.below
  have hhd := hq.head
  constructor
  · rw [← h.mapped]
    exact mappingQueueFromBytes_congr rfl (Mem.get32_set64_of_ne (by omega))
  · show Contents q _ (State.puts { s with returns := s.returns ++ [.pop e] })
      (State.pops { s with returns := s.returns ++ [.pop e] })
    rw [puts_append, pops_append, show (Return.pop e).putElement.toList = [] from rfl,
      List.append_nil]
    exact h.contents.pop hq he
  · intro p
    exact (h.producers p).increment_head hq (by omega)
  · trivial
  · exact returns_append h trivial

/-- **Step of the consumer.** -/
theorem inv_stepPop (hq : Sound q) (h : Inv arm q s) (hs : stepPop q s s.consumer = some t) :
    Inv arm q t := by
  have hp := h.consumer
  obtain ⟨hlh, hlt, hsz⟩ := h.contents.loads
  have hhead := h.contents.head_le
  have htail := h.contents.tail_le
  cases hpc : s.consumer with
  | idle | panicked => rw [hpc] at hs; cases hs
  | loadHead =>
    rw [hpc] at hs hp
    cases hs
    exact h.popQuiet ⟨hp, hlh⟩
  | loadTail head =>
    rw [hpc] at hs hp
    obtain ⟨hw, rfl⟩ := hp
    simp only [stepPop, hlt] at hs
    split at hs
    · rename_i hge
      cases hs
      have hidle : Inv arm q { s with consumer := .idle } := h.popQuiet trivial
      refine hidle.record (r := .empty (q.size s.mem) s.popWrote) ⟨?_, hw⟩ rfl rfl
      rw [hsz]
      omega
    · rw [queueOffset_ok (by omega)] at hs
      cases hs
      apply h.popQuiet
      have hlen := h.contents.length
      exact ⟨rfl, _, List.getElem?_eq_getElem (by omega)⟩
  | readSeqID off =>
    rw [hpc] at hs hp
    cases hs
    obtain ⟨rfl, e, he⟩ := hp
    obtain ⟨h0, -, -⟩ := h.contents.stored _ e le_rfl he
    apply h.popWord hq he (k := 0) (by omega)
    exact ⟨rfl, e, he, h0⟩
  | readOffset off seqID =>
    rw [hpc] at hs hp
    cases hs
    obtain ⟨rfl, e, he, h0⟩ := hp
    obtain ⟨-, h4, -⟩ := h.contents.stored _ e le_rfl he
    apply h.popWord hq he (k := 4) (by omega)
    exact ⟨rfl, e, he, h0, h4⟩
  | readStatus off seqID offset =>
    rw [hpc] at hs hp
    cases hs
    obtain ⟨rfl, e, he, h0, h4⟩ := hp
    obtain ⟨-, -, h8⟩ := h.contents.stored _ e le_rfl he
    apply h.popWord hq he (k := 8) (by omega)
    show s.puts[s.mem.get64 q.head]? = some _
    rw [he, h0, h4, h8]
  | addHead e =>
    rw [hpc] at hs hp
    cases hs
    exact h.addHead hq hp

/-- The invariant gives what the callers rely on. -/
theorem Inv.fifo (h : Inv arm q s) : Fifo arm q q.cap s := by
  obtain ⟨-, -, hsz⟩ := h.contents.loads
  have hhead := h.contents.head_le
  have htail := h.contents.tail_le
  constructor
  · exact h.mapped
  · rw [h.contents.pops_eq]
    exact List.take_prefix _ _
  · rw [hsz]; omega
  · rw [hsz]; omega
  · intro n w hr
    exact h.returns _ hr
  · intro n w hr
    exact h.returns _ hr
  · intro x w hr
    exact h.returns _ hr

end Records

section Steps

variable {P : Type*} [DecidableEq P] {arm : Bool} {q : Queue} {s t : State P} {p : P}

/-- Only the producer that owns the mutex, or is about to take it, moves. -/
theorem producers_update {m m' : Mem} {mutex mutex' : Option P} {w : P → Bool} {f : P → PutPc}
    {v : Bool} {pc : PutPc} (h : ∀ p', PutOk q m (mutex = some p') (w p') (f p'))
    (hown : ∀ p', p' ≠ p → mutex ≠ some p') (hpc : PutOk q m' (mutex' = some p) v pc) (p' : P) :
    PutOk q m' (mutex' = some p') (Function.update w p v p') (Function.update f p pc p') := by
  by_cases he : p' = p
  · subst he
    rw [Function.update_self, Function.update_self]
    exact hpc
  · rw [Function.update_of_ne he, Function.update_of_ne he]
    exact (h p').of_not_locked (hown p' he)

/-- A producer's step that leaves the memory alone. -/
theorem Inv.putQuiet (h : Inv arm q s) {mutex : Option P} {pc : PutPc}
    (hown : ∀ p', p' ≠ p → s.mutex ≠ some p')
    (hpc : PutOk q s.mem (mutex = some p) (s.putWrote p) pc) :
    Inv arm q { s.setPut p pc with mutex := mutex } where
  mapped := h.mapped
  contents := h.contents
  producers := by
    have := producers_update h.producers hown hpc
    rwa [Function.update_eq_self] at this
  consumer := h.consumer
  returns := h.returns

theorem Inv.putWord (hq : Sound q) (h : Inv arm q s) (hm : s.mutex = some p)
    (hroom : s.mem.get64 q.tail < s.mem.get64 q.head + q.cap) {k v : ℕ} (hk : k ≤ 8) {pc : PutPc}
    (hpc : PutOk q (s.mem.set32 (q.slot (s.mem.get64 q.tail) + k) v) (s.mutex = some p) true pc) :
    Inv arm q (s.putWord q p (q.slotOffset (s.mem.get64 q.tail) + k : ℕ) v pc) := by
  have hhead := h.contents.head_le
  have hin := hq.slotOffset_lt (q := q) (by omega) (s.mem.get64 q.tail)
  have hge := hq.slot_ge (s.mem.get64 q.tail)
  rw [State.putWord_ok _ _ _ _ (index_ok (by omega))]
  constructor
  · rw [← h.mapped]
    exact mappingQueueFromBytes_congr rfl (Mem.get32_set32_of_ne (by omega))
  · exact h.contents.write hq hroom hk
  · exact producers_update h.producers (owns_of_locked hm) hpc
  · exact h.consumer.congr (hq.counters_set32 ..).1 fun _ he => he
  · exact h.returns

theorem Inv.addTail (hq : Sound q) (h : Inv arm q s) {e : QueueElement} (hm : s.mutex = some p)
    (hroom : s.mem.get64 q.tail < s.mem.get64 q.head + q.cap)
    (he : Holds q s.mem (s.mem.get64 q.tail) e) (hb : s.mem.get64 q.tail + 1 < 2 ^ 63) :
    Inv arm q { s.setPut p .unlock with
      mem := increment s.mem q.tail
      putWrote := Function.update s.putWrote p true
      returns := s.returns ++ [.put e] } := by
  have hcnt := hq.counters
  have hhd := hq.head
  constructor
  · rw [← h.mapped]
    exact mappingQueueFromBytes_congr rfl (Mem.get32_set64_of_ne (by omega))
  · show Contents q _ (State.puts { s with returns := s.returns ++ [.put e] })
      (State.pops { s with returns := s.returns ++ [.put e] })
    rw [puts_append, pops_append, show (Return.put e).popElement.toList = [] from rfl,
      List.append_nil]
    exact h.contents.put hq hroom he hb
  · exact producers_update h.producers (owns_of_locked hm) hm
  · show PopOk q _ (State.puts { s with returns := s.returns ++ [.put e] }) _ _
    rw [puts_append]
    apply h.consumer.congr (Mem.get64_set64_of_ne (by omega))
    intro e' he'
    rw [List.getElem?_append_left (List.getElem?_eq_some_iff.mp he').1]
    exact he'
  · exact returns_append h trivial

/-- **Step of a producer.** -/
theorem inv_stepPut (hq : Sound q) (h : Inv arm q s) (hok : Below q s (.producer p))
    (hs : stepPut q s p (s.producer p) = some t) : Inv arm q t := by
  have hp := h.producers p
  obtain ⟨hlh, hlt, hsz⟩ := h.contents.loads
  have hhead := h.contents.head_le
  have htail := h.contents.tail_le
  cases hpc : s.producer p with
  | idle | panicked => rw [hpc] at hs; cases hs
  | lock e =>
    rw [hpc] at hs hp
    simp only [stepPut] at hs
    split at hs
    · rename_i hfree
      cases hs
      apply h.putQuiet
      · intro p' _ he
        rw [he] at hfree
        cases hfree
      · exact ⟨rfl, hp⟩
    · cases hs
  | loadTail e =>
    rw [hpc] at hs hp
    cases hs
    obtain ⟨hm, hf, hw⟩ := hp
    exact h.putQuiet (owns_of_locked hm) ⟨hm, hf, hw, hlt⟩
  | loadHead e tail =>
    rw [hpc] at hs hp
    obtain ⟨hm, hf, hw, rfl⟩ := hp
    simp only [stepPut, hlh] at hs
    split at hs
    · cases hs
      apply h.putQuiet (owns_of_locked hm)
      refine ⟨hm, ?_, hw⟩
      rw [hsz]
      omega
    · rw [queueOffset_ok (by omega)] at hs
      cases hs
      apply h.putQuiet (owns_of_locked hm)
      exact ⟨hm, hf, by omega, rfl⟩
  | writeSeqID e off =>
    rw [hpc] at hs hp
    cases hs
    obtain ⟨hm, hf, hroom, rfl⟩ := hp
    apply h.putWord hq hm hroom (k := 0) (by omega)
    obtain ⟨eh, et⟩ := hq.counters_set32 s.mem (s.mem.get64 q.tail) 0 e.seqID
    unfold PutOk
    rw [eh, et, Nat.add_zero, Mem.get32_set32_of_lt hf.1]
    exact ⟨hm, hf, hroom, rfl, rfl⟩
  | writeOffset e off =>
    rw [hpc] at hs hp
    cases hs
    obtain ⟨hm, hf, hroom, rfl, h0⟩ := hp
    apply h.putWord hq hm hroom (k := 4) (by omega)
    obtain ⟨eh, et⟩ := hq.counters_set32 s.mem (s.mem.get64 q.tail) 4 e.offsetInShmBuf
    unfold PutOk
    rw [eh, et, Mem.get32_set32_of_lt hf.2.1, Mem.get32_set32_of_ne (by omega)]
    exact ⟨hm, hf, hroom, rfl, h0, rfl⟩
  | writeStatus e off =>
    rw [hpc] at hs hp
    cases hs
    obtain ⟨hm, hf, hroom, rfl, h0, h4⟩ := hp
    apply h.putWord hq hm hroom (k := 8) (by omega)
    obtain ⟨eh, et⟩ := hq.counters_set32 s.mem (s.mem.get64 q.tail) 8 e.status
    unfold PutOk Holds
    rw [eh, et, Mem.get32_set32_of_lt hf.2.2, Mem.get32_set32_of_ne (by omega),
      Mem.get32_set32_of_ne (by omega)]
    exact ⟨hm, hroom, h0, h4, rfl⟩
  | addTail e =>
    rw [hpc] at hs hp
    obtain ⟨hm, hroom, he⟩ := hp
    have hbelow := h.contents.below
    have hb := (hok t (by rw [step, hpc]; exact hs)).2
    cases hs
    apply h.addTail hq hm hroom he
    show s.mem.get64 q.tail + 1 < 2 ^ 63
    have hinc := (increment_tail hq.toPlaced (m := s.mem) (by omega)).1
    change (increment s.mem q.tail).get64 q.tail < 2 ^ 63 at hb
    rwa [hinc] at hb
  | unlock =>
    rw [hpc] at hs hp
    cases hs
    exact h.putQuiet (owns_of_locked hp) trivial
  | unlockFull n =>
    rw [hpc] at hs hp
    cases hs
    obtain ⟨hm, hn, hw⟩ := hp
    have hidle : Inv arm q { s.setPut p .idle with mutex := none } :=
      h.putQuiet (owns_of_locked hm) trivial
    exact hidle.record (r := .full n (s.putWrote p)) ⟨hn, hw⟩ rfl rfl

theorem inv_callPut (h : Inv arm q s) {e : QueueElement} (hidle : s.producer p = .idle)
    (hf : Fits e) :
    Inv arm q { s.setPut p (.lock e) with putWrote := Function.update s.putWrote p false } where
  mapped := h.mapped
  contents := h.contents
  producers := by
    intro p'
    show PutOk q s.mem (s.mutex = some p') (Function.update s.putWrote p false p')
      (Function.update s.producer p (.lock e) p')
    by_cases he : p' = p
    · subst he
      rw [Function.update_self, Function.update_self]
      exact ⟨hf, rfl⟩
    · rw [Function.update_of_ne he, Function.update_of_ne he]
      exact h.producers p'
  consumer := h.consumer
  returns := h.returns

/-- **Step.** -/
theorem inv_step (hq : Sound q) {a : Act P} (h : Inv arm q s) (hok : Below q s a)
    (hs : step q s a = some t) : Inv arm q t := by
  cases a with
  | put p e =>
    simp only [step] at hs
    split at hs
    · rename_i hcall
      cases hs
      exact inv_callPut h hcall.1 hcall.2
    · cases hs
  | producer p => exact inv_stepPut hq h hok hs
  | pop =>
    simp only [step] at hs
    split at hs
    · cases hs
      exact ⟨h.mapped, h.contents, h.producers, rfl, h.returns⟩
    · cases hs
  | consumer => exact inv_stepPop hq h hs

end Steps

/-! ## Creation -/

section Create

variable {arm : Bool} {data m : Mem} {c : ℕ} {q : Queue}

/-- What `createQueueFromBytes` returns when it returns. -/
theorem createQueueFromBytes_spec (hc : c < 2 ^ 32)
    (h : createQueueFromBytes arm data c = .ok (m, q)) :
    mappingQueueFromBytes arm m = .ok q ∧ Placed q ∧ q.cap = c ∧
      q.len + 24 = u32 (24 + u32 (c * 12)) ∧ m.get64 q.head = 0 ∧ m.get64 q.tail = 0 := by
  unfold createQueueFromBytes at h
  obtain ⟨q', hmap, hret⟩ := Buffer.Go.bind_ok.mp h
  cases hret
  obtain ⟨hcap, hhead, htail, hflag, hstart, hlen⟩ := mappingQueueFromBytes_ok hmap
  rw [Mem.get32_set32_of_lt hc] at hcap hlen
  have hpl : Placed q := by
    cases arm with
    | true =>
      simp only [if_true] at hhead htail
      exact ⟨hstart, by omega, by omega, by omega⟩
    | false =>
      simp only [Bool.false_eq_true, if_false] at hhead htail
      exact ⟨hstart, by omega, by omega, by omega⟩
  have hcnt := hpl.counters
  have hhd := hpl.head
  have hfl : q.workingFlag + 4 ≤ q.head ∧ 4 ≤ q.workingFlag ∨ q.tail + 8 ≤ q.workingFlag := by
    cases arm with
    | true =>
      simp only [if_true] at hhead htail hflag
      omega
    | false =>
      simp only [Bool.false_eq_true, if_false] at hhead htail hflag
      omega
  refine ⟨?_, hpl, hcap, hlen, ?_, ?_⟩
  · rw [← hmap]
    refine mappingQueueFromBytes_congr (m := data.set32 0 c) rfl ?_
    rw [Mem.get32_set32_of_ne (by omega), Mem.get32_set64_of_ne (by omega),
      Mem.get32_set64_of_ne (by omega)]
  · rw [Mem.get64_set32_of_ne (by omega), Mem.get64_set64_of_ne (by omega),
      Mem.get64_set64 (by norm_num)]
  · rw [Mem.get64_set32_of_ne (by omega), Mem.get64_set64 (by norm_num)]

/-- A queue whose end fits into 32 bits is created. -/
theorem createQueueFromBytes_ok (arm : Bool) (hlen : data.len = countQueueMemSize c)
    (hb : 24 + 12 * c < 2 ^ 32) : ∃ m q, createQueueFromBytes arm data c = .ok (m, q) := by
  have hsize : data.len = 24 + 12 * c := hlen
  have hend : u32 (24 + u32 (c * 12)) = 24 + 12 * c := by
    unfold u32
    omega
  have hmap : ∃ q, mappingQueueFromBytes arm (data.set32 0 c) = .ok q := by
    unfold mappingQueueFromBytes queueHeaderLength queueElementLen
    simp only [Mem.get32_set32_of_lt (show c < 2 ^ 32 by omega), hend, Mem.len_set32, hsize]
    rw [if_neg (by cases arm <;> simp <;> omega), if_pos (by omega)]
    exact ⟨_, rfl⟩
  obtain ⟨q, hq⟩ := hmap
  unfold createQueueFromBytes
  simp only [hq]
  exact ⟨_, q, rfl⟩

theorem inv_initial {P : Type*} (hmap : mappingQueueFromBytes arm m = .ok q)
    (hhead : m.get64 q.head = 0) (htail : m.get64 q.tail = 0) : Inv arm q (initial P m) where
  mapped := hmap
  contents := by
    constructor
    · show m.get64 q.head ≤ m.get64 q.tail
      omega
    · show m.get64 q.tail ≤ _
      omega
    · show m.get64 q.tail < 2 ^ 63
      omega
    · show 0 = m.get64 q.tail
      omega
    · exact List.take_nil.symm
    · intro i e _ he
      cases he
  producers _ := trivial
  consumer := trivial
  returns _ hr := nomatch hr

/-- **Run.** A queue whose end did not wrap around is a FIFO in every state. -/
theorem fifo_of_create {P : Type*} [DecidableEq P] {s : State P} (hb : 24 + 12 * c < 2 ^ 32)
    (h : createQueueFromBytes arm data c = .ok (m, q))
    (hr : (machine P q m).ReachableWhen (Below q) s) : Fifo arm q c s := by
  obtain ⟨hmap, hpl, hcap, hlen, hhead, htail⟩ := createQueueFromBytes_spec (by omega) h
  have hq : Sound q := by
    refine ⟨hpl, ?_⟩
    unfold u32 at hlen
    omega
  have hinv : Inv arm q s := by
    apply hr.invariant (Inv arm q)
    · rintro s rfl
      exact inv_initial hmap hhead htail
    · intro s a t hs hok hn
      exact inv_step hq hs hok hn
  exact hcap ▸ hinv.fifo

end Create

/-! ## A queue whose end wrapped around -/

section Wrapped

variable {q : Queue} {m : Mem} {s t : State Unit} {n : ℕ}

/-- The element of the runs below. -/
def blank : QueueElement := ⟨0, 0, 0⟩

theorem reach_step {a : Act Unit} (hr : (machine Unit q m).ReachableWhen (Below q) s)
    (hs : step q s a = some t) (hb : t.Below q) :
    (machine Unit q m).ReachableWhen (Below q) t := by
  apply hr.step _ hs
  intro t' ht'
  rw [hs] at ht'
  cases ht'
  exact hb

/-- Nobody is inside a call, nothing was popped and `n` elements were put. -/
structure Loaded (q : Queue) (s : State Unit) (n : ℕ) : Prop where
  mutex : s.mutex = none
  producer : s.producer () = .idle
  head : s.mem.get64 q.head = 0
  tail : s.mem.get64 q.tail = n

/-- One producer is about to write a word of its element to slot `n`. -/
structure Writing (q : Queue) (s : State Unit) (n : ℕ) (pc : PutPc) : Prop where
  mutex : s.mutex = some ()
  producer : s.producer () = pc
  head : s.mem.get64 q.head = 0
  tail : s.mem.get64 q.tail = n

/-- A `put` that finds room starts to write. -/
theorem put_starts (hr : (machine Unit q m).ReachableWhen (Below q) s) (h : Loaded q s n)
    (hn : n < q.cap) (hn63 : n < 2 ^ 63) :
    ∃ t, (machine Unit q m).ReachableWhen (Below q) t ∧
      Writing q t n (.writeSeqID blank (q.slotOffset n)) := by
  have hb : s.Below q := by
    unfold State.Below
    rw [h.head, h.tail]
    exact ⟨by norm_num, hn63⟩
  have hlt : q.loadTail s.mem = n := by
    unfold Queue.loadTail
    rw [h.tail, toInt64_of_lt hn63]
  have hlh : q.loadHead s.mem = 0 := by
    unfold Queue.loadHead
    rw [h.head]
    rfl
  -- the call, the lock and the two loads
  let s1 : State Unit :=
    { s.setPut () (.lock blank) with putWrote := Function.update s.putWrote () false }
  have h1 : step q s (.put () blank) = some s1 := by
    simp only [step]
    rw [if_pos ⟨h.producer, by decide⟩]
  let s2 : State Unit := { s1.setPut () (.loadTail blank) with mutex := some () }
  have h2 : step q s1 (.producer ()) = some s2 := by
    have hpc : s1.producer () = .lock blank := s.producer_setPut () _
    simp only [step, hpc, stepPut]
    rw [if_pos (by show s.mutex.isNone = true; rw [h.mutex]; rfl)]
  let s3 : State Unit := s2.setPut () (.loadHead blank n)
  have h3 : step q s2 (.producer ()) = some s3 := by
    have hpc : s2.producer () = .loadTail blank := s1.producer_setPut () _
    simp only [step, hpc, stepPut]
    rw [show q.loadTail s2.mem = n from hlt]
  let s4 : State Unit := s3.setPut () (.writeSeqID blank (q.slotOffset n))
  have h4 : step q s3 (.producer ()) = some s4 := by
    have hpc : s3.producer () = .loadHead blank n := s2.producer_setPut () _
    simp only [step, hpc, stepPut]
    rw [show q.loadHead s3.mem = 0 from hlh, if_neg (by omega), queueOffset_ok (by omega)]
  refine ⟨s4, ?_, rfl, s3.producer_setPut () _, h.head, h.tail⟩
  exact reach_step (reach_step (reach_step (reach_step hr h1 hb) h2 hb) h3 hb) h4 hb

/-- A word inside the slice is written, and the element's next word is due. -/
theorem write_word (hq : Placed q) {pc pc' : PutPc} {k v : ℕ}
    (hr : (machine Unit q m).ReachableWhen (Below q) s) (h : Writing q s n pc)
    (hn63 : n < 2 ^ 63) (hk : q.slotOffset n + k < q.len)
    (hpc : ∀ s : State Unit, stepPut q s () pc =
      some (s.putWord q () (q.slotOffset n + k : ℕ) v pc')) :
    ∃ t, (machine Unit q m).ReachableWhen (Below q) t ∧ Writing q t n pc' := by
  have hs : step q s (.producer ()) = some { s.setPut () pc' with
      mem := s.mem.set32 (q.slot n + k) v
      putWrote := Function.update s.putWrote () true } := by
    simp only [step]
    rw [h.producer, hpc s, State.putWord_ok _ _ _ _ (index_ok hk)]
  obtain ⟨eh, et⟩ := hq.counters_set32 s.mem n k v
  rw [h.head] at eh
  rw [h.tail] at et
  refine ⟨_, reach_step hr hs ?_, h.mutex, s.producer_setPut () _, eh, et⟩
  unfold State.Below
  simp only [eh, et]
  exact ⟨by norm_num, hn63⟩

/-- A word behind the slice is a panic. -/
theorem write_panics {pc pc' : PutPc} {k v : ℕ}
    (hr : (machine Unit q m).ReachableWhen (Below q) s) (h : Writing q s n pc)
    (hn63 : n < 2 ^ 63) (hk : q.len ≤ q.slotOffset n + k)
    (hpc : ∀ s : State Unit, stepPut q s () pc =
      some (s.putWord q () (q.slotOffset n + k : ℕ) v pc')) :
    ∃ t : State Unit, (machine Unit q m).ReachableWhen (Below q) t ∧
      ∃ x w, Return.panic x w ∈ t.returns := by
  have hidx : q.index (q.slotOffset n + k : ℕ) = .error .indexOutOfRange := by
    unfold Queue.index
    rw [if_neg (by omega)]
  have hs : step q s (.producer ()) = some (s.panicPut () .indexOutOfRange) := by
    simp only [step]
    rw [h.producer, hpc s]
    unfold State.putWord
    rw [hidx]
  refine ⟨_, reach_step hr hs ?_, .indexOutOfRange, s.putWrote (), ?_⟩
  · show s.mem.get64 q.head < 2 ^ 63 ∧ s.mem.get64 q.tail < 2 ^ 63
    rw [h.head, h.tail]
    exact ⟨by norm_num, hn63⟩
  · exact List.mem_append_right _ (List.mem_singleton.mpr rfl)

/-- **Step.** While the slice has room for a whole element, a `put` succeeds. -/
theorem put_one (hq : Placed q) (hr : (machine Unit q m).ReachableWhen (Below q) s)
    (h : Loaded q s n) (hn : n < q.cap) (hn63 : n + 1 < 2 ^ 63) (hroom : q.slotOffset n + 12 ≤ q.len) :
    ∃ t, (machine Unit q m).ReachableWhen (Below q) t ∧ Loaded q t (n + 1) := by
  obtain ⟨s0, hr0, h0⟩ := put_starts hr h hn (by omega)
  obtain ⟨s1, hr1, h1⟩ := write_word hq (k := 0) hr0 h0 (by omega) (by omega) fun _ => rfl
  obtain ⟨s2, hr2, h2⟩ := write_word hq (k := 4) hr1 h1 (by omega) (by omega) fun _ => rfl
  obtain ⟨s3, hr3, h3⟩ := write_word hq (k := 8) hr2 h2 (by omega) (by omega) fun _ => rfl
  have hinc := increment_tail hq (m := s3.mem) (by rw [h3.tail]; omega)
  rw [h3.tail, h3.head] at hinc
  let s4 : State Unit := { s3.setPut () .unlock with
    mem := increment s3.mem q.tail
    putWrote := Function.update s3.putWrote () true
    returns := s3.returns ++ [.put blank] }
  have hb : s4.Below q := by
    show (increment s3.mem q.tail).get64 q.head < 2 ^ 63 ∧
      (increment s3.mem q.tail).get64 q.tail < 2 ^ 63
    rw [hinc.1, hinc.2]
    exact ⟨by norm_num, hn63⟩
  have hs4 : step q s3 (.producer ()) = some s4 := by
    simp only [step]
    rw [h3.producer]
    rfl
  have hs5 : step q s4 (.producer ()) = some { s4.setPut () .idle with mutex := none } := by
    have hpc : s4.producer () = .unlock := s3.producer_setPut () _
    simp only [step, hpc]
    rfl
  exact ⟨_, reach_step (reach_step hr3 hs4 hb) hs5 hb, rfl, s4.producer_setPut () _, hinc.2, hinc.1⟩

/-- **Run.** A queue whose slice ends inside an element gets there, and panics. -/
theorem put_all (hq : Placed q) (hcap : q.cap < 2 ^ 32) (hlen : q.len < q.cap * 12)
    (hword : q.len % 4 = 0) (hhead : m.get64 q.head = 0) (htail : m.get64 q.tail = 0) :
    ∃ t : State Unit, (machine Unit q m).ReachableWhen (Below q) t ∧
      ∃ x w, Return.panic x w ∈ t.returns := by
  have hoff : ∀ n, n < q.cap → q.slotOffset n = n * 12 := by
    intro n hn
    unfold Queue.slotOffset
    rw [Nat.mod_eq_of_lt hn]
  have hload : ∀ n, n ≤ q.len / 12 →
      ∃ s, (machine Unit q m).ReachableWhen (Below q) s ∧ Loaded q s n := by
    intro n
    induction n with
    | zero =>
      intro _
      exact ⟨initial Unit m, .init rfl, rfl, rfl, hhead, htail⟩
    | succ n ih =>
      intro hn
      obtain ⟨s, hr, hs⟩ := ih (by omega)
      have := hoff n (by omega)
      exact put_one hq hr hs (by omega) (by omega) (by omega)
  obtain ⟨s, hr, hs⟩ := hload _ le_rfl
  have hlast := hoff (q.len / 12) (by omega)
  obtain ⟨s0, hr0, h0⟩ := put_starts hr hs (by omega) (by omega)
  -- the slice ends before the first, the second or the third word of the element
  by_cases hw0 : q.len ≤ q.slotOffset (q.len / 12) + 0
  · exact write_panics hr0 h0 (by omega) hw0 fun _ => rfl
  obtain ⟨s1, hr1, h1⟩ := write_word hq (k := 0) hr0 h0 (by omega) (by omega) fun _ => rfl
  by_cases hw4 : q.len ≤ q.slotOffset (q.len / 12) + 4
  · exact write_panics hr1 h1 (by omega) hw4 fun _ => rfl
  obtain ⟨s2, hr2, h2⟩ := write_word hq (k := 4) hr1 h1 (by omega) (by omega) fun _ => rfl
  exact write_panics (k := 8) hr2 h2 (by omega) (by omega) fun _ => rfl

end Wrapped

/-! ## The result -/

/-- **Main theorem.** The queue created for capacity `c` is a bounded FIFO for any
    number of producers and one consumer, in every interleaving that keeps the counters
    below `2 ^ 63`, exactly if the end of its bytes fits into 32 bits. -/
theorem queue_fifo (arm : Bool) (c : UInt32) :
    (∀ data : Mem, data.len = countQueueMemSize c.toNat →
      ∃ m q, createQueueFromBytes arm data c.toNat = .ok (m, q) ∧
        ∀ (P : Type) [DecidableEq P] (s : State P),
          (machine P q m).ReachableWhen (Below q) s → Fifo arm q c.toNat s) ↔
      queueHeaderLength + queueElementLen * c.toNat < 2 ^ 32 := by
  have hc : c.toNat < 2 ^ 32 := c.toNat_lt
  constructor
  · intro h
    by_contra hge
    have hge : 2 ^ 32 ≤ 24 + 12 * c.toNat := Nat.le_of_not_lt hge
    obtain ⟨m, q, hcreate, hfifo⟩ := h ⟨countQueueMemSize c.toNat, fun _ => 0⟩ rfl
    obtain ⟨-, hq, hcap, hlen, hhead, htail⟩ := createQueueFromBytes_spec hc hcreate
    unfold u32 at hlen
    obtain ⟨s, hr, x, w, hpanic⟩ :=
      put_all hq (by omega) (by omega) (by omega) hhead htail
    exact (hfifo Unit s hr).no_panic x w hpanic
  · intro hb data hlen
    obtain ⟨m, q, hcreate⟩ := createQueueFromBytes_ok arm hlen hb
    refine ⟨m, q, hcreate, ?_⟩
    intro P _ s hr
    exact fifo_of_create hb hcreate hr

instance {P : Type*} [DecidableEq P] (q : Queue) (s : State P) (a : Act P) :
    Decidable (Below q s a) :=
  decidable_of_iff (∀ t ∈ step q s a, t.mem.get64 q.head < 2 ^ 63 ∧ t.mem.get64 q.tail < 2 ^ 63)
    Iff.rfl

/-- Memory and queue of `createQueueFromBytes` for capacity 357913942: the slice has
    8 bytes. -/
def wrappedMem : Mem :=
  (((Mem.mk (countQueueMemSize 357913942) fun _ => 0).set32 0 357913942).set64 4 0).set64 12 0
    |>.set32 20 0

def wrappedQueue : Queue where
  cap := 357913942
  head := 4
  tail := 12
  workingFlag := 20
  start := 24
  len := 8

/-- The first `put` on that empty queue writes two words of its element, panics at the
    third, and keeps the mutex. -/
theorem put_panics_at_wrapped_capacity :
    createQueueFromBytes false ⟨countQueueMemSize 357913942, fun _ => 0⟩ 357913942 =
        .ok (wrappedMem, wrappedQueue) ∧
      ∃ s : State Unit,
        (machine Unit wrappedQueue wrappedMem).ReachableWhen (Below wrappedQueue) s ∧
        ¬Fifo false wrappedQueue 357913942 s ∧
        (wrappedMem.get32 24 = 0 ∧ s.mem.get32 24 = 1 ∧ s.mem.get32 28 = 2 ∧
          wrappedQueue.size s.mem = 0 ∧ s.mutex = some () ∧
          s.returns = [.panic .indexOutOfRange true]) := by
  refine ⟨rfl, ?_⟩
  obtain ⟨s, hr, hs⟩ := (machine Unit wrappedQueue wrappedMem).exists_reachableWhen_of_run
    (Below wrappedQueue) (initial Unit wrappedMem)
    [.put () ⟨1, 2, 3⟩, .producer (), .producer (), .producer (), .producer (), .producer (),
      .producer ()]
    (fun s => wrappedMem.get32 24 = 0 ∧ s.mem.get32 24 = 1 ∧ s.mem.get32 28 = 2 ∧
      wrappedQueue.size s.mem = 0 ∧ s.mutex = some () ∧
      s.returns = [.panic .indexOutOfRange true]) rfl
    (by decide +kernel) (by decide +kernel)
  refine ⟨s, hr, ?_, hs⟩
  intro hfifo
  apply hfifo.no_panic .indexOutOfRange true
  rw [hs.2.2.2.2.2]
  exact List.mem_singleton.mpr rfl

end Shmipc.Ring
