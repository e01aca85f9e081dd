import Shmipc.Common.Trans
import Shmipc.Buffer.Slice
import Shmipc.Queue.Machine

/-!
# The IO queue over its bytes

The queue as it lies in the mapped memory: a 24-byte header with the capacity,
the counters `head` and `tail` and the `workingFlag`, then `cap` elements of
three words (queue.go:175-209). `put` and `pop` (queue.go:247-279) run over
these bytes, every load, word write, counter increment and mutex operation being
one step, with the index checks and the `int64` arithmetic of the source.

`Shmipc.Queue.Machine` looks at the counters and the wake-up flag only; here the
flag is never read, and the contents are what counts.

* `createQueueFromBytes`, `mappingQueueFromBytes`: the layout. The end of
  `queueBytesOnMemory` is computed in `uint32`.
* `machine`: any number of producers that share a process and its mutex, and one
  consumer, which calls `pop` whenever it likes.
-/

namespace Shmipc.Ring

open Common
open Buffer (Go Panic)
open Shmipc.Queue (QueueElement queueElementLen)

/-! ## Layout -/

def queueHeaderLength : ℕ := 24

/-- `countQueueMemSize` (queue.go:175-177), an `int` computation. -/
def countQueueMemSize (queueCap : ℕ) : ℕ := queueHeaderLength + queueElementLen * queueCap

/-- `queue` (queue.go:44-51): the pointers are addresses, `queueBytesOnMemory` is
    the range of `len` bytes from `start` on. -/
structure Queue where
  cap : ℕ
  head : ℕ
  tail : ℕ
  workingFlag : ℕ
  start : ℕ
  len : ℕ
  deriving DecidableEq

/-- `mappingQueueFromBytes` (queue.go:188-209); `arm` is `isArmArch()`. -/
def mappingQueueFromBytes (arm : Bool) (data : Mem) : Go Queue :=
  let cap := data.get32 0
  let queueStartOffset := queueHeaderLength
  let queueEndOffset := u32 (queueHeaderLength + u32 (cap * queueElementLen))
  if data.len ≤ (if arm then 16 else 20) then .error .indexOutOfRange
  else if queueStartOffset ≤ queueEndOffset ∧ queueEndOffset ≤ data.len then
    .ok {
      cap := cap
      head := if arm then 8 else 4
      tail := if arm then 16 else 12
      workingFlag := if arm then 4 else 20
      start := queueStartOffset
      len := queueEndOffset - queueStartOffset }
  else .error .sliceBounds

/-- `createQueueFromBytes` (queue.go:179-186): the memory and the queue. -/
def createQueueFromBytes (arm : Bool) (data : Mem) (cap : ℕ) : Go (Mem × Queue) := do
  let m := data.set32 0 cap
  let q ← mappingQueueFromBytes arm m
  let m := m.set64 q.head 0
  let m := m.set64 q.tail 0
  let m := m.set32 q.workingFlag 0
  pure (m, q)

/-- `atomic.LoadInt64(q.head)`. -/
def Queue.loadHead (q : Queue) (m : Mem) : ℤ := toInt64 (m.get64 q.head)

/-- `atomic.LoadInt64(q.tail)`. -/
def Queue.loadTail (q : Queue) (m : Mem) : ℤ := toInt64 (m.get64 q.tail)

/-- `queue.size` (queue.go:243-245). -/
def Queue.size (q : Queue) (m : Mem) : ℤ := q.loadTail m - q.loadHead m

/-- `queueOffset := (i % q.cap) * queueElementLen`. -/
def Queue.queueOffset (q : Queue) (i : ℤ) : Go ℤ :=
  if q.cap = 0 then .error .divideByZero else .ok (i.tmod q.cap * queueElementLen)

/-- The address of `q.queueBytesOnMemory[i]`. -/
def Queue.index (q : Queue) (i : ℤ) : Go ℕ :=
  if 0 ≤ i ∧ i < q.len then .ok (q.start + i.toNat) else .error .indexOutOfRange

/-- `atomic.AddInt64(p, 1)`. -/
def increment (m : Mem) (p : ℕ) : Mem := m.set64 p ((m.get64 p + 1) % 2 ^ 64)

/-! ## The machine -/

/-- Where a producer is in `put`. A constructor stands for the step taken next. -/
inductive PutPc
  | idle
  /-- `q.Lock()`. -/
  | lock (e : QueueElement)
  /-- `tail := atomic.LoadInt64(q.tail)`. -/
  | loadTail (e : QueueElement)
  /-- `if tail-atomic.LoadInt64(q.head) >= q.cap`, and the offset after it. -/
  | loadHead (e : QueueElement) (tail : ℤ)
  | writeSeqID (e : QueueElement) (queueOffset : ℤ)
  | writeOffset (e : QueueElement) (queueOffset : ℤ)
  | writeStatus (e : QueueElement) (queueOffset : ℤ)
  /-- `atomic.AddInt64(q.tail, 1)`. -/
  | addTail (e : QueueElement)
  | unlock
  /-- The `q.Unlock()` before `return ErrQueueFull`; `unconsumed` is what the queue
      held at the check. -/
  | unlockFull (unconsumed : ℤ)
  | panicked
  deriving DecidableEq

/-- Where the consumer is in `pop`. -/
inductive PopPc
  | idle
  /-- `head := atomic.LoadInt64(q.head)`. -/
  | loadHead
  /-- `if head >= atomic.LoadInt64(q.tail)`, and the offset after it. -/
  | loadTail (head : ℤ)
  | readSeqID (queueOffset : ℤ)
  | readOffset (queueOffset : ℤ) (seqID : ℕ)
  | readStatus (queueOffset : ℤ) (seqID offset : ℕ)
  /-- `atomic.AddInt64(q.head, 1)`. -/
  | addHead (e : QueueElement)
  | panicked
  deriving DecidableEq

/-- How a call ended. `wrote` says whether it had written to the shared memory. -/
inductive Return
  /-- A successful put, recorded at the increment of `tail` that decides it. -/
  | put (e : QueueElement)
  /-- `ErrQueueFull`, with the number of unconsumed elements at the check. -/
  | full (unconsumed : ℤ) (wrote : Bool)
  | pop (e : QueueElement)
  /-- `errQueueEmpty`, with the number of elements available at the check. -/
  | empty (available : ℤ) (wrote : Bool)
  | panic (p : Panic) (wrote : Bool)
  deriving DecidableEq

/-- The shared memory, the producers' mutex, everybody's position, and what the
    calls did so far. -/
structure State (P : Type*) where
  mem : Mem
  mutex : Option P
  producer : P → PutPc
  consumer : PopPc
  /-- The producer's running call has written to the shared memory. -/
  putWrote : P → Bool
  popWrote : Bool
  returns : List Return

/-- The steps: a producer calls `put`, a producer moves on, the consumer calls
    `pop`, the consumer moves on. -/
inductive Act (P : Type*)
  | put (p : P) (e : QueueElement)
  | producer (p : P)
  | pop
  | consumer

/-- The fields of a `queueElement` are `uint32`. -/
def Fits (e : QueueElement) : Prop :=
  e.seqID < 2 ^ 32 ∧ e.offsetInShmBuf < 2 ^ 32 ∧ e.status < 2 ^ 32

instance (e : QueueElement) : Decidable (Fits e) := inferInstanceAs (Decidable (_ ∧ _))

variable {P : Type*}

/-- The consumer's `pop` panics. -/
def State.panicPop (s : State P) (x : Panic) : State P :=
  { s with consumer := .panicked, returns := s.returns ++ [.panic x s.popWrote] }

/-- The consumer reads a word of `queueBytesOnMemory`. -/
def State.popWord (q : Queue) (s : State P) (i : ℤ) (pc : ℕ → PopPc) : State P :=
  match q.index i with
  | .error x => s.panicPop x
  | .ok a => { s with consumer := pc (s.mem.get32 a) }

theorem State.popWord_ok {q : Queue} {i : ℤ} {a : ℕ} (s : State P) (pc : ℕ → PopPc)
    (h : q.index i = .ok a) :
    s.popWord q i pc = { s with consumer := pc (s.mem.get32 a) } := by
  unfold State.popWord
  rw [h]

def Return.putElement : Return → Option QueueElement
  | .put e => some e
  | _ => none

def Return.popElement : Return → Option QueueElement
  | .pop e => some e
  | _ => none

/-- The elements put so far, in the order of their increments of `tail`. -/
def State.puts (s : State P) : List QueueElement := s.returns.filterMap Return.putElement

/-- The elements that were popped, in order. -/
def State.pops (s : State P) : List QueueElement := s.returns.filterMap Return.popElement

/-- Both counters are below `2 ^ 63`. -/
def State.Below (q : Queue) (s : State P) : Prop :=
  s.mem.get64 q.head < 2 ^ 63 ∧ s.mem.get64 q.tail < 2 ^ 63

variable [DecidableEq P]

def State.setPut (s : State P) (p : P) (pc : PutPc) : State P :=
  { s with producer := Function.update s.producer p pc }

/-- The producer's `put` panics; the mutex stays locked. -/
def State.panicPut (s : State P) (p : P) (x : Panic) : State P :=
  { s.setPut p .panicked with returns := s.returns ++ [.panic x (s.putWrote p)] }

/-- The producer writes a word of `queueBytesOnMemory`. -/
def State.putWord (q : Queue) (s : State P) (p : P) (i : ℤ) (v : ℕ) (pc : PutPc) : State P :=
  match q.index i with
  | .error x => s.panicPut p x
  | .ok a =>
    { s.setPut p pc with mem := s.mem.set32 a v, putWrote := Function.update s.putWrote p true }

/-- The step of a producer at `pc`. -/
def stepPut (q : Queue) (s : State P) (p : P) : PutPc → Option (State P)
  | .idle | .panicked => none
  | .lock e => if s.mutex.isNone then some { s.setPut p (.loadTail e) with mutex := some p } else none
  | .loadTail e => some (s.setPut p (.loadHead e (q.loadTail s.mem)))
  | .loadHead e tail =>
    if tail - q.loadHead s.mem ≥ q.cap then some (s.setPut p (.unlockFull (q.size s.mem)))
    else match q.queueOffset tail with
      | .error x => some (s.panicPut p x)
      | .ok queueOffset => some (s.setPut p (.writeSeqID e queueOffset))
  | .writeSeqID e off => some (s.putWord q p off e.seqID (.writeOffset e off))
  | .writeOffset e off => some (s.putWord q p (off + 4) e.offsetInShmBuf (.writeStatus e off))
  | .writeStatus e off => some (s.putWord q p (off + 8) e.status (.addTail e))
  | .addTail e =>
    some { s.setPut p .unlock with
      mem := increment s.mem q.tail
      putWrote := Function.update s.putWrote p true
      returns := s.returns ++ [.put e] }
  | .unlock => some { s.setPut p .idle with mutex := none }
  | .unlockFull n =>
    some { s.setPut p .idle with mutex := none, returns := s.returns ++ [.full n (s.putWrote p)] }

/-- The step of the consumer at its position. -/
def stepPop (q : Queue) (s : State P) : PopPc → Option (State P)
  | .idle | .panicked => none
  | .loadHead => some { s with consumer := .loadTail (q.loadHead s.mem) }
  | .loadTail head =>
    if head ≥ q.loadTail s.mem then
      some { s with consumer := .idle, returns := s.returns ++ [.empty (q.size s.mem) s.popWrote] }
    else match q.queueOffset head with
      | .error x => some (s.panicPop x)
      | .ok queueOffset => some { s with consumer := .readSeqID queueOffset }
  | .readSeqID off => some (s.popWord q off (.readOffset off))
  | .readOffset off seqID => some (s.popWord q (off + 4) (.readStatus off seqID))
  | .readStatus off seqID offset =>
    some (s.popWord q (off + 8) fun status => .addHead ⟨seqID, offset, status⟩)
  | .addHead e =>
    some { s with
      consumer := .idle
      mem := increment s.mem q.head
      popWrote := true
      returns := s.returns ++ [.pop e] }

/-- One atomic step. -/
def step (q : Queue) (s : State P) : Act P → Option (State P)
  | .put p e =>
    if s.producer p = .idle ∧ Fits e then
      some { s.setPut p (.lock e) with putWrote := Function.update s.putWrote p false }
    else none
  | .producer p => stepPut q s p (s.producer p)
  | .pop =>
    if s.consumer = .idle then some { s with consumer := .loadHead, popWrote := false } else none
  | .consumer => stepPop q s s.consumer

/-- Nobody inside a call, over the memory `m`. -/
def initial (P : Type*) (m : Mem) : State P where
  mem := m
  mutex := none
  producer := fun _ => .idle
  consumer := .idle
  putWrote := fun _ => false
  popWrote := false
  returns := []

/-- Any number of producers and one consumer on the queue `q` in memory `m`. -/
def machine (P : Type*) [DecidableEq P] (q : Queue) (m : Mem) : Sys (State P) (Act P) where
  init s := s = initial P m
  next := step q

/-- The step keeps both counters below `2 ^ 63`. -/
def Below (q : Queue) (s : State P) (a : Act P) : Prop := ∀ t, step q s a = some t → t.Below q

/-! ## Small facts about the definitions -/

@[simp] theorem State.producer_setPut (s : State P) (p : P) (pc : PutPc) :
    (s.setPut p pc).producer p = pc := Function.update_self ..

theorem State.putWord_ok {q : Queue} {i : ℤ} {a : ℕ} (s : State P) (p : P) (v : ℕ) (pc : PutPc)
    (h : q.index i = .ok a) :
    s.putWord q p i v pc =
      { s.setPut p pc with
        mem := s.mem.set32 a v, putWrote := Function.update s.putWrote p true } := by
  unfold State.putWord
  rw [h]

/-- The queue only depends on the capacity word and the size of the memory. -/
theorem mappingQueueFromBytes_congr {arm : Bool} {m m' : Mem} (hlen : m'.len = m.len)
    (hcap : m'.get32 0 = m.get32 0) : mappingQueueFromBytes arm m' = mappingQueueFromBytes arm m := by
  unfold mappingQueueFromBytes
  rw [hlen, hcap]

/-- What a successful `mappingQueueFromBytes` returns. -/
theorem mappingQueueFromBytes_ok {arm : Bool} {m : Mem} {q : Queue}
    (h : mappingQueueFromBytes arm m = .ok q) :
    q.cap = m.get32 0 ∧ q.head = (if arm then 8 else 4) ∧ q.tail = (if arm then 16 else 12) ∧
      q.workingFlag = (if arm then 4 else 20) ∧ q.start = 24 ∧
      q.len + 24 = u32 (24 + u32 (m.get32 0 * 12)) := by
  unfold mappingQueueFromBytes queueHeaderLength queueElementLen at h
  simp only [] at h
  by_cases hlen : m.len ≤ (if arm then 16 else 20)
  · rw [if_pos hlen] at h
    cases h
  rw [if_neg hlen] at h
  by_cases hle : 24 ≤ u32 (24 + u32 (m.get32 0 * 12)) ∧ u32 (24 + u32 (m.get32 0 * 12)) ≤ m.len
  · rw [if_pos hle] at h
    cases h
    exact ⟨rfl, rfl, rfl, rfl, rfl, Nat.sub_add_cancel hle.1⟩
  · rw [if_neg hle] at h
    cases h

end Shmipc.Ring
