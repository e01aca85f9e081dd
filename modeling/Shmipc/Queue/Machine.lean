import Shmipc.Common.Trans

/-!
# The shared IO queue and its wake-up flag

One direction of a session pair shares a `queue` (queue.go): a ring of
`cap` elements with the counters `head` (written by the consumer) and `tail`
(written by the producers) and a `workingFlag`. A producer runs

    put (queue.go:262-279); wakeUpPeer (session.go:616-631)

and the consumer, the peer's event loop, runs `handlePolling`
(protocol_manager.go:257-288) on every polling event it receives. Every load,
every word written or read, every counter increment, the CAS and the mutex
operations are one step each.

The counters are `int64` in the source and stay below `2^63`; they are `ℕ` here.
`handlePolling` also returns early when a message for an unknown stream names a
broken offset; the session is closed then, and that exit is not part of this
machine.
-/

namespace Shmipc.Queue

open Common

/-- `queueElement` (queue.go:53-57). -/
structure QueueElement where
  seqID : ℕ
  offsetInShmBuf : ℕ
  status : ℕ
  deriving DecidableEq, Repr

/-- `queueElementLen` (const.go). -/
def queueElementLen : ℕ := 12

/-- Where a producer is in `put` followed by `wakeUpPeer`. A constructor stands
    for the step that is taken next. -/
inductive ProducerPc
  | idle
  /-- `q.Lock()`. -/
  | lock (e : QueueElement)
  /-- `tail := atomic.LoadInt64(q.tail)`. -/
  | loadTail (e : QueueElement)
  /-- `if tail-atomic.LoadInt64(q.head) >= q.cap`. -/
  | loadHead (e : QueueElement) (tail : ℕ)
  | writeSeqID (e : QueueElement) (tail : ℕ)
  | writeOffset (e : QueueElement) (tail : ℕ)
  | writeStatus (e : QueueElement) (tail : ℕ)
  /-- `atomic.AddInt64(q.tail, 1)`. -/
  | addTail
  | unlock
  /-- The `q.Unlock()` before `return ErrQueueFull`. -/
  | unlockFull
  /-- `atomic.CompareAndSwapUint32(q.workingFlag, 0, 1)`. -/
  | markWorking
  /-- The CAS won: the polling event is written or handed to `sendCh`. -/
  | emit
  deriving DecidableEq

/-- Where the consumer is in `handlePolling`. -/
inductive ConsumerPc
  /-- Outside `handlePolling`. -/
  | idle
  /-- `pop`: `head := atomic.LoadInt64(q.head)`. -/
  | popHead
  /-- `pop`: `if head >= atomic.LoadInt64(q.tail)`. -/
  | popTail (head : ℕ)
  | readSeqID (head : ℕ)
  | readOffset (head seqID : ℕ)
  | readStatus (head seqID offset : ℕ)
  /-- `atomic.AddInt64(q.head, 1)`; the element is then handled. -/
  | addHead (e : QueueElement)
  /-- `markNotWorking`: `atomic.StoreUint32(q.workingFlag, 0)`. -/
  | storeZero
  /-- `q.size()`: the load of `tail`. -/
  | sizeTail
  /-- `q.size()`: the load of `head`; `markNotWorking` returns true on 0. -/
  | sizeHead (tail : ℕ)
  /-- `atomic.StoreUint32(q.workingFlag, 1)`. -/
  | storeOne
  deriving DecidableEq

/-- The shared queue, the processes' positions and the polling events that were
    sent and not yet received. -/
structure State (P : Type*) where
  head : ℕ
  tail : ℕ
  /-- The words of `queueBytesOnMemory` by byte offset. -/
  word : ℕ → ℕ
  mutex : Option P
  workingFlag : Bool
  events : ℕ
  producer : P → ProducerPc
  consumer : ConsumerPc
  /-- The elements whose `pop` has returned. -/
  popped : List QueueElement

/-- The steps: a producer enters `put` with an element, a producer moves on, the
    consumer moves on. -/
inductive Act (P : Type*)
  | put (p : P) (e : QueueElement)
  | producer (p : P)
  | consumer

variable {P : Type*} [DecidableEq P]

/-- `s` with producer `p` at `pc`. -/
def State.setPc (s : State P) (p : P) (pc : ProducerPc) : State P :=
  { s with producer := Function.update s.producer p pc }

/-- `queueOffset := (i % q.cap) * queueElementLen`. -/
def queueOffset (cap i : ℕ) : ℕ := i % cap * queueElementLen

/-- The step of a producer at `pc`. -/
def stepProducer (cap : ℕ) (s : State P) (p : P) : ProducerPc → Option (State P)
  | .idle => none
  | .lock e => if s.mutex.isNone then some { s.setPc p (.loadTail e) with mutex := some p } else none
  | .loadTail e => some (s.setPc p (.loadHead e s.tail))
  | .loadHead e tail =>
    if tail - s.head ≥ cap then some (s.setPc p .unlockFull) else some (s.setPc p (.writeSeqID e tail))
  | .writeSeqID e tail =>
    some { s.setPc p (.writeOffset e tail) with
      word := Function.update s.word (queueOffset cap tail) e.seqID }
  | .writeOffset e tail =>
    some { s.setPc p (.writeStatus e tail) with
      word := Function.update s.word (queueOffset cap tail + 4) e.offsetInShmBuf }
  | .writeStatus e tail =>
    some { s.setPc p .addTail with
      word := Function.update s.word (queueOffset cap tail + 8) e.status }
  | .addTail => some { s.setPc p .unlock with tail := s.tail + 1 }
  | .unlock => some { s.setPc p .markWorking with mutex := none }
  | .unlockFull => some { s.setPc p .idle with mutex := none }
  | .markWorking =>
    if s.workingFlag then some (s.setPc p .idle)
    else some { s.setPc p .emit with workingFlag := true }
  | .emit => some { s.setPc p .idle with events := s.events + 1 }

/-- The step of the consumer at its position. From `idle` it needs a polling
    event. -/
def stepConsumer (cap : ℕ) (s : State P) : Option (State P) :=
  match s.consumer with
  | .idle =>
    if 0 < s.events then some { s with consumer := .popHead, events := s.events - 1 } else none
  | .popHead => some { s with consumer := .popTail s.head }
  | .popTail head =>
    if head ≥ s.tail then some { s with consumer := .storeZero }
    else some { s with consumer := .readSeqID head }
  | .readSeqID head => some { s with consumer := .readOffset head (s.word (queueOffset cap head)) }
  | .readOffset head seqID =>
    some { s with consumer := .readStatus head seqID (s.word (queueOffset cap head + 4)) }
  | .readStatus head seqID offset =>
    some { s with consumer := .addHead ⟨seqID, offset, s.word (queueOffset cap head + 8)⟩ }
  | .addHead e =>
    some { s with consumer := .popHead, head := s.head + 1, popped := s.popped ++ [e] }
  | .storeZero => some { s with consumer := .sizeTail, workingFlag := false }
  | .sizeTail => some { s with consumer := .sizeHead s.tail }
  | .sizeHead tail =>
    if tail = s.head then some { s with consumer := .idle } else some { s with consumer := .storeOne }
  | .storeOne => some { s with consumer := .popHead, workingFlag := true }

/-- One atomic step of the machine. -/
def step (cap : ℕ) (s : State P) : Act P → Option (State P)
  | .put p e => if s.producer p = .idle then some (s.setPc p (.lock e)) else none
  | .producer p => stepProducer cap s p (s.producer p)
  | .consumer => stepConsumer cap s

/-- `createQueueFromBytes`: an empty queue with the flag cleared
    (queue.go:179-186), and nobody inside a call. -/
def initial (P : Type*) : State P where
  head := 0
  tail := 0
  word := fun _ => 0
  mutex := none
  workingFlag := false
  events := 0
  producer := fun _ => .idle
  consumer := .idle
  popped := []

/-- Any number of producers and one consumer on a queue of capacity `cap`. -/
def machine (P : Type*) [DecidableEq P] (cap : ℕ) : Sys (State P) (Act P) where
  init s := s = initial P
  next := step cap

@[simp] theorem State.producer_setPc (s : State P) (p : P) (pc : ProducerPc) :
    (s.setPc p pc).producer p = pc := Function.update_self ..

theorem State.producer_setPc_of_ne (s : State P) {p p' : P} (pc : ProducerPc) (h : p' ≠ p) :
    (s.setPc p pc).producer p' = s.producer p' := Function.update_of_ne h ..

end Shmipc.Queue
