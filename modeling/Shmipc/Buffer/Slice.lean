import Shmipc.Common.Mem

/-!
# Buffer slices

The 20-byte header of a slot in shared memory and the `bufferSlice` that stands
for a slot, or for a piece of heap memory, in one process (buffer_slice.go).
`nextSlice` is not a field: a `sliceList` is a list of slices.

Go's `int` is `ℤ` and `uint32` is `ℕ` below `2 ^ 32`. An index or slice
expression that Go would reject is a `Panic`.
-/

namespace Shmipc.Buffer

open Common

/-- A run-time panic, or a loop that does not end. -/
inductive Panic
  | indexOutOfRange
  | sliceBounds
  | nilDereference
  | divideByZero
  /-- `make` with a negative length. -/
  | makeSlice
  | endlessLoop
  /-- The use of a slice object that was given back; what it does is not modelled. -/
  | staleSlice
  /-- Not a panic: a wait that only another goroutine can end. -/
  | blocked
  deriving DecidableEq, Repr

/-- The errors the buffer code returns (errors.go). -/
inductive Err
  | noMoreBuffer
  | notEnoughData
  deriving DecidableEq, Repr

abbrev Go := Except Panic

def Panics {α : Type*} (g : Go α) (p : Panic) : Prop := g = .error p

instance {α : Type*} (g : Go α) (p : Panic) : Decidable (Panics g p) :=
  match g with
  | .ok _ => isFalse fun h => nomatch h
  | .error e => decidable_of_iff (e = p) ⟨congrArg _, Except.error.inj⟩

theorem Go.bind_ok {α β : Type} {x : Go α} {f : α → Go β} {b : β} :
    (x >>= f) = .ok b ↔ ∃ a, x = .ok a ∧ f a = .ok b := by
  cases x with
  | error e => exact ⟨fun h => (nomatch h), fun ⟨_, h, _⟩ => (nomatch h)⟩
  | ok a => exact ⟨fun h => ⟨a, rfl, h⟩, fun ⟨_, h, h'⟩ => by cases h; exact h'⟩

/-! ## Slot headers -/

def bufferHeaderSize : ℕ := 20
def bufferSizeOffset : ℕ := 4
def bufferDataStartOffset : ℕ := 8
def nextBufferOffset : ℕ := 12
def bufferFlagOffset : ℕ := 16

def hasNextBufferFlag : UInt8 := 1
def sliceInUsedFlag : UInt8 := 2

/-- `bufferHeader.hasNext` of the header at `h`. -/
def hasNext (m : Mem) (h : ℕ) : Bool := m.byte (h + bufferFlagOffset) &&& hasNextBufferFlag ≠ 0

def isInUsed (m : Mem) (h : ℕ) : Bool := m.byte (h + bufferFlagOffset) &&& sliceInUsedFlag ≠ 0

/-- `bufferHeader.nextBufferOffset`. -/
def nextOffset (m : Mem) (h : ℕ) : ℕ := m.get32 (h + nextBufferOffset)

def clearFlag (m : Mem) (h : ℕ) : Mem := m.set8 (h + bufferFlagOffset) 0

def setInUsed (m : Mem) (h : ℕ) : Mem :=
  m.set8 (h + bufferFlagOffset) (m.byte (h + bufferFlagOffset) ||| sliceInUsedFlag)

def linkNext (m : Mem) (h next : ℕ) : Mem :=
  let m := m.set32 (h + nextBufferOffset) next
  m.set8 (h + bufferFlagOffset) (m.byte (h + bufferFlagOffset) ||| hasNextBufferFlag)

section Header

variable {m m' : Mem} {h lo hi next : ℕ}

theorem hasNext_congr (hs : m.SameOn m' (h + 16) (h + 17)) : hasNext m' h = hasNext m h := by
  unfold hasNext bufferFlagOffset
  rw [hs (h + 16) le_rfl (by omega)]

theorem isInUsed_congr (hs : m.SameOn m' (h + 16) (h + 17)) : isInUsed m' h = isInUsed m h := by
  unfold isInUsed bufferFlagOffset
  rw [hs (h + 16) le_rfl (by omega)]

theorem nextOffset_congr (hs : m.SameOn m' (h + 12) (h + 16)) :
    nextOffset m' h = nextOffset m h := Mem.get32_congr hs

theorem clearFlag_sameOn (hr : h + 16 < lo ∨ hi ≤ h + 16) : m.SameOn (clearFlag m h) lo hi :=
  Mem.set8_sameOn hr

theorem setInUsed_sameOn (hr : h + 16 < lo ∨ hi ≤ h + 16) : m.SameOn (setInUsed m h) lo hi :=
  Mem.set8_sameOn hr

theorem linkNext_sameOn (hr : h + 17 ≤ lo ∨ hi ≤ h + 12) : m.SameOn (linkNext m h next) lo hi := by
  refine (Mem.set32_sameOn ?_).trans (Mem.set8_sameOn ?_)
  · unfold nextBufferOffset; omega
  · unfold bufferFlagOffset; omega

@[simp] theorem len_clearFlag : (clearFlag m h).len = m.len := rfl

@[simp] theorem len_linkNext : (linkNext m h next).len = m.len := rfl

theorem hasNext_clearFlag : hasNext (clearFlag m h) h = false := by
  unfold hasNext clearFlag
  rw [Mem.byte_set8_self]; rfl

/-- The flag of a slot that was just popped. -/
theorem byte_setInUsed_clearFlag :
    (setInUsed (clearFlag m h) h).byte (h + bufferFlagOffset) = sliceInUsedFlag := by
  unfold setInUsed clearFlag
  rw [Mem.byte_set8_self, Mem.byte_set8_self]; rfl

theorem hasNext_setInUsed_clearFlag : hasNext (setInUsed (clearFlag m h) h) h = false := by
  unfold hasNext
  rw [byte_setInUsed_clearFlag]; rfl

theorem isInUsed_setInUsed_clearFlag : isInUsed (setInUsed (clearFlag m h) h) h = true := by
  unfold isInUsed
  rw [byte_setInUsed_clearFlag]; rfl

theorem or_hasNextBufferFlag (x : UInt8) :
    (x ||| hasNextBufferFlag) &&& hasNextBufferFlag ≠ 0 := by
  have h : ∀ b : BitVec 8, (b ||| 1#8) &&& 1#8 ≠ 0#8 := by decide +kernel
  intro he
  exact h x.toBitVec (by simpa [hasNextBufferFlag] using congrArg UInt8.toBitVec he)

theorem hasNext_linkNext : hasNext (linkNext m h next) h = true := by
  unfold hasNext linkNext
  rw [Mem.byte_set8_self]
  simpa using or_hasNextBufferFlag _

theorem nextOffset_linkNext (hn : next < 2 ^ 32) : nextOffset (linkNext m h next) h = next := by
  unfold nextOffset linkNext
  rw [Mem.get32_set8_of_ne (by unfold nextBufferOffset bufferFlagOffset; omega),
    Mem.get32_set32_of_lt hn]

end Header

/-! ## Slices -/

/-- The bytes behind a slice: a range of the shared memory, or its own. -/
inductive Data
  | shm (addr len : ℕ)
  | heap (bytes : List UInt8)
  deriving DecidableEq, Repr

structure BufferSlice where
  /-- The address of the header; a heap slice has none. -/
  header : Option ℕ := none
  data : Data
  cap : ℕ
  start : ℕ := 0
  offsetInShm : ℕ := 0
  readIndex : ℤ := 0
  writeIndex : ℤ := 0
  isFromShm : Bool := false
  deriving DecidableEq, Repr

def Data.len : Data → ℕ
  | .shm _ n => n
  | .heap bs => bs.length

/-- Go's `cap`: a slice of the shared memory extends to its end. -/
def Data.capacity (m : Mem) : Data → ℕ
  | .shm a _ => m.len - a
  | .heap bs => bs.length

/-- `data[lo:hi]`. -/
def Data.sub (m : Mem) (d : Data) (lo hi : ℤ) : Go (List UInt8) :=
  if 0 ≤ lo ∧ lo ≤ hi ∧ hi ≤ d.capacity m then
    match d with
    | .shm a _ => .ok (m.read (a + lo.toNat) (hi - lo).toNat)
    | .heap bs => .ok ((bs.drop lo.toNat).take (hi - lo).toNat)
  else .error .sliceBounds

/-- The bytes `bs` written from index `lo` on. -/
def Data.store (m : Mem) (d : Data) (lo : ℕ) (bs : List UInt8) : Mem × Data :=
  match d with
  | .shm a n => (m.write (a + lo) bs, .shm a n)
  | .heap old => (m, .heap (old.take lo ++ bs ++ old.drop (lo + bs.length)))

/-- `newBufferSlice` on a header in shared memory (buffer_slice.go:52-67). -/
def newShmSlice (m : Mem) (h : ℕ) (data : Data) (offsetInShm : ℕ) : BufferSlice where
  header := some h
  data := data
  cap := m.get32 h
  start := m.get32 (h + bufferDataStartOffset)
  offsetInShm := offsetInShm
  readIndex := m.get32 (h + bufferDataStartOffset)
  writeIndex := u32 (m.get32 (h + bufferDataStartOffset) + m.get32 (h + bufferSizeOffset))
  isFromShm := true

/-- `newBufferSlice(nil, data, 0, false)`. -/
def newHeapSlice (bs : List UInt8) : BufferSlice where
  data := .heap bs
  cap := u32 bs.length

namespace BufferSlice

variable (s : BufferSlice) (m : Mem)

def size : ℤ := s.writeIndex - s.readIndex

def remain : ℤ := s.cap - s.writeIndex

/-- `bufferSlice.update`; `next` is the offset of `nextSlice`. -/
def update (next : Option ℕ) : Mem :=
  match s.header with
  | none => m
  | some h =>
    let m := m.set32 (h + bufferSizeOffset) (ofInt32 s.size)
    let m := m.set32 (h + bufferDataStartOffset) s.start
    match next with
    | none => m
    | some o => linkNext m h o

/-- `bufferSlice.reset`: the memory and the slice. -/
def reset : Mem × BufferSlice :=
  let m := match s.header with
    | none => m
    | some h =>
      clearFlag ((m.set32 (h + bufferSizeOffset) 0).set32 (h + bufferDataStartOffset) 0) h
  (m, { s with writeIndex := 0, readIndex := 0 })

/-- `bufferSlice.reserve`: the slice with `size` more bytes; what it returns to
    write to is the last `size` bytes before the write index. -/
def reserve (size : ℤ) : Go (Except Err BufferSlice) :=
  if s.remain ≥ size then
    if 0 ≤ s.writeIndex ∧ 0 ≤ size ∧ s.writeIndex + size ≤ s.data.capacity m then
      .ok (.ok { s with writeIndex := s.writeIndex + size })
    else .error .sliceBounds
  else .ok (.error .noMoreBuffer)

/-- The user fills what `reserve` returned with `bs`. -/
def fill (bs : List UInt8) : Mem × BufferSlice :=
  let (m, d) := s.data.store m (s.writeIndex.toNat - bs.length) bs
  (m, { s with data := d })

/-- `bufferSlice.append`: the memory, the slice and the number of bytes copied. -/
def append (bs : List UInt8) : Go (Mem × BufferSlice × ℕ) :=
  if bs.length = 0 then .ok (m, s, 0)
  else if 0 ≤ s.writeIndex ∧ s.writeIndex ≤ s.data.len then
    let n := min bs.length (s.data.len - s.writeIndex.toNat)
    let (m, d) := s.data.store m s.writeIndex.toNat (bs.take n)
    .ok (m, { s with writeIndex := s.writeIndex + n, data := d }, n)
  else .error .sliceBounds

/-- `bufferSlice.read`: the bytes, the slice, and whether there were enough. -/
def read (size : ℤ) : Go (List UInt8 × BufferSlice × Bool) :=
  let n := if s.size < size then s.size else size
  (s.data.sub m s.readIndex (s.readIndex + n)).map fun bs =>
    (bs, { s with readIndex := s.readIndex + n }, decide (size ≤ s.size))

/-- `bufferSlice.peek`. -/
def peek (size : ℤ) : Go (List UInt8) := (s.read m size).map fun r => r.1

/-- `bufferSlice.skip`. -/
def skip (size : ℤ) : BufferSlice × ℤ :=
  if s.size > size then ({ s with readIndex := s.readIndex + size }, size)
  else ({ s with readIndex := s.readIndex + s.size }, s.size)

end BufferSlice

end Shmipc.Buffer
