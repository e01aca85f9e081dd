import Shmipc.Buffer.FreeList

/-!
# The buffer manager

The size classes of one shared memory: creation, the mapping by another process,
allocation, recycling, and reading back a slice from its offset
(buffer_manager.go:259-335, 393-415 and 482-614).

Each function passes the memory on; calls of other streams come between calls.
-/

namespace Shmipc.Buffer

open Common

/-- `bufferManager`; its memory is passed beside it. -/
structure Manager where
  /-- Ascending by `capPerBuffer`. -/
  lists : List BufferList
  minSliceSize : ℕ
  maxSliceSize : ℕ
  deriving DecidableEq, Repr

/-! ## Creation -/

structure SizePercentPair where
  size : ℕ
  percent : ℕ
  deriving DecidableEq, Repr

def bufferManagerHeaderSize : ℕ := 8
def bmCapOffset : ℕ := 4

inductive ManagerError
  | memTooSmall (atLeast len : ℕ)
  | sumPercent
  | list (e : ListError)
  deriving DecidableEq, Repr

def ManagerError.message : ManagerError → String
  | .memTooSmall a l => s!"mem's size is at least:{a} but:{l}"
  | .sumPercent => "the sum of all SizePercentPair's percent must be equals 100"
  | .list e => e.message

/-- The loop of `createBufferManager` (buffer_manager.go:273-286). -/
def createLists (bufferRegionCap : ℕ) : List SizePercentPair → ℕ → ℕ → Mem →
    Go (Except ManagerError (Mem × List BufferList × ℕ))
  | [], _, hadUsedOffset, m => .ok (.ok (m, [], hadUsedOffset))
  | pair :: pairs, sumPercent, hadUsedOffset, m => do
    let sumPercent := u32 (sumPercent + pair.percent)
    if sumPercent > 100 then return .error .sumPercent
    if u32 (pair.size + bufferHeaderSize) = 0 then throw .divideByZero
    let bufferNum := u32 (bufferRegionCap * pair.percent % 2 ^ 64 / 100) /
      u32 (pair.size + bufferHeaderSize)
    let needSize := countBufferListMemSize bufferNum pair.size
    match ← createFreeBufferList bufferNum pair.size m hadUsedOffset with
    | .error e => return .error (.list e)
    | .ok (m, b) =>
      match ← createLists bufferRegionCap pairs sumPercent (u32 (hadUsedOffset + needSize)) m with
      | .error e => return .error e
      | .ok (m, bs, used) => return .ok (m, b :: bs, used)

/-- `createBufferManager` (buffer_manager.go:259-297). -/
def createBufferManager (pairs : List SizePercentPair) (m : Mem) (offset : ℕ) :
    Go (Except ManagerError (Mem × Manager)) := do
  if m.len ≤ offset then return .error (.memTooSmall (u32 (offset + 1)) m.len)
  let bufferRegionCap := (((m.len : ℤ) - offset - bufferListHeaderSize * pairs.length -
    bufferManagerHeaderSize) % 2 ^ 64).toNat
  let m := (m.set8 offset (UInt8.ofNat pairs.length)).set8 (offset + 1)
    (UInt8.ofNat (pairs.length / 256))
  match ← createLists bufferRegionCap pairs 0 (u32 (bufferManagerHeaderSize + offset)) m with
  | .error e => return .error e
  | .ok (m, lists, used) =>
    match pairs.head?, pairs.getLast? with
    | some first, some last =>
      checkIndex m.len (u32 (offset + bmCapOffset))
      return .ok (m.set32 (u32 (offset + bmCapOffset))
        (u32 (used + (2 ^ 32 - bufferManagerHeaderSize))), ⟨lists, first.size, last.size⟩)
    | _, _ => throw .indexOutOfRange

/-! ## Mapping -/

/-- The errors of `mappingBufferManager` and `mappingFreeBufferList`. -/
inductive MapError
  | memTooSmall (atLeast len bufferRegionStartOffset : ℕ)
  | listNum (listNum atLeast len : ℕ)
  | header (atLeast : ℕ)
  | region (size : ℤ) (cap head tail capPerBuffer needSize len : ℕ)
  deriving DecidableEq, Repr

def MapError.message : MapError → String
  | .memTooSmall a l s => s!"mem's size is at least:{a} but:{l} bufferRegionStartOffset:{s}"
  | .listNum n a l =>
    s!"could not mappingBufferManager ,listNum:{n} len(mem) at least:{a} but:{l}"
  | .header a => s!"mappingFreeBufferList failed, mem's size is at least {a}"
  | .region s c h t p n l => s!"mappingFreeBufferList failed, size:{s} cap:{c} head:{h} tail:{t} " ++
      s!"capPerBuffer:{p} err: mem's size is at least {n} but:{l}"

/-- `mappingFreeBufferList` (buffer_manager.go:393-415). Its counter is not where
    `createFreeBufferList` has it. -/
def mappingFreeBufferList (m : Mem) (offset : ℕ) : Go (Except MapError BufferList) :=
  if m.len < bufferListHeaderSize + offset then
    .ok (.error (.header (bufferListHeaderSize + offset)))
  else do
    let size := u32 offset
    let cap := u32 (offset + 4)
    let head := u32 (offset + 8)
    let tail := u32 (offset + 12)
    let capPerBuffer := u32 (offset + 16)
    let counter := u32 (offset + 24)
    checkIndex m.len size
    checkIndex m.len cap
    checkIndex m.len head
    checkIndex m.len tail
    checkIndex m.len capPerBuffer
    checkIndex m.len counter
    let needSize := countBufferListMemSize (m.get32 cap) (m.get32 capPerBuffer)
    let bufferRegionStart := u32 (offset + bufferListHeaderSize)
    let bufferRegionEnd := u32 (offset + needSize)
    if bufferRegionEnd > u32 m.len ∨ bufferRegionEnd < bufferRegionStart then
      return .error (.region (toInt32 (m.get32 size)) (m.get32 cap) (m.get32 head) (m.get32 tail)
        (m.get32 capPerBuffer) needSize m.len)
    checkBounds m 0 bufferRegionStart bufferRegionEnd
    return .ok
      { size := size
        cap := cap
        head := head
        tail := tail
        capPerBuffer := capPerBuffer
        counter := counter
        regionStart := bufferRegionStart
        regionLen := bufferRegionEnd - bufferRegionStart
        bufferRegionOffsetInShm := bufferRegionStart
        offsetInShm := offset }

/-- The loop of `mappingBufferManager` (buffer_manager.go:314-324), with `k` lists to go. -/
def mappingLists (m : Mem) (start : ℕ) : ℕ → ℕ → Go (Except MapError (List BufferList))
  | 0, _ => .ok (.ok [])
  | k + 1, hadUsedOffset => do
    match ← mappingFreeBufferList m (u32 (start + hadUsedOffset)) with
    | .error e => return .error e
    | .ok l =>
      let size := countBufferListMemSize (m.get32 l.cap) (m.get32 l.capPerBuffer)
      match ← mappingLists m start k (u32 (hadUsedOffset + size)) with
      | .error e => return .error e
      | .ok ls => return .ok (l :: ls)

/-- `mappingBufferManager` (buffer_manager.go:299-335). -/
def mappingBufferManager (m : Mem) (start : ℕ) : Go (Except MapError Manager) :=
  if m.len ≤ u32 (start + bmCapOffset) ∨ m.len ≤ start then
    .ok (.error (.memTooSmall (u32 (start + bmCapOffset + 1)) m.len start))
  else do
    let listNum := (m.byte start).toNat + 2 ^ 8 * (m.byte (start + 1)).toNat
    let length := m.get32 (u32 (start + bmCapOffset))
    if m.len < bufferManagerHeaderSize + length ∨ listNum = 0 then
      return .error (.listNum listNum (u32 (length + bufferManagerHeaderSize)) m.len)
    match ← mappingLists m start listNum bufferManagerHeaderSize with
    | .error e => return .error e
    | .ok lists =>
      match lists.head?, lists.getLast? with
      | some first, some last =>
        return .ok ⟨lists, m.get32 first.capPerBuffer, m.get32 last.capPerBuffer⟩
      | _, _ => throw .indexOutOfRange

/-! ## Allocation -/

/-- The loop of `allocShmBuffer`. -/
def allocLoop (size : ℕ) : List BufferList → Mem → Go (Mem × Except Err BufferSlice)
  | [], m => .ok (m, .error .noMoreBuffer)
  | b :: bs, m =>
    if size ≤ m.get32 b.capPerBuffer then do
      match ← b.pop m with
      | (m, .ok buf) => return (m, .ok buf)
      | (m, .error _) => allocLoop size bs m
    else allocLoop size bs m

/-- `bufferManager.allocShmBuffer` (buffer_manager.go:482-495). -/
def Manager.allocShmBuffer (bm : Manager) (m : Mem) (size : ℕ) :
    Go (Mem × Except Err BufferSlice) :=
  if size ≤ bm.maxSliceSize then allocLoop size bm.lists m else .ok (m, .error .noMoreBuffer)

/-- The inner loop of `allocShmBuffers`: the slices it pops, and what remains to be
    allocated. Each round takes a slot, so `*size` rounds are enough. -/
def popMany (b : BufferList) : ℕ → ℤ → Mem → Go (Mem × List BufferSlice × ℤ)
  | 0, remain, m => .ok (m, [], remain)
  | k + 1, remain, m =>
    if remain > 0 then do
      match ← b.pop m with
      | (m, .error _) => return (m, [], remain)
      | (m, .ok buf) =>
        let (m, bufs, remain) ← popMany b k (remain - buf.cap) m
        return (m, buf :: bufs, remain)
    else .ok (m, [], remain)

/-- The outer loop, over the lists from the last to the first. -/
def allocManyLoop : List BufferList → ℤ → Mem → Go (Mem × List BufferSlice × ℤ)
  | [], remain, m => .ok (m, [], remain)
  | b :: bs, remain, m =>
    if remain > 0 then do
      let (m, bufs, remain) ← popMany b (m.get32 b.size) remain m
      let (m, bufs', remain) ← allocManyLoop bs remain m
      return (m, bufs ++ bufs', remain)
    else .ok (m, [], remain)

/-- `bufferManager.allocShmBuffers` (buffer_manager.go:497-512): the slices it pushes
    back to the list, and the size it allocated. -/
def Manager.allocShmBuffers (bm : Manager) (m : Mem) (size : ℕ) :
    Go (Mem × List BufferSlice × ℤ) := do
  let (m, bufs, remain) ← allocManyLoop bm.lists.reverse size m
  return (m, bufs, size - remain)

/-! ## Recycling and reading back -/

def recycleLoop (slice : BufferSlice) : List BufferList → Mem → Go Mem
  | [], m => .ok m
  | b :: bs, m =>
    if slice.cap = m.get32 b.capPerBuffer then b.push m slice else recycleLoop slice bs m

/-- `bufferManager.recycleBuffer` (buffer_manager.go:514-528). -/
def Manager.recycleBuffer (bm : Manager) (m : Mem) (slice : BufferSlice) : Go Mem :=
  if slice.isFromShm then recycleLoop slice bm.lists m else .ok m

/-- The errors of `readBufferSlice`. -/
inductive ReadError
  | offset (offset cap : ℕ)
  | endOffset (bufferEndOffset bufferStartOffset cap : ℕ)
  deriving DecidableEq, Repr

def ReadError.message : ReadError → String
  | .offset o c => s!"broken share memory. readBufferSlice unexpected offset:{o} buffers cap:{c}"
  | .endOffset e o c => s!"broken share memory. readBufferSlice unexpected bufferEndOffset:{e}. " ++
      s!"bufferStartOffset:{o} buffers cap:{c}"

/-- `bufferManager.readBufferSlice` (buffer_manager.go:559-571). -/
def readBufferSlice (m : Mem) (offset : ℕ) : Go (Except ReadError BufferSlice) :=
  if offset + bufferHeaderSize ≥ m.len then .ok (.error (.offset offset m.len))
  else
    let bufCap := m.get32 offset
    let bufEndOffset := u32 (offset + bufferHeaderSize + bufCap)
    if bufEndOffset > u32 m.len then .ok (.error (.endOffset bufEndOffset offset m.len))
    else do
      let lo := u32 (offset + bufferHeaderSize)
      checkBounds m 0 offset lo
      checkBounds m 0 lo bufEndOffset
      return .ok (newShmSlice m offset (.shm lo (bufEndOffset - lo)) offset)

/-- `bufferHeader.hasNext` of a slice; a heap slice has no header to index. -/
def BufferSlice.hasNext (s : BufferSlice) (m : Mem) : Go Bool :=
  match s.header with
  | none => .error .indexOutOfRange
  | some h => .ok (Buffer.hasNext m h)

/-- The loop of `recycleBuffers` (buffer_manager.go:530-550), with `k` rounds left. -/
def recycleChain (bm : Manager) : ℕ → Mem → BufferSlice → Go Mem
  | 0, _, _ => .error .endlessLoop
  | k + 1, m, slice => do
    if ← slice.hasNext m then
      match slice.header with
      | none => throw .indexOutOfRange
      | some h =>
        let nextSliceOffset := nextOffset m h
        let m ← bm.recycleBuffer m slice
        match ← readBufferSlice m nextSliceOffset with
        | .error _ => return m
        | .ok slice => recycleChain bm k m slice
    else bm.recycleBuffer m slice

/-- `bufferManager.recycleBuffers`. A chain of distinct slots has less than `len`
    members, so a walk of `len` rounds does not end. -/
def Manager.recycleBuffers (bm : Manager) (m : Mem) (slice : BufferSlice) : Go Mem :=
  if slice.isFromShm then recycleChain bm m.len m slice else .ok m

/-! ## The check before the memory is unmapped -/

/-- `bufferManager.checkBufferReturned` (buffer_manager.go:604-614). -/
def Manager.checkBufferReturned (bm : Manager) (m : Mem) : Bool :=
  bm.lists.all fun l => m.get32 l.size = m.get32 l.cap ∧ toInt32 (m.get32 l.counter) = 0

end Shmipc.Buffer
