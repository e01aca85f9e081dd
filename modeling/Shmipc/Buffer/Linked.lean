import Shmipc.Buffer.Manager

/-!
# Linked buffers

The `linkedBuffer` behind a stream's reader and writer (buffer.go:83-534), and
`moveToWithoutLock`, which appends received messages to one (stream.go:473-523).

A `sliceList` is the list of its slices; `writeSlice` is a position in it. The
readers start behind their call of `readMore`, that is with `size ≤ l.len`.
-/

namespace Shmipc.Buffer

open Common

/-- `sliceList.writeSlice`. -/
inductive Cursor
  | nil
  | at (i : ℕ)
  /-- A slice that was popped off the list. -/
  | stale
  deriving DecidableEq, Repr

structure LinkedBuffer where
  slices : List BufferSlice := []
  writeSlice : Cursor := .nil
  pinnedList : List BufferSlice := []
  currentPinned : Bool := false
  isFromShm : Bool := true
  len : ℤ := 0
  deriving DecidableEq, Repr

def defaultSingleBufferSize : ℕ := 4096

namespace LinkedBuffer

variable (bm : Manager) (m : Mem) (l : LinkedBuffer)

/-! ## The list -/

def pushBack (s : BufferSlice) : LinkedBuffer := { l with slices := l.slices ++ [s] }

/-- `l.sliceList.writeSlice = l.sliceList.front()`. -/
def writeFront : LinkedBuffer :=
  { l with writeSlice := if l.slices = [] then .nil else .at 0 }

/-- `l.sliceList.writeSlice = l.sliceList.back()`. -/
def writeBack : LinkedBuffer :=
  { l with writeSlice := if l.slices = [] then .nil else .at (l.slices.length - 1) }

/-- `writeSlice = writeSlice.next()` of the slice at `i`. -/
def writeNext (i : ℕ) : LinkedBuffer :=
  { l with writeSlice := if i + 1 < l.slices.length then .at (i + 1) else .nil }

/-- The slice at the cursor, with its position. -/
def current : Go (ℕ × BufferSlice) :=
  match l.writeSlice with
  | .nil => .error .nilDereference
  | .stale => .error .staleSlice
  | .at i =>
    match l.slices[i]? with
    | none => .error .staleSlice
    | some s => .ok (i, s)

def front : Go BufferSlice :=
  match l.slices with
  | [] => .error .nilDereference
  | s :: _ => .ok s

def setSlice (i : ℕ) (s : BufferSlice) : LinkedBuffer := { l with slices := l.slices.set i s }

/-- `sliceList.popFront`, of a list that is not empty. -/
def popFront : LinkedBuffer :=
  { l with
    slices := l.slices.tail
    writeSlice := match l.writeSlice with
      | .at 0 => .stale
      | .at (i + 1) => .at i
      | c => c }

/-! ## Writing -/

/-- `linkedBuffer.alloc` (buffer.go:485-506). -/
def alloc (size : ℕ) : Go (Mem × LinkedBuffer) := do
  match ← bm.allocShmBuffer m size with
  | (m, .ok buf) => return (m, l.pushBack buf)
  | (m, .error _) =>
    let (m, bufs, allocSize) ← bm.allocShmBuffers m size
    let l := { l with slices := l.slices ++ bufs }
    let remain := (size : ℤ) - allocSize
    if remain > 0 then
      let remain := if remain < defaultSingleBufferSize then defaultSingleBufferSize
        else remain.toNat
      return (m, { l.pushBack (newHeapSlice (List.replicate remain 0)) with isFromShm := false })
    else return (m, l)

/-- The start of the writers: the first allocation of an empty buffer. -/
def start (size : ℕ) : Go (Mem × LinkedBuffer) :=
  if l.writeSlice = .nil then do
    let (m, l) ← l.alloc bm m size
    return (m, l.writeFront)
  else .ok (m, l)

/-- `linkedBuffer.WriteByte` (buffer.go:131-146). -/
def writeByte (b : UInt8) : Go (Mem × LinkedBuffer) := do
  let (m, l) ← l.start bm m 1
  let (i, s) ← l.current
  let (m, s, n) ← s.append m [b]
  let l := l.setSlice i s
  if n = 1 then return (m, { l with len := l.len + 1 })
  let (m, l) ← l.alloc bm m 1
  let l := l.writeNext i
  let (i, s) ← l.current
  let (m, s, _) ← s.append m [b]
  let l := l.setSlice i s
  return (m, { l with len := l.len + 1 })

/-- The loop of `WriteBytes`, with `data` to go and `k` rounds left. -/
def writeLoop : ℕ → Mem → LinkedBuffer → List UInt8 → Go (Mem × LinkedBuffer)
  | 0, _, _, _ => .error .endlessLoop
  | k + 1, m, l, data => do
    let (i, s) ← l.current
    let (m, s, n) ← s.append m data
    let l := l.setSlice i s
    if n < data.length then
      let data := data.drop n
      if i + 1 < l.slices.length then writeLoop k m (l.writeNext i) data
      else
        let (m, l) ← l.alloc bm m (u32 data.length)
        writeLoop k m (l.writeNext i) data
    else return (m, l)

/-- `linkedBuffer.WriteBytes` (buffer.go:148-173). Every round but the first and those
    over slices already there writes a byte. -/
def writeBytes (data : List UInt8) : Go (Mem × LinkedBuffer) :=
  if data.length = 0 then .ok (m, l)
  else do
    let (m, l) ← l.start bm m (u32 data.length)
    let (m, l) ← writeLoop bm (data.length + l.slices.length + 1) m l data
    return (m, { l with len := l.len + data.length })

/-- `linkedBuffer.WriteString`. -/
def writeString (str : List UInt8) : Go (Mem × LinkedBuffer) := l.writeBytes bm m str

/-- `linkedBuffer.Reserve` (buffer.go:177-216). The bytes it returns are the last
    `size` before the write index of the slice at the cursor. -/
def reserve (size : ℤ) : Go (Mem × LinkedBuffer × Except Err Unit) := do
  let (m, l) ← l.start bm m (ofInt32 size)
  let (i, s) ← l.current
  match ← s.reserve m size with
  | .ok s => return (m, { l.setSlice i s with len := l.len + size }, .ok ())
  | .error _ =>
    match ← (match l.slices[i + 1]? with
      | none => pure none
      | some e => do
        match ← e.reserve m size with
        | .ok e => pure (some e)
        | .error _ => pure none) with
    | some e =>
      return (m, { (l.setSlice (i + 1) e).writeNext i with len := l.len + size }, .ok ())
    | none =>
      let (m, r) ← bm.allocShmBuffer m (ofInt32 size)
      let l := match r with
        | .ok buf => l.pushBack buf
        | .error _ =>
          let allocSize := if size < defaultSingleBufferSize then defaultSingleBufferSize
            else size.toNat
          { l.pushBack (newHeapSlice (List.replicate allocSize 0)) with isFromShm := false }
      let l := { l.writeBack with len := l.len + size }
      let (i, s) ← l.current
      match ← s.reserve m size with
      | .ok s => return (m, l.setSlice i s, .ok ())
      | .error e => return (m, l, .error e)

/-- The user fills what `reserve` returned. -/
def fill (bs : List UInt8) : Go (Mem × LinkedBuffer) := do
  let (i, s) ← l.current
  let (m, s) := s.fill m bs
  return (m, l.setSlice i s)

/-! ## Sending -/

def recycleSlices : List BufferSlice → Mem → Go Mem
  | [], m => .ok m
  | s :: ss, m => do
    let m ← bm.recycleBuffer m s
    recycleSlices ss m

/-- `linkedBuffer.clean`; `endStream` is never set. -/
def clean : LinkedBuffer :=
  { l with
    slices := []
    writeSlice := .nil
    isFromShm := true
    currentPinned := false
    len := 0 }

/-- `linkedBuffer.recycle` (buffer.go:223-235). -/
def recycle : Go (Mem × LinkedBuffer) := do
  let m ← recycleSlices bm l.slices m
  return (m, l.clean)

def rootBufOffset : Go ℕ := l.front.map (·.offsetInShm)

/-- `update` of the first `k` slices, each linked to the following one. -/
def updateSlices : ℕ → List BufferSlice → Mem → Mem
  | 0, _, m => m
  | _ + 1, [], m => m
  | k + 1, s :: ss, m => updateSlices k ss (s.update m (ss.head?.map (·.offsetInShm)))

/-- `linkedBuffer.done` (buffer.go:241-262). -/
def done : Go (Mem × LinkedBuffer) :=
  if l.isFromShm then do
    let (i, _) ← l.current
    let m := updateSlices (i + 1) l.slices m
    let m ← recycleSlices bm (l.slices.drop (i + 1)) m
    return (m, { l with slices := l.slices.take (i + 1) })
  else .ok (m, l)

/-- The unread bytes of each slice, joined. -/
def joinData : List BufferSlice → Go (List UInt8)
  | [] => .ok []
  | s :: ss => do
    let bs ← s.data.sub m s.readIndex s.writeIndex
    let bss ← joinData ss
    return bs ++ bss

/-- `linkedBuffer.underlyingData` (buffer.go:264-273), joined. -/
def underlyingData : Go (List UInt8) :=
  joinData m (match l.writeSlice with
    | .at i => l.slices.take (i + 1)
    | _ => l.slices)

/-! ## Reading -/

/-- What a reader returns: the bytes, and the slot they lie in where they are not
    copied. -/
structure Lent where
  bytes : List UInt8
  slot : Option ℕ := none
  deriving DecidableEq, Repr

/-- `linkedBuffer.readNextSlice` (buffer.go:473-483). -/
def readNextSlice : Go (Mem × LinkedBuffer) := do
  let slice ← l.front
  let l := l.popFront
  if slice.isFromShm then
    if l.currentPinned then
      return (m, { l with pinnedList := l.pinnedList ++ [slice], currentPinned := false })
    else
      let m ← bm.recycleBuffer m slice
      return (m, { l with currentPinned := false })
  else return (m, { l with currentPinned := false })

/-- `readNextSlice` if the front slice has nothing left. -/
def skipExhausted : Go (Mem × LinkedBuffer) := do
  let s ← l.front
  if s.size = 0 then l.readNextSlice bm m else return (m, l)

/-- The loop of `read`, with `size` bytes to go. -/
def readIntoLoop : ℕ → Mem → LinkedBuffer → ℤ → Go (Mem × LinkedBuffer × List UInt8)
  | 0, _, _, _ => .error .endlessLoop
  | k + 1, m, l, size =>
    match l.slices with
    | [] => .ok (m, l, [])
    | front :: _ =>
      if size > 0 then do
        let (b, front, enough) ← front.read m size
        let l := l.setSlice 0 front
        if enough then return (m, l, b)
        let (m, l) ← l.readNextSlice bm m
        let (m, l, bs) ← readIntoLoop k m l (size - b.length)
        return (m, l, b ++ bs)
      else .ok (m, l, [])

/-- `linkedBuffer.read` into a slice of `size` bytes (buffer.go:275-298). -/
def read (size : ℕ) : Go (Mem × LinkedBuffer × List UInt8) :=
  if size = 0 then .ok (m, l, [])
  else do
    let (m, l, bs) ← readIntoLoop bm (l.slices.length + 1) m l size
    return (m, { l with len := l.len - bs.length }, bs)

/-- `linkedBuffer.ReadByte` (buffer.go:300-315). -/
def readByte : Go (Mem × LinkedBuffer × UInt8) := do
  let s ← l.front
  let (r, s, enough) ← s.read m 1
  let l := l.setSlice 0 s
  if enough then
    match r with
    | [] => throw .indexOutOfRange
    | b :: _ => return (m, { l with len := l.len - 1 }, b)
  else
    let (m, l) ← l.readNextSlice bm m
    let s ← l.front
    let (r, s, _) ← s.read m 1
    let l := l.setSlice 0 s
    match r with
    | [] => throw .indexOutOfRange
    | b :: _ => return (m, { l with len := l.len - 1 }, b)

/-- The slow path of `ReadBytes`, with `size` bytes to go. -/
def readBytesLoop : ℕ → Mem → LinkedBuffer → ℤ → Go (Mem × LinkedBuffer × List UInt8)
  | 0, _, _, _ => .error .endlessLoop
  | k + 1, m, l, size =>
    if size > 0 then do
      let s ← l.front
      let (readData, s, _) ← s.read m size
      let l := l.setSlice 0 s
      let (m, l) ← if (readData.length : ℤ) ≠ size then l.readNextSlice bm m else pure (m, l)
      let (m, l, bs) ← readBytesLoop k m l (size - readData.length)
      return (m, l, readData ++ bs)
    else .ok (m, l, [])

/-- `linkedBuffer.ReadBytes` (buffer.go:317-349). -/
def readBytes (size : ℤ) : Go (Mem × LinkedBuffer × Lent) :=
  if size ≤ 0 then .ok (m, l, ⟨[], none⟩)
  else do
    let (m, l) ← l.skipExhausted bm m
    let s ← l.front
    if s.size ≥ size then
      let (bs, s', _) ← s.read m size
      return (m, { l.setSlice 0 s' with currentPinned := true, len := l.len - size },
        ⟨bs, if s.isFromShm then some s.offsetInShm else none⟩)
    else
      let (m, l, bs) ← readBytesLoop bm (l.slices.length + 1) m
        { l with len := l.len - size } size
      return (m, l, ⟨bs, none⟩)

/-- The slow path of `ReadString`, with `size` bytes to go. -/
def readStringLoop : ℕ → Mem → LinkedBuffer → ℤ → Go (Mem × LinkedBuffer × List UInt8)
  | 0, _, _, _ => .error .endlessLoop
  | k + 1, m, l, size =>
    if size > 0 then do
      let (m, l) ← l.skipExhausted bm m
      let s ← l.front
      let (readData, s, _) ← s.read m size
      let l := l.setSlice 0 s
      let (m, l, bs) ← readStringLoop k m l (size - readData.length)
      return (m, l, readData ++ bs)
    else .ok (m, l, [])

/-- `linkedBuffer.ReadString` (buffer.go:351-379). -/
def readString (size : ℤ) : Go (Mem × LinkedBuffer × List UInt8) :=
  if size ≤ 0 then .ok (m, l, [])
  else do
    let s ← l.front
    if s.size ≥ size then
      let (data, s, _) ← s.read m size
      return (m, { l.setSlice 0 s with len := l.len - size }, data)
    else
      let (m, l, bs) ← readStringLoop bm (l.slices.length + 1) m l size
      return (m, { l with len := l.len - size }, bs)

/-- The slow path of `Peek`, over the slices behind the front. -/
def peekLoop : List BufferSlice → ℤ → Go (List UInt8)
  | [], _ => .ok []
  | e :: es, size =>
    if size > 0 then do
      let readBytes ← e.peek m size
      let bs ← peekLoop es (size - readBytes.length)
      return readBytes ++ bs
    else .ok []

/-- `linkedBuffer.Peek` (buffer.go:383-411). -/
def peek (size : ℤ) : Go (LinkedBuffer × Lent) :=
  if size ≤ 0 then .ok (l, ⟨[], none⟩)
  else do
    let s ← l.front
    let readBytes ← s.peek m size
    if (readBytes.length : ℤ) = size then
      return ({ l with currentPinned := true },
        ⟨readBytes, if s.isFromShm then some s.offsetInShm else none⟩)
    else
      let bs ← peekLoop m l.slices.tail (size - readBytes.length)
      return (l, ⟨readBytes ++ bs, none⟩)

/-- The loop of `Discard`: what is skipped. -/
def discardLoop : ℕ → Mem → LinkedBuffer → ℤ → Go (Mem × LinkedBuffer × ℤ)
  | 0, _, _, _ => .error .endlessLoop
  | k + 1, m, l, size => do
    let s ← l.front
    let (s, skip) := s.skip size
    let l := l.setSlice 0 s
    if size - skip = 0 then return (m, l, skip)
    let (m, l) ← l.readNextSlice bm m
    let (m, l, n) ← discardLoop k m l (size - skip)
    return (m, l, skip + n)

/-- `linkedBuffer.Discard` (buffer.go:413-430). -/
def discard (size : ℤ) : Go (Mem × LinkedBuffer × ℤ) := do
  let (m, l, n) ← discardLoop bm (l.slices.length + 1) m l size
  return (m, { l with len := l.len - n }, n)

/-! ## Releasing -/

/-- `linkedBuffer.cleanPinnedList` (buffer.go:432-445). -/
def cleanPinnedList : Go (Mem × LinkedBuffer) :=
  if l.pinnedList = [] then .ok (m, l)
  else do
    let m ← recycleSlices bm l.pinnedList m
    return (m, { l with currentPinned := false, pinnedList := [] })

/-- `linkedBuffer.ReleasePreviousRead` (buffer.go:447-458). -/
def releasePreviousRead : Go (Mem × LinkedBuffer) := do
  let (m, l) ← l.cleanPinnedList bm m
  match l.slices with
  | [] => return (m, l)
  | s :: _ =>
    if s.size = 0 ∧ l.writeSlice = .at 0 then
      let m ← bm.recycleBuffer m s
      return (m, { l.popFront with writeSlice := .nil })
    else return (m, l)

/-- `linkedBuffer.releasePreviousReadAndReserve` (buffer.go:460-471). -/
def releasePreviousReadAndReserve : Go (Mem × LinkedBuffer) := do
  let (m, l) ← l.cleanPinnedList bm m
  match l.slices with
  | [s] =>
    if l.len = 0 then
      if s.isFromShm then
        let (m, s) := s.reset m
        return (m, l.setSlice 0 s)
      else return (m, l.popFront)
    else return (m, l)
  | _ => return (m, l)

/-! ## Receiving -/

/-- `linkedBuffer.appendBufferSlice` (buffer.go:512-523). -/
def appendBufferSlice (slice : BufferSlice) : LinkedBuffer :=
  { (l.pushBack slice).writeBack with
    isFromShm := l.isFromShm && slice.isFromShm
    len := l.len + slice.size }

/-- The loop of `moveToWithoutLock` over the chain at `offset`, with `k` rounds left. -/
def moveChain : ℕ → Mem → LinkedBuffer → ℕ → Go (Mem × LinkedBuffer)
  | 0, _, _, _ => .error .endlessLoop
  | k + 1, m, toBuf, offset => do
    match ← readBufferSlice m offset with
    | .error _ => return (m, toBuf)
    | .ok slice =>
      let next := nextOffset m offset
      if slice.size = 0 then
        match toBuf.slices.getLast? with
        | none =>
          let m ← bm.recycleBuffer m slice
          moveChain k m toBuf next
        | some preSlice =>
          match preSlice.header with
          | none => throw .indexOutOfRange
          | some h =>
            if hasNext m offset then
              let m := linkNext m h next
              let m ← bm.recycleBuffer m slice
              moveChain k m toBuf next
            else
              let m := setInUsed (clearFlag m h) h
              let m ← bm.recycleBuffer m slice
              return (m, toBuf)
      else
        let toBuf := toBuf.appendBufferSlice slice
        if hasNext m offset then moveChain k m toBuf next else return (m, toBuf)

/-- `bufferSliceWrapper`: a message as it was received. -/
inductive Unread
  | fallback (payload : List UInt8)
  | chain (offset : ℕ)
  deriving DecidableEq, Repr

/-- The slice that `handleFallbackData` makes of a payload (protocol_manager.go:169-170). -/
def fallbackSlice (payload : List UInt8) : BufferSlice :=
  { newHeapSlice payload with writeIndex := payload.length }

/-- `pendingData.moveToWithoutLock` (stream.go:473-523). A chain of distinct slots has
    less than `len` members. -/
def moveTo : List Unread → Mem → LinkedBuffer → Go (Mem × LinkedBuffer)
  | [], m, toBuf => .ok (m, toBuf)
  | .fallback payload :: unread, m, toBuf =>
    moveTo unread m (toBuf.appendBufferSlice (fallbackSlice payload))
  | .chain offset :: unread, m, toBuf => do
    let (m, toBuf) ← moveChain bm m.len m toBuf offset
    moveTo unread m toBuf

/-- `pendingData.clear` (stream.go:537-555). -/
def clear : List Unread → Mem → Go Mem
  | [], m => .ok m
  | .fallback _ :: unread, m => clear unread m
  | .chain offset :: unread, m => do
    match ← readBufferSlice m offset with
    | .error _ => return m
    | .ok slice =>
      let m ← bm.recycleBuffers m slice
      clear unread m

end LinkedBuffer

end Shmipc.Buffer
