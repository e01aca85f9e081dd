import Shmipc.Buffer.Slice
import Shmipc.Common.Chain
import Shmipc.Common.Trans

/-!
# The free list of a size class

A class is a 36-byte list header followed by its slots, each a 20-byte slot
header and `capPerBuffer` bytes; free slots are linked through their headers
from `head` to `tail` (buffer_manager.go:337-462). Here `pop` and `push` run
one after the other.

`Chained off cap m F` says that the free slots of the list at `off` are `F`, from the head
to the tail, wherever they lie; `FreeInv off n cap m F` that they are also slots of the list.

Results:
* `pop_popped`, `push_eq`: what the operations return and do to the memory.
* `Chained.pop`, `Chained.push`: they take the first slot and put one behind the last.
* `createFreeBufferList_spec`: the created list has all its slots free, in order.
-/

namespace Shmipc.Buffer

open Common

/-! ## The code -/

def bufferListHeaderSize : ℕ := 36

/-- `bufferList`: the addresses of its words, and its region. -/
structure BufferList where
  size : ℕ
  cap : ℕ
  head : ℕ
  tail : ℕ
  capPerBuffer : ℕ
  counter : ℕ
  /-- `bufferRegion`: where it starts in the shared memory, and its length. -/
  regionStart : ℕ
  regionLen : ℕ
  bufferRegionOffsetInShm : ℕ
  offsetInShm : ℕ
  deriving DecidableEq, Repr

/-- The errors of `createFreeBufferList`, with the values their texts show. -/
inductive ListError
  | zero (bufferNum capPerBuffer : ℕ)
  | memTooSmall (atLeast len offsetInMem atLeastSize : ℕ)
  | bounds (bufferRegionStart bufferRegionEnd : ℕ)
  deriving DecidableEq, Repr

def ListError.message : ListError → String
  | .zero n c => s!"bufferNum:{n} or capPerBuffer:{c} cannot be 0 "
  | .memTooSmall a l o s => s!"mem's size is at least:{a} but:{l} offsetInMem:{o} atLeastSize:{s}"
  | .bounds s e => s!"bufferRegionStart:{s} bufferRegionEnd:{e} slice bounds out of range"

/-- `countBufferListMemSize` (buffer_manager.go:337-339). -/
def countBufferListMemSize (bufferNum capPerBuffer : ℕ) : ℕ :=
  u32 (bufferListHeaderSize + bufferNum * u32 (capPerBuffer + bufferHeaderSize))

/-- The check of an index `i` into a slice of length `len`. -/
def checkIndex (len i : ℕ) : Go Unit := if i < len then .ok () else .error .indexOutOfRange

/-- The check of `s[lo:hi]` on a slice of the shared memory that starts at `start`. -/
def checkBounds (m : Mem) (start lo hi : ℕ) : Go Unit :=
  if lo ≤ hi ∧ start + hi ≤ m.len then .ok () else .error .sliceBounds

/-- The loop of `createFreeBufferList` that writes the slot headers
    (buffer_manager.go:377-389), with `k` slots to go. -/
def initSlots (start len capPerBuffer : ℕ) : ℕ → ℕ → Mem → Go Mem
  | 0, _, m => .ok m
  | k + 1, current, m => do
    let next := u32 (current + capPerBuffer + bufferHeaderSize)
    checkIndex len current
    let m := m.set32 (start + current) capPerBuffer
    let size := u32 (current + bufferSizeOffset)
    checkIndex len size
    let m := m.set32 (start + size) 0
    let dataStart := u32 (current + bufferDataStartOffset)
    checkIndex len dataStart
    let m := m.set32 (start + dataStart) 0
    if 0 < k then
      let nextField := u32 (current + nextBufferOffset)
      checkIndex len nextField
      let m := m.set32 (start + nextField) next
      let flag := u32 (current + bufferFlagOffset)
      checkIndex len flag
      let m := m.set8 (start + flag) (m.byte (start + flag) ||| hasNextBufferFlag)
      initSlots start len capPerBuffer k next m
    else initSlots start len capPerBuffer k next m

/-- `createFreeBufferList` (buffer_manager.go:341-391). -/
def createFreeBufferList (bufferNum capPerBuffer : ℕ) (m : Mem) (offsetInMem : ℕ) :
    Go (Except ListError (Mem × BufferList)) :=
  if bufferNum = 0 ∨ capPerBuffer = 0 then .ok (.error (.zero bufferNum capPerBuffer))
  else
    let atLeastSize := countBufferListMemSize bufferNum capPerBuffer
    if m.len < u32 (offsetInMem + atLeastSize) ∨ offsetInMem > u32 m.len ∨
        atLeastSize > u32 m.len then
      .ok (.error (.memTooSmall (u32 (offsetInMem + atLeastSize)) m.len offsetInMem atLeastSize))
    else
      let bufferRegionStart := u32 (offsetInMem + bufferListHeaderSize)
      let bufferRegionEnd := u32 (offsetInMem + atLeastSize)
      if bufferRegionEnd ≤ bufferRegionStart then
        .ok (.error (.bounds bufferRegionStart bufferRegionEnd))
      else do
        let b : BufferList :=
          { size := u32 offsetInMem
            cap := u32 (offsetInMem + 4)
            head := u32 (offsetInMem + 8)
            tail := u32 (offsetInMem + 12)
            capPerBuffer := u32 (offsetInMem + 16)
            counter := u32 (offsetInMem + 20)
            regionStart := bufferRegionStart
            regionLen := bufferRegionEnd - bufferRegionStart
            bufferRegionOffsetInShm := bufferRegionStart
            offsetInShm := offsetInMem }
        checkIndex m.len b.size
        checkIndex m.len b.cap
        checkIndex m.len b.head
        checkIndex m.len b.tail
        checkIndex m.len b.capPerBuffer
        checkIndex m.len b.counter
        checkBounds m 0 bufferRegionStart bufferRegionEnd
        let m := m.set32 b.size bufferNum
        let m := m.set32 b.cap bufferNum
        let m := m.set32 b.head 0
        let tail := u32 ((bufferNum - 1) * u32 (capPerBuffer + bufferHeaderSize))
        let m := m.set32 b.tail tail
        let m := m.set32 b.capPerBuffer capPerBuffer
        let m := m.set32 b.counter 0
        let m ← initSlots b.regionStart b.regionLen capPerBuffer bufferNum 0 m
        -- `bufferHeader(b.bufferRegion[*b.tail:]).clearFlag()`
        let tail := m.get32 b.tail
        if tail ≤ b.regionLen then
          checkIndex (b.regionLen - tail) bufferFlagOffset
          return .ok (clearFlag m (b.regionStart + tail), b)
        else .error .sliceBounds

/-- The loop of `pop` (buffer_manager.go:425-445), with `k` tries left. -/
def popLoop (b : BufferList) : ℕ → ℕ → Mem → Go (Mem × Except Err BufferSlice)
  | 0, _, m => .ok ((m.addInt32 b.size 1).1, .error .noMoreBuffer)
  | k + 1, oldHead, m => do
    checkBounds m b.regionStart oldHead (u32 (oldHead + bufferHeaderSize))
    let bh := b.regionStart + oldHead
    if hasNext m bh then
      if m.get32 b.head = oldHead then
        let m := m.set32 b.head (nextOffset m bh)
        let m := clearFlag m bh
        let m := setInUsed m bh
        let m := (m.addInt32 b.counter 1).1
        let lo := u32 (oldHead + bufferHeaderSize)
        let hi := u32 (oldHead + bufferHeaderSize + m.get32 b.capPerBuffer)
        checkBounds m b.regionStart lo hi
        return (m, .ok (newShmSlice m bh (.shm (b.regionStart + lo) (hi - lo))
          (u32 (oldHead + b.bufferRegionOffsetInShm))))
      else popLoop b k (m.get32 b.head) m
    else if toInt32 (m.get32 b.size) ≤ 1 then
      .ok ((m.addInt32 b.size 1).1, .error .noMoreBuffer)
    else popLoop b k (m.get32 b.head) m

/-- "when data races occurred, max retry 200 times." -/
def popRetries : ℕ := 200

/-- `bufferList.pop` (buffer_manager.go:417-448). -/
def BufferList.pop (b : BufferList) (m : Mem) : Go (Mem × Except Err BufferSlice) :=
  let oldHead := m.get32 b.head
  let (m, remain) := m.addInt32 b.size (-1)
  if remain ≤ 0 then .ok ((m.addInt32 b.size 1).1, .error .noMoreBuffer)
  else popLoop b popRetries oldHead m

/-- `bufferList.push` (buffer_manager.go:450-462); nobody comes between the load of
    the tail and its CAS. -/
def BufferList.push (b : BufferList) (m : Mem) (buffer : BufferSlice) : Go Mem := do
  let (m, _) := buffer.reset m
  let oldTail := m.get32 b.tail
  let newTail := u32 (buffer.offsetInShm + (2 ^ 32 - b.bufferRegionOffsetInShm))
  let m := m.set32 b.tail newTail
  checkBounds m b.regionStart oldTail (u32 (oldTail + bufferHeaderSize))
  let m := linkNext m (b.regionStart + oldTail) newTail
  let m := (m.addInt32 b.size 1).1
  return (m.addInt32 b.counter (-1)).1

/-! ## The layout of a list -/

section Layout

variable {b : BufferList} {off n cap o o' : ℕ} {m m' : Mem} {F : List ℕ}

/-- The offsets of the `n` slots in the region. -/
def slotOffsets (n cap : ℕ) : List ℕ := (List.range n).map (· * (cap + bufferHeaderSize))

theorem mem_slotOffsets : o ∈ slotOffsets n cap ↔ ∃ i < n, o = i * (cap + 20) := by
  simp [slotOffsets, bufferHeaderSize, eq_comm]

theorem slot_le (h : o ∈ slotOffsets n cap) : o + (cap + 20) ≤ n * (cap + 20) := by
  obtain ⟨i, hi, rfl⟩ := mem_slotOffsets.mp h
  calc i * (cap + 20) + (cap + 20) = (i + 1) * (cap + 20) := by ring
    _ ≤ n * (cap + 20) := Nat.mul_le_mul_right _ hi

theorem slot_disjoint (h : o ∈ slotOffsets n cap) (h' : o' ∈ slotOffsets n cap) (hne : o ≠ o') :
    o + (cap + 20) ≤ o' ∨ o' + (cap + 20) ≤ o := by
  obtain ⟨i, hi, rfl⟩ := mem_slotOffsets.mp h
  obtain ⟨j, hj, rfl⟩ := mem_slotOffsets.mp h'
  have hij : i ≠ j := fun he => hne (by rw [he])
  rcases Nat.lt_or_gt_of_ne hij with hlt | hlt
  · left
    calc i * (cap + 20) + (cap + 20) = (i + 1) * (cap + 20) := by ring
      _ ≤ j * (cap + 20) := Nat.mul_le_mul_right _ hlt
  · right
    calc j * (cap + 20) + (cap + 20) = (j + 1) * (cap + 20) := by ring
      _ ≤ i * (cap + 20) := Nat.mul_le_mul_right _ hlt

theorem slotOffsets_nodup : (slotOffsets n cap).Nodup := by
  refine List.Nodup.map (fun i j h => ?_) List.nodup_range
  exact Nat.eq_of_mul_eq_mul_right (by unfold bufferHeaderSize; omega) h

/-- The words of `b` are those of a list at `off`; the creator and a process that
    maps the list have the counter at different places. -/
structure ListAt (b : BufferList) (off n cap : ℕ) : Prop where
  size : b.size = off
  head : b.head = off + 8
  tail : b.tail = off + 12
  capPerBuffer : b.capPerBuffer = off + 16
  counter : b.counter = off + 20 ∨ b.counter = off + 24
  regionStart : b.regionStart = off + 36
  regionOffset : b.bufferRegionOffsetInShm = off + 36
  fits : off + 36 + n * (cap + 20) < 2 ^ 32

/-- The successor of a slot in the region that starts at `base`. -/
def nextAt (m : Mem) (base o : ℕ) : Option ℕ :=
  if hasNext m (base + o) then some (nextOffset m (base + o)) else none

theorem nextAt_congr {base : ℕ} (h : m.SameOn m' (base + o) (base + o + 20)) :
    nextAt m' base o = nextAt m base o := by
  unfold nextAt
  rw [hasNext_congr (h.mono (by omega) (by omega)), nextOffset_congr (h.mono (by omega) (by omega))]

/-- The free slots `F` in the words and the links of the list at `off`, from the head to
    the tail. -/
structure FreeWords (off cap : ℕ) (m : Mem) (F : List ℕ) : Prop where
  capWord : m.get32 (off + 16) = cap
  size : m.get32 off = F.length
  head : F.head? = some (m.get32 (off + 8))
  tail : F.getLast? = some (m.get32 (off + 12))
  chain : Chain (nextAt m (off + 36)) F
  /-- A free slot has been reset. -/
  reset : ∀ o ∈ F, m.get32 (off + 36 + o + 4) = 0 ∧ m.get32 (off + 36 + o + 8) = 0
  nodup : F.Nodup

theorem FreeWords.congr (h : FreeWords off cap m F) (hw : m.SameOn m' off (off + 20))
    (hF : ∀ o ∈ F, m.SameOn m' (off + 36 + o) (off + 36 + o + 20)) : FreeWords off cap m' F where
  capWord := by rw [Mem.get32_congr (hw.mono (by omega) (by omega))]; exact h.capWord
  size := by rw [Mem.get32_congr (hw.mono (by omega) (by omega))]; exact h.size
  head := by rw [Mem.get32_congr (hw.mono (by omega) (by omega))]; exact h.head
  tail := by rw [Mem.get32_congr (hw.mono (by omega) (by omega))]; exact h.tail
  chain := h.chain.congr fun o ho => nextAt_congr (hF o ho)
  reset o ho := by
    have hs := hF o ho
    rw [Mem.get32_congr (hs.mono (by omega) (by omega)),
      Mem.get32_congr (hs.mono (by omega) (by omega))]
    exact h.reset o ho
  nodup := h.nodup

/-- The free slots of the list at `off` are `F`, from the head to the tail. -/
structure FreeInv (off n cap : ℕ) (m : Mem) (F : List ℕ) : Prop
    extends words : FreeWords off cap m F where
  len : off + 36 + n * (cap + 20) ≤ m.len
  slots : ∀ o ∈ F, o ∈ slotOffsets n cap
  caps : ∀ o ∈ slotOffsets n cap, m.get32 (off + 36 + o) = cap

theorem FreeInv.tail_mem (h : FreeInv off n cap m F) : m.get32 (off + 12) ∈ slotOffsets n cap :=
  h.slots _ (List.mem_of_getLast? h.tail)

/-- The invariant depends on the list's words, on the headers of its free slots and
    on the capacities of all its slots. -/
theorem FreeInv.congr (h : FreeInv off n cap m F) (hlen : m'.len = m.len)
    (hw : m.SameOn m' off (off + 20))
    (hF : ∀ o ∈ F, m.SameOn m' (off + 36 + o) (off + 36 + o + 20))
    (hcaps : ∀ o ∈ slotOffsets n cap, m.SameOn m' (off + 36 + o) (off + 36 + o + 4)) :
    FreeInv off n cap m' F where
  words := h.words.congr hw hF
  len := by rw [hlen]; exact h.len
  slots := h.slots
  caps o ho := by rw [Mem.get32_congr (hcaps o ho)]; exact h.caps o ho

/-- The slot at `o` from the region of the list on lies in the memory, where 32 bits reach. -/
structure Fits (m : Mem) (off cap o : ℕ) : Prop where
  len : off + 36 + o + 20 + cap ≤ m.len
  small : off + 36 + o + 20 + cap < 2 ^ 32

/-- The free chain of the list at `off` is `F`, from the head to the tail. -/
structure Chained (off cap : ℕ) (m : Mem) (F : List ℕ) : Prop
    extends words : FreeWords off cap m F where
  caps : ∀ o ∈ F, m.get32 (off + 36 + o) = cap
  fits : ∀ o ∈ F, Fits m off cap o
  apart : ∀ o ∈ F, ∀ o' ∈ F, o ≠ o' → o + (cap + 20) ≤ o' ∨ o' + (cap + 20) ≤ o

theorem ListAt.fits_slot (hb : ListAt b off n cap) (hlen : off + 36 + n * (cap + 20) ≤ m.len)
    (ho : o ∈ slotOffsets n cap) : Fits m off cap o := by
  have := slot_le ho
  have := hb.fits
  exact ⟨by omega, by omega⟩

theorem FreeInv.chained (h : FreeInv off n cap m F) (hfit : off + 36 + n * (cap + 20) < 2 ^ 32) :
    Chained off cap m F where
  words := h.words
  caps o ho := h.caps o (h.slots o ho)
  fits o ho := by
    have := slot_le (h.slots o ho)
    have := h.len
    exact ⟨by omega, by omega⟩
  apart o ho o' ho' hne := slot_disjoint (h.slots o ho) (h.slots o' ho') hne

/-- The chain depends on the list's words and on the headers of its slots. -/
theorem Chained.congr (h : Chained off cap m F) (hlen : m'.len = m.len)
    (hw : m.SameOn m' off (off + 20))
    (hF : ∀ o ∈ F, m.SameOn m' (off + 36 + o) (off + 36 + o + 20)) : Chained off cap m' F where
  words := h.words.congr hw hF
  caps o ho := by rw [Mem.get32_congr ((hF o ho).mono (by omega) (by omega))]; exact h.caps o ho
  fits o ho := ⟨hlen ▸ (h.fits o ho).len, (h.fits o ho).small⟩
  apart := h.apart

/-- The slots of a chain do not overlap, so there are not many of them. -/
theorem Chained.length_le (h : Chained off cap m F) : F.length * 20 ≤ m.len ∧ F.length < 2 ^ 31 := by
  have hinj : (F.map (· / 20)).Nodup := by
    refine h.nodup.map_on fun o ho o' ho' he => ?_
    by_contra hne
    have := h.apart o ho o' ho' hne
    omega
  have hlt : ∀ len : ℕ, (∀ o ∈ F, off + 36 + o + 20 + cap ≤ len) → F.length ≤ len / 20 := by
    intro len hle
    have hsub : F.map (· / 20) ⊆ List.range (len / 20) := by
      intro x hx
      obtain ⟨o, ho, rfl⟩ := List.mem_map.mp hx
      have := hle o ho
      exact List.mem_range.mpr (by omega)
    simpa using (hinj.subperm hsub).length_le
  have h1 := hlt m.len fun o ho => (h.fits o ho).len
  have h2 := hlt (2 ^ 32) fun o ho => (h.fits o ho).small.le
  omega

end Layout

/-! ## What the operations do to the memory -/

section Ops

variable {b : BufferList} {off n cap o o' : ℕ} {m m' : Mem} {F : List ℕ}

/-- The slice of the slot at address `a`. -/
def slotSlice (a cap : ℕ) : BufferSlice where
  header := some a
  data := .shm (a + 20) cap
  cap := cap
  offsetInShm := a
  isFromShm := true

theorem ListAt.slot_lt (hb : ListAt b off n cap) (ho : o ∈ slotOffsets n cap) :
    off + 36 + o + 20 + cap < 2 ^ 32 := by
  have := slot_le ho
  have := hb.fits
  omega

theorem ListAt.length_lt (hb : ListAt b off n cap) (h : FreeInv off n cap m F) :
    F.length < 2 ^ 31 := (h.chained hb.fits).length_le.2

/-- The memory after a `pop` of slot `o`, with `next` behind it. -/
def popMem (m : Mem) (off counter o next : ℕ) : Mem :=
  ((setInUsed (clearFlag ((m.addInt32 off (-1)).1.set32 (off + 8) next) (off + 36 + o))
    (off + 36 + o)).addInt32 counter 1).1

@[simp] theorem len_popMem {counter next : ℕ} : (popMem m off counter o next).len = m.len := rfl

theorem popMem_sameOn {counter next lo hi : ℕ} (hc : counter = off + 20 ∨ counter = off + 24)
    (hr : hi ≤ off ∨ off + 12 ≤ lo ∧ hi ≤ off + 20 ∨ off + 36 ≤ lo)
    (ho : hi ≤ off + 36 + o + 16 ∨ off + 36 + o + 16 < lo) :
    m.SameOn (popMem m off counter o next) lo hi := by
  unfold popMem
  refine (Mem.addInt32_sameOn (by omega)).trans ((Mem.set32_sameOn (by omega)).trans
    ((clearFlag_sameOn (by omega)).trans ((setInUsed_sameOn (by omega)).trans
    (Mem.addInt32_sameOn (by omega)))))

theorem newShmSlice_eq {a : ℕ} (hcap : m.get32 a = cap) (hsize : m.get32 (a + 4) = 0)
    (hstart : m.get32 (a + 8) = 0) : newShmSlice m a (.shm (a + 20) cap) a = slotSlice a cap := by
  simp [newShmSlice, slotSlice, bufferDataStartOffset, bufferSizeOffset, hcap, hsize, hstart, u32]

theorem checkBounds_ok {start lo hi : ℕ} (h : lo ≤ hi) (h' : start + hi ≤ m.len) :
    checkBounds m start lo hi = .ok () := if_pos ⟨h, h'⟩

theorem hasNext_of_nextAt {base : ℕ} (h : nextAt m base o = some o') :
    hasNext m (base + o) = true ∧ nextOffset m (base + o) = o' := by
  unfold nextAt at h
  split_ifs at h with hn
  exact ⟨hn, by simpa using h⟩

/-- What `pop` takes: the slot at the head if another one is behind it, and that one. -/
def popped (m : Mem) (off : ℕ) : Option (ℕ × ℕ) :=
  if 0 < (m.addInt32 off (-1)).2 then
    (nextAt m (off + 36) (m.get32 (off + 8))).map fun o' => (m.get32 (off + 8), o')
  else none

/-- The slice of the slot at address `a`, as its header has it. -/
def headerSlice (m : Mem) (a cap : ℕ) : BufferSlice := newShmSlice m a (.shm (a + 20) cap) a

/-- The loop gives up on a head without a successor, if only after all tries. -/
theorem popLoop_last (hb : ListAt b off n cap) (hfit : Fits m off cap o)
    (hhead : m.get32 (off + 8) = o) (hflag : hasNext m (off + 36 + o) = false) :
    ∀ k, popLoop b k o m = .ok ((m.addInt32 off 1).1, .error .noMoreBuffer) := by
  obtain ⟨hlen, hlt⟩ := hfit
  intro k
  induction k with
  | zero => rw [popLoop, hb.size]
  | succ k ih =>
    unfold popLoop
    rw [hb.regionStart, hb.head, hb.size, hhead, ih, u32_of_lt (by unfold bufferHeaderSize; omega),
      checkBounds_ok (by omega) (by unfold bufferHeaderSize; omega)]
    simp [bind, Except.bind, hflag]

/-- The loop takes a head with a successor at once. -/
theorem popLoop_take (hb : ListAt b off n cap) (hcap : m.get32 (off + 16) = cap)
    (hfit : Fits m off cap o) (hhead : m.get32 (off + 8) = o)
    (hnext : nextAt m (off + 36) o = some o') (k : ℕ) :
    popLoop b (k + 1) o (m.addInt32 off (-1)).1 =
      .ok (popMem m off b.counter o o', .ok (headerSlice m (off + 36 + o) cap)) := by
  obtain ⟨hlen, hlt⟩ := hfit
  obtain ⟨hflag, hnext⟩ := hasNext_of_nextAt hnext
  -- what the loop reads is untouched by the decrement of the size
  have hm1 : ∀ {lo hi}, off + 4 ≤ lo → m.SameOn (m.addInt32 off (-1)).1 lo hi :=
    fun hlo => Mem.addInt32_sameOn (.inl hlo)
  have hm2 : ∀ {lo hi}, off + 12 ≤ lo → (hi ≤ off + 20 ∨ off + 36 ≤ lo) →
      (hi ≤ off + 36 + o + 16 ∨ off + 36 + o + 16 < lo) →
      m.SameOn (popMem m off b.counter o o') lo hi :=
    fun h1 h2 h3 => popMem_sameOn hb.counter (by omega) h3
  unfold popLoop
  rw [hb.regionStart, hb.head, hb.capPerBuffer, hb.regionOffset,
    u32_of_lt (by unfold bufferHeaderSize; omega),
    checkBounds_ok (by omega) (by unfold bufferHeaderSize; simp only [Mem.len_addInt32]; omega)]
  simp only [bind, Except.bind]
  rw [if_pos (by rw [hasNext_congr (hm1 (by omega)), hflag]),
    if_pos (by rw [Mem.get32_congr (hm1 (by omega)), hhead]),
    nextOffset_congr (hm1 (by omega)), hnext]
  have hcapm : (popMem m off b.counter o o').get32 (off + 16) = cap := by
    rw [Mem.get32_congr (hm2 (by omega) (by omega) (by omega)), hcap]
  have hslice : newShmSlice (popMem m off b.counter o o') (off + 36 + o)
      (.shm (off + 36 + o + 20) cap) (off + 36 + o) = headerSlice m (off + 36 + o) cap := by
    unfold headerSlice newShmSlice bufferDataStartOffset bufferSizeOffset
    rw [Mem.get32_congr (hm2 (by omega) (by omega) (by omega)),
      Mem.get32_congr (hm2 (by omega) (by omega) (by omega)),
      Mem.get32_congr (hm2 (by omega) (by omega) (by omega))]
  rw [← popMem, hcapm, u32_of_lt (by unfold bufferHeaderSize; omega), u32_of_lt (by omega),
    checkBounds_ok (by omega) (by unfold bufferHeaderSize; simp only [len_popMem]; omega),
    Nat.add_sub_cancel_left, ← hslice]
  simp only [bufferHeaderSize, Nat.add_comm, Nat.add_left_comm]
  rfl

/-- **`pop`** of a list whose head is a slot. -/
theorem pop_popped (hb : ListAt b off n cap) (hcap : m.get32 (off + 16) = cap)
    (hfit : Fits m off cap (m.get32 (off + 8))) :
    b.pop m = match popped m off with
      | none => .ok (m, .error .noMoreBuffer)
      | some (o, o') =>
        .ok (popMem m off b.counter o o', .ok (headerSlice m (off + 36 + o) cap)) := by
  have hback := m.addInt32_back off (-1)
  rw [neg_neg] at hback
  unfold BufferList.pop popped
  simp only [hb.head, hb.size]
  by_cases hr : 0 < (m.addInt32 off (-1)).2
  · rw [if_neg (by omega), if_pos hr]
    cases hn : nextAt m (off + 36) (m.get32 (off + 8)) with
    | none =>
      have hm1 : ∀ {lo hi}, off + 4 ≤ lo → m.SameOn (m.addInt32 off (-1)).1 lo hi :=
        fun hlo => Mem.addInt32_sameOn (.inl hlo)
      have hflag : hasNext m (off + 36 + m.get32 (off + 8)) = false := by
        by_contra hyes
        rw [nextAt, if_pos (by simpa using hyes)] at hn
        cases hn
      rw [popLoop_last (m := (m.addInt32 off (-1)).1) hb ⟨hfit.len, hfit.small⟩
        (Mem.get32_congr (hm1 (by omega))) (by rw [hasNext_congr (hm1 (by omega)), hflag]), hback]
      rfl
    | some o' => exact popLoop_take hb hcap hfit rfl hn 199
  · rw [if_pos (by omega), if_neg hr, hback]

/-- **`pop` of a list with two slots** takes the first. -/
theorem pop_eq (hb : ListAt b off n cap) (h : Chained off cap m (o :: o' :: F)) :
    b.pop m = .ok (popMem m off b.counter o o', .ok (slotSlice (off + 36 + o) cap)) := by
  have hhead : m.get32 (off + 8) = o := by simpa using h.head.symm
  have hsize : m.get32 off = F.length + 2 := by simpa using h.size
  have hlong := h.length_le.2
  have hremain : (m.addInt32 off (-1)).2 = F.length + 1 := by
    rw [Mem.addInt32_snd] <;> simp only [hsize, List.length_cons] at hlong ⊢ <;> push_cast <;> omega
  have hpop : popped m off = some (o, o') := by
    rw [popped, if_pos (by omega), hhead, h.chain.1]
    rfl
  obtain ⟨hz, hz'⟩ := h.reset o List.mem_cons_self
  rw [pop_popped hb h.capWord (hhead ▸ h.fits o List.mem_cons_self), hpop,
    ← newShmSlice_eq (h.caps o List.mem_cons_self) hz hz']
  rfl

/-- A list with one slot keeps it, and `pop` leaves the memory as it was. -/
theorem pop_fail (hb : ListAt b off n cap) (h : Chained off cap m [o]) :
    b.pop m = .ok (m, .error .noMoreBuffer) := by
  have hhead : m.get32 (off + 8) = o := by simpa using h.head.symm
  have hsize : m.get32 off = 1 := by simpa using h.size
  have hpop : popped m off = none := by
    refine if_neg ?_
    rw [Mem.addInt32_snd] <;> simp [hsize]
  rw [pop_popped hb h.capWord (hhead ▸ h.fits o List.mem_cons_self), hpop]

theorem popMem_size (hb : ListAt b off n cap) (h : Chained off cap m (o :: o' :: F)) :
    (popMem m off b.counter o o').get32 off = F.length + 1 := by
  have hsize : m.get32 off = F.length + 2 := by simpa using h.size
  have hlong := h.length_le.2
  have hc := hb.counter
  simp only [List.length_cons] at hlong
  have hs : (m.addInt32 off (-1)).1.SameOn (popMem m off b.counter o o') off (off + 4) :=
    (Mem.set32_sameOn (by omega)).trans ((clearFlag_sameOn (by omega)).trans
      ((setInUsed_sameOn (by omega)).trans (Mem.addInt32_sameOn (by omega))))
  rw [Mem.get32_congr hs]
  have := Mem.get32_addInt32 (m := m) (a := off) (d := -1) (by omega) (by omega)
  omega

theorem popMem_head {counter : ℕ} (hc : counter = off + 20 ∨ counter = off + 24)
    (ho' : o' < 2 ^ 32) : (popMem m off counter o o').get32 (off + 8) = o' := by
  have hs : ((m.addInt32 off (-1)).1.set32 (off + 8) o').SameOn (popMem m off counter o o')
      (off + 8) (off + 12) :=
    (clearFlag_sameOn (by omega)).trans ((setInUsed_sameOn (by omega)).trans
      (Mem.addInt32_sameOn (by omega)))
  rw [Mem.get32_congr hs, Mem.get32_set32_of_lt ho']

theorem Chained.pop (hb : ListAt b off n cap) (h : Chained off cap m (o :: o' :: F)) :
    Chained off cap (popMem m off b.counter o o') (o' :: F) := by
  have hc := hb.counter
  have ho' := (h.fits o' (by simp)).small
  have hsub : ∀ t ∈ o' :: F, t ∈ o :: o' :: F := fun t ht => List.mem_cons_of_mem o ht
  have hne : ∀ t ∈ o' :: F, t ≠ o := fun t ht he => (List.nodup_cons.mp h.nodup).1 (he ▸ ht)
  have hslot : ∀ t ∈ o' :: F, m.SameOn (popMem m off b.counter o o')
      (off + 36 + t) (off + 36 + t + 20) := by
    intro t ht
    have := h.apart o List.mem_cons_self t (hsub t ht) (hne t ht).symm
    exact popMem_sameOn hc (by omega) (by omega)
  refine ⟨⟨?_, ?_, ?_, ?_, ?_, fun t ht => ?_, (List.nodup_cons.mp h.nodup).2⟩, fun t ht => ?_,
    fun t ht => ⟨(h.fits t (hsub t ht)).len, (h.fits t (hsub t ht)).small⟩,
    fun t ht u hu => h.apart t (hsub t ht) u (hsub u hu)⟩
  · rw [Mem.get32_congr (popMem_sameOn hc (by omega) (by omega)), h.capWord]
  · rw [popMem_size hb h, List.length_cons]
  · rw [popMem_head hc (by omega), List.head?_cons]
  · rw [Mem.get32_congr (popMem_sameOn hc (by omega) (by omega)), ← h.tail]
    simp
  · exact h.chain.tail.congr fun t ht => nextAt_congr (hslot t ht)
  · rw [Mem.get32_congr ((hslot t ht).mono (by omega) (by omega)),
      Mem.get32_congr ((hslot t ht).mono (by omega) (by omega))]
    exact h.reset t (hsub t ht)
  · rw [Mem.get32_congr ((hslot t ht).mono (by omega) (by omega)), h.caps t (hsub t ht)]

/-- A chain of slots of the list itself. -/
theorem Chained.freeInv (h : Chained off cap m F) (hlen : off + 36 + n * (cap + 20) ≤ m.len)
    (hslots : ∀ o ∈ F, o ∈ slotOffsets n cap)
    (hcaps : ∀ o ∈ slotOffsets n cap, m.get32 (off + 36 + o) = cap) : FreeInv off n cap m F :=
  ⟨h.words, hlen, hslots, hcaps⟩

theorem FreeInv.pop (hb : ListAt b off n cap) (h : FreeInv off n cap m (o :: o' :: F)) :
    FreeInv off n cap (popMem m off b.counter o o') (o' :: F) := by
  have hc := hb.counter
  have ho := h.slots o List.mem_cons_self
  refine ((h.chained hb.fits).pop hb).freeInv h.len
    (fun t ht => h.slots t (List.mem_cons_of_mem o ht)) fun t ht => ?_
  have hsame : m.SameOn (popMem m off b.counter o o') (off + 36 + t) (off + 36 + t + 4) := by
    rcases eq_or_ne t o with rfl | hto
    · exact popMem_sameOn hc (by omega) (by omega)
    · have := slot_disjoint ho ht hto.symm
      exact popMem_sameOn hc (by omega) (by omega)
  rw [Mem.get32_congr hsame, h.caps t ht]

/-- The memory after `reset` of the slot at address `a`. -/
def resetMem (m : Mem) (a : ℕ) : Mem := clearFlag ((m.set32 (a + 4) 0).set32 (a + 8) 0) a

/-- The memory after a `push` of slot `o` behind slot `t`. -/
def pushMem (m : Mem) (off counter o t : ℕ) : Mem :=
  (((linkNext ((resetMem m (off + 36 + o)).set32 (off + 12) o) (off + 36 + t) o).addInt32
    off 1).1.addInt32 counter (-1)).1

@[simp] theorem len_pushMem {counter t : ℕ} : (pushMem m off counter o t).len = m.len := by
  rw [pushMem, Mem.len_addInt32, Mem.len_addInt32, len_linkNext, Mem.len_set32, resetMem,
    len_clearFlag, Mem.len_set32, Mem.len_set32]

theorem resetMem_sameOn {a lo hi : ℕ} (h : hi ≤ a + 4 ∨ a + 17 ≤ lo ∨ a + 12 ≤ lo ∧ hi ≤ a + 16) :
    m.SameOn (resetMem m a) lo hi :=
  (Mem.set32_sameOn (by omega)).trans ((Mem.set32_sameOn (by omega)).trans
    (clearFlag_sameOn (by omega)))

theorem pushMem_sameOn {counter t lo hi : ℕ} (hc : counter = off + 20 ∨ counter = off + 24)
    (hr : hi ≤ off ∨ off + 4 ≤ lo ∧ hi ≤ off + 12 ∨ off + 16 ≤ lo ∧ hi ≤ off + 20 ∨ off + 36 ≤ lo)
    (ho : hi ≤ off + 36 + o + 4 ∨ off + 36 + o + 17 ≤ lo)
    (ht : hi ≤ off + 36 + t + 12 ∨ off + 36 + t + 17 ≤ lo) :
    m.SameOn (pushMem m off counter o t) lo hi :=
  (resetMem_sameOn (by omega)).trans ((Mem.set32_sameOn (by omega)).trans
    ((linkNext_sameOn (by omega)).trans ((Mem.addInt32_sameOn (by omega)).trans
    (Mem.addInt32_sameOn (by omega)))))

theorem newTail_eq {a : ℕ} (hb : ListAt b off n cap) (hlt : off + 36 + o < 2 ^ 32)
    (ha : a = off + 36 + o) : u32 (a + (2 ^ 32 - b.bufferRegionOffsetInShm)) = o := by
  rw [ha, hb.regionOffset, u32, show off + 36 + o + (2 ^ 32 - (off + 36)) = o + 2 ^ 32 by omega,
    Nat.add_mod_right, Nat.mod_eq_of_lt (by omega)]

/-- **`push` of the slot at `o`** puts it behind the tail. -/
theorem push_eq {s : BufferSlice} (hb : ListAt b off n cap)
    (ht : Fits m off cap (m.get32 (off + 12))) (ho : Fits m off cap o)
    (hh : s.header = some (off + 36 + o)) (hs : s.offsetInShm = off + 36 + o) :
    b.push m s = .ok (pushMem m off b.counter o (m.get32 (off + 12))) := by
  obtain ⟨hlen, hlt⟩ := ht
  have hsmall := ho.small
  have hreset : (s.reset m).1 = resetMem m (off + 36 + o) := by
    unfold BufferSlice.reset
    rw [hh]; rfl
  have hold : (resetMem m (off + 36 + o)).get32 (off + 12) = m.get32 (off + 12) :=
    Mem.get32_congr (resetMem_sameOn (by omega))
  unfold BufferList.push
  simp only [hreset, newTail_eq hb (by omega) hs, hb.tail, hold, hb.regionStart, hb.size]
  rw [u32_of_lt (by unfold bufferHeaderSize; omega), checkBounds_ok (by omega)
    (by unfold bufferHeaderSize; simp only [Mem.len_set32]; change _ ≤ m.len; omega)]
  rfl

theorem pushMem_header {counter t : ℕ} (hc : counter = off + 20 ∨ counter = off + 24)
    (ht : t + 20 ≤ o ∨ o + 20 ≤ t) :
    (pushMem m off counter o t).get32 (off + 36 + o + 4) = 0 ∧
      (pushMem m off counter o t).get32 (off + 36 + o + 8) = 0 ∧
      hasNext (pushMem m off counter o t) (off + 36 + o) = false := by
  have hs : (resetMem m (off + 36 + o)).SameOn (pushMem m off counter o t)
      (off + 36 + o) (off + 36 + o + 20) :=
    (Mem.set32_sameOn (by omega)).trans ((linkNext_sameOn (by omega)).trans
      ((Mem.addInt32_sameOn (by omega)).trans (Mem.addInt32_sameOn (by omega))))
  rw [Mem.get32_congr (hs.mono (by omega) (by omega)), Mem.get32_congr (hs.mono (by omega) (by omega)),
    hasNext_congr (hs.mono (by omega) (by omega))]
  refine ⟨?_, ?_, hasNext_clearFlag⟩
  · rw [resetMem, Mem.get32_congr (clearFlag_sameOn (by omega)),
      Mem.get32_set32_of_ne (by omega), Mem.get32_set32_of_lt (by norm_num)]
  · rw [resetMem, Mem.get32_congr (clearFlag_sameOn (by omega)),
      Mem.get32_set32_of_lt (by norm_num)]

theorem pushMem_size (hb : ListAt b off n cap) (h : Chained off cap m F) {t : ℕ} :
    (pushMem m off b.counter o t).get32 off = F.length + 1 := by
  have hlong := h.length_le.2
  have hc := hb.counter
  let m1 := linkNext ((resetMem m (off + 36 + o)).set32 (off + 12) o) (off + 36 + t) o
  have hs : m.SameOn m1 off (off + 4) :=
    (resetMem_sameOn (by omega)).trans ((Mem.set32_sameOn (by omega)).trans
      (linkNext_sameOn (by omega)))
  have hm1 : m1.get32 off = F.length := (Mem.get32_congr hs).trans h.size
  have hadd := Mem.get32_addInt32 (m := m1) (a := off) (d := 1) (by omega) (by omega)
  have hlast : (m1.addInt32 off 1).1.SameOn (pushMem m off b.counter o t) off (off + 4) :=
    Mem.addInt32_sameOn (by omega)
  rw [Mem.get32_congr hlast]
  omega

theorem pushMem_tail {counter t : ℕ} (hc : counter = off + 20 ∨ counter = off + 24)
    (ho : o < 2 ^ 32) : (pushMem m off counter o t).get32 (off + 12) = o := by
  have hs : ((resetMem m (off + 36 + o)).set32 (off + 12) o).SameOn (pushMem m off counter o t)
      (off + 12) (off + 16) :=
    (linkNext_sameOn (by omega)).trans ((Mem.addInt32_sameOn (by omega)).trans
      (Mem.addInt32_sameOn (by omega)))
  rw [Mem.get32_congr hs, Mem.get32_set32_of_lt ho]

theorem pushMem_link {counter t : ℕ} (hc : counter = off + 20 ∨ counter = off + 24)
    (ho : o < 2 ^ 32) : nextAt (pushMem m off counter o t) (off + 36) t = some o := by
  have hs : (linkNext ((resetMem m (off + 36 + o)).set32 (off + 12) o) (off + 36 + t) o).SameOn
      (pushMem m off counter o t) (off + 36 + t) (off + 36 + t + 20) :=
    (Mem.addInt32_sameOn (by omega)).trans (Mem.addInt32_sameOn (by omega))
  rw [nextAt_congr hs, nextAt, if_pos hasNext_linkNext, nextOffset_linkNext ho]

/-- `pushMem` leaves the capacity of every slot as it is. -/
theorem pushMem_cap {counter t x : ℕ} (hc : counter = off + 20 ∨ counter = off + 24)
    (hxo : x ≠ o → x + (cap + 20) ≤ o ∨ o + (cap + 20) ≤ x)
    (hxt : x ≠ t → x + (cap + 20) ≤ t ∨ t + (cap + 20) ≤ x) :
    (pushMem m off counter o t).get32 (off + 36 + x) = m.get32 (off + 36 + x) := by
  refine Mem.get32_congr (pushMem_sameOn hc (by omega) ?_ ?_)
  · rcases eq_or_ne x o with rfl | hne
    · omega
    · have := hxo hne
      omega
  · rcases eq_or_ne x t with rfl | hne
    · omega
    · have := hxt hne
      omega

theorem Chained.push (hb : ListAt b off n cap) (h : Chained off cap m F) (ho : Fits m off cap o)
    (hcap : m.get32 (off + 36 + o) = cap)
    (hF : ∀ x ∈ F, x + (cap + 20) ≤ o ∨ o + (cap + 20) ≤ x) :
    Chained off cap (pushMem m off b.counter o (m.get32 (off + 12))) (F ++ [o]) := by
  have hc := hb.counter
  have hlt := ho.small
  obtain ⟨G, hG⟩ := List.getLast?_eq_some_iff.mp h.tail
  generalize m.get32 (off + 12) = t at hG
  subst hG
  have htF : t ∈ G ++ [t] := by simp
  have hdt := hF t htF
  have hnodup := List.nodup_append.mp h.nodup
  have hnot : ∀ x ∈ G ++ [t], x ≠ o := fun x hx he => by
    have := hF x hx
    omega
  have hGt : ∀ x ∈ G, x ≠ t := fun x hx => hnodup.2.2 x hx t (by simp)
  -- the slots before the tail are not touched
  have hsame : ∀ x ∈ G, m.SameOn (pushMem m off b.counter o t) (off + 36 + x)
      (off + 36 + x + 20) := by
    intro x hx
    have h1 := hF x (List.mem_append_left _ hx)
    have h2 := h.apart x (List.mem_append_left _ hx) t htF (hGt x hx)
    exact pushMem_sameOn hc (by omega) (by omega) (by omega)
  have hword : ∀ x ∈ G ++ [t], m.SameOn (pushMem m off b.counter o t) (off + 36 + x)
      (off + 36 + x + 12) := by
    intro x hx
    rcases List.mem_append.mp hx with hx | hx
    · exact (hsame x hx).mono le_rfl (by omega)
    · rw [List.mem_singleton.mp hx]
      exact pushMem_sameOn hc (by omega) (by omega) (by omega)
  obtain ⟨hz, hz', hflag⟩ := pushMem_header (m := m) (o := o) (t := t) hc (by omega)
  refine ⟨⟨?_, ?_, ?_, ?_, ?_, ?_, ?_⟩, ?_, ?_, ?_⟩
  · rw [Mem.get32_congr (pushMem_sameOn hc (by omega) (by omega) (by omega)), h.capWord]
  · rw [pushMem_size hb h]; simp
  · rw [Mem.get32_congr (pushMem_sameOn hc (by omega) (by omega) (by omega)), ← h.head]
    simp
  · rw [pushMem_tail hc (by omega)]; simp
  · rw [List.append_assoc]
    refine h.chain.link (fun x hx => nextAt_congr (hsame x hx)) (pushMem_link hc (by omega)) ?_
    rw [nextAt, if_neg (by simp [hflag])]
  · rw [List.forall_mem_append, List.forall_mem_singleton]
    refine ⟨fun x hx => ?_, hz, hz'⟩
    have hs := hword x hx
    rw [Mem.get32_congr (hs.mono (by omega) (by omega)),
      Mem.get32_congr (hs.mono (by omega) (by omega))]
    exact h.reset x hx
  · exact List.nodup_append.mpr ⟨h.nodup, List.nodup_singleton o,
      fun x hx y hy he => hnot x hx (he.trans (List.mem_singleton.mp hy))⟩
  · rw [List.forall_mem_append, List.forall_mem_singleton]
    refine ⟨fun x hx => ?_, ?_⟩
    · rw [Mem.get32_congr ((hword x hx).mono (by omega) (by omega)), h.caps x hx]
    · rw [Mem.get32_congr (pushMem_sameOn hc (by omega) (by omega) (by omega)), hcap]
  · rw [List.forall_mem_append, List.forall_mem_singleton]
    have hfits : ∀ x, Fits m off cap x → Fits (pushMem m off b.counter o t) off cap x :=
      fun x hx => ⟨by rw [len_pushMem]; exact hx.len, hx.small⟩
    exact ⟨fun x hx => hfits x (h.fits x hx), hfits o ho⟩
  · intro x hx y hy hxy
    rcases List.mem_append.mp hx with hx | hx <;> rcases List.mem_append.mp hy with hy | hy
    · exact h.apart x hx y hy hxy
    · rw [List.mem_singleton.mp hy]
      exact hF x hx
    · rw [List.mem_singleton.mp hx]
      exact (hF y hy).symm
    · exact absurd ((List.mem_singleton.mp hx).trans (List.mem_singleton.mp hy).symm) hxy

theorem FreeInv.push (hb : ListAt b off n cap) (h : FreeInv off n cap m F)
    (ho : o ∈ slotOffsets n cap) (hF : o ∉ F) :
    FreeInv off n cap (pushMem m off b.counter o (m.get32 (off + 12))) (F ++ [o]) := by
  have hne : ∀ x ∈ F, x ≠ o := fun x hx he => hF (he ▸ hx)
  refine ((h.chained hb.fits).push hb (hb.fits_slot h.len ho) (h.caps o ho) fun x hx =>
    slot_disjoint (h.slots x hx) ho (hne x hx)).freeInv h.len ?_ fun x hx => ?_
  · rw [List.forall_mem_append, List.forall_mem_singleton]
    exact ⟨h.slots, ho⟩
  · rw [pushMem_cap hb.counter (slot_disjoint hx ho) (slot_disjoint hx h.tail_mem), h.caps x hx]

end Ops

/-! ## The created list -/

section Create

variable {b : BufferList} {off n cap o o' : ℕ} {m m' : Mem} {F : List ℕ}

theorem checkIndex_ok {len i : ℕ} (h : i < len) : checkIndex len i = .ok () := if_pos h

/-- The header at `a` of a slot as the creation writes it, with the next slot at `next`. -/
structure Fresh (m : Mem) (a cap : ℕ) (next : Option ℕ) : Prop where
  cap : m.get32 a = cap
  size : m.get32 (a + 4) = 0
  start : m.get32 (a + 8) = 0
  link : ∀ o, next = some o → hasNext m a = true ∧ nextOffset m a = o

theorem Fresh.congr {a : ℕ} {next : Option ℕ} (h : Fresh m a cap next)
    (hs : m.SameOn m' a (a + 20)) : Fresh m' a cap next where
  cap := (Mem.get32_congr (hs.mono (by omega) (by omega))).trans h.cap
  size := (Mem.get32_congr (hs.mono (by omega) (by omega))).trans h.size
  start := (Mem.get32_congr (hs.mono (by omega) (by omega))).trans h.start
  link o ho := by
    rw [hasNext_congr (hs.mono (by omega) (by omega)),
      nextOffset_congr (hs.mono (by omega) (by omega))]
    exact h.link o ho

theorem countBufferListMemSize_eq (hcap : cap + 20 < 2 ^ 32) :
    countBufferListMemSize n cap = u32 (36 + n * (cap + 20)) := by
  unfold countBufferListMemSize bufferListHeaderSize bufferHeaderSize
  rw [u32_of_lt hcap]

/-- The words of one slot. -/
def slotMem (m : Mem) (a cap : ℕ) : Mem := ((m.set32 a cap).set32 (a + 4) 0).set32 (a + 8) 0

theorem fresh_slotMem {a : ℕ} (hcap : cap < 2 ^ 32) : Fresh (slotMem m a cap) a cap none where
  cap := by
    rw [slotMem, Mem.get32_set32_of_ne (by omega), Mem.get32_set32_of_ne (by omega),
      Mem.get32_set32_of_lt hcap]
  size := by
    rw [slotMem, Mem.get32_set32_of_ne (by omega), Mem.get32_set32_of_lt (by norm_num)]
  start := by rw [slotMem, Mem.get32_set32_of_lt (by norm_num)]
  link o ho := nomatch ho

theorem fresh_linkNext {a next : ℕ} (hcap : cap < 2 ^ 32) (hn : next < 2 ^ 32) :
    Fresh (linkNext (slotMem m a cap) a next) a cap (some next) := by
  have h := fresh_slotMem (m := m) (a := a) hcap
  refine ⟨?_, ?_, ?_, fun o ho => ?_⟩
  · rw [Mem.get32_congr (linkNext_sameOn (by omega)), h.cap]
  · rw [Mem.get32_congr (linkNext_sameOn (by omega)), h.size]
  · rw [Mem.get32_congr (linkNext_sameOn (by omega)), h.start]
  · cases ho
    exact ⟨hasNext_linkNext, nextOffset_linkNext hn⟩

theorem slotMem_sameOn {a lo hi : ℕ} (h : hi ≤ a ∨ a + 12 ≤ lo) :
    m.SameOn (slotMem m a cap) lo hi :=
  (Mem.set32_sameOn (by omega)).trans ((Mem.set32_sameOn (by omega)).trans
    (Mem.set32_sameOn (by omega)))

/-- A round of the loop, with `t` bytes from slot to slot. -/
theorem initSlots_round {start len k current t : ℕ} (ht : u32 (cap + 20) = t) (hlen : len < 2 ^ 32)
    (hk : 0 < k) (hflag : current + 16 < len) (hnext : current + t ≤ len) :
    initSlots start len cap (k + 1) current m = initSlots start len cap k (current + t)
      (linkNext (slotMem m (start + current) cap) (start + current) (current + t)) := by
  have hu : u32 (current + cap + bufferHeaderSize) = current + t := by
    unfold u32 bufferHeaderSize at *
    omega
  simp only [initSlots, hu, if_pos hk]
  unfold bufferSizeOffset bufferDataStartOffset nextBufferOffset bufferFlagOffset
  rw [u32_of_lt (by omega), u32_of_lt (by omega), u32_of_lt (by omega), u32_of_lt (by omega),
    checkIndex_ok (by omega), checkIndex_ok (by omega), checkIndex_ok (by omega),
    checkIndex_ok (by omega), checkIndex_ok (by omega)]
  rfl

/-- The last round. -/
theorem initSlots_one {start len current : ℕ} (hlen : len < 2 ^ 32) (h : current + 8 < len) :
    initSlots start len cap 1 current m = .ok (slotMem m (start + current) cap) := by
  simp only [initSlots]
  unfold bufferSizeOffset bufferDataStartOffset
  rw [u32_of_lt (by omega), u32_of_lt (x := current + 8) (by omega), checkIndex_ok (by omega),
    checkIndex_ok (by omega), checkIndex_ok (by omega)]
  rfl

/-- **The loop of the creation** writes the headers of `k` slots from `current` on, and
    links each to the following one. -/
theorem initSlots_spec (start len : ℕ) (hcap : 0 < cap) :
    ∀ (k current : ℕ) (m : Mem), current + k * (cap + 20) ≤ len → start + len < 2 ^ 32 →
    ∃ m', initSlots start len cap k current m = .ok m' ∧ m'.len = m.len ∧
      (∀ lo hi, hi ≤ start + current ∨ start + current + k * (cap + 20) ≤ lo → m.SameOn m' lo hi) ∧
      ∀ i < k, Fresh m' (start + current + i * (cap + 20)) cap
        (if i + 1 < k then some (current + (i + 1) * (cap + 20)) else none) := by
  intro k
  induction k with
  | zero =>
    intro current m _ _
    exact ⟨m, rfl, rfl, fun lo hi _ => Mem.SameOn.refl m lo hi, fun i hi => absurd hi (by omega)⟩
  | succ k ih =>
    intro current m hk hlen
    have hmul : (k + 1) * (cap + 20) = k * (cap + 20) + (cap + 20) := by ring
    -- the header of this slot, and the rest of the loop
    let m1 := if 0 < k then linkNext (slotMem m (start + current) cap) (start + current)
      (current + (cap + 20)) else slotMem m (start + current) cap
    have hm1 : ∀ lo hi, hi ≤ start + current ∨ start + current + (cap + 20) ≤ lo →
        m.SameOn m1 lo hi := by
      intro lo hi hr
      simp only [m1]
      split_ifs
      · exact (slotMem_sameOn (by omega)).trans (linkNext_sameOn (by omega))
      · exact slotMem_sameOn (by omega)
    have hlen1 : m1.len = m.len := by
      simp only [m1]
      split_ifs <;> rfl
    have hfresh : Fresh m1 (start + current) cap
        (if 0 < k then some (current + (cap + 20)) else none) := by
      simp only [m1]
      split_ifs
      · exact fresh_linkNext (by omega) (by omega)
      · exact fresh_slotMem (by omega)
    obtain ⟨m', hrun, hl, hout, hslots⟩ := ih (current + (cap + 20)) m1 (by omega) hlen
    refine ⟨m', ?_, hl.trans hlen1, ?_, ?_⟩
    · rw [← hrun]
      simp only [m1]
      split_ifs with hk0
      · exact initSlots_round (u32_of_lt (by omega)) (by omega) hk0 (by omega) (by omega)
      · obtain rfl : k = 0 := by omega
        exact initSlots_one (by omega) (by omega)
    · intro lo hi hr
      exact (hm1 lo hi (by omega)).trans (hout lo hi (by omega))
    · intro i hi
      cases i with
      | zero =>
        have hc : Fresh m' (start + current) cap
            (if 0 < k then some (current + (cap + 20)) else none) :=
          hfresh.congr (hout _ _ (by omega))
        simpa using hc
      | succ i =>
        have hi' := hslots i (by omega)
        have e1 : start + current + (i + 1) * (cap + 20) =
            start + (current + (cap + 20)) + i * (cap + 20) := by ring
        have e2 : current + (i + 1 + 1) * (cap + 20) =
            current + (cap + 20) + (i + 1) * (cap + 20) := by ring
        rw [e1, e2]
        simpa using hi'

/-- The words of the list's header as the creation writes them. -/
def headerMem (m : Mem) (off n cap : ℕ) : Mem :=
  (((((m.set32 off n).set32 (off + 4) n).set32 (off + 8) 0).set32 (off + 12)
    ((n - 1) * (cap + 20))).set32 (off + 16) cap).set32 (off + 20) 0

def createdList (off n cap : ℕ) : BufferList where
  size := off
  cap := off + 4
  head := off + 8
  tail := off + 12
  capPerBuffer := off + 16
  counter := off + 20
  regionStart := off + 36
  regionLen := n * (cap + 20)
  bufferRegionOffsetInShm := off + 36
  offsetInShm := off

theorem createdList_listAt (hfit : off + 36 + n * (cap + 20) < 2 ^ 32) :
    ListAt (createdList off n cap) off n cap :=
  ⟨rfl, rfl, rfl, rfl, .inl rfl, rfl, rfl, hfit⟩

/-- The creation behind its checks. -/
theorem createFreeBufferList_eq (hn : 0 < n) (hcap : 0 < cap)
    (hfit : off + 36 + n * (cap + 20) < 2 ^ 32) (hlen : off + 36 + n * (cap + 20) ≤ m.len)
    (hoff : off ≤ u32 m.len) (hsize : 36 + n * (cap + 20) ≤ u32 m.len) :
    createFreeBufferList n cap m off =
      (initSlots (off + 36) (n * (cap + 20)) cap n 0 (headerMem m off n cap)).bind fun m1 =>
        if m1.get32 (off + 12) ≤ n * (cap + 20) then
          (checkIndex (n * (cap + 20) - m1.get32 (off + 12)) bufferFlagOffset).bind fun _ =>
            .ok (.ok (clearFlag m1 (off + 36 + m1.get32 (off + 12)), createdList off n cap))
        else .error .sliceBounds := by
  have hmul : (n - 1) * (cap + 20) + (cap + 20) = n * (cap + 20) := by
    rw [← Nat.succ_mul, Nat.succ_eq_add_one, Nat.sub_add_cancel hn]
  unfold createFreeBufferList
  rw [if_neg (by omega), countBufferListMemSize_eq (by omega), u32_of_lt (x := 36 + _) (by omega)]
  simp only []
  rw [u32_of_lt (x := off + (36 + _)) (by omega), if_neg (by omega)]
  unfold bufferListHeaderSize bufferHeaderSize
  rw [u32_of_lt (x := off + 36) (by omega), if_neg (by omega)]
  simp only [u32_of_lt (show off < 2 ^ 32 by omega), u32_of_lt (show off + 4 < 2 ^ 32 by omega),
    u32_of_lt (show off + 8 < 2 ^ 32 by omega), u32_of_lt (show off + 12 < 2 ^ 32 by omega),
    u32_of_lt (show off + 16 < 2 ^ 32 by omega), u32_of_lt (show off + 20 < 2 ^ 32 by omega),
    u32_of_lt (show cap + 20 < 2 ^ 32 by omega),
    u32_of_lt (show (n - 1) * (cap + 20) < 2 ^ 32 by omega)]
  rw [checkIndex_ok (by omega), checkIndex_ok (by omega), checkIndex_ok (by omega),
    checkIndex_ok (by omega), checkIndex_ok (by omega), checkIndex_ok (by omega),
    show off + (36 + n * (cap + 20)) - (off + 36) = n * (cap + 20) by omega,
    checkBounds, if_pos (by omega)]
  rfl

theorem headerMem_sameOn {lo hi : ℕ} (h : hi ≤ off ∨ off + 24 ≤ lo) :
    m.SameOn (headerMem m off n cap) lo hi :=
  (Mem.set32_sameOn (by omega)).trans ((Mem.set32_sameOn (by omega)).trans
    ((Mem.set32_sameOn (by omega)).trans ((Mem.set32_sameOn (by omega)).trans
    ((Mem.set32_sameOn (by omega)).trans (Mem.set32_sameOn (by omega))))))

theorem headerMem_words (m : Mem) (off : ℕ) (hn : n < 2 ^ 32) (hcap : cap < 2 ^ 32)
    (ht : (n - 1) * (cap + 20) < 2 ^ 32) :
    (headerMem m off n cap).get32 off = n ∧ (headerMem m off n cap).get32 (off + 4) = n ∧
      (headerMem m off n cap).get32 (off + 8) = 0 ∧
      (headerMem m off n cap).get32 (off + 12) = (n - 1) * (cap + 20) ∧
      (headerMem m off n cap).get32 (off + 16) = cap ∧
      (headerMem m off n cap).get32 (off + 20) = 0 := by
  unfold headerMem
  refine ⟨?_, ?_, ?_, ?_, ?_, ?_⟩ <;>
    simp (disch := omega) only [Mem.get32_set32_of_ne, Mem.get32_set32_of_lt]

theorem getElem?_slotOffsets {i : ℕ} :
    (slotOffsets n cap)[i]? = if i < n then some (i * (cap + 20)) else none := by
  unfold slotOffsets bufferHeaderSize
  split_ifs with hi
  · simp [hi]
  · simp [hi]

/-- **The created list** has all its slots free, in order. -/
theorem createFreeBufferList_spec (hn : 0 < n) (hcap : 0 < cap)
    (hfit : off + 36 + n * (cap + 20) < 2 ^ 32) (hlen : off + 36 + n * (cap + 20) ≤ m.len)
    (hoff : off ≤ u32 m.len) (hsize : 36 + n * (cap + 20) ≤ u32 m.len) :
    ∃ m', createFreeBufferList n cap m off = .ok (.ok (m', createdList off n cap)) ∧
      m'.len = m.len ∧ FreeInv off n cap m' (slotOffsets n cap) ∧
      (∀ lo hi, hi ≤ off ∨ off + 36 + n * (cap + 20) ≤ lo → m.SameOn m' lo hi) ∧
      m'.get32 (off + 4) = n ∧ m'.get32 (off + 20) = 0 := by
  have hmul : (n - 1) * (cap + 20) + (cap + 20) = n * (cap + 20) := by
    rw [← Nat.succ_mul, Nat.succ_eq_add_one, Nat.sub_add_cancel hn]
  have hnle : n * 20 ≤ n * (cap + 20) := Nat.mul_le_mul_left n (by omega)
  obtain ⟨m1, hrun, hl, hout, hslots⟩ := initSlots_spec (off + 36)
    (n * (cap + 20)) hcap n 0 (headerMem m off n cap) (by omega) (by omega)
  obtain ⟨hw, hw4, hw8, hw12, hw16, hw20⟩ := headerMem_words m off
    (show n < 2 ^ 32 by omega) (show cap < 2 ^ 32 by omega) (by omega)
  have hhdr : (headerMem m off n cap).SameOn m1 off (off + 36) := hout _ _ (by omega)
  have ht : m1.get32 (off + 12) = (n - 1) * (cap + 20) :=
    (Mem.get32_congr (hhdr.mono (by omega) (by omega))).trans hw12
  have hhdr' : (headerMem m off n cap).SameOn
      (clearFlag m1 (off + 36 + (n - 1) * (cap + 20))) off (off + 36) :=
    hhdr.trans (clearFlag_sameOn (by omega))
  have hcreate : createFreeBufferList n cap m off =
      .ok (.ok (clearFlag m1 (off + 36 + (n - 1) * (cap + 20)), createdList off n cap)) := by
    rw [createFreeBufferList_eq hn hcap hfit hlen hoff hsize, hrun]
    simp only [Except.bind, ht]
    rw [if_pos (by omega), checkIndex_ok (by unfold bufferFlagOffset; omega)]
  refine ⟨_, hcreate, hl, ?_, ?_,
    (Mem.get32_congr (hhdr'.mono (by omega) (by omega))).trans hw4,
    (Mem.get32_congr (hhdr'.mono (by omega) (by omega))).trans hw20⟩
  · generalize hm' : clearFlag m1 (off + 36 + (n - 1) * (cap + 20)) = m' at hhdr'
    have hflag : ∀ {lo hi}, hi ≤ off + 36 + (n - 1) * (cap + 20) + 16 → m1.SameOn m' lo hi :=
      fun h => hm' ▸ clearFlag_sameOn (.inr h)
    have hslot : ∀ i < n, i * (cap + 20) ≤ (n - 1) * (cap + 20) := fun i hi =>
      Nat.mul_le_mul_right _ (by omega)
    have hfresh : ∀ i < n, m'.get32 (off + 36 + i * (cap + 20)) = cap ∧
        m'.get32 (off + 36 + i * (cap + 20) + 4) = 0 ∧
        m'.get32 (off + 36 + i * (cap + 20) + 8) = 0 := by
      intro i hi
      have hi' := hslot i hi
      have hf := hslots i hi
      simp only [Nat.add_zero] at hf
      refine ⟨?_, ?_, ?_⟩
      · exact (Mem.get32_congr (hflag (by omega))).trans hf.cap
      · exact (Mem.get32_congr (hflag (by omega))).trans hf.size
      · exact (Mem.get32_congr (hflag (by omega))).trans hf.start
    have hnext : ∀ i < n, nextAt m' (off + 36) (i * (cap + 20)) =
        if i + 1 < n then some ((i + 1) * (cap + 20)) else none := by
      intro i hi
      split_ifs with hlast
      · have hle : (i + 1) * (cap + 20) ≤ (n - 1) * (cap + 20) :=
          Nat.mul_le_mul_right _ (by omega)
        have hstep : (i + 1) * (cap + 20) = i * (cap + 20) + (cap + 20) := by ring
        have hf := hslots i hi
        simp only [Nat.add_zero, if_pos hlast, Nat.zero_add] at hf
        obtain ⟨hn', ho'⟩ := (hf.congr (hflag (by omega))).link _ rfl
        rw [nextAt, if_pos hn', ho']
      · have : i = n - 1 := by omega
        rw [nextAt, this, if_neg (by rw [← hm', hasNext_clearFlag]; simp)]
    refine ⟨⟨?_, ?_, ?_, ?_, ?_, ?_, slotOffsets_nodup⟩, ?_, fun o ho => ho, ?_⟩
    · exact (Mem.get32_congr (hhdr'.mono (by omega) (by omega))).trans hw16
    · rw [Mem.get32_congr (hhdr'.mono (by omega) (by omega)), hw]
      simp [slotOffsets]
    · rw [Mem.get32_congr (hhdr'.mono (by omega) (by omega)), hw8, List.head?_eq_getElem?,
        getElem?_slotOffsets, if_pos hn, Nat.zero_mul]
    · rw [Mem.get32_congr (hhdr'.mono (by omega) (by omega)), hw12, List.getLast?_eq_getElem?]
      simp only [slotOffsets, List.length_map, List.length_range]
      rw [← slotOffsets, getElem?_slotOffsets, if_pos (by omega)]
    · refine chain_of_getElem? fun i a ha => ?_
      rw [getElem?_slotOffsets] at ha
      split_ifs at ha with hi
      cases ha
      rw [getElem?_slotOffsets]
      exact hnext i hi
    · intro o ho
      obtain ⟨i, hi, rfl⟩ := mem_slotOffsets.mp ho
      exact (hfresh i hi).2
    · rw [← hm']
      exact hlen.trans (le_of_eq hl.symm)
    · intro o ho
      obtain ⟨i, hi, rfl⟩ := mem_slotOffsets.mp ho
      exact (hfresh i hi).1
  · intro lo hi hr
    exact (headerMem_sameOn (by omega)).trans ((hout lo hi (by omega)).trans
      (clearFlag_sameOn (by omega)))

/-- The checks with which the creation refuses a list (buffer_manager.go:342-354). -/
def CreateRefused (n cap off len : ℕ) : Prop :=
  (n = 0 ∨ cap = 0) ∨ (len < u32 (off + countBufferListMemSize n cap) ∨ off > u32 len ∨
    countBufferListMemSize n cap > u32 len) ∨
    u32 (off + countBufferListMemSize n cap) ≤ u32 (off + bufferListHeaderSize)

theorem createFreeBufferList_refused (h : CreateRefused n cap off m.len) :
    ∃ e, createFreeBufferList n cap m off = .ok (.error e) := by
  unfold createFreeBufferList
  simp only []
  split_ifs with hz hsmall hend
  · exact ⟨_, rfl⟩
  · exact ⟨_, rfl⟩
  · exact ⟨_, rfl⟩
  · exact absurd h (by unfold CreateRefused; omega)

theorem not_refused {p : Mem × BufferList} (hc : createFreeBufferList n cap m off = .ok (.ok p)) :
    ¬CreateRefused n cap off m.len := fun h => by
  obtain ⟨e, he⟩ := createFreeBufferList_refused h
  rw [he] at hc
  cases hc

/-- The list that is created, when the sizes do not wrap. -/
theorem created (hfit : off + 36 + n * (cap + 20) < 2 ^ 32)
    (hc : createFreeBufferList n cap m off = .ok (.ok (m', b))) :
    b = createdList off n cap ∧ FreeInv off n cap m' (slotOffsets n cap) := by
  have hno := not_refused hc
  unfold CreateRefused at hno
  have hcap : cap + 20 ≤ n * (cap + 20) := Nat.le_mul_of_pos_left _ (by omega)
  rw [countBufferListMemSize_eq (by omega), u32_of_lt (x := 36 + _) (by omega),
    u32_of_lt (x := off + (36 + _)) (by omega)] at hno
  obtain ⟨m1, hm1, -, hfree, -, -⟩ := createFreeBufferList_spec (m := m)
    (show 0 < n by omega) (show 0 < cap by omega) hfit (by omega) (by omega) (by omega)
  rw [hm1] at hc
  cases hc
  exact ⟨rfl, hfree⟩

end Create

/-- Memory of `len` zero bytes. -/
def zeroMem (len : ℕ) : Mem := ⟨len, fun _ => 0⟩

/-- What `createFreeBufferList` makes of zero memory. -/
def zeroList (n cap len : ℕ) : Option (Mem × BufferList) :=
  match createFreeBufferList n cap (zeroMem len) 0 with
  | .ok (.ok p) => some p
  | _ => none

theorem create_of_zeroList {n cap len : ℕ} {p : Mem × BufferList}
    (h : zeroList n cap len = some p) :
    createFreeBufferList n cap (zeroMem len) 0 = .ok (.ok (p.1, p.2)) := by
  unfold zeroList at h
  split at h
  · cases h; assumption
  · cases h

end Shmipc.Buffer
