import Shmipc.Buffer.Content

/-!
# Writing to a linked buffer

`WriteByte`, `WriteBytes` and `Reserve` put their bytes behind those already
written, over as many slices as the allocations give (buffer.go:131-216).

* `alloc_linked`: the slices that one allocation adds.
* `writeLoop_spec`: the loop of `WriteBytes` fills slice after slice.
* `writeByte_spec`, `writeBytes_spec`, `reserve_spec`: the calls.
* `writeCall_spec`: a call shorter than `2 ^ 32` bytes returns and has written its bytes,
  unless it reserves nothing on a buffer without slices and no slot is to be had.
-/

namespace Shmipc.Buffer

open Common

/-! ## One slice -/

/-- What is left to write to. -/
def BufferSlice.room (s : BufferSlice) : ℤ := s.data.len - s.writeIndex

/-- Slice `s` in memory `m` has become `s'` in `m'`, with `bs` behind its bytes. -/
structure Filled (cs : List SizeClass) (m : Mem) (s : BufferSlice) (m' : Mem) (s' : BufferSlice)
    (bs : List UInt8) : Prop where
  ok : SliceOk cs s'
  bounds : InBounds s'
  header : s'.header = s.header
  cap : s'.cap = s.cap
  dataLen : s'.data.len = s.data.len
  readIndex : s'.readIndex = s.readIndex
  room : s'.room = s.room - bs.length
  bytes : s'.bytes m' = s.bytes m ++ bs
  len : m'.len = m.len
  /-- Only the slice's own data changes. -/
  frame : ∀ lo hi, (∀ a, s.header = some a → hi ≤ a + 20 ∨ a + 20 + s.cap ≤ lo) → m.SameOn m' lo hi

section Slice

variable {cs : List SizeClass} {m : Mem} {s : BufferSlice} {bs : List UInt8} {lo : ℕ}

theorem drop_take_splice {α : Type*} {old bs t : List α} {r n : ℕ} (hr : r ≤ lo)
    (hlo : lo ≤ old.length) (hn : n = lo - r) :
    ((old.take lo ++ bs ++ t).drop r).take (n + bs.length) = (old.drop r).take n ++ bs := by
  have hlen : ((old.drop r).take n).length = n := by
    rw [List.length_take, List.length_drop]; omega
  rw [List.append_assoc, List.drop_append_of_le_length (by rw [List.length_take]; omega),
    List.drop_take, ← hn]
  generalize (old.drop r).take n = front at hlen ⊢
  rw [← hlen, List.take_length_add_append, List.take_left]

/-- The slice after its data behind index `lo` was overwritten by `bs`. -/
def BufferSlice.stored (s : BufferSlice) (m : Mem) (lo : ℕ) (bs : List UInt8) : BufferSlice :=
  { s with data := (s.data.store m lo bs).2, writeIndex := lo + bs.length }

theorem store_filled (m : Mem) (lo : ℕ) (bs : List UInt8) (hok : SliceOk cs s)
    (h0 : 0 ≤ s.readIndex) (hr : s.readIndex ≤ lo) (hfit : lo + bs.length ≤ s.data.len) :
    Filled cs m { s with writeIndex := lo } (s.data.store m lo bs).1 (s.stored m lo bs) bs := by
  have hsize : (s.stored m lo bs).size.toNat = (lo - s.readIndex).toNat + bs.length := by
    simp only [BufferSlice.size, BufferSlice.stored]
    omega
  rcases hok with hs | hs
  · obtain ⟨a, cap, hd⟩ : ∃ a cap, s.data = .shm a cap := ⟨_, _, hs.data⟩
    have hcap : cap = s.cap ∧ a = s.offsetInShm + 20 := by
      have := hd.symm.trans hs.data
      cases this
      exact ⟨rfl, rfl⟩
    have hstored : (s.stored m lo bs) = { s with writeIndex := lo + bs.length } := by
      simp only [BufferSlice.stored, hd, Data.store]
    have hmem : (s.data.store m lo bs).1 = m.write (a + lo) bs := by rw [hd]; rfl
    rw [hd, Data.len] at hfit
    refine ⟨?_, ?_, ?_, ?_, ?_, ?_, ?_, ?_, ?_, ?_⟩
    · rw [hstored]; exact .inl ⟨hs.slot, hs.header, hs.data, hs.isFromShm, hs.start⟩
    · rw [hstored]
      refine ⟨h0, ?_, ?_⟩
      · show s.readIndex ≤ _; simp only []; omega
      · simp only [hd, Data.len]; omega
    · rw [hstored]
    · rw [hstored]
    · rw [hstored]
    · rw [hstored]
    · rw [hstored]; simp only [BufferSlice.room]; omega
    · rw [hmem]
      unfold BufferSlice.bytes
      rw [hsize, hstored]
      simp only [hd, BufferSlice.size]
      rw [Mem.read_append, show a + s.readIndex.toNat + (lo - s.readIndex).toNat = a + lo by omega,
        Mem.read_write]
      congr 1
      exact Mem.read_congr (Mem.write_sameOn (by omega))
    · rw [hmem]; rfl
    · intro x y hxy
      have := hxy s.offsetInShm hs.header
      rw [hmem]
      exact Mem.write_sameOn (by simp only [] at this; omega)
  · obtain ⟨old, hd, hcap⟩ := hs.data
    have hlen : (old.take lo ++ bs ++ old.drop (lo + bs.length)).length = old.length := by
      rw [hd, Data.len] at hfit
      simp only [List.length_append, List.length_take, List.length_drop]
      omega
    have hstored : (s.stored m lo bs) = { s with
        data := .heap (old.take lo ++ bs ++ old.drop (lo + bs.length))
        writeIndex := lo + bs.length } := by
      simp only [BufferSlice.stored, hd, Data.store]
    have hmem : (s.data.store m lo bs).1 = m := by rw [hd]; rfl
    rw [hd, Data.len] at hfit
    refine ⟨?_, ?_, ?_, ?_, ?_, ?_, ?_, ?_, ?_, ?_⟩
    · rw [hstored]; exact .inr ⟨hs.header, ⟨_, rfl, by rw [hlen]; exact hcap⟩, hs.isFromShm⟩
    · rw [hstored]
      refine ⟨h0, ?_, ?_⟩
      · show s.readIndex ≤ _; simp only []; omega
      · simp only [Data.len, hlen]; omega
    · rw [hstored]
    · rw [hstored]
    · rw [hstored, hd]
      exact hlen
    · rw [hstored]
    · rw [hstored]; simp only [BufferSlice.room, Data.len, hlen, hd]; omega
    · rw [hmem]
      unfold BufferSlice.bytes
      rw [hsize, hstored]
      simp only [hd, BufferSlice.size]
      exact drop_take_splice (by omega) (by omega) (by omega)
    · rw [hmem]
    · intro x y _
      rw [hmem]
      exact Mem.SameOn.refl m x y

theorem Filled.refl (hok : SliceOk cs s) (hb : InBounds s) : Filled cs m s m s [] :=
  ⟨hok, hb, rfl, rfl, rfl, rfl, by simp, by simp, rfl, fun lo hi _ => Mem.SameOn.refl m lo hi⟩

/-- **`append`** copies as much as there is room for. -/
theorem append_spec (hok : SliceOk cs s) (hb : InBounds s) (bs : List UInt8) :
    ∃ m' s', s.append m bs = .ok (m', s', min bs.length s.room.toNat) ∧
      Filled cs m s m' s' (bs.take (min bs.length s.room.toNat)) := by
  have h0 := hb.nonneg
  have h1 := hb.ordered
  have h2 := hb.fits
  unfold BufferSlice.append
  by_cases hnil : bs.length = 0
  · rw [if_pos hnil, hnil, Nat.zero_min]
    exact ⟨m, s, rfl, .refl hok hb⟩
  · have hn : s.data.len - s.writeIndex.toNat = s.room.toNat := by
      unfold BufferSlice.room
      omega
    rw [if_neg hnil, if_pos ⟨by omega, h2⟩]
    simp only [hn]
    generalize hk : min bs.length s.room.toNat = n
    have hlen : (bs.take n).length = n := by rw [List.length_take]; omega
    have hto : (s.writeIndex.toNat : ℤ) = s.writeIndex := by omega
    have hf := store_filled m s.writeIndex.toNat (bs.take n) hok h0 (by omega)
      (by rw [hlen]; omega)
    rw [hto] at hf
    refine ⟨_, s.stored m s.writeIndex.toNat (bs.take n), ?_, hf⟩
    simp only [BufferSlice.stored, hlen, hto]

/-- More of the slice counts as written. -/
theorem extend_filled (hok : SliceOk cs s) (hb : InBounds s) {n : ℕ}
    (hfit : s.writeIndex + n ≤ s.data.len) :
    ∃ old, old.length = n ∧ Filled cs m s m { s with writeIndex := s.writeIndex + n } old := by
  have h0 := hb.nonneg
  have h1 := hb.ordered
  have hb' : InBounds { s with writeIndex := s.writeIndex + n } := ⟨h0, by simp only; omega, hfit⟩
  have hsize : ({ s with writeIndex := s.writeIndex + n } : BufferSlice).size.toNat =
      s.size.toNat + n := by
    simp only [BufferSlice.size]
    omega
  have hok' : SliceOk cs { s with writeIndex := s.writeIndex + n } :=
    hok.imp (fun h => ⟨h.slot, h.header, h.data, h.isFromShm, h.start⟩)
      fun h => ⟨h.header, h.data, h.isFromShm⟩
  have hbytes : ∃ old, ({ s with writeIndex := s.writeIndex + n } : BufferSlice).bytes m =
      s.bytes m ++ old := by
    unfold BufferSlice.bytes
    rw [hsize]
    cases s.data with
    | shm a cap => exact ⟨_, Mem.read_append ..⟩
    | heap bs => exact ⟨_, List.take_add⟩
  obtain ⟨old, hold⟩ := hbytes
  have hlen := congrArg List.length hold
  have hl1 := hb'.length_bytes (m := m)
  have hl2 := hb.length_bytes (m := m)
  rw [List.length_append] at hlen
  refine ⟨old, ?_, hok', hb', rfl, rfl, rfl, rfl, ?_, hold, rfl, fun lo hi _ => Mem.SameOn.refl m lo hi⟩
  · simp only [BufferSlice.size] at hl1 hl2
    omega
  · simp only [BufferSlice.room, BufferSlice.size] at hl1 hl2 ⊢
    omega

theorem SliceOk.cap_le (h : SliceOk cs s) : s.cap ≤ s.data.len := by
  rcases h with h | h
  · rw [h.data, Data.len]
  · obtain ⟨bs, hd, hcap⟩ := h.data
    rw [hd]
    exact hcap

/-- **`reserve`** of a slice. -/
theorem reserve_eq (hok : SliceOk cs s) (hb : InBounds s) (hL : Layout cs m.len) {size : ℤ}
    (h0 : 0 ≤ size) :
    s.reserve m size = .ok (if size ≤ s.remain then
      .ok { s with writeIndex := s.writeIndex + size } else .error .noMoreBuffer) := by
  have h1 := hb.nonneg
  have h2 := hb.ordered
  have hcap := hok.cap_le
  have hcapacity := capacity_le hok hL
  unfold BufferSlice.reserve
  by_cases hs : size ≤ s.remain
  · have hfit : s.writeIndex + size ≤ s.data.capacity m := by
      unfold BufferSlice.remain at hs
      omega
    rw [if_pos hs, if_pos ⟨by omega, h0, hfit⟩, if_pos hs]
  · rw [if_neg hs, if_neg hs]

end Slice

/-! ## The buffer -/

/-- A slice as it comes from an allocation. -/
structure Unwritten (s : BufferSlice) : Prop where
  readIndex : s.readIndex = 0
  writeIndex : s.writeIndex = 0
  pos : 0 < s.data.len
  cap : s.cap = s.data.len

def roomSum (ss : List BufferSlice) : ℤ := (ss.map (·.room)).sum

/-- A send buffer, wherever its cursor is. -/
structure SendShape (cs : List SizeClass) (m : Mem) (l : LinkedBuffer) (others free : List ℕ) : Prop
    extends Readable cs m l others free where
  start : ∀ s ∈ l.slices, s.readIndex = 0
  caps : ∀ s ∈ l.slices, s.cap = s.data.len
  noNext : ∀ a ∈ slotsOf l.slices, hasNext m a = false
  shm : l.isFromShm = true → ∀ s ∈ l.slices, ShmSlice cs s

/-- A send buffer between two calls. -/
structure SendOk (cs : List SizeClass) (m : Mem) (l : LinkedBuffer) (others free : List ℕ) : Prop
    extends SendShape cs m l others free where
  cursor : l.writeSlice = if l.slices = [] then .nil else .at (l.slices.length - 1)
  len : l.len = (l.unread m).length

section Buffer

variable {cs : List SizeClass} {bm : Manager} {m m' : Mem} {l l' : LinkedBuffer}
  {s s' : BufferSlice} {pre ahead : List BufferSlice} {others free free' : List ℕ}
  {bs data : List UInt8} {as : List (ℕ × ℕ)}

theorem Unwritten.bytes (h : Unwritten s) : s.bytes m = [] := by
  have hsize : s.size.toNat = 0 := by rw [BufferSlice.size, h.readIndex, h.writeIndex]; rfl
  unfold BufferSlice.bytes
  rw [hsize]
  cases s.data <;> rfl

theorem Unwritten.room (h : Unwritten s) : s.room = s.data.len := by
  rw [BufferSlice.room, h.writeIndex, sub_zero]

theorem flatMap_unwritten (h : ∀ s ∈ ahead, Unwritten s) : ahead.flatMap (·.bytes m) = [] :=
  List.flatMap_eq_nil_iff.mpr fun s hs => (h s hs).bytes

theorem slotSlice_unwritten {a cap : ℕ} (h : 0 < cap) : Unwritten (slotSlice a cap) :=
  ⟨rfl, rfl, h, rfl⟩

theorem heapSlice_unwritten {n : ℕ} (h : 0 < n) (hn : n < 2 ^ 32) :
    Unwritten (newHeapSlice (List.replicate n 0)) := by
  refine ⟨rfl, rfl, ?_, ?_⟩ <;> simp only [newHeapSlice, Data.len, List.length_replicate]
  · exact h
  · exact u32_of_lt hn

theorem slotsOf_sliceOf (as : List (ℕ × ℕ)) : slotsOf (as.map sliceOf) = as.map Prod.fst := by
  induction as with
  | nil => rfl
  | cons p as ih => exact congrArg (p.1 :: ·) ih

theorem roomSum_sliceOf (as : List (ℕ × ℕ)) : roomSum (as.map sliceOf) = sumCap as := by
  unfold roomSum sumCap
  rw [List.map_map, Nat.cast_list_sum, List.map_map]
  congr 1

theorem SendShape.cursor_irrelevant (h : SendShape cs m l others free) (hs : l'.slices = l.slices)
    (hp : l'.pinnedList = l.pinnedList) (hf : l'.isFromShm = l.isFromShm) :
    SendShape cs m l' others free where
  layout := h.layout
  heap := h.heap
  slices := hs ▸ h.slices
  pinned := hp ▸ h.pinned
  all := by rw [hs, hp]; exact h.all
  bounds := hs ▸ h.bounds
  start := hs ▸ h.start
  caps := hs ▸ h.caps
  noNext := by rw [hs]; exact h.noNext
  shm hshm := by rw [hs]; exact h.shm (hf ▸ hshm)

/-- Slots that were taken from the free ones follow those of the buffer. -/
theorem SendShape.taken (h : SendShape cs m l others free) (ht : TakenAll cs m free as m' free') :
    SendShape cs m' { l with slices := l.slices ++ as.map sliceOf } others free' ∧
      l.slices.flatMap (·.bytes m') = l.slices.flatMap (·.bytes m) := by
  have hnd := h.nodup
  have hown : ∀ a ∈ slotsOf l.slices, a ∉ free := by
    intro a ha hf
    simp only [List.nodup_append, List.mem_append] at hnd
    grind
  have hpos : ∀ p ∈ as, 0 < p.2 := fun p hp => by
    obtain ⟨c, hc, he, -⟩ := ht.slots p hp
    exact he ▸ h.layout.pos c hc
  have hnew : ∀ s ∈ as.map sliceOf, ShmSlice cs s ∧ Unwritten s := by
    intro s hs
    obtain ⟨p, hp, rfl⟩ := List.mem_map.mp hs
    exact ⟨⟨ht.slots p hp, rfl, rfl, rfl, rfl⟩, slotSlice_unwritten (hpos p hp)⟩
  refine ⟨⟨⟨⟨ht.keeps.len ▸ h.layout, ht.heap, fun s hs => ?_, h.pinned, ?_⟩, fun s hs => ?_⟩,
    fun s hs => ?_, fun s hs => ?_, fun a ha => ?_, fun hf s hs => ?_⟩, ?_⟩
  · exact (List.mem_append.mp hs).elim (h.slices s) fun hs => .inl (hnew s hs).1
  · refine List.Perm.trans ?_ h.all
    rw [slotsOf_append, slotsOf_sliceOf, List.append_assoc]
    refine List.Perm.append_left _ ?_
    -- the taken slots move from the free ones to the front
    have h1 := (ht.perm.append_left others).append_left (slotsOf l.pinnedList)
    refine List.Perm.trans ?_ h1.symm
    refine List.Perm.trans (List.perm_append_comm_assoc ..) (List.Perm.append_left _ ?_)
    exact List.perm_append_comm_assoc ..
  · refine (List.mem_append.mp hs).elim (h.bounds s) fun hs => ?_
    have hu := (hnew s hs).2
    exact ⟨hu.readIndex.ge, by rw [hu.readIndex, hu.writeIndex], by rw [hu.writeIndex]; simp⟩
  · exact (List.mem_append.mp hs).elim (h.start s) fun hs => (hnew s hs).2.readIndex
  · exact (List.mem_append.mp hs).elim (h.caps s) fun hs => (hnew s hs).2.cap
  · rw [slotsOf_append, slotsOf_sliceOf] at ha
    rcases List.mem_append.mp ha with ha | ha
    · obtain ⟨cap, hslot⟩ := h.isSlot ha
      have hsame := ht.keeps.slot a cap hslot (hown a ha)
      exact (hasNext_congr (hsame.mono (by omega) (by omega))).trans (h.noNext a ha)
    · obtain ⟨p, hp, rfl⟩ := List.mem_map.mp ha
      exact ht.noNext p hp
  · exact (List.mem_append.mp hs).elim (h.shm hf s) fun hs => (hnew s hs).1
  · exact flatMap_bytes_congr h.slices h.bounds ht.keeps.data hown

theorem SendShape.pushHeap (h : SendShape cs m l others free) {n : ℕ} (hn : n < 2 ^ 32) :
    SendShape cs m { l with
      slices := l.slices ++ [newHeapSlice (List.replicate n 0)]
      isFromShm := false } others free := by
  have hheap : HeapSlice (newHeapSlice (List.replicate n 0)) :=
    ⟨rfl, ⟨_, rfl, Nat.mod_le _ _⟩, rfl⟩
  have hslots : slotsOf (l.slices ++ [newHeapSlice (List.replicate n 0)]) = slotsOf l.slices := by
    rw [slotsOf_append, slotsOf_cons_heap hheap]
    exact List.append_nil _
  refine ⟨⟨⟨h.layout, h.heap, fun s hs => ?_, h.pinned, ?_⟩, fun s hs => ?_⟩, fun s hs => ?_,
    fun s hs => ?_, fun a ha => ?_, fun hf => by cases hf⟩
  · refine (List.mem_append.mp hs).elim (h.slices s) fun hs => .inr ?_
    rw [List.mem_singleton.mp hs]
    exact hheap
  · simp only [hslots]
    exact h.all
  · refine (List.mem_append.mp hs).elim (h.bounds s) fun hs => ?_
    rw [List.mem_singleton.mp hs]
    exact ⟨le_rfl, le_rfl, Int.natCast_nonneg _⟩
  · refine (List.mem_append.mp hs).elim (h.start s) fun hs => ?_
    rw [List.mem_singleton.mp hs]
    rfl
  · refine (List.mem_append.mp hs).elim (h.caps s) fun hs => ?_
    rw [List.mem_singleton.mp hs]
    simpa [newHeapSlice, Data.len] using u32_of_lt hn
  · exact h.noNext a (hslots ▸ ha)

/-- What one allocation of `size` bytes adds. -/
structure Alloced (cs : List SizeClass) (bm : Manager) (size : ℕ) (others free : List ℕ) (m : Mem)
    (l : LinkedBuffer) (m' : Mem) (l' : LinkedBuffer) (free' : List ℕ) (new : List BufferSlice) :
    Prop where
  shape : SendShape cs m' l' others free'
  rest : l' = { l with slices := l.slices ++ new, isFromShm := l'.isFromShm }
  bytes : l.slices.flatMap (·.bytes m') = l.slices.flatMap (·.bytes m)
  keeps : Keeps cs free m m'
  freed : ∀ a ∈ free', a ∈ free
  unwritten : ∀ s ∈ new, Unwritten s
  enough : size ≤ roomSum new
  /-- A further slice is taken only while the first ones are too small. -/
  needed : ∀ p t q, new = p ++ t :: q → p ≠ [] → roomSum p < size
  none : new = [] → size = 0 ∧ ¬ bm.Avail m 0

theorem TakenAll.freed (h : TakenAll cs m free as m' free') : ∀ a ∈ free', a ∈ free :=
  fun _ ha => h.perm.mem_iff.mpr (List.mem_append_right _ ha)

/-- One slice is always needed. -/
theorem needed_single {size : ℕ} {t : BufferSlice} : ∀ (p : List BufferSlice) (x : BufferSlice)
    (q : List BufferSlice), [t] = p ++ x :: q → p ≠ [] → roomSum p < size := by
  intro p x q he hp
  cases p with
  | nil => exact absurd rfl hp
  | cons y p => simp at he

theorem SendShape.allocSlot {a cap size : ℕ} (bm : Manager) (h : SendShape cs m l others free)
    (ht : Taken cs m free a cap m' free') (hcap : size ≤ cap) :
    Alloced cs bm size others free m l m' (l.pushBack (slotSlice a cap)) free'
      [slotSlice a cap] := by
  obtain ⟨hshape, hbytes⟩ := h.taken ht.all
  have hpos : 0 < cap := by
    obtain ⟨c, hc, he, -⟩ := ht.slot
    exact he ▸ h.layout.pos c hc
  refine ⟨hshape, rfl, hbytes, ht.keeps, ht.all.freed, ?_, ?_, needed_single, by simp⟩
  · simpa using slotSlice_unwritten hpos
  · simp [roomSum, slotSlice, BufferSlice.room, Data.len, hcap]

theorem SendShape.allocHeap {n size : ℕ} (bm : Manager) (h : SendShape cs m l others free) (h0 : 0 < n)
    (hn : n < 2 ^ 32) (hsize : size ≤ n) :
    Alloced cs bm size others free m l m
      { l.pushBack (newHeapSlice (List.replicate n 0)) with isFromShm := false } free
      [newHeapSlice (List.replicate n 0)] := by
  refine ⟨h.pushHeap hn, rfl, rfl, Keeps.refl .., fun _ ha => ha, ?_, ?_, needed_single, by simp⟩
  · simpa using heapSlice_unwritten h0 hn
  · simp [roomSum, newHeapSlice, BufferSlice.room, Data.len, hsize]

theorem alloc_linked (hM : ManagerOk cs bm) (h : SendShape cs m l others free) {size : ℕ}
    (hsize : size < 2 ^ 32) :
    ∃ m' l' free' new, l.alloc bm m size = .ok (m', l') ∧
      Alloced cs bm size others free m l m' l' free' new := by
  unfold LinkedBuffer.alloc
  rcases alloc_spec hM h.heap h.layout size with ⟨hnone, hav⟩ | ⟨a, cap, m', free', hrun, hcap, ht⟩
  · obtain ⟨as, m', free', hrun, ht, hneed⟩ := allocMany_spec hM h.heap h.layout size
    obtain ⟨hshape, hbytes⟩ := h.taken ht
    have hunw : ∀ s ∈ as.map sliceOf, Unwritten s := by
      intro s hs
      obtain ⟨p, hp, rfl⟩ := List.mem_map.mp hs
      obtain ⟨c, hc, he, -⟩ := ht.slots p hp
      exact slotSlice_unwritten (he ▸ h.layout.pos c hc)
    have hneed' : ∀ p t q, as.map sliceOf = p ++ t :: q → roomSum p < size := by
      intro p t q he
      obtain ⟨as1, as2, rfl, rfl, hq⟩ := List.map_eq_append_iff.mp he
      obtain ⟨x, as3, rfl, -, -⟩ := List.map_eq_cons_iff.mp hq
      rw [roomSum_sliceOf]
      exact hneed as1 x as3 rfl
    rw [hnone]
    simp only [bind, Except.bind, pure, Except.pure]
    rw [hrun]
    simp only []
    by_cases hr : (size : ℤ) - sumCap as > 0
    · rw [if_pos hr]
      generalize hn : (if (size : ℤ) - sumCap as < defaultSingleBufferSize then
        defaultSingleBufferSize else ((size : ℤ) - sumCap as).toNat) = n
      have hn' : (size : ℤ) - sumCap as ≤ n ∧ 0 < n ∧ n < 2 ^ 32 := by
        unfold defaultSingleBufferSize at hn
        split_ifs at hn <;> omega
      have hheap := heapSlice_unwritten hn'.2.1 hn'.2.2
      have hroom : (newHeapSlice (List.replicate n 0)).room = n := by
        rw [hheap.room]; simp [newHeapSlice, Data.len]
      refine ⟨m', _, free', as.map sliceOf ++ [newHeapSlice (List.replicate n 0)], rfl,
        hshape.pushHeap hn'.2.2, ?_, hbytes, ht.keeps, ht.freed, ?_, ?_, ?_, by simp⟩
      · simp [LinkedBuffer.pushBack]
      · intro s hs
        refine (List.mem_append.mp hs).elim (hunw s) fun hs => ?_
        rw [List.mem_singleton.mp hs]
        exact hheap
      · simp only [roomSum, List.map_append, List.sum_append, List.map_cons, List.map_nil,
          List.sum_cons, List.sum_nil, hroom]
        have := roomSum_sliceOf as
        unfold roomSum at this
        omega
      · intro p t q he _
        rcases List.append_eq_append_iff.mp he with ⟨u, rfl, hu⟩ | ⟨u, hu, hu'⟩
        · cases u with
          | nil => rw [List.append_nil, roomSum_sliceOf]; omega
          | cons x u => simp at hu
        · cases u with
          | nil => rw [List.append_nil] at hu; rw [← hu, roomSum_sliceOf]; omega
          | cons x u => cases hu'; exact hneed' p t u hu
    · rw [if_neg hr]
      refine ⟨m', _, free', as.map sliceOf, rfl, hshape, rfl, hbytes, ht.keeps, ht.freed, hunw, ?_,
        fun p t q he _ => hneed' p t q he, fun he => ?_⟩
      · rw [roomSum_sliceOf]; omega
      · have has : as = [] := List.map_eq_nil_iff.mp he
        have h0 : size = 0 := by rw [has] at hr; simp [sumCap] at hr; omega
        exact ⟨h0, h0 ▸ hav⟩
  · rw [hrun]
    exact ⟨m', _, free', [slotSlice a cap], rfl, h.allocSlot bm ht hcap⟩

/-! ## Writing at the cursor -/

theorem setSlice_at (s' : BufferSlice) (hs : l.slices = pre ++ s :: ahead) :
    (l.setSlice pre.length s').slices = pre ++ s' :: ahead := by
  rw [LinkedBuffer.setSlice, hs, List.set_append_right _ _ le_rfl, Nat.sub_self, List.set_cons_zero]

theorem current_at (hs : l.slices = pre ++ s :: ahead) (hw : l.writeSlice = .at pre.length) :
    l.current = .ok (pre.length, s) := by
  unfold LinkedBuffer.current
  rw [hw, hs]
  simp

theorem slotsOf_replace (hs : l.slices = pre ++ s :: ahead) (hh : s'.header = s.header) :
    slotsOf (pre ++ s' :: ahead) = slotsOf l.slices := by
  rw [hs]
  simp only [slotsOf, List.filterMap_append, List.filterMap_cons, hh]

/-- The slot of a slice of the buffer is not free. -/
theorem Owns.slot_of_header {a : ℕ} (h : Owns cs m l others free) (hmem : s ∈ l.slices)
    (ha : s.header = some a) : IsSlot cs a s.cap ∧ a ∉ free := by
  have hshm := (h.slices s hmem).shm_of_header ha
  have hoff : s.offsetInShm = a := Option.some.inj (hshm.header.symm.trans ha)
  refine ⟨hoff ▸ hshm.slot, fun hfree => ?_⟩
  have hown := mem_slotsOf hmem ha
  have hnd := h.nodup
  simp only [List.nodup_append, List.mem_append] at hnd
  grind

/-- The slots of the slices before and behind one are others. -/
theorem Owns.slots_apart (h : Owns cs m l others free) (hs : l.slices = pre ++ s :: ahead) :
    (∀ a ∈ slotsOf pre, a ∉ slotsOf [s]) ∧ ∀ a ∈ slotsOf ahead, a ∉ slotsOf [s] := by
  have hnd := h.nodup
  rw [hs, show pre ++ s :: ahead = pre ++ ([s] ++ ahead) from rfl, slotsOf_append,
    slotsOf_append] at hnd
  simp only [List.nodup_append, List.mem_append] at hnd
  constructor
  · intro a ha hm
    grind
  · intro a ha hm
    grind

/-- The free chains do not depend on the data of a slice that was given out. -/
theorem Filled.heap (hf : Filled cs m s m' s' bs) (h : Heap cs m free) (hL : Layout cs m.len)
    (hslot : ∀ a, s.header = some a → IsSlot cs a s.cap ∧ a ∉ free) : Heap cs m' free := by
  cases ha : s.header with
  | none =>
    obtain ⟨F, hF, hp⟩ := h
    exact ⟨F, fun c hc => (hF c hc).of_sameOn hf.len (hf.frame _ _ (by simp [ha])), hp⟩
  | some a =>
    obtain ⟨hsl, hfree⟩ := hslot a ha
    refine h.write hL hsl hfree hf.len fun lo hi hr => hf.frame lo hi fun b hb => ?_
    rw [ha] at hb
    cases hb
    omega

theorem Filled.keeps (hf : Filled cs m s m' s' bs) (hL : Layout cs m.len)
    (hslot : ∀ a, s.header = some a → IsSlot cs a s.cap) : Keeps cs (slotsOf [s]) m m' := by
  refine ⟨hf.len, fun b capB hb hnot => hf.frame _ _ fun a ha => ?_⟩
  have hne : a ≠ b := by
    rintro rfl
    exact hnot (mem_slotsOf (List.mem_singleton_self s) ha)
  have := (hslot a ha).apart hb hL hne
  omega

/-- The header of a slot, its own one included, does not change. -/
theorem Filled.hasNext_eq {a cap : ℕ} (hf : Filled cs m s m' s' bs) (hL : Layout cs m.len)
    (hslot : ∀ a, s.header = some a → IsSlot cs a s.cap) (ha : IsSlot cs a cap) :
    hasNext m' a = hasNext m a := by
  refine hasNext_congr (hf.frame _ _ fun b hb => ?_)
  rcases eq_or_ne b a with rfl | hne
  · omega
  · have := (hslot b hb).apart ha hL hne
    omega

/-- One slice of the buffer has been written to. `t` is the slice as it was filled up. -/
theorem SendShape.replace {t : BufferSlice} (h : SendShape cs m l others free)
    (hs : l.slices = pre ++ s :: ahead) (hf : Filled cs m t m' s' bs) (hh : t.header = s.header)
    (hcap : t.cap = s.cap) (hdata : t.data.len = s.data.len) (hr : t.readIndex = 0) :
    SendShape cs m' (l.setSlice pre.length s') others free ∧
      (l.setSlice pre.length s').unread m' =
        pre.flatMap (·.bytes m) ++ (t.bytes m ++ bs) ++ ahead.flatMap (·.bytes m) ∧
      Keeps cs (slotsOf l.slices) m m' := by
  have hmem : s ∈ l.slices := by rw [hs]; simp
  have hslices := setSlice_at s' hs
  have hheader : s'.header = s.header := hf.header.trans hh
  have hslots := slotsOf_replace hs hheader
  have hone : slotsOf [t] = slotsOf [s] := by simp only [slotsOf, List.filterMap_cons, hh]
  have hslot : ∀ a, t.header = some a → IsSlot cs a t.cap ∧ a ∉ free := by
    intro a ha
    rw [hcap]
    exact h.toOwns.slot_of_header hmem (hh ▸ ha)
  have hkeep : Keeps cs (slotsOf [s]) m m' := hone ▸ hf.keeps h.layout fun a ha => (hslot a ha).1
  have hothers : ∀ ss : List BufferSlice, (∀ x ∈ ss, x ∈ l.slices) →
      (∀ a ∈ slotsOf ss, a ∉ slotsOf [s]) →
      ss.flatMap (·.bytes m') = ss.flatMap (·.bytes m) := fun ss hsub hnot =>
    flatMap_bytes_congr (fun x hx => h.slices x (hsub x hx)) (fun x hx => h.bounds x (hsub x hx))
      hkeep.data hnot
  obtain ⟨hpre, hahead⟩ := h.toOwns.slots_apart hs
  have hget : ∀ x ∈ pre ++ s' :: ahead, x = s' ∨ x ∈ l.slices := by
    intro x hx
    rw [hs]
    simp only [List.mem_append, List.mem_cons] at hx ⊢
    tauto
  refine ⟨⟨⟨⟨hf.len ▸ h.layout, hf.heap h.heap h.layout hslot, ?_, h.pinned, ?_⟩, ?_⟩, ?_, ?_, ?_, ?_⟩,
    ?_, ?_⟩
  · rw [hslices]
    exact fun x hx => (hget x hx).elim (fun he => he ▸ hf.ok) (h.slices x)
  · rw [hslices, hslots]
    exact h.all
  · rw [hslices]
    exact fun x hx => (hget x hx).elim (fun he => he ▸ hf.bounds) (h.bounds x)
  · rw [hslices]
    exact fun x hx => (hget x hx).elim (fun he => he ▸ hf.readIndex.trans hr) (h.start x)
  · rw [hslices]
    refine fun x hx => (hget x hx).elim (fun he => ?_) (h.caps x)
    rw [he, hf.cap, hf.dataLen, hcap, hdata]
    exact h.caps s hmem
  · rw [hslices, hslots]
    intro a ha
    obtain ⟨capA, hsl⟩ := h.isSlot ha
    exact (hf.hasNext_eq h.layout (fun b hb => (hslot b hb).1) hsl).trans (h.noNext a ha)
  · intro hshm
    rw [hslices]
    intro x hx
    rcases hget x hx with rfl | hx
    · exact hf.ok.shm_of_header (hheader.trans (h.shm hshm s hmem).header)
    · exact h.shm hshm x hx
  · rw [LinkedBuffer.unread, hslices, List.flatMap_append, List.flatMap_cons,
      hothers pre (fun x hx => by rw [hs]; simp [hx]) hpre,
      hothers ahead (fun x hx => by rw [hs]; simp [hx]) hahead, hf.bytes]
    simp only [List.append_assoc]
  · refine hkeep.mono fun a ha => ?_
    rw [hs, show pre ++ s :: ahead = pre ++ ([s] ++ ahead) from rfl, slotsOf_append, slotsOf_append]
    simp [ha]

/-- The buffer after `bs` was written behind its bytes. -/
structure Wrote (cs : List SizeClass) (others free : List ℕ) (m : Mem) (l : LinkedBuffer) (m' : Mem)
    (l' : LinkedBuffer) (free' : List ℕ) (bs : List UInt8) : Prop where
  shape : SendShape cs m' l' others free'
  unread : l'.unread m' = l.unread m ++ bs
  keeps : Keeps cs (slotsOf l.slices ++ free) m m'
  freed : ∀ a ∈ free', a ∈ free
  slots : ∀ a ∈ slotsOf l'.slices, a ∈ slotsOf l.slices ++ free
  rest : l'.pinnedList = l.pinnedList ∧ l'.len = l.len

theorem Wrote.trans {m'' : Mem} {l'' : LinkedBuffer} {free'' : List ℕ} {bs' : List UInt8}
    (h : Wrote cs others free m l m' l' free' bs)
    (h' : Wrote cs others free' m' l' m'' l'' free'' bs') :
    Wrote cs others free m l m'' l'' free'' (bs ++ bs') where
  shape := h'.shape
  unread := by rw [h'.unread, h.unread, List.append_assoc]
  keeps := h.keeps.trans h'.keeps fun a ha =>
    (List.mem_append.mp ha).elim (h.slots a) fun ha => List.mem_append_right _ (h.freed a ha)
  freed a ha := h.freed a (h'.freed a ha)
  slots a ha := (List.mem_append.mp (h'.slots a ha)).elim (h.slots a) fun ha =>
    List.mem_append_right _ (h.freed a ha)
  rest := ⟨h'.rest.1.trans h.rest.1, h'.rest.2.trans h.rest.2⟩

/-- Nothing but the cursor changes. -/
theorem Wrote.cursor (l'' : LinkedBuffer) (h : Wrote cs others free m l m' l' free' bs)
    (hs : l''.slices = l'.slices) (hp : l''.pinnedList = l'.pinnedList)
    (hf : l''.isFromShm = l'.isFromShm) (hlen : l''.len = l'.len) :
    Wrote cs others free m l m' l'' free' bs where
  shape := h.shape.cursor_irrelevant hs hp hf
  unread := by rw [LinkedBuffer.unread, hs]; exact h.unread
  keeps := h.keeps
  freed := h.freed
  slots := by rw [hs]; exact h.slots
  rest := ⟨hp.trans h.rest.1, hlen.trans h.rest.2⟩

theorem Alloced.wrote {size : ℕ} {new : List BufferSlice}
    (h : Alloced cs bm size others free m l m' l' free' new) (h0 : SendShape cs m l others free) :
    Wrote cs others free m l m' l' free' [] := by
  have hslices : l'.slices = l.slices ++ new := by rw [h.rest]
  have hp : l'.pinnedList = l.pinnedList := by rw [h.rest]
  refine ⟨h.shape, ?_, h.keeps.mono fun a ha => List.mem_append_right _ ha, h.freed, fun a ha => ?_,
    hp, by rw [h.rest]⟩
  · rw [LinkedBuffer.unread, hslices, List.flatMap_append, h.bytes, flatMap_unwritten h.unwritten,
      LinkedBuffer.unread]
  · -- a slot of the longer buffer that was not its own was free
    have hin := h.shape.all.mem_iff.mp (List.mem_append_left _ ha)
    have hin' := h0.all.mem_iff.mpr hin
    have hnd := h.shape.nodup
    rw [hp] at hnd
    simp only [List.nodup_append, List.mem_append] at hnd hin' ⊢
    grind

theorem wrote_append (h : SendShape cs m l others free) (hs : l.slices = pre ++ s :: ahead)
    (hahead : ∀ t ∈ ahead, Unwritten t) (hf : Filled cs m s m' s' bs) :
    Wrote cs others free m l m' (l.setSlice pre.length s') free bs := by
  have hr := h.start s (by rw [hs]; simp)
  obtain ⟨hshape, hunread, hkeep⟩ := h.replace hs hf rfl rfl rfl hr
  refine ⟨hshape, ?_, hkeep.mono fun a ha => List.mem_append_left _ ha, fun _ ha => ha, fun a ha => ?_,
    rfl, rfl⟩
  · rw [hunread, flatMap_unwritten hahead, LinkedBuffer.unread, hs, List.flatMap_append,
      List.flatMap_cons, flatMap_unwritten hahead]
    simp only [List.append_nil, List.append_assoc]
  · refine List.mem_append_left _ ?_
    rwa [setSlice_at _ hs, slotsOf_replace hs hf.header] at ha

/-- The cursor stands at the last slice. -/
def LinkedBuffer.AtLast (l : LinkedBuffer) : Prop :=
  l.slices ≠ [] ∧ l.writeSlice = .at (l.slices.length - 1)

theorem writeNext_at (hs : l.slices = pre ++ s :: ahead) {t : BufferSlice} {q : List BufferSlice}
    (hq : ahead = t :: q) : (l.writeNext pre.length).slices = (pre ++ [s]) ++ t :: q ∧
      (l.writeNext pre.length).writeSlice = .at (pre ++ [s]).length := by
  subst hq
  unfold LinkedBuffer.writeNext
  simp [hs]

/-- **The loop of `WriteBytes`** writes all of `data` behind the bytes of the buffer, over
    the slices `ahead` of the cursor and then over new ones. It can fail only if the
    length does not fit 32 bits. -/
theorem writeLoop_spec (hM : ManagerOk cs bm) : ∀ (k : ℕ) (m : Mem) (l : LinkedBuffer)
    (free : List ℕ) (data : List UInt8) (pre : List BufferSlice) (s : BufferSlice)
    (ahead : List BufferSlice), SendShape cs m l others free → l.slices = pre ++ s :: ahead →
    l.writeSlice = .at pre.length → (∀ t ∈ ahead, Unwritten t) →
    -- no slice ahead is there in vain
    (∀ p t q, ahead = p ++ t :: q → s.room + roomSum p < data.length) → data ≠ [] →
    data.length + 1 + (if s.room = 0 then 1 else 0) ≤ k →
    (∃ m' l' free', LinkedBuffer.writeLoop bm k m l data = .ok (m', l') ∧
      Wrote cs others free m l m' l' free' data ∧ l'.AtLast) ∨
    ∃ p, LinkedBuffer.writeLoop bm k m l data = .error p ∧ 2 ^ 32 ≤ data.length := by
  intro k
  induction k with
  | zero => intro m l free data pre s ahead _ _ _ _ _ _ hk; omega
  | succ k ih =>
    intro m l free data pre s ahead h hs hw hahead hneed hne hk
    have hmem : s ∈ l.slices := by rw [hs]; simp
    have hroom : 0 ≤ s.room := by
      have := (h.bounds s hmem).fits
      unfold BufferSlice.room
      omega
    have hpos := List.length_pos_iff.mpr hne
    obtain ⟨m1, s1, happ, hf⟩ := append_spec (m := m) (h.slices s hmem) (h.bounds s hmem) data
    have hW1 := wrote_append h hs hahead hf
    have hs1 := setSlice_at s1 hs
    rw [LinkedBuffer.writeLoop, current_at hs hw]
    simp only [bind, Except.bind]
    rw [happ]
    simp only []
    by_cases hn : min data.length s.room.toNat < data.length
    · rw [if_pos hn]
      generalize hk' : min data.length s.room.toNat = n at hn hf hW1 ⊢
      have hdrop : (data.drop n).length = data.length - n := List.length_drop
      have hdne : data.drop n ≠ [] := by
        intro he
        rw [he] at hdrop
        simp only [List.length_nil] at hdrop
        omega
      -- the rest is written from the next slice `t` on
      have hgo : ∀ {m2 : Mem} {l2 : LinkedBuffer} {free2 : List ℕ} {t : BufferSlice}
          {q : List BufferSlice}, Wrote cs others free m l m2 l2 free2 (data.take n) →
          l2.slices = pre ++ s1 :: (t :: q) → (∀ x ∈ t :: q, Unwritten x) →
          (∀ p x q', q = p ++ x :: q' → t.room + roomSum p < (data.drop n).length) →
          (∃ m' l' free', LinkedBuffer.writeLoop bm k m2 (l2.writeNext pre.length) (data.drop n) =
              .ok (m', l') ∧ Wrote cs others free m l m' l' free' data ∧ l'.AtLast) ∨
            ∃ p, LinkedBuffer.writeLoop bm k m2 (l2.writeNext pre.length) (data.drop n) = .error p ∧
              2 ^ 32 ≤ data.length := by
        intro m2 l2 free2 t q hW hs2 hunw hneed2
        obtain ⟨hs3, hw3⟩ := writeNext_at hs2 rfl
        have hW3 := hW.cursor (l2.writeNext pre.length) rfl rfl rfl rfl
        have ht := hunw t List.mem_cons_self
        have htroom : t.room ≠ 0 := by
          have := ht.pos
          rw [ht.room]
          omega
        rcases ih m2 (l2.writeNext pre.length) free2 (data.drop n) (pre ++ [s1]) t q hW3.shape hs3 hw3
          (fun x hx => hunw x (List.mem_cons_of_mem t hx)) hneed2 hdne (by
            rw [if_neg htroom, hdrop]
            split_ifs at hk <;> omega) with ⟨m', l', free', hrun, hW', hlast⟩ | ⟨p, hrun, hlen⟩
        · refine .inl ⟨m', l', free', hrun, ?_, hlast⟩
          have := hW3.trans hW'
          rwa [List.take_append_drop] at this
        · exact .inr ⟨p, hrun, by omega⟩
      cases hah : ahead with
      | cons t q =>
        subst hah
        rw [if_pos (by rw [hs1]; simp)]
        refine hgo hW1 hs1 hahead fun p x q' hq => ?_
        have := hneed (t :: p) x q' (by rw [hq]; rfl)
        simp only [roomSum, List.map_cons, List.sum_cons] at this ⊢
        omega
      | nil =>
        subst hah
        rw [if_neg (by rw [hs1]; simp)]
        obtain ⟨m2, l2, free2, new, halloc, hA⟩ :=
          alloc_linked hM hW1.shape (u32_lt (data.drop n).length)
        have hW2 := hW1.trans (hA.wrote hW1.shape)
        rw [List.append_nil] at hW2
        have hs2 : l2.slices = pre ++ s1 :: new := by rw [hA.rest, hs1]; simp
        have hle : u32 (data.drop n).length ≤ (data.drop n).length := Nat.mod_le _ _
        rw [halloc]
        simp only []
        cases hnew : new with
        | nil =>
          subst hnew
          obtain ⟨h0, -⟩ := hA.none rfl
          have hbig : 2 ^ 32 ≤ (data.drop n).length := by
            unfold u32 at h0
            omega
          obtain ⟨k, rfl⟩ := Nat.exists_eq_succ_of_ne_zero (show k ≠ 0 by omega)
          refine .inr ⟨.nilDereference, ?_, by omega⟩
          rw [LinkedBuffer.writeLoop]
          simp [LinkedBuffer.current, LinkedBuffer.writeNext, hs2, bind, Except.bind]
        | cons t q =>
          subst hnew
          refine hgo hW2 hs2 hA.unwritten fun p x q' hq => ?_
          have := hA.needed (t :: p) x q' (by rw [hq]; rfl) (by simp)
          simp only [roomSum, List.map_cons, List.sum_cons] at this ⊢
          omega
    · have hall : min data.length s.room.toNat = data.length := by omega
      rw [hall, List.take_length] at hW1
      rw [if_neg hn]
      have hnil : ahead = [] := by
        cases hah : ahead with
        | nil => rfl
        | cons t q =>
          have := hneed [] t q hah
          simp only [roomSum, List.map_nil, List.sum_nil] at this
          omega
      refine .inl ⟨m1, _, free, rfl, hW1, ?_, ?_⟩
      · rw [hs1]; simp
      · rw [hs1, hnil]
        simp [LinkedBuffer.setSlice, hw]

/-! ## The calls -/

/-- A call has written `bs`. -/
structure Written (cs : List SizeClass) (others free : List ℕ) (m : Mem) (l : LinkedBuffer)
    (m' : Mem) (l' : LinkedBuffer) (free' : List ℕ) (bs : List UInt8) : Prop where
  ok : SendOk cs m' l' others free'
  unread : l'.unread m' = l.unread m ++ bs
  keeps : Keeps cs (slotsOf l.slices ++ free) m m'
  freed : ∀ a ∈ free', a ∈ free
  slots : ∀ a ∈ slotsOf l'.slices, a ∈ slotsOf l.slices ++ free
  pinned : l'.pinnedList = l.pinnedList

theorem Wrote.written (hW : Wrote cs others free m l m' l' free' bs)
    (h : l.len = (l.unread m).length) (hlast : l'.AtLast) {n : ℤ} (hn : n = l.len + bs.length) :
    Written cs others free m l m' { l' with len := n } free' bs where
  ok := ⟨hW.shape.cursor_irrelevant rfl rfl rfl, by rw [if_neg hlast.1]; exact hlast.2, by
    show n = (l'.unread m').length
    rw [hn, hW.unread, h, List.length_append, Nat.cast_add]⟩
  unread := hW.unread
  keeps := hW.keeps
  freed := hW.freed
  slots := hW.slots
  pinned := hW.rest.1

theorem Wrote.refl (h : SendShape cs m l others free) : Wrote cs others free m l m l free [] :=
  ⟨h, by simp, Keeps.refl .., fun _ h => h, fun a ha => List.mem_append_left _ ha, rfl, rfl⟩

theorem SendOk.atLast (h : SendOk cs m l others free) (hne : l.slices ≠ []) :
    ∃ pre s, l.slices = pre ++ [s] ∧ l.writeSlice = .at pre.length := by
  obtain ⟨pre, s, hs⟩ := List.eq_nil_or_concat' l.slices |>.resolve_left hne
  have hw := h.cursor
  rw [if_neg hne, hs] at hw
  exact ⟨pre, s, hs, by simpa using hw⟩

/-- The cursor of a buffer that a writer has started on. -/
structure Started (l : LinkedBuffer) (size : ℕ) (pre : List BufferSlice) (s : BufferSlice)
    (ahead : List BufferSlice) : Prop where
  slices : l.slices = pre ++ s :: ahead
  cursor : l.writeSlice = .at pre.length
  unwritten : ∀ t ∈ ahead, Unwritten t
  needed : ∀ p t q, ahead = p ++ t :: q → s.room + roomSum p < size

theorem start_spec (hM : ManagerOk cs bm) (h : SendOk cs m l others free) {size : ℕ}
    (hsize : size < 2 ^ 32) :
    ∃ m' l' free', l.start bm m size = .ok (m', l') ∧ Wrote cs others free m l m' l' free' [] ∧
      ((l'.slices = [] ∧ l'.writeSlice = .nil ∧ l.slices = [] ∧ size = 0 ∧ ¬ bm.Avail m 0) ∨
        ∃ pre s ahead, Started l' size pre s ahead ∧ (ahead = [] ∨ Unwritten s)) := by
  unfold LinkedBuffer.start
  by_cases hs : l.slices = []
  · have hw : l.writeSlice = .nil := by rw [h.cursor, if_pos hs]
    obtain ⟨m', l', free', new, hrun, hA⟩ := alloc_linked hM h.toSendShape hsize
    have hs' : l'.slices = new := by rw [hA.rest, hs]; rfl
    have hW := (hA.wrote h.toSendShape).cursor l'.writeFront rfl rfl rfl rfl
    rw [if_pos hw, hrun]
    refine ⟨m', l'.writeFront, free', rfl, hW, ?_⟩
    cases hnew : new with
    | nil =>
      obtain ⟨h0, hav⟩ := hA.none hnew
      refine .inl ⟨by rw [← hnew, ← hs']; rfl, ?_, hs, h0, hav⟩
      simp [LinkedBuffer.writeFront, hs', hnew]
    | cons s ahead =>
      have hunw := hA.unwritten
      rw [hnew, List.forall_mem_cons] at hunw
      refine .inr ⟨[], s, ahead, ⟨by rw [List.nil_append, ← hnew, ← hs']; rfl, ?_, hunw.2, ?_⟩,
        .inr hunw.1⟩
      · simp [LinkedBuffer.writeFront, hs', hnew]
      · intro p t q hq
        have := hA.needed (s :: p) t q (by rw [hnew, hq]; rfl) (by simp)
        simpa [roomSum] using this
  · obtain ⟨pre, s, hsl, hw⟩ := h.atLast hs
    rw [if_neg (by rw [hw]; simp)]
    exact ⟨m, l, free, rfl, .refl h.toSendShape,
      .inr ⟨pre, s, [], ⟨hsl, hw, by simp, by simp⟩, .inl rfl⟩⟩

/-- **`WriteBytes`** returns for less than `2 ^ 32` bytes, and then has written them. -/
theorem writeBytes_spec (hM : ManagerOk cs bm) (h : SendOk cs m l others free) (data : List UInt8) :
    (∃ m' l' free', l.writeBytes bm m data = .ok (m', l') ∧
      Written cs others free m l m' l' free' data) ∨
    ∃ p, l.writeBytes bm m data = .error p ∧ 2 ^ 32 ≤ data.length := by
  unfold LinkedBuffer.writeBytes
  by_cases hnil : data.length = 0
  · rw [if_pos hnil, List.eq_nil_of_length_eq_zero hnil]
    exact .inl ⟨m, l, free, rfl, h, by simp, Keeps.refl .., fun _ h => h,
      fun a ha => List.mem_append_left _ ha, rfl⟩
  rw [if_neg hnil]
  have hle : u32 data.length ≤ data.length := Nat.mod_le _ _
  obtain ⟨m1, l1, free1, hstart, hW, hcur⟩ := start_spec hM h (u32_lt data.length)
  rw [hstart]
  simp only [bind, Except.bind]
  rcases hcur with ⟨hs, hw, -, h0, -⟩ | ⟨pre, s, ahead, hst, -⟩
  · refine .inr ⟨.nilDereference, ?_, ?_⟩
    · simp [LinkedBuffer.writeLoop, LinkedBuffer.current, hw, bind, Except.bind]
    · unfold u32 at h0
      omega
  · have hcount : l1.slices.length ≠ 0 := by rw [hst.slices]; simp
    rcases writeLoop_spec hM (data.length + l1.slices.length + 1) m1 l1 free1 data pre s ahead hW.shape
      hst.slices hst.cursor hst.unwritten
      (fun p t q hq => by have := hst.needed p t q hq; omega)
      (fun he => hnil (by rw [he]; rfl)) (by split_ifs <;> omega) with
      ⟨m', l', free', hrun, hW', hlast⟩ | ⟨p, hrun, hbig⟩
    · have hW2 := hW.trans hW'
      rw [List.nil_append] at hW2
      rw [hrun]
      exact .inl ⟨m', _, free', rfl, hW2.written h.len hlast (by rw [hW2.rest.2])⟩
    · rw [hrun]
      exact .inr ⟨p, rfl, hbig⟩

/-- The slice at the cursor is the last one and takes all of `bs`. -/
theorem wrote_last (h : SendShape cs m l others free) (hs : l.slices = pre ++ [s])
    (hw : l.writeSlice = .at pre.length) (hf : Filled cs m s m' s' bs) :
    Wrote cs others free m l m' (l.setSlice pre.length s') free bs ∧
      (l.setSlice pre.length s').AtLast := by
  refine ⟨wrote_append h hs (by simp) hf, ?_, ?_⟩
  · rw [setSlice_at s' hs]; simp
  · rw [setSlice_at s' hs]
    simpa [LinkedBuffer.setSlice] using hw

/-- Room for the whole write: the cursor is at the last slice. -/
theorem Started.last {size : ℕ} (h : Started l size pre s ahead) (hroom : size ≤ s.room) :
    l.slices = pre ++ [s] := by
  cases hah : ahead with
  | nil => rw [h.slices, hah]
  | cons t q =>
    have := h.needed [] t q hah
    simp only [roomSum, List.map_nil, List.sum_nil] at this
    omega

/-- **`WriteByte`** returns, and has written the byte. -/
theorem writeByte_spec (hM : ManagerOk cs bm) (h : SendOk cs m l others free) (b : UInt8) :
    ∃ m' l' free', l.writeByte bm m b = .ok (m', l') ∧
      Written cs others free m l m' l' free' [b] := by
  have h32 : 1 < 2 ^ 32 := by norm_num
  obtain ⟨m1, l1, free1, hstart, hW, hcur⟩ := start_spec hM h h32
  obtain ⟨-, -, -, h0, -⟩ | ⟨pre, s, ahead, hst, hfirst⟩ := hcur
  · cases h0
  have hmem : s ∈ l1.slices := by rw [hst.slices]; simp
  obtain ⟨m2, s2, happ, hf⟩ := append_spec (m := m1) (hW.shape.slices s hmem)
    (hW.shape.bounds s hmem) [b]
  unfold LinkedBuffer.writeByte
  rw [hstart]
  simp only [bind, Except.bind]
  rw [current_at hst.slices hst.cursor]
  simp only []
  rw [happ]
  simp only [List.length_singleton] at hf ⊢
  by_cases hroom : 1 ≤ s.room
  · have hone : min 1 s.room.toNat = 1 := by omega
    rw [hone] at hf ⊢
    obtain ⟨hW2, hlast⟩ := wrote_last hW.shape (hst.last hroom) hst.cursor hf
    have hW' := hW.trans hW2
    rw [if_pos rfl]
    exact ⟨m2, _, free1, rfl, hW'.written h.len hlast (by rw [hW'.rest.2]; rfl)⟩
  · -- the slice is full, and it is the last one: a fresh slice has room
    have hzero : min 1 s.room.toNat = 0 := by omega
    have hah : ahead = [] := hfirst.resolve_right fun hu => by
      have := hu.pos
      have := hu.room
      omega
    rw [hah] at hst
    rw [hzero] at hf ⊢
    obtain ⟨hW2, -⟩ := wrote_last hW.shape hst.slices hst.cursor hf
    have hs2 : (l1.setSlice pre.length s2).slices = pre ++ s2 :: [] := setSlice_at s2 hst.slices
    obtain ⟨m3, l3, free3, new, halloc, hA⟩ := alloc_linked hM hW2.shape h32
    have hW3 := hW2.trans (hA.wrote hW2.shape)
    rw [if_neg (by decide)]
    rw [halloc]
    simp only []
    obtain ⟨t, rfl⟩ : ∃ t, new = [t] := by
      match hnew : new with
      | [] => exact absurd (hA.none rfl).1 (by decide)
      | [t] => exact ⟨t, rfl⟩
      | t :: u :: q =>
        have hu := hA.unwritten t (by simp)
        have hneed := hA.needed [t] u q rfl (by simp)
        simp only [roomSum, List.map_cons, List.map_nil, List.sum_cons, List.sum_nil] at hneed
        have := hu.pos
        have := hu.room
        omega
    have hs3 : l3.slices = pre ++ s2 :: [t] := by rw [hA.rest, hs2]; simp
    obtain ⟨hs4, hw4⟩ := writeNext_at hs3 rfl
    have hW4 := hW3.cursor (l3.writeNext pre.length) rfl rfl rfl rfl
    have hu := hA.unwritten t (by simp)
    have hmem4 : t ∈ (l3.writeNext pre.length).slices := by rw [hs4]; simp
    obtain ⟨m5, s5, happ5, hf5⟩ := append_spec (m := m3) (hW4.shape.slices t hmem4)
      (hW4.shape.bounds t hmem4) [b]
    have hone : min [b].length t.room.toNat = 1 := by
      have := hu.pos
      have := hu.room
      simp only [List.length_singleton]
      omega
    rw [hone] at hf5 happ5
    obtain ⟨hW5, hlast⟩ := wrote_last hW4.shape hs4 hw4 hf5
    have hW' := (hW.trans hW4).trans hW5
    rw [current_at hs4 hw4]
    simp only []
    rw [happ5]
    exact ⟨m5, _, free3, rfl, hW'.written h.len hlast (by rw [hW'.rest.2]; rfl)⟩

/-- **`reserve`** at the cursor, where there is room. -/
theorem reserve_at (h : SendShape cs m l others free) (hs : l.slices = pre ++ [s])
    (hw : l.writeSlice = .at pre.length) {size : ℤ} (h0 : 0 ≤ size) (hfit : size ≤ s.remain) :
    ∃ s' old, s.reserve m size = .ok (.ok s') ∧ (old.length : ℤ) = size ∧
      Wrote cs others free m l m (l.setSlice pre.length s') free old ∧
      (l.setSlice pre.length s').AtLast ∧ size ≤ s'.size := by
  have hmem : s ∈ l.slices := by rw [hs]; simp
  have hcap := h.caps s hmem
  have hb := h.bounds s hmem
  obtain ⟨n, rfl⟩ := Int.eq_ofNat_of_zero_le h0
  obtain ⟨old, hlen, hf⟩ := extend_filled (m := m) (h.slices s hmem) hb (n := n) (by
    unfold BufferSlice.remain at hfit
    omega)
  obtain ⟨hW, hlast⟩ := wrote_last h hs hw hf
  refine ⟨_, old, ?_, congrArg _ hlen, hW, hlast, ?_⟩
  · rw [reserve_eq (h.slices s hmem) hb h.layout h0, if_pos hfit]
  · have := hb.ordered
    simp only [BufferSlice.size]
    omega

/-- The end of `Reserve`: the last slice was pushed for it. -/
def LinkedBuffer.reserveBack (m : Mem) (l : LinkedBuffer) (size : ℤ) :
    Go (Mem × LinkedBuffer × Except Err Unit) := do
  let l := { l.writeBack with len := l.len + size }
  let (i, s) ← l.current
  match ← s.reserve m size with
  | .ok s => return (m, l.setSlice i s, .ok ())
  | .error e => return (m, l, .error e)

theorem reserveBack_spec {m2 : Mem} {l2 : LinkedBuffer} {free2 : List ℕ} {t : BufferSlice} {n : ℕ}
    (hW : Wrote cs others free m l m' l' free' []) (hlen : l.len = (l.unread m).length)
    (hA : Alloced cs bm n others free' m' l' m2 l2 free2 [t]) :
    ∃ l'' old, l2.reserveBack m2 n = .ok (m2, l'', .ok ()) ∧
      Written cs others free m l m2 l'' free2 old ∧ old.length = n ∧
      ∃ pre s, l''.slices = pre ++ [s] ∧ (n : ℤ) ≤ s.size := by
  have hs2 : l2.writeBack.slices = l'.slices ++ [t] := by
    show l2.slices = _
    rw [hA.rest]
  have hw2 : l2.writeBack.writeSlice = .at l'.slices.length := by
    have hs : l2.slices = l'.slices ++ [t] := hs2
    simp [LinkedBuffer.writeBack, hs]
  have hlen2 : l2.len = l'.len := by rw [hA.rest]
  have hW2 := (hA.wrote hW.shape).cursor l2.writeBack rfl rfl rfl rfl
  have hu := hA.unwritten t (by simp)
  have hfit : (n : ℤ) ≤ t.remain := by
    have henough := hA.enough
    simp only [roomSum, List.map_cons, List.map_nil, List.sum_cons, List.sum_nil, hu.room] at henough
    rw [BufferSlice.remain, hu.writeIndex, hu.cap]
    omega
  obtain ⟨s', old, hres, hold, hW3, hat, hs'⟩ :=
    reserve_at hW2.shape hs2 hw2 (Int.natCast_nonneg n) hfit
  have hW' : Wrote cs others free m l m2 (l2.writeBack.setSlice l'.slices.length s') free2 old :=
    (hW.trans hW2).trans hW3
  have hcur : ({ l2.writeBack with len := l2.len + n } : LinkedBuffer).current =
    .ok (l'.slices.length, t) := current_at hs2 hw2
  refine ⟨_, old, ?_, hW'.written hlen hat (n := l2.len + n) ?_, by exact_mod_cast hold, l'.slices, s',
    setSlice_at s' hs2, hs'⟩
  · unfold LinkedBuffer.reserveBack
    simp only [bind, Except.bind, pure, Except.pure, hcur, hres]
    rfl
  · rw [hold, hlen2, hW.rest.2]

/-- The last part of `Reserve`: a new slice behind all others. -/
def LinkedBuffer.reserveNew (bm : Manager) (m : Mem) (l : LinkedBuffer) (n : ℕ) :
    Go (Mem × LinkedBuffer × Except Err Unit) := do
  let (m, r) ← bm.allocShmBuffer m n
  LinkedBuffer.reserveBack m (match r with
    | .ok buf => l.pushBack buf
    | .error _ =>
      let allocSize := if (n : ℤ) < defaultSingleBufferSize then defaultSingleBufferSize
        else (n : ℤ).toNat
      { l.pushBack (newHeapSlice (List.replicate allocSize 0)) with isFromShm := false }) n

theorem reserveNew_spec (hM : ManagerOk cs bm) (hW : Wrote cs others free m l m' l' free' [])
    (hlen : l.len = (l.unread m).length) {n : ℕ} (hn : n < 2 ^ 32) :
    ∃ m'' l'' free'' old, l'.reserveNew bm m' n = .ok (m'', l'', .ok ()) ∧
      Written cs others free m l m'' l'' free'' old ∧ old.length = n ∧
      ∃ pre s, l''.slices = pre ++ [s] ∧ (n : ℤ) ≤ s.size := by
  unfold LinkedBuffer.reserveNew
  rcases alloc_spec hM hW.shape.heap hW.shape.layout n with
    ⟨hrun, -⟩ | ⟨a, cap, m2, free2, hrun, hcap, ht⟩
  · generalize hk : (if (n : ℤ) < defaultSingleBufferSize then defaultSingleBufferSize
      else (n : ℤ).toNat) = k
    have hk' : n ≤ k ∧ 0 < k ∧ k < 2 ^ 32 := by
      unfold defaultSingleBufferSize at hk
      split_ifs at hk <;> omega
    obtain ⟨l'', old, hback, hrest⟩ := reserveBack_spec hW hlen
      (hW.shape.allocHeap bm hk'.2.1 hk'.2.2 hk'.1)
    rw [hrun]
    exact ⟨m', l'', free', old, hback, hrest⟩
  · obtain ⟨l'', old, hback, hrest⟩ := reserveBack_spec hW hlen
      (hW.shape.allocSlot bm ht hcap)
    rw [hrun]
    exact ⟨m2, l'', free2, old, hback, hrest⟩

/-- **`Reserve`** of less than `2 ^ 32` bytes returns, unless it asks for nothing, there is
    no slice yet and none is to be had. The bytes it reserves are the last of the buffer. -/
theorem reserve_spec (hM : ManagerOk cs bm) (h : SendOk cs m l others free) {n : ℕ}
    (hn : n < 2 ^ 32) :
    (∃ m' l' free' old, l.reserve bm m n = .ok (m', l', .ok ()) ∧
      Written cs others free m l m' l' free' old ∧ old.length = n ∧
      ∃ pre s, l'.slices = pre ++ [s] ∧ (n : ℤ) ≤ s.size) ∨
    (l.reserve bm m n = .error .nilDereference ∧ n = 0 ∧ l.slices = [] ∧ ¬ bm.Avail m 0) := by
  have h0 : (0 : ℤ) ≤ n := Int.natCast_nonneg n
  have hto : ofInt32 n = n := by unfold ofInt32; omega
  obtain ⟨m1, l1, free1, hstart, hW, hcur⟩ := start_spec hM h hn
  unfold LinkedBuffer.reserve
  rw [hto, hstart]
  simp only [bind, Except.bind, pure, Except.pure]
  obtain ⟨hs, hw, hnil, hz, hav⟩ | ⟨pre, s, ahead, hst, -⟩ := hcur
  · refine .inr ⟨?_, hz, hnil, hav⟩
    rw [LinkedBuffer.current, hw]
  left
  have hmem : ∀ t ∈ s :: ahead, t ∈ l1.slices := fun t ht => by
    rw [hst.slices]; exact List.mem_append_right _ ht
  have hremain : ∀ t ∈ s :: ahead, t.remain = t.room := fun t ht => by
    rw [BufferSlice.remain, BufferSlice.room, hW.shape.caps t (hmem t ht)]
  have hres : ∀ t ∈ s :: ahead, t.reserve m1 n = .ok (if (n : ℤ) ≤ t.remain then
      .ok { t with writeIndex := t.writeIndex + n } else .error .noMoreBuffer) := fun t ht =>
    reserve_eq (hW.shape.slices t (hmem t ht)) (hW.shape.bounds t (hmem t ht)) hW.shape.layout h0
  have hs := hremain s List.mem_cons_self
  rw [current_at hst.slices hst.cursor]
  simp only []
  by_cases hfit : (n : ℤ) ≤ s.remain
  · -- the slice at the cursor has room
    have hlast := hst.last (hs ▸ hfit)
    obtain ⟨s', old, hres', hold, hW2, hat, hs'⟩ := reserve_at hW.shape hlast hst.cursor h0 hfit
    have hW' : Wrote cs others free m l m1 (l1.setSlice pre.length s') free1 old := hW.trans hW2
    rw [hres']
    exact ⟨m1, _, free1, old, rfl, hW'.written h.len hat (by rw [hold, hW.rest.2]),
      by exact_mod_cast hold, pre, s', setSlice_at s' hlast, hs'⟩
  rw [hres s List.mem_cons_self, if_neg hfit]
  simp only []
  cases hah : ahead with
  | nil =>
    have hget : l1.slices[pre.length + 1]? = none := by
      rw [hst.slices, hah]
      simp
    rw [hget]
    exact reserveNew_spec hM hW h.len hn
  | cons e q =>
    have hget : l1.slices[pre.length + 1]? = some e := by
      rw [hst.slices, hah]
      simp
    have he : e ∈ s :: ahead := by rw [hah]; simp
    rw [hget]
    simp only []
    rw [hres e he]
    by_cases hfit' : (n : ℤ) ≤ e.remain
    · -- the next slice has room, and is the last one
      have hq : q = [] := by
        cases hq : q with
        | nil => rfl
        | cons t q' =>
          have hneed := hst.needed [e] t q' (by rw [hah, hq]; rfl)
          have hb := (hW.shape.bounds s (hmem s List.mem_cons_self)).fits
          rw [hremain e he] at hfit'
          simp only [roomSum, List.map_cons, List.map_nil, List.sum_cons, List.sum_nil,
            BufferSlice.room] at hneed hfit'
          omega
      have hs1 : l1.slices = pre ++ s :: [e] := by rw [hst.slices, hah, hq]
      obtain ⟨hs2, hw2⟩ := writeNext_at hs1 rfl
      have hW2 := hW.cursor (l1.writeNext pre.length) rfl rfl rfl rfl
      obtain ⟨e', old, hres', hold, hW3, hat, he'⟩ := reserve_at hW2.shape hs2 hw2 h0 hfit'
      have hW' : Wrote cs others free m l m1 ((l1.writeNext pre.length).setSlice
        (pre ++ [s]).length e') free1 old := hW2.trans hW3
      have heq : (l1.setSlice (pre.length + 1) e').writeNext pre.length =
          (l1.writeNext pre.length).setSlice (pre ++ [s]).length e' := by
        simp [LinkedBuffer.writeNext, LinkedBuffer.setSlice]
      rw [hres e he, if_pos hfit'] at hres'
      cases hres'
      rw [if_pos hfit']
      refine ⟨m1, _, free1, old, rfl, ?_, by exact_mod_cast hold, pre ++ [s], _, ?_, he'⟩
      · rw [heq]
        exact hW'.written h.len hat (by rw [hold, hW.rest.2])
      · rw [heq]
        exact setSlice_at _ hs2
    · rw [if_neg hfit']
      exact reserveNew_spec hM hW h.len hn

theorem reserve_negative (hM : ManagerOk cs bm) (h : SendOk cs m l others free) {size : ℤ}
    (hneg : size < 0) : ∃ p, l.reserve bm m size = .error p := by
  obtain ⟨m1, l1, free1, hstart, hW, hcur⟩ :=
    start_spec hM h (show ofInt32 size < 2 ^ 32 by unfold ofInt32; omega)
  unfold LinkedBuffer.reserve
  rw [hstart]
  simp only [bind, Except.bind]
  obtain ⟨-, hw, -⟩ | ⟨pre, s, ahead, hst, -⟩ := hcur
  · exact ⟨.nilDereference, by rw [LinkedBuffer.current, hw]⟩
  · have hmem : s ∈ l1.slices := by rw [hst.slices]; simp
    have hfits := (hW.shape.bounds s hmem).fits
    have hcap := hW.shape.caps s hmem
    have hres : s.reserve m1 size = .error .sliceBounds := by
      unfold BufferSlice.reserve BufferSlice.remain
      rw [if_pos (by omega), if_neg (by omega)]
    rw [current_at hst.slices hst.cursor]
    simp only []
    rw [hres]
    exact ⟨.sliceBounds, rfl⟩

/-- The user fills the end of what was reserved. -/
theorem Written.fill {old : List UInt8} (h : Written cs others free m l m' l' free' old)
    (hs : l'.slices = pre ++ [s]) (hfit : bs.length ≤ s.size) (hle : bs.length ≤ old.length) :
    ∃ m'' l'', l'.fill m' bs = .ok (m'', l'') ∧
      Written cs others free m l m'' l'' free' (old.take (old.length - bs.length) ++ bs) := by
  have hmem : s ∈ l'.slices := by rw [hs]; simp
  have hw : l'.writeSlice = .at pre.length := by
    rw [h.ok.cursor, hs]
    simp
  have hb := h.ok.bounds s hmem
  have hok := h.ok.slices s hmem
  have hread := h.ok.start s hmem
  have hfits := hb.fits
  have hord := hb.ordered
  unfold BufferSlice.size at hfit
  -- the slice without the bytes that are filled in
  obtain ⟨lo, hlo⟩ : ∃ lo : ℕ, s.writeIndex = lo + bs.length :=
    ⟨s.writeIndex.toNat - bs.length, by omega⟩
  have htob : InBounds { s with writeIndex := lo } :=
    ⟨hb.nonneg, by simp only; omega, by simp only; omega⟩
  have htok : SliceOk cs { s with writeIndex := lo } :=
    hok.imp (fun h => ⟨h.slot, h.header, h.data, h.isFromShm, h.start⟩)
      fun h => ⟨h.header, h.data, h.isFromShm⟩
  have hf := store_filled m' lo bs hok hb.nonneg (by omega) (by omega)
  obtain ⟨gap, hgap, hext⟩ := extend_filled (m := m') htok htob (n := bs.length) (by simp only; omega)
  obtain ⟨hshape, hunread, hkeep⟩ := h.ok.toSendShape.replace hs hf rfl rfl rfl hread
  have hlo' : s.writeIndex.toNat - bs.length = lo := by omega
  have hst : s.fill m' bs = ((s.data.store m' lo bs).1, s.stored m' lo bs) := by
    simp only [BufferSlice.stored, BufferSlice.fill, hlo']
    rw [← hlo]
  have hslots : slotsOf (l'.setSlice pre.length (s.stored m' lo bs)).slices = slotsOf l'.slices := by
    rw [setSlice_at _ hs]
    exact slotsOf_replace hs hf.header
  have hbytes : s.bytes m' = ({ s with writeIndex := lo } : BufferSlice).bytes m' ++ gap := by
    rw [← hext.bytes]
    simp only [← hlo]
  have hsplit : l.unread m ++ old = (pre.flatMap (·.bytes m') ++
      ({ s with writeIndex := lo } : BufferSlice).bytes m') ++ gap := by
    rw [← h.unread, LinkedBuffer.unread, hs, List.flatMap_append, List.flatMap_singleton, hbytes,
      List.append_assoc]
  have hnew : (l'.setSlice pre.length (s.stored m' lo bs)).unread (s.data.store m' lo bs).1 =
      l.unread m ++ (old.take (old.length - bs.length) ++ bs) := by
    rw [← List.take_append_drop (old.length - bs.length) old, ← List.append_assoc] at hsplit
    have hcut := (List.append_inj' hsplit (by rw [List.length_drop, hgap]; omega)).1
    rw [hunread, List.flatMap_nil, List.append_nil, ← List.append_assoc, ← hcut, List.append_assoc]
  refine ⟨_, l'.setSlice pre.length (s.stored m' lo bs), ?_, ⟨hshape, ?_, ?_⟩, hnew, ?_, h.freed, ?_,
    h.pinned⟩
  · unfold LinkedBuffer.fill
    rw [current_at hs hw]
    simp only [bind, Except.bind, pure, Except.pure, hst]
  · rw [setSlice_at _ hs]
    simp [LinkedBuffer.setSlice, hw]
  · have hlen := h.ok.len
    show l'.len = _
    rw [hlen, hnew, h.unread]
    simp only [List.length_append, List.length_take]
    omega
  · refine (h.keeps).trans hkeep fun a ha => h.slots a ha
  · rw [hslots]
    exact h.slots

end Buffer

/-! ## All writers -/

inductive WriteCall
  | writeByte (b : UInt8)
  | writeBytes (data : List UInt8)
  | writeString (str : List UInt8)
  /-- `Reserve(size)`; the user fills what it returns with `bs`. -/
  | reserve (size : ℤ) (bs : List UInt8)
  deriving DecidableEq

namespace WriteCall

def run (bm : Manager) (m : Mem) (l : LinkedBuffer) : WriteCall → Go (Mem × LinkedBuffer)
  | writeByte b => l.writeByte bm m b
  | writeBytes data => l.writeBytes bm m data
  | writeString str => l.writeString bm m str
  | reserve size bs => do
    let (m, l, r) ← l.reserve bm m size
    match r with
    | .ok _ => l.fill m (bs.take size.toNat)
    | .error _ => return (m, l)

/-- What the call writes. -/
def bytes : WriteCall → List UInt8
  | writeByte b => [b]
  | writeBytes data => data
  | writeString str => str
  | reserve _ bs => bs

/-- A `Reserve` asks for less than `2 ^ 32` bytes. -/
def Small : WriteCall → Prop
  | reserve size _ => size < 2 ^ 32
  | _ => True

/-- The call is shorter than `2 ^ 32` bytes, and what is reserved is filled. -/
def Ok : WriteCall → Prop
  | writeByte _ => True
  | writeBytes data | writeString data => data.length < 2 ^ 32
  | reserve size bs => size = bs.length ∧ bs.length < 2 ^ 32

instance (c : WriteCall) : Decidable c.Small := by
  cases c <;> unfold Small <;> infer_instance

instance (c : WriteCall) : Decidable c.Ok := by
  cases c <;> unfold Ok <;> infer_instance

end WriteCall

section WriteCall

variable {cs : List SizeClass} {bm : Manager} {m m' : Mem} {l l' : LinkedBuffer} {c : WriteCall}
  {others free : List ℕ}

/-- A reservation that is filled, or one that panics. -/
theorem reserve_fill_spec (hM : ManagerOk cs bm) (h : SendOk cs m l others free) {n : ℕ}
    (hn : n < 2 ^ 32) (bs : List UInt8) :
    (∃ m' l' free', ∃ old : List UInt8, (WriteCall.reserve n bs).run bm m l = .ok (m', l') ∧
      old.length = n ∧
      Written cs others free m l m' l' free' (old.take (n - (bs.take n).length) ++ bs.take n)) ∨
    ((WriteCall.reserve n bs).run bm m l = .error .nilDereference ∧ n = 0 ∧ l.slices = [] ∧
      ¬ bm.Avail m 0) := by
  rcases reserve_spec hM h hn with ⟨m1, l1, free1, old, hrun, hW, hold, pre, s, hs, hsize⟩ |
    ⟨hrun, hrest⟩
  · have hle : (bs.take n).length ≤ n := by rw [List.length_take]; omega
    obtain ⟨m2, l2, hfill, hW2⟩ := hW.fill hs (show ((bs.take n).length : ℤ) ≤ _ by omega) (by omega)
    rw [hold] at hW2
    refine .inl ⟨m2, l2, free1, old, ?_, hold, hW2⟩
    rw [WriteCall.run, hrun]
    exact hfill
  · refine .inr ⟨?_, hrest⟩
    rw [WriteCall.run, hrun]
    rfl

/-- **Main theorem for one call.** A call shorter than `2 ^ 32` bytes returns and has written
    its bytes, except for `Reserve(0)` on a buffer without slices when no slot is to be had. -/
theorem writeCall_spec (hM : ManagerOk cs bm) (h : SendOk cs m l others free) (hc : c.Ok) :
    (∃ m' l' free', c.run bm m l = .ok (m', l') ∧ Written cs others free m l m' l' free' c.bytes) ∨
    (c.run bm m l = .error .nilDereference ∧ c = .reserve 0 [] ∧ l.slices = [] ∧ ¬ bm.Avail m 0) := by
  cases c with
  | writeByte b => exact .inl (writeByte_spec hM h b)
  | writeBytes data | writeString data =>
    refine .inl ((writeBytes_spec hM h data).resolve_right ?_)
    rintro ⟨p, -, hbig⟩
    exact absurd hc (not_lt.mpr hbig)
  | reserve size bs =>
    obtain ⟨rfl, hn⟩ := hc
    rcases reserve_fill_spec hM h hn bs with ⟨m', l', free', old, hrun, -, hW⟩ | ⟨hrun, h0, hrest⟩
    · rw [List.take_length, Nat.sub_self, List.take_zero, List.nil_append] at hW
      exact .inl ⟨m', l', free', hrun, hW⟩
    · refine .inr ⟨hrun, ?_, hrest⟩
      rw [List.eq_nil_of_length_eq_zero h0]
      rfl

/-- Whatever a call has written if it returned. -/
theorem writeCall_written (hM : ManagerOk cs bm) (h : SendOk cs m l others free) (hc : c.Small)
    (hrun : c.run bm m l = .ok (m', l')) :
    ∃ free' bs, Written cs others free m l m' l' free' bs := by
  have hbytes : ∀ data, l.writeBytes bm m data = .ok (m', l') →
      ∃ free' bs, Written cs others free m l m' l' free' bs := by
    intro data hrun
    rcases writeBytes_spec hM h data with ⟨m1, l1, free1, hrun', hW⟩ | ⟨p, hrun', -⟩
    · rw [hrun] at hrun'
      cases hrun'
      exact ⟨free1, _, hW⟩
    · rw [hrun] at hrun'
      cases hrun'
  cases c with
  | writeByte b =>
    obtain ⟨m1, l1, free1, hrun', hW⟩ := writeByte_spec hM h b
    rw [WriteCall.run, hrun'] at hrun
    cases hrun
    exact ⟨free1, _, hW⟩
  | writeBytes data | writeString data => exact hbytes data hrun
  | reserve size bs =>
    by_cases hneg : size < 0
    · obtain ⟨p, hp⟩ := reserve_negative hM h hneg
      rw [WriteCall.run, hp] at hrun
      cases hrun
    · obtain ⟨n, rfl⟩ := Int.eq_ofNat_of_zero_le (not_lt.mp hneg)
      rcases reserve_fill_spec hM h (n := n) (by unfold WriteCall.Small at hc; omega) bs with
        ⟨m1, l1, free1, old, hrun', -, hW⟩ | ⟨hrun', -⟩
      · rw [hrun] at hrun'
        cases hrun'
        exact ⟨free1, _, hW⟩
      · rw [hrun] at hrun'
        cases hrun'

end WriteCall

end Shmipc.Buffer
