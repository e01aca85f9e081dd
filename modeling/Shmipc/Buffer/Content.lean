import Shmipc.Buffer.Heap
import Shmipc.Buffer.Linked

/-!
# What a linked buffer holds

The slots a buffer owns and the bytes it has to read. `Owns cs m l others free`
says that the slices of `l` are slots or pieces of heap memory, and that the slots
of `l`, those owned elsewhere and the free ones are all slots, each once.

* `read_eq`, `skip_eq`: a slice gives its next bytes.
* `readNextSlice_spec`: the front slice is pinned or becomes free.
* `recycleSlices_spec`, `releasePreviousRead_spec`: slots become free.
* `advance_front`, `next_front`: the two moves that all readers are made of, and
  what they do to the unread bytes.
-/

namespace Shmipc.Buffer

open Common

/-! ## Slices -/

/-- A slice that stands for a slot. -/
structure ShmSlice (cs : List SizeClass) (s : BufferSlice) : Prop where
  slot : IsSlot cs s.offsetInShm s.cap
  header : s.header = some s.offsetInShm
  data : s.data = .shm (s.offsetInShm + 20) s.cap
  isFromShm : s.isFromShm = true
  start : s.start = 0

/-- A slice of heap memory. -/
structure HeapSlice (s : BufferSlice) : Prop where
  header : s.header = none
  data : ∃ bs, s.data = .heap bs ∧ s.cap ≤ bs.length
  isFromShm : s.isFromShm = false

def SliceOk (cs : List SizeClass) (s : BufferSlice) : Prop := ShmSlice cs s ∨ HeapSlice s

/-- The indexes of the slice are in order and inside its data. -/
structure InBounds (s : BufferSlice) : Prop where
  nonneg : 0 ≤ s.readIndex
  ordered : s.readIndex ≤ s.writeIndex
  fits : s.writeIndex ≤ s.data.len

/-- The unread bytes of a slice. -/
def BufferSlice.bytes (s : BufferSlice) (m : Mem) : List UInt8 :=
  match s.data with
  | .shm a _ => m.read (a + s.readIndex.toNat) s.size.toNat
  | .heap bs => (bs.drop s.readIndex.toNat).take s.size.toNat

/-- The slice after `k` bytes were read. -/
def BufferSlice.advance (s : BufferSlice) (k : ℤ) : BufferSlice :=
  { s with readIndex := s.readIndex + k }

def slotsOf (ss : List BufferSlice) : List ℕ := ss.filterMap (·.header)

section Slice

variable {cs : List SizeClass} {m m' : Mem} {s : BufferSlice} {k : ℤ} {T : List ℕ}

theorem HeapSlice.not_shm (h : HeapSlice s) : ¬ ShmSlice cs s := by
  intro hs
  have := hs.isFromShm
  rw [h.isFromShm] at this
  cases this

theorem InBounds.length_bytes (h : InBounds s) : ((s.bytes m).length : ℤ) = s.size := by
  obtain ⟨h0, h1, h2⟩ := h
  unfold BufferSlice.bytes BufferSlice.size
  cases hd : s.data with
  | shm a n =>
    simp only [Mem.length_read]
    omega
  | heap bs =>
    rw [hd] at h2
    simp only [Data.len] at h2
    simp only [List.length_take, List.length_drop]
    omega

theorem InBounds.advance (h : InBounds s) (h0 : 0 ≤ k) (hk : k ≤ s.size) : InBounds (s.advance k) := by
  obtain ⟨h1, h2, h3⟩ := h
  unfold BufferSlice.size at hk
  exact ⟨by simp only [BufferSlice.advance]; omega, by simp only [BufferSlice.advance]; omega, h3⟩

@[simp] theorem size_advance : (s.advance k).size = s.size - k := by
  simp only [BufferSlice.size, BufferSlice.advance]
  omega

theorem SliceOk.advance (h : SliceOk cs s) (k : ℤ) : SliceOk cs (s.advance k) :=
  h.imp (fun h => ⟨h.slot, h.header, h.data, h.isFromShm, h.start⟩)
    fun h => ⟨h.header, h.data, h.isFromShm⟩

theorem SliceOk.shm_of_header (h : SliceOk cs s) {a : ℕ} (ha : s.header = some a) :
    ShmSlice cs s := by
  rcases h with h | h
  · exact h
  · rw [h.header] at ha
    cases ha

theorem bytes_advance (h : InBounds s) (h0 : 0 ≤ k) (hk : k ≤ s.size) :
    (s.advance k).bytes m = (s.bytes m).drop k.toNat := by
  have hr := h.nonneg
  have hto : (s.readIndex + k).toNat = s.readIndex.toNat + k.toNat := by omega
  have hsz : s.size.toNat = k.toNat + (s.size - k).toNat := by omega
  have hsize : (s.advance k).size = s.size - k := size_advance
  unfold BufferSlice.bytes
  rw [show (s.advance k).data = s.data from rfl, hsize]
  simp only [BufferSlice.advance, hto]
  cases s.data with
  | shm a n =>
    simp only []
    rw [hsz, Mem.read_append, List.drop_left' (by simp), Nat.add_assoc]
  | heap bs =>
    simp only []
    rw [List.drop_take, List.drop_drop, hsz, Nat.add_sub_cancel_left]

theorem bytes_congr (hs : SliceOk cs s) (hb : InBounds s) (hk : KeepsData cs T m m')
    (hT : ∀ a, s.header = some a → a ∉ T) : s.bytes m' = s.bytes m := by
  rcases hs with hs | hs
  · have hsame := hk.slot _ _ hs.slot (hT _ hs.header)
    have hlen := hb.fits
    have h0 := hb.nonneg
    have h1 := hb.ordered
    unfold BufferSlice.bytes BufferSlice.size
    rw [hs.data] at hlen ⊢
    simp only [Data.len] at hlen
    exact Mem.read_congr (hsame.mono (by omega) (by omega))
  · obtain ⟨bs, hd, -⟩ := hs.data
    unfold BufferSlice.bytes
    rw [hd]

theorem capacity_le (hs : SliceOk cs s) (hL : Layout cs m.len) : s.data.len ≤ s.data.capacity m := by
  rcases hs with hs | hs
  · have := hs.slot.bounds hL
    rw [hs.data]
    simp only [Data.len, Data.capacity]
    omega
  · obtain ⟨bs, hd, -⟩ := hs.data
    rw [hd]
    exact le_rfl

/-- **`read`** gives the next bytes, as many as there are. -/
theorem read_eq (hs : SliceOk cs s) (hb : InBounds s) (hL : Layout cs m.len) (h0 : 0 ≤ k) :
    s.read m k = .ok ((s.bytes m).take k.toNat, s.advance (min k s.size), decide (k ≤ s.size)) := by
  have hcap := capacity_le hs hL
  obtain ⟨h1, h2, h3⟩ := hb
  have hn : (if s.size < k then s.size else k) = min k s.size := by
    split_ifs with h
    · rw [min_eq_right h.le]
    · rw [min_eq_left (not_lt.mp h)]
  have hsub : s.data.sub m s.readIndex (s.readIndex + min k s.size) =
      .ok ((s.bytes m).take k.toNat) := by
    unfold BufferSlice.size
    unfold Data.sub BufferSlice.bytes BufferSlice.size
    rw [if_pos (by omega)]
    cases s.data with
    | shm a n =>
      simp only []
      congr 1
      rw [show s.readIndex + min k (s.writeIndex - s.readIndex) - s.readIndex =
        min k (s.writeIndex - s.readIndex) by omega]
      simp only [Mem.read, ← List.map_take, List.take_range]
      congr 2
      omega
    | heap bs =>
      simp only []
      congr 1
      rw [List.take_take]
      congr 1
      omega
  unfold BufferSlice.read
  simp only [hn, hsub]
  rfl

theorem peek_eq (hs : SliceOk cs s) (hb : InBounds s) (hL : Layout cs m.len) (h0 : 0 ≤ k) :
    s.peek m k = .ok ((s.bytes m).take k.toNat) := by
  rw [BufferSlice.peek, read_eq hs hb hL h0]
  rfl

theorem skip_eq : s.skip k = (s.advance (min k s.size), min k s.size) := by
  unfold BufferSlice.skip
  split_ifs with h
  · rw [min_eq_left (by omega)]; rfl
  · rw [min_eq_right (by omega)]; rfl

end Slice

/-! ## Buffers -/

/-- The slots of the buffer, those owned elsewhere and the free ones are all slots. -/
structure Owns (cs : List SizeClass) (m : Mem) (l : LinkedBuffer) (others free : List ℕ) : Prop where
  layout : Layout cs m.len
  heap : Heap cs m free
  slices : ∀ s ∈ l.slices, SliceOk cs s
  pinned : ∀ s ∈ l.pinnedList, SliceOk cs s
  all : (slotsOf l.slices ++ (slotsOf l.pinnedList ++ (others ++ free))).Perm (allSlots cs)

/-- All slices can be read. -/
structure Readable (cs : List SizeClass) (m : Mem) (l : LinkedBuffer) (others free : List ℕ) : Prop
    extends Owns cs m l others free where
  bounds : ∀ s ∈ l.slices, InBounds s

def LinkedBuffer.unread (l : LinkedBuffer) (m : Mem) : List UInt8 :=
  l.slices.flatMap (·.bytes m)

section Buffer

variable {cs : List SizeClass} {bm : Manager} {m m' : Mem} {l l' : LinkedBuffer}
  {s s' : BufferSlice} {rest : List BufferSlice} {others free T : List ℕ} {k : ℤ}

theorem slotsOf_cons_shm (h : ShmSlice cs s) :
    slotsOf (s :: rest) = s.offsetInShm :: slotsOf rest :=
  List.filterMap_cons_some h.header

theorem slotsOf_cons_heap (h : HeapSlice s) : slotsOf (s :: rest) = slotsOf rest :=
  List.filterMap_cons_none h.header

@[simp] theorem slotsOf_append (ss ss' : List BufferSlice) :
    slotsOf (ss ++ ss') = slotsOf ss ++ slotsOf ss' := List.filterMap_append ..

theorem mem_slotsOf {a : ℕ} (hs : s ∈ rest) (ha : s.header = some a) : a ∈ slotsOf rest :=
  List.mem_filterMap.mpr ⟨s, hs, ha⟩

theorem Owns.isSlot (h : Owns cs m l others free) {a : ℕ} (ha : a ∈ slotsOf l.slices) :
    ∃ cap, IsSlot cs a cap :=
  mem_allSlots.mp (h.all.mem_iff.mp (List.mem_append_left _ ha))

theorem Owns.nodup (h : Owns cs m l others free) :
    (slotsOf l.slices ++ (slotsOf l.pinnedList ++ (others ++ free))).Nodup :=
  h.all.nodup_iff.mpr h.layout.allSlots_nodup

theorem Owns.length_lt (h : Owns cs m l others free) {a : ℕ} {as : List ℕ}
    (hslots : slotsOf l.slices = a :: as) : as.length < m.len := by
  have hnd := (List.nodup_append.mp h.nodup).1
  have hle := h.layout.length_le hnd fun x hx => h.isSlot hx
  rwa [hslots, List.length_cons] at hle

/-- The bytes of slices that a step does not touch. -/
theorem flatMap_bytes_congr (hs : ∀ s ∈ rest, SliceOk cs s) (hb : ∀ s ∈ rest, InBounds s)
    (hk : KeepsData cs T m m') (hT : ∀ a ∈ slotsOf rest, a ∉ T) :
    rest.flatMap (·.bytes m') = rest.flatMap (·.bytes m) :=
  List.flatMap_congr fun s hs' =>
    bytes_congr (hs s hs') (hb s hs') hk fun a ha => hT a (mem_slotsOf hs' ha)

theorem recycleBuffer_heap (h : HeapSlice s) : bm.recycleBuffer m s = .ok m := by
  rw [Manager.recycleBuffer, h.isFromShm]
  rfl

/-- **`readNextSlice`**: the front slice is pinned, or its slot becomes free. -/
theorem readNextSlice_spec (hM : ManagerOk cs bm) (h : Owns cs m l others free)
    (hs : l.slices = s :: rest) :
    ∃ m' l' free', l.readNextSlice bm m = .ok (m', l') ∧ Owns cs m' l' others free' ∧
      Keeps cs (slotsOf [s] ++ free) m m' ∧ l'.slices = rest ∧
      l'.pinnedList = l.pinnedList ++ (if s.isFromShm ∧ l.currentPinned then [s] else []) ∧
      l'.currentPinned = false ∧ l'.writeSlice = l.popFront.writeSlice ∧ l'.len = l.len ∧
      l'.isFromShm = l.isFromShm := by
  have hfront : l.front = .ok s := by rw [LinkedBuffer.front, hs]
  have htail : l.slices.tail = rest := by rw [hs]; rfl
  have hrest : ∀ t ∈ rest, SliceOk cs t := fun t ht => h.slices t (hs ▸ List.mem_cons_of_mem s ht)
  have hall := h.all
  unfold LinkedBuffer.readNextSlice
  rw [hfront]
  simp only [bind, Except.bind, pure, Except.pure]
  rcases h.slices s (hs ▸ List.mem_cons_self) with hshm | hheap
  · rw [hs, slotsOf_cons_shm hshm] at hall
    rw [if_pos hshm.isFromShm]
    by_cases hp : l.currentPinned = true
    · rw [if_pos (show l.popFront.currentPinned = true from hp)]
      refine ⟨m, _, free, rfl, ⟨h.layout, h.heap, ?_, ?_, ?_⟩, Keeps.refl .., htail, ?_, rfl, rfl, rfl,
        rfl⟩
      · exact fun t ht => hrest t (htail ▸ ht)
      · intro t ht
        rcases List.mem_append.mp ht with ht | ht
        · exact h.pinned t ht
        · rw [List.mem_singleton.mp ht]; exact .inl hshm
      · refine List.Perm.trans ?_ hall
        simp only [LinkedBuffer.popFront, htail, slotsOf_append, slotsOf_cons_shm hshm]
        rw [List.append_assoc]
        refine (List.Perm.append_left _ List.perm_middle).trans ?_
        exact List.perm_middle
      · simp [LinkedBuffer.popFront, hshm.isFromShm, hp]
    · rw [if_neg (show ¬ l.popFront.currentPinned = true from hp)]
      have hnot : s.offsetInShm ∉ free := by
        have hnd := hall.nodup_iff.mpr h.layout.allSlots_nodup
        intro hmem
        refine (List.nodup_cons.mp hnd).1 ?_
        simp [hmem]
      obtain ⟨m', hrec, hheap', hkeep⟩ := recycle_spec hM h.heap h.layout hshm.slot hnot
        hshm.isFromShm hshm.header rfl
      rw [hrec]
      refine ⟨m', _, s.offsetInShm :: free, rfl, ⟨hkeep.len ▸ h.layout, hheap', ?_, h.pinned, ?_⟩,
        ?_, htail, ?_, rfl, rfl, rfl, rfl⟩
      · exact fun t ht => hrest t (htail ▸ ht)
      · refine List.Perm.trans ?_ hall
        simp only [LinkedBuffer.popFront, htail]
        simp only [← List.append_assoc]
        exact List.perm_middle
      · rw [slotsOf_cons_shm hshm]
        exact hkeep
      · simp [LinkedBuffer.popFront, hp]
  · rw [hs, slotsOf_cons_heap hheap] at hall
    rw [if_neg (by rw [hheap.isFromShm]; simp)]
    refine ⟨m, _, free, rfl, ⟨h.layout, h.heap, ?_, h.pinned, ?_⟩, Keeps.refl .., htail, ?_, rfl, rfl,
      rfl, rfl⟩
    · exact fun t ht => hrest t (htail ▸ ht)
    · simpa [LinkedBuffer.popFront, htail] using hall
    · simp [LinkedBuffer.popFront, hheap.isFromShm]

theorem setSlice_zero (hs : l.slices = s :: rest) : (l.setSlice 0 s').slices = s' :: rest := by
  rw [LinkedBuffer.setSlice, hs]
  rfl

/-- Another slice object for the front slot. -/
theorem Owns.setFront (h : Owns cs m l others free) (hs : l.slices = s :: rest)
    (hok : SliceOk cs s') (hh : s'.header = s.header) :
    Owns cs m (l.setSlice 0 s') others free where
  layout := h.layout
  heap := h.heap
  slices t ht := by
    rw [setSlice_zero hs] at ht
    rcases List.mem_cons.mp ht with rfl | ht
    · exact hok
    · exact h.slices t (hs ▸ List.mem_cons_of_mem s ht)
  pinned := h.pinned
  all := by
    have hslots : slotsOf (s' :: rest) = slotsOf (s :: rest) := by
      simp only [slotsOf, List.filterMap_cons, hh]
    rw [setSlice_zero hs, hslots, ← hs]
    exact h.all

theorem advance_front (h : Readable cs m l others free) (hs : l.slices = s :: rest) (h0 : 0 ≤ k)
    (hk : k ≤ s.size) :
    Readable cs m (l.setSlice 0 (s.advance k)) others free ∧
      (l.setSlice 0 (s.advance k)).unread m = (l.unread m).drop k.toNat := by
  have hmem : s ∈ l.slices := hs ▸ List.mem_cons_self
  have hb := h.bounds s hmem
  refine ⟨⟨h.toOwns.setFront hs ((h.slices s hmem).advance k) rfl, fun t ht => ?_⟩, ?_⟩
  · rw [setSlice_zero hs] at ht
    rcases List.mem_cons.mp ht with rfl | ht
    · exact hb.advance h0 hk
    · exact h.bounds t (hs ▸ List.mem_cons_of_mem s ht)
  · have hlen := hb.length_bytes (m := m)
    unfold LinkedBuffer.unread
    rw [setSlice_zero hs, hs, List.flatMap_cons, List.flatMap_cons, bytes_advance hb h0 hk,
      List.drop_append_of_le_length (by omega)]

theorem next_front (hM : ManagerOk cs bm) (h : Readable cs m l others free)
    (hs : l.slices = s :: rest) (h0 : s.size = 0) :
    ∃ m' l' free', l.readNextSlice bm m = .ok (m', l') ∧ Readable cs m' l' others free' ∧
      l'.slices = rest ∧ l'.unread m' = l.unread m ∧ l'.len = l.len := by
  obtain ⟨m', l', free', hrun, howns, hkeep, hrest, -, -, -, hlen, -⟩ :=
    readNextSlice_spec hM h.toOwns hs
  have hbytes : s.bytes m = [] := by
    have := (h.bounds s (hs ▸ List.mem_cons_self)).length_bytes (m := m)
    exact List.eq_nil_of_length_eq_zero (by omega)
  refine ⟨m', l', free', hrun, ⟨howns, fun t ht => ?_⟩, hrest, ?_, hlen⟩
  · exact h.bounds t (hs ▸ List.mem_cons_of_mem s (hrest ▸ ht))
  · unfold LinkedBuffer.unread
    rw [hrest, hs, List.flatMap_cons, hbytes, List.nil_append]
    refine flatMap_bytes_congr (fun t ht => h.slices t (hs ▸ List.mem_cons_of_mem s ht))
      (fun t ht => h.bounds t (hs ▸ List.mem_cons_of_mem s ht)) hkeep.data fun a ha hT => ?_
    -- the slots of the rest are neither the front's nor free
    have hnd := h.nodup
    rw [hs, show s :: rest = [s] ++ rest from rfl, slotsOf_append, List.append_assoc] at hnd
    obtain ⟨-, hnd', hd⟩ := List.nodup_append.mp hnd
    rcases List.mem_append.mp hT with hT | hT
    · exact hd a hT a (List.mem_append_left _ ha) rfl
    · exact (List.nodup_append.mp hnd').2.2 a ha a (by simp [hT]) rfl

/-- **`recycleSlices`**: the slots of the slices become free. -/
theorem recycleSlices_spec (hM : ManagerOk cs bm) : ∀ (ss : List BufferSlice) (m : Mem)
    (free : List ℕ), Heap cs m free → Layout cs m.len → (∀ s ∈ ss, SliceOk cs s) →
    (slotsOf ss ++ free).Nodup →
    ∃ m', LinkedBuffer.recycleSlices bm ss m = .ok m' ∧ Heap cs m' (slotsOf ss ++ free) ∧
      Keeps cs (slotsOf ss ++ free) m m' := by
  intro ss
  induction ss with
  | nil => intro m free h _ _ _; exact ⟨m, rfl, h, Keeps.refl ..⟩
  | cons s ss ih =>
    intro m free h hL hok hnd
    rw [List.forall_mem_cons] at hok
    rcases hok.1 with hs | hs
    · rw [slotsOf_cons_shm hs] at hnd ⊢
      obtain ⟨hnot, hnd⟩ := List.nodup_cons.mp hnd
      obtain ⟨m1, hrec, hheap, hkeep⟩ := recycle_spec hM h hL hs.slot
        (fun hmem => hnot (List.mem_append_right _ hmem)) hs.isFromShm hs.header rfl
      obtain ⟨m', hrun, hheap', hkeep'⟩ := ih m1 (s.offsetInShm :: free) hheap (hkeep.len ▸ hL) hok.2
        (List.perm_middle.nodup_iff.mpr (List.nodup_cons.mpr ⟨hnot, hnd⟩))
      refine ⟨m', ?_, hheap'.perm List.perm_middle.symm, (hkeep.mono ?_).trans hkeep' ?_⟩
      · simp only [LinkedBuffer.recycleSlices, bind, Except.bind, hrec]
        exact hrun
      · simp only [List.cons_append, List.mem_cons, List.mem_append]
        tauto
      · simp only [List.cons_append, List.mem_cons, List.mem_append]
        tauto
    · rw [slotsOf_cons_heap hs] at hnd ⊢
      obtain ⟨m', hrun, hheap', hkeep'⟩ := ih m free h hL hok.2 hnd
      refine ⟨m', ?_, hheap', hkeep'⟩
      simp only [LinkedBuffer.recycleSlices, bind, Except.bind, recycleBuffer_heap hs]
      exact hrun

/-- **`cleanPinnedList`**: the pinned slots become free. -/
theorem cleanPinnedList_spec (hM : ManagerOk cs bm) (h : Owns cs m l others free) :
    ∃ m', l.cleanPinnedList bm m = .ok (m', { l with
        currentPinned := if l.pinnedList = [] then l.currentPinned else false, pinnedList := [] }) ∧
      Owns cs m' { l with pinnedList := [] } others (slotsOf l.pinnedList ++ free) ∧
      Keeps cs (slotsOf l.pinnedList ++ free) m m' := by
  have hnd := h.nodup
  obtain ⟨m', hrun, hheap, hkeep⟩ := recycleSlices_spec hM l.pinnedList m free h.heap h.layout
    h.pinned (by
    simp only [List.nodup_append, List.mem_append] at hnd ⊢
    grind)
  refine ⟨m', ?_, ⟨hkeep.len ▸ h.layout, hheap, h.slices, by simp, ?_⟩, hkeep⟩
  · unfold LinkedBuffer.cleanPinnedList
    by_cases hp : l.pinnedList = []
    · rw [if_pos hp, if_pos hp]
      rw [hp] at hrun
      cases hrun
      rw [← hp]
    · rw [if_neg hp, if_neg hp, hrun]
      rfl
  · refine List.Perm.trans (List.Perm.append_left _ ?_) h.all
    rw [show slotsOf [] = [] from rfl, List.nil_append, ← List.append_assoc, ← List.append_assoc]
    exact List.perm_append_comm.append_right _

/-- **`ReleasePreviousRead`**: the pinned slots become free, and so does the front one if
    it is the only one and read to its end. -/
theorem releasePreviousRead_spec (hM : ManagerOk cs bm) (h : Owns cs m l others free) :
    ∃ m' l' gone, l.releasePreviousRead bm m = .ok (m', l') ∧ l.slices = gone ++ l'.slices ∧
      (∀ s ∈ gone, s.size = 0) ∧
      Owns cs m' l' others (slotsOf gone ++ (slotsOf l.pinnedList ++ free)) ∧
      Keeps cs (slotsOf gone ++ (slotsOf l.pinnedList ++ free)) m m' ∧ l'.pinnedList = [] ∧
      l'.len = l.len ∧ l'.isFromShm = l.isFromShm ∧
      l'.writeSlice = (if gone = [] then l.writeSlice else .nil) ∧
      (gone ≠ [] → l.writeSlice = .at 0) := by
  obtain ⟨m1, hclean, hown, hkeep⟩ := cleanPinnedList_spec hM h
  rw [LinkedBuffer.releasePreviousRead, hclean]
  generalize (if l.pinnedList = [] then l.currentPinned else false) = pinned
  simp only [bind, Except.bind, pure, Except.pure]
  -- the buffer as it is after `cleanPinnedList`
  have hkept : Owns cs m1 { l with currentPinned := pinned, pinnedList := [] } others
      (slotsOf l.pinnedList ++ free) := ⟨hown.layout, hown.heap, hown.slices, hown.pinned, hown.all⟩
  cases hs : l.slices with
  | nil =>
    rw [hs] at hkept
    exact ⟨m1, _, [], rfl, rfl, by simp, hkept, hkeep, rfl, rfl, rfl, by simp, by simp⟩
  | cons s rest =>
    have hok := h.slices s (hs ▸ List.mem_cons_self)
    have hnd := hown.nodup
    rw [hs] at hkept
    simp only []
    split_ifs with hc
    · obtain ⟨m', hrun, hheap, hkeep'⟩ := recycleSlices_spec hM [s] m1 _ hown.heap hown.layout
        (by simpa using hok) (by
          rw [hs, show s :: rest = [s] ++ rest from rfl, slotsOf_append] at hnd
          simp only [List.nodup_append, List.mem_append] at hnd ⊢
          grind)
      have hrec : bm.recycleBuffer m1 s = .ok m' := by
        obtain ⟨m2, hrec, heq⟩ := Go.bind_ok.mp hrun
        cases heq
        exact hrec
      rw [hrec]
      refine ⟨m', _, [s], rfl, rfl, by simpa using hc.1, ⟨hkeep'.len ▸ hown.layout, hheap, ?_,
        by simp [LinkedBuffer.popFront], ?_⟩, (hkeep.mono ?_).trans hkeep' fun _ h => h,
        rfl, rfl, rfl, rfl, fun _ => hc.2⟩
      · exact fun t ht => hkept.slices t (List.mem_cons_of_mem s ht)
      · refine List.Perm.trans ?_ hkept.all
        simp only [LinkedBuffer.popFront, List.tail_cons]
        rw [show slotsOf (s :: rest) = slotsOf [s] ++ slotsOf rest from slotsOf_append [s] rest]
        simp only [show slotsOf [] = [] from rfl, List.nil_append, List.append_assoc]
        refine List.Perm.trans ?_ (List.perm_append_comm_assoc ..)
        exact (List.perm_append_comm_assoc ..).append_left _
      · exact fun a ha => List.mem_append_right _ ha
    · exact ⟨m1, _, [], rfl, rfl, by simp, hkept, hkeep, rfl, rfl, rfl, by simp, by simp⟩

end Buffer

end Shmipc.Buffer
