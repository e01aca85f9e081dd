import Shmipc.Buffer.Stock

/-!
# The shared memory as a heap of slots

What the buffer manager is for, without its lists: a set of slots, some of them
free. `Heap cs m free` says that the free chains of the size classes `cs` hold the
slots `free`, each in the list of its own class.

Results: the specifications of the manager's operations in these terms.
* `heap_iff`: a heap is a stock whose chains keep to their classes.
* `alloc_spec`, `allocMany_spec`: allocation takes free slots.
* `recycle_spec`: recycling a slot makes it free.
* `readBufferSlice_slot`: the slice of a slot.
-/

namespace Shmipc.Buffer

open Common

/-! ## Free slots -/

/-- The slots in `free` are the free ones. -/
def Heap (cs : List SizeClass) (m : Mem) (free : List ℕ) : Prop :=
  ∃ F : SizeClass → List ℕ, (∀ c ∈ cs, FreeInv c.off c.n c.cap m (F c)) ∧
    free.Perm (cs.flatMap fun c => (F c).map (c.off + 36 + ·))

/-- Every chain has slots of its own class only. -/
def Own (cs : List SizeClass) (F : SizeClass → List ℕ) : Prop :=
  ∀ c ∈ cs, ∀ o ∈ F c, o ∈ slotOffsets c.n c.cap

section Heap

variable {cs : List SizeClass} {m m' : Mem} {free free' : List ℕ} {a cap : ℕ} {c : SizeClass}
  {F : List ℕ}

theorem Heap.perm (h : Heap cs m free) (hp : free'.Perm free) : Heap cs m free' := by
  obtain ⟨F, hF, hfree⟩ := h
  exact ⟨F, hF, hp.trans hfree⟩

theorem FreeInv.slots_subset (h : FreeInv c.off c.n c.cap m F) :
    ∀ a ∈ F.map (c.off + 36 + ·), a ∈ c.slots := by
  intro a ha
  obtain ⟨o, ho, rfl⟩ := List.mem_map.mp ha
  exact List.mem_map_of_mem (h.slots o ho)

theorem Heap.isSlot (h : Heap cs m free) (ha : a ∈ free) : ∃ cap, IsSlot cs a cap := by
  obtain ⟨F, hF, hfree⟩ := h
  obtain ⟨c, hc, hac⟩ := List.mem_flatMap.mp (hfree.mem_iff.mp ha)
  exact ⟨c.cap, c, hc, rfl, (hF c hc).slots_subset a hac⟩

theorem Heap.nodup (h : Heap cs m free) (hL : Layout cs m.len) : free.Nodup := by
  obtain ⟨F, hF, hfree⟩ := h
  refine hfree.nodup_iff.mpr (List.nodup_flatMap.mpr ⟨fun c hc => ?_, ?_⟩)
  · exact (hF c hc).nodup.map fun _ _ he => Nat.add_left_cancel he
  · refine hL.apart.imp_of_mem fun hc hc' hcc => ?_
    intro a ha ha'
    have := SizeClass.slot_bounds ((hF _ hc).slots_subset a ha)
    have := SizeClass.slot_bounds ((hF _ hc').slots_subset a ha')
    omega

/-- The free chain of a class depends on the memory of the class only. -/
theorem FreeInv.of_sameOn (h : FreeInv c.off c.n c.cap m F) (hlen : m'.len = m.len)
    (hs : m.SameOn m' c.off c.finish) : FreeInv c.off c.n c.cap m' F := by
  have hslot : ∀ o ∈ slotOffsets c.n c.cap,
      m.SameOn m' (c.off + 36 + o) (c.off + 36 + o + 20) := fun o ho =>
    hs.mono (by omega) (by have := slot_le ho; unfold SizeClass.finish; omega)
  refine h.congr hlen (hs.mono le_rfl (by unfold SizeClass.finish; omega))
    (fun o ho => hslot o (h.slots o ho)) fun o ho => (hslot o ho).mono le_rfl (by omega)

/-- Writes to a slot that is not free, behind its capacity, leave the chains as they are. -/
theorem FreeInv.write (h : FreeInv c.off c.n c.cap m F) (hL : Layout cs m.len) (hc : c ∈ cs)
    (ha : IsSlot cs a cap) (hfree : ∀ o ∈ F, c.off + 36 + o ≠ a) (hlen : m'.len = m.len)
    (hs : ∀ lo hi, hi ≤ a + 4 ∨ a + 20 + cap ≤ lo → m.SameOn m' lo hi) :
    FreeInv c.off c.n c.cap m' F := by
  have hhdr := ha.apart_header hL hc
  have hother : ∀ b ∈ c.slots, b ≠ a → m.SameOn m' b (b + 20 + c.cap) := fun b hb hne => by
    have := ha.apart ⟨c, hc, rfl, hb⟩ hL hne.symm
    exact hs _ _ (by omega)
  refine h.congr hlen (hs _ _ (by omega)) (fun o ho => ?_) fun o ho => ?_
  · have hmem := List.mem_map_of_mem (f := (c.off + 36 + ·)) ho
    exact (hother _ (h.slots_subset _ hmem) (hfree o ho)).mono le_rfl (by omega)
  · rcases eq_or_ne (c.off + 36 + o) a with rfl | hne
    · exact hs _ _ (by omega)
    · exact (hother _ (List.mem_map_of_mem ho) hne).mono le_rfl (by omega)

theorem Heap.write (h : Heap cs m free) (hL : Layout cs m.len) (ha : IsSlot cs a cap)
    (hfree : a ∉ free) (hlen : m'.len = m.len)
    (hs : ∀ lo hi, hi ≤ a + 4 ∨ a + 20 + cap ≤ lo → m.SameOn m' lo hi) : Heap cs m' free := by
  obtain ⟨F, hF, hp⟩ := h
  refine ⟨F, fun c hc => (hF c hc).write hL hc ha (fun o ho he => hfree ?_) hlen hs, hp⟩
  exact hp.mem_iff.mpr (List.mem_flatMap.mpr ⟨c, hc, he ▸ List.mem_map_of_mem ho⟩)

/-- The memory outside a class after a `pop` or `push` on its list. -/
theorem Heap.of_class {F : SizeClass → List ℕ} {G : List ℕ} (hL : Layout cs m.len)
    (hF : ∀ c ∈ cs, FreeInv c.off c.n c.cap m (F c)) (hc : c ∈ cs) (hlen : m'.len = m.len)
    (hG : FreeInv c.off c.n c.cap m' G)
    (hs : ∀ lo hi, hi ≤ c.off ∨ c.finish ≤ lo → m.SameOn m' lo hi) :
    ∀ c' ∈ cs, FreeInv c'.off c'.n c'.cap m' (Function.update F c G c') := by
  intro c' hc'
  rcases eq_or_ne c' c with rfl | hne
  · rwa [Function.update_self]
  · rw [Function.update_of_ne hne]
    have := hL.classes_apart hc hc' hne.symm
    exact (hF c' hc').of_sameOn hlen (hs _ _ (by omega))

theorem heap_iff (hL : Layout cs m.len) :
    Heap cs m free ↔ ∃ F, Stock cs m F ∧ Own cs F ∧ free.Perm (stocked cs F) := by
  constructor
  · intro h
    have hnd := h.nodup hL
    obtain ⟨F, hF, hp⟩ := h
    refine ⟨F, ⟨hL.placed, fun c hc => ?_, fun c hc o ho => ?_, hp.nodup_iff.mp hnd, ?_⟩,
      fun c hc => (hF c hc).slots, hp⟩
    · exact (hF c hc).chained ((hL.fits c hc).trans_lt hL.small)
    · exact ⟨c, hc, rfl, List.mem_map_of_mem ((hF c hc).slots o ho)⟩
    · rintro a cap ⟨c, hc, rfl, ha⟩
      obtain ⟨o, ho, rfl⟩ := SizeClass.mem_slots.mp ha
      exact (hF c hc).caps o ho
  · rintro ⟨F, hS, hown, hp⟩
    refine ⟨F, fun c hc => (hS.chained c hc).freeInv (hL.fits c hc) (hown c hc) fun o ho => ?_, hp⟩
    exact hS.caps _ _ ⟨c, hc, rfl, List.mem_map_of_mem ho⟩

end Heap

/-! ## The free chains -/

/-- The shared memory as a buffer manager keeps it. -/
structure Ready (cs : List SizeClass) (bm : Manager) (m : Mem) : Prop where
  layout : Layout cs m.len
  manager : ManagerOk cs bm
  heap : ∃ free, Heap cs m free

section Chains

variable {cs : List SizeClass} {m : Mem} {free F : List ℕ} {a cap : ℕ} {c : SizeClass}
  {b : BufferList} {bm : Manager}

theorem FreeInv.freeSlots_eq (h : FreeInv c.off c.n c.cap m F) (hb : ListAt b c.off c.n c.cap) :
    b.freeSlots m = F.map (c.off + 36 + ·) := (h.chained hb.fits).freeSlots_eq hb

/-- The free slots of the heap are those of the free chains. -/
theorem Heap.freeSlots_perm (h : Heap cs m free) (hM : ManagerOk cs bm) :
    (bm.freeSlots m).Perm free := by
  obtain ⟨F, hF, hp⟩ := h
  rw [hM.freeSlots_eq (F := F)]
  · exact hp.symm
  · intro c hc
    obtain ⟨b, -, hb⟩ := hM.list_of_class hc
    exact (hF c hc).chained hb.fits

/-- Every free chain has only slots of its own class. -/
theorem Heap.freeSlots_own (h : Heap cs m free) (hM : ManagerOk cs bm) :
    List.Forall₂ (fun b c => ∀ a ∈ b.freeSlots m, a ∈ c.slots) bm.lists cs := by
  obtain ⟨F, hF, -⟩ := h
  refine List.forall₂_iff_zip.mpr ⟨hM.lists.length_eq, fun {b c} hbc a ha => ?_⟩
  have hb := (List.forall₂_iff_zip.mp hM.lists).2 hbc
  have hfree := hF c (List.of_mem_zip hbc).2
  rw [hfree.freeSlots_eq hb] at ha
  exact hfree.slots_subset a ha

theorem Heap.slotCap (h : Heap cs m free) (ha : IsSlot cs a cap) : m.get32 a = cap := by
  obtain ⟨F, hF, -⟩ := h
  obtain ⟨c, hc, rfl, ha⟩ := ha
  obtain ⟨o, ho, rfl⟩ := SizeClass.mem_slots.mp ha
  exact (hF c hc).caps o ho

end Chains

/-! ## The manager's operations -/

/-- Slot `a` has been taken from the heap. -/
structure Taken (cs : List SizeClass) (m : Mem) (free : List ℕ) (a cap : ℕ) (m' : Mem)
    (free' : List ℕ) : Prop where
  slot : IsSlot cs a cap
  perm : free.Perm (a :: free')
  heap : Heap cs m' free'
  keeps : Keeps cs free m m'
  noNext : hasNext m' a = false

/-- The slots `as`, with their capacities, have been taken. -/
structure TakenAll (cs : List SizeClass) (m : Mem) (free : List ℕ) (as : List (ℕ × ℕ)) (m' : Mem)
    (free' : List ℕ) : Prop where
  slots : ∀ p ∈ as, IsSlot cs p.1 p.2
  perm : free.Perm (as.map Prod.fst ++ free')
  heap : Heap cs m' free'
  keeps : Keeps cs free m m'
  noNext : ∀ p ∈ as, hasNext m' p.1 = false

/-- A class that a request of `size` bytes fits has a slot to give. -/
def Manager.Avail (bm : Manager) (m : Mem) (size : ℕ) : Prop :=
  ∃ b ∈ bm.lists, size ≤ m.get32 b.capPerBuffer ∧ 2 ≤ toInt32 (m.get32 b.size)

section Manager

variable {cs : List SizeClass} {m m' : Mem} {free free' : List ℕ} {a cap : ℕ}
  {F F' : SizeClass → List ℕ} {bm : Manager} {as : List (ℕ × ℕ)}

theorem Taken.all (h : Taken cs m free a cap m' free') :
    TakenAll cs m free [(a, cap)] m' free' where
  slots p hp := by rw [List.mem_singleton.mp hp]; exact h.slot
  perm := h.perm
  heap := h.heap
  keeps := h.keeps
  noNext p hp := by rw [List.mem_singleton.mp hp]; exact h.noNext

theorem TakenAll.one (h : TakenAll cs m free [(a, cap)] m' free') :
    Taken cs m free a cap m' free' where
  slot := h.slots _ (List.mem_singleton_self _)
  perm := h.perm
  heap := h.heap
  keeps := h.keeps
  noNext := h.noNext _ (List.mem_singleton_self _)

theorem Dealt.takenAll (h : Dealt cs m F as m' F') (hL : Layout cs m.len) (hown : Own cs F)
    (hp : free.Perm (Buffer.stocked cs F)) : TakenAll cs m free as m' (Buffer.stocked cs F') where
  slots := h.slots
  perm := hp.trans h.stocked
  heap := (heap_iff (h.keeps.len ▸ hL)).mpr
    ⟨F', h.stock, fun c hc o ho => hown c hc o ((h.suffix c).subset ho), .refl _⟩
  keeps := h.keeps.mono fun _ ha => hp.mem_iff.mpr ha
  noNext := h.noNext

/-- Classes with one slot each have none to give. -/
theorem Stock.not_avail (h : Stock cs m F) (hM : ManagerOk cs bm) {size : ℕ}
    (hnone : ∀ c ∈ cs, size ≤ c.cap → (F c).length < 2) : ¬ bm.Avail m size := by
  rintro ⟨b, hb, hcap, hfree⟩
  obtain ⟨c, hc, hat⟩ := forall₂_left hM.lists hb
  have hchain := h.chained c hc
  rw [h.capWord hc hat] at hcap
  rw [hat.size, hchain.size, toInt32_of_lt hchain.length_le.2] at hfree
  have := hnone c hc hcap
  omega

/-- **`allocShmBuffer`** takes a free slot if a class has one to give. -/
theorem alloc_spec (hM : ManagerOk cs bm) (h : Heap cs m free) (hL : Layout cs m.len) (size : ℕ) :
    (bm.allocShmBuffer m size = .ok (m, .error .noMoreBuffer) ∧ ¬ bm.Avail m size) ∨
    ∃ a cap m' free', bm.allocShmBuffer m size = .ok (m', .ok (slotSlice a cap)) ∧ size ≤ cap ∧
      Taken cs m free a cap m' free' := by
  obtain ⟨F, hS, hown, hp⟩ := (heap_iff hL).mp h
  rcases hS.allocShmBuffer hM (hL.ascending.imp le_of_lt) size with
    ⟨hnone, hrun⟩ | ⟨c, -, hsize, -, o, G, m', -, -, hrun, hd⟩
  · exact .inl ⟨hrun, hS.not_avail hM hnone⟩
  · exact .inr ⟨_, c.cap, m', _, hrun, hsize, (hd.takenAll hL hown hp).one⟩

/-- **`allocShmBuffers`** takes slots until their capacities reach `size`, or none is left. -/
theorem allocMany_spec (hM : ManagerOk cs bm) (h : Heap cs m free) (hL : Layout cs m.len)
    (size : ℕ) :
    ∃ as m' free', bm.allocShmBuffers m size = .ok (m', as.map sliceOf, sumCap as) ∧
      TakenAll cs m free as m' free' ∧ Needed size as := by
  obtain ⟨F, hS, hown, hp⟩ := (heap_iff hL).mp h
  obtain ⟨as, m', F', hrun, hd, hneed, -⟩ := hS.allocShmBuffers hM size
  exact ⟨as, m', _, hrun, hd.takenAll hL hown hp, hneed⟩

/-- Where the capacities differ, a slot goes back to its own class. -/
theorem PutBack.own (h : PutBack cs m F a cap m' F') (hL : Layout cs m.len) (hown : Own cs F)
    (ha : IsSlot cs a cap) : Own cs F' := by
  obtain ⟨c, hc, hcap, o, rfl, rfl⟩ := h.chain
  obtain ⟨c1, hc1, hcap1, hslot⟩ := ha
  obtain rfl : c1 = c := hL.cap_inj hc1 hc (hcap1.trans hcap.symm)
  obtain ⟨o1, ho1, he⟩ := SizeClass.mem_slots.mp hslot
  obtain rfl : o = o1 := Nat.add_left_cancel he
  intro c' hc'
  rcases eq_or_ne c' c1 with rfl | hne
  · rw [Function.update_self]
    exact List.forall_mem_append.mpr ⟨hown c' hc', List.forall_mem_singleton.mpr ho1⟩
  · rw [Function.update_of_ne hne]
    exact hown c' hc'

/-- **`recycleBuffer`** of a slot makes it free. -/
theorem recycle_spec (hM : ManagerOk cs bm) (h : Heap cs m free) (hL : Layout cs m.len)
    {s : BufferSlice} (ha : IsSlot cs a s.cap) (hfree : a ∉ free) (hshm : s.isFromShm = true)
    (hh : s.header = some a) (hs : s.offsetInShm = a) :
    ∃ m', bm.recycleBuffer m s = .ok m' ∧ Heap cs m' (a :: free) ∧ Keeps cs (a :: free) m m' := by
  obtain ⟨F, hS, hown, hp⟩ := (heap_iff hL).mp h
  obtain ⟨m', F', hrun, hb⟩ := hS.recycleBuffer hM ha (fun hmem => hfree (hp.mem_iff.mpr hmem))
    hshm hh hs
  refine ⟨m', hrun, (heap_iff (hb.keeps.len ▸ hL)).mpr ⟨F', hb.stock, hb.own hL hown ha, ?_⟩,
    hb.keeps.mono fun x hx => ((hp.cons a).mem_iff).mpr hx⟩
  exact (hp.cons a).trans hb.stocked.symm

/-- **`readBufferSlice`** of a slot. -/
theorem readBufferSlice_slot (h : Heap cs m free) (hL : Layout cs m.len) (ha : IsSlot cs a cap) :
    readBufferSlice m a = .ok (.ok (newShmSlice m a (.shm (a + 20) cap) a)) := by
  have hb := ha.bounds hL
  have hsmall := hL.small
  have hpos : 0 < cap := by
    obtain ⟨c, hc, rfl, -⟩ := ha
    exact hL.pos c hc
  have hcap := h.slotCap ha
  rw [readBufferSlice_eq hsmall (by omega) (by omega), sliceAt, hcap]

end Manager

end Shmipc.Buffer
