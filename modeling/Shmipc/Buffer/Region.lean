import Shmipc.Buffer.Create
import Shmipc.Buffer.Calls

/-!
# The lists stay inside their regions

Less than `FreeInv`: not which slots are free, but that the links of a list lead from
slots of the list to slots of the list. That is kept even when a slice is recycled twice,
and it is enough for `pop` and `push` not to leave the region.

* `Region c K m`: the head and the tail of class `c` are among its slots `K`, and so is
  every slot that is linked to one of them.
* `Region.pop_eq`, `Region.push_eq`: what the operations do, then.
* `Regions.pop`, `Regions.push`: they keep the regions of all classes.
-/

namespace Shmipc.Buffer

open Common

structure Region (c : SizeClass) (K : Set ℕ) (m : Mem) : Prop where
  len : c.finish ≤ m.len
  capWord : m.get32 (c.off + 16) = c.cap
  caps : ∀ o ∈ slotOffsets c.n c.cap, m.get32 (c.off + 36 + o) = c.cap
  slots : ∀ o ∈ K, o ∈ slotOffsets c.n c.cap
  head : m.get32 (c.off + 8) ∈ K
  tail : m.get32 (c.off + 12) ∈ K
  next : ∀ o ∈ K, ∀ o', nextAt m (c.off + 36) o = some o' → o' ∈ K

/-- The regions of all classes. -/
def Regions (cs : List SizeClass) (K : SizeClass → Set ℕ) (m : Mem) : Prop :=
  ∀ c ∈ cs, Region c (K c) m

section

variable {cs : List SizeClass} {c : SizeClass} {K : Set ℕ} {L : SizeClass → Set ℕ} {m m' : Mem}
  {b : BufferList} {F : List ℕ} {o o' : ℕ}

theorem FreeInv.region (h : FreeInv c.off c.n c.cap m F) : Region c {o | o ∈ F} m where
  len := h.len
  capWord := h.capWord
  caps := h.caps
  slots := h.slots
  head := List.mem_of_mem_head? h.head
  tail := List.mem_of_getLast? h.tail
  next _ ho _ hn := h.chain.next_mem ho hn

/-- The region depends on the list's words, on the links of the slots in `K` and on the
    capacities of all slots. -/
theorem Region.congr (h : Region c K m) (hlen : m'.len = m.len)
    (hw : m.SameOn m' (c.off + 8) (c.off + 20))
    (hK : ∀ o ∈ K, m.SameOn m' (c.off + 36 + o) (c.off + 36 + o + 20))
    (hcaps : ∀ o ∈ slotOffsets c.n c.cap, m.SameOn m' (c.off + 36 + o) (c.off + 36 + o + 4)) :
    Region c K m' where
  len := hlen ▸ h.len
  capWord := by rw [Mem.get32_congr (hw.mono (by omega) (by omega))]; exact h.capWord
  caps o ho := by rw [Mem.get32_congr (hcaps o ho)]; exact h.caps o ho
  slots := h.slots
  head := by rw [Mem.get32_congr (hw.mono (by omega) (by omega))]; exact h.head
  tail := by rw [Mem.get32_congr (hw.mono (by omega) (by omega))]; exact h.tail
  next o ho o' hn := h.next o ho o' ((nextAt_congr (hK o ho)).symm.trans hn)

theorem Region.of_sameOn (h : Region c K m) (hlen : m'.len = m.len)
    (hs : m.SameOn m' c.off c.finish) : Region c K m' := by
  have hslot : ∀ o ∈ slotOffsets c.n c.cap,
      m.SameOn m' (c.off + 36 + o) (c.off + 36 + o + 20) := by
    intro o ho
    have := slot_le ho
    exact hs.mono (by omega) (by unfold SizeClass.finish; omega)
  exact h.congr hlen (hs.mono (by omega) (by unfold SizeClass.finish; omega))
    (fun o ho => hslot o (h.slots o ho)) fun o ho => (hslot o ho).mono le_rfl (by omega)

/-! ## The operations of a list -/

theorem popped_eq_some {off : ℕ} (h : popped m off = some (o, o')) :
    o = m.get32 (off + 8) ∧ nextAt m (off + 36) o = some o' := by
  unfold popped at h
  split_ifs at h
  obtain ⟨o1, hn, he⟩ := Option.map_eq_some_iff.mp h
  cases he
  exact ⟨rfl, hn⟩

theorem Region.pop_eq (h : Region c K m) (hb : ListAt b c.off c.n c.cap) :
    b.pop m = match popped m c.off with
      | none => .ok (m, .error .noMoreBuffer)
      | some (o, o') =>
        .ok (popMem m c.off b.counter o o', .ok (headerSlice m (c.off + 36 + o) c.cap)) :=
  pop_popped hb h.capWord (hb.fits_slot h.len (h.slots _ h.head))

theorem Region.push_eq (h : Region c K m) (hb : ListAt b c.off c.n c.cap) {s : BufferSlice}
    (ho : o ∈ slotOffsets c.n c.cap) (hh : s.header = some (c.off + 36 + o))
    (hs : s.offsetInShm = c.off + 36 + o) :
    b.push m s = .ok (pushMem m c.off b.counter o (m.get32 (c.off + 12))) :=
  Buffer.push_eq hb (hb.fits_slot h.len (h.slots _ h.tail)) (hb.fits_slot h.len ho) hh hs

theorem Region.pop (h : Region c K m) (hb : ListAt b c.off c.n c.cap)
    (hp : popped m c.off = some (o, o')) : Region c K (popMem m c.off b.counter o o') := by
  obtain ⟨rfl, hn⟩ := popped_eq_some hp
  have hc := hb.counter
  have ho := h.slots _ h.head
  have ho' := h.next _ h.head _ hn
  have hlt := hb.slot_lt (h.slots _ ho')
  generalize m.get32 (c.off + 8) = o at ho hn
  refine ⟨h.len, ?_, fun x hx => ?_, h.slots, ?_, ?_, fun x hx y hy => ?_⟩
  · rw [Mem.get32_congr (popMem_sameOn hc (by omega) (by omega)), h.capWord]
  · have hsame : m.SameOn (popMem m c.off b.counter o o') (c.off + 36 + x) (c.off + 36 + x + 4) := by
      rcases eq_or_ne x o with rfl | hxo
      · exact popMem_sameOn hc (by omega) (by omega)
      · have := slot_disjoint hx ho hxo
        exact popMem_sameOn hc (by omega) (by omega)
    rw [Mem.get32_congr hsame, h.caps x hx]
  · rw [popMem_head hc (by omega)]
    exact ho'
  · rw [Mem.get32_congr (popMem_sameOn hc (by omega) (by omega))]
    exact h.tail
  · -- the slot that was taken has no link any more
    rcases eq_or_ne x o with rfl | hxo
    · have hflag : hasNext (popMem m c.off b.counter x o') (c.off + 36 + x) = false := by
        unfold popMem
        rw [hasNext_congr (Mem.addInt32_sameOn (by omega)), hasNext_setInUsed_clearFlag]
      rw [nextAt, if_neg (by simp [hflag])] at hy
      cases hy
    · have := slot_disjoint (h.slots x hx) ho hxo
      rw [nextAt_congr (popMem_sameOn hc (by omega) (by omega))] at hy
      exact h.next x hx y hy

theorem Region.push (h : Region c K m) (hb : ListAt b c.off c.n c.cap)
    (ho : o ∈ slotOffsets c.n c.cap) :
    Region c (insert o K) (pushMem m c.off b.counter o (m.get32 (c.off + 12))) := by
  have hc := hb.counter
  have hlt := hb.slot_lt ho
  have htK := h.tail
  have ht := h.slots _ htK
  generalize m.get32 (c.off + 12) = t at ht htK
  refine ⟨h.len, ?_, fun x hx => ?_, fun x hx => ?_, ?_, ?_, fun x hx y hy => ?_⟩
  · rw [Mem.get32_congr (pushMem_sameOn hc (by omega) (by omega) (by omega)), h.capWord]
  · have hsame : ∀ z ∈ slotOffsets c.n c.cap, c.off + 36 + x + 4 ≤ c.off + 36 + z + 4 ∨
        c.off + 36 + z + 17 ≤ c.off + 36 + x := by
      intro z hz
      rcases eq_or_ne x z with rfl | hxz
      · omega
      · have := slot_disjoint hx hz hxz
        omega
    have h1 := hsame o ho
    have h2 := hsame t ht
    rw [Mem.get32_congr (pushMem_sameOn hc (by omega) (by omega) (by omega)), h.caps x hx]
  · rcases hx with rfl | hx
    · exact ho
    · exact h.slots x hx
  · rw [Mem.get32_congr (pushMem_sameOn hc (by omega) (by omega) (by omega))]
    exact Set.mem_insert_of_mem o h.head
  · rw [pushMem_tail hc (by omega)]
    exact Set.mem_insert o K
  · -- the old tail now leads to `o`; `o` itself leads nowhere, unless it was the tail
    have hxs : x ∈ slotOffsets c.n c.cap := by
      rcases hx with rfl | hx
      · exact ho
      · exact h.slots x hx
    rcases eq_or_ne x t with rfl | hxt
    · rw [pushMem_link hc (by omega)] at hy
      cases hy
      exact Set.mem_insert o K
    · rcases eq_or_ne x o with rfl | hxo
      · have := slot_disjoint ht hxs hxt.symm
        obtain ⟨-, -, hflag⟩ := pushMem_header (m := m) (o := x) (t := t) hc (by omega)
        rw [nextAt, if_neg (by simp [hflag])] at hy
        cases hy
      · have := slot_disjoint hxs ht hxt
        have := slot_disjoint hxs ho hxo
        rw [nextAt_congr (pushMem_sameOn hc (by omega) (by omega) (by omega))] at hy
        exact Set.mem_insert_of_mem o (h.next x (hx.resolve_left hxo) y hy)

/-! ## All lists -/

theorem Regions.of_class (h : Regions cs L m) (hL : Layout cs m.len) (hc : c ∈ cs)
    (hlen : m'.len = m.len) (hK : Region c K m')
    (hs : ∀ lo hi, hi ≤ c.off ∨ c.finish ≤ lo → m.SameOn m' lo hi) :
    Regions cs (Function.update L c K) m' := by
  intro c' hc'
  rcases eq_or_ne c' c with rfl | hne
  · rw [Function.update_self]
    exact hK
  · rw [Function.update_of_ne hne]
    have := hL.classes_apart hc' hc hne
    exact (h c' hc').of_sameOn hlen (hs _ _ (by omega))

theorem popMem_outside (hc : b.counter = c.off + 20 ∨ b.counter = c.off + 24)
    (ho : o ∈ slotOffsets c.n c.cap) (lo hi : ℕ) (hr : hi ≤ c.off ∨ c.finish ≤ lo) :
    m.SameOn (popMem m c.off b.counter o o') lo hi := by
  have := slot_le ho
  unfold SizeClass.finish at hr
  exact popMem_sameOn hc (by omega) (by omega)

theorem pushMem_outside {t : ℕ} (hc : b.counter = c.off + 20 ∨ b.counter = c.off + 24)
    (ho : o ∈ slotOffsets c.n c.cap) (ht : t ∈ slotOffsets c.n c.cap) (lo hi : ℕ)
    (hr : hi ≤ c.off ∨ c.finish ≤ lo) : m.SameOn (pushMem m c.off b.counter o t) lo hi := by
  have := slot_le ho
  have := slot_le ht
  unfold SizeClass.finish at hr
  exact pushMem_sameOn hc (by omega) (by omega) (by omega)

theorem Regions.pop (h : Regions cs L m) (hL : Layout cs m.len) (hc : c ∈ cs)
    (hb : ListAt b c.off c.n c.cap) (hp : popped m c.off = some (o, o')) :
    Regions cs L (popMem m c.off b.counter o o') := by
  have hR := h c hc
  have ho : o ∈ slotOffsets c.n c.cap := (popped_eq_some hp).1 ▸ hR.slots _ hR.head
  have hall := h.of_class hL hc len_popMem (hR.pop hb hp) (popMem_outside hb.counter ho)
  rwa [Function.update_eq_self] at hall

theorem Regions.push (h : Regions cs L m) (hL : Layout cs m.len) (hc : c ∈ cs)
    (hb : ListAt b c.off c.n c.cap) (ho : o ∈ slotOffsets c.n c.cap) :
    Regions cs (Function.update L c (insert o (L c)))
      (pushMem m c.off b.counter o (m.get32 (c.off + 12))) :=
  h.of_class hL hc len_pushMem ((h c hc).push hb ho)
    (pushMem_outside hb.counter ho ((h c hc).slots _ (h c hc).tail))

/-! ## Recycling -/

/-- The slice of a slot of class `c`: what `recycleBuffer` reads of it. -/
structure SliceOf (c : SizeClass) (o : ℕ) (s : BufferSlice) : Prop where
  slot : o ∈ slotOffsets c.n c.cap
  header : s.header = some (c.off + 36 + o)
  offsetInShm : s.offsetInShm = c.off + 36 + o
  cap : s.cap = c.cap
  isFromShm : s.isFromShm = true

/-- What identifies a slice to `recycleBuffer`; its indices change as it is used. -/
def BufferSlice.place (s : BufferSlice) : Option ℕ × ℕ × ℕ × Bool :=
  (s.header, s.offsetInShm, s.cap, s.isFromShm)

theorem SliceOf.of_place {s s' : BufferSlice} (h : SliceOf c o s) (hp : s'.place = s.place) :
    SliceOf c o s' := by
  simp only [BufferSlice.place, Prod.mk.injEq] at hp
  obtain ⟨h1, h2, h3, h4⟩ := hp
  exact ⟨h.slot, h1.trans h.header, h2.trans h.offsetInShm, h3.trans h.cap, h4.trans h.isFromShm⟩

theorem Region.sliceOf (h : Region c K m) (ho : o ∈ slotOffsets c.n c.cap) :
    SliceOf c o (headerSlice m (c.off + 36 + o) c.cap) :=
  ⟨ho, rfl, rfl, h.caps o ho, rfl⟩

theorem mem_zip_map {α β : Type*} {f : α → β} {l : List α} {a : α} {b : β}
    (h : (b, a) ∈ (l.map f).zip l) : b = f a ∧ a ∈ l := by
  rw [List.zip_map_left] at h
  obtain ⟨⟨a1, a2⟩, hmem, he⟩ := List.mem_map.mp h
  cases he
  have hsame : ∀ {x y}, (x, y) ∈ l.zip l → x = y :=
    (List.forall₂_iff_zip.mp (List.forall₂_same.mpr fun (a : α) (_ : a ∈ l) => rfl)).2
  exact ⟨congrArg f (hsame hmem), (List.of_mem_zip hmem).2⟩

/-- With different capacities, the first list of the slice's capacity is its own. -/
theorem Regions.recycleLoop_eq (h : Regions cs L m) (hL : Layout cs m.len) {s : BufferSlice}
    (hs : SliceOf c o s) : ∀ {bs : List BufferList} {cs' : List SizeClass},
    List.Forall₂ (fun b c => ListAt b c.off c.n c.cap) bs cs' → (∀ c ∈ cs', c ∈ cs) → c ∈ cs' →
    ∃ b, (b, c) ∈ bs.zip cs' ∧ recycleLoop s bs m = b.push m s := by
  intro bs cs' hbs
  induction hbs with
  | nil => exact fun _ hc => nomatch hc
  | @cons b c' bs cs' hb _ ih =>
    intro hsub hc
    have hc' := hsub c' List.mem_cons_self
    have hword : m.get32 b.capPerBuffer = c'.cap := by
      rw [hb.capPerBuffer]
      exact (h c' hc').capWord
    rw [recycleLoop, hword]
    by_cases hcap : s.cap = c'.cap
    · obtain rfl : c' = c := hL.cap_inj hc' (hsub c hc) (hcap.symm.trans hs.cap)
      rw [if_pos hcap]
      exact ⟨b, List.mem_cons_self, rfl⟩
    · rw [if_neg hcap]
      have hmem : c ∈ cs' := by
        refine (List.mem_cons.mp hc).resolve_left ?_
        rintro rfl
        exact hcap hs.cap
      obtain ⟨b', hz, hrun⟩ := ih (fun c hc => hsub c (List.mem_cons_of_mem _ hc)) hmem
      exact ⟨b', List.mem_cons_of_mem _ hz, hrun⟩

/-- **`recycleBuffer`** pushes the slice onto the list of its class. -/
theorem Regions.recycleBuffer_eq (h : Regions cs L m) (hL : Layout cs m.len) {s : BufferSlice}
    (hs : SliceOf c o s) (hc : c ∈ cs) {bm : Manager}
    (hbm : List.Forall₂ (fun b c => ListAt b c.off c.n c.cap) bm.lists cs) :
    ∃ b, (b, c) ∈ bm.lists.zip cs ∧ bm.recycleBuffer m s = b.push m s := by
  unfold Manager.recycleBuffer
  rw [if_pos hs.isFromShm]
  exact h.recycleLoop_eq hL hs hbm (fun _ hc => hc) hc

end

end Shmipc.Buffer
