import Shmipc.Buffer.Content

/-!
# Receiving messages

A message in shared memory is a chain of slots, linked and filled by the sender.
`moveToWithoutLock` (stream.go:473-523) appends the slices of its slots that hold
data to the receive buffer and gives the empty ones back.

* `moveChain_spec`: one message. Its bytes follow those already there.
* `moveTo_chains`, `moveTo_fallbacks`: the messages that came in.
-/

namespace Shmipc.Buffer

open Common

/-- The slot that the header at `a` links to. -/
def nextSlot (m : Mem) (a : ℕ) : Option ℕ := if hasNext m a then some (nextOffset m a) else none

/-- The data in the slots `as`, as their headers say. -/
def msgBytes (m : Mem) (as : List ℕ) : List UInt8 :=
  as.flatMap fun a => m.read (a + 20) (m.get32 (a + 4))

/-- The slots `as` are linked and their headers filled as the sender leaves them. -/
structure ChainAt (cs : List SizeClass) (m : Mem) (as : List ℕ) : Prop where
  links : Chain (nextSlot m) as
  slots : ∀ a ∈ as, ∃ cap, IsSlot cs a cap ∧ m.get32 (a + 8) = 0 ∧ m.get32 (a + 4) ≤ cap

section Message

variable {cs : List SizeClass} {m m' : Mem} {as bs T : List ℕ} {a : ℕ}

theorem msgBytes_append : msgBytes m (as ++ bs) = msgBytes m as ++ msgBytes m bs :=
  List.flatMap_append ..

theorem msgBytes_single : msgBytes m [a] = m.read (a + 20) (m.get32 (a + 4)) :=
  List.flatMap_singleton ..

theorem ChainAt.congr (h : ChainAt cs m as) (hk : Keeps cs T m m') (hT : ∀ a ∈ as, a ∉ T) :
    ChainAt cs m' as := by
  refine ⟨h.links.congr fun a ha => ?_, fun a ha => ?_⟩
  · obtain ⟨cap, hslot, -⟩ := h.slots a ha
    have hs := hk.slot a cap hslot (hT a ha)
    rw [nextSlot, nextSlot, hasNext_congr (hs.mono (by omega) (by omega)),
      nextOffset_congr (hs.mono (by omega) (by omega))]
  · obtain ⟨cap, hslot, h8, h4⟩ := h.slots a ha
    have hs := hk.slot a cap hslot (hT a ha)
    refine ⟨cap, hslot, ?_, ?_⟩
    · rw [Mem.get32_congr (hs.mono (by omega) (by omega)), h8]
    · rw [Mem.get32_congr (hs.mono (by omega) (by omega))]
      exact h4

theorem msgBytes_congr (h : ∀ a ∈ as, ∃ cap, IsSlot cs a cap ∧ m.get32 (a + 4) ≤ cap)
    (hk : Keeps cs T m m') (hT : ∀ a ∈ as, a ∉ T) : msgBytes m' as = msgBytes m as := by
  refine List.flatMap_congr fun a ha => ?_
  obtain ⟨cap, hslot, h4⟩ := h a ha
  have hs := hk.slot a cap hslot (hT a ha)
  rw [Mem.get32_congr (hs.mono (by omega) (by omega))]
  exact Mem.read_congr (hs.mono (by omega) (by omega))

theorem ChainAt.sizes (h : ChainAt cs m as) :
    ∀ a ∈ as, ∃ cap, IsSlot cs a cap ∧ m.get32 (a + 4) ≤ cap := fun a ha => by
  obtain ⟨cap, hslot, -, h4⟩ := h.slots a ha
  exact ⟨cap, hslot, h4⟩

theorem ChainAt.tail (h : ChainAt cs m (a :: as)) : ChainAt cs m as :=
  ⟨h.links.tail, fun b hb => h.slots b (List.mem_cons_of_mem a hb)⟩

end Message

/-! ## One slot -/

section Slot

variable {cs : List SizeClass} {bm : Manager} {m m' : Mem} {l : LinkedBuffer} {s : BufferSlice}
  {others free : List ℕ} {a b cap : ℕ}

/-- The slice `readBufferSlice` makes of a slot of a message. -/
theorem newShmSlice_ok (hH : Heap cs m free) (ha : IsSlot cs a cap) (h8 : m.get32 (a + 8) = 0)
    (h4 : m.get32 (a + 4) ≤ cap) (hL : Layout cs m.len) :
    let s := newShmSlice m a (.shm (a + 20) cap) a
    ShmSlice cs s ∧ InBounds s ∧ s.size = m.get32 (a + 4) ∧
      s.bytes m = m.read (a + 20) (m.get32 (a + 4)) := by
  have hcap := hH.slotCap ha
  have hb := ha.bounds hL
  have hsmall := hL.small
  have hw : u32 (0 + m.get32 (a + 4)) = m.get32 (a + 4) := by rw [Nat.zero_add, u32_of_lt (by omega)]
  unfold newShmSlice bufferDataStartOffset bufferSizeOffset
  simp only [h8, hw, hcap]
  refine ⟨⟨ha, rfl, rfl, rfl, rfl⟩, ⟨le_rfl, ?_, ?_⟩, ?_, ?_⟩
  · simp
  · simpa [Data.len] using h4
  · simp [BufferSlice.size]
  · simp [BufferSlice.bytes, BufferSlice.size]

/-- Changing the header of a slot, its capacity apart, changes nobody's slots. -/
theorem Owns.header (h : Owns cs m l others free) (hb : IsSlot cs b cap) (hfree : b ∉ free)
    (hlen : m'.len = m.len) (hs : ∀ lo hi, hi ≤ b + 4 ∨ b + 20 ≤ lo → m.SameOn m' lo hi) :
    Owns cs m' l others free where
  layout := hlen ▸ h.layout
  heap := h.heap.write h.layout hb hfree hlen fun lo hi hr => hs lo hi (by omega)
  slices := h.slices
  pinned := h.pinned
  all := h.all

/-- A slot of nobody's buffer becomes free. -/
theorem Owns.recycle (hM : ManagerOk cs bm) (h : Owns cs m l (a :: others) free)
    (hs : ShmSlice cs s) (ha : s.offsetInShm = a) :
    ∃ m', bm.recycleBuffer m s = .ok m' ∧ Owns cs m' l others (a :: free) ∧
      Keeps cs (a :: free) m m' := by
  subst ha
  have hnot : s.offsetInShm ∉ free := by
    have hnd := h.nodup
    rw [← List.append_assoc] at hnd
    have hnd' := (List.nodup_append.mp hnd).2.1
    exact fun hmem => (List.nodup_cons.mp hnd').1 (List.mem_append_right _ hmem)
  obtain ⟨m', hrun, hheap, hkeep⟩ :=
    recycle_spec hM h.heap h.layout hs.slot hnot hs.isFromShm hs.header rfl
  refine ⟨m', hrun, ⟨hkeep.len ▸ h.layout, hheap, h.slices, h.pinned, ?_⟩, hkeep⟩
  exact (((List.perm_middle.append_left _).append_left _)).trans h.all

theorem Owns.append (h : Owns cs m l (a :: others) free) (hs : ShmSlice cs s)
    (ha : s.offsetInShm = a) : Owns cs m (l.appendBufferSlice s) others free := by
  subst ha
  refine ⟨h.layout, h.heap, fun t ht => ?_, h.pinned, ?_⟩
  · rcases List.mem_append.mp ht with ht | ht
    · exact h.slices t ht
    · rw [List.mem_singleton.mp ht]
      exact .inl hs
  · refine List.Perm.trans ?_ h.all
    show (slotsOf (l.slices ++ [s]) ++ _).Perm _
    rw [slotsOf_append, slotsOf_cons_shm hs, List.append_assoc, show slotsOf [] = [] from rfl,
      List.cons_append, List.nil_append]
    exact List.perm_middle.symm.append_left _

end Slot

/-! ## One message -/

/-- The message in the slots `as` has been appended as the slices `new`. -/
structure Received (cs : List SizeClass) (as others free : List ℕ) (m : Mem) (l : LinkedBuffer)
    (m' : Mem) (l' : LinkedBuffer) (free' : List ℕ) (new : List BufferSlice) : Prop where
  owns : Owns cs m' l' others free'
  slices : l'.slices = l.slices ++ new
  shm : ∀ s ∈ new, ShmSlice cs s
  bounds : ∀ s ∈ new, InBounds s
  pos : ∀ s ∈ new, 0 < s.size
  bytes : new.flatMap (·.bytes m') = msgBytes m as
  slots : ∀ a ∈ slotsOf new, a ∈ as
  freed : ∀ a ∈ free', a ∈ as ++ free
  data : KeepsData cs (as ++ free) m m'
  keeps : Keeps cs (slotsOf l.slices ++ (as ++ free)) m m'
  rest : l' = { l with slices := l.slices ++ new, writeSlice := l'.writeSlice, len := l'.len }
  len : l'.len = l.len + (msgBytes m as).length
  writeSlice : l'.writeSlice = if new = [] then l.writeSlice else .at (l'.slices.length - 1)

section Received

variable {cs : List SizeClass} {bm : Manager} {m m' m'' : Mem} {l l' l'' : LinkedBuffer}
  {s : BufferSlice} {as bs others free free' free'' : List ℕ} {new new' : List BufferSlice}
  {a cap : ℕ}

/-- The slots of a later message are none of those a received one touches. -/
theorem Owns.later (h : Owns cs m l (as ++ (bs ++ others)) free) :
    ∀ a ∈ bs, a ∉ slotsOf l.slices ++ (as ++ free) := by
  have hnd := h.nodup
  simp only [List.nodup_append, List.mem_append] at hnd ⊢
  grind

theorem Received.refl (h : Owns cs m l others free) :
    Received cs [] others free m l m l free [] where
  owns := h
  slices := by simp
  shm := by simp
  bounds := by simp
  pos := by simp
  bytes := rfl
  slots := by simp [slotsOf]
  freed _ ha := ha
  data := (Keeps.refl ..).data
  keeps := Keeps.refl ..
  rest := by simp
  len := by simp [msgBytes]
  writeSlice := by simp

theorem Received.trans (h0 : Owns cs m l (as ++ (bs ++ others)) free)
    (h : Received cs as (bs ++ others) free m l m' l' free' new)
    (hb : ∀ a ∈ bs, ∃ cap, IsSlot cs a cap ∧ m.get32 (a + 4) ≤ cap)
    (h' : Received cs bs others free' m' l' m'' l'' free'' new') :
    Received cs (as ++ bs) others free m l m'' l'' free'' (new ++ new') := by
  have hmsg : msgBytes m' bs = msgBytes m bs := msgBytes_congr hb h.keeps h0.later
  have hfree : ∀ a ∈ bs ++ free', a ∈ as ++ bs ++ free := by
    intro a ha
    have := h.freed a
    simp only [List.mem_append] at ha this ⊢
    tauto
  have hnew : new.flatMap (·.bytes m'') = new.flatMap (·.bytes m') := by
    refine flatMap_bytes_congr (fun s hs => .inl (h.shm s hs)) h.bounds h'.data fun a ha hT => ?_
    have hnd := h.owns.nodup
    rw [h.slices, slotsOf_append] at hnd
    simp only [List.nodup_append, List.mem_append] at hnd
    simp only [List.mem_append] at hT
    grind
  have hslices : l''.slices = l.slices ++ (new ++ new') := by
    rw [h'.slices, h.slices, List.append_assoc]
  refine ⟨h'.owns, hslices, ?_, ?_, ?_, ?_, ?_, fun a ha => hfree a (h'.freed a ha), ?_, ?_, ?_, ?_, ?_⟩
  · exact fun s hs => (List.mem_append.mp hs).elim (h.shm s) (h'.shm s)
  · exact fun s hs => (List.mem_append.mp hs).elim (h.bounds s) (h'.bounds s)
  · exact fun s hs => (List.mem_append.mp hs).elim (h.pos s) (h'.pos s)
  · rw [List.flatMap_append, hnew, h.bytes, h'.bytes, hmsg, msgBytes_append]
  · intro a ha
    rw [slotsOf_append] at ha
    exact List.mem_append.mpr ((List.mem_append.mp ha).imp (h.slots a) (h'.slots a))
  · exact (h.data.mono fun a ha => by simp only [List.mem_append] at ha ⊢; tauto).trans h'.data hfree
  · refine (h.keeps.mono fun a ha => by simp only [List.mem_append] at ha ⊢; tauto).trans h'.keeps
      fun a ha => ?_
    have hs := h.slots a
    have hf := hfree a
    rw [h.slices, slotsOf_append] at ha
    simp only [List.mem_append] at ha hf ⊢
    tauto
  · rw [h'.rest, h.rest]
    simp
  · rw [h'.len, h.len, hmsg, msgBytes_append, List.length_append]
    push_cast
    omega
  · rw [h'.writeSlice]
    by_cases hn' : new' = []
    · subst hn'
      rw [if_pos rfl, h.writeSlice, List.append_nil, h'.slices, List.append_nil]
    · rw [if_neg hn', if_neg (by simp [hn'])]

theorem received_append (h : Owns cs m l (a :: others) free) (ha : IsSlot cs a cap)
    (h8 : m.get32 (a + 8) = 0) (h4 : m.get32 (a + 4) ≤ cap) (hpos : m.get32 (a + 4) ≠ 0) :
    Received cs [a] others free m l m
      (l.appendBufferSlice (newShmSlice m a (.shm (a + 20) cap) a)) free
      [newShmSlice m a (.shm (a + 20) cap) a] := by
  obtain ⟨hshm, hb, hsize, hbytes⟩ := newShmSlice_ok h.heap ha h8 h4 h.layout
  refine ⟨h.append hshm rfl, rfl, ?_, ?_, ?_, ?_, ?_, ?_, ⟨rfl, fun b c _ _ => ?_⟩, Keeps.refl .., ?_,
    ?_, ?_⟩
  · simpa using hshm
  · simpa using hb
  · simp only [List.mem_singleton, forall_eq, hsize]
    omega
  · rw [List.flatMap_singleton, hbytes, msgBytes_single]
  · rw [slotsOf_cons_shm hshm]
    simp [slotsOf, newShmSlice]
  · exact fun b hb => List.mem_append_right _ hb
  · exact Mem.SameOn.refl m _ _
  · simp [LinkedBuffer.appendBufferSlice, LinkedBuffer.pushBack, LinkedBuffer.writeBack, newShmSlice]
  · simp only [LinkedBuffer.appendBufferSlice, LinkedBuffer.pushBack, LinkedBuffer.writeBack, hsize,
      msgBytes_single, Mem.length_read]
  · simp [LinkedBuffer.appendBufferSlice, LinkedBuffer.pushBack, LinkedBuffer.writeBack]

theorem received_recycle (hM : ManagerOk cs bm) (h : Owns cs m l (a :: others) free)
    (hs : ShmSlice cs s) (ha : s.offsetInShm = a) (h4 : m.get32 (a + 4) = 0) :
    ∃ m', bm.recycleBuffer m s = .ok m' ∧
      Received cs [a] others free m l m' l (a :: free) [] := by
  obtain ⟨m', hrun, howns, hkeep⟩ := h.recycle hM hs ha
  refine ⟨m', hrun, howns, by simp, by simp, by simp, by simp, ?_, by simp [slotsOf], by simp,
    hkeep.data, hkeep.mono (by simp; tauto), by simp, ?_, by simp⟩
  · rw [msgBytes_single, h4]
    rfl
  · rw [msgBytes_single, h4, Mem.length_read, Nat.cast_zero, add_zero]

/-- An empty slot becomes free after the header of the slot `b` before it was changed. -/
theorem received_relink (m' : Mem) (hM : ManagerOk cs bm) (h : Owns cs m l (a :: others) free)
    {b capB : ℕ} (hb : IsSlot cs b capB) (hbl : b ∈ slotsOf l.slices) (hlen : m'.len = m.len)
    (hm : ∀ lo hi, hi ≤ b + 4 ∨ b + 20 ≤ lo → m.SameOn m' lo hi)
    (hs : ShmSlice cs s) (ha : s.offsetInShm = a) (h4 : m.get32 (a + 4) = 0) :
    ∃ m'', bm.recycleBuffer m' s = .ok m'' ∧
      Received cs [a] others free m l m'' l (a :: free) [] := by
  have hnd := h.nodup
  simp only [List.nodup_append, List.mem_append, List.mem_cons] at hnd
  have hba : b ≠ a := fun he => hnd.2.2 b hbl a (by simp) he
  have hbf : b ∉ free := fun hf => hnd.2.2 b hbl b (by simp [hf]) rfl
  have hkeep : Keeps cs [b] m m' := Keeps.write h.layout hb hlen fun lo hi hr => hm lo hi (by omega)
  have h4' : m'.get32 (a + 4) = 0 := by
    have hsame := hkeep.slot a s.cap (ha ▸ hs.slot) (by simpa using hba.symm)
    rw [Mem.get32_congr (hsame.mono (by omega) (by omega)), h4]
  have hdata : KeepsData cs ([a] ++ free) m m' := by
    refine ⟨hlen, fun c capC hc _ => ?_⟩
    rcases eq_or_ne c b with rfl | hne
    · exact hm _ _ (by omega)
    · exact (hkeep.slot c capC hc (by simpa using hne)).mono (by omega) le_rfl
  obtain ⟨m'', hrun, hrec⟩ := received_recycle hM (h.header hb hbf hlen hm) hs ha h4'
  have hmsg : ∀ {m : Mem}, m.get32 (a + 4) = 0 → msgBytes m [a] = [] := fun h => by
    rw [msgBytes_single, h]; rfl
  refine ⟨m'', hrun, hrec.owns, hrec.slices, hrec.shm, hrec.bounds, hrec.pos, ?_, hrec.slots,
    hrec.freed, hdata.trans hrec.data fun _ h => h, ?_, hrec.rest, ?_, hrec.writeSlice⟩
  · rw [hrec.bytes, hmsg h4, hmsg h4']
  · refine (hkeep.mono fun c hc => ?_).trans hrec.keeps fun _ h => h
    rw [List.mem_singleton.mp hc]
    exact List.mem_append_left _ hbl
  · rw [hmsg h4]
    simp

theorem nextSlot_of_chain {as : List ℕ} (h : Chain (nextSlot m) (a :: as)) :
    (as = [] ∧ hasNext m a = false) ∨
      ∃ b bs, as = b :: bs ∧ hasNext m a = true ∧ nextOffset m a = b := by
  cases as with
  | nil =>
    have hn : nextSlot m a = none := h
    unfold nextSlot at hn
    split_ifs at hn with he
    exact .inl ⟨rfl, by simpa using he⟩
  | cons b bs =>
    have hn : nextSlot m a = some b := h.1
    unfold nextSlot at hn
    split_ifs at hn with he
    exact .inr ⟨b, bs, rfl, he, Option.some.inj hn⟩

/-- The last slot of a chain: it is appended, or recycled if it is empty. -/
theorem moveChain_last (hM : ManagerOk cs bm) (k : ℕ) (h : Owns cs m l (a :: others) free)
    (hc : ChainAt cs m [a]) (hne : l.slices = [] → msgBytes m [a] ≠ []) :
    (∃ m' l' free' new, LinkedBuffer.moveChain bm (k + 1) m l a = .ok (m', l') ∧
      Received cs [a] others free m l m' l' free' new) ∨
    LinkedBuffer.moveChain bm (k + 1) m l a = .error .indexOutOfRange ∧
      ∃ s, l.slices.getLast? = some s ∧ HeapSlice s := by
  obtain ⟨cap, ha, h8, h4⟩ := hc.slots a List.mem_cons_self
  obtain ⟨hshm, hb, hsize, hbytes⟩ := newShmSlice_ok h.heap ha h8 h4 h.layout
  obtain ⟨-, hnext⟩ | ⟨b, bs, he, -⟩ := nextSlot_of_chain hc.links
  swap
  · cases he
  rw [LinkedBuffer.moveChain, readBufferSlice_slot h.heap h.layout ha]
  simp only [bind, Except.bind, pure, Except.pure, hsize, hnext]
  by_cases h0 : m.get32 (a + 4) = 0
  · rw [if_pos (by omega)]
    cases hl : l.slices.getLast? with
    | none =>
      -- an empty message on an empty buffer
      refine absurd ?_ (hne (List.getLast?_eq_none_iff.mp hl))
      rw [msgBytes_single, h0]
      rfl
    | some pre =>
      rcases h.slices pre (List.mem_of_getLast? hl) with hpre | hpre
      · have hmem := mem_slotsOf (List.mem_of_getLast? hl) hpre.header
        obtain ⟨m'', hrun, hrec⟩ := received_relink
          (setInUsed (clearFlag m pre.offsetInShm) pre.offsetInShm) hM h hpre.slot hmem rfl
          (fun lo hi hr => (clearFlag_sameOn (by omega)).trans (setInUsed_sameOn (by omega))) hshm
          rfl h0
        simp only [hpre.header]
        rw [if_neg (by simp), hrun]
        exact .inl ⟨m'', l, _, _, rfl, hrec⟩
      · simp only [hpre.header]
        exact .inr ⟨rfl, pre, rfl, hpre⟩
  · rw [if_neg (by omega), if_neg (by simp)]
    exact .inl ⟨m, _, free, _, rfl, received_append h ha h8 h4 h0⟩

/-- **`moveToWithoutLock`** of one chain: its bytes follow those of the buffer. An empty slot
    behind a heap slice panics. -/
theorem moveChain_cases (hM : ManagerOk cs bm) : ∀ (as : List ℕ) (a k : ℕ) (m : Mem)
    (l : LinkedBuffer) (free : List ℕ), Owns cs m l (a :: as ++ others) free →
    ChainAt cs m (a :: as) → as.length < k → (l.slices = [] → msgBytes m (a :: as) ≠ []) →
    (∃ m' l' free' new, LinkedBuffer.moveChain bm k m l a = .ok (m', l') ∧
      Received cs (a :: as) others free m l m' l' free' new) ∨
    LinkedBuffer.moveChain bm k m l a = .error .indexOutOfRange ∧
      ∃ s, l.slices.getLast? = some s ∧ HeapSlice s := by
  intro as
  induction as with
  | nil =>
    intro a k m l free h hc hk hne
    obtain ⟨k, rfl⟩ := Nat.exists_eq_succ_of_ne_zero (show k ≠ 0 by omega)
    exact moveChain_last hM k h hc hne
  | cons b bs ih =>
    intro a k m l free h hc hk hne
    obtain ⟨k, rfl⟩ := Nat.exists_eq_succ_of_ne_zero (show k ≠ 0 by omega)
    obtain ⟨cap, ha, h8, h4⟩ := hc.slots a List.mem_cons_self
    obtain ⟨hshm, hb, hsize, hbytes⟩ := newShmSlice_ok h.heap ha h8 h4 h.layout
    obtain ⟨he, -⟩ | ⟨_, _, he, hnext, hoff⟩ := nextSlot_of_chain hc.links
    · cases he
    cases he
    -- what remains to do after the slot `a`
    have hrest : ∀ {m1 : Mem} {l1 : LinkedBuffer} {free1 : List ℕ} {new1 : List BufferSlice},
        Received cs [a] (b :: bs ++ others) free m l m1 l1 free1 new1 →
        (l1.slices = [] → msgBytes m (b :: bs) ≠ []) →
        (∃ m' l' free' new, LinkedBuffer.moveChain bm k m1 l1 b = .ok (m', l') ∧
          Received cs (a :: b :: bs) others free m l m' l' free' new) ∨
        LinkedBuffer.moveChain bm k m1 l1 b = .error .indexOutOfRange ∧
          ∃ s, l1.slices.getLast? = some s ∧ HeapSlice s := by
      intro m1 l1 free1 new1 hrec hne1
      have hdisj : ∀ x ∈ b :: bs, x ∉ slotsOf l.slices ++ ([a] ++ free) :=
        Owns.later h
      have hmsg := msgBytes_congr hc.tail.sizes hrec.keeps hdisj
      rcases ih b k m1 l1 free1 hrec.owns (hc.tail.congr hrec.keeps hdisj) (by simpa using hk)
        (fun h => hmsg ▸ hne1 h) with ⟨m', l', free', new, hrun, hrec'⟩ | hpanic
      · exact .inl ⟨m', l', free', _, hrun, Received.trans h hrec hc.tail.sizes hrec'⟩
      · exact .inr hpanic
    rw [LinkedBuffer.moveChain, readBufferSlice_slot h.heap h.layout ha]
    simp only [bind, Except.bind, pure, Except.pure, hsize, hnext, hoff]
    by_cases h0 : m.get32 (a + 4) = 0
    · have hmsg : msgBytes m (a :: b :: bs) = msgBytes m (b :: bs) := by
        rw [show a :: b :: bs = [a] ++ b :: bs from rfl, msgBytes_append, msgBytes_single, h0]
        rfl
      rw [if_pos (by omega)]
      cases hl : l.slices.getLast? with
      | none =>
        obtain ⟨m1, hrun, hrec⟩ := received_recycle hM h hshm rfl h0
        simp only []
        rw [hrun]
        have hgo := hrest hrec fun hs => hmsg ▸ hne hs
        rw [hl] at hgo
        exact hgo
      | some pre =>
        rcases h.slices pre (List.mem_of_getLast? hl) with hpre | hpre
        · have hmem := mem_slotsOf (List.mem_of_getLast? hl) hpre.header
          obtain ⟨m1, hrun, hrec⟩ := received_relink (linkNext m pre.offsetInShm b) hM h
            hpre.slot hmem rfl (fun lo hi hr => linkNext_sameOn (by omega)) hshm rfl h0
          simp only [hpre.header]
          rw [if_pos trivial, hrun]
          have hgo := hrest hrec fun hs => hmsg ▸ hne hs
          rw [hl] at hgo
          exact hgo
        · simp only [hpre.header]
          exact .inr ⟨rfl, pre, rfl, hpre⟩
    · rw [if_neg (by omega), if_pos trivial]
      have hlast : (l.appendBufferSlice (newShmSlice m a (.shm (a + 20) cap) a)).slices.getLast? =
          some (newShmSlice m a (.shm (a + 20) cap) a) := by
        simp [LinkedBuffer.appendBufferSlice, LinkedBuffer.pushBack, LinkedBuffer.writeBack]
      refine .inl ((hrest (received_append h ha h8 h4 h0) fun hs => ?_).resolve_right ?_)
      · simp [LinkedBuffer.appendBufferSlice, LinkedBuffer.pushBack, LinkedBuffer.writeBack] at hs
      · rintro ⟨-, s, hs, hheap⟩
        rw [hlast] at hs
        cases hs
        exact hheap.not_shm hshm

theorem moveChain_spec (hM : ManagerOk cs bm) (h : Owns cs m l (a :: as ++ others) free)
    (hc : ChainAt cs m (a :: as)) {k : ℕ} (hk : as.length < k)
    (hback : ∀ s, l.slices.getLast? = some s → ShmSlice cs s)
    (hne : l.slices = [] → msgBytes m (a :: as) ≠ []) :
    ∃ m' l' free' new, LinkedBuffer.moveChain bm k m l a = .ok (m', l') ∧
      Received cs (a :: as) others free m l m' l' free' new := by
  refine (moveChain_cases hM as a k m l free h hc hk hne).resolve_right ?_
  rintro ⟨-, s, hs, hheap⟩
  exact hheap.not_shm (hback s hs)

/-! ## All messages that came in -/

def msgOf (as : List ℕ) : LinkedBuffer.Unread := .chain (as.headD 0)

/-- The buffer ends in a slot if it is not empty. -/
def LinkedBuffer.EndsInSlot (cs : List SizeClass) (l : LinkedBuffer) : Prop :=
  ∀ s, l.slices.getLast? = some s → ShmSlice cs s

theorem Received.endsInSlot (h : Received cs as others free m l m' l' free' new)
    (hl : l.EndsInSlot cs) : l'.EndsInSlot cs := by
  intro s hs
  rw [h.slices, List.getLast?_append] at hs
  cases hn : new.getLast? with
  | none => rw [hn] at hs; exact hl s hs
  | some t =>
    rw [hn] at hs
    cases hs
    exact h.shm s (List.mem_of_getLast? hn)

/-- A chain of distinct slots is shorter than the memory. -/
theorem Owns.length_le (h : Owns cs m l (as ++ others) free) : as.length ≤ m.len := by
  have hnd := h.nodup
  simp only [List.nodup_append] at hnd
  refine h.layout.length_le hnd.2.1.2.1.1.1 fun a ha => ?_
  exact mem_allSlots.mp (h.all.mem_iff.mp (by simp [ha]))

theorem moveTo_append (us vs : List LinkedBuffer.Unread) :
    ∀ (m : Mem) (l : LinkedBuffer), LinkedBuffer.moveTo bm (us ++ vs) m l =
      (LinkedBuffer.moveTo bm us m l).bind fun r => LinkedBuffer.moveTo bm vs r.1 r.2 := by
  induction us with
  | nil => intro m l; rfl
  | cons u us ih =>
    intro m l
    cases u with
    | fallback payload => exact ih m _
    | chain offset =>
      simp only [List.cons_append, LinkedBuffer.moveTo, bind, Except.bind]
      cases LinkedBuffer.moveChain bm m.len m l offset with
      | error e => rfl
      | ok r => exact ih r.1 r.2

/-- **`moveToWithoutLock`** of messages in shared memory. -/
theorem moveTo_chains (hM : ManagerOk cs bm) : ∀ (ms : List (List ℕ)) (m : Mem) (l : LinkedBuffer)
    (free : List ℕ), Owns cs m l (ms.flatten ++ others) free →
    (∀ as ∈ ms, ChainAt cs m as ∧ msgBytes m as ≠ []) → l.EndsInSlot cs →
    ∃ m' l' free' new, LinkedBuffer.moveTo bm (ms.map msgOf) m l = .ok (m', l') ∧
      Received cs ms.flatten others free m l m' l' free' new := by
  intro ms
  induction ms with
  | nil => intro m l free h _ _; exact ⟨m, l, free, [], rfl, .refl h⟩
  | cons as ms ih =>
    intro m l free h hms hback
    rw [List.forall_mem_cons] at hms
    obtain ⟨⟨hc, hne⟩, hms⟩ := hms
    rw [List.flatten_cons, List.append_assoc] at h
    cases as with
    | nil => exact absurd rfl hne
    | cons a as =>
      have hlen := h.length_le
      obtain ⟨m1, l1, free1, new1, hrun, hrec⟩ :=
        moveChain_spec hM h hc hlen hback fun _ => hne
      have hlater := h.later
      have hsub : ∀ bs ∈ ms, ∀ b ∈ bs, b ∉ slotsOf l.slices ++ (a :: as ++ free) :=
        fun bs hbs b hb => hlater b (List.mem_flatten.mpr ⟨bs, hbs, hb⟩)
      obtain ⟨m', l', free', new, hrun', hrec'⟩ := ih m1 l1 free1 hrec.owns (fun bs hbs => by
        obtain ⟨hc', hne'⟩ := hms bs hbs
        refine ⟨hc'.congr hrec.keeps (hsub bs hbs), ?_⟩
        rwa [msgBytes_congr hc'.sizes hrec.keeps (hsub bs hbs)]) (hrec.endsInSlot hback)
      refine ⟨m', l', free', new1 ++ new, ?_, Received.trans h hrec (fun b hb => ?_) hrec'⟩
      · simp only [List.map_cons, msgOf, List.headD_cons, LinkedBuffer.moveTo, bind, Except.bind, hrun]
        exact hrun'
      · obtain ⟨bs, hbs, hb⟩ := List.mem_flatten.mp hb
        exact (hms bs hbs).1.sizes b hb

end Received

end Shmipc.Buffer
