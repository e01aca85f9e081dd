import Shmipc.Buffer.Fidelity
import Shmipc.Common.Ownership

/-!
# The owners of slots

Outside the free chains a slot is in a send buffer, in a receive buffer (where it may be
pinned), or in a message on its way: the chain of a queued element or of an entry of
`pendingData`. Each operation of a stream takes some of these parts to others and leaves
the rest of the shared memory alone.

Results, each for whatever else is in the memory:
* `write_steps`, `flush_steps`, `moveTo_steps`, `call_steps`, `releasePreviousRead_steps`,
  `releaseReadAndReuse_steps`, `recycleBuffers_steps`, `clear_steps`,
  `recycle_recv_steps`, `recycle_send_steps`.
-/

namespace Shmipc.Buffer

open Common LinkedBuffer

/-- What may own slots. -/
inductive Part
  | send (l : LinkedBuffer)
  | recv (l : LinkedBuffer)
  /-- A message on its way, by its first slot. -/
  | chain (root : ℕ)

/-- The slots in the list and in the pinned list. -/
def LinkedBuffer.slots (l : LinkedBuffer) : List ℕ := slotsOf l.slices ++ slotsOf l.pinnedList

def Part.slots (m : Mem) : Part → List ℕ
  | .send l | .recv l => l.slots
  | .chain root => chainOf m root

@[simp] theorem Part.slots_send (m : Mem) (l : LinkedBuffer) : (Part.send l).slots m = l.slots := rfl

@[simp] theorem Part.slots_recv (m : Mem) (l : LinkedBuffer) : (Part.recv l).slots m = l.slots := rfl

@[simp] theorem Part.slots_chain (m : Mem) (root : ℕ) :
    (Part.chain root).slots m = chainOf m root := rfl

/-- A send buffer, by itself. -/
structure SendPart (cs : List SizeClass) (m : Mem) (l : LinkedBuffer) : Prop where
  slices : ∀ s ∈ l.slices, SliceOk cs s
  bounds : ∀ s ∈ l.slices, InBounds s
  start : ∀ s ∈ l.slices, s.readIndex = 0
  caps : ∀ s ∈ l.slices, s.cap = s.data.len
  noNext : ∀ a ∈ slotsOf l.slices, hasNext m a = false
  shm : l.isFromShm = true → ∀ s ∈ l.slices, ShmSlice cs s
  cursor : l.writeSlice = if l.slices = [] then .nil else .at (l.slices.length - 1)
  len : l.len = (l.unread m).length
  pinned : l.pinnedList = []

/-- A receive buffer, by itself. -/
structure RecvPart (cs : List SizeClass) (l : LinkedBuffer) : Prop where
  slices : ∀ s ∈ l.slices, SliceOk cs s
  pinned : ∀ s ∈ l.pinnedList, SliceOk cs s
  atBack : l.AtBack
  tally : l.Tally

/-- A message, by itself: a chain of slots that holds data. -/
structure ChainPart (cs : List SizeClass) (m : Mem) (root : ℕ) (as : List ℕ) : Prop where
  chain : ChainAt cs m (root :: as)
  short : as.length < m.len
  bytes : msgBytes m (root :: as) ≠ []

def Part.Ok (cs : List SizeClass) (m : Mem) : Part → Prop
  | .send l => SendPart cs m l
  | .recv l => RecvPart cs l
  | .chain root => ∃ as, ChainPart cs m root as

section Keep

variable {cs : List SizeClass} {bm : Manager} {m m' : Mem} {l : LinkedBuffer} {p : Part}
  {others free as T : List ℕ} {root : ℕ}

theorem ChainPart.chainOf_eq (h : ChainPart cs m root as) : chainOf m root = root :: as :=
  Buffer.chainOf_eq h.chain h.short

theorem SendPart.keep (h : SendPart cs m l) (hk : Keeps cs T m m')
    (hT : ∀ a ∈ l.slots, a ∉ T) : SendPart cs m' l := by
  have hown : ∀ a ∈ slotsOf l.slices, a ∉ T := fun a ha => hT a (List.mem_append_left _ ha)
  refine ⟨h.slices, h.bounds, h.start, h.caps, fun a ha => ?_, h.shm, h.cursor, ?_, h.pinned⟩
  · obtain ⟨s, hs, hsa⟩ := List.mem_filterMap.mp ha
    have hslot := (h.slices s hs).shm_of_header hsa
    rw [hslot.header] at hsa
    cases hsa
    have hsame := hk.slot _ _ hslot.slot (hown _ ha)
    rw [hasNext_congr (hsame.mono (by omega) (by omega))]
    exact h.noNext _ ha
  · have hunread : l.unread m' = l.unread m := flatMap_bytes_congr h.slices h.bounds hk.data hown
    rw [hunread]
    exact h.len

theorem ChainPart.keep (h : ChainPart cs m root as) (hk : Keeps cs T m m')
    (hT : ∀ a ∈ root :: as, a ∉ T) : ChainPart cs m' root as := by
  refine ⟨h.chain.congr hk hT, ?_, ?_⟩
  · rw [hk.len]
    exact h.short
  · rw [msgBytes_congr h.chain.sizes hk hT]
    exact h.bytes

/-- A part depends on its own slots only. -/
theorem Part.keep (h : p.Ok cs m) (hk : Keeps cs T m m') (hT : ∀ a ∈ p.slots m, a ∉ T) :
    p.Ok cs m' ∧ p.slots m' = p.slots m := by
  cases p with
  | send l => exact ⟨SendPart.keep h hk hT, rfl⟩
  | recv l => exact ⟨h, rfl⟩
  | chain root =>
    obtain ⟨as, hc⟩ := h
    have hc' := hc.keep hk (by rw [← hc.chainOf_eq]; exact hT)
    exact ⟨⟨as, hc'⟩, hc'.chainOf_eq.trans hc.chainOf_eq.symm⟩

/-- The slots of a shared memory of `len` bytes and their owners. -/
def ownership {len : ℕ} (hL : Layout cs len) : Ownership Mem ℕ Part where
  all := allSlots cs
  nodup := hL.allSlots_nodup
  owns := Part.slots
  Ok := Part.Ok cs
  Free m free := m.len = len ∧ Heap cs m free
  Keeps := Keeps cs
  keeps_refl := Keeps.refl cs
  keeps_mono h := h.mono
  keeps_trans h h' := h.trans h' fun _ ha => ha
  keep := Part.keep

end Keep

section Steps

variable {cs : List SizeClass} {bm : Manager} {m m' : Mem} {l l' : LinkedBuffer} {len root : ℕ}
  {hL : Layout cs len} {others free free' as : List ℕ}

/-! ## Writing -/

theorem SendPart.sendOk (h : SendPart cs m l) (hL : Layout cs m.len) (hheap : Heap cs m free)
    (hall : (l.slots ++ (others ++ free)).Perm (allSlots cs)) : SendOk cs m l others free := by
  refine ⟨⟨⟨⟨hL, hheap, h.slices, ?_, ?_⟩, h.bounds⟩, h.start, h.caps, h.noNext, h.shm⟩,
    h.cursor, h.len⟩
  · rw [h.pinned]
    simp
  · rw [← List.append_assoc]
    exact hall

theorem SendOk.sendPart (h : SendOk cs m l others free) (hp : l.pinnedList = []) :
    SendPart cs m l :=
  ⟨h.slices, h.bounds, h.start, h.caps, h.noNext, h.shm, h.cursor, h.len, hp⟩

theorem Owns.all_slots (h : Owns cs m l others free) :
    (l.slots ++ (others ++ free)).Perm (allSlots cs) := by
  rw [LinkedBuffer.slots, List.append_assoc]
  exact h.all

/-- `Steps` in terms of the shared memory. -/
theorem steps_of {olds news : List Part}
    (h : (∀ p ∈ olds, p.Ok cs m) → ∀ others free, m.len = len → Heap cs m free →
      (olds.flatMap (·.slots m) ++ (others ++ free)).Perm (allSlots cs) →
      ∃ free', Heap cs m' free' ∧
        (news.flatMap (·.slots m') ++ (others ++ free')).Perm (allSlots cs) ∧
        Keeps cs (olds.flatMap (·.slots m) ++ free) m m' ∧ ∀ p ∈ news, p.Ok cs m') :
    (ownership hL).Steps m olds m' news := by
  intro hok others free ⟨hlen, hheap⟩ hall
  obtain ⟨free', hheap', hall', hkeep, hnews⟩ := h hok others free hlen hheap hall
  exact ⟨free', ⟨hkeep.len.trans hlen, hheap'⟩, hall', hkeep, hnews⟩

theorem steps_single {p q : Part}
    (h : p.Ok cs m → ∀ others free, m.len = len → Heap cs m free →
      (p.slots m ++ (others ++ free)).Perm (allSlots cs) →
      ∃ free', Heap cs m' free' ∧ (q.slots m' ++ (others ++ free')).Perm (allSlots cs) ∧
        Keeps cs (p.slots m ++ free) m m' ∧ q.Ok cs m') :
    (ownership hL).Steps m [p] m' [q] := by
  refine steps_of ?_
  simp only [List.flatMap_singleton, List.mem_singleton, forall_eq]
  exact h

theorem write_steps (hM : ManagerOk cs bm) {c : WriteCall} (hc : c.Small)
    (hrun : c.run bm m l = .ok (m', l')) :
    (ownership hL).Steps m [.send l] m' [.send l'] := by
  refine steps_single fun hl others free hlen hheap hall => ?_
  have hsend := SendPart.sendOk hl (hlen ▸ hL) hheap hall
  obtain ⟨free', bs, hW⟩ := writeCall_written hM hsend hc hrun
  refine ⟨free', hW.ok.heap, hW.ok.all_slots, hW.keeps.mono fun a ha => ?_, ?_⟩
  · rcases List.mem_append.mp ha with ha | ha
    · exact List.mem_append_left _ (List.mem_append_left _ ha)
    · exact List.mem_append_right _ ha
  · exact hW.ok.sendPart (hW.pinned.trans hl.pinned)

theorem total_eq_length (h : ∀ s ∈ l.slices, InBounds s) : l.total = (l.unread m).length := by
  unfold LinkedBuffer.total LinkedBuffer.unread
  revert h
  induction l.slices with
  | nil => intro _; rfl
  | cons s ss ih =>
    intro h
    rw [List.forall_mem_cons] at h
    rw [List.map_cons, List.sum_cons, List.flatMap_cons, List.length_append, Nat.cast_add,
      h.1.length_bytes, ih h.2]

theorem SendPart.tally (h : SendPart cs m l) : l.Tally := by
  refine ⟨fun s hs => ?_, ?_⟩
  · have := (h.bounds s hs).ordered
    unfold BufferSlice.size
    omega
  · rw [h.len]
    exact (total_eq_length h.bounds).symm

/-! ## Sending -/

/-- The parts that a `Flush` hands over. -/
def Sent.parts : Sent → List Part
  | .queued root => [.chain root]
  | _ => []

theorem SendPart.clean (cs : List SizeClass) (m : Mem) (hp : l.pinnedList = []) :
    SendPart cs m l.clean := by
  refine ⟨?_, ?_, ?_, ?_, ?_, ?_, rfl, rfl, hp⟩ <;> simp [LinkedBuffer.clean, slotsOf]

/-- The chain that `done` leaves in the slots of the buffer. -/
theorem SendOk.chainPart (h : SendOk cs m l others free) (hlen : l.len ≠ 0)
    (hslots : slotsOf l.slices = root :: as) (hl : Linked cs m l.slices m') :
    ChainPart cs m' root as := by
  have hchain := hl.chain
  have hbytes := hl.bytes
  rw [hslots] at hchain hbytes
  refine ⟨hchain, ?_, ?_⟩
  · rw [hl.data.len]
    exact h.toOwns.length_lt hslots
  · rw [hbytes]
    intro h0
    apply hlen
    rw [h.len, LinkedBuffer.unread, h0]
    rfl

theorem flush_steps (hM : ManagerOk cs bm) {env : FlushEnv} {fb fb' : Bool} {sent : Sent}
    (hrun : flush bm env fb m l = .ok (m', l', fb', sent)) :
    (ownership hL).Steps m [.send l] m' (.send l' :: sent.parts) := by
  refine steps_of fun hok others free hlen hheap hall => ?_
  have hl : SendPart cs m l := hok _ (List.mem_singleton_self _)
  simp only [List.flatMap_cons, List.flatMap_nil, List.append_nil, Part.slots_send] at hall ⊢
  have hsend := hl.sendOk (hlen ▸ hL) hheap hall
  have hslots : l.slots = slotsOf l.slices := by
    rw [LinkedBuffer.slots, hl.pinned]
    exact List.append_nil _
  have hclean : l.clean.slots = [] := by
    rw [LinkedBuffer.slots, show l.clean.pinnedList = [] from hl.pinned]
    rfl
  rcases flush_spec hM env fb hsend with ⟨-, h⟩ | ⟨h0, m1, fb1, sent1, h, hsent⟩
  · rw [h] at hrun
    cases hrun
    exact ⟨free, hheap, by simpa [Sent.parts] using hall, Keeps.refl .., hok⟩
  rw [h] at hrun
  cases hrun
  rw [hslots, hclean]
  rw [hslots] at hall
  rcases hsent with ⟨hback, hsent⟩ | ⟨root, as, rfl, hroot, hlinked, hheap'⟩
  · have hnone : sent.parts = [] := by rcases hsent with ⟨rfl, -⟩ | rfl <;> rfl
    rw [hnone]
    refine ⟨_, hback.owns.heap, ?_, hback.keeps, ?_⟩
    · rw [← hclean, List.flatMap_nil, List.append_nil]
      exact hback.owns.all_slots
    · intro p hp
      rw [List.mem_singleton.mp hp]
      exact SendPart.clean cs m' hl.pinned
  · have hchain := hsend.chainPart h0 hroot hlinked
    refine ⟨free, hheap', ?_, hlinked.keeps.mono fun a ha => List.mem_append_left _ ha, ?_⟩
    · show (([] : List ℕ) ++ [Part.chain root].flatMap (·.slots m') ++ _).Perm _
      rw [List.flatMap_singleton, Part.slots_chain, hchain.chainOf_eq, List.nil_append, ← hroot]
      exact hall
    · intro p hp
      rcases List.mem_cons.mp hp with rfl | hp
      · exact SendPart.clean cs m' hl.pinned
      · rw [List.mem_singleton.mp hp]
        exact ⟨as, hchain⟩

/-! ## Reading -/

theorem RecvPart.owns (h : RecvPart cs l) (hL : Layout cs m.len) (hheap : Heap cs m free)
    (hall : (l.slots ++ (others ++ free)).Perm (allSlots cs)) : Owns cs m l others free := by
  refine ⟨hL, hheap, h.slices, h.pinned, ?_⟩
  rw [← List.append_assoc]
  exact hall

theorem Owns.recvPart (h : Owns cs m l others free) (hb : l.AtBack) (ht : l.Tally) :
    RecvPart cs l := ⟨h.slices, h.pinned, hb, ht⟩

theorem recv_steps (h : ∀ others free, Owns cs m l others free → ∃ free', Owns cs m' l' others free' ∧
      Keeps cs (l.slots ++ free) m m' ∧ (l.AtBack → l'.AtBack) ∧ (l.Tally → l'.Tally)) :
    (ownership hL).Steps m [.recv l] m' [.recv l'] := by
  refine steps_single fun (hl : RecvPart cs l) others free hlen hheap hall => ?_
  obtain ⟨free', howns, hkeep, hb, ht⟩ := h others free (hl.owns (hlen ▸ hL) hheap hall)
  exact ⟨free', howns.heap, howns.all_slots, hkeep, howns.recvPart (hb hl.atBack) (ht hl.tally)⟩

theorem call_steps (hM : ManagerOk cs bm) {c : Call} {r : Reply}
    (hrun : c.run bm m l = .ok (m', l', r)) :
    (ownership hL).Steps m [.recv l] m' [.recv l'] := by
  refine recv_steps fun others free h => ?_
  obtain ⟨free', hmoved⟩ := (call_called hrun).moves.moved hM h
  refine ⟨free', hmoved.owns, hmoved.keeps.mono fun a ha => ?_, hmoved.atBack,
    (call_called hrun).tally⟩
  rw [LinkedBuffer.slots]
  simp only [List.mem_append] at ha ⊢
  tauto

/-! ## Releasing -/

theorem releasePreviousRead_steps (hM : ManagerOk cs bm)
    (hrun : l.releasePreviousRead bm m = .ok (m', l')) :
    (ownership hL).Steps m [.recv l] m' [.recv l'] := by
  refine recv_steps fun others free h => ?_
  obtain ⟨m1, l1, gone, hrun', hgone, hempty, howns, hkeep, -, hlen, -, hw, hat⟩ :=
    releasePreviousRead_spec hM h
  rw [hrun] at hrun'
  cases hrun'
  refine ⟨_, howns, hkeep.mono fun a ha => ?_, fun hb hne => ?_, fun ht => ⟨fun s hs => ?_, ?_⟩⟩
  · rw [LinkedBuffer.slots, hgone, slotsOf_append]
    simp only [List.mem_append] at ha ⊢
    tauto
  · -- the front slice goes only if it is the only one
    by_cases hg : gone = []
    · rw [hw, if_pos hg]
      rw [hg, List.nil_append] at hgone
      rw [← hgone]
      exact hb (hgone ▸ hne)
    · have hback := hb (by rw [hgone]; simp [hg])
      rw [hat hg, hgone, List.length_append] at hback
      have hpos := List.length_pos_iff.mpr hg
      have hpos' := List.length_pos_iff.mpr hne
      have := Cursor.at.inj hback
      omega
  · exact ht.nonneg s (hgone ▸ List.mem_append_right _ hs)
  · have hsum : (gone.map (·.size)).sum = 0 :=
      List.sum_eq_zero fun x hx => by
        obtain ⟨s, hs, rfl⟩ := List.mem_map.mp hx
        exact hempty s hs
    rw [hlen, ht.len, LinkedBuffer.total, hgone, List.map_append, List.sum_append, hsum, zero_add]
    rfl

/-- A slice that `reset` prepared for writing. -/
structure ResetSlice (cs : List SizeClass) (m : Mem) (s : BufferSlice) : Prop where
  shm : ShmSlice cs s
  readIndex : s.readIndex = 0
  writeIndex : s.writeIndex = 0
  noNext : hasNext m s.offsetInShm = false

theorem Owns.reset (h : Owns cs m l others free) {s : BufferSlice} (hs : l.slices = [s])
    (hshm : ShmSlice cs s) : Owns cs (s.reset m).1 (l.setSlice 0 (s.reset m).2) others free ∧
      Keeps cs [s.offsetInShm] m (s.reset m).1 ∧ ResetSlice cs (s.reset m).1 (s.reset m).2 := by
  have hmem : s.offsetInShm ∈ slotsOf l.slices := mem_slotsOf (by rw [hs]; simp) hshm.header
  have hfree := h.not_free _ hmem
  have hframe : ∀ lo hi, hi ≤ s.offsetInShm + 4 ∨ s.offsetInShm + 20 ≤ lo →
      m.SameOn (s.reset m).1 lo hi := by
    intro lo hi hr
    unfold BufferSlice.reset bufferSizeOffset bufferDataStartOffset
    rw [hshm.header]
    exact ((Mem.set32_sameOn (by omega)).trans (Mem.set32_sameOn (by omega))).trans
      (clearFlag_sameOn (by omega))
  have hlen : (s.reset m).1.len = m.len := by
    unfold BufferSlice.reset
    rw [hshm.header]
    rfl
  have hshm' : ShmSlice cs (s.reset m).2 :=
    ⟨hshm.slot, hshm.header, hshm.data, hshm.isFromShm, hshm.start⟩
  refine ⟨(h.header hshm.slot hfree hlen hframe).setFront hs (.inl hshm') rfl,
    Keeps.write h.layout hshm.slot hlen fun lo hi hr => hframe lo hi (by omega),
    hshm', rfl, rfl, ?_⟩
  show hasNext (s.reset m).1 s.offsetInShm = false
  unfold BufferSlice.reset
  rw [hshm.header]
  exact hasNext_clearFlag

/-- **`releasePreviousReadAndReserve`**: the pinned slots become free; a slice that is the
    only one and read to its end is dropped, or prepared for writing. -/
theorem releasePreviousReadAndReserve_spec (hM : ManagerOk cs bm) (h : Owns cs m l others free)
    (hrun : l.releasePreviousReadAndReserve bm m = .ok (m', l')) :
    ∃ free', Owns cs m' l' others free' ∧ Keeps cs (l.slots ++ free) m m' ∧
      (l.AtBack → l'.AtBack) ∧ (l.Tally → l'.Tally) ∧ l'.pinnedList = [] ∧ l'.len = l.len ∧
      (l'.len = 0 → l'.slices.length = 1 → ∃ s, l'.slices = [s] ∧ ResetSlice cs m' s) := by
  obtain ⟨m1, hclean, hown, hkeep⟩ := cleanPinnedList_spec hM h
  have hk1 : Keeps cs (l.slots ++ free) m m1 := hkeep.mono fun a ha => by
    rw [LinkedBuffer.slots]
    simp only [List.mem_append] at ha ⊢
    tauto
  -- the buffer as it is after `cleanPinnedList`
  obtain ⟨⟨m2, l1⟩, hclean', hrun⟩ := Go.bind_ok.mp hrun
  rw [hclean] at hclean'
  obtain ⟨rfl, hl1⟩ := Prod.mk.inj (Except.ok.inj hclean')
  have hslices : l1.slices = l.slices := by rw [← hl1]
  have hcursor : l1.writeSlice = l.writeSlice := by rw [← hl1]
  have hpin : l1.pinnedList = [] := by rw [← hl1]
  have hlen : l1.len = l.len := by rw [← hl1]
  have hkept : Owns cs m1 l1 others (slotsOf l.pinnedList ++ free) :=
    ⟨hown.layout, hown.heap, hslices ▸ hown.slices, by simp [hpin], by
      rw [hslices, hpin]
      exact hown.all⟩
  have hb1 : l.AtBack → l1.AtBack := by
    unfold LinkedBuffer.AtBack
    rw [hslices, hcursor]
    exact id
  have ht1 : l.Tally → l1.Tally := fun ht =>
    ⟨hslices ▸ ht.nonneg, by rw [hlen, ht.len, LinkedBuffer.total, LinkedBuffer.total, hslices]⟩
  simp only [] at hrun
  split at hrun
  · rename_i s hs
    have hok := hkept.slices s (by rw [hs]; simp)
    split_ifs at hrun with h0 hf
    · have hshm : ShmSlice cs s := hok.resolve_right fun hheap => by
        rw [hheap.isFromShm] at hf
        cases hf
      obtain ⟨howns, hkeep', hreset⟩ := hkept.reset hs hshm
      have hone : (l1.setSlice 0 (s.reset m1).2).slices = [(s.reset m1).2] := setSlice_zero hs
      cases hrun
      refine ⟨_, howns, hk1.trans hkeep' fun a ha => ?_, fun hb _ => ?_, fun _ => ⟨?_, ?_⟩, hpin, hlen,
        fun _ _ => ⟨_, hone, hreset⟩⟩
      · rw [List.mem_singleton.mp ha]
        refine List.mem_append_left _ (List.mem_append_left _ ?_)
        exact mem_slotsOf (by rw [← hslices, hs]; simp) hshm.header
      · have hback := hb1 hb (by rw [hs]; simp)
        rw [hs] at hback
        rw [hone]
        exact hback
      · rw [hone]
        intro t ht
        rw [List.mem_singleton.mp ht]
        exact le_rfl
      · rw [LinkedBuffer.total, hone]
        exact h0
    · have hheap : HeapSlice s := hok.resolve_left fun hshm => hf hshm.isFromShm
      have hnone : l1.popFront.slices = [] := by
        rw [LinkedBuffer.popFront, hs]
        rfl
      have hall := hkept.all
      rw [hs, slotsOf_cons_heap hheap] at hall
      cases hrun
      refine ⟨_, ⟨hkept.layout, hkept.heap, ?_, hkept.pinned, ?_⟩, hk1, fun _ hne => absurd hnone hne,
        fun _ => ⟨?_, ?_⟩, hpin, hlen, fun _ hone => ?_⟩
      · rw [hnone]
        simp
      · rw [hnone]
        exact hall
      · rw [hnone]
        simp
      · rw [LinkedBuffer.total, hnone]
        exact h0
      · rw [hnone] at hone
        cases hone
    · cases hrun
      exact ⟨_, hkept, hk1, hb1, ht1, hpin, hlen, fun hz => absurd hz h0⟩
  · rename_i hnot
    cases hrun
    refine ⟨_, hkept, hk1, hb1, ht1, hpin, hlen, fun _ hone => ?_⟩
    obtain ⟨s, hs⟩ := List.length_eq_one_iff.mp hone
    exact absurd hs (hnot s)

/-- `Stream.ReleaseReadAndReuse` (stream.go:378-385) on `recvBuf` and `sendBuf`. -/
def releaseReadAndReuse (bm : Manager) (m : Mem) (recvBuf sendBuf : LinkedBuffer) :
    Go (Mem × LinkedBuffer × LinkedBuffer) := do
  let (m, recvBuf) ← recvBuf.releasePreviousReadAndReserve bm m
  if recvBuf.len = 0 ∧ recvBuf.slices.length = 1 then return (m, sendBuf, recvBuf)
  else return (m, recvBuf, sendBuf)

/-- A buffer of one slice that is prepared for writing is a send buffer. -/
theorem ResetSlice.sendPart {s : BufferSlice} (h : ResetSlice cs m s) (hs : l.slices = [s])
    (hb : l.AtBack) (hlen : l.len = 0) (hpin : l.pinnedList = []) : SendPart cs m l := by
  have hmem : ∀ t ∈ l.slices, t = s := by
    rw [hs]
    simp
  refine ⟨?_, ?_, ?_, ?_, ?_, ?_, ?_, ?_, hpin⟩
  · intro t ht
    rw [hmem t ht]
    exact .inl h.shm
  · intro t ht
    rw [hmem t ht]
    refine ⟨?_, ?_, ?_⟩ <;> simp [h.readIndex, h.writeIndex]
  · intro t ht
    rw [hmem t ht]
    exact h.readIndex
  · intro t ht
    rw [hmem t ht, h.shm.data]
    rfl
  · rw [hs, slotsOf_cons_shm h.shm]
    intro a ha
    rw [List.mem_singleton.mp ha]
    exact h.noNext
  · intro _ t ht
    rw [hmem t ht]
    exact h.shm
  · have hne : l.slices ≠ [] := by
      rw [hs]
      simp
    rw [if_neg hne]
    exact hb hne
  · have hsize : s.size = 0 := by
      rw [BufferSlice.size, h.readIndex, h.writeIndex]
      rfl
    have hbytes : s.bytes m = [] := by
      rw [BufferSlice.bytes, h.shm.data, hsize]
      rfl
    rw [hlen, LinkedBuffer.unread, hs, List.flatMap_singleton, hbytes]
    rfl

theorem SendPart.recvPart (h : SendPart cs m l) : RecvPart cs l := by
  refine ⟨h.slices, ?_, fun hne => ?_, h.tally⟩
  · rw [h.pinned]
    simp
  · rw [h.cursor, if_neg hne]

theorem releaseReadAndReuse_steps (hM : ManagerOk cs bm) {send send' recv recv' : LinkedBuffer}
    (hrun : releaseReadAndReuse bm m recv send = .ok (m', recv', send')) :
    (ownership hL).Steps m [.recv recv, .send send] m' [.recv recv', .send send'] := by
  refine steps_of fun hok others free hlen hheap hall => ?_
  have hrecv : RecvPart cs recv := hok (.recv recv) (by simp)
  have hsend : SendPart cs m send := hok (.send send) (by simp)
  simp only [List.flatMap_cons, List.flatMap_nil, List.append_nil, Part.slots_recv, Part.slots_send,
    List.append_assoc] at hall ⊢
  have hown : Owns cs m recv (send.slots ++ others) free :=
    hrecv.owns (hlen ▸ hL) hheap (by simpa only [List.append_assoc] using hall)
  obtain ⟨⟨m1, r1⟩, hrel, hrun⟩ := Go.bind_ok.mp hrun
  obtain ⟨free', howns, hkeep, hb, ht, hpin, -, hswap⟩ :=
    releasePreviousReadAndReserve_spec hM hown hrel
  have hsend' : SendPart cs m1 send := hsend.keep hkeep fun a ha hT => by
    have hnd := hall.nodup_iff.mpr hL.allSlots_nodup
    simp only [List.nodup_append, List.mem_append] at hnd hT
    grind
  have hall' := howns.all_slots
  have hkeep' : Keeps cs (recv.slots ++ (send.slots ++ free)) m m1 := hkeep.mono fun a ha => by
    simp only [List.mem_append] at ha ⊢
    tauto
  simp only [List.append_assoc] at hall'
  simp only [] at hrun
  split_ifs at hrun with hc
  · -- the buffers change their roles
    cases hrun
    obtain ⟨s, hs, hreset⟩ := hswap hc.1 hc.2
    refine ⟨free', howns.heap, (List.perm_append_comm_assoc ..).trans hall', hkeep', ?_⟩
    intro p hp
    simp only [List.mem_cons, List.not_mem_nil, or_false] at hp
    rcases hp with rfl | rfl
    · exact hsend'.recvPart
    · exact hreset.sendPart hs (hb hrecv.atBack) hc.1 hpin
  · cases hrun
    refine ⟨free', howns.heap, hall', hkeep', ?_⟩
    intro p hp
    simp only [List.mem_cons, List.not_mem_nil, or_false] at hp
    rcases hp with rfl | rfl
    · exact howns.recvPart (hb hrecv.atBack) (ht hrecv.tally)
    · exact hsend'

/-! ## Receiving -/

/-- The parts of what is pending. -/
def pendingParts (pending : List Unread) : List Part := pending.filterMap fun
  | .chain root => some (.chain root)
  | .fallback _ => none

theorem atBack_append (l : LinkedBuffer) (s : BufferSlice) : (l.appendBufferSlice s).AtBack := by
  intro hne
  exact if_neg hne

theorem appendFallback_steps (payload : List UInt8) : (ownership hL).Steps m [.recv l] m
    [.recv (l.appendBufferSlice (fallbackSlice payload))] := by
  refine recv_steps fun others free h => ?_
  have hheap : HeapSlice (fallbackSlice payload) := ⟨rfl, ⟨payload, rfl, Nat.mod_le ..⟩, rfl⟩
  have hsize : (fallbackSlice payload).size = payload.length := by
    show (payload.length : ℤ) - 0 = _
    ring
  have hslices : (l.appendBufferSlice (fallbackSlice payload)).slices =
      l.slices ++ [fallbackSlice payload] := rfl
  refine ⟨free, ⟨h.layout, h.heap, ?_, h.pinned, ?_⟩, Keeps.refl .., fun _ => atBack_append _ _,
    fun ht => ⟨?_, ?_⟩⟩
  · intro s hs
    rw [hslices] at hs
    rcases List.mem_append.mp hs with hs | hs
    · exact h.slices s hs
    · rw [List.mem_singleton.mp hs]
      exact .inr hheap
  · rw [hslices, slotsOf_append, slotsOf_cons_heap hheap]
    show (slotsOf l.slices ++ [] ++ _).Perm _
    rw [List.append_nil]
    exact h.all
  · intro s hs
    rw [hslices] at hs
    rcases List.mem_append.mp hs with hs | hs
    · exact ht.nonneg s hs
    · rw [List.mem_singleton.mp hs, hsize]
      exact Nat.cast_nonneg _
  · show l.len + (fallbackSlice payload).size = _
    rw [ht.len, LinkedBuffer.total, LinkedBuffer.total, hslices, List.map_append, List.sum_append]
    simp

theorem Received.tally {new : List BufferSlice} (h : Received cs as others free m l m' l' free' new)
    (ht : l.Tally) : l'.Tally := by
  refine ⟨fun s hs => ?_, ?_⟩
  · rw [h.slices] at hs
    rcases List.mem_append.mp hs with hs | hs
    · exact ht.nonneg s hs
    · exact (h.pos s hs).le
  · have hnew := total_eq_length (l := { slices := new }) (m := m') h.bounds
    rw [LinkedBuffer.unread, h.bytes] at hnew
    rw [h.len, ht.len, LinkedBuffer.total, LinkedBuffer.total, h.slices, List.map_append,
      List.sum_append, ← hnew]
    rfl

theorem Received.atBack {new : List BufferSlice} (h : Received cs as others free m l m' l' free' new)
    (hb : l.AtBack) : l'.AtBack := by
  intro hne
  rw [h.writeSlice]
  by_cases hn : new = []
  · have hsame : l'.slices = l.slices := by rw [h.slices, hn, List.append_nil]
    rw [if_pos hn, hsame]
    exact hb (hsame ▸ hne)
  · rw [if_neg hn]

theorem moveChain_steps (hM : ManagerOk cs bm) (hrun : moveChain bm m.len m l root = .ok (m', l')) :
    (ownership hL).Steps m [.recv l, .chain root] m' [.recv l'] := by
  refine steps_of fun hok others free hlen hheap hall => ?_
  have hl : RecvPart cs l := hok (.recv l) (by simp)
  obtain ⟨as, hc⟩ : ∃ as, ChainPart cs m root as := hok (.chain root) (by simp)
  simp only [List.flatMap_cons, List.flatMap_nil, List.append_nil, Part.slots_recv, Part.slots_chain,
    hc.chainOf_eq, List.append_assoc] at hall ⊢
  have hown : Owns cs m l (root :: as ++ others) free := hl.owns (hlen ▸ hL) hheap (by
    simpa only [List.append_assoc] using hall)
  rcases moveChain_cases hM as root m.len m l free hown hc.chain hc.short fun _ => hc.bytes with
    ⟨m1, l1, free', new, hrun', hrec⟩ | ⟨hpanic, -⟩
  · rw [hrun] at hrun'
    cases hrun'
    refine ⟨free', hrec.owns.heap, hrec.owns.all_slots, hrec.keeps.mono fun a ha => ?_, ?_⟩
    · rw [LinkedBuffer.slots]
      simp only [List.mem_append] at ha ⊢
      tauto
    · intro p hp
      rw [List.mem_singleton.mp hp]
      exact hrec.owns.recvPart (hrec.atBack hl.atBack) (hrec.tally hl.tally)
  · rw [hrun] at hpanic
    cases hpanic

/-- **`moveToWithoutLock`.** -/
theorem moveTo_steps (hM : ManagerOk cs bm) : ∀ (pending : List Unread) (m : Mem) (l : LinkedBuffer),
    moveTo bm pending m l = .ok (m', l') →
    (ownership hL).Steps m (.recv l :: pendingParts pending) m' [.recv l'] := by
  intro pending
  induction pending with
  | nil =>
    intro m l hrun
    cases hrun
    exact Ownership.Steps.refl _ _
  | cons u pending ih =>
    intro m l hrun
    cases u with
    | fallback payload => exact ((appendFallback_steps payload).frame _).trans (ih _ _ hrun)
    | chain root =>
      obtain ⟨⟨m1, l1⟩, hchain, hrun⟩ := Go.bind_ok.mp hrun
      exact ((moveChain_steps hM hchain).frame _).trans (ih _ _ hrun)

/-! ## Giving back -/

theorem recycle_slot (hM : ManagerOk cs bm) {a cap : ℕ} (hheap : Heap cs m free)
    (hL : Layout cs m.len) (hc : ChainAt cs m (a :: as)) (ha : IsSlot cs a cap) (hfree : a ∉ free) :
    ∃ m', bm.recycleBuffer m (newShmSlice m a (.shm (a + 20) cap) a) = .ok m' ∧
      Heap cs m' (a :: free) ∧ Keeps cs (a :: free) m m' := by
  obtain ⟨cap', ha', h8, h4⟩ := hc.slots a List.mem_cons_self
  obtain rfl := ha'.cap_eq ha hL
  obtain ⟨hshm, -⟩ := newShmSlice_ok hheap ha' h8 h4 hL
  exact recycle_spec hM hheap hL hshm.slot hfree hshm.isFromShm hshm.header rfl

/-- **`recycleBuffers`** on the slots of a message. -/
theorem recycleChain_spec (hM : ManagerOk cs bm) : ∀ (as : List ℕ) (a cap k : ℕ) (m : Mem)
    (free : List ℕ), Heap cs m free → Layout cs m.len → ChainAt cs m (a :: as) → IsSlot cs a cap →
    as.length < k → (a :: as ++ free).Nodup →
    ∃ m', recycleChain bm k m (newShmSlice m a (.shm (a + 20) cap) a) = .ok m' ∧
      Heap cs m' (a :: as ++ free) ∧ Keeps cs (a :: as ++ free) m m' := by
  intro as
  induction as with
  | nil =>
    intro a cap k m free hheap hL hc ha hk hnd
    obtain ⟨k, rfl⟩ := Nat.exists_eq_succ_of_ne_zero (show k ≠ 0 by omega)
    have hnot : a ∉ free := (List.nodup_cons.mp hnd).1
    obtain ⟨-, hnext⟩ | ⟨b, bs, he, -⟩ := nextSlot_of_chain hc.links
    · obtain ⟨m', hrun, hheap', hkeep⟩ := recycle_slot hM hheap hL hc ha hnot
      refine ⟨m', ?_, hheap', hkeep⟩
      rw [recycleChain]
      show (if Buffer.hasNext m a = true then _ else _) = _
      rw [hnext]
      exact hrun
    · cases he
  | cons b bs ih =>
    intro a cap k m free hheap hL hc ha hk hnd
    obtain ⟨k, rfl⟩ := Nat.exists_eq_succ_of_ne_zero (show k ≠ 0 by omega)
    obtain ⟨he, -⟩ | ⟨_, _, he, hnext, hoff⟩ := nextSlot_of_chain hc.links
    · cases he
    cases he
    obtain ⟨hnot, hnd⟩ := List.nodup_cons.mp hnd
    obtain ⟨m1, hrun, hheap1, hkeep1⟩ := recycle_slot hM hheap hL hc ha fun hf =>
      hnot (List.mem_append_right _ hf)
    obtain ⟨capB, hb, -⟩ := hc.tail.slots b List.mem_cons_self
    have hL1 : Layout cs m1.len := hkeep1.len ▸ hL
    -- the rest of the chain is not touched by the recycling of its first slot
    have hapart : ∀ x ∈ b :: bs, x ∉ a :: free := by
      intro x hx hT
      rcases List.mem_cons.mp hT with rfl | hT
      · exact hnot (List.mem_append_left _ hx)
      · exact (List.nodup_append.mp hnd).2.2 x hx x hT rfl
    obtain ⟨m', hrest, hheap', hkeep'⟩ := ih b capB k m1 (a :: free) hheap1 hL1
      (hc.tail.congr hkeep1 hapart) hb (by simpa using hk)
      (List.perm_middle.nodup_iff.mpr (List.nodup_cons.mpr ⟨hnot, hnd⟩))
    refine ⟨m', ?_, hheap'.perm List.perm_middle.symm, (hkeep1.mono ?_).trans hkeep' ?_⟩
    · rw [recycleChain]
      show (if Buffer.hasNext m a = true then _ else _) = _
      rw [if_pos hnext]
      have hread : readBufferSlice m1 (nextOffset m a) =
          .ok (.ok (newShmSlice m1 b (.shm (b + 20) capB) b)) := by
        rw [hoff]
        exact readBufferSlice_slot hheap1 hL1 hb
      exact Go.bind_ok.mpr ⟨m1, hrun, Go.bind_ok.mpr ⟨_, hread, hrest⟩⟩
    · intro x hx
      simp only [List.mem_cons, List.mem_append] at hx ⊢
      tauto
    · intro x hx
      simp only [List.mem_cons, List.mem_append, List.cons_append] at hx ⊢
      tauto

theorem recycleBuffers_steps (hM : ManagerOk cs bm) {slice : BufferSlice}
    (hread : readBufferSlice m root = .ok (.ok slice)) (hrun : bm.recycleBuffers m slice = .ok m') :
    (ownership hL).Steps m [.chain root] m' [] := by
  refine steps_of fun hok others free hlen hheap hall => ?_
  obtain ⟨as, hc⟩ : ∃ as, ChainPart cs m root as := hok (.chain root) (by simp)
  simp only [List.flatMap_cons, List.flatMap_nil, List.append_nil, Part.slots_chain, hc.chainOf_eq,
    List.nil_append] at hall ⊢
  have hL' : Layout cs m.len := hlen ▸ hL
  have hnd : (root :: as ++ free).Nodup := by
    have hnd := hall.nodup_iff.mpr hL.allSlots_nodup
    simp only [List.nodup_append, List.mem_append] at hnd ⊢
    grind
  obtain ⟨cap, hslot, -⟩ := hc.chain.slots root List.mem_cons_self
  obtain ⟨m1, hrun', hheap', hkeep⟩ :=
    recycleChain_spec hM as root cap m.len m free hheap hL' hc.chain hslot hc.short hnd
  rw [readBufferSlice_slot hheap hL' hslot] at hread
  cases hread
  have hsame : m1 = m' := Except.ok.inj (hrun'.symm.trans hrun)
  subst hsame
  exact ⟨_, hheap', (List.perm_append_comm_assoc ..).trans hall, hkeep, by simp⟩

/-- **`pendingData.clear`.** A message that is in order is found. -/
theorem clear_steps (hM : ManagerOk cs bm) : ∀ (pending : List Unread) (m : Mem),
    clear bm pending m = .ok m' → (ownership hL).Steps m (pendingParts pending) m' [] := by
  intro pending
  induction pending with
  | nil =>
    intro m hrun
    cases hrun
    exact Ownership.Steps.refl _ _
  | cons u pending ih =>
    intro m hrun
    cases u with
    | fallback payload => exact ih m hrun
    | chain root =>
      obtain ⟨r, hread, hrun⟩ := Go.bind_ok.mp hrun
      cases r with
      | ok slice =>
        obtain ⟨m1, hrec, hrun⟩ := Go.bind_ok.mp hrun
        exact ((recycleBuffers_steps hM hread hrec).frame _).trans (ih m1 hrun)
      | error err =>
        refine steps_of fun hok others free hlen hheap hall => ?_
        obtain ⟨as, hc⟩ : ∃ as, ChainPart cs m root as := hok (.chain root) List.mem_cons_self
        obtain ⟨cap, hslot, -⟩ := hc.chain.slots root List.mem_cons_self
        rw [readBufferSlice_slot hheap (hlen ▸ hL) hslot] at hread
        cases hread

theorem RecvPart.clean (h : RecvPart cs l) : RecvPart cs l.clean := by
  refine ⟨?_, h.pinned, fun hne => absurd rfl hne, ?_, rfl⟩
  · intro s hs
    cases hs
  · intro s hs
    cases hs

/-- **`recycle`** of a receive buffer: what is pinned stays. -/
theorem recycle_recv_steps (hM : ManagerOk cs bm) (hrun : l.recycle bm m = .ok (m', l')) :
    l' = l.clean ∧ (ownership hL).Steps m [.recv l] m' [.recv l'] := by
  obtain ⟨m1, -, h⟩ := Go.bind_ok.mp hrun
  cases h
  refine ⟨rfl, steps_single fun (hl : RecvPart cs l) others free hlen hheap hall => ?_⟩
  obtain ⟨m2, hrun', howns, hkeep⟩ := recycle_owns hM (hl.owns (hlen ▸ hL) hheap hall)
  rw [hrun] at hrun'
  cases hrun'
  refine ⟨_, howns.heap, howns.all_slots, hkeep.mono fun a ha => ?_, hl.clean⟩
  rw [Part.slots_recv, LinkedBuffer.slots]
  simp only [List.mem_append] at ha ⊢
  tauto

theorem recycle_send_steps (hM : ManagerOk cs bm) (hrun : l.recycle bm m = .ok (m', l')) :
    l' = l.clean ∧ (ownership hL).Steps m [.send l] m' [.send l'] := by
  obtain ⟨m1, -, h⟩ := Go.bind_ok.mp hrun
  cases h
  refine ⟨rfl, steps_single fun (hl : SendPart cs m l) others free hlen hheap hall => ?_⟩
  obtain ⟨m2, hrun', howns, hkeep⟩ := recycle_owns hM (hl.sendOk (hlen ▸ hL) hheap hall).toOwns
  rw [hrun] at hrun'
  cases hrun'
  refine ⟨_, howns.heap, howns.all_slots, hkeep.mono fun a ha => ?_, SendPart.clean cs m' hl.pinned⟩
  rw [Part.slots_send, LinkedBuffer.slots]
  simp only [List.mem_append] at ha ⊢
  tauto

/-- `clean` drops no slot of a receive buffer that has no slices. -/
theorem clean_steps (hs : l.slices = []) :
    (ownership hL).Steps m [.recv l] m [.recv l.clean] := by
  refine steps_single fun (hl : RecvPart cs l) others free hlen hheap hall => ?_
  have hslots : l.clean.slots = l.slots := by
    rw [LinkedBuffer.slots, LinkedBuffer.slots, hs]
    rfl
  refine ⟨free, hheap, ?_, Keeps.refl .., hl.clean⟩
  rw [Part.slots_recv, hslots]
  exact hall

end Steps

end Shmipc.Buffer
