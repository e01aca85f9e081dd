import Shmipc.Buffer.Fidelity

/-!
# What `done` publishes

`done` (buffer.go:241-262) fills in the headers of the slices up to the write cursor and
gives the slices behind it back. A receiver walks the message from `rootBufOffset` on,
with `readBufferSlice`, `hasNext` and `nextBufferOffset`.

`update` links the slice at the cursor to the slice behind it before `splitFromWrite`
cuts the list there. The headers then lead from the last used slice into slots that are
already free.

Results:
* `done_publishes_iff`: the later slices are free again, each once and in its own list.
  The walk is over the used slices, with their bytes, exactly if there is no later one.
* `done_walks_into_free_slot`: a buffer of two slices of which one is used.
-/

namespace Shmipc.Buffer

open Common

/-! ## The walk of a receiver -/

/-- The slices of a message from `offset` on, if there are at most `k` of them and all of
    them can be read. -/
def walk (m : Mem) : ℕ → ℕ → Option (List BufferSlice)
  | 0, _ => none
  | k + 1, offset =>
    match readBufferSlice m offset with
    | .ok (.ok s) =>
      if hasNext m offset then (walk m k (nextOffset m offset)).map (s :: ·) else some [s]
    | _ => none

section Walk

variable {m : Mem} {a b k : ℕ} {as : List ℕ} {rs : List BufferSlice}

theorem walk_succ (h : readBufferSlice m a = .ok (.ok (sliceAt m a))) : walk m (k + 1) a =
    match nextSlot m a with
    | none => some [sliceAt m a]
    | some b => (walk m k b).map (sliceAt m a :: ·) := by
  rw [walk, h, nextSlot]
  cases hasNext m a <;> rfl

theorem walk_ne_nil (hw : walk m k a = some rs) : rs ≠ [] := by
  rintro rfl
  cases k with
  | zero => cases hw
  | succ k =>
    unfold walk at hw
    split at hw
    · split at hw
      · simp at hw
      · simp at hw
    · cases hw

theorem walk_of_chain (hc : Chain (nextSlot m) (a :: as))
    (hread : ∀ x ∈ a :: as, readBufferSlice m x = .ok (.ok (sliceAt m x))) :
    walk m (as.length + 1) a = some ((a :: as).map (sliceAt m)) := by
  induction as generalizing a with
  | nil => rw [List.length_nil, walk_succ (hread a (by simp)), show nextSlot m a = none from hc]; rfl
  | cons b as ih =>
    rw [List.forall_mem_cons] at hread
    have hrest := ih hc.2 hread.2
    rw [List.length_cons, walk_succ hread.1, hc.1]
    simp only [hrest, Option.map_some, List.map_cons]

/-- The walk along a chain that goes on does not end in it. -/
theorem length_lt_of_walk (hc : ChainTo (nextSlot m) (some b) (a :: as))
    (hread : ∀ x ∈ a :: as, readBufferSlice m x = .ok (.ok (sliceAt m x)))
    (hw : walk m k a = some rs) : (a :: as).length < rs.length := by
  induction as generalizing a k rs with
  | nil =>
    cases k with
    | zero => cases hw
    | succ k =>
      rw [walk_succ (hread a (by simp)), show nextSlot m a = some b from hc] at hw
      obtain ⟨rs', hrest, rfl⟩ := Option.map_eq_some_iff.mp hw
      simpa using List.length_pos_iff.mpr (walk_ne_nil hrest)
  | cons c as ih =>
    rw [List.forall_mem_cons] at hread
    cases k with
    | zero => cases hw
    | succ k =>
      rw [walk_succ hread.1, hc.1] at hw
      obtain ⟨rs', hrest, rfl⟩ := Option.map_eq_some_iff.mp hw
      have := ih hc.2 hread.2 hrest
      simp only [List.length_cons] at this ⊢
      omega

end Walk

/-! ## Publishing -/

/-- A send buffer of slots only, filled to any level, with the write cursor on the slice at
    `i`. -/
structure Publishable (cs : List SizeClass) (m : Mem) (l : LinkedBuffer) (others free : List ℕ)
    (i : ℕ) : Prop extends SendShape cs m l others free where
  isFromShm : l.isFromShm = true
  cursor : l.writeSlice = .at i
  lt : i < l.slices.length

/-- What a receiver has of a slice: its slot and its bytes. -/
structure ReceivedAs (m m' : Mem) (s r : BufferSlice) : Prop where
  slot : r.offsetInShm = s.offsetInShm
  bytes : r.bytes m' = s.bytes m

/-- The walk from `rootBufOffset` visits exactly the slices `ss`, in order and each with
    its bytes, and stops. -/
def Publishes (m : Mem) (ss : List BufferSlice) (m' : Mem) (l' : LinkedBuffer) : Prop :=
  ∃ root k rs, l'.rootBufOffset = .ok root ∧ walk m' k root = some rs ∧
    List.Forall₂ (ReceivedAs m m') ss rs

section Publish

variable {cs : List SizeClass} {bm : Manager} {m m' : Mem} {l : LinkedBuffer}
  {others free : List ℕ} {i : ℕ} {s : BufferSlice}

/-- A slice whose header says what was written is received. -/
theorem receivedAs_sliceAt (hs : Sendable cs s) (hheap : Heap cs m' free)
    (hL : Layout cs m'.len) (hsize : m'.get32 (s.offsetInShm + 4) = s.size.toNat)
    (hstart : m'.get32 (s.offsetInShm + 8) = 0)
    (hread : m'.read (s.offsetInShm + 20) (m'.get32 (s.offsetInShm + 4)) = s.bytes m) :
    ReceivedAs m m' s (sliceAt m' s.offsetInShm) := by
  have hsz := hs.size_le
  have hr := newShmSlice_ok hheap hs.shm.slot hstart (by rw [hsize]; omega) hL
  have hcap := hheap.slotCap hs.shm.slot
  refine ⟨rfl, ?_⟩
  rw [sliceAt, hcap, hr.2.2.2, hread]

theorem Publishable.sendable (h : Publishable cs m l others free i) :
    ∀ s ∈ l.slices, Sendable cs s :=
  fun s hs => ⟨h.shm h.isFromShm s hs, h.bounds s hs, h.start s hs⟩

/-- The slots up to the cursor are not those behind it, and none of them is free. -/
theorem Publishable.apart_front (h : Publishable cs m l others free i) :
    (slotsOf (l.slices.take (i + 1))).Nodup ∧
    (slotsOf (l.slices.drop (i + 1)) ++ free).Nodup ∧
    ∀ a ∈ slotsOf (l.slices.take (i + 1)), a ∉ slotsOf (l.slices.drop (i + 1)) ++ free := by
  have hnd : (slotsOf l.slices ++ free).Nodup := by
    have hall := h.nodup
    simp only [List.nodup_append, List.mem_append] at hall ⊢
    grind
  rw [← List.take_append_drop (i + 1) l.slices, slotsOf_append, List.append_assoc] at hnd
  obtain ⟨hfront, hrest, hne⟩ := List.nodup_append.mp hnd
  exact ⟨hfront, hrest, fun a ha hmem => hne a ha a hmem rfl⟩

/-- The memory that `done` leaves: the slices `used` linked in order, the last of them to
    the first of the slices `later`, and these free. -/
structure Published (cs : List SizeClass) (m : Mem) (used later : List BufferSlice)
    (free : List ℕ) (m' : Mem) : Prop where
  layout : Layout cs m'.len
  heap : Heap cs m' (slotsOf later ++ free)
  links : ChainTo (nextSlot m') (later.head?.map (·.offsetInShm)) (slotsOf used)
  received : ∀ s ∈ used, ReceivedAs m m' s (sliceAt m' s.offsetInShm)

/-- What happens to other slots does not change the headers of the slices `used`. -/
theorem LinkedTo.published {m1 m2 : Mem} {used later : List BufferSlice} {T : List ℕ}
    (h : LinkedTo cs m used (later.head?.map (·.offsetInShm)) m1)
    (hused : ∀ s ∈ used, Sendable cs s) (hk : Keeps cs T m1 m2) (hT : ∀ a ∈ slotsOf used, a ∉ T)
    (hL : Layout cs m2.len) (hheap : Heap cs m2 (slotsOf later ++ free)) :
    Published cs m used later free m2 := by
  have hsame : ∀ s ∈ used, m1.SameOn m2 s.offsetInShm (s.offsetInShm + 20 + s.cap) := fun s hs =>
    hk.slot _ _ (hused s hs).shm.slot (hT _ (mem_slotsOf hs (hused s hs).shm.header))
  refine ⟨hL, hheap, h.links.congr ?_, fun s hs => ?_⟩
  · rw [slotsOf_eq_map fun s hs => (hused s hs).shm, List.forall_mem_map]
    intro s hs
    rw [nextSlot, nextSlot, hasNext_congr ((hsame s hs).mono (by omega) (by omega)),
      nextOffset_congr ((hsame s hs).mono (by omega) (by omega))]
  · have hsz := (hused s hs).size_le
    have hword : ∀ k, k + 4 ≤ 20 → m2.get32 (s.offsetInShm + k) = m1.get32 (s.offsetInShm + k) :=
      fun k hk => Mem.get32_congr ((hsame s hs).mono (by omega) (by omega))
    refine receivedAs_sliceAt (hused s hs) hheap hL ?_ ?_ ?_
    · rw [hword 4 (by omega), h.sizes s hs]
    · rw [hword 8 (by omega), h.starts s hs]
    · rw [hword 4 (by omega), ← h.read hused hs]
      refine Mem.read_congr ((hsame s hs).mono (by omega) ?_)
      rw [h.sizes s hs]
      omega

/-- **`done`** with the write cursor on any slice. -/
theorem done_published (hM : ManagerOk cs bm) (h : Publishable cs m l others free i) :
    ∃ m', l.done bm m = .ok (m', { l with slices := l.slices.take (i + 1) }) ∧
      Published cs m (l.slices.take (i + 1)) (l.slices.drop (i + 1)) free m' := by
  obtain ⟨hnd, hndrest, hapart⟩ := h.apart_front
  have hlt := h.lt
  have hcur : ∃ s, l.current = .ok (i, s) := by
    rw [LinkedBuffer.current, h.cursor]
    simp only [List.getElem?_eq_getElem hlt]
    exact ⟨_, rfl⟩
  generalize hlater : l.slices.drop (i + 1) = later at hndrest hapart ⊢
  generalize hused : l.slices.take (i + 1) = used at hnd hapart ⊢
  have happ : l.slices = used ++ later := by rw [← hused, ← hlater, List.take_append_drop]
  have hlen : used.length = i + 1 := by
    rw [← hused, List.length_take]
    omega
  have hsend : ∀ s ∈ used ++ later, Sendable cs s := happ ▸ h.sendable
  rw [List.forall_mem_append] at hsend
  -- the headers of the used slices
  have hlinked := updateSlices_linkedTo later
    (fun t ht => (hsend.2 t (List.mem_of_mem_head? ht)).shm) used h.layout hsend.1 hnd
    fun a ha => h.noNext a (by rw [happ, slotsOf_append]; exact List.mem_append_left _ ha)
  rw [hlen, ← happ] at hlinked
  generalize hm1 : LinkedBuffer.updateSlices (i + 1) l.slices m = m1 at hlinked
  have hL1 : Layout cs m1.len := hlinked.keeps.len ▸ h.layout
  have hheap1 := hlinked.heap free h.heap fun a ha hf => hapart a ha (List.mem_append_right _ hf)
  -- the later slices go back
  obtain ⟨m2, hrec, hheap2, hkeep⟩ := recycleSlices_spec hM later m1 free hheap1 hL1
    (fun s hs => .inl (hsend.2 s hs).shm) hndrest
  refine ⟨m2, ?_, hlinked.published hsend.1 hkeep hapart (hkeep.len ▸ hL1) hheap2⟩
  obtain ⟨s, hcur⟩ := hcur
  unfold LinkedBuffer.done
  rw [if_pos h.isFromShm, hcur]
  simp only [bind, Except.bind, hm1, hlater, hused, hrec, pure, Except.pure]

/-- The walk over the published slices ends with the last of them exactly if there is no
    later slice. -/
theorem Published.publishes_iff {used later : List BufferSlice} {l' : LinkedBuffer}
    (h : Published cs m used later free m') (hused : ∀ s ∈ used, Sendable cs s) (hne : used ≠ [])
    (hslices : l'.slices = used) : Publishes m used m' l' ↔ later = [] := by
  obtain ⟨s, ss, rfl⟩ := List.exists_cons_of_ne_nil hne
  have hroot : l'.rootBufOffset = .ok s.offsetInShm := by
    rw [LinkedBuffer.rootBufOffset, LinkedBuffer.front, hslices]
    rfl
  have hslots := slotsOf_eq_map fun t ht => (hused t ht).shm
  have hlinks := h.links
  have hread : ∀ a ∈ slotsOf (s :: ss), readBufferSlice m' a = .ok (.ok (sliceAt m' a)) := by
    rw [hslots, List.forall_mem_map]
    intro t ht
    have hslot := (hused t ht).shm.slot
    rw [readBufferSlice_slot h.heap h.layout hslot, sliceAt, h.heap.slotCap hslot]
  rw [hslots, List.map_cons] at hlinks hread
  cases later with
  | nil =>
    refine iff_of_true ⟨_, _, _, hroot, walk_of_chain (chainTo_none.mp hlinks) hread, ?_⟩ rfl
    rw [← List.map_cons (f := fun t : BufferSlice => t.offsetInShm), List.map_map,
      List.forall₂_map_right_iff, List.forall₂_same]
    exact h.received
  | cons t later =>
    refine iff_of_false ?_ (by simp)
    rintro ⟨root, k, rs, hroot', hwalk, hrs⟩
    cases hroot.symm.trans hroot'
    have hlt := length_lt_of_walk hlinks hread hwalk
    rw [← hrs.length_eq] at hlt
    simp at hlt

/-- **Main theorem.** `done` with the write cursor on the slice at `i` keeps the slices up to
    the cursor. The later ones are free again, each of them once and in the list of its
    class. A receiver's walk visits exactly the used slices, in order and with the bytes
    written, exactly if there is no later slice. -/
theorem done_publishes_iff (hM : ManagerOk cs bm) (h : Publishable cs m l others free i) :
    ∃ m' l', l.done bm m = .ok (m', l') ∧ l'.slices = l.slices.take (i + 1) ∧
      (bm.freeSlots m').Perm (slotsOf (l.slices.drop (i + 1)) ++ free) ∧ (bm.freeSlots m').Nodup ∧
      List.Forall₂ (fun b c => ∀ a ∈ b.freeSlots m', a ∈ c.slots) bm.lists cs ∧
      (Publishes m (l.slices.take (i + 1)) m' l' ↔ i + 1 = l.slices.length) := by
  obtain ⟨m', hdone, hp⟩ := done_published hM h
  have hperm := hp.heap.freeSlots_perm hM
  have hlt := h.lt
  have hne : l.slices.take (i + 1) ≠ [] := by
    rw [← List.length_pos_iff, List.length_take]
    omega
  refine ⟨m', _, hdone, rfl, hperm, hperm.nodup_iff.mpr h.apart_front.2.1,
    hp.heap.freeSlots_own hM, ?_⟩
  rw [hp.publishes_iff (fun s hs => h.sendable s (List.mem_of_mem_take hs)) hne rfl,
    List.drop_eq_nil_iff]
  omega

/-- Six bytes in two slices, with the cursor on the second one. -/
theorem done_publishes_six_bytes : ∃ m' l',
    sixWritten.buf.done fourSlots.2 sixWritten.mem = .ok (m', l') ∧
      sixWritten.buf.slices.length = 2 ∧ Publishes sixWritten.mem sixWritten.buf.slices m' l' := by
  have hM := fourSlots_created.managerOk
  have hempty : SendOk [⟨8, 4, 4⟩] fourSlots.1 {} [] (allSlots [⟨8, 4, 4⟩]) :=
    SendOk.empty fourSlots_created.layout fourSlots_created.heap (by simp)
  have hrun : LinkedBuffer.writeBytes fourSlots.2 fourSlots.1 {} [1, 2, 3, 4, 5, 6] =
    .ok (sixWritten.mem, sixWritten.buf) := rfl
  obtain ⟨m1, l1, free1, hrun1, hW⟩ | ⟨p, -, hlong⟩ := writeBytes_spec hM hempty [1, 2, 3, 4, 5, 6]
  · cases hrun.symm.trans hrun1
    obtain ⟨m', l', hdone, -, -, -, -, hiff⟩ :=
      done_publishes_iff hM ⟨hW.ok.toSendShape, rfl, (rfl : _ = Cursor.at 1), by decide +kernel⟩
    exact ⟨m', l', hdone, rfl, hiff.mpr rfl⟩
  · simp at hlong

/-- A buffer of two slots, `alloc`ed for six bytes, of which three are written: the cursor
    is still on the first slice. -/
def threeOfSix : Option (Mem × LinkedBuffer) := do
  let (m, l) ← (LinkedBuffer.alloc fourSlots.2 fourSlots.1 {} 6).toOption
  (l.writeFront.writeBytes fourSlots.2 m [1, 2, 3]).toOption

/-- **Counterexample.** The slice at 44 is linked to the one at 68, which is free after
    `done`. -/
theorem done_walks_into_free_slot : ∃ m l m' l', threeOfSix = some (m, l) ∧
    l.writeSlice = .at 0 ∧ l.slices.map (·.offsetInShm) = [44, 68] ∧ l.isFromShm = true ∧
    l.done fourSlots.2 m = .ok (m', l') ∧ l'.slices.map (·.offsetInShm) = [44] ∧
    68 ∈ fourSlots.2.freeSlots m' ∧
    (walk m' 2 44).map (·.map (·.offsetInShm)) = some [44, 68] := by
  obtain ⟨p, hp, hw, hslots, hshm, r, hr, h⟩ : ∃ p ∈ threeOfSix, p.2.writeSlice = .at 0 ∧
      p.2.slices.map (·.offsetInShm) = [44, 68] ∧ p.2.isFromShm = true ∧
      ∃ r ∈ (p.2.done fourSlots.2 p.1).toOption, r.2.slices.map (·.offsetInShm) = [44] ∧
        68 ∈ fourSlots.2.freeSlots r.1 ∧
        (walk r.1 2 44).map (·.map (·.offsetInShm)) = some [44, 68] := by decide +kernel
  refine ⟨p.1, p.2, r.1, r.2, hp, hw, hslots, hshm, ?_, h⟩
  cases hd : p.2.done fourSlots.2 p.1 with
  | error e => rw [hd] at hr; cases hr
  | ok q => rw [hd] at hr; cases hr; rfl

end Publish

end Shmipc.Buffer
