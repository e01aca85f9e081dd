import Shmipc.Buffer.FreeList

/-!
# Runs of a free list

The callers of one list, one after the other: they pop slices, write to the slots
they hold, and push them back.

Results:
* `popPush_freeList`: for a list whose sizes do not wrap around 32 bits, in every
  run the free chain has `*size` distinct slots from `head` to `tail` and makes up
  all slots with those that are out; `pop` succeeds exactly when `*size ≥ 2`.
* `wrapped_list_breaks`: a list created with sizes that wrap, on which `pop` panics.
-/

namespace Shmipc.Buffer

open Common

namespace FreeList

/-- A slice that was popped and not pushed since. -/
structure Out where
  slice : BufferSlice
  /-- The owner has written the flag byte. -/
  rewritten : Bool

structure State where
  mem : Mem
  out : List Out

inductive Act
  | pop
  /-- The `k`-th slice that is out is pushed. -/
  | push (k : ℕ)
  /-- Its owner writes byte `p` of the slot, header included. Nothing in the code
      writes the capacity, so `p` is at least 4. -/
  | write (k p : ℕ) (v : UInt8)
  /-- Its owner reads or writes through the slice. -/
  | use (k : ℕ) (readIndex writeIndex : ℤ)

/-- `none` is also where the code panics. -/
def next (b : BufferList) (s : State) : Act → Option State
  | .pop =>
    match b.pop s.mem with
    | .ok (m, .ok slice) => some ⟨m, ⟨slice, false⟩ :: s.out⟩
    | .ok (m, .error _) => some ⟨m, s.out⟩
    | .error _ => none
  | .push k =>
    match s.out[k]? with
    | none => none
    | some x =>
      match b.push s.mem x.slice with
      | .ok m => some ⟨m, s.out.eraseIdx k⟩
      | .error _ => none
  | .write k p v =>
    match s.out[k]? with
    | none => none
    | some x =>
      if 4 ≤ p ∧ p < bufferHeaderSize + x.slice.cap then
        some ⟨s.mem.set8 (x.slice.offsetInShm + p) v,
          s.out.set k { x with rewritten := x.rewritten || p == bufferFlagOffset }⟩
      else none
  | .use k r w =>
    match s.out[k]? with
    | none => none
    | some x =>
      some ⟨s.mem, s.out.set k
        { x with slice := { x.slice with readIndex := r, writeIndex := w } }⟩

/-- The runs that start from the list `b` in memory `m`. -/
def runs (b : BufferList) (m : Mem) : Sys State Act where
  init s := s = ⟨m, []⟩
  next := next b

/-- The free list as its users rely on it. -/
structure Ok (b : BufferList) (n cap : ℕ) (s : State) : Prop where
  /-- The walk from the head visits `*size` distinct slots and ends at the tail;
      with the slots that are out these are all slots. -/
  chain : ∃ F : List ℕ,
    (∀ k, n ≤ k → follow (nextAt s.mem b.regionStart) k (s.mem.get32 b.head) = F) ∧
    (F.length : ℤ) = toInt32 (s.mem.get32 b.size) ∧ F.Nodup ∧
    F.getLast? = some (s.mem.get32 b.tail) ∧
    (F.map (b.bufferRegionOffsetInShm + ·) ++ s.out.map (·.slice.offsetInShm)).Perm
      ((slotOffsets n cap).map (b.bufferRegionOffsetInShm + ·))
  inUse : ∀ x ∈ s.out, x.rewritten = false → isInUsed s.mem x.slice.offsetInShm = true
  pop : 2 ≤ toInt32 (s.mem.get32 b.size) → ∃ m slice, b.pop s.mem = .ok (m, .ok slice) ∧
    slice.header = some (b.regionStart + s.mem.get32 b.head) ∧
    slice.offsetInShm = b.bufferRegionOffsetInShm + s.mem.get32 b.head ∧
    slice.readIndex = 0 ∧ slice.writeIndex = 0 ∧
    hasNext m (b.regionStart + s.mem.get32 b.head) = false
  popFail : ¬ 2 ≤ toInt32 (s.mem.get32 b.size) → b.pop s.mem = .ok (s.mem, .error .noMoreBuffer)
  push : ∀ x ∈ s.out, ∃ m, b.push s.mem x.slice = .ok m
  outLe : s.out.length ≤ n - 1

/-! ## The invariant -/

section

variable {b : BufferList} {off n cap o : ℕ} {m m' : Mem} {s t : State} {x : Out}
  {out rest : List Out} {F : List ℕ}

/-- What is known of a slice that is out. -/
structure OutOk (cap : ℕ) (m : Mem) (x : Out) : Prop where
  header : x.slice.header = some x.slice.offsetInShm
  cap : x.slice.cap = cap
  inUse : x.rewritten = false → isInUsed m x.slice.offsetInShm = true

/-- The free slots are `F`, and with the slots that are out they are all slots. -/
structure Inv (off n cap : ℕ) (m : Mem) (out : List Out) (F : List ℕ) : Prop where
  free : FreeInv off n cap m F
  held : ∀ x ∈ out, OutOk cap m x
  all : (F.map (off + 36 + ·) ++ out.map (·.slice.offsetInShm)).Perm
    ((slotOffsets n cap).map (off + 36 + ·))

theorem Inv.perm (h : Inv off n cap m out F) (hp : rest.Perm out) : Inv off n cap m rest F where
  free := h.free
  held x hx := h.held x (hp.mem_iff.mp hx)
  all := ((hp.map _).append_left _).trans h.all

theorem Inv.nodup (h : Inv off n cap m out F) :
    (F.map (off + 36 + ·) ++ out.map (·.slice.offsetInShm)).Nodup :=
  h.all.nodup_iff.mpr (slotOffsets_nodup.map fun _ _ he => Nat.add_left_cancel he)

/-- A slice that is out is at a slot that is not free. -/
theorem Inv.slot (h : Inv off n cap m out F) (hx : x ∈ out) :
    ∃ o ∈ slotOffsets n cap, x.slice.offsetInShm = off + 36 + o ∧ o ∉ F := by
  have hmem := h.all.mem_iff.mp (List.mem_append_right _ (List.mem_map_of_mem hx))
  obtain ⟨o, ho, he⟩ := List.mem_map.mp hmem
  refine ⟨o, ho, he.symm, fun hF => ?_⟩
  exact (List.nodup_append.mp h.nodup).2.2 _ (List.mem_map_of_mem hF) _
    (List.mem_map_of_mem hx) he

/-- The other slices that are out are at other slots. -/
theorem Inv.slot_rest (h : Inv off n cap m (x :: rest) F) {y : Out} (hy : y ∈ rest) :
    y.slice.offsetInShm ≠ x.slice.offsetInShm := by
  have hnd := (List.nodup_append.mp h.nodup).2.1
  rw [List.map_cons, List.nodup_cons] at hnd
  exact fun he => hnd.1 (he ▸ List.mem_map_of_mem hy)

theorem OutOk.congr (h : OutOk cap m x)
    (hs : m.SameOn m' (x.slice.offsetInShm + 16) (x.slice.offsetInShm + 17)) : OutOk cap m' x where
  header := h.header
  cap := h.cap
  inUse hr := (isInUsed_congr hs).trans (h.inUse hr)

theorem inv_pop (hb : ListAt b off n cap) {o' : ℕ} (h : Inv off n cap m out (o :: o' :: F)) :
    Inv off n cap (popMem m off b.counter o o') (⟨slotSlice (off + 36 + o) cap, false⟩ :: out)
      (o' :: F) := by
  have hc := hb.counter
  have ho := h.free.slots o List.mem_cons_self
  refine ⟨h.free.pop hb, fun x hx => ?_, ?_⟩
  · rcases List.mem_cons.mp hx with rfl | hx
    · refine ⟨rfl, rfl, fun _ => ?_⟩
      exact (isInUsed_congr (Mem.addInt32_sameOn (by simp only [slotSlice]; omega))).trans
        isInUsed_setInUsed_clearFlag
    · obtain ⟨t, ht, he, htF⟩ := h.slot hx
      have hne : t ≠ o := fun he => htF (by simp [he])
      have hd := slot_disjoint ho ht hne.symm
      exact (h.held x hx).congr (he ▸ popMem_sameOn hc (by omega) (by omega))
  · refine List.Perm.trans ?_ h.all
    simp only [List.map_cons, slotSlice]
    exact List.perm_middle

theorem inv_push (hb : ListAt b off n cap) (h : Inv off n cap m (x :: rest) F)
    (ho : o ∈ slotOffsets n cap) (hx : x.slice.offsetInShm = off + 36 + o) (hF : o ∉ F) :
    Inv off n cap (pushMem m off b.counter o (m.get32 (off + 12))) rest (F ++ [o]) := by
  have hc := hb.counter
  refine ⟨h.free.push hb ho hF, fun y hy => ?_, ?_⟩
  · obtain ⟨t, ht, he, htF⟩ := h.slot (List.mem_cons_of_mem x hy)
    have hne : t ≠ o := fun h' => h.slot_rest hy (by rw [he, hx, h'])
    have htail := List.mem_of_getLast? h.free.tail
    have hd := slot_disjoint ho ht hne.symm
    have hd' := slot_disjoint ht (h.free.slots _ htail) fun h' => htF (h' ▸ htail)
    exact (h.held y (List.mem_cons_of_mem x hy)).congr
      (he ▸ pushMem_sameOn hc (by omega) (by omega) (by omega))
  · refine List.Perm.trans ?_ h.all
    simp [hx]

theorem inv_write (h : Inv off n cap m (x :: rest) F) {p : ℕ} {v : UInt8} (hp : 4 ≤ p)
    (hp' : p < 20 + cap) :
    Inv off n cap (m.set8 (x.slice.offsetInShm + p) v)
      ({ x with rewritten := x.rewritten || p == bufferFlagOffset } :: rest) F := by
  obtain ⟨o, ho, he, hF⟩ := h.slot List.mem_cons_self
  -- the byte is in the slot, behind its capacity
  have hslot : ∀ t ∈ slotOffsets n cap, t ≠ o → m.SameOn (m.set8 (x.slice.offsetInShm + p) v)
      (off + 36 + t) (off + 36 + t + 20) := by
    intro t ht hne
    have hd := slot_disjoint ho ht hne.symm
    exact Mem.set8_sameOn (by omega)
  refine ⟨h.free.congr rfl (Mem.set8_sameOn (by omega)) ?_ ?_, fun y hy => ?_, h.all⟩
  · exact fun t ht => hslot t (h.free.slots t ht) fun h' => hF (h' ▸ ht)
  · intro t ht
    rcases eq_or_ne t o with rfl | hne
    · exact Mem.set8_sameOn (by omega)
    · exact (hslot t ht hne).mono le_rfl (by omega)
  · rcases List.mem_cons.mp hy with rfl | hy
    · have hx := h.held x List.mem_cons_self
      refine ⟨hx.header, hx.cap, fun hr => ?_⟩
      simp only [Bool.or_eq_false_iff, beq_eq_false_iff_ne, bufferFlagOffset] at hr
      have hsame : m.SameOn (m.set8 (x.slice.offsetInShm + p) v) (x.slice.offsetInShm + 16)
          (x.slice.offsetInShm + 17) := Mem.set8_sameOn (by omega)
      exact (isInUsed_congr hsame).trans (hx.inUse hr.1)
    · obtain ⟨t, ht, hty, -⟩ := h.slot (List.mem_cons_of_mem x hy)
      have hne : t ≠ o := fun h' => h.slot_rest hy (by rw [he, hty, h'])
      exact (h.held y (List.mem_cons_of_mem x hy)).congr
        (hty ▸ (hslot t ht hne).mono (by omega) (by omega))

theorem inv_use (h : Inv off n cap m (x :: rest) F) (r w : ℤ) :
    Inv off n cap m
      ({ x with slice := { x.slice with readIndex := r, writeIndex := w } } :: rest) F where
  free := h.free
  held y hy := by
    rcases List.mem_cons.mp hy with rfl | hy
    · have hx := h.held x List.mem_cons_self
      exact ⟨hx.header, hx.cap, hx.inUse⟩
    · exact h.held y (List.mem_cons_of_mem x hy)
  all := h.all

/-- A list is never empty: the last slot is not given out. -/
theorem Inv.cases (h : Inv off n cap m out F) :
    (∃ o, F = [o]) ∨ ∃ o o' F', F = o :: o' :: F' := by
  have hne : F ≠ [] := by
    rintro rfl
    exact nomatch h.free.head
  match F, hne with
  | [o], _ => exact .inl ⟨o, rfl⟩
  | o :: o' :: F', _ => exact .inr ⟨o, o', F', rfl⟩

theorem push_held (hb : ListAt b off n cap) (h : Inv off n cap m out F) (hx : x ∈ out) :
    ∃ o ∈ slotOffsets n cap, x.slice.offsetInShm = off + 36 + o ∧ o ∉ F ∧
      b.push m x.slice = .ok (pushMem m off b.counter o (m.get32 (off + 12))) := by
  obtain ⟨o, ho, he, hF⟩ := h.slot hx
  exact ⟨o, ho, he, hF, push_eq hb (hb.fits_slot h.free.len h.free.tail_mem)
    (hb.fits_slot h.free.len ho) (by rw [(h.held x hx).header, he]) he⟩

/-- **Step lemma.** -/
theorem inv_step (hb : ListAt b off n cap) (a : Act) (h : Inv off n cap s.mem s.out F)
    (hs : next b s a = some t) : ∃ F', Inv off n cap t.mem t.out F' := by
  cases a with
  | pop =>
    rw [next] at hs
    obtain ⟨o, rfl⟩ | ⟨o, o', F', rfl⟩ := h.cases
    · rw [pop_fail hb (h.free.chained hb.fits)] at hs
      cases hs
      exact ⟨_, h⟩
    · rw [pop_eq hb (h.free.chained hb.fits)] at hs
      cases hs
      exact ⟨_, inv_pop hb h⟩
  | push k =>
    rw [next] at hs
    cases hk : s.out[k]? with
    | none => simp [hk] at hs
    | some x =>
      have hx := h.perm (cons_eraseIdx_perm hk)
      obtain ⟨o, ho, he, hF, hpush⟩ := push_held hb hx List.mem_cons_self
      simp only [hk, hpush] at hs
      cases hs
      exact ⟨_, inv_push hb hx ho he hF⟩
  | write k p v =>
    rw [next] at hs
    cases hk : s.out[k]? with
    | none => simp [hk] at hs
    | some x =>
      have hx := h.perm (cons_eraseIdx_perm hk)
      simp only [hk] at hs
      split_ifs at hs with hp
      cases hs
      rw [(hx.held x List.mem_cons_self).cap] at hp
      exact ⟨_, (inv_write hx hp.1 hp.2).perm (set_perm_cons hk _)⟩
  | use k r w =>
    rw [next] at hs
    cases hk : s.out[k]? with
    | none => simp [hk] at hs
    | some x =>
      simp only [hk] at hs
      cases hs
      exact ⟨_, (inv_use (h.perm (cons_eraseIdx_perm hk)) r w).perm (set_perm_cons hk _)⟩

theorem ok_of_inv (hb : ListAt b off n cap) (h : Inv off n cap s.mem s.out F) :
    Ok b n cap s := by
  have hc := hb.counter
  have hsz : toInt32 (s.mem.get32 b.size) = F.length := by
    rw [hb.size, h.free.size, toInt32_of_lt (hb.length_lt h.free)]
  have hcount : F.length + s.out.length = n := by
    simpa [slotOffsets] using h.all.length_eq
  have hpos : 0 < F.length := by
    obtain ⟨o, rfl⟩ | ⟨o, o', F', rfl⟩ := h.cases <;> simp
  refine ⟨⟨F, fun k hk => ?_, by rw [hsz], h.free.nodup, by rw [hb.tail]; exact h.free.tail, ?_⟩,
    fun x hx => (h.held x hx).inUse, fun h2 => ?_, fun h2 => ?_, fun x hx => ?_, by omega⟩
  · obtain ⟨o, F', rfl⟩ := List.exists_cons_of_length_pos hpos
    have hhead : s.mem.get32 (off + 8) = o := by simpa using h.free.head.symm
    rw [hb.head, hb.regionStart, hhead]
    exact follow_of_chain h.free.chain (by simp only [List.length_cons] at hcount; omega)
  · rw [hb.regionOffset]; exact h.all
  · rw [hsz] at h2
    obtain ⟨o, rfl⟩ | ⟨o, o', F', rfl⟩ := h.cases
    · simp at h2
    · have hhead : s.mem.get32 (off + 8) = o := by simpa using h.free.head.symm
      rw [hb.head, hb.regionStart, hb.regionOffset, hhead]
      refine ⟨_, _, pop_eq hb (h.free.chained hb.fits), rfl, rfl, rfl, rfl, ?_⟩
      exact (hasNext_congr (Mem.addInt32_sameOn (by omega))).trans hasNext_setInUsed_clearFlag
  · rw [hsz] at h2
    obtain ⟨o, rfl⟩ | ⟨o, o', F', rfl⟩ := h.cases
    · exact pop_fail hb (h.free.chained hb.fits)
    · simp only [List.length_cons] at h2
      omega
  · obtain ⟨o, -, -, -, hpush⟩ := push_held hb h hx
    exact ⟨_, hpush⟩

end

/-- **Main theorem.** A list whose sizes do not wrap around 32 bits stays as its users
    rely on it, in every run of `pop` and `push` and of writes by the slots' owners. -/
theorem popPush_freeList (n cap off : ℕ) (m m0 : Mem) (b : BufferList)
    (hfit : off + 36 + n * (cap + 20) < 2 ^ 32)
    (hc : createFreeBufferList n cap m off = .ok (.ok (m0, b)))
    (s : State) (hs : (runs b m0).Reachable s) : Ok b n cap s := by
  obtain ⟨rfl, hfree⟩ := created hfit hc
  have hb := createdList_listAt hfit
  obtain ⟨F, h⟩ := hs.invariant (fun s => ∃ F, Inv off n cap s.mem s.out F)
    (by rintro s rfl; exact ⟨_, hfree, by simp, by simp⟩)
    (fun s a t ⟨F, h⟩ _ hn => inv_step hb a h hn)
  exact ok_of_inv hb h

/-- Two slots out, one of them rewritten and pushed back before a third is taken. -/
def useRun : List Act := [.pop, .write 0 16 255, .pop, .push 1, .pop, .pop]

theorem popPush_freeList_use : ∃ p s, zeroList 3 4 108 = some p ∧ (runs p.2 p.1).Reachable s ∧
    s.out.map (·.slice.offsetInShm) = [84, 60] ∧ Ok p.2 3 4 s := by
  obtain ⟨p, hp, hrun⟩ : ∃ p ∈ zeroList 3 4 108, ∃ s ∈ (runs p.2 p.1).run ⟨p.1, []⟩ useRun,
      s.out.map (·.slice.offsetInShm) = [84, 60] := by decide +kernel
  obtain ⟨s, hs, hout⟩ := (runs p.2 p.1).exists_reachable_of_run ⟨p.1, []⟩ useRun _ rfl hrun
  exact ⟨p, s, hp, hs, hout,
    popPush_freeList 3 4 0 _ _ _ (by norm_num) (create_of_zeroList hp) s hs⟩

/-- Two slots of `2 ^ 32 - 1` bytes: with its header a slot counts 19 bytes, so a
    memory of 74 bytes passes all checks. The first `pop` panics. -/
theorem wrapped_list_breaks : ∃ m b, createFreeBufferList 2 (2 ^ 32 - 1) (zeroMem 74) 0 =
      .ok (.ok (m, b)) ∧ toInt32 (m.get32 b.size) = 2 ∧ Panics (b.pop m) .sliceBounds ∧
      ¬ Ok b 2 (2 ^ 32 - 1) ⟨m, []⟩ := by
  obtain ⟨p, hp, hsize, hpanic⟩ : ∃ p ∈ zeroList 2 (2 ^ 32 - 1) 74,
      toInt32 (p.1.get32 p.2.size) = 2 ∧ Panics (p.2.pop p.1) .sliceBounds := by decide +kernel
  refine ⟨p.1, p.2, create_of_zeroList hp, hsize, hpanic, fun hok => ?_⟩
  obtain ⟨m, slice, hok', -⟩ := hok.pop (le_of_eq hsize.symm)
  rw [hpanic] at hok'
  cases hok'

end FreeList

end Shmipc.Buffer
