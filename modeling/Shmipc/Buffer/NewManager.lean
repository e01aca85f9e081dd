import Shmipc.Config
import Shmipc.Buffer.Create

/-!
# A new buffer manager

`createBufferManager` (buffer_manager.go:259-297) on the sizes that `VerifyConfig` lets
through. The shares of the classes are computed from percents with truncating division, and
everything from the offsets on in 32 bits.

Results:
* `new_manager_laid_out`: in a memory below `2 ^ 31` bytes the headers and the slots of a new
  manager are disjoint and inside the memory, every slot is free and can be read back.
* `createBufferManager_exact_iff`: the creation does not panic and fails exactly if a class has
  size 0 or gets no slot, if and only if the list headers fit and the slots with their headers
  have 32-bit sizes, or a class is refused before one that cannot be created.
* `slot_size_divides_by_zero`: a size of `2 ^ 32 - 20` is accepted, and is divided by as zero.
-/

namespace Shmipc.Buffer

open Common

/-! ## The layout -/

/-- The offset of the `i`-th slot of a list, by the words of the list. -/
def BufferList.slotAt (b : BufferList) (m : Mem) (i : ℕ) : ℕ :=
  b.bufferRegionOffsetInShm + i * (m.get32 b.capPerBuffer + bufferHeaderSize)

/-- The headers and slots of a list, as ranges of offsets. -/
def BufferList.areas (b : BufferList) (m : Mem) : List (ℕ × ℕ) :=
  (b.offsetInShm, b.offsetInShm + bufferListHeaderSize) ::
    (List.range (m.get32 b.cap)).map fun i =>
      (b.slotAt m i, b.slotAt m i + bufferHeaderSize + m.get32 b.capPerBuffer)

/-- The header of the manager and the areas of all its lists. -/
def Manager.areas (bm : Manager) (m : Mem) : List (ℕ × ℕ) :=
  (0, bufferManagerHeaderSize) :: bm.lists.flatMap (·.areas m)

/-- The lists follow each other without a gap, from `start` to `stop`. -/
def Adjacent (m : Mem) : ℕ → List BufferList → ℕ → Prop
  | start, [], stop => stop = start
  | start, b :: bs, stop => b.offsetInShm = start ∧
      Adjacent m (listEnd start (m.get32 b.cap) (m.get32 b.capPerBuffer)) bs stop

/-- A slot as the creation leaves it: its words, and that it can be read back. -/
structure FreshSlot (b : BufferList) (m : Mem) (i : ℕ) : Prop where
  cap : m.get32 (b.slotAt m i) = m.get32 b.capPerBuffer
  size : m.get32 (b.slotAt m i + bufferSizeOffset) = 0
  start : m.get32 (b.slotAt m i + bufferDataStartOffset) = 0
  read : ∃ s, readBufferSlice m (b.slotAt m i) = .ok (.ok s) ∧
    s.data = .shm (b.slotAt m i + bufferHeaderSize) (m.get32 b.capPerBuffer)

/-- The layout of a new manager. -/
structure LaidOut (bm : Manager) (m : Mem) : Prop where
  inside : ∀ r ∈ bm.areas m, r.2 ≤ m.len
  /-- The areas are disjoint; they come in address order. -/
  disjoint : (bm.areas m).Pairwise fun r r' => r.2 ≤ r'.1
  fresh : ∀ b ∈ bm.lists, ∀ i < m.get32 b.cap, FreshSlot b m i
  free : ∀ b ∈ bm.lists, m.get32 b.size = m.get32 b.cap ∧
    b.freeSlots m = (List.range (m.get32 b.cap)).map (b.slotAt m)
  listNum : (m.byte 0).toNat + 2 ^ 8 * (m.byte 1).toNat = bm.lists.length
  used : Adjacent m bufferManagerHeaderSize bm.lists (bufferManagerHeaderSize + m.get32 bmCapOffset)

section LaidOut

variable {cs : List SizeClass} {c : SizeClass} {bm : Manager} {m : Mem}

/-- The areas of a class. -/
def SizeClass.areas (c : SizeClass) : List (ℕ × ℕ) :=
  (c.off, c.off + 36) :: (List.range c.n).map fun i =>
    (c.off + 36 + i * (c.cap + 20), c.off + 36 + i * (c.cap + 20) + 20 + c.cap)

theorem SizeClass.areas_bounds : ∀ r ∈ c.areas, c.off ≤ r.1 ∧ r.2 ≤ c.finish := by
  intro r hr
  unfold finish
  rcases List.mem_cons.mp hr with rfl | hr
  · exact ⟨le_rfl, by simp only []; omega⟩
  · obtain ⟨i, hi, rfl⟩ := List.mem_map.mp hr
    have hle : (i + 1) * (c.cap + 20) ≤ c.n * (c.cap + 20) :=
      Nat.mul_le_mul_right _ (List.mem_range.mp hi)
    rw [Nat.succ_mul] at hle
    simp only []
    omega

theorem SizeClass.areas_pairwise : c.areas.Pairwise fun r r' => r.2 ≤ r'.1 := by
  refine List.pairwise_cons.mpr ⟨fun r hr => ?_, ?_⟩
  · obtain ⟨i, -, rfl⟩ := List.mem_map.mp hr
    exact Nat.le_add_right ..
  · refine List.pairwise_map.mpr (List.pairwise_lt_range.imp fun {i j} hij => ?_)
    have hle : (i + 1) * (c.cap + 20) ≤ j * (c.cap + 20) := Nat.mul_le_mul_right _ hij
    rw [Nat.succ_mul] at hle
    omega

theorem Placed.areas_pairwise (h : Placed cs m.len) :
    (cs.flatMap SizeClass.areas).Pairwise fun r r' => r.2 ≤ r'.1 := by
  refine List.pairwise_flatMap.mpr ⟨fun c _ => SizeClass.areas_pairwise, h.apart.imp ?_⟩
  intro c c' hcc r hr r' hr'
  exact ((SizeClass.areas_bounds r hr).2.trans hcc).trans (SizeClass.areas_bounds r' hr').1

namespace Built

theorem capPerBuffer_eq (h : Built cs bm m) (hc : c ∈ cs) :
    m.get32 (createdList c.off c.n c.cap).capPerBuffer = c.cap := (h.free c hc).capWord

theorem slotAt_eq (h : Built cs bm m) (hc : c ∈ cs) (i : ℕ) :
    (createdList c.off c.n c.cap).slotAt m i = c.off + 36 + i * (c.cap + 20) := by
  unfold BufferList.slotAt
  rw [h.capPerBuffer_eq hc]
  rfl

theorem areas_eq (h : Built cs bm m) (hc : c ∈ cs) :
    (createdList c.off c.n c.cap).areas m = c.areas := by
  have hcap : m.get32 (createdList c.off c.n c.cap).cap = c.n := h.capWord c hc
  unfold BufferList.areas SizeClass.areas
  rw [hcap, h.capPerBuffer_eq hc]
  simp only [h.slotAt_eq hc]
  rfl

theorem manager_areas_eq (h : Built cs bm m) :
    bm.areas m = (0, 8) :: cs.flatMap SizeClass.areas := by
  unfold Manager.areas
  rw [h.lists, List.flatMap_map]
  exact congrArg _ (List.flatMap_congr fun c hc => h.areas_eq hc)

theorem le_off (h : Built cs bm m) : ∀ c ∈ cs, 8 ≤ c.off := fun _ hc => h.used.le_off hc

theorem freshSlot (h : Built cs bm m) (hc : c ∈ cs) {i : ℕ} (hi : i < c.n) :
    FreshSlot (createdList c.off c.n c.cap) m i := by
  have ho : i * (c.cap + 20) ∈ slotOffsets c.n c.cap := mem_slotOffsets.mpr ⟨i, hi, rfl⟩
  have hfree := h.free c hc
  have hcap := hfree.caps _ ho
  obtain ⟨hsize, hstart⟩ := hfree.reset _ ho
  have hpos := h.placed.pos c hc
  have hfit := h.placed.fits c hc
  have hsmall := h.placed.small
  have hle := slot_le ho
  unfold SizeClass.finish at hfit
  refine ⟨?_, ?_, ?_, ?_⟩ <;> rw [h.slotAt_eq hc]
  · rw [h.capPerBuffer_eq hc, hcap]
  · exact hsize
  · exact hstart
  · have hread := readBufferSlice_eq (m := m) (a := c.off + 36 + i * (c.cap + 20)) hsmall
      (by omega) (by rw [hcap]; omega)
    refine ⟨_, hread, ?_⟩
    show Data.shm _ (m.get32 (c.off + 36 + i * (c.cap + 20))) = _
    rw [h.capPerBuffer_eq hc, hcap]
    rfl

theorem adjacent (h : Built cs bm m) :
    Adjacent m bufferManagerHeaderSize bm.lists (bufferManagerHeaderSize + m.get32 bmCapOffset) := by
  have hall : ∀ (cs' : List SizeClass) (off used : ℕ), (∀ c ∈ cs', c ∈ cs) →
      Consecutive off cs' used →
      Adjacent m off (cs'.map fun c => createdList c.off c.n c.cap) used := by
    intro cs'
    induction cs' with
    | nil => exact fun _ _ _ hcons => hcons
    | cons c cs' ih =>
      intro off used hsub hcons
      rw [List.forall_mem_cons] at hsub
      obtain ⟨rfl, hrest⟩ := hcons
      refine ⟨rfl, ?_⟩
      have hcap : m.get32 (createdList c.off c.n c.cap).cap = c.n := h.capWord c hsub.1
      rw [hcap, h.capPerBuffer_eq hsub.1]
      exact ih _ _ hsub.2 hrest
  rw [h.lists]
  exact hall cs _ _ (fun _ hc => hc) h.used

/-- **The layout** of what `createBufferManager` has made. -/
theorem laidOut (h : Built cs bm m) : LaidOut bm m where
  inside := by
    rw [h.manager_areas_eq]
    intro r hr
    obtain ⟨c, cs', rfl⟩ := List.exists_cons_of_ne_nil h.nonempty
    rcases List.mem_cons.mp hr with rfl | hr
    · have := h.le_off c List.mem_cons_self
      have := h.placed.fits c List.mem_cons_self
      unfold SizeClass.finish at this
      simp only []
      omega
    · obtain ⟨c', hc', hr⟩ := List.mem_flatMap.mp hr
      exact (SizeClass.areas_bounds r hr).2.trans (h.placed.fits c' hc')
  disjoint := by
    rw [h.manager_areas_eq]
    refine List.pairwise_cons.mpr ⟨fun r hr => ?_, h.placed.areas_pairwise⟩
    obtain ⟨c, hc, hr⟩ := List.mem_flatMap.mp hr
    exact (h.le_off c hc).trans (SizeClass.areas_bounds r hr).1
  fresh b hb i hi := by
    rw [h.lists] at hb
    obtain ⟨c, hc, rfl⟩ := List.mem_map.mp hb
    have hcap : m.get32 (createdList c.off c.n c.cap).cap = c.n := h.capWord c hc
    exact h.freshSlot hc (hcap ▸ hi)
  free b hb := by
    rw [h.lists] at hb
    obtain ⟨c, hc, rfl⟩ := List.mem_map.mp hb
    have hcap : m.get32 (createdList c.off c.n c.cap).cap = c.n := h.capWord c hc
    have hsize : m.get32 (createdList c.off c.n c.cap).size = c.n := by
      rw [(h.placed.listAt hc).size, (h.free c hc).size]
      simp [slotOffsets]
    refine ⟨hsize.trans hcap.symm, ?_⟩
    rw [(h.free c hc).freeSlots_eq (h.placed.listAt hc), hcap]
    unfold slotOffsets
    rw [List.map_map]
    exact List.map_congr_left fun i _ => (h.slotAt_eq hc i).symm
  listNum := by rw [h.listNum, h.lists, List.length_map]
  used := h.adjacent

end Built

end LaidOut

/-- **Main theorem.** A manager that `createBufferManager` makes of accepted sizes in a memory
    below `2 ^ 31` bytes, whatever the memory held, is laid out as its users expect. -/
theorem new_manager_laid_out {p : Platform} {config : Config} {m m' : Mem} {bm : Manager}
    (hv : verifyConfig p config = .ok ()) (hcap : m.len = config.shareMemoryBufferCap)
    (hlen : m.len < 2 ^ 31)
    (h : createBufferManager config.bufferSliceSizes m 0 = .ok (.ok (m', bm))) :
    LaidOut bm m' ∧ m'.len = m.len := by
  obtain ⟨-, -, hsizes, hsum, -⟩ := (verifyConfig_ok_iff p config).mp hv
  obtain ⟨hbuilt, hlen'⟩ := createBufferManager_built
    (fun pair hpair => by have := (hsizes pair hpair).1; omega) (by omega) (by omega) h
  exact ⟨hbuilt.laidOut, hlen'⟩

/-- Two classes of one size and a larger one. -/
def threeClasses : Config :=
  { defaultConfig with
    shareMemoryBufferCap := 2 ^ 20
    bufferSliceSizes := [⟨65516, 25⟩, ⟨65516, 25⟩, ⟨262124, 50⟩] }

theorem new_manager_laid_out_three_classes :
    ∃ m bm, createBufferManager threeClasses.bufferSliceSizes (zeroMem (2 ^ 20)) 0 =
      .ok (.ok (m, bm)) ∧ bm.lists.length = 3 ∧ LaidOut bm m := by
  obtain ⟨m, bm, hc, hthree⟩ := exists_zeroManager threeClasses.bufferSliceSizes (2 ^ 20)
    (fun _ bm => bm.lists.length = 3) (by decide +kernel)
  have hv : verifyConfig ⟨"linux", "amd64"⟩ threeClasses = .ok () := by decide
  exact ⟨m, bm, hc, hthree, (new_manager_laid_out hv rfl (by decide) hc).1⟩

/-! ## Failure -/

section Total

variable {C S off : ℕ} {m m' : Mem} {b : BufferList} {pair : SizePercentPair}
  {pairs : List SizePercentPair}

/-- The loop, with the next list at `off`, comes to a class that it refuses and can create the
    lists before it. -/
def Refuses (len C : ℕ) : ℕ → List SizePercentPair → Prop
  | _, [] => False
  | off, pair :: pairs => u32 (pair.size + 20) ≠ 0 ∧
      (CreateRefused (bufferNum C pair) pair.size off len ∨
        Creates (bufferNum C pair) pair.size off len ∧
          Refuses len C (u32 (off + size32 (bufferNum C pair) pair.size)) pairs)

/-- The loop divides by the stride. -/
theorem createLists_stride_zero (hS : S + pair.percent ≤ 100) (h : u32 (pair.size + 20) = 0) :
    createLists C (pair :: pairs) S off m = .error .divideByZero := by
  rw [createLists, u32_of_lt (x := S + pair.percent) (by omega)]
  simp only [if_neg (show ¬ S + pair.percent > 100 by omega)]
  rw [bufferHeaderSize, if_pos h]
  rfl

/-- **The loop** returns an error exactly if it comes to a class that it refuses. -/
theorem createLists_error_iff : ∀ (pairs : List SizePercentPair) (S off : ℕ) (m : Mem),
    (∀ p ∈ pairs, p.size < 2 ^ 32) → S + (pairs.map (·.percent)).sum ≤ 100 → m.len < 2 ^ 32 →
    ((∃ e, createLists C pairs S off m = .ok (.error e)) ↔ Refuses m.len C off pairs) := by
  intro pairs
  induction pairs with
  | nil => exact fun S off m _ _ _ => iff_of_false (by simp [createLists]) id
  | cons pair pairs ih =>
    intro S off m hsizes hS hlen
    rw [List.map_cons, List.sum_cons] at hS
    rw [List.forall_mem_cons] at hsizes
    rw [Refuses]
    by_cases ht : u32 (pair.size + 20) = 0
    · rw [createLists_stride_zero (by omega) ht]
      exact iff_of_false (by simp) fun h => h.1 ht
    rw [createLists_eq (by omega) ht, and_iff_right ht]
    by_cases hr : CreateRefused (bufferNum C pair) pair.size off m.len
    · obtain ⟨e, he⟩ := (createFreeBufferList_error_iff hlen).mpr hr
      rw [he]
      exact iff_of_true ⟨_, rfl⟩ (.inl hr)
    rw [or_iff_right hr, ← createFreeBufferList_ok_iff hlen
      ((bufferNum_mul_le C pair).trans_lt (u32_lt _)) hsizes.1 hr]
    cases hc : createFreeBufferList (bufferNum C pair) pair.size m off with
    | error p => exact iff_of_false (by simp [Except.bind]) (by simp)
    | ok r =>
      obtain ⟨⟨m1, b⟩, rfl, hlen1⟩ := (createFreeBufferList_iff hlen hr).2 r hc
      rw [and_iff_right ⟨_, rfl⟩, ← show m1.len = m.len from hlen1,
        ← ih (S + pair.percent) _ m1 hsizes.2 (by omega) (hlen1 ▸ hlen)]
      simp only [Except.bind, countBufferListMemSize_size32]
      rcases createLists C pairs (S + pair.percent)
          (u32 (off + size32 (bufferNum C pair) pair.size)) m1 with p | e | q
      · simp
      · simp
      · simp

/-- Nothing wraps in the number of slots. -/
theorem bufferNum_exact (hC : C < 2 ^ 32) (hp : pair.percent ≤ 100)
    (hsize : pair.size + 20 < 2 ^ 32) :
    bufferNum C pair = C * pair.percent / 100 / (pair.size + 20) := by
  have hprod : C * pair.percent ≤ (2 ^ 32 - 1) * 100 := Nat.mul_le_mul (by omega) hp
  unfold bufferNum bufferHeaderSize
  rw [Nat.mod_eq_of_lt (by omega), u32_of_lt hsize, u32_of_lt (by omega)]

/-- The loop over classes that have room and whose strides do not wrap: it returns, with an
    error exactly if some class is empty. -/
theorem createLists_narrow (hC : C < 2 ^ 32) :
    ∀ (pairs : List SizePercentPair) (S off : ℕ) (m : Mem),
    (∀ p ∈ pairs, p.size + 20 < 2 ^ 32) → S + (pairs.map (·.percent)).sum ≤ 100 →
    m.len < 2 ^ 32 → off + 36 * pairs.length + C * (100 - S) / 100 ≤ m.len →
    (∃ e, createLists C pairs S off m = .ok (.error e)) ∧
        (∃ p ∈ pairs, p.size = 0 ∨ C * p.percent / 100 / (p.size + 20) = 0) ∨
      (∃ q, createLists C pairs S off m = .ok (.ok q) ∧ q.1.len = m.len) ∧
        ∀ p ∈ pairs, 0 < p.size ∧ 0 < C * p.percent / 100 / (p.size + 20) := by
  intro pairs
  induction pairs with
  | nil => exact fun S off m _ _ _ _ => .inr ⟨⟨_, rfl, rfl⟩, by simp⟩
  | cons pair pairs ih =>
    intro S off m hsizes hS hlen hfits
    rw [List.map_cons, List.sum_cons] at hS
    rw [List.forall_mem_cons] at hsizes
    have hS' : S + pair.percent ≤ 100 := by omega
    have hshare := share_fits hC hS' hfits
    rw [u32_of_lt hsizes.1] at hshare
    rw [createLists_eq hS' (by rw [u32_of_lt hsizes.1]; omega), List.forall_mem_cons,
      ← bufferNum_exact hC (by omega) hsizes.1]
    by_cases hr : bufferNum C pair = 0 ∨ pair.size = 0
    · rw [createFreeBufferList, if_pos hr]
      rw [bufferNum_exact hC (by omega) hsizes.1] at hr
      exact .inl ⟨⟨_, rfl⟩, pair, List.mem_cons_self, hr.symm⟩
    obtain ⟨m1, hc, hlen1, -⟩ := createFreeBufferList_spec (m := m) (n := bufferNum C pair)
      (by omega) (by omega) (by omega) (show off + 36 + _ * (pair.size + 20) ≤ _ by omega)
      (by rw [u32_of_lt hlen]; omega) (by rw [u32_of_lt hlen]; omega)
    rw [hc, countBufferListMemSize_eq hsizes.1, u32_of_lt (x := 36 + _) (by omega), ← Nat.add_assoc,
      u32_of_lt (x := off + 36 + _) (by omega)]
    simp only [Except.bind]
    rw [← hlen1] at hlen hshare
    rcases ih (S + pair.percent) _ m1 hsizes.2 (by omega) hlen hshare with
      ⟨⟨e, he⟩, p, hp, hno⟩ | ⟨⟨q, hq, hlen2⟩, hall⟩
    · rw [he]
      exact .inl ⟨⟨_, rfl⟩, p, List.mem_cons_of_mem _ hp, hno⟩
    · rw [hq]
      exact .inr ⟨⟨_, rfl, hlen2.trans hlen1⟩, by omega, hall⟩

/-- The slots that a class gets of a memory of `len` bytes, in exact arithmetic: its share of
    what the headers of the manager and of its `k` lists leave. -/
def slotsFor (len k : ℕ) (pair : SizePercentPair) : ℕ :=
  (len - 36 * k - 8) * pair.percent / 100 / (pair.size + 20)

theorem slotsFor_of_lt {len k : ℕ} (h : len < 36 * k + 8) : slotsFor len k pair = 0 := by
  rw [slotsFor, show len - 36 * k - 8 = 0 by omega]
  simp

/-- In exact arithmetic, a class whose stride wraps gets no slot. -/
theorem slotsFor_wide {len k : ℕ} (hlen : len < 2 ^ 32) (hp : pair.percent ≤ 100)
    (hsize : 2 ^ 32 ≤ pair.size + 20) : slotsFor len k pair = 0 := by
  have hprod : (len - 36 * k - 8) * pair.percent ≤ (2 ^ 32 - 1) * 100 :=
    Nat.mul_le_mul (by omega) hp
  exact Nat.div_eq_of_lt (by omega)

/-- Behind the loop there is no error. -/
theorem listsOf_of_error {e : ManagerError} (hpos : 0 < m.len)
    (h : createBufferManager pairs m 0 = .ok (.error e)) :
    ∃ e, listsOf pairs m = .ok (.error e) := by
  unfold createBufferManager at h
  rw [if_neg (by omega)] at h
  obtain ⟨r, hr, h⟩ := Go.bind_ok.mp h
  match r with
  | .error e => exact ⟨e, hr⟩
  | .ok (m2, bs, used) =>
    match hfirst : pairs.head?, hlast : pairs.getLast? with
    | none, _ => simp [hfirst] at h
    | some _, none => simp [hlast] at h
    | some _, some _ =>
      simp only [hfirst, hlast] at h
      obtain ⟨_, -, h⟩ := Go.bind_ok.mp h
      cases h

/-- The creation over the classes that it is asked for: it does not panic, and returns an error
    exactly if some class has size 0 or gets no slot. -/
def CreatesRight (pairs : List SizePercentPair) (len : ℕ) : Prop :=
  ∃ r, createBufferManager pairs (zeroMem len) 0 = .ok r ∧
    ((∃ e, r = .error e) ↔ ∃ pair ∈ pairs, pair.size = 0 ∨ slotsFor len pairs.length pair = 0)

theorem createsRight_narrow {len : ℕ} (hmin : 2 ^ 20 ≤ len) (hlen : len < 2 ^ 32)
    (hfit : 36 * pairs.length + 8 ≤ len) (hne : pairs ≠ [])
    (hsum : (pairs.map (·.percent)).sum = 100) (hsizes : ∀ p ∈ pairs, p.size + 20 < 2 ^ 32) :
    CreatesRight pairs len := by
  have hC : regionCap pairs (zeroMem len).len = len - 36 * pairs.length - 8 :=
    regionCap_eq hfit hlen
  have hloop := createLists_narrow (by omega) pairs 0 8 (listNumMem (zeroMem len) pairs.length)
    hsizes (by omega) hlen (show 8 + 36 * pairs.length +
      regionCap pairs (zeroMem len).len * (100 - 0) / 100 ≤ len by omega)
  rw [← listsOf, hC] at hloop
  rcases hloop with ⟨⟨e, he⟩, hbad⟩ | ⟨⟨q, hq, hlen2⟩, hgood⟩
  · exact ⟨_, createBufferManager_of_error (show 0 < len by omega) he, fun _ => hbad,
      fun _ => ⟨e, rfl⟩⟩
  · obtain ⟨first, rest, rfl⟩ := List.exists_cons_of_ne_nil hne
    refine ⟨_, createBufferManager_of_ok hq hlen2 (show 4 < len by omega) rfl
      (List.getLast?_eq_getLast_of_ne_nil hne), fun ⟨e, he⟩ => (nomatch he), ?_⟩
    rintro ⟨pair, hpair, hzero⟩
    obtain ⟨hsize, hslots⟩ := hgood pair hpair
    exact absurd hzero (not_or.mpr ⟨hsize.ne', hslots.ne'⟩)

/-- With an empty class, the creation has to return an error. -/
theorem createsRight_iff_of_empty {len : ℕ}
    (h : ∃ pair ∈ pairs, pair.size = 0 ∨ slotsFor len pairs.length pair = 0) :
    CreatesRight pairs len ↔ ∃ e, createBufferManager pairs (zeroMem len) 0 = .ok (.error e) := by
  constructor
  · rintro ⟨r, hr, hiff⟩
    obtain ⟨e, rfl⟩ := hiff.mpr h
    exact ⟨e, hr⟩
  · rintro ⟨e, he⟩
    exact ⟨_, he, fun _ => h, fun _ => ⟨e, rfl⟩⟩

end Total

/-- **Main theorem.** For an accepted configuration, `createBufferManager` does not panic and
    returns an error exactly if some class has size 0 or gets no slot, if and only if: the
    list headers fit and each slot with its header has a 32-bit size, or the loop comes to a
    class that it refuses before one that it cannot create. -/
theorem createBufferManager_exact_iff {p : Platform} {config : Config}
    (hv : verifyConfig p config = .ok ()) (hlen : config.shareMemoryBufferCap < 2 ^ 32) :
    CreatesRight config.bufferSliceSizes config.shareMemoryBufferCap ↔
      (36 * config.bufferSliceSizes.length + 8 ≤ config.shareMemoryBufferCap ∧
        ∀ pair ∈ config.bufferSliceSizes, pair.size + 20 < 2 ^ 32) ∨
      Refuses config.shareMemoryBufferCap
        (regionCap config.bufferSliceSizes config.shareMemoryBufferCap) 8
        config.bufferSliceSizes := by
  obtain ⟨hmin, hne, hsizes, hsum, -⟩ := (verifyConfig_ok_iff p config).mp hv
  generalize config.shareMemoryBufferCap = len at *
  generalize config.bufferSliceSizes = pairs at *
  by_cases hnarrow : 36 * pairs.length + 8 ≤ len ∧ ∀ pair ∈ pairs, pair.size + 20 < 2 ^ 32
  · exact iff_of_true (createsRight_narrow hmin hlen hnarrow.1 hne hsum hnarrow.2)
      (.inl hnarrow)
  -- otherwise some class gets no slot, so an error is asked for
  have hempty : ∃ pair ∈ pairs, pair.size = 0 ∨ slotsFor len pairs.length pair = 0 := by
    by_cases hfit : 36 * pairs.length + 8 ≤ len
    · have hwide := not_and.mp hnarrow hfit
      push Not at hwide
      obtain ⟨wide, hwide, hsize⟩ := hwide
      have hpercent : wide.percent ≤ (pairs.map (·.percent)).sum :=
        List.single_le_sum (fun _ _ => Nat.zero_le _) _ (List.mem_map_of_mem hwide)
      exact ⟨wide, hwide, .inr (slotsFor_wide hlen (by omega) hsize)⟩
    · obtain ⟨pair, hpair⟩ := List.exists_mem_of_ne_nil pairs hne
      exact ⟨pair, hpair, .inr (slotsFor_of_lt (by omega))⟩
  rw [or_iff_right hnarrow, createsRight_iff_of_empty hempty]
  have hloop := createLists_error_iff (C := regionCap pairs len) pairs 0 8
    (listNumMem (zeroMem len) pairs.length)
    (fun p hp => by have := (hsizes p hp).1; omega) (by omega) hlen
  have hpos : 0 < (zeroMem len).len := show 0 < len by omega
  exact Iff.trans ⟨fun ⟨e, he⟩ => listsOf_of_error hpos he,
    fun ⟨e, he⟩ => ⟨e, createBufferManager_of_error hpos he⟩⟩ hloop

/-- The same with an empty class in front. -/
def emptyClass : Config :=
  { threeClasses with bufferSliceSizes := [⟨16, 0⟩, ⟨65516, 50⟩, ⟨262124, 50⟩] }

/-- A size of 0 in front of one whose stride wraps to 0. -/
def zeroBeforeWide : Config :=
  { defaultConfig with
    shareMemoryBufferCap := 2 ^ 32 - 1
    bufferSliceSizes := [⟨0, 50⟩, ⟨2 ^ 32 - 20, 50⟩] }

/-- Three classes with slots are created, a class of no percent is refused, and a size of 0 is
    refused before the loop divides by the stride behind it. -/
theorem createBufferManager_exact_three_classes :
    (∃ q, createBufferManager threeClasses.bufferSliceSizes
      (zeroMem threeClasses.shareMemoryBufferCap) 0 = .ok (.ok q)) ∧
    (∃ e, createBufferManager emptyClass.bufferSliceSizes
      (zeroMem emptyClass.shareMemoryBufferCap) 0 = .ok (.error e)) ∧
    ∃ e, createBufferManager zeroBeforeWide.bufferSliceSizes
      (zeroMem zeroBeforeWide.shareMemoryBufferCap) 0 = .ok (.error e) := by
  have hv : verifyConfig ⟨"linux", "amd64"⟩ threeClasses = .ok () := by decide
  have hv' : verifyConfig ⟨"linux", "amd64"⟩ emptyClass = .ok () := by decide
  have hv'' : verifyConfig ⟨"linux", "amd64"⟩ zeroBeforeWide = .ok () := by decide
  obtain ⟨r, hr, hiff⟩ := (createBufferManager_exact_iff hv (by decide)).mpr
    (.inl (by decide))
  obtain ⟨r', hr', hiff'⟩ := (createBufferManager_exact_iff hv' (by decide)).mpr
    (.inl (by decide))
  obtain ⟨r'', hr'', hiff''⟩ := (createBufferManager_exact_iff hv'' (by decide)).mpr
    (.inr ⟨by decide, .inl (.inl (.inr rfl))⟩)
  refine ⟨?_, ?_, ?_⟩
  · cases r with
    | error e => exact absurd (hiff.mp ⟨e, rfl⟩) (by decide)
    | ok q => exact ⟨q, hr⟩
  · obtain ⟨e, rfl⟩ := hiff'.mpr (by decide)
    exact ⟨e, hr'⟩
  · obtain ⟨e, rfl⟩ := hiff''.mpr (by decide)
    exact ⟨e, hr''⟩

/-- One class whose slots, with their header, have `2 ^ 32` bytes. -/
def wideSlots : Config :=
  { defaultConfig with
    shareMemoryBufferCap := 2 ^ 32 - 1
    bufferSliceSizes := [⟨2 ^ 32 - 20, 100⟩] }

/-- **Counterexample.** The size and its header add up to 0 in 32 bits. -/
theorem slot_size_divides_by_zero :
    verifyConfig ⟨"linux", "amd64"⟩ wideSlots = .ok () ∧ wideSlots.shareMemoryBufferCap < 2 ^ 32 ∧
      Panics (createBufferManager wideSlots.bufferSliceSizes
        (zeroMem wideSlots.shareMemoryBufferCap) 0) .divideByZero :=
  ⟨by decide, by decide, by decide⟩

end Shmipc.Buffer
