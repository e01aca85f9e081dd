import Shmipc.Buffer.Heap
import Shmipc.Buffer.SizeChecks

/-!
# The created buffer manager

`createBufferManager` shares the memory out among the size classes by their
percents. With ascending sizes that leave room for the slot header in 32 bits, its
arithmetic does not wrap in a creation that succeeds.

* `createBufferManager_built`: the lists lie one behind the other and all slots are free.
* `createBufferManager_created`: the same with ascending sizes, as the rest of the
  development uses it.
-/

namespace Shmipc.Buffer

open Common

section

variable {n cap off : ℕ} {m m' : Mem} {b : BufferList} {bm : Manager}

theorem createFreeBufferList_pos (h : createFreeBufferList n cap m off = .ok (.ok (m', b))) :
    0 < n ∧ 0 < cap := by
  have hno := not_refused h
  unfold CreateRefused at hno
  omega

/-- The checks of the creation, where the memory is so small that its offsets do not wrap. -/
theorem createFreeBufferList_fits (h : createFreeBufferList n cap m off = .ok (.ok (m', b)))
    (hn : n * (cap + 20) < 2 ^ 32) (hlen : m.len + 36 < 2 ^ 32) :
    off + 36 + n * (cap + 20) ≤ m.len := by
  have hno := not_refused h
  unfold CreateRefused bufferListHeaderSize at hno
  rw [countBufferListMemSize_size32] at hno
  unfold size32 u32 at hno
  omega

/-- The number of slots of a class. -/
def bufferNum (C : ℕ) (pair : SizePercentPair) : ℕ :=
  u32 (C * pair.percent % 2 ^ 64 / 100) / u32 (pair.size + bufferHeaderSize)

theorem bufferNum_mul_le (C : ℕ) (pair : SizePercentPair) :
    bufferNum C pair * u32 (pair.size + 20) ≤ u32 (C * pair.percent % 2 ^ 64 / 100) :=
  Nat.div_mul_le_self _ _

theorem createLists_eq {C S : ℕ} {pair : SizePercentPair} {pairs : List SizePercentPair}
    (hS : S + pair.percent ≤ 100) (hsize : u32 (pair.size + 20) ≠ 0) :
    createLists C (pair :: pairs) S off m =
      (createFreeBufferList (bufferNum C pair) pair.size m off).bind fun
        | .error e => .ok (.error (.list e))
        | .ok (m1, b) =>
          (createLists C pairs (S + pair.percent)
            (u32 (off + countBufferListMemSize (bufferNum C pair) pair.size)) m1).bind fun
            | .error e => .ok (.error e)
            | .ok (m2, bs, used) => .ok (.ok (m2, b :: bs, used)) := by
  rw [createLists, u32_of_lt (x := S + pair.percent) (by omega)]
  simp only [if_neg (show ¬ S + pair.percent > 100 by omega)]
  rw [bufferHeaderSize, if_neg hsize, ← bufferHeaderSize, ← bufferNum]
  rfl

theorem createLists_cons {C S used : ℕ} {pair : SizePercentPair} {pairs : List SizePercentPair}
    {bs : List BufferList} (hS : S + pair.percent ≤ 100) (hsize : pair.size + 20 < 2 ^ 32)
    (h : createLists C (pair :: pairs) S off m = .ok (.ok (m', bs, used))) :
    ∃ m1 b bs', createFreeBufferList (bufferNum C pair) pair.size m off = .ok (.ok (m1, b)) ∧
      createLists C pairs (S + pair.percent)
        (u32 (off + countBufferListMemSize (bufferNum C pair) pair.size)) m1 =
          .ok (.ok (m', bs', used)) ∧ bs = b :: bs' := by
  rw [createLists_eq hS (by rw [u32_of_lt hsize]; omega)] at h
  match hc : createFreeBufferList (bufferNum C pair) pair.size m off with
  | .error e => rw [hc] at h; cases h
  | .ok (.error e) => rw [hc] at h; cases h
  | .ok (.ok (m1, b)) =>
    rw [hc] at h
    simp only [Except.bind] at h
    match hl : createLists C pairs (S + pair.percent)
        (u32 (off + countBufferListMemSize (bufferNum C pair) pair.size)) m1 with
    | .error e => rw [hl] at h; cases h
    | .ok (.error e) => rw [hl] at h; cases h
    | .ok (.ok (m2, bs', used')) =>
      rw [hl] at h
      cases h
      exact ⟨m1, b, bs', rfl, hl, rfl⟩

/-- What the loop of the creation knows of the offset: there is room for the rest, or
    the memory is so small that the checks of each list do not wrap. -/
def Room (C S off k len : ℕ) : Prop :=
  C < 2 ^ 32 ∧ off + 36 * k + C * (100 - S) / 100 ≤ len ∨ len + 36 < 2 ^ 32

/-- The share of a class, rounded down, leaves room for the other classes. -/
theorem share_fits {C S k len : ℕ} {pair : SizePercentPair} (hC : C < 2 ^ 32)
    (hS : S + pair.percent ≤ 100) (h : off + 36 * (k + 1) + C * (100 - S) / 100 ≤ len) :
    off + 36 + bufferNum C pair * u32 (pair.size + 20) + 36 * k +
      C * (100 - (S + pair.percent)) / 100 ≤ len := by
  have hmul := bufferNum_mul_le C pair
  have hprod : C * pair.percent ≤ (2 ^ 32 - 1) * 100 := Nat.mul_le_mul (by omega) (by omega)
  rw [Nat.mod_eq_of_lt (by omega), u32_of_lt (x := C * pair.percent / 100) (by omega)] at hmul
  have hsplit : C * pair.percent / 100 + C * (100 - (S + pair.percent)) / 100 ≤
      C * (100 - S) / 100 := by
    refine Nat.div_add_div_le_add_div.trans (le_of_eq ?_)
    rw [← Nat.mul_add]
    congr 2
    omega
  omega

theorem Room.fits {C S k : ℕ} {pair : SizePercentPair} (h : Room C S off (k + 1) m.len)
    (hS : S + pair.percent ≤ 100) (hsize : pair.size + 20 < 2 ^ 32)
    (hc : createFreeBufferList (bufferNum C pair) pair.size m off = .ok (.ok (m', b))) :
    off + 36 + bufferNum C pair * (pair.size + 20) ≤ m.len ∧
      Room C (S + pair.percent) (off + 36 + bufferNum C pair * (pair.size + 20)) k m.len := by
  rcases h with ⟨hC, hroom⟩ | hlen
  · have hshare := share_fits hC hS hroom
    rw [u32_of_lt hsize] at hshare
    exact ⟨by omega, .inl ⟨hC, hshare⟩⟩
  · have hmul := bufferNum_mul_le C pair
    rw [u32_of_lt hsize] at hmul
    exact ⟨createFreeBufferList_fits hc (hmul.trans_lt (u32_lt _)) hlen, .inr hlen⟩

/-- The classes that the loop lays out from `off` on. -/
def layoutOf (C : ℕ) : List SizePercentPair → ℕ → List SizeClass
  | [], _ => []
  | pair :: pairs, off => ⟨off, bufferNum C pair, pair.size⟩ ::
      layoutOf C pairs (off + 36 + bufferNum C pair * (pair.size + 20))

theorem layoutOf_caps {C : ℕ} : ∀ (pairs : List SizePercentPair) (off : ℕ),
    (layoutOf C pairs off).map (·.cap) = pairs.map (·.size)
  | [], _ => rfl
  | pair :: pairs, _ => congrArg (pair.size :: ·) (layoutOf_caps pairs _)

/-- The classes lie one behind the other, from `off` to `used`. -/
def Consecutive : ℕ → List SizeClass → ℕ → Prop
  | off, [], used => used = off
  | off, c :: cs, used => c.off = off ∧ Consecutive c.finish cs used

theorem Consecutive.le_len {used len : ℕ} : ∀ {cs : List SizeClass} {off : ℕ},
    Consecutive off cs used → (∀ c ∈ cs, c.finish ≤ len) → cs ≠ [] → used ≤ len
  | [], _, _, _, hne => absurd rfl hne
  | [c], _, h, hle, _ => by
    have hused : used = c.finish := h.2
    rw [hused]
    exact hle c List.mem_cons_self
  | _ :: c :: cs, _, h, hle, _ => by
    have hrest : Consecutive _ (c :: cs) used := h.2
    exact hrest.le_len (fun c hc => hle c (List.mem_cons_of_mem _ hc)) (by simp)

theorem Consecutive.le {used : ℕ} : ∀ {cs : List SizeClass} {off : ℕ},
    Consecutive off cs used → off ≤ used
  | [], _, h => le_of_eq h.symm
  | c :: _, _, h => by
    have hrest := Consecutive.le h.2
    have hoff := h.1
    unfold SizeClass.finish at hrest
    omega

theorem Consecutive.le_off {used : ℕ} : ∀ {cs : List SizeClass} {off : ℕ},
    Consecutive off cs used → ∀ {c : SizeClass}, c ∈ cs → off ≤ c.off
  | c :: cs, off, h, c', hc' => by
    obtain ⟨rfl, hrest⟩ := h
    rcases List.mem_cons.mp hc' with rfl | hc'
    · exact le_rfl
    · have := Consecutive.le_off hrest hc'
      unfold SizeClass.finish at this
      omega

/-- What the loop makes of the memory `m` from `off` to `used`. -/
structure Laid (cs : List SizeClass) (m m' : Mem) (off used : ℕ) (bs : List BufferList) :
    Prop where
  lists : bs = cs.map fun c => createdList c.off c.n c.cap
  free : ∀ c ∈ cs, FreeInv c.off c.n c.cap m' (slotOffsets c.n c.cap)
  room : ∀ c ∈ cs, off ≤ c.off ∧ c.finish ≤ m.len ∧ 0 < c.cap
  capWord : ∀ c ∈ cs, m'.get32 (c.off + 4) = c.n
  counter : ∀ c ∈ cs, m'.get32 (c.off + 20) = 0
  apart : cs.Pairwise fun c c' => c.finish ≤ c'.off
  consecutive : Consecutive off cs used
  len : m'.len = m.len
  same : m.SameOn m' 0 off

theorem createLists_spec {C : ℕ} (pairs : List SizePercentPair) :
    ∀ (S off : ℕ) (m m' : Mem) (bs : List BufferList) (used : ℕ),
    (∀ p ∈ pairs, p.size + 20 < 2 ^ 32) → S + (pairs.map (·.percent)).sum ≤ 100 →
    m.len < 2 ^ 32 → Room C S off pairs.length m.len →
    createLists C pairs S off m = .ok (.ok (m', bs, used)) →
    Laid (layoutOf C pairs off) m m' off used bs := by
  induction pairs with
  | nil =>
    intro S off m m' bs used _ _ _ _ h
    cases h
    exact ⟨rfl, by simp [layoutOf], by simp [layoutOf], by simp [layoutOf], by simp [layoutOf],
      .nil, rfl, rfl, Mem.SameOn.refl m 0 off⟩
  | cons pair pairs ih =>
    intro S off m m' bs used hsizes hS hlen hroom h
    rw [List.map_cons, List.sum_cons] at hS
    have hsize := hsizes pair List.mem_cons_self
    obtain ⟨m1, b, bs', hc, hrest, rfl⟩ := createLists_cons (by omega) hsize h
    obtain ⟨hn, hcap⟩ := createFreeBufferList_pos hc
    obtain ⟨hfit, hroom'⟩ := hroom.fits (by omega) hsize hc
    obtain ⟨m1', hc', hlen1, hfree, hout, hw4, hw20⟩ := createFreeBufferList_spec hn hcap
      (by omega) hfit (by rw [u32_of_lt hlen]; omega) (by rw [u32_of_lt hlen]; omega)
    rw [hc'] at hc
    cases hc
    rw [countBufferListMemSize_eq hsize, u32_of_lt (x := 36 + _) (by omega), ← Nat.add_assoc,
      u32_of_lt (by omega)] at hrest
    have hl := ih _ _ m1 m' bs' used (fun p hp => hsizes p (List.mem_cons_of_mem _ hp)) (by omega)
      (hlen1 ▸ hlen) (hlen1 ▸ hroom') hrest
    refine ⟨congrArg (createdList off (bufferNum C pair) pair.size :: ·) hl.lists, ?_, ?_, ?_, ?_,
      ?_, ⟨rfl, hl.consecutive⟩, hl.len.trans hlen1, ?_⟩
    · refine List.forall_mem_cons.mpr ⟨?_, hl.free⟩
      exact FreeInv.of_sameOn (c := ⟨off, bufferNum C pair, pair.size⟩) hfree hl.len
        (hl.same.mono (by omega) le_rfl)
    · refine List.forall_mem_cons.mpr ⟨⟨le_rfl, hfit, hcap⟩, fun c hc => ?_⟩
      obtain ⟨h1, h2, h3⟩ := hl.room c hc
      exact ⟨by omega, hlen1 ▸ h2, h3⟩
    · refine List.forall_mem_cons.mpr ⟨?_, hl.capWord⟩
      exact (Mem.get32_congr (hl.same.mono (by omega) (by simp only []; omega))).trans hw4
    · refine List.forall_mem_cons.mpr ⟨?_, hl.counter⟩
      exact (Mem.get32_congr (hl.same.mono (by omega) (by simp only []; omega))).trans hw20
    · exact List.pairwise_cons.mpr ⟨fun c hc => (hl.room c hc).1, hl.apart⟩
    · exact (hout 0 off (by omega)).trans (hl.same.mono le_rfl (by omega))

theorem createLists_length {C : ℕ} (pairs : List SizePercentPair) :
    ∀ (S off : ℕ) (m m' : Mem) (bs : List BufferList) (used : ℕ),
    (∀ p ∈ pairs, p.size + 20 < 2 ^ 32) → S + (pairs.map (·.percent)).sum ≤ 100 →
    createLists C pairs S off m = .ok (.ok (m', bs, used)) → S + pairs.length ≤ 100 := by
  induction pairs with
  | nil => intro S off m m' bs used _ hS _; simpa using hS
  | cons pair pairs ih =>
    intro S off m m' bs used hsizes hS h
    rw [List.map_cons, List.sum_cons] at hS
    rw [List.forall_mem_cons] at hsizes
    obtain ⟨m1, b, bs', hc, hrest, -⟩ := createLists_cons (by omega) hsizes.1 h
    have hn := (createFreeBufferList_pos hc).1
    have hp : 0 < pair.percent := by
      by_contra h0
      rw [bufferNum, Nat.le_zero.mp (Nat.not_lt.mp h0)] at hn
      simp [u32] at hn
    have := ih _ _ m1 m' bs' used hsizes.2 (by omega) hrest
    simp only [List.length_cons]
    omega

/-- The capacity that the classes share. -/
def regionCap (pairs : List SizePercentPair) (len : ℕ) : ℕ :=
  (((len : ℤ) - (0 : ℕ) - bufferListHeaderSize * pairs.length - bufferManagerHeaderSize) %
    2 ^ 64).toNat

def classesOf (pairs : List SizePercentPair) (len : ℕ) : List SizeClass :=
  layoutOf (regionCap pairs len) pairs 8

/-- The memory after the number of lists is written. -/
def listNumMem (m : Mem) (k : ℕ) : Mem :=
  (m.set8 0 (UInt8.ofNat k)).set8 1 (UInt8.ofNat (k / 256))

section Manager

variable {pairs : List SizePercentPair} {m2 : Mem} {bs : List BufferList} {used : ℕ}
  {first last : SizePercentPair}

/-- The loop, as `createBufferManager` starts it. -/
def listsOf (pairs : List SizePercentPair) (m : Mem) :
    Go (Except ManagerError (Mem × List BufferList × ℕ)) :=
  createLists (regionCap pairs m.len) pairs 0 8 (listNumMem m pairs.length)

theorem createBufferManager_of_error {e : ManagerError} (hpos : 0 < m.len)
    (h : listsOf pairs m = .ok (.error e)) : createBufferManager pairs m 0 = .ok (.error e) := by
  unfold createBufferManager
  rw [if_neg (by omega)]
  unfold listsOf at h
  change (createLists (regionCap pairs m.len) pairs 0 8 (listNumMem m pairs.length)).bind _ = _
  rw [h]
  rfl

theorem createBufferManager_of_ok (h : listsOf pairs m = .ok (.ok (m2, bs, used)))
    (hlen : m2.len = m.len) (h4 : 4 < m.len) (hfirst : pairs.head? = some first)
    (hlast : pairs.getLast? = some last) :
    createBufferManager pairs m 0 =
      .ok (.ok (m2.set32 4 (u32 (used + (2 ^ 32 - 8))), ⟨bs, first.size, last.size⟩)) := by
  unfold createBufferManager
  rw [if_neg (by omega)]
  unfold listsOf at h
  change (createLists (regionCap pairs m.len) pairs 0 8 (listNumMem m pairs.length)).bind _ = _
  rw [h, hfirst, hlast]
  show (checkIndex m2.len 4).bind _ = _
  rw [checkIndex_ok (by omega)]
  rfl

theorem createBufferManager_inv (h : createBufferManager pairs m 0 = .ok (.ok (m', bm))) :
    ∃ m2 bs used first last, listsOf pairs m = .ok (.ok (m2, bs, used)) ∧
      pairs.head? = some first ∧ pairs.getLast? = some last ∧
      m' = m2.set32 4 (u32 (used + (2 ^ 32 - 8))) ∧ bm = ⟨bs, first.size, last.size⟩ ∧
      4 < m2.len := by
  have hpos : 0 < m.len := by
    by_contra h0
    rw [createBufferManager, if_pos (by omega)] at h
    cases h
  match hl : listsOf pairs m with
  | .error e =>
    unfold createBufferManager at h
    rw [if_neg (by omega)] at h
    change (listsOf pairs m).bind _ = _ at h
    rw [hl] at h
    cases h
  | .ok (.error e) =>
    rw [createBufferManager_of_error hpos hl] at h
    cases h
  | .ok (.ok (m2, bs, used)) =>
    unfold createBufferManager at h
    rw [if_neg (by omega)] at h
    change (listsOf pairs m).bind _ = _ at h
    rw [hl] at h
    match hfirst : pairs.head?, hlast : pairs.getLast? with
    | none, _ => rw [hfirst] at h; cases h
    | some first, none => rw [hfirst, hlast] at h; cases h
    | some first, some last =>
      rw [hfirst, hlast] at h
      have h' : (checkIndex m2.len 4).bind (fun _ => (.ok (.ok (m2.set32 4
          (u32 (used + (2 ^ 32 - 8))), (⟨bs, first.size, last.size⟩ : Manager))) :
            Go (Except ManagerError (Mem × Manager)))) = .ok (.ok (m', bm)) := h
      by_cases h4 : 4 < m2.len
      · rw [checkIndex_ok h4] at h'
        cases h'
        exact ⟨m2, bs, used, first, last, rfl, rfl, rfl, rfl, rfl, h4⟩
      · rw [checkIndex, if_neg h4] at h'
        cases h'

/-- Where the list headers fit in the memory, the classes share what is left. -/
theorem regionCap_eq (h : 36 * pairs.length + 8 ≤ m.len) (hlen : m.len < 2 ^ 32) :
    regionCap pairs m.len = m.len - 36 * pairs.length - 8 := by
  rw [regionCap, bufferListHeaderSize, bufferManagerHeaderSize]
  omega

theorem room_start (hlen : m.len < 2 ^ 32)
    (h : 36 * pairs.length + 8 ≤ m.len ∨ m.len + 36 < 2 ^ 32) :
    Room (regionCap pairs m.len) 0 8 pairs.length m.len := by
  by_cases hneg : 36 * pairs.length + 8 ≤ m.len
  · have hC := regionCap_eq hneg hlen
    left
    omega
  · right
    omega

/-- The memory and the manager that `createBufferManager` makes, with the sizes in any
    order. -/
structure Built (cs : List SizeClass) (bm : Manager) (m : Mem) : Prop where
  placed : Placed cs m.len
  lists : bm.lists = cs.map fun c => createdList c.off c.n c.cap
  nonempty : cs ≠ []
  minSliceSize : cs.head?.map (·.cap) = some bm.minSliceSize
  maxSliceSize : cs.getLast?.map (·.cap) = some bm.maxSliceSize
  free : ∀ c ∈ cs, FreeInv c.off c.n c.cap m (slotOffsets c.n c.cap)
  capWord : ∀ c ∈ cs, m.get32 (c.off + 4) = c.n
  counter : ∀ c ∈ cs, m.get32 (c.off + 20) = 0
  /-- The manager's own header: the number of lists, and how far they reach. -/
  listNum : (m.byte 0).toNat + 2 ^ 8 * (m.byte 1).toNat = cs.length
  used : Consecutive 8 cs (8 + m.get32 4)

/-- The bytes of the number of lists are behind the loop as they were before it. -/
theorem listNum_eq {k : ℕ} (hk : k < 2 ^ 16) (hsame : (listNumMem m k).SameOn m' 0 2) :
    (m'.byte 0).toNat + 2 ^ 8 * (m'.byte 1).toNat = k := by
  have hb0 : m'.byte 0 = UInt8.ofNat k := by
    rw [hsame 0 (by omega) (by omega), listNumMem, Mem.byte_set8_of_ne (by omega), Mem.byte_set8_self]
  have hb1 : m'.byte 1 = UInt8.ofNat (k / 256) := by
    rw [hsame 1 (by omega) (by omega)]
    exact Mem.byte_set8_self
  rw [hb0, hb1, UInt8.toNat_ofNat', UInt8.toNat_ofNat']
  omega

/-- **The built manager**: with sizes that leave room for the slot header in 32 bits, its
    lists lie one behind the other and all slots are free. -/
theorem createBufferManager_built (hsizes : ∀ p ∈ pairs, p.size + 20 < 2 ^ 32)
    (hsum : (pairs.map (·.percent)).sum ≤ 100) (hlen : m.len < 2 ^ 32)
    (h : createBufferManager pairs m 0 = .ok (.ok (m', bm))) :
    Built (classesOf pairs m.len) bm m' ∧ m'.len = m.len := by
  obtain ⟨m2, bs, used, first, last, hl, hfirst, hlast, rfl, rfl, h4⟩ := createBufferManager_inv h
  have hk := createLists_length pairs 0 8 _ m2 bs used hsizes (by omega) hl
  have hroom : Room (regionCap pairs m.len) 0 8 pairs.length m.len := room_start hlen (by omega)
  have hlaid := createLists_spec pairs 0 8 (listNumMem m pairs.length) m2 bs used hsizes (by omega)
    hlen hroom hl
  have hcaps := layoutOf_caps (C := regionCap pairs m.len) pairs 8
  rw [← classesOf] at hlaid hcaps
  generalize classesOf pairs m.len = cs at hcaps hlaid ⊢
  have hlen2 : m2.len = m.len := hlaid.len
  have hne : cs ≠ [] := by
    rintro rfl
    cases pairs with
    | nil => cases hfirst
    | cons _ _ => cases hcaps
  have hfits : ∀ c ∈ cs, c.finish ≤ m.len := fun c hc => (hlaid.room c hc).2.1
  have hused := hlaid.consecutive.le_len hfits hne
  have h8 := hlaid.consecutive.le
  have hword : u32 (used + (2 ^ 32 - 8)) = used - 8 := by
    unfold u32
    omega
  rw [hword]
  -- the write of the reach of the lists comes before all of them
  have hsame : ∀ {lo hi}, 8 ≤ lo ∨ hi ≤ 4 → m2.SameOn (m2.set32 4 (used - 8)) lo hi :=
    fun hr => Mem.set32_sameOn hr
  have hlen' : (m2.set32 4 (used - 8)).len = m.len := hlen2
  refine ⟨⟨⟨fun c hc => ?_, fun c hc => (hlaid.room c hc).2.2, ?_, hlaid.apart⟩,
    hlaid.lists, hne, ?_, ?_, fun c hc => ?_, fun c hc => ?_, fun c hc => ?_, ?_, ?_⟩, hlen'⟩
  · rw [hlen']
    exact hfits c hc
  · rw [hlen']
    exact hlen
  · rw [← List.head?_map, hcaps, List.head?_map, hfirst]
    rfl
  · rw [← List.getLast?_map, hcaps, List.getLast?_map, hlast]
    rfl
  · exact (hlaid.free c hc).of_sameOn rfl (hsame (.inl (hlaid.room c hc).1))
  · have := (hlaid.room c hc).1
    exact (Mem.get32_congr (hsame (by omega))).trans (hlaid.capWord c hc)
  · have := (hlaid.room c hc).1
    exact (Mem.get32_congr (hsame (by omega))).trans (hlaid.counter c hc)
  · have hnum : cs.length = pairs.length := by
      rw [← List.length_map (·.cap), hcaps, List.length_map]
    rw [hnum]
    have htwo : (listNumMem m pairs.length).SameOn m2 0 2 := hlaid.same.mono le_rfl (by omega)
    exact listNum_eq (by omega) (htwo.trans (hsame (by omega)))
  · rw [Mem.get32_set32_of_lt (by omega), show 8 + (used - 8) = used by omega]
    exact hlaid.consecutive

end Manager

/-- The memory and the manager that `createBufferManager` makes of ascending sizes. -/
structure Created (cs : List SizeClass) (bm : Manager) (m : Mem) : Prop extends Built cs bm m where
  ascending : cs.Pairwise fun c c' => c.cap < c'.cap

theorem Created.layout {cs : List SizeClass} (h : Created cs bm m) : Layout cs m.len :=
  ⟨h.placed, h.ascending⟩

/-- **The created manager**: the same with ascending sizes. -/
theorem createBufferManager_created {pairs : List SizePercentPair}
    (hsizes : ∀ p ∈ pairs, p.size + 20 < 2 ^ 32)
    (hasc : pairs.Pairwise fun p p' => p.size < p'.size)
    (hsum : (pairs.map (·.percent)).sum ≤ 100) (hlen : m.len < 2 ^ 32)
    (h : createBufferManager pairs m 0 = .ok (.ok (m', bm))) :
    Created (classesOf pairs m.len) bm m' ∧ m'.len = m.len := by
  obtain ⟨hbuilt, hlen'⟩ := createBufferManager_built hsizes hsum hlen h
  have hcaps := layoutOf_caps (C := regionCap pairs m.len) pairs 8
  have hsorted : ((classesOf pairs m.len).map (·.cap)).Pairwise (· < ·) :=
    hcaps ▸ List.pairwise_map.mpr hasc
  exact ⟨⟨hbuilt, List.pairwise_map.mp hsorted⟩, hlen'⟩

theorem le_last_of_ascending {cs : List SizeClass} {max : ℕ}
    (hasc : cs.Pairwise fun c c' => c.cap ≤ c'.cap) (h : cs.getLast?.map (·.cap) = some max) :
    ∀ c ∈ cs, c.cap ≤ max := by
  obtain ⟨last, hlast, hmax⟩ := Option.map_eq_some_iff.mp h
  obtain ⟨init, rfl⟩ := List.getLast?_eq_some_iff.mp hlast
  intro c hc
  rw [← hmax]
  rcases List.mem_append.mp hc with hc | hc
  · exact (List.pairwise_append.mp hasc).2.2 c hc last (by simp)
  · rw [List.mem_singleton.mp hc]

theorem Placed.listAt {cs : List SizeClass} {c : SizeClass} {len : ℕ} (h : Placed cs len)
    (hc : c ∈ cs) : ListAt (createdList c.off c.n c.cap) c.off c.n c.cap := by
  have hfit := h.fits c hc
  have hsmall := h.small
  unfold SizeClass.finish at hfit
  exact createdList_listAt (by omega)

theorem Created.managerOk {cs : List SizeClass} (h : Created cs bm m) : ManagerOk cs bm where
  lists := by
    rw [h.lists, List.forall₂_map_left_iff, List.forall₂_same]
    exact fun c hc => h.placed.listAt hc
  maxSliceSize := le_last_of_ascending (h.ascending.imp le_of_lt) h.maxSliceSize

theorem Created.heap {cs : List SizeClass} (h : Created cs bm m) : Heap cs m (allSlots cs) :=
  ⟨fun c => slotOffsets c.n c.cap, h.free, .refl _⟩

/-- The manager created on a memory of zeros. -/
def zeroManager (pairs : List SizePercentPair) (len : ℕ) : Option (Mem × Manager) :=
  match createBufferManager pairs (zeroMem len) 0 with
  | .ok (.ok p) => some p
  | _ => none

theorem create_of_zeroManager {pairs : List SizePercentPair} {len : ℕ} {p : Mem × Manager}
    (h : zeroManager pairs len = some p) :
    createBufferManager pairs (zeroMem len) 0 = .ok (.ok (p.1, p.2)) := by
  unfold zeroManager at h
  split at h
  · cases h
    assumption
  · cases h

theorem exists_zeroManager (pairs : List SizePercentPair) (len : ℕ) (q : Mem → Manager → Prop)
    (h : ∃ p ∈ zeroManager pairs len, q p.1 p.2) :
    ∃ m bm, createBufferManager pairs (zeroMem len) 0 = .ok (.ok (m, bm)) ∧ q m bm := by
  obtain ⟨p, hp, hq⟩ := h
  exact ⟨p.1, p.2, create_of_zeroManager hp, hq⟩

theorem createBufferManager_ready {pairs : List SizePercentPair}
    (hsizes : ∀ p ∈ pairs, p.size + 20 < 2 ^ 32)
    (hasc : pairs.Pairwise fun p p' => p.size < p'.size)
    (hsum : (pairs.map (·.percent)).sum ≤ 100) (hlen : m.len < 2 ^ 32)
    (h : createBufferManager pairs m 0 = .ok (.ok (m', bm))) :
    Ready (classesOf pairs m.len) bm m' := by
  obtain ⟨hc, -⟩ := createBufferManager_created hsizes hasc hsum hlen h
  exact ⟨hc.layout, hc.managerOk, _, hc.heap⟩

end

end Shmipc.Buffer
