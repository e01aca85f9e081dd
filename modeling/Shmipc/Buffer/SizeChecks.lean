import Shmipc.Buffer.Manager

/-!
# The size checks of a buffer list

`createFreeBufferList` (buffer_manager.go:341-391) and `mappingFreeBufferList`
(buffer_manager.go:393-415) compute the end of a list in 32 bits and compare it with the
length of the memory. Against them stands the end in unbounded integers, `listEnd`.

Results:
* `list_sizes_exact`: each of the functions is right, exactly if the list is not one whose
  size only fits modulo `2 ^ 32`.
* `createFreeBufferList_ok_iff`: which of the lists that pass its checks the creation makes. It
  panics if the slots are less than 17 bytes apart in 32 bits, unless they lie over the tail word.
* `size_check_wraps`: a stride that wraps passes every check.
-/

namespace Shmipc.Buffer

open Common

/-- Where a list of `n` slots of `cap` bytes at `off` ends. -/
def listEnd (off n cap : ℕ) : ℕ := off + 36 + n * (cap + 20)

/-- The size of the list in 32 bits. -/
def size32 (n cap : ℕ) : ℕ := (36 + n * (cap + 20)) % 2 ^ 32

/-- The list does not fit at `off`, and its size in 32 bits does. -/
def Disguised (n cap off len : ℕ) : Prop :=
  36 ≤ size32 n cap ∧ off + size32 n cap ≤ len ∧ len < listEnd off n cap

/-- The creation takes the list for one that fits. In the second case its header wraps around
    the end of the 32-bit offsets, so `len` is one of the last 36 lengths. -/
def CreateSlips (n cap off len : ℕ) : Prop :=
  0 < n ∧ 0 < cap ∧ size32 n cap ≠ 36 ∧
    (Disguised n cap off len ∨ 2 ^ 32 ≤ off + 36 ∧ off ≤ len ∧ size32 n cap ≤ len ∧
      (36 < size32 n cap ∨ off + size32 n cap ≤ len))

/-- The creation makes the list that it does not refuse: the words of its header are inside the
    memory, and its slots are at least 17 bytes apart in 32 bits. They may be closer where the
    header wraps around and the last of them are written over the tail word. -/
def Creates (n cap off len : ℕ) : Prop :=
  (∀ w ∈ [0, 4, 8, 12, 16, 20], u32 (off + w) < len) ∧
    (17 ≤ u32 (cap + 20) ∨ off + 12 < 2 ^ 32 ∧ 2 ^ 32 < n * u32 (cap + 20) + 24 ∧
      (9 ≤ u32 (cap + 20) ∨ u32 (cap + 20) = 5 ∧ n * u32 (cap + 20) + 1 = 2 ^ 32))

instance (n cap off len : ℕ) : Decidable (Disguised n cap off len) :=
  inferInstanceAs (Decidable (_ ∧ _))

instance (n cap off len : ℕ) : Decidable (CreateSlips n cap off len) :=
  inferInstanceAs (Decidable (_ ∧ _))

section

variable {n cap off t : ℕ} {m m' : Mem} {b : BufferList}

theorem countBufferListMemSize_size32 : countBufferListMemSize n cap = size32 n cap := by
  unfold countBufferListMemSize size32 bufferListHeaderSize bufferHeaderSize u32
  rw [Nat.add_mod, Nat.mul_mod, Nat.mod_mod, ← Nat.mul_mod, ← Nat.add_mod]

theorem size32_lt (n cap : ℕ) : size32 n cap < 2 ^ 32 := Nat.mod_lt _ (by norm_num)

/-! ## Creation -/

/-- The memory with the words of a new list. Its header may wrap around. -/
def wordsMem (m : Mem) (off n cap tail : ℕ) : Mem :=
  (((((m.set32 (u32 off) n).set32 (u32 (off + 4)) n).set32 (u32 (off + 8)) 0).set32
    (u32 (off + 12)) tail).set32 (u32 (off + 16)) cap).set32 (u32 (off + 20)) 0

theorem checkIndex_iff {len i : ℕ} {u : Unit} : checkIndex len i = .ok u ↔ i < len := by
  unfold checkIndex
  split_ifs with h
  · exact iff_of_true rfl h
  · exact iff_of_false (fun h => nomatch h) h

/-- The loop of the creation writes in the region only. -/
theorem initSlots_frame {start len : ℕ} : ∀ {k current : ℕ} {m : Mem},
    initSlots start len cap k current m = .ok m' →
    m'.len = m.len ∧ ∀ lo hi, hi ≤ start → m.SameOn m' lo hi := by
  intro k
  induction k with
  | zero =>
    intro current m h
    cases h
    exact ⟨rfl, fun lo hi _ => Mem.SameOn.refl _ lo hi⟩
  | succ k ih =>
    intro current m h
    simp only [initSlots, Go.bind_ok] at h
    obtain ⟨_, -, _, -, _, -, h⟩ := h
    have hslot : ∀ lo hi, hi ≤ start → m.SameOn (((m.set32 (start + current) cap).set32
        (start + u32 (current + bufferSizeOffset)) 0).set32
        (start + u32 (current + bufferDataStartOffset)) 0) lo hi := fun lo hi hr =>
      (Mem.set32_sameOn (by omega)).trans ((Mem.set32_sameOn (by omega)).trans
        (Mem.set32_sameOn (by omega)))
    split_ifs at h
    · simp only [Go.bind_ok] at h
      obtain ⟨_, -, _, -, h⟩ := h
      obtain ⟨hl, hs⟩ := ih h
      exact ⟨hl, fun lo hi hr => (hslot lo hi hr).trans ((Mem.set32_sameOn (by omega)).trans
        ((Mem.set8_sameOn (by omega)).trans (hs lo hi hr)))⟩
    · obtain ⟨hl, hs⟩ := ih h
      exact ⟨hl, fun lo hi hr => (hslot lo hi hr).trans (hs lo hi hr)⟩

/-- Behind its checks, the creation writes the header, makes the slots and clears the flag of
    the last one. -/
theorem createFreeBufferList_iff (hlen : m.len < 2 ^ 32) (hno : ¬CreateRefused n cap off m.len) :
    ((∃ r, createFreeBufferList n cap m off = .ok r) ↔
      (∀ w ∈ [0, 4, 8, 12, 16, 20], u32 (off + w) < m.len) ∧
      ∃ m1, initSlots (u32 (off + 36)) (u32 (off + size32 n cap) - u32 (off + 36)) cap n 0
          (wordsMem m off n cap (u32 ((n - 1) * u32 (cap + 20)))) = .ok m1 ∧
        m1.get32 (u32 (off + 12)) + 17 ≤ u32 (off + size32 n cap) - u32 (off + 36)) ∧
    ∀ r, createFreeBufferList n cap m off = .ok r → ∃ p, r = .ok p ∧ p.1.len = m.len := by
  unfold CreateRefused at hno
  unfold createFreeBufferList
  rw [countBufferListMemSize_size32, bufferListHeaderSize] at *
  rw [u32_of_lt hlen] at *
  rw [if_neg (by tauto)]
  simp only [List.forall_mem_cons, Nat.add_zero]
  rw [if_neg (by omega), if_neg (by omega), checkBounds_ok (by omega) (by omega)]
  refine ⟨⟨fun ⟨r, h⟩ => ?_, ?_⟩, fun r h => ?_⟩
  · simp only [Go.bind_ok, checkIndex_iff] at h
    obtain ⟨_, h0, _, h4, _, h8, _, h12, _, h16, _, h20, _, -, m1, h1, h⟩ := h
    split_ifs at h
    obtain ⟨_, h17, -⟩ := Go.bind_ok.mp h
    rw [checkIndex_iff, bufferFlagOffset] at h17
    exact ⟨⟨h0, h4, h8, h12, h16, h20, fun _ h => nomatch h⟩, m1, h1, by omega⟩
  · rintro ⟨⟨h0, h4, h8, h12, h16, h20, -⟩, m1, h1, h17⟩
    unfold wordsMem at h1
    simp only [checkIndex_ok h0, checkIndex_ok h4, checkIndex_ok h8, checkIndex_ok h12,
      checkIndex_ok h16, checkIndex_ok h20, bufferHeaderSize, h1, bind, Except.bind]
    rw [if_pos (by omega), checkIndex_ok (by unfold bufferFlagOffset; omega)]
    exact ⟨_, rfl⟩
  · simp only [Go.bind_ok] at h
    obtain ⟨_, -, _, -, _, -, _, -, _, -, _, -, _, -, m1, h1, h⟩ := h
    split_ifs at h
    obtain ⟨_, -, h⟩ := Go.bind_ok.mp h
    cases h
    exact ⟨_, rfl, (initSlots_frame h1).1⟩

/-- The checks of the creation. -/
theorem createFreeBufferList_error_iff (hlen : m.len < 2 ^ 32) :
    (∃ e, createFreeBufferList n cap m off = .ok (.error e)) ↔ CreateRefused n cap off m.len := by
  refine ⟨fun ⟨e, h⟩ => ?_, createFreeBufferList_refused⟩
  by_contra hno
  obtain ⟨p, hp, -⟩ := (createFreeBufferList_iff hlen hno).2 _ h
  cases hp

/-- The creation returns, and a list only if it fits, exactly if it does not slip. -/
theorem createFreeBufferList_exact_iff (hlen : m.len < 2 ^ 32) :
    ((∃ r, createFreeBufferList n cap m off = .ok r) ∧
      ((∃ p, createFreeBufferList n cap m off = .ok (.ok p)) → listEnd off n cap ≤ m.len)) ↔
      ¬CreateSlips n cap off m.len := by
  have herr := @createFreeBufferList_error_iff n cap off m hlen
  have hsize := size32_lt n cap
  by_cases hfit : listEnd off n cap ≤ m.len
  · refine iff_of_true ⟨?_, fun _ => hfit⟩ fun h => ?_
    · by_cases hz : n = 0 ∨ cap = 0
      · obtain ⟨e, he⟩ := herr.mpr (.inl hz)
        exact ⟨_, he⟩
      · unfold listEnd at hfit
        obtain ⟨m', hm', -⟩ := createFreeBufferList_spec (by omega) (by omega) (by omega) hfit
          (by rw [u32_of_lt hlen]; omega) (by rw [u32_of_lt hlen]; omega)
        exact ⟨_, hm'⟩
    · unfold CreateSlips Disguised listEnd at h
      unfold listEnd at hfit
      omega
  · have hleft : ((∃ r, createFreeBufferList n cap m off = .ok r) ∧
        ((∃ p, createFreeBufferList n cap m off = .ok (.ok p)) → listEnd off n cap ≤ m.len)) ↔
        ∃ e, createFreeBufferList n cap m off = .ok (.error e) := by
      constructor
      · rintro ⟨⟨r, hr⟩, hp⟩
        cases r with
        | error e => exact ⟨e, hr⟩
        | ok p => exact absurd (hp ⟨p, hr⟩) hfit
      · rintro ⟨e, he⟩
        refine ⟨⟨_, he⟩, fun ⟨p, hp⟩ => ?_⟩
        rw [he] at hp
        cases hp
    rw [hleft, herr]
    unfold CreateRefused CreateSlips Disguised bufferListHeaderSize
    rw [countBufferListMemSize_size32]
    unfold u32
    generalize listEnd off n cap = stop at hfit ⊢
    omega

/-! ## Strides that wrap -/

/-- The slots before the last `k` are made where the flag of each of them is inside the region,
    and nothing is written behind them. -/
theorem initSlots_split {start len k : ℕ} (ht : u32 (cap + 20) = t) (hlen : len < 2 ^ 32)
    (hk : 0 < k) (hflag : 17 ≤ k * t + t) : ∀ {j current : ℕ} {m : Mem},
    current + (j + k) * t ≤ len →
    ∃ m', initSlots start len cap (j + k) current m =
        initSlots start len cap k (current + j * t) m' ∧
      ∀ lo hi, start + current + j * t + 17 ≤ lo + t → m.SameOn m' lo hi := by
  intro j
  induction j with
  | zero =>
    intro current m _
    rw [Nat.zero_add, Nat.zero_mul, Nat.add_zero]
    exact ⟨m, rfl, fun lo hi _ => Mem.SameOn.refl m lo hi⟩
  | succ j ih =>
    intro current m hfit
    have hsum : (j + 1 + k) * t = t + (j + k) * t := by ring
    have hsum' : (j + k) * t = j * t + k * t := by ring
    have hsum'' : (j + 1) * t = t + j * t := by ring
    obtain ⟨m', h, hs⟩ := @ih (current + t) _ (by omega)
    rw [show j + 1 + k = j + k + 1 by omega,
      initSlots_round ht hlen (by omega) (by omega) (by omega), h, hsum'', ← Nat.add_assoc]
    exact ⟨m', rfl, fun lo hi hlo => ((slotMem_sameOn (by omega)).trans
      (linkNext_sameOn (by omega))).trans (hs lo hi (by omega))⟩

/-- With at least 9 bytes from slot to slot all slots are made. -/
theorem initSlots_run {start v : ℕ} (ht : u32 (cap + 20) = t) (hv : n * t = v) (hn : 0 < n)
    (hlen : v < 2 ^ 32) (h9 : 9 ≤ t) :
    ∃ m', initSlots start v cap n 0 m = .ok m' ∧
      ∀ lo hi, start + v + 12 ≤ lo + t → m.SameOn m' lo hi := by
  obtain ⟨j, rfl⟩ : ∃ j, n = j + 1 := ⟨n - 1, by omega⟩
  obtain ⟨m1, h1, hs⟩ := @initSlots_split cap t start v 1 ht hlen one_pos (by omega) j 0 m
    (by omega)
  rw [Nat.succ_mul] at hv
  rw [h1, initSlots_one hlen (by omega)]
  exact ⟨_, rfl, fun lo hi hlo => (hs lo hi (by omega)).trans (slotMem_sameOn (by omega))⟩

/-- The checks of one slot, in a loop that comes to its end. -/
theorem initSlots_checks {start len k : ℕ} (ht : u32 (cap + 20) = t) : ∀ {j current : ℕ} {m : Mem},
    initSlots start len cap (j + k + 1) current m = .ok m' → current + (j + 1) * t < 2 ^ 32 →
    u32 (current + j * t + 4) < len ∧ u32 (current + j * t + 8) < len ∧
      (0 < k → u32 (current + j * t + 12) < len) := by
  intro j
  induction j with
  | zero =>
    intro current m h _
    simp only [initSlots, Go.bind_ok, checkIndex_iff] at h
    obtain ⟨_, -, _, h4, _, h8, h⟩ := h
    rw [Nat.zero_mul, Nat.add_zero]
    refine ⟨h4, h8, fun hk => ?_⟩
    rw [if_pos (by omega)] at h
    obtain ⟨_, h12, -⟩ := Go.bind_ok.mp h
    exact checkIndex_iff.mp h12
  | succ j ih =>
    intro current m h hle
    rw [show current + (j + 1 + 1) * t = current + t + (j + 1) * t by ring] at hle
    have hnext : u32 (current + cap + bufferHeaderSize) = current + t := by
      unfold u32 bufferHeaderSize at *
      omega
    rw [show j + 1 + k + 1 = (j + k + 1) + 1 by omega, initSlots, hnext] at h
    simp only [if_pos (show 0 < j + k + 1 by omega), Go.bind_ok] at h
    obtain ⟨_, -, _, -, _, -, _, -, _, -, h⟩ := h
    rw [show current + (j + 1) * t = current + t + j * t by ring]
    exact ih h hle

/-- With less than 9 bytes the last slots leave the region. The exception is an index that wraps
    to its start. -/
theorem initSlots_small {start v : ℕ} (ht : u32 (cap + 20) = t) (hv : n * t = v) (hn : 0 < n)
    (hlen : v < 2 ^ 32) (h : initSlots start v cap n 0 m = .ok m') :
    9 ≤ t ∨ t = 5 ∧ v + 1 = 2 ^ 32 := by
  have hslot : ∀ k, k < n → u32 (v - (k + 1) * t + 4) < v ∧ u32 (v - (k + 1) * t + 8) < v ∧
      (0 < k → u32 (v - (k + 1) * t + 12) < v) := by
    intro k hk
    obtain ⟨j, rfl⟩ : ∃ j, n = j + k + 1 := ⟨n - k - 1, by omega⟩
    have hj : (j + k + 1) * t = j * t + (k + 1) * t := by ring
    have hj' : (j + 1) * t + k * t = (j + k + 1) * t := by ring
    rw [show v - (k + 1) * t = 0 + j * t by omega]
    exact initSlots_checks ht h (by omega)
  -- one of the last slots checks the index at the end of the region
  have h0 := hslot 0
  have h1 := hslot 1
  have h3 := hslot 3
  unfold u32 at h0 h1 h3
  by_contra hno
  have h9 : t < 9 := by omega
  interval_cases t <;> omega

/-! ### Regions over their own tail word -/

section

variable {start len lo hi : ℕ}

theorem slice_set32_sameOn {a v : ℕ} (h : (m.slice start len).SameOn m' lo hi) :
    ((m.set32 (start + a) v).slice start len).SameOn (m'.set32 (0 + a) v) lo hi := by
  intro x h1 h2
  rw [Mem.slice_set32, Nat.zero_add]
  unfold Mem.set32
  simp only [h x h1 h2]

theorem slice_flag_sameOn {a : ℕ} {f : UInt8} (h : (m.slice start len).SameOn m' lo hi) :
    ((m.set8 (start + a) (m.byte (start + a) ||| f)).slice start len).SameOn
      (m'.set8 (0 + a) (m'.byte (0 + a) ||| f)) lo hi := by
  intro x h1 h2
  change _ = (m.set8 (start + a) _).byte (start + x)
  rw [Nat.zero_add]
  rcases eq_or_ne a x with rfl | hne
  · rw [Mem.byte_set8_self, Mem.byte_set8_self, h a h1 h2]
    rfl
  · rw [Mem.byte_set8_of_ne hne, Mem.byte_set8_of_ne (by omega), h x h1 h2]
    rfl

/-- The loop does the same to the bytes of the region wherever the region is. -/
theorem initSlots_slice : ∀ {k current : ℕ} {m m' m1 : Mem},
    (m.slice start len).SameOn m' lo hi → initSlots 0 len cap k current m' = .ok m1 →
    ∃ m2, initSlots start len cap k current m = .ok m2 ∧ (m2.slice start len).SameOn m1 lo hi := by
  intro k
  induction k with
  | zero =>
    intro current m m' m1 hs h
    cases h
    exact ⟨m, rfl, hs⟩
  | succ k ih =>
    intro current m m' m1 hs h
    rw [initSlots] at h ⊢
    simp only [Go.bind_ok] at h
    obtain ⟨_, h1, _, h2, _, h3, h⟩ := h
    simp only [h1, h2, h3, bind, Except.bind]
    split_ifs at h ⊢
    · simp only [Go.bind_ok] at h
      obtain ⟨_, h4, _, h5, h⟩ := h
      simp only [h4, h5]
      exact ih (slice_flag_sameOn (slice_set32_sameOn (slice_set32_sameOn
        (slice_set32_sameOn (slice_set32_sameOn hs))))) h
    · exact ih (slice_set32_sameOn (slice_set32_sameOn (slice_set32_sameOn hs))) h

end

/-- What the last 8 slots leave of the tail word, in a region that reaches over it, has room for
    a flag behind it. -/
theorem last_slots_tail : ∀ d < 23, ∀ t < 35, 9 ≤ t ∨ t = 5 ∧ d = 0 → (2 ^ 32 - 1 - d) % t = 0 →
    ∃ m ∈ (initSlots 0 (2 ^ 32 - 1 - d) (u32 (t + (2 ^ 32 - 20))) 8 (2 ^ 32 - 1 - d - 8 * t)
        ((zeroMem 0).set32 (2 ^ 32 - 24) (2 ^ 32 - 1 - d - t))).toOption,
      m.get32 (2 ^ 32 - 24) + 17 ≤ 2 ^ 32 - 1 - d := by
  decide +kernel

theorem ok_of_mem_toOption {α : Type*} {x : Go α} {a : α} (h : a ∈ x.toOption) : x = .ok a := by
  cases x with
  | error e => cases h
  | ok b => exact congrArg _ (Option.some.inj h)

/-- The tail word, in a region that reaches over it. -/
theorem initSlots_over {start v a : ℕ} {m0 : Mem} (ht : u32 (cap + 20) = t) (hcap : cap < 2 ^ 32)
    (hv : n * t = v) (hlen : v < 2 ^ 32) (ha : start + (2 ^ 32 - 24) = a) (hover : 2 ^ 32 < v + 24)
    (hshort : t < 35) (hstride : 9 ≤ t ∨ t = 5 ∧ v + 1 = 2 ^ 32)
    (hword : (m0.set32 a (v - t)).SameOn m a (a + 4)) :
    ∃ m1, initSlots start v cap n 0 m = .ok m1 ∧ m1.get32 a + 17 ≤ v := by
  obtain ⟨j, rfl⟩ : ∃ j, n = j + 8 := ⟨n - 8, by
    by_contra hj
    have := Nat.mul_le_mul (show n ≤ 7 by omega) (show t ≤ 34 by omega)
    omega⟩
  obtain ⟨m1, h1, hs⟩ := @initSlots_split cap t start v 8 ht hlen (by omega) (by omega) j 0 m
    (by omega)
  obtain ⟨d, rfl⟩ : ∃ d, v = 2 ^ 32 - 1 - d := ⟨2 ^ 32 - 1 - v, by omega⟩
  obtain ⟨m2, h2, hroom⟩ := last_slots_tail d (by omega) t hshort (by omega)
    (hv ▸ Nat.mul_mod_left ..)
  rw [add_mul] at hv
  have hword1 := hword.trans (hs a (a + 4) (by omega))
  have hsame : (m1.slice start (2 ^ 32 - 1 - d)).SameOn
      ((zeroMem 0).set32 (2 ^ 32 - 24) (2 ^ 32 - 1 - d - t)) (2 ^ 32 - 24) (2 ^ 32 - 24 + 4) := by
    intro x hx hx'
    change _ = m1.byte (start + x)
    rw [hword1 _ (by omega) (by omega), ← ha]
    unfold Mem.set32
    simp only []
    rw [if_pos (by omega), if_pos (by omega), Nat.add_sub_add_left]
  rw [show u32 (t + (2 ^ 32 - 20)) = cap by unfold u32 at *; omega,
    show 2 ^ 32 - 1 - d - 8 * t = 0 + j * t by omega] at h2
  obtain ⟨m3, h3, hs3⟩ := initSlots_slice hsame (ok_of_mem_toOption h2)
  rw [Mem.get32_congr hs3, Mem.get32_slice, ha] at hroom
  exact ⟨m3, h1.trans h3, hroom⟩

theorem wordsMem_tail {v : ℕ} :
    ∃ m1 : Mem, (m1.set32 (u32 (off + 12)) v).SameOn (wordsMem m off n cap v) (u32 (off + 12))
      (u32 (off + 12) + 4) :=
  ⟨_, (Mem.set32_sameOn (by unfold u32; omega)).trans (Mem.set32_sameOn (by unfold u32; omega))⟩

/-- The tail word behind the loop. -/
theorem initSlots_tail {v : ℕ} (ht : u32 (cap + 20) = t) (hv : n * t = v) (hpos : 0 < v)
    (hcap : cap < 2 ^ 32) (hoff : off < 2 ^ 32) (hfit : u32 (off + 36) + v < 2 ^ 32) :
    (∃ m1, initSlots (u32 (off + 36)) v cap n 0 (wordsMem m off n cap (v - t)) = .ok m1 ∧
      m1.get32 (u32 (off + 12)) + 17 ≤ v) ↔
    17 ≤ t ∨ off + 12 < 2 ^ 32 ∧ 2 ^ 32 < v + 24 ∧ (9 ≤ t ∨ t = 5 ∧ v + 1 = 2 ^ 32) := by
  obtain ⟨m0, hword⟩ := @wordsMem_tail n cap off m (v - t)
  generalize wordsMem m off n cap (v - t) = m at *
  have hn : 0 < n := Nat.pos_of_mul_pos_right (hv ▸ hpos)
  have hle : t ≤ v := hv ▸ Nat.le_mul_of_pos_left t hn
  have hsmall := fun m' => @initSlots_small n cap t m m' (u32 (off + 36)) v ht hv hn (by omega)
  have hrun := @initSlots_run n cap t m (u32 (off + 36)) v ht hv hn (by omega)
  -- the word lies below the region, or above its start where the header wraps around
  have hplace : u32 (off + 12) + 4 ≤ u32 (off + 36) ∧ ¬(off + 12 < 2 ^ 32 ∧ 2 ^ 32 < v + 24) ∨
      off + 12 < 2 ^ 32 ∧ u32 (off + 36) + (2 ^ 32 - 24) = u32 (off + 12) := by
    unfold u32 at *
    omega
  generalize u32 (off + 12) = a at *
  generalize u32 (off + 36) = start at *
  -- where the loop does not reach the word, it holds the offset of the last slot
  have hkept : ∀ {m1 : Mem}, m.SameOn m1 a (a + 4) → m1.get32 a = v - t := fun h => by
    rw [Mem.get32_congr (hword.trans h), Mem.get32_set32_of_lt (by omega)]
  by_cases hover : off + 12 < 2 ^ 32 ∧ 2 ^ 32 < v + 24
  · refine ⟨fun ⟨m1, h, _⟩ => .inr ⟨hover.1, hover.2, hsmall m1 h⟩, fun h => ?_⟩
    by_cases hlong : 35 ≤ t
    · obtain ⟨m1, h1, hs⟩ := hrun (by omega)
      refine ⟨m1, h1, ?_⟩
      rw [hkept (hs _ _ (by omega))]
      omega
    · exact initSlots_over ht hcap hv (by omega) (by omega) hover.2 (by omega) (by omega) hword
  · have hall : ∀ {m1}, initSlots start v cap n 0 m = .ok m1 → m.SameOn m1 a (a + 4) := fun h => by
      rcases hplace with ⟨hbelow, -⟩ | ⟨hlt, ha⟩
      · exact (initSlots_frame h).2 _ _ hbelow
      · have h9 := hsmall _ h
        obtain ⟨m2, h2, hs⟩ := hrun (by omega)
        cases h.symm.trans h2
        refine hs _ _ ?_
        by_cases h12 : 12 ≤ t
        · omega
        · interval_cases t <;> omega
    constructor
    · rintro ⟨m1, h, hroom⟩
      rw [hkept (hall h)] at hroom
      omega
    · intro h
      obtain ⟨m1, h1, -⟩ := hrun (by omega)
      refine ⟨m1, h1, ?_⟩
      rw [hkept (hall h1)]
      omega

/-- **One list.** Behind its checks, the creation succeeds or panics. -/
theorem createFreeBufferList_ok_iff (hlen : m.len < 2 ^ 32) (hn : n * u32 (cap + 20) < 2 ^ 32)
    (hcap : cap < 2 ^ 32) (hno : ¬CreateRefused n cap off m.len) :
    (∃ r, createFreeBufferList n cap m off = .ok r) ↔ Creates n cap off m.len := by
  have hsize : size32 n cap = (36 + n * u32 (cap + 20)) % 2 ^ 32 :=
    countBufferListMemSize_size32.symm
  rw [(createFreeBufferList_iff hlen hno).1, Creates]
  unfold CreateRefused bufferListHeaderSize at hno
  rw [countBufferListMemSize_size32, u32_of_lt hlen] at hno
  generalize ht : u32 (cap + 20) = t at *
  have hv : u32 (off + size32 n cap) - u32 (off + 36) = n * t := by
    unfold u32 at *
    omega
  rw [hv, Nat.sub_mul, one_mul, u32_of_lt (x := n * t - t) (by omega),
    @initSlots_tail n cap off t m (n * t) ht rfl (by omega) hcap (by omega) (by omega)]

/-! ## Mapping -/

/-- The 32-bit end of the list that is mapped at `off`. -/
def mappedEnd (m : Mem) (off : ℕ) : ℕ :=
  u32 (off + countBufferListMemSize (m.get32 (off + 4)) (m.get32 (off + 16)))

/-- The list that is mapped at `off`. -/
def mappedList (m : Mem) (off : ℕ) : BufferList where
  size := off
  cap := off + 4
  head := off + 8
  tail := off + 12
  capPerBuffer := off + 16
  counter := off + 24
  regionStart := off + 36
  regionLen := mappedEnd m off - (off + 36)
  bufferRegionOffsetInShm := off + 36
  offsetInShm := off

/-- The mapping of a list whose header is inside the memory. -/
theorem mappingFreeBufferList_cases (hlen : m.len < 2 ^ 32) (hhdr : off + 36 ≤ m.len) :
    (off + 36 ≤ mappedEnd m off ∧ mappedEnd m off ≤ m.len ∧
      mappingFreeBufferList m off = .ok (.ok (mappedList m off))) ∨
    (¬ (off + 36 ≤ mappedEnd m off ∧ mappedEnd m off ≤ m.len) ∧
      ∃ e, mappingFreeBufferList m off = .ok (.error e)) := by
  unfold mappingFreeBufferList
  rw [if_neg (by unfold bufferListHeaderSize; omega)]
  unfold bufferListHeaderSize
  rw [u32_of_lt (x := off) (by omega), u32_of_lt (x := off + 4) (by omega),
    u32_of_lt (x := off + 8) (by omega), u32_of_lt (x := off + 12) (by omega),
    u32_of_lt (x := off + 16) (by omega), u32_of_lt (x := off + 24) (by omega),
    u32_of_lt (x := off + 36) (by omega), u32_of_lt hlen]
  simp only []
  rw [checkIndex_ok (by omega), checkIndex_ok (by omega), checkIndex_ok (by omega),
    checkIndex_ok (by omega), checkIndex_ok (by omega), checkIndex_ok (by omega), ← mappedEnd]
  simp only [bind, Except.bind]
  by_cases hbad : mappedEnd m off > m.len ∨ mappedEnd m off < off + 36
  · rw [if_pos hbad]
    exact .inr ⟨by omega, _, rfl⟩
  · rw [if_neg hbad, checkBounds_ok (by omega) (by omega)]
    exact .inl ⟨by omega, by omega, rfl⟩

/-- The mapping returns, and a list only if it fits, exactly if the list is not disguised. -/
theorem mappingFreeBufferList_exact_iff (hlen : m.len < 2 ^ 32) :
    ((∃ r, mappingFreeBufferList m off = .ok r) ∧
      ((∃ b, mappingFreeBufferList m off = .ok (.ok b)) →
        listEnd off (m.get32 (off + 4)) (m.get32 (off + 16)) ≤ m.len)) ↔
      ¬Disguised (m.get32 (off + 4)) (m.get32 (off + 16)) off m.len := by
  have hsize := size32_lt (m.get32 (off + 4)) (m.get32 (off + 16))
  by_cases hhdr : off + 36 ≤ m.len
  · have hmap := mappingFreeBufferList_cases hlen hhdr
    rw [mappedEnd, countBufferListMemSize_size32] at hmap
    unfold Disguised u32 at *
    rcases hmap with ⟨hstart, hend, hb⟩ | ⟨hno, e, he⟩
    · have hleft : (∃ b, mappingFreeBufferList m off = .ok (.ok b)) := ⟨_, hb⟩
      simp only [hleft, true_imp_iff]
      rw [and_iff_right ⟨_, hb⟩]
      omega
    · refine iff_of_true ⟨⟨_, he⟩, fun ⟨b, hb⟩ => ?_⟩ (by omega)
      rw [he] at hb
      cases hb
  · have he : mappingFreeBufferList m off = _ := if_pos (by unfold bufferListHeaderSize; omega)
    refine iff_of_true ⟨⟨_, he⟩, fun ⟨b, hb⟩ => ?_⟩ fun h => ?_
    · rw [he] at hb
      cases hb
    · unfold Disguised at h
      omega

end

/-- **Main theorem.** For every memory shorter than `2 ^ 32` bytes, the creation and the mapping
    of a list each return without leaving the memory, and succeed only if the exact end of the
    list is inside of it, if and only if the list is not taken for one that fits. -/
theorem list_sizes_exact {m : Mem} (hlen : m.len < 2 ^ 32) (n cap off : ℕ) :
    (((∃ r, createFreeBufferList n cap m off = .ok r) ∧
      ((∃ p, createFreeBufferList n cap m off = .ok (.ok p)) → listEnd off n cap ≤ m.len)) ↔
      ¬CreateSlips n cap off m.len) ∧
    (((∃ r, mappingFreeBufferList m off = .ok r) ∧
      ((∃ b, mappingFreeBufferList m off = .ok (.ok b)) →
        listEnd off (m.get32 (off + 4)) (m.get32 (off + 16)) ≤ m.len)) ↔
      ¬Disguised (m.get32 (off + 4)) (m.get32 (off + 16)) off m.len) :=
  ⟨createFreeBufferList_exact_iff hlen, mappingFreeBufferList_exact_iff hlen⟩

/-- The words of a list of one slot of `cap` bytes, at the start of a memory of `len` bytes. -/
def oneSlotWords (cap len : ℕ) : Mem := ((zeroMem len).set32 4 1).set32 16 cap

/-- A list of two slots that does not fit at offset 17 of 100 bytes is refused, and so is the
    mapping of a list with a slot of 5 bytes in 60. -/
theorem list_sizes_exact_two_slots :
    (∃ e, createFreeBufferList 2 4 (zeroMem 100) 17 = .ok (.error e)) ∧
    ∃ e, mappingFreeBufferList (oneSlotWords 5 60) 0 = .ok (.error e) := by
  have h := (list_sizes_exact (m := zeroMem 100) (by decide) 2 4 17).1.mpr (by decide)
  have h' := (list_sizes_exact (m := oneSlotWords 5 60) (by decide) 0 0 0).2.mpr (by decide)
  constructor
  · obtain ⟨⟨r, hr⟩, hp⟩ := h
    cases r with
    | error e => exact ⟨e, hr⟩
    | ok p => exact absurd (hp ⟨p, hr⟩) (by decide)
  · obtain ⟨⟨r, hr⟩, hp⟩ := h'
    cases r with
    | error e => exact ⟨e, hr⟩
    | ok p => exact absurd (hp ⟨p, hr⟩) (by decide)

/-- **Counterexample.** With slots of `2 ^ 32 - 1` bytes the stride wraps to 19 and a memory
    of 55 bytes takes one of them, in the creation and in the mapping; with `2 ^ 27 + 1` slots
    of 12 bytes the size of all slots wraps to 32 and the creation leaves the region. -/
theorem size_check_wraps :
    (∃ p, createFreeBufferList 1 (2 ^ 32 - 1) (zeroMem 55) 0 = .ok (.ok p)) ∧
    55 < listEnd 0 1 (2 ^ 32 - 1) ∧
    (∃ b, mappingFreeBufferList (oneSlotWords (2 ^ 32 - 1) 55) 0 = .ok (.ok b)) ∧
    55 < listEnd 0 ((oneSlotWords (2 ^ 32 - 1) 55).get32 4)
      ((oneSlotWords (2 ^ 32 - 1) 55).get32 16) ∧
    Panics (createFreeBufferList (2 ^ 27 + 1) 12 (zeroMem 100) 0) .indexOutOfRange :=
  ⟨⟨_, rfl⟩, by decide, ⟨_, rfl⟩, by decide, by decide⟩

end Shmipc.Buffer
