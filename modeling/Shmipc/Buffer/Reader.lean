import Shmipc.Buffer.Content
import Shmipc.Common.Trans

/-!
# The readers of a linked buffer

Every reader takes its bytes off the front of one flat list, `l.unread m`, however
they are spread over slices (buffer.go:275-430).

Results: `readBytes_spec`, …, `discard_spec`: each reader on a buffer that holds enough.
-/

namespace Shmipc.Buffer

open Common

section Readers

variable {cs : List SizeClass} {bm : Manager} {m : Mem} {l : LinkedBuffer} {s : BufferSlice}
  {rest : List BufferSlice} {others free : List ℕ}

theorem Readable.front_of_unread (h : l.unread m ≠ []) : ∃ s rest, l.slices = s :: rest := by
  cases hs : l.slices with
  | nil => exact absurd (by rw [LinkedBuffer.unread, hs]; rfl) h
  | cons s rest => exact ⟨s, rest, rfl⟩

/-- The unread bytes begin with those of the front slice. -/
theorem Readable.unread_cons (hs : l.slices = s :: rest) :
    l.unread m = s.bytes m ++ rest.flatMap (·.bytes m) := by
  rw [LinkedBuffer.unread, hs, List.flatMap_cons]

/-! ## Loops -/

/-- What reading `n` bytes leaves; `Len` has gone down by `d`. -/
structure Left (cs : List SizeClass) (others : List ℕ) (n : ℕ) (d : ℤ) (m : Mem) (l : LinkedBuffer)
    (m' : Mem) (l' : LinkedBuffer) (free' : List ℕ) : Prop where
  readable : Readable cs m' l' others free'
  unread : l'.unread m' = (l.unread m).drop n
  tail : l'.slices.tail <:+ l.slices.tail
  len : l'.len = l.len - d

section Left

variable {n n' k : ℕ} {d d' : ℤ} {m' m'' : Mem} {l' l'' : LinkedBuffer} {free' free'' : List ℕ}

theorem Left.refl (h : Readable cs m l others free) : Left cs others 0 0 m l m l free :=
  ⟨h, rfl, List.suffix_refl _, (sub_zero _).symm⟩

theorem Left.trans (h : Left cs others n d m l m' l' free')
    (h' : Left cs others n' d' m' l' m'' l'' free'') :
    Left cs others (n + n') (d + d') m l m'' l'' free'' where
  readable := h'.readable
  unread := by rw [h'.unread, h.unread, List.drop_drop]
  tail := h'.tail.trans h.tail
  len := by rw [h'.len, h.len, sub_sub]

theorem Left.congr (h : Left cs others n d m l m' l' free') (hs : l''.slices = l'.slices)
    (hp : l''.pinnedList = l'.pinnedList) (hlen : l''.len = l.len - d') :
    Left cs others n d' m l m' l'' free' where
  readable := ⟨⟨h.readable.layout, h.readable.heap, hs ▸ h.readable.slices,
    hp ▸ h.readable.pinned, by rw [hs, hp]; exact h.readable.all⟩, hs ▸ h.readable.bounds⟩
  unread := by rw [LinkedBuffer.unread, hs]; exact h.unread
  tail := by rw [hs]; exact h.tail
  len := hlen

theorem Left.take_add (h : Left cs others n d m l m' l' free') (k : ℕ) :
    (l.unread m).take n ++ (l'.unread m').take k = (l.unread m).take (n + k) := by
  rw [h.unread, List.take_add]

theorem Left.length (h : Left cs others n d m l m' l' free') :
    (l'.unread m').length = (l.unread m).length - n := by
  rw [h.unread, List.length_drop]

end Left

theorem front_eq (hs : l.slices = s :: rest) : l.front = .ok s := by rw [LinkedBuffer.front, hs]

theorem left_advance (h : Readable cs m l others free) (hs : l.slices = s :: rest) {k : ℤ}
    (h0 : 0 ≤ k) (hk : k ≤ s.size) :
    Left cs others k.toNat 0 m l m (l.setSlice 0 (s.advance k)) free := by
  obtain ⟨hr, hu⟩ := advance_front h hs h0 hk
  refine ⟨hr, hu, ?_, (sub_zero _).symm⟩
  rw [setSlice_zero hs, hs]
  exact List.suffix_refl _

theorem left_next (hM : ManagerOk cs bm) (h : Readable cs m l others free)
    (hs : l.slices = s :: rest) (h0 : s.size = 0) :
    ∃ m' l' free', l.readNextSlice bm m = .ok (m', l') ∧ l'.slices = rest ∧
      Left cs others 0 0 m l m' l' free' := by
  obtain ⟨m', l', free', hrun, hr, hrest, hu, hlen⟩ := next_front hM h hs h0
  refine ⟨m', l', free', hrun, hrest, hr, hu, ?_, by rw [hlen, sub_zero]⟩
  rw [hrest, hs]
  exact List.tail_suffix rest

theorem Readable.size_nonneg (h : Readable cs m l others free) (hs : l.slices = s :: rest) :
    0 ≤ s.size := by
  have := (h.bounds s (hs ▸ List.mem_cons_self)).ordered
  unfold BufferSlice.size
  omega

/-- The front slice is read to its end and left behind. -/
theorem left_whole (hM : ManagerOk cs bm) (h : Readable cs m l others free)
    (hs : l.slices = s :: rest) :
    ∃ m' l' free', (l.setSlice 0 (s.advance s.size)).readNextSlice bm m = .ok (m', l') ∧
      l'.slices = rest ∧ Left cs others s.size.toNat 0 m l m' l' free' := by
  have hadv := left_advance h hs (h.size_nonneg hs) le_rfl
  obtain ⟨m', l', free', hrun, hrest, hnext⟩ :=
    left_next hM hadv.readable (setSlice_zero hs) (by simp)
  exact ⟨m', l', free', hrun, hrest, hadv.trans hnext⟩

theorem read_front (h : Readable cs m l others free) (hs : l.slices = s :: rest) {size : ℤ}
    (h0 : 0 ≤ size) :
    s.read m size = .ok ((l.unread m).take (min size s.size).toNat, s.advance (min size s.size),
      decide (size ≤ s.size)) := by
  have hb := h.bounds s (hs ▸ List.mem_cons_self)
  have hlen := hb.length_bytes (m := m)
  rw [read_eq (h.slices s (hs ▸ List.mem_cons_self)) hb h.layout h0, Readable.unread_cons hs,
    List.take_append_of_le_length (by omega)]
  rcases min_cases size s.size with ⟨he, _⟩ | ⟨he, _⟩
  · rw [he]
  · rw [he, List.take_of_length_le (by omega), List.take_of_length_le (by omega)]

theorem Readable.nil_unread (hs : l.slices = []) : l.unread m = [] := by
  rw [LinkedBuffer.unread, hs, List.flatMap_nil]

theorem Readable.length_take {size : ℤ} (h0 : 0 ≤ size) (hle : size ≤ (l.unread m).length) :
    (((l.unread m).take size.toNat).length : ℤ) = size := by
  rw [List.length_take]
  omega

theorem Readable.size_le (h : Readable cs m l others free) (hs : l.slices = s :: rest) :
    s.size ≤ (l.unread m).length := by
  have := (h.bounds s (hs ▸ List.mem_cons_self)).length_bytes (m := m)
  rw [Readable.unread_cons hs, List.length_append]
  omega

theorem Readable.front_of_pos {size : ℤ} (hpos : 0 < size) (hsize : size ≤ (l.unread m).length) :
    ∃ s rest, l.slices = s :: rest := by
  refine Readable.front_of_unread (m := m) fun he => ?_
  rw [he] at hsize
  exact absurd hsize (by simpa using hpos)

theorem readBytesLoop_zero {k : ℕ} (hk : 0 < k) :
    LinkedBuffer.readBytesLoop bm k m l 0 = .ok (m, l, []) := by
  obtain ⟨k, rfl⟩ := Nat.exists_eq_succ_of_ne_zero hk.ne'
  rfl

theorem readBytesLoop_spec (hM : ManagerOk cs bm) :
    ∀ (k : ℕ) (m : Mem) (l : LinkedBuffer) (free : List ℕ) (size : ℤ),
    Readable cs m l others free → l.slices.length < k → 0 ≤ size →
    size ≤ (l.unread m).length →
    ∃ m' l' free', LinkedBuffer.readBytesLoop bm k m l size =
        .ok (m', l', (l.unread m).take size.toNat) ∧
      Left cs others size.toNat 0 m l m' l' free' := by
  intro k
  induction k with
  | zero => intro m l free size _ hk; exact absurd hk (Nat.not_lt_zero _)
  | succ k ih =>
    intro m l free size h hk h0 hsize
    rcases eq_or_lt_of_le h0 with rfl | hpos
    · exact ⟨m, l, free, rfl, .refl h⟩
    obtain ⟨s, rest, hs⟩ := Readable.front_of_pos hpos hsize
    have hcount : l.slices.length = rest.length + 1 := by rw [hs]; rfl
    rw [LinkedBuffer.readBytesLoop, if_pos hpos, front_eq hs]
    simp only [bind, Except.bind, pure, Except.pure]
    rw [read_front h hs h0]
    simp only []
    by_cases hle : size ≤ s.size
    · rw [min_eq_left hle, if_neg (by rw [Readable.length_take h0 hsize]; simp),
        Readable.length_take h0 hsize, sub_self]
      simp only [readBytesLoop_zero (show 0 < k by omega), List.append_nil]
      exact ⟨m, _, free, rfl, left_advance h hs h0 hle⟩
    · have hlen := Readable.length_take (h.size_nonneg hs) (h.size_le (m := m) hs)
      obtain ⟨m1, l1, free1, hnext, hrest, hleft⟩ := left_whole hM h hs
      have hu1 := hleft.length
      obtain ⟨m', l', free', hrun, hleft'⟩ := ih m1 l1 free1 (size - s.size) hleft.readable
        (by rw [hrest]; omega) (by omega) (by omega)
      have hsum : s.size.toNat + (size - s.size).toNat = size.toNat := by
        have := h.size_nonneg hs
        omega
      rw [min_eq_right (by omega), if_pos (by omega), hnext]
      simp only [hlen, hrun, hleft.take_add, hsum]
      exact ⟨m', l', free', rfl, hsum ▸ hleft.trans hleft'⟩

theorem readIntoLoop_spec (hM : ManagerOk cs bm) :
    ∀ (k : ℕ) (m : Mem) (l : LinkedBuffer) (free : List ℕ) (size : ℤ),
    Readable cs m l others free → l.slices.length < k → 0 ≤ size →
    ∃ m' l' free', LinkedBuffer.readIntoLoop bm k m l size =
        .ok (m', l', (l.unread m).take size.toNat) ∧
      Left cs others size.toNat 0 m l m' l' free' := by
  intro k
  induction k with
  | zero => intro m l free size _ hk; exact absurd hk (Nat.not_lt_zero _)
  | succ k ih =>
    intro m l free size h hk h0
    rw [LinkedBuffer.readIntoLoop]
    cases hs : l.slices with
    | nil =>
      have hu : l.unread m = [] := Readable.nil_unread hs
      refine ⟨m, l, free, by simp [hu], h, by simp [hu], List.suffix_refl _, (sub_zero _).symm⟩
    | cons s rest =>
      have hcount : l.slices.length = rest.length + 1 := by rw [hs]; rfl
      rcases eq_or_lt_of_le h0 with rfl | hpos
      · exact ⟨m, l, free, rfl, .refl h⟩
      simp only [bind, Except.bind, pure, Except.pure]
      rw [if_pos hpos, read_front h hs h0]
      simp only []
      by_cases hle : size ≤ s.size
      · rw [min_eq_left hle, if_pos (by simpa using hle)]
        exact ⟨m, _, free, rfl, left_advance h hs h0 hle⟩
      · have hlen := Readable.length_take (h.size_nonneg hs) (h.size_le (m := m) hs)
        obtain ⟨m1, l1, free1, hnext, hrest, hleft⟩ := left_whole hM h hs
        obtain ⟨m', l', free', hrun, hleft'⟩ := ih m1 l1 free1 (size - s.size) hleft.readable
          (by rw [hrest]; omega) (by omega)
        have hsum : s.size.toNat + (size - s.size).toNat = size.toNat := by
          have := h.size_nonneg hs
          omega
        rw [min_eq_right (by omega), if_neg (by simpa using hle), hnext]
        simp only [hlen, hrun, hleft.take_add, hsum]
        exact ⟨m', l', free', rfl, hsum ▸ hleft.trans hleft'⟩

theorem skipExhausted_spec (hM : ManagerOk cs bm) (h : Readable cs m l others free)
    (hs : l.slices = s :: rest) :
    ∃ m' l' free', l.skipExhausted bm m = .ok (m', l') ∧
      l'.slices = (if s.size = 0 then rest else s :: rest) ∧
      Left cs others 0 0 m l m' l' free' := by
  rw [LinkedBuffer.skipExhausted, front_eq hs]
  simp only [bind, Except.bind]
  by_cases h0 : s.size = 0
  · simp only [if_pos h0]
    exact left_next hM h hs h0
  · simp only [if_neg h0]
    exact ⟨m, l, free, rfl, hs, .refl h⟩

theorem readStringLoop_spec (hM : ManagerOk cs bm) :
    ∀ (k : ℕ) (m : Mem) (l : LinkedBuffer) (free : List ℕ) (size : ℤ),
    Readable cs m l others free → 0 < k → 0 ≤ size → size ≤ (l.unread m).length →
    -- each round leaves the front slice exhausted, or reads the last byte
    (0 < size → ∀ s rest, l.slices = s :: rest →
      l.slices.length + (if s.size = 0 then 0 else 1) ≤ k) →
    ∃ m' l' free', LinkedBuffer.readStringLoop bm k m l size =
        .ok (m', l', (l.unread m).take size.toNat) ∧
      Left cs others size.toNat 0 m l m' l' free' := by
  intro k
  induction k with
  | zero => intro m l free size _ hk; exact absurd hk (Nat.not_lt_zero _)
  | succ k ih =>
    intro m l free size h _ h0 hsize hfuel
    rcases eq_or_lt_of_le h0 with rfl | hpos
    · exact ⟨m, l, free, rfl, .refl h⟩
    obtain ⟨s, rest, hs⟩ := Readable.front_of_pos hpos hsize
    have hk := hfuel hpos s rest hs
    rw [hs, List.length_cons] at hk
    obtain ⟨m1, l1, free1, hskip, hrest, hleft⟩ := skipExhausted_spec hM h hs
    have hu1 := hleft.length
    obtain ⟨s', rest', hs'⟩ := Readable.front_of_pos (m := m1) (l := l1) hpos (by omega)
    have hcount : rest'.length + 1 ≤ k := by
      rw [hrest] at hs'
      split_ifs at hs' with he
      · rw [if_pos he, hs', List.length_cons] at hk
        omega
      · cases hs'
        rw [if_neg he] at hk
        omega
    rw [LinkedBuffer.readStringLoop, if_pos hpos, hskip]
    simp only [bind, Except.bind]
    rw [front_eq hs']
    simp only []
    have hnn := hleft.readable.size_nonneg hs'
    have hmin : 0 ≤ min size s'.size := le_min h0 hnn
    rw [read_front hleft.readable hs' h0]
    simp only []
    have hadv := left_advance hleft.readable hs' hmin (min_le_right _ _)
    have hu2 := hadv.length
    rw [Readable.length_take hmin (by omega)]
    have hsum : (min size s'.size).toNat + (size - min size s'.size).toNat = size.toNat := by omega
    obtain ⟨m', l', free', hrun, hleft'⟩ := ih m1 _ free1 (size - min size s'.size) hadv.readable
      (by omega) (by omega) (by omega) (by
        intro hp t ts ht
        rw [setSlice_zero hs'] at ht ⊢
        cases ht
        rw [if_pos (by rw [size_advance]; omega), List.length_cons]
        omega)
    rw [hrun]
    simp only [pure, Except.pure]
    have hall := hleft.trans (hadv.trans hleft')
    rw [hadv.take_add, hsum, hleft.unread, List.drop_zero]
    refine ⟨m', l', free', rfl, ?_⟩
    rwa [Nat.zero_add, hsum] at hall

theorem discardLoop_spec (hM : ManagerOk cs bm) :
    ∀ (k : ℕ) (m : Mem) (l : LinkedBuffer) (free : List ℕ) (size : ℤ),
    Readable cs m l others free → l.slices.length < k → 0 < size →
    size ≤ (l.unread m).length →
    ∃ m' l' free', LinkedBuffer.discardLoop bm k m l size = .ok (m', l', size) ∧
      Left cs others size.toNat 0 m l m' l' free' := by
  intro k
  induction k with
  | zero => intro m l free size _ hk; exact absurd hk (Nat.not_lt_zero _)
  | succ k ih =>
    intro m l free size h hk hpos hsize
    obtain ⟨s, rest, hs⟩ := Readable.front_of_pos hpos hsize
    have hcount : l.slices.length = rest.length + 1 := by rw [hs]; rfl
    rw [LinkedBuffer.discardLoop, front_eq hs]
    simp only [bind, Except.bind, pure, Except.pure, skip_eq]
    by_cases hle : size ≤ s.size
    · rw [min_eq_left hle, if_pos (sub_self size)]
      exact ⟨m, _, free, rfl, left_advance h hs hpos.le hle⟩
    · obtain ⟨m1, l1, free1, hnext, hrest, hleft⟩ := left_whole hM h hs
      have hu1 := hleft.length
      have hnn := h.size_nonneg hs
      obtain ⟨m', l', free', hrun, hleft'⟩ := ih m1 l1 free1 (size - s.size) hleft.readable
        (by rw [hrest]; omega) (by omega) (by omega)
      have hsum : s.size.toNat + (size - s.size).toNat = size.toNat := by omega
      rw [min_eq_right (by omega), if_neg (by omega), hnext]
      simp only [hrun, add_sub_cancel]
      exact ⟨m', l', free', rfl, hsum ▸ hleft.trans hleft'⟩

theorem peekLoop_spec (hL : Layout cs m.len) :
    ∀ (es : List BufferSlice) (size : ℤ), (∀ e ∈ es, SliceOk cs e) → (∀ e ∈ es, InBounds e) →
    0 ≤ size → LinkedBuffer.peekLoop m es size = .ok ((es.flatMap (·.bytes m)).take size.toNat) := by
  intro es
  induction es with
  | nil => intro size _ _ _; simp [LinkedBuffer.peekLoop]
  | cons e es ih =>
    intro size hok hb h0
    rw [List.forall_mem_cons] at hok hb
    rcases eq_or_lt_of_le h0 with rfl | hpos
    · rfl
    have hlen := hb.1.length_bytes (m := m)
    rw [LinkedBuffer.peekLoop, if_pos hpos, peek_eq hok.1 hb.1 hL h0]
    simp only [bind, Except.bind, pure, Except.pure]
    rw [List.flatMap_cons]
    by_cases hle : size ≤ e.size
    · rw [ih _ hok.2 hb.2 (by rw [List.length_take]; omega), List.take_append_of_le_length (by omega),
        show size - (((e.bytes m).take size.toNat).length : ℤ) = 0 by rw [List.length_take]; omega]
      simp
    · rw [List.take_of_length_le (by omega), ih _ hok.2 hb.2 (by omega),
        List.take_append, List.take_of_length_le (show (e.bytes m).length ≤ size.toNat by omega)]
      simp only []
      congr 4
      omega

/-! ## The calls -/

theorem read_spec (hM : ManagerOk cs bm) (h : Readable cs m l others free) {size : ℕ}
    (hpos : 0 < size) :
    ∃ m' l' free', l.read bm m size = .ok (m', l', (l.unread m).take size) ∧
      Left cs others size (min size (l.unread m).length : ℕ) m l m' l' free' := by
  obtain ⟨m', l', free', hrun, hleft⟩ :=
    readIntoLoop_spec hM _ m l free size h (Nat.lt_succ_self _) (Int.natCast_nonneg _)
  rw [Int.toNat_natCast] at hrun hleft
  have hlen := hleft.len
  rw [LinkedBuffer.read, if_neg hpos.ne', hrun]
  refine ⟨m', _, free', rfl, hleft.congr rfl rfl ?_⟩
  simp only [List.length_take, hlen, sub_zero]

/-- `ReadByte` steps over one slice only: the ones behind the front are not empty. -/
theorem readByte_spec (hM : ManagerOk cs bm) (h : Readable cs m l others free)
    (htail : ∀ s ∈ l.slices.tail, 0 < s.size) {b : UInt8} {u : List UInt8}
    (hu : l.unread m = b :: u) :
    ∃ m' l' free', l.readByte bm m = .ok (m', l', b) ∧ Left cs others 1 1 m l m' l' free' := by
  have htake : ∀ {m' : Mem} {l' : LinkedBuffer}, l'.unread m' = b :: u →
      (l'.unread m').take (Int.toNat 1) = [b] := fun hu => by rw [hu]; rfl
  obtain ⟨s, rest, hs⟩ := Readable.front_of_unread (l := l) (m := m) (by rw [hu]; simp)
  rw [LinkedBuffer.readByte, front_eq hs]
  simp only [bind, Except.bind, pure, Except.pure]
  rw [read_front h hs zero_le_one]
  simp only []
  by_cases hle : 1 ≤ s.size
  · rw [min_eq_left hle, if_pos (by simpa using hle), htake hu]
    refine ⟨m, _, free, rfl, (left_advance h hs zero_le_one hle).congr rfl rfl rfl⟩
  · have h0 : s.size = 0 := by have := h.size_nonneg hs; omega
    obtain ⟨m1, l1, free1, hnext, hrest, hleft⟩ := left_whole hM h hs
    have hu1 : l1.unread m1 = b :: u := by rw [hleft.unread, h0, hu]; rfl
    obtain ⟨s', rest', hs'⟩ := Readable.front_of_unread (l := l1) (m := m1) (by rw [hu1]; simp)
    have hle' : 1 ≤ s'.size := htail s' (by rw [hs, List.tail_cons, ← hrest, hs']; simp)
    have hadv := hleft.trans (left_advance hleft.readable hs' zero_le_one hle')
    rw [h0] at hadv
    rw [min_eq_right (by omega), if_neg (by simpa using hle), hnext]
    simp only []
    rw [front_eq hs']
    simp only []
    rw [read_front hleft.readable hs' zero_le_one, min_eq_left hle']
    simp only []
    rw [htake hu1]
    exact ⟨m1, _, free1, rfl, hadv.congr rfl rfl (by
      show l1.len - 1 = _
      rw [hleft.len, sub_zero])⟩

theorem readBytes_spec (hM : ManagerOk cs bm) (h : Readable cs m l others free) {size : ℤ}
    (hpos : 0 < size) (hsize : size ≤ (l.unread m).length) :
    ∃ m' l' free' slot, l.readBytes bm m size =
        .ok (m', l', ⟨(l.unread m).take size.toNat, slot⟩) ∧
      Left cs others size.toNat size m l m' l' free' := by
  obtain ⟨s, rest, hs⟩ := Readable.front_of_pos hpos hsize
  obtain ⟨m1, l1, free1, hskip, -, hleft⟩ := skipExhausted_spec hM h hs
  have hu1 : l1.unread m1 = l.unread m := hleft.unread
  have hlen1 : l1.len = l.len := by rw [hleft.len, sub_zero]
  obtain ⟨s', rest', hs'⟩ := Readable.front_of_pos (m := m1) (l := l1) hpos (by rw [hu1]; exact hsize)
  rw [LinkedBuffer.readBytes, if_neg (by omega), hskip]
  simp only [bind, Except.bind, pure, Except.pure]
  rw [front_eq hs']
  simp only []
  by_cases hle : size ≤ s'.size
  · have hadv := hleft.trans (left_advance hleft.readable hs' hpos.le hle)
    rw [Nat.zero_add] at hadv
    rw [if_pos hle, read_front hleft.readable hs' hpos.le, min_eq_left hle, hu1]
    exact ⟨m1, _, free1, _, rfl, hadv.congr rfl rfl (by rw [← hlen1])⟩
  · have hstart : Left cs others 0 size m l m1 { l1 with len := l1.len - size } free1 :=
      hleft.congr rfl rfl (by rw [← hlen1])
    have hu2 : LinkedBuffer.unread { l1 with len := l1.len - size } m1 = l.unread m := hu1
    obtain ⟨m', l', free', hrun, hleft'⟩ := readBytesLoop_spec hM (l1.slices.length + 1) m1 _ free1
      size hstart.readable (Nat.lt_succ_self _) hpos.le (by rw [hu2]; exact hsize)
    have hall := hstart.trans hleft'
    rw [Nat.zero_add, add_zero] at hall
    rw [if_neg hle, hrun, hu2]
    exact ⟨m', l', free', none, rfl, hall⟩

theorem readString_spec (hM : ManagerOk cs bm) (h : Readable cs m l others free) {size : ℤ}
    (hpos : 0 < size) (hsize : size ≤ (l.unread m).length) :
    ∃ m' l' free', l.readString bm m size = .ok (m', l', (l.unread m).take size.toNat) ∧
      Left cs others size.toNat size m l m' l' free' := by
  obtain ⟨s, rest, hs⟩ := Readable.front_of_pos hpos hsize
  rw [LinkedBuffer.readString, if_neg (by omega), front_eq hs]
  simp only [bind, Except.bind, pure, Except.pure]
  by_cases hle : size ≤ s.size
  · rw [if_pos hle, read_front h hs hpos.le, min_eq_left hle]
    exact ⟨m, _, free, rfl, (left_advance h hs hpos.le hle).congr rfl rfl rfl⟩
  · obtain ⟨m', l', free', hrun, hleft⟩ := readStringLoop_spec hM (l.slices.length + 1) m l free size h
      (Nat.succ_pos _) hpos.le hsize fun _ t ts _ => by split_ifs <;> omega
    rw [if_neg hle, hrun]
    exact ⟨m', _, free', rfl, hleft.congr rfl rfl (by
      show l'.len - size = _
      rw [hleft.len, sub_zero])⟩

theorem peek_spec (h : Readable cs m l others free) {size : ℤ} (hpos : 0 < size)
    (hsize : size ≤ (l.unread m).length) :
    ∃ l' slot, l.peek m size = .ok (l', ⟨(l.unread m).take size.toNat, slot⟩) ∧
      Left cs others 0 0 m l m l' free := by
  obtain ⟨s, rest, hs⟩ := Readable.front_of_pos hpos hsize
  have hb := h.bounds s (hs ▸ List.mem_cons_self)
  have hok := h.slices s (hs ▸ List.mem_cons_self)
  have hlen := hb.length_bytes (m := m)
  have hu := Readable.unread_cons (m := m) hs
  rw [LinkedBuffer.peek, if_neg (by omega), front_eq hs]
  simp only [bind, Except.bind, pure, Except.pure]
  rw [peek_eq hok hb h.layout hpos.le]
  simp only []
  by_cases hle : size ≤ s.size
  · rw [if_pos (by rw [List.length_take]; omega), hu, List.take_append_of_le_length (by omega)]
    exact ⟨_, _, rfl, (Left.refl h).congr rfl rfl (sub_zero _).symm⟩
  · have htake : (s.bytes m).take size.toNat = s.bytes m := List.take_of_length_le (by omega)
    have hrest : ∀ t ∈ l.slices.tail, t ∈ l.slices := fun t ht => List.mem_of_mem_tail ht
    rw [htake, if_neg (by omega), peekLoop_spec h.layout _ _ (fun t ht => h.slices t (hrest t ht))
      (fun t ht => h.bounds t (hrest t ht)) (by omega)]
    have hn : (size - ((s.bytes m).length : ℤ)).toNat = size.toNat - (s.bytes m).length := by omega
    refine ⟨l, none, ?_, .refl h⟩
    simp only []
    rw [hu, List.take_append, htake, hs, List.tail_cons, hn]

theorem discard_spec (hM : ManagerOk cs bm) (h : Readable cs m l others free) {size : ℤ}
    (hpos : 0 < size) (hsize : size ≤ (l.unread m).length) :
    ∃ m' l' free', l.discard bm m size = .ok (m', l', size) ∧
      Left cs others size.toNat size m l m' l' free' := by
  obtain ⟨m', l', free', hrun, hleft⟩ :=
    discardLoop_spec hM _ m l free size h (Nat.lt_succ_self _) hpos hsize
  rw [LinkedBuffer.discard, hrun]
  exact ⟨m', _, free', rfl, hleft.congr rfl rfl (by
    show l'.len - size = _
    rw [hleft.len, sub_zero])⟩

end Readers

end Shmipc.Buffer
