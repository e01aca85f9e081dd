import Shmipc.Buffer.Manager

/-!
# Reading a slice from corrupted memory

`readBufferSlice` (buffer_manager.go:559-571) gets an offset from the peer and reads the
capacity, the start and the size of the slice from memory that the peer writes. It checks
the end of the slice, in 32 bits, and not the start and the size, from which
`newBufferSlice` (buffer_slice.go:52-67) makes the indices of the readers.

Results:
* `readBufferSlice_safe_iff`: the slice is safe to use exactly if the end does not wrap
  and the written bytes lie inside the capacity (`HeaderSound`).
* `corrupted_header_panics`: a capacity for which the end wraps makes `readBufferSlice`
  panic, a start behind the capacity the reader of the slice.
-/

namespace Shmipc.Buffer

open Common

/-- What the users of a slice at `offset` rely on. `skip` does not index the data; what it
    leaves is again between the indices. -/
structure SafeSlice (m : Mem) (offset : ℕ) (s : BufferSlice) : Prop where
  len : s.data.len = s.cap
  inside : s.offsetInShm = offset ∧ offset + 20 + s.cap ≤ m.len
  indices : 0 ≤ s.readIndex ∧ s.readIndex ≤ s.writeIndex ∧ s.writeIndex ≤ s.cap
  read : ∀ size : ℤ, 0 ≤ size → ∃ r, s.read m size = .ok r
  peek : ∀ size : ℤ, 0 ≤ size → ∃ r, s.peek m size = .ok r
  skip : ∀ size : ℤ, 0 ≤ size →
    s.readIndex ≤ (s.skip size).1.readIndex ∧ (s.skip size).1.readIndex ≤ s.writeIndex

/-- `readBufferSlice` returns an error or a slice that is safe to use. -/
def SafeRead (m : Mem) (offset : ℕ) : Prop :=
  (∃ e, readBufferSlice m offset = .ok (.error e)) ∨
    ∃ s, readBufferSlice m offset = .ok (.ok s) ∧ SafeSlice m offset s

/-- The header at `offset`, if one fits there: the end of the slice is a `uint32`, and where
    the slice is inside the memory its start and size are inside its capacity. -/
def HeaderSound (m : Mem) (offset : ℕ) : Prop :=
  offset + 20 < m.len → offset + 20 + m.get32 offset < 2 ^ 32 ∧
    (offset + 20 + m.get32 offset ≤ m.len →
      m.get32 (offset + 8) + m.get32 (offset + 4) ≤ m.get32 offset)

instance (m : Mem) (offset : ℕ) : Decidable (HeaderSound m offset) :=
  inferInstanceAs (Decidable (_ → _ ∧ (_ → _)))

section

variable {m : Mem} {offset : ℕ} {s : BufferSlice}

/-- The slice that `readBufferSlice` makes of a header. -/
def sliceAt (m : Mem) (offset : ℕ) : BufferSlice :=
  newShmSlice m offset (.shm (offset + 20) (m.get32 offset)) offset

/-- **What `readBufferSlice` does**: an error, a slice, or a panic when the end wraps. -/
theorem readBufferSlice_cases (hlen : m.len < 2 ^ 32) (offset : ℕ) :
    (∃ e, readBufferSlice m offset = .ok (.error e)) ∧
      (m.len ≤ offset + 20 ∨ m.len < offset + 20 + m.get32 offset ∧
        offset + 20 + m.get32 offset < 2 ^ 32) ∨
    readBufferSlice m offset = .ok (.ok (sliceAt m offset)) ∧ offset + 20 < m.len ∧
      offset + 20 + m.get32 offset ≤ m.len ∨
    readBufferSlice m offset = .error .sliceBounds ∧ offset + 20 < m.len ∧
      2 ^ 32 ≤ offset + 20 + m.get32 offset := by
  unfold readBufferSlice bufferHeaderSize
  by_cases hoff : offset + 20 ≥ m.len
  · rw [if_pos hoff]
    exact .inl ⟨⟨_, rfl⟩, .inl hoff⟩
  rw [if_neg hoff, u32_of_lt hlen, u32_of_lt (x := offset + 20) (by omega)]
  have hcap := m.get32_lt offset
  simp only []
  by_cases hwrap : offset + 20 + m.get32 offset < 2 ^ 32
  · rw [u32_of_lt hwrap]
    by_cases hend : offset + 20 + m.get32 offset > m.len
    · rw [if_pos hend]
      exact .inl ⟨⟨_, rfl⟩, .inr ⟨hend, hwrap⟩⟩
    · rw [if_neg hend, checkBounds_ok (by omega) (by omega), checkBounds_ok (by omega) (by omega),
        Nat.add_sub_cancel_left]
      exact .inr (.inl ⟨rfl, by omega, by omega⟩)
  · -- the end that wraps is below the start of the data
    have hend : u32 (offset + 20 + m.get32 offset) < offset + 20 := by
      unfold u32
      omega
    rw [if_neg (by omega), checkBounds_ok (by omega) (by omega), checkBounds, if_neg (by omega)]
    exact .inr (.inr ⟨rfl, by omega, by omega⟩)

/-- A slice inside the memory is read. -/
theorem readBufferSlice_eq {a : ℕ} (hlen : m.len < 2 ^ 32) (hoff : a + 20 < m.len)
    (hin : a + 20 + m.get32 a ≤ m.len) : readBufferSlice m a = .ok (.ok (sliceAt m a)) := by
  rcases readBufferSlice_cases hlen a with ⟨-, hwhy⟩ | ⟨hs, -⟩ | ⟨-, -, hwrap⟩
  · omega
  · exact hs
  · omega

/-- The indices of the slice are ordered and inside its capacity exactly if its start and
    size are; a sum that wraps is below the start. -/
theorem sliceAt_indices :
    (0 ≤ (sliceAt m offset).readIndex ∧ (sliceAt m offset).readIndex ≤ (sliceAt m offset).writeIndex ∧
      (sliceAt m offset).writeIndex ≤ (sliceAt m offset).cap) ↔
      m.get32 (offset + 8) + m.get32 (offset + 4) ≤ m.get32 offset := by
  have h4 := m.get32_lt (offset + 4)
  have h8 := m.get32_lt (offset + 8)
  have h0 := m.get32_lt offset
  show 0 ≤ (m.get32 (offset + 8) : ℤ) ∧
    (m.get32 (offset + 8) : ℤ) ≤ (u32 (m.get32 (offset + 8) + m.get32 (offset + 4)) : ℕ) ∧
    ((u32 (m.get32 (offset + 8) + m.get32 (offset + 4)) : ℕ) : ℤ) ≤ (m.get32 offset : ℕ) ↔ _
  unfold u32
  omega

theorem Data.sub_ok {d : Data} {lo hi : ℤ} (h0 : 0 ≤ lo) (h1 : lo ≤ hi)
    (h2 : hi ≤ d.capacity m) : ∃ bs, d.sub m lo hi = .ok bs := by
  unfold Data.sub
  rw [if_pos ⟨h0, h1, h2⟩]
  cases d with
  | shm a n => exact ⟨_, rfl⟩
  | heap bs => exact ⟨_, rfl⟩

/-- Reading between ordered indices does not panic. -/
theorem BufferSlice.read_ok (h0 : 0 ≤ s.readIndex) (h1 : s.readIndex ≤ s.writeIndex)
    (h2 : s.writeIndex ≤ s.data.capacity m) {size : ℤ} (hsize : 0 ≤ size) :
    ∃ r, s.read m size = .ok r := by
  have hn : 0 ≤ (if s.size < size then s.size else size) ∧
      s.readIndex + (if s.size < size then s.size else size) ≤ s.writeIndex := by
    unfold BufferSlice.size
    split_ifs <;> omega
  obtain ⟨bs, hbs⟩ := Data.sub_ok (m := m) (d := s.data) h0
    (show s.readIndex ≤ s.readIndex + (if s.size < size then s.size else size) by omega) (by omega)
  exact ⟨_, by rw [BufferSlice.read, hbs]; rfl⟩

/-- A slice of the shared memory with ordered indices can be read, peeked and skipped. -/
theorem safeSlice_sliceAt (hin : offset + 20 + m.get32 offset ≤ m.len)
    (hidx : m.get32 (offset + 8) + m.get32 (offset + 4) ≤ m.get32 offset) :
    SafeSlice m offset (sliceAt m offset) := by
  obtain ⟨h0, h1, h2⟩ := sliceAt_indices.mpr hidx
  have hcap : (sliceAt m offset).cap = m.get32 offset := rfl
  have hroom : ((sliceAt m offset).data.capacity m : ℤ) = (m.len - (offset + 20) : ℕ) := rfl
  have hread : ∀ size : ℤ, 0 ≤ size → ∃ r, (sliceAt m offset).read m size = .ok r := fun size =>
    BufferSlice.read_ok h0 h1 (by omega)
  refine ⟨rfl, ⟨rfl, hin⟩, ⟨h0, h1, h2⟩, hread, fun size hsize => ?_, fun size hsize => ?_⟩
  · obtain ⟨r, hr⟩ := hread size hsize
    exact ⟨r.1, by rw [BufferSlice.peek, hr]; rfl⟩
  · unfold BufferSlice.skip BufferSlice.size
    split_ifs with hlt
    · show _ ≤ (sliceAt m offset).readIndex + size ∧ (sliceAt m offset).readIndex + size ≤ _
      omega
    · show _ ≤ (sliceAt m offset).readIndex + _ ∧ (sliceAt m offset).readIndex + _ ≤ _
      omega

end

/-- **Main theorem.** On every memory and at every offset, `readBufferSlice` is safe exactly
    if the header there is sound. -/
theorem readBufferSlice_safe_iff {m : Mem} (hlen : m.len < 2 ^ 32) (offset : ℕ) :
    SafeRead m offset ↔ HeaderSound m offset := by
  rcases readBufferSlice_cases hlen offset with ⟨⟨e, he⟩, hwhy⟩ | ⟨hs, hoff, hin⟩ | ⟨hp, hoff, hwrap⟩
  · refine ⟨fun _ hoff => ?_, fun _ => .inl ⟨e, he⟩⟩
    exact ⟨by omega, fun hin => by omega⟩
  · constructor
    · rintro (⟨e, he⟩ | ⟨s, hs', hsafe⟩) _
      · rw [hs] at he
        cases he
      · rw [hs] at hs'
        cases hs'
        exact ⟨by omega, fun _ => sliceAt_indices.mp hsafe.indices⟩
    · intro hsound
      exact .inr ⟨_, hs, safeSlice_sliceAt hin ((hsound hoff).2 hin)⟩
  · constructor
    · rintro (⟨e, he⟩ | ⟨s, hs, -⟩) _
      · rw [hp] at he
        cases he
      · rw [hp] at hs
        cases hs
    · intro hsound
      have := (hsound hoff).1
      omega

/-- A memory of `len` bytes with a header at its start. -/
def headerAt (len cap size start : ℕ) : Mem :=
  (((zeroMem len).set32 0 cap).set32 4 size).set32 8 start

/-- A slice of 10 bytes with 6 written from index 2 on. -/
theorem readBufferSlice_safe_six_bytes :
    (headerAt 40 10 6 2).len < 2 ^ 32 ∧ HeaderSound (headerAt 40 10 6 2) 0 ∧
      SafeRead (headerAt 40 10 6 2) 0 :=
  ⟨by decide, by decide, (readBufferSlice_safe_iff (by decide) 0).mpr (by decide)⟩

/-- **Counterexample.** A capacity of `2 ^ 32 - 1` makes `readBufferSlice` panic. A slice of 4
    bytes whose start is 200 is returned, and reading one byte of it panics. -/
theorem corrupted_header_panics :
    Panics (readBufferSlice (headerAt 40 (2 ^ 32 - 1) 0 0) 0) .sliceBounds ∧
    ∃ s, readBufferSlice (headerAt 40 4 0 200) 0 = .ok (.ok s) ∧ s.cap < s.readIndex ∧
      Panics (s.read (headerAt 40 4 0 200) 1) .sliceBounds :=
  ⟨by decide, _, rfl, by decide, by decide⟩

end Shmipc.Buffer
