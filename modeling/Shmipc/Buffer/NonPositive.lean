import Shmipc.Buffer.Flat

/-!
# Readers with a size that is not positive

`ReadBytes`, `ReadString` and `Peek` return before they look at the buffer when `size <= 0`.
`Discard` has no such test (buffer.go:413-430): it takes the front slice, which an empty
buffer does not have, and `skip` (buffer_slice.go:181-189) adds a negative `size` to the
read index.

Results:
* `discard_nonPositive`: what `Discard` does then.
* `harmless_iff`: the three readers are harmless in every state, `Discard` exactly for size 0
  on a buffer with a slice.
* `discard_takes_back`: runs for the two ways in which it is not.
-/

namespace Shmipc.Buffer

open Common LinkedBuffer

/-! ## The property -/

/-- The readers that take a size. -/
inductive SizedReader
  | readBytes
  | readString
  | peek
  | discard
  deriving DecidableEq

namespace SizedReader

def call (size : ℤ) : SizedReader → Call
  | readBytes => .readBytes size
  | readString => .readString size
  | peek => .peek size
  | discard => .discard size

/-- The reply that gives no bytes. -/
def nothing : SizedReader → Reply
  | readBytes | readString | peek => .bytes []
  | discard => .count 0

end SizedReader

/-- The call returns, without a `readMore`: it gives no bytes, and the unread bytes, `Len()`
    and the slice list are what they were. -/
structure Harmless (bm : Manager) (m : Mem) (l : LinkedBuffer) (r : SizedReader) (size : ℤ) :
    Prop where
  ready : (r.call size).Ready l.len
  returns : ∃ m' l', (r.call size).run bm m l = .ok (m', l', r.nothing) ∧
    l'.unread m' = l.unread m ∧ l'.len = l.len ∧ l'.slices = l.slices

/-- The states of a receive buffer: `Len()` is not negative, and no slice is read beyond its
    write index. -/
structure LinkedBuffer.Ordered (l : LinkedBuffer) : Prop where
  len : 0 ≤ l.len
  slices : ∀ s ∈ l.slices, s.readIndex ≤ s.writeIndex

section Sizes

variable {cs : List SizeClass} {bm : Manager} {m : Mem} {l : LinkedBuffer} {s : BufferSlice}
  {rest : List BufferSlice} {size : ℤ}

/-- Every receive buffer is in such a state. -/
theorem ordered_of_reachable {r : Receiver} (hR : Ready cs bm m)
    (hr : (Receiver.runs bm m).ReachableWhen (Receiver.Allowed cs bm) r) : r.buf.Ordered := by
  obtain ⟨others, free, h⟩ := recvOk_of_reachable hR hr
  refine ⟨?_, fun s hs => (h.bounds s hs).ordered⟩
  rw [h.len]
  exact Int.natCast_nonneg _

/-! ## `Discard` -/

/-- An empty buffer has no front slice. -/
theorem discard_empty (hs : l.slices = []) : l.discard bm m size = .error .nilDereference := by
  unfold LinkedBuffer.discard
  rw [LinkedBuffer.discardLoop, LinkedBuffer.front, hs]
  rfl

/-- **`Discard`** of a size that is not positive moves the read index of the front slice back,
    makes `Len()` larger and returns the size. -/
theorem discard_nonPositive (hl : l.Ordered) (hs : l.slices = s :: rest) (hsize : size ≤ 0) :
    l.discard bm m size =
      .ok (m, { l.setSlice 0 (s.advance size) with len := l.len - size }, size) := by
  have hfront := hl.slices s (hs ▸ List.mem_cons_self)
  have hmin : min size s.size = size := min_eq_left (by unfold BufferSlice.size; omega)
  unfold LinkedBuffer.discard
  rw [LinkedBuffer.discardLoop, front_eq hs]
  simp only [bind, Except.bind, pure, Except.pure, skip_eq, hmin]
  rw [if_pos (sub_self size)]
  rfl

/-- A slice read by nothing is the slice. -/
theorem setSlice_advance_zero (hs : l.slices = s :: rest) :
    (l.setSlice 0 (s.advance 0)).slices = l.slices := by
  rw [setSlice_zero hs, hs, BufferSlice.advance, Int.add_zero]

/-! ## The result -/

/-- **Main theorem.** In every state and for every size that is not positive, `ReadBytes`,
    `ReadString` and `Peek` are harmless; `Discard` is, exactly if the size is 0 and there is a
    slice. -/
theorem harmless_iff (bm : Manager) (m : Mem) (hl : l.Ordered) (hsize : size ≤ 0)
    (r : SizedReader) :
    Harmless bm m l r size ↔ (r = .discard → size = 0 ∧ l.slices ≠ []) := by
  constructor
  · rintro h rfl
    obtain ⟨m', l', hrun, -, -, -⟩ := h.returns
    obtain ⟨⟨m1, l1, n⟩, hdiscard, hret⟩ := Go.bind_ok.mp hrun
    cases hs : l.slices with
    | nil =>
      rw [discard_empty hs] at hdiscard
      cases hdiscard
    | cons s rest =>
      rw [discard_nonPositive hl hs hsize] at hdiscard
      cases hdiscard
      cases hret
      exact ⟨rfl, List.cons_ne_nil s rest⟩
  · intro h
    cases r with
    | readBytes =>
      refine ⟨.inl hsize, m, l, ?_, rfl, rfl, rfl⟩
      simp only [SizedReader.call, Call.run, LinkedBuffer.readBytes, if_pos hsize]
      rfl
    | readString =>
      refine ⟨.inl hsize, m, l, ?_, rfl, rfl, rfl⟩
      simp only [SizedReader.call, Call.run, LinkedBuffer.readString, if_pos hsize]
      rfl
    | peek =>
      refine ⟨.inl hsize, m, l, ?_, rfl, rfl, rfl⟩
      simp only [SizedReader.call, Call.run, LinkedBuffer.peek, if_pos hsize]
      rfl
    | discard =>
      obtain ⟨rfl, hne⟩ := h rfl
      obtain ⟨s, rest, hs⟩ := List.exists_cons_of_ne_nil hne
      have hsame := setSlice_advance_zero hs
      refine ⟨hl.len, m, { l.setSlice 0 (s.advance 0) with len := l.len - 0 }, ?_, ?_,
        Int.sub_zero _, hsame⟩
      · simp only [SizedReader.call, Call.run, discard_nonPositive hl hs hsize]
        rfl
      · unfold LinkedBuffer.unread
        exact congrArg (List.flatMap _) hsame

end Sizes

/-- The three readers with size -1, and `Discard` with size 0. -/
theorem harmless_six_bytes :
    [SizedReader.readBytes, .readString, .peek].Forall (fun r =>
      Harmless fourSlots.2 sixBytesRead.mem sixBytesRead.buf r (-1)) ∧
    Harmless fourSlots.2 sixBytesRead.mem sixBytesRead.buf .discard 0 := by
  have hl := ordered_of_reachable fourSlots_ready sixBytesRead_reachable
  refine ⟨?_, ?_⟩
  · refine List.forall_iff_forall_mem.mpr fun r hr => ?_
    refine (harmless_iff _ _ hl (by decide) r).mpr fun he => ?_
    rw [he] at hr
    revert hr
    decide
  · exact (harmless_iff _ _ hl le_rfl .discard).mpr fun _ => ⟨rfl, by decide +kernel⟩

/-- **Counterexample.** `Discard(0)` on a new buffer is a nil dereference. With 5 unread bytes,
    `Discard(-2)` returns -2 and two bytes that were read can be read again; `Discard(-4)` moves
    the read index before the slice, and the next `ReadBytes` panics. -/
theorem discard_takes_back :
    ({} : LinkedBuffer).discard fourSlots.2 fourSlots.1 0 = .error .nilDereference ∧
    (Receiver.runs fourSlots.2 fourSlots.1).ReachableWhen
      (Receiver.Allowed [⟨8, 4, 4⟩] fourSlots.2) sixBytesRead ∧
    sixBytesRead.buf.unread sixBytesRead.mem = [4, 5, 6, 7, 8] ∧ sixBytesRead.buf.len = 5 ∧
    (∃ m l, sixBytesRead.buf.discard fourSlots.2 sixBytesRead.mem (-2) = .ok (m, l, -2) ∧
      l.unread m = [2, 3, 4, 5, 6, 7, 8] ∧ l.len = 7) ∧
    ∃ m l, sixBytesRead.buf.discard fourSlots.2 sixBytesRead.mem (-4) = .ok (m, l, -4) ∧
      l.readBytes fourSlots.2 m 1 = .error .sliceBounds := by
  refine ⟨discard_empty rfl, sixBytesRead_reachable, by decide +kernel, by decide +kernel, ?_, ?_⟩
  · exact ⟨_, _, rfl, by decide +kernel, by decide +kernel⟩
  · exact ⟨_, _, rfl, rfl⟩

end Shmipc.Buffer
