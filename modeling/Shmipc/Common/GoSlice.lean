import Mathlib.Tactic

/-!
# Slices over shared arrays

Go slices that begin where their array begins: a header with the array, a length and a
capacity. `append` writes behind the length where the array has room, also if another header
still reads there, and else copies to a new array; `s[:0]` keeps the array.

* `Holds h s xs`: read through the header `s`, the arrays `h` give `xs`.
* `Holds.append`, `Holds.append_self`: the new header and the old one after an `append`.
* `Holds.append_of_ne`, `append_array_ne`: a header with another array is not affected, and gets
  no part of the array that is written.
-/

namespace Shmipc.Common.GoSlice

structure Slice where
  array : ℕ
  len : ℕ
  cap : ℕ
  deriving DecidableEq, Repr

/-- The arrays. A cell that was never written is `none`. -/
abbrev Heap (α : Type*) := List (List (Option α))

variable {α : Type*}

/-- `make([]T, 0, cap)`. -/
def make (h : Heap α) (cap : ℕ) : Heap α × Slice :=
  (h ++ [List.replicate cap none], ⟨h.length, 0, cap⟩)

namespace Slice

/-- The array of the slice. -/
def cells (s : Slice) (h : Heap α) : List (Option α) := h[s.array]?.getD []

/-- `s[i]`, for an index inside the slice. -/
def get (s : Slice) (h : Heap α) (i : ℕ) : Option α := (s.cells h)[i]?.join

/-- `s[:0]`. -/
def clear (s : Slice) : Slice := { s with len := 0 }

end Slice

/-- `append(s, x)`; `grow cap` is the capacity of the array that takes the place of a full one of
    capacity `cap`. -/
def append (grow : ℕ → ℕ) (h : Heap α) (s : Slice) (x : α) : Heap α × Slice :=
  if s.len < s.cap then
    (h.set s.array ((s.cells h).set s.len (some x)), { s with len := s.len + 1 })
  else
    (h ++ [(s.cells h).take s.len ++ some x :: List.replicate (grow s.cap - (s.len + 1)) none],
      ⟨h.length, s.len + 1, grow s.cap⟩)

/-! ## What a slice holds -/

structure Holds (h : Heap α) (s : Slice) (xs : List α) : Prop where
  len : s.len = xs.length
  cells : ∃ rest, h[s.array]? = some (xs.map some ++ rest) ∧ xs.length + rest.length = s.cap

variable {grow : ℕ → ℕ} {h : Heap α} {s t : Slice} {xs ys : List α} {x : α}

theorem Holds.array_lt (hs : Holds h s xs) : s.array < h.length := by
  obtain ⟨rest, hcells, -⟩ := hs.cells
  exact (List.getElem?_eq_some_iff.mp hcells).1

theorem holds_make (h : Heap α) (cap : ℕ) : Holds (make h cap).1 (make h cap).2 [] where
  len := rfl
  cells := ⟨List.replicate cap none, List.getElem?_concat_length, by
    rw [List.length_replicate]; exact Nat.zero_add cap⟩

/-- A new array leaves the slices as they are. -/
theorem Holds.concat (hs : Holds h s xs) (a : List (Option α)) : Holds (h ++ [a]) s xs := by
  obtain ⟨rest, hcells, hcap⟩ := hs.cells
  refine ⟨hs.len, rest, ?_, hcap⟩
  rw [List.getElem?_append_left hs.array_lt]
  exact hcells

theorem Holds.get (hs : Holds h s xs) {i : ℕ} (hx : xs[i]? = some x) : s.get h i = some x := by
  obtain ⟨rest, hcells, -⟩ := hs.cells
  have hlt := (List.getElem?_eq_some_iff.mp hx).1
  rw [Slice.get, Slice.cells, hcells, Option.getD_some,
    List.getElem?_append_left (by rw [List.length_map]; exact hlt), List.getElem?_map, hx]
  rfl

theorem Holds.clear (hs : Holds h s xs) : Holds h s.clear [] := by
  obtain ⟨rest, hcells, hcap⟩ := hs.cells
  refine ⟨rfl, xs.map some ++ rest, hcells, ?_⟩
  rw [List.length_append, List.length_map, List.length_nil, Nat.zero_add]
  exact hcap

/-- The cell behind the slice is written. -/
theorem Holds.set_cells (hs : Holds h s xs) (hroom : s.len < s.cap) (x : α) :
    ∃ rest, (h.set s.array ((s.cells h).set s.len (some x)))[s.array]? =
      some (xs.map some ++ some x :: rest) ∧ xs.length + (rest.length + 1) = s.cap := by
  obtain ⟨rest, hcells, hcap⟩ := hs.cells
  have hlen := hs.len
  cases rest with
  | nil =>
    rw [List.length_nil] at hcap
    omega
  | cons r rest =>
    refine ⟨rest, ?_, hcap⟩
    rw [List.getElem?_set_self hs.array_lt, Slice.cells, hcells, Option.getD_some, hlen,
      List.set_append_right _ _ (by rw [List.length_map]), List.length_map, Nat.sub_self,
      List.set_cons_zero]

/-- **`append`**: the header it returns. -/
theorem Holds.append (hs : Holds h s xs) (hgrow : s.cap < grow s.cap) (x : α) :
    Holds (append grow h s x).1 (append grow h s x).2 (xs ++ [x]) := by
  have hlen := hs.len
  unfold GoSlice.append
  split_ifs with hroom
  · obtain ⟨rest, hcells, hcap⟩ := hs.set_cells hroom x
    refine ⟨?_, rest, ?_, ?_⟩
    · rw [List.length_append, ← hlen]
      rfl
    · rw [List.map_append, List.append_assoc]
      exact hcells
    · rw [List.length_append, Nat.add_assoc, Nat.add_comm [x].length]
      exact hcap
  · obtain ⟨rest, hcells, hcap⟩ := hs.cells
    refine ⟨?_, List.replicate (grow s.cap - (s.len + 1)) none, ?_, ?_⟩
    · rw [List.length_append, ← hlen]
      rfl
    · rw [List.getElem?_concat_length, Slice.cells, hcells, Option.getD_some, hlen,
        List.take_left' (List.length_map ..), List.map_append, List.append_assoc]
      rfl
    · rw [List.length_append, List.length_replicate, ← hlen, List.length_singleton]
      simp only []
      omega

/-- **`append`**: the header it was called with. -/
theorem Holds.append_self (hs : Holds h s xs) (x : α) : Holds (GoSlice.append grow h s x).1 s xs := by
  unfold GoSlice.append
  split_ifs with hroom
  · obtain ⟨rest, hcells, hcap⟩ := hs.set_cells hroom x
    exact ⟨hs.len, _, hcells, hcap⟩
  · exact hs.concat _

/-- **`append`**: a header with another array. -/
theorem Holds.append_of_ne (ht : Holds h t ys) (hne : s.array ≠ t.array) (x : α) :
    Holds (GoSlice.append grow h s x).1 t ys := by
  unfold GoSlice.append
  split_ifs with hroom
  · obtain ⟨rest, hcells, hcap⟩ := ht.cells
    refine ⟨ht.len, rest, ?_, hcap⟩
    rw [List.getElem?_set_ne hne]
    exact hcells
  · exact ht.concat _

/-- The array of the header that `append` returns is the old one or a new one. -/
theorem append_array_ne (ht : Holds h t ys) (hne : s.array ≠ t.array) (x : α) :
    (append grow h s x).2.array ≠ t.array := by
  unfold GoSlice.append
  split_ifs with hroom
  · exact hne
  · exact ht.array_lt.ne'

end Shmipc.Common.GoSlice
