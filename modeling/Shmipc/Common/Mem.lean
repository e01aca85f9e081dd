import Mathlib.Tactic

/-!
# Byte memory with 32-bit words

A mapped memory of `len` bytes. Words are little-endian and may stand at any
address. An access past `len` is not excluded here: Go checks the index of the
first byte only, and the code that does so is modelled with its checks.

* `get32_set32`, `get32_congr`, `set32_sameOn`: a word is what was last written
  to it, and a write changes its four bytes only.
* `SameOn m m' lo hi`: the two memories agree on a range; every frame condition
  is stated with it.
* `read_write`: the same for byte strings; `get64_set64`: for 64-bit words.
* `slice`, `paste`: a part of the memory with addresses of its own, and back.
* `SameOff X m m'`: the two memories agree outside a set of addresses; the same
  operation on both keeps it, and so does any operation inside the set.
-/

namespace Shmipc.Common

/-- `uint32` arithmetic is taken modulo `2 ^ 32`. -/
def u32 (x : ℕ) : ℕ := x % 2 ^ 32

theorem u32_of_lt {x : ℕ} (h : x < 2 ^ 32) : u32 x = x := Nat.mod_eq_of_lt h

theorem u32_lt (x : ℕ) : u32 x < 2 ^ 32 := Nat.mod_lt _ (by norm_num)

/-- A `uint32` read as an `int32`. -/
def toInt32 (v : ℕ) : ℤ := if v < 2 ^ 31 then v else (v : ℤ) - 2 ^ 32

/-- An integer stored as an `int32`. -/
def ofInt32 (z : ℤ) : ℕ := (z % 2 ^ 32).toNat

/-- A `uint64` read as an `int64`. -/
def toInt64 (v : ℕ) : ℤ := if v < 2 ^ 63 then v else (v : ℤ) - 2 ^ 64

theorem toInt64_of_lt {v : ℕ} (h : v < 2 ^ 63) : toInt64 v = v := if_pos h

theorem ofInt32_toInt32_add {v : ℕ} {d : ℤ} (h0 : 0 ≤ (v : ℤ) + d) (h : (v : ℤ) + d < 2 ^ 32) :
    ofInt32 (toInt32 v + d) = ((v : ℤ) + d).toNat := by
  unfold ofInt32 toInt32
  split_ifs <;> omega

theorem toInt32_of_lt {v : ℕ} (h : v < 2 ^ 31) : toInt32 v = v := if_pos h

theorem toInt32_eq_zero_iff {v : ℕ} (h : v < 2 ^ 32) : toInt32 v = 0 ↔ v = 0 := by
  unfold toInt32
  split_ifs <;> omega

structure Mem where
  len : ℕ
  byte : ℕ → UInt8

namespace Mem

variable {m m' m'' : Mem} {a lo hi v n : ℕ} {bs : List UInt8}

def set8 (m : Mem) (a : ℕ) (v : UInt8) : Mem :=
  { m with byte := Function.update m.byte a v }

/-- The word at `a`. -/
def get32 (m : Mem) (a : ℕ) : ℕ :=
  (m.byte a).toNat + 2 ^ 8 * (m.byte (a + 1)).toNat + 2 ^ 16 * (m.byte (a + 2)).toNat +
    2 ^ 24 * (m.byte (a + 3)).toNat

def set32 (m : Mem) (a v : ℕ) : Mem :=
  { m with byte := fun x => if a ≤ x ∧ x < a + 4 then UInt8.ofNat (v / 256 ^ (x - a)) else m.byte x }

/-- The `n` bytes from `a` on. -/
def read (m : Mem) (a n : ℕ) : List UInt8 := (List.range n).map fun i => m.byte (a + i)

def write (m : Mem) (a : ℕ) (bs : List UInt8) : Mem :=
  { m with byte := fun x => if a ≤ x ∧ x < a + bs.length then bs.getD (x - a) 0 else m.byte x }

@[simp] theorem len_set8 {b : UInt8} : (m.set8 a b).len = m.len := rfl

@[simp] theorem len_set32 : (m.set32 a v).len = m.len := rfl

/-! ## Agreement on a range -/

/-- The bytes at `lo, …, hi - 1` are the same. -/
def SameOn (m m' : Mem) (lo hi : ℕ) : Prop := ∀ x, lo ≤ x → x < hi → m'.byte x = m.byte x

theorem SameOn.refl (m : Mem) (lo hi : ℕ) : SameOn m m lo hi := fun _ _ _ => rfl

theorem SameOn.trans (h : SameOn m m' lo hi) (h' : SameOn m' m'' lo hi) : SameOn m m'' lo hi :=
  fun x h1 h2 => (h' x h1 h2).trans (h x h1 h2)

theorem SameOn.mono {lo' hi' : ℕ} (h : SameOn m m' lo hi) (hlo : lo ≤ lo') (hhi : hi' ≤ hi) :
    SameOn m m' lo' hi' :=
  fun x h1 h2 => h x (by omega) (by omega)

theorem set8_sameOn {b : UInt8} (h : a < lo ∨ hi ≤ a) : SameOn m (m.set8 a b) lo hi :=
  fun x h1 h2 => Function.update_of_ne (by omega) ..

theorem set32_sameOn (h : a + 4 ≤ lo ∨ hi ≤ a) : SameOn m (m.set32 a v) lo hi :=
  fun x h1 h2 => if_neg (by omega)

theorem write_sameOn (h : a + bs.length ≤ lo ∨ hi ≤ a) : SameOn m (m.write a bs) lo hi :=
  fun x h1 h2 => if_neg (by omega)

theorem byte_set8_self {b : UInt8} : (m.set8 a b).byte a = b := Function.update_self ..

theorem byte_congr (h : SameOn m m' a (a + 1)) : m'.byte a = m.byte a := h a le_rfl (by omega)

theorem get32_congr (h : SameOn m m' a (a + 4)) : m'.get32 a = m.get32 a := by
  unfold get32
  rw [h a le_rfl (by omega), h (a + 1) (by omega) (by omega), h (a + 2) (by omega) (by omega),
    h (a + 3) (by omega) (by omega)]

theorem read_congr (h : SameOn m m' a (a + n)) : m'.read a n = m.read a n := by
  refine List.map_congr_left fun i hi => ?_
  have := List.mem_range.mp hi
  exact h _ (by omega) (by omega)

/-! ## Reading what was written -/

theorem get32_lt (m : Mem) (a : ℕ) : m.get32 a < 2 ^ 32 := by
  unfold get32
  have h0 := (m.byte a).toNat_lt
  have h1 := (m.byte (a + 1)).toNat_lt
  have h2 := (m.byte (a + 2)).toNat_lt
  have h3 := (m.byte (a + 3)).toNat_lt
  omega

theorem get32_set32 (m : Mem) (a v : ℕ) : (m.set32 a v).get32 a = u32 v := by
  have h : ∀ k, k < 4 → ((m.set32 a v).byte (a + k)).toNat = v / 256 ^ k % 256 := by
    intro k hk
    show (if _ then _ else _ : UInt8).toNat = _
    rw [if_pos (by omega), Nat.add_sub_cancel_left]
    exact UInt8.toNat_ofNat'
  have h0 := h 0 (by omega)
  rw [Nat.add_zero] at h0
  unfold get32 u32
  rw [h0, h 1 (by omega), h 2 (by omega), h 3 (by omega)]
  omega

theorem get32_set32_of_lt (h : v < 2 ^ 32) : (m.set32 a v).get32 a = v := by
  rw [get32_set32, u32_of_lt h]

theorem get32_set32_of_ne {x : ℕ} (h : a + 4 ≤ x ∨ x + 4 ≤ a) :
    (m.set32 a v).get32 x = m.get32 x := get32_congr (set32_sameOn h)

theorem get32_set8_of_ne {x : ℕ} {b : UInt8} (h : a < x ∨ x + 4 ≤ a) :
    (m.set8 a b).get32 x = m.get32 x := get32_congr (set8_sameOn h)

theorem byte_set32_of_ne {x : ℕ} (h : a + 4 ≤ x ∨ x < a) : (m.set32 a v).byte x = m.byte x :=
  byte_congr (set32_sameOn h)

theorem byte_set8_of_ne {x : ℕ} {b : UInt8} (h : a ≠ x) : (m.set8 a b).byte x = m.byte x :=
  Function.update_of_ne (Ne.symm h) ..

theorem get32_digit (m : Mem) (a : ℕ) {k : ℕ} (hk : k < 4) :
    UInt8.ofNat (m.get32 a / 256 ^ k) = m.byte (a + k) := by
  have h0 := (m.byte a).toNat_lt
  have h1 := (m.byte (a + 1)).toNat_lt
  have h2 := (m.byte (a + 2)).toNat_lt
  have h3 := (m.byte (a + 3)).toNat_lt
  refine UInt8.toNat_inj.mp ?_
  rw [UInt8.toNat_ofNat']
  unfold get32
  match k with
  | 0 => rw [pow_zero, Nat.div_one]; show _ = (m.byte a).toNat; omega
  | 1 => omega
  | 2 => omega
  | 3 => omega

/-- Writing a word over and back. -/
theorem set32_set32_get32 (m : Mem) (a v : ℕ) : (m.set32 a v).set32 a (m.get32 a) = m := by
  have hbyte : ((m.set32 a v).set32 a (m.get32 a)).byte = m.byte := by
    funext x
    show (if _ then _ else (if _ then _ else _) : UInt8) = _
    split_ifs with hx
    · have := get32_digit m a (show x - a < 4 by omega)
      rwa [Nat.add_sub_cancel' hx.1] at this
    · rfl
  calc (m.set32 a v).set32 a (m.get32 a)
      = { len := m.len, byte := ((m.set32 a v).set32 a (m.get32 a)).byte } := rfl
    _ = m := by rw [hbyte]

@[simp] theorem length_read : (m.read a n).length = n := by simp [read]

theorem read_append (m : Mem) (a n k : ℕ) : m.read a (n + k) = m.read a n ++ m.read (a + n) k := by
  simp only [read, List.range_add, List.map_append, List.map_map, Function.comp_def, Nat.add_assoc]

theorem read_write (m : Mem) (a : ℕ) (bs : List UInt8) :
    (m.write a bs).read a bs.length = bs := by
  refine List.ext_getElem (by simp) fun i h1 h2 => ?_
  have hi : i < bs.length := h2
  simp only [read, List.getElem_map, List.getElem_range, write]
  rw [if_pos (by omega), Nat.add_sub_cancel_left]
  simp [List.getD, hi]

/-! ## 64-bit words -/

def get64 (m : Mem) (a : ℕ) : ℕ := m.get32 a + 2 ^ 32 * m.get32 (a + 4)

def set64 (m : Mem) (a v : ℕ) : Mem := (m.set32 a v).set32 (a + 4) (v / 2 ^ 32)

theorem set64_sameOn (h : a + 8 ≤ lo ∨ hi ≤ a) : SameOn m (m.set64 a v) lo hi :=
  (set32_sameOn (by omega)).trans (set32_sameOn (by omega))

theorem get64_congr (h : SameOn m m' a (a + 8)) : m'.get64 a = m.get64 a := by
  unfold get64
  rw [get32_congr (h.mono le_rfl (by omega)), get32_congr (h.mono (by omega) le_rfl)]

theorem get64_set64 (h : v < 2 ^ 64) : (m.set64 a v).get64 a = v := by
  unfold get64 set64
  rw [get32_set32_of_ne (by omega), get32_set32, get32_set32]
  unfold u32
  omega

theorem get64_set64_of_ne {x : ℕ} (h : a + 8 ≤ x ∨ x + 8 ≤ a) :
    (m.set64 a v).get64 x = m.get64 x := get64_congr (set64_sameOn h)

theorem get64_set32_of_ne {x : ℕ} (h : a + 4 ≤ x ∨ x + 8 ≤ a) :
    (m.set32 a v).get64 x = m.get64 x := get64_congr (set32_sameOn h)

theorem get32_set64_of_ne {x : ℕ} (h : a + 8 ≤ x ∨ x + 4 ≤ a) :
    (m.set64 a v).get32 x = m.get32 x := get32_congr (set64_sameOn h)

/-! ## Slices -/

/-- The slice `m[lo:hi]`: its address 0 is `lo`. What an access past its end meets is what
    stands in `m` there. -/
def slice (m : Mem) (lo hi : ℕ) : Mem where
  len := hi - lo
  byte x := m.byte (lo + x)

/-- The memory after the slice at `lo` has become `data`. -/
def paste (m : Mem) (lo : ℕ) (data : Mem) : Mem :=
  { m with byte := fun x => if lo ≤ x ∧ x < lo + data.len then data.byte (x - lo) else m.byte x }

@[simp] theorem len_slice : (m.slice lo hi).len = hi - lo := rfl

theorem get32_slice : (m.slice lo hi).get32 a = m.get32 (lo + a) := rfl

theorem get64_slice : (m.slice lo hi).get64 a = m.get64 (lo + a) := rfl

theorem slice_set32 : (m.set32 (lo + a) v).slice lo hi = (m.slice lo hi).set32 a v := by
  unfold slice set32
  congr 1
  funext x
  simp only [Nat.add_le_add_iff_left, Nat.add_assoc, Nat.add_lt_add_iff_left,
    Nat.add_sub_add_left]

theorem slice_set64 : (m.set64 (lo + a) v).slice lo hi = (m.slice lo hi).set64 a v := by
  unfold set64
  rw [Nat.add_assoc, slice_set32, slice_set32]

theorem SameOn.slice {n k : ℕ} (h : SameOn m m' (lo + n) (lo + k)) :
    SameOn (m.slice lo hi) (m'.slice lo hi) n k :=
  fun x h1 h2 => h (lo + x) (by omega) (by omega)

theorem slice_paste {data : Mem} : SameOn data ((m.paste lo data).slice lo hi) 0 data.len := by
  intro x _ hx
  show (if _ then _ else _ : UInt8) = _
  rw [if_pos (by omega), Nat.add_sub_cancel_left]

theorem paste_sameOn {data : Mem} {n k : ℕ} (h : lo + data.len ≤ n ∨ k ≤ lo) :
    SameOn m (m.paste lo data) n k :=
  fun x h1 h2 => if_neg (by omega)

/-! ## Counters -/

/-- `atomic.AddInt32`: the memory and the new value. -/
def addInt32 (m : Mem) (a : ℕ) (d : ℤ) : Mem × ℤ :=
  let v := ofInt32 (toInt32 (m.get32 a) + d)
  (m.set32 a v, toInt32 v)

theorem addInt32_sameOn {d : ℤ} (h : a + 4 ≤ lo ∨ hi ≤ a) : SameOn m (m.addInt32 a d).1 lo hi :=
  set32_sameOn h

@[simp] theorem len_addInt32 {d : ℤ} : (m.addInt32 a d).1.len = m.len := rfl

/-- While the sum is a small natural number, the counter is one. -/
theorem get32_addInt32 {d : ℤ} (h0 : 0 ≤ (m.get32 a : ℤ) + d) (h : (m.get32 a : ℤ) + d < 2 ^ 32) :
    (m.addInt32 a d).1.get32 a = ((m.get32 a : ℤ) + d).toNat := by
  unfold addInt32
  rw [get32_set32, ofInt32_toInt32_add h0 h, u32_of_lt (by omega)]

theorem addInt32_snd {d : ℤ} (h0 : 0 ≤ (m.get32 a : ℤ) + d) (h : (m.get32 a : ℤ) + d < 2 ^ 31) :
    (m.addInt32 a d).2 = (m.get32 a : ℤ) + d := by
  show toInt32 (ofInt32 _) = _
  rw [ofInt32_toInt32_add h0 (by omega), toInt32_of_lt (by omega)]
  omega

/-- In general a counter counts modulo `2 ^ 32`. -/
theorem get32_addInt32_modEq (m : Mem) (a : ℕ) (d : ℤ) :
    ((m.addInt32 a d).1.get32 a : ℤ) ≡ m.get32 a + d [ZMOD 2 ^ 32] := by
  unfold addInt32
  rw [get32_set32]
  unfold u32 ofInt32 toInt32 Int.ModEq
  split_ifs <;> omega

/-- What was added can be taken away again. -/
theorem addInt32_back (m : Mem) (a : ℕ) (d : ℤ) :
    ((m.addInt32 a d).1.addInt32 a (-d)).1 = m := by
  have hlt := m.get32_lt a
  have hword : ((m.addInt32 a d).1.get32 a : ℤ) ≡ m.get32 a + d [ZMOD 2 ^ 32] :=
    get32_addInt32_modEq m a d
  have hback : ofInt32 (toInt32 ((m.addInt32 a d).1.get32 a) + -d) = m.get32 a := by
    have := (m.addInt32 a d).1.get32_lt a
    unfold Int.ModEq at hword
    unfold ofInt32 toInt32
    split_ifs <;> omega
  show (m.addInt32 a d).1.set32 a _ = m
  rw [hback]
  exact set32_set32_get32 m a _

/-! ## Agreement outside a set of addresses -/

structure SameOff (X : ℕ → Prop) (m m' : Mem) : Prop where
  len : m'.len = m.len
  byte : ∀ x, ¬ X x → m'.byte x = m.byte x

section SameOff

variable {X : ℕ → Prop}

theorem SameOff.refl (X : ℕ → Prop) (m : Mem) : SameOff X m m := ⟨rfl, fun _ _ => rfl⟩

theorem SameOff.symm (h : SameOff X m m') : SameOff X m' m :=
  ⟨h.len.symm, fun x hx => (h.byte x hx).symm⟩

theorem SameOff.trans (h : SameOff X m m') (h' : SameOff X m' m'') : SameOff X m m'' :=
  ⟨h'.len.trans h.len, fun x hx => (h'.byte x hx).trans (h.byte x hx)⟩

theorem SameOff.sameOn (h : SameOff X m m') (hX : ∀ x, lo ≤ x → x < hi → ¬ X x) :
    SameOn m m' lo hi :=
  fun x h1 h2 => h.byte x (hX x h1 h2)

theorem SameOff.set8 (h : SameOff X m m') (a : ℕ) (v : UInt8) :
    SameOff X (m.set8 a v) (m'.set8 a v) := by
  refine ⟨h.len, fun x hx => ?_⟩
  rcases eq_or_ne a x with rfl | hne
  · rw [byte_set8_self, byte_set8_self]
  · rw [byte_set8_of_ne hne, byte_set8_of_ne hne, h.byte x hx]

theorem SameOff.set32 (h : SameOff X m m') (a v : ℕ) : SameOff X (m.set32 a v) (m'.set32 a v) := by
  refine ⟨h.len, fun x hx => ?_⟩
  show (if _ then _ else _ : UInt8) = if _ then _ else _
  rw [h.byte x hx]

theorem SameOff.addInt32 (h : SameOff X m m') (ha : ∀ x, a ≤ x → x < a + 4 → ¬ X x) (d : ℤ) :
    SameOff X (m.addInt32 a d).1 (m'.addInt32 a d).1 := by
  unfold Mem.addInt32
  rw [get32_congr (h.sameOn ha)]
  exact h.set32 a _

theorem sameOff_addInt32 (m : Mem) (ha : ∀ x, a ≤ x → x < a + 4 → X x) (d : ℤ) :
    SameOff X m (m.addInt32 a d).1 := by
  refine ⟨rfl, fun x hx => byte_set32_of_ne ?_⟩
  by_contra hin
  exact hx (ha x (by omega) (by omega))

end SameOff

end Mem

end Shmipc.Common
