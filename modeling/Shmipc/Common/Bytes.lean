import Mathlib.Tactic

/-!
# Byte strings

Big-endian numbers as `encoding/binary` writes and reads them.

* `ofBe_be_mod`, `ofBe_be`: what was written is read back, modulo the width.
* `ofBe_lt`: how large a number of some bytes can be.
-/

namespace Shmipc.Common

/-- The `k` bytes of `v`, most significant first. -/
def be : ℕ → ℕ → List UInt8
  | 0, _ => []
  | k + 1, v => UInt8.ofNat (v / 256 ^ k) :: be k v

/-- The number written most significant byte first. -/
def ofBe : List UInt8 → ℕ
  | [] => 0
  | b :: bs => b.toNat * 256 ^ bs.length + ofBe bs

@[simp] theorem length_be (k v : ℕ) : (be k v).length = k := by
  induction k with
  | zero => rfl
  | succ k ih => rw [be, List.length_cons, ih]

theorem ofBe_be_mod (k v : ℕ) : ofBe (be k v) = v % 256 ^ k := by
  induction k with
  | zero =>
    rw [pow_zero, Nat.mod_one]
    rfl
  | succ k ih =>
    rw [be, ofBe, ih, length_be, Nat.mod_pow_succ, UInt8.toNat_ofNat']
    ring

theorem ofBe_be {k v : ℕ} (h : v < 256 ^ k) : ofBe (be k v) = v := by
  rw [ofBe_be_mod, Nat.mod_eq_of_lt h]

theorem ofBe_lt (bs : List UInt8) : ofBe bs < 256 ^ bs.length := by
  induction bs with
  | nil => exact Nat.one_pos
  | cons b bs ih =>
    have hb := b.toNat_lt
    rw [ofBe, List.length_cons, pow_succ]
    calc b.toNat * 256 ^ bs.length + ofBe bs
        < b.toNat * 256 ^ bs.length + 256 ^ bs.length := by omega
      _ = (b.toNat + 1) * 256 ^ bs.length := by ring
      _ ≤ 256 * 256 ^ bs.length := Nat.mul_le_mul_right _ (by omega)
      _ = 256 ^ bs.length * 256 := by ring

end Shmipc.Common
