import Mathlib.Logic.Function.Basic

/-!
# Directories

A partial map that lists things under their keys: exactly those that are present.

* `Lists.insert`, `Lists.erase`: one more thing, and one less;
* `Lists.of_ne`: an entry that is about nothing of this kind;
* `Lists.congr`: the same things under the same keys.
-/

namespace Shmipc.Common

/-- The map has the entry `val i` at `key i` for each `i` that is present, and no other entry of
    this form. -/
def Lists {ι κ ν : Type*} (M : κ → Option ν) (val : ι → ν) (key : ι → κ) (On : ι → Prop) : Prop :=
  ∀ k i, M k = some (val i) ↔ On i ∧ key i = k

namespace Lists

variable {ι κ ν : Type*} {M : κ → Option ν} {val : ι → ν} {key key' : ι → κ}
  {On On' : ι → Prop} {i : ι} {k : κ}

theorem get (h : Lists M val key On) (hi : On i) : M (key i) = some (val i) := (h _ _).mpr ⟨hi, rfl⟩

theorem congr (h : Lists M val key On) (hon : ∀ i, On' i ↔ On i) (hkey : ∀ i, On i → key' i = key i) :
    Lists M val key' On' := by
  intro k i
  rw [h k i, hon i]
  constructor
  · rintro ⟨hi, rfl⟩
    exact ⟨hi, hkey i hi⟩
  · rintro ⟨hi, rfl⟩
    exact ⟨hi, (hkey i hi).symm⟩

theorem eq_none (h : Lists M val key On) (hval : Function.Surjective val)
    (hk : ∀ i, On i → key i ≠ k) : M k = none := by
  rw [Option.eq_none_iff_forall_not_mem]
  intro v hv
  obtain ⟨i, rfl⟩ := hval v
  obtain ⟨hi, hkey⟩ := (h k i).mp hv
  exact hk i hi hkey

theorem key_inj (h : Lists M val key On) (hinj : Function.Injective val) {i j : ι} (hi : On i)
    (hj : On j) (hkey : key i = key j) : i = j := by
  have hval := h.get hi
  rw [hkey, h.get hj] at hval
  exact (hinj (Option.some.inj hval)).symm

variable [DecidableEq κ]

theorem of_ne (h : Lists M val key On) {v : Option ν} (hold : ∀ i, M k ≠ some (val i))
    (hnew : ∀ i, v ≠ some (val i)) : Lists (Function.update M k v) val key On := by
  intro k' i
  rcases eq_or_ne k' k with rfl | hne
  · rw [Function.update_self, ← h]
    exact ⟨fun hv => absurd hv (hnew i), fun hM => absurd hM (hold i)⟩
  · rw [Function.update_of_ne hne, h]

theorem insert (h : Lists M val key On) (hinj : Function.Injective val) (hk : M (key i) = none)
    (hon : ∀ j, On' j ↔ On j ∨ j = i) :
    Lists (Function.update M (key i) (some (val i))) val key On' := by
  intro k j
  rw [hon]
  rcases eq_or_ne k (key i) with rfl | hne
  · rw [Function.update_self, Option.some.injEq]
    constructor
    · intro hv
      obtain rfl := hinj hv
      exact ⟨.inr rfl, rfl⟩
    · rintro ⟨hj | rfl, hkey⟩
      · rw [← hkey, h.get hj] at hk
        cases hk
      · rfl
  · rw [Function.update_of_ne hne, h]
    constructor
    · exact fun hj => ⟨.inl hj.1, hj.2⟩
    · rintro ⟨hj | rfl, hkey⟩
      · exact ⟨hj, hkey⟩
      · exact absurd hkey.symm hne

theorem erase (h : Lists M val key On) (hinj : Function.Injective val) (hi : On i)
    (hon : ∀ j, On' j ↔ On j ∧ j ≠ i) : Lists (Function.update M (key i) none) val key On' := by
  intro k j
  rw [hon]
  rcases eq_or_ne k (key i) with rfl | hne
  · rw [Function.update_self]
    constructor
    · intro hv
      cases hv
    · rintro ⟨⟨hj, hji⟩, hkey⟩
      exact absurd (h.key_inj hinj hj hi hkey) hji
  · rw [Function.update_of_ne hne, h]
    constructor
    · rintro ⟨hj, rfl⟩
      exact ⟨⟨hj, fun hji => hne (by rw [hji])⟩, rfl⟩
    · exact fun hj => ⟨hj.1.1, hj.2⟩

end Lists

end Shmipc.Common
