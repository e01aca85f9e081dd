import Shmipc.Buffer.Corrupted

/-!
# Size classes

The lists of a manager lie one behind the other in the shared memory, each with its slots.
`IsSlot cs a cap`: there is a slot of capacity `cap` at offset `a`; `Keeps cs T m m'`: no slot
outside `T` has changed.

* `Placed.slot_apart`, `Placed.slot_apart_header`: slots overlap neither each other nor the
  headers of the lists.
-/

namespace Shmipc.Buffer

open Common

structure SizeClass where
  off : ℕ
  n : ℕ
  cap : ℕ
  deriving DecidableEq

namespace SizeClass

/-- The offsets of the slots in the shared memory. -/
def slots (c : SizeClass) : List ℕ := (slotOffsets c.n c.cap).map (c.off + 36 + ·)

/-- Where the region of the list ends. -/
def finish (c : SizeClass) : ℕ := c.off + 36 + c.n * (c.cap + 20)

variable {c : SizeClass} {a b : ℕ}

theorem mem_slots : a ∈ c.slots ↔ ∃ o ∈ slotOffsets c.n c.cap, a = c.off + 36 + o := by
  simp [slots, eq_comm]

theorem slot_bounds (h : a ∈ c.slots) : c.off + 36 ≤ a ∧ a + 20 + c.cap ≤ c.finish := by
  obtain ⟨o, ho, rfl⟩ := mem_slots.mp h
  have := slot_le ho
  unfold finish
  omega

theorem slots_apart (ha : a ∈ c.slots) (hb : b ∈ c.slots) (hne : a ≠ b) :
    a + 20 + c.cap ≤ b ∨ b + 20 + c.cap ≤ a := by
  obtain ⟨o, ho, rfl⟩ := mem_slots.mp ha
  obtain ⟨o', ho', rfl⟩ := mem_slots.mp hb
  have := slot_disjoint ho ho' fun he => hne (by rw [he])
  omega

theorem slots_nodup : c.slots.Nodup := slotOffsets_nodup.map fun _ _ he => Nat.add_left_cancel he

end SizeClass

/-- The lists of a manager: one behind the other. -/
structure Placed (cs : List SizeClass) (len : ℕ) : Prop where
  fits : ∀ c ∈ cs, c.finish ≤ len
  pos : ∀ c ∈ cs, 0 < c.cap
  small : len < 2 ^ 32
  apart : cs.Pairwise fun c c' => c.finish ≤ c'.off

/-- The same with ascending capacities. -/
structure Layout (cs : List SizeClass) (len : ℕ) : Prop extends placed : Placed cs len where
  ascending : cs.Pairwise fun c c' => c.cap < c'.cap

/-- There is a slot of capacity `cap` at offset `a`. -/
def IsSlot (cs : List SizeClass) (a cap : ℕ) : Prop := ∃ c ∈ cs, c.cap = cap ∧ a ∈ c.slots

def allSlots (cs : List SizeClass) : List ℕ := cs.flatMap SizeClass.slots

section Layout

variable {cs : List SizeClass} {len a b cap cap' : ℕ} {c c' : SizeClass}

theorem pairwise_or {α : Type*} {R : α → α → Prop} {l : List α} (h : l.Pairwise R) {x y : α}
    (hx : x ∈ l) (hy : y ∈ l) (hne : x ≠ y) : R x y ∨ R y x := by
  induction h with
  | nil => cases hx
  | cons hall _ ih =>
    rcases List.mem_cons.mp hx with rfl | hx'
    · exact .inl (hall y ((List.mem_cons.mp hy).resolve_left hne.symm))
    · rcases List.mem_cons.mp hy with rfl | hy'
      · exact .inr (hall x hx')
      · exact ih hx' hy'

theorem mem_allSlots : a ∈ allSlots cs ↔ ∃ cap, IsSlot cs a cap := by
  simp only [allSlots, List.mem_flatMap, IsSlot]
  constructor
  · rintro ⟨c, hc, ha⟩
    exact ⟨c.cap, c, hc, rfl, ha⟩
  · rintro ⟨cap, c, hc, -, ha⟩
    exact ⟨c, hc, ha⟩

theorem Placed.classes_apart (h : Placed cs len) (hc : c ∈ cs) (hc' : c' ∈ cs) (hne : c ≠ c') :
    c.finish ≤ c'.off ∨ c'.finish ≤ c.off :=
  pairwise_or h.apart hc hc' hne

theorem Layout.cap_inj (h : Layout cs len) (hc : c ∈ cs) (hc' : c' ∈ cs) (he : c.cap = c'.cap) :
    c = c' := by
  by_contra hne
  rcases pairwise_or h.ascending hc hc' hne with hlt | hlt <;> omega

theorem Placed.slot_bounds (hP : Placed cs len) (h : IsSlot cs a cap) : a + 20 + cap ≤ len := by
  obtain ⟨c, hc, rfl, ha⟩ := h
  exact (SizeClass.slot_bounds ha).2.trans (hP.fits c hc)

theorem Placed.slot_apart (hP : Placed cs len) (h : IsSlot cs a cap) (h' : IsSlot cs b cap')
    (hne : a ≠ b) : a + 20 + cap ≤ b ∨ b + 20 + cap' ≤ a := by
  obtain ⟨c, hc, rfl, ha⟩ := h
  obtain ⟨c', hc', rfl, hb⟩ := h'
  rcases eq_or_ne c c' with rfl | hcc
  · exact SizeClass.slots_apart ha hb hne
  · have := SizeClass.slot_bounds ha
    have := SizeClass.slot_bounds hb
    have := hP.classes_apart hc hc' hcc
    omega

theorem Placed.slot_apart_header (hP : Placed cs len) (h : IsSlot cs a cap) (hc : c ∈ cs) :
    a + 20 + cap ≤ c.off ∨ c.off + 36 ≤ a := by
  obtain ⟨c', hc', rfl, ha⟩ := h
  have := SizeClass.slot_bounds ha
  rcases eq_or_ne c c' with rfl | hcc
  · omega
  · have := hP.classes_apart hc hc' hcc
    have : c.off + 36 ≤ c.finish := by unfold SizeClass.finish; omega
    omega

theorem IsSlot.bounds (h : IsSlot cs a cap) (hL : Layout cs len) : a + 20 + cap ≤ len :=
  hL.placed.slot_bounds h

theorem IsSlot.apart (h : IsSlot cs a cap) (h' : IsSlot cs b cap') (hL : Layout cs len)
    (hne : a ≠ b) : a + 20 + cap ≤ b ∨ b + 20 + cap' ≤ a :=
  hL.placed.slot_apart h h' hne

theorem IsSlot.apart_header (h : IsSlot cs a cap) (hL : Layout cs len) (hc : c ∈ cs) :
    a + 20 + cap ≤ c.off ∨ c.off + 36 ≤ a :=
  hL.placed.slot_apart_header h hc

theorem IsSlot.cap_eq (h : IsSlot cs a cap) (h' : IsSlot cs a cap') (hL : Layout cs len) :
    cap = cap' := by
  obtain ⟨c, hc, rfl, ha⟩ := h
  obtain ⟨c', hc', rfl, ha'⟩ := h'
  by_contra hne
  have := SizeClass.slot_bounds ha
  have := SizeClass.slot_bounds ha'
  have := hL.classes_apart hc hc' fun he => hne (by rw [he])
  omega

theorem Placed.allSlots_nodup (h : Placed cs len) : (allSlots cs).Nodup := by
  refine List.nodup_flatMap.mpr ⟨fun c _ => SizeClass.slots_nodup, h.apart.imp fun hcc => ?_⟩
  intro a ha ha'
  have := SizeClass.slot_bounds ha
  have := SizeClass.slot_bounds ha'
  omega

/-- There are no more slots than bytes. -/
theorem Layout.length_le (h : Layout cs len) {as : List ℕ} (hnd : as.Nodup)
    (has : ∀ a ∈ as, ∃ cap, IsSlot cs a cap) : as.length ≤ len := by
  have hsub : as ⊆ List.range len := fun a ha => by
    obtain ⟨cap, hslot⟩ := has a ha
    have := hslot.bounds h
    exact List.mem_range.mpr (by omega)
  simpa using (hnd.subperm hsub).length_le

theorem Placed.nodup (h : Placed cs len) : cs.Nodup :=
  h.apart.imp fun hle he => by
    rw [he] at hle
    unfold SizeClass.finish at hle
    omega

end Layout

/-! ## Lists over the classes -/

/-- One class gains or loses a slot. -/
theorem flatMap_perm_cons {α β : Type*} [DecidableEq α] {l : List α} (hl : l.Nodup) {x : α}
    (hx : x ∈ l) {f g : α → List β} {y : β} (hfg : (f x).Perm (y :: g x))
    (hne : ∀ z, z ≠ x → f z = g z) : (l.flatMap f).Perm (y :: l.flatMap g) := by
  have hp := List.perm_cons_erase hx
  have hrest : (l.erase x).flatMap f = (l.erase x).flatMap g := by
    refine List.flatMap_congr fun z hz => hne z ?_
    rintro rfl
    exact hl.not_mem_erase hz
  refine (hp.flatMap_right f).trans ?_
  rw [List.flatMap_cons, hrest]
  exact (hfg.append_right _).trans ((hp.flatMap_right g).symm.cons y)

theorem forall₂_left {α β : Type*} {R : α → β → Prop} {l : List α} {l' : List β}
    (h : List.Forall₂ R l l') {x : α} (hx : x ∈ l) : ∃ y ∈ l', R x y := by
  induction h with
  | nil => cases hx
  | cons hR _ ih =>
    rcases List.mem_cons.mp hx with rfl | hx
    · exact ⟨_, List.mem_cons_self, hR⟩
    · obtain ⟨y, hy, hxy⟩ := ih hx
      exact ⟨y, List.mem_cons_of_mem _ hy, hxy⟩

/-! ## Unchanged slots -/

/-- The slots outside `T` are as they were. -/
structure Keeps (cs : List SizeClass) (T : List ℕ) (m m' : Mem) : Prop where
  len : m'.len = m.len
  slot : ∀ a cap, IsSlot cs a cap → a ∉ T → m.SameOn m' a (a + 20 + cap)

/-- The data of the slots outside `T` is as it was. -/
structure KeepsData (cs : List SizeClass) (T : List ℕ) (m m' : Mem) : Prop where
  len : m'.len = m.len
  slot : ∀ a cap, IsSlot cs a cap → a ∉ T → m.SameOn m' (a + 20) (a + 20 + cap)

section Keeps

variable {cs : List SizeClass} {m m' m'' : Mem} {T T' : List ℕ} {a cap : ℕ}

theorem Keeps.refl (cs : List SizeClass) (T : List ℕ) (m : Mem) : Keeps cs T m m :=
  ⟨rfl, fun a cap _ _ => Mem.SameOn.refl m a (a + 20 + cap)⟩

theorem Keeps.trans (h : Keeps cs T m m') (h' : Keeps cs T' m' m'') (hT : ∀ a ∈ T', a ∈ T) :
    Keeps cs T m m'' where
  len := h'.len.trans h.len
  slot a cap hs ha := (h.slot a cap hs ha).trans (h'.slot a cap hs fun ha' => ha (hT a ha'))

theorem Keeps.mono (h : Keeps cs T m m') (hT : ∀ a ∈ T, a ∈ T') : Keeps cs T' m m' where
  len := h.len
  slot a cap hs ha := h.slot a cap hs fun ha' => ha (hT a ha')

theorem Keeps.data (h : Keeps cs T m m') : KeepsData cs T m m' where
  len := h.len
  slot a cap hs ha := (h.slot a cap hs ha).mono (by omega) le_rfl

theorem KeepsData.trans (h : KeepsData cs T m m') (h' : KeepsData cs T' m' m'')
    (hT : ∀ a ∈ T', a ∈ T) : KeepsData cs T m m'' where
  len := h'.len.trans h.len
  slot a cap hs ha := (h.slot a cap hs ha).trans (h'.slot a cap hs fun ha' => ha (hT a ha'))

theorem KeepsData.mono (h : KeepsData cs T m m') (hT : ∀ a ∈ T, a ∈ T') : KeepsData cs T' m m' where
  len := h.len
  slot a cap hs ha := h.slot a cap hs fun ha' => ha (hT a ha')

theorem Keeps.write (hL : Layout cs m.len) (ha : IsSlot cs a cap) (hlen : m'.len = m.len)
    (hs : ∀ lo hi, hi ≤ a ∨ a + 20 + cap ≤ lo → m.SameOn m' lo hi) : Keeps cs [a] m m' where
  len := hlen
  slot b cap' hb hne := by
    have := ha.apart hb hL fun he => hne (by simp [he])
    exact hs _ _ (by omega)

end Keeps

end Shmipc.Buffer
