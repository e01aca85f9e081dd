import Shmipc.Buffer.Manager

/-!
# The manager's calls, list by list

`allocShmBuffer` and `allocShmBuffers` are loops of `pop`s over the lists of the manager.
What holds of each `pop` holds of the calls.

* `Popped`: the `pop`s behind the slices that a call returns.
* `Twins`, `Agree`: two managers on two memories. Where the lists agree, the calls do
  (`allocShmBuffer_agree`, `allocShmBuffers_agree`); with one manager on one memory, an
  invariant of `pop` is an invariant of the calls.
-/

namespace Shmipc.Buffer

open Common

section Popped

variable {b : BufferList} {bs bs' : List BufferList} {bm : Manager} {m m' m'' : Mem}
  {s : BufferSlice} {ss ss' : List BufferSlice} {e : Err} {size : ℕ}

theorem popLoop_error (b : BufferList) : ∀ (k o : ℕ) (m m' : Mem),
    popLoop b k o m = .ok (m', .error e) → m' = (m.addInt32 b.size 1).1 ∧ e = .noMoreBuffer := by
  intro k
  induction k with
  | zero =>
    intro o m m' h
    cases h
    exact ⟨rfl, rfl⟩
  | succ k ih =>
    intro o m m' h
    unfold popLoop at h
    obtain ⟨-, -, h⟩ := Go.bind_ok.mp h
    simp only [] at h
    by_cases hnext : hasNext m (b.regionStart + o) = true
    · rw [if_pos hnext] at h
      split_ifs at h with hhead
      · obtain ⟨-, -, h⟩ := Go.bind_ok.mp h
        cases h
      · exact ih _ m m' h
    · rw [if_neg hnext] at h
      split_ifs at h with hlast
      · cases h
        exact ⟨rfl, rfl⟩
      · exact ih _ m m' h

/-- A `pop` that fails leaves the memory as it was. -/
theorem pop_error (h : b.pop m = .ok (m', .error e)) : m' = m ∧ e = .noMoreBuffer := by
  have hback := m.addInt32_back b.size (-1)
  rw [neg_neg] at hback
  unfold BufferList.pop at h
  simp only [] at h
  split_ifs at h with hr
  · cases h
    exact ⟨hback, rfl⟩
  · obtain ⟨rfl, rfl⟩ := popLoop_error b _ _ _ _ h
    exact ⟨hback, rfl⟩

/-- `pop`s of the lists `bs` that give the slices `ss`, one after the other. -/
inductive Popped (bs : List BufferList) : Mem → List BufferSlice → Mem → Prop
  | nil {m : Mem} : Popped bs m [] m
  | cons {b : BufferList} {m m1 m' : Mem} {s : BufferSlice} {ss : List BufferSlice} :
      b ∈ bs → b.pop m = .ok (m1, .ok s) → Popped bs m1 ss m' → Popped bs m (s :: ss) m'

theorem Popped.mono (h : Popped bs m ss m') (hsub : ∀ b ∈ bs, b ∈ bs') : Popped bs' m ss m' := by
  induction h with
  | nil => exact .nil
  | cons hb hpop _ ih => exact .cons (hsub _ hb) hpop ih

theorem Popped.append (h : Popped bs m ss m') (h' : Popped bs m' ss' m'') :
    Popped bs m (ss ++ ss') m'' := by
  induction h with
  | nil => exact h'
  | cons hb hpop _ ih => exact .cons hb hpop (ih h')

theorem allocLoop_popped : ∀ {bs : List BufferList} {m : Mem} {r : Except Err BufferSlice},
    allocLoop size bs m = .ok (m', r) →
    (m' = m ∧ r = .error .noMoreBuffer) ∨ ∃ s, r = .ok s ∧ Popped bs m [s] m' := by
  intro bs
  induction bs with
  | nil =>
    intro m r h
    cases h
    exact .inl ⟨rfl, rfl⟩
  | cons b bs ih =>
    intro m r h
    have hrest : allocLoop size bs m = .ok (m', r) →
        (m' = m ∧ r = .error .noMoreBuffer) ∨ ∃ s, r = .ok s ∧ Popped (b :: bs) m [s] m' := by
      intro h
      refine (ih h).imp_right ?_
      rintro ⟨s, hr, hp⟩
      exact ⟨s, hr, hp.mono fun _ hb => List.mem_cons_of_mem _ hb⟩
    unfold allocLoop at h
    split_ifs at h with hsize
    · obtain ⟨⟨m1, r1⟩, hpop, hret⟩ := Go.bind_ok.mp h
      cases r1 with
      | ok s =>
        cases hret
        exact .inr ⟨s, rfl, .cons List.mem_cons_self hpop .nil⟩
      | error e =>
        obtain ⟨rfl, -⟩ := pop_error hpop
        exact hrest hret
    · exact hrest h

/-- The slice that `allocShmBuffer` returns was popped. -/
theorem allocShmBuffer_popped {r : Except Err BufferSlice}
    (h : bm.allocShmBuffer m size = .ok (m', r)) :
    (m' = m ∧ r = .error .noMoreBuffer) ∨ ∃ s, r = .ok s ∧ Popped bm.lists m [s] m' := by
  unfold Manager.allocShmBuffer at h
  split_ifs at h with hmax
  · exact allocLoop_popped h
  · cases h
    exact .inl ⟨rfl, rfl⟩

theorem popMany_popped : ∀ {k : ℕ} {remain remain' : ℤ} {m : Mem} {ss : List BufferSlice},
    popMany b k remain m = .ok (m', ss, remain') → Popped [b] m ss m' := by
  intro k
  induction k with
  | zero =>
    intro remain remain' m ss h
    cases h
    exact .nil
  | succ k ih =>
    intro remain remain' m ss h
    unfold popMany at h
    split_ifs at h with hr
    · obtain ⟨⟨m1, r1⟩, hpop, hret⟩ := Go.bind_ok.mp h
      cases r1 with
      | ok s =>
        obtain ⟨⟨m2, ss2, r2⟩, hrest, hret⟩ := Go.bind_ok.mp hret
        cases hret
        exact .cons List.mem_cons_self hpop (ih hrest)
      | error e =>
        obtain ⟨rfl, -⟩ := pop_error hpop
        cases hret
        exact .nil
    · cases h
      exact .nil

theorem allocManyLoop_popped : ∀ {bs : List BufferList} {remain remain' : ℤ} {m : Mem}
    {ss : List BufferSlice}, allocManyLoop bs remain m = .ok (m', ss, remain') →
    Popped bs m ss m' := by
  intro bs
  induction bs with
  | nil =>
    intro remain remain' m ss h
    cases h
    exact .nil
  | cons b bs ih =>
    intro remain remain' m ss h
    unfold allocManyLoop at h
    split_ifs at h with hr
    · obtain ⟨⟨m1, ss1, r1⟩, hmany, h⟩ := Go.bind_ok.mp h
      obtain ⟨⟨m2, ss2, r2⟩, hrest, h⟩ := Go.bind_ok.mp h
      cases h
      exact ((popMany_popped hmany).mono (by simp)).append
        ((ih hrest).mono fun _ hb => List.mem_cons_of_mem _ hb)
    · cases h
      exact .nil

/-- The slices that `allocShmBuffers` returns were popped, in this order. -/
theorem allocShmBuffers_popped {z : ℤ} (h : bm.allocShmBuffers m size = .ok (m', ss, z)) :
    Popped bm.lists m ss m' := by
  obtain ⟨⟨m1, ss1, r1⟩, hloop, h⟩ := Go.bind_ok.mp h
  cases h
  exact (allocManyLoop_popped hloop).mono fun _ hb => List.mem_reverse.mp hb

end Popped

/-! ## Two managers -/

/-- Both calls return the same, and related memories. -/
def Agree {α : Type} (R : Mem → Mem → Prop) (x y : Go (Mem × α)) : Prop :=
  ∃ m m' a, x = .ok (m, a) ∧ y = .ok (m', a) ∧ R m m'

/-- Two lists that work alike on related memories. -/
structure Twins (R : Mem → Mem → Prop) (b b' : BufferList) : Prop where
  pop : ∀ {m m'}, R m m' → Agree R (b.pop m) (b'.pop m')
  capPerBuffer : ∀ {m m'}, R m m' → m'.get32 b'.capPerBuffer = m.get32 b.capPerBuffer
  size : ∀ {m m'}, R m m' → m'.get32 b'.size = m.get32 b.size

section Agree

variable {R : Mem → Mem → Prop} {b b' : BufferList} {bs bs' : List BufferList} {bm bm' : Manager}
  {m m' : Mem} {size : ℕ}

theorem Agree.of_ok {α : Type} {a : α} (h : R m m') : Agree R (.ok (m, a)) (.ok (m', a)) :=
  ⟨m, m', a, rfl, rfl, h⟩

theorem Agree.bind {α β : Type} {x y : Go (Mem × α)} {f g : Mem × α → Go (Mem × β)}
    (h : Agree R x y) (hfg : ∀ m m' a, R m m' → Agree R (f (m, a)) (g (m', a))) :
    Agree R (x >>= f) (y >>= g) := by
  obtain ⟨m, m', a, rfl, rfl, hR⟩ := h
  exact hfg m m' a hR

theorem allocLoop_agree (h : List.Forall₂ (Twins R) bs bs') :
    ∀ {m m'}, R m m' → Agree R (allocLoop size bs m) (allocLoop size bs' m') := by
  induction h with
  | nil => exact fun hR => .of_ok hR
  | cons hb _ ih =>
    intro m m' hR
    unfold allocLoop
    rw [hb.capPerBuffer hR]
    split_ifs with hsize
    · refine (hb.pop hR).bind fun m m' r hR => ?_
      cases r with
      | ok s => exact .of_ok hR
      | error e => exact ih hR
    · exact ih hR

theorem allocShmBuffer_agree (h : List.Forall₂ (Twins R) bm.lists bm'.lists)
    (hmax : bm'.maxSliceSize = bm.maxSliceSize) (hR : R m m') :
    Agree R (bm.allocShmBuffer m size) (bm'.allocShmBuffer m' size) := by
  unfold Manager.allocShmBuffer
  rw [hmax]
  split_ifs
  · exact allocLoop_agree h hR
  · exact .of_ok hR

theorem popMany_agree (h : Twins R b b') : ∀ (k : ℕ) (remain : ℤ) {m m' : Mem}, R m m' →
    Agree R (popMany b k remain m) (popMany b' k remain m') := by
  intro k
  induction k with
  | zero => exact fun _ _ _ hR => .of_ok hR
  | succ k ih =>
    intro remain m m' hR
    unfold popMany
    split_ifs
    · refine (h.pop hR).bind fun m m' r hR => ?_
      cases r with
      | ok s => exact (ih _ hR).bind fun m m' r hR => .of_ok hR
      | error e => exact .of_ok hR
    · exact .of_ok hR

theorem allocManyLoop_agree (h : List.Forall₂ (Twins R) bs bs') : ∀ (remain : ℤ) {m m' : Mem},
    R m m' → Agree R (allocManyLoop bs remain m) (allocManyLoop bs' remain m') := by
  induction h with
  | nil => exact fun _ _ _ hR => .of_ok hR
  | cons hb _ ih =>
    intro remain m m' hR
    unfold allocManyLoop
    rw [hb.size hR]
    split_ifs
    · refine (popMany_agree hb _ _ hR).bind fun m m' r hR => ?_
      exact (ih _ hR).bind fun m m' r hR => .of_ok hR
    · exact .of_ok hR

theorem allocShmBuffers_agree (h : List.Forall₂ (Twins R) bm.lists bm'.lists) (hR : R m m') :
    Agree R (bm.allocShmBuffers m size) (bm'.allocShmBuffers m' size) := by
  unfold Manager.allocShmBuffers
  refine (allocManyLoop_agree ?_ _ hR).bind fun m m' r hR => .of_ok hR
  exact List.forall₂_reverse_iff.mpr h

/-! ## One manager -/

variable {I : Mem → Prop}

/-- A list with an invariant is its own twin. -/
theorem Twins.of_invariant (h : ∀ {m}, I m → ∃ m' r, b.pop m = .ok (m', r) ∧ I m') :
    Twins (fun m m' => m' = m ∧ I m) b b where
  pop := by
    rintro m _ ⟨rfl, hI⟩
    obtain ⟨m', r, hpop, hI'⟩ := h hI
    exact ⟨m', m', r, hpop, hpop, rfl, hI'⟩
  capPerBuffer := by rintro m _ ⟨rfl, -⟩; rfl
  size := by rintro m _ ⟨rfl, -⟩; rfl

theorem Agree.self {α : Type} {x : Go (Mem × α)} (h : Agree (fun m m' => m' = m ∧ I m) x x) :
    ∃ m a, x = .ok (m, a) ∧ I m := by
  obtain ⟨m, -, a, hx, -, -, hI⟩ := h
  exact ⟨m, a, hx, hI⟩

/-- An invariant of each `pop` is one of the allocations, and they return. -/
theorem alloc_invariant
    (h : ∀ b ∈ bm.lists, ∀ {m}, I m → ∃ m' r, b.pop m = .ok (m', r) ∧ I m') (hI : I m) :
    (∃ m' r, bm.allocShmBuffer m size = .ok (m', r) ∧ I m') ∧
      ∃ m' r, bm.allocShmBuffers m size = .ok (m', r) ∧ I m' := by
  have hself : List.Forall₂ (Twins fun m m' => m' = m ∧ I m) bm.lists bm.lists :=
    List.forall₂_same.mpr fun b hb => Twins.of_invariant (h b hb)
  exact ⟨(allocShmBuffer_agree hself rfl ⟨rfl, hI⟩).self,
    (allocShmBuffers_agree hself ⟨rfl, hI⟩).self⟩

end Agree

end Shmipc.Buffer
