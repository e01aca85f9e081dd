import Shmipc.Buffer.Classes

/-!
# The stock of free slots

`recycleBuffer` goes by the capacity alone (buffer_manager.go:514-528): where several classes
have one capacity, it puts the slots of all of them into the first list. `push` and `pop` go on
working there, since the offset of such a slot from the region of the first list is positive
and the slice of that region reaches to the end of the memory.

`Stock cs m F` says that the free chain of each class `c` is `F c`, with slots of its capacity
from any class.

Results:
* `Stock.allocShmBuffer`, `Stock.allocShmBuffers`: the slots that the allocators take.
* `Stock.recycleBuffer`: a slot that was given out becomes free again.
* `Stock.write`: the holder of a slot does not disturb the chains.
-/

namespace Shmipc.Buffer

open Common

/-- The free slots of all classes. -/
def stocked (cs : List SizeClass) (F : SizeClass → List ℕ) : List ℕ :=
  cs.flatMap fun c => (F c).map (c.off + 36 + ·)

/-- The slots that can be taken, with their capacities: every chain keeps its last one. -/
def spare (cs : List SizeClass) (F : SizeClass → List ℕ) : List (ℕ × ℕ) :=
  cs.flatMap fun c => (F c).dropLast.map fun o => (c.off + 36 + o, c.cap)

structure Stock (cs : List SizeClass) (m : Mem) (F : SizeClass → List ℕ) : Prop where
  placed : Placed cs m.len
  chained : ∀ c ∈ cs, Chained c.off c.cap m (F c)
  slots : ∀ c ∈ cs, ∀ o ∈ F c, IsSlot cs (c.off + 36 + o) c.cap
  nodup : (stocked cs F).Nodup
  caps : ∀ a cap, IsSlot cs a cap → m.get32 a = cap

section Stock

variable {cs : List SizeClass} {c c' : SizeClass} {m m' : Mem} {F : SizeClass → List ℕ}
  {G T : List ℕ} {b : BufferList} {a o cap : ℕ}

theorem mem_stocked (hc : c ∈ cs) (ho : o ∈ F c) : c.off + 36 + o ∈ stocked cs F :=
  List.mem_flatMap.mpr ⟨c, hc, List.mem_map_of_mem ho⟩

theorem Stock.ne_nil (h : Stock cs m F) (hc : c ∈ cs) : F c ≠ [] := by
  intro hnil
  have := (h.chained c hc).head
  rw [hnil] at this
  cases this

theorem Stock.capWord (h : Stock cs m F) (hc : c ∈ cs) (hb : ListAt b c.off c.n c.cap) :
    m.get32 b.capPerBuffer = c.cap := hb.capPerBuffer ▸ (h.chained c hc).capWord

/-- The chains of different classes have no slot in common. -/
theorem Stock.classes_disjoint (h : Stock cs m F) (hc : c ∈ cs) (hc' : c' ∈ cs) (hne : c' ≠ c)
    {o' : ℕ} (ho : o ∈ F c) (ho' : o' ∈ F c') : c'.off + 36 + o' ≠ c.off + 36 + o := by
  intro he
  have hsymm : Std.Symm fun c₁ c₂ : SizeClass =>
      List.Disjoint ((F c₁).map (c₁.off + 36 + ·)) ((F c₂).map (c₂.off + 36 + ·)) :=
    ⟨fun _ _ hd => hd.symm⟩
  have hdis := (List.nodup_flatMap.mp h.nodup).2.forall hc' hc hne
  exact hdis (List.mem_map_of_mem ho') (he ▸ List.mem_map_of_mem ho)

/-- An operation on the list of class `c` changes the list's header and, behind their
    capacities, the headers of the slots `T`. -/
theorem Stock.update (h : Stock cs m F) (hc : c ∈ cs) (hT : ∀ a ∈ T, ∃ cap, IsSlot cs a cap)
    (hother : ∀ c' ∈ cs, c' ≠ c → ∀ o ∈ F c', c'.off + 36 + o ∉ T) (hlen : m'.len = m.len)
    (hG : Chained c.off c.cap m' G) (hslots : ∀ o ∈ G, IsSlot cs (c.off + 36 + o) c.cap)
    (hnd : (stocked cs (Function.update F c G)).Nodup)
    (hs : ∀ lo hi, hi ≤ c.off ∨ c.off + 36 ≤ lo → (∀ a ∈ T, hi ≤ a + 4 ∨ a + 20 ≤ lo) →
      m.SameOn m' lo hi) : Stock cs m' (Function.update F c G) ∧ Keeps cs T m m' := by
  have hP := h.placed
  -- another slot
  have hslot : ∀ b cap, IsSlot cs b cap → b ∉ T → m.SameOn m' b (b + 20 + cap) := by
    intro b cap hb hbT
    have hhdr := hP.slot_apart_header hb hc
    refine hs _ _ (by omega) fun a ha => ?_
    obtain ⟨cap', ha'⟩ := hT a ha
    have := hP.slot_apart ha' hb fun he => hbT (he ▸ ha)
    omega
  refine ⟨⟨hlen ▸ hP, fun c' hc' => ?_, fun c' hc' => ?_, hnd, fun b cap hb => ?_⟩, hlen, hslot⟩
  · rcases eq_or_ne c' c with rfl | hne
    · rw [Function.update_self]
      exact hG
    · rw [Function.update_of_ne hne]
      refine (h.chained c' hc').congr hlen (hs _ _ ?_ fun a ha => ?_) fun o ho =>
        (hslot _ _ (h.slots c' hc' o ho) (hother c' hc' hne o ho)).mono le_rfl (by omega)
      · have := hP.classes_apart hc hc' hne.symm
        unfold SizeClass.finish at this
        omega
      · obtain ⟨cap, ha⟩ := hT a ha
        have := hP.slot_apart_header ha hc'
        omega
  · rcases eq_or_ne c' c with rfl | hne
    · rw [Function.update_self]
      exact hslots
    · rw [Function.update_of_ne hne]
      exact h.slots c' hc'
  · refine Eq.trans (Mem.get32_congr (hs _ _ ?_ fun a ha => ?_)) (h.caps b cap hb)
    · have := hP.slot_apart_header hb hc
      omega
    · obtain ⟨cap', ha⟩ := hT a ha
      rcases eq_or_ne a b with rfl | hne
      · omega
      · have := hP.slot_apart ha hb hne
        omega

/-- The holder of a slot writes to it behind its capacity. -/
theorem Stock.write (h : Stock cs m F) (ha : IsSlot cs a cap) (hfree : a ∉ stocked cs F)
    (hlen : m'.len = m.len)
    (hs : ∀ lo hi, hi ≤ a + 4 ∨ a + 20 + cap ≤ lo → m.SameOn m' lo hi) : Stock cs m' F := by
  have hP := h.placed
  have hslot : ∀ b cap', IsSlot cs b cap' → b ≠ a → m.SameOn m' b (b + 20) := by
    intro b cap' hb hne
    have := hP.slot_apart ha hb hne.symm
    exact hs _ _ (by omega)
  refine ⟨hlen ▸ hP, fun c hc => ?_, h.slots, h.nodup, fun b cap' hb => ?_⟩
  · have := hP.slot_apart_header ha hc
    refine (h.chained c hc).congr hlen (hs _ _ (by omega)) fun o ho => ?_
    exact hslot _ _ (h.slots c hc o ho) fun he => hfree (he ▸ mem_stocked hc ho)
  · refine Eq.trans (Mem.get32_congr ?_) (h.caps b cap' hb)
    rcases eq_or_ne b a with rfl | hne
    · exact hs _ _ (by omega)
    · exact (hslot b cap' hb hne).mono le_rfl (by omega)

end Stock

/-! ## Taking slots -/

/-- The slots `as` have been taken, each the first of its chain at the time. -/
structure Dealt (cs : List SizeClass) (m : Mem) (F : SizeClass → List ℕ) (as : List (ℕ × ℕ))
    (m' : Mem) (F' : SizeClass → List ℕ) : Prop where
  stock : Stock cs m' F'
  suffix : ∀ c, F' c <:+ F c
  stocked : (stocked cs F).Perm (as.map Prod.fst ++ stocked cs F')
  spare : (spare cs F).Perm (as ++ spare cs F')
  slots : ∀ p ∈ as, IsSlot cs p.1 p.2
  keeps : Keeps cs (Buffer.stocked cs F) m m'
  noNext : ∀ p ∈ as, hasNext m' p.1 = false

def sumCap (as : List (ℕ × ℕ)) : ℕ := (as.map Prod.snd).sum

def sliceOf (p : ℕ × ℕ) : BufferSlice := slotSlice p.1 p.2

/-- No slot of `as` was taken after the wanted size was reached. -/
def Needed (remain : ℤ) (as : List (ℕ × ℕ)) : Prop :=
  ∀ pre p suf, as = pre ++ p :: suf → (sumCap pre : ℤ) < remain

section Take

variable {cs cs' : List SizeClass} {c : SizeClass} {m m' m'' : Mem}
  {F F' F'' : SizeClass → List ℕ} {G : List ℕ} {b : BufferList} {bs : List BufferList} {o : ℕ}
  {as as' : List (ℕ × ℕ)}

theorem Dealt.nil (h : Stock cs m F) : Dealt cs m F [] m F :=
  ⟨h, fun _ => List.suffix_rfl, .refl _, .refl _, by simp, Keeps.refl .., by simp⟩

theorem Dealt.append (hm : Stock cs m F) (h : Dealt cs m F as m' F')
    (h' : Dealt cs m' F' as' m'' F'') : Dealt cs m F (as ++ as') m'' F'' where
  stock := h'.stock
  suffix c := (h'.suffix c).trans (h.suffix c)
  stocked := by
    rw [List.map_append, List.append_assoc]
    exact h.stocked.trans (h'.stocked.append_left _)
  spare := by
    rw [List.append_assoc]
    exact h.spare.trans (h'.spare.append_left _)
  slots := List.forall_mem_append.mpr ⟨h.slots, h'.slots⟩
  keeps := h.keeps.trans h'.keeps fun _ ha => h.stocked.mem_iff.mpr (List.mem_append_right _ ha)
  noNext := by
    refine List.forall_mem_append.mpr ⟨fun p hp => ?_, h'.noNext⟩
    -- the second part takes free slots, and the first ones are not free any more
    have hnd := h.stocked.nodup_iff.mp hm.nodup
    have hnot : p.1 ∉ Buffer.stocked cs F' := fun hmem =>
      (List.nodup_append.mp hnd).2.2 _ (List.mem_map_of_mem hp) _ hmem rfl
    have hs := h'.keeps.slot _ _ (h.slots p hp) hnot
    exact (hasNext_congr (hs.mono (by omega) (by omega))).trans (h.noNext p hp)

/-- A chain that is down to its last slot stays so. -/
theorem Dealt.length_one (h : Dealt cs m F as m' F') (hc : c ∈ cs) (h1 : (F c).length = 1) :
    (F' c).length = 1 := by
  have hle := (h.suffix c).length_le
  have hpos := List.length_pos_iff.mpr (h.stock.ne_nil hc)
  omega

/-- **`pop`** takes the first slot of the chain if another one is behind it. -/
theorem Stock.pop (h : Stock cs m F) (hc : c ∈ cs) (hb : ListAt b c.off c.n c.cap)
    (hF : F c = o :: G) (hG : G ≠ []) :
    ∃ m', b.pop m = .ok (m', .ok (slotSlice (c.off + 36 + o) c.cap)) ∧
      Dealt cs m F [(c.off + 36 + o, c.cap)] m' (Function.update F c G) := by
  obtain ⟨o', G, rfl⟩ := List.exists_cons_of_ne_nil hG
  have hcnt := hb.counter
  have hchain := h.chained c hc
  have hmem : ∀ t ∈ F c, IsSlot cs (c.off + 36 + t) c.cap := h.slots c hc
  have ho : o ∈ F c := by simp [hF]
  have hperm : (Buffer.stocked cs F).Perm
      ((c.off + 36 + o) :: Buffer.stocked cs (Function.update F c (o' :: G))) := by
    refine flatMap_perm_cons h.placed.nodup hc ?_ fun c' hne => by rw [Function.update_of_ne hne]
    rw [hF, Function.update_self]
    exact .refl _
  rw [hF] at hchain
  obtain ⟨hstock, hkeep⟩ := h.update (T := [c.off + 36 + o]) hc (by simpa using ⟨c.cap, hmem o ho⟩)
    (fun c' hc' hne t ht => by simpa using h.classes_disjoint hc hc' hne ho ht) len_popMem
    (hchain.pop hb)
    (fun t ht => hmem t (by rw [hF]; exact List.mem_cons_of_mem o ht))
    (List.nodup_cons.mp (hperm.nodup_iff.mp h.nodup)).2 fun lo hi h1 h2 => by
      have := h2 _ (List.mem_singleton_self _)
      exact popMem_sameOn hcnt (by omega) (by omega)
  refine ⟨popMem m c.off b.counter o o', pop_eq hb hchain, hstock, fun c' => ?_, hperm, ?_,
    by simp [hmem o ho], hkeep.mono fun a ha => ?_, ?_⟩
  · rcases eq_or_ne c' c with rfl | hne
    · rw [Function.update_self, hF]
      exact List.suffix_cons ..
    · rw [Function.update_of_ne hne]
  · refine flatMap_perm_cons h.placed.nodup hc ?_ fun c' hne => by rw [Function.update_of_ne hne]
    rw [hF, Function.update_self, List.dropLast_cons_of_ne_nil (by simp)]
    exact .refl _
  · rw [List.mem_singleton.mp ha]
    exact mem_stocked hc ho
  · rw [List.forall_mem_singleton]
    exact (hasNext_congr (Mem.addInt32_sameOn (by simp only []; omega))).trans
      hasNext_setInUsed_clearFlag

theorem Stock.pop_none (h : Stock cs m F) (hc : c ∈ cs) (hb : ListAt b c.off c.n c.cap)
    (hF : (F c).length < 2) : b.pop m = .ok (m, .error .noMoreBuffer) := by
  have hchain := h.chained c hc
  match hG : F c with
  | [] => exact absurd hG (h.ne_nil hc)
  | [o] => exact pop_fail hb (hG ▸ hchain)
  | o :: o' :: G =>
    rw [hG] at hF
    simp only [List.length_cons] at hF
    omega

theorem exists_cons_of_two_le (h : 2 ≤ G.length) : ∃ o G', G = o :: G' ∧ G' ≠ [] := by
  match G with
  | [] => simp at h
  | [o] => simp at h
  | o :: o' :: G => exact ⟨o, o' :: G, rfl, by simp⟩

/-- The loop of `allocShmBuffer` over ascending capacities takes a slot of the smallest one
    that is large enough and has a slot to give. -/
theorem Stock.allocLoop (h : Stock cs m F) (size : ℕ)
    (hbs : List.Forall₂ (fun b c => ListAt b c.off c.n c.cap) bs cs') (hsub : ∀ c ∈ cs', c ∈ cs)
    (hasc : cs'.Pairwise fun c c' => c.cap ≤ c'.cap) :
    ((∀ c ∈ cs', size ≤ c.cap → (F c).length < 2) ∧
      Buffer.allocLoop size bs m = .ok (m, .error .noMoreBuffer)) ∨
    ∃ c ∈ cs', size ≤ c.cap ∧
      (∀ c' ∈ cs', size ≤ c'.cap → 2 ≤ (F c').length → c.cap ≤ c'.cap) ∧
      ∃ o G m', F c = o :: G ∧ G ≠ [] ∧
        Buffer.allocLoop size bs m = .ok (m', .ok (slotSlice (c.off + 36 + o) c.cap)) ∧
        Dealt cs m F [(c.off + 36 + o, c.cap)] m' (Function.update F c G) := by
  induction hbs with
  | nil => exact .inl ⟨by simp, rfl⟩
  | @cons b c bs cs' hb _ ih =>
    rw [List.forall_mem_cons] at hsub
    obtain ⟨hfirst, hasc⟩ := List.pairwise_cons.mp hasc
    have hword := h.capWord hsub.1 hb
    by_cases htake : size ≤ c.cap ∧ 2 ≤ (F c).length
    · obtain ⟨o, G, hF, hG⟩ := exists_cons_of_two_le htake.2
      obtain ⟨m', hpop, hd⟩ := h.pop hsub.1 hb hF hG
      refine .inr ⟨c, List.mem_cons_self, htake.1, ?_, o, G, m', hF, hG, ?_, hd⟩
      · exact List.forall_mem_cons.mpr ⟨fun _ _ => le_rfl, fun c' hc' _ _ => hfirst c' hc'⟩
      · rw [Buffer.allocLoop, hword, if_pos htake.1, hpop]
        rfl
    · -- the list is passed over, or has nothing to give
      have hskip : Buffer.allocLoop size (b :: bs) m = Buffer.allocLoop size bs m := by
        rw [Buffer.allocLoop, hword]
        split_ifs with hsize
        · rw [h.pop_none hsub.1 hb (by omega)]
          rfl
        · rfl
      rw [hskip]
      rcases ih hsub.2 hasc with ⟨hnone, hrun⟩ | ⟨c1, hc1, hsize, hmin, hrest⟩
      · exact .inl ⟨List.forall_mem_cons.mpr ⟨fun hsize => by omega, hnone⟩, hrun⟩
      · refine .inr ⟨c1, List.mem_cons_of_mem _ hc1, hsize, ?_, hrest⟩
        exact List.forall_mem_cons.mpr ⟨fun h1 h2 => absurd ⟨h1, h2⟩ htake, hmin⟩

theorem Needed.nil (remain : ℤ) : Needed remain [] := by
  intro pre p suf h
  simp at h

theorem Needed.append {remain : ℤ} (h : Needed remain as) (h' : Needed (remain - sumCap as) as') :
    Needed remain (as ++ as') := by
  intro pre p suf he
  rcases List.append_eq_append_iff.mp he with ⟨t, rfl, ht⟩ | ⟨t, rfl, ht⟩
  · have := h' t p suf ht
    simp only [sumCap, List.map_append, List.sum_append] at this ⊢
    push_cast at this ⊢
    omega
  · cases t with
    | nil =>
      have := h' [] p suf (by simpa using ht.symm)
      simp only [sumCap, List.append_nil, List.map_nil, List.sum_nil] at this ⊢
      omega
    | cons q t =>
      cases ht
      exact h pre p t rfl

theorem Needed.single {remain : ℤ} (h : 0 < remain) (p : ℕ × ℕ) : Needed remain [p] := by
  intro pre q suf he
  cases pre with
  | nil => simpa [sumCap] using h
  | cons x pre => simp at he

/-- The inner loop of `allocShmBuffers` takes slots of one list until the size is reached or
    the list is down to its last slot. -/
theorem Stock.popMany (hc : c ∈ cs) (hb : ListAt b c.off c.n c.cap) :
    ∀ (k : ℕ) (remain : ℤ) {m : Mem} {F : SizeClass → List ℕ}, Stock cs m F → (F c).length ≤ k →
    ∃ as m' F', Buffer.popMany b k remain m = .ok (m', as.map sliceOf, remain - sumCap as) ∧
      Dealt cs m F as m' F' ∧ Needed remain as ∧ (0 < remain - sumCap as → (F' c).length = 1) := by
  intro k
  induction k with
  | zero =>
    intro remain m F h hk
    exact absurd (List.length_eq_zero_iff.mp (Nat.le_zero.mp hk)) (h.ne_nil hc)
  | succ k ih =>
    intro remain m F h hk
    have hpos := List.length_pos_iff.mpr (h.ne_nil hc)
    by_cases hr : remain > 0
    · by_cases hfree : 2 ≤ (F c).length
      · obtain ⟨o, G, hF, hG⟩ := exists_cons_of_two_le hfree
        obtain ⟨m1, hpop, hd⟩ := h.pop hc hb hF hG
        obtain ⟨as, m', F', hrun, hd', hneed, hone⟩ := ih (remain - c.cap) hd.stock (by
          rw [Function.update_self]
          rw [hF, List.length_cons] at hk
          omega)
        have hsum : remain - c.cap - sumCap as = remain - sumCap ((c.off + 36 + o, c.cap) :: as) := by
          simp only [sumCap, List.map_cons, List.sum_cons]
          push_cast
          omega
        refine ⟨(c.off + 36 + o, c.cap) :: as, m', F', ?_, hd.append h hd', ?_, hsum ▸ hone⟩
        · rw [Buffer.popMany, if_pos hr, hpop, ← hsum]
          change (Buffer.popMany b k (remain - c.cap) m1).bind _ = _
          rw [hrun]
          rfl
        · refine Needed.append (Needed.single hr (c.off + 36 + o, c.cap)) ?_
          simpa [sumCap] using hneed
      · refine ⟨[], m, F, ?_, .nil h, .nil _, fun _ => by omega⟩
        rw [Buffer.popMany, if_pos hr, h.pop_none hc hb (by omega)]
        simp [sumCap, bind, Except.bind, pure, Except.pure]
    · refine ⟨[], m, F, ?_, .nil h, .nil _, fun h0 => ?_⟩
      · rw [Buffer.popMany, if_neg hr]
        simp [sumCap]
      · simp only [sumCap, List.map_nil, List.sum_nil] at h0
        omega

theorem Stock.allocManyLoop (hbs : List.Forall₂ (fun b c => ListAt b c.off c.n c.cap) bs cs')
    (hsub : ∀ c ∈ cs', c ∈ cs) :
    ∀ (remain : ℤ) {m : Mem} {F : SizeClass → List ℕ}, Stock cs m F →
    ∃ as m' F', Buffer.allocManyLoop bs remain m = .ok (m', as.map sliceOf, remain - sumCap as) ∧
      Dealt cs m F as m' F' ∧ Needed remain as ∧
      (0 < remain - sumCap as → ∀ c ∈ cs', (F' c).length = 1) := by
  induction hbs with
  | nil =>
    intro remain m F h
    exact ⟨[], m, F, by simp [Buffer.allocManyLoop, sumCap], .nil h, .nil _, by simp⟩
  | @cons b c bs cs' hb _ ih =>
    intro remain m F h
    rw [List.forall_mem_cons] at hsub
    by_cases hr : remain > 0
    · have hsize : (F c).length ≤ m.get32 b.size := by
        rw [hb.size, (h.chained c hsub.1).size]
      obtain ⟨as, m1, F1, hpop, hd, hneed, hone⟩ := Stock.popMany hsub.1 hb _ remain h hsize
      obtain ⟨as', m', F', hrun, hd', hneed', hones⟩ := ih hsub.2 (remain - sumCap as) hd.stock
      have hsum : remain - sumCap as - sumCap as' = remain - sumCap (as ++ as') := by
        simp only [sumCap, List.map_append, List.sum_append]
        push_cast
        omega
      refine ⟨as ++ as', m', F', ?_, hd.append h hd', hneed.append hneed', fun h0 => ?_⟩
      · rw [Buffer.allocManyLoop, if_pos hr, hpop, ← hsum, List.map_append]
        change (Buffer.allocManyLoop bs (remain - sumCap as) m1).bind _ = _
        rw [hrun]
        rfl
      · exact List.forall_mem_cons.mpr ⟨hd'.length_one hsub.1 (hone (by omega)), hones (by omega)⟩
    · refine ⟨[], m, F, ?_, .nil h, .nil _, fun h0 => ?_⟩
      · rw [Buffer.allocManyLoop, if_neg hr]
        simp [sumCap]
      · simp only [sumCap, List.map_nil, List.sum_nil] at h0
        omega

end Take

/-! ## Giving slots back -/

/-- The slot at `a` has been put behind the chain of a class with its capacity. -/
structure PutBack (cs : List SizeClass) (m : Mem) (F : SizeClass → List ℕ) (a cap : ℕ) (m' : Mem)
    (F' : SizeClass → List ℕ) : Prop where
  stock : Stock cs m' F'
  stocked : (stocked cs F').Perm (a :: stocked cs F)
  keeps : Keeps cs (a :: Buffer.stocked cs F) m m'
  chain : ∃ c ∈ cs, c.cap = cap ∧ ∃ o, a = c.off + 36 + o ∧ F' = Function.update F c (F c ++ [o])

section Give

variable {cs cs' : List SizeClass} {c : SizeClass} {m : Mem} {F : SizeClass → List ℕ}
  {b : BufferList} {bs : List BufferList} {a : ℕ} {x : BufferSlice}

/-- **`push`** of a slot behind the header of the list. -/
theorem Stock.push (h : Stock cs m F) (hc : c ∈ cs) (hb : ListAt b c.off c.n c.cap)
    (ha : IsSlot cs a c.cap) (hfree : a ∉ stocked cs F) (hle : c.off + 36 ≤ a)
    (hh : x.header = some a) (hs : x.offsetInShm = a) :
    ∃ m' F', b.push m x = .ok m' ∧ PutBack cs m F a c.cap m' F' := by
  obtain ⟨o, rfl⟩ := Nat.exists_eq_add_of_le hle
  have hP := h.placed
  have hcnt := hb.counter
  have hchain := h.chained c hc
  have hmem : ∀ t ∈ F c, IsSlot cs (c.off + 36 + t) c.cap := h.slots c hc
  have htail := List.mem_of_getLast? hchain.tail
  have hfit : Fits m c.off c.cap o := by
    have := hP.slot_bounds ha
    have := hP.small
    exact ⟨by omega, by omega⟩
  have hapart : ∀ t ∈ F c, t + (c.cap + 20) ≤ o ∨ o + (c.cap + 20) ≤ t := by
    intro t ht
    have := hP.slot_apart (hmem t ht) ha fun he => hfree (he ▸ mem_stocked hc ht)
    omega
  have hperm : (stocked cs (Function.update F c (F c ++ [o]))).Perm
      ((c.off + 36 + o) :: stocked cs F) := by
    refine flatMap_perm_cons hP.nodup hc ?_ fun c' hne => by rw [Function.update_of_ne hne]
    rw [Function.update_self, List.map_append]
    exact List.perm_append_singleton ..
  obtain ⟨hstock, hkeep⟩ := h.update (T := [c.off + 36 + o, c.off + 36 + m.get32 (c.off + 12)]) hc
    (by simpa using ⟨⟨_, ha⟩, _, hmem _ htail⟩)
    (fun c' hc' hne t ht => by
      rw [List.mem_pair, not_or]
      exact ⟨fun he => hfree (he ▸ mem_stocked hc' ht), h.classes_disjoint hc hc' hne htail ht⟩)
    len_pushMem (hchain.push hb hfit (h.caps _ _ ha) hapart)
    (List.forall_mem_append.mpr ⟨hmem, List.forall_mem_singleton.mpr ha⟩)
    (hperm.nodup_iff.mpr (List.nodup_cons.mpr ⟨hfree, h.nodup⟩)) fun lo hi h1 h2 => by
      have h3 := h2 _ (List.mem_cons_self ..)
      have h4 := h2 (c.off + 36 + m.get32 (c.off + 12)) (by simp)
      exact pushMem_sameOn hcnt (by omega) (by omega) (by omega)
  refine ⟨_, _, push_eq hb (hchain.fits _ htail) hfit hh hs, hstock, hperm,
    hkeep.mono fun a ha => ?_, c, hc, rfl, o, rfl, rfl⟩
  rcases List.mem_pair.mp ha with rfl | rfl
  · exact List.mem_cons_self
  · exact List.mem_cons_of_mem _ (mem_stocked hc htail)

/-- The first list with the capacity of the slot begins before it. -/
theorem Stock.recycleLoop (h : Stock cs m F) (hfree : a ∉ stocked cs F) (hh : x.header = some a)
    (hs : x.offsetInShm = a) (hbs : List.Forall₂ (fun b c => ListAt b c.off c.n c.cap) bs cs')
    (hsub : ∀ c ∈ cs', c ∈ cs) (hap : cs'.Pairwise fun c c' => c.finish ≤ c'.off)
    (ha : IsSlot cs' a x.cap) :
    ∃ m' F', Buffer.recycleLoop x bs m = .ok m' ∧ PutBack cs m F a x.cap m' F' := by
  induction hbs with
  | nil =>
    obtain ⟨c, hc, -⟩ := ha
    cases hc
  | @cons b c bs cs' hb _ ih =>
    rw [List.forall_mem_cons] at hsub
    obtain ⟨hfirst, hap⟩ := List.pairwise_cons.mp hap
    obtain ⟨c1, hc1, hcap, hslot⟩ := ha
    have hbounds := SizeClass.slot_bounds hslot
    rw [Buffer.recycleLoop, h.capWord hsub.1 hb]
    by_cases hx : x.cap = c.cap
    · have hle : c.off ≤ c1.off := by
        rcases List.mem_cons.mp hc1 with rfl | hc1
        · exact le_rfl
        · have := hfirst c1 hc1
          unfold SizeClass.finish at this
          omega
      have hc1' : c1 ∈ cs := List.forall_mem_cons.mpr hsub c1 hc1
      rw [if_pos hx, hx]
      exact h.push hsub.1 hb ⟨c1, hc1', hcap.trans hx, hslot⟩ hfree (by omega) hh hs
    · rw [if_neg hx]
      refine ih hsub.2 hap ⟨c1, (List.mem_cons.mp hc1).resolve_left ?_, hcap, hslot⟩
      rintro rfl
      exact hx hcap.symm

end Give

/-! ## The manager -/

/-- The lists of the manager are those of the classes. -/
structure ManagerOk (cs : List SizeClass) (bm : Manager) : Prop where
  lists : List.Forall₂ (fun b c => ListAt b c.off c.n c.cap) bm.lists cs
  maxSliceSize : ∀ c ∈ cs, c.cap ≤ bm.maxSliceSize

/-- The free chain of a list, from its head on. -/
def BufferList.freeSlots (b : BufferList) (m : Mem) : List ℕ :=
  (follow (nextAt m b.regionStart) m.len (m.get32 b.head)).map (b.bufferRegionOffsetInShm + ·)

def Manager.freeSlots (bm : Manager) (m : Mem) : List ℕ := bm.lists.flatMap (·.freeSlots m)

section Manager

variable {cs : List SizeClass} {c : SizeClass} {m : Mem} {F : SizeClass → List ℕ} {b : BufferList}
  {bm : Manager} {a : ℕ} {x : BufferSlice}

theorem ManagerOk.list_of_class (hM : ManagerOk cs bm) (hc : c ∈ cs) :
    ∃ b ∈ bm.lists, ListAt b c.off c.n c.cap :=
  forall₂_left hM.lists.flip hc

theorem Chained.freeSlots_eq {off n cap : ℕ} {G : List ℕ} (h : Chained off cap m G)
    (hb : ListAt b off n cap) : b.freeSlots m = G.map (off + 36 + ·) := by
  have hlen := h.length_le.1
  have hhead := h.head
  unfold BufferList.freeSlots
  rw [hb.regionStart, hb.regionOffset, hb.head]
  cases G with
  | nil => cases hhead
  | cons o G =>
    cases hhead
    rw [follow_of_chain h.chain]
    simp only [List.length_cons] at hlen
    omega

/-- What the lists of the manager have, class by class. -/
theorem ManagerOk.flatMap_eq {α : Type*} {f : BufferList → List α} {g : SizeClass → List α}
    (hM : ManagerOk cs bm) (h : ∀ c ∈ cs, ∀ b, ListAt b c.off c.n c.cap → f b = g c) :
    bm.lists.flatMap f = cs.flatMap g := by
  have hlists := hM.lists
  generalize bm.lists = bs at hlists
  clear hM
  induction hlists with
  | nil => rfl
  | cons hb _ ih =>
    rw [List.forall_mem_cons] at h
    rw [List.flatMap_cons, List.flatMap_cons, h.1 _ hb, ih h.2]

theorem ManagerOk.freeSlots_eq (hM : ManagerOk cs bm)
    (h : ∀ c ∈ cs, Chained c.off c.cap m (F c)) : bm.freeSlots m = stocked cs F :=
  hM.flatMap_eq fun c hc _ hb => (h c hc).freeSlots_eq hb

/-- **`allocShmBuffer`** takes a slot of the smallest class that has one to give. -/
theorem Stock.allocShmBuffer (h : Stock cs m F) (hM : ManagerOk cs bm)
    (hasc : cs.Pairwise fun c c' => c.cap ≤ c'.cap) (size : ℕ) :
    ((∀ c ∈ cs, size ≤ c.cap → (F c).length < 2) ∧
      bm.allocShmBuffer m size = .ok (m, .error .noMoreBuffer)) ∨
    ∃ c ∈ cs, size ≤ c.cap ∧
      (∀ c' ∈ cs, size ≤ c'.cap → 2 ≤ (F c').length → c.cap ≤ c'.cap) ∧
      ∃ o G m', F c = o :: G ∧ G ≠ [] ∧
        bm.allocShmBuffer m size = .ok (m', .ok (slotSlice (c.off + 36 + o) c.cap)) ∧
        Dealt cs m F [(c.off + 36 + o, c.cap)] m' (Function.update F c G) := by
  unfold Manager.allocShmBuffer
  by_cases hmax : size ≤ bm.maxSliceSize
  · rw [if_pos hmax]
    exact h.allocLoop size hM.lists (fun _ hc => hc) hasc
  · rw [if_neg hmax]
    exact .inl ⟨fun c hc hsize => absurd (hsize.trans (hM.maxSliceSize c hc)) hmax, rfl⟩

/-- **`allocShmBuffers`** takes slots until their capacities reach `size`, or every class is
    down to its last one. -/
theorem Stock.allocShmBuffers (h : Stock cs m F) (hM : ManagerOk cs bm) (size : ℕ) :
    ∃ as m' F', bm.allocShmBuffers m size = .ok (m', as.map sliceOf, sumCap as) ∧
      Dealt cs m F as m' F' ∧ Needed size as ∧
      (sumCap as < size → ∀ c ∈ cs, (F' c).length = 1) := by
  obtain ⟨as, m', F', hrun, hd, hneed, hone⟩ := Stock.allocManyLoop
    (List.forall₂_reverse_iff.mpr hM.lists) (fun c hc => List.mem_reverse.mp hc) size h
  refine ⟨as, m', F', ?_, hd, hneed, fun hlt c hc => ?_⟩
  · unfold Manager.allocShmBuffers
    rw [hrun]
    simp [bind, Except.bind, pure, Except.pure]
  · exact hone (by omega) c (List.mem_reverse.mpr hc)

/-- **`recycleBuffer`** of a slot that was given out makes it free. -/
theorem Stock.recycleBuffer (h : Stock cs m F) (hM : ManagerOk cs bm) (ha : IsSlot cs a x.cap)
    (hfree : a ∉ stocked cs F) (hshm : x.isFromShm = true) (hh : x.header = some a)
    (hs : x.offsetInShm = a) :
    ∃ m' F', bm.recycleBuffer m x = .ok m' ∧ PutBack cs m F a x.cap m' F' := by
  unfold Manager.recycleBuffer
  rw [if_pos hshm]
  exact h.recycleLoop hfree hh hs hM.lists (fun _ hc => hc) h.placed.apart ha

end Manager

end Shmipc.Buffer
