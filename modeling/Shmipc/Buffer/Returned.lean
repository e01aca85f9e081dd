import Shmipc.Buffer.Views

/-!
# Whether all slices are back

Before the memory is unmapped `checkBufferReturned` looks for slices that are still out
(buffer_manager.go:573-614): each list must have its full size and a counter of zero. A
`pop` counts the slice up and a `push` counts it down, but each process has a counter of
its own.

Any history of allocations and `recycleBuffer`s through either manager, with the slices
that are out and, for each manager and capacity, how many slices were allocated through it
less how many were recycled.

Results:
* `returned_iff_balanced`: the check is exact if and only if, whenever all slices are
  back, the counters of the manager it runs on are balanced.
* `returned_across_not_seen`: a slice that one process allocates and the other recycles.
-/

namespace Shmipc.Buffer

open Common

namespace Returned

open Views (ManagerCall ManagerReply call spot managerOf)

/-! ## The histories -/

structure State where
  mem : Mem
  /-- The slices that are out, by offset and capacity. -/
  out : List (ℕ × ℕ)
  /-- Slices of a capacity allocated through a manager, less slices recycled through it. -/
  balance : View → ℕ → ℤ

inductive Act
  | call (v : View) (c : ManagerCall)
  /-- The holder of a slice writes to its slot. -/
  | write (x : ℕ) (b : UInt8)

/-- The slices that a call returns. -/
def allocated : ManagerReply → List (ℕ × ℕ)
  | .slice (.ok p) => [p]
  | .slices l _ => l
  | _ => []

/-- The slices that a call takes back. -/
def recycled : ManagerCall → List (ℕ × ℕ)
  | .recycleBuffer s => if s.isFromShm then [spot s] else []
  | _ => []

def tally (l : List (ℕ × ℕ)) (cap : ℕ) : ℤ := (l.map Prod.snd).count cap

/-- The balance after a call through `v` that returned `l` and took back `l'`. -/
def book (balance : View → ℕ → ℤ) (v : View) (l l' : List (ℕ × ℕ)) (w : View) (cap : ℕ) : ℤ :=
  balance w cap + if w = v then tally l cap - tally l' cap else 0

def next (bm bm' : Manager) (s : State) : Act → Option State
  | .call v c =>
    match call (managerOf bm bm' v) s.mem c with
    | .ok (m, r) => some ⟨m, allocated r ++ s.out.diff (recycled c),
        book s.balance v (allocated r) (recycled c)⟩
    | .error _ => none
  | .write x b => some { s with mem := s.mem.set8 x b }

/-- The histories from the created memory `m`. -/
def runs (bm bm' : Manager) (m : Mem) : Sys State Act where
  init s := s = ⟨m, [], fun _ _ => 0⟩
  next := next bm bm'

/-- A slice is recycled while it is out. Its holder may write what lies behind its
    capacity. -/
def Legal (s : State) : Act → Prop
  | .call _ (.recycleBuffer x) =>
    x.isFromShm = true → x.header = some x.offsetInShm ∧ spot x ∈ s.out
  | .call _ _ => True
  | .write x _ => ∃ p ∈ s.out, p.1 + bufferSizeOffset ≤ x ∧ x < p.1 + bufferHeaderSize + p.2

instance (s : State) : ∀ a, Decidable (Legal s a)
  | .call _ (.recycleBuffer _) => inferInstanceAs (Decidable (_ → _))
  | .call _ (.allocShmBuffer _) | .call _ (.allocShmBuffers _) | .call _ (.readBufferSlice _) =>
    inferInstanceAs (Decidable True)
  | .write _ _ => inferInstanceAs (Decidable (∃ p ∈ s.out, _ ∧ _))

/-- The counters of `bm` stand at zero: those of the memory `m` at the start, and the
    balance of the history. -/
def Balanced (bm : Manager) (m : Mem) (balance : ℕ → ℤ) : Prop :=
  ∀ l ∈ bm.lists, (m.get32 l.counter : ℤ) + balance (m.get32 l.capPerBuffer) ≡ 0 [ZMOD 2 ^ 32]

/-! ## The books -/

/-- What is free, what is out and what the counters say. -/
structure Books (cs : List SizeClass) (m0 m : Mem) (out : List (ℕ × ℕ)) (bal : View → ℕ → ℤ) :
    Prop where
  layout : Layout cs m.len
  headers : Headers cs m
  slots : ∃ F : SizeClass → List ℕ, ∀ c ∈ cs, FreeInv c.off c.n c.cap m (F c) ∧
    ((F c).map (c.off + 36 + ·) ++ (out.filter (·.2 = c.cap)).map Prod.fst).Perm c.slots
  known : ∀ p ∈ out, ∃ c ∈ cs, p.2 = c.cap
  counter : ∀ v, ∀ c ∈ cs, (m.get32 (c.off + v.counter) : ℤ) ≡
    m0.get32 (c.off + v.counter) + bal v c.cap [ZMOD 2 ^ 32]

section

variable {cs : List SizeClass} {c : SizeClass} {bm bm' : Manager} {m m0 m' : Mem} {v : View}
  {out out' : List (ℕ × ℕ)} {bal bal' : View → ℕ → ℤ} {b : BufferList} {o : ℕ} {s t : State}
  {y : BufferSlice} {ys : List BufferSlice}

theorem Books.isSlot (h : Books cs m0 m out bal) {p : ℕ × ℕ} (hp : p ∈ out) :
    IsSlot cs p.1 p.2 := by
  obtain ⟨F, hF⟩ := h.slots
  obtain ⟨c, hc, hcap⟩ := h.known p hp
  refine ⟨c, hc, hcap.symm, (hF c hc).2.mem_iff.mp (List.mem_append_right _ ?_)⟩
  exact List.mem_map_of_mem (List.mem_filter.mpr ⟨hp, decide_eq_true hcap⟩)

/-- The counters after an operation through `v` on the list of `c`. -/
theorem Books.counter_of_touch (h : Books cs m0 m out bal) (hc : c ∈ cs) {d : ℤ}
    (ht : Touch cs v (fun c' => if c' = c then d else 0) m m')
    (hbal : ∀ w cap, bal' w cap = bal w cap + if w = v ∧ cap = c.cap then d else 0) :
    ∀ w, ∀ c' ∈ cs, (m'.get32 (c'.off + w.counter) : ℤ) ≡
      m0.get32 (c'.off + w.counter) + bal' w c'.cap [ZMOD 2 ^ 32] := by
  intro w c' hc'
  rw [hbal]
  rcases eq_or_ne w v with rfl | hw
  · have hcap : c'.cap = c.cap ↔ c' = c :=
      ⟨fun he => h.layout.cap_inj hc' hc he, fun he => by rw [he]⟩
    refine (ht.counter c' hc').trans ?_
    simp only [hcap, true_and]
    rw [← add_assoc]
    exact (h.counter w c' hc').add_right _
  · rw [ht.other w hw c' hc', if_neg fun he => hw he.1, add_zero]
    exact h.counter w c' hc'

/-- **Step**: a `pop` through `v`. -/
theorem Books.pop (h : Books cs m0 m out bal) (hv : IsView cs v bm) (hb : b ∈ bm.lists)
    (hpop : b.pop m = .ok (m', .ok y))
    (hbal : ∀ w cap, bal' w cap = bal w cap + if w = v ∧ cap = y.cap then 1 else 0) :
    Books cs m0 m' (spot y :: out) bal' := by
  rw [hv.lists] at hb
  obtain ⟨c, hc, rfl⟩ := List.mem_map.mp hb
  have hat := viewList_listAt (v := v) h.layout.placed hc
  obtain ⟨F, hF⟩ := h.slots
  obtain ⟨hfree, hperm⟩ := hF c hc
  match hFc : F c with
  | [] => rw [hFc] at hfree; exact nomatch hfree.head
  | [o] =>
    rw [hFc] at hfree
    rw [pop_fail hat (hfree.chained hat.fits)] at hpop
    cases hpop
  | o :: o' :: G =>
    rw [hFc] at hfree hperm
    rw [pop_eq hat (hfree.chained hat.fits)] at hpop
    cases hpop
    have ho := hfree.slots o List.mem_cons_self
    have htouch : Touch cs v (fun c' => if c' = c then 1 else 0) m
        (popMem m c.off (c.off + v.counter) o o') :=
      popMem_touch h.layout (h.headers.off c hc) hc ho
    refine ⟨h.layout, h.headers.touch htouch, ⟨Function.update F c (o' :: G), fun c' hc' => ⟨?_, ?_⟩⟩,
      List.forall_mem_cons.mpr ⟨⟨c, hc, rfl⟩, h.known⟩, h.counter_of_touch hc htouch hbal⟩
    · exact Heap.of_class h.layout (fun c hc => (hF c hc).1) hc len_popMem (hfree.pop hat)
        (popMem_outside hat.counter ho) c' hc'
    · rcases eq_or_ne c' c with rfl | hne
      · rw [Function.update_self, List.filter_cons_of_pos (by simp [spot, slotSlice])]
        exact List.perm_middle.trans hperm
      · have hcap : ¬ c.cap = c'.cap := fun he => hne (h.layout.cap_inj hc' hc he.symm)
        rw [Function.update_of_ne hne, List.filter_cons_of_neg (by simp [spot, slotSlice, hcap])]
        exact (hF c' hc').2

theorem Books.perm (h : Books cs m0 m out bal) (hout : out'.Perm out) : Books cs m0 m out' bal := by
  obtain ⟨F, hF⟩ := h.slots
  refine ⟨h.layout, h.headers, ⟨F, fun c hc => ⟨(hF c hc).1, ?_⟩⟩,
    fun p hp => h.known p (hout.mem_iff.mp hp), h.counter⟩
  exact (((hout.filter _).map _).append_left _).trans (hF c hc).2

@[simp] theorem tally_nil (cap : ℕ) : tally [] cap = 0 := rfl

theorem tally_cons (p : ℕ × ℕ) (l : List (ℕ × ℕ)) (cap : ℕ) :
    tally (p :: l) cap = tally l cap + if cap = p.2 then 1 else 0 := by
  unfold tally
  rw [List.map_cons, List.count_cons]
  by_cases hcap : cap = p.2
  · simp [hcap]
  · simp [hcap, Ne.symm hcap]

/-- **Run**: the `pop`s of one call. -/
theorem Books.popped (hv : IsView cs v bm) (hp : Popped bm.lists m ys m') :
    ∀ {out bal}, Books cs m0 m out bal →
    Books cs m0 m' (ys.map spot ++ out) (book bal v (ys.map spot) []) := by
  induction hp with
  | nil =>
    intro out bal h
    have hbal : book bal v [] [] = bal := by
      funext w cap
      simp [book]
    exact hbal.symm ▸ h
  | @cons b m m1 m' y ys hb hpop _ ih =>
    intro out bal h
    have hstep : Books cs m0 m1 (spot y :: out) (book bal v [spot y] []) := by
      refine h.pop hv hb hpop fun w cap => ?_
      by_cases hw : w = v
      · simp [book, tally_cons, hw, spot]
      · simp [book, hw]
    have hbal : book (book bal v [spot y] []) v (ys.map spot) [] =
        book bal v ((y :: ys).map spot) [] := by
      funext w cap
      by_cases hw : w = v
      · simp only [book, hw, if_true, List.map_cons, tally_cons, tally_nil]
        ring
      · simp [book, hw]
    exact hbal ▸ (ih hstep).perm List.perm_middle.symm

/-- **Step**: a `recycleBuffer` through `v`. -/
theorem Books.recycle (h : Books cs m0 m out bal) (hv : IsView cs v bm)
    (hrun : bm.recycleBuffer m y = .ok m') (hy : y.isFromShm = true)
    (hh : y.header = some y.offsetInShm) (hmem : spot y ∈ out)
    (hbal : ∀ w cap, bal' w cap = bal w cap + if w = v ∧ cap = y.cap then -1 else 0) :
    Books cs m0 m' (out.erase (spot y)) bal' := by
  obtain ⟨F, hF⟩ := h.slots
  obtain ⟨c, hc, hcap, ha⟩ := h.isSlot hmem
  obtain ⟨o, ho, hoff⟩ := SizeClass.mem_slots.mp ha
  replace hcap : y.cap = c.cap := hcap.symm
  replace hoff : y.offsetInShm = c.off + 36 + o := hoff
  have hs : SliceOf c o y := ⟨ho, hh.trans (congrArg some hoff), hoff, hcap, hy⟩
  have hat := viewList_listAt (v := v) h.layout.placed hc
  have hregions : Regions cs (fun c => {o | o ∈ F c}) m := fun c hc => (hF c hc).1.region
  obtain ⟨b, hz, hpush⟩ := hregions.recycleBuffer_eq h.layout hs hc (hv.listsAt h.layout.placed)
  rw [hv.lists] at hz
  obtain ⟨rfl, -⟩ := mem_zip_map hz
  have hlist := (hF c hc).1
  rw [hpush, push_eq hat (hat.fits_slot hlist.len hlist.tail_mem) (hat.fits_slot hlist.len ho)
    hs.header hoff] at hrun
  cases hrun
  obtain ⟨hfree, hperm⟩ := hF c hc
  have ht := hfree.tail_mem
  have htouch := pushMem_touch (v := v) h.layout (h.headers.off c hc) hc ho ht
  have hout := List.perm_cons_erase hmem
  -- the slot is out, so it is not free
  have hsplit : ((F c).map (c.off + 36 + ·) ++ (c.off + 36 + o) ::
      ((out.erase (spot y)).filter (·.2 = c.cap)).map Prod.fst).Perm c.slots := by
    have hfilter := (hout.filter (·.2 = c.cap)).map Prod.fst
    rw [List.filter_cons_of_pos (by simp [spot, hcap]), List.map_cons] at hfilter
    have hfst : (spot y).1 = c.off + 36 + o := hoff
    rw [hfst] at hfilter
    exact (hfilter.symm.append_left _).trans hperm
  have hnew : o ∉ F c := by
    intro hin
    have hnd := hsplit.nodup_iff.mpr SizeClass.slots_nodup
    exact (List.nodup_append.mp hnd).2.2 _ (List.mem_map_of_mem hin) _ List.mem_cons_self rfl
  refine ⟨h.layout, h.headers.touch htouch,
    ⟨Function.update F c (F c ++ [o]), fun c' hc' => ⟨?_, ?_⟩⟩,
    fun p hp => h.known p (List.mem_of_mem_erase hp),
    h.counter_of_touch hc htouch fun w cap => by rw [hbal, hcap]⟩
  · exact Heap.of_class h.layout (fun c hc => (hF c hc).1) hc len_pushMem (hfree.push hat ho hnew)
      (pushMem_outside hat.counter ho ht) c' hc'
  · rcases eq_or_ne c' c with rfl | hne
    · rw [Function.update_self, List.map_append, List.append_assoc]
      exact hsplit
    · have hcc : ¬ c.cap = c'.cap := fun he => hne (h.layout.cap_inj hc' hc he.symm)
      have hfilter := hout.filter (·.2 = c'.cap)
      rw [List.filter_cons_of_neg (by simp [spot, hcap, hcc])] at hfilter
      rw [Function.update_of_ne hne]
      exact ((hfilter.symm.map _).append_left _).trans (hF c' hc').2

/-- **Step**: a write to a slot that is out. -/
theorem Books.write (h : Books cs m0 m out bal) {p : ℕ × ℕ} (hp : p ∈ out) {x : ℕ} {e : UInt8}
    (hlo : p.1 + 4 ≤ x) (hhi : x < p.1 + 20 + p.2) : Books cs m0 (m.set8 x e) out bal := by
  have ha := h.isSlot hp
  obtain ⟨c, hc, hcap, hslot⟩ := id ha
  have hb := SizeClass.slot_bounds hslot
  have htouch : ∀ w, Touch cs w (fun _ => 0) m (m.set8 x e) := fun w =>
    slotWrite_touch h.layout (h.headers.off c hc) hc (by omega) (by omega)
  obtain ⟨F, hF⟩ := h.slots
  refine ⟨h.layout, h.headers.touch (htouch .creator), ⟨F, fun c' hc' => ⟨?_, (hF c' hc').2⟩⟩,
    h.known, fun w c' hc' => ?_⟩
  · refine (hF c' hc').1.write h.layout hc' ha (fun o ho he => ?_) Mem.len_set8
      fun lo hi hr => Mem.set8_sameOn (by omega)
    -- the slot is of class `c'`, then, and both free and out
    have hslot' : p.1 ∈ c'.slots :=
      (hF c' hc').2.mem_iff.mp (List.mem_append_left _ (he ▸ List.mem_map_of_mem ho))
    have hcap' : p.2 = c'.cap := ha.cap_eq ⟨c', hc', rfl, hslot'⟩ h.layout
    have hnd := (hF c' hc').2.nodup_iff.mpr SizeClass.slots_nodup
    refine (List.nodup_append.mp hnd).2.2 p.1 (he ▸ List.mem_map_of_mem ho) p.1 ?_ rfl
    exact List.mem_map_of_mem (List.mem_filter.mpr ⟨hp, decide_eq_true hcap'⟩)
  · have := (htouch w).counter c' hc'
    rw [add_zero] at this
    exact this.trans (h.counter w c' hc')

/-- **Step**: every step keeps the books. -/
theorem Books.step (hc : IsView cs .creator bm) (hm : IsView cs .mapper bm')
    (h : Books cs m0 s.mem s.out s.balance) {a : Act} (ha : Legal s a)
    (hn : next bm bm' s a = some t) : Books cs m0 t.mem t.out t.balance := by
  cases a with
  | write x e =>
    cases hn
    obtain ⟨p, hp, hlo, hhi⟩ := ha
    exact h.write hp hlo hhi
  | call v k =>
    have hv := Views.isView_managerOf hc hm v
    have hsame : Books cs m0 s.mem s.out (book s.balance v [] []) := Books.popped hv .nil h
    cases k with
    | allocShmBuffer size =>
      simp only [next, call] at hn
      cases hrun : (managerOf bm bm' v).allocShmBuffer s.mem size with
      | error e => rw [hrun] at hn; cases hn
      | ok r =>
        obtain ⟨m', r⟩ := r
        rw [hrun] at hn
        cases hn
        rcases allocShmBuffer_popped hrun with ⟨rfl, rfl⟩ | ⟨y, rfl, hp⟩
        · exact hsame
        · exact Books.popped hv hp h
    | allocShmBuffers size =>
      simp only [next, call] at hn
      cases hrun : (managerOf bm bm' v).allocShmBuffers s.mem size with
      | error e => rw [hrun] at hn; cases hn
      | ok r =>
        obtain ⟨m', ys, z⟩ := r
        rw [hrun] at hn
        cases hn
        exact Books.popped hv (allocShmBuffers_popped hrun) h
    | readBufferSlice offset =>
      simp only [next, call] at hn
      cases hrun : readBufferSlice s.mem offset with
      | error e => rw [hrun] at hn; cases hn
      | ok r =>
        rw [hrun] at hn
        cases hn
        exact hsame
    | recycleBuffer y =>
      simp only [next, call] at hn
      cases hrun : (managerOf bm bm' v).recycleBuffer s.mem y with
      | error e => rw [hrun] at hn; cases hn
      | ok m' =>
        rw [hrun] at hn
        cases hn
        cases hy : y.isFromShm with
        | false =>
          rw [Manager.recycleBuffer, hy] at hrun
          cases hrun
          simpa [allocated, recycled, hy] using hsame
        | true =>
          obtain ⟨hh, hmem⟩ := ha hy
          have hbooks : Books cs m0 m' (s.out.erase (spot y)) (book s.balance v [] [spot y]) := by
            refine h.recycle hv hrun hy hh hmem fun w cap => ?_
            by_cases hw : w = v
            · simp only [book, hw, tally_cons, tally_nil, spot, if_true, true_and]
              split_ifs <;> ring
            · simp [book, hw]
          simpa [allocated, recycled, hy] using hbooks

theorem Books.check_iff (h : Books cs m0 m out bal) (hH : Headers cs m0) (hv : IsView cs v bm) :
    bm.checkBufferReturned m = true ↔ out = [] ∧ Balanced bm m0 (bal v) := by
  obtain ⟨F, hF⟩ := h.slots
  have hcount : ∀ c ∈ cs, toInt32 (m.get32 (c.off + v.counter)) = 0 ↔
      (m0.get32 (c.off + v.counter) : ℤ) + bal v (m0.get32 (c.off + 16)) ≡ 0 [ZMOD 2 ^ 32] := by
    intro c hc
    have hlt := m.get32_lt (c.off + v.counter)
    rw [hH.capPerBuffer c hc, toInt32_eq_zero_iff hlt]
    have hmod := h.counter v c hc
    refine ⟨fun h0 => ?_, fun h0 => ?_⟩
    · rw [h0] at hmod
      exact hmod.symm
    · have := hmod.trans h0
      unfold Int.ModEq at this
      omega
  have hfull : ∀ c ∈ cs, m.get32 c.off = m.get32 (c.off + 4) ↔ out.filter (·.2 = c.cap) = [] := by
    intro c hc
    obtain ⟨hfree, hperm⟩ := hF c hc
    have hlen := hperm.length_eq
    rw [List.length_append, List.length_map, List.length_map] at hlen
    have hn : c.slots.length = c.n := by simp [SizeClass.slots, slotOffsets]
    rw [hfree.size, h.headers.cap c hc, ← List.length_eq_zero_iff]
    omega
  have hlists : bm.checkBufferReturned m = true ↔
      ∀ c ∈ cs, m.get32 c.off = m.get32 (c.off + 4) ∧ toInt32 (m.get32 (c.off + v.counter)) = 0 := by
    unfold Manager.checkBufferReturned
    rw [hv.lists, List.all_map, List.all_eq_true]
    exact forall₂_congr fun c hc => decide_eq_true_iff
  rw [hlists]
  unfold Balanced
  rw [hv.lists, List.forall_mem_map]
  constructor
  · intro hall
    refine ⟨List.eq_nil_iff_forall_not_mem.mpr fun p hp => ?_, fun c hc => ?_⟩
    · obtain ⟨c, hc, hcap⟩ := h.known p hp
      have hnil := (hfull c hc).mp (hall c hc).1
      exact List.filter_eq_nil_iff.mp hnil p hp (by simpa using hcap)
    · exact (hcount c hc).mp (hall c hc).2
  · rintro ⟨rfl, hbal⟩ c hc
    exact ⟨(hfull c hc).mpr rfl, (hcount c hc).mpr (hbal c hc)⟩

theorem books_of_created (hc : Created cs bm m) : Books cs m m [] fun _ _ => 0 where
  layout := hc.layout
  headers := hc.headers
  slots := ⟨fun c => slotOffsets c.n c.cap, fun c hmem => ⟨hc.free c hmem, by simp [SizeClass.slots]⟩⟩
  known := by simp
  counter v c _ := by rw [add_zero]

end

/-- **Main theorem.** In every history, `checkBufferReturned` through either manager is
    exact if and only if its counters are balanced whenever all slices are back. -/
theorem returned_iff_balanced {pairs : List SizePercentPair} {m m0 : Mem} {bm bm' : Manager}
    (hsizes : ∀ p ∈ pairs, p.size + bufferHeaderSize < 2 ^ 32)
    (hasc : pairs.Pairwise fun p p' => p.size < p'.size)
    (hsum : (pairs.map (·.percent)).sum ≤ 100) (hlen : m.len < 2 ^ 32)
    (hcreate : createBufferManager pairs m 0 = .ok (.ok (m0, bm)))
    (hmap : mappingBufferManager m0 0 = .ok (.ok bm')) {s : State}
    (hs : (runs bm bm' m0).ReachableWhen Legal s) (v : View) :
    ((managerOf bm bm' v).checkBufferReturned s.mem = true ↔ s.out = []) ↔
      (s.out = [] → Balanced (managerOf bm bm' v) m0 (s.balance v)) := by
  obtain ⟨hc, -⟩ := createBufferManager_created hsizes hasc hsum hlen hcreate
  obtain ⟨bm1, hmap', hm⟩ := mappingBufferManager_isView hc.headers hc.layout.placed hc.nonempty
  rw [hmap] at hmap'
  cases hmap'
  have hbooks : Books (classesOf pairs m.len) m0 s.mem s.out s.balance := by
    refine hs.invariant (fun s => Books (classesOf pairs m.len) m0 s.mem s.out s.balance) ?_
      fun s a t h ha hn => Books.step hc.isView hm h ha hn
    rintro s rfl
    exact books_of_created hc
  rw [hbooks.check_iff hc.headers (Views.isView_managerOf hc.isView hm v)]
  exact and_iff_left_iff_imp

/-- A slice of each process, recycled where it was allocated. -/
def sameSide : List Act := [.call .creator (.allocShmBuffer 3), .call .mapper (.allocShmBuffers 3),
  .write 50 255, .call .creator (.recycleBuffer (slotSlice 44 4)),
  .call .mapper (.recycleBuffer (slotSlice 68 4))]

theorem returned_iff_balanced_same_side : ∃ m bm bm' s,
    createBufferManager [⟨4, 100⟩] (zeroMem 140) 0 = .ok (.ok (m, bm)) ∧
      mappingBufferManager m 0 = .ok (.ok bm') ∧ (runs bm bm' m).ReachableWhen Legal s ∧
      s.out = [] ∧ bm.checkBufferReturned s.mem = true := by
  obtain ⟨m, bm, bm', hc, hmap, hlists, hcount, hcap, hok, hrun⟩ := Views.exists_zeroViews
    [⟨4, 100⟩] 140 (fun m bm bm' => bm.lists = [createdList 8 4 4] ∧ m.get32 28 = 0 ∧
      m.get32 24 = 4 ∧ (runs bm bm' m).RunOk Legal ⟨m, [], fun _ _ => 0⟩ sameSide ∧
      ∃ s ∈ (runs bm bm' m).run ⟨m, [], fun _ _ => 0⟩ sameSide,
        s.out = [] ∧ s.balance .creator 4 = 0) (by decide +kernel)
  obtain ⟨s, hs, hout, hbal⟩ := (runs bm bm' m).exists_reachableWhen_of_run Legal _ sameSide _ rfl
    hok hrun
  have hbalanced : Balanced bm m (s.balance .creator) := by
    intro l hl
    rw [hlists, List.mem_singleton] at hl
    subst hl
    simp only [createdList, hcount, hcap, hbal]
    rfl
  have hexact := (returned_iff_balanced (by decide) (by simp) (by decide) (by decide) hc hmap hs
    .creator).mpr fun _ => hbalanced
  exact ⟨m, bm, bm', s, hc, hmap, hs, hout, hexact.mpr hout⟩

/-- A slice that the creator allocates and the mapper recycles, as in every request: all
    slices are back, and neither process sees it. -/
theorem returned_across_not_seen : ∃ m bm bm' s,
    createBufferManager [⟨4, 100⟩] (zeroMem 140) 0 = .ok (.ok (m, bm)) ∧
      mappingBufferManager m 0 = .ok (.ok bm') ∧ (runs bm bm' m).ReachableWhen Legal s ∧
      s.out = [] ∧ bm.checkBufferReturned s.mem = false ∧
      bm'.checkBufferReturned s.mem = false := by
  obtain ⟨m, bm, bm', hc, hmap, hok, hrun⟩ := Views.exists_zeroViews [⟨4, 100⟩] 140
    (fun m bm bm' => (runs bm bm' m).RunOk Legal ⟨m, [], fun _ _ => 0⟩
        [Act.call .creator (.allocShmBuffer 3), Act.call .mapper (.recycleBuffer (slotSlice 44 4))] ∧
      ∃ s ∈ (runs bm bm' m).run ⟨m, [], fun _ _ => 0⟩
        [Act.call .creator (.allocShmBuffer 3), Act.call .mapper (.recycleBuffer (slotSlice 44 4))],
      s.out = [] ∧ bm.checkBufferReturned s.mem = false ∧ bm'.checkBufferReturned s.mem = false)
    (by decide +kernel)
  obtain ⟨s, hs, hout⟩ := (runs bm bm' m).exists_reachableWhen_of_run Legal _ _ _ rfl hok hrun
  exact ⟨m, bm, bm', s, hc, hmap, hs, hout⟩

end Returned

end Shmipc.Buffer
