import Shmipc.Buffer.Linked
import Shmipc.Buffer.Views

/-!
# Allocation is complete and best-fit

`allocShmBuffer` looks through the lists from the smallest capacity on and takes one slot;
`allocShmBuffers` goes from the largest on and takes slots until the size is reached
(buffer_manager.go:482-512); `linkedBuffer.alloc` tries the one, then the other, and takes
memory of the heap for the rest (buffer.go:485-506). A list does not give its last slot.

The runs: allocations by both processes, `recycleBuffer` of slices that were allocated, and
writes to the slots by their holders, in any order and one after the other. Several lists may
have one capacity.

Results:
* `allocation_best_fit`: what the three allocators return, in every state of every run.
* `wide_slice_panics`: a capacity that wraps around with its header.
-/

namespace Shmipc.Buffer

open Common

/-! ## What the allocators return -/

/-- The list has a slot to give for `size` bytes. -/
def Serves (b : BufferList) (m : Mem) (size : ℕ) : Prop :=
  size ≤ m.get32 b.capPerBuffer ∧ 2 ≤ (b.freeSlots m).length

/-- The slots that the lists can give, with their capacities: all free ones but the last of
    each list. -/
def Manager.spare (bm : Manager) (m : Mem) : List (ℕ × ℕ) :=
  bm.lists.flatMap fun b => (b.freeSlots m).dropLast.map fun a => (a, m.get32 b.capPerBuffer)

/-- The allocators on memory `m`. -/
structure BestFit (bm : Manager) (m : Mem) : Prop where
  /-- `allocShmBuffer`: the first free slot of the smallest list that serves, if there is one. -/
  one : ∀ size,
    ((∀ b ∈ bm.lists, ¬ Serves b m size) ∧
      bm.allocShmBuffer m size = .ok (m, .error .noMoreBuffer)) ∨
    ∃ b ∈ bm.lists, Serves b m size ∧
      (∀ b' ∈ bm.lists, Serves b' m size → m.get32 b.capPerBuffer ≤ m.get32 b'.capPerBuffer) ∧
      ∃ a rest m', b.freeSlots m = a :: rest ∧
        bm.allocShmBuffer m size = .ok (m', .ok (slotSlice a (m.get32 b.capPerBuffer))) ∧
        b.freeSlots m' = rest ∧ (bm.freeSlots m).Perm (a :: bm.freeSlots m')
  /-- `allocShmBuffers`: the slots that it takes and the sum of their capacities. -/
  many : ∀ size : ℕ, ∃ as m', bm.allocShmBuffers m size = .ok (m', as.map sliceOf, sumCap as) ∧
    (bm.freeSlots m).Perm (as.map Prod.fst ++ bm.freeSlots m') ∧
    (bm.spare m).Perm (as ++ bm.spare m') ∧
    (sumCap as < size → ∀ b ∈ bm.lists, (b.freeSlots m').length = 1) ∧ Needed size as
  /-- `linkedBuffer.alloc`: enough room, from the heap only where the lists have too little. -/
  linked : ∀ (l : LinkedBuffer) (size : ℕ), size < 2 ^ 32 → ∃ m' new,
    l.alloc bm m size = .ok (m', { l with
      slices := l.slices ++ new
      isFromShm := l.isFromShm && new.all (·.isFromShm) }) ∧
    size ≤ (new.map (·.cap)).sum ∧
    ((∃ x ∈ new, x.isFromShm = false) ↔
      (∀ b ∈ bm.lists, ¬ Serves b m size) ∧ sumCap (bm.spare m) < size)

section Manager

variable {cs : List SizeClass} {c : SizeClass} {m m' : Mem} {F F' : SizeClass → List ℕ}
  {b : BufferList} {bm : Manager} {v : View} {as : List (ℕ × ℕ)}

theorem Stock.serves_iff (h : Stock cs m F) (hc : c ∈ cs) (hb : ListAt b c.off c.n c.cap)
    {size : ℕ} : Serves b m size ↔ size ≤ c.cap ∧ 2 ≤ (F c).length := by
  rw [Serves, hb.capPerBuffer, (h.chained c hc).capWord, (h.chained c hc).freeSlots_eq hb,
    List.length_map]

theorem Stock.spare_eq (h : Stock cs m F) (hM : ManagerOk cs bm) : bm.spare m = spare cs F := by
  refine hM.flatMap_eq fun c hc b hb => ?_
  rw [(h.chained c hc).freeSlots_eq hb, h.capWord hc hb, ← List.map_dropLast, List.map_map]
  rfl

/-- Chains that are down to their last slot have none to spare. -/
theorem spare_eq_nil (h : ∀ c ∈ cs, (F c).length = 1) : Buffer.spare cs F = [] := by
  refine List.flatMap_eq_nil_iff.mpr fun c hc => ?_
  rw [List.map_eq_nil_iff, ← List.length_eq_zero_iff, List.length_dropLast, h c hc]

theorem sumCap_perm {as' : List (ℕ × ℕ)} (h : as.Perm as') : sumCap as = sumCap as' :=
  (h.map Prod.snd).sum_eq

theorem sumCap_append {as' : List (ℕ × ℕ)} : sumCap (as ++ as') = sumCap as + sumCap as' := by
  simp [sumCap]

theorem sum_cap_sliceOf : ((as.map sliceOf).map (·.cap)).sum = sumCap as := by
  rw [List.map_map]
  rfl

theorem all_isFromShm_sliceOf : (as.map sliceOf).all (·.isFromShm) = true := by
  simp [sliceOf, slotSlice]

/-- **`linkedBuffer.alloc`**. -/
theorem Stock.alloc (h : Stock cs m F) (hM : ManagerOk cs bm)
    (hasc : cs.Pairwise fun c c' => c.cap ≤ c'.cap) (l : LinkedBuffer) {size : ℕ}
    (hlt : size < 2 ^ 32) : ∃ m' new,
    l.alloc bm m size = .ok (m', { l with
      slices := l.slices ++ new
      isFromShm := l.isFromShm && new.all (·.isFromShm) }) ∧
    size ≤ (new.map (·.cap)).sum ∧
    ((∃ x ∈ new, x.isFromShm = false) ↔
      (∀ c ∈ cs, size ≤ c.cap → (F c).length < 2) ∧ sumCap (Buffer.spare cs F) < size) := by
  unfold LinkedBuffer.alloc
  rcases h.allocShmBuffer hM hasc size with
    ⟨hnone, hrun⟩ | ⟨c, hc, hcap, -, o, G, m', hF, hG, hrun, -⟩
  · obtain ⟨as, m', F', hmany, hd, -, hone⟩ := h.allocShmBuffers hM size
    have hspare := sumCap_perm hd.spare
    rw [sumCap_append] at hspare
    rw [hrun]
    simp only [bind, Except.bind, hmany]
    by_cases hr : (size : ℤ) - sumCap as > 0
    · -- the rest comes from the heap
      generalize hn : (if (size : ℤ) - sumCap as < defaultSingleBufferSize then
        defaultSingleBufferSize else ((size : ℤ) - sumCap as).toNat) = n
      have hbig : size ≤ sumCap as + n ∧ n < 2 ^ 32 := by
        rw [← hn]
        unfold defaultSingleBufferSize
        split_ifs <;> omega
      have hheap : (newHeapSlice (List.replicate n 0)).cap = n := by
        rw [newHeapSlice, List.length_replicate, u32_of_lt hbig.2]
      rw [if_pos hr]
      refine ⟨m', as.map sliceOf ++ [newHeapSlice (List.replicate n 0)], ?_, ?_, ?_⟩
      · simp [pure, Except.pure, LinkedBuffer.pushBack, newHeapSlice]
      · rw [List.map_append, List.sum_append, sum_cap_sliceOf, List.map_singleton,
          List.sum_singleton, hheap]
        exact hbig.1
      · refine iff_of_true ⟨newHeapSlice (List.replicate n 0), by simp, rfl⟩ ⟨hnone, ?_⟩
        rw [hspare, spare_eq_nil (hone (by omega)), show sumCap [] = 0 from rfl]
        omega
    · rw [if_neg hr]
      refine ⟨m', as.map sliceOf, ?_, ?_, ?_⟩
      · rw [all_isFromShm_sliceOf, Bool.and_true]
        rfl
      · rw [sum_cap_sliceOf]
        omega
      · refine iff_of_false (by simp [sliceOf, slotSlice]) fun hless => ?_
        have := hless.2
        omega
  · refine ⟨m', [slotSlice (c.off + 36 + o) c.cap], ?_, by simpa [slotSlice] using hcap, ?_⟩
    · rw [hrun]
      simp [bind, Except.bind, pure, Except.pure, LinkedBuffer.pushBack, slotSlice]
    · refine iff_of_false (by simp [slotSlice]) fun hless => ?_
      have htwo := hless.1 c hc hcap
      have hpos := List.length_pos_iff.mpr hG
      rw [hF, List.length_cons] at htwo
      omega

/-- **The allocators** on a memory in stock. -/
theorem Stock.bestFit (h : Stock cs m F) (hM : ManagerOk cs bm)
    (hasc : cs.Pairwise fun c c' => c.cap ≤ c'.cap) : BestFit bm m := by
  have hnone : ∀ size, (∀ c ∈ cs, size ≤ c.cap → (F c).length < 2) ↔
      ∀ b ∈ bm.lists, ¬ Serves b m size := by
    intro size
    constructor
    · intro hcs b hb hs
      obtain ⟨c, hc, hat⟩ := forall₂_left hM.lists hb
      obtain ⟨hsize, htwo⟩ := (h.serves_iff hc hat).mp hs
      have := hcs c hc hsize
      omega
    · intro hbs c hc hsize
      obtain ⟨b, hb, hat⟩ := hM.list_of_class hc
      have := hbs b hb
      rw [h.serves_iff hc hat] at this
      omega
  refine ⟨fun size => ?_, fun size => ?_, fun l size hlt => ?_⟩
  · rw [← hnone]
    refine (h.allocShmBuffer hM hasc size).imp_right ?_
    rintro ⟨c, hc, hsize, hmin, o, G, m', hF, hG, hrun, hd⟩
    obtain ⟨b, hb, hat⟩ := hM.list_of_class hc
    have hcap : m.get32 b.capPerBuffer = c.cap := hat.capPerBuffer ▸ (h.chained c hc).capWord
    have hpos := List.length_pos_iff.mpr hG
    refine ⟨b, hb, (h.serves_iff hc hat).mpr ⟨hsize, by rw [hF, List.length_cons]; omega⟩,
      fun b' hb' hs => ?_, c.off + 36 + o, G.map (c.off + 36 + ·), m', ?_, hcap ▸ hrun, ?_, ?_⟩
    · obtain ⟨c', hc', hat'⟩ := forall₂_left hM.lists hb'
      obtain ⟨hsize', htwo⟩ := (h.serves_iff hc' hat').mp hs
      rw [hcap, hat'.capPerBuffer, (h.chained c' hc').capWord]
      exact hmin c' hc' hsize' htwo
    · rw [(h.chained c hc).freeSlots_eq hat, hF, List.map_cons]
    · rw [(hd.stock.chained c hc).freeSlots_eq hat, Function.update_self]
    · rw [hM.freeSlots_eq h.chained, hM.freeSlots_eq hd.stock.chained]
      exact hd.stocked
  · obtain ⟨as, m', F', hrun, hd, hneed, hone⟩ := h.allocShmBuffers hM size
    refine ⟨as, m', hrun, ?_, ?_, fun hless b hb => ?_, hneed⟩
    · rw [hM.freeSlots_eq h.chained, hM.freeSlots_eq hd.stock.chained]
      exact hd.stocked
    · rw [h.spare_eq hM, hd.stock.spare_eq hM]
      exact hd.spare
    · obtain ⟨c, hc, hat⟩ := forall₂_left hM.lists hb
      rw [(hd.stock.chained c hc).freeSlots_eq hat, List.length_map]
      exact hone hless c hc
  · rw [← hnone, h.spare_eq hM]
    exact h.alloc hM hasc l hlt

end Manager

/-! ## The runs -/

namespace BestFit

structure State where
  mem : Mem
  /-- The slots in use, with their capacities. -/
  held : List (ℕ × ℕ)

inductive Act
  | allocShmBuffer (v : View) (size : ℕ)
  | allocShmBuffers (v : View) (size : ℕ)
  | recycleBuffer (v : View) (slice : BufferSlice)
  /-- The holder of a slot writes to it, behind its capacity. -/
  | write (x : ℕ) (b : UInt8)

/-- The slice is one of a slot in use. -/
def State.Holds (s : State) (x : BufferSlice) : Prop :=
  Views.spot x ∈ s.held ∧ x.header = some x.offsetInShm ∧ x.isFromShm = true

/-- The byte `x` belongs to a slot in use, and not to its capacity. -/
def State.Writable (s : State) (x : ℕ) : Prop :=
  ∃ p ∈ s.held, p.1 + bufferSizeOffset ≤ x ∧ x < p.1 + bufferHeaderSize + p.2

instance (s : State) (x : BufferSlice) : Decidable (s.Holds x) :=
  inferInstanceAs (Decidable (_ ∧ _ ∧ _))

instance (s : State) (x : ℕ) : Decidable (s.Writable x) :=
  inferInstanceAs (Decidable (∃ p ∈ s.held, _ ∧ _))

/-- `none` is also where the code panics. -/
def next (bm : View → Manager) (s : State) : Act → Option State
  | .allocShmBuffer v size =>
    match (bm v).allocShmBuffer s.mem size with
    | .ok (m, .ok x) => some ⟨m, Views.spot x :: s.held⟩
    | .ok (m, .error _) => some ⟨m, s.held⟩
    | .error _ => none
  | .allocShmBuffers v size =>
    match (bm v).allocShmBuffers s.mem size with
    | .ok (m, xs, _) => some ⟨m, xs.map Views.spot ++ s.held⟩
    | .error _ => none
  | .recycleBuffer v x =>
    if s.Holds x then
      match (bm v).recycleBuffer s.mem x with
      | .ok m => some ⟨m, s.held.erase (Views.spot x)⟩
      | .error _ => none
    else none
  | .write x b => if s.Writable x then some ⟨s.mem.set8 x b, s.held⟩ else none

/-- The runs of the managers `bm` from the created memory `m`. -/
def runs (bm : View → Manager) (m : Mem) : Sys State Act where
  init s := s = ⟨m, []⟩
  next := next bm

/-- Every slot in use is a slot, in use once and not free. -/
structure Inv (cs : List SizeClass) (s : State) (F : SizeClass → List ℕ) : Prop where
  stock : Stock cs s.mem F
  slots : ∀ p ∈ s.held, IsSlot cs p.1 p.2
  nodup : (s.held.map Prod.fst ++ stocked cs F).Nodup

section Run

variable {cs : List SizeClass} {bm : View → Manager} {m : Mem} {s t : State}
  {F F' : SizeClass → List ℕ} {as : List (ℕ × ℕ)} {a : Act}

/-- **Step**: an allocation. -/
theorem Inv.dealt (h : Inv cs s F) (hd : Dealt cs s.mem F as m F') :
    Inv cs ⟨m, as ++ s.held⟩ F' where
  stock := hd.stock
  slots := List.forall_mem_append.mpr ⟨hd.slots, h.slots⟩
  nodup := by
    refine List.Perm.nodup_iff ?_ |>.mpr h.nodup
    rw [List.map_append, List.append_assoc]
    refine (List.perm_append_comm_assoc ..).trans ?_
    exact hd.stocked.symm.append_left _

/-- **Step.** -/
theorem Inv.step (hM : ∀ v, ManagerOk cs (bm v))
    (hasc : cs.Pairwise fun c c' => c.cap ≤ c'.cap) (h : Inv cs s F) (hn : next bm s a = some t) :
    ∃ F', Inv cs t F' := by
  cases a with
  | allocShmBuffer v size =>
    simp only [next] at hn
    rcases h.stock.allocShmBuffer (hM v) hasc size with
      ⟨-, hrun⟩ | ⟨c, -, -, -, o, G, m', -, -, hrun, hd⟩
    · rw [hrun] at hn
      cases hn
      exact ⟨F, h⟩
    · rw [hrun] at hn
      cases hn
      exact ⟨_, h.dealt hd⟩
  | allocShmBuffers v size =>
    obtain ⟨as, m', F', hrun, hd, -⟩ := h.stock.allocShmBuffers (hM v) size
    simp only [next, hrun] at hn
    cases hn
    have hspot : (as.map sliceOf).map Views.spot = as := by
      rw [List.map_map]
      exact List.map_id as
    rw [hspot]
    exact ⟨F', h.dealt hd⟩
  | recycleBuffer v x =>
    simp only [next] at hn
    split_ifs at hn with hx
    obtain ⟨hheld, hheader, hshm⟩ := hx
    have hslot := h.slots _ hheld
    have hperm := (List.perm_cons_erase hheld).map Prod.fst
    have hnd := (hperm.append_right (stocked cs F)).nodup_iff.mp h.nodup
    rw [List.map_cons, List.cons_append] at hnd
    obtain ⟨hnot, hnd'⟩ := List.nodup_cons.mp hnd
    obtain ⟨m', F', hrun, hback⟩ := h.stock.recycleBuffer (hM v) hslot
      (fun hmem => hnot (List.mem_append_right _ hmem)) hshm hheader rfl
    rw [hrun] at hn
    cases hn
    refine ⟨F', hback.stock, fun p hp => h.slots p (List.mem_of_mem_erase hp), ?_⟩
    exact ((hback.stocked.append_left _).trans List.perm_middle).nodup_iff.mpr hnd
  | write x b =>
    simp only [next] at hn
    split_ifs at hn with hx
    obtain ⟨p, hp, hlo, hhi⟩ := hx
    cases hn
    have hslot := h.slots p hp
    unfold bufferSizeOffset bufferHeaderSize at *
    refine ⟨F, h.stock.write hslot (fun hmem => ?_) rfl fun lo hi hr => ?_, h.slots, h.nodup⟩
    · exact (List.nodup_append.mp h.nodup).2.2 _ (List.mem_map_of_mem hp) _ hmem rfl
    · exact Mem.set8_sameOn (by omega)

/-- **Run.** -/
theorem inv_of_reachable (hM : ∀ v, ManagerOk cs (bm v))
    (hasc : cs.Pairwise fun c c' => c.cap ≤ c'.cap) (hm : Stock cs m F)
    (hs : (runs bm m).Reachable s) : ∃ F, Inv cs s F := by
  refine hs.invariant (fun s => ∃ F, Inv cs s F) ?_ fun s a t ⟨F, h⟩ _ hn => h.step hM hasc hn
  rintro s rfl
  exact ⟨F, hm, by simp, by simpa using hm.nodup⟩

end Run

end BestFit

/-- A created memory has all slots in stock. -/
theorem Built.stock {cs : List SizeClass} {bm : Manager} {m : Mem} (h : Built cs bm m) :
    Stock cs m fun c => slotOffsets c.n c.cap where
  placed := h.placed
  chained c hc := (h.free c hc).chained ((h.placed.fits c hc).trans_lt h.placed.small)
  slots c hc _ ho := ⟨c, hc, rfl, List.mem_map_of_mem ho⟩
  nodup := h.placed.allSlots_nodup
  caps a cap ha := by
    obtain ⟨c, hc, rfl, ha⟩ := ha
    obtain ⟨o, ho, rfl⟩ := SizeClass.mem_slots.mp ha
    exact (h.free c hc).caps o ho

/-- **Main theorem.** Of a memory created with sizes that do not descend and leave room for the
    slot header in 32 bits, in every state of every run and through the manager of either
    process: allocation is complete and best-fit. -/
theorem allocation_best_fit {pairs : List SizePercentPair} {m m0 : Mem} {bm : Manager}
    (hsizes : ∀ p ∈ pairs, p.size + bufferHeaderSize < 2 ^ 32)
    (hasc : pairs.Pairwise fun p p' => p.size ≤ p'.size)
    (hsum : (pairs.map (·.percent)).sum ≤ 100) (hlen : m.len < 2 ^ 32)
    (hcreate : createBufferManager pairs m 0 = .ok (.ok (m0, bm))) :
    ∃ bm', mappingBufferManager m0 0 = .ok (.ok bm') ∧
      ∀ s, (BestFit.runs (Views.managerOf bm bm') m0).Reachable s →
        ∀ v, BestFit (Views.managerOf bm bm' v) s.mem := by
  obtain ⟨hbuilt, -⟩ := createBufferManager_built hsizes hsum hlen hcreate
  have hcaps := layoutOf_caps (C := regionCap pairs m.len) pairs 8
  have hsorted : (classesOf pairs m.len).Pairwise fun c c' => c.cap ≤ c'.cap :=
    List.pairwise_map.mp (hcaps ▸ List.pairwise_map.mpr hasc :
      ((classesOf pairs m.len).map (·.cap)).Pairwise (· ≤ ·))
  obtain ⟨bm', hmap, hm⟩ := mappingBufferManager_isView hbuilt.headers hbuilt.placed hbuilt.nonempty
  have hM : ∀ v, ManagerOk (classesOf pairs m.len) (Views.managerOf bm bm' v) := fun v =>
    (Views.isView_managerOf hbuilt.isView hm v).managerOk hbuilt.placed hsorted
  refine ⟨bm', hmap, fun s hs v => ?_⟩
  obtain ⟨F, hinv⟩ := BestFit.inv_of_reachable hM hsorted hbuilt.stock hs
  exact hinv.stock.bestFit (hM v) hsorted

/-- Three slots of two lists of one size. One of the second list comes back to the first. -/
def sameSizeRun : List BestFit.Act := [.allocShmBuffers .creator 12, .write 180 7,
  .recycleBuffer .mapper (slotSlice 152 4)]

theorem allocation_best_fit_same_size : ∃ m bm bm' s,
    createBufferManager [⟨4, 50⟩, ⟨4, 50⟩] (zeroMem 224) 0 = .ok (.ok (m, bm)) ∧
      mappingBufferManager m 0 = .ok (.ok bm') ∧
      (BestFit.runs (Views.managerOf bm bm') m).Reachable s ∧
      bm.lists.map (·.freeSlots s.mem) = [[68, 92, 152], [200]] ∧
      BestFit bm s.mem ∧ BestFit bm' s.mem := by
  obtain ⟨m, bm, bm', hc, hmap, hrun⟩ := Views.exists_zeroViews [⟨4, 50⟩, ⟨4, 50⟩] 224
    (fun m bm bm' => ∃ s ∈ (BestFit.runs (Views.managerOf bm bm') m).run ⟨m, []⟩ sameSizeRun,
      bm.lists.map (·.freeSlots s.mem) = [[68, 92, 152], [200]]) (by decide +kernel)
  obtain ⟨s, hs, hout⟩ := (BestFit.runs (Views.managerOf bm bm') m).exists_reachable_of_run
    ⟨m, []⟩ sameSizeRun _ rfl hrun
  obtain ⟨bm'', hmap', hfit⟩ := allocation_best_fit (by decide) (by decide) (by decide) (by decide) hc
  cases hmap.symm.trans hmap'
  exact ⟨m, bm, bm', s, hc, hmap, hs, hout, hfit s hs .creator, hfit s hs .mapper⟩

/-- **Counterexample.** Slices of `2 ^ 32 - 3` bytes count 17 bytes with their headers. A memory
    of 95 bytes passes all checks and has three of them free, but `pop` panics. -/
theorem wide_slice_panics : ∃ m bm,
    createBufferManager [⟨2 ^ 32 - 3, 100⟩] (zeroMem 95) 0 = .ok (.ok (m, bm)) ∧
      bm.lists.map (fun b => (m.get32 b.capPerBuffer, b.freeSlots m)) =
        [(2 ^ 32 - 3, [44, 61, 78])] ∧
      Panics (bm.allocShmBuffer m 1) .sliceBounds := by
  exact exists_zeroManager _ _ _ (by decide +kernel)

end Shmipc.Buffer
