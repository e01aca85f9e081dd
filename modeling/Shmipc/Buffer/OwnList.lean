import Shmipc.Config
import Shmipc.Buffer.Region

/-!
# Recycled slices and their lists

`recycleBuffer` finds the list of a slice by its capacity (buffer_manager.go:514-528) and
`push` then takes the slice's offset relative to the region of that list. Any number of
allocations and of `recycleBuffer`s of slices that were allocated before, also of the
same slice more than once.

Results:
* `recycled_to_own_list`: with different slice sizes that leave room for the slot header
  in 32 bits, a recycled slice goes to the list whose region it lies in, and the links of
  each list stay inside its region.
* `same_size_breaks_region`: `VerifyConfig` accepts two lists of one size; the slices of
  the second go to the first.
-/

namespace Shmipc.Buffer

open Common

namespace OwnList

/-! ## The runs -/

structure State where
  mem : Mem
  /-- Every slice that was ever allocated. -/
  allocated : List BufferSlice

/-- The slice was allocated before, whether or not it has been recycled since. -/
def State.Allocated (s : State) (x : BufferSlice) : Prop := x.place ∈ s.allocated.map BufferSlice.place

instance (s : State) (x : BufferSlice) : Decidable (s.Allocated x) :=
  inferInstanceAs (Decidable (_ ∈ _))

inductive Act
  | allocShmBuffer (size : ℕ)
  | allocShmBuffers (size : ℕ)
  | recycleBuffer (slice : BufferSlice)

/-- `none` is also where the code panics. -/
def next (bm : Manager) (s : State) : Act → Option State
  | .allocShmBuffer size =>
    match bm.allocShmBuffer s.mem size with
    | .ok (m, .ok x) => some ⟨m, x :: s.allocated⟩
    | .ok (m, .error _) => some ⟨m, s.allocated⟩
    | .error _ => none
  | .allocShmBuffers size =>
    match bm.allocShmBuffers s.mem size with
    | .ok (m, xs, _) => some ⟨m, xs ++ s.allocated⟩
    | .error _ => none
  | .recycleBuffer x =>
    if s.Allocated x then
      match bm.recycleBuffer s.mem x with
      | .ok m => some ⟨m, s.allocated⟩
      | .error _ => none
    else none

/-- The runs that start from the manager `bm` of memory `m`. -/
def runs (bm : Manager) (m : Mem) : Sys State Act where
  init s := s = ⟨m, []⟩
  next := next bm

/-- `o` is a multiple of the list's slot stride inside its region. -/
def Inside (l : BufferList) (m : Mem) (o : ℕ) : Prop :=
  m.get32 l.capPerBuffer + bufferHeaderSize ∣ o ∧
    o + (m.get32 l.capPerBuffer + bufferHeaderSize) ≤ l.regionLen

/-- The slice lies in the region of the list. -/
def Contains (l : BufferList) (m : Mem) (x : BufferSlice) : Prop :=
  ∃ o, x.offsetInShm = l.regionStart + o ∧ Inside l m o

/-- Nothing outside the list's header and region has changed. -/
def Confined (l : BufferList) (m m' : Mem) : Prop :=
  ∀ x, x < l.offsetInShm ∨ l.regionStart + l.regionLen ≤ x → m'.byte x = m.byte x

/-- The lists as their users rely on them. -/
structure Ok (bm : Manager) (s : State) : Prop where
  alloc : ∀ size, (∃ r, bm.allocShmBuffer s.mem size = .ok r) ∧
    ∃ r, bm.allocShmBuffers s.mem size = .ok r
  recycle : ∀ x, s.Allocated x → ∃ l ∈ bm.lists, Contains l s.mem x ∧
    bm.recycleBuffer s.mem x = l.push s.mem x
  links : ∀ l ∈ bm.lists, Inside l s.mem (s.mem.get32 l.head) ∧
    Inside l s.mem (s.mem.get32 l.tail) ∧
    ∀ o, Inside l s.mem o → hasNext s.mem (l.regionStart + o) = true →
      Inside l s.mem (nextOffset s.mem (l.regionStart + o))
  pop : ∀ l ∈ bm.lists, ∃ m r, l.pop s.mem = .ok (m, r) ∧ Confined l s.mem m
  push : ∀ x, s.Allocated x → ∀ l ∈ bm.lists, Contains l s.mem x →
    ∃ m, l.push s.mem x = .ok m ∧ Confined l s.mem m

/-! ## The invariant -/

section

variable {cs : List SizeClass} {c : SizeClass} {bm : Manager} {m m' : Mem} {l : BufferList}
  {x y : BufferSlice} {xs : List BufferSlice} {s t : State} {o : ℕ}

/-- The slots of a class, as the set that its links stay in. -/
def slotSet (c : SizeClass) : Set ℕ := {o | o ∈ slotOffsets c.n c.cap}

theorem update_slotSet (ho : o ∈ slotOffsets c.n c.cap) :
    Function.update slotSet c (insert o (slotSet c)) = slotSet := by
  rw [Set.insert_eq_of_mem (show o ∈ slotSet c from ho), Function.update_eq_self]

/-- The memory of the manager `bm` with the classes `cs`. -/
structure Kept (cs : List SizeClass) (bm : Manager) (m : Mem) : Prop where
  layout : Layout cs m.len
  lists : bm.lists = cs.map fun c => createdList c.off c.n c.cap
  regions : Regions cs slotSet m

theorem Kept.listAt (h : Kept cs bm m) (hc : c ∈ cs) :
    ListAt (createdList c.off c.n c.cap) c.off c.n c.cap := h.layout.placed.listAt hc

theorem Kept.list_cases (h : Kept cs bm m) (hl : l ∈ bm.lists) :
    ∃ c ∈ cs, l = createdList c.off c.n c.cap := by
  rw [h.lists] at hl
  obtain ⟨c, hc, rfl⟩ := List.mem_map.mp hl
  exact ⟨c, hc, rfl⟩

theorem Kept.inside_iff (h : Kept cs bm m) (hc : c ∈ cs) :
    Inside (createdList c.off c.n c.cap) m o ↔ o ∈ slotOffsets c.n c.cap := by
  have hcap : m.get32 (createdList c.off c.n c.cap).capPerBuffer = c.cap := (h.regions c hc).capWord
  unfold Inside bufferHeaderSize
  rw [hcap, mem_slotOffsets]
  constructor
  · rintro ⟨⟨i, rfl⟩, hle⟩
    refine ⟨i, ?_, Nat.mul_comm _ _⟩
    have hlt : (i + 1) * (c.cap + 20) ≤ c.n * (c.cap + 20) :=
      calc (i + 1) * (c.cap + 20) = (c.cap + 20) * i + (c.cap + 20) := by ring
        _ ≤ c.n * (c.cap + 20) := hle
    exact Nat.le_of_mul_le_mul_right hlt (by omega)
  · rintro ⟨i, hi, rfl⟩
    exact ⟨⟨i, Nat.mul_comm _ _⟩, slot_le (mem_slotOffsets.mpr ⟨i, hi, rfl⟩)⟩

/-- **Step**: what `pop` of any list returns, and that the invariant is kept. -/
theorem Kept.pop (h : Kept cs bm m) (hl : l ∈ bm.lists) : ∃ m' r, l.pop m = .ok (m', r) ∧
    Kept cs bm m' ∧ Confined l m m' ∧
      ∀ x, r = .ok x → ∃ c ∈ cs, ∃ o, SliceOf c o x := by
  obtain ⟨c, hc, rfl⟩ := h.list_cases hl
  have hat := h.listAt hc
  have hR := h.regions c hc
  have hpop := hR.pop_eq hat
  cases hp : popped m c.off with
  | none =>
    rw [hp] at hpop
    exact ⟨m, _, hpop, h, fun _ _ => rfl, by simp⟩
  | some p =>
    obtain ⟨o, o'⟩ := p
    rw [hp] at hpop
    have ho : o ∈ slotOffsets c.n c.cap := (popped_eq_some hp).1 ▸ hR.head
    refine ⟨_, _, hpop, ⟨h.layout, h.lists, h.regions.pop h.layout hc hat hp⟩, fun x hx => ?_, ?_⟩
    · exact popMem_outside (c := c) hat.counter ho x (x + 1) (by
        change x < c.off ∨ c.finish ≤ x at hx
        omega) x le_rfl (by omega)
    · rintro x ⟨⟩
      exact ⟨c, hc, o, hR.sliceOf ho⟩

theorem Kept.popped (h : Kept cs bm m) (hp : Popped bm.lists m xs m') :
    ∀ x ∈ xs, ∃ c ∈ cs, ∃ o, SliceOf c o x := by
  induction hp with
  | nil => exact fun _ hx => nomatch hx
  | cons hl hpop _ ih =>
    obtain ⟨m1, r, hpop', h', -, hslice⟩ := h.pop hl
    rw [hpop'] at hpop
    cases hpop
    exact List.forall_mem_cons.mpr ⟨hslice _ rfl, ih h'⟩

/-- **Step**: a slice is pushed onto its own list. -/
theorem Kept.recycle (h : Kept cs bm m) (hc : c ∈ cs) (hx : SliceOf c o x) :
    bm.recycleBuffer m x = (createdList c.off c.n c.cap).push m x := by
  have hlists : List.Forall₂ (fun b c => ListAt b c.off c.n c.cap) bm.lists cs := by
    rw [h.lists, List.forall₂_map_left_iff, List.forall₂_same]
    exact fun c hc => h.listAt hc
  obtain ⟨b, hz, hrun⟩ := h.regions.recycleBuffer_eq h.layout hx hc hlists
  rw [h.lists] at hz
  obtain ⟨rfl, -⟩ := mem_zip_map hz
  exact hrun

theorem Kept.push (h : Kept cs bm m) (hc : c ∈ cs) (hx : SliceOf c o x) :
    ∃ m', (createdList c.off c.n c.cap).push m x = .ok m' ∧ Kept cs bm m' ∧
      Confined (createdList c.off c.n c.cap) m m' := by
  have hat := h.listAt hc
  have hR := h.regions c hc
  have hregions := h.regions.push h.layout hc hat hx.slot
  rw [update_slotSet hx.slot] at hregions
  refine ⟨_, hR.push_eq hat hx.slot hx.header hx.offsetInShm, ⟨h.layout, h.lists, hregions⟩,
    fun y hy => ?_⟩
  exact pushMem_outside (c := c) hat.counter hx.slot hR.tail y (y + 1) (by
    change y < c.off ∨ c.finish ≤ y at hy
    omega) y le_rfl (by omega)

/-- The invariant: the regions, and every allocated slice is a slot. -/
structure Inv (cs : List SizeClass) (bm : Manager) (s : State) : Prop where
  kept : Kept cs bm s.mem
  slices : ∀ x ∈ s.allocated, ∃ c ∈ cs, ∃ o, SliceOf c o x

theorem Inv.of_allocated (h : Inv cs bm s) (hx : s.Allocated x) :
    ∃ c ∈ cs, ∃ o, SliceOf c o x := by
  obtain ⟨y, hy, hp⟩ := List.mem_map.mp hx
  obtain ⟨c, hc, o, hs⟩ := h.slices y hy
  exact ⟨c, hc, o, hs.of_place hp.symm⟩

theorem Kept.alloc (h : Kept cs bm m) (size : ℕ) :
    (∃ m' r, bm.allocShmBuffer m size = .ok (m', r) ∧ Kept cs bm m') ∧
      ∃ m' r, bm.allocShmBuffers m size = .ok (m', r) ∧ Kept cs bm m' := by
  refine alloc_invariant (I := Kept cs bm) (fun l hl m h => ?_) h
  obtain ⟨m', r, hpop, h', -, -⟩ := h.pop hl
  exact ⟨m', r, hpop, h'⟩

/-- **Step**: every call keeps the invariant. -/
theorem Inv.step (h : Inv cs bm s) {a : Act} (hn : next bm s a = some t) : Inv cs bm t := by
  cases a with
  | allocShmBuffer size =>
    obtain ⟨m', r, hrun, h'⟩ := (h.kept.alloc size).1
    simp only [next, hrun] at hn
    rcases allocShmBuffer_popped hrun with ⟨-, rfl⟩ | ⟨x, rfl, hp⟩
    · cases hn
      exact ⟨h', h.slices⟩
    · cases hn
      exact ⟨h', List.forall_mem_cons.mpr ⟨h.kept.popped hp x List.mem_cons_self, h.slices⟩⟩
  | allocShmBuffers size =>
    obtain ⟨m', ⟨xs, z⟩, hrun, h'⟩ := (h.kept.alloc size).2
    simp only [next, hrun] at hn
    cases hn
    refine ⟨h', fun x hx => ?_⟩
    rcases List.mem_append.mp hx with hx | hx
    · exact h.kept.popped (allocShmBuffers_popped hrun) x hx
    · exact h.slices x hx
  | recycleBuffer x =>
    simp only [next] at hn
    split_ifs at hn with hx
    obtain ⟨c, hc, o, hs⟩ := h.of_allocated hx
    obtain ⟨m', hpush, h', -⟩ := h.kept.push hc hs
    rw [h.kept.recycle hc hs, hpush] at hn
    cases hn
    exact ⟨h', h.slices⟩

theorem Inv.ok (h : Inv cs bm s) : Ok bm s where
  alloc size := by
    obtain ⟨⟨m1, r1, h1, -⟩, m2, r2, h2, -⟩ := h.kept.alloc size
    exact ⟨⟨_, h1⟩, _, h2⟩
  recycle x hx := by
    obtain ⟨c, hc, o, hs⟩ := h.of_allocated hx
    exact ⟨createdList c.off c.n c.cap, h.kept.lists ▸ List.mem_map.mpr ⟨c, hc, rfl⟩,
      ⟨o, hs.offsetInShm, (h.kept.inside_iff hc).mpr hs.slot⟩, h.kept.recycle hc hs⟩
  links l hl := by
    obtain ⟨c, hc, rfl⟩ := h.kept.list_cases hl
    have hR := h.kept.regions c hc
    refine ⟨(h.kept.inside_iff hc).mpr hR.head, (h.kept.inside_iff hc).mpr hR.tail,
      fun o ho hn => (h.kept.inside_iff hc).mpr ?_⟩
    exact hR.next o ((h.kept.inside_iff hc).mp ho) _ (if_pos hn)
  pop l hl := by
    obtain ⟨m', r, hpop, -, hconf, -⟩ := h.kept.pop hl
    exact ⟨m', r, hpop, hconf⟩
  push x hx l hl hin := by
    obtain ⟨c, hc, o, hs⟩ := h.of_allocated hx
    obtain ⟨c', hc', rfl⟩ := h.kept.list_cases hl
    obtain ⟨o', hoff, ho'⟩ := hin
    -- the slice lies in one region only
    have hslot' := (h.kept.inside_iff hc').mp ho'
    have hoff : x.offsetInShm = c'.off + 36 + o' := hoff
    have hsl := slot_le hs.slot
    have hsl' := slot_le hslot'
    obtain rfl : c = c' := by
      by_contra hne
      have hap := h.kept.layout.classes_apart hc hc' hne
      have := hs.offsetInShm
      unfold SizeClass.finish at hap
      omega
    obtain ⟨m', hpush, -, hconf⟩ := h.kept.push hc hs
    exact ⟨m', hpush, hconf⟩

theorem inv_of_created (h : Created cs bm m) : Inv cs bm ⟨m, []⟩ where
  kept := ⟨h.layout, h.lists, fun c hc => (h.free c hc).region⟩
  slices := by simp

end

/-- **Main theorem.** For a configuration that is accepted, with different slice sizes
    that leave room for the slot header in 32 bits: the lists keep to their regions in
    every run, and a recycled slice goes to the list whose region it lies in. -/
theorem recycled_to_own_list {p : Platform} {config : Config} {pairs : List SizePercentPair}
    {m m0 : Mem} {bm : Manager} (hv : verifyConfig p config = .ok ())
    (hcap : config.shareMemoryBufferCap < 2 ^ 32) (hperm : pairs.Perm config.bufferSliceSizes)
    (hsorted : pairs.Pairwise fun p p' => p.size ≤ p'.size)
    (hlen : m.len = config.shareMemoryBufferCap)
    (hcreate : createBufferManager pairs m 0 = .ok (.ok (m0, bm)))
    (hdistinct : (config.bufferSliceSizes.map (·.size)).Nodup)
    (hsizes : ∀ pair ∈ config.bufferSliceSizes, pair.size + bufferHeaderSize < 2 ^ 32)
    {s : State} (hs : (runs bm m0).Reachable s) : Ok bm s := by
  obtain ⟨-, -, -, hsum, -⟩ := (verifyConfig_ok_iff p config).mp hv
  have hne : pairs.Pairwise fun p p' => p.size ≠ p'.size :=
    List.pairwise_map.mp ((hperm.map _).nodup_iff.mpr hdistinct)
  have hasc : pairs.Pairwise fun p p' => p.size < p'.size :=
    hsorted.imp₂ (fun _ _ hle hne => lt_of_le_of_ne hle hne) hne
  have hsum' : (pairs.map (·.percent)).sum ≤ 100 := ((hperm.map _).sum_eq.trans hsum).le
  obtain ⟨hc, -⟩ := createBufferManager_created (fun p hp => hsizes p (hperm.mem_iff.mp hp)) hasc
    hsum' (hlen ▸ hcap) hcreate
  have hinv : Inv (classesOf pairs m.len) bm s :=
    hs.invariant (fun s => Inv (classesOf pairs m.len) bm s)
      (by rintro s rfl; exact inv_of_created hc) (fun s a t h _ hn => h.step hn)
  exact hinv.ok

/-- Two slices of different sizes, one of them recycled twice. -/
def recycleTwice : List Act := [.allocShmBuffer 1, .allocShmBuffers 100000,
  .recycleBuffer (slotSlice 44 65516), .recycleBuffer (slotSlice 44 65516)]

def oneMegabyte : Config :=
  { defaultConfig with
    shareMemoryBufferCap := 2 ^ 20
    bufferSliceSizes := [⟨262124, 75⟩, ⟨65516, 25⟩] }

theorem recycled_to_own_list_twice :
    ∃ m bm s, createBufferManager [⟨65516, 25⟩, ⟨262124, 75⟩] (zeroMem (2 ^ 20)) 0 =
        .ok (.ok (m, bm)) ∧
      (runs bm m).Reachable s ∧ s.allocated.map (·.offsetInShm) = [196688, 44] ∧ Ok bm s := by
  obtain ⟨m, bm, hc, hrun⟩ := exists_zeroManager [⟨65516, 25⟩, ⟨262124, 75⟩] (2 ^ 20)
    (fun m bm => ∃ s ∈ (runs bm m).run ⟨m, []⟩ recycleTwice,
      s.allocated.map (·.offsetInShm) = [196688, 44]) (by decide +kernel)
  obtain ⟨s, hs, hout⟩ := (runs bm m).exists_reachable_of_run ⟨m, []⟩ recycleTwice _ rfl hrun
  have hv : verifyConfig ⟨"linux", "amd64"⟩ oneMegabyte = .ok () := by decide
  exact ⟨m, bm, s, hc, hs, hout, recycled_to_own_list hv (by decide)
    (List.Perm.swap ..) (by simp) rfl hc (by decide) (by decide) hs⟩

/-- Two lists of one size. -/
def twoHalves : Config :=
  { defaultConfig with
    shareMemoryBufferCap := 2 ^ 20
    bufferSliceSizes := [⟨262104, 50⟩, ⟨262104, 50⟩] }

/-- The second slice comes from the second list, whose region begins at 524328, and is
    recycled. -/
def recycleSecond : List Act :=
  [.allocShmBuffer 1, .allocShmBuffer 1, .recycleBuffer (slotSlice 524328 262104)]

/-- `recycleBuffer` pushes the slice onto the first list, whose tail then lies outside of
    its region. -/
theorem same_size_breaks_region : verifyConfig ⟨"linux", "amd64"⟩ twoHalves = .ok () ∧
    ∃ m bm s, createBufferManager twoHalves.bufferSliceSizes
        (zeroMem twoHalves.shareMemoryBufferCap) 0 = .ok (.ok (m, bm)) ∧
      (runs bm m).Reachable s ∧ (∃ l ∈ bm.lists, l.regionLen < s.mem.get32 l.tail) ∧
      ¬ Ok bm s := by
  refine ⟨by decide, ?_⟩
  obtain ⟨m, bm, hc, hrun⟩ := exists_zeroManager twoHalves.bufferSliceSizes
    twoHalves.shareMemoryBufferCap (fun m bm => ∃ s ∈ (runs bm m).run ⟨m, []⟩ recycleSecond,
      ∃ l ∈ bm.lists, l.regionLen < s.mem.get32 l.tail) (by decide +kernel)
  obtain ⟨s, hs, l, hl, htail⟩ := (runs bm m).exists_reachable_of_run ⟨m, []⟩ recycleSecond _ rfl hrun
  refine ⟨m, bm, s, hc, hs, ⟨l, hl, htail⟩, fun hok => ?_⟩
  have := (hok.links l hl).2.1.2
  omega

end OwnList

end Shmipc.Buffer
