import Shmipc.Buffer.Region

/-!
# One memory, two managers

The process that creates the shared memory and the process that maps it have a
`bufferManager` each. The one reads the layout off the configuration, the other off the
list headers in memory; both then work on the same words, except for one: the counter of
outstanding slices of a list is at offset 20 of its header for the creator and at offset
24 for the mapper (buffer_manager.go:368 and 404).

Any number of calls through either manager, with writes to the slots between them; a
slice may be recycled more than once. The same calls and writes go to a second memory, the
calls there all through one manager.

Results:
* `managers_agree`: at any time the memory can be mapped, to the same lists, and every
  call returns the same on both memories.
* `counter_read_differs`: except for `readBufferSlice` of an offset where a counter is.
-/

namespace Shmipc.Buffer

open Common

/-! ## The mapped manager -/

inductive View
  | creator
  | mapper
  deriving DecidableEq, Repr

/-- Where the header of a list has the counter. -/
def View.counter : View → ℕ
  | .creator => 20
  | .mapper => 24

/-- The list of a class, in either process. -/
def viewList (v : View) (c : SizeClass) : BufferList :=
  { createdList c.off c.n c.cap with counter := c.off + v.counter }

/-- What mapping reads. -/
structure Headers (cs : List SizeClass) (m : Mem) : Prop where
  pos : ∀ c ∈ cs, 0 < c.n
  listNum : (m.byte 0).toNat + 2 ^ 8 * (m.byte 1).toNat = cs.length
  used : Consecutive 8 cs (8 + m.get32 4)
  cap : ∀ c ∈ cs, m.get32 (c.off + 4) = c.n
  capPerBuffer : ∀ c ∈ cs, m.get32 (c.off + 16) = c.cap

section Mapping

variable {cs cs' : List SizeClass} {m m' : Mem} {c : SizeClass} {v : View} {bm bm' : Manager}

/-- The words of a list that mapping reads, and the size it computes from them. -/
theorem Headers.countBufferListMemSize_eq (hH : Headers cs m) (hP : Placed cs m.len) (hc : c ∈ cs) :
    countBufferListMemSize (m.get32 (c.off + 4)) (m.get32 (c.off + 16)) =
      36 + c.n * (c.cap + 20) := by
  have hfit := hP.fits c hc
  have hsmall := hP.small
  have hmul : c.cap + 20 ≤ c.n * (c.cap + 20) := Nat.le_mul_of_pos_left _ (hH.pos c hc)
  unfold SizeClass.finish at hfit
  rw [hH.cap c hc, hH.capPerBuffer c hc]
  rw [Buffer.countBufferListMemSize_eq (by omega), u32_of_lt (by omega)]

theorem mappingFreeBufferList_eq (hH : Headers cs m) (hP : Placed cs m.len) (hc : c ∈ cs) :
    mappingFreeBufferList m c.off = .ok (.ok (viewList .mapper c)) := by
  have hfit := hP.fits c hc
  have hsmall := hP.small
  unfold SizeClass.finish at hfit
  have hend : mappedEnd m c.off = c.off + 36 + c.n * (c.cap + 20) := by
    rw [mappedEnd, hH.countBufferListMemSize_eq hP hc, ← Nat.add_assoc, u32_of_lt (by omega)]
  have hlist : mappedList m c.off = viewList .mapper c := by
    unfold mappedList
    rw [hend, Nat.add_sub_cancel_left]
    rfl
  have hhdr : c.off + 36 ≤ m.len := by omega
  rcases mappingFreeBufferList_cases hsmall hhdr with ⟨-, -, hmap⟩ | ⟨hno, -⟩
  · rw [hmap, hlist]
  · omega

theorem mappingLists_eq (hH : Headers cs m) (hP : Placed cs m.len) {used : ℕ} :
    ∀ (cs' : List SizeClass) (off : ℕ), (∀ c ∈ cs', c ∈ cs) → Consecutive off cs' used →
    mappingLists m 0 cs'.length off = .ok (.ok (cs'.map (viewList .mapper))) := by
  intro cs'
  induction cs' with
  | nil => exact fun _ _ _ => rfl
  | cons c cs' ih =>
    intro off hsub hcons
    obtain ⟨hc, hsub⟩ := List.forall_mem_cons.mp hsub
    obtain ⟨rfl, hcons⟩ := hcons
    have hfit := hP.fits c hc
    have hsmall := hP.small
    have hfin : c.finish = c.off + 36 + c.n * (c.cap + 20) := rfl
    have hcount : countBufferListMemSize (m.get32 (viewList .mapper c).cap)
        (m.get32 (viewList .mapper c).capPerBuffer) = 36 + c.n * (c.cap + 20) :=
      hH.countBufferListMemSize_eq hP hc
    rw [List.length_cons, mappingLists, Nat.zero_add, u32_of_lt (by omega),
      mappingFreeBufferList_eq hH hP hc]
    simp only [bind, Except.bind]
    rw [hcount, show c.off + (36 + c.n * (c.cap + 20)) = c.finish by omega, u32_of_lt (by omega),
      ih c.finish hsub hcons]
    rfl

/-- The manager of either process. -/
structure IsView (cs : List SizeClass) (v : View) (bm : Manager) : Prop where
  lists : bm.lists = cs.map (viewList v)
  minSliceSize : cs.head?.map (·.cap) = some bm.minSliceSize
  maxSliceSize : cs.getLast?.map (·.cap) = some bm.maxSliceSize

theorem IsView.eq (h : IsView cs v bm) (h' : IsView cs v bm') : bm' = bm := by
  have h1 := h.lists.trans h'.lists.symm
  have h2 := Option.some.inj (h.minSliceSize.symm.trans h'.minSliceSize)
  have h3 := Option.some.inj (h.maxSliceSize.symm.trans h'.maxSliceSize)
  cases bm
  cases bm'
  simp_all

theorem Built.isView (h : Built cs bm m) : IsView cs .creator bm :=
  ⟨h.lists, h.minSliceSize, h.maxSliceSize⟩

theorem Built.headers (h : Built cs bm m) : Headers cs m where
  pos c hc := by
    have hF := h.free c hc
    have hle := slot_le hF.tail_mem
    refine Nat.pos_of_ne_zero fun h0 => ?_
    rw [h0, Nat.zero_mul] at hle
    omega
  listNum := h.listNum
  used := h.used
  cap := h.capWord
  capPerBuffer c hc := (h.free c hc).capWord

/-- **Mapping** a memory in use gives the lists of its classes. -/
theorem mappingBufferManager_isView (hH : Headers cs m) (hP : Placed cs m.len) (hne : cs ≠ []) :
    ∃ bm, mappingBufferManager m 0 = .ok (.ok bm) ∧ IsView cs .mapper bm := by
  have hreach := hH.used.le_len hP.fits hne
  obtain ⟨first, hfirst⟩ : ∃ c, cs.head? = some c := by
    cases cs with
    | nil => exact absurd rfl hne
    | cons c _ => exact ⟨c, rfl⟩
  obtain ⟨last, hlast⟩ := Option.ne_none_iff_exists'.mp fun h => hne (List.getLast?_eq_none_iff.mp h)
  refine ⟨⟨cs.map (viewList .mapper), first.cap, last.cap⟩, ?_, rfl, by rw [hfirst]; rfl,
    by rw [hlast]; rfl⟩
  have hnum : cs.length ≠ 0 := fun h => hne (List.length_eq_zero_iff.mp h)
  have hcons := hH.used.le
  unfold mappingBufferManager bmCapOffset bufferManagerHeaderSize
  rw [if_neg (by rw [show u32 (0 + 4) = 4 from rfl]; omega)]
  simp only [show u32 (0 + 4) = 4 from rfl, Nat.zero_add, hH.listNum]
  rw [if_neg (by omega), mappingLists_eq hH hP cs 8 (fun _ hc => hc) hH.used]
  simp only [bind, Except.bind]
  rw [List.head?_map, List.getLast?_map, hfirst, hlast]
  have hw : ∀ c ∈ cs, m.get32 (viewList .mapper c).capPerBuffer = c.cap := hH.capPerBuffer
  simp only [Option.map_some]
  rw [hw first (List.mem_of_mem_head? hfirst), hw last (List.mem_of_getLast? hlast)]
  rfl

theorem viewList_listAt (hP : Placed cs m.len) (hc : c ∈ cs) :
    ListAt (viewList v c) c.off c.n c.cap := by
  have hfit := hP.fits c hc
  have hsmall := hP.small
  unfold SizeClass.finish at hfit
  refine ⟨rfl, rfl, rfl, rfl, ?_, rfl, rfl, by omega⟩
  cases v with
  | creator => exact .inl rfl
  | mapper => exact .inr rfl

theorem IsView.listsAt (h : IsView cs v bm) (hP : Placed cs m.len) :
    List.Forall₂ (fun b c => ListAt b c.off c.n c.cap) bm.lists cs := by
  rw [h.lists, List.forall₂_map_left_iff, List.forall₂_same]
  exact fun c hc => viewList_listAt hP hc

theorem IsView.managerOk (h : IsView cs v bm) (hP : Placed cs m.len)
    (hasc : cs.Pairwise fun c c' => c.cap ≤ c'.cap) : ManagerOk cs bm :=
  ⟨h.listsAt hP, le_last_of_ascending hasc h.maxSliceSize⟩

end Mapping

/-! ## What the calls do to the words outside the slots -/

/-- The counters of all lists, in both processes. -/
def CounterAt (cs : List SizeClass) (x : ℕ) : Prop := ∃ c ∈ cs, c.off + 20 ≤ x ∧ x < c.off + 28

/-- Slices of a class allocated less slices recycled, through `v`. -/
structure Touch (cs : List SizeClass) (v : View) (net : SizeClass → ℤ) (m m' : Mem) : Prop where
  len : m'.len = m.len
  head : m.SameOn m' 0 8
  cap : ∀ c ∈ cs, m'.get32 (c.off + 4) = m.get32 (c.off + 4)
  capPerBuffer : ∀ c ∈ cs, m'.get32 (c.off + 16) = m.get32 (c.off + 16)
  counter : ∀ c ∈ cs, (m'.get32 (c.off + v.counter) : ℤ) ≡ m.get32 (c.off + v.counter) + net c
    [ZMOD 2 ^ 32]
  other : ∀ w, w ≠ v → ∀ c ∈ cs, m'.get32 (c.off + w.counter) = m.get32 (c.off + w.counter)

section Touch

variable {cs : List SizeClass} {m m' m'' m1 m2 m1' m2' : Mem} {c c' : SizeClass}
  {v v1 v2 : View} {o o' t : ℕ} {net net' : SizeClass → ℤ}

theorem View.counter_cases (v : View) : v.counter = 20 ∨ v.counter = 24 := by
  cases v with
  | creator => exact .inl rfl
  | mapper => exact .inr rfl

theorem View.counter_ne {v w : View} (h : w ≠ v) :
    w.counter + 4 ≤ v.counter ∨ v.counter + 4 ≤ w.counter := by
  cases v <;> cases w <;> first | exact absurd rfl h | decide

theorem Headers.off (h : Headers cs m) : ∀ c ∈ cs, 8 ≤ c.off := by
  have key : ∀ (cs : List SizeClass) (off used : ℕ), Consecutive off cs used →
      ∀ c ∈ cs, off ≤ c.off := by
    intro cs
    induction cs with
    | nil => simp
    | cons c cs ih =>
      intro off used hcons
      refine List.forall_mem_cons.mpr ⟨hcons.1.ge, fun c' hc' => ?_⟩
      have := ih c.finish used hcons.2 c' hc'
      have := hcons.1
      unfold SizeClass.finish at *
      omega
  exact key cs 8 _ h.used

theorem Headers.touch (h : Headers cs m) (ht : Touch cs v net m m') : Headers cs m' where
  pos := h.pos
  listNum := by
    rw [Mem.byte_congr (ht.head.mono (by omega) (by omega)),
      Mem.byte_congr (ht.head.mono (by omega) (by omega))]
    exact h.listNum
  used := by
    rw [Mem.get32_congr (ht.head.mono (by omega) (by omega))]
    exact h.used
  cap c hc := (ht.cap c hc).trans (h.cap c hc)
  capPerBuffer c hc := (ht.capPerBuffer c hc).trans (h.capPerBuffer c hc)

theorem Touch.congr (h : Touch cs v net m m') (he : ∀ c ∈ cs, net' c = net c) :
    Touch cs v net' m m' :=
  ⟨h.len, h.head, h.cap, h.capPerBuffer, fun c hc => by rw [he c hc]; exact h.counter c hc, h.other⟩

/-- An operation on the list of `c` that adds `d` to its counter and otherwise changes no
    header but the words at 0 to 4 and 8 to 16. -/
theorem Touch.of_list (hL : Layout cs m.len) (h8 : 8 ≤ c.off) (hc : c ∈ cs)
    (hlen : m'.len = m.len) {d : ℤ}
    (hcnt : (m'.get32 (c.off + v.counter) : ℤ) ≡ m.get32 (c.off + v.counter) + d [ZMOD 2 ^ 32])
    (hs : ∀ lo hi, hi ≤ c.off ∨ c.finish ≤ lo ∨ c.off + 4 ≤ lo ∧ hi ≤ c.off + 8 ∨
      c.off + 16 ≤ lo ∧ hi ≤ c.off + 36 ∧ (hi ≤ c.off + v.counter ∨ c.off + v.counter + 4 ≤ lo) →
      m.SameOn m' lo hi) : Touch cs v (fun c' => if c' = c then d else 0) m m' := by
  have hfin : c.off + 36 ≤ c.finish := by unfold SizeClass.finish; omega
  have apart : ∀ c' ∈ cs, c' ≠ c → c'.off + 36 ≤ c.off ∨ c.finish ≤ c'.off := by
    intro c' hc' hne
    have hfin' : c'.off + 36 ≤ c'.finish := by unfold SizeClass.finish; omega
    have := hL.classes_apart hc' hc hne
    omega
  have hv := v.counter_cases
  refine ⟨hlen, hs _ _ (by omega), fun c' hc' => ?_, fun c' hc' => ?_, fun c' hc' => ?_,
    fun w hw c' hc' => ?_⟩
  · rcases eq_or_ne c' c with rfl | hne
    · exact Mem.get32_congr (hs _ _ (by omega))
    · have := apart c' hc' hne
      exact Mem.get32_congr (hs _ _ (by omega))
  · rcases eq_or_ne c' c with rfl | hne
    · exact Mem.get32_congr (hs _ _ (by omega))
    · have := apart c' hc' hne
      exact Mem.get32_congr (hs _ _ (by omega))
  · show _ ≡ _ + (if c' = c then d else 0) [ZMOD _]
    split_ifs with hcc
    · rw [hcc]
      exact hcnt
    · have := apart c' hc' hcc
      rw [Mem.get32_congr (hs _ _ (by omega)), add_zero]
  · have hw' := w.counter_cases
    have := View.counter_ne hw
    rcases eq_or_ne c' c with rfl | hne
    · exact Mem.get32_congr (hs _ _ (by omega))
    · have := apart c' hc' hne
      exact Mem.get32_congr (hs _ _ (by omega))

theorem popMem_touch (hL : Layout cs m.len) (h8 : 8 ≤ c.off) (hc : c ∈ cs)
    (ho : o ∈ slotOffsets c.n c.cap) :
    Touch cs v (fun c' => if c' = c then 1 else 0) m
      (popMem m c.off (c.off + v.counter) o o') := by
  have hsl := slot_le ho
  have hv := v.counter_cases
  refine Touch.of_list hL h8 hc len_popMem ?_ fun lo hi hr => ?_
  · refine (Mem.get32_addInt32_modEq _ _ _).trans (Int.ModEq.add_right _ ?_)
    have hsame : m.SameOn (setInUsed (clearFlag ((m.addInt32 c.off (-1)).1.set32 (c.off + 8) o')
        (c.off + 36 + o)) (c.off + 36 + o)) (c.off + v.counter) (c.off + v.counter + 4) :=
      (Mem.addInt32_sameOn (by omega)).trans ((Mem.set32_sameOn (by omega)).trans
        ((clearFlag_sameOn (by omega)).trans (setInUsed_sameOn (by omega))))
    rw [Mem.get32_congr hsame]
  · unfold SizeClass.finish at hr
    exact (Mem.addInt32_sameOn (by omega)).trans ((Mem.set32_sameOn (by omega)).trans
      ((clearFlag_sameOn (by omega)).trans ((setInUsed_sameOn (by omega)).trans
      (Mem.addInt32_sameOn (by omega)))))

theorem pushMem_touch (hL : Layout cs m.len) (h8 : 8 ≤ c.off) (hc : c ∈ cs)
    (ho : o ∈ slotOffsets c.n c.cap) (ht : t ∈ slotOffsets c.n c.cap) :
    Touch cs v (fun c' => if c' = c then -1 else 0) m
      (pushMem m c.off (c.off + v.counter) o t) := by
  have hsl := slot_le ho
  have htl := slot_le ht
  have hv := v.counter_cases
  refine Touch.of_list hL h8 hc len_pushMem ?_ fun lo hi hr => ?_
  · refine (Mem.get32_addInt32_modEq _ _ _).trans (Int.ModEq.add_right _ ?_)
    have hsame : m.SameOn ((linkNext ((resetMem m (c.off + 36 + o)).set32 (c.off + 12) o)
        (c.off + 36 + t) o).addInt32 c.off 1).1 (c.off + v.counter) (c.off + v.counter + 4) :=
      (resetMem_sameOn (by omega)).trans ((Mem.set32_sameOn (by omega)).trans
        ((linkNext_sameOn (by omega)).trans (Mem.addInt32_sameOn (by omega))))
    rw [Mem.get32_congr hsame]
  · unfold SizeClass.finish at hr
    exact (resetMem_sameOn (by omega)).trans ((Mem.set32_sameOn (by omega)).trans
      ((linkNext_sameOn (by omega)).trans ((Mem.addInt32_sameOn (by omega)).trans
      (Mem.addInt32_sameOn (by omega)))))

theorem slotWrite_touch (hL : Layout cs m.len) (h8 : 8 ≤ c.off) (hc : c ∈ cs) {x : ℕ} {b : UInt8}
    (hx : c.off + 36 ≤ x) (hx' : x < c.finish) :
    Touch cs v (fun _ => 0) m (m.set8 x b) := by
  have hv := v.counter_cases
  refine (Touch.of_list hL h8 hc (d := 0) Mem.len_set8 ?_
    fun lo hi hr => Mem.set8_sameOn (by omega)).congr fun c' _ => ?_
  · rw [Mem.get32_congr (Mem.set8_sameOn (by omega)), add_zero]
  · simp

/-! ## Two memories that differ in the counters -/

theorem off_counterAt (hL : Layout cs m.len) (hc : c ∈ cs) {x : ℕ}
    (hx : c.off ≤ x ∧ x < c.off + 20 ∨ c.off + 28 ≤ x ∧ x < c.finish) : ¬ CounterAt cs x := by
  rintro ⟨c', hc', h1, h2⟩
  have hfin : c.off + 36 ≤ c.finish := by unfold SizeClass.finish; omega
  have hfin' : c'.off + 36 ≤ c'.finish := by unfold SizeClass.finish; omega
  rcases eq_or_ne c c' with rfl | hne
  · omega
  · have := hL.classes_apart hc hc' hne
    omega

/-- The counters of a class, whichever process they belong to. -/
theorem View.counterAt (v : View) (hc : c ∈ cs) {x : ℕ} (h1 : c.off + v.counter ≤ x)
    (h2 : x < c.off + v.counter + 4) : CounterAt cs x := by
  have hv := v.counter_cases
  exact ⟨c, hc, by omega, by omega⟩

section SameOff

variable {X : ℕ → Prop} {h : ℕ}

theorem sameOff_clearFlag (hs : Mem.SameOff X m1 m2) (h : ℕ) :
    Mem.SameOff X (clearFlag m1 h) (clearFlag m2 h) := hs.set8 _ _

theorem sameOff_setInUsed (hs : Mem.SameOff X m1 m2) (hX : ¬ X (h + 16)) :
    Mem.SameOff X (setInUsed m1 h) (setInUsed m2 h) := by
  unfold setInUsed bufferFlagOffset
  rw [hs.byte _ hX]
  exact hs.set8 _ _

theorem sameOff_linkNext (hs : Mem.SameOff X m1 m2) (hX : ¬ X (h + 16)) (next : ℕ) :
    Mem.SameOff X (linkNext m1 h next) (linkNext m2 h next) := by
  have h1 := hs.set32 (h + nextBufferOffset) next
  unfold linkNext bufferFlagOffset
  simp only []
  rw [h1.byte _ hX]
  exact h1.set8 _ _

end SameOff

theorem popMem_sameOff (hs : Mem.SameOff (CounterAt cs) m1 m2) (hL : Layout cs m1.len)
    (hc : c ∈ cs) (ho : o ∈ slotOffsets c.n c.cap) :
    Mem.SameOff (CounterAt cs) (popMem m1 c.off (c.off + v1.counter) o o')
      (popMem m2 c.off (c.off + v2.counter) o o') := by
  have hsl := slot_le ho
  have hfin : c.finish = c.off + 36 + c.n * (c.cap + 20) := rfl
  have hsize := hs.addInt32 (a := c.off) (fun x h1 h2 => off_counterAt hL hc (by omega)) (-1)
  have hslot := sameOff_setInUsed (h := c.off + 36 + o)
    (sameOff_clearFlag (hsize.set32 (c.off + 8) o') (c.off + 36 + o))
    (off_counterAt hL hc (by omega))
  exact ((Mem.sameOff_addInt32 _ (fun x h1 h2 => v1.counterAt hc h1 h2) 1).symm.trans hslot).trans
    (Mem.sameOff_addInt32 _ (fun x h1 h2 => v2.counterAt hc h1 h2) 1)

theorem pushMem_sameOff (hs : Mem.SameOff (CounterAt cs) m1 m2) (hL : Layout cs m1.len)
    (hc : c ∈ cs) (ht : t ∈ slotOffsets c.n c.cap) :
    Mem.SameOff (CounterAt cs) (pushMem m1 c.off (c.off + v1.counter) o t)
      (pushMem m2 c.off (c.off + v2.counter) o t) := by
  have htl := slot_le ht
  have hfin : c.finish = c.off + 36 + c.n * (c.cap + 20) := rfl
  have hreset := sameOff_clearFlag ((hs.set32 (c.off + 36 + o + 4) 0).set32
    (c.off + 36 + o + 8) 0) (c.off + 36 + o)
  have hlink := sameOff_linkNext (hreset.set32 (c.off + 12) o) (h := c.off + 36 + t)
    (off_counterAt hL hc (by omega)) o
  have hsize := hlink.addInt32 (a := c.off) (fun x h1 h2 => off_counterAt hL hc (by omega)) 1
  exact ((Mem.sameOff_addInt32 _ (fun x h1 h2 => v1.counterAt hc h1 h2) (-1)).symm.trans
    hsize).trans (Mem.sameOff_addInt32 _ (fun x h1 h2 => v2.counterAt hc h1 h2) (-1))

/-! ## The lists of both processes work alike -/

/-- Two memories of the same classes that differ in the counters. -/
structure Twin (cs : List SizeClass) (m m' : Mem) : Prop where
  layout : Layout cs m.len
  headers : Headers cs m
  regions : ∃ L, Regions cs L m
  same : Mem.SameOff (CounterAt cs) m m'

theorem Twin.sameOn (h : Twin cs m m') (hc : c ∈ cs) {lo hi : ℕ}
    (hr : c.off ≤ lo ∧ hi ≤ c.off + 20 ∨ c.off + 28 ≤ lo ∧ hi ≤ c.finish) : m.SameOn m' lo hi :=
  h.same.sameOn fun _ h1 h2 => off_counterAt h.layout hc (by omega)

theorem Twin.slot_sameOn (h : Twin cs m m') (hc : c ∈ cs) (ho : o ∈ slotOffsets c.n c.cap) :
    m.SameOn m' (c.off + 36 + o) (c.off + 36 + o + 20) := by
  have := slot_le ho
  exact h.sameOn hc (by unfold SizeClass.finish; omega)

theorem Twin.region {K : Set ℕ} (h : Twin cs m m') (hc : c ∈ cs) (hR : Region c K m) :
    Region c K m' := by
  have hfin : c.off + 36 ≤ c.finish := by unfold SizeClass.finish; omega
  exact hR.congr h.same.len (h.sameOn hc (by omega)) (fun o ho => h.slot_sameOn hc (hR.slots o ho))
    fun o ho => (h.slot_sameOn hc ho).mono le_rfl (by omega)

theorem Twin.popped_eq {K : Set ℕ} (h : Twin cs m m') (hc : c ∈ cs) (hR : Region c K m) :
    popped m' c.off = popped m c.off := by
  have hsize : m'.get32 c.off = m.get32 c.off := Mem.get32_congr (h.sameOn hc (by omega))
  have hhead : m'.get32 (c.off + 8) = m.get32 (c.off + 8) :=
    Mem.get32_congr (h.sameOn hc (by omega))
  unfold popped Mem.addInt32
  rw [hsize, hhead, nextAt_congr (h.slot_sameOn hc (hR.slots _ hR.head))]

theorem Twin.headerSlice_eq (h : Twin cs m m') (hc : c ∈ cs) (ho : o ∈ slotOffsets c.n c.cap) :
    headerSlice m' (c.off + 36 + o) c.cap = headerSlice m (c.off + 36 + o) c.cap := by
  have hs := h.slot_sameOn hc ho
  unfold headerSlice newShmSlice bufferDataStartOffset bufferSizeOffset
  rw [Mem.get32_congr (hs.mono (by omega) (by omega)), Mem.get32_congr (hs.mono (by omega) (by omega)),
    Mem.get32_congr (hs.mono (by omega) (by omega))]

/-- **Step**: `pop` of a list, in both processes. -/
theorem Twin.twins (hc : c ∈ cs) : Twins (Twin cs) (viewList v1 c) (viewList v2 c) where
  pop := by
    intro m m' h
    obtain ⟨L, hL⟩ := h.regions
    have hR := hL c hc
    have hpop := hR.pop_eq (viewList_listAt (v := v1) h.layout.placed hc)
    have hpop' := (h.region hc hR).pop_eq
      (viewList_listAt (v := v2) (by rw [h.same.len]; exact h.layout.placed) hc)
    rw [h.popped_eq hc hR] at hpop'
    cases hp : popped m c.off with
    | none =>
      rw [hp] at hpop hpop'
      exact ⟨m, m', _, hpop, hpop', h⟩
    | some p =>
      obtain ⟨o, o'⟩ := p
      have ho : o ∈ slotOffsets c.n c.cap := (popped_eq_some hp).1 ▸ hR.slots _ hR.head
      rw [hp] at hpop hpop'
      simp only [h.headerSlice_eq hc ho] at hpop'
      exact ⟨_, _, _, hpop, hpop', h.layout,
        h.headers.touch (popMem_touch (v := v1) h.layout (h.headers.off c hc) hc ho),
        ⟨L, hL.pop h.layout hc (viewList_listAt h.layout.placed hc) hp⟩,
        popMem_sameOff h.same h.layout hc ho⟩
  capPerBuffer h := Mem.get32_congr (h.sameOn hc (by show _ ∨ _; simp [viewList, createdList]))
  size h := Mem.get32_congr (h.sameOn hc (by show _ ∨ _; simp [viewList, createdList]))

theorem Twin.lists {bm bm' : Manager} (h : IsView cs v1 bm) (h' : IsView cs v2 bm') :
    List.Forall₂ (Twins (Twin cs)) bm.lists bm'.lists := by
  rw [h.lists, h'.lists, List.forall₂_map_left_iff, List.forall₂_map_right_iff, List.forall₂_same]
  exact fun c hc => Twin.twins hc

/-- **Step**: `recycleBuffer` of a slot, in both processes. -/
theorem Twin.recycle {bm bm' : Manager} {s : BufferSlice} (h : Twin cs m m')
    (hv : IsView cs v1 bm) (hv' : IsView cs v2 bm') (hc : c ∈ cs) (hs : SliceOf c o s) :
    ∃ m1 m2, bm.recycleBuffer m s = .ok m1 ∧ bm'.recycleBuffer m' s = .ok m2 ∧ Twin cs m1 m2 := by
  obtain ⟨L, hL⟩ := h.regions
  have hR := hL c hc
  have hlayout' : Layout cs m'.len := by rw [h.same.len]; exact h.layout
  have hall : Regions cs L m' := fun c hc => h.region hc (hL c hc)
  have htail : m'.get32 (c.off + 12) = m.get32 (c.off + 12) :=
    Mem.get32_congr (h.sameOn hc (by omega))
  obtain ⟨b, hz, hrun⟩ := hL.recycleBuffer_eq h.layout hs hc (hv.listsAt h.layout.placed)
  obtain ⟨b', hz', hrun'⟩ := hall.recycleBuffer_eq hlayout' hs hc (hv'.listsAt hlayout'.placed)
  rw [hv.lists] at hz
  rw [hv'.lists] at hz'
  obtain ⟨rfl, -⟩ := mem_zip_map hz
  obtain ⟨rfl, -⟩ := mem_zip_map hz'
  have hpush := hR.push_eq (viewList_listAt (v := v1) h.layout.placed hc) hs.slot hs.header
    hs.offsetInShm
  have hpush' := (h.region hc hR).push_eq (viewList_listAt (v := v2) hlayout'.placed hc) hs.slot
    hs.header hs.offsetInShm
  rw [htail] at hpush'
  have ht := hR.slots _ hR.tail
  exact ⟨_, _, hrun.trans hpush, hrun'.trans hpush', h.layout,
    h.headers.touch (pushMem_touch (v := v1) h.layout (h.headers.off c hc) hc hs.slot ht),
    ⟨_, hL.push h.layout hc (viewList_listAt h.layout.placed hc) hs.slot⟩,
    pushMem_sameOff h.same h.layout hc ht⟩

end Touch

namespace Views

/-! ## The runs -/

inductive ManagerCall
  | allocShmBuffer (size : ℕ)
  | allocShmBuffers (size : ℕ)
  | readBufferSlice (offset : ℕ)
  | recycleBuffer (slice : BufferSlice)

/-- The offset and the capacity of a slice. -/
def spot (s : BufferSlice) : ℕ × ℕ := (s.offsetInShm, s.cap)

inductive ManagerReply
  | slice (r : Except Err (ℕ × ℕ))
  | slices (l : List (ℕ × ℕ)) (allocSize : ℤ)
  | read (r : Except ReadError (ℕ × ℕ))
  | recycled
  deriving DecidableEq

/-- A call through the manager `bm`, with the offsets, capacities and errors it returns. -/
def call (bm : Manager) (m : Mem) : ManagerCall → Go (Mem × ManagerReply)
  | .allocShmBuffer size =>
    (bm.allocShmBuffer m size).map fun r => (r.1, .slice (r.2.map spot))
  | .allocShmBuffers size =>
    (bm.allocShmBuffers m size).map fun r => (r.1, .slices (r.2.1.map spot) r.2.2)
  | .readBufferSlice offset => (readBufferSlice m offset).map fun r => (m, .read (r.map spot))
  | .recycleBuffer slice => (bm.recycleBuffer m slice).map fun m => (m, .recycled)

structure State where
  mem : Mem
  /-- The memory on which one manager makes all calls. -/
  solo : Mem

inductive Act
  | call (v : View) (c : ManagerCall)
  /-- The holder of a slice writes to its slot. -/
  | write (x : ℕ) (b : UInt8)

/-- The creator's manager is `bm` and the mapper's is `bm'`. -/
def managerOf (bm bm' : Manager) : View → Manager
  | .creator => bm
  | .mapper => bm'

/-- The calls on the second memory are all made by `w`. `none` is where one panics. -/
def next (bm bm' : Manager) (w : View) (s : State) : Act → Option State
  | .call v c =>
    match call (managerOf bm bm' v) s.mem c, call (managerOf bm bm' w) s.solo c with
    | .ok (m, _), .ok (m', _) => some ⟨m, m'⟩
    | _, _ => none
  | .write x b => some ⟨s.mem.set8 x b, s.solo.set8 x b⟩

/-- The runs from the created memory `m`. -/
def runs (bm bm' : Manager) (w : View) (m : Mem) : Sys State Act where
  init s := s = ⟨m, m⟩
  next := next bm bm' w

/-- `o` is the offset of a slot in the region of `l`. -/
def IsSlotOf (l : BufferList) (m : Mem) (o : ℕ) : Prop :=
  ∃ i < m.get32 l.cap, o = i * (m.get32 l.capPerBuffer + bufferHeaderSize)

/-- The slot at `o` can be reached from the head or the tail of the list. -/
inductive Linked (l : BufferList) (m : Mem) : ℕ → Prop
  | head : Linked l m (m.get32 l.head)
  | tail : Linked l m (m.get32 l.tail)
  | next {o o' : ℕ} : Linked l m o → nextAt m l.regionStart o = some o' → Linked l m o'

/-- What is recycled is a slot, free or not. What is written is the bytes of a slot behind
    its capacity, and not the header of a slot in the free list. -/
def Legal (bm : Manager) (m : Mem) (s : State) : Act → Prop
  | .call _ (.recycleBuffer x) => x.isFromShm = true → ∃ l ∈ bm.lists, ∃ o, IsSlotOf l m o ∧
      x.header = some (l.regionStart + o) ∧ x.offsetInShm = l.regionStart + o ∧
      x.cap = m.get32 l.capPerBuffer
  | .call _ _ => True
  | .write x _ => ∃ l ∈ bm.lists, ∃ o, IsSlotOf l m o ∧
      l.regionStart + o + bufferSizeOffset ≤ x ∧
      x < l.regionStart + o + bufferHeaderSize + m.get32 l.capPerBuffer ∧
      (l.regionStart + o + bufferHeaderSize ≤ x ∨ ¬ Linked l s.mem o)

/-- `readBufferSlice` takes its capacity from the counter of one of the processes. -/
def ReadsCounter (bm : Manager) : ManagerCall → Prop
  | .readBufferSlice offset => ∃ l ∈ bm.lists, l.counter < offset + 4 ∧ offset < l.counter + 8
  | _ => False

/-- The managers are interchangeable in state `s`. -/
structure Alike (bm bm' : Manager) (w : View) (m : Mem) (s : State) : Prop where
  mapping : mappingBufferManager s.mem 0 = .ok (.ok bm')
  reply : ∀ v c, Legal bm m s (.call v c) → ¬ ReadsCounter bm c →
    (call (managerOf bm bm' v) s.mem c).map Prod.snd =
      (call (managerOf bm bm' w) s.solo c).map Prod.snd
  returns : ∀ v c, Legal bm m s (.call v c) → (∀ offset, c ≠ .readBufferSlice offset) →
    ∃ r, call (managerOf bm bm' v) s.mem c = .ok r
  freeSlots : ∀ l ∈ bm.lists, l.freeSlots s.mem = l.freeSlots s.solo
  bytes : ∀ x, (∀ l ∈ bm.lists, x < l.counter ∨ l.counter + 8 ≤ x) →
    s.mem.byte x = s.solo.byte x

/-! ## The invariant -/

section

variable {cs : List SizeClass} {bm bm' bm1 bm2 : Manager} {m m0 m1 m2 : Mem} {c : SizeClass}
  {v w : View} {o x : ℕ} {s t : State}

theorem agree_map {α β : Type} {R : Mem → Mem → Prop} {f : α → β} {y z : Go (Mem × α)}
    (h : Agree R y z) :
    Agree R (y.map fun r => (r.1, f r.2)) (z.map fun r => (r.1, f r.2)) := by
  obtain ⟨m, m', a, rfl, rfl, hR⟩ := h
  exact ⟨m, m', f a, rfl, rfl, hR⟩

/-- **Step**: a call on both memories. -/
theorem call_agree (h : Twin cs m1 m2) (hv : IsView cs v bm1) (hw : IsView cs w bm2) (k : ManagerCall)
    (hread : ∀ offset, k ≠ .readBufferSlice offset)
    (hrec : ∀ y, k = .recycleBuffer y → y.isFromShm = true → ∃ c ∈ cs, ∃ o, SliceOf c o y) :
    Agree (Twin cs) (call bm1 m1 k) (call bm2 m2 k) := by
  have hmax : bm2.maxSliceSize = bm1.maxSliceSize :=
    Option.some.inj (hw.maxSliceSize.symm.trans hv.maxSliceSize)
  cases k with
  | allocShmBuffer size =>
    exact agree_map (f := fun r => ManagerReply.slice (r.map spot))
      (allocShmBuffer_agree (Twin.lists hv hw) hmax h)
  | allocShmBuffers size =>
    exact agree_map (f := fun r : List BufferSlice × ℤ => ManagerReply.slices (r.1.map spot) r.2)
      (allocShmBuffers_agree (Twin.lists hv hw) h)
  | readBufferSlice offset => exact absurd rfl (hread offset)
  | recycleBuffer y =>
    cases hy : y.isFromShm with
    | false =>
      refine ⟨m1, m2, .recycled, ?_, ?_, h⟩ <;> simp [call, Manager.recycleBuffer, hy, Except.map]
    | true =>
      obtain ⟨c, hc, o, hs⟩ := hrec y rfl hy
      obtain ⟨m1', m2', h1, h2, h'⟩ := h.recycle hv hw hc hs
      exact ⟨m1', m2', .recycled, by simp [call, h1, Except.map], by simp [call, h2, Except.map], h'⟩

/-- `readBufferSlice` returns by the word at the offset. -/
theorem readBufferSlice_spot (hlen : m2.len = m1.len) (hword : m2.get32 x = m1.get32 x) :
    (readBufferSlice m2 x).map (Except.map spot) = (readBufferSlice m1 x).map (Except.map spot) := by
  have hslice : ∀ d, spot (newShmSlice m2 x d x) = spot (newShmSlice m1 x d x) :=
    fun d => congrArg (Prod.mk x) hword
  unfold readBufferSlice checkBounds
  rw [hlen, hword]
  simp only [bind, Except.bind, pure, Except.pure]
  split_ifs <;> simp [Except.map, hslice]

theorem isSlotOf_iff (hc : Created cs bm m) (hmem : c ∈ cs) :
    IsSlotOf (viewList .creator c) m o ↔ o ∈ slotOffsets c.n c.cap := by
  have h1 : m.get32 (viewList .creator c).cap = c.n := hc.capWord c hmem
  have h2 : m.get32 (viewList .creator c).capPerBuffer = c.cap := (hc.free c hmem).capWord
  unfold IsSlotOf bufferHeaderSize
  rw [h1, h2, mem_slotOffsets]

theorem list_cases (hc : Created cs bm m) {l : BufferList} (hl : l ∈ bm.lists) :
    ∃ c ∈ cs, l = viewList .creator c := by
  rw [hc.isView.lists] at hl
  obtain ⟨c, hmem, rfl⟩ := List.mem_map.mp hl
  exact ⟨c, hmem, rfl⟩

/-- The links lead to the slots that they lead to. -/
theorem linked_region {K : Set ℕ} (h : Region c K m) :
    Region c {o | Linked (viewList .creator c) m o} m where
  len := h.len
  capWord := h.capWord
  caps := h.caps
  slots o ho := by
    refine h.slots o ?_
    induction ho with
    | head => exact h.head
    | tail => exact h.tail
    | next _ hn ih => exact h.next _ ih _ hn
  head := .head
  tail := .tail
  next _ ho _ hn := .next ho hn

/-- **Step**: a write to both memories. -/
theorem twin_write (hc : Created cs bm m) (h : Twin cs s.mem s.solo) {b : UInt8}
    (hlegal : Legal bm m s (.write x b)) : Twin cs (s.mem.set8 x b) (s.solo.set8 x b) := by
  obtain ⟨l, hl, o, hslot, hlo, hhi, hfree⟩ := hlegal
  obtain ⟨c, hmem, rfl⟩ := list_cases hc hl
  have hcap : m.get32 (viewList .creator c).capPerBuffer = c.cap := (hc.free c hmem).capWord
  have ho := (isSlotOf_iff hc hmem).mp hslot
  have hsl := slot_le ho
  rw [hcap] at hhi
  replace hlo : c.off + 36 + o + 4 ≤ x := hlo
  replace hhi : x < c.off + 36 + o + 20 + c.cap := hhi
  have hfin : c.finish = c.off + 36 + c.n * (c.cap + 20) := rfl
  have hout : ∀ {lo hi}, hi ≤ c.off + 36 + o + 4 ∨ c.off + 36 + o + 20 + c.cap ≤ lo →
      s.mem.SameOn (s.mem.set8 x b) lo hi := fun hr => Mem.set8_sameOn (by omega)
  have htouch : Touch cs .creator (fun _ => 0) s.mem (s.mem.set8 x b) :=
    slotWrite_touch h.layout (h.headers.off c hmem) hmem (by omega) (by omega)
  obtain ⟨L, hL⟩ := h.regions
  refine ⟨h.layout, h.headers.touch htouch, ?_, h.same.set8 x b⟩
  -- a header that is written is not linked, so the links that are left lead past it
  have hR := linked_region (hL c hmem)
  refine ⟨_, hL.of_class h.layout hmem Mem.len_set8 (hR.congr Mem.len_set8 (hout (by omega))
    (fun y hy => ?_) fun y hy => ?_) fun lo hi hr => hout (by omega)⟩
  · rcases eq_or_ne y o with rfl | hyo
    · have hx : c.off + 36 + y + 20 ≤ x := hfree.resolve_right fun hno => hno hy
      exact Mem.set8_sameOn (by omega)
    · have := slot_disjoint (hR.slots y hy) ho hyo
      exact hout (by omega)
  · rcases eq_or_ne y o with rfl | hyo
    · exact hout (by omega)
    · have := slot_disjoint hy ho hyo
      exact hout (by omega)

theorem isView_managerOf (h : IsView cs .creator bm) (h' : IsView cs .mapper bm') (v : View) :
    IsView cs v (managerOf bm bm' v) := by
  cases v with
  | creator => exact h
  | mapper => exact h'

theorem sliceOf_of_legal (hc : Created cs bm m) {y : BufferSlice}
    (h : Legal bm m s (.call v (.recycleBuffer y))) (hy : y.isFromShm = true) :
    ∃ c ∈ cs, ∃ o, SliceOf c o y := by
  obtain ⟨l, hl, o, hslot, h1, h2, h3⟩ := h hy
  obtain ⟨c, hmem, rfl⟩ := list_cases hc hl
  have hcap : m.get32 (viewList .creator c).capPerBuffer = c.cap := (hc.free c hmem).capWord
  exact ⟨c, hmem, o, (isSlotOf_iff hc hmem).mp hslot, h1, h2, h3.trans hcap, hy⟩

theorem call_agree_of_legal (hc : Created cs bm m) (hm : IsView cs .mapper bm')
    (h : Twin cs s.mem s.solo) (w : View) {k : ManagerCall} (hk : Legal bm m s (.call v k))
    (hread : ∀ offset, k ≠ .readBufferSlice offset) :
    Agree (Twin cs) (call (managerOf bm bm' v) s.mem k) (call (managerOf bm bm' w) s.solo k) := by
  refine call_agree h (isView_managerOf hc.isView hm v) (isView_managerOf hc.isView hm w) k hread ?_
  rintro y rfl hy
  exact sliceOf_of_legal hc hk hy

/-- **Step**: every step keeps the memories alike. -/
theorem twin_step (hc : Created cs bm m) (hm : IsView cs .mapper bm') (h : Twin cs s.mem s.solo)
    {a : Act} (ha : Legal bm m s a) (hn : next bm bm' w s a = some t) : Twin cs t.mem t.solo := by
  cases a with
  | write x b =>
    cases hn
    exact twin_write hc h ha
  | call v k =>
    by_cases hread : ∃ offset, k = .readBufferSlice offset
    · obtain ⟨offset, rfl⟩ := hread
      simp only [next, call] at hn
      cases h1 : readBufferSlice s.mem offset with
      | error e => rw [h1] at hn; cases hn
      | ok r1 =>
        cases h2 : readBufferSlice s.solo offset with
        | error e => rw [h1, h2] at hn; cases hn
        | ok r2 =>
          rw [h1, h2] at hn
          cases hn
          exact h
    · obtain ⟨m1, m2, r, h1, h2, h'⟩ :=
        call_agree_of_legal hc hm h w ha fun offset he => hread ⟨offset, he⟩
      simp only [next, h1, h2] at hn
      cases hn
      exact h'

/-- **Run**: in all states reached, the managers are interchangeable. -/
theorem alike_of_twin (hc : Created cs bm m) (hm : IsView cs .mapper bm')
    (h : Twin cs s.mem s.solo) : Alike bm bm' w m s where
  mapping := by
    obtain ⟨bm1, hmap, hview⟩ := mappingBufferManager_isView h.headers h.layout.placed hc.nonempty
    rw [hmap, hm.eq hview]
  reply v k hk hcount := by
    by_cases hread : ∃ offset, k = .readBufferSlice offset
    · obtain ⟨offset, rfl⟩ := hread
      have hword : s.solo.get32 offset = s.mem.get32 offset := by
        refine Mem.get32_congr (h.same.sameOn fun x h1 h2 => ?_)
        rintro ⟨c, hmem, h3, h4⟩
        refine hcount ⟨viewList .creator c, hc.isView.lists ▸ List.mem_map.mpr ⟨c, hmem, rfl⟩, ?_⟩
        show c.off + 20 < offset + 4 ∧ offset < c.off + 20 + 8
        omega
      have hspot := readBufferSlice_spot h.same.len hword
      unfold call
      cases h1 : readBufferSlice s.mem offset with
      | error e => rw [h1] at hspot; cases h2 : readBufferSlice s.solo offset <;> simp_all [Except.map]
      | ok r => rw [h1] at hspot; cases h2 : readBufferSlice s.solo offset <;> simp_all [Except.map]
    · obtain ⟨m1, m2, r, h1, h2, -⟩ :=
        call_agree_of_legal hc hm h w hk fun offset he => hread ⟨offset, he⟩
      rw [h1, h2]
      rfl
  returns v k hk hread := by
    obtain ⟨m1, m2, r, h1, -, -⟩ := call_agree_of_legal hc hm h w hk hread
    exact ⟨_, h1⟩
  freeSlots l hl := by
    obtain ⟨c, hmem, rfl⟩ := list_cases hc hl
    obtain ⟨L, hL⟩ := h.regions
    have hR := hL c hmem
    have hhead : s.solo.get32 (c.off + 8) = s.mem.get32 (c.off + 8) :=
      Mem.get32_congr (h.sameOn hmem (by omega))
    unfold BufferList.freeSlots
    show (follow (nextAt s.mem (c.off + 36)) s.mem.len (s.mem.get32 (c.off + 8))).map _ =
      (follow (nextAt s.solo (c.off + 36)) s.solo.len (s.solo.get32 (c.off + 8))).map _
    rw [hhead, h.same.len, follow_congr hR.next
      (fun o ho => nextAt_congr (h.slot_sameOn hmem (hR.slots o ho))) hR.head]
  bytes x hx := by
    refine (h.same.byte x ?_).symm
    rintro ⟨c, hmem, h1, h2⟩
    have := hx (viewList .creator c) (hc.isView.lists ▸ List.mem_map.mpr ⟨c, hmem, rfl⟩)
    change x < c.off + 20 ∨ c.off + 20 + 8 ≤ x at this
    omega

end

/-- **Main theorem.** For sizes that leave room for the slot header in 32 bits: a created
    memory can be mapped at any time, to the same lists but for the place of the counter;
    and in every run the two managers are interchangeable, but for `readBufferSlice` of a
    counter. -/
theorem managers_agree {pairs : List SizePercentPair} {m m0 : Mem} {bm : Manager}
    (hsizes : ∀ p ∈ pairs, p.size + bufferHeaderSize < 2 ^ 32)
    (hasc : pairs.Pairwise fun p p' => p.size < p'.size)
    (hsum : (pairs.map (·.percent)).sum ≤ 100) (hlen : m.len < 2 ^ 32)
    (hcreate : createBufferManager pairs m 0 = .ok (.ok (m0, bm))) :
    ∃ bm', mappingBufferManager m0 0 = .ok (.ok bm') ∧
      bm'.lists = bm.lists.map (fun l => { l with counter := l.counter + 4 }) ∧
      bm'.minSliceSize = bm.minSliceSize ∧ bm'.maxSliceSize = bm.maxSliceSize ∧
      ∀ w s, (runs bm bm' w m0).ReachableWhen (Legal bm m0) s → Alike bm bm' w m0 s := by
  obtain ⟨hc, -⟩ := createBufferManager_created hsizes hasc hsum hlen hcreate
  obtain ⟨bm', hmap, hm⟩ := mappingBufferManager_isView hc.headers hc.layout.placed hc.nonempty
  refine ⟨bm', hmap, ?_, Option.some.inj (hm.minSliceSize.symm.trans hc.minSliceSize),
    Option.some.inj (hm.maxSliceSize.symm.trans hc.maxSliceSize), fun w s hs => ?_⟩
  · rw [hm.lists, hc.isView.lists, List.map_map]
    rfl
  · have htwin : Twin (classesOf pairs m.len) s.mem s.solo := by
      refine hs.invariant (fun s => Twin (classesOf pairs m.len) s.mem s.solo) ?_
        fun s a t h ha hn => twin_step hc hm h ha hn
      rintro s rfl
      exact ⟨hc.layout, hc.headers, ⟨_, fun c hmem => (hc.free c hmem).region⟩, .refl _ _⟩
    exact alike_of_twin hc hm htwin

/-- The two managers of a memory of zeros. -/
def zeroViews (pairs : List SizePercentPair) (len : ℕ) : Option (Mem × Manager × Manager) :=
  (zeroManager pairs len).bind fun p =>
    match mappingBufferManager p.1 0 with
    | .ok (.ok bm') => some (p.1, p.2, bm')
    | _ => none

theorem exists_zeroViews (pairs : List SizePercentPair) (len : ℕ) (q : Mem → Manager → Manager → Prop)
    (h : ∃ p ∈ zeroViews pairs len, q p.1 p.2.1 p.2.2) : ∃ m bm bm',
      createBufferManager pairs (zeroMem len) 0 = .ok (.ok (m, bm)) ∧
        mappingBufferManager m 0 = .ok (.ok bm') ∧ q m bm bm' := by
  obtain ⟨p, hp, hq⟩ := h
  obtain ⟨r, hr, hp⟩ := Option.bind_eq_some_iff.mp hp
  split at hp
  · cases hp
    exact ⟨_, _, _, create_of_zeroManager hr, by assumption, hq⟩
  · cases hp

/-- A slice allocated by each process; the mapper recycles that of the creator, twice. -/
def bothSides : List Act := [.call .creator (.allocShmBuffer 3), .call .mapper (.allocShmBuffer 4),
  .call .mapper (.recycleBuffer (slotSlice 44 4)), .call .mapper (.recycleBuffer (slotSlice 44 4))]

theorem managers_agree_both_sides : ∃ m bm bm' s,
    createBufferManager [⟨4, 100⟩] (zeroMem 140) 0 = .ok (.ok (m, bm)) ∧
      mappingBufferManager m 0 = .ok (.ok bm') ∧
      (runs bm bm' .creator m).ReachableWhen (Legal bm m) s ∧
      s.mem.get32 28 ≠ s.solo.get32 28 ∧ Alike bm bm' .creator m s := by
  obtain ⟨m, bm, bm', hc, hmap, hlists, hn, hcap, hrun⟩ := exists_zeroViews [⟨4, 100⟩] 140
    (fun m bm bm' => bm.lists = [createdList 8 4 4] ∧ m.get32 12 = 4 ∧ m.get32 24 = 4 ∧
      ∃ s ∈ (runs bm bm' .creator m).run ⟨m, m⟩ bothSides, s.mem.get32 28 ≠ s.solo.get32 28)
    (by decide +kernel)
  have hslot : Legal bm m ⟨m, m⟩ (.call .mapper (.recycleBuffer (slotSlice 44 4))) :=
    fun _ => ⟨createdList 8 4 4, by rw [hlists]; simp, 0,
      ⟨0, by rw [createdList, hn]; decide, by simp⟩, rfl, rfl, hcap.symm⟩
  obtain ⟨s, hs, hout⟩ := (runs bm bm' .creator m).exists_reachableWhen_of_run
    (Legal bm m) ⟨m, m⟩ bothSides _ rfl
    ⟨trivial, fun _ _ => ⟨trivial, fun _ _ => ⟨hslot, fun _ _ => ⟨hslot, fun _ _ => trivial⟩⟩⟩⟩ hrun
  obtain ⟨bm'', hmap', -, -, -, halike⟩ := managers_agree (by decide) (by simp) (by decide)
    (by decide) hc
  cases hmap.symm.trans hmap'
  exact ⟨m, bm, bm', s, hc, hmap, hs, hout, halike _ s hs⟩

/-- After one allocation by the mapper, `readBufferSlice` of the creator's counter finds a
    capacity of 0; had the creator allocated, it would be 1. -/
theorem counter_read_differs : ∃ m bm bm' s,
    createBufferManager [⟨4, 100⟩] (zeroMem 140) 0 = .ok (.ok (m, bm)) ∧
      mappingBufferManager m 0 = .ok (.ok bm') ∧
      (runs bm bm' .creator m).ReachableWhen (Legal bm m) s ∧
      (call bm s.mem (.readBufferSlice 28)).map Prod.snd = .ok (.read (.ok (28, 0))) ∧
      (call bm s.solo (.readBufferSlice 28)).map Prod.snd = .ok (.read (.ok (28, 1))) := by
  obtain ⟨m, bm, bm', hc, hmap, hrun⟩ := exists_zeroViews [⟨4, 100⟩] 140 (fun m bm bm' =>
      ∃ s ∈ (runs bm bm' .creator m).run ⟨m, m⟩ [Act.call .mapper (.allocShmBuffer 4)],
      (call bm s.mem (.readBufferSlice 28)).map Prod.snd = .ok (.read (.ok (28, 0))) ∧
        (call bm s.solo (.readBufferSlice 28)).map Prod.snd = .ok (.read (.ok (28, 1))))
    (by decide +kernel)
  obtain ⟨s, hs, hout⟩ := (runs bm bm' .creator m).exists_reachableWhen_of_run
    (Legal bm m) ⟨m, m⟩ [.call .mapper (.allocShmBuffer 4)] _ rfl ⟨trivial, fun _ _ => trivial⟩ hrun
  exact ⟨m, bm, bm', s, hc, hmap, hs, hout⟩

end Views

end Shmipc.Buffer
