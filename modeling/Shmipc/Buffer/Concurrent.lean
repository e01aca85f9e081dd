import Shmipc.Buffer.FreeList

/-!
# The free list under interleaving

`pop` and `push` cut into their atomic accesses and header accesses
(buffer_manager.go:417-462), for any number of threads of both processes.

The free slots form a queue `Q`: the tail CAS of `push` puts a slot at its end, the
head CAS of `pop` takes the first. Between its tail CAS and the write of the has-next
flag a `push` still owes the link to the slot it put in.

Results:
* `owned_nodup_head_free`: in every run in which a successful head CAS finds the link
  of the old head as `pop` read it, no slot is owned twice and the head is not owned.
* `aba_breaks_head`: without that condition, the head goes away and comes back while
  one `pop` waits, its CAS succeeds with the old link, and a slot is owned twice.
-/

namespace Shmipc.Buffer.Concurrent

open Common

/-! ## The code -/

/-- Where a thread stands; each constructor is the access it does next. -/
inductive Pc
  | idle
  /-- `atomic.AddInt32(b.size, -1)`. -/
  | popSize (oldHead : ℕ)
  /-- `bh.hasNext()`, with `k` tries left after this one. -/
  | popHasNext (k oldHead : ℕ)
  /-- `bh.nextBufferOffset()`. -/
  | popNext (k oldHead : ℕ)
  | popCas (k oldHead next : ℕ)
  | popClear (oldHead : ℕ)
  /-- `h.setInUsed()` reads the flag and writes it. -/
  | popFlag (oldHead : ℕ)
  | popInUse (oldHead : ℕ) (flag : UInt8)
  | popCounter (oldHead : ℕ)
  /-- `*b.capPerBuffer`, then the three reads of `newBufferSlice`. -/
  | popCapPerBuffer (oldHead : ℕ)
  | popCap (oldHead : ℕ) (data : Data)
  | popStart (oldHead : ℕ) (data : Data) (cap : ℕ)
  | popDataSize (oldHead : ℕ) (data : Data) (cap start : ℕ)
  /-- `*b.size <= 1`. -/
  | popLast (k : ℕ)
  | popReload (k : ℕ)
  /-- `atomic.AddInt32(b.size, 1)` of a `pop` that fails. -/
  | popRestore
  /-- `buffer.reset()`: the three writes to the header. -/
  | pushDataSize (buffer : BufferSlice)
  | pushStart (buffer : BufferSlice)
  | pushClear (buffer : BufferSlice)
  | pushTail (buffer : BufferSlice)
  | pushCas (buffer : BufferSlice) (oldTail : ℕ)
  /-- `linkNext`: the write of the offset, the read and the write of the flag. -/
  | pushNext (oldTail newTail : ℕ)
  | pushFlag (oldTail newTail : ℕ)
  | pushHasNext (oldTail newTail : ℕ) (flag : UInt8)
  | pushSize
  | pushCounter
  deriving DecidableEq, Repr

/-- A thread with its process's view of the list. -/
structure Thread where
  list : BufferList
  pc : Pc

/-- A slice that a `pop` returned and no `push` has been given since. -/
structure Held where
  owner : ℕ
  slice : BufferSlice

structure State where
  mem : Mem
  threads : List Thread
  held : List Held

/-- What one access of a thread does: the memory, where the thread stands then, and
    the slice its `pop` returns. `none` is also where the code panics. -/
def access (b : BufferList) (m : Mem) : Pc → Option (Mem × Pc × Option BufferSlice)
  | .idle => some (m, .popSize (m.get32 b.head), none)
  | .popSize oldHead =>
    let (m, remain) := m.addInt32 b.size (-1)
    some (m, if remain ≤ 0 then .popRestore else .popHasNext (popRetries - 1) oldHead, none)
  | .popHasNext k oldHead =>
    match checkBounds m b.regionStart oldHead (u32 (oldHead + bufferHeaderSize)) with
    | .error _ => none
    | .ok () =>
      some (m, if hasNext m (b.regionStart + oldHead) then .popNext k oldHead else .popLast k, none)
  | .popNext k oldHead => some (m, .popCas k oldHead (nextOffset m (b.regionStart + oldHead)), none)
  | .popCas k oldHead next =>
    if m.get32 b.head = oldHead then some (m.set32 b.head next, .popClear oldHead, none)
    else some (m, .popReload k, none)
  | .popClear oldHead => some (clearFlag m (b.regionStart + oldHead), .popFlag oldHead, none)
  | .popFlag oldHead =>
    some (m, .popInUse oldHead (m.byte (b.regionStart + oldHead + bufferFlagOffset)), none)
  | .popInUse oldHead flag =>
    some (m.set8 (b.regionStart + oldHead + bufferFlagOffset) (flag ||| sliceInUsedFlag),
      .popCounter oldHead, none)
  | .popCounter oldHead => some ((m.addInt32 b.counter 1).1, .popCapPerBuffer oldHead, none)
  | .popCapPerBuffer oldHead =>
    let lo := u32 (oldHead + bufferHeaderSize)
    let hi := u32 (oldHead + bufferHeaderSize + m.get32 b.capPerBuffer)
    match checkBounds m b.regionStart lo hi with
    | .error _ => none
    | .ok () => some (m, .popCap oldHead (.shm (b.regionStart + lo) (hi - lo)), none)
  | .popCap oldHead data =>
    some (m, .popStart oldHead data (m.get32 (b.regionStart + oldHead)), none)
  | .popStart oldHead data cap =>
    some (m, .popDataSize oldHead data cap
      (m.get32 (b.regionStart + oldHead + bufferDataStartOffset)), none)
  | .popDataSize oldHead data cap start =>
    some (m, .idle, some
      { header := some (b.regionStart + oldHead)
        data := data
        cap := cap
        start := start
        offsetInShm := u32 (oldHead + b.bufferRegionOffsetInShm)
        readIndex := start
        writeIndex := u32 (start + m.get32 (b.regionStart + oldHead + bufferSizeOffset))
        isFromShm := true })
  | .popLast k => some (m, if toInt32 (m.get32 b.size) ≤ 1 then .popRestore else .popReload k, none)
  | .popReload 0 => some (m, .popRestore, none)
  | .popReload (k + 1) => some (m, .popHasNext k (m.get32 b.head), none)
  | .popRestore => some ((m.addInt32 b.size 1).1, .idle, none)
  | .pushDataSize buffer =>
    some (buffer.header.elim m fun h => m.set32 (h + bufferSizeOffset) 0, .pushStart buffer, none)
  | .pushStart buffer =>
    some (buffer.header.elim m fun h => m.set32 (h + bufferDataStartOffset) 0, .pushClear buffer,
      none)
  | .pushClear buffer => some (buffer.header.elim m (clearFlag m), .pushTail buffer, none)
  | .pushTail buffer => some (m, .pushCas buffer (m.get32 b.tail), none)
  | .pushCas buffer oldTail =>
    let newTail := u32 (buffer.offsetInShm + (2 ^ 32 - b.bufferRegionOffsetInShm))
    if m.get32 b.tail = oldTail then
      match checkBounds m b.regionStart oldTail (u32 (oldTail + bufferHeaderSize)) with
      | .error _ => none
      | .ok () => some (m.set32 b.tail newTail, .pushNext oldTail newTail, none)
    else some (m, .pushTail buffer, none)
  | .pushNext oldTail newTail =>
    some (m.set32 (b.regionStart + oldTail + nextBufferOffset) newTail, .pushFlag oldTail newTail,
      none)
  | .pushFlag oldTail newTail =>
    some (m, .pushHasNext oldTail newTail (m.byte (b.regionStart + oldTail + bufferFlagOffset)),
      none)
  | .pushHasNext oldTail _ flag =>
    some (m.set8 (b.regionStart + oldTail + bufferFlagOffset) (flag ||| hasNextBufferFlag),
      .pushSize, none)
  | .pushSize => some ((m.addInt32 b.size 1).1, .pushCounter, none)
  | .pushCounter => some ((m.addInt32 b.counter (-1)).1, .idle, none)

inductive Act
  /-- Thread `i` does its next access; an idle one starts a `pop`. -/
  | step (i : ℕ)
  /-- Thread `i` calls `push` with the `k`-th slice that is held, its own. -/
  | push (i k : ℕ)
  /-- The owner of the `k`-th slice writes byte `p` of the slot, behind the capacity. -/
  | write (k p : ℕ) (v : UInt8)
  deriving DecidableEq, Repr

def next (s : State) : Act → Option State
  | .step i =>
    match s.threads[i]? with
    | none => none
    | some t =>
      match access t.list s.mem t.pc with
      | none => none
      | some (m, pc, r) =>
        some
          { mem := m
            threads := s.threads.set i ⟨t.list, pc⟩
            held := match r with
              | none => s.held
              | some slice => ⟨i, slice⟩ :: s.held }
  | .push i k =>
    match s.threads[i]?, s.held[k]? with
    | some t, some x =>
      if t.pc = .idle ∧ x.owner = i then
        some { s with
          threads := s.threads.set i ⟨t.list, .pushDataSize x.slice⟩
          held := s.held.eraseIdx k }
      else none
    | _, _ => none
  | .write k p v =>
    match s.held[k]? with
    | none => none
    | some x =>
      if 4 ≤ p ∧ p < bufferHeaderSize + x.slice.cap then
        some { s with mem := s.mem.set8 (x.slice.offsetInShm + p) v }
      else none

/-- Any number of threads on the list `b` in memory `m`. The process that mapped the
    list has its counter one word further. -/
def machine (b : BufferList) (m : Mem) : Sys State Act where
  init s := s.mem = m ∧ s.held = [] ∧ ∀ t ∈ s.threads, t.pc = .idle ∧
    (t.list = b ∨ t.list = { b with counter := b.counter + 4 })
  next := next

/-- The slot a thread owns inside `pop` or `push`: from the head CAS on, and until
    the tail CAS. -/
def Thread.owned (t : Thread) : Option ℕ :=
  match t.pc with
  | .popClear o | .popFlag o | .popInUse o _ | .popCounter o | .popCapPerBuffer o | .popCap o _
  | .popStart o _ _ | .popDataSize o _ _ _ => some (u32 (o + t.list.bufferRegionOffsetInShm))
  | .pushDataSize s | .pushStart s | .pushClear s | .pushTail s | .pushCas s _ =>
    some s.offsetInShm
  | _ => none

/-- All owned slots, by their offsets in the shared memory. -/
def State.owned (s : State) : List ℕ :=
  s.held.map (·.slice.offsetInShm) ++ s.threads.filterMap Thread.owned

/-- The old head and the next offset a `pop` is about to swap. -/
def Thread.cas (t : Thread) : Option (ℕ × ℕ) :=
  match t.pc with
  | .popCas _ oldHead next => some (oldHead, next)
  | _ => none

/-- A head CAS that finds the old head finds its link as `pop` read it. -/
def CasOk (s : State) : Act → Prop
  | .step i => ∀ t ∈ s.threads[i]?, ∀ c ∈ t.cas, s.mem.get32 t.list.head = c.1 →
    hasNext s.mem (t.list.regionStart + c.1) = true ∧
      nextOffset s.mem (t.list.regionStart + c.1) = c.2
  | _ => True

instance (s : State) : ∀ a, Decidable (CasOk s a)
  | .step i => inferInstanceAs (Decidable (∀ t ∈ s.threads[i]?, ∀ c ∈ t.cas, _ → _))
  | .push _ _ => isTrue trivial
  | .write _ _ _ => isTrue trivial

/-! ## The invariant -/

/-- The old tail whose link a `push` still owes. -/
def Thread.linking (t : Thread) : Option ℕ :=
  match t.pc with
  | .pushNext o _ | .pushFlag o _ | .pushHasNext o _ _ => some o
  | _ => none

/-- What a thread knows at its position; `Q` is the queue of free slots and `nx` what
    their links are when no `push` owes one. -/
def PcOk (off n cap : ℕ) (m : Mem) (Q : List ℕ) (nx : ℕ → Option ℕ) : Pc → Prop
  | .popClear o | .popFlag o | .popInUse o _ | .popCounter o | .popCapPerBuffer o | .popCap o _ =>
    o ∈ slotOffsets n cap
  | .popStart o _ c | .popDataSize o _ c _ => o ∈ slotOffsets n cap ∧ c = cap
  | .pushDataSize s | .pushStart s | .pushClear s => s.header = some s.offsetInShm
  | .pushTail s | .pushCas s _ => s.header = some s.offsetInShm ∧ hasNext m s.offsetInShm = false
  | .pushNext t o => t ∈ Q ∧ nx t = some o ∧ hasNext m (off + 36 + t) = false
  | .pushFlag t o | .pushHasNext t o _ => t ∈ Q ∧ nx t = some o ∧
    hasNext m (off + 36 + t) = false ∧ nextOffset m (off + 36 + t) = o
  | _ => True

structure Inv (off n cap : ℕ) (m : Mem) (threads : List Thread) (held : List Held) (Q : List ℕ)
    (nx : ℕ → Option ℕ) : Prop where
  lists : ∀ t ∈ threads, ListAt t.list off n cap
  caps : ∀ o ∈ slotOffsets n cap, m.get32 (off + 36 + o) = cap
  head : Q.head? = some (m.get32 (off + 8))
  tail : Q.getLast? = some (m.get32 (off + 12))
  chain : Chain nx Q
  link : ∀ o ∈ Q, nextAt m (off + 36) o = nx o ∨ o ∈ threads.filterMap Thread.linking
  pcs : ∀ t ∈ threads, PcOk off n cap m Q nx t.pc
  linking : (threads.filterMap Thread.linking).Nodup
  slices : ∀ x ∈ held, x.slice.header = some x.slice.offsetInShm ∧ x.slice.cap = cap
  all : (Q.map (off + 36 + ·) ++ (held.map (·.slice.offsetInShm) ++
    threads.filterMap Thread.owned)).Perm ((slotOffsets n cap).map (off + 36 + ·))

section

variable {off n cap : ℕ} {m m' : Mem} {t t' : Thread} {threads rest : List Thread}
  {held held' : List Held} {Q : List ℕ} {nx : ℕ → Option ℕ} {x : Held}

theorem Inv.perm (h : Inv off n cap m threads held Q nx) (ht : rest.Perm threads)
    (hh : held'.Perm held) : Inv off n cap m rest held' Q nx where
  lists u hu := h.lists u (ht.mem_iff.mp hu)
  caps := h.caps
  head := h.head
  tail := h.tail
  chain := h.chain
  link o ho := (h.link o ho).imp_right (ht.filterMap _).mem_iff.mpr
  pcs u hu := h.pcs u (ht.mem_iff.mp hu)
  linking := (ht.filterMap _).nodup_iff.mpr h.linking
  slices y hy := h.slices y (hh.mem_iff.mp hy)
  all := (((hh.map _).append (ht.filterMap _)).append_left _).trans h.all

theorem Inv.nodup (h : Inv off n cap m threads held Q nx) :
    (Q.map (off + 36 + ·) ++ (held.map (·.slice.offsetInShm) ++
      threads.filterMap Thread.owned)).Nodup :=
  h.all.nodup_iff.mpr (slotOffsets_nodup.map fun _ _ he => Nat.add_left_cancel he)

theorem Inv.slots (h : Inv off n cap m threads held Q nx) {o : ℕ} (ho : o ∈ Q) :
    o ∈ slotOffsets n cap := by
  have hmem := h.all.mem_iff.mp (List.mem_append_left _ (List.mem_map_of_mem ho))
  obtain ⟨o', ho', he⟩ := List.mem_map.mp hmem
  rw [← Nat.add_left_cancel he]
  exact ho'

/-- An owned slot is not free. -/
theorem Inv.owned_slot (h : Inv off n cap m threads held Q nx) {a : ℕ}
    (ha : a ∈ held.map (·.slice.offsetInShm) ++ threads.filterMap Thread.owned) :
    ∃ o ∈ slotOffsets n cap, a = off + 36 + o ∧ o ∉ Q := by
  obtain ⟨o, ho, he⟩ := List.mem_map.mp (h.all.mem_iff.mp (List.mem_append_right _ ha))
  refine ⟨o, ho, he.symm, fun hQ => ?_⟩
  exact (List.nodup_append.mp h.nodup).2.2 _ (List.mem_map_of_mem hQ) _ ha he

theorem PcOk.congr (h : PcOk off n cap m Q nx t.pc)
    (howned : ∀ a, t.owned = some a → m.SameOn m' (a + 16) (a + 17))
    (hlink : ∀ o, t.linking = some o → m.SameOn m' (off + 36 + o) (off + 36 + o + 20)) :
    PcOk off n cap m' Q nx t.pc := by
  obtain ⟨b, pc⟩ := t
  cases pc with
  | pushTail s | pushCas s o => exact ⟨h.1, (hasNext_congr (howned _ rfl)).trans h.2⟩
  | pushNext o t =>
    have hs := hlink o rfl
    exact ⟨h.1, h.2.1, (hasNext_congr (hs.mono (by omega) (by omega))).trans h.2.2⟩
  | pushFlag o t | pushHasNext o t v =>
    have hs := hlink o rfl
    exact ⟨h.1, h.2.1, (hasNext_congr (hs.mono (by omega) (by omega))).trans h.2.2.1,
      (nextOffset_congr (hs.mono (by omega) (by omega))).trans h.2.2.2⟩
  | _ => exact h

theorem PcOk.mem_of_linking (h : PcOk off n cap m Q nx t.pc) {o : ℕ} (ho : t.linking = some o) :
    o ∈ Q ∧ (∃ o', nx o = some o') ∧ hasNext m (off + 36 + o) = false := by
  obtain ⟨b, pc⟩ := t
  cases pc with
  | pushNext o' t => cases ho; exact ⟨h.1, ⟨t, h.2.1⟩, h.2.2⟩
  | pushFlag o' t | pushHasNext o' t v => cases ho; exact ⟨h.1, ⟨t, h.2.1⟩, h.2.2.1⟩
  | _ => cases ho

theorem Inv.owned_slot_rest (h : Inv off n cap m (t :: rest) held Q nx) {u : Thread} {a : ℕ}
    (hu : u ∈ rest) (ha : u.owned = some a) : ∃ o ∈ slotOffsets n cap, a = off + 36 + o ∧ o ∉ Q :=
  h.owned_slot (List.mem_append_right _
    (List.mem_filterMap.mpr ⟨u, List.mem_cons_of_mem t hu, ha⟩))

/-- The lists of the threads after a step of the first. -/
theorem Inv.lists_cons (h : Inv off n cap m (t :: rest) held Q nx) (hlist : t'.list = t.list) :
    ∀ u ∈ t' :: rest, ListAt u.list off n cap :=
  List.forall_mem_cons.mpr ⟨hlist ▸ h.lists t List.mem_cons_self,
    fun u hu => h.lists u (List.mem_cons_of_mem t hu)⟩

theorem Inv.linking_rest (h : Inv off n cap m (t :: rest) held Q nx) {u : Thread} (hu : u ∈ rest)
    {o : ℕ} (ho : u.linking = some o) : t.linking ≠ some o := by
  intro ht
  have hnd := h.linking
  rw [List.filterMap_cons_some ht, List.nodup_cons] at hnd
  exact hnd.1 (List.mem_filterMap.mpr ⟨u, hu, ho⟩)

theorem Inv.owned_rest (h : Inv off n cap m (t :: rest) held Q nx) {u : Thread} (hu : u ∈ rest)
    {a a' : ℕ} (ha : t.owned = some a) (ha' : u.owned = some a') : a ≠ a' := by
  rintro rfl
  have hnd := (List.nodup_append.mp (List.nodup_append.mp h.nodup).2.1).2.1
  rw [List.filterMap_cons_some ha, List.nodup_cons] at hnd
  exact hnd.1 (List.mem_filterMap.mpr ⟨u, hu, ha'⟩)

/-- A step that keeps the queue: it may change the header of the slot whose link the
    thread owes, and what no other thread relies on. -/
theorem Inv.congr (h : Inv off n cap m (t :: rest) held Q nx)
    (hw : m.SameOn m' (off + 8) (off + 16))
    (hcaps : ∀ o ∈ slotOffsets n cap, m.SameOn m' (off + 36 + o) (off + 36 + o + 4))
    (hQ : ∀ o ∈ Q, t.linking ≠ some o → m.SameOn m' (off + 36 + o) (off + 36 + o + 20))
    (hrest : ∀ u ∈ rest, ∀ a, u.owned = some a → m.SameOn m' (a + 16) (a + 17))
    (hlist : t'.list = t.list) (howned : t'.owned = t.owned) (hlink : t'.linking = t.linking)
    (hpc : PcOk off n cap m' Q nx t'.pc) : Inv off n cap m' (t' :: rest) held Q nx where
  lists := h.lists_cons hlist
  caps o ho := (Mem.get32_congr (hcaps o ho)).trans (h.caps o ho)
  head := by rw [Mem.get32_congr (hw.mono (by omega) (by omega))]; exact h.head
  tail := by rw [Mem.get32_congr (hw.mono (by omega) (by omega))]; exact h.tail
  chain := h.chain
  link o ho := by
    rw [List.filterMap_cons, hlink, ← List.filterMap_cons]
    by_cases ht : t.linking = some o
    · exact .inr (List.mem_filterMap.mpr ⟨t, List.mem_cons_self, ht⟩)
    · rw [nextAt_congr (hQ o ho ht)]
      exact h.link o ho
  pcs u hu := by
    rcases List.mem_cons.mp hu with rfl | hu
    · exact hpc
    · have hpu := h.pcs u (List.mem_cons_of_mem t hu)
      exact hpu.congr (hrest u hu) fun o ho =>
        hQ o (hpu.mem_of_linking ho).1 (h.linking_rest hu ho)
  linking := by
    rw [List.filterMap_cons, hlink, ← List.filterMap_cons]
    exact h.linking
  slices := h.slices
  all := by
    rw [List.filterMap_cons, howned, ← List.filterMap_cons]
    exact h.all

/-- A step that writes no word but `*size` and `*counter`. -/
theorem Inv.words (h : Inv off n cap m (t :: rest) held Q nx)
    (hs : ∀ lo hi, off + 4 ≤ lo ∧ hi ≤ off + 20 ∨ off + 36 ≤ lo → m.SameOn m' lo hi)
    (hlist : t'.list = t.list) (howned : t'.owned = t.owned) (hlink : t'.linking = t.linking)
    (hpc : PcOk off n cap m' Q nx t'.pc) : Inv off n cap m' (t' :: rest) held Q nx := by
  refine h.congr (hs _ _ (by omega)) (fun o _ => hs _ _ (by omega))
    (fun o _ _ => hs _ _ (by omega)) (fun u hu a ha => ?_) hlist howned hlink hpc
  obtain ⟨o, -, rfl, -⟩ := h.owned_slot_rest hu ha
  exact hs _ _ (by omega)

/-- A step that writes to the slot at `a`, behind its capacity, where no other thread
    owns `a`. -/
theorem Inv.slot (h : Inv off n cap m (t :: rest) held Q nx) {a : ℕ}
    (ha : a ∈ held.map (·.slice.offsetInShm) ++ (t :: rest).filterMap Thread.owned)
    (hother : ∀ u ∈ rest, u.owned ≠ some a)
    (hs : ∀ lo hi, hi ≤ a + 4 ∨ a + 20 + cap ≤ lo → m.SameOn m' lo hi)
    (hlist : t'.list = t.list) (howned : t'.owned = t.owned) (hlink : t'.linking = t.linking)
    (hpc : PcOk off n cap m' Q nx t'.pc) : Inv off n cap m' (t' :: rest) held Q nx := by
  obtain ⟨o, ho, rfl, hoQ⟩ := h.owned_slot ha
  have hdisj : ∀ o' ∈ slotOffsets n cap, o' ≠ o →
      m.SameOn m' (off + 36 + o') (off + 36 + o' + 20) := by
    intro o' ho' hne
    have := slot_disjoint ho ho' hne.symm
    exact hs _ _ (by omega)
  refine h.congr (hs _ _ (by omega)) (fun o' ho' => ?_) (fun o' ho' _ => ?_) (fun u hu a ha' => ?_)
    hlist howned hlink hpc
  · rcases eq_or_ne o' o with rfl | hne
    · exact hs _ _ (by omega)
    · exact (hdisj o' ho' hne).mono le_rfl (by omega)
  · exact hdisj o' (h.slots ho') fun he => hoQ (he ▸ ho')
  · obtain ⟨o', ho', rfl, -⟩ := h.owned_slot_rest hu ha'
    have hne : o' ≠ o := fun he => hother u hu (he ▸ ha')
    exact (hdisj o' ho' hne).mono (by omega) (by omega)

/-- A step that writes to the slot the thread owns, behind its capacity. -/
theorem Inv.own (h : Inv off n cap m (t :: rest) held Q nx) {a : ℕ} (ha : t.owned = some a)
    (hs : ∀ lo hi, hi ≤ a + 4 ∨ a + 20 ≤ lo → m.SameOn m' lo hi)
    (hlist : t'.list = t.list) (howned : t'.owned = t.owned) (hlink : t'.linking = t.linking)
    (hpc : PcOk off n cap m' Q nx t'.pc) : Inv off n cap m' (t' :: rest) held Q nx :=
  h.slot (List.mem_append_right _ (List.mem_filterMap.mpr ⟨t, List.mem_cons_self, ha⟩))
    (fun _ hu ha' => h.owned_rest hu ha ha' rfl) (fun lo hi hr => hs lo hi (by omega))
    hlist howned hlink hpc

/-- The write of the next offset of the old tail, whose link the thread owes. -/
theorem inv_pushNext {b : BufferList} {o z : ℕ}
    (h : Inv off n cap m (⟨b, .pushNext z o⟩ :: rest) held Q nx) (ho : o < 2 ^ 32) :
    Inv off n cap (m.set32 (off + 36 + z + 12) o) (⟨b, .pushFlag z o⟩ :: rest) held Q nx := by
  obtain ⟨hzQ, hnx, hf⟩ := h.pcs _ List.mem_cons_self
  have hz := h.slots hzQ
  refine h.congr (Mem.set32_sameOn (by omega)) (fun q hq => ?_) (fun q hq hne => ?_)
    (fun u hu a ha => ?_) rfl rfl rfl ⟨hzQ, hnx, ?_, ?_⟩
  · rcases eq_or_ne q z with rfl | hne
    · exact Mem.set32_sameOn (by omega)
    · have := slot_disjoint hq hz hne
      exact Mem.set32_sameOn (by omega)
  · have hqz : q ≠ z := fun he => hne (he ▸ rfl)
    have := slot_disjoint (h.slots hq) hz hqz
    exact Mem.set32_sameOn (by omega)
  · obtain ⟨q, hq, rfl, hqQ⟩ := h.owned_slot_rest hu ha
    have := slot_disjoint hq hz fun he => hqQ (he ▸ hzQ)
    exact Mem.set32_sameOn (by omega)
  · exact (hasNext_congr (Mem.set32_sameOn (by omega))).trans hf
  · exact Mem.get32_set32_of_lt ho

/-- What a thread knows depends on the queue and on `nx` at the slot it links only. -/
theorem PcOk.of_link {Q' : List ℕ} {nx' : ℕ → Option ℕ} (h : PcOk off n cap m Q nx t.pc)
    (hl : ∀ o, t.linking = some o → o ∈ Q' ∧ nx' o = nx o) : PcOk off n cap m Q' nx' t.pc := by
  obtain ⟨b, pc⟩ := t
  cases pc with
  | pushNext o t | pushFlag o t | pushHasNext o t v =>
    obtain ⟨hq, hn⟩ := hl o rfl
    exact ⟨hq, hn.trans h.2.1, h.2.2⟩
  | _ => exact h

/-- What the other threads know after a write to the header of the list. -/
theorem Inv.pcOk_header {u : Thread} {m' : Mem} {Q' : List ℕ} {nx' : ℕ → Option ℕ}
    (h : Inv off n cap m (t :: rest) held Q nx) (hu : u ∈ rest)
    (hs : ∀ lo hi, off + 36 ≤ lo → m.SameOn m' lo hi)
    (hl : ∀ o, u.linking = some o → o ∈ Q' ∧ nx' o = nx o) : PcOk off n cap m' Q' nx' u.pc := by
  have hpu := h.pcs u (List.mem_cons_of_mem _ hu)
  refine (hpu.congr (fun a ha => ?_) fun q _ => hs _ _ (by omega)).of_link hl
  obtain ⟨q, -, rfl, -⟩ := h.owned_slot_rest hu ha
  exact hs _ _ (by omega)

/-- A slot with the has-next flag is not one whose link is owed. -/
theorem Inv.nx_of_hasNext (h : Inv off n cap m threads held Q nx) {o : ℕ} (ho : o ∈ Q)
    (hf : hasNext m (off + 36 + o) = true) : nx o = some (nextOffset m (off + 36 + o)) := by
  rcases h.link o ho with hl | hl
  · rw [← hl, nextAt, if_pos hf]
  · obtain ⟨t, ht, hlt⟩ := List.mem_filterMap.mp hl
    have := ((h.pcs t ht).mem_of_linking hlt).2.2
    rw [hf] at this
    cases this

theorem Inv.next_lt {b : BufferList} (h : Inv off n cap m threads held Q nx)
    (hb : ListAt b off n cap) {o o' : ℕ} (ho : o ∈ Q) (hn : nx o = some o') : o' < 2 ^ 32 := by
  have hlt := hb.slot_lt (h.slots (h.chain.next_mem ho hn))
  omega

theorem inv_headCas {b : BufferList} {k o o' : ℕ}
    (h : Inv off n cap m (⟨b, .popCas k o o'⟩ :: rest) held Q nx)
    (ho : m.get32 (off + 8) = o) (hf : hasNext m (off + 36 + o) = true)
    (hn : nextOffset m (off + 36 + o) = o') :
    Inv off n cap (m.set32 (off + 8) o') (⟨b, .popClear o⟩ :: rest) held Q.tail nx := by
  have hb : ListAt b off n cap := h.lists _ List.mem_cons_self
  obtain ⟨Q', rfl⟩ : ∃ Q', Q = o :: Q' := List.head?_eq_some_iff.mp (h.head.trans (by rw [ho]))
  have hnx : nx o = some o' := hn ▸ h.nx_of_hasNext List.mem_cons_self hf
  obtain ⟨Q'', rfl⟩ := h.chain.cons_of_next hnx
  have hslot := h.slots (o := o) List.mem_cons_self
  have hlt := hb.slot_lt hslot
  have hlt' := hb.slot_lt (h.slots (o := o') (by simp))
  have hs : ∀ lo hi, off + 12 ≤ lo → m.SameOn (m.set32 (off + 8) o') lo hi :=
    fun lo hi hlo => Mem.set32_sameOn (.inl hlo)
  have hlinking : ∀ u ∈ rest, u.linking ≠ some o := fun u hu hl => by
    have := ((h.pcs u (List.mem_cons_of_mem _ hu)).mem_of_linking hl).2.2
    rw [hf] at this
    cases this
  refine ⟨h.lists_cons rfl, fun q hq => ?_, ?_, ?_, h.chain.tail, fun q hq => ?_, fun u hu => ?_, ?_,
    h.slices, ?_⟩
  · exact (Mem.get32_congr (hs _ _ (by omega))).trans (h.caps q hq)
  · rw [Mem.get32_set32_of_lt (by omega)]; rfl
  · rw [Mem.get32_congr (hs _ _ (by omega)), ← h.tail]
    simp
  · rw [nextAt_congr (hs _ _ (by omega))]
    exact h.link q (List.mem_cons_of_mem o hq)
  · rcases List.mem_cons.mp hu with rfl | hu
    · exact hslot
    · refine h.pcOk_header hu (fun lo hi hlo => hs lo hi (by omega)) fun q hq => ?_
      have hne : q ≠ o := fun he => hlinking u hu (he ▸ hq)
      have hmem := ((h.pcs u (List.mem_cons_of_mem _ hu)).mem_of_linking hq).1
      exact ⟨(List.mem_cons.mp hmem).resolve_left hne, rfl⟩
  · exact h.linking
  · refine List.Perm.trans ?_ h.all
    have howned : Thread.owned ⟨b, .popClear o⟩ = some (off + 36 + o) := by
      simp only [Thread.owned, hb.regionOffset]
      rw [u32_of_lt (by omega), Nat.add_comm]
    have hold : (Thread.mk b (.popCas k o o') :: rest).filterMap Thread.owned =
      rest.filterMap Thread.owned := rfl
    rw [List.filterMap_cons_some howned, hold]
    simp only [List.tail_cons, List.map_cons, List.cons_append, ← List.append_assoc]
    exact (List.Perm.cons _ List.perm_middle).trans (List.Perm.swap ..)

theorem inv_tailCas {b : BufferList} {s : BufferSlice} {o z : ℕ}
    (h : Inv off n cap m (⟨b, .pushCas s z⟩ :: rest) held Q nx)
    (hz : m.get32 (off + 12) = z) (ho : s.offsetInShm = off + 36 + o) :
    Inv off n cap (m.set32 (off + 12) o) (⟨b, .pushNext z o⟩ :: rest) held (Q ++ [o])
      (Function.update (Function.update nx z (some o)) o none) := by
  have hb : ListAt b off n cap := h.lists _ List.mem_cons_self
  have hpc := h.pcs _ List.mem_cons_self
  obtain ⟨o', hslot, ho', hoQ⟩ := h.owned_slot (a := s.offsetInShm)
    (List.mem_append_right _ (List.mem_filterMap.mpr ⟨_, List.mem_cons_self, rfl⟩))
  obtain rfl : o = o' := by omega
  have hlt := hb.slot_lt hslot
  obtain ⟨G, rfl⟩ := List.getLast?_eq_some_iff.mp (h.tail.trans (by rw [hz]))
  have hzo : z ≠ o := fun he => hoQ (by simp [he])
  have hnxz : nx z = none := h.chain.next_last
  -- what the links of the other slots are does not change
  have hnx : ∀ q, q ≠ z → q ≠ o →
      Function.update (Function.update nx z (some o)) o none q = nx q := fun q h1 h2 => by
    rw [Function.update_of_ne h2, Function.update_of_ne h1]
  have hnxz' : Function.update (Function.update nx z (some o)) o none z = some o := by
    rw [Function.update_of_ne hzo, Function.update_self]
  have hGz : ∀ q ∈ G, q ≠ z := by
    have hnd := (List.nodup_append.mp h.nodup).1
    have hnd' := (List.nodup_append.mp (List.Nodup.of_map _ hnd)).2.2
    exact fun q hq => hnd' q hq z (by simp)
  have hlinking : ∀ u ∈ rest, ∀ q, u.linking = some q → q ∈ G ++ [z] ∧ q ≠ z := by
    intro u hu q hq
    obtain ⟨hqQ, ⟨q', hq'⟩, -⟩ := (h.pcs u (List.mem_cons_of_mem _ hu)).mem_of_linking hq
    exact ⟨hqQ, fun he => by rw [he, hnxz] at hq'; cases hq'⟩
  have hs : ∀ lo hi, off + 16 ≤ lo ∨ hi ≤ off + 12 → m.SameOn (m.set32 (off + 12) o) lo hi :=
    fun lo hi hlo => Mem.set32_sameOn (by omega)
  have hflagz : hasNext m (off + 36 + z) = false := by
    by_contra hf
    have := h.nx_of_hasNext (o := z) (by simp) (by simpa using hf)
    rw [hnxz] at this
    cases this
  refine ⟨h.lists_cons rfl, fun q hq => ?_, ?_, ?_, ?_, fun q hq => ?_, fun u hu => ?_, ?_,
    h.slices, ?_⟩
  · exact (Mem.get32_congr (hs _ _ (by omega))).trans (h.caps q hq)
  · rw [Mem.get32_congr (hs _ _ (by omega)), ← h.head]
    simp
  · rw [Mem.get32_set32_of_lt (by omega)]
    simp
  · rw [List.append_assoc]
    refine h.chain.link (fun q hq => hnx q (hGz q hq) fun he => hoQ (by simp [← he, hq])) hnxz'
      (Function.update_self ..)
  · rw [nextAt_congr (hs _ _ (by omega))]
    rcases List.mem_append.mp hq with hq | hq
    · by_cases hqz : q = z
      · exact .inr (List.mem_filterMap.mpr ⟨_, List.mem_cons_self, by rw [hqz]; rfl⟩)
      · rw [hnx q hqz fun he => hoQ (he ▸ hq)]
        exact (h.link q hq).imp_right fun hl => List.mem_cons_of_mem z hl
    · rw [List.mem_singleton.mp hq, Function.update_self, nextAt, if_neg (by simp [← ho, hpc.2])]
      exact .inl rfl
  · rcases List.mem_cons.mp hu with rfl | hu
    · exact ⟨by simp, hnxz', (hasNext_congr (hs _ _ (by omega))).trans hflagz⟩
    · refine h.pcOk_header hu (fun lo hi hlo => hs lo hi (by omega)) fun q hq => ?_
      obtain ⟨hqQ, hqz⟩ := hlinking u hu q hq
      exact ⟨List.mem_append_left _ hqQ, hnx q hqz fun he => hoQ (he ▸ hqQ)⟩
  · have hl : Thread.linking ⟨b, .pushNext z o⟩ = some z := rfl
    rw [List.filterMap_cons_some hl, List.nodup_cons]
    refine ⟨fun hm => ?_, h.linking⟩
    obtain ⟨u, hu, hul⟩ := List.mem_filterMap.mp hm
    exact (hlinking u hu z hul).2 rfl
  · refine List.Perm.trans ?_ h.all
    have hold : Thread.owned ⟨b, .pushCas s z⟩ = some (off + 36 + o) := by rw [← ho]; rfl
    have hnew : (Thread.mk b (.pushNext z o) :: rest).filterMap Thread.owned =
      rest.filterMap Thread.owned := rfl
    rw [List.filterMap_cons_some hold, hnew, List.map_append, List.append_assoc]
    refine List.Perm.append_left _ ?_
    rw [List.map_singleton, List.singleton_append]
    exact List.perm_middle.symm

/-- The has-next flag is written: the link is no longer owed. -/
theorem inv_linked {b : BufferList} {o z : ℕ} {v : UInt8}
    (h : Inv off n cap m (⟨b, .pushHasNext z o v⟩ :: rest) held Q nx) :
    Inv off n cap (m.set8 (off + 36 + z + 16) (v ||| hasNextBufferFlag))
      (⟨b, .pushSize⟩ :: rest) held Q nx := by
  obtain ⟨hzQ, hnx, -, hoff⟩ := h.pcs _ List.mem_cons_self
  have hzl : Thread.linking ⟨b, .pushHasNext z o v⟩ = some z := rfl
  generalize hm' : m.set8 (off + 36 + z + 16) (v ||| hasNextBufferFlag) = m'
  have hs : ∀ lo hi, off + 36 + z + 16 < lo ∨ hi ≤ off + 36 + z + 16 → m.SameOn m' lo hi :=
    fun lo hi hr => hm' ▸ Mem.set8_sameOn hr
  have hslot : ∀ q ∈ slotOffsets n cap, q ≠ z → m.SameOn m' (off + 36 + q) (off + 36 + q + 20) := by
    intro q hq hne
    have := slot_disjoint hq (h.slots hzQ) hne
    exact hs _ _ (by omega)
  have hlinked : nextAt m' (off + 36) z = some o := by
    have hf : hasNext m' (off + 36 + z) = true := by
      rw [← hm', hasNext, bufferFlagOffset, Mem.byte_set8_self]
      simpa using or_hasNextBufferFlag v
    rw [nextAt, if_pos hf, nextOffset_congr (hs _ _ (by omega)), hoff]
  refine ⟨h.lists_cons rfl, fun q hq => ?_, ?_, ?_, h.chain, fun q hq => ?_, fun u hu => ?_, ?_,
    h.slices, h.all⟩
  · rcases eq_or_ne q z with rfl | hne
    · exact (Mem.get32_congr (hs _ _ (by omega))).trans (h.caps q hq)
    · exact (Mem.get32_congr ((hslot q hq hne).mono le_rfl (by omega))).trans (h.caps q hq)
  · rw [Mem.get32_congr (hs _ _ (by omega))]; exact h.head
  · rw [Mem.get32_congr (hs _ _ (by omega))]; exact h.tail
  · rcases eq_or_ne q z with rfl | hne
    · exact .inl (hlinked.trans hnx.symm)
    · rw [nextAt_congr (hslot q (h.slots hq) hne)]
      refine (h.link q hq).imp_right fun hl => ?_
      rw [List.filterMap_cons_some hzl] at hl
      exact (List.mem_cons.mp hl).resolve_left hne
  · rcases List.mem_cons.mp hu with rfl | hu
    · trivial
    · have hpu := h.pcs u (List.mem_cons_of_mem _ hu)
      refine hpu.congr (fun a ha => ?_) fun q hq => ?_
      · obtain ⟨q, hq, rfl, hqQ⟩ := h.owned_slot_rest hu ha
        exact (hslot q hq fun he => hqQ (he ▸ hzQ)).mono (by omega) (by omega)
      · refine hslot q (h.slots (hpu.mem_of_linking hq).1) ?_
        rintro rfl
        exact h.linking_rest hu hq hzl
  · have hnd := h.linking
    rw [List.filterMap_cons_some hzl, List.nodup_cons] at hnd
    exact hnd.2

theorem inv_return {b : BufferList} {o c st : ℕ} {d : Data} {x : Held}
    (h : Inv off n cap m (⟨b, .popDataSize o d c st⟩ :: rest) held Q nx)
    (hh : x.slice.header = some (off + 36 + o)) (ho : x.slice.offsetInShm = off + 36 + o)
    (hc : x.slice.cap = c) : Inv off n cap m (⟨b, .idle⟩ :: rest) (x :: held) Q nx := by
  have hb : ListAt b off n cap := h.lists _ List.mem_cons_self
  obtain ⟨hslot, rfl⟩ := h.pcs _ List.mem_cons_self
  have hlt := hb.slot_lt hslot
  refine ⟨h.lists_cons rfl, h.caps, h.head, h.tail, h.chain, h.link, fun u hu => ?_, h.linking,
    fun y hy => ?_, ?_⟩
  · rcases List.mem_cons.mp hu with rfl | hu
    · trivial
    · exact h.pcs u (List.mem_cons_of_mem _ hu)
  · rcases List.mem_cons.mp hy with rfl | hy
    · exact ⟨by rw [hh, ho], hc⟩
    · exact h.slices y hy
  · refine List.Perm.trans (List.Perm.append_left _ ?_) h.all
    have hold : Thread.owned ⟨b, .popDataSize o d c st⟩ = some (off + 36 + o) := by
      simp only [Thread.owned, hb.regionOffset]
      rw [u32_of_lt (by omega), Nat.add_comm]
    rw [List.filterMap_cons_some hold, List.map_cons, ho]
    exact List.perm_middle.symm

theorem inv_call {b : BufferList} (h : Inv off n cap m (⟨b, .idle⟩ :: rest) (x :: held) Q nx) :
    Inv off n cap m (⟨b, .pushDataSize x.slice⟩ :: rest) held Q nx := by
  refine ⟨h.lists_cons rfl, h.caps, h.head, h.tail, h.chain, h.link, fun u hu => ?_, h.linking,
    fun y hy => h.slices y (List.mem_cons_of_mem x hy), ?_⟩
  · rcases List.mem_cons.mp hu with rfl | hu
    · exact (h.slices x List.mem_cons_self).1
    · exact h.pcs u (List.mem_cons_of_mem _ hu)
  · refine List.Perm.trans (List.Perm.append_left _ ?_) h.all
    have hnew : Thread.owned ⟨b, .pushDataSize x.slice⟩ = some x.slice.offsetInShm := rfl
    rw [List.filterMap_cons_some hnew, List.map_cons]
    exact List.perm_middle

theorem inv_write (h : Inv off n cap m threads held Q nx) (hx : x ∈ held) {p : ℕ} {v : UInt8}
    (hp : 4 ≤ p) (hp' : p < bufferHeaderSize + x.slice.cap) :
    Inv off n cap (m.set8 (x.slice.offsetInShm + p) v) threads held Q nx := by
  have hxa := List.mem_append_left (threads.filterMap Thread.owned)
    (List.mem_map_of_mem (f := (·.slice.offsetInShm)) hx)
  obtain ⟨o, ho, he, hoQ⟩ := h.owned_slot hxa
  rw [(h.slices x hx).2, bufferHeaderSize] at hp'
  rw [he]
  have hs : ∀ q ∈ slotOffsets n cap, q ≠ o → m.SameOn (m.set8 (off + 36 + o + p) v)
      (off + 36 + q) (off + 36 + q + 20) := by
    intro q hq hne
    have := slot_disjoint hq ho hne
    exact Mem.set8_sameOn (by omega)
  have hQ : ∀ q ∈ Q, q ≠ o := fun q hq heq => hoQ (heq ▸ hq)
  have hw : m.SameOn (m.set8 (off + 36 + o + p) v) (off + 8) (off + 16) :=
    Mem.set8_sameOn (by omega)
  exact { h with
    caps := fun q hq => by
      rcases eq_or_ne q o with rfl | hne
      · exact (Mem.get32_congr (Mem.set8_sameOn (by omega))).trans (h.caps q hq)
      · exact (Mem.get32_congr ((hs q hq hne).mono le_rfl (by omega))).trans (h.caps q hq)
    head := by rw [Mem.get32_congr (hw.mono (by omega) (by omega))]; exact h.head
    tail := by rw [Mem.get32_congr (hw.mono (by omega) (by omega))]; exact h.tail
    link := fun q hq => by
      rw [nextAt_congr (hs q (h.slots hq) (hQ q hq))]
      exact h.link q hq
    pcs := fun u hu => by
      refine (h.pcs u hu).congr (fun a ha => ?_) fun q hq => ?_
      · have hua := List.mem_filterMap.mpr ⟨u, hu, ha⟩
        obtain ⟨q, hq, rfl, -⟩ := h.owned_slot (List.mem_append_right _ hua)
        have hne : q ≠ o := fun heq => (List.nodup_append.mp (List.nodup_append.mp h.nodup).2.1).2.2
          _ (List.mem_map_of_mem hx) _ hua (by rw [he, heq])
        exact (hs q hq hne).mono (by omega) (by omega)
      · have hqQ := ((h.pcs u hu).mem_of_linking hq).1
        exact hs q (h.slots hqQ) (hQ q hqQ) }

/-- In the created list all slots are free and linked. -/
theorem inv_init {b : BufferList} {s : State} (hb : ListAt b off n cap)
    (hfree : FreeInv off n cap m (slotOffsets n cap)) (hs : (machine b m).init s)
    (hc : b.counter = off + 20) :
    Inv off n cap s.mem s.threads s.held (slotOffsets n cap) (nextAt m (off + 36)) := by
  obtain ⟨hm, hheld, hthreads⟩ := hs
  have hidle : ∀ t ∈ s.threads, t.owned = none ∧ t.linking = none ∧ PcOk off n cap m
      (slotOffsets n cap) (nextAt m (off + 36)) t.pc := by
    rintro ⟨b', pc⟩ ht
    obtain rfl : pc = .idle := (hthreads _ ht).1
    exact ⟨rfl, rfl, trivial⟩
  have howned : s.threads.filterMap Thread.owned = [] :=
    List.filterMap_eq_nil_iff.mpr fun t ht => (hidle t ht).1
  have hlinking : s.threads.filterMap Thread.linking = [] :=
    List.filterMap_eq_nil_iff.mpr fun t ht => (hidle t ht).2.1
  rw [hm, hheld]
  refine ⟨fun t ht => ?_, hfree.caps, hfree.head, hfree.tail, hfree.chain, fun o _ => .inl rfl,
    fun t ht => (hidle t ht).2.2, by simp [hlinking], by simp, by simp [howned]⟩
  rcases (hthreads t ht).2 with hl | hl
  · rw [hl]; exact hb
  · rw [hl]
    exact { hb with counter := .inr (by simp [hc]) }

/-- **Step lemma**, for one access of a thread. -/
theorem inv_access {b : BufferList} {pc pc' : Pc} {r : Option BufferSlice} (i : ℕ)
    (h : Inv off n cap m (⟨b, pc⟩ :: rest) held Q nx)
    (hcas : ∀ k o o', pc = .popCas k o o' → m.get32 b.head = o →
      hasNext m (b.regionStart + o) = true ∧ nextOffset m (b.regionStart + o) = o')
    (hs : access b m pc = some (m', pc', r)) :
    ∃ Q' nx', Inv off n cap m' (⟨b, pc'⟩ :: rest) (r.toList.map (Held.mk i) ++ held) Q' nx' := by
  have hb : ListAt b off n cap := h.lists _ List.mem_cons_self
  have hpc := h.pcs _ List.mem_cons_self
  have hc := hb.counter
  have howned : ∀ o ∈ slotOffsets n cap, some (u32 (o + b.bufferRegionOffsetInShm)) =
      some (b.regionStart + o) := by
    intro o ho
    have hlt := hb.slot_lt ho
    rw [hb.regionOffset, hb.regionStart, u32_of_lt (by omega), Nat.add_comm]
  have hrefl : ∀ lo hi, off + 4 ≤ lo ∧ hi ≤ off + 20 ∨ off + 36 ≤ lo → m.SameOn m lo hi :=
    fun lo hi _ => Mem.SameOn.refl m lo hi
  have hsize : ∀ d lo hi, off + 4 ≤ lo ∧ hi ≤ off + 20 ∨ off + 36 ≤ lo →
      m.SameOn (m.addInt32 b.size d).1 lo hi :=
    fun d lo hi hr => Mem.addInt32_sameOn (by rw [hb.size]; omega)
  have hcounter : ∀ d lo hi, off + 4 ≤ lo ∧ hi ≤ off + 20 ∨ off + 36 ≤ lo →
      m.SameOn (m.addInt32 b.counter d).1 lo hi :=
    fun d lo hi hr => Mem.addInt32_sameOn (by omega)
  cases pc with
  | idle => cases hs; exact ⟨Q, nx, h.words hrefl rfl rfl rfl trivial⟩
  | popSize o =>
    simp only [access] at hs
    cases hs
    refine ⟨Q, nx, h.words (hsize _) rfl ?_ ?_ ?_⟩ <;> split_ifs <;> trivial
  | popHasNext k o =>
    simp only [access] at hs
    split at hs
    · cases hs
    · cases hs
      refine ⟨Q, nx, h.words hrefl rfl ?_ ?_ ?_⟩ <;> split_ifs <;> trivial
  | popNext k o => cases hs; exact ⟨Q, nx, h.words hrefl rfl rfl rfl trivial⟩
  | popCas k o o' =>
    simp only [access] at hs
    split_ifs at hs with ho
    · cases hs
      obtain ⟨hf, hn⟩ := hcas k o o' rfl ho
      rw [hb.regionStart] at hf hn
      rw [hb.head] at ho ⊢
      exact ⟨_, nx, inv_headCas h ho hf hn⟩
    · cases hs
      exact ⟨Q, nx, h.words hrefl rfl rfl rfl trivial⟩
  | popClear o =>
    cases hs
    exact ⟨Q, nx, h.own (howned o hpc) (fun lo hi hr => clearFlag_sameOn (by omega)) rfl rfl rfl hpc⟩
  | popFlag o => cases hs; exact ⟨Q, nx, h.words hrefl rfl rfl rfl hpc⟩
  | popInUse o v =>
    cases hs
    refine ⟨Q, nx, h.own (howned o hpc) (fun lo hi hr => Mem.set8_sameOn ?_) rfl rfl rfl hpc⟩
    unfold bufferFlagOffset; omega
  | popCounter o => cases hs; exact ⟨Q, nx, h.words (hcounter 1) rfl rfl rfl hpc⟩
  | popCapPerBuffer o =>
    simp only [access] at hs
    split at hs
    · cases hs
    · cases hs; exact ⟨Q, nx, h.words hrefl rfl rfl rfl hpc⟩
  | popCap o d =>
    cases hs
    refine ⟨Q, nx, h.words hrefl rfl rfl rfl ⟨hpc, ?_⟩⟩
    rw [hb.regionStart]; exact h.caps o hpc
  | popStart o d c => cases hs; exact ⟨Q, nx, h.words hrefl rfl rfl rfl hpc⟩
  | popDataSize o d c st =>
    cases hs
    have hlt := hb.slot_lt hpc.1
    refine ⟨Q, nx, inv_return h (by simp [hb.regionStart]) ?_ rfl⟩
    simp only [hb.regionOffset]
    rw [u32_of_lt (by omega), Nat.add_comm]
  | popLast k =>
    cases hs
    refine ⟨Q, nx, h.words hrefl rfl ?_ ?_ ?_⟩ <;> split_ifs <;> trivial
  | popReload k =>
    cases k with
    | zero | succ k => cases hs; exact ⟨Q, nx, h.words hrefl rfl rfl rfl trivial⟩
  | popRestore => cases hs; exact ⟨Q, nx, h.words (hsize 1) rfl rfl rfl trivial⟩
  | pushDataSize s =>
    cases hs
    rw [show s.header = some s.offsetInShm from hpc]
    refine ⟨Q, nx, h.own rfl (fun lo hi hr => Mem.set32_sameOn ?_) rfl rfl rfl hpc⟩
    unfold bufferSizeOffset; omega
  | pushStart s =>
    cases hs
    rw [show s.header = some s.offsetInShm from hpc]
    refine ⟨Q, nx, h.own rfl (fun lo hi hr => Mem.set32_sameOn ?_) rfl rfl rfl hpc⟩
    unfold bufferDataStartOffset; omega
  | pushClear s =>
    cases hs
    rw [show s.header = some s.offsetInShm from hpc]
    exact ⟨Q, nx, h.own rfl (fun lo hi hr => clearFlag_sameOn (by omega)) rfl rfl rfl
      ⟨hpc, hasNext_clearFlag⟩⟩
  | pushTail s => cases hs; exact ⟨Q, nx, h.words hrefl rfl rfl rfl hpc⟩
  | pushCas s z =>
    simp only [access] at hs
    split_ifs at hs with hz
    · obtain ⟨o, ho, he, -⟩ := h.owned_slot (a := s.offsetInShm)
        (List.mem_append_right _ (List.mem_filterMap.mpr ⟨_, List.mem_cons_self, rfl⟩))
      have hlt := hb.slot_lt ho
      rw [newTail_eq hb (by omega) he] at hs
      split at hs
      · cases hs
      · cases hs
        rw [hb.tail] at hz ⊢
        exact ⟨_, _, inv_tailCas h hz he⟩
    · cases hs
      exact ⟨Q, nx, h.words hrefl rfl rfl rfl hpc⟩
  | pushNext z o =>
    cases hs
    rw [hb.regionStart, nextBufferOffset]
    exact ⟨Q, nx, inv_pushNext h (h.next_lt hb hpc.1 hpc.2.1)⟩
  | pushFlag z o => cases hs; exact ⟨Q, nx, h.words hrefl rfl rfl rfl hpc⟩
  | pushHasNext z o v =>
    cases hs
    rw [hb.regionStart, bufferFlagOffset]
    exact ⟨Q, nx, inv_linked h⟩
  | pushSize => cases hs; exact ⟨Q, nx, h.words (hsize 1) rfl rfl rfl trivial⟩
  | pushCounter => cases hs; exact ⟨Q, nx, h.words (hcounter (-1)) rfl rfl rfl trivial⟩

/-- **Step lemma.** -/
theorem inv_step {s u : State} (a : Act) (h : Inv off n cap s.mem s.threads s.held Q nx)
    (hok : CasOk s a) (hs : next s a = some u) :
    ∃ Q' nx', Inv off n cap u.mem u.threads u.held Q' nx' := by
  cases a with
  | step i =>
    simp only [next] at hs
    cases ht : s.threads[i]? with
    | none => simp [ht] at hs
    | some t =>
      simp only [ht] at hs
      cases ha : access t.list s.mem t.pc with
      | none => simp [ha] at hs
      | some r =>
        obtain ⟨m, pc, r⟩ := r
        simp only [ha] at hs
        cases hs
        have hcas : ∀ k o o', t.pc = .popCas k o o' → s.mem.get32 t.list.head = o →
            hasNext s.mem (t.list.regionStart + o) = true ∧
              nextOffset s.mem (t.list.regionStart + o) = o' := by
          intro k o o' hpc
          exact hok t ht (o, o') (by simp [Thread.cas, hpc])
        obtain ⟨Q', nx', h'⟩ := inv_access i (h.perm (cons_eraseIdx_perm ht) (.refl _)) hcas ha
        refine ⟨Q', nx', h'.perm (set_perm_cons ht _) ?_⟩
        cases r <;> exact .refl _
  | push i k =>
    simp only [next] at hs
    cases ht : s.threads[i]? with
    | none => simp [ht] at hs
    | some t =>
      cases hx : s.held[k]? with
      | none => simp [ht, hx] at hs
      | some x =>
        simp only [ht, hx] at hs
        split_ifs at hs with hidle
        cases hs
        obtain ⟨b, pc⟩ := t
        obtain rfl : pc = .idle := hidle.1
        exact ⟨Q, nx, (inv_call (h.perm (cons_eraseIdx_perm ht) (cons_eraseIdx_perm hx))).perm
          (set_perm_cons ht _) (.refl _)⟩
  | write k p v =>
    simp only [next] at hs
    cases hx : s.held[k]? with
    | none => simp [hx] at hs
    | some x =>
      simp only [hx] at hs
      split_ifs at hs with hp
      cases hs
      exact ⟨Q, nx, inv_write h (List.mem_of_getElem? hx) hp.1 hp.2⟩

end

/-- **Main theorem.** In every run as `CasOk` says, no slot is owned twice and the head
    is not an owned slot. -/
theorem owned_nodup_head_free (n cap off : ℕ) (m m0 : Mem) (b : BufferList)
    (hfit : off + 36 + n * (cap + 20) < 2 ^ 32)
    (hc : createFreeBufferList n cap m off = .ok (.ok (m0, b)))
    (s : State) (hs : (machine b m0).ReachableWhen CasOk s) :
    s.owned.Nodup ∧ b.bufferRegionOffsetInShm + s.mem.get32 b.head ∉ s.owned := by
  obtain ⟨rfl, hfree⟩ := created hfit hc
  have hb := createdList_listAt hfit
  obtain ⟨Q, nx, h⟩ := hs.invariant
    (fun s => ∃ Q nx, Inv off n cap s.mem s.threads s.held Q nx)
    (fun s hs => ⟨_, _, inv_init hb hfree hs rfl⟩)
    (fun s a t ⟨Q, nx, h⟩ hok hn => inv_step a h hok hn)
  refine ⟨(List.nodup_append.mp h.nodup).2.1, fun hmem => ?_⟩
  obtain ⟨o, -, ho, hoQ⟩ := h.owned_slot hmem
  rw [hb.head, hb.regionOffset] at ho
  exact hoQ (Nat.add_left_cancel ho ▸ List.mem_of_head? h.head)

/-- `k` accesses of thread `i`: 13 are a `pop` that succeeds at once, and 10 a `push`
    after its call. -/
def steps (i k : ℕ) : List Act := List.replicate k (.step i)

/-- The accesses of two threads that take turns. -/
def turnsRun : List Act :=
  steps 0 5 ++ steps 1 13 ++ steps 0 8 ++ [.push 0 0, .write 0 16 1] ++ steps 0 7 ++ steps 1 13 ++
    steps 0 3

def startState (threads : ℕ) (p : Mem × BufferList) : State :=
  ⟨p.1, List.replicate threads ⟨p.2, .idle⟩, []⟩

theorem startState_init (threads : ℕ) (p : Mem × BufferList) :
    (machine p.2 p.1).init (startState threads p) :=
  ⟨rfl, rfl, fun t ht => by rw [(List.mem_replicate.mp ht).2]; exact ⟨rfl, .inl rfl⟩⟩

theorem owned_nodup_head_free_turns : ∃ p s, zeroList 4 4 132 = some p ∧
    (machine p.2 p.1).ReachableWhen CasOk s ∧ s.held.map (·.slice.offsetInShm) = [84, 60] ∧
    s.owned.Nodup ∧ p.2.bufferRegionOffsetInShm + s.mem.get32 p.2.head ∉ s.owned := by
  have hok : ∀ p ∈ zeroList 4 4 132, (machine p.2 p.1).RunOk CasOk (startState 2 p) turnsRun := by
    decide +kernel
  obtain ⟨p, hp, hrun⟩ : ∃ p ∈ zeroList 4 4 132, ∃ s ∈ (machine p.2 p.1).run (startState 2 p) turnsRun,
      s.held.map (·.slice.offsetInShm) = [84, 60] := by decide +kernel
  obtain ⟨s, hs, hheld⟩ := (machine p.2 p.1).exists_reachableWhen_of_run CasOk (startState 2 p)
    turnsRun _ (startState_init 2 p) (hok p hp) hrun
  exact ⟨p, s, hp, hs, hheld,
    owned_nodup_head_free 4 4 0 _ _ _ (by norm_num) (create_of_zeroList hp) s hs⟩

/-- A thread reads the link of slot 0 and waits. The other one pops slots 0 and 1,
    pushes slot 0, pops and pushes slot 2 and pops slot 3, so that slot 0 is the head
    again, now with slot 2 behind it. The CAS of the first thread succeeds. -/
def abaRun : List Act :=
  steps 0 4 ++ steps 1 13 ++ steps 1 13 ++ [.push 1 1] ++ steps 1 10 ++ steps 1 13 ++ [.push 1 0] ++
    steps 1 10 ++ steps 1 13 ++ steps 0 1

/-- The second thread links slot 1, which it owns, to another slot and pushes slot 3;
    the first one pops slot 1. -/
def doubleRun : List Act :=
  abaRun ++ steps 0 8 ++ [.write 2 16 1, .push 1 1] ++ steps 1 10 ++ steps 0 13

/-- After `abaRun` the head is a slot that a caller holds, and after `doubleRun` two
    callers hold one slot. -/
theorem aba_breaks_head : ∃ p, zeroList 4 4 132 = some p ∧
    (∃ s, (machine p.2 p.1).Reachable s ∧
      p.2.bufferRegionOffsetInShm + s.mem.get32 p.2.head ∈ s.held.map (·.slice.offsetInShm)) ∧
    ∃ s, (machine p.2 p.1).Reachable s ∧ ¬ (s.held.map (·.slice.offsetInShm)).Nodup := by
  obtain ⟨p, hp, haba, hdouble⟩ : ∃ p ∈ zeroList 4 4 132,
      (∃ s ∈ (machine p.2 p.1).run (startState 2 p) abaRun,
        p.2.bufferRegionOffsetInShm + s.mem.get32 p.2.head ∈ s.held.map (·.slice.offsetInShm)) ∧
      ∃ s ∈ (machine p.2 p.1).run (startState 2 p) doubleRun,
        ¬ (s.held.map (·.slice.offsetInShm)).Nodup := by decide +kernel
  have hinit := startState_init 2 p
  exact ⟨p, hp, (machine p.2 p.1).exists_reachable_of_run _ abaRun _ hinit haba,
    (machine p.2 p.1).exists_reachable_of_run _ doubleRun _ hinit hdouble⟩

end Shmipc.Buffer.Concurrent
