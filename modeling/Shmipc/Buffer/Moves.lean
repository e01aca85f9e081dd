import Shmipc.Buffer.Content

/-!
# The moves of the readers

Whatever a reader does to a buffer, it does by four moves: it advances the read
index of the front slice, leaves the front slice behind (`readNextSlice`), pins it,
or changes `Len`. So a property of buffers that the four moves keep is kept by all
readers that return, for arguments of any size, and `Len` stays the sum of what the slices
have left to read (`readBytes_called`, …, `discard_called`).

* `ReadMoves.moved`: slots leave the buffer for its pinned list or for the free
  chains only, and a pinned slot stays.
-/

namespace Shmipc.Buffer

open Common

inductive ReadStep (bm : Manager) : Mem × LinkedBuffer → Mem × LinkedBuffer → Prop
  | advance {m : Mem} {l : LinkedBuffer} {s : BufferSlice} {rest : List BufferSlice} (k : ℤ) :
      l.slices = s :: rest → ReadStep bm (m, l) (m, l.setSlice 0 (s.advance k))
  | next {m m' : Mem} {l l' : LinkedBuffer} :
      l.readNextSlice bm m = .ok (m', l') → ReadStep bm (m, l) (m', l')
  | pin (m : Mem) (l : LinkedBuffer) : ReadStep bm (m, l) (m, { l with currentPinned := true })
  | count (m : Mem) (l : LinkedBuffer) (n : ℤ) : ReadStep bm (m, l) (m, { l with len := n })

def ReadMoves (bm : Manager) : Mem × LinkedBuffer → Mem × LinkedBuffer → Prop :=
  Relation.ReflTransGen (ReadStep bm)

/-! ## `Len` counts what the slices have left

Also after a call that leaves the indexes of a slice out of range (`Discard` of a negative
size takes read bytes back). -/

/-- What the slices have left to read. -/
def LinkedBuffer.total (l : LinkedBuffer) : ℤ := (l.slices.map (·.size)).sum

structure LinkedBuffer.Tally (l : LinkedBuffer) : Prop where
  nonneg : ∀ s ∈ l.slices, 0 ≤ s.size
  len : l.len = l.total

/-- `n` bytes are taken off the slices: from the front slice at most what it has left, and
    it is left behind when it has nothing left. -/
inductive Reads (bm : Manager) (p : Mem × LinkedBuffer) : ℤ → Mem × LinkedBuffer → Prop
  | refl : Reads bm p 0 p
  | advance {m : Mem} {l : LinkedBuffer} {s : BufferSlice} {rest : List BufferSlice} {n k : ℤ} :
      Reads bm p n (m, l) → l.slices = s :: rest → k ≤ s.size →
      Reads bm p (n + k) (m, l.setSlice 0 (s.advance k))
  | next {m m' : Mem} {l l' : LinkedBuffer} {s : BufferSlice} {rest : List BufferSlice} {n : ℤ} :
      Reads bm p n (m, l) → l.slices = s :: rest → s.size = 0 →
      l.readNextSlice bm m = .ok (m', l') → Reads bm p n (m', l')

structure Took (n : ℤ) (l l' : LinkedBuffer) : Prop where
  nonneg : (∀ s ∈ l.slices, 0 ≤ s.size) → ∀ s ∈ l'.slices, 0 ≤ s.size
  total : l'.total = l.total - n
  len : l'.len = l.len

/-- What a reader that returns has done. -/
structure Called (bm : Manager) (m : Mem) (l : LinkedBuffer) (m' : Mem) (l' : LinkedBuffer) :
    Prop where
  moves : ReadMoves bm (m, l) (m', l')
  tally : l.Tally → l'.Tally

section Reads

variable {bm : Manager} {p q r : Mem × LinkedBuffer} {m m' : Mem} {l l' l'' : LinkedBuffer}
  {s s' : BufferSlice} {rest : List BufferSlice} {n n' k size : ℤ} {bs : List UInt8}

theorem Reads.trans (h : Reads bm p n q) (h' : Reads bm q n' r) : Reads bm p (n + n') r := by
  induction h' with
  | refl => simpa using h
  | advance _ hs hk ih => exact add_assoc n _ _ ▸ ih.advance hs hk
  | next _ hs h0 hrun ih => exact ih.next hs h0 hrun

theorem Reads.moves (h : Reads bm p n q) : ReadMoves bm p q := by
  induction h with
  | refl => exact .refl
  | advance _ hs _ ih => exact ih.tail (.advance _ hs)
  | next _ _ _ hrun ih => exact ih.tail (.next hrun)

theorem Took.trans (h : Took n l l') (h' : Took n' l' l'') : Took (n + n') l l'' where
  nonneg hl := h'.nonneg (h.nonneg hl)
  total := by rw [h'.total, h.total]; ring
  len := h'.len.trans h.len

/-- `Len` is lowered by what was taken. -/
theorem Took.tally (h : Took n l l') (hl : l.Tally) {d : ℤ} (hd : d = l.len - n) :
    ({ l' with len := d } : LinkedBuffer).Tally where
  nonneg := h.nonneg hl.nonneg
  len := by
    show d = l'.total
    rw [hd, h.total, hl.len]

theorem total_cons (hs : l.slices = s :: rest) :
    l.total = s.size + (rest.map (·.size)).sum := by
  rw [LinkedBuffer.total, hs, List.map_cons, List.sum_cons]

theorem Took.advance (hs : l.slices = s :: rest) (hk : k ≤ s.size) :
    Took k l (l.setSlice 0 (s.advance k)) where
  nonneg hl t ht := by
    rw [setSlice_zero hs] at ht
    rcases List.mem_cons.mp ht with rfl | ht
    · rw [size_advance]
      omega
    · exact hl t (hs ▸ List.mem_cons_of_mem s ht)
  total := by
    rw [total_cons hs, total_cons (setSlice_zero hs), size_advance]
    ring
  len := rfl

theorem Took.next (hs : l.slices = s :: rest) (h0 : s.size = 0)
    (h : l.readNextSlice bm m = .ok (m', l')) : Took 0 l l' := by
  have hpop : l'.slices = rest ∧ l'.len = l.len := by
    obtain ⟨t, ht, h⟩ := Go.bind_ok.mp h
    have htail : l.popFront.slices = rest := by rw [LinkedBuffer.popFront, hs]; rfl
    simp only [] at h
    split_ifs at h
    · cases h
      exact ⟨htail, rfl⟩
    · obtain ⟨m1, -, h⟩ := Go.bind_ok.mp h
      cases h
      exact ⟨htail, rfl⟩
    · cases h
      exact ⟨htail, rfl⟩
  refine ⟨fun hl t ht => ?_, ?_, hpop.2⟩
  · rw [hpop.1] at ht
    exact hl t (hs ▸ List.mem_cons_of_mem s ht)
  · rw [total_cons hs, h0, LinkedBuffer.total, hpop.1]
    ring

theorem Reads.took (h : Reads bm p n q) : Took n p.2 q.2 := by
  induction h with
  | refl => exact ⟨id, by simp, rfl⟩
  | advance _ hs hk ih => exact ih.trans (.advance hs hk)
  | next _ hs h0 hrun ih => simpa using ih.trans (.next hs h0 hrun)

theorem Reads.len_eq (h : Reads bm (m, l) n (m', l')) : l'.len = l.len := h.took.len

theorem Called.refl : Called bm m l m l := ⟨.refl, id⟩

/-- A reader that sets `Len` by what it took. -/
theorem Reads.called (h : Reads bm (m, l) n (m', l')) {d : ℤ} (hd : l.Tally → d = l.len - n) :
    Called bm m l m' { l' with len := d } :=
  ⟨h.moves.tail (.count ..), fun hl => h.took.tally hl (hd hl)⟩

theorem advance_reads (bm : Manager) (m : Mem) (hs : l.slices = s :: rest) (hk : k ≤ s.size) :
    Reads bm (m, l) k (m, l.setSlice 0 (s.advance k)) := by
  simpa using Reads.advance .refl hs hk

theorem front_inv (h : l.front = .ok s) : ∃ rest, l.slices = s :: rest := by
  unfold LinkedBuffer.front at h
  split at h
  · cases h
  · cases h
    exact ⟨_, by assumption⟩

theorem sub_length {d : Data} {lo hi : ℤ} (h : d.sub m lo hi = .ok bs) :
    (bs.length : ℤ) = hi - lo := by
  unfold Data.sub at h
  split_ifs at h with hb
  cases d with
  | shm a len =>
    cases h
    rw [Mem.length_read]
    omega
  | heap data =>
    cases h
    have hcap : hi ≤ data.length := hb.2.2
    rw [List.length_take, List.length_drop]
    omega

theorem read_length {enough : Bool} (h : s.read m size = .ok (bs, s', enough)) :
    s' = s.advance bs.length ∧ (bs.length : ℤ) = min size s.size ∧
      (enough = true ↔ size ≤ s.size) := by
  unfold BufferSlice.read at h
  simp only [Except.map] at h
  split at h
  · cases h
  rename_i data hsub
  cases h
  have hlen := sub_length hsub
  have hn : (bs.length : ℤ) = if s.size < size then s.size else size := by omega
  refine ⟨?_, ?_, decide_eq_true_iff⟩
  · rw [hn]
    rfl
  · split_ifs at hn <;> omega

/-- Reading from the front slice takes what is returned off the buffer. -/
theorem read_reads (bm : Manager) {enough : Bool} (hs : l.slices = s :: rest)
    (hread : s.read m size = .ok (bs, s', enough)) :
    Reads bm (m, l) bs.length (m, l.setSlice 0 s') ∧ s'.size = s.size - bs.length := by
  obtain ⟨rfl, hlen, -⟩ := read_length hread
  exact ⟨advance_reads bm m hs (by omega), size_advance ..⟩

theorem skipExhausted_reads (h : l.skipExhausted bm m = .ok (m', l')) :
    Reads bm (m, l) 0 (m', l') := by
  obtain ⟨s, hfront, h⟩ := Go.bind_ok.mp h
  obtain ⟨rest, hs⟩ := front_inv hfront
  split_ifs at h with h0
  · exact .next .refl hs h0 h
  · cases h
    exact .refl

/-! ## The readers -/

theorem readIntoLoop_reads : ∀ (k : ℕ) (m : Mem) (l : LinkedBuffer) (size : ℤ) (bs : List UInt8),
    LinkedBuffer.readIntoLoop bm k m l size = .ok (m', l', bs) →
    Reads bm (m, l) bs.length (m', l') := by
  intro k
  induction k with
  | zero => intro m l size bs h; cases h
  | succ k ih =>
    intro m l size bs h
    rw [LinkedBuffer.readIntoLoop] at h
    split at h
    · cases h
      exact .refl
    · rename_i front rest hs
      split_ifs at h
      · obtain ⟨⟨b, s', enough⟩, hread, h⟩ := Go.bind_ok.mp h
        obtain ⟨-, hlen, henough⟩ := read_length hread
        obtain ⟨hb, hsize'⟩ := read_reads bm hs hread
        simp only [] at h
        split_ifs at h with he
        · cases h
          exact hb
        · obtain ⟨⟨m1, l1⟩, hnext, h⟩ := Go.bind_ok.mp h
          obtain ⟨⟨m2, l2, bs2⟩, hrun, h⟩ := Go.bind_ok.mp h
          cases h
          rw [henough] at he
          rw [List.length_append, Nat.cast_add]
          exact (hb.next (setSlice_zero hs) (by omega) hnext).trans (ih _ _ _ _ hrun)
      · cases h
        exact .refl

theorem read_called {size : ℕ} (h : l.read bm m size = .ok (m', l', bs)) :
    Called bm m l m' l' := by
  unfold LinkedBuffer.read at h
  split_ifs at h
  · cases h
    exact .refl
  · obtain ⟨⟨m1, l1, bs1⟩, hrun, h⟩ := Go.bind_ok.mp h
    cases h
    have hr := readIntoLoop_reads _ _ _ _ _ hrun
    exact hr.called fun _ => by rw [hr.len_eq]

theorem readByte_called {b : UInt8} (h : l.readByte bm m = .ok (m', l', b)) :
    Called bm m l m' l' := by
  obtain ⟨s, hfront, h⟩ := Go.bind_ok.mp h
  obtain ⟨rest, hs⟩ := front_inv hfront
  obtain ⟨⟨r, s', enough⟩, hread, h⟩ := Go.bind_ok.mp h
  obtain ⟨-, hlen, henough⟩ := read_length hread
  obtain ⟨hr, hsize'⟩ := read_reads bm hs hread
  simp only [] at h
  split_ifs at h with he
  · split at h
    · cases h
    · cases h
      rw [henough] at he
      exact hr.called fun _ => by rw [hr.len_eq]; omega
  · obtain ⟨⟨m1, l1⟩, hnext, h⟩ := Go.bind_ok.mp h
    rw [henough] at he
    obtain ⟨s1, hfront1, h⟩ := Go.bind_ok.mp h
    obtain ⟨rest1, hs1⟩ := front_inv hfront1
    obtain ⟨⟨r1, s1', enough1⟩, hread1, h⟩ := Go.bind_ok.mp h
    obtain ⟨-, hlen1, -⟩ := read_length hread1
    have hr1 := (hr.next (setSlice_zero hs) (by omega) hnext).trans (read_reads bm hs1 hread1).1
    simp only [] at h
    split at h
    · cases h
    · cases h
      refine hr1.called fun hl => ?_
      have hfront0 := hl.nonneg s (hs ▸ List.mem_cons_self)
      rw [show (l1.setSlice 0 s1').len = l.len from hr1.len_eq]
      rw [List.length_cons] at hlen1 ⊢
      omega

theorem readBytesLoop_reads : ∀ (k : ℕ) (m : Mem) (l : LinkedBuffer) (size : ℤ) (bs : List UInt8),
    0 ≤ size → LinkedBuffer.readBytesLoop bm k m l size = .ok (m', l', bs) →
    Reads bm (m, l) size (m', l') := by
  intro k
  induction k with
  | zero => intro m l size bs _ h; cases h
  | succ k ih =>
    intro m l size bs h0 h
    rw [LinkedBuffer.readBytesLoop] at h
    split_ifs at h with hsize
    · obtain ⟨s, hfront, h⟩ := Go.bind_ok.mp h
      obtain ⟨⟨readData, s', enough⟩, hread, h⟩ := Go.bind_ok.mp h
      obtain ⟨rest, hs⟩ := front_inv hfront
      obtain ⟨-, hlen, -⟩ := read_length hread
      obtain ⟨hr, hsize'⟩ := read_reads bm hs hread
      simp only [] at h
      rw [show size = readData.length + (size - readData.length) by ring]
      -- the slice is left behind, or it had enough
      split_ifs at h with hne
      · obtain ⟨⟨m1, l1⟩, hnext, h⟩ := Go.bind_ok.mp h
        obtain ⟨⟨m2, l2, bs2⟩, hrun, h⟩ := Go.bind_ok.mp h
        cases h
        exact (hr.next (setSlice_zero hs) (by omega) hnext).trans (ih _ _ _ _ (by omega) hrun)
      · obtain ⟨⟨m1, l1⟩, heq, h⟩ := Go.bind_ok.mp h
        cases heq
        obtain ⟨⟨m2, l2, bs2⟩, hrun, h⟩ := Go.bind_ok.mp h
        cases h
        exact hr.trans (ih _ _ _ _ (by omega) hrun)
    · cases h
      rw [show size = 0 by omega]
      exact .refl

theorem readBytes_called {r : LinkedBuffer.Lent} (h : l.readBytes bm m size = .ok (m', l', r)) :
    Called bm m l m' l' := by
  unfold LinkedBuffer.readBytes at h
  split_ifs at h with hsize
  · cases h
    exact .refl
  obtain ⟨⟨m1, l1⟩, hskip, h⟩ := Go.bind_ok.mp h
  have hskip := skipExhausted_reads hskip
  obtain ⟨s, hfront, h⟩ := Go.bind_ok.mp h
  obtain ⟨rest, hs⟩ := front_inv hfront
  split at h
  · obtain ⟨⟨bs, s', enough⟩, hread, h⟩ := Go.bind_ok.mp h
    obtain ⟨-, hlen, -⟩ := read_length hread
    have hr := hskip.trans (read_reads bm hs hread).1
    cases h
    have hc := hr.called (d := l1.len - size) fun _ => by rw [hskip.len_eq]; omega
    exact ⟨hc.moves.tail (.pin ..), fun hl => ⟨(hc.tally hl).nonneg, (hc.tally hl).len⟩⟩
  · obtain ⟨⟨m2, l2, bs⟩, hrun, h⟩ := Go.bind_ok.mp h
    cases h
    have hr := readBytesLoop_reads _ _ _ _ _ (by omega) hrun
    refine ⟨(hskip.moves.tail (.count _ _ (l1.len - size))).trans hr.moves, fun hl => ?_⟩
    -- `Len` is lowered before the loop
    have htook : Took size l1 { l' with len := l1.len } := ⟨hr.took.nonneg, hr.took.total, rfl⟩
    exact (hskip.took.trans htook).tally hl (d := l'.len) (by rw [hr.len_eq, ← hskip.len_eq]; ring)

theorem readStringLoop_reads : ∀ (k : ℕ) (m : Mem) (l : LinkedBuffer) (size : ℤ) (bs : List UInt8),
    0 ≤ size → LinkedBuffer.readStringLoop bm k m l size = .ok (m', l', bs) →
    Reads bm (m, l) size (m', l') := by
  intro k
  induction k with
  | zero => intro m l size bs _ h; cases h
  | succ k ih =>
    intro m l size bs h0 h
    rw [LinkedBuffer.readStringLoop] at h
    split_ifs at h with hsize
    · obtain ⟨⟨m1, l1⟩, hskip, h⟩ := Go.bind_ok.mp h
      obtain ⟨s, hfront, h⟩ := Go.bind_ok.mp h
      obtain ⟨⟨readData, s', enough⟩, hread, h⟩ := Go.bind_ok.mp h
      obtain ⟨rest, hs⟩ := front_inv hfront
      obtain ⟨-, hlen, -⟩ := read_length hread
      obtain ⟨⟨m2, l2, bs2⟩, hrun, h⟩ := Go.bind_ok.mp h
      cases h
      have hr := ((skipExhausted_reads hskip).trans (read_reads bm hs hread).1).trans
        (ih _ _ _ _ (by omega) hrun)
      rwa [zero_add, add_sub_cancel] at hr
    · cases h
      rw [show size = 0 by omega]
      exact .refl

theorem readString_called (h : l.readString bm m size = .ok (m', l', bs)) :
    Called bm m l m' l' := by
  unfold LinkedBuffer.readString at h
  split_ifs at h with hsize
  · cases h
    exact .refl
  obtain ⟨s, hfront, h⟩ := Go.bind_ok.mp h
  obtain ⟨rest, hs⟩ := front_inv hfront
  split at h
  · obtain ⟨⟨data, s', enough⟩, hread, h⟩ := Go.bind_ok.mp h
    obtain ⟨-, hlen, -⟩ := read_length hread
    cases h
    exact (read_reads bm hs hread).1.called fun _ => by omega
  · obtain ⟨⟨m1, l1, bs1⟩, hrun, h⟩ := Go.bind_ok.mp h
    cases h
    have hr := readStringLoop_reads _ _ _ _ _ (by omega) hrun
    exact hr.called fun _ => by rw [hr.len_eq]

theorem peek_called {r : LinkedBuffer.Lent} (h : l.peek m size = .ok (l', r)) :
    Called bm m l m l' := by
  unfold LinkedBuffer.peek at h
  split_ifs at h
  · cases h
    exact .refl
  obtain ⟨s, -, h⟩ := Go.bind_ok.mp h
  obtain ⟨bs, -, h⟩ := Go.bind_ok.mp h
  split at h
  · cases h
    exact ⟨.single (.pin ..), fun hl => ⟨hl.nonneg, hl.len⟩⟩
  · obtain ⟨bs2, -, h⟩ := Go.bind_ok.mp h
    cases h
    exact .refl

theorem discardLoop_reads : ∀ (k : ℕ) (m : Mem) (l : LinkedBuffer) (size n : ℤ),
    LinkedBuffer.discardLoop bm k m l size = .ok (m', l', n) → Reads bm (m, l) n (m', l') := by
  intro k
  induction k with
  | zero => intro m l size n h; cases h
  | succ k ih =>
    intro m l size n h
    rw [LinkedBuffer.discardLoop] at h
    obtain ⟨s, hfront, h⟩ := Go.bind_ok.mp h
    obtain ⟨rest, hs⟩ := front_inv hfront
    simp only [skip_eq] at h
    have hr := advance_reads bm m hs (min_le_right size s.size)
    split_ifs at h with hall
    · cases h
      exact hr
    · obtain ⟨⟨m1, l1⟩, hnext, h⟩ := Go.bind_ok.mp h
      obtain ⟨⟨m2, l2, n2⟩, hrun, h⟩ := Go.bind_ok.mp h
      cases h
      have h0 : (s.advance (min size s.size)).size = 0 := by
        rw [size_advance]
        omega
      exact (hr.next (setSlice_zero hs) h0 hnext).trans (ih _ _ _ _ hrun)

theorem discard_called (h : l.discard bm m size = .ok (m', l', n)) : Called bm m l m' l' := by
  obtain ⟨⟨m1, l1, n1⟩, hrun, h⟩ := Go.bind_ok.mp h
  cases h
  have hr := discardLoop_reads _ _ _ _ _ hrun
  exact hr.called fun _ => by rw [hr.len_eq]

end Reads

/-! ## What the moves keep -/

/-- The cursor stands at the back, where `appendBufferSlice` puts it. -/
def LinkedBuffer.AtBack (l : LinkedBuffer) : Prop :=
  l.slices ≠ [] → l.writeSlice = .at (l.slices.length - 1)

/-- Slot `a` is in the pinned list, or at the front and marked as pinned. -/
def LinkedBuffer.Pins (l : LinkedBuffer) (a : ℕ) : Prop :=
  a ∈ slotsOf l.pinnedList ∨ (l.currentPinned = true ∧ ∃ s, l.slices.head? = some s ∧
    s.header = some a)

structure Moved (cs : List SizeClass) (others free : List ℕ) (m : Mem) (l : LinkedBuffer)
    (m' : Mem) (l' : LinkedBuffer) (free' : List ℕ) : Prop where
  owns : Owns cs m' l' others free'
  keeps : Keeps cs (slotsOf l.slices ++ free) m m'
  freed : ∀ a ∈ free', a ∈ slotsOf l.slices ++ free
  headers : l'.slices.map (·.header) <:+ l.slices.map (·.header)
  isFromShm : l'.isFromShm = l.isFromShm
  atBack : l.AtBack → l'.AtBack
  pins : ∀ a, l.Pins a → l'.Pins a

section Moved

variable {cs : List SizeClass} {bm : Manager} {m m' m'' : Mem} {l l' l'' : LinkedBuffer}
  {s : BufferSlice} {rest : List BufferSlice} {others free free' free'' : List ℕ}

theorem slotsOf_eq_reduceOption (ss : List BufferSlice) :
    slotsOf ss = (ss.map (·.header)).reduceOption := by
  show slotsOf ss = (ss.map (·.header)).filterMap id
  rw [slotsOf, List.filterMap_map]
  rfl

theorem Moved.slots_subset (h : Moved cs others free m l m' l' free') :
    ∀ a ∈ slotsOf l'.slices, a ∈ slotsOf l.slices := by
  rw [slotsOf_eq_reduceOption, slotsOf_eq_reduceOption]
  exact (h.headers.filterMap _).subset

theorem Moved.trans (h : Moved cs others free m l m' l' free')
    (h' : Moved cs others free' m' l' m'' l'' free'') :
    Moved cs others free m l m'' l'' free'' := by
  have hsub : ∀ a ∈ slotsOf l'.slices ++ free', a ∈ slotsOf l.slices ++ free := fun a ha =>
    (List.mem_append.mp ha).elim (fun ha => List.mem_append_left _ (h.slots_subset a ha)) (h.freed a)
  exact ⟨h'.owns, h.keeps.trans h'.keeps hsub, fun a ha => hsub a (h'.freed a ha),
    h'.headers.trans h.headers, h'.isFromShm.trans h.isFromShm, fun hb => h'.atBack (h.atBack hb),
    fun a ha => h'.pins a (h.pins a ha)⟩

/-- A change that leaves the slots where they are. -/
theorem Owns.moved_same (h : Owns cs m l others free) (hs : l'.slices = l.slices)
    (hp : l'.pinnedList = l.pinnedList) (hf : l'.isFromShm = l.isFromShm)
    (hw : l'.writeSlice = l.writeSlice) (hc : l.currentPinned = true → l'.currentPinned = true) :
    Moved cs others free m l m l' free where
  owns := ⟨h.layout, h.heap, hs ▸ h.slices, hp ▸ h.pinned, by rw [hs, hp]; exact h.all⟩
  keeps := Keeps.refl ..
  freed _ ha := List.mem_append_right _ ha
  headers := by rw [hs]
  isFromShm := hf
  atBack hb hne := by rw [hw, hs]; exact hb (hs ▸ hne)
  pins a := by
    unfold LinkedBuffer.Pins
    rw [hp, hs]
    exact Or.imp_right fun ⟨h1, h2⟩ => ⟨hc h1, h2⟩

theorem Owns.moved_advance (h : Owns cs m l others free) (hs : l.slices = s :: rest) (k : ℤ) :
    Moved cs others free m l m (l.setSlice 0 (s.advance k)) free where
  owns := h.setFront hs ((h.slices s (hs ▸ List.mem_cons_self)).advance k) rfl
  keeps := Keeps.refl ..
  freed _ ha := List.mem_append_right _ ha
  headers := by rw [setSlice_zero hs, hs]; exact List.suffix_refl _
  isFromShm := rfl
  atBack hb _ := by
    rw [setSlice_zero hs]
    have := hb (by rw [hs]; simp)
    rwa [hs] at this
  pins a := by
    unfold LinkedBuffer.Pins
    rw [setSlice_zero hs, hs]
    simp [LinkedBuffer.setSlice, BufferSlice.advance]

theorem Owns.moved_next (hM : ManagerOk cs bm) (h : Owns cs m l others free)
    (hrun : l.readNextSlice bm m = .ok (m', l')) : ∃ free', Moved cs others free m l m' l' free' := by
  obtain ⟨s, hfront, -⟩ := Go.bind_ok.mp hrun
  obtain ⟨rest, hs⟩ := front_inv hfront
  obtain ⟨m1, l1, free', hrun', howns, hkeep, hrest, hpin, hcur, hw, hlen, hf⟩ :=
    readNextSlice_spec hM h hs
  rw [hrun] at hrun'
  cases hrun'
  have hslots : slotsOf l.slices = slotsOf [s] ++ slotsOf rest := by
    rw [hs, ← slotsOf_append]; rfl
  have hnd := howns.all.trans h.all.symm
  refine ⟨free', howns, hkeep.mono ?_, ?_, ?_, hf, ?_, ?_⟩
  · intro a ha
    simp only [hslots, List.mem_append] at ha ⊢
    tauto
  · -- a slot that is free now and was not is the front one
    intro a ha
    by_contra hnot
    have hin : a ∈ slotsOf l.slices ++ (slotsOf l.pinnedList ++ (others ++ free)) :=
      hnd.mem_iff.mp (by simp [ha])
    have hnd' := howns.nodup
    rw [hpin, slotsOf_append] at hnd'
    simp only [List.nodup_append, List.mem_append] at hnd' hin hnot
    grind
  · rw [hrest, hs]
    exact List.suffix_cons ..
  · intro hb hne
    rw [hrest] at hne ⊢
    rw [hw, LinkedBuffer.popFront]
    have := hb (by rw [hs]; simp)
    rw [hs, List.length_cons] at this
    obtain ⟨n, hn⟩ := Nat.exists_eq_succ_of_ne_zero
      (show rest.length ≠ 0 from fun h0 => hne (List.eq_nil_of_length_eq_zero h0))
    simp only [hn] at this ⊢
    simp only [this]
    rfl
  · rintro a (ha | ⟨hc, s', hs', ha⟩)
    · refine .inl ?_
      rw [hpin, slotsOf_append]
      exact List.mem_append_left _ ha
    · refine .inl ?_
      rw [hs, List.head?_cons] at hs'
      cases hs'
      have hshm : s.isFromShm = true := by
        rcases h.slices s (hs ▸ List.mem_cons_self) with hok | hok
        · exact hok.isFromShm
        · rw [hok.header] at ha
          cases ha
      rw [hpin, if_pos ⟨hshm, hc⟩, slotsOf_append]
      exact List.mem_append_right _ (mem_slotsOf (List.mem_singleton_self s) ha)

theorem ReadMoves.moved (hM : ManagerOk cs bm) {p q : Mem × LinkedBuffer} (hmv : ReadMoves bm p q)
    (h : Owns cs p.1 p.2 others free) : ∃ free', Moved cs others free p.1 p.2 q.1 q.2 free' := by
  induction hmv with
  | refl => exact ⟨free, h.moved_same rfl rfl rfl rfl id⟩
  | @tail b c _ hstep ih =>
    obtain ⟨free1, h1⟩ := ih
    have hlast : ∃ free', Moved cs others free1 b.1 b.2 c.1 c.2 free' := by
      cases hstep with
      | advance k hs => exact ⟨free1, h1.owns.moved_advance hs k⟩
      | next hrun => exact h1.owns.moved_next hM hrun
      | pin m l => exact ⟨free1, h1.owns.moved_same rfl rfl rfl rfl fun _ => rfl⟩
      | count m l n => exact ⟨free1, h1.owns.moved_same rfl rfl rfl rfl id⟩
    obtain ⟨free', h2⟩ := hlast
    exact ⟨free', h1.trans h2⟩

end Moved

end Shmipc.Buffer
