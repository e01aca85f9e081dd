import Shmipc.Buffer.Receive
import Shmipc.Buffer.Writer
import Shmipc.Protocol.Event

/-!
# Sending a linked buffer

`Stream.Flush` (stream.go:199-254) hands the written bytes over: as a chain of slots
through the queue, or as one frame through the socket (`writeFallback`,
stream.go:256-271). The slots go to the queue or back to the free lists.

* `done_spec`: the headers after `done` describe the message.
* `underlyingData_eq`: the fallback route reads the same bytes.
* `flush_spec`: `Flush` with each of its outcomes.
-/

namespace Shmipc.Buffer

open Common

/-! ## `done` -/

section Done

variable {cs : List SizeClass} {bm : Manager} {m m' : Mem} {l : LinkedBuffer} {s : BufferSlice}
  {others free : List ℕ}

/-- The header of a slot after `update`. -/
structure Updated (m : Mem) (s : BufferSlice) (next : Option ℕ) (m' : Mem) : Prop where
  len : m'.len = m.len
  frame : ∀ lo hi, hi ≤ s.offsetInShm + 4 ∨ s.offsetInShm + 20 ≤ lo → m.SameOn m' lo hi
  size : (m'.get32 (s.offsetInShm + 4) : ℤ) = s.size
  start : m'.get32 (s.offsetInShm + 8) = 0
  next : nextSlot m' s.offsetInShm = next

theorem update_updated (hs : ShmSlice cs s) (h0 : 0 ≤ s.size) (hsize : s.size < 2 ^ 32)
    (hflag : hasNext m s.offsetInShm = false) {next : Option ℕ}
    (hnext : ∀ o, next = some o → o < 2 ^ 32) : Updated m s next (s.update m next) := by
  have hlt : ofInt32 s.size < 2 ^ 32 := by unfold ofInt32; omega
  have hof : (ofInt32 s.size : ℤ) = s.size := by unfold ofInt32; omega
  generalize hm1 : (m.set32 (s.offsetInShm + 4) (ofInt32 s.size)).set32 (s.offsetInShm + 8) 0 = m1
  have hframe : ∀ lo hi, hi ≤ s.offsetInShm + 4 ∨ s.offsetInShm + 12 ≤ lo → m.SameOn m1 lo hi := by
    intro lo hi hr
    rw [← hm1]
    exact (Mem.set32_sameOn (by omega)).trans (Mem.set32_sameOn (by omega))
  have hword : m1.get32 (s.offsetInShm + 4) = ofInt32 s.size ∧ m1.get32 (s.offsetInShm + 8) = 0 := by
    rw [← hm1]
    refine ⟨?_, Mem.get32_set32_of_lt (by norm_num)⟩
    rw [Mem.get32_congr (Mem.set32_sameOn (by omega)), Mem.get32_set32_of_lt hlt]
  have hlen : m1.len = m.len := by rw [← hm1]; rfl
  cases next with
  | none =>
    have hup : s.update m none = m1 := by
      rw [BufferSlice.update, hs.header, hs.start]
      exact hm1
    rw [hup]
    refine ⟨hlen, fun lo hi hr => hframe lo hi (by omega), ?_, hword.2, ?_⟩
    · rw [hword.1, hof]
    · have : hasNext m1 s.offsetInShm = false := (hasNext_congr (hframe _ _ (by omega))).trans hflag
      simp [nextSlot, this]
  | some o =>
    have hup : s.update m (some o) = linkNext m1 s.offsetInShm o := by
      rw [BufferSlice.update, hs.header, hs.start]
      exact congrArg (linkNext · s.offsetInShm o) hm1
    rw [hup]
    refine ⟨hlen, fun lo hi hr => (hframe lo hi (by omega)).trans (linkNext_sameOn (by omega)),
      ?_, ?_, ?_⟩
    · rw [Mem.get32_congr (linkNext_sameOn (by omega)), hword.1, hof]
    · rw [Mem.get32_congr (linkNext_sameOn (by omega)), hword.2]
    · rw [nextSlot, hasNext_linkNext, if_pos rfl, nextOffset_linkNext (hnext o rfl)]

theorem slotsOf_eq_map {ss : List BufferSlice} (h : ∀ s ∈ ss, ShmSlice cs s) :
    slotsOf ss = ss.map (·.offsetInShm) := by
  induction ss with
  | nil => rfl
  | cons s ss ih =>
    rw [List.forall_mem_cons] at h
    rw [slotsOf_cons_shm h.1, ih h.2, List.map_cons]

/-- A slice that can be sent: a slot, with nothing read from it. -/
structure Sendable (cs : List SizeClass) (s : BufferSlice) : Prop where
  shm : ShmSlice cs s
  bounds : InBounds s
  readIndex : s.readIndex = 0

theorem Sendable.size_le (h : Sendable cs s) : 0 ≤ s.size ∧ s.size ≤ s.cap := by
  have h1 := h.bounds.ordered
  have h2 := h.bounds.fits
  rw [h.shm.data, Data.len] at h2
  have := h.readIndex
  unfold BufferSlice.size
  omega

/-- The headers of all slices, each linked to the following one. -/
structure Linked (cs : List SizeClass) (m : Mem) (ss : List BufferSlice) (m' : Mem) : Prop where
  keeps : Keeps cs (slotsOf ss) m m'
  data : KeepsData cs [] m m'
  heap : ∀ free, Heap cs m free → (∀ a ∈ slotsOf ss, a ∉ free) → Heap cs m' free
  chain : ChainAt cs m' (slotsOf ss)
  bytes : msgBytes m' (slotsOf ss) = ss.flatMap (·.bytes m)

theorem Updated.keeps {next : Option ℕ} (h : Updated m s next m') (hs : ShmSlice cs s)
    (hL : Layout cs m.len) : Keeps cs [s.offsetInShm] m m' ∧ KeepsData cs [] m m' := by
  have hkeep : Keeps cs [s.offsetInShm] m m' :=
    Keeps.write hL hs.slot h.len fun lo hi hr => h.frame lo hi (by omega)
  refine ⟨hkeep, h.len, fun b cap hb _ => ?_⟩
  rcases eq_or_ne b s.offsetInShm with rfl | hne
  · exact h.frame _ _ (by omega)
  · exact (hkeep.slot b cap hb (by simpa using hne)).mono (by omega) le_rfl

/-- The headers of the slices, each linked to the following one and the last one to `next`. -/
structure LinkedTo (cs : List SizeClass) (m : Mem) (ss : List BufferSlice) (next : Option ℕ)
    (m' : Mem) : Prop where
  keeps : Keeps cs (slotsOf ss) m m'
  data : KeepsData cs [] m m'
  heap : ∀ free, Heap cs m free → (∀ a ∈ slotsOf ss, a ∉ free) → Heap cs m' free
  links : ChainTo (nextSlot m') next (slotsOf ss)
  sizes : ∀ s ∈ ss, m'.get32 (s.offsetInShm + 4) = s.size.toNat
  starts : ∀ s ∈ ss, m'.get32 (s.offsetInShm + 8) = 0

/-- The loop of `done` fills in and links the headers of the slices up to the cursor; `later`
    are the slices behind it. -/
theorem updateSlices_linkedTo (later : List BufferSlice)
    (hlater : ∀ t ∈ later.head?, ShmSlice cs t) : ∀ (ss : List BufferSlice) {m : Mem},
    Layout cs m.len → (∀ s ∈ ss, Sendable cs s) → (slotsOf ss).Nodup →
    (∀ a ∈ slotsOf ss, hasNext m a = false) →
    LinkedTo cs m ss (later.head?.map (·.offsetInShm))
      (LinkedBuffer.updateSlices ss.length (ss ++ later) m) := by
  intro ss
  induction ss with
  | nil =>
    intro m _ _ _ _
    exact ⟨Keeps.refl .., (Keeps.refl ..).data, fun _ h _ => h, trivial, nofun, nofun⟩
  | cons s ss ih =>
    intro m hL hss hnd hflag
    rw [List.forall_mem_cons] at hss
    obtain ⟨hs, hss⟩ := hss
    have hslots := slotsOf_eq_map fun t ht => (hss t ht).shm
    rw [slotsOf_cons_shm hs.shm] at hnd hflag
    obtain ⟨hnot, hnd⟩ := List.nodup_cons.mp hnd
    rw [List.forall_mem_cons] at hflag
    have hsz := hs.size_le
    have hsmall := hs.shm.slot.bounds hL
    have hmem := hL.small
    have hnext : ∀ o, (ss ++ later).head?.map (·.offsetInShm) = some o → o < 2 ^ 32 := by
      intro o ho
      obtain ⟨t, ht, rfl⟩ := Option.map_eq_some_iff.mp ho
      have hshm : ShmSlice cs t := by
        cases ss with
        | nil => exact hlater t ht
        | cons u ss => exact (hss t (List.mem_of_mem_head? ht)).shm
      have := hshm.slot.bounds hL
      omega
    have hup := update_updated hs.shm hsz.1 (by omega) hflag.1 hnext
    generalize hm1 : s.update m ((ss ++ later).head?.map (·.offsetInShm)) = m1 at hup
    obtain ⟨hk1, hd1⟩ := hup.keeps hs.shm hL
    have hrest := ih (hup.len ▸ hL) hss hnd fun a ha => by
      obtain ⟨t, ht, hta⟩ := List.mem_filterMap.mp ha
      have hslot := (hss t ht).shm
      rw [hslot.header] at hta
      cases hta
      have hsame := hk1.slot _ _ hslot.slot (by
        rw [List.mem_singleton]
        rintro he
        exact hnot (he ▸ ha))
      exact (hasNext_congr (hsame.mono (by omega) (by omega))).trans (hflag.2 _ ha)
    rw [List.length_cons, List.cons_append, LinkedBuffer.updateSlices, hm1]
    generalize LinkedBuffer.updateSlices ss.length (ss ++ later) m1 = m2 at hrest
    -- the rest of the loop leaves the first slot alone
    have hsame := hrest.keeps.slot _ _ hs.shm.slot hnot
    have hget : ∀ k, k + 4 ≤ 20 → m2.get32 (s.offsetInShm + k) = m1.get32 (s.offsetInShm + k) :=
      fun k hk => Mem.get32_congr (hsame.mono (by omega) (by omega))
    refine ⟨?_, hd1.trans hrest.data (by simp), ?_, ?_, ?_, ?_⟩
    · rw [slotsOf_cons_shm hs.shm]
      exact (hk1.mono fun a ha => by rw [List.mem_singleton.mp ha]; simp).trans hrest.keeps
        fun a ha => List.mem_cons_of_mem _ ha
    · intro free hheap hfree
      rw [slotsOf_cons_shm hs.shm, List.forall_mem_cons] at hfree
      exact hrest.heap free (hheap.write hL hs.shm.slot hfree.1 hup.len fun lo hi hr =>
        hup.frame lo hi (by omega)) hfree.2
    · rw [slotsOf_cons_shm hs.shm]
      refine chainTo_cons.mpr ⟨?_, hrest.links⟩
      rw [nextSlot, hasNext_congr (hsame.mono (by omega) (by omega)),
        nextOffset_congr (hsame.mono (by omega) (by omega)), hslots, List.head?_map]
      refine hup.next.trans ?_
      cases ss <;> rfl
    · refine List.forall_mem_cons.mpr ⟨?_, hrest.sizes⟩
      rw [hget 4 (by omega)]
      have := hup.size
      omega
    · refine List.forall_mem_cons.mpr ⟨?_, hrest.starts⟩
      rw [hget 8 (by omega), hup.start]

/-- A published slice has the bytes that were written. -/
theorem LinkedTo.read {ss : List BufferSlice} {next : Option ℕ} (h : LinkedTo cs m ss next m')
    (hss : ∀ s ∈ ss, Sendable cs s) (hmem : s ∈ ss) :
    m'.read (s.offsetInShm + 20) (m'.get32 (s.offsetInShm + 4)) = s.bytes m := by
  have hs := hss s hmem
  have hsz := hs.size_le
  have hk := h.data.slot _ _ hs.shm.slot (by simp)
  rw [h.sizes s hmem, Mem.read_congr (hk.mono le_rfl (by omega)), BufferSlice.bytes, hs.shm.data,
    hs.readIndex]
  rfl

/-- The loop of `done` with nothing behind the cursor. -/
theorem updateSlices_linked (hL : Layout cs m.len) (ss : List BufferSlice)
    (hss : ∀ s ∈ ss, Sendable cs s) (hnd : (slotsOf ss).Nodup)
    (hflag : ∀ a ∈ slotsOf ss, hasNext m a = false) :
    Linked cs m ss (LinkedBuffer.updateSlices ss.length ss m) := by
  have h := updateSlices_linkedTo [] (by simp) ss hL hss hnd hflag
  rw [List.append_nil] at h
  have hslots := slotsOf_eq_map fun s hs => (hss s hs).shm
  refine ⟨h.keeps, h.data, h.heap, ⟨chainTo_none.mp h.links, ?_⟩, ?_⟩
  · rw [hslots, List.forall_mem_map]
    intro s hs
    have hsz := (hss s hs).size_le
    exact ⟨s.cap, (hss s hs).shm.slot, h.starts s hs, by rw [h.sizes s hs]; omega⟩
  · rw [hslots, msgBytes, List.flatMap_map]
    exact List.flatMap_congr fun s hs => h.read hss hs

theorem SendOk.sendable (h : SendOk cs m l others free) (hf : l.isFromShm = true) :
    ∀ s ∈ l.slices, Sendable cs s := fun s hs => ⟨h.shm hf s hs, h.bounds s hs, h.start s hs⟩

/-- The slots of a buffer are not free. -/
theorem Owns.not_free (h : Owns cs m l others free) : ∀ a ∈ slotsOf l.slices, a ∉ free := by
  intro a ha hfree
  have hnd := h.nodup
  exact (List.nodup_append.mp hnd).2.2 a ha a (by simp [hfree]) rfl

/-- **`done`** of a buffer in shared memory. -/
theorem done_spec (bm : Manager) (h : SendOk cs m l others free) (hf : l.isFromShm = true)
    (hne : l.slices ≠ []) :
    ∃ m', l.done bm m = .ok (m', l) ∧ Linked cs m l.slices m' ∧ Heap cs m' free := by
  obtain ⟨pre, s, hs, hw⟩ := h.atLast hne
  have hlen : pre.length + 1 = l.slices.length := by rw [hs]; simp
  have hnd := (List.nodup_append.mp h.nodup).1
  have hlinked := updateSlices_linked h.layout l.slices (h.sendable hf) hnd h.noNext
  refine ⟨_, ?_, hlinked, hlinked.heap free h.heap h.toOwns.not_free⟩
  unfold LinkedBuffer.done
  rw [if_pos hf, current_at hs hw]
  simp only [bind, Except.bind, hlen, List.drop_length, List.take_length, LinkedBuffer.recycleSlices,
    pure, Except.pure]

/-! ## Giving slots back -/

/-- **`recycle`**: the slots of the buffer become free; its pinned ones do not. -/
theorem recycle_owns (hM : ManagerOk cs bm) (h : Owns cs m l others free) :
    ∃ m', l.recycle bm m = .ok (m', l.clean) ∧ Owns cs m' l.clean others (slotsOf l.slices ++ free) ∧
      Keeps cs (slotsOf l.slices ++ free) m m' := by
  have hnd := h.nodup
  obtain ⟨m', hrun, hheap, hkeep⟩ := recycleSlices_spec hM l.slices m free h.heap h.layout h.slices (by
    simp only [List.nodup_append, List.mem_append] at hnd ⊢
    grind)
  refine ⟨m', ?_, ⟨hkeep.len ▸ h.layout, hheap, by simp [LinkedBuffer.clean], h.pinned, ?_⟩, hkeep⟩
  · unfold LinkedBuffer.recycle
    rw [hrun]
    rfl
  · refine List.Perm.trans ?_ h.all
    show (slotsOf l.pinnedList ++ (others ++ (slotsOf l.slices ++ free))).Perm _
    refine List.Perm.trans ?_ (List.perm_append_comm_assoc ..)
    exact (List.perm_append_comm_assoc ..).append_left _

/-! ## The fallback route -/

theorem joinData_eq (hL : Layout cs m.len) : ∀ ss : List BufferSlice, (∀ s ∈ ss, SliceOk cs s) →
    (∀ s ∈ ss, InBounds s) → LinkedBuffer.joinData m ss = .ok (ss.flatMap (·.bytes m)) := by
  intro ss
  induction ss with
  | nil => intro _ _; rfl
  | cons s ss ih =>
    intro hok hb
    rw [List.forall_mem_cons] at hok hb
    have hsub : s.data.sub m s.readIndex s.writeIndex = .ok (s.bytes m) := by
      have hcap := capacity_le hok.1 hL
      obtain ⟨h0, h1, h2⟩ := hb.1
      unfold Data.sub BufferSlice.bytes BufferSlice.size
      rw [if_pos ⟨h0, h1, by omega⟩]
      cases s.data <;> rfl
    unfold LinkedBuffer.joinData
    rw [hsub, ih hok.2 hb.2]
    rfl

/-- **`underlyingData`** gives the bytes that were written, also after `done`. -/
theorem underlyingData_eq (h : SendOk cs m l others free) (hlen : m'.len = m.len) :
    l.underlyingData m' = .ok (l.unread m') := by
  have hjoin := joinData_eq (hlen ▸ h.layout) l.slices h.slices h.bounds
  unfold LinkedBuffer.underlyingData
  by_cases hs : l.slices = []
  · rw [h.cursor, if_pos hs]
    exact hjoin
  · have hpos := List.length_pos_iff.mpr hs
    rw [h.cursor, if_neg hs]
    simp only []
    rw [Nat.sub_add_cancel hpos, List.take_length]
    exact hjoin

end Done

/-! ## `Flush` -/

/-- What a `Flush` hands over. -/
inductive Sent
  | nothing
  /-- Nothing: the stream is not open, or the queue stays full. -/
  | failed
  /-- An element of the queue with the root offset of the chain. -/
  | queued (offset : ℕ)
  /-- A frame for the socket: the event and the payload behind it. -/
  | frame (event payload : List UInt8)
  deriving DecidableEq

/-- `fallbackDataEvent.encode` (protocol_event.go:88-95) for a buffer of `len` bytes. -/
def fallbackEvent (version : UInt8) (seqID status : UInt32) (len : ℤ) : List UInt8 :=
  Protocol.Header.encode (ofInt32 (Protocol.headerSize + 8 + len)) version .fallbackData ++
    (be 4 seqID.toNat ++ be 4 status.toNat)

/-- What `Flush` finds: the fields of the stream and its session, whether the stream is
    open, and whether one of the attempts to `put` succeeds. -/
structure FlushEnv where
  version : UInt8 := 2
  seqID : UInt32 := 0
  /-- The state as `writeFallback` reads it. -/
  status : UInt32 := 0
  opened : Bool := true
  put : Bool := true
  deriving DecidableEq

/-- `Stream.Flush` (stream.go:199-271): the buffer, `inFallbackState` and what is handed
    over. -/
def flush (bm : Manager) (env : FlushEnv) (inFallbackState : Bool) (m : Mem) (l : LinkedBuffer) :
    Go (Mem × LinkedBuffer × Bool × Sent) :=
  if l.len = 0 then .ok (m, l, inFallbackState, .nothing)
  else if env.opened = false then do
    let (m, l) ← l.recycle bm m
    return (m, l, inFallbackState, .failed)
  else do
    let (m, l) ← l.done bm m
    if inFallbackState || !l.isFromShm then
      let event := fallbackEvent env.version env.seqID env.status l.len
      let payload ← l.underlyingData m
      let (m, l) ← l.recycle bm m
      return (m, l.clean, true, .frame event payload)
    else
      let root ← l.rootBufOffset
      if env.put then return (m, l.clean, false, .queued root)
      else
        let (m, l) ← l.recycle bm m
        return (m, l.clean, false, .failed)

section Flush

variable {cs : List SizeClass} {bm : Manager} {env : FlushEnv} {fb : Bool} {m m' : Mem}
  {l : LinkedBuffer} {others free as : List ℕ}

/-- The slots of the buffer went back to the free lists. -/
structure GivenBack (cs : List SizeClass) (others free : List ℕ) (m : Mem) (l : LinkedBuffer)
    (m' : Mem) : Prop where
  owns : Owns cs m' l.clean others (slotsOf l.slices ++ free)
  keeps : Keeps cs (slotsOf l.slices ++ free) m m'

theorem SendOk.slices_ne_nil (h : SendOk cs m l others free) (hlen : l.len ≠ 0) : l.slices ≠ [] := by
  intro hs
  apply hlen
  rw [h.len, LinkedBuffer.unread, hs]
  rfl

/-- After `done` the buffer is as before, up to the headers of its slots. -/
theorem done_any (bm : Manager) (h : SendOk cs m l others free) (hlen : l.len ≠ 0) :
    ∃ m', l.done bm m = .ok (m', l) ∧ Owns cs m' l others free ∧ Keeps cs (slotsOf l.slices) m m' ∧
      l.underlyingData m' = .ok (l.unread m) ∧ (l.isFromShm = true → Linked cs m l.slices m') := by
  cases hf : l.isFromShm with
  | false =>
    refine ⟨m, ?_, h.toOwns, Keeps.refl .., underlyingData_eq h rfl, by simp⟩
    unfold LinkedBuffer.done
    rw [hf]
    rfl
  | true =>
    obtain ⟨m', hrun, hl, hheap⟩ := done_spec bm h hf (h.slices_ne_nil hlen)
    have howns : Owns cs m' l others free :=
      ⟨hl.data.len ▸ h.layout, hheap, h.slices, h.pinned, h.all⟩
    have hbytes : l.unread m' = l.unread m := flatMap_bytes_congr h.slices h.bounds hl.data (by simp)
    exact ⟨m', hrun, howns, hl.keeps, hbytes ▸ underlyingData_eq h hl.data.len, fun _ => hl⟩

/-- **`Flush`.** With nothing written it does nothing. Otherwise it leaves an empty buffer,
    and the slots are free again, or they are the chain of the queued message, which
    holds the written bytes. -/
theorem flush_spec (hM : ManagerOk cs bm) (env : FlushEnv) (fb : Bool)
    (h : SendOk cs m l others free) :
    (l.len = 0 ∧ flush bm env fb m l = .ok (m, l, fb, .nothing)) ∨
    (l.len ≠ 0 ∧ ∃ m' fb' sent, flush bm env fb m l = .ok (m', l.clean, fb', sent) ∧
      ((GivenBack cs others free m l m' ∧
        ((sent = .failed ∧ (env.opened = false ∨ env.put = false)) ∨
          sent = .frame (fallbackEvent env.version env.seqID env.status l.len) (l.unread m))) ∨
      ∃ root as, sent = .queued root ∧ slotsOf l.slices = root :: as ∧ Linked cs m l.slices m' ∧
        Heap cs m' free)) := by
  unfold flush
  by_cases hlen : l.len = 0
  · rw [if_pos hlen]
    exact .inl ⟨hlen, rfl⟩
  refine .inr ⟨hlen, ?_⟩
  rw [if_neg hlen]
  by_cases hopen : env.opened = false
  · obtain ⟨m', hrun, howns, hkeep⟩ := recycle_owns hM h.toOwns
    rw [if_pos hopen, hrun]
    exact ⟨m', fb, .failed, rfl, .inl ⟨⟨howns, hkeep⟩, .inl ⟨rfl, .inl hopen⟩⟩⟩
  rw [if_neg hopen]
  obtain ⟨m1, hdone, howns1, hkeep1, hdata, hlinked⟩ := done_any bm h hlen
  obtain ⟨m', hrun, howns, hkeep⟩ := recycle_owns hM howns1
  have hback : GivenBack cs others free m l m' :=
    ⟨howns, (hkeep1.mono fun a ha => List.mem_append_left _ ha).trans hkeep fun _ ha => ha⟩
  rw [hdone]
  simp only [bind, Except.bind]
  by_cases hfall : (fb || !l.isFromShm) = true
  · rw [if_pos hfall, hdata]
    simp only [hrun]
    exact ⟨m', true, _, rfl, .inl ⟨hback, .inr rfl⟩⟩
  have hf : l.isFromShm = true := by
    cases hl : l.isFromShm with
    | true => rfl
    | false => rw [hl] at hfall; simp at hfall
  obtain ⟨s, rest, hs⟩ := List.exists_cons_of_ne_nil (h.slices_ne_nil hlen)
  have hslots : slotsOf l.slices = s.offsetInShm :: slotsOf rest := by
    rw [hs, slotsOf_cons_shm (h.shm hf s (by rw [hs]; simp))]
  have hroot : l.rootBufOffset = .ok s.offsetInShm := by
    rw [LinkedBuffer.rootBufOffset, LinkedBuffer.front, hs]
    rfl
  rw [if_neg hfall, hroot]
  simp only []
  cases hput : env.put with
  | true => exact ⟨m1, false, _, rfl, .inr ⟨_, _, rfl, hslots, hlinked hf, howns1.heap⟩⟩
  | false =>
    rw [if_neg (by simp), hrun]
    exact ⟨m', false, .failed, rfl, .inl ⟨hback, .inl ⟨rfl, .inr rfl⟩⟩⟩

end Flush

end Shmipc.Buffer
