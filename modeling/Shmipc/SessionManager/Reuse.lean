import Shmipc.Stream.DataPath

/-!
# A pooled stream and its second user

`putOrCloseStream` resets a stream, releases what was read and puts the stream in the pool;
`getOrOpenStream` hands it out again if it is still open (session_manager.go:409-445).
`reset` looks at `recvBuf` and `pendingData`, not at `sendBuf`, and `ReleaseReadAndReuse` may
exchange the two buffers: what the first user wrote and did not flush is then in the second
user's `sendBuf` or, after the exchange, in its `recvBuf`.

Results:
* `handed_out_fresh_iff`: after any history of the stream, the stream that is handed out is
  as a new one if and only if its `sendBuf` had `Len() = 0` when it was put in the pool.
* `unflushed_bytes_handed_out`: a run for each of the two cases.
-/

namespace Shmipc.DataPath

open Common Buffer LinkedBuffer
open Shmipc.Stream (StreamState)

/-- As a new stream: nothing to read or to flush, and no setting of an earlier user. -/
structure Fresh (m : Mem) (e : End) : Prop where
  recvLen : e.recvBuf.len = 0
  recvUnread : e.recvBuf.unread m = []
  sendLen : e.sendBuf.len = 0
  sendUnread : e.sendBuf.unread m = []
  pendingData : e.pendingData = []
  opened : e.state = .opened
  inFallbackState : e.inFallbackState = false
  callbacks : e.callbacks = false
  readDeadline : e.readDeadline = 0
  writeDeadline : e.writeDeadline = 0

theorem fresh_new (m : Mem) (side : View) (id : ℕ) : Fresh m { side := side, id := id } := by
  constructor <;> rfl

/-- The runs that go on from `s0`. -/
def Net.runsFrom (bm : View → Manager) (s0 : Net) : Sys Net Act where
  init s := s = s0
  next := Net.next bm

/-- Stream `k` is as `e`, but for its state. -/
def SameButState (e : End) (k : ℕ) (s : Net) : Prop :=
  ∃ state, s.ends[k]? = some { e with state := state }

theorem SameButState.untouched {e : End} {k : ℕ} {s t : Net} (h : SameButState e k s)
    (ht : Untouched s.ends[k]? t.ends[k]?) : SameButState e k t := by
  obtain ⟨state, hk⟩ := h
  rw [hk] at ht
  generalize hend : t.ends[k]? = o at ht
  cases ht with
  | same => exact ⟨state, hend⟩
  | peerClosed => exact ⟨.halfClosed, hend⟩

/-! ## What `putOrCloseStream` leaves -/

section Put

variable {cs : List SizeClass} {len : ℕ} {hL : Layout cs len} {bm : Manager} {m m' : Mem}
  {l : LinkedBuffer} {e e' : End} {others free : List ℕ}

/-- A buffer whose length is zero has no unread bytes. -/
theorem unread_of_len (h : l.Tally) (h0 : l.len = 0) (m : Mem) : l.unread m = [] := by
  have hsum : (l.slices.map (·.size)).sum = 0 := h.len.symm.trans h0
  have hsize : ∀ s ∈ l.slices, s.size = 0 := fun s hs =>
    List.all_zero_of_le_zero_le_of_sum_eq_zero (List.forall_mem_map.mpr h.nonneg) hsum
      (List.mem_map_of_mem hs)
  refine List.flatMap_eq_nil_iff.mpr fun s hs => ?_
  unfold BufferSlice.bytes
  rw [hsize s hs]
  split <;> rfl

/-- The settings of the first user are gone. The bytes that it did not flush are still
    there, in one of the buffers. -/
theorem End.put_spec (hM : ManagerOk cs bm) (hown : Owns cs m e.recvBuf others free)
    (ht : e.recvBuf.Tally) (hput : e.put bm m = some (.ok (m', e'))) :
    (e'.recvBuf.len = 0 ∧ e'.sendBuf.len = e.sendBuf.len ∨
      e'.recvBuf.len = e.sendBuf.len ∧ e'.sendBuf.len = 0) ∧
    e'.pendingData = [] ∧ e'.inFallbackState = false ∧ e'.callbacks = false ∧
    e'.readDeadline = 0 ∧ e'.writeDeadline = 0 := by
  obtain ⟨e1, -, hreset, hrun⟩ := End.put_inv hput
  obtain ⟨-, hle, hpending, rfl⟩ := End.reset_inv hreset
  have hzero : e.recvBuf.len = 0 := by
    refine le_antisymm hle ?_
    rw [ht.len]
    exact List.sum_nonneg (List.forall_mem_map.mpr ht.nonneg)
  obtain ⟨⟨m1, recv, send⟩, hreuse, heq⟩ := Go.bind_ok.mp hrun.symm
  obtain ⟨⟨m2, l⟩, hrel, hswap⟩ := Go.bind_ok.mp hreuse
  obtain ⟨-, -, -, -, -, -, hlen, -⟩ := releasePreviousReadAndReserve_spec hM hown hrel
  cases heq
  refine ⟨?_, hpending, rfl, rfl, rfl, rfl⟩
  simp only [] at hswap
  split_ifs at hswap with hc
  · cases hswap
    exact .inr ⟨rfl, hc.1⟩
  · cases hswap
    exact .inl ⟨hlen.trans hzero, rfl⟩

end Put

section

variable {pairs : List SizePercentPair} {m m0 : Mem} {bm bm' : Manager} {s s1 s2 : Net} {e e2 : End}
  {k : ℕ}

/-- **Main theorem.** After any history in which each `Reserve` asks for less than `2 ^ 32`
    bytes the stream is put in the pool; nobody uses it and no message comes for it, and it is
    open when it is handed out. It is as a new stream if and only if its `sendBuf` had
    `Len() = 0` when it was put back. -/
theorem handed_out_fresh_iff (h : TwoProcesses pairs m m0 bm bm')
    (hs : (Net.runs (Views.managerOf bm bm') m0).ReachableWhen Net.Small s)
    (he : s.ends[k]? = some e) (hput : s.next (Views.managerOf bm bm') (.put k) = some s1)
    (hpool : (Net.runsFrom (Views.managerOf bm bm') s1).ReachableWhen
      (fun s a => Net.Small s a ∧ Idle k s a) s2)
    (he2 : s2.ends[k]? = some e2) (hopen : e2.state = .opened) :
    Fresh s2.mem e2 ↔ e.sendBuf.len = 0 := by
  have hshared := h.shared hs
  have hsmall : Net.Small s (.put k) := trivial
  have hshared1 := h.shared (hs.step hsmall hput)
  obtain ⟨e0, m1, e1, he0, hend, rfl⟩ := put_inv hput
  rw [he] at he0
  cases he0
  -- what `putOrCloseStream` left
  obtain ⟨others, free, hown⟩ := shared_recv hshared (List.mem_of_getElem? he)
  obtain ⟨hlens, hpending, hfallback, hcallbacks, hread, hwrite⟩ :=
    End.put_spec (h.managerOk e.side) hown (shared_end_parts hshared he).1.tally hend
  have hsame1 : SameButState e1 k { s with mem := m1, ends := s.ends.set k e1 } :=
    ⟨e1.state, by rw [List.getElem?_set_self (List.getElem?_eq_some_iff.mp he).1]⟩
  -- what is in the pool stays so
  obtain ⟨hshared2, state, hk⟩ := hpool.invariant
    (fun s => (ownership h.created.layout).Shared s.mem s.parts ∧ SameButState e1 k s)
    (by
      rintro s rfl
      exact ⟨hshared1, hsame1⟩)
    fun s a t hi ha hnext =>
      ⟨shared_step h.managerOk hi.1 ha.1 hnext, hi.2.untouched (idle_step ha.2 hnext)⟩
  obtain ⟨hrecv, hsend⟩ := shared_end_parts hshared2 he2
  rw [hk] at he2
  cases he2
  constructor
  · intro hfresh
    rcases hlens with ⟨-, hlen⟩ | ⟨hlen, -⟩
    · exact hlen.symm.trans hfresh.sendLen
    · exact hlen.symm.trans hfresh.recvLen
  · intro h0
    have hzero : e1.recvBuf.len = 0 ∧ e1.sendBuf.len = 0 := by
      rw [h0] at hlens
      exact hlens.elim id id
    exact ⟨hzero.1, unread_of_len hrecv.tally hzero.1 _, hzero.2, unread_of_len hsend.tally hzero.2 _,
      hpending, hopen, hfallback, hcallbacks, hread, hwrite⟩

end

/-- The first user sends a request and reads the reply; the server's stream is 1. -/
def requestAndReply : List Act := [
  .openStream 1, .setDeadlines 0 5 6, .write 0 (.writeByte 1), .flush 0 true, .poll .mapper,
  .moveTo 1, .call 1 (.readBytes 1), .write 1 (.writeByte 2), .flush 1 true, .poll .creator,
  .moveTo 0, .call 0 (.readBytes 1)]

/-- Another stream is used meanwhile. -/
def otherStream : List Act := [
  .openStream 2, .write 2 (.writeByte 3), .flush 2 true, .poll .mapper, .fallbackData .creator 2 [4],
  .moveTo 2]

theorem handed_out_fresh_after_reply : ∃ m0 bm bm' s s1 s2 e2,
    TwoProcesses [⟨24, 100⟩] (zeroMem 264) m0 bm bm' ∧
      (Net.runs (Views.managerOf bm bm') m0).run { mem := m0 } requestAndReply = some s ∧
      s.next (Views.managerOf bm bm') (.put 0) = some s1 ∧
      (Net.runsFrom (Views.managerOf bm bm') s1).run s1 otherStream = some s2 ∧
      s2.ends[0]? = some e2 ∧ Fresh s2.mem e2 := by
  obtain ⟨m0, bm, bm', htwo, hok, s, hs, ⟨e, he, h0⟩, s1, hs1, hok', s2, hs2, e2, he2, hopen⟩ :=
    exists_twoProcesses (fun m0 bm bm' =>
      (Net.runs (Views.managerOf bm bm') m0).RunOk Net.Small { mem := m0 } requestAndReply ∧
      ∃ s ∈ (Net.runs (Views.managerOf bm bm') m0).run { mem := m0 } requestAndReply,
      (∃ e ∈ s.ends[0]?, e.sendBuf.len = 0) ∧
      ∃ s1 ∈ s.next (Views.managerOf bm bm') (.put 0),
        (Net.runsFrom (Views.managerOf bm bm') s1).RunOk
          (fun s a => Net.Small s a ∧ Idle 0 s a) s1 otherStream ∧
        ∃ s2 ∈ (Net.runsFrom (Views.managerOf bm bm') s1).run s1 otherStream,
        ∃ e2 ∈ s2.ends[0]?, e2.state = .opened) (by decide +kernel)
  have hreach := Sys.run_reachableWhen (.init rfl) hok hs
  have hpool := Sys.run_reachableWhen (.init rfl) hok' hs2
  refine ⟨m0, bm, bm', s, s1, s2, e2, htwo, hs, hs1, hs2, he2, ?_⟩
  exact (handed_out_fresh_iff htwo hreach he hs1 hpool he2 hopen).mpr h0

/-- **Counterexample.** The first user writes a byte and does not flush it. A stream that
    was only written to is handed out with the byte in `sendBuf`; after a reply was read the
    buffers are exchanged, and the second user has the byte in `recvBuf`. -/
theorem unflushed_bytes_handed_out : ∃ m0 bm bm' s s',
    TwoProcesses [⟨24, 100⟩] (zeroMem 264) m0 bm bm' ∧
      (Net.runs (Views.managerOf bm bm') m0).run { mem := m0 }
        [.openStream 1, .write 0 (.writeByte 7), .put 0] = some s ∧
      (∃ e, s.ends[0]? = some e ∧ e.state = .opened ∧ e.sendBuf.len = 1 ∧
        e.sendBuf.unread s.mem = [7]) ∧
      (Net.runs (Views.managerOf bm bm') m0).run { mem := m0 }
        (requestAndReply ++ [.write 0 (.writeByte 7), .put 0]) = some s' ∧
      ∃ e, s'.ends[0]? = some e ∧ e.state = .opened ∧ e.recvBuf.len = 1 ∧
        e.recvBuf.unread s'.mem = [7] := by
  obtain ⟨m0, bm, bm', htwo, ⟨s, hs, hout⟩, s', hs', hout'⟩ := exists_twoProcesses (fun m0 bm bm' =>
      (∃ s ∈ (Net.runs (Views.managerOf bm bm') m0).run { mem := m0 }
          [Act.openStream 1, Act.write 0 (.writeByte 7), Act.put 0],
        ∃ e ∈ s.ends[0]?, e.state = .opened ∧ e.sendBuf.len = 1 ∧ e.sendBuf.unread s.mem = [7]) ∧
      ∃ s ∈ (Net.runs (Views.managerOf bm bm') m0).run { mem := m0 }
          (requestAndReply ++ [Act.write 0 (.writeByte 7), Act.put 0]),
        ∃ e ∈ s.ends[0]?, e.state = .opened ∧ e.recvBuf.len = 1 ∧ e.recvBuf.unread s.mem = [7])
    (by decide +kernel)
  exact ⟨m0, bm, bm', s, s', htwo, hs, hout, hs', hout'⟩

end Shmipc.DataPath
