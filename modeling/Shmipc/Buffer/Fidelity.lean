import Shmipc.Buffer.Flat
import Shmipc.Buffer.Send

/-!
# What is written is what arrives

A send buffer along any mix of writer calls and changes that others make to the shared
memory, up to a `Flush`, and the receive buffer that takes the message in.

Results:
* `written_arrives`: in every state that is reached, each writer call returns, and `Flush`
  hands over exactly the bytes that were written: as a chain from which
  `moveToWithoutLock` appends them to the receive buffer, or as the payload of a frame.
  The length field of the frame is right exactly if it fits 32 bits.
* `frame_length_wraps`: `2 ^ 32` bytes in one buffer give a frame of length 16.
-/

namespace Shmipc.Buffer

open Common LinkedBuffer

/-! ## Runs -/

/-- A send buffer, the shared memory, and the bytes written so far. -/
structure Sender where
  mem : Mem
  buf : LinkedBuffer
  written : List UInt8 := []

namespace Sender

inductive Act
  | call (c : WriteCall)
  /-- Other streams and the peer write to the shared memory. -/
  | others (m : Mem)

/-- `none` is where the code panics. -/
def next (bm : Manager) (s : Sender) : Act → Option Sender
  | .call c =>
    match c.run bm s.mem s.buf with
    | .ok (m, l) => some ⟨m, l, s.written ++ c.bytes⟩
    | .error _ => none
  | .others m => some { s with mem := m }

/-- The runs from an empty send buffer: a new one, one that was flushed, or one that
    `ReleaseReadAndReuse` made of the last slice of the receive buffer. -/
def runs (cs : List SizeClass) (bm : Manager) (m : Mem) : Sys Sender Act where
  init s := s.mem = m ∧ s.written = [] ∧ s.buf.unread m = [] ∧
    ∃ others free, SendOk cs m s.buf others free
  next := next bm

/-- What the users of the buffer keep to: calls shorter than `2 ^ 32` bytes, and everybody
    to their own slots. -/
def Allowed (cs : List SizeClass) (bm : Manager) (s : Sender) : Act → Prop
  | .call c => c.Ok
  | .others m => (⟨s.mem, s.buf⟩ : Receiver).Apart cs bm m

end Sender

/-- The slots of the chain from `offset`. -/
def chainOf (m : Mem) (offset : ℕ) : List ℕ := follow (nextSlot m) m.len offset

/-- The receiver when it takes in the message at `root`, which was left in memory `m`: the
    others have kept to their slots, and the receive buffer holds no fallback slice. -/
structure Receiver.Awaits (cs : List SizeClass) (bm : Manager) (m : Mem) (root : ℕ)
    (r : Receiver) : Prop where
  len : r.mem.len = m.len
  message : ∀ a ∈ chainOf m root, ∀ cap, IsSlot cs a cap → m.SameOn r.mem a (a + 20 + cap)
  buf : ∃ others free, RecvOk cs r.mem r.buf others free
  shm : r.buf.isFromShm = true
  apart : (r.own ++ (chainOf m root ++ bm.freeSlots r.mem)).Nodup

section Runs

variable {cs : List SizeClass} {bm : Manager} {m m' : Mem} {l : LinkedBuffer} {s : Sender}
  {r : Receiver} {others free as : List ℕ} {root : ℕ}

/-! ## The sender -/

theorem SendOk.others_step (hM : ManagerOk cs bm) (h : SendOk cs m l others free)
    (hm : (⟨m, l⟩ : Receiver).Apart cs bm m') :
    ∃ others' free', SendOk cs m' l others' free' ∧ l.unread m' = l.unread m := by
  obtain ⟨others', free', howns, hkeep⟩ := hm.owns hM h.toOwns
  have hnot : ∀ a ∈ slotsOf l.slices, a ∉ (allSlots cs).filter fun a => a ∉ (⟨m, l⟩ : Receiver).own :=
    fun a ha => Receiver.not_others (r := ⟨m, l⟩) ha
  have hunread : l.unread m' = l.unread m := flatMap_bytes_congr h.slices h.bounds hkeep.data hnot
  refine ⟨others', free', ⟨⟨⟨howns, h.bounds⟩, h.start, h.caps, fun a ha => ?_, h.shm⟩, h.cursor, ?_⟩,
    hunread⟩
  · obtain ⟨cap, hslot⟩ := h.isSlot ha
    have hsame := hkeep.slot a cap hslot (hnot a ha)
    exact (hasNext_congr (hsame.mono (by omega) (by omega))).trans (h.noNext a ha)
  · rw [hunread]
    exact h.len

/-- **Run.** The buffer holds what was written. -/
theorem Sender.holds_written (hM : ManagerOk cs bm)
    (hr : (Sender.runs cs bm m).ReachableWhen (Sender.Allowed cs bm) s) :
    ∃ others free, SendOk cs s.mem s.buf others free ∧ s.buf.unread s.mem = s.written := by
  refine hr.invariant (fun s => ∃ others free, SendOk cs s.mem s.buf others free ∧
    s.buf.unread s.mem = s.written) ?_ ?_
  · rintro s ⟨rfl, hw, hu, others, free, h⟩
    exact ⟨others, free, h, by rw [hu, hw]⟩
  · rintro s act s' ⟨others, free, h, hu⟩ hok hnext
    cases act with
    | call c =>
      rcases writeCall_spec hM h hok with ⟨m', l', free', hrun, hW⟩ | ⟨hrun, -⟩
      · simp only [Sender.runs, Sender.next, hrun] at hnext
        cases hnext
        exact ⟨others, free', hW.ok, by rw [hW.unread, hu]⟩
      · simp only [Sender.runs, Sender.next, hrun] at hnext
        cases hnext
    | others m' =>
      cases hnext
      obtain ⟨others', free', h', hu'⟩ := SendOk.others_step hM h hok
      exact ⟨others', free', h', by rw [hu', hu]⟩

/-! ## The frame -/

theorem length_fallbackEvent (v : UInt8) (seqID status : UInt32) (n : ℕ) :
    Protocol.Header.length (fallbackEvent v seqID status n) = (16 + n) % 2 ^ 32 := by
  unfold fallbackEvent Protocol.Header.length
  rw [List.take_append_of_le_length (by simp [Protocol.headerSize])]
  refine (Protocol.Header.length_of_encode ..).trans ?_
  unfold ofInt32 Protocol.headerSize
  omega

/-! ## The receiver -/

theorem chainOf_eq (hc : ChainAt cs m (root :: as)) (hlen : as.length < m.len) :
    chainOf m root = root :: as := follow_of_chain hc.links hlen

/-- **`moveToWithoutLock`** of the message that a `Flush` queued. -/
theorem moveTo_awaited (hM : ManagerOk cs bm) (hlen : as.length < m.len)
    (hc : ChainAt cs m (root :: as)) (hne : msgBytes m (root :: as) ≠ [])
    (hr : r.Awaits cs bm m root) :
    ∃ m' l', moveTo bm [.chain root] r.mem r.buf = .ok (m', l') ∧
      l'.unread m' = r.buf.unread r.mem ++ msgBytes m (root :: as) ∧
      l'.len = r.buf.len + (msgBytes m (root :: as)).length := by
  obtain ⟨others, free, h⟩ := hr.buf
  have hmsg := hr.message
  have hnd := hr.apart
  rw [chainOf_eq hc hlen] at hmsg hnd
  -- the message is in the receiver's memory as it was sent
  have hkeep : Keeps cs ((allSlots cs).filter fun a => a ∉ root :: as) m r.mem := by
    refine ⟨hr.len, fun a cap hslot ha => hmsg a ?_ cap hslot⟩
    by_contra hnot
    exact ha (List.mem_filter.mpr ⟨mem_allSlots.mpr ⟨cap, hslot⟩, by simpa using hnot⟩)
  have hnot : ∀ a ∈ root :: as, a ∉ (allSlots cs).filter fun a => a ∉ root :: as := fun a ha hT =>
    absurd ha (by simpa using (List.mem_filter.mp hT).2)
  have hc' := hc.congr hkeep hnot
  have hbytes := msgBytes_congr hc.sizes hkeep hnot
  obtain ⟨others', howns⟩ := h.toOwns.regroup (root :: as) h.heap rfl (fun a ha => by
      obtain ⟨cap, hslot, -⟩ := hc.slots a ha
      exact mem_allSlots.mpr ⟨cap, hslot⟩) (by
    rw [Receiver.own, List.append_assoc] at hnd
    exact ((((h.heap.freeSlots_perm hM).append_left _).append_left _).append_left _).nodup_iff.mp hnd)
  have h0 : RecvOk cs r.mem r.buf (root :: as ++ others') free :=
    ⟨⟨howns, h.bounds⟩, h.len, h.tail, h.shm⟩
  obtain ⟨m', l', free', new, hrun, hrec⟩ := moveTo_chains hM [root :: as] r.mem r.buf free
    (by simpa using howns) (by simpa using ⟨hc', hbytes ▸ hne⟩)
    fun t ht => h.shm hr.shm t (List.mem_of_getLast? ht)
  rw [List.flatten_cons, List.flatten_nil, List.append_nil] at hrec
  refine ⟨m', l', hrun, ?_, ?_⟩
  · rw [(h0.received hrec).2, hbytes]
  · rw [hrec.len, hbytes]

/-- **Main theorem.** Whatever was written by calls shorter than `2 ^ 32` bytes, and
    however the memory was split over slots, heap and other streams: every further call
    returns (`Reserve(0)` on a buffer without slices apart, when no slot is to be had), and
    `Flush` of an open stream hands over the written bytes, all and in order, by either
    route. -/
theorem written_arrives (hR : Ready cs bm m)
    (hr : (Sender.runs cs bm m).ReachableWhen (Sender.Allowed cs bm) s) (env : FlushEnv)
    (hopen : env.opened = true) (inFallbackState : Bool) :
    (∀ c : WriteCall, c.Ok → (∃ r, c.run bm s.mem s.buf = .ok r) ∨
      (c = .reserve 0 [] ∧ s.buf.slices = [] ∧ ¬ bm.Avail s.mem 0)) ∧
    (s.written ≠ [] → ∃ m' fallback sent,
      flush bm env inFallbackState s.mem s.buf = .ok (m', s.buf.clean, fallback, sent) ∧
      ((sent = .failed ∧ env.put = false) ∨
        (∃ root, sent = .queued root ∧ ∀ r : Receiver, r.Awaits cs bm m' root →
          ∃ m'' l', moveTo bm [.chain root] r.mem r.buf = .ok (m'', l') ∧
            l'.unread m'' = r.buf.unread r.mem ++ s.written ∧
            l'.len = r.buf.len + s.written.length) ∨
        ∃ event, sent = .frame event s.written ∧
          (Protocol.Header.length event = 16 + s.written.length ↔
            16 + s.written.length < 2 ^ 32) ∧
          ∀ r : Receiver, (∃ others free, RecvOk cs r.mem r.buf others free) →
            ∃ l', moveTo bm [.fallback s.written] r.mem r.buf = .ok (r.mem, l') ∧
              l'.unread r.mem = r.buf.unread r.mem ++ s.written ∧
              l'.len = r.buf.len + s.written.length)) := by
  have hM := hR.manager
  obtain ⟨others, free, h, hu⟩ := Sender.holds_written hM hr
  refine ⟨fun c hc => ?_, fun hne => ?_⟩
  · rcases writeCall_spec hM h hc with ⟨m', l', free', hrun, -⟩ | ⟨-, hpanic⟩
    · exact .inl ⟨_, hrun⟩
    · exact .inr hpanic
  have hlen : s.buf.len ≠ 0 := by
    rw [h.len, hu]
    simpa using hne
  rcases flush_spec hM env inFallbackState h with ⟨h0, -⟩ | ⟨-, m', fb, sent, hrun, hsent⟩
  · exact absurd h0 hlen
  refine ⟨m', fb, sent, hrun, ?_⟩
  obtain ⟨-, ⟨hfail, hwhy⟩ | hframe⟩ | ⟨root, as, hq, hslots, hlinked, -⟩ := hsent
  · rw [hopen] at hwhy
    exact .inl ⟨hfail, hwhy.resolve_left (by simp)⟩
  · refine .inr (.inr ⟨_, by rw [← hu]; exact hframe, ?_, ?_⟩)
    · rw [h.len, hu, length_fallbackEvent]
      omega
    · rintro r ⟨others', free', hr⟩
      obtain ⟨hr', hunread⟩ := hr.fallback hne
      refine ⟨_, rfl, hunread, ?_⟩
      rw [hr'.len, hunread, hr.len, List.length_append, Nat.cast_add]
  · have hchain := hlinked.chain
    have hbytes := hlinked.bytes
    rw [hslots] at hchain hbytes
    rw [show s.buf.slices.flatMap (·.bytes s.mem) = s.written from hu] at hbytes
    have hcount : as.length < m'.len := by
      rw [hlinked.data.len]
      exact h.toOwns.length_lt hslots
    refine .inr (.inl ⟨root, hq, fun r hr => ?_⟩)
    rw [← hbytes]
    exact moveTo_awaited hM hcount hchain (hbytes ▸ hne) hr

theorem SendOk.empty (hL : Layout cs m.len) (hheap : Heap cs m free)
    (hall : (others ++ free).Perm (allSlots cs)) : SendOk cs m {} others free := by
  refine ⟨⟨⟨⟨hL, hheap, ?_, ?_, hall⟩, ?_⟩, ?_, ?_, ?_, ?_⟩, rfl, rfl⟩ <;> simp [slotsOf]

theorem Sender.runs_init (hL : Layout cs m.len) (hheap : Heap cs m (allSlots cs)) :
    (Sender.runs cs bm m).init ⟨m, {}, []⟩ :=
  ⟨rfl, rfl, rfl, [], _, SendOk.empty hL hheap (by simp)⟩

end Runs

/-! ## Both routes at work -/

/-- The sender that has written six bytes. -/
def sixWritten : Sender :=
  (Sender.next fourSlots.2 ⟨fourSlots.1, {}, []⟩ (.call (.writeBytes [1, 2, 3, 4, 5, 6]))).getD
    ⟨fourSlots.1, {}, []⟩

theorem fourSlots_created : Created [⟨8, 4, 4⟩] fourSlots.2 fourSlots.1 := by
  have h : createBufferManager [⟨4, 100⟩] (zeroMem 140) 0 = .ok (.ok (fourSlots.1, fourSlots.2)) := rfl
  exact (createBufferManager_created (by decide) (by simp) (by decide) (by decide) h).1

theorem sixWritten_reachable : (Sender.runs [⟨8, 4, 4⟩] fourSlots.2 fourSlots.1).ReachableWhen
    (Sender.Allowed [⟨8, 4, 4⟩] fourSlots.2) sixWritten := by
  have hstart : (Sender.runs [⟨8, 4, 4⟩] fourSlots.2 fourSlots.1).ReachableWhen
      (Sender.Allowed [⟨8, 4, 4⟩] fourSlots.2) ⟨fourSlots.1, {}, []⟩ :=
    .init (Sender.runs_init fourSlots_created.layout fourSlots_created.heap)
  have hcall : Sender.Allowed [⟨8, 4, 4⟩] fourSlots.2 ⟨fourSlots.1, {}, []⟩
      (.call (.writeBytes [1, 2, 3, 4, 5, 6])) := by
    show WriteCall.Ok (.writeBytes [1, 2, 3, 4, 5, 6])
    decide
  exact hstart.step_getD hcall (by decide +kernel)

theorem written_arrives_six_bytes : ∃ m' fallback root,
    flush fourSlots.2 {} false sixWritten.mem sixWritten.buf =
      .ok (m', sixWritten.buf.clean, fallback, .queued root) ∧
    ∃ m'' l', moveTo fourSlots.2 [.chain root] m' {} = .ok (m'', l') ∧
      l'.unread m'' = [1, 2, 3, 4, 5, 6] ∧ l'.len = 6 := by
  have hflush : flush fourSlots.2 {} false sixWritten.mem sixWritten.buf =
      .ok (sixBytes, sixWritten.buf.clean, false, .queued 44) := rfl
  have hw : sixWritten.written = [1, 2, 3, 4, 5, 6] := rfl
  have hawaits : Receiver.Awaits [⟨8, 4, 4⟩] fourSlots.2 sixBytes 44 ⟨sixBytes, {}⟩ := by
    refine ⟨rfl, fun a _ cap _ => Mem.SameOn.refl _ _ _, ?_, rfl, by decide +kernel⟩
    have hlayout : Layout [⟨8, 4, 4⟩] sixBytes.len := by
      rw [len_sixBytes]
      exact fourSlots_created.layout
    refine ⟨[44, 68], [92, 116], ⟨⟨hlayout, sixBytes_heap, ?_, ?_, ?_⟩, ?_⟩, rfl, ?_, ?_⟩
    · simp
    · simp
    · decide
    · simp
    · simp
    · simp
  obtain ⟨-, h⟩ := written_arrives fourSlots_ready sixWritten_reachable {} rfl false
  obtain ⟨m', fb, sent, hrun, hsent⟩ := h (by rw [hw]; simp)
  rw [hflush] at hrun
  cases hrun
  obtain ⟨h, -⟩ | ⟨root, hroot, harrive⟩ | ⟨event, h, -, -⟩ := hsent
  · cases h
  · cases hroot
    obtain ⟨m'', l', hmove, hunread, hlen⟩ := harrive _ hawaits
    exact ⟨sixBytes, false, 44, hflush, m'', l', hmove, hunread, hlen⟩
  · cases h

/-- A memory with one slot, which is never given away. -/
def oneSlot : Mem × Manager :=
  match createBufferManager [⟨4, 100⟩] (zeroMem 68) 0 with
  | .ok (.ok r) => r
  | _ => (zeroMem 0, ⟨[], 0, 0⟩)

theorem oneSlot_created : Created [⟨8, 1, 4⟩] oneSlot.2 oneSlot.1 := by
  have h : createBufferManager [⟨4, 100⟩] (zeroMem 68) 0 = .ok (.ok (oneSlot.1, oneSlot.2)) := rfl
  exact (createBufferManager_created (by decide) (by simp) (by decide) (by decide) h).1

/-- On that memory a buffer never gets a slot. -/
theorem slotsOf_oneSlot {m : Mem} {l : LinkedBuffer} {others free : List ℕ}
    (h : Owns [⟨8, 1, 4⟩] m l others free) : slotsOf l.slices = [] := by
  obtain ⟨F, hF, hp⟩ := h.heap
  have hhead := (hF _ List.mem_cons_self).head
  have hpos : 0 < free.length := by
    rw [hp.length_eq]
    match hf : F ⟨8, 1, 4⟩ with
    | [] => rw [hf] at hhead; cases hhead
    | o :: os => simp [hf]
  have hlen := h.all.length_eq
  rw [show (allSlots [⟨8, 1, 4⟩]).length = 1 from rfl] at hlen
  simp only [List.length_append] at hlen
  exact List.eq_nil_of_length_eq_zero (by omega)

/-- Two writes of the same bytes on that memory are sent as a frame. -/
theorem frame_of_two_writes (data : List UInt8) (h0 : 0 < data.length)
    (hlt : data.length < 2 ^ 32) :
    ∃ s m' fallback event, (Sender.runs [⟨8, 1, 4⟩] oneSlot.2 oneSlot.1).ReachableWhen
        (Sender.Allowed [⟨8, 1, 4⟩] oneSlot.2) s ∧ s.written = data ++ data ∧
      flush oneSlot.2 {} false s.mem s.buf =
        .ok (m', s.buf.clean, fallback, .frame event s.written) ∧
      Protocol.Header.length event = (16 + (data.length + data.length)) % 2 ^ 32 := by
  have hM := oneSlot_created.managerOk
  -- one more write
  have hwrite : ∀ s, (Sender.runs [⟨8, 1, 4⟩] oneSlot.2 oneSlot.1).ReachableWhen
      (Sender.Allowed [⟨8, 1, 4⟩] oneSlot.2) s → ∃ m' l',
      (Sender.runs [⟨8, 1, 4⟩] oneSlot.2 oneSlot.1).ReachableWhen
        (Sender.Allowed [⟨8, 1, 4⟩] oneSlot.2) ⟨m', l', s.written ++ data⟩ := by
    intro s hs
    obtain ⟨others, free, h, -⟩ := Sender.holds_written hM hs
    have hok : (WriteCall.writeBytes data).Ok := hlt
    rcases writeCall_spec hM h hok with ⟨m', l', free', hrun, -⟩ | ⟨-, he, -⟩
    · refine ⟨m', l', hs.step (a := .call (.writeBytes data)) hok ?_⟩
      show Sender.next oneSlot.2 s (.call (.writeBytes data)) = _
      rw [Sender.next, hrun]
      rfl
    · cases he
  have hstart : (Sender.runs [⟨8, 1, 4⟩] oneSlot.2 oneSlot.1).ReachableWhen
      (Sender.Allowed [⟨8, 1, 4⟩] oneSlot.2) ⟨oneSlot.1, {}, []⟩ :=
    .init (Sender.runs_init oneSlot_created.layout oneSlot_created.heap)
  obtain ⟨m1, l1, h1⟩ := hwrite _ hstart
  obtain ⟨m2, l2, h2⟩ := hwrite _ h1
  obtain ⟨others, free, h, hu⟩ := Sender.holds_written hM h2
  have hlen : l2.len = (data.length + data.length : ℕ) := by
    rw [h.len, hu]
    simp
  rcases flush_spec hM {} false h with ⟨hzero, -⟩ | ⟨-, m', fb, sent, hrun, hsent⟩
  · have : l2.len = 0 := hzero
    omega
  obtain ⟨-, ⟨-, hwhy⟩ | hframe⟩ | ⟨root, as, -, hslots, -⟩ := hsent
  · simp at hwhy
  · refine ⟨_, m', fb, _, h2, rfl, by rw [hrun, hframe, hu], ?_⟩
    rw [show (⟨m2, l2, [] ++ data ++ data⟩ : Sender).buf.len = _ from hlen, length_fallbackEvent]
  · rw [slotsOf_oneSlot h.toOwns] at hslots
    cases hslots

/-- **Counterexample.** `2 ^ 32` bytes, written in two halves and sent by the fallback route:
    the length field says 16. -/
theorem frame_length_wraps :
    ∃ s m' fallback event, (Sender.runs [⟨8, 1, 4⟩] oneSlot.2 oneSlot.1).ReachableWhen
        (Sender.Allowed [⟨8, 1, 4⟩] oneSlot.2) s ∧
      s.written = List.replicate (2 ^ 31) 0 ++ List.replicate (2 ^ 31) 0 ∧
      flush oneSlot.2 {} false s.mem s.buf =
        .ok (m', s.buf.clean, fallback, .frame event s.written) ∧
      Protocol.Header.length event ≠ 16 + s.written.length := by
  obtain ⟨s, m', fallback, event, hr, hw, hflush, hlen⟩ := frame_of_two_writes
    (List.replicate (2 ^ 31) 0) (by rw [List.length_replicate]; norm_num)
    (by rw [List.length_replicate]; norm_num)
  refine ⟨s, m', fallback, event, hr, hw, hflush, ?_⟩
  rw [hlen, hw, List.length_append, List.length_replicate]
  norm_num

end Shmipc.Buffer
