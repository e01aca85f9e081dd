import Shmipc.Session.Order

/-!
# A close notification and the data before it

The notification of `Stream.close` takes the queue, or the socket when the queue
is full, whichever route the stream's data took. Neither is ordered with the
other, so it can overtake data in two ways:

* in the queue, popped by a receiver that is still in `handlePolling` or entered
  it for an earlier polling event, while a fallback frame waits in the socket;
* on the socket, while data waits in the queue for a polling event that its
  producer has not written yet.

Results:
* `close_overtakes_data`: a run with the first.
* `closeHandled_all_delivered`: in every run in which `close` avoids the two
  situations (`CloseOk`), a receiver that has handled the notification has been
  given every message whose `Flush` did not fail.
-/

namespace Shmipc.Session

open Common

variable {M : Type*} {s t : State M} {i j : ℕ} {m : M}

/-! ## The condition -/

/-- The messages of stream `i` that travel by socket reach the receiver before it
    pops the queue again: there is none, or the receiver is between two frames,
    they are all in the socket, and no polling event comes before one of them. -/
def State.Clear (s : State M) (i : ℕ) : Prop :=
  framesFor i s.wire = [] ∨
    s.recv = .idle ∧ framesFor i (s.loop.frame ++ s.sendCh) = [] ∧
      s.wire.Pairwise fun f g => f = .polling → g.dataFor i = none

/-- The condition on a step: `close` puts its notification in the queue when the
    stream's frames are clear of it, and hands it to `sendCh` when the stream has
    nothing in the queue, or behind a polling event, or while the receiver is
    inside `handlePolling`. -/
def CloseOk (cap : ℕ) (s : State M) : Act M → Prop
  | .stream i =>
    (s.pc i = .putClose → s.queue.length < cap → s.Clear i) ∧
    (s.pc i = .sendClose →
      queueFor i s.queue = [] ∨ Frame.polling ∈ s.wire ∨ s.recv ≠ .idle)
  | _ => True

instance [DecidableEq M] (s : State M) (i : ℕ) : Decidable (s.Clear i) :=
  inferInstanceAs (Decidable (_ ∨ _))

instance [DecidableEq M] (cap : ℕ) (s : State M) : ∀ a, Decidable (CloseOk cap s a)
  | .stream _ => inferInstanceAs (Decidable (_ ∧ _))
  | .flush _ _ _ | .close _ | .fail _ | .send | .recv => isTrue trivial

/-! ## The invariant -/

/-- `close` has not sent its notification yet. -/
def StreamPc.isClosing : StreamPc M → Bool
  | .putClose | .sendClose => true
  | _ => false

/-- No notification of stream `i` has left the sender. -/
structure State.Unnotified (s : State M) (i : ℕ) : Prop where
  queue : .closed i ∉ s.queue
  wire : .streamClose i ∉ s.wire
  recv : s.recv ≠ .handle (.closed i)
  handled : s.closeHandled i = false

theorem State.Unnotified.not_done (h : s.Unnotified i) :
    ¬ (s.recv = .handle (.closed i) ∨ s.closeHandled i = true) := by
  rintro (hr | hh)
  · exact h.recv hr
  · rw [h.handled] at hh; cases hh

/-- No message of stream `i` stands behind its notification in the queue. -/
abbrev QueueOrdered (i : ℕ) (q : List (Elem M)) : Prop :=
  q.Pairwise fun e e' => e = .closed i → e'.dataFor i = none

/-- No message of stream `i` stands behind its notification on the wire. -/
abbrev WireOrdered (i : ℕ) (w : List (Frame M)) : Prop :=
  w.Pairwise fun f g => f = .streamClose i → g.dataFor i = none

/-- What a run keeps for stream `i`. -/
structure CloseInv (i : ℕ) (s : State M) : Prop where
  /-- Every message whose `Flush` did not fail has arrived or is under way, but
      for the one the goroutine still has. -/
  sub : ∃ l, s.flushed i = l ++ (s.pc i).msg ∧
    (s.Accepts i → l.Subperm (s.pendingData i ++ s.underWay i))
  /-- `Flush` is not called after `Close`. -/
  quiet : s.closed i = true → (s.pc i).msg = []
  closing : (s.pc i).isClosing = true → s.closed i = true
  fresh : s.closed i = false ∨ (s.pc i).isClosing = true → s.Unnotified i
  queue_order : QueueOrdered i s.queue
  wire_order : WireOrdered i s.wire
  /-- With the notification in the queue, the stream's frames are clear of it. -/
  clear : .closed i ∈ s.queue → s.Clear i
  /-- With the notification on the wire, the stream's queued messages are popped
      before it. -/
  announced : .streamClose i ∈ s.wire →
    queueFor i s.queue = [] ∨ s.recv ≠ .idle ∨ Announced (· = .streamClose i) s.wire
  /-- From the pop of the notification on, nothing of the stream is under way. -/
  done : s.recv = .handle (.closed i) ∨ s.closeHandled i = true → s.underWay i = []

theorem closeInv_initial {isClient : Bool} {streams : ℕ → Bool} :
    CloseInv i (initial isClient streams : State M) where
  sub := ⟨[], rfl, fun _ => List.nil_subperm⟩
  quiet _ := rfl
  closing h := by simp [initial, StreamPc.isClosing] at h
  fresh _ := by constructor <;> simp [initial, State.wire, LoopPc.frame]
  queue_order := .nil
  wire_order := by simp [initial, State.wire, LoopPc.frame]
  clear h := by simp [initial] at h
  announced _ := .inl rfl
  done _ := by simp [initial, State.underWay, State.wire, LoopPc.frame, RecvPc.msgFor]

theorem CloseInv.open_of_msg (h : CloseInv i s) (hm : (s.pc i).msg ≠ []) : s.closed i = false := by
  by_contra hc
  exact hm (h.quiet (by simpa using hc))

/-- The invariant gives the property: after the notification nothing is missing. -/
theorem CloseInv.all_delivered (h : CloseInv i s) (hh : s.closeHandled i = true)
    (hacc : s.Accepts i) : (s.flushed i).Subperm (s.pendingData i) := by
  have hclosed : s.closed i = true := by
    by_contra hc
    have := (h.fresh (.inl (by simpa using hc))).handled
    rw [hh] at this
    cases this
  obtain ⟨l, hl, hsub⟩ := h.sub
  rw [h.quiet hclosed, List.append_nil] at hl
  have hsub := hsub hacc
  rw [h.done (.inr hh), List.append_nil] at hsub
  rwa [hl]

/-! ## Steps that are not about the stream -/

/-- Two queues that agree on stream `i`. -/
structure SameQueue (i : ℕ) (q q' : List (Elem M)) : Prop where
  data : queueFor i q' = queueFor i q
  closed : .closed i ∈ q' → .closed i ∈ q
  order : QueueOrdered i q → QueueOrdered i q'

theorem SameQueue.refl (q : List (Elem M)) : SameQueue i q q := ⟨rfl, id, id⟩

theorem SameQueue.append {e : Elem M} (q : List (Elem M)) (hd : e.dataFor i = none)
    (hc : e ≠ .closed i) : SameQueue i q (q ++ [e]) where
  data := by rw [queueFor_append, queueFor_cons, hd]; simp
  closed h := by
    rcases List.mem_append.mp h with h | h
    · exact h
    · exact absurd (List.mem_singleton.mp h).symm hc
  order h := by
    refine List.pairwise_append.mpr ⟨h, List.pairwise_singleton _ _, fun f _ g hg _ => ?_⟩
    rw [List.mem_singleton.mp hg]; exact hd

/-- Two states whose wires agree on stream `i`. -/
structure SameWire (i : ℕ) (s t : State M) : Prop where
  data : framesFor i t.wire = framesFor i s.wire
  closed : .streamClose i ∈ t.wire → .streamClose i ∈ s.wire
  order : WireOrdered i s.wire → WireOrdered i t.wire
  clear : s.Clear i → t.Clear i
  announced : Announced (· = .streamClose i) s.wire → Announced (· = .streamClose i) t.wire

/-- The goroutine of a stream leaves the wire alone. -/
theorem SameWire.of_eq (hr : t.recv = s.recv) (hsock : t.socket = s.socket) (hl : t.loop = s.loop)
    (hc : t.sendCh = s.sendCh) : SameWire i s t := by
  have hw : t.wire = s.wire := by simp only [State.wire, hsock, hl, hc]
  refine ⟨by rw [hw], by rw [hw]; exact id, by rw [hw]; exact id, fun h => ?_,
    by rw [hw]; exact id⟩
  unfold State.Clear
  rw [hw, hr, hl, hc]
  exact h

/-- A frame of another stream, or a polling event, is handed to `sendCh`. -/
theorem SameWire.sendTo {f : Frame M} (hr : t.recv = s.recv) (hsock : t.socket = s.socket)
    (hl : t.loop = s.loop) (hc : t.sendCh = s.sendCh ++ [f]) (hd : f.dataFor i = none)
    (hf : f ≠ .streamClose i) : SameWire i s t := by
  have hw : t.wire = s.wire ++ [f] := by simp [State.wire, hsock, hl, hc]
  have hdata : framesFor i t.wire = framesFor i s.wire := by
    rw [hw, framesFor_append, framesFor_cons, hd]; simp
  refine ⟨hdata, fun h => ?_, fun h => ?_, fun h => ?_, fun h => ?_⟩
  · rw [hw] at h
    rcases List.mem_append.mp h with h | h
    · exact h
    · exact absurd (List.mem_singleton.mp h).symm hf
  · rw [hw]
    refine List.pairwise_append.mpr ⟨h, List.pairwise_singleton _ _, fun g _ g' hg _ => ?_⟩
    rw [List.mem_singleton.mp hg]; exact hd
  · rcases h with h | ⟨hidle, hback, hp⟩
    · exact .inl (hdata ▸ h)
    · refine .inr ⟨hr ▸ hidle, ?_, ?_⟩
      · rw [hl, hc, ← List.append_assoc, framesFor_append, hback, framesFor_cons, hd]; rfl
      · rw [hw]
        refine List.pairwise_append.mpr ⟨hp, List.pairwise_singleton _ _, fun g _ g' hg _ => ?_⟩
        rw [List.mem_singleton.mp hg]; exact hd
  · rw [hw]
    refine h.append (.inl fun g hg => ?_)
    rw [List.mem_singleton.mp hg]; exact hf

/-- The fast path of `wakeUpPeer` writes its event behind what is in the socket
    and before what the send loop still has. -/
theorem SameWire.writePolling (hr : t.recv = s.recv) (hsock : t.socket = s.socket ++ [.polling])
    (hl : t.loop = s.loop) (hc : t.sendCh = s.sendCh) : SameWire i s t := by
  have hw : t.wire = s.socket ++ .polling :: (s.loop.frame ++ s.sendCh) := by
    simp [State.wire, hsock, hl, hc]
  have hdata : framesFor i t.wire = framesFor i s.wire := by
    rw [hw]; simp [State.wire, framesFor_append, framesFor_cons]
  refine ⟨hdata, fun h => ?_, fun h => ?_, fun h => ?_, fun h => ?_⟩
  · rw [hw] at h
    simpa [State.wire] using h
  · rw [State.wire, WireOrdered, List.pairwise_append] at h
    rw [hw]
    refine List.pairwise_append.mpr ⟨h.1, List.pairwise_cons.mpr ⟨fun g _ hg => ?_, h.2.1⟩,
      fun g hg g' hg' hc => ?_⟩
    · cases hg
    · rcases List.mem_cons.mp hg' with rfl | hg'
      · rfl
      · exact h.2.2 g hg g' hg' hc
  · rcases h with h | ⟨hidle, hback, hp⟩
    · exact .inl (hdata ▸ h)
    · refine .inr ⟨hr ▸ hidle, by rw [hl, hc]; exact hback, ?_⟩
      rw [State.wire, List.pairwise_append] at hp
      rw [hw]
      refine List.pairwise_append.mpr ⟨hp.1,
        List.pairwise_cons.mpr ⟨fun g hg _ => framesFor_eq_nil.mp hback g hg, hp.2.1⟩,
        fun g hg g' hg' hc => ?_⟩
      rcases List.mem_cons.mp hg' with rfl | hg'
      · rfl
      · exact hp.2.2 g hg g' hg' hc
  · rw [hw]; exact h.insert_polling

theorem stepSend_suffix (h : stepSend s = some t) :
    t.loop.frame ++ t.sendCh <:+ s.loop.frame ++ s.sendCh := by
  obtain ⟨sent, hsent, -⟩ := stepSend_inv h
  exact ⟨sent, hsent.symm⟩

theorem framesFor_suffix {v w : List (Frame M)} (h : v <:+ w) (hw : framesFor i w = []) :
    framesFor i v = [] :=
  framesFor_eq_nil.mpr fun f hf => framesFor_eq_nil.mp hw f (h.subset hf)

theorem SameWire.of_stepSend (h : stepSend s = some t) : SameWire i s t := by
  have hw := stepSend_wire h
  obtain ⟨-, -, -, -, -, hr, -⟩ := stepSend_frame h
  refine ⟨by rw [hw], by rw [hw]; exact id, by rw [hw]; exact id, fun hclear => ?_,
    by rw [hw]; exact id⟩
  unfold State.Clear
  rw [hw, hr]
  refine hclear.imp_right ?_
  rintro ⟨hidle, hback, hp⟩
  exact ⟨hidle, framesFor_suffix (stepSend_suffix h) hback, hp⟩

/-- The goroutine keeps its message and does not start to close. -/
structure StreamPc.Keeps (p q : StreamPc M) : Prop where
  msg : p.msg = q.msg
  closing : p.isClosing = true → q.isClosing = true

theorem StreamPc.Keeps.of_eq {p q : StreamPc M} (h : p = q) : p.Keeps q := h ▸ ⟨rfl, id⟩

theorem State.setPc_keeps {pc : StreamPc M} (h : pc.Keeps (s.pc j)) (i : ℕ) :
    ((s.setPc j pc).pc i).Keeps (s.pc i) := by
  rw [State.pc_setPc]
  split_ifs with hij
  · exact hij ▸ h
  · exact .of_eq rfl

theorem State.setPc_pc_self (s : State M) (i : ℕ) (pc : StreamPc M) : (s.setPc i pc).pc i = pc := by
  rw [State.pc_setPc, if_pos rfl]

theorem State.setPc_pc_of_ne {pc : StreamPc M} (h : i ≠ j) : (s.setPc j pc).pc i = s.pc i := by
  rw [State.pc_setPc, if_neg h]

/-- A step of the sending side that is not about stream `i`. -/
theorem CloseInv.of_same (h : CloseInv i s) (hpc : (t.pc i).Keeps (s.pc i))
    (hcl : t.closed i = s.closed i) (hfl : t.flushed i = s.flushed i)
    (hq : SameQueue i s.queue t.queue) (hw : SameWire i s t)
    (hr : t.recv = s.recv) (hacc : t.Accepts i ↔ s.Accepts i)
    (hpd : t.pendingData i = s.pendingData i) (hh : t.closeHandled i = s.closeHandled i) :
    CloseInv i t := by
  have hun : t.underWay i = s.underWay i := by rw [State.underWay, hr, hq.data, hw.data]; rfl
  refine ⟨?_, ?_, ?_, fun hf => ?_, hq.order h.queue_order, hw.order h.wire_order,
    fun hc => hw.clear (h.clear (hq.closed hc)), fun hc => ?_, ?_⟩
  · rw [hfl, hpc.msg, hpd, hun]
    obtain ⟨l, hl, hsub⟩ := h.sub
    exact ⟨l, hl, fun ha => hsub (hacc.mp ha)⟩
  · rw [hcl, hpc.msg]; exact h.quiet
  · rw [hcl]; exact fun hc => h.closing (hpc.closing hc)
  · have hu := h.fresh (hf.imp (fun e => hcl ▸ e) hpc.closing)
    exact ⟨fun hc => hu.queue (hq.closed hc), fun hc => hu.wire (hw.closed hc), hr ▸ hu.recv,
      hh ▸ hu.handled⟩
  · rw [hq.data, hr]
    exact (h.announced (hw.closed hc)).imp_right (Or.imp_right hw.announced)
  · rw [hr, hh, hun]; exact h.done

/-! ## The goroutine of a stream -/

/-- The goroutine of stream `j` goes on with its message, and leaves queue and wire alone. -/
theorem CloseInv.goes {p pc : StreamPc M} {workingFlag writing notify : Bool} {errCh : ℕ → Bool}
    {abandoned : ℕ → ℕ} (h : CloseInv i s) (hp : s.pc j = p) (hm : pc.msg = p.msg)
    (hc : pc.isClosing = false ∨ p.isClosing = true) :
    CloseInv i { s.setPc j pc with
      workingFlag := workingFlag
      writing := writing
      notifyContinueWriteCh := notify
      errCh := errCh
      abandoned := abandoned } := by
  have hkeeps : pc.Keeps (s.pc j) := by
    rw [hp]
    refine ⟨hm, fun hpc => hc.resolve_left ?_⟩
    rw [hpc]
    exact Bool.noConfusion
  exact h.of_same (State.setPc_keeps hkeeps i) rfl rfl (.refl _) (.of_eq rfl rfl rfl rfl) rfl Iff.rfl
    rfl rfl

theorem closeInv_stepFlush {fromShm : Bool} (h : CloseInv i s)
    (hs : stepFlush s j m fromShm = some t) : CloseInv i t := by
  unfold stepFlush at hs
  split at hs
  · rename_i hpc hopen
    cases hs
    by_cases hij : i = j
    · subst hij
      refine ⟨?_, fun hc => ?_, fun hc => ?_, fun _ => ?_, h.queue_order, h.wire_order, h.clear,
        h.announced, h.done⟩
      · obtain ⟨l, hl, hsub⟩ := h.sub
        refine ⟨l, ?_, hsub⟩
        rw [hpc] at hl
        show Function.update s.flushed i (s.flushed i ++ [m]) i = l ++ ((s.setPc i _).pc i).msg
        rw [Function.update_self, hl, State.setPc_pc_self]
        split_ifs <;> simp [StreamPc.msg]
      · exact absurd (show s.closed i = true from hc) (by rw [hopen]; simp)
      · change ((s.setPc i _).pc i).isClosing = true at hc
        rw [State.setPc_pc_self] at hc
        split_ifs at hc <;> cases hc
      · obtain ⟨h1, h2, h3, h4⟩ := h.fresh (.inl hopen)
        exact ⟨h1, h2, h3, h4⟩
    · exact h.of_same (.of_eq (State.setPc_pc_of_ne hij)) rfl (Function.update_of_ne hij ..)
        (.refl _) (.of_eq rfl rfl rfl rfl) rfl Iff.rfl rfl rfl
  · cases hs

theorem closeInv_stepClose (h : CloseInv i s) (hs : stepClose s j = some t) : CloseInv i t := by
  unfold stepClose at hs
  split at hs
  · rename_i hpc hopen
    cases hs
    by_cases hij : i = j
    · subst hij
      refine ⟨?_, fun _ => ?_, fun _ => ?_, fun _ => ?_, h.queue_order, h.wire_order, h.clear,
        h.announced, h.done⟩
      · obtain ⟨l, hl, hsub⟩ := h.sub
        refine ⟨l, ?_, hsub⟩
        show s.flushed i = l ++ ((s.setPc i _).pc i).msg
        rw [hl, hpc, State.setPc_pc_self]; rfl
      · show ((s.setPc i _).pc i).msg = []
        rw [State.setPc_pc_self]; rfl
      · exact Function.update_self ..
      · obtain ⟨h1, h2, h3, h4⟩ := h.fresh (.inl hopen)
        exact ⟨h1, h2, h3, h4⟩
    · exact h.of_same (.of_eq (State.setPc_pc_of_ne hij)) (Function.update_of_ne hij ..) rfl
        (.refl _) (.of_eq rfl rfl rfl rfl) rfl Iff.rfl rfl rfl
  · cases hs

theorem closeInv_stepSend (h : CloseInv i s) (hs : stepSend s = some t) : CloseInv i t := by
  have hw := SameWire.of_stepSend (i := i) hs
  obtain ⟨h1, -, h3, h4, h5, h6, h7, h8, h9, h10⟩ := stepSend_frame hs
  exact h.of_same (.of_eq (by rw [h1])) (by rw [h3]) (by rw [h4])
    (by rw [h5]; exact .refl _) hw h6 (by simp only [State.Accepts, h7, h8]) (by rw [h9])
    (by rw [h10])

/-- The goroutine hands its message to the queue or to `sendCh`. The stream is
    open, so there is no notification for the message to come behind. -/
theorem CloseInv.of_handOver (h : CloseInv i s) (hs : (s.pc i).msg = [m])
    (ht : (t.pc i).Keeps .idle) (hfl : t.flushed i = s.flushed i)
    (hacc : t.Accepts i ↔ s.Accepts i) (hpd : t.pendingData i = s.pendingData i)
    (hun : (t.underWay i).Perm (s.underWay i ++ [m]))
    (hu : s.Unnotified i → t.Unnotified i ∧ QueueOrdered i t.queue ∧ WireOrdered i t.wire) :
    CloseInv i t := by
  have hopen : s.closed i = false := h.open_of_msg (by rw [hs]; simp)
  obtain ⟨hu, hq, hw⟩ := hu (h.fresh (.inl hopen))
  refine ⟨?_, fun _ => ht.msg, fun hc => absurd (ht.closing hc) Bool.false_ne_true, fun _ => hu,
    hq, hw, fun hc => absurd hc hu.queue, fun hc => absurd hc hu.wire,
    fun hc => absurd hc hu.not_done⟩
  · obtain ⟨l, hl, hsub⟩ := h.sub
    refine ⟨l ++ [m], ?_, fun ha => ?_⟩
    · rw [hfl, hl, hs, ht.msg]; simp [StreamPc.msg]
    · have hadd : (l ++ [m]).Subperm ((s.pendingData i ++ s.underWay i) ++ [m]) :=
        (hsub (hacc.mp ha)).append (List.Subperm.refl [m])
      rw [hpd]
      refine hadd.trans (List.Perm.subperm ?_)
      rw [List.append_assoc]
      exact (hun.symm).append_left _

theorem closeInv_put {r : ℕ} (h : CloseInv i s) (hpc : s.pc i = .put m r) :
    CloseInv i { s.setPc i .markWorking with queue := s.queue ++ [.data i m] } := by
  refine h.of_handOver (m := m) (by rw [hpc]; rfl) ?_ rfl Iff.rfl rfl ?_ fun hu => ⟨?_, ?_, ?_⟩
  · show ((s.setPc i .markWorking).pc i).Keeps .idle
    rw [State.setPc_pc_self]
    exact ⟨rfl, by rintro ⟨⟩⟩
  · show (s.recv.msgFor i ++
      (queueFor i (s.queue ++ [Elem.data i m]) ++ framesFor i s.wire)).Perm _
    rw [queueFor_append, queueFor_cons, Elem.dataFor_self]
    simp only [State.underWay, Option.toList_some, queueFor_nil, List.append_assoc]
    exact ((List.perm_append_comm).append_left _).append_left _
  · refine ⟨fun hc => hu.queue ?_, hu.wire, hu.recv, hu.handled⟩
    simpa using (show Elem.closed i ∈ s.queue ++ [Elem.data i m] from hc)
  · refine List.pairwise_append.mpr ⟨h.queue_order, List.pairwise_singleton _ _, ?_⟩
    intro e he e' _ hc
    exact absurd (hc ▸ he) hu.queue
  · exact h.wire_order

theorem closeInv_sendFallback (h : CloseInv i s) (hpc : s.pc i = .sendFallback m) :
    CloseInv i { s.setPc i .waitErr with sendCh := s.sendCh ++ [.fallbackData i m] } := by
  have hwire : State.wire { s.setPc i .waitErr with sendCh := s.sendCh ++ [.fallbackData i m] } =
      s.wire ++ [.fallbackData i m] := by simp [State.wire, State.setPc]
  refine h.of_handOver (m := m) (by rw [hpc]; rfl) ?_ rfl Iff.rfl rfl ?_ fun hu => ⟨?_, ?_, ?_⟩
  · show ((s.setPc i .waitErr).pc i).Keeps .idle
    rw [State.setPc_pc_self]
    exact ⟨rfl, by rintro ⟨⟩⟩
  · rw [State.underWay, hwire, framesFor_append, framesFor_cons, Frame.dataFor_self]
    simp [State.underWay, State.setPc]
  · refine ⟨hu.queue, fun hc => hu.wire ?_, hu.recv, hu.handled⟩
    rw [hwire] at hc
    simpa using hc
  · exact h.queue_order
  · rw [hwire]
    refine List.pairwise_append.mpr ⟨h.wire_order, List.pairwise_singleton _ _, ?_⟩
    intro f hf g _ hc
    exact absurd (hc ▸ hf) hu.wire

/-- `close` sends its notification, the first of the stream. -/
theorem CloseInv.of_notify (h : CloseInv i s) (hs : (s.pc i).isClosing = true)
    (ht : (t.pc i).Keeps .idle) (hcl : t.closed i = s.closed i)
    (hfl : t.flushed i = s.flushed i) (hacc : t.Accepts i ↔ s.Accepts i)
    (hpd : t.pendingData i = s.pendingData i) (hun : t.underWay i = s.underWay i)
    (hr : t.recv = s.recv) (hh : t.closeHandled i = s.closeHandled i)
    (hq : QueueOrdered i t.queue) (hw : WireOrdered i t.wire)
    (hclear : .closed i ∈ t.queue → t.Clear i)
    (hann : .streamClose i ∈ t.wire →
      queueFor i t.queue = [] ∨ t.recv ≠ .idle ∨ Announced (· = .streamClose i) t.wire) :
    CloseInv i t := by
  have hclosed := h.closing hs
  refine ⟨?_, fun _ => ht.msg, fun hc => absurd (ht.closing hc) Bool.false_ne_true,
    fun hf => ?_, hq, hw, hclear, hann, fun hc => ?_⟩
  · obtain ⟨l, hl, hsub⟩ := h.sub
    rw [h.quiet hclosed] at hl
    rw [hfl, ht.msg, hpd, hun]
    exact ⟨l, hl, fun ha => hsub (hacc.mp ha)⟩
  · rcases hf with hf | hf
    · rw [hcl, hclosed] at hf; cases hf
    · cases ht.closing hf
  · rw [hr, hh] at hc
    exact absurd hc (h.fresh (.inr hs)).not_done

/-- `close` puts its notification in the queue, clear of the stream's frames. -/
theorem closeInv_putClose (h : CloseInv i s) (hpc : s.pc i = .putClose) (hclear : s.Clear i) :
    CloseInv i { s.setPc i .markWorking with queue := s.queue ++ [.closed i] } := by
  have hclosing : (s.pc i).isClosing = true := by rw [hpc]; rfl
  have hu := h.fresh (.inr hclosing)
  refine h.of_notify hclosing ?_ rfl rfl Iff.rfl rfl ?_ rfl rfl ?_ h.wire_order (fun _ => hclear)
    fun hc => absurd hc hu.wire
  · show ((s.setPc i .markWorking).pc i).Keeps .idle
    rw [State.setPc_pc_self]
    exact ⟨rfl, by rintro ⟨⟩⟩
  · show s.recv.msgFor i ++ (queueFor i (s.queue ++ [.closed i]) ++ framesFor i s.wire) = _
    rw [queueFor_append, queueFor_cons]
    simp [State.underWay]
  · refine List.pairwise_append.mpr ⟨h.queue_order, List.pairwise_singleton _ _, ?_⟩
    intro e _ e' he' _
    rw [List.mem_singleton.mp he']; rfl

theorem closeInv_sendClose (h : CloseInv i s) (hpc : s.pc i = .sendClose)
    (hok : queueFor i s.queue = [] ∨ Frame.polling ∈ s.wire ∨ s.recv ≠ .idle) :
    CloseInv i { s.setPc i .waitErr with sendCh := s.sendCh ++ [.streamClose i] } := by
  have hclosing : (s.pc i).isClosing = true := by rw [hpc]; rfl
  have hu := h.fresh (.inr hclosing)
  have hwire : State.wire { s.setPc i .waitErr with sendCh := s.sendCh ++ [.streamClose i] } =
      s.wire ++ [.streamClose i] := by simp [State.wire, State.setPc]
  refine h.of_notify hclosing ?_ rfl rfl Iff.rfl rfl ?_ rfl rfl h.queue_order ?_
    (fun hc => absurd hc hu.queue) fun _ => ?_
  · show ((s.setPc i .waitErr).pc i).Keeps .idle
    rw [State.setPc_pc_self]
    exact ⟨rfl, by rintro ⟨⟩⟩
  · rw [State.underWay, hwire, framesFor_append, framesFor_cons]
    simp [State.underWay, State.setPc]
  · rw [hwire]
    refine List.pairwise_append.mpr ⟨h.wire_order, List.pairwise_singleton _ _, ?_⟩
    intro f _ g hg _
    rw [List.mem_singleton.mp hg]; rfl
  · show queueFor i s.queue = [] ∨ s.recv ≠ .idle ∨ _
    rcases hok with hq | hpoll | hbusy
    · exact .inl hq
    · rw [hwire]
      refine .inr (.inr (Announced.append (announced_of_none ?_) (.inr hpoll)))
      rintro f hf rfl
      exact hu.wire hf
    · exact .inr (.inl hbusy)

/-- A `Flush` that fails takes its message out of `flushed`; if its frame is under
    way, the receiver may still get it. -/
theorem closeInv_giveUp (h : CloseInv i s) (hopen : s.closed i = false) :
    CloseInv i { s.setPc i .idle with
      flushed := Function.update s.flushed i (s.flushed i).dropLast } := by
  have hself := s.setPc_pc_self i .idle
  have hu := h.fresh (.inl hopen)
  refine ⟨?_, fun hc => ?_, fun hc => ?_, fun _ => ⟨hu.queue, hu.wire, hu.recv, hu.handled⟩,
    h.queue_order, h.wire_order, h.clear, h.announced, h.done⟩
  · obtain ⟨l, hl, hsub⟩ := h.sub
    refine ⟨(s.flushed i).dropLast, ?_, fun ha => List.Subperm.trans ?_ (hsub ha)⟩
    · show Function.update s.flushed i (s.flushed i).dropLast i =
        (s.flushed i).dropLast ++ ((s.setPc i .idle).pc i).msg
      rw [hself, Function.update_self]; simp [StreamPc.msg]
    · rw [hl]
      refine List.Sublist.subperm ?_
      cases hm : (s.pc i) <;> simp [StreamPc.msg, List.dropLast_sublist]
  · rw [show s.closed i = true from hc] at hopen; cases hopen
  · change ((s.setPc i .idle).pc i).isClosing = true at hc
    rw [hself] at hc; cases hc

theorem closeInv_stepFail (h : CloseInv i s) (hs : stepFail s j = some t) : CloseInv i t := by
  have hother : ∀ {l : List M}, i ≠ j → CloseInv i
      { s.setPc j .idle with flushed := Function.update s.flushed j l } := fun hij =>
    h.of_same (.of_eq (State.setPc_pc_of_ne hij)) rfl (Function.update_of_ne hij ..) (.refl _)
      (.of_eq rfl rfl rfl rfl) rfl Iff.rfl rfl rfl
  unfold stepFail at hs
  cases hpc : s.pc j with
  | select m r | sendFallback m =>
    simp only [hpc] at hs
    cases hs
    by_cases hij : i = j
    · subst hij
      exact closeInv_giveUp h (h.open_of_msg (by rw [hpc]; simp [StreamPc.msg]))
    · exact hother hij
  | sendClose =>
    simp only [hpc] at hs
    cases hs
    exact h.goes hpc rfl (.inl rfl)
  | waitErr =>
    simp only [hpc] at hs
    cases hs
    cases hcl : s.closed j with
    | true =>
      rw [if_pos rfl]
      exact h.goes hpc rfl (.inl rfl)
    | false =>
      rw [if_neg (by simp)]
      refine CloseInv.of_same (s := { s.setPc j .idle with
        flushed := Function.update s.flushed j (s.flushed j).dropLast }) ?_ (.of_eq rfl) rfl rfl
        (.refl _) (.of_eq rfl rfl rfl rfl) rfl Iff.rfl rfl rfl
      by_cases hij : i = j
      · subst hij
        exact closeInv_giveUp h hcl
      · exact hother hij
  | _ => simp [hpc] at hs

theorem closeInv_stepStream {cap : ℕ} (h : CloseInv i s) (hok : CloseOk cap s (.stream j))
    (hs : stepStream cap s j = some t) : CloseInv i t := by
  unfold stepStream at hs
  cases hpc : s.pc j with
  | idle => simp [hpc] at hs
  | put m r =>
    simp only [hpc] at hs
    split_ifs at hs
    · cases hs
      by_cases hij : i = j
      · subst hij
        exact closeInv_put h hpc
      · exact h.of_same (.of_eq (State.setPc_pc_of_ne hij)) rfl rfl
          (.append _ (Elem.dataFor_of_ne (Ne.symm hij)) (by simp)) (.of_eq rfl rfl rfl rfl) rfl
          Iff.rfl rfl rfl
    · cases hs
      exact h.goes hpc rfl (.inl rfl)
  | select m r =>
    cases r with
    | zero => simp [hpc] at hs
    | succ r =>
      simp only [hpc] at hs
      cases hs
      exact h.goes hpc rfl (.inl rfl)
  | putClose =>
    simp only [hpc] at hs
    split_ifs at hs with hroom
    · cases hs
      by_cases hij : i = j
      · subst hij
        exact closeInv_putClose h hpc (hok.1 hpc hroom)
      · exact h.of_same (.of_eq (State.setPc_pc_of_ne hij)) rfl rfl
          (.append _ rfl (by simp [Ne.symm hij])) (.of_eq rfl rfl rfl rfl) rfl Iff.rfl rfl rfl
    · cases hs
      exact h.goes hpc rfl (.inr rfl)
  | markWorking | casWriting | waitErr =>
    simp only [hpc] at hs
    split_ifs at hs <;> cases hs <;>
      exact h.goes hpc rfl (.inl rfl)
  | writePolling =>
    simp only [hpc] at hs
    cases hs
    exact h.of_same (State.setPc_keeps (by rw [hpc]; exact ⟨rfl, by rintro ⟨⟩⟩) i) rfl rfl
      (.refl _) (.writePolling rfl rfl rfl rfl) rfl Iff.rfl rfl rfl
  | clearWriting | notify =>
    simp only [hpc] at hs
    cases hs
    exact h.goes hpc rfl (.inl rfl)
  | sendPolling =>
    simp only [hpc] at hs
    rw [State.sendTo_eq hs]
    exact h.of_same (State.setPc_keeps (by rw [hpc]; exact ⟨rfl, by rintro ⟨⟩⟩) i) rfl rfl
      (.refl _) (.sendTo (f := .polling) rfl rfl rfl rfl rfl (by simp)) rfl Iff.rfl rfl rfl
  | sendFallback m =>
    simp only [hpc] at hs
    rw [State.sendTo_eq hs]
    by_cases hij : i = j
    · subst hij
      exact closeInv_sendFallback h hpc
    · exact h.of_same (.of_eq (State.setPc_pc_of_ne hij)) rfl rfl (.refl _)
        (.sendTo (f := .fallbackData j m) rfl rfl rfl rfl (Frame.dataFor_of_ne (Ne.symm hij))
          (by simp)) rfl Iff.rfl rfl rfl
  | sendClose =>
    simp only [hpc] at hs
    rw [State.sendTo_eq hs]
    by_cases hij : i = j
    · subst hij
      exact closeInv_sendClose h hpc (hok.2 hpc)
    · exact h.of_same (.of_eq (State.setPc_pc_of_ne hij)) rfl rfl (.refl _)
        (.sendTo (f := .streamClose j) rfl rfl rfl rfl rfl (by simp [Ne.symm hij])) rfl Iff.rfl
        rfl rfl

/-! ## The receiver -/

/-- A step of the receiver: what it pops or reads comes off the front, and what it
    delivers to the stream (`d`) was under way. -/
theorem CloseInv.of_recv (h : CloseInv i s) (d : List M) (hpc : t.pc = s.pc)
    (hcl : t.closed = s.closed) (hfl : t.flushed = s.flushed) (hacc : t.Accepts i ↔ s.Accepts i)
    (hpd : s.Accepts i → t.pendingData i = s.pendingData i ++ d)
    (hun : (s.underWay i).Perm (d ++ t.underWay i))
    (hq : t.queue <:+ s.queue) (hw : t.wire <:+ s.wire)
    (hclear : .closed i ∈ t.queue → s.Clear i → t.Clear i)
    (hann : .streamClose i ∈ t.wire →
      queueFor i s.queue = [] ∨ s.recv ≠ .idle ∨ Announced (· = .streamClose i) s.wire →
      queueFor i t.queue = [] ∨ t.recv ≠ .idle ∨ Announced (· = .streamClose i) t.wire)
    (hfresh : s.Unnotified i → t.recv ≠ .handle (.closed i) ∧ t.closeHandled i = false)
    (hdone : t.recv = .handle (.closed i) ∨ t.closeHandled i = true → t.underWay i = []) :
    CloseInv i t := by
  refine ⟨?_, by rw [hcl, hpc]; exact h.quiet, by rw [hcl, hpc]; exact h.closing, fun hf => ?_,
    h.queue_order.sublist hq.sublist, h.wire_order.sublist hw.sublist,
    fun hc => hclear hc (h.clear (hq.subset hc)),
    fun hc => hann hc (h.announced (hw.subset hc)), hdone⟩
  · obtain ⟨l, hl, hsub⟩ := h.sub
    rw [hfl, hpc]
    refine ⟨l, hl, fun ha => ?_⟩
    have ha := hacc.mp ha
    rw [hpd ha, List.append_assoc]
    exact (hsub ha).trans (hun.append_left _).subperm
  · rw [hcl, hpc] at hf
    have hu := h.fresh hf
    obtain ⟨h1, h2⟩ := hfresh hu
    exact ⟨fun hc => hu.queue (hq.subset hc), fun hc => hu.wire (hw.subset hc), h1, h2⟩

theorem State.Clear.frames_nil (h : s.Clear i) (hr : s.recv ≠ .idle) : framesFor i s.wire = [] := by
  rcases h with h | ⟨hidle, -⟩
  · exact h
  · exact absurd hidle hr

/-- What `deliver` adds to stream `i` is the message, if it is one of the stream. -/
theorem State.deliver_pendingData (h : s.Accepts i) (j : ℕ) (m : M) :
    (s.deliver j m).pendingData i = s.pendingData i ++ if j = i then [m] else [] := by
  split_ifs with hij
  · subst hij; exact State.deliver_pendingData_self h
  · rw [State.deliver_pendingData_of_ne (Ne.symm hij), List.append_nil]

theorem closeInv_recvPolling {rest : List (Frame M)} (h : CloseInv i s) (hr : s.recv = .idle)
    (hsock : s.socket = .polling :: rest) :
    CloseInv i { s with socket := rest, recv := .pop } := by
  have hwire : s.wire = .polling :: (rest ++ (s.loop.frame ++ s.sendCh)) := by
    simp [State.wire, hsock]
  have hun : State.underWay { s with socket := rest, recv := .pop } i = s.underWay i := by
    simp [State.underWay, State.wire, hsock, framesFor_cons, hr, RecvPc.msgFor]
  refine h.of_recv [] rfl rfl rfl Iff.rfl (fun _ => (List.append_nil _).symm) (by rw [hun]; simp)
    (List.suffix_refl _) ⟨[.polling], hwire.symm⟩ (fun _ hclear => .inl ?_)
    (fun _ _ => .inr (.inl (by simp))) (fun hu => ⟨by simp, hu.handled⟩) (fun hd => ?_)
  · rcases hclear with hn | ⟨-, -, hp⟩
    · rw [hwire, framesFor_cons] at hn; exact hn
    · -- the polling event is read: no message of the stream is behind it
      rw [hwire, List.pairwise_cons] at hp
      exact framesFor_eq_nil.mpr fun f hf => hp.1 f hf rfl
  · rw [hun]
    exact h.done (hd.imp_left (by rintro ⟨⟩))

theorem closeInv_recvFallback {rest : List (Frame M)} (h : CloseInv i s) (hr : s.recv = .idle)
    (hsock : s.socket = .fallbackData j m :: rest) :
    CloseInv i { s.deliver j m with socket := rest } := by
  have hwire : s.wire = .fallbackData j m :: (rest ++ (s.loop.frame ++ s.sendCh)) := by
    simp [State.wire, hsock]
  have hwire' : State.wire { s.deliver j m with socket := rest } =
      rest ++ (s.loop.frame ++ s.sendCh) := by simp [State.wire]
  have hun : (s.underWay i).Perm ((if j = i then [m] else []) ++
      State.underWay { s.deliver j m with socket := rest } i) := by
    have ht : State.underWay { s.deliver j m with socket := rest } i =
        queueFor i s.queue ++ framesFor i (rest ++ (s.loop.frame ++ s.sendCh)) := by
      simp [State.underWay, State.wire, hr, RecvPc.msgFor]
    rw [ht, State.underWay, hwire, framesFor_cons, hr]
    by_cases hji : j = i
    · subst hji
      rw [Frame.dataFor_self, if_pos rfl]
      exact List.perm_middle
    · rw [Frame.dataFor_of_ne hji, if_neg hji]
      exact .refl _
  refine h.of_recv _ State.deliver_pc State.deliver_closed State.deliver_flushed
    (State.deliver_accepts s j m i) (fun ha => State.deliver_pendingData ha j m) hun
    (by simp) ⟨[.fallbackData j m], by rw [hwire, hwire']; rfl⟩ (fun _ hclear => ?_)
    (fun _ hann => ?_) (fun hu => ⟨by simp [hr], by simpa using hu.handled⟩) (fun hd => ?_)
  · unfold State.Clear at hclear ⊢
    rw [hwire] at hclear
    rw [hwire', State.deliver_recv, State.deliver_loop, State.deliver_sendCh]
    rcases hclear with hn | ⟨hidle, hback, hp⟩
    · rw [framesFor_cons] at hn
      exact .inl (List.append_eq_nil_iff.mp hn).2
    · exact .inr ⟨hidle, hback, (List.pairwise_cons.mp hp).2⟩
  · rw [hwire] at hann
    rw [hwire', State.deliver_recv, State.deliver_queue]
    exact hann.imp_right (Or.imp_right fun ha => (ha.tail (by simp)).2)
  · have hnil := h.done (by simpa [hr] using hd)
    rw [hnil, List.nil_perm] at hun
    exact (List.append_eq_nil_iff.mp hun).2

theorem closeInv_recvClose {rest : List (Frame M)} (h : CloseInv i s) (hr : s.recv = .idle)
    (hsock : s.socket = .streamClose j :: rest) :
    CloseInv i { s.closeStream j with socket := rest } := by
  have hwire : s.wire = .streamClose j :: (rest ++ (s.loop.frame ++ s.sendCh)) := by
    simp [State.wire, hsock]
  have hun : State.underWay { s.closeStream j with socket := rest } i = s.underWay i := by
    simp [State.underWay, State.closeStream, State.wire, hsock, framesFor_cons]
  refine h.of_recv [] rfl rfl rfl Iff.rfl (fun _ => (List.append_nil _).symm) (by rw [hun]; simp)
    (List.suffix_refl _) ⟨[.streamClose j], hwire.symm⟩ (fun _ hclear => ?_) (fun _ hann => ?_)
    (fun hu => ⟨hu.recv, ?_⟩) (fun hd => ?_)
  · unfold State.Clear at hclear
    rw [hwire] at hclear
    refine hclear.imp (fun hn => by rwa [framesFor_cons] at hn) ?_
    rintro ⟨hidle, hback, hp⟩
    exact ⟨hidle, hback, (List.pairwise_cons.mp hp).2⟩
  · rw [hwire] at hann
    exact hann.imp_right (Or.imp_right fun ha => (ha.tail (by simp)).2)
  · have hij : i ≠ j := by
      rintro rfl
      exact hu.wire (by rw [hwire]; exact List.mem_cons_self)
    exact (Function.update_of_ne hij ..).trans hu.handled
  · rw [hun]
    by_cases hij : i = j
    · -- nothing announces the notification, so the queue holds nothing of the stream
      subst hij
      have hq : queueFor i s.queue = [] := by
        have hmem : Frame.streamClose i ∈ s.wire := by rw [hwire]; exact List.mem_cons_self
        rcases h.announced hmem with hq | hbusy | ha
        · exact hq
        · exact absurd hr hbusy
        · rw [hwire] at ha
          exact absurd rfl (ha.tail (by simp)).1
      have hf : framesFor i s.wire = [] := by
        have ho := h.wire_order
        rw [hwire, WireOrdered, List.pairwise_cons] at ho
        rw [hwire, framesFor_cons]
        exact framesFor_eq_nil.mpr fun f hf => ho.1 f hf rfl
      rw [State.underWay, hr, hq, hf]; rfl
    · refine h.done (hd.imp_right fun hh => ?_)
      rwa [← show (Function.update s.closeHandled j true) i = s.closeHandled i from
        Function.update_of_ne hij ..]

theorem closeInv_pop {e : Elem M} {rest : List (Elem M)} (h : CloseInv i s) (hr : s.recv = .pop)
    (hqueue : s.queue = e :: rest) : CloseInv i { s with queue := rest, recv := .handle e } := by
  have hun : State.underWay { s with queue := rest, recv := .handle e } i = s.underWay i := by
    simp [State.underWay, hqueue, hr, queueFor_cons, RecvPc.msgFor, State.wire]
  refine h.of_recv [] rfl rfl rfl Iff.rfl (fun _ => (List.append_nil _).symm) (by rw [hun]; simp)
    ⟨[e], hqueue.symm⟩ (List.suffix_refl _) (fun _ hclear => .inl (hclear.frames_nil (by simp [hr])))
    (fun _ _ => .inr (.inl (by simp))) (fun hu => ⟨?_, hu.handled⟩) (fun hd => ?_)
  · intro hc
    cases hc
    exact hu.queue (by rw [hqueue]; exact List.mem_cons_self)
  · rw [hun]
    rcases hd with hd | hd
    · -- the receiver is inside `handlePolling`: no frame of the stream is left
      cases hd
      have hf := (h.clear (by rw [hqueue]; exact List.mem_cons_self)).frames_nil (by simp [hr])
      have hq : queueFor i s.queue = [] := by
        have ho := h.queue_order
        rw [hqueue, QueueOrdered, List.pairwise_cons] at ho
        rw [hqueue]
        refine List.filterMap_eq_nil_iff.mpr fun e he => ?_
        rcases List.mem_cons.mp he with rfl | he
        · rfl
        · exact ho.1 e he rfl
      rw [State.underWay, hr, hq, hf]; rfl
    · exact h.done (.inr hd)

theorem closeInv_handleData (h : CloseInv i s) (hr : s.recv = .handle (.data j m)) :
    CloseInv i { s.deliver j m with recv := .pop } := by
  have hun : s.underWay i = (if j = i then [m] else []) ++
      State.underWay { s.deliver j m with recv := .pop } i := by
    have ht : State.underWay { s.deliver j m with recv := .pop } i =
        queueFor i s.queue ++ framesFor i s.wire := by
      simp [State.underWay, State.wire, RecvPc.msgFor]
    rw [ht, State.underWay, hr, RecvPc.msgFor]
    by_cases hji : j = i
    · subst hji
      rw [Elem.dataFor_self, if_pos rfl]; rfl
    · rw [Elem.dataFor_of_ne hji, if_neg hji]; rfl
  refine h.of_recv _ State.deliver_pc State.deliver_closed State.deliver_flushed
    (State.deliver_accepts s j m i) (fun ha => State.deliver_pendingData ha j m) (.of_eq hun)
    (by simp) (by simp [State.wire]) (fun _ hclear => .inl ?_) (fun _ _ => .inr (.inl (by simp)))
    (fun hu => ⟨by simp, by simpa using hu.handled⟩) (fun hd => ?_)
  · simpa [State.wire] using hclear.frames_nil (by simp [hr])
  · have hnil := h.done (.inr (by simpa using hd))
    rw [hnil] at hun
    exact (List.append_eq_nil_iff.mp hun.symm).2

theorem closeInv_handleClosed (h : CloseInv i s) (hr : s.recv = .handle (.closed j)) :
    CloseInv i { s.closeStream j with recv := .pop } := by
  have hun : State.underWay { s.closeStream j with recv := .pop } i = s.underWay i := by
    simp [State.underWay, State.closeStream, State.wire, hr, RecvPc.msgFor]
  refine h.of_recv [] rfl rfl rfl Iff.rfl (fun _ => (List.append_nil _).symm) (by rw [hun]; simp)
    (List.suffix_refl _) (List.suffix_refl _)
    (fun _ hclear => .inl (hclear.frames_nil (by simp [hr]))) (fun _ _ => .inr (.inl (by simp)))
    (fun hu => ⟨by simp, ?_⟩) (fun hd => ?_)
  · have hij : i ≠ j := by
      rintro rfl
      exact hu.recv hr
    exact (Function.update_of_ne hij ..).trans hu.handled
  · rw [hun]
    by_cases hij : i = j
    · exact h.done (.inl (hij ▸ hr))
    · refine h.done (.inr ?_)
      rcases hd with hd | hd
      · cases hd
      · exact (Function.update_of_ne hij ..).symm.trans hd

/-- The moves of the receiver inside `handlePolling` that touch no message; it
    leaves with an empty queue. -/
theorem closeInv_moveRecv {pc : RecvPc M} {flag : Bool} (h : CloseInv i s) (hr : s.recv ≠ .idle)
    (hm : s.recv.msgFor i = pc.msgFor i) (hpc : pc ≠ .handle (.closed i))
    (hidle : pc = .idle → s.queue = []) :
    CloseInv i { s with recv := pc, workingFlag := flag } := by
  have hun : State.underWay { s with recv := pc, workingFlag := flag } i = s.underWay i := by
    simp [State.underWay, State.wire, hm]
  refine h.of_recv [] rfl rfl rfl Iff.rfl (fun _ => (List.append_nil _).symm) (by rw [hun]; simp)
    (List.suffix_refl _) (List.suffix_refl _) (fun _ hclear => .inl (hclear.frames_nil hr))
    (fun _ _ => ?_) (fun hu => ⟨hpc, hu.handled⟩) (fun hd => ?_)
  · by_cases hp : pc = .idle
    · exact .inl (by show queueFor i s.queue = []; rw [hidle hp]; rfl)
    · exact .inr (.inl hp)
  · rw [hun]
    exact h.done (.inr (hd.resolve_left hpc))

theorem closeInv_stepRecv (h : CloseInv i s) (hs : stepRecv s = some t) : CloseInv i t := by
  unfold stepRecv at hs
  cases hr : s.recv with
  | idle =>
    simp only [hr] at hs
    cases hsock : s.socket with
    | nil => simp [hsock] at hs
    | cons f rest =>
      cases f with
      | polling => simp only [hsock] at hs; cases hs; exact closeInv_recvPolling h hr hsock
      | fallbackData j m => simp only [hsock] at hs; cases hs; exact closeInv_recvFallback h hr hsock
      | streamClose j => simp only [hsock] at hs; cases hs; exact closeInv_recvClose h hr hsock
  | pop =>
    simp only [hr] at hs
    cases hq : s.queue with
    | nil =>
      simp only [hq] at hs
      cases hs
      rw [← hq]
      exact closeInv_moveRecv h (by simp [hr]) (by rw [hr]; rfl) (by simp) (by simp)
    | cons e rest => simp only [hq] at hs; cases hs; exact closeInv_pop h hr hq
  | handle e =>
    cases e with
    | data j m => simp only [hr] at hs; cases hs; exact closeInv_handleData h hr
    | closed j => simp only [hr] at hs; cases hs; exact closeInv_handleClosed h hr
  | storeZero | storeOne =>
    simp only [hr] at hs
    cases hs
    exact closeInv_moveRecv h (by simp [hr]) (by rw [hr]; rfl) (by simp) (by simp)
  | loadSize =>
    simp only [hr] at hs
    cases hq : s.queue with
    | nil =>
      simp only [hq] at hs
      cases hs
      rw [← hq]
      exact closeInv_moveRecv h (by simp [hr]) (by rw [hr]; rfl) (by simp) fun _ => hq
    | cons e rest =>
      simp only [hq] at hs
      cases hs
      rw [← hq]
      exact closeInv_moveRecv h (by simp [hr]) (by rw [hr]; rfl) (by simp) (by simp)

/-! ## Runs -/

theorem closeInv_step {cap : ℕ} {a : Act M} (h : CloseInv i s) (hok : CloseOk cap s a)
    (hs : step cap s a = some t) : CloseInv i t := by
  cases a with
  | flush j m fromShm => exact closeInv_stepFlush h hs
  | close j => exact closeInv_stepClose h hs
  | stream j => exact closeInv_stepStream h hok hs
  | fail j => exact closeInv_stepFail h hs
  | send => exact closeInv_stepSend h hs
  | recv => exact closeInv_stepRecv h hs

/-- **Main theorem.** In every run whose notifications are sent as `CloseOk` says:
    once the receiver has handled the notification of a stream it accepts, every
    message whose `Flush` did not fail is in the stream's `pendingData`, with its
    multiplicity. -/
theorem closeHandled_all_delivered (cap : ℕ) (s : State M)
    (hs : (machine M cap).ReachableWhen (CloseOk cap) s) (i : ℕ) (hh : s.closeHandled i = true)
    (hacc : s.Accepts i) : (s.flushed i).Subperm (s.pendingData i) := by
  have hinv : CloseInv i s := by
    refine hs.invariant (CloseInv i) (fun s hs => ?_) fun s a t h hok ht => closeInv_step h hok ht
    obtain ⟨isClient, streams, rfl⟩ := hs
    exact closeInv_initial
  exact hinv.all_delivered hh hacc

/-- One message by each route, both handled before `Close`. -/
def clearCloseRun : List (Act ℕ) :=
  [.flush 0 10 true, .stream 0, .stream 0, .stream 0, .stream 0, .stream 0, .stream 0,
    .flush 0 20 false, .stream 0, .send, .send, .send, .send, .send, .stream 0,
    .recv, .recv, .recv, .recv, .recv, .recv, .recv,
    .close 0, .stream 0, .stream 0, .stream 0, .stream 0, .recv, .recv, .recv]

theorem closeHandled_all_delivered_both_routes :
    ∃ s, (machine ℕ 8).ReachableWhen (CloseOk 8) s ∧ s.closeHandled 0 = true ∧
      s.flushed 0 = [10, 20] ∧ (s.flushed 0).Subperm (s.pendingData 0) := by
  obtain ⟨s, hs, hp⟩ := (machine ℕ 8).exists_reachableWhen_of_run (CloseOk 8)
    (initial true fun _ => true) clearCloseRun
    (fun s => s.closeHandled 0 ∧ s.streams 0 ∧ s.flushed 0 = [10, 20])
    ⟨_, _, rfl⟩ (by decide) (by decide)
  exact ⟨s, hs, hp.1, hp.2.2, closeHandled_all_delivered 8 s hs 0 hp.1 (.inl hp.2.1)⟩

/-- The overtaking run. The receiver has entered `handlePolling` for stream 1;
    stream 0 flushes 20 by fallback, `Flush` returns nil and the frame is in the
    socket; `Close` puts its notification in the queue, and the receiver pops it. -/
def overtakingCloseRun : List (Act ℕ) :=
  [.flush 1 7 true, .stream 1, .stream 1, .stream 1, .stream 1, .stream 1, .stream 1, .recv,
    .flush 0 20 false, .stream 0, .send, .send, .send, .send, .send, .stream 0,
    .close 0, .stream 0, .recv, .recv, .recv, .recv]

/-- `Flush` of 20 returned nil, `Close` was called, and stream 0 is half closed at
    the receiver without it. -/
theorem close_overtakes_data :
    ∃ s, (machine ℕ 8).Reachable s ∧ s.closeHandled 0 = true ∧ s.halfClosed 0 = true ∧
      s.flushed 0 = [20] ∧ s.pendingData 0 = [] ∧ ¬ (s.flushed 0).Subperm (s.pendingData 0) := by
  obtain ⟨s, hs, h1, h2, h3, h4⟩ := (machine ℕ 8).exists_reachable_of_run (initial true fun _ => true)
    overtakingCloseRun (fun s => s.closeHandled 0 ∧ s.halfClosed 0 ∧ s.flushed 0 = [20] ∧
      s.pendingData 0 = []) ⟨_, _, rfl⟩ (by decide)
  exact ⟨s, hs, h1, h2, h3, h4, by rw [h3, h4]; simp⟩

end Shmipc.Session
