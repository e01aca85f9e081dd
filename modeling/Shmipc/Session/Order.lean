import Shmipc.Session.Machine

/-!
# Order of the messages of a stream

A stream that leaves shared memory never returns to it ("to avoid unordering",
stream.go:211), so its queued messages are older than its frames. That alone
does not order them at the receiver: a goroutine that loses the `markWorking`
CAS sends no polling event, and the stream's next message can overtake the
queued one on the socket while the winner has not written its event yet.

* `flush_reorders`: a run of two streams in which that happens.
* `pendingData_prefix_flushed`: in every run in which a fallback frame is handed
  to `sendCh` only while the stream has nothing in the queue, or a polling event
  is already ahead of the frame, or the receiver is inside `handlePolling`
  (`OrderOk`), the receiver sees a prefix of what was flushed.
-/

namespace Shmipc.Session

open Common

variable {M : Type*} {s t : State M} {i j : ℕ} {m : M}

/-! ## Messages among frames and elements -/

@[simp] theorem framesFor_nil : framesFor i ([] : List (Frame M)) = [] := rfl

@[simp] theorem queueFor_nil : queueFor i ([] : List (Elem M)) = [] := rfl

theorem framesFor_append (v w : List (Frame M)) :
    framesFor i (v ++ w) = framesFor i v ++ framesFor i w := List.filterMap_append ..

theorem queueFor_append (v w : List (Elem M)) :
    queueFor i (v ++ w) = queueFor i v ++ queueFor i w := List.filterMap_append ..

theorem framesFor_cons (f : Frame M) (w : List (Frame M)) :
    framesFor i (f :: w) = (f.dataFor i).toList ++ framesFor i w := by
  unfold framesFor
  cases h : f.dataFor i <;> simp [h]

theorem queueFor_cons (e : Elem M) (w : List (Elem M)) :
    queueFor i (e :: w) = (e.dataFor i).toList ++ queueFor i w := by
  unfold queueFor
  cases h : e.dataFor i <;> simp [h]

@[simp] theorem Frame.dataFor_polling : (Frame.polling : Frame M).dataFor i = none := rfl

@[simp] theorem Frame.dataFor_streamClose : (Frame.streamClose j : Frame M).dataFor i = none := rfl

@[simp] theorem Frame.dataFor_self : (Frame.fallbackData i m).dataFor i = some m := if_pos rfl

theorem Frame.dataFor_of_ne (h : j ≠ i) : (Frame.fallbackData j m).dataFor i = none :=
  if_neg h

@[simp] theorem Elem.dataFor_closed : (Elem.closed j : Elem M).dataFor i = none := rfl

@[simp] theorem Elem.dataFor_self : (Elem.data i m).dataFor i = some m := if_pos rfl

theorem Elem.dataFor_of_ne (h : j ≠ i) : (Elem.data j m).dataFor i = none := if_neg h

theorem framesFor_eq_nil {w : List (Frame M)} :
    framesFor i w = [] ↔ ∀ f ∈ w, f.dataFor i = none := List.filterMap_eq_nil_iff

/-! ## Polling events ahead of a frame -/

section Announced

variable {p : Frame M → Prop} {v w : List (Frame M)} {f : Frame M}

theorem announced_of_none (h : ∀ f ∈ w, ¬ p f) : Announced p w := by
  induction w with
  | nil => trivial
  | cons f w ih =>
    have ih := ih fun g hg => h g (List.mem_cons_of_mem f hg)
    cases f with
    | polling => trivial
    | fallbackData j m | streamClose j => exact ⟨h _ List.mem_cons_self, ih⟩

/-- A frame that is not polling was announced: the rest of the wire still is. -/
theorem Announced.tail (h : Announced p (f :: w)) (hf : f ≠ .polling) : ¬ p f ∧ Announced p w := by
  cases f with
  | polling => exact absurd rfl hf
  | fallbackData j m => exact h
  | streamClose j => exact h

theorem Announced.append (h : Announced p w) (hv : (∀ f ∈ v, ¬ p f) ∨ Frame.polling ∈ w) :
    Announced p (w ++ v) := by
  induction w with
  | nil =>
    obtain hv | hv := hv
    · exact announced_of_none hv
    · cases hv
  | cons f w ih =>
    cases f with
    | polling => trivial
    | fallbackData j m | streamClose j => exact ⟨h.1, ih h.2 (by simpa using hv)⟩

theorem Announced.insert_polling (h : Announced p (v ++ w)) :
    Announced p (v ++ .polling :: w) := by
  induction v with
  | nil => trivial
  | cons f v ih =>
    cases f with
    | polling => trivial
    | fallbackData j m | streamClose j => exact ⟨h.1, ih h.2⟩

end Announced

/-! ## The wire -/

theorem State.ackTo_eq (s : State M) (f : Frame M) : s.ackTo f =
    { s with errCh := (s.ackTo f).errCh, abandoned := (s.ackTo f).abandoned } := by
  unfold State.ackTo State.ackStream
  cases f with
  | polling => rfl
  | fallbackData i m | streamClose i => simp only; split <;> rfl

/-- What a step of `send` does: it moves the frames `sent` from its hands to the socket, and
    besides them it touches only its own position, the writing flag, its notification channel
    and the `errCh` of calls. -/
theorem stepSend_inv (h : stepSend s = some t) : ∃ sent,
    s.loop.frame ++ s.sendCh = sent ++ (t.loop.frame ++ t.sendCh) ∧
    t = { s with
      socket := s.socket ++ sent
      loop := t.loop
      sendCh := t.sendCh
      writing := t.writing
      notifyContinueWriteCh := t.notifyContinueWriteCh
      errCh := t.errCh
      abandoned := t.abandoned } := by
  unfold stepSend at h
  cases hl : s.loop with
  | recv =>
    simp only [hl] at h
    cases hc : s.sendCh with
    | nil => simp [hc] at h
    | cons f rest =>
      simp only [hc] at h
      cases h
      exact ⟨[], rfl, by simp⟩
  | casWriting f =>
    simp only [hl] at h
    split_ifs at h <;> cases h <;> exact ⟨[], rfl, by simp⟩
  | waitNotify f =>
    simp only [hl] at h
    split_ifs at h
    cases h
    exact ⟨[], rfl, by simp⟩
  | write f =>
    simp only [hl] at h
    cases h
    exact ⟨[f], rfl, rfl⟩
  | clearWriting f =>
    simp only [hl] at h
    cases h
    exact ⟨[], rfl, by simp⟩
  | ack f =>
    simp only [hl] at h
    cases h
    rw [State.ackTo_eq]
    exact ⟨[], rfl, by simp⟩

/-- The send loop moves frames along the wire and keeps their order. -/
theorem stepSend_wire (h : stepSend s = some t) : t.wire = s.wire := by
  obtain ⟨sent, hsent, ht⟩ := stepSend_inv h
  have hsocket : t.socket = s.socket ++ sent := by rw [ht]
  rw [State.wire, State.wire, hsocket, hsent, List.append_assoc]

theorem stepSend_frame (h : stepSend s = some t) :
    t.pc = s.pc ∧ t.inFallbackState = s.inFallbackState ∧ t.closed = s.closed ∧
      t.flushed = s.flushed ∧ t.queue = s.queue ∧ t.recv = s.recv ∧ t.isClient = s.isClient ∧
      t.streams = s.streams ∧ t.pendingData = s.pendingData ∧
      t.closeHandled = s.closeHandled := by
  obtain ⟨sent, -, ht⟩ := stepSend_inv h
  rw [ht]
  simp

/-! ## The invariant -/

/-- The frame carries a message of stream `i`. -/
abbrev Frame.IsDataFor (i : ℕ) (f : Frame M) : Prop := f.dataFor i ≠ none

/-- The goroutine is about to put a message in the queue. -/
def StreamPc.isPut : StreamPc M → Bool
  | .put _ _ | .select _ _ => true
  | _ => false

/-- The goroutine is about to hand a fallback frame to `sendCh`. -/
def StreamPc.isSendFallback : StreamPc M → Bool
  | .sendFallback _ => true
  | _ => false

/-- The condition on a step: no `Flush` fails, and a fallback frame is handed to
    `sendCh` while the queue holds no message of its stream, or behind a polling
    event, or while the receiver is inside `handlePolling`. -/
def OrderOk (s : State M) : Act M → Prop
  | .stream i => (s.pc i).isSendFallback = true →
      queueFor i s.queue = [] ∨ Frame.polling ∈ s.wire ∨ s.recv ≠ .idle
  | .fail _ => False
  | _ => True

instance [DecidableEq M] (s : State M) : ∀ a, Decidable (OrderOk s a)
  | .stream _ => inferInstanceAs (Decidable (_ → _))
  | .fail _ => isFalse id
  | .flush _ _ _ | .close _ | .send | .recv => isTrue trivial

structure OrderInv (s : State M) : Prop where
  /-- What was flushed is what arrived followed by what is under way. -/
  split : ∀ i, s.Accepts i → s.flushed i = s.pendingData i ++ (s.recv.msgFor i ++
    (queueFor i s.queue ++ (framesFor i s.wire ++ (s.pc i).msg)))
  dropped : ∀ i, ¬ s.Accepts i → s.pendingData i = []
  /-- Only a stream in the fallback state has frames. -/
  sticky : ∀ i, s.inFallbackState i = false → framesFor i s.wire = []
  route : ∀ i, (s.pc i).isPut = true → s.inFallbackState i = false
  fallback : ∀ i, (s.pc i).isSendFallback = true → s.inFallbackState i = true
  /-- A frame of the stream is handled only after its queued messages. -/
  announced : ∀ i, s.recv = .idle →
    queueFor i s.queue = [] ∨ Announced (Frame.IsDataFor i) s.wire

theorem orderInv_initial {isClient : Bool} {streams : ℕ → Bool} :
    OrderInv (initial isClient streams : State M) where
  split i _ := by
    simp [initial, State.wire, LoopPc.frame, RecvPc.msgFor, StreamPc.msg]
  dropped i _ := rfl
  sticky i _ := by simp [initial, State.wire, LoopPc.frame]
  route i h := by simp [initial, StreamPc.isPut] at h
  fallback i h := by simp [initial, StreamPc.isSendFallback] at h
  announced i _ := .inl rfl

theorem State.pc_setPc (s : State M) (i : ℕ) (pc : StreamPc M) (j : ℕ) :
    (s.setPc i pc).pc j = if j = i then pc else s.pc j := Function.update_apply ..

/-- Two positions with the same message on the same route. -/
structure StreamPc.Same (p q : StreamPc M) : Prop where
  msg : p.msg = q.msg
  isPut : p.isPut = q.isPut
  isSendFallback : p.isSendFallback = q.isSendFallback

theorem StreamPc.Same.refl (p : StreamPc M) : p.Same p := ⟨rfl, rfl, rfl⟩

theorem State.setPc_same {p pc : StreamPc M} (hp : s.pc i = p) (h : pc.Same p) (j : ℕ) :
    ((s.setPc i pc).pc j).Same (s.pc j) := by
  rw [State.pc_setPc]
  split_ifs with hji
  · rw [hji, hp]
    exact h
  · exact .refl _

theorem State.isPut_of_setPc {pc : StreamPc M} (hp : pc.isPut = false)
    (h : ((s.setPc i pc).pc j).isPut = true) : (s.pc j).isPut = true := by
  rw [State.pc_setPc] at h
  split_ifs at h
  · rw [hp] at h; cases h
  · exact h

theorem State.isSendFallback_of_setPc {pc : StreamPc M} (hp : pc.isSendFallback = false)
    (h : ((s.setPc i pc).pc j).isSendFallback = true) : (s.pc j).isSendFallback = true := by
  rw [State.pc_setPc] at h
  split_ifs at h
  · rw [hp] at h; cases h
  · exact h

/-- A step that hands no message over keeps the invariant: every goroutine keeps
    its message and its route, and what is under way on each of the two channels
    stays the same. -/
theorem OrderInv.of_same (h : OrderInv s) (hpc : ∀ i, (t.pc i).Same (s.pc i))
    (hfb : t.inFallbackState = s.inFallbackState) (hfl : t.flushed = s.flushed)
    (hq : ∀ i, t.recv.msgFor i ++ queueFor i t.queue = s.recv.msgFor i ++ queueFor i s.queue)
    (hw : ∀ i, framesFor i t.wire = framesFor i s.wire)
    (ha : ∀ i, t.recv = .idle → queueFor i t.queue = [] ∨ Announced (Frame.IsDataFor i) t.wire)
    (hcl : t.isClient = s.isClient) (hst : t.streams = s.streams)
    (hpd : t.pendingData = s.pendingData) : OrderInv t := by
  have hacc : ∀ i, t.Accepts i ↔ s.Accepts i := fun i => by simp only [State.Accepts, hst, hcl]
  refine ⟨fun i hi => ?_, fun i hi => ?_, fun i hi => ?_, fun i hi => ?_, fun i hi => ?_, ha⟩
  · rw [hfl, hpd, hw, (hpc i).msg, ← List.append_assoc (t.recv.msgFor i), hq, List.append_assoc]
    exact h.split i ((hacc i).mp hi)
  · rw [hpd]; exact h.dropped i (fun ha => hi ((hacc i).mpr ha))
  · rw [hw]; exact h.sticky i (hfb ▸ hi)
  · rw [hfb]; exact h.route i ((hpc i).isPut ▸ hi)
  · rw [hfb]; exact h.fallback i ((hpc i).isSendFallback ▸ hi)

theorem State.sendTo_eq {f : Frame M} (h : s.sendTo f = some t) :
    t = { s with sendCh := s.sendCh ++ [f] } := by
  unfold State.sendTo at h
  split_ifs at h
  cases h; rfl

theorem State.wire_sendTo (s : State M) (f : Frame M) :
    State.wire { s with sendCh := s.sendCh ++ [f] } = s.wire ++ [f] := by
  simp [State.wire]

theorem orderInv_stepFlush {fromShm : Bool} (h : OrderInv s)
    (hs : stepFlush s i m fromShm = some t) : OrderInv t := by
  unfold stepFlush at hs
  split at hs
  · rename_i hpc _
    cases hs
    set fb := s.inFallbackState i || !fromShm with hfb
    set pc : StreamPc M := if fb then .sendFallback m else .put m flushRetries with hnew
    have hmsg : pc.msg = [m] := by rw [hnew]; split_ifs <;> rfl
    have hput : pc.isPut = !fb := by rw [hnew]; cases fb <;> rfl
    have hsend : pc.isSendFallback = fb := by rw [hnew]; cases fb <;> rfl
    have hpc' : ∀ j, (s.setPc i pc).pc j = if j = i then pc else s.pc j := State.pc_setPc s i pc
    refine ⟨fun j hj => ?_, h.dropped, fun j hj => ?_, fun j hj => ?_, fun j hj => ?_,
      h.announced⟩
    · have hold := h.split j hj
      show Function.update s.flushed i (s.flushed i ++ [m]) j = s.pendingData j ++
        (s.recv.msgFor j ++ (queueFor j s.queue ++ (framesFor j s.wire ++ ((s.setPc i pc).pc j).msg)))
      rw [hpc', Function.update_apply]
      by_cases hji : j = i
      · subst hji
        rw [if_pos rfl, if_pos rfl, hmsg, hold, hpc]
        simp [StreamPc.msg]
      · rw [if_neg hji, if_neg hji]
        exact hold
    · change Function.update s.inFallbackState i fb j = false at hj
      rw [Function.update_apply] at hj
      split_ifs at hj with hji
      · subst hji
        exact h.sticky j (by rw [hfb] at hj; simp at hj; exact hj.1)
      · exact h.sticky j hj
    · change ((s.setPc i pc).pc j).isPut = true at hj
      show Function.update s.inFallbackState i fb j = false
      rw [hpc'] at hj
      rw [Function.update_apply]
      split_ifs at hj ⊢ with hji
      · simpa [hput] using hj
      · exact h.route j hj
    · change ((s.setPc i pc).pc j).isSendFallback = true at hj
      show Function.update s.inFallbackState i fb j = true
      rw [hpc'] at hj
      rw [Function.update_apply]
      split_ifs at hj ⊢ with hji
      · exact hsend ▸ hj
      · exact h.fallback j hj
  · cases hs

theorem orderInv_stepClose (h : OrderInv s) (hs : stepClose s i = some t) : OrderInv t := by
  unfold stepClose at hs
  split at hs
  · rename_i hpc _
    cases hs
    exact h.of_same (State.setPc_same hpc ⟨rfl, rfl, rfl⟩) rfl rfl (fun _ => rfl) (fun _ => rfl)
      h.announced rfl rfl rfl
  · cases hs

theorem orderInv_stepSend (h : OrderInv s) (hs : stepSend s = some t) : OrderInv t := by
  obtain ⟨h1, h2, -, h4, h5, h6, h7, h8, h9, -⟩ := stepSend_frame hs
  have hw := stepSend_wire hs
  exact h.of_same (fun _ => by rw [h1]; exact .refl _) h2 h4 (fun _ => by rw [h5, h6])
    (fun _ => by rw [hw]) (by rw [h5, h6, hw]; exact h.announced) h7 h8 h9

/-! ### The stream's goroutine -/

/-- `put`: the stream is not in the fallback state, so it has no frame and the
    message goes behind everything of the stream that is under way. -/
theorem orderInv_put {r : ℕ} (h : OrderInv s) (hpc : s.pc i = .put m r) :
    OrderInv { s.setPc i .markWorking with queue := s.queue ++ [.data i m] } := by
  have hfb := h.route i (by rw [hpc]; rfl)
  have hw := h.sticky i hfb
  have hpc' := State.pc_setPc s i .markWorking
  refine ⟨fun j hj => ?_, h.dropped, h.sticky, fun j hj => ?_, fun j hj => ?_, fun j hj => ?_⟩
  · have hold := h.split j hj
    show s.flushed j = s.pendingData j ++ (s.recv.msgFor j ++
      (queueFor j (s.queue ++ [.data i m]) ++
        (framesFor j s.wire ++ ((s.setPc i .markWorking).pc j).msg)))
    rw [hpc', queueFor_append, queueFor_cons, queueFor_nil]
    by_cases hji : j = i
    · subst hji
      rw [hold, hw, hpc, if_pos rfl]
      simp [StreamPc.msg]
    · rw [Elem.dataFor_of_ne (Ne.symm hji), if_neg hji]
      simpa using hold
  · exact h.route j (State.isPut_of_setPc rfl hj)
  · exact h.fallback j (State.isSendFallback_of_setPc rfl hj)
  · show queueFor j (s.queue ++ [.data i m]) = [] ∨ Announced _ s.wire
    by_cases hji : j = i
    · subst hji
      exact .inr (announced_of_none fun f hf => not_not.mpr (framesFor_eq_nil.mp hw f hf))
    · rw [queueFor_append, queueFor_cons, Elem.dataFor_of_ne (Ne.symm hji)]
      simpa using h.announced j hj

/-- `writeFallback`: behind a polling event, or with nothing of the stream left
    in the queue, the frame cannot be handled too early. -/
theorem orderInv_sendFallback (h : OrderInv s) (hpc : s.pc i = .sendFallback m)
    (hok : queueFor i s.queue = [] ∨ Frame.polling ∈ s.wire ∨ s.recv ≠ .idle) :
    OrderInv { s.setPc i .waitErr with sendCh := s.sendCh ++ [.fallbackData i m] } := by
  have hwire : State.wire { s.setPc i .waitErr with sendCh := s.sendCh ++ [.fallbackData i m] } =
      s.wire ++ [.fallbackData i m] := by simp [State.wire, State.setPc]
  refine ⟨fun j hj => ?_, h.dropped, fun j hj => ?_, fun j hj => ?_, fun j hj => ?_,
    fun j hj => ?_⟩
  · have hold := h.split j hj
    rw [hwire, framesFor_append, framesFor_cons, framesFor_nil]
    show s.flushed j = s.pendingData j ++ (s.recv.msgFor j ++ (queueFor j s.queue ++
      (_ ++ ((s.setPc i .waitErr).pc j).msg)))
    rw [State.pc_setPc]
    by_cases hji : j = i
    · subst hji
      rw [hold, hpc, if_pos rfl]
      simp [StreamPc.msg]
    · rw [Frame.dataFor_of_ne (Ne.symm hji), if_neg hji]
      simpa using hold
  · change s.inFallbackState j = false at hj
    have hji : j ≠ i := by rintro rfl; rw [h.fallback j (by rw [hpc]; rfl)] at hj; cases hj
    rw [hwire, framesFor_append, framesFor_cons, Frame.dataFor_of_ne (Ne.symm hji)]
    simpa using h.sticky j hj
  · exact h.route j (State.isPut_of_setPc rfl hj)
  · exact h.fallback j (State.isSendFallback_of_setPc rfl hj)
  · change s.recv = .idle at hj
    rw [hwire]
    show queueFor j s.queue = [] ∨ _
    obtain hq | ha := h.announced j hj
    · exact .inl hq
    by_cases hji : j = i
    · subst hji
      obtain hq | hpoll | hbusy := hok
      · exact .inl hq
      · exact .inr (ha.append (.inr hpoll))
      · exact absurd hj hbusy
    · refine .inr (ha.append (.inl fun f hf => not_not.mpr ?_))
      rw [List.mem_singleton.mp hf]
      exact Frame.dataFor_of_ne (Ne.symm hji)

/-- A frame without a message joins the wire. -/
theorem orderInv_sendTo {f : Frame M} {p pc : StreamPc M} (h : OrderInv s) (hp : s.pc i = p)
    (ht : (s.setPc i pc).sendTo f = some t) (hsame : pc.Same p) (hf : ∀ j, f.dataFor j = none) :
    OrderInv t := by
  rw [State.sendTo_eq ht]
  have hwire : State.wire { s.setPc i pc with sendCh := (s.setPc i pc).sendCh ++ [f] } =
      s.wire ++ [f] := by simp [State.wire, State.setPc]
  refine h.of_same (State.setPc_same hp hsame) rfl rfl (fun _ => rfl) (fun j => ?_)
    (fun j hr => ?_) rfl rfl rfl
  · rw [hwire, framesFor_append, framesFor_cons, hf j]; simp
  · rw [hwire]
    refine (h.announced j hr).imp_right fun ha => ha.append (.inl fun g hg => not_not.mpr ?_)
    rw [List.mem_singleton.mp hg]; exact hf j

theorem orderInv_stepStream {cap : ℕ} (h : OrderInv s) (hok : OrderOk s (.stream i))
    (hs : stepStream cap s i = some t) : OrderInv t := by
  unfold stepStream at hs
  cases hpc : s.pc i with
  | idle => simp [hpc] at hs
  | put m r =>
    simp only [hpc] at hs
    split_ifs at hs
    · cases hs
      exact orderInv_put h hpc
    · cases hs
      exact h.of_same (State.setPc_same hpc ⟨rfl, rfl, rfl⟩) rfl rfl
        (fun _ => rfl) (fun _ => rfl) h.announced rfl rfl rfl
  | select m r =>
    cases r with
    | zero => simp [hpc] at hs
    | succ r =>
      simp only [hpc] at hs
      cases hs
      exact h.of_same (State.setPc_same hpc ⟨rfl, rfl, rfl⟩) rfl rfl
        (fun _ => rfl) (fun _ => rfl) h.announced rfl rfl rfl
  | putClose =>
    simp only [hpc] at hs
    split_ifs at hs
    · cases hs
      have hq : ∀ j, queueFor j (s.queue ++ [.closed i]) = queueFor j s.queue := fun j => by
        rw [queueFor_append, queueFor_cons]; simp
      refine h.of_same (State.setPc_same hpc ⟨rfl, rfl, rfl⟩) rfl rfl (fun j => ?_)
        (fun _ => rfl) (fun j hr => ?_) rfl rfl rfl
      · exact congrArg (s.recv.msgFor j ++ ·) (hq j)
      · exact (hq j).symm ▸ h.announced j hr
    · cases hs
      exact h.of_same (State.setPc_same hpc ⟨rfl, rfl, rfl⟩) rfl rfl (fun _ => rfl)
        (fun _ => rfl) h.announced rfl rfl rfl
  | markWorking | casWriting | waitErr =>
    simp only [hpc] at hs
    split_ifs at hs <;> cases hs <;>
      exact h.of_same (State.setPc_same hpc ⟨rfl, rfl, rfl⟩) rfl rfl (fun _ => rfl)
        (fun _ => rfl) h.announced rfl rfl rfl
  | writePolling =>
    simp only [hpc] at hs
    cases hs
    have hwire : State.wire { s.setPc i .clearWriting with socket := s.socket ++ [.polling] } =
        s.socket ++ .polling :: (s.loop.frame ++ s.sendCh) := by
      simp [State.wire, State.setPc]
    refine h.of_same (State.setPc_same hpc ⟨rfl, rfl, rfl⟩) rfl rfl (fun _ => rfl)
      (fun j => ?_) (fun j hr => ?_) rfl rfl rfl
    · rw [hwire]; simp [State.wire, framesFor_append, framesFor_cons]
    · rw [hwire]
      exact (h.announced j hr).imp_right fun ha => ha.insert_polling
  | clearWriting | notify =>
    simp only [hpc] at hs
    cases hs
    exact h.of_same (State.setPc_same hpc ⟨rfl, rfl, rfl⟩) rfl rfl (fun _ => rfl) (fun _ => rfl)
      h.announced rfl rfl rfl
  | sendPolling | sendClose =>
    simp only [hpc] at hs
    exact orderInv_sendTo h hpc hs ⟨rfl, rfl, rfl⟩ fun _ => rfl
  | sendFallback m =>
    simp only [hpc] at hs
    rw [State.sendTo_eq hs]
    exact orderInv_sendFallback h hpc (hok (by rw [hpc]; rfl))

/-! ### The receiver -/

theorem State.deliver_eq (s : State M) (i : ℕ) (m : M) :
    s.deliver i m = { s with
      streams := (s.deliver i m).streams
      pendingData := (s.deliver i m).pendingData } := by
  unfold State.deliver
  split_ifs <;> rfl

@[simp] theorem State.deliver_pc : (s.deliver i m).pc = s.pc := by rw [State.deliver_eq]

@[simp] theorem State.deliver_inFallbackState :
    (s.deliver i m).inFallbackState = s.inFallbackState := by rw [State.deliver_eq]

@[simp] theorem State.deliver_closed : (s.deliver i m).closed = s.closed := by rw [State.deliver_eq]

@[simp] theorem State.deliver_flushed : (s.deliver i m).flushed = s.flushed := by rw [State.deliver_eq]

@[simp] theorem State.deliver_queue : (s.deliver i m).queue = s.queue := by rw [State.deliver_eq]

@[simp] theorem State.deliver_sendCh : (s.deliver i m).sendCh = s.sendCh := by rw [State.deliver_eq]

@[simp] theorem State.deliver_loop : (s.deliver i m).loop = s.loop := by rw [State.deliver_eq]

@[simp] theorem State.deliver_socket : (s.deliver i m).socket = s.socket := by rw [State.deliver_eq]

@[simp] theorem State.deliver_recv : (s.deliver i m).recv = s.recv := by rw [State.deliver_eq]

@[simp] theorem State.deliver_closeHandled :
    (s.deliver i m).closeHandled = s.closeHandled := by rw [State.deliver_eq]

/-- Whether a stream is accepted does not change. -/
theorem State.deliver_accepts (s : State M) (i : ℕ) (m : M) (j : ℕ) :
    (s.deliver i m).Accepts j ↔ s.Accepts j := by
  unfold State.deliver State.Accepts
  split_ifs with hacc
  · simp only [Bool.or_eq_true, Bool.not_eq_eq_eq_not, Bool.not_true] at hacc
    simp only [Function.update_apply]
    split_ifs with hji
    · subst hji; simp [hacc]
    · rfl
  · rfl

theorem State.deliver_pendingData_self (h : s.Accepts i) :
    (s.deliver i m).pendingData i = s.pendingData i ++ [m] := by
  unfold State.deliver
  rw [if_pos (by simpa [State.Accepts] using h)]
  exact Function.update_self ..

theorem State.deliver_pendingData_of_ne (h : j ≠ i) :
    (s.deliver i m).pendingData j = s.pendingData j := by
  unfold State.deliver
  split_ifs
  · exact Function.update_of_ne h ..
  · rfl

theorem State.deliver_of_not_accepts (h : ¬ s.Accepts i) : s.deliver i m = s := by
  unfold State.deliver
  rw [if_neg (by simpa [State.Accepts] using h)]

/-- The messages of stream `i` between the sender's goroutine and `pendingData`. -/
def State.underWay (s : State M) (i : ℕ) : List M :=
  s.recv.msgFor i ++ (queueFor i s.queue ++ framesFor i s.wire)

/-- The receiver handles the first message of stream `i` that is under way; the
    other streams keep theirs. -/
theorem OrderInv.of_deliver (h : OrderInv s) (i : ℕ) (m : M)
    (hi : s.underWay i = m :: t.underWay i)
    (hj : ∀ j, j ≠ i → s.underWay j = t.underWay j)
    (hpc : t.pc = s.pc) (hfb : t.inFallbackState = s.inFallbackState) (hfl : t.flushed = s.flushed)
    (hacc : ∀ j, t.Accepts j ↔ s.Accepts j)
    (hpd : t.pendingData = (s.deliver i m).pendingData)
    (hw : ∀ j, framesFor j s.wire = [] → framesFor j t.wire = [])
    (ha : ∀ j, t.recv = .idle →
      queueFor j t.queue = [] ∨ Announced (Frame.IsDataFor j) t.wire) : OrderInv t := by
  refine ⟨fun j h' => ?_, fun j h' => ?_, fun j h' => ?_, fun j h' => ?_, fun j h' => ?_, ha⟩
  · rw [hacc] at h'
    have hold : s.flushed j = s.pendingData j ++ (s.underWay j ++ (s.pc j).msg) := by
      rw [h.split j h']; simp [State.underWay]
    have hnew : t.pendingData j ++ t.underWay j = s.pendingData j ++ s.underWay j := by
      rw [hpd]
      by_cases hji : j = i
      · subst hji
        rw [State.deliver_pendingData_self h', hi]; simp
      · rw [State.deliver_pendingData_of_ne hji, hj j hji]
    rw [hfl, hold, ← List.append_assoc, ← hnew, hpc]; simp [State.underWay]
  · rw [hacc] at h'
    rw [hpd]
    by_cases hji : j = i
    · subst hji
      rw [State.deliver_of_not_accepts h']; exact h.dropped j h'
    · rw [State.deliver_pendingData_of_ne hji]; exact h.dropped j h'
  · exact hw j (h.sticky j (hfb ▸ h'))
  · rw [hfb]; exact h.route j (hpc ▸ h')
  · rw [hfb]; exact h.fallback j (hpc ▸ h')

/-- A fallback frame at the head of the socket: its stream has nothing queued,
    since nothing announces it. -/
theorem orderInv_recvFallback {rest : List (Frame M)} (h : OrderInv s) (hr : s.recv = .idle)
    (hsock : s.socket = .fallbackData i m :: rest) :
    OrderInv { s.deliver i m with socket := rest } := by
  have hwire : s.wire = .fallbackData i m :: (rest ++ (s.loop.frame ++ s.sendCh)) := by
    simp [State.wire, hsock]
  have hq : queueFor i s.queue = [] := by
    obtain hq | ha := h.announced i hr
    · exact hq
    · rw [hwire] at ha
      exact absurd (by simp) (ha.tail (by simp)).1
  have ht : ∀ j, State.underWay { s.deliver i m with socket := rest } j =
      queueFor j s.queue ++ framesFor j (rest ++ (s.loop.frame ++ s.sendCh)) := by
    intro j
    simp [State.underWay, State.wire, hr, RecvPc.msgFor]
  have hs : ∀ j, s.underWay j = queueFor j s.queue ++ ((Frame.fallbackData i m).dataFor j).toList ++
      framesFor j (rest ++ (s.loop.frame ++ s.sendCh)) := by
    intro j
    simp [State.underWay, hwire, hr, RecvPc.msgFor, framesFor_cons]
  refine h.of_deliver i m ?_ (fun j hji => ?_) State.deliver_pc State.deliver_inFallbackState
    State.deliver_flushed (State.deliver_accepts s i m) rfl (fun j hj => ?_) (fun j hj => ?_)
  · rw [hs, ht, hq]; simp
  · rw [hs, ht, Frame.dataFor_of_ne (Ne.symm hji)]; simp
  · rw [hwire, framesFor_cons] at hj
    simpa [State.wire] using (List.append_eq_nil_iff.mp hj).2
  · have ha := h.announced j hr
    rw [hwire] at ha
    simpa [State.wire] using ha.imp_right fun ha => (ha.tail (by simp)).2

theorem orderInv_handleData (h : OrderInv s) (hr : s.recv = .handle (.data i m)) :
    OrderInv { s.deliver i m with recv := .pop } := by
  have ht : ∀ j, State.underWay { s.deliver i m with recv := .pop } j =
      queueFor j s.queue ++ framesFor j s.wire := by
    intro j
    simp [State.underWay, State.wire, RecvPc.msgFor]
  have hs : ∀ j, s.underWay j = ((Elem.data i m).dataFor j).toList ++
      (queueFor j s.queue ++ framesFor j s.wire) := by
    intro j
    simp [State.underWay, hr, RecvPc.msgFor]
  refine h.of_deliver i m ?_ (fun j hji => ?_) State.deliver_pc State.deliver_inFallbackState
    State.deliver_flushed (State.deliver_accepts s i m) rfl (fun j hj => ?_) (fun j hj => nomatch hj)
  · rw [hs, ht]; simp
  · rw [hs, ht, Elem.dataFor_of_ne (Ne.symm hji)]; simp
  · simpa [State.wire] using hj

theorem orderInv_stepRecv (h : OrderInv s) (hs : stepRecv s = some t) : OrderInv t := by
  unfold stepRecv at hs
  cases hr : s.recv with
  | idle =>
    simp only [hr] at hs
    cases hsock : s.socket with
    | nil => simp [hsock] at hs
    | cons f rest =>
      have hwire : s.wire = f :: (rest ++ (s.loop.frame ++ s.sendCh)) := by
        simp [State.wire, hsock]
      cases f with
      | polling =>
        simp only [hsock] at hs
        cases hs
        refine h.of_same (fun _ => .refl _) rfl rfl (fun j => ?_) (fun j => ?_)
          (fun j hj => nomatch hj) rfl rfl rfl
        · rw [hr]; rfl
        · rw [hwire, framesFor_cons]; rfl
      | fallbackData j m =>
        simp only [hsock] at hs
        cases hs
        exact orderInv_recvFallback h hr hsock
      | streamClose j =>
        simp only [hsock] at hs
        cases hs
        refine h.of_same (fun _ => .refl _) rfl rfl (fun _ => rfl) (fun k => ?_)
          (fun k _ => ?_) rfl rfl rfl
        · rw [hwire, framesFor_cons]; rfl
        · have ha := h.announced k hr
          rw [hwire] at ha
          exact ha.imp_right fun ha => (ha.tail (by simp)).2
  | pop =>
    simp only [hr] at hs
    cases hq : s.queue with
    | nil =>
      simp only [hq] at hs
      cases hs
      exact h.of_same (fun _ => .refl _) rfl rfl (fun _ => by rw [hr, hq]; rfl) (fun _ => rfl)
        (fun _ hj => nomatch hj) rfl rfl rfl
    | cons e rest =>
      simp only [hq] at hs
      cases hs
      refine h.of_same (fun _ => .refl _) rfl rfl (fun j => ?_) (fun _ => rfl)
        (fun _ hj => nomatch hj) rfl rfl rfl
      rw [hr, hq, queueFor_cons]; rfl
  | handle e =>
    cases e with
    | data i m =>
      simp only [hr] at hs
      cases hs
      exact orderInv_handleData h hr
    | closed i =>
      simp only [hr] at hs
      cases hs
      exact h.of_same (fun _ => .refl _) rfl rfl (fun _ => by rw [hr]; rfl) (fun _ => rfl)
        (fun _ hj => nomatch hj) rfl rfl rfl
  | storeZero | storeOne =>
    simp only [hr] at hs
    cases hs
    exact h.of_same (fun _ => .refl _) rfl rfl (fun _ => by rw [hr]; rfl) (fun _ => rfl)
      (fun _ hj => nomatch hj) rfl rfl rfl
  | loadSize =>
    simp only [hr] at hs
    cases hq : s.queue with
    | nil =>
      simp only [hq] at hs
      cases hs
      exact h.of_same (fun _ => .refl _) rfl rfl (fun _ => by rw [hr, hq]; rfl) (fun _ => rfl)
        (fun _ _ => .inl rfl) rfl rfl rfl
    | cons e rest =>
      simp only [hq] at hs
      cases hs
      exact h.of_same (fun _ => .refl _) rfl rfl (fun _ => by rw [hr, hq]; rfl) (fun _ => rfl)
        (fun _ hj => nomatch hj) rfl rfl rfl

/-! ## Runs -/

theorem orderInv_step {cap : ℕ} {a : Act M} (h : OrderInv s) (hok : OrderOk s a)
    (hs : step cap s a = some t) : OrderInv t := by
  cases a with
  | flush i m fromShm => exact orderInv_stepFlush h hs
  | close i => exact orderInv_stepClose h hs
  | stream i => exact orderInv_stepStream h hok hs
  | fail i => exact hok.elim
  | send => exact orderInv_stepSend h hs
  | recv => exact orderInv_stepRecv h hs

theorem OrderInv.prefix_flushed (h : OrderInv s) (i : ℕ) : s.pendingData i <+: s.flushed i := by
  by_cases hacc : s.Accepts i
  · exact ⟨_, (h.split i hacc).symm⟩
  · rw [h.dropped i hacc]; exact List.nil_prefix

/-- **Main theorem.** In every run whose fallback frames are handed over as
    `OrderOk` says, what a receiving stream has been given is at every moment a
    prefix of what was flushed on the stream. -/
theorem pendingData_prefix_flushed (cap : ℕ) (s : State M)
    (hs : (machine M cap).ReachableWhen OrderOk s) (i : ℕ) :
    s.pendingData i <+: s.flushed i := by
  have hinv : OrderInv s := by
    refine hs.invariant OrderInv (fun s hs => ?_) fun s a t h hok ht => orderInv_step h hok ht
    obtain ⟨isClient, streams, rfl⟩ := hs
    exact orderInv_initial
  exact hinv.prefix_flushed i

/-- Both routes, the frame behind the polling event. -/
def announcedRun : List (Act ℕ) :=
  [.flush 0 10 true, .stream 0, .stream 0, .stream 0, .stream 0, .stream 0, .stream 0,
    .flush 0 20 false, .stream 0, .send, .send, .send,
    .recv, .recv, .recv, .recv, .recv, .recv, .recv]

theorem pendingData_prefix_flushed_both_routes :
    ∃ s, (machine ℕ 8).ReachableWhen OrderOk s ∧ s.pendingData 0 = [10, 20] ∧
      s.pendingData 0 <+: s.flushed 0 := by
  obtain ⟨s, hs, hp⟩ := (machine ℕ 8).exists_reachableWhen_of_run OrderOk
    (initial false fun _ => false) announcedRun (fun s => s.pendingData 0 = [10, 20])
    ⟨_, _, rfl⟩ (by decide) (by decide)
  exact ⟨s, hs, hp, pendingData_prefix_flushed 8 s hs 0⟩

/-- The overtaking run. Stream 1 wins `markWorking` and stops before it writes
    the polling event; stream 0 puts 10 and loses the CAS, then flushes 20 by
    fallback, and its frame is written and handled first. -/
def overtakingRun : List (Act ℕ) :=
  [.flush 1 7 true, .stream 1, .stream 1, .flush 0 10 true, .stream 0, .stream 0,
    .flush 0 20 false, .stream 0, .send, .send, .send, .recv]

/-- The order is lost in `overtakingRun`: 20 has arrived, 10 has not. -/
theorem flush_reorders :
    ∃ s, (machine ℕ 8).Reachable s ∧ s.flushed 0 = [10, 20] ∧ s.pendingData 0 = [20] ∧
      ¬ s.pendingData 0 <+: s.flushed 0 := by
  obtain ⟨s, hs, hf, hd⟩ := (machine ℕ 8).exists_reachable_of_run (initial false fun _ => false)
    overtakingRun (fun s => s.flushed 0 = [10, 20] ∧ s.pendingData 0 = [20]) ⟨_, _, rfl⟩ (by decide)
  exact ⟨s, hs, hf, hd, by rw [hf, hd]; decide⟩

end Shmipc.Session
