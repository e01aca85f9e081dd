import Shmipc.Buffer.Held
import Shmipc.Common.Refinement
import Shmipc.Stream.DataPath

/-!
# Streams are pipes of bytes

What the two processes of the data path look like to their users: each end of a stream has
bytes that were written and not flushed, messages that came in, and bytes to read; between
the processes there are two queues of messages. No memory, no slots, no buffers.

Results:
* `data_path_refines_pipes`: every run of the data path shows what a run of the pipes shows.
-/

namespace Shmipc.DataPath

open Common Buffer LinkedBuffer
open Shmipc.Stream (StreamState)

/-! ## Pipes -/

/-- One end of a stream. -/
structure Pipe where
  side : View
  id : ℕ
  registered : Bool := true
  state : StreamState := .opened
  /-- Written, and not flushed yet. -/
  written : List UInt8 := []
  /-- The messages that came in since the last `moveTo`. -/
  pending : List (List UInt8) := []
  unread : List UInt8 := []
  deriving DecidableEq

structure Pipes where
  ends : List Pipe := []
  /-- The messages to a process: the id of the stream and the bytes. -/
  queue : View → List (ℕ × List UInt8) := fun _ => []

/-- What becomes of flushed bytes. -/
inductive Outcome
  | queued
  /-- They go to the socket. -/
  | frame
  | failed
  deriving DecidableEq

/-- What is seen of a step. -/
inductive Seen
  | nothing
  | reply (r : Reply)
  /-- Bytes for the stream with this id in process `v`. -/
  | flushed (v : View) (id : ℕ) (how : Outcome) (bs : List UInt8)
  /-- A message came in for the stream with this id in process `v`; it goes to end `k`, or is
      dropped. -/
  | arrived (v : View) (id : ℕ) (k : Option ℕ) (bs : List UInt8)
  deriving DecidableEq

namespace Pipes

def onEnd (p : Pipes) (k : ℕ) (f : Pipe → Option (Pipe × Seen)) : Option (Pipes × Seen) :=
  match p.ends[k]? with
  | none => none
  | some e => (f e).map fun (e, o) => ({ p with ends := p.ends.set k e }, o)

def getStream (p : Pipes) (v : View) (id : ℕ) : Pipes × Option ℕ :=
  match p.ends.findIdx? fun e => e.side = v ∧ e.registered = true ∧ e.id = id with
  | some k => (p, some k)
  | none =>
    match v with
    | .creator => (p, none)
    | .mapper => ({ p with ends := p.ends ++ [{ side := .mapper, id := id }] }, some p.ends.length)

/-- A message for a stream. -/
def deliver (p : Pipes) (v : View) (id : ℕ) (bs : List UInt8) : Option (Pipes × Seen) :=
  match p.getStream v id with
  | (p, some k) => p.onEnd k fun e =>
    some ({ e with pending := e.pending ++ [bs] }, .arrived v id (some k) bs)
  | (p, none) => some (p, .arrived v id none bs)

def flush (p : Pipes) (k : ℕ) (how : Outcome) : Option (Pipes × Seen) :=
  match p.ends[k]? with
  | none => none
  | some e =>
    if e.written = [] then some (p, .nothing)
    else
      let how := if e.state = .opened then how else .failed
      some ({
        ends := p.ends.set k { e with written := [] }
        queue := if how = .queued then
            Function.update p.queue e.side.peer (p.queue e.side.peer ++ [(e.id, e.written)])
          else p.queue }, .flushed e.side.peer e.id how e.written)

/-- The steps; `how` says what becomes of flushed bytes. -/
def next (p : Pipes) (how : Outcome) : Act → Option (Pipes × Seen)
  | .openStream id =>
    match p.getStream .creator id with
    | (p, none) => some ({ p with ends := p.ends ++ [{ side := .creator, id := id }] }, .nothing)
    | (_, some _) => none
  | .unregister k => p.onEnd k fun e => some ({ e with registered := false }, .nothing)
  | .halfClose k => p.onEnd k fun e =>
    some ({ e with state := if e.state = .opened then .halfClosed else e.state }, .nothing)
  | .setCallbacks k | .setDeadlines k _ _ | .releasePreviousRead k => p.onEnd k fun e =>
    some (e, .nothing)
  | .write k c => p.onEnd k fun e => some ({ e with written := e.written ++ c.bytes }, .nothing)
  | .flush k _ => p.flush k how
  | .poll v =>
    match p.queue v with
    | [] => none
    | (id, bs) :: rest => deliver { p with queue := Function.update p.queue v rest } v id bs
  | .fallbackData v id payload => p.deliver v id payload
  | .moveTo k => p.onEnd k fun e =>
    some ({ e with unread := e.unread ++ e.pending.flatten, pending := [] }, .nothing)
  | .call k c => p.onEnd k fun e =>
    if c.Ready e.unread.length then
      some ({ e with unread := (c.flat e.unread).2 }, .reply (c.flat e.unread).1)
    else some (e, .nothing)
  | .releaseReadAndReuse k => p.onEnd k fun e => if e.written = [] then some (e, .nothing) else none
  | .put k => p.onEnd k fun e =>
    if e.state = .opened ∧ e.unread = [] ∧ e.pending = [] ∧ e.written = [] then some (e, .nothing)
    else none

/-- The runs of the pipes, from the state without streams. -/
def spec : Spec Pipes Act Seen where
  init p := p = {}
  Step p a o q := ∃ how, p.next how a = some (q, o)

end Pipes

/-! ## The data path, seen as pipes -/

def End.abs (m : Mem) (e : End) : Pipe where
  side := e.side
  id := e.id
  registered := e.registered
  state := e.state
  written := e.sendBuf.unread m
  pending := e.pendingData.map (·.bytes m)
  unread := e.recvBuf.unread m

/-- What `Flush` hands over of the bytes that are written to `e`, where `m` is the memory as
    it leaves it. -/
def sentSeen (m : Mem) (e : Pipe) : Sent → Seen
  | .nothing => .nothing
  | .failed => .flushed e.side.peer e.id .failed e.written
  | .queued root => .flushed e.side.peer e.id .queued ((Part.chain root).bytes m)
  | .frame _ payload => .flushed e.side.peer e.id .frame payload

namespace Net

def abs (s : Net) : Pipes where
  ends := s.ends.map (End.abs s.mem)
  queue v := (s.queue v).map fun q => (q.1, (Part.chain q.2).bytes s.mem)

/-- What a step shows: the reply of a reader, what `Flush` hands over or loses, and the
    message that comes in, with the stream that it is for. -/
def see (bm : View → Manager) (s : Net) : Act → Seen
  | .flush k put =>
    match s.ends[k]? with
    | none => .nothing
    | some e =>
      match e.flush (bm e.side) s.mem put with
      | .ok (m, _, sent) => sentSeen m (e.abs s.mem) sent
      | .error _ => .nothing
  | .call k c =>
    match s.ends[k]? with
    | none => .nothing
    | some e =>
      if c.Ready e.recvBuf.len then
        match c.run (bm e.side) s.mem e.recvBuf with
        | .ok (_, _, r) => .reply r
        | .error _ => .nothing
      else .nothing
  | .poll v =>
    match s.queue v with
    | [] => .nothing
    | (id, root) :: _ => .arrived v id (s.getStream v id).2 ((Part.chain root).bytes s.mem)
  | .fallbackData v id payload => .arrived v id (s.getStream v id).2 payload
  | _ => .nothing

/-- What the users keep to: calls write less than `2 ^ 32` bytes and fill what they reserve,
    readers ask for something, and the buffers are exchanged only when all is flushed. No
    fallback frame is empty. -/
def Careful (s : Net) : Act → Prop
  | .write _ c => c.Ok
  | .call _ c => c.Positive
  | .fallbackData _ _ payload => payload ≠ []
  | .releaseReadAndReuse k | .put k => ∀ e ∈ s.ends[k]?, e.sendBuf.len = 0
  | _ => True

instance (s : Net) : ∀ a, Decidable (Careful s a)
  | .write _ c => inferInstanceAs (Decidable c.Ok)
  | .call _ c => inferInstanceAs (Decidable c.Positive)
  | .fallbackData _ _ payload => inferInstanceAs (Decidable (payload ≠ []))
  | .releaseReadAndReuse k | .put k =>
    inferInstanceAs (Decidable (∀ e ∈ s.ends[k]?, e.sendBuf.len = 0))
  | .openStream _ | .unregister _ | .halfClose _ | .setCallbacks _ | .setDeadlines .. | .flush ..
  | .poll _ | .moveTo _ | .releasePreviousRead _ => inferInstanceAs (Decidable True)

/-- The careful runs on the created memory `m`, with what is seen of them. -/
def spec (bm : View → Manager) (m : Mem) : Spec Net Act Seen := (runs bm m).seen Careful (see bm)

end Net

/-! ## One end -/

/-- The buffers of an end can be read and written. -/
structure End.Sound (cs : List SizeClass) (e : End) : Prop where
  recv : e.recvBuf.Sound cs
  send : e.sendBuf.Thin
  pending : ∀ u ∈ e.pendingData, u.Sound

section Ends

variable {cs : List SizeClass} {len : ℕ} {hL : Layout cs len} {bm : Manager} {m m' : Mem}
  {e e' : End} {rest : List Part} {p : Part}

theorem End.Sound.parts (h : e.Sound cs) : ∀ p ∈ e.parts, p.Sound cs := by
  intro p hp
  rcases List.mem_cons.mp hp with rfl | hp
  · exact h.recv
  rcases List.mem_cons.mp hp with rfl | hp
  · exact h.send
  obtain ⟨u, -, hu⟩ := List.mem_filterMap.mp hp
  cases u with
  | chain root =>
    cases hu
    trivial
  | fallback payload => cases hu

theorem pending_congr {pending : List Unread}
    (h : ∀ p ∈ pendingParts pending, p.bytes m' = p.bytes m) :
    pending.map (·.bytes m') = pending.map (·.bytes m) := by
  refine List.map_congr_left fun u hu => ?_
  cases u with
  | fallback payload => rfl
  | chain root => exact h (.chain root) (List.mem_filterMap.mpr ⟨_, hu, rfl⟩)

/-- An end whose parts hold what they held looks the same. -/
theorem End.abs_congr (h : ∀ p ∈ e.parts, p.bytes m' = p.bytes m) : e.abs m' = e.abs m := by
  have hrecv := h (.recv e.recvBuf) (by simp [End.parts])
  have hsend := h (.send e.sendBuf) (by simp [End.parts])
  have hpending : e.pendingData.map (·.bytes m') = e.pendingData.map (·.bytes m) :=
    pending_congr fun p hp => h p (by simp [End.parts, hp])
  unfold End.abs
  rw [show e.recvBuf.unread m' = e.recvBuf.unread m from hrecv,
    show e.sendBuf.unread m' = e.sendBuf.unread m from hsend, hpending]

/-- What an operation on some parts of the end leaves alone. -/
theorem End.Sound.apart {olds mine news : List Part} (hs : e.Sound cs)
    (h : (ownership hL).Shared m (olds ++ (mine ++ rest))) (hstep : (ownership hL).Steps m olds m' news)
    (hsub : ∀ p ∈ mine, p ∈ e.parts) : ∀ p ∈ mine, p.bytes m' = p.bytes m :=
  fun p hp => held_apart h hstep (List.mem_append_left _ hp) (hs.parts p (hsub p hp))

/-- The send buffer, and what else the end has. -/
theorem End.send_perm (e : End) (rest : List Part) : (e.parts ++ rest).Perm
    ([.send e.sendBuf] ++ ((.recv e.recvBuf :: pendingParts e.pendingData) ++ rest)) :=
  List.Perm.swap ..

theorem End.apart_send {news : List Part} (hs : e.Sound cs)
    (h : (ownership hL).Shared m (e.parts ++ rest))
    (hstep : (ownership hL).Steps m [.send e.sendBuf] m' news) :
    e.recvBuf.unread m' = e.recvBuf.unread m ∧
      e.pendingData.map (·.bytes m') = e.pendingData.map (·.bytes m) := by
  have hkept := hs.apart (h.perm (e.send_perm rest).symm) hstep fun p hp => by
    rw [List.mem_cons] at hp
    simp only [End.parts, List.mem_append, List.mem_cons]
    tauto
  exact ⟨hkept (.recv e.recvBuf) List.mem_cons_self,
    pending_congr fun p hp => hkept p (List.mem_cons_of_mem _ hp)⟩

theorem End.apart_recv {news : List Part} (hs : e.Sound cs)
    (h : (ownership hL).Shared m (e.parts ++ rest))
    (hstep : (ownership hL).Steps m [.recv e.recvBuf] m' news) :
    e.sendBuf.unread m' = e.sendBuf.unread m ∧
      e.pendingData.map (·.bytes m') = e.pendingData.map (·.bytes m) := by
  have hsplit : (ownership hL).Shared m
      ([.recv e.recvBuf] ++ ((.send e.sendBuf :: pendingParts e.pendingData) ++ rest)) := h
  have hkept := hs.apart hsplit hstep fun p hp => List.mem_cons_of_mem _ hp
  exact ⟨hkept (.send e.sendBuf) List.mem_cons_self,
    pending_congr fun p hp => hkept p (List.mem_cons_of_mem _ hp)⟩

/-! ### What each operation does -/

theorem WriteCall.Ok.small {c : WriteCall} (hc : c.Ok) : c.Small := by
  cases c with
  | reserve size bs =>
    obtain ⟨rfl, hlt⟩ := hc
    show (bs.length : ℤ) < 2 ^ 32
    omega
  | _ => trivial

variable (hM : ManagerOk cs bm) (hs : e.Sound cs) (h : (ownership hL).Shared m (e.parts ++ rest))

include hM hs h

theorem End.write_abs {c : WriteCall} (hc : c.Ok) (hrun : e.write bm m c = .ok (m', e')) :
    e'.Sound cs ∧ e'.abs m' = { e.abs m with written := (e.abs m).written ++ c.bytes } := by
  obtain ⟨⟨m1, l⟩, hwrite, hret⟩ := Go.bind_ok.mp hrun
  cases hret
  obtain ⟨hunread, hthin⟩ := write_held hM hc (h.perm (e.send_perm rest).symm) hs.send hwrite
  obtain ⟨hrecv, hpending⟩ := End.apart_send hs h (Buffer.write_steps hM (WriteCall.Ok.small hc) hwrite)
  refine ⟨⟨hs.recv, hthin, hs.pending⟩, ?_⟩
  unfold End.abs
  rw [hunread, hrecv, hpending]

theorem End.flush_abs {put : Bool} {sent : Sent} (hrun : e.flush bm m put = .ok (m', e', sent)) :
    e'.Sound cs ∧ e'.abs m' = { e.abs m with written := [] } ∧
      match sent with
      | .nothing => (e.abs m).written = []
      | .failed => (e.abs m).written ≠ []
      | .frame _ payload => payload = (e.abs m).written ∧ (e.abs m).written ≠ [] ∧ e.state = .opened
      | .queued root => (Part.chain root).bytes m' = (e.abs m).written ∧ (e.abs m).written ≠ [] ∧
          e.state = .opened := by
  obtain ⟨⟨m1, l, fb, sent1⟩, hflush, hret⟩ := Go.bind_ok.mp hrun
  cases hret
  obtain ⟨hthin, hunread, hsent⟩ := flush_held hM (h.perm (e.send_perm rest).symm) hs.send hflush
  obtain ⟨hrecv, hpending⟩ := End.apart_send hs h (Buffer.flush_steps hM hflush)
  refine ⟨⟨hs.recv, hthin, hs.pending⟩, ?_, ?_⟩
  · unfold End.abs
    rw [hunread, hrecv, hpending]
  -- only an open stream hands something over
  have hopen : sent ≠ .nothing → sent ≠ .failed → e.state = .opened := by
    intro hn hf
    by_contra hne
    exact (flush_not_opened (decide_eq_false hne) hflush).elim hn hf
  cases sent with
  | nothing => exact hsent
  | failed => exact hsent
  | frame event payload | queued root => exact ⟨hsent.1, hsent.2, hopen (by simp) (by simp)⟩

theorem End.moveTo_abs (hrun : e.moveTo bm m = .ok (m', e')) : e'.Sound cs ∧ e'.abs m' =
      { e.abs m with unread := (e.abs m).unread ++ (e.abs m).pending.flatten, pending := [] } := by
  obtain ⟨⟨m1, l⟩, hmove, hret⟩ := Go.bind_ok.mp hrun
  cases hret
  have hperm : (e.parts ++ rest).Perm
      ((.recv e.recvBuf :: pendingParts e.pendingData) ++ ([.send e.sendBuf] ++ rest)) := by
    rw [← List.append_assoc]
    exact ((List.perm_append_singleton ..).symm.cons _).append_right _
  obtain ⟨hsound, hunread⟩ := moveTo_held hM _ m e.recvBuf (h.perm hperm.symm) hs.recv hs.pending hmove
  have hsend := hs.apart (h.perm hperm.symm) (Buffer.moveTo_steps hM _ _ _ hmove) (fun p hp => by
    rw [List.mem_singleton.mp hp]
    simp [End.parts]) (.send e.sendBuf) List.mem_cons_self
  refine ⟨⟨hsound, hs.send, by simp⟩, ?_⟩
  unfold End.abs
  rw [hunread, show e.sendBuf.unread m' = e.sendBuf.unread m from hsend, List.flatMap_def]
  rfl

theorem End.call_abs {c : Call} (hpos : c.Positive) (hr : c.Ready e.recvBuf.len)
    (hrun : e.call bm m c = .ok (m', e')) :
    e'.Sound cs ∧ e'.abs m' = { e.abs m with unread := (c.flat (e.abs m).unread).2 } ∧
      ∃ m1 l, c.run bm m e.recvBuf = .ok (m1, l, (c.flat (e.abs m).unread).1) := by
  obtain ⟨⟨m1, l, r⟩, hcall, hret⟩ := Go.bind_ok.mp hrun
  cases hret
  obtain ⟨hsound, hreply, hunread⟩ := call_held hM hpos hr h hs.recv hcall
  obtain ⟨hsend, hpending⟩ := End.apart_recv hs h (Buffer.call_steps hM hcall)
  refine ⟨⟨hsound, hs.send, hs.pending⟩, ?_, m', l, hreply ▸ hcall⟩
  unfold End.abs
  rw [hunread, hsend, hpending]

theorem End.releasePreviousRead_abs (hrun : e.releasePreviousRead bm m = .ok (m', e')) :
    e'.Sound cs ∧ e'.abs m' = e.abs m := by
  obtain ⟨⟨m1, l⟩, hrel, hret⟩ := Go.bind_ok.mp hrun
  cases hret
  obtain ⟨hsound, hunread⟩ := releasePreviousRead_held hM h hs.recv hrel
  obtain ⟨hsend, hpending⟩ := End.apart_recv hs h (Buffer.releasePreviousRead_steps hM hrel)
  refine ⟨⟨hsound, hs.send, hs.pending⟩, ?_⟩
  unfold End.abs
  rw [hunread, hsend, hpending]

theorem End.releaseReadAndReuse_abs (h0 : e.sendBuf.len = 0)
    (hrun : e.releaseReadAndReuse bm m = .ok (m', e')) :
    e'.Sound cs ∧ e'.abs m' = e.abs m ∧ (e.abs m).written = [] := by
  obtain ⟨⟨m1, recv, send⟩, hrel, hret⟩ := Go.bind_ok.mp hrun
  cases hret
  have hnil : e.sendBuf.unread m = [] := by
    have hsend : SendPart cs m e.sendBuf := h.1 (.send e.sendBuf) (by simp [End.parts])
    exact hsend.unread_eq_nil.mpr h0
  obtain ⟨hsound, hthin, hrecv, hsend⟩ := releaseReadAndReuse_held hM h hs.recv hs.send h0 hrel
  have hsplit : (ownership hL).Shared m
      ([.recv e.recvBuf, .send e.sendBuf] ++ (pendingParts e.pendingData ++ rest)) := h
  have hkept := hs.apart hsplit (Buffer.releaseReadAndReuse_steps hM hrel) fun p hp =>
    List.mem_append_right _ hp
  refine ⟨⟨hsound, hthin, hs.pending⟩, ?_, hnil⟩
  unfold End.abs
  rw [hrecv, hsend, hnil, pending_congr hkept]

theorem End.put_abs (h0 : e.sendBuf.len = 0) (hrun : e.put bm m = some (.ok (m', e'))) :
    e'.Sound cs ∧ e'.abs m' = e.abs m ∧ (e.abs m).state = .opened ∧ (e.abs m).unread = [] ∧
      (e.abs m).pending = [] ∧ (e.abs m).written = [] := by
  obtain ⟨e1, -, hreset, hrel⟩ := End.put_inv hrun
  obtain ⟨hopen, hlen, hpending, rfl⟩ := End.reset_inv hreset
  have hs1 : End.Sound cs { e with
      readDeadline := 0, writeDeadline := 0, inFallbackState := false, callbacks := false } :=
    ⟨hs.recv, hs.send, hs.pending⟩
  obtain ⟨hsound, habs, hwritten⟩ := End.releaseReadAndReuse_abs hM hs1 h h0 hrel.symm
  obtain ⟨-, free, hrecv⟩ := shared_recvOk h hs.recv
  have hunread : e.recvBuf.unread m = [] := by
    have := hrecv.len
    exact List.eq_nil_of_length_eq_zero (by omega)
  refine ⟨hsound, habs, hopen, hunread, ?_, hwritten⟩
  show e.pendingData.map _ = []
  rw [hpending]
  rfl

end Ends

/-! ## Both processes -/

/-- All slots are accounted for, and the buffers can be used. -/
structure Net.Sound {cs : List SizeClass} {len : ℕ} (hL : Layout cs len) (s : Net) : Prop where
  shared : (ownership hL).Shared s.mem s.parts
  ends : ∀ e ∈ s.ends, e.Sound cs

section Nets

variable {cs : List SizeClass} {len : ℕ} {hL : Layout cs len} {bm : View → Manager} {s t : Net}
  {m : Mem} {e e' : End} {k : ℕ} {olds news : List Part}

theorem abs_getElem (hk : s.ends[k]? = some e) : s.abs.ends[k]? = some (e.abs s.mem) := by
  show (s.ends.map _)[k]? = _
  rw [List.getElem?_map, hk]
  rfl

theorem mem_queued {v : View} {q : ℕ × ℕ} (hq : q ∈ s.queue v) : q ∈ s.queued := by
  cases v with
  | creator => exact List.mem_append_left _ hq
  | mapper => exact List.mem_append_right _ hq

theorem queue_congr (h : ∀ q ∈ s.queued, (Part.chain q.2).bytes m = (Part.chain q.2).bytes s.mem) :
    (fun v => (s.queue v).map fun q => (q.1, (Part.chain q.2).bytes m)) = s.abs.queue := by
  funext v
  refine List.map_congr_left fun q hq => ?_
  rw [h q (mem_queued hq)]

/-- **Frame.** The other ends and the messages on their way look the same. -/
theorem Net.Sound.apart (h : s.Sound hL) (hk : s.ends[k]? = some e)
    (hstep : (ownership hL).Steps s.mem e.parts m news) :
    (∀ e' ∈ s.ends.eraseIdx k, e'.abs m = e'.abs s.mem) ∧
      ∀ q ∈ s.queued, (Part.chain q.2).bytes m = (Part.chain q.2).bytes s.mem := by
  have hsplit := h.shared.perm (ends_perm hk _).symm
  refine ⟨fun e' he' => End.abs_congr fun p hp => ?_, fun q hq => ?_⟩
  · refine held_apart hsplit hstep ?_ ((h.ends e' (List.mem_of_mem_eraseIdx he')).parts p hp)
    exact List.mem_append_left _ (List.mem_flatMap.mpr ⟨e', he', hp⟩)
  · refine held_apart hsplit hstep (List.mem_append_right _ ?_) trivial
    exact List.mem_map.mpr ⟨q, hq, rfl⟩

theorem map_set_congr {α β : Type*} {l : List α} {f g : α → β} (y : α)
    (h : ∀ x ∈ l.eraseIdx k, f x = g x) : (l.set k y).map f = (l.map g).set k (f y) := by
  rw [List.map_set]
  refine List.ext_getElem? fun j => ?_
  rcases eq_or_ne k j with rfl | hne
  · simp [List.getElem?_set]
  · rw [List.getElem?_set_ne hne, List.getElem?_set_ne hne, List.getElem?_map, List.getElem?_map]
    cases hj : l[j]? with
    | none => rfl
    | some x =>
      refine congrArg some (h x ?_)
      exact List.mem_eraseIdx_iff_getElem?.mpr ⟨j, hne.symm, hj⟩

theorem set_self {α : Type*} {l : List α} {x : α} (hk : l[k]? = some x) : l.set k x = l := by
  obtain ⟨hlt, rfl⟩ := List.getElem?_eq_some_iff.mp hk
  exact List.set_getElem_self hlt

theorem Net.Sound.abs_set (h : s.Sound hL) (hk : s.ends[k]? = some e)
    (hstep : (ownership hL).Steps s.mem e.parts m news) (e' : End) :
    ({ s with mem := m, ends := s.ends.set k e' } : Net).abs =
      { s.abs with ends := s.abs.ends.set k (e'.abs m) } := by
  obtain ⟨hends, hqueue⟩ := h.apart hk hstep
  unfold Net.abs
  rw [map_set_congr e' hends, queue_congr hqueue]
  rfl

theorem Net.Sound.onEnd_abs (h : s.Sound hL) {f : End → Go (Mem × End)}
    {g : Pipe → Option (Pipe × Seen)} {o : Seen} (hrun : s.onEnd k f = some t)
    (hf : ∀ e m e' rest, s.ends[k]? = some e → f e = .ok (m, e') → e.Sound cs →
      (ownership hL).Shared s.mem (e.parts ++ rest) →
      (ownership hL).Steps s.mem e.parts m e'.parts ∧ e'.Sound cs ∧
        g (e.abs s.mem) = some (e'.abs m, o)) :
    (∀ e ∈ t.ends, e.Sound cs) ∧ s.abs.onEnd k g = some (t.abs, o) := by
  obtain ⟨e, m, e', hk, hfe, rfl⟩ := onEnd_inv hrun
  obtain ⟨hstep, hsound, hg⟩ := hf e m e' _ hk hfe (h.ends e (List.mem_of_getElem? hk))
    (h.shared.perm (ends_perm hk _).symm)
  refine ⟨forall_set h.ends hsound, ?_⟩
  unfold Pipes.onEnd
  rw [abs_getElem hk]
  simp only [hg, Option.map_some]
  rw [h.abs_set hk hstep e']

/-- A change of fields that the buffers do not depend on. -/
theorem Net.Sound.fields_abs (h : s.Sound hL) {f : End → End} {g : Pipe → Pipe}
    (hrun : s.onEnd k (fun e => .ok (s.mem, f e)) = some t) (hparts : ∀ e, (f e).parts = e.parts)
    (hsound : ∀ e : End, e.Sound cs → (f e).Sound cs) (hg : ∀ e, (f e).abs s.mem = g (e.abs s.mem)) :
    (∀ e ∈ t.ends, e.Sound cs) ∧
      s.abs.onEnd k (fun e => some (g e, .nothing)) = some (t.abs, .nothing) := by
  refine h.onEnd_abs hrun fun e m e' rest _ hfe hs _ => ?_
  cases hfe
  refine ⟨?_, hsound e hs, by rw [hg]⟩
  rw [hparts]
  exact Ownership.Steps.refl _ _

/-! ### New streams -/

theorem abs_append (s : Net) (side : View) (id : ℕ) :
    ({ s with ends := s.ends ++ [{ side := side, id := id }] } : Net).abs =
      { s.abs with ends := s.abs.ends ++ [{ side := side, id := id }] } := by
  unfold Net.abs
  simp only [List.map_append]
  rfl

/-- Streams are looked up by fields that the pipes have too. -/
theorem getStream_abs (s : Net) (v : View) (id : ℕ) :
    s.abs.getStream v id = ((s.getStream v id).1.abs, (s.getStream v id).2) := by
  unfold Pipes.getStream Net.getStream
  have hfind : s.abs.ends.findIdx? (fun e => e.side = v ∧ e.registered = true ∧ e.id = id) =
      s.ends.findIdx? (fun e => e.side = v ∧ e.registered = true ∧ e.id = id) := by
    show (s.ends.map _).findIdx? _ = _
    rw [List.findIdx?_map]
    rfl
  rw [hfind]
  cases s.ends.findIdx? fun e => e.side = v ∧ e.registered = true ∧ e.id = id with
  | some k => rfl
  | none =>
    cases v with
    | creator => rfl
    | mapper =>
      simp only []
      rw [abs_append]
      simp [Net.abs]

theorem newEnd_sound (cs : List SizeClass) (side : View) (id : ℕ) :
    ({ side := side, id := id } : End).Sound cs :=
  ⟨⟨by simp, by simp, by simp⟩, fun _ => Nat.zero_le _, by simp⟩

theorem getStream_sound (hends : ∀ e ∈ s.ends, e.Sound cs) (v : View) (id : ℕ) :
    ∀ e ∈ (s.getStream v id).1.ends, e.Sound cs := by
  obtain hget | hget := getStream_inv s v id
  · rw [hget]
    exact hends
  · rw [hget]
    intro e he
    rcases List.mem_append.mp he with he | he
    · exact hends e he
    · rw [List.mem_singleton.mp he]
      exact newEnd_sound cs .mapper id

/-! ### Messages -/

theorem getStream_mem (s : Net) (v : View) (id : ℕ) : (s.getStream v id).1.mem = s.mem := by
  obtain hget | hget := getStream_inv s v id <;> rw [hget]

/-- A message comes in behind those that are pending. -/
theorem add_abs {u : Unread} {o : Seen}
    (hrun : s.onEnd k (fun e => .ok (s.mem, e.add u)) = some t) :
    s.abs.onEnd k (fun e => some ({ e with pending := e.pending ++ [u.bytes s.mem] }, o)) =
      some (t.abs, o) := by
  obtain ⟨e, m, e', hk, hf, rfl⟩ := onEnd_inv hrun
  cases hf
  unfold Pipes.onEnd
  rw [abs_getElem hk]
  simp only [Option.map_some]
  unfold Net.abs End.add
  simp only [List.map_set, End.abs, List.map_append]
  rfl

theorem add_sound {u : Unread} (hends : ∀ e ∈ s.ends, e.Sound cs) (hu : u.Sound)
    (hrun : s.onEnd k (fun e => .ok (s.mem, e.add u)) = some t) : ∀ e ∈ t.ends, e.Sound cs := by
  obtain ⟨e, m, e', hk, hf, rfl⟩ := onEnd_inv hrun
  cases hf
  have he := hends e (List.mem_of_getElem? hk)
  refine forall_set hends ⟨he.recv, he.send, fun u' hu' => ?_⟩
  rcases List.mem_append.mp hu' with hu' | hu'
  · exact he.pending u' hu'
  · rw [List.mem_singleton.mp hu']
    exact hu

theorem deliver_abs {v : View} {id : ℕ} {u : Unread} (hk : (s.getStream v id).2 = some k)
    (hrun : (s.getStream v id).1.onEnd k (fun e => .ok ((s.getStream v id).1.mem, e.add u)) = some t) :
    s.abs.deliver v id (u.bytes s.mem) =
      some (t.abs, .arrived v id (s.getStream v id).2 (u.bytes s.mem)) := by
  unfold Pipes.deliver
  rw [getStream_abs, hk]
  simp only []
  rw [← getStream_mem s v id]
  exact add_abs hrun

theorem deliver_none {v : View} {id : ℕ} {bs : List UInt8} (hk : (s.getStream v id).2 = none) :
    s.abs.deliver v id bs =
      some ((s.getStream v id).1.abs, .arrived v id (s.getStream v id).2 bs) := by
  unfold Pipes.deliver
  rw [getStream_abs, hk]

/-- Only parts outside of `s` are worked on. -/
theorem abs_mem (h : (ownership hL).Shared s.mem (olds ++ s.parts))
    (hends : ∀ e ∈ s.ends, e.Sound cs) (hstep : (ownership hL).Steps s.mem olds m news) :
    ({ s with mem := m } : Net).abs = s.abs := by
  have hmap : s.ends.map (End.abs m) = s.ends.map (End.abs s.mem) :=
    List.map_congr_left fun e he => End.abs_congr fun p hp =>
      held_apart h hstep (List.mem_append_left _ (List.mem_flatMap.mpr ⟨e, he, hp⟩))
        ((hends e he).parts p hp)
  have hqueue : ∀ q ∈ s.queued, (Part.chain q.2).bytes m = (Part.chain q.2).bytes s.mem := fun q hq =>
    held_apart h hstep (List.mem_append_right _ (List.mem_map.mpr ⟨q, hq, rfl⟩)) trivial
  unfold Net.abs
  rw [hmap, queue_congr hqueue]
  rfl

theorem pop_abs {v : View} {id offset : ℕ} {rest : List (ℕ × ℕ)} (how : Outcome)
    (hq : s.queue v = (id, offset) :: rest) : s.abs.next how (.poll v) =
      ({ s with queue := Function.update s.queue v rest } : Net).abs.deliver v id
        (Unread.bytes s.mem (.chain offset)) := by
  have hqueue : s.abs.queue v = (id, (Part.chain offset).bytes s.mem) ::
      rest.map fun q => (q.1, (Part.chain q.2).bytes s.mem) := by
    show (s.queue v).map _ = _
    rw [hq]
    rfl
  simp only [Pipes.next, hqueue]
  refine congrArg (fun p : Pipes => p.deliver v id _) ?_
  unfold Net.abs
  congr 1
  funext w
  rcases eq_or_ne w v with rfl | hne
  · simp
  · simp [Function.update_of_ne hne]

theorem Net.Sound.poll_abs (hM : ∀ v, ManagerOk cs (bm v)) (h : s.Sound hL) {v : View}
    (how : Outcome) (hrun : s.poll bm v = some t) :
    (∀ e ∈ t.ends, e.Sound cs) ∧ s.abs.next how (.poll v) = some (t.abs, s.see bm (.poll v)) := by
  unfold Net.poll at hrun
  split at hrun
  · cases hrun
  rename_i id offset rest hq
  have hsee : s.see bm (.poll v) = .arrived v id
      (Net.getStream { s with queue := Function.update s.queue v rest } v id).2
      (Unread.bytes s.mem (.chain offset)) := by
    rw [getStream_queue]
    simp only [Net.see, hq]
    rfl
  have hshared := h.shared.perm (pop_perm hq).symm
  have hends := h.ends
  rw [pop_abs how hq, hsee]
  generalize hs0 : ({ s with queue := Function.update s.queue v rest } : Net) = s0 at *
  have hmem : s0.mem = s.mem := by rw [← hs0]
  have hends0 : ∀ e ∈ s0.ends, e.Sound cs := by
    rw [← hs0]
    exact hends
  rw [← hmem] at hshared ⊢
  have hsound := getStream_sound hends0 v id
  split at hrun
  · rename_i s1 k hget
    have hk : (s0.getStream v id).2 = some k := by rw [hget]
    have hs1 : s1 = (s0.getStream v id).1 := by rw [hget]
    subst hs1
    exact ⟨add_sound (u := .chain offset) hsound trivial hrun, deliver_abs (u := .chain offset) hk hrun⟩
  · rename_i s1 hget
    have hk : (s0.getStream v id).2 = none := by rw [hget]
    have hs1 : s1 = s0 := by
      cases v with
      | creator => rw [← getStream_creator s0 id, hget]
      | mapper =>
        unfold Net.getStream at hk
        split at hk <;> cases hk
    subst hs1
    rw [deliver_none hk, hget]
    split at hrun
    · rename_i slice hread
      split at hrun
      · rename_i m hrec
        cases hrun
        have hsplit : (ownership hL).Shared s1.mem ([.chain offset] ++ s1.parts) := hshared
        refine ⟨hends0, ?_⟩
        rw [abs_mem hsplit hends0 (recycleBuffers_steps (hM v) hread hrec)]
      · cases hrun
    · cases hrun

theorem Net.Sound.fallbackData_abs (h : s.Sound hL) {v : View} {id : ℕ} {payload : List UInt8}
    (hp : payload ≠ []) (hrun : s.fallbackData v id payload = some t) :
    (∀ e ∈ t.ends, e.Sound cs) ∧ s.abs.deliver v id payload =
      some (t.abs, .arrived v id (s.getStream v id).2 payload) := by
  have hsound := getStream_sound h.ends v id
  unfold Net.fallbackData at hrun
  split at hrun
  · rename_i s1 k hget
    have hk : (s.getStream v id).2 = some k := by rw [hget]
    have hs1 : s1 = (s.getStream v id).1 := by rw [hget]
    subst hs1
    exact ⟨add_sound (u := .fallback payload) hsound hp hrun,
      deliver_abs (u := .fallback payload) hk hrun⟩
  · rename_i s1 hget
    have hk : (s.getStream v id).2 = none := by rw [hget]
    have hs1 : s1 = (s.getStream v id).1 := by rw [hget]
    subst hs1
    cases hrun
    exact ⟨hsound, deliver_none hk⟩

/-- What becomes of the bytes that a `Flush` takes. -/
def outcome : Sent → Outcome
  | .queued _ => .queued
  | .frame .. => .frame
  | _ => .failed

theorem push_abs (s : Net) (v : View) (id root : ℕ) :
    ({ s with queue := Function.update s.queue v (s.queue v ++ [(id, root)]) } : Net).abs =
      { s.abs with
        queue := Function.update s.abs.queue v
          (s.abs.queue v ++ [(id, (Part.chain root).bytes s.mem)]) } := by
  unfold Net.abs
  congr 1
  funext w
  rcases eq_or_ne w v with rfl | hne
  · simp
  · simp [Function.update_of_ne hne]

theorem Net.Sound.flush_abs (hM : ∀ v, ManagerOk cs (bm v)) (h : s.Sound hL) {put : Bool}
    (hrun : s.flush bm k put = some t) : (∀ e ∈ t.ends, e.Sound cs) ∧
      ∃ how, s.abs.flush k how = some (t.abs, s.see bm (.flush k put)) := by
  obtain ⟨e, m, e', sent, hk, hf, rfl⟩ := flush_inv hrun
  have hs := h.ends e (List.mem_of_getElem? hk)
  obtain ⟨hsound, habs, hsent⟩ := End.flush_abs (hM e.side) hs (h.shared.perm (ends_perm hk _).symm) hf
  refine ⟨forall_set h.ends hsound, outcome sent, ?_⟩
  have hsee : s.see bm (.flush k put) = sentSeen m (e.abs s.mem) sent := by
    simp only [Net.see, hk, hf]
  have hset := h.abs_set hk (End.flush_steps (hM e.side) hf) e'
  rw [habs] at hset
  unfold Pipes.flush
  rw [abs_getElem hk, hsee]
  simp only []
  cases sent with
  | nothing =>
    have hsame : ({ e.abs s.mem with written := [] } : Pipe) = e.abs s.mem := by
      rw [← (show (e.abs s.mem).written = [] from hsent)]
    rw [if_pos hsent, hset, hsame, set_self (abs_getElem hk)]
    rfl
  | failed =>
    rw [if_neg hsent, hset]
    simp [outcome, sentSeen]
  | frame event payload =>
    obtain ⟨hpayload, hne, hopen⟩ := hsent
    rw [if_neg hne, hset, if_pos (show (e.abs s.mem).state = .opened from hopen)]
    simp [outcome, sentSeen, hpayload]
  | queued root =>
    obtain ⟨hbytes, hne, hopen⟩ := hsent
    have hpush := push_abs { s with mem := m, ends := s.ends.set k e' } e.side.peer e.id root
    rw [hset, hbytes] at hpush
    rw [if_neg hne, if_pos (show (e.abs s.mem).state = .opened from hopen)]
    simp only [outcome, sentSeen, if_true, hbytes, hpush]
    rfl

/-! ### Steps and runs -/

theorem Careful.small {a : Act} (ha : Net.Careful s a) : Net.Small s a := by
  cases a with
  | write k c => exact WriteCall.Ok.small ha
  | _ => trivial

theorem openStream_abs {id : ℕ} (how : Outcome) (hnext : s.next bm (.openStream id) = some t) :
    s.abs.next how (.openStream id) = some (t.abs, .nothing) := by
  have hgot : (s.getStream .creator id).2 = none := by
    simp only [Net.next] at hnext
    split at hnext
    · rename_i hget
      rw [hget]
    · cases hnext
  rw [openStream_inv hnext]
  simp only [Pipes.next]
  rw [getStream_abs, hgot, getStream_creator]
  simp only []
  rw [abs_append]

/-- **Step.** What the data path does, the pipes can do, and it looks the same. -/
theorem Net.Sound.next_abs (hM : ∀ v, ManagerOk cs (bm v)) (h : s.Sound hL) {a : Act}
    (ha : Net.Careful s a) (hnext : s.next bm a = some t) :
    (∀ e ∈ t.ends, e.Sound cs) ∧ ∃ how, s.abs.next how a = some (t.abs, s.see bm a) := by
  have hany : ∀ how, (∀ e ∈ t.ends, e.Sound cs) ∧ s.abs.next how a = some (t.abs, s.see bm a) →
      (∀ e ∈ t.ends, e.Sound cs) ∧ ∃ how, s.abs.next how a = some (t.abs, s.see bm a) :=
    fun how hf => ⟨hf.1, how, hf.2⟩
  cases a with
  | openStream id =>
    refine ⟨?_, .queued, openStream_abs _ hnext⟩
    rw [openStream_inv hnext]
    intro e he
    rcases List.mem_append.mp he with he | he
    · exact h.ends e he
    · rw [List.mem_singleton.mp he]
      exact newEnd_sound cs .creator id
  | unregister k =>
    exact hany .queued <| h.fields_abs (g := fun e => { e with registered := false }) hnext (fun _ => rfl)
      (fun e he => ⟨he.recv, he.send, he.pending⟩) fun _ => rfl
  | halfClose k =>
    exact hany .queued <| h.fields_abs (g := fun e =>
      { e with state := if e.state = .opened then .halfClosed else e.state }) hnext (fun _ => rfl)
      (fun e he => ⟨he.recv, he.send, he.pending⟩) fun _ => rfl
  | setCallbacks k | setDeadlines k r w =>
    exact hany .queued <| h.fields_abs (g := id) hnext (fun _ => rfl)
      (fun e he => ⟨he.recv, he.send, he.pending⟩) fun _ => rfl
  | write k c =>
    exact hany .queued <| h.onEnd_abs (o := .nothing)
      (g := fun e => some ({ e with written := e.written ++ c.bytes }, .nothing)) hnext
      fun e m e' rest _ he hs hsh => by
        obtain ⟨hsound, habs⟩ := End.write_abs (hM e.side) hs hsh ha he
        exact ⟨e.write_steps (hM e.side) (WriteCall.Ok.small ha) he, hsound, by rw [habs]⟩
  | flush k put => exact h.flush_abs hM hnext
  | poll v =>
    exact hany .queued <| h.poll_abs hM .queued hnext
  | fallbackData v id payload =>
    exact hany .queued <| h.fallbackData_abs ha hnext
  | moveTo k =>
    exact hany .queued <| h.onEnd_abs (o := .nothing)
      (g := fun e => some ({ e with unread := e.unread ++ e.pending.flatten, pending := [] }, .nothing))
      hnext fun e m e' rest _ he hs hsh => by
        obtain ⟨hsound, habs⟩ := End.moveTo_abs (hM e.side) hs hsh he
        exact ⟨e.moveTo_steps (hM e.side) he, hsound, by rw [habs]⟩
  | call k c =>
    exact hany .queued <| h.onEnd_abs (o := s.see bm (.call k c)) (g := fun e =>
      if c.Ready e.unread.length then
        some ({ e with unread := (c.flat e.unread).2 }, .reply (c.flat e.unread).1)
      else some (e, .nothing)) hnext fun e m e' rest hk he hs hsh => by
        obtain ⟨-, free, hrecv⟩ := shared_recvOk hsh hs.recv
        have hlen : ((e.abs s.mem).unread.length : ℤ) = e.recvBuf.len := hrecv.len.symm
        rw [hlen]
        by_cases hr : c.Ready e.recvBuf.len
        · rw [if_pos hr] at he
          obtain ⟨hsound, habs, m1, l, hreply⟩ := End.call_abs (hM e.side) hs hsh ha hr he
          refine ⟨e.call_steps (hM e.side) he, hsound, ?_⟩
          rw [if_pos hr, habs]
          simp only [Net.see, hk, if_pos hr, hreply]
        · rw [if_neg hr] at he
          cases he
          refine ⟨Ownership.Steps.refl _ _, hs, ?_⟩
          rw [if_neg hr]
          simp only [Net.see, hk, if_neg hr]
  | releasePreviousRead k =>
    exact hany .queued <| h.onEnd_abs (o := .nothing) (g := fun e => some (e, .nothing)) hnext
      fun e m e' rest _ he hs hsh => by
        obtain ⟨hsound, habs⟩ := End.releasePreviousRead_abs (hM e.side) hs hsh he
        exact ⟨e.releasePreviousRead_steps (hM e.side) he, hsound, by rw [habs]⟩
  | releaseReadAndReuse k =>
    exact hany .queued <| h.onEnd_abs (o := .nothing)
      (g := fun e => if e.written = [] then some (e, .nothing) else none) hnext
      fun e m e' rest hk he hs hsh => by
        obtain ⟨hsound, habs, hnil⟩ := End.releaseReadAndReuse_abs (hM e.side) hs hsh (ha e hk) he
        exact ⟨e.releaseReadAndReuse_steps (hM e.side) he, hsound, by rw [if_pos hnil, habs]⟩
  | put k =>
    obtain ⟨e, m, e', hk, hput, rfl⟩ := put_inv hnext
    have hs := h.ends e (List.mem_of_getElem? hk)
    obtain ⟨hsound, habs, hidle⟩ := End.put_abs (hM e.side) hs (h.shared.perm (ends_perm hk _).symm)
      (ha e hk) hput
    refine ⟨forall_set h.ends hsound, .queued, ?_⟩
    simp only [Pipes.next, Pipes.onEnd, abs_getElem hk]
    rw [if_pos hidle, h.abs_set hk (End.put_steps (hM e.side) hput) e', habs]
    rfl

theorem Net.Sound.step (hM : ∀ v, ManagerOk cs (bm v)) (h : s.Sound hL) {a : Act}
    (ha : Net.Careful s a) (hnext : s.next bm a = some t) : t.Sound hL :=
  ⟨shared_step hM h.shared (Careful.small ha) hnext, (h.next_abs hM ha hnext).1⟩

theorem sound_created (hc : Created cs (bm .creator) m) : ({ mem := m } : Net).Sound hc.layout :=
  ⟨shared_created hc, by simp⟩

/-- **Run.** -/
theorem spec_refines (hc : Created cs (bm .creator) m) (hM : ∀ v, ManagerOk cs (bm v))
    {tr : List (Act × Seen)} (hs : (Net.spec bm m).Traces tr s) :
    s.Sound hc.layout ∧ Pipes.spec.Traces tr s.abs := by
  refine hs.refines Net.abs (fun s => s.Sound hc.layout) ?_ ?_
  · rintro s rfl
    exact ⟨sound_created hc, rfl⟩
  · rintro s a o t h ⟨ha, hnext, rfl⟩
    exact ⟨h.step hM ha hnext, (h.next_abs hM ha hnext).2⟩

end Nets

section

variable {pairs : List SizePercentPair} {m m0 : Mem} {bm bm' : Manager} {s : Net}
  {tr : List (Act × Seen)}

/-- **Main theorem.** What is seen of a careful run of the streams of both processes is seen of
    a run of the pipes: what is read, what is flushed and which messages come in where do not
    depend on the slots, on the fallback to the heap, or on when memory is released. -/
theorem data_path_refines_pipes (h : TwoProcesses pairs m m0 bm bm')
    (hs : (Net.spec (Views.managerOf bm bm') m0).Traces tr s) : Pipes.spec.Traces tr s.abs := by
  have hc : Created _ (Views.managerOf bm bm' .creator) m0 := h.created
  exact (spec_refines hc h.managerOk hs).2

end

/-- The bytes that a reader returns. -/
def Seen.given : Seen → List UInt8
  | .reply (.bytes bs) => bs
  | .reply (.byte b) => [b]
  | _ => []

/-- Two messages, read across their border; the buffer is reused for a reply, and a message
    by fallback follows. -/
def twoMessages : List Act := [
  .openStream 1, .write 0 (.writeBytes [1, 2, 3]), .flush 0 true, .poll .mapper,
  .write 0 (.reserve 2 [4, 5]), .flush 0 true, .moveTo 1, .poll .mapper, .moveTo 1,
  .call 1 (.readBytes 4), .call 1 .readByte, .releaseReadAndReuse 1, .write 1 (.writeByte 9),
  .flush 1 true, .poll .creator, .moveTo 0, .call 0 .readByte, .fallbackData .mapper 1 [6],
  .moveTo 1, .call 1 (.readString 1)]

theorem data_path_refines_pipes_two_messages : ∃ m0 bm bm' s tr,
    TwoProcesses [⟨24, 100⟩] (zeroMem 264) m0 bm bm' ∧
      (Net.spec (Views.managerOf bm bm') m0).Traces tr s ∧ Pipes.spec.Traces tr s.abs ∧
      tr.flatMap (·.2.given) = [1, 2, 3, 4, 5, 9, 6] := by
  obtain ⟨m0, bm, bm', htwo, hok, hrun, htr⟩ := exists_twoProcesses (fun m0 bm bm' =>
      (Net.runs (Views.managerOf bm bm') m0).RunOk Net.Careful { mem := m0 } twoMessages ∧
      ((Net.runs (Views.managerOf bm bm') m0).run { mem := m0 } twoMessages).isSome = true ∧
      ((Net.runs (Views.managerOf bm bm') m0).trace (Net.see (Views.managerOf bm bm'))
        { mem := m0 } twoMessages).flatMap (·.2.given) = [1, 2, 3, 4, 5, 9, 6])
    (by decide +kernel)
  obtain ⟨s, hs⟩ := Option.isSome_iff_exists.mp hrun
  have htraces : (Net.spec (Views.managerOf bm bm') m0).Traces ([] ++ _) s :=
    Sys.seen_of_run (.init rfl) hok hs
  exact ⟨m0, bm, bm', s, _, htwo, htraces, data_path_refines_pipes htwo htraces, htr⟩

end Shmipc.DataPath
