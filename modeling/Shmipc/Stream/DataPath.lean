import Shmipc.Buffer.Parts
import Shmipc.Buffer.Views
import Shmipc.Stream.Machine

/-!
# The data path of all streams

Both processes with all their streams on one shared memory: writer calls, `Flush` with
each of its outcomes, `handlePolling`, `moveTo`, the readers and the releases, in any
order. The process that creates the memory is the client; a server accepts a stream when
it gets a message for an unknown id.

The socket is not part of the state: a fallback frame with any id and payload may come in
at any time, since its payload lies on the heap. The callback goroutine of a stream moves
and reads data like any other user of it. No stream is closed here, but one may leave the
session's map, so that a client gets messages for unknown ids too.

Results:
* `slots_conserved`: in every run in which each `Reserve` asks for less than `2 ^ 32` bytes,
  every slot is in exactly one place: free, in a buffer, in a pinned list, or in one message
  that is queued or pending.
* `slot_in_two_buffers`: `Reserve(2 ^ 32)` fails but counts its bytes, so that `Flush` sends
  a chain of empty slots; the receiver follows the stale link of the last one.
* `lent_stays_pinned`: under the same condition the slot of a result that was returned without
  copying stays pinned until the release, in no free chain and with no other owner.
* `lent_slot_freed`: the same `Reserve`, on another stream, frees such a slot.
-/

namespace Shmipc.Buffer

def View.peer : View → View
  | .creator => .mapper
  | .mapper => .creator

namespace Call

/-- The slot that the result lies in, where it is not copied. -/
def lent (bm : Manager) (m : Common.Mem) (l : LinkedBuffer) : Call → List ℕ
  | readBytes size =>
    match l.readBytes bm m size with
    | .ok (_, _, r) => r.slot.toList
    | .error _ => []
  | peek size =>
    match l.peek m size with
    | .ok (_, r) => r.slot.toList
    | .error _ => []
  | _ => []

end Call

end Shmipc.Buffer

namespace Shmipc.DataPath

open Common Buffer LinkedBuffer
open Shmipc.Stream (StreamState)

/-! ## Model -/

/-- A `Stream`. -/
structure End where
  side : View
  id : ℕ
  /-- It is in `session.streams`. -/
  registered : Bool := true
  state : StreamState := .opened
  recvBuf : LinkedBuffer := {}
  sendBuf : LinkedBuffer := {}
  pendingData : List Unread := []
  inFallbackState : Bool := false
  /-- `getCallbacks() != nil`. -/
  callbacks : Bool := false
  /-- Zero is `zeroTime`. -/
  readDeadline : ℕ := 0
  writeDeadline : ℕ := 0
  /-- The slots of results that readers returned without copying them since the last
      release. -/
  lent : List ℕ := []

namespace End

variable (bm : Manager) (m : Mem) (e : End)

def write (c : WriteCall) : Go (Mem × End) := do
  let (m, l) ← c.run bm m e.sendBuf
  return (m, { e with sendBuf := l })

/-- `Stream.Flush`; `put` says whether one of the attempts to put the element succeeds. -/
def flush (put : Bool) : Go (Mem × End × Sent) := do
  let (m, l, fallback, sent) ← Buffer.flush bm
    { seqID := UInt32.ofNat e.id, opened := e.state = .opened, put := put }
    e.inFallbackState m e.sendBuf
  return (m, { e with sendBuf := l, inFallbackState := fallback }, sent)

/-- `pendingData.moveTo(recvBuf)`; a fallback slice puts the stream in fallback state. -/
def moveTo : Go (Mem × End) := do
  let (m, l) ← LinkedBuffer.moveTo bm e.pendingData m e.recvBuf
  return (m, { e with
    recvBuf := l
    pendingData := []
    inFallbackState := e.inFallbackState || e.pendingData.any fun
      | .fallback _ => true
      | .chain _ => false })

def call (c : Call) : Go (Mem × End) := do
  let (m', l, _) ← c.run bm m e.recvBuf
  return (m', { e with recvBuf := l, lent := e.lent ++ c.lent bm m e.recvBuf })

def releasePreviousRead : Go (Mem × End) := do
  let (m, l) ← e.recvBuf.releasePreviousRead bm m
  return (m, { e with recvBuf := l, lent := [] })

def releaseReadAndReuse : Go (Mem × End) := do
  let (m, recvBuf, sendBuf) ← Buffer.releaseReadAndReuse bm m e.recvBuf e.sendBuf
  return (m, { e with recvBuf := recvBuf, sendBuf := sendBuf, lent := [] })

/-- `Stream.reset` (stream.go:347-376); `none` is where it returns an error. -/
def reset : Option End :=
  if e.state ≠ .opened ∨ e.recvBuf.len > 0 ∨ e.pendingData ≠ [] then none
  else some { e with
    readDeadline := 0
    writeDeadline := 0
    inFallbackState := false
    callbacks := false }

/-- `putOrCloseStream` (session_manager.go:430-445) where the stream goes to the pool; it is
    `none` where the stream is closed instead. -/
def put : Option (Go (Mem × End)) :=
  if e.inFallbackState then none else e.reset.map fun e => e.releaseReadAndReuse bm m

/-- `pendingData.add`, in `fillDataToReadBuffer`. -/
def add (u : Unread) : End := { e with pendingData := e.pendingData ++ [u] }

end End

structure Net where
  mem : Mem
  ends : List End := []
  /-- The elements in the queue that a process receives from: the id of the stream and the
      offset of the first slot. -/
  queue : View → List (ℕ × ℕ) := fun _ => []

inductive Act
  /-- `OpenStream` of the client, with an id that it does not use. -/
  | openStream (id : ℕ)
  /-- The stream leaves `session.streams`. -/
  | unregister (k : ℕ)
  /-- `halfClose`, when the peer has closed the stream. -/
  | halfClose (k : ℕ)
  | setCallbacks (k : ℕ)
  | setDeadlines (k : ℕ) (readDeadline writeDeadline : ℕ)
  | write (k : ℕ) (c : WriteCall)
  | flush (k : ℕ) (put : Bool)
  /-- One element in `handlePolling`. -/
  | poll (v : View)
  /-- `handleFallbackData`. -/
  | fallbackData (v : View) (id : ℕ) (payload : List UInt8)
  | moveTo (k : ℕ)
  /-- A reader. One that needs more data does nothing before `readMore` has moved it. -/
  | call (k : ℕ) (c : Call)
  | releasePreviousRead (k : ℕ)
  | releaseReadAndReuse (k : ℕ)
  /-- `putOrCloseStream`, when it puts the stream in the pool. -/
  | put (k : ℕ)
  deriving DecidableEq

/-- The stream that a goroutine of its own process works on. -/
def Act.target : Act → Option ℕ
  | .openStream _ | .poll _ | .fallbackData .. => none
  | .unregister k | .halfClose k | .setCallbacks k | .setDeadlines k _ _ | .write k _ | .flush k _
  | .moveTo k | .call k _ | .releasePreviousRead k | .releaseReadAndReuse k | .put k => some k

namespace Net

/-- An operation on one end; `none` is where the code panics. -/
def onEnd (s : Net) (k : ℕ) (f : End → Go (Mem × End)) : Option Net :=
  match s.ends[k]? with
  | none => none
  | some e =>
    match f e with
    | .ok (m, e) => some { s with mem := m, ends := s.ends.set k e }
    | .error _ => none

/-- `Session.getStream` for a message on an open stream (session.go:560-583). A server
    accepts a stream that it does not know. -/
def getStream (s : Net) (v : View) (id : ℕ) : Net × Option ℕ :=
  match s.ends.findIdx? fun e => e.side = v ∧ e.registered = true ∧ e.id = id with
  | some k => (s, some k)
  | none =>
    match v with
    | .creator => (s, none)
    | .mapper => ({ s with ends := s.ends ++ [{ side := .mapper, id := id }] }, some s.ends.length)

/-- One element in `handlePolling` (protocol_manager.go:257-288). `none` is also where it
    returns an error. -/
def poll (bm : View → Manager) (s : Net) (v : View) : Option Net :=
  match s.queue v with
  | [] => none
  | (id, offset) :: rest =>
    match getStream { s with queue := Function.update s.queue v rest } v id with
    | (s, some k) => s.onEnd k fun e => .ok (s.mem, e.add (.chain offset))
    | (s, none) =>
      match readBufferSlice s.mem offset with
      | .ok (.ok slice) =>
        match (bm v).recycleBuffers s.mem slice with
        | .ok m => some { s with mem := m }
        | .error _ => none
      | _ => none

/-- `handleFallbackData` (protocol_manager.go:153-178). -/
def fallbackData (s : Net) (v : View) (id : ℕ) (payload : List UInt8) : Option Net :=
  match s.getStream v id with
  | (s, some k) => s.onEnd k fun e => .ok (s.mem, e.add (.fallback payload))
  | (s, none) => some s

def flush (bm : View → Manager) (s : Net) (k : ℕ) (put : Bool) : Option Net :=
  match s.ends[k]? with
  | none => none
  | some e =>
    match e.flush (bm e.side) s.mem put with
    | .error _ => none
    | .ok (m, e', sent) =>
      some { s with
        mem := m
        ends := s.ends.set k e'
        queue := match sent with
          | .queued offset =>
            Function.update s.queue e.side.peer (s.queue e.side.peer ++ [(e.id, offset)])
          | _ => s.queue }

def next (bm : View → Manager) (s : Net) : Act → Option Net
  | .openStream id =>
    match s.getStream .creator id with
    | (s, none) => some { s with ends := s.ends ++ [{ side := .creator, id := id }] }
    | (_, some _) => none
  | .unregister k => s.onEnd k fun e => .ok (s.mem, { e with registered := false })
  | .halfClose k => s.onEnd k fun e =>
    .ok (s.mem, { e with state := if e.state = .opened then .halfClosed else e.state })
  | .setCallbacks k => s.onEnd k fun e => .ok (s.mem, { e with callbacks := true })
  | .setDeadlines k r w => s.onEnd k fun e =>
    .ok (s.mem, { e with readDeadline := r, writeDeadline := w })
  | .write k c => s.onEnd k fun e => e.write (bm e.side) s.mem c
  | .flush k put => s.flush bm k put
  | .poll v => s.poll bm v
  | .fallbackData v id payload => s.fallbackData v id payload
  | .moveTo k => s.onEnd k fun e => e.moveTo (bm e.side) s.mem
  | .call k c => s.onEnd k fun e =>
    if c.Ready e.recvBuf.len then e.call (bm e.side) s.mem c else .ok (s.mem, e)
  | .releasePreviousRead k => s.onEnd k fun e => e.releasePreviousRead (bm e.side) s.mem
  | .releaseReadAndReuse k => s.onEnd k fun e => e.releaseReadAndReuse (bm e.side) s.mem
  | .put k =>
    match s.ends[k]?.bind fun e => e.put (bm e.side) s.mem with
    | some (.ok (m, e)) => some { s with mem := m, ends := s.ends.set k e }
    | _ => none

/-- The runs on the created memory `m`. -/
def runs (bm : View → Manager) (m : Mem) : Sys Net Act where
  init s := s = { mem := m }
  next := next bm

/-- Each `Reserve` asks for less than `2 ^ 32` bytes. -/
def Small (_ : Net) : Act → Prop
  | .write _ c => c.Small
  | _ => True

instance (s : Net) : ∀ a, Decidable (Small s a)
  | .write _ c => inferInstanceAs (Decidable c.Small)
  | .openStream _ | .unregister _ | .halfClose _ | .setCallbacks _ | .setDeadlines .. | .flush ..
  | .poll _ | .fallbackData .. | .moveTo _ | .call .. | .releasePreviousRead _
  | .releaseReadAndReuse _ | .put _ => inferInstanceAs (Decidable True)

/-- The elements in both queues. -/
def queued (s : Net) : List (ℕ × ℕ) := s.queue .creator ++ s.queue .mapper

end Net

/-! ## Who owns the slots -/

def End.parts (e : End) : List Part :=
  [.recv e.recvBuf, .send e.sendBuf] ++ pendingParts e.pendingData

theorem End.add_parts (e : End) (u : Unread) :
    (e.add u).parts = e.parts ++ pendingParts [u] := by
  unfold End.parts pendingParts End.add
  rw [List.filterMap_append]
  rfl

def Net.parts (s : Net) : List Part :=
  s.ends.flatMap End.parts ++ s.queued.map fun q => .chain q.2

section Steps

variable {cs : List SizeClass} {len : ℕ} {hL : Layout cs len} {bm : Manager} {m m' : Mem} {e e' : End}

theorem End.write_steps (hM : ManagerOk cs bm) {c : WriteCall} (hc : c.Small)
    (h : e.write bm m c = .ok (m', e')) : (ownership hL).Steps m e.parts m' e'.parts := by
  obtain ⟨⟨m1, l⟩, hrun, h⟩ := Go.bind_ok.mp h
  cases h
  exact ((Buffer.write_steps hM hc hrun).frame (.recv e.recvBuf :: pendingParts e.pendingData)).perm
    (List.Perm.swap ..) (List.Perm.swap ..)

theorem End.flush_steps (hM : ManagerOk cs bm) {put : Bool} {sent : Sent}
    (h : e.flush bm m put = .ok (m', e', sent)) :
    (ownership hL).Steps m e.parts m' (sent.parts ++ e'.parts) := by
  obtain ⟨⟨m1, l, fb, sent1⟩, hrun, h⟩ := Go.bind_ok.mp h
  cases h
  refine ((Buffer.flush_steps hM hrun).frame (.recv e.recvBuf :: pendingParts e.pendingData)).perm
    (List.Perm.swap ..) ?_
  exact ((List.Perm.swap ..).append_left _).trans List.perm_middle

theorem End.moveTo_steps (hM : ManagerOk cs bm) (h : e.moveTo bm m = .ok (m', e')) :
    (ownership hL).Steps m e.parts m' e'.parts := by
  obtain ⟨⟨m1, l⟩, hrun, h⟩ := Go.bind_ok.mp h
  cases h
  exact ((Buffer.moveTo_steps hM _ _ _ hrun).frame [.send e.sendBuf]).perm
    ((List.perm_append_singleton ..).symm.cons _) (.refl _)

theorem End.call_steps (hM : ManagerOk cs bm) {c : Call} (h : e.call bm m c = .ok (m', e')) :
    (ownership hL).Steps m e.parts m' e'.parts := by
  obtain ⟨⟨m1, l, r⟩, hrun, h⟩ := Go.bind_ok.mp h
  cases h
  exact (Buffer.call_steps hM hrun).frame (.send e.sendBuf :: pendingParts e.pendingData)

theorem End.releasePreviousRead_steps (hM : ManagerOk cs bm)
    (h : e.releasePreviousRead bm m = .ok (m', e')) :
    (ownership hL).Steps m e.parts m' e'.parts := by
  obtain ⟨⟨m1, l⟩, hrun, h⟩ := Go.bind_ok.mp h
  cases h
  exact (Buffer.releasePreviousRead_steps hM hrun).frame
    (.send e.sendBuf :: pendingParts e.pendingData)

theorem End.reset_inv (h : e.reset = some e') :
    e.state = .opened ∧ e.recvBuf.len ≤ 0 ∧ e.pendingData = [] ∧ e' = { e with
      readDeadline := 0
      writeDeadline := 0
      inFallbackState := false
      callbacks := false } := by
  unfold End.reset at h
  split_ifs at h with hc
  cases h
  simp only [not_or, not_not, not_lt] at hc
  exact ⟨hc.1, hc.2.1, hc.2.2, rfl⟩

theorem End.put_inv {r : Go (Mem × End)} (h : e.put bm m = some r) :
    ∃ e1, e.inFallbackState = false ∧ e.reset = some e1 ∧ r = e1.releaseReadAndReuse bm m := by
  unfold End.put at h
  split_ifs at h with hf
  obtain ⟨e1, hreset, rfl⟩ := Option.map_eq_some_iff.mp h
  exact ⟨e1, by simpa using hf, hreset, rfl⟩

theorem End.releaseReadAndReuse_steps (hM : ManagerOk cs bm)
    (h : e.releaseReadAndReuse bm m = .ok (m', e')) :
    (ownership hL).Steps m e.parts m' e'.parts := by
  obtain ⟨⟨m1, recv, send⟩, hrun, h⟩ := Go.bind_ok.mp h
  cases h
  exact (Buffer.releaseReadAndReuse_steps hM hrun).frame (pendingParts e.pendingData)

theorem End.put_steps (hM : ManagerOk cs bm) (h : e.put bm m = some (.ok (m', e'))) :
    (ownership hL).Steps m e.parts m' e'.parts := by
  obtain ⟨e1, -, hreset, hrun⟩ := End.put_inv h
  obtain ⟨-, -, -, rfl⟩ := End.reset_inv hreset
  have hsteps : (ownership hL).Steps m _ m' e'.parts :=
    End.releaseReadAndReuse_steps hM hrun.symm
  exact hsteps

end Steps

/-! ## Runs -/

section Runs

variable {cs : List SizeClass} {len : ℕ} {hL : Layout cs len} {bm : View → Manager} {s t : Net}
  {m : Mem} {e e' : End} {k : ℕ} {ps qs : List Part}

theorem onEnd_inv {f : End → Go (Mem × End)} (h : s.onEnd k f = some t) :
    ∃ e m e', s.ends[k]? = some e ∧ f e = .ok (m, e') ∧
      t = { s with mem := m, ends := s.ends.set k e' } := by
  unfold Net.onEnd at h
  split at h
  · cases h
  · rename_i e he
    split at h
    · rename_i m e' hf
      cases h
      exact ⟨e, m, e', he, hf, rfl⟩
    · cases h

theorem put_inv (h : s.next bm (.put k) = some t) :
    ∃ e m e', s.ends[k]? = some e ∧ e.put (bm e.side) s.mem = some (.ok (m, e')) ∧
      t = { s with mem := m, ends := s.ends.set k e' } := by
  simp only [Net.next] at h
  split at h
  · rename_i m e' hput
    cases h
    obtain ⟨e, he, hput⟩ := Option.bind_eq_some_iff.mp hput
    exact ⟨e, m, e', he, hput, rfl⟩
  · cases h

theorem flush_inv {put : Bool} (h : s.flush bm k put = some t) :
    ∃ e m e' sent, s.ends[k]? = some e ∧ e.flush (bm e.side) s.mem put = .ok (m, e', sent) ∧
      t = { s with
        mem := m
        ends := s.ends.set k e'
        queue := match sent with
          | .queued offset =>
            Function.update s.queue e.side.peer (s.queue e.side.peer ++ [(e.id, offset)])
          | _ => s.queue } := by
  unfold Net.flush at h
  split at h
  · cases h
  rename_i e hk
  split at h
  · cases h
  rename_i m e' sent hf
  cases h
  exact ⟨e, m, e', sent, hk, hf, rfl⟩

/-- The other streams stay as they are. -/
theorem target_inv {a : Act} (ha : a.target = some k) (h : s.next bm a = some t) :
    ∃ e e', s.ends[k]? = some e ∧ t.ends = s.ends.set k e' := by
  have hend : ∀ {f}, s.onEnd k f = some t → ∃ e e', s.ends[k]? = some e ∧ t.ends = s.ends.set k e' := by
    intro f hrun
    obtain ⟨e, m, e', hk, -, rfl⟩ := onEnd_inv hrun
    exact ⟨e, e', hk, rfl⟩
  cases a with
  | openStream id => cases ha
  | poll v => cases ha
  | fallbackData v id payload => cases ha
  | flush j put =>
    cases ha
    obtain ⟨e, m, e', sent, hk, -, rfl⟩ := flush_inv h
    exact ⟨e, e', hk, rfl⟩
  | put j =>
    cases ha
    obtain ⟨e, m, e', hk, -, rfl⟩ := put_inv h
    exact ⟨e, e', hk, rfl⟩
  | _ =>
    cases ha
    simp only [Net.next] at h
    exact hend h

/-- A stream is looked up, or a server makes it. -/
theorem getStream_inv (s : Net) (v : View) (id : ℕ) :
    (s.getStream v id).1 = s ∨
      (s.getStream v id).1 = { s with ends := s.ends ++ [{ side := .mapper, id := id }] } := by
  unfold Net.getStream
  split
  · exact .inl rfl
  · cases v with
    | creator => exact .inl rfl
    | mapper => exact .inr rfl

theorem getStream_found {v : View} {id : ℕ} (h : (s.getStream v id).2 = some k) :
    ∃ e, (s.getStream v id).1.ends[k]? = some e := by
  unfold Net.getStream at h ⊢
  split at h
  · rename_i j hj
    cases h
    obtain ⟨hlt, -⟩ := List.findIdx?_eq_some_iff_getElem.mp hj
    exact ⟨_, List.getElem?_eq_getElem hlt⟩
  · cases v with
    | creator => cases h
    | mapper =>
      cases h
      exact ⟨_, List.getElem?_concat_length⟩

theorem getStream_creator (s : Net) (id : ℕ) : (s.getStream .creator id).1 = s := by
  unfold Net.getStream
  split <;> rfl

theorem openStream_inv {id : ℕ} (h : s.next bm (.openStream id) = some t) :
    t = { s with ends := s.ends ++ [{ side := .creator, id := id }] } := by
  simp only [Net.next] at h
  split at h
  · rename_i s1 hget
    have hs := getStream_creator s id
    rw [hget] at hs
    cases h
    rw [show s1 = s from hs]
  · cases h

/-- An element is taken from the queue; it goes to a stream, or its slots are recycled. -/
theorem poll_inv {v : View} (h : s.poll bm v = some t) :
    ∃ id offset rest s1, s.queue v = (id, offset) :: rest ∧
      s1 = Net.getStream { s with queue := Function.update s.queue v rest } v id ∧
      ((∃ k, s1.2 = some k ∧
          s1.1.onEnd k (fun e => .ok (s1.1.mem, e.add (.chain offset))) = some t) ∨
        ∃ slice m, readBufferSlice s1.1.mem offset = .ok (.ok slice) ∧
          (bm v).recycleBuffers s1.1.mem slice = .ok m ∧ t = { s1.1 with mem := m }) := by
  unfold Net.poll at h
  split at h
  · cases h
  rename_i id offset rest hq
  refine ⟨id, offset, rest, _, hq, rfl, ?_⟩
  split at h
  · rename_i s1 k hget
    rw [hget]
    exact .inl ⟨k, rfl, h⟩
  · rename_i s1 hget
    rw [hget]
    split at h
    · rename_i slice hread
      split at h
      · rename_i m hrec
        cases h
        exact .inr ⟨slice, m, hread, hrec, rfl⟩
      · cases h
    · cases h

theorem fallbackData_inv {v : View} {id : ℕ} {payload : List UInt8}
    (h : s.fallbackData v id payload = some t) :
    (∃ k, (s.getStream v id).2 = some k ∧ (s.getStream v id).1.onEnd k
      (fun e => .ok ((s.getStream v id).1.mem, e.add (.fallback payload))) = some t) ∨
      t = (s.getStream v id).1 := by
  unfold Net.fallbackData at h
  split at h
  · rename_i s1 k hget
    rw [hget]
    exact .inl ⟨k, rfl, h⟩
  · rename_i s1 hget
    rw [hget]
    cases h
    exact .inr rfl

/-- The parts of one end, and those of the others. -/
theorem ends_perm (hk : s.ends[k]? = some e) (ps : List Part) :
    (s.ends.flatMap End.parts ++ ps).Perm
      (e.parts ++ ((s.ends.eraseIdx k).flatMap End.parts ++ ps)) := by
  rw [← List.append_assoc, ← List.flatMap_cons]
  exact ((cons_eraseIdx_perm hk).symm.flatMap_right _).append_right _

theorem ends_set_perm (hk : s.ends[k]? = some e) (e' : End) (ps : List Part) :
    ((s.ends.set k e').flatMap End.parts ++ ps).Perm
      (e'.parts ++ ((s.ends.eraseIdx k).flatMap End.parts ++ ps)) := by
  rw [← List.append_assoc, ← List.flatMap_cons]
  exact ((set_perm_cons hk e').flatMap_right _).append_right _

/-- A step of one end, with parts that it hands over. -/
theorem end_steps (hk : s.ends[k]? = some e) {sent : List Part}
    (hs : (ownership hL).Steps s.mem e.parts m (sent ++ e'.parts)) :
    (ownership hL).Steps s.mem s.parts m
      (sent ++ ((s.ends.set k e').flatMap End.parts ++ s.queued.map fun q => .chain q.2)) := by
  refine (hs.frame _).perm (ends_perm hk _) ?_
  rw [List.append_assoc]
  exact (ends_set_perm hk e' _).append_left _

theorem onEnd_steps {f : End → Go (Mem × End)} (hrun : s.onEnd k f = some t)
    (hs : ∀ e m e', s.ends[k]? = some e → f e = .ok (m, e') →
      (ownership hL).Steps s.mem e.parts m e'.parts) :
    (ownership hL).Steps s.mem s.parts t.mem t.parts := by
  obtain ⟨e, m, e', hk, hf, rfl⟩ := onEnd_inv hrun
  have hstep : (ownership hL).Steps s.mem e.parts m ([] ++ e'.parts) := hs e m e' hk hf
  exact end_steps hk hstep

/-- A change of an end that leaves its buffers as they are. -/
theorem fields_steps {f : End → End} (hrun : s.onEnd k (fun e => .ok (s.mem, f e)) = some t)
    (hf : ∀ e, (f e).parts = e.parts) : (ownership hL).Steps s.mem s.parts t.mem t.parts := by
  refine onEnd_steps hrun fun e m e' _ he => ?_
  cases he
  rw [hf]
  exact Ownership.Steps.refl _ _

theorem newEnd_steps (s : Net) (side : View) (id : ℕ) : (ownership hL).Steps s.mem s.parts s.mem
    ({ s with ends := s.ends ++ [{ side := side, id := id }] } : Net).parts := by
  -- nothing becomes the parts of an end with empty buffers
  have hnew : (ownership hL).Steps s.mem [] s.mem ({ side := side, id := id } : End).parts := by
    refine steps_of fun _ others free hlen hheap hall => ⟨free, hheap, hall, Keeps.refl .., ?_⟩
    intro p hp
    rcases List.mem_cons.mp hp with rfl | hp
    · exact (SendPart.clean (l := {}) cs s.mem rfl).recvPart
    · rw [List.mem_singleton.mp hp]
      exact SendPart.clean (l := {}) cs s.mem rfl
  refine (hnew.frame s.parts).perm (.refl _) ?_
  show ((s.ends ++ [_]).flatMap End.parts ++ _).Perm _
  rw [List.flatMap_append, List.flatMap_singleton, List.append_assoc]
  exact List.perm_append_comm_assoc ..

theorem getStream_steps (s : Net) (v : View) (id : ℕ) : (ownership hL).Steps s.mem s.parts
    (s.getStream v id).1.mem (s.getStream v id).1.parts := by
  obtain h | h := getStream_inv s v id
  · rw [h]
    exact Ownership.Steps.refl _ _
  · rw [h]
    exact newEnd_steps s .mapper id

/-- The message that was taken from a queue is pending now. -/
theorem add_steps {offset : ℕ}
    (hrun : s.onEnd k (fun e => .ok (s.mem, e.add (.chain offset))) = some t) :
    (ownership hL).Steps s.mem (.chain offset :: s.parts) t.mem t.parts := by
  obtain ⟨e, m, e', hk, hf, rfl⟩ := onEnd_inv hrun
  cases hf
  refine (Ownership.Steps.refl _ _).perm (.refl _) ?_
  refine (ends_set_perm hk _ _).trans ?_
  rw [End.add_parts]
  refine List.Perm.trans ?_ ((ends_perm hk _).symm.cons _)
  have hswap : (e.parts ++ [Part.chain offset]).Perm ([Part.chain offset] ++ e.parts) :=
    List.perm_append_comm
  exact hswap.append_right _

theorem queued_pop {v : View} {q : ℕ × ℕ} {rest : List (ℕ × ℕ)} (hq : s.queue v = q :: rest) :
    (q :: ({ s with queue := Function.update s.queue v rest } : Net).queued).Perm s.queued := by
  unfold Net.queued
  cases v with
  | creator =>
    rw [hq]
    simp
  | mapper =>
    rw [hq]
    simpa using List.perm_middle.symm

theorem queued_push (v : View) (q : ℕ × ℕ) :
    ({ s with queue := Function.update s.queue v (s.queue v ++ [q]) } : Net).queued.Perm
      (q :: s.queued) := by
  unfold Net.queued
  cases v with
  | creator => simp
  | mapper =>
    refine List.Perm.trans (List.Perm.of_eq ?_) (List.perm_append_singleton ..)
    simp

theorem pop_perm {v : View} {id offset : ℕ} {rest : List (ℕ × ℕ)}
    (hq : s.queue v = (id, offset) :: rest) : s.parts.Perm
      (.chain offset :: ({ s with queue := Function.update s.queue v rest } : Net).parts) := by
  have hmap := (queued_pop hq).map fun q : ℕ × ℕ => Part.chain q.2
  exact ((hmap.append_left (s.ends.flatMap End.parts)).symm).trans List.perm_middle

theorem poll_steps (hM : ∀ v, ManagerOk cs (bm v)) {v : View} (hrun : s.poll bm v = some t) :
    (ownership hL).Steps s.mem s.parts t.mem t.parts := by
  obtain ⟨id, offset, rest, s1, hq, rfl, h⟩ := poll_inv hrun
  have hget : (ownership hL).Steps s.mem _ _ _ :=
    getStream_steps { s with queue := Function.update s.queue v rest } v id
  have hframe := (hget.frame [.chain offset]).perm
    ((pop_perm hq).trans (List.perm_append_singleton ..).symm) (List.perm_append_singleton ..).symm
  rcases h with ⟨k, -, hadd⟩ | ⟨slice, m', hread, hrec, rfl⟩
  · exact hframe.trans (add_steps hadd)
  · exact hframe.trans ((recycleBuffers_steps (hM v) hread hrec).frame _)

theorem flush_steps (hM : ∀ v, ManagerOk cs (bm v)) {put : Bool}
    (hrun : s.flush bm k put = some t) : (ownership hL).Steps s.mem s.parts t.mem t.parts := by
  obtain ⟨e, m, e', sent, hk, hf, rfl⟩ := flush_inv hrun
  refine (end_steps hk (End.flush_steps (hM e.side) hf)).perm (.refl _) ?_
  cases sent with
  | queued offset =>
    refine List.Perm.trans (List.Perm.append_left _ ((queued_push (s := s) _ _).map _)) ?_
    exact List.perm_middle
  | nothing => exact .refl _
  | failed => exact .refl _
  | frame event payload => exact .refl _

/-- **Step.** All slots stay accounted for, whatever else there is. -/
theorem next_steps (hM : ∀ v, ManagerOk cs (bm v)) {a : Act} (ha : Net.Small s a)
    (hnext : s.next bm a = some t) : (ownership hL).Steps s.mem s.parts t.mem t.parts := by
  cases a with
  | openStream id =>
    rw [openStream_inv hnext]
    exact newEnd_steps s .creator id
  | unregister k | halfClose k | setCallbacks k => exact fields_steps hnext fun _ => rfl
  | setDeadlines k r w => exact fields_steps hnext fun _ => rfl
  | write k c => exact onEnd_steps hnext fun e m e' _ he => e.write_steps (hM e.side) ha he
  | flush k put => exact flush_steps hM hnext
  | poll v => exact poll_steps hM hnext
  | fallbackData v id payload =>
    rcases fallbackData_inv hnext with ⟨k, -, hadd⟩ | rfl
    · exact (getStream_steps s v id).trans
        (fields_steps hadd fun e => (e.add_parts _).trans (List.append_nil _))
    · exact getStream_steps s v id
  | moveTo k => exact onEnd_steps hnext fun e m e' _ he => e.moveTo_steps (hM e.side) he
  | call k c =>
    refine onEnd_steps hnext fun e m e' _ he => ?_
    split_ifs at he
    · exact e.call_steps (hM e.side) he
    · cases he
      exact Ownership.Steps.refl _ _
  | releasePreviousRead k =>
    exact onEnd_steps hnext fun e m e' _ he => e.releasePreviousRead_steps (hM e.side) he
  | releaseReadAndReuse k =>
    exact onEnd_steps hnext fun e m e' _ he => e.releaseReadAndReuse_steps (hM e.side) he
  | put k =>
    obtain ⟨e, m, e', hk, hput, rfl⟩ := put_inv hnext
    have hstep : (ownership hL).Steps s.mem e.parts m ([] ++ e'.parts) :=
      End.put_steps (hM e.side) hput
    exact end_steps hk hstep

theorem shared_step (hM : ∀ v, ManagerOk cs (bm v)) (h : (ownership hL).Shared s.mem s.parts)
    {a : Act} (ha : Net.Small s a) (hnext : s.next bm a = some t) :
    (ownership hL).Shared t.mem t.parts := by
  rw [← List.append_nil s.parts] at h
  rw [← List.append_nil t.parts]
  exact h.steps (next_steps hM ha hnext)

theorem shared_end_parts (h : (ownership hL).Shared s.mem s.parts) (hk : s.ends[k]? = some e) :
    RecvPart cs e.recvBuf ∧ SendPart cs s.mem e.sendBuf := by
  have hok := (h.perm (ends_perm hk _).symm).1
  exact ⟨hok (.recv e.recvBuf) (by simp [End.parts]), hok (.send e.sendBuf) (by simp [End.parts])⟩

end Runs

/-! ## A stream that nobody uses -/

/-- Nobody uses stream `k`, and no message for it comes in. Its peer may close it. -/
def Idle (k : ℕ) (s : Net) : Act → Prop
  | .poll v => ∀ q ∈ (s.queue v).head?, (s.getStream v q.1).2 ≠ some k
  | .fallbackData v id _ => (s.getStream v id).2 ≠ some k
  | .halfClose _ => True
  | a => a.target ≠ some k

instance (k : ℕ) (s : Net) : ∀ a, Decidable (Idle k s a)
  | .poll v => inferInstanceAs (Decidable (∀ q ∈ (s.queue v).head?, (s.getStream v q.1).2 ≠ some k))
  | .halfClose _ => inferInstanceAs (Decidable True)
  | .fallbackData .. | .openStream _ | .unregister _ | .setCallbacks _ | .setDeadlines .. | .write ..
  | .flush .. | .moveTo _ | .call .. | .releasePreviousRead _ | .releaseReadAndReuse _ | .put _ =>
    inferInstanceAs (Decidable (_ ≠ _))

/-- What happens to such a stream: it may be opened, and its peer may close it. -/
inductive Untouched : Option End → Option End → Prop
  | same (o : Option End) : Untouched o o
  | opened (side : View) (id : ℕ) : Untouched none (some { side := side, id := id })
  | peerClosed (e : End) (h : e.state = .opened) :
      Untouched (some e) (some { e with state := .halfClosed })

section Idle

variable {bm : View → Manager} {s t : Net} {k j : ℕ}

theorem onEnd_other (hj : j ≠ k) {f : End → Go (Mem × End)} (hrun : s.onEnd j f = some t) :
    t.ends[k]? = s.ends[k]? := by
  obtain ⟨e, m, e', -, -, rfl⟩ := onEnd_inv hrun
  exact List.getElem?_set_ne hj

theorem target_other {a : Act} (ha : a.target ≠ some k) (hsome : a.target ≠ none)
    (hnext : s.next bm a = some t) : t.ends[k]? = s.ends[k]? := by
  obtain ⟨j, hj⟩ := Option.ne_none_iff_exists'.mp hsome
  obtain ⟨-, e', -, hends⟩ := target_inv hj hnext
  have hjk : j ≠ k := fun hjk => ha (hjk ▸ hj)
  rw [hends]
  exact List.getElem?_set_ne hjk

theorem untouched_append (s : Net) (side : View) (id : ℕ) :
    Untouched s.ends[k]? (s.ends ++ [{ side := side, id := id }])[k]? := by
  rcases lt_trichotomy k s.ends.length with hlt | rfl | hgt
  · rw [List.getElem?_append_left hlt]
    exact .same _
  · rw [List.getElem?_eq_none le_rfl, List.getElem?_concat_length]
    exact .opened side id
  · rw [List.getElem?_eq_none hgt.le, List.getElem?_eq_none (by simpa using hgt)]
    exact .same _

theorem untouched_getStream (s : Net) (v : View) (id : ℕ) :
    Untouched s.ends[k]? (s.getStream v id).1.ends[k]? := by
  obtain hget | hget := getStream_inv s v id
  · rw [hget]
    exact .same _
  · rw [hget]
    exact untouched_append s .mapper id

/-- The look-up does not depend on the queues. -/
theorem getStream_queue (s : Net) (q : View → List (ℕ × ℕ)) (v : View) (id : ℕ) :
    (Net.getStream { s with queue := q } v id).2 = (s.getStream v id).2 := by
  unfold Net.getStream
  cases s.ends.findIdx? fun e => e.side = v ∧ e.registered = true ∧ e.id = id with
  | some k => rfl
  | none => cases v <;> rfl

/-- **Step.** The stream stays as it was, unless its peer closes it. -/
theorem idle_step {a : Act} (ha : Idle k s a) (hnext : s.next bm a = some t) :
    Untouched s.ends[k]? t.ends[k]? := by
  have htarget : a.target ≠ some k → a.target ≠ none → Untouched s.ends[k]? t.ends[k]? := by
    intro ha hsome
    rw [target_other ha hsome hnext]
    exact .same _
  cases a with
  | openStream id =>
    rw [openStream_inv hnext]
    exact untouched_append s .creator id
  | halfClose j =>
    by_cases hj : j = k
    · subst hj
      simp only [Net.next] at hnext
      obtain ⟨e, m, e', he, heq, rfl⟩ := onEnd_inv hnext
      cases heq
      show Untouched s.ends[j]? (s.ends.set j _)[j]?
      rw [List.getElem?_set_self (List.getElem?_eq_some_iff.mp he).1, he]
      by_cases hopen : e.state = .opened
      · rw [if_pos hopen]
        exact .peerClosed e hopen
      · rw [if_neg hopen]
        exact .same _
    · exact htarget (fun h => hj (Option.some.inj h)) (by simp [Act.target])
  | poll v =>
    obtain ⟨id, offset, rest, s1, hq, rfl, hpoll⟩ := poll_inv hnext
    have hs1 := untouched_getStream (k := k)
      { s with queue := Function.update s.queue v rest } v id
    rcases hpoll with ⟨j, hj, hadd⟩ | ⟨slice, m, -, -, rfl⟩
    · have hjk : j ≠ k := by
        rintro rfl
        rw [getStream_queue] at hj
        exact ha (id, offset) (by rw [hq]; rfl) hj
      rw [onEnd_other hjk hadd]
      exact hs1
    · exact hs1
  | fallbackData v id payload =>
    have hs1 := untouched_getStream (k := k) s v id
    rcases fallbackData_inv hnext with ⟨j, hj, hadd⟩ | rfl
    · have hjk : j ≠ k := by
        rintro rfl
        exact ha hj
      rw [onEnd_other hjk hadd]
      exact hs1
    · exact hs1
  | _ => exact htarget ha (by simp [Act.target])

end Idle

/-! ## Every slot is in one place -/

/-- All places of slots but the free chains: each `sendBuf`, each `recvBuf`, the pinned
    lists, the chains of queued elements and those of pending ones. -/
def Net.owned (s : Net) : List ℕ := s.parts.flatMap (·.slots s.mem)

section Conserved

variable {cs : List SizeClass} {bm : View → Manager} {m : Mem} {s : Net}

/-- Every slot is free, in its own list, or in one place. -/
structure Conserved (cs : List SizeClass) (bm : Manager) (s : Net) : Prop where
  all : (bm.freeSlots s.mem ++ s.owned).Perm (allSlots cs)
  once : (bm.freeSlots s.mem ++ s.owned).Nodup
  lists : List.Forall₂ (fun b c => ∀ a ∈ b.freeSlots s.mem, a ∈ c.slots) bm.lists cs

theorem conserved_of_shared {len : ℕ} {hL : Layout cs len} {bm : Manager} (hM : ManagerOk cs bm)
    (h : (ownership hL).Shared s.mem s.parts) : Conserved cs bm s := by
  obtain ⟨-, free, ⟨hlen, hheap⟩, hall⟩ := h
  have hperm : (bm.freeSlots s.mem ++ s.owned).Perm (allSlots cs) :=
    (List.perm_append_comm.trans ((hheap.freeSlots_perm hM).append_left _)).trans hall
  exact ⟨hperm, hperm.nodup_iff.mpr hL.allSlots_nodup, hheap.freeSlots_own hM⟩

/-- The two processes on a created memory. -/
theorem shared_created (hc : Created cs (bm .creator) m) :
    (ownership hc.layout).Shared m ({ mem := m } : Net).parts :=
  ⟨by simp [Net.parts, Net.queued], _, ⟨rfl, hc.heap⟩,
    by simp [Net.parts, Net.queued, Ownership.ownsAll, ownership]⟩

/-- **Run.** -/
theorem shared_of_reachable (hc : Created cs (bm .creator) m) (hM : ∀ v, ManagerOk cs (bm v))
    (hs : (Net.runs bm m).ReachableWhen Net.Small s) :
    (ownership hc.layout).Shared s.mem s.parts := by
  refine hs.invariant (fun s => (ownership hc.layout).Shared s.mem s.parts) ?_ ?_
  · rintro s rfl
    exact shared_created hc
  · intro s a t h ha hnext
    exact shared_step hM h ha hnext

end Conserved

/-- Two processes with one shared memory: one creates it, with different slice sizes that
    leave room for the slot header in 32 bits, the other maps it. -/
structure TwoProcesses (pairs : List SizePercentPair) (m m0 : Mem) (bm bm' : Manager) : Prop where
  sizes : ∀ p ∈ pairs, p.size + bufferHeaderSize < 2 ^ 32
  ascending : pairs.Pairwise fun p p' => p.size < p'.size
  percents : (pairs.map (·.percent)).sum ≤ 100
  len : m.len < 2 ^ 32
  create : createBufferManager pairs m 0 = .ok (.ok (m0, bm))
  map : mappingBufferManager m0 0 = .ok (.ok bm')

section

variable {pairs : List SizePercentPair} {m m0 : Mem} {bm bm' : Manager} {s : Net}

theorem TwoProcesses.created (h : TwoProcesses pairs m m0 bm bm') :
    Created (classesOf pairs m.len) bm m0 :=
  (createBufferManager_created h.sizes h.ascending h.percents h.len h.create).1

theorem TwoProcesses.managerOk (h : TwoProcesses pairs m m0 bm bm') (v : View) :
    ManagerOk (classesOf pairs m.len) (Views.managerOf bm bm' v) := by
  have hc := h.created
  obtain ⟨bm1, hmap, hm⟩ := mappingBufferManager_isView hc.headers hc.layout.placed hc.nonempty
  rw [h.map] at hmap
  cases hmap
  exact (Views.isView_managerOf hc.isView hm v).managerOk hc.layout.placed
    (hc.layout.ascending.imp le_of_lt)

theorem TwoProcesses.shared (h : TwoProcesses pairs m m0 bm bm')
    (hs : (Net.runs (Views.managerOf bm bm') m0).ReachableWhen Net.Small s) :
    (ownership h.created.layout).Shared s.mem s.parts := by
  have hc : Created _ (Views.managerOf bm bm' .creator) m0 := h.created
  exact shared_of_reachable hc h.managerOk hs

/-- **Main theorem.** Whatever the streams of both processes do, every slot is in exactly
    one place as long as each `Reserve` asks for less than `2 ^ 32` bytes. -/
theorem slots_conserved (h : TwoProcesses pairs m m0 bm bm')
    (hs : (Net.runs (Views.managerOf bm bm') m0).ReachableWhen Net.Small s) (v : View) :
    Conserved (classesOf pairs m.len) (Views.managerOf bm bm' v) s :=
  conserved_of_shared (h.managerOk v) (h.shared hs)

end

/-- A message of two slots, read, released and its last slot reused for a message to an id
    that the client does not know any more; a message by fallback, and one that fails. -/
def roundTrip : List Act := [
  .openStream 1, .write 0 (.writeBytes (List.replicate 30 7)), .flush 0 true, .poll .mapper,
  .moveTo 1, .call 1 (.readBytes 3), .call 1 (.readBytes 27), .releaseReadAndReuse 1,
  .write 1 (.reserve 5 [1, 2]), .flush 1 true, .unregister 0, .poll .creator,
  .fallbackData .mapper 1 [9], .moveTo 1, .releasePreviousRead 1, .write 0 (.writeByte 1),
  .flush 0 false, .write 0 (.writeByte 2)]

/-- Two processes with a small memory that satisfies a test. -/
theorem exists_twoProcesses (q : Mem → Manager → Manager → Prop)
    (h : ∃ p ∈ Views.zeroViews [⟨24, 100⟩] 264, q p.1 p.2.1 p.2.2) : ∃ m0 bm bm',
      TwoProcesses [⟨24, 100⟩] (zeroMem 264) m0 bm bm' ∧ q m0 bm bm' := by
  obtain ⟨m0, bm, bm', hc, hmap, hq⟩ := Views.exists_zeroViews _ _ q h
  exact ⟨m0, bm, bm', ⟨by decide, by simp, by decide, by decide, hc, hmap⟩, hq⟩

theorem slots_conserved_round_trip : ∃ m0 bm bm' s,
    TwoProcesses [⟨24, 100⟩] (zeroMem 264) m0 bm bm' ∧
      (Net.runs (Views.managerOf bm bm') m0).ReachableWhen Net.Small s ∧ s.owned ≠ [] ∧
      Conserved (classesOf [⟨24, 100⟩] (zeroMem 264).len) bm s := by
  obtain ⟨m0, bm, bm', htwo, hok, hrun⟩ := exists_twoProcesses (fun m0 bm bm' =>
      (Net.runs (Views.managerOf bm bm') m0).RunOk Net.Small { mem := m0 } roundTrip ∧
      ∃ s ∈ (Net.runs (Views.managerOf bm bm') m0).run { mem := m0 } roundTrip, s.owned ≠ [])
    (by decide +kernel)
  obtain ⟨s, hs, hout⟩ := (Net.runs (Views.managerOf bm bm') m0).exists_reachableWhen_of_run
    Net.Small _ roundTrip _ rfl hok hrun
  exact ⟨m0, bm, bm', s, htwo, hs, hout, slots_conserved htwo hs .creator⟩

/-- A slot is lent, two others go back to the free list in the reverse order, and
    `Reserve(2 ^ 32)` takes one of them as its second slot. -/
def emptyChain : List Act := [
  .openStream 1, .openStream 2, .write 0 (.writeByte 7), .flush 0 true, .poll .mapper,
  .moveTo 2, .call 2 (.readBytes 1), .write 0 (.writeByte 1), .write 1 (.writeByte 2),
  .flush 1 false, .flush 0 false, .write 0 (.writeByte 3), .write 1 (.reserve (2 ^ 32) []),
  .flush 1 true, .poll .mapper, .moveTo 3]

/-- **Counterexample.** After `Reserve(2 ^ 32)` and `Flush`, `moveTo` follows the stale link
    of the empty slot 132, which is the offset 44 of another stream's slot. -/
theorem slot_in_two_buffers : ∃ m0 bm bm' s,
    TwoProcesses [⟨24, 100⟩] (zeroMem 264) m0 bm bm' ∧
      (Net.runs (Views.managerOf bm bm') m0).run { mem := m0 } emptyChain = some s ∧
      s.ends.map (fun e => slotsOf e.recvBuf.slices) = [[], [], [44], [44]] ∧
      ¬ (bm.freeSlots s.mem ++ s.owned).Nodup := by
  obtain ⟨m0, bm, bm', htwo, s, hs, hout⟩ := exists_twoProcesses (fun m0 bm bm' =>
      ∃ s ∈ (Net.runs (Views.managerOf bm bm') m0).run { mem := m0 } emptyChain,
      s.ends.map (fun e => slotsOf e.recvBuf.slices) = [[], [], [44], [44]] ∧
        ¬ (bm.freeSlots s.mem ++ s.owned).Nodup) (by decide +kernel)
  exact ⟨m0, bm, bm', s, htwo, hs, hout⟩

/-! ## Results that are not copied -/

section Lent

variable {cs : List SizeClass} {len : ℕ} {hL : Layout cs len} {bm : Manager} {m m' : Mem}
  {l l' : LinkedBuffer} {e e' : End}

/-- The slots of the results that were not copied are pinned. -/
def End.Lends (e : End) : Prop := ∀ a ∈ e.lent, e.recvBuf.Pins a

/-- What `moveTo` does to the list. -/
structure Extends (l l' : LinkedBuffer) : Prop where
  slices : ∃ new, l'.slices = l.slices ++ new
  pinnedList : l'.pinnedList = l.pinnedList
  currentPinned : l'.currentPinned = l.currentPinned

theorem Extends.refl (l : LinkedBuffer) : Extends l l := ⟨⟨[], by simp⟩, rfl, rfl⟩

theorem Extends.trans {l'' : LinkedBuffer} (h : Extends l l') (h' : Extends l' l'') :
    Extends l l'' := by
  obtain ⟨new, hnew⟩ := h.slices
  obtain ⟨new', hnew'⟩ := h'.slices
  exact ⟨⟨new ++ new', by rw [hnew', hnew, List.append_assoc]⟩, h'.pinnedList.trans h.pinnedList,
    h'.currentPinned.trans h.currentPinned⟩

theorem Extends.append (l : LinkedBuffer) (s : BufferSlice) : Extends l (l.appendBufferSlice s) :=
  ⟨⟨[s], rfl⟩, rfl, rfl⟩

theorem Extends.pins (h : Extends l l') {a : ℕ} (ha : l.Pins a) : l'.Pins a := by
  obtain ⟨new, hnew⟩ := h.slices
  rcases ha with ha | ⟨hc, s, hs, ha⟩
  · exact .inl (h.pinnedList ▸ ha)
  · refine .inr ⟨h.currentPinned.trans hc, s, ?_, ha⟩
    rw [hnew, List.head?_append, hs]
    rfl

theorem moveChain_extends : ∀ (k : ℕ) (m : Mem) (l : LinkedBuffer) (offset : ℕ),
    moveChain bm k m l offset = .ok (m', l') → Extends l l' := by
  intro k
  induction k with
  | zero => intro m l offset h; cases h
  | succ k ih =>
    intro m l offset h
    obtain ⟨r, -, h⟩ := Go.bind_ok.mp h
    cases r with
    | error err =>
      cases h
      exact Extends.refl _
    | ok slice =>
      simp only [] at h
      split at h
      · split at h
        · obtain ⟨m1, -, h⟩ := Go.bind_ok.mp h
          exact ih _ _ _ h
        · split at h
          · cases h
          · split at h
            · obtain ⟨m1, -, h⟩ := Go.bind_ok.mp h
              exact ih _ _ _ h
            · obtain ⟨m1, -, h⟩ := Go.bind_ok.mp h
              cases h
              exact Extends.refl _
      · split at h
        · exact (Extends.append ..).trans (ih _ _ _ h)
        · cases h
          exact Extends.append ..

theorem moveTo_extends : ∀ (pending : List Unread) (m : Mem) (l : LinkedBuffer),
    LinkedBuffer.moveTo bm pending m l = .ok (m', l') → Extends l l' := by
  intro pending
  induction pending with
  | nil =>
    intro m l h
    cases h
    exact Extends.refl _
  | cons u pending ih =>
    intro m l h
    cases u with
    | fallback payload => exact (Extends.append ..).trans (ih _ _ h)
    | chain offset =>
      obtain ⟨⟨m1, l1⟩, hchain, h⟩ := Go.bind_ok.mp h
      exact (moveChain_extends _ _ _ _ hchain).trans (ih _ _ h)

/-- The front slice is marked as pinned. -/
theorem pins_front {s t : BufferSlice} (hok : SliceOk cs s) (hc : l.currentPinned = true)
    (ht : l.slices.head? = some t) (hh : t.header = s.header) :
    ∀ a ∈ (if s.isFromShm then some s.offsetInShm else none).toList, l.Pins a := by
  intro a ha
  refine .inr ⟨hc, t, ht, ?_⟩
  rcases hok with hshm | hheap
  · rw [hshm.isFromShm] at ha
    rw [hh, hshm.header, List.mem_singleton.mp ha]
  · rw [hheap.isFromShm] at ha
    cases ha

/-- The slot of a result that is not copied is pinned. -/
theorem call_lent {others free : List ℕ} (hM : ManagerOk cs bm) (h : Owns cs m l others free)
    {c : Call} {r : Reply} (hrun : c.run bm m l = .ok (m', l', r)) :
    ∀ a ∈ c.lent bm m l, l'.Pins a := by
  intro a ha
  cases c with
  | readBytes size =>
    obtain ⟨⟨m1, l1, r1⟩, hread, heq⟩ := Go.bind_ok.mp hrun
    cases heq
    rw [Call.lent, hread] at ha
    unfold LinkedBuffer.readBytes at hread
    split_ifs at hread
    · cases hread
      cases ha
    obtain ⟨⟨m2, l2⟩, hskip, hread⟩ := Go.bind_ok.mp hread
    obtain ⟨s, hfront, hread⟩ := Go.bind_ok.mp hread
    obtain ⟨rest, hs⟩ := front_inv hfront
    obtain ⟨free', hmoved⟩ := (skipExhausted_reads hskip).moves.moved hM h
    split at hread
    · obtain ⟨⟨bs, s', enough⟩, hslice, hread⟩ := Go.bind_ok.mp hread
      obtain ⟨rfl, -, -⟩ := read_length hslice
      cases hread
      refine pins_front (t := s.advance bs.length) (hmoved.owns.slices s (hs ▸ List.mem_cons_self)) rfl
        ?_ rfl a ha
      show (l2.setSlice 0 _).slices.head? = _
      rw [setSlice_zero hs]
      rfl
    · obtain ⟨⟨m3, l3, bs⟩, -, hread⟩ := Go.bind_ok.mp hread
      cases hread
      cases ha
  | peek size =>
    obtain ⟨⟨l1, r1⟩, hread, heq⟩ := Go.bind_ok.mp hrun
    cases heq
    rw [Call.lent, hread] at ha
    unfold LinkedBuffer.peek at hread
    split_ifs at hread
    · cases hread
      cases ha
    obtain ⟨s, hfront, hread⟩ := Go.bind_ok.mp hread
    obtain ⟨rest, hs⟩ := front_inv hfront
    obtain ⟨bs, -, hread⟩ := Go.bind_ok.mp hread
    split at hread
    · cases hread
      refine pins_front (h.slices s (hs ▸ List.mem_cons_self)) rfl ?_ rfl a ha
      show l.slices.head? = _
      rw [hs]
      rfl
    · obtain ⟨bs2, -, hread⟩ := Go.bind_ok.mp hread
      cases hread
      cases ha
  | readString size => cases ha
  | discard size => cases ha
  | readByte => cases ha
  | read size => cases ha

theorem End.moveTo_lends (h : e.Lends) (hrun : e.moveTo bm m = .ok (m', e')) : e'.Lends := by
  obtain ⟨⟨m1, l⟩, hmove, heq⟩ := Go.bind_ok.mp hrun
  cases heq
  exact fun a ha => (moveTo_extends _ _ _ hmove).pins (h a ha)

theorem End.call_lends {others free : List ℕ} (hM : ManagerOk cs bm)
    (hown : Owns cs m e.recvBuf others free) (h : e.Lends) {c : Call}
    (hrun : e.call bm m c = .ok (m', e')) : e'.Lends := by
  obtain ⟨⟨m1, l, r⟩, hcall, heq⟩ := Go.bind_ok.mp hrun
  cases heq
  obtain ⟨free', hmoved⟩ := (call_called hcall).moves.moved hM hown
  intro a ha
  rcases List.mem_append.mp ha with ha | ha
  · exact hmoved.pins a (h a ha)
  · exact call_lent hM hown hcall a ha

end Lent

section LentRuns

variable {cs : List SizeClass} {len : ℕ} {hL : Layout cs len} {bm : View → Manager} {s t : Net}
  {e : End} {k : ℕ}

theorem shared_recv (h : (ownership hL).Shared s.mem s.parts) (he : e ∈ s.ends) :
    ∃ others free, Owns cs s.mem e.recvBuf others free := by
  obtain ⟨k, hk⟩ := List.mem_iff_getElem?.mp he
  obtain ⟨hok, free, ⟨hlen, hheap⟩, hall⟩ := h.perm (ends_perm hk _).symm
  have hrecv : RecvPart cs e.recvBuf := hok (.recv e.recvBuf) (by simp [End.parts])
  exact ⟨_, free, hrecv.owns (hlen ▸ hL) hheap
    (List.Perm.trans (List.Perm.of_eq (List.append_assoc ..).symm) hall)⟩

theorem lends_onEnd (h : ∀ e ∈ s.ends, e.Lends) {f : End → Go (Mem × End)}
    (hrun : s.onEnd k f = some t)
    (hf : ∀ e m e', e ∈ s.ends → f e = .ok (m, e') → e'.Lends) : ∀ e ∈ t.ends, e.Lends := by
  obtain ⟨e, m, e', hk, he, rfl⟩ := onEnd_inv hrun
  exact forall_set h (hf e m e' (List.mem_of_getElem? hk) he)

theorem lends_newEnd (h : ∀ e ∈ s.ends, e.Lends) (side : View) (id : ℕ) :
    ∀ e ∈ s.ends ++ [{ side := side, id := id }], e.Lends := by
  intro e he
  rcases List.mem_append.mp he with he | he
  · exact h e he
  · rw [List.mem_singleton.mp he]
    exact fun a ha => nomatch ha

theorem lends_getStream (h : ∀ e ∈ s.ends, e.Lends) (v : View) (id : ℕ) :
    ∀ e ∈ (s.getStream v id).1.ends, e.Lends := by
  obtain hget | hget := getStream_inv s v id
  · rw [hget]
    exact h
  · rw [hget]
    exact lends_newEnd h .mapper id

/-- **Step.** What was lent stays pinned. -/
theorem lends_step (hM : ∀ v, ManagerOk cs (bm v)) (hs : (ownership hL).Shared s.mem s.parts)
    (h : ∀ e ∈ s.ends, e.Lends) {a : Act} (hnext : s.next bm a = some t) :
    ∀ e ∈ t.ends, e.Lends := by
  -- a change that does not concern the receive buffer
  have hsame : ∀ {s t : Net} {k : ℕ} {f : End → End}, (∀ e ∈ s.ends, e.Lends) →
      s.onEnd k (fun e => .ok (s.mem, f e)) = some t →
      (∀ e, (f e).recvBuf = e.recvBuf ∧ (f e).lent = e.lent) → ∀ e ∈ t.ends, e.Lends := by
    intro s t k f h hrun hf
    refine lends_onEnd h hrun fun e m e' he hfe => ?_
    cases hfe
    unfold End.Lends
    rw [(hf e).1, (hf e).2]
    exact h e he
  cases a with
  | openStream id =>
    rw [openStream_inv hnext]
    exact lends_newEnd h .creator id
  | unregister k | halfClose k | setCallbacks k => exact hsame h hnext fun _ => ⟨rfl, rfl⟩
  | setDeadlines k r w => exact hsame h hnext fun _ => ⟨rfl, rfl⟩
  | write k c =>
    refine lends_onEnd h hnext fun e m e' he hf => ?_
    obtain ⟨r, -, heq⟩ := Go.bind_ok.mp hf
    cases heq
    exact h e he
  | flush k put =>
    obtain ⟨e, m, e', sent, hk, hf, rfl⟩ := flush_inv hnext
    obtain ⟨r, -, heq⟩ := Go.bind_ok.mp hf
    cases heq
    exact forall_set h (h e (List.mem_of_getElem? hk))
  | poll v =>
    obtain ⟨id, offset, rest, s1, hq, rfl, hpoll⟩ := poll_inv hnext
    have hs1 := lends_getStream (s := { s with queue := Function.update s.queue v rest }) h v id
    rcases hpoll with ⟨k, -, hadd⟩ | ⟨slice, m, -, -, rfl⟩
    · exact hsame hs1 hadd fun _ => ⟨rfl, rfl⟩
    · exact hs1
  | fallbackData v id payload =>
    have hs1 := lends_getStream h v id
    rcases fallbackData_inv hnext with ⟨k, -, hadd⟩ | rfl
    · exact hsame hs1 hadd fun _ => ⟨rfl, rfl⟩
    · exact hs1
  | moveTo k => exact lends_onEnd h hnext fun e m e' he hf => End.moveTo_lends (h e he) hf
  | call k c =>
    refine lends_onEnd h hnext fun e m e' he hf => ?_
    split_ifs at hf
    · obtain ⟨others, free, hown⟩ := shared_recv hs he
      exact End.call_lends (hM e.side) hown (h e he) hf
    · cases hf
      exact h e he
  | releasePreviousRead k | releaseReadAndReuse k =>
    refine lends_onEnd h hnext fun e m e' he hf => ?_
    obtain ⟨r, -, heq⟩ := Go.bind_ok.mp hf
    cases heq
    exact fun a ha => nomatch ha
  | put k =>
    obtain ⟨e, m, e', hk, hput, rfl⟩ := put_inv hnext
    obtain ⟨e1, -, -, hrun⟩ := End.put_inv hput
    obtain ⟨r, -, heq⟩ := Go.bind_ok.mp hrun.symm
    cases heq
    exact forall_set h fun a ha => nomatch ha

/-- **Run.** -/
theorem lends_of_reachable {m : Mem} (hc : Created cs (bm .creator) m)
    (hM : ∀ v, ManagerOk cs (bm v)) (hs : (Net.runs bm m).ReachableWhen Net.Small s) :
    ∀ e ∈ s.ends, e.Lends := by
  have h := hs.invariant (fun s => (ownership hc.layout).Shared s.mem s.parts ∧ ∀ e ∈ s.ends, e.Lends)
    (by
      rintro s rfl
      exact ⟨shared_created hc, fun e he => nomatch he⟩)
    fun s a t h ha hnext => ⟨shared_step hM h.1 ha hnext, lends_step hM h.1 h.2 hnext⟩
  exact h.2

theorem mem_slots_of_pins {l : LinkedBuffer} {a : ℕ} (h : l.Pins a) : a ∈ l.slots := by
  rcases h with h | ⟨-, t, ht, ha⟩
  · exact List.mem_append_right _ h
  · exact List.mem_append_left _ (mem_slotsOf (List.mem_of_mem_head? ht) ha)

theorem mem_owned {a : ℕ} (he : e ∈ s.ends) (ha : a ∈ e.recvBuf.slots) : a ∈ s.owned :=
  List.mem_flatMap.mpr ⟨.recv e.recvBuf, List.mem_append_left _
    (List.mem_flatMap.mpr ⟨e, he, List.mem_cons_self⟩), ha⟩

end LentRuns

section

variable {pairs : List SizePercentPair} {m m0 : Mem} {bm bm' : Manager} {s : Net}

/-- **Main theorem.** In every run in which each `Reserve` asks for less than `2 ^ 32` bytes:
    the slot of a result that was returned without copying is pinned until the next release
    of its buffer; it is in no free chain, of either process, and in no other place. -/
theorem lent_stays_pinned (h : TwoProcesses pairs m m0 bm bm')
    (hs : (Net.runs (Views.managerOf bm bm') m0).ReachableWhen Net.Small s) :
    ∀ e ∈ s.ends, ∀ a ∈ e.lent, e.recvBuf.Pins a ∧ s.owned.count a = 1 ∧
      ∀ v, a ∉ (Views.managerOf bm bm' v).freeSlots s.mem := by
  intro e he a ha
  have hc : Created _ (Views.managerOf bm bm' .creator) m0 := h.created
  have hpins := lends_of_reachable hc h.managerOk hs e he a ha
  have hown : a ∈ s.owned := mem_owned he (mem_slots_of_pins hpins)
  have honce : ∀ v, ((Views.managerOf bm bm' v).freeSlots s.mem ++ s.owned).Nodup := fun v =>
    (conserved_of_shared (h.managerOk v) (h.shared hs)).once
  refine ⟨hpins, List.count_eq_one_of_mem (List.nodup_append.mp (honce .creator)).2.1 hown, ?_⟩
  intro v hfree
  exact (List.nodup_append.mp (honce v)).2.2 a hfree a hown rfl

end

/-- A result of each fast path, and readers and writers that go on. -/
def keepLent : List Act := [
  .openStream 1, .openStream 2, .write 0 (.writeBytes (List.replicate 30 7)), .flush 0 true,
  .poll .mapper, .moveTo 2, .call 2 (.peek 3), .call 2 (.discard 24), .call 2 (.readBytes 2),
  .call 2 (.readString 4), .write 1 (.writeBytes (List.replicate 30 8)), .flush 1 true,
  .poll .mapper, .moveTo 3]

theorem lent_stays_pinned_two_slots : ∃ m0 bm bm' s,
    TwoProcesses [⟨24, 100⟩] (zeroMem 264) m0 bm bm' ∧
      (Net.runs (Views.managerOf bm bm') m0).ReachableWhen Net.Small s ∧
      ∃ e ∈ s.ends, e.lent = [44, 88] ∧ ∀ a ∈ e.lent, e.recvBuf.Pins a ∧ a ∉ bm.freeSlots s.mem := by
  obtain ⟨m0, bm, bm', htwo, hok, hrun⟩ := exists_twoProcesses (fun m0 bm bm' =>
      (Net.runs (Views.managerOf bm bm') m0).RunOk Net.Small { mem := m0 } keepLent ∧
      ∃ s ∈ (Net.runs (Views.managerOf bm bm') m0).run { mem := m0 } keepLent,
      ∃ e ∈ s.ends, e.lent = [44, 88]) (by decide +kernel)
  obtain ⟨s, hs, e, he, hlent⟩ := (Net.runs (Views.managerOf bm bm') m0).exists_reachableWhen_of_run
    Net.Small _ keepLent _ rfl hok hrun
  refine ⟨m0, bm, bm', s, htwo, hs, e, he, hlent, fun a ha => ?_⟩
  obtain ⟨hpins, -, hfree⟩ := lent_stays_pinned htwo hs e he a ha
  exact ⟨hpins, hfree .creator⟩

/-- **Counterexample.** The slot 44 is lent by the first stream and, by the stale link,
    in the buffer of the second, which reads and releases it. -/
theorem lent_slot_freed : ∃ m0 bm bm' s,
    TwoProcesses [⟨24, 100⟩] (zeroMem 264) m0 bm bm' ∧
      (Net.runs (Views.managerOf bm bm') m0).run { mem := m0 }
        (emptyChain ++ [.call 3 (.readBytes 1), .releasePreviousRead 3]) = some s ∧
      ∃ e ∈ s.ends, 44 ∈ e.lent ∧ 44 ∈ bm.freeSlots s.mem := by
  obtain ⟨m0, bm, bm', htwo, s, hs, hout⟩ := exists_twoProcesses (fun m0 bm bm' =>
      ∃ s ∈ (Net.runs (Views.managerOf bm bm') m0).run { mem := m0 }
        (emptyChain ++ [Act.call 3 (.readBytes 1), Act.releasePreviousRead 3]),
      ∃ e ∈ s.ends, 44 ∈ e.lent ∧ 44 ∈ bm.freeSlots s.mem) (by decide +kernel)
  exact ⟨m0, bm, bm', s, htwo, hs, hout⟩

end Shmipc.DataPath
