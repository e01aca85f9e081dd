import Shmipc.Session.Order
import Shmipc.Stream.Machine

/-!
# The streams a server creates

`Session.getStream` (session.go:560-583) of a server creates a stream for each data
message with an unknown id, and `onStreamClose` (session.go:609-614) makes the id of a
closed stream unknown again. Messages of a client's stream that are still under way then
reach a second stream.

The client's direction is the machine of `Session.Machine`, with both its channels. Of the
opposite direction only the close notifications matter here; they may arrive in any order.
`getStream` and `fillDataToReadBuffer` are two steps of the event loop, as are the change
of state and `onStreamClose` of a `Close`.

Results:
* `second_server_stream`: a run in which the server closes its end while a message is in
  the queue.
* `one_server_stream`: in every run in which the server drops an id only when no message
  of it is under way, and the client flushes nothing on a stream that the server has
  dropped (`Ok`), there is at most one stream object per id and every message goes to it.
-/

namespace Shmipc.Accept

open Common
open Session (Elem Frame StreamPc queueFor framesFor)
open Shmipc.Stream (StreamState)

variable {M : Type*}

/-- A stream object of the server. -/
structure ServerStream (M : Type*) where
  state : StreamState := .opened
  /-- `OnNewStream` was called with it, or it was taken from `acceptCh`. -/
  accepted : Bool := false
  /-- It is in `session.streams`. -/
  registered : Bool := true
  /-- `close` found it open and will notify the client. -/
  notify : Bool := false
  /-- The messages passed to `fillDataToReadBuffer`, each with whether the stream was
      closed, so that the message was cleared at once. -/
  messages : List (M × Bool) := []
  deriving DecidableEq

def newStream : ServerStream M where

structure State (M : Type*) where
  /-- The direction from the client to the server. -/
  up : Session.State M
  /-- `nextStreamID` of the client. -/
  nextStreamID : ℕ
  /-- The client's streams. -/
  client : ℕ → Option StreamState
  /-- The server's stream objects of an id, in the order of their creation. The last one
      is the one in `session.streams`, if the id is there. -/
  objects : ℕ → List (ServerStream M)
  /-- The event loop between `getStream` and `fillDataToReadBuffer`: id, object, message. -/
  filling : Option (ℕ × ℕ × M)
  /-- The server's close notifications on their way to the client. -/
  notices : ℕ → ℕ

/-- The steps. `flush`, `close` and `closeInCallback` are calls of the client's user,
    `stream`, `fail` and `send` steps inside the client's calls and its send loop; `notice`
    is the client's handling of a notification. `recv` is the server's event loop; the
    others are calls of the server's user on object `k` of an id. -/
inductive Act (M : Type*)
  | openStream
  | flush (i : ℕ) (m : M) (fromShm : Bool)
  | close (i : ℕ)
  | closeInCallback (i : ℕ)
  | notice (i : ℕ)
  | stream (i : ℕ)
  | fail (i : ℕ)
  | send
  | recv
  | accept (i k : ℕ)
  | serverCloseInCallback (i k : ℕ)
  | serverClose (i k : ℕ)
  | onStreamClose (i k : ℕ)

/-- `CompareAndSwapUint32(&s.state, streamOpened, streamHalfClosed)`. -/
def casHalf : StreamState → StreamState
  | .opened => .halfClosed
  | st => st

/-- What the event loop's next step handles. -/
def nextElem (s : Session.State M) : Option (Elem M) :=
  match s.recv, s.socket with
  | .idle, .fallbackData i m :: _ => some (.data i m)
  | .idle, .streamClose i :: _ => some (.closed i)
  | .handle e, _ => some e
  | _, _ => none

def State.setObject (s : State M) (i k : ℕ) (o : ServerStream M) : State M :=
  { s with objects := Function.update s.objects i ((s.objects i).set k o) }

/-- `getStream(id, streamOpened)` of a server. -/
def State.getStream (s : State M) (i : ℕ) : List (ServerStream M) × ℕ :=
  if s.up.streams i then (s.objects i, (s.objects i).length - 1)
  else (s.objects i ++ [newStream], (s.objects i).length)

/-- `getStream(id, streamClosed)` and `halfClose`. -/
def State.halfClose (s : State M) (i : ℕ) : List (ServerStream M) :=
  if s.up.streams i then
    (s.objects i).modify ((s.objects i).length - 1) fun o => { o with state := casHalf o.state }
  else s.objects i

/-- The event loop up to `getStream`, or up to the end of `halfClose`. -/
def stepGet (s : State M) : Option (State M) :=
  (Session.stepRecv s.up).map fun up =>
    match nextElem s.up with
    | some (.data i m) =>
      { s with
        up := up
        objects := Function.update s.objects i (s.getStream i).1
        filling := some (i, (s.getStream i).2, m) }
    | some (.closed i) =>
      { s with up := up, objects := Function.update s.objects i (s.halfClose i) }
    | none => { s with up := up }

/-- `fillDataToReadBuffer` on object `k`. -/
def stepFill (s : State M) (i k : ℕ) (m : M) : State M :=
  { s with
    objects := Function.update s.objects i ((s.objects i).modify k fun o =>
      { o with messages := o.messages ++ [(m, decide (o.state = .closed))] })
    filling := none }

/-- `onStreamClose`, and the notification if the stream was open. -/
def State.onStreamClose (s : State M) (i k : ℕ) (o : ServerStream M) : State M :=
  { s.setObject i k { o with registered := false } with
    up := { s.up with
      streams := Function.update s.up.streams i false
      halfClosed := Function.update s.up.halfClosed i false }
    notices := Function.update s.notices i (s.notices i + if o.notify then 1 else 0) }

def State.object (s : State M) (i k : ℕ) : Option (ServerStream M) := (s.objects i)[k]?

def step (cap : ℕ) (s : State M) : Act M → Option (State M)
  | .openStream =>
    some { s with
      nextStreamID := s.nextStreamID + 1
      client := Function.update s.client (s.nextStreamID + 1) (some .opened) }
  | .flush i m fromShm =>
    match s.client i with
    | some .opened => (Session.stepFlush s.up i m fromShm).map fun up => { s with up := up }
    | some _ => some s  -- `ErrStreamClosed`, and `sendBuf` is recycled
    | none => none
  | .close i =>
    match s.client i with
    | some .opened => (Session.stepClose s.up i).map fun up =>
        { s with up := up, client := Function.update s.client i (some .closed) }
    | some .halfClosed => some { s with client := Function.update s.client i (some .closed) }
    | _ => none
  | .closeInCallback i =>
    some { s with client := Function.update s.client i ((s.client i).map casHalf) }
  | .notice i =>
    if s.notices i = 0 then none
    else some { s with
      notices := Function.update s.notices i (s.notices i - 1)
      client := Function.update s.client i ((s.client i).map casHalf) }
  | .stream i => (Session.stepStream cap s.up i).map fun up => { s with up := up }
  | .fail i => (Session.stepFail s.up i).map fun up => { s with up := up }
  | .send => (Session.stepSend s.up).map fun up => { s with up := up }
  | .recv =>
    match s.filling with
    | some (i, k, m) => some (stepFill s i k m)
    | none => stepGet s
  | .accept i k => (s.object i k).map fun o => s.setObject i k { o with accepted := true }
  | .serverCloseInCallback i k => (s.object i k).bind fun o =>
    if o.accepted then some (s.setObject i k { o with state := casHalf o.state }) else none
  | .serverClose i k => (s.object i k).bind fun o =>
    if o.accepted ∧ o.state ≠ .closed then
      some (s.setObject i k { o with state := .closed, notify := decide (o.state = .opened) })
    else none
  | .onStreamClose i k => (s.object i k).bind fun o =>
    if o.state = .closed ∧ o.registered then some (s.onStreamClose i k o) else none

/-- A new session pair: a client counts from 1 (session.go:152). -/
def initial : State M where
  up := Session.initial false fun _ => false
  nextStreamID := 1
  client := fun _ => none
  objects := fun _ => []
  filling := none
  notices := fun _ => 0

/-- A session pair whose IO queue has capacity `cap`. -/
def machine (M : Type*) (cap : ℕ) : Sys (State M) (Act M) where
  init s := s = initial
  next := step cap

/-! ## The condition -/

/-- No message of stream `i` is under way. -/
structure Quiet (s : Session.State M) (i : ℕ) : Prop where
  recv : s.recv.msgFor i = []
  queue : queueFor i s.queue = []
  wire : framesFor i s.wire = []
  pc : (s.pc i).msg = []

instance [DecidableEq M] (s : Session.State M) (i : ℕ) : Decidable (Quiet s i) :=
  decidable_of_iff (s.recv.msgFor i = [] ∧ queueFor i s.queue = [] ∧ framesFor i s.wire = [] ∧
    (s.pc i).msg = []) ⟨fun ⟨h1, h2, h3, h4⟩ => ⟨h1, h2, h3, h4⟩, fun h => ⟨h.1, h.2, h.3, h.4⟩⟩

/-- The condition on a step: the server drops an id when no message of it is under way,
    and the client flushes nothing on an open stream whose id the server has dropped. -/
def Ok (s : State M) : Act M → Prop
  | .onStreamClose i _ => Quiet s.up i
  | .flush i _ _ => s.client i = some .opened → ∀ o ∈ s.objects i, o.registered = true
  | _ => True

instance [DecidableEq M] (s : State M) : ∀ a, Decidable (Ok s a)
  | .onStreamClose _ _ => inferInstanceAs (Decidable (Quiet _ _))
  | .flush _ _ _ => inferInstanceAs (Decidable (_ → _))
  | .openStream | .close _ | .closeInCallback _ | .notice _ | .stream _ | .fail _ | .send | .recv
  | .accept _ _ | .serverCloseInCallback _ _ | .serverClose _ _ => isTrue trivial

/-! ## What the client's steps leave alone -/

section Client

variable {u v : Session.State M} {i j : ℕ} {m : M}

/-- The receiver's side of a direction. -/
structure SameReceiver (u v : Session.State M) : Prop where
  recv : v.recv = u.recv
  isClient : v.isClient = u.isClient
  streams : v.streams = u.streams
  pendingData : v.pendingData = u.pendingData

theorem sameReceiver_stepFlush {fromShm : Bool} (h : Session.stepFlush u j m fromShm = some v) :
    SameReceiver u v := by
  unfold Session.stepFlush at h
  split at h
  · cases h
    exact ⟨rfl, rfl, rfl, rfl⟩
  · cases h

theorem sameReceiver_stepClose (h : Session.stepClose u j = some v) : SameReceiver u v := by
  unfold Session.stepClose at h
  split at h
  · cases h
    exact ⟨rfl, rfl, rfl, rfl⟩
  · cases h

theorem sameReceiver_sendTo {f : Frame M} {pc : StreamPc M}
    (h : (u.setPc j pc).sendTo f = some v) : SameReceiver u v := by
  rw [Session.State.sendTo_eq h]
  exact ⟨rfl, rfl, rfl, rfl⟩

theorem sameReceiver_stepStream {cap : ℕ} (h : Session.stepStream cap u j = some v) :
    SameReceiver u v := by
  unfold Session.stepStream at h
  split at h
  · cases h
  · split_ifs at h <;> cases h <;> exact ⟨rfl, rfl, rfl, rfl⟩
  · cases h
  · cases h; exact ⟨rfl, rfl, rfl, rfl⟩
  · split_ifs at h <;> cases h <;> exact ⟨rfl, rfl, rfl, rfl⟩
  · split_ifs at h <;> cases h <;> exact ⟨rfl, rfl, rfl, rfl⟩
  · split_ifs at h <;> cases h <;> exact ⟨rfl, rfl, rfl, rfl⟩
  · cases h; exact ⟨rfl, rfl, rfl, rfl⟩
  · cases h; exact ⟨rfl, rfl, rfl, rfl⟩
  · cases h; exact ⟨rfl, rfl, rfl, rfl⟩
  · exact sameReceiver_sendTo h
  · exact sameReceiver_sendTo h
  · exact sameReceiver_sendTo h
  · split_ifs at h; cases h; exact ⟨rfl, rfl, rfl, rfl⟩

theorem sameReceiver_stepFail (h : Session.stepFail u j = some v) : SameReceiver u v := by
  unfold Session.stepFail at h
  split at h
  · cases h; exact ⟨rfl, rfl, rfl, rfl⟩
  · cases h; exact ⟨rfl, rfl, rfl, rfl⟩
  · cases h; exact ⟨rfl, rfl, rfl, rfl⟩
  · cases h
    split_ifs <;> exact ⟨rfl, rfl, rfl, rfl⟩
  · cases h

theorem sameReceiver_stepSend (h : Session.stepSend u = some v) : SameReceiver u v := by
  obtain ⟨-, -, -, -, -, hr, hc, hs, hp, -⟩ := Session.stepSend_frame h
  exact ⟨hr, hc, hs, hp⟩

/-! ## What is under way -/

theorem Quiet.of_same (h : Quiet u i) (hr : v.recv = u.recv)
    (hq : queueFor i v.queue = queueFor i u.queue) (hw : framesFor i v.wire = framesFor i u.wire)
    (hp : (v.pc i).msg = []) : Quiet v i :=
  ⟨hr ▸ h.recv, hq ▸ h.queue, hw ▸ h.wire, hp⟩

theorem Quiet.msg_setPc {pc : StreamPc M} (h : Quiet u i) (hp : j = i → pc.msg = []) :
    ((u.setPc j pc).pc i).msg = [] := by
  rcases eq_or_ne j i with rfl | hne
  · rw [Session.State.pc_setPc, if_pos rfl]
    exact hp rfl
  · rw [Session.State.pc_setPc, if_neg hne.symm]
    exact h.pc

theorem quiet_sendTo {f : Frame M} {pc : StreamPc M} (h : Quiet u i) (hf : f.dataFor i = none)
    (hp : j = i → pc.msg = []) (hs : (u.setPc j pc).sendTo f = some v) : Quiet v i := by
  rw [Session.State.sendTo_eq hs]
  refine h.of_same rfl rfl ?_ (h.msg_setPc hp)
  rw [Session.State.wire_sendTo, Session.framesFor_append]
  have hnil : framesFor i [f] = [] := by simp [framesFor, hf]
  rw [hnil, List.append_nil]
  rfl

theorem quiet_stepStream {cap : ℕ} (h : Quiet u i) (hs : Session.stepStream cap u j = some v) :
    Quiet v i := by
  -- a goroutine with a message is another stream's
  have hne : ∀ {pc}, u.pc j = pc → pc.msg ≠ [] → j ≠ i := by
    rintro pc hpc hmsg rfl
    exact hmsg (hpc ▸ h.pc)
  unfold Session.stepStream at hs
  split at hs
  · cases hs
  · rename_i m r hpc
    have hji := hne hpc (by simp [StreamPc.msg])
    split_ifs at hs
    · cases hs
      refine h.of_same rfl ?_ rfl (h.msg_setPc fun he => absurd he hji)
      rw [Session.queueFor_append]
      simp [queueFor, Elem.dataFor_of_ne hji]
    · cases hs
      exact h.of_same rfl rfl rfl (h.msg_setPc fun he => absurd he hji)
  · cases hs
  · rename_i m r hpc
    have hji := hne hpc (by simp [StreamPc.msg])
    cases hs
    exact h.of_same rfl rfl rfl (h.msg_setPc fun he => absurd he hji)
  · split_ifs at hs
    · cases hs
      refine h.of_same rfl ?_ rfl (h.msg_setPc fun _ => rfl)
      rw [Session.queueFor_append]
      simp [queueFor]
    · cases hs
      exact h.of_same rfl rfl rfl (h.msg_setPc fun _ => rfl)
  · split_ifs at hs <;> cases hs <;> exact h.of_same rfl rfl rfl (h.msg_setPc fun _ => rfl)
  · split_ifs at hs <;> cases hs <;> exact h.of_same rfl rfl rfl (h.msg_setPc fun _ => rfl)
  · cases hs
    refine h.of_same rfl rfl ?_ (h.msg_setPc fun _ => rfl)
    simp [Session.State.wire, Session.State.setPc, Session.framesFor_append,
      Session.framesFor_cons]
  · cases hs
    exact h.of_same rfl rfl rfl (h.msg_setPc fun _ => rfl)
  · cases hs
    exact h.of_same rfl rfl rfl (h.msg_setPc fun _ => rfl)
  · exact quiet_sendTo h rfl (fun _ => rfl) hs
  · rename_i m hpc
    exact quiet_sendTo h (Frame.dataFor_of_ne (hne hpc (by simp [StreamPc.msg]))) (fun _ => rfl) hs
  · exact quiet_sendTo h rfl (fun _ => rfl) hs
  · split_ifs at hs
    cases hs
    exact h.of_same rfl rfl rfl (h.msg_setPc fun _ => rfl)

theorem quiet_stepFlush {fromShm : Bool} (h : Quiet u i) (hne : j ≠ i)
    (hs : Session.stepFlush u j m fromShm = some v) : Quiet v i := by
  unfold Session.stepFlush at hs
  split at hs
  · cases hs
    exact h.of_same rfl rfl rfl (h.msg_setPc fun he => absurd he hne)
  · cases hs

theorem quiet_stepClose (h : Quiet u i) (hs : Session.stepClose u j = some v) : Quiet v i := by
  unfold Session.stepClose at hs
  split at hs
  · cases hs
    exact h.of_same rfl rfl rfl (h.msg_setPc fun _ => rfl)
  · cases hs

theorem quiet_stepFail (h : Quiet u i) (hs : Session.stepFail u j = some v) : Quiet v i := by
  have hidle : ((u.setPc j .idle).pc i).msg = [] := h.msg_setPc fun _ => rfl
  unfold Session.stepFail at hs
  split at hs
  · cases hs; exact h.of_same rfl rfl rfl hidle
  · cases hs; exact h.of_same rfl rfl rfl hidle
  · cases hs; exact h.of_same rfl rfl rfl hidle
  · cases hs
    split_ifs <;> exact h.of_same rfl rfl rfl hidle
  · cases hs

theorem quiet_stepSend (h : Quiet u i) (hs : Session.stepSend u = some v) : Quiet v i := by
  obtain ⟨hpc, -, -, -, hq, hr, -⟩ := Session.stepSend_frame hs
  exact h.of_same hr (hq ▸ rfl) (Session.stepSend_wire hs ▸ rfl) (hpc ▸ h.pc)

end Client

/-! ## What the event loop does -/

section EventLoop

variable {u v : Session.State M} {i j : ℕ} {m : M}

/-- Besides its position and the channels, the event loop's step changes the table and
    the log of messages, and those only for a data message. -/
structure Received (u v : Session.State M) : Prop where
  isClient : v.isClient = u.isClient
  data : ∀ i m, nextElem u = some (.data i m) → v.streams = (u.deliver i m).streams ∧
    v.pendingData = (u.deliver i m).pendingData
  other : (∀ i m, nextElem u ≠ some (.data i m)) →
    v.streams = u.streams ∧ v.pendingData = u.pendingData
  quiet : ∀ i, Quiet u i → Quiet v i

theorem Received.of_other (hn : ∀ i m, nextElem u ≠ some (.data i m))
    (hc : v.isClient = u.isClient) (hst : v.streams = u.streams)
    (hp : v.pendingData = u.pendingData) (hq : ∀ i, Quiet u i → Quiet v i) : Received u v :=
  ⟨hc, fun i m hd => absurd hd (hn i m), fun _ => ⟨hst, hp⟩, hq⟩

theorem Received.of_data (hn : nextElem u = some (.data j m))
    (hc : v.isClient = u.isClient) (hst : v.streams = (u.deliver j m).streams)
    (hp : v.pendingData = (u.deliver j m).pendingData) (hq : ∀ i, Quiet u i → Quiet v i) :
    Received u v := by
  refine ⟨hc, fun i m' hd => ?_, fun ho => absurd hn (ho j m), hq⟩
  rw [hn] at hd
  cases hd
  exact ⟨hst, hp⟩

theorem isClient_deliver : (u.deliver j m).isClient = u.isClient := by
  unfold Session.State.deliver
  split_ifs <;> rfl

/-- One message less, or one in another place. -/
theorem Quiet.of_recv (h : Quiet u i) (hpc : v.pc = u.pc)
    (hr : v.recv.msgFor i = [])
    (hq : queueFor i v.queue <:+ queueFor i u.queue)
    (hw : framesFor i v.wire <:+ framesFor i u.wire) : Quiet v i := by
  refine ⟨hr, ?_, ?_, hpc ▸ h.pc⟩
  · exact List.suffix_nil.mp (h.queue ▸ hq)
  · exact List.suffix_nil.mp (h.wire ▸ hw)

theorem received_stepRecv (hs : Session.stepRecv u = some v) : Received u v := by
  unfold Session.stepRecv at hs
  cases hr : u.recv with
  | idle =>
    simp only [hr] at hs
    -- the frame that is taken from the socket was at the head of the wire
    have hwire : ∀ i f rest, u.socket = f :: rest →
        framesFor i (rest ++ (u.loop.frame ++ u.sendCh)) <:+ framesFor i u.wire := by
      intro i f rest hsock
      unfold Session.State.wire
      rw [hsock, List.cons_append]
      exact (List.suffix_cons _ _).filterMap _
    cases hsock : u.socket with
    | nil => simp [hsock] at hs
    | cons f rest =>
      cases f with
      | polling =>
        simp only [hsock] at hs
        cases hs
        refine .of_other (by simp [nextElem, hr, hsock]) rfl rfl rfl fun i h => ?_
        exact h.of_recv rfl rfl (List.suffix_refl _) (hwire i _ _ hsock)
      | fallbackData j m =>
        simp only [hsock] at hs
        cases hs
        refine .of_data (j := j) (m := m) (by simp [nextElem, hr, hsock]) isClient_deliver rfl rfl
          fun i h => ?_
        refine h.of_recv (by simp) ?_ (by simp) ?_
        · simp [hr, Session.RecvPc.msgFor]
        · simpa [Session.State.wire] using hwire i _ _ hsock
      | streamClose j =>
        simp only [hsock] at hs
        cases hs
        refine .of_other (by simp [nextElem, hr, hsock]) rfl rfl rfl fun i h => ?_
        refine h.of_recv rfl ?_ (List.suffix_refl _) (hwire i _ _ hsock)
        simp [Session.State.closeStream, hr, Session.RecvPc.msgFor]
  | pop =>
    simp only [hr] at hs
    have hother : ∀ i m, nextElem u ≠ some (.data i m) := by simp [nextElem, hr]
    cases hq : u.queue with
    | nil =>
      simp only [hq] at hs
      cases hs
      exact .of_other hother rfl rfl rfl fun i h =>
        h.of_recv rfl rfl List.nil_suffix (List.suffix_refl _)
    | cons e rest =>
      simp only [hq] at hs
      cases hs
      refine .of_other hother rfl rfl rfl fun i h => ?_
      have hnil := h.queue
      rw [hq, Session.queueFor_cons, List.append_eq_nil_iff] at hnil
      refine h.of_recv rfl hnil.1 ?_ (List.suffix_refl _)
      rw [hq]
      exact (List.suffix_cons _ _).filterMap _
  | handle e =>
    simp only [hr] at hs
    cases e with
    | data j m =>
      cases hs
      refine .of_data (j := j) (m := m) (by simp [nextElem, hr]) isClient_deliver rfl rfl
        fun i h => ?_
      exact h.of_recv (by simp) rfl (by simp) (by simp [Session.State.wire])
    | closed j =>
      cases hs
      exact .of_other (by simp [nextElem, hr]) rfl rfl rfl fun i h =>
        h.of_recv rfl rfl (List.suffix_refl _) (List.suffix_refl _)
  | storeZero =>
    simp only [hr] at hs
    cases hs
    exact .of_other (by simp [nextElem, hr]) rfl rfl rfl fun i h =>
      h.of_recv rfl rfl (List.suffix_refl _) (List.suffix_refl _)
  | loadSize =>
    simp only [hr] at hs
    have hother : ∀ i m, nextElem u ≠ some (.data i m) := by simp [nextElem, hr]
    cases hq : u.queue with
    | nil =>
      simp only [hq] at hs
      cases hs
      exact .of_other hother rfl rfl rfl fun i h =>
        h.of_recv rfl rfl List.nil_suffix (List.suffix_refl _)
    | cons e rest =>
      simp only [hq] at hs
      cases hs
      exact .of_other hother rfl rfl rfl fun i h =>
        h.of_recv rfl rfl (by simp [hq]) (List.suffix_refl _)
  | storeOne =>
    simp only [hr] at hs
    cases hs
    exact .of_other (by simp [nextElem, hr]) rfl rfl rfl fun i h =>
      h.of_recv rfl rfl (List.suffix_refl _) (List.suffix_refl _)

/-- A message that is about to be handled is under way. -/
theorem not_quiet_of_nextElem (hn : nextElem u = some (.data i m)) : ¬ Quiet u i := by
  intro h
  unfold nextElem at hn
  split at hn
  · rename_i hr hsock
    cases hn
    have hw := h.wire
    simp [Session.State.wire, hsock, Session.framesFor_cons] at hw
  · cases hn
  · rename_i e hr
    cases hn
    have := h.recv
    simp [hr, Session.RecvPc.msgFor] at this
  · cases hn

end EventLoop

/-! ## The invariant -/

section Invariant

variable {s t : State M} {i j k : ℕ} {m : M} {o o' : ServerStream M}

/-- The message of stream `i` the event loop holds, and the object it is for. -/
def State.fillingFor (s : State M) (i : ℕ) : Option (ℕ × M) :=
  s.filling.bind fun x => if x.1 = i then some x.2 else none

/-- The messages that were passed to an object. -/
def ServerStream.log (o : ServerStream M) : List M := o.messages.map Prod.fst

/-- What is known of an id: no message of it was handled, or there is one object. -/
inductive Known (s : State M) (i : ℕ) : Prop
  | unseen (objects : s.objects i = []) (streams : s.up.streams i = false)
      (pendingData : s.up.pendingData i = []) (filling : s.fillingFor i = none)
  | one (o : ServerStream M) (objects : s.objects i = [o])
      (streams : s.up.streams i = o.registered)
      (gone : o.registered = false → Quiet s.up i)
      (log : s.up.pendingData i = o.log ++ (s.fillingFor i).toList.map Prod.snd)
      (filling : ∀ x ∈ s.fillingFor i, x.1 = 0)

theorem Known.of_same (h : Known s i) (ho : t.objects i = s.objects i)
    (hst : t.up.streams i = s.up.streams i) (hp : t.up.pendingData i = s.up.pendingData i)
    (hf : t.fillingFor i = s.fillingFor i) (hq : Quiet s.up i → Quiet t.up i) : Known t i := by
  cases h with
  | unseen h1 h2 h3 h4 =>
    exact .unseen (ho.trans h1) (hst.trans h2) (hp.trans h3) (hf.trans h4)
  | one o h1 h2 h3 h4 h5 =>
    exact .one o (ho.trans h1) (hst.trans h2) (fun hr => hq (h3 hr)) (by rw [hp, hf, h4])
      (by rw [hf]; exact h5)

structure Inv (s : State M) : Prop where
  server : s.up.isClient = false
  known : ∀ i, Known s i

theorem inv_initial : Inv (initial : State M) :=
  ⟨rfl, fun _ => .unseen rfl rfl rfl rfl⟩

/-- A step of the client's side. -/
theorem Inv.of_sender {up : Session.State M} {client : ℕ → Option StreamState} {notices : ℕ → ℕ}
    {n : ℕ} (h : Inv s) (hu : SameReceiver s.up up)
    (hq : ∀ i, (∃ o ∈ s.objects i, o.registered = false) → Quiet s.up i → Quiet up i) :
    Inv { s with up := up, client := client, notices := notices, nextStreamID := n } := by
  refine ⟨hu.isClient.trans h.server, fun i => ?_⟩
  cases h.known i with
  | unseen h1 h2 h3 h4 =>
    exact .unseen h1 ((congrFun hu.streams i).trans h2) ((congrFun hu.pendingData i).trans h3) h4
  | one o h1 h2 h3 h4 h5 =>
    refine .one o h1 ((congrFun hu.streams i).trans h2) (fun hr => ?_)
      ((congrFun hu.pendingData i).trans h4) h5
    exact hq i ⟨o, by rw [h1]; exact List.mem_singleton_self o, hr⟩ (h3 hr)

theorem SameReceiver.refl (u : Session.State M) : SameReceiver u u := ⟨rfl, rfl, rfl, rfl⟩

/-! ## The server's calls -/

/-- There is one object to call. -/
theorem Known.object_eq (h : Known s i) (ho : s.object i k = some o) :
    k = 0 ∧ s.objects i = [o] := by
  cases h with
  | unseen h1 _ _ _ => simp [State.object, h1] at ho
  | one o' h1 _ _ _ _ =>
    unfold State.object at ho
    rw [h1] at ho
    cases k with
    | zero =>
      cases ho
      exact ⟨rfl, h1⟩
    | succ k => cases ho

theorem objects_setObject (s : State M) (i k : ℕ) (o : ServerStream M) :
    (s.setObject i k o).objects i = (s.objects i).set k o := Function.update_self ..

theorem objects_setObject_of_ne (h : j ≠ i) : (s.setObject i k o).objects j = s.objects j :=
  Function.update_of_ne h ..

theorem Inv.setObject (h : Inv s) (ho : s.object i k = some o)
    (hreg : o'.registered = o.registered) (hm : o'.messages = o.messages) :
    Inv (s.setObject i k o') := by
  refine ⟨h.server, fun j => ?_⟩
  rcases eq_or_ne j i with rfl | hne
  · obtain ⟨rfl, hobj⟩ := (h.known j).object_eq ho
    cases h.known j with
    | unseen h1 _ _ _ => simp [h1] at hobj
    | one o₁ h1 h2 h3 h4 h5 =>
      rw [hobj] at h1
      cases h1
      refine .one o' (by rw [objects_setObject, hobj]; rfl) (h2.trans hreg.symm)
        (fun hr => h3 (hreg ▸ hr)) ?_ h5
      rw [ServerStream.log, hm]
      exact h4
  · exact (h.known j).of_same (objects_setObject_of_ne hne) rfl rfl rfl id

/-- The id is dropped while no message of it is under way. -/
theorem inv_onStreamClose (h : Inv s) (hok : Quiet s.up i) (ho : s.object i k = some o) :
    Inv (s.onStreamClose i k o) := by
  refine ⟨h.server, fun j => ?_⟩
  rcases eq_or_ne j i with rfl | hne
  · obtain ⟨rfl, hobj⟩ := (h.known j).object_eq ho
    cases h.known j with
    | unseen h1 _ _ _ => simp [h1] at hobj
    | one o₁ h1 h2 h3 h4 h5 =>
      rw [hobj] at h1
      cases h1
      refine .one { o with registered := false } ?_ (Function.update_self ..)
        (fun _ => ⟨hok.1, hok.2, hok.3, hok.4⟩) h4 h5
      exact (objects_setObject ..).trans (by rw [hobj]; rfl)
  · exact (h.known j).of_same (objects_setObject_of_ne hne) (Function.update_of_ne hne ..) rfl
      rfl fun hq => ⟨hq.1, hq.2, hq.3, hq.4⟩

/-! ## The event loop -/

theorem inv_stepFill (h : Inv s) (hf : s.filling = some (i, k, m)) : Inv (stepFill s i k m) := by
  refine ⟨h.server, fun j => ?_⟩
  rcases eq_or_ne j i with rfl | hne
  · have hfor : s.fillingFor j = some (k, m) := by simp [State.fillingFor, hf]
    cases h.known j with
    | unseen _ _ _ h4 => simp [hfor] at h4
    | one o h1 h2 h3 h4 h5 =>
      cases (h5 (k, m) hfor : k = 0)
      refine .one { o with messages := o.messages ++ [(m, decide (o.state = .closed))] }
        ((Function.update_self ..).trans (by rw [h1]; rfl)) h2 h3 ?_ fun _ hn => nomatch hn
      show s.up.pendingData j = _ ++ []
      rw [h4, hfor]
      simp [ServerStream.log]
  · refine (h.known j).of_same (Function.update_of_ne hne ..) rfl rfl ?_ id
    simp [State.fillingFor, hf, hne.symm, stepFill]

theorem streams_deliver (hs : s.up.isClient = false) :
    (s.up.deliver i m).streams = Function.update s.up.streams i true ∧
    (s.up.deliver i m).pendingData =
      Function.update s.up.pendingData i (s.up.pendingData i ++ [m]) := by
  unfold Session.State.deliver
  simp [hs]

/-- `getStream` on a data message: the id is in the table, or it was never seen, since an
    id that was dropped has no message under way. -/
theorem inv_getData {up : Session.State M} (h : Inv s) (hu : Received s.up up)
    (hf : s.filling = none) (hn : nextElem s.up = some (.data i m)) :
    Inv { s with
      up := up
      objects := Function.update s.objects i (s.getStream i).1
      filling := some (i, (s.getStream i).2, m) } := by
  obtain ⟨hst, hp⟩ := hu.data i m hn
  obtain ⟨hst', hp'⟩ := streams_deliver (i := i) (m := m) h.server
  rw [hst'] at hst
  rw [hp'] at hp
  refine ⟨hu.isClient.trans h.server, fun j => ?_⟩
  rcases eq_or_ne j i with rfl | hne
  · have hst₁ : up.streams j = true := by rw [hst, Function.update_self]
    have hp₁ : up.pendingData j = s.up.pendingData j ++ [m] := by rw [hp, Function.update_self]
    cases h.known j with
    | unseen h1 h2 h3 h4 =>
      refine .one newStream ((Function.update_self ..).trans ?_) hst₁ (fun hr => nomatch hr) ?_ ?_
      · simp [State.getStream, h1, h2]
      · show up.pendingData j = _
        rw [hp₁, h3]
        simp [State.fillingFor, ServerStream.log, newStream]
      · simp [State.fillingFor, State.getStream, h1, h2]
    | one o h1 h2 h3 h4 h5 =>
      have hreg : o.registered = true := by
        by_contra hne
        exact not_quiet_of_nextElem hn (h3 (by simpa using hne))
      have hknown : s.up.streams j = true := h2.trans hreg
      refine .one o ((Function.update_self ..).trans ?_) (hst₁.trans hreg.symm)
        (fun hr => absurd hr (by simp [hreg])) ?_ ?_
      · simp [State.getStream, h1, hknown]
      · show up.pendingData j = _
        rw [hp₁, h4]
        simp [State.fillingFor, hf]
      · simp [State.fillingFor, State.getStream, h1, hknown]
  · refine (h.known j).of_same (Function.update_of_ne hne ..) ?_ ?_ ?_ (hu.quiet j)
    · show up.streams j = _
      rw [hst, Function.update_of_ne hne]
    · show up.pendingData j = _
      rw [hp, Function.update_of_ne hne]
    · simp [State.fillingFor, hf, hne.symm]

theorem inv_getOther {up : Session.State M} (h : Inv s) (hu : Received s.up up)
    (hn : ∀ i m, nextElem s.up ≠ some (.data i m)) : Inv { s with up := up } := by
  obtain ⟨hst, hp⟩ := hu.other hn
  refine ⟨hu.isClient.trans h.server, fun j => ?_⟩
  exact (h.known j).of_same rfl (congrFun hst j) (congrFun hp j) rfl (hu.quiet j)

theorem inv_halfClose (h : Inv s) (i : ℕ) :
    Inv { s with objects := Function.update s.objects i (s.halfClose i) } := by
  unfold State.halfClose
  split_ifs with hst
  · cases h.known i with
    | unseen _ h2 _ _ => simp [h2] at hst
    | one o h1 _ _ _ _ =>
      have ho : s.object i 0 = some o := by simp [State.object, h1]
      have hset : Inv (s.setObject i 0 { o with state := casHalf o.state }) :=
        h.setObject ho rfl rfl
      simpa [State.setObject, h1] using hset
  · rw [Function.update_eq_self]
    exact h

theorem inv_stepGet (h : Inv s) (hf : s.filling = none) (hs : stepGet s = some t) : Inv t := by
  obtain ⟨up, hup, rfl⟩ := Option.map_eq_some_iff.mp hs
  have hu := received_stepRecv hup
  cases hn : nextElem s.up with
  | none => exact inv_getOther h hu (by simp [hn])
  | some e =>
    cases e with
    | data i m => exact inv_getData h hu hf hn
    | closed i =>
      have h' := inv_halfClose h i
      exact inv_getOther h' hu (by simp [hn])

/-! ## Runs -/

/-- **Step.** -/
theorem inv_step {cap : ℕ} {a : Act M} (h : Inv s) (hok : Ok s a) (hs : step cap s a = some t) :
    Inv t := by
  cases a with
  | openStream =>
    cases hs
    exact h.of_sender (.refl _) fun _ _ hq => hq
  | flush i m fromShm =>
    rw [step] at hs
    split at hs
    · rename_i hopen
      obtain ⟨up, hup, rfl⟩ := Option.map_eq_some_iff.mp hs
      refine h.of_sender (sameReceiver_stepFlush hup) fun j ⟨o, ho, hr⟩ hq => ?_
      have hne : i ≠ j := by
        rintro rfl
        exact absurd (hok hopen o ho) (by simp [hr])
      exact quiet_stepFlush hq hne hup
    · cases hs
      exact h
    · cases hs
  | close i =>
    rw [step] at hs
    split at hs
    · obtain ⟨up, hup, rfl⟩ := Option.map_eq_some_iff.mp hs
      exact h.of_sender (sameReceiver_stepClose hup) fun _ _ hq => quiet_stepClose hq hup
    · cases hs
      exact h.of_sender (.refl _) fun _ _ hq => hq
    · cases hs
  | closeInCallback i =>
    cases hs
    exact h.of_sender (.refl _) fun _ _ hq => hq
  | notice i =>
    rw [step] at hs
    split_ifs at hs
    cases hs
    exact h.of_sender (.refl _) fun _ _ hq => hq
  | stream i =>
    obtain ⟨up, hup, rfl⟩ := Option.map_eq_some_iff.mp hs
    exact h.of_sender (sameReceiver_stepStream hup) fun _ _ hq => quiet_stepStream hq hup
  | fail i =>
    obtain ⟨up, hup, rfl⟩ := Option.map_eq_some_iff.mp hs
    exact h.of_sender (sameReceiver_stepFail hup) fun _ _ hq => quiet_stepFail hq hup
  | send =>
    obtain ⟨up, hup, rfl⟩ := Option.map_eq_some_iff.mp hs
    exact h.of_sender (sameReceiver_stepSend hup) fun _ _ hq => quiet_stepSend hq hup
  | recv =>
    rw [step] at hs
    cases hf : s.filling with
    | none =>
      simp only [hf] at hs
      exact inv_stepGet h hf hs
    | some x =>
      obtain ⟨i, k, m⟩ := x
      simp only [hf] at hs
      cases hs
      exact inv_stepFill h hf
  | accept i k =>
    obtain ⟨o, ho, rfl⟩ := Option.map_eq_some_iff.mp hs
    exact h.setObject ho rfl rfl
  | serverCloseInCallback i k | serverClose i k =>
    obtain ⟨o, ho, hs⟩ := Option.bind_eq_some_iff.mp hs
    split_ifs at hs
    cases hs
    exact h.setObject ho rfl rfl
  | onStreamClose i k =>
    obtain ⟨o, ho, hs⟩ := Option.bind_eq_some_iff.mp hs
    split_ifs at hs
    cases hs
    exact inv_onStreamClose h hok ho

/-- **Main theorem.** In every run whose steps meet `Ok`, the server has at most one
    stream object for an id, and every data message of that id it has handled was passed
    to this object, in order (the last one may still be in the event loop's hands). -/
theorem one_server_stream (cap : ℕ) (s : State M) (hr : (machine M cap).ReachableWhen Ok s)
    (i : ℕ) :
    (s.objects i).length ≤ 1 ∧
    s.up.pendingData i =
      (s.objects i).flatMap ServerStream.log ++ (s.fillingFor i).toList.map Prod.snd := by
  have h : Inv s := by
    refine hr.invariant Inv (fun s hs => ?_) fun s a t h hok ht => inv_step h hok ht
    rw [show s = initial from hs]
    exact inv_initial
  cases h.known i with
  | unseen h1 _ h3 h4 => simp [h1, h3, h4]
  | one o h1 _ _ h4 _ => simp [h1, h4]

/-- A message by the queue, one by the socket, the close of the client, and then the
    close of the server. -/
def closedByBothRun : List (Act ℕ) :=
  [Act.openStream, .flush 2 10 true] ++ List.replicate 6 (Act.stream 2) ++
    List.replicate 4 Act.recv ++ [Act.accept 2 0, .flush 2 11 false, .stream 2] ++
    List.replicate 5 Act.send ++ List.replicate 5 Act.recv ++
    [Act.stream 2, .close 2, .serverClose 2 0, .onStreamClose 2 0]

theorem one_server_stream_closed_by_both : ∃ s, (machine ℕ 4).ReachableWhen Ok s ∧
    s.up.streams 2 = false ∧ s.up.pendingData 2 = [10, 11] ∧ (s.objects 2).length ≤ 1 := by
  obtain ⟨s, hs, hp⟩ := (machine ℕ 4).exists_reachableWhen_of_run Ok initial closedByBothRun
    (fun s => s.up.streams 2 = false ∧ s.up.pendingData 2 = [10, 11]) rfl (by decide) (by decide)
  exact ⟨s, hs, hp.1, hp.2, (one_server_stream 4 s hs 2).1⟩

/-- The client flushes twice; the server closes its end after the first message. -/
def closedInBetweenRun : List (Act ℕ) :=
  [Act.openStream, .flush 2 10 true] ++ List.replicate 6 (Act.stream 2) ++
    [Act.flush 2 11 true, .stream 2] ++ List.replicate 4 Act.recv ++
    [Act.accept 2 0, .serverClose 2 0, .onStreamClose 2 0, .recv, .recv, .recv]

theorem second_server_stream : ∃ s, (machine ℕ 4).Reachable s ∧ (s.objects 2).length = 2 ∧
    ((s.objects 2).map ServerStream.log) = [[10], [11]] :=
  (machine ℕ 4).exists_reachable_of_run initial closedInBetweenRun _ rfl (by decide)

end Invariant

end Shmipc.Accept
