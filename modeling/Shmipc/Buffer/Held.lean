import Shmipc.Buffer.Parts

/-!
# What the owners of slots hold

The bytes in a send buffer, in a receive buffer and in a message on its way, and what each
operation of a stream does to them, whatever else is in the shared memory.

Results:
* `held_apart`: an operation leaves alone what the other owners hold.
* `write_held`, `flush_held`, `moveTo_held`, `call_held`, `releasePreviousRead_held`,
  `releaseReadAndReuse_held`: the bytes of the owners that it works on.
-/

namespace Shmipc.Buffer

open Common LinkedBuffer

/-- The bytes of an entry of `pendingData`. -/
def LinkedBuffer.Unread.bytes (m : Mem) : Unread → List UInt8
  | .chain root => msgBytes m (chainOf m root)
  | .fallback payload => payload

def Part.bytes (m : Mem) : Part → List UInt8
  | .send l | .recv l => l.unread m
  | .chain root => msgBytes m (chainOf m root)

/-- A receive buffer whose bytes can be read: only the front slice may be exhausted. -/
structure LinkedBuffer.Sound (cs : List SizeClass) (l : LinkedBuffer) : Prop where
  bounds : ∀ s ∈ l.slices, InBounds s
  tail : ∀ s ∈ l.slices.tail, 0 < s.size
  shm : l.isFromShm = true → ∀ s ∈ l.slices, ShmSlice cs s

/-- A send buffer into which nothing is written has at most one slice. -/
def LinkedBuffer.Thin (l : LinkedBuffer) : Prop := l.len = 0 → l.slices.length ≤ 1

/-- A fallback payload is not empty; a chain never is. -/
def LinkedBuffer.Unread.Sound : Unread → Prop
  | .chain _ => True
  | .fallback payload => payload ≠ []

/-- The call asks for something. -/
def Call.Positive : Call → Prop
  | readBytes size | readString size | discard size | peek size => 1 ≤ size
  | readByte => True
  | read size => 1 ≤ size

instance : (c : Call) → Decidable c.Positive
  | .readBytes size | .readString size | .discard size | .peek size => Int.decLe 1 size
  | .readByte => .isTrue trivial
  | .read size => Nat.decLe 1 size

def Part.Sound (cs : List SizeClass) : Part → Prop
  | .send l => l.Thin
  | .recv l => l.Sound cs
  | .chain _ => True

section Held

variable {cs : List SizeClass} {bm : Manager} {m m' : Mem} {l l' : LinkedBuffer} {len root : ℕ}
  {hL : Layout cs len} {others free T : List ℕ} {p : Part} {olds news rest : List Part}

/-- What a part holds depends on its own slots only. -/
theorem Part.bytes_keep (h : p.Ok cs m) (hs : p.Sound cs) (hk : Keeps cs T m m')
    (hT : ∀ a ∈ p.slots m, a ∉ T) : p.bytes m' = p.bytes m := by
  cases p with
  | send l =>
    have hsend : SendPart cs m l := h
    exact flatMap_bytes_congr hsend.slices hsend.bounds hk.data fun a ha =>
      hT a (List.mem_append_left _ ha)
  | recv l =>
    have hrecv : RecvPart cs l := h
    exact flatMap_bytes_congr hrecv.slices (LinkedBuffer.Sound.bounds hs) hk.data fun a ha =>
      hT a (List.mem_append_left _ ha)
  | chain root =>
    obtain ⟨as, hc⟩ := h
    have hT' : ∀ a ∈ root :: as, a ∉ T := by
      rw [← hc.chainOf_eq]
      exact hT
    show msgBytes m' (chainOf m' root) = msgBytes m (chainOf m root)
    rw [(hc.keep hk hT').chainOf_eq, hc.chainOf_eq]
    exact msgBytes_congr hc.chain.sizes hk hT'

/-- **Frame.** The other owners hold what they held. -/
theorem held_apart (h : (ownership hL).Shared m (olds ++ rest))
    (hs : (ownership hL).Steps m olds m' news) (hp : p ∈ rest) (hsound : p.Sound cs) :
    p.bytes m' = p.bytes m := by
  obtain ⟨T, hk, hT⟩ := h.apart hs
  exact Part.bytes_keep (h.1 p (List.mem_append_right _ hp)) hsound hk (hT p hp)

/-! ## Send buffers -/

theorem shared_sendOk (h : (ownership hL).Shared m (.send l :: rest)) :
    SendPart cs m l ∧ ∃ others free, SendOk cs m l others free := by
  obtain ⟨hok, free, ⟨hlen, hheap⟩, hall⟩ := h
  have hl : SendPart cs m l := hok (.send l) List.mem_cons_self
  rw [Ownership.ownsAll, List.flatMap_cons, List.append_assoc] at hall
  exact ⟨hl, _, free, hl.sendOk (hlen ▸ hL) hheap hall⟩

theorem SendPart.unread_eq_nil (h : SendPart cs m l) : l.unread m = [] ↔ l.len = 0 := by
  rw [h.len, ← List.length_eq_zero_iff]
  exact Int.natCast_eq_zero.symm

theorem thin_clean (l : LinkedBuffer) : l.clean.Thin := fun _ => Nat.zero_le _

/-- `start` for no bytes gives an empty buffer one slice at most. -/
theorem start_zero_slices (hM : ManagerOk cs bm) (h : SendOk cs m l others free)
    (hone : l.slices.length ≤ 1) (hstart : l.start bm m 0 = .ok (m', l')) :
    (∃ free', SendShape cs m' l' others free') ∧ l'.slices.length ≤ 1 := by
  obtain ⟨m1, l1, free1, hstart', hW, hcur⟩ := start_spec hM h (show 0 < 2 ^ 32 by norm_num)
  rw [hstart] at hstart'
  cases hstart'
  refine ⟨⟨free1, hW.shape⟩, ?_⟩
  rcases hcur with ⟨hs, -⟩ | ⟨pre, s, ahead, hst, -⟩
  · rw [hs]
    exact Nat.zero_le _
  -- nothing is ahead of the cursor, which is at the front
  have hroom : (0 : ℤ) ≤ s.room := by
    have := (hW.shape.bounds s (by rw [hst.slices]; simp)).fits
    unfold BufferSlice.room
    omega
  have hlast := hst.last hroom
  unfold LinkedBuffer.start at hstart
  split_ifs at hstart with hw
  · obtain ⟨⟨m2, l2⟩, -, hstart⟩ := Go.bind_ok.mp hstart
    cases hstart
    have hfront := hst.cursor
    have hne : l2.slices ≠ [] := by
      intro hnil
      rw [show l2.slices = pre ++ [s] from hlast] at hnil
      simp at hnil
    rw [LinkedBuffer.writeFront, if_neg hne] at hfront
    have hzero := Cursor.at.inj hfront
    rw [hlast, List.length_append, ← hzero]
    exact le_rfl
  · cases hstart
    exact hone

theorem reserve_zero_slices (hM : ManagerOk cs bm) (h : SendOk cs m l others free)
    (hone : l.slices.length ≤ 1) {r : Except Err Unit} (hrun : l.reserve bm m 0 = .ok (m', l', r)) :
    l'.slices.length ≤ 1 := by
  obtain ⟨⟨m1, l1⟩, hstart, hrun⟩ := Go.bind_ok.mp hrun
  obtain ⟨⟨free1, hshape⟩, hone1⟩ := start_zero_slices hM h hone hstart
  obtain ⟨⟨i, s⟩, hcur, hrun⟩ := Go.bind_ok.mp hrun
  have hmem : s ∈ l1.slices := by
    unfold LinkedBuffer.current at hcur
    split at hcur
    · cases hcur
    · cases hcur
    · split at hcur
      · cases hcur
      · rename_i hget
        cases hcur
        exact List.mem_of_getElem? hget
  have hb := hshape.bounds s hmem
  have hfit : (0 : ℤ) ≤ s.remain := by
    have := hb.fits
    have := hshape.caps s hmem
    unfold BufferSlice.remain
    omega
  obtain ⟨r', hres, hrun⟩ := Go.bind_ok.mp hrun
  rw [reserve_eq (hshape.slices s hmem) hb hshape.layout le_rfl, if_pos hfit] at hres
  cases hres
  cases hrun
  simpa [LinkedBuffer.setSlice] using hone1

theorem fill_slices {bs : List UInt8} (hrun : l.fill m bs = .ok (m', l')) :
    l'.slices.length = l.slices.length := by
  obtain ⟨⟨i, s⟩, -, hrun⟩ := Go.bind_ok.mp hrun
  cases hrun
  simp [LinkedBuffer.setSlice]

theorem writeNothing_slices (hM : ManagerOk cs bm) (h : SendOk cs m l others free)
    (hone : l.slices.length ≤ 1) {c : WriteCall} (hc : c.Ok) (hnil : c.bytes = [])
    (hrun : c.run bm m l = .ok (m', l')) : l'.slices.length ≤ 1 := by
  cases c with
  | writeByte b => cases hnil
  | writeBytes data | writeString data =>
    obtain rfl : data = [] := hnil
    cases hrun
    exact hone
  | reserve size bs =>
    obtain rfl : bs = [] := hnil
    obtain ⟨rfl, -⟩ := hc
    obtain ⟨⟨m1, l1, r⟩, hres, hrun⟩ := Go.bind_ok.mp hrun
    have hone1 := reserve_zero_slices hM h hone hres
    cases r with
    | ok _ =>
      rw [fill_slices hrun]
      exact hone1
    | error _ =>
      cases hrun
      exact hone1

/-- **Writing.** -/
theorem write_held (hM : ManagerOk cs bm) {c : WriteCall} (hc : c.Ok)
    (h : (ownership hL).Shared m (.send l :: rest)) (hthin : l.Thin)
    (hrun : c.run bm m l = .ok (m', l')) : l'.unread m' = l.unread m ++ c.bytes ∧ l'.Thin := by
  obtain ⟨hl, others, free, hsend⟩ := shared_sendOk h
  rcases writeCall_spec hM hsend hc with ⟨m1, l1, free', hrun', hW⟩ | ⟨hpanic, -⟩
  · rw [hrun] at hrun'
    cases hrun'
    refine ⟨hW.unread, fun h0 => ?_⟩
    have hlen := hW.ok.len
    rw [hW.unread, h0, List.length_append] at hlen
    have hold : l.len = 0 := by
      rw [hl.len]
      omega
    exact writeNothing_slices hM hsend (hthin hold) hc (List.eq_nil_of_length_eq_zero (by omega)) hrun
  · rw [hrun] at hpanic
    cases hpanic

/-- **Flushing.** Nothing is done, or all bytes are handed over or lost. -/
theorem flush_held (hM : ManagerOk cs bm) {env : FlushEnv} {fb fb' : Bool} {sent : Sent}
    (h : (ownership hL).Shared m (.send l :: rest)) (hthin : l.Thin)
    (hrun : flush bm env fb m l = .ok (m', l', fb', sent)) :
    l'.Thin ∧ l'.unread m' = [] ∧ match sent with
      | .nothing => l.unread m = []
      | .failed => l.unread m ≠ []
      | .frame _ payload => payload = l.unread m ∧ l.unread m ≠ []
      | .queued root => (Part.chain root).bytes m' = l.unread m ∧ l.unread m ≠ [] := by
  obtain ⟨hl, others, free, hsend⟩ := shared_sendOk h
  rcases flush_spec hM env fb hsend with ⟨h0, h⟩ | ⟨h0, m1, fb1, sent1, h, hsent⟩
  · rw [hrun] at h
    cases h
    have hnil := hl.unread_eq_nil.mpr h0
    exact ⟨hthin, hnil, hnil⟩
  · rw [hrun] at h
    cases h
    refine ⟨thin_clean l, rfl, ?_⟩
    have hne : l.unread m ≠ [] := fun hnil => h0 (hl.unread_eq_nil.mp hnil)
    rcases hsent with ⟨-, ⟨rfl, -⟩ | rfl⟩ | ⟨root, as, rfl, hroot, hlinked, -⟩
    · exact hne
    · exact ⟨rfl, hne⟩
    · refine ⟨?_, hne⟩
      have hchain := hsend.chainPart h0 hroot hlinked
      have hbytes := hlinked.bytes
      rw [hroot] at hbytes
      show msgBytes m' (chainOf m' root) = l.unread m
      rw [hchain.chainOf_eq, hbytes]
      rfl

theorem flush_not_opened {env : FlushEnv} {fb fb' : Bool} {sent : Sent} (hopen : env.opened = false)
    (hrun : flush bm env fb m l = .ok (m', l', fb', sent)) : sent = .nothing ∨ sent = .failed := by
  unfold flush at hrun
  by_cases h0 : l.len = 0
  · rw [if_pos h0] at hrun
    cases hrun
    exact .inl rfl
  · rw [if_neg h0, if_pos hopen] at hrun
    obtain ⟨⟨m1, l1⟩, -, hret⟩ := Go.bind_ok.mp hrun
    cases hret
    exact .inr rfl

/-! ## Receive buffers -/

theorem shared_recvOk (h : (ownership hL).Shared m (.recv l :: rest)) (hs : l.Sound cs) :
    RecvPart cs l ∧
      ∃ free, RecvOk cs m l ((ownership hL).ownsAll m rest) free := by
  obtain ⟨hok, free, ⟨hlen, hheap⟩, hall⟩ := h
  have hl : RecvPart cs l := hok (.recv l) List.mem_cons_self
  rw [Ownership.ownsAll, List.flatMap_cons, List.append_assoc] at hall
  refine ⟨hl, free, ⟨⟨hl.owns (hlen ▸ hL) hheap hall, hs.bounds⟩, ?_, hs.tail, hs.shm⟩⟩
  rw [hl.tally.len]
  exact total_eq_length hs.bounds

theorem RecvOk.sound (h : RecvOk cs m l others free) : l.Sound cs := ⟨h.bounds, h.tail, h.shm⟩

theorem Call.Positive.ok {c : Call} (hpos : c.Positive) {u : List UInt8} (hr : c.Ready u.length) :
    c.Ok u := by
  cases c with
  | readByte => exact Int.ofNat_le.mp hr
  | read size => exact hpos
  | discard size => exact ⟨hpos, hr⟩
  | readBytes size | readString size | peek size =>
    have hsize : 1 ≤ size := hpos
    exact ⟨hsize, hr.resolve_left (by omega)⟩

/-- **Reading.** -/
theorem call_held (hM : ManagerOk cs bm) {c : Call} (hpos : c.Positive) (hr : c.Ready l.len)
    (h : (ownership hL).Shared m (.recv l :: rest)) (hs : l.Sound cs) {r : Reply}
    (hrun : c.run bm m l = .ok (m', l', r)) :
    l'.Sound cs ∧ r = (c.flat (l.unread m)).1 ∧ l'.unread m' = (c.flat (l.unread m)).2 := by
  obtain ⟨-, free, hrecv⟩ := shared_recvOk h hs
  rw [hrecv.len] at hr
  obtain ⟨m1, l1, free', hrun', hunread, hrecv'⟩ := call_spec hM hrecv (hpos.ok hr)
  rw [hrun] at hrun'
  cases hrun'
  exact ⟨hrecv'.sound, rfl, hunread⟩

theorem moveChain_held (hM : ManagerOk cs bm)
    (h : (ownership hL).Shared m (.recv l :: .chain root :: rest)) (hs : l.Sound cs)
    (hrun : moveChain bm m.len m l root = .ok (m', l')) :
    l'.Sound cs ∧ l'.unread m' = l.unread m ++ (Part.chain root).bytes m := by
  obtain ⟨as, hc⟩ : ∃ as, ChainPart cs m root as := h.1 (.chain root) (by simp)
  obtain ⟨-, free, hrecv⟩ := shared_recvOk h hs
  rw [Ownership.ownsAll, List.flatMap_cons,
    show (ownership hL).owns m (.chain root) = chainOf m root from rfl, hc.chainOf_eq] at hrecv
  rcases moveChain_cases hM as root m.len m l free hrecv.toOwns hc.chain hc.short fun _ => hc.bytes with
    ⟨m1, l1, free', new, hrun', hrec⟩ | ⟨hpanic, -⟩
  · rw [hrun] at hrun'
    cases hrun'
    obtain ⟨hrecv', hunread⟩ := hrecv.received hrec
    refine ⟨hrecv'.sound, ?_⟩
    show _ = l.unread m ++ msgBytes m (chainOf m root)
    rw [hunread, hc.chainOf_eq]
  · rw [hrun] at hpanic
    cases hpanic

/-- **Receiving.** All that is pending comes behind what there is to read. -/
theorem moveTo_held (hM : ManagerOk cs bm) : ∀ (pending : List Unread) (m : Mem) (l : LinkedBuffer),
    (ownership hL).Shared m (.recv l :: (pendingParts pending ++ rest)) → l.Sound cs →
    (∀ u ∈ pending, u.Sound) → moveTo bm pending m l = .ok (m', l') →
    l'.Sound cs ∧ l'.unread m' = l.unread m ++ pending.flatMap (·.bytes m) := by
  intro pending
  induction pending with
  | nil =>
    intro m l _ hs _ hrun
    cases hrun
    exact ⟨hs, by simp⟩
  | cons u pending ih =>
    intro m l h hs hu hrun
    rw [List.forall_mem_cons] at hu
    cases u with
    | fallback payload =>
      obtain ⟨-, free, hrecv⟩ := shared_recvOk h hs
      obtain ⟨hrecv', hunread⟩ := hrecv.fallback hu.1
      have hsplit : (ownership hL).Shared m ([.recv l] ++ (pendingParts pending ++ rest)) := h
      obtain ⟨hs', hrest⟩ := ih m _ (hsplit.steps (appendFallback_steps payload)) hrecv'.sound hu.2 hrun
      refine ⟨hs', ?_⟩
      rw [hrest, hunread, List.append_assoc]
      rfl
    | chain root =>
      obtain ⟨⟨m1, l1⟩, hchain, hrun⟩ := Go.bind_ok.mp hrun
      have hsplit : (ownership hL).Shared m
          ([.recv l, .chain root] ++ (pendingParts pending ++ rest)) := h
      have hsteps : (ownership hL).Steps m _ m1 _ := moveChain_steps hM hchain
      obtain ⟨hs1, hunread⟩ := moveChain_held hM h hs hchain
      obtain ⟨hs', hrest⟩ := ih m1 l1 (hsplit.steps hsteps) hs1 hu.2 hrun
      refine ⟨hs', ?_⟩
      -- the messages behind this one are as they were
      have hsame : ∀ u ∈ pending, u.bytes m1 = u.bytes m := by
        intro u hmem
        cases u with
        | fallback payload => rfl
        | chain root' =>
          refine held_apart (p := .chain root') hsplit hsteps (List.mem_append_left _ ?_) trivial
          exact List.mem_filterMap.mpr ⟨_, hmem, rfl⟩
      rw [hrest, hunread, List.append_assoc, List.flatMap_cons, List.flatMap_congr hsame]
      rfl

/-- **Releasing.** -/
theorem releasePreviousRead_held (hM : ManagerOk cs bm)
    (h : (ownership hL).Shared m (.recv l :: rest)) (hs : l.Sound cs)
    (hrun : l.releasePreviousRead bm m = .ok (m', l')) :
    l'.Sound cs ∧ l'.unread m' = l.unread m := by
  obtain ⟨-, free, hrecv⟩ := shared_recvOk h hs
  obtain ⟨m1, l1, free', hrun', hrecv'⟩ := release_step hM hrecv
  rw [hrun] at hrun'
  cases hrun'
  exact ⟨hrecv'.sound, release_unread hM hrecv hrun⟩

/-- A receive buffer with nothing to read. -/
theorem shared_recv_nil (h : (ownership hL).Shared m (.recv l :: rest)) (hs : l.Sound cs)
    (h0 : l.len = 0) : l.unread m = [] := by
  obtain ⟨-, free, hrecv⟩ := shared_recvOk h hs
  refine List.eq_nil_of_length_eq_zero (Int.natCast_eq_zero.mp ?_)
  rw [← hrecv.len]
  exact h0

/-- `releasePreviousReadAndReserve` keeps the slices, or there is nothing to read. -/
theorem releaseAndReserve_held (hM : ManagerOk cs bm)
    (h : (ownership hL).Shared m (.recv l :: rest)) (hs : l.Sound cs)
    (hrun : l.releasePreviousReadAndReserve bm m = .ok (m', l')) :
    l'.len = l.len ∧ ((l'.Sound cs ∧ l'.unread m' = l.unread m) ∨
      l'.len = 0 ∧ l'.slices.length = 1) := by
  obtain ⟨-, free, hrecv⟩ := shared_recvOk h hs
  obtain ⟨m1, hclean, hown, hkeep⟩ := cleanPinnedList_spec hM hrecv.toOwns
  obtain ⟨⟨m2, l1⟩, hclean', hrun⟩ := Go.bind_ok.mp hrun
  rw [hclean] at hclean'
  obtain ⟨rfl, hl1⟩ := Prod.mk.inj (Except.ok.inj hclean')
  have hslices : l1.slices = l.slices := by rw [← hl1]
  have hshm : l1.isFromShm = l.isFromShm := by rw [← hl1]
  have hlen : l1.len = l.len := by rw [← hl1]
  have hkept : l1.Sound cs ∧ l1.unread m1 = l.unread m := by
    refine ⟨⟨hslices ▸ hs.bounds, hslices ▸ hs.tail, fun hf => hslices ▸ hs.shm (hshm ▸ hf)⟩, ?_⟩
    rw [LinkedBuffer.unread, LinkedBuffer.unread, hslices]
    refine flatMap_bytes_congr hrecv.slices hs.bounds hkeep.data fun a ha hT => ?_
    have hnd := hrecv.nodup
    simp only [List.nodup_append, List.mem_append] at hnd hT
    grind
  simp only [] at hrun
  split at hrun
  · rename_i s hone
    split_ifs at hrun with h0 hf
    · cases hrun
      refine ⟨hlen, .inr ⟨h0, ?_⟩⟩
      rw [setSlice_zero hone]
      rfl
    · cases hrun
      have hnone : l1.popFront.slices = [] := by
        rw [LinkedBuffer.popFront, hone]
        rfl
      have hnil : l.unread m = [] := shared_recv_nil h hs (hlen ▸ h0)
      refine ⟨hlen, .inl ⟨⟨by simp [hnone], by simp [hnone], by simp [hnone]⟩, ?_⟩⟩
      rw [hnil, LinkedBuffer.unread, hnone]
      rfl
    · cases hrun
      exact ⟨hlen, .inl hkept⟩
  · cases hrun
    exact ⟨hlen, .inl hkept⟩

/-- A send buffer with nothing written can become the receive buffer. -/
theorem SendPart.sound (h : SendPart cs m l) (hthin : l.Thin) (h0 : l.len = 0) : l.Sound cs := by
  refine ⟨h.bounds, fun s hs => ?_, h.shm⟩
  have hlen := List.length_pos_of_mem hs
  rw [List.length_tail] at hlen
  have := hthin h0
  omega

/-- **Releasing, with the buffers exchanged.** -/
theorem releaseReadAndReuse_held (hM : ManagerOk cs bm) {send send' recv recv' : LinkedBuffer}
    (h : (ownership hL).Shared m (.recv recv :: .send send :: rest)) (hs : recv.Sound cs)
    (hthin : send.Thin) (h0 : send.len = 0)
    (hrun : releaseReadAndReuse bm m recv send = .ok (m', recv', send')) :
    recv'.Sound cs ∧ send'.Thin ∧ recv'.unread m' = recv.unread m ∧ send'.unread m' = [] := by
  have hsplit : (ownership hL).Shared m ([.recv recv, .send send] ++ rest) := h
  have hafter := hsplit.steps (releaseReadAndReuse_steps hM hrun)
  have hrecv' : (ownership hL).Shared m' (.recv recv' :: .send send' :: rest) := hafter
  have hsend' : SendPart cs m' send' := hafter.1 (.send send') (by simp)
  have hsend : SendPart cs m send := h.1 (.send send) (by simp)
  obtain ⟨⟨m1, r1⟩, hrel, hrun⟩ := Go.bind_ok.mp hrun
  obtain ⟨hlen, hcases⟩ := releaseAndReserve_held hM h hs hrel
  simp only [] at hrun
  split_ifs at hrun with hc
  · -- the buffers change their roles, and both are empty
    cases hrun
    have hsound := hsend.sound hthin h0
    refine ⟨hsound, fun _ => hc.2.le, ?_, hsend'.unread_eq_nil.mpr hc.1⟩
    rw [shared_recv_nil hrecv' hsound h0, shared_recv_nil h hs (hlen ▸ hc.1)]
  · cases hrun
    obtain ⟨hsound, hunread⟩ := hcases.resolve_right hc
    exact ⟨hsound, hthin, hunread, hsend'.unread_eq_nil.mpr h0⟩

end Held

end Shmipc.Buffer
