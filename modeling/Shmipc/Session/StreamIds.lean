import Shmipc.Session.OpenStream

/-!
# The ids of the streams of a session pair

Both ends of a session open streams with `OpenStream`, each from its own `nextStreamID`, which
starts at 1 on a client and at 2 on a server (session.go:147-153). The field is documented as
odd on a client and even on a server (session.go:35-39), but `OpenStream` adds 1 to it and not
2 (session.go:258): the ids of a client are 2, 3, 4, … and those of a server 3, 4, 5, ….

The two ends run as in `OpenStream`. A server also registers the streams its peer opens when
the first message of one comes (`getStream`, session.go:560-583), and either end forgets a
stream when it is closed (`onStreamClose`, session.go:609-614).

Results:
* `streamIds_distinct`: with fewer than `2 ^ 31` calls an end returns no id twice, and the ids
  of the two ends are apart if the server opens no stream or the client at most one.
* `streamIds_collide`: the second stream of a client and the first one of a server both have
  the id 3.
-/

namespace Shmipc.StreamIds

open Common OpenStream

/-- The two ends of a session. -/
structure Pair where
  client : State
  server : State
  deriving DecidableEq

inductive PairAct
  | client (a : Act)
  | server (a : Act)
  /-- The server gets a message with state `streamOpened` for the stream `id`, which it
      calls `name` if it is new. -/
  | getStream (id name : ℕ)
  | clientOnStreamClose (id : ℕ)
  | serverOnStreamClose (id : ℕ)
  deriving DecidableEq

/-- `getStream` of a server; the map is not nil while the session is open. -/
def getStream (s : State) (id name : ℕ) : State :=
  { s with shared.streams := s.shared.streams.map fun m =>
      if id ∈ m.map Prod.fst then m else m ++ [(id, name)] }

/-- `delete(s.streams, id)`. -/
def onStreamClose (s : State) (id : ℕ) : State :=
  { s with shared.streams := s.shared.streams.map fun m => m.filter (·.1 ≠ id) }

def pairStep (p : Pair) : PairAct → Option Pair
  | .client a => (step p.client a).map fun s => { p with client := s }
  | .server a => (step p.server a).map fun s => { p with server := s }
  | .getStream id name => some { p with server := getStream p.server id name }
  | .clientOnStreamClose id => some { p with client := onStreamClose p.client id }
  | .serverOnStreamClose id => some { p with server := onStreamClose p.server id }

/-- `newSession` at both ends. -/
def pairInitial : Pair := ⟨initial 1, initial 2⟩

def pairMachine : Sys Pair PairAct := ⟨(· = pairInitial), pairStep⟩

/-! ## The ids of one end -/

/-- The call may still take an id. -/
def waits : OpenPc → ℕ
  | .isClosed | .isHealthy | .addID => 1
  | .readErr | .register _ | .returned _ _ | .panicked => 0

theorem waits_le_one : ∀ pc : OpenPc, waits pc ≤ 1
  | .isClosed | .isHealthy | .addID => Nat.le_refl 1
  | .readErr | .register _ | .returned _ _ | .panicked => Nat.zero_le 1

/-- The id a call has taken for a stream that it registers or has registered. -/
def idOf : OpenPc → Option ℕ
  | .register id => some id
  | .returned stream _ => stream
  | .isClosed | .readErr | .isHealthy | .addID | .panicked => none

/-- The `k`-th call has the id `id`. -/
def HasId (s : State) (k id : ℕ) : Prop := ∃ pc, s.calls[k]? = some pc ∧ idOf pc = some id

/-- The ids of an end that has started at `start` and not wrapped around. -/
structure Ids (start : ℕ) (s : State) : Prop where
  le_next : start ≤ s.shared.nextStreamID
  lt_id : ∀ k id, HasId s k id → start < id
  id_le : ∀ k id, HasId s k id → id ≤ s.shared.nextStreamID
  distinct : ∀ j k id, HasId s j id → HasId s k id → j = k

/-- Every id was taken by a call. -/
structure IdInv (start : ℕ) (s : State) : Prop where
  taken : s.shared.nextStreamID + (s.calls.map waits).sum ≤ start + s.calls.length
  ids : s.calls.length < 2 ^ 31 → Ids start s

section Steps

variable {start k : ℕ} {s t : State} {pc pc' : OpenPc} {a : Act}

/-- What a step does to the ids: nothing, a new call, a call that takes none, or a call that
    takes the next one. -/
theorem step_cases (h : step s a = some t) :
    (t.calls = s.calls ∧ t.shared.nextStreamID = s.shared.nextStreamID) ∨
    (t.calls = s.calls ++ [.isClosed] ∧ t.shared.nextStreamID = s.shared.nextStreamID) ∨
    (∃ k pc pc', s.calls[k]? = some pc ∧ t.calls = s.calls.set k pc' ∧
      t.shared.nextStreamID = s.shared.nextStreamID ∧ waits pc' ≤ waits pc ∧
      (idOf pc' = none ∨ idOf pc' = idOf pc)) ∨
    ∃ k, s.calls[k]? = some .addID ∧
      t.calls = s.calls.set k (.register t.shared.nextStreamID) ∧
      t.shared.nextStreamID = (s.shared.nextStreamID + 1) % 2 ^ 32 := by
  cases a with
  | openStream =>
    cases h
    exact .inr (.inl ⟨rfl, rfl⟩)
  | call k =>
    obtain ⟨pc, hk, h⟩ := Option.bind_eq_some_iff.mp h
    obtain ⟨⟨s', pc'⟩, hs, rfl⟩ := Option.map_eq_some_iff.mp h
    refine .inr (.inr ?_)
    cases pc with
    | isClosed =>
      cases hs
      refine .inl ⟨k, .isClosed, _, hk, rfl, rfl, ?_, .inl ?_⟩
      · exact waits_le_one _
      · dsimp only
        split_ifs <;> rfl
    | readErr =>
      cases hs
      exact .inl ⟨k, _, _, hk, rfl, rfl, le_rfl, .inl rfl⟩
    | isHealthy =>
      cases hs
      refine .inl ⟨k, .isHealthy, _, hk, rfl, rfl, ?_, .inl ?_⟩
      · exact waits_le_one _
      · dsimp only
        split_ifs <;> rfl
    | addID =>
      cases hs
      exact .inr ⟨k, hk, rfl, rfl⟩
    | register id =>
      refine .inl ⟨k, _, pc', hk, rfl, ?_⟩
      rw [stepOpen] at hs
      split at hs
      · cases hs
        exact ⟨rfl, le_rfl, .inl rfl⟩
      · split_ifs at hs
        · cases hs
          exact ⟨rfl, le_rfl, .inl rfl⟩
        · cases hs
          exact ⟨rfl, le_rfl, .inr rfl⟩
    | returned _ _ => cases hs
    | panicked => cases hs
  | close | exitErr code | setUnhealthy b =>
    cases h
    exact .inl ⟨rfl, rfl⟩
  | closer k =>
    obtain ⟨pc, -, h⟩ := Option.bind_eq_some_iff.mp h
    obtain ⟨⟨s', pc', posted⟩, hs, rfl⟩ := Option.map_eq_some_iff.mp h
    refine .inl ⟨rfl, ?_⟩
    cases pc with
    | cas =>
      rw [stepClose] at hs
      split_ifs at hs <;> cases hs <;> rfl
    | exitErr _ | setErr | notify | post =>
      cases hs
      rfl
    | returned => cases hs
  | cleanup =>
    obtain ⟨⟨s', pc'⟩, hs, rfl⟩ := Option.map_eq_some_iff.mp h
    refine .inl ⟨rfl, ?_⟩
    rw [stepCleanup.eq_def] at hs
    split at hs <;> cases hs <;> rfl

/-- An id of the calls after one of them has moved. -/
theorem HasId.of_set {j id : ℕ} (hk : s.calls[k]? = some pc) (ht : t.calls = s.calls.set k pc')
    (h : HasId t j id) : j = k ∧ idOf pc' = some id ∨ j ≠ k ∧ HasId s j id := by
  obtain ⟨q, hq, hid⟩ := h
  rw [ht] at hq
  refine forall_getElem?_set (P := fun j q => idOf q = some id →
    j = k ∧ idOf pc' = some id ∨ j ≠ k ∧ HasId s j id) hk (fun h => .inl ⟨rfl, h⟩)
    (fun j q hne hj h => .inr ⟨hne, q, hj, h⟩) j q hq hid

/-- Ids of which every one was there before. -/
theorem Ids.mono (h : Ids start s) (hnext : s.shared.nextStreamID ≤ t.shared.nextStreamID)
    (hsub : ∀ k id, HasId t k id → HasId s k id) : Ids start t where
  le_next := h.le_next.trans hnext
  lt_id k id hid := h.lt_id k id (hsub k id hid)
  id_le k id hid := (h.id_le k id (hsub k id hid)).trans hnext
  distinct j k id hj hk := h.distinct j k id (hsub j id hj) (hsub k id hk)

theorem Ids.addID (h : Ids start s) (hk : s.calls[k]? = some .addID)
    (ht : t.calls = s.calls.set k (.register t.shared.nextStreamID))
    (hnext : t.shared.nextStreamID = s.shared.nextStreamID + 1) : Ids start t := by
  have hle := h.le_next
  refine ⟨by omega, fun j id hj => ?_, fun j id hj => ?_, fun i j id hi hj => ?_⟩
  · rcases hj.of_set hk ht with ⟨-, hid⟩ | ⟨-, hj⟩
    · cases hid
      omega
    · exact h.lt_id j id hj
  · rcases hj.of_set hk ht with ⟨-, hid⟩ | ⟨-, hj⟩
    · cases hid
      exact le_rfl
    · have := h.id_le j id hj
      omega
  · rcases hi.of_set hk ht with ⟨rfl, hid⟩ | ⟨-, hi⟩ <;>
      rcases hj.of_set hk ht with ⟨rfl, hjd⟩ | ⟨-, hj⟩
    · rfl
    · cases hid
      have := h.id_le j _ hj
      omega
    · cases hjd
      have := h.id_le i _ hi
      omega
    · exact h.distinct i j id hi hj

/-- **Step.** -/
theorem IdInv.step (h : IdInv start s) (hstart : start ≤ 2) (hs : step s a = some t) :
    IdInv start t := by
  have htaken := h.taken
  rcases step_cases hs with ⟨hc, hn⟩ | ⟨hc, hn⟩ | ⟨k, pc, pc', hk, hc, hn, hw, hid⟩ | ⟨k, hk, hc, hn⟩
  · refine ⟨by rw [hc, hn]; exact htaken, fun hlen => (h.ids (hc ▸ hlen)).mono hn.ge ?_⟩
    rintro k id ⟨pc, hk, hid⟩
    exact ⟨pc, hc ▸ hk, hid⟩
  · constructor
    · rw [hc, hn, List.map_append, List.sum_append, List.length_append]
      show _ + (_ + 1) ≤ start + (_ + 1)
      omega
    · rw [hc, List.length_append]
      refine fun hlen => (h.ids (by omega)).mono hn.ge ?_
      rintro k id ⟨pc, hk, hid⟩
      rw [hc] at hk
      rcases getElem?_concat_cases hk with hk | ⟨-, rfl⟩
      · exact ⟨pc, hk, hid⟩
      · cases hid
  · constructor
    · have hsum := sum_map_set hk pc' waits
      rw [hc, hn, List.length_set]
      omega
    · rw [hc, List.length_set]
      refine fun hlen => (h.ids hlen).mono hn.ge fun j id hj => ?_
      rcases hj.of_set hk hc with ⟨rfl, hj⟩ | ⟨-, hj⟩
      · rcases hid with hid | hid
        · rw [hid] at hj
          cases hj
        · exact ⟨pc, hk, hid ▸ hj⟩
      · exact hj
  · have hsum := sum_map_set hk (.register t.shared.nextStreamID) waits
    have hone : waits .addID = 1 := rfl
    have hzero : waits (.register t.shared.nextStreamID) = 0 := rfl
    have hmod := Nat.mod_le (s.shared.nextStreamID + 1) (2 ^ 32)
    constructor
    · rw [hc, List.length_set]
      omega
    · rw [hc, List.length_set]
      intro hlen
      -- the counter is below the number of calls, so that it does not wrap
      refine (h.ids hlen).addID hk hc ?_
      rw [hn, Nat.mod_eq_of_lt (by omega)]

/-- What happens to the streams does not change the ids. -/
theorem IdInv.of_streams (h : IdInv start s) (streams : Option (List (ℕ × ℕ))) :
    IdInv start { s with shared.streams := streams } :=
  ⟨h.taken, fun hlen => ⟨(h.ids hlen).le_next, (h.ids hlen).lt_id, (h.ids hlen).id_le,
    (h.ids hlen).distinct⟩⟩

theorem idInv_initial (start : ℕ) : IdInv start (initial start) where
  taken := le_rfl
  ids _ := ⟨le_rfl, fun _ _ ⟨_, hk, _⟩ => (nomatch hk), fun _ _ ⟨_, hk, _⟩ => (nomatch hk),
    fun _ _ _ ⟨_, hk, _⟩ => (nomatch hk)⟩

end Steps

/-- **Run.** -/
theorem idInv_of_reachable {p : Pair} (hr : pairMachine.Reachable p) :
    IdInv 1 p.client ∧ IdInv 2 p.server := by
  refine hr.invariant (fun p => IdInv 1 p.client ∧ IdInv 2 p.server) ?_ ?_
  · rintro _ rfl
    exact ⟨idInv_initial 1, idInv_initial 2⟩
  · rintro p a t ⟨hc, hs⟩ - ht
    cases a with
    | client a =>
      obtain ⟨s, hstep, rfl⟩ := Option.map_eq_some_iff.mp ht
      exact ⟨hc.step (by decide) hstep, hs⟩
    | server a =>
      obtain ⟨s, hstep, rfl⟩ := Option.map_eq_some_iff.mp ht
      exact ⟨hc, hs.step (by decide) hstep⟩
    | getStream id name =>
      cases ht
      exact ⟨hc, hs.of_streams _⟩
    | clientOnStreamClose id =>
      cases ht
      exact ⟨hc.of_streams _, hs⟩
    | serverOnStreamClose id =>
      cases ht
      exact ⟨hc, hs.of_streams _⟩

/-! ## Results -/

/-- The `k`-th call of `OpenStream` has returned a stream with this id. -/
def Opened (s : State) (k id : ℕ) : Prop := s.calls[k]? = some (.returned (some id) none)

theorem Opened.hasId {s : State} {k id : ℕ} (h : Opened s k id) : HasId s k id := ⟨_, h, rfl⟩

/-- **Main theorem.** With fewer than `2 ^ 31` calls at each end, no two calls of an end return
    one id. If the server calls `OpenStream` never or the client at most once, no id is
    returned at both ends. -/
theorem streamIds_distinct {p : Pair} (hr : pairMachine.Reachable p)
    (hclient : p.client.calls.length < 2 ^ 31) (hserver : p.server.calls.length < 2 ^ 31) :
    (∀ j k id, Opened p.client j id → Opened p.client k id → j = k) ∧
    (∀ j k id, Opened p.server j id → Opened p.server k id → j = k) ∧
    (p.server.calls = [] ∨ p.client.calls.length ≤ 1 →
      ∀ j k id, Opened p.client j id → ¬Opened p.server k id) := by
  obtain ⟨hc, hs⟩ := idInv_of_reachable hr
  refine ⟨fun j k id hj hk => (hc.ids hclient).distinct j k id hj.hasId hk.hasId,
    fun j k id hj hk => (hs.ids hserver).distinct j k id hj.hasId hk.hasId, ?_⟩
  rintro (hnone | hone) j k id hj hk
  · rw [Opened, hnone] at hk
    cases hk
  · -- the only id of the client is 2, and those of the server are larger
    have htwo := (hs.ids hserver).lt_id k id hk.hasId
    have hle := (hc.ids hclient).id_le j id hj.hasId
    have htaken := hc.taken
    omega

/-- A whole `OpenStream` of the `k`-th call. -/
def openRun (side : Act → PairAct) (k : ℕ) : List PairAct :=
  [side .openStream, side (.call k), side (.call k), side (.call k), side (.call k)]

/-- A server that hears of two streams of its client and opens none. -/
theorem streamIds_distinct_two_streams : ∃ p, pairMachine.Reachable p ∧
    Opened p.client 0 2 ∧ Opened p.client 1 3 ∧ ¬Opened p.server 0 3 := by
  obtain ⟨p, hr, hp⟩ := pairMachine.exists_reachable_of_run pairInitial
    (List.flatten [openRun .client 0, [.getStream 2 0], openRun .client 1, [.getStream 3 1]])
    (fun p => p.client.calls = [.returned (some 2) none, .returned (some 3) none] ∧
      p.server.calls = []) rfl (by decide)
  have h := streamIds_distinct hr (by rw [hp.1]; decide) (by rw [hp.2]; decide)
  have h1 : Opened p.client 1 3 := by
    rw [Opened, hp.1]
    rfl
  exact ⟨p, hr, by rw [Opened, hp.1]; rfl, h1, h.2.2 (.inl hp.2) 1 0 3 h1⟩

/-- **Counterexample.** A client opens two streams and the server one before it has heard of
    them: the second stream of the client and the stream of the server have the id 3. -/
theorem streamIds_collide : ∃ p, pairMachine.Reachable p ∧ p.client.calls.length = 2 ∧
    p.server.calls.length = 1 ∧ Opened p.client 0 2 ∧ Opened p.client 1 3 ∧
    Opened p.server 0 3 := by
  obtain ⟨p, hr, hp⟩ := pairMachine.exists_reachable_of_run pairInitial
    (List.flatten [openRun .client 0, openRun .client 1, openRun .server 0])
    (fun p => p.client.calls = [.returned (some 2) none, .returned (some 3) none] ∧
      p.server.calls = [.returned (some 3) none]) rfl (by decide)
  refine ⟨p, hr, by rw [hp.1]; rfl, by rw [hp.2]; rfl, ?_, ?_, ?_⟩
  · rw [Opened, hp.1]
    rfl
  · rw [Opened, hp.1]
    rfl
  · rw [Opened, hp.2]
    rfl

end Shmipc.StreamIds
