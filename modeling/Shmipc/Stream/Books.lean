import Shmipc.Stream.Pipes

/-!
# The books of a stream

What went into the pipes of a run and what came out of them, and hence the same for the
data path: all that one end of a stream has flushed through the shared memory is read at the
other end, is there to be read, is pending, or is queued, in this order.

Results:
* `stream_books`: for a stream that stays registered and gets no data by fallback, the bytes
  flushed at one end, without those taken at the other, are those on their way.
-/

namespace Shmipc.Buffer.Call

/-- How many bytes a reader with this reply has taken. -/
def takes (r : Reply) : Call → ℕ
  | readBytes size | readString size | discard size => size.toNat
  | peek _ => 0
  | readByte => 1
  | read _ =>
    match r with
    | .bytes bs => bs.length
    | _ => 0

/-- The bytes that a reader with this reply has taken and returned; `Discard` returns none. -/
def gives (r : Reply) : Call → List UInt8
  | readBytes _ | readString _ | read _ =>
    match r with
    | .bytes bs => bs
    | _ => []
  | readByte =>
    match r with
    | .byte b => [b]
    | _ => []
  | peek _ | discard _ => []

variable {c : Call} {u : List UInt8}

theorem flat_takes (hc : c.Ready u.length) :
    (c.flat u).2 = u.drop (c.takes (c.flat u).1) ∧ c.takes (c.flat u).1 ≤ u.length := by
  cases c with
  | readBytes size | readString size =>
    refine ⟨rfl, ?_⟩
    show size.toNat ≤ u.length
    rcases hc with hc | hc <;> omega
  | discard size =>
    refine ⟨rfl, ?_⟩
    have hle : size ≤ u.length := hc
    show size.toNat ≤ u.length
    omega
  | peek size => exact ⟨rfl, Nat.zero_le _⟩
  | readByte => exact ⟨by simp [flat, takes], Int.ofNat_le.mp hc⟩
  | read size =>
    have htake : (u.take (min size u.length)).length = min size u.length := by simp
    refine ⟨?_, ?_⟩
    · show u.drop (min size u.length) = u.drop (u.take (min size u.length)).length
      rw [htake]
    · show (u.take (min size u.length)).length ≤ u.length
      omega

theorem flat_gives (hc : c.Ready u.length) (hd : ∀ size, c ≠ .discard size) :
    c.gives (c.flat u).1 = u.take (c.takes (c.flat u).1) := by
  cases c with
  | readBytes size | readString size => rfl
  | discard size => exact absurd rfl (hd size)
  | peek size => rfl
  | readByte =>
    obtain ⟨b, bs, rfl⟩ := List.exists_cons_of_length_pos (Int.ofNat_le.mp hc)
    rfl
  | read size =>
    show u.take (min size u.length) = u.take (u.take (min size u.length)).length
    rw [List.length_take, min_assoc, Nat.min_self]

end Shmipc.Buffer.Call

namespace Shmipc.DataPath

open Common Buffer LinkedBuffer

/-! ## What is seen of a step -/

namespace Event

/-- What is written to end `k`. -/
def wrote (k : ℕ) : Act × Seen → List UInt8
  | (a, .nothing) =>
    match a with
    | .write j c => if j = k then c.bytes else []
    | _ => []
  | _ => []

/-- What end `k` flushes, whatever becomes of it. -/
def flushed (k : ℕ) : Act × Seen → List UInt8
  | (a, .flushed _ _ _ bs) => if a.target = some k then bs else []
  | _ => []

/-- What end `k` flushes through the shared memory. -/
def queuedBy (k : ℕ) : Act × Seen → List UInt8
  | (a, .flushed _ _ .queued bs) => if a.target = some k then bs else []
  | _ => []

def queuedTo (v : View) : Act × Seen → List (ℕ × List UInt8)
  | (_, .flushed w id .queued bs) => if w = v then [(id, bs)] else []
  | _ => []

def polled (v : View) : Act × Seen → List (ℕ × List UInt8)
  | (a, .arrived w id _ bs) => if a = .poll w ∧ w = v then [(id, bs)] else []
  | _ => []

def arrivedAt (k : ℕ) : Act × Seen → List UInt8
  | (_, .arrived _ _ j bs) => if j = some k then bs else []
  | _ => []

/-- How many bytes the readers of end `k` take. -/
def taken (k : ℕ) : Act × Seen → ℕ
  | (a, .reply r) =>
    match a with
    | .call j c => if j = k then c.takes r else 0
    | _ => 0
  | _ => 0

/-- The bytes that the readers of end `k` take and return. -/
def received (k : ℕ) : Act × Seen → List UInt8
  | (a, .reply r) =>
    match a with
    | .call j c => if j = k then c.gives r else []
    | _ => []
  | _ => []

theorem wrote_eq_nil {k : ℕ} {a : Act} (ha : ∀ j c, a ≠ .write j c) : wrote k (a, .nothing) = [] := by
  cases a with
  | write j c => exact absurd rfl (ha j c)
  | _ => rfl

/-- Nothing of it is about end `k`. -/
structure Quiet (k : ℕ) (ev : Act × Seen) : Prop where
  wrote : wrote k ev = []
  flushed : flushed k ev = []
  arrivedAt : arrivedAt k ev = []
  taken : taken k ev = 0
  received : received k ev = []

end Event

/-! ## What a step does -/

abbrev Messages := List (ℕ × List UInt8)

namespace Pipe

/-- What came in and is not taken. -/
def coming (e : Pipe) : List UInt8 := e.unread ++ e.pending.flatten

/-- A step at end `k`. -/
inductive Does (k : ℕ) (e : Pipe) : Act → Seen → Pipe → Prop
  /-- The bytes stay in the end, and in their order. -/
  | kept {a : Act} {e' : Pipe} (ha : ∀ j c, a ≠ .write j c) (hside : e'.side = e.side)
      (hid : e'.id = e.id) (hreg : e'.registered = true → e.registered = true)
      (hwritten : e'.written = e.written) (hin : e'.coming = e.coming) : Does k e a .nothing e'
  | wrote (c : WriteCall) : Does k e (.write k c) .nothing { e with written := e.written ++ c.bytes }
  | read {c : Call} (hc : c.Ready e.unread.length) : Does k e (.call k c) (.reply (c.flat e.unread).1)
      { e with unread := (c.flat e.unread).2 }
  | flushed (put : Bool) (how : Outcome) : Does k e (.flush k put)
      (.flushed e.side.peer e.id how e.written) { e with written := [] }
  | arrived {a : Act} (bs : List UInt8) (hreg : e.registered = true) :
      Does k e a (.arrived e.side e.id (some k) bs) { e with pending := e.pending ++ [bs] }

variable {k : ℕ} {e e' : Pipe} {a : Act} {o : Seen}

theorem Does.name (h : Does k e a o e') :
    e'.side = e.side ∧ e'.id = e.id ∧ (e'.registered = true → e.registered = true) := by
  cases h with
  | kept ha hside hid hreg hwritten hin => exact ⟨hside, hid, hreg⟩
  | _ => exact ⟨rfl, rfl, fun hreg => hreg⟩

/-- **Balance of the writers.** -/
theorem Does.written (h : Does k e a o e') :
    e.written ++ Event.wrote k (a, o) = Event.flushed k (a, o) ++ e'.written := by
  cases h with
  | kept ha hside hid hreg hwritten hin => simp [Event.wrote_eq_nil ha, Event.flushed, hwritten]
  | wrote c | read hc => simp [Event.wrote, Event.flushed]
  | flushed put how => simp [Event.wrote, Event.flushed, Act.target]
  | arrived bs hreg => simp [Event.wrote, Event.flushed]

/-- **Balance of the readers.** -/
theorem Does.coming (h : Does k e a o e') : Event.taken k (a, o) ≤ e.coming.length ∧
    e'.coming = e.coming.drop (Event.taken k (a, o)) ++ Event.arrivedAt k (a, o) := by
  cases h with
  | kept ha hside hid hreg hwritten hin => simp [Event.taken, Event.arrivedAt, hin]
  | wrote c => simp [Event.taken, Event.arrivedAt, Pipe.coming]
  | @read c hc =>
    obtain ⟨hdrop, hle⟩ := Call.flat_takes hc
    simp only [Event.taken, Event.arrivedAt, Pipe.coming, if_true, List.append_nil, hdrop,
      List.drop_append_of_le_length hle, List.length_append, and_true]
    omega
  | flushed put how | arrived bs hreg => simp [Event.taken, Event.arrivedAt, Pipe.coming]

theorem Does.received (h : Does k e a o e') (hd : ∀ size, a ≠ .call k (.discard size)) :
    Event.received k (a, o) = e.coming.take (Event.taken k (a, o)) := by
  cases h with
  | @read c hc =>
    have hgives := Call.flat_gives hc fun size hs => hd size (by rw [hs])
    simp only [Event.received, Event.taken, Pipe.coming, if_true, hgives,
      List.take_append_of_le_length (Call.flat_takes hc).2]
  | _ => simp [Event.received, Event.taken]

theorem Does.elsewhere {j : ℕ} (h : Does k e a o e') (hj : k ≠ j) : Event.Quiet j (a, o) := by
  cases h with
  | kept ha => exact ⟨Event.wrote_eq_nil ha, rfl, rfl, rfl, rfl⟩
  | wrote c => exact ⟨if_neg hj, rfl, rfl, rfl, rfl⟩
  | read hc => exact ⟨rfl, rfl, rfl, if_neg hj, if_neg hj⟩
  | flushed put how => exact ⟨rfl, if_neg (by simpa [Act.target] using hj), rfl, rfl, rfl⟩
  | arrived bs hreg => exact ⟨rfl, rfl, if_neg (by simpa using hj), rfl, rfl⟩

end Pipe

namespace Pipes

/-- What becomes of the queues. -/
inductive Passes (queue : View → Messages) : Act → Seen → (View → Messages) → Prop
  | nothing {a : Act} : Passes queue a .nothing queue
  | reply {a : Act} {r : Reply} : Passes queue a (.reply r) queue
  | lost {a : Act} {v : View} {id : ℕ} {how : Outcome} {bs : List UInt8} (hhow : how ≠ .queued) :
      Passes queue a (.flushed v id how bs) queue
  | push {a : Act} {v : View} {id : ℕ} {bs : List UInt8} : Passes queue a (.flushed v id .queued bs)
      (Function.update queue v (queue v ++ [(id, bs)]))
  | take {v : View} {id : ℕ} {j : Option ℕ} {bs : List UInt8} {rest : Messages}
      (hq : queue v = (id, bs) :: rest) :
      Passes queue (.poll v) (.arrived v id j bs) (Function.update queue v rest)
  | fallback {v : View} {id : ℕ} {j : Option ℕ} {bs : List UInt8} :
      Passes queue (.fallbackData v id bs) (.arrived v id j bs) queue

/-- The effects of the steps. -/
inductive Moves (p : Pipes) : Act → Seen → Pipes → Prop
  | touched {a : Act} {o : Seen} {k : ℕ} {e e' : Pipe} {queue : View → Messages} (hk : p.ends[k]? = some e)
      (hdo : e.Does k a o e') (hq : Passes p.queue a o queue) :
      Moves p a o { ends := p.ends.set k e', queue := queue }
  | opened {id : ℕ} (hnew : ∀ e ∈ p.ends, e.side = .creator → e.id = id → e.registered = false) :
      Moves p (.openStream id) .nothing { p with ends := p.ends ++ [{ side := .creator, id := id }] }
  /-- A server accepts a stream. -/
  | accepted {a : Act} {id : ℕ} {bs : List UInt8} {queue : View → Messages}
      (hnew : ∀ e ∈ p.ends, e.side = .mapper → e.id = id → e.registered = false)
      (hq : Passes p.queue a (.arrived .mapper id (some p.ends.length) bs) queue) :
      Moves p a (.arrived .mapper id (some p.ends.length) bs)
        { ends := p.ends ++ [{ side := .mapper, id := id, pending := [bs] }], queue := queue }
  | dropped {a : Act} {id : ℕ} {bs : List UInt8} {queue : View → Messages}
      (hnone : ∀ e ∈ p.ends, e.side = .creator → e.id = id → e.registered = false)
      (hq : Passes p.queue a (.arrived .creator id none bs) queue) :
      Moves p a (.arrived .creator id none bs) { p with queue := queue }

variable {p q : Pipes} {a : Act} {o : Seen} {k : ℕ} {queue : View → Messages}

theorem onEnd_inv {f : Pipe → Option (Pipe × Seen)} (h : p.onEnd k f = some (q, o)) :
    ∃ e e', p.ends[k]? = some e ∧ f e = some (e', o) ∧ q = { p with ends := p.ends.set k e' } := by
  unfold onEnd at h
  split at h
  · cases h
  · rename_i e hk
    obtain ⟨⟨e', o'⟩, hf, hq⟩ := Option.map_eq_some_iff.mp h
    cases hq
    exact ⟨e, e', hk, hf, rfl⟩

/-- The stream that is found, or the reason why there is none. -/
theorem getStream_cases (p : Pipes) (v : View) (id : ℕ) :
    (∃ k e, p.getStream v id = (p, some k) ∧ p.ends[k]? = some e ∧ e.side = v ∧ e.registered = true ∧
      e.id = id) ∨
    ((∀ e ∈ p.ends, e.side = v → e.id = id → e.registered = false) ∧
      ((v = .creator ∧ p.getStream v id = (p, none)) ∨
        v = .mapper ∧ p.getStream v id =
          ({ p with ends := p.ends ++ [{ side := .mapper, id := id }] }, some p.ends.length))) := by
  unfold getStream
  cases hfind : p.ends.findIdx? fun e => e.side = v ∧ e.registered = true ∧ e.id = id with
  | some k =>
    obtain ⟨hlt, hp, -⟩ := List.findIdx?_eq_some_iff_getElem.mp hfind
    obtain ⟨hside, hreg, hid⟩ := of_decide_eq_true hp
    exact .inl ⟨k, _, rfl, List.getElem?_eq_getElem hlt, hside, hreg, hid⟩
  | none =>
    refine .inr ⟨fun e he hside hid => ?_, ?_⟩
    · have hnot := List.findIdx?_eq_none_iff.mp hfind e he
      simpa [hside, hid] using hnot
    · cases v with
      | creator => exact .inl ⟨rfl, rfl⟩
      | mapper => exact .inr ⟨rfl, rfl⟩

theorem deliver_moves {v : View} {id : ℕ} {bs : List UInt8}
    (hq : ∀ j, Passes p.queue a (.arrived v id j bs) queue)
    (h : deliver { p with queue := queue } v id bs = some (q, o)) : Moves p a o q := by
  unfold deliver at h
  rcases getStream_cases { p with queue := queue } v id with
    ⟨k, e, hget, hk, rfl, hreg, rfl⟩ | ⟨hnone, ⟨rfl, hget⟩ | ⟨rfl, hget⟩⟩
  · rw [hget] at h
    obtain ⟨e1, e', hk1, hf, rfl⟩ := onEnd_inv h
    obtain rfl : e = e1 := Option.some.inj (hk.symm.trans hk1)
    cases hf
    exact .touched hk (.arrived bs hreg) (hq _)
  · rw [hget] at h
    cases h
    exact .dropped hnone (hq _)
  · rw [hget] at h
    obtain ⟨e1, e', hk1, hf, rfl⟩ := onEnd_inv h
    have he1 : e1 = { side := .mapper, id := id } := by
      simpa using hk1.symm
    subst he1
    cases hf
    have hset : (p.ends ++ [({ side := .mapper, id := id } : Pipe)]).set p.ends.length
        { side := .mapper, id := id, pending := [bs] } =
        p.ends ++ [{ side := .mapper, id := id, pending := [bs] }] := by simp
    show Moves p a _ { ends := (p.ends ++ _).set p.ends.length _, queue := queue }
    rw [show ([] : List (List UInt8)) ++ [bs] = [bs] from rfl, hset]
    exact .accepted hnone (hq _)

theorem kept_moves {g : Pipe → Pipe} (ha : ∀ j c, a ≠ .write j c)
    (hg : ∀ e, (g e).side = e.side ∧ (g e).id = e.id ∧ ((g e).registered = true → e.registered = true) ∧
      (g e).written = e.written ∧ (g e).coming = e.coming)
    (h : p.onEnd k (fun e => some (g e, .nothing)) = some (q, o)) : Moves p a o q := by
  obtain ⟨e, e', hk, hf, rfl⟩ := onEnd_inv h
  cases hf
  obtain ⟨hside, hid, hreg, hwritten, hin⟩ := hg e
  exact .touched hk (.kept ha hside hid hreg hwritten hin) .nothing

/-- An end is left as it is. -/
theorem same_moves {e : Pipe} (ha : ∀ j c, a ≠ .write j c) (hk : p.ends[k]? = some e) :
    Moves p a .nothing { p with ends := p.ends.set k e } :=
  .touched hk (.kept ha rfl rfl id rfl rfl) .nothing

theorem next_moves {how : Outcome} (h : p.next how a = some (q, o)) : Moves p a o q := by
  cases a with
  | openStream id =>
    simp only [next] at h
    rcases getStream_cases p .creator id with ⟨k, e, hget, -⟩ | ⟨hnone, ⟨-, hget⟩ | ⟨hv, -⟩⟩
    · rw [hget] at h
      cases h
    · rw [hget] at h
      cases h
      exact .opened hnone
    · cases hv
  | unregister k =>
    exact kept_moves (g := fun e => { e with registered := false }) (by simp)
      (fun e => ⟨rfl, rfl, by simp, rfl, rfl⟩) h
  | halfClose k =>
    exact kept_moves (g := fun e =>
      { e with state := if e.state = .opened then .halfClosed else e.state }) (by simp)
      (fun e => ⟨rfl, rfl, id, rfl, rfl⟩) h
  | setCallbacks k => exact kept_moves (by simp) (fun e => ⟨rfl, rfl, id, rfl, rfl⟩) h
  | setDeadlines k r w => exact kept_moves (by simp) (fun e => ⟨rfl, rfl, id, rfl, rfl⟩) h
  | releasePreviousRead k => exact kept_moves (by simp) (fun e => ⟨rfl, rfl, id, rfl, rfl⟩) h
  | moveTo k =>
    exact kept_moves (g := fun e => { e with unread := e.unread ++ e.pending.flatten, pending := [] })
      (by simp) (fun e => ⟨rfl, rfl, id, rfl, by simp [Pipe.coming]⟩) h
  | write k c =>
    obtain ⟨e, e', hk, hf, rfl⟩ := onEnd_inv h
    cases hf
    exact .touched hk (.wrote c) .nothing
  | flush k put =>
    simp only [next, flush] at h
    split at h
    · cases h
    · rename_i e hk
      by_cases hnil : e.written = []
      · rw [if_pos hnil] at h
        cases h
        have hsame := same_moves (a := .flush k put) (by simp) hk
        rwa [set_self hk] at hsame
      · rw [if_neg hnil] at h
        cases h
        refine .touched hk (.flushed put _) ?_
        split_ifs with hopen hhow hhow
        · rw [hhow]
          exact .push
        · exact .lost hhow
        · exact hhow.elim
        · refine .lost ?_
          simp
  | poll v =>
    simp only [next] at h
    split at h
    · cases h
    · rename_i id bs rest hq
      exact deliver_moves (fun _ => .take hq) h
  | fallbackData v id payload => exact deliver_moves (fun _ => .fallback) h
  | call k c =>
    obtain ⟨e, e', hk, hf, rfl⟩ := onEnd_inv h
    split_ifs at hf with hc
    · cases hf
      exact .touched hk (.read hc) .reply
    · cases hf
      exact same_moves (by simp) hk
  | releaseReadAndReuse k | put k =>
    obtain ⟨e, e', hk, hf, rfl⟩ := onEnd_inv h
    split_ifs at hf
    cases hf
    exact same_moves (by simp) hk

/-! ## The books -/

/-- What is written to end `k` and not flushed. -/
def writtenAt (p : Pipes) (k : ℕ) : List UInt8 := p.ends[k]?.elim [] Pipe.written

/-- What came in at end `k` and is not taken. -/
def comingIn (p : Pipes) (k : ℕ) : List UInt8 := p.ends[k]?.elim [] Pipe.coming

variable {tr : List (Act × Seen)}

theorem elim_set {β : Type*} {l : List Pipe} {e x : Pipe} {f : Pipe → List β} (hk : l[k]? = some e)
    (j : ℕ) : (l.set k x)[j]?.elim [] f = if k = j then f x else l[j]?.elim [] f := by
  rcases eq_or_ne k j with rfl | hne
  · rw [List.getElem?_set_self (List.getElem?_eq_some_iff.mp hk).1, if_pos rfl]
    rfl
  · rw [List.getElem?_set_ne hne, if_neg hne]

theorem elim_concat {β : Type*} {l : List Pipe} {x : Pipe} {f : Pipe → List β} (j : ℕ) :
    (l ++ [x])[j]?.elim [] f = l[j]?.elim [] f ++ if l.length = j then f x else [] := by
  rcases lt_trichotomy j l.length with hlt | rfl | hgt
  · rw [List.getElem?_append_left hlt, if_neg hlt.ne', List.append_nil]
  · rw [List.getElem?_concat_length, if_pos rfl, List.getElem?_eq_none le_rfl]
    rfl
  · rw [List.getElem?_eq_none (by simpa using hgt), if_neg hgt.ne, List.getElem?_eq_none hgt.le]
    rfl

theorem Moves.written (hm : Moves p a o q) (j : ℕ) :
    p.writtenAt j ++ Event.wrote j (a, o) = Event.flushed j (a, o) ++ q.writtenAt j := by
  unfold writtenAt
  cases hm with
  | @touched _ _ k e e' queue hk hdo hq =>
    rw [elim_set hk]
    split_ifs with hkj
    · subst hkj
      rw [hk]
      exact hdo.written
    · simp [(hdo.elsewhere hkj).wrote, (hdo.elsewhere hkj).flushed]
  | opened hnew | accepted hnew hq => simp [elim_concat, Event.wrote, Event.flushed]
  | dropped hnone hq => simp [Event.wrote, Event.flushed]

theorem Moves.coming (hm : Moves p a o q) (j : ℕ) :
    Event.taken j (a, o) ≤ (p.comingIn j).length ∧
      q.comingIn j = (p.comingIn j).drop (Event.taken j (a, o)) ++ Event.arrivedAt j (a, o) := by
  unfold comingIn
  cases hm with
  | @touched _ _ k e e' queue hk hdo hq =>
    rw [elim_set hk]
    split_ifs with hkj
    · subst hkj
      rw [hk]
      exact hdo.coming
    · simp [(hdo.elsewhere hkj).taken, (hdo.elsewhere hkj).arrivedAt]
  | opened hnew | accepted hnew hq => simp [elim_concat, Event.taken, Event.arrivedAt, Pipe.coming]
  | dropped hnone hq => simp [Event.taken, Event.arrivedAt]

theorem Moves.received (hm : Moves p a o q) (j : ℕ) (hd : ∀ size, a ≠ .call j (.discard size)) :
    Event.received j (a, o) = (p.comingIn j).take (Event.taken j (a, o)) := by
  cases hm with
  | @touched _ _ k e e' queue hk hdo hq =>
    by_cases hkj : k = j
    · subst hkj
      rw [comingIn, hk]
      exact hdo.received hd
    · rw [(hdo.elsewhere hkj).received, (hdo.elsewhere hkj).taken, List.take_zero]
  | _ => simp [Event.received, Event.taken]

theorem Moves.passes (hm : Moves p a o q) : Passes p.queue a o q.queue := by
  cases hm with
  | touched hk hdo hq => exact hq
  | opened hnew => exact .nothing
  | accepted hnew hq => exact hq
  | dropped hnone hq => exact hq

/-- **Balance of the queues.** -/
theorem Passes.balance {queue' : View → Messages} (h : Passes queue a o queue') (v : View) :
    queue v ++ Event.queuedTo v (a, o) = Event.polled v (a, o) ++ queue' v := by
  cases h with
  | nothing | reply => simp [Event.queuedTo, Event.polled]
  | @lost _ w id how bs hhow => cases how <;> simp_all [Event.queuedTo, Event.polled]
  | @push _ w id bs =>
    rcases eq_or_ne w v with rfl | hne
    · simp [Event.queuedTo, Event.polled]
    · simp [Event.queuedTo, Event.polled, hne, Function.update_of_ne hne.symm]
  | @take w id j bs rest hq =>
    rcases eq_or_ne w v with rfl | hne
    · simp [Event.queuedTo, Event.polled, hq]
    · simp [Event.queuedTo, Event.polled, hne, Function.update_of_ne hne.symm]
  | fallback => simp [Event.queuedTo, Event.polled]

structure Books (tr : List (Act × Seen)) (p : Pipes) : Prop where
  written : ∀ k, tr.flatMap (Event.wrote k) = tr.flatMap (Event.flushed k) ++ p.writtenAt k
  queues : ∀ v, tr.flatMap (Event.queuedTo v) = tr.flatMap (Event.polled v) ++ p.queue v
  taken : ∀ k, (tr.map (Event.taken k)).sum ≤ (tr.flatMap (Event.arrivedAt k)).length
  coming : ∀ k, (tr.flatMap (Event.arrivedAt k)).drop (tr.map (Event.taken k)).sum = p.comingIn k
  received : ∀ k, (∀ ev ∈ tr, ∀ size, ev.1 ≠ .call k (.discard size)) →
    tr.flatMap (Event.received k) =
      (tr.flatMap (Event.arrivedAt k)).take (tr.map (Event.taken k)).sum

theorem flatMap_snoc {α β : Type*} (f : α → List β) (l : List α) (x : α) :
    (l ++ [x]).flatMap f = l.flatMap f ++ f x := by
  rw [List.flatMap_append, List.flatMap_singleton]

/-- **Step.** The books stay balanced. -/
theorem Books.step (h : Books tr p) (hm : Moves p a o q) : Books (tr ++ [(a, o)]) q where
  written k := by
    rw [flatMap_snoc, flatMap_snoc, h.written, List.append_assoc, hm.written, List.append_assoc]
  queues v := by
    rw [flatMap_snoc, flatMap_snoc, h.queues, List.append_assoc, hm.passes.balance, List.append_assoc]
  taken k := by
    have htaken := h.taken k
    have hmore := (hm.coming k).1
    rw [← h.coming k, List.length_drop] at hmore
    rw [flatMap_snoc, List.map_append, List.sum_append, List.length_append, List.map_singleton,
      List.sum_singleton]
    omega
  coming k := by
    obtain ⟨hle, hcoming⟩ := hm.coming k
    rw [← h.coming k] at hle hcoming
    rw [flatMap_snoc, List.map_append, List.sum_append, List.map_singleton, List.sum_singleton,
      hcoming, ← List.drop_drop, List.drop_append_of_le_length (h.taken k),
      List.drop_append_of_le_length hle]
  received k hd := by
    have hlast := hm.received k fun size => hd (a, o) (by simp) size
    have hmore := (hm.coming k).1
    rw [← h.coming k] at hlast hmore
    rw [List.length_drop] at hmore
    have htaken := h.taken k
    rw [flatMap_snoc, flatMap_snoc, h.received k fun ev hev => hd ev (List.mem_append_left _ hev),
      hlast, List.map_append, List.sum_append, List.map_singleton, List.sum_singleton,
      List.take_append_of_le_length (by omega), List.take_add]

/-- **Run.** -/
theorem books_balance (h : spec.Traces tr p) : Books tr p := by
  refine h.invariant ?_ ?_
  · rintro p rfl
    exact ⟨by simp [writtenAt], by simp, by simp, by simp [comingIn], by simp⟩
  · rintro tr p a o q hb ⟨how, hnext⟩
    exact hb.step (next_moves hnext)

/-! ## Who talks to whom -/

/-- Ends are found by their side and their id, messages come from and go to their streams. -/
structure Named (tr : List (Act × Seen)) (p : Pipes) : Prop where
  /-- One end of a side is registered with an id. -/
  unique : ∀ (i j : ℕ) (e e' : Pipe), p.ends[i]? = some e → p.ends[j]? = some e' → e.registered = true →
    e'.registered = true → e.side = e'.side → e.id = e'.id → i = j
  flushed : ∀ (a : Act) v id how bs, (a, Seen.flushed v id how bs) ∈ tr →
    ∃ (k : ℕ) (e : Pipe), a.target = some k ∧ p.ends[k]? = some e ∧ e.side.peer = v ∧ e.id = id
  arrived : ∀ (a : Act) v id k bs, (a, Seen.arrived v id (some k) bs) ∈ tr →
    ∃ e : Pipe, p.ends[k]? = some e ∧ e.side = v ∧ e.id = id
  source : ∀ (a : Act) v id k bs, (a, Seen.arrived v id k bs) ∈ tr →
    a = .poll v ∨ a = .fallbackData v id bs

/-- The ends of `p` are in `q`, under the same names. -/
def Grows (p q : Pipes) : Prop :=
  ∀ (k : ℕ) (e : Pipe), p.ends[k]? = some e → ∃ e' : Pipe, q.ends[k]? = some e' ∧
    e'.side = e.side ∧ e'.id = e.id ∧ (e'.registered = true → e.registered = true)

theorem grows_concat (p : Pipes) (x : Pipe) (queue : View → Messages) :
    Grows p { ends := p.ends ++ [x], queue := queue } := by
  intro j e hj
  have hlt := (List.getElem?_eq_some_iff.mp hj).1
  exact ⟨e, by rw [← hj]; exact List.getElem?_append_left hlt, rfl, rfl, id⟩

theorem Moves.grows (hm : Moves p a o q) : Grows p q := by
  cases hm with
  | @touched _ _ k e e' queue hk hdo hq =>
    intro j x hj
    rcases eq_or_ne k j with rfl | hne
    · obtain rfl : x = e := Option.some.inj (hj.symm.trans hk)
      exact ⟨e', List.getElem?_set_self (List.getElem?_eq_some_iff.mp hk).1, hdo.name⟩
    · exact ⟨x, by rw [← hj]; exact List.getElem?_set_ne hne, rfl, rfl, id⟩
  | opened hnew | accepted hnew hq => exact grows_concat p _ _
  | dropped hnone hq => exact fun k e hk => ⟨e, hk, rfl, rfl, id⟩

/-- The end `e` was there with the same name. -/
def WasIn (p : Pipes) (k : ℕ) (e : Pipe) : Prop :=
  ∃ e' : Pipe, p.ends[k]? = some e' ∧ e.side = e'.side ∧ e.id = e'.id ∧
    (e.registered = true → e'.registered = true)

/-- The end is the next one, and no registered end has its name; a server has one for a message
    that came in. -/
def IsNew (p : Pipes) (o : Seen) (k : ℕ) (e : Pipe) : Prop :=
  k = p.ends.length ∧ (∀ e' ∈ p.ends, e'.side = e.side → e'.id = e.id → e'.registered = false) ∧
    (e.side = .creator ∨ ∃ bs, o = .arrived .mapper e.id (some k) bs)

theorem isNew_concat {e x : Pipe} {j : ℕ} (hnew : p.IsNew o p.ends.length e)
    (hj : (p.ends ++ [e])[j]? = some x) : p.WasIn j x ∨ p.IsNew o j x := by
  rcases getElem?_concat_cases hj with hj | ⟨rfl, rfl⟩
  · exact .inl ⟨x, hj, rfl, rfl, id⟩
  · exact .inr hnew

theorem Moves.ends (hm : Moves p a o q) {j : ℕ} {x : Pipe} (hj : q.ends[j]? = some x) :
    p.WasIn j x ∨ p.IsNew o j x := by
  cases hm with
  | @touched _ _ k e e' queue hk hdo hq =>
    exact .inl (forall_getElem?_set (P := fun j x => p.WasIn j x) hk ⟨e, hk, hdo.name⟩
      (fun _ x _ hx => ⟨x, hx, rfl, rfl, id⟩) j x hj)
  | opened hnew => exact isNew_concat ⟨rfl, hnew, .inl rfl⟩ hj
  | accepted hnew hq => exact isNew_concat ⟨rfl, hnew, .inr ⟨_, rfl⟩⟩ hj
  | dropped hnone hq => exact .inl ⟨x, hj, rfl, rfl, id⟩

theorem Moves.flushed_name {v : View} {id : ℕ} {how : Outcome} {bs : List UInt8}
    (hm : Moves p a (.flushed v id how bs) q) :
    ∃ (k : ℕ) (e : Pipe), a.target = some k ∧ p.ends[k]? = some e ∧ e.side.peer = v ∧ e.id = id := by
  cases hm with
  | @touched _ _ k e e' queue hk hdo hq =>
    cases hdo
    exact ⟨k, e, rfl, hk, rfl, rfl⟩

theorem Moves.arrived_name {v : View} {id : ℕ} {bs : List UInt8}
    (hm : Moves p a (.arrived v id (some k) bs) q) :
    ∃ e : Pipe, q.ends[k]? = some e ∧ e.side = v ∧ e.id = id := by
  cases hm with
  | touched hk hdo hq =>
    cases hdo
    exact ⟨_, List.getElem?_set_self (List.getElem?_eq_some_iff.mp hk).1, rfl, rfl⟩
  | accepted hnew hq => exact ⟨_, List.getElem?_concat_length, rfl, rfl⟩

/-- Two registered ends of one name, one of them new. -/
theorem IsNew.absurd {i : ℕ} {e e' : Pipe} (hnew : p.IsNew o i e) (hwas : p.WasIn k e')
    (hreg : e'.registered = true) (hside : e.side = e'.side) (hid : e.id = e'.id) : False := by
  obtain ⟨x, hx, hxs, hxi, hxr⟩ := hwas
  have hfalse := hnew.2.1 x (List.mem_of_getElem? hx) (hxs.symm.trans hside.symm) (hxi.symm.trans hid.symm)
  rw [hxr hreg] at hfalse
  cases hfalse

theorem Named.unique_step (h : Named tr p) (hm : Moves p a o q) {i j : ℕ} {e e' : Pipe}
    (hi : q.ends[i]? = some e) (hj : q.ends[j]? = some e') (hreg : e.registered = true)
    (hreg' : e'.registered = true) (hside : e.side = e'.side) (hid : e.id = e'.id) : i = j := by
  rcases hm.ends hi with hwas | hnew
  · rcases hm.ends hj with hwas' | hnew'
    · obtain ⟨x, hx, hxs, hxi, hxr⟩ := hwas
      obtain ⟨x', hx', hxs', hxi', hxr'⟩ := hwas'
      exact h.unique i j x x' hx hx' (hxr hreg) (hxr' hreg') (by rw [← hxs, ← hxs', hside])
        (by rw [← hxi, ← hxi', hid])
    · exact (hnew'.absurd hwas hreg hside.symm hid.symm).elim
  · rcases hm.ends hj with hwas' | hnew'
    · exact (hnew.absurd hwas' hreg' hside hid).elim
    · exact hnew.1.trans hnew'.1.symm

/-- A message comes from its queue, or from the socket. -/
theorem Passes.source {queue' : View → Messages} {v : View} {id : ℕ} {j : Option ℕ} {bs : List UInt8}
    (h : Passes queue a (.arrived v id j bs) queue') :
    a = .poll v ∧ (id, bs) ∈ queue v ∨ a = .fallbackData v id bs := by
  cases h with
  | take hq => exact .inl ⟨rfl, by simp [hq]⟩
  | fallback => exact .inr rfl

/-- **Step.** -/
theorem Named.step (h : Named tr p) (hm : Moves p a o q) : Named (tr ++ [(a, o)]) q where
  unique i j e e' hi hj := h.unique_step hm hi hj
  flushed a' v id how bs hmem := by
    have hname : ∃ (k : ℕ) (e : Pipe), a'.target = some k ∧ p.ends[k]? = some e ∧ e.side.peer = v ∧
        e.id = id := by
      rcases List.mem_append.mp hmem with hmem | hmem
      · exact h.flushed a' v id how bs hmem
      · obtain ⟨rfl, rfl⟩ := Prod.mk.inj (List.mem_singleton.mp hmem)
        exact hm.flushed_name
    obtain ⟨k, e, hk, he, hside, hid⟩ := hname
    obtain ⟨e', he', hs', hi', -⟩ := hm.grows k e he
    exact ⟨k, e', hk, he', by rw [hs', hside], hi'.trans hid⟩
  arrived a' v id k bs hmem := by
    rcases List.mem_append.mp hmem with hmem | hmem
    · obtain ⟨e, he, hside, hid⟩ := h.arrived a' v id k bs hmem
      obtain ⟨e', he', hs', hi', -⟩ := hm.grows k e he
      exact ⟨e', he', hs'.trans hside, hi'.trans hid⟩
    · obtain ⟨rfl, rfl⟩ := Prod.mk.inj (List.mem_singleton.mp hmem)
      exact hm.arrived_name
  source a' v id k bs hmem := by
    rcases List.mem_append.mp hmem with hmem | hmem
    · exact h.source a' v id k bs hmem
    · obtain ⟨rfl, rfl⟩ := Prod.mk.inj (List.mem_singleton.mp hmem)
      exact hm.passes.source.imp_left And.left

theorem named_of_traces (h : spec.Traces tr p) : Named tr p := by
  refine h.invariant ?_ ?_
  · rintro p rfl
    exact ⟨by simp, by simp, by simp, by simp⟩
  · rintro tr p a o q hb ⟨how, hnext⟩
    exact hb.step (next_moves hnext)

/-! ## Nothing is dropped -/

/-- No data comes by fallback for this id. -/
def NoFallback (id : ℕ) (tr : List (Act × Seen)) : Prop :=
  ∀ ev ∈ tr, ∀ v payload, ev.1 ≠ .fallbackData v id payload

/-- Nothing has to do with this id. -/
def Silent (p : Pipes) (id : ℕ) : Prop :=
  (∀ e ∈ p.ends, e.id ≠ id) ∧ ∀ v, ∀ msg ∈ p.queue v, msg.1 ≠ id

def Opened (p : Pipes) (id : ℕ) : Prop := ∃ e ∈ p.ends, e.side = .creator ∧ e.id = id

theorem Opened.grows {id : ℕ} (h : p.Opened id) (hg : Grows p q) : q.Opened id := by
  obtain ⟨e, he, hside, hid⟩ := h
  obtain ⟨k, hk⟩ := List.mem_iff_getElem?.mp he
  obtain ⟨e', hk', hs', hi', -⟩ := hg k e hk
  exact ⟨e', List.mem_of_getElem? hk', hs'.trans hside, hi'.trans hid⟩

/-- A message was in the queue, or is one that is flushed. -/
theorem Passes.mem {queue' : View → Messages} {v : View} {msg : ℕ × List UInt8}
    (h : Passes queue a o queue') (hmsg : msg ∈ queue' v) :
    msg ∈ queue v ∨ ∃ w how, o = .flushed w msg.1 how msg.2 := by
  cases h with
  | @push _ w id bs =>
    rcases eq_or_ne v w with rfl | hne
    · rw [Function.update_self, List.mem_append, List.mem_singleton] at hmsg
      exact hmsg.imp_right fun hmsg => ⟨v, .queued, by rw [hmsg]⟩
    · exact .inl (by rwa [Function.update_of_ne hne] at hmsg)
  | @take w id j bs rest hq =>
    rcases eq_or_ne v w with rfl | hne
    · rw [Function.update_self] at hmsg
      exact .inl (hq ▸ List.mem_cons_of_mem _ hmsg)
    · exact .inl (by rwa [Function.update_of_ne hne] at hmsg)
  | _ => exact .inl hmsg

theorem Silent.not_flushed {id : ℕ} {v : View} {how : Outcome} {bs : List UInt8} (h : p.Silent id)
    (hm : Moves p a (.flushed v id how bs) q) : False := by
  obtain ⟨k, e, -, hk, -, hid⟩ := hm.flushed_name
  exact h.1 e (List.mem_of_getElem? hk) hid

/-- Nothing comes in for the id. -/
theorem Silent.not_arrived {id : ℕ} {v : View} {j : Option ℕ} {bs : List UInt8} (h : p.Silent id)
    (hf : ∀ v payload, a ≠ .fallbackData v id payload) (hm : Moves p a (.arrived v id j bs) q) : False := by
  rcases hm.passes.source with ⟨-, hmem⟩ | rfl
  · exact h.2 v _ hmem rfl
  · exact hf v bs rfl

/-- Until a client opens a stream with the id, nothing has to do with it. -/
theorem silent_step {id : ℕ} (h : p.Opened id ∨ p.Silent id)
    (hf : ∀ v payload, a ≠ .fallbackData v id payload) (hm : Moves p a o q) :
    q.Opened id ∨ q.Silent id := by
  refine h.elim (fun hopen => .inl (hopen.grows hm.grows)) fun hs => ?_
  have hqueue : ∀ v, ∀ msg ∈ q.queue v, msg.1 ≠ id := by
    rintro v msg hmsg rfl
    rcases hm.passes.mem hmsg with hmem | ⟨w, how, rfl⟩
    · exact hs.2 v msg hmem rfl
    · exact hs.not_flushed hm
  by_cases hends : ∀ e ∈ q.ends, e.id ≠ id
  · exact .inr ⟨hends, hqueue⟩
  -- an end with the id is new, and no message made it
  push Not at hends
  obtain ⟨e, he, rfl⟩ := hends
  obtain ⟨k, hk⟩ := List.mem_iff_getElem?.mp he
  rcases hm.ends hk with ⟨x, hx, -, hid, -⟩ | ⟨-, -, hside | ⟨bs, rfl⟩⟩
  · exact absurd hid.symm (hs.1 x (List.mem_of_getElem? hx))
  · exact .inl ⟨e, he, hside, rfl⟩
  · exact (hs.not_arrived hf hm).elim

/-- **Run.** No message of a stream is dropped while its ends are registered. -/
theorem not_dropped (h : spec.Traces tr p) (id : ℕ) (hf : NoFallback id tr) :
    (p.Opened id ∨ p.Silent id) ∧ ((∀ e ∈ p.ends, e.id = id → e.registered = true) →
      ∀ a v bs, (a, .arrived v id none bs) ∉ tr) := by
  induction h with
  | init hp =>
    subst hp
    exact ⟨.inr ⟨by simp, by simp⟩, by simp⟩
  | @step tr p q a o h hs ih =>
    obtain ⟨how, hnext⟩ := hs
    have hm := next_moves hnext
    have hlast : ∀ v payload, a ≠ .fallbackData v id payload := hf (a, o) (by simp)
    obtain ⟨horigin, hkept⟩ := ih fun ev hev => hf ev (List.mem_append_left _ hev)
    refine ⟨silent_step horigin hlast hm, fun hreg a' v bs hmem => ?_⟩
    -- what is registered now was so before
    have hregp : ∀ e ∈ p.ends, e.id = id → e.registered = true := by
      intro e he hid
      obtain ⟨k, hk⟩ := List.mem_iff_getElem?.mp he
      obtain ⟨e', hk', -, hi', hr'⟩ := hm.grows k e hk
      exact hr' (hreg e' (List.mem_of_getElem? hk') (hi'.trans hid))
    rcases List.mem_append.mp hmem with hmem | hmem
    · exact hkept hregp a' v bs hmem
    · obtain ⟨rfl, rfl⟩ := Prod.mk.inj (List.mem_singleton.mp hmem)
      rcases horigin with ⟨e, he, hside, hid⟩ | hs
      · cases hm with
        | touched hk hdo hq => cases hdo
        | dropped hnone hq =>
          have hfalse := hnone e he hside hid
          rw [hregp e he hid] at hfalse
          cases hfalse
      · exact hs.not_arrived hlast hm

/-! ## Both ends of a stream -/

/-- The bytes of the messages for one stream. -/
def bytesFor (id : ℕ) (msgs : List (ℕ × List UInt8)) : List UInt8 :=
  (msgs.filter fun msg => msg.1 = id).flatMap Prod.snd

theorem bytesFor_append (id : ℕ) (l l' : List (ℕ × List UInt8)) :
    bytesFor id (l ++ l') = bytesFor id l ++ bytesFor id l' := by
  unfold bytesFor
  rw [List.filter_append, List.flatMap_append]

theorem bytesFor_flatMap (id : ℕ) (f : Act × Seen → List (ℕ × List UInt8)) :
    bytesFor id (tr.flatMap f) = tr.flatMap fun ev => bytesFor id (f ev) := by
  induction tr with
  | nil => rfl
  | cons ev tr ih => rw [List.flatMap_cons, bytesFor_append, ih, List.flatMap_cons]

theorem peer_inj {v w : View} (h : v.peer = w.peer) : v = w := by
  cases v <;> cases w <;> first | rfl | cases h

section Stream

variable {e e' : Pipe} {j : ℕ}

theorem Named.eq_of_name (h : Named tr p) (hreg : ∀ x ∈ p.ends, x.id = e.id → x.registered = true)
    (hk : p.ends[k]? = some e) {i : ℕ} {x : Pipe} (hi : p.ends[i]? = some x) (hside : x.side = e.side)
    (hid : x.id = e.id) : i = k :=
  h.unique i k x e hi hk (hreg x (List.mem_of_getElem? hi) hid) (hreg e (List.mem_of_getElem? hk) rfl)
    hside hid

/-- What an end flushes is what goes to the queue under its name. -/
theorem Named.queuedBy_eq (h : Named tr p) (hreg : ∀ x ∈ p.ends, x.id = e.id → x.registered = true)
    (hj : p.ends[j]? = some e) : tr.flatMap (Event.queuedBy j) =
      bytesFor e.id (tr.flatMap (Event.queuedTo e.side.peer)) := by
  rw [bytesFor_flatMap]
  refine List.flatMap_congr fun ev hev => ?_
  obtain ⟨a, o⟩ := ev
  cases o with
  | flushed v id how bs =>
    cases how with
    | queued =>
      obtain ⟨i, x, hi, hx, hside, hid⟩ := h.flushed a v id .queued bs hev
      by_cases hij : i = j
      · subst hij
        obtain rfl : x = e := Option.some.inj (hx.symm.trans hj)
        simp [Event.queuedBy, Event.queuedTo, bytesFor, hi, hside, hid]
      · have hname : ¬(v = e.side.peer ∧ id = e.id) := by
          rintro ⟨hv, hi'⟩
          exact hij (h.eq_of_name hreg hj hx (peer_inj (hside.trans hv)) (hid.trans hi'))
        by_cases hv : v = e.side.peer
        · simp [Event.queuedBy, Event.queuedTo, bytesFor, hi, hij, hv,
            show id ≠ e.id from fun hi' => hname ⟨hv, hi'⟩]
        · simp [Event.queuedBy, Event.queuedTo, bytesFor, hi, hij, hv]
    | frame => rfl
    | failed => rfl
  | _ => rfl

/-- What arrives at an end is what is taken from the queue under its name. -/
theorem arrivedAt_eq (ht : spec.Traces tr p)
    (hreg : ∀ x ∈ p.ends, x.id = e.id → x.registered = true) (hf : NoFallback e.id tr)
    (hk : p.ends[k]? = some e) : tr.flatMap (Event.arrivedAt k) =
      bytesFor e.id (tr.flatMap (Event.polled e.side)) := by
  have h := named_of_traces ht
  rw [bytesFor_flatMap]
  refine List.flatMap_congr fun ev hev => ?_
  obtain ⟨a, o⟩ := ev
  cases o with
  | arrived v id i bs =>
    by_cases hname : v = e.side ∧ id = e.id
    · obtain ⟨rfl, rfl⟩ := hname
      -- the message was taken from the queue, and was not dropped
      have hpoll : a = .poll e.side := (h.source a _ _ i bs hev).resolve_right (hf _ hev _ _)
      cases i with
      | none => exact absurd hev ((not_dropped ht e.id hf).2 hreg a e.side bs)
      | some i =>
        obtain ⟨x, hx, hside, hid⟩ := h.arrived a _ _ i bs hev
        have hik : i = k := h.eq_of_name hreg hk hx hside hid
        simp [Event.arrivedAt, Event.polled, bytesFor, hpoll, hik]
    · have hne : i ≠ some k := by
        rintro rfl
        obtain ⟨x, hx, hside, hid⟩ := h.arrived a v id k bs hev
        obtain rfl : x = e := Option.some.inj (hx.symm.trans hk)
        exact hname ⟨hside.symm, hid.symm⟩
      by_cases hv : v = e.side
      · simp [Event.arrivedAt, Event.polled, bytesFor, hne, hv, show id ≠ e.id from fun hi => hname ⟨hv, hi⟩]
      · simp [Event.arrivedAt, Event.polled, bytesFor, hne, hv]
  | _ => rfl

/-- **From end to end.** What is flushed at one end arrived at the other, or is queued. -/
theorem queuedBy_eq_arrivedAt (ht : spec.Traces tr p) (hj : p.ends[j]? = some e)
    (hk : p.ends[k]? = some e') (hside : e.side.peer = e'.side) (hid : e'.id = e.id)
    (hreg : ∀ x ∈ p.ends, x.id = e.id → x.registered = true) (hf : NoFallback e.id tr) :
    tr.flatMap (Event.queuedBy j) =
      tr.flatMap (Event.arrivedAt k) ++ bytesFor e.id (p.queue e'.side) := by
  rw [(named_of_traces ht).queuedBy_eq hreg hj, hside, (books_balance ht).queues, bytesFor_append,
    arrivedAt_eq ht (hid ▸ hreg) (hid ▸ hf) hk, hid]

end Stream

end Pipes

/-! ## The data path -/

/-- The bytes in the queue to process `v` for the stream with this id. -/
def Net.waiting (s : Net) (v : View) (id : ℕ) : List UInt8 := Pipes.bytesFor id (s.abs.queue v)

section

variable {pairs : List SizePercentPair} {m m0 : Mem} {bm bm' : Manager} {s : Net}
  {tr : List (Act × Seen)} {j k : ℕ} {e e' : End}

/-- **Main theorem.** Ends `j` and `k` of a stream, while no end with its id has left the
    session and no data came by fallback: what `j` has flushed through the shared memory is
    what the readers of `k` have taken, followed by what `k` has to read, what is pending
    there and what is queued for it. Without `Discard` the readers have returned just this
    beginning, and if no flush of `j` failed or fell back, it is what was written to `j`. -/
theorem stream_books (h : TwoProcesses pairs m m0 bm bm')
    (hs : (Net.spec (Views.managerOf bm bm') m0).Traces tr s) (hj : s.ends[j]? = some e)
    (hk : s.ends[k]? = some e') (hside : e'.side = e.side.peer) (hid : e'.id = e.id)
    (hreg : ∀ x ∈ s.ends, x.id = e.id → x.registered = true)
    (hf : ∀ ev ∈ tr, ∀ v payload, ev.1 ≠ .fallbackData v e.id payload) :
    (tr.map (Event.taken k)).sum ≤ (tr.flatMap (Event.queuedBy j)).length ∧
      (tr.flatMap (Event.queuedBy j)).drop (tr.map (Event.taken k)).sum =
        e'.recvBuf.unread s.mem ++ (e'.pendingData.flatMap (·.bytes s.mem) ++ s.waiting e'.side e.id) ∧
      ((∀ ev ∈ tr, ∀ size, ev.1 ≠ .call k (.discard size)) → tr.flatMap (Event.received k) =
        (tr.flatMap (Event.queuedBy j)).take (tr.map (Event.taken k)).sum) ∧
      ((∀ a v id how bs, (a, Seen.flushed v id how bs) ∈ tr → a.target = some j → how = .queued) →
        tr.flatMap (Event.wrote j) = tr.flatMap (Event.queuedBy j) ++ e.sendBuf.unread s.mem) := by
  have hc : Created _ (Views.managerOf bm bm' .creator) m0 := h.created
  have ht := (spec_refines hc h.managerOk hs).2
  have hbooks := Pipes.books_balance ht
  have hregp : ∀ x ∈ s.abs.ends, x.id = e.id → x.registered = true := by
    intro x hx
    obtain ⟨y, hy, rfl⟩ := List.mem_map.mp hx
    exact hreg y hy
  have hend := Pipes.queuedBy_eq_arrivedAt ht (abs_getElem hj) (abs_getElem hk) hside.symm hid hregp hf
  have htaken := hbooks.taken k
  have hcoming := hbooks.coming k
  rw [Pipes.comingIn, abs_getElem hk] at hcoming
  rw [hend]
  refine ⟨?_, ?_, fun hd => ?_, fun hall => ?_⟩
  · rw [List.length_append]
    omega
  · rw [List.drop_append_of_le_length htaken, hcoming, ← List.append_assoc, List.flatMap_def]
    rfl
  · rw [hbooks.received k hd, List.take_append_of_le_length htaken]
  · -- every flush of `j` went to the queue
    have hsame : tr.flatMap (Event.flushed j) = tr.flatMap (Event.queuedBy j) := by
      refine List.flatMap_congr fun ev hev => ?_
      obtain ⟨a, o⟩ := ev
      cases o with
      | flushed v id how bs =>
        by_cases ha : a.target = some j
        · obtain rfl := hall a v id how bs hev ha
          rfl
        · cases how <;> simp [Event.flushed, Event.queuedBy, ha]
      | _ => rfl
    rw [hbooks.written j, hsame, hend, Pipes.writtenAt, abs_getElem hj]
    rfl

end

/-- Two messages; one is read in part, the other is queued. -/
def oneQueued : List Act := [
  .openStream 1, .write 0 (.writeBytes [1, 2, 3]), .flush 0 true, .poll .mapper, .moveTo 1,
  .write 0 (.writeByte 4), .flush 0 true, .call 1 (.readBytes 2), .write 0 (.writeByte 5)]

theorem stream_books_one_queued : ∃ m0 bm bm' s tr e e',
    TwoProcesses [⟨24, 100⟩] (zeroMem 264) m0 bm bm' ∧
      (Net.spec (Views.managerOf bm bm') m0).Traces tr s ∧ s.ends[0]? = some e ∧
      s.ends[1]? = some e' ∧ tr.flatMap (Event.received 1) = [1, 2] ∧
      (tr.flatMap (Event.queuedBy 0)).drop 2 =
        e'.recvBuf.unread s.mem ++ (e'.pendingData.flatMap (·.bytes s.mem) ++ s.waiting .mapper 1) ∧
      s.waiting .mapper 1 = [4] := by
  obtain ⟨m0, bm, bm', htwo, hok, ⟨s, hs, hends, hwaiting⟩, hacts, hrecv, htaken⟩ :=
    exists_twoProcesses (fun m0 bm bm' =>
      (Net.runs (Views.managerOf bm bm') m0).RunOk Net.Careful { mem := m0 } oneQueued ∧
      (∃ s ∈ (Net.runs (Views.managerOf bm bm') m0).run { mem := m0 } oneQueued,
        s.ends.map (fun e => (e.side, e.id, e.registered)) = [(.creator, 1, true), (.mapper, 1, true)] ∧
          s.waiting .mapper 1 = [4]) ∧
      (((Net.runs (Views.managerOf bm bm') m0).trace (Net.see (Views.managerOf bm bm'))
        { mem := m0 } oneQueued).map Prod.fst = oneQueued ∧
      ((Net.runs (Views.managerOf bm bm') m0).trace (Net.see (Views.managerOf bm bm'))
        { mem := m0 } oneQueued).flatMap (Event.received 1) = [1, 2] ∧
      (((Net.runs (Views.managerOf bm bm') m0).trace (Net.see (Views.managerOf bm bm'))
        { mem := m0 } oneQueued).map (Event.taken 1)).sum = 2))
    (by decide +kernel)
  have htraces : (Net.spec (Views.managerOf bm bm') m0).Traces ([] ++ _) s :=
    Sys.seen_of_run (.init rfl) hok hs
  rw [List.nil_append] at htraces
  obtain ⟨e, e', hpair⟩ := List.length_eq_two.mp (show s.ends.length = 2 by
    rw [← List.length_map, hends]
    rfl)
  rw [hpair] at hends
  simp only [List.map_cons, List.map_nil, List.cons.injEq, Prod.mk.injEq, and_true] at hends
  obtain ⟨⟨hside, hid, hreg⟩, hside', hid', hreg'⟩ := hends
  have hnone : ∀ ev ∈ (Net.runs (Views.managerOf bm bm') m0).trace (Net.see (Views.managerOf bm bm'))
      { mem := m0 } oneQueued, ∀ v payload, ev.1 ≠ .fallbackData v e.id payload := by
    intro ev hev v payload hfall
    have hmem := List.mem_map_of_mem (f := Prod.fst) hev
    rw [hacts, hfall] at hmem
    simp [oneQueued] at hmem
  have hj : s.ends[0]? = some e := by rw [hpair]; rfl
  have hk : s.ends[1]? = some e' := by rw [hpair]; rfl
  have hbooks := stream_books htwo htraces hj hk (by rw [hside, hside']; rfl) (by rw [hid, hid'])
    (by rw [hpair]; simp [hreg, hreg']) hnone
  rw [htaken, hside', hid] at hbooks
  exact ⟨m0, bm, bm', s, _, e, e', htwo, htraces, hj, hk, hrecv, hbooks.2.1, hwaiting⟩

end Shmipc.DataPath
