import Shmipc.Buffer.Slice
import Shmipc.Common.RingQueue
import Shmipc.SessionManager.StreamPool

/-!
# The ring of a stream pool

`streamPool.push` and `pop` (session_manager.go:447-471) over the pool's array, with the
`uint64` counters and the index of the source. Both hold the pool's lock from their first to
their last access, so the calls come one after the other. A cell keeps its stream after a `pop`.

Results:
* `Pool.push_spec`, `Pool.pop_spec`: the calls on a ring.
* `bounded_fifo`: in every sequence of calls with less than `2 ^ 64` successful pushes the ring
  is a FIFO of at most `capacity` streams, for every capacity, also 0.
* `ring_refines`: the ring in `Shmipc.StreamPool.machine`, whose calls do more than that, is one
  that such a sequence leads to.
-/

namespace Shmipc.PoolRing

open Common
open Buffer (Go Panic)

/-! ## The model -/

/-- The ring of `streamPool`; `nil` cells are `none`. -/
structure Pool (S : Type) where
  streams : List (Option S)
  capacity : UInt32
  head : UInt64
  tail : UInt64
  length_streams : streams.length = capacity.toNat

inductive PoolError
  /-- `errPoolFull`. -/
  | full
  deriving DecidableEq, Repr

variable {S : Type}

/-- `newStreamPool` (session_manager.go:156-158). -/
def newStreamPool (S : Type) (poolCapacity : UInt32) : Pool S where
  streams := List.replicate poolCapacity.toNat none
  capacity := poolCapacity
  head := 0
  tail := 0
  length_streams := List.length_replicate

namespace Pool

/-- The index of `p.streams[i%uint64(p.capacity)]`. -/
def index (p : Pool S) (i : UInt64) : Go ℕ :=
  if p.capacity.toUInt64 = 0 then .error .divideByZero
  else
    let j := (i % p.capacity.toUInt64).toNat
    if j < p.streams.length then .ok j else .error .indexOutOfRange

/-- `streamPool.pop`. -/
def pop (p : Pool S) : Go (Pool S × Option S) :=
  if p.tail > p.head then do
    let j ← p.index p.head
    return ({ p with head := p.head + 1 }, p.streams[j]?.join)
  else return (p, none)

/-- `streamPool.push` of a stream that is not `nil`. -/
def push (p : Pool S) (s : S) : Go (Pool S × Option PoolError) :=
  if p.tail - p.head < p.capacity.toUInt64 then do
    let j ← p.index p.tail
    return ({ p with
      streams := p.streams.set j (some s)
      tail := p.tail + 1
      length_streams := by rw [List.length_set]; exact p.length_streams }, none)
  else return (p, some .full)

end Pool

/-! ## Sequences of calls -/

inductive Call (S : Type)
  | push (s : S)
  | pop
  deriving DecidableEq

inductive Return (S : Type)
  | push (s : S) (err : Option PoolError)
  | pop (s : Option S)
  | panicked (x : Panic)
  deriving DecidableEq

/-- The ring, and what the calls returned. -/
structure State (S : Type) where
  pool : Pool S
  returns : List (Return S)

def step (s : State S) : Call S → State S
  | .push x =>
    match s.pool.push x with
    | .ok (p, err) => ⟨p, s.returns ++ [.push x err]⟩
    | .error e => ⟨s.pool, s.returns ++ [.panicked e]⟩
  | .pop =>
    match s.pool.pop with
    | .ok (p, x) => ⟨p, s.returns ++ [.pop x]⟩
    | .error e => ⟨s.pool, s.returns ++ [.panicked e]⟩

def machine (S : Type) (capacity : UInt32) : Sys (State S) (Call S) where
  init s := s = ⟨newStreamPool S capacity, []⟩
  next s c := some (step s c)

def Return.pushed : Return S → Option S
  | .push s none => some s
  | _ => none

def Return.popped : Return S → Option S
  | .pop s => s
  | _ => none

/-- The streams that were pushed, in order. -/
def State.pushed (s : State S) : List S := s.returns.filterMap Return.pushed

/-- The streams that were popped, in order. -/
def State.popped (s : State S) : List S := s.returns.filterMap Return.popped

/-- The streams that were pushed and not popped. -/
def State.held (s : State S) : List S := s.pushed.drop s.popped.length

/-- The counters do not wrap around. -/
def Below (s : State S) (c : Call S) : Prop := (step s c).pushed.length < 2 ^ 64

/-! ## The calls on a ring -/

namespace Pool

/-- Stream `a` lies in the cell of number `i`. -/
def Cell (p : Pool S) (i : ℕ) (a : S) : Prop :=
  p.streams[i % p.capacity.toNat]? = some (some a)

/-- The ring stands for `pushed` and `popped`. -/
def Window (p : Pool S) (pushed popped : List S) : Prop :=
  RingQueue.Window p.capacity.toNat p.Cell p.head.toNat p.tail.toNat pushed popped

variable {p : Pool S} {pushed popped : List S} {x : S}

theorem toNat_capacity (p : Pool S) : p.capacity.toUInt64.toNat = p.capacity.toNat :=
  UInt32.toNat_toUInt64 _

theorem index_ok (p : Pool S) (hcap : 0 < p.capacity.toNat) (i : UInt64) :
    p.index i = .ok (i.toNat % p.capacity.toNat) := by
  have hne : ¬p.capacity.toUInt64 = 0 := by
    intro he
    have := congrArg UInt64.toNat he
    rw [toNat_capacity] at this
    exact hcap.ne' this
  unfold index
  rw [if_neg hne]
  simp only [UInt64.toNat_mod, toNat_capacity]
  rw [if_pos (by rw [p.length_streams]; exact Nat.mod_lt _ hcap)]

theorem toNat_sub (hle : p.head.toNat ≤ p.tail.toNat) :
    (p.tail - p.head).toNat = p.tail.toNat - p.head.toNat :=
  UInt64.toNat_sub_of_le _ _ (UInt64.le_iff_toNat_le.mpr hle)

/-- The ring after a `push` that found room. -/
def added (p : Pool S) (x : S) : Pool S where
  streams := p.streams.set (p.tail.toNat % p.capacity.toNat) (some x)
  capacity := p.capacity
  head := p.head
  tail := p.tail + 1
  length_streams := by rw [List.length_set]; exact p.length_streams

theorem push_eq (hle : p.head.toNat ≤ p.tail.toNat) (x : S) :
    p.push x = .ok (if p.tail.toNat - p.head.toNat < p.capacity.toNat then (p.added x, none)
      else (p, some .full)) := by
  have hiff : p.tail - p.head < p.capacity.toUInt64 ↔
      p.tail.toNat - p.head.toNat < p.capacity.toNat := by
    rw [UInt64.lt_iff_toNat_lt, toNat_sub hle, toNat_capacity]
  unfold push
  by_cases hroom : p.tail.toNat - p.head.toNat < p.capacity.toNat
  · rw [if_pos (hiff.mpr hroom), if_pos hroom, p.index_ok (by omega)]
    rfl
  · rw [if_neg (hiff.not.mpr hroom), if_neg hroom]
    rfl

theorem pop_eq (hcap : p.tail.toNat ≤ p.head.toNat + p.capacity.toNat) :
    p.pop = .ok (if p.head.toNat < p.tail.toNat then
      ({ p with head := p.head + 1 }, p.streams[p.head.toNat % p.capacity.toNat]?.join)
      else (p, none)) := by
  have hiff : p.tail > p.head ↔ p.head.toNat < p.tail.toNat := UInt64.lt_iff_toNat_lt
  unfold pop
  by_cases hlt : p.head.toNat < p.tail.toNat
  · rw [if_pos (hiff.mpr hlt), if_pos hlt, p.index_ok (by omega)]
    rfl
  · rw [if_neg (hiff.not.mpr hlt), if_neg hlt]
    rfl

theorem toNat_succ {c : UInt64} (h : c.toNat + 1 < 2 ^ 64) : (c + 1).toNat = c.toNat + 1 := by
  rw [UInt64.toNat_add]
  exact Nat.mod_eq_of_lt h

/-- **`push`** fails if `capacity` streams are held, and else adds its stream. -/
theorem push_spec (h : p.Window pushed popped) (x : S) :
    (p.tail.toNat = p.head.toNat + p.capacity.toNat ∧ p.push x = .ok (p, some .full)) ∨
      p.tail.toNat < p.head.toNat + p.capacity.toNat ∧ p.push x = .ok (p.added x, none) ∧
        (p.tail.toNat + 1 < 2 ^ 64 → (p.added x).Window (pushed ++ [x]) popped) := by
  have hle := h.head_le
  have hmax := h.tail_le
  rw [push_eq hle]
  by_cases hroom : p.tail.toNat < p.head.toNat + p.capacity.toNat
  · right
    rw [if_pos (by omega)]
    refine ⟨hroom, rfl, fun hb => ?_⟩
    have hlt : p.tail.toNat % p.capacity.toNat < p.streams.length := by
      rw [p.length_streams]
      exact Nat.mod_lt _ (by omega)
    unfold Window
    rw [added, toNat_succ hb]
    refine (RingQueue.Window.write h hroom fun i a hne ha => ?_).push hroom ?_
    · unfold Cell at ha ⊢
      rw [List.getElem?_set_ne hne.symm]
      exact ha
    · exact List.getElem?_set_self hlt
  · left
    rw [if_neg (by omega)]
    exact ⟨by omega, rfl⟩

/-- **`pop`** returns `nil` if no stream is held, and else the oldest. -/
theorem pop_spec (h : p.Window pushed popped) :
    (p.tail.toNat = p.head.toNat ∧ p.pop = .ok (p, none)) ∨
      ∃ a, pushed[p.head.toNat]? = some a ∧
        p.pop = .ok ({ p with head := p.head + 1 }, some a) ∧
        Window { p with head := p.head + 1 } pushed (popped ++ [a]) := by
  have hle := h.head_le
  rw [pop_eq h.tail_le]
  by_cases hlt : p.head.toNat < p.tail.toNat
  · right
    obtain ⟨a, ha, hcell⟩ := h.front hlt
    have htail := p.tail.toNat_lt
    refine ⟨a, ha, ?_, ?_⟩
    · unfold Cell at hcell
      rw [if_pos hlt, hcell]
      rfl
    · unfold Window
      simp only [toNat_succ (show p.head.toNat + 1 < 2 ^ 64 by omega)]
      exact RingQueue.Window.pop h ha
  · left
    rw [if_neg hlt]
    exact ⟨by omega, rfl⟩

theorem window_newStreamPool (S : Type) (capacity : UInt32) :
    (newStreamPool S capacity).Window [] [] := RingQueue.Window.empty ..

end Pool

/-! ## The result -/

/-- A FIFO of at most `capacity` streams. -/
structure BoundedFifo (capacity : UInt32) (s : State S) : Prop where
  /-- The streams come out in the order in which they went in, each once. -/
  order : s.popped <+: s.pushed
  head_le : s.pool.head ≤ s.pool.tail
  size : (s.pool.tail - s.pool.head).toNat = s.held.length
  size_le : s.held.length ≤ capacity.toNat
  /-- A `push` fails exactly if `capacity` streams are held. -/
  push : ∀ x, ∃ p err, s.pool.push x = .ok (p, err) ∧
    (err = some .full ↔ s.held.length = capacity.toNat)
  /-- A `pop` returns the oldest stream that is held, `nil` if there is none. -/
  pop : ∃ p, s.pool.pop = .ok (p, s.held.head?)
  no_panic : ∀ x, .panicked x ∉ s.returns

structure Inv (capacity : UInt32) (s : State S) : Prop where
  capacity : s.pool.capacity = capacity
  window : s.pool.Window s.pushed s.popped
  no_panic : ∀ x, .panicked x ∉ s.returns

section Run

variable {capacity : UInt32} {s : State S} {c : Call S}

theorem pushed_concat (p : Pool S) (rs : List (Return S)) (r : Return S) :
    (State.mk p (rs ++ [r])).pushed = rs.filterMap Return.pushed ++ r.pushed.toList := by
  rw [State.pushed, List.filterMap_append]
  cases h : r.pushed <;> simp [h]

theorem popped_concat (p : Pool S) (rs : List (Return S)) (r : Return S) :
    (State.mk p (rs ++ [r])).popped = rs.filterMap Return.popped ++ r.popped.toList := by
  rw [State.popped, List.filterMap_append]
  cases h : r.popped <;> simp [h]

/-- A call that returned, with the ring it left. -/
theorem Inv.concat (h : Inv capacity s) {p : Pool S} {r : Return S} (hcap : p.capacity = s.pool.capacity)
    (hw : p.Window (s.pushed ++ r.pushed.toList) (s.popped ++ r.popped.toList))
    (hr : ∀ x, r ≠ .panicked x) : Inv capacity ⟨p, s.returns ++ [r]⟩ := by
  refine ⟨hcap.trans h.capacity, ?_, fun x hx => ?_⟩
  · rw [pushed_concat, popped_concat]
    exact hw
  · rcases List.mem_append.mp hx with hx | hx
    · exact h.no_panic x hx
    · exact hr x (List.mem_singleton.mp hx).symm

/-- **Step.** -/
theorem inv_step (h : Inv capacity s) (hb : Below s c) : Inv capacity (step s c) := by
  have hw := h.window
  cases c with
  | push x =>
    rcases Pool.push_spec hw x with ⟨-, hpush⟩ | ⟨-, hpush, hwin⟩
    · simp only [step, hpush]
      refine h.concat rfl ?_ fun _ => by simp
      simpa [Return.pushed, Return.popped] using hw
    · simp only [Below, step, hpush] at hb ⊢
      rw [pushed_concat, List.length_append] at hb
      have hlt : s.pool.tail.toNat + 1 < 2 ^ 64 := by
        rw [← RingQueue.Window.length hw]
        exact hb
      refine h.concat rfl ?_ fun _ => by simp
      simpa [Return.pushed, Return.popped] using hwin hlt
  | pop =>
    rcases Pool.pop_spec hw with ⟨-, hpop⟩ | ⟨a, -, hpop, hwin⟩
    · simp only [step, hpop]
      refine h.concat rfl ?_ fun _ => by simp
      simpa [Return.pushed, Return.popped] using hw
    · simp only [step, hpop]
      refine h.concat rfl ?_ fun _ => by simp
      simpa [Return.pushed, Return.popped] using hwin

theorem Inv.boundedFifo (h : Inv capacity s) : BoundedFifo capacity s := by
  have hw : RingQueue.Window s.pool.capacity.toNat s.pool.Cell s.pool.head.toNat s.pool.tail.toNat
    s.pushed s.popped := h.window
  have hle := hw.head_le
  have hmax := hw.tail_le
  have hlen := hw.length
  have hheld : s.held.length = s.pool.tail.toNat - s.pool.head.toNat := by
    rw [State.held, List.length_drop, hw.length_popped, hlen]
  have hhead : s.held.head? = s.pushed[s.pool.head.toNat]? := by
    rw [State.held, List.head?_drop, hw.length_popped]
  have hcap := h.capacity
  constructor
  · exact hw.isPrefix
  · exact UInt64.le_iff_toNat_le.mpr hle
  · rw [Pool.toNat_sub hle, hheld]
  · rw [hheld, ← hcap]
    omega
  · intro x
    rcases Pool.push_spec h.window x with ⟨hfull, hpush⟩ | ⟨hroom, hpush, -⟩
    · refine ⟨_, _, hpush, ⟨fun _ => ?_, fun _ => rfl⟩⟩
      rw [hheld, ← hcap]
      omega
    · refine ⟨_, _, hpush, ⟨fun he => (nomatch he), fun he => ?_⟩⟩
      rw [hheld, ← hcap] at he
      omega
  · rcases Pool.pop_spec h.window with ⟨heq, hpop⟩ | ⟨a, ha, hpop, -⟩
    · refine ⟨s.pool, ?_⟩
      rw [hpop, hhead, List.getElem?_eq_none (by omega)]
    · rw [hhead, ha]
      exact ⟨_, hpop⟩
  · exact h.no_panic

/-- **Run.** -/
theorem inv_reachable (hr : (machine S capacity).ReachableWhen Below s) : Inv capacity s := by
  apply hr.invariant (Inv capacity)
  · rintro s rfl
    exact ⟨rfl, Pool.window_newStreamPool S capacity, fun x hx => (nomatch hx)⟩
  · intro s c t h hb hs
    cases hs
    exact inv_step h hb

/-- **Main theorem.** For every capacity and every sequence of calls in which the counters do not
    wrap around. -/
theorem bounded_fifo (hr : (machine S capacity).ReachableWhen Below s) : BoundedFifo capacity s :=
  (inv_reachable hr).boundedFifo

end Run

instance (s : State S) (c : Call S) : Decidable (Below s c) :=
  inferInstanceAs (Decidable (_ < _))

/-- Five streams through a ring of three cells; a fourth finds it full. -/
theorem bounded_fifo_three_cells :
    ∃ s : State ℕ, (machine ℕ 3).ReachableWhen Below s ∧
      s.pushed = [1, 2, 3, 5, 6] ∧ s.popped = [1, 2] ∧ .push 4 (some .full) ∈ s.returns ∧
      s.pool.streams = [some 5, some 6, some 3] ∧ BoundedFifo 3 s := by
  obtain ⟨s, hr, hin, hout, hfull, hcells⟩ := (machine ℕ 3).exists_reachableWhen_of_run Below
    ⟨newStreamPool ℕ 3, []⟩ [.pop, .push 1, .push 2, .push 3, .push 4, .pop, .pop, .push 5, .push 6]
    (fun s => s.pushed = [1, 2, 3, 5, 6] ∧ s.popped = [1, 2] ∧ .push 4 (some .full) ∈ s.returns ∧
      s.pool.streams = [some 5, some 6, some 3]) rfl (by decide +kernel) (by decide +kernel)
  exact ⟨s, hr, hin, hout, hfull, hcells, bounded_fifo hr⟩

/-! ## The pool's machine -/

section Refinement

open StreamPool (Act Op)

variable {s t : StreamPool.State} {u : State ℕ} {capacity : UInt32}

/-- The array and the counters of the one are those of the other. -/
structure SameRing (s t : StreamPool.State) : Prop where
  ring : t.ring = s.ring
  head : t.head = s.head
  tail : t.tail = s.tail

theorem stepOp_ring {op op' : Op} {ok : Bool} (hs : StreamPool.stepOp s op ok = some (t, op')) :
    SameRing s t ∨ SameRing s.pop.1 t ∨ ∃ k, SameRing (s.push k).1 t := by
  unfold StreamPool.stepOp at hs
  cases hpc : op.pc with
  | isHealthy | closeSession =>
    simp only [hpc] at hs
    cases hs
    exact .inl ⟨rfl, rfl, rfl⟩
  | getPop | closePop =>
    simp only [hpc] at hs
    rcases hp : s.pop with ⟨s', _ | k⟩ <;> simp only [hp] at hs <;> cases hs <;>
      exact .inr (.inl ⟨rfl, rfl, rfl⟩)
  | testOpen k | testFallback k | reset k | putClose k | closeStream k =>
    simp only [hpc] at hs
    obtain ⟨x, -, he⟩ := Option.map_eq_some_iff.mp hs
    cases he
    exact .inl ⟨rfl, rfl, rfl⟩
  | openStream =>
    simp only [hpc] at hs
    split_ifs at hs <;> cases hs <;> exact .inl ⟨rfl, rfl, rfl⟩
  | push k =>
    simp only [hpc] at hs
    cases hs
    exact .inr (.inr ⟨k, rfl, rfl, rfl⟩)
  | returned result =>
    simp only [hpc] at hs
    cases hs

theorem step_ring {a : Act} (hs : StreamPool.step s a = some t) :
    SameRing s t ∨ SameRing s.pop.1 t ∨ ∃ k, SameRing (s.push k).1 t := by
  cases a with
  | get | put k | close | setUnhealthy b =>
    cases hs
    exact .inl ⟨rfl, rfl, rfl⟩
  | op j ok =>
    obtain ⟨op, -, hop⟩ := Option.bind_eq_some_iff.mp hs
    obtain ⟨⟨s', op'⟩, hstep, he⟩ := Option.map_eq_some_iff.mp hop
    cases he
    have hring := stepOp_ring hstep
    exact hring.imp (fun h => ⟨h.ring, h.head, h.tail⟩)
      (Or.imp (fun h => ⟨h.ring, h.head, h.tail⟩) fun ⟨k, h⟩ => ⟨k, h.ring, h.head, h.tail⟩)
  | use k slots unread inFallbackState callbacks callbackInProcess =>
    obtain ⟨x, -, hx⟩ := Option.bind_eq_some_iff.mp hs
    split_ifs at hx
    cases hx
    exact .inl ⟨rfl, rfl, rfl⟩
  | halfClose k | closed k =>
    obtain ⟨x, -, he⟩ := Option.map_eq_some_iff.mp hs
    cases he
    exact .inl ⟨rfl, rfl, rfl⟩

/-- The ring of the pool's machine is that of `u`. -/
structure Ringed (s : StreamPool.State) (u : State ℕ) : Prop where
  ring : s.ring = u.pool.streams
  head : s.head = u.pool.head.toNat
  tail : s.tail = u.pool.tail.toNat

theorem Ringed.pop (h : Ringed s u) (hf : Inv capacity u) :
    Ringed s.pop.1 (step u .pop) ∧ Below u .pop := by
  have hlen := RingQueue.Window.length hf.window
  have hlt := u.pool.tail.toNat_lt
  unfold Below
  simp only [step, Pool.pop_eq hf.window.tail_le]
  refine ⟨?_, ?_⟩
  · unfold StreamPool.State.pop
    rw [h.head, h.tail]
    split_ifs with hpop
    · refine ⟨h.ring, ?_, rfl⟩
      exact (Pool.toNat_succ (by omega)).symm
    · exact ⟨h.ring, h.head, h.tail⟩
  · rw [pushed_concat]
    simp only [Return.pushed, Option.toList_none, List.append_nil]
    exact hlen ▸ hlt

theorem Ringed.push (h : Ringed s u) (hf : Inv capacity u) (k : ℕ)
    (hb : (s.push k).1.tail < 2 ^ 64) :
    Ringed (s.push k).1 (step u (.push k)) ∧ Below u (.push k) := by
  have hlen : u.pushed.length = u.pool.tail.toNat := RingQueue.Window.length hf.window
  unfold Below
  simp only [step, Pool.push_eq hf.window.head_le]
  unfold StreamPool.State.push at hb ⊢
  rw [h.ring, h.head, h.tail, u.pool.length_streams] at hb ⊢
  rw [pushed_concat, List.length_append]
  split_ifs at hb ⊢ with hroom
  · refine ⟨⟨rfl, rfl, (Pool.toNat_succ hb).symm⟩, ?_⟩
    show u.pushed.length + 1 < 2 ^ 64
    rw [hlen]
    exact hb
  · refine ⟨⟨h.ring, h.head, h.tail⟩, ?_⟩
    show u.pushed.length < 2 ^ 64
    rw [hlen]
    exact u.pool.tail.toNat_lt

theorem Ringed.of_same (h : Ringed s u) (hs : SameRing s t) : Ringed t u :=
  ⟨hs.ring.trans h.ring, hs.head.trans h.head, hs.tail.trans h.tail⟩

/-- **Refinement.** Along every run of the pool's machine the ring is one that `push` and `pop`
    calls lead to. -/
theorem ring_refines
    (hr : (StreamPool.machine capacity.toNat).ReachableWhen
      (fun s a => ∀ t, StreamPool.step s a = some t → t.tail < 2 ^ 64) s) :
    ∃ u, (machine ℕ capacity).ReachableWhen Below u ∧ Ringed s u := by
  refine hr.invariant (fun s => ∃ u, (machine ℕ capacity).ReachableWhen Below u ∧ Ringed s u) ?_ ?_
  · rintro s rfl
    exact ⟨_, .init rfl, rfl, rfl, rfl⟩
  · rintro s a t ⟨u, hu, h⟩ hb hs
    have hf := inv_reachable hu
    rcases step_ring hs with hsame | hsame | ⟨k, hsame⟩
    · exact ⟨u, hu, h.of_same hsame⟩
    · obtain ⟨h', hbelow⟩ := h.pop hf
      exact ⟨step u .pop, hu.step hbelow rfl, h'.of_same hsame⟩
    · obtain ⟨h', hbelow⟩ := h.push hf k (hsame.tail ▸ hb t hs)
      exact ⟨step u (.push k), hu.step hbelow rfl, h'.of_same hsame⟩

end Refinement

end Shmipc.PoolRing
