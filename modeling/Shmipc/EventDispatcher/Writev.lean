import Shmipc.Buffer.Slice
import Shmipc.Common.Trans

/-!
# `writev` over partial writes

`connEventHandler.writev` (event_dispatcher_linux.go:79-92) writes a list of slices in batches
of at most 256. `doWritev` (94-137) fills the connection's array of vectors from the slices of
its batch and submits what is left of it until nothing is: the kernel takes any number of bytes
off the front, and the vectors that it took whole are skipped, the one in which it stopped is
cut in place.

A step is one round of the loop of `doWritev`: the load of `isClose`, the system call and what
follows it up to the next round or the return. What the kernel takes is read through the
vectors it was given, not from the slices.

Results:
* `ackLoop_spec`: the vectors left after `n` bytes stand for the bytes left.
* `inv_reachable`: in every run, also one that ends with an error, what the kernel has taken and
  what the vectors and the batches to come stand for make up the slices.
* `writev_exact`: under partial writes and `EAGAIN`s the kernel takes the slices in order, and
  `nil` is returned with the last byte.
* `writev_failed`: what a call that fails has written.
-/

namespace Shmipc.EventDispatcher

open Common
open Buffer (Go Panic)

/-! ## The vectors -/

/-- `syscall.Iovec`: `Base` points to byte `off` of slice `slice` of the data of `writev`. -/
structure Iovec where
  slice : ℕ
  off : ℕ
  len : ℕ
  deriving DecidableEq, Repr

/-- `[256]syscall.Iovec`. -/
structure Iovecs where
  vecs : List Iovec
  length_vecs : vecs.length = 256

def Iovecs.set (v : Iovecs) (i : ℕ) (x : Iovec) : Iovecs :=
  ⟨v.vecs.set i x, by rw [List.length_set]; exact v.length_vecs⟩

/-- The loop that fills the vectors (95-101) from the slices at index `i` and after it; `first`
    is the number of the batch's first slice. -/
def fill (first : ℕ) : List (List UInt8) → ℕ → Iovecs → Go (Iovecs × ℕ)
  | [], i, v => .ok (v, i)
  | d :: ds, i, v =>
    if i < v.vecs.length then
      -- `&data[i][0]`
      if d.length = 0 then .error .indexOutOfRange
      else fill first ds (i + 1) (v.set i ⟨first + i, 0, d.length⟩)
    else .ok (v, i)

/-- The bytes a vector points to, if they are of its slice. -/
def Iovec.read (data : List (List UInt8)) (v : Iovec) : Option (List UInt8) :=
  data[v.slice]?.bind fun d =>
    if v.off + v.len ≤ d.length then some ((d.drop v.off).take v.len) else none

/-- What the kernel finds in the vectors it is given. -/
def gather (data : List (List UInt8)) : List Iovec → Option (List UInt8)
  | [] => some []
  | v :: vs => do
    let b ← v.read data
    let bs ← gather data vs
    return b ++ bs

/-- The variables of the loop that follows a system call; `touched` are the indexes at which
    it has accessed the vectors. -/
structure Ack where
  ioves : Iovecs
  writtenVec : ℕ
  needSubmitIovecLen : ℤ
  touched : List ℕ := []

/-- The loop after a system call (122-132), with `writtenSize` bytes to go. `batch` is the data
    of `doWritev`. -/
def ackLoop (first : ℕ) (batch : List (List UInt8)) : ℕ → Ack → ℕ → Go Ack
  | _, a, 0 => .ok a
  | 0, _, _ + 1 => .error .endlessLoop
  | k + 1, a, writtenSize + 1 =>
    match a.ioves.vecs[a.writtenVec]? with
    | none => .error .indexOutOfRange
    | some v =>
      if writtenSize + 1 ≥ v.len then
        ackLoop first batch k
          { a with
            writtenVec := a.writtenVec + 1
            needSubmitIovecLen := a.needSubmitIovecLen - 1
            touched := a.touched ++ [a.writtenVec] }
          (writtenSize + 1 - v.len)
      else
        let len := v.len - (writtenSize + 1)
        match batch[a.writtenVec]? with
        | none => .error .indexOutOfRange
        | some d =>
          -- `startOff` wraps around if the vector is longer than its slice
          if 0 < len ∧ len ≤ d.length then
            .ok { a with
              ioves := a.ioves.set a.writtenVec ⟨first + a.writtenVec, d.length - len, len⟩
              touched := a.touched ++ [a.writtenVec] }
          else .error .indexOutOfRange

/-! ## The machine -/

inductive Errno
  | epipe
  | other (code : ℕ)
  deriving DecidableEq, Repr

/-- Where `writev` is. -/
inductive Pc
  /-- In a round of the loop of `doWritev`, with `submitted` slices in its batch. -/
  | syscall (submitted writtenVec : ℕ) (needSubmitIovecLen : ℤ)
  | returned (err : Option Errno)
  | panicked (p : Panic)
  /-- The kernel was given bytes that are not of the slices. -/
  | stray
  /-- `writev` calls `doWritev` for an empty batch, again and again. -/
  | endless
  deriving DecidableEq

structure State where
  /-- `c.ioves`. -/
  ioves : Iovecs
  /-- The variable of `writev`: the slices of the batches that are written. -/
  writtenSliceNum : ℕ
  pc : Pc
  /-- The bytes the kernel has taken, in order. -/
  accepted : List UInt8
  /-- The accesses to the vectors after system calls: the index, and how many vectors the batch
      has. -/
  touched : List (ℕ × ℕ)

/-- A round: what the load of `isClose` or the system call gives. -/
inductive Answer
  /-- `isClose` is 1. -/
  | closed
  /-- `EAGAIN`, and then something on `onWriteReadyCh`. -/
  | eagain
  | wrote (n : ℕ)
  | failed (e : Errno)
  deriving DecidableEq, Repr

/-- The kernel answers with `EAGAIN`, or takes at least one byte. -/
def Answer.Proceeds : Answer → Prop
  | .eagain => True
  | .wrote n => 1 ≤ n
  | .closed | .failed _ => False

instance : DecidablePred Answer.Proceeds
  | .eagain => isTrue trivial
  | .wrote n => inferInstanceAs (Decidable (1 ≤ n))
  | .closed | .failed _ => isFalse id

/-- The loop of `writev`: the next batch, or the return. -/
def State.next (data : List (List UInt8)) (s : State) : State :=
  if s.writtenSliceNum < data.length then
    match fill s.writtenSliceNum (data.drop s.writtenSliceNum) 0 s.ioves with
    | .error x => { s with pc := .panicked x }
    | .ok (v, n) =>
      if 0 < n then { s with ioves := v, pc := .syscall n 0 n } else { s with pc := .endless }
  else { s with pc := .returned none }

/-- After the acknowledgement: the next round, or the return of `doWritev`. -/
def State.acked (data : List (List UInt8)) (s : State) (submitted : ℕ) (a : Ack) : State :=
  let s := { s with
    ioves := a.ioves
    touched := s.touched ++ a.touched.map fun i => (i, submitted) }
  if 0 < a.needSubmitIovecLen then
    { s with pc := .syscall submitted a.writtenVec a.needSubmitIovecLen }
  else State.next data { s with writtenSliceNum := s.writtenSliceNum + submitted }

/-- The kernel takes the first `n` of the bytes `bs` that it is given. -/
def State.wrote (data : List (List UInt8)) (s : State) (submitted writtenVec : ℕ) (need : ℤ)
    (bs : List UInt8) (n : ℕ) : State :=
  let s := { s with accepted := s.accepted ++ bs.take n }
  match ackLoop s.writtenSliceNum (data.drop s.writtenSliceNum) (s.ioves.vecs.length + 1)
      ⟨s.ioves, writtenVec, need, []⟩ n with
  | .error x => { s with pc := .panicked x }
  | .ok a => s.acked data submitted a

/-- What the kernel is offered in a round. -/
def State.offered (data : List (List UInt8)) (s : State) (writtenVec : ℕ) (need : ℤ) :
    Option (List UInt8) :=
  gather data ((s.ioves.vecs.drop writtenVec).take need.toNat)

def step (data : List (List UInt8)) (s : State) (a : Answer) : Option State :=
  match s.pc with
  | .syscall submitted writtenVec need =>
    match a with
    | .closed => some { s with pc := .returned (some .epipe) }
    | .eagain => some s
    | .failed e => some { s with pc := .returned (some e) }
    | .wrote n =>
      match s.offered data writtenVec need with
      | none => some { s with pc := .stray }
      | some bs =>
        if n ≤ bs.length then some (s.wrote data submitted writtenVec need bs n) else none
  | .returned _ | .panicked _ | .stray | .endless => none

/-- A call on a connection whose vectors are left as earlier calls left them. -/
def initial (data : List (List UInt8)) (ioves : Iovecs) : State :=
  State.next data ⟨ioves, 0, .endless, [], []⟩

def machine (data : List (List UInt8)) (ioves : Iovecs) : Sys State Answer where
  init s := s = initial data ioves
  next := step data

/-! ## What vectors stand for -/

/-- Vectors for whole slices, the first of them slice `j`. -/
def whole (j : ℕ) : List (List UInt8) → List Iovec
  | [] => []
  | d :: ds => ⟨j, 0, d.length⟩ :: whole (j + 1) ds

/-- The vectors from `w` on, of a batch of `sub` slices from slice `first` on, stand for
    `bytes`: the first of them for the end of its slice, the others for whole slices. -/
inductive Stands (data : List (List UInt8)) (first sub : ℕ) (v : Iovecs) :
    ℕ → List UInt8 → Prop
  | done : Stands data first sub v sub []
  | vec {w off : ℕ} {d : List UInt8} {front ds later : List (List UInt8)}
      {before after : List Iovec} :
      data = front ++ d :: (ds ++ later) → front.length = first + w →
      v.vecs = before ++ ⟨first + w, off, d.length - off⟩ :: (whole (first + w + 1) ds ++ after) →
      before.length = w → w + 1 + ds.length = sub → off < d.length →
      Stands data first sub v w (d.drop off ++ ds.flatten)

section Vectors

@[simp] theorem Iovecs.vecs_set (v : Iovecs) (i : ℕ) (x : Iovec) :
    (v.set i x).vecs = v.vecs.set i x := rfl

variable {data front ds later : List (List UInt8)} {before after : List Iovec} {d bytes : List UInt8}
  {first sub w off n : ℕ} {v : Iovecs}

/-- **`fill`** makes vectors for as many slices as there is room for. -/
theorem fill_spec (first : ℕ) : ∀ (ds : List (List UInt8)) (i : ℕ) (v : Iovecs), i ≤ 256 →
    (∀ d ∈ ds, d ≠ []) →
    ∃ v' after, fill first ds i v = .ok (v', i + min ds.length (256 - i)) ∧
      v'.vecs = v.vecs.take i ++ (whole (first + i) (ds.take (256 - i)) ++ after) := by
  intro ds
  induction ds with
  | nil =>
    intro i v _ _
    refine ⟨v, v.vecs.drop i, ?_, ?_⟩
    · rw [fill, List.length_nil, Nat.zero_min, Nat.add_zero]
    · rw [List.take_nil, whole, List.nil_append, List.take_append_drop]
  | cons d ds ih =>
    intro i v hi hne
    rw [List.forall_mem_cons] at hne
    have hd : d.length ≠ 0 := fun h => hne.1 (List.eq_nil_of_length_eq_zero h)
    have hlen := v.length_vecs
    by_cases hroom : i < 256
    · obtain ⟨v', after, hfill, hv'⟩ := ih (i + 1) (v.set i ⟨first + i, 0, d.length⟩) hroom hne.2
      have hmin : min (d :: ds).length (256 - i) = 1 + min ds.length (256 - (i + 1)) := by
        rw [List.length_cons]
        omega
      have htake : (v.set i ⟨first + i, 0, d.length⟩).vecs.take (i + 1) =
          v.vecs.take i ++ [⟨first + i, 0, d.length⟩] := by
        rw [Iovecs.vecs_set, List.take_add_one, List.take_set_of_le le_rfl,
          List.getElem?_set_self (by omega)]
        rfl
      refine ⟨v', after, ?_, ?_⟩
      · rw [fill, if_pos (by omega), if_neg hd, hfill, hmin, Nat.add_assoc]
      · rw [hv', htake, show 256 - i = 256 - (i + 1) + 1 by omega, List.take_succ_cons, whole,
          List.append_assoc, Nat.add_assoc]
        rfl
    · obtain rfl : i = 256 := by omega
      refine ⟨v, [], ?_, ?_⟩
      · rw [fill, if_neg (by omega), Nat.sub_self, Nat.min_zero, Nat.add_zero]
      · rw [Nat.sub_self, List.take_zero, whole, List.append_nil, List.append_nil,
          List.take_of_length_le hlen.le]

theorem getElem?_append_cons {α : Type*} {l r : List α} {x : α} {i : ℕ} (h : l.length = i) :
    (l ++ x :: r)[i]? = some x := by
  rw [← h, List.getElem?_append_right le_rfl, Nat.sub_self]
  rfl

theorem gather_whole (later : List (List UInt8)) (after : List Iovec) : ∀ (ds front : List (List UInt8)),
    gather (front ++ (ds ++ later)) ((whole front.length ds ++ after).take ds.length) =
      some ds.flatten := by
  intro ds
  induction ds with
  | nil => intro front; rfl
  | cons d ds ih =>
    intro front
    have hrest := ih (front ++ [d])
    rw [List.length_append, List.append_assoc] at hrest
    have hd : (front ++ d :: (ds ++ later))[front.length]? = some d := getElem?_append_cons rfl
    rw [whole, List.cons_append, List.cons_append, List.length_cons, List.take_succ_cons, gather,
      Iovec.read, hd]
    simp only [Option.bind_some, Nat.zero_add, le_refl, if_true, List.drop_zero, List.take_length]
    exact congrArg (Option.bind · fun bs => some (d ++ bs)) hrest

theorem Stands.le (h : Stands data first sub v w bytes) : w ≤ sub := by
  cases h with
  | done => exact le_rfl
  | vec _ _ _ _ hsub => omega

theorem Stands.eq_nil_iff (h : Stands data first sub v w bytes) : bytes = [] ↔ w = sub := by
  cases h with
  | done => exact ⟨fun _ => rfl, fun _ => rfl⟩
  | vec _ _ _ _ hsub hoff =>
    refine ⟨fun he => ?_, fun he => by omega⟩
    have := congrArg List.length he
    simp only [List.length_append, List.length_drop, List.length_nil] at this
    omega

theorem Stands.gather (h : Stands data first sub v w bytes) :
    gather data ((v.vecs.drop w).take (sub - w)) = some bytes := by
  cases h with
  | done => rw [Nat.sub_self, List.take_zero]; rfl
  | @vec _ off d front ds later before after hdata hfront hvecs hbefore hsub hoff =>
    have hd : data[first + w]? = some d := by rw [hdata]; exact getElem?_append_cons hfront
    have hrest := gather_whole later after ds (front ++ [d])
    rw [List.length_append, hfront, List.append_assoc] at hrest
    rw [hvecs, List.drop_left' hbefore, show sub - w = ds.length + 1 by omega, List.take_succ_cons,
      EventDispatcher.gather, Iovec.read, hd]
    simp only [Option.bind_some]
    rw [if_pos (by omega), List.take_of_length_le (by rw [List.length_drop]), hdata]
    exact congrArg (Option.bind · fun bs => some (d.drop off ++ bs)) hrest

theorem Stands.of_whole (hne : ∀ d ∈ data, d ≠ []) (hdata : data = front ++ (ds ++ later))
    (hfront : front.length = first + w) (hvecs : v.vecs = before ++ (whole (first + w) ds ++ after))
    (hbefore : before.length = w) (hsub : w + ds.length = sub) :
    Stands data first sub v w ds.flatten := by
  cases ds with
  | nil =>
    obtain rfl : w = sub := hsub
    exact .done
  | cons d ds =>
    have hd : d ≠ [] := hne d (by rw [hdata]; simp)
    rw [List.length_cons] at hsub
    show Stands data first sub v w (d.drop 0 ++ ds.flatten)
    exact .vec hdata hfront hvecs hbefore (by omega) (List.length_pos_iff.mpr hd)

theorem Stands.tail (hne : ∀ d ∈ data, d ≠ []) (hdata : data = front ++ d :: (ds ++ later))
    (hfront : front.length = first + w)
    (hvecs : v.vecs = before ++ ⟨first + w, off, d.length - off⟩ ::
      (whole (first + w + 1) ds ++ after))
    (hbefore : before.length = w) (hsub : w + 1 + ds.length = sub) :
    Stands data first sub v (w + 1) ds.flatten := by
  rw [List.append_cons] at hdata hvecs
  refine .of_whole hne hdata ?_ hvecs ?_ hsub
  · rw [List.length_append, hfront]
    rfl
  · rw [List.length_append, hbefore]
    rfl

theorem Stands.cut (hdata : data = front ++ d :: (ds ++ later)) (hfront : front.length = first + w)
    (hvecs : v.vecs = before ++ ⟨first + w, off, d.length - off⟩ ::
      (whole (first + w + 1) ds ++ after))
    (hbefore : before.length = w) (hsub : w + 1 + ds.length = sub) (hn : off + n < d.length) :
    Stands data first sub
      (v.set w ⟨first + w, d.length - (d.length - off - n), d.length - off - n⟩) w
      (d.drop (off + n) ++ ds.flatten) := by
  have hset : (v.set w ⟨first + w, d.length - (d.length - off - n), d.length - off - n⟩).vecs =
      before ++ ⟨first + w, off + n, d.length - (off + n)⟩ ::
        (whole (first + w + 1) ds ++ after) := by
    rw [Iovecs.vecs_set, hvecs, ← hbefore, List.set_append_right _ _ le_rfl, Nat.sub_self,
      List.set_cons_zero, show d.length - (d.length - off - n) = off + n by omega, Nat.sub_sub]
  exact .vec hdata hfront hset hbefore hsub hn

/-- **The loop after a system call.** With `n` bytes taken, the vectors stand for the rest, and
    only vectors of the batch were accessed. -/
theorem ackLoop_spec (hne : ∀ d ∈ data, d ≠ []) : ∀ (k : ℕ) (a : Ack) (bytes : List UInt8) (n : ℕ),
    Stands data first sub a.ioves a.writtenVec bytes → n ≤ bytes.length →
    sub - a.writtenVec < k → a.needSubmitIovecLen = sub - a.writtenVec → (∀ i ∈ a.touched, i < sub) →
    ∃ a', ackLoop first (data.drop first) k a n = .ok a' ∧
      Stands data first sub a'.ioves a'.writtenVec (bytes.drop n) ∧
      a'.needSubmitIovecLen = sub - a'.writtenVec ∧ ∀ i ∈ a'.touched, i < sub := by
  intro k
  induction k with
  | zero => intro a bytes n _ _ hk; exact absurd hk (Nat.not_lt_zero _)
  | succ k ih =>
    intro a bytes n h hn hk hneed htouched
    cases n with
    | zero => exact ⟨a, rfl, h, hneed, htouched⟩
    | succ n =>
      obtain ⟨v, w, need, touched⟩ := a
      simp only [] at h hk hneed htouched
      cases h with
      | done => exact absurd hn (Nat.not_succ_le_zero n)
      | @vec _ off d front ds later before after hdata hfront hvecs hbefore hsub hoff =>
        have hvec : v.vecs[w]? = some ⟨first + w, off, d.length - off⟩ := by
          rw [hvecs]
          exact getElem?_append_cons hbefore
        have htouched' : ∀ i ∈ touched ++ [w], i < sub := by
          intro i hi
          rcases List.mem_append.mp hi with hi | hi
          · exact htouched i hi
          · rw [List.mem_singleton.mp hi]
            omega
        rw [List.length_append, List.length_drop] at hn
        rw [ackLoop]
        simp only [hvec]
        by_cases hge : n + 1 ≥ d.length - off
        · have hrest := Stands.tail hne hdata hfront hvecs hbefore hsub
          obtain ⟨a', hrun, hstands, hneed', ht'⟩ := ih ⟨v, w + 1, need - 1, touched ++ [w]⟩ ds.flatten
            (n + 1 - (d.length - off)) hrest (by omega) (by simp only []; omega)
            (by simp only []; omega) htouched'
          refine ⟨a', ?_, ?_, hneed', ht'⟩
          · rw [if_pos hge]
            exact hrun
          · rw [List.drop_append, List.drop_of_length_le (by rw [List.length_drop]; omega),
              List.length_drop]
            exact hstands
        · have hd : (data.drop first)[w]? = some d := by
            rw [List.getElem?_drop, hdata]
            exact getElem?_append_cons hfront
          refine ⟨⟨v.set w ⟨first + w, d.length - (d.length - off - (n + 1)), d.length - off - (n + 1)⟩,
            w, need, touched ++ [w]⟩, ?_, ?_, hneed, htouched'⟩
          · rw [if_neg hge]
            simp only [hd]
            rw [if_pos (by omega)]
          · have hcut := Stands.cut (n := n + 1) hdata hfront hvecs hbefore hsub (by omega)
            rw [List.drop_append_of_le_length (by rw [List.length_drop]; omega), List.drop_drop]
            exact hcut

end Vectors

/-! ## The invariant -/

/-- In a round in which the vectors stand for `bytes`: the bytes taken, these and the batches to
    come are the slices. -/
structure Round (data : List (List UInt8)) (s : State) (sub w : ℕ) (need : ℤ) (bytes : List UInt8) :
    Prop where
  sub_le : sub ≤ 256
  fits : s.writtenSliceNum + sub ≤ data.length
  more : w < sub
  need_eq : need = sub - w
  stands : Stands data s.writtenSliceNum sub s.ioves w bytes
  rest : s.accepted ++ (bytes ++ (data.drop (s.writtenSliceNum + sub)).flatten) = data.flatten

/-- What holds at `pc`; `fails` says whether the connection may be closed or the call fail. -/
def PcOk (fails : Prop) (data : List (List UInt8)) (s : State) : Pc → Prop
  | .syscall sub w need => ∃ bytes, Round data s sub w need bytes
  | .returned none => s.accepted = data.flatten
  | .returned (some _) => fails ∧ s.accepted <+: data.flatten ∧ s.accepted ≠ data.flatten
  | .panicked _ | .stray | .endless => False

structure Inv (fails : Prop) (data : List (List UInt8)) (s : State) : Prop where
  pc : PcOk fails data s s.pc
  touched : ∀ p ∈ s.touched, p.1 < p.2 ∧ p.2 ≤ 256

section Invariant

variable {fails : Prop} {data : List (List UInt8)} {s t : State} {sub w n : ℕ} {need : ℤ}
  {bytes : List UInt8}

/-- The kernel is offered what the vectors stand for. -/
theorem Round.offered (h : Round data s sub w need bytes) :
    s.offered data w need = some bytes := by
  rw [State.offered, h.need_eq, show ((sub : ℤ) - w).toNat = sub - w by omega]
  exact h.stands.gather

theorem Round.ne_nil (h : Round data s sub w need bytes) : bytes ≠ [] :=
  fun he => h.more.ne (h.stands.eq_nil_iff.mp he)

theorem Round.isPrefix (h : Round data s sub w need bytes) :
    s.accepted ++ bytes <+: data.flatten := by
  rw [← h.rest, ← List.append_assoc]
  exact List.prefix_append ..

/-- The kernel has not taken everything. -/
theorem Round.not_all (h : Round data s sub w need bytes) :
    s.accepted <+: data.flatten ∧ s.accepted ≠ data.flatten := by
  have hpre := h.isPrefix
  refine ⟨(List.prefix_append ..).trans hpre, fun he => h.ne_nil ?_⟩
  have hle := hpre.length_le
  rw [← he, List.length_append] at hle
  exact List.eq_nil_of_length_eq_zero (by omega)

/-- **Step.** The next batch. -/
theorem inv_next (hne : ∀ d ∈ data, d ≠ [])
    (hrest : s.accepted ++ (data.drop s.writtenSliceNum).flatten = data.flatten)
    (ht : ∀ p ∈ s.touched, p.1 < p.2 ∧ p.2 ≤ 256) : Inv fails data (s.next data) := by
  unfold State.next
  by_cases hmore : s.writtenSliceNum < data.length
  · obtain ⟨v, after, hfill, hv⟩ := fill_spec s.writtenSliceNum (data.drop s.writtenSliceNum) 0
      s.ioves (Nat.zero_le _) fun d hd => hne d (List.mem_of_mem_drop hd)
    rw [Nat.zero_add, Nat.sub_zero] at hfill
    rw [Nat.add_zero, Nat.sub_zero, List.take_zero, List.nil_append] at hv
    have hlen : (data.drop s.writtenSliceNum).length = data.length - s.writtenSliceNum :=
      List.length_drop
    -- the number of slices of the batch
    generalize hk : min (data.drop s.writtenSliceNum).length 256 = k at hfill
    have htake : (data.drop s.writtenSliceNum).take 256 = (data.drop s.writtenSliceNum).take k := by
      rw [← hk, min_comm, ← List.take_take, List.take_length]
    rw [if_pos hmore, hfill]
    simp only []
    rw [if_pos (by omega)]
    refine ⟨⟨((data.drop s.writtenSliceNum).take k).flatten, ?_⟩, ht⟩
    refine ⟨by omega, by simp only []; omega, by omega, by simp, ?_, ?_⟩
    · have hdata : data = data.take s.writtenSliceNum ++
          ((data.drop s.writtenSliceNum).take k ++ (data.drop s.writtenSliceNum).drop k) := by
        rw [List.take_append_drop, List.take_append_drop]
      have hvecs : v.vecs = [] ++ (whole s.writtenSliceNum ((data.drop s.writtenSliceNum).take k) ++
          after) := htake ▸ hv
      refine .of_whole hne hdata (List.length_take_of_le hmore.le) hvecs rfl ?_
      rw [List.length_take]
      omega
    · rw [← List.drop_drop, ← List.flatten_append, List.take_append_drop]
      exact hrest
  · rw [if_neg hmore]
    rw [List.drop_of_length_le (by omega), List.flatten_nil, List.append_nil] at hrest
    exact ⟨hrest, ht⟩

/-- **Step.** After an acknowledgement. -/
theorem inv_acked {a : Ack} (hne : ∀ d ∈ data, d ≠ []) (hsub : sub ≤ 256)
    (hfit : s.writtenSliceNum + sub ≤ data.length)
    (h : Stands data s.writtenSliceNum sub a.ioves a.writtenVec bytes)
    (hneed : a.needSubmitIovecLen = sub - a.writtenVec)
    (hrest : s.accepted ++ (bytes ++ (data.drop (s.writtenSliceNum + sub)).flatten) = data.flatten)
    (ht : ∀ p ∈ s.touched, p.1 < p.2 ∧ p.2 ≤ 256) (hta : ∀ i ∈ a.touched, i < sub) :
    Inv fails data (s.acked data sub a) := by
  have hle := h.le
  have htouched : ∀ p ∈ s.touched ++ a.touched.map fun i => (i, sub), p.1 < p.2 ∧ p.2 ≤ 256 := by
    intro p hp
    rcases List.mem_append.mp hp with hp | hp
    · exact ht p hp
    · obtain ⟨i, hi, rfl⟩ := List.mem_map.mp hp
      exact ⟨hta i hi, hsub⟩
  unfold State.acked
  simp only []
  by_cases hmore : 0 < a.needSubmitIovecLen
  · rw [if_pos hmore]
    exact ⟨⟨bytes, hsub, hfit, by omega, hneed, h, hrest⟩, htouched⟩
  · have hnil : bytes = [] := h.eq_nil_iff.mpr (by omega)
    rw [hnil, List.nil_append] at hrest
    rw [if_neg hmore]
    exact inv_next hne hrest htouched

theorem accepted_next (data : List (List UInt8)) (s : State) :
    (s.next data).accepted = s.accepted := by
  unfold State.next
  split
  · split
    · rfl
    · split <;> rfl
  · rfl

theorem accepted_acked (data : List (List UInt8)) (s : State) (sub : ℕ) (a : Ack) :
    (s.acked data sub a).accepted = s.accepted := by
  unfold State.acked
  simp only []
  split
  · rfl
  · exact accepted_next ..

/-- The kernel takes the first `n` bytes of what it is offered, and that is acknowledged. -/
theorem Round.wrote_eq (hne : ∀ d ∈ data, d ≠ []) (h : Round data s sub w need bytes)
    (hn : n ≤ bytes.length) :
    ∃ a, s.wrote data sub w need bytes n =
        State.acked data { s with accepted := s.accepted ++ bytes.take n } sub a ∧
      Stands data s.writtenSliceNum sub a.ioves a.writtenVec (bytes.drop n) ∧
      a.needSubmitIovecLen = sub - a.writtenVec ∧ ∀ i ∈ a.touched, i < sub := by
  have hlen := s.ioves.length_vecs
  have hsub := h.sub_le
  obtain ⟨a, hrun, hstands, hneed, hta⟩ := ackLoop_spec hne (s.ioves.vecs.length + 1)
    ⟨s.ioves, w, need, []⟩ bytes n h.stands hn (by simp only []; omega) h.need_eq (by simp)
  refine ⟨a, ?_, hstands, hneed, hta⟩
  unfold State.wrote
  simp only [hrun]

/-- **Step.** -/
theorem inv_wrote (hne : ∀ d ∈ data, d ≠ []) (h : Round data s sub w need bytes)
    (ht : ∀ p ∈ s.touched, p.1 < p.2 ∧ p.2 ≤ 256) (hn : n ≤ bytes.length) :
    Inv fails data (s.wrote data sub w need bytes n) := by
  obtain ⟨a, heq, hstands, hneed, hta⟩ := h.wrote_eq hne hn
  have hrest := h.rest
  rw [← List.take_append_drop n bytes, List.append_assoc, ← List.append_assoc s.accepted] at hrest
  rw [heq]
  exact inv_acked hne h.sub_le h.fits hstands hneed hrest ht hta

theorem Round.accepted_wrote (hne : ∀ d ∈ data, d ≠ []) (h : Round data s sub w need bytes)
    (hn : n ≤ bytes.length) :
    (s.wrote data sub w need bytes n).accepted = s.accepted ++ bytes.take n := by
  obtain ⟨a, heq, -⟩ := h.wrote_eq hne hn
  rw [heq]
  exact accepted_acked ..

/-- **Step.** -/
theorem inv_step {a : Answer} (hne : ∀ d ∈ data, d ≠ []) (h : Inv fails data s)
    (hok : a.Proceeds ∨ fails) (hs : step data s a = some t) : Inv fails data t := by
  have hpc := h.pc
  unfold step at hs
  cases hcase : s.pc with
  | syscall sub w need =>
    rw [hcase] at hpc hs
    obtain ⟨bytes, hround⟩ := hpc
    cases a with
    | closed | failed e =>
      cases hs
      exact ⟨⟨hok.resolve_left id, hround.not_all⟩, h.touched⟩
    | eagain =>
      cases hs
      exact h
    | wrote n =>
      simp only [hround.offered] at hs
      split_ifs at hs with hn
      cases hs
      exact inv_wrote hne hround h.touched hn
  | returned _ | panicked _ | stray | endless =>
    rw [hcase] at hs
    cases hs

/-- **Run.** -/
theorem inv_reachable {ioves : Iovecs} (hne : ∀ d ∈ data, d ≠ [])
    (hr : (machine data ioves).ReachableWhen (fun _ a => a.Proceeds ∨ fails) s) : Inv fails data s := by
  apply hr.invariant (Inv fails data)
  · rintro s rfl
    refine inv_next hne ?_ ?_
    · rfl
    · intro p hp
      cases hp
  · intro s a t h hok hs
    exact inv_step hne h hok hs

end Invariant

/-! ## The result -/

/-- What `writev` has done and can do in a state. -/
structure Exact (data : List (List UInt8)) (s : State) : Prop where
  /-- The kernel has taken the first bytes of the slices, in order. -/
  taken : s.accepted <+: data.flatten
  /-- `nil` is returned after the last byte, and not before. -/
  returned : s.pc = .returned none ↔ s.accepted = data.flatten
  /-- Before that, a system call offers more of the slices in vectors of the batch, and the call
      goes on after any answer. -/
  offers : s.accepted ≠ data.flatten → ∃ sub w need bytes, s.pc = .syscall sub w need ∧
    w + need = sub ∧ 0 < need ∧ sub ≤ 256 ∧ s.offered data w need = some bytes ∧ bytes ≠ [] ∧
    s.accepted ++ bytes <+: data.flatten ∧ step data s .eagain = some s ∧
    ∀ n ≤ bytes.length, ∃ t, step data s (.wrote n) = some t ∧
      t.accepted = s.accepted ++ bytes.take n
  /-- The index is inside the batch at every access. -/
  index : ∀ p ∈ s.touched, p.1 < p.2 ∧ p.2 ≤ 256

section Result

variable {data : List (List UInt8)} {ioves : Iovecs} {s : State}

/-- A round in which the kernel has not taken everything. -/
theorem Round.exact {sub w : ℕ} {need : ℤ} {bytes : List UInt8} (hne : ∀ d ∈ data, d ≠ [])
    (h : Round data s sub w need bytes) (hpc : s.pc = .syscall sub w need)
    (ht : ∀ p ∈ s.touched, p.1 < p.2 ∧ p.2 ≤ 256) : Exact data s where
  taken := h.not_all.1
  returned := by
    rw [hpc]
    exact ⟨fun he => (nomatch he), fun he => absurd he h.not_all.2⟩
  offers _ := by
    have hmore := h.more
    have hneed := h.need_eq
    refine ⟨sub, w, need, bytes, hpc, by omega, by omega, h.sub_le, h.offered, h.ne_nil, h.isPrefix,
      ?_, fun n hn => ⟨s.wrote data sub w need bytes n, ?_, ?_⟩⟩
    · rw [step, hpc]
    · simp only [step, hpc, h.offered]
      rw [if_pos hn]
    · exact h.accepted_wrote hne hn
  index := ht

/-- **Main theorem.** For any slices that are not empty, any contents that earlier calls left in
    the vectors, and any partial writes and `EAGAIN`s. -/
theorem writev_exact (hne : ∀ d ∈ data, d ≠ [])
    (hr : (machine data ioves).ReachableWhen (fun _ a => a.Proceeds) s) : Exact data s := by
  have hr' : (machine data ioves).ReachableWhen (fun _ a => a.Proceeds ∨ False) s := by
    simpa only [or_false] using hr
  have hinv := inv_reachable hne hr'
  have hpc := hinv.pc
  cases hcase : s.pc with
  | syscall sub w need =>
    rw [hcase] at hpc
    obtain ⟨bytes, hround⟩ := hpc
    exact hround.exact hne hcase hinv.touched
  | returned err =>
    rw [hcase] at hpc
    cases err with
    | none =>
      have hall : s.accepted = data.flatten := hpc
      exact ⟨hall ▸ List.prefix_refl _, ⟨fun _ => hall, fun _ => hcase⟩, fun h => absurd hall h,
        hinv.touched⟩
    | some e => exact hpc.1.elim
  | panicked _ | stray | endless =>
    rw [hcase] at hpc
    exact hpc.elim

/-- A call that fails has written a proper beginning of the slices, and none panics. -/
theorem writev_failed (hne : ∀ d ∈ data, d ≠ []) (hr : (machine data ioves).Reachable s) :
    (∀ e, s.pc = .returned (some e) → s.accepted <+: data.flatten ∧ s.accepted ≠ data.flatten) ∧
      ∀ x, s.pc ≠ .panicked x := by
  have hr' : (machine data ioves).ReachableWhen (fun _ a => a.Proceeds ∨ True) s := by
    simp only [or_true]
    exact hr
  have hinv := inv_reachable hne hr'
  have hpc := hinv.pc
  refine ⟨fun e he => ?_, fun x hx => ?_⟩
  · rw [he] at hpc
    exact hpc.2
  · rw [hx] at hpc
    exact hpc

end Result

/-- Vectors as an earlier call may have left them. -/
def staleIoves : Iovecs := ⟨List.replicate 256 ⟨7, 7, 7⟩, List.length_replicate⟩

/-- Three slices and a kernel that stops inside the first, takes the rest of it with a part of the
    second, and then everything. -/
theorem writev_exact_three_slices :
    ∃ s, (machine [[1, 2, 3], [4, 5], [6]] staleIoves).ReachableWhen (fun _ a => a.Proceeds) s ∧
      s.pc = .returned none ∧ s.accepted = [1, 2, 3, 4, 5, 6] ∧
      s.touched = [(0, 3), (0, 3), (1, 3), (1, 3), (2, 3)] ∧
      Exact [[1, 2, 3], [4, 5], [6]] s := by
  obtain ⟨s, hr, hpc, hacc, ht⟩ :=
    (machine [[1, 2, 3], [4, 5], [6]] staleIoves).exists_reachableWhen_of_run (fun _ a => a.Proceeds)
      (initial [[1, 2, 3], [4, 5], [6]] staleIoves) [.wrote 2, .eagain, .wrote 2, .eagain, .wrote 2]
      (fun s => s.pc = .returned none ∧ s.accepted = [1, 2, 3, 4, 5, 6] ∧
        s.touched = [(0, 3), (0, 3), (1, 3), (1, 3), (2, 3)])
      rfl (by decide +kernel) (by decide +kernel)
  exact ⟨s, hr, hpc, hacc, ht, writev_exact (by decide) hr⟩

end Shmipc.EventDispatcher
