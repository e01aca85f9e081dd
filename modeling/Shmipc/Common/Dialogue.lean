import Shmipc.Common.Trans

/-!
# Two processes with a connection

Each process is sequential: it reads a number of symbols, writes symbols, does something
local, and ends with a result. The two directions of the connection are queues; reads and
writes go through in pieces of any size, and a process may fail at any operation.

What a process does depends only on what it has read: `Proc.meaning`. Hence one run that is
known to succeed (`Plan`) decides all others:

* `Plan.consumed_le`: no process reads beyond what it reads in the plan.
* `Plan.ended`: a process that ends has the result that it has in the plan, and has done
  and read the same.
* `Plan.inevitable`: without failures both end, whatever the order and the pieces.
-/

namespace Shmipc.Common

/-- A process that reads and writes symbols `α`, does `ε`, and ends with a result. -/
inductive Proc (α ε ρ : Type*)
  | done (r : ρ)
  /-- Reads `n` symbols. -/
  | read (n : ℕ) (k : List α → Proc α ε ρ)
  | write (bs : List α) (k : Proc α ε ρ)
  | act (e : ε) (k : Proc α ε ρ)

/-- What a process does with an input. -/
structure Meaning (α ε ρ : Type*) where
  /-- What it writes and does, in order. -/
  trace : List (α ⊕ ε)
  /-- How much it reads. -/
  used : ℕ
  result : Option ρ

/-- The symbols in a trace. -/
def lefts {α ε : Type*} (tr : List (α ⊕ ε)) : List α := tr.filterMap Sum.getLeft?

def rights {α ε : Type*} (tr : List (α ⊕ ε)) : List ε := tr.filterMap Sum.getRight?

section Lefts

variable {α ε : Type*}

@[simp] theorem lefts_append (tr tr' : List (α ⊕ ε)) : lefts (tr ++ tr') = lefts tr ++ lefts tr' :=
  List.filterMap_append

@[simp] theorem lefts_map_inl (bs : List α) : lefts (bs.map (Sum.inl : α → α ⊕ ε)) = bs := by
  simp [lefts, Function.comp_def]

@[simp] theorem lefts_inr (e : ε) : lefts [(Sum.inr e : α ⊕ ε)] = [] := rfl

@[simp] theorem lefts_map_inr (es : List ε) : lefts (es.map (Sum.inr : ε → α ⊕ ε)) = [] := by
  simp [lefts]

@[simp] theorem rights_append (tr tr' : List (α ⊕ ε)) : rights (tr ++ tr') = rights tr ++ rights tr' :=
  List.filterMap_append

@[simp] theorem rights_map_inl (bs : List α) : rights (bs.map (Sum.inl : α → α ⊕ ε)) = [] := by
  simp [rights]

@[simp] theorem rights_map_inr (es : List ε) : rights (es.map (Sum.inr : ε → α ⊕ ε)) = es := by
  simp [rights, Function.comp_def]

end Lefts

namespace Meaning

variable {α ε ρ : Type*}

/-- After a trace and `n` symbols of input. -/
def after (tr : List (α ⊕ ε)) (n : ℕ) (x : Meaning α ε ρ) : Meaning α ε ρ :=
  ⟨tr ++ x.trace, n + x.used, x.result⟩

def out (x : Meaning α ε ρ) : List α := lefts x.trace

theorem after_after (tr tr' : List (α ⊕ ε)) (n n' : ℕ) (x : Meaning α ε ρ) :
    (x.after tr' n').after tr n = x.after (tr ++ tr') (n + n') := by
  simp [after, Nat.add_assoc]

theorem out_after (tr : List (α ⊕ ε)) (n : ℕ) (x : Meaning α ε ρ) :
    (x.after tr n).out = lefts tr ++ x.out := lefts_append _ _

end Meaning

namespace Proc

variable {α ε ρ : Type*}

/-- What the process does when `inp` comes in, until it waits for more. -/
def meaning : Proc α ε ρ → List α → Meaning α ε ρ
  | done r, _ => ⟨[], 0, some r⟩
  | read n k, inp =>
    if inp.length < n then ⟨[], 0, none⟩ else ((k (inp.take n)).meaning (inp.drop n)).after [] n
  | write bs k, inp => (k.meaning inp).after (bs.map .inl) 0
  | act e k, inp => (k.meaning inp).after [.inr e] 0

/-- How many steps this takes, if every symbol is moved by itself. -/
def cost : Proc α ε ρ → List α → ℕ
  | done _, _ => 0
  | read n k, inp => if inp.length < n then 0 else n + 1 + (k (inp.take n)).cost (inp.drop n)
  | write bs k, inp => bs.length + 1 + k.cost inp
  | act _ k, inp => 1 + k.cost inp

/-- The result of a process that has ended. -/
def result? : Proc α ε ρ → Option ρ
  | done r => some r
  | _ => none

theorem result?_eq_some {p : Proc α ε ρ} {r : ρ} : p.result? = some r ↔ p = done r := by
  cases p <;> simp [result?]

variable {p : Proc α ε ρ} {inp : List α}

theorem meaning_read {n : ℕ} {k : List α → Proc α ε ρ} {bs : List α} (hbs : bs.length = n)
    (inp : List α) : (read n k).meaning (bs ++ inp) = ((k bs).meaning inp).after [] n := by
  rw [meaning, if_neg (by simp [hbs]), List.take_left' hbs, List.drop_left' hbs]

/-- More input leads to more of the same; an end stays one. -/
theorem meaning_mono (p : Proc α ε ρ) : ∀ inp more : List α,
    (p.meaning inp).trace <+: (p.meaning (inp ++ more)).trace ∧
      ∀ r, (p.meaning inp).result = some r → p.meaning (inp ++ more) = p.meaning inp := by
  induction p with
  | done r => exact fun _ _ => ⟨List.prefix_rfl, fun _ _ => rfl⟩
  | read n k ih =>
    intro inp more
    by_cases hlt : inp.length < n
    · rw [meaning, if_pos hlt]
      exact ⟨List.nil_prefix, fun _ h => by cases h⟩
    · have hle : n ≤ inp.length := Nat.le_of_not_lt hlt
      obtain ⟨htrace, hdone⟩ := ih (inp.take n) (inp.drop n) more
      rw [meaning, if_neg hlt, meaning, if_neg (by rw [List.length_append]; omega),
        List.take_append_of_le_length hle, List.drop_append_of_le_length hle]
      exact ⟨htrace, fun r hr => by rw [hdone r hr]⟩
  | write bs k ih | act e k ih =>
    intro inp more
    obtain ⟨htrace, hdone⟩ := ih inp more
    exact ⟨List.prefix_append_right_inj _ |>.mpr htrace, fun r hr => by
      rw [meaning, hdone r hr]
      rfl⟩

theorem out_mono (p : Proc α ε ρ) {inp inp' : List α} (h : inp <+: inp') :
    (p.meaning inp).out <+: (p.meaning inp').out := by
  obtain ⟨more, rfl⟩ := h
  exact (p.meaning_mono inp more).1.filterMap _

theorem meaning_of_done {inp inp' : List α} {r : ρ} (hr : (p.meaning inp).result = some r)
    (h : inp <+: inp') : p.meaning inp' = p.meaning inp := by
  obtain ⟨more, rfl⟩ := h
  exact (p.meaning_mono inp more).2 r hr

end Proc

/-! ## One side -/

/-- A process on its way. -/
structure Side (α ε ρ : Type*) where
  proc : Proc α ε ρ
  /-- What the read that is going on has got. -/
  got : List α := []
  failed : Bool := false
  /-- All that it has read, and all that it has written and done. -/
  consumed : List α := []
  trace : List (α ⊕ ε) := []

inductive IoStep
  /-- A read gives `n` symbols. -/
  | read (n : ℕ)
  | write (n : ℕ)
  /-- A read or a write is complete. -/
  | complete
  | act
  /-- The operation fails, and so does the process. -/
  | fail
  deriving DecidableEq

namespace Side

variable {α ε ρ : Type*}

/-- A step of a process with what is there to be read: the process, what is left of that, and
    what it sends. -/
def next (x : Side α ε ρ) (inbox : List α) : IoStep → Option (Side α ε ρ × List α × List α)
  | .read n =>
    match x.proc with
    | .read m _ =>
      if 0 < n ∧ x.got.length + n ≤ m ∧ n ≤ inbox.length then
        some ({ x with got := x.got ++ inbox.take n, consumed := x.consumed ++ inbox.take n },
          inbox.drop n, [])
      else none
    | _ => none
  | .write n =>
    match x.proc with
    | .write bs k =>
      if 0 < n ∧ n ≤ bs.length then
        some ({ x with proc := .write (bs.drop n) k, trace := x.trace ++ (bs.take n).map .inl },
          inbox, bs.take n)
      else none
    | _ => none
  | .complete =>
    match x.proc with
    | .read m k => if x.got.length = m then some ({ x with proc := k x.got, got := [] }, inbox, []) else none
    | .write [] k => some ({ x with proc := k }, inbox, [])
    | _ => none
  | .act =>
    match x.proc with
    | .act e k => some ({ x with proc := k, trace := x.trace ++ [.inr e] }, inbox, [])
    | _ => none
  | .fail =>
    match x.proc with
    | .done _ => none
    | _ => some ({ x with failed := true }, inbox, [])

/-- A read has no more than it asks for; nothing else keeps what was read. -/
def GotOk (x : Side α ε ρ) : Prop :=
  match x.proc with
  | .read m _ => x.got.length ≤ m
  | _ => x.got = []

/-- The rest of the process `p` after what the side has read and done. -/
structure Rest (p : Proc α ε ρ) (x : Side α ε ρ) : Prop where
  got : x.GotOk
  meaning : ∃ n, x.consumed.length = n + x.got.length ∧ ∀ more,
    p.meaning (x.consumed ++ more) = (x.proc.meaning (x.got ++ more)).after x.trace n

variable {p : Proc α ε ρ} {x y : Side α ε ρ} {inbox inbox' sent : List α} {op : IoStep}

theorem rest_start (p : Proc α ε ρ) : Rest p { proc := p } := by
  refine ⟨?_, 0, rfl, fun more => ?_⟩
  · unfold GotOk
    cases p <;> simp
  · simp [Meaning.after]

/-- What a step can do. -/
inductive Moves (x : Side α ε ρ) (inbox : List α) : IoStep → Side α ε ρ → List α → List α → Prop
  | read {n m : ℕ} {k : List α → Proc α ε ρ} (hp : x.proc = .read m k) (hn : 0 < n)
      (hm : x.got.length + n ≤ m) (hi : n ≤ inbox.length) : Moves x inbox (.read n)
        { x with got := x.got ++ inbox.take n, consumed := x.consumed ++ inbox.take n }
        (inbox.drop n) []
  | write {n : ℕ} {bs : List α} {k : Proc α ε ρ} (hp : x.proc = .write bs k) (hn : 0 < n)
      (hb : n ≤ bs.length) : Moves x inbox (.write n)
        { x with proc := .write (bs.drop n) k, trace := x.trace ++ (bs.take n).map .inl }
        inbox (bs.take n)
  | gotAll {m : ℕ} {k : List α → Proc α ε ρ} (hp : x.proc = .read m k) (hm : x.got.length = m) :
      Moves x inbox .complete { x with proc := k x.got, got := [] } inbox []
  | wroteAll {k : Proc α ε ρ} (hp : x.proc = .write [] k) :
      Moves x inbox .complete { x with proc := k } inbox []
  | act {e : ε} {k : Proc α ε ρ} (hp : x.proc = .act e k) :
      Moves x inbox .act { x with proc := k, trace := x.trace ++ [.inr e] } inbox []
  | fail (hp : ∀ r, x.proc ≠ .done r) : Moves x inbox .fail { x with failed := true } inbox []

theorem next_moves (h : x.next inbox op = some (y, inbox', sent)) : Moves x inbox op y inbox' sent := by
  unfold next at h
  cases op with
  | read n =>
    simp only at h
    split at h
    · rename_i m k hp
      split_ifs at h with hc
      cases h
      exact .read hp hc.1 hc.2.1 hc.2.2
    · cases h
  | write n =>
    simp only at h
    split at h
    · rename_i bs k hp
      split_ifs at h with hc
      cases h
      exact .write hp hc.1 hc.2
    · cases h
  | complete =>
    simp only at h
    split at h
    · rename_i m k hp
      split_ifs at h with hc
      cases h
      exact .gotAll hp hc
    · rename_i k hp
      cases h
      exact .wroteAll hp
    · cases h
  | act =>
    simp only at h
    split at h
    · rename_i e k hp
      cases h
      exact .act hp
    · cases h
  | fail =>
    simp only at h
    split at h
    · cases h
    · rename_i hp
      cases h
      exact .fail hp

/-- What is read, sent and left over. -/
theorem Moves.flow (h : Moves x inbox op y inbox' sent) :
    x.consumed ++ inbox = y.consumed ++ inbox' ∧ lefts y.trace = lefts x.trace ++ sent := by
  cases h with
  | read hp hn hm hi => simp
  | write hp hn hb => exact ⟨rfl, by rw [lefts_append, lefts_map_inl]⟩
  | gotAll hp hm => simp
  | wroteAll hp => simp
  | act hp => simp
  | fail hp => simp

/-- **Step.** The rest of the process stays its rest. -/
theorem Rest.next (hr : Rest p x) (h : Moves x inbox op y inbox' sent) : Rest p y := by
  obtain ⟨hgot, n, hlen, hmean⟩ := hr
  unfold GotOk at hgot
  cases h with
  | read hp hn hm hi =>
    refine ⟨?_, n, ?_, fun more => ?_⟩
    · simp only [GotOk, hp, List.length_append, List.length_take]
      omega
    · simp only [List.length_append]
      omega
    · rw [List.append_assoc, List.append_assoc]
      exact hmean _
  | @write j bs k hp hn hb =>
    rw [hp] at hgot
    refine ⟨hgot, n, hlen, fun more => ?_⟩
    rw [hmean, hp, Proc.meaning, Proc.meaning, Meaning.after_after, Meaning.after_after,
      List.append_assoc, ← List.map_append, List.take_append_drop]
  | @gotAll m k hp hm =>
    refine ⟨?_, n + m, ?_, fun more => ?_⟩
    · unfold GotOk
      simp only
      split <;> simp
    · simp only [List.length_nil]
      omega
    · rw [hmean, hp, Proc.meaning_read hm, Meaning.after_after, List.append_nil]
      rfl
  | wroteAll hp | act hp =>
    rw [hp] at hgot
    refine ⟨?_, n, hlen, fun more => ?_⟩
    · unfold GotOk
      simp only
      split
      · simp [hgot]
      · exact hgot
    · rw [hmean, hp, Proc.meaning, Meaning.after_after]
      simp
  | fail hp => exact ⟨hgot, n, hlen, hmean⟩

end Side

/-! ## Both sides -/

/-- Two sides; each has what the other has sent to it and it has not read. -/
structure Talk (α ε ρ : Type*) where
  side : Bool → Side α ε ρ
  inbox : Bool → List α

namespace Talk

variable {α ε ρ : Type*}

def next (s : Talk α ε ρ) (a : Bool × IoStep) : Option (Talk α ε ρ) :=
  if (s.side a.1).failed then none
  else ((s.side a.1).next (s.inbox a.1) a.2).map fun (x, inbox, sent) =>
    { side := Function.update s.side a.1 x
      inbox := fun b => if b = a.1 then inbox else s.inbox b ++ sent }

/-- The runs of two processes from their start. -/
def runs (p : Bool → Proc α ε ρ) : Sys (Talk α ε ρ) (Bool × IoStep) where
  init s := s = { side := fun b => { proc := p b }, inbox := fun _ => [] }
  next := next

/-- What was sent to a side is what it has read and what it can read. -/
structure Ok (p : Bool → Proc α ε ρ) (s : Talk α ε ρ) : Prop where
  rest : ∀ b, Side.Rest (p b) (s.side b)
  sent : ∀ b, lefts (s.side !b).trace = (s.side b).consumed ++ s.inbox b

variable {p : Bool → Proc α ε ρ} {s t : Talk α ε ρ} {b : Bool} {op : IoStep}

theorem next_inv (h : s.next (b, op) = some t) : (s.side b).failed = false ∧
    ∃ x inbox sent, Side.Moves (s.side b) (s.inbox b) op x inbox sent ∧
      t = { side := Function.update s.side b x
            inbox := fun c => if c = b then inbox else s.inbox c ++ sent } := by
  unfold next at h
  split_ifs at h with hf
  obtain ⟨⟨x, inbox, sent⟩, hx, rfl⟩ := Option.map_eq_some_iff.mp h
  exact ⟨by simpa using hf, x, inbox, sent, Side.next_moves hx, rfl⟩

theorem Ok.step (h : s.Ok p) (hn : s.next (b, op) = some t) : t.Ok p := by
  obtain ⟨-, x, inbox, sent, hm, rfl⟩ := next_inv hn
  obtain ⟨hread, hsent⟩ := hm.flow
  refine ⟨fun c => ?_, fun c => ?_⟩
  · rcases eq_or_ne c b with rfl | hne
    · simpa using (h.rest c).next hm
    · simpa [Function.update_of_ne hne] using h.rest c
  · rcases eq_or_ne c b with rfl | hne
    · simpa [Function.update_of_ne (Bool.not_ne_self c), hread] using h.sent c
    · have hcb : (!c) = b := by rw [Bool.eq_not_of_ne hne, Bool.not_not]
      simp only [hcb, Function.update_self, Function.update_of_ne hne, if_neg hne, hsent]
      rw [← hcb, h.sent c, List.append_assoc]

end Talk

/-! ## A run that succeeds -/

/-- What each side has got after some rounds, when all that was sent has arrived. -/
def reply {α ε ρ : Type*} (p : Bool → Proc α ε ρ) : ℕ → Bool → List α
  | 0, _ => []
  | n + 1, b => ((p !b).meaning (reply p n !b)).out

theorem reply_succ {α ε ρ : Type*} {p : Bool → Proc α ε ρ} {n : ℕ} {b : Bool} {xs ys : List α}
    (hx : xs <+: reply p n !b) (hy : ys <+: ((p !b).meaning xs).out) : ys <+: reply p (n + 1) b :=
  hy.trans ((p !b).out_mono hx)

/-- A run in which both processes end: what each of them reads, and what it writes beyond
    what the other reads. -/
structure Plan {α ε ρ : Type*} (p : Bool → Proc α ε ρ) where
  input : Bool → List α
  later : Bool → List α
  result : Bool → ρ
  out : ∀ b, ((p b).meaning (input b)).out = input (!b) ++ later b
  used : ∀ b, ((p b).meaning (input b)).used = (input b).length
  done : ∀ b, ((p b).meaning (input b)).result = some (result b)
  /-- Nobody waits for what depends on it. -/
  causal : ∃ n b, input b <+: reply p n b

/-- What was done before a symbol that has been sent. -/
theorem prefix_of_lefts {α ε : Type*} {tr pre post : List (α ⊕ ε)} (h : tr <+: pre ++ post)
    (hlt : (lefts pre).length < (lefts tr).length) : pre <+: tr := by
  rcases List.prefix_or_prefix_of_prefix h (List.prefix_append pre post) with htr | hpre
  · have := (htr.filterMap Sum.getLeft?).length_le
    unfold lefts at hlt
    omega
  · exact hpre

namespace Plan

variable {α ε ρ : Type*} {p : Bool → Proc α ε ρ} {s t : Talk α ε ρ} {b : Bool} {op : IoStep}

/-- The process has not come to its end. -/
theorem not_stuck (P : Plan p) (hr : Side.Rest (p b) (s.side b)) {more : List α}
    (hm : (s.side b).consumed ++ more = P.input b) {m : ℕ} {k : List α → Proc α ε ρ}
    (hp : (s.side b).proc = .read m k) : m ≤ (s.side b).got.length + more.length := by
  obtain ⟨-, n, -, hmean⟩ := hr
  by_contra hlt
  have hnone := P.done b
  rw [← hm, hmean, hp, Proc.meaning, if_pos (by rw [List.length_append]; omega)] at hnone
  cases hnone

theorem trace_le_of (P : Plan p) (hr : Side.Rest (p b) (s.side b))
    (hc : (s.side b).consumed <+: P.input b) :
    (s.side b).trace <+: ((p b).meaning (P.input b)).trace := by
  obtain ⟨more, hmore⟩ := hc
  obtain ⟨-, n, -, hmean⟩ := hr
  rw [← hmore, hmean]
  exact List.prefix_append _ _

/-- A read gives what it gives in the plan. -/
theorem consumed_step (P : Plan p) (h : s.Ok p) (hc : ∀ b, (s.side b).consumed <+: P.input b)
    (hn : s.next (b, op) = some t) : ∀ c, (t.side c).consumed <+: P.input c := by
  obtain ⟨-, x, inbox, sent, hm, rfl⟩ := Talk.next_inv hn
  intro c
  rcases eq_or_ne c b with rfl | hne
  · simp only [Function.update_self]
    cases hm with
    | @read n m k hp hn hm hi =>
      -- it is a part of what the other side writes
      have hsent : (s.side c).consumed ++ (s.inbox c).take n <+: P.input c ++ P.later !c := by
        have hout := (P.trace_le_of (h.rest !c) (hc !c)).filterMap Sum.getLeft?
        have hall : lefts (s.side !c).trace <+: ((p !c).meaning (P.input !c)).out := hout
        rw [P.out, Bool.not_not, h.sent c] at hall
        exact ((List.prefix_append_right_inj _).mpr (List.take_prefix n _)).trans hall
      refine List.prefix_of_prefix_length_le hsent (List.prefix_append _ _) ?_
      obtain ⟨more, hmore⟩ := hc c
      have hstuck := P.not_stuck (h.rest c) hmore hp
      rw [← hmore, List.length_append, List.length_append, List.length_take]
      omega
    | _ => exact hc c
  · simpa [Function.update_of_ne hne] using hc c

/-- **Safety.** -/
theorem consumed_le (P : Plan p) (hr : (Talk.runs p).Reachable s) :
    s.Ok p ∧ ∀ b, (s.side b).consumed <+: P.input b := by
  refine hr.invariant (fun s => s.Ok p ∧ ∀ b, (s.side b).consumed <+: P.input b) ?_ ?_
  · rintro s rfl
    exact ⟨⟨fun b => Side.rest_start (p b), fun _ => rfl⟩, fun _ => List.nil_prefix⟩
  · rintro s ⟨b, op⟩ t ⟨h, hc⟩ - hn
    exact ⟨h.step hn, P.consumed_step h hc hn⟩

theorem trace_le (P : Plan p) (hr : (Talk.runs p).Reachable s) (b : Bool) :
    (s.side b).trace <+: ((p b).meaning (P.input b)).trace :=
  P.trace_le_of ((P.consumed_le hr).1.rest b) ((P.consumed_le hr).2 b)

theorem ended_of (P : Plan p) (hok : s.Ok p) (hc : (s.side b).consumed <+: P.input b) {r : ρ}
    (hd : (s.side b).proc = .done r) : r = P.result b ∧ (s.side b).consumed = P.input b ∧
      (s.side b).trace = ((p b).meaning (P.input b)).trace := by
  obtain ⟨hgot, n, hlen, hmean⟩ := hok.rest b
  have hnil : (s.side b).got = [] := by
    unfold Side.GotOk at hgot
    rwa [hd] at hgot
  have hend : (p b).meaning (s.side b).consumed = ⟨(s.side b).trace, n, some r⟩ := by
    have h0 := hmean []
    rw [List.append_nil, hd, Proc.meaning] at h0
    simpa [Meaning.after] using h0
  have hsame : (p b).meaning (P.input b) = ⟨(s.side b).trace, n, some r⟩ := by
    rw [Proc.meaning_of_done (r := r) (by rw [hend]) hc, hend]
  have hresult := P.done b
  have hused := P.used b
  rw [hsame] at hresult hused
  refine ⟨Option.some.inj hresult, hc.eq_of_length ?_, by rw [hsame]⟩
  rw [hnil] at hlen
  simpa [hlen] using hused

/-- **Agreement.** A process that ends does so as in the plan. -/
theorem ended (P : Plan p) (hr : (Talk.runs p).Reachable s) {r : ρ} (hd : (s.side b).proc = .done r) :
    r = P.result b ∧ (s.side b).consumed = P.input b ∧
      (s.side b).trace = ((p b).meaning (P.input b)).trace :=
  P.ended_of (P.consumed_le hr).1 ((P.consumed_le hr).2 b) hd

/-- What the other side has done when a process has ended: all that it does before a symbol
    that this process reads. -/
theorem ended_other (P : Plan p) (hr : (Talk.runs p).Reachable s) {r : ρ}
    (hd : (s.side b).proc = .done r) {pre post : List (α ⊕ ε)}
    (htr : ((p !b).meaning (P.input !b)).trace = pre ++ post)
    (hlt : (lefts pre).length < (P.input b).length) : pre <+: (s.side !b).trace := by
  have hother := P.trace_le hr !b
  rw [htr] at hother
  refine prefix_of_lefts hother ?_
  rw [(P.consumed_le hr).1.sent b, (P.ended hr hd).2.1, List.length_append]
  omega

/-! ### Both come to their end -/

/-- A process that waits for what has not been sent. -/
def Blocked (s : Talk α ε ρ) (b : Bool) : Prop :=
  ∃ m k, (s.side b).proc = .read m k ∧ (s.side b).got.length < m ∧ s.inbox b = []

def Ended (s : Talk α ε ρ) (b : Bool) : Prop := ∃ r, (s.side b).proc = .done r

/-- A process that has nothing to do has written all that it can. -/
theorem out_of_idle (h : s.Ok p) (hb : Blocked s b ∨ Ended s b) :
    lefts (s.side b).trace = ((p b).meaning (s.side b).consumed).out := by
  obtain ⟨-, n, -, hmean⟩ := h.rest b
  have h0 := hmean []
  rw [List.append_nil, List.append_nil] at h0
  rw [h0]
  rcases hb with ⟨m, k, hp, hlt, -⟩ | ⟨r, hp⟩
  · rw [hp, Proc.meaning, if_pos hlt]
    simp [Meaning.after, Meaning.out]
  · rw [hp, Proc.meaning]
    simp [Meaning.after, Meaning.out]

theorem consumed_of_blocked (h : s.Ok p) (hb : Blocked s b) (ho : Blocked s (!b) ∨ Ended s (!b)) :
    (s.side b).consumed = ((p !b).meaning (s.side !b).consumed).out := by
  obtain ⟨m, k, -, -, hi⟩ := hb
  have hsent := h.sent b
  rwa [hi, List.append_nil, out_of_idle h ho, eq_comm] at hsent

/-- A blocked process has not got all that it gets in the plan. -/
theorem blocked_short (P : Plan p) (h : s.Ok p) (hc : (s.side b).consumed <+: P.input b)
    (hb : Blocked s b) : ¬P.input b <+: (s.side b).consumed := by
  intro hall
  obtain ⟨m, k, hp, hlt, -⟩ := hb
  have heq : (s.side b).consumed = P.input b := hc.eq_of_length (le_antisymm hc.length_le hall.length_le)
  have hall' : (s.side b).consumed ++ [] = P.input b := by rw [List.append_nil, heq]
  have hstuck := P.not_stuck (h.rest b) hall' hp
  simp only [List.length_nil] at hstuck
  omega

/-- **No deadlock.** -/
theorem not_blocked (P : Plan p) (h : s.Ok p) (hc : ∀ b, (s.side b).consumed <+: P.input b)
    (hb : Blocked s b) (ho : Blocked s (!b) ∨ Ended s (!b)) : False := by
  rcases ho with hblocked | ⟨r, hp⟩
  · -- both wait: what has arrived is closed under replies
    have hfix : ∀ c, (s.side c).consumed = ((p !c).meaning (s.side !c).consumed).out := by
      intro c
      rcases eq_or_ne c b with rfl | hne
      · exact consumed_of_blocked h hb (.inl hblocked)
      · obtain rfl : c = !b := Bool.eq_not_of_ne hne
        exact consumed_of_blocked h hblocked (.inl (by rwa [Bool.not_not]))
    have hreply : ∀ n c, reply p n c <+: (s.side c).consumed := by
      intro n
      induction n with
      | zero => exact fun _ => List.nil_prefix
      | succ n ih =>
        intro c
        rw [hfix c]
        exact (p !c).out_mono (ih !c)
    obtain ⟨n, c, hn⟩ := P.causal
    have hall := hn.trans (hreply n c)
    rcases eq_or_ne c b with rfl | hne
    · exact P.blocked_short h (hc c) hb hall
    · obtain rfl : c = !b := Bool.eq_not_of_ne hne
      exact P.blocked_short h (hc !b) hblocked hall
  · have hcons := consumed_of_blocked h hb (.inr ⟨r, hp⟩)
    obtain ⟨-, n, -, hmean⟩ := h.rest !b
    have hresult : ((p !b).meaning (s.side !b).consumed).result = some r := by
      have h0 := hmean []
      rw [List.append_nil, hp, Proc.meaning] at h0
      rw [h0]
      rfl
    have hsame := Proc.meaning_of_done hresult (hc !b)
    refine P.blocked_short h (hc b) hb ?_
    have hout := P.out !b
    rw [hsame, Bool.not_not] at hout
    rw [hcons, hout]
    exact List.prefix_append _ _

/-- A process that is neither blocked nor at its end can move. -/
theorem can_move (h : s.Ok p) (hf : (s.side b).failed = false) :
    Blocked s b ∨ Ended s b ∨ ∃ op t, op ≠ .fail ∧ s.next (b, op) = some t := by
  have hgot := (h.rest b).got
  unfold Side.GotOk at hgot
  have hgo : ∀ op, op ≠ .fail → ((s.side b).next (s.inbox b) op).isSome = true →
      ∃ op t, op ≠ .fail ∧ s.next (b, op) = some t := by
    intro op hop hsome
    obtain ⟨⟨x, inbox, sent⟩, hy⟩ := Option.isSome_iff_exists.mp hsome
    refine ⟨op, { side := Function.update s.side b x
                  inbox := fun c => if c = b then inbox else s.inbox c ++ sent }, hop, ?_⟩
    unfold Talk.next
    simp [hf, hy]
  cases hp : (s.side b).proc with
  | done r => exact .inr (.inl ⟨r, hp⟩)
  | read m k =>
    rw [hp] at hgot
    by_cases hm : (s.side b).got.length = m
    · exact .inr (.inr (hgo .complete (by simp) (by simp [Side.next, hp, hm])))
    · have hlt : (s.side b).got.length < m := by
        simp only at hgot
        omega
      by_cases hi : s.inbox b = []
      · exact .inl ⟨m, k, hp, hlt, hi⟩
      · have hpos := List.length_pos_iff.mpr hi
        refine .inr (.inr (hgo (.read 1) (by simp) ?_))
        simp only [Side.next, hp]
        rw [if_pos ⟨Nat.one_pos, hlt, hpos⟩]
        rfl
  | write bs k =>
    cases bs with
    | nil => exact .inr (.inr (hgo .complete (by simp) (by simp [Side.next, hp])))
    | cons x bs =>
      refine .inr (.inr (hgo (.write 1) (by simp) ?_))
      simp [Side.next, hp]
  | act e k => exact .inr (.inr (hgo .act (by simp) (by simp [Side.next, hp])))

/-- The steps that a side has left, if every symbol is moved by itself. -/
def left (P : Plan p) (s : Talk α ε ρ) (b : Bool) : ℕ :=
  (s.side b).proc.cost ((s.side b).got ++ (P.input b).drop (s.side b).consumed.length) -
    (s.side b).got.length

theorem left_decreases (P : Plan p) (h : s.Ok p) (hc : ∀ b, (s.side b).consumed <+: P.input b)
    (hop : op ≠ .fail) (hn : s.next (b, op) = some t) :
    P.left t b < P.left s b ∧ P.left t (!b) = P.left s !b := by
  have hc' := P.consumed_step h hc hn b
  obtain ⟨-, x, inbox, sent, hm, rfl⟩ := Talk.next_inv hn
  have hgot := (h.rest b).got
  unfold Side.GotOk at hgot
  obtain ⟨more, hmore⟩ := hc b
  have hdrop : (P.input b).drop (s.side b).consumed.length = more := by
    rw [← hmore, List.drop_left]
  refine ⟨?_, by simp [left]⟩
  simp only [left, Function.update_self] at hc' ⊢
  rw [hdrop]
  cases hm with
  | @read n m k hp hpos hle hi =>
    have hstuck := P.not_stuck (h.rest b) hmore hp
    -- the symbols that are read now are no longer ahead
    obtain ⟨rest, hrest⟩ := hc'
    have hsplit : more = (s.inbox b).take n ++ rest := by
      rw [← hmore, List.append_assoc] at hrest
      exact (List.append_cancel_left hrest).symm
    have hdrop' : (P.input b).drop ((s.side b).consumed ++ (s.inbox b).take n).length = rest := by
      rw [← hrest, List.drop_left]
    simp only [hdrop', hp, List.append_assoc, ← hsplit]
    have hn' : ((s.inbox b).take n).length = n := List.length_take_of_le hi
    simp only [Proc.cost, List.length_append, hn']
    rw [if_neg (by omega)]
    omega
  | @write n bs k hp hpos hle =>
    rw [hp] at hgot
    have hnil : (s.side b).got = [] := hgot
    simp only [hdrop, hp, hnil, Proc.cost, List.length_drop, List.length_nil]
    omega
  | @gotAll m k hp hlen =>
    simp only [hdrop, hp, Proc.cost, List.length_append]
    rw [if_neg (by omega), List.take_left' hlen, List.drop_left' hlen]
    simp only [List.nil_append, List.length_nil]
    omega
  | @wroteAll k hp | @act e k hp =>
    rw [hp] at hgot
    have hnil : (s.side b).got = [] := hgot
    simp only [hdrop, hp, hnil, Proc.cost, List.length_nil]
    omega
  | fail hp => exact absurd rfl hop

/-- The state of a run without failures. -/
structure Going (P : Plan p) (s : Talk α ε ρ) : Prop where
  ok : s.Ok p
  consumed : ∀ b, (s.side b).consumed <+: P.input b
  failed : ∀ b, (s.side b).failed = false

theorem Going.step (P : Plan p) (h : P.Going s) (hop : op ≠ .fail) (hn : s.next (b, op) = some t) :
    P.Going t := by
  refine ⟨h.ok.step hn, P.consumed_step h.ok h.consumed hn, fun c => ?_⟩
  obtain ⟨-, x, inbox, sent, hm, rfl⟩ := Talk.next_inv hn
  rcases eq_or_ne c b with rfl | hne
  · simp only [Function.update_self]
    cases hm with
    | fail hp => exact absurd rfl hop
    | _ => exact h.failed c
  · simpa [Function.update_of_ne hne] using h.failed c

theorem going_of_reachable (P : Plan p)
    (hr : (Talk.runs p).ReachableWhen (fun _ a => a.2 ≠ .fail) s) : P.Going s := by
  refine hr.invariant P.Going ?_ ?_
  · rintro s rfl
    exact ⟨⟨fun b => Side.rest_start (p b), fun _ => rfl⟩, fun _ => List.nil_prefix, fun _ => rfl⟩
  · rintro s ⟨b, op⟩ t h hop hn
    exact h.step P hop hn

/-- **Completion.** Without failures both processes come to the end of the plan, in every
    order. -/
theorem inevitable (P : Plan p) (h : P.Going s) : (Talk.runs p).Inevitable (fun a => a.2 ≠ .fail)
    (fun s => ∀ b, (s.side b).proc = .done (P.result b)) s := by
  refine Sys.inevitable_of_decreasing (fun s => P.left s false + P.left s true) P.Going ?_ ?_ h
  · intro s h
    by_contra hnot
    rw [not_or] at hnot
    obtain ⟨hnot, hmove⟩ := hnot
    have hend : ¬∀ b, Ended s b := fun hall => hnot fun b => by
      obtain ⟨r, hr⟩ := hall b
      rw [hr, (P.ended_of h.ok (h.consumed b) hr).1]
    have hidle : ∀ b, Blocked s b ∨ Ended s b := fun b =>
      (can_move h.ok (h.failed b)).imp_right fun hb => hb.resolve_right fun hb => by
        obtain ⟨op, t, hop, ht⟩ := hb
        exact hmove ⟨(b, op), t, hop, ht⟩
    obtain ⟨b, hb⟩ := not_forall.mp hend
    exact P.not_blocked h.ok h.consumed ((hidle b).resolve_right hb) (hidle !b)
  · rintro s ⟨b, op⟩ t h - hop hn
    refine ⟨h.step P hop hn, ?_⟩
    obtain ⟨hlt, heq⟩ := P.left_decreases h.ok h.consumed hop hn
    cases b with
    | false =>
      simp only [Bool.not_false] at heq
      omega
    | true =>
      simp only [Bool.not_true] at heq
      omega

end Plan

end Shmipc.Common
