import Shmipc.Queue.Machine

/-!
# No lost wake-up

A producer that loses the `markWorking` CAS sends no polling event and relies on
somebody else's; the consumer clears the flag, looks at the size once more and
may set the flag again with a plain store. The invariant `WakeInv` says who is
responsible for the elements the consumer has not accounted for:

* with the flag set and the consumer about to leave or outside `handlePolling`,
  a polling event is in flight or the producer that set the flag still has to
  send it;
* with the flag clear, every element beyond what the consumer has seen belongs
  to a producer that has not reached its CAS yet.

Main result: `no_lost_wakeup`.
-/

namespace Shmipc.Queue

open Common

variable {P : Type*} {cap : ℕ} {s t : State P}

/-- The producer's element is in the queue and its CAS is still to come. -/
def ProducerPc.BeforeCas : ProducerPc → Prop
  | .unlock | .markWorking => True
  | _ => False

/-- The producer is between its put, which takes effect at the increment of
    `tail`, and the end of its `wakeUpPeer`. -/
def ProducerPc.Announcing : ProducerPc → Prop
  | .unlock | .markWorking | .emit => True
  | _ => False

/-- The consumer will not look at `tail` again before it leaves, or has left. -/
def ConsumerPc.Leaving : ConsumerPc → Prop
  | .idle | .sizeTail | .sizeHead _ => True
  | _ => False

/-- How far the consumer has accounted for the queue when it leaves or has left;
    `none` while it will still look at `tail`. -/
def State.seen (s : State P) : Option ℕ :=
  match s.consumer with
  | .idle => some s.head
  | .sizeHead tail => some tail
  | _ => none

/-- What the consumer's registers say about the counters. -/
def ConsumerPc.Ok (head tail : ℕ) : ConsumerPc → Prop
  | .popTail h => h = head
  | .readSeqID _ | .readOffset .. | .readStatus .. | .addHead _ => head < tail
  | _ => True

structure WakeInv (s : State P) : Prop where
  head_le : s.head ≤ s.tail
  consumer_ok : s.consumer.Ok s.head s.tail
  flag_set : s.workingFlag = true → s.consumer.Leaving →
    0 < s.events ∨ ∃ p, s.producer p = .emit
  flag_clear : s.workingFlag = false → ∀ n, s.seen = some n → n < s.tail →
    ∃ p, (s.producer p).BeforeCas

theorem wakeInv_initial : WakeInv (initial P) where
  head_le := le_rfl
  consumer_ok := trivial
  flag_set h := by simp [initial] at h
  flag_clear _ n hn h := by simp [initial] at h

/-! ## What a producer's step keeps -/

section Producer

variable [DecidableEq P]

/-- A producer other than the one that moves keeps its position. -/
theorem exists_setPc {Q : ProducerPc → Prop} {p : P} {pc : ProducerPc}
    (h : ∃ p', Q (s.producer p')) (hp : Q (s.producer p) → Q pc) :
    ∃ p', Q ((s.setPc p pc).producer p') := by
  obtain ⟨p', hp'⟩ := h
  by_cases he : p' = p
  · exact ⟨p, by rw [State.producer_setPc]; exact hp (he ▸ hp')⟩
  · exact ⟨p', by rwa [State.producer_setPc_of_ne _ _ he]⟩

/-- A step that changes only the producer's position, the ring's words and the
    mutex keeps the invariant, unless it is the CAS or the emission. -/
theorem WakeInv.quiet {p : P} {pc : ProducerPc} (h : WakeInv s) (word : ℕ → ℕ)
    (mutex : Option P) (he : s.producer p = .emit → pc = .emit)
    (hb : (s.producer p).BeforeCas → pc.BeforeCas) :
    WakeInv { s.setPc p pc with word := word, mutex := mutex } where
  head_le := h.head_le
  consumer_ok := h.consumer_ok
  flag_set hf hl := (h.flag_set hf hl).imp_right fun hp =>
    exists_setPc (Q := (· = .emit)) hp he
  flag_clear hf n hn hlt := exists_setPc (h.flag_clear hf n hn hlt) hb

theorem ConsumerPc.Ok.mono {c : ConsumerPc} {head tail tail' : ℕ} (h : c.Ok head tail)
    (ht : tail ≤ tail') : c.Ok head tail' := by
  cases c <;> simp only [ConsumerPc.Ok] at h ⊢ <;> omega

theorem wakeInv_stepProducer {p : P} (h : WakeInv s)
    (hs : stepProducer cap s p (s.producer p) = some t) : WakeInv t := by
  cases hpc : s.producer p with
  | idle => rw [hpc] at hs; cases hs
  | lock e =>
    rw [hpc, stepProducer] at hs
    split_ifs at hs
    cases hs
    exact h.quiet s.word _ (by simp [hpc]) (by simp [hpc, ProducerPc.BeforeCas])
  | loadHead e tail =>
    rw [hpc, stepProducer] at hs
    split_ifs at hs
    · cases hs
      exact h.quiet s.word s.mutex (by simp [hpc])
        (by simp [hpc, ProducerPc.BeforeCas])
    · cases hs
      exact h.quiet s.word s.mutex (by simp [hpc])
        (by simp [hpc, ProducerPc.BeforeCas])
  | loadTail e | unlockFull =>
    rw [hpc] at hs
    cases hs
    exact h.quiet s.word _ (by simp [hpc]) (by simp [hpc, ProducerPc.BeforeCas])
  | writeSeqID e tail | writeOffset e tail | writeStatus e tail =>
    rw [hpc] at hs
    cases hs
    exact h.quiet _ s.mutex (by simp [hpc]) (by simp [hpc, ProducerPc.BeforeCas])
  | addTail =>
    -- the element becomes visible, and its producer is the one responsible for it
    rw [hpc] at hs
    cases hs
    refine ⟨Nat.le_succ_of_le h.head_le, h.consumer_ok.mono (Nat.le_succ _), fun hf hl => ?_,
      fun _ _ _ _ => ⟨p, by simp [ProducerPc.BeforeCas]⟩⟩
    exact (h.flag_set hf hl).imp_right fun hp =>
      exists_setPc (Q := (· = .emit)) hp (by simp [hpc])
  | unlock =>
    rw [hpc] at hs
    cases hs
    exact h.quiet s.word _ (by simp [hpc]) (by simp [ProducerPc.BeforeCas])
  | markWorking =>
    rw [hpc, stepProducer] at hs
    split_ifs at hs with hflag
    · -- the CAS is lost: the flag is set, so only `flag_set` has content
      cases hs
      refine ⟨h.head_le, h.consumer_ok, fun hf hl => ?_, fun hf => ?_⟩
      · exact (h.flag_set hf hl).imp_right fun hp =>
          exists_setPc (Q := (· = .emit)) hp (by simp [hpc])
      · exact absurd hflag (by simpa [State.setPc] using hf)
    · cases hs
      exact ⟨h.head_le, h.consumer_ok, fun _ _ => .inr ⟨p, State.producer_setPc ..⟩,
        fun hf => by simp at hf⟩
  | emit =>
    rw [hpc] at hs
    cases hs
    refine ⟨h.head_le, h.consumer_ok, fun _ _ => .inl (Nat.succ_pos _), fun hf n hn hlt => ?_⟩
    exact exists_setPc (h.flag_clear hf n hn hlt) (by simp [hpc, ProducerPc.BeforeCas])

end Producer

/-! ## What the consumer's step keeps -/

theorem wakeInv_stepConsumer (h : WakeInv s) (hs : stepConsumer cap s = some t) :
    WakeInv t := by
  have hok := h.consumer_ok
  unfold stepConsumer at hs
  cases hc : s.consumer with
  | idle =>
    simp only [hc] at hs
    split_ifs at hs
    cases hs
    exact ⟨h.head_le, trivial, fun _ hl => hl.elim, fun _ n hn => by simp [State.seen] at hn⟩
  | popHead =>
    simp only [hc] at hs
    cases hs
    exact ⟨h.head_le, rfl, fun _ hl => hl.elim, fun _ n hn => by simp [State.seen] at hn⟩
  | popTail head =>
    simp only [hc] at hs
    have hh : head = s.head := by rw [hc] at hok; exact hok
    split_ifs at hs with hge
    · cases hs
      exact ⟨h.head_le, trivial, fun _ hl => hl.elim, fun _ n hn => by simp [State.seen] at hn⟩
    · cases hs
      refine ⟨h.head_le, ?_, fun _ hl => hl.elim, fun _ n hn => by simp [State.seen] at hn⟩
      show s.head < s.tail
      omega
  | readSeqID head | readOffset head seqID | readStatus head seqID offset =>
    simp only [hc] at hs
    cases hs
    rw [hc] at hok
    exact ⟨h.head_le, hok, fun _ hl => hl.elim, fun _ n hn => by simp [State.seen] at hn⟩
  | addHead e =>
    simp only [hc] at hs
    cases hs
    rw [hc] at hok
    exact ⟨hok, trivial, fun _ hl => hl.elim, fun _ n hn => by simp [State.seen] at hn⟩
  | storeZero =>
    simp only [hc] at hs
    cases hs
    exact ⟨h.head_le, trivial, fun hf => by simp at hf, fun _ n hn => by simp [State.seen] at hn⟩
  | sizeTail =>
    -- whatever is put after this load belongs to a producer before its CAS
    simp only [hc] at hs
    cases hs
    refine ⟨h.head_le, trivial, fun hf _ => h.flag_set hf (by simp [hc, ConsumerPc.Leaving]),
      fun _ n hn hlt => ?_⟩
    simp only [State.seen, Option.some.injEq] at hn
    simp only at hlt
    omega
  | sizeHead tail =>
    simp only [hc] at hs
    have hset := fun hf => h.flag_set hf (by simp [hc, ConsumerPc.Leaving])
    have hclear := fun hf => h.flag_clear hf tail (by simp [State.seen, hc])
    split_ifs at hs with heq
    · cases hs
      refine ⟨h.head_le, trivial, fun hf _ => hset hf, fun hf n hn hlt => ?_⟩
      simp only [State.seen, Option.some.injEq] at hn
      simp only at hlt
      exact hclear hf (by omega)
    · cases hs
      exact ⟨h.head_le, trivial, fun _ hl => hl.elim, fun _ n hn => by simp [State.seen] at hn⟩
  | storeOne =>
    simp only [hc] at hs
    cases hs
    exact ⟨h.head_le, trivial, fun _ hl => hl.elim, fun _ n hn => by simp [State.seen] at hn⟩

/-! ## Every interleaving -/

variable [DecidableEq P]

theorem wakeInv_step {a : Act P} (h : WakeInv s) (hs : step cap s a = some t) : WakeInv t := by
  cases a with
  | put p e =>
    rw [step] at hs
    split_ifs at hs with hpc
    cases hs
    exact h.quiet s.word s.mutex (by simp [hpc])
      (by simp [hpc, ProducerPc.BeforeCas])
  | producer p => exact wakeInv_stepProducer h hs
  | consumer => exact wakeInv_stepConsumer h hs

theorem wakeInv_of_reachable (hr : (machine P cap).Reachable s) : WakeInv s :=
  hr.invariant WakeInv (by rintro _ rfl; exact wakeInv_initial) fun _ _ _ h _ hs => wakeInv_step h hs

/-- **No lost wake-up.** For every capacity, every set of producers and every
    interleaving: with an element in the queue and no producer between its put
    and the end of its `wakeUpPeer`, a polling event is in flight or the consumer
    is inside `handlePolling`. In particular the queue is never non-empty with
    every party idle and no event in flight. -/
theorem no_lost_wakeup (hr : (machine P cap).Reachable s) :
    (s.head < s.tail → (∀ p, ¬ (s.producer p).Announcing) →
      0 < s.events ∨ s.consumer ≠ .idle) ∧
    ¬ (s.head < s.tail ∧ (∀ p, s.producer p = .idle) ∧ s.consumer = .idle ∧ s.events = 0) := by
  have h := wakeInv_of_reachable hr
  have hwake : s.head < s.tail → (∀ p, ¬ (s.producer p).Announcing) →
      0 < s.events ∨ s.consumer ≠ .idle := by
    intro hne hq
    by_contra hcon
    obtain ⟨hev, hidle⟩ := not_or.mp hcon
    rw [not_not] at hidle
    cases hf : s.workingFlag with
    | true =>
      obtain hpos | ⟨p, hp⟩ := h.flag_set hf (by simp [hidle, ConsumerPc.Leaving])
      · exact hev hpos
      · exact hq p (by simp [hp, ProducerPc.Announcing])
    | false =>
      obtain ⟨p, hp⟩ := h.flag_clear hf s.head (by simp [State.seen, hidle]) hne
      refine hq p ?_
      cases hpc : s.producer p <;> simp_all [ProducerPc.BeforeCas, ProducerPc.Announcing]
  refine ⟨hwake, fun ⟨hne, hp, hc, he⟩ => ?_⟩
  obtain hpos | hcons := hwake hne fun p => by simp [hp p, ProducerPc.Announcing]
  · omega
  · exact hcons hc

/-- One producer puts an element, wins the CAS and sends its polling event. -/
theorem no_lost_wakeup_one_put :
    ∃ s : State Unit, (machine Unit 1).Reachable s ∧ s.head < s.tail ∧
      (∀ p, ¬ (s.producer p).Announcing) ∧ (0 < s.events ∨ s.consumer ≠ .idle) := by
  have hr := Sys.run_reachable (machine Unit 1) (initial Unit)
    (.put () ⟨1, 44, 0⟩ :: List.replicate 10 (.producer ())) rfl rfl
  have hq : ∀ p : Unit, ¬ (ProducerPc.idle).Announcing := fun _ => id
  exact ⟨_, hr, Nat.zero_lt_one, hq, (no_lost_wakeup hr).1 Nat.zero_lt_one hq⟩

end Shmipc.Queue
