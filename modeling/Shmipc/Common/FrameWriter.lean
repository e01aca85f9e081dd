import Mathlib.Algebra.Group.Prod
import Mathlib.Data.Multiset.AddSub
import Mathlib.Data.Multiset.ZeroCons
import Mathlib.Tactic

/-!
# Writers that share one output

Any number of processes write frames to one output. A process that has won the flag writes
its frame in chunks of any length, also empty ones, and then gives the flag back. The output
may be closed, which a process sees before a chunk, or broken, which makes every chunk fail; a
process whose chunk failed may leave the rest of its frame unwritten.

The processes appear only as what they have to write: a `Load`, with the unwritten rests of
frames that were begun and the frames that were not. A system of processes has the sum of
their loads, and a step of one of them changes its own share.

* `Move`: the steps of such a system.
* `Inv.move`: what they keep.
* `Inv.frames`: the output is a concatenation of complete frames, in the order in which the
  flag was won, and a part of one more.
-/

namespace Shmipc.Common.FrameWriter

variable {β : Type*}

/-- The output, with the frames in the order in which the flag was won. -/
structure Output (β : Type*) where
  flag : Bool
  closed : Bool
  broken : Bool
  /-- Some chunk was refused. -/
  failed : Bool
  wire : List β
  begun : List (List β)
  submitted : Multiset (List β)

/-- What is left to write: of frames that were begun, each with the mark of a process that has
    found the output open, and frames that were not begun. -/
abbrev Load (β : Type*) := Multiset (Bool × List β) × Multiset (List β)

/-- The load of the holder of the flag. -/
def holding (mark : Bool) (rest : List β) : Load β := ({(mark, rest)}, 0)

/-- The load of a process that has not begun its frame. -/
def waiting (frame : List β) : Load β := (0, {frame})

/-- The steps of one process with load `x`. -/
inductive Local : Output β → Load β → Output β → Load β → Prop
  | quiet {o : Output β} {x : Load β} : Local o x o x
  | win {o : Output β} {frame : List β} : o.flag = false →
      Local o (waiting frame) { o with flag := true, begun := o.begun ++ [frame] }
        (holding false frame)
  | check {o : Output β} {rest : List β} : o.closed = false →
      Local o (holding false rest) o (holding true rest)
  | chunk {o : Output β} {rest : List β} (n : ℕ) : o.broken = false →
      Local o (holding true rest) { o with wire := o.wire ++ rest.take n }
        (holding false (rest.drop n))
  | fail {o : Output β} {mark : Bool} {rest rest' : List β} :
      o.closed = true ∨ o.broken = true →
      Local o (holding mark rest) { o with failed := true } (holding false rest')
  | release {o : Output β} : Local o (holding false []) { o with flag := false } 0

/-- The steps of the system with load `l`. -/
inductive Move : Output β → Load β → Output β → Load β → Prop
  | ofLocal {o o' : Output β} {x x' : Load β} (others : Load β) : Local o x o' x' →
      Move o (others + x) o' (others + x')
  | submit {o : Output β} {l : Load β} (frame : List β) :
      Move o l { o with submitted := o.submitted + {frame} } (l + waiting frame)
  | close {o : Output β} {l : Load β} : Move o l { o with closed := true } l
  | sever {o : Output β} {l : Load β} : Move o l { o with broken := true } l

/-- One holder at most, whose rest completes the output. -/
structure Inv (o : Output β) (l : Load β) : Prop where
  card : l.1.card = if o.flag then 1 else 0
  idle : o.failed = false → l.1 = 0 → o.wire = o.begun.flatten
  rest : o.failed = false → ∀ p ∈ l.1, o.wire ++ p.2 = o.begun.flatten
  cut : o.wire <+: o.begun.flatten
  /-- Once a chunk was refused, no later one is accepted. -/
  stopped : o.failed = true → o.broken = true ∨ o.closed = true ∧ ∀ p ∈ l.1, p.1 = false
  conserved : o.submitted = (o.begun : Multiset (List β)) + l.2

section

variable {o o' : Output β} {l l' others x x' : Load β} {mark : Bool} {frame rest : List β}

/-- The holder of the flag is alone. -/
theorem Inv.alone (h : Inv o (others + holding mark rest)) : others.1 = 0 ∧ o.flag = true := by
  have hcard := h.card
  rw [show (others + holding mark rest).1 = others.1 + {(mark, rest)} from rfl, Multiset.card_add,
    Multiset.card_singleton] at hcard
  cases hflag : o.flag with
  | false => simp [hflag] at hcard
  | true =>
    rw [hflag, if_pos rfl] at hcard
    exact ⟨Multiset.card_eq_zero.mp (by omega), rfl⟩

/-- The invariant of a state with one holder, in terms of its rest. -/
theorem inv_holding (hothers : others.1 = 0) (hflag : o.flag = true)
    (hrest : o.failed = false → o.wire ++ rest = o.begun.flatten)
    (hcut : o.wire <+: o.begun.flatten)
    (hstopped : o.failed = true → o.broken = true ∨ o.closed = true ∧ mark = false)
    (hconserved : o.submitted = (o.begun : Multiset (List β)) + others.2) :
    Inv o (others + holding mark rest) := by
  have hfst : (others + holding mark rest).1 = {(mark, rest)} := by
    rw [show (others + holding mark rest).1 = others.1 + {(mark, rest)} from rfl, hothers,
      zero_add]
  refine ⟨?_, fun _ h0 => ?_, fun hf p hp => ?_, hcut, fun hf => ?_, ?_⟩
  · rw [hfst, Multiset.card_singleton, if_pos hflag]
  · rw [hfst] at h0
    exact absurd h0 (Multiset.singleton_ne_zero _)
  · rw [hfst, Multiset.mem_singleton] at hp
    rw [hp]
    exact hrest hf
  · refine (hstopped hf).imp_right fun ⟨hc, hm⟩ => ⟨hc, fun p hp => ?_⟩
    rw [hfst, Multiset.mem_singleton] at hp
    rw [hp]
    exact hm
  · rw [hconserved]
    simp [holding]

/-- What the invariant says of the holder. -/
theorem Inv.of_holding (h : Inv o (others + holding mark rest)) :
    (o.failed = false → o.wire ++ rest = o.begun.flatten) ∧
      (o.failed = true → o.broken = true ∨ o.closed = true ∧ mark = false) ∧
      o.submitted = (o.begun : Multiset (List β)) + others.2 := by
  have hmem : (mark, rest) ∈ (others + holding mark rest).1 :=
    Multiset.mem_add.mpr (.inr (Multiset.mem_singleton_self _))
  refine ⟨fun hf => h.rest hf _ hmem, fun hf => ?_, ?_⟩
  · exact (h.stopped hf).imp_right fun ⟨hc, hall⟩ => ⟨hc, hall _ hmem⟩
  · rw [h.conserved]
    simp [holding]

/-- **Step of one process.** -/
theorem Inv.local (h : Inv o (others + x)) (hl : Local o x o' x') : Inv o' (others + x') := by
  cases hl with
  | quiet => exact h
  | win hflag =>
    -- nobody holds the flag, so the output ends with a complete frame
    have h0 : others.1 = 0 := by
      have hcard := h.card
      rw [hflag] at hcard
      exact Multiset.card_eq_zero.mp (by simpa [waiting] using hcard)
    refine inv_holding h0 rfl (fun hf => ?_) ?_ (fun hf => ?_) ?_
    · show o.wire ++ _ = (o.begun ++ [_]).flatten
      rw [h.idle hf (by simpa [waiting] using h0), List.flatten_append, List.flatten_singleton]
    · show o.wire <+: (o.begun ++ [_]).flatten
      rw [List.flatten_append]
      exact h.cut.trans (List.prefix_append _ _)
    · exact (h.stopped hf).imp_right fun ⟨hc, _⟩ => ⟨hc, rfl⟩
    · show o.submitted = ((o.begun ++ [_] : List (List β)) : Multiset (List β)) + _
      rw [h.conserved, ← Multiset.coe_add, Multiset.coe_singleton]
      simp only [waiting, Prod.snd_add, add_comm, add_left_comm]
  | check hopen =>
    obtain ⟨h0, hflag⟩ := h.alone
    obtain ⟨hrest, hstopped, hcons⟩ := h.of_holding
    refine inv_holding h0 hflag hrest h.cut (fun hf => .inl ?_) hcons
    rcases hstopped hf with hb | ⟨hc, -⟩
    · exact hb
    · rw [hopen] at hc
      cases hc
  | @chunk rest n hb =>
    obtain ⟨h0, hflag⟩ := h.alone
    obtain ⟨hrest, hstopped, hcons⟩ := h.of_holding
    -- a chunk is accepted only while none was refused
    have hf : o.failed = false := by
      rw [← Bool.not_eq_true]
      intro hf
      rcases hstopped hf with hb' | ⟨-, hm⟩
      · rw [hb] at hb'
        cases hb'
      · cases hm
    have hnow : o.wire ++ rest.take n ++ rest.drop n = o.begun.flatten := by
      rw [List.append_assoc, List.take_append_drop, hrest hf]
    exact inv_holding h0 hflag (fun _ => hnow) ⟨_, hnow⟩ (fun hf' => by rw [hf] at hf'; cases hf')
      hcons
  | fail hwhy =>
    obtain ⟨h0, hflag⟩ := h.alone
    obtain ⟨hrest, hstopped, hcons⟩ := h.of_holding
    exact inv_holding h0 hflag (fun hf => (nomatch hf)) h.cut
      (fun _ => hwhy.symm.imp_right fun hc => ⟨hc, rfl⟩) hcons
  | release =>
    obtain ⟨h0, hflag⟩ := h.alone
    obtain ⟨hrest, hstopped, hcons⟩ := h.of_holding
    rw [add_zero]
    refine ⟨by rw [h0]; rfl, fun hf _ => ?_, fun _ p hp => ?_, h.cut, fun hf => ?_, hcons⟩
    · rw [← hrest hf, List.append_nil]
    · rw [h0] at hp
      exact absurd hp (Multiset.notMem_zero p)
    · refine (hstopped hf).imp_right fun ⟨hc, _⟩ => ⟨hc, fun p hp => ?_⟩
      rw [h0] at hp
      exact absurd hp (Multiset.notMem_zero p)

/-- **Step.** -/
theorem Inv.move (h : Inv o l) (hm : Move o l o' l') : Inv o' l' := by
  cases hm with
  | ofLocal others hl => exact h.local hl
  | submit frame =>
    have hfst : (l + waiting frame).1 = l.1 := add_zero l.1
    refine ⟨?_, fun hf h0 => h.idle hf (hfst ▸ h0), fun hf p hp => h.rest hf p (hfst ▸ hp), h.cut,
      fun hf => ?_, ?_⟩
    · rw [hfst]
      exact h.card
    · rw [hfst]
      exact h.stopped hf
    · show o.submitted + {frame} = _ + (l.2 + {frame})
      rw [h.conserved, add_assoc]
  | close =>
    refine ⟨h.card, h.idle, h.rest, h.cut, fun hf => ?_, h.conserved⟩
    exact (h.stopped hf).imp_right fun ⟨_, hall⟩ => ⟨rfl, hall⟩
  | sever => exact ⟨h.card, h.idle, h.rest, h.cut, fun _ => .inl rfl, h.conserved⟩

end

/-- A prefix of a concatenation: complete members and a part of the next one. -/
theorem prefix_flatten {wire : List β} : ∀ {frames : List (List β)}, wire <+: frames.flatten →
    ∃ whole rest part, frames = whole ++ rest ∧ wire = whole.flatten ++ part ∧
      part <+: rest.headD []
  | [], h => ⟨[], [], [], rfl, List.prefix_nil.mp h, List.nil_prefix⟩
  | f :: frames, h => by
    rw [List.flatten_cons] at h
    rcases List.prefix_or_prefix_of_prefix h (List.prefix_append f _) with hin | ⟨tail, rfl⟩
    · exact ⟨[], f :: frames, wire, rfl, rfl, hin⟩
    · obtain ⟨whole, rest, part, rfl, rfl, hpart⟩ :=
        prefix_flatten ((List.prefix_append_right_inj f).mp h)
      exact ⟨f :: whole, rest, part, rfl, by rw [List.flatten_cons, List.append_assoc], hpart⟩

/-- The output is made of complete frames and a part of one more. -/
theorem Inv.frames {o : Output β} {l : Load β} (h : Inv o l) :
    ∃ whole rest part, o.begun = whole ++ rest ∧ o.wire = whole.flatten ++ part ∧
      part <+: rest.headD [] :=
  prefix_flatten h.cut

end Shmipc.Common.FrameWriter
