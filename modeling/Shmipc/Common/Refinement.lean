import Shmipc.Common.Trans

/-!
# Refinement with observations

A specification says what each step shows and where it may lead. Its traces are the lists of
what is seen of its runs. An executable system is a specification once it is said what is
seen of its steps.

* `Traces.invariant`: the induction over runs, for facts that relate the state to what was
  seen.
* `Traces.refines`: if every step of one specification, seen through an abstraction function,
  is a step of another that shows the same, every trace of the one is a trace of the other.
-/

namespace Shmipc.Common

/-- Initial states, and steps with an action and what is seen of it. -/
structure Spec (σ α ω : Type*) where
  init : σ → Prop
  Step : σ → α → ω → σ → Prop

namespace Spec

variable {σ τ α ω : Type*} {S : Spec σ α ω} {T : Spec τ α ω}

/-- What is seen of a run, and where it ends. -/
inductive Traces (S : Spec σ α ω) : List (α × ω) → σ → Prop
  | init {s : σ} : S.init s → Traces S [] s
  | step {tr : List (α × ω)} {s t : σ} {a : α} {o : ω} : Traces S tr s → S.Step s a o t →
      Traces S (tr ++ [(a, o)]) t

theorem Traces.invariant {P : List (α × ω) → σ → Prop} (hinit : ∀ s, S.init s → P [] s)
    (hstep : ∀ tr s a o t, P tr s → S.Step s a o t → P (tr ++ [(a, o)]) t) {tr : List (α × ω)} {s : σ}
    (h : S.Traces tr s) : P tr s := by
  induction h with
  | init h => exact hinit _ h
  | step _ hs ih => exact hstep _ _ _ _ _ ih hs

/-- **Refinement.** -/
theorem Traces.refines (abs : σ → τ) (Inv : σ → Prop)
    (hinit : ∀ s, S.init s → Inv s ∧ T.init (abs s))
    (hstep : ∀ s a o t, Inv s → S.Step s a o t → Inv t ∧ T.Step (abs s) a o (abs t))
    {tr : List (α × ω)} {s : σ} (h : S.Traces tr s) : Inv s ∧ T.Traces tr (abs s) := by
  refine h.invariant (P := fun tr s => Inv s ∧ T.Traces tr (abs s)) ?_ ?_
  · intro s hs
    exact ⟨(hinit s hs).1, .init (hinit s hs).2⟩
  · rintro tr s a o t ⟨hinv, htr⟩ hs
    obtain ⟨hinv', hs'⟩ := hstep s a o t hinv hs
    exact ⟨hinv', .step htr hs'⟩

end Spec

namespace Sys

variable {σ α ω : Type*} {S : Sys σ α} {ok : σ → α → Prop} {see : σ → α → ω}

/-- The runs of a system whose steps all satisfy `ok`, with what `see` shows of them. -/
def seen (S : Sys σ α) (ok : σ → α → Prop) (see : σ → α → ω) : Spec σ α ω where
  init := S.init
  Step s a o t := ok s a ∧ S.next s a = some t ∧ o = see s a

/-- What is seen of the run from `s` along `as`. -/
def trace (S : Sys σ α) (see : σ → α → ω) : σ → List α → List (α × ω)
  | _, [] => []
  | s, a :: as => (a, see s a) :: ((S.next s a).elim [] fun t => S.trace see t as)

theorem seen_of_run {as : List α} : ∀ {tr : List (α × ω)} {s t : σ}, (S.seen ok see).Traces tr s →
    S.RunOk ok s as → S.run s as = some t → (S.seen ok see).Traces (tr ++ S.trace see s as) t := by
  induction as with
  | nil =>
    intro tr s t htr _ hr
    cases hr
    simpa [trace] using htr
  | cons a as ih =>
    intro tr s t htr hok hr
    obtain ⟨u, hu, hr⟩ := Option.bind_eq_some_iff.mp hr
    have hrest := ih (.step htr ⟨hok.1, hu, rfl⟩) (hok.2 u hu) hr
    rw [trace, hu]
    rwa [List.append_assoc] at hrest

end Sys

end Shmipc.Common
