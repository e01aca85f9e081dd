import Mathlib.Data.List.Perm.Basic
import Mathlib.Logic.Function.Basic
import Mathlib.Tactic

/-!
# Transition systems with executable steps

An interleaving of processes is a system whose `next s a` is the state after
the atomic step `a` in state `s`, or `none` where `a` is not enabled. The
label `a` says which process moves and resolves what the code leaves open.

* `ReachableWhen S ok`: the states of the runs whose every step `a` is taken
  in a state `s` with `ok s a`; `Reachable` is the case without a condition.
* `ReachableWhen.invariant`: the induction over runs, stated once.
* `run_reachableWhen`: a concrete run gives a reachable state, which is how the
  counterexamples are stated.
* `Inevitable S acts P`: the states from which steps in `acts` lead to `P`, whichever of
  them are taken; `inevitable_of_decreasing` proves it by a measure.
* `run_budget`: how often some steps can be taken, among any others, before a condition holds.
-/

namespace Shmipc.Common

section

/-! ## One of several processes

The processes of a system are a list; an invariant that does not depend on its order
is proved for a step of its first member. -/

variable {α : Type*} {l : List α} {k : ℕ} {a b c y : α} {Q : α → Prop}

theorem cons_eraseIdx_perm (hk : l[k]? = some y) :
    (y :: l.eraseIdx k).Perm l := by
  obtain ⟨hlt, rfl⟩ := List.getElem?_eq_some_iff.mp hk
  exact List.getElem_cons_eraseIdx_perm hlt

theorem set_perm_cons (hk : l[k]? = some y) (z : α) :
    (l.set k z).Perm (z :: l.eraseIdx k) :=
  List.set_perm_cons_eraseIdx (List.getElem?_eq_some_iff.mp hk).1 z

theorem forall_set (h : ∀ c ∈ l, Q c) (hb : Q b) : ∀ c ∈ l.set k b, Q c := by
  intro c hc
  rcases List.mem_or_eq_of_mem_set hc with hc | rfl
  · exact h c hc
  · exact hb

theorem mem_set_self (hk : l[k]? = some a) (b : α) : b ∈ l.set k b := by
  obtain ⟨hlt, -⟩ := List.getElem?_eq_some_iff.mp hk
  exact List.mem_set hlt b

theorem mem_set_of_ne (hk : l[k]? = some a) (hc : c ∈ l) (hne : c ≠ a) : c ∈ l.set k b := by
  obtain ⟨j, hj⟩ := List.mem_iff_getElem?.mp hc
  refine List.mem_iff_getElem?.mpr ⟨j, ?_⟩
  have hjk : k ≠ j := by
    rintro rfl
    rw [hk] at hj
    exact hne (Option.some.inj hj).symm
  rw [List.getElem?_set_ne hjk, hj]

theorem exists_set (hk : l[k]? = some a) (h : ∃ c ∈ l, Q c) (hb : Q a → Q b) :
    ∃ c ∈ l.set k b, Q c := by
  obtain ⟨c, hc, hq⟩ := h
  by_cases hca : c = a
  · exact ⟨b, mem_set_self hk b, hb (hca ▸ hq)⟩
  · exact ⟨c, mem_set_of_ne hk hc hca, hq⟩

/-- What holds of every process and its number, when one of them moves. -/
theorem forall_getElem?_set {P : ℕ → α → Prop} (hk : l[k]? = some a) (hb : P k b)
    (h : ∀ j c, j ≠ k → l[j]? = some c → P j c) : ∀ j c, (l.set k b)[j]? = some c → P j c := by
  intro j c hj
  rcases eq_or_ne k j with rfl | hne
  · rw [List.getElem?_set_self (List.getElem?_eq_some_iff.mp hk).1] at hj
    exact Option.some.inj hj ▸ hb
  · rw [List.getElem?_set_ne hne] at hj
    exact h j c hne.symm hj

/-- The processes when one is added. -/
theorem getElem?_concat_cases (h : (l ++ [b])[k]? = some a) :
    l[k]? = some a ∨ k = l.length ∧ a = b := by
  rcases Nat.lt_or_ge k l.length with hlt | hge
  · rw [List.getElem?_append_left hlt] at h
    exact .inl h
  · rw [List.getElem?_append_right hge, List.getElem?_singleton] at h
    split_ifs at h with hk
    exact .inr ⟨by omega, (Option.some.inj h).symm⟩

section Sum

variable {M : Type*} [AddCommMonoid M]

/-- A sum over the processes: the others and the one that moves. -/
theorem sum_map_eraseIdx (hk : l[k]? = some y) (f : α → M) :
    (l.map f).sum = ((l.eraseIdx k).map f).sum + f y := by
  rw [← ((cons_eraseIdx_perm hk).map f).sum_eq, List.map_cons, List.sum_cons, add_comm]

theorem sum_map_set_eraseIdx (hk : l[k]? = some y) (z : α) (f : α → M) :
    ((l.set k z).map f).sum = ((l.eraseIdx k).map f).sum + f z := by
  rw [((set_perm_cons hk z).map f).sum_eq, List.map_cons, List.sum_cons, add_comm]

theorem sum_map_set (hk : l[k]? = some y) (z : α) (f : α → M) :
    ((l.set k z).map f).sum + f y = (l.map f).sum + f z := by
  rw [sum_map_set_eraseIdx hk, sum_map_eraseIdx hk, add_right_comm]

end Sum

end

/-! ## Systems -/

/-- Initial states and a partial step function. -/
structure Sys (σ α : Type*) where
  init : σ → Prop
  next : σ → α → Option σ

namespace Sys

variable {σ α : Type*} {S : Sys σ α} {ok : σ → α → Prop}

/-- States reached by steps that all satisfy `ok`. -/
inductive ReachableWhen (S : Sys σ α) (ok : σ → α → Prop) : σ → Prop
  | init {s : σ} : S.init s → ReachableWhen S ok s
  | step {s t : σ} {a : α} : ReachableWhen S ok s → ok s a → S.next s a = some t →
      ReachableWhen S ok t

/-- States reached by any steps. -/
def Reachable (S : Sys σ α) : σ → Prop := S.ReachableWhen fun _ _ => True

theorem ReachableWhen.step_getD {s d : σ} {a : α} (hr : S.ReachableWhen ok s) (hok : ok s a)
    (h : (S.next s a).isSome = true) : S.ReachableWhen ok ((S.next s a).getD d) := by
  obtain ⟨t, ht⟩ := Option.isSome_iff_exists.mp h
  rw [ht]
  exact .step hr hok ht

/-- An invariant that holds initially and is kept by every allowed step holds
    in every state of every allowed run. -/
theorem ReachableWhen.invariant (Inv : σ → Prop) (hinit : ∀ s, S.init s → Inv s)
    (hstep : ∀ s a t, Inv s → ok s a → S.next s a = some t → Inv t) {s : σ}
    (hr : S.ReachableWhen ok s) : Inv s := by
  induction hr with
  | init h => exact hinit _ h
  | step _ hok hn ih => exact hstep _ _ _ ih hok hn

/-- The state after a list of steps. -/
def run (S : Sys σ α) : σ → List α → Option σ
  | s, [] => some s
  | s, a :: as => (S.next s a).bind fun t => S.run t as

/-- Every step of the run from `s` along `as` is allowed. -/
def RunOk (S : Sys σ α) (ok : σ → α → Prop) : σ → List α → Prop
  | _, [] => True
  | s, a :: as => ok s a ∧ ∀ t, S.next s a = some t → S.RunOk ok t as

instance decidableRunOk [∀ s a, Decidable (ok s a)] :
    ∀ (as : List α) (s : σ), Decidable (S.RunOk ok s as)
  | [], _ => isTrue trivial
  | a :: as, s =>
    have : ∀ t, Decidable (S.RunOk ok t as) := decidableRunOk as
    have : Decidable (∀ t, S.next s a = some t → S.RunOk ok t as) :=
      match S.next s a with
      | none => isTrue fun _ h => nomatch h
      | some u => decidable_of_iff (S.RunOk ok u as)
          ⟨fun h _ ht => Option.some.inj ht ▸ h, fun h => h u rfl⟩
    inferInstanceAs (Decidable (_ ∧ _))

theorem run_reachableWhen {as : List α} :
    ∀ {s t : σ}, S.ReachableWhen ok s → S.RunOk ok s as → S.run s as = some t →
      S.ReachableWhen ok t := by
  induction as with
  | nil => intro s t hs _ h; cases h; exact hs
  | cons a as ih =>
    intro s t hs hok h
    rw [run] at h
    cases hn : S.next s a with
    | none => rw [hn] at h; cases h
    | some u =>
      rw [hn, Option.bind_some] at h
      exact ih (.step hs hok.1 hn) (hok.2 u hn) h

theorem run_keeps {P : σ → Prop} (hkeep : ∀ s a t, P s → S.next s a = some t → P t) :
    ∀ {as : List α} {s t : σ}, P s → S.run s as = some t → P t := by
  intro as
  induction as with
  | nil => intro s t hs h; cases h; exact hs
  | cons a as ih =>
    intro s t hs h
    obtain ⟨u, hu, h⟩ := Option.bind_eq_some_iff.mp h
    exact ih (hkeep s a u hs hu) h

theorem runOk_true : ∀ (as : List α) (s : σ), S.RunOk (fun _ _ => True) s as
  | [], _ => trivial
  | _ :: as, _ => ⟨trivial, fun t _ => runOk_true as t⟩

theorem run_reachable (S : Sys σ α) (s : σ) (as : List α) {t : σ} (hs : S.init s)
    (h : S.run s as = some t) : S.Reachable t :=
  run_reachableWhen (.init hs) (runOk_true as s) h

/-- A run from an initial state, every step of it allowed, that ends where the
    test `p` succeeds. -/
theorem exists_reachableWhen_of_run (S : Sys σ α) (ok : σ → α → Prop) (s : σ) (as : List α)
    (p : σ → Prop) (hs : S.init s) (hok : S.RunOk ok s as) (h : ∃ t ∈ S.run s as, p t) :
    ∃ t, S.ReachableWhen ok t ∧ p t := by
  obtain ⟨t, hr, hp⟩ := h
  exact ⟨t, run_reachableWhen (.init hs) hok hr, hp⟩

theorem exists_reachable_of_run (S : Sys σ α) (s : σ) (as : List α) (p : σ → Prop) (hs : S.init s)
    (h : ∃ t ∈ S.run s as, p t) : ∃ t, S.Reachable t ∧ p t :=
  S.exists_reachableWhen_of_run _ s as p hs (runOk_true as s) h

/-! ## What a run comes to -/

/-- A budget for a run that other processes take part in. Until `P` holds, a step in `cost`
    lowers `f` by one, one in `gain` raises it by at most `c`, and others leave it; so a run with
    more steps in `cost` than that allows has come to `P`. -/
theorem run_budget {acts : α → Prop} {cost gain : α → Bool} (f : σ → ℕ) (c : ℕ)
    (Inv P : σ → Prop) (hinv : ∀ s a t, Inv s → acts a → S.next s a = some t → Inv t)
    (hkeep : ∀ s a t, P s → S.next s a = some t → P t)
    (hstep : ∀ s a t, Inv s → ¬P s → acts a → S.next s a = some t →
      f t + (if cost a then 1 else 0) ≤ f s + c * (if gain a then 1 else 0)) :
    ∀ {as : List α} {s t : σ}, Inv s → (∀ a ∈ as, acts a) → S.run s as = some t →
      P t ∨ f t + as.countP cost ≤ f s + c * as.countP gain := by
  intro as
  induction as with
  | nil =>
    intro s t _ _ hr
    cases hr
    exact .inr (Nat.le_refl _)
  | cons a as ih =>
    intro s t hs has hr
    obtain ⟨u, hu, hr⟩ := Option.bind_eq_some_iff.mp hr
    obtain ⟨ha, has⟩ := List.forall_mem_cons.mp has
    by_cases hp : P s
    · -- `P` is kept to the end of the run
      exact .inl (run_keeps hkeep (hkeep s a u hp hu) hr)
    · refine (ih (hinv s a u hs ha hu) has hr).imp_right fun hrest => ?_
      have hfirst := hstep s a u hs hp ha hu
      rw [List.countP_cons, List.countP_cons, Nat.mul_add]
      omega

/-- Steps in `acts` can be taken until `P` holds, and `P` comes to hold whichever of them
    are taken. -/
inductive Inevitable (S : Sys σ α) (acts : α → Prop) (P : σ → Prop) : σ → Prop
  | now {s : σ} : P s → Inevitable S acts P s
  | later {s : σ} : (∃ a t, acts a ∧ S.next s a = some t) →
      (∀ a t, acts a → S.next s a = some t → Inevitable S acts P t) → Inevitable S acts P s

/-- A measure that every step in `acts` makes smaller as long as `P` does not hold. -/
theorem inevitable_of_decreasing {β : Type*} [LT β] [WellFoundedLT β] {acts : α → Prop}
    {P : σ → Prop} (f : σ → β) (Inv : σ → Prop)
    (hgo : ∀ s, Inv s → P s ∨ ∃ a t, acts a ∧ S.next s a = some t)
    (hdec : ∀ s a t, Inv s → ¬P s → acts a → S.next s a = some t → Inv t ∧ f t < f s) {s : σ}
    (hs : Inv s) : S.Inevitable acts P s := by
  induction hn : f s using WellFoundedLT.induction generalizing s with
  | ind n ih =>
    by_cases hp : P s
    · exact .now hp
    · refine .later ((hgo s hs).resolve_left hp) fun a t ha ht => ?_
      obtain ⟨hinv, hlt⟩ := hdec s a t hs hp ha ht
      exact ih (f t) (hn ▸ hlt) hinv rfl

end Sys

end Shmipc.Common
