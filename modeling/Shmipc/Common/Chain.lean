import Mathlib.Data.List.Basic
import Mathlib.Data.Set.Basic

/-!
# Lists linked through a successor function

`next a` is the successor of `a`, if it has one. `Chain next l` says that `l` is
the whole chain that starts at its first element; `follow` walks it.

* `follow_of_chain`: the walk visits exactly the chain; `follow_congr`: what it reads.
* `Chain.tail`, `Chain.link`: taking the first element off, and linking a new
  one behind the last.
* `Chain.congr`: a chain depends on the successors of its own elements only.
* `ChainTo next z l`: the same with `z` behind the last element.
-/

namespace Shmipc.Common

variable {α : Type*} {next next' : α → Option α} {a b : α} {l : List α}

/-- Every element's successor is the following one; the last has none. -/
def Chain (next : α → Option α) : List α → Prop
  | [] => True
  | [a] => next a = none
  | a :: b :: l => next a = some b ∧ Chain next (b :: l)

instance decidableChain [DecidableEq α] (next : α → Option α) :
    ∀ l : List α, Decidable (Chain next l)
  | [] => isTrue trivial
  | [a] => inferInstanceAs (Decidable (next a = none))
  | a :: b :: l =>
    have := decidableChain next (b :: l)
    inferInstanceAs (Decidable (next a = some b ∧ Chain next (b :: l)))

/-- At most `k` elements of the chain from `a`. -/
def follow (next : α → Option α) : ℕ → α → List α
  | 0, _ => []
  | k + 1, a =>
    a :: match next a with
      | none => []
      | some b => follow next k b

theorem follow_of_chain : ∀ {k : ℕ} {a : α} {l : List α}, Chain next (a :: l) → l.length < k →
    follow next k a = a :: l
  | 0, _, _, _, hk => absurd hk (Nat.not_lt_zero _)
  | k + 1, a, [], h, _ => by
    rw [follow, show next a = none from h]
  | k + 1, a, b :: l, h, hk => by
    rw [follow, h.1]
    exact congrArg (a :: ·) (follow_of_chain h.2 (by simpa using hk))

/-- The walk depends on the successors in a set that it does not leave. -/
theorem follow_congr {K : Set α} (hnext : ∀ x ∈ K, ∀ y, next x = some y → y ∈ K)
    (hsame : ∀ x ∈ K, next' x = next x) : ∀ {k : ℕ} {a : α}, a ∈ K →
    follow next' k a = follow next k a
  | 0, _, _ => rfl
  | k + 1, a, ha => by
    rw [follow, follow, hsame a ha]
    cases hn : next a with
    | none => rfl
    | some b => exact congrArg (a :: ·) (follow_congr hnext hsame (hnext a ha b hn))

theorem Chain.tail (h : Chain next (a :: l)) : Chain next l := by
  cases l with
  | nil => trivial
  | cons b l => exact h.2

theorem Chain.congr (h : Chain next l) (hn : ∀ a ∈ l, next' a = next a) : Chain next' l := by
  induction l with
  | nil => trivial
  | cons a l ih =>
    have ha := hn a List.mem_cons_self
    have hl := ih h.tail fun b hb => hn b (List.mem_cons_of_mem a hb)
    cases l with
    | nil => exact ha.trans h
    | cons b l => exact ⟨ha.trans h.1, hl⟩

/-- A chain, said by positions. -/
theorem chain_of_getElem? (h : ∀ i a, l[i]? = some a → next a = l[i + 1]?) : Chain next l := by
  induction l with
  | nil => trivial
  | cons a l ih =>
    have ha := h 0 a rfl
    have hl := ih fun i b hb => h (i + 1) b hb
    cases l with
    | nil => exact ha
    | cons b l => exact ⟨ha, hl⟩

theorem Chain.next_last (h : Chain next (l ++ [a])) : next a = none := by
  induction l with
  | nil => exact h
  | cons b l ih => exact ih h.tail

/-- A new last element. -/
theorem Chain.link (h : Chain next (l ++ [a])) (hl : ∀ x ∈ l, next' x = next x)
    (ha : next' a = some b) (hb : next' b = none) : Chain next' (l ++ [a, b]) := by
  induction l with
  | nil => exact ⟨ha, hb⟩
  | cons c l ih =>
    have hc := hl c List.mem_cons_self
    have hrest := ih h.tail fun x hx => hl x (List.mem_cons_of_mem c hx)
    cases l with
    | nil => exact ⟨hc.trans h.1, hrest⟩
    | cons d l => exact ⟨hc.trans h.1, hrest⟩

/-- An element with a successor is followed by it in the chain. -/
theorem Chain.cons_of_next (h : Chain next (a :: l)) (ha : next a = some b) :
    ∃ l', l = b :: l' := by
  cases l with
  | nil => rw [show next a = none from h] at ha; cases ha
  | cons c l =>
    rw [h.1] at ha
    cases ha
    exact ⟨l, rfl⟩

theorem Chain.next_mem (h : Chain next l) (ha : a ∈ l) (hn : next a = some b) : b ∈ l := by
  induction l with
  | nil => cases ha
  | cons c l ih =>
    rcases List.mem_cons.mp ha with rfl | ha
    · obtain ⟨l', rfl⟩ := h.cons_of_next hn
      simp
    · exact List.mem_cons_of_mem c (ih h.tail ha)

/-! ## A chain that goes on -/

/-- Every element's successor is the following one; that of the last is `z`. -/
def ChainTo (next : α → Option α) (z : Option α) : List α → Prop
  | [] => True
  | [a] => next a = z
  | a :: b :: l => next a = some b ∧ ChainTo next z (b :: l)

theorem chainTo_none : ∀ {l : List α}, ChainTo next none l ↔ Chain next l
  | [] => Iff.rfl
  | [_] => Iff.rfl
  | _ :: _ :: _ => and_congr_right fun _ => chainTo_none

theorem chainTo_cons {z : Option α} :
    ChainTo next z (a :: l) ↔ next a = (l.head?.or z) ∧ ChainTo next z l := by
  cases l with
  | nil => exact (and_iff_left trivial).symm
  | cons b l => exact Iff.rfl

theorem ChainTo.congr {z : Option α} (h : ChainTo next z l) (hn : ∀ a ∈ l, next' a = next a) :
    ChainTo next' z l := by
  induction l with
  | nil => trivial
  | cons a l ih =>
    obtain ⟨ha, hl⟩ := chainTo_cons.mp h
    exact chainTo_cons.mpr ⟨(hn a List.mem_cons_self).trans ha,
      ih hl fun b hb => hn b (List.mem_cons_of_mem a hb)⟩

end Shmipc.Common
