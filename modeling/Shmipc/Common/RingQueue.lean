import Mathlib.Data.Nat.ModEq
import Mathlib.Tactic

/-!
# A ring with two counters

A queue in `cap` cells, with the number `tail` of elements that were pushed and the number
`head` of those that were popped. Element number `i` lies in cell `i % cap`, and a cell keeps
its old element until it is written again.

How a cell holds an element is left to the user: `Cell i a` says that `a` is found where element
number `i` lies, and a write may spoil only what lies in the cell of `tail`.

* `mod_ne`: the elements between the counters lie in different cells.
* `Window`: the counters and cells stand for what was pushed and popped.
* `Window.write`, `Window.push`, `Window.pop`: the operations keep that.
-/

namespace Shmipc.Common.RingQueue

variable {α : Type*} {cap head tail i j : ℕ} {Cell Cell' : ℕ → α → Prop} {pushed popped : List α}
  {a : α}

/-- Less than one round lies between two elements of one window. -/
theorem mod_ne (hij : i < j) (hj : j < i + cap) : i % cap ≠ j % cap := by
  intro he
  have hdvd : cap ∣ j - i := (Nat.modEq_iff_dvd' hij.le).mp he
  have hle := Nat.le_of_dvd (by omega) hdvd
  omega

structure Window (cap : ℕ) (Cell : ℕ → α → Prop) (head tail : ℕ) (pushed popped : List α) :
    Prop where
  head_le : head ≤ tail
  tail_le : tail ≤ head + cap
  length : pushed.length = tail
  popped_eq : popped = pushed.take head
  stored : ∀ i a, head ≤ i → pushed[i]? = some a → Cell i a

theorem Window.empty (cap : ℕ) (Cell : ℕ → α → Prop) : Window cap Cell 0 0 [] [] where
  head_le := le_rfl
  tail_le := Nat.zero_le _
  length := rfl
  popped_eq := rfl
  stored _ _ _ h := nomatch h

theorem Window.lt_tail (h : Window cap Cell head tail pushed popped) (ha : pushed[i]? = some a) :
    i < tail := h.length ▸ (List.getElem?_eq_some_iff.mp ha).1

/-- The elements are popped in the order in which they were pushed, each once. -/
theorem Window.isPrefix (h : Window cap Cell head tail pushed popped) : popped <+: pushed :=
  h.popped_eq ▸ List.take_prefix ..

theorem Window.length_popped (h : Window cap Cell head tail pushed popped) :
    popped.length = head := by
  rw [h.popped_eq, List.length_take_of_le (h.length ▸ h.head_le)]

theorem Window.mono (h : Window cap Cell head tail pushed popped)
    (hkeep : ∀ i a, Cell i a → Cell' i a) : Window cap Cell' head tail pushed popped :=
  ⟨h.head_le, h.tail_le, h.length, h.popped_eq, fun i a hi ha => hkeep i a (h.stored i a hi ha)⟩

theorem Window.front (h : Window cap Cell head tail pushed popped) (hlt : head < tail) :
    ∃ a, pushed[head]? = some a ∧ Cell head a := by
  have ha := List.getElem?_eq_getElem (l := pushed) (h.length ▸ hlt)
  exact ⟨_, ha, h.stored _ _ le_rfl ha⟩

/-- The cell of `tail` is written while there is room: it holds no element of the window. -/
theorem Window.write (h : Window cap Cell head tail pushed popped) (hroom : tail < head + cap)
    (hkeep : ∀ i a, i % cap ≠ tail % cap → Cell i a → Cell' i a) :
    Window cap Cell' head tail pushed popped := by
  refine ⟨h.head_le, h.tail_le, h.length, h.popped_eq, fun i a hi ha => ?_⟩
  exact hkeep i a (mod_ne (h.lt_tail ha) (by omega)) (h.stored i a hi ha)

theorem Window.push (h : Window cap Cell head tail pushed popped) (hroom : tail < head + cap)
    (ha : Cell tail a) : Window cap Cell head (tail + 1) (pushed ++ [a]) popped := by
  have hle := h.head_le
  refine ⟨by omega, by omega, ?_, ?_, fun i b hi hb => ?_⟩
  · rw [List.length_append, h.length]
    rfl
  · rw [List.take_append_of_le_length (h.length ▸ hle)]
    exact h.popped_eq
  · rw [List.getElem?_append] at hb
    split at hb
    · exact h.stored i b hi hb
    · obtain ⟨hz, rfl⟩ := List.getElem?_eq_some_iff.mp hb
      have hi' : i = tail := by
        rw [List.length_singleton] at hz
        have := h.length
        omega
      rw [List.getElem_singleton, hi']
      exact ha

theorem Window.pop (h : Window cap Cell head tail pushed popped) (ha : pushed[head]? = some a) :
    Window cap Cell (head + 1) tail pushed (popped ++ [a]) := by
  have hlt := h.lt_tail ha
  have hle := h.tail_le
  refine ⟨hlt, by omega, h.length, ?_, fun i b hi hb => h.stored i b (by omega) hb⟩
  rw [List.take_add_one, ha, ← h.popped_eq]
  rfl

end Shmipc.Common.RingQueue
