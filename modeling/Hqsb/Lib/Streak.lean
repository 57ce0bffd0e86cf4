/-
Hqsb/Lib/Streak.lean

How many members at the front of a list satisfy a predicate in a row.

The count is determined by which lengths are reached (`InARow`), so that nothing has to be
decided.
-/
import Mathlib

namespace Lib

open List

variable {α : Type*} {P : α → Prop} {a : α} {l : List α} {n : Nat}

/-- Exactly the first `n` members satisfy `P` in a row. -/
def InARow (P : α → Prop) (l : List α) (n : Nat) : Prop :=
  ∀ k, (k ≤ l.length ∧ ∀ b ∈ l.take k, P b) ↔ k ≤ n

theorem inARow_nil : InARow P [] 0 := by
  intro k
  simp

theorem InARow.cons (h : InARow P l n) (ha : P a) : InARow P (a :: l) (n + 1) := by
  intro k
  rcases k with - | k
  · simp
  · have := h k
    simp only [length_cons, Nat.succ_le_succ_iff, take_succ_cons, forall_mem_cons]
    rw [← this]
    exact ⟨fun ⟨hle, _, hall⟩ => ⟨hle, hall⟩, fun ⟨hle, hall⟩ => ⟨hle, ha, hall⟩⟩

theorem inARow_cons_of_not (ha : ¬ P a) : InARow P (a :: l) 0 := by
  intro k
  rcases k with - | k
  · simp
  · constructor
    · rintro ⟨-, hall⟩
      exact absurd (hall a mem_cons_self) ha
    · intro h
      exact absurd h (Nat.not_succ_le_zero k)

end Lib
