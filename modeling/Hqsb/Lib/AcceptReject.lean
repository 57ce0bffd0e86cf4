/-
Hqsb/Lib/AcceptReject.lean

The arithmetic of accept-reject sampling towards a target `a` from a proposal `b`.

An outcome that is proposed with mass `b` and kept with probability `min 1 (a / b)` is
emitted with mass `min a b`.  What it lacks is its excess:

    min a b + excess a b = a.

A proposal with the total of the target therefore rejects as much as there is excess, and
there is none exactly if the two agree everywhere.  Outcomes are the entries of a list of
pairs `(a, b)`.
-/
import Mathlib

namespace Lib.AcceptReject

open List

variable {K : Type*} [Field K] [LinearOrder K] [IsStrictOrderedRing K]

/-- What the proposal lacks of the target. -/
def excess (a b : K) : K := max 0 (a - b)

omit [IsStrictOrderedRing K] in
theorem excess_nonneg (a b : K) : 0 ≤ excess a b := le_max_left 0 _

theorem min_add_excess (a b : K) : min a b + excess a b = a := by
  rw [excess]
  rcases le_total a b with h | h
  · rw [min_eq_left h, max_eq_left (sub_nonpos.mpr h), add_zero]
  · rw [min_eq_right h, max_eq_right (sub_nonneg.mpr h), add_sub_cancel]

theorem excess_eq_zero_iff {a b : K} : excess a b = 0 ↔ a ≤ b := by
  rw [excess, max_eq_left_iff, sub_nonpos]

theorem mul_min_one_div {a b : K} (hb : 0 < b) : b * min 1 (a / b) = min a b := by
  rw [mul_min_of_nonneg _ _ hb.le, mul_one, mul_div_cancel₀ a hb.ne', min_comm]

theorem sum_min_add_sum_excess (l : List (K × K)) :
    (l.map fun e => min e.1 e.2).sum + (l.map fun e => excess e.1 e.2).sum =
      (l.map Prod.fst).sum := by
  rw [← sum_map_add]
  simp only [min_add_excess]

theorem sum_excess_comm {l : List (K × K)}
    (htotal : (l.map Prod.fst).sum = (l.map Prod.snd).sum) :
    (l.map fun e => excess e.1 e.2).sum = (l.map fun e => excess e.2 e.1).sum := by
  have hsplit := sum_min_add_sum_excess l
  have hmirror := sum_min_add_sum_excess (l.map Prod.swap)
  simp only [map_map, Function.comp_def, Prod.fst_swap, Prod.snd_swap, min_comm]
    at hmirror
  rw [htotal, ← hmirror] at hsplit
  exact add_left_cancel hsplit

theorem le_of_sum_excess_eq_zero {l : List (K × K)}
    (h : (l.map fun e => excess e.1 e.2).sum = 0) : ∀ e ∈ l, e.1 ≤ e.2 := by
  intro e he
  apply excess_eq_zero_iff.mp
  refine all_zero_of_le_zero_le_of_sum_eq_zero (l := l.map fun e => excess e.1 e.2) ?_ h ?_
  · intro x hx
    obtain ⟨e', -, rfl⟩ := mem_map.mp hx
    exact excess_nonneg e'.1 e'.2
  · exact mem_map.mpr ⟨e, he, rfl⟩

/-- **No excess.**  Against a proposal of the same total nothing is lacking only if the two
agree. -/
theorem sum_excess_eq_zero_iff {l : List (K × K)}
    (htotal : (l.map Prod.fst).sum = (l.map Prod.snd).sum) :
    (l.map fun e => excess e.1 e.2).sum = 0 ↔ ∀ e ∈ l, e.1 = e.2 := by
  constructor
  · intro h e he
    refine le_antisymm (le_of_sum_excess_eq_zero h e he) ?_
    -- the same holds with target and proposal exchanged
    rw [sum_excess_comm htotal] at h
    refine le_of_sum_excess_eq_zero (l := l.map Prod.swap) ?_ e.swap
      (mem_map.mpr ⟨e, he, rfl⟩)
    rw [map_map]
    exact h
  · intro h
    refine sum_eq_zero fun x hx => ?_
    obtain ⟨e, he, rfl⟩ := mem_map.mp hx
    exact excess_eq_zero_iff.mpr (h e he).le

end Lib.AcceptReject
