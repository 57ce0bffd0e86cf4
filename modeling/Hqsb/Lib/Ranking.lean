/-
Hqsb/Lib/Ranking.lean

Lists ordered by a key that tells their members apart.

A ranking of a list is the one way to write it with increasing keys.  Its head is
where the key is least, and its tail ranks what is left without the head, so
taking the least member again and again goes down the ranking.
-/
import Mathlib

namespace Lib

open List

variable {α κ : Type*} [LinearOrder κ] {key : α → κ} {l l' order : List α} {a : α}

/-- `order` lists the members of `l` by increasing keys. -/
structure Ranks (key : α → κ) (l order : List α) : Prop where
  perm : order.Perm l
  increasing : order.Pairwise fun a b => key a < key b

def ranking (key : α → κ) (l : List α) : List α := l.mergeSort fun a b => key a ≤ key b

theorem ranks_ranking (h : (l.map key).Nodup) : Ranks key l (ranking key l) := by
  refine ⟨mergeSort_perm _ _, ?_⟩
  have hle : (ranking key l).Pairwise fun a b => decide (key a ≤ key b) :=
    pairwise_mergeSort (fun a b c hab hbc => by
      rw [decide_eq_true_eq] at hab hbc ⊢
      exact hab.trans hbc) (fun a b => by
      rw [Bool.or_eq_true, decide_eq_true_eq, decide_eq_true_eq]
      exact le_total _ _) l
  have hne : (ranking key l).Pairwise fun a b => key a ≠ key b :=
    pairwise_map.mp (((mergeSort_perm l _).map key).nodup_iff.mpr h)
  exact (hle.and hne).imp fun ⟨hab, hne⟩ => lt_of_le_of_ne (of_decide_eq_true hab) hne

/-- **The least member is the head of the ranking.** -/
theorem Ranks.argmin (h : Ranks key l order) : l.argmin key = order.head? := by
  rcases order with - | ⟨a, order⟩
  · rw [nil_perm.mp h.perm]
    rfl
  have ha : a ∈ l := h.perm.subset mem_cons_self
  rcases hm : l.argmin key with - | m
  · rw [argmin_eq_none.mp hm] at ha
    cases ha
  · rcases mem_cons.mp (h.perm.symm.subset (argmin_mem hm)) with rfl | hlater
    · rfl
    · have hlt : key a < key m := rel_of_pairwise_cons h.increasing hlater
      exact absurd (le_of_mem_argmin ha hm) (not_le.mpr hlt)

theorem Ranks.tail (h : Ranks key l (a :: order)) (hl : l.Perm (a :: l')) : Ranks key l' order :=
  ⟨(perm_cons a).mp (h.perm.trans hl), h.increasing.of_cons⟩

end Lib
