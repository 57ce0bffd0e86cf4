/-
Hqsb/Lib/Grouping.lean

Lists put together from blocks.

`(List.range n).flatMap block` is the concatenation of the blocks `0, …, n - 1`, and
`startOf block e` is where block `e` begins in it.  Every position lies in exactly one block
(`exists_block`), and reads the block there (`getElem?_flatMap`).  When the blocks hold the
entries of a list by key, the concatenation is a permutation of the list (`flatMap_perm`).
-/
import Mathlib

namespace Lib.Grouping

open List

variable {α : Type*}

/-- Where block `e` begins. -/
def startOf (block : Nat → List α) (e : Nat) : Nat :=
  ((List.range e).map fun i => (block i).length).sum

variable (block : Nat → List α)

@[simp] theorem startOf_zero : startOf block 0 = 0 := rfl

theorem startOf_succ (e : Nat) : startOf block (e + 1) = startOf block e + (block e).length := by
  rw [startOf, range_succ, map_append, sum_append, map_singleton,
    sum_singleton, ← startOf]

theorem startOf_mono {d e : Nat} (h : d ≤ e) : startOf block d ≤ startOf block e := by
  obtain ⟨k, rfl⟩ := Nat.exists_eq_add_of_le h
  clear h
  induction k with
  | zero => exact Nat.le_refl _
  | succ k ih =>
    rw [← add_assoc, startOf_succ]
    exact Nat.le_trans ih (Nat.le_add_right _ _)

theorem length_flatMap (n : Nat) : ((List.range n).flatMap block).length = startOf block n := by
  rw [List.length_flatMap]
  rfl

/-- A position of block `e` reads the block. -/
theorem getElem?_flatMap {n e i : Nat} (he : e < n) (hi : i < (block e).length) :
    ((List.range n).flatMap block)[startOf block e + i]? = (block e)[i]? := by
  induction n with
  | zero => exact absurd he (Nat.not_lt_zero e)
  | succ n ih =>
    have hend : startOf block e + i < startOf block (e + 1) := by
      rw [startOf_succ]
      exact Nat.add_lt_add_left hi _
    rw [range_succ, flatMap_append, flatMap_singleton]
    rcases Nat.lt_or_ge e n with hlt | hge
    · have hin : startOf block e + i < ((List.range n).flatMap block).length := by
        rw [length_flatMap]
        exact Nat.lt_of_lt_of_le hend (startOf_mono block hlt)
      rw [List.getElem?_append_left hin]
      exact ih hlt
    · obtain rfl : e = n := Nat.le_antisymm (Nat.le_of_lt_succ he) hge
      rw [List.getElem?_append_right (by rw [length_flatMap]; exact Nat.le_add_right _ _),
        length_flatMap, Nat.add_sub_cancel_left]

/-- **Every position lies in a block.** -/
theorem exists_block {n p : Nat} (h : p < startOf block n) :
    ∃ e < n, startOf block e ≤ p ∧ p < startOf block e + (block e).length := by
  induction n with
  | zero => exact absurd h (Nat.not_lt_zero p)
  | succ n ih =>
    rcases Nat.lt_or_ge p (startOf block n) with hlt | hge
    · obtain ⟨e, he, hp⟩ := ih hlt
      exact ⟨e, Nat.lt_succ_of_lt he, hp⟩
    · rw [startOf_succ] at h
      exact ⟨n, Nat.lt_succ_self n, hge, h⟩

theorem mem_block_of_getElem? {n p : Nat} {a : α}
    (h : ((List.range n).flatMap block)[p]? = some a) :
    ∃ e < n, startOf block e ≤ p ∧ p < startOf block e + (block e).length ∧ a ∈ block e := by
  have hp : p < startOf block n := by
    rw [← length_flatMap]
    exact (List.getElem?_eq_some_iff.mp h).1
  obtain ⟨e, he, hle, hlt⟩ := exists_block block hp
  obtain ⟨i, rfl⟩ := Nat.exists_eq_add_of_le hle
  rw [getElem?_flatMap block he (Nat.lt_of_add_lt_add_left hlt)] at h
  exact ⟨e, he, hle, hlt, mem_of_getElem? h⟩

/-! ### Blocks by key -/

/-- **Grouping permutes.**  Blocks that hold the entries of a list by key make up the list. -/
theorem flatMap_perm {l : List α} {key : α → Nat} {n : Nat} (hkey : ∀ a ∈ l, key a < n)
    (hblock : ∀ e < n, (block e).Perm (l.filter fun a => decide (key a = e))) :
    ((List.range n).flatMap block).Perm l := by
  classical
  induction n generalizing l with
  | zero =>
    rcases l with - | ⟨a, l⟩
    · exact List.Perm.refl _
    · exact absurd (hkey a mem_cons_self) (Nat.not_lt_zero _)
  | succ n ih =>
    rw [range_succ, flatMap_append, flatMap_singleton]
    -- the entries below `n`, and the entries at `n`
    have hsplit : (l.filter (fun a => decide (key a < n)) ++
        l.filter (fun a => !decide (key a < n))).Perm l := filter_append_perm _ l
    refine (List.Perm.append (ih (l := l.filter fun a => decide (key a < n)) ?_ ?_) ?_).trans
      hsplit
    · intro a ha
      simpa using (mem_filter.mp ha).2
    · intro e he
      refine (hblock e (Nat.lt_succ_of_lt he)).trans ?_
      rw [filter_filter]
      refine List.Perm.of_eq (filter_congr fun a _ => ?_)
      by_cases ha : key a = e
      · simp [ha, he]
      · simp [ha]
    · refine (hblock n (Nat.lt_succ_self n)).trans (List.Perm.of_eq ?_)
      refine filter_congr fun a ha => ?_
      have hle := Nat.le_of_lt_succ (hkey a ha)
      by_cases han : key a = n
      · simp [han]
      · simp [han, Nat.lt_of_le_of_ne hle han]

end Lib.Grouping
