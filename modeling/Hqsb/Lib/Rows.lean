/-
Hqsb/Lib/Rows.lean

A flat list as rows of one length.

`row stride flat r` is the slice of row `r`, and `setRow` overwrites it.  The rows of a list
make up the list, and writing the rows of a blank list one by one gives their concatenation.
-/
import Mathlib

namespace Lib.Rows

open List

variable {α : Type*} {stride : Nat}

/-- The slice `flat[r * stride : (r + 1) * stride]`. -/
def row (stride : Nat) (flat : List α) (r : Nat) : List α := (flat.drop (r * stride)).take stride

/-- The assignment `flat[r * stride : r * stride + stride] = line`. -/
def setRow (stride : Nat) (flat : List α) (r : Nat) (line : List α) : List α :=
  flat.take (r * stride) ++ line ++ flat.drop (r * stride + stride)

theorem flatMap_row (flat : List α) (n : Nat) :
    (List.range n).flatMap (row stride flat) = flat.take (n * stride) := by
  induction n with
  | zero => rw [Nat.zero_mul, range_zero, flatMap_nil, take_zero]
  | succ n ih =>
    rw [range_succ, flatMap_append, ih, flatMap_singleton, row, Nat.succ_mul,
      take_add]

theorem length_row {flat : List α} {n r : Nat} (h : flat.length = n * stride) (hr : r < n) :
    (row stride flat r).length = stride := by
  have hend : (r + 1) * stride ≤ n * stride := Nat.mul_le_mul_right stride hr
  rw [Nat.succ_mul] at hend
  rw [row, length_take, length_drop]
  omega

variable {line : Nat → List α} {n : Nat}

section

variable (hline : ∀ r < n, (line r).length = stride)

include hline

theorem length_flatMap_range : ((List.range n).flatMap line).length = n * stride := by
  induction n with
  | zero => rw [range_zero, flatMap_nil, Nat.zero_mul, length_nil]
  | succ n ih =>
    rw [range_succ, flatMap_append, length_append, flatMap_singleton,
      ih fun r hr => hline r (Nat.lt_succ_of_lt hr), hline n n.lt_succ_self, Nat.succ_mul]

/-- A row of lines that were put one after the other, whatever follows them. -/
theorem row_flatMap_append (rest : List α) {r : Nat}
    (hr : r < n) : row stride ((List.range n).flatMap line ++ rest) r = line r := by
  induction n generalizing rest with
  | zero => exact absurd hr r.not_lt_zero
  | succ n ih =>
    have hline' : ∀ r < n, (line r).length = stride := fun r hr => hline r (Nat.lt_succ_of_lt hr)
    rw [range_succ, flatMap_append, flatMap_singleton, append_assoc]
    rcases Nat.lt_succ_iff_lt_or_eq.mp hr with hlt | rfl
    · exact ih hline' _ hlt
    · have hbefore := length_flatMap_range hline'
      rw [row, ← hbefore, drop_left, ← hline r hr, take_left]

theorem row_flatMap {r : Nat} (hr : r < n) :
    row stride ((List.range n).flatMap line) r = line r := by
  simpa only [append_nil] using row_flatMap_append hline [] hr

/-- **Row by row.**  The rows that are written, and behind them the list as it was. -/
theorem foldl_setRow (blank : List α) :
    (List.range n).foldl (fun flat r => setRow stride flat r (line r)) blank =
      (List.range n).flatMap line ++ blank.drop (n * stride) := by
  induction n with
  | zero => rw [Nat.zero_mul]; rfl
  | succ n ih =>
    have hline' : ∀ r < n, (line r).length = stride := fun r hr => hline r (Nat.lt_succ_of_lt hr)
    have hbefore := length_flatMap_range hline'
    rw [range_succ, foldl_append, ih hline', foldl_cons, foldl_nil, setRow,
      take_left' hbefore, ← drop_drop, drop_left' hbefore, flatMap_append,
      flatMap_singleton, drop_drop, Nat.succ_mul]

end

end Lib.Rows
