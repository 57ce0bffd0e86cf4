/-
Hqsb/Lib/Tiling.lean

Cutting a range into consecutive parts.

Where the parts start is an increasing sequence of numbers, and every number below the end
lies in exactly one part (`existsUnique_part`).  `cut` is the sequence of the parts that are as
equal as they can be: each has the same length, the first ones one more.
-/
import Mathlib

namespace Lib.Tiling

open List

/-! ### Parts -/

section Parts

variable {start : Nat → Nat} (hmono : Monotone start)

include hmono

/-- **Every number lies in one part.** -/
theorem existsUnique_part (hzero : start 0 = 0) {count n : Nat} (hn : n < start count) :
    ∃! i, i < count ∧ start i ≤ n ∧ n < start (i + 1) := by
  have hexists : ∃ i < count, start i ≤ n ∧ n < start (i + 1) := by
    induction count with
    | zero =>
      rw [hzero] at hn
      exact absurd hn (Nat.not_lt_zero n)
    | succ count ih =>
      rcases lt_or_ge n (start count) with hlt | hge
      · obtain ⟨i, hi, hpart⟩ := ih hlt
        exact ⟨i, Nat.lt_succ_of_lt hi, hpart⟩
      · exact ⟨count, Nat.lt_succ_self count, hge, hn⟩
  obtain ⟨i, hi, hpart⟩ := hexists
  refine ⟨i, ⟨hi, hpart⟩, ?_⟩
  rintro j ⟨-, hle, hlt⟩
  -- a part that starts later starts behind the number
  rcases Nat.lt_trichotomy j i with hji | hji | hij
  · exact absurd hlt (Nat.not_lt_of_le (Nat.le_trans (hmono hji) hpart.1))
  · exact hji
  · exact absurd hpart.2 (Nat.not_lt_of_le (Nat.le_trans (hmono hij) hle))

end Parts

/-! ### Ranges end to end -/

section Laid

variable {α : Type*} [LinearOrder α]

/-- Each range starts where the furthest one before it ends. -/
def Laid : α → List (α × α) → α → Prop
  | cursor, [], stop => cursor = stop
  | cursor, range :: rest, stop => range.1 = cursor ∧ Laid (max cursor range.2) rest stop

def inRange (n : α) (range : α × α) : Bool := range.1 ≤ n ∧ n < range.2

theorem Laid.le {cursor stop : α} {ranges : List (α × α)} (h : Laid cursor ranges stop) :
    cursor ≤ stop := by
  induction ranges generalizing cursor with
  | nil => exact le_of_eq h
  | cons range rest ih => exact (le_max_left cursor range.2).trans (ih h.2)

/-- **Ranges end to end** have every number once, and no other. -/
theorem Laid.countP_inRange {cursor stop : α} {ranges : List (α × α)}
    (h : Laid cursor ranges stop) (n : α) :
    ranges.countP (inRange n) = if cursor ≤ n ∧ n < stop then 1 else 0 := by
  induction ranges generalizing cursor with
  | nil =>
    obtain rfl : cursor = stop := h
    rw [countP_nil, if_neg fun hin => absurd hin.2 (not_lt.mpr hin.1)]
  | cons range rest ih =>
    obtain ⟨rfl, hrest⟩ := h
    have hle := hrest.le
    rw [countP_cons, ih hrest]
    by_cases hin : inRange n range = true
    · -- the first range has it, so the others start behind it
      have hbounds : range.1 ≤ n ∧ n < range.2 := of_decide_eq_true hin
      have hstop : n < stop := hbounds.2.trans_le ((le_max_right _ _).trans hle)
      have hbehind : ¬ (max range.1 range.2 ≤ n ∧ n < stop) := fun hlater =>
        absurd hbounds.2 (not_lt.mpr ((le_max_right _ _).trans hlater.1))
      rw [if_pos hin, if_neg hbehind, if_pos ⟨hbounds.1, hstop⟩]
    · have hbounds : ¬ (range.1 ≤ n ∧ n < range.2) := fun hbounds => hin (decide_eq_true hbounds)
      have hsame : (max range.1 range.2 ≤ n ∧ n < stop) ↔ (range.1 ≤ n ∧ n < stop) := by
        constructor
        · exact fun hlater => ⟨(le_max_left _ _).trans hlater.1, hlater.2⟩
        · intro hlater
          refine ⟨max_le hlater.1 (not_lt.mp fun hlt => hbounds ⟨hlater.1, hlt⟩), hlater.2⟩
      rw [if_neg hin, add_zero]
      simp only [hsame]

theorem laid_of_monotone {start : Nat → α} (hmono : Monotone start) (count : Nat) {first : Nat} :
    Laid (start first) ((List.range' first count).map fun i => (start i, start (i + 1)))
      (start (first + count)) := by
  induction count generalizing first with
  | zero => rfl
  | succ count ih =>
    refine ⟨rfl, ?_⟩
    rw [max_eq_right (hmono (Nat.le_succ first)), ← add_assoc, add_right_comm]
    exact ih

end Laid

/-! ### Slices end to end -/

section Slices

variable {α : Type*} (l : List α)

theorem slice_append {a b c : Nat} (hab : a ≤ b) (hbc : b ≤ c) :
    (l.take b).drop a ++ (l.take c).drop b = (l.take c).drop a := by
  have h := take_add (l := l.drop a) (i := b - a) (j := c - b)
  rw [drop_drop, Nat.add_sub_cancel' hab, add_comm, Nat.sub_add_sub_cancel hbc hab] at h
  rw [drop_take, drop_take, drop_take, h]

/-- The slices between increasing places make up the slice between the first and the last. -/
theorem flatMap_slices {start : Nat → Nat} (hmono : Monotone start) (n : Nat) :
    ((List.range n).flatMap fun i => (l.take (start (i + 1))).drop (start i)) =
      (l.take (start n)).drop (start 0) := by
  induction n with
  | zero => rw [drop_take, Nat.sub_self]; rfl
  | succ n ih =>
    rw [range_succ, flatMap_append, ih, flatMap_singleton,
      slice_append l (hmono n.zero_le) (hmono n.le_succ)]

end Slices

/-! ### Equal parts -/

/-- Where part `i` starts. -/
def cut (base remainder : Nat) (i : Nat) : Nat := i * base + min i remainder

theorem cut_succ (base remainder i : Nat) : cut base remainder (i + 1) =
      cut base remainder i + (base + if i < remainder then 1 else 0) := by
  rw [cut, cut, Nat.succ_mul]
  split_ifs <;> omega

theorem cut_even (base i : Nat) : cut base 0 i = i * base := by
  rw [cut, Nat.min_zero, add_zero]

theorem cut_zero (base remainder : Nat) : cut base remainder 0 = 0 := by
  rw [cut, zero_mul, Nat.zero_min]

theorem cut_mono (base remainder : Nat) : Monotone (cut base remainder) := fun _ _ h =>
  Nat.add_le_add (Nat.mul_le_mul_right _ h) (min_le_min_right _ h)

theorem cut_total (total : Nat) {count : Nat} (hcount : 0 < count) :
    cut (total / count) (total % count) count = total := by
  rw [cut, min_eq_right (Nat.mod_lt _ hcount).le, Nat.div_add_mod]

/-- **Equal parts.**  Every number below the total lies in one of them. -/
theorem existsUnique_cut {total count n : Nat} (hcount : 0 < count) (hn : n < total) :
    ∃! i, i < count ∧ cut (total / count) (total % count) i ≤ n ∧
      n < cut (total / count) (total % count) (i + 1) :=
  existsUnique_part (cut_mono _ _) (cut_zero _ _) (by rwa [cut_total total hcount])

end Lib.Tiling
