/-
Hqsb/Lib/Nearest.lean

Rounding to a nearest integer.

Nothing here depends on how ties are resolved: `IsNearest x r` says that `r` is at most
half a step away from `x`, and every rule follows from that alone.  A value `x` that is
divided by a step `s`, rounded to `r` and multiplied again is off by at most `s / 2`.
-/
import Mathlib

namespace Lib

variable {K : Type*} [Field K] [LinearOrder K] [IsStrictOrderedRing K]

/-- No integer is closer to `x` than `r`. -/
def IsNearest (x : K) (r : ℤ) : Prop := |x - r| ≤ 1 / 2

namespace IsNearest

variable {x : K} {r n : ℤ}

theorem le (h : IsNearest x r) (hx : x ≤ n) : r ≤ n := by
  have hlow : (r : K) - x ≤ 1 / 2 := by
    rw [← neg_sub]
    exact neg_le_of_neg_le (abs_le.mp h).1
  have hstrict : (r : K) < n + 1 := by linarith
  exact Int.lt_add_one_iff.mp (by exact_mod_cast hstrict)

omit [IsStrictOrderedRing K] in
theorem neg (h : IsNearest x r) : IsNearest (-x) (-r) := by
  rw [IsNearest, Int.cast_neg, ← neg_sub', abs_neg]
  exact h

theorem ge (h : IsNearest x r) (hx : n ≤ x) : n ≤ r := by
  have hneg : -x ≤ ((-n : ℤ) : K) := by
    rw [Int.cast_neg]
    exact neg_le_neg hx
  exact neg_le_neg_iff.mp (h.neg.le hneg)

theorem eq_of_intCast (h : IsNearest (n : K) r) : r = n :=
  le_antisymm (h.le le_rfl) (h.ge le_rfl)

theorem mono {rnd : K → ℤ} (hrnd : ∀ x, IsNearest x (rnd x)) : Monotone rnd := by
  intro x y hxy
  rcases hxy.eq_or_lt with rfl | hlt
  · exact le_rfl
  have hx := (abs_le.mp (hrnd x)).1
  have hy := (abs_le.mp (hrnd y)).2
  have hless : (rnd x : K) < rnd y + 1 := by linarith
  exact Int.lt_add_one_iff.mp (by exact_mod_cast hless)

/-- **Half a step.**  What rounding on a grid of step `s` loses. -/
theorem abs_sub_mul_le {s : K} (hs : 0 < s) (h : IsNearest (x / s) r) : |x - s * r| ≤ s / 2 := by
  have hfactor : x - s * r = s * (x / s - r) := by
    rw [mul_sub, mul_div_cancel₀ x hs.ne']
  calc |x - s * r| = s * |x / s - r| := by rw [hfactor, abs_mul, abs_of_pos hs]
    _ ≤ s * (1 / 2) := mul_le_mul_of_nonneg_left h hs.le
    _ = s / 2 := mul_one_div s 2

variable [FloorRing K]

theorem floor (h : x - ⌊x⌋ ≤ 1 / 2) : IsNearest x ⌊x⌋ := by
  rw [IsNearest, abs_of_nonneg (sub_nonneg.mpr (Int.floor_le x))]
  exact h

theorem floor_add_one (h : 1 / 2 ≤ x - ⌊x⌋) : IsNearest x (⌊x⌋ + 1) := by
  have habove : x < ⌊x⌋ + 1 := Int.lt_floor_add_one x
  rw [IsNearest, Int.cast_add, Int.cast_one, abs_of_nonpos (by linarith)]
  linarith

end IsNearest

end Lib
