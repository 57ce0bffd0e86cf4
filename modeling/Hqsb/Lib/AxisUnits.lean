/-
Hqsb/Lib/AxisUnits.lean

Groups along one axis of a row-major array.

An array of `outer` blocks, each of `dim` slices of `stride` entries, has the entry with
coordinate `c` along the axis at

    (a * dim + c) * stride + b,      a < outer, c < dim, b < stride.

Cut into groups of `size` coordinates, the axis has `unitsOf dim size` groups, the last of
which may be short, and the entry belongs to unit `(a * stride + b) * unitsOf dim size + c / size`.
`axisUnit` computes that from the flat index, and the units are exactly the numbers below
`outer * stride * unitsOf dim size`: none is missed and none is empty.
-/
import Mathlib

namespace Lib.AxisUnits

open List

/-- Number of groups along the axis. -/
def unitsOf (dim size : Nat) : Nat := (dim + size - 1) / size

def axisUnit (stride dim size i : Nat) : Nat :=
  (i / (stride * dim) * stride + i % stride) * unitsOf dim size + i / stride % dim / size

theorem digits_lt {a b n m : Nat} (ha : a < n) (hb : b < m) : a * m + b < n * m :=
  calc a * m + b < a * m + m := Nat.add_lt_add_left hb _
    _ = (a + 1) * m := (Nat.succ_mul a m).symm
    _ ≤ n * m := Nat.mul_le_mul_right m ha

theorem digits_div {a b m : Nat} (hb : b < m) : (a * m + b) / m = a := by
  rw [mul_comm, Nat.mul_add_div (Nat.zero_lt_of_lt hb), Nat.div_eq_of_lt hb, add_zero]

theorem digits_mod {a b m : Nat} (hb : b < m) : (a * m + b) % m = b := by
  rw [mul_comm, Nat.mul_add_mod, Nat.mod_eq_of_lt hb]

theorem lt_unitsOf_iff {dim size : Nat} (hsize : 0 < size) (g : Nat) :
    g < unitsOf dim size ↔ g * size < dim := by
  rw [unitsOf, Nat.lt_iff_add_one_le, Nat.le_div_iff_mul_le hsize, Nat.succ_mul]
  omega

variable {outer stride dim size : Nat}

theorem axisUnit_lt (hdim : 0 < dim) (hstride : 0 < stride) (hsize : 0 < size) {i : Nat}
    (hi : i < outer * dim * stride) :
    axisUnit stride dim size i < outer * stride * unitsOf dim size := by
  refine digits_lt (digits_lt ?_ (Nat.mod_lt i hstride)) ?_
  · apply Nat.div_lt_of_lt_mul
    calc i < outer * dim * stride := hi
      _ = stride * dim * outer := by ring
  · apply (lt_unitsOf_iff hsize _).mpr
    exact (Nat.div_mul_le_self _ size).trans_lt (Nat.mod_lt _ hdim)

/-- **No unit is empty.** -/
theorem exists_axisUnit_eq (hstride : 0 < stride) (hsize : 0 < size) {unit : Nat}
    (hunit : unit < outer * stride * unitsOf dim size) :
    ∃ i < outer * dim * stride, axisUnit stride dim size i = unit := by
  have hpos : 0 < unitsOf dim size :=
    pos_of_ne_zero fun hzero => Nat.not_lt_zero unit (by rwa [hzero] at hunit)
  -- read the unit as its row and its group, and the row as its two coordinates
  have hgroup : unit % unitsOf dim size * size < dim :=
    (lt_unitsOf_iff hsize _).mp (Nat.mod_lt unit hpos)
  have hrow : unit / unitsOf dim size < outer * stride :=
    Nat.div_lt_of_lt_mul (by rwa [mul_comm] at hunit)
  have houter : unit / unitsOf dim size / stride < outer :=
    Nat.div_lt_of_lt_mul (by rwa [mul_comm] at hrow)
  have hrest := Nat.mod_lt (unit / unitsOf dim size) hstride
  refine ⟨(unit / unitsOf dim size / stride * dim + unit % unitsOf dim size * size) * stride +
    unit / unitsOf dim size % stride, digits_lt (digits_lt houter hgroup) hrest, ?_⟩
  rw [axisUnit, ← Nat.div_div_eq_div_mul, digits_div hrest, digits_mod hrest, digits_div hgroup,
    digits_mod hgroup, Nat.mul_div_cancel _ hsize, Nat.div_add_mod', Nat.div_add_mod']

theorem axisUnit_contiguous (h : stride = 1 ∨ dim = 1) (i : Nat) :
    axisUnit stride dim size i = i / dim * unitsOf dim size + i % dim / size := by
  rw [axisUnit]
  rcases h with rfl | rfl
  · rw [one_mul, mul_one, Nat.mod_one, add_zero, Nat.div_one]
  · rw [mul_one, Nat.div_add_mod', Nat.mod_one, Nat.mod_one, Nat.div_one]

theorem flatMap_range_eq_range (rows n : Nat) :
    ((List.range rows).flatMap fun row => (List.range n).map fun unit => row * n + unit) =
      List.range (rows * n) := by
  induction rows with
  | zero => rw [zero_mul, range_zero, flatMap_nil]
  | succ rows ih =>
    rw [range_succ, flatMap_append, ih, flatMap_singleton, Nat.succ_mul,
      range_add]

theorem slice_iff (hsize : 0 < size) {row unit i : Nat} (hunit : unit * size < dim) :
    i / dim * unitsOf dim size + i % dim / size = row * unitsOf dim size + unit ↔
      row * dim + unit * size ≤ i ∧
        i < row * dim + unit * size + min size (dim - unit * size) := by
  have hdim : 0 < dim := (Nat.zero_le _).trans_lt hunit
  have hrest := Nat.mod_lt i hdim
  have hcoordinate : i % dim / size < unitsOf dim size :=
    (lt_unitsOf_iff hsize _).mpr ((Nat.div_mul_le_self _ size).trans_lt hrest)
  have hgroup : unit < unitsOf dim size := (lt_unitsOf_iff hsize _).mpr hunit
  have hsplit := Nat.div_add_mod' i dim
  constructor
  · intro h
    have hrow : i / dim = row := by
      rw [← digits_div (a := i / dim) hcoordinate, h, digits_div hgroup]
    have hunit' : i % dim / size = unit := by
      rw [← digits_mod (a := i / dim) hcoordinate, h, digits_mod hgroup]
    have hlow := Nat.div_mul_le_self (i % dim) size
    have hhigh := Nat.lt_div_mul_add (a := i % dim) hsize
    rw [hunit'] at hlow hhigh
    rw [hrow] at hsplit
    omega
  · rintro ⟨hlow, hhigh⟩
    have hrow : i / dim = row := by
      apply Nat.div_eq_of_lt_le
      · omega
      · rw [Nat.succ_mul]
        omega
    rw [hrow] at hsplit ⊢
    have hunit' : i % dim / size = unit := by
      apply Nat.div_eq_of_lt_le
      · omega
      · rw [Nat.succ_mul]
        omega
    rw [hunit']

end Lib.AxisUnits
