/-
Hqsb/Lib/Tensor.lean

Dense rank-4 tensors, as far as caches of columns need them: rows × heads ×
columns × channels.

A tensor is its shape with a total reading function; only what lies inside the
shape is content, so equality of tensors is `Same`.  `slice` cuts a range of
columns out of one row, `cat` joins two tensors along the columns, `copyColumns`
writes a tensor over a range of columns of one row.  As in the array libraries
this models, the bounds of a slice are clamped to the shape and the source of a
copy is broadcast along dimensions of size one; a copy that does not fit is `none`.
-/
import Mathlib

namespace Lib

/-- A tensor with four dimensions, of elements of `itemsize` bytes. -/
structure Tensor (α : Type*) where
  dtype : String
  device : String
  itemsize : Nat
  rows : Nat
  heads : Nat
  columns : Nat
  channels : Nat
  get : (row head column channel : Nat) → α

namespace Tensor

variable {α : Type*}

/-- Equal shapes and equal contents. -/
structure Same (t u : Tensor α) : Prop where
  rows : t.rows = u.rows
  heads : t.heads = u.heads
  columns : t.columns = u.columns
  channels : t.channels = u.channels
  get : ∀ r h c d, r < t.rows → h < t.heads → c < t.columns → d < t.channels →
    t.get r h c d = u.get r h c d

/-- A tensor of zeros, with the dtype, heads and channels of `t`. -/
def zeros [Zero α] (t : Tensor α) (rows columns : Nat) : Tensor α :=
  { t with rows := rows, columns := columns, get := fun _ _ _ _ => 0 }

/-- `t[row:row + 1, :, start:stop, :]` -/
def slice (t : Tensor α) (row start stop : Nat) : Tensor α :=
  { t with
    rows := min (row + 1) t.rows - min row t.rows
    columns := min stop t.columns - min start t.columns
    get := fun r h c d => t.get (row + r) h (start + c) d }

def cat (t u : Tensor α) : Tensor α :=
  { t with
    columns := t.columns + u.columns
    get := fun r h c d => if c < t.columns then t.get r h c d else u.get r h (c - t.columns) d }

/-- A dimension of size `n` can be read where `m` is asked for. -/
def Broadcasts (n m : Nat) : Prop := n = m ∨ n = 1

instance (n m : Nat) : Decidable (Broadcasts n m) := inferInstanceAs (Decidable (_ ∨ _))

/-- The index a broadcast dimension of size `n` is read at. -/
def clip (n i : Nat) : Nat := if n = 1 then 0 else i

/-- `t[row, :, start:stop, :].copy_(u)` -/
def copyColumns (t : Tensor α) (row start stop : Nat) (u : Tensor α) : Option (Tensor α) :=
  let count := min stop t.columns - min start t.columns
  if Broadcasts u.rows 1 ∧ Broadcasts u.heads t.heads ∧ Broadcasts u.columns count ∧
      Broadcasts u.channels t.channels then
    some { t with
      get := fun r h c d =>
        if r = row ∧ start ≤ c ∧ c < start + count then
          u.get 0 (clip u.heads h) (clip u.columns (c - start)) (clip u.channels d)
        else t.get r h c d }
  else none

/-! ### Shapes -/

structure Shaped (t : Tensor α) (rows heads columns channels : Nat) : Prop where
  rows : t.rows = rows
  heads : t.heads = heads
  columns : t.columns = columns
  channels : t.channels = channels

variable {t u : Tensor α} {rows heads columns channels : Nat}

theorem Shaped.zeros [Zero α] (h : t.Shaped rows heads columns channels) (n m : Nat) :
    (t.zeros n m).Shaped n heads m channels := ⟨rfl, h.heads, rfl, h.channels⟩

theorem Shaped.slice (h : t.Shaped rows heads columns channels) {row start stop : Nat}
    (hrow : row < rows) (hle : start ≤ stop) (hstop : stop ≤ columns) :
    (t.slice row start stop).Shaped 1 heads (stop - start) channels where
  rows := by
    show min (row + 1) t.rows - min row t.rows = 1
    rw [h.rows]
    omega
  heads := h.heads
  columns := by
    show min stop t.columns - min start t.columns = stop - start
    rw [h.columns]
    omega
  channels := h.channels

theorem Shaped.cat {columns' : Nat} (h : t.Shaped rows heads columns channels)
    (hu : u.Shaped rows heads columns' channels) :
    (t.cat u).Shaped rows heads (columns + columns') channels where
  rows := h.rows
  heads := h.heads
  columns := by
    show t.columns + u.columns = columns + columns'
    rw [h.columns, hu.columns]
  channels := h.channels

theorem clip_of_lt {n i : Nat} (h : i < n) : clip n i = i := by
  rw [clip]
  split_ifs with h1
  · omega
  · rfl

/-- A copy of the right shape goes through and writes exactly its columns. -/
theorem Shaped.copyColumns (h : t.Shaped rows heads columns channels) (row start stop : Nat)
    (hu : u.Shaped 1 heads (stop - start) channels) (hle : start ≤ stop) (hstop : stop ≤ columns) :
    ∃ t', t.copyColumns row start stop u = some t' ∧ t'.Shaped rows heads columns channels ∧
      ∀ r h c d, h < heads → d < channels → t'.get r h c d =
        if r = row ∧ start ≤ c ∧ c < stop then u.get 0 h (c - start) d else t.get r h c d := by
  have hcount : min stop t.columns - min start t.columns = stop - start := by
    rw [h.columns]
    omega
  refine ⟨_, if_pos ⟨.inl hu.rows, .inl (hu.heads.trans h.heads.symm),
    .inl (hu.columns.trans hcount.symm), .inl (hu.channels.trans h.channels.symm)⟩,
    { h with }, ?_⟩
  intro r hd c d hh hdlt
  have hend : start + (stop - start) = stop := by omega
  simp only [hcount, hend, hu.heads, hu.columns, hu.channels]
  split_ifs with hin
  · rw [clip_of_lt hh, clip_of_lt (by omega), clip_of_lt hdlt]
  · rfl

theorem Shaped.same (h : t.Shaped rows heads columns channels)
    (hu : u.Shaped rows heads columns channels)
    (hget : ∀ r h c d, r < rows → h < heads → c < columns → d < channels →
      t.get r h c d = u.get r h c d) : Same t u where
  rows := h.rows.trans hu.rows.symm
  heads := h.heads.trans hu.heads.symm
  columns := h.columns.trans hu.columns.symm
  channels := h.channels.trans hu.channels.symm
  get r hd c d hr hh hc hdlt :=
    hget r hd c d (h.rows ▸ hr) (h.heads ▸ hh) (h.columns ▸ hc) (h.channels ▸ hdlt)

end Tensor

end Lib
