/-
Hqsb/Lib/ExactTensor.lean

Tensors of real numbers, with the operations that broadcast and reduce.

Dimensions and indices are listed from the last one on, so that broadcasting lines them up at the
head of the lists.
-/
import Mathlib

namespace Lib

structure ExactTensor where
  dims : List ℕ
  entry : List ℕ → ℝ

namespace ExactTensor

/-- The dimensions of two tensors that are broadcast against each other. -/
def broadcastDims : List ℕ → List ℕ → Option (List ℕ)
  | [], ds => some ds
  | ds, [] => some ds
  | d :: ds, d' :: ds' =>
    if d = d' ∨ d' = 1 then (broadcastDims ds ds').map (d :: ·)
    else if d = 1 then (broadcastDims ds ds').map (d' :: ·)
    else none

/-- Where a tensor of these dimensions is read when it is broadcast. -/
def broadcastIndex : List ℕ → List ℕ → List ℕ
  | [], _ => []
  | _ :: ds, [] => 0 :: broadcastIndex ds []
  | d :: ds, i :: is => (if d = 1 then 0 else i) :: broadcastIndex ds is

variable (a b : ExactTensor)

def map (f : ℝ → ℝ) : ExactTensor := ⟨a.dims, fun i => f (a.entry i)⟩

/-- Entry by entry, broadcast; none where the dimensions do not fit. -/
def zipWith (f : ℝ → ℝ → ℝ) : Option ExactTensor :=
  (broadcastDims a.dims b.dims).map fun dims =>
    ⟨dims, fun i => f (a.entry (broadcastIndex a.dims i)) (b.entry (broadcastIndex b.dims i))⟩

/-- The axis that a dimension names: counted from the end when it is negative. -/
def axis? (dim : ℤ) : Option ℕ :=
  let axis := if dim < 0 then -dim - 1 else (a.dims.length : ℤ) - 1 - dim
  if 0 ≤ axis ∧ axis < a.dims.length then some axis.toNat else none

noncomputable def mean (dim : ℤ) (keepdim : Bool) : Option ExactTensor :=
  (a.axis? dim).map fun axis =>
    let size := a.dims.getD axis 1
    { dims := if keepdim then a.dims.set axis 1 else a.dims.eraseIdx axis
      entry := fun i =>
        (∑ j ∈ Finset.range size,
          a.entry (if keepdim then i.set axis j else i.insertIdx axis j)) / size }

/-- One over the square root. -/
noncomputable def rsqrt : ExactTensor := a.map fun x => (Real.sqrt x)⁻¹

end ExactTensor

end Lib
