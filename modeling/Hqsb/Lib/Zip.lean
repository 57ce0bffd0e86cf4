/-
Hqsb/Lib/Zip.lean

Lists read in step with other lists or with their positions.
-/
import Mathlib

namespace Lib

open List

variable {α β γ : Type*}

theorem map_fst_zip_sublist (l : List α) (l' : List β) : ((l.zip l').map Prod.fst).Sublist l := by
  induction l generalizing l' with
  | nil => simp
  | cons a l ih =>
    rcases l' with - | ⟨b, l'⟩
    · simp
    · simpa using ih l'

theorem map_fst_zipIdx (l : List α) (f : α → β) : (l.zipIdx.map fun r => f r.1) = l.map f := by
  conv_rhs => rw [← zipIdx_map_fst 0 l, map_map]
  rfl

theorem exists_mem_zipIdx {l : List α} {a : α} (h : a ∈ l) : ∃ i, (a, i) ∈ l.zipIdx := by
  obtain ⟨i, hi, rfl⟩ := mem_iff_getElem.mp h
  exact ⟨i, mem_zipIdx_iff_getElem?.mpr (List.getElem?_eq_getElem hi)⟩

theorem find?_zipIdx_eq_none {l : List α} {p : α → Bool} :
    (l.zipIdx.find? fun e => p e.1) = none ↔ ∀ a ∈ l, p a = false := by
  rw [List.find?_eq_none]
  constructor
  · intro h a ha
    obtain ⟨i, hi⟩ := exists_mem_zipIdx ha
    exact Bool.eq_false_iff.mpr (h (a, i) hi)
  · intro h e he
    exact Bool.eq_false_iff.mp (h e.1 (fst_mem_of_mem_zipIdx he))

end Lib
