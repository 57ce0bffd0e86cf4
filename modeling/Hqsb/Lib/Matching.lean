/-
Hqsb/Lib/Matching.lean

Matching the entries of two lists.

A matching pairs the positions of one list with those of the other so that what is compared
agrees.  There is one exactly when the compared values are permutations of each other
(`matched_iff_perm`), and that can be checked key by key (`perm_iff_filter`).
-/
import Mathlib

namespace Lib

open List

variable {α β γ : Type*}

/-- A pairing of the positions of `l` and `m` under which `f` and `g` agree. -/
def Matched (f : α → γ) (g : β → γ) (l : List α) (m : List β) : Prop :=
  ∃ σ : Fin l.length ≃ Fin m.length, ∀ i, g (m.get (σ i)) = f (l.get i)

section Perm

variable [DecidableEq γ]

theorem card_positions (f : α → γ) (l : List α) (c : γ) :
    Fintype.card { i // f (l.get i) = c } = (l.map f).count c := by
  have hcount := Fin.card_filter_univ_eq_vector_get_eq_count c
    (⟨l.map f, length_map f⟩ : List.Vector γ l.length)
  rw [Fintype.card_subtype]
  refine Eq.trans (congrArg Finset.card (Finset.filter_congr fun i _ => ?_)) hcount
  show f (l.get i) = c ↔ List.get _ _ = c
  rw [get_eq_getElem, get_eq_getElem, getElem_map]
  rfl

/-- **Matchings.**  A pairing is there when the compared values are the same up to order. -/
theorem matched_iff_perm (f : α → γ) (g : β → γ) (l : List α) (m : List β) :
    Matched f g l m ↔ (l.map f).Perm (m.map g) := by
  rw [perm_iff_count]
  constructor
  · rintro ⟨σ, hσ⟩ c
    rw [← card_positions, ← card_positions]
    refine Fintype.card_congr (σ.subtypeEquiv fun i => ?_)
    rw [hσ]
  · intro hcount
    have hfiber : ∀ c, Nonempty ({ i // f (l.get i) = c } ≃ { j // g (m.get j) = c }) := by
      intro c
      rw [← Fintype.card_eq, card_positions, card_positions]
      exact hcount c
    exact ⟨Equiv.ofFiberEquiv fun c => (hfiber c).some,
      fun i => Equiv.ofFiberEquiv_map (fun c => (hfiber c).some) i⟩

variable {κ : Type*} [DecidableEq κ]

theorem perm_iff_filter (key : γ → κ) (l m : List γ) :
    l.Perm m ↔ ∀ k, (l.filter fun a => key a = k).Perm (m.filter fun a => key a = k) := by
  constructor
  · intro h k
    exact h.filter _
  · intro h
    rw [perm_iff_count]
    intro a
    have hkey := (perm_iff_count.mp (h (key a))) a
    rwa [count_filter (by simp), count_filter (by simp)] at hkey

end Perm

end Lib
