/-
Hqsb/Lib/FairShare.lean

Serving the least served.

Each of some customers `i` has a weight `w i` and has been served `v i`.  If the next charge,
of at most `C`, always goes to a customer with the least normalised service `v i / w i`, then
no customer is ever ahead of another by more than one charge:

    v i / w i ≤ v j / w j + C / w i.

Whoever looks at the services may see them a little wrong, by a factor `ρ` and an amount `ε`:
then the bound is kept up to these (`Lag`), whatever the charges are and however ties are broken.

Of two customers, one can be ahead by more at the beginning.  The lead does not grow as long as
the leader is charged only when he has been served least (`lead_charge`).
-/
import Mathlib

namespace Lib.FairShare

variable {κ K : Type*} [Field K] [LinearOrder K] [IsStrictOrderedRing K]
  {customers : Set κ} {w v : κ → K} {C ρ ε : K}

/-- Nobody is ahead by more than one charge, up to a factor and an amount. -/
def Lag (customers : Set κ) (w : κ → K) (C ρ ε : K) (v : κ → K) : Prop :=
  ∀ i ∈ customers, ∀ j ∈ customers, v i / w i ≤ ρ * (v j / w j) + ε + C / w i

theorem Lag.mono (h : Lag customers w C ρ ε v) (hw : ∀ i ∈ customers, 0 < w i)
    (hv : ∀ i ∈ customers, 0 ≤ v i) {ρ' ε' : K} (hρ : ρ ≤ ρ') (hε : ε ≤ ε') :
    Lag customers w C ρ' ε' v := by
  intro i hi j hj
  have hmore : ρ * (v j / w j) ≤ ρ' * (v j / w j) :=
    mul_le_mul_of_nonneg_right hρ (div_nonneg (hv j hj) (hw j hj).le)
  linarith [h i hi j hj]

/-- **One charge** to a least served customer. -/
theorem Lag.charge [DecidableEq κ] (h : Lag customers w C ρ ε v) (hw : ∀ i ∈ customers, 0 < w i)
    (hv : ∀ i ∈ customers, 0 ≤ v i) (hρ : 1 ≤ ρ) (hε : 0 ≤ ε) {i : κ}
    (hleast : ∀ j ∈ customers, v i / w i ≤ ρ * (v j / w j) + ε) {c : K}
    (hc : 0 ≤ c) (hcC : c ≤ C) : Lag customers w C ρ ε (Function.update v i (v i + c)) := by
  intro j hj k hk
  have hmore : v i ≤ v i + c := le_add_of_nonneg_right hc
  by_cases hji : j = i <;> by_cases hki : k = i
  · subst hji hki
    have hpos : 0 ≤ (v k + c) / w k := div_nonneg ((hv k hk).trans hmore) (hw k hk).le
    have hcharge : 0 ≤ C / w k := div_nonneg (hc.trans hcC) (hw k hk).le
    rw [Function.update_self]
    linarith [le_mul_of_one_le_left hpos hρ]
  · -- the customer who was charged had been served least
    subst hji
    rw [Function.update_self, Function.update_of_ne hki, add_div]
    exact add_le_add (hleast k hk) (div_le_div_of_nonneg_right hcC (hw j hj).le)
  · subst hki
    rw [Function.update_self, Function.update_of_ne hji]
    have hgrown : ρ * (v k / w k) ≤ ρ * ((v k + c) / w k) :=
      mul_le_mul_of_nonneg_left (div_le_div_of_nonneg_right hmore (hw k hk).le)
        (zero_le_one.trans hρ)
    linarith [h j hj k hk]
  · rw [Function.update_of_ne hji, Function.update_of_ne hki]
    exact h j hj k hk

/-- **One charge** to anybody, where `i` is only charged when `j` has been served no less. -/
theorem lead_charge [DecidableEq κ] {i j k : κ} {lead : K} (h : v i / w i - v j / w j ≤ lead)
    (hi : 0 < w i) (hj : 0 < w j) (hij : i ≠ j) (hlead : C / w i ≤ lead)
    (hleast : k = i → v i / w i ≤ v j / w j) {c : K} (hc : 0 ≤ c) (hcC : c ≤ C) :
    Function.update v k (v k + c) i / w i - Function.update v k (v k + c) j / w j ≤ lead := by
  by_cases hki : k = i
  · subst hki
    rw [Function.update_self, Function.update_of_ne hij.symm, add_div]
    have hcharge : c / w k ≤ C / w k := div_le_div_of_nonneg_right hcC hi.le
    have := hleast rfl
    linarith
  · rw [Function.update_of_ne (Ne.symm hki)]
    by_cases hkj : k = j
    · subst hkj
      rw [Function.update_self, add_div]
      have hcharge : 0 ≤ c / w k := div_nonneg hc hj.le
      linarith
    · rwa [Function.update_of_ne (Ne.symm hkj)]

/-- The bound in terms of the least weight. -/
theorem Lag.le (h : Lag customers w C ρ ε v) (hw : ∀ i ∈ customers, 0 < w i) (hC : 0 ≤ C)
    {low : K} (hlow : IsLeast (w '' customers) low) {i j : κ} (hi : i ∈ customers)
    (hj : j ∈ customers) : v i / w i ≤ ρ * (v j / w j) + ε + C / low := by
  have hpos : 0 < low := by
    obtain ⟨k, hk, rfl⟩ := hlow.1
    exact hw k hk
  have hbound : C / w i ≤ C / low := div_le_div_of_nonneg_left hC hpos (hlow.2 ⟨i, hi, rfl⟩)
  linarith [h i hi j hj]

end Lib.FairShare
