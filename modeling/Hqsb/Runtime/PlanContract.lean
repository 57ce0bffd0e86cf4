/-
Hqsb/Runtime/PlanContract.lean

What a plan promises the engine (`plan` of `hqsb/runtime/scheduler_policies.py`).

`plan` runs one pass of `allocate`, or three of them over one shared budget.  A
pass is described by what it adds to the selection: it spends exactly the tokens
of the steps it adds (`allocate_spends`), it adds no more steps than it has slots,
and its first candidate is served when a slot and the tokens are there
(`cut_mem_allocate`).  The quota carved out for prefill is what the decode pass
may not spend, so with two rows and two tokens each phase gets a step
(`planMixed_serves`).
-/
import Hqsb.Runtime.SchedulerPolicies

namespace Hqsb

open Lib List

variable {limits : SchedulingLimits}

/-! ### Tokens -/

def tokensOf (steps : List Step) : Nat := (steps.map fun s => s.tokenIds.length).sum

@[simp] theorem tokensOf_nil : tokensOf [] = 0 := rfl

theorem tokensOf_append (steps rest : List Step) :
    tokensOf (steps ++ rest) = tokensOf steps + tokensOf rest := by
  rw [tokensOf, map_append, sum_append]
  rfl

section

variable (limits : SchedulingLimits) (candidates : List Sequence)

/-- **A pass spends the tokens of the steps it adds.**  The budget is shared between the passes,
so what is available to one must be covered by it. -/
theorem allocate_spends
    {available : Nat} (slots : Nat) {acc : Allocation} (h : available ≤ acc.budget) :
    tokensOf (allocate limits candidates available slots acc).selected +
        (allocate limits candidates available slots acc).budget =
      tokensOf acc.selected + acc.budget := by
  induction candidates generalizing available slots acc with
  | nil => rfl
  | cons r candidates ih =>
    rw [allocate]
    split_ifs with hstop hfit
    · rfl
    · exact ih slots h
    · have hfits : chunkOf limits r available ≤ available := Nat.le_of_not_lt hfit
      rw [ih (slots - 1) (Nat.sub_le_sub_right h _), tokensOf_append]
      have hcut : tokensOf [cut r (chunkOf limits r available)] = chunkOf limits r available := by
        show (cut r (chunkOf limits r available)).tokenIds.length + 0 = _
        rw [length_cut (chunkOf_le_remaining limits r available), add_zero]
      rw [hcut, add_assoc, Nat.add_sub_cancel' (hfits.trans h)]

theorem tokensOf_allocate_le
    (budget slots : Nat) :
    tokensOf (allocate limits candidates budget slots { budget := budget }).selected ≤ budget := by
  have h : tokensOf (allocate limits candidates budget slots { budget := budget }).selected +
      (allocate limits candidates budget slots { budget := budget }).budget = 0 + budget :=
    allocate_spends limits candidates slots le_rfl
  omega

theorem length_allocate_le
    (budget slots : Nat) :
    (allocate limits candidates budget slots { budget := budget }).selected.length ≤ slots := by
  have h := (allocate_bounds limits candidates budget slots { budget := budget }).2
  rwa [length_nil, zero_add] at h

end

/-! ### Who is served -/

theorem mem_allocate_of_mem (candidates : List Sequence) (available slots : Nat)
    {acc : Allocation} {s : Step} (h : s ∈ acc.selected) :
    s ∈ (allocate limits candidates available slots acc).selected := by
  obtain ⟨new, hnew, -⟩ := allocate_selected limits candidates available slots acc
  rw [hnew]
  exact mem_append_left _ h

theorem cut_mem_allocate {r : Sequence} (candidates : List Sequence) {available slots : Nat}
    (acc : Allocation) (hs : 0 < slots) (ha : 0 < available)
    (hfit : chunkOf limits r available ≤ available) :
    cut r (chunkOf limits r available) ∈
      (allocate limits (r :: candidates) available slots acc).selected := by
  rw [allocate, if_neg (by omega), if_neg (by omega)]
  exact mem_allocate_of_mem _ _ _ (mem_append_right _ (mem_singleton_self _))

theorem chunkOf_fits (hchunk : limits.chunkedPrefill = true) (r : Sequence) (available : Nat) :
    chunkOf limits r available ≤ available :=
  chunkOf_le_available fun h => absurd (hchunk.symm.trans h) (by decide)

/-! ### Both phases -/

section PlanMixed

variable {decode prefill : List Sequence} {rowLimit tick : Nat}

/-- The three passes keep to the budget they share. -/
theorem tokensOf_planMixed_le (decode prefill : List Sequence) (rowLimit tick : Nat) :
    tokensOf (planMixed limits decode prefill rowLimit tick) ≤ limits.maxBatchedTokens := by
  rw [planMixed]
  split_ifs with hrow
  · exact tokensOf_allocate_le _ _ _ _
  · exact tokensOf_allocate_le _ _ _ _
  · dsimp only
    generalize hdecoded : allocate limits decode
      (limits.maxBatchedTokens - quotaOf limits prefill) (rowLimit - 1)
      { budget := limits.maxBatchedTokens } = decoded
    have hfirst : tokensOf decoded.selected + decoded.budget = limits.maxBatchedTokens := by
      have hleft : limits.maxBatchedTokens - quotaOf limits prefill ≤
          (⟨[], limits.maxBatchedTokens⟩ : Allocation).budget := Nat.sub_le _ _
      have h := allocate_spends limits decode (rowLimit - 1) hleft
      rwa [hdecoded, tokensOf_nil, zero_add] at h
    generalize hprefilled : allocate limits prefill decoded.budget
      (rowLimit - decoded.selected.length) decoded = prefilled
    have hsecond : tokensOf prefilled.selected + prefilled.budget =
        tokensOf decoded.selected + decoded.budget := by
      rw [← hprefilled]
      exact allocate_spends _ _ _ le_rfl
    have hthird := allocate_spends limits
      (decode.filter fun r => r.id ∉ prefilled.selected.map Step.requestId)
      (rowLimit - prefilled.selected.length) (le_refl prefilled.budget)
    omega

/-- The slots are recomputed from the selection before each pass, so the row limit holds for
all three together. -/
theorem length_planMixed_le (decode prefill : List Sequence) (rowLimit tick : Nat) :
    (planMixed limits decode prefill rowLimit tick).length ≤ rowLimit := by
  rw [planMixed]
  split_ifs with hrow
  · exact length_allocate_le _ _ _ _
  · exact length_allocate_le _ _ _ _
  · dsimp only
    generalize hdecoded : allocate limits decode
      (limits.maxBatchedTokens - quotaOf limits prefill) (rowLimit - 1)
      { budget := limits.maxBatchedTokens } = decoded
    have hfirst : decoded.selected.length ≤ rowLimit := by
      have h := (allocate_bounds limits decode
        (limits.maxBatchedTokens - quotaOf limits prefill) (rowLimit - 1)
        { budget := limits.maxBatchedTokens }).2
      rw [hdecoded, length_nil] at h
      omega
    generalize hprefilled : allocate limits prefill decoded.budget
      (rowLimit - decoded.selected.length) decoded = prefilled
    have hsecond : prefilled.selected.length ≤ rowLimit := by
      have h := (allocate_bounds limits prefill decoded.budget
        (rowLimit - decoded.selected.length) decoded).2
      rw [hprefilled] at h
      omega
    refine (allocate_bounds limits _ _ _ _).2.trans ?_
    omega

/-- **Neither phase starves.**  With a second row and a second token the decode pass leaves a
slot and the quota to prefill. -/
theorem planMixed_serves (hchunk : limits.chunkedPrefill = true) (hrow : 2 ≤ rowLimit)
    (hbudget : 2 ≤ limits.maxBatchedTokens) (hd : decode ≠ []) (hp : prefill ≠ []) (tick : Nat) :
    (∃ r ∈ decode, ∃ a, cut r (chunkOf limits r a) ∈ planMixed limits decode prefill rowLimit tick) ∧
    ∃ r ∈ prefill, ∃ a, cut r (chunkOf limits r a) ∈
      planMixed limits decode prefill rowLimit tick := by
  obtain ⟨d, ds, rfl⟩ := exists_cons_of_ne_nil hd
  obtain ⟨p, ps, rfl⟩ := exists_cons_of_ne_nil hp
  have hquota : 0 < quotaOf limits (p :: ps) ∧
      quotaOf limits (p :: ps) < limits.maxBatchedTokens := by
    have hq := limits.prefillQuotaTokens_mem
    rw [quotaOf, if_pos hchunk]
    omega
  rw [planMixed, if_neg (by omega)]
  dsimp only
  generalize hdecoded : allocate limits (d :: ds)
    (limits.maxBatchedTokens - quotaOf limits (p :: ps)) (rowLimit - 1)
    { budget := limits.maxBatchedTokens } = decoded
  constructor
  · refine ⟨d, .head _, limits.maxBatchedTokens - quotaOf limits (p :: ps), ?_⟩
    refine mem_allocate_of_mem _ _ _ (mem_allocate_of_mem _ _ _ ?_)
    rw [← hdecoded]
    exact cut_mem_allocate ds _ (by omega) (by omega) (chunkOf_fits hchunk _ _)
  · refine ⟨p, .head _, decoded.budget, mem_allocate_of_mem _ _ _ ?_⟩
    -- the decode pass had one slot less than the rows and the quota less than the budget
    obtain ⟨hleft, hlen⟩ := allocate_bounds limits (d :: ds)
      (limits.maxBatchedTokens - quotaOf limits (p :: ps)) (rowLimit - 1)
      { budget := limits.maxBatchedTokens }
    rw [hdecoded] at hleft hlen
    simp only [length_nil] at hleft hlen
    exact cut_mem_allocate ps _ (by omega) (by omega) (chunkOf_fits hchunk _ _)

end PlanMixed

/-! ### The plan -/

theorem plan_bounds (sequences : List Sequence) (limits : SchedulingLimits) (now : ℚ)
    (service : String → Nat) (mode : Mode) (tick : Nat) :
    tokensOf (plan sequences limits now service mode tick) ≤ limits.maxBatchedTokens ∧
    (plan sequences limits now service mode tick).length ≤ rowLimitOf limits mode := by
  rw [plan]
  cases limits.phasePolicy with
  | balanced => exact ⟨tokensOf_allocate_le _ _ _ _, length_allocate_le _ _ _ _⟩
  | decodeFirst =>
    dsimp only
    split_ifs with hboth
    · exact ⟨tokensOf_planMixed_le _ _ _ _, length_planMixed_le _ _ _ _⟩
    · exact ⟨tokensOf_allocate_le _ _ _ _, length_allocate_le _ _ _ _⟩

/-- Some row for which `p` holds has a step in the plan. -/
def Selected (sequences : List Sequence) (steps : List Step) (p : Sequence → Prop) : Prop :=
  ∃ s ∈ steps, ∃ r ∈ sequences, p r ∧ s.requestId = r.id

/-- Under `decode_first` rows of both phases are selected when there are rows of both. -/
theorem plan_serves {sequences : List Sequence} {limits : SchedulingLimits} (now : ℚ)
    (service : String → Nat) {mode : Mode} (tick : Nat)
    (hphase : limits.phasePolicy = .decodeFirst) (hchunk : limits.chunkedPrefill = true)
    (hrow : 2 ≤ rowLimitOf limits mode) (hbudget : 2 ≤ limits.maxBatchedTokens)
    (hdecode : ∃ r ∈ sequences, isDecode r = true)
    (hprefill : ∃ r ∈ sequences, isDecode r = false) :
    Selected sequences (plan sequences limits now service mode tick) (fun r => isDecode r = true) ∧
    Selected sequences (plan sequences limits now service mode tick)
      (fun r => isDecode r = false) := by
  have hperm := ordered_perm sequences limits.policy now limits.agingMs service
    limits.tenantWeights
  rw [plan, hphase]
  generalize ordered sequences limits.policy now limits.agingMs service limits.tenantWeights = rows
    at hperm
  have hd : rows.filter isDecode ≠ [] := by
    obtain ⟨r, hr, h⟩ := hdecode
    exact ne_nil_of_mem (mem_filter.mpr ⟨hperm.mem_iff.mpr hr, h⟩)
  -- a row is in `prefill` exactly when it does not decode
  have hout : ∀ r ∈ rows, decide (r ∉ rows.filter isDecode) = true ↔ isDecode r = false := by
    intro r hr
    rw [decide_eq_true_eq, mem_filter, not_and, Bool.not_eq_true]
    exact ⟨fun h => h hr, fun h _ => h⟩
  have hp : (rows.filter fun r => r ∉ rows.filter isDecode) ≠ [] := by
    obtain ⟨r, hr, h⟩ := hprefill
    have hrow := hperm.mem_iff.mpr hr
    exact ne_nil_of_mem (mem_filter.mpr ⟨hrow, (hout r hrow).mpr h⟩)
  rw [if_pos (And.intro hd hp)]
  obtain ⟨⟨d, hdm, a, ha⟩, p, hpm, b, hb⟩ := planMixed_serves hchunk hrow hbudget hd hp tick
  constructor
  · obtain ⟨hmem, hdec⟩ := mem_filter.mp hdm
    exact ⟨_, ha, d, hperm.mem_iff.mp hmem, hdec, rfl⟩
  · obtain ⟨hmem, hpre⟩ := mem_filter.mp hpm
    exact ⟨_, hb, p, hperm.mem_iff.mp hmem, (hout p hmem).mp hpre, rfl⟩

/-- **The contract of `plan`.**  Over rows with distinct ids, each with something left to feed:
the steps belong to distinct rows; each feeds a non-empty slice of its row's history from where
the row stands and emits exactly when the slice reaches the end; the batch keeps to the token
budget and to the row limit of the mode; and under `decode_first` with chunking, two rows and two
tokens, neither phase is starved. -/
theorem plan_contract (sequences : List Sequence) (limits : SchedulingLimits) (now : ℚ)
    (service : String → Nat) (mode : Mode) (tick : Nat)
    (hn : (sequences.map Sequence.id).Nodup)
    (hrow : ∀ r ∈ sequences, r.consumed < r.history.length) :
    ((plan sequences limits now service mode tick).map Step.requestId).Nodup ∧
    (∀ s ∈ plan sequences limits now service mode tick, ∃ r ∈ sequences,
      s.requestId = r.id ∧ s.start = r.consumed ∧ s.tokenIds ≠ [] ∧
      s.tokenIds = (r.history.drop r.consumed).take s.tokenIds.length ∧
      (s.emit = true ↔ r.consumed + s.tokenIds.length = r.history.length)) ∧
    tokensOf (plan sequences limits now service mode tick) ≤ limits.maxBatchedTokens ∧
    (plan sequences limits now service mode tick).length ≤
      (if mode = .serial then 1 else limits.maxBatchSequences) ∧
    (limits.phasePolicy = .decodeFirst → limits.chunkedPrefill = true →
      2 ≤ rowLimitOf limits mode → 2 ≤ limits.maxBatchedTokens →
      (∃ r ∈ sequences, isDecode r = true) → (∃ r ∈ sequences, isDecode r = false) →
      Selected sequences (plan sequences limits now service mode tick)
        (fun r => isDecode r = true) ∧
      Selected sequences (plan sequences limits now service mode tick)
        (fun r => isDecode r = false)) := by
  have hcuts := cutsOf_plan sequences limits now service mode tick hn
  obtain ⟨htokens, hrows⟩ := plan_bounds sequences limits now service mode tick
  refine ⟨hcuts.nodup, fun s hs => ?_, htokens, hrows, fun hphase hchunk hlimit hbudget hd hp => ?_⟩
  · obtain ⟨r, hr, hstep, hpos⟩ := hcuts.stepOf hrow hs
    refine ⟨r, hr, hstep.id, hstep.start, ne_nil_of_length_pos hpos, ?_, ?_⟩
    · rw [← hstep.start]
      exact hstep.tokens
    · rw [hstep.emit, decide_eq_true_eq, hstep.start]
  · exact plan_serves now service tick hphase hchunk hlimit hbudget hd hp

/-- A row about to decode and a fresh one. -/
def bothPhases : List Sequence :=
  [{ id := "d", inputIds := [1, 2], limit := 4, received := 0, deadline := 60, priority := 0,
     tenant := "default", cancelAt := none, fixed := true, output := [3], consumed := 2 },
   { id := "p", inputIds := [4, 5, 6], limit := 4, received := 1, deadline := 60, priority := 0,
     tenant := "default", cancelAt := none, fixed := true }]

theorem bothPhases_served :
    Selected bothPhases (plan bothPhases { phasePolicy := .decodeFirst } 2 (fun _ => 0) .continuous 0)
      (fun r => isDecode r = true) ∧
    Selected bothPhases (plan bothPhases { phasePolicy := .decodeFirst } 2 (fun _ => 0) .continuous 0)
      (fun r => isDecode r = false) := by
  have hrow : ∀ r ∈ bothPhases, r.consumed < r.history.length := by decide
  obtain ⟨-, -, -, -, hserved⟩ := plan_contract bothPhases { phasePolicy := .decodeFirst } 2
    (fun _ => 0) .continuous 0 (by decide) hrow
  exact hserved rfl rfl (by decide) (by decide) ⟨_, .head _, rfl⟩
    ⟨_, .tail _ mem_cons_self, rfl⟩

end Hqsb
