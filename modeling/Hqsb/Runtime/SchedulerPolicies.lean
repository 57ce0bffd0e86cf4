/-
Hqsb/Runtime/SchedulerPolicies.lean

Deterministic ordering and token allocation
(`hqsb/runtime/scheduler_policies.py`).  `ordered` sorts by the policy's key, a
stable sort; `plan` walks the ordered rows and cuts steps out of their histories
until the token budget or the slots run out.

`CutsOf.stepOf` and `cutsOf_plan` say what every planned step is, for every limits
value and policy.  `plan_ne_nil` is the progress property: rows that have
something left to feed always yield a step.
-/
import Hqsb.Contracts.Scheduling

namespace Hqsb

open Lib List

/-! ### Ordering -/

/-- Python's `int` on an exact number: truncation towards zero. -/
def truncate (x : ℚ) : Int := x.num.tdiv x.den

def sortedBy {κ : Type*} [LinearOrder κ] (key : Sequence → κ) (rows : List Sequence) :
    List Sequence := rows.insertionSort fun a b => key a ≤ key b

def priorityAgingKey (now : ℚ) (agingMs : Nat) (r : Sequence) : Int ×ₗ ℚ ×ₗ String :=
  toLex (-(r.priority + truncate ((now - r.received) * 1000 / agingMs)), toLex (r.received, r.id))

def tenantFairKey (service : String → Nat) (weights : OrderedDict String ℚ) (r : Sequence) :
    ℚ ×ₗ ℚ ×ₗ String :=
  toLex (service r.tenant / (weights.get? r.tenant).getD 1, toLex (r.received, r.id))

def arrivalKey (r : Sequence) : ℚ ×ₗ String := toLex (r.received, r.id)

def ordered (sequences : List Sequence) (policy : Policy) (now : ℚ) (agingMs : Nat)
    (service : String → Nat) (weights : OrderedDict String ℚ) : List Sequence :=
  match policy with
  | .priorityAging => sortedBy (priorityAgingKey now agingMs) sequences
  | .tenantFair => sortedBy (tenantFairKey service weights) sequences
  | .fcfs => sortedBy arrivalKey sequences

variable (sequences : List Sequence)

theorem ordered_perm (policy : Policy) (now : ℚ) (agingMs : Nat) (service : String → Nat)
    (weights : OrderedDict String ℚ) :
    (ordered sequences policy now agingMs service weights).Perm sequences := by
  cases policy <;> exact perm_insertionSort _ _

/-! ### Token allocation -/

/-- What is left of a row's history to feed. -/
def remaining (r : Sequence) : Nat := r.history.length - r.consumed

/-- How many tokens a row would take out of `available`. -/
def chunkOf (limits : SchedulingLimits) (r : Sequence) (available : Nat) : Nat :=
  if limits.chunkedPrefill then min (min (remaining r) limits.prefillChunkTokens) available
  else remaining r

/-- The step feeding `chunk` tokens of the row's history, counted from `consumed`. -/
def cut (r : Sequence) (chunk : Nat) : Step where
  requestId := r.id
  start := r.consumed
  tokenIds := (r.history.drop r.consumed).take chunk
  emit := decide (r.consumed + chunk = r.history.length)
  phase := if r.output ≠ [] ∧ remaining r = 1 then .decode else .prefill

/-- The steps selected so far and the token budget left. -/
structure Allocation where
  selected : List Step := []
  budget : Nat

/-- The inner `allocate` of `plan`: one pass over `candidates` with `available` tokens and
`slots` rows to give out.  A preempted row is teacher forced through its committed history,
which is never emitted again. -/
def allocate (limits : SchedulingLimits) :
    List Sequence → (available slots : Nat) → Allocation → Allocation
  | [], _, _, acc => acc
  | r :: candidates, available, slots, acc =>
    if slots = 0 ∨ available = 0 then acc
    else if available < chunkOf limits r available then
      allocate limits candidates available slots acc
    else
      allocate limits candidates (available - chunkOf limits r available) (slots - 1)
        { selected := acc.selected ++ [cut r (chunkOf limits r available)]
          budget := acc.budget - chunkOf limits r available }

/-- A row about to decode: it has emitted and only its last token is pending. -/
def isDecode (r : Sequence) : Bool := decide (r.output ≠ [] ∧ remaining r = 1)

/-- The share of the budget `decode_first` keeps for prefill. -/
def quotaOf (limits : SchedulingLimits) (prefill : List Sequence) : Nat :=
  if limits.chunkedPrefill then min limits.prefillQuotaTokens (limits.maxBatchedTokens - 1)
  else min ((prefill.head?.map remaining).getD 0) limits.maxBatchedTokens

/-- `decode_first` with both phases present.  One physical row cannot run two phases together:
the phases alternate then, so a stream of decode requests cannot starve waiting prefill. -/
def planMixed (limits : SchedulingLimits) (decode prefill : List Sequence) (rowLimit tick : Nat) :
    List Step :=
  let budget := limits.maxBatchedTokens
  if rowLimit = 1 ∨ budget = 1 then
    (allocate limits (if tick % 2 = 1 then prefill else decode) budget rowLimit
      { budget := budget }).selected
  else
    let quota := quotaOf limits prefill
    let decoded := allocate limits decode (budget - quota) (rowLimit - 1) { budget := budget }
    let prefilled := allocate limits prefill decoded.budget (rowLimit - decoded.selected.length)
      decoded
    let chosen := prefilled.selected.map Step.requestId
    (allocate limits (decode.filter fun r => r.id ∉ chosen) prefilled.budget
      (rowLimit - prefilled.selected.length) prefilled).selected

/-- How many rows one forward may carry. -/
def rowLimitOf (limits : SchedulingLimits) (mode : Mode) : Nat :=
  if mode = .serial then 1 else limits.maxBatchSequences

def plan (sequences : List Sequence) (limits : SchedulingLimits) (now : ℚ)
    (service : String → Nat) (mode : Mode) (tick : Nat) : List Step :=
  let budget := limits.maxBatchedTokens
  let rows := ordered sequences limits.policy now limits.agingMs service limits.tenantWeights
  let rowLimit := rowLimitOf limits mode
  match limits.phasePolicy with
  | .balanced => (allocate limits rows budget rowLimit { budget := budget }).selected
  | .decodeFirst =>
    let decode := rows.filter isDecode
    let prefill := rows.filter fun r => r ∉ decode
    if decode ≠ [] ∧ prefill ≠ [] then planMixed limits decode prefill rowLimit tick
    else (allocate limits rows budget rowLimit { budget := budget }).selected

/-! ### What a pass over the candidates selects -/

theorem chunkOf_le_remaining (limits : SchedulingLimits) (r : Sequence) (available : Nat) :
    chunkOf limits r available ≤ remaining r := by
  rw [chunkOf]
  split_ifs <;> omega

variable {r : Sequence}

theorem chunkOf_pos (limits : SchedulingLimits) {available : Nat} (hr : 0 < remaining r)
    (ha : 0 < available) : 0 < chunkOf limits r available := by
  have := limits.prefillChunkTokens_mem
  rw [chunkOf]
  split_ifs <;> omega

theorem length_cut {chunk : Nat} (h : chunk ≤ remaining r) :
    (cut r chunk).tokenIds.length = chunk := by
  rw [cut, length_take, length_drop]
  exact min_eq_left h

theorem stepOf_cut {chunk : Nat} (hr : r.consumed ≤ r.history.length) (h : chunk ≤ remaining r) :
    StepOf r (cut r chunk) where
  id := rfl
  start := rfl
  tokens := by rw [length_cut h]; rfl
  fits := by
    rw [length_cut h]
    simp only [cut, remaining] at h ⊢
    omega
  emit := by rw [length_cut h]; rfl

variable {limits : SchedulingLimits}

section

variable (limits : SchedulingLimits) (candidates : List Sequence) (available slots : Nat)
  (acc : Allocation)

/-- A pass appends steps of a subsequence of its candidates, each one a proper cut. -/
theorem allocate_selected :
    ∃ new : List Step,
      (allocate limits candidates available slots acc).selected = acc.selected ++ new ∧
      (new.map Step.requestId).Sublist (candidates.map Sequence.id) ∧
      ∀ s ∈ new, ∃ r ∈ candidates, ∃ a, 0 < a ∧ s = cut r (chunkOf limits r a) := by
  induction candidates generalizing available slots acc with
  | nil => exact ⟨[], by simp [allocate], nil_sublist _, by simp⟩
  | cons r candidates ih =>
    rw [allocate]
    split_ifs with hstop hfit
    · exact ⟨[], by simp, nil_sublist _, by simp⟩
    · obtain ⟨new, hnew, hsub, hall⟩ := ih available slots acc
      refine ⟨new, hnew, hsub.cons _, fun s hs => ?_⟩
      obtain ⟨r', hr', ha⟩ := hall s hs
      exact ⟨r', .tail _ hr', ha⟩
    · obtain ⟨new, hnew, hsub, hall⟩ := ih (available - chunkOf limits r available) (slots - 1)
        { selected := acc.selected ++ [cut r (chunkOf limits r available)]
          budget := acc.budget - chunkOf limits r available }
      refine ⟨cut r (chunkOf limits r available) :: new, by rw [hnew]; simp, hsub.cons_cons _, ?_⟩
      intro s hs
      rcases mem_cons.mp hs with rfl | hs
      · exact ⟨r, .head _, available, by omega, rfl⟩
      · obtain ⟨r', hr', ha⟩ := hall s hs
        exact ⟨r', .tail _ hr', ha⟩

/-- A pass spends at most what was made available to it, and selects at most `slots` rows. -/
theorem allocate_bounds :
    acc.budget - available ≤ (allocate limits candidates available slots acc).budget ∧
      (allocate limits candidates available slots acc).selected.length ≤
        acc.selected.length + slots := by
  induction candidates generalizing available slots acc with
  | nil => exact ⟨Nat.sub_le _ _, Nat.le_add_right _ _⟩
  | cons r candidates ih =>
    rw [allocate]
    split_ifs with hstop hfit
    · exact ⟨Nat.sub_le _ _, Nat.le_add_right _ _⟩
    · exact ih available slots acc
    · have := ih (available - chunkOf limits r available) (slots - 1)
        { selected := acc.selected ++ [cut r (chunkOf limits r available)]
          budget := acc.budget - chunkOf limits r available }
      simp only [length_append, length_singleton] at this
      omega

end

/-- The first candidate is selected when there is a slot and its chunk fits. -/
theorem allocate_cons_ne_nil (candidates : List Sequence) {available slots : Nat}
    (acc : Allocation) (hs : 0 < slots) (ha : 0 < available)
    (hfit : chunkOf limits r available ≤ available) :
    (allocate limits (r :: candidates) available slots acc).selected ≠ [] := by
  rw [allocate, if_neg (by omega), if_neg (by omega)]
  obtain ⟨new, hnew, -⟩ := allocate_selected limits candidates
    (available - chunkOf limits r available) (slots - 1)
    { selected := acc.selected ++ [cut r (chunkOf limits r available)]
      budget := acc.budget - chunkOf limits r available }
  rw [hnew]
  simp

theorem allocate_ne_nil_of_acc (candidates : List Sequence) (available slots : Nat)
    {acc : Allocation} (h : acc.selected ≠ []) :
    (allocate limits candidates available slots acc).selected ≠ [] := by
  obtain ⟨new, hnew, -⟩ := allocate_selected limits candidates available slots acc
  rw [hnew]
  simp [h]

/-! ### What a plan is -/

/-- Steps that are cuts of distinct rows out of `rows`. -/
structure CutsOf (limits : SchedulingLimits) (rows : List Sequence) (steps : List Step) : Prop where
  nodup : (steps.map Step.requestId).Nodup
  cut : ∀ s ∈ steps, ∃ r ∈ rows, ∃ a, 0 < a ∧ s = cut r (chunkOf limits r a)

theorem CutsOf.mono {rows rows' : List Sequence} {steps : List Step}
    (h : CutsOf limits rows steps) (hsub : ∀ r ∈ rows, r ∈ rows') : CutsOf limits rows' steps where
  nodup := h.nodup
  cut s hs := by
    obtain ⟨r, hr, ha⟩ := h.cut s hs
    exact ⟨r, hsub r hr, ha⟩

/-- One more pass, over candidates none of which has a step yet. -/
theorem CutsOf.allocate {rows candidates : List Sequence} (acc : Allocation)
    (h : CutsOf limits rows acc.selected) (hn : (candidates.map Sequence.id).Nodup)
    (hd : ∀ r ∈ candidates, r.id ∉ acc.selected.map Step.requestId)
    (hsub : ∀ r ∈ candidates, r ∈ rows) (available slots : Nat) :
    CutsOf limits rows (allocate limits candidates available slots acc).selected := by
  obtain ⟨new, hnew, hids, hall⟩ := allocate_selected limits candidates available
    slots acc
  refine ⟨?_, fun s hs => ?_⟩
  · rw [hnew, map_append]
    refine nodup_append'.mpr ⟨h.nodup, hn.sublist hids, ?_⟩
    intro id hacc hid
    obtain ⟨r, hr, rfl⟩ := mem_map.mp (hids.subset hid)
    exact hd r hr hacc
  · rw [hnew] at hs
    rcases mem_append.mp hs with hs | hs
    · exact h.cut s hs
    · obtain ⟨r, hr, ha⟩ := hall s hs
      exact ⟨r, hsub r hr, ha⟩

theorem CutsOf.nil (limits : SchedulingLimits) (rows : List Sequence) : CutsOf limits rows [] :=
  ⟨nodup_nil, by simp⟩

theorem cutsOf_allocate (limits : SchedulingLimits) {rows candidates : List Sequence}
    (hsub : candidates.Sublist rows)
    (hn : (rows.map Sequence.id).Nodup) (available slots budget : Nat) :
    CutsOf limits rows (allocate limits candidates available slots { budget := budget }).selected :=
  CutsOf.allocate { budget := budget } (CutsOf.nil limits rows) (hn.sublist (hsub.map _))
    (by simp) hsub.subset available slots

theorem cutsOf_planMixed {rows decode prefill : List Sequence} (hn : (rows.map Sequence.id).Nodup)
    (hdec : decode.Sublist rows) (hpre : prefill.Sublist rows)
    (hdis : ∀ r ∈ prefill, r.id ∉ decode.map Sequence.id) (rowLimit tick : Nat) :
    CutsOf limits rows (planMixed limits decode prefill rowLimit tick) := by
  rw [planMixed]
  split_ifs with hrow htick
  · exact cutsOf_allocate limits hpre hn _ _ _
  · exact cutsOf_allocate limits hdec hn _ _ _
  · dsimp only
    have hdecoded := cutsOf_allocate limits hdec hn
      (limits.maxBatchedTokens - quotaOf limits prefill) (rowLimit - 1) limits.maxBatchedTokens
    have hfresh : ∀ r ∈ prefill, r.id ∉ (allocate limits decode
        (limits.maxBatchedTokens - quotaOf limits prefill) (rowLimit - 1)
        { budget := limits.maxBatchedTokens }).selected.map Step.requestId := by
      intro r hr hid
      obtain ⟨new, hnew, hids, -⟩ := allocate_selected limits decode
        (limits.maxBatchedTokens - quotaOf limits prefill) (rowLimit - 1)
        { budget := limits.maxBatchedTokens }
      rw [hnew] at hid
      exact hdis r hr (hids.subset hid)
    refine CutsOf.allocate _ ?_ (hn.sublist ((filter_sublist.trans hdec).map _)) ?_
      (fun r hr => hdec.subset (mem_of_mem_filter hr)) _ _
    · exact hdecoded.allocate _ (hn.sublist (hpre.map _)) hfresh hpre.subset _ _
    · intro r hr
      simpa using (mem_filter.mp hr).2

/-- **Every plan is made of cuts of distinct rows**, whatever the limits and the policy. -/
theorem cutsOf_plan (limits : SchedulingLimits) (now : ℚ) (service : String → Nat) (mode : Mode)
    (tick : Nat) (hn : (sequences.map Sequence.id).Nodup) :
    CutsOf limits sequences (plan sequences limits now service mode tick) := by
  have hperm := ordered_perm sequences limits.policy now limits.agingMs service
    limits.tenantWeights
  rw [plan]
  generalize ordered sequences limits.policy now limits.agingMs service limits.tenantWeights = rows
    at hperm
  have hrows : (rows.map Sequence.id).Nodup := (hperm.map _).nodup_iff.mpr hn
  refine CutsOf.mono (show CutsOf limits rows _ from ?_) fun r hr => hperm.mem_iff.mp hr
  cases limits.phasePolicy with
  | balanced => exact cutsOf_allocate limits (List.Sublist.refl rows) hrows _ _ _
  | decodeFirst =>
    dsimp only
    split_ifs with hboth
    · refine cutsOf_planMixed hrows filter_sublist filter_sublist ?_ _ _
      intro r hr hid
      obtain ⟨r', hr', he⟩ := mem_map.mp hid
      obtain rfl := inj_on_of_nodup_map hrows (mem_of_mem_filter hr')
        (mem_of_mem_filter hr) he
      simp only [mem_filter, decide_eq_true_eq] at hr hr'
      exact hr.2 hr'
    · exact cutsOf_allocate limits (List.Sublist.refl rows) hrows _ _ _

/-- A planned step is a step of its row: it feeds at least one token, starts where the row
stands and emits exactly at the end of the history. -/
theorem CutsOf.stepOf {rows : List Sequence} {steps : List Step} (h : CutsOf limits rows steps)
    (hrow : ∀ r ∈ rows, r.consumed < r.history.length) {s : Step} (hs : s ∈ steps) :
    ∃ r ∈ rows, StepOf r s ∧ 0 < s.tokenIds.length := by
  obtain ⟨r, hr, a, ha, rfl⟩ := h.cut s hs
  have hlt := hrow r hr
  have hle := chunkOf_le_remaining limits r a
  refine ⟨r, hr, stepOf_cut hlt.le hle, ?_⟩
  rw [length_cut hle]
  exact chunkOf_pos limits (by rw [remaining]; omega) ha

/-! ### Progress of the plan -/

/-- A row `accept` let through has something to feed, and without chunking its next prefill
fits the token budget. -/
def Plannable (limits : SchedulingLimits) (r : Sequence) : Prop :=
  0 < remaining r ∧ (limits.chunkedPrefill = false → remaining r ≤ limits.maxBatchedTokens)

theorem chunkOf_le_available {available : Nat}
    (h : limits.chunkedPrefill = false → remaining r ≤ available) :
    chunkOf limits r available ≤ available := by
  rw [chunkOf]
  split_ifs with hc
  · exact min_le_right _ _
  · exact h (by simpa using hc)

theorem allocate_ne_nil {candidates : List Sequence} (hne : candidates ≠ [])
    (h : ∀ r ∈ candidates, Plannable limits r) {slots : Nat} (hs : 0 < slots) (acc : Allocation) :
    (allocate limits candidates limits.maxBatchedTokens slots acc).selected ≠ [] := by
  obtain ⟨r, rest, rfl⟩ := exists_cons_of_ne_nil hne
  exact allocate_cons_ne_nil rest acc hs limits.maxBatchedTokens_mem.1
    (chunkOf_le_available (h r mem_cons_self).2)

theorem planMixed_ne_nil {decode prefill : List Sequence} (hd : decode ≠ []) (hp : prefill ≠ [])
    (hdec : ∀ r ∈ decode, Plannable limits r) (hpre : ∀ r ∈ prefill, Plannable limits r)
    {rowLimit : Nat} (hrow : 0 < rowLimit) (tick : Nat) :
    planMixed limits decode prefill rowLimit tick ≠ [] := by
  rw [planMixed]
  split_ifs with hone htick
  · exact allocate_ne_nil hp hpre hrow _
  · exact allocate_ne_nil hd hdec hrow _
  · dsimp only
    refine allocate_ne_nil_of_acc _ _ _ ?_
    obtain ⟨first, rest, rfl⟩ := exists_cons_of_ne_nil hp
    -- the quota is what the decode pass leaves, and the first prefill row fits it
    obtain ⟨hbudget, hlen⟩ := allocate_bounds limits decode
      (limits.maxBatchedTokens - quotaOf limits (first :: rest)) (rowLimit - 1)
      { budget := limits.maxBatchedTokens }
    simp only [length_nil] at hbudget hlen
    obtain ⟨hpos, hfit⟩ := hpre first mem_cons_self
    have hq := limits.prefillQuotaTokens_mem
    have hb := limits.maxBatchedTokens_mem
    have hquota : 0 < quotaOf limits (first :: rest) ∧
        quotaOf limits (first :: rest) ≤ limits.maxBatchedTokens ∧
        (limits.chunkedPrefill = false → quotaOf limits (first :: rest) = remaining first) := by
      rw [quotaOf]
      split_ifs with hc
      · exact ⟨by omega, by omega, fun h => by simp [h] at hc⟩
      · have hle := hfit (by simpa using hc)
        rw [List.head?_cons, Option.map_some, Option.getD_some]
        exact ⟨by omega, by omega, fun _ => by omega⟩
    refine allocate_cons_ne_nil rest _ (by omega) (by omega) (chunkOf_le_available fun hc => ?_)
    have := hquota.2.2 hc
    omega

/-- **Progress**: rows that can be planned yield at least one step. -/
theorem plan_ne_nil (limits : SchedulingLimits) (now : ℚ) (service : String → Nat) (mode : Mode)
    (tick : Nat) (hne : sequences ≠ []) (h : ∀ r ∈ sequences, Plannable limits r) :
    plan sequences limits now service mode tick ≠ [] := by
  have hperm := ordered_perm sequences limits.policy now limits.agingMs service
    limits.tenantWeights
  rw [plan]
  generalize ordered sequences limits.policy now limits.agingMs service limits.tenantWeights = rows
    at hperm
  have hrows : ∀ r ∈ rows, Plannable limits r := fun r hr => h r (hperm.mem_iff.mp hr)
  have hnil : rows ≠ [] := by
    rintro rfl
    exact hne hperm.nil_eq.symm
  have hslots : 0 < rowLimitOf limits mode := by
    have := limits.maxBatchSequences_mem
    rw [rowLimitOf]
    split_ifs <;> omega
  cases limits.phasePolicy with
  | balanced => exact allocate_ne_nil hnil hrows hslots _
  | decodeFirst =>
    dsimp only
    split_ifs with hboth
    · exact planMixed_ne_nil hboth.1 hboth.2 (fun r hr => hrows r (mem_of_mem_filter hr))
        (fun r hr => hrows r (mem_of_mem_filter hr)) hslots tick
    · exact allocate_ne_nil hnil hrows hslots _

end Hqsb
