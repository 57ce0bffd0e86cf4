/-
Hqsb/Contracts/Scheduling.lean

The device-independent scheduling contract (`hqsb/core/contracts/scheduling.py`):
the limits of a session, the sequence the live engine mutates and the step it
hands to an executor.

The bounds pydantic checks and the model validators are fields of
`SchedulingLimits`, so a rejected value cannot be built.  In the same way
`Submission` is what the worker turns into a `Sequence`: it refuses an empty
tokenisation, and `WorkItem.output_tokens` is at least 1.

Times are exact rationals.  Of `Sequence` the fields `logprobs` and `margins` are
left out: they copy two columns of the executor's receipt and nothing reads them.
-/
import Hqsb.Lib.OrderedDict

namespace Hqsb

open Lib

abbrev Token := Int

/-! ### Enumerations -/

inductive Mode
  | serial | static | continuous
  deriving DecidableEq

inductive Policy
  | fcfs | priorityAging | tenantFair

inductive PhasePolicy
  | balanced | decodeFirst
  deriving DecidableEq

inductive Preemption
  | off | recompute
  deriving DecidableEq

inductive KvLayout
  | dense | blockPool

/-! ### Limits and experiments -/

/-- `SchedulingLimits` with the bounds of its fields and its validator `valid_weights`. -/
structure SchedulingLimits where
  maxActiveSequences : Nat := 4
  maxBatchSequences : Nat := 4
  maxBatchedTokens : Nat := 256
  maxPaddedPositions : Nat := 16384
  maxTemporaryBytes : Nat := 512 * 1024 ^ 2
  kvCapacityTokens : Nat := 8192
  kvLayout : KvLayout := .dense
  kvBlockTokens : Nat := 16
  kvPoolMaxBytes : Nat := 256 * 1024 ^ 2
  prefillChunkTokens : Nat := 64
  chunkedPrefill : Bool := true
  policy : Policy := .fcfs
  tenantWeights : OrderedDict String ℚ := .empty
  phasePolicy : PhasePolicy := .balanced
  prefillQuotaTokens : Nat := 16
  agingMs : Nat := 100
  preemption : Preemption := .off
  maxPreemptions : Nat := 4
  maxActiveSequences_mem : 1 ≤ maxActiveSequences ∧ maxActiveSequences ≤ 16 := by decide
  maxBatchSequences_mem : 1 ≤ maxBatchSequences ∧ maxBatchSequences ≤ 16 := by decide
  maxBatchedTokens_mem : 1 ≤ maxBatchedTokens ∧ maxBatchedTokens ≤ 4096 := by decide
  maxPaddedPositions_mem : 1 ≤ maxPaddedPositions ∧ maxPaddedPositions ≤ 131072 := by decide
  maxTemporaryBytes_mem :
    1024 ^ 2 ≤ maxTemporaryBytes ∧ maxTemporaryBytes ≤ 2 * 1024 ^ 3 := by decide
  kvCapacityTokens_mem : 1 ≤ kvCapacityTokens ∧ kvCapacityTokens ≤ 131072 := by decide
  kvBlockTokens_mem : 1 ≤ kvBlockTokens ∧ kvBlockTokens ≤ 256 := by decide
  kvPoolMaxBytes_mem : 1024 ^ 2 ≤ kvPoolMaxBytes ∧ kvPoolMaxBytes ≤ 2 * 1024 ^ 3 := by decide
  prefillChunkTokens_mem : 1 ≤ prefillChunkTokens ∧ prefillChunkTokens ≤ 4096 := by decide
  prefillQuotaTokens_mem : 1 ≤ prefillQuotaTokens ∧ prefillQuotaTokens ≤ 4096 := by decide
  agingMs_mem : 1 ≤ agingMs ∧ agingMs ≤ 10000 := by decide
  maxPreemptions_le : maxPreemptions ≤ 64 := by decide
  tenantWeights_length : tenantWeights.entries.length ≤ 32 := by decide
  /-- `TENANT_WEIGHT_INVALID` -/
  tenantWeights_valid : ∀ w ∈ tenantWeights.entries,
    w.1 ≠ "" ∧ w.1.length ≤ 64 ∧ 1 / 10 ≤ w.2 ∧ w.2 ≤ 100 := by simp [Lib.OrderedDict.empty]
  /-- `PREFILL_QUOTA_EXCEEDS_BUDGET` -/
  quota_le_budget :
    phasePolicy = .decodeFirst → prefillQuotaTokens ≤ maxBatchedTokens := by decide
  /-- `RECOMPUTE_REQUIRES_CHUNKED_PREFILL` -/
  recompute_chunked : preemption = .recompute → chunkedPrefill = true := by decide

def SchedulingLimits.defaults : SchedulingLimits := {}

/-! ### Sequences -/

inductive RowState
  | waiting | active | terminal
  deriving DecidableEq

/-- Why a request ended. -/
inductive Reason
  | rejected | cancelled | timedOut | length | stop
  deriving DecidableEq

/-- What the worker makes a `Sequence` of: a tokenised request that passed its checks. -/
structure Submission where
  id : String
  inputIds : List Token
  limit : Nat
  received : ℚ
  deadline : ℚ
  priority : Int := 0
  tenant : String := "default"
  cancelAt : Option ℚ := none
  fixed : Bool := true
  inputIds_ne : inputIds ≠ [] := by decide
  limit_pos : 1 ≤ limit := by decide

/-- Only the live engine mutates progress; the executor owns device tensors. -/
structure Sequence where
  id : String
  inputIds : List Token
  limit : Nat
  received : ℚ
  deadline : ℚ
  priority : Int
  tenant : String
  cancelAt : Option ℚ
  fixed : Bool
  output : List Token := []
  times : List ℚ := []
  consumed : Nat := 0
  state : RowState := .waiting
  admitted : Option ℚ := none
  ended : Option ℚ := none
  reason : Option Reason := none
  error : Option String := none
  preemptions : Nat := 0
  recomputed : Nat := 0
  lastScheduled : Option ℚ := none
  maxUnscheduledMs : ℚ := 0
  deriving DecidableEq

namespace Sequence

def ofSubmission (s : Submission) : Sequence where
  id := s.id
  inputIds := s.inputIds
  limit := s.limit
  received := s.received
  deadline := s.deadline
  priority := s.priority
  tenant := s.tenant
  cancelAt := s.cancelAt
  fixed := s.fixed

def history (r : Sequence) : List Token := r.inputIds ++ r.output

/-- The last emitted token remains pending until the next decode forward. -/
def target (r : Sequence) : Nat := r.inputIds.length + (r.output.length - 1)

/-- The lease a row needs for its whole life: all but its last token are fed back. -/
def needed (r : Sequence) : Nat := r.inputIds.length + r.limit - 1

theorem length_history (r : Sequence) :
    r.history.length = r.inputIds.length + r.output.length := List.length_append

/-- Two versions of one row: everything the request itself fixed agrees. -/
structure SameRequest (r r' : Sequence) : Prop where
  id : r'.id = r.id
  inputIds : r'.inputIds = r.inputIds
  limit : r'.limit = r.limit
  received : r'.received = r.received
  deadline : r'.deadline = r.deadline
  priority : r'.priority = r.priority
  tenant : r'.tenant = r.tenant
  cancelAt : r'.cancelAt = r.cancelAt
  fixed : r'.fixed = r.fixed

theorem SameRequest.refl (r : Sequence) : SameRequest r r :=
  ⟨rfl, rfl, rfl, rfl, rfl, rfl, rfl, rfl, rfl⟩

theorem SameRequest.trans {r r' r'' : Sequence} (h : SameRequest r r') (h' : SameRequest r' r'') :
    SameRequest r r'' :=
  ⟨h'.id.trans h.id, h'.inputIds.trans h.inputIds, h'.limit.trans h.limit,
    h'.received.trans h.received, h'.deadline.trans h.deadline, h'.priority.trans h.priority,
    h'.tenant.trans h.tenant, h'.cancelAt.trans h.cancelAt, h'.fixed.trans h.fixed⟩

end Sequence

/-! ### Steps -/

inductive Phase
  | decode | prefill
  deriving DecidableEq

structure Step where
  requestId : String
  start : Nat
  tokenIds : List Token
  emit : Bool
  phase : Phase

/-- `s` feeds the next tokens of row `r`'s history, and emits exactly at its end. -/
structure StepOf (r : Sequence) (s : Step) : Prop where
  id : s.requestId = r.id
  start : s.start = r.consumed
  tokens : s.tokenIds = (r.history.drop s.start).take s.tokenIds.length
  fits : s.start + s.tokenIds.length ≤ r.history.length
  emit : s.emit = decide (s.start + s.tokenIds.length = r.history.length)

theorem StepOf.take_append {r : Sequence} {s : Step} (h : StepOf r s) :
    r.history.take s.start ++ s.tokenIds = r.history.take (s.start + s.tokenIds.length) := by
  rw [List.take_add, ← h.tokens]

end Hqsb
