/-
Hqsb/Serving/RetryBudget.lean

Retry budgets (`RetryBudget` of `hqsb/serving/admission.py`), in floats.

A decision looks at four budgets, one after the other, and then computes the delay.  The elapsed
budget is looked at before there is a delay, so the delay may go over what is left of it; the
server-wide budget is looked at unless it is zero.  The delay grows with the number that is drawn
(`jittered_le_largest`): a policy whose largest delay fits is safe whatever the generator does.

`Draws` is what the generator draws for some seed.  A power of two that is too large for a float
is an `OverflowError`; other results are taken to stay below the largest float.

Main result: `retry_budgets_kept`.
-/
import Hqsb.Core.Floats
import Hqsb.Lib.Machine
import Hqsb.Lib.OrderedDict

namespace Hqsb

open Lib

/-- The part of the retry policy that the budget reads.  Fewer attempts than one are a
`ConfigError`. -/
structure RetryPolicy where
  maxAttempts : Int
  maxElapsedMs : ℚ
  baseBackoffMs : ℚ
  maxBackoffMs : ℚ
  jitterRatio : ℚ
  serverWideRatio : ℚ
  attempts_pos : 1 ≤ maxAttempts

/-- The numbers that `random` returns, one call after the other. -/
structure Draws where
  draw : Nat → ℚ
  nonneg : ∀ n, 0 ≤ draw n
  lt_one : ∀ n, draw n < 1

structure RetryDecision where
  retry : Bool
  attempt : Int
  delayMs : ℚ
  reason : String
  budgetRemainingMs : ℚ

/-- The arguments of `decide`. -/
structure RetryQuestion where
  requestId : String
  attempt : Int
  elapsedMs : ℚ
  committed : Bool
  retryable : Bool
  serverSpentMs : ℚ := 0

/-- `RetryBudget`; `drawn` counts the calls of the generator. -/
structure RetryBudget where
  spentMs : OrderedDict String ℚ := .empty
  attempts : Nat := 0
  originals : Nat := 0
  serverBudgetMs : ℚ := 0
  drawn : Nat := 0

/-- What `decide` raises. -/
inductive RetryError
  /-- `int too large to convert to float` -/
  | overflow

namespace RetryPolicy

variable (policy : RetryPolicy)

/-- The backoff of an attempt, before the jitter: `2 ** (attempt - 1)` is an integer from the first
attempt on, and becomes a float in the product. -/
def backoff (attempt : Int) : Except RetryError ℚ :=
  if 1024 ≤ attempt - 1 then .error .overflow
  else .ok (min (nearest64 (policy.baseBackoffMs * nearest64 (2 ^ (attempt - 1))))
    policy.maxBackoffMs)

/-- The delay that a backoff becomes when a number is drawn. -/
def jittered (delay draw : ℚ) : ℚ :=
  let jitter := nearest64 (nearest64 (delay * policy.jitterRatio) *
    nearest64 (nearest64 (draw * 2) - 1))
  max 0 (nearest64 (delay + jitter))

/-- The largest delay of an attempt: no generator draws more than one. -/
def largest (attempt : Int) : ℚ :=
  match policy.backoff attempt with
  | .ok backoff => policy.jittered backoff 1
  | .error _ => 0

/-- `originals * max_elapsed_ms * server_wide_ratio` -/
def serverBudget (originals : Nat) : ℚ :=
  nearest64 (nearest64 (nearest64 originals * policy.maxElapsedMs) * policy.serverWideRatio)

/-- `max_elapsed_ms - elapsed_ms` -/
def remaining (q : RetryQuestion) : ℚ := nearest64 (policy.maxElapsedMs - q.elapsedMs)

/-- `max_backoff_ms * (1 + jitter_ratio)` -/
def cap : ℚ := nearest64 (policy.maxBackoffMs * nearest64 (1 + policy.jitterRatio))

end RetryPolicy

namespace RetryBudget

variable (policy : RetryPolicy) (draws : Draws)

def registerOriginal (b : RetryBudget) : RetryBudget :=
  { b with
    originals := b.originals + 1
    serverBudgetMs := policy.serverBudget (b.originals + 1) }

/-- The reason for which `decide` refuses, the first that applies. -/
def refusal (b : RetryBudget) (q : RetryQuestion) : Option String :=
  if q.committed then some "stream already committed: transparent retry is forbidden"
  else if ¬ q.retryable then some "the failure class is not retryable"
  else if policy.maxAttempts ≤ q.attempt then some "attempt budget exhausted"
  else if policy.remaining q ≤ 0 then some "elapsed retry budget exhausted"
  else if b.serverBudgetMs ≠ 0 ∧ b.serverBudgetMs ≤ q.serverSpentMs then
    some "server-wide retry budget exhausted"
  else none

/-- `decide`. -/
def answer (b : RetryBudget) (q : RetryQuestion) : Except RetryError (RetryDecision × RetryBudget) :=
  let remaining := policy.remaining q
  match b.refusal policy q with
  | some reason => .ok (⟨false, q.attempt, 0, reason, remaining⟩, b)
  | none => do
    let delay := policy.jittered (← policy.backoff q.attempt) (draws.draw b.drawn)
    pure (⟨true, q.attempt, delay, "retry inside every budget", nearest64 (remaining - delay)⟩,
      { b with
        attempts := b.attempts + 1
        spentMs := b.spentMs.set q.requestId
          (nearest64 ((b.spentMs.get? q.requestId).getD 0 + delay))
        drawn := b.drawn + 1 })

end RetryBudget

/-! ### Sequences of calls -/

inductive RetryCall
  | registerOriginal
  | decide (question : RetryQuestion)

section

variable (policy : RetryPolicy) (draws : Draws)

/-- The calls on a budget; one that raises leaves it as it is. -/
def retryCalls : Machine RetryBudget RetryCall where
  init := {}
  step b
    | .registerOriginal => b.registerOriginal policy
    | .decide question =>
      match b.answer policy draws question with
      | .ok (_, b) => b
      | .error _ => b

def RetryDecision.Keeps (originals : Nat) (q : RetryQuestion) (d : RetryDecision) : Prop :=
  d.retry → d.attempt < policy.maxAttempts ∧ 0 ≤ d.budgetRemainingMs ∧ 0 ≤ d.delayMs ∧
    d.delayMs ≤ policy.cap ∧ q.serverSpentMs < policy.serverBudget originals

instance (originals : Nat) (q : RetryQuestion) (d : RetryDecision) :
    Decidable (d.Keeps policy originals q) := inferInstanceAs (Decidable (_ → _))

/-- The decision of this call, if there is one, keeps to all budgets. -/
def RetryCall.Keeps (b : RetryBudget) : RetryCall → Prop
  | .registerOriginal => True
  | .decide q =>
    match b.answer policy draws q with
    | .ok (d, _) => d.Keeps policy b.originals q
    | .error _ => True

/-- No check looks at how large the delay will be, or at a server-wide budget of zero: the largest
delay of the attempt has to fit what is left and the cap, and the server-wide budget must not be
zero. -/
def Safe (originals : Nat) (q : RetryQuestion) : Prop :=
  policy.largest q.attempt ≤ policy.remaining q ∧ policy.largest q.attempt ≤ policy.cap ∧
    policy.serverBudget originals ≠ 0

/-- What a question has to meet unless it is refused. -/
def RetryCall.Safe (b : RetryBudget) : RetryCall → Prop
  | .registerOriginal => True
  | .decide q => b.refusal policy q = none → Hqsb.Safe policy b.originals q

instance (b : RetryBudget) : (call : RetryCall) → Decidable (call.Keeps policy draws b)
  | .registerOriginal => .isTrue trivial
  | .decide q =>
    match h : b.answer policy draws q with
    | .ok (d, _) => decidable_of_iff (d.Keeps policy b.originals q) (by rw [RetryCall.Keeps, h])
    | .error _ => .isTrue (by rw [RetryCall.Keeps, h]; trivial)

instance (b : RetryBudget) : (call : RetryCall) → Decidable (call.Safe policy b)
  | .registerOriginal => .isTrue trivial
  | .decide q => inferInstanceAs (Decidable (b.refusal policy q = none → (_ ∧ _ ∧ _)))

end

/-! ### One decision -/

variable {policy : RetryPolicy} {draws : Draws} {b : RetryBudget} {q : RetryQuestion}

theorem nearest64_mono {x y : ℚ} (hy : 0 ≤ y) (hxy : x ≤ y) : nearest64 x ≤ nearest64 y :=
  BinaryFloat.nearest_mono isNearest_roundNearestEven hy hxy

theorem nearest64_nonneg {x : ℚ} (hx : 0 ≤ x) : 0 ≤ nearest64 x :=
  BinaryFloat.nearest_nonneg isNearest_roundNearestEven hx

/-- **The delay grows with the draw.** -/
theorem jittered_le_largest (hratio : 0 ≤ policy.jitterRatio) {delay : ℚ} (hdelay : 0 ≤ delay)
    {draw : ℚ} (hdraw : draw < 1) : policy.jittered delay draw ≤ policy.jittered delay 1 := by
  have hamount : 0 ≤ nearest64 (delay * policy.jitterRatio) :=
    nearest64_nonneg (mul_nonneg hdelay hratio)
  have hdouble : nearest64 (draw * 2) ≤ nearest64 (1 * 2) :=
    nearest64_mono (by norm_num) (by linarith)
  have hone : (0 : ℚ) ≤ nearest64 (1 * 2) - 1 := by decide +kernel
  have hfactor : nearest64 (nearest64 (draw * 2) - 1) ≤ nearest64 (nearest64 (1 * 2) - 1) :=
    nearest64_mono hone (sub_le_sub_right hdouble 1)
  have htop : 0 ≤ nearest64 (delay * policy.jitterRatio) * nearest64 (nearest64 (1 * 2) - 1) :=
    mul_nonneg hamount (nearest64_nonneg hone)
  have hjitter := nearest64_mono htop (mul_le_mul_of_nonneg_left hfactor hamount)
  refine max_le_max le_rfl (nearest64_mono ?_ (add_le_add_right hjitter delay))
  exact add_nonneg hdelay (nearest64_nonneg htop)

theorem backoff_nonneg (hbase : 0 ≤ policy.baseBackoffMs) (hcap : 0 ≤ policy.maxBackoffMs)
    {attempt : Int} {backoff : ℚ} (h : policy.backoff attempt = .ok backoff) : 0 ≤ backoff := by
  rw [RetryPolicy.backoff] at h
  split_ifs at h
  obtain rfl := Except.ok.inj h
  have hpower : (0 : ℚ) ≤ 2 ^ (attempt - 1) := zpow_nonneg zero_le_two _
  exact le_min (nearest64_nonneg (mul_nonneg hbase (nearest64_nonneg hpower))) hcap

def Budgeted (policy : RetryPolicy) (b : RetryBudget) : Prop :=
  b.serverBudgetMs = policy.serverBudget b.originals

/-- **The decision** of a safe question keeps to all budgets. -/
theorem keeps_of_safe (hbase : 0 ≤ policy.baseBackoffMs) (hcap : 0 ≤ policy.maxBackoffMs)
    (hratio : 0 ≤ policy.jitterRatio) (hb : Budgeted policy b) {call : RetryCall}
    (hsafe : call.Safe policy b) : call.Keeps policy draws b := by
  rcases call with - | q
  · trivial
  rw [RetryCall.Keeps, RetryBudget.answer]
  rcases hrefusal : b.refusal policy q with - | reason
  · obtain ⟨hfits, hcapped, hserver⟩ := hsafe hrefusal
    rcases hbackoff : policy.backoff q.attempt with error | backoff
    · trivial
    have hlargest : policy.largest q.attempt = policy.jittered backoff 1 := by
      rw [RetryPolicy.largest, hbackoff]
    rw [hlargest] at hfits hcapped
    have hle := jittered_le_largest hratio (backoff_nonneg hbase hcap hbackoff)
      (draws.lt_one b.drawn)
    rw [RetryBudget.refusal] at hrefusal
    split_ifs at hrefusal with hcommitted hretryable hattempts helapsed hspent
    intro hretry
    refine ⟨not_le.mp hattempts, nearest64_nonneg (sub_nonneg.mpr (hle.trans hfits)),
      le_max_left _ _, hle.trans hcapped, ?_⟩
    -- a budget that is not zero was looked at
    rw [hb] at hspent
    exact not_le.mp fun hall => hspent ⟨hserver, hall⟩
  · intro hretry
    cases hretry

/-! ### Runs -/

theorem budgeted_step (b : RetryBudget) (call : RetryCall) (hb : Budgeted policy b) :
    Budgeted policy ((retryCalls policy draws).step b call) := by
  rcases call with - | q
  · rfl
  · show Budgeted policy (match b.answer policy draws q with
      | .ok (_, b) => b
      | .error _ => b)
    rw [RetryBudget.answer]
    rcases b.refusal policy q with - | reason
    · rcases policy.backoff q.attempt with error | backoff <;> exact hb
    · exact hb

/-- **When retry budgets are kept.**  With backoffs and a jitter that are not negative, every
decision of a run keeps to all budgets if every question that is not refused is safe: the largest
delay of its attempt fits, whatever is drawn, and the server-wide budget is not zero. -/
theorem retry_budgets_kept (hbase : 0 ≤ policy.baseBackoffMs) (hcap : 0 ≤ policy.maxBackoffMs)
    (hratio : 0 ≤ policy.jitterRatio) (draws : Draws) {calls : List RetryCall}
    (hsafe : (retryCalls policy draws).Guarded (RetryCall.Safe policy) {} calls) :
    (retryCalls policy draws).Guarded (RetryCall.Keeps policy draws) {} calls := by
  have hrun : ∀ {b : RetryBudget} {calls : List RetryCall}, Budgeted policy b →
      (retryCalls policy draws).Guarded (RetryCall.Safe policy) b calls →
      (retryCalls policy draws).Guarded (RetryCall.Keeps policy draws) b calls := by
    intro b calls
    induction calls generalizing b with
    | nil => exact fun _ _ => trivial
    | cons call calls ih =>
      exact fun hb hsafe => ⟨keeps_of_safe hbase hcap hratio hb hsafe.1,
        ih (budgeted_step b call hb) hsafe.2⟩
  refine hrun ?_ hsafe
  show (0 : ℚ) = nearest64 (nearest64 (nearest64 ((0 : Nat) : ℚ) * policy.maxElapsedMs) *
    policy.serverWideRatio)
  have hzero : nearest64 0 = 0 := BinaryFloat.nearest_zero isNearest_roundNearestEven
  rw [Nat.cast_zero, hzero, zero_mul, hzero, zero_mul, hzero]

theorem one_le_two_int : (1 : Int) ≤ 2 := by decide

def twoAttempts (serverWideRatio : ℚ) : RetryPolicy where
  maxAttempts := 2
  maxElapsedMs := 2000
  baseBackoffMs := 20
  maxBackoffMs := 500
  jitterRatio := nearest64 (3 / 10)
  serverWideRatio := serverWideRatio
  attempts_pos := one_le_two_int

/-- A generator without jitter. -/
def halves : Draws where
  draw := fun _ => 1 / 2
  nonneg := fun _ => by norm_num
  lt_one := fun _ => by norm_num

/-- Two retries that are granted, of two originals. -/
theorem retry_budgets_kept_twice :
    (retryCalls (twoAttempts (1 / 8)) halves).Guarded
      (RetryCall.Keeps (twoAttempts (1 / 8)) halves) {}
      [.registerOriginal, .decide ⟨"r", 1, 100, false, true, 0⟩, .registerOriginal,
        .decide ⟨"s", 1, 1900, false, true, 20⟩] := by
  exact retry_budgets_kept (by decide +kernel) (by decide +kernel) (by decide +kernel) halves
    (by decide +kernel)

/-- A retry is granted whose delay does not fit, and one against a server-wide budget of zero. -/
theorem retry_over_budget :
    ¬ (retryCalls (twoAttempts (nearest64 (1 / 10))) halves).Guarded
        (RetryCall.Keeps (twoAttempts (nearest64 (1 / 10))) halves) {}
        [.registerOriginal, .decide ⟨"r", 1, 1990, false, true, 0⟩] ∧
      ¬ (retryCalls (twoAttempts 0) halves).Guarded (RetryCall.Keeps (twoAttempts 0) halves) {}
        [.registerOriginal, .decide ⟨"r", 1, 0, false, true, 0⟩] := by
  constructor <;> decide +kernel

end Hqsb
