/-
Hqsb/Serving/Circuit.lean

The circuit breaker of a backend instance.

The breaker is a state and three calls, `allowRequest`, `recordSuccess` and `recordFailure`.
`watched` runs it beside what an observer of the calls would note: the outcomes since the
breaker was last closed, and the half-open probes that have been admitted and not yet
answered.  The notes do not influence the breaker.
-/
import Hqsb.Lib.Machine

namespace Hqsb

open Lib

inductive CircuitState
  | closed
  | «open»
  | halfOpen
  deriving DecidableEq

def countedFailureClasses : List String :=
  ["backend_unavailable", "backend_oom", "backend_timeout", "malformed_response",
    "protocol_failure"]

/-- Failures that are not charged to the backend. -/
def excludedFailureClasses : List String :=
  ["client_4xx", "user_cancel", "admission_reject", "deadline_infeasible"]

/-- Correctness problems. -/
def quarantineClasses : List String :=
  ["model_identity_mismatch", "precision_identity_mismatch", "token_quality_identity_mismatch",
    "corrupt_cache_identity"]

/-- The frozen breaker configuration. -/
structure CircuitSpec where
  windowSamples : Nat
  minSamples : Nat
  failureRateThreshold : ℚ
  consecutiveFailureThreshold : Nat
  openDurationMs : ℚ
  halfOpenProbesRequired : Nat
  halfOpenProbeConcurrency : Nat

structure FailureObservation where
  monotonicNs : Int
  failureClass : String

inductive EventTarget
  | state (target : CircuitState)
  | quarantined

structure CircuitEvent where
  monotonicNs : Int
  target : EventTarget

structure CircuitBreaker where
  state : CircuitState := .closed
  observations : List FailureObservation := []
  events : List CircuitEvent := []
  successes : Nat := 0
  consecutiveFailures : Nat := 0
  openedAtNs : Option Int := none
  openCount : Nat := 0
  halfOpenProbes : Nat := 0
  halfOpenSuccesses : Nat := 0
  quarantined : Bool := false
  quarantineReason : String := ""

/-- The answer to a routing question. -/
structure RouteDecision where
  allowed : Bool
  reason : String

/-- The slice `l[-n:]`, which is all of `l` when `n` is zero. -/
def sliceLast {α : Type*} (n : Nat) (l : List α) : List α :=
  if n = 0 then l else l.drop (l.length - n)

namespace CircuitBreaker

variable (b : CircuitBreaker)

/-- `_event`: append to the log. -/
def event (monotonicNs : Int) (target : EventTarget) : CircuitBreaker :=
  { b with events := b.events ++ [{ monotonicNs, target }] }

/-- `_open`. -/
def trip (monotonicNs : Int) : CircuitBreaker :=
  { b with
    state := .open
    openedAtNs := some monotonicNs
    openCount := b.openCount + 1
    halfOpenProbes := 0
    halfOpenSuccesses := 0 }.event monotonicNs (.state .open)

def close (monotonicNs : Int) : CircuitBreaker :=
  { b with state := .closed, openedAtNs := none, observations := [] }.event monotonicNs
    (.state .closed)

variable (spec : CircuitSpec)

def observe (failureClass : String) (monotonicNs : Int) : CircuitBreaker :=
  { b with
    observations := b.observations ++ [{ monotonicNs, failureClass }]
    consecutiveFailures := b.consecutiveFailures + 1 }

/-- The rate trigger: the window has failures only, and its rate is a rate among these. -/
def rateExceeded : Bool :=
  let window := sliceLast spec.windowSamples b.observations
  let failures := window.length
  let rate : ℚ := if window = [] then 0 else failures / window.length
  window.length ≥ spec.minSamples && rate ≥ spec.failureRateThreshold

def runExceeded : Bool :=
  b.consecutiveFailures ≥ spec.consecutiveFailureThreshold

/-- Record a failure; an unclassified one is a `ConfigError`. -/
def recordFailure (failureClass : String) (monotonicNs : Int) : Except String CircuitBreaker :=
  if failureClass ∈ excludedFailureClasses then .ok b
  else if failureClass ∈ quarantineClasses then
    .ok ({ b with quarantined := true, quarantineReason := failureClass }.event monotonicNs
      .quarantined)
  else if failureClass ∉ countedFailureClasses then .error failureClass
  else
    let b := b.observe failureClass monotonicNs
    .ok (match b.state with
      | .closed => if b.rateExceeded spec || b.runExceeded spec then b.trip monotonicNs else b
      | .halfOpen => b.trip monotonicNs
      | .open => b)

def recordSuccess (monotonicNs : Int) : CircuitBreaker :=
  let b := { b with successes := b.successes + 1, consecutiveFailures := 0 }
  match b.state with
  | .halfOpen =>
    let b := { b with halfOpenSuccesses := b.halfOpenSuccesses + 1 }
    if b.halfOpenSuccesses ≥ spec.halfOpenProbesRequired then b.close monotonicNs else b
  | _ => b

/-- `opened_at = self.opened_at_ns or monotonic_ns`: the time zero counts as none. -/
def openedAt (monotonicNs : Int) : Int :=
  match b.openedAtNs with
  | none => monotonicNs
  | some openedAtNs => if openedAtNs = 0 then monotonicNs else openedAtNs

def elapsed (openedAt monotonicNs : Int) : Prop :=
  spec.openDurationMs * 10 ^ 6 ≤ ((monotonicNs - openedAt : Int) : ℚ)

instance (openedAt monotonicNs : Int) : Decidable (elapsed spec openedAt monotonicNs) := by
  unfold elapsed
  infer_instance

/-- Should a new request be routed to this instance?  The event of the transition is logged by
`_event` and then once more. -/
def allowRequest (monotonicNs : Int) : RouteDecision × CircuitBreaker :=
  if b.quarantined then
    ({ allowed := false, reason := "quarantined: " ++ b.quarantineReason }, b)
  else
    match b.state with
    | .closed => ({ allowed := true, reason := "" }, b)
    | .open =>
      if elapsed spec (b.openedAt monotonicNs) monotonicNs then
        ({ allowed := true, reason := "half-open probe admitted" },
          ({ b with state := .halfOpen, halfOpenProbes := 0, halfOpenSuccesses := 0 }.event
            monotonicNs (.state .halfOpen)).event monotonicNs (.state .halfOpen))
      else ({ allowed := false, reason := "circuit is open" }, b)
    | .halfOpen =>
      if b.halfOpenProbes ≥ spec.halfOpenProbeConcurrency then
        ({ allowed := false, reason := "half-open probe concurrency reached" }, b)
      else
        ({ allowed := true, reason := "half-open probe admitted" },
          { b with halfOpenProbes := b.halfOpenProbes + 1 })

end CircuitBreaker

/-! ### Sequences of calls -/

/-- A call.  An outcome may answer a half-open probe, or a request of another time. -/
inductive CircuitCall
  | allow (monotonicNs : Int)
  | success (monotonicNs : Int) (probe : Bool)
  | failure (monotonicNs : Int) (failureClass : String) (probe : Bool)

/-- A breaker and what an observer has noted: the outcomes since the last close (`true` for a
success), the probes that are not answered yet, and how many were answered otherwise than by a
success since the breaker is half-open. -/
structure Watched where
  breaker : CircuitBreaker := {}
  outcomes : List Bool := []
  unanswered : Nat := 0
  unsuccessful : Nat := 0

namespace Watched

variable (spec : CircuitSpec)

def allow (s : Watched) (monotonicNs : Int) : Watched :=
  let (decision, breaker) := s.breaker.allowRequest spec monotonicNs
  let admitted := decision.allowed && breaker.state = .halfOpen
  { s with
    breaker
    unanswered := if admitted then s.unanswered + 1 else s.unanswered
    unsuccessful := if s.breaker.state = .halfOpen then s.unsuccessful else 0 }

def success (s : Watched) (monotonicNs : Int) (probe : Bool) : Watched :=
  let breaker := s.breaker.recordSuccess spec monotonicNs
  { s with
    breaker
    outcomes := if s.breaker.state = .halfOpen ∧ breaker.state = .closed then []
      else s.outcomes ++ [true]
    unanswered := if probe then s.unanswered - 1 else s.unanswered }

/-- An unclassified failure raises and leaves the breaker as it is. -/
def failure (s : Watched) (monotonicNs : Int) (failureClass : String) (probe : Bool) : Watched :=
  { s with
    breaker := match s.breaker.recordFailure spec failureClass monotonicNs with
      | .ok breaker => breaker
      | .error _ => s.breaker
    outcomes := if failureClass ∈ countedFailureClasses then s.outcomes ++ [false]
      else s.outcomes
    unanswered := if probe then s.unanswered - 1 else s.unanswered
    unsuccessful := if probe then s.unsuccessful + 1 else s.unsuccessful }

def step (s : Watched) : CircuitCall → Watched
  | .allow monotonicNs => s.allow spec monotonicNs
  | .success monotonicNs probe => s.success spec monotonicNs probe
  | .failure monotonicNs failureClass probe => s.failure spec monotonicNs failureClass probe

end Watched

/-- The calls of a breaker that starts closed. -/
def watched (spec : CircuitSpec) : Machine Watched CircuitCall where
  init := {}
  step := Watched.step spec

/-! ### What each call does -/

namespace CircuitBreaker

variable {spec : CircuitSpec} {b : CircuitBreaker} {t : Int}

theorem counted_disjoint {failureClass : String} (h : failureClass ∈ countedFailureClasses) :
    failureClass ∉ excludedFailureClasses ∧ failureClass ∉ quarantineClasses := by
  have hall : ∀ c ∈ countedFailureClasses, c ∉ excludedFailureClasses ∧ c ∉ quarantineClasses := by
    decide
  exact hall failureClass h

/-- The outcomes of a counted failure. -/
inductive Failed (spec : CircuitSpec) (b : CircuitBreaker) (failureClass : String) (t : Int) :
    CircuitBreaker → Prop
  | kept (hstate : b.state = .closed)
      (hcalm : ((b.observe failureClass t).rateExceeded spec ||
        (b.observe failureClass t).runExceeded spec) = false) :
      Failed spec b failureClass t (b.observe failureClass t)
  | tripped (hstate : b.state = .closed)
      (hexceeded : ((b.observe failureClass t).rateExceeded spec ||
        (b.observe failureClass t).runExceeded spec) = true) :
      Failed spec b failureClass t ((b.observe failureClass t).trip t)
  | reopened (hstate : b.state = .halfOpen) :
      Failed spec b failureClass t ((b.observe failureClass t).trip t)
  | unmoved (hstate : b.state = .open) : Failed spec b failureClass t (b.observe failureClass t)

theorem recordFailure_counted (spec : CircuitSpec) (b : CircuitBreaker) (t : Int)
    {failureClass : String} (h : failureClass ∈ countedFailureClasses) :
    ∃ b', b.recordFailure spec failureClass t = .ok b' ∧ Failed spec b failureClass t b' := by
  obtain ⟨hexcluded, hquarantine⟩ := counted_disjoint h
  rw [recordFailure, if_neg hexcluded, if_neg hquarantine, if_neg (not_not.mpr h)]
  refine ⟨_, rfl, ?_⟩
  have hsame : (b.observe failureClass t).state = b.state := rfl
  rw [hsame]
  rcases hstate : b.state
  · by_cases hexceeded : ((b.observe failureClass t).rateExceeded spec ||
        (b.observe failureClass t).runExceeded spec) = true
    · rw [if_pos hexceeded]
      exact .tripped hstate hexceeded
    · rw [if_neg hexceeded]
      exact .kept hstate (Bool.eq_false_iff.mpr hexceeded)
  · exact .unmoved hstate
  · exact .reopened hstate

/-- What is not counted may quarantine, and changes nothing else. -/
theorem recordFailure_uncounted {failureClass : String}
    (h : failureClass ∉ countedFailureClasses) {b' : CircuitBreaker}
    (hb : b.recordFailure spec failureClass t = .ok b') :
    b'.state = b.state ∧ b'.observations = b.observations ∧
      b'.consecutiveFailures = b.consecutiveFailures ∧ b'.openedAtNs = b.openedAtNs ∧
      b'.halfOpenProbes = b.halfOpenProbes ∧ b'.halfOpenSuccesses = b.halfOpenSuccesses ∧
      (failureClass ∉ quarantineClasses → b'.quarantined = b.quarantined) := by
  rw [recordFailure] at hb
  split_ifs at hb with hexcluded hquarantine
  · cases hb
    exact ⟨rfl, rfl, rfl, rfl, rfl, rfl, fun _ => rfl⟩
  · cases hb
    exact ⟨rfl, rfl, rfl, rfl, rfl, rfl, fun hnot => absurd hquarantine hnot⟩

/-- The outcomes of a success. -/
inductive Succeeded (spec : CircuitSpec) (b : CircuitBreaker) (t : Int) : CircuitBreaker → Prop
  | counted (hstate : b.state ≠ .halfOpen) :
      Succeeded spec b t { b with successes := b.successes + 1, consecutiveFailures := 0 }
  | probe (hstate : b.state = .halfOpen)
      (hfew : b.halfOpenSuccesses + 1 < spec.halfOpenProbesRequired) :
      Succeeded spec b t { b with
        successes := b.successes + 1
        consecutiveFailures := 0
        halfOpenSuccesses := b.halfOpenSuccesses + 1 }
  | closed (hstate : b.state = .halfOpen)
      (henough : spec.halfOpenProbesRequired ≤ b.halfOpenSuccesses + 1) :
      Succeeded spec b t (CircuitBreaker.close { b with
        successes := b.successes + 1
        consecutiveFailures := 0
        halfOpenSuccesses := b.halfOpenSuccesses + 1 } t)

theorem recordSuccess_succeeded (spec : CircuitSpec) (b : CircuitBreaker) (t : Int) :
    Succeeded spec b t (b.recordSuccess spec t) := by
  obtain ⟨state, observations, events, successes, failures, openedAtNs, openCount, probes,
    probeSuccesses, quarantined, reason⟩ := b
  cases state with
  | closed => exact .counted fun h => nomatch h
  | «open» => exact .counted fun h => nomatch h
  | halfOpen =>
    rw [recordSuccess.eq_def]
    by_cases henough : spec.halfOpenProbesRequired ≤ probeSuccesses + 1
    · simp only [if_pos henough]
      exact .closed rfl henough
    · simp only [if_neg henough]
      exact .probe rfl (not_le.mp henough)

def halfOpen (b : CircuitBreaker) (t : Int) : CircuitBreaker :=
  ({ b with state := .halfOpen, halfOpenProbes := 0, halfOpenSuccesses := 0 }.event t
    (.state .halfOpen)).event t (.state .halfOpen)

/-- The answers to a routing question. -/
inductive Routed (spec : CircuitSpec) (b : CircuitBreaker) (t : Int) :
    RouteDecision × CircuitBreaker → Prop
  | quarantined (h : b.quarantined = true) :
      Routed spec b t ({ allowed := false, reason := "quarantined: " ++ b.quarantineReason }, b)
  | closed (hfree : b.quarantined = false) (hstate : b.state = .closed) :
      Routed spec b t ({ allowed := true, reason := "" }, b)
  | reprobed (hfree : b.quarantined = false) (hstate : b.state = .open)
      (helapsed : elapsed spec (b.openedAt t) t) :
      Routed spec b t ({ allowed := true, reason := "half-open probe admitted" }, b.halfOpen t)
  | waiting (hfree : b.quarantined = false) (hstate : b.state = .open)
      (helapsed : ¬ elapsed spec (b.openedAt t) t) :
      Routed spec b t ({ allowed := false, reason := "circuit is open" }, b)
  | exhausted (hfree : b.quarantined = false) (hstate : b.state = .halfOpen)
      (hfull : spec.halfOpenProbeConcurrency ≤ b.halfOpenProbes) :
      Routed spec b t
        ({ allowed := false, reason := "half-open probe concurrency reached" }, b)
  | probed (hfree : b.quarantined = false) (hstate : b.state = .halfOpen)
      (hroom : b.halfOpenProbes < spec.halfOpenProbeConcurrency) :
      Routed spec b t ({ allowed := true, reason := "half-open probe admitted" },
        { b with halfOpenProbes := b.halfOpenProbes + 1 })

theorem allowRequest_routed (spec : CircuitSpec) (b : CircuitBreaker) (t : Int) :
    Routed spec b t (b.allowRequest spec t) := by
  obtain ⟨state, observations, events, successes, failures, openedAtNs, openCount, probes,
    probeSuccesses, quarantined, reason⟩ := b
  rw [allowRequest.eq_def]
  cases quarantined with
  | true => exact .quarantined rfl
  | false =>
    rw [if_neg Bool.false_ne_true]
    cases state with
    | closed => exact .closed rfl rfl
    | «open» =>
      dsimp only
      split_ifs with helapsed
      · exact .reprobed rfl rfl helapsed
      · exact .waiting rfl rfl helapsed
    | halfOpen =>
      dsimp only
      split_ifs with hfull
      · exact .exhausted rfl rfl hfull
      · exact .probed rfl rfl (not_le.mp hfull)

end CircuitBreaker

end Hqsb
