/-
Hqsb/Serving/Protocol.lean

The protocol plane as the gateway uses it: the errors that HQSB raises and their frozen catalog,
the canonical request, and for each request a delivery ledger and a state machine.

The request pipeline itself (parsing, validation, template and tokenizer) is not modelled: the
gateway sees either the issue it rejected the request with or the canonical request.

The ledger counts tokens at five stages and its audit reports every stage that is ahead of the
one before it.  While the client's own count has not been observed, a ledger audits clean exactly
when its counts fall from stage to stage (`problems_eq_nil_iff`).

`RequestStateMachine` carries what the transition guard enforces: its records lead from the first
state to the present one, each along an edge of the transition table.  So whatever a handler does,
the trace it leaves is legal.
-/
import Hqsb.Core.Json
import Hqsb.Lib.OrderedDict

namespace Hqsb

open Lib

/-! ### Errors -/

/-- An `HqsbError`: its class, whether the class is a `SchemaError`, its text and the `fault`
among its details. -/
structure HqsbError where
  errorType : String
  isSchema : Bool := false
  message : String := ""
  fault : String := ""
  deriving DecidableEq

def HqsbError.config (message : String) : HqsbError :=
  { errorType := "ConfigError", message }

def HqsbError.schema (message : String) : HqsbError :=
  { errorType := "SchemaError", isSchema := true, message }

/-- What may come out of a call. -/
inductive Raised where
  | hqsb (e : HqsbError)
  | python (errorType message : String)

/-! ### The error catalog -/

/-- One frozen failure. -/
structure ErrorEntry where
  code : String
  httpStatus : Nat
  stage : String
  category : String
  message : String

abbrev ErrorCatalog := OrderedDict String ErrorEntry

namespace ErrorCatalog

def entry (catalog : ErrorCatalog) (code : String) : Except HqsbError ErrorEntry :=
  match catalog.get? code with
  | some e => .ok e
  | none => .error (.config ("error code '" ++ code ++ "' is not in the frozen catalog"))

/-- The body of `wire_body` under its key `error`. -/
def errorBody (e : ErrorEntry) (message : String) : Json :=
  .obj [("message", .str (if message = "" then e.message else message)),
    ("type", .str e.category), ("code", .str e.code), ("param", .str "")]

def wireBody (catalog : ErrorCatalog) (code message : String) : Except HqsbError Json := do
  let e ← catalog.entry code
  pure (.obj [("error", errorBody e message)])

def Has (catalog : ErrorCatalog) (code : String) : Prop := code ∈ catalog.keys

instance (catalog : ErrorCatalog) (code : String) : Decidable (catalog.Has code) :=
  inferInstanceAs (Decidable (code ∈ catalog.keys))

variable {catalog : ErrorCatalog} {code : String}

theorem entry_of_has (h : catalog.Has code) : ∃ e, catalog.entry code = .ok e := by
  obtain ⟨e, he⟩ := catalog.mem_keys_iff.mp h
  exact ⟨e, by rw [entry, he]⟩

theorem has_of_entry {e : ErrorEntry} (h : catalog.entry code = .ok e) : catalog.Has code := by
  rw [entry] at h
  by_contra hnot
  rw [catalog.get?_eq_none_iff.mpr hnot] at h
  cases h

theorem mem_values_of_entry {e : ErrorEntry} (h : catalog.entry code = .ok e) :
    e ∈ catalog.values := by
  rw [entry] at h
  rcases hget : catalog.get? code with - | e'
  · rw [hget] at h
    cases h
  · rw [hget] at h
    cases h
    exact catalog.mem_values_iff.mpr ⟨code, hget⟩

theorem entry_of_not_has (h : ¬ catalog.Has code) : ∃ e, catalog.entry code = .error e := by
  rw [entry, catalog.get?_eq_none_iff.mpr h]
  exact ⟨_, rfl⟩

end ErrorCatalog

/-! ### Requests -/

structure ValidationIssue where
  path : String
  code : String
  message : String

/-- What the backend receives, as far as the gateway reads it. -/
structure CanonicalBackendRequest where
  requestId : String
  endpoint : String
  modelAlias : String
  modelIdentity : List (String × String)
  promptTokens : Nat
  stream : Bool
  /-- `normalized["stream_options"]["include_usage"]` -/
  includeUsage : Bool

/-- `==` of two dicts. -/
def sameDict (a b : List (String × String)) : Bool :=
  a.length == b.length && a.all fun e => b.lookup e.1 == some e.2

/-- Per-request token accounting across the five delivery stages. -/
structure DeliveryLedger where
  generated : Nat := 0
  committed : Nat := 0
  emitted : Nat := 0
  flushed : Nat := 0
  clientReceived : Nat := 0
  clientReceivedObserved : Bool := false
  discardedAfterDisconnect : Nat := 0
  terminalClean : Bool := false
  disconnected : Bool := false
  cancelled : Bool := false

namespace DeliveryLedger

/-- `LEDGER_STAGES`, with their counts. -/
def counts (l : DeliveryLedger) : List (String × Nat) :=
  [("generated", l.generated), ("committed", l.committed), ("emitted", l.emitted),
    ("flushed", l.flushed), ("client_received", l.clientReceived)]

/-- Every stage that is ahead of the stage before it. -/
def growth : List (String × Nat) → List String
  | a :: b :: rest =>
    let problem := b.1 ++ " (" ++ toString b.2 ++ ") exceeds " ++ a.1 ++ " (" ++ toString a.2 ++
      "); the delivery ledger may never grow downstream"
    (if a.2 < b.2 then [problem] else []) ++ growth (b :: rest)
  | _ => []

/-- `audit()["problems"]`. -/
def problems (l : DeliveryLedger) : List String :=
  let shortfall : Int := l.committed - l.clientReceived
  growth l.counts ++
    (if l.terminalClean ∧ ¬ (l.disconnected ∨ l.cancelled) ∧ l.clientReceivedObserved ∧
        ¬ (l.committed = l.emitted ∧ l.emitted = l.clientReceived) then
      ["after a clean terminal the client must have received the whole answer (committed=" ++
        toString l.committed ++ ", emitted=" ++ toString l.emitted ++ ", client_received=" ++
        toString l.clientReceived ++ ")"]
    else []) ++
    (if (l.disconnected ∨ l.cancelled) ∧ l.clientReceivedObserved ∧
        shortfall ≠ l.discardedAfterDisconnect ∧ shortfall ≠ 0 then
      ["the difference between committed and client_received must be explained by " ++
        "discarded_after_disconnect (shortfall=" ++ toString shortfall ++ ", recorded=" ++
        toString l.discardedAfterDisconnect ++ ")"]
    else [])

/-- The counts fall from stage to stage. -/
def Ordered (l : DeliveryLedger) : Prop :=
  l.committed ≤ l.generated ∧ l.emitted ≤ l.committed ∧ l.flushed ≤ l.emitted ∧
    l.clientReceived ≤ l.flushed

instance (l : DeliveryLedger) : Decidable l.Ordered :=
  inferInstanceAs (Decidable (_ ∧ _ ∧ _ ∧ _))

theorem growth_eq_nil_iff (l : DeliveryLedger) : growth l.counts = [] ↔ l.Ordered := by
  have hite : ∀ (a b : Nat) (s : String), (if a < b then [s] else []) = [] ↔ b ≤ a := by
    intro a b s
    by_cases h : a < b
    · rw [if_pos h]
      exact ⟨fun h => (nomatch h), fun hle => absurd h (Nat.not_lt.mpr hle)⟩
    · rw [if_neg h]
      exact ⟨fun _ => Nat.not_lt.mp h, fun _ => rfl⟩
  simp only [counts, growth, List.append_eq_nil_iff, hite, Ordered, and_true]

/-- **The audit**, as long as nobody has counted at the client. -/
theorem problems_eq_nil_iff {l : DeliveryLedger} (h : l.clientReceivedObserved = false) :
    l.problems = [] ↔ l.Ordered := by
  simp only [problems, h, Bool.false_eq_true, false_and, and_false, if_false, List.append_nil,
    growth_eq_nil_iff]

end DeliveryLedger

/-- The timestamps the gateway takes, in causal order. -/
inductive Timestamp
  | gatewayRecv | validateDone | enqueue | dequeue | backendSubmit | runtimeFirst | firstFrameWrite
  | firstByteClient | runtimeLast | terminalWrite | clientDone | cleanupDone
  deriving DecidableEq

/-- `REQUEST_STATES`. -/
inductive RequestState
  | clientScheduled | connecting | received | validated | admissionPending | queued | routed
  | backendSubmitted | firstTokenReady | streaming | terminalFrameSent | clientCompleted | cleaned
  | rejectedInvalid | rejectedOverload | disconnected | cancelRequested | cancelPropagated
  | cancelled | timedOut | backendFailed | retryingBeforeCommit | fallbackSelected | draining
  deriving DecidableEq

def allowedRequestTransitions : RequestState → List RequestState
  | .clientScheduled => [.connecting]
  | .connecting => [.received]
  | .received => [.validated, .rejectedInvalid, .rejectedOverload]
  | .validated => [.admissionPending, .rejectedInvalid]
  | .admissionPending => [.queued, .rejectedOverload, .backendFailed]
  | .queued => [.routed, .cancelRequested, .rejectedOverload, .disconnected, .backendFailed]
  | .routed =>
    [.backendSubmitted, .rejectedOverload, .disconnected, .cancelRequested, .backendFailed]
  | .backendSubmitted =>
    [.firstTokenReady, .backendFailed, .cancelRequested, .disconnected, .timedOut,
      .retryingBeforeCommit]
  | .retryingBeforeCommit => [.backendSubmitted, .backendFailed, .fallbackSelected]
  | .fallbackSelected => [.backendSubmitted]
  | .firstTokenReady =>
    [.streaming, .terminalFrameSent, .cancelRequested, .disconnected, .timedOut]
  | .streaming =>
    [.terminalFrameSent, .cancelRequested, .disconnected, .timedOut, .backendFailed]
  | .terminalFrameSent => [.clientCompleted, .disconnected]
  | .clientCompleted => [.cleaned]
  | .cancelRequested => [.cancelPropagated]
  | .cancelPropagated => [.cancelled]
  | .cancelled => [.cleaned]
  | .disconnected => [.cancelRequested, .cancelPropagated, .cleaned]
  | .timedOut => [.cancelRequested, .cancelPropagated, .cleaned]
  | .backendFailed => [.cleaned, .retryingBeforeCommit]
  | .rejectedInvalid => [.cleaned]
  | .rejectedOverload => [.cleaned]
  | .cleaned => []
  | .draining => []

def RequestState.name : RequestState → String
  | .clientScheduled => "CLIENT_SCHEDULED"
  | .connecting => "CONNECTING"
  | .received => "RECEIVED"
  | .validated => "VALIDATED"
  | .admissionPending => "ADMISSION_PENDING"
  | .queued => "QUEUED"
  | .routed => "ROUTED"
  | .backendSubmitted => "BACKEND_SUBMITTED"
  | .firstTokenReady => "FIRST_TOKEN_READY"
  | .streaming => "STREAMING"
  | .terminalFrameSent => "TERMINAL_FRAME_SENT"
  | .clientCompleted => "CLIENT_COMPLETED"
  | .cleaned => "CLEANED"
  | .rejectedInvalid => "REJECTED_INVALID"
  | .rejectedOverload => "REJECTED_OVERLOAD"
  | .disconnected => "DISCONNECTED"
  | .cancelRequested => "CANCEL_REQUESTED"
  | .cancelPropagated => "CANCEL_PROPAGATED"
  | .cancelled => "CANCELLED"
  | .timedOut => "TIMED_OUT"
  | .backendFailed => "BACKEND_FAILED"
  | .retryingBeforeCommit => "RETRYING_BEFORE_COMMIT"
  | .fallbackSelected => "FALLBACK_SELECTED"
  | .draining => "DRAINING"

structure TransitionRecord where
  oldState : RequestState
  newState : RequestState
  reason : String

/-- Records that lead from one state to another along the transition table. -/
def Traced : RequestState → List TransitionRecord → RequestState → Prop
  | s, [], t => s = t
  | s, r :: rs, t =>
    r.oldState = s ∧ r.newState ∈ allowedRequestTransitions s ∧ Traced r.newState rs t

theorem Traced.concat {s t : RequestState} {records : List TransitionRecord}
    (h : Traced s records t) {next : RequestState} (hnext : next ∈ allowedRequestTransitions t)
    (reason : String) : Traced s (records ++ [⟨t, next, reason⟩]) next := by
  induction records generalizing s with
  | nil =>
    obtain rfl : s = t := h
    exact ⟨rfl, hnext, rfl⟩
  | cons r rs ih => exact ⟨h.1, h.2.1, ih h.2.2⟩

/-- The transition guard of one request. -/
structure RequestStateMachine where
  requestId : String
  state : RequestState := .clientScheduled
  records : List TransitionRecord := []
  traced : Traced .clientScheduled records state := by rfl

namespace RequestStateMachine

def transition (m : RequestStateMachine) (newState : RequestState) (reason : String) :
    Except HqsbError RequestStateMachine :=
  if h : newState ∈ allowedRequestTransitions m.state then
    .ok {
      requestId := m.requestId
      state := newState
      records := m.records ++ [⟨m.state, newState, reason⟩]
      traced := m.traced.concat h reason }
  else
    .error (.schema ("illegal request transition " ++ m.state.name ++ " -> " ++ newState.name ++
      " for " ++ m.requestId ++ "; allowed: [" ++ ", ".intercalate
        ((allowedRequestTransitions m.state).map fun s => "'" ++ s.name ++ "'") ++ "]"))

variable {m m' : RequestStateMachine} {newState : RequestState} {reason : String}

/-- **The guard**: a legal transition goes through, and only a legal one. -/
theorem transition_ok (h : newState ∈ allowedRequestTransitions m.state) (reason : String) :
    ∃ m', m.transition newState reason = .ok m' ∧ m'.state = newState ∧
      m'.requestId = m.requestId := by
  rw [transition, dif_pos h]
  exact ⟨_, rfl, rfl, rfl⟩

theorem transition_error (h : newState ∉ allowedRequestTransitions m.state) (reason : String) :
    ∃ message, m.transition newState reason = .error (.schema message) := by
  rw [transition, dif_neg h]
  exact ⟨_, rfl⟩

end RequestStateMachine

end Hqsb
