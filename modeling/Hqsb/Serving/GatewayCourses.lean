/-
Hqsb/Serving/GatewayCourses.lean

The courses a request can take through `handle`.

`Exchange.course` reads off the request which one it is: a control request, a rejection in one of
four states, a deadline that is not a number, or a request that is served.  `handle_eq` says what
`handle` leaves in each of them; the last one is `_serve`, which is the matter of
`GatewayOutcomes`.
-/
import Hqsb.Serving.GatewayOutcomes

namespace Hqsb

open Lib

/-! ### Courses -/

inductive Course where
  | control
  /-- Rejected with a code, in a state of its machine. -/
  | rejected (state : RequestState) (code : String)
  /-- To the backend, with a deadline that is not a number. -/
  | timeless
  | served (canonical : CanonicalBackendRequest) (deadlineNs : Int)

def Exchange.course (g : ServingGateway) (service : ServiceState) (x : Exchange) : Course :=
  if x.path ∈ ["/healthz", "/readyz", "/metrics"] then .control
  else if x.path ∉ g.endpoints then .rejected .clientScheduled "not_found"
  else if x.method ≠ "POST" then .rejected .clientScheduled "method_not_allowed"
  else if service ≠ .serving then .rejected .clientScheduled "service_not_serving"
  else
    match x.canonical with
    | .error issue => .rejected .received issue.code
    | .ok canonical =>
      if (deadlineMs g x.deadline).2 ≠ "" then .rejected .received "deadline_infeasible"
      else if ¬ x.decision.admitted then .rejected .admissionPending x.decision.code
      else if x.selection.isNone then .rejected .queued "no_feasible_backend"
      else
        match (deadlineMs g x.deadline).1 with
        | none => .timeless
        | some ms => .served canonical (deadlineNs x.receivedNs ms)

/-- The state that is left, by a return or by an exception. -/
def Attempt.left {α : Type} : Attempt (Serving × α) → Serving
  | .ok (s, _) => s
  | .error (_, s) => s

/-- A request that has not reached a backend. -/
structure Early (g : ServingGateway) (s : Serving) : Prop where
  ledger : s.ledger = {}
  history : s.history = []
  /-- No event stream was opened. -/
  writer : ∀ headers, .head 200 headers ∈ s.writer.sent → headers ≠ streamHeaders g

variable {g : ServingGateway} {service : ServiceState} {x : Exchange}

/-! ### Rejections -/

theorem jsonHeaders_ne (body : List UInt8) (rest : List (String × String)) :
    jsonHeaders body ++ rest ≠ streamHeaders g := by
  intro h
  have hkeys := congrArg (List.map Prod.fst) h
  simp [jsonHeaders, streamHeaders] at hkeys

section

variable (m : RequestStateMachine) (stamps : List Timestamp) (room : Option Nat)

/-- A request that is still to be answered. -/
def Serving.fresh : Serving where
  machine := m
  stamps
  writer := { room }

theorem early_fresh : Early g (.fresh m stamps room) where
  ledger := rfl
  history := rfl
  writer := fun _ h => (nomatch h)

theorem early_answered (status : Nat)
    (body : List UInt8) (rest : List (String × String)) :
    Early g { Serving.fresh m stamps room with
      writer := ResponseWriter.calls { room }
        [.head status (jsonHeaders body ++ rest), .body body, .close] } where
  ledger := rfl
  history := rfl
  writer := by
    intro headers h
    have hmem : 200 = status ∧ headers = jsonHeaders body ++ rest := by
      rcases room with - | - | n <;> simpa [ResponseWriter.calls, ResponseWriter.call] using h
    rw [hmem.2]
    exact jsonHeaders_ne body rest

end

/-- What is left of a request that was not served: cleaned and returned, or an exception. -/
structure Concludes (g : ServingGateway) (cleaned : Prop)
    (result : Attempt (Serving × ServingOutcome)) : Prop where
  returned : cleaned → ∃ s, ∃ o : ServingOutcome, result = .ok (s, o) ∧ s.machine.state = .cleaned ∧
    o.terminalState = s.machine.state ∧ o.transitions = s.machine.records ∧ Early g s
  raised : ¬ cleaned → ∃ e s, result = .error (.hqsb e, s) ∧ Early g s

def arrivalState (state : RequestState) : RequestState :=
  if state = .clientScheduled then .received else state

variable {s : Serving} {m : RequestStateMachine} {stamps : List Timestamp} {room : Option Nat}

theorem recordArrival_eq : ∃ m, recordArrival s = .ok { s with machine := m } ∧
      m.state = arrivalState s.machine.state := by
  rw [recordArrival, arrivalState]
  by_cases hstate : s.machine.state = .clientScheduled
  · obtain ⟨m, hnext, hm⟩ := transition_from .connecting "connection accepted" hstate (by decide)
    obtain ⟨m', hnext', hm'⟩ := transition_from .received "rejection raised" hnext (by decide)
    refine ⟨m', ?_, by rw [hnext', if_pos hstate]⟩
    rw [if_pos hstate, hm s rfl]
    exact hm' _ rfl
  · exact ⟨s.machine, if_neg hstate, by rw [if_neg hstate]⟩

theorem rejectTarget_mem (e : ErrorEntry) (code : String) :
    rejectTarget e code ∈ [RequestState.rejectedInvalid, .rejectedOverload] := by
  rw [rejectTarget]
  split_ifs <;> decide

section

variable {target : RequestState}
  (hstate : s.machine.state ∈ [RequestState.received, .admissionPending, .queued])

include hstate

/-- A rejection is recorded where the transition table has a place for it. -/
theorem recordRejection_eq
    (htarget : target ∈ [RequestState.rejectedInvalid, .rejectedOverload])
    (hlegal : target ∈ allowedRequestTransitions s.machine.state) (reason : String) :
    ∃ m, recordRejection target reason s = .ok { s with machine := m } ∧ m.state = .cleaned := by
  have hmem : s.machine.state ∈
      [RequestState.received, .validated, .admissionPending, .queued, .routed] := by
    revert hstate
    generalize s.machine.state = state
    revert state
    decide
  obtain ⟨m, hnext, hm⟩ := transition_from target reason rfl hlegal
  have hedges : ∀ t ∈ [RequestState.rejectedInvalid, .rejectedOverload],
      RequestState.cleaned ∈ allowedRequestTransitions t := by decide
  obtain ⟨m', hnext', hm'⟩ :=
    transition_from .cleaned "rejection recorded" hnext (hedges target htarget)
  refine ⟨m', ?_, hnext'⟩
  rw [recordRejection, if_pos hmem, hm s rfl]
  exact hm' _ rfl

theorem recordRejection_raise
    (hlegal : target ∉ allowedRequestTransitions s.machine.state) (reason : String) :
    ∃ e, recordRejection target reason s = .error (.hqsb e, s) := by
  have hmem : s.machine.state ∈
      [RequestState.received, .validated, .admissionPending, .queued, .routed] := by
    revert hstate
    generalize s.machine.state = state
    revert state
    decide
  obtain ⟨e, he⟩ := transition_raise hlegal reason
  refine ⟨e, ?_⟩
  rw [recordRejection, if_pos hmem, he]
  rfl

end

/-- **A rejection** leaves the request cleaned exactly if its code has an entry and the state it
is rejected in has an edge for it. -/
theorem reject_eq
    (hstate : m.state ∈ [RequestState.clientScheduled, .received, .admissionPending, .queued])
    (code reason : String) (retryAfterMs : Int) :
    Concludes g (∃ e, g.catalog.entry code = .ok e ∧
        rejectTarget e code ∈ allowedRequestTransitions (arrivalState m.state))
      (reject g (.fresh m stamps room) code reason retryAfterMs) := by
  by_cases hhas : g.catalog.Has code
  · obtain ⟨e, he⟩ := ErrorCatalog.entry_of_has hhas
    have hwire : g.catalog.wireBody code e.message =
        .ok (.obj [("error", ErrorCatalog.errorBody e e.message)]) := by
      rw [ErrorCatalog.wireBody, he]
      rfl
    let body := g.dumpBody (.obj [("error", ErrorCatalog.errorBody e e.message)])
    let s : Serving := { Serving.fresh m stamps room with
      writer := ResponseWriter.calls { room }
        [.head e.httpStatus (rejectHeaders e retryAfterMs body), .body body, .close] }
    obtain ⟨m', hm', hnext⟩ := recordArrival_eq (s := s)
    have hstate' : m'.state = arrivalState m.state := hnext
    have harrived : m'.state ∈ [RequestState.received, .admissionPending, .queued] := by
      rw [hstate']
      revert hstate
      generalize m.state = state
      revert state
      decide
    have hskip : recordAdmission (rejectTarget e code) { s with machine := m' } =
        .ok { s with machine := m' } := by
      refine if_neg fun hboth => ?_
      rw [show m'.state = _ from hboth.1] at harrived
      revert harrived
      decide
    have hstart : reject g (.fresh m stamps room) code reason retryAfterMs = (do
        let s ← recordRejection (rejectTarget e code) reason { s with machine := m' }
        let s := { s with ledger := { s.ledger with terminalClean := false } }
        pure (s, s.rejected e code reason body.length)) := by
      rw [reject, he]
      show (Serving.lift _ (g.catalog.wireBody code e.message) >>= _) = _
      rw [hwire]
      show (recordArrival s >>= _) = _
      rw [hm']
      show (recordAdmission _ _ >>= _) = _
      rw [hskip]
      rfl
    rw [hstart]
    constructor
    · rintro ⟨e', he', hlegal⟩
      obtain rfl : e = e' := Except.ok.inj (he.symm.trans he')
      obtain ⟨m'', hm'', hcleaned⟩ := recordRejection_eq (s := { s with machine := m' }) harrived
        (rejectTarget_mem e code) (by rw [hstate']; exact hlegal) reason
      rw [hm'']
      exact ⟨_, _, rfl, hcleaned, rfl, rfl, early_answered m'' stamps room _ body _⟩
    · intro hnone
      obtain ⟨error, herror⟩ := recordRejection_raise (s := { s with machine := m' }) harrived
        (fun hlegal => hnone ⟨e, he, by rw [← hstate']; exact hlegal⟩) reason
      rw [herror]
      exact ⟨error, _, rfl, early_answered m' stamps room _ body _⟩
  · obtain ⟨error, he⟩ := ErrorCatalog.entry_of_not_has hhas
    constructor
    · rintro ⟨e, hentry, -⟩
      rw [he] at hentry
      cases hentry
    · intro _
      refine ⟨error, .fresh m stamps room, ?_, early_fresh m stamps room⟩
      rw [reject, he]
      rfl

/-! ### Control requests -/

/-- The states lead from one to the next along the transition table. -/
def Path : RequestState → List (RequestState × String) → Prop
  | _, [] => True
  | state, t :: ts => t.1 ∈ allowedRequestTransitions state ∧ Path t.1 ts

theorem foldlM_transition {ts : List (RequestState × String)} (h : Path s.machine.state ts) :
    ∃ m, ts.foldlM (fun s t => s.transition t.1 t.2) s = .ok { s with machine := m } ∧
      m.state = (ts.getLast?.map Prod.fst).getD s.machine.state := by
  induction ts generalizing s with
  | nil => exact ⟨s.machine, rfl, rfl⟩
  | cons t ts ih =>
    obtain ⟨m, hm, hstate⟩ := transition_eq h.1 t.2
    obtain ⟨m', hm', hstate'⟩ := ih (s := { s with machine := m }) (by
      show Path m.state ts
      rw [hstate]
      exact h.2)
    refine ⟨m', ?_, ?_⟩
    · rw [List.foldlM_cons, hm]
      exact hm'
    · rw [hstate']
      show (ts.getLast?.map Prod.fst).getD m.state = _
      rw [hstate]
      cases ts with
      | nil => rfl
      | cons t' ts => rw [List.getLast?_eq_some_getLast (List.cons_ne_nil _ _)]; rfl

theorem path_control : Path .clientScheduled controlTransitions := by
  simp only [controlTransitions, Path]
  decide

/-- **A control request** ends cleaned. -/
theorem handleControl_eq (hstate : m.state = .clientScheduled) :
    Concludes g True (handleControl g service x (.fresh m stamps room)) := by
  refine ⟨fun _ => ?_, fun h => absurd trivial h⟩
  let body := g.dumpBody (if x.path = "/healthz" then x.health else readiness service)
  let s : Serving := { Serving.fresh m stamps room with
    writer := ResponseWriter.calls { room }
      [.head 200 (jsonHeaders body ++ []), .body body, .close] }
  obtain ⟨m', hm', hnext⟩ := foldlM_transition (s := s)
    (show Path m.state controlTransitions by rw [hstate]; exact path_control)
  refine ⟨{ s with machine := m' }, Serving.controlled { s with machine := m' } body.length, ?_,
    hnext, rfl, rfl, early_answered m' stamps room _ body _⟩
  have hwriter : handleControl g service x (.fresh m stamps room) =
      (controlTransitions.foldlM (fun s t => s.transition t.1 t.2) s >>= fun s =>
        pure (s, s.controlled body.length)) := by
    rfl
  rw [hwriter, hm']
  rfl

/-! ### Handling -/

theorem fresh_transition {state newState : RequestState} (hstate : m.state = state)
    (h : newState ∈ allowedRequestTransitions state) (stamps : List Timestamp) (reason : String) :
    ∃ m', (Serving.fresh m stamps room).transition newState reason = .ok (.fresh m' stamps room) ∧
      m'.state = newState :=
  transition_eq (s := .fresh m stamps room)
    (show newState ∈ allowedRequestTransitions m.state by rw [hstate]; exact h) reason

theorem fresh_record {t : Timestamp} (h : t ∉ stamps) :
    (Serving.fresh m stamps room).record t = .ok (.fresh m (stamps ++ [t]) room) :=
  record_eq (s := .fresh m stamps room) h

theorem ok_bind {α β : Type} (a : α) (f : α → Attempt β) : ((.ok a : Attempt α) >>= f) = f a := rfl

/-- How far `handle` gets by itself on a course. -/
def Course.Approaches (g : ServingGateway) (script : BackendScript) (result : Attempt Approach) :
    Course → Prop
  | control => Concludes g True (result >>= proceed g script)
  | rejected state code => Concludes g (∃ e, g.catalog.entry code = .ok e ∧
      rejectTarget e code ∈ allowedRequestTransitions (arrivalState state))
      (result >>= proceed g script)
  | timeless => ∃ errorType message s, result = .error (.python errorType message, s) ∧ Early g s
  | served canonical deadlineNs => ∃ m : RequestStateMachine, ∃ selection,
      m.state = .routed ∧
        result = .ok (.serve canonical deadlineNs selection (.routed m script.room))

/-- What `handle` leaves on a course. -/
def Course.Leaves (g : ServingGateway) (x : Exchange)
    (result : Attempt (Serving × ServingOutcome)) : Course → Prop
  | control => Concludes g True result
  | rejected state code => Concludes g (∃ e, g.catalog.entry code = .ok e ∧
      rejectTarget e code ∈ allowedRequestTransitions (arrivalState state)) result
  | timeless => ∃ errorType message s, result = .error (.python errorType message, s) ∧ Early g s
  | served canonical deadlineNs => ∃ m : RequestStateMachine, ∃ selection,
      m.state = .routed ∧
        result = serve g canonical deadlineNs x.script selection (.routed m x.script.room)

theorem proceed_done (script : BackendScript) (result : Attempt (Serving × ServingOutcome)) :
    ((result >>= fun r => pure (.done r.1 r.2)) >>= proceed g script) = result := by
  rw [bind_assoc]
  exact bind_pure result

theorem approaches_rejected {state : RequestState} (hstate : m.state = state)
    (hmem : state ∈ [RequestState.clientScheduled, .received, .admissionPending, .queued])
    (code reason : String) (retryAfterMs : Int) :
    (Course.rejected state code).Approaches g x.script
      (turnAway g (.fresh m stamps room) code reason retryAfterMs) := by
  subst hstate
  have hdone : (turnAway g (.fresh m stamps room) code reason retryAfterMs >>= proceed g x.script) =
      reject g (.fresh m stamps room) code reason retryAfterMs := proceed_done _ _
  rw [Course.Approaches, hdone]
  exact reject_eq hmem code reason retryAfterMs

theorem approaches_arrived (code reason : String) :
    (Course.rejected .clientScheduled code).Approaches g x.script
      (turnAway g (.arrived x.requestId x.script.room) code reason 0) := by
  have hmachine : ({ requestId := x.requestId } : RequestStateMachine).state = .clientScheduled :=
    rfl
  exact approaches_rejected hmachine (by decide) code reason 0

theorem admitRequest_eq {canonical : CanonicalBackendRequest} (hstate : m.state = .received)
    (deadline : Option ℚ) :
    Course.Approaches g x.script
      (admitRequest g x canonical deadline (.fresh m [.gatewayRecv, .validateDone] x.script.room))
      (if ¬ x.decision.admitted then .rejected .admissionPending x.decision.code
      else if x.selection.isNone then .rejected .queued "no_feasible_backend"
      else
        match deadline with
        | none => .timeless
        | some ms => .served canonical (deadlineNs x.receivedNs ms)) := by
  obtain ⟨m₁, hm₁, hstate₁⟩ := fresh_transition hstate
    (show RequestState.validated ∈ _ by decide) [.gatewayRecv, .validateDone]
    "schema/semantic/identity/budget checks passed"
  obtain ⟨m₂, hm₂, hstate₂⟩ := fresh_transition hstate₁
    (show RequestState.admissionPending ∈ _ by decide) [.gatewayRecv, .validateDone]
    "asking the admission policy"
  rw [admitRequest, hm₁]
  show Course.Approaches g x.script (Serving.transition _ _ _ >>= _) _
  rw [hm₂]
  by_cases hadmitted : x.decision.admitted = true
  · rw [if_neg (not_not_intro hadmitted)]
    obtain ⟨m₃, hm₃, hstate₃⟩ := fresh_transition hstate₂ (show RequestState.queued ∈ _ by decide)
      [.gatewayRecv, .validateDone, .enqueue] "admitted"
    show Course.Approaches g x.script (if _ then _ else _) _
    rw [if_neg (not_not_intro hadmitted), fresh_record (by decide)]
    show Course.Approaches g x.script (Serving.transition _ _ _ >>= _) _
    rw [show [Timestamp.gatewayRecv, .validateDone] ++ [Timestamp.enqueue] =
      [.gatewayRecv, .validateDone, .enqueue] from rfl, hm₃]
    rcases hselection : x.selection with - | selection
    · exact approaches_rejected hstate₃ (by decide) "no_feasible_backend"
        "hard capability/identity/health filters removed every candidate" 0
    · obtain ⟨m₄, hm₄, hstate₄⟩ := fresh_transition hstate₃
        (show RequestState.routed ∈ _ by decide)
        [.gatewayRecv, .validateDone, .enqueue, .dequeue] selection.reason
      rw [Option.isNone_some, ok_bind]
      show Course.Approaches g x.script (Serving.record _ _ >>= _) _
      rw [fresh_record (by decide)]
      show Course.Approaches g x.script (Serving.transition _ _ _ >>= _) _
      rw [show [Timestamp.gatewayRecv, .validateDone, .enqueue] ++ [Timestamp.dequeue] =
        [.gatewayRecv, .validateDone, .enqueue, .dequeue] from rfl, hm₄]
      rcases deadline with - | ms
      · exact ⟨_, _, _, rfl, early_fresh _ _ _⟩
      · exact ⟨m₄, selection, hstate₄, rfl⟩
  · rw [if_pos hadmitted]
    show Course.Approaches g x.script (if _ then _ else _) _
    rw [if_pos hadmitted]
    by_cases hhas : g.catalog.Has x.decision.code
    · rw [if_pos hhas]
      exact approaches_rejected hstate₂ (by decide) _ _ _
    · -- a code without an entry is refused before it could be rejected with
      rw [if_neg hhas]
      obtain ⟨e, he⟩ := ErrorCatalog.entry_of_not_has hhas
      refine ⟨fun ⟨entry, hentry, _⟩ => ?_, fun _ => ⟨_, _, rfl, early_fresh _ _ _⟩⟩
      rw [he] at hentry
      cases hentry

variable (g service x)

/-- **The approach** takes every request along its course. -/
theorem approach_eq : (x.course g service).Approaches g x.script (approach g service x) := by
  rw [approach, Exchange.course]
  by_cases hcontrol : x.path ∈ ["/healthz", "/readyz", "/metrics"]
  · rw [if_pos hcontrol, if_pos hcontrol]
    have hdone : ((handleControl g service x (.arrived x.requestId x.script.room) >>= fun r =>
        pure (.done r.1 r.2)) >>= proceed g x.script) =
          handleControl g service x (.arrived x.requestId x.script.room) := proceed_done _ _
    refine (congrArg (Concludes g True) hdone).mpr ?_
    exact handleControl_eq rfl
  rw [if_neg hcontrol, if_neg hcontrol]
  by_cases hpath : x.path ∉ g.endpoints
  · rw [if_pos hpath, if_pos hpath]
    exact approaches_arrived _ _
  rw [if_neg hpath, if_neg hpath]
  by_cases hmethod : x.method ≠ "POST"
  · rw [if_pos hmethod, if_pos hmethod]
    exact approaches_arrived _ _
  rw [if_neg hmethod, if_neg hmethod]
  by_cases hservice : service ≠ .serving
  · rw [if_pos hservice, if_pos hservice]
    exact approaches_arrived _ _
  rw [if_neg hservice, if_neg hservice]
  have harrived : ({ requestId := x.requestId } : RequestStateMachine).state = .clientScheduled :=
    rfl
  obtain ⟨m, hm, hstate⟩ := fresh_transition harrived
    (show RequestState.connecting ∈ _ by decide) [.gatewayRecv] "connection accepted"
  obtain ⟨m', hm', hstate'⟩ := fresh_transition hstate
    (show RequestState.received ∈ _ by decide) [.gatewayRecv] "body received"
  show Course.Approaches g x.script (Serving.transition (.fresh
    { requestId := x.requestId } [.gatewayRecv] x.script.room) _ _ >>= _) _
  rw [hm]
  show Course.Approaches g x.script (Serving.transition _ _ _ >>= _) _
  rw [hm']
  rcases x.canonical with issue | canonical
  · exact approaches_rejected hstate' (by decide) _ _ _
  · rw [ok_bind]
    show Course.Approaches g x.script (Serving.record _ _ >>= _) _
    show Course.Approaches g x.script (if (deadlineMs g x.deadline).2 ≠ "" then
        turnAway g _ "deadline_infeasible" (deadlineMs g x.deadline).2 0
      else admitRequest g x canonical (deadlineMs g x.deadline).1 _) (if _ then _ else _)
    by_cases hproblem : (deadlineMs g x.deadline).2 ≠ ""
    · rw [if_pos hproblem, if_pos hproblem]
      exact approaches_rejected hstate' (by decide) _ _ _
    · rw [if_neg hproblem, if_neg hproblem]
      exact admitRequest_eq hstate' _

/-- **`handle`** leaves what the course of a request says. -/
theorem handle_eq : (x.course g service).Leaves g x (handle g service x) := by
  have happroach := approach_eq g service x
  rw [handle]
  revert happroach
  rcases x.course g service with - | ⟨state, code⟩ | - | ⟨canonical, deadlineNs⟩ <;>
    intro happroach
  · exact happroach
  · exact happroach
  · obtain ⟨errorType, message, s, heq, hearly⟩ := happroach
    rw [heq]
    exact ⟨errorType, message, s, rfl, hearly⟩
  · obtain ⟨m, selection, hstate, heq⟩ := happroach
    rw [heq]
    exact ⟨m, selection, hstate, rfl⟩

variable {g service x}

theorem Concludes.early {cleaned : Prop} {result : Attempt (Serving × ServingOutcome)}
    (h : Concludes g cleaned result) : Early g result.left := by
  by_cases hcleaned : cleaned
  · obtain ⟨s, o, rfl, -, -, -, hearly⟩ := h.returned hcleaned
    exact hearly
  · obtain ⟨e, s, rfl, hearly⟩ := h.raised hcleaned
    exact hearly

theorem course_served {canonical : CanonicalBackendRequest} {deadlineNs : Int}
    (h : x.course g service = .served canonical deadlineNs) : x.canonical = .ok canonical := by
  rcases hcanonical : x.canonical with issue | canonical'
  · rw [Exchange.course, hcanonical] at h
    split_ifs at h
  · simp only [Exchange.course, hcanonical] at h
    split_ifs at h
    split at h
    · cases h
    · cases h
      rfl

/-! ### A small gateway -/

def smallCatalog : ErrorCatalog where
  entries := [
    ("backend_unavailable", {
      code := "backend_unavailable", httpStatus := 503, stage := "backend"
      category := "unavailable"
      message := "the selected backend is unavailable (circuit open or process gone)" }),
    ("client_cancelled", {
      code := "client_cancelled", httpStatus := 499, stage := "lifecycle", category := "lifecycle"
      message := "the client cancelled the request (no error body is required)" }),
    ("deadline_infeasible", {
      code := "deadline_infeasible", httpStatus := 504, stage := "admission"
      category := "timeout"
      message := "predicted completion exceeds the remaining deadline" }),
    ("protocol_failure", {
      code := "protocol_failure", httpStatus := 502, stage := "stream", category := "correctness"
      message := "SSE framing/sequence/terminal contract violated" })]
  nodup := by decide

def smallGateway (objects : List Json) : ServingGateway where
  endpoints := ["/v1/completions"]
  catalog := smallCatalog
  codec := ⟨Json.dumps, fun s =>
    match objects.find? fun j => j.dumps = s with
    | some j => .ok (some j)
    | none => .error "Expecting value"⟩
  dumpBody := fun j => Utf8.encode j.dumps

/-- A request for `m`, and what its backend does. -/
def smallExchange (stream : Bool) (script : BackendScript) : Exchange where
  requestId := "r"
  path := "/v1/completions"
  canonical := .ok {
    requestId := "r", endpoint := "/v1/completions", modelAlias := "m", modelIdentity := []
    promptTokens := 1, stream, includeUsage := false }
  selection := some { instanceId := "b" }
  script

end Hqsb
