/-
Hqsb/Serving/GatewayCleaned.lean

How `handle` leaves a request: its state machine and its delivery ledger.

The trace of a request is legal by construction (`RequestStateMachine.traced`), so the question is
only whether `handle` returns, and in which state the machine is left.  Every course has its own
condition (`Course.Cleans`), and for a request that reached its backend the condition is about the
way its loop ended (`Ending.Cleans`).

Generated tokens are counted for every chunk, emitted ones for every chunk that goes to the
client, committed ones only if the backend says so.  So the counts fall from stage to stage as
long as every chunk that goes to the client is committed, and the first one that is not makes the
ledger grow downstream; the audit at the end then raises.

Main results: `handle_ends_cleaned_iff`, `handle_ledger_iff`.
-/
import Hqsb.Serving.GatewayCourses

namespace Hqsb

open Lib

/-! ### The audit -/

section Audit

variable {g : ServingGateway} {canonical : CanonicalBackendRequest} {deadlineNs : Int}
  {script : BackendScript} {s s' : Serving}

theorem serve_ok (h : serveCaught g canonical deadlineNs script s = .ok s')
    (haudit : s'.ledger.problems = []) (selection : RouteSelection) :
    serve g canonical deadlineNs script selection s =
      .ok (s', s'.outcome canonical selection) := by
  rw [serve, h, ok_bind, auditLedger, if_pos haudit]
  rfl

theorem serve_audit (h : serveCaught g canonical deadlineNs script s = .ok s')
    (haudit : s'.ledger.problems ≠ []) (selection : RouteSelection) :
    ∃ e, serve g canonical deadlineNs script selection s = .error (.hqsb e, s') := by
  rw [serve, h, ok_bind, auditLedger, if_neg haudit]
  exact ⟨_, rfl⟩

theorem serve_raise {raised : Raised × Serving}
    (h : serveCaught g canonical deadlineNs script s = .error raised)
    (selection : RouteSelection) :
    serve g canonical deadlineNs script selection s = .error raised := by
  rw [serve, h]
  rfl

end Audit

/-! ### Conditions -/

/-- `handle` returns, and the trace it returns leads along the transition table to `cleaned`. -/
def EndsCleaned (result : Attempt (Serving × ServingOutcome)) : Prop :=
  ∃ s, ∃ o : ServingOutcome, result = .ok (s, o) ∧ o.terminalState = .cleaned ∧
    Traced .clientScheduled o.transitions .cleaned

def Ending.Cleans (g : ServingGateway) (canonical : CanonicalBackendRequest)
    (script : BackendScript) (cs : List BackendChunk) : Ending → Prop
  | cancelled => script.cancel = .ok () ∧ g.catalog.Has "client_cancelled"
  | disconnected => g.catalog.Has (script.cancelCode "client_disconnected")
  | expired => g.catalog.Has (script.cancelCode "deadline_exceeded")
  | refused _ => g.catalog.Has "client_disconnected"
  -- some chunk has said why the answer ends
  | ended => lastReason cs ≠ ""
  -- the handler has no edge for an answer that is half built
  | failed e => (cs = [] ∨ canonical.stream) ∧ g.catalog.Has e.code

def Course.Cleans (g : ServingGateway) (script : BackendScript) : Course → Prop
  | control => True
  | rejected state code =>
    -- only an overload can be rejected out of admission
    if state = .admissionPending then
      ∃ e, g.catalog.entry code = .ok e ∧
        (e.category = "overload" ∨ code ∈ ["service_not_serving", "no_feasible_backend"])
    else g.catalog.Has code
  | timeless => False
  | served canonical deadlineNs =>
    let (cs, ending) := script.ending canonical deadlineNs
    cs.length ≤ (ending.received cs).countP (·.committed) ∧ ending.Cleans g canonical script cs

/-! ### Endings -/

section Endings

variable {g : ServingGateway} {canonical : CanonicalBackendRequest} {script : BackendScript}
  {cs : List BackendChunk} {ending : Ending} {s : Serving} {o : ServingOutcome}

/-- What was returned carries the trace of the machine. -/
theorem endsCleaned_ok (hstate : o.terminalState = s.machine.state)
    (htrace : o.transitions = s.machine.records) :
    EndsCleaned (.ok (s, o)) ↔ s.machine.state = .cleaned := by
  constructor
  · rintro ⟨s', o', heq, hcleaned, -⟩
    obtain ⟨rfl, rfl⟩ := Prod.mk.inj (Except.ok.inj heq)
    rw [← hstate, hcleaned]
  · intro hcleaned
    refine ⟨s, o, rfl, hstate.trans hcleaned, ?_⟩
    rw [htrace, ← hcleaned]
    exact s.machine.traced

theorem not_endsCleaned_error (raised : Raised × Serving) : ¬ EndsCleaned (.error raised) := by
  rintro ⟨s, o, heq, -⟩
  cases heq

theorem failedState_delivered :
    failedState (deliveredState canonical cs) = .cleaned ↔ cs = [] ∨ canonical.stream = true := by
  rw [deliveredState]
  by_cases hcs : cs = []
  · rw [if_pos hcs]
    exact ⟨fun _ => .inl hcs, fun _ => rfl⟩
  · rw [if_neg hcs]
    by_cases hstream : canonical.stream = true
    · rw [if_pos hstream]
      exact ⟨fun _ => .inr hstream, fun _ => rfl⟩
    · rw [if_neg hstream]
      refine ⟨fun h => absurd h (by decide), fun h => ?_⟩
      exact absurd h (not_or_intro hcs hstream)

/-- A request that failed is cleaned if its code can be reported and its state can be left. -/
theorem cleans_iff (hcode : ending.code script cs ≠ "") : ending.Cleans g canonical script cs ↔
      ending.state canonical script cs = .cleaned ∧ g.catalog.Has (ending.code script cs) := by
  cases ending with
  | cancelled =>
    rw [Ending.Cleans, Ending.state, Ending.code, BackendScript.cancelRaises,
      BackendScript.cancelCode]
    rcases script.cancel with e | ⟨⟩
    · have hleft : RequestState.cancelRequested ≠ .cleaned := by decide
      exact ⟨fun h => (by cases h.1), fun h => absurd h.1 hleft⟩
    · exact ⟨fun h => ⟨rfl, h.2⟩, fun h => ⟨rfl, h.2⟩⟩
  | disconnected => exact (and_iff_right rfl).symm
  | expired => exact (and_iff_right rfl).symm
  | refused c => exact (and_iff_right rfl).symm
  | ended =>
    have hreason : lastReason cs = "" := by
      by_contra hreason
      exact hcode (if_neg hreason)
    rw [Ending.state, deliveredState]
    refine ⟨fun h => absurd hreason h, fun h => absurd h.1 ?_⟩
    split_ifs <;> decide
  | failed e => exact and_congr_left fun _ => failedState_delivered.symm

/-- **A served request** ends cleaned as its ending says, if its ledger audits clean. -/
theorem serve_cleaned_iff {deadlineNs : Int} {m : RequestStateMachine} (hstate : m.state = .routed)
    (hending : script.ending canonical deadlineNs = (cs, ending)) (selection : RouteSelection) :
    EndsCleaned (serve g canonical deadlineNs script selection (.routed m script.room)) ↔
      cs.length ≤ (ending.received cs).countP (·.committed) ∧
        ending.Cleans g canonical script cs := by
  obtain ⟨hanswered, hfails⟩ := serveCaught_eq g canonical deadlineNs script hstate hending
  by_cases hcode : ending.code script cs = ""
  · obtain ⟨s, hs, ha⟩ := hanswered hcode
    obtain ⟨rfl, hreason⟩ := Ending.of_code script cs hcode
    have haudit := ha.problems_eq_nil_iff
    by_cases hproblems : s.ledger.problems = []
    · rw [serve_ok hs hproblems, endsCleaned_ok rfl rfl]
      exact ⟨fun _ => ⟨haudit.mp hproblems, hreason⟩, fun _ => ha.state⟩
    · obtain ⟨e, he⟩ := serve_audit hs hproblems selection
      rw [he]
      exact ⟨fun h => absurd h (not_endsCleaned_error _),
        fun h => absurd (haudit.mpr h.1) hproblems⟩
  · rw [cleans_iff hcode]
    by_cases hhas : g.catalog.Has (ending.code script cs)
    · obtain ⟨s, hs, hf⟩ := (hfails hcode).reported hhas
      have haudit := hf.problems_eq_nil_iff
      by_cases hproblems : s.ledger.problems = []
      · rw [serve_ok hs hproblems, endsCleaned_ok rfl rfl, hf.state]
        exact ⟨fun h => ⟨haudit.mp hproblems, h, hhas⟩, fun h => h.2.1⟩
      · obtain ⟨e, he⟩ := serve_audit hs hproblems selection
        rw [he]
        exact ⟨fun h => absurd h (not_endsCleaned_error _),
          fun h => absurd (haudit.mpr h.1) hproblems⟩
    · obtain ⟨e, s, hs, -⟩ := (hfails hcode).unknown hhas
      rw [serve_raise hs]
      exact ⟨fun h => absurd h (not_endsCleaned_error _), fun h => absurd h.2.2 hhas⟩

end Endings

/-! ### Courses -/

section Courses

variable {g : ServingGateway} {service : ServiceState} {x : Exchange}

theorem endsCleaned_concludes {cleaned : Prop} {result : Attempt (Serving × ServingOutcome)}
    (h : Concludes g cleaned result) : EndsCleaned result ↔ cleaned := by
  by_cases hcleaned : cleaned
  · obtain ⟨s, o, rfl, hstate, hterminal, htrace, -⟩ := h.returned hcleaned
    rw [endsCleaned_ok hterminal htrace]
    exact ⟨fun _ => hcleaned, fun _ => hstate⟩
  · obtain ⟨e, s, rfl, -⟩ := h.raised hcleaned
    exact ⟨fun hends => absurd hends (not_endsCleaned_error _), fun h => absurd h hcleaned⟩

/-- Where a rejection may be recorded. -/
theorem rejectTarget_legal {state : RequestState} {e : ErrorEntry} {code : String}
    (hstate : state ∈ [RequestState.clientScheduled, .received, .admissionPending]) :
    rejectTarget e code ∈ allowedRequestTransitions (arrivalState state) ↔
      (state = .admissionPending →
        e.category = "overload" ∨ code ∈ ["service_not_serving", "no_feasible_backend"]) := by
  have hedges : ∀ state ∈ [RequestState.clientScheduled, .received, .admissionPending],
      (RequestState.rejectedOverload ∈ allowedRequestTransitions (arrivalState state)) ∧
      (RequestState.rejectedInvalid ∈ allowedRequestTransitions (arrivalState state) ↔
        state ≠ .admissionPending) := by decide
  rw [rejectTarget]
  by_cases hoverload : e.category = "overload" ∨
      code ∈ ["service_not_serving", "no_feasible_backend"]
  · rw [if_pos hoverload]
    exact ⟨fun _ _ => hoverload, fun _ => (hedges state hstate).1⟩
  · rw [if_neg hoverload, (hedges state hstate).2]
    exact ⟨fun h hpending => absurd hpending h, fun h hpending => hoverload (h hpending)⟩

theorem course_rejected {state : RequestState} {code : String}
    (h : x.course g service = .rejected state code) :
    state ∈ [RequestState.clientScheduled, .received, .admissionPending] ∨
      state = .queued ∧ code = "no_feasible_backend" := by
  rw [Exchange.course] at h
  split at h
  · cases h
  iterate 6
    split at h
    · cases h
      exact .inl (by decide)
  split at h
  · cases h
    exact .inr ⟨rfl, rfl⟩
  split at h
  · cases h
  · cases h

end Courses

/-- **Which requests end cleaned.**  `handle` returns an outcome whose trace follows the transition
table and ends in `cleaned` exactly if the course of the request says so. -/
theorem handle_ends_cleaned_iff (g : ServingGateway) (service : ServiceState) (x : Exchange) :
    EndsCleaned (handle g service x) ↔ (x.course g service).Cleans g x.script := by
  have hleaves := handle_eq g service x
  rcases hcourse : x.course g service with - | ⟨state, code⟩ | - | ⟨canonical, deadlineNs⟩
  · rw [hcourse] at hleaves
    exact endsCleaned_concludes hleaves
  · rw [hcourse] at hleaves
    rw [endsCleaned_concludes hleaves, Course.Cleans]
    rcases course_rejected hcourse with hstate | ⟨rfl, rfl⟩
    · simp only [rejectTarget_legal hstate]
      by_cases hpending : state = .admissionPending
      · rw [if_pos hpending]
        simp only [hpending, true_implies]
      · rw [if_neg hpending]
        refine ⟨fun ⟨e, he, _⟩ => ErrorCatalog.has_of_entry he, fun hhas => ?_⟩
        obtain ⟨e, he⟩ := ErrorCatalog.entry_of_has hhas
        exact ⟨e, he, fun h => absurd h hpending⟩
    · rw [if_neg (by decide)]
      refine ⟨fun ⟨e, he, _⟩ => ErrorCatalog.has_of_entry he, fun hhas => ?_⟩
      obtain ⟨e, he⟩ := ErrorCatalog.entry_of_has hhas
      refine ⟨e, he, ?_⟩
      rw [rejectTarget, if_pos (.inr (by decide))]
      decide
  · rw [hcourse] at hleaves
    obtain ⟨errorType, message, s, heq, -⟩ := hleaves
    rw [heq]
    exact ⟨fun h => absurd h (not_endsCleaned_error _), fun h => h.elim⟩
  · rw [hcourse] at hleaves
    obtain ⟨m, selection, hstate, heq⟩ := hleaves
    rw [heq, serve_cleaned_iff hstate (Prod.mk.eta).symm selection]
    rfl

def Attempt.terminal : Attempt (Serving × ServingOutcome) → Option RequestState
  | .ok (_, o) => some o.terminalState
  | .error _ => none

theorem not_endsCleaned_of_terminal {result : Attempt (Serving × ServingOutcome)}
    (h : result.terminal ≠ some .cleaned) : ¬ EndsCleaned result := by
  rintro ⟨s, o, rfl, hstate, -⟩
  exact h (congrArg some hstate)

/-- Three requests that do not end cleaned: a backend that gives no finish reason, a chunk that
was not committed, and an admission that rejects with a code of the catalog. -/
theorem handle_not_cleaned :
    let g := smallGateway []
    let unfinished : BackendScript := { turns := [{ chunk := { tokenId := 7, text := "a" } }] }
    let uncommitted : BackendScript := { turns := [{ chunk := {
      tokenId := 7, text := "a", committed := false, finishReason := "stop" } }] }
    let infeasible : Exchange := { smallExchange true {} with
      decision := { admitted := false, code := "deadline_infeasible" } }
    ¬ EndsCleaned (handle g .serving (smallExchange true unfinished)) ∧
      ¬ EndsCleaned (handle g .serving (smallExchange true uncommitted)) ∧
      ¬ EndsCleaned (handle g .serving infeasible) := by
  refine ⟨?_, ?_, ?_⟩
  · exact not_endsCleaned_of_terminal (by decide +kernel)
  · exact not_endsCleaned_of_terminal (by decide +kernel)
  · exact not_endsCleaned_of_terminal (by decide)

/-- The counts fall from stage to stage: at every moment, at the end, and for the audit. -/
structure LedgerKept (s : Serving) : Prop where
  during : ∀ l ∈ s.history, l.Ordered
  after : s.ledger.Ordered
  audited : s.ledger.problems = []

/-- Every chunk that goes to the client is committed. -/
def Course.Commits (script : BackendScript) : Course → Prop
  | served canonical deadlineNs => ∀ c ∈ (script.ending canonical deadlineNs).1, c.committed
  | _ => True

section

variable {g : ServingGateway} {canonical : CanonicalBackendRequest} {script : BackendScript}
  {cs : List BackendChunk} {ending : Ending} {s : Serving}

/-- `_serve` leaves what its loop has counted, however it ends. -/
theorem serve_left_counted {deadlineNs : Int} {m : RequestStateMachine} (hstate : m.state = .routed)
    (hending : script.ending canonical deadlineNs = (cs, ending)) (selection : RouteSelection) :
    Counted canonical cs (ending.received cs)
      (serve g canonical deadlineNs script selection (.routed m script.room)).left := by
  obtain ⟨hanswered, hfails⟩ := serveCaught_eq g canonical deadlineNs script hstate hending
  have hleft : ∀ s, serveCaught g canonical deadlineNs script (.routed m script.room) = .ok s →
      Counted canonical cs (ending.received cs) s →
      Counted canonical cs (ending.received cs)
        (serve g canonical deadlineNs script selection (.routed m script.room)).left := by
    intro s hs hcounted
    by_cases hproblems : s.ledger.problems = []
    · rw [serve_ok hs hproblems]
      exact hcounted
    · obtain ⟨e, he⟩ := serve_audit hs hproblems selection
      rw [he]
      exact hcounted
  by_cases hcode : ending.code script cs = ""
  · obtain ⟨s, hs, ha⟩ := hanswered hcode
    obtain ⟨rfl, -⟩ := Ending.of_code script cs hcode
    exact hleft s hs ha.toCounted
  · by_cases hhas : g.catalog.Has (ending.code script cs)
    · obtain ⟨s, hs, hf⟩ := (hfails hcode).reported hhas
      exact hleft s hs hf.toCounted
    · obtain ⟨e, s, hs, hcounted⟩ := (hfails hcode).unknown hhas
      rw [serve_raise hs]
      exact hcounted

variable (ending) in
theorem le_received (hcommitted : ∀ c ∈ cs, c.committed = true) :
    cs.length ≤ (ending.received cs).countP (·.committed) := by
  have hle := length_le_countP_iff.mpr hcommitted
  cases ending with
  | refused c =>
    rw [Ending.received, List.countP_append]
    exact hle.trans (Nat.le_add_right _ _)
  | _ => exact hle

theorem Counted.ledgerKept_iff (h : Counted canonical cs (ending.received cs) s) :
    LedgerKept s ↔ ∀ c ∈ cs, c.committed = true := by
  constructor
  · exact fun hkept => h.history.mp hkept.during
  · intro hcommitted
    have hle := le_received ending hcommitted
    refine ⟨h.history.mpr hcommitted, ?_, h.problems_eq_nil_iff.mpr hle⟩
    rw [DeliveryLedger.ordered_congr h.counts]
    exact ordered_deliveredLedger.mpr hle

theorem Early.ledgerKept (h : Early g s) : LedgerKept s where
  during := by
    rw [h.history]
    exact fun l hl => (nomatch hl)
  after := by
    rw [h.ledger]
    decide
  audited := by
    rw [h.ledger]
    decide

end

/-- **When the ledger is in order.**  During and after `handle`, returned or raised, the counts of
the ledger fall from stage to stage, and its audit is clean, exactly if every chunk that goes to
the client is committed. -/
theorem handle_ledger_iff (g : ServingGateway) (service : ServiceState) (x : Exchange) :
    LedgerKept (handle g service x).left ↔ (x.course g service).Commits x.script := by
  have hleaves := handle_eq g service x
  rcases hcourse : x.course g service with - | ⟨state, code⟩ | - | ⟨canonical, deadlineNs⟩
  · rw [hcourse] at hleaves
    exact iff_of_true hleaves.early.ledgerKept trivial
  · rw [hcourse] at hleaves
    exact iff_of_true hleaves.early.ledgerKept trivial
  · rw [hcourse] at hleaves
    obtain ⟨errorType, message, s, heq, hearly⟩ := hleaves
    rw [heq]
    exact iff_of_true hearly.ledgerKept trivial
  · rw [hcourse] at hleaves
    obtain ⟨m, selection, hstate, heq⟩ := hleaves
    rw [heq]
    exact (serve_left_counted hstate (Prod.mk.eta).symm selection).ledgerKept_iff

/-- One chunk that was generated, emitted and flushed, and never committed. -/
theorem handle_ledger_grows :
    let g := smallGateway []
    let uncommitted : BackendScript := { turns := [{ chunk := {
      tokenId := 7, text := "a", committed := false, finishReason := "stop" } }] }
    ¬ LedgerKept (handle g .serving (smallExchange true uncommitted)).left := by
  refine fun hkept => absurd hkept.after ?_
  decide +kernel

end Hqsb
