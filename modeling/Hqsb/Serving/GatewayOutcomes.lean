/-
Hqsb/Serving/GatewayOutcomes.lean

What `_serve` leaves of a request.

Whatever happens to a request, `Standing` says where it stands when its loop is over, and from
there two roads lead on: the end of the `try` body (`wrapUp`) and the handler (`onError`).
`serveCaught_eq` follows both for every ending of the loop and computes the code, the state of
the machine, the counts and the writes that are left.
-/
import Hqsb.Serving.GatewayEndings

namespace Hqsb

open Lib List

/-! ### Endings

What becomes of a request, read off its script.
-/

def failedState (state : RequestState) : RequestState :=
  if state ∈ [.backendSubmitted, .firstTokenReady, .streaming] ∨
      state ∈ [.routed, .queued, .admissionPending] then
    if .backendFailed ∈ allowedRequestTransitions state then .cleaned else state
  else if .cleaned ∈ allowedRequestTransitions state then .cleaned else state

theorem code_ne_empty (e : HqsbError) : e.code ≠ "" := by
  rw [HqsbError.code]
  split_ifs <;> decide

/-- Does `session.cancel` raise? -/
def BackendScript.cancelRaises (script : BackendScript) : Bool :=
  match script.cancel with
  | .ok () => false
  | .error _ => true

def BackendScript.cancelCode (script : BackendScript) (code : String) : String :=
  match script.cancel with
  | .ok () => code
  | .error e => e.code

/-- What the backend answers to `open`, and whether it serves the model that was routed. -/
def BackendScript.submitted (script : BackendScript) (canonical : CanonicalBackendRequest) :
    Except HqsbError Unit := do
  script.opened
  let verify ← script.identity
  if verify ≠ [] ∧ canonical.modelIdentity ≠ [] ∧ ¬ sameDict verify canonical.modelIdentity then
    .error (.schema ("backend answered with a different model identity than the routed " ++
      "one; returning this response would be an identity failure"))
  else .ok ()

/-- The chunks that a script delivers, and how it ends.  A backend that does not accept the
request fails before its first chunk. -/
def BackendScript.ending (script : BackendScript) (canonical : CanonicalBackendRequest)
    (deadlineNs : Int) : List BackendChunk × Ending :=
  match script.submitted canonical with
  | .error e => ([], .failed e)
  | .ok () => loopEnding canonical.stream deadlineNs script.last script.turns

section Ending

variable (canonical : CanonicalBackendRequest) (script : BackendScript) (cs : List BackendChunk)

def Ending.received : Ending → List BackendChunk
  | refused chunk => cs ++ [chunk]
  | _ => cs

/-- The code a request ends with; it is empty for one that is answered. -/
def Ending.code : Ending → String
  | cancelled => script.cancelCode "client_cancelled"
  | disconnected => script.cancelCode "client_disconnected"
  | expired => script.cancelCode "deadline_exceeded"
  | refused _ => "client_disconnected"
  | ended => if lastReason cs = "" then "protocol_failure" else ""
  | failed e => e.code

/-- How much the client takes of what is written behind the chunks. -/
def Ending.room (room : Option Nat) : Ending → Option Nat
  | disconnected => some 0
  | refused _ => some 0
  | _ => room

/-- Does an `HqsbError` of the backend reach the handler? -/
def Ending.caught : Ending → Bool
  | ended => false
  | failed _ => true
  | _ => script.cancelRaises

def Ending.state : Ending → RequestState
  | cancelled => if script.cancelRaises then .cancelRequested else .cleaned
  | ended => if lastReason cs = "" then deliveredState canonical cs else .cleaned
  | failed _ => failedState (deliveredState canonical cs)
  | _ => .cleaned

/-- Only an answered request has no code. -/
theorem Ending.of_code {ending : Ending} (h : ending.code script cs = "") :
    ending = .ended ∧ lastReason cs ≠ "" := by
  have hcancel : ∀ code ≠ "", script.cancelCode code ≠ "" := by
    intro code hcode
    rw [BackendScript.cancelCode]
    rcases script.cancel with e | ⟨⟩
    · exact code_ne_empty e
    · exact hcode
  cases ending with
  | cancelled => exact absurd h (hcancel _ (by decide))
  | disconnected => exact absurd h (hcancel _ (by decide))
  | expired => exact absurd h (hcancel _ (by decide))
  | refused c => exact absurd h (show ("client_disconnected" : String) ≠ "" by decide)
  | ended =>
    refine ⟨rfl, fun hreason => ?_⟩
    rw [Ending.code, if_pos hreason] at h
    exact absurd h (by decide)
  | failed e => exact absurd h (code_ne_empty e)

end Ending

variable {c : BackendChunk} {m : RequestStateMachine}

theorem loopEnding_refused {stream : Bool} {deadlineNs : Int}
    {last : Signals × Except HqsbError Unit} {turns : List Turn}
    (h : (loopEnding stream deadlineNs last turns).2 = .refused c) : stream = true := by
  have hsignals : ∀ signals : Signals, signals.ending deadlineNs ≠ some (.refused c) := by
    intro signals
    rw [Signals.ending]
    split_ifs <;> simp
  induction turns with
  | nil =>
    rw [loopEnding, lastEnding] at h
    split at h
    · next ending hsome =>
      obtain rfl : ending = .refused c := h
      exact absurd hsome (hsignals _)
    · cases h
    · cases h
  | cons t turns ih =>
    rw [loopEnding] at h
    split at h
    · next ending hsome =>
      obtain rfl : ending = .refused c := h
      exact absurd hsome (hsignals _)
    · split_ifs at h with hrefused
      · exact (Bool.and_eq_true_iff.mp hrefused).1
      · exact ih h

variable {g : ServingGateway} {canonical : CanonicalBackendRequest} {script : BackendScript}
  {room : Option Nat} {cs received : List BackendChunk} {s s' : Serving} {state : RequestState}
  {code : String}

/-! ### Standing -/

/-- What the client was sent when the chunks `received` have come, and it took the frames of
`cs`. -/
def openedWrites (g : ServingGateway) (canonical : CanonicalBackendRequest)
    (cs received : List BackendChunk) : List Write :=
  if canonical.stream = true ∧ received ≠ [] then
    .head 200 (streamHeaders g) :: cs.map fun c => .body (deltaFrame g canonical c)
  else []

def headWritten (canonical : CanonicalBackendRequest) (received : List BackendChunk) : Bool :=
  canonical.stream && !received.isEmpty

/-- The ledger of a request that has received `received` and delivered `cs`, and every value its
counts took on the way. -/
structure Counted (canonical : CanonicalBackendRequest) (cs received : List BackendChunk)
    (s : Serving) : Prop where
  counts : s.ledger.counts = (deliveredLedger canonical received cs.length).counts
  observed : s.ledger.clientReceivedObserved = false
  history : (∀ l ∈ s.history, l.Ordered) ↔ ∀ c ∈ cs, c.committed

/-- The loop is over. -/
structure Standing (g : ServingGateway) (canonical : CanonicalBackendRequest)
    (room : Option Nat) (cs received : List BackendChunk) (state : RequestState) (code : String)
    (s : Serving) : Prop
    extends Counted canonical cs received s where
  state : s.machine.state = state
  code : s.code = code
  stamps : ∀ t ∈ [Timestamp.runtimeLast, .terminalWrite, .clientDone, .cleanupDone], t ∉ s.stamps
  writer : s.writer = ⟨openedWrites g canonical cs received, room⟩
  wroteHead : s.wroteHead = headWritten canonical received
  finishReason : s.finishReason = lastReason cs

theorem DeliveryLedger.ordered_congr {l l' : DeliveryLedger} (h : l.counts = l'.counts) :
    l.Ordered ↔ l'.Ordered := by
  rw [← growth_eq_nil_iff, h, growth_eq_nil_iff]

/-- **The audit at the end**: enough of what was received is committed. -/
theorem Counted.problems_eq_nil_iff (h : Counted canonical cs received s) :
    s.ledger.problems = [] ↔ cs.length ≤ received.countP (·.committed) := by
  rw [DeliveryLedger.problems_eq_nil_iff h.observed, DeliveryLedger.ordered_congr h.counts,
    ordered_deliveredLedger]

/-- Whoever changes neither the counts nor the history keeps what was counted. -/
theorem Counted.congr (h : Counted canonical cs received s)
    (hcounts : s'.ledger.counts = s.ledger.counts)
    (hobserved : s'.ledger.clientReceivedObserved = s.ledger.clientReceivedObserved)
    (hhistory : s'.history = s.history) : Counted canonical cs received s' :=
  ⟨hcounts.trans h.counts, hobserved.trans h.observed, by rw [hhistory]; exact h.history⟩

theorem openedWrites_delivered (g : ServingGateway) (canonical : CanonicalBackendRequest)
    (cs : List BackendChunk) : openedWrites g canonical cs cs =
      if canonical.stream then streamWrites g canonical cs else [] := by
  rw [openedWrites, streamWrites]
  by_cases hcs : cs = []
  · simp [hcs]
  · simp [hcs]

theorem Delivered.standing (h : Delivered g canonical room cs s) :
    Standing g canonical room cs cs (deliveredState canonical cs) "" s :=
  { h with
    counts := by rw [h.ledger]; rfl
    observed := by rw [h.ledger]
    stamps := by
      rw [h.stamps, deliveredStamps]
      split_ifs <;> decide
    writer := by rw [h.writer, openedWrites_delivered] }

theorem RefusedFrame.standing (h : RefusedFrame g canonical cs c s) :
    Standing g canonical (some 0) cs (cs ++ [c]) .streaming "" s :=
  { h with
    counts := by
      rw [h.ledger]
      simp [deliveredLedger, DeliveryLedger.counts, h.stream]
    observed := by rw [h.ledger]
    stamps := by
      rw [h.stamps, deliveredStamps]
      split_ifs <;> decide
    writer := by rw [h.writer, openedWrites, if_pos ⟨h.stream, concat_ne_nil c cs⟩]
    wroteHead := by rw [h.wroteHead, headWritten, h.stream]; simp }

theorem Standing.interrupted {state' : RequestState} {code' : String}
    (h : Standing g canonical room cs received state code s) (hi : Interrupted s state' code' s') :
    Standing g canonical room cs received state' code' s' where
  toCounted := h.toCounted.congr hi.counts hi.observed hi.history
  state := hi.state
  code := hi.code
  stamps := by rw [hi.stamps]; exact h.stamps
  writer := hi.writer.trans h.writer
  wroteHead := hi.wroteHead.trans h.wroteHead
  finishReason := hi.finishReason.trans h.finishReason

theorem Standing.stream_of_head (h : Standing g canonical room cs received state code s)
    (hhead : s.wroteHead = true) : canonical.stream = true := by
  rw [h.wroteHead] at hhead
  exact (Bool.and_eq_true_iff.mp hhead).1

theorem Standing.writer_nil (h : Standing g canonical room cs received state code s)
    (hhead : s.wroteHead = false) : s.writer.sent = [] := by
  rw [h.writer]
  refine if_neg fun hopen => ?_
  rw [h.wroteHead, headWritten, hopen.1, Bool.true_and, Bool.not_eq_false', List.isEmpty_iff] at hhead
  exact hopen.2 hhead

/-! ### Results -/

variable (g canonical)

/-- The writes of a request that ended with a code.  The handler leaves an open stream as it is,
and nobody closes the writer then. -/
def Reported (room : Option Nat) (cs received : List BackendChunk) (caught : Bool)
    (code : String) (writer : ResponseWriter) : Prop :=
  ∃ e, g.catalog.entry code = .ok e ∧
    writer = ResponseWriter.calls ⟨openedWrites g canonical cs received, room⟩
      (if caught then
        (if headWritten canonical received then [] else failureWrites g canonical e false)
      else failureWrites g canonical e (headWritten canonical received) ++ [Write.close])

/-- A request that ended with a code. -/
structure FailedWith (room : Option Nat)
    (cs received : List BackendChunk) (caught : Bool) (state : RequestState) (code : String)
    (s : Serving) : Prop extends Counted canonical cs received s where
  writes : Reported g canonical room cs received caught code s.writer
  state : s.machine.state = state
  code : s.code = code

/-- The request ended with a code, or, where the code has no entry, with an exception. -/
structure Fails (room : Option Nat)
    (cs received : List BackendChunk) (caught : Bool) (state : RequestState) (code : String)
    (result : Attempt Serving) : Prop where
  reported : g.catalog.Has code →
    ∃ s, result = .ok s ∧ FailedWith g canonical room cs received caught state code s
  unknown : ¬ g.catalog.Has code →
    ∃ e s, result = .error (.hqsb e, s) ∧ Counted canonical cs received s

variable {g canonical}

/-! ### The handler -/

/-- The transitions of the handler change the machine, and nothing else. -/
theorem failed_eq (s : Serving) (e : HqsbError) :
    ∃ m, s.failed e = { s with machine := m } ∧ m.state = failedState s.machine.state := by
  rw [Serving.failed, failedState]
  by_cases hbackend : s.machine.state ∈
      [RequestState.backendSubmitted, .firstTokenReady, .streaming] ∨
      s.machine.state ∈ [RequestState.routed, .queued, .admissionPending]
  · simp only [if_pos hbackend]
    by_cases hlegal : RequestState.backendFailed ∈ allowedRequestTransitions s.machine.state
    · obtain ⟨m, hstate, hm⟩ := transition_from _ e.message rfl hlegal
      obtain ⟨m', hstate', hm'⟩ := transition_from .cleaned "backend failure" hstate (by decide)
      refine ⟨m', ?_, by rw [hstate', if_pos hlegal]⟩
      rw [hm s rfl]
      rw [bind_of_ok rfl, hm' { s with machine := m } rfl]
    · obtain ⟨e', he'⟩ := transition_raise hlegal e.message
      refine ⟨s.machine, ?_, by rw [if_neg hlegal]⟩
      rw [he']
      rfl
  · simp only [if_neg hbackend]
    by_cases hlegal : RequestState.cleaned ∈ allowedRequestTransitions s.machine.state
    · obtain ⟨m, hm, hstate⟩ := transition_eq hlegal e.message
      exact ⟨m, by rw [hm], by rw [hstate, if_pos hlegal]⟩
    · obtain ⟨e', he'⟩ := transition_raise hlegal e.message
      exact ⟨s.machine, by rw [he'], by rw [if_neg hlegal]⟩

/-- **The handler** reports the code that is set, or the one the error stands for. -/
theorem onError_eq (h : Standing g canonical room cs received state code s) (e : HqsbError) :
    Fails g canonical room cs received true (failedState state) (if code = "" then e.code else code)
      (onError g e s) := by
  have hcode : (if s.code = "" then { s with code := e.code } else s) =
      { s with code := if code = "" then e.code else code } := by
    rw [← h.code]
    split_ifs <;> rfl
  generalize (if code = "" then e.code else code) = code' at *
  constructor
  · intro hhas
    obtain ⟨entry, hentry⟩ := ErrorCatalog.entry_of_has hhas
    let s₁ : Serving := { s with
      code := code', status := entry.httpStatus
      detachedReason := e.errorType ++ ": " ++ e.message }
    obtain ⟨m, hm, hstate⟩ := failed_eq s₁ e
    have hstart : onError g e s = if s.wroteHead then pure { s₁ with machine := m }
        else writeFailure g { s₁ with machine := m } := by
      rw [onError, hcode, Serving.lookupStatus, hentry]
      show (if (s₁.failed e).wroteHead then pure (s₁.failed e) else writeFailure g (s₁.failed e)) = _
      rw [hm]
    rw [h.state] at hstate
    rcases hhead : s.wroteHead with - | -
    · obtain ⟨body, hbody⟩ := writeFailure_eq canonical (s := { s₁ with machine := m }) hentry
        (h.writer_nil hhead)
      refine ⟨_, hstart.trans ((if_neg (by rw [hhead]; decide)).trans hbody), ?_⟩
      refine ⟨{ h with }, ⟨entry, hentry, ?_⟩, hstate, rfl⟩
      rw [← h.writer, ← h.wroteHead, hhead]
      rfl
    · refine ⟨_, hstart.trans (if_pos hhead), ?_⟩
      refine ⟨{ h with }, ⟨entry, hentry, ?_⟩, hstate, rfl⟩
      rw [if_pos rfl, ← h.wroteHead, hhead, if_pos rfl]
      exact h.writer
  · intro hhas
    obtain ⟨e', he'⟩ := lookupStatus_raise (g := g) (s := { s with code := code' }) hhas
    refine ⟨e', { s with code := code' }, ?_, { h with }⟩
    rw [onError, hcode]
    show (Serving.lookupStatus _ _ >>= _) = _
    rw [he']
    rfl

/-! ### The two roads -/

/-- What `except HqsbError` makes of a result. -/
def catchError (g : ServingGateway) : Attempt Serving → Attempt Serving
  | .ok s => .ok s
  | .error (.hqsb e, s) => onError g e s
  | .error raised => .error raised

/-- Where a code has no entry, it does not matter which way it was found out. -/
theorem Fails.of_unknown {caught caught' : Bool} {state' : RequestState} {result : Attempt Serving}
    (h : Fails g canonical room cs received caught state code result) (hhas : ¬ g.catalog.Has code) :
    Fails g canonical room cs received caught' state' code result :=
  ⟨fun hhas' => absurd hhas' hhas, h.unknown⟩

/-- **The end of the `try` body** for an answer that failed, or that has no finish reason. -/
theorem wrapUp_fails (h : Standing g canonical room cs received state code s)
    (hfail : code = "" → lastReason cs = "") :
    Fails g canonical room cs received false (finishedState state)
      (if code = "" then "protocol_failure" else code) (catchError g (wrapUp g canonical s)) := by
  have hcode : (requireFinish s).code = if code = "" then "protocol_failure" else code := by
    rw [requireFinish, h.code, h.finishReason]
    by_cases hempty : code = ""
    · rw [if_pos ⟨hempty, hfail hempty⟩, if_pos hempty]
    · rw [if_neg fun hboth => hempty hboth.1, if_neg hempty, h.code]
  have hne : (requireFinish s).code ≠ "" := by
    rw [hcode]
    split_ifs with hempty
    · decide
    · exact hempty
  have hafter : Standing g canonical room cs received state (requireFinish s).code
      { s with code := (requireFinish s).code } := { h with code := rfl }
  rw [← hcode]
  constructor
  · intro hhas
    obtain ⟨entry, hentry⟩ := ErrorCatalog.entry_of_has hhas
    obtain ⟨m, stamps, frames, rawSse, responseBody, hwrap, hstate⟩ :=
      wrapUp_failure canonical hne hentry h.stream_of_head h.writer_nil
        fun t ht => h.stamps t (.tail _ (.tail _ ht))
    refine ⟨_, congrArg (catchError g) hwrap, { h with },
      ⟨entry, hentry, ?_⟩, ?_, rfl⟩
    · rw [h.writer, h.wroteHead, if_neg (by decide), calls_concat]
    · rw [hstate, h.state]
  · intro hhas
    obtain ⟨e, he⟩ := wrapUp_unknown canonical hne hhas h.stream_of_head
    have hcaught := onError_eq hafter e
    rw [if_neg hne] at hcaught
    rw [he]
    exact hcaught.unknown hhas

def afterLoop (g : ServingGateway) (canonical : CanonicalBackendRequest) (script : BackendScript)
    (s : Serving) : Attempt Serving := do
  let s ← afterRefusal g script s
  wrapUp g canonical s

theorem afterLoop_of_code (h : s.code ≠ "") :
    afterLoop g canonical script s = wrapUp g canonical s := by
  rw [afterLoop, afterRefusal, if_neg fun hboth => h hboth.2]
  rfl

variable (script) in
theorem afterLoop_of_refused (h : s.writeRefused = false) :
    afterLoop g canonical script s = wrapUp g canonical s := by
  rw [afterLoop, afterRefusal, if_neg fun hboth => by simp [h] at hboth]
  rfl

/-- **An interruption** ends with its own code, or with the error of the backend that was told. -/
theorem interruption_fails {entered left : RequestState} {result : Attempt Serving}
    (h : Standing g canonical room cs received state "" s)
    (hi : Interruption g script s entered left code result) (hcode : code ≠ "") :
    Fails g canonical room cs received script.cancelRaises
      (if script.cancelRaises then failedState entered else finishedState left)
      (script.cancelCode code) (catchError g (result >>= afterLoop g canonical script)) := by
  rw [BackendScript.cancelRaises, BackendScript.cancelCode]
  rcases hcancel : script.cancel with e | ⟨⟩
  · obtain ⟨s', hraised, hinterrupted⟩ := hi.raised e hcancel
    rw [hraised]
    exact onError_eq (by simpa only [h.code] using h.interrupted hinterrupted) e
  · show Fails g canonical room cs received false (finishedState left) code _
    by_cases hhas : g.catalog.Has code
    · obtain ⟨s', hreported, hinterrupted⟩ := hi.reported hcancel hhas
      have hwrap := wrapUp_fails (h.interrupted hinterrupted) fun hempty => absurd hempty hcode
      rw [if_neg hcode] at hwrap
      rw [hreported]
      show Fails _ _ _ _ _ _ _ _ (catchError g (afterLoop g canonical script s'))
      rw [afterLoop_of_code (by rw [hinterrupted.code]; exact hcode)]
      exact hwrap
    · obtain ⟨e, s', hunknown, hinterrupted⟩ := hi.unknown hcancel hhas
      have hcaught := onError_eq (h.interrupted hinterrupted) e
      rw [if_neg hcode] at hcaught
      rw [hunknown]
      exact hcaught.of_unknown hhas

/-- **A refused write** ends with a disconnect. -/
theorem refused_fails (h : RefusedFrame g canonical cs c s) :
    Fails g canonical (some 0) cs (cs ++ [c]) script.cancelRaises .cleaned "client_disconnected"
      (catchError g (afterLoop g canonical script s)) := by
  have hne : ("client_disconnected" : String) ≠ "" := by decide
  by_cases hok : g.catalog.Has "client_disconnected" ∧ script.cancel = .ok ()
  · obtain ⟨s', hafter, hinterrupted⟩ := afterRefusal_eq h.writeRefused h.code
      (by rw [h.state]; decide) hok.1 hok.2
    have hwrap := wrapUp_fails (h.standing.interrupted hinterrupted) fun hempty => absurd hempty hne
    rw [BackendScript.cancelRaises, hok.2, afterLoop, hafter]
    exact hwrap
  · obtain ⟨e, s', hafter, hinterrupted, hcancel⟩ := afterRefusal_raise script
      h.writeRefused h.code fun hhas => by
        rcases hcancel : script.cancel with e | ⟨⟩
        · exact ⟨e, rfl⟩
        · exact absurd ⟨hhas, hcancel⟩ hok
    have hcaught := onError_eq (h.standing.interrupted hinterrupted) e
    rw [h.state] at hcaught
    rw [afterLoop, hafter]
    by_cases hhas : g.catalog.Has "client_disconnected"
    · rw [BackendScript.cancelRaises, hcancel hhas]
      exact hcaught
    · exact hcaught.of_unknown hhas

/-! ### Success -/

structure Answered (g : ServingGateway) (canonical : CanonicalBackendRequest)
    (room : Option Nat) (cs : List BackendChunk) (s : Serving) : Prop
    extends Counted canonical cs cs s where
  state : s.machine.state = .cleaned
  code : s.code = ""
  stream : canonical.stream = true → s.writer =
    ResponseWriter.calls ⟨streamWrites g canonical cs, room⟩
      ((endItems g canonical (lastReason cs) (lastUsage cs)).map (itemWrite g) ++ [Write.close])
  body : canonical.stream = false → s.writer = ResponseWriter.calls ⟨[], room⟩
    [.head 200 (jsonHeaders s.responseBody), .body s.responseBody, .close]

theorem lastReason_nil : lastReason [] = "" := rfl

/-- **A complete answer** leaves the request cleaned. -/
theorem wrapUp_answered (h : Delivered g canonical room cs s) (hreason : lastReason cs ≠ "") :
    ∃ s', wrapUp g canonical s = .ok s' ∧ Answered g canonical room cs s' ∧
      (canonical.stream = true → s'.rawSse =
        s.rawSse ++ (endItems g canonical (lastReason cs) (lastUsage cs)).flatMap
          (SseItem.encode g.codec g.dataPrefix)) ∧
      (canonical.stream = false →
        s'.responseBody = g.dumpBody (normalizeResponse canonical (responsePayload canonical s))) := by
  have hstanding := h.standing
  have hne : cs ≠ [] := by
    rintro rfl
    exact hreason lastReason_nil
  have hfinish : s.finishReason ≠ "" := by rw [h.finishReason]; exact hreason
  have hstate := h.state
  rw [deliveredState, if_neg hne] at hstate
  rcases hstream : canonical.stream with - | -
  · rw [hstream] at hstate
    have hwriter : s.writer = ⟨[], room⟩ := by rw [h.writer, hstream]; rfl
    obtain ⟨m, stamps, hwrap, hm⟩ :=
      wrapUp_body hstream h.code (by rw [hwriter]) hfinish hstate hstanding.stamps
    refine ⟨_, hwrap, ⟨{ hstanding with }, hm, h.code, fun hstream' => ?_, fun _ => ?_⟩,
      (fun h => by cases h), fun _ => rfl⟩
    · rw [hstream] at hstream'
      cases hstream'
    · rw [hwriter]
  · rw [hstream] at hstate
    obtain ⟨m, stamps, frames, hwrap, hm⟩ :=
      wrapUp_stream (g := g) hstream h.code hfinish hstate fun t ht =>
        hstanding.stamps t (.tail _ ht)
    refine ⟨_, hwrap, ⟨{ hstanding with }, hm, h.code,
      fun _ => ?_, fun hplain => ?_⟩, fun _ => ?_, (fun h => by cases h)⟩
    · show (s.writer.calls (map _ (endItems g canonical s.finishReason s.usage))).call .close = _
      rw [h.writer, if_pos hstream, h.finishReason, h.usage, calls_concat]
    · rw [hstream] at hplain
      cases hplain
    · show s.rawSse ++ _ = _
      rw [h.finishReason, h.usage]

/-! ### Submitting -/

def Serving.routed (m : RequestStateMachine) (room : Option Nat) : Serving where
  machine := m
  stamps := [.gatewayRecv, .validateDone, .enqueue, .dequeue]
  writer := { room }

theorem submit_error {e : HqsbError} (h : script.submitted canonical = .error e) (s : Serving) :
    submit canonical script s = .error (.hqsb e, s) := by
  rw [BackendScript.submitted] at h
  rw [submit]
  rcases hopened : script.opened with e' | ⟨⟩
  · rw [hopened] at h
    cases h
    rfl
  · rw [hopened] at h
    rcases hidentity : script.identity with e' | verify
    · rw [hidentity] at h
      cases h
      rfl
    · rw [hidentity] at h
      change (if _ then _ else _) = _ at h
      show (s.lift (if _ then _ else _) >>= _) = _
      by_cases hmismatch : verify ≠ [] ∧ canonical.modelIdentity ≠ [] ∧
          ¬ sameDict verify canonical.modelIdentity = true
      · rw [if_pos hmismatch] at h ⊢
        cases h
        rfl
      · rw [if_neg hmismatch] at h
        cases h

/-- **An accepted request** stands in front of its loop. -/
theorem submit_ok (h : script.submitted canonical = .ok ()) (hstate : m.state = .routed) :
    ∃ s, submit canonical script (.routed m room) = .ok s ∧ Delivered g canonical room [] s := by
  obtain ⟨m', hnext, hm⟩ :=
    transition_from .backendSubmitted "backend accepted the request" hstate (by decide)
  refine ⟨{ Serving.routed m room with machine := m', stamps := submittedStamps }, ?_, ?_⟩
  · rw [BackendScript.submitted] at h
    rw [submit]
    rcases hopened : script.opened with e | ⟨⟩
    · rw [hopened] at h
      cases h
    · rw [hopened] at h
      rcases hidentity : script.identity with e | verify
      · rw [hidentity] at h
        cases h
      · rw [hidentity] at h
        change (if _ then _ else _) = _ at h
        show (Serving.lift _ (if _ then _ else _) >>= _) = _
        by_cases hmismatch : verify ≠ [] ∧ canonical.modelIdentity ≠ [] ∧
            ¬ sameDict verify canonical.modelIdentity = true
        · rw [if_pos hmismatch] at h
          cases h
        · rw [if_neg hmismatch]
          exact hm { Serving.routed m room with stamps := submittedStamps } rfl
  · exact {
      state := hnext
      ledger := by simp [Serving.routed]
      history := by simp [Serving.routed]
      stamps := rfl
      writer := by simp [Serving.routed, streamWrites]
      code := rfl
      status := rfl
      finishReason := rfl
      frames := by simp [Serving.routed]
      rawSse := by simp [Serving.routed]
      detachedReason := rfl
      cancelPropagated := rfl
      deadlineExceeded := rfl
      responseBody := rfl
      wroteHead := by simp [Serving.routed]
      usage := rfl
      writeRefused := rfl
      firstToken := rfl
      contentFrames := by simp [Serving.routed] }

theorem standing_routed (hstate : m.state = .routed) :
    Standing g canonical room [] [] .routed "" (.routed m room) where
  counts := by simp [Serving.routed, deliveredLedger, DeliveryLedger.counts]
  observed := rfl
  history := by simp [Serving.routed]
  state := hstate
  code := rfl
  stamps := show ∀ t ∈ [Timestamp.runtimeLast, .terminalWrite, .clientDone, .cleanupDone],
    t ∉ [Timestamp.gatewayRecv, .validateDone, .enqueue, .dequeue] by decide
  writer := by simp [Serving.routed, openedWrites]
  wroteHead := by simp [Serving.routed, headWritten]
  finishReason := rfl

/-! ### The outcome of serving -/

theorem finishedState_delivered (canonical : CanonicalBackendRequest) (cs : List BackendChunk) :
    finishedState (deliveredState canonical cs) = deliveredState canonical cs := by
  rw [deliveredState]
  split_ifs <;> rfl

theorem interruptible (canonical : CanonicalBackendRequest) (cs : List BackendChunk) :
    ∀ state ∈ [RequestState.cancelRequested, .disconnected, .timedOut],
      state ∈ allowedRequestTransitions (deliveredState canonical cs) := by
  rw [deliveredState]
  split_ifs <;> decide

theorem endLoop_fails {ending : Ending} (h : Delivered g canonical room cs s)
    (hstream : ∀ c, ending = .refused c → canonical.stream = true)
    (hcode : ending.code script cs ≠ "") :
    Fails g canonical (ending.room room) cs (ending.received cs) (ending.caught script)
      (ending.state canonical script cs) (ending.code script cs)
      (catchError g (endLoop g canonical script s ending >>= afterLoop g canonical script)) := by
  have hstanding := h.standing
  have hlegal := interruptible canonical cs
  rw [← h.state] at hlegal
  cases ending with
  | cancelled =>
    exact interruption_fails hstanding (cancelObserved_eq g script (hlegal _ (by decide))) (by decide)
  | disconnected =>
    have hlost : Standing g canonical (some 0) cs cs (deliveredState canonical cs) ""
        { s with writer := s.writer.lost } :=
      { hstanding with writer := by rw [hstanding.writer, ResponseWriter.lost] }
    have hfails := interruption_fails hlost
      (disconnectObserved_eq g script (hlegal _ (by decide))) (by decide)
    rwa [show (if script.cancelRaises = true then failedState .disconnected
      else finishedState .cancelled) = .cleaned from ite_self _] at hfails
  | expired =>
    have hfails := interruption_fails hstanding
      (deadlineObserved_eq g script (hlegal _ (by decide))) (by decide)
    rwa [show (if script.cancelRaises = true then failedState .timedOut
      else finishedState .timedOut) = .cleaned from ite_self _] at hfails
  | refused c =>
    obtain ⟨s', hdeliver, hrefused⟩ := deliver_refused h (hstream c rfl) c
    rw [endLoop, hdeliver]
    exact refused_fails hrefused
  | ended =>
    have hreason : lastReason cs = "" := by
      by_contra hreason
      exact hcode (if_neg hreason)
    have hwrap := wrapUp_fails hstanding fun _ => hreason
    rw [finishedState_delivered] at hwrap
    rw [Ending.code, Ending.state, if_pos hreason, if_pos hreason]
    rw [← afterLoop_of_refused script h.writeRefused] at hwrap
    exact hwrap
  | failed e => exact onError_eq hstanding e

variable (g canonical)

section

variable (deadlineNs : Int) (script : BackendScript) (hstate : m.state = .routed)

include hstate

theorem serveCaught_loop
    (hsubmitted : script.submitted canonical = .ok ()) {cs : List BackendChunk} {ending : Ending}
    (hending : script.ending canonical deadlineNs = (cs, ending)) :
    ∃ s, Delivered g canonical script.room cs s ∧
      (∀ c, ending = .refused c → canonical.stream = true) ∧
      serveCaught g canonical deadlineNs script (.routed m script.room) =
        catchError g (endLoop g canonical script s ending >>= afterLoop g canonical script) := by
  rw [BackendScript.ending, hsubmitted] at hending
  change loopEnding _ _ _ _ = _ at hending
  obtain ⟨s, hs, hfirst⟩ := submit_ok (g := g) hsubmitted hstate
  obtain ⟨s', hdelivered, hloop⟩ := serveLoop_eq deadlineNs hfirst script.turns
  rw [hending] at hdelivered
  rw [hending] at hloop
  refine ⟨s', hdelivered, ?_, ?_⟩
  · rintro c rfl
    exact loopEnding_refused (congrArg Prod.snd hending)
  · show catchError g (submit canonical script (.routed m script.room) >>= fun s =>
      serveLoop g canonical deadlineNs script script.turns s >>= afterLoop g canonical script) = _
    rw [hs]
    show catchError g (serveLoop _ _ _ _ _ _ >>= _) = _
    rw [hloop]

/-- A loop that ends by itself is followed by the end of the `try` body. -/
theorem serveCaught_ended
    {cs : List BackendChunk} (hending : script.ending canonical deadlineNs = (cs, .ended)) :
    ∃ s, Delivered g canonical script.room cs s ∧
      serveCaught g canonical deadlineNs script (.routed m script.room) =
        catchError g (wrapUp g canonical s) := by
  rcases hsubmitted : script.submitted canonical with e | ⟨⟩
  · rw [BackendScript.ending, hsubmitted] at hending
    cases hending
  · obtain ⟨s, hdelivered, -, hcaught⟩ :=
      serveCaught_loop g canonical deadlineNs script hstate hsubmitted hending
    refine ⟨s, hdelivered, hcaught.trans ?_⟩
    show catchError g (afterLoop g canonical script s) = _
    rw [afterLoop_of_refused script hdelivered.writeRefused]

/-- **`_serve`**, up to its audit: the request is answered, or it fails with the code of its
ending. -/
theorem serveCaught_eq
    {cs : List BackendChunk} {ending : Ending}
    (hending : script.ending canonical deadlineNs = (cs, ending)) :
    (ending.code script cs = "" →
      ∃ s, serveCaught g canonical deadlineNs script (.routed m script.room) = .ok s ∧
        Answered g canonical script.room cs s) ∧
    (ending.code script cs ≠ "" →
      Fails g canonical (ending.room script.room) cs (ending.received cs) (ending.caught script)
        (ending.state canonical script cs) (ending.code script cs)
        (serveCaught g canonical deadlineNs script (.routed m script.room))) := by
  refine ⟨fun hcode => ?_, fun hcode => ?_⟩
  · obtain ⟨rfl, hreason⟩ := Ending.of_code script cs hcode
    obtain ⟨s, hdelivered, hcaught⟩ :=
      serveCaught_ended g canonical deadlineNs script hstate hending
    obtain ⟨s', hwrap, hanswered, -⟩ := wrapUp_answered hdelivered hreason
    exact ⟨s', by rw [hcaught, hwrap]; rfl, hanswered⟩
  rcases hsubmitted : script.submitted canonical with e | ⟨⟩
  · rw [BackendScript.ending, hsubmitted] at hending
    cases hending
    show Fails _ _ _ _ _ _ _ _ (catchError g (submit canonical script (.routed m script.room) >>= _))
    rw [submit_error hsubmitted]
    exact onError_eq (standing_routed hstate) e
  · obtain ⟨s, hdelivered, hstream, hcaught⟩ :=
      serveCaught_loop g canonical deadlineNs script hstate hsubmitted hending
    rw [hcaught]
    exact endLoop_fails hdelivered hstream hcode

end

end Hqsb
