/-
Hqsb/Serving/GatewayEndings.lean

How `_serve` ends.

For every way the loop can end there is one code the request is reported with, one state its
machine is left in and one list of writes that ends its response.  `serveCaught_eq` computes all
three from the script.
-/
import Hqsb.Lib.Traverse
import Hqsb.Serving.GatewayRuns
import Hqsb.Serving.SseFraming

namespace Hqsb

open Lib List

variable {g : ServingGateway} {canonical : CanonicalBackendRequest} {script : BackendScript}
  {s : Serving}

theorem calls_concat (w : ResponseWriter) (writes : List Write) (write : Write) :
    w.calls (writes ++ [write]) = (w.calls writes).call write := foldl_concat _ _ _ _

/-! ### Reporting -/

variable (g canonical)

/-- The frame that reports an error inside the stream. -/
def errorFrame (e : ErrorEntry) : List UInt8 :=
  encodeDataFrame g.codec g.dataPrefix (errorPayload canonical (ErrorCatalog.errorBody e ""))

/-- The writes that report a failure: a frame in a stream that is open, else a JSON answer. -/
def failureWrites (e : ErrorEntry) (wroteHead : Bool) : List Write :=
  if wroteHead then [.body (errorFrame g canonical e)]
  else [.head e.httpStatus [("Content-Type", "application/json")],
    .body (g.dumpBody (.obj [("error", ErrorCatalog.errorBody e "")]))]

variable {g canonical}

variable (canonical) in
theorem writeFailure_eq {e : ErrorEntry} (he : g.catalog.entry s.code = .ok e)
    (hwriter : s.writer.sent = []) :
    ∃ body, writeFailure g s = .ok { s with
      writer := s.writer.calls (failureWrites g canonical e false)
      responseBody := body, wroteHead := true } := by
  refine ⟨g.dumpBody (.obj [("error", ErrorCatalog.errorBody e "")]), ?_⟩
  have hwire : g.catalog.wireBody s.code "" = .ok (.obj [("error", ErrorCatalog.errorBody e "")]) := by
    rw [ErrorCatalog.wireBody, he]
    rfl
  rw [writeFailure, he, hwire]
  show (Serving.writeHead _ _ _ >>= _) = _
  rw [writeHead_eq hwriter]
  rfl

/-- A failure is reported, wherever the response stands. -/
theorem report_eq (hcode : s.code ≠ "") {e : ErrorEntry} (he : g.catalog.entry s.code = .ok e)
    (hhead : s.wroteHead = true → canonical.stream = true)
    (hwriter : s.wroteHead = false → s.writer.sent = []) :
    ∃ frames rawSse responseBody, report g canonical s = .ok { s with
      writer := s.writer.calls (failureWrites g canonical e s.wroteHead)
      frames, rawSse, responseBody, wroteHead := true } := by
  rw [report, if_neg hcode]
  rcases hwrote : s.wroteHead with - | -
  · obtain ⟨body, hbody⟩ := writeFailure_eq canonical he (hwriter hwrote)
    refine ⟨s.frames, s.rawSse, body, ?_⟩
    rw [if_neg (by simp), hbody]
    rfl
  · refine ⟨s.frames + 1, s.rawSse ++ errorFrame g canonical e, s.responseBody, ?_⟩
    rw [if_pos ⟨rfl, hhead hwrote⟩, reportInStream, he]
    show Except.ok _ = _
    simp only [Serving.endFrame, Serving.writeBody, failureWrites, if_true, errorFrame, hwrote]
    rfl

variable (canonical) in
theorem report_raise (hcode : s.code ≠ "") (hhas : ¬ g.catalog.Has s.code)
    (hhead : s.wroteHead = true → canonical.stream = true) :
    ∃ e, report g canonical s = .error (.hqsb e, s) := by
  obtain ⟨e, he⟩ := ErrorCatalog.entry_of_not_has hhas
  refine ⟨e, ?_⟩
  rw [report, if_neg hcode]
  rcases hwrote : s.wroteHead with - | -
  · rw [if_neg (by simp), writeFailure, he]
    rfl
  · rw [if_pos ⟨rfl, hhead hwrote⟩, reportInStream, he]
    rfl

/-! ### Finishing -/

/-- The state a request is left in by the end of the `try` body. -/
def finishedState (state : RequestState) : RequestState :=
  if state ∈ [.terminalFrameSent, .cancelled, .timedOut, .disconnected] then .cleaned else state

theorem recordDone_eq (hstamps : ∀ t ∈ [Timestamp.clientDone, .cleanupDone], t ∉ s.stamps) :
    ∃ stamps, recordDone s = .ok { s with stamps, writer := s.writer.call .close } := by
  have hlast : ∃ stamps, recordLast s = .ok { s with stamps } ∧
      ∀ t ∈ [Timestamp.clientDone, .cleanupDone], t ∉ stamps := by
    by_cases hmem : Timestamp.runtimeLast ∈ s.stamps
    · exact ⟨s.stamps, if_pos hmem, hstamps⟩
    · refine ⟨s.stamps ++ [Timestamp.runtimeLast], (if_neg hmem).trans (record_eq hmem),
        fun t ht => ?_⟩
      refine not_mem_append (hstamps t ht) ?_
      revert t
      decide
  obtain ⟨stamps, hok, hnot⟩ := hlast
  refine ⟨stamps ++ [Timestamp.clientDone] ++ [Timestamp.cleanupDone], ?_⟩
  have hclient : Timestamp.clientDone ∉ stamps := hnot _ (by decide)
  have hcleanup : Timestamp.cleanupDone ∉ stamps ++ [Timestamp.clientDone] :=
    not_mem_append (hnot _ (by decide)) (by decide)
  rw [recordDone, hok]
  show (Serving.record (Serving.close { s with stamps }) _ >>= _) = _
  rw [record_eq (s := Serving.close { s with stamps }) hclient]
  exact record_eq (s := { s with
    stamps := stamps ++ [Timestamp.clientDone], writer := s.writer.call .close }) hcleanup

/-- **The end of the `try` body** closes the writer and leaves the machine cleaned, if its state
has an edge there. -/
theorem finishUp_eq (hstamps : ∀ t ∈ [Timestamp.clientDone, .cleanupDone], t ∉ s.stamps) :
    ∃ m stamps, finishUp s = .ok { s with
        machine := m, stamps, writer := s.writer.call .close } ∧
      m.state = finishedState s.machine.state := by
  obtain ⟨stamps, hdone⟩ := recordDone_eq hstamps
  rw [finishUp, hdone, finishedState]
  by_cases hmem : s.machine.state ∈
      [RequestState.terminalFrameSent, .cancelled, .timedOut, .disconnected]
  · by_cases hterminal : s.machine.state = .terminalFrameSent
    · obtain ⟨m, hstate, hm⟩ :=
        transition_from .clientCompleted "response delivered" hterminal (by decide)
      obtain ⟨m', hstate', hm'⟩ := transition_from .cleaned "resources released" hstate (by decide)
      refine ⟨m', stamps, ?_, by rw [if_pos hmem, hstate']⟩
      show (if s.machine.state ∈ _ then _ else _) = _
      rw [if_pos hmem, if_pos hterminal, hm]
      · exact hm' _ rfl
      · rfl
    · have hlegal : RequestState.cleaned ∈ allowedRequestTransitions s.machine.state := by
        rcases mem_cons.mp hmem with h | h
        · exact absurd h hterminal
        · revert h
          generalize s.machine.state = state
          revert state
          decide
      obtain ⟨m, hstate, hm⟩ := transition_from .cleaned "resources released" rfl hlegal
      refine ⟨m, stamps, ?_, by rw [if_pos hmem, hstate]⟩
      show (if s.machine.state ∈ _ then _ else _) = _
      rw [if_pos hmem, if_neg hterminal]
      exact hm _ rfl
  · refine ⟨s.machine, stamps, ?_, by rw [if_neg hmem]⟩
    show (if s.machine.state ∈ _ then _ else _) = _
    rw [if_neg hmem]
    rfl

/-! ### Wrapping up -/

theorem requireFinish_eq (s : Serving) :
    requireFinish s = { s with code := (requireFinish s).code } := by
  rw [requireFinish]
  split_ifs <;> rfl

variable (canonical) in
/-- **A failed answer** is reported, and the writer is closed. -/
theorem wrapUp_failure (hcode : (requireFinish s).code ≠ "") {e : ErrorEntry}
    (he : g.catalog.entry (requireFinish s).code = .ok e)
    (hhead : s.wroteHead = true → canonical.stream = true)
    (hwriter : s.wroteHead = false → s.writer.sent = [])
    (hstamps : ∀ t ∈ [Timestamp.clientDone, .cleanupDone], t ∉ s.stamps) :
    ∃ m stamps frames rawSse responseBody, wrapUp g canonical s = .ok { s with
        code := (requireFinish s).code
        writer := (s.writer.calls (failureWrites g canonical e s.wroteHead)).call .close
        machine := m, stamps, frames, rawSse, responseBody, wroteHead := true } ∧
      m.state = finishedState s.machine.state := by
  have heq := requireFinish_eq s
  generalize (requireFinish s).code = code at *
  obtain ⟨frames, rawSse, responseBody, hreport⟩ :=
    report_eq (s := { s with code }) hcode he hhead hwriter
  obtain ⟨m, stamps, hfinish, hstate⟩ := finishUp_eq (s := { s with
    code
    writer := s.writer.calls (failureWrites g canonical e s.wroteHead)
    frames, rawSse, responseBody, wroteHead := true }) hstamps
  refine ⟨m, stamps, frames, rawSse, responseBody, ?_, hstate⟩
  rw [wrapUp, heq, answer, if_pos hcode]
  show (report g canonical _ >>= finishUp) = _
  rw [hreport]
  exact hfinish

variable (canonical) in
/-- A failure without an entry raises once more. -/
theorem wrapUp_unknown (hcode : (requireFinish s).code ≠ "")
    (hhas : ¬ g.catalog.Has (requireFinish s).code)
    (hhead : s.wroteHead = true → canonical.stream = true) :
    ∃ e, wrapUp g canonical s = .error (.hqsb e, { s with code := (requireFinish s).code }) := by
  have heq := requireFinish_eq s
  generalize (requireFinish s).code = code at *
  obtain ⟨e, he⟩ := report_raise canonical (s := { s with code }) hcode hhas hhead
  refine ⟨e, ?_⟩
  rw [wrapUp, heq, answer, if_pos hcode]
  show (report g canonical _ >>= finishUp) = _
  rw [he]
  rfl

/-- What ends a stream: the finish reason, the usage if it was asked for, and the marker. -/
def endItems (g : ServingGateway) (canonical : CanonicalBackendRequest) (finishReason : String)
    (usage : List (String × Json)) : List (SseItem Json) :=
  [SseItem.data (finishPayload canonical finishReason)] ++
    (if usage ≠ [] ∧ (g.emitUsageFrame ∨ canonical.includeUsage) then
      [SseItem.data (usagePayload canonical usage)] else []) ++ [SseItem.terminal]

def itemWrite (g : ServingGateway) (item : SseItem Json) : Write :=
  .body (item.encode g.codec g.dataPrefix)

variable (g canonical) in
theorem endFrames_eq (hfinish : s.finishReason ≠ "") :
    ∃ frames, endFrames g canonical s = { s with
      frames
      rawSse := s.rawSse ++ (endItems g canonical s.finishReason s.usage).flatMap
        (SseItem.encode g.codec g.dataPrefix)
      writer :=
        s.writer.calls ((endItems g canonical s.finishReason s.usage).map (itemWrite g)) } := by
  let finish := encodeDataFrame g.codec g.dataPrefix (finishPayload canonical s.finishReason)
  let usage := encodeDataFrame g.codec g.dataPrefix (usagePayload canonical s.usage)
  let terminal := encodeTerminal g.dataPrefix
  rw [endFrames, if_pos hfinish, endItems]
  by_cases husage : s.usage ≠ [] ∧ (g.emitUsageFrame = true ∨ canonical.includeUsage = true)
  · refine ⟨s.frames + 1 + 1 + 1, ?_⟩
    rw [if_pos husage]
    refine (congrArg (fun s : Serving => s.endFrame terminal) (if_pos husage)).trans ?_
    simp only [Serving.endFrame, Serving.writeBody, flatMap_append, flatMap_singleton, append_assoc]
    rfl
  · refine ⟨s.frames + 1 + 1, ?_⟩
    rw [if_neg husage]
    refine (congrArg (fun s : Serving => s.endFrame terminal) (if_neg husage)).trans ?_
    simp only [Serving.endFrame, Serving.writeBody, flatMap_append, flatMap_singleton, append_assoc]
    rfl

variable (g canonical) in
theorem answerStream_eq (hfinish : s.finishReason ≠ "")
    (hstate : s.machine.state = .streaming) (hstamp : .terminalWrite ∉ s.stamps) :
    ∃ m frames, answerStream g canonical s = .ok { s with
        machine := m, frames
        rawSse := s.rawSse ++ (endItems g canonical s.finishReason s.usage).flatMap
          (SseItem.encode g.codec g.dataPrefix)
        writer :=
          s.writer.calls ((endItems g canonical s.finishReason s.usage).map (itemWrite g))
        stamps := s.stamps ++ [Timestamp.terminalWrite]
        ledger := { s.ledger with terminalClean := true } } ∧
      m.state = .terminalFrameSent := by
  obtain ⟨frames, hframes⟩ := endFrames_eq g canonical hfinish
  obtain ⟨m, hnext, hm⟩ :=
    transition_from .terminalFrameSent "terminal marker written" hstate (by decide)
  refine ⟨m, frames, ?_, hnext⟩
  rw [answerStream, hframes, record_eq]
  · show (Serving.transition _ _ _ >>= _) = _
    rw [hm] <;> rfl
  · exact hstamp

variable (g canonical) in
theorem answerBody_eq (hwriter : s.writer.sent = []) (hfinish : s.finishReason ≠ "")
    (hstate : s.machine.state = .firstTokenReady)
    (hstamps : ∀ t ∈ [Timestamp.runtimeLast, .terminalWrite], t ∉ s.stamps) :
    let body := g.dumpBody (normalizeResponse canonical (responsePayload canonical s))
    ∃ m, answerBody g canonical s = .ok { s with
        machine := m
        responseBody := body
        writer := s.writer.calls [.head 200 (jsonHeaders body), .body body]
        wroteHead := true
        stamps := s.stamps ++ [Timestamp.runtimeLast] ++ [Timestamp.terminalWrite]
        ledger := { s.ledger with terminalClean := true } } ∧
      m.state = .terminalFrameSent := by
  intro body
  have hlast : Timestamp.runtimeLast ∉ s.stamps := hstamps _ (by decide)
  have hterminal : Timestamp.terminalWrite ∉ s.stamps ++ [Timestamp.runtimeLast] :=
    not_mem_append (hstamps _ (by decide)) (by decide)
  obtain ⟨m, hnext, hm⟩ :=
    transition_from .terminalFrameSent "response body written" hstate (by decide)
  refine ⟨m, ?_, hnext⟩
  rw [answerBody, record_eq hlast]
  show (Serving.writeHead
    { s with stamps := s.stamps ++ [Timestamp.runtimeLast], responseBody := body }
    _ _ >>= _) = _
  rw [writeHead_eq (by exact hwriter)]
  show (Serving.record _ _ >>= _) = _
  rw [record_eq]
  · show Serving.transition _ _ _ = _
    rw [hm _ (by rfl)]
    simp only [Serving.writeBody, ne_eq, hfinish]
    rfl
  · exact hterminal

theorem requireFinish_of_finish (hfinish : s.finishReason ≠ "") : requireFinish s = s :=
  if_neg fun h => hfinish h.2

/-- What was answered is closed. -/
theorem wrapUp_answer {a : Serving} (hfinish : s.finishReason ≠ "")
    (hanswer : answer g canonical s = .ok a) (hanswered : a.code = "")
    (hstate : a.machine.state = .terminalFrameSent)
    (hstamps : ∀ t ∈ [Timestamp.clientDone, .cleanupDone], t ∉ a.stamps) :
    ∃ m stamps, wrapUp g canonical s = .ok { a with
        machine := m, stamps, writer := a.writer.call .close } ∧
      m.state = .cleaned := by
  obtain ⟨m, stamps, hfinishUp, hm⟩ := finishUp_eq hstamps
  refine ⟨m, stamps, ?_, by rw [hm, hstate]; rfl⟩
  rw [wrapUp, requireFinish_of_finish hfinish, hanswer]
  show (report g canonical a >>= finishUp) = _
  rw [report, if_pos hanswered]
  exact hfinishUp

/-- **A complete stream** ends with the marker and leaves the request cleaned. -/
theorem wrapUp_stream (hstream : canonical.stream = true) (hcode : s.code = "")
    (hfinish : s.finishReason ≠ "") (hstate : s.machine.state = .streaming)
    (hstamps : ∀ t ∈ [Timestamp.terminalWrite, .clientDone, .cleanupDone], t ∉ s.stamps) :
    ∃ m stamps frames, wrapUp g canonical s = .ok { s with
        machine := m, stamps, frames
        rawSse := s.rawSse ++ (endItems g canonical s.finishReason s.usage).flatMap
          (SseItem.encode g.codec g.dataPrefix)
        writer := (s.writer.calls
          ((endItems g canonical s.finishReason s.usage).map (itemWrite g))).call .close
        ledger := { s.ledger with terminalClean := true } } ∧
      m.state = .cleaned := by
  obtain ⟨m, frames, hanswer, hm⟩ :=
    answerStream_eq g canonical hfinish hstate (hstamps _ (by decide))
  have hdone : ∀ t ∈ [Timestamp.clientDone, .cleanupDone],
      t ∉ s.stamps ++ [Timestamp.terminalWrite] := by
    intro t ht
    refine not_mem_append (hstamps t (.tail _ ht)) ?_
    revert t
    decide
  obtain ⟨m', stamps, hwrap, hm'⟩ := wrapUp_answer hfinish
    ((if_neg (by rw [hcode]; decide)).trans ((if_pos hstream).trans hanswer)) hcode hm hdone
  exact ⟨m', stamps, frames, hwrap, hm'⟩

/-- **A complete body** leaves the request cleaned. -/
theorem wrapUp_body (hstream : canonical.stream = false) (hcode : s.code = "")
    (hwriter : s.writer.sent = []) (hfinish : s.finishReason ≠ "")
    (hstate : s.machine.state = .firstTokenReady)
    (hstamps : ∀ t ∈ [Timestamp.runtimeLast, .terminalWrite, .clientDone, .cleanupDone],
      t ∉ s.stamps) :
    let body := g.dumpBody (normalizeResponse canonical (responsePayload canonical s))
    ∃ m stamps, wrapUp g canonical s = .ok { s with
        machine := m, stamps, responseBody := body, wroteHead := true
        writer := s.writer.calls [.head 200 (jsonHeaders body), .body body, .close]
        ledger := { s.ledger with terminalClean := true } } ∧
      m.state = .cleaned := by
  intro body
  obtain ⟨m, hanswer, hm⟩ := answerBody_eq g canonical hwriter hfinish
    hstate fun t ht => hstamps t (by revert t; decide)
  have hdone : ∀ t ∈ [Timestamp.clientDone, .cleanupDone],
      t ∉ s.stamps ++ [Timestamp.runtimeLast] ++ [Timestamp.terminalWrite] := by
    intro t ht
    rw [append_assoc]
    refine not_mem_append (hstamps t (by revert t; decide)) ?_
    revert t
    decide
  exact wrapUp_answer hfinish ((if_neg (by rw [hcode]; decide)).trans
    ((if_neg (by rw [hstream]; decide)).trans hanswer)) hcode hm hdone

/-! ### Cancelling the backend -/

theorem propagate_eq {m : RequestStateMachine} {state : RequestState} (hstate : m.state = state)
    (h : .cancelPropagated ∈ allowedRequestTransitions state) (reason reason' : String) :
    ∃ m₁ m₂, m₂.state = .cancelled ∧
      (∀ s : Serving, s.machine = m →
        s.transition .cancelPropagated reason = .ok { s with machine := m₁ }) ∧
      ∀ s : Serving, s.machine = m₁ →
        s.transition .cancelled reason' = .ok { s with machine := m₂ } := by
  obtain ⟨m₁, h₁, hm₁⟩ := transition_from .cancelPropagated reason hstate h
  obtain ⟨m₂, h₂, hm₂⟩ := transition_from .cancelled reason' h₁ (by decide)
  exact ⟨m₁, m₂, h₂, hm₁, hm₂⟩

/-- Telling the backend changes the machine and the code, and nothing that was counted or
written. -/
structure Interrupted (s : Serving) (state : RequestState) (code : String) (s' : Serving) :
    Prop where
  state : s'.machine.state = state
  code : s'.code = code
  counts : s'.ledger.counts = s.ledger.counts
  observed : s'.ledger.clientReceivedObserved = s.ledger.clientReceivedObserved
  history : s'.history = s.history
  stamps : s'.stamps = s.stamps
  writer : s'.writer = s.writer
  wroteHead : s'.wroteHead = s.wroteHead
  finishReason : s'.finishReason = s.finishReason

/-- An interruption: it ends with a code of its own, unless the backend raises or the code has no
entry. -/
structure Interruption (g : ServingGateway) (script : BackendScript) (s : Serving)
    (entered left : RequestState) (code : String) (result : Attempt Serving) : Prop where
  raised : ∀ e, script.cancel = .error e →
    ∃ s', result = .error (.hqsb e, s') ∧ Interrupted s entered s.code s'
  reported : script.cancel = .ok () → g.catalog.Has code →
    ∃ s', result = .ok s' ∧ Interrupted s left code s'
  unknown : script.cancel = .ok () → ¬ g.catalog.Has code →
    ∃ e s', result = .error (.hqsb e, s') ∧ Interrupted s left code s'

/-- An interruption enters its state, tells the backend and goes on to the status, which it looks
up in `done`. -/
theorem Interruption.of {entered left : RequestState} {code : String}
    {rest : Serving → Attempt Serving} (detached : Serving → String)
    (h : entered ∈ allowedRequestTransitions s.machine.state) (reason : String)
    (hrest : ∀ m : RequestStateMachine, m.state = entered → ∃ done : Serving,
      rest { s with machine := m, cancels := s.cancels ++ [code] } =
        (done.lookupStatus g >>= fun s => pure { s with detachedReason := detached s }) ∧
      Interrupted s left code done) :
    Interruption g script s entered left code
      (s.transition entered reason >>= fun s => s.cancelSession script code >>= rest) := by
  obtain ⟨m, hstate, hm⟩ := transition_from _ reason rfl h
  obtain ⟨done, hend, hdone⟩ := hrest m hstate
  rw [hm s rfl]
  show Interruption _ _ _ _ _ _ (Serving.cancelSession _ _ _ >>= _)
  constructor
  · intro e hcancel
    rw [cancelSession_raise hcancel]
    exact ⟨_, rfl, hstate, rfl, rfl, rfl, rfl, rfl, rfl, rfl, rfl⟩
  · intro hcancel hhas
    obtain ⟨status, hstatus⟩ := lookupStatus_ok (g := g) (s := done) (by rw [hdone.code]; exact hhas)
    rw [cancelSession_ok hcancel]
    refine ⟨_, hend.trans (bind_of_ok hstatus _), ?_⟩
    exact { hdone with }
  · intro hcancel hhas
    obtain ⟨e, he⟩ := lookupStatus_raise (g := g) (s := done) (by rw [hdone.code]; exact hhas)
    rw [cancelSession_ok hcancel]
    exact ⟨e, done, hend.trans (bind_of_error he _), hdone⟩

variable (g script) in
theorem cancelObserved_eq (h : .cancelRequested ∈ allowedRequestTransitions s.machine.state) :
    Interruption g script s .cancelRequested .cancelled "client_cancelled"
      (cancelObserved g script s) := by
  refine Interruption.of Serving.detachedReason h "client cancel observed" fun m hm => ?_
  obtain ⟨m₁, m₂, hstate, hm₁, hm₂⟩ :=
    propagate_eq hm (by decide) "cancel reached the backend" "request cancelled"
  exact ⟨_, (bind_of_ok (hm₁ _ (by rfl)) _).trans <| (bind_of_ok (hm₂ _ (by rfl)) _).trans
    (bind_pure _).symm, hstate, rfl, rfl, rfl, rfl, rfl, rfl, rfl, rfl⟩

variable (g script) in
theorem disconnectObserved_eq (h : .disconnected ∈ allowedRequestTransitions s.machine.state) :
    Interruption g script s .disconnected .cancelled "client_disconnected"
      (disconnectObserved g script s) := by
  refine Interruption.of (fun _ => "client_disconnected") h "client closed the connection"
    fun m hm => ?_
  obtain ⟨m₁, m₂, hstate, hm₁, hm₂⟩ := propagate_eq hm (by decide)
    "cancel reached the backend after disconnect" "disconnect"
  exact ⟨_, (bind_of_ok (hm₁ _ (by rfl)) _).trans (bind_of_ok (hm₂ _ (by rfl)) _), hstate, rfl,
    rfl, rfl, rfl, rfl, rfl, rfl, rfl⟩

variable (g script) in
theorem deadlineObserved_eq (h : .timedOut ∈ allowedRequestTransitions s.machine.state) :
    Interruption g script s .timedOut .timedOut "deadline_exceeded"
      (deadlineObserved g script s) :=
  .of Serving.detachedReason h "deadline exceeded" fun _ hstate =>
    ⟨_, (bind_pure _).symm, hstate, rfl, rfl, rfl, rfl, rfl, rfl, rfl, rfl⟩

variable (script) in
/-- A refused write cancels the backend after its status was looked up. -/
theorem afterRefusal_raise (hrefused : s.writeRefused = true) (hcode : s.code = "")
    (h : g.catalog.Has "client_disconnected" → ∃ e, script.cancel = .error e) :
    ∃ e s', afterRefusal g script s = .error (.hqsb e, s') ∧
      Interrupted s s.machine.state "client_disconnected" s' ∧
      (g.catalog.Has "client_disconnected" → script.cancel = .error e) := by
  rw [afterRefusal, if_pos ⟨hrefused, hcode⟩]
  by_cases hhas : g.catalog.Has "client_disconnected"
  · obtain ⟨status, hstatus⟩ :=
      lookupStatus_ok (g := g) (s := { s with code := "client_disconnected" }) hhas
    obtain ⟨e, hcancel⟩ := h hhas
    refine ⟨e, ?_⟩
    apply Exists.intro
    refine ⟨?_, ?_, fun _ => hcancel⟩
    · show (Serving.lookupStatus _ _ >>= _) = _
      rw [hstatus]
      show (Serving.cancelSession _ _ _ >>= _) = _
      rw [cancelSession_raise hcancel]
      rfl
    · exact ⟨rfl, rfl, rfl, rfl, rfl, rfl, rfl, rfl, rfl⟩
  · obtain ⟨e, he⟩ :=
      lookupStatus_raise (g := g) (s := { s with code := "client_disconnected" }) hhas
    refine ⟨e, { s with code := "client_disconnected" }, ?_,
      ⟨rfl, rfl, rfl, rfl, rfl, rfl, rfl, rfl, rfl⟩, fun h => absurd h hhas⟩
    show (Serving.lookupStatus _ _ >>= _) = _
    rw [he]
    rfl

theorem afterRefusal_eq (hrefused : s.writeRefused = true) (hcode : s.code = "")
    (hstate : .disconnected ∈ allowedRequestTransitions s.machine.state)
    (hhas : g.catalog.Has "client_disconnected") (hcancel : script.cancel = .ok ()) :
    ∃ s', afterRefusal g script s = .ok s' ∧
      Interrupted s .cancelled "client_disconnected" s' := by
  obtain ⟨status, hstatus⟩ :=
    lookupStatus_ok (g := g) (s := { s with code := "client_disconnected" }) hhas
  obtain ⟨m, hnext, hm⟩ :=
    transition_from _ "socket write refused: the client is gone" rfl hstate
  obtain ⟨m₁, m₂, hnext', hm₁, hm₂⟩ := propagate_eq hnext (by decide)
    "cancel reached the backend after the refused write" "disconnect"
  apply Exists.intro
  constructor
  · rw [afterRefusal, if_pos ⟨hrefused, hcode⟩]
    show (Serving.lookupStatus _ _ >>= _) = _
    rw [hstatus]
    show (Serving.cancelSession _ _ _ >>= _) = _
    rw [cancelSession_ok hcancel]
    show (Serving.transition _ _ _ >>= _) = _
    rw [hm _ (by rfl)]
    show (Serving.transition _ _ _ >>= _) = _
    rw [hm₁ _ (by rfl)]
    exact hm₂ _ rfl
  · exact ⟨hnext', rfl, rfl, rfl, rfl, rfl, rfl, rfl, rfl⟩

end Hqsb
