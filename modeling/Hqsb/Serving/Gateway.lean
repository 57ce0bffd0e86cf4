/-
Hqsb/Serving/Gateway.lean

The gateway: one request from its arrival to its outcome.

`Serving` holds what `handle` and `_serve` change on their way: the state machine, the ledger, the
timestamps, what was written to the client, and the local variables.  A call that may raise is an
`Attempt`; what it raises carries the state it left behind, because the handler of `_serve` goes
on from there.

What the world does is an argument.  `Exchange` is one request with the answers of the request
pipeline, the admission policy and the router; `BackendScript` says what the backend session
answers, turn by turn, together with what the gateway observes of the client in that turn, and
how long the client goes on taking what is written.  A backend whose `health` raises is left out:
`Exchange.health` is the document that it returns.
-/
import Hqsb.Serving.Protocol
import Hqsb.Serving.Sse

namespace Hqsb

open Lib

/-! ### The world -/

structure BackendChunk where
  tokenId : Int
  text : String
  committed : Bool := true
  finishReason : String := ""
  /-- Empty when there is none. -/
  usage : List (String × Json) := []

/-- What a turn of the loop observes before it asks for a chunk. -/
structure Signals where
  /-- `self._cancelled.get(request_id)` -/
  cancelled : Bool := false
  /-- `writer.client_connected()` -/
  connected : Bool := true
  now : Int := 0

/-- A turn that gets a chunk, and whether the client takes its frame. -/
structure Turn where
  signals : Signals := {}
  chunk : BackendChunk
  accepted : Bool := true

/-- What a backend does with one request. -/
structure BackendScript where
  opened : Except HqsbError Unit := .ok ()
  identity : Except HqsbError (List (String × String)) := .ok []
  turns : List Turn := []
  /-- The turn after these, which ends the stream or fails. -/
  last : Signals × Except HqsbError Unit := ({}, .ok ())
  /-- How many of the bodies that are not the frame of a chunk the client takes, all of them
  without a number. -/
  room : Option Nat := none
  /-- `session.cancel` -/
  cancel : Except HqsbError Unit := .ok ()

/-- What the router chose. -/
structure RouteSelection where
  instanceId : String
  reason : String := ""

structure AdmissionDecision where
  admitted : Bool := true
  code : String := "service_overloaded"
  reason : String := ""
  retryAfterMs : Int := 0

/-- `float(raw)` of the deadline header. -/
inductive DeadlineHeader
  | absent | invalid (raw : String) | nan | posInf | negInf | value (ms : ℚ)

inductive ServiceState
  | serving | draining | forceCancelling | closed
  deriving DecidableEq

def ServiceState.name : ServiceState → String
  | .serving => "SERVING"
  | .draining => "DRAINING"
  | .forceCancelling => "FORCE_CANCELLING"
  | .closed => "CLOSED"

/-- One request, and what everybody it is shown to answers. -/
structure Exchange where
  requestId : String
  path : String
  method : String := "POST"
  deadline : DeadlineHeader := .absent
  receivedNs : Int := 0
  /-- `self.health()` -/
  health : Json := .null
  /-- `request_pipeline` -/
  canonical : Except ValidationIssue CanonicalBackendRequest
  decision : AdmissionDecision := {}
  /-- `self._route` -/
  selection : Option RouteSelection
  script : BackendScript := {}

/-- The configuration of a gateway: its profile, its catalog and its knobs. -/
structure ServingGateway where
  endpoints : List String
  /-- `profile.sse.content_type` -/
  contentType : String := "text/event-stream"
  /-- `profile.sse.data_prefix` -/
  dataPrefix : List Char := "data: ".toList
  catalog : ErrorCatalog
  defaultDeadlineMs : ℚ := 30000
  maxDeadlineMs : ℚ := 600000
  emitUsageFrame : Bool := false
  /-- JSON in frames. -/
  codec : JsonCodec Json
  /-- `json.dumps(..).encode()` -/
  dumpBody : Json → List UInt8

/-! ### The state of one request -/

inductive Write where
  | head (status : Nat) (headers : List (String × String))
  | body (bytes : List UInt8)
  | close
  deriving DecidableEq

def Write.isHead : Write → Bool
  | head _ _ => true
  | _ => false

def Write.bytes : Write → List UInt8
  | body bytes => bytes
  | _ => []

/-- The writer of a response.  `write_body` refuses what it gets once the client takes nothing
more, and the connection stays lost. -/
structure ResponseWriter where
  /-- What was sent to the client. -/
  sent : List Write := []
  /-- How many more bodies the client takes. -/
  room : Option Nat := none

namespace ResponseWriter

variable (w : ResponseWriter)

def call : Write → ResponseWriter
  | .body bytes =>
    if w.room = some 0 then w
    else { sent := w.sent ++ [.body bytes], room := w.room.map (· - 1) }
  | write => { w with sent := w.sent ++ [write] }

def calls (writes : List Write) : ResponseWriter := writes.foldl call w

/-- The client is gone. -/
def lost : ResponseWriter := { w with room := some 0 }

/-- The frame of a chunk, which the client takes or refuses. -/
def frame (bytes : List UInt8) (accepted : Bool) : ResponseWriter :=
  if accepted then { w with sent := w.sent ++ [.body bytes] } else w.lost

end ResponseWriter

structure Serving where
  machine : RequestStateMachine
  ledger : DeliveryLedger := {}
  /-- Every value the counts of the ledger took; only statements read it. -/
  history : List DeliveryLedger := []
  stamps : List Timestamp := []
  writer : ResponseWriter := {}
  cancels : List String := []
  code : String := ""
  status : Nat := 200
  finishReason : String := ""
  frames : Nat := 0
  rawSse : List UInt8 := []
  detachedReason : String := ""
  cancelPropagated : Bool := false
  deadlineExceeded : Bool := false
  responseBody : List UInt8 := []
  wroteHead : Bool := false
  usage : List (String × Json) := []
  writeRefused : Bool := false
  firstToken : Bool := true
  contentFrames : List (String × List Int) := []

/-- The evidence kept for one request. -/
structure ServingOutcome where
  requestId : String
  status : Nat
  code : String
  stream : Bool
  wroteHead : Bool
  frames : Nat
  bodyBytes : Nat
  ledger : DeliveryLedger
  timestamps : List Timestamp
  transitions : List TransitionRecord
  terminalState : RequestState
  backendId : String := ""
  routerReason : String := ""
  admissionReason : String := ""
  cancelPropagated : Bool := false
  deadlineExceeded : Bool := false
  detachedReason : String := ""
  rawSse : List UInt8 := []

def ServingOutcome.ok (o : ServingOutcome) : Bool := o.status == 200 && o.detachedReason == ""

/-- A call that returns, or raises and leaves a state. -/
abbrev Attempt := Except (Raised × Serving)

namespace Serving

variable {α : Type}

variable (s : Serving)

def raise (e : HqsbError) : Attempt α := .error (.hqsb e, s)

/-- A call that changes nothing of the request. -/
def lift : Except HqsbError α → Attempt α
  | .ok a => .ok a
  | .error e => s.raise e

def transition (newState : RequestState) (reason : String) : Attempt Serving := do
  let machine ← s.lift (s.machine.transition newState reason)
  pure { s with machine }

def record (t : Timestamp) : Attempt Serving :=
  if t ∈ s.stamps then
    s.raise (.config ("timestamp was already recorded for " ++ s.machine.requestId ++
      "; overwriting a boundary would hide the original observation"))
  else pure { s with stamps := s.stamps ++ [t] }

def count (f : DeliveryLedger → DeliveryLedger) : Serving :=
  { s with ledger := f s.ledger, history := s.history ++ [f s.ledger] }

def writeHead (status : Nat) (headers : List (String × String)) : Attempt Serving :=
  if s.writer.sent.any Write.isHead then
    s.raise (.config "write_head called twice for the same response")
  else pure { s with writer := s.writer.call (.head status headers) }

/-- `write_body` where nobody looks at its answer. -/
def writeBody (bytes : List UInt8) : Serving := { s with writer := s.writer.call (.body bytes) }

def writeFrame (frame : List UInt8) (accepted : Bool) : Serving :=
  { s with writer := s.writer.frame frame accepted, rawSse := s.rawSse ++ frame }

def close : Serving := { s with writer := s.writer.call .close }

/-- `session.cancel` -/
def cancelSession (script : BackendScript) (reason : String) : Attempt Serving :=
  let s := { s with cancels := s.cancels ++ [reason] }
  match script.cancel with
  | .ok () => pure s
  | .error e => s.raise e

/-- `status = self.catalog.entry(code).http_status` -/
def lookupStatus (g : ServingGateway) : Attempt Serving := do
  let e ← s.lift (g.catalog.entry s.code)
  pure { s with status := e.httpStatus }

end Serving

/-! ### Payloads -/

section Payload

variable (canonical : CanonicalBackendRequest)

def chunkPayload (choice : List (String × Json)) : Json :=
  .obj [("id", .str canonical.requestId), ("object", .str "chat.completion.chunk"),
    ("created", .num 0), ("model", .str canonical.modelAlias), ("choices", .arr [.obj choice])]

def deltaPayload (chunk : BackendChunk) : Json :=
  chunkPayload canonical [("index", .num 0),
    ("delta", .obj [("content", .str chunk.text), ("token_ids", .arr [.num chunk.tokenId])]),
    ("finish_reason", .null)]

def finishPayload (finishReason : String) : Json :=
  chunkPayload canonical
    [("index", .num 0), ("delta", .obj []), ("finish_reason", .str finishReason)]

/-- `encode_usage_frame` -/
def usagePayload (usage : List (String × Json)) : Json :=
  .obj [("id", .str canonical.requestId), ("object", .str "chat.completion.chunk"),
    ("model", .str canonical.modelAlias), ("choices", .arr []), ("usage", .obj usage)]

def errorPayload (error : Json) : Json :=
  .obj [("id", .str canonical.requestId), ("object", .str "chat.completion.chunk"),
    ("model", .str canonical.modelAlias), ("error", error),
    ("choices", .arr [.obj [("index", .num 0), ("delta", .obj []),
      ("finish_reason", .str "error")]])]

def Json.setdefault (key : String) (value : Json) : Json → Json
  | .obj members =>
    if (members.lookup key).isSome then .obj members else .obj (members ++ [(key, value)])
  | j => j

/-- The choices of a body, each with a value for `logprobs`. -/
def Json.withLogprobs : Json → Json
  | .obj members => .obj (members.map fun m =>
      match m with
      | ("choices", .arr choices) => ("choices", .arr (choices.map (Json.setdefault "logprobs" .null)))
      | m => m)
  | j => j

/-- `_normalize_response`.  The body is dumped and loaded before, which changes nothing. -/
def normalizeResponse (payload : Json) : Json :=
  let object := if canonical.endpoint.endsWith "chat/completions" then "chat.completion"
    else "text_completion"
  Json.withLogprobs <| Json.setdefault "model" (.str canonical.modelAlias) <|
    Json.setdefault "created" (.num 0) <| Json.setdefault "object" (.str object) <|
      Json.setdefault "id" (.str canonical.requestId) payload

/-- The body of a non-stream answer. -/
def responsePayload (s : Serving) : Json :=
  let text := String.join (s.contentFrames.map Prod.fst)
  let choice : List (String × Json) :=
    [("index", .num 0), ("text", .str text),
      ("token_ids", .arr ((s.contentFrames.flatMap Prod.snd).map .num)),
      ("finish_reason", .str s.finishReason)]
  let message : List (String × Json) :=
    if canonical.endpoint.endsWith "chat/completions" then
      [("message", .obj [("role", .str "assistant"), ("content", .str text)])]
    else []
  let usage : List (String × Json) :=
    if s.usage ≠ [] then s.usage
    else [("prompt_tokens", .num canonical.promptTokens),
      ("completion_tokens", .num s.ledger.committed),
      ("total_tokens", .num (canonical.promptTokens + s.ledger.committed))]
  .obj [("id", .str canonical.requestId),
    ("object", .str (if canonical.endpoint.endsWith "completions" then "text_completion"
      else "chat.completion")),
    ("created", .num 0), ("model", .str canonical.modelAlias),
    ("choices", .arr [.obj (choice ++ message)]), ("usage", .obj usage)]

end Payload

/-! ### Serving -/

section Serve

variable (g : ServingGateway) (canonical : CanonicalBackendRequest) (deadlineNs : Int)
  (script : BackendScript)

def submit (s : Serving) : Attempt Serving := do
  s.lift script.opened
  let verify ← s.lift script.identity
  s.lift (if verify ≠ [] ∧ canonical.modelIdentity ≠ [] ∧
      ¬ sameDict verify canonical.modelIdentity then
    .error (.schema ("backend answered with a different model identity than the routed " ++
      "one; returning this response would be an identity failure"))
    else .ok ())
  let s ← s.record .backendSubmit
  s.transition .backendSubmitted "backend accepted the request"

/-- A turn goes on, or the loop is left. -/
inductive Flow where
  | again (s : Serving)
  | stop (s : Serving)

def cancelObserved (s : Serving) : Attempt Serving := do
  let s ← s.transition .cancelRequested "client cancel observed"
  let s ← s.cancelSession script "client_cancelled"
  let s := { s with cancelPropagated := true }
  let s ← s.transition .cancelPropagated "cancel reached the backend"
  let s ← s.transition .cancelled "request cancelled"
  let s := { s with ledger := { s.ledger with cancelled := true }, code := "client_cancelled" }
  s.lookupStatus g

def disconnectObserved (s : Serving) : Attempt Serving := do
  let s ← s.transition .disconnected "client closed the connection"
  let s ← s.cancelSession script "client_disconnected"
  let s := { s with cancelPropagated := true }
  let s ← s.transition .cancelPropagated "cancel reached the backend after disconnect"
  let s ← s.transition .cancelled "disconnect"
  let s :=
    { s with ledger := { s.ledger with disconnected := true }, code := "client_disconnected" }
  let s ← s.lookupStatus g
  pure { s with detachedReason := "client_disconnected" }

def deadlineObserved (s : Serving) : Attempt Serving := do
  let s ← s.transition .timedOut "deadline exceeded"
  let s ← s.cancelSession script "deadline_exceeded"
  let s :=
    { s with cancelPropagated := true, deadlineExceeded := true, code := "deadline_exceeded" }
  s.lookupStatus g

/-- The three checks at the head of the loop. -/
def observe (signals : Signals) (s : Serving) : Attempt Flow :=
  if signals.cancelled then .stop <$> cancelObserved g script s
  else if ¬ signals.connected then
    .stop <$> disconnectObserved g script { s with writer := s.writer.lost }
  else if deadlineNs < signals.now then .stop <$> deadlineObserved g script s
  else pure (.again s)

def Serving.noteFinish (s : Serving) (chunk : BackendChunk) : Serving :=
  { s with
    finishReason := if chunk.finishReason ≠ "" then chunk.finishReason else s.finishReason
    usage := if chunk.usage ≠ [] then chunk.usage else s.usage }

def streamHeaders : List (String × String) :=
  [("Content-Type", g.contentType), ("Cache-Control", "no-cache")]

def noteFirstToken (s : Serving) : Attempt Serving := do
  if s.firstToken then
    let s ← s.record .runtimeFirst
    let s ← s.transition .firstTokenReady "first token committed"
    pure { s with firstToken := false }
  else pure s

def openStream (s : Serving) : Attempt Serving := do
  if canonical.stream ∧ ¬ s.wroteHead then
    let s ← s.writeHead 200 (streamHeaders g)
    let s := { s with wroteHead := true }
    let s ← s.record .firstFrameWrite
    s.transition .streaming "first frame written"
  else pure s

def Serving.receive (s : Serving) (chunk : BackendChunk) : Serving :=
  let s := s.count fun l => { l with generated := l.generated + 1 }
  if chunk.committed then s.count fun l => { l with committed := l.committed + 1 } else s

def noteFirstByte (s : Serving) : Attempt Serving :=
  if s.frames = 1 then s.record .firstByteClient else pure s

def deliverFrame (chunk : BackendChunk) (accepted : Bool) (s : Serving) : Attempt Flow := do
  if canonical.stream then
    let s :=
      s.writeFrame (encodeDataFrame g.codec g.dataPrefix (deltaPayload canonical chunk)) accepted
    if accepted then
      let s := { s with frames := s.frames + 1 }
      let s := s.count fun l => { l with emitted := l.emitted + 1 }
      let s := s.count fun l => { l with flushed := l.flushed + 1 }
      let s ← noteFirstByte s
      pure (.again (s.noteFinish chunk))
    else
      -- the socket refused the write: the client is gone
      pure (.stop { s with writeRefused := true })
  else
    let s := { s with contentFrames := s.contentFrames ++ [(chunk.text, [chunk.tokenId])] }
    let s := s.count fun l => { l with emitted := l.emitted + 1 }
    pure (.again (s.noteFinish chunk))

def deliver (chunk : BackendChunk) (accepted : Bool) (s : Serving) : Attempt Flow := do
  let s ← noteFirstToken (s.receive chunk)
  let s ← openStream g canonical s
  deliverFrame g canonical chunk accepted s

def turn (t : Turn) (s : Serving) : Attempt Flow := do
  match ← observe g deadlineNs script t.signals s with
  | .stop s => pure (.stop s)
  | .again s => deliver g canonical t.chunk t.accepted s

/-- The turn that finds the end of the stream, or a failure. -/
def lastTurn (s : Serving) : Attempt Serving := do
  match ← observe g deadlineNs script script.last.1 s with
  | .stop s => pure s
  | .again s =>
    s.lift script.last.2
    pure s

/-- `while True` -/
def serveLoop : List Turn → Serving → Attempt Serving
  | [], s => lastTurn g deadlineNs script s
  | t :: turns, s => do
    match ← turn g canonical deadlineNs script t s with
    | .stop s => pure s
    | .again s => serveLoop turns s

section

variable (s : Serving)

def afterRefusal : Attempt Serving := do
  if s.writeRefused ∧ s.code = "" then
    let s := { s with code := "client_disconnected" }
    let s ← s.lookupStatus g
    let s := { s with
      ledger := { s.ledger with disconnected := true }
      detachedReason := "socket_write_refused" }
    let s ← s.cancelSession script "client_disconnected"
    let s := { s with cancelPropagated := true }
    let s ← s.transition .disconnected "socket write refused: the client is gone"
    let s ← s.transition .cancelPropagated "cancel reached the backend after the refused write"
    s.transition .cancelled "disconnect"
  else pure s

def requireFinish : Serving :=
  if s.code = "" ∧ s.finishReason = "" then { s with code := "protocol_failure" } else s

def Serving.endFrame (frame : List UInt8) : Serving :=
  { s.writeBody frame with rawSse := s.rawSse ++ frame, frames := s.frames + 1 }

/-- The last frames of a stream: finish reason, usage and the terminal marker. -/
def endFrames : Serving :=
  let s := if s.finishReason ≠ "" then
      s.endFrame (encodeDataFrame g.codec g.dataPrefix (finishPayload canonical s.finishReason))
    else s
  let s := if s.usage ≠ [] ∧ (g.emitUsageFrame ∨ canonical.includeUsage) then
      s.endFrame (encodeDataFrame g.codec g.dataPrefix (usagePayload canonical s.usage))
    else s
  s.endFrame (encodeTerminal g.dataPrefix)

def answerStream : Attempt Serving := do
  let s ← (endFrames g canonical s).record .terminalWrite
  let s ← s.transition .terminalFrameSent "terminal marker written"
  pure { s with ledger := { s.ledger with terminalClean := true } }

def jsonHeaders (body : List UInt8) : List (String × String) :=
  [("Content-Type", "application/json"), ("Content-Length", toString body.length)]

def answerBody : Attempt Serving := do
  let s ← s.record .runtimeLast
  let s := { s with
    responseBody := g.dumpBody (normalizeResponse canonical (responsePayload canonical s)) }
  let s ← s.writeHead 200 (jsonHeaders s.responseBody)
  let s := { s with wroteHead := true }
  let s := s.writeBody s.responseBody
  let s ← s.record .terminalWrite
  let s := { s with
    ledger := { s.ledger with terminalClean := true }
    finishReason := if s.finishReason ≠ "" then s.finishReason else "stop" }
  s.transition .terminalFrameSent "response body written"

def answer : Attempt Serving :=
  if s.code ≠ "" then pure s
  else if canonical.stream then answerStream g canonical s
  else answerBody g canonical s

/-- The JSON answer of a request that failed before its head was written. -/
def writeFailure : Attempt Serving := do
  let e ← s.lift (g.catalog.entry s.code)
  let wire ← s.lift (g.catalog.wireBody s.code "")
  let body := g.dumpBody wire
  let s ← s.writeHead e.httpStatus [("Content-Type", "application/json")]
  let s := s.writeBody body
  pure { s with responseBody := body, wroteHead := true }

/-- A failure after the head is reported inside the stream. -/
def reportInStream : Attempt Serving := do
  let e ← s.lift (g.catalog.entry s.code)
  pure (s.endFrame (encodeDataFrame g.codec g.dataPrefix
    (errorPayload canonical (ErrorCatalog.errorBody e ""))))

def report : Attempt Serving :=
  if s.code = "" then pure s
  else if s.wroteHead ∧ canonical.stream then reportInStream g canonical s
  else if ¬ s.wroteHead then writeFailure g s
  else pure s

/-- The end of the answer, if it has not been taken down. -/
def recordLast : Attempt Serving :=
  if .runtimeLast ∈ s.stamps then pure s else s.record .runtimeLast

/-- The writer is closed, and the response is complete. -/
def recordDone : Attempt Serving := do
  let s ← recordLast s
  let s ← s.close.record .clientDone
  s.record .cleanupDone

/-- The end of the `try` body. -/
def finishUp : Attempt Serving := do
  let s ← recordDone s
  if s.machine.state ∈ [.terminalFrameSent, .cancelled, .timedOut, .disconnected] then
    let s ← if s.machine.state = .terminalFrameSent then
        s.transition .clientCompleted "response delivered"
      else pure s
    s.transition .cleaned "resources released"
  else pure s

/-- What follows the loop and a refusal. -/
def wrapUp : Attempt Serving := do
  let s ← answer g canonical (requireFinish s)
  let s ← report g canonical s
  finishUp s

/-- The `try` body of `_serve`. -/
def serveBody : Attempt Serving := do
  let s ← submit canonical script s
  let s ← serveLoop g canonical deadlineNs script script.turns s
  let s ← afterRefusal g script s
  wrapUp g canonical s

def HqsbError.code (e : HqsbError) : String :=
  if e.fault = "oom" then "backend_oom"
  else if e.isSchema then "backend_identity_mismatch"
  else "backend_unavailable"

/-- The transitions of the handler; an illegal one is swallowed. -/
def Serving.failed (e : HqsbError) : Serving :=
  let attempt : Attempt Serving :=
    if s.machine.state ∈ [.backendSubmitted, .firstTokenReady, .streaming] ∨
        s.machine.state ∈ [.routed, .queued, .admissionPending] then do
      let s ← s.transition .backendFailed e.message
      s.transition .cleaned "backend failure"
    else s.transition .cleaned e.message
  match attempt with
  | .ok s => s
  | .error (_, s) => s

end

/-- `except HqsbError` -/
def onError (e : HqsbError) (s : Serving) : Attempt Serving := do
  let s := if s.code = "" then { s with code := e.code } else s
  let s ← s.lookupStatus g
  let s := { s with detachedReason := e.errorType ++ ": " ++ e.message }
  let s := s.failed e
  if s.wroteHead then pure s else writeFailure g s

/-- The outcome of `_serve`. -/
def Serving.outcome (s : Serving) (canonical : CanonicalBackendRequest)
    (selection : RouteSelection) : ServingOutcome where
  requestId := canonical.requestId
  status := s.status
  code := s.code
  stream := canonical.stream
  wroteHead := s.wroteHead
  frames := s.frames
  bodyBytes := if canonical.stream then s.rawSse.length else s.responseBody.length
  ledger := s.ledger
  timestamps := s.stamps
  transitions := s.machine.records
  terminalState := s.machine.state
  backendId := selection.instanceId
  routerReason := selection.reason
  cancelPropagated := s.cancelPropagated
  deadlineExceeded := s.deadlineExceeded
  detachedReason := s.detachedReason
  rawSse := s.rawSse

/-- The ledger must audit clean before an outcome is returned. -/
def auditLedger (s : Serving) : Attempt Unit :=
  if s.ledger.problems = [] then pure ()
  else s.raise (.schema ("delivery ledger violates its ordering invariant: " ++
    "; ".intercalate s.ledger.problems))

/-- The `try` body of `_serve` and its handler. -/
def serveCaught (s : Serving) : Attempt Serving :=
  match serveBody g canonical deadlineNs script s with
  | .ok s => .ok s
  | .error (.hqsb e, s) => onError g e s
  | .error raised => .error raised

def serve (selection : RouteSelection) (s : Serving) : Attempt (Serving × ServingOutcome) := do
  let s ← serveCaught g canonical deadlineNs script s
  auditLedger s
  pure (s, s.outcome canonical selection)

end Serve

/-! ### Handling -/

section Handle

variable (g : ServingGateway)

def rejectHeaders (e : ErrorEntry) (retryAfterMs : Int) (body : List UInt8) :
    List (String × String) :=
  let suggested := if retryAfterMs ≠ 0 then retryAfterMs else 1000
  jsonHeaders body ++
    if 0 < retryAfterMs ∨ e.category = "overload" then
      [("Retry-After", toString (max 1 (suggested.tdiv 1000)))]
    else []

def rejectTarget (e : ErrorEntry) (code : String) : RequestState :=
  if e.category = "overload" ∨ code ∈ ["service_not_serving", "no_feasible_backend"] then
    .rejectedOverload
  else .rejectedInvalid

/-- A rejection on the transport level is recorded end to end. -/
def recordArrival (s : Serving) : Attempt Serving := do
  if s.machine.state = .clientScheduled then
    let s ← s.transition .connecting "connection accepted"
    s.transition .received "rejection raised"
  else pure s

def recordAdmission (target : RequestState) (s : Serving) : Attempt Serving :=
  if s.machine.state = .validated ∧ target = .rejectedOverload then
    s.transition .admissionPending "overload rejection raised after validation"
  else pure s

def recordRejection (target : RequestState) (reason : String) (s : Serving) : Attempt Serving := do
  if s.machine.state ∈ [.received, .validated, .admissionPending, .queued, .routed] then
    let s ← s.transition target reason
    s.transition .cleaned "rejection recorded"
  else pure s

def Serving.rejected (s : Serving) (e : ErrorEntry) (code reason : String) (bodyBytes : Nat) :
    ServingOutcome where
  requestId := s.machine.requestId
  status := e.httpStatus
  code
  stream := false
  wroteHead := true
  frames := 1
  bodyBytes
  ledger := s.ledger
  timestamps := s.stamps
  transitions := s.machine.records
  terminalState := s.machine.state
  routerReason := if e.stage = "routing" then reason else ""
  admissionReason := if e.stage = "admission" then reason else ""

def reject (s : Serving) (code reason : String) (retryAfterMs : Int) :
    Attempt (Serving × ServingOutcome) := do
  let e ← s.lift (g.catalog.entry code)
  let wire ← s.lift (g.catalog.wireBody code e.message)
  let body := g.dumpBody wire
  let s ← s.writeHead e.httpStatus (rejectHeaders e retryAfterMs body)
  let s ← recordArrival (s.writeBody body).close
  let target := rejectTarget e code
  let s ← recordAdmission target s
  let s ← recordRejection target reason s
  let s := { s with ledger := { s.ledger with terminalClean := false } }
  pure (s, s.rejected e code reason body.length)

def controlTransitions : List (RequestState × String) :=
  [(.connecting, "control request"), (.received, "control request"),
    (.validated, "control endpoint"), (.admissionPending, "control endpoint"),
    (.queued, "control endpoint bypasses the business queue"), (.routed, "control endpoint"),
    (.backendSubmitted, "no backend involved"), (.firstTokenReady, "body ready"),
    (.streaming, "body written"), (.terminalFrameSent, "closed"),
    (.clientCompleted, "control body delivered"), (.cleaned, "control request finished")]

def readiness (service : ServiceState) : Json :=
  .obj [("ready", .bool (service = .serving)),
    ("reason", .str (if service = .serving then "" else "service state is " ++ service.name))]

def Serving.controlled (s : Serving) (bodyBytes : Nat) : ServingOutcome where
  requestId := s.machine.requestId
  status := 200
  code := ""
  stream := false
  wroteHead := true
  frames := 0
  bodyBytes
  ledger := s.ledger
  timestamps := s.stamps
  transitions := s.machine.records
  terminalState := s.machine.state

def handleControl (service : ServiceState) (x : Exchange) (s : Serving) :
    Attempt (Serving × ServingOutcome) := do
  let body := g.dumpBody (if x.path = "/healthz" then x.health else readiness service)
  let s ← s.writeHead 200 (jsonHeaders body)
  let s ← controlTransitions.foldlM (fun s t => s.transition t.1 t.2) (s.writeBody body).close
  pure (s, s.controlled body.length)

/-- `_deadline_ms`: the deadline, `none` for NaN, and what is wrong with the header. -/
def deadlineMs (header : DeadlineHeader) : Option ℚ × String :=
  match header with
  | .absent => (some g.defaultDeadlineMs, "")
  | .invalid raw => (some g.defaultDeadlineMs, "invalid deadline header '" ++ raw ++ "'")
  | .nan => (none, "")
  | .negInf => (some g.defaultDeadlineMs, "deadline must be positive")
  | .posInf => (some g.maxDeadlineMs, "deadline above the service maximum")
  | .value ms =>
    if ms ≤ 0 then (some g.defaultDeadlineMs, "deadline must be positive")
    else if g.maxDeadlineMs < ms then
      (some g.maxDeadlineMs, "deadline above the service maximum")
    else (some ms, "")

/-- `request.received_ns + int(deadline_ms * 1e6)` -/
def deadlineNs (receivedNs : Int) (deadline : ℚ) : Int :=
  let ns := deadline * 1000000
  receivedNs + ns.num.tdiv ns.den

def Serving.arrived (requestId : String) (room : Option Nat) : Serving where
  machine := { requestId }
  stamps := [.gatewayRecv]
  writer := { room }

/-- How far `handle` gets by itself: to an outcome, or to the call of `_serve`. -/
inductive Approach where
  | done (s : Serving) (outcome : ServingOutcome)
  | serve (canonical : CanonicalBackendRequest) (deadlineNs : Int) (selection : RouteSelection)
    (s : Serving)

def turnAway (s : Serving) (code reason : String) (retryAfterMs : Int) : Attempt Approach := do
  let (s, outcome) ← reject g s code reason retryAfterMs
  pure (.done s outcome)

def admitRequest (x : Exchange) (canonical : CanonicalBackendRequest) (deadline : Option ℚ)
    (s : Serving) : Attempt Approach := do
  let s ← s.transition .validated "schema/semantic/identity/budget checks passed"
  let s ← s.transition .admissionPending "asking the admission policy"
  if ¬ x.decision.admitted then
    s.lift (if g.catalog.Has x.decision.code then .ok () else
      .error (.config ("admission returned unknown error code '" ++ x.decision.code ++
        "'; reject reasons must come from the frozen catalog")))
    turnAway g s x.decision.code x.decision.reason x.decision.retryAfterMs
  else
    let s ← s.record .enqueue
    let s ← s.transition .queued "admitted"
    match x.selection with
    | none =>
      turnAway g s "no_feasible_backend"
        "hard capability/identity/health filters removed every candidate" 0
    | some selection =>
      let s ← s.record .dequeue
      let s ← s.transition .routed selection.reason
      match deadline with
      | none => .error (.python "ValueError" "cannot convert float NaN to integer", s)
      | some ms => pure (.serve canonical (deadlineNs x.receivedNs ms) selection s)

/-- `handle`, up to `_serve`. -/
def approach (service : ServiceState) (x : Exchange) : Attempt Approach := do
  let s := Serving.arrived x.requestId x.script.room
  if x.path ∈ ["/healthz", "/readyz", "/metrics"] then
    let (s, outcome) ← handleControl g service x s
    pure (.done s outcome)
  else if x.path ∉ g.endpoints then turnAway g s "not_found" x.path 0
  else if x.method ≠ "POST" then turnAway g s "method_not_allowed" x.method 0
  else if service ≠ .serving then
    turnAway g s "service_not_serving" ("service state is " ++ service.name) 0
  else
    let (deadline, problem) := deadlineMs g x.deadline
    let s ← s.transition .connecting "connection accepted"
    let s ← s.transition .received "body received"
    match x.canonical with
    | .error issue => turnAway g s issue.code (issue.path ++ ": " ++ issue.message) 0
    | .ok canonical =>
      let s ← s.record .validateDone
      if problem ≠ "" then turnAway g s "deadline_infeasible" problem 0
      else admitRequest g x canonical deadline s

/-- The rest of `handle`. -/
def proceed (script : BackendScript) : Approach → Attempt (Serving × ServingOutcome)
  | .done s outcome => pure (s, outcome)
  | .serve canonical deadlineNs selection s => serve g canonical deadlineNs script selection s

def handle (service : ServiceState) (x : Exchange) : Attempt (Serving × ServingOutcome) := do
  proceed g x.script (← approach g service x)

end Handle

end Hqsb
