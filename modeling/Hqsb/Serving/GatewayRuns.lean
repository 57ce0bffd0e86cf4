/-
Hqsb/Serving/GatewayRuns.lean

What the serving loop does.

`Delivered g canonical room cs s` says everything about the state in which the loop stands after the
chunks `cs` went to the client.  One turn that delivers a chunk takes it from `cs` to `cs ++ [c]`
(`deliver_accepted`); by induction the loop reaches the turn that ends it with everything before
delivered (`serveLoop_eq`).  `loopEnding` reads off the script alone which chunks those are and
how the loop ends.
-/
import Hqsb.Serving.Gateway

namespace Hqsb

open Lib List

/-! ### Calls -/

section Calls

variable {s : Serving} {newState : RequestState}

/-- A legal transition changes the machine, and nothing else, wherever the machine stands. -/
theorem transition_from {m : RequestStateMachine} {state : RequestState} (newState : RequestState)
    (reason : String) (hstate : m.state = state) (h : newState ∈ allowedRequestTransitions state) :
    ∃ m', m'.state = newState ∧ ∀ s : Serving, s.machine = m →
      s.transition newState reason = .ok { s with machine := m' } := by
  subst hstate
  obtain ⟨m', hm, hnext, -⟩ := RequestStateMachine.transition_ok h reason
  refine ⟨m', hnext, ?_⟩
  rintro s rfl
  rw [Serving.transition, hm]
  rfl

theorem transition_eq (h : newState ∈ allowedRequestTransitions s.machine.state)
    (reason : String) :
    ∃ m, s.transition newState reason = .ok { s with machine := m } ∧ m.state = newState :=
  have ⟨m, hnext, hm⟩ := transition_from newState reason rfl h
  ⟨m, hm s rfl, hnext⟩

theorem transition_raise (h : newState ∉ allowedRequestTransitions s.machine.state)
    (reason : String) : ∃ e, s.transition newState reason = .error (.hqsb e, s) := by
  obtain ⟨message, hm⟩ := RequestStateMachine.transition_error h reason
  exact ⟨_, by rw [Serving.transition, hm]; rfl⟩

theorem record_eq {t : Timestamp} (h : t ∉ s.stamps) :
    s.record t = .ok { s with stamps := s.stamps ++ [t] } := if_neg h

theorem writeHead_eq (h : s.writer.sent = []) (status : Nat) (headers : List (String × String)) :
    s.writeHead status headers = .ok { s with writer := s.writer.call (.head status headers) } := by
  rw [Serving.writeHead, h]
  rfl

theorem cancelSession_ok {script : BackendScript} (h : script.cancel = .ok ()) (reason : String) :
    s.cancelSession script reason = .ok { s with cancels := s.cancels ++ [reason] } := by
  rw [Serving.cancelSession, h]
  rfl

theorem cancelSession_raise {script : BackendScript} {e : HqsbError} (h : script.cancel = .error e)
    (reason : String) : s.cancelSession script reason =
      .error (.hqsb e, { s with cancels := s.cancels ++ [reason] }) := by
  rw [Serving.cancelSession, h]
  rfl

variable {g : ServingGateway}

theorem lookupStatus_ok (h : g.catalog.Has s.code) :
    ∃ status, s.lookupStatus g = .ok { s with status } := by
  obtain ⟨e, he⟩ := ErrorCatalog.entry_of_has h
  exact ⟨e.httpStatus, by rw [Serving.lookupStatus, he]; rfl⟩

theorem lookupStatus_raise (h : ¬ g.catalog.Has s.code) :
    ∃ e, s.lookupStatus g = .error (.hqsb e, s) := by
  obtain ⟨e, he⟩ := ErrorCatalog.entry_of_not_has h
  exact ⟨e, by rw [Serving.lookupStatus, he]; rfl⟩

end Calls

/-! ### Delivered chunks -/

section Delivered

variable (g : ServingGateway) (canonical : CanonicalBackendRequest)

def deltaFrame (chunk : BackendChunk) : List UInt8 :=
  encodeDataFrame g.codec g.dataPrefix (deltaPayload canonical chunk)

variable (room : Option Nat) (cs : List BackendChunk)

/-- What the chunks of a stream make the gateway write. -/
def streamWrites : List Write :=
  if cs = [] then []
  else .head 200 (streamHeaders g) :: cs.map fun c => .body (deltaFrame g canonical c)

/-- The finish reason after some chunks: the last one given. -/
def lastReason : String :=
  cs.foldl (fun reason c => if c.finishReason ≠ "" then c.finishReason else reason) ""

def lastUsage : List (String × Json) :=
  cs.foldl (fun usage c => if c.usage ≠ [] then c.usage else usage) []

def deliveredState : RequestState :=
  if cs = [] then .backendSubmitted
  else if canonical.stream then .streaming else .firstTokenReady

/-- The timestamps of a request when its backend has accepted it. -/
def submittedStamps : List Timestamp :=
  [.gatewayRecv, .validateDone, .enqueue, .dequeue, .backendSubmit]

def deliveredStamps : List Timestamp :=
  if cs = [] then submittedStamps
  else if canonical.stream then
    submittedStamps ++ [Timestamp.runtimeFirst, .firstFrameWrite, .firstByteClient]
  else submittedStamps ++ [Timestamp.runtimeFirst]

/-- The loop stands behind the chunks `cs`. -/
structure Delivered (s : Serving) : Prop where
  state : s.machine.state = deliveredState canonical cs
  ledger : s.ledger = {
    generated := cs.length
    committed := cs.countP (·.committed)
    emitted := cs.length
    flushed := if canonical.stream then cs.length else 0 }
  history : (∀ l ∈ s.history, l.Ordered) ↔ ∀ c ∈ cs, c.committed
  stamps : s.stamps = deliveredStamps canonical cs
  writer : s.writer = ⟨if canonical.stream then streamWrites g canonical cs else [], room⟩
  code : s.code = ""
  status : s.status = 200
  finishReason : s.finishReason = lastReason cs
  frames : s.frames = if canonical.stream then cs.length else 0
  rawSse : s.rawSse = if canonical.stream then cs.flatMap (deltaFrame g canonical) else []
  detachedReason : s.detachedReason = ""
  cancelPropagated : s.cancelPropagated = false
  deadlineExceeded : s.deadlineExceeded = false
  responseBody : s.responseBody = []
  wroteHead : s.wroteHead = (canonical.stream && !cs.isEmpty)
  usage : s.usage = lastUsage cs
  writeRefused : s.writeRefused = false
  firstToken : s.firstToken = cs.isEmpty
  contentFrames : s.contentFrames =
    if canonical.stream then [] else cs.map fun c => (c.text, [c.tokenId])

variable {g canonical}

theorem lastReason_concat (c : BackendChunk) :
    lastReason (cs ++ [c]) = if c.finishReason ≠ "" then c.finishReason else lastReason cs := by
  rw [lastReason, foldl_append]
  rfl

theorem lastUsage_concat (c : BackendChunk) :
    lastUsage (cs ++ [c]) = if c.usage ≠ [] then c.usage else lastUsage cs := by
  rw [lastUsage, foldl_append]
  rfl

theorem streamWrites_concat (c : BackendChunk) : streamWrites g canonical (cs ++ [c]) =
      (if cs = [] then [.head 200 (streamHeaders g)] else streamWrites g canonical cs) ++
        [.body (deltaFrame g canonical c)] := by
  cases cs <;> simp [streamWrites]

variable {room : Option Nat} {s : Serving} {cs : List BackendChunk}

theorem noteFirstToken_fresh (hfirst : s.firstToken = true)
    (hstate : s.machine.state = .backendSubmitted) (hstamp : .runtimeFirst ∉ s.stamps) :
    ∃ m, noteFirstToken s = .ok { s with
        machine := m, stamps := s.stamps ++ [Timestamp.runtimeFirst], firstToken := false } ∧
      m.state = .firstTokenReady := by
  obtain ⟨m, hnext, hm⟩ :=
    transition_from .firstTokenReady "first token committed" hstate (by decide)
  refine ⟨m, ?_, hnext⟩
  rw [noteFirstToken, if_pos hfirst, record_eq hstamp]
  show (Serving.transition _ _ _ >>= _) = _
  rw [hm] <;> rfl

theorem noteFirstToken_later (h : s.firstToken = false) : noteFirstToken s = .ok s := by
  rw [noteFirstToken, h]
  rfl

theorem openStream_fresh (hstream : canonical.stream = true) (hhead : s.wroteHead = false)
    (hwriter : s.writer.sent = []) (hstate : s.machine.state = .firstTokenReady)
    (hstamp : .firstFrameWrite ∉ s.stamps) :
    ∃ m, openStream g canonical s = .ok { s with
        machine := m, writer := s.writer.call (.head 200 (streamHeaders g)), wroteHead := true,
        stamps := s.stamps ++ [Timestamp.firstFrameWrite] } ∧
      m.state = .streaming := by
  obtain ⟨m, hnext, hm⟩ := transition_from .streaming "first frame written" hstate (by decide)
  refine ⟨m, ?_, hnext⟩
  rw [openStream, if_pos ⟨hstream, by rw [hhead]; decide⟩, writeHead_eq hwriter]
  show (Serving.record _ _ >>= _) = _
  rw [record_eq]
  · exact hm _ rfl
  · exact hstamp

theorem openStream_skip (h : ¬ (canonical.stream = true ∧ ¬ s.wroteHead = true)) :
    openStream g canonical s = .ok s := if_neg h

/-- **Before a frame**: the first token is noted and the stream is open. -/
theorem openStream_eq (h : Delivered g canonical room cs s) (ledger : DeliveryLedger)
    (history : List DeliveryLedger) :
    ∃ m, (noteFirstToken { s with ledger, history } >>= openStream g canonical) = .ok { s with
        ledger
        history
        machine := m
        stamps :=
          if cs = [] then
            submittedStamps ++ if canonical.stream then [.runtimeFirst, .firstFrameWrite]
              else [.runtimeFirst]
          else deliveredStamps canonical cs
        firstToken := false
        wroteHead := canonical.stream
        writer := ⟨if canonical.stream then
            (if cs = [] then [.head 200 (streamHeaders g)] else streamWrites g canonical cs)
          else [], room⟩ } ∧
      m.state = if canonical.stream then .streaming else .firstTokenReady := by
  have hstamps := h.stamps
  have hwriter := h.writer
  have hhead := h.wroteHead
  rw [deliveredStamps] at hstamps
  by_cases hcs : cs = []
  · subst hcs
    rw [if_pos rfl] at hstamps
    have hnone : s.writer = ⟨[], room⟩ := by rw [hwriter]; simp [streamWrites]
    obtain ⟨m, hfirst, hm⟩ := noteFirstToken_fresh (s := { s with ledger, history })
      h.firstToken h.state (show _ ∉ s.stamps by rw [hstamps]; decide)
    rw [hfirst]
    by_cases hstream : canonical.stream = true
    · obtain ⟨m', hopen, hm'⟩ := openStream_fresh (g := g) (s := { s with
          ledger, history, machine := m, stamps := s.stamps ++ [Timestamp.runtimeFirst]
          firstToken := false }) hstream (by simpa using hhead)
        (show s.writer.sent = [] by rw [hnone]) hm
        (show _ ∉ s.stamps ++ _ by rw [hstamps]; decide)
      refine ⟨m', hopen.trans ?_, by rw [hm', if_pos hstream]⟩
      simp only [hstream, if_true, hstamps, hnone, ResponseWriter.call, append_assoc, cons_append,
        nil_append]
    · have hstream := Bool.eq_false_iff.mpr hstream
      refine ⟨m, (openStream_skip (by simp [hstream])).trans ?_, ?_⟩
      · simp [hstream, hstamps, hnone, hhead]
      · rw [hm, hstream]
        rfl
  · -- later, nothing is left to do
    have hne : cs.isEmpty = false := by simpa using hcs
    have hlater : s.firstToken = false := h.firstToken.trans hne
    have hopened : s.wroteHead = canonical.stream := by rw [hhead, hne]; exact Bool.and_true _
    rw [noteFirstToken_later (s := { s with ledger, history }) hlater]
    refine ⟨s.machine, (openStream_skip ?_).trans ?_, ?_⟩
    · simp [hopened]
    · simp [hcs, hlater, hopened, hwriter, h.stamps]
    · rw [h.state, deliveredState, if_neg hcs]

/-- Behind the chunks `cs`, and one more that the client refused. -/
structure RefusedFrame (g : ServingGateway) (canonical : CanonicalBackendRequest)
    (cs : List BackendChunk) (c : BackendChunk) (s : Serving) : Prop where
  stream : canonical.stream = true
  state : s.machine.state = .streaming
  ledger : s.ledger = {
    generated := cs.length + 1
    committed := (cs ++ [c]).countP (·.committed)
    emitted := cs.length
    flushed := cs.length }
  history : (∀ l ∈ s.history, l.Ordered) ↔ ∀ c ∈ cs, c.committed
  stamps : s.stamps = if cs = [] then submittedStamps ++ [Timestamp.runtimeFirst, .firstFrameWrite]
    else deliveredStamps canonical cs
  writer : s.writer =
    ⟨.head 200 (streamHeaders g) :: cs.map fun c => .body (deltaFrame g canonical c), some 0⟩
  code : s.code = ""
  status : s.status = 200
  finishReason : s.finishReason = lastReason cs
  frames : s.frames = cs.length
  rawSse : s.rawSse = (cs ++ [c]).flatMap (deltaFrame g canonical)
  detachedReason : s.detachedReason = ""
  cancelPropagated : s.cancelPropagated = false
  deadlineExceeded : s.deadlineExceeded = false
  responseBody : s.responseBody = []
  wroteHead : s.wroteHead = true
  writeRefused : s.writeRefused = true

/-- The ledger of a request that has delivered `delivered` chunks and received `received`. -/
def deliveredLedger (canonical : CanonicalBackendRequest) (received : List BackendChunk)
    (delivered : Nat) : DeliveryLedger where
  generated := received.length
  committed := received.countP (·.committed)
  emitted := delivered
  flushed := if canonical.stream then delivered else 0

/-- The counts are in order exactly if enough of what was received is committed. -/
theorem ordered_deliveredLedger {received : List BackendChunk} {delivered : Nat} :
    (deliveredLedger canonical received delivered).Ordered ↔
      delivered ≤ received.countP (·.committed) := by
  have hle := countP_le_length (p := fun c : BackendChunk => c.committed) (l := received)
  have hflushed : (if canonical.stream = true then delivered else 0) ≤ delivered := by
    split_ifs
    · exact le_refl _
    · exact Nat.zero_le _
  exact ⟨fun h => h.2.1, fun h => ⟨hle, h, hflushed, Nat.zero_le _⟩⟩

theorem length_le_countP_iff :
    cs.length ≤ cs.countP (·.committed) ↔ ∀ c ∈ cs, c.committed = true := by
  rw [← countP_eq_length]
  exact ⟨fun h => le_antisymm countP_le_length h, fun h => h.ge⟩

/-- **A chunk comes**: the ledger has received one more. -/
theorem Delivered.receive (h : Delivered g canonical room cs s) (c : BackendChunk) :
    ∃ history, s.receive c = { s with
        ledger := deliveredLedger canonical (cs ++ [c]) cs.length
        history } ∧
      ((∀ l ∈ history, l.Ordered) ↔ ∀ c ∈ cs, c.committed) := by
  have hledger : s.ledger = deliveredLedger canonical cs cs.length := h.ledger
  -- the ledger between the two counts: the chunk has come and is not committed
  let between : DeliveryLedger :=
    { deliveredLedger canonical cs cs.length with generated := cs.length + 1 }
  have hbetween : (∀ c ∈ cs, c.committed = true) → between.Ordered := fun hall => by
    have hord : (deliveredLedger canonical cs cs.length).Ordered :=
      ordered_deliveredLedger.mpr (length_le_countP_iff.mpr hall)
    exact ⟨hord.1.trans (Nat.le_succ _), hord.2⟩
  have hafter : (∀ c ∈ cs, c.committed = true) →
      (deliveredLedger canonical (cs ++ [c]) cs.length).Ordered := fun hall => by
    refine ordered_deliveredLedger.mpr ((length_le_countP_iff.mpr hall).trans ?_)
    rw [countP_append]
    exact Nat.le_add_right _ _
  rw [Serving.receive]
  split_ifs with hc
  · refine ⟨s.history ++ [between] ++ [deliveredLedger canonical (cs ++ [c]) cs.length], ?_, ?_⟩
    · simp [Serving.count, hledger, deliveredLedger, hc, between]
    · simp only [forall_mem_append, forall_mem_singleton, h.history]
      exact ⟨fun hall => hall.1.1, fun hall => ⟨⟨hall, hbetween hall⟩, hafter hall⟩⟩
  · refine ⟨s.history ++ [between], ?_, ?_⟩
    · simp [Serving.count, hledger, deliveredLedger, hc, between]
    · rw [forall_mem_append, forall_mem_singleton, h.history]
      exact ⟨fun hall => hall.1, fun hall => ⟨hall, hbetween hall⟩⟩

/-- `deliver` up to the frame. -/
theorem deliver_eq (h : Delivered g canonical room cs s) (c : BackendChunk) (accepted : Bool) :
    ∃ history m,
      deliver g canonical c accepted s = deliverFrame g canonical c accepted { s with
        ledger := deliveredLedger canonical (cs ++ [c]) cs.length
        history
        machine := m
        stamps :=
          if cs = [] then
            submittedStamps ++ if canonical.stream then [.runtimeFirst, .firstFrameWrite]
              else [.runtimeFirst]
          else deliveredStamps canonical cs
        firstToken := false
        wroteHead := canonical.stream
        writer := ⟨if canonical.stream then
            (if cs = [] then [.head 200 (streamHeaders g)] else streamWrites g canonical cs)
          else [], room⟩ } ∧
      m.state = (if canonical.stream then .streaming else .firstTokenReady) ∧
      ((∀ l ∈ history, l.Ordered) ↔ ∀ c ∈ cs, c.committed) := by
  obtain ⟨history, hreceive, hhistory⟩ := h.receive c
  obtain ⟨m, hopen, hm⟩ := openStream_eq h (deliveredLedger canonical (cs ++ [c]) cs.length) history
  refine ⟨history, m, ?_, hm, hhistory⟩
  rw [deliver, hreceive, ← bind_assoc, hopen]
  rfl

theorem noteFirstByte_eq (h : s.frames = 1 → .firstByteClient ∉ s.stamps) :
    noteFirstByte s = .ok { s with
      stamps := if s.frames = 1 then s.stamps ++ [Timestamp.firstByteClient] else s.stamps } := by
  rw [noteFirstByte]
  by_cases h1 : s.frames = 1
  · rw [if_pos h1, if_pos h1, record_eq (h h1)]
  · rw [if_neg h1, if_neg h1]
    rfl

/-- A frame that the client takes; the first one is also its first byte. -/
theorem deliverFrame_stream (hstream : canonical.stream = true)
    (hfirst : s.frames + 1 = 1 → .firstByteClient ∉ s.stamps) (c : BackendChunk) :
    deliverFrame g canonical c true s = .ok (.again ({ s with
      writer := s.writer.frame (deltaFrame g canonical c) true
      rawSse := s.rawSse ++ deltaFrame g canonical c
      frames := s.frames + 1
      ledger := { s.ledger with emitted := s.ledger.emitted + 1, flushed := s.ledger.flushed + 1 }
      history := s.history ++ [{ s.ledger with emitted := s.ledger.emitted + 1 }] ++
        [{ s.ledger with emitted := s.ledger.emitted + 1, flushed := s.ledger.flushed + 1 }]
      stamps := if s.frames + 1 = 1 then s.stamps ++ [Timestamp.firstByteClient]
        else s.stamps }.noteFinish c)) := by
  rw [deliverFrame, if_pos hstream]
  show (noteFirstByte _ >>= _) = _
  rw [noteFirstByte_eq]
  · rfl
  · exact hfirst

/-- **The step of the loop**: a chunk that the client takes has been delivered. -/
theorem deliver_accepted (h : Delivered g canonical room cs s) (c : BackendChunk) :
    ∃ s', deliver g canonical c true s = .ok (.again s') ∧
      Delivered g canonical room (cs ++ [c]) s' := by
  obtain ⟨history, m, hdeliver, hm, hhistory⟩ := deliver_eq h c true
  rw [hdeliver]
  have hlen : (cs ++ [c]).length = cs.length + 1 := length_append
  have hne : cs ++ [c] ≠ [] := concat_ne_nil c cs
  -- counting the frame shows a chunk that was not committed
  have hcounted : ∀ l : DeliveryLedger, (l.Ordered ↔ ∀ c' ∈ cs ++ [c], c'.committed = true) →
      ((∀ l' ∈ history ++ [l], l'.Ordered) ↔ ∀ c' ∈ cs ++ [c], c'.committed = true) := by
    intro l hl
    rw [forall_mem_append, forall_mem_singleton, hhistory, hl]
    exact and_iff_right_of_imp fun hall c' hc' => hall c' (mem_append_left _ hc')
  have hfinal : (deliveredLedger canonical (cs ++ [c]) (cs.length + 1)).Ordered ↔
      ∀ c' ∈ cs ++ [c], c'.committed = true := by
    rw [ordered_deliveredLedger, ← hlen, length_le_countP_iff]
  by_cases hstream : canonical.stream = true
  · have hframes : s.frames = cs.length := by rw [h.frames, if_pos hstream]
    refine ⟨_, deliverFrame_stream hstream ?_ c, ?_⟩
    · intro (h0 : s.frames + 1 = 1)
      have hcs : cs = [] := length_eq_zero_iff.mp (by omega)
      simp only [hcs, hstream, if_true]
      decide
    exact { h with
      state := by simp [Serving.noteFinish, hm, deliveredState, hstream]
      ledger := by simp [Serving.noteFinish, deliveredLedger, hstream]
      history := by
        have hemitted : ({ deliveredLedger canonical (cs ++ [c]) cs.length with
            emitted := cs.length + 1 } : DeliveryLedger).Ordered ↔
              ∀ c' ∈ cs ++ [c], c'.committed = true := by
          rw [← hfinal, ordered_deliveredLedger]
          simp only [deliveredLedger, hstream]
          have hle := countP_le_length (p := fun c : BackendChunk => c.committed)
            (l := cs ++ [c])
          exact ⟨fun h => h.2.1, fun h => ⟨hle, h, Nat.le_succ _, Nat.zero_le _⟩⟩
        have hflushed : deliveredLedger canonical (cs ++ [c]) (cs.length + 1) =
            { deliveredLedger canonical (cs ++ [c]) cs.length with
              emitted := cs.length + 1, flushed := cs.length + 1 } := by
          simp [deliveredLedger, hstream]
        rw [hflushed] at hfinal
        have hfirst := hcounted _ hemitted
        have hboth : (∀ l ∈ (history ++ [{ deliveredLedger canonical (cs ++ [c]) cs.length with
            emitted := cs.length + 1 }]) ++ [{ deliveredLedger canonical (cs ++ [c]) cs.length with
            emitted := cs.length + 1, flushed := cs.length + 1 }], l.Ordered) ↔
              ∀ c' ∈ cs ++ [c], c'.committed = true := by
          rw [forall_mem_append, forall_mem_singleton, hfirst, hfinal, and_self]
        simpa [Serving.noteFinish, deliveredLedger, hstream] using hboth
      stamps := by
        by_cases hcs : cs = []
        · simp [Serving.noteFinish, deliveredStamps, hcs, hstream, hframes]
        · simp [Serving.noteFinish, deliveredStamps, hcs, hstream, hframes]
      writer := by
        simp [Serving.noteFinish, hstream, streamWrites_concat, ResponseWriter.frame]
      finishReason := by
        rw [lastReason_concat, ← h.finishReason]
        rfl
      frames := by simp [Serving.noteFinish, hstream, hframes]
      rawSse := by simp [Serving.noteFinish, hstream, h.rawSse]
      wroteHead := by simp [Serving.noteFinish, hstream]
      usage := by
        rw [lastUsage_concat, ← h.usage]
        rfl
      firstToken := by simp [Serving.noteFinish]
      contentFrames := by simp [Serving.noteFinish, hstream, h.contentFrames] }
  · have hplain := Bool.eq_false_iff.mpr hstream
    refine ⟨_, if_neg hstream, ?_⟩
    exact { h with
      state := by simp [Serving.noteFinish, Serving.count, hm, deliveredState, hplain]
      ledger := by simp [Serving.noteFinish, Serving.count, deliveredLedger, hplain]
      history := hcounted _ (by
        rw [← hfinal]
        simp [deliveredLedger, hplain])
      stamps := by
        by_cases hcs : cs = []
        · simp [Serving.noteFinish, Serving.count, deliveredStamps, hcs, hplain]
        · simp [Serving.noteFinish, Serving.count, deliveredStamps, hcs, hplain]
      writer := by simp [Serving.noteFinish, Serving.count, hplain]
      finishReason := by
        rw [lastReason_concat, ← h.finishReason]
        rfl
      frames := by simp [Serving.noteFinish, Serving.count, hplain, h.frames]
      rawSse := by simp [Serving.noteFinish, Serving.count, hplain, h.rawSse]
      wroteHead := by simp [Serving.noteFinish, Serving.count, hplain]
      usage := by
        rw [lastUsage_concat, ← h.usage]
        rfl
      firstToken := by simp [Serving.noteFinish, Serving.count]
      contentFrames := by simp [Serving.noteFinish, Serving.count, hplain, h.contentFrames] }

/-- What a client refuses has been received and written, and not delivered. -/
theorem deliver_refused (h : Delivered g canonical room cs s) (hstream : canonical.stream = true)
    (c : BackendChunk) :
    ∃ s', deliver g canonical c false s = .ok (.stop s') ∧ RefusedFrame g canonical cs c s' := by
  obtain ⟨history, m, hdeliver, hm, hhistory⟩ := deliver_eq h c false
  rw [hdeliver, deliverFrame, if_pos hstream]
  refine ⟨_, rfl, ?_⟩
  exact { h with
    stream := hstream
    state := by simp [Serving.writeFrame, hm, hstream]
    ledger := by simp [Serving.writeFrame, deliveredLedger, hstream]
    history := hhistory
    stamps := by simp [Serving.writeFrame, hstream]
    writer := by
      rcases cs with - | ⟨c', cs⟩
      · simp [Serving.writeFrame, ResponseWriter.frame, ResponseWriter.lost, hstream]
      · simp [Serving.writeFrame, ResponseWriter.frame, ResponseWriter.lost, hstream, streamWrites]
    frames := h.frames.trans (if_pos hstream)
    rawSse := by simp [Serving.writeFrame, hstream, h.rawSse, deltaFrame]
    wroteHead := hstream
    writeRefused := rfl }

theorem deliver_body (hstream : canonical.stream = false) (c : BackendChunk) (accepted : Bool)
    (s : Serving) : deliver g canonical c accepted s = deliver g canonical c true s := by
  have hframe : deliverFrame g canonical c accepted = deliverFrame g canonical c true := by
    funext s
    rw [deliverFrame, deliverFrame, hstream]
    rfl
  rw [deliver, deliver, hframe]

end Delivered

/-! ### The loop -/

inductive Ending where
  | cancelled
  | disconnected
  | expired
  | refused (chunk : BackendChunk)
  | ended
  | failed (e : HqsbError)

/-- What the head of the loop makes of its signals. -/
def Signals.ending (signals : Signals) (deadlineNs : Int) : Option Ending :=
  if signals.cancelled then some .cancelled
  else if ¬ signals.connected then some .disconnected
  else if deadlineNs < signals.now then some .expired
  else none

def lastEnding (deadlineNs : Int) (last : Signals × Except HqsbError Unit) : Ending :=
  match last.1.ending deadlineNs, last.2 with
  | some ending, _ => ending
  | none, .ok () => .ended
  | none, .error e => .failed e

def loopEnding (stream : Bool) (deadlineNs : Int) (last : Signals × Except HqsbError Unit) :
    List Turn → List BackendChunk × Ending
  | [] => ([], lastEnding deadlineNs last)
  | t :: turns =>
    match t.signals.ending deadlineNs with
    | some ending => ([], ending)
    | none =>
      if stream && !t.accepted then ([], .refused t.chunk)
      else
        let rest := loopEnding stream deadlineNs last turns
        (t.chunk :: rest.1, rest.2)

section Loop

variable (g : ServingGateway) (canonical : CanonicalBackendRequest) (deadlineNs : Int)
  (script : BackendScript)

def endLoop (s : Serving) : Ending → Attempt Serving
  | .cancelled => cancelObserved g script s
  | .disconnected => disconnectObserved g script { s with writer := s.writer.lost }
  | .expired => deadlineObserved g script s
  | .refused chunk => do
    match ← deliver g canonical chunk false s with
    | .again s => pure s
    | .stop s => pure s
  | .ended => pure s
  | .failed e => s.raise e

variable {g canonical deadlineNs script}

variable (canonical) in
theorem observe_eq (signals : Signals) (s : Serving) : observe g deadlineNs script signals s =
      match signals.ending deadlineNs with
      | none => .ok (.again s)
      | some ending => .stop <$> endLoop g canonical script s ending := by
  rw [observe, Signals.ending]
  by_cases hcancelled : signals.cancelled = true
  · rw [if_pos hcancelled, if_pos hcancelled]
    rfl
  · rw [if_neg hcancelled, if_neg hcancelled]
    by_cases hconnected : ¬ signals.connected = true
    · rw [if_pos hconnected, if_pos hconnected]
      rfl
    · rw [if_neg hconnected, if_neg hconnected]
      by_cases hexpired : deadlineNs < signals.now
      · rw [if_pos hexpired, if_pos hexpired]
        rfl
      · rw [if_neg hexpired, if_neg hexpired]
        rfl

variable (deadlineNs) in
/-- **The loop.**  It delivers what its turns deliver, and then ends as they end. -/
theorem serveLoop_eq {room : Option Nat} {cs : List BackendChunk} {s : Serving}
    (h : Delivered g canonical room cs s)
    (turns : List Turn) :
    ∃ s', Delivered g canonical room
        (cs ++ (loopEnding canonical.stream deadlineNs script.last turns).1) s' ∧
      serveLoop g canonical deadlineNs script turns s =
        endLoop g canonical script s' (loopEnding canonical.stream deadlineNs script.last turns).2 := by
  induction turns generalizing cs s with
  | nil =>
    refine ⟨s, by rw [loopEnding, append_nil]; exact h, ?_⟩
    rw [serveLoop, lastTurn, observe_eq canonical, loopEnding, lastEnding]
    rcases hsignals : script.last.1.ending deadlineNs with - | ending
    · rcases hlast : script.last.2 with e | ⟨⟩
      · rfl
      · rfl
    · show (Flow.stop <$> endLoop g canonical script s ending) >>= _ =
        endLoop g canonical script s ending
      rcases endLoop g canonical script s ending with e | s'
      · rfl
      · rfl
  | cons t turns ih =>
    rw [serveLoop, turn, observe_eq canonical, loopEnding]
    rcases hsignals : t.signals.ending deadlineNs with - | ending
    · by_cases hrefused : (canonical.stream && !t.accepted) = true
      · -- the client refuses the frame
        obtain ⟨hstream, haccepted⟩ := Bool.and_eq_true_iff.mp hrefused
        have haccepted : t.accepted = false := by simpa using haccepted
        simp only [hrefused, if_true]
        refine ⟨s, by rw [append_nil]; exact h, ?_⟩
        obtain ⟨s', hdeliver, -⟩ := deliver_refused h hstream t.chunk
        show ((deliver g canonical t.chunk t.accepted s) >>= _) = _
        rw [haccepted, endLoop, hdeliver]
        rfl
      · have hdeliver : deliver g canonical t.chunk t.accepted s =
            deliver g canonical t.chunk true s := by
          rcases hstream : canonical.stream with - | -
          · exact deliver_body hstream _ _ _
          · have haccepted : t.accepted = true := by simpa [hstream] using hrefused
            rw [haccepted]
        obtain ⟨s', hs', hnext⟩ := deliver_accepted h t.chunk
        obtain ⟨s'', hdelivered, hrest⟩ := ih hnext
        simp only [hrefused, Bool.false_eq_true, if_false]
        refine ⟨s'', by rw [append_cons]; exact hdelivered, ?_⟩
        show ((deliver g canonical t.chunk t.accepted s) >>= _) = _
        rw [hdeliver, hs']
        exact hrest
    · refine ⟨s, by rw [append_nil]; exact h, ?_⟩
      show ((Flow.stop <$> endLoop g canonical script s ending) >>= _) >>= _ =
        endLoop g canonical script s ending
      rcases endLoop g canonical script s ending with e | s'
      · rfl
      · rfl

end Loop

end Hqsb
