/-
Hqsb/Serving/GatewayVerdicts.lean

What an outcome says of its request.

The code, the status and `ok` of an outcome are set at different exits.  Where a status is looked
up it goes with the code (`Coded`), and what comes after it leaves both alone (`Silent`).  The one
exit that looks nothing up is `requireFinish`: an answer without a finish reason gets a code and
keeps the status 200, and so it counts as a success.  No exit asks whether the client took the
last frames of an answer.

Main result: `outcome_consistent_iff`, for which requests the outcome is consistent.
-/
import Hqsb.Serving.StreamAgreement

namespace Hqsb

open Lib List

/-! ### Consistent outcomes -/

/-- The tokens that the backend generated: the chunks that the ledger counts. -/
def Exchange.generated (x : Exchange) (s : Serving) : List BackendChunk :=
  (x.script.turns.take s.ledger.generated).map (·.chunk)

/-- The client was sent all of some chunks, and their finish reason behind them. -/
structure Complete (g : ServingGateway) (canonical : CanonicalBackendRequest)
    (chunks : List BackendChunk) (sent : List Write) : Prop where
  finish : lastReason chunks ≠ ""
  stream : canonical.stream = true → streamWrites g canonical chunks ++
    [itemWrite g (.data (finishPayload canonical (lastReason chunks)))] <+: sent
  body : canonical.stream = false → ∃ body, BodyOf chunks body ∧
    sent = [.head 200 (jsonHeaders (g.dumpBody (.obj body))), .body (g.dumpBody (.obj body)),
      .close]

/-- The status goes with the code, and `ok` with the response. -/
structure Consistent (g : ServingGateway) (x : Exchange) (s : Serving) (o : ServingOutcome) :
    Prop where
  status : o.code = "" ↔ o.status = 200
  ok : o.ok = true ↔
    ∃ canonical, x.canonical = .ok canonical ∧ Complete g canonical (x.generated s) s.writer.sent

def ServingGateway.Refuses (g : ServingGateway) (code : String) : Prop :=
  ∀ e, g.catalog.entry code = .ok e → e.httpStatus ≠ 200

/-- Endings with a consistent outcome: an answer has a finish reason, which the client takes, and
a failure a status of its own. -/
def Ending.Speaks (g : ServingGateway) (script : BackendScript) (cs : List BackendChunk) :
    Ending → Prop
  | ended => lastReason cs ≠ "" ∧ script.Takes 1
  | ending => g.Refuses (ending.code script cs)

/-- Courses with a consistent outcome.  A control request has no finish reason. -/
def Course.Speaks (g : ServingGateway) (script : BackendScript) : Course → Prop
  | control => False
  | rejected _ code => code ≠ "" ∧ g.Refuses code
  | timeless => True
  | served canonical deadlineNs => Ending.Speaks g script (script.ending canonical deadlineNs).1
      (script.ending canonical deadlineNs).2

/-! ### Calls that say nothing -/

/-- Nothing is said of a request in between. -/
structure SaysNothing (s s' : Serving) : Prop where
  code : s'.code = s.code
  status : s'.status = s.status
  detachedReason : s'.detachedReason = s.detachedReason

theorem SaysNothing.trans {s s' s'' : Serving} (h : SaysNothing s s') (h' : SaysNothing s' s'') :
    SaysNothing s s'' :=
  ⟨h'.code.trans h.code, h'.status.trans h.status, h'.detachedReason.trans h.detachedReason⟩

/-- The call leaves the code, the status and the reason alone. -/
def Silent (call : Serving → Attempt Serving) : Prop :=
  ∀ s s', call s = .ok s' → SaysNothing s s'

section Silent

variable {call next : Serving → Attempt Serving}

theorem Silent.bind (hcall : Silent call) (hnext : Silent next) :
    Silent fun s => call s >>= next := by
  intro s s' h
  obtain ⟨s₁, h₁, h⟩ := bind_ok_iff.mp h
  exact (hcall s s₁ h₁).trans (hnext s₁ s' h)

theorem Silent.after (hcall : Silent call) {s t s' : Serving} (h : call t = .ok s')
    (hst : SaysNothing s t) : SaysNothing s s' := hst.trans (hcall t s' h)

theorem silent_pure : Silent fun s => pure s := by
  rintro s _ ⟨⟩
  exact ⟨rfl, rfl, rfl⟩

theorem silent_transition (newState : RequestState) (reason : String) :
    Silent fun s => s.transition newState reason := by
  intro s s' h
  obtain ⟨machine, -, h⟩ := bind_ok_iff.mp h
  cases h
  exact ⟨rfl, rfl, rfl⟩

theorem silent_record (t : Timestamp) : Silent fun s => s.record t := by
  intro s s' h
  simp only [Serving.record] at h
  split_ifs at h
  · cases h
  · cases h
    exact ⟨rfl, rfl, rfl⟩

theorem silent_cancelSession (script : BackendScript) (reason : String) :
    Silent fun s => s.cancelSession script reason := by
  intro s s' h
  simp only [Serving.cancelSession] at h
  split at h
  · cases h
    exact ⟨rfl, rfl, rfl⟩
  · cases h

theorem silent_writeHead (status : Nat) (headers : List (String × String)) :
    Silent fun s => s.writeHead status headers := by
  intro s s' h
  simp only [Serving.writeHead] at h
  split_ifs at h
  · cases h
  · cases h
    exact ⟨rfl, rfl, rfl⟩

theorem silent_writeFailure (g : ServingGateway) : Silent (writeFailure g) := by
  intro s s' h
  obtain ⟨e, -, h⟩ := bind_ok_iff.mp h
  obtain ⟨wire, -, h⟩ := bind_ok_iff.mp h
  obtain ⟨s₁, h₁, h⟩ := bind_ok_iff.mp h
  cases h
  exact (silent_writeHead _ _ s s₁ h₁).trans ⟨rfl, rfl, rfl⟩

section

variable (g : ServingGateway) (canonical : CanonicalBackendRequest)

theorem silent_report : Silent (report g canonical) := by
  intro s s' h
  rw [report] at h
  split_ifs at h
  · exact silent_pure s s' h
  · obtain ⟨e, -, h⟩ := bind_ok_iff.mp h
    cases h
    exact ⟨rfl, rfl, rfl⟩
  · exact silent_pure s s' h
  · exact silent_writeFailure g s s' h

theorem saysNothing_endFrames (s : Serving) : SaysNothing s (endFrames g canonical s) := by
  have hframe : ∀ (s : Serving) (frame : List UInt8), SaysNothing s (s.endFrame frame) :=
    fun _ _ => ⟨rfl, rfl, rfl⟩
  have hsome : ∀ (p : Prop) [Decidable p] (s : Serving) (frame : List UInt8),
      SaysNothing s (if p then s.endFrame frame else s) := by
    intro p _ s frame
    split_ifs
    · exact hframe s frame
    · exact ⟨rfl, rfl, rfl⟩
  exact ((hsome _ _ _).trans (hsome _ _ _)).trans (hframe _ _)

theorem silent_answer : Silent (answer g canonical) := by
  intro s s' h
  rw [answer] at h
  split_ifs at h
  · exact silent_pure s s' h
  · obtain ⟨s₁, h₁, h⟩ := bind_ok_iff.mp h
    obtain ⟨s₂, h₂, h⟩ := bind_ok_iff.mp h
    cases h
    have hframes := (silent_record _).after h₁ (saysNothing_endFrames g canonical s)
    exact ((silent_transition _ _).after h₂ hframes).trans ⟨rfl, rfl, rfl⟩
  · obtain ⟨s₁, h₁, h⟩ := bind_ok_iff.mp h
    obtain ⟨s₂, h₂, h⟩ := bind_ok_iff.mp h
    obtain ⟨s₃, h₃, h⟩ := bind_ok_iff.mp h
    have hhead : SaysNothing s₁ s₂ := (silent_writeHead _ _).after h₂ ⟨rfl, rfl, rfl⟩
    have hbody : SaysNothing s₂ s₃ := (silent_record _).after h₃ ⟨rfl, rfl, rfl⟩
    have hsent : SaysNothing s₃ s' := (silent_transition _ _).after h ⟨rfl, rfl, rfl⟩
    exact (silent_record _ s s₁ h₁).trans (hhead.trans (hbody.trans hsent))

end

theorem silent_finishUp : Silent finishUp := by
  have hlast : Silent recordLast := by
    intro s s' h
    rw [recordLast] at h
    split_ifs at h
    · exact silent_pure s s' h
    · exact silent_record _ s s' h
  have hclose : Silent fun s => s.close.record .clientDone := fun s s' h =>
    (silent_record _).after h ⟨rfl, rfl, rfl⟩
  have hdone : Silent recordDone := hlast.bind (hclose.bind (silent_record _))
  refine hdone.bind fun s s' h => ?_
  split_ifs at h
  · exact (silent_transition _ _).bind (silent_transition _ _) s s' h
  · exact silent_transition _ _ s s' h
  · exact silent_pure s s' h

theorem wrapUp_silent {g : ServingGateway} {canonical : CanonicalBackendRequest} {s s' : Serving}
    (h : wrapUp g canonical s = .ok s') : SaysNothing (requireFinish s) s' :=
  (silent_answer g canonical).bind ((silent_report g canonical).bind silent_finishUp) _ s' h

end Silent

/-! ### Codes and statuses -/

variable {g : ServingGateway} {canonical : CanonicalBackendRequest} {deadlineNs : Int}
  {script : BackendScript} {cs : List BackendChunk} {ending : Ending} {s s' : Serving}

/-- The status is the one of the code. -/
structure Coded (g : ServingGateway) (s : Serving) : Prop where
  code : s.code ≠ ""
  status : ∃ e, g.catalog.entry s.code = .ok e ∧ s.status = e.httpStatus

theorem Coded.congr {t : Serving} (h : Coded g s) (hsame : t.code = s.code ∧ t.status = s.status) :
    Coded g t := by
  obtain ⟨hcode, hstatus⟩ := hsame
  obtain ⟨e, he, hentry⟩ := h.status
  exact ⟨by rw [hcode]; exact h.code, e, by rw [hcode]; exact he, hstatus.trans hentry⟩

theorem Coded.silent {call : Serving → Attempt Serving} (hcall : Silent call) (h : Coded g s)
    (hs : call s = .ok s') : Coded g s' :=
  h.congr ⟨(hcall s s' hs).code, (hcall s s' hs).status⟩

theorem lift_eq_ok {α : Type} {a : α} {r : Except HqsbError α} (h : s.lift r = .ok a) :
    r = .ok a := by
  rcases r with e | b
  · cases h
  · cases h
    rfl

theorem lookupStatus_coded (hcode : s.code ≠ "") (h : s.lookupStatus g = .ok s') : Coded g s' := by
  obtain ⟨e, he, h⟩ := bind_ok_iff.mp h
  cases h
  exact ⟨hcode, e, lift_eq_ok he, rfl⟩

theorem cancelObserved_coded (h : cancelObserved g script s = .ok s') : Coded g s' := by
  obtain ⟨s₁, -, h⟩ := bind_ok_iff.mp h
  obtain ⟨s₂, -, h⟩ := bind_ok_iff.mp h
  obtain ⟨s₃, -, h⟩ := bind_ok_iff.mp h
  obtain ⟨s₄, -, h⟩ := bind_ok_iff.mp h
  exact lookupStatus_coded (show ("client_cancelled" : String) ≠ "" by decide) h

theorem disconnectObserved_coded (h : disconnectObserved g script s = .ok s') : Coded g s' := by
  obtain ⟨s₁, -, h⟩ := bind_ok_iff.mp h
  obtain ⟨s₂, -, h⟩ := bind_ok_iff.mp h
  obtain ⟨s₃, -, h⟩ := bind_ok_iff.mp h
  obtain ⟨s₄, -, h⟩ := bind_ok_iff.mp h
  obtain ⟨s₅, hlookup, h⟩ := bind_ok_iff.mp h
  cases h
  exact (lookupStatus_coded (show ("client_disconnected" : String) ≠ "" by decide) hlookup).congr
    ⟨rfl, rfl⟩

theorem deadlineObserved_coded (h : deadlineObserved g script s = .ok s') : Coded g s' := by
  obtain ⟨s₁, -, h⟩ := bind_ok_iff.mp h
  obtain ⟨s₂, -, h⟩ := bind_ok_iff.mp h
  exact lookupStatus_coded (show ("deadline_exceeded" : String) ≠ "" by decide) h

theorem afterRefusal_coded (hrefused : s.writeRefused = true) (hcode : s.code = "")
    (h : afterRefusal g script s = .ok s') : Coded g s' := by
  rw [afterRefusal, if_pos ⟨hrefused, hcode⟩] at h
  obtain ⟨s₁, hlookup, h⟩ := bind_ok_iff.mp h
  have hcoded := lookupStatus_coded (show ("client_disconnected" : String) ≠ "" by decide) hlookup
  obtain ⟨s₂, h₂, h⟩ := bind_ok_iff.mp h
  have hcoded := (hcoded.congr (t := { s₁ with
    ledger := { s₁.ledger with disconnected := true }
    detachedReason := "socket_write_refused" }) ⟨rfl, rfl⟩).silent (silent_cancelSession _ _) h₂
  exact (hcoded.congr (t := { s₂ with cancelPropagated := true }) ⟨rfl, rfl⟩).silent
    ((silent_transition _ _).bind ((silent_transition _ _).bind (silent_transition _ _))) h

/-- The handler looks the status up. -/
theorem onError_coded {e : HqsbError} (h : onError g e s = .ok s') : Coded g s' := by
  have hne : (if s.code = "" then { s with code := e.code } else s).code ≠ "" := by
    split_ifs with hcode
    · exact code_ne_empty e
    · exact hcode
  obtain ⟨s₁, hlookup, h⟩ := bind_ok_iff.mp h
  have hcoded := lookupStatus_coded hne hlookup
  obtain ⟨m, hm, -⟩ := failed_eq
    { s₁ with detachedReason := e.errorType ++ ": " ++ e.message } e
  simp only [hm] at h
  have hcoded := hcoded.congr (t := { s₁ with
    detachedReason := e.errorType ++ ": " ++ e.message, machine := m }) ⟨rfl, rfl⟩
  split_ifs at h
  · exact hcoded.silent silent_pure h
  · exact hcoded.silent (silent_writeFailure g) h

/-- **A request that fails** has the status of its code, unless its loop ended by itself. -/
theorem serveCaught_coded {m : RequestStateMachine} (hstate : m.state = .routed)
    (hending : script.ending canonical deadlineNs = (cs, ending)) (hended : ending ≠ .ended)
    (h : serveCaught g canonical deadlineNs script (.routed m script.room) = .ok s) :
    Coded g s := by
  rw [serveCaught] at h
  split at h
  · next s₀ hbody =>
    cases h
    obtain ⟨s₁, hsubmit, hbody⟩ := bind_ok_iff.mp hbody
    obtain ⟨s₂, hloop, hbody⟩ := bind_ok_iff.mp hbody
    obtain ⟨s₃, hafter, hwrap⟩ := bind_ok_iff.mp hbody
    -- a request that got this far was accepted, and left its loop as its script ends
    have hsubmitted : script.submitted canonical = .ok () := by
      rcases hsubmitted : script.submitted canonical with e | ⟨⟩
      · rw [submit_error hsubmitted] at hsubmit
        cases hsubmit
      · rfl
    obtain ⟨s₁', hsubmit', hfirst⟩ := submit_ok (g := g) hsubmitted hstate
    cases hsubmit.symm.trans hsubmit'
    rw [BackendScript.ending, hsubmitted] at hending
    change loopEnding _ _ _ _ = _ at hending
    obtain ⟨s', hdelivered, hloop'⟩ := serveLoop_eq deadlineNs hfirst script.turns
    rw [hending] at hloop'
    rw [hloop'] at hloop
    have hcoded : Coded g s₃ := by
      have hpass : Coded g s₂ → Coded g s₃ := by
        intro hcoded
        rw [afterRefusal, if_neg fun hboth => hcoded.code hboth.2] at hafter
        exact hcoded.silent silent_pure hafter
      cases ending with
      | cancelled => exact hpass (cancelObserved_coded hloop)
      | disconnected => exact hpass (disconnectObserved_coded hloop)
      | expired => exact hpass (deadlineObserved_coded hloop)
      | refused c =>
        obtain ⟨s'', hdeliver, hrefused⟩ := deliver_refused hdelivered
          (loopEnding_refused (congrArg Prod.snd hending)) c
        rw [endLoop, hdeliver] at hloop
        cases hloop
        exact afterRefusal_coded hrefused.writeRefused hrefused.code hafter
      | ended => exact absurd rfl hended
      | failed e => cases hloop
    have hkeep : requireFinish s₃ = s₃ := if_neg fun hboth => hcoded.code hboth.1
    have hkept := wrapUp_silent hwrap
    rw [hkeep] at hkept
    exact hcoded.congr ⟨hkept.code, hkept.status⟩
  · exact onError_coded h
  · cases h

/-- **A stream that ends without a finish reason**: nobody looks its status up. -/
theorem serveCaught_unfinished {m : RequestStateMachine} (hstate : m.state = .routed)
    (hending : script.ending canonical deadlineNs = (cs, .ended)) (hreason : lastReason cs = "")
    (hhas : g.catalog.Has "protocol_failure")
    (h : serveCaught g canonical deadlineNs script (.routed m script.room) = .ok s) :
    s.status = 200 := by
  obtain ⟨s₀, hdelivered, hserve⟩ := serveCaught_ended g canonical deadlineNs script hstate hending
  have hfinish : (requireFinish s₀).code = "protocol_failure" := by
    rw [requireFinish, if_pos ⟨hdelivered.code, hdelivered.finishReason.trans hreason⟩]
  obtain ⟨e, he⟩ := ErrorCatalog.entry_of_has hhas
  obtain ⟨m', stamps, frames, rawSse, responseBody, hwrap, -⟩ := wrapUp_failure canonical
    (by rw [hfinish]; decide) (by rw [hfinish]; exact he) hdelivered.standing.stream_of_head
    hdelivered.standing.writer_nil
    fun t ht => hdelivered.standing.stamps t (.tail _ (.tail _ ht))
  rw [hwrap, h] at hserve
  have hstatus : s.status = s₀.status := by rw [Except.ok.inj hserve]
  exact hstatus.trans hdelivered.status

/-! ### Complete answers -/

/-- The tokens that a request has received are those of the first turns of its script. -/
theorem received_prefix (stream : Bool) (deadlineNs : Int) (last : Signals × Except HqsbError Unit)
    (turns : List Turn) :
    (loopEnding stream deadlineNs last turns).2.received (loopEnding stream deadlineNs last turns).1
      <+: turns.map (·.chunk) := by
  have hsignals : ∀ {signals : Signals} {ending : Ending},
      signals.ending deadlineNs = some ending → ending.received [] = [] := by
    intro signals ending h
    rw [Signals.ending] at h
    split_ifs at h <;> cases h <;> rfl
  induction turns with
  | nil =>
    rw [loopEnding, lastEnding]
    split
    · next hsome =>
      rw [hsignals hsome]
      exact nil_prefix
    · exact prefix_rfl
    · exact prefix_rfl
  | cons t turns ih =>
    rw [loopEnding]
    split
    · next hsome =>
      rw [hsignals hsome]
      exact nil_prefix
    · split_ifs
      · exact (prefix_append [t.chunk] (turns.map (·.chunk)))
      · have hcons : ∀ (ending : Ending) (cs : List BackendChunk),
            ending.received (t.chunk :: cs) = t.chunk :: ending.received cs := by
          intro ending cs
          cases ending <;> rfl
        rw [hcons]
        exact (prefix_cons_inj t.chunk).mpr ih

theorem ending_generated (hending : script.ending canonical deadlineNs = (cs, ending)) :
    (script.turns.take (ending.received cs).length).map (·.chunk) = ending.received cs := by
  have hbegins : ending.received cs <+: script.turns.map (·.chunk) := by
    rw [BackendScript.ending] at hending
    rcases hsubmitted : script.submitted canonical with e | ⟨⟩
    · rw [hsubmitted] at hending
      cases hending
      exact nil_prefix
    · rw [hsubmitted] at hending
      have hreceived := received_prefix canonical.stream deadlineNs script.last script.turns
      change loopEnding _ _ _ _ = _ at hending
      rwa [hending] at hreceived
  rw [map_take]
  exact (prefix_iff_eq_take.mp hbegins).symm

variable {room : Option Nat} {code : String} {o : ServingOutcome} {a : Approach}

variable (g canonical room) in
/-- The last frames of an answer begin with its finish reason. -/
theorem taken_endItems (reason : String) (usage : List (String × Json)) :
    (room = some 0 ∧ taken room (endItems g canonical reason usage) = []) ∨
      ∃ items, taken room (endItems g canonical reason usage) =
        .data (finishPayload canonical reason) :: items := by
  rcases room with - | - | n
  · exact .inr ⟨_, rfl⟩
  · exact .inl ⟨rfl, rfl⟩
  · exact .inr ⟨_, rfl⟩

theorem itemWrite_inj {p q : Json} (hp : g.codec.Carries p) (hq : g.codec.Carries q)
    (h : itemWrite g (.data p) = itemWrite g (.data q)) : p = q := by
  have hline := congrArg Utf8.decode (Write.body.inj h)
  simp only [SseItem.encode, encodeDataFrame, encodeLine, Utf8.decode_encode] at hline
  have hdumps := append_cancel_left (append_cancel_right hline)
  have hloads := hp.loads_dumps
  rw [hdumps, hq.loads_dumps] at hloads
  exact (Option.some.inj (Except.ok.inj hloads)).symm

theorem mem_calls {sent writes : List Write} {write : Write}
    (h : write ∈ (ResponseWriter.calls ⟨sent, room⟩ writes).sent) :
    write ∈ sent ∨ write ∈ writes := by
  induction writes generalizing sent room with
  | nil => exact .inl h
  | cons first writes ih =>
    have hcall : ((⟨sent, room⟩ : ResponseWriter).call first).sent = sent ∨
        ((⟨sent, room⟩ : ResponseWriter).call first).sent = sent ++ [first] := by
      cases first with
      | body bytes =>
        rw [ResponseWriter.call]
        split_ifs
        · exact .inl rfl
        · exact .inr rfl
      | head => exact .inr rfl
      | close => exact .inr rfl
    have hrest : write ∈ ((⟨sent, room⟩ : ResponseWriter).call first).sent ∨ write ∈ writes := ih h
    rcases hrest with hmem | hmem
    · rcases hcall with hsame | hmore
      · exact .inl (hsame ▸ hmem)
      · rcases mem_append.mp (hmore ▸ hmem) with hsent | hfirst
        · exact .inl hsent
        · exact .inr (mem_singleton.mp hfirst ▸ .head _)
    · exact .inr (.tail _ hmem)

/-- An answer says nothing beside its code, and it is complete if the client takes its finish
reason. -/
theorem wrapUp_complete (h : Delivered g canonical script.room cs s) (hreason : lastReason cs ≠ "") :
    ∃ s', wrapUp g canonical s = .ok s' ∧ Answered g canonical script.room cs s' ∧
      s'.status = 200 ∧ s'.detachedReason = "" ∧
      (Complete g canonical cs s'.writer.sent ↔ script.Takes 1) := by
  obtain ⟨s', hwrap, hanswered, hsent⟩ := wrapUp_sent h hreason
  have hkept := wrapUp_silent hwrap
  rw [requireFinish_of_finish (by rw [h.finishReason]; exact hreason)] at hkept
  refine ⟨s', hwrap, hanswered, hkept.status.trans h.status,
    hkept.detachedReason.trans h.detachedReason, ?_⟩
  have htakes : script.Takes 1 ↔ script.room ≠ some 0 := by
    rw [BackendScript.Takes]
    rcases script.room with - | n
    · exact iff_of_true (fun n hn => nomatch hn) (by simp)
    · simp [Nat.one_le_iff_ne_zero]
  have hne : cs ≠ [] := by
    rintro rfl
    exact hreason lastReason_nil
  rcases hstream : canonical.stream with - | -
  · -- the body is all there is to take
    obtain ⟨body, hbody, hbytes⟩ := hsent.body hstream
    rw [hanswered.body hstream, hbytes, htakes]
    generalize script.room = room
    constructor
    · rintro hcomplete rfl
      obtain ⟨body', -, hsame⟩ := hcomplete.body hstream
      exact absurd (congrArg List.length hsame) (show ¬ 2 = 3 by decide)
    · intro hroom
      refine ⟨hreason, fun h => by simp [hstream] at h, fun _ => ⟨body, hbody, ?_⟩⟩
      rcases room with - | - | n
      · rfl
      · exact absurd rfl hroom
      · rfl
  · -- the finish frame is the first one behind the chunks
    rw [hanswered.stream hstream, streamWrites_eq hne, sent_stream, htakes]
    have hitems : Complete g canonical cs (closedWrites g (deltaItems canonical cs ++
          taken script.room (endItems g canonical (lastReason cs) (lastUsage cs)))) ↔
        [itemWrite g (.data (finishPayload canonical (lastReason cs)))] <+:
          (taken script.room (endItems g canonical (lastReason cs) (lastUsage cs))).map
            (itemWrite g) ++ [Write.close] := by
      have hwrites : streamWrites g canonical cs = _ := streamWrites_eq hne
      constructor
      · intro hcomplete
        have hp := hcomplete.stream hstream
        rw [hwrites, closedWrites, map_append, cons_append, cons_append, append_assoc,
          prefix_cons_inj, prefix_append_right_inj] at hp
        exact hp
      · intro hp
        refine ⟨hreason, fun _ => ?_, fun h => by simp [hstream] at h⟩
        rw [hwrites, closedWrites, map_append, cons_append, cons_append, append_assoc,
          prefix_cons_inj, prefix_append_right_inj]
        exact hp
    rw [hitems]
    rcases taken_endItems g canonical script.room (lastReason cs) (lastUsage cs) with
      ⟨hroom, hnone⟩ | ⟨items, hsome⟩
    · rw [hnone]
      refine iff_of_false (fun hp => ?_) (not_not.mpr hroom)
      exact Write.noConfusion (cons_prefix_cons.mp hp).1
    · rw [hsome]
      refine iff_of_true ⟨_, rfl⟩ ?_
      rintro hroom
      rw [hroom] at hsome
      cases hsome

/-- **A failure** does not send a finish reason behind all chunks. -/
theorem FailedWith.not_complete {received : List BackendChunk} {caught : Bool}
    {state : RequestState} (hcarries : CarriesStream g canonical script)
    (hturns : ∀ c ∈ received, ∃ t ∈ script.turns, t.chunk = c) (hsub : ∀ c ∈ cs, c ∈ received)
    (h : FailedWith g canonical room cs received caught state code s) :
    ¬ Complete g canonical received s.writer.sent := by
  intro hcomplete
  have hne : received ≠ [] := by
    rintro rfl
    exact hcomplete.finish lastReason_nil
  obtain ⟨e, he, hwriter⟩ := h.writes
  rcases hstream : canonical.stream with - | -
  · -- the headers of a failure are not those of a body
    obtain ⟨body, -, hbody⟩ := hcomplete.body hstream
    have hhead : headWritten canonical received = false := by
      rw [headWritten, hstream]
      rfl
    have hmem : Write.head 200 (jsonHeaders (g.dumpBody (.obj body))) ∈ s.writer.sent :=
      hbody ▸ .head _
    rw [hwriter, hhead, openedWrites, if_neg (by simp [hstream])] at hmem
    rcases mem_calls hmem with hopen | hfailure
    · cases hopen
    · rcases caught with - | - <;> simp [failureWrites, jsonHeaders] at hfailure
  · -- the frame with the finish reason is neither a chunk's nor the error's
    have hfinish : g.codec.Carries (finishPayload canonical (lastReason received)) := by
      refine carries_answer hcarries hturns hcomplete.finish _ (mem_append_left _ ?_)
      exact mem_append_right _ (.head _)
    have hhead : headWritten canonical received = true := by
      simp [headWritten, hstream, hne]
    have hmem := (hcomplete.stream hstream).subset (mem_append_right _ (.head _))
    rw [hwriter, hhead, openedWrites, if_pos ⟨hstream, hne⟩] at hmem
    rcases mem_calls hmem with hopen | hfailure
    · obtain ⟨c, hc, hframe⟩ := mem_map.mp (mem_of_ne_of_mem (by simp [itemWrite]) hopen)
      obtain ⟨t, ht, rfl⟩ := hturns c (hsub c hc)
      have hpayload := itemWrite_inj (hcarries.delta t ht) hfinish hframe
      simp [deltaPayload, finishPayload, chunkPayload] at hpayload
    · have herror : itemWrite g (.data (finishPayload canonical (lastReason received))) =
          itemWrite g (.data (errorPayload canonical (ErrorCatalog.errorBody e ""))) := by
        rcases caught with - | -
        · rcases mem_cons.mp hfailure with hframe | hclose
          · exact hframe
          · exact Write.noConfusion (mem_singleton.mp hclose)
        · cases hfailure
      have hpayload := itemWrite_inj hfinish (hcarries.error _ e he) herror
      simp [errorPayload, finishPayload, chunkPayload] at hpayload

/-! ### Serving -/

theorem serve_inv {selection : RouteSelection} {s₀ : Serving}
    (h : serve g canonical deadlineNs script selection s₀ = .ok (s, o)) :
    serveCaught g canonical deadlineNs script s₀ = .ok s ∧ o = s.outcome canonical selection := by
  obtain ⟨s₁, hcaught, h⟩ := bind_ok_iff.mp h
  obtain ⟨-, -, h⟩ := bind_ok_iff.mp h
  cases h
  exact ⟨hcaught, rfl⟩

/-- A request that failed with a code speaks for itself if the code has a status of its own. -/
theorem consistent_failed {x : Exchange} (hx : x.canonical = .ok canonical) (hcode : o.code ≠ "")
    (hcomplete : ¬ Complete g canonical (x.generated s) s.writer.sent) :
    Consistent g x s o ↔ o.status ≠ 200 := by
  constructor
  · exact fun h hstatus => hcode (h.status.mpr hstatus)
  · intro hstatus
    refine ⟨iff_of_false hcode hstatus, iff_of_false ?_ ?_⟩
    · simp [ServingOutcome.ok, hstatus]
    · rintro ⟨canonical', hcanonical, hcomplete'⟩
      cases hx.symm.trans hcanonical
      exact hcomplete hcomplete'

/-- **A served request** speaks for itself exactly if its ending does. -/
theorem serve_consistent_iff {x : Exchange} {m : RequestStateMachine} (hstate : m.state = .routed)
    (hx : x.canonical = .ok canonical) (hcarries : CarriesStream g canonical x.script)
    (hending : x.script.ending canonical deadlineNs = (cs, ending)) {selection : RouteSelection}
    (h : serve g canonical deadlineNs x.script selection (.routed m x.script.room) = .ok (s, o)) :
    Consistent g x s o ↔ ending.Speaks g x.script cs := by
  obtain ⟨hcaught, rfl⟩ := serve_inv h
  obtain ⟨hanswered, hfails⟩ := serveCaught_eq g canonical deadlineNs x.script hstate hending
  have hgenerated : ∀ {received : List BackendChunk},
      Counted canonical cs received s → ending.received cs = received →
        x.generated s = received := by
    rintro received hcounted rfl
    have hcount : s.ledger.generated = (ending.received cs).length :=
      congrArg (fun l => (l.headD ("", 0)).2) hcounted.counts
    rw [Exchange.generated, hcount]
    exact ending_generated hending
  by_cases hcode : ending.code x.script cs = ""
  · -- the answer is whole, so all depends on what the client takes
    obtain ⟨rfl, hreason⟩ := Ending.of_code x.script cs hcode
    obtain ⟨s₀, hdelivered, hserve⟩ :=
      serveCaught_ended g canonical deadlineNs x.script hstate hending
    obtain ⟨s', hwrap, hs', hstatus, hdetached, hcomplete⟩ := wrapUp_complete hdelivered hreason
    rw [hwrap, hcaught] at hserve
    cases hserve
    have hok : (s.outcome canonical selection).ok = true := by
      show (s.status == 200 && s.detachedReason == "") = true
      rw [hstatus, hdetached]
      rfl
    rw [← hgenerated hs'.toCounted rfl] at hcomplete
    constructor
    · intro hconsistent
      obtain ⟨canonical', hcanonical, hcomplete'⟩ := hconsistent.ok.mp hok
      cases hx.symm.trans hcanonical
      exact ⟨hreason, hcomplete.mp hcomplete'⟩
    · rintro ⟨-, htakes⟩
      exact ⟨iff_of_true hs'.code hstatus, iff_of_true hok ⟨canonical, hx, hcomplete.mpr htakes⟩⟩
  · -- what failed is never complete, so all depends on its status
    have hhas : g.catalog.Has (ending.code x.script cs) := by
      by_contra hhas
      obtain ⟨e, s', hraised, -⟩ := (hfails hcode).unknown hhas
      rw [hcaught] at hraised
      cases hraised
    obtain ⟨s', hs', hfailed⟩ := (hfails hcode).reported hhas
    cases hcaught.symm.trans hs'
    have hsub : ∀ c ∈ cs, c ∈ ending.received cs := by
      intro c hc
      cases ending <;> first | exact hc | exact mem_append_left _ hc
    have hnot := hfailed.not_complete hcarries (fun c hc => ending_mem hending hc) hsub
    rw [← hgenerated hfailed.toCounted rfl] at hnot
    have hne : s.code ≠ "" := by rw [hfailed.code]; exact hcode
    rw [consistent_failed hx (o := s.outcome canonical selection) hne hnot]
    show s.status ≠ 200 ↔ _
    by_cases hended : ending = .ended
    · subst hended
      have hreason : lastReason cs = "" := by
        by_contra hreason
        exact hcode (if_neg hreason)
      rw [Ending.code, if_pos hreason] at hhas
      rw [serveCaught_unfinished hstate hending hreason hhas hcaught]
      exact iff_of_false (not_not.mpr rfl) fun hspeaks => hspeaks.1 hreason
    · obtain ⟨hne', e, he, hstatus⟩ := serveCaught_coded hstate hending hended hcaught
      rw [hfailed.code] at he
      have hspeaks : ending.Speaks g x.script cs ↔ g.Refuses (ending.code x.script cs) := by
        cases ending with
        | ended => exact absurd rfl hended
        | _ => exact Iff.rfl
      rw [hspeaks, hstatus]
      constructor
      · intro hne200 e' he'
        cases he.symm.trans he'
        exact hne200
      · exact fun hrefuses => hrefuses e he

/-! ### Requests that are not served -/

variable {service : ServiceState} {x : Exchange} {o : ServingOutcome}

/-- What the approach of a course tells, if it gets to an outcome. -/
def Course.Tells (g : ServingGateway) (a : Approach) : Course → Prop
  | control => ∃ s o, a = .done s o ∧ o.detachedReason = "" ∧ o.code = "" ∧ o.status = 200
  | rejected _ code => ∃ s o, a = .done s o ∧ o.detachedReason = "" ∧ o.code = code ∧
      ∃ e, g.catalog.entry code = .ok e ∧ o.status = e.httpStatus
  | _ => True

theorem handleControl_tells
    (h : (handleControl g service x s >>= fun r => pure (.done r.1 r.2)) = .ok a) :
    Course.control.Tells g a := by
  obtain ⟨r, hr, h⟩ := bind_ok_iff.mp h
  cases h
  obtain ⟨s₁, -, hr⟩ := bind_ok_iff.mp hr
  obtain ⟨s₂, -, hr⟩ := bind_ok_iff.mp hr
  cases hr
  exact ⟨_, _, rfl, rfl, rfl, rfl⟩

theorem turnAway_tells {state : RequestState} {reason : String} {retryAfterMs : Int}
    (h : turnAway g s code reason retryAfterMs = .ok a) :
    (Course.rejected state code).Tells g a := by
  obtain ⟨r, hr, h⟩ := bind_ok_iff.mp h
  cases h
  obtain ⟨e, he, hr⟩ := bind_ok_iff.mp hr
  obtain ⟨wire, -, hr⟩ := bind_ok_iff.mp hr
  obtain ⟨s₁, -, hr⟩ := bind_ok_iff.mp hr
  obtain ⟨s₂, -, hr⟩ := bind_ok_iff.mp hr
  obtain ⟨s₃, -, hr⟩ := bind_ok_iff.mp hr
  obtain ⟨s₄, -, hr⟩ := bind_ok_iff.mp hr
  cases hr
  exact ⟨_, _, rfl, rfl, rfl, e, lift_eq_ok he, rfl⟩

theorem approach_tells (h : approach g service x = .ok a) : (x.course g service).Tells g a := by
  rw [approach] at h
  rw [Exchange.course]
  by_cases hcontrol : x.path ∈ ["/healthz", "/readyz", "/metrics"]
  · rw [if_pos hcontrol] at h ⊢
    exact handleControl_tells h
  rw [if_neg hcontrol] at h ⊢
  by_cases hpath : x.path ∉ g.endpoints
  · rw [if_pos hpath] at h ⊢
    exact turnAway_tells h
  rw [if_neg hpath] at h ⊢
  by_cases hmethod : x.method ≠ "POST"
  · rw [if_pos hmethod] at h ⊢
    exact turnAway_tells h
  rw [if_neg hmethod] at h ⊢
  by_cases hservice : service ≠ .serving
  · rw [if_pos hservice] at h ⊢
    exact turnAway_tells h
  rw [if_neg hservice] at h ⊢
  generalize deadlineMs g x.deadline = deadline at h ⊢
  obtain ⟨deadline, problem⟩ := deadline
  obtain ⟨s₁, -, h⟩ := bind_ok_iff.mp h
  obtain ⟨s₂, -, h⟩ := bind_ok_iff.mp h
  rcases hcanonical : x.canonical with issue | canonical <;> rw [hcanonical] at h
  · exact turnAway_tells h
  obtain ⟨s₃, -, h⟩ := bind_ok_iff.mp h
  dsimp only at h ⊢
  by_cases hproblem : problem ≠ ""
  · rw [if_pos hproblem] at h ⊢
    exact turnAway_tells h
  rw [if_neg hproblem] at h ⊢
  obtain ⟨s₄, -, h⟩ := bind_ok_iff.mp h
  obtain ⟨s₅, -, h⟩ := bind_ok_iff.mp h
  by_cases hadmitted : ¬ x.decision.admitted = true
  · rw [if_pos hadmitted] at h ⊢
    obtain ⟨⟨⟩, -, h⟩ := bind_ok_iff.mp h
    exact turnAway_tells h
  rw [if_neg hadmitted] at h ⊢
  obtain ⟨s₆, -, h⟩ := bind_ok_iff.mp h
  obtain ⟨s₇, -, h⟩ := bind_ok_iff.mp h
  rcases hselection : x.selection with - | selection <;> rw [hselection] at h
  · exact turnAway_tells h
  · rw [if_neg (by simp)]
    rcases deadline with - | ms
    · exact trivial
    · exact trivial

theorem Early.not_complete (h : Early g s) : ¬ Complete g canonical (x.generated s) s.writer.sent := by
  intro hcomplete
  refine hcomplete.finish ?_
  rw [Exchange.generated, h.ledger]
  rfl

/-! ### Every request -/

/-- **When an outcome is consistent.**  The code of an outcome that `handle` returns is empty
exactly if its status is 200, and it is `ok` exactly if the response has a finish reason and all
tokens in it, for the requests whose course says so. -/
theorem outcome_consistent_iff (h : handle g service x = .ok (s, o))
    (hcarries : ∀ canonical, x.canonical = .ok canonical → CarriesStream g canonical x.script) :
    Consistent g x s o ↔ (x.course g service).Speaks g x.script := by
  have hleaves := handle_eq g service x
  obtain ⟨a, happroach, hproceed⟩ := bind_ok_iff.mp h
  have htells := approach_tells happroach
  rcases hcourse : x.course g service with - | ⟨state, code⟩ | - | ⟨canonical, deadlineNs⟩ <;>
    rw [hcourse] at hleaves htells
  · obtain ⟨s', o', rfl, hdetached, hcode, hstatus⟩ := htells
    cases hproceed
    have hearly := hleaves.early
    rw [h] at hearly
    refine iff_of_false (fun hconsistent => ?_) not_false
    obtain ⟨canonical, -, hcomplete⟩ := hconsistent.ok.mp (by
      rw [ServingOutcome.ok, hstatus, hdetached]
      rfl)
    exact Early.not_complete hearly hcomplete
  · obtain ⟨s', o', rfl, hdetached, rfl, e, he, hstatus⟩ := htells
    cases hproceed
    have hearly := hleaves.early
    rw [h] at hearly
    have hnot : ¬ ∃ canonical, x.canonical = .ok canonical ∧
        Complete g canonical (x.generated s) s.writer.sent := fun ⟨_, _, hcomplete⟩ =>
      Early.not_complete hearly hcomplete
    constructor
    · intro hconsistent
      have hne : o.status ≠ 200 := fun h200 => hnot (hconsistent.ok.mp (by
        rw [ServingOutcome.ok, h200, hdetached]
        rfl))
      refine ⟨fun hempty => hne (hconsistent.status.mp hempty), fun e' he' => ?_⟩
      cases he.symm.trans he'
      rwa [← hstatus]
    · rintro ⟨hcode, hrefuses⟩
      have hne : o.status ≠ 200 := by
        rw [hstatus]
        exact hrefuses e he
      exact ⟨iff_of_false hcode hne, iff_of_false (by simp [ServingOutcome.ok, hne]) hnot⟩
  · obtain ⟨errorType, message, s', heq, -⟩ := hleaves
    rw [h] at heq
    cases heq
  · obtain ⟨m, selection, hstate, heq⟩ := hleaves
    rw [h] at heq
    have hcanonical := course_served hcourse
    exact serve_consistent_iff hstate hcanonical (hcarries canonical hcanonical)
      (Prod.mk.eta).symm heq.symm

/-- What `handle` returns of a request: its code, its status, and whether it is `ok`. -/
def Attempt.verdict : Attempt (Serving × ServingOutcome) → Option (String × Nat × Bool)
  | .ok (_, o) => some (o.code, o.status, o.ok)
  | .error _ => none

theorem exists_of_verdict {result : Attempt (Serving × ServingOutcome)} {status : Nat} {ok : Bool}
    (h : result.verdict = some (code, status, ok)) :
    ∃ s o, result = .ok (s, o) ∧ o.code = code ∧ o.status = status ∧ o.ok = ok := by
  rcases result with raised | ⟨s, o⟩
  · cases h
  · cases h
    exact ⟨s, o, rfl, rfl, rfl, rfl⟩

/-- A stream of one token, and its finish reason. -/
theorem outcome_consistent_token :
    ∃ s o, handle (smallGateway tokenObjects) .serving (smallExchange true tokenScript) =
        .ok (s, o) ∧
      Consistent (smallGateway tokenObjects) (smallExchange true tokenScript) s o := by
  obtain ⟨s, o, h, -⟩ := exists_of_verdict
    (show (handle (smallGateway tokenObjects) .serving (smallExchange true tokenScript)).verdict =
      some ("", 200, true) by decide +kernel)
  refine ⟨s, o, h, (outcome_consistent_iff h fun canonical hcanonical => ?_).mpr ?_⟩
  · obtain rfl : tokenRequest = canonical := Except.ok.inj hcanonical
    exact tokenScript_carries
  · rw [tokenScript_course]
    exact ⟨by decide, fun n hn => nomatch hn⟩

/-- A backend that gives no finish reason: the answer is a protocol failure with status 200, and
it is `ok`. -/
theorem unfinished_answer_ok :
    let script : BackendScript := { turns := [{ chunk := { tokenId := 7, text := "a" } }] }
    ∃ s o, handle (smallGateway []) .serving (smallExchange false script) = .ok (s, o) ∧
      o.code = "protocol_failure" ∧ o.status = 200 ∧ o.ok = true ∧
        ¬ Consistent (smallGateway []) (smallExchange false script) s o := by
  intro script
  obtain ⟨s, o, h, hcode, hstatus, hok⟩ := exists_of_verdict
    (show (handle (smallGateway []) .serving (smallExchange false script)).verdict =
      some ("protocol_failure", 200, true) by decide +kernel)
  refine ⟨s, o, h, hcode, hstatus, hok, fun hconsistent => ?_⟩
  have hempty := hconsistent.status.mpr hstatus
  rw [hcode] at hempty
  exact absurd hempty (by decide)

end Hqsb
