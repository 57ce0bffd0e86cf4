/-
Hqsb/Serving/StreamAgreement.lean

A stream and a body tell the same answer.

The chunks of a backend leave the gateway as frames or as one body.  What the client rebuilds of
the frames depends on their payloads alone (`reconstruct_items`), so both are functions of the
chunks: their texts joined, their token ids, and the last finish reason.

Main result: `stream_agrees_with_body`.
-/
import Hqsb.Serving.GatewayStream
import Hqsb.Serving.Reconstruct

namespace Hqsb

open Lib List

/-! ### Rebuilding -/

section Rebuilding

variable {codec : JsonCodec Json} {dataPrefix : List Char}

def Rebuilt.addItem (r : Rebuilt) : SseItem Json → Except PythonError Rebuilt
  | .data payload => r.add ⟨0, [], [], false, false, some payload, ""⟩
  | _ => .ok r

theorem add_frame (r : Rebuilt) (item : SseItem Json) (index : Nat) :
    r.add (item.frame codec dataPrefix index) = r.addItem item := by
  cases item <;> rfl

/-- **Only the items of a stream** matter to what is rebuilt of it. -/
theorem reconstruct_items (items : List (SseItem Json)) :
    reconstruct (SseItem.framesFrom codec dataPrefix items 0) =
      items.foldlM Rebuilt.addItem {} := by
  rw [reconstruct, SseItem.framesFrom, foldlM_map]
  generalize ({} : Rebuilt) = r
  generalize 0 = index
  induction items generalizing r index with
  | nil => rfl
  | cons item items ih =>
    rw [zipIdx_cons, foldlM_cons, add_frame]
    exact congrArg (r.addItem item >>= ·) (funext fun r' => ih r' (index + 1))

variable (canonical : CanonicalBackendRequest)

theorem addItem_delta (r : Rebuilt) (chunk : BackendChunk) :
    r.addItem (.data (deltaPayload canonical chunk)) = .ok { r with
      text := r.text ++ chunk.text
      tokenIds := r.tokenIds ++ [chunk.tokenId] } := by
  have htext : String.join [chunk.text] = chunk.text := by simp [String.join]
  show Except.ok ({ r with
    text := r.text ++ String.join [chunk.text]
    tokenIds := r.tokenIds ++ [chunk.tokenId] } : Rebuilt) = _
  rw [htext]

theorem addItem_finish (r : Rebuilt) {finishReason : String} (h : finishReason ≠ "") :
    r.addItem (.data (finishPayload canonical finishReason)) = .ok { r with finishReason } := by
  have htruthy : (Json.str finishReason).truthy = true := decide_eq_true h
  have hreason : firstReason [.obj [("index", .num 0), ("delta", .obj []),
      ("finish_reason", .str finishReason)]] = .ok finishReason :=
    if_pos htruthy
  show (firstReason [.obj [("index", .num 0), ("delta", .obj []),
      ("finish_reason", .str finishReason)]] >>= fun finishReason =>
    Except.ok ({
      text := r.text ++ ""
      tokenIds := r.tokenIds ++ []
      finishReason := if finishReason ≠ "" then finishReason else r.finishReason
      usage := r.usage } : Rebuilt)) = _
  rw [hreason, String.append_empty, append_nil]
  show Except.ok ({ r with
    finishReason := if finishReason ≠ "" then finishReason else r.finishReason } : Rebuilt) = _
  rw [if_pos h]

theorem addItem_usage (r : Rebuilt) {usage : Mapping} (h : usage ≠ []) :
    r.addItem (.data (usagePayload canonical usage)) = .ok { r with usage := some usage } := by
  show Except.ok ({
    text := r.text ++ ""
    tokenIds := r.tokenIds ++ []
    finishReason := r.finishReason
    usage := if usage ≠ [] then some usage else r.usage } : Rebuilt) = _
  rw [String.append_empty, append_nil, if_pos h]

theorem foldlM_deltas (r : Rebuilt) (chunks : List BackendChunk) :
    ((chunks.map (deltaPayload canonical)).map .data).foldlM Rebuilt.addItem r = .ok { r with
      text := r.text ++ String.join (chunks.map (·.text))
      tokenIds := r.tokenIds ++ chunks.map (·.tokenId) } := by
  induction chunks generalizing r with
  | nil => simp [String.join, pure, Except.pure]
  | cons chunk chunks ih =>
    rw [map_cons, map_cons, foldlM_cons, addItem_delta]
    refine (ih _).trans ?_
    simp only [map_cons, String.join_cons, String.append_assoc, append_assoc,
      singleton_append]

def streamedUsage (g : ServingGateway) (chunks : List BackendChunk) : Option Mapping :=
  if lastUsage chunks ≠ [] ∧ (g.emitUsageFrame ∨ canonical.includeUsage) then
    some (lastUsage chunks)
  else none

/-- **The answer of some chunks**, as their stream tells it. -/
def streamedAnswer (g : ServingGateway) (chunks : List BackendChunk) : Rebuilt where
  text := String.join (chunks.map (·.text))
  tokenIds := chunks.map (·.tokenId)
  finishReason := lastReason chunks
  usage := streamedUsage canonical g chunks

theorem foldlM_answer (g : ServingGateway) {chunks : List BackendChunk}
    (hreason : lastReason chunks ≠ "") :
    ((answerPayloads g canonical chunks).map SseItem.data ++ [SseItem.terminal]).foldlM
      Rebuilt.addItem {} = .ok (streamedAnswer canonical g chunks) := by
  rw [answerPayloads, map_append, map_append, append_assoc, append_assoc,
    foldlM_append, foldlM_deltas]
  show ((([finishPayload canonical (lastReason chunks)].map SseItem.data) ++ _).foldlM
    Rebuilt.addItem _) = _
  rw [map_singleton, singleton_append, foldlM_cons, addItem_finish _ _ hreason]
  show List.foldlM Rebuilt.addItem _ _ = _
  rw [streamedAnswer, streamedUsage]
  split_ifs with husage
  · rw [map_singleton, singleton_append, foldlM_cons, addItem_usage _ _ husage.1]
    rfl
  · rfl

end Rebuilding

/-! ### The body -/

section Body

variable (canonical : CanonicalBackendRequest) {s : Serving} {chunks : List BackendChunk}

/-- **The body of some chunks**: its choice and its usage. -/
structure BodyOf (chunks : List BackendChunk) (body : Mapping) : Prop where
  choice : ∃ choice, bodyChoice body = .ok choice ∧
    choice.lookup "text" = some (.str (String.join (chunks.map (·.text)))) ∧
    choice.lookup "token_ids" = some (.arr ((chunks.map (·.tokenId)).map .num)) ∧
    choice.lookup "finish_reason" = some (.str (lastReason chunks))
  usage : lastUsage chunks ≠ [] → body.lookup "usage" = some (.obj (lastUsage chunks))

theorem bodyOf_response (hframes : s.contentFrames = chunks.map fun c => (c.text, [c.tokenId]))
    (hreason : s.finishReason = lastReason chunks) (husage : s.usage = lastUsage chunks) :
    ∃ body, normalizeResponse canonical (responsePayload canonical s) = .obj body ∧
      BodyOf chunks body := by
  have htext : s.contentFrames.map Prod.fst = chunks.map (·.text) := by
    rw [hframes, map_map]
    rfl
  have htokens : s.contentFrames.flatMap Prod.snd = chunks.map (·.tokenId) := by
    rw [hframes, flatMap_map]
    exact flatMap_pure_eq_map _ chunks
  have hmembers : lastUsage chunks ≠ [] → (if s.usage ≠ [] then s.usage
      else [("prompt_tokens", .num canonical.promptTokens),
        ("completion_tokens", .num s.ledger.committed),
        ("total_tokens", .num (canonical.promptTokens + s.ledger.committed))]) =
      lastUsage chunks := fun hne => by rw [husage, if_pos hne]
  rw [responsePayload, htext, htokens, hreason]
  by_cases hchat : canonical.endpoint.endsWith "chat/completions" = true
  · rw [if_pos hchat]
    exact ⟨_, rfl, ⟨⟨_, rfl, rfl, rfl, rfl⟩,
      fun hne => congrArg (some ∘ Json.obj) (hmembers hne)⟩⟩
  · rw [if_neg hchat]
    exact ⟨_, rfl, ⟨⟨_, rfl, rfl, rfl, rfl⟩,
      fun hne => congrArg (some ∘ Json.obj) (hmembers hne)⟩⟩

end Body

/-! ### The oracle -/

theorem usageDiffers_self (usage : Mapping) (name : String) :
    usageDiffers usage usage name = false := by
  rw [usageDiffers.eq_def]
  rcases usage.lookup name with - | value
  · rfl
  · have hsame : value.same value = true := decide_eq_true rfl
    cases value <;> simp [hsame]

theorem tokensDiffer_self {choice : Mapping} {tokenIds : List Int}
    (h : choice.lookup "token_ids" = some (.arr (tokenIds.map .num))) :
    tokensDiffer choice tokenIds = .ok false := by
  have hall : ((tokenIds.map Json.num).zip tokenIds).all (fun e => e.1.isInt e.2) = true := by
    clear h
    induction tokenIds with
    | nil => rfl
    | cons n tokenIds ih =>
      have hint : (Json.num n).isInt n = true := decide_eq_true rfl
      rw [map_cons, zip_cons_cons, all_cons, ih, hint]
      rfl
  rw [tokensDiffer, h]
  show Except.ok _ = _
  rw [hall]
  simp

/-- **The oracle finds nothing** to say of the answer and the body of the same chunks. -/
theorem streamVsNonstream_ok {canonical : CanonicalBackendRequest} {g : ServingGateway}
    {chunks : List BackendChunk} {frames : List (SseFrame Json)} {body : Mapping}
    (hrebuilt : reconstruct frames = .ok (streamedAnswer canonical g chunks))
    (hbody : BodyOf chunks body) : ∃ report, streamVsNonstream frames body = .ok report ∧
      report.problems = [] ∧ report.reconstructed = streamedAnswer canonical g chunks ∧
      report.finalText = .str (String.join (chunks.map (·.text))) := by
  obtain ⟨choice, hchoice, htext, htokens, hreason⟩ := hbody.choice
  have hfinal : finalText choice = .ok (.str (String.join (chunks.map (·.text)))) := by
    rw [finalText, htext]
    rfl
  have hdiffers : tokensDiffer choice (streamedAnswer canonical g chunks).tokenIds = .ok false :=
    tokensDiffer_self htokens
  have husage : ∀ streamed, (streamedAnswer canonical g chunks).usage = some streamed →
      body.lookup "usage" = some (.obj streamed) := by
    intro streamed hstreamed
    rw [streamedAnswer, streamedUsage] at hstreamed
    split_ifs at hstreamed with hne
    cases hstreamed
    exact hbody.usage hne.1
  refine ⟨⟨[], streamedAnswer canonical g chunks, .str (String.join (chunks.map (·.text)))⟩, ?_,
    rfl, rfl, rfl⟩
  apply bind_ok_iff.mpr
  refine ⟨_, hrebuilt, ?_⟩
  apply bind_ok_iff.mpr
  refine ⟨_, hchoice, ?_⟩
  apply bind_ok_iff.mpr
  refine ⟨_, hfinal, ?_⟩
  apply bind_ok_iff.mpr
  refine ⟨_, hdiffers, ?_⟩
  apply bind_ok_iff.mpr
  refine ⟨[], ?_, ?_⟩
  · rw [differingUsage.eq_def]
    rcases hstreamed : (streamedAnswer canonical g chunks).usage with - | streamed
    · rcases body.lookup "usage" with - | value <;> rfl
    · rw [husage streamed hstreamed]
      have hsame : ["prompt_tokens", "completion_tokens", "total_tokens"].filter
          (usageDiffers streamed streamed) = [] := by
        simp [usageDiffers_self]
      show (if (Json.obj streamed).truthy then Except.ok (List.filter _ _) else Except.ok []) = _
      rw [hsame, ite_self]
  · rw [hreason]
    simp [streamedAnswer, Json.str?, pure, Except.pure]

/-! ### Served chunks -/

/-- Nothing keeps the loop from its next chunk. -/
def Signals.Quiet (signals : Signals) (deadlineNs : Int) : Prop :=
  signals.cancelled = false ∧ signals.connected = true ∧ signals.now ≤ deadlineNs

/-- **A script plays some chunks** to a client that stays and takes every frame, without a cancel
and within the deadline. -/
structure BackendScript.Plays (script : BackendScript) (canonical : CanonicalBackendRequest)
    (deadlineNs : Int) (chunks : List BackendChunk) : Prop where
  submitted : script.submitted canonical = .ok ()
  chunks : script.turns.map (·.chunk) = chunks
  quiet : ∀ t ∈ script.turns, t.signals.Quiet deadlineNs ∧ t.accepted = true
  ended : script.last.1.Quiet deadlineNs ∧ script.last.2 = .ok ()
  stays : script.room = none

section Served

variable {g : ServingGateway} {canonical : CanonicalBackendRequest} {deadlineNs : Int}
  {script : BackendScript} {room : Option Nat} {chunks : List BackendChunk}

theorem Signals.Quiet.ending_eq {signals : Signals} (h : signals.Quiet deadlineNs) :
    signals.ending deadlineNs = none := by
  obtain ⟨hcancelled, hconnected, hnow⟩ := h
  rw [Signals.ending, hcancelled, hconnected, if_neg Bool.false_ne_true,
    if_neg (not_not.mpr rfl), if_neg hnow.not_gt]

theorem BackendScript.Plays.ending_eq (h : script.Plays canonical deadlineNs chunks) :
    script.ending canonical deadlineNs = (chunks, .ended) := by
  have hlast : lastEnding deadlineNs script.last = .ended := by
    rw [lastEnding.eq_def, h.ended.1.ending_eq, h.ended.2]
  have hloop : ∀ turns : List Turn, (∀ t ∈ turns, t.signals.Quiet deadlineNs ∧ t.accepted = true) →
      loopEnding canonical.stream deadlineNs script.last turns =
        (turns.map (·.chunk), .ended) := by
    intro turns hquiet
    induction turns with
    | nil => rw [loopEnding, hlast, map_nil]
    | cons t turns ih =>
      obtain ⟨hsignals, haccepted⟩ := hquiet t mem_cons_self
      rw [loopEnding, hsignals.ending_eq, haccepted, ih fun t ht =>
        hquiet t (.tail _ ht)]
      simp
  rw [BackendScript.ending, h.submitted]
  show loopEnding _ _ _ _ = _
  rw [hloop script.turns h.quiet, h.chunks]

theorem lastReason_ne_empty (h : ∃ c ∈ chunks, c.finishReason ≠ "") : lastReason chunks ≠ "" := by
  induction chunks using List.reverseRecOn with
  | nil => simp at h
  | append_singleton chunks c ih =>
    rw [lastReason_concat]
    split_ifs with hc
    · exact hc
    · obtain ⟨c', hc', hreason⟩ := h
      rcases mem_append.mp hc' with hold | hnew
      · exact ih ⟨c', hold, hreason⟩
      · exact absurd (mem_singleton.mp hnew ▸ hreason) hc

/-- What an answered request has sent. -/
structure Sent (g : ServingGateway) (canonical : CanonicalBackendRequest)
    (chunks : List BackendChunk) (s : Serving) : Prop where
  raw : canonical.stream = true → s.rawSse =
    ((answerPayloads g canonical chunks).map SseItem.data ++ [SseItem.terminal]).flatMap
      (SseItem.encode g.codec g.dataPrefix)
  body : canonical.stream = false → ∃ body, BodyOf chunks body ∧
    s.responseBody = g.dumpBody (.obj body)

theorem wrapUp_sent {s : Serving} (h : Delivered g canonical room chunks s)
    (hreason : lastReason chunks ≠ "") :
    ∃ s', wrapUp g canonical s = .ok s' ∧ Answered g canonical room chunks s' ∧
      Sent g canonical chunks s' := by
  obtain ⟨s', hwrap, hanswered, hraw, hbody⟩ := wrapUp_answered h hreason
  refine ⟨s', hwrap, hanswered, ⟨fun hstream => ?_, fun hstream => ?_⟩⟩
  · rw [hraw hstream, h.rawSse, answerPayloads, endItems]
    simp only [flatMap_append, flatMap_map, append_assoc]
    split_ifs <;> rfl
  · have hframes := h.contentFrames
    rw [hstream] at hframes
    obtain ⟨body, hresponse, hbodyOf⟩ := bodyOf_response canonical hframes h.finishReason h.usage
    exact ⟨body, hbodyOf, by rw [hbody hstream, hresponse]⟩

theorem serve_sent {m : RequestStateMachine} (hstate : m.state = .routed)
    (hplays : script.Plays canonical deadlineNs chunks) (hcommitted : ∀ c ∈ chunks, c.committed)
    (hreason : lastReason chunks ≠ "") (selection : RouteSelection) :
    ∃ s, serve g canonical deadlineNs script selection (.routed m script.room) =
        .ok (s, s.outcome canonical selection) ∧ Answered g canonical script.room chunks s ∧
      Sent g canonical chunks s := by
  obtain ⟨s, hdelivered, hserve⟩ :=
    serveCaught_ended g canonical deadlineNs script hstate hplays.ending_eq
  obtain ⟨s', hwrap, hanswered, hsent⟩ := wrapUp_sent hdelivered hreason
  have hproblems : s'.ledger.problems = [] := by
    rw [hanswered.problems_eq_nil_iff, countP_eq_length.mpr hcommitted]
  rw [hwrap] at hserve
  exact ⟨s', serve_ok hserve hproblems selection, hanswered, hsent⟩

end Served

/-! ### Agreement -/

/-- **Streamed and whole answers agree.**  Two requests for the same model, one for a stream and
one for a body, whose backends play the same committed chunks with a finish reason, both return.
The stream is parsed without an error, and what is rebuilt of it has the text, the token ids and
the finish reason of the body, so that the oracle finds nothing. -/
theorem stream_agrees_with_body (g : ServingGateway) (service service' : ServiceState)
    (x x' : Exchange) (canonical canonical' : CanonicalBackendRequest)
    (deadlineNs deadlineNs' : Int)
    (hcourse : x.course g service = .served canonical deadlineNs)
    (hcourse' : x'.course g service' = .served canonical' deadlineNs')
    (hstream : canonical.stream = true) (hwhole : canonical'.stream = false)
    (chunks : List BackendChunk) (hplays : x.script.Plays canonical deadlineNs chunks)
    (hplays' : x'.script.Plays canonical' deadlineNs' chunks)
    (hcommitted : ∀ c ∈ chunks, c.committed) (hfinish : ∃ c ∈ chunks, c.finishReason ≠ "")
    (hfield : IsDataField g.dataPrefix)
    (hcarries : ∀ p ∈ answerPayloads g canonical chunks, g.codec.Carries p) :
    ∃ s o s' o' body choice rebuilt report,
      handle g service x = .ok (s, o) ∧ handle g service' x' = .ok (s', o') ∧
      .body (g.dumpBody (.obj body)) ∈ s'.writer.sent ∧
      (parseStream g.codec o.rawSse).state.errors = [] ∧
      reconstruct (parseStream g.codec o.rawSse).state.frames = .ok rebuilt ∧
      bodyChoice body = .ok choice ∧
      choice.lookup "text" = some (.str rebuilt.text) ∧
      choice.lookup "token_ids" = some (.arr (rebuilt.tokenIds.map .num)) ∧
      choice.lookup "finish_reason" = some (.str rebuilt.finishReason) ∧
      rebuilt.text = String.join (chunks.map (·.text)) ∧
      rebuilt.tokenIds = chunks.map (·.tokenId) ∧
      streamVsNonstream (parseStream g.codec o.rawSse).state.frames body = .ok report ∧
      report.ok = true := by
  have hreason := lastReason_ne_empty hfinish
  have hleaves := handle_eq g service x
  have hleaves' := handle_eq g service' x'
  rw [hcourse] at hleaves
  rw [hcourse'] at hleaves'
  obtain ⟨m, selection, hstate, hhandle⟩ := hleaves
  obtain ⟨m', selection', hstate', hhandle'⟩ := hleaves'
  obtain ⟨s, hserve, -, hsent⟩ := serve_sent (g := g) hstate hplays hcommitted hreason selection
  obtain ⟨s', hserve', hanswered, hsent'⟩ :=
    serve_sent (g := g) hstate' hplays' hcommitted hreason selection'
  obtain ⟨body, hbody, hdump⟩ := hsent'.body hwhole
  have hwrite : .body s'.responseBody ∈ s'.writer.sent := by
    rw [hanswered.body hwhole, hplays'.stays]
    exact .tail _ (.head _)
  obtain ⟨choice, hchoice, htext, htokens, hfinished⟩ := hbody.choice
  -- the stream, read back
  have hitems : ∀ item ∈ (answerPayloads g canonical chunks).map SseItem.data ++
      [SseItem.terminal], item.Plain g.codec := by
    intro item hitem
    rcases mem_append.mp hitem with hdata | hterminal
    · obtain ⟨p, hp, rfl⟩ := mem_map.mp hdata
      exact hcarries p hp
    · obtain rfl := mem_singleton.mp hterminal
      trivial
  have hparsed := feedAll_items hfield hitems
    (show [s.rawSse].flatten = _ by rw [flatten_singleton, hsent.raw hstream])
  have hrebuilt : reconstruct (parseStream g.codec s.rawSse).state.frames =
      .ok (streamedAnswer canonical g chunks) := by
    show reconstruct (SseReassembler.feedAll g.codec defaultTerminalMarker
      [s.rawSse]).state.frames = _
    rw [hparsed]
    exact (reconstruct_items _).trans (foldlM_answer canonical g hreason)
  have herrors : (parseStream g.codec s.rawSse).state.errors = [] := by
    show (SseReassembler.feedAll g.codec defaultTerminalMarker
      [s.rawSse]).finish.state.errors = []
    rw [hparsed]
    rfl
  obtain ⟨report, hreport, hproblems, -, -⟩ := streamVsNonstream_ok hrebuilt hbody
  refine ⟨s, s.outcome canonical selection, s', s'.outcome canonical' selection', body, choice,
    streamedAnswer canonical g chunks, report, hhandle.trans hserve, hhandle'.trans hserve', ?_,
    herrors, hrebuilt, hchoice, htext, htokens, hfinished, rfl, rfl, hreport, ?_⟩
  · rw [← hdump]
    exact hwrite
  · rw [PairReport.ok, hproblems]
    rfl

/-- An empty delta, and a last chunk with a text. -/
theorem stream_agrees_with_body_twice :
    let chunks : List BackendChunk :=
      [{ tokenId := 7, text := "" }, { tokenId := 8, text := "b", finishReason := "stop" }]
    let script : BackendScript := { turns := chunks.map fun chunk => { chunk } }
    let canonical : CanonicalBackendRequest := {
      requestId := "r", endpoint := "/v1/completions", modelAlias := "m", modelIdentity := []
      promptTokens := 1, stream := true, includeUsage := false }
    let g := smallGateway (answerPayloads (smallGateway []) canonical chunks)
    ∃ s o s' o' body choice rebuilt report,
      handle g .serving (smallExchange true script) = .ok (s, o) ∧
      handle g .serving (smallExchange false script) = .ok (s', o') ∧
      .body (g.dumpBody (.obj body)) ∈ s'.writer.sent ∧
      (parseStream g.codec o.rawSse).state.errors = [] ∧
      reconstruct (parseStream g.codec o.rawSse).state.frames = .ok rebuilt ∧
      bodyChoice body = .ok choice ∧
      choice.lookup "text" = some (.str rebuilt.text) ∧
      choice.lookup "token_ids" = some (.arr (rebuilt.tokenIds.map .num)) ∧
      choice.lookup "finish_reason" = some (.str rebuilt.finishReason) ∧
      rebuilt.text = String.join (chunks.map (·.text)) ∧
      rebuilt.tokenIds = chunks.map (·.tokenId) ∧
      streamVsNonstream (parseStream g.codec o.rawSse).state.frames body = .ok report ∧
      report.ok = true := by
  intro chunks script canonical g
  have hdeadline : deadlineNs 0 30000 = 30000000000 := by decide +kernel
  have hcourse : ∀ stream, (smallExchange stream script).course g .serving =
      .served { canonical with stream } (deadlineNs 0 30000) := fun stream => rfl
  have hplays : ∀ canonical' : CanonicalBackendRequest,
      script.Plays canonical' (deadlineNs 0 30000) chunks := by
    intro canonical'
    have hnow : (0 : Int) ≤ 30000000000 := by decide
    rw [hdeadline]
    refine ⟨rfl, rfl, ?_, ⟨⟨rfl, rfl, hnow⟩, rfl⟩, rfl⟩
    intro t ht
    obtain ⟨chunk, -, rfl⟩ := mem_map.mp ht
    exact ⟨⟨rfl, rfl, hnow⟩, rfl⟩
  have hcarries : ∀ p ∈ answerPayloads g canonical chunks, g.codec.Carries p :=
    carries_object (by decide) (by decide)
  exact stream_agrees_with_body g .serving .serving (smallExchange true script)
    (smallExchange false script) canonical { canonical with stream := false }
    (deadlineNs 0 30000) (deadlineNs 0 30000) (hcourse true) (hcourse false) rfl rfl chunks
    (hplays _) (hplays _) (by decide) ⟨_, .tail _ (.head _), by decide⟩ (.inl rfl) hcarries

end Hqsb
