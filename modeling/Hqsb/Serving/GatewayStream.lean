/-
Hqsb/Serving/GatewayStream.lean

What the client of a stream reads.

Once the head of an event stream is written, the client can learn the end of its answer only from
the stream: from the terminal marker or from an error frame.  `WireContract` says that it does,
however it cuts what it reads, and that the writer is closed.

The end of the `try` body keeps the contract, whatever it reports, if the client takes it: nobody
looks at what `write_body` answers there.  The handler, which finds the head already written, adds
nothing and closes nothing.  So the contract holds exactly for the streams whose errors do not
pass through the handler and whose client takes the last frames (`wireContract_iff`).

Main result: `stream_contract_iff`.
-/
import Hqsb.Serving.GatewayCleaned

namespace Hqsb

open Lib List

/-! ### The contract -/

def SseFrame.IsError (f : SseFrame Json) : Prop := ∃ p, f.payload = some p ∧ (p.get? "error").isSome

/-- What was sent of a stream is to the client, when the request ended with a code. -/
structure WireContract (codec : JsonCodec Json) (sent : List Write) (code : String) : Prop where
  stream : ∀ reads : List (List UInt8), reads.flatten = sent.flatMap Write.bytes →
    let r := SseReassembler.feedAll codec defaultTerminalMarker reads
    r.finish.state.errors = [] ∧ r.buffer = [] ∧
      (∀ f ∈ r.state.frames, f.parseError = "") ∧
      (∀ f ∈ r.state.frames.dropLast, f.isTerminal = false) ∧
      ((∃ f ∈ r.state.frames, f.isTerminal = true) ↔ code = "") ∧
      (code ≠ "" → ∃ f ∈ r.state.frames, f.IsError)
  closed : sent.count .close = 1

/-- A request keeps the contract if there is an outcome and its writes fit the outcome's code. -/
def StreamContract (g : ServingGateway) (result : Attempt (Serving × ServingOutcome)) : Prop :=
  ∃ s, ∃ o : ServingOutcome, result = .ok (s, o) ∧ WireContract g.codec s.writer.sent o.code

/-- JSON carries every payload that a request can put into its stream. -/
structure CarriesStream (g : ServingGateway) (canonical : CanonicalBackendRequest)
    (script : BackendScript) : Prop where
  delta : ∀ t ∈ script.turns, g.codec.Carries (deltaPayload canonical t.chunk)
  finish : ∀ t ∈ script.turns, g.codec.Carries (finishPayload canonical t.chunk.finishReason)
  usage : ∀ t ∈ script.turns, g.codec.Carries (usagePayload canonical t.chunk.usage)
  error : ∀ code e, g.catalog.entry code = .ok e →
    g.codec.Carries (errorPayload canonical (ErrorCatalog.errorBody e ""))

/-- The client takes as many bodies behind the chunks. -/
def BackendScript.Takes (script : BackendScript) (bodies : Nat) : Prop :=
  ∀ room ∈ script.room, bodies ≤ room

/-- When an ending keeps the contract of an open stream: the last frames reach the client. -/
def Ending.Keeps (g : ServingGateway) (canonical : CanonicalBackendRequest)
    (script : BackendScript) (cs : List BackendChunk) : Ending → Prop
  | cancelled => script.cancel = .ok () ∧ g.catalog.Has "client_cancelled" ∧ script.Takes 1
  | expired => script.cancel = .ok () ∧ g.catalog.Has "deadline_exceeded" ∧ script.Takes 1
  | ended =>
    if lastReason cs = "" then g.catalog.Has "protocol_failure" ∧ script.Takes 1
    else script.Takes (endItems g canonical (lastReason cs) (lastUsage cs)).length
  | _ => False

def Course.Keeps (g : ServingGateway) (script : BackendScript) : Course → Prop
  | served canonical deadlineNs =>
    let (cs, ending) := script.ending canonical deadlineNs
    cs.length ≤ (ending.received cs).countP (·.committed) ∧ ending.Keeps g canonical script cs
  | _ => False

/-! ### Frames -/

section Frames

variable {g : ServingGateway} {canonical : CanonicalBackendRequest}

def SseItem.isTerminal : SseItem Json → Bool
  | terminal => true
  | _ => false

theorem isTerminal_frame (codec : JsonCodec Json) (dataPrefix : List Char) (item : SseItem Json)
    (index : Nat) : (item.frame codec dataPrefix index).isTerminal = item.isTerminal := by
  cases item <;> rfl

theorem parseError_frame (codec : JsonCodec Json) (dataPrefix : List Char) (item : SseItem Json)
    (index : Nat) : (item.frame codec dataPrefix index).parseError = "" := by
  cases item <;> rfl

theorem mem_framesFrom {codec : JsonCodec Json} {dataPrefix : List Char}
    {items : List (SseItem Json)} {index : Nat} {f : SseFrame Json}
    (h : f ∈ SseItem.framesFrom codec dataPrefix items index) :
    ∃ item ∈ items, ∃ i, f = item.frame codec dataPrefix i := by
  obtain ⟨⟨item, i⟩, hmem, rfl⟩ := mem_map.mp h
  exact ⟨item, fst_mem_of_mem_zipIdx hmem, i, rfl⟩

/-- The writes of a stream that was opened, filled and closed. -/
def closedWrites (g : ServingGateway) (items : List (SseItem Json)) : List Write :=
  .head 200 (streamHeaders g) :: items.map (itemWrite g) ++ [Write.close]

theorem bytes_closedWrites (g : ServingGateway) (items : List (SseItem Json)) :
    (closedWrites g items).flatMap Write.bytes =
      items.flatMap (SseItem.encode g.codec g.dataPrefix) := by
  rw [closedWrites, cons_append, flatMap_cons, flatMap_append, flatMap_map]
  simp only [Write.bytes, itemWrite, flatMap_cons, flatMap_nil, append_nil,
    nil_append]

theorem count_close (items : List (SseItem Json)) : (items.map (itemWrite g)).count .close = 0 := by
  refine count_eq_zero.mpr fun hmem => ?_
  obtain ⟨item, -, he⟩ := mem_map.mp hmem
  cases he

def SseItem.IsError (item : SseItem Json) : Prop :=
  ∃ p, item = .data p ∧ (p.get? "error").isSome

theorem isError_frame (codec : JsonCodec Json) (dataPrefix : List Char) (item : SseItem Json)
    (index : Nat) : (item.frame codec dataPrefix index).IsError ↔ item.IsError := by
  cases item with
  | data p =>
    constructor
    · rintro ⟨p', heq, hsome⟩
      cases heq
      exact ⟨_, rfl, hsome⟩
    · rintro ⟨p', heq, hsome⟩
      cases heq
      exact ⟨_, rfl, hsome⟩
  | heartbeat text => exact ⟨fun ⟨_, h, _⟩ => (nomatch h), fun ⟨_, h, _⟩ => (nomatch h)⟩
  | terminal => exact ⟨fun ⟨_, h, _⟩ => (nomatch h), fun ⟨_, h, _⟩ => (nomatch h)⟩

theorem framesFrom_dropLast (codec : JsonCodec Json) (dataPrefix : List Char)
    (items : List (SseItem Json)) (index : Nat) :
    (SseItem.framesFrom codec dataPrefix items index).dropLast =
      SseItem.framesFrom codec dataPrefix items.dropLast index := by
  rcases eq_nil_or_concat items with rfl | ⟨init, last, rfl⟩
  · rfl
  · rw [concat_eq_append, dropLast_concat, SseItem.framesFrom, zipIdx_append, map_append]
    exact dropLast_concat

/-- What is true of a frame whatever its index is, is true of the frames of some items. -/
theorem exists_mem_framesFrom (codec : JsonCodec Json) (dataPrefix : List Char)
    {P : SseFrame Json → Prop} {Q : SseItem Json → Prop}
    (h : ∀ item i, P (item.frame codec dataPrefix i) ↔ Q item) (items : List (SseItem Json))
    (index : Nat) :
    (∃ f ∈ SseItem.framesFrom codec dataPrefix items index, P f) ↔ ∃ item ∈ items, Q item := by
  constructor
  · rintro ⟨f, hf, hP⟩
    obtain ⟨item, hitem, i, rfl⟩ := mem_framesFrom hf
    exact ⟨item, hitem, (h item i).mp hP⟩
  · rintro ⟨item, hitem, hQ⟩
    obtain ⟨i, hi, rfl⟩ := mem_iff_getElem.mp hitem
    refine ⟨_, mem_map.mpr ⟨(items[i], index + i), ?_, rfl⟩, (h _ _).mpr hQ⟩
    exact mk_add_mem_zipIdx_iff_getElem?.mpr (List.getElem?_eq_getElem hi)

/-- **What a client reads** of a stream that was opened, filled with data and possibly the marker
at its end, and closed. -/
theorem wireContract_iff (hfield : IsDataField g.dataPrefix) {items : List (SseItem Json)}
    (hitems : ∀ item ∈ items, item.Plain g.codec)
    (hinner : ∀ item ∈ items.dropLast, item.isTerminal = false) {code : String} :
    WireContract g.codec (closedWrites g items) code ↔
      ((∃ item ∈ items, item.isTerminal = true) ↔ code = "") ∧
        (code ≠ "" → ∃ item ∈ items, item.IsError) := by
  have hterminal := exists_mem_framesFrom g.codec g.dataPrefix
    (P := fun f => f.isTerminal = true) (Q := fun item => item.isTerminal = true)
    (fun item i => by rw [isTerminal_frame]) items 0
  have herror := exists_mem_framesFrom _ _ (isError_frame g.codec g.dataPrefix) items 0
  constructor
  · intro hwire
    have hread := hwire.stream [(closedWrites g items).flatMap Write.bytes] (flatten_singleton ..)
    rw [bytes_closedWrites, feedAll_items hfield hitems (flatten_singleton ..)] at hread
    obtain ⟨-, -, -, -, hmarker, hreported⟩ := hread
    exact ⟨hterminal.symm.trans hmarker, fun hcode => herror.mp (hreported hcode)⟩
  · rintro ⟨hmarker, hreported⟩
    constructor
    · intro reads hreads
      rw [bytes_closedWrites] at hreads
      rw [feedAll_items hfield hitems hreads]
      refine ⟨rfl, rfl, ?_, ?_, hterminal.trans hmarker, fun hcode => herror.mpr (hreported hcode)⟩
      · intro f hf
        obtain ⟨item, -, i, rfl⟩ := mem_framesFrom hf
        exact parseError_frame _ _ item i
      · intro f hf
        rw [framesFrom_dropLast] at hf
        obtain ⟨item, hitem, i, rfl⟩ := mem_framesFrom hf
        rw [isTerminal_frame]
        exact hinner item hitem
    · rw [closedWrites, cons_append, count_cons_of_ne (by simp), count_append, count_close]
      rfl

end Frames

/-! ### Payloads -/

section Payloads

variable {g : ServingGateway} {canonical : CanonicalBackendRequest} {script : BackendScript}
  {deadlineNs : Int}

theorem loopEnding_mem {stream : Bool} {last : Signals × Except HqsbError Unit}
    {turns : List Turn} {c : BackendChunk}
    (h : c ∈ (loopEnding stream deadlineNs last turns).2.received
      (loopEnding stream deadlineNs last turns).1) : ∃ t ∈ turns, t.chunk = c := by
  have hnone : ∀ signals : Signals, ∀ ending ∈ signals.ending deadlineNs,
      ending.received [] = [] := by
    intro signals ending hending
    rw [Signals.ending] at hending
    split_ifs at hending <;> cases hending <;> rfl
  induction turns with
  | nil =>
    rw [loopEnding, lastEnding] at h
    split at h
    · next ending hsome =>
      have hreceived : ending.received [] = [] := hnone _ _ hsome
      rw [hreceived] at h
      cases h
    · cases h
    · cases h
  | cons t turns ih =>
    rw [loopEnding] at h
    split at h
    · next ending hsome =>
      have hreceived : ending.received [] = [] := hnone _ _ hsome
      rw [hreceived] at h
      cases h
    · split_ifs at h with hrefused
      · exact ⟨t, .head _, (mem_singleton.mp h).symm⟩
      · have hcons : ∀ (ending : Ending) cs, ending.received (t.chunk :: cs) =
            t.chunk :: ending.received cs := fun ending cs => by cases ending <;> rfl
        rw [hcons] at h
        rcases mem_cons.mp h with rfl | hmem
        · exact ⟨t, .head _, rfl⟩
        · obtain ⟨t', ht', hchunk⟩ := ih hmem
          exact ⟨t', .tail _ ht', hchunk⟩

theorem ending_mem {c : BackendChunk} {cs : List BackendChunk} {ending : Ending}
    (hending : script.ending canonical deadlineNs = (cs, ending)) (h : c ∈ ending.received cs) :
    ∃ t ∈ script.turns, t.chunk = c := by
  rw [BackendScript.ending] at hending
  rcases hsubmitted : script.submitted canonical with e | ⟨⟩
  · rw [hsubmitted] at hending
    cases hending
    cases h
  · rw [hsubmitted] at hending
    change loopEnding _ _ _ _ = _ at hending
    have hmem : c ∈ (loopEnding canonical.stream deadlineNs script.last script.turns).2.received
        (loopEnding canonical.stream deadlineNs script.last script.turns).1 := by
      rw [hending]
      exact h
    exact loopEnding_mem hmem

theorem foldl_last_mem {β : Type} (p : BackendChunk → Prop) [DecidablePred p]
    (f : BackendChunk → β) (default : β) (cs : List BackendChunk) :
    cs.foldl (fun b c => if p c then f c else b) default = default ∨
      ∃ c ∈ cs, f c = cs.foldl (fun b c => if p c then f c else b) default := by
  induction cs using List.reverseRecOn with
  | nil => exact .inl rfl
  | append_singleton cs c ih =>
    rw [foldl_append, foldl_cons]
    split_ifs with hp
    · exact .inr ⟨c, mem_append_right _ (mem_singleton_self c), rfl⟩
    · rcases ih with hnone | ⟨c', hc', he⟩
      · exact .inl hnone
      · exact .inr ⟨c', mem_append_left _ hc', he⟩

theorem lastReason_mem (cs : List BackendChunk) :
    lastReason cs = "" ∨ ∃ c ∈ cs, c.finishReason = lastReason cs :=
  foldl_last_mem (fun c => c.finishReason ≠ "") BackendChunk.finishReason "" cs

theorem lastUsage_mem (cs : List BackendChunk) :
    lastUsage cs = [] ∨ ∃ c ∈ cs, c.usage = lastUsage cs :=
  foldl_last_mem (fun c => c.usage ≠ []) BackendChunk.usage [] cs

variable {cs received : List BackendChunk}

/-- The payloads of an answer, up to its terminal marker. -/
def answerPayloads (g : ServingGateway) (canonical : CanonicalBackendRequest)
    (cs : List BackendChunk) : List Json :=
  cs.map (deltaPayload canonical) ++ [finishPayload canonical (lastReason cs)] ++
    if lastUsage cs ≠ [] ∧ (g.emitUsageFrame ∨ canonical.includeUsage) then
      [usagePayload canonical (lastUsage cs)]
    else []

theorem carries_answer (hcarries : CarriesStream g canonical script)
    (hturns : ∀ c ∈ cs, ∃ t ∈ script.turns, t.chunk = c) (hreason : lastReason cs ≠ "") :
    ∀ p ∈ answerPayloads g canonical cs, g.codec.Carries p := by
  intro p hp
  rcases mem_append.mp hp with hmem | hmem
  · rcases mem_append.mp hmem with hdelta | hfinish
    · obtain ⟨c, hc, rfl⟩ := mem_map.mp hdelta
      obtain ⟨t, ht, rfl⟩ := hturns c hc
      exact hcarries.delta t ht
    · obtain rfl := mem_singleton.mp hfinish
      obtain ⟨c, hc, he⟩ := (lastReason_mem cs).resolve_left hreason
      obtain ⟨t, ht, rfl⟩ := hturns c hc
      rw [← he]
      exact hcarries.finish t ht
  · split_ifs at hmem with husage
    · obtain rfl := mem_singleton.mp hmem
      obtain ⟨c, hc, he⟩ := (lastUsage_mem cs).resolve_left husage.1
      obtain ⟨t, ht, rfl⟩ := hturns c hc
      rw [← he]
      exact hcarries.usage t ht
    · cases hmem

def deltaItems (canonical : CanonicalBackendRequest) (cs : List BackendChunk) :
    List (SseItem Json) := cs.map fun c => .data (deltaPayload canonical c)

theorem streamWrites_eq (hne : received ≠ []) :
    streamWrites g canonical received =
      .head 200 (streamHeaders g) :: (deltaItems canonical received).map (itemWrite g) := by
  rw [streamWrites, if_neg hne, deltaItems, map_map]
  rfl

theorem answer_items : deltaItems canonical cs ++
      endItems g canonical (lastReason cs) (lastUsage cs) =
        (answerPayloads g canonical cs).map .data ++ [.terminal] := by
  rw [deltaItems, endItems, answerPayloads]
  simp only [map_append, map_map, append_assoc]
  split_ifs <;> rfl

/-- What the client takes of what is written. -/
def taken {α : Type} (room : Option Nat) (l : List α) : List α :=
  match room with
  | none => l
  | some n => l.take n

theorem sent_calls (sent : List Write) (room : Option Nat) (items : List (SseItem Json)) :
    (ResponseWriter.calls ⟨sent, room⟩ (items.map (itemWrite g) ++ [Write.close])).sent =
      sent ++ (taken room items).map (itemWrite g) ++ [Write.close] := by
  induction items generalizing sent room with
  | nil => rcases room with - | n <;> simp [ResponseWriter.calls, ResponseWriter.call, taken]
  | cons item items ih =>
    have hrest := fun room => ih (sent ++ [itemWrite g item]) room
    simp only [ResponseWriter.calls, map_cons, cons_append, foldl_cons] at hrest ⊢
    rcases room with - | - | n
    · exact (hrest none).trans (by simp [taken])
    · exact (ih sent (some 0)).trans (by simp [taken])
    · exact (hrest (some n)).trans (by simp [taken])

/-- **What a stream has sent** when it was filled, ended with some items, and closed. -/
theorem sent_stream (room : Option Nat) (received items : List (SseItem Json)) :
    (ResponseWriter.calls ⟨.head 200 (streamHeaders g) :: received.map (itemWrite g), room⟩
      (items.map (itemWrite g) ++ [Write.close])).sent =
        closedWrites g (received ++ taken room items) := by
  rw [sent_calls, closedWrites, map_append, cons_append]

theorem mem_taken {α : Type} {room : Option Nat} {l : List α} {a : α} (h : a ∈ taken room l) :
    a ∈ l := by
  rcases room with - | n
  · exact h
  · exact mem_of_mem_take h

/-- All is taken if there is room for it; else the last is not. -/
theorem taken_concat {α : Type} (room : Option Nat) (l : List α) (a : α) :
    (∀ n ∈ room, (l ++ [a]).length ≤ n) ∧ taken room (l ++ [a]) = l ++ [a] ∨
      ¬ (∀ n ∈ room, (l ++ [a]).length ≤ n) ∧ ∀ b ∈ taken room (l ++ [a]), b ∈ l := by
  rcases room with - | n
  · exact .inl ⟨fun n hn => (nomatch hn), rfl⟩
  · rcases Nat.lt_or_ge n (l ++ [a]).length with hlt | hge
    · refine .inr ⟨fun h => absurd (h n rfl) (by omega), fun b hb => ?_⟩
      rw [taken, take_append_of_le_length (by rw [length_append, length_singleton] at hlt; omega)] at hb
      exact mem_of_mem_take hb
    · exact .inl ⟨fun m hm => by cases hm; exact hge, take_of_length_le hge⟩

end Payloads

/-! ### Served streams -/

section Streams

variable {g : ServingGateway} {canonical : CanonicalBackendRequest} {script : BackendScript}
  {cs : List BackendChunk} {ending : Ending} {deadlineNs : Int} {s : Serving}

/-- A request that failed keeps the contract if its code can be reported, is not reported by the
handler, and the report is taken. -/
theorem keeps_iff (hcode : ending.code script cs ≠ "") : ending.Keeps g canonical script cs ↔
      (ending.caught script = false ∧ ∀ n ∈ ending.room script.room, 1 ≤ n) ∧
        g.catalog.Has (ending.code script cs) := by
  have hcancel : ∀ code, (script.cancel = .ok () ∧ g.catalog.Has code ∧ script.Takes 1 ↔
      (script.cancelRaises = false ∧ script.Takes 1) ∧ g.catalog.Has (script.cancelCode code)) := by
    intro code
    rw [BackendScript.cancelRaises, BackendScript.cancelCode]
    rcases script.cancel with e | ⟨⟩
    · exact ⟨fun h => (by cases h.1), fun h => (by cases h.1.1)⟩
    · exact ⟨fun h => ⟨⟨rfl, h.2.2⟩, h.2.1⟩, fun h => ⟨rfl, h.2, h.1.2⟩⟩
  have hlost : ¬ ∀ n ∈ some 0, 1 ≤ n := fun h => absurd (h 0 rfl) (by decide)
  cases ending with
  | cancelled => exact hcancel _
  | disconnected => exact ⟨fun h => h.elim, fun h => absurd h.1.2 hlost⟩
  | expired => exact hcancel _
  | refused c => exact ⟨fun h => h.elim, fun h => absurd h.1.2 hlost⟩
  | ended =>
    have hreason : lastReason cs = "" := by
      by_contra hreason
      exact hcode (if_neg hreason)
    rw [Ending.code, Ending.Keeps, if_pos hreason, if_pos hreason]
    exact ⟨fun h => ⟨⟨rfl, h.2⟩, h.1⟩, fun h => ⟨h.2, h.1.2⟩⟩
  | failed e => exact ⟨fun h => h.elim, fun h => (by cases h.1.1)⟩

theorem streamContract_ok {o : ServingOutcome} :
    StreamContract g (.ok (s, o)) ↔ WireContract g.codec s.writer.sent o.code := by
  constructor
  · rintro ⟨s', o', heq, hwire⟩
    obtain ⟨rfl, rfl⟩ := Prod.mk.inj (Except.ok.inj heq)
    exact hwire
  · exact fun hwire => ⟨s, o, rfl, hwire⟩

theorem not_streamContract_error (raised : Raised × Serving) :
    ¬ StreamContract g (.error raised) := by
  rintro ⟨s, o, heq, -⟩
  cases heq

theorem isTerminal_deltaItems {item : SseItem Json} (h : item ∈ deltaItems canonical cs) :
    item.isTerminal = false := by
  obtain ⟨c, -, rfl⟩ := mem_map.mp h
  rfl

/-- An answered stream keeps the contract if its last frames are taken. -/
theorem wireContract_answered (hfield : IsDataField g.dataPrefix)
    (hcarries : CarriesStream g canonical script)
    (hending : script.ending canonical deadlineNs = (cs, .ended)) (hreason : lastReason cs ≠ "")
    (ha : Answered g canonical room cs s) (hstream : canonical.stream = true) :
    WireContract g.codec s.writer.sent "" ↔
      ∀ n ∈ room, (endItems g canonical (lastReason cs) (lastUsage cs)).length ≤ n := by
  have hne : cs ≠ [] := by
    rintro rfl
    exact hreason lastReason_nil
  have hturns : ∀ c ∈ cs, ∃ t ∈ script.turns, t.chunk = c := fun c hc => ending_mem hending hc
  have hplain : ∀ item ∈ deltaItems canonical cs ++
      endItems g canonical (lastReason cs) (lastUsage cs), item.Plain g.codec := by
    rw [answer_items]
    intro item hitem
    rcases mem_append.mp hitem with hmem | hmem
    · obtain ⟨p, hp, rfl⟩ := mem_map.mp hmem
      exact carries_answer hcarries hturns hreason p hp
    · obtain rfl := mem_singleton.mp hmem
      trivial
  have hitems : ∀ item ∈ deltaItems canonical cs ++
      taken room (endItems g canonical (lastReason cs) (lastUsage cs)), item.Plain g.codec := by
    intro item hitem
    exact hplain item (mem_append.mpr ((mem_append.mp hitem).imp_right mem_taken))
  rw [ha.stream hstream, streamWrites_eq hne, sent_stream]
  rw [endItems] at hitems ⊢
  have hdata : ∀ item ∈ [SseItem.data (finishPayload canonical (lastReason cs))] ++
      (if lastUsage cs ≠ [] ∧ (g.emitUsageFrame ∨ canonical.includeUsage) then
        [SseItem.data (usagePayload canonical (lastUsage cs))] else []), item.isTerminal = false := by
    intro item hitem
    split_ifs at hitem <;> simp at hitem
    · rcases hitem with rfl | rfl <;> rfl
    · subst hitem
      rfl
  rcases taken_concat room _ SseItem.terminal with ⟨hroom, htaken⟩ | ⟨hroom, htaken⟩
  · -- the marker is taken, and nothing before it is one
    rw [htaken] at hitems ⊢
    refine iff_of_true ((wireContract_iff hfield hitems fun item hitem => ?_).mpr ?_) hroom
    · rw [← append_assoc, dropLast_concat] at hitem
      exact (mem_append.mp hitem).elim isTerminal_deltaItems (hdata item)
    · refine ⟨iff_of_true ⟨.terminal, by simp, rfl⟩ rfl, fun h => absurd rfl h⟩
  · have hnone : ∀ item ∈ deltaItems canonical cs ++ taken room _, item.isTerminal = false :=
      fun item hitem => (mem_append.mp hitem).elim isTerminal_deltaItems
        fun hmem => hdata item (htaken item hmem)
    refine iff_of_false (fun hwire => ?_) hroom
    obtain ⟨item, hitem, hterminal⟩ := ((wireContract_iff hfield hitems fun item hitem =>
      hnone item (mem_of_mem_dropLast hitem)).mp hwire).1.mpr rfl
    rw [hnone item hitem] at hterminal
    cases hterminal

theorem not_isError_delta (c : BackendChunk) :
    ¬ (SseItem.data (deltaPayload canonical c)).IsError := by
  rintro ⟨p, heq, hsome⟩
  cases heq
  simp [deltaPayload, chunkPayload, Json.get?] at hsome

/-- A failed stream keeps the contract if its error did not go through the handler and the frame
with it is taken. -/
theorem wireContract_failed (hfield : IsDataField g.dataPrefix)
    (hcarries : CarriesStream g canonical script)
    (hending : script.ending canonical deadlineNs = (cs, ending))
    (hcode : ending.code script cs ≠ "") {writer : ResponseWriter}
    (hwrites : Reported g canonical room cs (ending.received cs) (ending.caught script)
      (ending.code script cs) writer)
    (hhead : headWritten canonical (ending.received cs) = true) :
    WireContract g.codec writer.sent (ending.code script cs) ↔
      ending.caught script = false ∧ ∀ n ∈ room, 1 ≤ n := by
  obtain ⟨e, he, rfl⟩ := hwrites
  obtain ⟨hstream, hnonempty⟩ := Bool.and_eq_true_iff.mp hhead
  have hne : ending.received cs ≠ [] := by
    intro hnil
    rw [hnil] at hnonempty
    cases hnonempty
  have hopened : openedWrites g canonical cs (ending.received cs) =
      .head 200 (streamHeaders g) :: (deltaItems canonical cs).map (itemWrite g) := by
    rw [openedWrites, if_pos ⟨hstream, hne⟩, deltaItems, map_map]
    rfl
  rw [hopened, hhead]
  rcases hcaught : ending.caught script with - | -
  · have hplain : ∀ item ∈ deltaItems canonical cs ++ taken room
        [SseItem.data (errorPayload canonical (ErrorCatalog.errorBody e ""))],
          item.Plain g.codec ∧ item.isTerminal = false := by
      intro item hitem
      rcases mem_append.mp hitem with hmem | hmem
      · obtain ⟨c, hc, rfl⟩ := mem_map.mp hmem
        have hreceived : c ∈ ending.received cs := by
          cases ending <;> first | exact hc | exact mem_append_left _ hc
        obtain ⟨t, ht, rfl⟩ := ending_mem hending hreceived
        exact ⟨hcarries.delta t ht, rfl⟩
      · obtain rfl := mem_singleton.mp (mem_taken hmem)
        exact ⟨hcarries.error _ e he, rfl⟩
    rw [if_neg Bool.false_ne_true]
    show WireContract _ (ResponseWriter.calls _ ([SseItem.data _].map (itemWrite g) ++ _)).sent _ ↔ _
    rw [sent_stream, wireContract_iff hfield (fun item hitem => (hplain item hitem).1)
      fun item hitem => (hplain item (mem_of_mem_dropLast hitem)).2]
    have hmarker : (∃ item ∈ deltaItems canonical cs ++ taken room
        [SseItem.data (errorPayload canonical (ErrorCatalog.errorBody e ""))],
          item.isTerminal = true) ↔ ending.code script cs = "" := by
      refine iff_of_false ?_ hcode
      rintro ⟨item, hitem, hterminal⟩
      rw [(hplain item hitem).2] at hterminal
      cases hterminal
    refine (and_iff_right hmarker).trans ?_
    rw [imp_iff_right hcode]
    -- the error frame is the only one that is not a delta
    rcases room with - | - | n
    · exact iff_of_true ⟨_, mem_append_right _ (.head _), _, rfl, rfl⟩ ⟨rfl, by rintro n ⟨⟩⟩
    · refine iff_of_false ?_ fun h => absurd (h.2 0 rfl) (by decide)
      rintro ⟨item, hitem, herror⟩
      rw [taken, take_zero, append_nil] at hitem
      obtain ⟨c, -, rfl⟩ := mem_map.mp hitem
      exact not_isError_delta c herror
    · refine iff_of_true ⟨_, mem_append_right _ (.head _), _, rfl, rfl⟩ ⟨rfl, ?_⟩
      rintro m ⟨⟩
      exact Nat.succ_pos n
  · -- the handler neither reports nor closes
    refine iff_of_false (fun hwire => ?_) fun h => by cases h.1
    have hclosed := hwire.closed
    rw [if_pos rfl, if_pos rfl] at hclosed
    rw [ResponseWriter.calls, foldl_nil, count_cons_of_ne (by simp), count_close] at hclosed
    cases hclosed

/-- A request that ended with a code has opened its stream, if the head is there. -/
theorem headWritten_of_reported {received : List BackendChunk} {caught : Bool} {code : String}
    {writer : ResponseWriter} (hwrites : Reported g canonical room cs received caught code writer)
    (hhead : .head 200 (streamHeaders g) ∈ writer.sent) : headWritten canonical received = true := by
  by_contra hnot
  have hnot := Bool.eq_false_iff.mpr hnot
  obtain ⟨e, -, rfl⟩ := hwrites
  have hopened : openedWrites g canonical cs received = [] :=
    if_neg fun hopen => by simp [headWritten, hopen.1, hopen.2] at hnot
  rw [hopened, hnot] at hhead
  have hkeys : [("Content-Type", "application/json")] ≠ streamHeaders g := by
    intro h
    have hlength := congrArg List.length h
    simp [streamHeaders] at hlength
  rcases caught with - | - <;> rcases room with - | - | n <;>
    simp [failureWrites, ResponseWriter.calls, ResponseWriter.call, hkeys.symm] at hhead

theorem headers_of_mem {room : Option Nat} {headers headers' : List (String × String)}
    {body : List UInt8}
    (h : .head 200 headers' ∈
      (ResponseWriter.calls ⟨[], room⟩ [.head 200 headers, .body body, .close]).sent) :
    headers' = headers := by
  rcases room with - | - | n <;> simpa [ResponseWriter.calls, ResponseWriter.call] using h

/-- **A served stream** keeps the contract as its ending says, if its ledger audits clean. -/
theorem serve_contract_iff {m : RequestStateMachine} (hstate : m.state = .routed)
    (hfield : IsDataField g.dataPrefix) (hcarries : CarriesStream g canonical script)
    (hending : script.ending canonical deadlineNs = (cs, ending)) (selection : RouteSelection)
    (hhead : .head 200 (streamHeaders g) ∈
      (serve g canonical deadlineNs script selection (.routed m script.room)).left.writer.sent) :
    StreamContract g (serve g canonical deadlineNs script selection (.routed m script.room)) ↔
      cs.length ≤ (ending.received cs).countP (·.committed) ∧ ending.Keeps g canonical script cs := by
  obtain ⟨hanswered, hfails⟩ := serveCaught_eq g canonical deadlineNs script hstate hending
  by_cases hcode : ending.code script cs = ""
  · obtain ⟨s, hs, ha⟩ := hanswered hcode
    obtain ⟨rfl, hreason⟩ := Ending.of_code script cs hcode
    have haudit := ha.problems_eq_nil_iff
    by_cases hproblems : s.ledger.problems = []
    · rw [serve_ok hs hproblems] at hhead ⊢
      have hstream : canonical.stream = true := by
        by_contra hplain
        have hmem : Write.head 200 (streamHeaders g) ∈ s.writer.sent := hhead
        rw [ha.body (Bool.eq_false_iff.mpr hplain)] at hmem
        exact jsonHeaders_ne s.responseBody [] ((append_nil _).trans (headers_of_mem hmem).symm)
      have hwire := wireContract_answered hfield hcarries hending hreason ha hstream
      rw [streamContract_ok, Ending.Keeps, if_neg hreason]
      show WireContract g.codec s.writer.sent s.code ↔ _
      rw [ha.code, hwire]
      exact (and_iff_right (haudit.mp hproblems)).symm
    · obtain ⟨e, he⟩ := serve_audit hs hproblems selection
      rw [he]
      exact ⟨fun h => absurd h (not_streamContract_error _),
        fun h => absurd (haudit.mpr h.1) hproblems⟩
  · rw [keeps_iff hcode]
    by_cases hhas : g.catalog.Has (ending.code script cs)
    · obtain ⟨s, hs, hf⟩ := (hfails hcode).reported hhas
      have haudit := hf.problems_eq_nil_iff
      by_cases hproblems : s.ledger.problems = []
      · rw [serve_ok hs hproblems] at hhead ⊢
        have hwire := wireContract_failed hfield hcarries hending hcode hf.writes
          (headWritten_of_reported hf.writes hhead)
        rw [streamContract_ok]
        show WireContract g.codec s.writer.sent s.code ↔ _
        rw [hf.code, hwire]
        exact ⟨fun h => ⟨haudit.mp hproblems, h, hhas⟩, fun h => h.2.1⟩
      · obtain ⟨e, he⟩ := serve_audit hs hproblems selection
        rw [he]
        exact ⟨fun h => absurd h (not_streamContract_error _),
          fun h => absurd (haudit.mpr h.1) hproblems⟩
    · obtain ⟨e, s, hs, -⟩ := (hfails hcode).unknown hhas
      rw [serve_raise hs]
      exact ⟨fun h => absurd h (not_streamContract_error _), fun h => absurd h.2.2 hhas⟩

end Streams

theorem Early.no_head {g : ServingGateway} {s : Serving} (h : Early g s) :
    .head 200 (streamHeaders g) ∉ s.writer.sent := fun hmem => h.writer _ hmem rfl

/-- **When a stream keeps its contract.**  If the head of an event stream was written, then
`handle` returns an outcome and what the client was sent fits its code exactly if the course of
the request says so. -/
theorem stream_contract_iff (g : ServingGateway) (service : ServiceState) (x : Exchange)
    (hfield : IsDataField g.dataPrefix)
    (hcarries : ∀ canonical, x.canonical = .ok canonical → CarriesStream g canonical x.script)
    (hhead : .head 200 (streamHeaders g) ∈ (handle g service x).left.writer.sent) :
    StreamContract g (handle g service x) ↔ (x.course g service).Keeps g x.script := by
  have hleaves := handle_eq g service x
  rcases hcourse : x.course g service with - | ⟨state, code⟩ | - | ⟨canonical, deadlineNs⟩
  · rw [hcourse] at hleaves
    exact absurd hhead hleaves.early.no_head
  · rw [hcourse] at hleaves
    exact absurd hhead hleaves.early.no_head
  · rw [hcourse] at hleaves
    obtain ⟨errorType, message, s, heq, hearly⟩ := hleaves
    rw [heq] at hhead
    exact absurd hhead hearly.no_head
  · rw [hcourse] at hleaves
    obtain ⟨m, selection, hstate, heq⟩ := hleaves
    rw [heq] at hhead ⊢
    exact serve_contract_iff hstate hfield (hcarries canonical (course_served hcourse))
      (Prod.mk.eta).symm selection hhead

theorem carries_object {objects : List Json} (hdistinct : (objects.map Json.dumps).Nodup)
    (hplain : ∀ j ∈ objects, '\n' ∉ j.dumps ∧ j.dumps.head? = some '{') :
    ∀ j ∈ objects, (smallGateway objects).codec.Carries j := by
  intro j hj
  refine ⟨?_, (hplain j hj).1, (hplain j hj).2⟩
  have hfind : objects.find? (fun j' => decide (j'.dumps = j.dumps)) = some j := by
    induction objects with
    | nil => cases hj
    | cons j' objects ih =>
      rw [map_cons, nodup_cons] at hdistinct
      rcases mem_cons.mp hj with rfl | hmem
      · exact List.find?_cons_of_pos (decide_eq_true rfl)
      · have hne : j'.dumps ≠ j.dumps := fun he =>
          hdistinct.1 (he ▸ mem_map_of_mem hmem)
        rw [List.find?_cons_of_neg (by simpa using hne)]
        exact ih hdistinct.2 (fun i hi => hplain i (.tail _ hi)) hmem
  simp only [smallGateway, hfind]

def tokenScript : BackendScript where
  turns := [{ chunk := { tokenId := 7, text := "a", finishReason := "stop" } }]

def tokenRequest : CanonicalBackendRequest where
  requestId := "r"
  endpoint := "/v1/completions"
  modelAlias := "m"
  modelIdentity := []
  promptTokens := 1
  stream := true
  includeUsage := false

/-- The payloads that a stream of the token can have. -/
def tokenObjects : List Json :=
  (tokenScript.turns.flatMap fun t => [deltaPayload tokenRequest t.chunk,
    finishPayload tokenRequest t.chunk.finishReason, usagePayload tokenRequest t.chunk.usage]) ++
  smallCatalog.values.map fun e => errorPayload tokenRequest (ErrorCatalog.errorBody e "")

theorem tokenScript_carries :
    CarriesStream (smallGateway tokenObjects) tokenRequest tokenScript := by
  have hcarries : ∀ j ∈ tokenObjects, (smallGateway tokenObjects).codec.Carries j :=
    carries_object (by decide +kernel) (by decide +kernel)
  have hturn : ∀ t ∈ tokenScript.turns, t = { chunk := {
      tokenId := 7, text := "a", finishReason := "stop" } } := fun t ht => mem_singleton.mp ht
  constructor
  · intro t ht
    rw [hturn t ht]
    exact hcarries _ (.head _)
  · intro t ht
    rw [hturn t ht]
    exact hcarries _ (.tail _ (.head _))
  · intro t ht
    rw [hturn t ht]
    exact hcarries _ (.tail _ (.tail _ (.head _)))
  · intro code e he
    refine hcarries _ (mem_append_right _ (mem_map_of_mem ?_))
    exact ErrorCatalog.mem_values_of_entry he

theorem tokenScript_course : (smallExchange true tokenScript).course (smallGateway tokenObjects)
    .serving = .served tokenRequest 30000000000 := by
  have hdeadline : deadlineNs 0 30000 = 30000000000 := by decide +kernel
  exact congrArg (Course.served tokenRequest) hdeadline

/-- A stream of one chunk. -/
theorem stream_contract_token : StreamContract (smallGateway tokenObjects)
    (handle (smallGateway tokenObjects) .serving (smallExchange true tokenScript)) := by
  refine (stream_contract_iff (smallGateway tokenObjects) .serving
    (smallExchange true tokenScript) (.inl rfl) ?_ (by decide +kernel)).mpr ?_
  · intro canonical hcanonical
    obtain rfl : tokenRequest = canonical := Except.ok.inj hcanonical
    exact tokenScript_carries
  · rw [tokenScript_course]
    exact ⟨le_refl 1, fun n hn => nomatch hn⟩

/-- A backend that raises after its first chunk: the head is written, and nobody tells the
client. -/
theorem stream_contract_broken :
    let script : BackendScript := {
      turns := [{ chunk := { tokenId := 7, text := "a" } }]
      last := ({}, .error { errorType := "BackendError" }) }
    let result := handle (smallGateway []) .serving (smallExchange true script)
    .head 200 (streamHeaders (smallGateway [])) ∈ result.left.writer.sent ∧
      ¬ StreamContract (smallGateway []) result := by
  refine ⟨by decide +kernel, ?_⟩
  rintro ⟨s, o, heq, hwire⟩
  have hclosed := hwire.closed
  have hleft := congrArg (fun r => r.left.writer.sent.count .close) heq
  rw [show (Attempt.left (.ok (s, o)) : Serving) = s from rfl, hclosed] at hleft
  revert hleft
  decide +kernel

end Hqsb
