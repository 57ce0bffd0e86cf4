/-
Hqsb/Runtime/RequestLog.lean

The event log of a run, request by request.

`Logged` counts: a row was accepted once, it has a terminal event exactly if it
is terminal, and no activity of a request follows its terminal event.
`Continues` says that no row is lost: an accepted row stays, as a later version
of the same request.  `requests_end_once` puts both together for runs that
return.
-/
import Hqsb.Runtime.EngineRuns

namespace Hqsb

open Lib Engine List OrderedDict

variable {σ : Type} {S : Session σ}

/-! ### Kinds of events -/

namespace Event

def acceptedId : Event → Option String
  | .requestAccepted requestId .. => some requestId
  | _ => none

def terminalId : Event → Option String
  | .requestTerminal requestId .. => some requestId
  | _ => none

def activityId : Event → Option String
  | .token requestId .. | .kvCommit requestId .. | .kvReserve requestId ..
  | .requestPreempted requestId _ => some requestId
  | _ => none

end Event

/-- `b` is no activity of a request that `a` ended. -/
def Quiet (a b : Event) : Prop := ∀ id, a.terminalId = some id → b.activityId ≠ some id

/-! ### Counting -/

/-- A row of `id` is there and terminal. -/
def isEnded (e : Engine σ) (id : String) : Bool :=
  (e.rows.get? id).any fun row => decide (row.state = .terminal)

structure Logged (e : Engine σ) : Prop where
  accepted : ∀ id, (e.events.filterMap Event.acceptedId).count id =
    if id ∈ e.rows.keys then 1 else 0
  terminal : ∀ id, (e.events.filterMap Event.terminalId).count id =
    if isEnded e id then 1 else 0
  quiet : e.events.Pairwise Quiet

/-- The events `new` tell that one row became `row`. -/
structure Tells (e e' : Engine σ) (row : Sequence) (new : List Event) : Prop where
  rows : ∀ id, e'.rows.get? id = if id = row.id then some row else e.rows.get? id
  events : e'.events = e.events ++ new
  live : isEnded e row.id = false
  accepted : new.filterMap Event.acceptedId = if row.id ∈ e.rows.keys then [] else [row.id]
  terminal : new.filterMap Event.terminalId = if row.state = .terminal then [row.id] else []
  activity : ∀ id ∈ new.filterMap Event.activityId, id = row.id
  quiet : new.Pairwise Quiet

variable {e e' : Engine σ} {row : Sequence} {c : Config σ} {x : σ} {s : Submission}
  {batch : List Message}

theorem Logged.tells {new : List Event} (h : Logged e) (ht : Tells e e' row new) : Logged e' where
  accepted id := by
    have hkeys : id ∈ e'.rows.keys ↔ id = row.id ∨ id ∈ e.rows.keys := by
      rw [← isSome_get?_iff, ← isSome_get?_iff, ht.rows]
      split_ifs with hid <;> simp [hid]
    rw [ht.events, filterMap_append, count_append, h.accepted, ht.accepted]
    by_cases hid : id = row.id
    · subst hid
      by_cases hk : row.id ∈ e.rows.keys <;> simp [hkeys, hk]
    · have hne : row.id ≠ id := Ne.symm hid
      by_cases hk : row.id ∈ e.rows.keys <;> simp [hkeys, hk, hid, hne]
  terminal id := by
    have hended : isEnded e' id = if id = row.id then decide (row.state = .terminal)
        else isEnded e id := by
      rw [isEnded, ht.rows]
      split_ifs <;> rfl
    rw [ht.events, filterMap_append, count_append, h.terminal, ht.terminal, hended]
    by_cases hid : id = row.id
    · subst hid
      by_cases hr : row.state = .terminal <;> simp [hr, ht.live]
    · have hne : row.id ≠ id := Ne.symm hid
      by_cases hr : row.state = .terminal <;> simp [hr, hid, hne]
  quiet := by
    rw [ht.events]
    refine pairwise_append.mpr ⟨h.quiet, ht.quiet, fun a ha b hb id hterm hact => ?_⟩
    -- the row was live, so nothing before tells its end
    obtain rfl := ht.activity id (mem_filterMap.mpr ⟨b, hb, hact⟩)
    have hcount := h.terminal row.id
    rw [ht.live, if_neg (by simp), count_eq_zero] at hcount
    exact hcount (mem_filterMap.mpr ⟨a, ha, hterm⟩)

theorem Logged.notes (h : Logged e) (hn : Notes e e') : Logged e' := by
  obtain ⟨new, he, hnew⟩ := hn.events
  have hnone : ∀ ev ∈ new, ev.acceptedId = none ∧ ev.terminalId = none ∧ ev.activityId = none := by
    intro ev hev
    have := hnew ev hev
    cases ev <;> first | exact ⟨rfl, rfl, rfl⟩ | cases this
  have hended : isEnded e' = isEnded e := by
    funext id
    rw [isEnded, hn.rows]
    rfl
  refine ⟨fun id => ?_, fun id => ?_, ?_⟩
  · rw [he, filterMap_append,
      filterMap_eq_nil_iff.mpr fun ev hev => (hnone ev hev).1, append_nil, hn.rows]
    exact h.accepted id
  · rw [he, filterMap_append,
      filterMap_eq_nil_iff.mpr fun ev hev => (hnone ev hev).2.1, append_nil, hended]
    exact h.terminal id
  · rw [he]
    refine pairwise_append.mpr ⟨h.quiet, ?_, fun a _ b hb id _ hact => ?_⟩
    · refine pairwise_of_forall_mem_list fun a ha b hb id hterm _ => ?_
      rw [(hnone a ha).2.1] at hterm
      cases hterm
    · rw [(hnone b hb).2.2] at hact
      cases hact

/-! ### What the methods tell -/

theorem isEnded_of_live {id : String} (h : e.rows.get? id = some row)
    (hlive : row.state ≠ .terminal) : isEnded e id = false := by
  simp [isEnded, h, hlive]

theorem filterMap_releaseEvents (e : Engine σ) (id : String) (cause : ReleaseCause) :
    (e.releaseEvents id cause).filterMap Event.acceptedId = [] ∧
      (e.releaseEvents id cause).filterMap Event.terminalId = [] ∧
      (e.releaseEvents id cause).filterMap Event.activityId = [] := by
  rw [releaseEvents]
  split <;> exact ⟨rfl, rfl, rfl⟩

theorem quiet_releaseEvents_append (e : Engine σ) (id : String) (cause : ReleaseCause)
    (last : Event) : (e.releaseEvents id cause ++ [last]).Pairwise Quiet := by
  rw [releaseEvents]
  split
  · exact pairwise_singleton _ _
  · refine List.Pairwise.cons (fun b _ id h => ?_) (pairwise_singleton _ _)
    cases h

theorem tells_finished (row : Sequence) {old : Sequence} (hold : e.rows.get? row.id = some old)
    (hlive : old.state ≠ .terminal) (reason : Reason) (error : Option String) (now : ℚ) :
    Tells e (e.finished S row reason error now) (ended row reason error now)
      (e.releaseEvents row.id (.finished reason) ++
        [.requestTerminal row.id reason error row.output.length row.consumed]) := by
  obtain ⟨h1, h2, h3⟩ := filterMap_releaseEvents e row.id (.finished reason)
  refine ⟨(touches_finished S e row reason error now).rows, finished_events S e row reason error now,
    isEnded_of_live hold hlive, ?_, ?_, ?_, quiet_releaseEvents_append e _ _ _⟩
  · rw [filterMap_append, h1]
    exact (if_pos (mem_keys_of_get? hold)).symm
  · rw [filterMap_append, h2]
    rfl
  · rw [filterMap_append, h3]
    exact fun id h => by cases h

theorem tells_accepted (row : Sequence) (fresh : row.id ∉ e.rows.keys)
    (hlive : row.state ≠ .terminal) :
    Tells e (e.accepted row) row [.requestAccepted row.id row.inputIds.length row.limit row.received
      row.tenant row.priority] := by
  refine ⟨(touches_accepted e row).rows, rfl, ?_, ?_, ?_, ?_, pairwise_singleton _ _⟩
  · rw [isEnded, (get?_eq_none_iff _).mpr fresh]
    rfl
  · exact (if_neg fresh).symm
  · exact (if_neg hlive).symm
  · exact fun id h => by cases h

theorem live_ofSubmission (s : Submission) : (Sequence.ofSubmission s).state ≠ .terminal := nofun

theorem tells_preempted {victim : Sequence} (hold : e.rows.get? victim.id = some victim)
    (hactive : victim.state = .active) :
    Tells e (e.preempted S victim) (evicted victim)
      (e.releaseEvents victim.id .preempted ++
        [.requestPreempted victim.id victim.output.length]) := by
  obtain ⟨h1, h2, h3⟩ := filterMap_releaseEvents e victim.id .preempted
  refine ⟨(touches_preempted S e victim).rows, append_assoc _ _ _,
    isEnded_of_live hold (by rw [hactive]; decide), ?_, ?_, ?_,
    quiet_releaseEvents_append e _ _ _⟩
  · rw [filterMap_append, h1]
    exact (if_pos (mem_keys_of_get? hold)).symm
  · rw [filterMap_append, h2]
    rfl
  · rw [filterMap_append, h3]
    exact fun id h => mem_singleton.mp h

theorem tells_activity (row : Sequence) {old : Sequence} {ev : Event}
    (hold : e.rows.get? row.id = some old) (hlive : old.state ≠ .terminal)
    (hlive' : row.state ≠ .terminal)
    (hrows : ∀ id, e'.rows.get? id = if id = row.id then some row else e.rows.get? id)
    (hevents : e'.events = e.events ++ [ev]) (hacc : ev.acceptedId = none)
    (hterm : ev.terminalId = none) (hact : ev.activityId = some row.id) : Tells e e' row [ev] := by
  refine ⟨hrows, hevents, isEnded_of_live hold hlive, ?_, ?_, ?_, pairwise_singleton _ _⟩
  · rw [if_pos (mem_keys_of_get? hold)]
    simp [hacc]
  · rw [if_neg hlive']
    simp [hterm]
  · intro id hid
    simpa [hact] using hid

/-- A commit tells the new valid length, then the token if there is one, then the end of the
row if it ends. -/
theorem Logged.committed (h : Logged e) (hold : e.rows.get? row.id = some row)
    (hactive : row.state = .active) (lease : Lease) (forwardId : String) (step : Step)
    (token : Token) (ready clock : ℚ) :
    Logged (e.committed S row lease forwardId step token ready clock) := by
  have hlive : row.state ≠ .terminal := by rw [hactive]; decide
  have hfed : Logged (e.fed row lease forwardId step ready) :=
    h.tells (tells_activity (feed row step ready) hold hlive hlive
      (touches_fed e row lease forwardId step ready).rows rfl rfl rfl rfl)
  have hget : (e.fed row lease forwardId step ready).rows.get? row.id =
      some (feed row step ready) :=
    ((touches_fed e row lease forwardId step ready).rows row.id).trans (if_pos rfl)
  have htoken : Logged ((e.fed row lease forwardId step ready).tokened (feed row step ready)
      forwardId token ready) :=
    hfed.tells (tells_activity (emitToken (feed row step ready) token ready) hget hlive hlive
      (touches_tokened _ (feed row step ready) forwardId token ready).rows rfl rfl rfl rfl)
  have hget' := ((touches_tokened (e.fed row lease forwardId step ready) (feed row step ready)
    forwardId token ready).rows row.id).trans (if_pos rfl)
  rcases committed_cases S e row lease forwardId step token ready clock with
    ⟨reason, -, -, hc⟩ | ⟨-, hc⟩ | ⟨-, -, hc⟩ | ⟨-, reason, -, hc⟩
  all_goals rw [hc]
  · exact hfed.tells (tells_finished (feed row step ready) hget hlive reason none clock)
  · exact hfed
  · exact htoken
  · exact htoken.tells (tells_finished (emitToken (feed row step ready) token ready) hget'
      hlive reason none clock)

theorem Logged.act {s s' : Ledger σ} (hI : Inv S s) (hact : Act S s s') (h : Logged s.1) :
    Logged s'.1 := by
  cases hact with
  | note notes => exact h.notes notes
  | @accept e s fresh fits =>
    exact h.tells (tells_accepted (.ofSubmission s) fresh (live_ofSubmission s))
  | @reject e s fresh error now =>
    refine (h.tells (tells_accepted (.ofSubmission s) fresh (live_ofSubmission s))).tells
      (tells_finished (.ofSubmission s) ?_ (live_ofSubmission s) .rejected (some error) now)
    exact ((touches_accepted e (.ofSubmission s)).rows _).trans (if_pos rfl)
  | @finish e row hrow hlive reason forced error now =>
    exact h.tells (tells_finished row hrow hlive reason error now)
  | @preempt e victim hrow hactive hchunked => exact h.tells (tells_preempted hrow hactive)
  | @admission e e' row lease now hrow hwaiting hcap admits =>
    exact h.tells (tells_activity (activated row now) hrow (by rw [hwaiting]; decide)
      (by simp [activated]) admits.touches.rows admits.events rfl rfl rfl)
  | prepare => exact { h with }
  | @execute e e' steps forwardId tokens x hsteps executed notes =>
    have hx : Logged { e with executor := x } := { h with }
    exact hx.notes notes
  | @commit e row lease step token pending hrow hlease forwardId ready clock =>
    obtain ⟨row', hrow', hactive, -⟩ := hI.pending.row step (by simp)
    cases hrow.symm.trans hrow'
    exact h.committed (by rw [hI.row_id hrow]; exact hrow) hactive lease forwardId step token ready
      clock

theorem reachable_logged (h : (S.machine x).Reachable c) : Logged c.engine :=
  reachable_invariant (P := fun s => Logged s.1)
    ⟨fun _ => rfl, fun _ => rfl, List.Pairwise.nil⟩ (fun _ _ hI hact => Logged.act hI hact) h

/-! ### No row is lost -/

/-- Every row of `e` is in `e'`, as a version of the same request. -/
def Continues (e e' : Engine σ) : Prop :=
  ∀ id row, e.rows.get? id = some row →
    ∃ row', e'.rows.get? id = some row' ∧ Sequence.SameRequest row row'

theorem Continues.refl (e : Engine σ) : Continues e e := fun _ row h => ⟨row, h, .refl row⟩

theorem Continues.trans {e'' : Engine σ} (h : Continues e e') (h' : Continues e' e'') :
    Continues e e'' := by
  intro id row hrow
  obtain ⟨row', hrow', hsame⟩ := h id row hrow
  obtain ⟨row'', hrow'', hsame'⟩ := h' id row' hrow'
  exact ⟨row'', hrow'', hsame.trans hsame'⟩

theorem Continues.mem_keys (h : Continues e e') {id : String} (hid : id ∈ e.rows.keys) :
    id ∈ e'.rows.keys := by
  obtain ⟨row, hrow⟩ := e.rows.mem_keys_iff.mp hid
  obtain ⟨row', hrow', -⟩ := h id row hrow
  exact mem_keys_of_get? hrow'

theorem continues_of_touches {lease : Option Lease} (ht : Touches e e' row lease)
    (hold : ∀ old, e.rows.get? row.id = some old → Sequence.SameRequest old row) :
    Continues e e' := by
  intro id old hrow
  rw [ht.rows]
  split_ifs with hid
  · exact ⟨row, rfl, hold old (by rw [← hid]; exact hrow)⟩
  · exact ⟨old, hrow, .refl old⟩

theorem continues_of_same (row : Sequence) {row' : Sequence} {lease : Option Lease}
    (hrow : e.rows.get? row.id = some row) (ht : Touches e e' row' lease)
    (hsame : Sequence.SameRequest row row') : Continues e e' := by
  refine continues_of_touches ht fun old hold => ?_
  rw [hsame.id] at hold
  cases hrow.symm.trans hold
  exact hsame

section Same

open Sequence

variable (row : Sequence)

theorem sameRequest_ended (reason : Reason) (error : Option String) (now : ℚ) :
    SameRequest row (ended row reason error now) := by constructor <;> rfl

theorem sameRequest_evicted : SameRequest row (evicted row) := by constructor <;> rfl

theorem sameRequest_activated (now : ℚ) : SameRequest row (activated row now) := by
  constructor <;> rfl

theorem sameRequest_feed (step : Step) (ready : ℚ) : SameRequest row (feed row step ready) := by
  constructor <;> rfl

theorem sameRequest_emitToken (token : Token) (ready : ℚ) :
    SameRequest row (emitToken row token ready) := by constructor <;> rfl

end Same

theorem continues_accepted (fresh : s.id ∉ e.rows.keys) :
    Continues e (e.accepted (.ofSubmission s)) :=
  continues_of_touches (touches_accepted e (.ofSubmission s)) fun _ hold =>
    absurd (mem_keys_of_get? hold) fresh

theorem continues_finished (row : Sequence) (hrow : e.rows.get? row.id = some row)
    (reason : Reason) (error : Option String) (now : ℚ) :
    Continues e (e.finished S row reason error now) :=
  continues_of_same row hrow (touches_finished S e row reason error now)
    (sameRequest_ended row reason error now)

theorem continues_committed (hrow : e.rows.get? row.id = some row) (lease : Lease)
    (forwardId : String) (step : Step) (token : Token) (ready clock : ℚ) :
    Continues e (e.committed S row lease forwardId step token ready clock) := by
  have htf := touches_fed e row lease forwardId step ready
  have htt := touches_tokened (e.fed row lease forwardId step ready) (feed row step ready)
    forwardId token ready
  have hfed := continues_of_same row hrow htf (sameRequest_feed row step ready)
  have hget := (htf.rows row.id).trans (if_pos rfl)
  have htoken := continues_of_same (feed row step ready) hget htt
    (sameRequest_emitToken _ token ready)
  have hget' := (htt.rows row.id).trans (if_pos rfl)
  rcases committed_cases S e row lease forwardId step token ready clock with
    ⟨reason, -, -, hc⟩ | ⟨-, hc⟩ | ⟨-, -, hc⟩ | ⟨-, reason, -, hc⟩
  all_goals rw [hc]
  · exact hfed.trans (continues_finished (feed row step ready) hget _ _ _)
  · exact hfed
  · exact hfed.trans htoken
  · exact (hfed.trans htoken).trans
      (continues_finished (emitToken (feed row step ready) token ready) hget' _ _ _)

theorem continues_act {s s' : Ledger σ} (hI : Inv S s) (hact : Act S s s') :
    Continues s.1 s'.1 := by
  cases hact with
  | @note e e' pending notes =>
    intro id row hrow
    exact ⟨row, by rw [notes.rows]; exact hrow, .refl row⟩
  | accept fresh fits => exact continues_accepted fresh
  | @reject e s fresh error now =>
    refine (continues_accepted fresh).trans (continues_finished _ ?_ _ _ _)
    exact ((touches_accepted e (.ofSubmission s)).rows _).trans (if_pos rfl)
  | finish hrow => exact continues_finished _ hrow _ _ _
  | preempt hrow =>
    exact continues_of_same _ hrow (touches_preempted S _ _) (sameRequest_evicted _)
  | admission hrow hwaiting hcap admits =>
    exact continues_of_same _ hrow admits.touches (sameRequest_activated _ _)
  | prepare => exact Continues.refl _
  | @execute e e' steps forwardId tokens x hsteps executed notes =>
    intro id row hrow
    exact ⟨row, by rw [notes.rows]; exact hrow, .refl row⟩
  | commit hrow =>
    exact continues_committed (by rw [hI.row_id hrow]; exact hrow) _ _ _ _ _ _

theorem continues_runFrom (hr : (S.machine x).Reachable c) (readings : List Reading) :
    Continues c.engine ((S.machine x).runFrom c readings).engine := by
  have key := Machine.runFrom_invariant (m := S.machine x)
    (P := fun c' => (S.machine x).Reachable c' ∧ Continues c.engine c'.engine)
    (fun c' reading h => ?_) ⟨hr, Continues.refl _⟩ readings
  · exact key.2
  · obtain ⟨hI, hP⟩ := reachable_inv h.1
    refine ⟨h.1.step reading, ?_⟩
    exact (acts_invariant (P := fun s => Continues c.engine s.1)
      (fun s s' hI hact h => h.trans (continues_act hI hact)) (step_moves hI hP reading).acts hI
      h.2).2

/-! ### What becomes of a submission -/

/-- A message is taken off the batch, whatever it is. -/
theorem step_receive {message : Message} (hp : c.point = .receive (message :: batch))
    (reading : Reading) :
    (S.step c reading).point = .receive batch := by
  rcases message with s | - | requestId
  · simp only [Session.step, hp, accept_eq]
    rfl
  · rw [Session.step, hp]
  · simp only [Session.step, hp, cancel, finish_eq]
    rcases c.engine.rows.get? requestId with - | row
    · rfl
    · dsimp only
      split_ifs <;> rfl

theorem step_duplicate (hp : c.point = .receive (.submit s :: batch))
    (hdup : s.id ∈ c.engine.rows.keys) (reading : Reading) :
    (S.step c reading).engine = c.engine.event (.requestRefused s.id) := by
  simp only [Session.step, hp, accept_eq]
  rw [show (Sequence.ofSubmission s).id = s.id from rfl, if_pos hdup]
  rfl

theorem step_fresh (hp : c.point = .receive (.submit s :: batch))
    (hfresh : s.id ∉ c.engine.rows.keys) (reading : Reading) :
    ∃ row, (S.step c reading).engine.rows.get? s.id = some row ∧
      Sequence.SameRequest (.ofSubmission s) row := by
  have hget := ((touches_accepted c.engine (.ofSubmission s)).rows s.id).trans (if_pos rfl)
  simp only [Session.step, hp, accept_eq]
  rw [show (Sequence.ofSubmission s).id = s.id from rfl, if_neg hfresh]
  rcases rejection S c.engine.kv (.ofSubmission s) with - | error
  · exact ⟨_, hget, .refl _⟩
  · exact continues_finished (.ofSubmission s) hget .rejected (some error) reading.clock
      _ _ hget

theorem mem_keys_of_submit (hr : (S.machine x).Reachable c) (hp : c.point = .receive batch)
    {readings : List Reading} {rows : List Sequence}
    (hret : ((S.machine x).runFrom c readings).point = .returned rows) (hs : .submit s ∈ batch) :
    s.id ∈ ((S.machine x).runFrom c readings).engine.rows.keys := by
  induction batch generalizing c readings with
  | nil => cases hs
  | cons message batch ih =>
    rcases readings with - | ⟨reading, readings⟩
    · rw [Machine.runFrom_nil, hp] at hret
      cases hret
    have hnext := hr.step reading
    rcases mem_cons.mp hs with rfl | hs
    · refine (continues_runFrom hnext readings).mem_keys ?_
      show s.id ∈ (S.step c reading).engine.rows.keys
      by_cases hdup : s.id ∈ c.engine.rows.keys
      · rw [step_duplicate hp hdup reading]
        exact hdup
      · obtain ⟨row, hrow, -⟩ := step_fresh hp hdup reading
        exact mem_keys_of_get? hrow
    · exact ih hnext (step_receive hp reading) hret hs

/-- What the log and the rows say about the requests of a run. -/
structure RequestsEndOnce (S : Session σ) (x : σ) (readings : List Reading) : Prop where
  /-- At every moment no output is longer than its limit. -/
  output_le : ∀ id row, ((S.machine x).run readings).engine.rows.get? id = some row →
    row.output.length ≤ row.limit
  /-- At every moment no activity of a request follows its terminal event. -/
  quiet : ((S.machine x).run readings).engine.events.Pairwise Quiet
  /-- At every moment a duplicate id changes no row and no lease. -/
  duplicate : ∀ s batch reading,
    ((S.machine x).run readings).point = .receive (.submit s :: batch) →
    s.id ∈ ((S.machine x).run readings).engine.rows.keys →
    let e := ((S.machine x).run readings).engine
    let e' := (S.step ((S.machine x).run readings) reading).engine
    e'.rows = e.rows ∧ e'.kv = e.kv ∧ e'.executor = e.executor
  /-- At return every submitted id has been accepted once and ended once. -/
  ended : ∀ rows, ((S.machine x).run readings).point = .returned rows →
    ∀ before reading after, readings = before ++ reading :: after →
    ((S.machine x).run before).point = .begin → ∀ s, .submit s ∈ reading.batch →
    (((S.machine x).run readings).engine.events.filterMap Event.acceptedId).count s.id = 1 ∧
    (((S.machine x).run readings).engine.events.filterMap Event.terminalId).count s.id = 1 ∧
    ∃ row ∈ rows, row.id = s.id ∧ row.state = .terminal
  /-- At return a fresh submission is a terminal row of the same request. -/
  fresh : ∀ rows, ((S.machine x).run readings).point = .returned rows →
    ∀ before after, readings = before ++ after → ∀ s batch,
    ((S.machine x).run before).point = .receive (.submit s :: batch) →
    s.id ∉ ((S.machine x).run before).engine.rows.keys →
    ∃ row ∈ rows, Sequence.SameRequest (.ofSubmission s) row ∧ row.state = .terminal ∧
      row.output.length ≤ s.limit

/-- **Every request ends exactly once, and none is lost.** -/
theorem requests_end_once (S : Session σ) (x : σ) (readings : List Reading) :
    RequestsEndOnce S x readings := by
  have hr := Machine.reachable_run (m := S.machine x) readings
  obtain ⟨hI, hP⟩ := reachable_inv hr
  have hlog := reachable_logged hr
  have hbounds : ∀ id row, ((S.machine x).run readings).engine.rows.get? id = some row →
      row.output.length ≤ row.limit := fun id row hrow => (hI.rowInv hrow).output_le
  refine ⟨hbounds, hlog.quiet, ?_, ?_, ?_⟩
  · intro s batch reading hp hdup
    rw [step_duplicate hp hdup reading]
    exact ⟨rfl, rfl, rfl⟩
  · intro rows hret before reading after hsplit hbegin s hs
    rw [hret] at hP
    obtain ⟨hrows, -, hterminal⟩ := hP
    have hkey : s.id ∈ ((S.machine x).run readings).engine.rows.keys := by
      have hnext := (Machine.reachable_run (m := S.machine x) before).step reading
      have hp : (S.step ((S.machine x).run before) reading).point = .receive reading.batch := by
        rw [Session.step, hbegin]
      have hrun : (S.machine x).run readings =
          (S.machine x).runFrom (S.step ((S.machine x).run before) reading) after := by
        rw [hsplit, Machine.run, Machine.runFrom_append]
        rfl
      rw [hrun] at hret ⊢
      exact mem_keys_of_submit hnext hp hret hs
    obtain ⟨row, hrow⟩ := (mem_keys_iff _).mp hkey
    have hmem : row ∈ rows := by
      rw [hrows]
      exact (mem_values_iff _).mpr ⟨s.id, hrow⟩
    refine ⟨?_, ?_, row, hmem, hI.row_id hrow, hterminal row hmem⟩
    · rw [hlog.accepted, if_pos hkey]
    · rw [hlog.terminal, if_pos]
      simp [isEnded, hrow, hterminal row hmem]
  · intro rows hret before after hsplit s batch hp hfresh
    rw [hret] at hP
    obtain ⟨hrows, -, hterminal⟩ := hP
    rcases after with - | ⟨reading, after⟩
    · rw [hsplit, append_nil, hp] at hret
      cases hret
    obtain ⟨row, hrow, hsame⟩ := step_fresh (S := S) hp hfresh reading
    have hnext := (Machine.reachable_run (m := S.machine x) before).step reading
    obtain ⟨row', hrow', hsame'⟩ := continues_runFrom hnext after s.id row hrow
    have hrun : (S.machine x).runFrom ((S.machine x).step ((S.machine x).run before) reading) after =
        (S.machine x).run readings := by
      rw [hsplit, Machine.run, Machine.run, Machine.runFrom_append]
      rfl
    rw [hrun] at hrow'
    have hmem : row' ∈ rows := by
      rw [hrows]
      exact (mem_values_iff _).mpr ⟨s.id, hrow'⟩
    have hall := hsame.trans hsame'
    refine ⟨row', hmem, hall, hterminal row' hmem, ?_⟩
    have hle := hbounds s.id row' hrow'
    rw [hall.limit] at hle
    exact hle

end Hqsb
