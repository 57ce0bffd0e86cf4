/-
Hqsb/Console/StoreReaders.lean

Readers of the event log among its writers.

A paging reader asks `events(run, cursor, limit)` again and again, its cursor being
the last number it read.  The event stream of the console is such a reader with pages
of 100, which looks at the run's snapshot after every page and returns once the run is
terminal and the cursor has come up to the snapshot's number.

Both read the part of the log between their start and their cursor, whatever is called
in between (`pagingMachine_exact`, `Streaming.run`).  The stream that returned has read
everything up to the snapshot it saw, and with a terminal run and no more writers it
does return (`Streaming.returns`).
-/
import Hqsb.Console.StoreHistory

namespace Hqsb.Console

open Lib List

namespace Store

/-! ### The log under a call -/

/-- Some history is recorded: the tables are consistent. -/
def Recorded (s : Store) : Prop := ∃ h, Records s h

variable {s : Store}

theorem Recorded.call (h : Recorded s) (c : Call) : Recorded (s.call c).2 :=
  let ⟨_, hrec⟩ := h
  ⟨_, hrec.call c⟩

theorem Recorded.rising (h : Recorded s) (id : String) : Rising RunEvent.seq (s.eventsOf id) := by
  obtain ⟨hist, hrec⟩ := h
  rw [hrec.eventsOf]
  exact Change.rising_events _ _

theorem Recorded.eventsAfter (h : Recorded s) (id : String) (after limit : Int) :
    s.eventsAfter id after limit = page RunEvent.seq after limit (s.eventsOf id) := by
  obtain ⟨hist, hrec⟩ := h
  rw [hrec.eventsAfter, hrec.eventsOf]

theorem Change.seq_events (id : String) (cs : List Change) :
    (Change.events id cs).map RunEvent.seq
      = (List.range cs.length).map fun i => ((i + 1 : Nat) : Int) := by
  apply ext_getElem
  · simp [Change.events]
  · intro i hi hi'
    simp [Change.events, Change.event]

variable {id : String}

/-- A snapshot and the events of its run: as many as its number says, numbered from one. -/
theorem Recorded.snapshot (h : Recorded s) {run : Snapshot} (hrun : s.get id = .ok run) :
    run.seq? = .ok ((s.eventsOf id).length : Int) ∧
      (s.eventsOf id).map RunEvent.seq
        = (List.range (s.eventsOf id).length).map fun i => ((i + 1 : Nat) : Int) := by
  obtain ⟨hist, hrec⟩ := h
  have hstored : s.runs.get? id = some run := by
    rw [get] at hrun
    split at hrun
    · rename_i run' hget
      rw [hget, Except.ok.inj hrun]
    · cases hrun
  have hfolded := hrec.runs id
  rw [hstored] at hfolded
  rw [hrec.eventsOf, Change.length_events]
  exact ⟨hfolded.seq?, Change.seq_events _ _⟩

/-- A call leaves the log of a run alone or appends one event to it. -/
theorem Recorded.eventsOf_call (h : Recorded s) (c : Call) (id : String) :
    (s.call c).2.eventsOf id = s.eventsOf id ∨
      ∃ e, (s.call c).2.eventsOf id = s.eventsOf id ++ [e] ∧
        ∀ f ∈ s.eventsOf id, f.seq < e.seq := by
  obtain ⟨hist, hrec⟩ := h
  rw [(hrec.call c).eventsOf, hrec.eventsOf, changesOf]
  rcases hx : changeOf id (c, (s.call c).1) with - | change
  · left
    simp [changesOf, hx]
  · right
    refine ⟨Change.event id (changesOf id hist).length change, ?_, fun f hf => ?_⟩
    · rw [← Change.events_concat]
      simp [changesOf, hx]
    · have := (Change.mem_events hf).2.2
      simp only [Change.event]
      omega

variable {r : Reader RunEvent}

theorem Recorded.exact_call (h : Recorded s) {start : Int}
    (hr : r.Exact RunEvent.seq start (s.eventsOf id)) (c : Call) :
    r.Exact RunEvent.seq start ((s.call c).2.eventsOf id) := by
  rcases h.eventsOf_call c id with heq | ⟨e, heq, hlt⟩
  · rwa [heq]
  · rw [heq]
    exact hr.append hlt

theorem Recorded.exact_page (h : Recorded s) {start : Int}
    (hr : r.Exact RunEvent.seq start (s.eventsOf id)) (limit : Int) :
    (r.take RunEvent.seq (s.eventsAfter id r.cursor limit)).Exact RunEvent.seq start
      (s.eventsOf id) := by
  rw [h.eventsAfter]
  exact hr.page (h.rising id) limit

/-! ### Paging -/

/-- A reader of run `id` among the callers: a number is the limit of its next page. -/
def pagingMachine (id : String) (start : Int) : Machine (Store × Reader RunEvent) (Call ⊕ Int) where
  init := (empty, .start RunEvent start)
  step
    | (s, r), .inl c => ((s.call c).2, r)
    | (s, r), .inr limit => (s, r.take RunEvent.seq (s.eventsAfter id r.cursor limit))

/-- **Paging among writers**: what was read is the part of the log up to the cursor. -/
theorem pagingMachine_exact (id : String) (start : Int) (is : List (Call ⊕ Int)) :
    Recorded ((pagingMachine id start).run is).1 ∧
      ((pagingMachine id start).run is).2.Exact RunEvent.seq start
        (((pagingMachine id start).run is).1.eventsOf id) := by
  apply Machine.runFrom_invariant (m := pagingMachine id start)
    (P := fun x => Recorded x.1 ∧ x.2.Exact RunEvent.seq start (x.1.eventsOf id))
  · rintro ⟨s, r⟩ (c | limit) ⟨hs, hr⟩
    · exact ⟨hs.call c, hs.exact_call hr c⟩
    · exact ⟨hs, hs.exact_page hr limit⟩
  · exact ⟨⟨[], records_empty⟩, Reader.exact_start start _⟩

/-- **Paging behind the writers**: enough pages read the rest of the log. -/
theorem Recorded.read_all (h : Recorded s) {start : Int}
    (hr : r.Exact RunEvent.seq start (s.eventsOf id)) {limits : List Int}
    (hlimits : ∀ limit ∈ limits, limit ≠ 0) (hlen : (s.eventsOf id).length ≤ limits.length) :
    ((pagingMachine id start).runFrom (s, r) (limits.map .inr)).2.read
      = behind RunEvent.seq start (s.eventsOf id) := by
  have hpages : ∀ (r : Reader RunEvent) (limits : List Int),
      (pagingMachine id start).runFrom (s, r) (limits.map .inr)
        = (s, Reader.readPages RunEvent.seq (s.eventsOf id) r limits) := by
    intro r limits
    induction limits generalizing r with
    | nil => rfl
    | cons limit limits ih =>
      show (pagingMachine id start).runFrom (s, r.take RunEvent.seq (s.eventsAfter id _ _)) _ = _
      rw [ih, h.eventsAfter]
      rfl
  rw [hpages]
  exact hr.readPages (h.rising id) hlimits ((length_filter_le _ _).trans hlen)

/-! ### The event stream -/

inductive StreamPhase where
  | fetch
  | check
  | returned (snapshot : Snapshot)
  | raised (error : StoreError)

/-- A stream with what it has sent. -/
structure EventStream where
  reader : Reader RunEvent
  phase : StreamPhase

/-- Why a stream is refused. -/
inductive StreamRefusal where
  | store (error : StoreError)
  | invalidLastEventId
  | cursorAhead

/-- The cursor a stream starts from.  The `Last-Event-ID` comes cut at its last colon;
`some none` is one that cannot be read. -/
def startCursor (runId : String) (after : Nat) (lastEventId : Option (Option (String × Int))) :
    Except StreamRefusal Int :=
  match lastEventId with
  | none => .ok after
  | some none => .error .invalidLastEventId
  | some (some (resource, seq)) =>
    if resource ≠ runId then .error .invalidLastEventId else .ok (max (after : Int) seq)

/-- `events` of the console, up to the response. -/
def openStream (s : Store) (runId : String) (after : Nat)
    (lastEventId : Option (Option (String × Int))) : Except StreamRefusal EventStream :=
  match s.get runId with
  | .error e => .error (.store e)
  | .ok current =>
    match startCursor runId after lastEventId, current.seq? with
    | .error e, _ => .error e
    | _, .error e => .error (.store e)
    | .ok cursor, .ok seq =>
      if cursor > seq then .error .cursorAhead else .ok ⟨.start RunEvent cursor, .fetch⟩

/-- One access of a connected stream to the store: a page, or the snapshot behind it. -/
def EventStream.next (s : Store) (runId : String) (st : EventStream) : EventStream :=
  match st.phase with
  | .fetch =>
    { reader := st.reader.take RunEvent.seq (s.eventsAfter runId st.reader.cursor 100)
      phase := .check }
  | .check =>
    match s.get runId with
    | .error e => { st with phase := .raised e }
    | .ok snapshot =>
      if snapshot.isTerminal then
        match snapshot.seq? with
        | .error e => { st with phase := .raised e }
        | .ok seq =>
          if st.reader.cursor ≥ seq then { st with phase := .returned snapshot }
          else { st with phase := .fetch }
      else { st with phase := .fetch }
  | .returned _ | .raised _ => st

/-- A stream among the callers, opened on the tables `s`. -/
def streamMachine (runId : String) (s : Store) (st : EventStream) :
    Machine (Store × EventStream) (Call ⊕ Unit) where
  init := (s, st)
  step
    | (s, st), .inl c => ((s.call c).2, st)
    | (s, st), .inr () => (s, st.next s runId)

/-- What holds while a stream is on. -/
structure Streaming (id : String) (start : Int) (s : Store) (st : EventStream) : Prop where
  recorded : Recorded s
  exact : st.reader.Exact RunEvent.seq start (s.eventsOf id)
  found : ∃ run, s.get id = .ok run
  within : st.reader.cursor ≤ (s.eventsOf id).length
  nonneg : 0 ≤ start
  sound : ∀ e, st.phase ≠ .raised e
  returned : ∀ snapshot, st.phase = .returned snapshot →
    snapshot.isTerminal ∧ snapshot.seq? = .ok st.reader.cursor

variable {id : String} {start : Int} {st : EventStream}

theorem Recorded.get_call (h : Recorded s) (c : Call) {run : Snapshot} (hrun : s.get id = .ok run) :
    ∃ run', (s.call c).2.get id = .ok run' := by
  obtain ⟨hist, hrec⟩ := h
  have hin : (s.runs.get? id).isSome := by
    rw [get] at hrun
    split at hrun
    · simp [*]
    · cases hrun
  have hbefore := hrec.runs id
  have hafter := (hrec.call c).runs id
  rcases hget : (s.call c).2.runs.get? id with - | run'
  · -- a run that was born once stays in the history
    rw [hget] at hafter
    obtain ⟨run₀, hrun₀⟩ := Option.isSome_iff_exists.mp hin
    rw [hrun₀] at hbefore
    obtain ⟨birth, hbirth, -⟩ := hbefore.present
    have hnone := hafter.absent.1
    rw [filterMap_append, hbirth] at hnone
    cases hnone
  · exact ⟨run', by rw [get, hget]⟩

theorem Streaming.call (h : Streaming id start s st) (c : Call) :
    Streaming id start (s.call c).2 st := by
  obtain ⟨run, hrun⟩ := h.found
  refine ⟨h.recorded.call c, h.recorded.exact_call h.exact c, h.recorded.get_call c hrun, ?_,
    h.nonneg, h.sound, h.returned⟩
  refine h.within.trans ?_
  rcases h.recorded.eventsOf_call c id with heq | ⟨e, heq, -⟩
  · rw [heq]
  · rw [heq, length_append]
    omega

theorem Recorded.seq_le (h : Recorded s) {e : RunEvent} (he : e ∈ s.eventsOf id) :
    e.seq ≤ (s.eventsOf id).length := by
  obtain ⟨hist, hrec⟩ := h
  rw [hrec.eventsOf] at he ⊢
  rw [Change.length_events]
  exact (Change.mem_events he).2.2

/-- With nothing behind the cursor it has come up to the run's number. -/
theorem Recorded.length_le (h : Recorded s) {cursor : Int}
    (hnil : behind RunEvent.seq cursor (s.eventsOf id) = []) (hpos : 0 ≤ cursor) :
    ((s.eventsOf id).length : Int) ≤ cursor := by
  obtain ⟨hist, hrec⟩ := h
  rw [hrec.eventsOf] at hnil ⊢
  rcases eq_nil_or_concat (changesOf id hist) with hcs | ⟨cs, c, hcs⟩
  · rw [hcs]
    exact hpos
  · rw [hcs, concat_eq_append, Change.events_concat] at hnil ⊢
    have hlast := Reader.behind_eq_nil hnil (mem_append_right _ (mem_singleton_self _))
    rw [length_append, Change.length_events]
    exact hlast

theorem Streaming.next (h : Streaming id start s st) : Streaming id start s (st.next s id) := by
  obtain ⟨run, hrun⟩ := h.found
  obtain ⟨hseq, -⟩ := h.recorded.snapshot hrun
  rcases hphase : st.phase with - | - | snapshot | e
  · have hnext : st.next s id = ⟨st.reader.take RunEvent.seq
        (s.eventsAfter id st.reader.cursor 100), .check⟩ := by rw [EventStream.next, hphase]
    have hexact := h.recorded.exact_page h.exact 100
    rw [hnext]
    refine ⟨h.recorded, hexact, h.found, ?_, h.nonneg, fun e he => (by cases he),
      fun s he => (by cases he)⟩
    show (st.reader.take RunEvent.seq (s.eventsAfter id st.reader.cursor 100)).cursor ≤ _
    -- the cursor is where it was or at an entry of the log
    rw [h.recorded.eventsAfter]
    rcases lastSeq_eq RunEvent.seq st.reader.cursor
      (page RunEvent.seq st.reader.cursor 100 (s.eventsOf id)) with ⟨-, hl⟩ | ⟨e, he, hl⟩
    · show lastSeq _ _ _ ≤ _
      rw [hl]
      exact h.within
    · show lastSeq _ _ _ ≤ _
      rw [hl]
      exact h.recorded.seq_le (mem_behind.mp ((firstOf_isPrefixOf 100 _).subset he)).1
  · have hnext : st.next s id = if run.isTerminal ∧ st.reader.cursor ≥ (s.eventsOf id).length
        then { st with phase := .returned run } else { st with phase := .fetch } := by
      rw [EventStream.next]
      split_ifs <;> simp_all
    rw [hnext]
    split_ifs with hend
    · refine ⟨h.recorded, h.exact, h.found, h.within, h.nonneg, fun e he => (by cases he), ?_⟩
      rintro snapshot he
      obtain rfl := StreamPhase.returned.inj he
      refine ⟨hend.1, ?_⟩
      rw [hseq, le_antisymm h.within hend.2]
    · exact ⟨h.recorded, h.exact, h.found, h.within, h.nonneg, fun e he => (by cases he),
        fun s he => (by cases he)⟩
  · have hnext : st.next s id = st := by rw [EventStream.next, hphase]
    rwa [hnext]
  · exact absurd hphase (h.sound e)

theorem Streaming.run (h : Streaming id start s st) (is : List (Call ⊕ Unit)) :
    Streaming id start ((streamMachine id s st).run is).1 ((streamMachine id s st).run is).2 := by
  apply Machine.runFrom_invariant (m := streamMachine id s st)
    (P := fun x => Streaming id start x.1 x.2)
  · rintro ⟨s, st⟩ (c | ⟨⟩) hx
    · exact hx.call c
    · exact hx.next
  · exact h

/-- Left alone with the tables `s`, the stream comes to return. -/
def Returns (id : String) (s : Store) (st : EventStream) : Prop :=
  ∃ n snapshot, ((streamMachine id s st).runFrom (s, st) (List.replicate n (.inr ()))).2.phase
    = .returned snapshot

theorem returns_of_phase {snapshot : Snapshot} (h : st.phase = .returned snapshot) :
    Returns id s st := ⟨0, snapshot, h⟩

theorem Returns.of_next (h : Returns id s (st.next s id)) : Returns id s st := by
  obtain ⟨n, snapshot, hn⟩ := h
  exact ⟨n + 1, snapshot, hn⟩

variable (s id) in
theorem next_fetch (h : st.phase = .fetch) : st.next s id =
    ⟨st.reader.take RunEvent.seq (s.eventsAfter id st.reader.cursor 100), .check⟩ := by
  rw [EventStream.next, h]

theorem Recorded.next_check (h : Recorded s) {run : Snapshot} (hrun : s.get id = .ok run)
    (hterminal : run.isTerminal) (hphase : st.phase = .check) :
    st.next s id = if st.reader.cursor ≥ (s.eventsOf id).length
      then { st with phase := .returned run } else { st with phase := .fetch } := by
  simp only [EventStream.next, hphase, hrun, hterminal, (h.snapshot hrun).1, if_true]

/-- What is left to do: two steps for an entry behind the cursor, one for a look. -/
def EventStream.left (st : EventStream) (log : List RunEvent) : Nat :=
  2 * (behind RunEvent.seq st.reader.cursor log).length +
    match st.phase with
    | .check => 1
    | _ => 0

/-- **The stream of a terminal run returns** once the run is not written to any more. -/
theorem Streaming.returns (h : Streaming id start s st) {run : Snapshot} (hrun : s.get id = .ok run)
    (hterminal : run.isTerminal) : Returns id s st := by
  induction hleft : st.left (s.eventsOf id) using Nat.strong_induction_on generalizing st with
  | _ left ih =>
    subst hleft
    rcases hphase : st.phase with - | - | snapshot | e
    · have hnext := next_fetch s id hphase
      apply Returns.of_next
      by_cases hnil : behind RunEvent.seq st.reader.cursor (s.eventsOf id) = []
      · -- the page is empty, and the look behind it finds the cursor at the end
        have hpage : s.eventsAfter id st.reader.cursor 100 = [] := by
          rw [h.recorded.eventsAfter]
          exact (firstOf_eq_nil_iff (by decide)).mpr hnil
        have hend := h.recorded.length_le hnil (h.nonneg.trans h.exact.le)
        rw [hpage] at hnext
        apply Returns.of_next
        rw [h.recorded.next_check hrun hterminal (by rw [hnext]), hnext]
        exact returns_of_phase (congrArg EventStream.phase (if_pos hend))
      · refine ih _ ?_ h.next rfl
        have hlt := Reader.length_behind_page_lt st.reader (show (100 : ℤ) ≠ 0 by decide) hnil
        rw [hnext, h.recorded.eventsAfter]
        simp only [EventStream.left]
        omega
    · have hnext := h.recorded.next_check hrun hterminal hphase
      apply Returns.of_next
      by_cases hend : st.reader.cursor ≥ (s.eventsOf id).length
      · rw [hnext, if_pos hend]
        exact returns_of_phase rfl
      · refine ih _ ?_ h.next rfl
        rw [hnext, if_neg hend]
        simp only [EventStream.left, hphase]
        omega
    · exact returns_of_phase hphase
    · exact absurd hphase (h.sound e)

/-- A stream that was opened on consistent tables is on. -/
theorem Recorded.streaming (h : Recorded s) {after : Nat}
    {lastEventId : Option (Option (String × Int))}
    (hopen : openStream s id after lastEventId = .ok st) :
    Streaming id st.reader.cursor s st ∧ (after : Int) ≤ st.reader.cursor := by
  rw [openStream] at hopen
  rcases hget : s.get id with e | run
  · rw [hget] at hopen
    cases hopen
  · rw [hget] at hopen
    have hseq := (h.snapshot hget).1
    rcases hstart : startCursor id after lastEventId with e | cursor
    · rw [hstart] at hopen
      cases hopen
    · simp only [hstart, hseq] at hopen
      split_ifs at hopen with hahead
      cases hopen
      have hafter : (after : Int) ≤ cursor := by
        rcases lastEventId with - | - | ⟨resource, seq⟩
        · exact (Except.ok.inj hstart).le
        · cases hstart
        · rw [startCursor] at hstart
          split_ifs at hstart
          rw [← Except.ok.inj hstart]
          exact le_max_left _ _
      refine ⟨⟨h, Reader.exact_start _ _, ⟨run, hget⟩, not_lt.mp hahead, by
        show (0 : Int) ≤ cursor
        omega, fun e he => (by cases he), fun s he => (by cases he)⟩, hafter⟩

/-! ### The contract of the store -/

/-- After the calls `cs` a key stands for one run at most: whoever comes with it and the
same digest is given that run, whoever comes with another digest is sent away, and the
tables stay as they are. -/
structure KeysHonoured (cs : List Call) : Prop where
  once : ∀ key, ((empty.trace cs).filterMap (openedOf key)).length ≤ 1
  again : ∀ key, ∀ row ∈ (empty.trace cs).filterMap (openedOf key),
    ∃ run, (storeMachine.run cs).get row.runId = .ok run ∧
      (storeMachine.run cs).replay key row.digest = .ok (some run) ∧
      ∀ kind config hex now later,
        (storeMachine.run cs).call (.create kind config key row.digest hex now later)
          = (.created run false, storeMachine.run cs)
  conflict : ∀ key, ∀ row ∈ (empty.trace cs).filterMap (openedOf key), ∀ digest ≠ row.digest,
    (storeMachine.run cs).replay key digest = .error (.valueError "IDEMPOTENCY_CONFLICT") ∧
      ∀ kind config hex now later,
        (storeMachine.run cs).call (.create kind config key digest hex now later)
          = (.raised (.valueError "IDEMPOTENCY_CONFLICT"), storeMachine.run cs)

/-- After the calls `cs` the events of a run are its changes, numbered from one up to its
`seq`, and its snapshot is what it was born with and these changes folded in. -/
structure LogFolded (cs : List Call) (id : String) : Prop where
  events : (storeMachine.run cs).eventsOf id
    = Change.events id (changesOf id (empty.trace cs))
  absent : ∀ e, (storeMachine.run cs).get id = .error e → (storeMachine.run cs).eventsOf id = []
  snapshot : ∀ run, (storeMachine.run cs).get id = .ok run →
    ∃ n : Nat, run.seq? = .ok (n : Int) ∧
      ((storeMachine.run cs).eventsOf id).map RunEvent.seq
        = (List.range n).map (fun i => ((i + 1 : Nat) : Int)) ∧
      ∃ birth, (empty.trace cs).filterMap (birthOf id) = [birth] ∧
        ∀ key, key ≠ "seq" → run.get? key
          = ((changesOf id (empty.trace cs)).foldl Change.apply birth).get? key

/-- Reading pages among the calls `is` gives every event behind `start` up to the cursor
once and in order, and with enough further pages all of them. -/
structure PagedExactly (id : String) (start : Int) (is : List (Call ⊕ Int)) : Prop where
  tables : ((pagingMachine id start).run is).1 = storeMachine.run (is.filterMap Sum.getLeft?)
  read : ((pagingMachine id start).run is).2.read
    = between RunEvent.seq start ((pagingMachine id start).run is).2.cursor
        (((pagingMachine id start).run is).1.eventsOf id)
  rest : ∀ limits : List Int, (∀ limit ∈ limits, limit ≠ 0) →
    (((pagingMachine id start).run is).1.eventsOf id).length ≤ limits.length →
    ((pagingMachine id start).runFrom ((pagingMachine id start).run is)
        (limits.map .inr)).2.read
      = behind RunEvent.seq start (((pagingMachine id start).run is).1.eventsOf id)

/-- A stream opened as `st₀` on the tables `s₀` sends every event behind its start up to the
cursor once and in order; it returns with a terminal snapshot up to which it has sent
everything, and does so when the run is terminal and is not written to any more. -/
structure StreamedExactly (id : String) (s₀ : Store) (st₀ : EventStream)
    (is : List (Call ⊕ Unit)) : Prop where
  sent : ((streamMachine id s₀ st₀).run is).2.reader.read
    = between RunEvent.seq st₀.reader.cursor ((streamMachine id s₀ st₀).run is).2.reader.cursor
        (((streamMachine id s₀ st₀).run is).1.eventsOf id)
  returned : ∀ snapshot, ((streamMachine id s₀ st₀).run is).2.phase = .returned snapshot →
    snapshot.isTerminal ∧
    snapshot.seq? = .ok ((streamMachine id s₀ st₀).run is).2.reader.cursor ∧
    ∀ run, ((streamMachine id s₀ st₀).run is).1.get id = .ok run → run.seq? = snapshot.seq? →
      ((streamMachine id s₀ st₀).run is).2.reader.read
        = behind RunEvent.seq st₀.reader.cursor
            (((streamMachine id s₀ st₀).run is).1.eventsOf id)
  returns : ∀ run, ((streamMachine id s₀ st₀).run is).1.get id = .ok run → run.isTerminal →
    Returns id ((streamMachine id s₀ st₀).run is).1 ((streamMachine id s₀ st₀).run is).2

theorem Records.held {h : List (Call × Reply)} (hrec : Records s h) {key : String} {row : KeyRow}
    (hrow : row ∈ h.filterMap (openedOf key)) : s.idempotency.get? key = some row := by
  rw [hrec.keys key] at hrow
  exact Option.mem_toList.mp hrow

theorem keysHonoured (cs : List Call) : KeysHonoured cs := by
  have hrec := records_trace cs
  refine ⟨fun key => ?_, fun key row hrow => ?_, fun key row hrow digest hne => ?_⟩
  · rw [hrec.keys key]
    rcases (storeMachine.run cs).idempotency.get? key with - | row
    · exact Nat.zero_le 1
    · exact le_rfl
  · have hkey := hrec.held hrow
    obtain ⟨run, hrun⟩ := (OrderedDict.mem_keys_iff _).mp (hrec.owners key row hkey)
    have hget : (storeMachine.run cs).get row.runId = .ok run := by rw [get, hrun]
    refine ⟨run, hget, ?_, fun kind config hex now later => ?_⟩
    · simp only [replay, hkey, hget, ne_eq]
      rfl
    · obtain ⟨run', hget', hcreate⟩ :=
        hrec.create_held hkey kind config row.digest hex now later
      cases hget.symm.trans hget'
      rw [if_neg (not_not.mpr rfl)] at hcreate
      rw [Store.call, hcreate]
  · have hkey := hrec.held hrow
    refine ⟨?_, fun kind config hex now later => ?_⟩
    · simp only [replay, hkey, hne.symm, ne_eq]
      rfl
    · obtain ⟨run, -, hcreate⟩ := hrec.create_held hkey kind config digest hex now later
      rw [if_pos hne.symm] at hcreate
      rw [Store.call, hcreate]

theorem get_eq_ok_iff {run : Snapshot} : s.get id = .ok run ↔ s.runs.get? id = some run := by
  rw [get]
  rcases s.runs.get? id with - | run'
  · simp
  · simp

theorem logFolded (cs : List Call) (id : String) : LogFolded cs id := by
  have hrec := records_trace cs
  have hfolded := hrec.runs id
  refine ⟨hrec.eventsOf id, fun e he => ?_, fun run hrun => ?_⟩
  · have hnone : (storeMachine.run cs).runs.get? id = none := by
      rcases hget : (storeMachine.run cs).runs.get? id with - | run
      · rfl
      · rw [get, hget] at he
        cases he
    rw [hnone] at hfolded
    rw [hrec.eventsOf, hfolded.absent.2]
    rfl
  · rw [get_eq_ok_iff.mp hrun] at hfolded
    obtain ⟨birth, hbirth, hkeys⟩ := hfolded.present
    refine ⟨_, hfolded.seq?, ?_, birth, hbirth, fun key hkey => ?_⟩
    · rw [hrec.eventsOf, Change.seq_events]
    · rw [hkeys, if_neg hkey]

theorem pagedExactly (id : String) (start : Int) (is : List (Call ⊕ Int)) :
    PagedExactly id start is := by
  obtain ⟨hrec, hexact⟩ := pagingMachine_exact id start is
  refine ⟨?_, hexact.read, fun limits hlimits hlen => hrec.read_all hexact hlimits hlen⟩
  clear hrec hexact
  -- pages do not touch the tables
  have key : ∀ s r, ((pagingMachine id start).runFrom (s, r) is).1
      = storeMachine.runFrom s (is.filterMap Sum.getLeft?) := by
    induction is with
    | nil => exact fun s r => rfl
    | cons i is ih =>
      intro s r
      rcases i with c | limit
      · exact ih _ _
      · exact ih _ _
  exact key _ _

theorem streamedExactly {s₀ : Store} {st₀ : EventStream}
    (h : Streaming id st₀.reader.cursor s₀ st₀) (is : List (Call ⊕ Unit)) :
    StreamedExactly id s₀ st₀ is := by
  have hrun := h.run is
  refine ⟨hrun.exact.read, fun snapshot hphase => ?_, fun run hget hterminal =>
    hrun.returns hget hterminal⟩
  obtain ⟨hterminal, hseq⟩ := hrun.returned snapshot hphase
  refine ⟨hterminal, hseq, fun run hget hsame => ?_⟩
  -- the cursor is at the number of the run, which is that of its last event
  have hn := (hrun.recorded.snapshot hget).1
  rw [hsame, hseq] at hn
  apply hrun.exact.complete
  intro e he
  rw [Except.ok.inj hn]
  exact hrun.recorded.seq_le he

/-- **The contract of the run store.**  Over every interleaving of calls a key stands for one
run, the log of a run is gapless and folds to its snapshot, and its readers, paging or
streaming, miss nothing and get nothing twice. -/
theorem store_contract :
    (∀ cs, KeysHonoured cs ∧ ∀ id, LogFolded cs id) ∧
    (∀ id start is, PagedExactly id start is) ∧
    ∀ cs id after lastEventId st,
      openStream (storeMachine.run cs) id after lastEventId = .ok st →
      (after : Int) ≤ st.reader.cursor ∧
        ∀ is, StreamedExactly id (storeMachine.run cs) st is := by
  refine ⟨fun cs => ⟨keysHonoured cs, logFolded cs⟩, pagedExactly, ?_⟩
  intro cs id after lastEventId st hopen
  have hrec : Recorded (storeMachine.run cs) := ⟨_, records_trace cs⟩
  obtain ⟨hstreaming, hafter⟩ := hrec.streaming hopen
  exact ⟨hafter, streamedExactly hstreaming⟩

end Store

end Hqsb.Console
