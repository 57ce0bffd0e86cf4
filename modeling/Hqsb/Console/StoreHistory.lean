/-
Hqsb/Console/StoreHistory.lean

What the tables of the run store hold, told from the calls that were made.

The history of a store is its calls with their replies.  It says which run a key
was opened for (`openedOf`), what a run was created with (`birthOf`) and which
changes were made to it (`changesOf`).  `Records` compares the tables with that:

* the snapshot of a run is its birth with all changes folded in, in their order;
* its events are its changes, numbered from one on;
* an idempotency key is held by the one run that was created under it.

Every call keeps `Records` (`Records.call`), so it holds after every interleaving
of calls (`records_trace`).
-/
import Hqsb.Console.Store

namespace Hqsb.Console

open Lib List OrderedDict

namespace Store

/-! ### Histories -/

def trace (s : Store) : List Call → List (Call × Reply)
  | [] => []
  | c :: cs => (c, (s.call c).1) :: trace (s.call c).2 cs

theorem trace_concat (s : Store) (cs : List Call) (c : Call) :
    s.trace (cs ++ [c]) = s.trace cs ++ [(c, ((storeMachine.runFrom s cs).call c).1)] := by
  induction cs generalizing s with
  | nil => rfl
  | cons d cs ih =>
    rw [cons_append, trace, trace, ih]
    rfl

/-- One change of a run: what was merged into it and what its event says. -/
structure Change where
  patch : Patch
  kind : String
  data : Option Json
  time : Json

namespace Change

/-- What `create` does to its new run. -/
def accepted (later : Json) : Change := ⟨.empty, "accepted", some Patch.empty.json, later⟩

def apply (run : Snapshot) (c : Change) : Snapshot :=
  (run.update c.patch.fields).set "updated_at" c.time

/-- The event of a change, `i` changes being before it. -/
def event (runId : String) (i : Nat) (c : Change) : RunEvent :=
  { requestId := runId, seq := i + 1, kind := c.kind, time := c.time
    data := c.data.getD c.patch.json }

def events (runId : String) (cs : List Change) : List RunEvent := cs.mapIdx (event runId)

end Change

/-- The row a call opens for `key`. -/
def openedOf (key : String) : Call × Reply → Option KeyRow
  | (.create _ _ key' digest hex _ _, .created _ true) =>
    if key' = key then some ⟨digest, freshId hex⟩ else none
  | _ => none

/-- The dictionary a call creates run `runId` with. -/
def birthOf (runId : String) : Call × Reply → Option Snapshot
  | (.create kind config _ _ hex now _, .created _ true) =>
    if freshId hex = runId then some (.created runId kind config now) else none
  | _ => none

/-- The change a call makes to run `runId`. -/
def changeOf (runId : String) : Call × Reply → Option Change
  | (.create _ _ _ _ hex _ later, .created _ true) =>
    if freshId hex = runId then some (.accepted later) else none
  | (.update runId' patch kind data now, .run _) =>
    if runId' = runId then some ⟨patch, kind, data, now⟩ else none
  | _ => none

def changesOf (runId : String) (history : List (Call × Reply)) : List Change :=
  history.filterMap (changeOf runId)

/-- The snapshot is the birth with all changes folded in and counted; without a birth
there is neither. -/
def Folded : Option Snapshot → List Snapshot → List Change → Prop
  | none, [], cs => cs = []
  | some run, [birth], cs => ∀ key, run.get? key =
      if key = "seq" then some (.num cs.length) else (cs.foldl Change.apply birth).get? key
  | _, _, _ => False

/-- **The tables record the history.** -/
structure Records (s : Store) (history : List (Call × Reply)) : Prop where
  runs : ∀ id, Folded (s.runs.get? id) (history.filterMap (birthOf id)) (changesOf id history)
  events : ∀ id, s.events.values.filter (fun e => e.requestId = id)
    = Change.events id (changesOf id history)
  rows : ∀ row ∈ s.events.entries, row.1 = (row.2.requestId, row.2.seq)
  keys : ∀ key, history.filterMap (openedOf key) = (s.idempotency.get? key).toList
  owners : ∀ key row, s.idempotency.get? key = some row → row.runId ∈ s.runs.keys

/-! ### Folding changes -/

variable (id : String) {cs : List Change} {births : List Snapshot} {run : Snapshot}

theorem Change.length_events (cs : List Change) :
    (Change.events id cs).length = cs.length := length_mapIdx

theorem Change.events_concat (cs : List Change) (c : Change) :
    Change.events id (cs ++ [c]) = Change.events id cs ++ [Change.event id cs.length c] := by
  simp [Change.events, mapIdx_append]

theorem Change.mem_events {id : String} {e : RunEvent} (h : e ∈ Change.events id cs) :
    e.requestId = id ∧ 1 ≤ e.seq ∧ e.seq ≤ cs.length := by
  obtain ⟨i, hi, rfl⟩ := mem_mapIdx.mp h
  refine ⟨rfl, ?_, ?_⟩
  · simp only [Change.event]
    omega
  · simp only [Change.event]
    omega

theorem Change.rising_events (cs : List Change) : Rising RunEvent.seq (Change.events id cs) := by
  induction cs using List.reverseRecOn with
  | nil => exact List.Pairwise.nil
  | append_singleton cs c ih =>
    rw [Change.events_concat]
    refine ih.append fun e he => ?_
    have := (Change.mem_events he).2.2
    simp only [Change.event]
    omega

theorem Folded.absent (h : Folded none births cs) : births = [] ∧ cs = [] := by
  rcases births with - | ⟨b, _ | ⟨b', births⟩⟩
  · exact ⟨rfl, h⟩
  · exact h.elim
  · exact h.elim

theorem Folded.present (h : Folded (some run) births cs) :
    ∃ birth, births = [birth] ∧ ∀ key, run.get? key =
      if key = "seq" then some (.num cs.length) else (cs.foldl Change.apply birth).get? key := by
  rcases births with - | ⟨b, _ | ⟨b', births⟩⟩
  · exact h.elim
  · exact ⟨b, rfl, h⟩
  · exact h.elim

theorem Folded.seq? (h : Folded (some run) births cs) : run.seq? = .ok (cs.length : Int) := by
  obtain ⟨birth, -, hrun⟩ := h.present
  rw [Snapshot.seq?, hrun, if_pos rfl]

/-- What `update` makes of a snapshot. -/
def stamped (run : Snapshot) (c : Change) (n : Int) : Snapshot :=
  (c.apply run).set "seq" (.num (n + 1))

theorem Change.get?_apply_seq (run : Snapshot) (c : Change) :
    (c.apply run).get? "seq" = run.get? "seq" := by
  rw [Change.apply, get?_set_of_ne _ _ (by decide), get?_update,
    (get?_eq_none_iff _).mpr c.patch.noSeq, Option.none_or]

theorem Change.get?_apply (c : Change) (run run' : Snapshot) {key : String}
    (h : run.get? key = run'.get? key) : (c.apply run).get? key = (c.apply run').get? key := by
  simp only [Change.apply, get?_set, get?_update, h]

theorem Folded.stamped (h : Folded (some run) births cs) (c : Change) :
    Folded (some (stamped run c cs.length)) births (cs ++ [c]) := by
  obtain ⟨birth, rfl, hrun⟩ := h.present
  intro key
  rw [Store.stamped, get?_set]
  split_ifs with hkey
  · simp
  · rw [foldl_append, foldl_cons]
    apply Change.get?_apply
    rw [hrun, if_neg hkey]

theorem folded_created (id kind : String) (config now : Json) :
    Folded (some (.created id kind config now)) [.created id kind config now] [] := by
  intro key
  split_ifs with hkey
  · subst hkey
    rfl
  · rfl

/-! ### What the calls do -/

theorem seq?_apply (run : Snapshot) (c : Change) : Snapshot.seq? (c.apply run) = run.seq? := by
  simp only [Snapshot.seq?, Change.get?_apply_seq]

/-- `update` on a run with a number, its next event being free. -/
theorem update_eq {s : Store} {id : String} {n : Int} (c : Change)
    (hrun : s.runs.get? id = some run) (hseq : run.seq? = .ok n)
    (hfree : (id, n + 1) ∉ s.events.keys) :
    s.update id c.patch c.kind c.data c.time = .ok (stamped run c n,
      { s with
        runs := s.runs.set id (stamped run c n)
        events := s.events.set (id, n + 1)
          ⟨id, n + 1, c.kind, c.time, c.data.getD c.patch.json⟩ }) := by
  have hget : s.get id = .ok run := by rw [get, hrun]
  have hn : Snapshot.seq? ((run.update c.patch.fields).set "updated_at" c.time) = .ok n :=
    (seq?_apply run c).trans hseq
  simp only [update, hget, bind, Except.bind, hn, insertEvent, hfree]
  rfl

theorem update_error {s : Store} {id : String} (hrun : s.runs.get? id = none) (c : Change) :
    s.update id c.patch c.kind c.data c.time = .error (.keyError id) := by
  simp only [update, get, hrun, bind, Except.bind]

/-! ### One call -/

section Step

variable {s : Store} {h : List (Call × Reply)} {x : Call × Reply}

/-- A call that changed no table leaves no trace in the history. -/
structure Idle (x : Call × Reply) : Prop where
  opened : ∀ key, openedOf key x = none
  birth : ∀ id, birthOf id x = none
  change : ∀ id, changeOf id x = none

theorem idle_raised (c : Call) (e : StoreError) : Idle (c, .raised e) := by
  refine ⟨fun _ => ?_, fun _ => ?_, fun _ => ?_⟩ <;> cases c <;> rfl

theorem idle_found (c : Call) (run : Snapshot) : Idle (c, .created run false) := by
  refine ⟨fun _ => ?_, fun _ => ?_, fun _ => ?_⟩ <;> cases c <;> rfl

theorem idle_page (c : Call) (es : List RunEvent) : Idle (c, .page es) := by
  refine ⟨fun _ => ?_, fun _ => ?_, fun _ => ?_⟩ <;> cases c <;> rfl

theorem idle_get (id : String) (run : Snapshot) : Idle (.get id, .run run) :=
  ⟨fun _ => rfl, fun _ => rfl, fun _ => rfl⟩

theorem Records.idle (hrec : Records s h) (hx : Idle x) : Records s (h ++ [x]) := by
  refine ⟨fun id => ?_, fun id => ?_, hrec.rows, fun key => ?_, hrec.owners⟩
  · simpa [changesOf, hx.birth, hx.change] using hrec.runs id
  · simpa [changesOf, hx.change] using hrec.events id
  · simpa [hx.opened] using hrec.keys key

theorem Records.free (hrec : Records s h) (id : String) :
    (id, ((changesOf id h).length : Int) + 1) ∉ s.events.keys := by
  intro hmem
  obtain ⟨row, hrow, hk⟩ := mem_map.mp hmem
  have hkey := hrec.rows row hrow
  rw [hk, Prod.mk.injEq] at hkey
  have hin : row.2 ∈ s.events.values.filter fun e => e.requestId = id :=
    mem_filter.mpr ⟨mem_map.mpr ⟨row, hrow, rfl⟩, decide_eq_true hkey.1.symm⟩
  rw [hrec.events id] at hin
  have := (Change.mem_events hin).2.2
  omega

/-- What both writing calls leave behind: the run's snapshot with one more change, and the
change's event. -/
theorem events_set (hrec : Records s h) (id : String) (c : Change) (id' : String) :
    (s.events.set (id, ((changesOf id h).length : Int) + 1)
        ⟨id, ((changesOf id h).length : Int) + 1, c.kind, c.time,
          c.data.getD c.patch.json⟩).values.filter (fun e => e.requestId = id')
      = Change.events id' (changesOf id' h ++ if id = id' then [c] else []) := by
  rw [OrderedDict.values, entries_set_of_not_mem _ (hrec.free id), map_append, filter_append]
  have hold := hrec.events id'
  rw [OrderedDict.values] at hold
  rw [hold]
  by_cases hid : id = id'
  · subst hid
    rw [if_pos rfl, Change.events_concat]
    simp [Change.event]
  · simp [hid]

theorem rows_set {events : OrderedDict (String × Int) RunEvent}
    (hrows : ∀ row ∈ events.entries, row.1 = (row.2.requestId, row.2.seq)) {e : RunEvent}
    (hfree : (e.requestId, e.seq) ∉ events.keys) :
    ∀ row ∈ (events.set (e.requestId, e.seq) e).entries, row.1 = (row.2.requestId, row.2.seq) := by
  intro row hrow
  rw [entries_set_of_not_mem _ hfree] at hrow
  rcases mem_append.mp hrow with hrow | hrow
  · exact hrows row hrow
  · rw [mem_singleton.mp hrow]

theorem changesOf_update (id id' : String) (c : Change) (run : Snapshot) :
    changesOf id' (h ++ [(Call.update id c.patch c.kind c.data c.time, Reply.run run)]) =
      changesOf id' h ++ if id = id' then [c] else [] := by
  rw [changesOf, filterMap_append]
  by_cases hid : id = id' <;> simp [changesOf, changeOf, hid]

theorem changesOf_create (kind key digest hex id : String) (config now later : Json)
    (run : Snapshot) :
    changesOf id
        (h ++ [(Call.create kind config key digest hex now later, Reply.created run true)]) =
      changesOf id h ++ if freshId hex = id then [Change.accepted later] else [] := by
  rw [changesOf, filterMap_append]
  by_cases hid : freshId hex = id <;> simp [changesOf, changeOf, hid]

/-- An accepted `update` adds its change. -/
theorem Records.update (hrec : Records s h) {id : String} {run : Snapshot} (run' : Snapshot)
    (c : Change) (hrun : s.runs.get? id = some run) :
    ∃ s', s.update id c.patch c.kind c.data c.time
        = .ok (stamped run c (changesOf id h).length, s') ∧
      Records s' (h ++ [(Call.update id c.patch c.kind c.data c.time, Reply.run run')]) := by
  have hfolded := hrec.runs id
  rw [hrun] at hfolded
  refine ⟨_, update_eq c hrun hfolded.seq? (hrec.free id), ?_, ?_, ?_, ?_, ?_⟩
  · intro id'
    rw [changesOf_update, filterMap_append, show filterMap (birthOf id') [_] = [] from rfl,
      append_nil, get?_set]
    by_cases hid : id = id'
    · subst hid
      rw [if_pos rfl, if_pos rfl]
      exact hfolded.stamped c
    · rw [if_neg fun h => hid h.symm, if_neg hid, append_nil]
      exact hrec.runs id'
  · intro id'
    rw [changesOf_update]
    exact events_set hrec id c id'
  · exact rows_set hrec.rows (e := ⟨id, _, _, _, _⟩) (hrec.free id)
  · intro key
    rw [filterMap_append, ← hrec.keys key]
    exact append_nil _
  · intro key row hrow
    exact (mem_keys_set _ _ _ _).mpr (.inr (hrec.owners key row hrow))

/-- `create` under a new key and a new run id. -/
theorem Records.create (hrec : Records s h) {key hex : String} (kind : String) (config : Json)
    (digest : String) (now later : Json) (hkey : s.idempotency.get? key = none)
    (hid : s.runs.get? (freshId hex) = none) :
    let run := stamped (.created (freshId hex) kind config now) (.accepted later) 0
    ∃ s', s.create kind config key digest hex now later = .ok ((run, true), s') ∧
      s'.idempotency = s.idempotency.set key ⟨digest, freshId hex⟩ ∧
      s'.runs.get? (freshId hex) = some run ∧
      (∀ id ≠ freshId hex, s'.runs.get? id = s.runs.get? id) ∧
      Records s'
        (h ++ [(Call.create kind config key digest hex now later, Reply.created run true)]) := by
  intro run
  set id := freshId hex with hdef
  set born := Snapshot.created id kind config now
  have habsent := hrec.runs id
  rw [hid] at habsent
  obtain ⟨hbirths, hchanges⟩ := habsent.absent
  have hfree := hrec.free id
  have hevents := events_set hrec id (.accepted later)
  rw [hchanges, length_nil] at hfree hevents
  -- the tables between the two inserts and the nested update
  let mid : Store := { s with
    runs := s.runs.set id born, idempotency := s.idempotency.set key ⟨digest, id⟩ }
  have hmid : mid.runs.get? id = some born := get?_set_self _ _ _
  have hupdate := update_eq (.accepted later) hmid (folded_created id kind config now).seq? hfree
  have hcreate : s.create kind config key digest hex now later
      = .ok ((run, true), { mid with
          runs := mid.runs.set id run
          events := mid.events.set (id, 0 + 1)
            ⟨id, 0 + 1, "accepted", later, (some Patch.empty.json).getD Patch.empty.json⟩ }) := by
    have hnot : id ∉ s.runs.keys := (get?_eq_none_iff _).mp hid
    simp only [Store.create, hkey, insertRun, ← hdef, hnot, if_false, bind, Except.bind]
    rw [show mid.update id .empty "accepted" (some Patch.empty.json) later = _ from hupdate]
    rfl
  refine ⟨_, hcreate, rfl, get?_set_self _ _ _, ?_, ?_, ?_, ?_, ?_, ?_⟩
  · intro id' hne
    show ((s.runs.set id born).set id run).get? id' = _
    rw [OrderedDict.set_set, OrderedDict.get?_set_of_ne _ _ hne]
  · intro id'
    show Folded (((s.runs.set id born).set id run).get? id') _ _
    rw [changesOf_create, OrderedDict.set_set, OrderedDict.get?_set, ← hdef]
    by_cases hne : id = id'
    · subst hne
      have hone := (folded_created id kind config now).stamped (.accepted later)
      rw [hchanges, if_pos rfl, if_pos rfl, filterMap_append, hbirths]
      simpa [birthOf, ← hdef] using hone
    · rw [if_neg fun h => hne h.symm, if_neg hne, append_nil, filterMap_append]
      simpa [birthOf, ← hdef, hne] using hrec.runs id'
  · intro id'
    rw [changesOf_create]
    exact hevents id'
  · exact rows_set hrec.rows (e := ⟨id, _, _, _, _⟩) hfree
  · intro key'
    rw [filterMap_append, hrec.keys key']
    show _ = ((s.idempotency.set key ⟨digest, id⟩).get? key').toList
    rw [get?_set]
    by_cases hk : key = key'
    · subst hk
      simp [openedOf, hkey, ← hdef]
    · rw [if_neg fun h => hk h.symm]
      simp [openedOf, hk]
  · intro key' row hrow
    rw [get?_set] at hrow
    show row.runId ∈ ((s.runs.set id born).set id run).keys
    rw [OrderedDict.set_set, OrderedDict.mem_keys_set]
    split_ifs at hrow with hk
    · cases hrow
      exact .inl rfl
    · exact .inr (hrec.owners key' row hrow)

/-- A key that is held sends every `create` back to its run or away. -/
theorem Records.create_held (hrec : Records s h) {key : String} {row : KeyRow}
    (hkey : s.idempotency.get? key = some row) (kind : String) (config : Json)
    (digest hex : String) (now later : Json) :
    ∃ run, s.get row.runId = .ok run ∧
      s.create kind config key digest hex now later =
        if row.digest ≠ digest then .error (.valueError "IDEMPOTENCY_CONFLICT")
        else .ok ((run, false), s) := by
  obtain ⟨run, hrun⟩ := (mem_keys_iff _).mp (hrec.owners key row hkey)
  have hget : s.get row.runId = .ok run := by rw [get, hrun]
  refine ⟨run, hget, ?_⟩
  simp only [Store.create, hkey, hget]
  split_ifs <;> rfl

/-- **Every call is recorded**, the ones that raise leaving the tables as they are. -/
theorem Records.call (hrec : Records s h) (c : Call) :
    Records (s.call c).2 (h ++ [(c, (s.call c).1)]) := by
  rcases c with ⟨kind, config, key, digest, hex, now, later⟩ | id | ⟨id, patch, kind, data, now⟩ |
    ⟨id, after, limit⟩
  · rcases hkey : s.idempotency.get? key with - | row
    · rcases hid : s.runs.get? (freshId hex) with - | run
      · obtain ⟨s', hcreate, -, -, -, hrec'⟩ := hrec.create kind config digest now later hkey hid
        rw [Store.call, hcreate]
        exact hrec'
      · -- the random id is in use
        have hin : freshId hex ∈ s.runs.keys := mem_keys_of_get? hid
        have hcreate : s.create kind config key digest hex now later = .error .integrityError := by
          simp only [Store.create, hkey, insertRun, hin, if_true, bind, Except.bind]
        rw [Store.call, hcreate]
        exact hrec.idle (idle_raised _ _)
    · obtain ⟨run, -, hcreate⟩ := hrec.create_held hkey kind config digest hex now later
      rw [Store.call, hcreate]
      split_ifs
      · exact hrec.idle (idle_raised _ _)
      · exact hrec.idle (idle_found _ _)
  · rcases hget : s.get id with e | run
    · rw [Store.call, hget]
      exact hrec.idle (idle_raised _ _)
    · rw [Store.call, hget]
      exact hrec.idle (idle_get _ _)
  · rcases hrun : s.runs.get? id with - | run
    · have hupdate := update_error hrun ⟨patch, kind, data, now⟩
      simp only at hupdate
      rw [Store.call, hupdate]
      exact hrec.idle (idle_raised _ _)
    · obtain ⟨s', hupdate, hrec'⟩ := hrec.update _ ⟨patch, kind, data, now⟩ hrun
      simp only at hupdate
      rw [Store.call, hupdate]
      exact hrec'
  · exact hrec.idle (idle_page _ _)

end Step

theorem records_empty : Records empty [] := by
  refine ⟨fun _ => rfl, fun _ => rfl, fun _ hrow => ?_, fun _ => rfl, fun _ _ hrow => ?_⟩
  · simp [empty, OrderedDict.empty] at hrow
  · simp [empty] at hrow

/-- **The tables after any interleaving of calls** record all of them. -/
theorem records_trace (cs : List Call) : Records (storeMachine.run cs) (empty.trace cs) := by
  induction cs using List.reverseRecOn with
  | nil => exact records_empty
  | append_singleton cs c ih =>
    rw [trace_concat, Machine.run, Machine.runFrom_concat]
    exact ih.call c

/-! ### Reading the tables -/

variable {s : Store} {h : List (Call × Reply)}

theorem insertionSort_rising {es : List RunEvent} (hes : Rising RunEvent.seq es) :
    es.insertionSort (fun e f => e.seq ≤ f.seq) = es :=
  List.Pairwise.insertionSort_eq (hes.imp fun h => h.le)

theorem Records.eventsOf (hrec : Records s h) (id : String) :
    s.eventsOf id = Change.events id (changesOf id h) := by
  rw [Store.eventsOf, hrec.events, insertionSort_rising (Change.rising_events _ _)]

theorem Records.eventsAfter (hrec : Records s h) (id : String) (after limit : Int) :
    s.eventsAfter id after limit
      = page RunEvent.seq after limit (Change.events id (changesOf id h)) := by
  have hfilter : s.events.values.filter (fun e => e.requestId = id ∧ after < e.seq)
      = behind RunEvent.seq after (Change.events id (changesOf id h)) := by
    rw [← hrec.events id, behind, filter_filter]
    exact filter_congr fun e _ => (Bool.decide_and _ _).trans (Bool.and_comm _ _)
  rw [Store.eventsAfter, hfilter,
    insertionSort_rising ((Change.rising_events _ _).behind after), page]

end Store

end Hqsb.Console
