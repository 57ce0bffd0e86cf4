/-
Hqsb/Console/Store.lean

The run store of the console: run snapshots, their ordered events and the
idempotency keys, three tables behind one lock.

A call is one transaction.  It returns a value and the new tables, or it raises
and the tables stay as they were (`Store.call`).  What the calls take from outside
comes in as an argument: the clock readings and the random part of a fresh run id.

A snapshot is stored as its dictionary.  `update` owns the key `"seq"`: a patch
that writes it cannot be built.
-/
import Hqsb.Core.Json
import Hqsb.Lib.OrderedDict
import Hqsb.Lib.Machine
import Hqsb.Lib.Paging

namespace Hqsb.Console

open Lib

inductive RunState where
  | queued | running | cancelRequested | completed | failed | cancelled | timedOut | interrupted

namespace RunState

def text : RunState → String
  | queued => "queued"
  | running => "running"
  | cancelRequested => "cancel_requested"
  | completed => "completed"
  | failed => "failed"
  | cancelled => "cancelled"
  | timedOut => "timed_out"
  | interrupted => "interrupted"

def terminal : List RunState := [completed, failed, cancelled, timedOut, interrupted]

end RunState

/-- `TERMINAL`, as the texts that are compared with. -/
def TERMINAL : List String := RunState.terminal.map RunState.text

/-- What a call of the store can raise. -/
inductive StoreError where
  | keyError (key : String)
  | valueError (text : String)
  | integrityError
  | typeError

/-- The dictionary of a run. -/
abbrev Snapshot := OrderedDict String Json

/-- What `update` merges into a snapshot; the running number is not among it. -/
structure Patch where
  fields : OrderedDict String Json
  noSeq : "seq" ∉ fields.keys

/-- `{}` -/
def Patch.empty : Patch := ⟨OrderedDict.empty, List.not_mem_nil⟩

/-- A patch written down key by key. -/
def Patch.of (fields : List (String × Json)) (h : ("seq" :: fields.map Prod.fst).Nodup) : Patch :=
  ⟨⟨fields, h.of_cons⟩, (List.nodup_cons.mp h).1⟩

def Patch.json (patch : Patch) : Json := .obj patch.fields.entries

/-- One row of the table of events, its `event_version` being `"1"`. -/
structure RunEvent where
  requestId : String
  seq : Int
  kind : String
  time : Json
  data : Json

namespace Snapshot

/-- `run["seq"]`, where a number is expected. -/
def seq? (run : Snapshot) : Except StoreError Int :=
  match run.get? "seq" with
  | some (.num n) => .ok n
  | some _ => .error .typeError
  | none => .error (.keyError "seq")

/-- `run["state"] in TERMINAL` -/
def isTerminal (run : Snapshot) : Bool :=
  match run.get? "state" with
  | some (.str state) => state ∈ TERMINAL
  | _ => false

/-- The dictionary that `create` stores first. -/
def created (runId kind : String) (config now : Json) : Snapshot :=
  ⟨[("id", .str runId), ("kind", .str kind), ("state", .str RunState.queued.text),
    ("created_at", now), ("updated_at", now), ("config", config), ("output", .str ""),
    ("metrics", .obj []), ("error", .null), ("cleanup", .str "pending"),
    ("quality", .str "not_evaluated"), ("seq", .num 0)], by
    show ["id", "kind", "state", "created_at", "updated_at", "config", "output", "metrics",
      "error", "cleanup", "quality", "seq"].Nodup
    decide⟩

end Snapshot

/-- Who holds an idempotency key. -/
structure KeyRow where
  digest : String
  runId : String

/-- The three tables. -/
structure Store where
  runs : OrderedDict String Snapshot
  events : OrderedDict (String × Int) RunEvent
  idempotency : OrderedDict String KeyRow

namespace Store

/-- A fresh database. -/
def empty : Store := ⟨OrderedDict.empty, OrderedDict.empty, OrderedDict.empty⟩

variable (s : Store) (runId : String)

def get : Except StoreError Snapshot :=
  match s.runs.get? runId with
  | some run => .ok run
  | none => .error (.keyError runId)

/-- `INSERT INTO events` under the primary key `(run_id, seq)` -/
def insertEvent (event : RunEvent) : Except StoreError Store :=
  if (event.requestId, event.seq) ∈ s.events.keys then .error .integrityError
  else .ok { s with events := s.events.set (event.requestId, event.seq) event }

def update (patch : Patch) (kind : String) (data : Option Json)
    (now : Json) : Except StoreError (Snapshot × Store) := do
  let run ← s.get runId
  let run := (run.update patch.fields).set "updated_at" now
  let seq ← Snapshot.seq? run
  let run := run.set "seq" (.num (seq + 1))
  let event : RunEvent :=
    { requestId := runId, seq := seq + 1, kind := kind, time := now
      data := data.getD patch.json }
  let s ← { s with runs := s.runs.set runId run }.insertEvent event
  return (run, s)

/-- `INSERT INTO runs` -/
def insertRun (run : Snapshot) : Except StoreError Store :=
  if runId ∈ s.runs.keys then .error .integrityError
  else .ok { s with runs := s.runs.set runId run }

/-- `"run_" + uuid.uuid4().hex` -/
def freshId (hex : String) : String := "run_" ++ hex

def create (kind : String) (config : Json) (key digest hex : String)
    (now later : Json) : Except StoreError ((Snapshot × Bool) × Store) :=
  match s.idempotency.get? key with
  | some old => do
    if old.digest ≠ digest then
      throw (.valueError "IDEMPOTENCY_CONFLICT")
    let run ← s.get old.runId
    return ((run, false), s)
  | none => do
    let s ← s.insertRun (freshId hex) (.created (freshId hex) kind config now)
    let s := { s with idempotency := s.idempotency.set key ⟨digest, freshId hex⟩ }
    -- the nested call reads the clock once more
    let (run, s) ← s.update (freshId hex) .empty "accepted" (some Patch.empty.json) later
    return ((run, true), s)

/-- The lookup of `submit`, before any other check: the run that holds the key. -/
def replay (key digest : String) : Except StoreError (Option Snapshot) :=
  match s.idempotency.get? key with
  | none => .ok none
  | some old => do
    if old.digest ≠ digest then
      throw (.valueError "IDEMPOTENCY_CONFLICT")
    let run ← s.get old.runId
    return some run

/-- The events of a run in the order of their numbers. -/
def eventsOf : List RunEvent :=
  (s.events.values.filter fun e => e.requestId = runId).insertionSort fun e f => e.seq ≤ f.seq

/-- `WHERE run_id=? AND seq>? ORDER BY seq LIMIT ?` -/
def eventsAfter (after limit : Int) : List RunEvent :=
  firstOf limit <|
    (s.events.values.filter fun e => e.requestId = runId ∧ after < e.seq).insertionSort
      fun e f => e.seq ≤ f.seq

/-! ### Calls -/

/-- A call together with what it takes from outside. -/
inductive Call where
  | create (kind : String) (config : Json) (key digest hex : String) (now later : Json)
  | get (runId : String)
  | update (runId : String) (patch : Patch) (kind : String) (data : Option Json) (now : Json)
  | events (runId : String) (after limit : Int)

/-- What a call comes back with. -/
inductive Reply where
  | created (run : Snapshot) (fresh : Bool)
  | run (run : Snapshot)
  | page (events : List RunEvent)
  | raised (error : StoreError)

/-- One call as one transaction: what raises is rolled back. -/
def call : Call → Reply × Store
  | .create kind config key digest hex now later =>
    match s.create kind config key digest hex now later with
    | .ok ((run, fresh), s') => (.created run fresh, s')
    | .error e => (.raised e, s)
  | .get runId =>
    match s.get runId with
    | .ok run => (.run run, s)
    | .error e => (.raised e, s)
  | .update runId patch kind data now =>
    match s.update runId patch kind data now with
    | .ok (run, s') => (.run run, s')
    | .error e => (.raised e, s)
  | .events runId after limit => (.page (s.eventsAfter runId after limit), s)

end Store

/-- The calls of all threads, one after the other. -/
def storeMachine : Machine Store Store.Call where
  init := Store.empty
  step s c := (s.call c).2

end Hqsb.Console
