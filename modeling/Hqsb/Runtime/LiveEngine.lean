/-
Hqsb/Runtime/LiveEngine.lean

The single-writer live scheduler (`hqsb/runtime/live_engine.py`).

`Engine` is the object's state; `release`, `finish`, `accept`, `preempt`,
`admitRow` and `commitStep` are its methods and the bodies of the loops of `run`.
`Session.step` is `run` itself as a machine: a `Point` names the place in `run`
with its local variables, and one step of the machine is one pass through a loop
body, so "at every moment" means "in every reachable configuration":

    begin → receive* → sweep* → arrange → admission* → plan → prepare* → execute → commit* → begin
                          └────────┴────────────→ drain* → returned

The environment comes in as a `Reading`: the batch `receive()` returns, one clock
reading and the answer of `cancelled()`.  The executor is a parameter; its
`prepare` may refuse anything and its `execute` may raise.

Left out: the session id and time every event carries and the contents of the
forward receipt, which the engine only passes on.
-/
import Hqsb.Lib.Machine
import Hqsb.Runtime.KvManager
import Hqsb.Runtime.SchedulerPolicies

namespace Hqsb

open Lib

/-! ### The executor and the environment -/

/-- What the engine calls.  `execute` returns after device completion with one token per step. -/
structure Executor (σ : Type) where
  contextLimit : Nat
  prepare : σ → List Step → Option String × σ
  execute : σ → List Step → (forwardId : String) → Except String (List Token × σ)
  release : σ → String → σ

inductive Message
  | submit (row : Submission)
  | seal
  | cancel (requestId : String)

/-- What one step of `run` learns from outside. -/
structure Reading where
  batch : List Message := []
  clock : ℚ := 0
  cancelled : Bool := false

/-- Why a lease was given up. -/
inductive ReleaseCause
  | finished (reason : Reason)
  | preempted

inductive WaitingReason
  | activeSequenceLimit | kvReservationCapacity

inductive Event
  | requestAccepted (requestId : String) (inputTokens outputLimit : Nat) (received : ℚ)
      (tenant : String) (priority : Int)
  | requestRefused (requestId : String)
  | requestTerminal (requestId : String) (reason : Reason) (error : Option String)
      (outputTokens consumed : Nat)
  | requestPreempted (requestId : String) (committedOutput : Nat)
  | controlRefused (requestId : String)
  | kvReserve (requestId : String) (generation capacity reservedTotal : Nat)
  | kvRelease (requestId : String) (generation valid : Nat) (cause : ReleaseCause)
  | kvCommit (requestId forwardId : String) (generation valid : Nat)
  | schedulerPlan (tickId : Nat) (forwardId : String) (waiting selected : List String)
      (reservedTokens : Nat) (policy : Policy) (validTokenBudgetUsed : Nat)
      (waitingReasons : List (String × WaitingReason)) (deferredActive : List String)
      (leases : List (String × Nat))
  | forward (tickId : Nat) (forwardId : String)
  | token (requestId forwardId : String) (tokenId : Token) (outputIndex : Nat) (ready : ℚ)

/-- The arguments of `LiveEngine(...)` and the `deadline` of `run`. -/
structure Session (σ : Type) where
  executor : Executor σ
  limits : SchedulingLimits
  mode : Mode
  sessionId : String := ""
  eosIds : Finset Token := ∅
  deadline : ℚ

structure Engine (σ : Type) where
  executor : σ
  rows : OrderedDict String Sequence := .empty
  kv : KVManager
  service : String → Nat := fun _ => 0
  tick : Nat := 0
  forwards : Nat := 0
  preemptions : Nat := 0
  liveJoinIds : Finset String := ∅
  confirmedJoinIds : Finset String := ∅
  executedIds : Finset String := ∅
  events : List Event := []

/-- Python's `or` on an optional time: `None` and `0.0` are both false. -/
def timeOr (t : Option ℚ) (default : ℚ) : ℚ :=
  match t with
  | none => default
  | some t => if t = 0 then default else t

namespace Engine

variable {σ : Type} (S : Session σ)

variable (e : Engine σ)

def event (body : Event) : Engine σ := { e with events := e.events ++ [body] }

def setRow (row : Sequence) : Engine σ := { e with rows := e.rows.set row.id row }

def liveRows : List Sequence :=
  e.rows.values.filter fun r => r.state ≠ .terminal

def activeRows : List Sequence :=
  e.rows.values.filter fun r => r.state = .active

def waitingRows : List Sequence :=
  e.rows.values.filter fun r => r.state = .waiting

/-! ### Methods -/

def release (row : Sequence) (cause : ReleaseCause) : Except EngineError (Engine σ) :=
  match e.kv.leases.get? row.id with
  | none => .ok e
  | some lease => do
    let kv ← e.kv.release row.id lease.generation
    return { e with executor := S.executor.release e.executor row.id, kv := kv }.event
      (.kvRelease row.id lease.generation lease.valid cause)

def finish (row : Sequence) (reason : Reason) (error : Option String) (now : ℚ) :
    Except EngineError (Engine σ) := do
  let row := { row with state := .terminal, reason := some reason, error := error, ended := some now }
  let e ← (e.setRow row).release S row (.finished reason)
  return e.event (.requestTerminal row.id reason error row.output.length row.consumed)

/-- Why `accept` rejects a row at once, if it does. -/
def rejection (kv : KVManager) (row : Sequence) : Option String :=
  if kv.capacity < row.needed then some "KV_CAPACITY"
  else if S.limits.chunkedPrefill = false ∧ S.limits.maxBatchedTokens < row.inputIds.length then
    some "FULL_PREFILL_TOKEN_BUDGET"
  else if S.executor.contextLimit < row.inputIds.length + row.limit then some "CONTEXT_LIMIT"
  else if S.limits.maxPaddedPositions < row.needed then some "PADDED_POSITION_BUDGET"
  else none

def accept (row : Sequence) (now : ℚ) : Except EngineError (Engine σ) :=
  if row.id ∈ e.rows.keys then
    .ok (e.event (.requestRefused row.id))
  else
    let e := (e.setRow row).event (.requestAccepted row.id row.inputIds.length row.limit
      row.received row.tenant row.priority)
    match rejection S e.kv row with
    | some error => e.finish S row .rejected (some error) now
    | none => .ok e

/-! ### The loop bodies of `run` -/

/-- A `cancel` control message. -/
def cancel (requestId : String) (now : ℚ) : Except EngineError (Engine σ) :=
  match e.rows.get? requestId with
  | some row =>
    if row.state ≠ .terminal then e.finish S row .cancelled none now
    else .ok (e.event (.controlRefused requestId))
  | none => .ok (e.event (.controlRefused requestId))

/-- A time in `cancel_at` has passed. -/
def cancelDue (row : Sequence) (now : ℚ) : Bool := row.cancelAt.any fun t => t ≤ now

/-- The deadline and cancellation sweep, for a row that is not terminal. -/
def expire (row : Sequence) (now : ℚ) (stopping : Bool) (clock : ℚ) :
    Except EngineError (Engine σ) :=
  if stopping ∨ cancelDue row now then
    e.finish S row (if S.deadline ≤ now then .timedOut else .cancelled) none clock
  else if row.deadline ≤ now then e.finish S row .timedOut none clock
  else .ok e

/-- `(r.priority, -r.received)` is below the key of `best`. -/
def keyBelow (r best : Sequence) : Bool :=
  r.priority < best.priority ∨ r.priority = best.priority ∧ best.received < r.received

/-- The victim of a preemption: lowest priority, latest arrival, first such row. -/
def victimOf : List Sequence → Option Sequence
  | [] => none
  | first :: rest => some (rest.foldl (fun best r => if keyBelow r best then r else best) first)

/-- Controlled priority preemption only at a completed forward boundary. -/
def preemptible (active waiting : List Sequence) : Option Sequence :=
  if S.mode = .continuous ∧ S.limits.preemption = .recompute ∧
      e.preemptions < S.limits.maxPreemptions then
    match waiting, victimOf active with
    | first :: _, some victim => if victim.priority < first.priority then some victim else none
    | _, _ => none
  else none

def preempt (victim : Sequence) : Except EngineError (Engine σ) := do
  let e ← e.release S victim .preempted
  let victim :=
    { victim with state := .waiting, consumed := 0, preemptions := victim.preemptions + 1 }
  return { e.setRow victim with preemptions := e.preemptions + 1 }.event
    (.requestPreempted victim.id victim.output.length)

/-- Reserve and activate one waiting row; `false` when the capacity left does not hold it. -/
def admitRow (row : Sequence) (active : List String) (now : ℚ) :
    Except EngineError (Engine σ × Bool) := do
  let (lease, kv) ← e.kv.reserve row.id row.needed
  match lease with
  | none => return (e, false)
  | some lease =>
    let joins := (active.any fun id => id ∈ e.executedIds) ∧ row.admitted = none
    let e := if joins then { e with liveJoinIds := insert row.id e.liveJoinIds } else e
    let row := { row with state := .active, admitted := some (timeOr row.admitted now) }
    let e := { e.setRow row with kv := kv }
    return (e.event (.kvReserve row.id lease.generation lease.capacity kv.reserved), true)

/-- The positions a padded forward over `steps` occupies. -/
def paddedPositions (steps : List Step) : Nat :=
  steps.length * ((steps.map Step.start).foldr max 0 +
    (steps.map fun s => s.tokenIds.length).foldr max 0)

/-- Split overly padded groups without changing request order: pop from the end while more than
one step is left.  The bound `n` on the pops is the number of steps. -/
def shrinkTo (limits : SchedulingLimits) : (n : Nat) → List Step → List Step
  | 0, steps => steps
  | n + 1, steps =>
    if 1 < steps.length ∧ limits.maxPaddedPositions < paddedPositions steps then
      shrinkTo limits n steps.dropLast
    else steps

def shrink (limits : SchedulingLimits) (steps : List Step) : List Step :=
  shrinkTo limits steps.length steps

/-- `{s.request_id: self.kv.leases[s.request_id].generation for s in steps}` -/
def leaseGenerations (steps : List Step) : Except EngineError (List (String × Nat)) :=
  steps.mapM fun s =>
    match e.kv.leases.get? s.requestId with
    | some lease => .ok (s.requestId, lease.generation)
    | none => .error .keyError

/-- The `scheduler.plan` event. -/
def planEvent (cap : Nat) (waiting active : List String) (steps : List Step)
    (forwardId : String) (leases : List (String × Nat)) : Event :=
  let selected := steps.map Step.requestId
  let stillWaiting := waiting.filter fun id =>
    (e.rows.get? id).any fun r => r.state = .waiting
  .schedulerPlan e.tick forwardId waiting selected e.kv.reserved S.limits.policy
    ((steps.map fun s => s.tokenIds.length).sum)
    (stillWaiting.map fun id =>
      (id, if cap ≤ active.length then .activeSequenceLimit else .kvReservationCapacity))
    (active.filter fun id => id ∉ selected) leases

/-- The joins a forward over `members` confirms. -/
def confirmJoins (members : Finset String) : Engine σ :=
  { e with
    confirmedJoinIds := e.confirmedJoinIds ∪ (members ∩ e.liveJoinIds).filter fun i =>
      ((members.erase i) ∩ e.executedIds).Nonempty
    executedIds := e.executedIds ∪ members }

/-- A row after a forward that fed it `step`. -/
def feed (row : Sequence) (step : Step) (ready : ℚ) : Sequence :=
  { row with
    maxUnscheduledMs :=
      max row.maxUnscheduledMs ((ready - timeOr row.lastScheduled row.received) * 1000)
    lastScheduled := some ready
    recomputed :=
      if row.preemptions ≠ 0 then
        row.recomputed + (min (step.start + step.tokenIds.length) row.target - step.start)
      else row.recomputed
    consumed := row.consumed + step.tokenIds.length }

/-- A row after it emitted `token`. -/
def emitToken (row : Sequence) (token : Token) (ready : ℚ) : Sequence :=
  { row with output := row.output ++ [token], times := row.times ++ [ready] }

/-- The reason a row ends with after emitting `token`, if it ends. -/
def endReason (row : Sequence) (token : Token) : Option Reason :=
  if row.limit ≤ row.output.length then some .length
  else if token ∈ S.eosIds ∧ row.fixed = false then some .stop
  else none

/-- The body of the commit loop: the lease first, then the deadlines, then the token. -/
def commitStep (forwardId : String) (step : Step) (token : Token) (ready clock : ℚ) :
    Except EngineError (Engine σ) :=
  match e.rows.get? step.requestId with
  | none => .error .keyError
  | some row =>
    match e.kv.leases.get? step.requestId with
    | none => .error .keyError
    | some lease => do
      let row := feed row step ready
      let kv ← e.kv.commit row.id lease.generation row.consumed
      let e := { e.setRow row with
        kv := kv
        service := Function.update e.service row.tenant
          (e.service row.tenant + step.tokenIds.length) }.event
        (.kvCommit row.id forwardId lease.generation row.consumed)
      if row.deadline ≤ ready ∨ cancelDue row ready then
        e.finish S row (if row.deadline ≤ ready then .timedOut else .cancelled) none clock
      else if step.emit then
        let row := emitToken row token ready
        let e := (e.setRow row).event (.token row.id forwardId token row.output.length ready)
        match endReason S row token with
        | some reason => e.finish S row reason none clock
        | none => .ok e
      else .ok e

end Engine

/-! ### `run` -/

/-- A place in `run`, with the locals that are live there.  Rows are named by their ids. -/
inductive Point
  | begin
  | receive (batch : List Message)
  | sweep (now : ℚ) (stopping : Bool) (pending : List String)
  | arrange (now : ℚ)
  | admission (now : ℚ) (waiting active pending : List String)
  | plan (now : ℚ) (waiting active : List String)
  | prepare (waiting active : List String) (steps : List Step)
  | execute (waiting active : List String) (steps : List Step)
  | commit (forwardId : String) (ready : ℚ) (pending : List (Step × Token))
  | drain (pending : List String)
  | returned (rows : List Sequence)
  | raised (error : EngineError)

structure Config (σ : Type) where
  point : Point := .begin
  engine : Engine σ
  sealed : Bool := false
  notified : List String := []

namespace Config

variable {σ : Type}

def goto (c : Config σ) (point : Point) : Config σ := { c with point := point }

/-- Continue with the engine a method returned, or raise its error. -/
def attempt (c : Config σ) (result : Except EngineError (Engine σ)) (point : Point) : Config σ :=
  match result with
  | .ok e => { c with engine := e, point := point }
  | .error error => c.goto (.raised error)

/-- `if not steps`: raise if a row of the tick is still active, else start the next tick. -/
def idle (c : Config σ) (active : List String) : Config σ :=
  if active.any fun id => (c.engine.rows.get? id).any fun r => r.state = .active then
    c.goto (.raised .schedulerNoProgress)
  else c.goto .begin

end Config

namespace Session

variable {σ : Type} (S : Session σ)

def cap : Nat := if S.mode = .serial then 1 else S.limits.maxActiveSequences

/-- The lines between the sweep and the admission loop. -/
def arrange (c : Config σ) (now : ℚ) : Config σ :=
  let e := c.engine
  if c.sealed ∧ e.liveRows = [] then c.goto (.drain e.rows.keys)
  else
    let active := e.activeRows
    let waiting := ordered e.waitingRows S.limits.policy now S.limits.agingMs e.service
      S.limits.tenantWeights
    let next (active : List Sequence) : Point :=
      let ids := active.map Sequence.id
      if S.mode ≠ .static ∨ ids = [] then
        .admission now (waiting.map Sequence.id) ids (waiting.map Sequence.id)
      else .plan now (waiting.map Sequence.id) ids
    match e.preemptible S active waiting with
    | some victim => c.attempt (e.preempt S victim) (next (active.erase victim))
    | none => c.goto (next active)

def step (c : Config σ) (reading : Reading) : Config σ :=
  let e := c.engine
  match c.point with
  | .begin =>
    { c with engine := { e with tick := e.tick + 1 }, point := .receive reading.batch }
  | .receive [] =>
    c.goto (.sweep reading.clock (reading.cancelled ∨ S.deadline ≤ reading.clock) e.rows.keys)
  | .receive (message :: batch) =>
    match message with
    | .submit row => c.attempt (e.accept S (.ofSubmission row) reading.clock) (.receive batch)
    | .seal => { c with sealed := true, point := .receive batch }
    | .cancel requestId => c.attempt (e.cancel S requestId reading.clock) (.receive batch)
  | .sweep now stopping [] =>
    if stopping then c.goto (.drain e.rows.keys) else c.goto (.arrange now)
  | .sweep now stopping (id :: pending) =>
    match e.rows.get? id with
    | none => c.goto (.raised .keyError)
    | some row =>
      if row.state = .terminal then
        { c with
          notified := if id ∈ c.notified then c.notified else c.notified ++ [id]
          point := .sweep now stopping pending }
      else c.attempt (e.expire S row now stopping reading.clock) (.sweep now stopping pending)
  | .arrange now => S.arrange c now
  | .admission now waiting active [] => c.goto (.plan now waiting active)
  | .admission now waiting active (id :: pending) =>
    if S.cap ≤ active.length then c.goto (.plan now waiting active)
    else
      match e.rows.get? id with
      | none => c.goto (.raised .keyError)
      | some row =>
        match e.admitRow row active now with
        | .error error => c.goto (.raised error)
        | .ok (e, admitted) =>
          { c with
            engine := e
            point := .admission now waiting (if admitted then active ++ [id] else active) pending }
  | .plan now waiting active =>
    let rows := active.filterMap e.rows.get?
    let steps := Engine.shrink S.limits
      (Hqsb.plan rows S.limits now e.service S.mode e.tick)
    if steps = [] then c.idle active else c.goto (.prepare waiting active steps)
  | .prepare _ active [] => c.idle active
  | .prepare waiting active (first :: rest) =>
    match S.executor.prepare e.executor (first :: rest) with
    | (none, x) =>
      { c with engine := { e with executor := x }, point := .execute waiting active (first :: rest) }
    | (some refusal, x) =>
      let c := { c with engine := { e with executor := x } }
      if rest ≠ [] then c.goto (.prepare waiting active (first :: rest).dropLast)
      else
        match e.rows.get? first.requestId with
        | none => c.goto (.raised .keyError)
        | some row =>
          match c.engine.finish S row .rejected (some refusal) reading.clock with
          | .error error => c.goto (.raised error)
          | .ok e => Config.idle { c with engine := e } active
  | .execute waiting active steps =>
    let e := { e with forwards := e.forwards + 1 }
    let forwardId := S.sessionId ++ ":f" ++ toString e.forwards
    match e.leaseGenerations steps with
    | .error error => c.goto (.raised error)
    | .ok leases =>
      let e := e.event (e.planEvent S S.cap waiting active steps forwardId leases)
      match S.executor.execute e.executor steps forwardId with
      | .error message => { c with engine := e, point := .raised (.executor message) }
      | .ok (tokens, x) =>
        let e := { e with executor := x }.event (.forward e.tick forwardId)
        let e := e.confirmJoins (steps.map Step.requestId).toFinset
        { c with engine := e, point := .commit forwardId reading.clock (steps.zip tokens) }
  | .commit _ _ [] => c.goto .begin
  | .commit forwardId ready ((step, token) :: pending) =>
    c.attempt (e.commitStep S forwardId step token ready reading.clock)
      (.commit forwardId ready pending)
  | .drain [] =>
    if e.kv.leases.keys = [] then c.goto (.returned e.rows.values)
    else c.goto (.raised .kvLeaseLeak)
  | .drain (id :: pending) =>
    match e.rows.get? id with
    | none => c.goto (.raised .keyError)
    | some row =>
      if row.state ≠ .terminal then
        c.attempt (e.finish S row .cancelled none reading.clock) (.drain pending)
      else c.goto (.drain pending)
  | .returned _ => c
  | .raised _ => c

/-- `run` from a fresh engine over executor state `x`. -/
def machine (x : σ) : Machine (Config σ) Reading where
  init := { engine := { executor := x, kv := { capacity := S.limits.kvCapacityTokens } } }
  step := S.step

end Session

end Hqsb
