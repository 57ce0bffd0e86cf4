/-
Hqsb/Console/Service.lean

The console service: deployments with one serial executor each, the jobs accepted
for them and the calls that cancel these.

One step of the machine is what a thread does between two points where others can
be seen: an access to the run store, or a section under the service lock.  A section
that reads the store and writes it later holds the lock in between (`Holder`): the
others find it taken and wait.  `submit` writes one fresh run and is a single step.

An executor takes a job through `_execute` phase by phase (`Deployment.exec`).  What it
takes from outside comes with the step: the clock, the verdict of the preflight and what
the worker does.  A worker answers as its provider can: nothing is generated without
a model, and a second load is an error.
-/
import Hqsb.Console.StoreReaders

namespace Hqsb.Console

open Lib

/-! ### Deployments and jobs -/

inductive Provider where
  | pytorch | openai | vllm | sglang
  deriving DecidableEq

namespace Provider

/-- `cfg.provider in {"vllm", "sglang"}` -/
def native : Provider → Bool
  | vllm | sglang => true
  | pytorch | openai => false

/-- The providers whose models live on this GPU. -/
def onGpu : Provider → Bool
  | pytorch | vllm | sglang => true
  | openai => false

end Provider

/-- The state label of a deployment. -/
inductive Label where
  | unloaded | loading | ready | draining | quantizing | failed
  deriving DecidableEq

/-- `state not in {"unloaded", "failed"}` -/
def Label.active : Label → Bool
  | unloaded | failed => false
  | loading | ready | draining | quantizing => true

inductive JobKind where
  | load | unload | generate | quantize | nativeBenchmark | draftUnload
  deriving DecidableEq

namespace JobKind

def text : JobKind → String
  | load => "load"
  | unload => "unload"
  | generate => "generate"
  | quantize => "quantize"
  | nativeBenchmark => "native_benchmark"
  | draftUnload => "draft_unload"

/-- `kind in {"generate", "quantize"}` -/
def produces : JobKind → Bool
  | generate | quantize => true
  | load | unload | nativeBenchmark | draftUnload => false

end JobKind

/-- An accepted job in the queue of its deployment. -/
structure Job where
  runId : String
  kind : JobKind

/-- What a worker answers at the end of a command. -/
structure WorkerResult where
  finishReason : Option String
  requestError : Option (String × String)
  text : Option String
  body : Json

/-- What `actor.execute` comes back with. -/
structure JobResult extends WorkerResult where
  workerTerminated : Bool

/-- `result.get("finish_reason") in {"cancelled", "timed_out"}` -/
def JobResult.stopped (r : JobResult) : Bool :=
  r.finishReason = some "cancelled" || r.finishReason = some "timed_out"

/-- Where an executor is in `_execute`. -/
inductive Phase where
  /-- taken from the queue, the lock not asked for yet -/
  | begin
  /-- the run read, the lock held -/
  | entered (found : Snapshot)
  /-- `running` is written -/
  | started
  /-- the deadline had passed before the start -/
  | expired
  /-- inside `actor.execute` -/
  | working
  /-- inside `on_output`, the snapshot read -/
  | emitting (current : Snapshot)
  /-- the worker has answered -/
  | returned (result : JobResult)
  /-- the label follows the answer -/
  | labelled (result : JobResult)
  /-- the snapshot read for the last patch -/
  | closing (result : JobResult) (current : Snapshot)
  /-- an exception, the actor closed -/
  | raised (error : String) (confirmed : Bool)
  /-- the label is `failed` -/
  | marked (error : String) (confirmed : Bool)
  /-- the metrics read for the last patch -/
  | failing (error : String) (confirmed : Bool) (metrics : Json)
  /-- before `finally` -/
  | done

/-- A deployment with its label, its worker and its executor. -/
structure Deployment where
  provider : Provider
  label : Label
  epoch : Option String
  loadRunId : Option String
  /-- the load run whose model the worker holds -/
  worker : Option String
  queue : List Job
  running : Option (Job × Phase)

namespace Deployment

/-- As it is registered. -/
def fresh (provider : Provider) : Deployment :=
  ⟨provider, .unloaded, none, none, none, [], none⟩

end Deployment

/-! ### Patches -/

/-- `run["state"]` -/
def Snapshot.state (run : Snapshot) : Option String := run.get? "state" >>= Json.str?

def stateJson (st : RunState) : Json := .str st.text

/-- `{**base, **extra}` for a dictionary among the values of a snapshot. -/
def mergedJson (base : Option Json) (extra : List (String × Json)) : Json :=
  let old := match base with
    | some (.obj members) => members
    | _ => []
  .obj (extra.foldl (fun members e => members.filter (fun m => m.1 ≠ e.1) ++ [e]) old)

namespace Patch

def cancelRequested : Patch := .of [("state", stateJson .cancelRequested)] (by simp)

def cancelled : Patch := .of [("state", stateJson .cancelled), ("cleanup", .str "not_started")] (by simp)

def rejected (message code : String) : Patch :=
  .of [("state", stateJson .failed), ("cleanup", .str "not_started"), ("error", .str message),
    ("error_code", .str code)] (by simp)

def running (startedAt metrics : Json) : Patch :=
  .of [("state", stateJson .running), ("started_at", startedAt), ("metrics", metrics)] (by simp)

def timedOut : Patch := .of [("state", stateJson .timedOut), ("cleanup", .str "not_started")] (by simp)

def progress (event : Json) : Patch := .of [("progress", event)] (by simp)

def output (text metrics : Json) : Patch := .of [("output", text), ("metrics", metrics)] (by simp)

/-- `"worker_terminated"`, unless the actor could not be closed. -/
def cleanupText (confirmed : Bool) : String := if confirmed then "worker_terminated" else "unknown"

def failed (error : String) (confirmed : Bool) (metrics : Json) : Patch :=
  .of [("state", stateJson .failed), ("cleanup", .str (cleanupText confirmed)),
    ("error", .str error), ("metrics", metrics)] (by simp)

/-- The state a run ends in after its worker has answered. -/
def finalState (r : JobResult) : String :=
  if r.requestError.isSome then RunState.failed.text
  else if r.stopped then r.finishReason.getD RunState.completed.text
  else RunState.completed.text

/-- The last patch of a run whose worker has answered. -/
def final (kind : JobKind) (r : JobResult) (current : Snapshot) (metrics : Json) : Patch :=
  let finish : Json := match r.finishReason with
    | some reason => .str reason
    | none => .null
  let output := match r.text with
    | some text => .str text
    | none => (current.get? "output").getD .null
  let result := if kind = .generate then .obj [("finish_reason", finish)] else r.body
  let cleanup := if r.workerTerminated then "worker_terminated" else "succeeded"
  match r.requestError with
  | none =>
    .of [("state", .str (finalState r)), ("metrics", metrics), ("cleanup", .str cleanup),
      ("output", output), ("finish_reason", finish), ("result", result)] (by simp)
  | some (message, code) =>
    .of [("state", .str (finalState r)), ("metrics", metrics), ("cleanup", .str cleanup),
      ("output", output), ("finish_reason", finish), ("result", result),
      ("error", .str message), ("error_code", .str code)] (by simp)

def finalEvent (r : JobResult) : String :=
  if r.requestError.isSome then "error" else if r.stopped then finalState r else "completed"

end Patch

/-! ### The executor -/

/-- How the worker's part of a job ends. -/
inductive Outcome where
  /-- the worker's own answer -/
  | done (result : WorkerResult)
  /-- killed ten seconds after the cancellation -/
  | terminated (timedOut : Bool)
  /-- an exception, and whether the actor could be closed behind it -/
  | raised (error : String) (confirmed : Bool)

/-- What an executor does next, with what it finds outside. -/
inductive Work where
  | pick
  | enter
  | decide (rejection : Option (String × String)) (startedAt metrics now : Json)
  | clock (late : Bool)
  | expire (now : Json)
  | progress (event now : Json)
  | emit
  | emitted (text : Json) (metrics : List (String × Json)) (now : Json)
  | finish (outcome : Outcome)
  | fail (error : String) (confirmed : Bool)
  | label (epoch : String)
  | read
  | write (metrics : List (String × Json)) (now : Json)
  | leave

/-- What a step of an executor needs of the service lock. -/
inductive LockUse where
  | unlocked
  | critical
  | acquire
  | release

/-- One write to the store: the patch, the kind and data of its event, the clock. -/
structure Write where
  patch : Patch
  kind : String
  data : Option Json
  now : Json

/-- What a step of an executor does: to its deployment, to the run of its job, and whether
that job is over. -/
structure Effect where
  deployment : Deployment
  lock : LockUse
  write : Option Write
  finished : Bool

namespace Deployment

variable (dep : Deployment)

def answers (kind : JobKind) (r : WorkerResult) : Bool :=
  match kind with
  | .load => dep.worker.isNone && r.finishReason.isNone && r.requestError.isNone
  | .unload => r.finishReason.isNone && r.requestError.isNone
  | .generate => dep.provider = .openai || dep.worker.isSome
  | .quantize => dep.provider = .pytorch && dep.worker.isSome
  | .nativeBenchmark => dep.provider.native && dep.worker.isSome
  | .draftUnload => dep.provider = .pytorch

section

variable (job : Job) (p : Phase)

/-- The step leads to phase `p`. -/
def goto : Deployment :=
  { dep with running := some (job, p) }

/-- The exception handler has tried to close the actor.  A worker that was still loading is not
there yet, so a close that is not confirmed leaves none behind either. -/
def closed (error : String) (confirmed : Bool) : Deployment :=
  { dep with
    worker := if confirmed then none else dep.worker
    running := some (job, .raised error confirmed) }

/-- The label a cancelled job puts back before it has started. -/
def restored (kind : JobKind) : Deployment :=
  match kind with
  | .load => { dep with label := .unloaded }
  | .unload | .quantize => { dep with label := .ready }
  | .generate | .nativeBenchmark | .draftUnload => dep

/-- A quantization that does not start puts `ready` back. -/
def unquantized (kind : JobKind) : Deployment :=
  if kind = .quantize then { dep with label := .ready } else dep

def relabelled (r : JobResult) (epoch : String) : Deployment :=
  if job.kind = .load ∧ ¬ r.stopped then
    { dep with label := .ready, epoch := some epoch, loadRunId := some job.runId }
  else if job.kind = .unload ∨ r.workerTerminated then
    { dep with label := .unloaded, epoch := none, loadRunId := none }
  else if job.kind = .quantize then { dep with label := .ready }
  else dep

/-- The label update takes the lock only where there is one to make. -/
def relabelLock (r : JobResult) : LockUse :=
  if job.kind = .load ∧ ¬ r.stopped ∨ job.kind = .unload ∨ r.workerTerminated ∨
      job.kind = .quantize then .critical
  else .unlocked

def failed : Deployment :=
  { dep with label := .failed, epoch := none, loadRunId := none }

def worked : Deployment :=
  { dep with worker := match job.kind with
      | .load => some job.runId
      | .unload => none
      | .generate | .quantize | .nativeBenchmark | .draftUnload => dep.worker }

def killed : Deployment := { dep with worker := none }

/-- The answer of `actor.execute` that killed its worker. -/
def terminatedResult (timedOut : Bool) : JobResult :=
  { finishReason := some (if timedOut then "timed_out" else "cancelled"), requestError := none
    text := none, body := .obj [], workerTerminated := true }

/-- The locked section at the start of `_execute`, the run being read. -/
def decide (found : Snapshot)
    (rejection : Option (String × String)) (startedAt metrics now : Json) : Effect :=
  if found.state = some RunState.cancelRequested.text then
    ⟨(dep.restored job.kind).goto job .done, .release,
      some ⟨.cancelled, "cancelled", none, now⟩, false⟩
  else match job.kind.produces, rejection with
  | true, some (message, code) =>
    ⟨(dep.unquantized job.kind).goto job .done, .release,
      some ⟨.rejected message code, "error", none, now⟩, false⟩
  | _, _ =>
    ⟨dep.goto job .started, .release,
      some ⟨.running startedAt metrics, "state.changed", none, now⟩, false⟩

/-- How `actor.execute` ends, if the worker can end like that. -/
def finish : Outcome → Option Deployment
  | .done r =>
    if dep.answers job.kind r then
      some ((dep.worked job).goto job (.returned { r with workerTerminated := false }))
    else none
  | .terminated timedOut => some (dep.killed.goto job (.returned (terminatedResult timedOut)))
  | .raised error confirmed => some (dep.closed job error confirmed)

/-- An exception inside the `try` of `_execute`. -/
def fail (error : String) (confirmed : Bool) : Option Effect :=
  match p with
  | .entered _ => some ⟨dep.closed job error confirmed, .release, none, false⟩
  | .started | .expired | .working | .emitting _ | .returned _ | .labelled _ | .closing _ _ =>
    some ⟨dep.closed job error confirmed, .unlocked, none, false⟩
  | .begin | .raised _ _ | .marked _ _ | .failing _ _ _ | .done => none

end

/-- One step of `_execute` for the job at hand; `run` is the run in the store. -/
def execute (job : Job) (run : Except StoreError Snapshot) : Phase → Work → Option Effect
  | .begin, .enter =>
    match run with
    | .ok found => some ⟨dep.goto job (.entered found), .acquire, none, false⟩
    | .error _ => some ⟨dep.closed job "KeyError" true, .critical, none, false⟩
  | .entered found, .decide rejection startedAt metrics now =>
    some (dep.decide job found rejection startedAt metrics now)
  | .started, .clock late =>
    if job.kind.produces ∧ late then
      some ⟨(dep.unquantized job.kind).goto job .expired,
        if job.kind = .quantize then .critical else .unlocked, none, false⟩
    else some ⟨dep.goto job .working, .unlocked, none, false⟩
  | .expired, .expire now =>
    some ⟨dep.goto job .done, .unlocked, some ⟨.timedOut, "error", none, now⟩, false⟩
  | .working, .progress event now =>
    some ⟨dep.goto job .working, .unlocked,
      some ⟨.progress event, "task.progress", some event, now⟩, false⟩
  | .working, .emit =>
    match run with
    | .ok current => some ⟨dep.goto job (.emitting current), .unlocked, none, false⟩
    | .error _ => some ⟨dep.closed job "KeyError" true, .unlocked, none, false⟩
  | .emitting current, .emitted text extra now =>
    let metrics := mergedJson (current.get? "metrics") extra
    some ⟨dep.goto job .working, .unlocked,
      some ⟨.output text metrics, "output.snapshot",
        some (.obj [("text", text), ("metrics", metrics)]), now⟩, false⟩
  | .working, .finish outcome =>
    (dep.finish job outcome).map fun dep => ⟨dep, .unlocked, none, false⟩
  | .returned r, .label epoch =>
    some ⟨(dep.relabelled job r epoch).goto job (.labelled r), relabelLock job r, none, false⟩
  | .labelled r, .read =>
    match run with
    | .ok current => some ⟨dep.goto job (.closing r current), .unlocked, none, false⟩
    | .error _ => some ⟨dep.closed job "KeyError" true, .unlocked, none, false⟩
  | .closing r current, .write extra now =>
    some ⟨dep.goto job .done, .unlocked,
      some ⟨.final job.kind r current (mergedJson (current.get? "metrics") extra),
        Patch.finalEvent r, none, now⟩, false⟩
  | .raised error confirmed, .label _ =>
    some ⟨dep.failed.goto job (.marked error confirmed), .critical, none, false⟩
  | .marked error confirmed, .read =>
    match run with
    | .ok current =>
      some ⟨dep.goto job (.failing error confirmed ((current.get? "metrics").getD .null)),
        .unlocked, none, false⟩
    | .error _ => some ⟨dep.goto job .done, .unlocked, none, false⟩
  | .failing error confirmed metrics, .write extra now =>
    some ⟨dep.goto job .done, .unlocked,
      some ⟨.failed error confirmed (mergedJson (some metrics) extra), "error", none, now⟩,
      false⟩
  | .done, .leave => some ⟨{ dep with running := none }, .critical, none, true⟩
  | p, .fail error confirmed => dep.fail job p error confirmed
  | _, _ => none

end Deployment

/-- An `update` of a run that is stored, by one of the writes above. -/
def Store.put (s : Store) (runId : String) (w : Write) : Store :=
  (s.call (.update runId w.patch w.kind w.data w.now)).2

namespace Deployment

/-- One step of the executor: the next job is taken, or the one at hand goes on. -/
def exec (dep : Deployment) (store : Store) (w : Work) : Option (Job × Effect) :=
  match dep.running, dep.queue, w with
  | none, job :: queue, .pick =>
    some (job, ⟨{ dep with queue := queue, running := some (job, .begin) }, .unlocked, none, false⟩)
  | some (job, p), _, w =>
    (dep.execute job (store.get job.runId) p w).map fun eff => (job, eff)
  | _, _, _ => none

end Deployment

/-! ### The service -/

/-- Who is inside a section of the service lock that reads the store and writes it later. -/
inductive Holder where
  | cancel (runId : String)
  | executor (deployment : String)
  deriving DecidableEq

namespace LockUse

/-- The lock allows a step of the executor of `d`. -/
def allows (d : String) (lock : Option Holder) : LockUse → Bool
  | .unlocked => true
  | .critical | .acquire => lock.isNone
  | .release => lock = some (.executor d)

def after (d : String) (lock : Option Holder) : LockUse → Option Holder
  | .unlocked | .critical => lock
  | .acquire => some (.executor d)
  | .release => none

end LockUse

/-- What a client sends to `submit`; the checks of its payload come as the errors they raise
before and behind those of the deployment's state. -/
structure Submission where
  kind : JobKind
  deployment : String
  key : String
  digest : String
  hex : String
  config : Json
  expectedEpoch : Option String
  benchmarkOwner : Option String
  planError : Option String
  limitError : Option String
  now : Json
  later : Json

/-- `ConsoleService` -/
structure Service where
  store : Store
  lock : Option Holder
  deployments : OrderedDict String Deployment
  pending : Nat
  benchmarkOwner : Option String
  closed : Bool
  maxPending : Nat

namespace Service

def start (configs : OrderedDict String Provider) (maxPending : Nat) : Service where
  store := Store.empty
  lock := none
  deployments := configs.map Deployment.fresh
  pending := 0
  benchmarkOwner := none
  closed := false
  maxPending := maxPending

section

variable (σ : Service)

/-- Some other deployment with a model on this GPU is not down. -/
def gpuTaken (deployment : String) : Bool :=
  σ.deployments.entries.any fun e =>
    e.1 ≠ deployment && e.2.provider.onGpu && e.2.label.active

section

variable (dep : Deployment) (req : Submission)

/-- The checks of `submit` on the state of the deployment. -/
def stateError : Option String :=
  match req.kind with
  | .generate | .quantize =>
    if dep.label ≠ .ready then some "DEPLOYMENT_NOT_READY"
    else if req.expectedEpoch ≠ dep.epoch then some "STALE_EPOCH"
    else none
  | .load =>
    if dep.label.active then some "DEPLOYMENT_BUSY"
    else if dep.provider.onGpu ∧ σ.gpuTaken req.deployment then some "DEVICE_BUSY"
    else none
  | .nativeBenchmark =>
    if ¬ dep.provider.native ∨ dep.label ≠ .ready ∨ req.expectedEpoch ≠ dep.epoch then
      some "NATIVE_ENGINE_NOT_READY"
    else if σ.pending ≠ 0 then some "DEVICE_BUSY"
    else none
  | .draftUnload =>
    if dep.label ≠ .ready ∨ req.expectedEpoch ≠ dep.epoch ∨ σ.pending ≠ 0 then
      some "L7_DRAFT_LIFECYCLE_BUSY"
    else if dep.provider ≠ .pytorch then some "L7_LOCAL_WORKER_REQUIRED"
    else none
  | .unload => if dep.label ≠ .ready then some "DEPLOYMENT_NOT_READY" else none

/-- The checks of `submit` behind the idempotency lookup, in their order. -/
def refusal : Option String :=
  if σ.benchmarkOwner.isSome ∧ σ.benchmarkOwner ≠ req.benchmarkOwner then some "BENCHMARK_BUSY"
  else if σ.closed then some "SHUTTING_DOWN"
  else if σ.pending ≥ σ.maxPending then some "QUEUE_FULL"
  else req.planError <|> σ.stateError dep req <|> req.limitError

def acceptedLabel : JobKind → Label
  | .load => .loading
  | .unload => .draining
  | .quantize => .quantizing
  | .generate | .nativeBenchmark | .draftUnload => dep.label

def accept (store : Store) : Service :=
  let job : Job := ⟨Store.freshId req.hex, req.kind⟩
  { σ with
    store := store
    benchmarkOwner :=
      if req.kind = .nativeBenchmark then some job.runId else σ.benchmarkOwner
    deployments := σ.deployments.set req.deployment
      { dep with label := acceptedLabel dep req.kind, queue := dep.queue ++ [job] }
    pending := σ.pending + 1 }

end

/-- The texts of the store's errors, as the service passes them on. -/
def storeErrorText : StoreError → String
  | .valueError text => text
  | .keyError _ => "KeyError"
  | .integrityError => "IntegrityError"
  | .typeError => "TypeError"

/-- `submit`: the run, and whether it is a new one. -/
def submit (req : Submission) : Except String (Snapshot × Service) :=
  match σ.deployments.get? req.deployment with
  | none => .error "NOT_FOUND"
  | some dep =>
    match σ.store.replay req.key req.digest with
    | .error e => .error (storeErrorText e)
    | .ok (some run) => .ok (run, σ)
    | .ok none =>
      match σ.refusal dep req with
      | some code => .error code
      | none =>
        match σ.store.create req.kind.text req.config req.key req.digest req.hex req.now
          req.later with
        | .error e => .error (storeErrorText e)
        | .ok ((run, _), store) => .ok (run, σ.accept dep req store)

/-- The first half of `cancel`: the run is read, and a run that can still be cancelled
keeps the lock taken. -/
def cancel (runId : String) : Service :=
  match σ.store.get runId with
  | .error _ => σ
  | .ok run =>
    if run.isTerminal ∨ run.state = some RunState.cancelRequested.text then σ
    else { σ with lock := some (.cancel runId) }

/-- The second half of `cancel`, for the run that was read. -/
def confirm (now : Json) : Service :=
  match σ.lock with
  | some (.cancel runId) =>
    { σ with
      store := σ.store.put runId ⟨.cancelRequested, "state.changed", none, now⟩
      lock := none }
  | _ => σ

/-- The service after a step of the executor of `d`. -/
def applied (d : String) (job : Job) (eff : Effect) : Service :=
  { σ with
    store := match eff.write with
      | some w => σ.store.put job.runId w
      | none => σ.store
    lock := LockUse.after d σ.lock eff.lock
    deployments := σ.deployments.set d eff.deployment
    pending := if eff.finished then σ.pending - 1 else σ.pending
    benchmarkOwner :=
      if eff.finished ∧ job.kind = .nativeBenchmark ∧ σ.benchmarkOwner = some job.runId then none
      else σ.benchmarkOwner }

/-- One step of the executor of `d`, when the lock allows it. -/
def exec (d : String) (w : Work) : Service :=
  match σ.deployments.get? d with
  | none => σ
  | some dep =>
    match dep.exec σ.store w with
    | none => σ
    | some (job, eff) => if eff.lock.allows d σ.lock then σ.applied d job eff else σ

/-- What a thread does next. -/
inductive Act where
  | submit (req : Submission)
  | cancel (runId : String)
  | confirm (now : Json)
  | exec (deployment : String) (work : Work)
  | close

/-- One step of some thread.  What needs the lock waits while it is taken. -/
def step : Act → Service
  | .submit req =>
    if σ.lock.isSome then σ
    else match σ.submit req with
      | .ok (_, σ') => σ'
      | .error _ => σ
  | .cancel runId => if σ.lock.isSome then σ else σ.cancel runId
  | .confirm now => σ.confirm now
  | .exec d w => σ.exec d w
  | .close => if σ.lock.isSome then σ else { σ with closed := true }

/-- The cancellation predicate handed to `actor.execute`. -/
def isCancelled (runId : String) : Bool :=
  σ.closed || match σ.store.get runId with
    | .ok run => run.state = some RunState.cancelRequested.text
    | .error _ => false

end

end Service

/-- The console service under the steps of all its threads. -/
def serviceMachine (configs : OrderedDict String Provider) (maxPending : Nat) :
    Machine Service Service.Act where
  init := .start configs maxPending
  step := Service.step

end Hqsb.Console
