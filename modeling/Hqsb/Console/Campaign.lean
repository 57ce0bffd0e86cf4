/-
Hqsb/Console/Campaign.lean

Scheduling campaigns: experiments that have the resident model to themselves.

They share the store, the deployments and the lock of the console service, and add
an executor of their own and a lock of their own (`Campaigns.lock`).  One step is
again what a thread does between two points where others can be seen.  `start` holds
both locks throughout; live ingress and the sealing of a result hold the campaigns'
lock from their read to their write, but not that of the service.

The executor of the campaigns writes `running` without a look at the run
(`Campaigns.work`): it does not take the lock of the service there, unlike `_execute`
of the service itself.
-/
import Hqsb.Console.Service

namespace Hqsb.Console

open Lib

/-! ### Experiments -/

/-- An experiment in the queue of the campaigns. -/
structure CampaignJob where
  runId : String
  deployment : String

/-- What the worker answers, if it was not terminated. -/
structure CampaignResult where
  finishReason : String
  cleanup : String
  quality : Json
  observed : List String
  body : List (String × Json)

/-- What `publish` says of the evidence on disk. -/
structure CampaignEvidence where
  captureStatus : String
  publication : Json
  counts : Json

/-- Where the executor of the campaigns is in `_execute`. -/
inductive CampaignPhase where
  /-- taken from the queue -/
  | begin
  /-- inside `actor.execute`, `running` being written -/
  | working
  /-- the worker has answered -/
  | returned (result : CampaignResult)
  /-- the evidence is published -/
  | published (result : CampaignResult) (evidence : CampaignEvidence)
  /-- the run read for the last patch, the campaigns' lock held -/
  | sealing (result : CampaignResult) (evidence : CampaignEvidence) (found : Snapshot)
  /-- an exception, the actor closed -/
  | raised (error : String) (confirmed : Bool)
  /-- the deployment is `failed` -/
  | marked (error : String) (confirmed : Bool)
  /-- before `finally` -/
  | done

/-- How `actor.execute` comes back. -/
inductive CampaignOutcome where
  | answered (result : CampaignResult)
  | terminated (confirmed : Bool)
  | raised (error : String) (confirmed : Bool)

/-- What the executor of the campaigns does next. -/
inductive CampaignWork where
  | pick
  | start (now : Json)
  | progress (event now : Json)
  | finish (outcome : CampaignOutcome)
  | publish (evidence : CampaignEvidence)
  | seal
  | write (now : Json)
  | fail (error : String) (confirmed : Bool)
  | label
  | leave

/-- What the resident worker says of its cache layout. -/
inductive Capability where
  | supported
  | unsupported (reasons : String)
  /-- an exception or a terminated worker -/
  | lost

/-- What a client sends to `start`, with what the checks outside find. -/
structure CampaignRequest where
  deployment : String
  expectedEpoch : String
  key : String
  digest : String
  hex : String
  config : Json
  capability : Capability
  preflight : Option String
  now : Json
  later : Json

/-- A request that is added to a running experiment. -/
structure IngressItem where
  id : String
  stored : Json
  queueFull : Bool

/-- Who is inside a section of the campaigns' lock. -/
inductive CampaignHolder where
  /-- live ingress, about to write the new config -/
  | ingress (runId : String) (item : String) (config : Json)
  /-- the executor, about to write the last patch -/
  | sealing

/-- `SchedulingCampaigns` -/
structure Campaigns where
  service : Service
  queue : List CampaignJob
  running : Option (CampaignJob × CampaignPhase)
  active : Option String
  lock : Option CampaignHolder
  closed : Bool
  privileged : Bool

namespace Campaigns

def fresh (configs : OrderedDict String Provider) (maxPending : Nat) (privileged : Bool) :
    Campaigns where
  service := .start configs maxPending
  queue := []
  running := none
  active := none
  lock := none
  closed := false
  privileged := privileged

/-- `get`: a run of another kind is not found. -/
def get (c : Campaigns) (identity : String) : Except String Snapshot :=
  match c.service.store.get identity with
  | .error _ => .error "NOT_FOUND"
  | .ok row =>
    if row.get? "kind" >>= Json.str? = some "scheduling" then .ok row else .error "NOT_FOUND"

/-- The deployment `d` changed by `f`. -/
def onDeployment (c : Campaigns) (d : String) (f : Deployment → Deployment) : Campaigns :=
  match c.service.deployments.get? d with
  | none => c
  | some dep => { c with
      service := { c.service with deployments := c.service.deployments.set d (f dep) } }

end Campaigns

/-- The label that a lost campaign leaves; the load run stays where it was. -/
def Deployment.abandoned (dep : Deployment) : Deployment :=
  { dep with label := .failed, epoch := none }

def Deployment.stopped (confirmed : Bool) (dep : Deployment) : Deployment :=
  { dep with worker := if confirmed then none else dep.worker }

/-! ### Starting -/

namespace Campaigns

/-- `claim_benchmark` behind the checks of `start`. -/
def claimError (σ : Service) (deployment : String) : Option String :=
  if σ.closed then some "SHUTTING_DOWN"
  else if σ.pending ≥ σ.maxPending then some "QUEUE_FULL"
  else if σ.benchmarkOwner.isSome ∨ σ.pending ≠ 0 then some "BENCHMARK_BUSY"
  else if σ.deployments.entries.any fun e =>
      e.2.provider = .pytorch && e.1 ≠ deployment && e.2.label.active then some "DEVICE_BUSY"
  else none

section

variable (c : Campaigns) (req : CampaignRequest)

/-- The checks of `start` before the worker is asked. -/
def startError : Option String :=
  if c.closed then some "SHUTTING_DOWN"
  else if c.privileged then some "SCHEDULING_UNSUPPORTED"
  else match c.service.deployments.get? req.deployment with
  | none => some "NOT_FOUND"
  | some dep =>
    if dep.provider ≠ .pytorch then some "SCHEDULING_UNSUPPORTED"
    else if dep.label ≠ .ready ∨ dep.epoch ≠ some req.expectedEpoch then some "STALE_EPOCH"
    else if c.service.pending ≠ 0 ∨ c.service.benchmarkOwner.isSome then some "DEVICE_BUSY"
    else none

/-- The experiment is in the queue, its run is stored. -/
def accept (store : Store) : Campaigns :=
  { c with
    service := { c.service with
      store := store
      benchmarkOwner := some (Store.freshId req.hex)
      pending := c.service.pending + 1 }
    queue := c.queue ++ [⟨Store.freshId req.hex, req.deployment⟩]
    active := some (Store.freshId req.hex) }

/-- The checks behind a supported answer of the worker, then the new run. -/
def enrol : Campaigns × Except String Snapshot :=
  match req.preflight <|> claimError c.service req.deployment with
  | some code => (c, .error code)
  | none =>
    match c.service.store.create "scheduling" req.config req.key req.digest req.hex req.now
      req.later with
    | .error e => (c, .error (Service.storeErrorText e))
    | .ok ((run, _), store) => (c.accept req store, .ok run)

/-- `start`, under both locks.  The worker is asked in between; one that is lost takes its
deployment down. -/
def start : Campaigns × Except String Snapshot :=
  match c.service.store.idempotency.get? req.key with
  | some old =>
    if old.digest ≠ req.digest then (c, .error "IDEMPOTENCY_CONFLICT") else (c, c.get old.runId)
  | none =>
    match c.startError req with
    | some code => (c, .error code)
    | none =>
      match req.capability with
      | .lost =>
        (c.onDeployment req.deployment fun dep => (dep.stopped true).abandoned,
          .error "WORKER_FAILED")
      | .unsupported _ => (c, .error "SCHEDULING_UNSUPPORTED")
      | .supported => c.enrol req

/-! ### The executor -/

/-- `{"state": "running"}` -/
def runningWrite (now : Json) : Write :=
  ⟨.of [("state", stateJson .running)] (by simp), "state.changed", none, now⟩

def progressWrite (event now : Json) : Write :=
  ⟨.progress event, "scheduling.progress", some event, now⟩

def requestIds (config : Option Json) (key : String) : List String :=
  (((config >>= Json.get? key) >>= Json.arr?).getD []).filterMap fun r => r.get? "id" >>= Json.str?

/-- The ingress that the worker has not seen. -/
def unacknowledged (r : CampaignResult) (found : Snapshot) : List String :=
  (requestIds (found.get? "config") "external_requests").filter (· ∉ r.observed)

section

variable (r : CampaignResult) (evidence : CampaignEvidence) (found : Snapshot)

/-- The result can be trusted. -/
def valid : Bool :=
  evidence.captureStatus = "complete" && r.cleanup = "succeeded" && (unacknowledged r found).isEmpty

/-- The state an experiment ends in after its worker has answered. -/
def finalState : String :=
  if r.finishReason = "cancelled" ∨ r.finishReason = "timed_out" then r.finishReason
  else if valid r evidence found then RunState.completed.text
  else RunState.failed.text

/-- The last patch of an experiment whose worker has answered. -/
def finalWrite (now : Json) : Write :=
  ⟨.of [("state", .str (finalState r evidence found)), ("cleanup", .str r.cleanup),
      ("result", .obj (r.body ++ [("unacknowledged_ingress",
        .arr ((unacknowledged r found).map .str))])),
      ("quality", r.quality),
      ("metrics", .obj [("scheduling_evidence",
        .obj [("capture_status", .str evidence.captureStatus),
          ("publication", evidence.publication), ("counts", evidence.counts)])]),
      ("error", if valid r evidence found then .null
        else .str "INCOMPLETE_SCHEDULING_EVIDENCE_OR_INGRESS")] (by simp),
    "state.changed", none, now⟩

end

def failedWrite (error : String) (confirmed : Bool) (now : Json) : Write :=
  ⟨.of [("state", stateJson .failed), ("cleanup", .str (Patch.cleanupText confirmed)),
    ("error", .str error)] (by simp), "state.changed", none, now⟩

/-- The step leads to phase `p`. -/
def goto (job : CampaignJob) (p : CampaignPhase) : Campaigns :=
  { c with running := some (job, p) }

def put (runId : String) (w : Write) : Campaigns :=
  { c with service := { c.service with store := c.service.store.put runId w } }

/-- The exception handler has tried to close the actor. -/
def raise (job : CampaignJob) (error : String) (confirmed : Bool) : Campaigns :=
  (c.onDeployment job.deployment (.stopped confirmed)).goto job (.raised error confirmed)

/-- `finally`, under both locks. -/
def leave (job : CampaignJob) : Campaigns :=
  { c with
    service := { c.service with
      pending := c.service.pending - 1
      benchmarkOwner :=
        if c.service.benchmarkOwner = some job.runId then none else c.service.benchmarkOwner }
    running := none
    active := none }

/-- One step of `_execute` for the experiment at hand. -/
def execute (job : CampaignJob) : CampaignPhase → CampaignWork → Campaigns
  | .begin, .start now => (c.put job.runId (runningWrite now)).goto job .working
  | .working, .progress event now => (c.put job.runId (progressWrite event now)).goto job .working
  | .working, .finish (.answered r) => c.goto job (.returned r)
  | .working, .finish (.terminated confirmed) =>
    (c.onDeployment job.deployment .killed).raise job "RuntimeError: SCHEDULING_WORKER_TERMINATED"
      confirmed
  | .working, .finish (.raised error confirmed) => c.raise job error confirmed
  | .returned r, .publish evidence => c.goto job (.published r evidence)
  | .published r evidence, .seal =>
    if c.lock.isSome then c
    else match c.service.store.get job.runId with
    | .ok found => { c.goto job (.sealing r evidence found) with lock := some .sealing }
    | .error _ => c.raise job "KeyError" true
  | .sealing r evidence found, .write now =>
    { (c.put job.runId (finalWrite r evidence found now)).goto job .done with lock := none }
  | .raised error confirmed, .label =>
    if c.service.lock.isSome then c
    else (c.onDeployment job.deployment .abandoned).goto job (.marked error confirmed)
  | .marked error confirmed, .write now =>
    (c.put job.runId (failedWrite error confirmed now)).goto job .done
  | .done, .leave => if c.lock.isSome ∨ c.service.lock.isSome then c else c.leave job
  | .begin, .fail error confirmed | .working, .fail error confirmed
  | .returned _, .fail error confirmed | .published _ _, .fail error confirmed =>
    c.raise job error confirmed
  | .sealing _ _ _, .fail error confirmed => { c.raise job error confirmed with lock := none }
  | _, _ => c

/-- One step of the executor: the next experiment is taken, or the one at hand goes on. -/
def work (w : CampaignWork) : Campaigns :=
  match c.running, c.queue, w with
  | none, job :: queue, .pick => { c with queue := queue, running := some (job, .begin) }
  | some (job, p), _, w => c.execute job p w
  | _, _, _ => c

/-! ### Live ingress -/

def withExternal (config : Json) (stored : Json) : Json :=
  let external := ((config.get? "external_requests" >>= Json.arr?).getD []) ++ [stored]
  mergedJson (some config) [("external_requests", .arr external)]

/-- The checks of `submit_request`: the config to be written. -/
def admitIngress (identity : String) (item : IngressItem) : Except String Json := do
  let row ← c.get identity
  if c.active ≠ some identity ∨ row.state ≠ some RunState.running.text then
    throw "SESSION_NOT_RUNNING"
  let config := row.get? "config"
  let modes := ((config >>= Json.get? "modes") >>= Json.arr?).getD []
  if modes.length ≠ 1 ∨ (config >>= Json.get? "repeats") >>= Json.int? ≠ some 1 then
    throw "FROZEN_COMPARISON"
  let identities := requestIds config "requests"
  let external := requestIds config "external_requests"
  if item.id ∈ identities ∨ item.id ∈ external then
    throw "DUPLICATE_ID"
  if identities.length + external.length ≥ 128 then
    throw "SESSION_REQUEST_LIMIT"
  if item.queueFull then
    throw "CONTROL_QUEUE_FULL"
  return withExternal (config.getD .null) item.stored

/-- `submit_request` up to its write. -/
def ingress (identity : String) (item : IngressItem) : Campaigns :=
  match c.admitIngress identity item with
  | .error _ => c
  | .ok config => { c with lock := some (.ingress identity item.id config) }

def ingressWrite (item : String) (config now : Json) : Write :=
  ⟨.of [("config", config)] (by simp), "scheduling.ingress_queued",
    some (.obj [("request_id", .str item)]), now⟩

/-- The write of `submit_request`. -/
def queued (now : Json) : Campaigns :=
  match c.lock with
  | some (.ingress runId item config) =>
    { c.put runId (ingressWrite item config now) with lock := none }
  | _ => c

end

/-! ### The machine -/

/-- What a thread does next: one of the service, or one of the campaigns. -/
inductive Act where
  | service (a : Service.Act)
  | start (req : CampaignRequest)
  | work (w : CampaignWork)
  | ingress (identity : String) (item : IngressItem)
  | queued (now : Json)
  | close

def step (c : Campaigns) : Act → Campaigns
  | .service a => { c with service := c.service.step a }
  | .start req => if c.lock.isSome ∨ c.service.lock.isSome then c else (c.start req).1
  | .work w => c.work w
  | .ingress identity item => if c.lock.isSome then c else c.ingress identity item
  | .queued now => c.queued now
  | .close => if c.lock.isSome then c else { c with closed := true }

/-- The cancellation predicate handed to `actor.execute`. -/
def isCancelled (c : Campaigns) (runId : String) : Bool :=
  c.closed || c.service.isCancelled runId

end Campaigns

/-- The service and its campaigns under the steps of all their threads. -/
def campaignMachine (configs : OrderedDict String Provider) (maxPending : Nat) (privileged : Bool) :
    Machine Campaigns Campaigns.Act where
  init := .fresh configs maxPending privileged
  step := Campaigns.step

end Hqsb.Console
