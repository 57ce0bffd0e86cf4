/-
Hqsb/Runtime/SchedulerSimulator.lean

The discrete-event scheduler of `hqsb/runtime/scheduler.py` and its ledger entry
(`IterationLedgerEntry` of `hqsb/runtime/trace.py`).

A run is referred to by its request id.  `int(kv_blocks * watermark)` is a
floating-point product; the spec carries its value as `usableBlocks`.  A step
that raises ends the replay.  Left out: `long_prefill_threshold` and
`prefix_cache`, which nothing reads, and the ledger fields that the simulator
leaves at their defaults.
-/
import Hqsb.Lib.OrderedDict

namespace Hqsb

open Lib

/-! ### Specs and traces -/

inductive BatchMode
  | static | continuous | chunkedPrefill
  deriving DecidableEq

inductive PreemptionPolicy
  | none | recomputeLongest | recomputeNewest

/-- What the scheduling loop has handed out. -/
structure SchedulerSpec where
  mode : BatchMode
  maxBatchedTokens : Nat
  maxSequences : Nat
  blockSize : Nat
  kvBlocks : Nat
  chunkSize : Nat := 0
  decodePriority : Bool := false
  preemptionPolicy : PreemptionPolicy := .recomputeLongest
  admissionReserveFullIsl : Bool := true
  /-- `int(kv_blocks * watermark)` -/
  usableBlocks : Nat
  maxBatchedTokens_pos : 0 < maxBatchedTokens
  maxSequences_pos : 0 < maxSequences
  blockSize_pos : 0 < blockSize
  kvBlocks_pos : 0 < kvBlocks
  chunkSize_pos_iff : 0 < chunkSize ↔ mode = .chunkedPrefill

structure SimRequest where
  requestId : String
  promptTokens : Nat
  maxNewTokens : Nat
  submitIteration : Nat := 0
  cancelAtIteration : Option Int := none
  priority : Int := 0
  promptTokens_pos : 0 < promptTokens
  maxNewTokens_pos : 0 < maxNewTokens

structure RequestTrace where
  requests : List SimRequest
  ne_nil : requests ≠ []
  nodup : (requests.map SimRequest.requestId).Nodup

/-! ### The state of the simulation -/

inductive RunState
  | waiting | running | finished | cancelled
  deriving DecidableEq

structure RequestRun where
  spec : SimRequest
  state : RunState := .waiting
  computed : Nat := 0
  outputTokens : Nat := 0
  admittedIteration : Int := -1
  firstTokenIteration : Int := -1
  finishIteration : Int := -1
  preemptions : Nat := 0
  recomputedPositions : Nat := 0
  cancelled : Bool := false
  schedule : List (Nat × Nat) := []

namespace RequestRun

variable (run : RequestRun) (iteration : Nat)

def done : Bool := run.state = .finished ∨ run.state = .cancelled

def prefilled : Bool := run.spec.promptTokens ≤ run.computed

def cancelDue : Bool :=
  run.spec.cancelAtIteration.any (· ≤ (iteration : Int))

def cancel : RequestRun :=
  { run with cancelled := true, state := .cancelled, finishIteration := iteration, computed := 0 }

def admitted : RequestRun :=
  { run with state := .running, admittedIteration := iteration }

def preempted : RequestRun :=
  { run with
    preemptions := run.preemptions + 1
    recomputedPositions := run.recomputedPositions + run.computed
    computed := 0
    outputTokens := 0
    firstTokenIteration := -1
    state := .waiting
    admittedIteration := -1 }

def chunk (iteration amount : Nat) : RequestRun :=
  { run with computed := run.computed + amount, schedule := run.schedule ++ [(iteration, amount)] }

def firstToken : RequestRun :=
  { run with
    outputTokens := 1
    firstTokenIteration := iteration
    schedule := run.schedule ++ [(iteration, 1)]
    computed := run.computed + 1 }

def decode : RequestRun :=
  { run with
    computed := run.computed + 1
    outputTokens := run.outputTokens + 1
    schedule := run.schedule ++ [(iteration, 1)] }

def finish : RequestRun :=
  { run with state := .finished, finishIteration := iteration }

end RequestRun

structure IterationLedgerEntry where
  iteration : Nat
  waiting : List String
  running : List String
  preempted : List String
  finished : List String
  scheduledTokens : OrderedDict String Nat
  prefillTokens : Nat
  decodeTokens : Nat
  tokenBudget : Nat
  sequenceBudget : Nat
  kvFreeBlocks : Nat
  kvUsedBlocks : Nat
  modelInputM : Nat
  oomOrPreemption : String
  previousComputedPositions : Nat
  newComputedPositions : Nat
  rollbackPositions : Nat

namespace IterationLedgerEntry

def scheduledTotal (entry : IterationLedgerEntry) : Nat := entry.scheduledTokens.sum id

def conservationResidual (entry : IterationLedgerEntry) : Int :=
  entry.previousComputedPositions + entry.scheduledTotal - entry.rollbackPositions -
    entry.newComputedPositions

end IterationLedgerEntry

structure RequestOutcome where
  requestId : String
  admittedIteration : Int
  firstTokenIteration : Int
  finishIteration : Int
  promptTokens : Nat
  outputTokens : Nat
  computedPositions : Nat
  recomputedPositions : Nat
  preemptions : Nat
  cancelled : Bool
  queueIterations : Int
  waitIterations : Int

structure SimulationResult where
  iterations : List IterationLedgerEntry
  outcomes : List RequestOutcome
  paddingSlots : Nat
  maxConcurrentRunning : Nat
  kvPeakBlocks : Nat

abbrev Runs := OrderedDict String RequestRun

inductive SimError
  | overReserved (requestId : String)
  | conservation (iteration : Nat)
  | maxIterationsNotPositive
  deriving DecidableEq

structure SchedulerSimulator where
  spec : SchedulerSpec
  runs : Runs
  staticBatch : List String
  iterations : List IterationLedgerEntry := []
  paddingSlots : Nat := 0
  kvPeakBlocks : Nat := 0
  iteration : Nat := 0

def RequestTrace.runs (trace : RequestTrace) : Runs where
  entries := trace.requests.map fun request => (request.requestId, { spec := request })
  nodup := by
    rw [List.map_map]
    exact trace.nodup

namespace SchedulerSimulator

def new (spec : SchedulerSpec) (trace : RequestTrace) : SchedulerSimulator where
  spec := spec
  runs := trace.runs
  staticBatch :=
    if spec.mode = .static then (trace.requests.map SimRequest.requestId).take spec.maxSequences
    else []

/-! ### Blocks -/

def reserveBlocks (spec : SchedulerSpec) (run : RequestRun) : Nat :=
  (if spec.admissionReserveFullIsl then run.spec.promptTokens + run.spec.maxNewTokens
    else run.computed) ⌈/⌉ spec.blockSize

def blocksHeld (spec : SchedulerSpec) (runs : Runs) (ids : List String) : Nat :=
  (ids.map fun id => ((runs.get? id).map (reserveBlocks spec)).getD 0).sum

def capacityOk (spec : SchedulerSpec) (runs : Runs) (extra : RequestRun) (running : List String) :
    Bool :=
  blocksHeld spec runs running + reserveBlocks spec extra ≤ spec.usableBlocks

def computedOf (runs : Runs) (id : String) : Nat := ((runs.get? id).map (·.computed)).getD 0

def selectVictim (spec : SchedulerSpec) (runs : Runs) (running : List String) : Option String :=
  match spec.preemptionPolicy with
  | .none => none
  | .recomputeNewest => running.argmin (computedOf runs)
  | .recomputeLongest => running.argmax (computedOf runs)

/-! ### Cancels and admission -/

/-- What a step works on before it schedules. -/
structure Admission where
  runs : Runs
  waiting : List String
  running : List String
  preempted : List String := []
  rollback : Nat := 0

def Admission.cancel (iteration : Nat) (a : Admission) (id : String) : Admission :=
  match a.runs.get? id with
  | none => a
  | some run =>
    if run.cancelDue iteration ∧ ¬ run.done then
      { a with
        runs := a.runs.set id (run.cancel iteration)
        running := a.running.erase id
        waiting := a.waiting.erase id
        rollback := a.rollback + run.computed }
    else a

def Admission.admitRun (a : Admission) (iteration : Nat) (id : String) (run : RequestRun) :
    Admission :=
  { a with runs := a.runs.set id (run.admitted iteration), running := a.running ++ [id] }

def Admission.preempt (a : Admission) (victim : String) : Admission :=
  match a.runs.get? victim with
  | none => a
  | some run =>
    { a with
      runs := a.runs.set victim run.preempted
      running := a.running.erase victim
      preempted := a.preempted ++ [victim]
      rollback := a.rollback + run.computed }

/-- The second loop. -/
def Admission.admitAll (spec : SchedulerSpec) (iteration : Nat) : List String → Admission → Admission
  | [], a => a
  | id :: rest, a =>
    match a.runs.get? id with
    | none => admitAll spec iteration rest a
    | some run =>
      if iteration < run.spec.submitIteration then admitAll spec iteration rest a
      else if spec.maxSequences ≤ a.running.length then a
      else if capacityOk spec a.runs run a.running then
        admitAll spec iteration rest (a.admitRun iteration id run)
      else
        match selectVictim spec a.runs a.running with
        | none => admitAll spec iteration rest a
        | some victim =>
          let a := a.preempt victim
          if capacityOk spec a.runs run a.running then
            admitAll spec iteration rest (a.admitRun iteration id run)
          else admitAll spec iteration rest a

/-- The submitted and unfinished runs among `ids`. -/
def activeIds (runs : Runs) (iteration : Nat) (ids : List String) : List String :=
  ids.filter fun id => (runs.get? id).any fun run =>
    ¬ run.done ∧ run.spec.submitIteration ≤ iteration

/-- The static batch takes part whether it was admitted or not. -/
def Admission.admitBatch (iteration : Nat) (a : Admission) (id : String) : Admission :=
  match a.runs.get? id with
  | none => a
  | some run =>
    if run.done ∨ iteration < run.spec.submitIteration then a
    else if id ∉ a.running then a.admitRun iteration id run
    else a

/-! ### Scheduling -/

/-- What the scheduling loop has handed out. -/
structure Schedule where
  runs : Runs
  scheduled : OrderedDict String Nat := .empty
  prefillTokens : Nat := 0
  decodeTokens : Nat := 0
  budget : Int

def orderKey (spec : SchedulerSpec) (runs : Runs) (id : String) : ℕ ×ₗ ℤ ×ₗ ℤ ×ₗ String :=
  match runs.get? id with
  | none => toLex (1, toLex (-1, toLex (0, id)))
  | some run =>
    toLex (if spec.decodePriority ∧ run.prefilled then 0 else 1,
      toLex (run.admittedIteration, toLex (-run.spec.priority, id)))

def order (spec : SchedulerSpec) (runs : Runs) (running : List String) : List String :=
  running.insertionSort fun a b => orderKey spec runs a ≤ orderKey spec runs b

def allowance (spec : SchedulerSpec) (run : RequestRun) (budget : Int) : Int :=
  if spec.mode = .chunkedPrefill then
    min (min (run.spec.promptTokens - run.computed : Int) spec.chunkSize) budget
  else min (run.spec.promptTokens - run.computed : Int) budget

def Schedule.entry (spec : SchedulerSpec) (iteration : Nat) (s : Schedule) (id : String) :
    Except SimError Schedule :=
  match s.runs.get? id with
  | none => .ok s
  | some run =>
    if run.done ∨ run.state ≠ .running then .ok s
    else if ¬ run.prefilled then
      if allowance spec run s.budget ≤ 0 then .ok s
      else
        let amount := (allowance spec run s.budget).toNat
        if reserveBlocks spec run * spec.blockSize < run.computed + amount then
          .error (.overReserved id)
        else
          let run := run.chunk iteration amount
          let s := { s with
            runs := s.runs.set id run
            scheduled := s.scheduled.set id amount
            prefillTokens := s.prefillTokens + amount
            budget := s.budget - amount }
          if run.prefilled ∧ run.firstTokenIteration < 0 then
            .ok { s with
              runs := s.runs.set id (run.firstToken iteration)
              scheduled := s.scheduled.set id (amount + 1)
              decodeTokens := s.decodeTokens + 1
              budget := s.budget - 1 }
          else .ok s
    else if s.budget < 1 then .ok s
    else
      .ok { s with
        runs := s.runs.set id (run.decode iteration)
        scheduled := s.scheduled.set id ((s.scheduled.get? id).getD 0 + 1)
        decodeTokens := s.decodeTokens + 1
        budget := s.budget - 1 }

def Schedule.entries (spec : SchedulerSpec) (iteration : Nat) :
    List String → Schedule → Except SimError Schedule
  | [], s => .ok s
  | id :: rest, s =>
    match s.entry spec iteration id with
    | .error error => .error error
    | .ok s => Schedule.entries spec iteration rest s

/-! ### Completion -/

structure Completion where
  runs : Runs
  running : List String
  finished : List String := []

def Completion.complete (iteration : Nat) (c : Completion) (id : String) : Completion :=
  match c.runs.get? id with
  | none => c
  | some run =>
    if run.cancelled then c
    else if run.prefilled ∧ run.spec.maxNewTokens ≤ run.outputTokens then
      { runs := c.runs.set id (run.finish iteration)
        running := c.running.erase id
        finished := c.finished ++ [id] }
    else c

/-! ### One iteration -/

def idsIn (runs : Runs) (state : RunState) : List String :=
  runs.keys.filter fun id => (runs.get? id).any fun run => run.state = state

def totalComputed (runs : Runs) : Nat := runs.sum RequestRun.computed

def observeCancels (sim : SchedulerSimulator) : Admission :=
  let waiting := idsIn sim.runs .waiting
  let running := idsIn sim.runs .running
  (waiting ++ running).foldl (Admission.cancel sim.iteration)
    { runs := sim.runs, waiting := waiting, running := running }

def admission (sim : SchedulerSimulator) : Admission :=
  let a := sim.observeCancels
  Admission.admitAll sim.spec sim.iteration a.waiting a

/-- The runs that take part. -/
def participants (sim : SchedulerSimulator) : Admission :=
  let a := sim.admission
  if sim.spec.mode = .static then
    let a := sim.staticBatch.foldl (Admission.admitBatch sim.iteration) a
    { a with running := a.running.filter (· ∈ sim.staticBatch) }
  else a

def idleSlots (sim : SchedulerSimulator) : Nat :=
  if sim.spec.mode = .static then
    sim.staticBatch.length - (activeIds sim.admission.runs sim.iteration sim.staticBatch).length
  else 0

def ledgerEntry (sim : SchedulerSimulator) (a : Admission) (s : Schedule) (c : Completion) :
    IterationLedgerEntry where
  iteration := sim.iteration
  waiting := (idsIn c.runs .waiting).filter fun id =>
    (c.runs.get? id).any fun run => run.spec.submitIteration ≤ sim.iteration
  running := c.running
  preempted := a.preempted
  finished := c.finished
  scheduledTokens := s.scheduled
  prefillTokens := s.prefillTokens
  decodeTokens := s.decodeTokens
  tokenBudget := sim.spec.maxBatchedTokens
  sequenceBudget := sim.spec.maxSequences
  kvFreeBlocks := sim.spec.kvBlocks - blocksHeld sim.spec c.runs c.running
  kvUsedBlocks := blocksHeld sim.spec c.runs c.running
  modelInputM := s.scheduled.keys.length
  oomOrPreemption := if a.preempted ≠ [] then "preempt" else ""
  previousComputedPositions := totalComputed sim.runs
  newComputedPositions := totalComputed c.runs
  rollbackPositions := a.rollback

def step (sim : SchedulerSimulator) : Except SimError (IterationLedgerEntry × SchedulerSimulator) :=
  let a := sim.participants
  match Schedule.entries sim.spec sim.iteration (order sim.spec a.runs a.running)
      { runs := a.runs, budget := sim.spec.maxBatchedTokens } with
  | .error error => .error error
  | .ok s =>
    let c := a.running.foldl (Completion.complete sim.iteration)
      { runs := s.runs, running := a.running }
    let entry := sim.ledgerEntry a s c
    if entry.conservationResidual ≠ 0 then .error (.conservation sim.iteration)
    else .ok (entry, { sim with
      runs := c.runs
      iterations := sim.iterations ++ [entry]
      paddingSlots := sim.paddingSlots + sim.idleSlots
      kvPeakBlocks := max sim.kvPeakBlocks entry.kvUsedBlocks
      iteration := sim.iteration + 1 })

/-! ### Replay -/

def outcome (iteration : Nat) (run : RequestRun) : RequestOutcome where
  requestId := run.spec.requestId
  admittedIteration := run.admittedIteration
  firstTokenIteration := run.firstTokenIteration
  finishIteration := run.finishIteration
  promptTokens := run.spec.promptTokens
  outputTokens := run.outputTokens
  computedPositions := run.computed + run.recomputedPositions
  recomputedPositions := run.recomputedPositions
  preemptions := run.preemptions
  cancelled := run.cancelled
  queueIterations :=
    max ((if 0 ≤ run.admittedIteration then run.admittedIteration else (iteration : Int)) -
      run.spec.submitIteration) 0
  waitIterations :=
    if 0 ≤ run.firstTokenIteration then run.firstTokenIteration - run.spec.submitIteration else -1

def allDone (runs : Runs) : Bool := runs.values.all RequestRun.done

/-- The loop of `run`, with the largest number of running requests so far. -/
def replay : Nat → SchedulerSimulator → Nat → Except SimError (SchedulerSimulator × Nat)
  | 0, sim, maxConcurrent => .ok (sim, maxConcurrent)
  | n + 1, sim, maxConcurrent =>
    match sim.step with
    | .error error => .error error
    | .ok (_, sim) =>
      let maxConcurrent := max maxConcurrent (idsIn sim.runs .running).length
      if allDone sim.runs then .ok (sim, maxConcurrent) else replay n sim maxConcurrent

def run (sim : SchedulerSimulator) (maxIterations : Nat) :
    Except SimError (SimulationResult × SchedulerSimulator) :=
  if maxIterations = 0 then .error .maxIterationsNotPositive
  else
    match replay maxIterations sim 0 with
    | .error error => .error error
    | .ok (sim, maxConcurrent) =>
      .ok ({
          iterations := sim.iterations
          outcomes := sim.runs.values.map (outcome sim.iteration)
          paddingSlots := sim.paddingSlots
          maxConcurrentRunning := maxConcurrent
          kvPeakBlocks := sim.kvPeakBlocks }, sim)

end SchedulerSimulator

end Hqsb
