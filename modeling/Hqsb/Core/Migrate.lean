/-
Hqsb/Core/Migrate.lean

Migration of legacy benchmark documents (`hqsb/core/schema/migrate.py`).

A legacy golden document and a legacy result document become a `BenchmarkResult` with a loss
report.  A row of the report names a source field by the steps to it, `each` for every item of a
list.  Conversions of Python and of the schema library are in `Host`; a migration raises where
they do.
-/
import Hqsb.Core.Document

namespace Hqsb.Migrate

open Lib Lib.PathTree
open Document (Scalar Value Members)

/-! ### Conversions -/

/-- `str`, the value of a float's text (none if it is not finite), `int` of a text, what an `int`
and a `float` field accept, `dict` of a value that is no mapping, and the hash of a document. -/
structure Host where
  str : Value → String
  floatValue : String → Option ℚ
  intOfText : String → Option Int
  laxInt : Value → Option Int
  laxFloat : Value → Option String
  dictOf : Value → Option Members
  canonicalHash : Members → String
  isResult : Members → Bool

/-- Why a document is not migrated. -/
inductive MigrateError where
  | ambiguousFamily
  | unrecognizedShape
  | schemaVersion
  | unsupportedVersion
  | migrationRequired
  | attribute
  | type
  | value
  | key (name : String)
  | validation (field : String)

section

variable (host : Host)

/-- Truth in the sense of an `if`. -/
def truthy : Value → Bool
  | .leaf .null => false
  | .leaf (.bool b) => b
  | .leaf (.int n) => n ≠ 0
  | .leaf (.float text) => host.floatValue text ≠ some 0
  | .leaf (.str s) => s ≠ ""
  | .items vs => !vs.isEmpty
  | .dict ms => !ms.isEmpty

/-- `int(v)` -/
def pyInt : Value → Except MigrateError Int
  | .leaf (.int n) => .ok n
  | .leaf (.bool b) => .ok (if b then 1 else 0)
  | .leaf (.float text) =>
    match host.floatValue text with
    | some q => .ok (q.num.tdiv q.den)
    | none => .error .value
  | .leaf (.str s) =>
    match host.intOfText s with
    | some n => .ok n
    | none => .error .value
  | _ => .error .type

/-- `list(v)` -/
def pyList : Value → Except MigrateError (List Value)
  | .items vs => .ok vs
  | .dict ms => .ok (ms.map fun e => .leaf (.str e.1))
  | .leaf (.str s) => .ok (s.toList.map fun c => .leaf (.str c.toString))
  | _ => .error .type

/-- `list(ms.get(key, []))` -/
def listOf (ms : Members) (key : String) : Except MigrateError (List Value) :=
  match ms.lookup key with
  | none => .ok []
  | some v => pyList v

/-- `document.get(name, {}) or {}`, of which members are read. -/
def block (document : Members) (name : String) : Except MigrateError Members :=
  match document.lookup name with
  | none => .ok []
  | some v =>
    if truthy host v then
      match v with
      | .dict ms => .ok ms
      | _ => .error .attribute
    else .ok []

end

/-! ### Source version -/

def LEGACY_FAMILY_VERSION : SchemaVersion := ⟨1, 0, 0⟩

def sourceVersionInfo (document : Members) : Except MigrateError (Option String) :=
  match document.lookup "schema_version" with
  | none => .ok none
  | some (.leaf .null) => .ok none
  | some (.leaf (.str raw)) =>
    match SchemaVersion.parse raw with
    | none => .error .schemaVersion
    | some version =>
      match version.compare LEGACY_FAMILY_VERSION with
      | .gt => .error .unsupportedVersion
      | .lt => .error .migrationRequired
      | .eq => .ok (some raw)
  | some _ => .error .schemaVersion

inductive Family where
  | legacyGolden | legacyResult

def has (document : Members) (name : String) : Bool := (document.lookup name).isSome

def detectFamily (document : Members) : Except MigrateError Family :=
  let golden := has document "input_token_ids" && has document "first_token"
  let result := has document "repetitions"
  if golden && result then .error .ambiguousFamily
  else if golden then .ok .legacyGolden
  else if result then .ok .legacyResult
  else .error .unrecognizedShape

/-! ### Loss report -/

inductive LossClass where
  | none | representation | insufficient | unexpressible | semanticChange
  deriving DecidableEq

inductive Acceptance where
  | regressionReady | historicalOnly | reject

/-- One step to a source field, or to every item of a list. -/
inductive Part where
  | key (name : String)
  | each

/-- The source of a row: a field, or something that no field is. -/
inductive Source where
  | note (text : String)
  | field (parts : List Part)

def Source.text : Source → String
  | .note text => text
  | .field parts => parts.foldl (fun text part =>
      match part with
      | .key name => if text = "" then name else text ++ "." ++ name
      | .each => text ++ "[*]") ""

structure LossRow where
  source : Source
  target : String
  lossClass : LossClass
  acceptance : Acceptance

def lossRow (parts : List Part) (target : String) (lossClass : LossClass)
    (acceptance : Acceptance) : LossRow := ⟨.field parts, target, lossClass, acceptance⟩

def SOFTWARE_CUDA_KEYS : List String := ["cuda", "torch_cuda"]

def sortedKeys (ms : Members) : List String := (ms.map Prod.fst).mergeSort fun a b => a ≤ b

/-- Field-level losses for the mapping of hardware and software. -/
def environmentLosses (hardware software : Members) : List LossRow :=
  (((sortedKeys hardware).filter fun key =>
      key ∉ ["platform", "device", "compute_capability"]).map fun key =>
    lossRow [.key "hardware", .key key] "<environment-unmapped>" .representation
      .historicalOnly) ++
  ((sortedKeys software).filter fun key =>
      key ∉ ["python", "torch"] ++ SOFTWARE_CUDA_KEYS).map fun key =>
    lossRow [.key "software", .key key] "environment.framework_versions" .representation
      .regressionReady

/-- `block.get(key)`, as a condition. -/
def given (host : Host) (ms : Members) (key : String) : Bool :=
  (ms.lookup key).any (truthy host)

def modelRows (host : Host) (model : Members) (keys : List String) (target : String → String)
    (lossClass : LossClass) (acceptance : Acceptance) : List LossRow :=
  (keys.filter (given host model)).map fun key =>
    lossRow [.key "model", .key key] (target key) lossClass acceptance

def modelLosses (host : Host) (model : Members) : List LossRow :=
  modelRows host model ["config_hash"] (fun _ => "artifact_links.model_config_sha256")
    .representation .historicalOnly

/-! ### The migrated document -/

structure EnvironmentInfo where
  platform : String
  device : String
  computeCapability : Option (List Int)
  pythonVersion : String
  torchVersion : String
  cudaVersion : String
  frameworkVersions : Members

structure WorkloadSpec where
  inputTokens : Int
  outputTokens : Int
  batchSize : Int := 1
  warmup : Int
  repetitions : Int
  tokenIds : Option (List Int) := none

/-- What is attached to the summary. -/
structure MigrationMeta where
  family : Family
  declaredVersion : Option String
  sourceDocumentHash : String
  losses : List LossRow

structure BenchmarkResult where
  runId : String
  timestamp : String
  environment : EnvironmentInfo
  workload : WorkloadSpec
  rawSamples : List Members
  summary : Members
  artifactLinks : List (String × String)
  migration : MigrationMeta

section Dump

def strValue (s : String) : Value := .leaf (.str s)

def intValue (n : Int) : Value := .leaf (.int n)

def optional {α : Type} (f : α → Value) : Option α → Value
  | none => .leaf .null
  | some a => f a

def EnvironmentInfo.dump (e : EnvironmentInfo) : Value :=
  .dict [("platform", strValue e.platform), ("device", strValue e.device),
    ("compute_capability", optional (fun l => .items (l.map intValue)) e.computeCapability),
    ("python_version", strValue e.pythonVersion), ("torch_version", strValue e.torchVersion),
    ("cuda_version", strValue e.cudaVersion), ("framework_versions", .dict e.frameworkVersions)]

def WorkloadSpec.dump (w : WorkloadSpec) : Value :=
  .dict [("name", strValue "legacy"), ("batch_size", intValue w.batchSize),
    ("input_tokens", intValue w.inputTokens), ("output_tokens", intValue w.outputTokens),
    ("seed", intValue 0), ("sampling", strValue "greedy"), ("warmup", intValue w.warmup),
    ("repetitions", intValue w.repetitions),
    ("token_ids", optional (fun l => .items (l.map intValue)) w.tokenIds),
    ("stop_condition", strValue "output_tokens")]

def LossClass.text : LossClass → String
  | .none => "none"
  | .representation => "representation"
  | .insufficient => "insufficient"
  | .unexpressible => "unexpressible"
  | .semanticChange => "semantic_change"

def Acceptance.text : Acceptance → String
  | .regressionReady => "regression_ready"
  | .historicalOnly => "historical_only"
  | .reject => "reject"

def LossRow.dump (row : LossRow) : Value :=
  .dict [("source", strValue row.source.text), ("target", strValue row.target),
    ("loss_class", strValue row.lossClass.text), ("acceptance", strValue row.acceptance.text)]

def Family.text : Family → String
  | .legacyGolden => "legacy_golden"
  | .legacyResult => "legacy_result"

def MigrationMeta.dump (m : MigrationMeta) : Value :=
  .dict [("source_family", strValue m.family.text),
    ("declared_version", optional strValue m.declaredVersion),
    ("source_document_hash", strValue m.sourceDocumentHash),
    ("field_mapping_losses", .items (m.losses.map LossRow.dump)),
    ("loss_summary", .dict ([LossClass.none, .representation, .insufficient, .unexpressible,
      .semanticChange].map fun lossClass => (lossClass.text,
        intValue ((m.losses.filter fun row => row.lossClass = lossClass).length : Int))))]

def BenchmarkResult.dump (r : BenchmarkResult) : Value :=
  .dict [("run_id", strValue r.runId), ("timestamp", .leaf (.float r.timestamp)),
    ("environment", r.environment.dump), ("workload", r.workload.dump),
    ("raw_samples", .items (r.rawSamples.map .dict)),
    ("summary", .dict (r.summary ++ [("migration", r.migration.dump),
      ("migration_losses", .items (r.migration.losses.map LossRow.dump))])),
    ("artifact_links", .dict (r.artifactLinks.map fun e => (e.1, strValue e.2)))]

end Dump

/-! ### Migrations -/

section Migrate

variable (host : Host)

def asText (field : String) : Value → Except MigrateError String
  | .leaf (.str s) => .ok s
  | _ => .error (.validation field)

def textField (ms : Members) (key : String) : Except MigrateError String :=
  asText key ((ms.lookup key).getD (strValue ""))

def intList (key : String) : Option Value → Except MigrateError (Option (List Int))
  | none => .ok none
  | some (.leaf .null) => .ok none
  | some (.items vs) =>
    match vs.mapM host.laxInt with
    | some l => .ok (some l)
    | none => .error (.validation key)
  | some _ => .error (.validation key)

/-- `next((software[k] for k in _SOFTWARE_CUDA_KEYS if software.get(k)), "")` -/
def cudaVersion (software : Members) : Value :=
  ((SOFTWARE_CUDA_KEYS.filter (given host software)).head?.bind fun key => software.lookup key).getD
    (strValue "")

def isText : Value → Bool
  | .leaf (.str _) => true
  | _ => false

def environmentOf (hardware software : Members) : Except MigrateError EnvironmentInfo := do
  let platform ← textField hardware "platform"
  let device ← textField hardware "device"
  let capability ← intList host "compute_capability" (hardware.lookup "compute_capability")
  let python ← textField software "python"
  let torch ← textField software "torch"
  let cuda ← asText "cuda_version" (cudaVersion host software)
  pure {
    platform := platform
    device := device
    computeCapability := capability
    pythonVersion := python
    torchVersion := torch
    cudaVersion := cuda
    frameworkVersions := software.filter fun e =>
      e.1 ∉ ["python", "torch"] ++ SOFTWARE_CUDA_KEYS && isText e.2 }

def timestampOf (now : String) (document : Members) : Except MigrateError String :=
  match document.lookup "timestamp" with
  | none => .ok now
  | some v =>
    match host.laxFloat v with
    | some text => .ok text
    | none => .error (.validation "timestamp")

/-- `int(ms[key])`, or of a default. -/
def intOf (ms : Members) (key : String) (fallback : Except MigrateError Int) :
    Except MigrateError Int :=
  match ms.lookup key with
  | none => fallback
  | some v => pyInt host v

def checkWorkload (w : WorkloadSpec) : Except MigrateError WorkloadSpec :=
  if w.inputTokens < 1 then .error (.validation "input_tokens")
  else if w.outputTokens < 1 then .error (.validation "output_tokens")
  else if w.batchSize < 1 then .error (.validation "batch_size")
  else .ok w

/-- `str(block.get(key, ""))` -/
def strOf (ms : Members) (key : String) : String := host.str ((ms.lookup key).getD (strValue ""))

def givenLinks (ms : Members) (keys : List String) (name : String → String) :
    List (String × String) :=
  (keys.filter (given host ms)).map fun key => (name key, strOf host ms key)

def migrateLegacyGolden (runId now : String) (document : Members) :
    Except MigrateError BenchmarkResult := do
  let declared ← sourceVersionInfo document
  let model ← block host document "model"
  let generated ← listOf document "generated_tokens"
  let hardware ← block host document "hardware"
  let software ← block host document "software"
  let inputTokens ← intOf host document "input_tokens" (.error (.key "input_tokens"))
  let outputTokens ← intOf host document "output_tokens" (.error (.key "output_tokens"))
  let environment ← environmentOf host hardware software
  let tokenIds ← intList host "token_ids" (document.lookup "input_token_ids")
  let workload ← checkWorkload {
    inputTokens := inputTokens
    outputTokens := outputTokens
    warmup := 0
    repetitions := 1
    tokenIds := tokenIds }
  let timestamp ← timestampOf host now document
  pure {
    runId := runId
    timestamp := timestamp
    environment := environment
    workload := workload
    rawSamples := [[("input_tokens", intValue inputTokens),
      ("output_tokens", intValue outputTokens), ("generated_token_ids", .items generated),
      ("prefill_forward_ms", .leaf (.float "0.0")),
      ("first_token_selection_ms", .leaf (.float "0.0")), ("itl_ms", .items []),
      ("peak_cuda_allocated_mb", .leaf (.float "0.0")),
      ("peak_cuda_reserved_mb", .leaf (.float "0.0"))]]
    summary := [("first_token", (document.lookup "first_token").getD (.leaf .null)),
      ("input_token_ids", (document.lookup "input_token_ids").getD (.leaf .null))]
    artifactLinks := [("legacy_kind", "golden"), ("model_id", strOf host model "id"),
      ("source", strOf host model "source"), ("dtype", strOf host model "dtype")] ++
      givenLinks host model ["config_hash"] fun _ => "model_config_sha256"
    migration := {
      family := .legacyGolden
      declaredVersion := declared
      sourceDocumentHash := host.canonicalHash document
      losses := environmentLosses hardware software ++ modelLosses host model ++
        [⟨.note "(no timing recorded)", "raw_samples[0].prefill/itl timing fields",
          .insufficient, .historicalOnly⟩,
        lossRow [.key "generated_tokens"] "raw_samples[0].generated_token_ids" .none
          .historicalOnly,
        lossRow [.key "first_token"] "summary.first_token" .none .historicalOnly] ++
        modelRows host model ["id", "source", "dtype"] (fun key => "artifact_links." ++ key) .none
          .regressionReady } }

/-- `dict(rep.get("itl", {}) or {})` -/
def itlOf (rep : Members) : Except MigrateError Members :=
  match rep.lookup "itl" with
  | none => .ok []
  | some v =>
    if truthy host v then
      match v with
      | .dict ms => .ok ms
      | v =>
        match host.dictOf v with
        | some ms => .ok ms
        | none => .error .type
    else .ok []

/-- A legacy repetition: its `itl` statistics, and the raw sample. -/
def migrateRepetition (workload : WorkloadSpec) : Value → Except MigrateError (Members × Members)
  | .dict rep => do
    let itl ← itlOf host rep
    let inputTokens ← intOf host rep "input_tokens" (.ok workload.inputTokens)
    let outputTokens ← intOf host rep "output_tokens" (.ok workload.outputTokens)
    let generated ← listOf rep "generated_token_ids"
    pure (itl, assign (assign (assign (assign rep "input_tokens" (intValue inputTokens))
      "output_tokens" (intValue outputTokens)) "generated_token_ids" (.items generated))
      "itl_ms" (.items []))
  | _ => .error .attribute

/-- The workload block, of which members are read also where it counts as false. -/
def workloadBlock (document : Members) : Except MigrateError Members :=
  match document.lookup "workload" with
  | none => .ok []
  | some (.dict ms) => .ok ms
  | some _ => .error .attribute

/-- What is summed up of the load time, if there is one. -/
def loadTime (model : Members) : Option Value :=
  match model.lookup "load_time_s" with
  | none => none
  | some (.leaf .null) => none
  | some v => some v

def migrateLegacyResult (runId now : String) (document : Members) :
    Except MigrateError BenchmarkResult := do
  let declared ← sourceVersionInfo document
  let model ← block host document "model"
  let hardware ← block host document "hardware"
  let software ← block host document "software"
  let block ← workloadBlock document
  let repetitions ← listOf document "repetitions"
  let inputTokens ← intOf host block "input_tokens" (.ok 0)
  let outputTokens ← intOf host block "output_tokens" (.ok 0)
  let batchSize ← intOf host block "batch_size" (.ok 1)
  let workload ← checkWorkload {
    inputTokens := inputTokens
    outputTokens := outputTokens
    batchSize := batchSize
    warmup := 1
    repetitions := max (repetitions.length : Int) 1 }
  let samples ← repetitions.mapM (migrateRepetition host workload)
  let environment ← environmentOf host hardware software
  let timestamp ← timestampOf host now document
  pure {
    runId := runId
    timestamp := timestamp
    environment := environment
    workload := workload
    rawSamples := samples.map Prod.snd
    summary := [("deterministic", (document.lookup "deterministic").getD (.leaf .null)),
      ("generated_token_sha256", (document.lookup "generated_token_sha256").getD (.leaf .null)),
      ("itl_summary", .items (samples.map fun s => .dict s.1))] ++
      (loadTime model).toList.map fun v => ("model_load_time_s", v)
    artifactLinks := [("legacy_kind", "result"), ("model_id", strOf host model "id"),
      ("backend", strOf host model "backend"), ("dtype", strOf host model "dtype")] ++
      givenLinks host model ["source", "local_path", "attention_backend"] id
    migration := {
      family := .legacyResult
      declaredVersion := declared
      sourceDocumentHash := host.canonicalHash document
      losses := environmentLosses hardware software ++
        [lossRow [.key "repetitions", .each, .key "itl"]
          "summary.itl_summary / sample.itl_ms=[]" .insufficient .historicalOnly,
        lossRow [.key "deterministic"] "summary.deterministic" .representation
          .historicalOnly] ++
        modelRows host model ["id", "backend", "dtype"] (fun key => "artifact_links." ++ key)
          .none .regressionReady ++
        modelRows host model ["source", "local_path", "attention_backend"]
          (fun key => "artifact_links." ++ key) .representation .historicalOnly ++
        (loadTime model).toList.map fun _ =>
          lossRow [.key "model", .key "load_time_s"] "summary.model_load_time_s" .representation
            .historicalOnly } }

def isCurrentC6Document (document : Members) : Bool :=
  has document "run_id" && has document "raw_samples" &&
    !(has document "input_token_ids" || has document "repetitions")

/-- What comes of a document: it is current already, or it is migrated. -/
inductive Migrated where
  | current (document : Members)
  | migrated (result : BenchmarkResult)

def migrateAny (runId now : String) (document : Members) : Except MigrateError Migrated :=
  if isCurrentC6Document document then
    if host.isResult document then .ok (.current document)
    else .error (.validation "BenchmarkResult")
  else do
    let family ← detectFamily document
    let _ ← sourceVersionInfo document
    match family with
    | .legacyGolden => return .migrated (← migrateLegacyGolden host runId now document)
    | .legacyResult => return .migrated (← migrateLegacyResult host runId now document)

end Migrate

end Hqsb.Migrate
