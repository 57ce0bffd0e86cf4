/-
Hqsb/Compiler/Lowering.lean

The lowering registry, the selection of a candidate and its materialization.

Candidates are looked up by id in one registry for all semantic operations.  `evaluate_candidates`
puts every entry for the operation through the same filters and then selects by policy;
`materialize` looks up what was selected and its fallback.  Costs are floats: the sort by cost and
id is only known to put the cheapest first when no cost is a NaN (`SortsByKey`).
-/
import Hqsb.Compiler.Targets

namespace Hqsb.Compiler

open Lib

/-! ### Evidence -/

structure CorrectnessEvidence where
  evidenceId : String
  level : String
  implementationId : String
  dtypes : List String
  shapes : List String
  archs : List String
  status : String

/-- A point that evidence is asked for. -/
structure EvidencePoint where
  dtype : String
  shape : String
  arch : String

def CorrectnessEvidence.covers (row : CorrectnessEvidence) (point : EvidencePoint) : Bool :=
  row.status = "pass" && (row.dtypes.isEmpty || row.dtypes.contains point.dtype) &&
    (row.shapes.isEmpty || row.shapes.contains point.shape || row.shapes.contains "*") &&
    (row.archs.isEmpty || row.archs.contains point.arch || row.archs.contains "*")

abbrev EvidenceIndex := List CorrectnessEvidence

def EvidenceIndex.lookups (index : EvidenceIndex) (implementationId : String) (point : EvidencePoint)
    (level : String) : List String :=
  (List.filter (fun row => row.implementationId = implementationId && row.level = level &&
    row.covers point) index).map (·.evidenceId)

def EvidenceIndex.covered (index : EvidenceIndex) (implementationId : String) (point : EvidencePoint)
    (requiredLevels : List String) : Bool :=
  requiredLevels.all fun level => !(index.lookups implementationId point level).isEmpty

/-! ### The registry -/

inductive ExecutionKind where
  | reference | customKernel | generatedKernel
  deriving DecidableEq

structure LoweringEntry where
  candidateId : String
  semanticOp : String
  schemaVersion : String
  executionKind : ExecutionKind
  implementationId : String
  buildId : String
  requirement : Option CapabilityRequirement
  artifactLocator : String
  artifactHash : String
  mutationContract : String
  streamSemantics : String
  workspaceBytes : Int
  evidenceScope : List String
  priority : Int
  fallbackId : String

inductive EntryProblem where
  | missing (name : String)
  | noRequirement
  | requirement (problem : RequirementProblem)
  | mutationContract (given : String)
  | streamSemantics (given : String)
  | noArtifact
  | noBuildId
  | noEvidenceScope

def LoweringEntry.validate (entry : LoweringEntry) : List EntryProblem :=
  ([("candidate_id", entry.candidateId), ("semantic_op", entry.semanticOp),
    ("schema_version", entry.schemaVersion), ("implementation_id", entry.implementationId)].filter
      (·.2 = "")).map (EntryProblem.missing ·.1) ++
  (match entry.requirement with
    | none => [EntryProblem.noRequirement]
    | some req => req.validate.map EntryProblem.requirement) ++
  (if entry.mutationContract ∉ ["functional", "inplace", "stateful"] then
    [EntryProblem.mutationContract entry.mutationContract] else []) ++
  (if entry.streamSemantics ∉ ["current_stream", "own_stream", "default_stream"] then
    [EntryProblem.streamSemantics entry.streamSemantics] else []) ++
  (if entry.executionKind ≠ .reference then
    (if entry.artifactLocator = "" ∨ entry.artifactHash = "" then
      [EntryProblem.noArtifact] else []) ++
    (if entry.buildId = "" then [EntryProblem.noBuildId] else [])
  else []) ++
  (if entry.evidenceScope = [] then [EntryProblem.noEvidenceScope] else [])

inductive DecisionProblem where
  | missing (name : String)
  | noFallback
  | refusedSelected
  | noCandidates

inductive LoweringError where
  | invalidEntry (problems : List EntryProblem)
  | duplicate (candidateId : String)
  | fallbackUnregistered (candidateId fallbackId : String)
  | unknownCandidate (candidateId : String)
  | unknownPolicy (policy : String)
  | noEntry (semanticOp : String)
  | forcedUnregistered (candidateId semanticOp : String)
  | referenceIneligible
  | invalidDecision (problems : List DecisionProblem)

/-- Valid entries, under their own ids. -/
structure LoweringRegistry where
  entries : OrderedDict String LoweringEntry
  valid : ∀ id entry, entries.get? id = some entry → entry.candidateId = id ∧ entry.validate = []

namespace LoweringRegistry

def empty : LoweringRegistry := ⟨.empty, nofun⟩

def register (registry : LoweringRegistry) (entry : LoweringEntry) :
    Except LoweringError LoweringRegistry :=
  if hvalid : entry.validate ≠ [] then .error (.invalidEntry entry.validate)
  else if entry.candidateId ∈ registry.entries.keys then .error (.duplicate entry.candidateId)
  else if entry.fallbackId ≠ "" ∧ entry.fallbackId ∉ registry.entries.keys ∧
      entry.executionKind ≠ .reference then
    .error (.fallbackUnregistered entry.candidateId entry.fallbackId)
  else .ok
    { entries := registry.entries.set entry.candidateId entry
      valid := by
        intro id entry' h
        rw [OrderedDict.get?_set] at h
        split_ifs at h with hid
        · cases h
          exact ⟨hid.symm, not_not.mp hvalid⟩
        · exact registry.valid id entry' h }

/-- What is left of a sequence of registrations; those that raise leave nothing. -/
def registered (entries : List LoweringEntry) : LoweringRegistry :=
  entries.foldl (fun registry entry =>
    match registry.register entry with
    | .ok registry => registry
    | .error _ => registry) empty

def get (registry : LoweringRegistry) (candidateId : String) : Except LoweringError LoweringEntry :=
  match registry.entries.get? candidateId with
  | some entry => .ok entry
  | none => .error (.unknownCandidate candidateId)

/-- The entries for an operation, by descending priority and then by id. -/
def entriesFor (registry : LoweringRegistry) (semanticOp schemaVersion : String) :
    List LoweringEntry :=
  (registry.entries.values.filter fun entry => entry.semanticOp = semanticOp &&
    (schemaVersion = "" || entry.schemaVersion = schemaVersion)).insertionSort
      fun a b => toLex (-a.priority, a.candidateId) ≤ toLex (-b.priority, b.candidateId)

end LoweringRegistry

/-- The lowering by framework operations, which needs nothing of the target. -/
def referenceLoweringEntry (candidateId semanticOp fallbackId : String) : LoweringEntry where
  candidateId := candidateId
  semanticOp := semanticOp
  schemaVersion := "1.0.0"
  executionKind := .reference
  implementationId := "hqsb.reference.fused_add_rms_norm"
  buildId := ""
  requirement := some ⟨candidateId ++ ":capability", [], [], [], [], "", 0, 0, "", [],
    "reference_selected_tensors", "TARGET_UNSUPPORTED"⟩
  artifactLocator := ""
  artifactHash := ""
  mutationContract := "functional"
  streamSemantics := "current_stream"
  workspaceBytes := 0
  evidenceScope := ["operator"]
  priority := 0
  fallbackId := fallbackId

def customKernelEntry (candidateId semanticOp implementationId fallbackId : String) :
    LoweringEntry where
  candidateId := candidateId
  semanticOp := semanticOp
  schemaVersion := "1.0.0"
  executionKind := .customKernel
  implementationId := implementationId
  buildId := "build-1"
  requirement := some ⟨candidateId ++ ":capability", ["cuda"], ["fp16"], ["sm_86"], [], "", 0, 0, "",
    [], "operator,block", "TARGET_UNSUPPORTED"⟩
  artifactLocator := "build/libhqsb.so"
  artifactHash := "a0"
  mutationContract := "functional"
  streamSemantics := "current_stream"
  workspaceBytes := 0
  evidenceScope := ["operator", "block"]
  priority := 10
  fallbackId := fallbackId

/-! ### Selection -/

/-- A float: a NaN, or a number, which may be infinite. -/
inductive Cost where
  | nan
  | num (x : WithBot (WithTop ℚ))
  deriving DecidableEq

/-- The number; infinite for a NaN. -/
def Cost.value : Cost → WithBot (WithTop ℚ)
  | .nan => some ⊤
  | .num x => x

/-- Comparisons with a NaN are false. -/
def Cost.lt : Cost → Cost → Bool
  | .num x, .num y => x < y
  | _, _ => false

structure CandidateEvaluation where
  candidateId : String
  capabilityOutcome : Option CapabilityOutcome
  artifactCompatible : Bool
  guardOutcome : Bool
  evidenceCovered : Bool
  predictedCost : Option Cost
  selected : Bool
  rejectReason : String
  fallbackId : String
  deriving DecidableEq

namespace CandidateEvaluation

variable (row : CandidateEvaluation)

def available : Bool := row.capabilityOutcome.all (·.available)

/-- Has a candidate passed every filter? -/
def eligible : Bool :=
  row.available && row.artifactCompatible && row.guardOutcome && row.evidenceCovered

def firstFailure : String :=
  if !row.available then (row.capabilityOutcome.map (·.reasonCode)).getD ""
  else if !row.artifactCompatible then "BINARY_INCOMPATIBLE"
  else if !row.guardOutcome then "GUARD_FALSE"
  else if !row.evidenceCovered then "EVIDENCE_MISSING"
  else row.rejectReason

/-- The cost that candidates are sorted by; one that is not predicted is infinite. -/
def sortCost : Cost := row.predictedCost.getD (.num (some ⊤))

end CandidateEvaluation

inductive Policy where
  | reference
  | autoHeuristic
  | forced (candidateId : String)

def POLICY_FORCED_PREFIX : String := "forced:"

def parsePolicy (policy : String) : Except LoweringError Policy :=
  if policy = "reference" then .ok .reference
  else if policy = "auto_heuristic" then .ok .autoHeuristic
  else
    match POLICY_FORCED_PREFIX.toList.isPrefixOf? policy.toList with
    | some (c :: t) => .ok (.forced (String.ofList (c :: t)))
    | _ => .error (.unknownPolicy policy)

structure LoweringDecision where
  compileId : String
  opInstanceId : String
  semanticOp : String
  schemaVersion : String
  sourceIrId : String
  targetedIrId : String
  targetSnapshotId : String
  candidates : List CandidateEvaluation
  selectionPolicy : String
  selected : String
  fallbackId : String
  rejectReason : String
  predictedCost : Option Cost
  forcedUnsupported : Bool

def LoweringDecision.validate (decision : LoweringDecision) : List DecisionProblem :=
  ([("compile_id", decision.compileId), ("op_instance_id", decision.opInstanceId),
    ("semantic_op", decision.semanticOp), ("target_snapshot_id", decision.targetSnapshotId)].filter
      (·.2 = "")).map (DecisionProblem.missing ·.1) ++
  (if decision.selected ≠ "" ∧ decision.fallbackId = "" then [DecisionProblem.noFallback] else []) ++
  (if decision.forcedUnsupported ∧ decision.selected ≠ "" then
    [DecisionProblem.refusedSelected] else []) ++
  (if decision.candidates = [] then [DecisionProblem.noCandidates] else [])

structure EvaluateArgs where
  semanticOp : String
  schemaVersion : String
  target : TargetSnapshot
  evidence : EvidenceIndex
  artifactCompatible : LoweringEntry → Bool
  guardEvaluator : LoweringEntry → Bool
  dtype : String
  shape : String
  policy : String
  compileId : String
  opInstanceId : String
  sourceIrId : String
  targetedIrId : String
  predictedCosts : OrderedDict String Cost
  requireLevels : List String

def evaluateEntry (args : EvaluateArgs) (entry : LoweringEntry) : CandidateEvaluation where
  candidateId := entry.candidateId
  capabilityOutcome := entry.requirement.map (·.check args.target)
  artifactCompatible :=
    if entry.executionKind = .reference then true
    else args.artifactCompatible entry && entry.artifactHash ≠ ""
  guardOutcome := args.guardEvaluator entry
  evidenceCovered := args.evidence.covered entry.implementationId
    ⟨args.dtype, args.shape, args.target.arch⟩
    (if entry.executionKind ≠ .reference then args.requireLevels else ["operator"])
  predictedCost := args.predictedCosts.get? entry.candidateId
  selected := false
  rejectReason := ""
  fallbackId := entry.fallbackId

/-- What was selected, whether a forced candidate was refused, and why. -/
structure Selection where
  selected : String
  forcedUnsupported : Bool
  rejectReason : String

/-- `list.sort` by cost and id. -/
abbrev RowSort := List CandidateEvaluation → List CandidateEvaluation

def selectRow (sort : RowSort) (semanticOp : String) (rows : List CandidateEvaluation) :
    Policy → Except LoweringError Selection
  | .forced id =>
    match rows.find? (·.candidateId = id) with
    | none => .error (.forcedUnregistered id semanticOp)
    | some row =>
      if row ∈ rows.filter (·.eligible) then .ok ⟨id, false, ""⟩
      else .ok ⟨"", true, "FORCED_UNSUPPORTED:" ++ row.firstFailure⟩
  | .reference =>
    if (rows.filter (·.eligible)).any (·.candidateId = "reference") then .ok ⟨"reference", false, ""⟩
    else .error .referenceIneligible
  | .autoHeuristic =>
    match sort ((rows.filter (·.eligible)).filter (·.candidateId ≠ "reference")) with
    | row :: _ => .ok ⟨row.candidateId, false, ""⟩
    | [] =>
      if (rows.filter (·.eligible)).any (·.candidateId = "reference") then
        .ok ⟨"reference", false, ""⟩
      else .ok ⟨"", false, "NO_LEGAL_LOWERING"⟩

def CandidateEvaluation.report (selected : String) (row : CandidateEvaluation) : CandidateEvaluation :=
  if row.candidateId = selected then { row with selected := true }
  else { row with selected := false, rejectReason := row.firstFailure }

def fallbackOf (registry : LoweringRegistry) (selected : String) : Except LoweringError String :=
  if selected = "" then .ok ""
  else do
    let entry ← registry.get selected
    pure (if entry.fallbackId = "" then "reference" else entry.fallbackId)

def decisionOf (args : EvaluateArgs) (rows : List CandidateEvaluation) (selection : Selection)
    (fallbackId : String) : LoweringDecision :=
  let rows := rows.map (·.report selection.selected)
  { compileId := args.compileId
    opInstanceId := args.opInstanceId
    semanticOp := args.semanticOp
    schemaVersion := args.schemaVersion
    sourceIrId := args.sourceIrId
    targetedIrId := args.targetedIrId
    targetSnapshotId := args.target.targetId
    candidates := rows
    selectionPolicy := args.policy
    selected := selection.selected
    fallbackId := fallbackId
    rejectReason := selection.rejectReason
    predictedCost := (rows.find? (·.selected)).bind (·.predictedCost)
    forcedUnsupported := selection.forcedUnsupported }

def evaluateCandidates (sort : RowSort) (registry : LoweringRegistry) (args : EvaluateArgs) :
    Except LoweringError LoweringDecision := do
  let policy ← parsePolicy args.policy
  let entries := registry.entriesFor args.semanticOp args.schemaVersion
  if entries.isEmpty then throw (.noEntry args.semanticOp)
  let rows := entries.map (evaluateEntry args)
  let selection ← selectRow sort args.semanticOp rows policy
  let fallbackId ← fallbackOf registry selection.selected
  let decision := decisionOf args rows selection fallbackId
  match decision.validate with
  | [] => pure decision
  | problems => throw (.invalidDecision problems)

def sortRows : RowSort :=
  List.insertionSort fun a b =>
    toLex (a.sortCost.value, a.candidateId) ≤ toLex (b.sortCost.value, b.candidateId)

/-- What is known of the sort: it keeps the rows, and no row is in front of one with a smaller
cost, or with the same cost and a smaller id, as long as no cost is a NaN. -/
structure SortsByKey (sort : RowSort) : Prop where
  perm : ∀ rows, (sort rows).Perm rows
  ascending : ∀ rows, (∀ row ∈ rows, row.sortCost ≠ .nan) →
    (sort rows).Pairwise fun a b =>
      toLex (a.sortCost.value, a.candidateId) ≤ toLex (b.sortCost.value, b.candidateId)

theorem sortRows_sorts : SortsByKey sortRows where
  perm := List.perm_insertionSort _
  ascending := by
    intro rows _
    exact List.pairwise_insertionSort _ _

/-! ### Materialization -/

inductive MaterializeStatus where
  | materialized | fallbackOnly | failed

structure MaterializedPlan where
  compileId : String
  selected : String
  fallback : String
  selectedImplementation : String
  fallbackImplementation : String
  status : MaterializeStatus
  workspaceBytes : Int
  streamSemantics : String
  error : String

def materialize (decision : LoweringDecision) (registry : LoweringRegistry)
    (fallbackOverride : String) : Except LoweringError MaterializedPlan := do
  let fallbackId := if fallbackOverride ≠ "" then fallbackOverride else decision.fallbackId
  let fallbackEntry ←
    if fallbackId ≠ "" then do
      let entry ← registry.get fallbackId
      pure (some entry)
    else pure none
  let fallbackImplementation := (fallbackEntry.map (·.implementationId)).getD "original_subgraph"
  if decision.selected ≠ "" then do
    let entry ← registry.get decision.selected
    pure ⟨decision.compileId, decision.selected, fallbackId, entry.implementationId,
      fallbackImplementation, .materialized, entry.workspaceBytes, entry.streamSemantics, ""⟩
  else if decision.forcedUnsupported then
    pure ⟨decision.compileId, "", fallbackId, "", fallbackImplementation, .fallbackOnly, 0,
      "current_stream", decision.rejectReason⟩
  else
    pure ⟨decision.compileId, "", fallbackId, "", fallbackImplementation, .failed, 0,
      "current_stream",
      if decision.rejectReason = "" then "NO_LEGAL_LOWERING" else decision.rejectReason⟩

end Hqsb.Compiler
