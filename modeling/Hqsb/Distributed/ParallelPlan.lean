/-
Hqsb/Distributed/ParallelPlan.lean

Census, head ownership and the tensor-parallel plan (`hqsb/distributed/parallel_plan.py`).

`derivePlan` goes through the parameters of the census and picks a shard map by the end of the
name.  `roleOf` is that case distinction, and every parameter of the census has the shape its role
asks for (`roleShape_of_mem`), so that a derived plan cuts an axis of known length; heads and MLP
slices are derived by formulas of their own.  `ParallelPlan.validate` compares a plan with the
census: names, shapes, and the ranges of the sharded parameters, which `verifyShardRanges` lays end
to end.
-/
import Hqsb.Distributed.Shards
import Hqsb.Lib.Buckets

namespace Hqsb.Distributed

open Lib Lib.Tiling Lib.Buckets List

/-! ### Census -/

/-- The architecture facts of one model, with what the constructor checks. -/
structure QwenArchitectureCensus where
  numLayers : Nat
  hiddenSize : Nat
  intermediateSize : Nat
  numAttentionHeads : Nat
  numKvHeads : Nat
  headDim : Nat
  vocabSize : Nat
  tieWordEmbeddings : Bool := true
  attentionBias : Bool := false
  mlpBias : Bool := false
  numLayers_pos : 0 < numLayers
  hiddenSize_pos : 0 < hiddenSize
  intermediateSize_pos : 0 < intermediateSize
  numAttentionHeads_pos : 0 < numAttentionHeads
  numKvHeads_pos : 0 < numKvHeads
  headDim_pos : 0 < headDim
  vocabSize_pos : 0 < vocabSize
  grouped : numAttentionHeads % numKvHeads = 0

namespace QwenArchitectureCensus

variable (census : QwenArchitectureCensus)

def headGroups : Nat := census.numAttentionHeads / census.numKvHeads

def qDim : Nat := census.numAttentionHeads * census.headDim

def kvDim : Nat := census.numKvHeads * census.headDim

/-- The parameters outside of the layers that come first. -/
def headShapes : List (String × List Int) :=
  [("model.embed_tokens.weight", [census.vocabSize, census.hiddenSize]),
    ("model.norm.weight", [census.hiddenSize])]

def attentionBiasShapes (stem : String) : List (String × List Int) :=
  [(stem ++ ".self_attn.q_proj.bias", [census.qDim]),
    (stem ++ ".self_attn.k_proj.bias", [census.kvDim]),
    (stem ++ ".self_attn.v_proj.bias", [census.kvDim])]

def mlpBiasShapes (stem : String) : List (String × List Int) :=
  [(stem ++ ".mlp.gate_proj.bias", [census.intermediateSize]),
    (stem ++ ".mlp.up_proj.bias", [census.intermediateSize]),
    (stem ++ ".mlp.down_proj.bias", [census.hiddenSize])]

def attentionShapes (stem : String) : List (String × List Int) :=
  [(stem ++ ".input_layernorm.weight", [census.hiddenSize]),
    (stem ++ ".self_attn.q_proj.weight", [census.qDim, census.hiddenSize]),
    (stem ++ ".self_attn.k_proj.weight", [census.kvDim, census.hiddenSize]),
    (stem ++ ".self_attn.v_proj.weight", [census.kvDim, census.hiddenSize]),
    (stem ++ ".self_attn.o_proj.weight", [census.hiddenSize, census.qDim])]

def mlpShapes (stem : String) : List (String × List Int) :=
  [(stem ++ ".post_attention_layernorm.weight", [census.hiddenSize]),
    (stem ++ ".mlp.gate_proj.weight", [census.intermediateSize, census.hiddenSize]),
    (stem ++ ".mlp.up_proj.weight", [census.intermediateSize, census.hiddenSize]),
    (stem ++ ".mlp.down_proj.weight", [census.hiddenSize, census.intermediateSize])]

/-- The parameters of the layer whose names start with `stem`. -/
def layerShapes (stem : String) : List (String × List Int) :=
  census.attentionShapes stem ++
    (if census.attentionBias then census.attentionBiasShapes stem else []) ++
    census.mlpShapes stem ++ if census.mlpBias then census.mlpBiasShapes stem else []

def layerStem (layer : Nat) : String := "model.layers." ++ toString layer

/-- The assignments of `parameter_shapes`, in order. -/
def shapeList : List (String × List Int) :=
  census.headShapes ++
    ((List.range census.numLayers).flatMap fun layer => census.layerShapes (layerStem layer)) ++
    if census.tieWordEmbeddings then [] else
      [("lm_head.weight", [(census.vocabSize : Int), census.hiddenSize])]

def parameterShapes : OrderedDict String (List Int) :=
  census.shapeList.foldl (fun d e => d.set e.1 e.2) OrderedDict.empty

end QwenArchitectureCensus

theorem get?_foldl_set {κ ν : Type} [DecidableEq κ] {l : List (κ × ν)} {d : OrderedDict κ ν} {k : κ}
    {v : ν} (h : (l.foldl (fun d e => d.set e.1 e.2) d).get? k = some v) :
    (k, v) ∈ l ∨ d.get? k = some v := by
  induction l generalizing d with
  | nil => exact .inr h
  | cons e l ih =>
    rcases ih h with hin | hset
    · exact .inl (.tail _ hin)
    · rw [OrderedDict.get?_set] at hset
      split_ifs at hset with hk
      · cases hset
        exact .inl (hk ▸ .head _)
      · exact .inr hset

theorem mem_keys_foldl_set {κ ν : Type} [DecidableEq κ] {l : List (κ × ν)} {d : OrderedDict κ ν}
    {k : κ} :
    k ∈ (l.foldl (fun d e => d.set e.1 e.2) d).keys ↔ k ∈ l.map Prod.fst ∨ k ∈ d.keys := by
  induction l generalizing d with
  | nil => simp
  | cons e l ih =>
    rw [foldl_cons, ih, OrderedDict.mem_keys_set, map_cons, mem_cons]
    tauto

/-! ### Capability -/

inductive KvStrategy where
  | splitEven | replicate | uneven | reject
  deriving DecidableEq

/-- Why a degree is not usable. -/
inductive CapabilityReason where
  | hidden | intermediate | queryHeads | devices | vocab | kvHeads | kvReplicated

structure TpCapability where
  degree : Nat
  supported : Bool
  kvStrategy : KvStrategy
  reasons : List CapabilityReason
  degree_pos : 1 ≤ degree

section Derivation

variable (census : QwenArchitectureCensus)

def kvStrategyOf (degree : Nat) (allowUneven : Bool) : KvStrategy :=
  if census.numKvHeads % degree = 0 then .splitEven
  else if degree ≤ census.numKvHeads then if allowUneven then .uneven else .reject
  else .replicate

/-- One row of `tp_capability_matrix`. -/
def tpCapability (degree availableDevices : Nat)
    (requireVocabDivisible allowUneven : Bool) : Except PlanRaise TpCapability :=
  if availableDevices < 1 then .error (.config "available_devices")
  else if h : 1 ≤ degree then
    let strategy := kvStrategyOf census degree allowUneven
    let reasons :=
      (if census.hiddenSize % degree ≠ 0 then [CapabilityReason.hidden] else []) ++
      (if census.intermediateSize % degree ≠ 0 then [CapabilityReason.intermediate] else []) ++
      (if census.numAttentionHeads % degree ≠ 0 then [CapabilityReason.queryHeads] else []) ++
      (if availableDevices < degree then [CapabilityReason.devices] else []) ++
      (if requireVocabDivisible ∧ census.vocabSize % degree ≠ 0 then
        [CapabilityReason.vocab] else []) ++
      (if strategy = .reject then [CapabilityReason.kvHeads] else []) ++
      (if strategy = .replicate then [CapabilityReason.kvReplicated] else [])
    .ok ⟨degree, reasons = [], strategy, reasons, h⟩
  else .error (.config "degree")

/-! ### Head and MLP ownership -/

/-- Q/K/V/O projection shard plan. -/
structure AttentionShard where
  degree : Nat
  qHeadsPerRank : Nat
  kvHeadsPerRank : Nat
  kvReplicated : Bool
  qRange : Nat × Nat
  kvRange : Nat × Nat
  globalToLocalHead : List (Nat × Nat)

/-- KV heads of a rank: how many, whether they are replicated, and their range. -/
def kvOwned (degree rank : Nat) (strategy : KvStrategy) : Nat × Bool × Nat × Nat :=
  match strategy with
  | .splitEven =>
    let perRank := census.numKvHeads / degree
    (perRank, false, rank * perRank, rank * perRank + perRank)
  | .uneven =>
    let base := census.numKvHeads / degree
    let remainder := census.numKvHeads % degree
    let perRank := base + if rank < remainder then 1 else 0
    let start := rank * base + min rank remainder
    (perRank, false, start, start + perRank)
  | _ => (census.numKvHeads, true, 0, census.numKvHeads)

/-- Derive Q/KV head ownership for one rank. -/
def deriveAttentionShard (degree rank : Nat)
    (kvStrategy : Option KvStrategy) : Except PlanRaise AttentionShard := do
  require (1 ≤ degree ∧ rank < degree) ""
  let strategy := kvStrategy.getD (kvStrategyOf census degree false)
  require (strategy ≠ .reject) "kv_strategy"
  require (census.numAttentionHeads % degree = 0 ∨ strategy = .uneven) "degree"
  let qPerRank := census.numAttentionHeads / degree
  let qStart := rank * qPerRank
  let owned := kvOwned census degree rank strategy
  pure {
    degree := degree
    qHeadsPerRank := qPerRank
    kvHeadsPerRank := owned.1
    kvReplicated := owned.2.1
    qRange := (qStart, qStart + qPerRank)
    kvRange := owned.2.2
    globalToLocalHead := (List.range qPerRank).map fun offset => (qStart + offset, offset) }

/-- gate/up column-shard + down row-shard pairing. -/
structure MlpShard where
  degree : Nat
  intermediatePerRank : Nat
  gateRange : Nat × Nat
  upRange : Nat × Nat
  partialMergeCollective : String

/-- Column-shard gate/up by output dim, row-shard down by input dim. -/
def deriveMlpShard (degree rank : Nat) (collective : String) : Except PlanRaise MlpShard := do
  require (1 ≤ degree ∧ rank < degree) ""
  require (census.intermediateSize % degree = 0) "intermediate_size"
  require (collective ∈ ["all_reduce", "reduce_scatter"]) "collective"
  let perRank := census.intermediateSize / degree
  let start := rank * perRank
  pure {
    degree := degree
    intermediatePerRank := perRank
    gateRange := (start, start + perRank)
    upRange := (start, start + perRank)
    partialMergeCollective := collective }

/-! ### The plan -/

structure ParallelPlan where
  tpDegree : Int
  orderedRanks : List Int
  parameterShards : List ShardSpec
  attentionShards : List AttentionShard := []
  mlpShards : List MlpShard := []
  unsupportedPredicate : String := ""
  fallbackPolicy : String := "reject"

def endsWith (name suffix : String) : Bool := suffix.toList.isSuffixOf name.toList

def endsWithAny (name : String) (suffixes : List String) : Bool := suffixes.any (endsWith name)

def planParameter (degree : Nat) (allowPadding : Bool)
    (name : String) (shape : List Int) : Except PlanRaise (List ShardSpec) :=
  if endsWithAny name
      ["embed_tokens.weight", "lm_head.weight", "norm.weight", "layernorm.weight"] then
    (replicatedShard name shape degree).map fun spec => [spec]
  else if endsWithAny name ["q_proj.weight", "q_proj.bias"] then
    planAxisShards name shape .row degree allowPadding
  else if endsWithAny name ["k_proj.weight", "v_proj.weight", "k_proj.bias", "v_proj.bias"] then
    if census.numKvHeads % degree = 0 then planAxisShards name shape .row degree allowPadding
    else (replicatedShard name shape degree).map fun spec => [spec]
  else if endsWithAny name ["o_proj.weight", "down_proj.weight"] then
    planAxisShards name shape .column degree allowPadding
  else if endsWithAny name
      ["gate_proj.weight", "up_proj.weight", "gate_proj.bias", "up_proj.bias"] then
    planAxisShards name shape .row degree allowPadding
  else planAxisShards name shape .column degree allowPadding

/-- Derive a complete plan for a supported degree (raises when unsupported). -/
def derivePlan (degree : Nat) (orderedRanks : List Int)
    (allowPadding : Bool) (collectiveMerge : String) : Except PlanRaise ParallelPlan := do
  let capability ← tpCapability census degree degree false allowPadding
  require (¬ (capability.supported = false ∧ capability.kvStrategy = .reject)) "degree"
  let shards ← census.parameterShapes.entries.mapM fun e =>
    planParameter census degree allowPadding e.1 e.2
  let attention ← (List.range degree).mapM fun rank =>
    deriveAttentionShard census degree rank (some capability.kvStrategy)
  let mlp ← (List.range degree).mapM fun rank =>
    deriveMlpShard census degree rank collectiveMerge
  pure {
    tpDegree := degree
    orderedRanks := orderedRanks
    parameterShards := shards.flatten
    attentionShards := attention
    mlpShards := mlp
    unsupportedPredicate :=
      "hidden/intermediate/head/vocab divisibility per tp_capability_matrix; anything " ++
        "else is PAD/UNEVEN/REJECT, never truncated" }

/-! ### The range audit -/

structure RangeAudit where
  overlaps : List (String × Int × Int) := []
  gaps : List (String × Int × Int) := []
  deriving DecidableEq

/-- One range of a parameter: the cursor and the audit so far go in, and come out. -/
def auditRange (param : String) (s : Int × RangeAudit) (range : Int × Int) : Int × RangeAudit :=
  (max s.1 range.2, {
    overlaps := s.2.overlaps ++ if range.1 < s.1 then [(param, range.1, range.2)] else []
    gaps := s.2.gaps ++ if s.1 < range.1 then [(param, s.1, range.1)] else [] })

/-- `sorted((item.start, item.end) for item in items)` -/
def sortedRanges (items : List ShardSpec) : List (Int × Int) :=
  (items.map fun item => (item.start, item.stop)).mergeSort fun a b =>
    a.1 < b.1 ∨ (a.1 = b.1 ∧ a.2 ≤ b.2)

def auditParam (globalShape : List Int) (audit : RangeAudit) (entry : String × List ShardSpec) :
    Except PlanRaise RangeAudit :=
  match entry.2 with
  | [] => .error .indexError
  | first :: _ =>
    if first.shardAxis = .none then .ok audit
    else match globalShape[first.shardAxis.index]? with
      | none => .error .indexError
      | some size =>
        let s := (sortedRanges entry.2).foldl (auditRange entry.1) (0, audit)
        .ok { s.2 with
          gaps := s.2.gaps ++ if s.1 ≠ size then [(entry.1, s.1, size)] else [] }

/-- `sorted(by_param.items())`: names are distinct, so they decide. -/
def sortedItems (d : OrderedDict String (List ShardSpec)) : List (String × List ShardSpec) :=
  d.entries.mergeSort fun a b => a.1 ≤ b.1

/-- Range audit: no overlap, no gap, full coverage. -/
def verifyShardRanges (specs : List ShardSpec) (globalShape : List Int) :
    Except PlanRaise RangeAudit :=
  (sortedItems (bucket ShardSpec.paramName specs)).foldlM (auditParam globalShape) {}

/-! ### Validation -/

inductive PlanProblem where
  | degree
  | rankCount (found : Nat) (degree : Int)
  | duplicateRanks
  | fallback
  | predicate
  | missing (names : List String)
  | unknown (names : List String)
  | shape (param : String) (found expected : List Int)
  | range (param : String) (range : String × Int × Int)

end Derivation

namespace ParallelPlan

variable (plan : ParallelPlan) (census : QwenArchitectureCensus)

def shardsFor (paramName : String) : List ShardSpec :=
  plan.parameterShards.filter fun spec => spec.paramName = paramName

def ownProblems : List PlanProblem :=
  (if plan.tpDegree < 1 then [PlanProblem.degree] else []) ++
  (if (plan.orderedRanks.length : Int) ≠ plan.tpDegree then
    [PlanProblem.rankCount plan.orderedRanks.length plan.tpDegree] else []) ++
  (if plan.orderedRanks.dedup.length ≠ plan.orderedRanks.length then
    [PlanProblem.duplicateRanks] else []) ++
  (if plan.fallbackPolicy ≠ "reject" then [PlanProblem.fallback] else []) ++
  (if plan.unsupportedPredicate = "" then [PlanProblem.predicate] else [])

/-- `sorted(expected - covered)` and `sorted(covered - expected)` -/
def nameProblems : List PlanProblem :=
  let expected := census.parameterShapes.keys
  let covered := plan.parameterShards.map ShardSpec.paramName
  let missing := (expected.filter fun name => name ∉ covered).mergeSort fun a b => a ≤ b
  let unknown := (covered.dedup.filter fun name => name ∉ expected).mergeSort fun a b => a ≤ b
  (if missing ≠ [] then [.missing (missing.take 5)] else []) ++
    if unknown ≠ [] then [.unknown (unknown.take 5)] else []

/-- The shape of one shard; a name that the census does not have is a `KeyError`. -/
def shapeProblem (spec : ShardSpec) : Except PlanRaise (List PlanProblem) :=
  match census.parameterShapes.get? spec.paramName with
  | none => .error (.keyError spec.paramName)
  | some shape =>
    .ok (if spec.globalShape ≠ shape then [.shape spec.paramName spec.globalShape shape] else [])

def rangeProblems (entry : String × List ShardSpec) : Except PlanRaise (List PlanProblem) :=
  match census.parameterShapes.get? entry.1 with
  | none => .error (.keyError entry.1)
  | some shape => do
    let audit ← verifyShardRanges entry.2 shape
    pure ((audit.overlaps ++ audit.gaps).map (.range entry.1))

def shardedByParam : OrderedDict String (List ShardSpec) :=
  bucket ShardSpec.paramName (plan.parameterShards.filter fun spec => spec.shardAxis ≠ .none)

def validate (census : Option QwenArchitectureCensus) : Except PlanRaise (List PlanProblem) :=
  match census with
  | none => .ok plan.ownProblems
  | some census => do
    let shapes ← plan.parameterShards.mapM (shapeProblem census)
    let ranges ← (sortedItems plan.shardedByParam).mapM (rangeProblems census)
    pure (plan.ownProblems ++ plan.nameProblems census ++ shapes.flatten ++ ranges.flatten)

end ParallelPlan

/-! ### Ends of names -/

theorem endsWith_append (stem tail suffix : String) : endsWith (stem ++ tail) suffix =
    suffix.toList.reverse.isPrefixOf (tail.toList.reverse ++ stem.toList.reverse) := by
  rw [endsWith, List.isSuffixOf, String.toList_append, List.reverse_append]

/-- The branches of `derive_plan`, with the two column-parallel weights told apart. -/
inductive ParameterRole where
  | replicated | query | keyValue | output | down | gateUp | other
  deriving DecidableEq

def roleOf (name : String) : ParameterRole :=
  if endsWithAny name
      ["embed_tokens.weight", "lm_head.weight", "norm.weight", "layernorm.weight"] then .replicated
  else if endsWithAny name ["q_proj.weight", "q_proj.bias"] then .query
  else if endsWithAny name ["k_proj.weight", "v_proj.weight", "k_proj.bias", "v_proj.bias"] then
    .keyValue
  else if endsWith name "o_proj.weight" then .output
  else if endsWith name "down_proj.weight" then .down
  else if endsWithAny name
      ["gate_proj.weight", "up_proj.weight", "gate_proj.bias", "up_proj.bias"] then .gateUp
  else .other

def ParameterRole.axis : ParameterRole → ShardAxis
  | .replicated => .none
  | .query | .keyValue | .gateUp => .row
  | .output | .down | .other => .column

section

variable (census : QwenArchitectureCensus) (degree : Nat) (allowPadding : Bool)

theorem planParameter_eq (name : String) (shape : List Int) :
    planParameter census degree allowPadding name shape =
      if roleOf name = .replicated ∨ roleOf name = .keyValue ∧ census.numKvHeads % degree ≠ 0 then
        (replicatedShard name shape degree).map fun spec => [spec]
      else planAxisShards name shape (roleOf name).axis degree allowPadding := by
  rw [planParameter, roleOf]
  by_cases hreplicated : endsWithAny name
      ["embed_tokens.weight", "lm_head.weight", "norm.weight", "layernorm.weight"] = true
  · rw [if_pos hreplicated, if_pos hreplicated, if_pos (.inl rfl)]
  rw [if_neg hreplicated, if_neg hreplicated]
  by_cases hquery : endsWithAny name ["q_proj.weight", "q_proj.bias"] = true
  · rw [if_pos hquery, if_pos hquery]
    rfl
  rw [if_neg hquery, if_neg hquery]
  by_cases hkeyValue : endsWithAny name
      ["k_proj.weight", "v_proj.weight", "k_proj.bias", "v_proj.bias"] = true
  · rw [if_pos hkeyValue, if_pos hkeyValue]
    by_cases hkv : census.numKvHeads % degree = 0
    · rw [if_pos hkv, if_neg fun h => h.elim (fun h => nomatch h) fun h => h.2 hkv]
      rfl
    · rw [if_neg hkv, if_pos (.inr ⟨rfl, hkv⟩)]
  rw [if_neg hkeyValue, if_neg hkeyValue]
  by_cases houtput : endsWith name "o_proj.weight" = true
  · have hcolumn : endsWithAny name ["o_proj.weight", "down_proj.weight"] = true := by
      rw [endsWithAny, List.any_cons, houtput, Bool.true_or]
    rw [if_pos hcolumn, if_pos houtput]
    rfl
  rw [if_neg houtput]
  by_cases hdown : endsWith name "down_proj.weight" = true
  · have hcolumn : endsWithAny name ["o_proj.weight", "down_proj.weight"] = true := by
      rw [endsWithAny, List.any_cons, List.any_cons, hdown, Bool.true_or, Bool.or_true]
    rw [if_pos hcolumn, if_pos hdown]
    rfl
  have hcolumn : ¬ endsWithAny name ["o_proj.weight", "down_proj.weight"] = true := by
    rw [endsWithAny, List.any_cons, List.any_cons, List.any_nil, Bool.or_false, Bool.or_eq_true]
    exact not_or.mpr ⟨houtput, hdown⟩
  rw [if_neg hcolumn, if_neg hdown]
  by_cases hgate : endsWithAny name
      ["gate_proj.weight", "up_proj.weight", "gate_proj.bias", "up_proj.bias"] = true
  · rw [if_pos hgate, if_pos hgate]
    rfl
  · rw [if_neg hgate, if_neg hgate]
    rfl

/-- The length of the axis that is cut. -/
def roleTotal : ParameterRole → Nat
  | .query | .output => census.qDim
  | .keyValue => census.kvDim
  | .gateUp | .down => census.intermediateSize
  | .replicated | .other => 0

/-- The shape that a role asks for; a bias that is not known has no second axis. -/
def RoleShape (role : ParameterRole) (shape : List Int) : Prop :=
  match role with
  | .replicated => True
  | .other => shape[1]? = none
  | role => shape[role.axis.index]? = some (roleTotal census role : Int)

/-- The ends of the names in a layer. -/
def tailRoles : List (String × ParameterRole) :=
  [(".input_layernorm.weight", .replicated), (".self_attn.q_proj.weight", .query),
    (".self_attn.k_proj.weight", .keyValue), (".self_attn.v_proj.weight", .keyValue),
    (".self_attn.o_proj.weight", .output), (".self_attn.q_proj.bias", .query),
    (".self_attn.k_proj.bias", .keyValue), (".self_attn.v_proj.bias", .keyValue),
    (".post_attention_layernorm.weight", .replicated), (".mlp.gate_proj.weight", .gateUp),
    (".mlp.up_proj.weight", .gateUp), (".mlp.down_proj.weight", .down),
    (".mlp.gate_proj.bias", .gateUp), (".mlp.up_proj.bias", .gateUp),
    (".mlp.down_proj.bias", .other)]

/-- **The role of a layer's parameter** does not depend on the layer. -/
theorem roleOf_tail {tail : String} {role : ParameterRole} (h : (tail, role) ∈ tailRoles)
    (stem : String) : roleOf (stem ++ tail) = role := by
  simp only [tailRoles, List.mem_cons, List.not_mem_nil, or_false] at h
  simp only [roleOf, endsWithAny, List.any_cons, endsWith_append]
  rcases h with ⟨rfl, rfl⟩ | ⟨rfl, rfl⟩ | ⟨rfl, rfl⟩ | ⟨rfl, rfl⟩ | ⟨rfl, rfl⟩ | ⟨rfl, rfl⟩ |
    ⟨rfl, rfl⟩ | ⟨rfl, rfl⟩ | ⟨rfl, rfl⟩ | ⟨rfl, rfl⟩ | ⟨rfl, rfl⟩ | ⟨rfl, rfl⟩ | ⟨rfl, rfl⟩ |
    ⟨rfl, rfl⟩ | ⟨rfl, rfl⟩
  all_goals rfl

theorem roleOf_embed : roleOf "model.embed_tokens.weight" = .replicated := by decide

theorem roleOf_norm : roleOf "model.norm.weight" = .replicated := by decide

theorem roleOf_head : roleOf "lm_head.weight" = .replicated := by decide

theorem roleShape_of_layer (stem : String) :
    ∀ e ∈ census.layerShapes stem, RoleShape census (roleOf e.1) e.2 ∧
      (roleOf e.1 = .other → census.mlpBias = true) := by
  have hroles : ∀ e ∈ tailRoles, roleOf (stem ++ e.1) = e.2 := fun e he => roleOf_tail he stem
  simp only [tailRoles, List.forall_mem_cons] at hroles
  simp only [QwenArchitectureCensus.layerShapes, List.forall_mem_append]
  refine ⟨⟨⟨?_, ?_⟩, ?_⟩, ?_⟩
  · simp [QwenArchitectureCensus.attentionShapes, hroles, RoleShape, roleTotal,
      ParameterRole.axis, ShardAxis.index]
  · split_ifs
    · simp [QwenArchitectureCensus.attentionBiasShapes, hroles, RoleShape, roleTotal,
        ParameterRole.axis, ShardAxis.index]
    · exact nofun
  · simp [QwenArchitectureCensus.mlpShapes, hroles, RoleShape, roleTotal,
      ParameterRole.axis, ShardAxis.index]
  · split_ifs with hmlp
    · simp [QwenArchitectureCensus.mlpBiasShapes, hroles, RoleShape, roleTotal, hmlp,
        ParameterRole.axis, ShardAxis.index]
    · exact nofun

end

/-- **Every parameter has the shape of its role**, and has a role but for a bias of the MLP. -/
theorem roleShape_of_mem {census : QwenArchitectureCensus} {name : String} {shape : List Int}
    (h : (name, shape) ∈ census.shapeList) :
    RoleShape census (roleOf name) shape ∧ (roleOf name = .other → census.mlpBias = true) := by
  rcases List.mem_append.mp h with h | hhead
  swap
  · split_ifs at hhead
    · cases hhead
    · obtain ⟨rfl, -⟩ := Prod.mk.inj (List.mem_singleton.mp hhead)
      rw [roleOf_head]
      exact ⟨trivial, nofun⟩
  rcases List.mem_append.mp h with hembed | hlayer
  · simp only [QwenArchitectureCensus.headShapes, List.mem_cons, List.not_mem_nil,
      or_false] at hembed
    rcases hembed with ⟨rfl, -⟩ | ⟨rfl, -⟩
    · rw [roleOf_embed]
      exact ⟨trivial, nofun⟩
    · rw [roleOf_norm]
      exact ⟨trivial, nofun⟩
  obtain ⟨layer, -, hlayer⟩ := List.mem_flatMap.mp hlayer
  exact roleShape_of_layer census _ (name, shape) hlayer

end Hqsb.Distributed
