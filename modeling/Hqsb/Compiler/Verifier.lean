/-
Hqsb/Compiler/Verifier.lean

`IRVerifier.verify`: the checks between any two passes, with an issue for whatever they find.

Whether a value is defined is looked up in the table of values and among the inputs; whether the
named producers exist, among the operations; whether there is a cycle, along the results.  None of
the checks compares the table with the results.  So a graph without issues orders its operations
(`topologicalOrder_ok_iff`), but a value may be in the table and come from nowhere, or from two
operations.  Exactly when neither happens, the graph says of each value where it comes from
(`accepted_wellDefined_iff`).
-/
import Hqsb.Compiler.Ir

namespace Hqsb.Compiler

open Lib List

/-! ### Problems of the parts -/

def DIM_ORIGINS : List String := ["user", "model", "branch", "kernel", "specialization"]

def CONSTRAINT_VERIFIER_STATUSES : List String := ["VERIFIED", "UNVERIFIED", "REJECTED"]

def CONSTRAINT_CATEGORIES : List String := ["semantic", "variant", "capability", "profitability"]

def DTYPES : List String :=
  ["fp64", "fp32", "tf32", "bf16", "fp16", "fp8_e4m3", "fp8_e5m2", "int8", "int4", "bool"]

def LAYOUTS : List String := ["strided", "contiguous", "channels_last", "custom_packed", "unknown"]

def EFFECT_EVIDENCE : List String := ["schema", "metadata", "analysis", "runtime_test", "unknown"]

inductive DimProblem where
  | nameless
  | unknownOrigin (origin : String)
  | unknownStatus (status : String)
  | lowerAboveUpper (name : String)
  | divisibilityNotPositive (name : String)
  | unbounded (name : String)

inductive TypeProblem where
  | unknownDtype (dtype : String)
  | unknownLayout (layout : String)
  | ranksDiffer
  | dim (problem : DimProblem)

inductive EffectProblem where
  | unknownEvidence (evidence : String)
  | unknownMutation (mutation : String)
  | unknownRng (rng : String)
  | unknownStream (stream : String)
  | noReason

inductive OpProblem where
  | nameless
  | noResult (opId : String)
  | effect (problem : EffectProblem)
  | noRejectReason (opId : String)
  | noLineage (opId : String)

inductive ConstraintProblem where
  | unknownCategory (category : String)
  | unknownOrigin (origin : String)
  | unknownStatus (status : String)
  | emptyExpression

def problem {α : Type*} (fails : Prop) [Decidable fails] (p : α) : List α := if fails then [p] else []

theorem problem_eq_nil {α : Type*} {fails : Prop} [Decidable fails] {p : α} :
    problem fails p = [] ↔ ¬ fails := by
  rw [problem]
  split_ifs with h <;> simp [h]

def mentions (text word : String) : Bool :=
  text.toList.tails.any fun t => word.toList.isPrefixOf t

def SymbolicDim.validate (dim : SymbolicDim) : List DimProblem :=
  let outOfOrder := match dim.lower, dim.upper with
    | some lower, some upper => upper < lower
    | _, _ => false
  problem (dim.name = "" ∨ dim.expression = "") DimProblem.nameless ++
    problem (dim.origin ∉ DIM_ORIGINS) (DimProblem.unknownOrigin dim.origin) ++
    problem (dim.verifierStatus ∉ CONSTRAINT_VERIFIER_STATUSES)
      (DimProblem.unknownStatus dim.verifierStatus) ++
    problem (outOfOrder = true) (DimProblem.lowerAboveUpper dim.name) ++
    problem (∃ d ∈ dim.divisibility, d ≤ 0) (DimProblem.divisibilityNotPositive dim.name) ++
    problem (dim.lower = none ∧ dim.upper = none ∧ mentions dim.origin "static" = false)
      (DimProblem.unbounded dim.name)

def TensorType.validate (type : TensorType) : List TypeProblem :=
  problem (type.dtype ∉ DTYPES) (TypeProblem.unknownDtype type.dtype) ++
    problem (type.layout ∉ LAYOUTS) (TypeProblem.unknownLayout type.layout) ++
    problem (type.dims ≠ [] ∧ type.stride ≠ [] ∧ type.dims.length ≠ type.stride.length)
      TypeProblem.ranksDiffer ++
    type.symbolic.flatMap fun dim => dim.validate.map TypeProblem.dim

def EffectSet.validate (effects : EffectSet) : List EffectProblem :=
  problem (effects.evidence ∉ EFFECT_EVIDENCE) (EffectProblem.unknownEvidence effects.evidence) ++
    problem (effects.mutation ∉ ["none", "inplace", "unknown"])
      (EffectProblem.unknownMutation effects.mutation) ++
    problem (effects.rng ∉ ["none", "consumes", "stateful"])
      (EffectProblem.unknownRng effects.rng) ++
    problem (effects.stream ∉ ["current", "default_stream", "own_stream"])
      (EffectProblem.unknownStream effects.stream) ++
    problem (effects.evidence = "unknown" ∧ effects.stateReason = "") EffectProblem.noReason

def IROp.validate (op : IROp) : List OpProblem :=
  problem (op.opId = "" ∨ op.semanticOp = "") OpProblem.nameless ++
    problem (op.results = []) (OpProblem.noResult op.opId) ++
    op.effects.validate.map OpProblem.effect ++
    problem (false ∈ op.targetLegal.values ∧ op.rejectReason = "")
      (OpProblem.noRejectReason op.opId) ++
    problem ("source_nodes" ∉ op.source.keys ∧ "module_path" ∉ op.source.keys)
      (OpProblem.noLineage op.opId)

def ShapeConstraint.validate (item : ShapeConstraint) : List ConstraintProblem :=
  problem (item.category ∉ CONSTRAINT_CATEGORIES)
    (ConstraintProblem.unknownCategory item.category) ++
    problem (item.origin ∉ DIM_ORIGINS) (ConstraintProblem.unknownOrigin item.origin) ++
    problem (item.verifierStatus ∉ CONSTRAINT_VERIFIER_STATUSES)
      (ConstraintProblem.unknownStatus item.verifierStatus) ++
    problem (item.expression = "") ConstraintProblem.emptyExpression

/-! ### Issues of a graph -/

/-- What the verifier finds; every one of these blocks the compilation. -/
inductive VerifierIssue where
  | missingGraphId
  | unknownIrLevel (level : String)
  | levelWithoutHqsbSchema
  | duplicateId (id : String)
  | undefinedOperand (opId operand : String)
  | undeclaredResult (opId result : String)
  | opWithoutOperands (opId : String)
  | schemaVersionMismatch (opId version : String)
  | opInvalid (opId : String) (problem : OpProblem)
  | typeInvalid (valueId : String) (problem : TypeProblem)
  | unknownProducer (valueId producer : String)
  | danglingValue (valueId : String)
  | unknownUser (valueId user : String)
  | noOutputs
  | outputUnreachable (output : String)
  | cycle (fault : DepthFirst.Fault String)
  | constraintsMissing
  | constraintInvalid (problem : ConstraintProblem)
  | noCandidates
  | noSelection
  | noFallback

namespace IRGraph

variable (g : IRGraph)

def defined : List String := g.valueIds ++ g.inputs

def duplicates : List String :=
  let ids := g.opIds ++ g.valueIds
  (ids.filter fun id => 1 < ids.count id).dedup.insertionSort (· ≤ ·)

def opIssues (op : IROp) : List VerifierIssue :=
  op.operands.flatMap (fun operand =>
      problem (operand ∉ g.defined) (VerifierIssue.undefinedOperand op.opId operand)) ++
    op.results.flatMap (fun result =>
      problem (result ∉ g.defined) (VerifierIssue.undeclaredResult op.opId result)) ++
    problem (op.operands = []) (VerifierIssue.opWithoutOperands op.opId) ++
    problem (op.schemaVersion ≠ SCHEMA_VERSION)
      (VerifierIssue.schemaVersionMismatch op.opId op.schemaVersion) ++
    op.validate.map (VerifierIssue.opInvalid op.opId)

def valueIssues (value : IRValue) : List VerifierIssue :=
  (match value.type with
    | some type => type.validate.map (VerifierIssue.typeInvalid value.valueId)
    | none => []) ++
    problem (value.producer ≠ "" ∧ value.producer ∉ g.opIds)
      (VerifierIssue.unknownProducer value.valueId value.producer) ++
    problem (value.producer = "" ∧ value.isInput = false)
      (VerifierIssue.danglingValue value.valueId) ++
    value.users.flatMap fun user =>
      problem (user ∉ g.opIds) (VerifierIssue.unknownUser value.valueId user)

/-- The issues of `IRVerifier.verify`, in its order. -/
def issues : List VerifierIssue :=
  problem (g.graphId = "") VerifierIssue.missingGraphId ++
    problem (g.level ∉ IR_LEVELS) (VerifierIssue.unknownIrLevel g.level) ++
    problem (g.level ∉ [IR_HQSB_CANONICAL, IR_HQSB_TARGETED] ∧ g.ops ≠ [])
      VerifierIssue.levelWithoutHqsbSchema ++
    g.duplicates.map VerifierIssue.duplicateId ++
    g.ops.flatMap g.opIssues ++
    g.values.flatMap g.valueIssues ++
    problem (g.outputs = []) VerifierIssue.noOutputs ++
    g.outputs.flatMap (fun output =>
      problem (output ∉ g.defined) (VerifierIssue.outputUnreachable output)) ++
    (match g.topologicalOrder with
      | .error fault => [.cycle fault]
      | .ok _ => []) ++
    problem (g.constraints = []) VerifierIssue.constraintsMissing ++
    g.constraints.flatMap (fun item => item.validate.map VerifierIssue.constraintInvalid) ++
    if g.level = IR_HQSB_TARGETED then
      problem (g.candidates = []) VerifierIssue.noCandidates ++
        problem (g.selection.entries = []) VerifierIssue.noSelection ++
        problem (g.fallback.entries = []) VerifierIssue.noFallback
    else []

/-- `verify_graph(g).ok` -/
def ok : Bool := g.issues.isEmpty

/-! ### What the verdict says about the flow of values -/

/-- What has been looked at, as far as ids, values and their users are concerned. -/
structure Checked : Prop where
  nodup : (g.opIds ++ g.valueIds).Nodup
  named : ∀ op ∈ g.ops, op.opId ≠ ""
  operands : ∀ op ∈ g.ops, ∀ v ∈ op.operands, v ∈ g.defined
  results : ∀ op ∈ g.ops, ∀ v ∈ op.results, v ∈ g.defined
  produces : ∀ op ∈ g.ops, op.results ≠ []
  producers : ∀ value ∈ g.values, value.producer ≠ "" → value.producer ∈ g.opIds
  dangling : ∀ value ∈ g.values, value.producer = "" → value.isInput = true
  outputs : ∀ v ∈ g.outputs, v ∈ g.defined
  sorted : ∃ order, g.topologicalOrder = .ok order

variable {g}

theorem nodup_of_duplicates (h : g.duplicates = []) : (g.opIds ++ g.valueIds).Nodup := by
  rw [nodup_iff_count_le_one]
  intro id
  rcases lt_or_ge 1 ((g.opIds ++ g.valueIds).count id) with hlt | hle
  · have hmem : id ∈ g.duplicates := by
      rw [duplicates, mem_insertionSort, mem_dedup, mem_filter]
      exact ⟨count_pos_iff.mp (by omega), by simpa using hlt⟩
    cases h ▸ hmem
  · exact hle

/-- **The verdict**, check by check. -/
theorem checked_of_ok (h : g.ok = true) : g.Checked := by
  rw [ok, List.isEmpty_iff, issues] at h
  simp only [List.append_eq_nil_iff, List.flatMap_eq_nil_iff, List.map_eq_nil_iff] at h
  obtain ⟨⟨⟨⟨⟨⟨⟨⟨⟨⟨⟨-, -⟩, -⟩, hdup⟩, hops⟩, hvalues⟩, -⟩, houtputs⟩, hcycle⟩, -⟩, -⟩, -⟩ := h
  simp only [opIssues, List.append_eq_nil_iff, List.flatMap_eq_nil_iff, problem_eq_nil,
    not_not, IROp.validate, List.map_eq_nil_iff, not_or] at hops
  simp only [valueIssues, List.append_eq_nil_iff, problem_eq_nil, not_and, not_not,
    Bool.not_eq_false] at hvalues
  refine ⟨nodup_of_duplicates hdup, fun op hop => ?_, fun op hop => (hops op hop).1.1.1.1,
    fun op hop => (hops op hop).1.1.1.2, fun op hop => ?_, fun value hv => (hvalues value hv).1.1.2,
    fun value hv => (hvalues value hv).1.2, fun v hv => ?_, ?_⟩
  · exact (hops op hop).2.1.1.1.1.1
  · exact (hops op hop).2.1.1.1.2
  · exact not_not.mp (problem_eq_nil.mp (houtputs v hv))
  · rcases ho : g.topologicalOrder with fault | order
    · rw [ho] at hcycle
      cases hcycle
    · exact ⟨order, rfl⟩

/-! ### Looking up operations -/

theorem op?_some {opId : String} {op : IROp} (h : g.op? opId = some op) :
    op ∈ g.ops ∧ op.opId = opId :=
  ⟨mem_of_find?_eq_some h, by simpa using List.find?_some h⟩

theorem op?_of_mem (hnodup : g.opIds.Nodup) {op : IROp} (hop : op ∈ g.ops) :
    g.op? op.opId = some op := by
  rcases hf : g.op? op.opId with - | op'
  · have := List.find?_eq_none.mp hf op hop
    simp at this
  · obtain ⟨hop', hid⟩ := op?_some hf
    rw [inj_on_of_nodup_map hnodup hop' hop hid]

theorem producerOf_some {v opId : String} (h : g.producerOf v = some opId) :
    ∃ op ∈ g.ops, op.opId = opId ∧ v ∈ op.results := by
  obtain ⟨op, hf, hid⟩ := Option.map_eq_some_iff.mp h
  exact ⟨op, mem_reverse.mp (mem_of_find?_eq_some hf), hid, by simpa using List.find?_some hf⟩

theorem producerOf_of_mem {v : String} {op : IROp} (hop : op ∈ g.ops) (hv : v ∈ op.results) :
    ∃ opId, g.producerOf v = some opId := by
  rcases hf : g.producerOf v with - | opId
  · have := List.find?_eq_none.mp (Option.map_eq_none_iff.mp hf) op (mem_reverse.mpr hop)
    simp [hv] at this
  · exact ⟨opId, rfl⟩

theorem upstream_mem {a b : String} (h : b ∈ g.upstream a) : b ∈ g.opIds := by
  rw [upstream] at h
  split at h
  · obtain ⟨v, -, hv⟩ := mem_filterMap.mp h
    obtain ⟨hp, -⟩ := Option.filter_eq_some_iff.mp hv
    obtain ⟨op, hop, hid, -⟩ := producerOf_some hp
    exact mem_map.mpr ⟨op, hop, hid⟩
  · cases h

theorem upstream_closed (g : IRGraph) : ∀ a ∈ g.opIds, ∀ b ∈ g.upstream a, b ∈ g.opIds :=
  fun _ _ _ hb => upstream_mem hb

/-- An order that is found is a permutation of the operations, each behind what it reads from. -/
theorem topologicalOrder_spec (hnodup : g.opIds.Nodup) {order : List String}
    (h : g.topologicalOrder = .ok order) :
    order.Perm g.opIds ∧ DepthFirst.Ordered g.upstream order :=
  ⟨DepthFirst.sort_perm hnodup g.upstream_closed h, DepthFirst.sort_ordered h⟩

/-- **What `topological_order` returns and raises**, with room on the stack for any number of visits.
An order lists every operation once, behind all that it reads from; the cycle that is named is one;
the stack overflows on a chain of different operations only, each of which reads from the next.  So
where every chain fits, it returns exactly if no operation reads from itself. -/
theorem topologicalOrder_exact (visits : Nat) :
    (∀ order, g.topologicalOrderWithin visits = .ok order →
      order.Nodup ∧ (∀ a, a ∈ order ↔ a ∈ g.opIds) ∧
        ∀ front a back, order = front ++ a :: back → ∀ b ∈ g.upstream a, b ∈ front) ∧
    (∀ a, g.topologicalOrderWithin visits = .error (.cycle a) →
      a ∈ g.opIds ∧ Relation.TransGen (fun a b => b ∈ g.upstream a) a a) ∧
    (g.topologicalOrderWithin visits = .error .overflow →
      ∃ chain, DepthFirst.Chain g.upstream g.opIds chain ∧ chain.length = visits + 1) ∧
    ((∀ chain, DepthFirst.Chain g.upstream g.opIds chain → chain.length ≤ visits) →
      ((∃ order, g.topologicalOrderWithin visits = .ok order) ↔
        ∀ a ∈ g.opIds, ¬Relation.TransGen (fun a b => b ∈ g.upstream a) a a)) := by
  have hdeps := g.upstream_closed
  refine ⟨fun order h => ?_, fun a => DepthFirst.sort_cycle hdeps,
    DepthFirst.sort_overflow hdeps, DepthFirst.sort_ok_iff hdeps⟩
  have hord := DepthFirst.sort_ordered h
  exact ⟨hord.nodup, fun a => DepthFirst.mem_sort hdeps h, fun front a back he =>
    (he ▸ hord).before⟩

/-- With room for all operations the stack does not overflow. -/
theorem topologicalOrder_ok_iff : (∃ order, g.topologicalOrder = .ok order) ↔
    ∀ a ∈ g.opIds, ¬Relation.TransGen (fun a b => b ∈ g.upstream a) a a :=
  DepthFirst.sort_ok_iff g.upstream_closed fun _ hchain =>
    hchain.length_le.trans (length_map _).le

/-! ### Where the values come from -/

variable (g)

def Produced (v : String) : Prop := v ∈ g.inputs ∨ ∃ op ∈ g.ops, v ∈ op.results

/-- No value is a result of two operations, or an input and a result. -/
def ProducedOnce : Prop :=
  (∀ op ∈ g.ops, ∀ op' ∈ g.ops, ∀ v ∈ op.results, v ∈ op'.results → op = op') ∧
    ∀ op ∈ g.ops, ∀ v ∈ op.results, v ∉ g.inputs

/-- Whatever an operation reads is an input or a result of an operation further in front. -/
def Available (order : List String) : Prop :=
  ∀ front opId back, order = front ++ opId :: back → ∀ op, g.op? opId = some op →
    ∀ v ∈ op.operands, v ∈ g.inputs ∨
      ∃ earlier ∈ front, ∃ op', g.op? earlier = some op' ∧ v ∈ op'.results

/-- The operations can be run one after the other, from the inputs to the outputs. -/
structure WellDefined : Prop where
  order : ∃ order, g.topologicalOrder = .ok order ∧ order.Perm g.opIds ∧ g.Available order
  once : g.ProducedOnce
  outputs : ∀ v ∈ g.outputs, g.Produced v

variable {g}

/-- In the order that is found, what is produced at all is there in time. -/
theorem available_of_produced (hc : g.Checked)
    (hproduced : ∀ op ∈ g.ops, ∀ v ∈ op.operands, g.Produced v) {order : List String}
    (h : g.topologicalOrder = .ok order) : g.Available order := by
  have hids : g.opIds.Nodup := (nodup_append.mp hc.nodup).1
  rintro front opId back rfl op hop v hv
  rcases hproduced op (op?_some hop).1 v hv with hin | ⟨op', hop', hv'⟩
  · exact .inl hin
  · -- the sort looks at the last operation that lists `v`
    obtain ⟨earlier, hearlier⟩ := producerOf_of_mem hop' hv'
    obtain ⟨op'', hop'', rfl, hv''⟩ := producerOf_some hearlier
    refine .inr ⟨op''.opId, ?_, op'', op?_of_mem hids hop'', hv''⟩
    apply (topologicalOrder_spec hids h).2.before
    rw [upstream, hop]
    refine mem_filterMap.mpr ⟨v, hv, ?_⟩
    rw [hearlier, Option.filter_some, if_pos (by simpa using hc.named op'' hop'')]

/-- **What the verdict leaves open.**  An accepted graph is well defined exactly when no value is
produced twice, and what is read or returned is an input or a result. -/
theorem accepted_wellDefined_iff :
    g.ok = true → (g.WellDefined ↔ g.ProducedOnce ∧
      (∀ op ∈ g.ops, ∀ v ∈ op.operands, g.Produced v) ∧ ∀ v ∈ g.outputs, g.Produced v) := by
  intro hok
  have hc := checked_of_ok hok
  have hids : g.opIds.Nodup := (nodup_append.mp hc.nodup).1
  constructor
  · rintro ⟨⟨order, horder, hperm, hav⟩, honce, houtputs⟩
    refine ⟨honce, fun op hop v hv => ?_, houtputs⟩
    have hmem : op.opId ∈ order := hperm.mem_iff.mpr (mem_map_of_mem hop)
    obtain ⟨front, back, hsplit⟩ := append_of_mem hmem
    rcases hav front op.opId back hsplit op (op?_of_mem hids hop) v hv with
      hin | ⟨earlier, -, op', hop', hv'⟩
    · exact .inl hin
    · exact .inr ⟨op', (op?_some hop').1, hv'⟩
  · rintro ⟨honce, hoperands, houtputs⟩
    obtain ⟨order, horder⟩ := hc.sorted
    exact ⟨⟨order, horder, (topologicalOrder_spec hids horder).1,
      available_of_produced hc hoperands horder⟩, honce, houtputs⟩

end IRGraph

/-! ### Small graphs -/

def pureEffects : EffectSet where
  reads := []
  writes := []
  aliases := []
  views := []
  rng := "none"
  state := []
  stream := "current"
  mutation := "none"
  evidence := "schema"
  stateReason := ""

def fixtureOp (opId semanticOp : String) (operands results : List String) (attrs : Attrs) : IROp where
  opId := opId
  semanticOp := semanticOp
  operands := operands
  results := results
  schemaVersion := SCHEMA_VERSION
  attrs := attrs
  effects := pureEffects
  source := ⟨[("module_path", .str "fixture")], by simp⟩
  targetLegal := .empty
  rejectReason := ""
  candidates := []
  fallback := ""
  patternId := ""

def fixtureValue (valueId producer : String) (dims : List String) : IRValue where
  valueId := valueId
  type := some ⟨"fp32", dims, [], [], "strided", "cuda", 0, none, false, ""⟩
  producer := producer
  users := []
  sourceLineage := []
  isInput := producer = ""
  isOutput := false

def fixtureGraph (ops : List IROp) (values : List IRValue) (inputs outputs : List String) :
    IRGraph where
  graphId := "fixture"
  level := IR_HQSB_CANONICAL
  ops := ops
  values := values
  inputs := inputs
  outputs := outputs
  constraints := [⟨"c_hidden", "H % 8 == 0", "variant", "kernel", none, none, none, "", true, "VERIFIED"⟩]
  schemaVersion := SCHEMA_VERSION
  sourceGraphId := ""
  targetId := ""
  candidates := []
  guards := []
  selection := .empty
  fallback := .empty
  notes := ""

/-- One operation, whose result is returned. -/
def squareGraph : IRGraph :=
  fixtureGraph [fixtureOp "o_mul" "aten.mul" ["ph_x", "ph_x"] ["v_y"] .empty]
    [fixtureValue "ph_x" "" ["H"], fixtureValue "v_y" "o_mul" ["H"]] ["ph_x"] ["v_y"]

/-- One operation, and a value that is returned and that only the table says it produces. -/
def lostGraph : IRGraph :=
  fixtureGraph [fixtureOp "o_mul" "aten.mul" ["ph_x", "ph_x"] ["v_y"] .empty]
    [fixtureValue "ph_x" "" ["H"], fixtureValue "v_y" "o_mul" ["H"],
      fixtureValue "v_lost" "o_mul" ["H"]] ["ph_x"] ["v_lost"]

/-- A graph that returns what it computes is well defined. -/
theorem squareGraph_wellDefined : squareGraph.WellDefined := by
  apply (IRGraph.accepted_wellDefined_iff (by decide)).mpr
  refine ⟨⟨?_, ?_⟩, ?_, ?_⟩ <;> simp [squareGraph, fixtureGraph, fixtureOp, IRGraph.Produced]

/-- **The verifier accepts a graph that returns a value nobody computes.** -/
theorem verifier_accepts_lost_output : lostGraph.ok = true ∧ ¬ lostGraph.WellDefined := by
  refine ⟨by decide, fun h => ?_⟩
  have := h.outputs "v_lost" (by simp [lostGraph, fixtureGraph])
  simp [IRGraph.Produced, lostGraph, fixtureGraph, fixtureOp] at this

end Hqsb.Compiler
