/-
Hqsb/Compiler/Ir.lean

The compiler's graphs: operations that read values and produce values, the table of the values,
and what is recorded beside them.

Nothing in a graph ties the three ways in which it says where a value comes from: the operations
list their results, the table names a producer for each value, and the graph names its inputs.  What
follows when they agree is `Compiler.Verifier`'s subject.

`topologicalOrderWithin` goes by the results: it is the depth-first sort of `Lib.DepthFirst`, where
an operation depends on the one that produces an operand.  The visits of the source are calls inside
one another and the innermost calls `op` as well, so the overflow of the sort is the source's
`RecursionError`.
-/
import Hqsb.Compiler.Identity
import Hqsb.Lib.DepthFirst
import Hqsb.Lib.OrderedDict

namespace Hqsb.Compiler

open Lib

def SCHEMA_VERSION : String := "1.0.0"

def IR_HQSB_CANONICAL : String := "HQSB_CANONICAL"

def IR_HQSB_TARGETED : String := "HQSB_TARGETED"

def IR_LEVELS : List String :=
  ["SOURCE", "DYNAMO_FX", "EXPORT_ATEN", IR_HQSB_CANONICAL, IR_HQSB_TARGETED, "INDUCTOR_LOOP",
    "TIR", "MLIR", "TTIR", "TTGIR", "BACKEND_NATIVE", "LLVM_IR", "PTX", "CUBIN_SASS", "NPU_BINARY"]

/-! ### What a graph is made of -/

/-- A dimension of a tensor. -/
structure SymbolicDim where
  name : String
  expression : String
  lower : Option Int
  upper : Option Int
  divisibility : Option Int
  relation : String
  origin : String
  semanticRequired : Bool
  verifierStatus : String

/-- A constraint on the symbols. -/
structure ShapeConstraint where
  constraintId : String
  expression : String
  category : String
  origin : String
  lower : Option Int
  upper : Option Int
  divisibility : Option Int
  relation : String
  semanticRequired : Bool
  verifierStatus : String

structure TensorType where
  dtype : String
  dims : List String
  symbolic : List SymbolicDim
  stride : List (Option Int)
  layout : String
  deviceKind : String
  deviceIndex : Int
  storageOffset : Option Int
  requiresGrad : Bool
  quantArtifactId : String

/-- What an operation does beside producing its results. -/
structure EffectSet where
  reads : List String
  writes : List String
  aliases : List String
  views : List String
  rng : String
  state : List String
  stream : String
  mutation : String
  evidence : String
  stateReason : String

structure IRValue where
  valueId : String
  type : Option TensorType
  producer : String
  users : List String
  sourceLineage : List String
  isInput : Bool
  isOutput : Bool

/-- Attributes and other mappings from names to data. -/
abbrev Attrs := OrderedDict String Payload

structure IROp where
  opId : String
  semanticOp : String
  operands : List String
  results : List String
  schemaVersion : String
  attrs : Attrs
  effects : EffectSet
  source : Attrs
  targetLegal : OrderedDict String Bool
  rejectReason : String
  candidates : List String
  fallback : String
  patternId : String

structure IRGraph where
  graphId : String
  level : String
  ops : List IROp
  values : List IRValue
  inputs : List String
  outputs : List String
  constraints : List ShapeConstraint
  schemaVersion : String
  sourceGraphId : String
  targetId : String
  candidates : List Attrs
  guards : List String
  selection : Attrs
  fallback : Attrs
  notes : String

/-! ### As data -/

namespace Payload

def ofOption (n : Option Int) : Payload := n.elim .null .int

def strings (l : List String) : Payload := .list (l.map .str)

def ofAttrs (attrs : Attrs) : Payload := .dict attrs.entries

end Payload

open Payload

def SymbolicDim.asDict (dim : SymbolicDim) : Payload :=
  .dict [("name", .str dim.name), ("expression", .str dim.expression),
    ("lower", ofOption dim.lower), ("upper", ofOption dim.upper),
    ("divisibility", ofOption dim.divisibility), ("relation", .str dim.relation),
    ("origin", .str dim.origin), ("semantic_required", .bool dim.semanticRequired),
    ("verifier_status", .str dim.verifierStatus)]

def ShapeConstraint.asDict (item : ShapeConstraint) : Payload :=
  .dict [("constraint_id", .str item.constraintId), ("expression", .str item.expression),
    ("category", .str item.category), ("origin", .str item.origin),
    ("lower", ofOption item.lower), ("upper", ofOption item.upper),
    ("divisibility", ofOption item.divisibility), ("relation", .str item.relation),
    ("semantic_required", .bool item.semanticRequired),
    ("verifier_status", .str item.verifierStatus)]

def TensorType.asDict (type : TensorType) : Payload :=
  .dict [("dtype", .str type.dtype), ("dims", strings type.dims),
    ("symbolic", .list (type.symbolic.map SymbolicDim.asDict)),
    ("stride", .list (type.stride.map ofOption)), ("layout", .str type.layout),
    ("device_kind", .str type.deviceKind), ("device_index", .int type.deviceIndex),
    ("storage_offset", ofOption type.storageOffset), ("requires_grad", .bool type.requiresGrad),
    ("quant_artifact_id", .str type.quantArtifactId)]

namespace EffectSet

def riskState (effects : EffectSet) : String :=
  if effects.evidence = "unknown" ∨ effects.mutation = "unknown" then "UNKNOWN_UNSAFE"
  else if effects.mutation = "inplace" ∨ effects.writes ≠ [] then "PROVED_UNSAFE"
  else "PROVED_SAFE"

def asDict (effects : EffectSet) : Payload :=
  .dict [("reads", strings effects.reads), ("writes", strings effects.writes),
    ("aliases", strings effects.aliases), ("views", strings effects.views),
    ("rng", .str effects.rng), ("state", strings effects.state), ("stream", .str effects.stream),
    ("mutation", .str effects.mutation), ("evidence", .str effects.evidence),
    ("state_reason", .str effects.stateReason), ("risk_state", .str effects.riskState)]

/-- Safe means: evidence, no mutation flag but `none` or one that is unknown to the check, and no
writes. -/
theorem riskState_safe_iff {effects : EffectSet} : effects.riskState = "PROVED_SAFE" ↔
      effects.evidence ≠ "unknown" ∧ effects.mutation ≠ "unknown" ∧
        effects.mutation ≠ "inplace" ∧ effects.writes = [] := by
  rw [riskState]
  split_ifs with hunknown hunsafe
  · exact iff_of_false (by decide) fun h => hunknown.elim h.1 h.2.1
  · exact iff_of_false (by decide) fun h => hunsafe.elim h.2.2.1 fun hw => hw h.2.2.2
  · rw [not_or] at hunknown hunsafe
    exact iff_of_true rfl ⟨hunknown.1, hunknown.2, hunsafe.1, not_not.mp hunsafe.2⟩

end EffectSet

def IRValue.asDict (value : IRValue) : Payload :=
  .dict [("value_id", .str value.valueId), ("type", value.type.elim .null TensorType.asDict),
    ("producer", .str value.producer), ("users", strings value.users),
    ("source_lineage", strings value.sourceLineage), ("is_input", .bool value.isInput),
    ("is_output", .bool value.isOutput)]

def IROp.asDict (op : IROp) : Payload :=
  .dict [("op_id", .str op.opId), ("semantic_op", .str op.semanticOp),
    ("operands", strings op.operands), ("results", strings op.results),
    ("schema_version", .str op.schemaVersion), ("attrs", ofAttrs op.attrs),
    ("effects", op.effects.asDict), ("source", ofAttrs op.source),
    ("target_legal", .dict (op.targetLegal.entries.map fun entry => (entry.1, .bool entry.2))),
    ("reject_reason", .str op.rejectReason), ("candidates", strings op.candidates),
    ("fallback", .str op.fallback), ("pattern_id", .str op.patternId)]

namespace IRGraph

variable (g : IRGraph)

def asDict : Payload :=
  .dict [("graph_id", .str g.graphId), ("level", .str g.level),
    ("schema_version", .str g.schemaVersion), ("source_graph_id", .str g.sourceGraphId),
    ("target_id", .str g.targetId), ("inputs", strings g.inputs), ("outputs", strings g.outputs),
    ("ops", .list (g.ops.map IROp.asDict)), ("values", .list (g.values.map IRValue.asDict)),
    ("constraints", .list (g.constraints.map ShapeConstraint.asDict)),
    ("candidates", .list (g.candidates.map ofAttrs)), ("guards", strings g.guards),
    ("selection", ofAttrs g.selection), ("fallback", ofAttrs g.fallback), ("notes", .str g.notes)]

/-- Everything but the notes. -/
def canonicalPayload : Payload :=
  match g.asDict with
  | .dict members => .dict (members.filter fun m => m.1 ≠ "notes")
  | p => p

def canonicalHash {D : Type*} (alphabet : Alphabet) (sha256 : List Char → D) (g : IRGraph) :
    D × List String :=
  contentHash alphabet NOISE_KEYS sha256 g.canonicalPayload

/-! ### Structure -/

def op? (opId : String) : Option IROp := g.ops.find? fun op => op.opId = opId

def value? (valueId : String) : Option IRValue :=
  g.values.find? fun value => value.valueId = valueId

def opIds : List String := g.ops.map IROp.opId

def valueIds : List String := g.values.map IRValue.valueId

/-- The operation that lists a value as a result: the last one. -/
def producerOf (valueId : String) : Option String :=
  (g.ops.reverse.find? fun op => valueId ∈ op.results).map IROp.opId

/-- The operations that an operation reads from.  An empty id counts as none. -/
def upstream (opId : String) : List String :=
  match g.op? opId with
  | some op => op.operands.filterMap fun operand => (g.producerOf operand).filter (· ≠ "")
  | none => []

/-- `topological_order`, where the stack has room for so many visits inside one another: the ids of
the operations, each behind those it reads from. -/
def topologicalOrderWithin (visits : Nat) : Except (DepthFirst.Fault String) (List String) :=
  DepthFirst.sort g.upstream visits g.opIds

/-- With room for all operations. -/
def topologicalOrder : Except (DepthFirst.Fault String) (List String) :=
  g.topologicalOrderWithin g.ops.length

end IRGraph

end Hqsb.Compiler
