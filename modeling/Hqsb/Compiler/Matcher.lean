/-
Hqsb/Compiler/Matcher.lean

The structural matcher of the residual add and RMSNorm pattern (`find_candidates`), and the
decision about what it finds.

From every addition of two graph inputs the matcher follows the pattern's consumer links forward,
through casts, and resolves the operands it meets backward, through casts again.  What it reports is
a binding of roles to operations and of value roles to values, together with the role where a chain
broke.  It raises on a cast chain of eight or more; nothing else it does can fail
(`findCandidates_error`).

A site whose role chain is broken is rejected without a look at anything else.  For a complete one
every semantic predicate leaves a row, in their frozen order; the site matches when no row is a
rejection or unknown.  The effect predicate looks at the operation of the anchor only.
-/
import Hqsb.Compiler.Numbers
import Hqsb.Compiler.Verifier

namespace Hqsb.Compiler

open Lib

/-! ### The pattern -/

def PATTERN_RESIDUAL_RMSNORM : String := "hqsb.pattern.residual_add_rmsnorm"

def PATTERN_VERSION : String := "1.0.0"

inductive Role where
  | addResidual | pow | mean | epsAdd | rsqrt | scale | weightMul
  deriving DecidableEq

def Role.name : Role → String
  | .addResidual => "add_residual"
  | .pow => "pow"
  | .mean => "mean"
  | .epsAdd => "eps_add"
  | .rsqrt => "rsqrt"
  | .scale => "scale"
  | .weightMul => "weight_mul"

/-- The operations that may play a role. -/
def Role.names : Role → List String
  | .addResidual => ["aten.add", "aten.add_"]
  | .pow => ["aten.pow"]
  | .mean => ["aten.mean"]
  | .epsAdd => ["aten.add"]
  | .rsqrt => ["aten.rsqrt"]
  | .scale => ["aten.mul"]
  | .weightMul => ["aten.mul"]

inductive ValueRole where
  | x | residual | residualNew | exponent | sq | variance | epsConst | varEps | invStd | scaled
  | weight
  deriving DecidableEq

def ValueRole.name : ValueRole → String
  | .x => "x"
  | .residual => "residual"
  | .residualNew => "residual_new"
  | .exponent => "exponent"
  | .sq => "sq"
  | .variance => "variance"
  | .epsConst => "eps_const"
  | .varEps => "var_eps"
  | .invStd => "inv_std"
  | .scaled => "scaled"
  | .weight => "weight"

def Role.operandRoles : Role → List (ValueRole × Nat)
  | .addResidual => [(.x, 0), (.residual, 1)]
  | .pow => [(.residualNew, 0), (.exponent, 1)]
  | .mean => [(.sq, 0)]
  | .epsAdd => [(.variance, 0), (.epsConst, 1)]
  | .rsqrt => [(.varEps, 0)]
  | .scale => [(.residualNew, 0), (.invStd, 1)]
  | .weightMul => [(.scaled, 0), (.weight, 1)]

/-- The roles behind the anchor, each with the operand position at which it reads the result of the
role in front of it. -/
def FOLLOWING_ROLES : List (Role × Nat) :=
  [(.pow, 0), (.mean, 0), (.epsAdd, 0), (.rsqrt, 0), (.scale, 1), (.weightMul, 0)]

def INPUT_VALUE_ROLES : List ValueRole := [.x, .residual, .weight, .epsConst]

def DECOMPOSITION_CAST_OPS : List String := ["aten.to"]

/-- What a pass raises. -/
inductive RewriteError where
  | unknownOp (opId : String)
  | unknownValue (valueId : String)
  | castChainTooDeep
  | missingRole (role : Role)
  | missingBinding (role : ValueRole)
  | noResult (opId : String)
  | notANumber (error : FloatError)
  | lostOutput (valueId : String)
  deriving DecidableEq

/-- A site, with what is bound and the role where the chain broke. -/
structure StructuralCandidate where
  siteId : String
  roleOps : OrderedDict Role String
  valueBindings : OrderedDict ValueRole String
  castOps : List String
  matchedRoles : Nat
  missingRole : String
  complete : Bool

/-- A cast that may stand inside the pattern. -/
def IROp.isCast (op : IROp) : Bool :=
  op.semanticOp ∈ DECOMPOSITION_CAST_OPS && op.operands.length = 1

namespace IRGraph

variable (g : IRGraph)

def opOrRaise (opId : String) : Except RewriteError IROp :=
  match g.op? opId with
  | some op => .ok op
  | none => .error (.unknownOp opId)

def valueOrRaise (valueId : String) : Except RewriteError IRValue :=
  match g.value? valueId with
  | some value => .ok value
  | none => .error (.unknownValue valueId)

/-- The operations that read a value, with the operand positions. -/
def consumersOf (v : String) : List (IROp × Nat) :=
  g.ops.flatMap fun op =>
    (List.range op.operands.length).filterMap fun i =>
      if op.operands[i]? = some v then (g.op? op.opId).map (·, i) else none

/-- The loop of `_consumers_through_casts`.  Every value of the frontier is the first result of
another cast, so there are no more turns than operations, and one. -/
def walkCasts : Nat → List (String × List String) → List String → List (IROp × Nat × List String)
  | 0, _, _ => []
  | _, [], _ => []
  | fuel + 1, (current, chain) :: frontier, seen =>
    let visit := fun (acc : List (String × List String) × List String × List (IROp × Nat × List String))
        (consumer : IROp × Nat) =>
      let (frontier, seen, results) := acc
      let (op, position) := consumer
      match op.isCast, op.results with
      | true, result :: _ =>
        if result ∈ seen then acc
        else (frontier ++ [(result, chain ++ [op.opId])], result :: seen, results)
      | _, _ => (frontier, seen, results ++ [(op, position, chain)])
    let (frontier, seen, results) := (g.consumersOf current).foldl visit (frontier, seen, [])
    results ++ walkCasts fuel frontier seen

def consumersThroughCasts (v : String) : List (IROp × Nat × List String) :=
  g.walkCasts (g.ops.length + 1) [(v, [])] [v]

/-- The loop of `_resolve_through_casts`. -/
def resolveCasts : Nat → String → List String → Except RewriteError (String × List String)
  | 0, _, _ => .error .castChainTooDeep
  | turns + 1, current, casts =>
    match (g.producerOf current).filter (· ≠ "") with
    | none => .ok (current, casts)
    | some producer => do
      let op ← g.opOrRaise producer
      match op.isCast, op.operands with
      | true, operand :: _ => resolveCasts turns operand (casts ++ [op.opId])
      | _, _ => .ok (current, casts)

def resolveThroughCasts (v : String) : Except RewriteError (String × List String) :=
  g.resolveCasts 8 v []

end IRGraph

/-- What the matcher has bound on its way along the pattern. -/
structure Walk where
  roles : OrderedDict Role String
  values : OrderedDict ValueRole String
  casts : List String
  matched : Nat
  previous : String
  missing : String

namespace IRGraph

variable (g : IRGraph)

/-- Bind the operands of a role, up to the first that does not fit. -/
def bindOperands (role : Role) (op : IROp) :
    List (ValueRole × Nat) → Walk → Except RewriteError Walk
  | [], w => .ok w
  | (valueRole, index) :: rest, w =>
    match op.operands[index]? with
    | none => .ok { w with missing := role.name ++ ":" ++ valueRole.name }
    | some operand => do
      let (base, castOps) ← g.resolveThroughCasts operand
      let w := { w with casts := w.casts ++ castOps }
      if (w.values.get? valueRole).any (· ≠ base) then
        .ok { w with missing := role.name ++ ":" ++ valueRole.name ++ "_mismatch" }
      else bindOperands role op rest { w with values := w.values.set valueRole base }

/-- Go on to the next role, unless the chain is broken. -/
def follow (w : Walk) (next : Role × Nat) : Except RewriteError Walk :=
  let (role, position) := next
  if w.missing ≠ "" then .ok w
  else
    let found := (g.consumersThroughCasts w.previous).find? fun (op, i, _) =>
      op.semanticOp ∈ role.names && i = position
    match found with
    | none => .ok { w with missing := role.name }
    | some (op, _, chain) => do
      let w ← g.bindOperands role op role.operandRoles
        { w with
          roles := w.roles.set role op.opId
          matched := w.matched + 1
          casts := w.casts ++ chain }
      .ok { w with previous := op.results.headD "" }

/-- Where a walk begins: an addition, with its first two operands. -/
def startWalk (anchor : IROp) : Walk where
  roles := OrderedDict.empty.set .addResidual anchor.opId
  values := (OrderedDict.empty.set .x (anchor.operands.getD 0 "")).set .residual
    (anchor.operands.getD 1 "")
  casts := []
  matched := 1
  previous := anchor.results.headD ""
  missing :=
    if (anchor.operands.take 2).all (· ∈ g.inputs) then "" else Role.addResidual.name ++ ":inputs"

/-- The value roles that are bound to something else than an input. -/
def notInputs (values : OrderedDict ValueRole String) : List ValueRole :=
  INPUT_VALUE_ROLES.filter fun role => !(values.get? role).any (· ∈ g.inputs)

def candidateAt (anchor : IROp) : Except RewriteError StructuralCandidate := do
  let w ← FOLLOWING_ROLES.foldlM g.follow (g.startWalk anchor)
  let missing :=
    if w.missing = "" then
      ",".intercalate ((g.notInputs w.values).map fun role => role.name ++ ":not_input")
    else w.missing
  .ok
    { siteId := "site_" ++ anchor.opId
      roleOps := w.roles
      valueBindings := w.values
      castOps := w.casts.dedup.insertionSort (· ≤ ·)
      matchedRoles := w.matched
      missingRole := missing
      complete := missing = "" && w.matched = FOLLOWING_ROLES.length + 1 }

/-- An operation that a site can begin with. -/
def isAnchor (op : IROp) : Bool :=
  op.semanticOp ∈ Role.addResidual.names && 2 ≤ op.operands.length

def findCandidates : Except RewriteError (List StructuralCandidate) :=
  (g.ops.filter isAnchor).mapM g.candidateAt

end IRGraph

inductive Predicate where
  | structuralMatch | dtypeCast | shapeReduction | epsilon | usersLiveness | aliasMutationEffect
  | layout | returnContract

inductive Outcome where
  | pass | reject | unknown
  deriving DecidableEq

inductive RejectCode where
  | patternNearMiss | mutationUnsafe | aliasUnsafe

structure PredicateResult where
  name : Predicate
  outcome : Outcome
  rejectCode : Option RejectCode
  sourceNodes : List String

def passed (name : Predicate) (nodes : List String) : PredicateResult := ⟨name, .pass, none, nodes⟩

def rejected (name : Predicate) (code : RejectCode) (nodes : List String) : PredicateResult :=
  ⟨name, .reject, some code, nodes⟩

def notKnown (name : Predicate) (code : RejectCode) (nodes : List String) : PredicateResult :=
  ⟨name, .unknown, some code, nodes⟩

/-- The epsilons of the frozen contract. -/
def ALLOWED_EPS : List ℚ := [1 / 100000, 1 / 1000000, 1 / 10000]

namespace StructuralCandidate

variable (candidate : StructuralCandidate)

def roleOp (role : Role) : Except RewriteError String :=
  match candidate.roleOps.get? role with
  | some opId => .ok opId
  | none => .error (.missingRole role)

def binding (role : ValueRole) : Except RewriteError String :=
  match candidate.valueBindings.get? role with
  | some v => .ok v
  | none => .error (.missingBinding role)

/-- `graph.op(role_ops[role])` -/
def opOf (g : IRGraph) (role : Role) : Except RewriteError IROp := do
  let opId ← candidate.roleOp role
  g.opOrRaise opId

/-- The ids of the operations that a rewrite takes out. -/
def patternOpIds : List String := candidate.roleOps.values ++ candidate.castOps

end StructuralCandidate

/-- Is this a cast to the accumulation dtype?  Nothing but the text has the text `fp32`. -/
def IROp.castsToFp32 (op : IROp) : Bool :=
  match op.attrs.get? "dtype" with
  | some (.str dtype) => dtype = "fp32"
  | _ => false

def attrEquals (attrs : Attrs) (name : String) (x : ℚ) : Bool :=
  ((attrs.get? name).bind Payload.number?) = some x

namespace IRGraph

variable (g : IRGraph)

/-- The ids of the operations that read a value, one for each operand position. -/
def usersOf (v : String) : List String :=
  g.ops.flatMap fun op => (op.operands.filter (· = v)).map fun _ => op.opId

def hasHiddenRelation : Bool :=
  g.constraints.any fun item => mentions item.expression "H" || mentions item.expression "hidden"

/-! ### The predicates of a complete site -/

variable (candidate : StructuralCandidate)

def dtypeCast : Except RewriteError PredicateResult := do
  let casts ← candidate.castOps.mapM g.opOrRaise
  .ok (if casts.all IROp.castsToFp32 then passed .dtypeCast candidate.castOps
    else rejected .dtypeCast .patternNearMiss candidate.castOps)

def shapeReduction (meanOp powOp : IROp) (weight : IRValue) : PredicateResult :=
  let weightRank := (weight.type.map fun type => type.dims.length).getD 0
  let dimOk := attrEquals meanOp.attrs "dim" (-1) ||
    attrEquals meanOp.attrs "dim" (if weightRank = 0 then 0 else -1)
  let keepdim := match meanOp.attrs.get? "keepdim" with
    | some (.bool true) => true
    | _ => false
  if meanOp.semanticOp = "aten.mean" ∧ dimOk = true ∧ keepdim = true ∧
      attrEquals powOp.attrs "exponent" 2 = true ∧ weightRank = 1 then
    if g.hasHiddenRelation then passed .shapeReduction [meanOp.opId]
    else notKnown .shapeReduction .patternNearMiss [meanOp.opId]
  else rejected .shapeReduction .patternNearMiss [meanOp.opId, powOp.opId]

def epsilon (epsOp : IROp) : Except RewriteError PredicateResult :=
  if epsOp.operands = [] ∨ epsOp.operands.head? ≠ candidate.valueBindings.get? .variance then
    .ok (rejected .epsilon .patternNearMiss [epsOp.opId])
  else
    match (epsOp.attrs.get? "value").getD .null with
    | .null => .ok (notKnown .epsilon .patternNearMiss [epsOp.opId])
    | value =>
      match value.toDouble with
      | .error e => .error (.notANumber e)
      | .ok word =>
        .ok (if word.isSome && word ∈ ALLOWED_EPS.map double then passed .epsilon [epsOp.opId]
          else rejected .epsilon .patternNearMiss [epsOp.opId])

def externalUsers (residual : String) : List String :=
  (g.usersOf residual).filter (· ∉ candidate.patternOpIds)

def usersLiveness (residual : String) : PredicateResult :=
  let users := g.externalUsers candidate residual
  if users ≠ [] ∧ residual ∉ g.outputs then rejected .usersLiveness .patternNearMiss users
  else passed .usersLiveness users

def aliasMutationEffect (addOp : IROp) : PredicateResult :=
  if addOp.effects.mutation = "inplace" ∨ "ph_r" ∈ addOp.effects.writes then
    rejected .aliasMutationEffect .mutationUnsafe [addOp.opId]
  else if addOp.effects.riskState = "UNKNOWN_UNSAFE" then
    rejected .aliasMutationEffect .aliasUnsafe [addOp.opId]
  else passed .aliasMutationEffect [addOp.opId]

def layout (addOp scaleOp : IROp) : PredicateResult :=
  if ((addOp.attrs.get? "layout_changes_alias").getD (.bool false)).truthy then
    rejected .layout .aliasUnsafe [scaleOp.opId]
  else passed .layout [scaleOp.opId]

def returnContract (residual : String) (weightMulOp : IROp) : PredicateResult :=
  if residual ∉ g.outputs ∧ g.externalUsers candidate residual ≠ [] then
    rejected .returnContract .patternNearMiss [weightMulOp.opId]
  else passed .returnContract [weightMulOp.opId]

def evaluatePredicates : Except RewriteError (List PredicateResult) :=
  if candidate.complete = false then
    .ok [rejected .structuralMatch .patternNearMiss candidate.roleOps.values]
  else do
    let ops ← candidate.roleOps.values.mapM g.opOrRaise
    let addOp ← candidate.opOf g .addResidual
    let meanOp ← candidate.opOf g .mean
    let epsOp ← candidate.opOf g .epsAdd
    let powOp ← candidate.opOf g .pow
    let scaleOp ← candidate.opOf g .scale
    let casts ← g.dtypeCast candidate
    let weightId ← candidate.binding .weight
    let weight ← g.valueOrRaise weightId
    let eps ← epsilon candidate epsOp
    let residual ← candidate.binding .residualNew
    let weightMulOp ← candidate.opOf g .weightMul
    .ok [passed .structuralMatch (ops.map IROp.opId), casts, g.shapeReduction meanOp powOp weight,
      eps, g.usersLiveness candidate residual, aliasMutationEffect addOp, layout addOp scaleOp,
      g.returnContract candidate residual weightMulOp]

end IRGraph

/-! ### Decisions -/

inductive DecisionStatus where
  | match | reject | noChange
  deriving DecidableEq

structure Decision where
  siteId : String
  structuralMatch : Bool
  predicates : List PredicateResult
  status : DecisionStatus
  rejectCode : Option RejectCode
  rewriteCount : Nat
  sourceNodes : List String

def firstFailure (predicates : List PredicateResult) : Option PredicateResult :=
  predicates.find? fun row => row.outcome ≠ .pass

namespace IRGraph

variable (g : IRGraph)

/-- `decide` -/
def decideSite (candidate : StructuralCandidate) : Except RewriteError Decision := do
  let predicates ← g.evaluatePredicates candidate
  let sourceNodes := candidate.roleOps.values
  let _ ← sourceNodes.mapM g.opOrRaise
  let failure := firstFailure predicates
  .ok
    { siteId := candidate.siteId
      structuralMatch := candidate.complete
      predicates := predicates
      status := if failure.isSome then .reject else .match
      rejectCode := failure.bind PredicateResult.rejectCode
      rewriteCount := 0
      sourceNodes := sourceNodes }

/-- Is this what a rewrite leaves behind? -/
def isFused (op : IROp) : Bool :=
  op.semanticOp = "hqsb::fused_add_rms_norm" && op.patternId = PATTERN_RESIDUAL_RMSNORM

def decideAlreadyFused : Option Decision :=
  (g.ops.find? isFused).map fun op =>
    { siteId := "site_" ++ op.opId
      structuralMatch := true
      predicates := [passed .structuralMatch []]
      status := .noChange
      rejectCode := none
      rewriteCount := 0
      sourceNodes := [op.opId] }

end IRGraph

end Hqsb.Compiler
