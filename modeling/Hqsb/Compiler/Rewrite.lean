/-
Hqsb/Compiler/Rewrite.lean

The atomic rewrite of one site, the pass over all sites, and the pipeline that runs passes until
nothing changes.

A rewrite builds a new graph and hands it out only when the verifier accepts it; otherwise the old
graph comes back.  The pass scans again after every commit, and leaves a graph alone that already
has a fused operation.

`Commit g candidate g'` is a rewrite that went through: the site is `Legal`, which collects what the
predicates of a match say about its operations, and the verifier accepts the result.  A pass is a
sequence of commits on the sites that the matcher finds (`passLoop_run`), and everything later on
is an induction over `PassRun`.
-/
import Hqsb.Compiler.MatcherSites

namespace Hqsb.Compiler

open Lib List

/-! ### The rewrite of a site -/

/-- Where a failure can be injected. -/
inductive InjectionPoint where
  | matcher | replacement | verifier | commit
  deriving DecidableEq

/-- Why a rewrite was not committed. -/
inductive RewriteFailure where
  | injected (point : InjectionPoint)
  | rejectedNotLegal (predicate : Option Predicate)
  | verifier (issues : List VerifierIssue)

structure RewriteOutcome where
  graph : IRGraph
  decision : Decision
  committed : Bool
  failure : Option RewriteFailure

def epsAttr (value : Payload) : Payload :=
  match value.toDouble with
  | .ok word =>
    if word = double (1 / 100000) then .float ⟨"1e-05".toList, by decide⟩
    else if word = double (1 / 1000000) then .float ⟨"1e-06".toList, by decide⟩
    else .float ⟨"0.0001".toList, by decide⟩
  | .error _ => .float ⟨"0.0".toList, by decide⟩

namespace IRGraph

variable (g : IRGraph)

/-- What a rewrite reads off its site. -/
structure Site where
  addOp : IROp
  epsOp : IROp
  x : String
  residual : String
  weight : String
  eps : String
  output : String
  residualNew : String

variable (candidate : StructuralCandidate)

def site : Except RewriteError Site := do
  let residualNew ← candidate.binding .residualNew
  let weightMulOp ← candidate.opOf g .weightMul
  let output ← match weightMulOp.results with
    | output :: _ => .ok output
    | [] => .error (.noResult weightMulOp.opId)
  let x ← candidate.binding .x
  let residual ← candidate.binding .residual
  let weight ← candidate.binding .weight
  let eps ← candidate.binding .epsConst
  let addOp ← candidate.opOf g .addResidual
  let epsOp ← candidate.opOf g .epsAdd
  .ok ⟨addOp, epsOp, x, residual, weight, eps, output, residualNew⟩

/-- The operations that a rewrite takes out, and those that it keeps. -/
def removedOps : List IROp :=
  g.ops.filter (·.opId ∈ candidate.patternOpIds)

def keptOps : List IROp :=
  g.ops.filter (·.opId ∉ candidate.patternOpIds)

def fusedOp (site : Site) : IROp where
  opId := "fused_" ++ site.addOp.opId
  semanticOp := "hqsb::fused_add_rms_norm"
  operands := [site.x, site.residual, site.weight, site.eps]
  results := [site.output, site.residualNew]
  schemaVersion := "1.0.0"
  attrs := ⟨[("eps", epsAttr ((site.epsOp.attrs.get? "value").getD .null)),
    ("accumulate_dtype", .str "fp32"), ("multi_output", .bool true)], by simp⟩
  effects := pureEffects
  source := ((site.addOp.source.set "pattern_id" (.str PATTERN_RESIDUAL_RMSNORM)).set
    "pattern_version" (.str PATTERN_VERSION)).set "replaced_ops"
      (Payload.strings (candidate.patternOpIds.dedup.insertionSort (· ≤ ·)))
  targetLegal := .empty
  rejectReason := ""
  candidates := []
  fallback := "graph:" ++ g.graphId
  patternId := PATTERN_RESIDUAL_RMSNORM

/-- The table without the values that nothing produces any more. -/
def rebuiltValues (site : Site) (fusedId : String) : List IRValue :=
  g.values.filterMap fun value =>
    if value.valueId ∈ [site.output, site.residualNew] then
      some { value with producer := fusedId }
    else if value.producer ∈ candidate.patternOpIds then none
    else some value

/-- The graph with the fused operation behind everything that is kept. -/
def rebuilt (site : Site) : IRGraph where
  graphId := g.graphId
  level := g.level
  ops := g.keptOps candidate ++ [g.fusedOp candidate site]
  values := g.rebuiltValues candidate site (g.fusedOp candidate site).opId
  inputs := g.inputs
  outputs := g.outputs
  constraints := g.constraints
  schemaVersion := g.schemaVersion
  sourceGraphId := g.sourceGraphId
  targetId := g.targetId
  candidates := []
  guards := g.guards
  selection := .empty
  fallback := ⟨[("graph_id", .str g.graphId),
    ("reason", .str "original decomposed subgraph retained for rollback/fallback"),
    ("removed_ops", .list ((g.removedOps candidate).map IROp.asDict))], by simp⟩
  notes := ""

def failedRewrite (decision : Decision) (failure : RewriteFailure) : RewriteOutcome :=
  ⟨g, decision, false, some failure⟩

def applyRewrite (injectAt : Option InjectionPoint) : Except RewriteError RewriteOutcome := do
  let decision ← g.decideSite candidate
  if injectAt = some .matcher then .ok (g.failedRewrite decision (.injected .matcher))
  else if decision.status ≠ .match then
    .ok (g.failedRewrite decision
      (.rejectedNotLegal ((firstFailure decision.predicates).map PredicateResult.name)))
  else if injectAt = some .replacement then
    .ok (g.failedRewrite decision (.injected .replacement))
  else do
    let site ← g.site candidate
    let rebuilt := g.rebuilt candidate site
    if rebuilt.values.all (·.valueId ≠ site.output) then .error (.lostOutput site.output)
    else if injectAt = some .verifier then .ok (g.failedRewrite decision (.injected .verifier))
    else if rebuilt.ok = false then .ok (g.failedRewrite decision (.verifier rebuilt.issues))
    else if injectAt = some .commit then .ok (g.failedRewrite decision (.injected .commit))
    else .ok ⟨rebuilt, { decision with rewriteCount := 1 }, true, none⟩

end IRGraph

/-! ### The pass -/

def MAX_SITES_PER_PASS : Nat := 64

structure PassOutcome where
  graph : IRGraph
  decisions : List Decision
  rewriteCount : Nat
  rejectCount : Nat
  noChangeCount : Nat

/-- What a pass has done so far. -/
structure PassState where
  current : IRGraph
  decisions : List Decision
  rewriteCount : Nat
  rejectCount : Nat
  seenIncomplete : List String

def PassState.outcome (s : PassState) : PassOutcome :=
  ⟨s.current, s.decisions, s.rewriteCount, s.rejectCount, 0⟩

def recordIncomplete (s : PassState) (candidate : StructuralCandidate) :
    Except RewriteError PassState :=
  if candidate.complete = true ∨ candidate.siteId ∈ s.seenIncomplete then .ok s
  else do
    let decision ← s.current.decideSite candidate
    .ok { s with
      decisions := s.decisions ++ [decision]
      rejectCount := s.rejectCount + 1
      seenIncomplete := candidate.siteId :: s.seenIncomplete }

def passLoop : Nat → PassState → Except RewriteError PassOutcome
  | 0, s => .ok s.outcome
  | turns + 1, s => do
    let candidates ← s.current.findCandidates
    let complete := (candidates.filter (·.complete)).insertionSort fun a b => a.siteId ≤ b.siteId
    let s ← candidates.foldlM recordIncomplete s
    match complete with
    | [] => .ok s.outcome
    | candidate :: _ => do
      let outcome ← s.current.applyRewrite candidate none
      let s := { s with decisions := s.decisions ++ [outcome.decision] }
      if outcome.committed then
        passLoop turns { s with current := outcome.graph, rewriteCount := s.rewriteCount + 1 }
      else .ok { s with rejectCount := s.rejectCount + 1 }.outcome

def runFusedAddRmsnormPass (g : IRGraph) : Except RewriteError PassOutcome :=
  match g.decideAlreadyFused with
  | some already => .ok ⟨g, [already], 0, 0, 1⟩
  | none => passLoop MAX_SITES_PER_PASS ⟨g, [], 0, 0, []⟩

/-! ### The pipeline -/

def DEFAULT_PIPELINE : List (IRGraph → Except RewriteError PassOutcome) := [runFusedAddRmsnormPass]

structure PassIteration (D : Type) where
  inputHash : D
  candidateCount : Nat
  rewriteCount : Nat
  rejectCount : Nat
  noChangeCount : Nat
  outputHash : D
  verifierOk : Bool
  deadNodes : Nat

structure PipelineRun (D : Type) where
  iterations : List (PassIteration D)
  finalGraph : IRGraph
  converged : Bool
  oscillation : Bool
  metadataProliferation : Bool

/-- Values that are neither read nor returned. -/
def IRGraph.deadNodes (g : IRGraph) : Nat :=
  (g.values.filter fun value =>
    !value.isOutput && (g.usersOf value.valueId).isEmpty && !value.isInput).length

/-- What the passes of one iteration add up to. -/
structure Tally where
  current : IRGraph
  candidateCount : Nat
  rewriteCount : Nat
  rejectCount : Nat
  noChangeCount : Nat
  verifierOk : Bool

def runPass (t : Tally) (pass : IRGraph → Except RewriteError PassOutcome) :
    Except RewriteError Tally := do
  let candidates ← t.current.findCandidates
  let outcome ← pass t.current
  .ok
    { current := outcome.graph
      candidateCount := t.candidateCount + candidates.length
      rewriteCount := t.rewriteCount + outcome.rewriteCount
      rejectCount := t.rejectCount + outcome.rejectCount
      noChangeCount := t.noChangeCount + outcome.noChangeCount
      verifierOk := t.verifierOk && outcome.graph.ok }

section

variable {D : Type} [DecidableEq D] (alphabet : Alphabet) (sha256 : List Char → D)

/-- `graph.canonical_hash()[0]` -/
def hashOf (g : IRGraph) : D := (g.canonicalHash alphabet sha256).1

/-- The iterations of the pipeline, behind those in `done`. -/
def pipelineLoop (pipeline : List (IRGraph → Except RewriteError PassOutcome)) :
    Nat → List D → List (PassIteration D) → IRGraph →
      Except RewriteError (List (PassIteration D) × IRGraph × Bool × Bool)
  | 0, _, done, current => .ok (done, current, false, false)
  | iterations + 1, seen, done, current => do
    let before := hashOf alphabet sha256 current
    let t : Tally ← pipeline.foldlM runPass ⟨current, 0, 0, 0, 0, true⟩
    let after := hashOf alphabet sha256 t.current
    let done := done ++ [⟨before, t.candidateCount, t.rewriteCount, t.rejectCount, t.noChangeCount,
      after, t.verifierOk, t.current.deadNodes⟩]
    if before = after ∧ t.rewriteCount = 0 then .ok (done, t.current, true, false)
    else if after ∈ seen then .ok (done, t.current, false, true)
    else pipelineLoop pipeline iterations (after :: seen) done t.current

/-- `run_pipeline`, for a positive number of iterations. -/
def runPipeline (pipeline : List (IRGraph → Except RewriteError PassOutcome)) (maxIterations : Nat)
    (g : IRGraph) : Except RewriteError (PipelineRun D) := do
  let (iterations, final, converged, oscillation) ←
    pipelineLoop alphabet sha256 pipeline maxIterations [] [] g
  .ok
    { iterations := iterations
      finalGraph := final
      converged := converged
      oscillation := oscillation
      metadataProliferation :=
        (iterations.map PassIteration.rewriteCount).sum = 0 ∧
          hashOf alphabet sha256 g ≠ hashOf alphabet sha256 final }

end

/-! ### Matches -/

/-- What the predicates of a match have shown about its site. -/
structure Legal (g : IRGraph) (candidate : StructuralCandidate) : Prop where
  complete : candidate.complete = true
  add : ∃ op, candidate.opOf g .addResidual = .ok op ∧ op.effects.mutation ≠ "inplace" ∧
    op.effects.riskState ≠ "UNKNOWN_UNSAFE"
  pow : ∃ op, candidate.opOf g .pow = .ok op ∧ attrEquals op.attrs "exponent" 2 = true
  mean : ∃ op, candidate.opOf g .mean = .ok op ∧ attrEquals op.attrs "dim" (-1) = true ∧
    op.attrs.get? "keepdim" = some (.bool true)
  eps : ∃ op, candidate.opOf g .epsAdd = .ok op ∧
    op.operands.head? = candidate.valueBindings.get? .variance

namespace IRGraph

variable {g : IRGraph} {candidate : StructuralCandidate}

theorem firstFailure_isNone {rows : List PredicateResult} :
    (firstFailure rows).isSome = false ↔ ∀ row ∈ rows, row.outcome = .pass := by
  simp [firstFailure, List.find?_eq_none]

theorem keepdim_true {keepdim : Option Payload} (h : (match keepdim with
      | some (.bool true) => true
      | _ => false) = true) : keepdim = some (.bool true) := by
  split at h
  · rfl
  · cases h

theorem shapeReduction_pass {meanOp powOp : IROp} {weight : IRValue}
    (h : (g.shapeReduction meanOp powOp weight).outcome = .pass) :
    attrEquals meanOp.attrs "dim" (-1) = true ∧ meanOp.attrs.get? "keepdim" = some (.bool true) ∧
      attrEquals powOp.attrs "exponent" 2 = true := by
  rw [shapeReduction] at h
  generalize (weight.type.map fun type => type.dims.length).getD 0 = rank at h
  by_cases hrank : rank = 1
  · subst hrank
    rw [if_neg (show ¬ (1 : Nat) = 0 by omega), Bool.or_self] at h
    split_ifs at h with hok
    · exact ⟨hok.2.1, keepdim_true hok.2.2.1, hok.2.2.2.1⟩
    · cases h
    · cases h
  · rw [if_neg fun hok => hrank hok.2.2.2.2] at h
    cases h

theorem aliasMutationEffect_pass {addOp : IROp} (h : (aliasMutationEffect addOp).outcome = .pass) :
    addOp.effects.mutation ≠ "inplace" ∧ addOp.effects.riskState ≠ "UNKNOWN_UNSAFE" := by
  rw [aliasMutationEffect] at h
  split_ifs at h with hinplace hunknown
  · cases h
  · cases h
  · exact ⟨fun hm => hinplace (.inl hm), hunknown⟩

theorem epsilon_pass {epsOp : IROp} {row : PredicateResult}
    (h : epsilon candidate epsOp = .ok row) (hpass : row.outcome = .pass) :
    epsOp.operands.head? = candidate.valueBindings.get? .variance := by
  rw [epsilon] at h
  split_ifs at h with hpos
  · cases h
    cases hpass
  · rw [not_or] at hpos
    exact not_not.mp hpos.2

/-- **A match is legal.** -/
theorem legal_of_match {decision : Decision} (h : g.decideSite candidate = .ok decision)
    (hmatch : decision.status = .match) : Legal g candidate := by
  obtain ⟨rows, hrows, h⟩ := bind_ok_iff.mp h
  obtain ⟨_, -, h⟩ := bind_ok_iff.mp h
  cases h
  have hpass : ∀ row ∈ rows, row.outcome = .pass := by
    apply firstFailure_isNone.mp
    by_contra hfail
    simp [hfail] at hmatch
  rw [evaluatePredicates] at hrows
  split_ifs at hrows with hcomplete
  · cases hrows
    exact nomatch hpass _ mem_cons_self
  · obtain ⟨ops, -, hrows⟩ := bind_ok_iff.mp hrows
    obtain ⟨addOp, hadd, hrows⟩ := bind_ok_iff.mp hrows
    obtain ⟨meanOp, hmean, hrows⟩ := bind_ok_iff.mp hrows
    obtain ⟨epsOp, heps, hrows⟩ := bind_ok_iff.mp hrows
    obtain ⟨powOp, hpow, hrows⟩ := bind_ok_iff.mp hrows
    obtain ⟨scaleOp, -, hrows⟩ := bind_ok_iff.mp hrows
    obtain ⟨casts, -, hrows⟩ := bind_ok_iff.mp hrows
    obtain ⟨weightId, -, hrows⟩ := bind_ok_iff.mp hrows
    obtain ⟨weight, -, hrows⟩ := bind_ok_iff.mp hrows
    obtain ⟨eps, hepsRow, hrows⟩ := bind_ok_iff.mp hrows
    obtain ⟨residual, -, hrows⟩ := bind_ok_iff.mp hrows
    obtain ⟨weightMulOp, -, hrows⟩ := bind_ok_iff.mp hrows
    cases hrows
    simp only [forall_mem_cons] at hpass
    obtain ⟨-, -, hshape, hepsPass, -, halias, -⟩ := hpass
    obtain ⟨hdim, hkeep, hexp⟩ := shapeReduction_pass hshape
    obtain ⟨hinplace, hunknown⟩ := aliasMutationEffect_pass halias
    exact ⟨by simpa using hcomplete, ⟨addOp, hadd, hinplace, hunknown⟩, ⟨powOp, hpow, hexp⟩,
      ⟨meanOp, hmean, hdim, hkeep⟩, ⟨epsOp, heps, epsilon_pass hepsRow hepsPass⟩⟩

end IRGraph

/-! ### Commits -/

/-- A rewrite that goes through. -/
structure Commit (g : IRGraph) (candidate : StructuralCandidate) (g' : IRGraph) : Prop where
  legal : Legal g candidate
  rebuilt : ∃ site, g.site candidate = .ok site ∧ g' = g.rebuilt candidate site ∧
    ∃ value ∈ g'.values, value.valueId = site.output
  ok : g'.ok = true

namespace IRGraph

variable {g : IRGraph} {candidate : StructuralCandidate}

/-- **A rewrite is atomic**: it goes through, or the graph is the old one. -/
theorem applyRewrite_cases {injectAt : Option InjectionPoint} {outcome : RewriteOutcome}
    (h : g.applyRewrite candidate injectAt = .ok outcome) :
    (outcome.committed = true ∧ Commit g candidate outcome.graph) ∨
      outcome.committed = false ∧ outcome.graph = g := by
  obtain ⟨decision, hdecision, h⟩ := bind_ok_iff.mp h
  by_cases hmatcher : injectAt = some .matcher
  · rw [if_pos hmatcher] at h
    cases h
    exact .inr ⟨rfl, rfl⟩
  rw [if_neg hmatcher] at h
  by_cases hstatus : decision.status = .match
  swap
  · rw [if_pos hstatus] at h
    cases h
    exact .inr ⟨rfl, rfl⟩
  rw [if_neg (not_not.mpr hstatus)] at h
  by_cases hreplacement : injectAt = some .replacement
  · rw [if_pos hreplacement] at h
    cases h
    exact .inr ⟨rfl, rfl⟩
  rw [if_neg hreplacement] at h
  obtain ⟨site, hsite, h⟩ := bind_ok_iff.mp h
  by_cases hlost : (g.rebuilt candidate site).values.all (·.valueId ≠ site.output) = true
  · rw [if_pos hlost] at h
    cases h
  rw [if_neg hlost] at h
  split_ifs at h with _ hrefused
  · cases h
    exact .inr ⟨rfl, rfl⟩
  · cases h
    exact .inr ⟨rfl, rfl⟩
  · cases h
    exact .inr ⟨rfl, rfl⟩
  · cases h
    refine .inl ⟨rfl, legal_of_match hdecision hstatus, ⟨site, hsite, rfl, ?_⟩, ?_⟩
    · simpa using hlost
    · simpa using hrefused

/-- The operations of a graph behind a commit: those that were kept, and the fused one. -/
theorem Commit_ops {g' : IRGraph} (h : Commit g candidate g') :
    ∃ site, g.site candidate = .ok site ∧
      g'.ops = g.keptOps candidate ++ [g.fusedOp candidate site] := by
  obtain ⟨site, hsite, rfl, -⟩ := h.rebuilt
  exact ⟨site, hsite, rfl⟩

end IRGraph

/-! ### Passes -/

/-- A sequence of commits on sites that the matcher finds complete, with the graphs they start
from. -/
inductive PassRun : IRGraph → List (IRGraph × StructuralCandidate) → IRGraph → Prop where
  | nil (g : IRGraph) : PassRun g [] g
  | cons {g g' g'' : IRGraph} {candidate : StructuralCandidate}
      {candidates : List StructuralCandidate} {steps : List (IRGraph × StructuralCandidate)} :
      g.findCandidates = .ok candidates → candidate ∈ candidates → Commit g candidate g' →
      PassRun g' steps g'' → PassRun g ((g, candidate) :: steps) g''

theorem recordIncomplete_keeps {s s' : PassState} {candidates : List StructuralCandidate}
    (h : candidates.foldlM recordIncomplete s = .ok s') :
    s'.current = s.current ∧ s'.rewriteCount = s.rewriteCount := by
  induction candidates generalizing s with
  | nil =>
    cases h
    exact ⟨rfl, rfl⟩
  | cons candidate candidates ih =>
    obtain ⟨s₁, hs₁, h⟩ := bind_ok_iff.mp h
    have hone : s₁.current = s.current ∧ s₁.rewriteCount = s.rewriteCount := by
      rw [recordIncomplete] at hs₁
      split_ifs at hs₁ with hseen
      · cases hs₁
        exact ⟨rfl, rfl⟩
      · obtain ⟨decision, -, hs₁⟩ := bind_ok_iff.mp hs₁
        cases hs₁
        exact ⟨rfl, rfl⟩
    exact ⟨(ih h).1.trans hone.1, (ih h).2.trans hone.2⟩

/-- **A pass is a sequence of commits**, and it counts them. -/
theorem passLoop_run {turns : Nat} {s : PassState} {outcome : PassOutcome}
    (h : passLoop turns s = .ok outcome) :
    ∃ steps, PassRun s.current steps outcome.graph ∧
      outcome.rewriteCount = s.rewriteCount + steps.length := by
  induction turns generalizing s with
  | zero =>
    cases h
    exact ⟨[], .nil _, rfl⟩
  | succ turns ih =>
    obtain ⟨candidates, hcandidates, h⟩ := bind_ok_iff.mp h
    obtain ⟨s₁, hs₁, h⟩ := bind_ok_iff.mp h
    obtain ⟨hcurrent, hcount⟩ := recordIncomplete_keeps hs₁
    split at h
    · cases h
      exact ⟨[], hcurrent ▸ .nil _, hcount⟩
    · rename_i candidate _ hcomplete
      have hmem : candidate ∈ candidates := by
        have : candidate ∈ (candidates.filter (·.complete)).insertionSort
            fun a b => a.siteId ≤ b.siteId := hcomplete ▸ .head _
        exact mem_of_mem_filter ((mem_insertionSort _).mp this)
      obtain ⟨applied, happlied, h⟩ := bind_ok_iff.mp h
      rcases IRGraph.applyRewrite_cases happlied with ⟨hcommitted, hcommit⟩ | ⟨hcommitted, -⟩
      · dsimp only at h
        rw [if_pos hcommitted] at h
        obtain ⟨steps, hrun, hlen⟩ := ih h
        refine ⟨(s.current, candidate) :: steps, .cons hcandidates hmem (hcurrent ▸ hcommit) hrun, ?_⟩
        rw [hlen, ← hcount]
        exact add_right_comm _ _ _
      · dsimp only at h
        rw [if_neg (by simp [hcommitted])] at h
        cases h
        exact ⟨[], hcurrent ▸ .nil _, hcount⟩

variable {g : IRGraph} {steps : List (IRGraph × StructuralCandidate)}

theorem runFusedAddRmsnormPass_run {outcome : PassOutcome}
    (h : runFusedAddRmsnormPass g = .ok outcome) :
    ∃ steps, PassRun g steps outcome.graph ∧ outcome.rewriteCount = steps.length := by
  rw [runFusedAddRmsnormPass] at h
  split at h
  · cases h
    exact ⟨[], .nil _, rfl⟩
  · obtain ⟨steps, hrun, hlen⟩ := passLoop_run h
    exact ⟨steps, hrun, by simpa using hlen⟩

theorem PassRun.ok {g' : IRGraph} (h : PassRun g steps g') (hok : g.ok = true) :
    g'.ok = true ∧ ∀ step ∈ steps, step.1.ok = true := by
  induction h with
  | nil => exact ⟨hok, nofun⟩
  | cons _ _ hcommit _ ih =>
    obtain ⟨hlast, hsteps⟩ := ih hcommit.ok
    refine ⟨hlast, fun step hstep => ?_⟩
    rcases mem_cons.mp hstep with rfl | hstep
    · exact hok
    · exact hsteps step hstep

theorem PassRun.single {g' : IRGraph} (h : PassRun g steps g') (hlen : steps.length = 1) :
    ∃ candidates, ∃ candidate ∈ candidates, g.findCandidates = .ok candidates ∧
      Commit g candidate g' ∧ steps = [(g, candidate)] := by
  cases h with
  | nil => cases hlen
  | cons hfind hmem hcommit hrest =>
    obtain rfl := length_eq_zero_iff.mp (Nat.succ.inj hlen)
    cases hrest
    exact ⟨_, _, hmem, hfind, hcommit, rfl⟩

/-! ### A small graph -/

def exponentAttrs : Attrs := ⟨[("exponent", .int 2)], by simp⟩

def meanAttrs : Attrs := ⟨[("dim", .int (-1)), ("keepdim", .bool true)], by simp⟩

def epsAttrs : Attrs := ⟨[("value", .float ⟨"1e-05".toList, by decide⟩)], by simp⟩

/-- A residual addition and its normalization, which returns both. -/
def normGraph (addAttrs : Attrs) (mulEffects : EffectSet) : IRGraph :=
  fixtureGraph
    [fixtureOp "o_add" "aten.add" ["ph_x", "ph_r"] ["v_r"] addAttrs,
      fixtureOp "o_pow" "aten.pow" ["v_r", "ph_two"] ["v_sq"] exponentAttrs,
      fixtureOp "o_mean" "aten.mean" ["v_sq"] ["v_var"] meanAttrs,
      fixtureOp "o_eps" "aten.add" ["v_var", "ph_eps"] ["v_eps"] epsAttrs,
      fixtureOp "o_rsqrt" "aten.rsqrt" ["v_eps"] ["v_inv"] .empty,
      fixtureOp "o_scale" "aten.mul" ["v_r", "v_inv"] ["v_scaled"] .empty,
      { fixtureOp "o_weight" "aten.mul" ["v_scaled", "ph_w"] ["v_y"] .empty with
        effects := mulEffects }]
    [fixtureValue "ph_x" "" ["B", "H"], fixtureValue "ph_r" "" ["B", "H"],
      fixtureValue "ph_w" "" ["H"], fixtureValue "ph_eps" "" [], fixtureValue "ph_two" "" [],
      fixtureValue "v_r" "o_add" ["B", "H"], fixtureValue "v_sq" "o_pow" ["B", "H"],
      fixtureValue "v_var" "o_mean" ["B", "1"], fixtureValue "v_eps" "o_eps" ["B", "1"],
      fixtureValue "v_inv" "o_rsqrt" ["B", "1"], fixtureValue "v_scaled" "o_scale" ["B", "H"],
      fixtureValue "v_y" "o_weight" ["B", "H"]]
    ["ph_x", "ph_r", "ph_w", "ph_eps", "ph_two"] ["v_y", "v_r"]

end Hqsb.Compiler
