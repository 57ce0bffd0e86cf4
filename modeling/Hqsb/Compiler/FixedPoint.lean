/-
Hqsb/Compiler/FixedPoint.lean

The pipeline comes to rest.

A pass that commits anything leaves a fused operation behind, and a pass leaves a graph alone that
has one.  So the second iteration is the last, if not the first already, and running the pipeline
again finds everything at rest.  On the way nothing fails but the matcher, on a chain of eight casts
or more: a commit keeps what this needs (`Ready.commit`), and makes no chain of casts deeper
(`DeepCasts.of_commit`).
-/
import Hqsb.Compiler.RewriteEffects

namespace Hqsb.Compiler

open Lib List Relation

/-- A chain of the pattern: each operation reads the first result of the one in front of it, behind
casts. -/
structure Pattern (g : IRGraph) (ops : Role → IROp) : Prop where
  mem : ∀ role, ops role ∈ g.ops ∧ (ops role).semanticOp ∈ role.names
  links : ∀ link ∈ ROLE_LINKS, ∃ v, (ops link.2.1).operands[link.2.2]? = some v ∧
    ReflTransGen g.CastOf v ((ops link.1).results.headD "")

/-- A rewrite could take the operation out. -/
def Removable (g : IRGraph) (op : IROp) : Prop :=
  op.isCast = true ∨ ∃ ops role, Pattern g ops ∧ op = ops role

/-- A graph on which no rewrite fails: its inputs are in the table, none of them as the product of
an operation that could be taken out, and the epsilons of the pattern are numbers. -/
structure Ready (g : IRGraph) : Prop where
  ok : g.ok = true
  declared : ∀ v ∈ g.inputs, v ∈ g.valueIds
  inputs : ∀ value ∈ g.values, value.valueId ∈ g.inputs → ∀ op ∈ g.ops, op.opId = value.producer →
    ¬ Removable g op
  eps : ∀ ops, Pattern g ops → ∀ p, (ops .epsAdd).attrs.get? "value" = some p → p ≠ .null →
    ∃ word, p.toDouble = .ok word

variable {g g' : IRGraph} {candidate : StructuralCandidate}

/-! ### No decision fails -/

namespace IRGraph

theorem opsOrRaise_ok (hids : g.opIds.Nodup) {ids : List String}
    (h : ∀ id ∈ ids, ∃ op ∈ g.ops, op.opId = id) : ∃ ops, ids.mapM g.opOrRaise = .ok ops := by
  refine exists_mapM_eq_ok fun id hid => ?_
  obtain ⟨op, hop, rfl⟩ := h id hid
  exact ⟨op, opOrRaise_eq_ok.mpr (op?_of_mem hids hop)⟩

theorem decideSite_of_rows (hids : g.opIds.Nodup) (hroles : g.RolesIn candidate.roleOps)
    {rows : List PredicateResult} (h : g.evaluatePredicates candidate = .ok rows) :
    ∃ decision, g.decideSite candidate = .ok decision := by
  obtain ⟨ops, hops⟩ := opsOrRaise_ok hids hroles
  rw [decideSite, h]
  dsimp only [bind, Except.bind]
  rw [hops]
  exact ⟨_, rfl⟩

theorem decideSite_incomplete (hids : g.opIds.Nodup) (hroles : g.RolesIn candidate.roleOps)
    (h : candidate.complete = false) : ∃ decision, g.decideSite candidate = .ok decision :=
  decideSite_of_rows hids hroles (by rw [evaluatePredicates, if_pos h])

theorem epsilon_ok {op : IROp}
    (h : ∀ p, op.attrs.get? "value" = some p → p ≠ .null → ∃ word, p.toDouble = .ok word) :
    ∃ row, epsilon candidate op = .ok row := by
  rw [epsilon]
  split_ifs
  · exact ⟨_, rfl⟩
  · rcases hvalue : op.attrs.get? "value" with - | p
    · exact ⟨_, rfl⟩
    · rw [Option.getD_some]
      split
      · exact ⟨_, rfl⟩
      · rename_i hnull
        obtain ⟨word, hword⟩ := h p hvalue hnull
        rw [hword]
        exact ⟨_, rfl⟩

theorem valueOrRaise_ok {v : String} (h : v ∈ g.valueIds) :
    ∃ value, g.valueOrRaise v = .ok value := by
  rw [valueOrRaise]
  rcases hfind : g.value? v with - | value
  · obtain ⟨value, hmem, hid⟩ := mem_map.mp h
    have := List.find?_eq_none.mp hfind value hmem
    simp [hid] at this
  · exact ⟨value, rfl⟩

end IRGraph

variable {ops : Role → IROp}

theorem Found.pattern (h : Found g candidate ops) : Pattern g ops :=
  ⟨h.mem_and_name, fun link hlink => (h.followed link hlink).link⟩

theorem Found.roles (h : Found g candidate ops) : g.RolesIn candidate.roleOps := by
  intro id hid
  obtain ⟨op, hop, hid, -⟩ := h.mem_patternOpIds (mem_append_left _ hid)
  exact ⟨op, hop, hid⟩

theorem Found.evaluate_ok (h : Found g candidate ops) (hready : Ready g)
    (hcomplete : candidate.complete = true) :
    ∃ rows, g.evaluatePredicates candidate = .ok rows := by
  have hc := IRGraph.checked_of_ok hready.ok
  have hids : g.opIds.Nodup := (nodup_append.mp hc.nodup).1
  obtain ⟨roles, hroles⟩ := IRGraph.opsOrRaise_ok hids h.roles
  have hcastIds : ∀ id ∈ candidate.castOps, ∃ op ∈ g.ops, op.opId = id := by
    intro id hid
    obtain ⟨op, hop, hid, -⟩ := h.castOps id hid
    exact ⟨op, hop, hid⟩
  obtain ⟨casts, hcasts⟩ := IRGraph.opsOrRaise_ok hids hcastIds
  obtain ⟨weight, hin, hweight⟩ := h.inputs .weight (by decide)
  obtain ⟨value, hvalue⟩ := IRGraph.valueOrRaise_ok (hready.declared weight hin)
  obtain ⟨row, hrow⟩ : ∃ row, IRGraph.epsilon candidate (ops .epsAdd) = .ok row :=
    IRGraph.epsilon_ok (hready.eps ops h.pattern)
  obtain ⟨v, base, -, -, -, hresidual⟩ :=
    (h.followed _ (show (Role.addResidual, Role.pow, 0) ∈ ROLE_LINKS by decide)).operands _
      (show (ValueRole.residualNew, 0) ∈ Role.pow.operandRoles by decide)
  rw [IRGraph.evaluatePredicates, if_neg (by simp [hcomplete])]
  simp only [hroles, h.opOf_eq hids, IRGraph.dtypeCast, hcasts, binding_eq_ok.mpr hweight, hvalue,
    hrow, binding_eq_ok.mpr hresidual, bind, Except.bind]
  exact ⟨_, rfl⟩

theorem Found.decide_ok (h : Found g candidate ops) (hready : Ready g)
    (hcomplete : candidate.complete = true) :
    ∃ decision, g.decideSite candidate = .ok decision := by
  obtain ⟨rows, hrows⟩ := h.evaluate_ok hready hcomplete
  have hids := (nodup_append.mp (IRGraph.checked_of_ok hready.ok).nodup).1
  exact IRGraph.decideSite_of_rows hids h.roles hrows

/-! ### No rewrite fails -/

theorem Found.site_ok (h : Found g candidate ops) (hc : g.Checked) :
    ∃ site, g.site candidate = .ok site ∧ site.output ∈ (ops .weightMul).results := by
  have hids : g.opIds.Nodup := (nodup_append.mp hc.nodup).1
  obtain ⟨v, base, -, -, -, hresidualNew⟩ :=
    (h.followed _ (show (Role.addResidual, Role.pow, 0) ∈ ROLE_LINKS by decide)).operands _
      (show (ValueRole.residualNew, 0) ∈ Role.pow.operandRoles by decide)
  obtain ⟨x, residual, rest, -, hx, hresidual⟩ := h.operands
  obtain ⟨weight, -, hweight⟩ := h.inputs .weight (by decide)
  obtain ⟨eps, -, heps⟩ := h.inputs .epsConst (by decide)
  obtain ⟨output, rest, hresults⟩ := exists_cons_of_ne_nil
    (hc.produces _ (h.mem_and_name .weightMul).1)
  refine ⟨⟨ops .addResidual, ops .epsAdd, x, residual, weight, eps, output, base⟩, ?_, ?_⟩
  · rw [IRGraph.site]
    simp only [binding_eq_ok.mpr hresidualNew, h.opOf_eq hids, hresults, binding_eq_ok.mpr hx,
      binding_eq_ok.mpr hresidual, binding_eq_ok.mpr hweight, binding_eq_ok.mpr heps, bind,
      Except.bind]
  · rw [hresults]
    exact .head _

theorem output_kept {site : IRGraph.Site} {fusedId : String} (h : site.output ∈ g.valueIds) :
    ∃ value ∈ g.rebuiltValues candidate site fusedId, value.valueId = site.output := by
  obtain ⟨value, hmem, hid⟩ := mem_map.mp h
  refine ⟨{ value with producer := fusedId }, mem_filterMap.mpr ⟨value, hmem, ?_⟩, hid⟩
  rw [if_pos (by simp [hid])]

theorem Ready.result_declared (h : Ready g) {op : IROp} (hop : op ∈ g.ops) {v : String}
    (hv : v ∈ op.results) : v ∈ g.valueIds := by
  have hdefined := (IRGraph.checked_of_ok h.ok).results op hop v hv
  rcases mem_append.mp hdefined with hid | hin
  · exact hid
  · exact h.declared v hin

theorem Found.apply_ok (h : Found g candidate ops) (hready : Ready g)
    (hcomplete : candidate.complete = true) :
    ∃ outcome, g.applyRewrite candidate none = .ok outcome := by
  obtain ⟨decision, hdecision⟩ := h.decide_ok hready hcomplete
  obtain ⟨site, hsite, houtput⟩ := h.site_ok (IRGraph.checked_of_ok hready.ok)
  obtain ⟨value, hvalue, hid⟩ : ∃ value ∈ (g.rebuilt candidate site).values,
      value.valueId = site.output :=
    output_kept (hready.result_declared (h.mem_and_name .weightMul).1 houtput)
  have hlost : ¬ ((g.rebuilt candidate site).values.all (·.valueId ≠ site.output) = true) := by
    intro hall
    simpa [hid] using all_eq_true.mp hall value hvalue
  rw [IRGraph.applyRewrite, hdecision]
  dsimp only [bind, Except.bind]
  by_cases hmatch : decision.status = .match
  · rw [if_neg (not_not.mpr hmatch), hsite]
    dsimp only
    rw [if_neg hlost]
    rcases (g.rebuilt candidate site).ok
    · exact ⟨_, rfl⟩
    · exact ⟨_, rfl⟩
  · rw [if_pos hmatch]
    exact ⟨_, rfl⟩

/-! ### What a commit keeps -/

/-- Only the fused operation is new. -/
theorem Commit.kept (hcommit : Commit g candidate g') {op : IROp} (hop : op ∈ g'.ops)
    (hkind : op.semanticOp ≠ "hqsb::fused_add_rms_norm") : op ∈ g.ops := by
  rcases hcommit.mem_ops hop with hop | hfused
  · exact (IRGraph.mem_keptOps.mp hop).1
  · exact absurd hfused hkind

theorem Commit.castOf (hcommit : Commit g candidate g') {v u : String} (h : g'.CastOf v u) :
    g.CastOf v u := by
  obtain ⟨op, hop, hcast, hu, hv⟩ := h
  exact ⟨op, hcommit.kept hop (not_fused_of_cast hcast), hcast, hu, hv⟩

theorem Pattern.of_commit (hcommit : Commit g candidate g') (h : Pattern g' ops) :
    Pattern g ops where
  mem := by
    intro role
    obtain ⟨hop, hname⟩ := h.mem role
    exact ⟨hcommit.kept hop (not_fused_of_names hname), hname⟩
  links := by
    intro link hlink
    obtain ⟨v, hv, hchain⟩ := h.links link hlink
    exact ⟨v, hv, ReflTransGen.mono (fun _ _ => hcommit.castOf) _ _ hchain⟩

theorem Removable.of_commit (hcommit : Commit g candidate g') {op : IROp} (h : Removable g' op) :
    Removable g op :=
  h.imp_right fun ⟨ops, role, hpattern, hop⟩ => ⟨ops, role, hpattern.of_commit hcommit, hop⟩

theorem not_removable_of_fused {op : IROp} (h : op.semanticOp = "hqsb::fused_add_rms_norm") :
    ¬ Removable g op := by
  rintro (hcast | ⟨ops, role, hpattern, rfl⟩)
  · exact not_fused_of_cast hcast h
  · exact not_fused_of_names (hpattern.mem role).2 h

theorem IRGraph.DeepCasts.of_commit (hcommit : Commit g candidate g') (h : g'.DeepCasts) :
    g.DeepCasts := by
  have hdepth : ∀ n v, g'.CastDepth n v → g.CastDepth n v := by
    intro n
    induction n with
    | zero => exact fun _ _ => trivial
    | succ n ih =>
      rintro v ⟨u, hcast, hrest⟩
      exact ⟨u, hcommit.castOf hcast, ih u hrest⟩
  obtain ⟨op, hop, ⟨role, hname⟩, v, hv, hdeep⟩ := h
  exact ⟨op, hcommit.kept hop (not_fused_of_names hname), ⟨role, hname⟩, v, hv, hdepth 8 v hdeep⟩

/-- **A commit keeps a graph ready.** -/
theorem Ready.commit (h : Ready g) (hfound : Found g candidate ops)
    (hcommit : Commit g candidate g') : Ready g' := by
  have hids : g.opIds.Nodup := (nodup_append.mp (IRGraph.checked_of_ok h.ok).nodup).1
  have hok' := hcommit.ok
  have hids' : g'.opIds.Nodup := (nodup_append.mp (IRGraph.checked_of_ok hok').nodup).1
  obtain ⟨site, -, rfl, -⟩ := hcommit.rebuilt
  have hfused : g.fusedOp candidate site ∈ (g.rebuilt candidate site).ops :=
    mem_append_right _ mem_cons_self
  refine ⟨hok', fun v hv => ?_, fun value hvalue hin op hop hid hout => ?_,
    fun ops hpattern => h.eps ops (hpattern.of_commit hcommit)⟩
  · -- the entry of an input is dropped only together with its producer
    obtain ⟨value, hmem, rfl⟩ := mem_map.mp (h.declared v hv)
    by_cases hout : value.valueId ∈ [site.output, site.residualNew]
    · refine mem_map.mpr ⟨_, mem_filterMap.mpr ⟨value, hmem, if_pos hout⟩, rfl⟩
    · refine mem_map.mpr ⟨value, mem_filterMap.mpr ⟨value, hmem, ?_⟩, rfl⟩
      rw [if_neg hout, if_neg]
      intro hproducer
      obtain ⟨op, hop, hid, hkind⟩ := hfound.mem_patternOpIds hproducer
      exact h.inputs value hmem hv op hop hid
        (hkind.imp_right fun ⟨role, hrole⟩ => ⟨ops, role, hfound.pattern, hrole⟩)
  · obtain ⟨old, hmem, hnew⟩ := mem_filterMap.mp hvalue
    split_ifs at hnew
    · cases hnew
      -- the new producer is the fused operation
      obtain rfl := inj_on_of_nodup_map hids' hop hfused hid
      exact not_removable_of_fused rfl hout
    · cases hnew
      rcases hcommit.mem_ops hop with hkept | hkind
      · exact h.inputs value hmem hin op (IRGraph.mem_keptOps.mp hkept).1 hid
          (hout.of_commit hcommit)
      · exact not_removable_of_fused hkind hout

/-! ### A pass -/

variable {candidates : List StructuralCandidate} {steps : List (IRGraph × StructuralCandidate)}

theorem recordIncomplete_ok {s : PassState}
    (h : ∀ c ∈ candidates, c.complete = false → ∃ decision, s.current.decideSite c = .ok decision) :
    ∃ s', candidates.foldlM recordIncomplete s = .ok s' := by
  induction candidates generalizing s with
  | nil => exact ⟨s, rfl⟩
  | cons c candidates ih =>
    obtain ⟨s₁, hs₁, hcurrent⟩ : ∃ s₁, recordIncomplete s c = .ok s₁ ∧ s₁.current = s.current := by
      rw [recordIncomplete]
      split_ifs with hskip
      · exact ⟨s, rfl, rfl⟩
      · obtain ⟨decision, hdecision⟩ := h c mem_cons_self (by simpa using (not_or.mp hskip).1)
        rw [hdecision]
        exact ⟨_, rfl, rfl⟩
    rw [foldlM_cons, hs₁]
    refine ih fun c' hc' hincomplete => ?_
    rw [hcurrent]
    exact h c' (.tail _ hc') hincomplete

/-- **A pass fails on deep chains only.** -/
theorem passLoop_error {turns : ℕ} {s : PassState} (hready : Ready s.current) {e : RewriteError}
    (h : passLoop turns s = .error e) : e = .castChainTooDeep ∧ s.current.DeepCasts := by
  induction turns generalizing s with
  | zero => cases h
  | succ turns ih =>
    have hc := IRGraph.checked_of_ok hready.ok
    have hids : s.current.opIds.Nodup := (nodup_append.mp hc.nodup).1
    rw [passLoop] at h
    rcases hfind : s.current.findCandidates with e' | candidates
    · rw [hfind] at h
      cases h
      exact IRGraph.findCandidates_error hc hfind
    · obtain ⟨s₁, hs₁⟩ := recordIncomplete_ok fun c hmem hincomplete =>
        IRGraph.decideSite_incomplete hids (IRGraph.findCandidates_roles hc hfind c hmem) hincomplete
      obtain ⟨hcurrent, -⟩ := recordIncomplete_keeps hs₁
      rw [hfind] at h
      dsimp only [bind, Except.bind] at h
      rw [hs₁] at h
      dsimp only at h
      split at h
      · cases h
      · rename_i candidate _ hcomplete
        have hsorted : candidate ∈ (candidates.filter (·.complete)).insertionSort
            fun a b => a.siteId ≤ b.siteId := hcomplete ▸ .head _
        obtain ⟨hmem, hcompleted⟩ := mem_filter.mp ((mem_insertionSort _).mp hsorted)
        obtain ⟨ops, hfound⟩ := IRGraph.found_of_mem hc hfind hmem hcompleted
        obtain ⟨applied, happlied⟩ := hfound.apply_ok hready hcompleted
        rw [hcurrent, happlied] at h
        dsimp only at h
        split_ifs at h with hcommitted
        rcases IRGraph.applyRewrite_cases happlied with ⟨-, hcommit⟩ | ⟨hnot, -⟩
        · obtain ⟨he, hdeep⟩ := ih (hready.commit hfound hcommit) h
          exact ⟨he, hdeep.of_commit hcommit⟩
        · exact nomatch hcommitted.symm.trans hnot

theorem runFusedAddRmsnormPass_error (hready : Ready g) {e : RewriteError}
    (h : runFusedAddRmsnormPass g = .error e) : e = .castChainTooDeep ∧ g.DeepCasts := by
  rw [runFusedAddRmsnormPass] at h
  split at h
  · cases h
  · exact passLoop_error hready h

/-- A run of commits keeps a graph ready, and makes no chain of casts deeper. -/
theorem PassRun.ready (h : PassRun g steps g') (hready : Ready g) :
    Ready g' ∧ (g'.DeepCasts → g.DeepCasts) := by
  induction h with
  | nil => exact ⟨hready, id⟩
  | cons hfind hmem hcommit hrun ih =>
    obtain ⟨ops, hfound⟩ := IRGraph.found_of_mem (IRGraph.checked_of_ok hready.ok) hfind hmem
      hcommit.legal.complete
    obtain ⟨hlast, hdeep⟩ := ih (hready.commit hfound hcommit)
    exact ⟨hlast, fun h => (hdeep h).of_commit hcommit⟩

/-- **A pass that commits leaves a fused operation behind.** -/
theorem PassRun.fused (h : PassRun g steps g') (hsteps : steps ≠ []) :
    ∃ op ∈ g'.ops, IRGraph.isFused op = true := by
  cases h with
  | nil => exact absurd rfl hsteps
  | @cons _ _ _ candidate _ _ hfind hmem hcommit hrun =>
    obtain ⟨site, -, hops⟩ := IRGraph.Commit_ops hcommit
    refine ⟨g.fusedOp candidate site, ?_, ?_⟩
    · -- no later step takes it out
      by_contra hout
      obtain ⟨step, hstep, hremoved⟩ := hrun.exists_removed
        (hops ▸ mem_append_right _ mem_cons_self) hout
      exact (hrun.removed hcommit.ok step hstep _ hremoved).1 rfl
    · simp [IRGraph.isFused, IRGraph.fusedOp]

/-! ### At rest -/

def Resting (g : IRGraph) : Prop :=
  (∃ candidates, g.findCandidates = .ok candidates) ∧
    ∃ outcome, runFusedAddRmsnormPass g = .ok outcome ∧ outcome.graph = g ∧ outcome.rewriteCount = 0

theorem resting_of_fused (hfused : ∃ op ∈ g.ops, IRGraph.isFused op = true)
    (hfind : g.findCandidates = .ok candidates) :
    Resting g := by
  refine ⟨⟨candidates, hfind⟩, ?_⟩
  obtain ⟨op, hop, hkind⟩ := hfused
  rw [runFusedAddRmsnormPass, IRGraph.decideAlreadyFused]
  rcases hfirst : g.ops.find? IRGraph.isFused with - | first
  · exact absurd hkind (by simpa using List.find?_eq_none.mp hfirst op hop)
  · exact ⟨_, rfl, rfl, rfl⟩

section

variable {D : Type} [DecidableEq D] (alphabet : Alphabet) (sha256 : List Char → D)

def iterationOf (g : IRGraph) (candidates : List StructuralCandidate) (outcome : PassOutcome) :
    PassIteration D :=
  ⟨hashOf alphabet sha256 g, candidates.length, outcome.rewriteCount, outcome.rejectCount,
    outcome.noChangeCount, hashOf alphabet sha256 outcome.graph, outcome.graph.ok,
    outcome.graph.deadNodes⟩

variable {alphabet sha256}

theorem pipelineLoop_succ {candidates : List StructuralCandidate} {outcome : PassOutcome}
    (hfind : g.findCandidates = .ok candidates) (hpass : runFusedAddRmsnormPass g = .ok outcome)
    (n : ℕ) (seen : List D) (done : List (PassIteration D)) :
    pipelineLoop alphabet sha256 DEFAULT_PIPELINE (n + 1) seen done g =
      if hashOf alphabet sha256 g = hashOf alphabet sha256 outcome.graph ∧ outcome.rewriteCount = 0
      then .ok (done ++ [iterationOf alphabet sha256 g candidates outcome], outcome.graph, true, false)
      else if hashOf alphabet sha256 outcome.graph ∈ seen then
        .ok (done ++ [iterationOf alphabet sha256 g candidates outcome], outcome.graph, false, true)
      else pipelineLoop alphabet sha256 DEFAULT_PIPELINE n
        (hashOf alphabet sha256 outcome.graph :: seen)
        (done ++ [iterationOf alphabet sha256 g candidates outcome]) outcome.graph := by
  rw [pipelineLoop, DEFAULT_PIPELINE, foldlM_cons, runPass, hfind]
  rw [hpass]
  simp only [foldlM_nil, Nat.zero_add, Bool.true_and]
  rfl

theorem pipelineLoop_error {e : RewriteError} (n : ℕ) (seen : List D)
    (done : List (PassIteration D))
    (h : g.findCandidates = .error e ∨
      (∃ candidates, g.findCandidates = .ok candidates) ∧ runFusedAddRmsnormPass g = .error e) :
    pipelineLoop alphabet sha256 DEFAULT_PIPELINE (n + 1) seen done g = .error e := by
  rw [pipelineLoop, DEFAULT_PIPELINE, foldlM_cons, runPass]
  rcases h with hfind | ⟨⟨candidates, hfind⟩, hpass⟩
  · rw [hfind]
    rfl
  · rw [hfind]
    dsimp only [bind, Except.bind]
    rw [hpass]

variable (alphabet sha256) in
/-- **A graph at rest ends the pipeline**, in the iteration that finds it so. -/
theorem pipelineLoop_of_resting (h : Resting g) (n : ℕ) (seen : List D)
    (done : List (PassIteration D)) :
    ∃ iteration : PassIteration D, iteration.rewriteCount = 0 ∧
      pipelineLoop alphabet sha256 DEFAULT_PIPELINE (n + 1) seen done g =
        .ok (done ++ [iteration], g, true, false) := by
  obtain ⟨⟨candidates, hfind⟩, outcome, hpass, hgraph, hcount⟩ := h
  refine ⟨iterationOf alphabet sha256 g candidates outcome, hcount, ?_⟩
  rw [pipelineLoop_succ hfind hpass, if_pos ⟨by rw [hgraph], hcount⟩, hgraph]

/-- How a run of the pipeline ends that does not fail. -/
def Settled (alphabet : Alphabet) (sha256 : List Char → D) (run : PipelineRun D) : Prop :=
  run.converged = true ∧ run.oscillation = false ∧ run.finalGraph.ok = true ∧
    ∃ again, runPipeline alphabet sha256 DEFAULT_PIPELINE 8 run.finalGraph = .ok again ∧
      (again.iterations.map PassIteration.rewriteCount).sum = 0 ∧
      hashOf alphabet sha256 again.finalGraph = hashOf alphabet sha256 run.finalGraph

theorem settled_of_resting {run : PipelineRun D} (h : Resting run.finalGraph)
    (hok : run.finalGraph.ok = true) (hconverged : run.converged = true)
    (hoscillation : run.oscillation = false) : Settled alphabet sha256 run := by
  obtain ⟨iteration, hcount, hloop⟩ := pipelineLoop_of_resting alphabet sha256 h 7 [] []
  refine ⟨hconverged, hoscillation, hok, ?_⟩
  rw [runPipeline, hloop]
  exact ⟨_, rfl, by simp [hcount], rfl⟩

/-- **The pipeline comes to rest.**  It fails only on an operand behind eight casts or more; if it
does not, it converges without oscillation, to a graph that the verifier accepts and on which it has
nothing more to do. -/
theorem pipeline_settles (alphabet : Alphabet) (sha256 : List Char → D) (hready : Ready g) :
    (∃ run, runPipeline alphabet sha256 DEFAULT_PIPELINE 8 g = .ok run ∧
      Settled alphabet sha256 run) ∨
    runPipeline alphabet sha256 DEFAULT_PIPELINE 8 g = .error .castChainTooDeep ∧ g.DeepCasts := by
  have hc := IRGraph.checked_of_ok hready.ok
  rcases hfind : g.findCandidates with e | candidates
  · obtain ⟨rfl, hdeep⟩ := IRGraph.findCandidates_error hc hfind
    rw [runPipeline, pipelineLoop_error 7 [] [] (.inl hfind)]
    exact .inr ⟨rfl, hdeep⟩
  rcases hpass : runFusedAddRmsnormPass g with e | outcome
  · obtain ⟨rfl, hdeep⟩ := runFusedAddRmsnormPass_error hready hpass
    rw [runPipeline, pipelineLoop_error 7 [] [] (.inr ⟨⟨_, hfind⟩, hpass⟩)]
    exact .inr ⟨rfl, hdeep⟩
  obtain ⟨steps, hrun, hcount⟩ := runFusedAddRmsnormPass_run hpass
  by_cases hsteps : steps = []
  · -- nothing was committed: the first iteration is the last
    subst hsteps
    have hgraph : outcome.graph = g := by
      cases hrun
      rfl
    have hrest : Resting g := ⟨⟨candidates, hfind⟩, outcome, hpass, hgraph, hcount⟩
    obtain ⟨iteration, -, hloop⟩ := pipelineLoop_of_resting alphabet sha256 hrest 7 [] []
    rw [runPipeline, hloop]
    exact .inl ⟨_, rfl, settled_of_resting hrest hready.ok rfl rfl⟩
  · obtain ⟨hready', hdeep⟩ := hrun.ready hready
    have hne : outcome.rewriteCount ≠ 0 := by
      rw [hcount]
      exact fun hzero => hsteps (length_eq_zero_iff.mp hzero)
    rw [runPipeline, pipelineLoop_succ hfind hpass, if_neg fun h => hne h.2,
      if_neg not_mem_nil]
    rcases hfind' : outcome.graph.findCandidates with e | candidates'
    · obtain ⟨rfl, hdeep'⟩ :=
        IRGraph.findCandidates_error (IRGraph.checked_of_ok hready'.ok) hfind'
      rw [pipelineLoop_error 6 _ _ (.inl hfind')]
      exact .inr ⟨rfl, hdeep hdeep'⟩
    · -- the second iteration finds what the first has fused
      have hrest := resting_of_fused (hrun.fused hsteps) hfind'
      obtain ⟨iteration, -, hloop⟩ := pipelineLoop_of_resting alphabet sha256 hrest 6
        [hashOf alphabet sha256 outcome.graph]
        [iterationOf alphabet sha256 g candidates outcome]
      rw [nil_append, hloop]
      exact .inl ⟨_, rfl, settled_of_resting hrest hready'.ok rfl rfl⟩

end

/-! ### A graph that settles, and a chain of casts that is too deep -/

def isReadable (p : Payload) : Bool :=
  match p.toDouble with
  | .ok _ => true
  | .error _ => false

theorem normGraph_ready : Ready (normGraph .empty pureEffects) := by
  have hproducer : ∀ value ∈ (normGraph .empty pureEffects).values,
      value.valueId ∈ (normGraph .empty pureEffects).inputs →
        ∀ op ∈ (normGraph .empty pureEffects).ops, op.opId ≠ value.producer := by decide
  refine ⟨by decide, by decide, fun value hmem hin op hop hid => ?_, ?_⟩
  · exact absurd hid (hproducer value hmem hin op hop)
  have hreadable : ∀ op ∈ (normGraph .empty pureEffects).ops,
      ((op.attrs.get? "value").all isReadable) = true := by decide
  intro ops hpattern p hp _
  have hp' := hreadable _ (hpattern.mem .epsAdd).1
  rw [hp, Option.all_some, isReadable] at hp'
  split at hp'
  · exact ⟨_, by assumption⟩
  · cases hp'

theorem norm_graph_settles :
    ∃ run, runPipeline ascii id DEFAULT_PIPELINE 8 (normGraph .empty pureEffects) = .ok run ∧
      Settled ascii id run := by
  rcases pipeline_settles ascii id normGraph_ready with hrun | ⟨-, op, -, -, v, -, u, hcast, -⟩
  · exact hrun
  · obtain ⟨op', hop', hcast, -⟩ := hcast
    have hnone : ∀ op ∈ (normGraph .empty pureEffects).ops, op.isCast = false := by decide
    cases (hnone op' hop').symm.trans hcast

def castChain : List String → List IROp
  | u :: v :: names => fixtureOp ("o_" ++ v) "aten.to" [u] [v] .empty :: castChain (v :: names)
  | _ => []

def deepGraph : IRGraph :=
  fixtureGraph
    (castChain ["ph_two", "c1", "c2", "c3", "c4", "c5", "c6", "c7", "c8"] ++
      [fixtureOp "o_add" "aten.add" ["ph_x", "ph_r"] ["v_r"] .empty,
        fixtureOp "o_pow" "aten.pow" ["v_r", "c8"] ["v_sq"] exponentAttrs])
    (["ph_x", "ph_r", "ph_two"].map (fixtureValue · "" ["H"]) ++
      ["c1", "c2", "c3", "c4", "c5", "c6", "c7", "c8"].map
        (fun v => fixtureValue v ("o_" ++ v) ["H"]) ++
      [fixtureValue "v_r" "o_add" ["H"], fixtureValue "v_sq" "o_pow" ["H"]])
    ["ph_x", "ph_r", "ph_two"] ["v_sq"]

/-- **Eight casts in a row raise**, in a graph that the verifier accepts. -/
theorem deep_casts_raise :
    deepGraph.ok = true ∧ (∀ v ∈ deepGraph.inputs, v ∈ deepGraph.valueIds) ∧
      runPipeline ascii id DEFAULT_PIPELINE 8 deepGraph = .error .castChainTooDeep := by
  refine ⟨by decide, by decide, ?_⟩
  have hfind : (match deepGraph.findCandidates with
      | .ok _ => none
      | .error e => some e) = some .castChainTooDeep := by decide
  split at hfind
  · cases hfind
  · rename_i e he
    rw [runPipeline, pipelineLoop_error 7 [] [] (.inl he), Option.some.inj hfind]
    rfl

end Hqsb.Compiler
