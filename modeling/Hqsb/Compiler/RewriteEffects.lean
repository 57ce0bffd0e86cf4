/-
Hqsb/Compiler/RewriteEffects.lean

Which effects a rewrite may take out together with its site.

The effect predicate looks at the operation of the anchor, and there at the mutation flag, at the
evidence and at writes to one fixed name.  Everything else that an operation of the site declares is
lost with it.  So what a rewrite takes out is safe exactly when the anchor writes nothing and all
the other operations of the site are safe (`removed_safe_iff`), and a pass that commits such
rewrites only takes out nothing else (`pass_removed_iff`).
-/
import Hqsb.Compiler.Rewrite

namespace Hqsb.Compiler

open Lib List

/-! ### One rewrite -/

namespace IRGraph

variable {g : IRGraph} {candidate : StructuralCandidate}

/-- The anchor writes nothing, and no other operation of the site has an effect. -/
def SparesEffects (g : IRGraph) (candidate : StructuralCandidate) : Prop :=
  ∀ op ∈ g.removedOps candidate,
    if candidate.roleOps.get? .addResidual = some op.opId then op.effects.writes = []
    else op.effects.riskState = "PROVED_SAFE"

theorem mem_removedOps {op : IROp} :
    op ∈ g.removedOps candidate ↔ op ∈ g.ops ∧ op.opId ∈ candidate.patternOpIds := by
  rw [removedOps, mem_filter, decide_eq_true_eq]

theorem mem_keptOps {op : IROp} :
    op ∈ g.keptOps candidate ↔ op ∈ g.ops ∧ op.opId ∉ candidate.patternOpIds := by
  rw [keptOps, mem_filter, decide_eq_true_eq]

theorem opOf_eq_ok {role : Role} {op : IROp} (h : candidate.opOf g role = .ok op) :
    ∃ opId, candidate.roleOps.get? role = some opId ∧ g.op? opId = some op := by
  obtain ⟨opId, hrole, hop⟩ := bind_ok_iff.mp h
  rw [StructuralCandidate.roleOp] at hrole
  rcases hget : candidate.roleOps.get? role with - | opId'
  · rw [hget] at hrole
    cases hrole
  · rw [hget] at hrole
    cases hrole
    exact ⟨_, rfl, opOrRaise_eq_ok.mp hop⟩

/-- What the effect predicate has shown, the anchor needs only the rest of. -/
theorem legal_removed_iff (hids : g.opIds.Nodup) (h : Legal g candidate) :
    (∀ op ∈ g.removedOps candidate, op.effects.riskState = "PROVED_SAFE") ↔
      g.SparesEffects candidate := by
  obtain ⟨anchor, hanchor, hinplace, hunknown⟩ := h.add
  obtain ⟨opId, hrole, hfind⟩ := opOf_eq_ok hanchor
  obtain ⟨hmem, hid⟩ := op?_some hfind
  refine forall₂_congr fun op hop => ?_
  split_ifs with hadd
  · -- the anchor itself: ids are unique
    obtain rfl : op = anchor := by
      rw [hrole, ← hid] at hadd
      exact inj_on_of_nodup_map hids (mem_removedOps.mp hop).1 hmem (Option.some.inj hadd).symm
    rw [EffectSet.riskState_safe_iff]
    constructor
    · exact fun hsafe => hsafe.2.2.2
    · intro hwrites
      rw [EffectSet.riskState] at hunknown
      split_ifs at hunknown with hunk
      · exact absurd rfl hunknown
      all_goals exact ⟨(not_or.mp hunk).1, (not_or.mp hunk).2, hinplace, hwrites⟩
  · exact Iff.rfl

theorem removed_safe_iff {injectAt : Option InjectionPoint} {outcome : RewriteOutcome}
    (hok : g.ok = true) (h : g.applyRewrite candidate injectAt = .ok outcome)
    (hcommitted : outcome.committed = true) :
    (∀ op ∈ g.removedOps candidate, op.effects.riskState = "PROVED_SAFE") ↔
      g.SparesEffects candidate := by
  rcases applyRewrite_cases h with ⟨-, hcommit⟩ | ⟨hnot, -⟩
  · exact legal_removed_iff (nodup_append.mp (checked_of_ok hok).nodup).1 hcommit.legal
  · exact nomatch hcommitted.symm.trans hnot

end IRGraph

/-! ### A pass -/

section

variable {g g' : IRGraph} {steps : List (IRGraph × StructuralCandidate)}
  {candidate : StructuralCandidate} {op : IROp}

theorem Commit.mem_ops (h : Commit g candidate g') (hop : op ∈ g'.ops) :
    op ∈ g.keptOps candidate ∨ op.semanticOp = "hqsb::fused_add_rms_norm" := by
  obtain ⟨site, -, hops⟩ := IRGraph.Commit_ops h
  rw [hops] at hop
  rcases mem_append.mp hop with hkept | hfused
  · exact .inl hkept
  · obtain rfl := mem_singleton.mp hfused
    exact .inr rfl

theorem Commit.keeps (h : Commit g candidate g') (hop : op ∈ g.keptOps candidate) :
    op ∈ g'.ops := by
  obtain ⟨site, -, hops⟩ := IRGraph.Commit_ops h
  rw [hops]
  exact mem_append_left _ hop

theorem removed_not_fused (hok : g.ok = true) {candidates : List StructuralCandidate}
    (hfind : g.findCandidates = .ok candidates) (hmem : candidate ∈ candidates)
    (hlegal : Legal g candidate) (hop : op ∈ g.removedOps candidate) :
    op.semanticOp ≠ "hqsb::fused_add_rms_norm" := by
  have hc := IRGraph.checked_of_ok hok
  obtain ⟨ops, hfound⟩ := IRGraph.found_of_mem hc hfind hmem hlegal.complete
  obtain ⟨hin, hid⟩ := IRGraph.mem_removedOps.mp hop
  exact hfound.not_fused (nodup_append.mp hc.nodup).1 hin hid

section

variable (h : PassRun g steps g')

include h

theorem PassRun.mem_ops
    (hkind : op.semanticOp ≠ "hqsb::fused_add_rms_norm") (hop : op ∈ g'.ops) : op ∈ g.ops := by
  induction h with
  | nil => exact hop
  | cons _ _ hcommit _ ih =>
    rcases hcommit.mem_ops (ih hop) with hkept | hfused
    · exact (IRGraph.mem_keptOps.mp hkept).1
    · exact absurd hfused hkind

/-- **What a pass takes out** are operations of the graph it began with, and they are gone behind
it. -/
theorem PassRun.removed (hok : g.ok = true) :
    ∀ step ∈ steps, ∀ op ∈ step.1.removedOps step.2,
      op.semanticOp ≠ "hqsb::fused_add_rms_norm" ∧ op ∈ g.ops ∧ op ∉ g'.ops := by
  induction h with
  | nil => exact nofun
  | cons hfind hmem hcommit hrun ih =>
    intro step hstep op hop
    rcases mem_cons.mp hstep with rfl | hstep
    · have hkind := removed_not_fused hok hfind hmem hcommit.legal hop
      obtain ⟨hin, hid⟩ := IRGraph.mem_removedOps.mp hop
      refine ⟨hkind, hin, fun hlast => ?_⟩
      rcases hcommit.mem_ops (hrun.mem_ops hkind hlast) with hkept | hfused
      · exact (IRGraph.mem_keptOps.mp hkept).2 hid
      · exact hkind hfused
    · obtain ⟨hkind, hin, hout⟩ := ih hcommit.ok step hstep op hop
      refine ⟨hkind, ?_, hout⟩
      rcases hcommit.mem_ops hin with hkept | hfused
      · exact (IRGraph.mem_keptOps.mp hkept).1
      · exact absurd hfused hkind

theorem PassRun.exists_removed (hin : op ∈ g.ops) (hout : op ∉ g'.ops) :
    ∃ step ∈ steps, op ∈ step.1.removedOps step.2 := by
  induction h with
  | nil => exact absurd hin hout
  | @cons g _ _ candidate _ _ _ _ hcommit _ ih =>
    by_cases hid : op.opId ∈ candidate.patternOpIds
    · exact ⟨_, .head _, IRGraph.mem_removedOps.mpr ⟨hin, hid⟩⟩
    · obtain ⟨step, hstep, hop⟩ := ih (hcommit.keeps (IRGraph.mem_keptOps.mpr ⟨hin, hid⟩)) hout
      exact ⟨step, .tail _ hstep, hop⟩

theorem PassRun.legal : ∀ step ∈ steps, Legal step.1 step.2 := by
  induction h with
  | nil => exact nofun
  | cons _ _ hcommit _ ih => exact forall_mem_cons.mpr ⟨hcommit.legal, ih⟩

theorem PassRun.removed_safe_iff (hok : g.ok = true) :
    (∀ op ∈ g.ops, op ∉ g'.ops → op.effects.riskState = "PROVED_SAFE") ↔
      ∀ step ∈ steps, step.1.SparesEffects step.2 := by
  have hspares : ∀ step ∈ steps, ((∀ op ∈ step.1.removedOps step.2,
      op.effects.riskState = "PROVED_SAFE") ↔ step.1.SparesEffects step.2) := by
    intro step hstep
    have hc := IRGraph.checked_of_ok ((h.ok hok).2 step hstep)
    exact IRGraph.legal_removed_iff (nodup_append.mp hc.nodup).1 (h.legal step hstep)
  constructor
  · intro hsafe step hstep
    refine (hspares step hstep).mp fun op hop => ?_
    obtain ⟨-, hin, hout⟩ := h.removed hok step hstep op hop
    exact hsafe op hin hout
  · intro hall op hin hout
    obtain ⟨step, hstep, hop⟩ := h.exists_removed hin hout
    exact (hspares step hstep).mpr (hall step hstep) op hop

end

end

/-- **Rewrites keep effects exactly when their sites have none to lose.**  The left sides say that
whatever a rewrite, or a pass, takes out of a graph is safe. -/
theorem rewrite_effects_iff {g : IRGraph} (hok : g.ok = true) :
    (∀ candidate injectAt outcome, g.applyRewrite candidate injectAt = .ok outcome →
      outcome.committed = true →
      ((∀ op ∈ g.removedOps candidate, op.effects.riskState = "PROVED_SAFE") ↔
        g.SparesEffects candidate)) ∧
    ∀ outcome, runFusedAddRmsnormPass g = .ok outcome →
      ∃ steps, PassRun g steps outcome.graph ∧ outcome.rewriteCount = steps.length ∧
        ((∀ op ∈ g.ops, op ∉ outcome.graph.ops → op.effects.riskState = "PROVED_SAFE") ↔
          ∀ step ∈ steps, step.1.SparesEffects step.2) := by
  refine ⟨fun candidate injectAt outcome h hcommitted =>
    IRGraph.removed_safe_iff hok h hcommitted, fun outcome h => ?_⟩
  obtain ⟨steps, hrun, hcount⟩ := runFusedAddRmsnormPass_run h
  exact ⟨steps, hrun, hcount, hrun.removed_safe_iff hok⟩

theorem rewrite_effects_norm_graph :
    (normGraph .empty pureEffects).ok = true ∧
      ∀ outcome, runFusedAddRmsnormPass (normGraph .empty pureEffects) = .ok outcome →
        ∃ steps, PassRun (normGraph .empty pureEffects) steps outcome.graph ∧
          outcome.rewriteCount = steps.length ∧
          ((∀ op ∈ (normGraph .empty pureEffects).ops, op ∉ outcome.graph.ops →
              op.effects.riskState = "PROVED_SAFE") ↔
            ∀ step ∈ steps, step.1.SparesEffects step.2) :=
  have hok : (normGraph .empty pureEffects).ok = true := by decide
  ⟨hok, (rewrite_effects_iff hok).2⟩

/-- The graph with a last multiplication that writes into its operand. -/
def inplaceGraph : IRGraph := normGraph .empty { pureEffects with mutation := "inplace" }

/-- **A multiplication in place is fused away.** -/
theorem inplace_multiplication_removed :
    inplaceGraph.ok = true ∧ ∃ outcome, runFusedAddRmsnormPass inplaceGraph = .ok outcome ∧
      outcome.rewriteCount = 1 ∧ ∃ op ∈ inplaceGraph.ops, op ∉ outcome.graph.ops ∧
        op.effects.riskState ≠ "PROVED_SAFE" := by
  refine ⟨by decide, ?_⟩
  have hrun : (match runFusedAddRmsnormPass inplaceGraph with
      | .ok outcome => outcome.rewriteCount = 1 && "o_weight" ∉ outcome.graph.opIds
      | .error _ => false) = true := by decide +kernel
  split at hrun
  · rename_i outcome houtcome
    rw [Bool.and_eq_true, decide_eq_true_eq, decide_eq_true_eq] at hrun
    refine ⟨outcome, houtcome, hrun.1, _, getElem_mem (by decide : 6 < inplaceGraph.ops.length),
      fun hin => hrun.2 (mem_map_of_mem hin), ?_⟩
    decide +kernel
  · cases hrun

end Hqsb.Compiler
