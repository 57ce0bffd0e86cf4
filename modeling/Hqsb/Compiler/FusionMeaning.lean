/-
Hqsb/Compiler/FusionMeaning.lean

What the fusion pass does to the function that a graph is.

The matcher binds the right values: in a well-defined graph every binding is, behind casts, the
operand that the pattern means (`Found.base`).  So whatever satisfies the operations of a graph
satisfies the fused operation as well, when both additions have the factor one, which no predicate
looks at.  What is taken out must not be read from elsewhere, which the verifier can see only if the
table of the values names the right producers.  When every site of a pass has both
(`ExactSite`), the outputs keep their values (`pass_meaning`).
-/
import Hqsb.Compiler.Meaning
import Hqsb.Compiler.RewriteEffects

namespace Hqsb.Compiler

open Lib Relation List

/-! ### Casts in a well-defined graph -/

namespace IRGraph

variable {g : IRGraph}

theorem CastOf.unique (honce : g.ProducedOnce) {v u u' : String} (h : g.CastOf v u)
    (h' : g.CastOf v u') : u = u' := by
  obtain ⟨op, hop, -, hu, hv⟩ := h
  obtain ⟨op', hop', -, hu', hv'⟩ := h'
  obtain rfl := honce.1 op hop op' hop' v hv hv'
  exact (List.cons.inj (hu.symm.trans hu')).1

theorem Uncast.not_castOf (hids : g.opIds.Nodup) (honce : g.ProducedOnce) {v u : String}
    (h : g.Uncast v) : ¬ g.CastOf v u := by
  rintro ⟨op, hop, hcast, -, hv⟩
  obtain ⟨opId, hp⟩ := producerOf_of_mem hop hv
  obtain ⟨op', hop', rfl, hv', hfind⟩ := op?_producerOf hids hp
  obtain rfl := honce.1 op hop op' hop' v hv hv'
  exact Bool.false_ne_true ((h _ _ hp hfind).symm.trans hcast)

/-- Two chains of casts from one value end at the same one, if neither can be prolonged. -/
theorem castOf_end (honce : g.ProducedOnce) {v a b : String} (ha : ReflTransGen g.CastOf v a)
    (hb : ReflTransGen g.CastOf v b) (hstuck : ∀ u, ¬ g.CastOf a u)
    (hstuck' : ∀ u, ¬ g.CastOf b u) : a = b := by
  have hunique : Relator.RightUnique g.CastOf := fun _ _ _ h h' => h.unique honce h'
  rcases ReflTransGen.total_of_right_unique hunique ha hb with h | h
  · rcases h.cases_head with h | ⟨u, h, -⟩
    · exact h
    · exact absurd h (hstuck u)
  · rcases h.cases_head with h | ⟨u, h, -⟩
    · exact h.symm
    · exact absurd h (hstuck' u)

variable {other : OtherOps} {env : String → Option ExactTensor}

theorem CastOf.eq (henv : (opFlow other).Solves g.ops env) {v u : String} (h : g.CastOf v u) :
    env v = env u := by
  obtain ⟨op, hop, hcast, hu, hv⟩ := h
  rw [henv op hop v hv]
  have hname : op.semanticOp = "aten.to" := by
    simp only [IROp.isCast, DECOMPOSITION_CAST_OPS, Bool.and_eq_true, mem_singleton,
      decide_eq_true_eq] at hcast
    exact hcast.1
  show op.meaning other (op.operands.map env) _ = env u
  rw [hu]
  exact meaning_to hname

theorem castOf_eq (henv : (opFlow other).Solves g.ops env) {v u : String}
    (h : ReflTransGen g.CastOf v u) : env v = env u := by
  induction h with
  | refl => rfl
  | tail _ hstep ih => exact ih.trans (hstep.eq henv)

theorem head_mem (hc : g.Checked) {op : IROp} (hop : op ∈ g.ops) :
    op.results.headD "" ∈ op.results ∧ op.results.idxOf (op.results.headD "") = 0 := by
  rcases hresults : op.results with - | ⟨v, rest⟩
  · exact absurd hresults (hc.produces op hop)
  · exact ⟨.head _, by simp⟩

theorem env_head (hc : g.Checked) (henv : (opFlow other).Solves g.ops env) {op : IROp}
    (hop : op ∈ g.ops) :
    env (op.results.headD "") = op.meaning other (op.operands.map env) 0 := by
  obtain ⟨hmem, hidx⟩ := head_mem hc hop
  rw [henv op hop _ hmem]
  show op.meaning other _ (op.results.idxOf _) = _
  rw [hidx]
  rfl

end IRGraph

theorem eq_cons_of_get {l : List String} {v : String} (h : l[0]? = some v) :
    ∃ rest, l = v :: rest := by
  rcases l with - | ⟨a, rest⟩
  · cases h
  · exact ⟨rest, by rw [Option.some.inj h]⟩

theorem eq_cons_cons_of_get {l : List String} {v w : String} (h : l[0]? = some v)
    (h' : l[1]? = some w) : ∃ rest, l = v :: w :: rest := by
  obtain ⟨rest, rfl⟩ := eq_cons_of_get h
  obtain ⟨rest', rfl⟩ := eq_cons_of_get (show rest[0]? = some w from h')
  exact ⟨rest', rfl⟩

theorem dim?_of_attrEquals {op : IROp} {n : ℤ} (h : attrEquals op.attrs "dim" n = true) :
    op.dim? = some n := by
  rw [IROp.dim?, of_decide_eq_true h]
  simp

theorem keepdim_of_get? {op : IROp} (h : op.attrs.get? "keepdim" = some (.bool true)) :
    op.keepdim = true := by
  rw [IROp.keepdim, h]
  rfl

/-! ### What the roles compute -/

namespace Found

variable {g : IRGraph} {candidate : StructuralCandidate} {ops : Role → IROp}

abbrev result (ops : Role → IROp) (role : Role) : String := (ops role).results.headD ""

theorem removed (h : Found g candidate ops) (role : Role) : ops role ∈ g.removedOps candidate := by
  refine IRGraph.mem_removedOps.mpr ⟨(h.mem_and_name role).1, mem_append_left _ ?_⟩
  exact (OrderedDict.mem_values_iff _).mpr ⟨role, h.roleOps role⟩

theorem result_not_castOf (h : Found g candidate ops) (hc : g.Checked) (honce : g.ProducedOnce)
    (role : Role) (u : String) : ¬ g.CastOf (result ops role) u := by
  rintro ⟨op, hop, hcast, -, hv⟩
  obtain ⟨hin, hname⟩ := h.mem_and_name role
  obtain rfl := honce.1 op hop _ hin _ hv (IRGraph.head_mem hc hin).1
  simp only [IROp.isCast, DECOMPOSITION_CAST_OPS, Bool.and_eq_true, mem_singleton,
    decide_eq_true_eq] at hcast
  rw [hcast.1] at hname
  revert hname
  cases role <;> decide

/-- **The matcher binds what the pattern means**: the operand that links a role to the one in front
of it is bound to the result of that one. -/
theorem base (h : Found g candidate ops) (hc : g.Checked) (honce : g.ProducedOnce)
    {previous role : Role} {position : Nat} (hlink : (previous, role, position) ∈ ROLE_LINKS)
    {vr : ValueRole} (hslot : (vr, position) ∈ role.operandRoles) :
    candidate.valueBindings.get? vr = some (result ops previous) := by
  have hids : g.opIds.Nodup := (nodup_append.mp hc.nodup).1
  have hfollowed := h.followed _ hlink
  obtain ⟨v, hv, hchain⟩ := hfollowed.link
  obtain ⟨v', base, hv', hchain', hbase, hget⟩ := hfollowed.operands _ hslot
  cases hv.symm.trans hv'
  rw [hget, IRGraph.castOf_end honce hchain' hchain
    (fun u => IRGraph.Uncast.not_castOf hids honce hbase)
    (fun u => h.result_not_castOf hc honce previous u)]

variable {other : OtherOps} {env : String → Option ExactTensor}

theorem link_value (h : Found g candidate ops) (henv : (opFlow other).Solves g.ops env)
    (previous role : Role) (hlink : (previous, role, 0) ∈ ROLE_LINKS := by decide) :
    ∃ v rest, (ops role).operands = v :: rest ∧ env v = env (result ops previous) := by
  obtain ⟨v, hv, hchain⟩ := (h.followed _ hlink).link
  obtain ⟨rest, hoperands⟩ := eq_cons_of_get hv
  exact ⟨v, rest, hoperands, IRGraph.castOf_eq henv hchain⟩

/-- An operation between the result of another and a value of the site. -/
theorem slot_value (h : Found g candidate ops) (henv : (opFlow other).Solves g.ops env)
    (previous role : Role) (vr : ValueRole) (position i : Nat) {base : String}
    (hbase : candidate.valueBindings.get? vr = some base)
    (hlink : (previous, role, position) ∈ ROLE_LINKS := by decide)
    (hslot : (vr, i) ∈ role.operandRoles := by decide) :
    ∃ v w, (ops role).operands[position]? = some v ∧ (ops role).operands[i]? = some w ∧
      env v = env (result ops previous) ∧ env w = env base := by
  have hfollowed := h.followed _ hlink
  obtain ⟨v, hv, hchain⟩ := hfollowed.link
  obtain ⟨w, base', hw, hchain', -, hget⟩ := hfollowed.operands _ hslot
  cases hbase.symm.trans hget
  exact ⟨v, w, hv, hw, IRGraph.castOf_eq henv hchain, IRGraph.castOf_eq henv hchain'⟩

/-- **What a site computes**, when both of its additions have the factor one. -/
theorem value (h : Found g candidate ops) (hc : g.Checked) (hprod : g.ProducedOnce)
    (hlegal : Legal g candidate)
    (halpha : ∀ role ∈ [Role.addResidual, .epsAdd], (ops role).alpha? = some 1)
    (henv : (opFlow other).Solves g.ops env) {x residual weight eps : String}
    (hx : candidate.valueBindings.get? .x = some x)
    (hresidual : candidate.valueBindings.get? .residual = some residual)
    (hweight : candidate.valueBindings.get? .weight = some weight)
    (heps : candidate.valueBindings.get? .epsConst = some eps) :
    env (result ops .addResidual) = fusedResidual (env x) (env residual) ∧
      env (result ops .weightMul) =
        fusedNormalized (env x) (env residual) (env weight) (env eps) := by
  have hids : g.opIds.Nodup := (nodup_append.mp hc.nodup).1
  have hhead := fun role => IRGraph.env_head hc henv (h.mem_and_name role).1
  have hname := fun role => (h.mem_and_name role).2
  have hadd : env (result ops .addResidual) = fusedResidual (env x) (env residual) := by
    obtain ⟨x', residual', rest, hoperands, hx', hresidual'⟩ := h.operands
    cases hx.symm.trans hx'
    cases hresidual.symm.trans hresidual'
    rw [hhead .addResidual, hoperands, map_cons, map_cons,
      meaning_add (by simpa [Role.names] using hname .addResidual) (halpha _ (by simp)),
      addScaled_one]
  have hpow : env (result ops .pow) =
      (env (result ops .addResidual)).map fun a => a.map fun x => x ^ ((2 : ℚ) : ℝ) := by
    obtain ⟨op, hop, hexponent⟩ := hlegal.pow
    cases (h.opOf_eq hids .pow).symm.trans hop
    obtain ⟨v, rest, hoperands, hvalue⟩ := h.link_value henv .addResidual .pow
    rw [hhead .pow, hoperands, map_cons,
      meaning_pow (by simpa [Role.names] using hname .pow) (of_decide_eq_true hexponent), hvalue]
  have hmean : env (result ops .mean) =
      (env (result ops .pow)).bind fun a => a.mean (-1) true := by
    obtain ⟨op, hop, hdim, hkeep⟩ := hlegal.mean
    cases (h.opOf_eq hids .mean).symm.trans hop
    have hdim? : (ops .mean).dim? = some (-1) := dim?_of_attrEquals (by simpa using hdim)
    obtain ⟨v, rest, hoperands, hvalue⟩ := h.link_value henv .pow .mean
    rw [hhead .mean, hoperands, map_cons,
      meaning_mean (by simpa [Role.names] using hname .mean) hdim?, hvalue,
      keepdim_of_get? hkeep]
  have hepsAdd : env (result ops .epsAdd) = addScaled 1 (env (result ops .mean)) (env eps) := by
    obtain ⟨v, w, hv, hw, hvalue, hvalue'⟩ :=
      h.slot_value henv .mean .epsAdd .epsConst 0 1 heps
    obtain ⟨rest, hoperands⟩ := eq_cons_cons_of_get hv hw
    rw [hhead .epsAdd, hoperands, map_cons, map_cons,
      meaning_add (.inl (by simpa [Role.names] using hname .epsAdd)) (halpha _ (by simp)), hvalue,
      hvalue']
  have hrsqrt : env (result ops .rsqrt) = (env (result ops .epsAdd)).map ExactTensor.rsqrt := by
    obtain ⟨v, rest, hoperands, hvalue⟩ := h.link_value henv .epsAdd .rsqrt
    rw [hhead .rsqrt, hoperands, map_cons,
      meaning_rsqrt (by simpa [Role.names] using hname .rsqrt), hvalue]
  have hscale : env (result ops .scale) =
      mulTensors (env (result ops .addResidual)) (env (result ops .rsqrt)) := by
    have hbase := h.base hc hprod (show (Role.addResidual, Role.pow, 0) ∈ ROLE_LINKS by decide)
      (show (ValueRole.residualNew, 0) ∈ Role.pow.operandRoles by decide)
    obtain ⟨w, v, hw, hv, hvalue', hvalue⟩ :=
      h.slot_value henv .rsqrt .scale .residualNew 1 0 hbase
    obtain ⟨rest, hoperands⟩ := eq_cons_cons_of_get hv hw
    rw [hhead .scale, hoperands, map_cons, map_cons,
      meaning_mul (by simpa [Role.names] using hname .scale), hvalue, hvalue']
  have hmul : env (result ops .weightMul) = mulTensors (env (result ops .scale)) (env weight) := by
    obtain ⟨v, w, hv, hw, hvalue, hvalue'⟩ :=
      h.slot_value henv .scale .weightMul .weight 0 1 hweight
    obtain ⟨rest, hoperands⟩ := eq_cons_cons_of_get hv hw
    rw [hhead .weightMul, hoperands, map_cons, map_cons,
      meaning_mul (by simpa [Role.names] using hname .weightMul), hvalue, hvalue']
  refine ⟨hadd, ?_⟩
  rw [hmul, hscale, hrsqrt, hepsAdd, hmean, hpow, hadd, fusedNormalized_eq]

end Found

/-! ### One commit -/

/-- A site whose rewrite changes no output: both of its additions have the factor one, and nothing
outside reads what only the site knows. -/
structure ExactSite (g : IRGraph) (candidate : StructuralCandidate) : Prop where
  alpha : ∀ role ∈ [Role.addResidual, .epsAdd], ∀ op, candidate.opOf g role = .ok op →
    op.alpha? = some 1
  closed : ∀ site, g.site candidate = .ok site → ∀ op ∈ g.removedOps candidate, ∀ v ∈ op.results,
    v ≠ site.output → v ≠ site.residualNew →
      (∀ kept ∈ g.keptOps candidate, v ∉ kept.operands) ∧ v ∉ g.outputs

section

variable {g : IRGraph} {candidate : StructuralCandidate} {ops : Role → IROp} {site : IRGraph.Site}

/-- What a rewrite has read off its site. -/
structure Site.Reads (g : IRGraph) (candidate : StructuralCandidate) (ops : Role → IROp)
    (site : IRGraph.Site) : Prop where
  x : candidate.valueBindings.get? .x = some site.x
  residual : candidate.valueBindings.get? .residual = some site.residual
  weight : candidate.valueBindings.get? .weight = some site.weight
  eps : candidate.valueBindings.get? .epsConst = some site.eps
  output : site.output = Found.result ops .weightMul
  residualNew : site.residualNew = Found.result ops .addResidual

section

variable (h : Found g candidate ops) (hc : g.Checked) (hprod : g.ProducedOnce)

include h hc hprod

theorem Found.reads (hsite : g.site candidate = .ok site) : Site.Reads g candidate ops site := by
  have hids : g.opIds.Nodup := (nodup_append.mp hc.nodup).1
  obtain ⟨residualNew, hresidualNew, hsite⟩ := bind_ok_iff.mp hsite
  obtain ⟨weightMulOp, hweightMul, hsite⟩ := bind_ok_iff.mp hsite
  cases (h.opOf_eq hids .weightMul).symm.trans hweightMul
  obtain ⟨output, rest, hresults⟩ := exists_cons_of_ne_nil
    (hc.produces _ (h.mem_and_name .weightMul).1)
  rw [hresults] at hsite
  obtain ⟨output', houtput, hsite⟩ := bind_ok_iff.mp hsite
  cases houtput
  obtain ⟨x, hx, hsite⟩ := bind_ok_iff.mp hsite
  obtain ⟨residual, hresidual, hsite⟩ := bind_ok_iff.mp hsite
  obtain ⟨weight, hweight, hsite⟩ := bind_ok_iff.mp hsite
  obtain ⟨eps, heps, hsite⟩ := bind_ok_iff.mp hsite
  obtain ⟨addOp, -, hsite⟩ := bind_ok_iff.mp hsite
  obtain ⟨epsOp, -, hsite⟩ := bind_ok_iff.mp hsite
  cases hsite
  refine ⟨binding_eq_ok.mp hx, binding_eq_ok.mp hresidual, binding_eq_ok.mp hweight,
    binding_eq_ok.mp heps, ?_, ?_⟩
  · rw [Found.result, hresults]
    rfl
  · have hbase := h.base hc hprod (show (Role.addResidual, Role.pow, 0) ∈ ROLE_LINKS by decide)
      (show (ValueRole.residualNew, 0) ∈ Role.pow.operandRoles by decide)
    exact Option.some.inj ((binding_eq_ok.mp hresidualNew).symm.trans hbase)

/-- The two values that a site hands out are different ones. -/
theorem Found.results_ne : Found.result ops .weightMul ≠ Found.result ops .addResidual := by
  intro heq
  have hmem := fun role => IRGraph.head_mem hc (h.mem_and_name role).1
  have hsame : ops .weightMul = ops .addResidual := by
    refine hprod.1 _ (h.mem_and_name _).1 _ (h.mem_and_name _).1 _ (hmem .weightMul).1 ?_
    show Found.result ops .weightMul ∈ _
    rw [heq]
    exact (hmem .addResidual).1
  have hname := (h.mem_and_name .weightMul).2
  have hname' := (h.mem_and_name .addResidual).2
  rw [hsame] at hname
  simp only [Role.names, mem_cons, not_mem_nil, or_false] at hname hname'
  rw [hname] at hname'
  revert hname'
  decide

/-- **What satisfies a graph satisfies the rewritten one.** -/
theorem rebuilt_solves
    (hlegal : Legal g candidate) (hexact : ExactSite g candidate)
    (hsite : g.site candidate = .ok site) {other : OtherOps} {env : String → Option ExactTensor}
    (henv : (opFlow other).Solves g.ops env) :
    (opFlow other).Solves (g.rebuilt candidate site).ops env := by
  have hids : g.opIds.Nodup := (nodup_append.mp hc.nodup).1
  have hreads := h.reads hc hprod hsite
  intro op hop v hv
  rcases mem_append.mp hop with hkept | hfused
  · exact henv op (IRGraph.mem_keptOps.mp hkept).1 v hv
  · obtain rfl := mem_singleton.mp hfused
    obtain ⟨hadd, hmul⟩ := h.value hc hprod hlegal
      (fun role hrole => hexact.alpha role hrole _ (h.opOf_eq hids role)) henv hreads.x
      hreads.residual hreads.weight hreads.eps
    show env v = IROp.meaning other (g.fusedOp candidate site)
      [env site.x, env site.residual, env site.weight, env site.eps]
      ([site.output, site.residualNew].idxOf v)
    rw [meaning_fused rfl]
    have hne : site.output ≠ site.residualNew := by
      rw [hreads.output, hreads.residualNew]
      exact h.results_ne hc hprod
    replace hv : v ∈ [site.output, site.residualNew] := hv
    rw [mem_pair] at hv
    rcases hv with rfl | rfl
    · rw [idxOf_cons_self, if_pos rfl, ← hmul, hreads.output]
    · rw [idxOf_cons_ne _ hne, if_neg (by simp), ← hadd,
        hreads.residualNew]

end

/-- What a site hands out is a result of two operations that the rewrite takes out. -/
theorem Site.Reads.removed (hreads : Site.Reads g candidate ops site)
    (h : Found g candidate ops) (hc : g.Checked) {v : String}
    (hv : v ∈ [site.output, site.residualNew]) :
    ∃ op ∈ g.removedOps candidate, v ∈ op.results := by
  have hmem := fun role => (IRGraph.head_mem hc (h.mem_and_name role).1).1
  rw [mem_pair] at hv
  rcases hv with rfl | rfl
  · exact ⟨_, h.removed .weightMul, hreads.output ▸ hmem .weightMul⟩
  · exact ⟨_, h.removed .addResidual, hreads.residualNew ▸ hmem .addResidual⟩

/-- What comes from somewhere still does, unless only the site knew it. -/
theorem produced_rebuilt (hexact : ExactSite g candidate) (hsite : g.site candidate = .ok site)
    {v : String} (hv : g.Produced v)
    (hused : (∃ kept ∈ g.keptOps candidate, v ∈ kept.operands) ∨ v ∈ g.outputs) :
    (g.rebuilt candidate site).Produced v := by
  rcases hv with hin | ⟨op, hop, hv⟩
  · exact .inl hin
  · by_cases hid : op.opId ∈ candidate.patternOpIds
    · -- the site hands it out
      have hmem : v ∈ [site.output, site.residualNew] := by
        by_contra hnot
        rw [mem_pair, not_or] at hnot
        obtain ⟨hkept, hout⟩ := hexact.closed site hsite op
          (IRGraph.mem_removedOps.mpr ⟨hop, hid⟩) v hv hnot.1 hnot.2
        rcases hused with ⟨kept, hin, hread⟩ | hread
        · exact hkept kept hin hread
        · exact hout hread
      exact .inr ⟨_, mem_append_right _ mem_cons_self, hmem⟩
    · exact .inr ⟨op, mem_append_left _ (IRGraph.mem_keptOps.mpr ⟨hop, hid⟩), hv⟩

/-- **A commit keeps a graph well defined.** -/
theorem rebuilt_wellDefined (hok : g.ok = true) (hwd : g.WellDefined) (h : Found g candidate ops)
    (hexact : ExactSite g candidate) (hsite : g.site candidate = .ok site)
    (hok' : (g.rebuilt candidate site).ok = true) : (g.rebuilt candidate site).WellDefined := by
  have hc := IRGraph.checked_of_ok hok
  obtain ⟨hprod, hoperands, houtputs⟩ := (IRGraph.accepted_wellDefined_iff hok).mp hwd
  have hreads := h.reads hc hprod hsite
  -- no operation that was kept has a result of the fused one
  have hclash : ∀ op ∈ g.keptOps candidate, ∀ v ∈ op.results,
      v ∉ [site.output, site.residualNew] := by
    intro op hop v hv hmem
    obtain ⟨op', hop', hv'⟩ := hreads.removed h hc hmem
    obtain ⟨hin, hid⟩ := IRGraph.mem_keptOps.mp hop
    obtain ⟨hin', hid'⟩ := IRGraph.mem_removedOps.mp hop'
    obtain rfl := hprod.1 op hin op' hin' v hv hv'
    exact hid hid'
  refine (IRGraph.accepted_wellDefined_iff hok').mpr ⟨⟨?_, ?_⟩, ?_, ?_⟩
  · intro op hop op' hop' v hv hv'
    rcases mem_append.mp hop with hkept | hfused
    · rcases mem_append.mp hop' with hkept' | hfused'
      · exact hprod.1 op (IRGraph.mem_keptOps.mp hkept).1 op' (IRGraph.mem_keptOps.mp hkept').1 v
          hv hv'
      · obtain rfl := mem_singleton.mp hfused'
        exact absurd hv' (hclash op hkept v hv)
    · rcases mem_append.mp hop' with hkept' | hfused'
      · obtain rfl := mem_singleton.mp hfused
        exact absurd hv (hclash op' hkept' v hv')
      · exact (mem_singleton.mp hfused).trans (mem_singleton.mp hfused').symm
  · intro op hop v hv
    rcases mem_append.mp hop with hkept | hfused
    · exact hprod.2 op (IRGraph.mem_keptOps.mp hkept).1 v hv
    · obtain rfl := mem_singleton.mp hfused
      obtain ⟨op', hop', hv'⟩ := hreads.removed h hc hv
      exact hprod.2 op' (IRGraph.mem_removedOps.mp hop').1 v hv'
  · intro op hop v hv
    rcases mem_append.mp hop with hkept | hfused
    · exact produced_rebuilt hexact hsite (hoperands op (IRGraph.mem_keptOps.mp hkept).1 v hv)
        (.inl ⟨op, hkept, hv⟩)
    · obtain rfl := mem_singleton.mp hfused
      have hinput : ∀ vr ∈ INPUT_VALUE_ROLES, ∀ u, candidate.valueBindings.get? vr = some u →
          u ∈ g.inputs := by
        intro vr hvr u hu
        obtain ⟨u', hin, hu'⟩ := h.inputs vr hvr
        cases hu.symm.trans hu'
        exact hin
      replace hv : v ∈ [site.x, site.residual, site.weight, site.eps] := hv
      fin_cases hv
      · exact .inl (hinput .x (by decide) _ hreads.x)
      · exact .inl (hinput .residual (by decide) _ hreads.residual)
      · exact .inl (hinput .weight (by decide) _ hreads.weight)
      · exact .inl (hinput .epsConst (by decide) _ hreads.eps)
  · exact fun v hv => produced_rebuilt hexact hsite (houtputs v hv) (.inr hv)

/-- The same inputs, the same outputs, and the same values for them. -/
structure SameMeaning (g g' : IRGraph) : Prop where
  inputs : g'.inputs = g.inputs
  outputs : g'.outputs = g.outputs
  denote : ∀ (other : OtherOps) (input : String → ExactTensor), ∀ v ∈ g.outputs,
    g'.denote other input v = g.denote other input v

theorem SameMeaning.refl (g : IRGraph) : SameMeaning g g := ⟨rfl, rfl, fun _ _ _ _ => rfl⟩

theorem SameMeaning.trans {g g' g'' : IRGraph} (h : SameMeaning g g') (h' : SameMeaning g' g'') :
    SameMeaning g g'' := by
  refine ⟨h'.inputs.trans h.inputs, h'.outputs.trans h.outputs, fun other input v hv => ?_⟩
  rw [h'.denote other input v (h.outputs ▸ hv), h.denote other input v hv]

/-- **One commit** of an exact site. -/
theorem Commit.sameMeaning {g' : IRGraph} (hok : g.ok = true) (hwd : g.WellDefined)
    (h : Found g candidate ops) (hcommit : Commit g candidate g') (hexact : ExactSite g candidate) :
    g'.WellDefined ∧ SameMeaning g g' := by
  have hc := IRGraph.checked_of_ok hok
  have hids : g.opIds.Nodup := (nodup_append.mp hc.nodup).1
  have hok' := hcommit.ok
  obtain ⟨site, hsite, rfl, -⟩ := hcommit.rebuilt
  have hids' : (g.rebuilt candidate site).opIds.Nodup :=
    (nodup_append.mp (IRGraph.checked_of_ok hok').nodup).1
  have hwd' := rebuilt_wellDefined hok hwd h hexact hsite hok'
  refine ⟨hwd', rfl, rfl, fun other input v hv => ?_⟩
  obtain ⟨hsolves, hinput⟩ := IRGraph.denote_solves other input hids hwd
  apply IRGraph.denote_unique other input hids' hwd'
  · exact rebuilt_solves h hc hwd.once hcommit.legal hexact hsite hsolves
  · exact hinput
  · exact hwd'.outputs v hv

end

/-! ### A pass -/

/-- **A run of exact sites.** -/
theorem PassRun.sameMeaning {g g' : IRGraph} {steps : List (IRGraph × StructuralCandidate)}
    (h : PassRun g steps g') (hok : g.ok = true) (hwd : g.WellDefined)
    (hexact : ∀ step ∈ steps, ExactSite step.1 step.2) : SameMeaning g g' := by
  induction h with
  | nil g => exact SameMeaning.refl g
  | cons hfind hmem hcommit hrun ih =>
    rw [forall_mem_cons] at hexact
    obtain ⟨ops, hfound⟩ :=
      IRGraph.found_of_mem (IRGraph.checked_of_ok hok) hfind hmem hcommit.legal.complete
    obtain ⟨hwd', hsame⟩ := hcommit.sameMeaning hok hwd hfound hexact.1
    exact hsame.trans (ih hcommit.ok hwd' hexact.2)

/-- **The pass keeps the meaning of a graph** that says of each value where it comes from, when both
additions of every site that it fuses have the factor one and nothing outside reads what only the
site knows. -/
theorem pass_meaning {g : IRGraph} (hok : g.ok = true) (hwd : g.WellDefined)
    {outcome : PassOutcome} (h : runFusedAddRmsnormPass g = .ok outcome) :
    (∃ steps, PassRun g steps outcome.graph ∧ outcome.rewriteCount = steps.length) ∧
      ∀ steps, PassRun g steps outcome.graph → (∀ step ∈ steps, ExactSite step.1 step.2) →
        SameMeaning g outcome.graph :=
  ⟨runFusedAddRmsnormPass_run h, fun _ hrun => hrun.sameMeaning hok hwd⟩

/-! ### A pass that keeps the meaning, and one that does not -/

theorem normGraph_wellDefined {attrs : Attrs} {effects : EffectSet}
    (hok : (normGraph attrs effects).ok = true) : (normGraph attrs effects).WellDefined := by
  apply (IRGraph.accepted_wellDefined_iff hok).mpr
  refine ⟨⟨?_, ?_⟩, ?_, ?_⟩ <;> simp [normGraph, fixtureGraph, fixtureOp, IRGraph.Produced]

/-- Does nothing outside read what only the site knows? -/
def closedAt (g : IRGraph) (candidate : StructuralCandidate) : Bool :=
  match g.site candidate with
  | .error _ => true
  | .ok site => (g.removedOps candidate).all fun op => op.results.all fun v =>
      v = site.output || v = site.residualNew ||
        ((g.keptOps candidate).all (v ∉ ·.operands) && v ∉ g.outputs)

theorem closedAt_closed {g : IRGraph} {candidate : StructuralCandidate}
    (h : closedAt g candidate = true) {site : IRGraph.Site} (hsite : g.site candidate = .ok site) :
    ∀ op ∈ g.removedOps candidate, ∀ v ∈ op.results, v ≠ site.output → v ≠ site.residualNew →
      (∀ kept ∈ g.keptOps candidate, v ∉ kept.operands) ∧ v ∉ g.outputs := by
  intro op hop v hv houtput hresidual
  rw [closedAt, hsite] at h
  have hall := all_eq_true.mp (all_eq_true.mp h op hop) v hv
  simpa [houtput, hresidual] using hall

theorem norm_graph_keeps_meaning :
    ∃ outcome, runFusedAddRmsnormPass (normGraph .empty pureEffects) = .ok outcome ∧
      outcome.rewriteCount = 1 ∧ SameMeaning (normGraph .empty pureEffects) outcome.graph := by
  have hok : (normGraph .empty pureEffects).ok = true := by decide
  have hcount : (match runFusedAddRmsnormPass (normGraph .empty pureEffects) with
      | .ok outcome => outcome.rewriteCount = 1
      | .error _ => false) = true := by decide +kernel
  have hclosed : (match (normGraph .empty pureEffects).findCandidates with
      | .ok candidates => candidates.all fun c => !c.complete ||
          closedAt (normGraph .empty pureEffects) c
      | .error _ => false) = true := by decide
  split at hcount
  · rename_i outcome houtcome
    obtain ⟨⟨steps, hrun, hlen⟩, hsame⟩ := pass_meaning hok (normGraph_wellDefined hok) houtcome
    refine ⟨outcome, houtcome, of_decide_eq_true hcount, hsame steps hrun ?_⟩
    rw [of_decide_eq_true hcount] at hlen
    obtain ⟨candidates, candidate, hmem, hfind, hcommit, rfl⟩ := hrun.single hlen.symm
    refine forall_mem_cons.mpr ⟨⟨?_, fun site hsite => closedAt_closed ?_ hsite⟩, nofun⟩
    · intro role _ op hop
      obtain ⟨opId, -, hfind'⟩ := IRGraph.opOf_eq_ok hop
      have hall : ∀ op ∈ (normGraph .empty pureEffects).ops, op.attrs.get? "alpha" = none := by
        decide +kernel
      rw [IROp.alpha?, hall op (IRGraph.op?_some hfind').1]
    · rw [hfind] at hclosed
      have := all_eq_true.mp hclosed candidate hmem
      simpa [hcommit.legal.complete] using this
  · cases hcount

def alphaAttrs : Attrs := ⟨[("alpha", .int 2)], by simp⟩

/-- The residual counts twice. -/
def scaledGraph : IRGraph := normGraph alphaAttrs pureEffects

/-- A graph of one fused operation, whose operands are inputs. -/
structure FusedOnly (g : IRGraph) : Prop where
  ok : g.ok = true
  inputs : g.inputs = ["ph_x", "ph_r", "ph_w", "ph_eps", "ph_two"]
  outputs : g.outputs = ["v_y", "v_r"]
  ops : ∃ op, g.ops = [op] ∧ op.semanticOp = "hqsb::fused_add_rms_norm" ∧
    op.operands = ["ph_x", "ph_r", "ph_w", "ph_eps"] ∧ op.results = ["v_y", "v_r"]

theorem FusedOnly.residual {g : IRGraph} (h : FusedOnly g) (other : OtherOps)
    (input : String → ExactTensor) :
    g.denote other input "v_r" = fusedResidual (some (input "ph_x")) (some (input "ph_r")) := by
  obtain ⟨op, hops, hname, hoperands, hresults⟩ := h.ops
  have hwd : g.WellDefined := by
    apply (IRGraph.accepted_wellDefined_iff h.ok).mpr
    refine ⟨⟨?_, ?_⟩, ?_, ?_⟩ <;>
      simp [hops, hoperands, hresults, h.inputs, h.outputs, IRGraph.Produced]
  have hids := (nodup_append.mp (IRGraph.checked_of_ok h.ok).nodup).1
  obtain ⟨hsolves, hinput⟩ := IRGraph.denote_solves other input hids hwd
  rw [hsolves op (by simp [hops]) "v_r" (by simp [opFlow, hresults])]
  show op.meaning other (op.operands.map _) (op.results.idxOf "v_r") = _
  rw [hoperands, hresults, map_cons, map_cons, map_cons, map_cons, map_nil,
    meaning_fused hname, hinput "ph_x" (by simp [h.inputs]), hinput "ph_r" (by simp [h.inputs])]
  rfl

theorem scaledGraph_residual (other : OtherOps) (input : String → ExactTensor)
    (hok : scaledGraph.ok = true) :
    scaledGraph.denote other input "v_r" =
      addScaled 2 (some (input "ph_x")) (some (input "ph_r")) := by
  have hc := IRGraph.checked_of_ok hok
  obtain ⟨hsolves, hinput⟩ := IRGraph.denote_solves other input (nodup_append.mp hc.nodup).1
    (normGraph_wellDefined hok)
  have hadd : fixtureOp "o_add" "aten.add" ["ph_x", "ph_r"] ["v_r"] alphaAttrs ∈ scaledGraph.ops :=
    .head _
  refine (IRGraph.env_head hc hsolves hadd).trans ?_
  show IROp.meaning other _ [scaledGraph.denote other input "ph_x",
    scaledGraph.denote other input "ph_r"] 0 = _
  rw [meaning_add (.inl rfl) (show _ = some 2 by rfl), hinput "ph_x" mem_cons_self,
    hinput "ph_r" (.tail _ mem_cons_self)]

/-- **The pass drops the factor of an addition.** -/
theorem scaled_residual_lost :
    scaledGraph.ok = true ∧ scaledGraph.WellDefined ∧
      ∃ outcome, runFusedAddRmsnormPass scaledGraph = .ok outcome ∧
        ∃ (other : OtherOps) (input : String → ExactTensor), ∃ v ∈ scaledGraph.outputs,
          outcome.graph.denote other input v ≠ scaledGraph.denote other input v := by
  have hok : scaledGraph.ok = true := by decide
  refine ⟨hok, normGraph_wellDefined hok, ?_⟩
  have hfused : (match runFusedAddRmsnormPass scaledGraph with
      | .ok outcome => outcome.graph.inputs = ["ph_x", "ph_r", "ph_w", "ph_eps", "ph_two"] &&
          outcome.graph.outputs = ["v_y", "v_r"] &&
          outcome.graph.ops.map (fun op => (op.semanticOp, op.operands, op.results)) =
            [("hqsb::fused_add_rms_norm", ["ph_x", "ph_r", "ph_w", "ph_eps"], ["v_y", "v_r"])]
      | .error _ => false) = true := by decide +kernel
  split at hfused
  · rename_i outcome houtcome
    simp only [Bool.and_eq_true, decide_eq_true_eq] at hfused
    obtain ⟨⟨hinputs, houtputs⟩, hops⟩ := hfused
    obtain ⟨op, hop, hkind⟩ := map_eq_singleton_iff.mp hops
    obtain ⟨steps, hrun, -⟩ := runFusedAddRmsnormPass_run houtcome
    have hfused : FusedOnly outcome.graph :=
      ⟨(hrun.ok hok).1, hinputs, houtputs, op, hop, by simpa using hkind⟩
    let input : String → ExactTensor := fun v => ⟨[], fun _ => if v = "ph_x" then 0 else 1⟩
    refine ⟨outcome, houtcome, fun _ _ _ => none, input, "v_r", mem_pair.mpr (.inr rfl), ?_⟩
    rw [hfused.residual, scaledGraph_residual _ _ hok]
    simp [fusedResidual, addScaled, ExactTensor.zipWith, ExactTensor.broadcastDims, input,
      funext_iff]
  · cases hfused

end Hqsb.Compiler
