/-
Hqsb/Compiler/MatcherSites.lean

What the matcher has found when it reports a complete site, and what it raises.

Casts are looked through in both directions: forward from the result of one role to the operand of
the next, backward from an operand to the value that is bound.  Both are chains of `CastOf` steps
(`walkCasts_mem`, `resolveCasts_eq_ok`).  `Found` collects what a complete site has: an operation
for each role, the link to the role in front of it, and the values its operands are bound to.

In a graph that the verifier accepts the matcher fails for one reason only: an operand that it
resolves sits behind eight casts or more (`findCandidates_error`).  Whatever it reports, complete or
not, the ids of a site are those of operations of the graph (`findCandidates_roles`).
-/
import Hqsb.Compiler.Matcher
import Hqsb.Lib.Traverse

namespace Hqsb.Compiler

open Lib Relation List OrderedDict

theorem Role.name_ne_empty (role : Role) : role.name ≠ "" := by
  cases role <;> decide

/-! ### Looking through casts -/

namespace IRGraph

variable (g : IRGraph)

/-- `v` is a result of a cast of `u`. -/
def CastOf (v u : String) : Prop :=
  ∃ op ∈ g.ops, op.isCast = true ∧ op.operands = [u] ∧ v ∈ op.results

/-- The last operation that lists `v`, if there is one, is no cast. -/
def Uncast (v : String) : Prop :=
  ∀ opId op, g.producerOf v = some opId → g.op? opId = some op → op.isCast = false

def CastIds (ids : List String) : Prop := ∀ id ∈ ids, ∃ op ∈ g.ops, op.opId = id ∧ op.isCast = true

variable {g}

theorem CastIds.nil : g.CastIds [] := nofun

theorem CastIds.append {ids ids' : List String} (h : g.CastIds ids) (h' : g.CastIds ids') :
    g.CastIds (ids ++ ids') := fun id hid =>
  (mem_append.mp hid).elim (h id) (h' id)

variable {op : IROp} {v : String} {casts : List String} {turns : Nat}

theorem CastIds.snoc {ids : List String} (h : g.CastIds ids) (hop : op ∈ g.ops)
    (hcast : op.isCast = true) : g.CastIds (ids ++ [op.opId]) :=
  h.append fun _ hid => ⟨op, hop, (mem_singleton.mp hid).symm, hcast⟩

theorem isCast_operands (h : op.isCast = true) : ∃ u, op.operands = [u] := by
  rw [IROp.isCast, Bool.and_eq_true] at h
  exact length_eq_one_iff.mp (of_decide_eq_true h.2)

theorem opOrRaise_eq_ok {opId : String} : g.opOrRaise opId = .ok op ↔ g.op? opId = some op := by
  rw [opOrRaise]
  split <;> simp_all

theorem op?_producerOf (hids : g.opIds.Nodup) {opId : String} (h : g.producerOf v = some opId) :
    ∃ op ∈ g.ops, op.opId = opId ∧ v ∈ op.results ∧ g.op? opId = some op := by
  obtain ⟨op, hop, rfl, hv⟩ := producerOf_some h
  exact ⟨op, hop, rfl, hv, op?_of_mem hids hop⟩

theorem resolveCasts_of_none (h : g.producerOf v = none) :
    g.resolveCasts (turns + 1) v casts = .ok (v, casts) := by
  rw [resolveCasts, h]
  rfl

theorem resolveCasts_of_op (hnamed : op.opId ≠ "") (h : g.producerOf v = some op.opId)
    (hfind : g.op? op.opId = some op) :
    g.resolveCasts (turns + 1) v casts =
      match op.isCast, op.operands with
      | true, operand :: _ => g.resolveCasts turns operand (casts ++ [op.opId])
      | _, _ => .ok (v, casts) := by
  rw [resolveCasts, h, Option.filter_some, if_pos (by simpa using hnamed)]
  dsimp only
  rw [opOrRaise, hfind]
  rfl

/-- **Backward.**  Resolving a value goes down a chain of casts, to a value that is no cast. -/
theorem resolveCasts_eq_ok (hc : g.Checked) {base : String} {casts' : List String}
    (h : g.resolveCasts turns v casts = .ok (base, casts')) :
    ReflTransGen g.CastOf v base ∧ g.Uncast base ∧ (g.CastIds casts → g.CastIds casts') := by
  have hids : g.opIds.Nodup := (nodup_append.mp hc.nodup).1
  induction turns generalizing v casts with
  | zero => cases h
  | succ turns ih =>
    rcases hp : g.producerOf v with - | opId
    · rw [resolveCasts_of_none hp] at h
      cases h
      exact ⟨.refl, fun _ _ hsome => (nomatch hp.symm.trans hsome), id⟩
    · obtain ⟨op, hop, rfl, hv, hfind⟩ := op?_producerOf hids hp
      rw [resolveCasts_of_op (hc.named op hop) hp hfind] at h
      rcases hcast : op.isCast
      · -- the producer is no cast: this is the base
        rw [hcast] at h
        cases h
        refine ⟨.refl, fun opId' op' hp' hfind' => ?_, id⟩
        cases hp.symm.trans hp'
        cases hfind.symm.trans hfind'
        exact hcast
      · obtain ⟨u, hu⟩ := isCast_operands hcast
        rw [hcast, hu] at h
        obtain ⟨hchain, hbase, hall⟩ := ih h
        exact ⟨.head ⟨op, hop, hcast, hu, hv⟩ hchain, hbase,
          fun hcasts => hall (hcasts.snoc hop hcast)⟩

theorem consumersOf_mem (hids : g.opIds.Nodup) {i : Nat} (h : (op, i) ∈ g.consumersOf v) :
    op ∈ g.ops ∧ op.operands[i]? = some v := by
  obtain ⟨op', hop', h⟩ := mem_flatMap.mp h
  obtain ⟨j, -, h⟩ := mem_filterMap.mp h
  split_ifs at h with hv
  rw [op?_of_mem hids hop'] at h
  cases h
  exact ⟨hop', hv⟩

/-- What has been reached on the way forward from a value. -/
def Reached (g : IRGraph) (start : String) (frontier : List (String × List String)) : Prop :=
  ∀ entry ∈ frontier, ReflTransGen g.CastOf entry.1 start ∧ g.CastIds entry.2

def Consumes (g : IRGraph) (start : String) (consumer : IROp × Nat × List String) : Prop :=
  consumer.1 ∈ g.ops ∧ g.CastIds consumer.2.2 ∧
    ∃ v, consumer.1.operands[consumer.2.1]? = some v ∧ ReflTransGen g.CastOf v start

/-- **Forward.**  A consumer behind casts reads a value at the end of a chain of casts. -/
theorem walkCasts_mem (hids : g.opIds.Nodup) {fuel : Nat} {start : String}
    {frontier : List (String × List String)} {seen : List String}
    (h : g.Reached start frontier) {consumer : IROp × Nat × List String}
    (hmem : consumer ∈ g.walkCasts fuel frontier seen) : g.Consumes start consumer := by
  induction fuel generalizing frontier seen with
  | zero =>
    cases hmem
  | succ fuel ih =>
    rcases frontier with - | ⟨⟨current, chain⟩, frontier⟩
    · rw [walkCasts] at hmem
      · cases hmem
      · exact nofun
    · obtain ⟨hcurrent, hchain⟩ := h _ mem_cons_self
      have hrest : g.Reached start frontier := fun entry hentry => h entry (.tail _ hentry)
      rw [walkCasts] at hmem
      -- one turn keeps the frontier reached, and reports consumers only
      generalize hturn : (g.consumersOf current).foldl _ (frontier, seen, []) = turn at hmem
      have hkept : g.Reached start turn.1 ∧ ∀ c ∈ turn.2.2, g.Consumes start c := by
        subst hturn
        refine List.foldlRecOn (motive := fun acc : List (String × List String) × List String ×
            List (IROp × Nat × List String) => g.Reached start acc.1 ∧
              ∀ c ∈ acc.2.2, g.Consumes start c) _ _ ⟨hrest, nofun⟩ fun acc hacc next hnext => ?_
        obtain ⟨op, i⟩ := next
        obtain ⟨hop, hv⟩ := consumersOf_mem hids hnext
        dsimp only
        split
        · rename_i result _ hcast hresults
          split_ifs
          · exact hacc
          · refine ⟨fun entry hentry => ?_, hacc.2⟩
            rcases mem_append.mp hentry with hentry | hentry
            · exact hacc.1 entry hentry
            · obtain rfl := mem_singleton.mp hentry
              obtain ⟨u, hu⟩ := isCast_operands hcast
              have hi : u = current := by
                rw [hu] at hv
                rcases i with - | i
                · exact Option.some.inj hv
                · cases hv
              refine ⟨.head ⟨op, hop, hcast, hu.trans (by rw [hi]), ?_⟩ hcurrent,
                hchain.snoc hop hcast⟩
              rw [hresults]
              exact .head _
        · refine ⟨hacc.1, fun c hc => ?_⟩
          rcases mem_append.mp hc with hc | hc
          · exact hacc.2 c hc
          · obtain rfl := mem_singleton.mp hc
            exact ⟨hop, hchain, current, hv, hcurrent⟩
      rcases mem_append.mp hmem with hmem | hmem
      · exact hkept.2 _ hmem
      · exact ih hkept.1 hmem

theorem consumersThroughCasts_mem (hids : g.opIds.Nodup) {consumer : IROp × Nat × List String}
    (h : consumer ∈ g.consumersThroughCasts v) :
    g.Consumes v consumer := by
  refine walkCasts_mem hids (fun entry hentry => ?_) h
  obtain rfl := mem_singleton.mp hentry
  exact ⟨.refl, .nil⟩

/-! ### One role -/

/-- A value role of an operation: the operand, and the value behind casts that it is bound to. -/
def Bound (g : IRGraph) (values : OrderedDict ValueRole String) (op : IROp)
    (slot : ValueRole × Nat) : Prop :=
  ∃ v base, op.operands[slot.2]? = some v ∧ ReflTransGen g.CastOf v base ∧ g.Uncast base ∧
    values.get? slot.1 = some base

theorem label_ne_empty (a b : String) : a ++ ":" ++ b ≠ "" := by
  intro h
  have := congrArg String.length h
  simp at this

theorem append_comma_ne_empty (a b : String) : a ++ "," ++ b ≠ "" := by
  intro h
  have := congrArg String.length h
  simp at this

theorem bindOperands_eq_ok (hc : g.Checked) {role : Role} {slots : List (ValueRole × Nat)}
    {w w' : Walk} (h : g.bindOperands role op slots w = .ok w') (hmissing : w'.missing = "") :
    w.missing = "" ∧ w'.roles = w.roles ∧ w'.matched = w.matched ∧
      (g.CastIds w.casts → g.CastIds w'.casts) ∧
      (∀ vr v, w.values.get? vr = some v → w'.values.get? vr = some v) ∧
      ∀ slot ∈ slots, g.Bound w'.values op slot := by
  induction slots generalizing w with
  | nil =>
    cases h
    exact ⟨hmissing, rfl, rfl, id, fun _ _ => id, nofun⟩
  | cons slot slots ih =>
    obtain ⟨vr, i⟩ := slot
    rw [bindOperands] at h
    split at h
    · cases h
      exact absurd hmissing (label_ne_empty _ _)
    · rename_i v hv
      obtain ⟨⟨base, castOps⟩, hresolve, h⟩ := bind_ok_iff.mp h
      obtain ⟨hchain, hbase, hcasts⟩ := resolveCasts_eq_ok hc hresolve
      dsimp only at h
      split_ifs at h with hclash
      · cases h
        refine absurd hmissing ?_
        show role.name ++ ":" ++ vr.name ++ "_mismatch" ≠ ""
        rw [String.append_assoc]
        exact label_ne_empty _ _
      · obtain ⟨hw, hroles, hmatched, hcasts', hvalues, hslots⟩ := ih h
        refine ⟨hw, hroles, hmatched, fun hids => hcasts' (hids.append (hcasts .nil)), ?_, ?_⟩
        · intro vr' v' hget
          apply hvalues
          by_cases hvr : vr' = vr
          · -- bound before: the new value is the old one
            subst hvr
            rw [hget] at hclash
            have hsame : v' = base := by simpa using hclash
            rw [get?_set_self, hsame]
          · rw [get?_set_of_ne _ _ hvr]
            exact hget
        · refine forall_mem_cons.mpr ⟨⟨v, base, hv, hchain, hbase, ?_⟩, hslots⟩
          exact hvalues _ _ (get?_set_self _ _ _)

/-- A role that has been followed: an operation that reads the result of the role in front of it,
behind casts, and whose operands are bound. -/
structure Followed (g : IRGraph) (previous : String) (next : Role × Nat) (op : IROp)
    (values : OrderedDict ValueRole String) : Prop where
  mem : op ∈ g.ops
  name : op.semanticOp ∈ next.1.names
  link : ∃ v, op.operands[next.2]? = some v ∧ ReflTransGen g.CastOf v previous
  operands : ∀ slot ∈ next.1.operandRoles, g.Bound values op slot

/-- **One step of the walk**, when nothing is missing behind it. -/
theorem follow_eq_ok (hc : g.Checked) {w w' : Walk} {next : Role × Nat}
    (h : g.follow w next = .ok w') (hmissing : w'.missing = "") :
    w.missing = "" ∧ (g.CastIds w.casts → g.CastIds w'.casts) ∧
      (∀ vr v, w.values.get? vr = some v → w'.values.get? vr = some v) ∧
      ∃ op, g.Followed w.previous next op w'.values ∧ w'.previous = op.results.headD "" ∧
        w'.roles = w.roles.set next.1 op.opId := by
  obtain ⟨role, position⟩ := next
  rw [follow] at h
  split_ifs at h with hw
  · cases h
    exact absurd hmissing hw
  · dsimp only at h
    split at h
    · cases h
      exact absurd hmissing role.name_ne_empty
    · rename_i op i chain hfound
      obtain ⟨w₁, hbind, h⟩ := bind_ok_iff.mp h
      cases h
      obtain ⟨-, hroles, -, hcasts, hvalues, hslots⟩ := bindOperands_eq_ok hc hbind hmissing
      obtain ⟨hop, hchain, v, hv, hlink⟩ :=
        consumersThroughCasts_mem (nodup_append.mp hc.nodup).1 (mem_of_find?_eq_some hfound)
      have hfits := List.find?_some hfound
      rw [Bool.and_eq_true, decide_eq_true_eq, decide_eq_true_eq] at hfits
      refine ⟨not_not.mp hw, fun hids => hcasts (hids.append hchain), hvalues, op, ?_, rfl, hroles⟩
      exact ⟨hop, hfits.1, ⟨v, hfits.2 ▸ hv, hlink⟩, hslots⟩

theorem Followed.mono {previous : String} {next : Role × Nat}
    {values values' : OrderedDict ValueRole String} (h : g.Followed previous next op values)
    (hvalues : ∀ vr v, values.get? vr = some v → values'.get? vr = some v) :
    g.Followed previous next op values' := by
  refine ⟨h.mem, h.name, h.link, fun slot hslot => ?_⟩
  obtain ⟨v, base, hv, hchain, hbase, hget⟩ := h.operands slot hslot
  exact ⟨v, base, hv, hchain, hbase, hvalues _ _ hget⟩

end IRGraph

/-! ### Complete sites -/

theorem binding_eq_ok {candidate : StructuralCandidate} {vr : ValueRole} {v : String} :
    candidate.binding vr = .ok v ↔ candidate.valueBindings.get? vr = some v := by
  rw [StructuralCandidate.binding]
  rcases candidate.valueBindings.get? vr with - | v'
  · exact ⟨nofun, nofun⟩
  · exact ⟨fun h => congrArg some (Except.ok.inj h), fun h => congrArg Except.ok (Option.some.inj h)⟩

/-- The roles, each with the role in front of it and the operand position that links them. -/
def ROLE_LINKS : List (Role × Role × Nat) :=
  (Role.addResidual :: FOLLOWING_ROLES.map Prod.fst).zip FOLLOWING_ROLES

theorem exists_link (role : Role) :
    role = .addResidual ∨ ∃ previous position, (previous, role, position) ∈ ROLE_LINKS := by
  cases role
  · exact .inl rfl
  · exact .inr ⟨.addResidual, 0, by decide⟩
  · exact .inr ⟨.pow, 0, by decide⟩
  · exact .inr ⟨.mean, 0, by decide⟩
  · exact .inr ⟨.epsAdd, 0, by decide⟩
  · exact .inr ⟨.rsqrt, 1, by decide⟩
  · exact .inr ⟨.scale, 0, by decide⟩

/-- What a complete site has: its operations, `ops`, and what the values are bound to. -/
structure Found (g : IRGraph) (candidate : StructuralCandidate) (ops : Role → IROp) : Prop where
  anchor : ops .addResidual ∈ g.ops ∧ (ops .addResidual).semanticOp ∈ Role.addResidual.names
  operands : ∃ x residual rest, (ops .addResidual).operands = x :: residual :: rest ∧
    candidate.valueBindings.get? .x = some x ∧ candidate.valueBindings.get? .residual = some residual
  roleOps : ∀ role, candidate.roleOps.get? role = some (ops role).opId
  followed : ∀ link ∈ ROLE_LINKS, g.Followed ((ops link.1).results.headD "") link.2 (ops link.2.1)
    candidate.valueBindings
  inputs : ∀ vr ∈ INPUT_VALUE_ROLES, ∃ v ∈ g.inputs, candidate.valueBindings.get? vr = some v
  castOps : g.CastIds candidate.castOps
  siteId : candidate.siteId = "site_" ++ (ops .addResidual).opId

namespace IRGraph

variable {g : IRGraph}

theorem notInputs_eq_nil {values : OrderedDict ValueRole String} (h : g.notInputs values = []) :
    ∀ vr ∈ INPUT_VALUE_ROLES, ∃ v ∈ g.inputs, values.get? vr = some v := by
  intro vr hvr
  have hbound := filter_eq_nil_iff.mp h vr hvr
  rcases hget : values.get? vr with - | v
  · simp [hget] at hbound
  · refine ⟨v, ?_, rfl⟩
    simpa [hget] using hbound

theorem intercalate_eq_empty {l : List String} (hl : ∀ s ∈ l, s ≠ "")
    (h : ",".intercalate l = "") : l = [] := by
  match l with
  | [] => rfl
  | [s] =>
    exact absurd h (hl s mem_cons_self)
  | s :: t :: l =>
    rw [String.intercalate_cons_cons] at h
    exact absurd h (append_comma_ne_empty _ _)

def siteOps (addResidual pow mean epsAdd rsqrt scale weightMul : IROp) : Role → IROp
  | .addResidual => addResidual
  | .pow => pow
  | .mean => mean
  | .epsAdd => epsAdd
  | .rsqrt => rsqrt
  | .scale => scale
  | .weightMul => weightMul

theorem found_of_candidateAt (hc : g.Checked) {anchor : IROp} (hanchor : anchor ∈ g.ops)
    (hnames : isAnchor anchor = true) {candidate : StructuralCandidate}
    (h : g.candidateAt anchor = .ok candidate) (hcomplete : candidate.complete = true) :
    ∃ ops, Found g candidate ops ∧ ops .addResidual = anchor := by
  obtain ⟨w, hwalk, h⟩ := bind_ok_iff.mp h
  cases h
  rw [Bool.and_eq_true, decide_eq_true_eq] at hcomplete
  obtain ⟨hmissing, -⟩ := hcomplete
  have hw : w.missing = "" := by
    by_contra hne
    rw [if_neg hne] at hmissing
    exact hne hmissing
  rw [if_pos hw] at hmissing
  obtain ⟨w₁, h₁, hwalk⟩ := bind_ok_iff.mp hwalk
  obtain ⟨w₂, h₂, hwalk⟩ := bind_ok_iff.mp hwalk
  obtain ⟨w₃, h₃, hwalk⟩ := bind_ok_iff.mp hwalk
  obtain ⟨w₄, h₄, hwalk⟩ := bind_ok_iff.mp hwalk
  obtain ⟨w₅, h₅, hwalk⟩ := bind_ok_iff.mp hwalk
  obtain ⟨w₆, h₆, hwalk⟩ := bind_ok_iff.mp hwalk
  cases hwalk
  obtain ⟨hw₅, hids₆, hvalues₆, weightMul, hweightMul, -, hroles₆⟩ := follow_eq_ok hc h₆ hw
  obtain ⟨hw₄, hids₅, hvalues₅, scale, hscale, hprev₅, hroles₅⟩ := follow_eq_ok hc h₅ hw₅
  obtain ⟨hw₃, hids₄, hvalues₄, rsqrt, hrsqrt, hprev₄, hroles₄⟩ := follow_eq_ok hc h₄ hw₄
  obtain ⟨hw₂, hids₃, hvalues₃, epsAdd, hepsAdd, hprev₃, hroles₃⟩ := follow_eq_ok hc h₃ hw₃
  obtain ⟨hw₁, hids₂, hvalues₂, mean, hmean, hprev₂, hroles₂⟩ := follow_eq_ok hc h₂ hw₂
  obtain ⟨-, hids₁, hvalues₁, pow, hpow, hprev₁, hroles₁⟩ := follow_eq_ok hc h₁ hw₁
  have hroles : w.roles = (((((((OrderedDict.empty.set .addResidual anchor.opId).set .pow
      pow.opId).set .mean mean.opId).set .epsAdd epsAdd.opId).set .rsqrt rsqrt.opId).set .scale
      scale.opId).set .weightMul weightMul.opId) := by
    rw [hroles₆, hroles₅, hroles₄, hroles₃, hroles₂, hroles₁]
    rfl
  refine ⟨siteOps anchor pow mean epsAdd rsqrt scale weightMul, ?_, rfl⟩
  have hvalues : ∀ vr v, w₁.values.get? vr = some v → w.values.get? vr = some v := fun vr v hv =>
    hvalues₆ _ _ (hvalues₅ _ _ (hvalues₄ _ _ (hvalues₃ _ _ (hvalues₂ _ _ hv))))
  rw [isAnchor, Bool.and_eq_true, decide_eq_true_eq] at hnames
  obtain ⟨x, residual, rest, hoperands⟩ :
      ∃ x residual rest, anchor.operands = x :: residual :: rest := by
    have hlength := hnames.2
    rcases hops : anchor.operands with - | ⟨x, - | ⟨residual, rest⟩⟩
    · simp [hops] at hlength
    · simp [hops] at hlength
    · exact ⟨x, residual, rest, rfl⟩
  constructor
  · exact ⟨hanchor, hnames.1⟩
  · refine ⟨x, residual, rest, hoperands, hvalues _ _ (hvalues₁ _ _ ?_), hvalues _ _ (hvalues₁ _ _ ?_)⟩
    · rw [startWalk, hoperands]
      rfl
    · rw [startWalk, hoperands]
      rfl
  · intro role
    rw [hroles]
    cases role <;> simp [get?_set, siteOps]
  · -- later steps leave bound what the earlier ones have bound
    have hv₂ := fun vr v hv => hvalues₆ vr v (hvalues₅ _ _ (hvalues₄ _ _ (hvalues₃ _ _ hv)))
    have hv₃ := fun vr v hv => hvalues₆ vr v (hvalues₅ _ _ (hvalues₄ _ _ hv))
    have hv₄ := fun vr v hv => hvalues₆ vr v (hvalues₅ _ _ hv)
    rw [show w₁.previous = pow.results.headD "" from hprev₁] at hmean
    rw [hprev₂] at hepsAdd
    rw [hprev₃] at hrsqrt
    rw [hprev₄] at hscale
    rw [hprev₅] at hweightMul
    rintro link hlink
    simp only [ROLE_LINKS, FOLLOWING_ROLES, map_cons, zip_cons_cons,
      zip_nil_right, mem_cons, not_mem_nil, or_false] at hlink
    rcases hlink with rfl | rfl | rfl | rfl | rfl | rfl
    · exact hpow.mono hvalues
    · exact hmean.mono hv₂
    · exact hepsAdd.mono hv₃
    · exact hrsqrt.mono hv₄
    · exact hscale.mono hvalues₆
    · exact hweightMul
  · refine notInputs_eq_nil (map_eq_nil_iff.mp (intercalate_eq_empty ?_ hmissing))
    intro s hs
    obtain ⟨vr, -, rfl⟩ := mem_map.mp hs
    intro hempty
    have := congrArg String.length hempty
    simp at this
  · intro id hid
    rw [mem_insertionSort, mem_dedup] at hid
    exact hids₆ (hids₅ (hids₄ (hids₃ (hids₂ (hids₁ .nil))))) id hid
  · rfl

/-- **What the matcher reports as complete is found.** -/
theorem found_of_mem (hc : g.Checked) {candidates : List StructuralCandidate}
    (h : g.findCandidates = .ok candidates) {candidate : StructuralCandidate}
    (hmem : candidate ∈ candidates) (hcomplete : candidate.complete = true) :
    ∃ ops, Found g candidate ops := by
  obtain ⟨anchor, hanchor, hat⟩ : ∃ anchor ∈ g.ops.filter isAnchor,
      g.candidateAt anchor = .ok candidate := exists_of_mem_mapM h hmem
  obtain ⟨hin, hnames⟩ := mem_filter.mp hanchor
  obtain ⟨ops, hfound, -⟩ := found_of_candidateAt hc hin hnames hat hcomplete
  exact ⟨ops, hfound⟩

end IRGraph

theorem not_fused_of_cast {op : IROp} (h : op.isCast = true) :
    op.semanticOp ≠ "hqsb::fused_add_rms_norm" := by
  intro hfused
  simp [IROp.isCast, hfused, DECOMPOSITION_CAST_OPS] at h

theorem not_fused_of_names {op : IROp} {role : Role} (h : op.semanticOp ∈ role.names) :
    op.semanticOp ≠ "hqsb::fused_add_rms_norm" := by
  intro hfused
  rw [hfused] at h
  revert h
  cases role <;> decide

namespace Found

variable {g : IRGraph} {candidate : StructuralCandidate} {ops : Role → IROp}

theorem mem_and_name (h : Found g candidate ops) (role : Role) :
    ops role ∈ g.ops ∧ (ops role).semanticOp ∈ role.names := by
  rcases exists_link role with rfl | ⟨previous, position, hlink⟩
  · exact h.anchor
  · exact ⟨(h.followed _ hlink).mem, (h.followed _ hlink).name⟩

theorem opOf_eq (h : Found g candidate ops) (hids : g.opIds.Nodup) (role : Role) :
    candidate.opOf g role = .ok (ops role) := by
  rw [StructuralCandidate.opOf, StructuralCandidate.roleOp, h.roleOps]
  exact IRGraph.opOrRaise_eq_ok.mpr (IRGraph.op?_of_mem hids (h.mem_and_name role).1)

theorem mem_patternOpIds (h : Found g candidate ops) {opId : String}
    (hid : opId ∈ candidate.patternOpIds) :
    ∃ op ∈ g.ops, op.opId = opId ∧ (op.isCast = true ∨ ∃ role, op = ops role) := by
  rcases mem_append.mp hid with hrole | hcast
  · obtain ⟨role, hget⟩ := (mem_values_iff _).mp hrole
    rw [h.roleOps] at hget
    exact ⟨ops role, (h.mem_and_name role).1, Option.some.inj hget, .inr ⟨role, rfl⟩⟩
  · obtain ⟨op, hop, hid, hcast⟩ := h.castOps _ hcast
    exact ⟨op, hop, hid, .inl hcast⟩

theorem not_fused (h : Found g candidate ops) (hids : g.opIds.Nodup) {op : IROp} (hop : op ∈ g.ops)
    (hid : op.opId ∈ candidate.patternOpIds) : op.semanticOp ≠ "hqsb::fused_add_rms_norm" := by
  obtain ⟨op', hop', hid', hkind⟩ := h.mem_patternOpIds hid
  obtain rfl : op' = op := inj_on_of_nodup_map hids hop' hop hid'
  rcases hkind with hcast | ⟨role, rfl⟩
  · exact not_fused_of_cast hcast
  · exact not_fused_of_names (h.mem_and_name role).2

end Found

namespace IRGraph

/-! ### Deep chains -/

/-- A value sits behind at least so many casts. -/
def CastDepth (g : IRGraph) : ℕ → String → Prop
  | 0, _ => True
  | n + 1, v => ∃ u, g.CastOf v u ∧ CastDepth g n u

/-- An operand of an operation that can play a role sits behind eight casts. -/
def DeepCasts (g : IRGraph) : Prop :=
  ∃ op ∈ g.ops, (∃ role : Role, op.semanticOp ∈ role.names) ∧ ∃ v ∈ op.operands, g.CastDepth 8 v

variable {g : IRGraph} {e : RewriteError} {op : IROp} {w : Walk}

theorem resolveCasts_error (hc : g.Checked) {turns : ℕ} {v : String} {casts : List String}
    (h : g.resolveCasts turns v casts = .error e) :
    e = .castChainTooDeep ∧ g.CastDepth turns v := by
  have hids : g.opIds.Nodup := (List.nodup_append.mp hc.nodup).1
  induction turns generalizing v casts with
  | zero =>
    cases h
    exact ⟨rfl, trivial⟩
  | succ turns ih =>
    rcases hp : g.producerOf v with - | opId
    · rw [resolveCasts_of_none hp] at h
      cases h
    · obtain ⟨op, hop, rfl, hv, hfind⟩ := op?_producerOf hids hp
      rw [resolveCasts_of_op (hc.named op hop) hp hfind] at h
      rcases hcast : op.isCast
      · rw [hcast] at h
        cases h
      · obtain ⟨u, hu⟩ := isCast_operands hcast
        rw [hcast, hu] at h
        obtain ⟨he, hdepth⟩ := ih h
        exact ⟨he, u, ⟨op, hop, hcast, hu, hv⟩, hdepth⟩

theorem bindOperands_error (hc : g.Checked) {role : Role} {slots : List (ValueRole × Nat)}
    (h : g.bindOperands role op slots w = .error e) :
    e = .castChainTooDeep ∧ ∃ v ∈ op.operands, g.CastDepth 8 v := by
  induction slots generalizing w with
  | nil => cases h
  | cons slot slots ih =>
    rw [bindOperands] at h
    split at h
    · cases h
    · rename_i v hv
      rcases hresolve : g.resolveThroughCasts v with e' | ⟨base, castOps⟩
      · rw [hresolve] at h
        cases h
        obtain ⟨he, hdepth⟩ := resolveCasts_error hc hresolve
        exact ⟨he, v, List.mem_of_getElem? hv, hdepth⟩
      · rw [hresolve] at h
        replace h : (if _ then _ else _) = _ := h
        split_ifs at h
        exact ih h

theorem follow_error (hc : g.Checked) {next : Role × Nat} (h : g.follow w next = .error e) :
    e = .castChainTooDeep ∧ g.DeepCasts := by
  obtain ⟨role, position⟩ := next
  rw [follow] at h
  split_ifs at h
  dsimp only at h
  split at h
  · cases h
  · rename_i op i chain hfound
    obtain ⟨hop, -⟩ :=
      consumersThroughCasts_mem (List.nodup_append.mp hc.nodup).1 (List.mem_of_find?_eq_some hfound)
    have hfits := List.find?_some hfound
    rw [Bool.and_eq_true, decide_eq_true_eq] at hfits
    generalize hbind : g.bindOperands role op role.operandRoles _ = bound at h
    rcases bound with e' | w'
    · cases h
      obtain ⟨he, hdeep⟩ := bindOperands_error hc hbind
      exact ⟨he, op, hop, ⟨role, hfits.1⟩, hdeep⟩
    · cases h

/-- **The matcher fails on deep chains only.** -/
theorem findCandidates_error (hc : g.Checked) (h : g.findCandidates = .error e) :
    e = .castChainTooDeep ∧ g.DeepCasts := by
  obtain ⟨anchor, -, hanchor⟩ := exists_of_mapM_eq_error h
  rw [candidateAt] at hanchor
  rcases hwalk : FOLLOWING_ROLES.foldlM g.follow (g.startWalk anchor) with e' | w
  · rw [hwalk] at hanchor
    cases hanchor
    obtain ⟨next, -, s, hnext⟩ := exists_of_foldlM_eq_error hwalk
    exact follow_error hc hnext
  · rw [hwalk] at hanchor
    cases hanchor

/-! ### Roles of any site -/

/-- The roles of a walk are played by operations of the graph. -/
def RolesIn (g : IRGraph) (roles : OrderedDict Role String) : Prop :=
  ∀ id ∈ roles.values, ∃ op ∈ g.ops, op.opId = id

theorem RolesIn.set {roles : OrderedDict Role String} (h : g.RolesIn roles) (hop : op ∈ g.ops)
    (role : Role) : g.RolesIn (roles.set role op.opId) := by
  intro id hid
  obtain ⟨role', hget⟩ := (OrderedDict.mem_values_iff _).mp hid
  rw [OrderedDict.get?_set] at hget
  split_ifs at hget
  · exact ⟨op, hop, Option.some.inj hget⟩
  · exact h id ((OrderedDict.mem_values_iff _).mpr ⟨role', hget⟩)

theorem bindOperands_roles {role : Role} {slots : List (ValueRole × Nat)} {w' : Walk}
    (h : g.bindOperands role op slots w = .ok w') : w'.roles = w.roles := by
  induction slots generalizing w with
  | nil =>
    cases h
    rfl
  | cons slot slots ih =>
    rw [bindOperands] at h
    split at h
    · cases h
      rfl
    · obtain ⟨⟨base, castOps⟩, -, h⟩ := bind_ok_iff.mp h
      dsimp only at h
      split_ifs at h
      · cases h
        rfl
      · have hroles := ih h
        exact hroles

theorem follow_roles (hc : g.Checked) {w' : Walk} {next : Role × Nat}
    (h : g.follow w next = .ok w') (hw : g.RolesIn w.roles) : g.RolesIn w'.roles := by
  obtain ⟨role, position⟩ := next
  rw [follow] at h
  split_ifs at h
  · cases h
    exact hw
  · dsimp only at h
    split at h
    · cases h
      exact hw
    · rename_i op i chain hfound
      obtain ⟨w₁, hbind, h⟩ := bind_ok_iff.mp h
      cases h
      obtain ⟨hop, -⟩ := consumersThroughCasts_mem (List.nodup_append.mp hc.nodup).1
        (List.mem_of_find?_eq_some hfound)
      show g.RolesIn w₁.roles
      rw [bindOperands_roles hbind]
      exact hw.set hop role

theorem findCandidates_roles (hc : g.Checked) {candidates : List StructuralCandidate}
    (h : g.findCandidates = .ok candidates) :
    ∀ candidate ∈ candidates, g.RolesIn candidate.roleOps := by
  intro candidate hmem
  obtain ⟨anchor, hanchor, hat⟩ := exists_of_mem_mapM h hmem
  obtain ⟨w, hwalk, hat⟩ := bind_ok_iff.mp hat
  cases hat
  have hempty : g.RolesIn .empty := nofun
  have hstart : g.RolesIn (g.startWalk anchor).roles :=
    hempty.set (List.mem_of_mem_filter hanchor) .addResidual
  exact foldlM_invariant (P := fun _ w => g.RolesIn w.roles)
    (fun _ _ _ _ hw hstep => follow_roles hc hstep hw) (n := 0) hstart hwalk

end IRGraph

end Hqsb.Compiler
