/-
Hqsb/Distributed/PlanShards.lean

When a derived plan is complete and consistent.

Weight shards, heads and MLP slices come from three formulas.  They agree when the KV heads
are split evenly or replicated on every rank (`consistent_of_regular`); with uneven KV heads the
projections are replicated but the head shards are not marked so.  The ranks that the plan is
made for are not looked at while it is derived (`derived_consistent_iff`).
-/
import Hqsb.Distributed.PlanAudit

namespace Hqsb.Distributed

open Lib Lib.Tiling List OrderedDict

/-! ### The shards of one parameter -/

/-- The shard of a parameter that every rank holds. -/
def replicatedSpec (name : String) (shape : List Int) {degree : Nat} (hdegree : 1 ≤ degree) :
    ShardSpec :=
  { ParallelPlan.wholeShard name shape with
    shardCount := degree
    stop := shape.head?.getD 0
    count_pos := Int.ofNat_le.mpr hdegree
    index_mem := ⟨le_refl 0, Int.ofNat_lt.mpr hdegree⟩ }

variable {degree layer : Nat} {axis : ShardAxis} {shape : List Int} {name : String} {α : Type}
  (stem : String)

theorem replicatedShard_eq (name : String) (shape : List Int) (hdegree : 1 ≤ degree) :
    replicatedShard name shape degree = .ok (replicatedSpec name shape hdegree) :=
  (replicatedSpec name shape hdegree).make_self

/-- What is planned for a parameter. -/
inductive Planned (name : String) (shape : List Int) (degree : Nat) : List ShardSpec → Prop where
  | replicated (hdegree : 1 ≤ degree) : Planned name shape degree
      [replicatedSpec name shape hdegree]
  | cut {axis : ShardAxis} {total : Nat} (haxis : axis ≠ .none)
      (hlt : axis.index < shape.length) (htotal : shape[axis.index]? = some (total : Int)) :
      Planned name shape degree
        ((List.finRange degree).map (axisShard name shape axis total degree haxis hlt))

namespace Planned

variable {name : String} {shape : List Int} {degree : Nat} {specs : List ShardSpec}

theorem spec (h : Planned name shape degree specs) {spec : ShardSpec} (hspec : spec ∈ specs) :
    spec.paramName = name ∧ spec.globalShape = shape := by
  cases h with
  | replicated hdegree =>
    rw [mem_singleton.mp hspec]
    exact ⟨rfl, rfl⟩
  | cut haxis hlt htotal =>
    obtain ⟨i, -, rfl⟩ := mem_map.mp hspec
    exact ⟨rfl, rfl⟩

theorem ne_nil (h : Planned name shape degree specs) (hdegree : 1 ≤ degree) : specs ≠ [] := by
  cases h with
  | replicated => exact cons_ne_nil _ _
  | cut haxis hlt htotal =>
    rw [Ne, map_eq_nil_iff, finRange_eq_nil_iff]
    omega

end Planned

/-- The ranges of the shards of an axis are sorted, and lie end to end. -/
theorem laid_axisShards (name : String) (total : Nat) (haxis : axis ≠ .none)
    (hlt : axis.index < shape.length) (hdegree : 1 ≤ degree) :
    Laid 0 (sortedRanges ((List.finRange degree).map
      (axisShard name shape axis total degree haxis hlt))) total := by
  have hmono : Monotone fun i => ((cut (total / degree) (total % degree) i : Nat) : Int) :=
    fun i j h => Int.ofNat_le.mpr (cut_mono _ _ h)
  have hranges : ((List.finRange degree).map
      (axisShard name shape axis total degree haxis hlt)).map (fun s => (s.start, s.stop)) =
      (List.range' 0 degree).map fun i =>
        (((cut (total / degree) (total % degree) i : Nat) : Int),
          ((cut (total / degree) (total % degree) (i + 1) : Nat) : Int)) := by
    rw [← range_eq_range', map_range_eq_finRange, map_map]
    rfl
  have hsorted : sortedRanges ((List.finRange degree).map
      (axisShard name shape axis total degree haxis hlt)) =
      (List.range' 0 degree).map fun i =>
        (((cut (total / degree) (total % degree) i : Nat) : Int),
          ((cut (total / degree) (total % degree) (i + 1) : Nat) : Int)) := by
    rw [sortedRanges, hranges]
    refine mergeSort_of_pairwise ?_
    rw [pairwise_map, ← range_eq_range']
    refine pairwise_lt_range.imp fun {i j} hij => ?_
    have hstart := hmono hij.le
    have hstop := hmono (show i + 1 ≤ j + 1 from Nat.succ_le_succ hij.le)
    dsimp only at hstart hstop
    rw [decide_eq_true_eq]
    omega
  rw [hsorted]
  have hlaid : Laid ((cut (total / degree) (total % degree) 0 : Nat) : Int) _
      ((cut (total / degree) (total % degree) (0 + degree) : Nat) : Int) :=
    laid_of_monotone hmono degree
  rwa [zero_add, cut_total total hdegree, cut_zero] at hlaid

/-! ### All parameters -/

theorem make_paramName {index count start stop padding : Int} {replicated : Bool}
    {spec : ShardSpec}
    (h : ShardSpec.make name shape axis index count start stop padding replicated = .ok spec) :
    spec.paramName = name := by
  rw [ShardSpec.make] at h
  split_ifs at h
  rw [← Except.ok.inj h]

theorem paramName_of_planParameter {census : QwenArchitectureCensus} {allowPadding : Bool}
    {specs : List ShardSpec} (h : planParameter census degree allowPadding name shape = .ok specs) :
    ∀ spec ∈ specs, spec.paramName = name := by
  rw [planParameter_eq] at h
  split_ifs at h
  · obtain ⟨spec, hspec, rfl⟩ := exists_of_map_eq_ok h
    intro other hother
    rw [mem_singleton.mp hother]
    exact make_paramName hspec
  · rw [planAxisShards] at h
    obtain ⟨-, -, h⟩ := bind_ok_iff.mp h
    rcases hsize : shape[(roleOf name).axis.index]? with - | total
    · rw [hsize] at h
      cases h
    rw [hsize] at h
    split_ifs at h
    obtain ⟨-, -, h⟩ := bind_ok_iff.mp h
    obtain ⟨s, hloop, h⟩ := bind_ok_iff.mp h
    obtain ⟨-, -, h⟩ := bind_ok_iff.mp h
    cases h
    have hstart : ∀ spec ∈ ([] : List ShardSpec), spec.paramName = name := forall_mem_nil _
    refine foldlM_invariant (P := fun _ (s : List ShardSpec × Int) =>
      ∀ spec ∈ s.1, spec.paramName = name) ?_ (show _ from hstart) hloop (n := 0)
    intro _ s index s' hs hstep spec hspec
    obtain ⟨made, hmade, hstep⟩ := bind_ok_iff.mp hstep
    rw [← Except.ok.inj hstep] at hspec
    rcases mem_append.mp hspec with hspec | hspec
    · exact hs spec hspec
    · rw [mem_singleton.mp hspec]
      exact make_paramName hmade

/-- The shards of one of the parameters that were planned in turn. -/
theorem filter_flatten {κ ν : Type} [DecidableEq κ] {entries : List (κ × ν)} {β : Type}
    {plans : List (List β)} (key : β → κ)
    (h : List.Forall₂ (fun e plan => ∀ b ∈ plan, key b = e.1) entries plans)
    (hnodup : (entries.map Prod.fst).Nodup) {e : κ × ν} {plan : List β}
    (hmem : (e, plan) ∈ entries.zip plans) :
    plans.flatten.filter (fun b => key b = e.1) = plan := by
  induction h with
  | nil => cases hmem
  | @cons first head entries plans hhead htail ih =>
    obtain ⟨hnot, hnodup⟩ := nodup_cons.mp hnodup
    rw [flatten_cons, filter_append]
    rcases mem_cons.mp hmem with heq | hin
    · cases heq
      have hall : plan.filter (fun b => key b = e.1) = plan :=
        filter_eq_self.mpr fun b hb => decide_eq_true (hhead b hb)
      have hnone : plans.flatten.filter (fun b => key b = e.1) = [] := by
        refine filter_eq_nil_iff.mpr fun b hb hkey => hnot ?_
        obtain ⟨other, hother, hb⟩ := mem_flatten.mp hb
        obtain ⟨i, hi, rfl⟩ := mem_iff_getElem.mp hother
        have hlength := htail.length_eq
        have hi' : i < entries.length := hlength ▸ hi
        have hentry := (forall₂_iff_get.mp htail).2 i hi' hi b hb
        rw [← of_decide_eq_true hkey, hentry]
        exact mem_map_of_mem (get_mem _ _)
      rw [hall, hnone, append_nil]
    · have hne : first.1 ≠ e.1 := fun heq =>
        hnot (heq ▸ mem_map_of_mem (of_mem_zip hin).1)
      have hnone : head.filter (fun b => key b = e.1) = [] := by
        refine filter_eq_nil_iff.mpr fun b hb hkey => hne ?_
        rw [← hhead b hb]
        exact of_decide_eq_true hkey
      rw [hnone]
      exact ih hnodup hin

/-! ### What a derived plan is made of -/

theorem require_eq_ok_iff {condition : Prop} [Decidable condition] {field : String} {u : Unit} :
    require condition field = .ok u ↔ condition := by
  rw [require]
  split_ifs with h
  · exact iff_of_true rfl h
  · exact iff_of_false (fun h => by cases h) h

def attentionOf (census : QwenArchitectureCensus) (degree : Nat) (strategy : KvStrategy)
    (rank : Nat) : AttentionShard :=
  let qPerRank := census.numAttentionHeads / degree
  let owned := kvOwned census degree rank strategy
  { degree := degree
    qHeadsPerRank := qPerRank
    kvHeadsPerRank := owned.1
    kvReplicated := owned.2.1
    qRange := (rank * qPerRank, rank * qPerRank + qPerRank)
    kvRange := owned.2.2
    globalToLocalHead := (List.range qPerRank).map fun offset =>
      (rank * qPerRank + offset, offset) }

def mlpOf (census : QwenArchitectureCensus) (degree : Nat) (collective : String) (rank : Nat) :
    MlpShard :=
  let perRank := census.intermediateSize / degree
  { degree := degree
    intermediatePerRank := perRank
    gateRange := (rank * perRank, rank * perRank + perRank)
    upRange := (rank * perRank, rank * perRank + perRank)
    partialMergeCollective := collective }

variable {census : QwenArchitectureCensus} {degree rank : Nat} {strategy : KvStrategy}
  {collective : String} {ranks : List Int} {allowPadding : Bool} {plan : ParallelPlan}

theorem deriveAttentionShard_eq_ok {shard : AttentionShard}
    (h : deriveAttentionShard census degree rank (some strategy) = .ok shard) :
    (census.numAttentionHeads % degree = 0 ∨ strategy = .uneven) ∧
      shard = attentionOf census degree strategy rank := by
  obtain ⟨-, -, h⟩ := bind_ok_iff.mp h
  obtain ⟨-, -, h⟩ := bind_ok_iff.mp h
  obtain ⟨_, hdivides, h⟩ := bind_ok_iff.mp h
  exact ⟨require_eq_ok_iff.mp hdivides, (Except.ok.inj h).symm⟩

theorem deriveMlpShard_eq_ok {shard : MlpShard}
    (h : deriveMlpShard census degree rank collective = .ok shard) :
    census.intermediateSize % degree = 0 ∧ shard = mlpOf census degree collective rank := by
  obtain ⟨-, -, h⟩ := bind_ok_iff.mp h
  obtain ⟨_, hdivides, h⟩ := bind_ok_iff.mp h
  obtain ⟨-, -, h⟩ := bind_ok_iff.mp h
  exact ⟨require_eq_ok_iff.mp hdivides, (Except.ok.inj h).symm⟩

theorem mapM_range_eq_ok {f : Nat → Except PlanRaise α} {g : Nat → α} {P : Prop}
    (hf : ∀ rank a, f rank = .ok a → P ∧ a = g rank) (hdegree : 1 ≤ degree) {r : List α}
    (h : (List.range degree).mapM f = .ok r) : P ∧ r = (List.range degree).map g := by
  have hall : ∀ rank ∈ List.range degree, f rank = .ok (g rank) := by
    intro rank hrank
    obtain ⟨a, ha⟩ := exists_of_mapM_ok h hrank
    rw [ha, (hf rank a ha).2]
  refine ⟨(hf 0 _ (hall 0 (mem_range.mpr hdegree))).1, ?_⟩
  exact Except.ok.inj (h.symm.trans (mapM_eq_ok hall))

/-- The parts of a derived plan. -/
structure Derived (census : QwenArchitectureCensus) (degree : Nat) (ranks : List Int)
    (allowPadding : Bool) (collective : String) (plan : ParallelPlan) : Prop where
  degree_pos : 1 ≤ degree
  accepted : kvStrategyOf census degree allowPadding ≠ .reject
  heads : census.numAttentionHeads % degree = 0 ∨
    kvStrategyOf census degree allowPadding = .uneven
  intermediate : census.intermediateSize % degree = 0
  tpDegree : plan.tpDegree = degree
  orderedRanks : plan.orderedRanks = ranks
  fallback : plan.fallbackPolicy = "reject"
  predicate : plan.unsupportedPredicate ≠ ""
  attention : plan.attentionShards = (List.range degree).map
    (attentionOf census degree (kvStrategyOf census degree allowPadding))
  mlp : plan.mlpShards = (List.range degree).map (mlpOf census degree collective)
  shards : ∃ shards, census.parameterShapes.entries.mapM (fun e =>
    planParameter census degree allowPadding e.1 e.2) = .ok shards ∧
      plan.parameterShards = shards.flatten

theorem derived_of_ok (h : derivePlan census degree ranks allowPadding collective = .ok plan) :
    Derived census degree ranks allowPadding collective plan := by
  obtain ⟨capability, hcapability, h⟩ := bind_ok_iff.mp h
  obtain ⟨_, hsupported, h⟩ := bind_ok_iff.mp h
  obtain ⟨shards, hshards, h⟩ := bind_ok_iff.mp h
  obtain ⟨attention, hattention, h⟩ := bind_ok_iff.mp h
  obtain ⟨mlp, hmlp, h⟩ := bind_ok_iff.mp h
  cases h
  rw [tpCapability] at hcapability
  by_cases hdevices : degree < 1
  · rw [if_pos hdevices] at hcapability
    cases hcapability
  have hdegree : 1 ≤ degree := not_lt.mp hdevices
  rw [if_neg hdevices, dif_pos hdegree] at hcapability
  cases hcapability
  have haccepted : kvStrategyOf census degree allowPadding ≠ .reject := by
    intro hreject
    -- a refusal has a reason
    have hreasons : ∀ reasons : List CapabilityReason, ¬ (reasons ++
        if kvStrategyOf census degree allowPadding = .reject then
          [CapabilityReason.kvHeads] else []) ++
        (if kvStrategyOf census degree allowPadding = .replicate then
          [CapabilityReason.kvReplicated] else []) = [] := by
      intro reasons hnil
      rw [if_pos hreject] at hnil
      exact cons_ne_nil _ _ (append_eq_nil_iff.mp (append_eq_nil_iff.mp hnil).1).2
    exact require_eq_ok_iff.mp hsupported ⟨decide_eq_false (hreasons _), hreject⟩
  obtain ⟨hheads, rfl⟩ :=
    mapM_range_eq_ok (fun rank shard => deriveAttentionShard_eq_ok) hdegree hattention
  obtain ⟨hintermediate, rfl⟩ :=
    mapM_range_eq_ok (fun rank shard => deriveMlpShard_eq_ok) hdegree hmlp
  have hpredicate :
      "hidden/intermediate/head/vocab divisibility per tp_capability_matrix; anything " ++
        "else is PAD/UNEVEN/REJECT, never truncated" ≠ "" := by decide
  exact ⟨hdegree, haccepted, hheads, hintermediate, rfl, rfl, rfl, hpredicate, rfl, rfl, shards,
    hshards, rfl⟩

/-! ### The shards of a role -/

theorem shape_of_get? (h : census.parameterShapes.get? name = some shape) :
    (name, shape) ∈ census.shapeList :=
  (get?_foldl_set h).resolve_right fun hempty => nomatch hempty

theorem planParameter_replicated (hdegree : 1 ≤ degree)
    (hrole : roleOf name = .replicated ∨ roleOf name = .keyValue ∧ census.numKvHeads % degree ≠ 0) :
    planParameter census degree allowPadding name shape =
      .ok [replicatedSpec name shape hdegree] := by
  rw [planParameter_eq, if_pos hrole, replicatedShard_eq name shape hdegree]
  rfl

/-- A parameter that is cut, along an axis whose length the degree divides. -/
theorem planParameter_cut (hdegree : 1 ≤ degree) (hrole : ¬ (roleOf name = .replicated ∨
      roleOf name = .keyValue ∧ census.numKvHeads % degree ≠ 0))
    (haxis : (roleOf name).axis ≠ .none) {total : Nat}
    (htotal : shape[(roleOf name).axis.index]? = some (total : Int)) (hdvd : degree ∣ total) :
    planParameter census degree allowPadding name shape =
      .ok ((List.finRange degree).map
        (axisShard name shape (roleOf name).axis total degree haxis (lt_of_axis htotal))) := by
  rw [planParameter_eq, if_neg hrole]
  exact planAxisShards_eq haxis htotal hdegree (.inl hdvd)

/-- A bias without a role of its own is cut along an axis that it does not have. -/
theorem planParameter_other (hrole : roleOf name = .other) (hshape : shape[1]? = none)
    (specs : List ShardSpec) :
    planParameter census degree allowPadding name shape ≠ .ok specs := by
  intro h
  rw [planParameter_eq, hrole, planAxisShards] at h
  have hnone : shape[ParameterRole.other.axis.index]? = none := hshape
  rw [hnone] at h
  cases h

/-- The numbers that the degree has to divide. -/
structure Even (census : QwenArchitectureCensus) (degree : Nat) : Prop where
  heads : degree ∣ census.numAttentionHeads
  intermediate : degree ∣ census.intermediateSize

theorem Even.dvd_roleTotal (h : Even census degree) {role : ParameterRole}
    (hkv : role = .keyValue → census.numKvHeads % degree = 0) : degree ∣ roleTotal census role := by
  cases role with
  | query => exact h.heads.mul_right _
  | output => exact h.heads.mul_right _
  | keyValue => exact (Nat.dvd_of_mod_eq_zero (hkv rfl)).mul_right _
  | gateUp => exact h.intermediate
  | down => exact h.intermediate
  | replicated => exact dvd_zero degree
  | other => exact dvd_zero degree

theorem exists_planned (heven : Even census degree) (hdegree : 1 ≤ degree)
    (hshape : (name, shape) ∈ census.shapeList) (hrole : roleOf name ≠ .other) :
    ∃ specs, planParameter census degree allowPadding name shape = .ok specs ∧
      Planned name shape degree specs := by
  by_cases hreplicated : roleOf name = .replicated ∨
      roleOf name = .keyValue ∧ census.numKvHeads % degree ≠ 0
  · exact ⟨_, planParameter_replicated hdegree hreplicated, .replicated hdegree⟩
  have hdvd : degree ∣ roleTotal census (roleOf name) := heven.dvd_roleTotal fun hkv =>
    not_not.mp fun hne => hreplicated (.inr ⟨hkv, hne⟩)
  have hcut : (roleOf name).axis ≠ .none →
      shape[(roleOf name).axis.index]? = some (roleTotal census (roleOf name) : Int) →
      ∃ specs, planParameter census degree allowPadding name shape = .ok specs ∧
        Planned name shape degree specs := fun haxis htotal =>
    ⟨_, planParameter_cut hdegree hreplicated haxis htotal hdvd, .cut haxis _ htotal⟩
  have hof := (roleShape_of_mem hshape).1
  rcases hname : roleOf name with - | - | - | - | - | - | -
  case replicated => exact absurd (.inl hname) hreplicated
  case other => exact absurd hname hrole
  all_goals
    rw [hname] at hof hcut
    exact hcut (by decide) hof

/-- **Every parameter** of a plan with even parts is replicated or cut. -/
theorem planned_of_ok (heven : Even census degree) (hdegree : 1 ≤ degree)
    (hshape : (name, shape) ∈ census.shapeList) {specs : List ShardSpec}
    (h : planParameter census degree allowPadding name shape = .ok specs) :
    Planned name shape degree specs := by
  have hof := (roleShape_of_mem hshape).1
  by_cases hrole : roleOf name = .other
  · rw [hrole] at hof
    exact absurd h (planParameter_other hrole hof specs)
  · obtain ⟨specs', heq, hplanned⟩ := exists_planned heven hdegree hshape hrole
    cases h.symm.trans heq
    exact hplanned

/-! ### Consistency -/

/-- One shard of the parameter belongs to the rank, and it has the range. -/
def HasRange (plan : ParallelPlan) (name : String) (axis : ShardAxis) (rank : Nat)
    (range : Nat × Nat) : Prop :=
  ∃ spec : ShardSpec, (plan.shardsFor name).filter (fun s => s.shardIndex = (rank : Int)) = [spec] ∧
    spec.shardAxis = axis ∧ spec.start = range.1 ∧ spec.stop = range.2

def scaleRange (range : Nat × Nat) (headDim : Nat) : Nat × Nat :=
  (range.1 * headDim, range.2 * headDim)

def InRange (range : Nat × Nat) (head : Nat) : Prop := range.1 ≤ head ∧ head < range.2

/-- The projections of a layer that belong together, weight first. -/
def queryNames (stem : String) : List String :=
  [stem ++ ".self_attn.q_proj.weight", stem ++ ".self_attn.q_proj.bias"]

def keyNames (stem : String) : List String :=
  [stem ++ ".self_attn.k_proj.weight", stem ++ ".self_attn.k_proj.bias"]

def valueNames (stem : String) : List String :=
  [stem ++ ".self_attn.v_proj.weight", stem ++ ".self_attn.v_proj.bias"]

def gateUpNames (stem : String) : List String :=
  [stem ++ ".mlp.gate_proj.weight", stem ++ ".mlp.gate_proj.bias",
    stem ++ ".mlp.up_proj.weight", stem ++ ".mlp.up_proj.bias"]

def NotCut (plan : ParallelPlan) (name : String) : Prop :=
  ∀ spec ∈ plan.shardsFor name, spec.shardAxis = .none

/-- The head shard of a rank agrees with the weight shards of a layer. -/
structure HeadsAgree (census : QwenArchitectureCensus) (plan : ParallelPlan) (stem : String)
    (rank : Nat) (shard : AttentionShard) : Prop where
  query : ∀ name ∈ queryNames stem, name ∈ census.parameterShapes.keys →
    HasRange plan name .row rank (scaleRange shard.qRange census.headDim)
  keyValue : ∀ name ∈ keyNames stem ++ valueNames stem, name ∈ census.parameterShapes.keys →
    ¬ NotCut plan name → HasRange plan name .row rank (scaleRange shard.kvRange census.headDim)
  replicated : shard.kvReplicated = true ↔ NotCut plan (stem ++ ".self_attn.k_proj.weight")
  output : HasRange plan (stem ++ ".self_attn.o_proj.weight") .column rank
    (scaleRange shard.qRange census.headDim)

/-- The MLP slice of a rank agrees with the weight shards of a layer. -/
structure SliceAgrees (census : QwenArchitectureCensus) (plan : ParallelPlan) (stem : String)
    (rank : Nat) (shard : MlpShard) : Prop where
  same : shard.gateRange = shard.upRange
  gateUp : ∀ name ∈ gateUpNames stem, name ∈ census.parameterShapes.keys →
    HasRange plan name .row rank shard.gateRange
  down : HasRange plan (stem ++ ".mlp.down_proj.weight") .column rank shard.gateRange

/-- A plan that is complete and consistent. -/
structure Consistent (census : QwenArchitectureCensus) (degree : Nat) (plan : ParallelPlan) :
    Prop where
  valid : plan.validate (some census) = .ok []
  ranks : plan.attentionShards.length = degree ∧ plan.mlpShards.length = degree
  queries : ∀ head < census.numAttentionHeads, ∃! rank : Nat, ∃ shard : AttentionShard,
    plan.attentionShards[rank]? = some shard ∧ InRange shard.qRange head
  inside : ∀ shard ∈ plan.attentionShards, ∀ head, InRange shard.qRange head →
    head < census.numAttentionHeads ∧ InRange shard.kvRange (head / census.headGroups)
  attention : ∀ (rank : Nat) shard, plan.attentionShards[rank]? = some shard →
    ∀ layer < census.numLayers,
      HeadsAgree census plan (QwenArchitectureCensus.layerStem layer) rank shard
  mlp : ∀ (rank : Nat) shard, plan.mlpShards[rank]? = some shard → ∀ layer < census.numLayers,
    SliceAgrees census plan (QwenArchitectureCensus.layerStem layer) rank shard

/-! ### The shards of a name -/

/-- What is planned for a parameter is what the plan has for its name. -/
theorem Derived.shardsFor (h : Derived census degree ranks allowPadding collective plan)
    (hshape : census.parameterShapes.get? name = some shape) :
    planParameter census degree allowPadding name shape = .ok (plan.shardsFor name) := by
  obtain ⟨shards, hmap, hflat⟩ := h.shards
  have hall := mapM_eq_ok_iff.mp hmap
  have hentry := (get?_eq_some_iff _).mp hshape
  obtain ⟨i, hi, heq⟩ := mem_iff_getElem.mp hentry
  have hi' : i < shards.length := hall.length_eq ▸ hi
  have hplan := (forall₂_iff_get.mp hall).2 i hi hi'
  simp only [get_eq_getElem, heq] at hplan
  have hkeys : List.Forall₂ (fun (e : String × List Int) plan =>
      ∀ spec : ShardSpec, spec ∈ plan → spec.paramName = e.1)
      census.parameterShapes.entries shards := by
    refine forall₂_iff_get.mpr ⟨hall.length_eq, fun j hj hj' => ?_⟩
    exact paramName_of_planParameter ((forall₂_iff_get.mp hall).2 j hj hj')
  have hzip : ((name, shape), shards[i]) ∈ census.parameterShapes.entries.zip shards := by
    rw [mem_iff_getElem]
    refine ⟨i, by rw [length_zip]; omega, ?_⟩
    rw [getElem_zip, heq]
  have hfilter := filter_flatten ShardSpec.paramName hkeys
    census.parameterShapes.nodup hzip
  rw [hplan, ParallelPlan.shardsFor, hflat, hfilter]

theorem hasRange_of_cut {base : Nat} (haxis : axis ≠ .none) (hlt : axis.index < shape.length)
    (hshards : plan.shardsFor name = (List.finRange degree).map
      (axisShard name shape axis (degree * base) degree haxis hlt)) (hrank : rank < degree) :
    HasRange plan name axis rank (rank * base, rank * base + base) := by
  have hfilter : (List.finRange degree).filter (fun i => (i.val : Int) = (rank : Int)) =
      [⟨rank, hrank⟩] := by
    have heq : (List.finRange degree).filter (fun i => (i.val : Int) = (rank : Int)) =
        (List.finRange degree).filter (fun i => i = ⟨rank, hrank⟩) := by
      refine filter_congr fun i _ => decide_eq_decide.mpr ?_
      rw [Int.ofNat_inj, Fin.ext_iff]
    rw [heq, filter_eq, count_eq_one_of_mem (nodup_finRange degree)
      (mem_finRange _)]
    rfl
  refine ⟨axisShard name shape axis (degree * base) degree haxis hlt ⟨rank, hrank⟩, ?_, rfl, ?_, ?_⟩
  · rw [hshards, filter_map]
    exact congrArg (List.map _) hfilter
  · exact axisShard_start haxis hlt base ⟨rank, hrank⟩
  · rw [axisShard_stop haxis hlt base ⟨rank, hrank⟩, Nat.succ_mul]

section Even

variable (h : Derived census degree ranks allowPadding collective plan)
  (heven : Even census degree)

include h heven

theorem planned_shardsFor {name : String} {shape : List Int}
    (hshape : census.parameterShapes.get? name = some shape) :
    Planned name shape degree (plan.shardsFor name) :=
  planned_of_ok heven h.degree_pos (shape_of_get? hshape) (h.shardsFor hshape)

theorem exists_shard {name : String} (hname : name ∈ census.parameterShapes.keys) :
    ∃ spec ∈ plan.parameterShards, spec.paramName = name := by
  obtain ⟨shape, hshape⟩ := (mem_keys_iff _).mp hname
  obtain ⟨spec, hmem⟩ :=
    exists_mem_of_ne_nil _ ((planned_shardsFor h heven hshape).ne_nil h.degree_pos)
  exact ⟨spec, ParallelPlan.mem_shardsFor.mp hmem⟩

omit heven in
/-- **A parameter of a role** that is cut into even parts. -/
theorem hasRange_of_role {name : String} (hname : name ∈ census.parameterShapes.keys)
    {role : ParameterRole} (hrole : roleOf name = role) (hcut : role.axis ≠ .none)
    (hother : role ≠ .other) (hkv : role = .keyValue → census.numKvHeads % degree = 0) {base : Nat}
    (htotal : roleTotal census role = degree * base) (hrank : rank < degree) :
    HasRange plan name role.axis rank (rank * base, rank * base + base) := by
  subst hrole
  obtain ⟨shape, hshape⟩ := (mem_keys_iff _).mp hname
  have hplan := h.shardsFor hshape
  have hlength :
      shape[(roleOf name).axis.index]? = some (roleTotal census (roleOf name) : Int) := by
    have hroleShape := (roleShape_of_mem (shape_of_get? hshape)).1
    revert hroleShape
    generalize roleOf name = role at hcut hother
    cases role with
    | replicated => exact absurd rfl hcut
    | other => exact absurd rfl hother
    | _ => exact fun hroleShape => hroleShape
  have hnot : ¬ (roleOf name = .replicated ∨
      roleOf name = .keyValue ∧ census.numKvHeads % degree ≠ 0) := by
    rintro (hreplicated | ⟨hkeyValue, hne⟩)
    · rw [hreplicated] at hcut
      exact hcut rfl
    · exact hne (hkv hkeyValue)
  rw [htotal] at hlength
  rw [planParameter_cut h.degree_pos hnot hcut hlength (Nat.dvd_mul_right degree base)] at hplan
  exact hasRange_of_cut hcut (lt_of_axis hlength) (Except.ok.inj hplan).symm hrank

end Even

/-! ### Validity -/

/-- **A plan with even parts** has nothing to complain about if its ranks are in order. -/
theorem accepts_of_even (h : Derived census degree ranks allowPadding collective plan)
    (heven : Even census degree) (hlength : ranks.length = degree) (hnodup : ranks.Nodup) :
    plan.Accepts census := by
  have hspec : ∀ spec ∈ plan.parameterShards,
      census.parameterShapes.get? spec.paramName = some spec.globalShape := by
    intro spec hspec
    obtain ⟨shards, hmap, hflat⟩ := h.shards
    rw [hflat] at hspec
    obtain ⟨specs, hspecs, hspec⟩ := mem_flatten.mp hspec
    obtain ⟨⟨name, shape⟩, hentry, hplan⟩ := exists_of_mem_mapM hmap hspecs
    have hshape := (get?_eq_some_iff _).mpr hentry
    obtain ⟨hname, hglobal⟩ :=
      (planned_of_ok heven h.degree_pos (shape_of_get? hshape) hplan).spec hspec
    rw [hname, hglobal]
    exact hshape
  constructor
  · rw [h.tpDegree]
    exact Int.ofNat_le.mpr h.degree_pos
  · rw [h.tpDegree, h.orderedRanks, hlength]
  · rw [h.orderedRanks]
    exact hnodup
  · exact h.fallback
  · exact h.predicate
  · exact fun name hname => exists_shard h heven hname
  · exact hspec
  · intro name first rest hsharded
    have hfirst := ParallelPlan.mem_sharded.mp
      (hsharded ▸ .head _ : first ∈ plan.sharded name)
    obtain ⟨hmem, hcut, rfl⟩ := hfirst
    have hfor : first ∈ plan.shardsFor first.paramName :=
      ParallelPlan.mem_shardsFor.mpr ⟨hmem, rfl⟩
    have hplanned := (planned_shardsFor h heven (hspec first hmem))
    generalize hspecs : plan.shardsFor first.paramName = specs at hplanned hfor
    cases hplanned with
    | replicated =>
      rw [mem_singleton.mp hfor] at hcut
      exact absurd rfl hcut
    | @cut axis total haxis hlt htotal =>
      have hall : ∀ spec ∈ plan.shardsFor first.paramName, spec.shardAxis = axis := by
        intro spec hspec
        rw [hspecs] at hspec
        obtain ⟨i, -, rfl⟩ := mem_map.mp hspec
        rfl
      rw [← hsharded, ParallelPlan.sharded_eq_shardsFor haxis hall, hspecs,
        hall first (ParallelPlan.mem_shardsFor.mpr ⟨hmem, rfl⟩)]
      exact ⟨total, htotal, laid_axisShards _ total haxis hlt h.degree_pos⟩

/-! ### Names of a layer -/

theorem mem_keys_of_layer (hlayer : layer < census.numLayers)
    (h : name ∈ (census.layerShapes (QwenArchitectureCensus.layerStem layer)).map Prod.fst) :
    name ∈ census.parameterShapes.keys := by
  obtain ⟨e, he, rfl⟩ := mem_map.mp h
  exact mem_keys_foldl_set.mpr (.inl (mem_map_of_mem (mem_append_left _
    (mem_append_right _ (mem_flatMap.mpr ⟨layer, mem_range.mpr hlayer, he⟩)))))

theorem mem_keys_key (hlayer : layer < census.numLayers) :
    QwenArchitectureCensus.layerStem layer ++ ".self_attn.k_proj.weight" ∈
      census.parameterShapes.keys :=
  mem_keys_of_layer hlayer (by
    simp [QwenArchitectureCensus.layerShapes, QwenArchitectureCensus.attentionShapes])

theorem role_key : roleOf (stem ++ ".self_attn.k_proj.weight") = .keyValue :=
  roleOf_tail (by simp [tailRoles]) stem

/-! ### Replicated KV heads -/

theorem kvDim_eq (hkv : census.numKvHeads % degree = 0) :
    census.kvDim = degree * (census.numKvHeads / degree * census.headDim) := by
  rw [QwenArchitectureCensus.kvDim, ← mul_assoc,
    Nat.mul_div_cancel' (Nat.dvd_of_mod_eq_zero hkv)]

/-- **KV projections** are cut exactly when the KV heads are divisible. -/
theorem notCut_iff (h : Derived census degree ranks allowPadding collective plan)
    (hname : name ∈ census.parameterShapes.keys) (hrole : roleOf name = .keyValue) :
    NotCut plan name ↔ census.numKvHeads % degree ≠ 0 := by
  by_cases hkv : census.numKvHeads % degree = 0
  · refine iff_of_false (fun hnone => ?_) (not_not.mpr hkv)
    obtain ⟨spec, hfilter, haxis, -⟩ := hasRange_of_role h hname hrole (by decide) (by decide)
      (fun _ => hkv) (kvDim_eq hkv) h.degree_pos
    have hmem := mem_of_mem_filter (hfilter ▸ mem_singleton_self spec)
    rw [hnone spec hmem] at haxis
    cases haxis
  · refine iff_of_true (fun spec hspec => ?_) hkv
    obtain ⟨shape, hshape⟩ := (mem_keys_iff _).mp hname
    have hplan := h.shardsFor hshape
    rw [planParameter_replicated h.degree_pos (.inr ⟨hrole, hkv⟩)] at hplan
    rw [← Except.ok.inj hplan] at hspec
    rw [mem_singleton.mp hspec]
    rfl

/-! ### Heads -/

theorem getElem?_map_range {f : Nat → α} {n i : Nat} {a : α} :
    ((List.range n).map f)[i]? = some a ↔ i < n ∧ f i = a := by
  simp [List.getElem?_eq_some_iff]

theorem Derived.attentionShard (h : Derived census degree ranks allowPadding collective plan)
    {shard : AttentionShard} : plan.attentionShards[rank]? = some shard ↔ rank < degree ∧
      attentionOf census degree (kvStrategyOf census degree allowPadding) rank = shard := by
  rw [h.attention]
  exact getElem?_map_range

theorem Derived.mlpShard (h : Derived census degree ranks allowPadding collective plan)
    {shard : MlpShard} : plan.mlpShards[rank]? = some shard ↔
      rank < degree ∧ mlpOf census degree collective rank = shard := by
  rw [h.mlp]
  exact getElem?_map_range

/-- The KV heads are cut evenly, or every rank has all of them. -/
def Regular (census : QwenArchitectureCensus) (degree : Nat) : Prop :=
  census.numKvHeads % degree = 0 ∨ census.numKvHeads < degree

theorem kvStrategyOf_eq (census : QwenArchitectureCensus) (degree : Nat) (allowPadding : Bool) :
    kvStrategyOf census degree allowPadding =
      if census.numKvHeads % degree = 0 then .splitEven
      else if census.numKvHeads < degree then .replicate
      else if allowPadding then .uneven else .reject := by
  refine if_congr Iff.rfl rfl ?_
  by_cases hdegree : degree ≤ census.numKvHeads
  · rw [if_pos hdegree, if_neg (not_lt.mpr hdegree)]
  · rw [if_neg hdegree, if_pos (not_le.mp hdegree)]

theorem Regular.ne_uneven (h : Regular census degree) :
    kvStrategyOf census degree allowPadding ≠ .uneven := by
  rw [kvStrategyOf_eq]
  by_cases hkv : census.numKvHeads % degree = 0
  · rw [if_pos hkv]
    decide
  · rw [if_neg hkv, if_pos (h.resolve_left hkv)]
    decide

theorem Regular.kvOwned_eq (h : Regular census degree) (rank : Nat) :
    kvOwned census degree rank (kvStrategyOf census degree allowPadding) =
      if census.numKvHeads % degree = 0 then
        (census.numKvHeads / degree, false, rank * (census.numKvHeads / degree),
          rank * (census.numKvHeads / degree) + census.numKvHeads / degree)
      else (census.numKvHeads, true, 0, census.numKvHeads) := by
  rw [kvStrategyOf_eq]
  by_cases hkv : census.numKvHeads % degree = 0
  · rw [if_pos hkv, if_pos hkv]
    rfl
  · rw [if_neg hkv, if_neg hkv, if_pos (h.resolve_left hkv)]
    rfl

theorem Derived.even (h : Derived census degree ranks allowPadding collective plan)
    (hregular : Regular census degree) : Even census degree :=
  ⟨Nat.dvd_of_mod_eq_zero (h.heads.resolve_right hregular.ne_uneven),
    Nat.dvd_of_mod_eq_zero h.intermediate⟩

theorem existsUnique_range {count base head : Nat} (h : head < count * base) :
    ∃! rank, rank < count ∧ InRange (rank * base, rank * base + base) head := by
  have hbase : 0 < base := Nat.pos_of_mul_pos_left (Nat.zero_lt_of_lt h)
  refine ⟨head / base, ⟨Nat.div_lt_of_lt_mul (mul_comm count base ▸ h),
    Nat.div_mul_le_self head base, ?_⟩, fun rank hrank => ?_⟩
  · exact Nat.lt_div_mul_add hbase
  · obtain ⟨-, hle, hlt⟩ := hrank
    rw [← Nat.succ_mul] at hlt
    exact (Nat.div_eq_of_lt_le hle hlt).symm

theorem kvRange_of_owned (heven : Even census degree) (hregular : Regular census degree)
    (hrank : rank < degree) {head : Nat}
    (hhead : InRange
      (attentionOf census degree (kvStrategyOf census degree allowPadding) rank).qRange head) :
    head < census.numAttentionHeads ∧
    InRange (attentionOf census degree (kvStrategyOf census degree allowPadding) rank).kvRange
      (head / census.headGroups) := by
  have hdegree : 0 < degree := Nat.zero_lt_of_lt hrank
  have hgroups : census.numKvHeads * census.headGroups = census.numAttentionHeads :=
    Nat.mul_div_cancel' (Nat.dvd_of_mod_eq_zero census.grouped)
  have hpos : 0 < census.headGroups :=
    Nat.pos_of_mul_pos_left (hgroups.symm ▸ census.numAttentionHeads_pos)
  obtain ⟨hle, hlt⟩ : rank * (census.numAttentionHeads / degree) ≤ head ∧
      head < rank * (census.numAttentionHeads / degree) + census.numAttentionHeads / degree := hhead
  rw [← Nat.succ_mul] at hlt
  have hinside : head < census.numAttentionHeads :=
    hlt.trans_le ((Nat.mul_le_mul_right _ hrank).trans (Nat.mul_div_le _ _))
  refine ⟨hinside, ?_⟩
  rw [attentionOf]
  rw [hregular.kvOwned_eq]
  by_cases hkv : census.numKvHeads % degree = 0
  · rw [if_pos hkv]
    -- a rank has the query heads of its KV heads
    have hqk : census.numAttentionHeads / degree =
        census.numKvHeads / degree * census.headGroups := by
      refine Nat.eq_of_mul_eq_mul_left hdegree ?_
      rw [Nat.mul_div_cancel' heven.heads, ← mul_assoc,
        Nat.mul_div_cancel' (Nat.dvd_of_mod_eq_zero hkv), hgroups]
    rw [hqk, ← mul_assoc] at hle hlt
    refine ⟨(Nat.le_div_iff_mul_le hpos).mpr hle, ?_⟩
    rw [← Nat.succ_mul]
    exact (Nat.div_lt_iff_lt_mul hpos).mpr hlt
  · rw [if_neg hkv]
    refine ⟨Nat.zero_le _, (Nat.div_lt_iff_lt_mul hpos).mpr ?_⟩
    rwa [hgroups]

/-! ### Agreement -/

theorem roles_query (h : name ∈ queryNames stem) : roleOf name = .query := by
  fin_cases h
  all_goals exact roleOf_tail (by simp [tailRoles]) stem

theorem roles_keyValue (h : name ∈ keyNames stem ++ valueNames stem) : roleOf name = .keyValue := by
  fin_cases h
  all_goals exact roleOf_tail (by simp [tailRoles]) stem

theorem roles_gateUp (h : name ∈ gateUpNames stem) : roleOf name = .gateUp := by
  fin_cases h
  all_goals exact roleOf_tail (by simp [tailRoles]) stem

theorem scaleRange_mul (base headDim : Nat) : scaleRange (rank * base, rank * base + base) headDim =
      (rank * (base * headDim), rank * (base * headDim) + base * headDim) := by
  rw [scaleRange, add_mul, mul_assoc]

section Agrees

variable (h : Derived census degree ranks allowPadding collective plan)
  (hregular : Regular census degree) (hrank : rank < degree) {layer : Nat}
  (hlayer : layer < census.numLayers)

include h hregular hrank hlayer

/-- **Heads and weight shards** of a rank belong together. -/
theorem attentionAgrees : HeadsAgree census plan (QwenArchitectureCensus.layerStem layer) rank
    (attentionOf census degree (kvStrategyOf census degree allowPadding) rank) := by
  have heven := h.even hregular
  have hqDim : census.qDim = degree * (census.numAttentionHeads / degree * census.headDim) := by
    rw [QwenArchitectureCensus.qDim, ← mul_assoc, Nat.mul_div_cancel' heven.heads]
  have hquery := @scaleRange_mul rank (census.numAttentionHeads / degree) census.headDim
  refine ⟨fun name hname hkey => ?_, fun name hname hkey hcut => ?_, ?_, ?_⟩
  · exact hquery ▸ hasRange_of_role h hkey (roles_query _ hname) (by decide) (by decide)
      (fun h => by cases h) hqDim hrank
  · have hrole := roles_keyValue _ hname
    have hkv : census.numKvHeads % degree = 0 := by
      rwa [notCut_iff h hkey hrole, not_not] at hcut
    rw [attentionOf]
    rw [hregular.kvOwned_eq, if_pos hkv]
    rw [scaleRange_mul]
    exact hasRange_of_role h hkey hrole (by decide) (by decide) (fun _ => hkv) (kvDim_eq hkv) hrank
  · rw [notCut_iff h (mem_keys_key hlayer) (role_key _), attentionOf]
    rw [hregular.kvOwned_eq]
    by_cases hkv : census.numKvHeads % degree = 0
    · rw [if_pos hkv]
      exact iff_of_false Bool.false_ne_true (not_not.mpr hkv)
    · rw [if_neg hkv]
      exact iff_of_true rfl hkv
  · have hrole : roleOf (QwenArchitectureCensus.layerStem layer ++ ".self_attn.o_proj.weight") =
        .output := roleOf_tail (by simp [tailRoles]) _
    refine hquery ▸ hasRange_of_role h (mem_keys_of_layer hlayer ?_) hrole (by decide)
      (by decide) (fun h => by cases h) hqDim hrank
    simp [QwenArchitectureCensus.layerShapes, QwenArchitectureCensus.attentionShapes]

/-- **The MLP slice and the weight shards** of a rank belong together. -/
theorem mlpAgrees : SliceAgrees census plan (QwenArchitectureCensus.layerStem layer) rank
    (mlpOf census degree collective rank) := by
  have heven := h.even hregular
  have hm := (Nat.mul_div_cancel' heven.intermediate).symm
  refine ⟨rfl, fun name hname hkey => ?_, ?_⟩
  · exact hasRange_of_role h hkey (roles_gateUp _ hname) (by decide) (by decide) (fun h => by cases h) hm
      hrank
  · have hrole : roleOf (QwenArchitectureCensus.layerStem layer ++ ".mlp.down_proj.weight") =
        .down := roleOf_tail (by simp [tailRoles]) _
    refine hasRange_of_role h (mem_keys_of_layer hlayer ?_) hrole (by decide) (by decide)
      (fun h => by cases h) hm hrank
    simp [QwenArchitectureCensus.layerShapes, QwenArchitectureCensus.mlpShapes]

end Agrees

/-! ### Consistent plans -/

/-- **A plan with regular KV heads** is consistent if its ranks are in order. -/
theorem consistent_of_regular (h : Derived census degree ranks allowPadding collective plan)
    (hregular : Regular census degree) (hlength : ranks.length = degree) (hnodup : ranks.Nodup) :
    Consistent census degree plan := by
  have heven := h.even hregular
  refine ⟨ParallelPlan.validate_eq_nil_iff.mpr (accepts_of_even h heven hlength hnodup),
    ⟨?_, ?_⟩, fun head hhead => ?_, fun shard hshard head hhead => ?_,
    fun rank shard hshard layer hlayer => ?_, fun rank shard hshard layer hlayer => ?_⟩
  · rw [h.attention, length_map, length_range]
  · rw [h.mlp, length_map, length_range]
  · rw [← Nat.mul_div_cancel' heven.heads] at hhead
    simp only [h.attentionShard, and_assoc, exists_and_left, exists_eq_left']
    exact existsUnique_range hhead
  · obtain ⟨rank, hrank⟩ := mem_iff_getElem?.mp hshard
    obtain ⟨hlt, rfl⟩ := h.attentionShard.mp hrank
    exact kvRange_of_owned heven hregular hlt hhead
  · obtain ⟨hlt, rfl⟩ := h.attentionShard.mp hshard
    exact attentionAgrees h hregular hlt hlayer
  · obtain ⟨hlt, rfl⟩ := h.mlpShard.mp hshard
    exact mlpAgrees h hregular hlt hlayer

/-- Uneven KV heads are not marked as replicated, but their projections are replicated. -/
theorem Consistent.regular (hconsistent : Consistent census degree plan)
    (h : Derived census degree ranks allowPadding collective plan) : Regular census degree := by
  by_contra hnot
  obtain ⟨hkv, hle⟩ := not_or.mp hnot
  have huneven : kvStrategyOf census degree allowPadding = .uneven := by
    have haccepted := h.accepted
    rw [kvStrategyOf_eq, if_neg hkv, if_neg hle] at haccepted ⊢
    by_cases hallow : allowPadding = true
    · rw [if_pos hallow]
    · rw [if_neg hallow] at haccepted
      exact absurd rfl haccepted
  have hshard := h.attentionShard.mpr ⟨h.degree_pos, rfl⟩
  have hreplicated := (hconsistent.attention 0 _ hshard 0 census.numLayers_pos).replicated.mpr
    ((notCut_iff h (mem_keys_key census.numLayers_pos) (role_key _)).mpr hkv)
  rw [huneven] at hreplicated
  cases hreplicated

/-- **A derived plan is complete and consistent** exactly if it was derived for as many
different ranks as its degree, and its KV heads are not cut unevenly. -/
theorem derived_consistent_iff {census : QwenArchitectureCensus} {degree : Nat} {ranks : List Int}
    {allowPadding : Bool} {collective : String} {plan : ParallelPlan}
    (h : derivePlan census degree ranks allowPadding collective = .ok plan) :
    Consistent census degree plan ↔ (ranks.length = degree ∧ ranks.Nodup) ∧
      (census.numKvHeads % degree = 0 ∨ census.numKvHeads < degree) := by
  have hderived := derived_of_ok h
  constructor
  · intro hconsistent
    have haccepts := ParallelPlan.validate_eq_nil_iff.mp hconsistent.valid
    have hcount := haccepts.rankCount
    have hnodup := haccepts.ranks
    rw [hderived.tpDegree, hderived.orderedRanks] at hcount
    rw [hderived.orderedRanks] at hnodup
    exact ⟨⟨Int.ofNat_inj.mp hcount, hnodup⟩, hconsistent.regular hderived⟩
  · rintro ⟨⟨hlength, hnodup⟩, hregular⟩
    exact consistent_of_regular hderived hregular hlength hnodup

theorem exists_of_isSome {x : Except PlanRaise α} (h : x.toOption.isSome = true) :
    ∃ a, x = .ok a := by
  cases x with
  | error => cases h
  | ok a => exact ⟨a, rfl⟩

theorem derived_consistent_iff_tiny : ∃ plan,
    derivePlan ParallelPlan.tinyCensus 2 [0, 1] false "all_reduce" = .ok plan ∧
      Consistent ParallelPlan.tinyCensus 2 plan := by
  obtain ⟨plan, hplan⟩ : ∃ plan,
      derivePlan ParallelPlan.tinyCensus 2 [0, 1] false "all_reduce" = .ok plan :=
    exists_of_isSome (by decide +kernel)
  exact ⟨plan, hplan, (derived_consistent_iff hplan).mpr ⟨by decide, by decide⟩⟩

def oddCensus : QwenArchitectureCensus :=
  { ParallelPlan.tinyCensus with
    hiddenSize := 6
    numAttentionHeads := 3
    numKvHeads := 3
    hiddenSize_pos := by decide
    numAttentionHeads_pos := by decide
    numKvHeads_pos := by decide
    grouped := by decide }

/-- **Plans that are derived but not consistent**: one rank for a degree of two, and three KV
heads on two ranks. -/
theorem derived_inconsistent :
    (∃ plan, derivePlan ParallelPlan.tinyCensus 2 [0] false "all_reduce" = .ok plan ∧
      ¬ Consistent ParallelPlan.tinyCensus 2 plan) ∧
    ∃ plan, derivePlan oddCensus 2 [0, 1] true "all_reduce" = .ok plan ∧
      ¬ Consistent oddCensus 2 plan := by
  obtain ⟨single, hsingle⟩ : ∃ plan,
      derivePlan ParallelPlan.tinyCensus 2 [0] false "all_reduce" = .ok plan :=
    exists_of_isSome (by decide +kernel)
  obtain ⟨odd, hodd⟩ : ∃ plan, derivePlan oddCensus 2 [0, 1] true "all_reduce" = .ok plan :=
    exists_of_isSome (by decide +kernel)
  refine ⟨⟨single, hsingle, fun hconsistent => ?_⟩, odd, hodd, fun hconsistent => ?_⟩
  · have hcount := (ParallelPlan.validate_eq_nil_iff.mp hconsistent.valid).rankCount
    rw [(derived_of_ok hsingle).tpDegree, (derived_of_ok hsingle).orderedRanks] at hcount
    cases hcount
  · exact absurd (hconsistent.regular (derived_of_ok hodd)) (by unfold Regular; decide)

end Hqsb.Distributed
