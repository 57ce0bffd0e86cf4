/-
Hqsb/Distributed/SupportedDegrees.lean

The supported degrees that a plan is derived for.

`tp_capability_matrix` asks for divisibility alone, and `derive_plan` goes by the ends of names.
Every parameter has a role whose axis it has, but for the bias of `down_proj`: its name is not
listed, so that it is cut along a second axis (`supported_planned_iff`).
-/
import Hqsb.Distributed.PlanShards

namespace Hqsb.Distributed

open Lib List

variable {census : QwenArchitectureCensus} {degree : Nat}

/-! ### Supported degrees -/

section Supported

variable {availableDevices : Nat} {requireVocab allowUneven : Bool} {row : TpCapability}
  (hrow : tpCapability census degree availableDevices requireVocab allowUneven = .ok row)
  (hsupported : row.supported = true)

include hrow hsupported

/-- A supported degree divides what is cut, and the KV heads unless they may be uneven. -/
theorem divides_of_supported : 1 ≤ degree ∧ census.numAttentionHeads % degree = 0 ∧
    census.intermediateSize % degree = 0 ∧
      kvStrategyOf census degree allowUneven ∈ [.splitEven, .uneven] := by
  rw [tpCapability] at hrow
  by_cases hdevices : availableDevices < 1
  · rw [if_pos hdevices] at hrow
    cases hrow
  rw [if_neg hdevices] at hrow
  by_cases hdegree : 1 ≤ degree
  swap
  · rw [dif_neg hdegree] at hrow
    cases hrow
  rw [dif_pos hdegree] at hrow
  cases hrow
  simp only [decide_eq_true_eq, append_eq_nil_iff, ite_eq_right_iff, reduceCtorEq, imp_false,
    not_not] at hsupported
  obtain ⟨⟨⟨⟨⟨⟨-, hintermediate⟩, hheads⟩, -⟩, -⟩, hreject⟩, hreplicate⟩ := hsupported
  refine ⟨hdegree, hheads, hintermediate, ?_⟩
  cases hstrategy : kvStrategyOf census degree allowUneven with
  | splitEven => decide
  | uneven => decide
  | reject => exact absurd hstrategy hreject
  | replicate => exact absurd hstrategy hreplicate

/-- The strategy of the plan is a refusal if the KV heads do not divide and have to. -/
theorem strategy_iff_of_supported (allowPadding : Bool) :
    kvStrategyOf census degree allowPadding ≠ .reject ↔
      census.numKvHeads % degree = 0 ∨ allowPadding = true := by
  obtain ⟨-, -, -, hmem⟩ := divides_of_supported hrow hsupported
  rw [kvStrategyOf] at hmem ⊢
  by_cases heven : census.numKvHeads % degree = 0
  · simp [heven]
  · by_cases hle : degree ≤ census.numKvHeads
    · cases allowPadding <;> simp [heven, hle]
    · simp [heven, hle] at hmem

end Supported

theorem down_bias_mem (hbias : census.mlpBias = true) :
    (QwenArchitectureCensus.layerStem 0 ++ ".mlp.down_proj.bias", [(census.hiddenSize : Int)]) ∈
      census.layerShapes (QwenArchitectureCensus.layerStem 0) := by
  rw [QwenArchitectureCensus.layerShapes, if_pos hbias]
  exact mem_append_right _ (by simp [QwenArchitectureCensus.mlpBiasShapes])

/-! ### Plans -/

theorem require_ok {condition : Prop} {_ : Decidable condition} {field : String} (h : condition) :
    require condition field = .ok () := if_pos h

def Covers (census : QwenArchitectureCensus) (plan : ParallelPlan) : Prop :=
  ∀ name ∈ census.parameterShapes.keys, ∃ spec ∈ plan.parameterShards, spec.paramName = name

/-- **A supported degree** has a plan that covers every parameter exactly if the census has no MLP
biases, and the KV heads divide by the degree where the plan is not padded. -/
theorem supported_planned_iff (census : QwenArchitectureCensus) (degree availableDevices : Nat)
    (requireVocab allowUneven : Bool) (row : TpCapability)
    (hrow : tpCapability census degree availableDevices requireVocab allowUneven = .ok row)
    (hsupported : row.supported = true) (ranks : List Int) (allowPadding : Bool)
    (collective : String) (hcollective : collective ∈ ["all_reduce", "reduce_scatter"]) :
    (∃ plan, derivePlan census degree ranks allowPadding collective = .ok plan ∧
        Covers census plan) ↔
      census.mlpBias = false ∧ (census.numKvHeads % degree = 0 ∨ allowPadding = true) := by
  obtain ⟨hdegree, hheads, hintermediate, -⟩ := divides_of_supported hrow hsupported
  have heven : Even census degree :=
    ⟨Nat.dvd_of_mod_eq_zero hheads, Nat.dvd_of_mod_eq_zero hintermediate⟩
  rw [← strategy_iff_of_supported hrow hsupported allowPadding]
  constructor
  · rintro ⟨plan, hplan, -⟩
    have hderived := derived_of_ok hplan
    refine ⟨Bool.not_eq_true _ ▸ fun hbias => ?_, hderived.accepted⟩
    obtain ⟨shape, hshape⟩ := (OrderedDict.mem_keys_iff _).mp
      (mem_keys_of_layer census.numLayers_pos (mem_map_of_mem (down_bias_mem hbias)))
    obtain ⟨shards, hshards, -⟩ := hderived.shards
    obtain ⟨specs, hspecs⟩ := exists_of_mapM_ok hshards ((OrderedDict.get?_eq_some_iff _).mp hshape)
    have hrole := roleOf_tail (by simp [tailRoles] : (".mlp.down_proj.bias", .other) ∈ tailRoles)
      (QwenArchitectureCensus.layerStem 0)
    have hone := (roleShape_of_mem (shape_of_get? hshape)).1
    rw [hrole] at hone
    exact planParameter_other hrole hone specs hspecs
  · rintro ⟨hbias, hstrategy⟩
    obtain ⟨shards, hshards⟩ := exists_mapM_eq_ok (l := census.parameterShapes.entries)
      (f := fun e => planParameter census degree allowPadding e.1 e.2) fun e he => by
        have hmem := shape_of_get? ((OrderedDict.get?_eq_some_iff _).mpr he)
        exact (exists_planned heven hdegree hmem fun hother => Bool.false_ne_true
          (hbias.symm.trans ((roleShape_of_mem hmem).2 hother))).imp fun _ h => h.1
    have hattention : ∀ rank ∈ List.range degree, deriveAttentionShard census degree rank
        (some (kvStrategyOf census degree allowPadding)) =
          .ok (attentionOf census degree (kvStrategyOf census degree allowPadding) rank) := by
      intro rank hrank
      refine (bind_of_ok (require_ok ⟨hdegree, mem_range.mp hrank⟩) _).trans ?_
      refine (bind_of_ok (require_ok hstrategy) _).trans ?_
      exact bind_of_ok (require_ok (.inl hheads)) _
    have hmlp : ∀ rank ∈ List.range degree, deriveMlpShard census degree rank collective =
        .ok (mlpOf census degree collective rank) := by
      intro rank hrank
      refine (bind_of_ok (require_ok ⟨hdegree, mem_range.mp hrank⟩) _).trans ?_
      refine (bind_of_ok (require_ok hintermediate) _).trans ?_
      exact bind_of_ok (require_ok hcollective) _
    obtain ⟨plan, hplan⟩ : ∃ plan, derivePlan census degree ranks allowPadding collective =
        .ok plan := by
      rw [derivePlan, tpCapability, if_neg (not_lt.mpr hdegree), dif_pos hdegree]
      exact ⟨_, (bind_of_ok (require_ok fun h => hstrategy h.2) _).trans <|
        (bind_of_ok hshards _).trans <| (bind_of_ok (mapM_eq_ok hattention) _).trans <|
        bind_of_ok (mapM_eq_ok hmlp) _⟩
    exact ⟨plan, hplan, fun name hname => exists_shard (derived_of_ok hplan) heven hname⟩

/-- A census without biases on two devices. -/
theorem supported_planned_tiny : ∃ row,
    tpCapability ParallelPlan.tinyCensus 2 2 false false = .ok row ∧ row.supported = true ∧
      ∃ plan, derivePlan ParallelPlan.tinyCensus 2 [0, 1] false "all_reduce" = .ok plan ∧
        Covers ParallelPlan.tinyCensus plan :=
  ⟨_, rfl, rfl, (supported_planned_iff _ 2 2 false false _ rfl rfl [0, 1] false _
    mem_cons_self).mpr ⟨rfl, .inl rfl⟩⟩

def biasedCensus : QwenArchitectureCensus := { ParallelPlan.tinyCensus with mlpBias := true }

/-- With MLP biases one device is supported, and no plan is derived for it. -/
theorem biased_census_unplanned : ∃ row,
    tpCapability biasedCensus 1 1 false false = .ok row ∧ row.supported = true ∧
      ∀ plan, derivePlan biasedCensus 1 [0] false "all_reduce" ≠ .ok plan := by
  refine ⟨_, rfl, rfl, fun plan hplan => ?_⟩
  have hraised : (derivePlan biasedCensus 1 [0] false "all_reduce").toOption.isSome = false := by
    decide +kernel
  rw [hplan] at hraised
  cases hraised

end Hqsb.Distributed
