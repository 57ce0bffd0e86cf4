/-
Hqsb/Distributed/Shards.lean

Shards of one parameter (`ShardSpec`, `plan_axis_shards`, `replicated_shard` and
`split_flat` of `hqsb/distributed/parallel_plan.py`).

A shard is a range of one axis of a parameter, or the whole of it.  `plan_axis_shards`
cuts an axis into ranges of equal length, the first ones longer by one when padding is
allowed and the length is not divisible: shard `i` starts at `Lib.Tiling.cut`
(`planAxisShards_eq`).  `split_flat` takes a shard out of a row-major list of values
(`splitFlat_row`, `splitFlat_column`).

Shapes and ranges are integers, as the constructor takes any.
-/
import Hqsb.Lib.Tiling
import Hqsb.Lib.Traverse

namespace Hqsb.Distributed

open Lib Lib.Tiling List

/-! ### Errors -/

/-- What the plan functions raise: a `ConfigError` with the field it names, or an error of the
language. -/
inductive PlanRaise where
  | config (field : String)
  | keyError (name : String)
  | indexError
  | zeroDivision
  | valueError

def require (condition : Prop) [Decidable condition] (field : String) : Except PlanRaise Unit :=
  if condition then .ok () else .error (.config field)

/-! ### Shards -/

inductive ShardAxis where
  | row | column | none
  deriving DecidableEq

/-- `0 if shard_axis == "row" else 1` -/
def ShardAxis.index : ShardAxis → Nat
  | .row => 0
  | _ => 1

/-- One parameter's shard plan, with what its constructor checks. -/
structure ShardSpec where
  paramName : String
  globalShape : List Int
  shardAxis : ShardAxis
  shardIndex : Int
  shardCount : Int
  start : Int
  stop : Int
  padding : Int
  replicated : Bool
  count_pos : 1 ≤ shardCount
  index_mem : 0 ≤ shardIndex ∧ shardIndex < shardCount
  replicated_of_none : shardAxis = .none → replicated = true
  axis_lt : shardAxis ≠ .none → shardAxis.index < globalShape.length
  padding_nonneg : 0 ≤ padding
  deriving DecidableEq

section

variable (paramName : String) (globalShape : List Int) (shardAxis : ShardAxis)

/-- The constructor. -/
def ShardSpec.make
    (shardIndex shardCount start stop : Int) (padding : Int := 0) (replicated : Bool := false) :
    Except PlanRaise ShardSpec :=
  if hcount : ¬ 1 ≤ shardCount then .error (.config "shard_count")
  else if hindex : ¬ (0 ≤ shardIndex ∧ shardIndex < shardCount) then .error (.config "")
  else if hnone : ¬ (shardAxis = .none → replicated = true) then .error (.config "replicated")
  else if haxis : ¬ (shardAxis ≠ .none → shardAxis.index < globalShape.length) then
    .error (.config "global_shape")
  else if hpadding : ¬ 0 ≤ padding then .error (.config "padding")
  else .ok {
    paramName, globalShape, shardAxis, shardIndex, shardCount, start, stop, padding, replicated
    count_pos := not_not.mp hcount
    index_mem := not_not.mp hindex
    replicated_of_none := not_not.mp hnone
    axis_lt := not_not.mp haxis
    padding_nonneg := not_not.mp hpadding }

theorem ShardSpec.make_self (spec : ShardSpec) :
    ShardSpec.make spec.paramName spec.globalShape spec.shardAxis spec.shardIndex spec.shardCount
      spec.start spec.stop spec.padding spec.replicated = .ok spec := by
  rw [ShardSpec.make, dif_neg (not_not.mpr spec.count_pos), dif_neg (not_not.mpr spec.index_mem),
    dif_neg (not_not.mpr spec.replicated_of_none), dif_neg (not_not.mpr spec.axis_lt),
    dif_neg (not_not.mpr spec.padding_nonneg)]

/-- The loop body of `plan_axis_shards`: the shards so far, and where the next one starts. -/
def planAxisShard (shardCount base remainder : Int) (s : List ShardSpec × Int) (index : Nat) :
    Except PlanRaise (List ShardSpec × Int) := do
  let length := base + if (index : Int) < remainder then 1 else 0
  let spec ← ShardSpec.make paramName globalShape shardAxis index shardCount s.2 (s.2 + length)
  pure (s.1 ++ [spec], s.2 + length)

/-- Split one axis evenly, padding only when explicitly allowed (never truncating). -/
def planAxisShards
    (shardCount : Int) (allowPadding : Bool := false) : Except PlanRaise (List ShardSpec) := do
  require (shardAxis ≠ .none) "shard_axis"
  match globalShape[shardAxis.index]? with
  | none => .error (.config "")
  | some total =>
    if shardCount = 0 then .error .zeroDivision
    else do
      let base := total.fdiv shardCount
      let remainder := total.fmod shardCount
      require (¬ (remainder ≠ 0 ∧ allowPadding = false)) "global_shape"
      let s ← (List.range shardCount.toNat).foldlM
        (planAxisShard paramName globalShape shardAxis shardCount base remainder) ([], 0)
      require (s.2 = total) ""
      pure s.1

/-- A parameter that every rank holds. -/
def replicatedShard (count : Int := 1) : Except PlanRaise ShardSpec :=
  ShardSpec.make paramName globalShape .none 0 count 0 (globalShape.head?.getD 0) 0 true

end

/-! ### Splitting values -/

/-- `_prod` -/
def shapeProd (shape : List Int) : Int := shape.foldl (· * ·) 1

section Split

variable {α : Type}

def sliceBound (n : Nat) (i : Int) : Nat := if i < 0 then (i + n).toNat else i.toNat

/-- `values[start:stop]` -/
def sliceOf (values : List α) (start stop : Int) : List α :=
  (values.take (sliceBound values.length stop)).drop (sliceBound values.length start)

def splitFlat (values : List α) (globalShape : List Int) (spec : ShardSpec) :
    Except PlanRaise (List α) := do
  require ((values.length : Int) = shapeProd globalShape) ""
  match spec.shardAxis with
  | .none => .ok values
  | .row =>
    .ok (sliceOf values (spec.start * shapeProd globalShape.tail)
      (spec.stop * shapeProd globalShape.tail))
  | .column => match globalShape with
    | rows :: rowStride :: _ =>
      .ok ((List.range rows.toNat).flatMap fun (row : Nat) =>
        sliceOf values (row * rowStride + spec.start) (row * rowStride + spec.stop))
    | _ => .error .indexError

end Split

/-! ### What is cut -/

section Cut

variable (paramName : String) (globalShape : List Int) (shardAxis : ShardAxis) (total count : Nat)

/-- Shard `i` of an axis that is cut into `count` shards. -/
def axisShard (haxis : shardAxis ≠ .none) (hlt : shardAxis.index < globalShape.length)
    (i : Fin count) : ShardSpec where
  paramName := paramName
  globalShape := globalShape
  shardAxis := shardAxis
  shardIndex := i.val
  shardCount := count
  start := cut (total / count) (total % count) i
  stop := cut (total / count) (total % count) (i + 1)
  padding := 0
  replicated := false
  count_pos := Int.ofNat_le.mpr (Nat.one_le_of_lt i.isLt)
  index_mem := ⟨Int.natCast_nonneg _, Int.ofNat_lt.mpr i.isLt⟩
  replicated_of_none := fun h => absurd h haxis
  axis_lt := fun _ => hlt
  padding_nonneg := le_refl 0

variable {paramName globalShape shardAxis total count}

theorem lt_of_axis (htotal : globalShape[shardAxis.index]? = some (total : Int)) :
    shardAxis.index < globalShape.length :=
  (List.getElem?_eq_some_iff.mp htotal).1

theorem planAxisShard_eq (paramName : String) (total : Nat) (haxis : shardAxis ≠ .none)
    (hlt : shardAxis.index < globalShape.length) (specs : List ShardSpec) (i : Fin count) :
    planAxisShard paramName globalShape shardAxis count ((total / count : Nat) : Int)
      ((total % count : Nat) : Int) (specs, (cut (total / count) (total % count) i : Int)) i =
    .ok (specs ++ [axisShard paramName globalShape shardAxis total count haxis hlt i],
      (cut (total / count) (total % count) (i + 1) : Int)) := by
  have hmake := (axisShard paramName globalShape shardAxis total count haxis hlt i).make_self
  have hnext : (cut (total / count) (total % count) (i + 1) : Int) =
      cut (total / count) (total % count) i +
        ((total / count : Nat) + if ((i : Nat) : Int) < (total % count : Nat) then 1 else 0) := by
    rw [cut_succ]
    split_ifs <;> omega
  rw [planAxisShard]
  rw [← hnext]
  exact congrArg (· >>= fun spec => pure (specs ++ [spec], _)) hmake

/-- **Cutting an axis.**  Shard `i` starts where `cut` says. -/
theorem planAxisShards_eq (haxis : shardAxis ≠ .none)
    (htotal : globalShape[shardAxis.index]? = some (total : Int)) (hcount : 0 < count)
    {allowPadding : Bool} (hpad : count ∣ total ∨ allowPadding = true) :
    planAxisShards paramName globalShape shardAxis count allowPadding =
      .ok ((List.finRange count).map
        (axisShard paramName globalShape shardAxis total count haxis (lt_of_axis htotal))) := by
  -- the loop over the first shards
  have hloop : ∀ n (hn : n ≤ count), (List.range n).foldlM
      (planAxisShard paramName globalShape shardAxis count ((total / count : Nat) : Int)
        ((total % count : Nat) : Int)) ([], 0) =
      .ok ((List.finRange n).map fun i => axisShard paramName globalShape shardAxis total count
        haxis (lt_of_axis htotal) (Fin.castLE hn i),
        (cut (total / count) (total % count) n : Int)) := by
    intro n
    induction n with
    | zero =>
      intro _
      rw [cut_zero]
      rfl
    | succ n ih =>
      intro hn
      have hstep := planAxisShard_eq paramName total haxis (lt_of_axis htotal)
        ((List.finRange n).map fun i => axisShard paramName globalShape shardAxis total count
          haxis (lt_of_axis htotal) (Fin.castLE (Nat.le_of_succ_le hn) i)) ⟨n, hn⟩
      rw [range_succ, foldlM_append, ih (Nat.le_of_succ_le hn)]
      refine Eq.trans (congrArg (· >>= pure) hstep) ?_
      rw [finRange_succ_last, map_append, map_map]
      rfl
  have hdiv : (total : Int).fdiv count = ((total / count : Nat) : Int) := by
    rw [Int.fdiv_eq_ediv_of_nonneg _ (Int.natCast_nonneg _)]
    rfl
  have hmod : (total : Int).fmod count = ((total % count : Nat) : Int) := by
    rw [Int.fmod_eq_emod_of_nonneg _ (Int.natCast_nonneg _)]
    rfl
  have hdivides : ¬ (((total % count : Nat) : Int) ≠ 0 ∧ allowPadding = false) := by
    rintro ⟨hrest, hno⟩
    rcases hpad with hdvd | hyes
    · rw [Nat.mod_eq_zero_of_dvd hdvd] at hrest
      exact hrest rfl
    · rw [hno] at hyes
      exact Bool.false_ne_true hyes
  have hzero : ¬ (count : Int) = 0 := by omega
  rw [planAxisShards, htotal, require, if_pos haxis]
  show (if (count : Int) = 0 then _ else _) = _
  rw [if_neg hzero, hdiv, hmod, require, if_pos hdivides, Int.toNat_natCast,
    hloop count (le_refl _), cut_total total hcount]
  show (require ((total : Int) = total) "" >>= fun _ => _) = _
  rw [require, if_pos rfl]
  rfl

/-! Shards of equal length. -/

section Even

variable (haxis : shardAxis ≠ .none) (hlt : shardAxis.index < globalShape.length) (base : Nat)
  (i : Fin count)

theorem axisShard_start :
    (axisShard paramName globalShape shardAxis (count * base) count haxis hlt i).start =
      (i * base : Nat) := by
  show ((cut _ _ i : Nat) : Int) = _
  rw [Nat.mul_mod_right, Nat.mul_div_cancel_left _ i.pos, cut_even]

theorem axisShard_stop :
    (axisShard paramName globalShape shardAxis (count * base) count haxis hlt i).stop =
      ((i + 1) * base : Nat) := by
  show ((cut _ _ (i + 1) : Nat) : Int) = _
  rw [Nat.mul_mod_right, Nat.mul_div_cancel_left _ i.pos, cut_even]

end Even

end Cut

theorem map_range_eq_finRange {β : Type} (g : Nat → β) (n : Nat) :
    (List.range n).map g = (List.finRange n).map fun (i : Fin n) => g i := by
  rw [← map_coe_finRange_eq_range, map_map]
  rfl

theorem mapM_finRange {α β : Type} {n : Nat} {s : Fin n → α} {f : α → Except PlanRaise β}
    {g : Nat → β} (h : ∀ i, f (s i) = .ok (g i)) :
    ((List.finRange n).map s).mapM f = .ok ((List.range n).map g) := by
  rw [mapM_eq_ok_iff, ← map_coe_finRange_eq_range, map_map, forall₂_map_left_iff,
    forall₂_map_right_iff, forall₂_same]
  exact fun i _ => h i

/-! ### What is split -/

section Flat

variable {α : Type} {values : List α}

theorem sliceOf_nat (values : List α) (a b : Nat) :
    sliceOf values a b = (values.take b).drop a := by
  rfl

theorem getElem?_sliceOf {a b i : Nat} (h : a + i < b) :
    (sliceOf values a b)[i]? = values[a + i]? := by
  rw [sliceOf_nat, List.getElem?_drop, List.getElem?_take, if_pos h]

theorem length_sliceOf {a b : Nat} (h : b ≤ values.length) :
    (sliceOf values a b).length = b - a := by
  rw [sliceOf_nat, length_drop, length_take, min_eq_left h]

end Flat

end Hqsb.Distributed
