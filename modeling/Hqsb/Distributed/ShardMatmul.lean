/-
Hqsb/Distributed/ShardMatmul.lean

Tensor-parallel matrix products (`column_parallel_case`, `row_parallel_case`,
`mlp_block_case` and `_matmul` of `hqsb/distributed/parallel_plan.py`).

A weight that is split by rows gives every rank some of the output features; one that is
split by columns gives every rank a partial sum of all of them.  The partial sums add up
to the whole product (`rowParallelCase_eq`), and an elementwise activation between the
two splits does no harm (`mlpBlockCase_eq`).  The outputs of a row split are concatenated
rank by rank, which is the whole product for one input row and not for several:
`parallel_cases_iff`.

Values are exact, from any ordered ring, and the activation is any function.
-/
import Hqsb.Distributed.Shards
import Hqsb.Lib.AxisUnits
import Hqsb.Lib.Grouping

namespace Hqsb.Distributed

open Lib Lib.Grouping List

/-! ### The product -/

section Matmul

variable {K : Type} [Ring K]

/-- One output: `acc += weight[o * in_features + i] * x[row * in_features + i]`. -/
def dot (weight x : List K) (inFeatures o row : Nat) : K :=
  (List.range inFeatures).foldl
    (fun acc i => acc + weight.getD (o * inFeatures + i) 0 * x.getD (row * inFeatures + i) 0) 0

/-- Tiny row-major matmul used by the CPU shard oracles. -/
def matmul (weight : List K) (outFeatures inFeatures : Int) (x : List K) (rows : Int) :
    Except PlanRaise (List K) := do
  let rows := if rows < 1 then 1 else rows
  require ((weight.length : Int) = outFeatures * inFeatures) "weight"
  require ((x.length : Int) = rows * inFeatures) "x"
  .ok ((List.range rows.toNat).flatMap fun row =>
    (List.range outFeatures.toNat).map fun o => dot weight x inFeatures.toNat o row)

/-- `zip(*lists)` -/
def zipStar {α : Type} : List (List α) → List (List α)
  | [] => []
  | [l] => l.map fun a => [a]
  | l :: ls => List.zipWith (· :: ·) l (zipStar ls)

/-- `[sum(values) for values in zip(*partials)]` -/
def mergePartials (partials : List (List K)) : List K := (zipStar partials).map List.sum

end Matmul

/-! ### The cases -/

section Cases

variable {K : Type} [Ring K] [LinearOrder K]

/-- `max(abs(a - b) for a, b in zip(full, merged)) if full else 0.0` -/
def maxAbs (full merged : List K) : Except PlanRaise K :=
  if full = [] then .ok 0
  else match (List.zipWith (fun a b => |a - b|) full merged).max? with
    | some m => .ok m
    | none => .error .valueError

/-- `a // b` -/
def floorDiv (a b : Int) : Except PlanRaise Int :=
  if b = 0 then .error .zeroDivision else .ok (a.fdiv b)

structure ColumnParallel (K : Type) where
  degree : Int
  full : List K
  shardedMerged : List K
  maxAbs : K
  bpsBytes : Nat

/-- Split W by output dim, run each shard, compare with the full matmul. -/
def columnParallelCase (weight : List K) (outFeatures inFeatures degree : Int) (x : List K) :
    Except PlanRaise (ColumnParallel K) := do
  let specs ← planAxisShards "w" [outFeatures, inFeatures] .row degree
  let shards ← specs.mapM (splitFlat weight [outFeatures, inFeatures])
  let rows ← floorDiv x.length inFeatures
  let full ← matmul weight outFeatures inFeatures x rows
  let parts ← (shards.zip specs).mapM fun p =>
    matmul p.1 (p.2.stop - p.2.start) inFeatures x rows
  let merged := parts.flatten
  let error ← maxAbs full merged
  pure {
    degree := degree
    full := full
    shardedMerged := merged
    maxAbs := error
    bpsBytes := (shards.map List.length).sum * 2 }

structure RowParallel (K : Type) where
  degree : Int
  partials : List (List K)
  merged : List K
  maxAbs : K
  payloadBytesPerRank : Int

/-- Split W and X by input dim, merge the partials by summation. -/
def rowParallelCase (weight : List K) (outFeatures inFeatures degree : Int) (x : List K) :
    Except PlanRaise (RowParallel K) := do
  let specs ← planAxisShards "w" [outFeatures, inFeatures] .column degree
  let xSpecs ← planAxisShards "x" [1, inFeatures] .column degree
  let partials ← (specs.zip xSpecs).mapM fun p => do
    let shard ← splitFlat weight [outFeatures, inFeatures] p.1
    let xShard ← splitFlat x [1, inFeatures] p.2
    matmul shard outFeatures (p.1.stop - p.1.start) xShard 1
  let merged := mergePartials partials
  let full ← matmul weight outFeatures inFeatures x 1
  let error ← maxAbs full merged
  pure {
    degree := degree
    partials := partials
    merged := merged
    maxAbs := error
    payloadBytesPerRank := outFeatures * 2 }

structure MlpBlock (K : Type) where
  degree : Int
  merged : List K
  localActivated : List (List K)
  payloadBytesPerRank : Int

omit [LinearOrder K] in
/-- What one rank computes: its activated slice, and its partial output. -/
def mlpRank (activation : K → K) (hidden intermediate : Int) (x gate up down : List K)
    (gateSpec downSpec : ShardSpec) : Except PlanRaise (List K × List K) := do
  let localRows := gateSpec.stop - gateSpec.start
  let gateShard ← splitFlat gate [intermediate, hidden] gateSpec
  let upShard ← splitFlat up [intermediate, hidden] gateSpec
  let g ← matmul gateShard localRows hidden x 1
  let u ← matmul upShard localRows hidden x 1
  let activated := (List.range localRows.toNat).map fun index =>
    activation (g.getD index 0) * u.getD index 0
  let downShard ← splitFlat down [hidden, intermediate] downSpec
  let part ← matmul downShard hidden (downSpec.stop - downSpec.start) activated 1
  pure (activated, part)

omit [LinearOrder K] in
/-- gate/up column + down row with a local activation. -/
def mlpBlockCase (activation : K → K) (hidden intermediate degree : Int)
    (x gate up down : List K) : Except PlanRaise (MlpBlock K) := do
  require ((x.length : Int) = hidden) "x"
  let gateSpecs ← planAxisShards "gate_up" [intermediate, hidden] .row degree
  let downSpecs ← planAxisShards "down" [hidden, intermediate] .column degree
  let ranks ← (gateSpecs.zip downSpecs).mapM fun p =>
    mlpRank activation hidden intermediate x gate up down p.1 p.2
  pure {
    degree := degree
    merged := mergePartials (ranks.map Prod.snd)
    localActivated := ranks.map Prod.fst
    payloadBytesPerRank := hidden * 2 }

end Cases

/-! ### Products of shards -/

section Products

variable {K : Type} [Ring K] {weight x : List K}

/-- Output `o` for input row `row`, as a sum. -/
def entry (weight x : List K) (inFeatures o row : Nat) : K :=
  ((List.range inFeatures).map fun i =>
    weight.getD (o * inFeatures + i) 0 * x.getD (row * inFeatures + i) 0).sum

theorem dot_eq_entry (inFeatures o row : Nat) :
    dot weight x inFeatures o row = entry weight x inFeatures o row := by
  have hfold : ∀ (l : List Nat) (f : Nat → K) (start : K),
      l.foldl (fun acc i => acc + f i) start = start + (l.map f).sum := by
    intro l f
    induction l with
    | nil => exact fun start => (add_zero start).symm
    | cons i l ih =>
      intro start
      rw [foldl_cons, ih, map_cons, sum_cons, add_assoc]
  rw [dot, hfold, zero_add, entry]

variable {inFeatures base k o : Nat} (f : Nat → K)

/-- What `_matmul` returns. -/
theorem matmul_eq {outFeatures rows : Nat} (hweight : weight.length = outFeatures * inFeatures)
    (hx : x.length = rows * inFeatures) (hrows : 1 ≤ rows) :
    matmul weight outFeatures inFeatures x rows = .ok ((List.range rows).flatMap fun row =>
      (List.range outFeatures).map fun o => entry weight x inFeatures o row) := by
  have hweight' : (weight.length : Int) = outFeatures * inFeatures := by
    rw [hweight, Nat.cast_mul]
  have hx' : (x.length : Int) = rows * inFeatures := by
    rw [hx, Nat.cast_mul]
  rw [matmul, if_neg (by omega : ¬ (rows : Int) < 1), require, if_pos hweight', require, if_pos hx']
  simp only [dot_eq_entry]
  rfl

theorem matmul_one {outFeatures : Nat} (hweight : weight.length = outFeatures * inFeatures)
    (hx : x.length = inFeatures) :
    matmul weight outFeatures inFeatures x 1 =
      .ok ((List.range outFeatures).map fun o => entry weight x inFeatures o 0) := by
  have hone := matmul_eq hweight (by rwa [one_mul] : x.length = 1 * inFeatures) (le_refl 1)
  rw [range_one, flatMap_singleton] at hone
  exact hone

theorem map_range_mul {α : Type} (f : Nat → α) (parts size : Nat) :
    (List.range (parts * size)).map f =
      (List.range parts).flatMap fun k => (List.range size).map fun i => f (k * size + i) := by
  rw [← AxisUnits.flatMap_range_eq_range, map_flatMap]
  refine flatMap_congr fun k _ => ?_
  rw [map_map]
  rfl

theorem sum_range_mul (parts size : Nat) : ((List.range (parts * size)).map f).sum =
      ((List.range parts).map fun k =>
        ((List.range size).map fun i => f (k * size + i)).sum).sum := by
  rw [map_range_mul, flatMap_def, sum_flatten, map_map]
  rfl

omit [Ring K] in
theorem length_rows {degree : Nat} (hweight : weight.length = degree * base * inFeatures)
    (hk : k < degree) :
    (sliceOf weight (k * base * inFeatures : Nat) ((k + 1) * base * inFeatures : Nat)).length =
      base * inFeatures := by
  have hend : (k + 1) * base * inFeatures ≤ weight.length := by
    rw [hweight]
    exact Nat.mul_le_mul_right _ (Nat.mul_le_mul_right _ hk)
  rw [length_sliceOf hend, Nat.succ_mul, Nat.add_mul, Nat.add_sub_cancel_left]

/-- A row-split weight gives the outputs of its rows. -/
theorem entry_rows {row : Nat} (ho : o < base) :
    entry (sliceOf weight (k * base * inFeatures : Nat) ((k + 1) * base * inFeatures : Nat)) x
        inFeatures o row = entry weight x inFeatures (k * base + o) row := by
  refine congrArg List.sum (map_congr_left fun i hi => ?_)
  have hin : o * inFeatures + i < base * inFeatures := AxisUnits.digits_lt ho (mem_range.mp hi)
  have hlt : k * base * inFeatures + (o * inFeatures + i) < (k + 1) * base * inFeatures := by
    rw [Nat.succ_mul, add_mul]
    exact Nat.add_lt_add_left hin _
  congr 1
  rw [getD_eq_getElem?_getD, getElem?_sliceOf hlt, ← Nat.add_assoc, ← Nat.add_mul]
  rfl

theorem getD_map_range {n j : Nat} (h : j < n) : ((List.range n).map f).getD j 0 = f j := by
  rw [getD_eq_getElem?_getD, List.getElem?_map, List.getElem?_range h]
  rfl

omit [Ring K] in
theorem sliceOf_map_range {n : Nat} (h : (k + 1) * base ≤ n) :
    sliceOf ((List.range n).map f) (k * base : Nat) ((k + 1) * base : Nat) =
      (List.range base).map fun i => f (k * base + i) := by
  rw [sliceOf_nat, ← map_take, ← map_drop, take_range, min_eq_left h, Nat.succ_mul,
    range_add, drop_append_of_le_length (by rw [length_range]),
    drop_of_length_le (by rw [length_range]), nil_append, map_map]
  rfl

def columnsOf {K : Type} (weight : List K) (outFeatures inFeatures base k : Nat) : List K :=
  (List.range outFeatures).flatMap fun row =>
    sliceOf weight (row * inFeatures + k * base : Nat) (row * inFeatures + (k + 1) * base : Nat)

variable {outFeatures base degree k : Nat} (hweight : weight.length = outFeatures * (degree * base))
  (hk : k < degree)

include hweight hk

omit [Ring K] in
theorem length_columns {row : Nat} (hrow : row < outFeatures) :
    (sliceOf weight (row * (degree * base) + k * base : Nat)
      (row * (degree * base) + (k + 1) * base : Nat)).length = base := by
  have hend : row * (degree * base) + (k + 1) * base ≤ weight.length := by
    calc row * (degree * base) + (k + 1) * base
        ≤ row * (degree * base) + degree * base :=
          Nat.add_le_add_left (Nat.mul_le_mul_right _ hk) _
      _ = (row + 1) * (degree * base) := (Nat.succ_mul _ _).symm
      _ ≤ outFeatures * (degree * base) := Nat.mul_le_mul_right _ hrow
      _ = weight.length := hweight.symm
  rw [length_sliceOf hend, Nat.succ_mul]
  omega

omit [Ring K] in
theorem length_columnsOf :
    (columnsOf weight outFeatures (degree * base) base k).length = outFeatures * base := by
  rw [columnsOf, List.length_flatMap, List.map_congr_left fun row hrow =>
    length_columns hweight hk (List.mem_range.mp hrow), List.map_const', List.length_range,
    List.sum_replicate_nat]

theorem getD_columnsOf {i : Nat} (ho : o < outFeatures) (hi : i < base) :
    (columnsOf weight outFeatures (degree * base) base k).getD (o * base + i) 0 =
      weight.getD (o * (degree * base) + (k * base + i)) 0 := by
  have hstart : ∀ n ≤ outFeatures, startOf (fun row => sliceOf weight
      (row * (degree * base) + k * base : Nat) (row * (degree * base) + (k + 1) * base : Nat)) n =
        n * base := by
    intro n hn
    induction n with
    | zero => rw [startOf_zero, zero_mul]
    | succ n ih =>
      rw [startOf_succ, ih (Nat.le_of_succ_le hn), length_columns hweight hk hn, Nat.succ_mul]
  have hlt : o * (degree * base) + k * base + i < o * (degree * base) + (k + 1) * base := by
    rw [Nat.succ_mul]
    omega
  rw [getD_eq_getElem?_getD, getD_eq_getElem?_getD, columnsOf, ← hstart o ho.le,
    getElem?_flatMap _ ho (by rwa [length_columns hweight hk ho]), getElem?_sliceOf hlt,
    add_assoc]

theorem entry_columns (ho : o < outFeatures) :
    entry (columnsOf weight outFeatures (degree * base) base k)
        (sliceOf x (k * base : Nat) ((k + 1) * base : Nat)) base o 0 =
      ((List.range base).map fun i => weight.getD (o * (degree * base) + (k * base + i)) 0 *
        x.getD (k * base + i) 0).sum := by
  refine congrArg List.sum (map_congr_left fun i hi => ?_)
  have hi := mem_range.mp hi
  have hlt : k * base + i < (k + 1) * base := by
    rw [Nat.succ_mul]
    exact Nat.add_lt_add_left hi _
  rw [getD_columnsOf hweight hk ho hi, zero_mul, zero_add]
  congr 1
  rw [getD_eq_getElem?_getD, getElem?_sliceOf hlt, ← getD_eq_getElem?_getD]

end Products

/-! ### Merging -/

section Merging

variable {K : Type} [Ring K]

theorem zipStar_map {α : Type} (p : Nat → Nat → α) (n k : Nat) (ks : List Nat) :
    zipStar ((k :: ks).map fun k => (List.range n).map (p k)) =
      (List.range n).map fun o => (k :: ks).map fun k => p k o := by
  induction ks generalizing k with
  | nil => simp only [map_cons, map_nil, zipStar, map_map, Function.comp_def]
  | cons k' ks ih =>
    have hrest := ih k'
    rw [map_cons] at hrest
    rw [map_cons, map_cons, zipStar, hrest, zipWith_map, zipWith_self]
    · rfl
    · exact fun h => (nomatch h)

/-- **Partial sums.**  What the ranks add up to. -/
theorem mergePartials_eq (p : Nat → Nat → K) (n : Nat) {degree : Nat} (hdegree : 0 < degree) :
    mergePartials ((List.range degree).map fun k => (List.range n).map (p k)) =
      (List.range n).map fun o => ((List.range degree).map fun k => p k o).sum := by
  obtain ⟨ks, hks⟩ : ∃ ks, List.range degree = 0 :: ks := by
    rw [← Nat.sub_add_cancel hdegree, range_succ_eq_map]
    exact ⟨_, rfl⟩
  rw [mergePartials, hks, zipStar_map, map_map]
  rfl

/-- The error of two lists of one length can be taken. -/
theorem exists_maxAbs [LinearOrder K] {full merged : List K} (h : full.length = merged.length) :
    ∃ m, maxAbs full merged = .ok m := by
  rw [maxAbs]
  split_ifs with hfull
  · exact ⟨0, rfl⟩
  · rcases hmax : (List.zipWith (fun a b => |a - b|) full merged).max? with - | m
    · have hnil := List.max?_eq_none_iff.mp hmax
      rw [zipWith_eq_nil_iff] at hnil
      rcases hnil with hnil | hnil
      · exact absurd hnil hfull
      · rw [hnil] at h
        exact absurd (length_eq_zero_iff.mp h) hfull
    · exact ⟨m, rfl⟩

end Merging

/-! ### The row split -/

section Row

variable {K : Type}

theorem shapeProd_two (a b : Nat) : shapeProd [(a : Int), (b : Int)] = (a * b : Nat) := by
  show 1 * (a : Int) * b = _
  rw [one_mul, Nat.cast_mul]

theorem shapeProd_one (b : Nat) : shapeProd [(b : Int)] = b := one_mul _

theorem ShardAxis.row_ne_none : ShardAxis.row ≠ .none := nofun

theorem ShardAxis.column_ne_none : ShardAxis.column ≠ .none := nofun

theorem ShardAxis.index_lt_two (shardAxis : ShardAxis) {a b : Int} :
    shardAxis.index < [a, b].length := by
  show shardAxis.index < 2
  cases shardAxis <;> decide

/-- Shard `i` of the rows of a matrix. -/
def rowShard (paramName : String) (degree base columns : Nat) (i : Fin degree) : ShardSpec :=
  axisShard paramName [((degree * base : Nat) : Int), (columns : Int)] .row (degree * base) degree
    ShardAxis.row_ne_none (ShardAxis.index_lt_two _) i

/-- Shard `i` of the columns of a matrix. -/
def columnShard (paramName : String) (rows degree base : Nat) (i : Fin degree) : ShardSpec :=
  axisShard paramName [(rows : Int), ((degree * base : Nat) : Int)] .column (degree * base) degree
    ShardAxis.column_ne_none (ShardAxis.index_lt_two _) i

variable {rows columns degree base : Nat} (paramName : String)

theorem planAxisShards_row (hdegree : 0 < degree) (base columns : Nat) :
    planAxisShards paramName [((degree * base : Nat) : Int), (columns : Int)] .row degree =
      .ok ((List.finRange degree).map (rowShard paramName degree base columns)) :=
  planAxisShards_eq (by decide) rfl hdegree (.inl (Nat.dvd_mul_right degree base))

theorem planAxisShards_column (hdegree : 0 < degree) (rows base : Nat) :
    planAxisShards paramName [(rows : Int), ((degree * base : Nat) : Int)] .column degree =
      .ok ((List.finRange degree).map (columnShard paramName rows degree base)) :=
  planAxisShards_eq (by decide) rfl hdegree (.inl (Nat.dvd_mul_right degree base))

variable {paramName}

theorem width_rowShard (i : Fin degree) :
    (rowShard paramName degree base columns i).stop -
      (rowShard paramName degree base columns i).start = base := by
  rw [rowShard, axisShard_start, axisShard_stop, Nat.succ_mul, Nat.cast_add, add_sub_cancel_left]

theorem width_columnShard (i : Fin degree) :
    (columnShard paramName rows degree base i).stop -
      (columnShard paramName rows degree base i).start = base := by
  rw [columnShard, axisShard_start, axisShard_stop, Nat.succ_mul, Nat.cast_add, add_sub_cancel_left]

theorem splitFlat_row {values : List K} (hvalues : values.length = degree * base * columns)
    (i : Fin degree) :
    splitFlat values [((degree * base : Nat) : Int), (columns : Int)]
      (rowShard paramName degree base columns i) =
    .ok (sliceOf values (i * base * columns : Nat) ((i + 1) * base * columns : Nat)) := by
  have hlength : (values.length : Int) =
      shapeProd [((degree * base : Nat) : Int), (columns : Int)] := by
    rw [shapeProd_two, hvalues]
  rw [splitFlat, require, if_pos hlength]
  show Except.ok (sliceOf values ((rowShard paramName degree base columns i).start *
    shapeProd [(columns : Int)]) ((rowShard paramName degree base columns i).stop *
    shapeProd [(columns : Int)])) = _
  rw [rowShard, axisShard_start, axisShard_stop, shapeProd_one, ← Nat.cast_mul, ← Nat.cast_mul]

theorem splitFlat_column {values : List K} (hvalues : values.length = rows * (degree * base))
    (i : Fin degree) :
    splitFlat values [(rows : Int), ((degree * base : Nat) : Int)]
      (columnShard paramName rows degree base i) =
    .ok (columnsOf values rows (degree * base) base i) := by
  have hlength : (values.length : Int) =
      shapeProd [(rows : Int), ((degree * base : Nat) : Int)] := by
    rw [shapeProd_two, hvalues]
  rw [splitFlat, require, if_pos hlength]
  rw [columnShard, axisShard_start, axisShard_stop, columnsOf]
  push_cast
  rfl

end Row

/-! ### What the cases report -/

section Reports

variable {K : Type} [Ring K] [LinearOrder K] {weight x : List K}
  {outFeatures inFeatures rows degree base : Nat}

variable (weight x inFeatures rows degree base)

def rankOrder : List K :=
  (List.range degree).flatMap fun k => (List.range rows).flatMap fun row =>
    (List.range base).map fun o => entry weight x inFeatures (k * base + o) row

def rowOrder : List K :=
  (List.range rows).flatMap fun row => (List.range degree).flatMap fun k =>
    (List.range base).map fun o => entry weight x inFeatures (k * base + o) row

omit [LinearOrder K] in
theorem length_orders : (rowOrder weight x inFeatures rows degree base).length =
      (rankOrder weight x inFeatures rows degree base).length := by
  simp only [rowOrder, rankOrder, List.length_flatMap, List.length_map,
    List.map_const', List.sum_replicate_nat]
  ring

variable {weight x inFeatures rows degree base}

/-- **The column-parallel case** reports the outputs by input row and by rank. -/
theorem columnParallelCase_eq (hdegree : 0 < degree) (hin : 0 < inFeatures) (hrows : 1 ≤ rows)
    (hweight : weight.length = degree * base * inFeatures) (hx : x.length = rows * inFeatures) :
    ∃ r, columnParallelCase weight (degree * base : Nat) inFeatures degree x = .ok r ∧
      matmul weight (degree * base : Nat) inFeatures x rows = .ok r.full ∧
      r.full = rowOrder weight x inFeatures rows degree base ∧
      r.shardedMerged = rankOrder weight x inFeatures rows degree base := by
  have hshards : ((List.finRange degree).map (rowShard "w" degree base inFeatures)).mapM
      (splitFlat weight [((degree * base : Nat) : Int), (inFeatures : Int)]) =
      .ok ((List.range degree).map fun k =>
        sliceOf weight (k * base * inFeatures : Nat) ((k + 1) * base * inFeatures : Nat)) :=
    mapM_finRange fun i => splitFlat_row hweight i
  have hfloor : floorDiv (x.length : Int) inFeatures = .ok (rows : Int) := by
    rw [floorDiv, if_neg (by omega), hx, Nat.cast_mul,
      Int.mul_fdiv_cancel _ (by omega : (inFeatures : Int) ≠ 0)]
  have hfull := matmul_eq hweight hx hrows
  have hparts : ((((List.range degree).map fun k => sliceOf weight (k * base * inFeatures : Nat)
        ((k + 1) * base * inFeatures : Nat)).zip
      ((List.finRange degree).map (rowShard "w" degree base inFeatures))).mapM fun p =>
        matmul p.1 (p.2.stop - p.2.start) inFeatures x rows) =
      .ok ((List.range degree).map fun k => (List.range rows).flatMap fun row =>
        (List.range base).map fun o => entry weight x inFeatures (k * base + o) row) := by
    rw [map_range_eq_finRange, zip_map']
    refine mapM_finRange fun i => ?_
    rw [width_rowShard, matmul_eq (length_rows hweight i.isLt) hx hrows]
    refine congrArg Except.ok (flatMap_congr fun row _ => ?_)
    exact map_congr_left fun o ho => entry_rows (mem_range.mp ho)
  have hfullOrder : ((List.range rows).flatMap fun row => (List.range (degree * base)).map fun o =>
      entry weight x inFeatures o row) = rowOrder weight x inFeatures rows degree base :=
    flatMap_congr fun row _ => map_range_mul _ _ _
  rw [hfullOrder] at hfull
  obtain ⟨error, herror⟩ := exists_maxAbs (length_orders weight x inFeatures rows degree base)
  refine ⟨⟨degree, rowOrder weight x inFeatures rows degree base,
    rankOrder weight x inFeatures rows degree base, error, (((List.range degree).map fun k =>
      sliceOf weight (k * base * inFeatures : Nat)
        ((k + 1) * base * inFeatures : Nat)).map List.length).sum * 2⟩, ?_, hfull, rfl, rfl⟩
  refine (bind_of_ok (planAxisShards_row "w" hdegree base inFeatures) _).trans ?_
  refine (bind_of_ok hshards _).trans ?_
  refine (bind_of_ok hfloor _).trans ?_
  refine (bind_of_ok hfull _).trans ?_
  refine (bind_of_ok hparts _).trans ?_
  exact bind_of_ok herror _

omit [LinearOrder K] in
/-- The partial sums of rank `k`. -/
def partialOutputs (weight x : List K) (outFeatures degree base k : Nat) : List K :=
  (List.range outFeatures).map fun o => ((List.range base).map fun i =>
    weight.getD (o * (degree * base) + (k * base + i)) 0 * x.getD (k * base + i) 0).sum

section Partial

variable (hweight : weight.length = outFeatures * (degree * base)) (hx : x.length = degree * base)

include hx

omit [LinearOrder K] [Ring K] in
theorem length_slice {k : Nat} (hk : k < degree) :
    (sliceOf x (k * base : Nat) ((k + 1) * base : Nat)).length = base := by
  have hend : (k + 1) * base ≤ x.length := by
    rw [hx]
    exact Nat.mul_le_mul_right _ hk
  rw [length_sliceOf hend, Nat.succ_mul, Nat.add_sub_cancel_left]

include hweight

omit [LinearOrder K] in
theorem matmul_columnsOf {k : Nat} (hk : k < degree) :
    matmul (columnsOf weight outFeatures (degree * base) base k) outFeatures base
      (sliceOf x (k * base : Nat) ((k + 1) * base : Nat)) 1 =
      .ok (partialOutputs weight x outFeatures degree base k) := by
  rw [matmul_one (length_columnsOf hweight hk) (length_slice hx hk)]
  exact congrArg Except.ok
    (map_congr_left fun o ho => entry_columns hweight hk (mem_range.mp ho))

omit [LinearOrder K] in
/-- **The partial sums add up** to the whole product. -/
theorem matmul_eq_mergePartials (hdegree : 0 < degree) :
    matmul weight outFeatures (degree * base : Nat) x 1 = .ok (mergePartials
      ((List.range degree).map (partialOutputs weight x outFeatures degree base))) := by
  rw [matmul_one hweight hx]
  refine congrArg Except.ok (Eq.trans ?_ (mergePartials_eq _ outFeatures hdegree).symm)
  refine map_congr_left fun o _ => ?_
  have hsum := sum_range_mul (fun i => weight.getD (o * (degree * base) + i) 0 * x.getD i 0)
    degree base
  rw [← hsum, entry, zero_mul]
  simp only [Nat.zero_add]

end Partial

/-- **The row-parallel case** reports the whole product. -/
theorem rowParallelCase_eq (hdegree : 0 < degree)
    (hweight : weight.length = outFeatures * (degree * base)) (hx : x.length = degree * base) :
    ∃ r, rowParallelCase weight outFeatures (degree * base : Nat) degree x = .ok r ∧
      matmul weight outFeatures (degree * base : Nat) x 1 = .ok r.merged := by
  have hrow : x.length = 1 * (degree * base) := by rw [hx, one_mul]
  have hslice : ∀ k, columnsOf x 1 (degree * base) base k =
      sliceOf x (k * base : Nat) ((k + 1) * base : Nat) := by
    intro k
    rw [columnsOf, range_one, flatMap_singleton, zero_mul, zero_add,
      zero_add]
  have hpartials : (((List.finRange degree).map (columnShard "w" outFeatures degree base)).zip
      ((List.finRange degree).map (columnShard "x" 1 degree base))).mapM (fun p => do
        let shard ← splitFlat weight [(outFeatures : Int), ((degree * base : Nat) : Int)] p.1
        let xShard ← splitFlat x [1, ((degree * base : Nat) : Int)] p.2
        matmul shard outFeatures (p.1.stop - p.1.start) xShard 1) =
      .ok ((List.range degree).map (partialOutputs weight x outFeatures degree base)) := by
    rw [zip_map']
    refine mapM_finRange fun i => ?_
    refine (bind_of_ok (splitFlat_column hweight i) _).trans ?_
    refine (bind_of_ok (splitFlat_column hrow i) _).trans ?_
    rw [width_columnShard, hslice]
    exact matmul_columnsOf hweight hx i.isLt
  have hfull := matmul_eq_mergePartials hweight hx hdegree
  obtain ⟨error, herror⟩ := exists_maxAbs (rfl : (mergePartials
    ((List.range degree).map (partialOutputs weight x outFeatures degree base))).length = _)
  refine ⟨⟨degree, (List.range degree).map (partialOutputs weight x outFeatures degree base), _,
    error, outFeatures * 2⟩, ?_, hfull⟩
  refine (bind_of_ok (planAxisShards_column "w" hdegree outFeatures base) _).trans ?_
  refine (bind_of_ok (planAxisShards_column "x" hdegree 1 base) _).trans ?_
  refine (bind_of_ok hpartials _).trans ?_
  refine (bind_of_ok hfull _).trans ?_
  exact bind_of_ok herror _

omit [LinearOrder K] in
/-- **The MLP block** computes what the unsharded block does, for any activation. -/
theorem mlpBlockCase_eq (activation : K → K) {hidden : Nat} {gate up down : List K}
    (hdegree : 0 < degree) (hx : x.length = hidden)
    (hgate : gate.length = degree * base * hidden) (hup : up.length = degree * base * hidden)
    (hdown : down.length = hidden * (degree * base)) :
    ∃ r g u, mlpBlockCase activation hidden (degree * base : Nat) degree x gate up down = .ok r ∧
      matmul gate (degree * base : Nat) hidden x 1 = .ok g ∧
      matmul up (degree * base : Nat) hidden x 1 = .ok u ∧
      matmul down hidden (degree * base : Nat)
        (List.zipWith (fun a b => activation a * b) g u) 1 = .ok r.merged := by
  have hg := matmul_one hgate hx
  have hu := matmul_one hup hx
  -- the whole activated vector
  obtain ⟨active, hactive⟩ : ∃ active, active = (List.range (degree * base)).map fun o =>
    activation (entry gate x hidden o 0) * entry up x hidden o 0 := ⟨_, rfl⟩
  have hlength : active.length = degree * base := by
    rw [hactive, length_map, length_range]
  have hzip : List.zipWith (fun a b => activation a * b)
      ((List.range (degree * base)).map fun o => entry gate x hidden o 0)
      ((List.range (degree * base)).map fun o => entry up x hidden o 0) = active := by
    rw [hactive, zipWith_map, zipWith_self]
  have hranks : (((List.finRange degree).map (rowShard "gate_up" degree base hidden)).zip
      ((List.finRange degree).map (columnShard "down" hidden degree base))).mapM (fun p =>
        mlpRank activation hidden (degree * base : Nat) x gate up down p.1 p.2) =
      .ok ((List.range degree).map fun k => (sliceOf active (k * base : Nat) ((k + 1) * base : Nat),
        partialOutputs down active hidden degree base k)) := by
    rw [zip_map']
    refine mapM_finRange fun i => ?_
    have hlocal : (List.range base).map (fun j =>
        activation (((List.range base).map fun o => entry (sliceOf gate (i * base * hidden : Nat)
          ((i + 1) * base * hidden : Nat)) x hidden o 0).getD j 0) *
        ((List.range base).map fun o => entry (sliceOf up (i * base * hidden : Nat)
          ((i + 1) * base * hidden : Nat)) x hidden o 0).getD j 0) =
        sliceOf active (i * base : Nat) ((i + 1) * base : Nat) := by
      rw [hactive, sliceOf_map_range _ (Nat.mul_le_mul_right _ i.isLt)]
      refine map_congr_left fun j hj => ?_
      have hj := mem_range.mp hj
      rw [getD_map_range _ hj, getD_map_range _ hj, entry_rows hj, entry_rows hj]
    rw [mlpRank, width_rowShard, Int.toNat_natCast]
    refine (bind_of_ok (splitFlat_row hgate i) _).trans ?_
    refine (bind_of_ok (splitFlat_row hup i) _).trans ?_
    refine (bind_of_ok (matmul_one (length_rows hgate i.isLt) hx) _).trans ?_
    refine (bind_of_ok (matmul_one (length_rows hup i.isLt) hx) _).trans ?_
    refine (bind_of_ok (splitFlat_column hdown i) _).trans ?_
    rw [width_columnShard, hlocal]
    exact bind_of_ok (matmul_columnsOf hdown hlength i.isLt) _
  have hmerged := matmul_eq_mergePartials hdown hlength hdegree
  refine ⟨⟨degree, mergePartials ((List.range degree).map
    (partialOutputs down active hidden degree base)), (List.range degree).map fun k =>
      sliceOf active (k * base : Nat) ((k + 1) * base : Nat), hidden * 2⟩, _, _, ?_, hg, hu, ?_⟩
  · have hrequire : require ((x.length : Int) = hidden) "x" = .ok () := if_pos (by rw [hx])
    refine (bind_of_ok hrequire _).trans ?_
    refine (bind_of_ok (planAxisShards_row "gate_up" hdegree base hidden) _).trans ?_
    refine (bind_of_ok (planAxisShards_column "down" hdegree hidden base) _).trans ?_
    refine (bind_of_ok hranks _).trans ?_
    rw [map_map, map_map]
    rfl
  · rw [hzip]
    exact hmerged

end Reports

/-! ### Rank order and row order -/

section Orders

variable {K : Type} [Ring K] {weight x : List K} {inFeatures rows degree base : Nat}

theorem rankOrder_eq_rowOrder (h : rows = 1 ∨ degree = 1 ∨ base = 0) :
    rankOrder weight x inFeatures rows degree base =
      rowOrder weight x inFeatures rows degree base := by
  rcases h with rfl | rfl | rfl
  · simp only [rankOrder, rowOrder, range_one, flatMap_singleton]
  · simp only [rankOrder, rowOrder, range_one, flatMap_singleton]
  · simp only [rankOrder, rowOrder, range_zero, map_nil, flatMap_eq_nil_iff.mpr,
      implies_true]

def firstRowZero (K : Type) [Ring K] (rows inFeatures : Nat) : List K :=
  List.replicate inFeatures 0 ++ List.replicate ((rows - 1) * inFeatures) 1

theorem entry_firstRow (o n : Nat) :
    entry (List.replicate n 1) (firstRowZero K rows inFeatures) inFeatures o 0 = 0 := by
  refine sum_eq_zero fun v hv => ?_
  obtain ⟨i, hi, rfl⟩ := mem_map.mp hv
  have hread : (firstRowZero K rows inFeatures).getD (0 * inFeatures + i) 0 = 0 := by
    rw [zero_mul, zero_add, getD_eq_getElem?_getD, firstRowZero,
      List.getElem?_append_left (by rw [length_replicate]; exact mem_range.mp hi),
      List.getElem?_replicate, if_pos (mem_range.mp hi)]
    rfl
  rw [hread, mul_zero]

theorem entry_secondRow (hrows : 2 ≤ rows) {o n : Nat} (hn : (o + 1) * inFeatures ≤ n) :
    entry (List.replicate n 1) (firstRowZero K rows inFeatures) inFeatures o 1 = inFeatures := by
  have hone : ∀ i ∈ List.range inFeatures, (List.replicate n (1 : K)).getD (o * inFeatures + i) 0 *
      (firstRowZero K rows inFeatures).getD (1 * inFeatures + i) 0 = 1 := by
    intro i hi
    have hi := mem_range.mp hi
    have hweight : o * inFeatures + i < n := by
      rw [Nat.succ_mul] at hn
      omega
    have hinput : i < (rows - 1) * inFeatures :=
      hi.trans_le (Nat.le_mul_of_pos_left _ (Nat.sub_pos_of_lt hrows))
    rw [getD_eq_getElem?_getD, List.getElem?_replicate, if_pos hweight, one_mul,
      getD_eq_getElem?_getD, firstRowZero,
      List.getElem?_append_right (by rw [length_replicate]; exact Nat.le_add_right _ _),
      length_replicate, Nat.add_sub_cancel_left, List.getElem?_replicate, if_pos hinput]
    exact one_mul 1
  rw [entry, map_congr_left hone, map_const', length_range, sum_replicate,
    nsmul_one]

omit [Ring K] in
/-- Where the second block starts in the first of some lists of blocks. -/
theorem getElem?_secondBlock {f : Nat → Nat → Nat → K} {l n m : Nat} (hl : 0 < l) (hn : 2 ≤ n)
    (hm : 0 < m) :
    ((List.range l).flatMap fun j => (List.range n).flatMap fun k =>
      (List.range m).map (f j k))[m]? = some (f 0 1 0) := by
  have hlength : m < ((List.range n).flatMap fun k => (List.range m).map (f 0 k)).length := by
    simp only [List.length_flatMap, List.length_map, List.length_range, List.map_const',
      sum_replicate_nat]
    exact (Nat.lt_mul_iff_one_lt_left hm).mpr hn
  have hblock : 0 < ((List.range m).map (f 0 1)).length := by
    rwa [length_map, length_range]
  have hfirst := getElem?_flatMap (fun j => (List.range n).flatMap fun k =>
    (List.range m).map (f j k)) hl hlength
  have hsecond := getElem?_flatMap (fun k => (List.range m).map (f 0 k)) hn hblock
  rw [startOf_zero, zero_add] at hfirst
  rw [startOf_succ, startOf_zero, zero_add, length_map, length_range,
    List.getElem?_map, List.getElem?_range hm] at hsecond
  exact hfirst.trans hsecond

/-- **Two input rows on two ranks** come out in different orders. -/
theorem rankOrder_ne_rowOrder [CharZero K] (hrows : 2 ≤ rows) (hdegree : 2 ≤ degree)
    (hbase : 0 < base) (hin : 0 < inFeatures) :
    rankOrder (List.replicate (degree * base * inFeatures) (1 : K)) (firstRowZero K rows inFeatures)
        inFeatures rows degree base ≠
      rowOrder (List.replicate (degree * base * inFeatures) (1 : K))
        (firstRowZero K rows inFeatures) inFeatures rows degree base := by
  intro h
  -- position `base` holds the second row's first output in one order, and the first row's output
  -- of rank 1 in the other
  have hrank : (rankOrder (List.replicate (degree * base * inFeatures) (1 : K))
      (firstRowZero K rows inFeatures) inFeatures rows degree base)[base]? =
      some (inFeatures : K) := by
    refine (getElem?_secondBlock (by omega) hrows hbase).trans (congrArg some ?_)
    rw [entry_secondRow hrows]
    rw [Nat.zero_mul, Nat.one_mul]
    exact Nat.le_mul_of_pos_left _ (Nat.mul_pos (by omega) hbase)
  have hrow : (rowOrder (List.replicate (degree * base * inFeatures) (1 : K))
      (firstRowZero K rows inFeatures) inFeatures rows degree base)[base]? = some 0 := by
    exact (getElem?_secondBlock (by omega) hdegree hbase).trans
      (congrArg some (entry_firstRow _ _))
  rw [h, hrow] at hrank
  exact Nat.cast_ne_zero.mpr (Nat.pos_iff_ne_zero.mp hin) (Option.some.inj hrank).symm

end Orders

/-! ### The claim of the cases -/

section Agreement

variable (K : Type) [Ring K] [LinearOrder K]

/-- The column-parallel case reports the unsharded product. -/
def ColumnAgrees (outFeatures inFeatures degree rows : Nat) : Prop :=
  ∀ weight x : List K, weight.length = outFeatures * inFeatures → x.length = rows * inFeatures →
    ∃ r, columnParallelCase weight outFeatures inFeatures degree x = .ok r ∧
      matmul weight outFeatures inFeatures x rows = .ok r.full ∧ r.shardedMerged = r.full

/-- The row-parallel case reports the unsharded product. -/
def RowAgrees (outFeatures inFeatures degree : Nat) : Prop :=
  ∀ weight x : List K, weight.length = outFeatures * inFeatures → x.length = inFeatures →
    ∃ r, rowParallelCase weight outFeatures inFeatures degree x = .ok r ∧
      matmul weight outFeatures inFeatures x 1 = .ok r.merged

omit [LinearOrder K] in
/-- The MLP block reports `down * (act(gate * x) * (up * x))`. -/
def MlpAgrees (hidden intermediate degree : Nat) : Prop :=
  ∀ (activation : K → K) (x gate up down : List K), x.length = hidden →
    gate.length = intermediate * hidden → up.length = intermediate * hidden →
    down.length = hidden * intermediate →
    ∃ r g u, mlpBlockCase activation hidden intermediate degree x gate up down = .ok r ∧
      matmul gate intermediate hidden x 1 = .ok g ∧ matmul up intermediate hidden x 1 = .ok u ∧
      matmul down hidden intermediate (List.zipWith (fun a b => activation a * b) g u) 1 =
        .ok r.merged

variable {K}

/-- **Tensor-parallel products.**  The row-parallel case and the MLP block always report the
unsharded product; the column-parallel case does for one input row, one rank or no output. -/
theorem parallel_cases_iff [IsStrictOrderedRing K] {outFeatures inFeatures degree rows : Nat}
    (hin : 1 ≤ inFeatures) (hdegree : 1 ≤ degree) (hdvd : degree ∣ outFeatures)
    (hrows : 1 ≤ rows) :
    (ColumnAgrees K outFeatures inFeatures degree rows ∧
      (∀ outputs inputs, degree ∣ inputs → RowAgrees K outputs inputs degree) ∧
      ∀ hidden intermediate, degree ∣ intermediate → MlpAgrees K hidden intermediate degree) ↔
    rows = 1 ∨ degree = 1 ∨ outFeatures = 0 := by
  obtain ⟨base, rfl⟩ := hdvd
  have hnone : degree * base = 0 ↔ base = 0 := by
    rw [Nat.mul_eq_zero]
    exact or_iff_right (Nat.pos_iff_ne_zero.mp hdegree)
  have hcolumn : ColumnAgrees K (degree * base) inFeatures degree rows ↔
      rows = 1 ∨ degree = 1 ∨ base = 0 := by
    constructor
    · intro hagrees
      by_contra hcond
      push Not at hcond
      obtain ⟨hone, hrank, hbase⟩ := hcond
      have hinput : (firstRowZero K rows inFeatures).length = rows * inFeatures := by
        rw [firstRowZero, length_append, length_replicate, length_replicate,
          Nat.sub_mul, one_mul]
        exact Nat.add_sub_cancel' (Nat.le_mul_of_pos_left _ hrows)
      have hweight : (List.replicate (degree * base * inFeatures) (1 : K)).length =
          degree * base * inFeatures := length_replicate
      obtain ⟨r, hok, -, hfull⟩ := hagrees _ _ hweight hinput
      obtain ⟨r', hok', -, hrow, hmerged⟩ :=
        columnParallelCase_eq hdegree hin hrows hweight hinput
      cases hok.symm.trans hok'
      rw [hrow, hmerged] at hfull
      exact rankOrder_ne_rowOrder (by omega) (by omega) (Nat.pos_iff_ne_zero.mpr hbase) hin hfull
    · intro hcond weight x hweight hx
      obtain ⟨r, hok, hmatmul, hfull, hmerged⟩ :=
        columnParallelCase_eq hdegree hin hrows hweight hx
      refine ⟨r, hok, hmatmul, ?_⟩
      rw [hfull, hmerged]
      exact rankOrder_eq_rowOrder hcond
  rw [hnone, ← hcolumn]
  constructor
  · exact fun h => h.1
  · intro hagrees
    refine ⟨hagrees, ?_, ?_⟩
    · rintro outputs - ⟨size, rfl⟩ weight x hweight hx
      exact rowParallelCase_eq hdegree hweight hx
    · rintro hidden - ⟨size, rfl⟩ activation x gate up down hx hgate hup hdown
      exact mlpBlockCase_eq activation hdegree hx hgate hup hdown

/-- One row through two ranks. -/
theorem one_row_agrees : ColumnAgrees ℚ 2 1 2 1 ∧
    (∀ outputs inputs, 2 ∣ inputs → RowAgrees ℚ outputs inputs 2) ∧
    ∀ hidden intermediate, 2 ∣ intermediate → MlpAgrees ℚ hidden intermediate 2 :=
  (parallel_cases_iff (le_refl 1) one_le_two (Nat.dvd_refl 2) (le_refl 1)).mpr (.inl rfl)

/-- Two rows through two ranks come out rank by rank. -/
theorem two_rows_by_rank : ¬ ColumnAgrees ℚ 2 1 2 2 := by
  intro h
  obtain ⟨r, hok, -, hmerged⟩ := h [1, 10] [1, 2] rfl rfl
  have hweight : ([1, 10] : List ℚ).length = 2 * 1 * 1 := rfl
  have hinput : ([1, 2] : List ℚ).length = 2 * 1 := rfl
  obtain ⟨r', hok', -, hrow, hrank⟩ :=
    columnParallelCase_eq (Nat.two_pos) Nat.one_pos one_le_two hweight hinput
  cases hok.symm.trans hok'
  rw [hrow, hrank] at hmerged
  revert hmerged
  decide +kernel

end Agreement

end Hqsb.Distributed
