/-
Hqsb/Distributed/ShardRoundTrip.lean

Splitting a tensor and merging its shards (`merge_flat` of `hqsb/distributed/parallel_plan.py`).

Shards of the first axis are slices of the flat tensor, and shards of the second one are slices of
its rows.  A column split takes a row to be as long as the second axis: it leaves out what lies
behind that in a tensor of a higher rank, so that the shards are too short and the merge is refused
(`shard_round_trip_iff`).
-/
import Hqsb.Lib.Rows
import Hqsb.Distributed.Shards

namespace Hqsb.Distributed

open Lib Lib.Tiling Lib.Rows List

/-! ### Merging -/

def ShardSpec.localShape (spec : ShardSpec) : List Int :=
  match spec.shardAxis with
  | .none => spec.globalShape
  | axis => spec.globalShape.set axis.index (spec.stop - spec.start)

def ShardSpec.numel (spec : ShardSpec) : Int := shapeProd spec.localShape

section Merge

variable {α : Type}

/-- The inner loop of a column merge: the segment of one row is put behind what the row has. -/
def mergeRow (rows : Nat) (shard : List α) (merged : List (List α)) (r : Nat) : List (List α) :=
  let length := shard.length / rows
  let merged := if merged.length ≤ r then merged ++ [[]] else merged
  merged.modify r (· ++ row length shard r)

def mergeColumns (rows : Nat) (shards : List (List α)) : List α :=
  (shards.foldl (fun merged shard => (List.range rows).foldl (mergeRow rows shard) merged)
    []).flatten

/-- Reassemble the axis shards back into the global tensor. -/
def mergeFlat (shards : List (List α)) (template : ShardSpec) (globalShape : List Int) :
    Except PlanRaise (List α) :=
  match template.shardAxis with
  | .none => .ok (shards.head?.getD [])
  | .row => do
    require ((shards.flatten.length : Int) = shapeProd globalShape) ""
    return shards.flatten
  | .column => match globalShape with
    | rows :: _ :: _ => do
      let merged := mergeColumns rows.toNat shards
      require ((merged.length : Int) = shapeProd globalShape) ""
      return merged
    | _ => .error .indexError

/-! ### The merge of columns -/

theorem modify_map_range (g : Nat → List α) (s : List α) (n k : Nat) :
    ((List.range k).map g).modify n (· ++ s) =
      (List.range k).map fun r => g r ++ if r = n then s else [] := by
  refine ext_getElem? fun i => ?_
  rw [List.getElem?_modify, List.getElem?_map, List.getElem?_map]
  rcases lt_or_ge i k with hi | hi
  · rw [List.getElem?_range hi]
    by_cases h : n = i
    · simp [h]
    · simp [h, Ne.symm h]
  · rw [List.getElem?_eq_none (by rwa [length_range])]
    rfl

/-- One shard.  Rows that are not there yet are empty. -/
theorem foldl_mergeRow {rows m : Nat} {g : Nat → List α}
    (hg : ∀ r, m ≤ r → r < rows → g r = []) (shard : List α) {n : Nat} (hn : n ≤ rows) :
    (List.range n).foldl (mergeRow rows shard) ((List.range m).map g) =
      (List.range (max n m)).map fun r =>
        g r ++ if r < n then row (shard.length / rows) shard r else [] := by
  induction n with
  | zero => simp
  | succ n ih =>
    rw [range_succ, foldl_append, ih (Nat.le_of_succ_le hn), foldl_cons, mergeRow]
    set seg := row (shard.length / rows) shard
    have hrows : (if ((List.range (max n m)).map fun r => g r ++ if r < n then seg r else []).length
          ≤ n then ((List.range (max n m)).map fun r => g r ++ if r < n then seg r else []) ++ [[]]
        else (List.range (max n m)).map fun r => g r ++ if r < n then seg r else []) =
        (List.range (max (n + 1) m)).map fun r => g r ++ if r < n then seg r else [] := by
      rw [length_map, length_range]
      split_ifs with h
      · have hmn : m ≤ n := (le_max_right n m).trans h
        rw [max_eq_left hmn, max_eq_left (Nat.le_succ_of_le hmn), range_succ,
          map_append, map_singleton, hg n hmn hn, if_neg (lt_irrefl n)]
        rfl
      · rw [max_eq_right (by omega), max_eq_right (by omega)]
    rw [hrows, modify_map_range]
    refine map_congr_left fun r _ => ?_
    rcases lt_trichotomy r n with h | rfl | h
    · simp [h, h.ne, Nat.lt_succ_of_lt h]
    · simp
    · rw [if_neg h.not_gt, if_neg h.ne', if_neg (by omega), append_nil]

/-- **The rows** of merged shards, one after the other. -/
theorem mergeColumns_eq (rows : Nat) {shards : List (List α)} (hne : shards ≠ []) :
    mergeColumns rows shards = (List.range rows).flatMap fun r =>
      shards.flatMap fun shard => row (shard.length / rows) shard r := by
  have hshard : ∀ {m : Nat} (_ : m ≤ rows) (g : Nat → List α)
      (_ : ∀ r, m ≤ r → r < rows → g r = []) (shard : List α),
      (List.range rows).foldl (mergeRow rows shard) ((List.range m).map g) =
        (List.range rows).map fun r => g r ++ row (shard.length / rows) shard r := by
    intro m hm g hg shard
    rw [foldl_mergeRow hg shard le_rfl, max_eq_left hm]
    exact map_congr_left fun r hr => by rw [if_pos (mem_range.mp hr)]
  have hloop : ∀ (shards : List (List α)) (g : Nat → List α),
      shards.foldl (fun merged shard => (List.range rows).foldl (mergeRow rows shard) merged)
        ((List.range rows).map g) = (List.range rows).map fun r =>
          g r ++ shards.flatMap fun shard => row (shard.length / rows) shard r := by
    intro shards
    induction shards with
    | nil => simp
    | cons shard shards ih =>
      intro g
      rw [foldl_cons, hshard le_rfl g (fun r hr hlt => absurd hlt (not_lt.mpr hr)), ih]
      simp
  obtain ⟨shard, shards, rfl⟩ := exists_cons_of_ne_nil hne
  have hfirst : (List.range rows).foldl (mergeRow rows shard) [] =
      (List.range rows).map fun r => [] ++ row (shard.length / rows) shard r :=
    hshard (Nat.zero_le rows) (fun _ => []) (fun _ _ _ => rfl) shard
  rw [mergeColumns, foldl_cons, hfirst, hloop, List.flatMap]
  simp

end Merge

/-! ### What is planned -/

theorem shapeProd_cast (shape : List Nat) :
    shapeProd (shape.map Nat.cast) = (shape.prod : Nat) := by
  rw [shapeProd, ← prod_eq_foldl, Nat.cast_list_prod]

section Planned

variable {paramName : String} {shape : List Nat} {axis : ShardAxis} {count : Nat}
  {allowPadding : Bool} {specs : List ShardSpec}

/-- Where shards are planned, they are those of the axis. -/
theorem planAxisShards_eq_ok (hcount : 0 < count)
    (h : planAxisShards paramName (shape.map Nat.cast) axis count allowPadding = .ok specs) :
    ∃ total haxis hlt, shape[axis.index]? = some total ∧ specs = (List.finRange count).map
      (axisShard paramName (shape.map Nat.cast) axis total count haxis hlt) := by
  have h' := h
  obtain ⟨_, haxis, h⟩ := bind_ok_iff.mp h
  have haxis : axis ≠ .none := not_not.mp fun hnone => by
    rw [require, if_neg hnone] at haxis
    cases haxis
  rcases htotal : shape[axis.index]? with - | total
  · rw [List.getElem?_map, htotal] at h
    cases h
  have hget : (shape.map Nat.cast : List Int)[axis.index]? = some (total : Int) := by
    rw [List.getElem?_map, htotal]
    rfl
  have hpad : count ∣ total ∨ allowPadding = true := by
    by_contra hpad
    obtain ⟨hdvd, hno⟩ := not_or.mp hpad
    have hrest : (total : Int).fmod count ≠ 0 := by
      rw [Int.fmod_eq_emod_of_nonneg _ (Int.natCast_nonneg _)]
      exact fun hzero => hdvd (Int.natCast_dvd_natCast.mp (Int.dvd_of_emod_eq_zero hzero))
    rw [hget] at h
    dsimp only at h
    rw [if_neg (by omega), require, if_neg (not_not.mpr ⟨hrest, Bool.not_eq_true _ ▸ hno⟩)] at h
    cases h
  rw [planAxisShards_eq haxis hget hcount hpad] at h'
  exact ⟨total, haxis, lt_of_axis hget, rfl, (Except.ok.inj h').symm⟩

end Planned

theorem forall₂_finRange {β γ : Type} {n : Nat} {R : β → γ → Prop} {s : Fin n → β} {g : Nat → γ} :
    List.Forall₂ R ((List.finRange n).map s) ((List.range n).map g) ↔
      ∀ i : Fin n, R (s i) (g i) := by
  rw [← map_coe_finRange_eq_range, map_map, forall₂_map_left_iff,
    forall₂_map_right_iff, forall₂_same]
  exact ⟨fun h i => h i (mem_finRange i), fun h i _ => h i⟩

/-! ### Round trips -/

section RoundTrip

variable {α : Type} {values : List α} {paramName : String} {rows columns count : Nat}
  {rest : List Nat}

/-- Every shard has the elements of its shape, and merging gives the tensor back. -/
def RoundTrips (values : List α) (shape : List Int) (specs : List ShardSpec) : Prop :=
  ∃ shards, specs.mapM (splitFlat values shape) = .ok shards ∧
    List.Forall₂ (fun spec shard => (shard.length : Int) = spec.numel) specs shards ∧
    ∀ template ∈ specs, mergeFlat shards template shape = .ok values

/-- Where shard `i` of an axis starts. -/
def startOf (total count i : Nat) : Nat := cut (total / count) (total % count) i

theorem startOf_mono (total count : Nat) : Monotone (startOf total count) := cut_mono _ _

theorem startOf_zero (total count : Nat) : startOf total count 0 = 0 := cut_zero _ _

theorem length_part {a b : Nat} (h : b ≤ values.length) :
    ((values.take b).drop a).length = b - a := by
  rw [length_drop, length_take, min_eq_left h]

/-- **Rows** are slices of the tensor. -/
theorem roundTrips_row (hcount : 0 < count) (haxis : ShardAxis.row ≠ .none) (hlt)
    (hvalues : values.length = (rows :: rest).prod) :
    RoundTrips values ((rows :: rest).map Nat.cast) ((List.finRange count).map
      (axisShard paramName ((rows :: rest).map Nat.cast) .row rows count haxis hlt)) := by
  have hlength : (values.length : Int) = shapeProd ((rows :: rest).map Nat.cast) := by
    rw [shapeProd_cast, hvalues]
  rw [prod_cons] at hvalues
  have hmono : Monotone fun i => startOf rows count i * rest.prod := fun i j h =>
    Nat.mul_le_mul_right _ (startOf_mono rows count h)
  have hend : startOf rows count count = rows := cut_total rows hcount
  refine ⟨_, mapM_finRange (g := fun i =>
    (values.take (startOf rows count (i + 1) * rest.prod)).drop (startOf rows count i * rest.prod))
    fun i => ?_, forall₂_finRange.mpr fun i => ?_, fun template htemplate => ?_⟩
  · unfold splitFlat
    rw [require, if_pos hlength]
    show Except.ok (sliceOf values (((cut _ _ i : Nat) : Int) * shapeProd (rest.map Nat.cast))
      (((cut _ _ (i + 1) : Nat) : Int) * shapeProd (rest.map Nat.cast))) = _
    rw [shapeProd_cast, ← Nat.cast_mul, ← Nat.cast_mul]
    rfl
  · have hle : startOf rows count (i + 1) * rest.prod ≤ values.length := by
      have h := hmono (i.isLt : i.val + 1 ≤ count)
      dsimp only at h
      rwa [hend, ← hvalues] at h
    rw [length_part hle, ← Nat.sub_mul]
    show _ = shapeProd (((startOf rows count (i + 1) : Nat) - (startOf rows count i : Nat) : Int) ::
      rest.map Nat.cast)
    rw [← Nat.cast_sub (startOf_mono rows count i.val.le_succ), ← map_cons (f := Nat.cast),
      shapeProd_cast, prod_cons]
  · obtain ⟨i, -, rfl⟩ := mem_map.mp htemplate
    have hflatten := flatMap_slices values hmono count
    rw [hend, ← hvalues, take_length, startOf_zero, zero_mul, drop_zero,
      List.flatMap] at hflatten
    show (require _ "" >>= fun _ => _) = _
    rw [hflatten, require, if_pos hlength]
    rfl

/-- Shard `i` of the columns: a slice of each row. -/
def columnsAt (values : List α) (rows columns count i : Nat) : List α :=
  (List.range rows).flatMap fun r =>
    (values.take (r * columns + startOf columns count (i + 1))).drop
      (r * columns + startOf columns count i)

section Columns

variable {i r : Nat}

theorem le_columns (columns : Nat) (hcount : 0 < count) (hi : i ≤ count) :
    startOf columns count i ≤ columns :=
  (startOf_mono columns count hi).trans_eq (cut_total columns hcount)

theorem length_rowSlice (hcount : 0 < count) (hi : i < count) (hr : r < rows)
    (hvalues : rows * columns ≤ values.length) :
    ((values.take (r * columns + startOf columns count (i + 1))).drop
      (r * columns + startOf columns count i)).length =
      startOf columns count (i + 1) - startOf columns count i := by
  have hstop := le_columns columns hcount (i := i + 1) hi
  have hrow : (r + 1) * columns ≤ rows * columns := Nat.mul_le_mul_right columns hr
  rw [Nat.succ_mul] at hrow
  rw [length_part (by omega)]
  omega

theorem length_columnsAt (hcount : 0 < count) (hi : i < count)
    (hvalues : rows * columns ≤ values.length) : (columnsAt values rows columns count i).length =
      rows * (startOf columns count (i + 1) - startOf columns count i) :=
  length_flatMap_range fun _ hr => length_rowSlice hcount hi hr hvalues

/-- **Merging the columns** of a list of rows gives it back. -/
theorem mergeColumns_columnsAt (hcount : 0 < count) (hvalues : values.length = rows * columns) :
    mergeColumns rows ((List.range count).map (columnsAt values rows columns count)) = values := by
  have hne : (List.range count).map (columnsAt values rows columns count) ≠ [] := by
    simp [hcount.ne']
  have hrow : ∀ r < rows, (((List.range count).map (columnsAt values rows columns count)).flatMap
      fun shard => row (shard.length / rows) shard r) = row columns values r := by
    intro r hr
    have hmono : Monotone fun i => r * columns + startOf columns count i := fun _ _ h =>
      Nat.add_le_add_left (startOf_mono columns count h) _
    have hslices := flatMap_slices values hmono count
    have hend : startOf columns count count = columns := cut_total columns hcount
    rw [hend, startOf_zero, Nat.add_zero, drop_take, Nat.add_sub_cancel_left] at hslices
    rw [flatMap_map]
    refine Eq.trans (flatMap_congr fun i hi => ?_) hslices
    have hi := mem_range.mp hi
    rw [length_columnsAt hcount hi hvalues.ge, Nat.mul_div_cancel_left _ (Nat.zero_lt_of_lt hr)]
    exact row_flatMap (fun _ hr => length_rowSlice hcount hi hr hvalues.ge) hr
  have hall : ((List.range rows).flatMap fun r =>
      ((List.range count).map (columnsAt values rows columns count)).flatMap fun shard =>
        row (shard.length / rows) shard r) = (List.range rows).flatMap (row columns values) :=
    flatMap_congr fun r hr => hrow r (mem_range.mp hr)
  rw [mergeColumns_eq rows hne, hall, flatMap_row, ← hvalues, take_length]

end Columns

theorem roundTrips_columnsAt_iff (hcount : 0 < count) (haxis : ShardAxis.column ≠ .none) (hlt)
    (hvalues : values.length = (rows :: columns :: rest).prod) :
    RoundTrips values ((rows :: columns :: rest).map Nat.cast) ((List.finRange count).map
        (axisShard paramName ((rows :: columns :: rest).map Nat.cast) .column columns count haxis
          hlt)) ↔
      (∀ i : Fin count, (columnsAt values rows columns count i).length =
        rows * ((startOf columns count (i + 1) - startOf columns count i) * rest.prod)) ∧
      mergeColumns rows ((List.range count).map (columnsAt values rows columns count)) =
        values := by
  have hlength : (values.length : Int) = shapeProd ((rows :: columns :: rest).map Nat.cast) := by
    rw [shapeProd_cast, hvalues]
  have hsplit : ((List.finRange count).map (axisShard paramName
      ((rows :: columns :: rest).map Nat.cast) .column columns count haxis hlt)).mapM
        (splitFlat values ((rows :: columns :: rest).map Nat.cast)) =
      .ok ((List.range count).map (columnsAt values rows columns count)) := by
    refine mapM_finRange fun i => ?_
    unfold splitFlat
    rw [require, if_pos hlength]
    show Except.ok ((List.range (rows : Int).toNat).flatMap fun (r : Nat) => sliceOf values
      (r * (columns : Int) + (startOf columns count i : Nat))
      (r * (columns : Int) + (startOf columns count (i + 1) : Nat))) = _
    refine congrArg Except.ok (flatMap_congr fun r _ => ?_)
    rw [← Nat.cast_mul, ← Nat.cast_add, ← Nat.cast_add, sliceOf_nat]
  have hnumel : ∀ i : Fin count, (axisShard paramName ((rows :: columns :: rest).map Nat.cast)
      .column columns count haxis hlt i).numel = ((rows *
        ((startOf columns count (i + 1) - startOf columns count i) * rest.prod) : Nat) : Int) := by
    intro i
    show shapeProd ((rows : Int) :: ((startOf columns count (i + 1) : Nat) -
      (startOf columns count i : Nat) : Int) :: rest.map Nat.cast) = _
    rw [← Nat.cast_sub (startOf_mono columns count i.val.le_succ), ← map_cons (f := Nat.cast),
      ← map_cons (f := Nat.cast), shapeProd_cast, prod_cons, prod_cons]
  have hmerge : ∀ shards : List (List α), mergeColumns rows shards = values ↔ ∀ template ∈
      (List.finRange count).map (axisShard paramName ((rows :: columns :: rest).map Nat.cast)
        .column columns count haxis hlt),
      mergeFlat shards template ((rows :: columns :: rest).map Nat.cast) = .ok values := by
    intro shards
    constructor
    · intro heq template htemplate
      obtain ⟨i, -, rfl⟩ := mem_map.mp htemplate
      show (require (((mergeColumns rows shards).length : Int) = _) "" >>= fun _ => _) = _
      rw [heq, require, if_pos hlength]
      exact congrArg Except.ok heq
    · intro h
      obtain ⟨_, -, h⟩ := bind_ok_iff.mp
        (h _ (mem_map_of_mem (mem_finRange ⟨0, hcount⟩)))
      exact Except.ok.inj h
  constructor
  · rintro ⟨shards, hshards, hall, hmerged⟩
    cases hsplit.symm.trans hshards
    refine ⟨fun i => ?_, (hmerge _).mpr hmerged⟩
    exact Int.ofNat.inj ((forall₂_finRange.mp hall i).trans (hnumel i))
  · rintro ⟨hall, hmerged⟩
    refine ⟨_, hsplit, forall₂_finRange.mpr fun i => ?_, (hmerge _).mp hmerged⟩
    rw [hall i, hnumel i]

theorem startOf_one_pos {total : Nat} (htotal : 0 < total) : 0 < startOf total count 1 := by
  have hdiv := Nat.div_add_mod total count
  rw [startOf, cut, one_mul]
  rcases Nat.eq_zero_or_pos (total / count) with hbase | hbase
  · -- fewer columns than shards: they are all left over
    rw [hbase, mul_zero, zero_add] at hdiv
    rw [hdiv]
    exact Nat.lt_add_left _ (Nat.lt_min.mpr ⟨Nat.one_pos, htotal⟩)
  · exact Nat.lt_add_right _ hbase

/-- **Columns** come back if nothing lies behind the second axis. -/
theorem roundTrips_column_iff (hcount : 0 < count) (haxis : ShardAxis.column ≠ .none) (hlt)
    (hvalues : values.length = (rows :: columns :: rest).prod) :
    RoundTrips values ((rows :: columns :: rest).map Nat.cast) ((List.finRange count).map
        (axisShard paramName ((rows :: columns :: rest).map Nat.cast) .column columns count haxis
          hlt)) ↔
      rest.prod = 1 ∨ (rows :: columns :: rest).prod = 0 := by
  rw [roundTrips_columnsAt_iff hcount haxis hlt hvalues]
  rw [prod_cons, prod_cons] at hvalues ⊢
  constructor
  · rintro ⟨hall, -⟩
    by_contra hnot
    obtain ⟨hone, hzero⟩ := not_or.mp hnot
    obtain ⟨hrows, hinner⟩ := Nat.mul_ne_zero_iff.mp hzero
    obtain ⟨hcolumns, hrest⟩ := Nat.mul_ne_zero_iff.mp hinner
    have hle : rows * columns ≤ values.length := by
      rw [hvalues]
      exact Nat.mul_le_mul_left _ (Nat.le_mul_of_pos_right _ (pos_of_ne_zero hrest))
    have hfirst := hall ⟨0, hcount⟩
    rw [length_columnsAt hcount hcount hle, startOf_zero] at hfirst
    have hwidth := Nat.eq_of_mul_eq_mul_left (pos_of_ne_zero hrows) hfirst
    exact hone (Nat.eq_of_mul_eq_mul_left (startOf_one_pos (pos_of_ne_zero hcolumns))
      (hwidth.symm.trans (mul_one _).symm))
  · intro h
    rcases Nat.eq_zero_or_pos values.length with hnil | hpos
    · -- nothing to split
      obtain rfl := length_eq_zero_iff.mp hnil
      have hnone : ∀ i, columnsAt ([] : List α) rows columns count i = [] := fun i => by
        simp [columnsAt]
      refine ⟨fun i => ?_, ?_⟩
      · have hle := le_columns columns hcount (i := i + 1) i.isLt
        rw [hnone, length_nil]
        have hzero : rows * (columns * rest.prod) = 0 := hvalues.symm
        rcases Nat.mul_eq_zero.mp hzero with hrows | hinner
        · rw [hrows, zero_mul]
        · rcases Nat.mul_eq_zero.mp hinner with hcolumns | hrest
          · rw [Nat.le_zero.mp (hle.trans_eq hcolumns), Nat.zero_sub, zero_mul, mul_zero]
          · rw [hrest, mul_zero, mul_zero]
      · rw [mergeColumns_eq rows (by simp [hcount.ne'])]
        simp +contextual [hnone, row]
    · have hone : rest.prod = 1 := h.resolve_right (hvalues ▸ hpos.ne')
      have hplain : values.length = rows * columns := by rw [hvalues, hone, mul_one]
      refine ⟨fun i => ?_, mergeColumns_columnsAt hcount hplain⟩
      rw [length_columnsAt hcount i.isLt hplain.ge, hone, mul_one]

end RoundTrip

/-- **Shards that are planned come back** as the tensor they were cut from, but for columns of a
tensor with more than two axes. -/
theorem shard_round_trip_iff {α : Type} (paramName : String) (shape : List Nat) (axis : ShardAxis)
    (count : Nat) (hcount : 0 < count) (allowPadding : Bool) (specs : List ShardSpec)
    (h : planAxisShards paramName (shape.map Nat.cast) axis count allowPadding = .ok specs)
    (values : List α) (hvalues : values.length = shape.prod) :
    RoundTrips values (shape.map Nat.cast) specs ↔
      axis = .row ∨ (shape.drop 2).prod = 1 ∨ shape.prod = 0 := by
  obtain ⟨total, haxis, hlt, htotal, rfl⟩ := planAxisShards_eq_ok hcount h
  cases axis with
  | none => exact absurd rfl haxis
  | row =>
    rcases shape with - | ⟨rows, rest⟩
    · cases htotal
    · cases htotal
      exact iff_of_true (roundTrips_row hcount haxis hlt hvalues) (.inl rfl)
  | column =>
    rcases shape with - | ⟨rows, - | ⟨columns, rest⟩⟩
    · cases htotal
    · cases htotal
    · cases htotal
      rw [roundTrips_column_iff hcount haxis hlt hvalues,
        or_iff_right (by decide : ¬ ShardAxis.column = .row)]
      rfl

/-- Two rows on three shards. -/
theorem shard_round_trip_three :
    ∃ specs, planAxisShards "weight" [2, 2] .row 3 true = .ok specs ∧
      RoundTrips ["a", "b", "c", "d"] [2, 2] specs := by
  have hplan : planAxisShards "weight" [2, 2] .row 3 true = .ok _ := planAxisShards_eq (by decide)
    (rfl : ([2, 2] : List Int)[0]? = some ((2 : Nat) : Int)) (by decide) (.inr rfl)
  exact ⟨_, hplan, (shard_round_trip_iff "weight" [2, 2] .row 3 (by decide) true _ hplan
    ["a", "b", "c", "d"] rfl).mpr (.inl rfl)⟩

/-- The columns of a 1×2×2 tensor on two shards: each gets one element of its two. -/
theorem inner_axis_dropped :
    ∃ specs, planAxisShards "weight" [1, 2, 2] .column 2 false = .ok specs ∧
      ¬ RoundTrips ["a", "b", "c", "d"] [1, 2, 2] specs := by
  refine ⟨_, planAxisShards_eq (by decide)
    (rfl : ([1, 2, 2] : List Int)[1]? = some ((2 : Nat) : Int)) (by decide) (.inl (by decide)), ?_⟩
  rintro ⟨shards, hshards, hall, -⟩
  cases hshards
  exact absurd hall (by decide)

end Hqsb.Distributed
