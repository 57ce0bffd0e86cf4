/-
Hqsb/Distributed/Collectives.lean

Collectives on the CPU (`LoopbackCollectiveExecutor` and the `oracle_*` functions of
`hqsb/distributed/collectives.py`).

All-to-all exchanges rows and columns, and a gather in another order of the ranks is the gather of
the inputs in that order.  A reduce-scatter always adds up: gathered again, its outputs are the
output of the all-reduce exactly when the reduction of the spec gives the sums as well.
-/
import Hqsb.Lib.Rows
import Hqsb.Lib.Traverse
import Hqsb.Lib.OrderedDict

namespace Hqsb.Collectives

open Lib Lib.Rows List

/-! ### Oracles -/

inductive CollectiveError where
  | noInput
  | unequal
  | unsupported (reduceOp : String)
  | notPermutation (orderedRanks : List Nat) (count : Nat)
  | indivisible
  | outside (root : Int) (count : Nat)
  | noRoot
  | notSquare
  | wrongCount (expected got : Nat)
  | needsMatrix (op : String)

def column (inputs : List (List Int)) (index : Nat) : List Int :=
  inputs.map fun item => item.getD index 0

/-- The reductions of `reduce_op`. -/
def reduction : String → Option (List Int → Int)
  | "sum" => some List.sum
  | "max" => some fun values => values.max?.getD 0
  | "min" => some fun values => values.min?.getD 0
  | _ => none

def oracleAllReduce (inputs : List (List Int)) (reduceOp : String) :
    Except CollectiveError (List Int) :=
  match inputs with
  | [] => .error .noInput
  | first :: _ =>
    if inputs.any fun item => item.length ≠ first.length then .error .unequal
    else
      match reduction reduceOp with
      | none => .error (.unsupported reduceOp)
      | some reduce => .ok ((List.range first.length).map fun index => reduce (column inputs index))

def oracleAllGather (inputs : List (List Int)) :
    Option (List Nat) → Except CollectiveError (List Int)
  | none => .ok inputs.flatten
  | some orderedRanks =>
    if (orderedRanks.mergeSort fun a b => a ≤ b) ≠ List.range inputs.length then
      .error (.notPermutation orderedRanks inputs.length)
    else .ok (orderedRanks.map fun rank => inputs.getD rank []).flatten

/-- Reduce element-wise, then keep only this rank's contiguous 1/p segment. -/
def oracleReduceScatter (inputs : List (List Int)) (rank : Nat) :
    Except CollectiveError (List Int) := do
  let reduced ← oracleAllReduce inputs "sum"
  if reduced.length % inputs.length ≠ 0 then .error .indivisible
  else .ok (row (reduced.length / inputs.length) reduced rank)

def oracleBroadcast (inputs : List (List Int)) (root : Int) : Except CollectiveError (List Int) :=
  if root < 0 ∨ inputs.length ≤ root then .error (.outside root inputs.length)
  else .ok (inputs.getD root.toNat [])

/-- `chunks[src][dst]` becomes `received[dst][src]`. -/
def oracleAllToAll (chunks : List (List (List Int))) :
    Except CollectiveError (List (List (List Int))) :=
  if chunks.any fun row => row.length ≠ chunks.length then .error .notSquare
  else .ok ((List.range chunks.length).map fun dst =>
    (List.range chunks.length).map fun src => (chunks.getD src []).getD dst [])

/-! ### The executor -/

def OPS : List String :=
  ["all_reduce", "all_gather", "reduce_scatter", "all_to_all", "all_to_all_v", "broadcast"]

/-- The names of `DTYPE_BYTES`. -/
def DTYPES : List String :=
  ["int8", "uint8", "fp16", "bf16", "fp32", "int32", "fp64", "int64"]

/-- A collective of a known kind; a broadcast has a root, and nothing else has one. -/
structure CollectiveSpec where
  op : String
  root : Option Int := none
  reduceOp : String := "sum"
  dtype : String := "fp16"
  op_mem : op ∈ OPS := by decide
  root_iff : root.isSome ↔ op = "broadcast" := by decide
  dtype_mem : dtype ∈ DTYPES := by decide

structure LoopbackResult where
  op : String
  outputsByRank : OrderedDict Nat (List Int) := .empty
  collectiveSeq : Nat
  error : Option CollectiveError := none

structure LoopbackCollectiveExecutor where
  worldSize : Nat
  seq : Nat := 0
  worldSize_pos : 0 < worldSize

def byRank (outputs : List (List Int)) : OrderedDict Nat (List Int) where
  entries := (List.range outputs.length).zip outputs
  nodup := by
    rw [map_fst_zip (by simp)]
    exact nodup_range

/-- `[list(inputs[rank]) for rank in sorted(inputs)]` -/
def ordered (inputs : OrderedDict Nat (List Int)) : List (List Int) :=
  (inputs.entries.mergeSort fun a b => a.1 ≤ b.1).map Prod.snd

namespace LoopbackCollectiveExecutor

def outputs (p : Nat) (spec : CollectiveSpec) (ordered : List (List Int)) (root : Option Int) :
    Except CollectiveError (List (List Int)) :=
  if spec.op = "all_reduce" then (oracleAllReduce ordered spec.reduceOp).map (replicate p)
  else if spec.op = "all_gather" then (oracleAllGather ordered none).map (replicate p)
  else if spec.op = "reduce_scatter" then (List.range p).mapM (oracleReduceScatter ordered)
  else if spec.op = "broadcast" then
    match root.or spec.root with
    | none => .error .noRoot
    | some root => (oracleBroadcast ordered root).map (replicate p)
  else .error (.needsMatrix spec.op)

def execute (ex : LoopbackCollectiveExecutor) (spec : CollectiveSpec)
    (inputs : OrderedDict Nat (List Int)) (root : Option Int) :
    LoopbackResult × LoopbackCollectiveExecutor :=
  let result := if (ordered inputs).length ≠ ex.worldSize then
      .error (.wrongCount ex.worldSize (ordered inputs).length)
    else outputs ex.worldSize spec (ordered inputs) root
  (match result with
    | .error e => { op := spec.op, collectiveSeq := ex.seq + 1, error := some e }
    | .ok outs => { op := spec.op, outputsByRank := byRank outs, collectiveSeq := ex.seq + 1 },
    { ex with seq := ex.seq + 1 })

end LoopbackCollectiveExecutor

/-! ### Exchanges -/

/-- **All-to-all is undone by itself.** -/
theorem oracleAllToAll_twice {chunks : List (List (List Int))}
    (h : ∀ row ∈ chunks, row.length = chunks.length) :
    (oracleAllToAll chunks).bind oracleAllToAll = .ok chunks := by
  have hany : ∀ {chunks : List (List (List Int))},
      (∀ row ∈ chunks, row.length = chunks.length) →
      ¬ (chunks.any fun row => row.length ≠ chunks.length) = true := by simp
  rw [oracleAllToAll, if_neg (hany h), Except.bind, oracleAllToAll, if_neg (hany (by simp))]
  refine congrArg _ (ext_getElem (by simp) fun dst _ hdst => ?_)
  refine ext_getElem (by simp [h _ (getElem_mem hdst)]) fun src hsrc hsrc' => ?_
  have hsquare := h _ (getElem_mem hdst)
  simp [hdst, hsquare ▸ hsrc', hsrc']

theorem oracleAllGather_some {inputs : List (List Int)} {orderedRanks : List Nat}
    (h : orderedRanks.Perm (List.range inputs.length)) :
    oracleAllGather inputs (some orderedRanks) =
      oracleAllGather (orderedRanks.map fun rank => inputs.getD rank []) none := by
  have hsorted : (orderedRanks.mergeSort fun a b => a ≤ b) = List.range inputs.length :=
    ((mergeSort_perm ..).trans h).eq_of_sortedLE sortedLE_mergeSort (sortedLT_range _).sortedLE
  simp only [oracleAllGather, hsorted, ne_eq, not_true_eq_false, if_false]

/-! ### Reductions -/

section

variable {rows : List (List Int)} {reduceOp : String} {reduce : List Int → Int} {n p : Nat}

def reduced (reduce : List Int → Int) (n : Nat) (rows : List (List Int)) : List Int :=
  (List.range n).map fun index => reduce (column rows index)

theorem oracleAllReduce_ok (hreduce : reduction reduceOp = some reduce) (hne : rows ≠ [])
    (hlen : ∀ item ∈ rows, item.length = n) :
    oracleAllReduce rows reduceOp = .ok (reduced reduce n rows) := by
  cases rows with
  | nil => exact absurd rfl hne
  | cons first rest =>
    have hfirst : first.length = n := hlen first mem_cons_self
    have hany : ¬ ((first :: rest).any fun item => item.length ≠ first.length) = true := by
      simpa [hfirst] using fun item h => hlen item (mem_cons_of_mem first h)
    rw [oracleAllReduce, if_neg hany, hreduce, hfirst]
    rfl

theorem oracleReduceScatter_ok (hne : rows ≠ []) (hlen : ∀ item ∈ rows, item.length = n)
    (hdvd : rows.length ∣ n) (rank : Nat) : oracleReduceScatter rows rank =
      .ok (row (n / rows.length) (reduced List.sum n rows) rank) := by
  have hn : (reduced List.sum n rows).length = n := by simp [reduced]
  rw [oracleReduceScatter, oracleAllReduce_ok (show reduction "sum" = some List.sum from rfl) hne
    hlen]
  show (if _ then _ else _) = _
  rw [hn, if_neg (not_not.mpr (Nat.mod_eq_zero_of_dvd hdvd))]

theorem flatten_rows (hdvd : p ∣ n) :
    ((List.range p).map (row (n / p) (reduced reduce n rows))).flatten = reduced reduce n rows := by
  rw [← flatMap_def, flatMap_row, Nat.mul_div_cancel' hdvd]
  exact take_of_length_le (by simp [reduced])

theorem values_byRank (outputs : List (List Int)) : (byRank outputs).values = outputs :=
  map_snd_zip (by simp)

theorem ordered_byRank (outputs : List (List Int)) : ordered (byRank outputs) = outputs := by
  have hranks : ((byRank outputs).entries.map Prod.fst).Pairwise (· ≤ ·) := by
    rw [byRank, map_fst_zip (by simp)]
    exact pairwise_le_range
  rw [ordered, mergeSort_of_pairwise ((pairwise_map.mp hranks).imp (by simp))]
  exact values_byRank outputs

end

/-! ### The executor -/

namespace LoopbackCollectiveExecutor

variable {ex : LoopbackCollectiveExecutor} {spec : CollectiveSpec}
  {inputs : OrderedDict Nat (List Int)} {outs : List (List Int)}

theorem execute_ok (hcount : (ordered inputs).length = ex.worldSize)
    (h : outputs ex.worldSize spec (ordered inputs) none = .ok outs) :
    (ex.execute spec inputs none).1.outputsByRank = byRank outs := by
  rw [execute, if_neg (not_not.mpr hcount), h]

/-- The outputs of a reduce-scatter, gathered in the order of the ranks. -/
def gathered (ex : LoopbackCollectiveExecutor) (reduceOp : String)
    (inputs : OrderedDict Nat (List Int)) : OrderedDict Nat (List Int) :=
  let scattered := ex.execute { op := "reduce_scatter", reduceOp := reduceOp } inputs none
  (scattered.2.execute { op := "all_gather", reduceOp := reduceOp }
    scattered.1.outputsByRank none).1.outputsByRank

section

variable {reduceOp : String} {reduce : List Int → Int} {n : Nat}
  (hcount : inputs.entries.length = ex.worldSize) (hlen : ∀ item ∈ inputs.values, item.length = n)

include hcount hlen

theorem ordered_shape : (ordered inputs).length = ex.worldSize ∧ ordered inputs ≠ [] ∧
    ∀ item ∈ ordered inputs, item.length = n := by
  have hperm : (ordered inputs).Perm inputs.values := (mergeSort_perm ..).map Prod.snd
  have hlength : (ordered inputs).length = ex.worldSize := by
    rw [hperm.length_eq, OrderedDict.values, length_map, hcount]
  exact ⟨hlength, ne_nil_of_length_pos (hlength ▸ ex.worldSize_pos), fun item h =>
    hlen item (hperm.mem_iff.mp h)⟩

theorem allReduce_eq (hreduce : reduction reduceOp = some reduce) :
    (ex.execute { op := "all_reduce", reduceOp := reduceOp } inputs none).1.outputsByRank =
      byRank (replicate ex.worldSize (reduced reduce n (ordered inputs))) := by
  obtain ⟨hlength, hne, hrows⟩ := ordered_shape hcount hlen
  exact execute_ok hlength
    (congrArg (Except.map (replicate ex.worldSize)) (oracleAllReduce_ok hreduce hne hrows))

/-- **A reduce-scatter adds up**, whatever the reduction of its spec. -/
theorem gathered_eq (hdvd : ex.worldSize ∣ n) : ex.gathered reduceOp inputs =
    byRank (replicate ex.worldSize (reduced List.sum n (ordered inputs))) := by
  obtain ⟨hlength, hne, hrows⟩ := ordered_shape hcount hlen
  have hscatter : (ex.execute { op := "reduce_scatter", reduceOp := reduceOp } inputs
      none).1.outputsByRank = _ := execute_ok hlength
    (mapM_eq_ok fun rank _ => oracleReduceScatter_ok hne hrows (hlength ▸ hdvd) rank)
  refine execute_ok ?_ ?_ <;> rw [hscatter, ordered_byRank]
  · rw [length_map, length_range]
    rfl
  · rw [hlength]
    exact congrArg (fun out => Except.ok (replicate ex.worldSize out)) (flatten_rows hdvd)

/-- **Reduce-scatter and all-gather make up an all-reduce exactly where the reduction gives the
sums**; the exchanges are what they should be for all inputs. -/
theorem collectives_agree_iff (hdvd : ex.worldSize ∣ n)
    (hreduce : reduction reduceOp = some reduce) :
    (ex.gathered reduceOp inputs =
        (ex.execute { op := "all_reduce", reduceOp := reduceOp } inputs none).1.outputsByRank ∧
      (∀ chunks : List (List (List Int)), (∀ row ∈ chunks, row.length = chunks.length) →
        (oracleAllToAll chunks).bind oracleAllToAll = .ok chunks) ∧
      ∀ (rows : List (List Int)) (ranks : List Nat), ranks.Perm (List.range rows.length) →
        oracleAllGather rows (some ranks) =
          oracleAllGather (ranks.map fun rank => rows.getD rank []) none) ↔
      ∀ i < n, (column (ordered inputs) i).sum = reduce (column (ordered inputs) i) := by
  refine (and_iff_left ⟨fun _ => oracleAllToAll_twice, fun _ _ => oracleAllGather_some⟩).trans ?_
  rw [gathered_eq hcount hlen hdvd, allReduce_eq hcount hlen hreduce]
  constructor
  · intro h i hi
    have heq := congrArg OrderedDict.values h
    rw [values_byRank, values_byRank] at heq
    have hrows := (replicate_right_inj ex.worldSize_pos.ne').mp heq
    exact map_inj_left.mp hrows i (mem_range.mpr hi)
  · intro h
    rw [reduced, reduced, map_inj_left.mpr fun i hi => h i (mem_range.mp hi)]

end

def twoRanks : LoopbackCollectiveExecutor := { worldSize := 2, worldSize_pos := Nat.two_pos }

theorem twoRanks_sum : twoRanks.gathered "sum" (byRank [[1, 2], [3, 4]]) =
    (twoRanks.execute { op := "all_reduce" } (byRank [[1, 2], [3, 4]]) none).1.outputsByRank :=
  ((collectives_agree_iff (n := 2) rfl (by decide) (by decide) rfl).mpr fun _ _ => rfl).1

example : twoRanks.gathered "max" (byRank [[1, 2], [3, 4]]) ≠
    (twoRanks.execute { op := "all_reduce", reduceOp := "max" } (byRank [[1, 2], [3, 4]])
      none).1.outputsByRank := by
  intro h
  rw [gathered_eq (n := 2) rfl (by decide) (by decide),
    allReduce_eq (n := 2) rfl (by decide) rfl, ordered_byRank] at h
  exact absurd (congrArg OrderedDict.values h) (by decide)

end LoopbackCollectiveExecutor

end Hqsb.Collectives
