/-
Hqsb/Lib/Buckets.lean

Bucketing the entries of a list by a key, and writing results back bucket by bucket.

Bucket `k` holds the entries with key `k`, in order.  If the keys that occur are the numbers
below `n`, going through the sorted buckets meets every entry once, so writing `g i` at each
index `i` of each bucket leaves the list of all `g i`.
-/
import Hqsb.Lib.OrderedDict

namespace Lib.Buckets

open List

variable {ι κ : Type*} [DecidableEq κ]

def enter (key : ι → κ) (d : OrderedDict κ (List ι)) (i : ι) : OrderedDict κ (List ι) :=
  d.set (key i) ((d.get? (key i)).getD [] ++ [i])

def bucket (key : ι → κ) (l : List ι) : OrderedDict κ (List ι) := l.foldl (enter key) .empty

variable (key : ι → κ)

theorem bucket_concat (l : List ι) (i : ι) :
    bucket key (l ++ [i]) = enter key (bucket key l) i := by
  rw [bucket, foldl_append, foldl_cons, foldl_nil, bucket]

/-- **A bucket** holds the entries of its key. -/
theorem getD_get?_bucket (l : List ι) (k : κ) :
    ((bucket key l).get? k).getD [] = l.filter fun i => decide (key i = k) := by
  induction l using List.reverseRecOn with
  | nil => rfl
  | append_singleton l i ih =>
    rw [bucket_concat, enter, OrderedDict.get?_set]
    split_ifs with hk
    · subst hk
      simp [ih]
    · simp [ih, Ne.symm hk]

theorem mem_keys_bucket (l : List ι) (k : κ) : k ∈ (bucket key l).keys ↔ ∃ i ∈ l, key i = k := by
  induction l using List.reverseRecOn with
  | nil => simp [bucket]
  | append_singleton l i ih =>
    rw [bucket_concat, enter, OrderedDict.mem_keys_set, ih]
    simp [or_comm, eq_comm]

theorem insertionSort_keys_eq_range {ν : Type*} (d : OrderedDict Nat ν) {n : Nat}
    (h : ∀ k, k ∈ d.keys ↔ k < n) : d.keys.insertionSort (· ≤ ·) = List.range n := by
  have hperm : (d.keys.insertionSort (· ≤ ·)).Perm (List.range n) := by
    refine (perm_insertionSort _ _).trans ?_
    apply (perm_ext_iff_of_nodup d.nodup_keys nodup_range).mpr
    intro k
    rw [h, mem_range]
  exact hperm.eq_of_pairwise' (pairwise_insertionSort _ _) (pairwise_le_range)

/-! ### Writing back -/

section Scatter

variable {β : Type*} (g : Nat → β)

def writeAt (indices : List Nat) (l : List β) : List β :=
  (indices.zip (indices.map g)).foldl (fun l e => l.set e.1 e.2) l

theorem getElem?_writeAt (indices : List Nat) (l : List β) (j : Nat) :
    (writeAt g indices l)[j]? = if j ∈ indices then l[j]?.map fun _ => g j else l[j]? := by
  induction indices generalizing l with
  | nil => rfl
  | cons i indices ih =>
    show (writeAt g indices (l.set i (g i)))[j]? = _
    rw [ih]
    rcases eq_or_ne i j with rfl | hij
    · by_cases hi : i < l.length <;> simp [hi]
    · simp [hij, hij.symm]

theorem getElem?_foldl_writeAt (buckets : List (List Nat)) (l : List β) (j : Nat) :
    (buckets.foldl (fun l indices => writeAt g indices l) l)[j]? =
      if ∃ indices ∈ buckets, j ∈ indices then l[j]?.map fun _ => g j else l[j]? := by
  induction buckets generalizing l with
  | nil => simp
  | cons indices buckets ih =>
    rw [foldl_cons, ih, getElem?_writeAt]
    by_cases hj : j ∈ indices
    · simp [hj, Function.comp_def]
    · simp [hj]

/-- **All results.**  Buckets that cover the indices of a list fill it. -/
theorem foldl_writeAt (buckets : List (List Nat)) (l : List β)
    (h : ∀ j < l.length, ∃ indices ∈ buckets, j ∈ indices) :
    buckets.foldl (fun l indices => writeAt g indices l) l = (List.range l.length).map g := by
  apply ext_getElem?
  intro j
  rw [getElem?_foldl_writeAt, List.getElem?_map]
  by_cases hj : j < l.length
  · rw [if_pos (h j hj), List.getElem?_eq_getElem hj, List.getElem?_range hj]
    rfl
  · have hnone : l[j]? = none := List.getElem?_eq_none (not_lt.mp hj)
    have hrange : (List.range l.length)[j]? = none :=
      List.getElem?_eq_none (by rw [length_range]; exact not_lt.mp hj)
    rw [hnone, hrange]
    split_ifs <;> rfl

theorem foldl_zipIdx_map {γ : Type*} (f : γ → β) (codes : List γ) (start : Nat) (l : List β) :
    (codes.zipIdx start).foldl (fun l e => l.set e.2 (f e.1)) l =
      ((codes.map f).zipIdx start).foldl (fun l e => l.set e.2 e.1) l := by
  rw [zipIdx_map, foldl_map]
  rfl

theorem foldl_zipIdx_eq_writeAt (start n : Nat) (l : List β) :
    (((List.range' start n).map g).zipIdx start).foldl (fun l e => l.set e.2 e.1) l =
      writeAt g (List.range' start n) l := by
  induction n generalizing start l with
  | zero => rfl
  | succ n ih =>
    rw [List.range'_succ, map_cons, zipIdx_cons, foldl_cons, ih]
    rfl

end Scatter

/-- A slice of the indices. -/
theorem filter_range_eq_range' {p : Nat → Bool} {n start length : Nat} (hle : start + length ≤ n)
    (h : ∀ i < n, p i = true ↔ start ≤ i ∧ i < start + length) :
    (List.range n).filter p = List.range' start length := by
  have hsorted := (pairwise_lt_range (n := n)).filter p
  have hnodup := (nodup_range (n := n)).filter p
  have hperm : ((List.range n).filter p).Perm (List.range' start length) := by
    apply (perm_ext_iff_of_nodup hnodup nodup_range').mpr
    intro i
    rw [mem_filter, mem_range, mem_range'_1]
    constructor
    · exact fun hi => (h i hi.1).mp hi.2
    · intro hi
      have hlt : i < n := by omega
      exact ⟨hlt, (h i hlt).mpr hi⟩
  exact hperm.eq_of_pairwise (fun a b _ _ hab hba => absurd hab hba.asymm) hsorted
    pairwise_lt_range'

theorem map_range'_getD {β : Type*} (l : List β) (d : β) {start n : Nat}
    (h : start + n ≤ l.length) :
    (List.range' start n).map (fun i => l.getD i d) = (l.drop start).take n := by
  apply ext_getElem
  · rw [length_map, length_range', length_take, length_drop]
    omega
  · intro i hi _
    rw [length_map, length_range'] at hi
    rw [getElem_map, getElem_range', getElem_take, getElem_drop, one_mul,
      getD_eq_getElem _ _ (by omega)]

end Lib.Buckets
