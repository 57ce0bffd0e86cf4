/-
Hqsb/Compiler/Eviction.lean

Eviction of cache entries (`EvictionPolicy` of `hqsb/compiler/cache.py`).

The plan takes committed entries that are not in use, the least recently used one first, until it
is within its limits.  It counts the bytes of the committed entries, but the rows of all states:
what it leaves is within the limits, and it may evict more than that takes
(`eviction_minimal_iff`).
-/
import Hqsb.Compiler.EntryStore

namespace Hqsb.Compiler

open List

open EntryStore (STATE_COMMITTED)

/-! ### The plan -/

/-- A row of the cache; what it leaves out is zero or false. -/
structure EvictionRow where
  entryId : String
  bytes : Int := 0
  inUse : Bool := false
  state : String
  lastUsedIndex : Int := 0

inductive EvictionProblem where
  | limitsNotPositive
  | unknownStrategy (strategy : String)

structure EvictionPolicy where
  maxBytes : Int
  maxEntries : Int
  strategy : String := "lru"

structure EvictionPlan where
  inUseProtected : List String
  evicted : List String
  remainingBytes : Int
  ok : Bool

def committedRows (entries : List EvictionRow) : List EvictionRow :=
  entries.filter fun row => row.state = STATE_COMMITTED

/-- What can be evicted, the least recently used entry first. -/
def lruOrder (entries : List EvictionRow) : List EvictionRow :=
  (entries.filter fun row => row.inUse = false ∧ row.state = STATE_COMMITTED).mergeSort
    fun a b => a.lastUsedIndex ≤ b.lastUsedIndex

def bytesOf (rows : List EvictionRow) : Int := (rows.map (·.bytes)).sum

namespace EvictionPolicy

def validate (policy : EvictionPolicy) : List EvictionProblem :=
  (if policy.maxBytes ≤ 0 ∨ policy.maxEntries ≤ 0 then [.limitsNotPositive] else []) ++
    if policy.strategy ∈ ["lru", "ttl", "quota"] then [] else [.unknownStrategy policy.strategy]

def Within (policy : EvictionPolicy) (bytes count : Int) : Prop :=
  bytes ≤ policy.maxBytes ∧ count ≤ policy.maxEntries

instance (policy : EvictionPolicy) (bytes count : Int) : Decidable (policy.Within bytes count) :=
  inferInstanceAs (Decidable (_ ∧ _))

/-- The loop over the evictable rows: what is selected, and the bytes that remain. -/
def evict (policy : EvictionPolicy) (total : Nat) :
    List EvictionRow → List String → Int → List String × Int
  | [], selected, bytes => (selected, bytes)
  | row :: rest, selected, bytes =>
    if policy.Within bytes (total - selected.length) then (selected, bytes)
    else policy.evict total rest (selected ++ [row.entryId]) (bytes - row.bytes)

def plan (policy : EvictionPolicy) (entries : List EvictionRow) :
    Except (List EvictionProblem) EvictionPlan :=
  if policy.validate ≠ [] then .error policy.validate
  else
    let (selected, bytes) :=
      policy.evict entries.length (lruOrder entries) [] (bytesOf (committedRows entries))
    let inUse := entries.filter (·.inUse)
    .ok {
      inUseProtected := inUse.map (·.entryId)
      evicted := selected
      remainingBytes := bytes
      ok := !inUse.any fun row => row.entryId ∈ selected }

variable {policy : EvictionPolicy}

/-- **The loop** stops at the first row in front of which the limits are met. -/
theorem evict_spec (total : Nat) (rows : List EvictionRow) (selected : List String) (bytes : Int) :
    ∃ k ≤ rows.length, policy.evict total rows selected bytes =
        (selected ++ (rows.take k).map (·.entryId), bytes - bytesOf (rows.take k)) ∧
      (k < rows.length →
        policy.Within (bytes - bytesOf (rows.take k)) (total - (selected.length + k : Nat))) ∧
      ∀ j < k, ¬ policy.Within (bytes - bytesOf (rows.take j))
        (total - (selected.length + j : Nat)) := by
  induction rows generalizing selected bytes with
  | nil => exact ⟨0, le_refl 0, by simp [evict, bytesOf], nofun, nofun⟩
  | cons row rest ih =>
    rw [evict]
    split_ifs with hwithin
    · refine ⟨0, Nat.zero_le _, by simp [bytesOf], fun _ => ?_, nofun⟩
      simpa [bytesOf] using hwithin
    · obtain ⟨k, hk, heq, hstop, hbefore⟩ := ih (selected ++ [row.entryId]) (bytes - row.bytes)
      -- a prefix of the rest, with the row in front of it
      have hbytes : ∀ j, bytes - row.bytes - bytesOf (rest.take j) =
          bytes - bytesOf ((row :: rest).take (j + 1)) := fun j => by
        simp [bytesOf]
        omega
      have hcount : ∀ j, (selected ++ [row.entryId]).length + j = selected.length + (j + 1) :=
        fun j => by simp; omega
      simp only [hbytes, hcount] at heq hstop hbefore
      refine ⟨k + 1, Nat.succ_le_succ hk, ?_, fun hlt => hstop (Nat.lt_of_succ_lt_succ hlt), ?_⟩
      · rw [heq]
        simp
      · intro j hj
        cases j with
        | zero => simpa [bytesOf] using hwithin
        | succ j => exact hbefore j (Nat.lt_of_succ_lt_succ hj)

end EvictionPolicy

/-! ### What is left -/

def remaining (entries : List EvictionRow) (evicted : List String) : List EvictionRow :=
  (committedRows entries).filter fun row => row.entryId ∉ evicted

def EvictionPolicy.Meets (policy : EvictionPolicy) (entries : List EvictionRow)
    (evicted : List String) : Prop :=
  policy.Within (bytesOf (remaining entries evicted)) (remaining entries evicted).length

/-- The ids of the first `k` rows. -/
def oldest (entries : List EvictionRow) (k : Nat) : List String :=
  ((lruOrder entries).take k).map (·.entryId)

section Remaining

variable {policy : EvictionPolicy} {entries : List EvictionRow} {k : Nat}

theorem mem_lruOrder {row : EvictionRow} : row ∈ lruOrder entries ↔
    row ∈ entries ∧ row.inUse = false ∧ row.state = STATE_COMMITTED := by
  rw [lruOrder, mem_mergeSort, mem_filter, decide_eq_true_eq]

variable (hids : (entries.map (·.entryId)).Nodup)

include hids

theorem mem_take_iff {row : EvictionRow} (hrow : row ∈ entries) :
    row.entryId ∈ oldest entries k ↔ row ∈ (lruOrder entries).take k := by
  refine ⟨fun h => ?_, fun h => mem_map_of_mem h⟩
  obtain ⟨other, hother, hid⟩ := mem_map.mp h
  have hmem := (mem_lruOrder.mp (mem_of_mem_take hother)).1
  rwa [← inj_on_of_nodup_map hids hmem hrow hid]

/-- What is evicted and what is left are the committed entries. -/
theorem remaining_perm :
    ((lruOrder entries).take k ++ remaining entries (oldest entries k)).Perm
      (committedRows entries) := by
  have hnodup : entries.Nodup := List.Nodup.of_map _ hids
  have hsplit := filter_append_perm (fun row => decide (row.entryId ∈ oldest entries k))
    (committedRows entries)
  refine List.Perm.trans (List.Perm.append ?_ (List.Perm.of_eq ?_)) hsplit
  · have hperm : (lruOrder entries).Perm _ := mergeSort_perm _ _
    refine (perm_ext_iff_of_nodup ?_ ((hnodup.filter _).filter _)).mpr fun row => ?_
    · exact (hperm.nodup_iff.mpr (hnodup.filter _)).sublist (take_sublist _ _)
    · rw [mem_filter, mem_filter, decide_eq_true_eq, decide_eq_true_eq]
      constructor
      · intro h
        obtain ⟨hrow, -, hstate⟩ := mem_lruOrder.mp (mem_of_mem_take h)
        exact ⟨⟨hrow, hstate⟩, (mem_take_iff hids hrow).mpr h⟩
      · exact fun h => (mem_take_iff hids h.1.1).mp h.2
  · exact filter_congr fun row _ => by simp

theorem meets_iff (hk : k ≤ (lruOrder entries).length) : policy.Meets entries (oldest entries k) ↔
      policy.Within (bytesOf (committedRows entries) - bytesOf ((lruOrder entries).take k))
        ((committedRows entries).length - k) := by
  have hperm := remaining_perm (k := k) hids
  have hlength := hperm.length_eq
  have hbytes := (hperm.map (·.bytes)).sum_eq
  rw [length_append, length_take, min_eq_left hk] at hlength
  rw [EvictionPolicy.Meets, bytesOf, bytesOf, bytesOf, ← hbytes, ← hlength]
  simp

end Remaining

/-! ### Safety, sufficiency and minimality -/

section

variable (policy : EvictionPolicy) (entries : List EvictionRow)

/-- Only committed entries that are not in use are evicted, in the order of their last use, until
what is left is within the limits or nothing can be evicted. -/
structure EvictionSound (plan : EvictionPlan) : Prop where
  order : plan.evicted <+: (lruOrder entries).map (·.entryId)
  safe : ∀ row ∈ entries, row.entryId ∈ plan.evicted →
    row.state = STATE_COMMITTED ∧ row.inUse = false
  sufficient : policy.Meets entries plan.evicted ∨
    ∀ row ∈ remaining entries plan.evicted, row.inUse = true

/-- No shorter prefix meets the limits. -/
def EvictionMinimal (plan : EvictionPlan) : Prop :=
  ∀ j < plan.evicted.length, ¬ policy.Meets entries (oldest entries j)

/-- Where a prefix meets the limits, the rows of all states are few enough, too. -/
def CountedAlike : Prop :=
  ∀ j < (lruOrder entries).length, policy.Meets entries (oldest entries j) →
    (entries.length : Int) - j ≤ policy.maxEntries

/-- **Exactly when eviction is minimal.**  A plan is safe and sufficient; it evicts no more than
it has to unless the rows of other states count. -/
theorem eviction_minimal_iff
    (hvalid : policy.validate = []) (hids : (entries.map (·.entryId)).Nodup) :
    ∃ plan, policy.plan entries = .ok plan ∧ EvictionSound policy entries plan ∧
      (EvictionMinimal policy entries plan ↔ CountedAlike policy entries) := by
  obtain ⟨k, hk, heq, hstop, hbefore⟩ := policy.evict_spec entries.length
    (lruOrder entries) [] (bytesOf (committedRows entries))
  simp only [length_nil, zero_add, nil_append] at heq hstop hbefore
  have hcommitted : (committedRows entries).length ≤ entries.length := length_filter_le _ _
  have hlength : (oldest entries k).length = k := by
    rw [oldest, length_map, length_take, min_eq_left hk]
  obtain ⟨plan, hplan, hevicted⟩ : ∃ plan, policy.plan entries = .ok plan ∧
      plan.evicted = oldest entries k := by
    rw [EvictionPolicy.plan, if_neg (not_not.mpr hvalid), heq]
    exact ⟨_, rfl, rfl⟩
  refine ⟨plan, hplan, ⟨?_, fun row hrow hmem => ?_, ?_⟩, ?_⟩
  · rw [hevicted]
    exact (List.take_prefix k (lruOrder entries)).map _
  · rw [hevicted] at hmem
    exact (mem_lruOrder.mp (mem_of_mem_take ((mem_take_iff hids hrow).mp hmem))).2.symm
  · rw [hevicted]
    rcases hk.eq_or_lt with rfl | hlt
    · refine .inr fun row hrow => ?_
      obtain ⟨hrow, hleft⟩ := mem_filter.mp hrow
      obtain ⟨hrow, hstate⟩ := mem_filter.mp hrow
      by_contra huse
      refine of_decide_eq_true hleft (mem_map_of_mem ?_)
      rw [take_length]
      exact mem_lruOrder.mpr ⟨hrow, Bool.not_eq_true _ ▸ huse, of_decide_eq_true hstate⟩
    · obtain ⟨hbytes, hcount⟩ := hstop hlt
      refine .inl ((meets_iff hids hk).mpr ⟨hbytes, ?_⟩)
      omega
  · rw [EvictionMinimal, hevicted, hlength]
    constructor
    · intro hminimal j hj hmeets
      have hle : k ≤ j := not_lt.mp fun hlt => hminimal j hlt hmeets
      have hcount := (hstop (lt_of_le_of_lt hle hj)).2
      omega
    · intro halike j hj hmeets
      have hlt := lt_of_lt_of_le hj hk
      exact hbefore j hj ⟨((meets_iff hids hlt.le).mp hmeets).1, halike j hlt hmeets⟩

end

theorem eviction_minimal_two : ∃ plan,
    EvictionPolicy.plan ⟨10, 1, "lru"⟩ [⟨"a", 4, false, STATE_COMMITTED, 1⟩,
      ⟨"b", 4, false, STATE_COMMITTED, 0⟩] = .ok plan ∧
    EvictionSound ⟨10, 1, "lru"⟩ [⟨"a", 4, false, STATE_COMMITTED, 1⟩,
      ⟨"b", 4, false, STATE_COMMITTED, 0⟩] plan := by
  obtain ⟨plan, hplan, hsound, -⟩ := eviction_minimal_iff ⟨10, 1, "lru"⟩
    [⟨"a", 4, false, STATE_COMMITTED, 1⟩, ⟨"b", 4, false, STATE_COMMITTED, 0⟩] rfl (by decide)
  exact ⟨plan, hplan, hsound⟩

/-- One committed entry within both limits is evicted, as the quarantined row is counted. -/
theorem quarantined_row_counted : ∃ plan,
    EvictionPolicy.plan ⟨10, 1, "lru"⟩ [⟨"a", 4, false, STATE_COMMITTED, 0⟩,
      ⟨"q", 4, false, "QUARANTINED", 0⟩] = .ok plan ∧ plan.evicted = ["a"] ∧
    ¬ EvictionMinimal ⟨10, 1, "lru"⟩ [⟨"a", 4, false, STATE_COMMITTED, 0⟩,
      ⟨"q", 4, false, "QUARANTINED", 0⟩] plan := by
  refine ⟨_, rfl, by decide +kernel, fun h => h 0 (by decide +kernel) ?_⟩
  show _ ∧ _
  decide +kernel

end Hqsb.Compiler
