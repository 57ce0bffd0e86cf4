/-
Hqsb/Runtime/KvManager.lean

Full-capacity reservations and generation-checked logical ownership
(`hqsb/runtime/kv_manager.py`).  A lease is reserved for the whole life of a row;
`commit` and `release` are fenced by the generation the lease was issued with.

`KVManager.Wf` is what every operation keeps: the reservations fit the capacity
and no lease carries a generation that was not issued.
-/
import Hqsb.Contracts.Scheduling

namespace Hqsb

open Lib OrderedDict

/-- Everything the live engine can end a session with. -/
inductive EngineError
  | duplicateKvLease
  | staleOrInvalidKvCommit
  | staleKvRelease
  | keyError
  | schedulerNoProgress
  | kvLeaseLeak
  | executor (message : String)

structure Lease where
  generation : Nat
  capacity : Nat
  valid : Nat := 0

structure KVManager where
  capacity : Nat
  generation : Nat := 0
  peak : Nat := 0
  leases : OrderedDict String Lease := .empty

namespace KVManager

def reserved (kv : KVManager) : Nat := OrderedDict.sum Lease.capacity kv.leases

/-- `none` when the capacity left does not hold the request. -/
def reserve (kv : KVManager) (identity : String) (capacity : Nat) :
    Except EngineError (Option Lease × KVManager) :=
  if identity ∈ kv.leases.keys then
    .error .duplicateKvLease
  else if (kv.capacity : Int) - kv.reserved < capacity then
    .ok (none, kv)
  else
    let lease : Lease := { generation := kv.generation + 1, capacity := capacity }
    let kv := { kv with generation := kv.generation + 1, leases := kv.leases.set identity lease }
    .ok (some lease, { kv with peak := max kv.peak kv.reserved })

def commit (kv : KVManager) (identity : String) (generation valid : Nat) :
    Except EngineError KVManager :=
  match kv.leases.get? identity with
  | none => .error .keyError
  | some lease =>
    if generation ≠ lease.generation ∨ ¬ (lease.valid ≤ valid ∧ valid ≤ lease.capacity) then
      .error .staleOrInvalidKvCommit
    else
      .ok { kv with leases := kv.leases.set identity { lease with valid := valid } }

def release (kv : KVManager) (identity : String) (generation : Nat) :
    Except EngineError KVManager :=
  match kv.leases.get? identity with
  | none => .error .keyError
  | some lease =>
    if lease.generation ≠ generation then .error .staleKvRelease
    else .ok { kv with leases := kv.leases.erase identity }

/-! ### What the operations keep -/

structure Wf (kv : KVManager) : Prop where
  reserved_le : kv.reserved ≤ kv.capacity
  generation_le : ∀ {id lease}, kv.leases.get? id = some lease → lease.generation ≤ kv.generation

theorem wf_new (capacity : Nat) : Wf { capacity := capacity } where
  reserved_le := Nat.zero_le _
  generation_le := by
    intro id lease h
    cases h

variable {id : String} {kv : KVManager} {lease : Lease}

/-- What a reservation does to a manager that holds no lease for the row. -/
theorem reserve_cases (capacity : Nat) (h : id ∉ kv.leases.keys) :
    kv.reserve id capacity = .ok (none, kv) ∨
      kv.reserved + capacity ≤ kv.capacity ∧ ∃ lease kv',
        kv.reserve id capacity = .ok (some lease, kv') ∧
        lease = { generation := kv.generation + 1, capacity := capacity } ∧
        kv'.capacity = kv.capacity ∧ kv'.generation = kv.generation + 1 ∧
        kv'.leases = kv.leases.set id lease := by
  rw [reserve]
  split_ifs with hfit
  · exact .inl rfl
  · exact .inr ⟨by omega, _, _, rfl, rfl, rfl, rfl, rfl⟩

theorem Wf.reserve {kv' : KVManager} {capacity : Nat} {lease : Option Lease} (hw : kv.Wf)
    (h : kv.reserve id capacity = .ok (lease, kv')) : kv'.Wf := by
  by_cases hk : id ∈ kv.leases.keys
  · rw [KVManager.reserve, if_pos hk] at h
    cases h
  rcases reserve_cases capacity hk with he | ⟨hfit, l, k, he, hl, hcap, hgen, hle⟩
  · obtain ⟨-, rfl⟩ := Prod.mk.inj (Except.ok.inj (he.symm.trans h))
    exact hw
  · obtain ⟨-, rfl⟩ := Prod.mk.inj (Except.ok.inj (he.symm.trans h))
    refine ⟨?_, fun {id' l'} h' => ?_⟩
    · rw [reserved, hle, sum_set_of_not_mem _ _ hk, hcap, hl]
      exact hfit
    · rw [hle, get?_set] at h'
      split_ifs at h' with hid
      · cases h'
        rw [hl, hgen]
      · have := hw.generation_le h'
        omega

theorem commit_eq {valid : Nat} (h : kv.leases.get? id = some lease)
    (hv : lease.valid ≤ valid ∧ valid ≤ lease.capacity) :
    kv.commit id lease.generation valid =
      .ok { kv with leases := kv.leases.set id { lease with valid := valid } } := by
  simp [commit, h, hv]

theorem Wf.commit {valid : Nat} (hw : kv.Wf) (h : kv.leases.get? id = some lease) :
    Wf { kv with leases := kv.leases.set id { lease with valid := valid } } where
  reserved_le := by
    rw [reserved, sum_set_of_eq Lease.capacity (w := { lease with valid := valid }) h rfl]
    exact hw.reserved_le
  generation_le := by
    intro id' l' h'
    rw [get?_set] at h'
    split_ifs at h' with hid
    · cases h'
      have : lease.generation ≤ kv.generation := hw.generation_le h
      exact this
    · exact hw.generation_le h'

theorem release_eq (h : kv.leases.get? id = some lease) :
    kv.release id lease.generation = .ok { kv with leases := kv.leases.erase id } := by
  simp [release, h]

theorem Wf.release (hw : kv.Wf) (h : kv.leases.get? id = some lease) :
    Wf { kv with leases := kv.leases.erase id } where
  reserved_le := by
    have hsum := sum_erase Lease.capacity h
    have hle := hw.reserved_le
    simp only [reserved] at hle ⊢
    omega
  generation_le := by
    intro id' l' h'
    rw [get?_erase] at h'
    split_ifs at h'
    exact hw.generation_le h'

theorem Wf.erase (hw : kv.Wf) (id : String) : Wf { kv with leases := kv.leases.erase id } := by
  rcases h : kv.leases.get? id with - | lease
  · rw [erase_of_not_mem ((get?_eq_none_iff _).mp h)]
    exact hw
  · exact hw.release h

end KVManager

end Hqsb
