/-
Hqsb/Backends/PoolSufficiency.lean

The block pool is large enough for every session.

Admission counts tokens, the pool counts blocks, and each row can waste a part of
its last block.  A pool of `⌈capacity / block⌉ + rows` blocks covers that: the
leases of the active rows, each rounded up to blocks, fit (`sum_ceilDiv_le`), and
a row never holds or asks for more blocks than its lease (`Inv.pool_serves`).
What connects the two is that a row of the pool is as long as the engine believes
(`reachable_tracked` at the number of tokens fed).
-/
import Hqsb.Backends.StepExecutor

namespace Hqsb

open Lib Engine List OrderedDict

/-! ### Rounding a sum up -/

theorem ceilDiv_add_le {n : Nat} (hn : 0 < n) (a b : Nat) :
    a ⌈/⌉ n + b ⌈/⌉ n ≤ (a + b) ⌈/⌉ n + 1 := by
  have hround : ∀ c, n * (c ⌈/⌉ n) < c + n := by
    intro c
    rw [Nat.ceilDiv_eq_add_pred_div]
    have := Nat.mul_div_le (c + n - 1) n
    omega
  have ha := hround a
  have hb := hround b
  have hab : a + b ≤ n * ((a + b) ⌈/⌉ n) := (ceilDiv_le_iff_le_mul hn).mp le_rfl
  have hlt : n * (a ⌈/⌉ n + b ⌈/⌉ n) < n * ((a + b) ⌈/⌉ n + 2) := by
    rw [mul_add, mul_add]
    omega
  exact Nat.le_of_lt_succ (Nat.lt_of_mul_lt_mul_left hlt)

theorem sum_ceilDiv_le {n : Nat} (hn : 0 < n) (l : List Nat) :
    (l.map fun a => a ⌈/⌉ n).sum ≤ l.sum ⌈/⌉ n + l.length := by
  induction l with
  | nil => simp
  | cons a l ih =>
    have := ceilDiv_add_le hn a l.sum
    simp only [map_cons, sum_cons, length_cons]
    omega

/-! ### One tick -/

/-- The pool takes the steps: they are not refused, and no block is missing when the forward
comes back with whatever cache. -/
structure PoolServes {α : Type} [Zero α] (kv : BlockKV α) (steps : List Step) : Prop where
  refusal : kv.refusal (steps.map Step.requestId) (steps.map Step.start)
    (steps.map fun s => s.tokenIds.length) = none
  pack : kv.pack (steps.map Step.requestId) (steps.map Step.start) ≠ .error .blockKvStaleLength
  commit : ∀ memory cache error, (kv.commit memory cache (steps.map Step.requestId)
    (steps.map Step.start) (steps.map fun s => s.tokenIds.length)).1 = some error →
      error ≠ .popFromEmptyList ∧ error ≠ .blockPoolCapacity ∧ error ≠ .blockKvStaleLength

section

variable {α τ : Type} {S : Session (BlockKV α × τ)} {e : Engine (BlockKV α × τ)}
  {capacityBlocks : Nat}

def poolView (x : BlockKV α × τ) (id : String) : Nat := (x.1.row id).valid

def leaseBlocks (e : Engine (BlockKV α × τ)) (blockSize : Nat) (id : String) : Nat :=
  (e.kv.leases.get? id).elim 0 fun lease => lease.capacity ⌈/⌉ blockSize

theorem cap_le (S : Session (BlockKV α × τ)) : S.cap ≤ S.limits.maxActiveSequences := by
  rw [Session.cap]
  split_ifs
  · exact S.limits.maxActiveSequences_mem.1
  · exact le_rfl

/-- The leases, rounded up to blocks, fit into the pool. -/
theorem Inv.sum_leaseBlocks_le (hI : Inv S (e, [])) :
    ∑ id ∈ e.kv.leases.keys.toFinset, leaseBlocks e S.limits.kvBlockTokens id ≤
      S.limits.kvCapacityTokens ⌈/⌉ S.limits.kvBlockTokens + S.limits.maxActiveSequences := by
  have hpos : 0 < S.limits.kvBlockTokens := S.limits.kvBlockTokens_mem.1
  calc ∑ id ∈ e.kv.leases.keys.toFinset, leaseBlocks e S.limits.kvBlockTokens id
      = OrderedDict.sum (fun l : Lease => l.capacity ⌈/⌉ S.limits.kvBlockTokens) e.kv.leases :=
        (sum_eq_finset_sum _ _ fun _ h => mem_toFinset.mpr h).symm
    _ = ((e.kv.leases.values.map Lease.capacity).map fun a => a ⌈/⌉ S.limits.kvBlockTokens).sum := by
        rw [map_map]
        rfl
    _ ≤ e.kv.reserved ⌈/⌉ S.limits.kvBlockTokens + e.kv.leases.values.length := by
        have := sum_ceilDiv_le hpos (e.kv.leases.values.map Lease.capacity)
        rwa [length_map] at this
    _ ≤ S.limits.kvCapacityTokens ⌈/⌉ S.limits.kvBlockTokens + S.limits.maxActiveSequences := by
        have hreserved : e.kv.reserved ≤ S.limits.kvCapacityTokens :=
          hI.wf.reserved_le.trans hI.capacity.le
        have hlen : e.kv.leases.values.length = e.kv.leases.keys.length := by
          rw [OrderedDict.values, OrderedDict.keys, length_map, length_map]
        have hround := BlockKV.ceilDiv_mono S.limits.kvBlockTokens hreserved
        have hcap : e.kv.leases.keys.length ≤ S.limits.maxActiveSequences :=
          hI.cap.trans (cap_le S)
        omega

variable (hI : Inv S (e, [])) (hT : Tracked poolView List.length (e, []))
  (hP : PoolInv S.limits.kvBlockTokens capacityBlocks e.executor.1)

include hI hT

theorem Inv.valid_eq {id : String} {row : Sequence} (hrow : e.rows.get? id = some row)
    (hid : id ∈ e.kv.leases.keys) : (e.executor.1.row id).valid = row.consumed := by
  have h := hT.settled id row hrow hid (by simp [pendingIds])
  rw [length_take, min_eq_left (hI.rowInv hrow).consumed_le] at h
  exact h

include hP

/-- A row holds no more blocks than its lease covers. -/
theorem Inv.blocks_le (id : String) :
    (e.executor.1.row id).blocks.length ≤ leaseBlocks e S.limits.kvBlockTokens id := by
  have hfilled := hP.filled id
  rw [hP.blockSize] at hfilled
  rcases hl : e.kv.leases.get? id with - | lease
  · have hzero := hT.resting id ((get?_eq_none_iff _).mp hl)
    rw [poolView, length_nil] at hzero
    rw [hzero, zero_ceilDiv] at hfilled
    omega
  · obtain ⟨row, hrow⟩ := hI.leased hl
    have hinv := hI.rowInv hrow
    rw [hl] at hinv
    rw [leaseBlocks, hl, hfilled,
      hI.valid_eq hT hrow (mem_keys_of_get? hl)]
    exact BlockKV.ceilDiv_mono _ hinv.consumed_le_capacity

theorem Inv.free_add_blocks :
    e.executor.1.free.length +
      ∑ id ∈ e.kv.leases.keys.toFinset, (e.executor.1.row id).blocks.length = capacityBlocks := by
  rw [← hP.capacityBlocks, ← hP.owned.length_free]
  congr 1
  have hsum := sum_eq_finset_sum (fun row : BlockRow => row.blocks.length)
    e.executor.1.rows (s := e.kv.leases.keys.toFinset ∪ e.executor.1.rows.keys.toFinset)
    fun id h => Finset.mem_union_right _ (mem_toFinset.mpr h)
  have hrow : ∀ id, (e.executor.1.rows.get? id).elim 0 (fun row : BlockRow => row.blocks.length) =
      (e.executor.1.row id).blocks.length := by
    intro id
    rw [BlockKV.row]
    rcases e.executor.1.rows.get? id with - | entry <;> rfl
  rw [hsum, Finset.sum_congr rfl fun id _ => hrow id]
  refine Finset.sum_subset Finset.subset_union_left fun id _ hid => ?_
  have hle := hI.blocks_le hT hP id
  rw [mem_toFinset] at hid
  rw [leaseBlocks, (get?_eq_none_iff _).mpr hid] at hle
  exact Nat.le_zero.mp hle

/-- **Any steps of distinct active rows are served.** -/
theorem Inv.pool_serves [Zero α]
    (hcap : S.limits.kvCapacityTokens ⌈/⌉ S.limits.kvBlockTokens + S.limits.maxActiveSequences ≤
      capacityBlocks) {steps : List Step} (hsteps : StepsFor e steps) :
    PoolServes e.executor.1 steps := by
  have hstep : ∀ s ∈ steps, s.requestId ∈ e.kv.leases.keys ∧
      (e.executor.1.row s.requestId).valid = s.start ∧
      e.executor.1.lacking s.requestId s.start s.tokenIds.length ≤
        leaseBlocks e S.limits.kvBlockTokens s.requestId -
          (e.executor.1.row s.requestId).blocks.length := by
    intro s hs
    obtain ⟨row, hrow, hactive, hof, -⟩ := hsteps.row s hs
    have hid : s.requestId ∈ e.kv.leases.keys := hI.mem_leases_iff.mpr ⟨row, hrow, hactive⟩
    obtain ⟨lease, hl⟩ := e.kv.leases.mem_keys_iff.mp hid
    have hinv := hI.rowInv hrow
    rw [hl] at hinv
    refine ⟨hid, by rw [hI.valid_eq hT hrow hid, hof.start], Nat.sub_le_sub_right ?_ _⟩
    rw [leaseBlocks, hl, hP.blockSize, hof.start]
    exact BlockKV.ceilDiv_mono _ (hinv.commit_le hof).2
  have hvalid : ∀ r ∈ steps.map fun s => (s.requestId, s.start, s.tokenIds.length),
      (e.executor.1.row r.1).valid = r.2.1 := by
    intro r hr
    obtain ⟨s, hs, rfl⟩ := mem_map.mp hr
    exact (hstep s hs).2.1
  have hrefusal : e.executor.1.refusal (steps.map Step.requestId) (steps.map Step.start)
      (steps.map fun s => s.tokenIds.length) = none := by
    rw [BlockKV.refusal_eq_none_iff hP.filled, zip_steps]
    refine ⟨hvalid, ?_⟩
    have hfree := hI.free_add_blocks hT hP
    have hleases := hI.sum_leaseBlocks_le
    have hspare : ∑ id ∈ e.kv.leases.keys.toFinset, (leaseBlocks e S.limits.kvBlockTokens id -
          (e.executor.1.row id).blocks.length) +
        ∑ id ∈ e.kv.leases.keys.toFinset, (e.executor.1.row id).blocks.length =
        ∑ id ∈ e.kv.leases.keys.toFinset, leaseBlocks e S.limits.kvBlockTokens id := by
      rw [← Finset.sum_add_distrib]
      exact Finset.sum_congr rfl fun id _ => Nat.sub_add_cancel (hI.blocks_le hT hP id)
    have hlacking : ((steps.map fun s => (s.requestId, s.start, s.tokenIds.length)).map fun r =>
          e.executor.1.lacking r.1 r.2.1 r.2.2).sum ≤
        ∑ id ∈ e.kv.leases.keys.toFinset, (leaseBlocks e S.limits.kvBlockTokens id -
          (e.executor.1.row id).blocks.length) := by
      rw [map_map]
      refine (sum_le_sum fun s hs => (hstep s hs).2.2).trans ?_
      rw [show (steps.map fun s => leaseBlocks e S.limits.kvBlockTokens s.requestId -
          (e.executor.1.row s.requestId).blocks.length) = (steps.map Step.requestId).map fun id =>
            leaseBlocks e S.limits.kvBlockTokens id - (e.executor.1.row id).blocks.length by
        rw [map_map, Function.comp_def], ← sum_toFinset _ hsteps.nodup]
      refine Finset.sum_le_sum_of_subset fun id hid => ?_
      obtain ⟨s, hs, rfl⟩ := mem_map.mp (mem_toFinset.mp hid)
      exact mem_toFinset.mpr (hstep s hs).1
    omega
  refine ⟨hrefusal, fun h => BlockKV.pack_error ?_ h rfl, fun memory cache error h => ?_⟩
  · rw [zip_map']
    intro r hr
    obtain ⟨s, hs, rfl⟩ := mem_map.mp hr
    exact (hstep s hs).2.1
  · rcases BlockKV.commit_error hP.filled hsteps.nodup hrefusal h with
      (rfl | rfl | rfl | rfl) | (rfl | rfl)
    all_goals exact ⟨by decide, by decide, by decide⟩

end

/-! ### Whole sessions -/

def poolSession {α τ : Type} [Zero α] (P : Provider τ α) (limits : SchedulingLimits) (mode : Mode)
    (sessionId : String) (eosIds : Finset Token) (deadline : ℚ) : Session (BlockKV α × τ) where
  executor := stepExecutor P limits blockStore
  limits := limits
  mode := mode
  sessionId := sessionId
  eosIds := eosIds
  deadline := deadline

/-- At every place of `run` that holds steps, the pool takes them. -/
structure PoolSufficient {α τ : Type} [Zero α] (S : Session (BlockKV α × τ))
    (c : Config (BlockKV α × τ)) : Prop where
  plan : ∀ now waiting active, c.point = .plan now waiting active →
    PoolServes c.engine.executor.1 (plan (active.filterMap c.engine.rows.get?) S.limits now
      c.engine.service S.mode c.engine.tick)
  prepare : ∀ waiting active steps, c.point = .prepare waiting active steps →
    PoolServes c.engine.executor.1 steps
  execute : ∀ waiting active steps, c.point = .execute waiting active steps →
    PoolServes c.engine.executor.1 steps

/-- **The pool is sufficient**: when its byte bound does not bind, no planned steps are refused
and no commit finds the free list empty, in every reachable configuration. -/
theorem block_pool_sufficient {α τ : Type} [Zero α] (P : Provider τ α) (limits : SchedulingLimits)
    (mode : Mode) (sessionId : String) (eosIds : Finset Token) (deadline : ℚ) (device : τ)
    (hbytes : limits.kvCapacityTokens ⌈/⌉ limits.kvBlockTokens + limits.maxActiveSequences ≤
      limits.kvPoolMaxBytes / (limits.kvBlockTokens * P.kvTokenBytes))
    (readings : List Reading) :
    let S := poolSession P limits mode sessionId eosIds deadline
    PoolSufficient S ((S.machine (blockPool P limits, device)).run readings) := by
  intro S
  have hr := Machine.reachable_run (m := S.machine (blockPool P limits, device)) readings
  generalize (S.machine (blockPool P limits, device)).run readings = c at hr
  have hinv := reachable_inv hr
  have htracked : Tracked poolView List.length (c.engine, c.point.pending) :=
    reachable_tracked (S := S) blockStore_tracks (fun _ => rfl) hr
  have hpool := reachable_keeps (S := S) (blockStore_keeps limits.kvBlockTokens
    (capacityBlocks P limits)) (poolInv_new P limits) hr
  have hcap : limits.kvCapacityTokens ⌈/⌉ limits.kvBlockTokens + limits.maxActiveSequences ≤
      capacityBlocks P limits := le_min le_rfl hbytes
  refine ⟨fun now waiting active hp => ?_, fun waiting active steps hp => ?_,
    fun waiting active steps hp => ?_⟩
  all_goals
    rw [hp] at hinv htracked
    obtain ⟨hI, hP⟩ := hinv
  · exact hI.pool_serves htracked hpool hcap (hI.stepsFor_planned hP now)
  · exact hI.pool_serves htracked hpool hcap hP.2.1
  · exact hI.pool_serves htracked hpool hcap hP.2.1

/-- A one-layer model of one head that always selects token 7 and caches zeros. -/
def constantProvider : Provider Unit Int where
  contextLimit := 64
  numHiddenLayers := 1
  numKeyValueHeads := 1
  headDim := 1
  hiddenSize := 1
  vocabSize := 8
  itemsize := 2
  available device := (2 ^ 34, device)
  forward device inputs :=
    let tensor : Tensor Int := ⟨"float16", "cuda", 2, inputs.batch, 1, inputs.past + inputs.query, 1,
      fun _ _ _ _ => 0⟩
    .ok (⟨fun _ => 7, .ofData [(tensor, tensor)], fun _ _ _ _ _ _ => 0⟩, device)

theorem block_pool_sufficient_constant :
    let limits : SchedulingLimits := { kvCapacityTokens := 5, kvLayout := .blockPool, kvBlockTokens := 4 }
    let S := poolSession constantProvider limits .continuous "" ∅ 10
    PoolSufficient S ((S.machine (blockPool constantProvider limits, ())).run
      ({ batch := [.submit { id := "a", inputIds := [1, 2], limit := 3, received := 0, deadline := 9 },
        .seal] } :: List.replicate 10 {})) :=
  block_pool_sufficient constantProvider { kvCapacityTokens := 5, kvLayout := .blockPool, kvBlockTokens := 4 }
    .continuous "" ∅ 10 () (by decide) _

end Hqsb
