/-
Hqsb/Backends/StepExecutor.lean

The resident-model step executor (`hqsb/backends/step_executor.py`): what stands
behind the engine's `prepare`, `execute` and `release`.

`Store` is the interface the two layouts share, `Provider` the model and its
device: any forward, which may raise and may return any cache, and any readings
of the free memory.  `assemble` builds the left-padded inputs of one forward.

Left out: the receipt of a forward, its timings, and `capabilities`, which
refuses a model before a session exists.
-/
import Hqsb.Backends.BlockOwnership
import Hqsb.Runtime.ExecutorView

namespace Hqsb

open Lib List

/-! ### The device store -/

/-- What the executor asks of `self.kv`. -/
structure Store (κ α : Type) where
  /-- `none` for a store without `refusal` -/
  refusal : κ → List String → List Nat → List Nat → Option KvError
  pack : κ → List String → List Nat → Except KvError (DynamicCache α)
  commit : κ → (Nat → Component → Nat → Nat → Nat → Nat → α) → DynamicCache α → List String →
    List Nat → List Nat → Option KvError × κ
  release : κ → String → κ
  /-- The token positions a store with a byte bound has still to allocate. -/
  unallocated : κ → Nat

variable {α : Type}

def blockStore [Zero α] : Store (BlockKV α) α where
  refusal := BlockKV.refusal
  pack := BlockKV.pack
  commit := BlockKV.commit
  release := BlockKV.release
  unallocated kv := if kv.slabs.isNone then kv.capacityBlocks * kv.blockSize else 0

/-! ### The model and its device -/

/-- The inputs of one forward over a batch of rows, padded on the left. -/
structure Inputs (α : Type) where
  cache : DynamicCache α
  batch : Nat
  past : Nat
  query : Nat
  inputIds : (row column : Nat) → Token
  positions : (row column : Nat) → Nat
  /-- whether a query column may attend to a key column -/
  allowed : (row query key : Nat) → Bool
  phase : Phase

/-- The token selected for each row, the updated cache, and what storage allocated from now on
happens to contain. -/
structure Output (α : Type) where
  token : (row : Nat) → Token
  cache : DynamicCache α
  memory : Nat → Component → Nat → Nat → Nat → Nat → α

structure Provider (τ α : Type) where
  contextLimit : Nat
  numHiddenLayers : Nat
  numKeyValueHeads : Nat
  headDim : Nat
  hiddenSize : Nat
  vocabSize : Nat
  itemsize : Nat
  /-- free, and reserved but not allocated, bytes of the device -/
  available : τ → Int × τ
  forward : τ → Inputs α → Except String (Output α × τ)

variable {τ κ : Type}

def Provider.kvTokenBytes (P : Provider τ α) : Nat :=
  2 * P.numHiddenLayers * P.numKeyValueHeads * P.headDim * P.itemsize

/-- The tensors `execute` builds, each row right-aligned in the batch. -/
def assemble (steps : List Step) (past query : Nat) (cache : DynamicCache α) : Inputs α where
  cache := cache
  batch := steps.length
  past := past
  query := query
  inputIds row column :=
    match steps[row]? with
    | none => 0
    | some step =>
      let padding := query - step.tokenIds.length
      if padding ≤ column then step.tokenIds.getD (column - padding) 0 else 0
  positions row column :=
    match steps[row]? with
    | none => 0
    | some step =>
      let padding := query - step.tokenIds.length
      if padding ≤ column then step.start + (column - padding) else 0
  allowed row q key :=
    match steps[row]? with
    | none => false
    | some step =>
      let valid := past - step.start ≤ key ∧ key < past ∨ past + query - step.tokenIds.length ≤ key
      let causal := key ≤ past + q
      decide (valid ∧ causal)
  phase := if steps.all fun step => step.phase = .decode then .decode else .prefill

/-! ### The executor -/

section

variable (P : Provider τ α) (limits : SchedulingLimits) (K : Store κ α)

/-- Conservative workspace estimate for resource admission.  The engine never asks about no
steps, where `max` raises. -/
def prepare (x : κ × τ) (steps : List Step) : Option String × (κ × τ) :=
  let lengths := steps.map Step.start
  let additions := steps.map fun s => s.tokenIds.length
  match K.refusal x.1 (steps.map Step.requestId) lengths additions with
  | some reason => (some reason.message, x)
  | none =>
    match lengths.max?, additions.max? with
    | some past, some query =>
      let batch := steps.length
      -- Packed cache, updated cache, compact copies, mask and major activations.
      let estimate := 3 * batch * (past + query) * P.kvTokenBytes +
        batch * query * (past + query) * (P.itemsize + 2) +
        batch * query * (P.hiddenSize * 16 + P.vocabSize) * 4
      let persistent := K.unallocated x.1 * P.kvTokenBytes
      let (available, device) := P.available x.2
      if limits.maxTemporaryBytes < estimate then
        (some "TEMPORARY_MEMORY_ESTIMATE_BUDGET", (x.1, device))
      else if available < (estimate + persistent + 256 * 1024 ^ 2 : Nat) then
        (some "DEVICE_HEADROOM_ESTIMATE", (x.1, device))
      else (none, (x.1, device))
    | _, _ => (some KvError.emptySequence.message, x)

def execute (x : κ × τ) (steps : List Step) : Except String (List Token × (κ × τ)) :=
  let identities := steps.map Step.requestId
  let lengths := steps.map Step.start
  let additions := steps.map fun s => s.tokenIds.length
  match lengths.max?, additions.max? with
  | some past, some query =>
    if limits.maxPaddedPositions < steps.length * (past + query) then
      .error "PADDED_POSITION_BUDGET"
    else
      match K.pack x.1 identities lengths with
      | .error error => .error error.message
      | .ok cache =>
        match P.forward x.2 (assemble steps past query cache) with
        | .error message => .error message
        | .ok (output, device) =>
          match K.commit x.1 output.memory output.cache identities lengths additions with
          | (some error, _) => .error error.message
          | (none, kv) => .ok ((List.range steps.length).map output.token, (kv, device))
  | _, _ => .error KvError.emptySequence.message

def stepExecutor : Executor (κ × τ) where
  contextLimit := P.contextLimit
  prepare := prepare P limits K
  execute x steps _ := execute P limits K x steps
  release x identity := (K.release x.1 identity, x.2)

/-- The blocks of the pool, `kv_token_bytes` being positive. -/
def capacityBlocks : Nat :=
  min (limits.kvCapacityTokens ⌈/⌉ limits.kvBlockTokens + limits.maxActiveSequences)
    (limits.kvPoolMaxBytes / (limits.kvBlockTokens * P.kvTokenBytes))

/-- The pool `__init__` builds. -/
def blockPool : BlockKV α where
  blockSize := limits.kvBlockTokens
  capacityBlocks := capacityBlocks P limits
  maxBytes := limits.kvPoolMaxBytes

end

/-! ### What the executor does to its store -/

section

variable {P : Provider τ α} {limits : SchedulingLimits} {K : Store κ α}

theorem prepare_store (x : κ × τ) (steps : List Step) : (prepare P limits K x steps).2.1 = x.1 := by
  rw [prepare]
  dsimp only
  split
  · rfl
  · split
    · split_ifs <;> rfl
    · rfl

/-- An execution that goes through has committed some cache. -/
theorem execute_ok {x x' : κ × τ} {steps : List Step} {tokens : List Token}
    (h : execute P limits K x steps = .ok (tokens, x')) :
    tokens.length = steps.length ∧ ∃ memory cache,
      K.commit x.1 memory cache (steps.map Step.requestId) (steps.map Step.start)
        (steps.map fun s => s.tokenIds.length) = (none, x'.1) := by
  rw [execute] at h
  split at h
  · split_ifs at h
    split at h
    · cases h
    split at h
    · cases h
    split at h
    · cases h
    · next hcommit =>
      obtain ⟨rfl, rfl⟩ := Prod.mk.inj (Except.ok.inj h)
      exact ⟨by simp, _, _, hcommit⟩
  · cases h

theorem zip_steps (steps : List Step) :
    (steps.map Step.requestId).zip ((steps.map Step.start).zip
      (steps.map fun s => s.tokenIds.length)) =
    steps.map fun s => (s.requestId, s.start, s.tokenIds.length) := by
  rw [zip_map', zip_map']

/-- The block pool stands, for every row, at the number of tokens it was fed. -/
theorem blockStore_tracks [Zero α] :
    Tracks (stepExecutor P limits blockStore) (fun x id => (x.1.row id).valid) List.length where
  prepare x steps := by
    funext id
    rw [stepExecutor, prepare_store]
  release x id id' := by
    rw [stepExecutor, blockStore, BlockKV.release_row]
    split_ifs <;> rfl
  execute {x x' steps forwardId tokens} hx hn := by
    obtain ⟨hlen, memory, cache, hcommit⟩ := execute_ok hx
    obtain ⟨hvalid, hother, -⟩ := BlockKV.commit_ok hn hcommit
    rw [zip_steps] at hvalid hother
    refine ⟨hlen, fun s hs fed hfed _ => ?_, fun id hid => ?_⟩
    · rw [hvalid _ (mem_map_of_mem hs), length_append, hfed]
    · have hout : id ∉ (steps.map fun s => (s.requestId, s.start,
    s.tokenIds.length)).map Prod.fst := by
        rw [map_map]
        exact hid
      rw [hother id hout]

/-- The pool of a session: its blocks are partitioned, filled, and as many as it was built with. -/
structure PoolInv (blockSize capacityBlocks : Nat) (kv : BlockKV α) : Prop where
  owned : kv.Owned
  filled : kv.Filled
  blockSize : kv.blockSize = blockSize
  capacityBlocks : kv.capacityBlocks = capacityBlocks

theorem poolInv_new (P : Provider τ α) (limits : SchedulingLimits) :
    PoolInv limits.kvBlockTokens (capacityBlocks P limits) (blockPool P limits) where
  owned := BlockKV.owned_new _ _ _
  filled id := by simp [BlockKV.row, blockPool]
  blockSize := rfl
  capacityBlocks := rfl

theorem blockStore_keeps [Zero α] (blockSize capacityBlocks : Nat) :
    Keeps (stepExecutor P limits blockStore)
      (fun x : BlockKV α × τ => PoolInv blockSize capacityBlocks x.1) where
  prepare steps h := by
    rw [stepExecutor, prepare_store]
    exact h
  release {x} id h := by
    refine ⟨h.owned.release id, h.filled.release id, ?_, ?_⟩
    all_goals
      simp only [stepExecutor, blockStore, BlockKV.release]
      split
    · exact h.blockSize
    · exact h.blockSize
    · exact h.capacityBlocks
    · exact h.capacityBlocks
  execute hx hn h := by
    obtain ⟨-, memory, cache, hcommit⟩ := execute_ok hx
    obtain ⟨-, -, hbs, hcap, howned, hfilled⟩ := BlockKV.commit_ok hn hcommit
    exact ⟨howned h.owned, hfilled h.filled, hbs.trans h.blockSize, hcap.trans h.capacityBlocks⟩

end

end Hqsb
