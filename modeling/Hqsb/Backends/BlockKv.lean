/-
Hqsb/Backends/BlockKv.lean

Bounded device block storage with dense attention materialisation
(`hqsb/backends/block_kv.py`).

A row owns a list of physical blocks; logical position `p` of the row lives in
column `p % blockSize` of its block number `p / blockSize`.  The slabs hold the
blocks of all rows, one keys and one values tensor for each layer, and blocks are
handed out from a stack of free ones and never cleared.

`refusal` and `commit` compute the blocks of a row with a true division and
`ceil`; at the sizes the limits allow this is the exact rounded-up quotient.

Left out: the byte counts and the receipt, which nothing reads back.
-/
import Hqsb.Backends.DeviceKv

namespace Hqsb

open Lib

structure BlockRow where
  valid : Nat := 0
  blocks : List Nat := []

structure BlockKV (α : Type*) where
  blockSize : Nat
  capacityBlocks : Nat
  maxBytes : Nat
  rows : OrderedDict String BlockRow := .empty
  /-- `slabs[:, layer]` for each layer: blocks × heads × columns × channels -/
  slabs : Option (List (Pair α)) := none
  /-- A stack, its top at the end. -/
  free : List Nat := (List.range capacityBlocks).reverse
  allocations : Nat := 0
  releases : Nat := 0
  reuses : Nat := 0
  usedBefore : Finset Nat := ∅
  bytesPerToken : Nat := 0

namespace BlockKV

variable {α : Type*}

/-- `self.rows.get(identity, {"valid": 0, "blocks": []})` -/
def row (kv : BlockKV α) (identity : String) : BlockRow := (kv.rows.get? identity).getD {}

/-! ### Admission -/

/-- The blocks the rows still need; `none` when a row is not where the caller believes. -/
def demand (kv : BlockKV α) : List (String × Nat × Nat) → Option Int
  | [] => some 0
  | (identity, start, added) :: rest =>
    if (kv.row identity).valid ≠ start then none
    else (kv.demand rest).map fun needed =>
      ((start + added) ⌈/⌉ kv.blockSize : Nat) - ((kv.row identity).blocks.length : Int) + needed

def refusal (kv : BlockKV α) (identities : List String) (lengths additions : List Nat) :
    Option KvError :=
  match kv.demand (identities.zip (lengths.zip additions)) with
  | none => some .blockKvStaleLength
  | some needed => if (kv.free.length : Int) < needed then some .blockPoolCapacity else none

/-! ### Pack -/

/-- The end of a slice `[:stop]` of `n` columns; a negative `stop` counts from the end. -/
def sliceEnd (n : Nat) (stop : Int) : Nat := if stop < 0 then (n + stop).toNat else stop.toNat

/-- The blocks of one row, copied one after the other into the right end of `packed`. -/
def packBlocks (blockSize : Nat) (slab : Tensor α) (row valid width : Nat) :
    List (Nat × Nat) → Tensor α → Except KvError (Tensor α)
  | [], packed => .ok packed
  | (physical, logical) :: rest, packed =>
    let offset := logical * blockSize
    let count : Int := min (blockSize : Int) (valid - offset)
    let start := width - valid + offset
    if slab.rows ≤ physical then .error .indexError
    else
      match packed.copyColumns row start (start + count).toNat
        (slab.slice physical 0 (sliceEnd slab.columns count)) with
      | none => .error .shapeMismatch
      | some packed => packBlocks blockSize slab row valid width rest packed

def packRows (kv : BlockKV α) (slab : Tensor α) (width : Nat) :
    List ((String × Nat) × Nat) → Tensor α → Except KvError (Tensor α)
  | [], packed => .ok packed
  | ((identity, valid), row) :: rest, packed =>
    if valid = 0 then packRows kv slab width rest packed
    else
      match kv.rows.get? identity with
      | none => .error .keyError
      | some entry =>
        if entry.valid ≠ valid then .error .blockKvStaleLength
        else do
          let packed ← packBlocks kv.blockSize slab row valid width entry.blocks.zipIdx packed
          packRows kv slab width rest packed

def pack [Zero α] (kv : BlockKV α) (identities : List String) (lengths : List Nat) :
    Except KvError (DynamicCache α) :=
  match lengths.max? with
  | none => .error .emptySequence
  | some 0 => .ok {}
  | some width =>
    match kv.slabs with
    | none => .error .noSlabs
    | some slabs =>
      packLayers slabs.length fun layer component =>
        match slabs[layer]? with
        | none => .error .indexError
        | some slab =>
          let slab := component.of slab
          kv.packRows slab width (identities.zip lengths).zipIdx
            (slab.zeros identities.length width)

/-! ### Commit -/

/-- `shape[1::2]`, dtype and device agree. -/
def sameGeometry (sample t : Tensor α) : Bool :=
  t.heads = sample.heads ∧ t.channels = sample.channels ∧ t.dtype = sample.dtype ∧
    t.device = sample.device

/-- Allocate the slabs at the first commit.  `memory` is what the fresh storage happens to
contain. -/
def openSlabs (kv : BlockKV α) (memory : Nat → Component → Nat → Nat → Nat → Nat → α)
    (layers : Nat) (sample : Tensor α) : Option KvError × BlockKV α :=
  match kv.slabs with
  | some _ => (none, kv)
  | none =>
    let kv := { kv with
      bytesPerToken := 2 * layers * sample.heads * sample.channels * sample.itemsize }
    let newEmpty (layer : Nat) (component : Component) : Tensor α :=
      { sample with
        rows := kv.capacityBlocks, columns := kv.blockSize, get := memory layer component }
    if kv.maxBytes < kv.capacityBlocks * kv.blockSize * kv.bytesPerToken then
      (some .blockPoolByteBudget, kv)
    else
      let slabs := (List.range layers).map fun layer => (newEmpty layer .keys, newEmpty layer .values)
      (none, { kv with slabs := some slabs })

/-- `physical = self.free.pop()` with its counters. -/
def pop (kv : BlockKV α) (physical : Nat) : BlockKV α :=
  { kv with
    free := kv.free.dropLast
    reuses := kv.reuses + if physical ∈ kv.usedBefore then 1 else 0
    usedBefore := insert physical kv.usedBefore
    allocations := kv.allocations + 1 }

/-- The `while` loop that gives a row the `n` blocks it lacks. -/
def takeBlocks : (n : Nat) → BlockKV α → List Nat → Option KvError × BlockKV α × List Nat
  | 0, kv, blocks => (none, kv, blocks)
  | n + 1, kv, blocks =>
    match kv.free.getLast? with
    | none => (some .popFromEmptyList, kv, blocks)
    | some physical => takeBlocks n (kv.pop physical) (blocks ++ [physical])

/-- `self.slabs[..., physical, :, within:within + count, :].copy_(tensor[index, :, source:source +
count, :])` -/
def writeBlock (slab tensor : Tensor α) (index source count physical within : Nat) :
    Except KvError (Tensor α) :=
  if tensor.rows ≤ index ∨ slab.rows ≤ physical then .error .indexError
  else
    match slab.copyColumns physical within (within + count)
      (tensor.slice index source (source + count)) with
    | none => .error .shapeMismatch
    | some slab => .ok slab

/-- One run of columns, in every layer and component; what was written before an error stays. -/
def writeLayers (index source count physical within : Nat) :
    List (CacheLayer α × Nat) → List (Pair α) → Option KvError × List (Pair α)
  | [], slabs => (none, slabs)
  | (layer, layerIdx) :: rest, slabs =>
    match slabs[layerIdx]? with
    | none => (some .indexError, slabs)
    | some slab =>
      match writeBlock slab.1 layer.pair.1 index source count physical within with
      | .error error => (some error, slabs)
      | .ok keys =>
        match writeBlock slab.2 layer.pair.2 index source count physical within with
        | .error error => (some error, slabs.set layerIdx (keys, slab.2))
        | .ok values =>
          writeLayers index source count physical within rest (slabs.set layerIdx (keys, values))

/-- Scatter only newly computed K/V.  Every pass writes a column, so `added` passes are enough. -/
def scatter (cache : DynamicCache α) (blockSize : Nat) (blocks : List Nat)
    (index start added source : Nat) :
    (passes offset : Nat) → List (Pair α) → Option KvError × List (Pair α)
  | 0, _, slabs => (none, slabs)
  | passes + 1, offset, slabs =>
    if added ≤ offset then (none, slabs)
    else
      let logical := (start + offset) / blockSize
      let within := (start + offset) % blockSize
      let count := min (added - offset) (blockSize - within)
      match blocks[logical]? with
      | none => (some .indexError, slabs)
      | some physical =>
        match writeLayers index (source + offset) count physical within cache.layers.zipIdx slabs with
        | (some error, slabs) => (some error, slabs)
        | (none, slabs) =>
          scatter cache blockSize blocks index start added source passes (offset + count) slabs

/-- The body of the loop of `commit`. -/
def commitRow (cache : DynamicCache α) (past query : Nat) (identity : String)
    (start added index : Nat) (kv : BlockKV α) : Option KvError × BlockKV α :=
  let entry := kv.row identity
  let lacking := (start + added) ⌈/⌉ kv.blockSize - entry.blocks.length
  match takeBlocks lacking kv entry.blocks with
  | (some error, kv, blocks) =>
    (some error, { kv with rows := kv.rows.set identity { entry with blocks := blocks } })
  | (none, kv, blocks) =>
    match scatter cache kv.blockSize blocks index start added (past + query - added) added 0
      (kv.slabs.getD []) with
    | (some error, slabs) =>
      (some error, { kv with
        slabs := some slabs, rows := kv.rows.set identity { entry with blocks := blocks } })
    | (none, slabs) =>
      (none, { kv with
        slabs := some slabs
        rows := kv.rows.set identity { valid := start + added, blocks := blocks } })

def commitRows (cache : DynamicCache α) (past query : Nat) :
    List ((String × Nat × Nat) × Nat) → BlockKV α → Option KvError × BlockKV α
  | [], kv => (none, kv)
  | ((identity, start, added), index) :: rest, kv =>
    match commitRow cache past query identity start added index kv with
    | (some error, kv) => (some error, kv)
    | (none, kv) => commitRows cache past query rest kv

def commit (kv : BlockKV α) (memory : Nat → Component → Nat → Nat → Nat → Nat → α)
    (cache : DynamicCache α) (identities : List String) (lengths additions : List Nat) :
    Option KvError × BlockKV α :=
  match kv.refusal identities lengths additions with
  | some reason => (some reason, kv)
  | none =>
    match cache.layers with
    | [] => (some .blockPoolRequiresFullAttentionDynamicLayers, kv)
    | first :: _ =>
      if cache.layers.any fun layer => !layer.dynamic then
        (some .blockPoolRequiresFullAttentionDynamicLayers, kv)
      else
        let sample := first.pair.1
        if cache.layers.any fun layer =>
            !(sameGeometry sample layer.pair.1 && sameGeometry sample layer.pair.2) then
          (some .blockPoolNonuniformGeometry, kv)
        else
          match kv.openSlabs memory cache.layers.length sample with
          | (some error, kv) => (some error, kv)
          | (none, kv) =>
            match lengths.max?, additions.max? with
            | some past, some query =>
              commitRows cache past query (identities.zip (lengths.zip additions)).zipIdx kv
            | _, _ => (some .emptySequence, kv)

/-! ### Release -/

def release (kv : BlockKV α) (identity : String) : BlockKV α :=
  match kv.rows.get? identity with
  | none => kv
  | some entry =>
    { kv with
      rows := kv.rows.erase identity
      free := kv.free ++ entry.blocks
      releases := kv.releases + entry.blocks.length }

def clear (kv : BlockKV α) : BlockKV α :=
  { kv.rows.keys.foldl release kv with slabs := none }

end BlockKV

end Hqsb
