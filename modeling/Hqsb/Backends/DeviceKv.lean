/-
Hqsb/Backends/DeviceKv.lean

Dense full-attention KV: one compact row for each request
(`hqsb/backends/device_kv.py`), and the cache object both layouts exchange with
the model.

A cache is a list of layers with a keys and a values tensor each.  `pack` builds
it left-padded from the stored rows, `commit` cuts the rows out of the cache the
model returned.

Left out: the counters of copied bytes, which only the receipts read.
-/
import Hqsb.Lib.OrderedDict
import Hqsb.Lib.Tensor
import Hqsb.Lib.Traverse

namespace Hqsb

open Lib

/-! ### Caches -/

inductive KvError
  | blockKvStaleLength
  | blockPoolCapacity
  | blockPoolRequiresFullAttentionDynamicLayers
  | blockPoolNonuniformGeometry
  | blockPoolByteBudget
  | deviceKvLengthMismatch
  | unsupportedDeviceCacheLayout
  | emptySequence
  | keyError
  | indexError
  | popFromEmptyList
  | noSlabs
  | shapeMismatch
  deriving DecidableEq

/-- The text of the exception; of the interpreter's own ones its gist. -/
def KvError.message : KvError → String
  | .blockKvStaleLength => "BLOCK_KV_STALE_LENGTH"
  | .blockPoolCapacity => "BLOCK_POOL_CAPACITY"
  | .blockPoolRequiresFullAttentionDynamicLayers =>
    "BLOCK_POOL_REQUIRES_FULL_ATTENTION_DYNAMIC_LAYERS"
  | .blockPoolNonuniformGeometry => "BLOCK_POOL_NONUNIFORM_GEOMETRY"
  | .blockPoolByteBudget => "BLOCK_POOL_BYTE_BUDGET"
  | .deviceKvLengthMismatch => "DEVICE_KV_LENGTH_MISMATCH"
  | .unsupportedDeviceCacheLayout => "UNSUPPORTED_DEVICE_CACHE_LAYOUT"
  | .emptySequence => "max() arg is an empty sequence"
  | .keyError => "KeyError"
  | .indexError => "index out of range"
  | .popFromEmptyList => "pop from empty list"
  | .noSlabs => "'NoneType' object has no attribute 'shape'"
  | .shapeMismatch => "The size of the tensors must match"

/-- The keys and the values of one layer. -/
abbrev Pair (α : Type*) := Tensor α × Tensor α

inductive Component
  | keys | values

/-- `pair[component]` -/
def Component.of {β : Type*} (component : Component) (pair : β × β) : β :=
  match component with
  | .keys => pair.1
  | .values => pair.2

/-- One layer of a cache; `dynamic` when its type is `DynamicLayer`. -/
structure CacheLayer (α : Type*) where
  dynamic : Bool := true
  pair : Pair α

structure DynamicCache (α : Type*) where
  layers : List (CacheLayer α) := []

/-- `DynamicCache(ddp_cache_data=data)` -/
def DynamicCache.ofData {α : Type*} (data : List (Pair α)) : DynamicCache α :=
  ⟨data.map fun pair => { pair := pair }⟩

def packPair {α : Type*} (packed : Component → Except KvError (Tensor α)) :
    Except KvError (Pair α) := do
  let keys ← packed .keys
  let values ← packed .values
  return (keys, values)

/-- One pass `for layer in range(layers): for component in range(2)`. -/
def packLayers {α : Type*} (layers : Nat)
    (packed : (layer : Nat) → Component → Except KvError (Tensor α)) :
    Except KvError (DynamicCache α) := do
  let data ← (List.range layers).mapM fun layer => packPair (packed layer)
  return .ofData data

section

variable {α : Type*}

theorem packPair_eq_ok_iff {packed : Component → Except KvError (Tensor α)} {pair : Pair α} :
    packPair packed = .ok pair ↔ ∀ component, packed component = .ok (component.of pair) := by
  have hall : (∀ component : Component, packed component = .ok (component.of pair)) ↔
      packed .keys = .ok pair.1 ∧ packed .values = .ok pair.2 :=
    ⟨fun h => ⟨h .keys, h .values⟩, fun h component => by cases component; exacts [h.1, h.2]⟩
  rw [hall, packPair]
  rcases hk : packed .keys with e | keys
  · exact ⟨nofun, nofun⟩
  rcases hv : packed .values with e | values
  · exact ⟨nofun, nofun⟩
  · simp only [Except.ok.injEq]
    exact ⟨fun h => Prod.mk.inj (Except.ok.inj h), fun h => congrArg Except.ok (Prod.ext h.1 h.2)⟩

theorem packPair_error {packed : Component → Except KvError (Tensor α)} {error : KvError}
    (h : packPair packed = .error error) : ∃ component, packed component = .error error := by
  rw [packPair] at h
  rcases hk : packed .keys with e | keys
  · rw [hk] at h
    obtain rfl : e = error := Except.error.inj h
    exact ⟨.keys, hk⟩
  rcases hv : packed .values with e | values
  · rw [hk, hv] at h
    obtain rfl : e = error := Except.error.inj h
    exact ⟨.values, hv⟩
  · rw [hk, hv] at h
    cases h

variable {layers : Nat} {packed : Nat → Component → Except KvError (Tensor α)}

theorem packLayers_error {error : KvError} (h : packLayers layers packed = .error error) :
    ∃ layer < layers, ∃ component, packed layer component = .error error := by
  rw [packLayers] at h
  rcases hm : (List.range layers).mapM (fun layer => packPair (packed layer)) with e | data
  · rw [hm] at h
    obtain rfl : e = error := Except.error.inj h
    obtain ⟨layer, hmem, hl⟩ := exists_of_mapM_eq_error hm
    exact ⟨layer, List.mem_range.mp hmem, packPair_error hl⟩
  · rw [hm] at h
    cases h

/-- A pass that goes through gives the cache of what it packed. -/
theorem packLayers_eq_ok_iff {cache : DynamicCache α} : packLayers layers packed = .ok cache ↔
      ∃ data : List (Pair α), cache = .ofData data ∧ data.length = layers ∧
        ∀ layer (h : layer < data.length) (component : Component),
          packed layer component = .ok (component.of data[layer]) := by
  have hmap : ∀ data : List (Pair α),
      (List.range layers).mapM (fun layer => packPair (packed layer)) = .ok data ↔
        data.length = layers ∧ ∀ layer (h : layer < data.length) (component : Component),
          packed layer component = .ok (component.of data[layer]) := by
    intro data
    have hrange : (List.range layers).length = layers := List.length_range
    rw [mapM_eq_ok_iff, List.forall₂_iff_get]
    constructor
    · rintro ⟨hlen, hget⟩
      refine ⟨hlen.symm.trans hrange, fun layer h => packPair_eq_ok_iff.mp ?_⟩
      simpa using hget layer (by rw [hlen]; exact h) h
    · rintro ⟨hlen, hget⟩
      refine ⟨hrange.trans hlen.symm, fun layer h h' => ?_⟩
      simpa using packPair_eq_ok_iff.mpr (hget layer h')
  rw [packLayers]
  constructor
  · intro h
    rcases hm : (List.range layers).mapM (fun layer => packPair (packed layer)) with e | data
    · rw [hm] at h
      cases h
    · rw [hm] at h
      cases h
      exact ⟨data, rfl, (hmap data).mp hm⟩
  · rintro ⟨data, rfl, h⟩
    rw [(hmap data).mpr h]
    rfl

end

/-! ### Dense rows -/

structure DenseKV (α : Type*) where
  rows : OrderedDict String (List (Pair α)) := .empty

namespace DenseKV

variable {α : Type*} [Zero α]

/-- `self.rows[identity][layer][component]` -/
def tensor (kv : DenseKV α) (identity : String) (layer : Nat) (component : Component) :
    Except KvError (Tensor α) :=
  match kv.rows.get? identity with
  | none => .error .keyError
  | some layers =>
    match layers[layer]? with
    | none => .error .indexError
    | some pair => .ok (component.of pair)

/-- The rows of one component, copied one after the other into the right end of `packed`. -/
def packRows (kv : DenseKV α) (layer : Nat) (component : Component) (width : Nat) :
    List ((String × Nat) × Nat) → Tensor α → Except KvError (Tensor α)
  | [], packed => .ok packed
  | ((identity, count), row) :: rest, packed =>
    if count = 0 then packRows kv layer component width rest packed
    else do
      let tensor ← kv.tensor identity layer component
      if tensor.columns ≠ count then .error .deviceKvLengthMismatch
      else
        match packed.copyColumns row (width - count) width tensor with
        | none => .error .shapeMismatch
        | some packed => packRows kv layer component width rest packed

/-- `next(self.rows[i] for i, n in zip(identities, lengths) if n)` -/
def template (kv : DenseKV α) (rows : List (String × Nat)) : Except KvError (List (Pair α)) :=
  match rows.find? fun r => decide (r.2 ≠ 0) with
  | none => .error .emptySequence
  | some (identity, _) =>
    match kv.rows.get? identity with
    | none => .error .keyError
    | some layers => .ok layers

def pack (kv : DenseKV α) (identities : List String) (lengths : List Nat) :
    Except KvError (DynamicCache α) :=
  match lengths.max? with
  | none => .error .emptySequence
  | some 0 => .ok {}
  | some width => do
    let template ← kv.template (identities.zip lengths)
    packLayers template.length fun layer component =>
      match template[layer]? with
      | none => .error .indexError
      | some pair => kv.packRows layer component width (identities.zip lengths).zipIdx
          ((component.of pair).zeros identities.length width)

omit [Zero α] in
/-- The compact row of one tensor: its own past columns and its new ones. -/
def compact (tensor : Tensor α) (row past query count added : Nat) : Tensor α :=
  (tensor.slice row (past - count) past).cat
    (tensor.slice row (past + query - added) (past + query))

/-- Never retain a view into another request's batch storage. -/
def compactLayers (row past query count added : Nat) :
    List (CacheLayer α) → Except KvError (List (Pair α))
  | [] => .ok []
  | layer :: rest =>
    if layer.dynamic then do
      let pair := (compact layer.pair.1 row past query count added,
        compact layer.pair.2 row past query count added)
      return pair :: (← compactLayers row past query count added rest)
    else .error .unsupportedDeviceCacheLayout

/-- The loop of `commit`; the rows stored before an error stay. -/
def commitRows (cache : DynamicCache α) (past query : Nat) :
    List ((String × Nat × Nat) × Nat) → DenseKV α → Option KvError × DenseKV α
  | [], kv => (none, kv)
  | ((identity, count, added), row) :: rest, kv =>
    match compactLayers row past query count added cache.layers with
    | .error error => (some error, kv)
    | .ok layers => commitRows cache past query rest { kv with rows := kv.rows.set identity layers }

def commit (kv : DenseKV α) (cache : DynamicCache α) (identities : List String)
    (lengths additions : List Nat) : Option KvError × DenseKV α :=
  match lengths.max?, additions.max? with
  | some past, some query =>
    commitRows cache past query (identities.zip (lengths.zip additions)).zipIdx kv
  | _, _ => (some .emptySequence, kv)

def release (kv : DenseKV α) (identity : String) : DenseKV α :=
  { kv with rows := kv.rows.erase identity }

end DenseKV

end Hqsb
