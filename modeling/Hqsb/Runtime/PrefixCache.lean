/-
Hqsb/Runtime/PrefixCache.lean

The prefix cache of `hqsb/runtime/prefix_cache.py`: keys, entries with readers,
lookup over block groups, and the operations that let entries go.

SHA-256 enters as the function `sha256` from a text to its hex digest.  Byte
values are rationals.  The audit trails (`lookups`, `evictions`) and the texts of
the errors are left out; nothing reads them.
-/
import Hqsb.Core.Json
import Hqsb.Lib.Machine
import Hqsb.Lib.OrderedDict

namespace Hqsb

open Lib

/-! ### Keys -/

/-- The fields of `CACHE_KEY_FIELDS`. -/
structure PrefixIdentity where
  modelId : String
  weightRevision : String
  precision : String
  quantArtifactHash : String
  adapterHash : String
  tokenizerId : String
  chatTemplateHash : String
  ropeConfigHash : String
  attentionConfigHash : String
  cacheLayoutVersion : String
  blockGroup : String
  tenantDomain : String
  multimodalIdentity : String
  deriving DecidableEq

/-- A key with all its fields, those of `SPAN_KEY_FIELDS` after the identity. -/
structure PrefixKey where
  identity : PrefixIdentity
  parentChainDigest : String
  blockTokenSequenceHash : String
  tokens : List Int := []
  digest : String := ""
  deriving DecidableEq

section Digests

variable (sha256 : String → String)

def tokenDigest (tokens : List Int) : String := sha256 (",".intercalate (tokens.map toString))

namespace PrefixKey

def length (key : PrefixKey) : Nat := key.tokens.length

def contentDigest (key : PrefixKey) : String := tokenDigest sha256 key.tokens

def canonical (key : PrefixKey) : String :=
  jsonDumps [
    ("adapter_hash", key.identity.adapterHash),
    ("attention_config_hash", key.identity.attentionConfigHash),
    ("block_group", key.identity.blockGroup),
    ("block_token_sequence_hash", key.blockTokenSequenceHash),
    ("cache_layout_version", key.identity.cacheLayoutVersion),
    ("chat_template_hash", key.identity.chatTemplateHash),
    ("content_digest", key.contentDigest sha256),
    ("model_id", key.identity.modelId),
    ("multimodal_identity", key.identity.multimodalIdentity),
    ("parent_chain_digest", key.parentChainDigest),
    ("precision", key.identity.precision),
    ("quant_artifact_hash", key.identity.quantArtifactHash),
    ("rope_config_hash", key.identity.ropeConfigHash),
    ("tenant_domain", key.identity.tenantDomain),
    ("tokenizer_id", key.identity.tokenizerId),
    ("weight_revision", key.identity.weightRevision)]

def computeDigest (key : PrefixKey) : String := sha256 (key.canonical sha256)

def effectiveDigest (key : PrefixKey) : String :=
  if key.digest ≠ "" then key.digest else key.computeDigest sha256

def identityMatches (key other : PrefixKey) : Bool := key.identity = other.identity

end PrefixKey

/-- `xs[start:stop]` -/
def pySlice {α : Type*} (xs : List α) (start stop : Int) : List α :=
  let bound (i : Int) : Nat := (if i < 0 then max (i + xs.length) 0 else min i xs.length).toNat
  (xs.take (bound stop)).drop (bound start)

structure KeyRequest where
  identity : String → Option String
  tokens : List Int
  tokenSpan : Int × Int
  parentChainDigest : String := ""
  blockGroup : String := "full_attention"
  tenantDomain : String := "shared"
  cacheLayoutVersion : String := "1.0.0"
  multimodalIdentity : String := ""
  blockSize : Int := 0

inductive PrefixError
  | spanOutsideTokens
  | incompleteBlocks
  | blockIdCount
  | queryTokensNotPositive
  | queryTokensBeyondKey
  | refusedDrop (entryId : String)

def buildPrefixKey (request : KeyRequest) : Except PrefixError PrefixKey :=
  let start := request.tokenSpan.1
  let stop := request.tokenSpan.2
  if start < 0 ∨ request.tokens.length < stop then .error .spanOutsideTokens
  else
    let stop := if request.blockSize ≠ 0 then
        start + (stop - start).fdiv request.blockSize * request.blockSize
      else stop
    let span := pySlice request.tokens start stop
    .ok {
      identity := {
        modelId := (request.identity "model_id").getD ""
        weightRevision := (request.identity "weight_revision").getD ""
        precision := (request.identity "precision").getD ""
        quantArtifactHash := (request.identity "quant_artifact_hash").getD ""
        adapterHash := (request.identity "adapter_hash").getD ""
        tokenizerId := (request.identity "tokenizer_id").getD ""
        chatTemplateHash := (request.identity "chat_template_hash").getD ""
        ropeConfigHash := (request.identity "rope_config_hash").getD ""
        attentionConfigHash := (request.identity "attention_config_hash").getD ""
        cacheLayoutVersion := request.cacheLayoutVersion
        blockGroup := request.blockGroup
        tenantDomain := request.tenantDomain
        multimodalIdentity := request.multimodalIdentity }
      parentChainDigest :=
        if request.parentChainDigest ≠ "" then request.parentChainDigest
        else tokenDigest sha256 (pySlice request.tokens 0 start)
      blockTokenSequenceHash := tokenDigest sha256 span
      tokens := span }

end Digests

/-! ### Entries -/

structure CacheEntryRecord where
  entryId : String
  key : PrefixKey
  tokenCount : Nat
  blockIds : List Nat
  bytesValue : ℚ
  refcount : Nat := 0
  reuseCount : Nat := 0
  lastUseIteration : Nat := 0
  readers : List String := []
  pinned : Bool := false

def CacheEntryRecord.blockGroup (entry : CacheEntryRecord) : String := entry.key.identity.blockGroup

inductive CollisionPolicy
  | strongDigest | digestPlusTokenEquality
  deriving DecidableEq

inductive EvictionPolicy
  | lru | lruReuseAware

structure PrefixCacheSpec where
  blockSize : Nat
  blockSize_pos : 0 < blockSize
  collisionPolicy : CollisionPolicy := .digestPlusTokenEquality
  evictionPolicy : EvictionPolicy := .lru
  maxCacheBytes : ℚ
  maxCacheBytes_pos : 0 < maxCacheBytes

/-- The decision for one entry. -/
structure Match where
  length : Nat
  accepted : Bool
  collision : Bool
  reason : String := ""

structure LookupResult where
  queryTokens : Nat
  fullBlockHits : Nat
  partialTailTokens : Nat
  cachedTokens : Nat
  computedTokens : Nat
  firstMissIndex : Nat
  resumedPosition : Nat
  refcounts : List Nat
  blockGroupHits : List String
  collisionDetected : Bool
  rejectedReason : String

structure PrefixCache where
  spec : PrefixCacheSpec
  entries : OrderedDict String CacheEntryRecord
  clock : Nat

def entryId (number : Nat) : String :=
  "entry-" ++ String.ofList ((Nat.toDigits 10 number).leftpad 4 '0')

namespace PrefixCache

def new (spec : PrefixCacheSpec) : PrefixCache := { spec := spec, entries := .empty, clock := 0 }

/-! ### Insert and lookup -/

def insert (cache : PrefixCache) (key : PrefixKey) (blockIds : List Nat) (bytesValue : ℚ)
    (requestId : String) : Except PrefixError (CacheEntryRecord × PrefixCache) :=
  if key.length = 0 ∨ key.length % cache.spec.blockSize ≠ 0 then .error .incompleteBlocks
  else if blockIds.length ≠ key.length / cache.spec.blockSize then .error .blockIdCount
  else
    let entry : CacheEntryRecord := {
      entryId := entryId cache.entries.keys.length
      key := key
      tokenCount := key.length
      blockIds := blockIds
      bytesValue := bytesValue
      refcount := 1
      readers := [requestId]
      lastUseIteration := cache.clock + 1 }
    .ok (entry, { cache with
      entries := cache.entries.set entry.entryId entry
      clock := cache.clock + 1 })

section Lookup

variable (sha256 : String → String)

/-- The method `_match_entry`. -/
def matchEntry (spec : PrefixCacheSpec) (entry : CacheEntryRecord) (query : PrefixKey)
    (queryTokens : Nat) : Match :=
  if ¬ entry.key.identityMatches query then
    { length := 0, accepted := false, collision := false, reason := "identity_mismatch" }
  else if entry.refcount = 0 then
    { length := 0, accepted := false, collision := false, reason := "entry_not_shared" }
  else
    let length := min entry.tokenCount queryTokens
    let length := length - length % spec.blockSize
    if length = 0 then
      { length := 0, accepted := false, collision := false, reason := "no_complete_block" }
    else
      let overlap := query.tokens.take length
      let entryOverlap := entry.key.tokens.take length
      let digestOk : Bool :=
        if entry.key.digest ≠ "" then entry.key.digest = query.effectiveDigest sha256
        else tokenDigest sha256 entryOverlap = tokenDigest sha256 overlap
      if ¬ digestOk then
        { length := 0, accepted := false, collision := false, reason := "digest_mismatch" }
      else if overlap ≠ entryOverlap then
        if spec.collisionPolicy = .digestPlusTokenEquality then
          { length := 0, accepted := false, collision := true, reason := "forced_collision" }
        else { length := length, accepted := true, collision := false }
      else { length := length, accepted := true, collision := false }

/-- What the loop of `lookup` has gathered. -/
structure Scan where
  perGroup : OrderedDict String Nat := .empty
  touching : List CacheEntryRecord := []
  collisions : Nat := 0
  rejected : String := ""

/-- One pass of the loop of `lookup`. -/
def Scan.entry (spec : PrefixCacheSpec) (query : PrefixKey) (queryTokens : Nat)
    (blockGroups : List String) (scan : Scan) (entry : CacheEntryRecord) : Scan :=
  if entry.blockGroup ∉ blockGroups then scan
  else
    let decision := matchEntry sha256 spec entry query queryTokens
    let scan := { scan with
      collisions := if decision.collision then scan.collisions + 1 else scan.collisions }
    if ¬ decision.accepted then
      { scan with rejected := if scan.rejected ≠ "" then scan.rejected else decision.reason }
    else
      { scan with
        touching := scan.touching ++ [entry]
        perGroup := scan.perGroup.set entry.blockGroup
          (max ((scan.perGroup.get? entry.blockGroup).getD 0) decision.length) }

/-- `min(.., default=0)` -/
def minOrZero : List Nat → Nat
  | [] => 0
  | n :: ns => ns.foldl min n

/-- What `lookup` does to an entry it touches. -/
def touch (clock : Nat) (requestId : String) (entry : CacheEntryRecord) : CacheEntryRecord :=
  let entry := { entry with reuseCount := entry.reuseCount + 1, lastUseIteration := clock }
  if requestId ∉ entry.readers then
    { entry with readers := entry.readers ++ [requestId], refcount := entry.refcount + 1 }
  else entry

def lookup (cache : PrefixCache) (key : PrefixKey) (queryTokens : Nat) (blockGroups : List String)
    (requestId : String) : Except PrefixError (LookupResult × PrefixCache) :=
  if queryTokens = 0 then .error .queryTokensNotPositive
  else if key.length < queryTokens then .error .queryTokensBeyondKey
  else
    let scan := cache.entries.values.foldl
      (Scan.entry sha256 cache.spec key queryTokens blockGroups) {}
    let cached := minOrZero (blockGroups.map fun group => (scan.perGroup.get? group).getD 0)
    let blockHits := cached / cache.spec.blockSize
    let cached := blockHits * cache.spec.blockSize
    let clock := cache.clock + 1
    let touched := scan.touching.map (touch clock requestId)
    let entries := touched.foldl (fun entries entry => entries.set entry.entryId entry) cache.entries
    .ok ({
        queryTokens := queryTokens
        fullBlockHits := blockHits
        partialTailTokens := queryTokens - cached
        cachedTokens := cached
        computedTokens := queryTokens - cached
        firstMissIndex := cached
        resumedPosition := cached
        refcounts := touched.map (·.refcount)
        blockGroupHits := scan.perGroup.keys.mergeSort (· ≤ ·)
        collisionDetected := scan.collisions ≠ 0
        rejectedReason := if scan.touching = [] then scan.rejected else "" },
      { cache with entries := entries, clock := clock })

end Lookup

/-! ### Letting entries go -/

/-- The method `_drop`. -/
def drop (entryId : String) (entries : OrderedDict String CacheEntryRecord) :
    Option PrefixError × OrderedDict String CacheEntryRecord :=
  match entries.get? entryId with
  | none => (none, entries)
  | some entry =>
    if 0 < entry.refcount then (some (.refusedDrop entryId), entries)
    else (none, entries.erase entryId)

/-- The loop of `release` over the entries there were. -/
def releaseEntries (requestId : String) (retain : Bool) :
    List CacheEntryRecord → OrderedDict String CacheEntryRecord →
      Except PrefixError (List String) × OrderedDict String CacheEntryRecord
  | [], entries => (.ok [], entries)
  | entry :: rest, entries =>
    if requestId ∉ entry.readers then releaseEntries requestId retain rest entries
    else
      let entry : CacheEntryRecord := { entry with
        readers := entry.readers.filter (· ≠ requestId)
        refcount := entry.refcount - 1 }
      let entries := entries.set entry.entryId entry
      let dropped :=
        if entry.refcount = 0 ∧ ¬ retain then drop entry.entryId entries else (none, entries)
      match dropped with
      | (some error, entries) => (.error error, entries)
      | (none, entries) =>
        match releaseEntries requestId retain rest entries with
        | (.error error, entries) => (.error error, entries)
        | (.ok released, entries) => (.ok (entry.entryId :: released), entries)

def release (cache : PrefixCache) (requestId : String) (retain : Bool) :
    Except PrefixError (List String) × PrefixCache :=
  let r := releaseEntries requestId retain cache.entries.values cache.entries
  (r.1, { cache with entries := r.2 })

def totalBytes (entries : OrderedDict String CacheEntryRecord) : ℚ :=
  entries.sum CacheEntryRecord.bytesValue

/-- The order of eviction; `lru` does not look at the reuse count. -/
def evictionKey : EvictionPolicy → CacheEntryRecord → ℕ ×ₗ ℕ ×ₗ String
  | .lru, entry => toLex (0, toLex (entry.lastUseIteration, entry.entryId))
  | .lruReuseAware, entry =>
    toLex (entry.reuseCount, toLex (entry.lastUseIteration, entry.entryId))

def evictionCandidates (entries : OrderedDict String CacheEntryRecord) : List CacheEntryRecord :=
  entries.values.filter fun entry => entry.refcount = 0 ∧ ¬ entry.pinned

/-- The loop of `evict`, so many passes at most. -/
def evictLoop (policy : EvictionPolicy) (limit : ℚ) :
    Nat → OrderedDict String CacheEntryRecord →
      Except PrefixError (List CacheEntryRecord) × OrderedDict String CacheEntryRecord
  | 0, entries => (.ok [], entries)
  | fuel + 1, entries =>
    if ¬ limit < totalBytes entries then (.ok [], entries)
    else
      match (evictionCandidates entries).argmin (evictionKey policy) with
      | none => (.ok [], entries)
      | some victim =>
        match drop victim.entryId entries with
        | (some error, entries) => (.error error, entries)
        | (none, entries) =>
          match evictLoop policy limit fuel entries with
          | (.error error, entries) => (.error error, entries)
          | (.ok evicted, entries) => (.ok (victim :: evicted), entries)

/-- Every pass of the loop lets one entry go, so the number of entries bounds them. -/
def evict (cache : PrefixCache) (targetBytes : ℚ) :
    Except PrefixError (List CacheEntryRecord) × PrefixCache :=
  let r := evictLoop cache.spec.evictionPolicy (min targetBytes cache.spec.maxCacheBytes)
    cache.entries.keys.length cache.entries
  (r.1, { cache with entries := r.2 })

/-- The number of entries there were, and the empty cache. -/
def reset (cache : PrefixCache) : Nat × PrefixCache :=
  (cache.entries.keys.length, { cache with entries := .empty })

end PrefixCache

/-! ### Runs -/

inductive PrefixCall
  | insert (key : PrefixKey) (blockIds : List Nat) (bytesValue : ℚ) (requestId : String)
  | lookup (key : PrefixKey) (queryTokens : Nat) (blockGroups : List String) (requestId : String)
  | release (requestId : String) (retain : Bool)
  | evict (targetBytes : ℚ)
  | reset

/-- The cache a call leaves; `insert` and `lookup` raise before they change anything. -/
def PrefixCache.call (sha256 : String → String) (cache : PrefixCache) : PrefixCall → PrefixCache
  | .insert key blockIds bytesValue requestId =>
    match cache.insert key blockIds bytesValue requestId with
    | .error _ => cache
    | .ok (_, cache) => cache
  | .lookup key queryTokens blockGroups requestId =>
    match cache.lookup sha256 key queryTokens blockGroups requestId with
    | .error _ => cache
    | .ok (_, cache) => cache
  | .release requestId retain => (cache.release requestId retain).2
  | .evict targetBytes => (cache.evict targetBytes).2
  | .reset => cache.reset.2

def prefixMachine (sha256 : String → String) (spec : PrefixCacheSpec) :
    Machine PrefixCache PrefixCall where
  init := .new spec
  step := .call sha256

end Hqsb
