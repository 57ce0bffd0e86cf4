/-
Hqsb/Runtime/BlockPool.lean

The paged block pool of `hqsb/runtime/kv.py`: blocks with a lifecycle, an owner,
a reference count and readers, the operations on them and the report that checks
them.

An operation that raises keeps what it has done so far, so every operation
returns its error beside the pool it leaves.  Block ids are the indices of the
pool's list.  Left out: the event log and the audit trail of a block, which
nothing reads, its device address and the texts of the errors.
-/
import Hqsb.Lib.Machine

namespace Hqsb

open Lib

inductive BlockState
  | free | allocated | written | active | sharedCached | evictable | evicting | copyOnWrite
  | preempted
  deriving DecidableEq

def allowedBlockTransitions : BlockState → List BlockState
  | .free => [.allocated]
  | .allocated => [.written, .free]
  | .written => [.active, .free]
  | .active => [.sharedCached, .evictable, .copyOnWrite, .preempted, .free]
  | .sharedCached => [.active, .evictable, .free]
  | .evictable => [.evicting, .active]
  | .evicting => [.free]
  | .copyOnWrite => [.active, .free]
  | .preempted => [.active, .evictable, .free]

/-- What the pool raises; all but `keyError` are a `ConfigError`. -/
inductive PoolError
  | negativeTokenCount
  | blockSizeNotPositive
  | needsOwner
  | reuseExceedsNeed
  | illegalTransition (old new : BlockState)
  | exhausted (needed available : Nat)
  | unknownBlock (blockId : Nat)
  | freedBlock (blockId : Nat)
  | notAReader (blockId : Nat)
  | refusedEviction (blockId : Nat)
  | notEvictable (blockId : Nat)
  | keyError (blockId : Nat)
  deriving DecidableEq

/-- The blocks for so many tokens.  The source rounds up a quotient of floats, which is the same
while the tokens are fewer than 2^53. -/
def blocksFor (tokens : Int) (blockSize : Nat) : Except PoolError Nat :=
  if tokens < 0 then .error .negativeTokenCount
  else if blockSize = 0 then .error .blockSizeNotPositive
  else .ok (tokens.toNat ⌈/⌉ blockSize)

/-! ### Blocks -/

structure BlockRecord where
  state : BlockState := .free
  ownerRequest : String := ""
  refcount : Int := 0
  tokenStart : Int := 0
  tokenCount : Int := 0
  contentHash : String := ""
  readers : List String := []

namespace BlockRecord

def hasLiveOwner (record : BlockRecord) : Bool := 0 < record.refcount ∧ record.ownerRequest ≠ ""

def transition (record : BlockRecord) (new : BlockState) : Except PoolError BlockRecord :=
  if new ∈ allowedBlockTransitions record.state then .ok { record with state := new }
  else .error (.illegalTransition record.state new)

/-- `if request_id not in readers: readers.append(request_id)` -/
def attach (record : BlockRecord) (requestId : String) : List String :=
  if requestId ∈ record.readers then record.readers else record.readers ++ [requestId]

/-- A free block becomes a written one of `requestId`. -/
def write (record : BlockRecord) (requestId : String) (blockId : Nat) (start count : Int) :
    Except PoolError BlockRecord :=
  match record.transition .allocated with
  | .error error => .error error
  | .ok record =>
    match { record with
      ownerRequest := requestId
      refcount := 1
      readers := record.attach requestId
      tokenStart := start
      tokenCount := count }.transition .written with
    | .error error => .error error
    | .ok record =>
      .ok { record with contentHash := "blk" ++ toString blockId ++ "-" ++ toString start }

/-- What `release` does to one block.  When the last transition is illegal the changes before it
stay. -/
def release (record : BlockRecord) (requestId : String) : Option PoolError × BlockRecord :=
  let record : BlockRecord := { record with
    readers := record.readers.erase requestId
    refcount := max (record.refcount - 1) 0 }
  if record.refcount = 0 then
    let record : BlockRecord := { record with
      ownerRequest := if record.ownerRequest = requestId then "" else record.ownerRequest }
    let target : Option BlockState :=
      match record.state with
      | .preempted => some .evictable
      | .active | .sharedCached => some (if record.contentHash ≠ "" then .evictable else .free)
      | .evictable => none
      | _ => some .free
    match target with
    | none => (none, record)
    | some state =>
      match record.transition state with
      | .error error => (some error, record)
      | .ok record => (none, record)
  else (none, record)

end BlockRecord

/-! ### The pool -/

structure BlockPool where
  blockSize : Nat
  blocks : List BlockRecord

namespace BlockPool

def new (totalBlocks blockSize : Nat) : BlockPool :=
  { blockSize := blockSize, blocks := List.replicate totalBlocks {} }

variable (pool : BlockPool)

/-- `self.blocks[block_id] = record` -/
def put (blockId : Nat) (record : BlockRecord) : BlockPool :=
  { pool with blocks := pool.blocks.set blockId record }

/-- The ids of the blocks that satisfy `p`, in order. -/
def select (p : BlockRecord → Bool) : List Nat :=
  (pool.blocks.zipIdx.filter fun r => p r.1).map Prod.snd

def freeBlocks : List Nat := pool.select fun record => record.state = .free

def usedBlocks : List Nat := pool.select fun record => record.state ≠ .free

def cachedBlocks : List Nat :=
  pool.select fun record => record.state = .sharedCached ∨ record.state = .evictable

/-- The method `blocks_for`. -/
def blocksOf (requestId : String) : List Nat :=
  pool.select fun record => requestId ∈ record.readers ∨ record.ownerRequest = requestId

/-! ### Operations -/

/-- The first loop of `allocate`. -/
def reuseBlocks (requestId : String) : List Nat → BlockPool → Option PoolError × BlockPool
  | [], pool => (none, pool)
  | blockId :: rest, pool =>
    match pool.blocks[blockId]? with
    | none => (some (.keyError blockId), pool)
    | some record =>
      match record.transition .active with
      | .error error => (some error, pool)
      | .ok record =>
        reuseBlocks requestId rest
          (pool.put blockId { record with readers := record.readers ++ [requestId] })

def takeFree (requestId : String) (tokenStart tokenCount : Int) (needed : Nat) :
    List Nat → List Nat → BlockPool → Option PoolError × List Nat × BlockPool
  | [], chosen, pool => (none, chosen, pool)
  | blockId :: free, chosen, pool =>
    if chosen.length = needed then (none, chosen, pool)
    else
      match pool.blocks[blockId]? with
      | none => (some (.keyError blockId), chosen, pool)
      | some record =>
        let offset : Int := chosen.length * pool.blockSize
        match record.write requestId blockId (tokenStart + offset)
          (min pool.blockSize (max (tokenCount - offset) 0)) with
        | .error error => (some error, chosen, pool)
        | .ok record =>
          takeFree requestId tokenStart tokenCount needed free (chosen ++ [blockId])
            (pool.put blockId record)

/-- The last loop of `allocate`. -/
def activate : List Nat → BlockPool → Option PoolError × BlockPool
  | [], pool => (none, pool)
  | blockId :: rest, pool =>
    match pool.blocks[blockId]? with
    | none => (some (.keyError blockId), pool)
    | some record =>
      match record.transition .active with
      | .error error => (some error, pool)
      | .ok record => activate rest (pool.put blockId record)

def allocate (requestId : String) (tokenStart tokenCount : Int)
    (reuse : List Nat) : Except PoolError (List Nat) × BlockPool :=
  if requestId = "" then (.error .needsOwner, pool)
  else
    match blocksFor tokenCount pool.blockSize with
    | .error error => (.error error, pool)
    | .ok needed =>
      if needed < reuse.length then (.error .reuseExceedsNeed, pool)
      else
        match reuseBlocks requestId reuse pool with
        | (some error, pool) => (.error error, pool)
        | (none, pool) =>
          match takeFree requestId tokenStart tokenCount needed pool.freeBlocks reuse pool with
          | (some error, _, pool) => (.error error, pool)
          | (none, chosen, pool) =>
            if chosen.length < needed then (.error (.exhausted needed chosen.length), pool)
            else
              match activate (chosen.drop reuse.length) pool with
              | (some error, pool) => (.error error, pool)
              | (none, pool) => (.ok chosen, pool)

def requireLive (blockId : Nat) : Except PoolError BlockRecord :=
  match pool.blocks[blockId]? with
  | none => .error (.unknownBlock blockId)
  | some record => if record.state = .free then .error (.freedBlock blockId) else .ok record

def share (blockId : Nat) (requestId : String) : Option PoolError × BlockPool :=
  match pool.requireLive blockId with
  | .error error => (some error, pool)
  | .ok record =>
    let record := { record with
      refcount := record.refcount + 1, readers := record.attach requestId }
    if record.state = .evictable then
      match record.transition .active with
      | .error error => (some error, pool.put blockId record)
      | .ok record => (none, pool.put blockId record)
    else (none, pool.put blockId record)

/-- The loop of `release`. -/
def releaseBlocks (requestId : String) : List Nat → BlockPool → Option PoolError × BlockPool
  | [], pool => (none, pool)
  | blockId :: rest, pool =>
    match pool.blocks[blockId]? with
    | none => (some (.keyError blockId), pool)
    | some record =>
      match record.release requestId with
      | (some error, record) => (some error, pool.put blockId record)
      | (none, record) => releaseBlocks requestId rest (pool.put blockId record)

/-- `blockIds` is `none` when the caller releases all its blocks. -/
def release (requestId : String) (blockIds : Option (List Nat)) : Option PoolError × BlockPool :=
  releaseBlocks requestId (blockIds.getD (pool.blocksOf requestId)) pool

def markCached (blockId : Nat) (requestId : String) : Option PoolError × BlockPool :=
  match pool.blocks[blockId]? with
  | none => (some (.keyError blockId), pool)
  | some record =>
    if requestId ∉ record.readers then (some (.notAReader blockId), pool)
    else
      match record.transition .sharedCached with
      | .error error => (some error, pool)
      | .ok record => (none, pool.put blockId record)

def evict (blockId : Nat) : Option PoolError × BlockPool :=
  match pool.blocks[blockId]? with
  | none => (some (.keyError blockId), pool)
  | some record =>
    if record.state = .active ∨ 0 < record.refcount then (some (.refusedEviction blockId), pool)
    else if record.state ≠ .evictable then (some (.notEvictable blockId), pool)
    else
      match record.transition .evicting with
      | .error error => (some error, pool)
      | .ok record =>
        let record := { record with contentHash := "", ownerRequest := "" }
        match record.transition .free with
        | .error error => (some error, pool.put blockId record)
        | .ok record => (none, pool.put blockId record)

end BlockPool

/-! ### The report -/

inductive BlockProblem
  | freeWithLiveOwner
  | freeWithReaders
  | transientState (state : BlockState)
  | negativeRefcount
  | liveWithoutOwnerOrHash
  | refcountMismatch (refcount : Int) (readers : Nat)

def BlockRecord.problems (record : BlockRecord) : List BlockProblem :=
  (if record.state = .free ∧ record.hasLiveOwner then [BlockProblem.freeWithLiveOwner] else []) ++
  (if record.state = .free ∧ record.readers ≠ [] then [BlockProblem.freeWithReaders] else []) ++
  (if record.state = .allocated ∨ record.state = .written then
    [BlockProblem.transientState record.state] else []) ++
  (if record.refcount < 0 then [BlockProblem.negativeRefcount] else []) ++
  (if (record.state = .active ∨ record.state = .sharedCached) ∧
      ¬ (record.ownerRequest ≠ "" ∨ record.readers ≠ [] ∨ record.contentHash ≠ "") then
    [BlockProblem.liveWithoutOwnerOrHash] else []) ++
  (if record.state ≠ .free ∧ record.refcount ≠ record.readers.length then
    [BlockProblem.refcountMismatch record.refcount record.readers.length] else [])

structure InvariantReport where
  ok : Bool
  problems : List (Nat × BlockProblem)
  free : Nat
  used : Nat
  cached : Nat
  blocks : Nat

def BlockPool.invariantReport (pool : BlockPool) : InvariantReport :=
  let problems := pool.blocks.zipIdx.flatMap fun r => r.1.problems.map fun problem => (r.2, problem)
  { ok := problems.isEmpty
    problems := problems
    free := pool.freeBlocks.length
    used := pool.usedBlocks.length
    cached := pool.cachedBlocks.length
    blocks := pool.blocks.length }

/-! ### Runs -/

inductive PoolCall
  | allocate (requestId : String) (tokenStart tokenCount : Int) (reuse : List Nat)
  | share (blockId : Nat) (requestId : String)
  | release (requestId : String) (blockIds : Option (List Nat))
  | markCached (blockId : Nat) (requestId : String)
  | evict (blockId : Nat)

/-- The pool a call leaves, whether it raises or not. -/
def BlockPool.call (pool : BlockPool) : PoolCall → BlockPool
  | .allocate requestId tokenStart tokenCount reuse =>
    (pool.allocate requestId tokenStart tokenCount reuse).2
  | .share blockId requestId => (pool.share blockId requestId).2
  | .release requestId blockIds => (pool.release requestId blockIds).2
  | .markCached blockId requestId => (pool.markCached blockId requestId).2
  | .evict blockId => (pool.evict blockId).2

def poolMachine (totalBlocks blockSize : Nat) : Machine BlockPool PoolCall where
  init := .new totalBlocks blockSize
  step := .call

end Hqsb
