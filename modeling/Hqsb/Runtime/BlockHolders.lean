/-
Hqsb/Runtime/BlockHolders.lean

Blocks under a live reader.

A request holds a block from the moment `allocate` or `share` returned it until
it releases the block itself.  The pool does not record this: `HeldPool` carries
it beside the pool.  A held block is `Busy`, neither free nor up for eviction,
and every operation but `release` keeps it so (`Touches`).  A release counts one
reference down whoever asks for it, so it takes a held block away exactly if the
count it finds there is at most one (`ReleaseKeeps`).  `holders_protected_iff`
puts the two together.
-/
import Hqsb.Runtime.BlockOperations

namespace Hqsb

open Lib List

/-! ### Busy blocks -/

namespace BlockRecord

/-- Neither free nor up for eviction. -/
def Busy (record : BlockRecord) : Prop :=
  record.state ≠ .evictable ∧ record.state ≠ .evicting ∧ record.state ≠ .free

theorem busy_of_active {record : BlockRecord} (h : record.state = .active) : record.Busy := by
  simp [Busy, h]

theorem busy_of_written {record : BlockRecord} (h : record.state = .written) : record.Busy := by
  simp [Busy, h]

theorem transition_state {record new : BlockRecord} {state : BlockState}
    (h : record.transition state = .ok new) : new.state = state := by
  rw [transition] at h
  by_cases hallowed : state ∈ allowedBlockTransitions record.state
  · rw [if_pos hallowed] at h
    rw [← Except.ok.inj h]
  · rw [if_neg hallowed] at h
    cases h

theorem write_state {record new : BlockRecord} {requestId : String} {blockId : Nat}
    {start count : Int} (h : record.write requestId blockId start count = .ok new) :
    new.state = .written := by
  rw [write] at h
  rcases hfirst : record.transition .allocated with error | taken
  · rw [hfirst] at h
    cases h
  simp only [hfirst] at h
  split at h
  · cases h
  · rename_i written hsecond
    have hstate := transition_state hsecond
    rw [← Except.ok.inj h]
    exact hstate

/-- **A release changes the state when it takes the last reference**, whoever asks for it. -/
theorem release_state (record : BlockRecord) (requestId : String) :
    (1 < record.refcount → (record.release requestId).2.state = record.state) ∧
      (record.refcount ≤ 1 → (record.release requestId).2.state = .evictable ∨
        (record.release requestId).2.state = .free) := by
  constructor
  · intro hmore
    have hne : max (record.refcount - 1) 0 ≠ 0 := by omega
    rw [release, if_neg hne]
  · intro hlast
    have hzero : max (record.refcount - 1) 0 = 0 := by omega
    simp only [release, hzero, transition]
    rcases hs : record.state
    all_goals
      by_cases hhash : record.contentHash = ""
      all_goals
        simp [hhash, allowedBlockTransitions]

theorem release_not_busy {record : BlockRecord} (requestId : String)
    (h : record.refcount ≤ 1 ∨ ¬ record.Busy) : ¬ (record.release requestId).2.Busy := by
  obtain ⟨hmore, hlast⟩ := record.release_state requestId
  intro hbusy
  by_cases hcount : record.refcount ≤ 1
  · rcases hlast hcount with hs | hs
    · exact hbusy.1 hs
    · exact hbusy.2.2 hs
  · rw [Busy, hmore (by omega)] at hbusy
    exact h.resolve_left hcount hbusy

end BlockRecord

namespace BlockPool

variable {pool pool' pool'' : BlockPool} {blockId other : Nat} {record : BlockRecord}
  {requestId : String}

def BusyAt (pool : BlockPool) (blockId : Nat) : Prop :=
  ∃ record, pool.blocks[blockId]? = some record ∧ record.Busy

/-- No eviction is under way. -/
def Quiet (pool : BlockPool) : Prop :=
  ∀ (blockId : Nat) (record : BlockRecord), pool.blocks[blockId]? = some record →
    record.state ≠ .evicting

def Touches (pool pool' : BlockPool) : Prop :=
  ∀ blockId, pool'.blocks[blockId]? = pool.blocks[blockId]? ∨ pool'.BusyAt blockId

theorem Touches.refl (pool : BlockPool) : pool.Touches pool := fun _ => .inl rfl

theorem Touches.trans (h : pool.Touches pool') (h' : pool'.Touches pool'') :
    pool.Touches pool'' := by
  intro b
  rcases h' b with heq | hbusy
  · rcases h b with heq' | ⟨record, hget, hrecord⟩
    · exact .inl (heq.trans heq')
    · exact .inr ⟨record, heq.trans hget, hrecord⟩
  · exact .inr hbusy

theorem busyAt_put {new : BlockRecord} (hget : pool.blocks[blockId]? = some record)
    (hnew : new.Busy) : (pool.put blockId new).BusyAt blockId := ⟨new, put_self hget new, hnew⟩

theorem touches_put {new : BlockRecord} (hget : pool.blocks[blockId]? = some record)
    (hnew : new.Busy) : pool.Touches (pool.put blockId new) := by
  intro b
  by_cases hb : b = blockId
  · subst hb
    exact .inr (busyAt_put hget hnew)
  · exact .inl (put_of_ne hb new)

theorem Touches.busyAt (h : pool.Touches pool') (hbusy : pool.BusyAt blockId) :
    pool'.BusyAt blockId := by
  rcases h blockId with heq | hbusy'
  · obtain ⟨record, hget, hrecord⟩ := hbusy
    exact ⟨record, heq.trans hget, hrecord⟩
  · exact hbusy'

theorem Touches.freeBlocks (h : pool.Touches pool') (hfree : blockId ∈ pool'.freeBlocks) :
    blockId ∈ pool.freeBlocks := by
  obtain ⟨record, hget, hstate⟩ := mem_freeBlocks.mp hfree
  rcases h blockId with heq | ⟨new, hnew, hbusy⟩
  · exact mem_freeBlocks.mpr ⟨record, heq.symm.trans hget, hstate⟩
  · cases hget.symm.trans hnew
    exact absurd hstate hbusy.2.2

theorem Touches.quiet (h : pool.Touches pool') (hquiet : pool.Quiet) : pool'.Quiet := by
  intro b record hget
  rcases h b with heq | ⟨new, hnew, hbusy⟩
  · exact hquiet b record (heq.symm.trans hget)
  · cases hget.symm.trans hnew
    exact hbusy.2.1

theorem Quiet.put (h : pool.Quiet) {new : BlockRecord} (hnew : new.state ≠ .evicting)
    (blockId : Nat) : (pool.put blockId new).Quiet := by
  intro b record hget
  rcases put_cases hget with ⟨-, rfl⟩ | ⟨-, hold⟩
  · exact hnew
  · exact h b record hold

/-! ### The operations that take no reference away -/

theorem touches_reuseBlocks (requestId : String) (reuse : List Nat) (pool : BlockPool) :
    pool.Touches (reuseBlocks requestId reuse pool).2 ∧
      ((reuseBlocks requestId reuse pool).1 = none →
        ∀ b ∈ reuse, (reuseBlocks requestId reuse pool).2.BusyAt b) := by
  induction reuse generalizing pool with
  | nil => exact ⟨.refl pool, fun _ => forall_mem_nil _⟩
  | cons blockId rest ih =>
    rw [reuseBlocks]
    rcases hget : pool.blocks[blockId]? with - | record
    · exact ⟨.refl pool, by rintro ⟨⟩⟩
    rcases hactive : record.transition .active with error | record'
    · simp only [hactive]
      exact ⟨.refl pool, by rintro ⟨⟩⟩
    simp only [hactive]
    have hstate : record'.state = .active := BlockRecord.transition_state hactive
    have hbusy : BlockRecord.Busy { record' with readers := record'.readers ++ [requestId] } :=
      BlockRecord.busy_of_active hstate
    obtain ⟨htouches, hrest⟩ := ih (pool.put blockId { record' with
      readers := record'.readers ++ [requestId] })
    refine ⟨(touches_put hget hbusy).trans htouches, fun hnone => ?_⟩
    rw [forall_mem_cons]
    exact ⟨htouches.busyAt (busyAt_put hget hbusy), hrest hnone⟩

theorem touches_takeFree (requestId : String) (tokenStart tokenCount : Int) (needed : Nat)
    (free chosen : List Nat) (pool : BlockPool) :
    pool.Touches (takeFree requestId tokenStart tokenCount needed free chosen pool).2.2 ∧
      ∃ taken, (takeFree requestId tokenStart tokenCount needed free chosen pool).2.1 =
          chosen ++ taken ∧
        ∀ b ∈ taken, b ∈ free ∧
          (takeFree requestId tokenStart tokenCount needed free chosen pool).2.2.BusyAt b := by
  induction free generalizing chosen pool with
  | nil => exact ⟨.refl pool, [], (append_nil _).symm, nofun⟩
  | cons blockId free ih =>
    rw [takeFree]
    by_cases hdone : chosen.length = needed
    · rw [if_pos hdone]
      exact ⟨.refl pool, [], (append_nil _).symm, nofun⟩
    rw [if_neg hdone]
    rcases hget : pool.blocks[blockId]? with - | record
    · exact ⟨.refl pool, [], (append_nil _).symm, nofun⟩
    rcases hwrite : record.write requestId blockId
        (tokenStart + (chosen.length * pool.blockSize : Int))
        (min pool.blockSize (max (tokenCount - (chosen.length * pool.blockSize : Int)) 0)) with
      error | new
    · simp only [hwrite]
      exact ⟨.refl pool, [], (append_nil _).symm, nofun⟩
    simp only [hwrite]
    have hbusy := BlockRecord.busy_of_written (BlockRecord.write_state hwrite)
    obtain ⟨htouches, taken, heq, htaken⟩ := ih (chosen ++ [blockId]) (pool.put blockId new)
    refine ⟨(touches_put hget hbusy).trans htouches, blockId :: taken, ?_, ?_⟩
    · rw [heq, append_assoc, singleton_append]
    · rw [forall_mem_cons]
      refine ⟨⟨.head _, htouches.busyAt (busyAt_put hget hbusy)⟩, fun b hb => ?_⟩
      exact ⟨.tail _ (htaken b hb).1, (htaken b hb).2⟩

theorem touches_activate (ids : List Nat) (pool : BlockPool) :
    pool.Touches (activate ids pool).2 := by
  induction ids generalizing pool with
  | nil => exact .refl pool
  | cons blockId rest ih =>
    rw [activate]
    rcases hget : pool.blocks[blockId]? with - | record
    · exact .refl pool
    rcases hactive : record.transition .active with error | new
    · simp only [hactive]
      exact .refl pool
    simp only [hactive]
    exact (touches_put hget
      (BlockRecord.busy_of_active (BlockRecord.transition_state hactive))).trans (ih _)

/-- **`allocate` keeps busy blocks busy**; what it returns is busy, and beyond the reused blocks
was free. -/
theorem touches_allocate (pool : BlockPool) (requestId : String) (tokenStart tokenCount : Int)
    (reuse : List Nat) :
    pool.Touches (pool.allocate requestId tokenStart tokenCount reuse).2 ∧
      ∀ chosen, (pool.allocate requestId tokenStart tokenCount reuse).1 = .ok chosen →
        (∀ b ∈ chosen, (pool.allocate requestId tokenStart tokenCount reuse).2.BusyAt b) ∧
          ∀ b ∈ chosen.drop reuse.length, b ∈ pool.freeBlocks := by
  rw [allocate]
  by_cases hid : requestId = ""
  · rw [if_pos hid]
    exact ⟨.refl pool, by rintro _ ⟨⟩⟩
  rw [if_neg hid]
  rcases blocksFor tokenCount pool.blockSize with error | needed
  · exact ⟨.refl pool, by rintro _ ⟨⟩⟩
  by_cases hlong : needed < reuse.length
  · simp only [if_pos hlong]
    exact ⟨.refl pool, by rintro _ ⟨⟩⟩
  simp only [if_neg hlong]
  obtain ⟨hreuse, hreused⟩ := touches_reuseBlocks requestId reuse pool
  rcases hr : reuseBlocks requestId reuse pool with ⟨- | error, pool₁⟩
  · rw [hr] at hreuse hreused
    obtain ⟨htake, taken, heq, htaken⟩ :=
      touches_takeFree requestId tokenStart tokenCount needed pool₁.freeBlocks reuse pool₁
    rcases ht : takeFree requestId tokenStart tokenCount needed pool₁.freeBlocks reuse pool₁ with
      ⟨- | error, chosen, pool₂⟩
    · rw [ht] at htake heq htaken
      obtain rfl : chosen = reuse ++ taken := heq
      by_cases hshort : (reuse ++ taken).length < needed
      · simp only [if_pos hshort, ht]
        exact ⟨hreuse.trans htake, by rintro _ ⟨⟩⟩
      simp only [if_neg hshort, ht]
      have hactivate := touches_activate ((reuse ++ taken).drop reuse.length) pool₂
      rcases ha : activate ((reuse ++ taken).drop reuse.length) pool₂ with ⟨- | error, pool₃⟩
      · rw [ha] at hactivate
        refine ⟨(hreuse.trans htake).trans hactivate, fun chosen hchosen => ?_⟩
        cases hchosen
        rw [forall_mem_append, drop_left]
        refine ⟨⟨fun b hb => ?_, fun b hb => ?_⟩, fun b hb => ?_⟩
        · exact hactivate.busyAt (htake.busyAt (hreused rfl b hb))
        · exact hactivate.busyAt (htaken b hb).2
        · exact hreuse.freeBlocks (htaken b hb).1
      · rw [ha] at hactivate
        exact ⟨(hreuse.trans htake).trans hactivate, by rintro _ ⟨⟩⟩
    · rw [ht] at htake
      simp only [ht]
      exact ⟨hreuse.trans htake, by rintro _ ⟨⟩⟩
  · rw [hr] at hreuse
    exact ⟨hreuse, by rintro _ ⟨⟩⟩

theorem touches_share (hquiet : pool.Quiet) (blockId : Nat) (requestId : String) :
    pool.Touches (pool.share blockId requestId).2 ∧
      ((pool.share blockId requestId).1 = none →
        (pool.share blockId requestId).2.BusyAt blockId) := by
  rw [share, requireLive]
  rcases hget : pool.blocks[blockId]? with - | record
  · exact ⟨.refl pool, nofun⟩
  by_cases hfree : record.state = .free
  · simp only [if_pos hfree]
    exact ⟨.refl pool, nofun⟩
  simp only [if_neg hfree]
  by_cases hs : record.state = .evictable
  · simp only [hs]
    have hbusy : BlockRecord.Busy { record with
        state := .active
        refcount := record.refcount + 1
        readers := record.attach requestId } := BlockRecord.busy_of_active rfl
    exact ⟨touches_put hget hbusy, fun _ => busyAt_put hget hbusy⟩
  · rw [if_neg hs]
    have hbusy : BlockRecord.Busy { record with
        refcount := record.refcount + 1
        readers := record.attach requestId } := ⟨hs, hquiet blockId record hget, hfree⟩
    exact ⟨touches_put hget hbusy, fun _ => busyAt_put hget hbusy⟩

theorem touches_markCached (pool : BlockPool) (blockId : Nat) (requestId : String) :
    pool.Touches (pool.markCached blockId requestId).2 := by
  rw [markCached]
  rcases hget : pool.blocks[blockId]? with - | record
  · exact .refl pool
  by_cases hreader : requestId ∉ record.readers
  · simp only [if_pos hreader]
    exact .refl pool
  simp only [if_neg hreader]
  rcases hcached : record.transition .sharedCached with error | new
  · exact .refl pool
  · refine touches_put hget ?_
    simp [BlockRecord.Busy, BlockRecord.transition_state hcached]

/-- **`evict` takes a block that is not busy, or raises.** -/
theorem evict_cases (pool : BlockPool) (blockId : Nat) :
    (∃ error, pool.evict blockId = (some error, pool)) ∨
      ∃ record new, pool.blocks[blockId]? = some record ∧ ¬ record.Busy ∧ new.state = .free ∧
        pool.evict blockId = (none, pool.put blockId new) := by
  rw [evict]
  rcases hget : pool.blocks[blockId]? with - | record
  · exact .inl ⟨_, rfl⟩
  by_cases hheld : record.state = .active ∨ 0 < record.refcount
  · simp only [if_pos hheld]
    exact .inl ⟨_, rfl⟩
  simp only [if_neg hheld]
  by_cases hs : record.state = .evictable
  · refine .inr ⟨record, { record with state := .free, contentHash := "", ownerRequest := "" },
      rfl, fun hbusy => hbusy.1 hs, rfl, ?_⟩
    simp only [hs, ne_eq, not_true_eq_false, if_false, BlockRecord.transition,
      allowedBlockTransitions, mem_cons, true_or, if_true]
  · simp only [ne_eq, hs]
    exact .inl ⟨_, rfl⟩

end BlockPool

/-! ### Holders -/

namespace BlockPool

/-- The blocks for which the loop of `release` emits its event. -/
def releasedBlocks (requestId : String) : List Nat → BlockPool → List Nat
  | [], _ => []
  | blockId :: rest, pool =>
    match pool.blocks[blockId]? with
    | none => []
    | some record =>
      match record.release requestId with
      | (some _, _) => [blockId]
      | (none, record) => blockId :: releasedBlocks requestId rest (pool.put blockId record)

end BlockPool

/-- A pool with the requests that obtained a block and have not released it since. -/
structure HeldPool where
  pool : BlockPool
  held : List (String × Nat)

namespace HeldPool

def new (totalBlocks blockSize : Nat) : HeldPool :=
  { pool := .new totalBlocks blockSize, held := [] }

def call (state : HeldPool) : PoolCall → HeldPool
  | .allocate requestId tokenStart tokenCount reuse =>
    match state.pool.allocate requestId tokenStart tokenCount reuse with
    | (.error _, pool) => { state with pool := pool }
    | (.ok chosen, pool) =>
      { pool := pool, held := state.held ++ chosen.map fun blockId => (requestId, blockId) }
  | .share blockId requestId =>
    match state.pool.share blockId requestId with
    | (some _, pool) => { state with pool := pool }
    | (none, pool) => { pool := pool, held := state.held ++ [(requestId, blockId)] }
  | .release requestId blockIds =>
    let released := BlockPool.releasedBlocks requestId
      (blockIds.getD (state.pool.blocksOf requestId)) state.pool
    { pool := (state.pool.release requestId blockIds).2
      held := state.held.filter fun hold => ¬ (hold.1 = requestId ∧ hold.2 ∈ released) }
  | .markCached blockId requestId =>
    { state with pool := (state.pool.markCached blockId requestId).2 }
  | .evict blockId => { state with pool := (state.pool.evict blockId).2 }

theorem pool_call (state : HeldPool) (call : PoolCall) :
    (state.call call).pool = state.pool.call call := by
  cases call with
  | allocate requestId tokenStart tokenCount reuse =>
    rw [HeldPool.call, BlockPool.call]
    rcases state.pool.allocate requestId tokenStart tokenCount reuse with ⟨error | chosen, pool⟩
    · rfl
    · rfl
  | share blockId requestId =>
    rw [HeldPool.call, BlockPool.call]
    rcases state.pool.share blockId requestId with ⟨- | error, pool⟩
    · rfl
    · rfl
  | release requestId blockIds => rfl
  | markCached blockId requestId => rfl
  | evict blockId => rfl

end HeldPool

def heldMachine (totalBlocks blockSize : Nat) : Machine HeldPool PoolCall where
  init := .new totalBlocks blockSize
  step := .call

theorem heldMachine_run (totalBlocks blockSize : Nat) (calls : List PoolCall) :
    ((heldMachine totalBlocks blockSize).run calls).pool =
      (poolMachine totalBlocks blockSize).run calls :=
  (List.foldl_hom HeldPool.pool fun state call => (state.pool_call call).symm).symm

/-! ### Releases that keep the holders -/

namespace BlockPool

variable {pool : BlockPool} {blockId : Nat} {record : BlockRecord} {requestId : String}

/-- Wherever another request holds the block that the loop of `release` comes to, it finds more
than one reference. -/
def ReleaseKeeps (held : List (String × Nat)) (requestId : String) : List Nat → BlockPool → Prop
  | [], _ => True
  | blockId :: rest, pool =>
    match pool.blocks[blockId]? with
    | none => True
    | some record =>
      ((∃ hold ∈ held, hold.1 ≠ requestId ∧ hold.2 = blockId) → 1 < record.refcount) ∧
        match record.release requestId with
        | (some _, _) => True
        | (none, record) => ReleaseKeeps held requestId rest (pool.put blockId record)

theorem blocks_releaseBlocks {blockIds : List Nat}
    (h : blockId ∉ releasedBlocks requestId blockIds pool) :
    (releaseBlocks requestId blockIds pool).2.blocks[blockId]? = pool.blocks[blockId]? := by
  induction blockIds generalizing pool with
  | nil => rfl
  | cons b rest ih =>
    rw [releasedBlocks] at h
    rw [releaseBlocks]
    rcases hget : pool.blocks[b]? with - | record
    · rfl
    rcases hrelease : record.release requestId with ⟨- | error, new⟩
    · simp only [hget, hrelease, mem_cons, not_or] at h
      simp only [hrelease]
      rw [ih h.2, put_of_ne h.1]
    · simp only [hget, hrelease, mem_singleton] at h
      simp only [hrelease]
      exact put_of_ne h new

theorem Quiet.releaseBlocks (h : pool.Quiet) (requestId : String) (blockIds : List Nat) :
    (BlockPool.releaseBlocks requestId blockIds pool).2.Quiet := by
  induction blockIds generalizing pool with
  | nil => exact h
  | cons b rest ih =>
    rw [BlockPool.releaseBlocks]
    rcases hget : pool.blocks[b]? with - | record
    · exact h
    have hnew : (record.release requestId).2.state ≠ .evicting := by
      obtain ⟨hmore, hlast⟩ := record.release_state requestId
      by_cases hcount : record.refcount ≤ 1
      · rcases hlast hcount with hs | hs
        · rw [hs]
          nofun
        · rw [hs]
          nofun
      · rw [hmore (by omega)]
        exact h b record hget
    rcases hrelease : record.release requestId with ⟨- | error, new⟩
    · rw [hrelease] at hnew
      simp only [hrelease]
      exact ih (h.put hnew b)
    · rw [hrelease] at hnew
      simp only [hrelease]
      exact h.put hnew b

theorem not_busyAt_releaseBlocks {blockIds : List Nat} (h : ¬ pool.BusyAt blockId) :
    ¬ (releaseBlocks requestId blockIds pool).2.BusyAt blockId := by
  induction blockIds generalizing pool with
  | nil => exact h
  | cons b rest ih =>
    rw [releaseBlocks]
    rcases hget : pool.blocks[b]? with - | record
    · exact h
    have hput : ¬ (pool.put b (record.release requestId).2).BusyAt blockId := by
      rintro ⟨new, hnew, hbusy⟩
      rcases put_cases hnew with ⟨rfl, rfl⟩ | ⟨-, hold⟩
      · exact BlockRecord.release_not_busy requestId (.inr fun hb => h ⟨record, hget, hb⟩) hbusy
      · exact h ⟨new, hold, hbusy⟩
    rcases hrelease : record.release requestId with ⟨- | error, new⟩
    · rw [hrelease] at hput
      simp only [hrelease]
      exact ih hput
    · rw [hrelease] at hput
      simp only [hrelease]
      exact hput

/-- **What `release` does to the blocks others hold.** -/
theorem busyAt_releaseBlocks {held : List (String × Nat)} {blockIds : List Nat}
    (h : ∀ hold ∈ held, hold.1 ≠ requestId → pool.BusyAt hold.2) :
    (∀ hold ∈ held, hold.1 ≠ requestId →
      (releaseBlocks requestId blockIds pool).2.BusyAt hold.2) ↔
      ReleaseKeeps held requestId blockIds pool := by
  induction blockIds generalizing pool with
  | nil => exact ⟨fun _ => trivial, fun _ => h⟩
  | cons b rest ih =>
    rw [releaseBlocks, ReleaseKeeps]
    rcases hget : pool.blocks[b]? with - | record
    · exact ⟨fun _ => trivial, fun _ => h⟩
    by_cases hkeeps : (∃ hold ∈ held, hold.1 ≠ requestId ∧ hold.2 = b) → 1 < record.refcount
    · -- the block keeps its state, so whatever was busy still is
      have hput : ∀ hold ∈ held, hold.1 ≠ requestId →
          (pool.put b (record.release requestId).2).BusyAt hold.2 := by
        intro hold hmem hother
        obtain ⟨old, hold', hbusy⟩ := h hold hmem hother
        by_cases hb : hold.2 = b
        · rw [hb] at hold' ⊢
          cases hget.symm.trans hold'
          refine busyAt_put hget ?_
          rw [BlockRecord.Busy, (record.release_state requestId).1 (hkeeps ⟨hold, hmem, hother,
            hb⟩)]
          exact hbusy
        · exact ⟨old, (put_of_ne hb _).trans hold', hbusy⟩
      refine Iff.trans ?_ (and_iff_right hkeeps).symm
      rcases hrelease : record.release requestId with ⟨- | error, new⟩
      · rw [hrelease] at hput
        simp only [hrelease]
        exact ih hput
      · rw [hrelease] at hput
        simp only [hrelease]
        exact ⟨fun _ => trivial, fun _ => hput⟩
    · refine ⟨fun hbusy => absurd hbusy ?_, fun hk => absurd hk.1 hkeeps⟩
      rw [Classical.not_imp] at hkeeps
      obtain ⟨⟨hold, hmem, hother, hb⟩, hcount⟩ := hkeeps
      have hput : ¬ (pool.put b (record.release requestId).2).BusyAt hold.2 := by
        rintro ⟨new, hnew, hbusy⟩
        rw [hb, put_self hget] at hnew
        cases hnew
        exact BlockRecord.release_not_busy requestId (.inl (not_lt.mp hcount)) hbusy
      intro hall
      have hlater := hall hold hmem hother
      rcases hrelease : record.release requestId with ⟨- | error, new⟩
      · rw [hrelease] at hput
        simp only [hrelease] at hlater
        exact not_busyAt_releaseBlocks hput hlater
      · rw [hrelease] at hput
        simp only [hrelease] at hlater
        exact hput hlater

end BlockPool

/-! ### Runs -/

namespace HeldPool

variable {state : HeldPool}

/-- **No block is taken away under a live reader**: it is neither free nor up for eviction, `evict`
raises at it, and no other request is handed it as a new block. -/
def Protected (state : HeldPool) : Prop :=
  ∀ requestId blockId, (requestId, blockId) ∈ state.held →
    (∃ record, state.pool.blocks[blockId]? = some record ∧ record.Busy) ∧
    (∃ error, (state.pool.evict blockId).1 = some error) ∧
    ∀ other tokenStart tokenCount reuse chosen, other ≠ requestId →
      (state.pool.allocate other tokenStart tokenCount reuse).1 = .ok chosen →
        blockId ∉ chosen.drop reuse.length

def Keeps (state : HeldPool) : PoolCall → Prop
  | .release requestId blockIds => BlockPool.ReleaseKeeps state.held requestId
      (blockIds.getD (state.pool.blocksOf requestId)) state.pool
  | _ => True

structure Sound (state : HeldPool) : Prop where
  quiet : state.pool.Quiet
  busy : ∀ hold ∈ state.held, state.pool.BusyAt hold.2

theorem sound_new (totalBlocks blockSize : Nat) : (new totalBlocks blockSize).Sound where
  quiet b record hget := by
    rw [show record = {} from eq_of_mem_replicate (mem_of_getElem? hget)]
    nofun
  busy _ hmem := nomatch hmem

theorem Sound.protected (h : state.Sound) : state.Protected := by
  intro requestId blockId hmem
  obtain ⟨record, hget, hbusy⟩ := h.busy _ hmem
  refine ⟨⟨record, hget, hbusy⟩, ?_, ?_⟩
  · rcases state.pool.evict_cases blockId with ⟨error, heq⟩ | ⟨old, new, hold, hidle, -, -⟩
    · exact ⟨error, by rw [heq]⟩
    · cases hget.symm.trans hold
      exact absurd hbusy hidle
  · intro other tokenStart tokenCount reuse chosen _ hok hchosen
    obtain ⟨-, hfresh⟩ := state.pool.touches_allocate other tokenStart tokenCount reuse
    obtain ⟨old, hold, hfree⟩ := BlockPool.mem_freeBlocks.mp ((hfresh chosen hok).2 blockId hchosen)
    cases hget.symm.trans hold
    exact hbusy.2.2 hfree

theorem Sound.touches (h : state.Sound) {pool : BlockPool} (htouches : state.pool.Touches pool)
    (gained : List (String × Nat)) (hgained : ∀ hold ∈ gained, pool.BusyAt hold.2) :
    Sound { pool := pool, held := state.held ++ gained } where
  quiet := htouches.quiet h.quiet
  busy hold hmem := by
    rcases mem_append.mp hmem with hold' | hnew
    · exact htouches.busyAt (h.busy hold hold')
    · exact hgained hold hnew

/-- A call keeps the holders' blocks busy exactly if it keeps the holders. -/
theorem Sound.call (h : state.Sound) (call : PoolCall) :
    (state.Keeps call → (state.call call).Sound) ∧
      (¬ state.Keeps call → ¬ (state.call call).Protected) := by
  cases call with
  | allocate requestId tokenStart tokenCount reuse =>
    refine ⟨fun _ => ?_, fun hkeeps => absurd trivial hkeeps⟩
    obtain ⟨htouches, hok⟩ := state.pool.touches_allocate requestId tokenStart tokenCount reuse
    rw [HeldPool.call]
    rcases heq : state.pool.allocate requestId tokenStart tokenCount reuse with
      ⟨error | chosen, pool⟩
    · rw [heq] at htouches
      have := h.touches htouches [] nofun
      rwa [append_nil] at this
    · rw [heq] at htouches hok
      refine h.touches htouches _ ?_
      rw [forall_mem_map]
      exact (hok chosen rfl).1
  | share blockId requestId =>
    refine ⟨fun _ => ?_, fun hkeeps => absurd trivial hkeeps⟩
    obtain ⟨htouches, hok⟩ := BlockPool.touches_share h.quiet blockId requestId
    rw [HeldPool.call]
    rcases heq : state.pool.share blockId requestId with ⟨- | error, pool⟩
    · rw [heq] at htouches hok
      refine h.touches htouches _ ?_
      rw [forall_mem_singleton]
      exact hok rfl
    · rw [heq] at htouches
      have := h.touches htouches [] nofun
      rwa [append_nil] at this
  | release requestId blockIds =>
    have hiff : (∀ hold ∈ state.held, hold.1 ≠ requestId →
        (state.pool.release requestId blockIds).2.BusyAt hold.2) ↔
          state.Keeps (.release requestId blockIds) :=
      BlockPool.busyAt_releaseBlocks fun hold hmem _ => h.busy hold hmem
    constructor
    · intro hkeeps
      refine ⟨h.quiet.releaseBlocks requestId _, fun hold hmem => ?_⟩
      obtain ⟨hmem, hkept⟩ := mem_filter.mp hmem
      rw [decide_eq_true_eq, not_and] at hkept
      by_cases hown : hold.1 = requestId
      · -- the caller's own block, to which the loop never came
        obtain ⟨record, hget, hbusy⟩ := h.busy hold hmem
        exact ⟨record, (BlockPool.blocks_releaseBlocks (hkept hown)).trans hget, hbusy⟩
      · exact hiff.mpr hkeeps hold hmem hown
    · intro hkeeps hprotected
      refine hkeeps (hiff.mp fun hold hmem hother => ?_)
      have hmem' : hold ∈ (state.call (.release requestId blockIds)).held := by
        refine mem_filter.mpr ⟨hmem, ?_⟩
        rw [decide_eq_true_eq]
        exact fun hown => hother hown.1
      exact (hprotected hold.1 hold.2 hmem').1
  | markCached blockId requestId =>
    refine ⟨fun _ => ?_, fun hkeeps => absurd trivial hkeeps⟩
    have := h.touches (state.pool.touches_markCached blockId requestId) [] nofun
    rwa [append_nil] at this
  | evict blockId =>
    refine ⟨fun _ => ?_, fun hkeeps => absurd trivial hkeeps⟩
    rw [HeldPool.call]
    rcases state.pool.evict_cases blockId with ⟨error, heq⟩ | ⟨old, new, hold, hidle, hfree, heq⟩
    · rw [heq]
      exact ⟨h.quiet, h.busy⟩
    · rw [heq]
      refine ⟨h.quiet.put (by rw [hfree]; nofun) blockId, fun hold' hmem => ?_⟩
      obtain ⟨record, hget, hbusy⟩ := h.busy hold' hmem
      have hne : hold'.2 ≠ blockId := by
        intro hb
        rw [hb] at hget
        cases hget.symm.trans hold
        exact hidle hbusy
      exact ⟨record, (BlockPool.put_of_ne hne new).trans hget, hbusy⟩

end HeldPool

/-- **Readers are protected exactly along the runs whose releases keep the holders.** -/
theorem holders_protected_iff (totalBlocks blockSize : Nat) (calls : List PoolCall) :
    (∀ made, made <+: calls → ((heldMachine totalBlocks blockSize).run made).Protected) ↔
    (heldMachine totalBlocks blockSize).Guarded HeldPool.Keeps (.new totalBlocks blockSize)
      calls := by
  rw [← Machine.always_iff_guarded (P := HeldPool.Sound) (Q := HeldPool.Protected)
    (fun _ h => h.protected) (fun _ call h hkeeps => (h.call call).1 hkeeps)
    (fun _ call h hkeeps => (h.call call).2 hkeeps)
    (HeldPool.sound_new totalBlocks blockSize), Machine.always_iff_runFrom]
  rfl

/-- A request that releases twice takes the block from the one it shares it with. -/
theorem double_release_evicts_shared_block :
    ¬ ∀ (totalBlocks blockSize : Nat) (calls : List PoolCall),
      ((heldMachine totalBlocks blockSize).run calls).Protected := by
  intro h
  have hprotected := h 1 1 [.allocate "p" 0 1 [], .share 0 "q", .release "p" (some [0]),
    .release "p" (some [0])]
  obtain ⟨⟨record, hget, hbusy⟩, -, -⟩ := hprotected "q" 0 (by decide)
  cases hget
  exact hbusy.1 (by decide)

end Hqsb
