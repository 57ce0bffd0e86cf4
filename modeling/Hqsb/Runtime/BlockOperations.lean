/-
Hqsb/Runtime/BlockOperations.lean

What the operations of the block pool can do, one lemma for each.

`allocate_spec` follows the three loops of `allocate`: reuse may stop midway,
then the free blocks are written in order, and they are activated only when
there are enough of them.  It says of the blocks taken whatever a write and an
activation make true; in `hands_clean` the free blocks have no readers.

The capacity is looked at after the blocks were taken, and the blocks to reuse
are activated one by one, so a call that raises keeps what it has done so far.
It has done nothing exactly when it fails early (`FailsEarly`): a block that was
reused has one reader more (`reuseBlocks_first`), and a block that was taken is
no longer free.
-/
import Hqsb.Runtime.BlockPool

namespace Hqsb

open Lib List

namespace BlockPool

variable {pool pool' : BlockPool} {blockId other : Nat} {record : BlockRecord} {requestId : String}

/-! ### Selecting and putting -/

theorem mem_select {p : BlockRecord → Bool} :
    blockId ∈ pool.select p ↔ ∃ record, pool.blocks[blockId]? = some record ∧ p record := by
  simp only [select, mem_map, mem_filter, Prod.exists, mem_zipIdx_iff_getElem?]
  constructor
  · rintro ⟨record, id, ⟨hget, hp⟩, rfl⟩
    exact ⟨record, hget, hp⟩
  · rintro ⟨record, hget, hp⟩
    exact ⟨record, blockId, ⟨hget, hp⟩, rfl⟩

theorem nodup_select (p : BlockRecord → Bool) : (pool.select p).Nodup := by
  apply List.Nodup.sublist (filter_sublist.map Prod.snd)
  rw [zipIdx_map_snd]
  exact nodup_range'

theorem nodup_freeBlocks (pool : BlockPool) : pool.freeBlocks.Nodup := nodup_select _

theorem mem_freeBlocks :
    blockId ∈ pool.freeBlocks ↔ ∃ record, pool.blocks[blockId]? = some record ∧ record.state = .free := by
  simp only [freeBlocks, mem_select, decide_eq_true_eq]

theorem put_self (h : pool.blocks[blockId]? = some record) (new : BlockRecord) :
    (pool.put blockId new).blocks[blockId]? = some new := by
  show (pool.blocks.set blockId new)[blockId]? = some new
  rw [List.getElem?_set_self (List.getElem?_eq_some_iff.mp h).1]

theorem put_of_ne (h : other ≠ blockId) (new : BlockRecord) :
    (pool.put blockId new).blocks[other]? = pool.blocks[other]? := by
  show (pool.blocks.set blockId new)[other]? = _
  rw [List.getElem?_set_ne (Ne.symm h)]

theorem put_cases {new : BlockRecord} (h : (pool.put blockId new).blocks[other]? = some record) :
    other = blockId ∧ record = new ∨ other ≠ blockId ∧ pool.blocks[other]? = some record := by
  by_cases hid : other = blockId
  · subst hid
    rcases hget : pool.blocks[other]? with - | old
    · rw [show (pool.put other new).blocks[other]? = _ from
        List.getElem?_set_self' ..] at h
      simp [hget] at h
    · rw [put_self hget] at h
      exact .inl ⟨rfl, (Option.some.inj h).symm⟩
  · rw [put_of_ne hid] at h
    exact .inr ⟨hid, h⟩

/-! ### `allocate` -/

/-- A block that was just handed out. -/
structure Fresh (requestId : String) (state : BlockState) (record : BlockRecord) : Prop where
  state : record.state = state
  refcount : record.refcount = 1
  readers : record.readers = [requestId]
  contentHash : record.contentHash ≠ ""

theorem write_ok (hstate : record.state = .free) (hreaders : record.readers = [])
    (requestId : String) (blockId : Nat) (start count : Int) :
    ∃ new, record.write requestId blockId start count = .ok new ∧ Fresh requestId .written new := by
  refine ⟨{ record with
      state := .written
      ownerRequest := requestId
      refcount := 1
      tokenStart := start
      tokenCount := count
      contentHash := "blk" ++ toString blockId ++ "-" ++ toString start
      readers := [requestId] }, ?_, rfl, rfl, rfl, ?_⟩
  · simp [BlockRecord.write, BlockRecord.transition, hstate, allowedBlockTransitions,
      BlockRecord.attach, hreaders]
  · simp

def FreeClean (pool : BlockPool) : Prop :=
  ∀ (blockId : Nat) (record : BlockRecord), pool.blocks[blockId]? = some record →
    record.state = .free → record.readers = []

/-- The blocks `taken` satisfy `P` now, nothing else changed. -/
structure Alters (pool pool' : BlockPool) (taken : List Nat) (P : BlockRecord → Prop) : Prop where
  blockSize : pool'.blockSize = pool.blockSize
  altered : ∀ b ∈ taken, ∃ record, pool'.blocks[b]? = some record ∧ P record
  kept : ∀ b ∉ taken, pool'.blocks[b]? = pool.blocks[b]?

theorem Alters.nil (pool : BlockPool) (P : BlockRecord → Prop) : Alters pool pool [] P :=
  ⟨rfl, nofun, fun _ _ => rfl⟩

/-- What a write and an activation do to the blocks of `Q`: they satisfy `P`, then `P'`. -/
structure Hands (requestId : String) (Q P P' : BlockRecord → Prop) : Prop where
  write : ∀ record, Q record → ∀ blockId start count,
    ∃ new, record.write requestId blockId start count = .ok new ∧ P new
  activate : ∀ record, P record → record.state = .written ∧ P' { record with state := .active }

variable {Q P P' : BlockRecord → Prop}

/-- The loop over the free blocks writes as many as are still needed. -/
theorem takeFree_ok (hhands : Hands requestId Q P P') (tokenStart tokenCount : Int) {needed : Nat}
    {free chosen : List Nat}
    (hfree : ∀ b ∈ free, ∃ record, pool.blocks[b]? = some record ∧ Q record)
    (hn : free.Nodup) (hle : chosen.length ≤ needed) :
    ∃ pool', takeFree requestId tokenStart tokenCount needed free chosen pool =
        (none, chosen ++ free.take (needed - chosen.length), pool') ∧
      Alters pool pool' (free.take (needed - chosen.length)) P := by
  induction free generalizing chosen pool with
  | nil =>
    refine ⟨pool, by simp [takeFree], ?_⟩
    rw [take_nil]
    exact .nil pool P
  | cons b free ih =>
    rw [forall_mem_cons] at hfree
    rw [nodup_cons] at hn
    rw [takeFree]
    by_cases hdone : chosen.length = needed
    · rw [if_pos hdone, hdone, Nat.sub_self, take_zero, append_nil]
      exact ⟨pool, rfl, .nil pool P⟩
    obtain ⟨⟨record, hget, hQ⟩, hrest⟩ := hfree
    obtain ⟨new, hwrite, hfresh⟩ := hhands.write record hQ b
      (tokenStart + (chosen.length * pool.blockSize : Int))
      (min pool.blockSize (max (tokenCount - (chosen.length * pool.blockSize : Int)) 0))
    have hother : ∀ b' ∈ free, b' ≠ b := fun b' hb' he => hn.1 (he ▸ hb')
    have hlater : ∀ b' ∈ free, ∃ record, (pool.put b new).blocks[b']? = some record ∧
        Q record := by
      intro b' hb'
      rw [put_of_ne (hother b' hb')]
      exact hrest b' hb'
    have hlen : (chosen ++ [b]).length ≤ needed := by
      rw [length_append, length_singleton]
      omega
    obtain ⟨pool', heq, halters⟩ := ih hlater hn.2 hlen
    obtain ⟨k, hk⟩ : ∃ k, needed - chosen.length = k + 1 :=
      ⟨needed - chosen.length - 1, by omega⟩
    have hk' : needed - (chosen ++ [b]).length = k := by
      rw [length_append, length_singleton]
      omega
    rw [hk'] at heq halters
    refine ⟨pool', ?_, halters.blockSize, ?_, ?_⟩
    · simp only [if_neg hdone, hget, hwrite, heq, hk, take_succ_cons, append_assoc,
        singleton_append]
    · rw [hk, take_succ_cons, forall_mem_cons]
      refine ⟨⟨new, ?_, hfresh⟩, halters.altered⟩
      rw [halters.kept b fun hb => hn.1 (mem_of_mem_take hb), put_self hget]
    · rw [hk, take_succ_cons]
      intro b' hb'
      rw [mem_cons, not_or] at hb'
      rw [halters.kept b' hb'.2, put_of_ne hb'.1]

theorem activate_ok (hhands : Hands requestId Q P P') {ids : List Nat} (hn : ids.Nodup)
    (hids : ∀ b ∈ ids, ∃ record, pool.blocks[b]? = some record ∧ P record) :
    ∃ pool', activate ids pool = (none, pool') ∧ Alters pool pool' ids P' := by
  induction ids generalizing pool with
  | nil => exact ⟨pool, rfl, .nil pool P'⟩
  | cons b ids ih =>
    rw [forall_mem_cons] at hids
    rw [nodup_cons] at hn
    obtain ⟨⟨record, hget, hP⟩, hrest⟩ := hids
    obtain ⟨hwritten, hactive⟩ := hhands.activate record hP
    have hother : ∀ b' ∈ ids, b' ≠ b := fun b' hb' he => hn.1 (he ▸ hb')
    have hlater : ∀ b' ∈ ids, ∃ r, (pool.put b { record with state := .active }).blocks[b']? =
        some r ∧ P r := by
      intro b' hb'
      rw [put_of_ne (hother b' hb')]
      exact hrest b' hb'
    obtain ⟨pool', heq, halters⟩ := ih hn.2 hlater
    refine ⟨pool', ?_, halters.blockSize, ?_, ?_⟩
    · have htransition : record.transition .active = .ok { record with state := .active } := by
        simp [BlockRecord.transition, hwritten, allowedBlockTransitions]
      simp only [activate, hget, htransition, heq]
    · rw [forall_mem_cons]
      refine ⟨⟨{ record with state := .active }, ?_, hactive⟩, halters.altered⟩
      rw [halters.kept b hn.1, put_self hget]
    · intro b' hb'
      rw [mem_cons, not_or] at hb'
      rw [halters.kept b' hb'.2, put_of_ne hb'.1]

/-- What reuse does to a block: nothing, or it becomes active and gains readers, but no count. -/
def Reused (old new : BlockRecord) : Prop :=
  new = old ∨ new.state = .active ∧ old.state ≠ .free ∧ new.refcount = old.refcount ∧
    old.readers.length < new.readers.length

theorem Reused.trans {a b c : BlockRecord} (h : Reused a b) (h' : Reused b c) : Reused a c := by
  rcases h with rfl | ⟨hb, ha, hcount, hlen⟩
  · exact h'
  · rcases h' with rfl | ⟨hc, -, hcount', hlen'⟩
    · exact .inr ⟨hb, ha, hcount, hlen⟩
    · exact .inr ⟨hc, ha, hcount'.trans hcount, hlen.trans hlen'⟩

theorem reuseBlocks_kept (requestId : String) (reuse : List Nat) (pool : BlockPool) :
    (reuseBlocks requestId reuse pool).2.blockSize = pool.blockSize ∧
      (reuseBlocks requestId reuse pool).2.blocks.length = pool.blocks.length ∧
      ∀ (b : Nat) (record : BlockRecord), pool.blocks[b]? = some record →
        ∃ new, (reuseBlocks requestId reuse pool).2.blocks[b]? = some new ∧ Reused record new := by
  induction reuse generalizing pool with
  | nil => exact ⟨rfl, rfl, fun b record hget => ⟨record, hget, .inl rfl⟩⟩
  | cons blockId rest ih =>
    have hsame : pool.blockSize = pool.blockSize ∧ pool.blocks.length = pool.blocks.length ∧
        ∀ (b : Nat) (record : BlockRecord), pool.blocks[b]? = some record →
          ∃ new, pool.blocks[b]? = some new ∧ Reused record new :=
      ⟨rfl, rfl, fun b record hget => ⟨record, hget, .inl rfl⟩⟩
    rw [reuseBlocks]
    rcases hget : pool.blocks[blockId]? with - | record
    · exact hsame
    simp only [BlockRecord.transition]
    by_cases hallowed : BlockState.active ∈ allowedBlockTransitions record.state
    · rw [if_pos hallowed]
      obtain ⟨hsize, hlen, hrest⟩ := ih (pool.put blockId { record with
        state := .active, readers := record.readers ++ [requestId] })
      refine ⟨hsize, hlen.trans (length_set ..), fun b old hold => ?_⟩
      by_cases hb : b = blockId
      · subst hb
        cases hget.symm.trans hold
        obtain ⟨new, hnew, hreused⟩ := hrest b _ (put_self hget _)
        have hfirst : Reused record { record with
            state := .active, readers := record.readers ++ [requestId] } := by
          refine .inr ⟨rfl, fun hfree => ?_, rfl, by simp⟩
          rw [hfree] at hallowed
          revert hallowed
          decide
        exact ⟨new, hnew, hfirst.trans hreused⟩
      · exact hrest b old ((put_of_ne hb _).trans hold)
    · rw [if_neg hallowed]
      exact hsame

theorem FreeClean.reuseBlocks (h : pool.FreeClean) (requestId : String) (reuse : List Nat) :
    (BlockPool.reuseBlocks requestId reuse pool).2.FreeClean := by
  obtain ⟨-, hlen, hkept⟩ := reuseBlocks_kept requestId reuse pool
  intro b new hnew hfree
  have hlt : b < pool.blocks.length := hlen ▸ (List.getElem?_eq_some_iff.mp hnew).1
  obtain ⟨new', hnew', hreused⟩ := hkept b _ (List.getElem?_eq_getElem hlt)
  cases hnew.symm.trans hnew'
  rcases hreused with heq | ⟨hactive, -⟩
  · exact h b new ((List.getElem?_eq_getElem hlt).trans (congrArg some heq.symm)) hfree
  · rw [hactive] at hfree
    cases hfree

/-- Why `allocate` may raise before it looks at a block. -/
def Refused (pool : BlockPool) (requestId : String) (tokenCount : Int) (reuse : List Nat) : Prop :=
  requestId = "" ∨ (∃ error, blocksFor tokenCount pool.blockSize = .error error) ∨
    ∃ needed, blocksFor tokenCount pool.blockSize = .ok needed ∧ needed < reuse.length

/-- **What `allocate` can do.** -/
theorem allocate_spec (hhands : Hands requestId Q P P') (tokenStart tokenCount : Int)
    (reuse : List Nat)
    (hfree : ∀ b ∈ (BlockPool.reuseBlocks requestId reuse pool).2.freeBlocks,
      ∃ record, (BlockPool.reuseBlocks requestId reuse pool).2.blocks[b]? = some record ∧
        Q record) :
    (Refused pool requestId tokenCount reuse ∧
      ∃ error, pool.allocate requestId tokenStart tokenCount reuse = (.error error, pool)) ∨
    ¬ Refused pool requestId tokenCount reuse ∧
      ∃ needed, blocksFor tokenCount pool.blockSize = .ok needed ∧ reuse.length ≤ needed ∧
        ((∃ error pool₁, BlockPool.reuseBlocks requestId reuse pool = (some error, pool₁) ∧
          pool.allocate requestId tokenStart tokenCount reuse = (.error error, pool₁)) ∨
        ∃ pool₁ pool₂, BlockPool.reuseBlocks requestId reuse pool = (none, pool₁) ∧
          ((reuse.length + (pool₁.freeBlocks.take (needed - reuse.length)).length < needed ∧
            (∃ error,
              pool.allocate requestId tokenStart tokenCount reuse = (.error error, pool₂)) ∧
            Alters pool₁ pool₂ (pool₁.freeBlocks.take (needed - reuse.length)) P) ∨
          (reuse.length + (pool₁.freeBlocks.take (needed - reuse.length)).length = needed ∧
            pool.allocate requestId tokenStart tokenCount reuse =
              (.ok (reuse ++ pool₁.freeBlocks.take (needed - reuse.length)), pool₂) ∧
            Alters pool₁ pool₂ (pool₁.freeBlocks.take (needed - reuse.length)) P'))) := by
  rw [allocate, Refused]
  by_cases hid : requestId = ""
  · exact .inl ⟨.inl hid, _, if_pos hid⟩
  rw [if_neg hid]
  rcases hneeded : blocksFor tokenCount pool.blockSize with error | needed
  · exact .inl ⟨.inr (.inl ⟨error, rfl⟩), error, rfl⟩
  by_cases hlong : needed < reuse.length
  · exact .inl ⟨.inr (.inr ⟨needed, rfl, hlong⟩), _, if_pos hlong⟩
  refine .inr ⟨?_, needed, rfl, not_lt.mp hlong, ?_⟩
  · rintro (h | ⟨_, h⟩ | ⟨n, h, hlt⟩)
    · exact hid h
    · cases h
    · cases h
      exact hlong hlt
  simp only [if_neg hlong]
  rcases hreuse : BlockPool.reuseBlocks requestId reuse pool with ⟨- | error, pool₁⟩
  · right
    rw [hreuse] at hfree
    obtain ⟨pool₂, htake, hwritten⟩ := takeFree_ok hhands tokenStart tokenCount hfree
      pool₁.nodup_freeBlocks (not_lt.mp hlong)
    have hlen : (reuse ++ pool₁.freeBlocks.take (needed - reuse.length)).length =
        reuse.length + (pool₁.freeBlocks.take (needed - reuse.length)).length := length_append
    have hle := length_take_le (needed - reuse.length) pool₁.freeBlocks
    simp only [htake, hlen]
    by_cases hshort : reuse.length + (pool₁.freeBlocks.take (needed - reuse.length)).length < needed
    · exact ⟨pool₁, pool₂, rfl, .inl ⟨hshort, ⟨_, if_pos hshort⟩, hwritten⟩⟩
    · obtain ⟨pool₃, hactivate, hactive⟩ := activate_ok hhands
        (pool₁.nodup_freeBlocks.sublist (take_sublist _ _)) hwritten.altered
      refine ⟨pool₁, pool₃, rfl, .inr ⟨by omega, ?_, ?_⟩⟩
      · rw [if_neg hshort, drop_left, hactivate]
      · refine ⟨hactive.blockSize.trans hwritten.blockSize, hactive.altered, fun b hb => ?_⟩
        rw [hactive.kept b hb, hwritten.kept b hb]
  · exact .inl ⟨error, pool₁, rfl, rfl⟩

/-- Free blocks without readers are handed out with their new owner as the only one. -/
theorem hands_clean (requestId : String) :
    Hands requestId (fun record => record.state = .free ∧ record.readers = [])
      (Fresh requestId .written) (Fresh requestId .active) where
  write := fun _ h blockId start count => write_ok h.1 h.2 requestId blockId start count
  activate := fun _ h => ⟨h.state, rfl, h.refcount, h.readers, h.contentHash⟩

/-- In a pool whose free blocks have no readers, reuse leaves such blocks to be taken. -/
theorem FreeClean.free_clean (hclean : pool.FreeClean) (requestId : String) (reuse : List Nat) :
    ∀ b ∈ (BlockPool.reuseBlocks requestId reuse pool).2.freeBlocks,
      ∃ record, (BlockPool.reuseBlocks requestId reuse pool).2.blocks[b]? = some record ∧
        record.state = .free ∧ record.readers = [] := by
  intro b hb
  obtain ⟨record, hget, hstate⟩ := mem_freeBlocks.mp hb
  exact ⟨record, hget, hstate, hclean.reuseBlocks requestId reuse b record hget hstate⟩

/-! ### Pools left alone -/

/-- Every block is as it was, so as many are free and what fitted before still fits. -/
structure LeftAlone (pool pool' : BlockPool) : Prop where
  records : ∀ blockId : Nat, pool'.blocks[blockId]? = pool.blocks[blockId]?
  free : pool'.freeBlocks.length = pool.freeBlocks.length
  later : ∀ requestId tokenStart tokenCount reuse chosen,
    (pool.allocate requestId tokenStart tokenCount reuse).1 = .ok chosen →
      (pool'.allocate requestId tokenStart tokenCount reuse).1 = .ok chosen

theorem LeftAlone.refl (pool : BlockPool) : LeftAlone pool pool :=
  ⟨fun _ => rfl, rfl, fun _ _ _ _ _ h => h⟩

theorem Alters.eq {P : BlockRecord → Prop} (h : Alters pool pool' [] P) : pool' = pool := by
  obtain ⟨blockSize, blocks⟩ := pool
  obtain ⟨blockSize', blocks'⟩ := pool'
  obtain rfl : blockSize' = blockSize := h.blockSize
  obtain rfl : blocks' = blocks := ext_getElem? fun b => h.kept b not_mem_nil
  rfl

/-! ### The first block that is touched -/

/-- The arguments are refused, the first block to reuse is unknown or cannot become active, or
there is nothing to reuse and no block is free. -/
def FailsEarly (pool : BlockPool) (requestId : String) (tokenCount : Int) : List Nat → Prop
  | [] => pool.Refused requestId tokenCount [] ∨ pool.freeBlocks = []
  | blockId :: reuse =>
    pool.Refused requestId tokenCount (blockId :: reuse) ∨
      ∀ record, pool.blocks[blockId]? = some record →
        BlockState.active ∉ allowedBlockTransitions record.state

/-- Reuse stops at its first block and changes nothing, or that block gains a reader for good. -/
theorem reuseBlocks_first (requestId : String) (blockId : Nat) (rest : List Nat)
    (pool : BlockPool) :
    ((∀ record, pool.blocks[blockId]? = some record →
        BlockState.active ∉ allowedBlockTransitions record.state) ∧
      ∃ error, reuseBlocks requestId (blockId :: rest) pool = (some error, pool)) ∨
    ∃ record new, pool.blocks[blockId]? = some record ∧
      BlockState.active ∈ allowedBlockTransitions record.state ∧
      (reuseBlocks requestId (blockId :: rest) pool).2.blocks[blockId]? = some new ∧
      new.state = .active ∧ record.readers.length < new.readers.length := by
  rw [reuseBlocks]
  rcases hget : pool.blocks[blockId]? with - | record
  · exact .inl ⟨nofun, _, rfl⟩
  simp only [BlockRecord.transition]
  by_cases hallowed : BlockState.active ∈ allowedBlockTransitions record.state
  · right
    rw [if_pos hallowed]
    have hlonger : record.readers.length < (record.readers ++ [requestId]).length := by simp
    -- the later blocks to reuse can only add readers to this one
    obtain ⟨-, -, hkept⟩ := reuseBlocks_kept requestId rest (pool.put blockId { record with
      state := .active, readers := record.readers ++ [requestId] })
    obtain ⟨new, hnew, hreused⟩ := hkept blockId _ (put_self hget _)
    refine ⟨record, new, rfl, hallowed, hnew, ?_⟩
    rcases hreused with rfl | ⟨hactive, -, -, hmore⟩
    · exact ⟨rfl, hlonger⟩
    · exact ⟨hactive, hlonger.trans hmore⟩
  · left
    rw [if_neg hallowed]
    refine ⟨fun old hold => ?_, _, rfl⟩
    cases hold
    exact hallowed

theorem hands_free (requestId : String) :
    Hands requestId (fun record => record.state = .free) (fun record => record.state = .written)
      (fun record => record.state = .active) where
  write := by
    intro record hfree blockId start count
    simp [BlockRecord.write, BlockRecord.transition, hfree, allowedBlockTransitions,
      BlockRecord.attach]
  activate := fun _ h => ⟨h, rfl⟩

/-! ### Atomicity -/

theorem not_leftAlone_of_reader {record new : BlockRecord}
    (hget : pool.blocks[blockId]? = some record) (hnew : pool'.blocks[blockId]? = some new)
    (hlonger : record.readers.length < new.readers.length) : ¬ LeftAlone pool pool' := by
  intro h
  obtain rfl := Option.some.inj (hnew.symm.trans ((h.records blockId).trans hget))
  exact hlonger.false

/-- An allocation that runs short has changed nothing only if it found nothing to change. -/
theorem leftAlone_short_iff {needed : Nat} (hshort : (pool.freeBlocks.take needed).length < needed)
    (h : Alters pool pool' (pool.freeBlocks.take needed) fun record => record.state = .written) :
    LeftAlone pool pool' ↔ pool.freeBlocks = [] := by
  constructor
  · intro hsame
    by_contra hsome
    obtain ⟨b, hb⟩ : ∃ b, b ∈ pool.freeBlocks.take needed := by
      apply exists_mem_of_ne_nil
      rw [Ne, take_eq_nil_iff, not_or]
      exact ⟨by omega, hsome⟩
    obtain ⟨new, hnew, hwritten⟩ := h.altered b hb
    obtain ⟨record, hget, hfree⟩ := mem_freeBlocks.mp (mem_of_mem_take hb)
    obtain rfl := Option.some.inj (hnew.symm.trans ((hsame.records b).trans hget))
    rw [hwritten] at hfree
    cases hfree
  · intro hnone
    rw [hnone, take_nil] at h
    rw [h.eq]
    exact .refl pool

/-- **An `allocate` that raises leaves the pool alone exactly if it fails early.** -/
theorem allocate_atomic_iff (pool : BlockPool) (requestId : String) (tokenStart tokenCount : Int)
    (reuse : List Nat) {error : PoolError}
    (h : (pool.allocate requestId tokenStart tokenCount reuse).1 = .error error) :
    LeftAlone pool (pool.allocate requestId tokenStart tokenCount reuse).2 ↔
      pool.FailsEarly requestId tokenCount reuse := by
  have hfree : ∀ b ∈ (reuseBlocks requestId reuse pool).2.freeBlocks,
      ∃ record, (reuseBlocks requestId reuse pool).2.blocks[b]? = some record ∧
        record.state = .free := fun b hb => mem_freeBlocks.mp hb
  have hspec := allocate_spec (hands_free requestId) tokenStart tokenCount reuse hfree
  cases reuse with
  | nil =>
    rw [FailsEarly]
    rcases hspec with ⟨hrefused, _, heq⟩ | ⟨hserved, needed, -, -, ⟨_, _, hreuse, -⟩ |
      ⟨pool₁, pool₂, hreuse, ⟨hshort, ⟨_, heq⟩, halters⟩ | ⟨-, heq, -⟩⟩⟩
    · rw [heq]
      exact ⟨fun _ => .inl hrefused, fun _ => .refl pool⟩
    · cases hreuse
    · obtain rfl : pool = pool₁ := (Prod.mk.inj hreuse).2
      rw [length_nil, zero_add] at hshort
      rw [heq, leftAlone_short_iff hshort halters, or_iff_right hserved]
    · rw [heq] at h
      cases h
  | cons blockId rest =>
    rw [FailsEarly]
    rcases hspec with ⟨hrefused, _, heq⟩ | ⟨hserved, needed, -, -, ⟨_, pool₁, hreuse, heq⟩ |
      ⟨pool₁, pool₂, hreuse, ⟨-, ⟨_, heq⟩, halters⟩ | ⟨-, heq, -⟩⟩⟩
    · rw [heq]
      exact ⟨fun _ => .inl hrefused, fun _ => .refl pool⟩
    all_goals
      rw [or_iff_right hserved]
      have hfirst := reuseBlocks_first requestId blockId rest pool
      rw [hreuse] at hfirst
    · rw [heq]
      rcases hfirst with ⟨hillegal, _, hsame⟩ | ⟨record, new, hget, hallowed, hnew, -, hlonger⟩
      · obtain rfl : pool₁ = pool := (Prod.mk.inj hsame).2
        exact ⟨fun _ => hillegal, fun _ => .refl _⟩
      · exact ⟨fun hsame => absurd hsame (not_leftAlone_of_reader hget hnew hlonger),
          fun hillegal => absurd hallowed (hillegal record hget)⟩
    · rw [heq]
      rcases hfirst with ⟨-, _, hsame⟩ | ⟨record, new, hget, hallowed, hnew, hactive, hlonger⟩
      · cases hsame
      · -- the reused block is not among the free ones, so it keeps its new reader
        have hout : blockId ∉ pool₁.freeBlocks.take (needed - (blockId :: rest).length) := by
          intro hmem
          obtain ⟨old, hold, hfree⟩ := mem_freeBlocks.mp (mem_of_mem_take hmem)
          cases hold.symm.trans hnew
          rw [hactive] at hfree
          cases hfree
        exact ⟨fun hsame => absurd hsame
            (not_leftAlone_of_reader hget ((halters.kept blockId hout).trans hnew) hlonger),
          fun hillegal => absurd hallowed (hillegal record hget)⟩
    · rw [heq] at h
      cases h

/-- One free block where two are needed is not early enough. -/
theorem allocate_atomic_iff_short : ¬ LeftAlone (new 1 4) ((new 1 4).allocate "r" 0 8 []).2 := by
  have hraises : ((new 1 4).allocate "r" 0 8 []).1 = .error (.exhausted 2 1) := by decide
  rw [allocate_atomic_iff (new 1 4) "r" 0 8 [] hraises]
  rintro (hrefused | hnone)
  · rcases hrefused with hid | ⟨_, herror⟩ | ⟨_, -, hlong⟩
    · exact absurd hid (by decide)
    · cases herror
    · cases hlong
  · cases hnone

/-- The one free block stays written when two were asked for, and a request for one block is
turned away afterwards. -/
theorem exhausted_allocation_takes_blocks :
    ¬ ∀ (pool : BlockPool) (requestId : String) (tokenStart tokenCount : Int) (reuse : List Nat)
      (error : PoolError), (pool.allocate requestId tokenStart tokenCount reuse).1 = .error error →
        (∀ blockId, error ≠ .keyError blockId) →
          LeftAlone pool (pool.allocate requestId tokenStart tokenCount reuse).2 := by
  intro h
  have hlater := (h (new 1 4) "r" 0 8 [] (.exhausted 2 1) (by decide) nofun).later "s" 0 4 [] [0]
    (by decide)
  revert hlater
  decide

end BlockPool

end Hqsb
