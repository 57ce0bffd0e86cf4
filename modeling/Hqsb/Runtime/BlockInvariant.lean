/-
Hqsb/Runtime/BlockInvariant.lean

When the report of the block pool is clean.

A block is `Settled` when it is free, cached or held with as many references as
readers.  A clean report is weaker than that, but from a settled pool the calls
split: a call that `Fits` leaves a settled pool, and any other leaves a problem
in the report at once.  So a run is clean throughout exactly if all its calls
fit (`invariant_report_ok_iff`).

What does not fit: an allocation that runs out of blocks leaves the ones it took
written, a reused block gains a reader without a reference, a second share with
one reader gains a reference without a reader, and a release by a request that
is not a reader takes away the reference of another.
-/
import Hqsb.Runtime.BlockOperations

namespace Hqsb

open Lib List

/-! ### Settled blocks -/

namespace BlockRecord

variable {record : BlockRecord} {requestId : String}

structure Settled (record : BlockRecord) : Prop where
  nodup : record.readers.Nodup
  counted : record.refcount = record.readers.length
  state : (record.state = .free ∨ record.state = .evictable) ∧ record.readers = [] ∨
    (record.state = .active ∨ record.state = .sharedCached) ∧ record.readers ≠ []
  hashed : record.state ≠ .free → record.contentHash ≠ ""

theorem settled_new : ({} : BlockRecord).Settled where
  nodup := nodup_nil
  counted := rfl
  state := .inl ⟨.inl rfl, rfl⟩
  hashed h := absurd rfl h

theorem Settled.problems (h : record.Settled) : record.problems = [] := by
  have hcounted := h.counted
  have hhashed := h.hashed
  rcases h.state with ⟨hs | hs, hreaders⟩ | ⟨hs | hs, hreaders⟩
  all_goals
    simp_all [BlockRecord.problems, hasLiveOwner]

theorem problems_of_mismatch (hstate : record.state ≠ .free)
    (h : record.refcount ≠ record.readers.length) : record.problems ≠ [] := by
  simp [BlockRecord.problems, hstate, h]

theorem problems_of_written (h : record.state = .written) : record.problems ≠ [] := by
  simp [BlockRecord.problems, h]

def Kept (record : BlockRecord) : Prop :=
  (record.state = .active ∨ record.state = .sharedCached ∨ record.state = .evictable) ∧
    record.contentHash ≠ ""

theorem Kept.state_ne (h : record.Kept) : record.state ≠ .free := by
  rcases h.1 with hs | hs | hs
  all_goals
    rw [hs]
    decide

theorem Settled.kept (h : record.Settled) (hlive : record.state ≠ .free) : record.Kept := by
  refine ⟨?_, h.hashed hlive⟩
  rcases h.state with ⟨hs | hs, -⟩ | ⟨hs | hs, -⟩
  · exact absurd hs hlive
  · exact .inr (.inr hs)
  · exact .inl hs
  · exact .inr (.inl hs)

/-- **What `release` does to a block in use**: one reference less, and a cached block when it was
the last. -/
theorem release_kept (h : record.Kept) (requestId : String) :
    ∃ new, record.release requestId = (none, new) ∧ new.Kept ∧
      new.readers = record.readers.erase requestId ∧ new.refcount = max (record.refcount - 1) 0 ∧
      new.state = if max (record.refcount - 1) 0 = 0 then .evictable else record.state := by
  obtain ⟨hstate, hhash⟩ := h
  by_cases hlast : max (record.refcount - 1) 0 = 0
  · refine ⟨{ record with
        state := .evictable
        readers := record.readers.erase requestId
        refcount := max (record.refcount - 1) 0
        ownerRequest := if record.ownerRequest = requestId then "" else record.ownerRequest },
      ?_, ⟨.inr (.inr rfl), hhash⟩, rfl, rfl, (if_pos hlast).symm⟩
    rcases hstate with hs | hs | hs
    all_goals
      simp only [BlockRecord.release, hlast, hs, if_true, ne_eq, hhash, not_false_eq_true,
        transition, allowedBlockTransitions, mem_cons, true_or, or_true]
  · refine ⟨{ record with
        readers := record.readers.erase requestId
        refcount := max (record.refcount - 1) 0 },
      ?_, ⟨hstate, hhash⟩, rfl, rfl, (if_neg hlast).symm⟩
    rw [BlockRecord.release, if_neg hlast]

/-- A release by a reader, or of a cached block, leaves a settled block. -/
theorem Settled.release (h : record.Settled) {new : BlockRecord}
    (hfits : record.refcount ≠ 0 → requestId ∈ record.readers) (hkept : new.Kept)
    (hreaders : new.readers = record.readers.erase requestId)
    (hcount : new.refcount = max (record.refcount - 1) 0)
    (hstate : new.state = if max (record.refcount - 1) 0 = 0 then .evictable else record.state) :
    new.Settled := by
  have hcounted := h.counted
  have hlen : (max (record.refcount - 1) 0 : Int) = (record.readers.erase requestId).length := by
    by_cases hzero : record.refcount = 0
    · have hnil : record.readers = [] := length_eq_zero_iff.mp (by omega)
      rw [hnil, hzero]
      rfl
    · have hmem := hfits hzero
      have hpos : 0 < record.readers.length := length_pos_of_mem hmem
      rw [length_erase_of_mem hmem]
      omega
  refine ⟨hreaders ▸ h.nodup.erase requestId, by rw [hcount, hreaders, hlen], ?_,
    fun _ => hkept.2⟩
  rw [hstate, hreaders]
  by_cases hlast : max (record.refcount - 1) 0 = 0
  · rw [if_pos hlast]
    refine .inl ⟨.inr rfl, length_eq_zero_iff.mp ?_⟩
    rw [hlast] at hlen
    exact_mod_cast hlen.symm
  · rw [if_neg hlast]
    rcases h.state with ⟨-, hnil⟩ | ⟨hs, -⟩
    · rw [hnil] at hcounted
      exact absurd (by rw [hcounted]; rfl) hlast
    · refine .inr ⟨hs, fun hnil => hlast ?_⟩
      rw [hlen, hnil]
      rfl

/-- A block of which `requestId` took away the reference of another. -/
structure Torn (requestId : String) (record : BlockRecord) : Prop where
  kept : record.Kept
  reader : requestId ∉ record.readers
  short : max record.refcount 0 < record.readers.length

theorem Torn.problems (h : record.Torn requestId) : record.problems ≠ [] :=
  problems_of_mismatch h.kept.state_ne (by have := h.short; omega)

end BlockRecord

/-! ### Settled pools -/

namespace BlockPool

variable {pool pool' : BlockPool} {blockId : Nat} {record : BlockRecord} {requestId : String}

def Settled (pool : BlockPool) : Prop :=
  ∀ (blockId : Nat) (record : BlockRecord), pool.blocks[blockId]? = some record → record.Settled

theorem settled_new (totalBlocks blockSize : Nat) : (new totalBlocks blockSize).Settled := by
  intro b record hget
  rw [show record = {} from eq_of_mem_replicate (mem_of_getElem? hget)]
  exact BlockRecord.settled_new

theorem Settled.freeClean (h : pool.Settled) : pool.FreeClean := by
  intro b record hget hfree
  rcases (h b record hget).state with ⟨-, hnil⟩ | ⟨hs | hs, -⟩
  · exact hnil
  · cases hs.symm.trans hfree
  · cases hs.symm.trans hfree

theorem Settled.put (h : pool.Settled) {new : BlockRecord} (hnew : new.Settled) (blockId : Nat) :
    (pool.put blockId new).Settled := by
  intro b record hget
  rcases put_cases hget with ⟨-, rfl⟩ | ⟨-, hold⟩
  · exact hnew
  · exact h b record hold

theorem report_ok_iff : pool.invariantReport.ok = true ↔
    ∀ (blockId : Nat) (record : BlockRecord), pool.blocks[blockId]? = some record →
      record.problems = [] := by
  simp only [invariantReport, List.isEmpty_iff, List.flatMap_eq_nil_iff, List.map_eq_nil_iff,
    Prod.forall, List.mem_zipIdx_iff_getElem?]
  exact ⟨fun h b record hget => h record b hget, fun h record b hget => h b record hget⟩

theorem Settled.report (h : pool.Settled) : pool.invariantReport.ok = true :=
  report_ok_iff.mpr fun b record hget => (h b record hget).problems

theorem report_of_problems (hget : pool.blocks[blockId]? = some record)
    (h : record.problems ≠ []) : ¬ pool.invariantReport.ok = true :=
  fun hok => h (report_ok_iff.mp hok blockId record hget)

/-! ### Calls that fit -/

def isLive (pool : BlockPool) (blockId : Nat) : Bool :=
  match pool.blocks[blockId]? with
  | none => false
  | some record => record.state ≠ .free

/-- Every reference that the release drops is one of the caller's, and it drops it once.  The
release ends at the first block that is unknown or free. -/
def ReleaseFits (pool : BlockPool) (requestId : String) (blockIds : List Nat) : Prop :=
  ∀ (blockId : Nat) (record : BlockRecord), pool.blocks[blockId]? = some record →
    blockId ∈ blockIds.takeWhile pool.isLive → record.refcount ≠ 0 →
      requestId ∈ record.readers ∧
        (1 < (blockIds.takeWhile pool.isLive).count blockId → record.refcount = 1)

/-- The calls that keep the report clean. -/
def Fits (pool : BlockPool) : PoolCall → Prop
  | .allocate requestId _ tokenCount [] =>
    pool.Refused requestId tokenCount [] ∨ pool.freeBlocks = [] ∨
      ∃ needed, blocksFor tokenCount pool.blockSize = .ok needed ∧ needed ≤ pool.freeBlocks.length
  | .allocate requestId _ tokenCount (blockId :: reuse) =>
    pool.Refused requestId tokenCount (blockId :: reuse) ∨
      ∀ record, pool.blocks[blockId]? = some record →
        BlockState.active ∉ allowedBlockTransitions record.state
  | .share blockId requestId => ∀ record, pool.blocks[blockId]? = some record →
      record.state = .free ∨ requestId ∉ record.readers
  | .release requestId blockIds =>
    pool.ReleaseFits requestId (blockIds.getD (pool.blocksOf requestId))
  | .markCached _ _ => True
  | .evict _ => True

/-! ### `release` -/

theorem isLive_put {new : BlockRecord} (hget : pool.blocks[blockId]? = some record)
    (hold : record.state ≠ .free) (hnew : new.state ≠ .free) :
    (pool.put blockId new).isLive = pool.isLive := by
  funext b
  by_cases hb : b = blockId
  · subst hb
    simp only [isLive, put_self hget, hget, ne_eq, hold, hnew]
  · simp only [isLive, put_of_ne hb]

/-- A release fits when it fits its first block and what is left of it fits after that. -/
theorem releaseFits_cons {new : BlockRecord} {rest : List Nat} (h : record.Settled)
    (hget : pool.blocks[blockId]? = some record) (hlive : record.state ≠ .free)
    (hkept : new.Kept) (hreaders : new.readers = record.readers.erase requestId)
    (hcount : new.refcount = max (record.refcount - 1) 0) :
    pool.ReleaseFits requestId (blockId :: rest) ↔
      (record.refcount ≠ 0 → requestId ∈ record.readers) ∧
        (pool.put blockId new).ReleaseFits requestId rest := by
  have hisLive : pool.isLive blockId = true := by simp [isLive, hget, hlive]
  have hcounted := h.counted
  simp only [ReleaseFits, isLive_put hget hlive hkept.state_ne, takeWhile_cons_of_pos hisLive]
  constructor
  · intro hfits
    refine ⟨fun hne => (hfits blockId record hget mem_cons_self hne).1, ?_⟩
    intro b old hold hmem hne
    by_cases hb : b = blockId
    · subst hb
      cases (put_self hget new).symm.trans hold
      have htwice := (hfits b record hget mem_cons_self (by omega)).2
      rw [count_cons_self] at htwice
      have hone := htwice (by have := count_pos_iff.mpr hmem; omega)
      omega
    · rw [put_of_ne hb] at hold
      obtain ⟨hreader, honce⟩ := hfits b old hold (.tail _ hmem) hne
      rw [count_cons_of_ne (Ne.symm hb)] at honce
      exact ⟨hreader, honce⟩
  · rintro ⟨hfirst, hfits⟩ b old hold hmem hne
    by_cases hb : b = blockId
    · subst hb
      cases hget.symm.trans hold
      refine ⟨hfirst hne, fun htwice => ?_⟩
      rw [count_cons_self] at htwice
      have hagain := hfits b new (put_self hget new) (count_pos_iff.mp (by omega))
      by_contra hone
      -- the caller is no reader any more, and the block still has a reference
      have hmem' := (hagain (by omega)).1
      rw [hreaders] at hmem'
      exact h.nodup.not_mem_erase hmem'
    · have hmem' := (mem_cons.mp hmem).resolve_left hb
      obtain ⟨hreader, honce⟩ := hfits b old ((put_of_ne hb new).trans hold) hmem' hne
      rw [count_cons_of_ne (Ne.symm hb)]
      exact ⟨hreader, honce⟩

theorem torn_releaseBlocks {blockIds : List Nat} (hget : pool.blocks[blockId]? = some record)
    (h : record.Torn requestId) :
    ∃ new, (releaseBlocks requestId blockIds pool).2.blocks[blockId]? = some new ∧
      new.Torn requestId := by
  induction blockIds generalizing pool record with
  | nil => exact ⟨record, hget, h⟩
  | cons b rest ih =>
    rw [releaseBlocks]
    by_cases hb : b = blockId
    · subst hb
      obtain ⟨new, hrelease, hkept, hreaders, hcount, -⟩ := BlockRecord.release_kept h.kept requestId
      rw [erase_of_not_mem h.reader] at hreaders
      simp only [hget, hrelease]
      refine ih (put_self hget new) ⟨hkept, hreaders ▸ h.reader, ?_⟩
      have hshort := h.short
      rw [hreaders]
      omega
    · rcases hold : pool.blocks[b]? with - | old
      · exact ⟨record, hget, h⟩
      have hkept : ∀ new, (pool.put b new).blocks[blockId]? = some record :=
        fun new => (put_of_ne (Ne.symm hb) new).trans hget
      rcases hrelease : old.release requestId with ⟨- | error, new⟩
      · simp only [hrelease]
        exact ih (hkept new) h
      · simp only [hrelease]
        exact ⟨record, hkept new, h⟩

/-- **What `release` does to a settled pool**: settled again when it fits, torn when not. -/
theorem Settled.releaseBlocks (h : pool.Settled) (requestId : String) (blockIds : List Nat) :
    (pool.ReleaseFits requestId blockIds →
      (BlockPool.releaseBlocks requestId blockIds pool).2.Settled) ∧
    (¬ pool.ReleaseFits requestId blockIds →
      ∃ (b : Nat) (record : BlockRecord),
        (BlockPool.releaseBlocks requestId blockIds pool).2.blocks[b]? = some record ∧
          record.Torn requestId) := by
  induction blockIds generalizing pool with
  | nil =>
    refine ⟨fun _ => h, fun hfits => absurd ?_ hfits⟩
    intro _ _ _ hmem
    cases hmem
  | cons b rest ih =>
    -- a block that is unknown or free ends the release, so nothing is left to fit
    have hends : pool.isLive b = false → pool.ReleaseFits requestId (b :: rest) := by
      intro hdead _ _ _ hmem
      rw [takeWhile_cons_of_neg (by rw [hdead]; decide)] at hmem
      cases hmem
    rw [BlockPool.releaseBlocks]
    rcases hget : pool.blocks[b]? with - | record
    · exact ⟨fun _ => h, fun hfits => absurd (hends (by simp [isLive, hget])) hfits⟩
    by_cases hfree : record.state = .free
    · refine ⟨fun _ => ?_, fun hfits => absurd (hends (by simp [isLive, hget, hfree])) hfits⟩
      have hsettled := h b record hget
      have hnil := h.freeClean b record hget hfree
      have hzero : record.refcount = 0 := by
        rw [hsettled.counted, hnil]
        rfl
      have hrelease : record.release requestId = (some (.illegalTransition .free .free),
          { record with
            ownerRequest := if record.ownerRequest = requestId then "" else record.ownerRequest }) := by
        obtain ⟨state, owner, refcount, start, count, hash, readers⟩ := record
        obtain rfl : state = .free := hfree
        obtain rfl : readers = [] := hnil
        obtain rfl : refcount = 0 := hzero
        rfl
      simp only [hrelease]
      apply h.put
      exact { hsettled with }
    · have hsettled := h b record hget
      obtain ⟨new, hrelease, hkept, hreaders, hcount, hstate⟩ :=
        BlockRecord.release_kept (hsettled.kept hfree) requestId
      rw [releaseFits_cons hsettled hget hfree hkept hreaders hcount]
      simp only [hrelease]
      by_cases hfirst : record.refcount ≠ 0 → requestId ∈ record.readers
      · have hnew := hsettled.release hfirst hkept hreaders hcount hstate
        obtain ⟨hkeep, hleave⟩ := ih (h.put hnew b)
        exact ⟨fun hfits => hkeep hfits.2, fun hfits => hleave fun hrest => hfits ⟨hfirst, hrest⟩⟩
      · refine ⟨fun hfits => absurd hfits.1 hfirst, fun _ => ⟨b, ?_⟩⟩
        rw [not_forall] at hfirst
        obtain ⟨hne, hreader⟩ := hfirst
        have hcounted := hsettled.counted
        rw [erase_of_not_mem hreader] at hreaders
        refine torn_releaseBlocks (put_self hget new) ⟨hkept, hreaders ▸ hreader, ?_⟩
        rw [hreaders]
        omega

/-! ### The other calls -/

theorem Fresh.settled (h : Fresh requestId .active record) : record.Settled where
  nodup := h.readers ▸ nodup_singleton requestId
  counted := by
    rw [h.refcount, h.readers]
    rfl
  state := .inr ⟨.inl h.state, by rw [h.readers]; nofun⟩
  hashed _ := h.contentHash

theorem Alters.settled {taken : List Nat} (h : Alters pool pool' taken (Fresh requestId .active))
    (hpool : pool.Settled) : pool'.Settled := by
  intro b record hget
  by_cases hb : b ∈ taken
  · obtain ⟨record', hget', hfresh⟩ := h.altered b hb
    cases hget.symm.trans hget'
    exact hfresh.settled
  · exact hpool b record ((h.kept b hb).symm.trans hget)

theorem Alters.report {taken : List Nat} (h : Alters pool pool' taken (Fresh requestId .written))
    (hne : taken ≠ []) : ¬ pool'.invariantReport.ok = true := by
  obtain ⟨b, hb⟩ := exists_mem_of_ne_nil taken hne
  obtain ⟨record, hget, hfresh⟩ := h.altered b hb
  exact report_of_problems hget (BlockRecord.problems_of_written hfresh.state)

/-- A pool in which a block has lost its references shows it, and goes on to when blocks that were
free are taken. -/
theorem report_of_short (hget : pool.blocks[blockId]? = some record)
    (hstate : record.state ≠ .free) (hshort : record.refcount < record.readers.length)
    {taken : List Nat} {state : BlockState} (h : Alters pool pool' taken (Fresh requestId state))
    (htaken : ∀ b ∈ taken, b ∈ pool.freeBlocks) : ¬ pool'.invariantReport.ok = true := by
  have hout : blockId ∉ taken := by
    intro hmem
    obtain ⟨old, hold, hfree⟩ := mem_freeBlocks.mp (htaken blockId hmem)
    cases hget.symm.trans hold
    exact hstate hfree
  exact report_of_problems ((h.kept blockId hout).trans hget)
    (BlockRecord.problems_of_mismatch hstate hshort.ne)

section

variable (h : pool.Settled)

include h

/-- Without reuse an allocation leaves the pool settled exactly if it gets all its blocks or none. -/
theorem Settled.allocate_new (requestId : String) (tokenStart tokenCount : Int) :
    (pool.Fits (.allocate requestId tokenStart tokenCount []) →
      (pool.allocate requestId tokenStart tokenCount []).2.Settled) ∧
    (¬ pool.Fits (.allocate requestId tokenStart tokenCount []) →
      ¬ (pool.allocate requestId tokenStart tokenCount []).2.invariantReport.ok = true) := by
  rcases allocate_spec (hands_clean requestId) tokenStart tokenCount []
      (h.freeClean.free_clean requestId []) with
    ⟨hrefused, error, heq⟩ | ⟨hserved, needed, hneeded, -, ⟨_, _, hreuse, -⟩ | ⟨pool₁, pool₂, hreuse, hcases⟩⟩
  · rw [heq]
    exact ⟨fun _ => h, fun hfits => absurd (.inl hrefused) hfits⟩
  · cases hreuse
  · obtain rfl : pool = pool₁ := (Prod.mk.inj hreuse).2
    rw [length_nil, length_take] at hcases
    rcases hcases with ⟨hshort, ⟨error, heq⟩, htakes⟩ | ⟨hfull, heq, htakes⟩
    · rw [heq]
      constructor
      · rintro (hrefused | hnone | ⟨n, hn, hle⟩)
        · exact absurd hrefused hserved
        · rw [hnone, take_nil] at htakes
          intro b record hget
          exact h b record ((htakes.kept b not_mem_nil).symm.trans hget)
        · cases hneeded.symm.trans hn
          omega
      · intro hfits
        apply htakes.report
        rw [Ne, take_eq_nil_iff, not_or]
        exact ⟨by omega, fun hnone => hfits (.inr (.inl hnone))⟩
    · rw [heq]
      refine ⟨fun _ => htakes.settled h, fun hfits => absurd ?_ hfits⟩
      exact .inr (.inr ⟨needed, hneeded, by omega⟩)

/-- With reuse it stays settled exactly if it is refused at its first block. -/
theorem Settled.allocate_reuse (requestId : String)
    (tokenStart tokenCount : Int) (blockId : Nat) (reuse : List Nat) :
    (pool.Fits (.allocate requestId tokenStart tokenCount (blockId :: reuse)) →
      (pool.allocate requestId tokenStart tokenCount (blockId :: reuse)).2.Settled) ∧
    (¬ pool.Fits (.allocate requestId tokenStart tokenCount (blockId :: reuse)) →
      ¬ (pool.allocate requestId tokenStart tokenCount (blockId :: reuse)).2.invariantReport.ok =
        true) := by
  rw [Fits]
  have hcases := allocate_spec (hands_clean requestId) tokenStart tokenCount (blockId :: reuse)
    (h.freeClean.free_clean requestId (blockId :: reuse))
  rcases hcases with ⟨hrefused, error, heq⟩ | ⟨hserved, needed, -, -, hcases⟩
  · rw [heq]
    exact ⟨fun _ => h, fun hfits => absurd (.inl hrefused) hfits⟩
  rw [or_iff_right hserved]
  by_cases hfirst : ∀ record, pool.blocks[blockId]? = some record →
      BlockState.active ∉ allowedBlockTransitions record.state
  · refine ⟨fun _ => ?_, fun hfits => absurd hfirst hfits⟩
    obtain ⟨error, hstop⟩ : ∃ error,
        BlockPool.reuseBlocks requestId (blockId :: reuse) pool = (some error, pool) := by
      rw [BlockPool.reuseBlocks]
      rcases hget : pool.blocks[blockId]? with - | record
      · exact ⟨_, rfl⟩
      · simp only [BlockRecord.transition, if_neg (hfirst record hget)]
        exact ⟨_, rfl⟩
    rcases hcases with ⟨error', pool₁, hreuse, heq⟩ | ⟨pool₁, pool₂, hreuse, -⟩
    · rw [heq, ← (Prod.mk.inj (hstop.symm.trans hreuse)).2]
      exact h
    · cases hstop.symm.trans hreuse
  refine ⟨fun hfits => absurd hfits hfirst, fun _ => ?_⟩
  simp only [not_forall, not_not] at hfirst
  obtain ⟨record, hget, hallowed⟩ := hfirst
  -- the first block gains a reader, and nothing later takes it back
  obtain ⟨new, hnew, hstate, hshort⟩ : ∃ new,
      (BlockPool.reuseBlocks requestId (blockId :: reuse) pool).2.blocks[blockId]? = some new ∧
        new.state ≠ .free ∧ new.refcount < new.readers.length := by
    have hcounted := (h blockId record hget).counted
    simp only [BlockPool.reuseBlocks, hget, BlockRecord.transition, if_pos hallowed]
    obtain ⟨-, -, hkept⟩ := reuseBlocks_kept requestId reuse (pool.put blockId { record with
      state := .active, readers := record.readers ++ [requestId] })
    obtain ⟨new, hnew, rfl | ⟨hactive, -, hcount, hlen⟩⟩ := hkept blockId _ (put_self hget _)
    · refine ⟨_, hnew, by rintro ⟨⟩, ?_⟩
      rw [hcounted, length_append, length_singleton]
      omega
    · refine ⟨new, hnew, by rw [hactive]; decide, ?_⟩
      rw [length_append, length_singleton] at hlen
      rw [hcount, hcounted]
      omega
  rcases hcases with ⟨error, pool₁, hreuse, heq⟩ | ⟨pool₁, pool₂, hreuse, hcases⟩
  · rw [heq]
    rw [hreuse] at hnew
    exact report_of_problems hnew (BlockRecord.problems_of_mismatch hstate hshort.ne)
  · rw [hreuse] at hnew
    rcases hcases with ⟨-, ⟨error, heq⟩, htakes⟩ | ⟨-, heq, htakes⟩
    · rw [heq]
      exact report_of_short hnew hstate hshort htakes fun b => mem_of_mem_take
    · rw [heq]
      exact report_of_short hnew hstate hshort htakes fun b => mem_of_mem_take

theorem Settled.share (blockId : Nat) (requestId : String) :
    (pool.Fits (.share blockId requestId) → (pool.share blockId requestId).2.Settled) ∧
    (¬ pool.Fits (.share blockId requestId) →
      ¬ (pool.share blockId requestId).2.invariantReport.ok = true) := by
  rw [Fits, BlockPool.share, requireLive]
  rcases hget : pool.blocks[blockId]? with - | record
  · exact ⟨fun _ => h, fun hfits => absurd nofun hfits⟩
  have hsettled := h blockId record hget
  by_cases hfree : record.state = .free
  · simp only [if_pos hfree]
    refine ⟨fun _ => h, fun hfits => absurd ?_ hfits⟩
    intro old hold
    cases hold
    exact .inl hfree
  simp only [if_neg hfree]
  by_cases hreader : requestId ∈ record.readers
  · -- a reader shares again: one more reference, no more readers
    refine ⟨fun hfits => absurd hreader ((hfits record rfl).resolve_left hfree), fun _ => ?_⟩
    have hcounted := hsettled.counted
    have hne : record.state ≠ .evictable := by
      intro hs
      rcases hsettled.state with ⟨-, hnil⟩ | ⟨hs' | hs', -⟩
      · rw [hnil] at hreader
        cases hreader
      · cases hs.symm.trans hs'
      · cases hs.symm.trans hs'
    rw [if_neg hne]
    refine report_of_problems (put_self hget _) (BlockRecord.problems_of_mismatch hfree ?_)
    rw [BlockRecord.attach, if_pos hreader]
    show record.refcount + 1 ≠ record.readers.length
    omega
  · refine ⟨fun _ => ?_, fun hfits => absurd ?_ hfits⟩
    · have hnew : ∀ state, state = .active ∨ state = .sharedCached →
          BlockRecord.Settled { record with
            state := state
            refcount := record.refcount + 1
            readers := record.attach requestId } := by
        intro state hs
        rw [BlockRecord.attach, if_neg hreader]
        refine ⟨?_, ?_, .inr ⟨hs, concat_ne_nil _ _⟩, fun _ => hsettled.hashed hfree⟩
        · show (record.readers ++ [requestId]).Nodup
          rw [← concat_eq_append]
          exact List.Nodup.concat hreader hsettled.nodup
        · show record.refcount + 1 = ((record.readers ++ [requestId]).length : Int)
          rw [hsettled.counted, length_append]
          rfl
      by_cases hs : record.state = .evictable
      · simp only [hs]
        exact h.put (hnew .active (.inl rfl)) blockId
      · rw [if_neg hs]
        refine h.put (hnew record.state ?_) blockId
        rcases hsettled.state with ⟨hs' | hs', -⟩ | ⟨hs', -⟩
        · exact absurd hs' hfree
        · exact absurd hs' hs
        · exact hs'
    · intro old hold
      cases hold
      exact .inr hreader

theorem Settled.markCached (blockId : Nat) (requestId : String) :
    (pool.markCached blockId requestId).2.Settled := by
  rw [BlockPool.markCached]
  rcases hget : pool.blocks[blockId]? with - | record
  · exact h
  have hsettled := h blockId record hget
  by_cases hreader : requestId ∉ record.readers
  · simp only [if_pos hreader]
    exact h
  simp only [if_neg hreader, BlockRecord.transition]
  by_cases hallowed : BlockState.sharedCached ∈ allowedBlockTransitions record.state
  · rw [if_pos hallowed]
    have hlive : record.state ≠ .free := by
      intro hs
      rw [hs] at hallowed
      revert hallowed
      decide
    have hnew : BlockRecord.Settled { record with state := .sharedCached } :=
      ⟨hsettled.nodup, hsettled.counted,
        .inr ⟨.inr rfl, ne_nil_of_mem (not_not.mp hreader)⟩, fun _ => hsettled.hashed hlive⟩
    exact h.put hnew blockId
  · rw [if_neg hallowed]
    exact h

theorem Settled.evict (blockId : Nat) : (pool.evict blockId).2.Settled := by
  rw [BlockPool.evict]
  rcases hget : pool.blocks[blockId]? with - | record
  · exact h
  have hsettled := h blockId record hget
  by_cases hheld : record.state = .active ∨ 0 < record.refcount
  · simp only [if_pos hheld]
    exact h
  simp only [if_neg hheld]
  by_cases hs : record.state = .evictable
  · simp only [hs, BlockRecord.transition]
    have hnil : record.readers = [] := by
      rcases hsettled.state with ⟨-, hnil⟩ | ⟨hs' | hs', -⟩
      · exact hnil
      · cases hs.symm.trans hs'
      · cases hs.symm.trans hs'
    have hnew : BlockRecord.Settled
        { record with state := .free, contentHash := "", ownerRequest := "" } :=
      ⟨hsettled.nodup, hsettled.counted, .inl ⟨.inl rfl, hnil⟩, fun hne => absurd rfl hne⟩
    exact h.put hnew blockId
  · simp only [ne_eq, hs]
    exact h

/-! ### Runs -/

/-- **What one call does to a settled pool**: it stays settled when the call fits, and shows a
problem when not. -/
theorem Settled.call (call : PoolCall) :
    (pool.Fits call → (pool.call call).Settled) ∧
      (¬ pool.Fits call → ¬ (pool.call call).invariantReport.ok = true) := by
  cases call with
  | allocate requestId tokenStart tokenCount reuse =>
    cases reuse with
    | nil => exact h.allocate_new requestId tokenStart tokenCount
    | cons blockId reuse => exact h.allocate_reuse requestId tokenStart tokenCount blockId reuse
  | share blockId requestId => exact h.share blockId requestId
  | release requestId blockIds =>
    obtain ⟨hkeep, hleave⟩ := h.releaseBlocks requestId (blockIds.getD (pool.blocksOf requestId))
    refine ⟨hkeep, fun hfits => ?_⟩
    obtain ⟨b, record, hget, htorn⟩ := hleave hfits
    exact report_of_problems hget htorn.problems
  | markCached blockId requestId =>
    exact ⟨fun _ => h.markCached blockId requestId, fun hfits => absurd trivial hfits⟩
  | evict blockId => exact ⟨fun _ => h.evict blockId, fun hfits => absurd trivial hfits⟩

end

end BlockPool

/-- **The report stays clean exactly along the runs whose calls all fit.** -/
theorem invariant_report_ok_iff (totalBlocks blockSize : Nat) (calls : List PoolCall) :
    (∀ made, made <+: calls →
      ((poolMachine totalBlocks blockSize).run made).invariantReport.ok = true) ↔
    (poolMachine totalBlocks blockSize).Guarded BlockPool.Fits (.new totalBlocks blockSize)
      calls := by
  rw [← Machine.always_iff_guarded (P := BlockPool.Settled)
    (Q := fun pool => pool.invariantReport.ok = true) (fun _ h => h.report)
    (fun _ call h hfits => (h.call call).1 hfits) (fun _ call h hfits => (h.call call).2 hfits)
    (BlockPool.settled_new totalBlocks blockSize), Machine.always_iff_runFrom]
  rfl

/-- One block where two are needed: it stays written. -/
theorem exhausted_allocation_stays_written :
    ¬ ∀ (totalBlocks blockSize : Nat) (calls : List PoolCall),
      ((poolMachine totalBlocks blockSize).run calls).invariantReport.ok = true :=
  fun h => absurd (h 1 1 [.allocate "p" 0 2 []]) (by decide)

end Hqsb
