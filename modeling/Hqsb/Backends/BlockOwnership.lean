/-
Hqsb/Backends/BlockOwnership.lean

Who owns which block.

`Owned` partitions the pool: every block is free or held by exactly one row, once.
All of `commit` and `release` keep it, also a commit that raises midway, since a
commit only moves blocks from the stack of free ones to rows (`Commits`).
`Filled` says that rows hold exactly the blocks their valid columns need; a
commit that goes through keeps it, and then no pop can find the stack empty
(`commit_error`): `refusal` has counted what the loop is going to take.
-/
import Hqsb.Lib.Zip
import Hqsb.Backends.BlockKv

namespace Hqsb

open Lib List OrderedDict

namespace BlockKV

variable {α : Type*} {kv kv' : BlockKV α} {identity : String}

/-! ### Moving blocks -/

/-- The blocks `taken` went from the top of the free stack into the row of `identity`. -/
structure Commits (kv kv' : BlockKV α) (identity : String) (valid : Nat) (taken : List Nat) :
    Prop where
  rows : kv'.rows = kv.rows.set identity ⟨valid, (kv.row identity).blocks ++ taken⟩
  free : kv.free = kv'.free ++ taken.reverse
  blockSize : kv'.blockSize = kv.blockSize
  capacityBlocks : kv'.capacityBlocks = kv.capacityBlocks
  allocations : kv'.allocations = kv.allocations + taken.length
  releases : kv'.releases = kv.releases

theorem Commits.row (h : Commits kv kv' identity valid taken) (id : String) :
    kv'.row id = if id = identity then ⟨valid, (kv.row identity).blocks ++ taken⟩ else kv.row id := by
  rw [BlockKV.row, h.rows, get?_set]
  split_ifs <;> rfl

/-- What popping leaves alone. -/
structure Pops (kv kv' : BlockKV α) (taken : List Nat) : Prop where
  rows : kv'.rows = kv.rows
  slabs : kv'.slabs = kv.slabs
  free : kv.free = kv'.free ++ taken.reverse
  blockSize : kv'.blockSize = kv.blockSize
  capacityBlocks : kv'.capacityBlocks = kv.capacityBlocks
  allocations : kv'.allocations = kv.allocations + taken.length
  releases : kv'.releases = kv.releases

theorem takeBlocks_spec (n : Nat) (kv : BlockKV α) (blocks : List Nat) :
    ∃ error kv' taken, takeBlocks n kv blocks = (error, kv', blocks ++ taken) ∧
      Pops kv kv' taken ∧
      (error = none ∧ taken.length = n ∨
        error = some .popFromEmptyList ∧ kv.free.length < n) := by
  induction n generalizing kv blocks with
  | zero =>
    exact ⟨none, kv, [], by simp [takeBlocks], ⟨rfl, rfl, by simp, rfl, rfl, rfl, rfl⟩,
      .inl ⟨rfl, rfl⟩⟩
  | succ n ih =>
    rcases hfree : kv.free.getLast? with - | physical
    · refine ⟨_, kv, [], by simp [takeBlocks, hfree], ⟨rfl, rfl, by simp, rfl, rfl, rfl, rfl⟩,
        .inr ⟨rfl, ?_⟩⟩
      rw [List.getLast?_eq_none_iff.mp hfree]
      exact Nat.succ_pos n
    · obtain ⟨error, kv', taken, heq, hpops, hend⟩ := ih (kv.pop physical) (blocks ++ [physical])
      have hsplit : kv.free = (kv.pop physical).free ++ [physical] :=
        (dropLast_append_getLast? physical hfree).symm
      refine ⟨error, kv', physical :: taken, ?_, ⟨hpops.rows, hpops.slabs, ?_, hpops.blockSize,
        hpops.capacityBlocks, ?_, hpops.releases⟩, ?_⟩
      · simp only [takeBlocks, hfree, heq, append_assoc, singleton_append]
      · rw [hsplit, hpops.free, reverse_cons, append_assoc]
      · rw [hpops.allocations, length_cons]
        simp only [pop]
        omega
      · have hlen := congrArg List.length hsplit
        rw [length_append, length_singleton] at hlen
        rw [length_cons]
        exact hend.imp (And.imp_right fun h => by omega) (And.imp_right fun h => by omega)

def KvError.ofCopy (error : KvError) : Prop := error = .indexError ∨ error = .shapeMismatch

variable {error : KvError}

theorem writeBlock_error {slab tensor : Tensor α} {index source count physical within : Nat}
    (h : writeBlock slab tensor index source count physical within = .error error) :
    KvError.ofCopy error := by
  rw [writeBlock] at h
  split_ifs at h
  · exact .inl (Except.error.inj h).symm
  · split at h
    · exact .inr (Except.error.inj h).symm
    · cases h

theorem writeLayers_error {index source count physical within : Nat}
    {layers : List (CacheLayer α × Nat)} {slabs slabs' : List (Pair α)}
    (h : writeLayers index source count physical within layers slabs = (some error, slabs')) :
    KvError.ofCopy error := by
  induction layers generalizing slabs with
  | nil => simp [writeLayers] at h
  | cons l layers ih =>
    obtain ⟨layer, layerIdx⟩ := l
    rw [writeLayers] at h
    rcases hslab : slabs[layerIdx]? with - | slab
    · rw [hslab, Prod.mk.injEq, Option.some.injEq] at h
      exact .inl h.1.symm
    rw [hslab] at h
    rcases hkeys : writeBlock slab.1 layer.pair.1 index source count physical within with e | keys
    · simp only [hkeys, Prod.mk.injEq, Option.some.injEq] at h
      rw [← h.1]
      exact writeBlock_error hkeys
    simp only [hkeys] at h
    rcases hvalues : writeBlock slab.2 layer.pair.2 index source count physical within with e | values
    · rw [hvalues, Prod.mk.injEq, Option.some.injEq] at h
      rw [← h.1]
      exact writeBlock_error hvalues
    · rw [hvalues] at h
      exact ih h

variable {cache : DynamicCache α}

theorem scatter_error {blockSize : Nat} {blocks : List Nat}
    {index start added source passes offset : Nat} {slabs slabs' : List (Pair α)}
    (h : scatter cache blockSize blocks index start added source passes offset slabs =
      (some error, slabs')) : KvError.ofCopy error := by
  induction passes generalizing offset slabs with
  | zero => simp [scatter] at h
  | succ passes ih =>
    rw [scatter] at h
    split_ifs at h
    · cases h
    dsimp only at h
    split at h
    · rw [Prod.mk.injEq, Option.some.injEq] at h
      exact .inl h.1.symm
    · split at h
      · next hwrite =>
        rw [Prod.mk.injEq, Option.some.injEq] at h
        rw [← h.1]
        exact writeLayers_error hwrite
      · exact ih h

/-- The blocks the row of `identity` still lacks for its next columns. -/
def lacking (kv : BlockKV α) (identity : String) (start added : Nat) : Nat :=
  (start + added) ⌈/⌉ kv.blockSize - (kv.row identity).blocks.length

/-- **What committing one row can do**: it goes through, the row holds the blocks it lacked and
the new columns are scattered; or it raises with some of the blocks taken. -/
theorem commitRow_cases (cache : DynamicCache α) (past query : Nat) (identity : String)
    (start added index : Nat) (kv : BlockKV α) :
    (∃ kv' taken slabs, commitRow cache past query identity start added index kv = (none, kv') ∧
      Commits kv kv' identity (start + added) taken ∧
      taken.length = kv.lacking identity start added ∧ kv'.slabs = some slabs ∧
      scatter cache kv.blockSize ((kv.row identity).blocks ++ taken) index start added
        (past + query - added) added 0 (kv.slabs.getD []) = (none, slabs)) ∨
    ∃ error kv' taken, commitRow cache past query identity start added index kv = (some error, kv') ∧
      Commits kv kv' identity (kv.row identity).valid taken ∧
      (KvError.ofCopy error ∨
        error = .popFromEmptyList ∧ kv.free.length < kv.lacking identity start added) := by
  obtain ⟨error, kv', taken, heq, hpops, hend⟩ :=
    takeBlocks_spec (kv.lacking identity start added) kv (kv.row identity).blocks
  rw [commitRow]
  rw [show (start + added) ⌈/⌉ kv.blockSize - (kv.row identity).blocks.length =
    kv.lacking identity start added from rfl, heq]
  have hcommits : ∀ valid slabs, Commits kv { kv' with
      slabs := slabs
      rows := kv'.rows.set identity ⟨valid, (kv.row identity).blocks ++ taken⟩ }
      identity valid taken := fun valid slabs =>
    ⟨by rw [hpops.rows], hpops.free, hpops.blockSize, hpops.capacityBlocks, hpops.allocations,
      hpops.releases⟩
  rcases hend with ⟨rfl, hlen⟩ | ⟨rfl, hempty⟩
  · simp only
    rcases hs : scatter cache kv'.blockSize ((kv.row identity).blocks ++ taken) index start added
      (past + query - added) added 0 (kv'.slabs.getD []) with ⟨- | error, slabs⟩
    · refine .inl ⟨_, taken, slabs, rfl, hcommits _ _, hlen, rfl, ?_⟩
      rw [← hpops.blockSize, ← hpops.slabs]
      exact hs
    · exact .inr ⟨error, _, taken, rfl, hcommits _ _, .inl (scatter_error hs)⟩
  · exact .inr ⟨_, _, taken, rfl, hcommits _ kv'.slabs, .inr ⟨rfl, hempty⟩⟩

theorem release_row (kv : BlockKV α) (identity id : String) :
    (kv.release identity).row id = if id = identity then {} else kv.row id := by
  rcases hrow : kv.rows.get? identity with - | entry
  · rw [BlockKV.release, hrow]
    split_ifs with hid
    · rw [hid, row, hrow, Option.getD_none]
    · rfl
  · rw [BlockKV.release, hrow, row, get?_erase]
    split_ifs <;> rfl

/-! ### Ownership -/

def held (kv : BlockKV α) : Multiset Nat :=
  OrderedDict.sum (fun row => (row.blocks : Multiset Nat)) kv.rows

/-- Every block is free or held by one row, once; and the counters agree. -/
structure Owned (kv : BlockKV α) : Prop where
  partition : (kv.free : Multiset Nat) + kv.held = Multiset.range kv.capacityBlocks
  counted : kv.allocations = kv.releases + Multiset.card kv.held

theorem owned_new (blockSize capacityBlocks maxBytes : Nat) :
    Owned (α := α) { blockSize, capacityBlocks, maxBytes } where
  partition := by
    rw [held, sum_empty, add_zero]
    rw [Multiset.coe_reverse]
    rfl
  counted := rfl

theorem Commits.held (h : Commits kv kv' identity valid taken) :
    kv'.held = kv.held + (taken : Multiset Nat) := by
  have hsum := sum_set (fun row : BlockRow => (row.blocks : Multiset Nat)) kv.rows
    identity ⟨valid, (kv.row identity).blocks ++ taken⟩
  rw [← h.rows] at hsum
  have hold : (kv.rows.get? identity).elim 0 (fun row : BlockRow => (row.blocks : Multiset Nat)) =
      ((kv.row identity).blocks : Multiset Nat) := by
    rw [BlockKV.row]
    rcases kv.rows.get? identity with - | entry <;> rfl
  rw [hold, ← Multiset.coe_add, add_comm (((kv.row identity).blocks : List Nat) : Multiset Nat),
    ← add_assoc] at hsum
  exact add_right_cancel hsum

theorem Commits.owned (h : Commits kv kv' identity valid taken) (ho : kv.Owned) : kv'.Owned where
  partition := by
    rw [h.held, h.capacityBlocks, ← ho.partition, h.free, ← Multiset.coe_add, Multiset.coe_reverse,
      add_comm kv.held, add_assoc]
  counted := by
    rw [h.allocations, h.releases, h.held, Multiset.card_add, ho.counted, Multiset.coe_card]
    omega

theorem Owned.release (ho : kv.Owned) (identity : String) : (kv.release identity).Owned := by
  rcases hrow : kv.rows.get? identity with - | entry
  · simpa only [BlockKV.release, hrow] using ho
  have hsum : OrderedDict.sum (fun row : BlockRow => (row.blocks : Multiset Nat))
      (kv.rows.erase identity) + (entry.blocks : Multiset Nat) = kv.held :=
    sum_erase _ hrow
  constructor
  all_goals simp only [BlockKV.release, hrow, BlockKV.held]
  · rw [← ho.partition, ← hsum, ← Multiset.coe_add, add_assoc,
      add_comm (entry.blocks : Multiset Nat)]
  · rw [ho.counted, ← hsum, Multiset.card_add, Multiset.coe_card]
    omega

/-- What the slabs are and how they were filled is no business of the owners. -/
theorem Owned.congr (ho : kv.Owned) (hrows : kv'.rows = kv.rows) (hfree : kv'.free = kv.free)
    (hcap : kv'.capacityBlocks = kv.capacityBlocks) (halloc : kv'.allocations = kv.allocations)
    (hrel : kv'.releases = kv.releases) : kv'.Owned where
  partition := by
    rw [BlockKV.held, hrows, hfree, hcap]
    exact ho.partition
  counted := by
    rw [BlockKV.held, hrows, halloc, hrel]
    exact ho.counted

theorem Owned.length_free (ho : kv.Owned) :
    kv.free.length + OrderedDict.sum (fun row => row.blocks.length) kv.rows = kv.capacityBlocks := by
  have hcard := congrArg Multiset.card ho.partition
  rw [Multiset.card_add, Multiset.card_range] at hcard
  rw [← hcard, BlockKV.held, OrderedDict.sum, OrderedDict.sum]
  congr 1
  induction kv.rows.values with
  | nil => rfl
  | cons row rows ih =>
    simp only [map_cons, sum_cons, Multiset.card_add, Multiset.coe_card, ih]

theorem row_le_held (kv : BlockKV α) (id : String) :
    ((kv.row id).blocks : Multiset Nat) ≤ kv.held := by
  rcases hrow : kv.rows.get? id with - | entry
  · rw [row, hrow]
    exact Multiset.zero_le _
  · have hsum : OrderedDict.sum (fun row : BlockRow => (row.blocks : Multiset Nat))
        (kv.rows.erase id) + (entry.blocks : Multiset Nat) = kv.held := sum_erase _ hrow
    rw [row, hrow, ← hsum]
    exact Multiset.le_add_left _ _

theorem Owned.nodup_held (ho : kv.Owned) : kv.held.Nodup :=
  Multiset.nodup_of_le (Multiset.le_add_left _ _) (ho.partition ▸ Multiset.nodup_range _)

theorem Owned.nodup_row (ho : kv.Owned) (id : String) : (kv.row id).blocks.Nodup :=
  Multiset.coe_nodup.mp (Multiset.nodup_of_le (kv.row_le_held id) ho.nodup_held)

theorem Owned.lt_capacity (ho : kv.Owned) {id : String} {physical : Nat}
    (h : physical ∈ (kv.row id).blocks) : physical < kv.capacityBlocks := by
  have hheld : physical ∈ kv.held :=
    Multiset.mem_of_le (kv.row_le_held id) (Multiset.mem_coe.mpr h)
  rw [← Multiset.mem_range, ← ho.partition]
  exact Multiset.mem_add.mpr (.inr hheld)

theorem Owned.disjoint (ho : kv.Owned) {id id' : String} (hne : id ≠ id') {physical : Nat}
    (h : physical ∈ (kv.row id).blocks) : physical ∉ (kv.row id').blocks := by
  intro h'
  rcases hrow : kv.rows.get? id with - | entry
  · simp [row, hrow] at h
  -- without the row of `id` the other one is still there
  have hsum : (kv.release id).held + (entry.blocks : Multiset Nat) = kv.held := by
    rw [BlockKV.release, hrow]
    exact sum_erase _ hrow
  have hrest : physical ∈ (kv.release id).held := by
    apply Multiset.mem_of_le ((kv.release id).row_le_held id')
    rw [release_row, if_neg hne.symm]
    exact Multiset.mem_coe.mpr h'
  have hentry : physical ∈ (entry.blocks : Multiset Nat) := by
    simpa [row, hrow] using h
  have hnodup := ho.nodup_held
  rw [← hsum] at hnodup
  exact Multiset.disjoint_left.mp (Multiset.nodup_add.mp hnodup).2.2 hrest hentry

/-! ### Blocks as many as columns need -/

/-- Every row holds exactly the blocks its valid columns need. -/
def Filled (kv : BlockKV α) : Prop :=
  ∀ id, (kv.row id).blocks.length = (kv.row id).valid ⌈/⌉ kv.blockSize

theorem ceilDiv_mono (n : Nat) {a b : Nat} (h : a ≤ b) : a ⌈/⌉ n ≤ b ⌈/⌉ n := by
  exact Nat.div_le_div_right (by omega)

theorem demand_eq {rows : List (String × Nat × Nat)} (hf : kv.Filled)
    (hvalid : ∀ r ∈ rows, (kv.row r.1).valid = r.2.1) :
    kv.demand rows = some (((rows.map fun r => kv.lacking r.1 r.2.1 r.2.2).sum : Nat) : Int) := by
  induction rows with
  | nil => rfl
  | cons r rows ih =>
    obtain ⟨identity, start, added⟩ := r
    have hstart : (kv.row identity).valid = start := hvalid _ mem_cons_self
    have hle : (kv.row identity).blocks.length ≤ (start + added) ⌈/⌉ kv.blockSize := by
      rw [hf identity, hstart]
      exact ceilDiv_mono _ (Nat.le_add_right _ _)
    rw [demand, if_neg (by simp [hstart]), ih fun r hr => hvalid r (.tail _ hr)]
    rw [Option.map_some, map_cons, sum_cons]
    congr 1
    simp only [lacking]
    omega

theorem valid_of_demand {rows : List (String × Nat × Nat)} {needed : Int}
    (h : kv.demand rows = some needed) : ∀ r ∈ rows, (kv.row r.1).valid = r.2.1 := by
  induction rows generalizing needed with
  | nil => nofun
  | cons r rows ih =>
    rw [demand] at h
    split_ifs at h with hstart
    obtain ⟨rest, hrest, -⟩ := Option.map_eq_some_iff.mp h
    rw [forall_mem_cons]
    exact ⟨by simpa using hstart, ih hrest⟩

/-- **What `refusal` decides**, in a filled pool. -/
theorem refusal_eq_none_iff (hf : kv.Filled) (identities : List String)
    (lengths additions : List Nat) :
    kv.refusal identities lengths additions = none ↔
      (∀ r ∈ identities.zip (lengths.zip additions), (kv.row r.1).valid = r.2.1) ∧
      ((identities.zip (lengths.zip additions)).map fun r => kv.lacking r.1 r.2.1 r.2.2).sum ≤
        kv.free.length := by
  rw [refusal]
  constructor
  · intro h
    rcases hd : kv.demand (identities.zip (lengths.zip additions)) with - | needed
    · simp [hd] at h
    have hvalid := valid_of_demand hd
    rw [demand_eq hf hvalid] at h
    simp only [ite_eq_right_iff, reduceCtorEq, imp_false, not_lt] at h
    exact ⟨hvalid, Int.ofNat_le.mp h⟩
  · rintro ⟨hvalid, hsum⟩
    rw [demand_eq hf hvalid]
    exact if_neg (not_lt.mpr (Int.ofNat_le.mpr hsum))

/-- Committing a row from where it stands fills it again. -/
theorem Commits.filled {start added : Nat} {taken : List Nat}
    (h : Commits kv kv' identity (start + added) taken) (hf : kv.Filled)
    (hstart : (kv.row identity).valid = start)
    (hlen : taken.length = kv.lacking identity start added) : kv'.Filled := by
  intro id
  rw [h.row, h.blockSize]
  split_ifs with hid
  · have hle := ceilDiv_mono kv.blockSize (Nat.le_add_right start added)
    have hold := hf identity
    rw [hstart] at hold
    simp only [length_append, hlen, lacking]
    omega
  · exact hf id

/-! ### The loop of `commit` -/

theorem Commits.lacking (h : Commits kv kv' identity valid taken) {id : String}
    (hid : id ≠ identity) (start added : Nat) : kv'.lacking id start added = kv.lacking id start added := by
  rw [BlockKV.lacking, BlockKV.lacking, h.row, if_neg hid, h.blockSize]

variable {rows : List ((String × Nat × Nat) × Nat)}

/-- While the free blocks cover what the rows lack, no pop finds the stack empty. -/
theorem commitRows_error {past query : Nat} (hn : (rows.map fun r => r.1.1).Nodup)
    (hfit : (rows.map fun r => kv.lacking r.1.1 r.1.2.1 r.1.2.2).sum ≤ kv.free.length)
    (h : (commitRows cache past query rows kv).1 = some error) :
    KvError.ofCopy error := by
  induction rows generalizing kv with
  | nil => simp [commitRows] at h
  | cons r rows ih =>
    obtain ⟨⟨identity, start, added⟩, index⟩ := r
    rw [map_cons, nodup_cons] at hn
    rw [map_cons, sum_cons] at hfit
    rw [commitRows] at h
    rcases commitRow_cases cache past query identity start added index kv with
      ⟨kv', taken, slabs, heq, hc, hlen, -⟩ | ⟨e, kv', taken, heq, -, he⟩
    · rw [heq] at h
      refine ih hn.2 ?_ h
      have hrest : (rows.map fun r => kv'.lacking r.1.1 r.1.2.1 r.1.2.2) =
          rows.map fun r => kv.lacking r.1.1 r.1.2.1 r.1.2.2 := by
        refine map_congr_left fun r hr => hc.lacking (fun hid => hn.1 ?_) _ _
        exact mem_map.mpr ⟨r, hr, hid⟩
      have hfree := congrArg List.length hc.free
      rw [length_append, length_reverse] at hfree
      simp only at hfit
      rw [hrest]
      omega
    · rw [heq] at h
      cases h
      rcases he with he | ⟨-, hlt⟩
      · exact he
      · simp only at hfit
        omega

theorem commitRows_ok {past query : Nat} (hn : (rows.map fun r => r.1.1).Nodup)
    (h : commitRows cache past query rows kv = (none, kv')) :
    (∀ r ∈ rows, (kv'.row r.1.1).valid = r.1.2.1 + r.1.2.2) ∧
      (∀ id ∉ rows.map (fun r => r.1.1), kv'.row id = kv.row id) ∧
      kv'.blockSize = kv.blockSize ∧ kv'.capacityBlocks = kv.capacityBlocks ∧
      (kv.Owned → kv'.Owned) ∧
      (kv.Filled → (∀ r ∈ rows, (kv.row r.1.1).valid = r.1.2.1) → kv'.Filled) := by
  induction rows generalizing kv with
  | nil =>
    obtain rfl := (Prod.mk.inj h).2
    exact ⟨nofun, fun _ _ => rfl, rfl, rfl, id, fun hf _ => hf⟩
  | cons r rows ih =>
    obtain ⟨⟨identity, start, added⟩, index⟩ := r
    rw [map_cons, nodup_cons] at hn
    rw [commitRows] at h
    rcases commitRow_cases cache past query identity start added index kv with
      ⟨kv₁, taken, slabs, heq, hc, hlen, -⟩ | ⟨e, kv₁, taken, heq, -⟩
    · rw [heq] at h
      obtain ⟨hvalid, hother, hbs, hcap, howned, hfilled⟩ := ih hn.2 h
      have hne : ∀ r ∈ rows, r.1.1 ≠ identity := by
        intro r hr hid
        exact hn.1 (mem_map.mpr ⟨r, hr, hid⟩)
      refine ⟨?_, fun id hid => ?_, hbs.trans hc.blockSize, hcap.trans hc.capacityBlocks,
        fun ho => howned (hc.owned ho), fun hf hrows => hfilled (hc.filled hf ?_ hlen) ?_⟩
      · rw [forall_mem_cons]
        refine ⟨?_, hvalid⟩
        simp only
        rw [hother identity hn.1, hc.row, if_pos rfl]
      · rw [map_cons, mem_cons, not_or] at hid
        rw [hother id hid.2, hc.row, if_neg hid.1]
      · exact hrows _ mem_cons_self
      · intro r hr
        rw [hc.row, if_neg (hne r hr)]
        exact hrows r (.tail _ hr)
    · rw [heq] at h
      cases h

/-! ### `commit` -/

/-- Nothing changed but the slabs and their size. -/
structure SameBlocks (kv kv' : BlockKV α) : Prop where
  rows : kv'.rows = kv.rows
  free : kv'.free = kv.free
  blockSize : kv'.blockSize = kv.blockSize
  capacityBlocks : kv'.capacityBlocks = kv.capacityBlocks
  allocations : kv'.allocations = kv.allocations
  releases : kv'.releases = kv.releases

theorem SameBlocks.refl (kv : BlockKV α) : SameBlocks kv kv := ⟨rfl, rfl, rfl, rfl, rfl, rfl⟩

theorem SameBlocks.row (h : SameBlocks kv kv') (id : String) : kv'.row id = kv.row id := by
  rw [BlockKV.row, BlockKV.row, h.rows]

theorem SameBlocks.owned (h : SameBlocks kv kv') (ho : kv.Owned) : kv'.Owned :=
  ho.congr h.rows h.free h.capacityBlocks h.allocations h.releases

theorem SameBlocks.filled (h : SameBlocks kv kv') (hf : kv.Filled) : kv'.Filled := by
  intro id
  rw [h.row, h.blockSize]
  exact hf id

/-- The errors of the checks between `refusal` and the loop. -/
def KvError.ofLayout (error : KvError) : Prop :=
  error = .blockPoolRequiresFullAttentionDynamicLayers ∨ error = .blockPoolNonuniformGeometry ∨
    error = .blockPoolByteBudget ∨ error = .emptySequence

variable {memory : Nat → Component → Nat → Nat → Nat → Nat → α} {cache : DynamicCache α}
  {identities : List String} {lengths additions : List Nat}

theorem openSlabs_cases (kv : BlockKV α) (memory : Nat → Component → Nat → Nat → Nat → Nat → α)
    (layers : Nat) (sample : Tensor α) :
    ∃ error kv', kv.openSlabs memory layers sample = (error, kv') ∧ SameBlocks kv kv' ∧
      (error = none ∨ error = some .blockPoolByteBudget) := by
  rw [openSlabs]
  split
  · exact ⟨_, _, rfl, .refl kv, .inl rfl⟩
  · dsimp only
    split_ifs
    · exact ⟨_, _, rfl, ⟨rfl, rfl, rfl, rfl, rfl, rfl⟩, .inr rfl⟩
    · exact ⟨_, _, rfl, ⟨rfl, rfl, rfl, rfl, rfl, rfl⟩, .inl rfl⟩

/-- What reaches the loop of `commit` has passed every check. -/
structure Opens (kv kv' : BlockKV α) (memory : Nat → Component → Nat → Nat → Nat → Nat → α)
    (cache : DynamicCache α) (identities : List String) (lengths additions : List Nat)
    (past query : Nat) : Prop where
  refusal : kv.refusal identities lengths additions = none
  layers : ∃ first rest, cache.layers = first :: rest ∧
    kv.openSlabs memory cache.layers.length first.pair.1 = (none, kv') ∧
    ∀ layer ∈ cache.layers, layer.dynamic ∧ sameGeometry first.pair.1 layer.pair.1 ∧
      sameGeometry first.pair.1 layer.pair.2
  past : lengths.max? = some past
  query : additions.max? = some query
  same : SameBlocks kv kv'

/-- **What `commit` can do**: it raises before it has moved a block, or it runs its loop. -/
theorem commit_cases (kv : BlockKV α) (memory : Nat → Component → Nat → Nat → Nat → Nat → α)
    (cache : DynamicCache α) (identities : List String) (lengths additions : List Nat) :
    (∃ error kv', kv.commit memory cache identities lengths additions = (some error, kv') ∧
      SameBlocks kv kv' ∧
      (kv.refusal identities lengths additions = some error ∨
        kv.refusal identities lengths additions = none ∧ KvError.ofLayout error)) ∨
    ∃ kv₁ past query, Opens kv kv₁ memory cache identities lengths additions past query ∧
      kv.commit memory cache identities lengths additions =
        commitRows cache past query (identities.zip (lengths.zip additions)).zipIdx kv₁ := by
  rw [commit]
  rcases hr : kv.refusal identities lengths additions with - | reason
  · rcases hlayers : cache.layers with - | ⟨first, rest⟩
    · exact .inl ⟨_, kv, rfl, .refl kv, .inr ⟨rfl, .inl rfl⟩⟩
    simp only
    split_ifs with hdynamic hgeometry
    · exact .inl ⟨_, kv, rfl, .refl kv, .inr ⟨trivial, .inl rfl⟩⟩
    · exact .inl ⟨_, kv, rfl, .refl kv, .inr ⟨trivial, .inr (.inl rfl)⟩⟩
    obtain ⟨error, kv₁, ho, hsame, herror⟩ :=
      kv.openSlabs_cases memory (first :: rest).length first.pair.1
    rw [ho]
    rcases herror with rfl | rfl
    · rcases hpast : lengths.max? with - | past
      · exact .inl ⟨_, kv₁, rfl, hsame, .inr ⟨trivial, .inr (.inr (.inr rfl))⟩⟩
      rcases hquery : additions.max? with - | query
      · exact .inl ⟨_, kv₁, rfl, hsame, .inr ⟨trivial, .inr (.inr (.inr rfl))⟩⟩
      refine .inr ⟨kv₁, past, query, ⟨hr, ⟨first, rest, hlayers, ?_, ?_⟩, hpast, hquery, hsame⟩, rfl⟩
      · rw [hlayers]
        exact ho
      · simp only [any_eq_true, not_exists, not_and, Bool.not_eq_true, Bool.not_eq_false',
          Bool.and_eq_true] at hdynamic hgeometry
        rw [hlayers]
        exact fun layer hl => ⟨hdynamic layer hl, hgeometry layer hl⟩
    · exact .inl ⟨_, kv₁, rfl, hsame, .inr ⟨trivial, .inr (.inr (.inl rfl))⟩⟩
  · exact .inl ⟨reason, kv, rfl, .refl kv, .inl rfl⟩

theorem nodup_zipIdx_ids (hn : identities.Nodup) :
    ((identities.zip (lengths.zip additions)).zipIdx.map fun r => r.1.1).Nodup := by
  rw [map_fst_zipIdx _ (fun r : String × Nat × Nat => r.1)]
  exact hn.sublist (map_fst_zip_sublist _ _)

/-- **In a filled pool a commit that is not refused never runs out of blocks.** -/
theorem commit_error (hf : kv.Filled) (hn : identities.Nodup)
    (hr : kv.refusal identities lengths additions = none)
    (h : (kv.commit memory cache identities lengths additions).1 = some error) :
    KvError.ofLayout error ∨ KvError.ofCopy error := by
  rcases kv.commit_cases memory cache identities lengths additions with
    ⟨e, kv', heq, -, he⟩ | ⟨kv₁, past, query, hopens, heq⟩
  · rw [heq] at h
    cases h
    rcases he with he | he
    · rw [hr] at he
      cases he
    · exact .inl he.2
  · rw [heq] at h
    refine .inr (commitRows_error (nodup_zipIdx_ids hn) ?_ h)
    have hfit := ((refusal_eq_none_iff hf _ _ _).mp hr).2
    have hlacking : ∀ r : String × Nat × Nat,
        kv₁.lacking r.1 r.2.1 r.2.2 = kv.lacking r.1 r.2.1 r.2.2 := by
      intro r
      rw [lacking, lacking, hopens.same.row, hopens.same.blockSize]
    rw [map_fst_zipIdx _ (fun r : String × Nat × Nat => kv₁.lacking r.1 r.2.1 r.2.2),
      map_congr_left fun r _ => hlacking r, hopens.same.free]
    exact hfit

theorem commit_ok (hn : identities.Nodup)
    (h : kv.commit memory cache identities lengths additions = (none, kv')) :
    (∀ r ∈ identities.zip (lengths.zip additions), (kv'.row r.1).valid = r.2.1 + r.2.2) ∧
      (∀ id ∉ (identities.zip (lengths.zip additions)).map Prod.fst, kv'.row id = kv.row id) ∧
      kv'.blockSize = kv.blockSize ∧ kv'.capacityBlocks = kv.capacityBlocks ∧
      (kv.Owned → kv'.Owned) ∧ (kv.Filled → kv'.Filled) := by
  rcases kv.commit_cases memory cache identities lengths additions with
    ⟨e, kv', heq, -⟩ | ⟨kv₁, past, query, hopens, heq⟩
  · rw [heq] at h
    cases h
  rw [heq] at h
  obtain ⟨hvalid, hother, hbs, hcap, howned, hfilled⟩ := commitRows_ok (nodup_zipIdx_ids hn) h
  rw [map_fst_zipIdx _ (fun r : String × Nat × Nat => r.1)] at hother
  refine ⟨fun r hr => ?_, fun id hid => (hother id hid).trans (hopens.same.row id),
    hbs.trans hopens.same.blockSize, hcap.trans hopens.same.capacityBlocks,
    fun ho => howned (hopens.same.owned ho), fun hf => hfilled (hopens.same.filled hf) ?_⟩
  · obtain ⟨i, hi⟩ := exists_mem_zipIdx hr
    exact hvalid (r, i) hi
  · intro r hr
    rw [hopens.same.row]
    exact ((refusal_eq_none_iff hf _ _ _).mp hopens.refusal).1 r.1 (fst_mem_of_mem_zipIdx hr)

/-! ### `pack` -/

theorem packBlocks_error {blockSize row valid width : Nat} {slab packed : Tensor α}
    {blocks : List (Nat × Nat)}
    (h : packBlocks blockSize slab row valid width blocks packed = .error error) :
    KvError.ofCopy error := by
  induction blocks generalizing packed with
  | nil => simp [packBlocks] at h
  | cons b blocks ih =>
    rw [packBlocks] at h
    split_ifs at h
    · exact .inl (Except.error.inj h).symm
    · split at h
      · exact .inr (Except.error.inj h).symm
      · exact ih h

/-- Rows that stand where the caller believes are not stale. -/
theorem packRows_error {slab packed : Tensor α} {width : Nat} {rows : List ((String × Nat) × Nat)}
    (hvalid : ∀ r ∈ rows, (kv.row r.1.1).valid = r.1.2)
    (h : kv.packRows slab width rows packed = .error error) :
    error = .keyError ∨ KvError.ofCopy error := by
  induction rows generalizing packed with
  | nil => simp [packRows] at h
  | cons r rows ih =>
    obtain ⟨⟨identity, valid⟩, index⟩ := r
    rw [forall_mem_cons] at hvalid
    obtain ⟨hself, hrest⟩ := hvalid
    rw [packRows] at h
    split_ifs at h
    · exact ih hrest h
    rcases hrow : kv.rows.get? identity with - | entry
    · rw [hrow] at h
      exact .inl (Except.error.inj h).symm
    have hentry : entry.valid = valid := by
      simpa only [row, hrow, Option.getD_some] using hself
    simp only [hrow, hentry, ne_eq] at h
    rcases hb : packBlocks kv.blockSize slab index valid width entry.blocks.zipIdx packed with e | packed'
    · rw [hb] at h
      obtain rfl : e = error := Except.error.inj h
      exact .inr (packBlocks_error hb)
    · rw [hb] at h
      exact ih hrest h

theorem pack_error [Zero α] (hvalid : ∀ r ∈ identities.zip lengths, (kv.row r.1).valid = r.2)
    (h : kv.pack identities lengths = .error error) :
    error ≠ .blockKvStaleLength := by
  have hrows : ∀ r ∈ (identities.zip lengths).zipIdx, (kv.row r.1.1).valid = r.1.2 :=
    fun r hr => hvalid r.1 (fst_mem_of_mem_zipIdx hr)
  rw [pack] at h
  split at h
  · cases h
    decide
  · cases h
  · split at h
    · cases h
      decide
    · obtain ⟨layer, -, component, hl⟩ := packLayers_error h
      split at hl
      · cases hl
        decide
      · rcases packRows_error hrows hl with rfl | rfl | rfl
        all_goals decide

/-! ### `release` -/

theorem Filled.release (hf : kv.Filled) (identity : String) : (kv.release identity).Filled := by
  rcases hrow : kv.rows.get? identity with - | entry
  · simpa only [BlockKV.release, hrow] using hf
  intro id
  have hid := hf id
  simp only [BlockKV.release, hrow, row, get?_erase] at hid ⊢
  split_ifs
  · simp
  · exact hid

end BlockKV

end Hqsb
