/-
Hqsb/Backends/BlockKvRuns.lean

The block pool over whole runs, raising commits included.

`Owned` survives every call, also a commit that raises in the middle of its loop.
Blocks as many as the valid columns need is what such a commit breaks, in one row:
the blocks of the row it was at were taken, and its `valid` was not advanced.  The
ghost component `torn` remembers these rows until they are released (`watch`); the
pool beside it is the plain one (`watch_kv`).  All other rows hold exactly
`⌈valid / blockSize⌉` blocks, and no row ever holds fewer (`Tended`).
-/
import Hqsb.Lib.Machine
import Hqsb.Backends.BlockOwnership

namespace Hqsb

open Lib List

namespace BlockKV

variable {α : Type*} {kv kv' : BlockKV α}

/-! ### Calls -/

inductive BlockCall (α : Type*)
  | commit (memory : Nat → Component → Nat → Nat → Nat → Nat → α) (cache : DynamicCache α)
      (identities : List String) (lengths additions : List Nat)
  | release (identity : String)
  | clear

/-- The pool after a call, whether it raised or not. -/
def answer (kv : BlockKV α) : BlockCall α → BlockKV α
  | .commit memory cache identities lengths additions =>
    (kv.commit memory cache identities lengths additions).2
  | .release identity => kv.release identity
  | .clear => kv.clear

/-- A commit names no row twice. -/
def Distinct : BlockCall α → Prop
  | .commit _ _ identities _ _ => identities.Nodup
  | .release _ => True
  | .clear => True

/-! ### Torn rows -/

/-- The errors of the loop of `commit`; all others are raised before it. -/
def KvError.ofLoop (error : KvError) : Prop :=
  error = .popFromEmptyList ∨ error = .indexError ∨ error = .shapeMismatch

instance (error : KvError) : Decidable (KvError.ofLoop error) :=
  inferInstanceAs (Decidable (_ ∨ _ ∨ _))

/-- The row a commit was at when its loop raised: the first one not marked valid. -/
def tornRow (kv : BlockKV α) : BlockCall α → Option String
  | .commit memory cache identities lengths additions =>
    match kv.commit memory cache identities lengths additions with
    | (none, _) => none
    | (some error, kv') =>
      if KvError.ofLoop error then
        ((identities.zip (lengths.zip additions)).find? fun r =>
          decide ((kv'.row r.1).valid ≠ r.2.1 + r.2.2)).map Prod.fst
      else none
  | .release _ => none
  | .clear => none

/-- The pool and the rows torn since their last release. -/
structure Watched (α : Type*) where
  kv : BlockKV α
  torn : Finset String := ∅

def Watched.answer (w : Watched α) (call : BlockCall α) : Watched α where
  kv := w.kv.answer call
  torn :=
    match call with
    | .commit .. => w.torn ∪ (w.kv.tornRow call).toFinset
    | .release identity => w.torn.erase identity
    | .clear => ∅

def watch (α : Type*) (blockSize capacityBlocks maxBytes : Nat) :
    Machine (Watched α) (BlockCall α) where
  init := { kv := { blockSize, capacityBlocks, maxBytes } }
  step := Watched.answer

theorem watch_kv (blockSize capacityBlocks maxBytes : Nat) (calls : List (BlockCall α)) :
    ((watch α blockSize capacityBlocks maxBytes).run calls).kv =
      calls.foldl answer { blockSize, capacityBlocks, maxBytes } :=
  (foldl_hom Watched.kv fun _ _ => rfl).symm

/-! ### One row -/

/-- The row of `id` holds exactly the blocks its valid columns need. -/
def Exact (kv : BlockKV α) (id : String) : Prop :=
  (kv.row id).blocks.length = (kv.row id).valid ⌈/⌉ kv.blockSize

/-- No row holds fewer blocks than its valid columns need. -/
def Enough (kv : BlockKV α) : Prop :=
  ∀ id, (kv.row id).valid ⌈/⌉ kv.blockSize ≤ (kv.row id).blocks.length

variable {id identity : String} {error : KvError}

theorem exact_of_empty (h : kv.row id = {}) : kv.Exact id := by
  rw [Exact, h]
  simp

theorem Commits.enough {valid : Nat} {taken : List Nat} (h : Commits kv kv' identity valid taken)
    (he : kv.Enough)
    (hvalid : valid ⌈/⌉ kv.blockSize ≤ (kv.row identity).blocks.length + taken.length) :
    kv'.Enough := by
  intro id
  rw [h.row, h.blockSize]
  split_ifs with hid
  · rw [length_append]
    exact hvalid
  · exact he id

theorem Commits.exact_of_ne {valid : Nat} {taken : List Nat}
    (h : Commits kv kv' identity valid taken) (hne : id ≠ identity) (he : kv.Exact id) :
    kv'.Exact id := by
  rw [Exact, h.row, if_neg hne, h.blockSize]
  exact he

theorem commitRow_zero (cache : DynamicCache α) (past query index : Nat) {start : Nat}
    (he : kv.Enough) (hstart : (kv.row identity).valid = start) :
    (commitRow cache past query identity start 0 index kv).1 = none := by
  have hlacking : (start + 0) ⌈/⌉ kv.blockSize - (kv.row identity).blocks.length = 0 := by
    have h := he identity
    rw [hstart] at h
    exact Nat.sub_eq_zero_of_le h
  rw [commitRow]
  simp only [hlacking, takeBlocks, scatter]

/-! ### The loop of `commit` -/

/-- What the loop did: it went through, or it raised at the row of `torn`, the rows before it
marked valid. -/
inductive Looped (kv' : BlockKV α) :
    Option KvError → List ((String × Nat × Nat) × Nat) → Option String → Prop
  | through {rows} (valid : ∀ r ∈ rows, (kv'.row r.1.1).valid = r.1.2.1 + r.1.2.2) :
    Looped kv' none rows none
  | raised {error done identity start added index rest} (loop : KvError.ofLoop error)
    (valid : ∀ r ∈ done, (kv'.row r.1.1).valid = r.1.2.1 + r.1.2.2)
    (stale : (kv'.row identity).valid ≠ start + added) :
    Looped kv' (some error) (done ++ ((identity, start, added), index) :: rest) (some identity)

variable {rows : List ((String × Nat × Nat) × Nat)}

theorem Looped.cons {error : Option KvError} {torn : Option String}
    (h : Looped kv' error rows torn) {r : (String × Nat × Nat) × Nat}
    (hr : (kv'.row r.1.1).valid = r.1.2.1 + r.1.2.2) : Looped kv' error (r :: rows) torn := by
  rcases h with hvalid | ⟨hloop, hvalid, hstale⟩
  · exact .through (forall_mem_cons.mpr ⟨hr, hvalid⟩)
  · rw [← cons_append]
    exact .raised hloop (forall_mem_cons.mpr ⟨hr, hvalid⟩) hstale

/-- **What the loop keeps**, raising or not. -/
theorem commitRows_keeps {cache : DynamicCache α} {past query : Nat}
    (hn : (rows.map fun r => r.1.1).Nodup) (hstart : ∀ r ∈ rows, (kv.row r.1.1).valid = r.1.2.1)
    (he : kv.Enough) {error : Option KvError}
    (h : commitRows cache past query rows kv = (error, kv')) :
    ∃ torn, Looped kv' error rows torn ∧ kv'.Enough ∧
      (∀ id, torn ≠ some id → kv.Exact id → kv'.Exact id) ∧
      (∀ id ∉ rows.map (fun r => r.1.1), kv'.row id = kv.row id) ∧
      (kv.Owned → kv'.Owned) ∧ kv'.capacityBlocks = kv.capacityBlocks ∧
      kv'.blockSize = kv.blockSize := by
  induction rows generalizing kv with
  | nil =>
    cases h
    exact ⟨none, .through nofun, he, fun _ _ hx => hx, fun _ _ => rfl, id, rfl, rfl⟩
  | cons r rows ih =>
    obtain ⟨⟨identity, start, added⟩, index⟩ := r
    rw [map_cons, nodup_cons] at hn
    rw [forall_mem_cons] at hstart
    obtain ⟨hself, hrest⟩ := hstart
    have hself : (kv.row identity).valid = start := hself
    rw [commitRows] at h
    rcases commitRow_cases cache past query identity start added index kv with
      ⟨kv₁, taken, slabs, heq, hc, hlen, -⟩ | ⟨e, kv₁, taken, heq, hc, herror⟩
    · -- the row is filled, and no later one touches it
      rw [heq] at h
      have hne : ∀ r ∈ rows, r.1.1 ≠ identity := fun r hr hid =>
        hn.1 (mem_map.mpr ⟨r, hr, hid⟩)
      have hstart₁ : ∀ r ∈ rows, (kv₁.row r.1.1).valid = r.1.2.1 := by
        intro r hr
        rw [hc.row, if_neg (hne r hr)]
        exact hrest r hr
      have henough : kv₁.Enough := hc.enough he <| by
        rw [hlen, lacking]
        omega
      obtain ⟨torn, hlooped, he', hexact, hother, howned, hcap, hbs⟩ := ih hn.2 hstart₁ henough h
      refine ⟨torn, hlooped.cons ?_, he', fun id hid hx => hexact id hid ?_, fun id hid => ?_,
        fun ho => howned (hc.owned ho), hcap.trans hc.capacityBlocks, hbs.trans hc.blockSize⟩
      · simp only
        rw [hother identity hn.1, hc.row, if_pos rfl]
      · rcases eq_or_ne id identity with rfl | hne
        · have hold : (kv.row id).blocks.length = start ⌈/⌉ kv.blockSize := by
            rw [← hself]
            exact hx
          have hle := ceilDiv_mono kv.blockSize (Nat.le_add_right start added)
          rw [Exact, hc.row, if_pos rfl, hc.blockSize, length_append, hlen, lacking]
          show _ = (start + added) ⌈/⌉ kv.blockSize
          omega
        · exact hc.exact_of_ne hne hx
      · rw [map_cons, mem_cons, not_or] at hid
        rw [hother id hid.2, hc.row, if_neg hid.1]
    · -- the row is torn, and the loop ends here
      rw [heq, Prod.mk.injEq] at h
      obtain ⟨rfl, rfl⟩ := h
      have hadded : added ≠ 0 := by
        rintro rfl
        have hnone := commitRow_zero cache past query index he hself
        rw [heq] at hnone
        cases hnone
      have hloop : KvError.ofLoop e := by
        rcases herror with (rfl | rfl) | ⟨rfl, -⟩
        · exact .inr (.inl rfl)
        · exact .inr (.inr rfl)
        · exact .inl rfl
      have hnone : ∀ r ∈ ([] : List ((String × Nat × Nat) × Nat)),
          (kv₁.row r.1.1).valid = r.1.2.1 + r.1.2.2 := nofun
      refine ⟨some identity, .raised hloop hnone ?_, hc.enough he ?_,
        fun id hid hx => hc.exact_of_ne ?_ hx, fun id hid => ?_, hc.owned, hc.capacityBlocks,
        hc.blockSize⟩
      · rw [hc.row, if_pos rfl]
        show (kv.row identity).valid ≠ start + added
        omega
      · exact (he identity).trans (Nat.le_add_right _ _)
      · exact fun heq => hid (congrArg some heq.symm)
      · rw [map_cons, mem_cons, not_or] at hid
        rw [hc.row, if_neg hid.1]

/-! ### Calls -/

/-- The pool of a watched run: no block is lost or held twice, no row is short of blocks, and
only a torn row holds more than it needs. -/
structure Tended (blockSize capacityBlocks : Nat) (w : Watched α) : Prop where
  blockSize : w.kv.blockSize = blockSize
  capacityBlocks : w.kv.capacityBlocks = capacityBlocks
  owned : w.kv.Owned
  enough : w.kv.Enough
  exact_of_not_torn : ∀ id ∉ w.torn, w.kv.Exact id

variable {memory : Nat → Component → Nat → Nat → Nat → Nat → α} {cache : DynamicCache α}
  {identities : List String} {lengths additions : List Nat} {blockSize capacityBlocks : Nat}

theorem SameBlocks.enough (h : SameBlocks kv kv') (he : kv.Enough) : kv'.Enough := by
  intro id
  rw [h.row, h.blockSize]
  exact he id

theorem SameBlocks.exact (h : SameBlocks kv kv') (hx : kv.Exact id) : kv'.Exact id := by
  rw [Exact, h.row, h.blockSize]
  exact hx

theorem valid_of_refusal (h : kv.refusal identities lengths additions = none) :
    ∀ r ∈ identities.zip (lengths.zip additions), (kv.row r.1).valid = r.2.1 := by
  rw [refusal] at h
  rcases hd : kv.demand (identities.zip (lengths.zip additions)) with - | needed
  · rw [hd] at h
    cases h
  · exact valid_of_demand hd

/-- **A commit that raises before its loop moves no block.** -/
theorem commit_sameBlocks
    (h : kv.commit memory cache identities lengths additions = (some error, kv'))
    (hn : identities.Nodup) (he : kv.Enough) (hloop : ¬ KvError.ofLoop error) :
    SameBlocks kv kv' := by
  rcases kv.commit_cases memory cache identities lengths additions with
    ⟨e, kv₁, heq, hsame, -⟩ | ⟨kv₁, past, query, hopens, heq⟩
  · rw [heq] at h
    obtain ⟨-, rfl⟩ := Prod.mk.inj h
    exact hsame
  · rw [h] at heq
    have hstart : ∀ r ∈ (identities.zip (lengths.zip additions)).zipIdx,
        (kv₁.row r.1.1).valid = r.1.2.1 := by
      intro r hr
      rw [hopens.same.row]
      exact valid_of_refusal hopens.refusal r.1 (fst_mem_of_mem_zipIdx hr)
    obtain ⟨torn, hlooped, -⟩ := commitRows_keeps (nodup_zipIdx_ids hn) hstart
      (hopens.same.enough he) heq.symm
    generalize hrows : (identities.zip (lengths.zip additions)).zipIdx = rows at hlooped
    cases hlooped with
    | raised hloop' => exact absurd hloop' hloop

/-- The row the loop stopped at is the one `tornRow` finds. -/
theorem tornRow_eq (hrows : (identities.zip (lengths.zip additions)).zipIdx = rows)
    {torn : Option String}
    (h : kv.commit memory cache identities lengths additions = (some error, kv'))
    (hlooped : Looped kv' (some error) rows torn) :
    kv.tornRow (.commit memory cache identities lengths additions) = torn := by
  rcases hlooped with - | @⟨_, done, identity, start, added, index, rest, hloop, hvalid, hstale⟩
  have hzip : identities.zip (lengths.zip additions) =
      done.map Prod.fst ++ (identity, start, added) :: rest.map Prod.fst := by
    rw [← zipIdx_map_fst 0 (identities.zip _), hrows, map_append, map_cons]
  have hfind : (identities.zip (lengths.zip additions)).find? (fun r =>
      decide ((kv'.row r.1).valid ≠ r.2.1 + r.2.2)) = some (identity, start, added) := by
    rw [List.find?_eq_some_iff_append]
    refine ⟨decide_eq_true hstale, done.map Prod.fst, rest.map Prod.fst, hzip, ?_⟩
    rintro r hr
    obtain ⟨r, hmem, rfl⟩ := mem_map.mp hr
    simp [hvalid r hmem]
  simp only [tornRow, h, if_pos hloop, hfind, Option.map_some]

variable {w : Watched α}

/-- **A commit keeps the pool tended**, whether it goes through or raises. -/
theorem Tended.commit (ht : Tended blockSize capacityBlocks w) (hn : identities.Nodup) :
    Tended blockSize capacityBlocks
      (w.answer (.commit memory cache identities lengths additions)) := by
  have hmono : ∀ id ∉ (w.answer (.commit memory cache identities lengths additions)).torn,
      id ∉ w.torn := fun id hid h => hid (Finset.mem_union_left _ h)
  rcases w.kv.commit_cases memory cache identities lengths additions with
    ⟨e, kv₁, heq, hsame, -⟩ | ⟨kv₁, past, query, hopens, heq⟩
  · have hanswer : w.kv.answer (.commit memory cache identities lengths additions) = kv₁ :=
      congrArg Prod.snd heq
    refine ⟨?_, ?_, ?_, ?_, fun id hid => ?_⟩
    all_goals rw [Watched.answer, hanswer]
    · exact hsame.blockSize.trans ht.blockSize
    · exact hsame.capacityBlocks.trans ht.capacityBlocks
    · exact hsame.owned ht.owned
    · exact hsame.enough ht.enough
    · exact hsame.exact (ht.exact_of_not_torn id (hmono id hid))
  · rcases hcommit : w.kv.commit memory cache identities lengths additions with ⟨error, kv'⟩
    have hanswer : w.kv.answer (.commit memory cache identities lengths additions) = kv' :=
      congrArg Prod.snd hcommit
    have hstart : ∀ r ∈ (identities.zip (lengths.zip additions)).zipIdx,
        (kv₁.row r.1.1).valid = r.1.2.1 := by
      intro r hr
      rw [hopens.same.row]
      exact valid_of_refusal hopens.refusal r.1 (fst_mem_of_mem_zipIdx hr)
    obtain ⟨torn, hlooped, henough, hexact, -, howned, hcap, hbs⟩ :=
      commitRows_keeps (nodup_zipIdx_ids hn) hstart (hopens.same.enough ht.enough)
        (heq.symm.trans hcommit)
    refine ⟨?_, ?_, ?_, ?_, fun id hid => ?_⟩
    all_goals rw [Watched.answer, hanswer]
    · exact hbs.trans (hopens.same.blockSize.trans ht.blockSize)
    · exact hcap.trans (hopens.same.capacityBlocks.trans ht.capacityBlocks)
    · exact howned (hopens.same.owned ht.owned)
    · exact henough
    · refine hexact id ?_ (hopens.same.exact (ht.exact_of_not_torn id (hmono id hid)))
      rintro rfl
      -- a torn row is remembered
      rcases error with - | error
      · generalize (identities.zip (lengths.zip additions)).zipIdx = rows at hlooped
        cases hlooped
      · refine hid (Finset.mem_union_right _ ?_)
        rw [tornRow_eq rfl hcommit hlooped, Option.mem_toFinset]
        exact rfl

theorem release_sizes (kv : BlockKV α) (identity : String) :
    (kv.release identity).blockSize = kv.blockSize ∧
      (kv.release identity).capacityBlocks = kv.capacityBlocks := by
  rw [release]
  split
  all_goals exact ⟨rfl, rfl⟩

theorem Tended.release (ht : Tended blockSize capacityBlocks w) (identity : String) :
    Tended blockSize capacityBlocks (w.answer (.release identity)) := by
  obtain ⟨hbs, hcap⟩ := w.kv.release_sizes identity
  refine ⟨hbs.trans ht.blockSize, hcap.trans ht.capacityBlocks, ht.owned.release identity,
    fun id => ?_, fun id hid => ?_⟩
  · show ((w.kv.release identity).row id).valid ⌈/⌉ (w.kv.release identity).blockSize ≤
      ((w.kv.release identity).row id).blocks.length
    rw [release_row, hbs]
    split_ifs
    · simp
    · exact ht.enough id
  · show Exact (w.kv.release identity) id
    rcases eq_or_ne id identity with rfl | hne
    · exact exact_of_empty (by rw [release_row, if_pos rfl])
    · have hold := ht.exact_of_not_torn id fun h => hid (Finset.mem_erase.mpr ⟨hne, h⟩)
      rw [Exact, release_row, if_neg hne, hbs]
      exact hold

theorem foldl_release (keys : List String) (kv : BlockKV α) :
    (∀ id, (keys.foldl release kv).row id = if id ∈ keys then {} else kv.row id) ∧
      (keys.foldl release kv).blockSize = kv.blockSize ∧
      (keys.foldl release kv).capacityBlocks = kv.capacityBlocks ∧
      (kv.Owned → (keys.foldl release kv).Owned) := by
  induction keys generalizing kv with
  | nil => exact ⟨fun _ => (if_neg (not_mem_nil)).symm, rfl, rfl, id⟩
  | cons key keys ih =>
    obtain ⟨hrow, hbs, hcap, howned⟩ := ih (kv.release key)
    obtain ⟨hbs', hcap'⟩ := kv.release_sizes key
    refine ⟨fun id => ?_, hbs.trans hbs', hcap.trans hcap', fun ho => howned (ho.release key)⟩
    rw [foldl_cons, hrow, release_row]
    by_cases hkeys : id ∈ keys
    · rw [if_pos hkeys, if_pos (.tail _ hkeys)]
    · rw [if_neg hkeys]
      simp only [mem_cons, hkeys, or_false]

theorem clear_row (kv : BlockKV α) (id : String) : kv.clear.row id = {} := by
  show (kv.rows.keys.foldl release kv).row id = {}
  rw [(foldl_release kv.rows.keys kv).1]
  split_ifs with hmem
  · rfl
  · rw [row, (OrderedDict.get?_eq_none_iff _).mpr hmem, Option.getD_none]

theorem Tended.clear (ht : Tended blockSize capacityBlocks w) :
    Tended blockSize capacityBlocks (w.answer .clear) := by
  obtain ⟨-, hbs, hcap, howned⟩ := foldl_release w.kv.rows.keys w.kv
  refine ⟨hbs.trans ht.blockSize, hcap.trans ht.capacityBlocks,
    (howned ht.owned).congr rfl rfl rfl rfl rfl, fun id => ?_,
    fun id _ => exact_of_empty (w.kv.clear_row id)⟩
  show (w.kv.clear.row id).valid ⌈/⌉ _ ≤ (w.kv.clear.row id).blocks.length
  rw [clear_row]
  simp

theorem Tended.answer (ht : Tended blockSize capacityBlocks w) {call : BlockCall α}
    (hd : Distinct call) :
    Tended blockSize capacityBlocks (w.answer call) := by
  rcases call with ⟨memory, cache, identities, lengths, additions⟩ | identity | -
  · exact ht.commit hd
  · exact ht.release identity
  · exact ht.clear

theorem tended_init (blockSize capacityBlocks maxBytes : Nat) :
    Tended blockSize capacityBlocks (watch α blockSize capacityBlocks maxBytes).init where
  blockSize := rfl
  capacityBlocks := rfl
  owned := owned_new blockSize capacityBlocks maxBytes
  enough _ := by simp [watch, row]
  exact_of_not_torn _ _ := exact_of_empty rfl

theorem tended_run (blockSize capacityBlocks maxBytes : Nat) {calls : List (BlockCall α)}
    (hd : ∀ call ∈ calls, Distinct call) :
    Tended blockSize capacityBlocks ((watch α blockSize capacityBlocks maxBytes).run calls) := by
  have hrun : ∀ w : Watched α, Tended blockSize capacityBlocks w →
      Tended blockSize capacityBlocks
        ((watch α blockSize capacityBlocks maxBytes).runFrom w calls) := by
    induction calls with
    | nil => exact fun _ ht => ht
    | cons call calls ih =>
      rw [forall_mem_cons] at hd
      exact fun w ht => ih hd.2 _ (ht.answer hd.1)
  exact hrun _ (tended_init blockSize capacityBlocks maxBytes)

/-- **Block ownership over whole runs.**  After any calls the free list and the rows hold every
block once and the counters agree; a row holds as many blocks as its valid columns need, more
only when a commit raised at this row since its last release; and a commit that raises before
its loop changes neither rows nor free list. -/
theorem blocks_owned_once (blockSize capacityBlocks maxBytes : Nat) {calls : List (BlockCall α)}
    (hd : ∀ call ∈ calls, Distinct call) :
    let w := (watch α blockSize capacityBlocks maxBytes).run calls
    (w.kv.free : Multiset Nat) + w.kv.held = Multiset.range capacityBlocks ∧
      w.kv.allocations = w.kv.releases + Multiset.card w.kv.held ∧
      (∀ id, (w.kv.row id).valid ⌈/⌉ blockSize ≤ (w.kv.row id).blocks.length) ∧
      (∀ id ∉ w.torn, (w.kv.row id).blocks.length = (w.kv.row id).valid ⌈/⌉ blockSize) ∧
      ∀ memory cache (identities : List String) lengths additions error kv', identities.Nodup →
        w.kv.commit memory cache identities lengths additions = (some error, kv') →
        ¬ KvError.ofLoop error → kv'.rows = w.kv.rows ∧ kv'.free = w.kv.free := by
  intro w
  obtain ⟨hbs, hcap, howned, henough, hexact⟩ :=
    tended_run blockSize capacityBlocks maxBytes hd
  refine ⟨?_, howned.counted, fun id => ?_, fun id hid => ?_, ?_⟩
  · rw [← hcap]
    exact howned.partition
  · rw [← hbs]
    exact henough id
  · rw [← hbs]
    exact hexact id hid
  · intro memory cache identities lengths additions error kv' hn hcommit hloop
    have hsame := commit_sameBlocks hcommit hn henough hloop
    exact ⟨hsame.rows, hsame.free⟩

/-- A cache of `columns` zero columns: one layer, one head, one channel. -/
def blank (columns : Nat) : DynamicCache Nat :=
  let tensor : Tensor Nat :=
    { dtype := "f16", device := "cpu", itemsize := 2, rows := 1, heads := 1, columns := columns,
      channels := 1, get := fun _ _ _ _ => 0 }
  .ofData [(tensor, tensor)]

/-- Four new columns announced, two of them in the cache: the second block cannot be filled. -/
def shortCommit : List (BlockCall Nat) :=
  [.commit (fun _ _ _ _ _ _ => 0) (blank 2) ["a"] [0] [4]]

theorem blocks_owned_once_short :
    let w := (watch Nat 2 4 100).run shortCommit
    w.torn = {"a"} ∧ (w.kv.free : Multiset Nat) + w.kv.held = Multiset.range 4 :=
  ⟨by decide,
    (blocks_owned_once 2 4 100 (show ∀ call ∈ shortCommit, Distinct call from
      forall_mem_singleton.mpr (nodup_singleton "a"))).1⟩

/-- **A commit that raises in its loop leaves its row with blocks it does not need.** -/
theorem short_commit_holds_more :
    let kv : BlockKV Nat := { blockSize := 2, capacityBlocks := 4, maxBytes := 100 }
    let result := kv.commit (fun _ _ _ _ _ _ => 0) (blank 2) ["a"] [0] [4]
    result.1 = some .shapeMismatch ∧
      (result.2.row "a").blocks.length ≠ (result.2.row "a").valid ⌈/⌉ result.2.blockSize := by
  decide +kernel

end BlockKV

end Hqsb
