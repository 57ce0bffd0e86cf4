/-
Hqsb/Backends/KvRefinement.lean

The block layout refines the dense one.

Both stores answer one sequence of calls.  A commit is legal when it passes the
lengths the rows have and a cache that continues what `pack` returns for them;
`pack` changes nothing, so what the preceding `pack` returned is what `pack`
returns now.  Along legal calls both stores represent the same columns, so they
pack the same caches, whatever blocks were freed and reused in between.
-/
import Hqsb.Lib.Machine
import Hqsb.Backends.BlockColumns
import Hqsb.Backends.DenseColumns

namespace Hqsb

open Lib List

variable {α : Type*} [Zero α]

/-- One call on a device store.  `memory` is what the storage contains that a first commit opens. -/
inductive Call (α : Type*)
  | pack (identities : List String) (lengths : List Nat)
  | commit (memory : Nat → Component → Nat → Nat → Nat → Nat → α) (cache : DynamicCache α)
      (identities : List String) (lengths additions : List Nat)
  | release (identity : String)

def blockCalls (α : Type*) [Zero α] (blockSize capacityBlocks maxBytes : Nat) :
    Machine (BlockKV α) (Call α) where
  init := { blockSize, capacityBlocks, maxBytes }
  step kv
    | .pack _ _ => kv
    | .commit memory cache identities lengths additions =>
      (kv.commit memory cache identities lengths additions).2
    | .release identity => kv.release identity

def denseCalls (α : Type*) [Zero α] : Machine (DenseKV α) (Call α) where
  init := {}
  step kv
    | .pack _ _ => kv
    | .commit _ cache identities lengths additions =>
      (kv.commit cache identities lengths additions).2
    | .release identity => kv.release identity

/-! ### Legal calls -/

/-- A commit of distinct rows from where they stand, with what a model returned that read the
packed rows and appended `query` columns; and the pool takes it. -/
structure LegalCommit (G : Geometry) (kv : BlockKV α)
    (memory : Nat → Component → Nat → Nat → Nat → Nat → α) (cache : DynamicCache α)
    (identities : List String) (lengths additions : List Nat) (past query : Nat) : Prop where
  nodup : identities.Nodup
  valid : lengths = identities.map fun id => (kv.row id).valid
  length : additions.length = identities.length
  past_eq : lengths.max? = some past
  query_eq : additions.max? = some query
  fits : cache.Fits G identities.length (past + query)
  continues : ∃ packed, kv.pack identities lengths = .ok packed ∧
    ∀ row, row < identities.length → ∀ column, column < past →
      G.Agree (cache.column row column) (packed.column row column)
  accepted : (kv.commit memory cache identities lengths additions).1 = none

/-- The calls of the executor; only a commit has something to fulfil. -/
def Legal (G : Geometry) (kv : BlockKV α) : Call α → Prop
  | .pack _ _ => True
  | .commit memory cache identities lengths additions =>
    ∃ past query, LegalCommit G kv memory cache identities lengths additions past query
  | .release _ => True

variable {G : Geometry} {kv : BlockKV α} {s : Columns α}

theorem readable_of_valid (hr : BlockKV.Represents G kv s) {identities : List String}
    {lengths : List Nat} (h : lengths = identities.map fun id => (kv.row id).valid) :
    s.Readable (identities.zip lengths) := by
  intro r hmem _
  obtain ⟨i, hi, rfl⟩ := mem_iff_getElem.mp hmem
  simp only [h, getElem_zip, getElem_map]
  exact (hr.valid _).symm

/-- What a legal commit passes continues the columns of the store. -/
theorem LegalCommit.extends {memory : Nat → Component → Nat → Nat → Nat → Nat → α}
    {cache : DynamicCache α} {identities : List String} {lengths additions : List Nat}
    {past query : Nat} (h : LegalCommit G kv memory cache identities lengths additions past query)
    (hr : BlockKV.Represents G kv s) :
    Extends G s cache identities.length past query
      (identities.zip (lengths.zip additions)).zipIdx := by
  refine ⟨h.fits, BlockKV.nodup_zipIdx_ids h.nodup, ?_⟩
  rintro ⟨⟨identity, start, added⟩, row⟩ hrow
  have hlength : lengths.length = identities.length := by rw [h.valid, length_map]
  obtain ⟨hid, hrest⟩ := List.getElem?_zip_eq_some.mp (mem_zipIdx_iff_getElem?.mp hrow)
  obtain ⟨hstart, hadded⟩ := List.getElem?_zip_eq_some.mp hrest
  have hlt : row < identities.length := (List.getElem?_eq_some_iff.mp hid).1
  have hlen : (s identity).length = start := by
    have hget := hstart
    rw [h.valid, List.getElem?_map, hid] at hget
    rw [← hr.valid]
    exact Option.some.inj hget
  have hle : start ≤ past := (List.max?_eq_some_iff.mp h.past_eq).2 _ (mem_of_getElem? hstart)
  refine ⟨hlt, hlen, hle, (List.max?_eq_some_iff.mp h.query_eq).2 _ (mem_of_getElem? hadded),
    fun p (hp : p < start) => ?_⟩
  obtain ⟨packed, hpacked, hagree⟩ := h.continues
  have hpacks := BlockKV.pack_packs hr hlength.symm
  rw [Packs, h.past_eq] at hpacks
  obtain ⟨n, rfl⟩ := Nat.exists_eq_succ_of_ne_zero (by omega : past ≠ 0)
  rcases hpacks with ⟨-, cache', hcache', -, hshown⟩ | ⟨hno, -⟩
  · cases hpacked.symm.trans hcache'
    have hcolumn := hshown row hlt (n + 1 - start + p) (by omega)
    rw [Columns.shown_getD (List.getElem?_zip_eq_some.mpr ⟨hid, hstart⟩) hlen hp] at hcolumn
    show G.Agree (cache.column row (n + 1 - start + p)) ((s identity).getD p 0)
    exact (hagree row hlt _ (by omega)).trans hcolumn
  · exact absurd (readable_of_valid hr h.valid) hno

/-! ### The refinement -/

def SameColumns (G : Geometry) (kv : BlockKV α) (dense : DenseKV α) : Prop :=
  ∃ s, BlockKV.Represents G kv s ∧ DenseKV.Represents G dense s

/-- Every legal call keeps both stores on the same columns. -/
theorem blocks_simulate (G : Geometry) {blockSize : Nat} (hpos : 0 < blockSize)
    (capacityBlocks maxBytes : Nat) :
    Machine.Simulates (blockCalls α blockSize capacityBlocks maxBytes) (denseCalls α) (Legal G)
      (SameColumns G) where
  init := ⟨_, BlockKV.represents_new G hpos capacityBlocks maxBytes, DenseKV.represents_new G⟩
  step kv dense call := by
    rintro ⟨s, hblock, hdense⟩ hlegal
    rcases call with ⟨identities, lengths⟩ | ⟨memory, cache, identities, lengths, additions⟩ | identity
    · exact ⟨s, hblock, hdense⟩
    · obtain ⟨past, query, hlegal⟩ := hlegal
      have hx := hlegal.extends hblock
      obtain ⟨hblock', hdynamic⟩ := hblock.commit hlegal.past_eq hlegal.query_eq hx
        (Prod.ext hlegal.accepted rfl)
      obtain ⟨dense', heq, hdense'⟩ := hdense.commitRows hx hdynamic
      refine ⟨_, hblock', ?_⟩
      show DenseKV.Represents G (dense.commit cache identities lengths additions).2 _
      simp only [DenseKV.commit, hlegal.past_eq, hlegal.query_eq, heq]
      exact hdense'
    · exact ⟨_, hblock.release identity, hdense.release identity⟩

/-- **The block layout refines the dense one.**  After any legal calls both stores pack the same
contents for any rows and lengths, left padding included; and they do pack the lengths the
rows have. -/
theorem block_kv_refines_dense_kv (G : Geometry) {blockSize : Nat} (hpos : 0 < blockSize)
    (capacityBlocks maxBytes : Nat) {calls : List (Call α)}
    (hlegal : (blockCalls α blockSize capacityBlocks maxBytes).Guarded (Legal G)
      (blockCalls α blockSize capacityBlocks maxBytes).init calls)
    {identities : List String} {lengths : List Nat} (hlen : identities.length = lengths.length) :
    let kv := (blockCalls α blockSize capacityBlocks maxBytes).run calls
    PackAgrees (kv.pack identities lengths) (((denseCalls α).run calls).pack identities lengths) ∧
      (identities ≠ [] → lengths = identities.map (fun id => (kv.row id).valid) →
        ∃ cache, kv.pack identities lengths = .ok cache) := by
  intro kv
  obtain ⟨s, hblock, hdense⟩ := (blocks_simulate G hpos capacityBlocks maxBytes).run hlegal
  have hpacks := BlockKV.pack_packs hblock hlen
  refine ⟨hpacks.agree (DenseKV.pack_packs hdense hlen), fun hne hvalid => ?_⟩
  apply hpacks.ok
  · rw [hvalid]
    exact fun h => hne (map_eq_nil_iff.mp h)
  · exact readable_of_valid hblock hvalid

/-- The model of the run below: one layer, one head, one channel. -/
def oneLayer : Geometry := ⟨1, 1, 1, Nat.one_pos⟩

def counted (columns : Nat) : DynamicCache Nat :=
  let tensor : Tensor Nat :=
    { dtype := "f16", device := "cpu", itemsize := 2, rows := 1, heads := 1, columns := columns,
      channels := 1, get := fun _ _ column _ => column + 1 }
  .ofData [(tensor, tensor)]

theorem counted_fits (columns : Nat) : (counted columns).Fits oneLayer 1 columns := by
  refine ⟨rfl, fun pair hpair component => ?_⟩
  obtain rfl := mem_singleton.mp hpair
  cases component
  all_goals exact ⟨rfl, rfl, rfl, rfl⟩

/-- Three columns and then one more, over blocks of two columns. -/
def countedCalls : List (Call Nat) :=
  [.commit (fun _ _ _ _ _ _ => 9) (counted 3) ["a"] [0] [3], .pack ["a"] [3],
    .commit (fun _ _ _ _ _ _ => 9) (counted 4) ["a"] [3] [1]]

theorem counted_packed : ∃ packed,
    ((blockCalls Nat 2 2 100).run (countedCalls.take 2)).pack ["a"] [3] = .ok packed ∧
      ∀ column, column < 3 → ∀ component, packed.column 0 column 0 component 0 0 = column + 1 := by
  have hcheck : (match ((blockCalls Nat 2 2 100).run (countedCalls.take 2)).pack ["a"] [3] with
      | .ok packed => (List.range 3).all fun column =>
          packed.column 0 column 0 .keys 0 0 = column + 1 ∧
          packed.column 0 column 0 .values 0 0 = column + 1
      | .error _ => false) = true := by decide
  split at hcheck
  · next packed hpacked =>
    refine ⟨packed, hpacked, fun column hcolumn component => ?_⟩
    have hboth := of_decide_eq_true (all_eq_true.mp hcheck column (mem_range.mpr hcolumn))
    cases component
    exacts [hboth.1, hboth.2]
  · cases hcheck

theorem countedCalls_legal : (blockCalls Nat 2 2 100).Guarded (Legal oneLayer)
    (blockCalls Nat 2 2 100).init countedCalls := by
  obtain ⟨packed, hpacked, hcolumn⟩ := counted_packed
  refine ⟨⟨0, 3, by decide, rfl, rfl, rfl, rfl, counted_fits 3, ⟨_, rfl, nofun⟩, rfl⟩, trivial,
    ⟨3, 1, by decide, rfl, rfl, rfl, rfl, counted_fits 4, ⟨packed, hpacked, ?_⟩, rfl⟩, trivial⟩
  intro row hrow column hlt layer hlayer component head hhead channel hchannel
  obtain rfl : row = 0 := Nat.lt_one_iff.mp hrow
  obtain rfl : layer = 0 := Nat.lt_one_iff.mp hlayer
  obtain rfl : head = 0 := Nat.lt_one_iff.mp hhead
  obtain rfl : channel = 0 := Nat.lt_one_iff.mp hchannel
  rw [hcolumn column hlt component]
  cases component
  all_goals rfl

theorem block_kv_refines_dense_kv_counted :
    PackAgrees (((blockCalls Nat 2 2 100).run countedCalls).pack ["a"] [4])
      (((denseCalls Nat).run countedCalls).pack ["a"] [4]) :=
  (block_kv_refines_dense_kv oneLayer Nat.two_pos 2 100 countedCalls_legal rfl).1

end Hqsb
