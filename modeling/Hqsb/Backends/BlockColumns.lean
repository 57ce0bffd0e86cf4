/-
Hqsb/Backends/BlockColumns.lean

The block layout represents the abstract store: position `p` of a row lives in
column `p % blockSize` of its block number `p / blockSize`, whichever physical
block that is and whatever was in it before.

`pack` reads the positions below the valid length only, so what a reused block
still holds is never shown.  `commit` writes the new positions only: no other
row is disturbed, since rows share no block (`Owned`), and no old position of
the row either, since two positions never share a column of a block.
-/
import Hqsb.Backends.BlockOwnership
import Hqsb.Backends.KvColumns

namespace Hqsb

open Lib List

namespace BlockKV

variable {α : Type*} {G : Geometry} {kv kv' : BlockKV α} {s : Columns α}

/-- The blocks of a row, one after the other, hold its columns. -/
def Spells [Zero α] (G : Geometry) (slabs : List (Pair α)) (blockSize : Nat) (blocks : List Nat)
    (columns : List (Column α)) : Prop :=
  ∀ p, p < columns.length → ∃ physical, blocks[p / blockSize]? = some physical ∧
    G.Agree (pairsColumn slabs physical (p % blockSize)) (columns.getD p 0)

structure Represents [Zero α] (G : Geometry) (kv : BlockKV α) (s : Columns α) : Prop where
  blockSize_pos : 0 < kv.blockSize
  owned : kv.Owned
  filled : kv.Filled
  valid : ∀ id, (kv.row id).valid = (s id).length
  unopened : kv.slabs = none → ∀ id, s id = []
  fits : ∀ slabs, kv.slabs = some slabs → PairsFit G slabs kv.capacityBlocks kv.blockSize
  spells : ∀ slabs, kv.slabs = some slabs → ∀ id,
    Spells G slabs kv.blockSize (kv.row id).blocks (s id)

theorem represents_new [Zero α] (G : Geometry) {blockSize : Nat} (hpos : 0 < blockSize)
    (capacityBlocks maxBytes : Nat) :
    Represents (α := α) G { blockSize, capacityBlocks, maxBytes } fun _ => [] where
  blockSize_pos := hpos
  owned := owned_new _ _ _
  filled id := by simp [row]
  valid _ := rfl
  unopened _ _ := rfl
  fits _ h := by cases h
  spells _ h := by cases h

/-! ### `pack` -/

theorem within_block {blockSize logical p : Nat} (hpos : 0 < blockSize)
    (h : p / blockSize = logical) :
    logical * blockSize + p % blockSize = p ∧ p % blockSize < blockSize := by
  rw [← h, mul_comm]
  exact ⟨Nat.div_add_mod p blockSize, Nat.mod_lt p hpos⟩

theorem place {blockSize x : Nat} (logical : Nat) (h : x < blockSize) :
    (logical * blockSize + x) / blockSize = logical ∧ (logical * blockSize + x) % blockSize = x := by
  rw [mul_comm, Nat.mul_add_div (Nat.zero_lt_of_lt h), Nat.mul_add_mod, Nat.div_eq_of_lt h,
    Nat.mod_eq_of_lt h]
  exact ⟨rfl, rfl⟩

theorem eq_of_place {blockSize p q : Nat} (hblock : p / blockSize = q / blockSize)
    (hcolumn : p % blockSize = q % blockSize) : p = q := by
  rw [← Nat.div_add_mod p blockSize, ← Nat.div_add_mod q blockSize, hblock, hcolumn]

/-- The positions of the blocks stand at the right end of line `row` of `t`. -/
structure Spelled (heads channels blockSize : Nat) (slab : Tensor α) (row valid width : Nat)
    (blocks : List (Nat × Nat)) (packed t : Tensor α) : Prop where
  written : ∀ b ∈ blocks, ∀ p, p < valid → p / blockSize = b.2 → ∀ head channel, head < heads →
    channel < channels →
    t.get row head (width - valid + p) channel = slab.get b.1 head (p % blockSize) channel
  kept : ∀ row' head column channel, head < heads → channel < channels →
    (row' = row → ∀ b ∈ blocks, ∀ p, p < valid → p / blockSize = b.2 → column ≠ width - valid + p) →
    t.get row' head column channel = packed.get row' head column channel

theorem packBlocks_ok {slab packed : Tensor α}
    {batch heads channels capacity blockSize valid width : Nat} (hpos : 0 < blockSize)
    (hslab : slab.Shaped capacity heads blockSize channels)
    (hp : packed.Shaped batch heads width channels) (row : Nat) (hle : valid ≤ width)
    {blocks : List (Nat × Nat)} (hphysical : ∀ b ∈ blocks, b.1 < capacity)
    (hlogical : ∀ b ∈ blocks, b.2 * blockSize < valid) (hn : (blocks.map Prod.snd).Nodup) :
    ∃ t, packBlocks blockSize slab row valid width blocks packed = .ok t ∧
      t.Shaped batch heads width channels ∧
      Spelled heads channels blockSize slab row valid width blocks packed t := by
  induction blocks generalizing packed with
  | nil => exact ⟨packed, rfl, hp, nofun, fun _ _ _ _ _ _ _ => rfl⟩
  | cons b blocks ih =>
    obtain ⟨physical, logical⟩ := b
    rw [forall_mem_cons] at hphysical hlogical
    rw [map_cons, nodup_cons] at hn
    obtain ⟨hoffset, hlogical⟩ := hlogical
    change logical * blockSize < valid at hoffset
    -- the columns of this block that are valid
    obtain ⟨count, hcount⟩ : ∃ count, count = min blockSize (valid - logical * blockSize) := ⟨_, rfl⟩
    have hint : min (blockSize : Int) ((valid : Int) - (logical * blockSize : Nat)) = count := by
      omega
    have hend : sliceEnd slab.columns (count : Int) = count := by
      rw [sliceEnd, if_neg (by omega), Int.toNat_natCast]
    have hstop : (((width - valid + logical * blockSize : Nat) : Int) + (count : Int)).toNat =
        width - valid + logical * blockSize + count := by
      omega
    have hslice := hslab.slice hphysical.1 (Nat.zero_le count) (by omega)
    obtain ⟨packed', hcopy, hshape', hcontent⟩ :=
      hp.copyColumns row (width - valid + logical * blockSize)
        (width - valid + logical * blockSize + count) (u := slab.slice physical 0 count)
        (by rwa [Nat.add_sub_cancel_left]) (Nat.le_add_right _ _) (by omega)
    obtain ⟨t, ht, htshape, hspelled⟩ := ih hshape' hphysical.2 hlogical hn.2
    refine ⟨t, ?_, htshape, ?_, ?_⟩
    · simp only [packBlocks, hint, hend, hstop, hslab.rows, if_neg (Nat.not_le.mpr hphysical.1),
        hcopy, ht]
    · rw [forall_mem_cons]
      refine ⟨fun p hp hdiv head channel hh hd => ?_, hspelled.written⟩
      change p / blockSize = logical at hdiv
      obtain ⟨hlow, hhigh⟩ := within_block hpos hdiv
      -- the later blocks have other positions
      rw [hspelled.kept row head _ channel hh hd fun _ b hb q _ hq he => hn.1 ?_,
        hcontent row head _ channel hh hd, if_pos ⟨rfl, by omega, by omega⟩]
      · show slab.get _ _ _ _ = _
        congr 1
        omega
      · obtain rfl : p = q := by omega
        exact mem_map.mpr ⟨b, hb, hq.symm.trans hdiv⟩
    · intro row' head column channel hh hd hout
      rw [hspelled.kept row' head column channel hh hd fun hrow b hb =>
        hout hrow b (.tail _ hb), hcontent row' head column channel hh hd, if_neg]
      rintro ⟨hrow, hlow, hhigh⟩
      refine hout hrow _ mem_cons_self (column - (width - valid)) (by omega) ?_ (by omega)
      show (column - (width - valid)) / blockSize = logical
      exact Nat.div_eq_of_lt_le (by omega) (by rw [Nat.succ_mul]; omega)

section

variable [Zero α] {count blockSize batch capacity columns index source added start past query : Nat}
  {slabs : List (Pair α)} {blocks : List Nat} {cache : DynamicCache α}

/-- A row that is asked for something is there, with one block for every `blockSize` positions. -/
theorem Represents.get?_row (hr : Represents G kv s) {identity : String}
    (hlen : (s identity).length = count) (hcount : count ≠ 0) :
    ∃ entry, kv.rows.get? identity = some entry ∧ kv.row identity = entry ∧ entry.valid = count ∧
      entry.blocks.length = count ⌈/⌉ kv.blockSize := by
  have hvalid := hr.valid identity
  have hfilled := hr.filled identity
  rcases hget : kv.rows.get? identity with - | entry
  · rw [row, hget, hlen] at hvalid
    exact absurd hvalid.symm hcount
  · have hrow : kv.row identity = entry := by rw [row, hget, Option.getD_some]
    rw [hrow, hlen] at hvalid
    rw [hrow, hvalid] at hfilled
    exact ⟨entry, rfl, hrow, hvalid, hfilled⟩

theorem lt_ceilDiv_iff (hpos : 0 < blockSize) {logical : Nat} :
    logical < count ⌈/⌉ blockSize ↔ logical * blockSize < count := by
  rw [← not_le, ceilDiv_le_iff_le_mul hpos, not_le, mul_comm]

variable {rows : List ((String × Nat) × Nat)}
  {memory : Nat → Component → Nat → Nat → Nat → Nat → α}

theorem packRows_ok (hr : Represents G kv s) (hslabs : kv.slabs = some slabs) {layer : Nat}
    (hl : layer < slabs.length) (component : Component) {width : Nat} {packed : Tensor α}
    (hp : packed.Shaped batch G.heads width G.channels)
    (hread : ∀ r ∈ rows, r.1.2 ≠ 0 → (s r.1.1).length = r.1.2) (hle : ∀ r ∈ rows, r.1.2 ≤ width)
    (hn : (rows.map Prod.snd).Nodup) :
    ∃ t, kv.packRows (component.of slabs[layer]) width rows packed = .ok t ∧
      t.Shaped batch G.heads width G.channels ∧
      Overlaid G s layer component width rows packed t := by
  induction rows generalizing packed with
  | nil => exact ⟨packed, rfl, hp, .nil packed⟩
  | cons r rows ih =>
    obtain ⟨⟨identity, count⟩, row⟩ := r
    rw [forall_mem_cons] at hread hle
    rw [map_cons, nodup_cons] at hn
    rw [packRows]
    by_cases hcount : count = 0
    · subst hcount
      obtain ⟨t, ht, hshape, hover⟩ := ih hp hread.2 hle.2 hn.2
      exact ⟨t, by rw [if_pos rfl, ht], hshape, hover.skip⟩
    have hlen : (s identity).length = count := hread.1 hcount
    have hwidth : count ≤ width := hle.1
    obtain ⟨entry, hget, hrow, hvalid, hblocks⟩ := hr.get?_row hlen hcount
    have hfits := hr.fits slabs hslabs
    have hslab := hfits.shaped _ (getElem_mem hl) component
    have hindex : ∀ b ∈ entry.blocks.zipIdx, b.2 < entry.blocks.length := fun b hb => by
      simpa using snd_lt_of_mem_zipIdx hb
    obtain ⟨packed', hpacked, hshape', hspelled⟩ := packBlocks_ok hr.blockSize_pos hslab hp
      row hwidth
      (fun b (hb : b ∈ entry.blocks.zipIdx) => hr.owned.lt_capacity (hrow ▸ fst_mem_of_mem_zipIdx hb))
      (fun b hb => (lt_ceilDiv_iff hr.blockSize_pos).mp (hblocks ▸ hindex b hb))
      (by rw [zipIdx_map_snd]; exact nodup_range')
    obtain ⟨t, ht, htshape, hover⟩ := ih hshape' hread.2 hle.2 hn.2
    refine ⟨t, ?_, htshape, hover.cons hn.1 ?_ hcount⟩
    · rw [if_neg hcount, hget]
      simp only [hvalid, ne_eq, hpacked]
      exact ht
    · intro row' head channel column hh hd
      split_ifs with hin
      · obtain ⟨rfl, hlow, hhigh⟩ := hin
        obtain ⟨p, rfl⟩ := Nat.exists_eq_add_of_le hlow
        have hp : p < count := by omega
        obtain ⟨physical, hphysical, hagree⟩ := hr.spells slabs hslabs identity p (hlen ▸ hp)
        rw [hrow] at hphysical
        rw [Nat.add_sub_cancel_left, hspelled.written (physical, p / kv.blockSize)
          (mem_zipIdx_iff_getElem?.mpr hphysical) p hp rfl head channel hh hd]
        have hcolumn := hagree layer (hfits.length ▸ hl) component head hh channel hd
        rw [pairsColumn_of_lt hl] at hcolumn
        exact hcolumn
      · apply hspelled.kept row' head column channel hh hd
        intro hrow' b _ p hp _ he
        exact hin ⟨hrow', by omega, by omega⟩

omit [Zero α] in
theorem valid_of_packRows {slab packed t : Tensor α} {width : Nat}
    (h : kv.packRows slab width rows packed = .ok t) :
    ∀ r ∈ rows, r.1.2 ≠ 0 → (kv.row r.1.1).valid = r.1.2 := by
  induction rows generalizing packed with
  | nil => nofun
  | cons r rows ih =>
    obtain ⟨⟨identity, count⟩, row⟩ := r
    rw [forall_mem_cons]
    rw [packRows] at h
    split_ifs at h with hcount
    · exact ⟨fun hne => absurd hcount hne, ih h⟩
    rcases hget : kv.rows.get? identity with - | entry
    · rw [hget] at h
      cases h
    simp only [hget] at h
    split_ifs at h with hvalid
    rcases hb : packBlocks kv.blockSize slab row count width entry.blocks.zipIdx packed with e | packed'
    · rw [hb] at h
      cases h
    · rw [hb] at h
      refine ⟨fun _ => ?_, ih h⟩
      rw [BlockKV.row, hget]
      exact not_not.mp hvalid

/-- **`pack` of the block layout.** -/
theorem pack_packs (hr : Represents G kv s) {identities : List String} {lengths : List Nat}
    (hlen : identities.length = lengths.length) :
    Packs G s identities lengths (kv.pack identities lengths) := by
  rw [Packs, BlockKV.pack]
  rcases hmax : lengths.max? with - | - | n
  · exact ⟨_, rfl⟩
  · rfl
  obtain ⟨⟨r, hr', hwide⟩, hle⟩ := exists_wide hlen hmax
  have hnodup : ((identities.zip lengths).zipIdx.map Prod.snd).Nodup := by
    rw [zipIdx_map_snd]
    exact nodup_range'
  rcases hslabs : kv.slabs with - | slabs
  · -- before the first commit every row is empty
    refine .inr ⟨fun hread => ?_, _, rfl⟩
    have hrow := hread r hr' (hwide ▸ Nat.succ_ne_zero n)
    rw [hr.unopened hslabs, hwide] at hrow
    exact absurd hrow.symm (Nat.succ_ne_zero n)
  have hfits := hr.fits slabs hslabs
  show _ ∨ _
  simp only
  rw [hfits.length]
  by_cases hread : s.Readable (identities.zip lengths)
  · refine .inl ⟨hread, ?_⟩
    apply packLayers_shows
    intro layer hl component
    have hlt : layer < slabs.length := hfits.length ▸ hl
    rw [List.getElem?_eq_getElem hlt]
    obtain ⟨t, ht, hshape, hover⟩ := packRows_ok hr hslabs hlt component
      ((hfits.shaped _ (getElem_mem hlt) component).zeros identities.length (n + 1))
      (fun r hr => hread r.1 (fst_mem_of_mem_zipIdx hr))
      (fun r hr => hle r.1 (fst_mem_of_mem_zipIdx hr)) hnodup
    exact ⟨t, ht, hshape, fun row head channel column hh hd hc =>
      hover.shown hread (fun _ _ _ _ => rfl) hh hd hc⟩
  · refine .inr ⟨hread, exists_error_of_not_ok fun cache hcache => hread ?_⟩
    have hlt : 0 < slabs.length := hfits.length ▸ G.layers_pos
    -- the first layer has read every row
    obtain ⟨data, -, hdata, hall⟩ := packLayers_eq_ok_iff.mp hcache
    have hfirst := hall 0 (hdata.symm ▸ G.layers_pos) .keys
    rw [List.getElem?_eq_getElem hlt] at hfirst
    intro r hr'
    obtain ⟨i, hi⟩ := exists_mem_zipIdx hr'
    rw [← hr.valid]
    exact valid_of_packRows hfirst _ hi

/-! ### `commit` -/

omit [Zero α] in
theorem writeBlock_ok {slab tensor : Tensor α} {heads channels physical within : Nat}
    (hslab : slab.Shaped capacity heads blockSize channels)
    (htensor : tensor.Shaped batch heads columns channels) (hindex : index < batch)
    (hphysical : physical < capacity) (hsource : source + count ≤ columns)
    (hwithin : within + count ≤ blockSize) :
    ∃ slab', writeBlock slab tensor index source count physical within = .ok slab' ∧
      slab'.Shaped capacity heads blockSize channels ∧
      ∀ row head column channel, head < heads → channel < channels →
        slab'.get row head column channel =
          if row = physical ∧ within ≤ column ∧ column < within + count then
            tensor.get index head (source + (column - within)) channel
          else slab.get row head column channel := by
  have hslice := htensor.slice hindex (Nat.le_add_right source count) hsource
  rw [Nat.add_sub_cancel_left] at hslice
  obtain ⟨slab', hcopy, hshape, hcontent⟩ := hslab.copyColumns physical within (within + count)
    (u := tensor.slice index source (source + count))
    (by rwa [Nat.add_sub_cancel_left]) (Nat.le_add_right _ _) hwithin
  refine ⟨slab', ?_, hshape, hcontent⟩
  rw [writeBlock, htensor.rows, hslab.rows, if_neg (by omega), hcopy]

/-- One run of columns, written into every layer from `k` on. -/
theorem writeLayers_ok {physical within : Nat} (hindex : index < batch)
    (hphysical : physical < capacity) (hsource : source + count ≤ columns)
    (hwithin : within + count ≤ blockSize) {layers : List (CacheLayer α)} {k : Nat}
    (hk : k + layers.length = G.layers) (hlayers : ∀ layer ∈ layers, ∀ component : Component,
      (component.of layer.pair).Shaped batch G.heads columns G.channels)
    (hslabs : PairsFit G slabs capacity blockSize) :
    ∃ slabs', writeLayers index source count physical within (layers.zipIdx k) slabs =
        (none, slabs') ∧ PairsFit G slabs' capacity blockSize ∧
      ∀ row column layer, layer < G.layers → ∀ component head, head < G.heads →
        ∀ channel, channel < G.channels →
        pairsColumn slabs' row column layer component head channel =
          if k ≤ layer ∧ row = physical ∧ within ≤ column ∧ column < within + count then
            pairsColumn (layers.map CacheLayer.pair) index (source + (column - within)) (layer - k)
              component head channel
          else pairsColumn slabs row column layer component head channel := by
  induction layers generalizing k slabs with
  | nil =>
    refine ⟨slabs, rfl, hslabs, fun row column layer hl component head _ channel _ => ?_⟩
    rw [length_nil] at hk
    rw [if_neg (by omega)]
  | cons layer layers ih =>
    rw [forall_mem_cons] at hlayers
    rw [length_cons] at hk
    have hlt : k < slabs.length := by
      rw [hslabs.length]
      omega
    have hslab := hslabs.shaped _ (getElem_mem hlt)
    obtain ⟨keys, hkeys, hkeysShape, hkeysGet⟩ := writeBlock_ok (hslab .keys) (hlayers.1 .keys)
      hindex hphysical hsource hwithin
    obtain ⟨values, hvalues, hvaluesShape, hvaluesGet⟩ := writeBlock_ok (hslab .values)
      (hlayers.1 .values) hindex hphysical hsource hwithin
    have hset : PairsFit G (slabs.set k (keys, values)) capacity blockSize := by
      refine ⟨by rw [length_set, hslabs.length], fun pair hpair component => ?_⟩
      rcases mem_or_eq_of_mem_set hpair with hold | rfl
      · exact hslabs.shaped pair hold component
      · cases component
        exacts [hkeysShape, hvaluesShape]
    obtain ⟨slabs', heq, hfit, hget⟩ := ih (k := k + 1) (by omega) hlayers.2 hset
    refine ⟨slabs', ?_, hfit, fun row column l hl component head hh channel hd => ?_⟩
    · simp only [Component.of] at hkeys hvalues
      simp only [zipIdx_cons, writeLayers, List.getElem?_eq_getElem hlt, hkeys, hvalues]
      exact heq
    rw [hget row column l hl component head hh channel hd, pairsColumn_set hlt]
    rcases Nat.lt_trichotomy l k with hlk | rfl | hkl
    · -- a layer before this one
      rw [if_neg (by omega), if_neg (by omega), if_neg (by omega)]
    · rw [if_neg (by omega), Nat.sub_self, pairsColumn_of_lt hlt]
      simp only [le_refl, true_and]
      cases component
      exacts [hkeysGet row head column channel hh hd, hvaluesGet row head column channel hh hd]
    · rw [if_neg (by omega : ¬ l = k), map_cons]
      obtain ⟨j, rfl⟩ := Nat.exists_eq_add_of_le (Nat.succ_le_of_lt hkl)
      simp only [show k + 1 ≤ k.succ + j from Nat.le_add_right _ _, show k ≤ k.succ + j by omega,
        show k.succ + j - (k + 1) = j by omega, show k.succ + j - k = j + 1 by omega,
        pairsColumn_cons_succ]

/-- The positions from `start + offset` on are written, and nothing else. -/
structure Scattered (G : Geometry) (cache : DynamicCache α) (blockSize : Nat) (blocks : List Nat)
    (index start added source offset : Nat) (slabs slabs' : List (Pair α)) : Prop where
  written : ∀ p physical, start + offset ≤ p → p < start + added →
    blocks[p / blockSize]? = some physical →
    G.Agree (pairsColumn slabs' physical (p % blockSize))
      (cache.column index (source + (p - start)))
  kept : ∀ physical column,
    (∀ p, start + offset ≤ p → p < start + added → blocks[p / blockSize]? = some physical →
      column ≠ p % blockSize) →
    G.Agree (pairsColumn slabs' physical column) (pairsColumn slabs physical column)

theorem Scattered.done {offset : Nat} (h : added ≤ offset) (slabs : List (Pair α)) :
    Scattered G cache blockSize blocks index start added source offset slabs slabs where
  written p _ hlow hhigh := absurd hhigh (by omega)
  kept _ _ _ := .refl _

theorem scatter_ok (hpos : 0 < blockSize) (hn : blocks.Nodup)
    (hcapacity : ∀ b ∈ blocks, b < capacity) (hblocks : start + added ≤ blocks.length * blockSize)
    (hcache : cache.Fits G batch columns) (hindex : index < batch)
    (hsource : source + added ≤ columns) {passes offset : Nat} (hpasses : added ≤ offset + passes)
    (hslabs : PairsFit G slabs capacity blockSize) :
    ∃ slabs', scatter cache blockSize blocks index start added source passes offset slabs =
        (none, slabs') ∧ PairsFit G slabs' capacity blockSize ∧
      Scattered G cache blockSize blocks index start added source offset slabs slabs' := by
  induction passes generalizing offset slabs with
  | zero => exact ⟨slabs, rfl, hslabs, .done hpasses slabs⟩
  | succ passes ih =>
    rw [scatter]
    split_ifs with hend
    · exact ⟨slabs, rfl, hslabs, .done hend slabs⟩
    obtain ⟨hplace, hwithin⟩ := within_block hpos (rfl : (start + offset) / blockSize = _)
    generalize hlogical : (start + offset) / blockSize = logical at hplace
    generalize (start + offset) % blockSize = within at hplace hwithin
    obtain ⟨count, hcount⟩ : ∃ count, count = min (added - offset) (blockSize - within) := ⟨_, rfl⟩
    have hlt : logical < blocks.length := by
      rw [← hlogical, Nat.div_lt_iff_lt_mul hpos]
      omega
    have hphysical : blocks[logical]? = some blocks[logical] := List.getElem?_eq_getElem hlt
    -- one run of columns of one block
    obtain ⟨slabs₁, hwrite, hfit₁, hget⟩ := writeLayers_ok (k := 0) hindex
      (hcapacity _ (getElem_mem hlt)) (by omega : source + offset + count ≤ columns)
      (by omega : within + count ≤ blockSize)
      (by rw [zero_add, ← hcache.length, length_map])
      (fun layer hl => hcache.shaped _ (mem_map_of_mem hl)) hslabs
    -- and the runs behind it
    obtain ⟨slabs', heq, hfit, hrest⟩ := ih (by omega : added ≤ offset + count + passes) hfit₁
    refine ⟨slabs', ?_, hfit, ?_, ?_⟩
    · simp only [hphysical, ← hcount, hwrite]
      exact heq
    · intro p physical hlow hhigh hp
      by_cases hlater : start + (offset + count) ≤ p
      · exact hrest.written p physical hlater hhigh hp
      -- a position of this run
      obtain ⟨d, rfl⟩ := Nat.exists_eq_add_of_le hlow
      have hd : within + d < blockSize := by omega
      obtain ⟨hdiv, hmod⟩ := place logical hd
      rw [← hplace, add_assoc, hdiv, hphysical] at hp
      cases hp
      rw [← hplace, add_assoc, hmod]
      refine (hrest.kept _ _ fun q hqlow hqhigh hq he => ?_).trans fun layer hl component head hh
        channel hd => ?_
      · -- the block is in the row once, so a later run does not come back to this column
        have hsame := (List.getElem?_inj hlt hn).mp (hphysical.trans hq.symm)
        have := eq_of_place (hdiv.trans hsame) (hmod.trans he)
        omega
      · rw [hget _ _ layer hl component head hh channel hd,
          if_pos ⟨Nat.zero_le _, rfl, Nat.le_add_right _ _, by omega⟩, DynamicCache.column,
          Nat.sub_zero, show source + offset + (within + d - within) =
            source + (logical * blockSize + (within + d) - start) by omega]
    · intro physical column hout
      refine (hrest.kept physical column fun p hlow hhigh hp =>
        hout p (by omega) hhigh hp).trans fun layer hl component head hh channel hd => ?_
      rw [hget _ _ layer hl component head hh channel hd, if_neg]
      rintro ⟨-, rfl, hlow, hhigh⟩
      obtain ⟨hdiv, hmod⟩ := place logical (by omega : column < blockSize)
      refine hout (logical * blockSize + column) (by omega) (by omega) ?_ hmod.symm
      rw [hdiv, hphysical]

theorem Spells.congr {slabs' : List (Pair α)} {blocks' : List Nat} {columns : List (Column α)}
    (h : Spells G slabs blockSize blocks columns)
    (hblocks : ∀ p, p < columns.length → blocks'[p / blockSize]? = blocks[p / blockSize]?)
    (hslabs : ∀ p physical, p < columns.length → blocks[p / blockSize]? = some physical →
      G.Agree (pairsColumn slabs' physical (p % blockSize))
        (pairsColumn slabs physical (p % blockSize))) :
    Spells G slabs' blockSize blocks' columns := by
  intro p hp
  obtain ⟨physical, hphysical, hagree⟩ := h p hp
  exact ⟨physical, by rw [hblocks p hp, hphysical], (hslabs p physical hp hphysical).trans hagree⟩

/-- Committing one row appends its new columns and disturbs no other row. -/
theorem Represents.commitRow (hr : Represents G kv s) {slabs' : List (Pair α)}
    (hslabs : kv.slabs = some slabs) (hslabs' : kv'.slabs = some slabs') {identity : String}
    {taken : List Nat} (hcache : cache.Fits G batch (past + query))
    (hx : ExtendsRow G s cache batch past query identity start added index)
    (hc : Commits kv kv' identity (start + added) taken)
    (hlen : taken.length = kv.lacking identity start added)
    (hscatter : scatter cache kv.blockSize ((kv.row identity).blocks ++ taken) index start added
      (past + query - added) added 0 slabs = (none, slabs')) :
    Represents G kv' (s.append cache identity index (past + query - added) added) := by
  have hpos := hr.blockSize_pos
  have hvalid : (kv.row identity).valid = start := (hr.valid identity).trans hx.length
  have howned := hc.owned hr.owned
  have hfilled := hc.filled hr.filled hvalid hlen
  have hrow : (kv'.row identity).blocks = (kv.row identity).blocks ++ taken := by
    rw [hc.row, if_pos rfl]
  have hcount : ((kv.row identity).blocks ++ taken).length = (start + added) ⌈/⌉ kv.blockSize := by
    have := hfilled identity
    rwa [hc.row, if_pos rfl, hc.blockSize] at this
  have henough : start + added ≤ ((kv.row identity).blocks ++ taken).length * kv.blockSize := by
    rw [hcount, mul_comm]
    exact le_smul_ceilDiv hpos
  have hadded := hx.added_le
  obtain ⟨slabs₁, heq, hfit, hwrites⟩ := scatter_ok hpos (hrow ▸ howned.nodup_row identity)
    (fun b hb => by
      rw [← hrow] at hb
      exact hc.capacityBlocks ▸ howned.lt_capacity hb)
    henough hcache hx.row_lt (by omega : past + query - added + added ≤ past + query)
    (by omega : added ≤ 0 + added) (hr.fits slabs hslabs)
  obtain rfl : slabs' = slabs₁ := (Prod.mk.inj (hscatter.symm.trans heq)).2
  refine ⟨hc.blockSize ▸ hpos, howned, hfilled, fun id => ?_, fun h => ?_, fun t ht => ?_,
    fun t ht id => ?_⟩
  · rw [hc.row]
    split_ifs with hid
    · rw [hid, Columns.length_append, hx.length]
    · rw [Columns.append_of_ne cache hid]
      exact hr.valid id
  · rw [hslabs'] at h
    cases h
  · cases hslabs'.symm.trans ht
    rw [hc.capacityBlocks, hc.blockSize]
    exact hfit
  cases hslabs'.symm.trans ht
  have hold := hr.spells slabs hslabs id
  rw [hc.blockSize]
  by_cases hid : id = identity
  · subst hid
    rw [hrow]
    intro p hp
    rw [Columns.length_append, hx.length] at hp
    have hlt : p / kv.blockSize < ((kv.row id).blocks ++ taken).length := by
      rw [Nat.div_lt_iff_lt_mul hpos]
      omega
    obtain ⟨physical, hphysical⟩ : ∃ physical,
        ((kv.row id).blocks ++ taken)[p / kv.blockSize]? = some physical :=
      ⟨_, List.getElem?_eq_getElem hlt⟩
    refine ⟨physical, hphysical, ?_⟩
    by_cases hpast : p < start
    · -- an old position: the new ones are in other columns
      rw [Columns.append_getD_of_lt _ _ _ _ _ (hx.length ▸ hpast)]
      obtain ⟨old, hget, hagree⟩ := hold p (hx.length ▸ hpast)
      obtain rfl : physical = old := by
        rw [List.getElem?_append_left (List.getElem?_eq_some_iff.mp hget).1, hget] at hphysical
        exact (Option.some.inj hphysical).symm
      refine (hwrites.kept _ _ fun q hq _ hgetq he => ?_).trans hagree
      have hsame := (List.getElem?_inj hlt (hrow ▸ howned.nodup_row id)).mp
        (hphysical.trans hgetq.symm)
      have := eq_of_place hsame he
      omega
    · have hge : (s id).length ≤ p := hx.length ▸ not_lt.mp hpast
      rw [Columns.append_getD_of_ge _ _ _ _ hge (hx.length.symm ▸ hp), hx.length]
      exact hwrites.written p physical (not_lt.mp hpast) hp hphysical
  · -- another row: none of its blocks was written
    rw [Columns.append_of_ne cache hid, hc.row, if_neg hid]
    refine hold.congr (fun _ _ => rfl) fun p physical _ hp => hwrites.kept _ _ fun q _ _ hq => ?_
    have hmem := mem_of_getElem? hq
    rw [← hrow] at hmem
    have hother := howned.disjoint (Ne.symm hid) hmem
    rw [hc.row, if_neg hid] at hother
    exact absurd (mem_of_getElem? hp) hother

/-- The loop of `commit`, when it goes through. -/
theorem Represents.commitRows (hr : Represents G kv s) (hslabs : kv.slabs = some slabs)
    {rows : List ((String × Nat × Nat) × Nat)} (hx : Extends G s cache batch past query rows)
    (h : BlockKV.commitRows cache past query rows kv = (none, kv')) :
    Represents G kv' (s.commitRows cache past query rows) := by
  induction rows generalizing kv s slabs with
  | nil =>
    obtain rfl := (Prod.mk.inj h).2
    exact hr
  | cons r rows ih =>
    obtain ⟨⟨identity, start, added⟩, index⟩ := r
    rw [BlockKV.commitRows] at h
    rcases commitRow_cases cache past query identity start added index kv with
      ⟨kv₁, taken, slabs₁, heq, hc, hlen, hslabs₁, hscatter⟩ | ⟨e, kv₁, taken, heq, -⟩
    · rw [heq] at h
      rw [hslabs] at hscatter
      exact ih (hr.commitRow hslabs hslabs₁ hx.fits (hx.each _ mem_cons_self) hc hlen hscatter)
        hslabs₁ hx.tail h
    · rw [heq] at h
      cases h

/-- Fresh storage represents what was there: nothing. -/
theorem Represents.openSlabs (hr : Represents G kv s) {sample : Tensor α}
    (hheads : sample.heads = G.heads) (hchannels : sample.channels = G.channels)
    (h : kv.openSlabs memory G.layers sample = (none, kv')) :
    Represents G kv' s ∧ ∃ slabs, kv'.slabs = some slabs := by
  rw [BlockKV.openSlabs] at h
  rcases hslabs : kv.slabs with - | slabs
  · simp only [hslabs] at h
    split_ifs at h with hbytes
    · cases h
    obtain rfl := (Prod.mk.inj h).2
    have hempty := hr.unopened hslabs
    refine ⟨⟨hr.blockSize_pos, hr.owned.congr rfl rfl rfl rfl rfl, hr.filled, hr.valid,
      fun h => ?_, fun t ht => ?_, fun t ht id => ?_⟩, _, rfl⟩
    · cases h
    · cases ht
      refine ⟨by rw [length_map, length_range], fun pair hpair component => ?_⟩
      obtain ⟨layer, -, rfl⟩ := mem_map.mp hpair
      cases component
      all_goals exact ⟨rfl, hheads, rfl, hchannels⟩
    · intro p hp
      rw [hempty id] at hp
      exact absurd hp (Nat.not_lt_zero p)
  · rw [hslabs] at h
    obtain rfl := (Prod.mk.inj h).2
    exact ⟨hr, slabs, hslabs⟩

/-- **`commit` of the block layout**, when it is not refused. -/
theorem Represents.commit (hr : Represents G kv s) {identities : List String}
    {lengths additions : List Nat} (hpast : lengths.max? = some past)
    (hquery : additions.max? = some query)
    (hx : Extends G s cache batch past query (identities.zip (lengths.zip additions)).zipIdx)
    (h : kv.commit memory cache identities lengths additions = (none, kv')) :
    Represents G kv' (s.commitRows cache past query
        (identities.zip (lengths.zip additions)).zipIdx) ∧
      ∀ layer ∈ cache.layers, layer.dynamic := by
  rcases kv.commit_cases memory cache identities lengths additions with
    ⟨e, kv₁, heq, -⟩ | ⟨kv₁, past', query', hopens, heq⟩
  · rw [heq] at h
    cases h
  cases hpast.symm.trans hopens.past
  cases hquery.symm.trans hopens.query
  obtain ⟨first, rest, hlayers, hopen, hall⟩ := hopens.layers
  have hlen : cache.layers.length = G.layers := by
    rw [← hx.fits.length, length_map]
  have hfirst := hx.fits.shaped first.pair (mem_map_of_mem (hlayers ▸ .head _)) .keys
  rw [hlen] at hopen
  obtain ⟨hr₁, slabs, hslabs⟩ := hr.openSlabs hfirst.heads hfirst.channels hopen
  exact ⟨hr₁.commitRows hslabs hx (heq.symm.trans h), fun layer hl => (hall layer hl).1⟩

/-! ### `release` -/

omit [Zero α] in
theorem release_kept (kv : BlockKV α) (identity : String) :
    (kv.release identity).slabs = kv.slabs ∧ (kv.release identity).blockSize = kv.blockSize ∧
      (kv.release identity).capacityBlocks = kv.capacityBlocks := by
  rw [BlockKV.release]
  split
  all_goals exact ⟨rfl, rfl, rfl⟩

/-- A released row leaves its columns in the slabs, where no row shows them any more. -/
theorem Represents.release (hr : Represents G kv s) (identity : String) :
    Represents G (kv.release identity) (s.release identity) := by
  obtain ⟨hslabs, hsize, hcapacity⟩ := kv.release_kept identity
  refine ⟨hsize ▸ hr.blockSize_pos, hr.owned.release identity, hr.filled.release identity,
    fun id => ?_, fun h id => ?_, fun t ht => ?_, fun t ht id => ?_⟩
  · rw [release_row, Columns.release]
    split_ifs with hid
    · rw [hid, Function.update_self]
      rfl
    · rw [Function.update_of_ne hid]
      exact hr.valid id
  · rw [hslabs] at h
    rw [Columns.release]
    by_cases hid : id = identity
    · rw [hid, Function.update_self]
    · rw [Function.update_of_ne hid, hr.unopened h]
  · rw [hslabs] at ht
    rw [hsize, hcapacity]
    exact hr.fits t ht
  · rw [hslabs] at ht
    rw [hsize, release_row, Columns.release]
    split_ifs with hid
    · rw [hid, Function.update_self]
      exact nofun
    · rw [Function.update_of_ne hid]
      exact hr.spells t ht id

end

end BlockKV

end Hqsb
