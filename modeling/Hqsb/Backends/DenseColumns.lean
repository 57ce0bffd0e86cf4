/-
Hqsb/Backends/DenseColumns.lean

The dense layout represents the abstract store: the compact row of a request
holds its columns and nothing else.

`commit` copies the whole row out of the cache, so it represents the new columns
only if the past columns of the cache are the ones the store has; that is the
hypothesis of `Represents.commitRows`, by way of `Extends`.
-/
import Hqsb.Backends.KvColumns

namespace Hqsb

open Lib List OrderedDict

namespace DenseKV

variable {α : Type*} [Zero α] {G : Geometry} {kv : DenseKV α} {s : Columns α}

structure Represents (G : Geometry) (kv : DenseKV α) (s : Columns α) : Prop where
  absent : ∀ id, kv.rows.get? id = none → s id = []
  fits : ∀ id layers, kv.rows.get? id = some layers → PairsFit G layers 1 (s id).length
  column : ∀ id layers, kv.rows.get? id = some layers → ∀ p, p < (s id).length →
    G.Agree (pairsColumn layers 0 p) ((s id).getD p 0)

theorem represents_new (G : Geometry) : Represents G ({} : DenseKV α) fun _ => [] where
  absent _ _ := rfl
  fits _ _ h := by cases h
  column _ _ h := by cases h

/-! ### `pack` -/

theorem packRows_ok (hr : Represents G kv s) {layer : Nat} (hl : layer < G.layers)
    (component : Component) {width batch : Nat} {rows : List ((String × Nat) × Nat)}
    {packed : Tensor α} (hp : packed.Shaped batch G.heads width G.channels)
    (hread : ∀ r ∈ rows, r.1.2 ≠ 0 → (s r.1.1).length = r.1.2) (hle : ∀ r ∈ rows, r.1.2 ≤ width)
    (hn : (rows.map Prod.snd).Nodup) :
    ∃ t, kv.packRows layer component width rows packed = .ok t ∧
      t.Shaped batch G.heads width G.channels ∧
      Overlaid G s layer component width rows packed t := by
  induction rows generalizing packed with
  | nil => exact ⟨packed, rfl, hp, .nil packed⟩
  | cons r rows ih =>
    obtain ⟨⟨identity, count⟩, row⟩ := r
    rw [forall_mem_cons] at hread hle
    rw [map_cons, nodup_cons] at hn
    rw [packRows]
    by_cases hcount : count = 0
    · subst hcount
      obtain ⟨t, ht, hshape, hover⟩ := ih hp hread.2 hle.2 hn.2
      exact ⟨t, by rw [if_pos rfl, ht], hshape, hover.skip⟩
    have hlen : (s identity).length = count := hread.1 hcount
    -- a row with columns is there
    rcases hget : kv.rows.get? identity with - | layers
    · rw [hr.absent identity hget] at hlen
      exact absurd hlen.symm hcount
    have hfits := hr.fits identity layers hget
    rw [hlen] at hfits
    have hlt : layer < layers.length := hfits.length ▸ hl
    have hshape := hfits.shaped _ (getElem_mem hlt) component
    have htensor : kv.tensor identity layer component = .ok (component.of layers[layer]) := by
      simp only [tensor, hget, List.getElem?_eq_getElem hlt]
    have hwidth : width - (width - count) = count := by
      have : count ≤ width := hle.1
      omega
    obtain ⟨packed', hcopy, hshape', hcontent⟩ :=
      hp.copyColumns row (width - count) width (by rw [hwidth]; exact hshape)
        (Nat.sub_le _ _) le_rfl
    obtain ⟨t, ht, htshape, hover⟩ := ih hshape' hread.2 hle.2 hn.2
    refine ⟨t, ?_, htshape, hover.cons hn.1 ?_ hcount⟩
    · rw [if_neg hcount, htensor]
      show (if (component.of layers[layer]).columns ≠ count then _ else _) = _
      rw [if_neg (not_not.mpr hshape.columns)]
      simp only [hcopy, ht]
    · intro row' head channel column hh hd
      rw [hcontent row' head column channel hh hd]
      split_ifs with hin
      · have hp : column - (width - count) < (s identity).length := by omega
        have hcolumn := hr.column identity layers hget _ hp layer hl component head hh channel hd
        rw [pairsColumn_of_lt hlt] at hcolumn
        exact hcolumn
      · rfl

theorem readable_of_packRows (hr : Represents G kv s) {layer : Nat} (hl : layer < G.layers)
    {component : Component} {width : Nat} {rows : List ((String × Nat) × Nat)} {packed t : Tensor α}
    (h : kv.packRows layer component width rows packed = .ok t) :
    ∀ r ∈ rows, r.1.2 ≠ 0 → (s r.1.1).length = r.1.2 := by
  induction rows generalizing packed with
  | nil => nofun
  | cons r rows ih =>
    obtain ⟨⟨identity, count⟩, row⟩ := r
    rw [forall_mem_cons]
    rw [packRows] at h
    split_ifs at h with hcount
    · exact ⟨fun hne => absurd hcount hne, ih h⟩
    rcases hget : kv.rows.get? identity with - | layers
    · rw [tensor, hget] at h
      cases h
    have hfits := hr.fits identity layers hget
    have hlt : layer < layers.length := hfits.length ▸ hl
    simp only [tensor, hget, List.getElem?_eq_getElem hlt] at h
    change (if (component.of layers[layer]).columns ≠ count then _ else _) = _ at h
    split_ifs at h with hcolumns
    rw [(hfits.shaped _ (getElem_mem hlt) component).columns, not_not] at hcolumns
    split at h
    · cases h
    · exact ⟨fun _ => hcolumns, ih h⟩

theorem template_ok (hr : Represents G kv s) {rows : List (String × Nat)}
    (hsome : ∃ r ∈ rows, r.2 ≠ 0) (hread : s.Readable rows) :
    ∃ template, kv.template rows = .ok template := by
  rcases hfind : rows.find? fun r => decide (r.2 ≠ 0) with - | ⟨identity, count⟩
  · obtain ⟨r, hmem, hne⟩ := hsome
    exact absurd (decide_eq_true hne) (List.find?_eq_none.mp hfind r hmem)
  have hcount : count ≠ 0 := by simpa using List.find?_some hfind
  have hlen := hread _ (mem_of_find?_eq_some hfind) hcount
  rcases hget : kv.rows.get? identity with - | layers
  · rw [hr.absent identity hget] at hlen
    exact absurd hlen.symm hcount
  · refine ⟨layers, ?_⟩
    simp only [template, hfind, hget]

theorem template_fits (hr : Represents G kv s) {rows : List (String × Nat)}
    {template : List (Pair α)} (h : kv.template rows = .ok template) :
    ∃ identity, PairsFit G template 1 (s identity).length := by
  rw [DenseKV.template] at h
  split at h
  · cases h
  · next identity _ _ =>
    split at h
    · cases h
    · next layers hget =>
      cases h
      exact ⟨identity, hr.fits identity _ hget⟩

/-- **`pack` of the dense layout.** -/
theorem pack_packs (hr : Represents G kv s) {identities : List String} {lengths : List Nat}
    (hlen : identities.length = lengths.length) :
    Packs G s identities lengths (kv.pack identities lengths) := by
  rw [Packs, DenseKV.pack]
  rcases hmax : lengths.max? with - | - | n
  · exact ⟨_, rfl⟩
  · rfl
  obtain ⟨⟨r, hr', hwide⟩, hle⟩ := exists_wide hlen hmax
  have hsome : ∃ r ∈ identities.zip lengths, r.2 ≠ 0 := ⟨r, hr', hwide ▸ Nat.succ_ne_zero n⟩
  have hnodup : ((identities.zip lengths).zipIdx.map Prod.snd).Nodup := by
    rw [zipIdx_map_snd]
    exact nodup_range'
  by_cases hread : s.Readable (identities.zip lengths)
  · refine .inl ⟨hread, ?_⟩
    obtain ⟨template, htemplate⟩ := template_ok hr hsome hread
    obtain ⟨identity, hfits⟩ := template_fits hr htemplate
    rw [htemplate]
    show ∃ cache, packLayers template.length _ = .ok cache ∧ _
    rw [hfits.length]
    apply packLayers_shows
    intro layer hl component
    have hlt : layer < template.length := hfits.length ▸ hl
    rw [List.getElem?_eq_getElem hlt]
    obtain ⟨t, ht, hshape, hover⟩ := packRows_ok hr hl component
      ((hfits.shaped _ (getElem_mem hlt) component).zeros identities.length (n + 1))
      (fun r hr => hread r.1 (fst_mem_of_mem_zipIdx hr))
      (fun r hr => hle r.1 (fst_mem_of_mem_zipIdx hr)) hnodup
    exact ⟨t, ht, hshape, fun row head channel column hh hd hc =>
      hover.shown hread (fun _ _ _ _ => rfl) hh hd hc⟩
  · refine .inr ⟨hread, ?_⟩
    rcases htemplate : kv.template (identities.zip lengths) with error | template
    · exact ⟨error, rfl⟩
    obtain ⟨identity, hfits⟩ := template_fits hr htemplate
    have hlt : 0 < template.length := hfits.length ▸ G.layers_pos
    show ∃ error, packLayers template.length _ = .error error
    refine exists_error_of_not_ok fun cache hcache => hread ?_
    -- the first layer has read every row
    obtain ⟨data, -, hdata, hall⟩ := packLayers_eq_ok_iff.mp hcache
    have hfirst := hall 0 (hdata.symm ▸ hlt) .keys
    rw [List.getElem?_eq_getElem hlt] at hfirst
    intro r hr'
    obtain ⟨i, hi⟩ := exists_mem_zipIdx hr'
    exact readable_of_packRows hr G.layers_pos hfirst _ hi

/-! ### `release` -/

theorem Represents.release (hr : Represents G kv s) (identity : String) :
    Represents G (kv.release identity) (s.release identity) where
  absent id h := by
    rw [Columns.release]
    rw [DenseKV.release, get?_erase] at h
    split_ifs at h with hid
    · rw [hid, Function.update_self]
    · rw [Function.update_of_ne hid, hr.absent id h]
  fits id layers h := by
    rw [DenseKV.release, get?_erase] at h
    split_ifs at h with hid
    rw [Columns.release, Function.update_of_ne hid]
    exact hr.fits id layers h
  column id layers h := by
    rw [DenseKV.release, get?_erase] at h
    split_ifs at h with hid
    rw [Columns.release, Function.update_of_ne hid]
    exact hr.column id layers h

/-! ### `commit` -/

theorem Represents.set (hr : Represents G kv s) {identity : String} {layers : List (Pair α)}
    {columns : List (Column α)} (hfits : PairsFit G layers 1 columns.length)
    (hcolumn : ∀ p, p < columns.length → G.Agree (pairsColumn layers 0 p) (columns.getD p 0)) :
    Represents G { kv with rows := kv.rows.set identity layers }
      (Function.update s identity columns) where
  absent id h := by
    rw [get?_set] at h
    split_ifs at h with hid
    rw [Function.update_of_ne hid, hr.absent id h]
  fits id layers' h := by
    rw [get?_set] at h
    split_ifs at h with hid
    · cases h
      rw [hid, Function.update_self]
      exact hfits
    · rw [Function.update_of_ne hid]
      exact hr.fits id layers' h
  column id layers' h := by
    rw [get?_set] at h
    split_ifs at h with hid
    · cases h
      rw [hid, Function.update_self]
      exact hcolumn
    · rw [Function.update_of_ne hid]
      exact hr.column id layers' h

section

variable {batch past query row count added : Nat}

omit [Zero α] in
theorem compact_shaped {t : Tensor α}
    (h : t.Shaped batch G.heads (past + query) G.channels) (hrow : row < batch)
    (hcount : count ≤ past) (hadded : added ≤ query) :
    (compact t row past query count added).Shaped 1 G.heads (count + added) G.channels := by
  have hpast := h.slice hrow (Nat.sub_le past count) (Nat.le_add_right past query)
  have hnew := h.slice hrow (Nat.sub_le (past + query) added) le_rfl
  have hcat := hpast.cat hnew
  rwa [show past - (past - count) + (past + query - (past + query - added)) = count + added by
    omega] at hcat

omit [Zero α] in
theorem compact_get {t : Tensor α} (h : t.Shaped batch G.heads (past + query) G.channels)
    (hcount : count ≤ past) (head p channel : Nat) :
    (compact t row past query count added).get 0 head p channel =
      if p < count then t.get row head (past - count + p) channel
      else t.get row head (past + query - added + (p - count)) channel := by
  have hcolumns : (t.slice row (past - count) past).columns = count := by
    show min past t.columns - min (past - count) t.columns = count
    rw [h.columns]
    omega
  show (if p < _ then _ else _) = _
  rw [hcolumns]
  rfl

omit [Zero α] in
theorem compactLayers_ok {layers : List (CacheLayer α)} (h : ∀ layer ∈ layers, layer.dynamic) :
    compactLayers row past query count added layers = .ok (layers.map fun layer =>
      (compact layer.pair.1 row past query count added,
        compact layer.pair.2 row past query count added)) := by
  induction layers with
  | nil => rfl
  | cons layer layers ih =>
    rw [forall_mem_cons] at h
    rw [compactLayers, if_pos h.1, ih h.2]
    rfl

end

theorem Represents.commitRow (hr : Represents G kv s) {cache : DynamicCache α}
    {batch past query start added row : Nat} {identity : String}
    (hfits : cache.Fits G batch (past + query))
    (hx : ExtendsRow G s cache batch past query identity start added row) :
    Represents G
      { kv with rows := kv.rows.set identity (cache.layers.map fun layer =>
        (compact layer.pair.1 row past query start added,
          compact layer.pair.2 row past query start added)) }
      (s.append cache identity row (past + query - added) added) := by
  have hlen := Columns.length_append (s := s) cache identity row (past + query - added) added
  rw [hx.length, Columns.append, Function.update_self] at hlen
  have hlayer : ∀ layer ∈ cache.layers, ∀ component : Component,
      (component.of layer.pair).Shaped batch G.heads (past + query) G.channels :=
    fun layer hl => hfits.shaped _ (mem_map_of_mem hl)
  have hof : ∀ (layer : CacheLayer α) (component : Component),
      component.of (compact layer.pair.1 row past query start added,
        compact layer.pair.2 row past query start added) =
      compact (component.of layer.pair) row past query start added := by
    intro layer component
    cases component
    all_goals rfl
  apply hr.set
  · rw [hlen]
    refine ⟨?_, fun pair hpair component => ?_⟩
    · have := hfits.length
      rwa [length_map] at this ⊢
    · obtain ⟨layer, hl, rfl⟩ := mem_map.mp hpair
      rw [hof]
      exact compact_shaped (hlayer layer hl component) hx.row_lt hx.start_le hx.added_le
  · intro p hp layer hl component head hh channel hd
    have hlt : layer < cache.layers.length := by
      have := hfits.length
      rw [length_map] at this
      omega
    have hshape := hlayer _ (getElem_mem hlt) component
    rw [pairsColumn_of_lt (by simpa using hlt), getElem_map, hof,
      compact_get hshape hx.start_le]
    have hcache : ∀ column, cache.column row column layer component head channel =
        (component.of cache.layers[layer].pair).get row head column channel := by
      intro column
      rw [DynamicCache.column, pairsColumn_of_lt (by simpa using hlt), getElem_map]
    split_ifs with hpast
    · rw [← hcache, getD_append _ _ _ _ (hx.length ▸ hpast)]
      exact hx.past p hpast layer hl component head hh channel hd
    · rw [← hcache, getD_append_right _ _ _ _ (by rw [hx.length]; omega), hx.length,
        getD_eq_getElem _ _ (by simpa using by omega)]
      simp

/-- **`commit` of the dense layout.** -/
theorem Represents.commitRows (hr : Represents G kv s) {cache : DynamicCache α}
    {batch past query : Nat} {rows : List ((String × Nat × Nat) × Nat)}
    (hx : Extends G s cache batch past query rows)
    (hdynamic : ∀ layer ∈ cache.layers, layer.dynamic) :
    ∃ kv', DenseKV.commitRows cache past query rows kv = (none, kv') ∧
      Represents G kv' (s.commitRows cache past query rows) := by
  induction rows generalizing kv s with
  | nil => exact ⟨kv, rfl, hr⟩
  | cons r rows ih =>
    obtain ⟨⟨identity, start, added⟩, row⟩ := r
    have hrow := hr.commitRow hx.fits (hx.each _ mem_cons_self)
    obtain ⟨kv', heq, hr'⟩ := ih hrow hx.tail
    refine ⟨kv', ?_, hr'⟩
    rw [DenseKV.commitRows, compactLayers_ok hdynamic]
    exact heq

end DenseKV

end Hqsb
