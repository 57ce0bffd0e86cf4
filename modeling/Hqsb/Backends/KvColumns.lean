/-
Hqsb/Backends/KvColumns.lean

What a device store is for: every request has a list of cached columns.

A `Column` is what the model cached for one position, in every layer.  The
abstract store maps requests to their columns; `pack` shows each row's columns
aligned to the right, `commit` appends the columns a forward computed, `release`
forgets a row.  Two layouts that both represent the same store therefore pack the
same cache (`Packs.agree`), whatever they do with their storage.

Columns are compared on the layers, heads and channels of the model's geometry
only; outside of it a tensor has no content.
-/
import Hqsb.Lib.Zip
import Hqsb.Backends.DeviceKv

namespace Hqsb

open Lib List

/-! ### Columns -/

/-- The keys and values of one position. -/
abbrev Column (α : Type*) := (layer : Nat) → Component → (head channel : Nat) → α

/-- The shape of what one model caches. -/
structure Geometry where
  layers : Nat
  heads : Nat
  channels : Nat
  layers_pos : 0 < layers

variable {α : Type*}

/-- Equality on everything a model of this geometry caches. -/
def Geometry.Agree (G : Geometry) (f g : Column α) : Prop :=
  ∀ layer, layer < G.layers → ∀ component head, head < G.heads → ∀ channel, channel < G.channels →
    f layer component head channel = g layer component head channel

namespace Geometry

variable {G : Geometry} {f g k : Column α}

theorem Agree.refl (f : Column α) : G.Agree f f := fun _ _ _ _ _ _ _ => rfl

theorem Agree.symm (h : G.Agree f g) : G.Agree g f :=
  fun l hl c hd hh d hc => (h l hl c hd hh d hc).symm

theorem Agree.trans (h : G.Agree f g) (h' : G.Agree g k) : G.Agree f k :=
  fun l hl c hd hh d hc => (h l hl c hd hh d hc).trans (h' l hl c hd hh d hc)

end Geometry

def pairsColumn [Zero α] (pairs : List (Pair α)) (row column : Nat) : Column α :=
  fun layer component head channel =>
    match pairs[layer]? with
    | none => 0
    | some pair => (component.of pair).get row head column channel

/-- Column `column` of row `row` of a cache. -/
def DynamicCache.column [Zero α] (cache : DynamicCache α) (row column : Nat) : Column α :=
  pairsColumn (cache.layers.map CacheLayer.pair) row column

/-- As many layers as the model, all tensors of one shape. -/
structure PairsFit (G : Geometry) (pairs : List (Pair α)) (rows columns : Nat) : Prop where
  length : pairs.length = G.layers
  shaped : ∀ pair ∈ pairs, ∀ component : Component,
    (component.of pair).Shaped rows G.heads columns G.channels

theorem pairsColumn_of_lt [Zero α] {pairs : List (Pair α)} {layer : Nat} (h : layer < pairs.length)
    (row column : Nat) (component : Component) (head channel : Nat) :
    pairsColumn pairs row column layer component head channel =
      (component.of pairs[layer]).get row head column channel := by
  rw [pairsColumn, List.getElem?_eq_getElem h]

theorem pairsColumn_cons_succ [Zero α] (pair : Pair α) (pairs : List (Pair α))
    (row column layer : Nat) :
    pairsColumn (pair :: pairs) row column (layer + 1) = pairsColumn pairs row column layer := rfl

theorem pairsColumn_set [Zero α] {pairs : List (Pair α)} {index : Nat} (h : index < pairs.length)
    (pair : Pair α) (row column layer : Nat) (component : Component) (head channel : Nat) :
    pairsColumn (pairs.set index pair) row column layer component head channel =
      if layer = index then (component.of pair).get row head column channel
      else pairsColumn pairs row column layer component head channel := by
  simp only [pairsColumn, List.getElem?_set, eq_comm (a := index)]
  split_ifs
  all_goals rfl

theorem DynamicCache.column_ofData [Zero α] (data : List (Pair α)) (row column : Nat) :
    (DynamicCache.ofData data).column row column = pairsColumn data row column := by
  rw [DynamicCache.column, DynamicCache.ofData, map_map]
  congr 1
  exact map_id data

/-- A cache of the model over `rows` rows and `columns` positions. -/
def DynamicCache.Fits (cache : DynamicCache α) (G : Geometry) (rows columns : Nat) : Prop :=
  PairsFit G (cache.layers.map CacheLayer.pair) rows columns

/-- Two caches with the same contents. -/
structure SameCache (c c' : DynamicCache α) : Prop where
  length : c.layers.length = c'.layers.length
  same : ∀ layer (h : layer < c.layers.length) (h' : layer < c'.layers.length) (component : Component),
    Tensor.Same (component.of c.layers[layer].pair) (component.of c'.layers[layer].pair)

variable {G : Geometry} {identities : List String} {lengths : List Nat}

theorem sameCache_of_columns [Zero α] {c c' : DynamicCache α} {rows columns : Nat}
    (hc : c.Fits G rows columns) (hc' : c'.Fits G rows columns)
    (h : ∀ row, row < rows → ∀ column, column < columns →
      G.Agree (c.column row column) (c'.column row column)) : SameCache c c' := by
  have hlen := hc.length
  have hlen' := hc'.length
  rw [length_map] at hlen hlen'
  refine ⟨hlen.trans hlen'.symm, fun layer hl hl' component => ?_⟩
  have hmem : c.layers[layer].pair ∈ c.layers.map CacheLayer.pair :=
    mem_map_of_mem (getElem_mem hl)
  have hmem' : c'.layers[layer].pair ∈ c'.layers.map CacheLayer.pair :=
    mem_map_of_mem (getElem_mem hl')
  apply (hc.shaped _ hmem component).same (hc'.shaped _ hmem' component)
  intro row head column channel hrow hhead hcolumn hchannel
  have hagree := h row hrow column hcolumn layer (hlen ▸ hl) component head hhead channel hchannel
  rw [DynamicCache.column, DynamicCache.column, pairsColumn_of_lt (by simpa using hl),
    pairsColumn_of_lt (by simpa using hl')] at hagree
  simpa only [getElem_map] using hagree

/-! ### The abstract store -/

/-- The cached columns of every request. -/
abbrev Columns (α : Type*) := String → List (Column α)

/-- Column `column` of the row of `width` columns that ends in `columns`. -/
def aligned [Zero α] (columns : List (Column α)) (width column : Nat) : Column α :=
  if width - columns.length ≤ column then columns.getD (column - (width - columns.length)) 0 else 0

namespace Columns

variable (s : Columns α)

/-- The requests that are asked for something are as long as the caller believes. -/
def Readable (rows : List (String × Nat)) : Prop := ∀ r ∈ rows, r.2 ≠ 0 → (s r.1).length = r.2

/-- What row `row` of a packed batch shows: its columns, or zeros when nothing is asked for. -/
def shown [Zero α] (rows : List (String × Nat)) (width row column : Nat) : Column α :=
  match rows[row]? with
  | none => 0
  | some (identity, count) => if count = 0 then 0 else aligned (s identity) width column

/-- The columns of a row after `added` new ones of a cache, which start at column `source`. -/
def append [Zero α] (cache : DynamicCache α) (identity : String) (row source added : Nat) :
    Columns α :=
  Function.update s identity
    (s identity ++ (List.range added).map fun j => cache.column row (source + j))

/-- The loop of `commit`. -/
def commitRows [Zero α] (cache : DynamicCache α) (past query : Nat) :
    List ((String × Nat × Nat) × Nat) → Columns α → Columns α
  | [], s => s
  | ((identity, _, added), row) :: rest, s =>
    commitRows cache past query rest (s.append cache identity row (past + query - added) added)

def release (identity : String) : Columns α := Function.update s identity []

variable {s}

theorem length_append [Zero α] (cache : DynamicCache α) (identity : String)
    (row source added : Nat) :
    (s.append cache identity row source added identity).length = (s identity).length + added := by
  rw [append, Function.update_self, List.length_append, List.length_map, List.length_range]

theorem append_of_ne [Zero α] (cache : DynamicCache α) {identity id : String} (h : id ≠ identity)
    (row source added : Nat) : s.append cache identity row source added id = s id :=
  Function.update_of_ne h _ _

theorem append_getD_of_lt [Zero α] (cache : DynamicCache α) (identity : String)
    (row source added : Nat) {p : Nat} (hp : p < (s identity).length) :
    (s.append cache identity row source added identity).getD p 0 = (s identity).getD p 0 := by
  rw [append, Function.update_self, getD_append _ _ _ _ hp]

theorem append_getD_of_ge [Zero α] (cache : DynamicCache α) (identity : String)
    (row source : Nat) {added p : Nat} (hp : (s identity).length ≤ p)
    (hlt : p < (s identity).length + added) :
    (s.append cache identity row source added identity).getD p 0 =
      cache.column row (source + (p - (s identity).length)) := by
  rw [append, Function.update_self, getD_append_right _ _ _ _ hp,
    getD_eq_getElem _ _ (by simpa using by omega)]
  simp

variable [Zero α] {rows : List (String × Nat)} {identity : String} {row count width p : Nat}

theorem shown_getD (hrow : rows[row]? = some (identity, count)) (hlen : (s identity).length = count)
    (hp : p < count) :
    s.shown rows width row (width - count + p) = (s identity).getD p 0 := by
  have hne : count ≠ 0 := Nat.ne_zero_of_lt hp
  simp only [shown, hrow, if_neg hne, aligned, hlen]
  rw [if_pos (Nat.le_add_right _ _), Nat.add_sub_cancel_left]

end Columns

/-! ### What a legal `commit` is given -/

section

variable [Zero α] {G : Geometry} {s : Columns α} {cache : DynamicCache α} {batch past query : Nat}

variable (G s cache)

/-- One row of a cache that continues what `pack` returned: the columns the row had end right
before column `past`. -/
structure ExtendsRow
    (batch past query : Nat) (identity : String) (start added row : Nat) : Prop where
  row_lt : row < batch
  length : (s identity).length = start
  start_le : start ≤ past
  added_le : added ≤ query
  past : ∀ p, p < start → G.Agree (cache.column row (past - start + p)) ((s identity).getD p 0)

/-- A cache that continues what `pack` returned for distinct rows. -/
structure Extends (batch past query : Nat)
    (rows : List ((String × Nat × Nat) × Nat)) : Prop where
  fits : cache.Fits G batch (past + query)
  nodup : (rows.map fun r => r.1.1).Nodup
  each : ∀ r ∈ rows, ExtendsRow G s cache batch past query r.1.1 r.1.2.1 r.1.2.2 r.2

variable {G s cache}

/-- Committing the first row does not touch what the cache continues for the others. -/
theorem Extends.tail {identity : String} {start added row : Nat}
    {rows : List ((String × Nat × Nat) × Nat)}
    (h : Extends G s cache batch past query (((identity, start, added), row) :: rows)) :
    Extends G (s.append cache identity row (past + query - added) added) cache batch past query
      rows := by
  have hn := h.nodup
  rw [map_cons, nodup_cons] at hn
  refine ⟨h.fits, hn.2, fun r hr => ?_⟩
  have hne : r.1.1 ≠ identity := by
    intro hid
    exact hn.1 (mem_map.mpr ⟨r, hr, hid⟩)
  have hrow := h.each r (.tail _ hr)
  refine ⟨hrow.row_lt, ?_, hrow.start_le, hrow.added_le, ?_⟩
  · rw [Columns.append_of_ne cache hne]
    exact hrow.length
  · rw [Columns.append_of_ne cache hne]
    exact hrow.past

end

/-! ### The loop over the rows of a batch -/

section

variable [Zero α] {G : Geometry} {s : Columns α} {layer : Nat} {component : Component} {width : Nat}

/-- `t` is `packed` with the rows written over it, each at the right end of its own line. -/
structure Overlaid (G : Geometry) (s : Columns α) (layer : Nat) (component : Component) (width : Nat)
    (rows : List ((String × Nat) × Nat)) (packed t : Tensor α) : Prop where
  written : ∀ r ∈ rows, r.1.2 ≠ 0 → ∀ head channel column, head < G.heads → channel < G.channels →
    width - r.1.2 ≤ column → column < width →
    t.get r.2 head column channel =
      (s r.1.1).getD (column - (width - r.1.2)) 0 layer component head channel
  kept : ∀ row head channel column, head < G.heads → channel < G.channels → column < width →
    (∀ r ∈ rows, r.1.2 ≠ 0 → r.2 = row → column < width - r.1.2) →
    t.get row head column channel = packed.get row head column channel

theorem Overlaid.nil (packed : Tensor α) : Overlaid G s layer component width [] packed packed :=
  ⟨nofun, fun _ _ _ _ _ _ _ _ => rfl⟩

variable {packed t : Tensor α} {row : Nat}

theorem Overlaid.skip {rows : List ((String × Nat) × Nat)} {identity : String}
    (h : Overlaid G s layer component width rows packed t) :
    Overlaid G s layer component width (((identity, 0), row) :: rows) packed t where
  written := by
    rw [forall_mem_cons]
    exact ⟨fun hne => absurd rfl hne, h.written⟩
  kept row' head channel column hh hd hc hout :=
    h.kept row' head channel column hh hd hc fun r hr => hout r (.tail _ hr)

/-- One row is written, then the others, which have other lines. -/
theorem Overlaid.cons {packed' : Tensor α} {rows : List ((String × Nat) × Nat)}
    {identity : String} {count : Nat} (hrow : row ∉ rows.map Prod.snd)
    (hwrite : ∀ row' head channel column, head < G.heads → channel < G.channels →
      packed'.get row' head column channel =
        if row' = row ∧ width - count ≤ column ∧ column < width then
          (s identity).getD (column - (width - count)) 0 layer component head channel
        else packed.get row' head column channel) (hne : count ≠ 0)
    (h : Overlaid G s layer component width rows packed' t) :
    Overlaid G s layer component width (((identity, count), row) :: rows) packed t where
  written := by
    rw [forall_mem_cons]
    refine ⟨fun _ head channel column hh hd hle hlt => ?_, h.written⟩
    -- the rest of the loop leaves this line alone
    rw [h.kept row head channel column hh hd hlt fun r hr _ he =>
      absurd (mem_map.mpr ⟨r, hr, he⟩) hrow, hwrite row head channel column hh hd,
      if_pos ⟨rfl, hle, hlt⟩]
  kept row' head channel column hh hd hc hout := by
    rw [forall_mem_cons] at hout
    rw [h.kept row' head channel column hh hd hc hout.2, hwrite row' head channel column hh hd,
      if_neg]
    rintro ⟨rfl, hle, -⟩
    exact absurd (hout.1 hne rfl) (Nat.not_lt.mpr hle)

/-- Written over zeros, the rows show what the store holds. -/
theorem Overlaid.shown {rows : List (String × Nat)}
    (h : Overlaid G s layer component width rows.zipIdx packed t) (hread : s.Readable rows)
    (hzero : ∀ row head column channel, packed.get row head column channel = 0)
    {head channel column : Nat} (hh : head < G.heads) (hd : channel < G.channels)
    (hc : column < width) :
    t.get row head column channel = s.shown rows width row column layer component head channel := by
  have hat : ∀ r ∈ rows.zipIdx, r.2 = row → rows[row]? = some r.1 := by
    rintro r hr rfl
    exact mem_zipIdx_iff_getElem?.mp hr
  rw [Columns.shown]
  rcases hget : rows[row]? with - | ⟨identity, count⟩
  · rw [h.kept row head channel column hh hd hc, hzero]
    · rfl
    · intro r hr _ he
      rw [hat r hr he] at hget
      cases hget
  · have hmem : ((identity, count), row) ∈ rows.zipIdx := mem_zipIdx_iff_getElem?.mpr hget
    -- the row at this line is the only one there
    have honly : ∀ r ∈ rows.zipIdx, r.2 = row → r.1 = (identity, count) := by
      intro r hr he
      have hr' := hat r hr he
      rw [hget] at hr'
      exact (Option.some.inj hr').symm
    simp only
    split_ifs with hcount
    · rw [h.kept row head channel column hh hd hc, hzero]
      · rfl
      · intro r hr hne he
        rw [honly r hr he] at hne
        exact absurd hcount hne
    · have hlen := hread _ (mem_of_getElem? hget) hcount
      simp only at hlen
      rw [aligned, hlen]
      split_ifs with hle
      · exact h.written _ hmem hcount head channel column hh hd hle hc
      · rw [h.kept row head channel column hh hd hc, hzero]
        · rfl
        · intro r hr _ he
          rw [honly r hr he]
          exact Nat.lt_of_not_le hle

theorem packLayers_shows {packed : Nat → Component → Except KvError (Tensor α)} {batch : Nat}
    {shown : Nat → Nat → Column α}
    (h : ∀ layer, layer < G.layers → ∀ component, ∃ t, packed layer component = .ok t ∧
      t.Shaped batch G.heads width G.channels ∧
      ∀ row head column channel, head < G.heads → channel < G.channels → column < width →
        t.get row head column channel = shown row column layer component head channel) :
    ∃ cache, packLayers G.layers packed = .ok cache ∧ cache.Fits G batch width ∧
      ∀ row, row < batch → ∀ column, column < width →
        G.Agree (cache.column row column) (shown row column) := by
  rcases hp : packLayers G.layers packed with error | cache
  · obtain ⟨layer, hl, component, he⟩ := packLayers_error hp
    obtain ⟨t, ht, -⟩ := h layer hl component
    rw [ht] at he
    cases he
  obtain ⟨data, rfl, hlen, hdata⟩ := packLayers_eq_ok_iff.mp hp
  refine ⟨_, rfl, ⟨?_, ?_⟩, ?_⟩
  · simpa [DynamicCache.ofData] using hlen
  · rw [DynamicCache.ofData, map_map, show data.map (CacheLayer.pair ∘ fun pair =>
      { pair := pair }) = data from map_id data]
    intro pair hpair component
    obtain ⟨layer, hl, rfl⟩ := mem_iff_getElem.mp hpair
    obtain ⟨t, ht, hshape, -⟩ := h layer (hlen ▸ hl) component
    cases ht.symm.trans (hdata layer hl component)
    exact hshape
  · intro row _ column hc layer hl component head hh channel hd
    have hl' : layer < data.length := hlen ▸ hl
    obtain ⟨t, ht, -, hget⟩ := h layer hl component
    cases ht.symm.trans (hdata layer hl' component)
    rw [DynamicCache.column_ofData, pairsColumn_of_lt hl']
    exact hget row head column channel hh hd hc

end

/-! ### What a faithful `pack` returns -/

variable [Zero α]

/-- `pack` of a layout that represents `s`. -/
def Packs (G : Geometry) (s : Columns α) (identities : List String) (lengths : List Nat)
    (result : Except KvError (DynamicCache α)) : Prop :=
  match lengths.max? with
  | none => ∃ error, result = .error error
  | some 0 => result = .ok {}
  | some width =>
    (s.Readable (identities.zip lengths) ∧ ∃ cache, result = .ok cache ∧
      cache.Fits G identities.length width ∧
      ∀ row, row < identities.length → ∀ column, column < width →
        G.Agree (cache.column row column) (s.shown (identities.zip lengths) width row column)) ∨
    ¬ s.Readable (identities.zip lengths) ∧ ∃ error, result = .error error

theorem exists_wide (hlen : identities.length = lengths.length) {width : Nat}
    (hmax : lengths.max? = some width) :
    (∃ r ∈ identities.zip lengths, r.2 = width) ∧ ∀ r ∈ identities.zip lengths, r.2 ≤ width := by
  obtain ⟨hmem, hle⟩ := List.max?_eq_some_iff.mp hmax
  obtain ⟨i, hi, hwide⟩ := mem_iff_getElem.mp hmem
  refine ⟨⟨(identities[i], lengths[i]), ?_, hwide⟩, fun r hr => hle _ (of_mem_zip hr).2⟩
  exact mem_iff_getElem.mpr ⟨i, by simpa using ⟨hlen ▸ hi, hi⟩, by simp⟩

/-- Both raise, or both return the same contents. -/
def PackAgrees : Except KvError (DynamicCache α) → Except KvError (DynamicCache α) → Prop
  | .ok c, .ok c' => SameCache c c'
  | .error _, .error _ => True
  | _, _ => False

theorem Packs.ok {s : Columns α} {r : Except KvError (DynamicCache α)}
    (h : Packs G s identities lengths r) (hne : lengths ≠ [])
    (hread : s.Readable (identities.zip lengths)) : ∃ cache, r = .ok cache := by
  rw [Packs] at h
  split at h
  · next hmax => exact absurd (List.max?_eq_none_iff.mp hmax) hne
  · exact ⟨_, h⟩
  · rcases h with ⟨-, cache, hcache, -⟩ | ⟨hno, -⟩
    · exact ⟨cache, hcache⟩
    · exact absurd hread hno

/-- **Two layouts of one store pack the same cache.** -/
theorem Packs.agree {s : Columns α} {r r' : Except KvError (DynamicCache α)}
    (h : Packs G s identities lengths r) (h' : Packs G s identities lengths r') :
    PackAgrees r r' := by
  rw [Packs] at h h'
  split at h
  · -- nothing was asked for
    next hmax =>
    rw [hmax] at h'
    obtain ⟨e, rfl⟩ := h
    obtain ⟨e', rfl⟩ := h'
    trivial
  · next hmax =>
    rw [hmax] at h'
    subst h h'
    exact ⟨rfl, nofun⟩
  · next width hne hmax =>
    simp only [hmax] at h'
    rcases h with ⟨hread, c, rfl, hfit, hshow⟩ | ⟨hread, e, rfl⟩
    · rcases h' with ⟨-, c', rfl, hfit', hshow'⟩ | ⟨hno, -⟩
      · apply sameCache_of_columns hfit hfit'
        intro row hrow column hcolumn
        exact (hshow row hrow column hcolumn).trans (hshow' row hrow column hcolumn).symm
      · exact absurd hread hno
    · rcases h' with ⟨hyes, -⟩ | ⟨-, e', rfl⟩
      · exact absurd hyes hread
      · trivial

end Hqsb
