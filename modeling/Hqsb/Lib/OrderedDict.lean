/-
Hqsb/Lib/OrderedDict.lean

Insertion-ordered dictionaries: finite maps that remember the order in which
their keys were first bound.  Rebinding a key keeps its place, erasing a key and
binding it again moves it to the end.

The keys carry their distinctness as a field, so two bindings of one key cannot
be built.  Everything later proofs need is read off through `get?`:

    (d.set k v).get? k' = if k' = k then some v else d.get? k'
    (d.erase k).get? k' = if k' = k then none   else d.get? k'

together with the membership lemmas for `keys` and `values` and the effect of
each operation on a sum over the values.
-/
import Mathlib

namespace Lib

open List

/-- A dictionary with its bindings in insertion order. -/
structure OrderedDict (κ ν : Type*) where
  entries : List (κ × ν)
  nodup : (entries.map Prod.fst).Nodup

namespace OrderedDict

variable {κ ν : Type*}

/-- The dictionary without bindings. -/
def empty : OrderedDict κ ν := ⟨[], nodup_nil⟩

def keys (d : OrderedDict κ ν) : List κ := d.entries.map Prod.fst

def values (d : OrderedDict κ ν) : List ν := d.entries.map Prod.snd

variable [DecidableEq κ]

/-- The value bound to `k`, if there is one. -/
def get? (d : OrderedDict κ ν) (k : κ) : Option ν :=
  (d.entries.find? fun e => decide (e.1 = k)).map Prod.snd

/-- Bind `k` to `v`: in place when `k` is bound, at the end otherwise. -/
def set (d : OrderedDict κ ν) (k : κ) (v : ν) : OrderedDict κ ν :=
  if h : k ∈ d.keys then
    ⟨d.entries.map fun e => if e.1 = k then (k, v) else e, by
      have hfst : ∀ e : κ × ν, (if e.1 = k then (k, v) else e).1 = e.1 := by
        intro e; split_ifs with he
        · exact he.symm
        · rfl
      simpa only [map_map, Function.comp_def, hfst] using d.nodup⟩
  else
    ⟨d.entries ++ [(k, v)], by
      rw [map_append, map_singleton, ← concat_eq_append]
      exact d.nodup.concat h⟩

/-- Remove the binding of `k`. -/
def erase (d : OrderedDict κ ν) (k : κ) : OrderedDict κ ν :=
  ⟨d.entries.filter fun e => decide (e.1 ≠ k),
    d.nodup.sublist (filter_sublist.map Prod.fst)⟩

omit [DecidableEq κ] in
def mapValues (d : OrderedDict κ ν) (f : ν → ν) : OrderedDict κ ν :=
  ⟨d.entries.map fun e => (e.1, f e.2), by
    rw [map_map]
    exact d.nodup⟩

/-! ### Looking up -/

variable (d : OrderedDict κ ν) {k : κ} {v : ν}

omit [DecidableEq κ] in
theorem nodup_keys : d.keys.Nodup := d.nodup

@[simp] theorem get?_empty (k : κ) : (empty : OrderedDict κ ν).get? k = none := rfl

omit [DecidableEq κ] in
@[simp] theorem keys_empty : (empty : OrderedDict κ ν).keys = [] := rfl

omit [DecidableEq κ] in
@[simp] theorem values_empty : (empty : OrderedDict κ ν).values = [] := rfl

omit [DecidableEq κ] in
theorem entries_inj {w : ν} (hv : (k, v) ∈ d.entries) (hw : (k, w) ∈ d.entries) : v = w := by
  have h := inj_on_of_nodup_map d.nodup hv hw rfl
  exact (Prod.mk.inj h).2

theorem get?_eq_some_iff : d.get? k = some v ↔ (k, v) ∈ d.entries := by
  constructor
  · intro h
    obtain ⟨e, he, rfl⟩ := Option.map_eq_some_iff.mp h
    have hk : e.1 = k := by simpa using List.find?_some he
    rw [← hk]
    exact mem_of_find?_eq_some he
  · intro h
    rcases hf : d.entries.find? (fun e => decide (e.1 = k)) with - | e
    · have := List.find?_eq_none.mp hf _ h
      simp at this
    · have hk : e.1 = k := by simpa using List.find?_some hf
      have he : (k, e.2) ∈ d.entries := by
        rw [← hk]; exact mem_of_find?_eq_some hf
      rw [get?, hf, Option.map_some]
      rw [d.entries_inj he h]

theorem mem_keys_iff : k ∈ d.keys ↔ ∃ v, d.get? k = some v := by
  simp only [get?_eq_some_iff, keys, mem_map, Prod.exists, exists_and_right, exists_eq_right]

theorem mem_keys_of_get? {d : OrderedDict κ ν} (h : d.get? k = some v) :
    k ∈ d.keys := d.mem_keys_iff.mpr ⟨v, h⟩

theorem get?_eq_none_iff : d.get? k = none ↔ k ∉ d.keys := by
  rw [mem_keys_iff, Option.eq_none_iff_forall_ne_some]
  push Not
  rfl

theorem isSome_get?_iff : (d.get? k).isSome ↔ k ∈ d.keys := by
  rw [mem_keys_iff, Option.isSome_iff_exists]

theorem mem_values_iff : v ∈ d.values ↔ ∃ k, d.get? k = some v := by
  simp only [get?_eq_some_iff, values, mem_map, Prod.exists, exists_eq_right]

/-! ### Binding and erasing -/

theorem get?_set (k : κ) (v : ν) (k' : κ) :
    (d.set k v).get? k' = if k' = k then some v else d.get? k' := by
  ext w
  rw [get?_eq_some_iff]
  by_cases hk : k ∈ d.keys
  · rw [set, dif_pos hk]
    rw [mem_map, Prod.exists]
    constructor
    · rintro ⟨a, b, hab, he⟩
      split_ifs at he with ha
      · cases he
        simp
      · cases he
        rw [if_neg ha]
        exact d.get?_eq_some_iff.mpr hab
    · split_ifs with hk'
      · rintro h
        cases h
        obtain ⟨u, hu⟩ := d.mem_keys_iff.mp hk
        exact ⟨k, u, d.get?_eq_some_iff.mp hu, by rw [if_pos rfl, hk']⟩
      · intro h
        exact ⟨k', w, d.get?_eq_some_iff.mp h, by rw [if_neg hk']⟩
  · rw [set, dif_neg hk]
    rw [mem_append, mem_singleton, Prod.mk.injEq]
    split_ifs with hk'
    · subst hk'
      constructor
      · rintro (h | ⟨-, rfl⟩)
        · exact absurd (mem_keys_of_get? (d.get?_eq_some_iff.mpr h)) hk
        · rfl
      · intro h
        exact .inr ⟨rfl, (Option.some.inj h).symm⟩
    · rw [get?_eq_some_iff]
      exact or_iff_left fun h => hk' h.1

@[simp] theorem get?_set_self (k : κ) (v : ν) :
    (d.set k v).get? k = some v := by rw [get?_set, if_pos rfl]

theorem get?_set_of_ne {k' : κ} (v : ν) (h : k' ≠ k) :
    (d.set k v).get? k' = d.get? k' := by rw [get?_set, if_neg h]

theorem get?_erase (k k' : κ) : (d.erase k).get? k' = if k' = k then none else d.get? k' := by
  ext w
  rw [get?_eq_some_iff]
  rw [erase, mem_filter, decide_eq_true_eq]
  split_ifs with hk'
  · simp [hk']
  · rw [get?_eq_some_iff]
    exact and_iff_left hk'

@[simp] theorem get?_erase_self (k : κ) : (d.erase k).get? k = none := by
  rw [get?_erase, if_pos rfl]

theorem keys_set_of_mem {d : OrderedDict κ ν} (v : ν) (h : k ∈ d.keys) :
    (d.set k v).keys = d.keys := by
  rw [set, dif_pos h, keys, map_map]
  refine map_congr_left fun e _ => ?_
  rw [Function.comp_apply]
  split_ifs with he
  · exact he.symm
  · rfl

theorem keys_set_of_not_mem {d : OrderedDict κ ν} (v : ν) (h : k ∉ d.keys) :
    (d.set k v).keys = d.keys ++ [k] := by
  rw [set, dif_neg h, keys, keys, map_append, map_singleton]

@[simp] theorem mem_keys_set (k : κ) (v : ν) (k' : κ) :
    k' ∈ (d.set k v).keys ↔ k' = k ∨ k' ∈ d.keys := by
  rw [← isSome_get?_iff, ← isSome_get?_iff, get?_set]
  split_ifs with h <;> simp [h]

@[simp] theorem mem_keys_erase (k k' : κ) :
    k' ∈ (d.erase k).keys ↔ k' ≠ k ∧ k' ∈ d.keys := by
  rw [← isSome_get?_iff, ← isSome_get?_iff, get?_erase]
  split_ifs with h <;> simp [h]

theorem erase_of_not_mem {d : OrderedDict κ ν} (h : k ∉ d.keys) : d.erase k = d := by
  obtain ⟨l, hl⟩ := d
  have hrest : (l.filter fun e => decide (e.1 ≠ k)) = l := by
    refine filter_eq_self.mpr fun e he => ?_
    have : e.1 ≠ k := fun hk => h (mem_map.mpr ⟨e, he, hk⟩)
    simpa using this
  simp only [erase, hrest]

/-- What a key was rebound to does not matter once it is erased. -/
theorem erase_set (k : κ) (v : ν) : (d.set k v).erase k = d.erase k := by
  have hentries : ((d.set k v).erase k).entries = (d.erase k).entries := by
    simp only [erase, set]
    split_ifs with hk
    · simp only
      induction d.entries with
      | nil => rfl
      | cons e l ih =>
        by_cases he : e.1 = k
        · simpa [he] using ih
        · simpa [he] using ih
    · simp
  generalize (d.set k v).erase k = l at hentries
  obtain ⟨l, hl⟩ := l
  simp only at hentries
  subst hentries
  rfl

theorem entries_set_of_mem {d : OrderedDict κ ν} (v : ν) (h : k ∈ d.keys) :
    (d.set k v).entries = d.entries.map fun e => if e.1 = k then (k, v) else e := by
  rw [set, dif_pos h]

theorem entries_set_of_not_mem {d : OrderedDict κ ν} (v : ν) (h : k ∉ d.keys) :
    (d.set k v).entries = d.entries ++ [(k, v)] := by
  rw [set, dif_neg h]

/-- Rebinding a key twice is rebinding it once. -/
theorem set_set (k : κ) (v w : ν) : (d.set k v).set k w = d.set k w := by
  have hentries : ((d.set k v).set k w).entries = (d.set k w).entries := by
    rw [entries_set_of_mem w ((d.mem_keys_set k v k).mpr (.inl rfl))]
    by_cases hk : k ∈ d.keys
    · rw [entries_set_of_mem v hk, entries_set_of_mem w hk, map_map]
      refine map_congr_left fun e _ => ?_
      by_cases he : e.1 = k
      · simp only [Function.comp_apply, if_pos he, if_true]
      · rw [Function.comp_apply, if_neg he]
    · rw [entries_set_of_not_mem v hk, entries_set_of_not_mem w hk, map_append,
        map_singleton, if_pos rfl]
      congr 1
      refine (map_congr_left fun e he => ?_).trans (map_id d.entries)
      have hne : e.1 ≠ k := fun h => hk (mem_map.mpr ⟨e, he, h⟩)
      rw [if_neg hne, id]
  generalize (d.set k v).set k w = l at hentries
  obtain ⟨l, hl⟩ := l
  simp only at hentries
  subst hentries
  rfl

/-- The entries are the one of a bound key and those left when it is erased. -/
theorem entries_perm {d : OrderedDict κ ν} (h : d.get? k = some v) :
    d.entries.Perm ((k, v) :: (d.erase k).entries) := by
  obtain ⟨l, hl⟩ := d
  have hmem := (get?_eq_some_iff _).mp h
  simp only at hmem
  clear h
  simp only [erase]
  induction l with
  | nil => cases hmem
  | cons e l ih =>
    obtain ⟨hnot, hrest⟩ := nodup_cons.mp hl
    by_cases hek : e.1 = k
    · have hev : e = (k, v) := by
        rcases mem_cons.mp hmem with heq | hin
        · exact heq.symm
        · exact absurd (mem_map.mpr ⟨(k, v), hin, rfl⟩) (hek ▸ hnot)
      have hall : (l.filter fun e => decide (e.1 ≠ k)) = l := by
        refine filter_eq_self.mpr fun f hf => ?_
        have hne : f.1 ≠ k := fun hfk => hnot (mem_map.mpr ⟨f, hf, hfk.trans hek.symm⟩)
        simpa using hne
      subst hev
      rw [filter_cons_of_neg (by simp), hall]
    · have hin : (k, v) ∈ l := by
        rcases mem_cons.mp hmem with heq | hin
        · exact absurd (congrArg Prod.fst heq).symm hek
        · exact hin
      rw [filter_cons_of_pos (by simpa using hek)]
      exact ((ih hrest hin).cons e).trans (List.Perm.swap _ _ _)

theorem values_perm {d : OrderedDict κ ν} (h : d.get? k = some v) :
    d.values.Perm (v :: (d.erase k).values) := (entries_perm h).map Prod.snd

theorem values_set_perm (k : κ) (v : ν) : (d.set k v).values.Perm (v :: (d.erase k).values) := by
  have h := values_perm (d.get?_set_self k v)
  rwa [erase_set] at h

theorem keys_erase_sublist (k : κ) : (d.erase k).keys.Sublist d.keys :=
  filter_sublist.map _

theorem get?_mapValues (f : ν → ν) (k : κ) : (d.mapValues f).get? k = (d.get? k).map f := by
  ext w
  rw [Option.map_eq_some_iff]
  simp only [mapValues, mem_map, Prod.mk.injEq, Prod.exists, get?_eq_some_iff]
  constructor
  · rintro ⟨k', v, hmem, rfl, rfl⟩
    exact ⟨v, hmem, rfl⟩
  · rintro ⟨v, hmem, rfl⟩
    exact ⟨k, v, hmem, rfl, rfl⟩

/-- `d.update(patch)`: bind every key of the patch, in its order. -/
def update (d patch : OrderedDict κ ν) : OrderedDict κ ν :=
  patch.entries.foldl (fun d e => d.set e.1 e.2) d

/-- The patch decides about its keys, the old bindings about the others. -/
theorem get?_update (d patch : OrderedDict κ ν) (k : κ) :
    (d.update patch).get? k = (patch.get? k).or (d.get? k) := by
  obtain ⟨l, hl⟩ := patch
  induction l generalizing d with
  | nil => rfl
  | cons e l ih =>
    obtain ⟨hnot, hrest⟩ := nodup_cons.mp hl
    have hstep : (d.update ⟨e :: l, hl⟩).get? k = ((d.set e.1 e.2).update ⟨l, hrest⟩).get? k := rfl
    have hout : (⟨l, hrest⟩ : OrderedDict κ ν).get? e.1 = none := (get?_eq_none_iff _).mpr hnot
    rw [hstep, ih, get?_set]
    by_cases hk : k = e.1
    · subst hk
      rw [hout]
      simp [get?]
    · have hne : ¬ e.1 = k := fun h => hk h.symm
      simp [get?, hk, hne]

omit [DecidableEq κ] in
/-- A dictionary over the same keys. -/
def map {μ : Type*} (d : OrderedDict κ ν) (f : ν → μ) : OrderedDict κ μ :=
  ⟨d.entries.map fun e => (e.1, f e.2), by
    rw [map_map]
    exact d.nodup⟩

theorem get?_map {μ : Type*} (f : ν → μ) (k : κ) : (d.map f).get? k = (d.get? k).map f := by
  simp only [get?, map, List.find?_map, Option.map_map]
  rfl

theorem keys_set_of_get? {d : OrderedDict κ ν} (w : ν) (h : d.get? k = some v) :
    (d.set k w).keys = d.keys := keys_set_of_mem w (mem_keys_of_get? h)

/-! ### Changing values -/

/-- The same keys, and every value is related to the one it was. -/
structure Pointwise (R : ν → ν → Prop) (d d' : OrderedDict κ ν) : Prop where
  keys : d'.keys = d.keys
  related : ∀ k v, d.get? k = some v → ∃ w, d'.get? k = some w ∧ R v w

section Pointwise

variable {R S T : ν → ν → Prop} {d d' d'' : OrderedDict κ ν}

theorem Pointwise.refl (hR : ∀ v, R v v) (d : OrderedDict κ ν) : Pointwise R d d :=
  ⟨rfl, fun _ v h => ⟨v, h, hR v⟩⟩

theorem Pointwise.trans (h : Pointwise R d d') (h' : Pointwise S d' d'')
    (hT : ∀ u v w, R u v → S v w → T u w) : Pointwise T d d'' := by
  refine ⟨h'.keys.trans h.keys, fun k u hu => ?_⟩
  obtain ⟨v, hv, hR⟩ := h.related k u hu
  obtain ⟨w, hw, hS⟩ := h'.related k v hv
  exact ⟨w, hw, hT u v w hR hS⟩

theorem Pointwise.of_get? (h : Pointwise R d d') {k : κ} {w : ν} (hw : d'.get? k = some w) :
    ∃ v, d.get? k = some v ∧ R v w := by
  have hk : k ∈ d.keys := h.keys ▸ mem_keys_of_get? hw
  obtain ⟨v, hv⟩ := d.mem_keys_iff.mp hk
  obtain ⟨w', hw', hR⟩ := h.related k v hv
  cases hw.symm.trans hw'
  exact ⟨v, hv, hR⟩

theorem pointwise_set (hR : ∀ v, R v v) {k : κ} {v w : ν} (hv : d.get? k = some v) (hvw : R v w) :
    Pointwise R d (d.set k w) := by
  refine ⟨keys_set_of_get? w hv, fun k' u hu => ?_⟩
  rw [get?_set]
  by_cases hk : k' = k
  · subst hk
    cases hv.symm.trans hu
    exact ⟨w, if_pos rfl, hvw⟩
  · exact ⟨u, (if_neg hk).trans hu, hR u⟩

end Pointwise

/-! ### Sums over the values -/

section Sum

variable {M : Type*} [AddCommMonoid M] (f : ν → M)

/-- The sum of `f` over the values. -/
def sum (d : OrderedDict κ ν) : M := (d.values.map f).sum

omit [DecidableEq κ] in
@[simp] theorem sum_empty : sum f (empty : OrderedDict κ ν) = 0 := rfl

variable {d : OrderedDict κ ν} {k : κ} {v : ν}

theorem sum_set_of_not_mem (v : ν) (h : k ∉ d.keys) : sum f (d.set k v) = sum f d + f v := by
  rw [sum, sum, set, dif_neg h]
  simp [values]

/-- Erasing a bound key takes exactly its value out of the sum. -/
theorem sum_erase (h : d.get? k = some v) : sum f (d.erase k) + f v = sum f d := by
  obtain ⟨l, hl⟩ := d
  have hmem := (get?_eq_some_iff _).mp h
  simp only at hmem
  clear h
  simp only [sum, values, erase]
  induction l with
  | nil => cases hmem
  | cons e l ih =>
    simp only [map_cons, nodup_cons] at hl
    rcases mem_cons.mp hmem with rfl | hmem
    · have hrest : l.filter (fun e => decide (e.1 ≠ k)) = l := by
        refine filter_eq_self.mpr fun e he => ?_
        have : e.1 ≠ k := fun hk => hl.1 (mem_map.mpr ⟨e, he, hk⟩)
        simpa using this
      simp only [filter_cons, ne_eq, not_true_eq_false, decide_false, Bool.false_eq_true,
        if_false, map_cons, sum_cons]
      rw [show l.filter (fun e => decide ¬e.1 = k) = l from hrest, add_comm]
    · have hne : e.1 ≠ k := fun hk => hl.1 (mem_map.mpr ⟨(k, v), hmem, hk.symm⟩)
      simp only [filter_cons, decide_true, if_true, hne, ne_eq, not_false_eq_true,
        map_cons, sum_cons]
      rw [add_assoc, ih hl.2 hmem]

/-- Rebinding a key to a value of the same weight keeps the sum. -/
theorem sum_set_of_eq {w : ν} (h : d.get? k = some v) (hf : f w = f v) :
    sum f (d.set k w) = sum f d := by
  have hk := mem_keys_of_get? h
  simp only [sum, values, set, dif_pos hk, map_map]
  congr 1
  refine map_congr_left fun e he => ?_
  simp only [Function.comp_apply]
  split_ifs with hek
  · have : e.2 = v := d.entries_inj (k := k) (by rw [← hek]; exact he) (d.get?_eq_some_iff.mp h)
    rw [this, hf]
  · rfl

theorem sum_set (d : OrderedDict κ ν) (k : κ) (v : ν) :
    sum f (d.set k v) + (d.get? k).elim 0 f = sum f d + f v := by
  have hnew := sum_erase f (d.get?_set_self k v)
  rw [erase_set] at hnew
  rcases h : d.get? k with - | w
  · rw [erase_of_not_mem ((get?_eq_none_iff _).mp h)] at hnew
    rw [Option.elim_none, add_zero, hnew]
  · rw [Option.elim_some, ← hnew, ← sum_erase f h, add_right_comm]

theorem sum_set_of_get? (w : ν) (h : d.get? k = some v) :
    sum f (d.set k w) + f v = sum f d + f w := by
  have hsum := sum_set f d k w
  rwa [h] at hsum

theorem le_sum (g : ν → ℕ) (h : d.get? k = some v) : g v ≤ sum g d := by
  rw [← sum_erase g h]
  exact Nat.le_add_left _ _

theorem sum_eq_sum_keys (d : OrderedDict κ ν) :
    sum f d = (d.keys.map fun k => (d.get? k).elim 0 f).sum := by
  rw [sum, values, keys, map_map, map_map]
  congr 1
  refine map_congr_left fun e he => ?_
  simp only [Function.comp_apply]
  rw [(get?_eq_some_iff d).mpr he, Option.elim_some]

theorem sum_eq_finset_sum (d : OrderedDict κ ν) {s : Finset κ} (hs : ∀ k ∈ d.keys, k ∈ s) :
    sum f d = ∑ k ∈ s, (d.get? k).elim 0 f := by
  rw [sum_eq_sum_keys, ← sum_toFinset _ d.nodup_keys]
  refine Finset.sum_subset (fun k hk => hs k (mem_toFinset.mp hk)) fun k _ hk => ?_
  rw [(get?_eq_none_iff d).mpr fun h => hk (mem_toFinset.mpr h), Option.elim_none]

theorem Pointwise.sum_le {R : ν → ν → Prop} {d' : OrderedDict κ ν} (h : Pointwise R d d')
    {g g' : ν → ℕ} (hle : ∀ v w, R v w → g' w ≤ g v) : sum g' d' ≤ sum g d := by
  rw [sum_eq_sum_keys, sum_eq_sum_keys, h.keys]
  refine sum_le_sum fun k hk => ?_
  obtain ⟨v, hv⟩ := d.mem_keys_iff.mp hk
  obtain ⟨w, hw, hR⟩ := h.related k v hv
  rw [hv, hw]
  exact hle v w hR

end Sum

end OrderedDict

end Lib
