/-
Hqsb/Lib/Compaction.lean

A vector of which only some entries matter, and the vector of these entries alone.

`Spread mapping small big` says that `big` is `small` spread out to the ascending
positions `mapping`, with `⊥` everywhere else.  Whatever is summed over the
entries and their positions agrees on both when `⊥` adds nothing (`Spread.tally`),
so that a filter of entries by such sums acts on both alike (`Spread.filter`).

The two facts about lists in descending order say where an entry stands: behind as
many entries as are larger.
-/
import Mathlib

namespace Lib

open List

/-! ### Lists in descending order -/

section Descending

variable {β : Type*}

/-- An entry is above `v` iff it stands among those that are. -/
theorem lt_getElem_iff_of_descending [LinearOrder β] {l : List β} (h : l.Pairwise (· ≥ ·)) (v : β)
    {i : Nat} (hi : i < l.length) : v < l[i] ↔ i < l.countP (fun x => decide (v < x)) := by
  induction l generalizing i with
  | nil => cases hi
  | cons a l ih =>
    rw [pairwise_cons] at h
    obtain ⟨hfirst, hrest⟩ := h
    by_cases hv : v < a
    · rw [countP_cons_of_pos (by simpa using hv)]
      rcases i with - | i
      · simpa using hv
      · rw [getElem_cons_succ, ih hrest]
        omega
    · -- nothing behind `a` is larger than `a`
      have hnone : (a :: l).countP (fun x => decide (v < x)) = 0 := by
        rw [countP_eq_zero]
        intro x hx
        rw [decide_eq_true_iff]
        rcases mem_cons.mp hx with rfl | hx
        · exact hv
        · exact fun hvx => hv (lt_of_lt_of_le hvx (hfirst x hx))
      rw [hnone]
      refine iff_of_false (fun hlt => ?_) (Nat.not_lt_zero i)
      rcases mem_cons.mp (getElem_mem hi) with heq | hmem
      · exact hv (heq ▸ hlt)
      · exact hv (lt_of_lt_of_le hlt (hfirst _ hmem))

/-- In an ordered list what comes before an entry is what stands before it. -/
theorem filter_getElem_eq_take {r : β → β → Prop} [DecidableRel r]
    (hasymm : ∀ a b, r a b → ¬ r b a) {l : List β} (h : l.Pairwise r) {i : Nat}
    (hi : i < l.length) : l.filter (fun x => decide (r x l[i])) = l.take i := by
  induction l generalizing i with
  | nil => cases hi
  | cons a l ih =>
    rw [pairwise_cons] at h
    obtain ⟨hfirst, hrest⟩ := h
    rcases i with - | i
    · rw [take_zero, filter_eq_nil_iff]
      intro x hx
      rw [decide_eq_true_iff]
      rcases mem_cons.mp hx with rfl | hx
      · exact fun hself => hasymm _ _ hself hself
      · exact hasymm _ _ (hfirst x hx)
    · have hi' : i < l.length := Nat.lt_of_succ_lt_succ hi
      rw [getElem_cons_succ, filter_cons_of_pos, take_succ_cons, ih hrest hi']
      exact decide_eq_true (hfirst _ (getElem_mem hi'))

end Descending

/-! ### Sums over entries and their positions -/

section Tally

variable {β M : Type*} [AddCommMonoid M]

/-- The sum of `f` over the entries of a list and their positions. -/
def tally (f : β → Nat → M) (l : List β) : M := (l.zipIdx.map fun e => f e.1 e.2).sum

theorem tally_eq_sum (f : β → Nat → M) (l : List β) (default : β) :
    tally f l = ∑ i ∈ Finset.range l.length, f (l.getD i default) i := by
  induction l using List.reverseRecOn with
  | nil => rfl
  | append_singleton l x ih =>
    rw [tally, zipIdx_append, map_append, sum_append, length_append,
      length_singleton, Finset.sum_range_succ]
    congr 1
    · rw [← tally, ih]
      refine Finset.sum_congr rfl fun i hi => ?_
      rw [getD_append _ _ _ _ (Finset.mem_range.mp hi)]
    · simp

/-- How many entries satisfy `p`. -/
theorem countP_eq_tally (p : β → Bool) (l : List β) :
    l.countP p = tally (fun x _ => if p x then 1 else 0) l := by
  have hmap : (l.zipIdx.map fun e => if p e.1 then 1 else 0) =
      l.map fun x => if p x then 1 else 0 := by
    show l.zipIdx.map ((fun x => if p x then 1 else 0) ∘ Prod.fst) = _
    rw [← map_map, zipIdx_map_fst]
  rw [tally, hmap]
  clear hmap
  induction l with
  | nil => rfl
  | cons x l ih =>
    rw [countP_cons, map_cons, sum_cons, ih, add_comm]

end Tally

/-! ### Spread vectors -/

section Spread

variable {β : Type*} [Bot β]

/-- `big` holds the entries of `small` at the positions `mapping`, and nothing else. -/
structure Spread (mapping : List Nat) (small big : List β) : Prop where
  length : small.length = mapping.length
  ascending : mapping.Pairwise (· < ·)
  inside : ∀ t ∈ mapping, t < big.length
  value : ∀ i (hi : i < mapping.length), big.getD mapping[i] ⊥ = small.getD i ⊥
  rest : ∀ t ∉ mapping, big.getD t ⊥ = ⊥

variable {mapping : List Nat} {small big : List β}

theorem Spread.nodup (h : Spread mapping small big) : mapping.Nodup :=
  h.ascending.imp fun hlt => Nat.ne_of_lt hlt

theorem Spread.ne_nil (h : Spread mapping small big) (hne : small ≠ []) : big ≠ [] := by
  have hpos : 0 < mapping.length := h.length ▸ length_pos_iff.mpr hne
  have hlt := h.inside _ (getElem_mem hpos)
  exact fun hbig => by simp [hbig] at hlt

theorem Spread.getElem_lt_iff (h : Spread mapping small big) {i j : Nat} (hi : i < mapping.length)
    (hj : j < mapping.length) : mapping[i] < mapping[j] ↔ i < j := by
  have hasc := pairwise_iff_getElem.mp h.ascending
  rcases Nat.lt_trichotomy i j with hlt | rfl | hlt
  · exact iff_of_true (hasc i j hi hj hlt) hlt
  · simp
  · exact iff_of_false (Nat.lt_asymm (hasc j i hj hi hlt)) (Nat.lt_asymm hlt)

/-- The entries at some positions, spread out to these. -/
theorem spread_gather (hasc : mapping.Pairwise (· < ·)) {l : List β}
    (hinside : ∀ t ∈ mapping, t < l.length) :
    Spread mapping (mapping.map fun t => l.getD t ⊥)
      (l.mapIdx fun t x => if t ∈ mapping then x else ⊥) := by
  have hvalue : ∀ t, (l.mapIdx fun t x => if t ∈ mapping then x else ⊥).getD t ⊥ =
      if t ∈ mapping then l.getD t ⊥ else ⊥ := by
    intro t
    rcases lt_or_ge t l.length with ht | ht
    · simp [ht]
    · rw [getD_eq_default _ _ (by simpa using ht), getD_eq_default _ _ ht, ite_self]
  refine ⟨length_map _, hasc, fun t ht => ?_, fun i hi => ?_, fun t ht => ?_⟩
  · rw [length_mapIdx]
    exact hinside t ht
  · have hi' : i < (mapping.map fun t => l.getD t ⊥).length := by simpa using hi
    rw [hvalue, if_pos (getElem_mem hi), getD_eq_getElem _ ⊥ hi', getElem_map]
  · rw [hvalue, if_neg ht]

/-- **What sums up entries agrees on both vectors**, when `⊥` adds nothing. -/
theorem Spread.tally {M : Type*} [AddCommMonoid M] (h : Spread mapping small big)
    {f g : β → Nat → M} (hbot : ∀ t, f ⊥ t = 0)
    (hfg : ∀ x i (hi : i < mapping.length), f x mapping[i] = g x i) :
    Lib.tally f big = Lib.tally g small := by
  rw [tally_eq_sum f big ⊥]
  have hsub : mapping.toFinset ⊆ Finset.range big.length := fun t ht =>
    Finset.mem_range.mpr (h.inside t (mem_toFinset.mp ht))
  rw [← Finset.sum_subset hsub fun t _ ht => by
    rw [h.rest t fun hmem => ht (mem_toFinset.mpr hmem), hbot]]
  rw [sum_toFinset _ h.nodup]
  congr 1
  refine ext_getElem (by simp [h.length]) fun i hi _ => ?_
  rw [length_map] at hi
  have hsmall : i < small.length := h.length ▸ hi
  rw [getElem_map, getElem_map, getElem_zipIdx, h.value i hi, hfg _ i hi,
    getD_eq_getElem _ _ hsmall, zero_add]

/-- What one of them holds beside `⊥` the other holds too. -/
theorem Spread.exists_mem_iff (h : Spread mapping small big) {p : β → Prop} (hbot : ¬ p ⊥) :
    (∃ x ∈ big, p x) ↔ ∃ x ∈ small, p x := by
  constructor
  · rintro ⟨x, hx, hp⟩
    obtain ⟨t, ht, rfl⟩ := mem_iff_getElem.mp hx
    have hvalue := getD_eq_getElem big ⊥ ht
    have hmem : t ∈ mapping := by
      by_contra hout
      exact hbot (h.rest t hout ▸ hvalue ▸ hp)
    obtain ⟨i, hi, rfl⟩ := mem_iff_getElem.mp hmem
    have hi' : i < small.length := h.length ▸ hi
    rw [← hvalue, h.value i hi, getD_eq_getElem _ _ hi'] at hp
    exact ⟨_, getElem_mem hi', hp⟩
  · rintro ⟨x, hx, hp⟩
    obtain ⟨i, hi, rfl⟩ := mem_iff_getElem.mp hx
    have hi' : i < mapping.length := h.length ▸ hi
    have ht := h.inside _ (getElem_mem hi')
    rw [← getD_eq_getElem small ⊥ hi, ← h.value i hi', getD_eq_getElem _ _ ht] at hp
    exact ⟨_, getElem_mem ht, hp⟩

/-- Entries that are kept or dropped by the same rule stay spread. -/
theorem Spread.filter (h : Spread mapping small big) {small' big' : List β}
    {kept kept' : Nat → Prop} [DecidablePred kept] [DecidablePred kept']
    (hlength : small'.length = small.length) (hlength' : big'.length = big.length)
    (hsmall : ∀ i, small'.getD i ⊥ = if kept i then small.getD i ⊥ else ⊥)
    (hbig : ∀ t, big'.getD t ⊥ = if kept' t then big.getD t ⊥ else ⊥)
    (hkept : ∀ i (hi : i < mapping.length), small.getD i ⊥ ≠ ⊥ → (kept' mapping[i] ↔ kept i)) :
    Spread mapping small' big' where
  length := hlength.trans h.length
  ascending := h.ascending
  inside t ht := hlength' ▸ h.inside t ht
  value i hi := by
    rw [hsmall, hbig, h.value i hi]
    by_cases hbot : small.getD i ⊥ = ⊥
    · rw [hbot, ite_self, ite_self]
    · simp only [hkept i hi hbot]
  rest t ht := by
    rw [hbig, h.rest t ht, ite_self]

/-- The entry at `t` of what the compaction with `mapping` stands for; of the vector itself
without one. -/
def entryOf {α : Type*} (default : α) (values : List α) : Option (List Nat) → Nat → α
  | none, t => values.getD t default
  | some mapping, t =>
    if t ∈ mapping then values.getD (mapping.idxOf t) default else default

theorem Spread.entryOf_eq (h : Spread mapping small big) (t : Nat) :
    entryOf ⊥ big none t = entryOf ⊥ small (some mapping) t := by
  rw [entryOf, entryOf]
  split_ifs with hmem
  · have hi := idxOf_lt_length_of_mem hmem
    have hvalue := h.value _ hi
    rwa [getElem_idxOf] at hvalue
  · exact h.rest t hmem

end Spread

end Lib
