/-
Hqsb/Runtime/PrefixEviction.lean

Which entries `evict` lets go: the first in the policy's order, and no more of
them than the limit asks for.

The loop picks its victim anew in every pass.  Erasing the victim takes exactly
it out of the candidates (`evictionCandidates_erase`), so the victims come down
one ranking that is fixed before the loop starts (`evictLoop_ranks`), and the
loop is over after at most as many passes as there are entries.
-/
import Hqsb.Lib.Ranking
import Hqsb.Runtime.PrefixEntries

namespace Hqsb

open Lib List

namespace PrefixCache

variable {entries : OrderedDict String CacheEntryRecord} {policy : EvictionPolicy} {limit : ℚ}

/-! ### Erasing entries -/

/-- What is left when the entries `gone` are erased. -/
def without (entries : OrderedDict String CacheEntryRecord) (gone : List CacheEntryRecord) :
    OrderedDict String CacheEntryRecord :=
  gone.foldl (fun entries entry => entries.erase entry.entryId) entries

theorem get?_without (gone : List CacheEntryRecord)
    (entries : OrderedDict String CacheEntryRecord) (id : String) :
    (without entries gone).get? id =
      if id ∈ gone.map (·.entryId) then none else entries.get? id := by
  induction gone generalizing entries with
  | nil => rfl
  | cons entry gone ih =>
    rw [without, foldl_cons, ← without, ih, OrderedDict.get?_erase, map_cons]
    by_cases hlater : id ∈ gone.map (·.entryId)
    · rw [if_pos hlater, if_pos (.tail _ hlater)]
    · rw [if_neg hlater]
      simp only [mem_cons, hlater, or_false]

theorem Named.erase (h : Named entries) (id : String) : Named (entries.erase id) := by
  intro other entry hget
  rw [OrderedDict.get?_erase] at hget
  by_cases hother : other = id
  · rw [if_pos hother] at hget
    cases hget
  · rw [if_neg hother] at hget
    exact h other entry hget

/-! ### Candidates -/

theorem mem_evictionCandidates {entry : CacheEntryRecord} : entry ∈ evictionCandidates entries ↔
      entry ∈ entries.values ∧ entry.refcount = 0 ∧ entry.pinned = false := by
  rw [evictionCandidates, mem_filter, decide_eq_true_eq, Bool.not_eq_true]

theorem evictionKey_id {a b : CacheEntryRecord}
    (h : evictionKey policy a = evictionKey policy b) : a.entryId = b.entryId := by
  rcases policy with - | -
  all_goals exact (Prod.mk.inj (Prod.mk.inj h).2).2

def evictionOrder (policy : EvictionPolicy) (entries : OrderedDict String CacheEntryRecord) :
    List CacheEntryRecord :=
  ranking (evictionKey policy) (evictionCandidates entries)

theorem Named.ranks (h : Named entries) (policy : EvictionPolicy) :
    Ranks (evictionKey policy) (evictionCandidates entries) (evictionOrder policy entries) := by
  apply ranks_ranking
  have hids : ((evictionCandidates entries).map (·.entryId)).Nodup :=
    h.nodup_ids.sublist (filter_sublist.map _)
  exact pairwise_map.mpr
    ((pairwise_map.mp hids).imp fun hne heq => hne (evictionKey_id heq))

theorem evictionCandidates_erase (h : Named entries) {victim : CacheEntryRecord}
    (hvictim : victim ∈ evictionCandidates entries) :
    (evictionCandidates entries).Perm
      (victim :: evictionCandidates (entries.erase victim.entryId)) := by
  obtain ⟨hmem, hfree⟩ := mem_evictionCandidates.mp hvictim
  have hperm := (OrderedDict.values_perm (h.get? hmem)).filter
    fun entry => decide (entry.refcount = 0 ∧ ¬ entry.pinned)
  rwa [filter_cons_of_pos (by simpa using hfree)] at hperm

/-! ### The loop -/

/-- **The loop goes down the ranking** of the candidates until the rest fits or none is left. -/
theorem evictLoop_ranks {order : List CacheEntryRecord} (h : Named entries)
    (hranks : Ranks (evictionKey policy) (evictionCandidates entries) order) :
    ∃ k, k ≤ order.length ∧
      (∀ fuel, order.length ≤ fuel → evictLoop policy limit fuel entries =
        (.ok (order.take k), without entries (order.take k))) ∧
      (totalBytes (without entries (order.take k)) ≤ limit ∨ k = order.length) ∧
      ∀ j < k, limit < totalBytes (without entries (order.take j)) := by
  induction order generalizing entries with
  | nil =>
    refine ⟨0, le_rfl, fun fuel _ => ?_, .inr rfl, nofun⟩
    rcases fuel with - | fuel
    · rfl
    · rw [evictLoop, hranks.argmin]
      by_cases hfits : ¬ limit < totalBytes entries
      · rw [if_pos hfits]
        rfl
      · rw [if_neg hfits]
        rfl
  | cons victim order ih =>
    by_cases hfits : ¬ limit < totalBytes entries
    · refine ⟨0, Nat.zero_le _, fun fuel hfuel => ?_, .inl (not_lt.mp hfits), nofun⟩
      rcases fuel with - | fuel
      · cases hfuel
      · rw [evictLoop, if_pos hfits]
        rfl
    -- the head of the ranking is the victim, and its tail ranks the other candidates
    have hvictim : victim ∈ evictionCandidates entries :=
      hranks.perm.subset mem_cons_self
    obtain ⟨hmem, hcount, -⟩ := mem_evictionCandidates.mp hvictim
    have hdrop : drop victim.entryId entries = (none, entries.erase victim.entryId) := by
      simp only [drop, h.get? hmem, hcount, lt_irrefl, if_false]
    obtain ⟨k, hk, hloop, hends, hbefore⟩ := ih (h.erase victim.entryId)
      (hranks.tail (evictionCandidates_erase h hvictim))
    refine ⟨k + 1, Nat.succ_le_succ hk, fun fuel hfuel => ?_, ?_, fun j hj => ?_⟩
    · rcases fuel with - | fuel
      · cases hfuel
      · rw [evictLoop, if_neg hfits, hranks.argmin]
        simp only [List.head?_cons, hdrop, hloop fuel (Nat.le_of_succ_le_succ hfuel)]
        rfl
    · exact hends.imp id (congrArg Nat.succ)
    · rcases j with - | j
      · exact not_not.mp hfits
      · exact hbefore j (Nat.lt_of_succ_lt_succ hj)

/-! ### `evict` -/

/-- Letting go of the first `k` candidates is what `evict` does, and it is right: nothing that is
referenced or pinned leaves, the rest fits or is all referenced or pinned, and with fewer gone
it would not have fitted. -/
structure EvictsFirst (cache : PrefixCache) (targetBytes : ℚ) (k : Nat) : Prop where
  ranks : Ranks (evictionKey cache.spec.evictionPolicy) (evictionCandidates cache.entries)
    (evictionOrder cache.spec.evictionPolicy cache.entries)
  le : k ≤ (evictionOrder cache.spec.evictionPolicy cache.entries).length
  evicted : (cache.evict targetBytes).1 =
    .ok ((evictionOrder cache.spec.evictionPolicy cache.entries).take k)
  left : (cache.evict targetBytes).2 = { cache with
    entries := without cache.entries
      ((evictionOrder cache.spec.evictionPolicy cache.entries).take k) }
  ends : ∀ fuel, cache.entries.keys.length ≤ fuel →
    evictLoop cache.spec.evictionPolicy (min targetBytes cache.spec.maxCacheBytes) fuel
        cache.entries =
      ((cache.evict targetBytes).1, (cache.evict targetBytes).2.entries)
  safe : ∀ id, (cache.evict targetBytes).2.entries.get? id = cache.entries.get? id ∨
    (cache.evict targetBytes).2.entries.get? id = none ∧
      ∃ entry, cache.entries.get? id = some entry ∧ entry.refcount = 0 ∧ entry.pinned = false
  enough : totalBytes (cache.evict targetBytes).2.entries ≤
      min targetBytes cache.spec.maxCacheBytes ∨
    ∀ entry ∈ (cache.evict targetBytes).2.entries.values, 0 < entry.refcount ∨ entry.pinned = true
  minimal : ∀ j < k, min targetBytes cache.spec.maxCacheBytes <
    totalBytes (without cache.entries
      ((evictionOrder cache.spec.evictionPolicy cache.entries).take j))

/-- **`evict` lets the first candidates of the policy's order go, and just enough of them.** -/
theorem evict_first (cache : PrefixCache) (h : Named cache.entries) (targetBytes : ℚ) :
    ∃ k, EvictsFirst cache targetBytes k := by
  have hranks := h.ranks cache.spec.evictionPolicy
  obtain ⟨k, hk, hloop, hends, hbefore⟩ := evictLoop_ranks h hranks
  have hcandidates : (evictionOrder cache.spec.evictionPolicy cache.entries).length ≤
      cache.entries.keys.length := by
    rw [hranks.perm.length_eq]
    refine (length_filter_le _ _).trans ?_
    rw [OrderedDict.values, OrderedDict.keys, length_map, length_map]
  have hevict := hloop _ hcandidates
  have hfirst : (cache.evict targetBytes).1 =
      .ok ((evictionOrder cache.spec.evictionPolicy cache.entries).take k) :=
    congrArg Prod.fst hevict
  have hleft : (cache.evict targetBytes).2.entries = without cache.entries
      ((evictionOrder cache.spec.evictionPolicy cache.entries).take k) :=
    congrArg Prod.snd hevict
  have hgone : ∀ id, id ∈ ((evictionOrder cache.spec.evictionPolicy cache.entries).take k).map
      (·.entryId) → ∃ entry, cache.entries.get? id = some entry ∧ entry.refcount = 0 ∧
        entry.pinned = false := by
    intro id hid
    obtain ⟨entry, hentry, rfl⟩ := mem_map.mp hid
    obtain ⟨hmem, hfree⟩ := mem_evictionCandidates.mp
      (hranks.perm.subset (mem_of_mem_take hentry))
    exact ⟨entry, h.get? hmem, hfree⟩
  refine ⟨k, hranks, hk, hfirst, ?_, ?_, ?_, ?_, hbefore⟩
  · rw [← hleft]
    rfl
  · intro fuel hfuel
    rw [hloop fuel (hcandidates.trans hfuel), hfirst, hleft]
  · intro id
    rw [hleft, get?_without]
    by_cases hid : id ∈ ((evictionOrder cache.spec.evictionPolicy cache.entries).take k).map
        (·.entryId)
    · rw [if_pos hid]
      exact .inr ⟨rfl, hgone id hid⟩
    · rw [if_neg hid]
      exact .inl rfl
  · rw [hleft]
    rcases hends with hfits | rfl
    · exact .inl hfits
    right
    intro entry hentry
    -- every candidate is gone, so what stays is none
    obtain ⟨id, hget⟩ := (OrderedDict.mem_values_iff _).mp hentry
    rw [take_length, get?_without] at hget
    by_cases hid : id ∈ (evictionOrder cache.spec.evictionPolicy cache.entries).map (·.entryId)
    · rw [if_pos hid] at hget
      cases hget
    rw [if_neg hid] at hget
    by_contra hfree
    rw [not_or, pos_iff_ne_zero, not_not, Bool.not_eq_true] at hfree
    have hmem : entry ∈ evictionCandidates cache.entries := mem_evictionCandidates.mpr
      ⟨cache.entries.mem_values_iff.mpr ⟨id, hget⟩, hfree⟩
    exact hid (mem_map.mpr
      ⟨entry, hranks.perm.symm.subset hmem, h id entry hget⟩)

/-- Two entries of one token, the first without readers. -/
theorem evict_first_released :
    ∃ k, EvictsFirst ((prefixMachine (fun text => text) oneTokenBlocks).run
      [.insert oneTokenKey [0] 1 "p", .insert oneTokenKey [1] 1 "q", .release "p" true]) 0 k :=
  evict_first _ (sound_of_reachable (Machine.reachable_run _)).named 0

end PrefixCache

end Hqsb
