/-
Hqsb/Runtime/PrefixEntries.lean

What the operations of the prefix cache do to its entries, and when an insert
loses one.

Each operation is described by what it leaves under every id: `insert` binds one
id, `lookup` touches entries, `release` takes one reader off each
(`afterRelease`), `evict` lets entries without references go.  In every reachable
cache an entry is named by its id and counts its readers (`Sound`).  The id of a
new entry is the number of entries there are, which is in use once an entry was
dropped from the middle; `prefix_cache_keeps_iff` shows that nothing else makes a
live entry leave.
-/
import Hqsb.Runtime.PrefixCache

namespace Hqsb

open Lib List OrderedDict

namespace PrefixCache

variable {sha256 : String → String} {spec : PrefixCacheSpec}
variable {entries : OrderedDict String CacheEntryRecord} {cache cache' : PrefixCache}

def Named (entries : OrderedDict String CacheEntryRecord) : Prop :=
  ∀ id entry, entries.get? id = some entry → entry.entryId = id

theorem Named.get? (h : Named entries) {entry : CacheEntryRecord} (hmem : entry ∈ entries.values) :
    entries.get? entry.entryId = some entry := by
  obtain ⟨id, hget⟩ := entries.mem_values_iff.mp hmem
  rw [h id entry hget]
  exact hget

theorem Named.nodup_ids (h : Named entries) : (entries.values.map (·.entryId)).Nodup := by
  have heq : entries.values.map (·.entryId) = entries.keys := by
    rw [OrderedDict.values, map_map]
    refine map_congr_left fun e he => ?_
    exact h e.1 e.2 (entries.get?_eq_some_iff.mpr he)
  rw [heq]
  exact entries.nodup_keys

/-! ### `lookup` -/

/-- Binding entries in turn changes only the ids of those entries. -/
theorem get?_foldl_set (touched : List CacheEntryRecord)
    (entries : OrderedDict String CacheEntryRecord) (id : String) :
    (touched.foldl (fun entries entry => entries.set entry.entryId entry) entries).get? id =
        entries.get? id ∨
      ∃ entry ∈ touched, entry.entryId = id ∧
        (touched.foldl (fun entries entry => entries.set entry.entryId entry) entries).get? id =
          some entry := by
  induction touched generalizing entries with
  | nil => exact .inl rfl
  | cons entry touched ih =>
    rw [foldl_cons]
    rcases ih (entries.set entry.entryId entry) with heq | ⟨later, hmem, hid, heq⟩
    · rw [heq, get?_set]
      by_cases hid : id = entry.entryId
      · rw [if_pos hid]
        exact .inr ⟨entry, .head _, hid.symm, rfl⟩
      · rw [if_neg hid]
        exact .inl rfl
    · exact .inr ⟨later, .tail _ hmem, hid, heq⟩

/-- The loop of `lookup` touches the entries that it accepts. -/
theorem touching_foldl (query : PrefixKey) (queryTokens : Nat) (blockGroups : List String)
    (scan : Scan) (entries : List CacheEntryRecord) :
    (entries.foldl (Scan.entry sha256 spec query queryTokens blockGroups) scan).touching =
      scan.touching ++ entries.filter fun entry => entry.blockGroup ∈ blockGroups ∧
        (matchEntry sha256 spec entry query queryTokens).accepted := by
  induction entries generalizing scan with
  | nil => exact (append_nil _).symm
  | cons entry entries ih =>
    rw [foldl_cons, ih, Scan.entry]
    by_cases hgroup : entry.blockGroup ∈ blockGroups
    · by_cases haccepted : (matchEntry sha256 spec entry query queryTokens).accepted
      · simp [hgroup, haccepted]
      · simp [hgroup, haccepted]
    · simp [hgroup]

/-- **What `lookup` does to the entries**: it touches some of them. -/
theorem lookup_entries (h : Named cache.entries) {key : PrefixKey} {queryTokens : Nat}
    {blockGroups : List String} {requestId : String} {result : LookupResult}
    (hlookup : cache.lookup sha256 key queryTokens blockGroups requestId = .ok (result, cache'))
    (id : String) :
    cache'.entries.get? id = cache.entries.get? id ∨
      ∃ entry, cache.entries.get? id = some entry ∧
        cache'.entries.get? id = some (touch (cache.clock + 1) requestId entry) := by
  rw [lookup] at hlookup
  by_cases hzero : queryTokens = 0
  · rw [if_pos hzero] at hlookup
    cases hlookup
  rw [if_neg hzero] at hlookup
  by_cases hbeyond : key.length < queryTokens
  · rw [if_pos hbeyond] at hlookup
    cases hlookup
  rw [if_neg hbeyond] at hlookup
  obtain rfl := (Prod.mk.inj (Except.ok.inj hlookup)).2
  rcases get?_foldl_set _ cache.entries id with heq | ⟨entry, hmem, hid, heq⟩
  · exact .inl heq
  · obtain ⟨old, hold, rfl⟩ := mem_map.mp hmem
    rw [touching_foldl] at hold
    have hget := h.get? (mem_of_mem_filter hold)
    have hold_id : (touch (cache.clock + 1) requestId old).entryId = old.entryId := by
      rw [touch]
      split
      · rfl
      · rfl
    rw [← hold_id, hid] at hget
    exact .inr ⟨old, hget, heq⟩

/-! ### `release` -/

/-- What `release` leaves of an entry. -/
def afterRelease (requestId : String) (retain : Bool) (entry : CacheEntryRecord) :
    Option CacheEntryRecord :=
  if requestId ∉ entry.readers then some entry
  else if entry.refcount - 1 = 0 ∧ ¬ retain then none
  else some { entry with
    readers := entry.readers.filter (· ≠ requestId)
    refcount := entry.refcount - 1 }

/-- **What `release` does to the entries**, and that it does not raise. -/
theorem releaseEntries_spec (requestId : String) (retain : Bool) {snapshot : List CacheEntryRecord}
    (hn : (snapshot.map (·.entryId)).Nodup)
    (hget : ∀ entry ∈ snapshot, entries.get? entry.entryId = some entry) :
    (∃ released, (releaseEntries requestId retain snapshot entries).1 = .ok released) ∧
      ∀ id, (releaseEntries requestId retain snapshot entries).2.get? id =
        if id ∈ snapshot.map (·.entryId) then
          (entries.get? id).bind (afterRelease requestId retain)
        else entries.get? id := by
  induction snapshot generalizing entries with
  | nil => exact ⟨⟨[], rfl⟩, fun id => rfl⟩
  | cons entry snapshot ih =>
    rw [map_cons, nodup_cons] at hn
    rw [forall_mem_cons] at hget
    obtain ⟨hfirst, hrest⟩ := hget
    have hother : ∀ e ∈ snapshot, e.entryId ≠ entry.entryId := fun e he heq =>
      hn.1 (mem_map.mpr ⟨e, he, heq⟩)
    -- the rest of the loop runs on entries that differ only at the id of this one
    have hstep : ∀ entries' : OrderedDict String CacheEntryRecord,
        (∀ id, entries'.get? id = if id = entry.entryId then
          afterRelease requestId retain entry else entries.get? id) →
        (∃ released, (releaseEntries requestId retain snapshot entries').1 = .ok released) ∧
          ∀ id, (releaseEntries requestId retain snapshot entries').2.get? id =
            if id ∈ (entry :: snapshot).map (·.entryId) then
              (entries.get? id).bind (afterRelease requestId retain)
            else entries.get? id := by
      intro entries' hentries'
      have hrest' : ∀ e ∈ snapshot, entries'.get? e.entryId = some e := by
        intro e he
        rw [hentries', if_neg (hother e he), hrest e he]
      obtain ⟨hok, hlater⟩ := ih hn.2 hrest'
      refine ⟨hok, fun id => ?_⟩
      rw [hlater, hentries']
      simp only [map_cons, mem_cons]
      by_cases hid : id = entry.entryId
      · rw [if_pos hid, if_pos (Or.inl hid), hid, if_neg hn.1, hfirst, Option.bind_some]
      · rw [if_neg hid]
        by_cases hmem : id ∈ snapshot.map (·.entryId)
        · rw [if_pos hmem, if_pos (Or.inr hmem)]
        · rw [if_neg hmem, if_neg (not_or.mpr ⟨hid, hmem⟩)]
    rw [releaseEntries]
    by_cases hreader : requestId ∉ entry.readers
    · rw [if_pos hreader]
      refine hstep entries fun id => ?_
      by_cases hid : id = entry.entryId
      · rw [if_pos hid, hid, hfirst, afterRelease, if_pos hreader]
      · rw [if_neg hid]
    rw [if_neg hreader]
    by_cases hlast : entry.refcount - 1 = 0 ∧ ¬ retain
    · obtain rfl : retain = false := Bool.eq_false_iff.mpr hlast.2
      obtain ⟨⟨released, hok⟩, hlater⟩ := hstep
        ((entries.set entry.entryId { entry with
          readers := entry.readers.filter (· ≠ requestId)
          refcount := entry.refcount - 1 }).erase entry.entryId) fun id => by
          rw [get?_erase, get?_set, afterRelease, if_neg hreader,
            if_pos hlast]
          by_cases hid : id = entry.entryId
          · rw [if_pos hid, if_pos hid]
          · rw [if_neg hid, if_neg hid, if_neg hid]
      simp only [hlast.1, Bool.false_eq_true, not_false_eq_true, and_self, if_true, drop,
        get?_set_self, lt_irrefl, if_false]
      rw [hlast.1] at hok hlater
      rcases hr : releaseEntries requestId false snapshot _ with ⟨error | released', entries'⟩
      · rw [hr] at hok
        cases hok
      · rw [hr] at hlater
        exact ⟨⟨_, rfl⟩, hlater⟩
    · obtain ⟨⟨released, hok⟩, hlater⟩ := hstep
        (entries.set entry.entryId { entry with
          readers := entry.readers.filter (· ≠ requestId)
          refcount := entry.refcount - 1 }) fun id => by
          rw [get?_set, afterRelease, if_neg hreader, if_neg hlast]
      simp only [if_neg hlast]
      rcases hr : releaseEntries requestId retain snapshot _ with ⟨error | released', entries'⟩
      · rw [hr] at hok
        cases hok
      · rw [hr] at hlater
        exact ⟨⟨_, rfl⟩, hlater⟩

theorem release_entries (h : Named cache.entries) (requestId : String) (retain : Bool)
    (id : String) :
    (cache.release requestId retain).2.entries.get? id =
      (cache.entries.get? id).bind (afterRelease requestId retain) := by
  obtain ⟨-, hget⟩ := releaseEntries_spec requestId retain h.nodup_ids
    (fun entry hmem => h.get? hmem)
  rw [release, hget]
  by_cases hid : id ∈ cache.entries.values.map (·.entryId)
  · rw [if_pos hid]
  · rw [if_neg hid]
    rcases hentry : cache.entries.get? id with - | entry
    · rfl
    · refine absurd (mem_map.mpr ⟨entry, ?_, h id entry hentry⟩) hid
      exact cache.entries.mem_values_iff.mpr ⟨id, hentry⟩

/-! ### `evict` -/

/-- **What `evict` does to the entries**: those that go have no references. -/
theorem evictLoop_spec (policy : EvictionPolicy) (limit : ℚ) (fuel : Nat) (h : Named entries) :
    (∃ evicted, (evictLoop policy limit fuel entries).1 = .ok evicted) ∧
      ∀ id, (evictLoop policy limit fuel entries).2.get? id = entries.get? id ∨
        (evictLoop policy limit fuel entries).2.get? id = none ∧
          ∃ entry, entries.get? id = some entry ∧ entry.refcount = 0 := by
  induction fuel generalizing entries with
  | zero => exact ⟨⟨[], rfl⟩, fun id => .inl rfl⟩
  | succ fuel ih =>
    rw [evictLoop]
    by_cases hfits : ¬ limit < totalBytes entries
    · rw [if_pos hfits]
      exact ⟨⟨[], rfl⟩, fun id => .inl rfl⟩
    rw [if_neg hfits]
    rcases hvictim : (evictionCandidates entries).argmin (evictionKey policy) with - | victim
    · exact ⟨⟨[], rfl⟩, fun id => .inl rfl⟩
    have hmem : victim ∈ evictionCandidates entries := argmin_mem hvictim
    rw [evictionCandidates, mem_filter, decide_eq_true_eq] at hmem
    have hget := h.get? hmem.1
    have hdrop : drop victim.entryId entries = (none, entries.erase victim.entryId) := by
      simp only [drop, hget, hmem.2.1, lt_irrefl, if_false]
    have hnamed : Named (entries.erase victim.entryId) := by
      intro id entry hentry
      rw [get?_erase] at hentry
      by_cases hid : id = victim.entryId
      · rw [if_pos hid] at hentry
        cases hentry
      · rw [if_neg hid] at hentry
        exact h id entry hentry
    obtain ⟨⟨evicted, hok⟩, hlater⟩ := ih hnamed
    simp only [hdrop]
    rcases hr : evictLoop policy limit fuel (entries.erase victim.entryId) with
      ⟨error | evicted', entries'⟩
    · rw [hr] at hok
      cases hok
    rw [hr] at hlater
    refine ⟨⟨_, rfl⟩, fun id => ?_⟩
    by_cases hid : id = victim.entryId
    · subst hid
      refine .inr ⟨?_, victim, hget, hmem.2.1⟩
      rcases hlater victim.entryId with heq | ⟨heq, -⟩
      · exact heq.trans (get?_erase_self _ _)
      · exact heq
    · have hsame : (entries.erase victim.entryId).get? id = entries.get? id := by
        rw [get?_erase, if_neg hid]
      rw [← hsame]
      exact hlater id

theorem evict_entries (h : Named cache.entries) (targetBytes : ℚ) (id : String) :
    (cache.evict targetBytes).2.entries.get? id = cache.entries.get? id ∨
      (cache.evict targetBytes).2.entries.get? id = none ∧
        ∃ entry, cache.entries.get? id = some entry ∧ entry.refcount = 0 :=
  (evictLoop_spec cache.spec.evictionPolicy _ _ h).2 id

/-! ### Sound caches -/

/-- What holds of every entry: it carries its id, and its count is that of its readers. -/
structure EntrySound (spec : PrefixCacheSpec) (id : String) (entry : CacheEntryRecord) : Prop where
  entryId : entry.entryId = id
  nodup : entry.readers.Nodup
  counted : entry.refcount = entry.readers.length
  tokenCount : entry.tokenCount = entry.key.length
  blocks : entry.tokenCount % spec.blockSize = 0

theorem EntrySound.touch {id : String} {entry : CacheEntryRecord} (h : EntrySound spec id entry)
    (clock : Nat) (requestId : String) : EntrySound spec id (touch clock requestId entry) := by
  rw [PrefixCache.touch]
  by_cases hreader : requestId ∉ entry.readers
  · rw [if_pos hreader]
    refine ⟨h.entryId, ?_, ?_, h.tokenCount, h.blocks⟩
    · show (entry.readers ++ [requestId]).Nodup
      rw [← concat_eq_append]
      exact h.nodup.concat hreader
    · show entry.refcount + 1 = (entry.readers ++ [requestId]).length
      rw [h.counted, length_append, length_singleton]
  · rw [if_neg hreader]
    exact { h with }

theorem EntrySound.afterRelease {id : String} {entry new : CacheEntryRecord}
    (h : EntrySound spec id entry) {requestId : String} {retain : Bool}
    (hnew : afterRelease requestId retain entry = some new) : EntrySound spec id new := by
  rw [PrefixCache.afterRelease] at hnew
  by_cases hreader : requestId ∉ entry.readers
  · rw [if_pos hreader] at hnew
    rwa [← Option.some.inj hnew]
  rw [if_neg hreader] at hnew
  by_cases hlast : entry.refcount - 1 = 0 ∧ ¬ retain
  · rw [if_pos hlast] at hnew
    cases hnew
  rw [if_neg hlast] at hnew
  cases hnew
  refine ⟨h.entryId, h.nodup.filter _, ?_, h.tokenCount, h.blocks⟩
  show entry.refcount - 1 = (entry.readers.filter (· ≠ requestId)).length
  have herase : entry.readers.filter (· ≠ requestId) = entry.readers.erase requestId := by
    rw [h.nodup.erase_eq_filter]
    exact filter_congr fun reader _ => by simp [bne, Bool.beq_eq_decide_eq]
  rw [herase, length_erase_of_mem (not_not.mp hreader), h.counted]

structure Sound (cache : PrefixCache) : Prop where
  entry : ∀ id entry, cache.entries.get? id = some entry → EntrySound cache.spec id entry

theorem Sound.named (h : cache.Sound) : Named cache.entries :=
  fun id entry hget => (h.entry id entry hget).entryId

theorem sound_new (spec : PrefixCacheSpec) : (new spec).Sound := ⟨nofun⟩

/-- **What `insert` does**: it refuses, or binds the id of the number of entries there are. -/
theorem insert_cases (cache : PrefixCache) (key : PrefixKey) (blockIds : List Nat) (bytesValue : ℚ)
    (requestId : String) :
    ((key.length = 0 ∨ key.length % cache.spec.blockSize ≠ 0 ∨
        blockIds.length ≠ key.length / cache.spec.blockSize) ∧
      ∃ error, cache.insert key blockIds bytesValue requestId = .error error) ∨
    ¬ (key.length = 0 ∨ key.length % cache.spec.blockSize ≠ 0 ∨
        blockIds.length ≠ key.length / cache.spec.blockSize) ∧
      ∃ entry, EntrySound cache.spec (entryId cache.entries.keys.length) entry ∧
        entry.key = key ∧ entry.refcount = 1 ∧
        cache.insert key blockIds bytesValue requestId = .ok (entry, { cache with
          entries := cache.entries.set (entryId cache.entries.keys.length) entry
          clock := cache.clock + 1 }) := by
  rw [insert]
  by_cases hlength : key.length = 0 ∨ key.length % cache.spec.blockSize ≠ 0
  · refine .inl ⟨?_, _, if_pos hlength⟩
    rcases hlength with h | h
    · exact .inl h
    · exact .inr (.inl h)
  rw [if_neg hlength]
  by_cases hblocks : blockIds.length ≠ key.length / cache.spec.blockSize
  · exact .inl ⟨.inr (.inr hblocks), _, if_pos hblocks⟩
  rw [if_neg hblocks]
  rw [not_or, not_not] at hlength
  refine .inr ⟨?_, _, ⟨rfl, nodup_singleton _, rfl, rfl, hlength.2⟩, rfl, rfl, rfl⟩
  rintro (h | h | h)
  · exact hlength.1 h
  · exact h hlength.2
  · exact hblocks h

theorem first_insert (sha256 : String → String) (spec : PrefixCacheSpec) (key : PrefixKey)
    (blockIds : List Nat) (hfits : ¬ (key.length = 0 ∨ key.length % spec.blockSize ≠ 0 ∨
      blockIds.length ≠ key.length / spec.blockSize)) (bytesValue : ℚ) (requestId : String) :
    ∃ entry, ((new spec).call sha256 (.insert key blockIds bytesValue requestId)).entries.get?
        (entryId 0) = some entry ∧
      entry.key = key ∧ entry.tokenCount = key.length ∧ entry.refcount = 1 := by
  rw [PrefixCache.call]
  rcases (new spec).insert_cases key blockIds bytesValue requestId with
    ⟨hrefused, -⟩ | ⟨-, entry, hentry, hkey, hcount, heq⟩
  · exact absurd hrefused hfits
  · rw [heq]
    exact ⟨entry, get?_set_self _ _ _, hkey, hkey ▸ hentry.tokenCount, hcount⟩

theorem spec_call (sha256 : String → String) (cache : PrefixCache) (call : PrefixCall) :
    (cache.call sha256 call).spec = cache.spec := by
  cases call with
  | insert key blockIds bytesValue requestId =>
    rw [PrefixCache.call]
    rcases cache.insert_cases key blockIds bytesValue requestId with
      ⟨-, error, heq⟩ | ⟨-, entry, -, -, -, heq⟩
    · rw [heq]
    · rw [heq]
  | lookup key queryTokens blockGroups requestId =>
    rw [PrefixCache.call, lookup]
    split_ifs
    · rfl
    · rfl
    · rfl
  | release requestId retain => rfl
  | evict targetBytes => rfl
  | reset => rfl

theorem Sound.call (h : cache.Sound) (sha256 : String → String) (call : PrefixCall) :
    (cache.call sha256 call).Sound := by
  constructor
  rw [spec_call]
  cases call with
  | insert key blockIds bytesValue requestId =>
    rw [PrefixCache.call]
    rcases cache.insert_cases key blockIds bytesValue requestId with
      ⟨-, error, heq⟩ | ⟨-, entry, hentry, -, -, heq⟩
    · rw [heq]
      exact h.entry
    · rw [heq]
      intro id new hget
      rw [get?_set] at hget
      by_cases hid : id = entryId cache.entries.keys.length
      · rw [if_pos hid] at hget
        rw [← Option.some.inj hget, hid]
        exact hentry
      · rw [if_neg hid] at hget
        exact h.entry id new hget
  | lookup key queryTokens blockGroups requestId =>
    rw [PrefixCache.call]
    rcases hlookup : cache.lookup sha256 key queryTokens blockGroups requestId with
      error | ⟨result, cache'⟩
    · exact h.entry
    · intro id new hget
      rcases lookup_entries h.named hlookup id with heq | ⟨old, hold, heq⟩
      · exact h.entry id new (heq.symm.trans hget)
      · cases heq.symm.trans hget
        exact (h.entry id old hold).touch _ _
  | release requestId retain =>
    intro id new hget
    rw [PrefixCache.call, release_entries h.named] at hget
    obtain ⟨old, hold, hnew⟩ := Option.bind_eq_some_iff.mp hget
    exact (h.entry id old hold).afterRelease hnew
  | evict targetBytes =>
    intro id new hget
    rcases evict_entries h.named targetBytes id with heq | ⟨hnone, -⟩
    · exact h.entry id new (heq.symm.trans hget)
    · cases hnone.symm.trans hget
  | reset =>
    intro id new hget
    cases hget

theorem sound_of_reachable {cache : PrefixCache} (h : (prefixMachine sha256 spec).Reachable cache) :
    cache.Sound :=
  h.invariant (sound_new spec) fun _ call _ hsound => hsound.call sha256 call

theorem spec_of_reachable {cache : PrefixCache} (h : (prefixMachine sha256 spec).Reachable cache) :
    cache.spec = spec :=
  h.invariant (P := fun cache => cache.spec = spec) rfl
    fun cache call _ hspec => (spec_call sha256 cache call).trans hspec

/-! ### Live entries -/

/-- **No entry is lost**: an insert uses a new id and changes no other entry, and an entry with a
reader stays until its last reader releases it or the cache is reset. -/
structure Keeps (cache : PrefixCache) (call : PrefixCall) (cache' : PrefixCache) : Prop where
  fresh : ∀ key blockIds bytesValue requestId entry after,
    call = .insert key blockIds bytesValue requestId →
      cache.insert key blockIds bytesValue requestId = .ok (entry, after) →
        entry.entryId ∉ cache.entries.keys
  unchanged : ∀ key blockIds bytesValue requestId,
    call = .insert key blockIds bytesValue requestId →
      ∀ id entry, cache.entries.get? id = some entry → cache'.entries.get? id = some entry
  live : call ≠ .reset → ∀ id entry, cache.entries.get? id = some entry → 0 < entry.refcount →
    (∃ new, cache'.entries.get? id = some new ∧ new.key = entry.key ∧
      new.blockIds = entry.blockIds ∧ new.bytesValue = entry.bytesValue) ∨
    ∃ requestId, call = .release requestId false ∧ entry.readers = [requestId]

def Counted (cache : PrefixCache) : Prop :=
  ∀ id entry, cache.entries.get? id = some entry → entry.refcount = entry.readers.dedup.length

theorem Sound.counted (h : cache.Sound) : cache.Counted := by
  intro id entry hget
  have hentry := h.entry id entry hget
  rw [hentry.nodup.dedup]
  exact hentry.counted

/-- An insert that is not refused finds the id of the number of entries unused. -/
def Fits (cache : PrefixCache) : PrefixCall → Prop
  | .insert key blockIds _ _ =>
    (key.length = 0 ∨ key.length % cache.spec.blockSize ≠ 0 ∨
      blockIds.length ≠ key.length / cache.spec.blockSize) ∨
    entryId cache.entries.keys.length ∉ cache.entries.keys
  | _ => True

theorem keeps_of_live {call : PrefixCall}
    (hcall : ∀ key blockIds bytesValue requestId, call ≠ .insert key blockIds bytesValue requestId)
    (hlive : call ≠ .reset → ∀ id entry, cache.entries.get? id = some entry → 0 < entry.refcount →
      (∃ new, cache'.entries.get? id = some new ∧ new.key = entry.key ∧
        new.blockIds = entry.blockIds ∧ new.bytesValue = entry.bytesValue) ∨
      ∃ requestId, call = .release requestId false ∧ entry.readers = [requestId]) :
    cache.Keeps call cache' where
  fresh key blockIds bytesValue requestId _ _ h _ := absurd h (hcall key blockIds bytesValue requestId)
  unchanged key blockIds bytesValue requestId h :=
    absurd h (hcall key blockIds bytesValue requestId)
  live := hlive

theorem Sound.keeps_iff (h : cache.Sound) (sha256 : String → String) (call : PrefixCall) :
    cache.Keeps call (cache.call sha256 call) ↔ cache.Fits call := by
  cases call with
  | insert key blockIds bytesValue requestId =>
    rw [Fits, PrefixCache.call]
    rcases cache.insert_cases key blockIds bytesValue requestId with
      ⟨hrefused, error, heq⟩ | ⟨hserved, entry, hentry, -, -, heq⟩
    · rw [heq]
      refine ⟨fun _ => .inl hrefused, fun _ => ⟨?_, fun _ _ _ _ _ id old hget => hget, ?_⟩⟩
      · intro key' blockIds' bytesValue' requestId' new after hcall hok
        injection hcall with hkey hids hbytes hrequest
        rw [← hkey, ← hids, ← hbytes, ← hrequest, heq] at hok
        cases hok
      · exact fun _ id old hget _ => .inl ⟨old, hget, rfl, rfl, rfl⟩
    · rw [heq]
      rw [or_iff_right hserved]
      constructor
      · intro hkeeps
        have hfresh := hkeeps.fresh key blockIds bytesValue requestId entry _ rfl heq
        rwa [hentry.entryId] at hfresh
      · intro hfresh
        have hget : ∀ id old, cache.entries.get? id = some old →
            (cache.entries.set (entryId cache.entries.keys.length) entry).get? id = some old := by
          intro id old hold
          rw [get?_set_of_ne _ _ ?_, hold]
          rintro rfl
          exact hfresh (mem_keys_of_get? hold)
        refine ⟨?_, fun _ _ _ _ _ => hget, fun _ id old hold _ => .inl ⟨old, hget id old hold, rfl, rfl, rfl⟩⟩
        intro key' blockIds' bytesValue' requestId' new after hcall hok
        injection hcall with hkey hids hbytes hrequest
        rw [← hkey, ← hids, ← hbytes, ← hrequest, heq] at hok
        rw [← (Prod.mk.inj (Except.ok.inj hok)).1, hentry.entryId]
        exact hfresh
  | lookup key queryTokens blockGroups requestId =>
    refine ⟨fun _ => trivial, fun _ => keeps_of_live (by simp) fun _ id old hold _ => .inl ?_⟩
    rw [PrefixCache.call]
    rcases hlookup : cache.lookup sha256 key queryTokens blockGroups requestId with
      error | ⟨result, cache'⟩
    · exact ⟨old, hold, rfl, rfl, rfl⟩
    · rcases lookup_entries h.named hlookup id with heq | ⟨old', hold', heq⟩
      · exact ⟨old, heq.trans hold, rfl, rfl, rfl⟩
      · cases hold.symm.trans hold'
        refine ⟨_, heq, ?_⟩
        rw [touch]
        split_ifs
        · exact ⟨rfl, rfl, rfl⟩
        · exact ⟨rfl, rfl, rfl⟩
  | release requestId retain =>
    refine ⟨fun _ => trivial, fun _ => keeps_of_live (by simp) fun _ id old hold hlive => ?_⟩
    have hentry := h.entry id old hold
    rw [PrefixCache.call, release_entries h.named, hold, Option.bind_some, afterRelease]
    by_cases hreader : requestId ∉ old.readers
    · rw [if_pos hreader]
      exact .inl ⟨old, rfl, rfl, rfl, rfl⟩
    rw [if_neg hreader]
    by_cases hlast : old.refcount - 1 = 0 ∧ ¬ retain
    · -- the one reader there is releases it
      have hone : old.readers.length = 1 := by
        have := hentry.counted
        omega
      obtain ⟨reader, hreaders⟩ := length_eq_one_iff.mp hone
      rw [hreaders, not_not, mem_singleton] at hreader
      exact .inr ⟨requestId, by rw [Bool.eq_false_iff.mpr hlast.2], by rw [hreaders, hreader]⟩
    · rw [if_neg hlast]
      exact .inl ⟨_, rfl, rfl, rfl, rfl⟩
  | evict targetBytes =>
    refine ⟨fun _ => trivial, fun _ => keeps_of_live (by simp) fun _ id old hold hlive => .inl ?_⟩
    rcases evict_entries h.named targetBytes id with heq | ⟨-, old', hold', hidle⟩
    · exact ⟨old, heq.trans hold, rfl, rfl, rfl⟩
    · cases hold.symm.trans hold'
      omega
  | reset => exact ⟨fun _ => trivial, fun _ => keeps_of_live (by simp) fun hne => absurd rfl hne⟩

end PrefixCache

/-- Along a run a call keeps the entries exactly if it fits. -/
theorem keeps_run_iff (sha256 : String → String) (spec : PrefixCacheSpec) (made : List PrefixCall)
    (call : PrefixCall) :
    ((prefixMachine sha256 spec).run made).Keeps call
      ((prefixMachine sha256 spec).run (made ++ [call])) ↔
        ((prefixMachine sha256 spec).run made).Fits call := by
  have hsound : ((prefixMachine sha256 spec).run made).Sound :=
    PrefixCache.sound_of_reachable (Machine.reachable_run made)
  have hconcat : (prefixMachine sha256 spec).run (made ++ [call]) =
      ((prefixMachine sha256 spec).run made).call sha256 call := Machine.runFrom_concat _ _ _
  rw [hconcat]
  exact hsound.keeps_iff sha256 call

/-- **The cache loses no entry exactly along the runs whose inserts find a new id**, and its counts
are right along every run. -/
theorem prefix_cache_keeps_iff (sha256 : String → String) (spec : PrefixCacheSpec)
    (calls : List PrefixCall) :
    ((∀ made call, made ++ [call] <+: calls →
        ((prefixMachine sha256 spec).run made).Keeps call
          ((prefixMachine sha256 spec).run (made ++ [call]))) ↔
      (prefixMachine sha256 spec).Guarded PrefixCache.Fits (.new spec) calls) ∧
    ∀ made, made <+: calls → ((prefixMachine sha256 spec).run made).Counted := by
  refine ⟨?_, fun made _ => (PrefixCache.sound_of_reachable (Machine.reachable_run made)).counted⟩
  rw [Machine.guarded_iff_runFrom]
  simp only [keeps_run_iff]
  rfl

def oneTokenBlocks : PrefixCacheSpec where
  blockSize := 1
  blockSize_pos := Nat.one_pos
  maxCacheBytes := 1
  maxCacheBytes_pos := by decide

def oneTokenKey : PrefixKey where
  identity := ⟨"", "", "", "", "", "", "", "", "", "", "full_attention", "shared", ""⟩
  parentChainDigest := "parent"
  blockTokenSequenceHash := "hash"
  tokens := [1]

/-- With the first of two entries gone, the next insert takes the place of the second. -/
theorem insert_replaces_live_entry :
    ¬ ∃ sha256 : String → String, ∀ (spec : PrefixCacheSpec) (made : List PrefixCall)
      (call : PrefixCall), ((prefixMachine sha256 spec).run made).Keeps call
        ((prefixMachine sha256 spec).run (made ++ [call])) := by
  rintro ⟨sha256, h⟩
  have hfits := h oneTokenBlocks
    [.insert oneTokenKey [0] 1 "p", .insert oneTokenKey [1] 1 "q", .release "p" false]
    (.insert oneTokenKey [2] 1 "r")
  rw [keeps_run_iff] at hfits
  simp only [Machine.run, Machine.runFrom_cons, Machine.runFrom_nil, prefixMachine,
    PrefixCache.call, PrefixCache.Fits] at hfits
  revert hfits
  decide +kernel

end Hqsb
