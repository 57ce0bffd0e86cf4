/-
Hqsb/Runtime/PrefixLookup.lean

What a lookup of the prefix cache answers.

An entry is accepted as a whole or not at all: `usable` is the length of the
whole blocks that fit both the entry and the query, and `Accepts` says when
`_match_entry` accepts it.  `lookup_cached` gives the answer in these terms: the
longest accepted entry when only the query's own block group is requested, and
nothing otherwise, since the identity that an entry must share with the query
contains the block group.

Two results compare this with what a lookup is for.  `lookup_sound_iff`: the
tokens served may follow other tokens than the query's, for the parent chain is
not part of the comparison.  `lookup_complete_iff`: a prefix that every requested
group holds is found when one group is requested and an entry agrees as a whole.
-/
import Hqsb.Runtime.PrefixEntries

namespace Hqsb

open Lib List

namespace PrefixCache

variable {sha256 : String → String} {spec : PrefixCacheSpec}
variable {entries : OrderedDict String CacheEntryRecord} {cache cache' : PrefixCache}
variable {entry : CacheEntryRecord} {query : PrefixKey} {queryTokens : Nat}
variable {blockGroups : List String} {requestId : String} {result : LookupResult}

/-! ### One entry -/

variable (spec entry queryTokens)

def usable : Nat :=
  min entry.tokenCount queryTokens - min entry.tokenCount queryTokens % spec.blockSize

theorem usable_le : usable spec entry queryTokens ≤ queryTokens :=
  (Nat.sub_le _ _).trans (min_le_right _ _)

theorem usable_mod : usable spec entry queryTokens % spec.blockSize = 0 :=
  Nat.mod_eq_zero_of_dvd (Nat.dvd_sub_mod _)

variable {spec entry queryTokens}

variable (sha256 spec)

/-- When the entry serves the query. -/
structure Accepts (entry : CacheEntryRecord)
    (query : PrefixKey) (queryTokens : Nat) : Prop where
  identity : entry.key.identity = query.identity
  live : 0 < entry.refcount
  whole : 0 < usable spec entry queryTokens
  digest : if entry.key.digest ≠ "" then entry.key.digest = query.effectiveDigest sha256
    else tokenDigest sha256 (entry.key.tokens.take (usable spec entry queryTokens)) =
      tokenDigest sha256 (query.tokens.take (usable spec entry queryTokens))
  tokens : spec.collisionPolicy = .digestPlusTokenEquality →
    entry.key.tokens.take (usable spec entry queryTokens) =
      query.tokens.take (usable spec entry queryTokens)

/-- **The decision of `_match_entry`.** -/
theorem matchEntry_accepted (entry : CacheEntryRecord) (query : PrefixKey) (queryTokens : Nat) :
    ((matchEntry sha256 spec entry query queryTokens).accepted = true ↔
      Accepts sha256 spec entry query queryTokens) ∧
    ((matchEntry sha256 spec entry query queryTokens).accepted = true →
      (matchEntry sha256 spec entry query queryTokens).length = usable spec entry queryTokens) := by
  rw [matchEntry]
  by_cases hidentity : entry.key.identity = query.identity
  swap
  · rw [if_pos (by simpa [PrefixKey.identityMatches] using hidentity)]
    exact ⟨⟨nofun, fun h => absurd h.identity hidentity⟩, nofun⟩
  rw [if_neg (by simpa [PrefixKey.identityMatches] using hidentity)]
  by_cases hlive : entry.refcount = 0
  · rw [if_pos hlive]
    exact ⟨⟨nofun, fun h => absurd hlive h.live.ne'⟩, nofun⟩
  rw [if_neg hlive]
  have husable : min entry.tokenCount queryTokens -
      min entry.tokenCount queryTokens % spec.blockSize = usable spec entry queryTokens := rfl
  simp only [husable]
  by_cases hwhole : usable spec entry queryTokens = 0
  · rw [if_pos hwhole]
    exact ⟨⟨nofun, fun h => absurd hwhole h.whole.ne'⟩, nofun⟩
  rw [if_neg hwhole]
  obtain ⟨matched, heq, hmatched⟩ : ∃ matched, (if entry.key.digest ≠ "" then
        decide (entry.key.digest = query.effectiveDigest sha256)
      else decide (tokenDigest sha256 (entry.key.tokens.take (usable spec entry queryTokens)) =
        tokenDigest sha256 (query.tokens.take (usable spec entry queryTokens)))) = matched ∧
      (matched = true ↔
        if entry.key.digest ≠ "" then entry.key.digest = query.effectiveDigest sha256
        else tokenDigest sha256 (entry.key.tokens.take (usable spec entry queryTokens)) =
          tokenDigest sha256 (query.tokens.take (usable spec entry queryTokens))) :=
    ⟨_, rfl, by split_ifs <;> exact decide_eq_true_iff⟩
  rw [heq]
  by_cases hdigest : matched = true
  swap
  · rw [if_pos hdigest]
    exact ⟨⟨nofun, fun h => absurd (hmatched.mpr h.digest) hdigest⟩, nofun⟩
  rw [if_neg (not_not.mpr hdigest)]
  replace hdigest := hmatched.mp hdigest
  have haccepts : (spec.collisionPolicy = .digestPlusTokenEquality →
      entry.key.tokens.take (usable spec entry queryTokens) =
        query.tokens.take (usable spec entry queryTokens)) →
      Accepts sha256 spec entry query queryTokens :=
    fun h => ⟨hidentity, pos_of_ne_zero hlive, pos_of_ne_zero hwhole, hdigest, h⟩
  by_cases htokens : query.tokens.take (usable spec entry queryTokens) ≠
      entry.key.tokens.take (usable spec entry queryTokens)
  · rw [if_pos htokens]
    by_cases hpolicy : spec.collisionPolicy = .digestPlusTokenEquality
    · rw [if_pos hpolicy]
      exact ⟨⟨nofun, fun h => absurd (h.tokens hpolicy).symm htokens⟩, nofun⟩
    · rw [if_neg hpolicy]
      exact ⟨⟨fun _ => haccepts fun h => absurd h hpolicy, fun _ => rfl⟩, fun _ => rfl⟩
  · rw [if_neg htokens]
    rw [not_not] at htokens
    exact ⟨⟨fun _ => haccepts fun _ => htokens.symm, fun _ => rfl⟩, fun _ => rfl⟩

/-! ### The loop -/

/-- The longest length found for a group so far. -/
def Scan.best (scan : Scan) (group : String) : Nat := (scan.perGroup.get? group).getD 0

theorem best_entry (query : PrefixKey)
    (queryTokens : Nat) (blockGroups : List String) (scan : Scan) (entry : CacheEntryRecord)
    (group : String) :
    (Scan.entry sha256 spec query queryTokens blockGroups scan entry).best group =
      if entry.blockGroup = group ∧ group ∈ blockGroups ∧
          (matchEntry sha256 spec entry query queryTokens).accepted then
        max (scan.best group) (usable spec entry queryTokens)
      else scan.best group := by
  rw [Scan.entry]
  by_cases hmem : entry.blockGroup ∉ blockGroups
  · rw [if_pos hmem, if_neg]
    rintro ⟨rfl, hgroup, -⟩
    exact hmem hgroup
  rw [if_neg hmem]
  rw [not_not] at hmem
  by_cases haccepted : (matchEntry sha256 spec entry query queryTokens).accepted
  · have hlength := (matchEntry_accepted sha256 spec entry query queryTokens).2 haccepted
    simp only [haccepted, not_true_eq_false, if_false, hlength, Scan.best, OrderedDict.get?_set]
    by_cases hgroup : group = entry.blockGroup
    · subst hgroup
      rw [if_pos rfl, if_pos ⟨rfl, hmem, trivial⟩, Option.getD_some]
    · rw [if_neg hgroup, if_neg fun h => hgroup h.1.symm]
  · simp only [haccepted, Bool.false_eq_true, not_false_eq_true, if_true, and_false, if_false,
      Scan.best]

variable {sha256 spec}

/-- **What the loop finds for a group**: the longest of the accepted entries. -/
theorem best_foldl (query : PrefixKey) (queryTokens : Nat) (blockGroups : List String)
    (scan : Scan) (entries : List CacheEntryRecord) {group : String} (hgroup : group ∈ blockGroups) :
    (entries.foldl (Scan.entry sha256 spec query queryTokens blockGroups) scan).best group =
      ((entries.filter fun entry => entry.blockGroup = group ∧
          (matchEntry sha256 spec entry query queryTokens).accepted).map fun entry =>
        usable spec entry queryTokens).foldl max (scan.best group) := by
  induction entries generalizing scan with
  | nil => rfl
  | cons entry entries ih =>
    rw [foldl_cons, ih, best_entry, filter_cons]
    simp only [hgroup, true_and, decide_eq_true_eq]
    split_ifs <;> rfl

theorem minOrZero_spec {ns : List Nat} (h : ns ≠ []) : minOrZero ns ∈ ns ∧ ∀ m ∈ ns, minOrZero ns ≤ m := by
  cases ns with
  | nil => exact absurd rfl h
  | cons n ns => exact List.min?_eq_some_iff.mp rfl

/-! ### The answer -/

/-- **What `lookup` answers.**  Only entries of the query's own block group are accepted, so any
other requested group leaves nothing. -/
theorem lookup_cached
    (h : cache.lookup sha256 query queryTokens blockGroups requestId = .ok (result, cache')) :
    queryTokens ≤ query.length ∧
    ((¬ ∀ group ∈ blockGroups, group = query.identity.blockGroup) → result.cachedTokens = 0) ∧
    (blockGroups = [] → result.cachedTokens = 0) ∧
    (blockGroups ≠ [] → (∀ group ∈ blockGroups, group = query.identity.blockGroup) →
      (∀ id entry, cache.entries.get? id = some entry →
        Accepts sha256 cache.spec entry query queryTokens →
          usable cache.spec entry queryTokens ≤ result.cachedTokens) ∧
      (result.cachedTokens = 0 ∨ ∃ id entry, cache.entries.get? id = some entry ∧
        Accepts sha256 cache.spec entry query queryTokens ∧
          result.cachedTokens = usable cache.spec entry queryTokens)) := by
  rw [lookup] at h
  by_cases hzero : queryTokens = 0
  · rw [if_pos hzero] at h
    cases h
  rw [if_neg hzero] at h
  by_cases hbeyond : query.length < queryTokens
  · rw [if_pos hbeyond] at h
    cases h
  rw [if_neg hbeyond] at h
  set scan := cache.entries.values.foldl
    (Scan.entry sha256 cache.spec query queryTokens blockGroups) {} with hscan
  have hbest : ∀ group ∈ blockGroups,
      (∀ entry ∈ cache.entries.values, entry.blockGroup = group →
        Accepts sha256 cache.spec entry query queryTokens →
          usable cache.spec entry queryTokens ≤ scan.best group) ∧
      (scan.best group = 0 ∨ ∃ entry ∈ cache.entries.values, entry.blockGroup = group ∧
        Accepts sha256 cache.spec entry query queryTokens ∧
          scan.best group = usable cache.spec entry queryTokens) :=
    by
    intro group hgroup
    have hmax : scan.best group = _ :=
      best_foldl query queryTokens blockGroups {} cache.entries.values hgroup
    obtain ⟨hmem, hle⟩ :=
      List.max?_eq_some_iff.mp (List.max?_cons'.trans (congrArg some hmax.symm))
    refine ⟨fun entry hentry hown haccepts => hle _ (.tail _ (mem_map.mpr
      ⟨entry, mem_filter.mpr ⟨hentry, decide_eq_true ⟨hown, ?_⟩⟩, rfl⟩)), ?_⟩
    · exact (matchEntry_accepted ..).1.mpr haccepts
    · refine (mem_cons.mp hmem).imp_right fun hlater => ?_
      obtain ⟨entry, hentry, heq⟩ := mem_map.mp hlater
      obtain ⟨hvalue, hown⟩ := mem_filter.mp hentry
      obtain ⟨hown, haccepted⟩ := of_decide_eq_true hown
      exact ⟨entry, hvalue, hown, (matchEntry_accepted ..).1.mp haccepted, heq.symm⟩
  have hcached : result.cachedTokens =
      minOrZero (blockGroups.map scan.best) / cache.spec.blockSize * cache.spec.blockSize := by
    rw [← (Prod.mk.inj (Except.ok.inj h)).1]
    rfl
  refine ⟨not_lt.mp hbeyond, ?_, ?_, ?_⟩
  · intro hother
    rw [not_forall] at hother
    obtain ⟨group, hother⟩ := hother
    rw [Classical.not_imp] at hother
    obtain ⟨hmem, hne⟩ := hother
    have hnone : scan.best group = 0 := by
      rcases (hbest group hmem).2 with hnone | ⟨entry, -, hgroup, haccepts, -⟩
      · exact hnone
      · rw [CacheEntryRecord.blockGroup, haccepts.identity] at hgroup
        exact absurd hgroup.symm hne
    have hbests : scan.best group ∈ blockGroups.map scan.best := mem_map_of_mem hmem
    have hle := (minOrZero_spec (ne_nil_of_mem hbests)).2 _ hbests
    rw [hnone, Nat.le_zero] at hle
    rw [hcached, hle, Nat.zero_div, Nat.zero_mul]
  · intro hnil
    rw [hcached, hnil, map_nil, minOrZero, Nat.zero_div, Nat.zero_mul]
  · intro hne hown
    obtain ⟨group, hmem⟩ := exists_mem_of_ne_nil blockGroups hne
    obtain rfl := hown group hmem
    have hmin : minOrZero (blockGroups.map scan.best) = scan.best query.identity.blockGroup := by
      have hbests : scan.best query.identity.blockGroup ∈ blockGroups.map scan.best :=
        mem_map_of_mem hmem
      obtain ⟨group, hgroup, heq⟩ :=
        mem_map.mp (minOrZero_spec (ne_nil_of_mem hbests)).1
      rw [← heq, hown group hgroup]
    obtain ⟨hall, hfound⟩ := hbest _ hmem
    have hmultiple : result.cachedTokens = scan.best query.identity.blockGroup := by
      rw [hcached, hmin]
      apply Nat.div_mul_cancel
      rcases hfound with hnone | ⟨entry, -, -, -, heq⟩
      · rw [hnone]
        exact ⟨0, rfl⟩
      · rw [heq]
        exact Nat.dvd_of_mod_eq_zero (usable_mod _ _ _)
    rw [hmultiple]
    constructor
    · intro id entry hget haccepts
      refine hall entry (cache.entries.mem_values_iff.mpr ⟨id, hget⟩) ?_ haccepts
      rw [CacheEntryRecord.blockGroup, haccepts.identity]
    · rcases hfound with hnone | ⟨entry, hvalue, -, haccepts, heq⟩
      · exact .inl hnone
      · obtain ⟨id, hget⟩ := cache.entries.mem_values_iff.mp hvalue
        exact .inr ⟨id, entry, hget, haccepts, heq⟩

/-! ### Soundness -/

/-- The key was made by `build_prefix_key`. -/
def BuiltKey (sha256 : String → String) (key : PrefixKey) : Prop :=
  ∃ request, buildPrefixKey sha256 request = .ok key

theorem BuiltKey.digest {key : PrefixKey} (h : BuiltKey sha256 key) : key.digest = "" := by
  obtain ⟨request, h⟩ := h
  rw [buildPrefixKey] at h
  by_cases hspan : request.tokenSpan.1 < 0 ∨ request.tokens.length < request.tokenSpan.2
  · rw [if_pos hspan] at h
    cases h
  · rw [if_neg hspan] at h
    rw [← Except.ok.inj h]

/-- Every entry of the cache has a key that satisfies `P`. -/
def KeysSatisfy (P : PrefixKey → Prop) (cache : PrefixCache) : Prop :=
  ∀ id entry, cache.entries.get? id = some entry → P entry.key

/-- An insert is of a key that satisfies `P`. -/
def InsertsSatisfy (P : PrefixKey → Prop) : PrefixCall → Prop
  | .insert key _ _ _ => P key
  | _ => True

theorem KeysSatisfy.call {P : PrefixKey → Prop} (h : KeysSatisfy P cache) (hsound : cache.Sound)
    {call : PrefixCall} (hcall : InsertsSatisfy P call) :
    KeysSatisfy P (cache.call sha256 call) := by
  cases call with
  | insert key blockIds bytesValue requestId =>
    rw [PrefixCache.call]
    rcases cache.insert_cases key blockIds bytesValue requestId with
      ⟨-, error, heq⟩ | ⟨-, entry, -, hkey, -, heq⟩
    · rw [heq]
      exact h
    · rw [heq]
      intro id new hget
      rw [OrderedDict.get?_set] at hget
      by_cases hid : id = entryId cache.entries.keys.length
      · rw [if_pos hid] at hget
        rw [← Option.some.inj hget, hkey]
        exact hcall
      · rw [if_neg hid] at hget
        exact h id new hget
  | lookup key queryTokens blockGroups requestId =>
    rw [PrefixCache.call]
    rcases hlookup : cache.lookup sha256 key queryTokens blockGroups requestId with
      error | ⟨result, cache'⟩
    · exact h
    · intro id new hget
      rcases lookup_entries hsound.named hlookup id with heq | ⟨old, hold, heq⟩
      · exact h id new (heq.symm.trans hget)
      · cases heq.symm.trans hget
        rw [touch]
        split_ifs
        · exact h id old hold
        · exact h id old hold
  | release requestId retain =>
    intro id new hget
    rw [PrefixCache.call, release_entries hsound.named] at hget
    obtain ⟨old, hold, hnew⟩ := Option.bind_eq_some_iff.mp hget
    have hkey : new.key = old.key := by
      rw [afterRelease] at hnew
      split_ifs at hnew
      · rw [← Option.some.inj hnew]
      · rw [Option.some.inj hnew]
    rw [hkey]
    exact h id old hold
  | evict targetBytes =>
    intro id new hget
    rcases evict_entries hsound.named targetBytes id with heq | ⟨hnone, -⟩
    · exact h id new (heq.symm.trans hget)
    · cases hnone.symm.trans hget
  | reset =>
    intro id new hget
    cases hget

theorem keysSatisfy_run {P : PrefixKey → Prop} {calls : List PrefixCall}
    (hcalls : ∀ call ∈ calls, InsertsSatisfy P call) :
    KeysSatisfy P ((prefixMachine sha256 spec).run calls) := by
  induction calls using List.reverseRecOn with
  | nil =>
    intro id entry hget
    cases hget
  | append_singleton calls call ih =>
    rw [forall_mem_append] at hcalls
    have hconcat : (prefixMachine sha256 spec).run (calls ++ [call]) =
        ((prefixMachine sha256 spec).run calls).call sha256 call := Machine.runFrom_concat _ _ _
    rw [hconcat]
    exact (ih hcalls.1).call (sound_of_reachable (Machine.reachable_run calls))
      (hcalls.2 call (mem_singleton_self call))

/-- An entry has the query's identity, parent chain and first `length` tokens. -/
def Backed (cache : PrefixCache) (query : PrefixKey) (length : Nat) : Prop :=
  ∃ id entry, cache.entries.get? id = some entry ∧ entry.key.identity = query.identity ∧
    entry.key.parentChainDigest = query.parentChainDigest ∧
      entry.key.tokens.take length = query.tokens.take length

theorem take_eq_of_le {l l' : List Int} {n n' : Nat} (h : l.take n' = l'.take n') (hle : n ≤ n') :
    l.take n = l'.take n := by
  have := congrArg (List.take n) h
  rwa [take_take, take_take, min_eq_left hle] at this

theorem Backed.mono {length length' : Nat} (h : Backed cache query length') (hle : length ≤ length') :
    Backed cache query length := by
  obtain ⟨id, entry, hget, hidentity, hparent, htokens⟩ := h
  exact ⟨id, entry, hget, hidentity, hparent, take_eq_of_le htokens hle⟩

/-- Every entry that agrees with the query as a whole, in identity and tokens, is backed by one
that has the query's parent chain as well. -/
def ParentsAgree (cache : PrefixCache) (query : PrefixKey) (queryTokens : Nat)
    (blockGroups : List String) : Prop :=
  blockGroups ≠ [] → (∀ group ∈ blockGroups, group = query.identity.blockGroup) →
    ∀ id entry, cache.entries.get? id = some entry → entry.key.identity = query.identity →
      0 < entry.refcount → 0 < usable cache.spec entry queryTokens →
      entry.key.tokens.take (usable cache.spec entry queryTokens) =
        query.tokens.take (usable cache.spec entry queryTokens) →
      Backed cache query (usable cache.spec entry queryTokens)

/-- What is served for every requested group follows the query's parent chain. -/
def ServedBacked (cache : PrefixCache) (query : PrefixKey) (blockGroups : List String)
    (cachedTokens : Nat) : Prop :=
  0 < cachedTokens → ∀ group ∈ blockGroups, ∃ id entry,
    cache.entries.get? id = some entry ∧ entry.blockGroup = group ∧
      entry.key.identity = query.identity ∧
      entry.key.parentChainDigest = query.parentChainDigest ∧
      entry.key.tokens.take cachedTokens = query.tokens.take cachedTokens

theorem servedBacked_iff (hpolicy : cache.spec.collisionPolicy = .digestPlusTokenEquality)
    (hkeys : KeysSatisfy (fun key => key.digest = "") cache)
    (h : cache.lookup sha256 query queryTokens blockGroups requestId = .ok (result, cache')) :
    ServedBacked cache query blockGroups result.cachedTokens ↔
      ParentsAgree cache query queryTokens blockGroups := by
  obtain ⟨-, hother, hnil, hown⟩ := lookup_cached h
  constructor
  · intro hserved hne hgroups id entry hget hidentity hlive hwhole htokens
    have haccepts : Accepts sha256 cache.spec entry query queryTokens := by
      refine ⟨hidentity, hlive, hwhole, ?_, fun _ => htokens⟩
      rw [if_neg (not_not.mpr (hkeys id entry hget)), htokens]
    have hle := (hown hne hgroups).1 id entry hget haccepts
    obtain ⟨group, hmem⟩ := exists_mem_of_ne_nil blockGroups hne
    obtain ⟨id', entry', hget', -, hbacked⟩ := hserved (hwhole.trans_le hle) group hmem
    exact Backed.mono ⟨id', entry', hget', hbacked⟩ hle
  · intro hagree hpos group hmem
    have hgroups : ∀ group ∈ blockGroups, group = query.identity.blockGroup := by
      by_contra hne
      rw [hother hne] at hpos
      exact lt_irrefl 0 hpos
    have hne := ne_nil_of_mem hmem
    rcases (hown hne hgroups).2 with hzero | ⟨id, entry, hget, haccepts, heq⟩
    · rw [hzero] at hpos
      exact absurd hpos (lt_irrefl 0)
    · obtain ⟨id', entry', hget', hidentity, hbacked⟩ := hagree hne hgroups id entry hget
        haccepts.identity haccepts.live haccepts.whole (haccepts.tokens hpolicy)
      refine ⟨id', entry', hget', ?_, hidentity, heq ▸ hbacked⟩
      rw [CacheEntryRecord.blockGroup, hidentity, hgroups group hmem]

/-! ### Completeness -/

def AgreesButGroup (key other : PrefixKey) : Prop :=
  { key.identity with blockGroup := "" } = { other.identity with blockGroup := "" }

/-- A referenced entry of the group holds the first `length` tokens of the query. -/
def Serves (cache : PrefixCache) (query : PrefixKey) (group : String) (length : Nat) : Prop :=
  ∃ id entry, cache.entries.get? id = some entry ∧ entry.blockGroup = group ∧
    0 < entry.refcount ∧ AgreesButGroup entry.key query ∧
      entry.key.tokens.take length = query.tokens.take length

theorem Serves.mono {group : String} {length length' : Nat} (h : Serves cache query group length')
    (hle : length ≤ length') : Serves cache query group length := by
  obtain ⟨id, entry, hget, hgroup, hlive, hagrees, htokens⟩ := h
  exact ⟨id, entry, hget, hgroup, hlive, hagrees, take_eq_of_le htokens hle⟩

/-- The lengths that every requested group can serve, in whole blocks. -/
def reusable (cache : PrefixCache) (query : PrefixKey) (queryTokens : Nat)
    (blockGroups : List String) : Set Nat :=
  { length | length % cache.spec.blockSize = 0 ∧ length ≤ queryTokens ∧
    (length = 0 ∨ ∀ group ∈ blockGroups, Serves cache query group length) }

/-- When only the query's own group is requested: an accepted entry stands for a prefix that the
cache holds, and every whole-block prefix that it holds is covered by an accepted entry.  When
another group is requested: not even one block is held for every group. -/
structure Covered (sha256 : String → String) (cache : PrefixCache) (query : PrefixKey)
    (queryTokens : Nat) (blockGroups : List String) : Prop where
  held : (∀ group ∈ blockGroups, group = query.identity.blockGroup) →
    ∀ id entry, cache.entries.get? id = some entry →
      Accepts sha256 cache.spec entry query queryTokens →
        Serves cache query query.identity.blockGroup (usable cache.spec entry queryTokens)
  accepted : (∀ group ∈ blockGroups, group = query.identity.blockGroup) →
    ∀ length, 0 < length → length % cache.spec.blockSize = 0 → length ≤ queryTokens →
      Serves cache query query.identity.blockGroup length →
        ∃ id entry, cache.entries.get? id = some entry ∧
          Accepts sha256 cache.spec entry query queryTokens ∧
            length ≤ usable cache.spec entry queryTokens
  other : (¬ ∀ group ∈ blockGroups, group = query.identity.blockGroup) →
    queryTokens < cache.spec.blockSize ∨
      ∃ group ∈ blockGroups, ¬ Serves cache query group cache.spec.blockSize

theorem isGreatest_own_iff (hne : blockGroups ≠ [])
    (hown : ∀ group ∈ blockGroups, group = query.identity.blockGroup)
    (h : cache.lookup sha256 query queryTokens blockGroups requestId = .ok (result, cache')) :
    IsGreatest (reusable cache query queryTokens blockGroups) result.cachedTokens ↔
      Covered sha256 cache query queryTokens blockGroups := by
  obtain ⟨-, -, -, hcached⟩ := lookup_cached h
  obtain ⟨hall, hfound⟩ := hcached hne hown
  obtain ⟨group, hmem⟩ := exists_mem_of_ne_nil blockGroups hne
  obtain rfl := hown group hmem
  constructor
  · rintro ⟨⟨-, -, hserves⟩, hupper⟩
    refine ⟨fun _ id entry hget haccepts => ?_, fun _ length hpos hmod hle hlength => ?_,
      fun hother => absurd hown hother⟩
    · have hle := hall id entry hget haccepts
      have hpos := haccepts.whole.trans_le hle
      exact (hserves.resolve_left hpos.ne' _ hmem).mono hle
    · have hin : length ∈ reusable cache query queryTokens blockGroups :=
        ⟨hmod, hle, .inr fun group hgroup => (hown group hgroup).symm ▸ hlength⟩
      have hle' := hupper hin
      obtain ⟨id, entry, hget, haccepts, heq⟩ := hfound.resolve_left (hpos.trans_le hle').ne'
      exact ⟨id, entry, hget, haccepts, heq ▸ hle'⟩
  · intro hcovered
    constructor
    · rcases hfound with hzero | ⟨id, entry, hget, haccepts, heq⟩
      · rw [hzero]
        exact ⟨Nat.zero_mod _, Nat.zero_le _, .inl rfl⟩
      · rw [heq]
        refine ⟨usable_mod _ _ _, usable_le _ _ _, .inr fun group hgroup => ?_⟩
        rw [hown group hgroup]
        exact hcovered.held hown id entry hget haccepts
    · rintro length ⟨hmod, hle, hzero | hserves⟩
      · rw [hzero]
        exact Nat.zero_le _
      · rcases Nat.eq_zero_or_pos length with hzero | hpos
        · rw [hzero]
          exact Nat.zero_le _
        · obtain ⟨id, entry, hget, haccepts, hlength⟩ :=
            hcovered.accepted hown length hpos hmod hle (hserves _ hmem)
          exact hlength.trans (hall id entry hget haccepts)

theorem isGreatest_other_iff (hother : ¬ ∀ group ∈ blockGroups, group = query.identity.blockGroup)
    (h : cache.lookup sha256 query queryTokens blockGroups requestId = .ok (result, cache')) :
    IsGreatest (reusable cache query queryTokens blockGroups) result.cachedTokens ↔
      Covered sha256 cache query queryTokens blockGroups := by
  obtain ⟨-, hcached, -, -⟩ := lookup_cached h
  rw [hcached hother]
  constructor
  · rintro ⟨-, hupper⟩
    refine ⟨fun hown => absurd hown hother, fun hown => absurd hown hother, fun _ => ?_⟩
    by_contra hserved
    push Not at hserved
    have hin : cache.spec.blockSize ∈ reusable cache query queryTokens blockGroups :=
      ⟨Nat.mod_self _, hserved.1, .inr hserved.2⟩
    exact absurd (hupper hin) (not_le.mpr cache.spec.blockSize_pos)
  · intro hcovered
    refine ⟨⟨Nat.zero_mod _, Nat.zero_le _, .inl rfl⟩, ?_⟩
    rintro length ⟨hmod, hle, hzero | hserves⟩
    · exact hzero.le
    · rcases Nat.eq_zero_or_pos length with hzero | hpos
      · exact hzero.le
      · -- a positive length holds at least one block
        have hblock : cache.spec.blockSize ≤ length :=
          Nat.le_of_dvd hpos (Nat.dvd_of_mod_eq_zero hmod)
        rcases hcovered.other hother with hshort | ⟨group, hgroup, hnone⟩
        · omega
        · exact absurd ((hserves group hgroup).mono hblock) hnone

end PrefixCache

open PrefixCache

section

variable (sha256 : String → String) (spec : PrefixCacheSpec)

/-- **A lookup is sound exactly if the parent chains agree wherever the tokens do.** -/
theorem lookup_sound_iff
    (hpolicy : spec.collisionPolicy = .digestPlusTokenEquality) (calls : List PrefixCall)
    (hcalls : ∀ call ∈ calls, InsertsSatisfy (BuiltKey sha256) call) (query : PrefixKey)
    (queryTokens : Nat) (blockGroups : List String) (requestId : String) (result : LookupResult)
    (cache' : PrefixCache)
    (hlookup : ((prefixMachine sha256 spec).run calls).lookup sha256 query queryTokens blockGroups
      requestId = .ok (result, cache')) :
    ServedBacked ((prefixMachine sha256 spec).run calls) query blockGroups result.cachedTokens ↔
      ParentsAgree ((prefixMachine sha256 spec).run calls) query queryTokens blockGroups := by
  have hspec : ((prefixMachine sha256 spec).run calls).spec = spec :=
    spec_of_reachable (Machine.reachable_run calls)
  refine servedBacked_iff (by rw [hspec, hpolicy]) (fun id entry hget => ?_) hlookup
  exact (keysSatisfy_run hcalls id entry hget).digest

/-- **A lookup is complete exactly if the accepted entries cover what the cache holds**, and if
nothing is held for all groups when another than the query's own is requested. -/
theorem lookup_complete_iff
    (calls : List PrefixCall) (query : PrefixKey) (queryTokens : Nat) (blockGroups : List String)
    (hne : blockGroups ≠ []) (requestId : String) (result : LookupResult) (cache' : PrefixCache)
    (hlookup : ((prefixMachine sha256 spec).run calls).lookup sha256 query queryTokens blockGroups
      requestId = .ok (result, cache')) :
    IsGreatest (reusable ((prefixMachine sha256 spec).run calls) query queryTokens blockGroups)
        result.cachedTokens ↔
      Covered sha256 ((prefixMachine sha256 spec).run calls) query queryTokens blockGroups := by
  by_cases hown : ∀ group ∈ blockGroups, group = query.identity.blockGroup
  · exact isGreatest_own_iff hne hown hlookup
  · exact isGreatest_other_iff hown hlookup

/-- One token at offset 1, after a token that only the parent chain tells. -/
def secondTokenRequest (parent : String) : KeyRequest where
  identity := fun _ => none
  tokens := [0, 1]
  tokenSpan := (1, 2)
  parentChainDigest := parent

def secondTokenKey (parent : String) : PrefixKey where
  identity := ⟨"", "", "", "", "", "", "", "", "", "1.0.0", "full_attention", "shared", ""⟩
  parentChainDigest := parent
  blockTokenSequenceHash := tokenDigest sha256 [1]
  tokens := [1]

theorem builtKey_secondToken {parent : String} (h : parent ≠ "") :
    BuiltKey sha256 (secondTokenKey sha256 parent) := by
  refine ⟨secondTokenRequest parent, ?_⟩
  have hparent : (secondTokenRequest parent).parentChainDigest ≠ "" := h
  rw [buildPrefixKey, if_pos hparent]
  rfl

end

/-- A token is served behind another parent chain. -/
theorem lookup_serves_other_parent :
    ¬ ∃ sha256 : String → String, ∀ (spec : PrefixCacheSpec),
      spec.collisionPolicy = .digestPlusTokenEquality → ∀ calls : List PrefixCall,
      (∀ call ∈ calls, InsertsSatisfy (BuiltKey sha256) call) → ∀ query, BuiltKey sha256 query →
      ∀ queryTokens blockGroups requestId result cache',
        ((prefixMachine sha256 spec).run calls).lookup sha256 query queryTokens blockGroups
          requestId = .ok (result, cache') →
        ServedBacked ((prefixMachine sha256 spec).run calls) query blockGroups
          result.cachedTokens := by
  rintro ⟨sha256, h⟩
  set cache := (prefixMachine sha256 oneTokenBlocks).run
    [.insert (secondTokenKey sha256 "a") [0] 1 "p"] with hcache
  have hkeys : KeysSatisfy (fun key => key = secondTokenKey sha256 "a") cache := by
    apply keysSatisfy_run
    rw [forall_mem_singleton]
    rfl
  obtain ⟨result, cache', hlookup⟩ : ∃ result cache', cache.lookup sha256
      (secondTokenKey sha256 "b") 1 ["full_attention"] "q" = .ok (result, cache') := ⟨_, _, rfl⟩
  have hserved := h oneTokenBlocks rfl [.insert (secondTokenKey sha256 "a") [0] 1 "p"]
    (forall_mem_singleton.mpr (builtKey_secondToken sha256 (by decide))) _
    (builtKey_secondToken sha256 (by decide)) 1 ["full_attention"] "q" result cache' hlookup
  have hspec : cache.spec = oneTokenBlocks := spec_of_reachable (Machine.reachable_run _)
  rw [servedBacked_iff (by rw [hspec]; rfl) (fun id entry hget => by rw [hkeys id entry hget]; rfl) hlookup]
    at hserved
  obtain ⟨old, hold, hkey, hcount, hrefcount⟩ := first_insert sha256 oneTokenBlocks
    (secondTokenKey sha256 "a") [0] (show ¬ (1 = 0 ∨ 1 % 1 ≠ 0 ∨ 1 ≠ 1 / 1) by decide) 1 "p"
  have hwhole : usable cache.spec old 1 = 1 := by
    rw [usable, hcount, hspec]
    show min 1 1 - min 1 1 % 1 = 1
    decide
  obtain ⟨id, entry, hget, -, hparent, -⟩ := hserved (by decide)
    (forall_mem_singleton.mpr rfl) (entryId 0) old hold (by rw [hkey]; rfl)
    (by rw [hrefcount]; exact Nat.one_pos) (by rw [hwhole]; exact Nat.one_pos)
    (by rw [hkey]; rfl)
  rw [hkeys id entry hget] at hparent
  have hsame : "a" = "b" := hparent
  exact absurd hsame (by decide)

def sha256OfOneToken (text : String) : String :=
  if text = "1" then "6b86b273ff34fce19d6b804eff5a3f5747ada4eaa22f1d49c01e52ddb7875b4b"
  else if text = "0" then "5feceb66ffc86f38d952786c6d696c79c2dbc239dd4e91b46729d73a27fb57e9"
  else "e3b0c44298fc1c149afbf4c8996fb92427ae41e4649b934ca495991b7852b855"

theorem lookup_sound_iff_second_token :
    ∃ result cache', ((prefixMachine sha256OfOneToken oneTokenBlocks).run
        [.insert (secondTokenKey sha256OfOneToken "a") [0] 1 "p"]).lookup sha256OfOneToken
          (secondTokenKey sha256OfOneToken "a") 1 ["full_attention"] "q" = .ok (result, cache') ∧
      result.cachedTokens = 1 ∧
      ServedBacked ((prefixMachine sha256OfOneToken oneTokenBlocks).run
        [.insert (secondTokenKey sha256OfOneToken "a") [0] 1 "p"])
          (secondTokenKey sha256OfOneToken "a") ["full_attention"] result.cachedTokens := by
  refine ⟨_, _, rfl, by decide, ?_⟩
  refine (lookup_sound_iff sha256OfOneToken oneTokenBlocks rfl
    [.insert (secondTokenKey sha256OfOneToken "a") [0] 1 "p"]
    (forall_mem_singleton.mpr (builtKey_secondToken _ (by decide)))
    (secondTokenKey sha256OfOneToken "a") 1 ["full_attention"] "q" _ _ rfl).mpr ?_
  intro _ _ id entry hget _ _ _ _
  have hkeys : KeysSatisfy (fun key => key = secondTokenKey sha256OfOneToken "a")
      ((prefixMachine sha256OfOneToken oneTokenBlocks).run
        [.insert (secondTokenKey sha256OfOneToken "a") [0] 1 "p"]) := by
    apply keysSatisfy_run
    rw [forall_mem_singleton]
    rfl
  have hkey := hkeys id entry hget
  exact ⟨id, entry, hget, by rw [hkey], by rw [hkey], by rw [hkey]⟩

theorem lookup_complete_iff_second_token :
    ∃ result cache', ((prefixMachine sha256OfOneToken oneTokenBlocks).run
        [.insert oneTokenKey [0] 1 "p"]).lookup sha256OfOneToken oneTokenKey 1 ["full_attention"]
          "q" = .ok (result, cache') ∧
      result.cachedTokens = 1 ∧
      (IsGreatest (reusable ((prefixMachine sha256OfOneToken oneTokenBlocks).run
        [.insert oneTokenKey [0] 1 "p"]) oneTokenKey 1 ["full_attention"]) result.cachedTokens ↔
      Covered sha256OfOneToken ((prefixMachine sha256OfOneToken oneTokenBlocks).run
        [.insert oneTokenKey [0] 1 "p"]) oneTokenKey 1 ["full_attention"]) :=
  ⟨_, _, rfl, by decide, lookup_complete_iff sha256OfOneToken oneTokenBlocks
    [.insert oneTokenKey [0] 1 "p"] oneTokenKey 1 ["full_attention"] (by decide) "q" _ _ rfl⟩

def slidingWindowKey : PrefixKey :=
  { oneTokenKey with identity := { oneTokenKey.identity with blockGroup := "sliding_window" } }

/-- Two groups that hold the same token serve nothing together. -/
theorem lookup_misses_common_prefix :
    ¬ ∃ sha256 : String → String, ∀ (spec : PrefixCacheSpec) (calls : List PrefixCall)
      (query : PrefixKey) (queryTokens : Nat) (blockGroups : List String), blockGroups ≠ [] →
      blockGroups.Nodup → ∀ requestId result cache',
        ((prefixMachine sha256 spec).run calls).lookup sha256 query queryTokens blockGroups
          requestId = .ok (result, cache') →
        IsGreatest (reusable ((prefixMachine sha256 spec).run calls) query queryTokens blockGroups)
          result.cachedTokens := by
  rintro ⟨sha256, h⟩
  obtain ⟨cache, hcache⟩ : ∃ cache, cache = (prefixMachine sha256 oneTokenBlocks).run
      [.insert oneTokenKey [0] 1 "p", .insert slidingWindowKey [1] 1 "p"] := ⟨_, rfl⟩
  have hfull : ((cache.entries.get? (entryId 0)).map fun entry => (entry.key, entry.refcount)) =
      some (oneTokenKey, 1) := by
    simp only [hcache, Machine.run, Machine.runFrom_cons, Machine.runFrom_nil, prefixMachine,
      PrefixCache.call]
    decide +kernel
  have hsliding : ((cache.entries.get? (entryId 1)).map fun entry => (entry.key, entry.refcount)) =
      some (slidingWindowKey, 1) := by
    simp only [hcache, Machine.run, Machine.runFrom_cons, Machine.runFrom_nil, prefixMachine,
      PrefixCache.call]
    decide +kernel
  have hserves : ∀ id key, ((cache.entries.get? id).map fun entry => (entry.key, entry.refcount)) =
      some (key, 1) → AgreesButGroup key oneTokenKey → key.tokens = [1] →
        Serves cache oneTokenKey key.identity.blockGroup 1 := by
    intro id key hmap hagrees htokens
    obtain ⟨entry, hget, hentry⟩ := Option.map_eq_some_iff.mp hmap
    obtain ⟨rfl, hcount⟩ := Prod.mk.inj hentry
    exact ⟨id, entry, hget, rfl, by rw [hcount]; exact Nat.one_pos, hagrees, by rw [htokens]; rfl⟩
  obtain ⟨result, cache', hlookup⟩ : ∃ result cache', cache.lookup sha256 oneTokenKey 1
      ["full_attention", "sliding_window"] "q" = .ok (result, cache') := ⟨_, _, rfl⟩
  have hgreatest := h oneTokenBlocks _ oneTokenKey 1 ["full_attention", "sliding_window"]
    (by decide) (by decide) "q" result cache' (hcache ▸ hlookup)
  rw [← hcache, isGreatest_other_iff (by decide) hlookup] at hgreatest
  have hspec : cache.spec = oneTokenBlocks :=
    hcache ▸ spec_of_reachable (Machine.reachable_run _)
  have hother := hgreatest.other (by decide)
  rw [hspec] at hother
  rcases hother with hshort | ⟨group, hmem, hnone⟩
  · exact absurd hshort (by decide)
  · rw [mem_cons, mem_singleton] at hmem
    rcases hmem with rfl | rfl
    · exact hnone (hserves _ _ hfull rfl rfl)
    · exact hnone (hserves _ _ hsliding rfl rfl)

end Hqsb
