/-
Hqsb/Backends/PrefixStore.lean

Prefix snapshots on the device, least recently used first
(`hqsb/backends/prefix_store.py`).

The store is an ordered dictionary from an identity and a token sequence to the
snapshot.  `trim` evicts at the front, `lookup` and a repeated `publish` move an
entry to the end, so the order is the order of the last uses.

`Sound` says that the counter is the size of what is stored and that every entry
lies under its own tokens.  All operations keep it, whatever budgets they are
called with (`prefix_store_sound`).

Left out: `clone` and `detach`, since a stored tensor is never written to.
-/
import Hqsb.Lib.Machine
import Hqsb.Backends.DeviceKv
import Hqsb.Contracts.Scheduling

namespace Hqsb

open Lib List OrderedDict

/-- A snapshot: the first columns of every layer, for these tokens. -/
structure StoredPrefix (α : Type*) where
  tokens : List Token
  pairs : List (Pair α)
  size : Nat

structure PrefixStore (α : Type*) where
  entries : OrderedDict (String × List Token) (StoredPrefix α) := .empty
  retainedBytes : Int := 0
  evictions : Nat := 0

namespace PrefixStore

variable {α : Type*}

/-! ### Operations -/

def moveToEnd (s : PrefixStore α) (key : String × List Token) : PrefixStore α :=
  match s.entries.get? key with
  | none => s
  | some entry => { s with entries := (s.entries.erase key).set key entry }

/-- `popitem(last=False)` with its counters. -/
def evict (s : PrefixStore α) (key : String × List Token) (entry : StoredPrefix α) :
    PrefixStore α where
  entries := s.entries.erase key
  retainedBytes := s.retainedBytes - entry.size
  evictions := s.evictions + 1

/-- The loop of `trim`.  Every pass evicts an entry, so as many passes are enough. -/
def trimLoop (budget maxEntries : Int) : (passes : Nat) → PrefixStore α → PrefixStore α
  | 0, s => s
  | passes + 1, s =>
    match s.entries.entries with
    | [] => s
    | (key, entry) :: _ =>
      if budget < s.retainedBytes ∨ maxEntries < s.entries.entries.length then
        trimLoop budget maxEntries passes (s.evict key entry)
      else s

def trim (s : PrefixStore α) (budget maxEntries : Int) : PrefixStore α :=
  s.trimLoop budget maxEntries s.entries.entries.length

/-- The entry can be reused for `tokens`. -/
def Reusable (identity : String) (tokens : List Token)
    (e : (String × List Token) × StoredPrefix α) : Prop :=
  e.1.1 = identity ∧ e.2.tokens.length < tokens.length ∧
    tokens.take e.2.tokens.length = e.2.tokens

instance (identity : String) (tokens : List Token) (e : (String × List Token) × StoredPrefix α) :
    Decidable (Reusable identity tokens e) := inferInstanceAs (Decidable (_ ∧ _ ∧ _))

/-- The body of the loop of `lookup`. -/
def better (identity : String) (tokens : List Token)
    (best : Option ((String × List Token) × StoredPrefix α))
    (e : (String × List Token) × StoredPrefix α) :
    Option ((String × List Token) × StoredPrefix α) :=
  if Reusable identity tokens e then
    match best with
    | none => some e
    | some b => if b.2.tokens.length < e.2.tokens.length then some e else best
  else best

def lookup (s : PrefixStore α) (identity : String) (tokens : List Token) :
    Option (StoredPrefix α) × PrefixStore α :=
  match s.entries.entries.foldl (better identity tokens) none with
  | none => (none, s)
  | some best => (some best.2, s.moveToEnd best.1)

/-- `t[..., :count, :]` -/
def cut (count : Nat) (t : Tensor α) : Tensor α := { t with columns := min count t.columns }

/-- `t.numel() * t.element_size()` -/
def bytes (t : Tensor α) : Nat := t.rows * t.heads * t.columns * t.channels * t.itemsize

def publish (s : PrefixStore α) (identity : String) (tokens : List Token) (cache : DynamicCache α)
    (budget maxEntries : Int) : Nat × PrefixStore α :=
  if tokens = [] then (0, s)
  else
    let count := tokens.length
    let pairs := cache.layers.map fun layer => (cut count layer.pair.1, cut count layer.pair.2)
    let size := (pairs.map fun pair => bytes pair.1 + bytes pair.2).sum
    if budget < size then (0, s)
    else if (identity, tokens) ∈ s.entries.keys then (0, s.moveToEnd (identity, tokens))
    else
      -- evict before cloning: retention never exceeds its byte and entry budget
      let s := s.trim (budget - size) (maxEntries - 1)
      (size, { s with
        entries := s.entries.set (identity, tokens)
          { tokens := tokens, pairs := pairs, size := size }
        retainedBytes := s.retainedBytes + size })

def clear (s : PrefixStore α) : (Int × Nat) × PrefixStore α :=
  ((s.retainedBytes, s.entries.entries.length), { s with entries := .empty, retainedBytes := 0 })

inductive StoreCall (α : Type*)
  | trim (budget maxEntries : Int)
  | lookup (identity : String) (tokens : List Token)
  | publish (identity : String) (tokens : List Token) (cache : DynamicCache α)
      (budget maxEntries : Int)
  | clear

def machine (α : Type*) : Machine (PrefixStore α) (StoreCall α) where
  init := {}
  step s
    | .trim budget maxEntries => s.trim budget maxEntries
    | .lookup identity tokens => (s.lookup identity tokens).2
    | .publish identity tokens cache budget maxEntries =>
      (s.publish identity tokens cache budget maxEntries).2
    | .clear => s.clear.2

/-! ### The counter -/

variable {s s' : PrefixStore α} {key : String × List Token} {entry : StoredPrefix α}

/-- The counter is the size of the entries, and these lie under their own tokens. -/
structure Sound (s : PrefixStore α) : Prop where
  retained : s.retainedBytes = (OrderedDict.sum (fun entry => entry.size) s.entries : Nat)
  tokens : ∀ key entry, s.entries.get? key = some entry → entry.tokens = key.2

theorem sound_empty (evictions : Nat) :
    Sound (α := α) { entries := .empty, retainedBytes := 0, evictions := evictions } where
  retained := by rw [sum_empty]; rfl
  tokens _ _ h := nomatch h

theorem Sound.evict (h : s.Sound) (hget : s.entries.get? key = some entry) :
    (s.evict key entry).Sound where
  retained := by
    have hsum := sum_erase (fun entry => entry.size) hget
    simp only [PrefixStore.evict]
    rw [h.retained]
    omega
  tokens k e hke := by
    rw [PrefixStore.evict, get?_erase] at hke
    split_ifs at hke
    exact h.tokens k e hke

theorem Sound.moveToEnd (h : s.Sound) (key : String × List Token) : (s.moveToEnd key).Sound := by
  rw [PrefixStore.moveToEnd]
  rcases hget : s.entries.get? key with - | entry
  · exact h
  · refine ⟨?_, fun k e hke => ?_⟩
    · have hsum := sum_erase (fun entry => entry.size) hget
      have hnot : key ∉ (s.entries.erase key).keys := by simp
      have hnew := sum_set_of_not_mem (fun entry => entry.size) entry hnot
      simp only
      rw [h.retained, hnew, hsum]
    · rw [get?_set] at hke
      split_ifs at hke with hk
      · cases hke
        rw [hk]
        exact h.tokens key entry hget
      · rw [get?_erase] at hke
        split_ifs at hke
        exact h.tokens k e hke

/-! ### Eviction -/

theorem entries_evict {rest : List ((String × List Token) × StoredPrefix α)}
    (h : s.entries.entries = (key, entry) :: rest) :
    (s.evict key entry).entries.entries = rest := by
  have hnodup := s.entries.nodup
  rw [h, map_cons, nodup_cons] at hnodup
  show s.entries.entries.filter (fun e => decide (e.1 ≠ key)) = rest
  rw [h, filter_cons_of_neg (by simp), filter_eq_self]
  intro e he
  exact decide_eq_true fun heq => hnodup.1 (mem_map.mpr ⟨e, he, heq⟩)

/-- **What `trim` leaves**: the newest entries, within both budgets. -/
structure Trims (s s' : PrefixStore α) (budget maxEntries : Int) : Prop where
  sound : s'.Sound
  suffix : s'.entries.entries <:+ s.entries.entries
  within : s'.entries.entries = [] ∨
    s'.retainedBytes ≤ budget ∧ (s'.entries.entries.length : Int) ≤ maxEntries

theorem Sound.trimLoop {passes : Nat} {budget maxEntries : Int} (h : s.Sound)
    (hpasses : s.entries.entries.length ≤ passes) :
    Trims s (s.trimLoop budget maxEntries passes) budget maxEntries := by
  induction passes generalizing s with
  | zero =>
    exact ⟨h, suffix_rfl, .inl (length_eq_zero_iff.mp (Nat.le_zero.mp hpasses))⟩
  | succ passes ih =>
    rw [PrefixStore.trimLoop]
    rcases hentries : s.entries.entries with - | ⟨⟨key, entry⟩, rest⟩
    · exact ⟨h, suffix_rfl, .inl hentries⟩
    · simp only
      split_ifs with hover
      · have hget : s.entries.get? key = some entry :=
          (get?_eq_some_iff _).mpr (hentries ▸ .head _)
        have hrest := entries_evict hentries
        rw [hentries, length_cons] at hpasses
        obtain ⟨hsound, hsuffix, hwithin⟩ := ih (h.evict hget) (by rw [hrest]; omega)
        refine ⟨hsound, ?_, hwithin⟩
        rw [hrest] at hsuffix
        rw [hentries]
        exact hsuffix.trans (suffix_cons _ _)
      · refine ⟨h, suffix_rfl, .inr ?_⟩
        rw [hentries]
        omega

theorem Sound.trim (h : s.Sound) (budget maxEntries : Int) :
    Trims s (s.trim budget maxEntries) budget maxEntries := h.trimLoop le_rfl

/-- **What `publish` does**: it refuses, or it refreshes an entry, or it stores one. -/
theorem publish_cases (s : PrefixStore α) (identity : String) (tokens : List Token)
    (cache : DynamicCache α) (budget maxEntries : Int) :
    s.publish identity tokens cache budget maxEntries = (0, s) ∨
    (identity, tokens) ∈ s.entries.keys ∧
      s.publish identity tokens cache budget maxEntries = (0, s.moveToEnd (identity, tokens)) ∨
    (identity, tokens) ∉ s.entries.keys ∧ ∃ (entry : StoredPrefix α), entry.tokens = tokens ∧
      (entry.size : Int) ≤ budget ∧
      s.publish identity tokens cache budget maxEntries =
        (entry.size, { s.trim (budget - entry.size) (maxEntries - 1) with
          entries := (s.trim (budget - entry.size) (maxEntries - 1)).entries.set
            (identity, tokens) entry
          retainedBytes := (s.trim (budget - entry.size) (maxEntries - 1)).retainedBytes +
            entry.size }) := by
  rw [publish]
  dsimp only
  by_cases hnil : tokens = []
  · exact .inl (if_pos hnil)
  split_ifs with hsize hkey
  · exact .inl rfl
  · exact .inr (.inl ⟨hkey, rfl⟩)
  · exact .inr (.inr ⟨hkey, ⟨tokens, _, _⟩, rfl, not_lt.mp hsize, rfl⟩)

theorem Sound.store (h : s.Sound) (hkey : key ∉ s.entries.keys) (htokens : entry.tokens = key.2) :
    Sound { s with
      entries := s.entries.set key entry, retainedBytes := s.retainedBytes + entry.size } where
  retained := by
    have hnew := sum_set_of_not_mem (fun entry => entry.size) entry hkey
    simp only
    rw [h.retained]
    omega
  tokens k e hke := by
    rw [get?_set] at hke
    split_ifs at hke with hk
    · cases hke
      rw [hk, htokens]
    · exact h.tokens k e hke

theorem Trims.not_mem {budget maxEntries : Int} (h : Trims s s' budget maxEntries)
    (hkey : key ∉ s.entries.keys) : key ∉ s'.entries.keys :=
  fun hmem => hkey ((h.suffix.sublist.map Prod.fst).subset hmem)

theorem Sound.publish (h : s.Sound) (identity : String) (tokens : List Token)
    (cache : DynamicCache α) (budget maxEntries : Int) :
    (s.publish identity tokens cache budget maxEntries).2.Sound := by
  rcases s.publish_cases identity tokens cache budget maxEntries with
    heq | ⟨-, heq⟩ | ⟨hkey, entry, htokens, -, heq⟩
  · rw [heq]
    exact h
  · rw [heq]
    exact h.moveToEnd _
  · rw [heq]
    have htrim := h.trim (budget - entry.size) (maxEntries - 1)
    exact htrim.sound.store (htrim.not_mem hkey) htokens

/-- **A stored entry fits into both budgets.** -/
theorem Sound.publish_within (h : s.Sound) {identity : String} {tokens : List Token}
    {cache : DynamicCache α} {budget maxEntries : Int} (hmax : 1 ≤ maxEntries)
    (hnew : (identity, tokens) ∉ s.entries.keys)
    (hstored : (identity, tokens) ∈
      (s.publish identity tokens cache budget maxEntries).2.entries.keys) :
    (s.publish identity tokens cache budget maxEntries).2.retainedBytes ≤ budget ∧
      ((s.publish identity tokens cache budget maxEntries).2.entries.entries.length : Int) ≤
        maxEntries := by
  rcases s.publish_cases identity tokens cache budget maxEntries with
    heq | ⟨hkey, -⟩ | ⟨hkey, entry, htokens, hsize, heq⟩
  · rw [heq] at hstored
    exact absurd hstored hnew
  · exact absurd hkey hnew
  · have htrim := h.trim (budget - entry.size) (maxEntries - 1)
    rw [heq]
    simp only [entries_set_of_not_mem _ (htrim.not_mem hkey), length_append,
      length_singleton]
    rcases htrim.within with hnil | ⟨hbytes, hcount⟩
    · have hretained := htrim.sound.retained
      rw [OrderedDict.sum, OrderedDict.values] at hretained
      rw [hretained, hnil]
      simp
      omega
    · omega

/-! ### The longest match -/

variable {identity : String} {tokens : List Token}
  {entries : List ((String × List Token) × StoredPrefix α)}

variable (identity tokens entries)

/-- What the loop of `lookup` has found: a longest reusable entry, if there is a reusable one. -/
theorem foldl_better :
    (entries.foldl (better identity tokens) none = none ∧
        ∀ e ∈ entries, ¬ Reusable identity tokens e) ∨
      ∃ best ∈ entries, entries.foldl (better identity tokens) none = some best ∧
        Reusable identity tokens best ∧ ∀ e ∈ entries, Reusable identity tokens e →
          e.2.tokens.length ≤ best.2.tokens.length := by
  induction entries using List.reverseRecOn with
  | nil => exact .inl ⟨rfl, nofun⟩
  | append_singleton entries e ih =>
    simp only [foldl_concat, mem_append, mem_singleton]
    by_cases he : Reusable identity tokens e
    · rcases ih with ⟨hnone, hnot⟩ | ⟨best, hbest, hfold, hreusable, hlongest⟩
      · refine .inr ⟨e, .inr rfl, ?_, he, ?_⟩
        · rw [hnone, better, if_pos he]
        · rintro f (hf | rfl) hreusable
          · exact absurd hreusable (hnot f hf)
          · exact le_rfl
      · by_cases hlonger : best.2.tokens.length < e.2.tokens.length
        · refine .inr ⟨e, .inr rfl, ?_, he, ?_⟩
          · rw [hfold, better, if_pos he]
            exact if_pos hlonger
          · rintro f (hf | rfl) hf'
            · exact (hlongest f hf hf').trans hlonger.le
            · exact le_rfl
        · refine .inr ⟨best, .inl hbest, ?_, hreusable, ?_⟩
          · rw [hfold, better, if_pos he]
            exact if_neg hlonger
          · rintro f (hf | rfl) hf'
            · exact hlongest f hf hf'
            · exact not_lt.mp hlonger
    · have hskip : better identity tokens (entries.foldl (better identity tokens) none) e =
          entries.foldl (better identity tokens) none := if_neg he
      rw [hskip]
      rcases ih with ⟨hnone, hnot⟩ | ⟨best, hbest, hfold, hreusable, hlongest⟩
      · refine .inl ⟨hnone, ?_⟩
        rintro f (hf | rfl)
        · exact hnot f hf
        · exact he
      · refine .inr ⟨best, .inl hbest, hfold, hreusable, ?_⟩
        rintro f (hf | rfl) hf'
        · exact hlongest f hf hf'
        · exact absurd hf' he

/-- The key is of the identity, and its tokens are a proper beginning of `tokens`. -/
def Extends (key : String × List Token) : Prop :=
  key.1 = identity ∧ key.2 <+: tokens ∧ key.2 ≠ tokens

variable {identity tokens entries}

/-- In a sound store reusable is what lies under a proper beginning. -/
theorem Sound.reusable_iff (h : s.Sound) (hget : s.entries.get? key = some entry) :
    Reusable identity tokens (key, entry) ↔ Extends identity tokens key := by
  rw [Reusable, Extends, h.tokens key entry hget, prefix_iff_eq_take]
  refine and_congr_right fun _ => ⟨?_, ?_⟩
  · rintro ⟨hlt, htake⟩
    exact ⟨htake.symm, fun heq => absurd hlt (by rw [heq]; exact lt_irrefl _)⟩
  · rintro ⟨htake, hne⟩
    refine ⟨?_, htake.symm⟩
    have hle := (prefix_iff_eq_take.mpr htake).length_le
    refine lt_of_le_of_ne hle fun hlen => hne ?_
    exact (prefix_iff_eq_take.mpr htake).eq_of_length hlen

/-- **What `lookup` does**: it misses when no entry is a proper beginning, and changes nothing;
else it returns the longest one and moves it behind all others. -/
theorem Sound.lookup (h : s.Sound) (identity : String) (tokens : List Token) :
    (s.lookup identity tokens = (none, s) ∧
        ∀ key ∈ s.entries.keys, ¬ Extends identity tokens key) ∨
      ∃ key entry, s.entries.get? key = some entry ∧ Extends identity tokens key ∧
        (∀ key' ∈ s.entries.keys, Extends identity tokens key' → key'.2.length ≤ key.2.length) ∧
        entry.tokens = key.2 ∧ (s.lookup identity tokens).1 = some entry ∧
        (s.lookup identity tokens).2 = s.moveToEnd key := by
  rw [PrefixStore.lookup]
  rcases foldl_better identity tokens s.entries.entries with
    ⟨hnone, hnot⟩ | ⟨best, hbest, hfold, hreusable, hlongest⟩
  · refine .inl ⟨by rw [hnone], fun key hkey hextends => ?_⟩
    obtain ⟨entry, hget⟩ := (mem_keys_iff _).mp hkey
    exact hnot (key, entry) ((get?_eq_some_iff _).mp hget)
      ((h.reusable_iff hget).mpr hextends)
  · obtain ⟨key, entry⟩ := best
    have hget : s.entries.get? key = some entry := (get?_eq_some_iff _).mpr hbest
    refine .inr ⟨key, entry, hget, (h.reusable_iff hget).mp hreusable,
      fun key' hkey' hextends => ?_, h.tokens key entry hget, by rw [hfold], by rw [hfold]⟩
    obtain ⟨entry', hget'⟩ := (mem_keys_iff _).mp hkey'
    have hle := hlongest (key', entry') ((get?_eq_some_iff _).mp hget')
      ((h.reusable_iff hget').mpr hextends)
    rwa [h.tokens key entry hget, h.tokens key' entry' hget'] at hle

theorem moveToEnd_entries (hget : s.entries.get? key = some entry) :
    (s.moveToEnd key).entries.entries =
      s.entries.entries.filter (fun e => decide (e.1 ≠ key)) ++ [(key, entry)] := by
  rw [moveToEnd, hget]
  exact entries_set_of_not_mem _ (by simp)

/-! ### Runs -/

theorem sound_step (h : s.Sound) (call : StoreCall α) : ((machine α).step s call).Sound := by
  rcases call with ⟨budget, maxEntries⟩ | ⟨identity, tokens⟩ |
    ⟨identity, tokens, cache, budget, maxEntries⟩ | -
  · exact (h.trim budget maxEntries).sound
  · rcases h.lookup identity tokens with ⟨heq, -⟩ | ⟨key, -, -, -, -, -, -, heq⟩
    · show (s.lookup identity tokens).2.Sound
      rw [heq]
      exact h
    · show (s.lookup identity tokens).2.Sound
      rw [heq]
      exact h.moveToEnd key
  · exact h.publish identity tokens cache budget maxEntries
  · exact sound_empty s.evictions

theorem sound_run (calls : List (StoreCall α)) : ((machine α).run calls).Sound := by
  have hinit : (machine α).init.Sound := sound_empty 0
  exact Machine.runFrom_invariant (P := Sound) (fun _ call h => sound_step h call) hinit calls

/-- **Budget and longest match of the prefix store.**  After any calls the counter is the size of
the entries; a publish that stores an entry leaves the store within its byte and entry budgets;
a lookup misses iff no entry is a proper beginning of the tokens, and else returns the longest
one, which becomes the most recently used while all others keep their order. -/
theorem prefix_store_sound (calls : List (StoreCall α)) :
    let s := (machine α).run calls
    s.retainedBytes = (OrderedDict.sum (fun entry => entry.size) s.entries : Nat) ∧
      (∀ identity tokens cache budget maxEntries, 1 ≤ maxEntries →
        let s' := (s.publish identity tokens cache budget maxEntries).2
        (identity, tokens) ∉ s.entries.keys → (identity, tokens) ∈ s'.entries.keys →
        s'.retainedBytes ≤ budget ∧ (s'.entries.entries.length : Int) ≤ maxEntries) ∧
      ∀ identity tokens,
        ((s.lookup identity tokens).1 = none ↔
          ∀ key ∈ s.entries.keys, ¬ Extends identity tokens key) ∧
        ∀ found, (s.lookup identity tokens).1 = some found →
          ∃ key, s.entries.get? key = some found ∧ found.tokens = key.2 ∧
            Extends identity tokens key ∧
            (∀ key' ∈ s.entries.keys, Extends identity tokens key' →
              key'.2.length ≤ key.2.length) ∧
            (s.lookup identity tokens).2.entries.entries =
              s.entries.entries.filter (fun e => decide (e.1 ≠ key)) ++ [(key, found)] := by
  intro s
  have hsound : s.Sound := sound_run calls
  refine ⟨hsound.retained, fun identity tokens cache budget maxEntries hmax hnew hstored =>
    hsound.publish_within hmax hnew hstored, fun identity tokens => ?_⟩
  rcases hsound.lookup identity tokens with
    ⟨heq, hnot⟩ | ⟨key, entry, hget, hextends, hlongest, htokens, hfound, hmoved⟩
  · refine ⟨iff_of_true (by rw [heq]) hnot, fun found hfound => ?_⟩
    rw [heq] at hfound
    cases hfound
  · refine ⟨iff_of_false (by rw [hfound]; exact Option.some_ne_none entry) fun hnot =>
      hnot key (mem_keys_of_get? hget) hextends, fun found hsome => ?_⟩
    cases hfound.symm.trans hsome
    exact ⟨key, hget, htokens, hextends, hlongest, by rw [hmoved, moveToEnd_entries hget]⟩

end PrefixStore

end Hqsb
