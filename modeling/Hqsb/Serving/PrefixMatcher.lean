/-
Hqsb/Serving/PrefixMatcher.lean

The prefix index of the router (`PrefixMatcher` and `matcher_oracle` of
`hqsb/serving/cache_routing.py`).

An entry counts the blocks of its own size that a query shares with it, and the index takes the
entry with most blocks and multiplies by the block size of the matcher.  The oracle cuts every
shared length to blocks of the matcher.  So the two agree, and the index claims no token that is
not shared, exactly if most blocks are as many as the longest shared length has by the size of the
matcher (`Aligned`).

Block sizes are any integers; a size of zero raises.  `digest` is the digest of an identity.

Main result: `prefix_match_agrees_iff`.
-/
import Mathlib

namespace Hqsb

open List

/-! ### Entries -/

/-- `CacheIdentity`: one text for each of `IDENTITY_FIELDS`. -/
structure CacheIdentity where
  modelId : String
  weightRevision : String
  precision : String
  quantArtifactHash : String
  adapterHash : String
  tokenizerId : String
  chatTemplateHash : String
  ropeConfigHash : String
  attentionConfigHash : String
  kvDtype : String
  kvLayout : String
  cacheFormatVersion : String
  tenantSharingPolicy : String
  cacheEpoch : String
  deriving DecidableEq

/-- `matches`: the fields are equal. -/
def CacheIdentity.matches (identity other : CacheIdentity) : Bool := identity = other

/-- The part of `PrefixEntry` that matching reads. -/
structure PrefixEntry where
  identity : CacheIdentity
  tokens : List Int
  blockSize : Int := 16

/-- What a block size of zero raises. -/
inductive ZeroDivision
  | zeroDivision
  deriving DecidableEq

/-- Python's `//`. -/
def floorDiv (n size : Int) : Except ZeroDivision Int :=
  if size = 0 then .error .zeroDivision else .ok (n.fdiv size)

/-- The loop over tokens and query: how many agree before the first that do not. -/
def commonLength : List Int → List Int → Nat
  | token :: tokens, asked :: query =>
    if token = asked then commonLength tokens query + 1 else 0
  | _, _ => 0

def PrefixEntry.matchedBlocks (entry : PrefixEntry) (query : List Int) : Except ZeroDivision Int :=
  if entry.tokens = [] then .ok 0 else floorDiv (commonLength entry.tokens query) entry.blockSize

/-- `PrefixMatcher`, with the entries in the order of their insertion. -/
structure PrefixMatcher where
  blockSize : Int := 16
  entries : List PrefixEntry := []

structure PrefixMatch where
  matchedBlocks : Int
  matchedTokens : Int
  entryDigest : String
  identityDigest : String
  deriving DecidableEq

namespace PrefixMatcher

variable (digest : CacheIdentity → String) (m : PrefixMatcher) (identity : CacheIdentity)
  (query : List Int)

def insert (entry : PrefixEntry) : PrefixMatcher := { m with entries := m.entries ++ [entry] }

def better (best : Int × Option PrefixEntry) (entry : PrefixEntry) :
    Except ZeroDivision (Int × Option PrefixEntry) :=
  if entry.identity.matches identity then do
    let matched ← entry.matchedBlocks query
    if best.1 < matched then pure (matched, some entry) else pure best
  else
    pure best

/-- The dictionary that `match` returns. -/
def found (best : Int × Option PrefixEntry) : PrefixMatch where
  matchedBlocks := best.1
  matchedTokens := best.1 * m.blockSize
  entryDigest := best.2.elim "" fun entry => digest entry.identity
  identityDigest := digest identity

def «match» : Except ZeroDivision PrefixMatch := do
  let best ← m.entries.foldlM (better identity query) (0, none)
  pure (m.found digest identity best)

def cover (oracle : Int) (entry : PrefixEntry) : Except ZeroDivision Int :=
  if entry.identity.matches identity then do
    let blocks ← floorDiv (commonLength entry.tokens query) m.blockSize
    pure (max oracle (blocks * m.blockSize))
  else
    pure oracle

/-- The report of `matcher_oracle`. -/
structure OracleReport where
  ok : Bool
  predictedTokens : Int
  oracleTokens : Int
  deriving DecidableEq

def matcherOracle : Except ZeroDivision OracleReport := do
  let predicted ← m.match digest identity query
  let oracle ← m.entries.foldlM (m.cover identity query) 0
  pure ⟨predicted.matchedTokens = oracle, predicted.matchedTokens, oracle⟩

/-! ### What is shared -/

def candidates : List PrefixEntry := m.entries.filter fun entry => entry.identity.matches identity

/-- The longest prefix that the query shares with an entry of the identity. -/
def longest : Int :=
  ((m.candidates identity).map fun entry => (commonLength entry.tokens query : Int)).foldl max 0

/-- Most blocks of their own size are as many as the longest shared prefix has by the size of the
matcher, and no size is zero that is divided by. -/
structure Aligned : Prop where
  sizes : ∀ entry ∈ m.candidates identity, entry.tokens ≠ [] → entry.blockSize ≠ 0
  size : m.candidates identity ≠ [] → m.blockSize ≠ 0
  above : ∀ entry ∈ m.candidates identity,
    (commonLength entry.tokens query : Int).fdiv entry.blockSize ≤
      (m.longest identity query).fdiv m.blockSize
  nonneg : 0 ≤ (m.longest identity query).fdiv m.blockSize
  reached : (m.longest identity query).fdiv m.blockSize = 0 ∨
    ∃ entry ∈ m.candidates identity,
      (commonLength entry.tokens query : Int).fdiv entry.blockSize =
        (m.longest identity query).fdiv m.blockSize

/-- So many tokens are at the beginning of the query and of an entry of the identity. -/
def Shared (count : Int) : Prop :=
  count ≤ 0 ∨ ∃ entry ∈ m.candidates identity, count.toNat ≤ entry.tokens.length ∧
    count.toNat ≤ query.length ∧ entry.tokens.take count.toNat = query.take count.toNat

/-- `match` and its oracle return the same number of tokens, and they are shared. -/
def Agrees : Prop :=
  ∃ report found, m.matcherOracle digest identity query = .ok report ∧
    m.match digest identity query = .ok found ∧ found.matchedTokens = report.oracleTokens ∧
    m.Shared identity query found.matchedTokens

end PrefixMatcher

/-- The shared length is the greatest one at which tokens and query agree. -/
theorem le_commonLength_iff {tokens query : List Int} {n : Nat} : n ≤ commonLength tokens query ↔
      n ≤ tokens.length ∧ n ≤ query.length ∧ tokens.take n = query.take n := by
  induction tokens generalizing query n with
  | nil =>
    simp only [commonLength, length_nil, Nat.le_zero]
    constructor
    · rintro rfl
      exact ⟨rfl, Nat.zero_le _, rfl⟩
    · exact fun h => h.1
  | cons token tokens ih =>
    rcases query with - | ⟨asked, query⟩
    · simp only [commonLength, length_nil, Nat.le_zero]
      constructor
      · rintro rfl
        exact ⟨Nat.zero_le _, rfl, rfl⟩
      · exact fun h => h.2.1
    rw [commonLength]
    rcases n with - | n
    · simp
    by_cases h : token = asked
    · simp [ih, h]
    · simp [h]

/-! ### The greatest of some numbers -/

theorem foldl_max_eq_iff {l : List Int} {start top : Int} : l.foldl max start = top ↔
      (start ≤ top ∧ ∀ n ∈ l, n ≤ top) ∧ (top = start ∨ top ∈ l) := by
  rw [← Option.some_inj, ← List.max?_cons', List.max?_eq_some_iff, mem_cons,
    forall_mem_cons, and_comm]

/-- The greatest value of a monotone function is its value at the greatest number. -/
theorem foldl_max_map {f : Int → Int} (hf : Monotone f) (l : List Int) (start : Int) :
    (l.map f).foldl max (f start) = f (l.foldl max start) := by
  induction l generalizing start with
  | nil => rfl
  | cons n l ih => rw [map_cons, foldl_cons, foldl_cons, ← hf.map_max, ih]

/-! ### The two loops -/

namespace PrefixMatcher

variable {digest : CacheIdentity → String} {m : PrefixMatcher} {identity : CacheIdentity}
  {query : List Int}

/-- The blocks of an entry, where they can be counted. -/
def blocksOf (query : List Int) (entry : PrefixEntry) : Int :=
  (commonLength entry.tokens query : Int).fdiv entry.blockSize

theorem matchedBlocks_eq {entry : PrefixEntry} (h : entry.tokens ≠ [] → entry.blockSize ≠ 0) :
    entry.matchedBlocks query = .ok (blocksOf query entry) := by
  rw [PrefixEntry.matchedBlocks]
  by_cases htokens : entry.tokens = []
  · rw [blocksOf, htokens]
    rcases query with - | _ <;> simp [commonLength]
  · rw [if_neg htokens, floorDiv, if_neg (h htokens), blocksOf]

theorem matchedBlocks_error {entry : PrefixEntry} (htokens : entry.tokens ≠ [])
    (hsize : entry.blockSize = 0) :
    entry.matchedBlocks query = .error .zeroDivision := by
  rw [PrefixEntry.matchedBlocks, if_neg htokens, floorDiv, if_pos hsize]

theorem foldlM_candidates {β : Type} {f : β → PrefixEntry → Except ZeroDivision β}
    (hskip : ∀ best entry, entry.identity.matches identity = false → f best entry = .ok best)
    (entries : List PrefixEntry) (best : β) :
    entries.foldlM f best =
      (entries.filter fun entry => entry.identity.matches identity).foldlM f best := by
  induction entries generalizing best with
  | nil => rfl
  | cons entry entries ih =>
    rcases hmatches : entry.identity.matches identity with - | -
    · rw [filter_cons_of_neg (by simp [hmatches]), foldlM_cons, hskip _ _ hmatches]
      exact ih best
    · rw [filter_cons_of_pos (by simp [hmatches]), foldlM_cons]
      exact bind_congr fun next => ih next

/-- The loop of `match`: the greatest count of blocks, or an error. -/
theorem foldlM_better (query : List Int) {entries : List PrefixEntry}
    (hidentity : ∀ entry ∈ entries, entry.identity.matches identity = true)
    (best : Int × Option PrefixEntry) :
    ((∀ entry ∈ entries, entry.tokens ≠ [] → entry.blockSize ≠ 0) →
      ∃ found, entries.foldlM (better identity query) best = .ok found ∧
        found.1 = (entries.map (blocksOf query)).foldl max best.1) ∧
    ((∃ entry ∈ entries, entry.tokens ≠ [] ∧ entry.blockSize = 0) →
      entries.foldlM (better identity query) best = .error .zeroDivision) := by
  induction entries generalizing best with
  | nil => exact ⟨fun _ => ⟨best, rfl, rfl⟩, fun h => absurd h (by simp)⟩
  | cons entry entries ih =>
    obtain ⟨hmatches, hrest⟩ := forall_mem_cons.mp hidentity
    by_cases hzero : entry.tokens ≠ [] ∧ entry.blockSize = 0
    · have hstep : better identity query best entry = .error .zeroDivision := by
        rw [better, if_pos hmatches, matchedBlocks_error hzero.1 hzero.2]
        rfl
      rw [foldlM_cons, hstep]
      exact ⟨fun h => absurd hzero.2 (h entry mem_cons_self hzero.1), fun _ => rfl⟩
    · have hsize : entry.tokens ≠ [] → entry.blockSize ≠ 0 := fun h h' => hzero ⟨h, h'⟩
      obtain ⟨next, hnext, hbest⟩ : ∃ next, better identity query best entry = .ok next ∧
          next.1 = max best.1 (blocksOf query entry) := by
        rw [better, if_pos hmatches, matchedBlocks_eq hsize]
        by_cases hlt : best.1 < blocksOf query entry
        · exact ⟨(blocksOf query entry, some entry), if_pos hlt, (max_eq_right hlt.le).symm⟩
        · exact ⟨best, if_neg hlt, (max_eq_left (not_lt.mp hlt)).symm⟩
      obtain ⟨hok, herror⟩ := ih hrest next
      rw [foldlM_cons, hnext]
      constructor
      · intro h
        obtain ⟨found, hfound, heq⟩ := hok fun other hother => h other (.tail _ hother)
        refine ⟨found, hfound, ?_⟩
        rw [map_cons, foldl_cons, heq, hbest]
      · rintro ⟨other, hother, hbad⟩
        rcases mem_cons.mp hother with rfl | hother
        · exact absurd hbad hzero
        · exact herror ⟨other, hother, hbad⟩

/-- The loop of the oracle: the greatest length in blocks of the matcher, or an error. -/
theorem foldlM_cover {entries : List PrefixEntry}
    (hidentity : ∀ entry ∈ entries, entry.identity.matches identity = true) (oracle : Int) :
    (m.blockSize ≠ 0 → entries.foldlM (m.cover identity query) oracle =
      .ok ((entries.map fun entry =>
        (commonLength entry.tokens query : Int).fdiv m.blockSize * m.blockSize).foldl max
          oracle)) ∧
    (m.blockSize = 0 → entries ≠ [] →
      entries.foldlM (m.cover identity query) oracle = .error .zeroDivision) := by
  constructor
  · intro hsize
    induction entries generalizing oracle with
    | nil => rfl
    | cons entry entries ih =>
      obtain ⟨hmatches, hrest⟩ := forall_mem_cons.mp hidentity
      have hstep : m.cover identity query oracle entry =
          .ok (max oracle
            ((commonLength entry.tokens query : Int).fdiv m.blockSize * m.blockSize)) := by
        rw [cover, if_pos hmatches, floorDiv, if_neg hsize]
        rfl
      rw [foldlM_cons, hstep, map_cons]
      exact ih hrest _
  · intro hsize hne
    rcases entries with - | ⟨entry, entries⟩
    · exact absurd rfl hne
    have hstep : m.cover identity query oracle entry = .error .zeroDivision := by
      rw [cover, if_pos (hidentity entry mem_cons_self), floorDiv, if_pos hsize]
      rfl
    rw [foldlM_cons, hstep]
    rfl

theorem matches_of_mem {entry : PrefixEntry} (h : entry ∈ m.candidates identity) :
    entry.identity.matches identity = true := (mem_filter.mp h).2

variable (m identity query)

def mostBlocks : Int :=
  ((m.candidates identity).map (blocksOf query)).foldl max 0

def oracleTokens : Int :=
  ((m.candidates identity).map fun entry =>
    (commonLength entry.tokens query : Int).fdiv m.blockSize * m.blockSize).foldl max 0

variable {m identity query}

theorem better_skip (best : Int × Option PrefixEntry) (entry : PrefixEntry)
    (h : entry.identity.matches identity = false) :
    better identity query best entry = .ok best := by
  rw [better, if_neg (Bool.eq_false_iff.mp h)]
  rfl

theorem cover_skip (oracle : Int) (entry : PrefixEntry)
    (h : entry.identity.matches identity = false) :
    m.cover identity query oracle entry = .ok oracle := by
  rw [cover, if_neg (Bool.eq_false_iff.mp h)]
  rfl

/-- `match` goes on with most blocks, -/
theorem match_eq (digest : CacheIdentity → String) (query : List Int)
    (hsizes : ∀ entry ∈ m.candidates identity, entry.tokens ≠ [] → entry.blockSize ≠ 0) :
    ∃ best, m.match digest identity query = .ok (m.found digest identity best) ∧
      best.1 = m.mostBlocks identity query := by
  obtain ⟨best, hbest, heq⟩ := (foldlM_better query
    (fun entry h => matches_of_mem h) (0, none)).1 hsizes
  refine ⟨best, ?_, heq⟩
  rw [PrefixMatcher.match, foldlM_candidates better_skip]
  exact congrArg (· >>= fun best => pure (m.found digest identity best)) hbest

/-- or divides by zero. -/
theorem match_error (digest : CacheIdentity → String) (query : List Int)
    (h : ∃ entry ∈ m.candidates identity, entry.tokens ≠ [] ∧ entry.blockSize = 0) :
    m.match digest identity query = .error .zeroDivision := by
  have hbest := (foldlM_better query
    (fun entry h => matches_of_mem h) (0, none)).2 h
  rw [PrefixMatcher.match, foldlM_candidates better_skip]
  exact congrArg (· >>= fun best => pure (m.found digest identity best)) hbest

/-- The oracle goes through, -/
theorem oracle_eq (hsize : m.candidates identity ≠ [] → m.blockSize ≠ 0) :
    m.entries.foldlM (m.cover identity query) 0 = .ok (m.oracleTokens identity query) := by
  rw [foldlM_candidates cover_skip]
  by_cases hnone : m.candidates identity = []
  · rw [oracleTokens]
    show (m.candidates identity).foldlM _ _ = _
    rw [hnone]
    rfl
  · exact (foldlM_cover (fun entry h => matches_of_mem h) 0).1 (hsize hnone)

/-- or divides by zero. -/
theorem oracle_error (hsize : m.blockSize = 0) (h : m.candidates identity ≠ []) :
    m.entries.foldlM (m.cover identity query) 0 = .error .zeroDivision := by
  rw [foldlM_candidates cover_skip]
  exact (foldlM_cover (fun entry h => matches_of_mem h) 0).2 hsize h

/-- Both return where nothing is divided by zero. -/
theorem agrees_iff_sizes : m.Agrees digest identity query ↔
      (∀ entry ∈ m.candidates identity, entry.tokens ≠ [] → entry.blockSize ≠ 0) ∧
      (m.candidates identity ≠ [] → m.blockSize ≠ 0) ∧
      m.mostBlocks identity query * m.blockSize = m.oracleTokens identity query ∧
      m.Shared identity query (m.mostBlocks identity query * m.blockSize) := by
  constructor
  · rintro ⟨report, found, hreport, hfound, hequal, hshared⟩
    have hsizes : ∀ entry ∈ m.candidates identity, entry.tokens ≠ [] → entry.blockSize ≠ 0 := by
      intro entry hentry htokens hzero
      have := match_error digest query ⟨entry, hentry, htokens, hzero⟩
      cases this.symm.trans hfound
    obtain ⟨best, hbest, hmost⟩ := match_eq digest query hsizes
    cases hbest.symm.trans hfound
    have hsize : m.candidates identity ≠ [] → m.blockSize ≠ 0 := by
      intro hne hzero
      rw [matcherOracle, hfound, oracle_error hzero hne] at hreport
      cases hreport
    rw [matcherOracle, hfound, oracle_eq hsize] at hreport
    cases hreport
    rw [← hmost]
    exact ⟨hsizes, hsize, hequal, hshared⟩
  · rintro ⟨hsizes, hsize, hequal, hshared⟩
    obtain ⟨best, hbest, hmost⟩ := match_eq digest query hsizes
    rw [← hmost] at hequal hshared
    have hreport : m.matcherOracle digest identity query =
        .ok ⟨best.1 * m.blockSize = m.oracleTokens identity query, best.1 * m.blockSize,
          m.oracleTokens identity query⟩ := by
      rw [matcherOracle, hbest, oracle_eq hsize]
      rfl
    exact ⟨_, _, hreport, hbest, hequal, hshared⟩

/-! ### Counting blocks -/

/-- The longest shared prefix is the greatest shared length. -/
theorem longest_spec (m : PrefixMatcher) (identity : CacheIdentity) (query : List Int) :
    0 ≤ m.longest identity query ∧
      (∀ entry ∈ m.candidates identity,
        (commonLength entry.tokens query : Int) ≤ m.longest identity query) ∧
      (m.longest identity query = 0 ∨ ∃ entry ∈ m.candidates identity,
        (commonLength entry.tokens query : Int) = m.longest identity query) := by
  obtain ⟨⟨hstart, hall⟩, hreached⟩ := foldl_max_eq_iff.mp
    (rfl : ((m.candidates identity).map fun entry =>
      (commonLength entry.tokens query : Int)).foldl max 0 = m.longest identity query)
  exact ⟨hstart, fun entry hentry => hall _ (mem_map.mpr ⟨entry, hentry, rfl⟩),
    hreached.imp_right mem_map.mp⟩

/-- Shared tokens are no more than the longest shared prefix. -/
theorem shared_iff {count : Int} :
    m.Shared identity query count ↔ count ≤ m.longest identity query := by
  obtain ⟨hstart, hall, hreached⟩ := longest_spec m identity query
  constructor
  · rintro (hcount | ⟨entry, hentry, hshared⟩)
    · exact hcount.trans hstart
    · have hle := le_commonLength_iff.mpr hshared
      have := hall entry hentry
      omega
  · intro hle
    rcases hreached with hzero | ⟨entry, hentry, hlength⟩
    · exact .inl (hle.trans hzero.le)
    · refine .inr ⟨entry, hentry, le_commonLength_iff.mp ?_⟩
      rw [← hlength] at hle
      exact Int.toNat_le.mpr hle

end PrefixMatcher

/-- Down to a multiple. -/
def wholeBlocks (size n : Int) : Int := n.fdiv size * size

theorem wholeBlocks_monotone {size : Int} (h : 0 < size) : Monotone (wholeBlocks size) := by
  intro n n' hn
  rw [wholeBlocks, wholeBlocks, Int.fdiv_eq_ediv_of_nonneg _ h.le,
    Int.fdiv_eq_ediv_of_nonneg _ h.le]
  exact mul_le_mul_of_nonneg_right (Int.ediv_le_ediv h hn) h.le

theorem wholeBlocks_le {size : Int} (h : 0 < size) (n : Int) : wholeBlocks size n ≤ n := by
  rw [wholeBlocks, Int.fdiv_mul_self]
  have := Int.fmod_nonneg_of_pos n h
  omega

theorem le_wholeBlocks {size : Int} (h : size < 0) (n : Int) : n ≤ wholeBlocks size n := by
  have hmod : n.fmod size ≤ 0 := by
    rw [Int.fmod_eq_emod]
    split_ifs with hdvd
    · rcases hdvd with hdvd | hdvd
      · omega
      · rw [Int.emod_eq_zero_of_dvd hdvd]
        exact le_rfl
    · have := Int.emod_lt n h.ne
      omega
  rw [wholeBlocks, Int.fdiv_mul_self]
  omega

/-- **The arithmetic of the index.**  `most` blocks of `size` tokens are the greatest length down
to a multiple, and no longer than the greatest, exactly if they are its blocks. -/
theorem wholeBlocks_greatest_iff {l : List Int} (hl : ∀ n ∈ l, 0 ≤ n) {size : Int}
    (hsize : size ≠ 0) {most : Int} (hmost : 0 ≤ most) (hnone : l.foldl max 0 = 0 → most = 0) :
    most * size = (l.map (wholeBlocks size)).foldl max 0 ∧ most * size ≤ l.foldl max 0 ↔
      most = (l.foldl max 0).fdiv size := by
  obtain ⟨⟨hstart, hall⟩, hreached⟩ := foldl_max_eq_iff.mp
    (rfl : l.foldl max 0 = l.foldl max 0)
  have hzero : wholeBlocks size 0 = 0 := by
    rw [wholeBlocks, Int.zero_fdiv, zero_mul]
  rcases lt_or_gt_of_ne hsize with hneg | hpos
  · constructor
    · rintro ⟨hequal, -⟩
      -- what is claimed is not positive, and what the oracle finds is not negative
      obtain ⟨⟨hfound, hcuts⟩, -⟩ := foldl_max_eq_iff.mp
        (rfl : (l.map (wholeBlocks size)).foldl max 0 = (l.map (wholeBlocks size)).foldl max 0)
      have hclaimed : most * size ≤ 0 := mul_nonpos_of_nonneg_of_nonpos hmost hneg.le
      have hgreatest : l.foldl max 0 = 0 := by
        rcases hreached with hreached | hreached
        · exact hreached
        · have := hcuts _ (mem_map_of_mem hreached)
          have := le_wholeBlocks hneg (l.foldl max 0)
          omega
      rw [hgreatest]
      exact hnone hgreatest
    · intro hequal
      have hdown := Int.fdiv_nonpos_of_nonneg_of_nonpos hstart hneg.le
      have hmost' : most = 0 := by omega
      have hcut : wholeBlocks size (l.foldl max 0) = 0 := by
        rw [wholeBlocks, ← hequal, hmost', zero_mul]
      have hgreatest : l.foldl max 0 = 0 := by
        have := le_wholeBlocks hneg (l.foldl max 0)
        omega
      have hcuts : (l.map (wholeBlocks size)).foldl max 0 = 0 := by
        refine foldl_max_eq_iff.mpr ⟨⟨le_rfl, fun n hn => ?_⟩, .inl rfl⟩
        obtain ⟨length, hlength, rfl⟩ := mem_map.mp hn
        have := hl length hlength
        have := hall length hlength
        obtain rfl : length = 0 := by omega
        exact hzero.le
      rw [hmost', zero_mul, hcuts]
      exact ⟨rfl, hstart⟩
  · have hcuts : (l.map (wholeBlocks size)).foldl max 0 = wholeBlocks size (l.foldl max 0) := by
      have := foldl_max_map (wholeBlocks_monotone hpos) l 0
      rwa [hzero] at this
    rw [hcuts]
    constructor
    · rintro ⟨hequal, -⟩
      exact mul_right_cancel₀ hsize hequal
    · rintro rfl
      exact ⟨rfl, wholeBlocks_le hpos _⟩

namespace PrefixMatcher

variable {digest : CacheIdentity → String} {m : PrefixMatcher} {identity : CacheIdentity}
  {query : List Int}

theorem mostBlocks_of_nothing (h : m.longest identity query = 0) :
    m.mostBlocks identity query = 0 := by
  obtain ⟨-, hall, -⟩ := longest_spec m identity query
  refine foldl_max_eq_iff.mpr ⟨⟨le_rfl, fun n hn => ?_⟩, .inl rfl⟩
  obtain ⟨entry, hentry, rfl⟩ := mem_map.mp hn
  have hlength := hall entry hentry
  have : (commonLength entry.tokens query : Int) = 0 := by omega
  rw [blocksOf, this, Int.zero_fdiv]

theorem mostBlocks_eq_iff {most : Int} : m.mostBlocks identity query = most ↔
      (∀ entry ∈ m.candidates identity, blocksOf query entry ≤ most) ∧ 0 ≤ most ∧
        (most = 0 ∨ ∃ entry ∈ m.candidates identity, blocksOf query entry = most) := by
  rw [mostBlocks, foldl_max_eq_iff, forall_mem_map, mem_map]
  exact ⟨fun h => ⟨h.1.2, h.1.1, h.2⟩, fun h => ⟨⟨h.2.1, h.1⟩, h.2.2⟩⟩

/-- **When the index agrees with its oracle.** -/
theorem prefix_match_agrees_iff (digest : CacheIdentity → String) (m : PrefixMatcher)
    (identity : CacheIdentity) (query : List Int) :
    m.Agrees digest identity query ↔ m.Aligned identity query := by
  have hblocks : (m.candidates identity ≠ [] → m.blockSize ≠ 0) →
      (m.mostBlocks identity query * m.blockSize = m.oracleTokens identity query ∧
          m.Shared identity query (m.mostBlocks identity query * m.blockSize) ↔
        m.mostBlocks identity query = (m.longest identity query).fdiv m.blockSize) := by
    intro hsize
    rw [shared_iff]
    by_cases hnone : m.candidates identity = []
    · have hmost : m.mostBlocks identity query = 0 := by rw [mostBlocks, hnone]; rfl
      have hlongest : m.longest identity query = 0 := by rw [longest, hnone]; rfl
      have horacle : m.oracleTokens identity query = 0 := by rw [oracleTokens, hnone]; rfl
      simp [hmost, hlongest, horacle]
    · have hmost : 0 ≤ m.mostBlocks identity query := (mostBlocks_eq_iff.mp rfl).2.1
      have hlengths : ∀ n ∈ (m.candidates identity).map fun entry =>
          (commonLength entry.tokens query : Int), 0 ≤ n := by
        intro n hn
        obtain ⟨entry, -, rfl⟩ := mem_map.mp hn
        exact Int.natCast_nonneg _
      have hgreatest := wholeBlocks_greatest_iff hlengths (hsize hnone) hmost mostBlocks_of_nothing
      rw [map_map] at hgreatest
      exact hgreatest
  rw [agrees_iff_sizes]
  constructor
  · rintro ⟨hsizes, hsize, hfound⟩
    obtain ⟨habove, hnonneg, hreached⟩ := mostBlocks_eq_iff.mp ((hblocks hsize).mp hfound)
    exact ⟨hsizes, hsize, habove, hnonneg, hreached⟩
  · intro h
    refine ⟨h.sizes, h.size, (hblocks h.size).mpr ?_⟩
    exact mostBlocks_eq_iff.mpr ⟨h.above, h.nonneg, h.reached⟩

/-- Two blocks of four tokens are claimed as two blocks of sixteen. -/
theorem small_blocks_overclaimed :
    ¬ ∀ (m : PrefixMatcher) (identity : CacheIdentity) (query : List Int),
      m.Agrees (fun _ => "") identity query := by
  intro h
  let identity : CacheIdentity := ⟨"", "", "", "", "", "", "", "", "", "", "", "", "", ""⟩
  let tokens : List Int := [1, 2, 3, 4, 5, 6, 7, 8]
  obtain ⟨report, found, hreport, hfound, hequal, -⟩ := h ⟨16, [⟨identity, tokens, 4⟩]⟩ identity
    tokens
  have hmatch : PrefixMatcher.match (fun _ => "") ⟨16, [⟨identity, tokens, 4⟩]⟩ identity tokens =
      .ok ⟨2, 32, "", ""⟩ := by decide
  have horacle : PrefixMatcher.matcherOracle (fun _ => "") ⟨16, [⟨identity, tokens, 4⟩]⟩ identity
      tokens = .ok ⟨false, 32, 0⟩ := by decide
  cases hmatch.symm.trans hfound
  cases horacle.symm.trans hreport
  cases hequal

end PrefixMatcher

end Hqsb
