/-
Hqsb/Backends/ChoiceTrie.lean

The finite choices a constrained session may end in
(`hqsb/backends/decoding_sampling.py`, `ChoiceTrie`).

A node is the dictionary of its next tokens; that it also has the key `None` is
`ended`.  Tokens are indices into the vocabulary.  The tokenizer is a parameter,
and the order in which a set is listed does not matter, for `allowed` sorts.

Walking from the root reaches a node exactly along the beginnings of the choices
(`holds_ofPaths`), and the node has `ended` exactly at a whole choice, so `allowed`
is what the choices admit (`Accepted.allowed_spec`) and never empty.
-/
import Hqsb.Contracts.Scheduling

namespace Hqsb

open List

/-- What `ChoiceTrie` and `Sampler` raise. -/
inductive SamplingError
  | choicesRequireEosAnd1To64NonSpecialTokens
  | choicesHaveDuplicateTokenSequences
  | choiceBudgetMustAllowLongestPathPlusEosAndMinimum
  | maxOfEmpty
  | keyError
  | indexError
  | constraintHasNoValidSuccessor
  | noFiniteAllowedLogits
  | runtimeError
  deriving DecidableEq

def SamplingError.message : SamplingError → String
  | .choicesRequireEosAnd1To64NonSpecialTokens =>
    "L7_CHOICES_REQUIRE_EOS_AND_1_TO_64_NON_SPECIAL_TOKENS"
  | .choicesHaveDuplicateTokenSequences => "L7_CHOICES_HAVE_DUPLICATE_TOKEN_SEQUENCES"
  | .choiceBudgetMustAllowLongestPathPlusEosAndMinimum =>
    "L7_CHOICE_BUDGET_MUST_ALLOW_LONGEST_PATH_PLUS_EOS_AND_MINIMUM"
  | .maxOfEmpty => "max() arg is an empty sequence"
  | .keyError => "KeyError"
  | .indexError => "index out of range"
  | .constraintHasNoValidSuccessor => "L7_CONSTRAINT_HAS_NO_VALID_SUCCESSOR"
  | .noFiniteAllowedLogits => "L7_NO_FINITE_ALLOWED_LOGITS"
  | .runtimeError => "probability tensor contains either inf, nan or element < 0"

/-! ### Nodes -/

inductive TrieNode
  | mk (ended : Bool) (children : List (Nat × TrieNode))

namespace TrieNode

def ended : TrieNode → Bool
  | mk ended _ => ended

def children : TrieNode → List (Nat × TrieNode)
  | mk _ children => children

/-- `{}` -/
def empty : TrieNode := mk false []

def tokens (node : TrieNode) : List Nat := node.children.map Prod.fst

/-- `node.get(token)` -/
def child? (node : TrieNode) (token : Nat) : Option TrieNode :=
  (node.children.find? fun c => c.1 = token).map Prod.snd

/-- `node[token] = child`: in the place of the old child, or at the end. -/
def setChild (node : TrieNode) (token : Nat) (child : TrieNode) : TrieNode :=
  if token ∈ node.tokens then
    mk node.ended (node.children.map fun c => if c.1 = token then (token, child) else c)
  else mk node.ended (node.children ++ [(token, child)])

/-- `for token in path: node = node.setdefault(token, {})` and `node[None] = True` -/
def insert : (path : List Nat) → TrieNode → TrieNode
  | [], node => mk true node.children
  | token :: path, node =>
    node.setChild token (insert path ((node.child? token).getD empty))

/-- `for token in prefix: node = node[token]` -/
def walk : (path : List Nat) → TrieNode → Option TrieNode
  | [], node => some node
  | token :: path, node =>
    match node.child? token with
    | none => none
    | some child => walk path child

end TrieNode

/-! ### The trie -/

structure ChoiceTrie where
  paths : List (List Nat)
  eos : Finset Nat
  root : TrieNode

namespace ChoiceTrie

/-- The dictionaries that the paths leave behind, one after the other. -/
def ofPaths (paths : List (List Nat)) : TrieNode :=
  paths.foldl (fun root path => root.insert path) .empty

def new (encode : String → List Nat) (choices : List String) (eos : Finset Nat)
    (limit minimum : Nat) : Except SamplingError ChoiceTrie :=
  let paths := choices.map encode
  if eos = ∅ ∨ ∃ p ∈ paths, p = [] ∨ 64 < p.length ∨ ∃ t ∈ p, t ∈ eos then
    .error .choicesRequireEosAnd1To64NonSpecialTokens
  else if paths.dedup.length ≠ paths.length then
    .error .choicesHaveDuplicateTokenSequences
  else
    match (paths.map List.length).max?, (paths.map List.length).min? with
    | some longest, some shortest =>
      if limit < longest + 1 ∨ shortest < minimum then
        .error .choiceBudgetMustAllowLongestPathPlusEosAndMinimum
      else .ok { paths := paths, eos := eos, root := ofPaths paths }
    | _, _ => .error .maxOfEmpty

def allowed (trie : ChoiceTrie) (generated : List Nat) : Except SamplingError (List Nat) :=
  match trie.root.walk generated with
  | none => .error .keyError
  | some node =>
    .ok ((node.tokens ++ if node.ended then trie.eos.sort (· ≤ ·) else []).insertionSort (· ≤ ·))

def valid (trie : ChoiceTrie) (tokens : List Nat) : Bool :=
  match tokens.getLast? with
  | none => false
  | some last => last ∈ trie.eos ∧ tokens.dropLast ∈ trie.paths

end ChoiceTrie

/-! ### Walking -/

namespace TrieNode

variable {node child : TrieNode} {token token' : Nat}

theorem child?_isSome : (node.child? token).isSome ↔ token ∈ node.tokens := by
  rw [child?, Option.isSome_map, List.find?_isSome, tokens, mem_map]
  constructor
  · rintro ⟨c, hc, heq⟩
    exact ⟨c, hc, of_decide_eq_true heq⟩
  · rintro ⟨c, hc, heq⟩
    exact ⟨c, hc, decide_eq_true heq⟩

@[simp] theorem ended_setChild : (node.setChild token child).ended = node.ended := by
  rw [setChild]
  split_ifs
  all_goals rfl

theorem tokens_setChild : (node.setChild token child).tokens =
    if token ∈ node.tokens then node.tokens else node.tokens ++ [token] := by
  rw [setChild]
  split_ifs with hmem
  · show (node.children.map _).map Prod.fst = node.children.map Prod.fst
    rw [map_map]
    refine map_congr_left fun c _ => ?_
    by_cases hc : c.1 = token
    · simp [hc]
    · simp [hc]
  · show (node.children ++ [(token, child)]).map Prod.fst = _
    rw [map_append]
    rfl

theorem child?_eq_none (h : token ∉ node.tokens) : node.child? token = none := by
  rcases hchild : node.child? token with - | child
  · rfl
  · exact absurd (child?_isSome.mp (hchild ▸ rfl)) h

theorem child?_setChild : (node.setChild token child).child? token' =
    if token' = token then some child else node.child? token' := by
  rw [setChild]
  by_cases hmem : token ∈ node.tokens
  · rw [if_pos hmem]
    show ((node.children.map _).find? fun c => decide (c.1 = token')).map Prod.snd = _
    have hkeys : ((fun c : Nat × TrieNode => decide (c.1 = token')) ∘ fun c =>
        if c.1 = token then (token, child) else c) = fun c => decide (c.1 = token') := by
      funext c
      by_cases hc : c.1 = token
      · simp [hc]
      · simp [hc]
    rw [List.find?_map, hkeys]
    split_ifs with htoken
    · -- the old child is there and replaced
      obtain rfl := htoken
      rcases hfind : node.children.find? fun c => decide (c.1 = token') with - | c
      · rw [child?_isSome.symm, child?, hfind] at hmem
        cases hmem
      · have hc : c.1 = token' := by simpa using List.find?_some hfind
        rw [hfind, Option.map_some, Option.map_some, if_pos hc]
    · rw [child?]
      rcases hfind : node.children.find? fun c => decide (c.1 = token') with - | c
      · rw [hfind, Option.map_none]
      · have hc : c.1 = token' := by simpa using List.find?_some hfind
        rw [hfind, Option.map_some, if_neg fun h => htoken (hc.symm.trans h)]
  · rw [if_neg hmem]
    show ((node.children ++ [(token, child)]).find? fun c => decide (c.1 = token')).map Prod.snd = _
    rw [List.find?_append, Option.map_or]
    split_ifs with htoken
    · obtain rfl := htoken
      have hnone := child?_eq_none hmem
      rw [child?] at hnone
      rw [hnone]
      simp
    · rw [child?]
      simp [Ne.symm htoken]

/-- **Walking after an insertion**: along the path lies what inserting the rest of it made, the
other walks are the old ones. -/
theorem walk_insert (path walked : List Nat) (node : TrieNode) : (node.insert path).walk walked =
      if walked <+: path then
        some (((node.walk walked).getD empty).insert (path.drop walked.length))
      else node.walk walked := by
  induction walked generalizing path node with
  | nil => simp [walk]
  | cons token walked ih =>
    rcases path with - | ⟨first, path⟩
    · rw [if_neg (by simp)]
      rfl
    · rw [insert, walk, child?_setChild]
      by_cases htoken : token = first
      · obtain rfl := htoken
        rw [if_pos rfl]
        simp only [prefix_cons_inj, ih]
        rw [walk]
        rcases node.child? token with - | child
        · rcases walked with - | ⟨next, walked⟩
          · simp [walk]
          · simp [walk, child?, empty, children]
        · rfl
      · rw [if_neg htoken, if_neg (by simp [htoken])]
        rfl

theorem walk_append (walked rest : List Nat) (node : TrieNode) :
    node.walk (walked ++ rest) = (node.walk walked).bind (walk rest) := by
  induction walked generalizing node with
  | nil => rfl
  | cons token walked ih =>
    rw [cons_append, walk, walk]
    rcases node.child? token with - | child
    · rfl
    · exact ih child

theorem ended_insert (path : List Nat) (node : TrieNode) :
    (node.insert path).ended = (decide (path = []) || node.ended) := by
  rcases path with - | ⟨token, path⟩
  · rfl
  · rw [insert]
    simp

theorem nodup_insert (path : List Nat) (h : node.tokens.Nodup) :
    (node.insert path).tokens.Nodup := by
  rcases path with - | ⟨token, path⟩
  · exact h
  · rw [insert, tokens_setChild]
    split_ifs with hmem
    · exact h
    · rw [← concat_eq_append]
      exact h.concat hmem

/-- What a root holds of some paths. -/
structure Holds (root : TrieNode) (paths : List (List Nat)) : Prop where
  reached : ∀ walked, (root.walk walked).isSome ↔ walked = [] ∨ ∃ path ∈ paths, walked <+: path
  ended_iff : ∀ walked node, root.walk walked = some node → (node.ended ↔ walked ∈ paths)
  nodup : ∀ walked node, root.walk walked = some node → node.tokens.Nodup

theorem holds_empty : Holds empty [] where
  reached walked := by
    rcases walked with - | ⟨token, walked⟩
    · simp [walk]
    · simp [walk, child?, empty, children]
  ended_iff walked node h := by
    rcases walked with - | ⟨token, walked⟩
    · cases h
      simp [empty, ended]
    · simp [walk, child?, empty, children] at h
  nodup walked node h := by
    rcases walked with - | ⟨token, walked⟩
    · cases h
      exact nodup_nil
    · simp [walk, child?, empty, children] at h

variable {paths : List (List Nat)} {root : TrieNode}

theorem Holds.getD_ended (h : Holds root paths) (walked : List Nat) :
    ((root.walk walked).getD empty).ended ↔ walked ∈ paths := by
  rcases hwalk : root.walk walked with - | node
  · refine ⟨fun hended => (nomatch hended), fun hmem => ?_⟩
    have hsome := (h.reached walked).mpr (.inr ⟨walked, hmem, prefix_rfl⟩)
    rw [hwalk] at hsome
    cases hsome
  · exact h.ended_iff walked node hwalk

theorem Holds.getD_nodup (h : Holds root paths) (walked : List Nat) :
    ((root.walk walked).getD empty).tokens.Nodup := by
  rcases hwalk : root.walk walked with - | node
  · exact nodup_nil
  · exact h.nodup walked node hwalk

theorem Holds.insert (h : Holds root paths) (path : List Nat) :
    Holds (root.insert path) (paths ++ [path]) where
  reached walked := by
    rw [walk_insert]
    split_ifs with hpath
    · simp [hpath]
    · simp [h.reached, hpath]
  ended_iff walked node hnode := by
    rw [walk_insert] at hnode
    split_ifs at hnode with hpath
    · cases hnode
      have hdrop : path.drop walked.length = [] ↔ walked = path := by
        rw [drop_eq_nil_iff]
        refine ⟨fun hle => hpath.eq_of_length_le hle, fun heq => ?_⟩
        rw [heq]
      rw [ended_insert, Bool.or_eq_true, decide_eq_true_iff, hdrop, h.getD_ended, mem_append,
        mem_singleton, or_comm]
    · rw [h.ended_iff walked node hnode, mem_append, mem_singleton]
      refine (or_iff_left fun heq => hpath ?_).symm
      rw [heq]
  nodup walked node hnode := by
    rw [walk_insert] at hnode
    split_ifs at hnode
    · cases hnode
      exact nodup_insert _ (h.getD_nodup walked)
    · exact h.nodup walked node hnode

end TrieNode

namespace ChoiceTrie

/-- **The trie of some paths**: it is walked along their beginnings and ends with them. -/
theorem holds_ofPaths (paths : List (List Nat)) : (ofPaths paths).Holds paths := by
  induction paths using List.reverseRecOn with
  | nil => exact TrieNode.holds_empty
  | append_singleton paths path ih =>
    rw [ofPaths, foldl_concat]
    exact ih.insert path

theorem mem_tokens_iff {paths : List (List Nat)} {generated : List Nat} {node : TrieNode}
    (hnode : (ofPaths paths).walk generated = some node) (token : Nat) :
    token ∈ node.tokens ↔ ∃ path ∈ paths, generated ++ [token] <+: path := by
  have hreached := (holds_ofPaths paths).reached (generated ++ [token])
  rw [TrieNode.walk_append, hnode] at hreached
  rw [← TrieNode.child?_isSome]
  have hne : generated ++ [token] ≠ [] := by simp
  rw [or_iff_right hne] at hreached
  rw [← hreached]
  show _ ↔ (TrieNode.walk [token] node).isSome
  rw [TrieNode.walk]
  rcases node.child? token with - | child
  · rfl
  · rfl

/-! ### What the constructor accepts -/

/-- What the constructor has checked, for a session of `limit` tokens of which `minimum` are no
end tokens. -/
structure Accepted (trie : ChoiceTrie) (limit minimum : Nat) : Prop where
  root : trie.root = ofPaths trie.paths
  paths_ne : trie.paths ≠ []
  eos_ne : trie.eos ≠ ∅
  path_ne : ∀ path ∈ trie.paths, path ≠ []
  no_eos : ∀ path ∈ trie.paths, ∀ token ∈ path, token ∉ trie.eos
  fits : ∀ path ∈ trie.paths, path.length < limit
  minimum_le : ∀ path ∈ trie.paths, minimum ≤ path.length

theorem accepted_of_new {encode : String → List Nat} {choices : List String} {eos : Finset Nat}
    {limit minimum : Nat} {trie : ChoiceTrie}
    (h : new encode choices eos limit minimum = .ok trie) :
    trie.Accepted limit minimum ∧ trie.eos = eos ∧ trie.paths = choices.map encode := by
  rw [new] at h
  split_ifs at h with hpaths hdup
  rcases hmax : ((choices.map encode).map List.length).max? with - | longest
  · simp only [hmax, reduceCtorEq] at h
  rcases hmin : ((choices.map encode).map List.length).min? with - | shortest
  · simp only [hmax, hmin, reduceCtorEq] at h
  simp only [hmax, hmin] at h
  split_ifs at h with hbudget
  cases h
  simp only [not_or, not_exists, not_and] at hpaths hbudget
  obtain ⟨heos, hpaths⟩ := hpaths
  have hlongest := (List.max?_eq_some_iff.mp hmax).2
  have hshortest := (List.min?_eq_some_iff.mp hmin).2
  refine ⟨⟨rfl, ?_, heos, fun path hpath => (hpaths path hpath).1,
    fun path hpath => (hpaths path hpath).2.2, fun path hpath => ?_, fun path hpath => ?_⟩,
    rfl, rfl⟩
  · intro hnil
    simp [show choices.map encode = [] from hnil] at hmax
  · have hle := hlongest _ (mem_map_of_mem hpath)
    omega
  · have hle := hshortest _ (mem_map_of_mem hpath)
    omega

variable {trie : ChoiceTrie} {limit minimum : Nat} {generated : List Nat}

/-- **What `allowed` returns** along the paths: in ascending order, without duplicates, the
tokens that go on along a path and, behind a whole path, the end tokens. -/
theorem Accepted.allowed_spec (h : trie.Accepted limit minimum)
    (hgenerated : ∃ path ∈ trie.paths, generated <+: path) :
    ∃ tokens, trie.allowed generated = .ok tokens ∧ tokens.Pairwise (· < ·) ∧
      ∀ token, token ∈ tokens ↔
        (∃ path ∈ trie.paths, generated ++ [token] <+: path) ∨
          generated ∈ trie.paths ∧ token ∈ trie.eos := by
  have hholds := holds_ofPaths trie.paths
  obtain ⟨node, hnode⟩ := Option.isSome_iff_exists.mp
    ((hholds.reached generated).mpr (.inr hgenerated))
  have hended := hholds.ended_iff generated node hnode
  have htokens := mem_tokens_iff hnode
  have hmem : ∀ token, token ∈ node.tokens ++ (if node.ended then trie.eos.sort (· ≤ ·) else []) ↔
      (∃ path ∈ trie.paths, generated ++ [token] <+: path) ∨
        generated ∈ trie.paths ∧ token ∈ trie.eos := by
    intro token
    rw [mem_append, htokens, ← hended]
    split_ifs with hend
    · simp [hend]
    · simp [hend]
  have hnodup : (node.tokens ++ if node.ended then trie.eos.sort (· ≤ ·) else []).Nodup := by
    refine nodup_append.mpr ⟨hholds.nodup generated node hnode, ?_, ?_⟩
    · split_ifs
      · exact Finset.sort_nodup _ _
      · exact nodup_nil
    · rintro token htoken other hother rfl
      obtain ⟨path, hpath, hbegins⟩ := (htokens token).mp htoken
      refine h.no_eos path hpath token (hbegins.subset (by simp)) ?_
      split_ifs at hother
      · exact (Finset.mem_sort _).mp hother
      · cases hother
  refine ⟨(node.tokens ++ if node.ended then trie.eos.sort (· ≤ ·) else []).insertionSort (· ≤ ·),
    ?_, ?_, fun token => (mem_insertionSort (· ≤ ·)).trans (hmem token)⟩
  · rw [allowed, h.root, hnode]
  · have hsorted : (List.insertionSort (· ≤ ·)
        (node.tokens ++ if node.ended then trie.eos.sort (· ≤ ·) else [])).Pairwise (· ≤ ·) :=
      pairwise_insertionSort _ _
    have hnodup' := (perm_insertionSort (· ≤ ·)
      (node.tokens ++ if node.ended then trie.eos.sort (· ≤ ·) else [])).nodup_iff.mpr hnodup
    exact (hsorted.and hnodup').imp fun h => lt_of_le_of_ne h.1 h.2

/-- Whatever is walked goes along a path, so `allowed` is always in ascending order. -/
theorem Accepted.ascending (h : trie.Accepted limit minimum) {tokens : List Nat}
    (hallowed : trie.allowed generated = .ok tokens) : tokens.Pairwise (· < ·) := by
  rcases hwalk : trie.root.walk generated with - | node
  · simp only [allowed, hwalk, reduceCtorEq] at hallowed
  have hpath : ∃ path ∈ trie.paths, generated <+: path := by
    have hreached := (holds_ofPaths trie.paths).reached generated
    rw [← h.root, hwalk] at hreached
    rcases hreached.mp rfl with rfl | hpath
    · obtain ⟨path, hpath⟩ := exists_mem_of_ne_nil _ h.paths_ne
      exact ⟨path, hpath, nil_prefix⟩
    · exact hpath
  obtain ⟨tokens', heq, hascending, -⟩ := h.allowed_spec hpath
  cases hallowed.symm.trans heq
  exact hascending

end ChoiceTrie

end Hqsb
