/-
Hqsb/Backends/ConstrainedDecoding.lean

A constrained session ends in a valid choice, if no score overflows.

While what was generated is the beginning of a path (`Along`), some allowed token
is not masked: before a whole path it is a token of the path, and that is no end
token; behind a whole path it is an end token, and a path has at least `minimum`
tokens, so the end tokens are not masked any more (`Accepted.exists_unmasked`).  The filters leave
a score where there is one (`filtered_support`), so whatever is selected is an
allowed token with a score: it goes on along a path or ends the session behind one.  A path and
its end token fit into the limit.

What can go wrong is the arithmetic: a finite logit times the penalty or over the temperature may
be too large (`Overflows`).  Then nothing may be left to select from, or the probabilities are
NaN, and the selection raises (`select_cases`).
-/
import Hqsb.Backends.SamplerBackends
import Hqsb.Quant.Rounding

namespace Hqsb

open Lib Lib.BinaryFloat List

/-! ### Walks through a trie -/

namespace ChoiceTrie

variable {trie : ChoiceTrie} {limit minimum : Nat} {generated : List Nat}

def Along (trie : ChoiceTrie) (generated : List Nat) : Prop :=
  ∃ path ∈ trie.paths, generated <+: path

theorem Accepted.along_nil (h : trie.Accepted limit minimum) : trie.Along [] := by
  obtain ⟨path, hpath⟩ := exists_mem_of_ne_nil _ h.paths_ne
  exact ⟨path, hpath, nil_prefix⟩

theorem Accepted.length_lt (h : trie.Accepted limit minimum) (halong : trie.Along generated) :
    generated.length < limit := by
  obtain ⟨path, hpath, hbegins⟩ := halong
  exact lt_of_le_of_lt hbegins.length_le (h.fits path hpath)

/-- **No dead end**: along a path some allowed token is no end token, or the minimum is
reached. -/
theorem Accepted.exists_unmasked (h : trie.Accepted limit minimum)
    (halong : trie.Along generated) {allowed : List Nat}
    (hallowed : ∀ token, token ∈ allowed ↔
      (∃ path ∈ trie.paths, generated ++ [token] <+: path) ∨
        generated ∈ trie.paths ∧ token ∈ trie.eos) :
    ∃ token ∈ allowed, token ∈ trie.eos → minimum ≤ generated.length := by
  obtain ⟨path, hpath, rest, rfl⟩ := halong
  rcases rest with - | ⟨token, rest⟩
  · -- a whole path, which has as many tokens as the minimum
    rw [append_nil] at hpath
    obtain ⟨token, htoken⟩ := Finset.nonempty_iff_ne_empty.mpr h.eos_ne
    exact ⟨token, (hallowed token).mpr (.inr ⟨hpath, htoken⟩), fun _ => h.minimum_le _ hpath⟩
  · refine ⟨token, (hallowed token).mpr (.inl ⟨_, hpath, rest, by simp⟩), fun heos => ?_⟩
    exact absurd heos (h.no_eos _ hpath token (by simp))

end ChoiceTrie

namespace Sampler

/-! ### Support of the filters -/

section Maximum

variable {K : Type*} {scores kept kept' : List (Extended K)}

/-- `kept` holds some of the scores of `scores`, and one if there is one. -/
structure Supported (scores kept : List (Extended K)) : Prop where
  length : kept.length = scores.length
  value : ∀ i, kept.getD i ⊥ = ⊥ ∨ kept.getD i ⊥ = scores.getD i ⊥
  nonempty : (∃ i, scores.getD i ⊥ ≠ ⊥) → ∃ i, kept.getD i ⊥ ≠ ⊥

theorem Supported.refl (scores : List (Extended K)) : Supported scores scores :=
  ⟨rfl, fun _ => .inr rfl, id⟩

theorem Supported.trans (h : Supported scores kept) (h' : Supported kept kept') :
    Supported scores kept' := by
  refine ⟨h'.length.trans h.length, fun i => ?_, fun hsome => h'.nonempty (h.nonempty hsome)⟩
  rcases h'.value i with hbot | heq
  · exact .inl hbot
  · rw [heq]
    exact h.value i

theorem Supported.ne_nil (h : Supported scores kept) (hne : scores ≠ []) : kept ≠ [] := by
  rintro rfl
  exact hne (length_eq_zero_iff.mp h.length.symm)

theorem ne_nil_of_score (h : ∃ i, scores.getD i ⊥ ≠ ⊥) : scores ≠ [] := by
  obtain ⟨i, hi⟩ := h
  rintro rfl
  exact hi rfl

variable [LinearOrder K]

/-- The first maximum is a score, it is the largest, and nothing is ranked before it. -/
theorem argmax_score (h : ∃ i, scores.getD i ⊥ ≠ ⊥) :
    scores.getD (argmax scores) ⊥ ≠ ⊥ ∧ (∀ x ∈ scores, x ≤ scores.getD (argmax scores) ⊥) ∧
      ∀ e ∈ scores.zipIdx, ¬ Before e (scores.getD (argmax scores) ⊥, argmax scores) := by
  obtain ⟨hlt, htop⟩ := argmax_spec (ne_nil_of_score h)
  rw [getD_eq_getElem _ _ hlt, htop]
  refine ⟨?_, fun x hx => le_foldr_max hx, ?_⟩
  · obtain ⟨x, hx, hne⟩ := exists_mem_iff.mpr h
    exact (lt_of_lt_of_le (bot_lt_iff_ne_bot.mpr hne) (le_foldr_max hx)).ne'
  · rintro ⟨x, j⟩ he
    have hx := mem_zipIdx_iff_getElem?.mp he
    rintro (hlarger | ⟨heq, hbefore⟩)
    · exact not_lt.mpr (le_foldr_max (mem_of_getElem? hx)) hlarger
    · -- a maximum before the first one
      have hnot := not_of_lt_findIdx hbefore
      obtain ⟨hjlt, hget⟩ := List.getElem?_eq_some_iff.mp hx
      simp only at heq
      simp [hget, heq] at hnot

end Maximum

variable {K : Type*} [Field K] [LinearOrder K] {scores : List (Extended K)}
  (plan : SamplingPlan K) (A : Arithmetic K) {history : List Nat} {logits : List K}
  (s : Sampler K)

theorem supported_topK (hne : scores ≠ []) :
    ∃ kept, topK plan scores = .ok kept ∧ Supported scores kept := by
  obtain ⟨kept, hkept, hlen, hget⟩ := topK_spec plan hne
  refine ⟨kept, hkept, hlen, fun i => ?_, fun h => ⟨argmax scores, ?_⟩⟩
  · rw [hget]
    exact (ite_eq_or_eq _ _ _).symm
  · obtain ⟨hscore, hmax, -⟩ := argmax_score h
    have hnone : larger scores (argmax scores) = 0 := by
      rw [larger, countP_eq_zero]
      exact fun x hx => by simpa using hmax x hx
    rwa [hget, if_pos (by omega)]

theorem remove_first (ordered : List (Extended K)) :
    (remove plan A ordered).getD 0 false = false := by
  have hfirst (flags : List Bool) : (false :: flags).dropLast.getD 0 false = false := by
    rcases flags with - | ⟨flag, flags⟩
    · rfl
    · rfl
  exact hfirst _

theorem supported_topP (hne : scores ≠ []) :
    ∃ kept, topP plan A scores = .ok kept ∧ Supported scores kept := by
  by_cases hone : plan.topP < 1
  · obtain ⟨kept, hkept, hlen, hget⟩ := topP_ranked plan A hne hone
    refine ⟨kept, hkept, hlen, fun i => ?_, fun h => ⟨argmax scores, ?_⟩⟩
    · rcases lt_or_ge i scores.length with hi | hi
      · obtain ⟨j, hj, hrank⟩ := exists_rank hi
        rw [hget i j hj hrank]
        exact ite_eq_or_eq _ _ _
      · exact .inl (getD_eq_default _ _ (hlen.symm ▸ hi))
    · obtain ⟨hscore, -, hfirst⟩ := argmax_score h
      obtain ⟨hlt, -⟩ := argmax_spec hne
      obtain ⟨j, hj, hrank⟩ := exists_rank hlt
      have hzero : j = 0 := by
        by_contra hpos
        have hbefore := pairwise_iff_getElem.mp (ranking_ordered scores) 0 j
          (Nat.zero_lt_of_lt hj) hj (Nat.pos_of_ne_zero hpos)
        rw [hrank] at hbefore
        exact hfirst _ ((ranking_perm scores).mem_iff.mp (getElem_mem _)) hbefore
      rw [hget _ j hj hrank, hzero, remove_first]
      exact hscore
  · exact ⟨scores, if_neg hone, .refl scores⟩

def drawn (score : Extended K) : Extended K :=
  match plan.sampling with
  | .greedy => score
  | .multinomial => cooled plan A score

theorem drawn_bot : drawn plan A ⊥ = ⊥ := by
  rw [drawn]
  rcases plan.sampling
  · rfl
  · rfl

theorem getD_drawn (scores : List (Extended K)) (i : Nat) :
    (scores.map (drawn plan A)).getD i ⊥ = drawn plan A (scores.getD i ⊥) := by
  rw [getD_eq_getElem?_getD, getD_eq_getElem?_getD, List.getElem?_map]
  rcases scores[i]? with - | score
  · exact (drawn_bot plan A).symm
  · rfl

/-- **The filters leave a score where there is one.** -/
theorem filtered_support (hne : scores ≠ []) :
    ∃ kept, filtered plan A scores = .ok kept ∧ Supported (scores.map (drawn plan A)) kept := by
  rcases hs : plan.sampling
  · have hsame : scores.map (drawn plan A) = scores := by
      rw [show drawn plan A = id from funext fun score => by rw [drawn, hs]; rfl, map_id]
    exact ⟨scores, by simp only [filtered, hs], by rw [hsame]; exact .refl scores⟩
  · have hsame : scores.map (drawn plan A) = tempered plan A scores :=
      map_congr_left fun score _ => by rw [drawn, hs]
    have hne' : tempered plan A scores ≠ [] := fun hnil => hne (map_eq_nil_iff.mp hnil)
    obtain ⟨kept, htopK, h⟩ := supported_topK plan hne'
    obtain ⟨kept', htopP, h'⟩ := supported_topP plan A (h.ne_nil hne')
    exact ⟨kept', by simp only [filtered, hs, htopK, htopP], hsame ▸ h.trans h'⟩

/-! ### Before the filters -/

/-- A token whose score is not masked: an end token only behind `min_new_tokens`. -/
def Unmasked (s : Sampler K) (generated : List Nat) (token : Nat) : Prop :=
  token ∈ s.eos → s.plan.minNewTokens ≤ generated.length

/-- The score of a token before the mask of the end tokens. -/
def scored (history : List Nat) (token : Nat) (logit : K) : Extended K :=
  if plan.repetitionPenalty ≠ 1 ∧ token ∈ history then penalty plan A (A.round logit)
  else A.round logit

theorem penalised_ok (hhistory : ∀ token ∈ history, token < logits.length) :
    penalised plan A history (logits.map A.round) =
      .ok (logits.mapIdx (scored plan A history)) := by
  rw [penalised]
  split_ifs with hone hout
  · refine congrArg Except.ok (ext_getElem (by simp) fun i hi _ => ?_)
    simp [scored, hone]
  · obtain ⟨token, htoken, hge⟩ := hout
    exact absurd (hhistory token htoken) (not_lt.mpr (by simpa using hge))
  · refine congrArg Except.ok (ext_getElem (by simp) fun i hi _ => ?_)
    simp [scored, hone]

/-- **Before the constraint** every token has its score, but a masked end token has none. -/
theorem prepared_ok (generated : List Nat) (hhistory : ∀ token ∈ history, token < logits.length)
    (heos : ∀ token ∈ s.eos, token < logits.length) :
    ∃ scores, s.prepared A logits history generated = .ok scores ∧
      scores.length = logits.length ∧ ∀ (token : Nat) (h : token < logits.length),
        (s.Unmasked generated token →
          scores.getD token ⊥ = scored s.plan A history token logits[token]) ∧
        (¬ s.Unmasked generated token → scores.getD token ⊥ = ⊥) := by
  rw [prepared, penalised_ok s.plan A hhistory]
  simp only [eosMasked]
  by_cases hmask : generated.length < s.plan.minNewTokens ∧ s.eos ≠ ∅
  · have hin : ¬ ∃ token ∈ s.eos, (logits.mapIdx (scored s.plan A history)).length ≤ token := by
      rintro ⟨token, htoken, hge⟩
      exact absurd (heos token htoken) (not_lt.mpr (by simpa using hge))
    rw [if_pos hmask, if_neg hin]
    refine ⟨_, rfl, by simp, fun token htoken => ?_⟩
    rw [getD_eq_getElem _ _ (by simpa using htoken), Unmasked]
    by_cases hmem : token ∈ s.eos
    · simp [hmem, hmask.1]
    · simp [hmem]
  · rw [if_neg hmask]
    refine ⟨_, rfl, length_mapIdx, fun token htoken => ⟨fun _ => ?_, fun hmasked => ?_⟩⟩
    · rw [getD_eq_getElem _ _ (by simpa using htoken), getElem_mapIdx]
    · rw [Unmasked, Classical.not_imp, not_le] at hmasked
      exact absurd ⟨hmasked.2, Finset.ne_empty_of_mem hmasked.1⟩ hmask

/-! ### The constraint -/

def tokenAt : Option (List Nat) → Nat → Option Nat
  | none, index => some index
  | some mapping, index => mapping[index]?

/-- Behind the constraint the scores are those of the allowed tokens. -/
theorem constrained_ok {trie : ChoiceTrie} {generated allowed : List Nat}
    (hallowed : trie.allowed generated = .ok allowed) (hasc : allowed.Pairwise (· < ·))
    (hne : allowed ≠ []) {scores : List (Extended K)}
    (hinside : ∀ token ∈ allowed, token < scores.length) :
    ∃ kept mapping, constrained plan (some trie) generated scores = .ok (kept, mapping) ∧
      kept ≠ [] ∧
      (∀ token ∈ allowed, ∃ index, kept.getD index ⊥ = scores.getD token ⊥) ∧
      ∀ index, kept.getD index ⊥ ≠ ⊥ → ∃ token ∈ allowed, tokenAt mapping index = some token ∧
        kept.getD index ⊥ = scores.getD token ⊥ := by
  have hin : ¬ ∃ token ∈ allowed, scores.length ≤ token := by
    rintro ⟨token, htoken, hge⟩
    exact absurd (hinside token htoken) (not_lt.mpr hge)
  have hspread := spread_gather hasc hinside
  have hsmall : (allowed.map fun token => scores.getD token ⊥) ≠ [] :=
    fun hnil => hne (map_eq_nil_iff.mp hnil)
  have hgather (i : Nat) (hi : i < allowed.length) :
      (allowed.map fun token => scores.getD token ⊥).getD i ⊥ = scores.getD allowed[i] ⊥ := by
    rw [getD_eq_getElem _ _ (by simpa using hi), getElem_map]
  simp only [constrained, hallowed, if_neg hne, if_neg hin]
  rcases plan.constraintBackend
  · refine ⟨_, none, rfl, hspread.ne_nil hsmall, fun token htoken => ⟨token, ?_⟩,
      fun index hindex => ?_⟩
    · obtain ⟨i, hi, rfl⟩ := mem_iff_getElem.mp htoken
      rw [hspread.value i hi, hgather i hi]
    · have hmem : index ∈ allowed := by
        by_contra hout
        exact hindex (hspread.rest index hout)
      obtain ⟨i, hi, rfl⟩ := mem_iff_getElem.mp hmem
      exact ⟨_, hmem, rfl, by rw [hspread.value i hi, hgather i hi]⟩
  · refine ⟨_, some allowed, rfl, hsmall, fun token htoken => ?_, fun index hindex => ?_⟩
    · obtain ⟨i, hi, rfl⟩ := mem_iff_getElem.mp htoken
      exact ⟨i, hgather i hi⟩
    · have hlt : index < allowed.length := by
        by_contra hge
        exact hindex (getD_eq_default _ _ (by simpa using hge))
      exact ⟨_, getElem_mem hlt, List.getElem?_eq_getElem hlt, hgather index hlt⟩

/-! ### The selection -/

def Draws (A : Arithmetic K) (draw : Nat → List K → Nat) : Prop :=
  ∀ (call : Nat) {scores : List (Extended K)} {probabilities : List K},
    A.softmax scores = some probabilities → scores.getD (draw call probabilities) ⊥ ≠ ⊥

variable {A} {draw : Nat → List K → Nat}

/-- What is taken of tensors with a finite score. -/
theorem index_cases (hdraw : Draws A draw) (generated : List Nat)
    (hfinite : ∃ score ∈ scores, score ≠ ⊤ ∧ score ≠ ⊥) :
    (∃ index, s.index A draw generated scores = .ok index ∧ scores.getD index ⊥ ≠ ⊥) ∨
      s.index A draw generated scores = .error .runtimeError ∧ ⊤ ∈ scores := by
  have hsome : ∃ score ∈ scores, score ≠ ⊥ := hfinite.imp fun score h => ⟨h.1, h.2.2⟩
  simp only [index]
  rcases s.plan.sampling
  · exact .inl ⟨_, rfl, (argmax_score (exists_mem_iff.mp hsome)).1⟩
  · rcases hsoftmax : A.softmax scores with - | probabilities
    · refine .inr ⟨rfl, ?_⟩
      by_contra htop
      have hsome := (A.softmax_isSome scores).mpr ⟨htop, hsome⟩
      rw [hsoftmax] at hsome
      cases hsome
    · exact .inl ⟨_, rfl, hdraw _ hsoftmax⟩

/-- **What is selected** is an allowed token with a score.  An error says that the score of an
allowed token is plus infinity, or that none is left. -/
theorem select_cases {trie : ChoiceTrie} (htrie : s.trie = some trie) (hdraw : Draws A draw)
    {generated allowed : List Nat} {prep : List (Extended K)}
    (hprep : s.prepared A logits history generated = .ok prep)
    (hallowed : trie.allowed generated = .ok allowed) (hasc : allowed.Pairwise (· < ·))
    (hne : allowed ≠ []) (hinside : ∀ token ∈ allowed, token < prep.length) :
    (∃ token ∈ allowed, s.select A draw logits history generated = .ok token) ∨
      ∃ error, s.select A draw logits history generated = .error error ∧
        (error = .noFiniteAllowedLogits ∨ error = .runtimeError) ∧
        ((∃ token ∈ allowed, drawn s.plan A (prep.getD token ⊥) = ⊤) ∨
          ∀ token ∈ allowed, drawn s.plan A (prep.getD token ⊥) = ⊥) := by
  obtain ⟨start, mapping, hstart, hnil, hholds, htokens⟩ :=
    constrained_ok s.plan hallowed hasc hne hinside
  obtain ⟨kept, hkept, hsupported⟩ := filtered_support s.plan A hnil
  -- a score that is kept is the one of an allowed token
  have hvalue (index : Nat) (h : kept.getD index ⊥ ≠ ⊥) : ∃ token ∈ allowed,
      tokenAt mapping index = some token ∧
        kept.getD index ⊥ = drawn s.plan A (prep.getD token ⊥) := by
    have heq := (hsupported.value index).resolve_left h
    rw [getD_drawn] at heq
    have hscore : start.getD index ⊥ ≠ ⊥ := fun hstart => h (by rw [heq, hstart, drawn_bot])
    obtain ⟨token, htoken, hat, hprep⟩ := htokens index hscore
    exact ⟨token, htoken, hat, by rw [heq, hprep]⟩
  have hinfinite (h : ⊤ ∈ kept) : ∃ token ∈ allowed, drawn s.plan A (prep.getD token ⊥) = ⊤ := by
    obtain ⟨index, hindex, htop⟩ := mem_iff_getElem.mp h
    rw [← getD_eq_getElem _ ⊥ hindex] at htop
    obtain ⟨token, htoken, -, heq⟩ := hvalue index fun hbot => by cases htop.symm.trans hbot
    exact ⟨token, htoken, heq.symm.trans htop⟩
  have hscores : s.scores A logits history generated =
      if ∃ score ∈ kept, score ≠ ⊤ ∧ score ≠ ⊥ then .ok (kept, mapping)
      else .error .noFiniteAllowedLogits := by
    rw [scores_eq, hprep, htrie]
    simp only [hstart, finished, hkept]
  by_cases hfinite : ∃ score ∈ kept, score ≠ ⊤ ∧ score ≠ ⊥
  · rw [select, hscores, if_pos hfinite]
    dsimp only
    rcases index_cases s hdraw generated hfinite with ⟨index, hindex, hscore⟩ | ⟨hindex, htop⟩
    · obtain ⟨token, htoken, hat, -⟩ := hvalue index hscore
      refine .inl ⟨token, htoken, ?_⟩
      rw [hindex]
      rcases mapping with - | mapping
      · exact congrArg Except.ok (Option.some.inj hat)
      · rw [tokenAt] at hat
        simp only [hat]
    · exact .inr ⟨_, by rw [hindex], .inr rfl, .inl (hinfinite htop)⟩
  · refine .inr ⟨.noFiniteAllowedLogits, by rw [select, hscores, if_neg hfinite], .inl rfl, ?_⟩
    by_cases htop : ⊤ ∈ kept
    · exact .inl (hinfinite htop)
    · -- nothing at all is kept, so there was nothing
      have hnone : ¬ ∃ i, kept.getD i ⊥ ≠ ⊥ := by
        rw [← exists_mem_iff]
        rintro ⟨score, hscore, hne⟩
        exact hfinite ⟨score, hscore, fun heq => htop (heq ▸ hscore), hne⟩
      refine .inr fun token htoken => ?_
      by_contra hscore
      obtain ⟨index, hindex⟩ := hholds token htoken
      exact hnone (hsupported.nonempty ⟨index, by rwa [getD_drawn, hindex]⟩)

/-! ### The session -/

variable {trie : ChoiceTrie} {limit : Nat} {inputIds generated : List Nat}
  {logits : List Nat → List K}

/-- A session whose tokens are in the vocabulary of the target. -/
structure Session (s : Sampler K) (trie : ChoiceTrie) (limit : Nat) (inputIds : List Nat)
    (logits : List Nat → List K) : Prop where
  trie_eq : s.trie = some trie
  eos_eq : s.eos = trie.eos
  accepted : trie.Accepted limit s.plan.minNewTokens
  vocabulary : ∀ generated, (logits generated).length = (logits []).length
  input_lt : ∀ token ∈ inputIds, token < (logits []).length
  eos_lt : ∀ token ∈ trie.eos, token < (logits []).length
  path_lt : ∀ path ∈ trie.paths, ∀ token ∈ path, token < (logits []).length

/-- The outputs that a session comes to. -/
inductive Reached (s : Sampler K) (A : Arithmetic K) (draw : Nat → List K → Nat)
    (logits : List Nat → List K) (inputIds : List Nat) : List Nat → Prop
  | start : Reached s A draw logits inputIds []
  | next {generated : List Nat} {token : Nat} : Reached s A draw logits inputIds generated →
      s.select A draw (logits generated) (inputIds ++ generated) generated = .ok token →
      token ∉ s.eos → Reached s A draw logits inputIds (generated ++ [token])

/-- What the conversion, the penalty and the temperature make of the logit of a token. -/
def finalScore (s : Sampler K) (A : Arithmetic K) (logits : List K) (history : List Nat)
    (token : Nat) : Option (Extended K) :=
  logits[token]?.map fun logit => drawn s.plan A (scored s.plan A history token logit)

/-- The score of an allowed token that is not masked becomes plus infinity, or those of all of them
become minus infinity. -/
def Overflows (s : Sampler K) (A : Arithmetic K) (trie : ChoiceTrie) (logits : List K)
    (history generated : List Nat) : Prop :=
  ∃ allowed, trie.allowed generated = .ok allowed ∧
    ((∃ token ∈ allowed, s.Unmasked generated token ∧
        s.finalScore A logits history token = some ⊤) ∨
      ∀ token ∈ allowed, s.Unmasked generated token →
        s.finalScore A logits history token = some ⊥)

variable {s}

/-- **No dead end** while the output is the beginning of a path: the trie is walked, and an
allowed token keeps its score behind the mask of the end tokens. -/
theorem Session.admits (A : Arithmetic K) (h : s.Session trie limit inputIds logits)
    (halong : trie.Along generated) :
    ∃ allowed scores, trie.allowed generated = .ok allowed ∧ allowed.Pairwise (· < ·) ∧
      (∀ token ∈ allowed, (∃ path ∈ trie.paths, generated ++ [token] <+: path) ∨
        generated ∈ trie.paths ∧ token ∈ trie.eos) ∧
      s.prepared A (logits generated) (inputIds ++ generated) generated = .ok scores ∧
      (∀ token ∈ allowed, token < scores.length) ∧
      (∀ token ∈ allowed, ∃ logit, (logits generated)[token]? = some logit ∧
        (s.Unmasked generated token →
          scores.getD token ⊥ = scored s.plan A (inputIds ++ generated) token logit) ∧
        (¬ s.Unmasked generated token → scores.getD token ⊥ = ⊥)) ∧
      ∃ token ∈ allowed, s.Unmasked generated token := by
  obtain ⟨allowed, hallowed, hasc, hmem⟩ := h.accepted.allowed_spec halong
  obtain ⟨token, htoken, hopen⟩ := h.accepted.exists_unmasked halong hmem
  obtain ⟨path, hpath, hbegins⟩ := halong
  -- all tokens that matter are in the vocabulary
  have hinside : ∀ token ∈ allowed, token < (logits generated).length := by
    intro token htoken
    rw [h.vocabulary]
    rcases (hmem token).mp htoken with ⟨path, hpath, hbegins⟩ | ⟨-, heos⟩
    · exact h.path_lt path hpath token (hbegins.subset (by simp))
    · exact h.eos_lt token heos
  have hhistory : ∀ token ∈ inputIds ++ generated, token < (logits generated).length := by
    intro token htoken
    rw [h.vocabulary]
    rcases mem_append.mp htoken with hinput | hgenerated
    · exact h.input_lt token hinput
    · exact h.path_lt path hpath token (hbegins.subset hgenerated)
  obtain ⟨scores, hscores, hlen, hvalues⟩ := prepared_ok A s generated hhistory
    fun token heos => (h.vocabulary generated).symm ▸ h.eos_lt token (h.eos_eq ▸ heos)
  refine ⟨allowed, scores, hallowed, hasc, fun token htoken => (hmem token).mp htoken, hscores,
    fun token htoken => hlen.symm ▸ hinside token htoken, fun token htoken => ?_, token, htoken,
    fun heos => hopen (h.eos_eq ▸ heos)⟩
  have hlt := hinside token htoken
  exact ⟨_, List.getElem?_eq_getElem hlt, hvalues token hlt⟩

/-- **What one selection does** while the output is the beginning of a path: it takes a token
that goes on along a path, or an end token behind a path; it only fails where scores overflow. -/
theorem Session.select (h : s.Session trie limit inputIds logits) (hdraw : Draws A draw)
    (halong : trie.Along generated) :
    (∃ token, s.select A draw (logits generated) (inputIds ++ generated) generated = .ok token ∧
      (token ∉ trie.eos ∧ trie.Along (generated ++ [token]) ∨
        token ∈ trie.eos ∧ generated ∈ trie.paths)) ∨
      ∃ error,
        s.select A draw (logits generated) (inputIds ++ generated) generated = .error error ∧
        (error = .noFiniteAllowedLogits ∨ error = .runtimeError) ∧
        s.Overflows A trie (logits generated) (inputIds ++ generated) generated := by
  obtain ⟨allowed, scores, hallowed, hasc, hmem, hscores, hinside, hvalues, token, htoken, -⟩ :=
    h.admits A halong
  rcases select_cases s h.trie_eq hdraw hscores hallowed hasc (ne_nil_of_mem htoken) hinside with
    ⟨taken, htaken, hselect⟩ | ⟨error, hselect, hkind, hwhy⟩
  · refine .inl ⟨taken, hselect, ?_⟩
    rcases hmem taken htaken with ⟨path, hpath, hbegins⟩ | ⟨hwhole, heos⟩
    · exact .inl ⟨h.accepted.no_eos path hpath taken (hbegins.subset (by simp)), path, hpath,
        hbegins⟩
    · exact .inr ⟨heos, hwhole⟩
  · refine .inr ⟨error, hselect, hkind, allowed, hallowed, hwhy.imp ?_ ?_⟩
    · rintro ⟨token, htoken, htop⟩
      obtain ⟨logit, hlogit, hopen, hmasked⟩ := hvalues token htoken
      have hunmasked : s.Unmasked generated token := by
        by_contra hout
        rw [hmasked hout, drawn_bot] at htop
        cases htop
      refine ⟨token, htoken, hunmasked, ?_⟩
      rw [finalScore, hlogit, Option.map_some, ← hopen hunmasked, htop]
    · intro hnone token htoken hunmasked
      obtain ⟨logit, hlogit, hopen, -⟩ := hvalues token htoken
      rw [finalScore, hlogit, Option.map_some, ← hopen hunmasked, hnone token htoken]

theorem Session.along (h : s.Session trie limit inputIds logits) (hdraw : Draws A draw)
    (hreached : s.Reached A draw logits inputIds generated) : trie.Along generated := by
  induction hreached with
  | start => exact h.accepted.along_nil
  | @next generated token _ hselect heos ih =>
    rcases h.select hdraw ih with ⟨taken, htaken, hcases⟩ | ⟨error, herror, -⟩
    · obtain rfl : taken = token := Except.ok.inj (htaken.symm.trans hselect)
      exact (hcases.resolve_right fun hend => heos (h.eos_eq ▸ hend.1)).2
    · cases herror.symm.trans hselect

/-- **What a whole session does** from an output it comes to: it ends in a valid choice, or it
fails at an output where scores overflow. -/
theorem Session.generate (h : s.Session trie limit inputIds logits) (hdraw : Draws A draw)
    {remaining : Nat} (hreached : s.Reached A draw logits inputIds generated)
    (hlimit : generated.length + remaining = limit) :
    match s.generate A draw logits inputIds remaining generated with
    | .ok tokens => tokens.length ≤ limit ∧ trie.valid tokens = true
    | .error error => (error = .noFiniteAllowedLogits ∨ error = .runtimeError) ∧
        ∃ generated, s.Reached A draw logits inputIds generated ∧
          s.Overflows A trie (logits generated) (inputIds ++ generated) generated := by
  have halong := h.along hdraw hreached
  induction remaining generalizing generated with
  | zero => exact absurd (h.accepted.length_lt halong) (by omega)
  | succ remaining ih =>
    rw [Sampler.generate]
    rcases h.select hdraw halong with
      ⟨token, hselect, ⟨heos, hnext⟩ | ⟨heos, hwhole⟩⟩ | ⟨error, hselect, hkind, hwhy⟩
    · simp only [hselect, h.eos_eq, if_neg heos]
      exact ih (hreached.next hselect (h.eos_eq ▸ heos)) (by simp; omega) hnext
    · simp only [hselect, h.eos_eq, if_pos heos]
      refine ⟨by simp; omega, ?_⟩
      simp [ChoiceTrie.valid, heos, hwhole]
    · simp only [hselect]
      exact ⟨hkind, generated, hreached, hwhy⟩

/-- **A constrained session ends in a valid choice, if no score overflows.**  Whatever the
constructor accepted, whatever the finite logits are, however the tensors round, and whatever is
drawn among the tokens with a score: at every output that is reached, before the limit, the trie
is walked and an allowed token keeps its score behind the mask of the end tokens.  The session
produces an end token within the limit and a valid choice, or it raises where the score of an
allowed token has become plus infinity, or none but minus infinity is left. -/
theorem constrained_session_valid {encode : String → List Nat} {choices : List String}
    {eos : Finset Nat} {limit : Nat} {plan : SamplingPlan K} {trie : ChoiceTrie}
    (hnew : ChoiceTrie.new encode choices eos limit plan.minNewTokens = .ok trie)
    {A : Arithmetic K} {draw : Nat → List K → Nat} (hdraw : Draws A draw)
    {logits : List Nat → List K} {vocabulary : Nat}
    (hlogits : ∀ generated, (logits generated).length = vocabulary) {inputIds : List Nat}
    (hinput : ∀ token ∈ inputIds, token < vocabulary) (heos : ∀ token ∈ eos, token < vocabulary)
    (hencode : ∀ choice ∈ choices, ∀ token ∈ encode choice, token < vocabulary) :
    let s : Sampler K := ⟨plan, eos, some trie⟩
    (∀ generated, s.Reached A draw logits inputIds generated → generated.length < limit ∧
      ∃ allowed scores, trie.allowed generated = .ok allowed ∧
        s.prepared A (logits generated) (inputIds ++ generated) generated = .ok scores ∧
        ∃ token ∈ allowed, s.Unmasked generated token ∧
          ∃ logit, (logits generated)[token]? = some logit ∧
            scores.getD token ⊥ = scored plan A (inputIds ++ generated) token logit) ∧
      match s.generate A draw logits inputIds limit [] with
      | .ok tokens => tokens.length ≤ limit ∧ trie.valid tokens = true
      | .error error => (error = .noFiniteAllowedLogits ∨ error = .runtimeError) ∧
          ∃ generated, s.Reached A draw logits inputIds generated ∧
            s.Overflows A trie (logits generated) (inputIds ++ generated) generated := by
  intro s
  obtain ⟨haccepted, heq, hpaths⟩ := ChoiceTrie.accepted_of_new hnew
  have hsession : s.Session trie limit inputIds logits := by
    refine ⟨rfl, heq.symm, haccepted, fun generated => ?_, ?_, ?_, ?_⟩
    · rw [hlogits, hlogits]
    · rwa [hlogits]
    · rwa [hlogits, heq]
    · rw [hlogits, hpaths]
      intro path hpath
      obtain ⟨choice, hchoice, rfl⟩ := mem_map.mp hpath
      exact hencode choice hchoice
  refine ⟨fun generated hreached => ?_, hsession.generate hdraw .start (zero_add limit)⟩
  have halong := hsession.along hdraw hreached
  obtain ⟨allowed, scores, hallowed, -, -, hscores, -, hvalues, token, htoken, hunmasked⟩ :=
    hsession.admits A halong
  obtain ⟨logit, hlogit, hopen, -⟩ := hvalues token htoken
  exact ⟨haccepted.length_lt halong, allowed, scores, hallowed, hscores, token, htoken, hunmasked,
    logit, hlogit, hopen hunmasked⟩

/-! ### Scores of float32 -/

/-- Scores of float32, and exact probabilities for a weight. -/
def float32 (weight : ℚ → ℚ) : Arithmetic ℚ := exactly (binary32.round roundNearestEven) weight

def drawFirst (_ : Nat) (probabilities : List ℚ) : Nat :=
  probabilities.findIdx fun probability => decide (0 < probability)

theorem softWeight_nonneg {weight : ℚ → ℚ} (hweight : ∀ score, 0 < weight score)
    (score : Extended ℚ) : 0 ≤ softWeight weight score := by
  rcases score with - | - | score
  · exact le_rfl
  · exact le_rfl
  · exact (hweight score).le

/-- Under a positive weight what has a probability has a score, and something has one. -/
theorem draws_drawFirst {round : ℚ → Extended ℚ} {weight : ℚ → ℚ}
    (hweight : ∀ score, 0 < weight score) : Draws (exactly round weight) drawFirst := by
  intro call scores probabilities hsoftmax
  obtain ⟨⟨htop, score, hscore, hne⟩, heq⟩ := Option.ite_none_right_eq_some.mp hsoftmax
  obtain rfl : softmax weight scores = probabilities := Option.some.inj heq
  have hpos : 0 < softWeight weight score := by
    rcases score with - | - | score
    · exact absurd rfl hne
    · exact absurd hscore htop
    · exact hweight score
  have htotal : 0 < (scores.map (softWeight weight)).sum := by
    refine lt_of_lt_of_le hpos (single_le_sum ?_ _ (mem_map_of_mem hscore))
    intro x hx
    obtain ⟨score, -, rfl⟩ := mem_map.mp hx
    exact softWeight_nonneg hweight score
  have hfound : drawFirst call (softmax weight scores) < (softmax weight scores).length :=
    findIdx_lt_length_of_exists
      ⟨_, mem_map_of_mem hscore, decide_eq_true (div_pos hpos htotal)⟩
  have hdrawn : 0 < (softmax weight scores)[drawFirst call (softmax weight scores)] :=
    of_decide_eq_true (findIdx_getElem (w := hfound))
  rw [← getD_eq_getElem _ 0, getD_softmax] at hdrawn
  intro hbot
  rw [hbot, show softWeight weight ⊥ = 0 from rfl, zero_div] at hdrawn
  exact lt_irrefl _ hdrawn

/-- The choice `2`, taken from a prompt that holds its token, with the largest penalty. -/
def twice : SamplingPlan ℚ where
  sampling := .greedy
  temperature := 1
  topK := 0
  topP := 1
  repetitionPenalty := 2
  minNewTokens := 0
  constraintBackend := .mask
  temperature_mem := by decide +kernel
  topK_le := by decide
  topP_mem := by decide +kernel
  repetitionPenalty_mem := by decide +kernel
  minNewTokens_le := by decide
  greedy_plain := fun _ => ⟨rfl, rfl, rfl⟩

/-- The weight of a score, instead of an exponential. -/
def positive (score : ℚ) : ℚ := 1 + score ^ 2

/-- **Finite logits may leave nothing to select**: the penalty doubles a score of `-3 * 2 ^ 126`. -/
theorem penalty_overflows :
    ChoiceTrie.new (fun text => if text = "2" then [2] else [2, 3]) ["2", "2 3"] {0} 6
      twice.minNewTokens = .ok twoOrTwoThree ∧
    Draws (float32 positive) drawFirst ∧
    Sampler.generate (float32 positive) ⟨twice, {0}, some twoOrTwoThree⟩ drawFirst
      (fun _ => [1, 1, -3 * 2 ^ 126, 1]) [1, 2] 6 [] = .error .noFiniteAllowedLogits := by
  refine ⟨twoOrTwoThree_new, draws_drawFirst fun score => ?_, ?_⟩
  · rw [positive]
    positivity
  · decide +kernel

/-- A session of the choices `2` and `2 3`. -/
theorem constrained_session_valid_two : ∃ tokens,
    Sampler.generate (float32 positive) ⟨halfOfTwo, {0}, some twoOrTwoThree⟩ drawFirst
      (fun _ => [1, 1, 1, 1]) [1] 6 [] = .ok tokens ∧ twoOrTwoThree.valid tokens = true := by
  have hnew : ChoiceTrie.new (fun text => if text = "2" then [2] else [2, 3]) ["2", "2 3"] {0} 6
      halfOfTwo.minNewTokens = .ok twoOrTwoThree := twoOrTwoThree_new
  have hdraw : Draws (float32 positive) drawFirst := draws_drawFirst fun score => by
    rw [positive]
    positivity
  have hlogits : ∀ generated : List Nat, ((fun _ => [1, 1, 1, 1] : List Nat → List ℚ)
      generated).length = 4 := fun _ => rfl
  have hinput : ∀ token ∈ [1], token < 4 := by decide
  have h := (constrained_session_valid hnew hdraw hlogits hinput (by decide) (by decide)).2
  have hran : Sampler.generate (float32 positive) ⟨halfOfTwo, {0}, some twoOrTwoThree⟩ drawFirst
      (fun _ => [1, 1, 1, 1]) [1] 6 [] = .ok [2, 0] := by decide +kernel
  rw [hran] at h
  exact ⟨_, hran, h.2⟩

end Sampler

end Hqsb
