/-
Hqsb/Backends/SamplerBackends.lean

The two layouts of a constrained selection agree.

`gather` filters the allowed scores alone, `mask` the whole vocabulary with minus
infinity everywhere else: the one tensor is the other spread out to the allowed
tokens (`spread_gather`).  However the scores are rounded, they are rounded alike.
Each filter keeps an entry by a sum over entries that minus infinity adds nothing
to, and ties are broken by places, whose order the ascending list of allowed
tokens keeps; so the tensors stay spread (`spread_filtered`), and the first
maximum, the support and the probabilities are the same tokens' (`backends_agree`).
-/
import Hqsb.Backends.Sampler

namespace Hqsb

open Lib Lib.BinaryFloat List

namespace Sampler

/-! ### Filters on spread tensors -/

section Order

variable {K : Type*} [LinearOrder K] {mapping : List Nat} {small big : List (Extended K)}

theorem larger_eq (h : Spread mapping small big) {i : Nat} (hi : i < mapping.length) :
    larger big mapping[i] = larger small i := by
  rw [larger, larger, countP_eq_tally, countP_eq_tally, h.value i hi]
  exact h.tally (fun _ => by simp) fun _ _ _ => rfl

/-- **The first maximum is the same token's.** -/
theorem spread_argmax (h : Spread mapping small big) (hfinite : ∃ i, small.getD i ⊥ ≠ ⊥) :
    mapping[argmax small]? = some (argmax big) := by
  obtain ⟨k, hk⟩ := hfinite
  have hklt : k < small.length := by
    by_contra hge
    exact hk (getD_eq_default _ _ (not_lt.mp hge))
  have hne : small ≠ [] := fun hnil => by simp [hnil] at hklt
  obtain ⟨hlt, htop⟩ := argmax_spec hne
  have hi : argmax small < mapping.length := h.length ▸ hlt
  have hbiglt : mapping[argmax small] < big.length := h.inside _ (getElem_mem hi)
  -- the largest score is a score
  have hvalue : big[mapping[argmax small]] = small.foldr max ⊥ := by
    rw [← getD_eq_getElem _ ⊥ hbiglt, h.value _ hi, getD_eq_getElem _ _ hlt, htop]
  have hbot : ⊥ < small.foldr max ⊥ := by
    rw [getD_eq_getElem _ _ hklt] at hk
    exact lt_of_lt_of_le (bot_lt_iff_ne_bot.mpr hk) (le_foldr_max (getElem_mem hklt))
  have hentry : ∀ t, big.getD t ⊥ = ⊥ ∨ ∃ (i : Nat) (hi : i < mapping.length),
      t = mapping[i] ∧ big.getD t ⊥ = small.getD i ⊥ := by
    intro t
    by_cases ht : t ∈ mapping
    · obtain ⟨i, hi, rfl⟩ := mem_iff_getElem.mp ht
      exact .inr ⟨i, hi, rfl, h.value i hi⟩
    · exact .inl (h.rest t ht)
  rw [List.getElem?_eq_getElem hi, Option.some.injEq]
  refine (argmax_eq hbiglt (fun x hx => ?_) fun j hj => ?_).symm
  · obtain ⟨t, ht, rfl⟩ := mem_iff_getElem.mp hx
    rw [hvalue, ← getD_eq_getElem _ ⊥ ht]
    rcases hentry t with heq | ⟨i, hi, -, heq⟩
    · rw [heq]
      exact bot_le
    · have hi' : i < small.length := h.length ▸ hi
      rw [heq, getD_eq_getElem _ _ hi']
      exact le_foldr_max (getElem_mem hi')
  · -- an earlier token stands earlier in the allowed list
    have hjlt : j < big.length := hj.trans hbiglt
    rw [hvalue, ← getD_eq_getElem _ ⊥ hjlt]
    rcases hentry j with heq | ⟨i, hi', rfl, heq⟩
    · rw [heq]
      exact hbot
    · have hilt : i < argmax small := (h.getElem_lt_iff hi' hi).mp hj
      have hi'' : i < small.length := h.length ▸ hi'
      rw [heq, getD_eq_getElem _ _ hi'']
      refine lt_of_le_of_ne (le_foldr_max (getElem_mem hi'')) fun hmax => ?_
      have hnot := not_of_lt_findIdx hilt
      simp [hmax] at hnot

end Order

/-- Tensors that are spread have probabilities alike. -/
theorem proper_iff {K : Type*} {mapping : List Nat} {small big : List (Extended K)}
    (h : Spread mapping small big) : Proper big ↔ Proper small := by
  have htop := h.exists_mem_iff (p := fun score => score = ⊤) (fun hbot => by cases hbot)
  simp only [exists_eq_right] at htop
  rw [Proper, Proper, htop, h.exists_mem_iff fun hbot => hbot rfl]

variable {K : Type*} [Field K] [LinearOrder K] {weight : K → K} {plan : SamplingPlan K}
  {mapping : List Nat} {small big : List (Extended K)} (plan : SamplingPlan K)
  (A : Arithmetic K)

theorem getD_tempered (scores : List (Extended K)) (i : Nat) :
    (tempered plan A scores).getD i ⊥ = cooled plan A (scores.getD i ⊥) := by
  rw [tempered, getD_eq_getElem?_getD, getD_eq_getElem?_getD, List.getElem?_map]
  rcases scores[i]? with - | score
  · rfl
  · rfl

theorem spread_tempered (h : Spread mapping small big) :
    Spread mapping (tempered plan A small) (tempered plan A big) where
  length := (length_map _).trans h.length
  ascending := h.ascending
  inside t ht := by
    rw [tempered, length_map]
    exact h.inside t ht
  value i hi := by rw [getD_tempered, getD_tempered, h.value i hi]
  rest t ht := by
    rw [getD_tempered, h.rest t ht]
    rfl

theorem spread_topK (h : Spread mapping small big) (hne : small ≠ []) :
    ∃ small' big', topK plan small = .ok small' ∧ topK plan big = .ok big' ∧
      Spread mapping small' big' := by
  obtain ⟨small', hsmall, hlen, hget⟩ := topK_spec plan hne
  obtain ⟨big', hbig, hlen', hget'⟩ := topK_spec plan (h.ne_nil hne)
  refine ⟨small', big', hsmall, hbig, h.filter hlen hlen' hget hget' fun i hi _ => ?_⟩
  rw [larger_eq h hi]

theorem massBefore_eq_of_spread (h : Spread mapping small big) {i : Nat}
    (hi : i < mapping.length) : massBefore weight big mapping[i] = massBefore weight small i := by
  rw [massBefore, h.value i hi]
  refine h.tally (fun t => ?_) fun x j hj => ?_
  · show (if _ then (0 : K) else 0) = 0
    exact ite_self 0
  · exact if_congr (or_congr Iff.rfl (and_congr Iff.rfl (h.getElem_lt_iff hj hi))) rfl rfl

section

variable (round : K → Extended K) (weight : K → K) (plan : SamplingPlan K)
  (h : Spread mapping small big) (hne : small ≠ [])

include h hne

theorem spread_topP :
    ∃ small' big', topP plan (exactly round weight) small = .ok small' ∧
      topP plan (exactly round weight) big = .ok big' ∧ Spread mapping small' big' := by
  obtain ⟨small', hsmall, hlen, hget⟩ := topP_spec round weight plan hne
  obtain ⟨big', hbig, hlen', hget'⟩ := topP_spec round weight plan (h.ne_nil hne)
  simp only [← ite_not (_ ∧ _)] at hget hget'
  refine ⟨small', big', hsmall, hbig, h.filter hlen hlen' hget hget' fun i hi _ => ?_⟩
  have htotal : total weight big = total weight small := h.tally (fun _ => rfl) fun _ _ _ => rfl
  rw [massBefore_eq_of_spread h hi, htotal, proper_iff h]

/-- **The filters keep tensors spread.** -/
theorem spread_filtered :
    ∃ small' big', filtered plan (exactly round weight) small = .ok small' ∧
      filtered plan (exactly round weight) big = .ok big' ∧ Spread mapping small' big' := by
  rcases hs : plan.sampling
  · refine ⟨small, big, ?_, ?_, h⟩
    all_goals simp only [filtered, hs]
  · have hne' : tempered plan (exactly round weight) small ≠ [] :=
      fun hnil => hne (map_eq_nil_iff.mp hnil)
    obtain ⟨small₁, big₁, hsmall, hbig, h₁⟩ :=
      spread_topK plan (spread_tempered plan (exactly round weight) h) hne'
    have hne₁ : small₁ ≠ [] := by
      intro hnil
      have hlen := h₁.length
      rw [hnil, ← h.length] at hlen
      exact hne (length_eq_zero_iff.mp hlen.symm)
    obtain ⟨small₂, big₂, hsmall', hbig', h₂⟩ := spread_topP round weight plan h₁ hne₁
    refine ⟨small₂, big₂, ?_, ?_, h₂⟩
    · simp only [filtered, hs, hsmall, hsmall']
    · simp only [filtered, hs, hbig, hbig']

end

/-! ### The selection -/

omit [LinearOrder K] in
theorem getD_softmax (weight : K → K) (scores : List (Extended K)) (i : Nat) :
    (softmax weight scores).getD i 0 =
      softWeight weight (scores.getD i ⊥) / (scores.map (softWeight weight)).sum := by
  rw [softmax, getD_eq_getElem?_getD, getD_eq_getElem?_getD, List.getElem?_map]
  rcases scores[i]? with - | score
  · exact (zero_div _).symm
  · rfl

omit [LinearOrder K] in
theorem entryOf_softmax (h : Spread mapping small big) (token : Nat) :
    entryOf 0 (softmax weight big) none token =
      entryOf 0 (softmax weight small) (some mapping) token := by
  have hsum : ∀ scores : List (Extended K), (scores.map (softWeight weight)).sum =
      tally (fun score _ => softWeight weight score) scores := by
    intro scores
    rw [tally, map_fst_zipIdx _ (softWeight weight)]
  have htotal : (big.map (softWeight weight)).sum = (small.map (softWeight weight)).sum := by
    rw [hsum, hsum]
    exact h.tally (fun _ => rfl) fun _ _ _ => rfl
  have hentry := h.entryOf_eq token
  rw [entryOf, entryOf] at hentry ⊢
  rw [getD_softmax, hentry, htotal]
  split_ifs
  · rw [getD_softmax]
  · exact zero_div _

/-- Both raise the same, or they give every token the same score and the same probability. -/
def SameOutcome (A : Arithmetic K) :
    Except SamplingError (List (Extended K) × Option (List Nat)) →
      Except SamplingError (List (Extended K) × Option (List Nat)) → Prop
  | .error error, .error error' => error = error'
  | .ok (scores, mapping), .ok (scores', mapping') => ∀ token,
    entryOf ⊥ scores mapping token = entryOf ⊥ scores' mapping' token ∧
      (A.softmax scores).map (entryOf 0 · mapping token) =
        (A.softmax scores').map (entryOf 0 · mapping' token)
  | _, _ => False

/-- **How the constraint parts the backends**: not at all, or into spread tensors. -/
theorem constrained_cases {trie : ChoiceTrie} {limit minimum : Nat}
    (htrie : trie.Accepted limit minimum) (generated : List Nat) (scores : List (Extended K)) :
    (∃ error, ∀ backend,
      constrained (plan.withBackend backend) (some trie) generated scores = .error error) ∨
    ∃ mapping small big,
      constrained (plan.withBackend .mask) (some trie) generated scores = .ok (big, none) ∧
      constrained (plan.withBackend .gather) (some trie) generated scores =
        .ok (small, some mapping) ∧ Spread mapping small big ∧ small ≠ [] := by
  rcases hallowed : trie.allowed generated with error | allowed
  · refine .inl ⟨error, fun backend => ?_⟩
    rw [constrained, hallowed]
  by_cases hnil : allowed = []
  · refine .inl ⟨.constraintHasNoValidSuccessor, fun backend => ?_⟩
    simp only [constrained, hallowed, if_pos hnil]
  by_cases hinside : ∃ token ∈ allowed, scores.length ≤ token
  · refine .inl ⟨.indexError, fun backend => ?_⟩
    simp only [constrained, hallowed, if_neg hnil, if_pos hinside]
  have hspread := spread_gather (htrie.ascending hallowed) (l := scores) (by simpa using hinside)
  refine .inr ⟨allowed, _, _, ?_, ?_, hspread, ?_⟩
  · simp only [constrained, hallowed, if_neg hnil, if_neg hinside]
    exact rfl
  · simp only [constrained, hallowed, if_neg hnil, if_neg hinside]
    exact rfl
  · exact fun h => hnil (map_eq_nil_iff.mp h)

/-- **How two selections part**: both raise, or their tensors are spread and have scores. -/
theorem scores_cases (eos : Finset Nat) {trie : ChoiceTrie} {limit minimum : Nat}
    (htrie : trie.Accepted limit minimum) (round : K → Extended K) (weight : K → K)
    (logits : List K) (history generated : List Nat) :
    let scores := fun backend => Sampler.scores (exactly round weight)
      ⟨plan.withBackend backend, eos, some trie⟩ logits history generated
    (∃ error, ∀ backend, scores backend = .error error) ∨
      ∃ mapping small big, scores .mask = .ok (big, none) ∧
        scores .gather = .ok (small, some mapping) ∧ Spread mapping small big ∧
        ∃ i, small.getD i ⊥ ≠ ⊥ := by
  intro scores
  have hscores := fun backend => scores_eq (exactly round weight)
    ⟨plan.withBackend backend, eos, some trie⟩ logits history generated
  have hstart : ∀ backend, prepared (exactly round weight)
      ⟨plan.withBackend backend, eos, some trie⟩ logits history generated =
        prepared (exactly round weight) ⟨plan, eos, some trie⟩ logits history generated :=
    fun _ => rfl
  rcases hprepared : prepared (exactly round weight) ⟨plan, eos, some trie⟩ logits history generated
    with error | start
  · exact .inl ⟨error, fun backend => (hscores backend).trans (by rw [hstart, hprepared])⟩
  replace hscores : ∀ backend, scores backend = finished (exactly round weight) plan
      (constrained (plan.withBackend backend) (some trie) generated start) :=
    fun backend => (hscores backend).trans (by rw [hstart, hprepared]; rfl)
  rcases constrained_cases plan htrie generated start with
    ⟨error, herror⟩ | ⟨mapping, small, big, hmask, hgather, hspread, hne⟩
  · exact .inl ⟨error, fun backend => by rw [hscores, herror, finished]⟩
  obtain ⟨small', big', hsmall, hbig, hspread'⟩ :=
    spread_filtered round weight plan hspread hne
  have hmask' := hscores .mask
  have hgather' := hscores .gather
  simp only [hmask, finished, hbig] at hmask'
  simp only [hgather, finished, hsmall] at hgather'
  have hfinite := hspread'.exists_mem_iff (p := fun score => score ≠ ⊤ ∧ score ≠ ⊥)
    fun hbot => hbot.2 rfl
  by_cases hsome : ∃ score ∈ small', score ≠ ⊤ ∧ score ≠ ⊥
  · rw [if_pos (hfinite.mpr hsome)] at hmask'
    rw [if_pos hsome] at hgather'
    refine .inr ⟨mapping, small', big', hmask', hgather', hspread', exists_mem_iff.mp ?_⟩
    exact hsome.imp fun score h => ⟨h.1, h.2.2⟩
  · rw [if_neg fun h => hsome (hfinite.mp h)] at hmask'
    rw [if_neg hsome] at hgather'
    refine .inl ⟨.noFiniteAllowedLogits, fun backend => ?_⟩
    rcases backend
    exacts [hmask', hgather']

/-- **Both constraint backends select alike**, however the scores are rounded.  They raise the
same, or give every token of the vocabulary the same score and the same probability; and greedily
they select the same token. -/
theorem backends_agree {encode : String → List Nat} {choices : List String} {eos : Finset Nat}
    {limit minimum : Nat} {trie : ChoiceTrie}
    (hnew : ChoiceTrie.new encode choices eos limit minimum = .ok trie) (plan : SamplingPlan K)
    (samplerEos : Finset Nat) (round : K → Extended K) (weight : K → K) (logits : List K)
    (history generated : List Nat) :
    let A := exactly round weight
    let mask : Sampler K := ⟨plan.withBackend .mask, samplerEos, some trie⟩
    let gather : Sampler K := ⟨plan.withBackend .gather, samplerEos, some trie⟩
    SameOutcome A (mask.scores A logits history generated)
        (gather.scores A logits history generated) ∧
      (plan.sampling = .greedy → ∀ draw,
        mask.select A draw logits history generated =
          gather.select A draw logits history generated) := by
  intro A mask gather
  rcases scores_cases plan samplerEos (ChoiceTrie.accepted_of_new hnew).1 round weight logits
    history generated with ⟨error, herror⟩ | ⟨mapping, small, big, hmask, hgather, hspread, hfinite⟩
  · have hmask : mask.scores A logits history generated = .error error := herror .mask
    have hgather : gather.scores A logits history generated = .error error := herror .gather
    rw [hmask, hgather]
    refine ⟨rfl, fun _ draw => ?_⟩
    rw [select, select, hmask, hgather]
  · have hmask' : mask.scores A logits history generated = .ok (big, none) := hmask
    have hgather' : gather.scores A logits history generated = .ok (small, some mapping) :=
      hgather
    rw [hmask', hgather']
    refine ⟨fun token => ⟨hspread.entryOf_eq token, ?_⟩, fun hgreedy draw => ?_⟩
    · show (if Proper big then _ else _ : Option (List K)).map _ =
        (if Proper small then _ else _ : Option (List K)).map _
      rw [if_congr (proper_iff hspread) rfl rfl]
      split_ifs
      · exact congrArg some (entryOf_softmax hspread token)
      · rfl
    have hm : mask.index A draw generated big = .ok (argmax big) := by
      rw [index, show mask.plan.sampling = .greedy from hgreedy]
    have hg : gather.index A draw generated small = .ok (argmax small) := by
      rw [index, show gather.plan.sampling = .greedy from hgreedy]
    rw [select, select, hmask', hgather']
    simp only [hm, hg, spread_argmax hspread hfinite]

/-- The choices `2` and `2 3`, ended by the token 0. -/
def twoOrTwoThree : ChoiceTrie := ⟨[[2], [2, 3]], {0}, ChoiceTrie.ofPaths [[2], [2, 3]]⟩

def halfOfTwo : SamplingPlan ℚ where
  sampling := .multinomial
  temperature := 1 / 2
  topK := 2
  topP := 1 / 2
  repetitionPenalty := 1
  minNewTokens := 1
  constraintBackend := .gather
  temperature_mem := by decide +kernel
  topK_le := by decide
  topP_mem := by decide +kernel
  repetitionPenalty_mem := by decide +kernel
  minNewTokens_le := by decide
  greedy_plain := by decide

theorem twoOrTwoThree_new : ChoiceTrie.new (fun text => if text = "2" then [2] else [2, 3])
    ["2", "2 3"] {0} 6 0 = .ok twoOrTwoThree := rfl

theorem backends_agree_half :
    SameOutcome (exactly .finite fun score : ℚ => 1 + score ^ 2)
      (Sampler.scores (exactly .finite fun score => 1 + score ^ 2)
        ⟨halfOfTwo.withBackend .mask, {0}, some twoOrTwoThree⟩ [1, 1, 1, 1] [7, 2] [2])
      (Sampler.scores (exactly .finite fun score => 1 + score ^ 2)
        ⟨halfOfTwo.withBackend .gather, {0}, some twoOrTwoThree⟩ [1, 1, 1, 1] [7, 2] [2]) :=
  (backends_agree twoOrTwoThree_new halfOfTwo {0} .finite (fun score => 1 + score ^ 2) [1, 1, 1, 1]
    [7, 2] [2]).1

end Sampler

end Hqsb
