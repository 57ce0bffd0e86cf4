/-
Hqsb/Backends/Sampler.lean

Selection of the next token from the logits of one position
(`hqsb/backends/decoding_sampling.py`, `Sampler`), and what its filters keep, entry by entry.

The tensors are those of some `Arithmetic`: it rounds what an operation computes, and a number
that is too large becomes an infinity.  Scores are listed by vocabulary index or, with the
`gather` backend, by the place of a token in the allowed list; a token without a score has minus
infinity, `⊥`.  `draw` is what the generator draws at its n-th call.  The options of the plan are
the numbers that the tensors have for them.

`top_k` keeps a score when fewer than `top_k` scores are larger (`topK_spec`).  `top_p` ranks the
scores, larger ones and equal ones at smaller places first, and keeps one while those ranked
before it do not yet have more than the probability `top_p` together (`topP_ranked`, `topP_spec`).

Left out: the check that the logits are finite and one-dimensional, which the types say, and the
seed of the generator.
-/
import Hqsb.Backends.ChoiceTrie
import Hqsb.Lib.Compaction
import Hqsb.Lib.FloatRounding
import Hqsb.Lib.Zip

namespace Hqsb

open Lib Lib.BinaryFloat List

inductive Sampling
  | greedy | multinomial
  deriving DecidableEq

inductive ConstraintBackend
  | mask | gather

/-- The options of `DecodingPlan` that the sampler reads, with the bounds of their fields and the
part of `compatible` about them. -/
structure SamplingPlan (K : Type*) [Field K] [LinearOrder K] where
  sampling : Sampling
  temperature : K
  topK : Nat
  topP : K
  repetitionPenalty : K
  minNewTokens : Nat
  constraintBackend : ConstraintBackend
  temperature_mem : 1 / 20 ≤ temperature ∧ temperature ≤ 5
  topK_le : topK ≤ 1024
  topP_mem : 0 < topP ∧ topP ≤ 1
  repetitionPenalty_mem : 1 ≤ repetitionPenalty ∧ repetitionPenalty ≤ 2
  minNewTokens_le : minNewTokens ≤ 256
  /-- `L7_GREEDY_DOES_NOT_USE_TEMPERATURE_TOP_K_TOP_P` -/
  greedy_plain : sampling = .greedy → temperature = 1 ∧ topK = 0 ∧ topP = 1

/-- Scores that have probabilities: none is plus infinity, and one is not minus infinity. -/
def Proper {K : Type*} (scores : List (Extended K)) : Prop :=
  ⊤ ∉ scores ∧ ∃ score ∈ scores, score ≠ ⊥

instance {K : Type*} [DecidableEq K] (scores : List (Extended K)) : Decidable (Proper scores) :=
  inferInstanceAs (Decidable (_ ∧ _))

/-- What the tensors compute with: how a result is rounded, the softmax of a tensor, without a
value where it is NaN, and its running sums. -/
structure Arithmetic (K : Type*) where
  round : K → Extended K
  softmax : List (Extended K) → Option (List K)
  cumsum : List K → List K
  softmax_isSome : ∀ scores, (softmax scores).isSome ↔ Proper scores
  length_softmax : ∀ {scores probabilities}, softmax scores = some probabilities →
    probabilities.length = scores.length
  length_cumsum : ∀ values, (cumsum values).length = values.length

variable {K : Type*} [Field K] [LinearOrder K]

variable (plan : SamplingPlan K)

def SamplingPlan.withBackend (backend : ConstraintBackend) : SamplingPlan K :=
  { plan with constraintBackend := backend }

structure Sampler (K : Type*) [Field K] [LinearOrder K] where
  plan : SamplingPlan K
  eos : Finset Nat
  trie : Option ChoiceTrie := none

namespace Sampler

/-! ### Tensors of scores -/

/-- The share of a score in the sum under a softmax, before the division. -/
def softWeight (weight : K → K) : Extended K → K
  | ((score : K) : WithTop K) => weight score
  | _ => 0

def softmax (weight : K → K) (scores : List (Extended K)) : List K :=
  scores.map fun score => softWeight weight score / (scores.map (softWeight weight)).sum

def cumsum (values : List K) : List K :=
  (List.range values.length).map fun i => (values.take (i + 1)).sum

omit [LinearOrder K] in
theorem length_cumsum (values : List K) : (cumsum values).length = values.length := by
  rw [cumsum, length_map, length_range]

/-- The arithmetic that rounds the scores in some way, and computes probabilities exactly. -/
def exactly (round : K → Extended K) (weight : K → K) : Arithmetic K where
  round
  softmax scores := if Proper scores then some (softmax weight scores) else none
  cumsum
  softmax_isSome scores := by simp
  length_softmax h := by
    rw [← Option.some.inj (Option.ite_none_right_eq_some.mp h).2]
    exact length_map _
  length_cumsum := length_cumsum

variable (A : Arithmetic K)

/-- `scores.argmax()`: the first of the largest. -/
def argmax (scores : List (Extended K)) : Nat := scores.idxOf (scores.foldr max ⊥)

/-! ### The filters of `scores` -/

def penalty (old : Extended K) : Extended K :=
  old.step fun old =>
    A.round (if old < 0 then old * plan.repetitionPenalty else old / plan.repetitionPenalty)

def penalised (history : List Nat) (scores : List (Extended K)) :
    Except SamplingError (List (Extended K)) :=
  if plan.repetitionPenalty = 1 then .ok scores
  else if ∃ token ∈ history, scores.length ≤ token then .error .indexError
  else .ok (scores.mapIdx fun token old => if token ∈ history then penalty plan A old else old)

/-- No end token before `min_new_tokens`. -/
def eosMasked (eos : Finset Nat) (generated : List Nat) (scores : List (Extended K)) :
    Except SamplingError (List (Extended K)) :=
  if generated.length < plan.minNewTokens ∧ eos ≠ ∅ then
    if ∃ token ∈ eos, scores.length ≤ token then .error .indexError
    else .ok (scores.mapIdx fun token score => if token ∈ eos then ⊥ else score)
  else .ok scores

/-- Only allowed tokens; `gather` keeps the allowed entries alone and where they come from. -/
def constrained (trie : Option ChoiceTrie) (generated : List Nat)
    (scores : List (Extended K)) : Except SamplingError (List (Extended K) × Option (List Nat)) :=
  match trie with
  | none => .ok (scores, none)
  | some trie =>
    match trie.allowed generated with
    | .error error => .error error
    | .ok allowed =>
      if allowed = [] then .error .constraintHasNoValidSuccessor
      else if ∃ token ∈ allowed, scores.length ≤ token then .error .indexError
      else
        match plan.constraintBackend with
        | .gather => .ok (allowed.map fun token => scores.getD token ⊥, some allowed)
        | .mask =>
          .ok (scores.mapIdx fun token score => if token ∈ allowed then score else ⊥, none)

/-- `scores / temperature` of one score -/
def cooled (score : Extended K) : Extended K :=
  score.step fun score => A.round (score / plan.temperature)

def tempered (scores : List (Extended K)) : List (Extended K) := scores.map (cooled plan A)

/-- The scores that are not below the `top_k`-th largest. -/
def topK (scores : List (Extended K)) : Except SamplingError (List (Extended K)) :=
  if plan.topK = 0 then .ok scores
  else
    match (scores.insertionSort (· ≥ ·))[min plan.topK scores.length - 1]? with
    | none => .error .indexError
    | some cutoff => .ok (scores.map fun score => if score < cutoff then ⊥ else score)

/-- The order of `torch.sort(scores, descending=True, stable=True)` on scores and their places. -/
def Ranks (a b : Extended K × Nat) : Prop := b.1 < a.1 ∨ a.1 = b.1 ∧ a.2 ≤ b.2

instance (a b : Extended K × Nat) : Decidable (Ranks a b) := inferInstanceAs (Decidable (_ ∨ _ ∧ _))

def scatter (entries : List (Nat × Extended K)) (scores : List (Extended K)) :
    List (Extended K) :=
  entries.foldl (fun scores entry => scores.set entry.1 entry.2) scores

/-- Which of the ordered scores are removed; no comparison with NaN is true. -/
def remove (ordered : List (Extended K)) : List Bool :=
  let remove := match A.softmax ordered with
    | none => ordered.map fun _ => false
    | some probabilities => (A.cumsum probabilities).map fun sum => decide (plan.topP < sum)
  -- `remove[1:] = remove[:-1]`, `remove[0] = False`
  (false :: remove).dropLast

/-- The largest scores up to the first with which their probabilities exceed `top_p`. -/
def topP (scores : List (Extended K)) : Except SamplingError (List (Extended K)) :=
  if plan.topP < 1 then
    if scores = [] then .error .indexError
    else
      let ordered := scores.zipIdx.insertionSort Ranks
      .ok (scatter ((ordered.zip (remove plan A (ordered.map Prod.fst))).map fun entry =>
        (entry.1.2, if entry.2 then ⊥ else entry.1.1)) scores)
  else .ok scores

/-! ### The sampler -/

def filtered (scores : List (Extended K)) : Except SamplingError (List (Extended K)) :=
  match plan.sampling with
  | .greedy => .ok scores
  | .multinomial =>
    match topK plan (tempered plan A scores) with
    | .error error => .error error
    | .ok scores => topP plan A scores

variable (s : Sampler K)

def scores (logits : List K) (history generated : List Nat) :
    Except SamplingError (List (Extended K) × Option (List Nat)) :=
  match penalised s.plan A history (logits.map A.round) with
  | .error error => .error error
  | .ok scores =>
    match eosMasked s.plan s.eos generated scores with
    | .error error => .error error
    | .ok scores =>
      match constrained s.plan s.trie generated scores with
      | .error error => .error error
      | .ok (scores, mapping) =>
        match filtered s.plan A scores with
        | .error error => .error error
        | .ok scores =>
          if ∃ score ∈ scores, score ≠ ⊤ ∧ score ≠ ⊥ then .ok (scores, mapping)
          else .error .noFiniteAllowedLogits

/-- The index that is taken: the greedy one, or the next one the generator draws, which refuses
probabilities that are NaN. -/
def index (draw : Nat → List K → Nat) (generated : List Nat) (scores : List (Extended K)) :
    Except SamplingError Nat :=
  match s.plan.sampling with
  | .greedy => .ok (argmax scores)
  | .multinomial =>
    match A.softmax scores with
    | none => .error .runtimeError
    | some probabilities => .ok (draw generated.length probabilities)

def select (draw : Nat → List K → Nat) (logits : List K) (history generated : List Nat) :
    Except SamplingError Nat :=
  match s.scores A logits history generated with
  | .error error => .error error
  | .ok (scores, mapping) =>
    match s.index A draw generated scores with
    | .error error => .error error
    | .ok index =>
      match mapping with
      | none => .ok index
      | some mapping =>
        match mapping[index]? with
        | none => .error .indexError
        | some token => .ok token

/-- The rounds of an autoregressive session, until it emits an end token: the history is the
prompt and what was generated, and `logits` are the target's at that point. -/
def generate (draw : Nat → List K → Nat) (logits : List Nat → List K) (inputIds : List Nat) :
    (remaining : Nat) → (generated : List Nat) → Except SamplingError (List Nat)
  | 0, generated => .ok generated
  | remaining + 1, generated =>
    match s.select A draw (logits generated) (inputIds ++ generated) generated with
    | .error error => .error error
    | .ok token =>
      if token ∈ s.eos then .ok (generated ++ [token])
      else generate draw logits inputIds remaining (generated ++ [token])

/-! ### `argmax` -/

section Argmax

variable {K : Type*} [LinearOrder K] {scores : List (Extended K)}

theorem foldr_max_mem (h : scores ≠ []) : scores.foldr max ⊥ ∈ scores :=
  maximum_mem (foldr_max_of_ne_nil h).symm

theorem le_foldr_max {x : Extended K} (h : x ∈ scores) : x ≤ scores.foldr max ⊥ :=
  le_maximum_of_mem h (foldr_max_of_ne_nil (ne_nil_of_mem h)).symm

theorem argmax_spec (h : scores ≠ []) :
    ∃ hlt : argmax scores < scores.length, scores[argmax scores] = scores.foldr max ⊥ := by
  have hlt : argmax scores < scores.length := idxOf_lt_length_of_mem (foldr_max_mem h)
  exact ⟨hlt, getElem_idxOf hlt⟩

/-- A largest score behind smaller ones is where `argmax` points. -/
theorem argmax_eq {i : Nat} (hi : i < scores.length) (hmax : ∀ x ∈ scores, x ≤ scores[i])
    (hfirst : ∀ j (hj : j < i), scores[j] < scores[i]) :
    argmax scores = i := by
  have hne : scores ≠ [] := fun h => by simp [h] at hi
  obtain ⟨hlt, heq⟩ := argmax_spec hne
  have htop : scores[i] = scores.foldr max ⊥ :=
    le_antisymm (le_foldr_max (getElem_mem hi)) (hmax _ (foldr_max_mem hne))
  rcases Nat.lt_trichotomy (argmax scores) i with h | h | h
  · exact absurd (hfirst _ h) (by rw [heq, htop]; exact lt_irrefl _)
  · exact h
  · -- the place of the maximum is the first one
    have hnot := not_of_lt_findIdx h
    simp [htop] at hnot

omit [LinearOrder K] in
/-- Some score is not minus infinity. -/
theorem exists_mem_iff : (∃ score ∈ scores, score ≠ ⊥) ↔ ∃ i, scores.getD i ⊥ ≠ ⊥ := by
  constructor
  · rintro ⟨score, hscore, hne⟩
    obtain ⟨i, hi, rfl⟩ := mem_iff_getElem.mp hscore
    exact ⟨i, by rwa [getD_eq_getElem _ _ hi]⟩
  · rintro ⟨i, hi⟩
    rcases lt_or_ge i scores.length with hlt | hge
    · rw [getD_eq_getElem _ _ hlt] at hi
      exact ⟨_, getElem_mem hlt, hi⟩
    · exact absurd (getD_eq_default _ _ hge) hi

end Argmax

/-! ### `scatter` -/

section Scatter

variable {K : Type*}

theorem scatter_length (entries : List (Nat × Extended K)) (scores : List (Extended K)) :
    (scatter entries scores).length = scores.length := by
  induction entries generalizing scores with
  | nil => rfl
  | cons entry entries ih =>
    rw [scatter, foldl_cons, ← scatter, ih, length_set]

theorem scatter_of_not_mem {entries : List (Nat × Extended K)} {i : Nat}
    (h : i ∉ entries.map Prod.fst) (scores : List (Extended K)) :
    (scatter entries scores).getD i ⊥ = scores.getD i ⊥ := by
  induction entries generalizing scores with
  | nil => rfl
  | cons entry entries ih =>
    rw [map_cons, mem_cons, not_or] at h
    rw [scatter, foldl_cons, ← scatter, ih h.2, getD_eq_getElem?_getD,
      List.getElem?_set_ne (Ne.symm h.1), ← getD_eq_getElem?_getD]

/-- Scattering to distinct places. -/
theorem scatter_of_mem {entries : List (Nat × Extended K)} (hn : (entries.map Prod.fst).Nodup)
    {scores : List (Extended K)} {i : Nat} (hi : i < scores.length) {v : Extended K}
    (h : (i, v) ∈ entries) : (scatter entries scores).getD i ⊥ = v := by
  induction entries generalizing scores with
  | nil => cases h
  | cons entry entries ih =>
    rw [map_cons, nodup_cons] at hn
    rw [scatter, foldl_cons, ← scatter]
    rcases mem_cons.mp h with rfl | h
    · -- no later entry goes to the same place
      rw [scatter_of_not_mem hn.1, getD_eq_getElem?_getD, List.getElem?_set_self hi,
        Option.getD_some]
    · exact ih hn.2 (by simpa using hi) h

end Scatter

/-! ### The ranking of scores -/

section Ranking

variable {K : Type*} [LinearOrder K]

/-- `a` is ranked before `b`. -/
def Before (a b : Extended K × Nat) : Prop := b.1 < a.1 ∨ a.1 = b.1 ∧ a.2 < b.2

instance (a b : Extended K × Nat) : Decidable (Before a b) := inferInstanceAs (Decidable (_ ∨ _ ∧ _))

instance : Std.Total (Ranks (K := K)) where
  total a b := by
    rcases lt_trichotomy a.1 b.1 with h | h | h
    · exact .inr (.inl h)
    · rcases le_total a.2 b.2 with h' | h'
      · exact .inl (.inr ⟨h, h'⟩)
      · exact .inr (.inr ⟨h.symm, h'⟩)
    · exact .inl (.inl h)

instance : IsTrans (Extended K × Nat) Ranks where
  trans a b c := by
    rintro (hab | ⟨hab, hab'⟩) (hbc | ⟨hbc, hbc'⟩)
    · exact .inl (hbc.trans hab)
    · exact .inl (hbc ▸ hab)
    · exact .inl (hab ▸ hbc)
    · exact .inr ⟨hab.trans hbc, hab'.trans hbc'⟩

theorem before_asymm (a b : Extended K × Nat) (hab : Before a b) : ¬ Before b a := by
  rintro (hba | ⟨hba, hba'⟩)
  · rcases hab with hab | ⟨hab, -⟩
    · exact lt_asymm hab hba
    · exact hba.ne hab
  · rcases hab with hab | ⟨-, hab'⟩
    · exact hab.ne hba
    · exact Nat.lt_asymm hab' hba'

def ranking (scores : List (Extended K)) : List (Extended K × Nat) :=
  scores.zipIdx.insertionSort Ranks

theorem ranking_perm (scores : List (Extended K)) : (ranking scores).Perm scores.zipIdx :=
  perm_insertionSort _ _

theorem ranking_ordered (scores : List (Extended K)) : (ranking scores).Pairwise Before := by
  have hsorted : (ranking scores).Pairwise Ranks := pairwise_insertionSort _ _
  have hnodup : (ranking scores).Nodup := by
    rw [(ranking_perm scores).nodup_iff]
    exact List.Nodup.of_map Prod.snd (by rw [zipIdx_map_snd]; exact nodup_range')
  refine (hsorted.and hnodup).imp ?_
  rintro a b ⟨h | ⟨heq, hle⟩, hne⟩
  · exact .inl h
  · refine .inr ⟨heq, lt_of_le_of_ne hle fun h => hne (Prod.ext heq h)⟩

end Ranking

variable {K : Type*} [Field K] [LinearOrder K] {weight : K → K} {plan : SamplingPlan K}
  {A : Arithmetic K} {scores : List (Extended K)}

/-! ### `top_k` -/

def larger (scores : List (Extended K)) (i : Nat) : Nat :=
  scores.countP fun score => decide (scores.getD i ⊥ < score)

/-- **What `top_k` keeps.** -/
theorem topK_spec (plan : SamplingPlan K) (hne : scores ≠ []) :
    ∃ kept, topK plan scores = .ok kept ∧ kept.length = scores.length ∧
      ∀ i, kept.getD i ⊥ =
        if plan.topK = 0 ∨ larger scores i < plan.topK then scores.getD i ⊥ else ⊥ := by
  rw [topK]
  by_cases hk : plan.topK = 0
  · simp [hk]
  rw [if_neg hk]
  have hpos : 0 < scores.length := length_pos_iff.mpr hne
  have hlen : (scores.insertionSort (· ≥ ·)).length = scores.length :=
    (perm_insertionSort _ _).length_eq
  have hlt : min plan.topK scores.length - 1 < (scores.insertionSort (· ≥ ·)).length := by omega
  rw [List.getElem?_eq_getElem hlt]
  refine ⟨_, rfl, length_map _, fun i => ?_⟩
  rcases lt_or_ge i scores.length with hi | hi
  · -- a score is not larger than itself, so fewer than all are larger
    have hself : larger scores i < scores.length := by
      rw [larger, countP_lt_length_iff]
      refine ⟨scores[i], getElem_mem hi, ?_⟩
      rw [getD_eq_getElem _ _ hi]
      simp
    have hcut := lt_getElem_iff_of_descending
      (pairwise_insertionSort (· ≥ ·) scores) (scores.getD i ⊥) hlt
    rw [(perm_insertionSort (· ≥ ·) scores).countP_eq] at hcut
    rw [getD_eq_getElem _ _ (by simpa using hi), getElem_map,
      ← getD_eq_getElem _ ⊥ hi]
    have hiff :
        (scores.getD i ⊥ < (scores.insertionSort (· ≥ ·))[min plan.topK scores.length - 1]) ↔
        ¬ (plan.topK = 0 ∨ larger scores i < plan.topK) := by
      rw [hcut, ← larger]
      omega
    by_cases hkeep : plan.topK = 0 ∨ larger scores i < plan.topK
    · rw [if_pos hkeep, if_neg fun hcutoff => hiff.mp hcutoff hkeep]
    · rw [if_neg hkeep, if_pos (hiff.mpr hkeep)]
  · rw [getD_eq_default _ _ (by simpa using hi), getD_eq_default _ _ hi, ite_self]

/-! ### Probabilities -/

def total (weight : K → K) (scores : List (Extended K)) : K :=
  tally (fun score _ => softWeight weight score) scores

def massBefore (weight : K → K) (scores : List (Extended K)) (i : Nat) : K :=
  tally (fun score j =>
    if Before (score, j) (scores.getD i ⊥, i) then softWeight weight score else 0) scores

theorem total_eq (scores : List (Extended K)) :
    total weight scores = ((ranking scores).map fun e => softWeight weight e.1).sum :=
  (((ranking_perm scores).map _).sum_eq).symm

theorem massBefore_eq {i j : Nat} (hj : j < (ranking scores).length)
    (h : (ranking scores)[j] = (scores.getD i ⊥, i)) :
    massBefore weight scores i =
      (((ranking scores).take j).map fun e => softWeight weight e.1).sum := by
  rw [← filter_getElem_eq_take before_asymm (ranking_ordered scores) hj, h, massBefore, tally,
    ((ranking_perm scores).symm.map _).sum_eq, sum_map_ite]
  simp

theorem sum_take_softmax (j : Nat) : ((softmax weight ((ranking scores).map Prod.fst)).take j).sum =
      (((ranking scores).take j).map fun e => softWeight weight e.1).sum / total weight scores := by
  rw [softmax, map_map, map_map, ← map_take, total_eq, div_eq_mul_inv,
    ← sum_map_mul_right]
  exact congrArg List.sum (map_congr_left fun e _ => div_eq_mul_inv _ _)

omit [Field K] in
theorem proper_ranking (scores : List (Extended K)) :
    Proper ((ranking scores).map Prod.fst) ↔ Proper scores := by
  have hmem (score : Extended K) : score ∈ (ranking scores).map Prod.fst ↔ score ∈ scores := by
    rw [((ranking_perm scores).map Prod.fst).mem_iff, zipIdx_map_fst]
  rw [Proper, Proper, hmem]
  simp only [hmem]

/-! ### `top_p` -/

variable (plan A) in
theorem length_remove (ordered : List (Extended K)) :
    (remove plan A ordered).length = ordered.length := by
  rw [remove]
  rcases hsoftmax : A.softmax ordered with - | probabilities
  · simp
  · simp [A.length_cumsum, A.length_softmax hsoftmax]

/-- `remove` after its shift. -/
theorem shifted_getElem? (probabilities : List K) {p : K} (hp : 0 < p) {j : Nat}
    (hj : j < probabilities.length) :
    ((false :: (cumsum probabilities).map fun sum => decide (p < sum)).dropLast)[j]? =
      some (decide (p < (probabilities.take j).sum)) := by
  have hlen := length_cumsum probabilities
  rw [List.getElem?_dropLast, if_pos (by simp [hlen, hj])]
  rcases j with - | j
  · show some false = some (decide (p < 0))
    rw [decide_eq_false (not_lt.mpr hp.le)]
  · rw [List.getElem?_cons_succ, cumsum, map_map, List.getElem?_map,
      List.getElem?_range (by omega)]
    rfl

variable (plan A) in
/-- **What `top_p` removes**, by the place of a score in the ranking. -/
theorem topP_ranked (hne : scores ≠ []) (hone : plan.topP < 1) :
    ∃ kept, topP plan A scores = .ok kept ∧ kept.length = scores.length ∧
      ∀ i j (hj : j < (ranking scores).length), (ranking scores)[j] = (scores.getD i ⊥, i) →
        kept.getD i ⊥ =
          if (remove plan A ((ranking scores).map Prod.fst)).getD j false then ⊥
          else scores.getD i ⊥ := by
  rw [topP, if_pos hone, if_neg hne]
  refine ⟨_, rfl, scatter_length _ _, fun i j hj hget => ?_⟩
  have hi : i < scores.length := by
    have hmem : (scores.getD i ⊥, i) ∈ scores.zipIdx :=
      (ranking_perm scores).mem_iff.mp (hget ▸ getElem_mem hj)
    obtain ⟨hi, -⟩ := List.getElem?_eq_some_iff.mp (mem_zipIdx_iff_getElem?.mp hmem)
    exact hi
  have hlen : j < (remove plan A ((ranking scores).map Prod.fst)).length := by
    rw [length_remove, length_map]
    exact hj
  rw [getD_eq_getElem _ _ hlen]
  refine scatter_of_mem ?_ hi (mem_map.mpr ⟨((scores.getD i ⊥, i), _), ?_, rfl⟩)
  · rw [map_map]
    show (List.map (Prod.snd ∘ Prod.fst) _).Nodup
    rw [← map_map]
    refine List.Nodup.sublist ((map_fst_zip_sublist _ _).map Prod.snd) ?_
    show ((ranking scores).map Prod.snd).Nodup
    rw [((ranking_perm scores).map Prod.snd).nodup_iff, zipIdx_map_snd]
    exact nodup_range'
  · rw [mem_iff_getElem?]
    refine ⟨j, List.getElem?_zip_eq_some.mpr ⟨?_, List.getElem?_eq_getElem hlen⟩⟩
    rw [← hget]
    exact List.getElem?_eq_getElem hj

omit [Field K] in
theorem exists_rank {i : Nat} (hi : i < scores.length) :
    ∃ j, ∃ hj : j < (ranking scores).length, (ranking scores)[j] = (scores.getD i ⊥, i) := by
  have hmem : (scores.getD i ⊥, i) ∈ ranking scores := by
    rw [(ranking_perm scores).mem_iff, mem_zipIdx_iff_getElem?, getD_eq_getElem _ _ hi]
    exact List.getElem?_eq_getElem hi
  exact mem_iff_getElem.mp hmem

/-- What is removed under exact probabilities. -/
theorem remove_exactly (round : K → Extended K) (weight : K → K) (plan : SamplingPlan K) {i j : Nat}
    (hj : j < (ranking scores).length) (hget : (ranking scores)[j] = (scores.getD i ⊥, i)) :
    (remove plan (exactly round weight) ((ranking scores).map Prod.fst)).getD j false =
      decide (Proper scores ∧ plan.topP < massBefore weight scores i / total weight scores) := by
  by_cases hproper : Proper scores
  · have hsome : (exactly round weight).softmax ((ranking scores).map Prod.fst) =
        some (softmax weight ((ranking scores).map Prod.fst)) :=
      if_pos ((proper_ranking scores).mpr hproper)
    have hflag := shifted_getElem? (softmax weight ((ranking scores).map Prod.fst))
      plan.topP_mem.1 (j := j) (by simpa [softmax] using hj)
    rw [sum_take_softmax, ← massBefore_eq hj hget] at hflag
    rw [remove, hsome, getD_eq_getElem?_getD]
    simp only [hproper, true_and]
    exact congrArg (Option.getD · false) hflag
  · have hnone : (exactly round weight).softmax ((ranking scores).map Prod.fst) = none :=
      if_neg fun h => hproper ((proper_ranking scores).mp h)
    rw [remove, hnone, decide_eq_false fun h => hproper h.1]
    simp only [map_const', ← replicate_succ, dropLast_replicate]
    rw [getD_eq_getElem?_getD, List.getElem?_replicate]
    split_ifs <;> rfl

/-- **What `top_p` keeps** under exact probabilities. -/
theorem topP_spec (round : K → Extended K) (weight : K → K) (plan : SamplingPlan K)
    (hne : scores ≠ []) :
    ∃ kept, topP plan (exactly round weight) scores = .ok kept ∧ kept.length = scores.length ∧
      ∀ i, kept.getD i ⊥ =
        if plan.topP < 1 ∧ Proper scores ∧
          plan.topP < massBefore weight scores i / total weight scores
        then ⊥ else scores.getD i ⊥ := by
  by_cases hone : plan.topP < 1
  · obtain ⟨kept, hkept, hlen, hget⟩ := topP_ranked plan (exactly round weight) hne hone
    refine ⟨kept, hkept, hlen, fun i => ?_⟩
    rcases lt_or_ge i scores.length with hi | hi
    · obtain ⟨j, hj, hrank⟩ := exists_rank hi
      rw [hget i j hj hrank, remove_exactly round weight plan hj hrank]
      simp only [hone, true_and, decide_eq_true_eq]
    · rw [getD_eq_default _ _ hi, ite_self, getD_eq_default]
      rwa [hlen]
  · refine ⟨scores, if_neg hone, rfl, fun i => (if_neg fun h => hone h.1).symm⟩

/-! ### The stages of `scores` -/

variable (A) (s : Sampler K) (logits : List K) (history generated : List Nat)

/-- What happens before the constraint. -/
def prepared : Except SamplingError (List (Extended K)) :=
  match penalised s.plan A history (logits.map A.round) with
  | .error error => .error error
  | .ok scores => eosMasked s.plan s.eos generated scores

/-- What happens behind it. -/
def finished (plan : SamplingPlan K) :
    Except SamplingError (List (Extended K) × Option (List Nat)) →
      Except SamplingError (List (Extended K) × Option (List Nat))
  | .error error => .error error
  | .ok (scores, mapping) =>
    match filtered plan A scores with
    | .error error => .error error
    | .ok scores =>
      if ∃ score ∈ scores, score ≠ ⊤ ∧ score ≠ ⊥ then .ok (scores, mapping)
      else .error .noFiniteAllowedLogits

theorem scores_eq :
    s.scores A logits history generated =
      match s.prepared A logits history generated with
      | .error error => .error error
      | .ok scores => finished A s.plan (constrained s.plan s.trie generated scores) := by
  rw [Sampler.scores, prepared]
  rcases penalised s.plan A history (logits.map A.round) with error | logits
  · rfl
  rcases eosMasked s.plan s.eos generated logits with error | scores
  · rfl
  rcases constrained s.plan s.trie generated scores with error | ⟨scores, mapping⟩
  · rfl
  · rfl

end Sampler

end Hqsb
