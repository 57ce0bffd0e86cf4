/-
Hqsb/Runtime/SpeculativeSampling.lean

The acceptance mathematics of speculative decoding, over exact rationals.

A draft proposes a token `x` with mass `q[x]`.  The token is accepted with
`acceptanceProbability p[x] q[x]`, and a rejection draws from `residualDistribution p q`.
`emittedLaw` is the law of the token that comes out; with the excess of the target over the
draft as `Lib.AcceptReject` has it,

    q[x] * acceptanceProbability p[x] q[x] = min p[x] q[x],
    rejected mass                          = the total excess,

and the residual is the excess divided by its total, so the law is `p`.  For `p = q` no mass
is rejected, there is no residual, and `residualDistribution` refuses the pair;
`verifyAcceptance`, which always computes the residual, refuses it with it.

Greedy decoding is compared token for token (`verifyGreedyExactness`), up to the shortest of the
two outputs and the budget.  Only a speculative output that is too short is called truncated.
-/
import Hqsb.Lib.AcceptReject
import Hqsb.Lib.Traverse

namespace Hqsb

open Lib Lib.AcceptReject List

/-- What the acceptance mathematics raises: a `ConfigError` with the field it names, or the
`IndexError` of a draft shorter than the target. -/
inductive SpecError
  | config (message : String) (field : Option String)
  | indexError
  deriving DecidableEq

/-- `min(1, p/q)`. -/
def acceptanceProbability (targetP draftQ : ℚ) : Except SpecError ℚ :=
  if draftQ = 0 then
    .error (.config "acceptance probability is undefined when the draft probability is 0"
      (some "draft_q"))
  else if ¬ (0 ≤ targetP ∧ targetP ≤ 1) ∨ ¬ (0 ≤ draftQ ∧ draftQ ≤ 1) then
    .error (.config "probabilities must be in [0, 1]" none)
  else
    .ok (min 1 (targetP / draftQ))

/-- The refusal of a pair without excess. -/
def degenerateResidual : SpecError :=
  .config ("the residual distribution is degenerate (p <= q everywhere); the " ++
    "algorithm is not applicable to this pair") (some "distribution")

/-- `normalize(max(0, p - q))`, the distribution a rejection samples from. -/
def residualDistribution (targetP draftQ : List ℚ) : Except SpecError (List ℚ) :=
  if targetP.length ≠ draftQ.length then
    .error (.config "target and draft distributions must share the vocabulary size"
      (some "distribution"))
  else if targetP = [] then
    .error (.config "an empty distribution cannot be normalised" none)
  else
    let raw := (targetP.zip draftQ).map fun e => max 0 (e.1 - e.2)
    let total := raw.sum
    if total = 0 then .error degenerateResidual
    else .ok (raw.map fun value => value / total)

def residualIsNormalized (residual : List ℚ) : Bool :=
  !residual.isEmpty && residual.sum = 1

/-- The report of `verifyAcceptance`; numbers stand for their texts. -/
structure AcceptanceReport where
  proposedToken : Int
  acceptanceProbability : ℚ
  accepted : Bool
  residualNormalized : Bool
  residual : List ℚ
  deriving DecidableEq

/-- Apply the strict acceptance rule to one proposed token. -/
def verifyAcceptance (targetP draftQ : List ℚ) (proposedToken : Int) (uniformDraw : ℚ) :
    Except SpecError AcceptanceReport :=
  if ¬ (0 ≤ proposedToken ∧ proposedToken < targetP.length) then
    .error (.config "proposed token is outside the vocabulary" none)
  else if ¬ (0 ≤ uniformDraw ∧ uniformDraw ≤ 1) then
    .error (.config "the uniform draw must be in [0, 1]" none)
  else
    match targetP[proposedToken.toNat]?, draftQ[proposedToken.toNat]? with
    | some p, some q => do
      let probability ← acceptanceProbability p q
      let residual ← residualDistribution targetP draftQ
      .ok {
        proposedToken
        acceptanceProbability := probability
        accepted := uniformDraw ≤ probability
        residualNormalized := residualIsNormalized residual
        residual }
    | _, _ => .error .indexError

/-! ### The law of the emitted token -/

/-- A distribution over a vocabulary of `size` tokens. -/
structure ProbabilityVector (size : Nat) where
  masses : List ℚ
  length_eq : masses.length = size
  nonneg : ∀ mass ∈ masses, 0 ≤ mass
  sum_eq_one : masses.sum = 1

/-- What becomes of the mass on which a token is proposed. -/
structure ProposedMass where
  accepted : ℚ
  rejected : ℚ

/-- A token the draft never proposes is never asked for its acceptance probability. -/
def proposedMass (targetP draftQ : ℚ) : Except SpecError ProposedMass :=
  if draftQ = 0 then .ok ⟨0, 0⟩
  else do
    let probability ← acceptanceProbability targetP draftQ
    .ok ⟨draftQ * probability, draftQ * (1 - probability)⟩

/-- **The law of the emitted token**: proposed by the draft and accepted, or else drawn from
the residual; without rejections the residual is not asked for. -/
def emittedLaw (targetP draftQ : List ℚ) : Except SpecError (List ℚ) := do
  let proposed ← (targetP.zip draftQ).mapM fun e => proposedMass e.1 e.2
  let rejected := (proposed.map ProposedMass.rejected).sum
  if rejected = 0 then .ok (proposed.map ProposedMass.accepted)
  else
    let residual ← residualDistribution targetP draftQ
    .ok (List.zipWith (fun mass value => mass.accepted + rejected * value) proposed residual)

namespace ProbabilityVector

variable {size : Nat} (p q : ProbabilityVector size)

theorem le_one {mass : ℚ} (h : mass ∈ p.masses) : mass ≤ 1 := by
  rw [← p.sum_eq_one]
  exact single_le_sum p.nonneg mass h

theorem ne_nil : p.masses ≠ [] := by
  intro h
  have hsum := p.sum_eq_one
  rw [h] at hsum
  exact zero_ne_one hsum

def tokens : List (ℚ × ℚ) := p.masses.zip q.masses

theorem map_fst_tokens : (p.tokens q).map Prod.fst = p.masses :=
  map_fst_zip (p.length_eq.trans q.length_eq.symm).le

theorem map_snd_tokens : (p.tokens q).map Prod.snd = q.masses :=
  map_snd_zip (q.length_eq.trans p.length_eq.symm).le

theorem total_eq : ((p.tokens q).map Prod.fst).sum = ((p.tokens q).map Prod.snd).sum := by
  rw [map_fst_tokens, map_snd_tokens, p.sum_eq_one, q.sum_eq_one]

/-- The mass the target has past the draft. -/
def lacking : ℚ := ((p.tokens q).map fun e => excess e.1 e.2).sum

theorem lacking_eq_zero_iff : p.lacking q = 0 ↔ p.masses = q.masses := by
  rw [lacking, sum_excess_eq_zero_iff (p.total_eq q)]
  constructor
  · intro h
    rw [← p.map_fst_tokens q, ← p.map_snd_tokens q]
    exact map_congr_left h
  · intro h e he
    rw [tokens, h, zip_eq_zipWith, zipWith_self] at he
    obtain ⟨mass, -, rfl⟩ := mem_map.mp he
    rfl

end ProbabilityVector

theorem acceptanceProbability_eq {p q : ℚ} (hp : 0 ≤ p ∧ p ≤ 1) (hq : 0 < q ∧ q ≤ 1) :
    acceptanceProbability p q = .ok (min 1 (p / q)) := by
  rw [acceptanceProbability, if_neg hq.1.ne', if_neg]
  rintro (h | h)
  · exact h hp
  · exact h ⟨hq.1.le, hq.2⟩

/-- A proposal is kept up to the target; what it has past the target is rejected. -/
theorem proposedMass_eq {p q : ℚ} (hp : 0 ≤ p ∧ p ≤ 1) (hq : 0 ≤ q ∧ q ≤ 1) :
    proposedMass p q = .ok ⟨min p q, excess q p⟩ := by
  rw [proposedMass]
  rcases hq.1.eq_or_lt with rfl | hpos
  · rw [if_pos rfl, min_eq_right hp.1, excess_eq_zero_iff.mpr hp.1]
  · rw [if_neg hpos.ne', acceptanceProbability_eq hp ⟨hpos, hq.2⟩]
    have hkept : q * min 1 (p / q) = min p q := mul_min_one_div hpos
    have hexcess : q - min p q = excess q p := by
      rw [min_comm]
      exact sub_eq_of_eq_add' (min_add_excess q p).symm
    show Except.ok (ProposedMass.mk (q * min 1 (p / q)) (q * (1 - min 1 (p / q)))) = _
    rw [mul_sub, mul_one, hkept, hexcess]

section Pair

variable {size : Nat} (p q : ProbabilityVector size)

theorem mapM_proposedMass : (p.masses.zip q.masses).mapM (fun e => proposedMass e.1 e.2) =
      .ok ((p.tokens q).map fun e => ⟨min e.1 e.2, excess e.2 e.1⟩) := by
  rw [mapM_eq_ok_iff, forall₂_map_right_iff]
  refine forall₂_same.mpr fun e he => ?_
  have hmem := of_mem_zip he
  exact proposedMass_eq ⟨p.nonneg _ hmem.1, p.le_one hmem.1⟩ ⟨q.nonneg _ hmem.2, q.le_one hmem.2⟩

/-- The residual is the excess divided by its total, and there is none without excess. -/
theorem residualDistribution_eq : residualDistribution p.masses q.masses =
      if p.lacking q = 0 then .error degenerateResidual
      else .ok ((p.tokens q).map fun e => excess e.1 e.2 / p.lacking q) := by
  have hlength : ¬ p.masses.length ≠ q.masses.length :=
    not_not.mpr (p.length_eq.trans q.length_eq.symm)
  rw [residualDistribution, if_neg hlength, if_neg p.ne_nil]
  show (if p.lacking q = 0 then _ else Except.ok (((p.tokens q).map _).map _)) = _
  rw [map_map]
  rfl

theorem residual_normalized (hlacking : p.lacking q ≠ 0) :
    residualIsNormalized ((p.tokens q).map fun e => excess e.1 e.2 / p.lacking q) = true := by
  rw [residualIsNormalized, Bool.and_eq_true, Bool.not_eq_true', decide_eq_true_iff]
  constructor
  · rw [isEmpty_eq_false_iff, ← length_pos_iff, length_map,
      ← length_map Prod.fst, p.map_fst_tokens, length_pos_iff]
    exact p.ne_nil
  · rw [← div_self hlacking]
    simp only [div_eq_mul_inv, sum_map_mul_right]
    rfl

theorem sum_rejected :
    (((p.tokens q).map fun e => ProposedMass.mk (min e.1 e.2) (excess e.2 e.1)).map
      ProposedMass.rejected).sum = p.lacking q := by
  rw [map_map]
  exact (sum_excess_comm (p.total_eq q)).symm

theorem emittedLaw_eq : emittedLaw p.masses q.masses = .ok p.masses := by
  rw [emittedLaw, mapM_proposedMass]
  show (if (List.map _ _).sum = 0 then _ else _) = _
  rw [sum_rejected, residualDistribution_eq]
  split_ifs with hlacking
  · -- nothing is rejected: the draft is the target
    have hle := (sum_excess_eq_zero_iff (p.total_eq q)).mp hlacking
    rw [map_map, ← p.map_fst_tokens q]
    refine congrArg _ (map_congr_left fun e he => ?_)
    exact min_eq_left (hle e he).le
  · rw [← p.map_fst_tokens q]
    refine congrArg Except.ok ?_
    rw [zipWith_map, zipWith_self]
    refine map_congr_left fun e _ => ?_
    show min e.1 e.2 + p.lacking q * (excess e.1 e.2 / p.lacking q) = e.1
    rw [mul_div_cancel₀ _ hlacking, min_add_excess]

/-- The rule on a token the draft can propose; only the residual can refuse it. -/
theorem verifyAcceptance_eq {token : Nat} {target draft uniformDraw : ℚ}
    (htarget : p.masses[token]? = some target) (hdraft : q.masses[token]? = some draft)
    (hpos : 0 < draft) (hdraw : 0 ≤ uniformDraw ∧ uniformDraw ≤ 1) :
    verifyAcceptance p.masses q.masses token uniformDraw =
      (residualDistribution p.masses q.masses).map fun residual =>
        { proposedToken := token
          acceptanceProbability := min 1 (target / draft)
          accepted := uniformDraw ≤ min 1 (target / draft)
          residualNormalized := residualIsNormalized residual
          residual } := by
  have hinside : token < p.masses.length := (List.getElem?_eq_some_iff.mp htarget).1
  have hp := mem_of_getElem? htarget
  have hq := mem_of_getElem? hdraft
  have htoken : ¬ ¬ (0 ≤ (token : Int) ∧ (token : Int) < p.masses.length) :=
    not_not.mpr ⟨Int.natCast_nonneg _, Int.ofNat_lt.mpr hinside⟩
  rw [verifyAcceptance, if_neg htoken, if_neg (not_not.mpr hdraw), Int.toNat_natCast, htarget,
    hdraft]
  show (acceptanceProbability target draft).bind _ = _
  rw [acceptanceProbability_eq ⟨p.nonneg _ hp, p.le_one hp⟩ ⟨hpos, q.le_one hq⟩]
  rcases residualDistribution p.masses q.masses with error | residual
  · rfl
  · rfl

end Pair

/-- **The emitted token has the law of the target.**  Any token the draft can propose is
judged, against a normalised residual, unless the draft is the target: then there is no
residual, and the pair is refused. -/
theorem speculation_emits_target {size : Nat} (p q : ProbabilityVector size) :
    emittedLaw p.masses q.masses = .ok p.masses ∧
      ∀ (token : Nat) (target draft uniformDraw : ℚ),
        p.masses[token]? = some target → q.masses[token]? = some draft → 0 < draft →
        0 ≤ uniformDraw → uniformDraw ≤ 1 →
          (p.masses ≠ q.masses →
            ∃ probability residual, acceptanceProbability target draft = .ok probability ∧
              residualDistribution p.masses q.masses = .ok residual ∧
              verifyAcceptance p.masses q.masses token uniformDraw =
                .ok ⟨token, probability, uniformDraw ≤ probability, true, residual⟩) ∧
          (p.masses = q.masses →
            verifyAcceptance p.masses q.masses token uniformDraw =
              .error degenerateResidual) := by
  refine ⟨emittedLaw_eq p q, ?_⟩
  intro token target draft uniformDraw htarget hdraft hpos hdraw hdraw'
  have hp := mem_of_getElem? htarget
  have hq := mem_of_getElem? hdraft
  rw [verifyAcceptance_eq p q htarget hdraft hpos ⟨hdraw, hdraw'⟩, residualDistribution_eq]
  constructor
  · intro hne
    have hlacking : p.lacking q ≠ 0 := mt (p.lacking_eq_zero_iff q).mp hne
    rw [if_neg hlacking]
    refine ⟨_, _, acceptanceProbability_eq ⟨p.nonneg _ hp, p.le_one hp⟩ ⟨hpos, q.le_one hq⟩,
      rfl, ?_⟩
    rw [← residual_normalized p q hlacking]
    rfl
  · intro heq
    rw [if_pos ((p.lacking_eq_zero_iff q).mpr heq)]
    rfl

def fairCoin : ProbabilityVector 2 where
  masses := [1 / 2, 1 / 2]
  length_eq := rfl
  nonneg := by decide +kernel
  sum_eq_one := by decide +kernel

def stuckCoin : ProbabilityVector 2 where
  masses := [1, 0]
  length_eq := rfl
  nonneg := by decide
  sum_eq_one := by decide +kernel

theorem speculation_emits_target_coins :
    ∃ probability residual, acceptanceProbability (1 / 2) 1 = .ok probability ∧
      residualDistribution fairCoin.masses stuckCoin.masses = .ok residual ∧
      verifyAcceptance fairCoin.masses stuckCoin.masses 0 1 =
        .ok ⟨0, probability, 1 ≤ probability, true, residual⟩ :=
  ((speculation_emits_target fairCoin stuckCoin).2 0 (1 / 2) 1 1 rfl rfl (by decide)
    (by decide +kernel) (by decide +kernel)).1 (by decide +kernel)

/-- A draft that equals the target is refused where every proposal would be accepted. -/
theorem equal_pair_refused :
    ¬ ∀ (p q : ProbabilityVector 2) (token : Nat) (draft uniformDraw : ℚ),
      q.masses[token]? = some draft → 0 < draft → 0 ≤ uniformDraw → uniformDraw ≤ 1 →
        ∃ report, verifyAcceptance p.masses q.masses token uniformDraw = .ok report := by
  intro h
  obtain ⟨report, hreport⟩ := h fairCoin fairCoin 0 (1 / 2) 0 rfl (by decide +kernel)
    (by decide) (by decide)
  have hrefused : verifyAcceptance fairCoin.masses fairCoin.masses 0 0 =
      .error degenerateResidual := by decide +kernel
  rw [Nat.cast_zero, hrefused] at hreport
  cases hreport

/-! ### Greedy exactness -/

/-- The report of `verify_greedy_exactness`; no mismatch is the index -1. -/
structure GreedyReport where
  ok : Bool
  firstMismatchIndex : Int
  comparedTokens : Int
  vanillaLength : Nat
  speculativeLength : Nat
  truncated : Bool

/-- The loop over the compared tokens, up to its `break`. -/
def firstMismatch (vanilla speculative : List Int) (limit : Nat) : Option Nat :=
  (List.range limit).find? fun index => vanilla[index]? ≠ speculative[index]?

def verifyGreedyExactness (vanilla speculative : List Int) (maxNewTokens : Int) : GreedyReport :=
  let limit := min (min (vanilla.length : Int) speculative.length) maxNewTokens
  let mismatch := firstMismatch vanilla speculative limit.toNat
  let truncated := decide (speculative.length < min (vanilla.length : Int) maxNewTokens)
  { ok := mismatch.isNone && !truncated
    firstMismatchIndex := mismatch.elim (-1) fun index => index
    comparedTokens := limit
    vanillaLength := vanilla.length
    speculativeLength := speculative.length
    truncated := truncated }

/-- No mismatch means that the compared tokens agree. -/
theorem firstMismatch_isNone {vanilla speculative : List Int} {limit : Nat} :
    (firstMismatch vanilla speculative limit).isNone ↔
      vanilla.take limit = speculative.take limit := by
  rw [Option.isNone_iff_eq_none, firstMismatch, List.find?_eq_none]
  constructor
  · intro h
    apply ext_getElem?
    intro i
    by_cases hi : i < limit
    · have := h i (mem_range.mpr hi)
      rw [List.getElem?_take_of_lt hi, List.getElem?_take_of_lt hi]
      simpa using this
    · rw [List.getElem?_take_eq_none (by omega), List.getElem?_take_eq_none (by omega)]
  · intro h i hi
    have hi := mem_range.mp hi
    have := congrArg (fun l => l[i]?) h
    rw [List.getElem?_take_of_lt hi, List.getElem?_take_of_lt hi] at this
    simpa using this

/-- **What is accepted**: the vanilla output, cut to the budget, begins the speculative one. -/
theorem verifyGreedyExactness_ok (vanilla speculative : List Int) (maxNewTokens : Nat) :
    (verifyGreedyExactness vanilla speculative maxNewTokens).ok ↔
      vanilla.take maxNewTokens <+: speculative := by
  have hlimit : (min (min (vanilla.length : Int) speculative.length) maxNewTokens).toNat =
      min (min vanilla.length speculative.length) maxNewTokens := by omega
  simp only [verifyGreedyExactness, hlimit, Bool.and_eq_true, firstMismatch_isNone,
    Bool.not_eq_true', decide_eq_false_iff_not]
  have hcut : ∀ l : List Int, l.take (min l.length maxNewTokens) = l.take maxNewTokens := by
    intro l
    rw [take_eq_take_iff]
    omega
  constructor
  · rintro ⟨hagree, hlong⟩
    have hshort : min (min vanilla.length speculative.length) maxNewTokens =
        min vanilla.length maxNewTokens := by omega
    rw [hshort, hcut] at hagree
    rw [hagree]
    exact take_prefix _ _
  · intro h
    have hlength := h.length_le
    rw [length_take] at hlength
    have hshort : min (min vanilla.length speculative.length) maxNewTokens =
        min vanilla.length maxNewTokens := by omega
    have hagree := prefix_iff_eq_take.mp h
    rw [length_take, Nat.min_comm] at hagree
    rw [hshort, hcut]
    exact ⟨hagree, by omega⟩

/-- **When the verdict is exact**: unless the speculative output goes on, within the budget,
behind the end of a vanilla output that it begins with. -/
theorem greedy_verdict_exact_iff (vanilla speculative : List Int) (maxNewTokens : Nat) :
    ((verifyGreedyExactness vanilla speculative maxNewTokens).ok ↔
        speculative.take maxNewTokens = vanilla.take maxNewTokens) ↔
      ¬ (vanilla <+: speculative ∧ vanilla.length < min maxNewTokens speculative.length) := by
  rw [verifyGreedyExactness_ok]
  constructor
  · rintro hexact ⟨hbegins, hlength⟩
    have hwhole : vanilla.take maxNewTokens = vanilla := take_of_length_le (by omega)
    have hequal := hexact.mp (hwhole.symm ▸ hbegins)
    have := congrArg List.length hequal
    rw [length_take, length_take] at this
    omega
  · intro hnot
    constructor
    · intro hbegins
      have hagree := prefix_iff_eq_take.mp hbegins
      rw [hagree, length_take]
      by_cases hbudget : maxNewTokens ≤ vanilla.length
      · rw [min_eq_left hbudget]
      · have hwhole : vanilla.take maxNewTokens = vanilla := take_of_length_le (by omega)
        rw [hwhole] at hbegins
        have hends : ¬ vanilla.length < min maxNewTokens speculative.length :=
          fun h => hnot ⟨hbegins, h⟩
        rw [take_of_length_le (by omega), take_of_length_le (by omega)]
    · intro h
      rw [← h]
      exact take_prefix _ _

/-- The speculative output goes on where the vanilla decode stopped. -/
theorem overrun_accepted : ¬ ((verifyGreedyExactness [1, 2] [1, 2, 3] 5).ok ↔
        [1, 2, 3].take 5 = ([1, 2] : List Int).take 5) := by
  decide

end Hqsb
