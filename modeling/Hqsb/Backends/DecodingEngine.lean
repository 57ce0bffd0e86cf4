/-
Hqsb/Backends/DecodingEngine.lean

Greedy speculation for one sequence, with block verification and rollback of the
cache (`hqsb/backends/decoding_engine.py`), under the options of its plan
(`hqsb/core/decoding_plan.py`).

A cache is the list of the tokens whose keys and values it holds, and a model is
a function of the cached tokens: a forward over `n` tokens returns `n` rows of
scores.  A row enters as its argmax, the only thing a greedy plan reads of it;
`none` is a row that is not finite.

Left out: the callback `check` (a caller that stops the session), the statistics
and their clock, the sliding window check of the constructor, and the options of
the plan that only the sampler reads.
-/
import Hqsb.Contracts.Scheduling

namespace Hqsb

inductive Method
  | autoregressive | promptLookup | assistant
  deriving DecidableEq

/-- `DecodingPlan` with the bounds of its fields and the part of `compatible` about them. -/
structure DecodingPlan where
  method : Method := .autoregressive
  draftTokens : Nat := 4
  lookupMinNgram : Nat := 2
  lookupMaxNgram : Nat := 6
  lookupWindow : Nat := 4096
  draftTokens_mem : 1 ≤ draftTokens ∧ draftTokens ≤ 16 := by decide
  lookupMinNgram_mem : 1 ≤ lookupMinNgram ∧ lookupMinNgram ≤ 16 := by decide
  lookupMaxNgram_mem : 1 ≤ lookupMaxNgram ∧ lookupMaxNgram ≤ 16 := by decide
  lookupWindow_mem : 16 ≤ lookupWindow ∧ lookupWindow ≤ 8192 := by decide
  /-- `L7_LOOKUP_NGRAM_RANGE` -/
  ngram_range : lookupMinNgram ≤ lookupMaxNgram := by decide
  /-- `L7_LOOKUP_OPTIONS_REQUIRE_PROMPT_LOOKUP` -/
  lookup_options : method ≠ .promptLookup →
    lookupMinNgram = 2 ∧ lookupMaxNgram = 6 ∧ lookupWindow = 4096 := by decide
  /-- `L7_DRAFT_BUDGET_REQUIRES_SPECULATION` -/
  draft_budget : method = .autoregressive → draftTokens = 4 := by decide

inductive DecodingError
  | invalidCacheRollbackLength
  | cacheRollbackNotApplied
  | nonfiniteVerifyLogits
  | finiteSingleVocabLogitsRequired
  | indexError

def DecodingError.message : DecodingError → String
  | .invalidCacheRollbackLength => "L7_INVALID_CACHE_ROLLBACK_LENGTH"
  | .cacheRollbackNotApplied => "L7_CACHE_ROLLBACK_NOT_APPLIED"
  | .nonfiniteVerifyLogits => "L7_NONFINITE_VERIFY_LOGITS"
  | .finiteSingleVocabLogitsRequired => "L7_FINITE_SINGLE_VOCAB_LOGITS_REQUIRED"
  | .indexError => "list index out of range"

/-! ### Helpers -/

def crop (cache : List Token) (length : Int) : Except DecodingError (List Token) :=
  if 0 ≤ length ∧ length ≤ cache.length then
    let cropped := cache.take length.toNat
    if (cropped.length : Int) ≠ length then .error .cacheRollbackNotApplied else .ok cropped
  else .error .invalidCacheRollbackLength

/-- `range(first, last - 1, -1)` -/
def countdown (first last : Nat) : List Nat := (List.range' last (first + 1 - last)).reverse

/-- `lookup` under the three numbers of a plan that it reads. -/
def lookupNgrams (minNgram maxNgram window : Nat) (history : List Token) (count : Nat) :
    List Token :=
  let start := history.length - window
  let found :=
    (countdown (min maxNgram (history.length - 1)) minNgram).findSome? fun n =>
      (countdown (history.length - n - 1) start).findSome? fun pos =>
        if history.extract pos (pos + n) = history.drop (history.length - n) then
          some (history.extract (pos + n) (min (pos + n + count) history.length))
        else none
  found.getD []

/-- What followed the latest earlier occurrence of the longest possible suffix. -/
def lookup (history : List Token) (plan : DecodingPlan) (count : Nat) : List Token :=
  lookupNgrams plan.lookupMinNgram plan.lookupMaxNgram plan.lookupWindow history count

/-- How many tokens two lists have in common at their beginning; both the draft and the
verification count them. -/
def common : List Token → List Token → Nat
  | a :: as, b :: bs => if a ≠ b then 0 else common as bs + 1
  | _, _ => 0

/-! ### The draft -/

structure DraftSequence where
  model : List Token → Token
  eos : Finset Token
  cache : List Token := []
  consumed : List Token := []

namespace DraftSequence

/-- The argmax of the last row. -/
def forward (d : DraftSequence) (tokens : List Token) : Token × DraftSequence :=
  (d.model (d.cache ++ tokens), { d with cache := d.cache ++ tokens })

/-- The loop `for i in range(count)`, `token` being the argmax at its head. -/
def proposeLoop : (count : Nat) → (token : Token) → DraftSequence → List Token × DraftSequence
  | 0, _, d => ([], d)
  | left + 1, token, d =>
    if token ∈ d.eos ∨ left = 0 then ([token], d)
    else
      let (logits, d) := d.forward [token]
      let (proposed, d) := proposeLoop left logits { d with consumed := d.consumed ++ [token] }
      (token :: proposed, d)

def propose (d : DraftSequence) (history : List Token) (count : Nat) :
    Except DecodingError (List Token × DraftSequence) :=
  let keep : Int := min (common d.consumed history : Int) ((history.length : Int) - 1)
  match crop d.cache keep with
  | .error error => .error error
  | .ok cache =>
    let (logits, d) := { d with cache := cache }.forward (history.drop keep.toNat)
    .ok ({ d with consumed := history }.proposeLoop count logits)

end DraftSequence

/-! ### The decoder -/

structure Decoder where
  model : List Token → Option Token
  plan : DecodingPlan
  limit : Nat
  eos : Finset Token
  /-- `fixed_output_length` of the request -/
  fixed : Bool := false
  history : List Token
  generated : List Token := []
  cache : List Token := []
  draft : Option DraftSequence := none

namespace Decoder

def new (model : List Token → Option Token) (plan : DecodingPlan) (inputIds : List Token)
    (limit : Nat) (eos : Finset Token) (fixed : Bool) (draftModel : Option (List Token → Token)) :
    Decoder :=
  { model := model, plan := plan, limit := limit, eos := eos, fixed := fixed, history := inputIds
    draft := draftModel.map fun model => { model := model, eos := eos } }

def forward (d : Decoder) (tokens : List Token) : List (Option Token) × Decoder :=
  ((List.range tokens.length).map fun i => d.model (d.cache ++ tokens.take (i + 1)),
    { d with cache := d.cache ++ tokens })

def proposals (d : Decoder) (remaining : Nat) : Except DecodingError (List Token × Decoder) :=
  let count := min d.plan.draftTokens (remaining - 1)
  if d.plan.method = .promptLookup then .ok (lookup d.history d.plan count, d)
  else
    match d.draft with
    | none => .ok ([], d)
    | some draft =>
      if 1 < remaining then
        match draft.propose d.history count with
        | .error error => .error error
        | .ok (proposals, draft) => .ok (proposals, { d with draft := some draft })
      else .ok ([], d)

/-- The rows that verify the proposals: one for the last committed token, which the first round
has from the prompt's forward, and one for each proposal. -/
def scores (d : Decoder) (initial : Option (List (Option Token))) (proposals : List Token) :
    Except DecodingError (List (Option Token) × Decoder) :=
  match initial with
  | some rows =>
    if proposals = [] then .ok (rows, d)
    else
      let (scores, d) := d.forward proposals
      .ok (rows ++ scores, d)
  | none =>
    match d.history.getLast? with
    | none => .error .indexError
    | some last => .ok (d.forward (last :: proposals))

/-- `sampler.select(row, …)` of a greedy plan without logit processors. -/
def select : Option Token → Except DecodingError Token
  | none => .error .finiteSingleVocabLogitsRequired
  | some token => .ok token

/-- `scores.argmax(-1)`, behind the check that all rows are finite. -/
def predictions : List (Option Token) → Except DecodingError (List Token)
  | [] => .ok []
  | none :: _ => .error .nonfiniteVerifyLogits
  | some token :: rows =>
    match predictions rows with
    | .error error => .error error
    | .ok tokens => .ok (token :: tokens)

/-- The accepted proposals and the token the target chose behind them. -/
def verified (d : Decoder) (scores : List (Option Token)) (proposals : List Token) :
    Except DecodingError (List Token) :=
  if d.plan.method = .autoregressive then
    match scores.getLast? with
    | none => .error .indexError
    | some row => (select row).map fun token => [token]
  else
    match predictions scores with
    | .error error => .error error
    | .ok predictions =>
      let accepted := common proposals predictions
      match predictions[accepted]? with
      | none => .error .indexError
      | some correction => .ok (proposals.take accepted ++ [correction])

/-- The tokens up to the first one in `eos`. -/
def untilEos (eos : Finset Token) : List Token → List Token
  | [] => []
  | token :: rest => if token ∈ eos then [token] else token :: untilEos eos rest

/-- The end of a round: `emitted` is committed and the states behind it are rolled back. -/
def publish (d : Decoder) (emitted : List Token) : Except DecodingError (List Token × Decoder) :=
  let history := d.history ++ emitted
  match crop d.cache ((history.length : Int) - 1) with
  | .error error => .error error
  | .ok cache =>
    .ok (emitted, { d with history := history, generated := d.generated ++ emitted, cache := cache })

/-- The body of the loop of `rounds`. -/
def round (d : Decoder) (initial : Option (List (Option Token))) :
    Except DecodingError (List Token × Decoder) :=
  let remaining := d.limit - d.generated.length
  match d.proposals remaining with
  | .error error => .error error
  | .ok (proposals, d) =>
    match d.scores initial proposals with
    | .error error => .error error
    | .ok (scores, d) =>
      match d.verified scores proposals with
      | .error error => .error error
      | .ok emitted =>
        let emitted := emitted.take remaining
        d.publish (if d.fixed then emitted else untilEos d.eos emitted)

/-- The loop of `rounds`: what it yields, with the decoder as it is at each yield.  Every round
emits a token, so `limit` passes are enough. -/
def roundsLoop : (passes : Nat) → Option (List (Option Token)) → Decoder →
    Except DecodingError (List (List Token × Decoder))
  | 0, _, _ => .ok []
  | passes + 1, initial, d =>
    if d.limit ≤ d.generated.length then .ok []
    else
      match d.round initial with
      | .error error => .error error
      | .ok (emitted, d) =>
        match emitted.getLast? with
        | none => .error .indexError
        | some last =>
          if last ∈ d.eos ∧ d.fixed = false then .ok [(emitted, d)]
          else
            match roundsLoop passes none d with
            | .error error => .error error
            | .ok rest => .ok ((emitted, d) :: rest)

def rounds (d : Decoder) : Except DecodingError (List (List Token × Decoder)) :=
  let (scores, d) := d.forward d.history
  roundsLoop d.limit (some (scores.drop (scores.length - 1))) d

end Decoder

end Hqsb
