/-
Hqsb/Backends/Speculation.lean

Speculative decoding is exact.

Whatever is proposed, what a round emits is a burst of the target: the accepted
proposals agree with the target's choices, and behind them comes the target's own
token.  Cutting a burst at the budget or at the first end token leaves a burst,
so the rounds together are the greedy continuation of the prompt, for every
method.

Between rounds the cache holds the history without its last token (`Coherent`).
A round verifies on `history ++ proposals` and publishes at least one token and
at most one more than was proposed, so the length it rolls back to never exceeds
what the cache holds, and what is kept are committed tokens.
-/
import Hqsb.Lib.Greedy
import Hqsb.Backends.DecodingEngine

namespace Hqsb

open Lib List

/-! ### Helpers -/

theorem crop_ok {cache : List Token} {length : Nat} (h : length ≤ cache.length) :
    crop cache length = .ok (cache.take length) := by
  rw [crop, if_pos ⟨Int.natCast_nonneg _, Int.ofNat_le.mpr h⟩]
  simp only [Int.toNat_natCast, length_take, min_eq_left h, ne_eq, not_true_eq_false,
    if_false]

theorem common_le_left (as bs : List Token) : common as bs ≤ as.length := by
  induction as generalizing bs with
  | nil => exact Nat.zero_le _
  | cons a as ih =>
    rcases bs with - | ⟨b, bs⟩
    · exact Nat.zero_le _
    · rw [common]
      split_ifs
      · exact Nat.zero_le _
      · exact Nat.succ_le_succ (ih bs)

theorem take_common (as bs : List Token) : as.take (common as bs) = bs.take (common as bs) := by
  induction as generalizing bs with
  | nil => simp [common]
  | cons a as ih =>
    rcases bs with - | ⟨b, bs⟩
    · simp [common]
    · rw [common]
      split_ifs with hab
      · rfl
      · rw [not_not.mp hab, take_succ_cons, take_succ_cons, ih bs]

/-! ### The draft -/

namespace DraftSequence

def Coherent (d : DraftSequence) : Prop := d.cache = d.consumed

def stop (d : DraftSequence) (token : Token) : Bool := token ∈ d.eos

theorem proposeLoop_ok {d : DraftSequence} (hc : d.Coherent) (count : Nat) :
    ∃ d', d.proposeLoop count (d.model d.cache) = (greedy d.model d.stop count d.cache, d') ∧
      d'.Coherent := by
  induction count generalizing d with
  | zero => exact ⟨d, rfl, hc⟩
  | succ left ih =>
    rw [proposeLoop, greedy_succ]
    by_cases hend : d.model d.cache ∈ d.eos ∨ left = 0
    · -- the loop breaks where the continuation ends
      refine ⟨d, ?_, hc⟩
      rw [if_pos hend]
      rcases hend with heos | rfl
      · rw [if_pos (show d.stop _ = true from decide_eq_true heos)]
      · rw [greedy_zero, ite_self]
    · obtain ⟨heos, -⟩ := not_or.mp hend
      rw [if_neg hend, if_neg (show ¬ d.stop _ = true by simpa [stop] using heos)]
      have hc' : Coherent { d with
          cache := d.cache ++ [d.model d.cache], consumed := d.consumed ++ [d.model d.cache] } := by
        show d.cache ++ _ = d.consumed ++ _
        rw [show d.cache = d.consumed from hc]
      obtain ⟨d', heq, hcoherent⟩ := ih hc'
      refine ⟨d', ?_, hcoherent⟩
      simp only [forward]
      rw [heq]
      rfl

/-- **`propose` never raises** and returns the draft's own continuation of the history. -/
theorem propose_ok {d : DraftSequence} (hc : d.Coherent) {history : List Token}
    (hne : history ≠ []) (count : Nat) :
    ∃ d', d.propose history count = .ok (greedy d.model d.stop count history, d') ∧
      d'.Coherent := by
  have hpos : 0 < history.length := length_pos_iff.mpr hne
  -- what both have in common, less the token whose scores are needed
  obtain ⟨keep, hkeep⟩ : ∃ keep, keep = min (common d.consumed history) (history.length - 1) :=
    ⟨_, rfl⟩
  have hcast : min (common d.consumed history : Int) ((history.length : Int) - 1) = keep := by
    omega
  have hcommon : d.consumed.take keep = history.take keep := by
    have key := congrArg (List.take keep) (take_common d.consumed history)
    rwa [take_take, take_take, min_eq_left (by omega)] at key
  have hle : keep ≤ d.cache.length := by
    have := common_le_left d.consumed history
    rw [show d.cache = d.consumed from hc]
    omega
  have hcache : d.cache.take keep ++ history.drop keep = history := by
    rw [show d.cache = d.consumed from hc, hcommon, take_append_drop]
  have hc' : Coherent { d with cache := history, consumed := history } := rfl
  obtain ⟨d', heq, hcoherent⟩ := proposeLoop_ok hc' count
  refine ⟨d', ?_, hcoherent⟩
  simp only [propose, hcast, crop_ok hle, forward, Int.toNat_natCast, hcache]
  exact congrArg Except.ok heq

end DraftSequence

namespace Decoder

/-! ### The rows of a round -/

/-- The target's choices behind the history and behind each proposal. -/
def choices (f : List Token → Token) (history proposals : List Token) : List Token :=
  (List.range (proposals.length + 1)).map fun i => f (history ++ proposals.take i)

/-- Between rounds: `initial` is what the first round has from the prompt's forward. -/
structure Coherent (f : List Token → Token) (initial : Option (List (Option Token)))
    (d : Decoder) : Prop where
  model : d.model = fun history => some (f history)
  history_ne : d.history ≠ []
  draft : ∀ draft, d.draft = some draft → draft.Coherent
  reference : d.plan.method = .autoregressive → d.draft = none
  cache : match initial with
    | none => d.cache = d.history.dropLast
    | some rows => rows = [some (f d.history)] ∧ d.cache = d.history

variable {f : List Token → Token} {initial : Option (List (Option Token))} {d : Decoder}

/-- What a round leaves alone. -/
structure SameSession (d d' : Decoder) : Prop where
  model : d'.model = d.model
  plan : d'.plan = d.plan
  limit : d'.limit = d.limit
  eos : d'.eos = d.eos
  fixed : d'.fixed = d.fixed

theorem SameSession.refl (d : Decoder) : SameSession d d := ⟨rfl, rfl, rfl, rfl, rfl⟩

theorem proposals_ok (h : d.Coherent f initial) (remaining : Nat) :
    ∃ proposals d', d.proposals remaining = .ok (proposals, d') ∧ d'.Coherent f initial ∧
      SameSession d d' ∧ d'.history = d.history ∧ d'.generated = d.generated ∧
      (d.plan.method = .autoregressive → proposals = []) := by
  rw [proposals]
  by_cases hlookup : d.plan.method = .promptLookup
  · rw [if_pos hlookup]
    refine ⟨_, d, rfl, h, .refl d, rfl, rfl, fun hmethod => ?_⟩
    rw [hlookup] at hmethod
    cases hmethod
  rw [if_neg hlookup]
  rcases hdraft : d.draft with - | draft
  · exact ⟨[], d, rfl, h, .refl d, rfl, rfl, fun _ => rfl⟩
  by_cases hmany : 1 < remaining
  · obtain ⟨draft', heq, hcoherent⟩ := DraftSequence.propose_ok (h.draft draft hdraft) h.history_ne
      (min d.plan.draftTokens (remaining - 1))
    simp only [if_pos hmany, heq]
    refine ⟨_, _, rfl, ⟨h.model, h.history_ne, fun other hother => ?_, fun hmethod => ?_, h.cache⟩,
      ⟨rfl, rfl, rfl, rfl, rfl⟩, rfl, rfl, fun hmethod => ?_⟩
    · cases hother
      exact hcoherent
    · rw [h.reference hmethod] at hdraft
      cases hdraft
    · rw [h.reference hmethod] at hdraft
      cases hdraft
  · refine ⟨[], d, ?_, h, .refl d, rfl, rfl, fun _ => rfl⟩
    simp only [if_neg hmany]

/-- **The rows that verify a round**, in the first round and in the later ones. -/
theorem scores_ok (h : d.Coherent f initial) (proposals : List Token) : d.scores initial proposals =
      .ok ((choices f d.history proposals).map some,
        { d with cache := d.history ++ proposals }) := by
  have hcache := h.cache
  rcases initial with - | rows
  · -- the last committed token is fed with the proposals
    obtain ⟨last, hlast⟩ := Option.ne_none_iff_exists'.mp
      (fun hnone => h.history_ne (List.getLast?_eq_none_iff.mp hnone))
    have hsplit : d.history.dropLast ++ [last] = d.history :=
      dropLast_append_getLast? last hlast
    simp only [scores, hlast, forward, h.model, hcache, choices, map_map]
    congr 2
    · apply map_congr_left
      intro i _
      show some (f (_ ++ last :: proposals.take i)) = some (f (d.history ++ proposals.take i))
      rw [append_cons, hsplit]
    · rw [append_cons, hsplit]
  · obtain ⟨rfl, hcache⟩ := hcache
    by_cases hnone : proposals = []
    · subst hnone
      have hsame : d = { d with cache := d.history } :=
        congrArg (fun cache => { d with cache := cache }) hcache
      simp only [scores, append_nil, ← hsame]
      simp [choices]
    · simp only [scores, if_neg hnone, forward, h.model, hcache, choices, map_map,
        range_succ_eq_map, map_cons, take_zero, append_nil]
      rfl

theorem predictions_map_some (tokens : List Token) : predictions (tokens.map some) = .ok tokens := by
  induction tokens with
  | nil => rfl
  | cons token tokens ih => rw [map_cons, predictions, ih]

/-! ### Verification -/

theorem follows_accepted (f : List Token → Token) (history proposals : List Token) :
    Greedy.Follows f history
      (proposals.take (common proposals (choices f history proposals))) := by
  have hle := common_le_left proposals (choices f history proposals)
  have htake := take_common proposals (choices f history proposals)
  generalize common proposals (choices f history proposals) = accepted at hle htake ⊢
  intro i hi
  have hlt : i < accepted := lt_of_lt_of_le hi (length_take_le _ _)
  have hget := congrArg (fun tokens => tokens[i]?) htake
  simp only [List.getElem?_take, if_pos hlt, choices, List.getElem?_map] at hget
  rw [List.getElem?_range (by omega), List.getElem?_eq_getElem (by omega)] at hget
  rw [getElem_take, take_take, min_eq_left hlt.le]
  exact Option.some.inj hget

/-- **What a round may emit**: the accepted proposals and the target's choice behind them. -/
theorem verified_ok {proposals : List Token}
    (hreference : d.plan.method = .autoregressive → proposals = []) :
    ∃ accepted, d.verified ((choices f d.history proposals).map some) proposals =
        .ok (proposals.take accepted ++ [f (d.history ++ proposals.take accepted)]) ∧
      accepted ≤ proposals.length ∧ Greedy.Follows f d.history (proposals.take accepted) := by
  rw [verified]
  split_ifs with hmethod
  · obtain rfl := hreference hmethod
    exact ⟨0, rfl, Nat.zero_le _, .nil _⟩
  · have hle := common_le_left proposals (choices f d.history proposals)
    refine ⟨_, ?_, hle, follows_accepted f d.history proposals⟩
    have hget : ∀ i, i ≤ proposals.length → (choices f d.history proposals)[i]? =
        some (f (d.history ++ proposals.take i)) := by
      intro i hi
      rw [choices, List.getElem?_map, List.getElem?_range (Nat.lt_succ_of_le hi)]
      rfl
    simp only [predictions_map_some, hget _ hle]

/-! ### Cutting a burst -/

variable {eos : Finset Token}

theorem untilEos_isPrefix (tokens : List Token) : untilEos eos tokens <+: tokens := by
  induction tokens with
  | nil => exact prefix_rfl
  | cons token tokens ih =>
    rw [untilEos]
    split_ifs
    · exact ⟨tokens, rfl⟩
    · exact (prefix_cons_inj token).mpr ih

theorem untilEos_ne_nil {tokens : List Token} (h : tokens ≠ []) : untilEos eos tokens ≠ [] := by
  rcases tokens with - | ⟨token, tokens⟩
  · exact absurd rfl h
  · rw [untilEos]
    split_ifs
    all_goals exact cons_ne_nil _ _

theorem not_mem_of_mem_dropLast_untilEos {tokens : List Token} {token : Token}
    (h : token ∈ (untilEos eos tokens).dropLast) : token ∉ eos := by
  induction tokens with
  | nil => cases h
  | cons first tokens ih =>
    rw [untilEos] at h
    split_ifs at h with heos
    · cases h
    · rcases hrest : untilEos eos tokens with - | ⟨next, rest⟩
      · rw [hrest] at h
        cases h
      · rw [hrest, dropLast_cons_cons, mem_cons] at h
        rcases h with rfl | h
        · exact heos
        · exact ih (hrest ▸ h)

/-! ### Publishing a round -/

/-- Only rejected and superfluous states are rolled back. -/
theorem publish_ok {proposals out : List Token} {accepted : Nat} {correction last : Token}
    (hcache : d.cache = d.history ++ proposals) (haccepted : accepted ≤ proposals.length)
    (hbegins : out ++ [last] <+: proposals.take accepted ++ [correction]) :
    d.publish (out ++ [last]) = .ok (out ++ [last], { d with
      history := d.history ++ (out ++ [last])
      generated := d.generated ++ (out ++ [last])
      cache := (d.history ++ (out ++ [last])).dropLast }) := by
  have hlen := hbegins.length_le
  rw [length_append, length_append, length_singleton, length_singleton,
    length_take] at hlen
  have hout : out <+: proposals.take accepted := by
    apply prefix_of_prefix_length_le ((prefix_append out [last]).trans hbegins)
      (prefix_append _ [correction])
    rw [length_take]
    omega
  have htake : proposals.take out.length = out :=
    (prefix_iff_eq_take.mp (hout.trans (List.take_prefix accepted proposals))).symm
  have hint : (((d.history ++ (out ++ [last])).length : Int) - 1) =
      ((d.history.length + out.length : Nat) : Int) := by
    simp only [length_append, length_singleton]
    omega
  have hcrop : crop d.cache ((d.history.length + out.length : Nat) : Int) =
      .ok (d.history ++ out) := by
    rw [crop_ok, hcache, take_length_add_append, htake]
    rw [hcache, length_append]
    omega
  rw [publish, hint, hcrop]
  rw [← append_assoc, dropLast_concat]

/-- Ends the output of the session. -/
def stop (d : Decoder) (token : Token) : Bool := !d.fixed && decide (token ∈ d.eos)

/-- What a round appends: a burst of the target within the budget, which nothing stops before
its last token. -/
structure Emits (f : List Token → Token) (d d' : Decoder) (out : List Token) (last : Token) :
    Prop where
  history : d'.history = d.history ++ (out ++ [last])
  generated : d'.generated = d.generated ++ (out ++ [last])
  follows : Greedy.Follows f d.history (out ++ [last])
  short : out.length < d.limit - d.generated.length
  going : ∀ token ∈ out, d.stop token = false

theorem kept_burst (fixed : Bool) (eos : Finset Token) (burst : List Token) (hne : burst ≠ [])
    {remaining : Nat} (hroom : 0 < remaining) :
    ∃ out last, (if fixed then burst.take remaining else untilEos eos (burst.take remaining)) =
        out ++ [last] ∧ out ++ [last] <+: burst ∧ out.length < remaining ∧
      ∀ token ∈ out, (!fixed && decide (token ∈ eos)) = false := by
  have htake : burst.take remaining ≠ [] := by
    intro h
    rcases take_eq_nil_iff.mp h with h | h
    · exact absurd h hroom.ne'
    · exact hne h
  generalize hkept : (if fixed then burst.take remaining
    else untilEos eos (burst.take remaining)) = kept
  have hbegins : kept <+: burst.take remaining := by
    rw [← hkept]
    split_ifs
    · exact prefix_rfl
    · exact untilEos_isPrefix _
  have hkept_ne : kept ≠ [] := by
    rw [← hkept]
    split_ifs
    · exact htake
    · exact untilEos_ne_nil htake
  obtain ⟨out, last, rfl⟩ : ∃ out last, kept = out ++ [last] :=
    ⟨kept.dropLast, kept.getLast hkept_ne, (dropLast_append_getLast hkept_ne).symm⟩
  refine ⟨out, last, rfl, hbegins.trans (List.take_prefix _ _), ?_, fun token hmem => ?_⟩
  · have hlen := hbegins.length_le
    rw [length_append, length_singleton] at hlen
    have := length_take_le remaining burst
    omega
  · cases fixed
    · have hdrop : (untilEos eos (burst.take remaining)).dropLast = out := by
        rw [show untilEos eos (burst.take remaining) = out ++ [last] from hkept,
          dropLast_concat]
      simpa using not_mem_of_mem_dropLast_untilEos (hdrop ▸ hmem)
    · rfl

/-- **One round** never raises, emits a burst and leaves the cache one token behind. -/
theorem round_ok (h : d.Coherent f initial) (hroom : d.generated.length < d.limit) :
    ∃ out last d', d.round initial = .ok (out ++ [last], d') ∧ d'.Coherent f none ∧
      SameSession d d' ∧ Emits f d d' out last := by
  obtain ⟨proposals, d₁, hproposals, h₁, hsame, hhistory, hgenerated, hreference⟩ :=
    proposals_ok h (d.limit - d.generated.length)
  obtain ⟨accepted, hverified, haccepted, hfollows⟩ :=
    verified_ok (f := f) (d := { d₁ with cache := d₁.history ++ proposals })
      (hsame.plan ▸ hreference)
  obtain ⟨out, last, hkept, hbegins, hshort, hgoing⟩ := kept_burst d₁.fixed d₁.eos
    (proposals.take accepted ++ [f (d₁.history ++ proposals.take accepted)])
    (append_ne_nil_of_right_ne_nil _ (cons_ne_nil _ [])) (Nat.sub_pos_of_lt hroom)
  have hpublish := publish_ok (d := { d₁ with cache := d₁.history ++ proposals }) rfl haccepted hbegins
  refine ⟨out, last, { d₁ with
      history := d₁.history ++ (out ++ [last])
      generated := d₁.generated ++ (out ++ [last])
      cache := (d₁.history ++ (out ++ [last])).dropLast }, ?_,
    ⟨h₁.model, ?_, h₁.draft, h₁.reference, rfl⟩,
    { hsame with }, ⟨?_, ?_, ?_, hshort, ?_⟩⟩
  · simp only [round, hproposals, scores_ok h₁, hverified, hkept]
    exact hpublish
  · exact append_ne_nil_of_left_ne_nil h₁.history_ne _
  · show d₁.history ++ _ = d.history ++ _
    rw [hhistory]
  · show d₁.generated ++ _ = d.generated ++ _
    rw [hgenerated]
  · rw [← hhistory]
    exact hfollows.concat.of_isPrefix hbegins
  · intro token hmem
    rw [stop, ← hsame.fixed, ← hsame.eos]
    exact hgoing token hmem

/-! ### All rounds -/

/-- The rounds from `d` on are the greedy continuation. -/
theorem roundsLoop_ok {passes : Nat} (h : d.Coherent f initial)
    (hpasses : d.limit - d.generated.length ≤ passes) :
    ∃ yields, roundsLoop passes initial d = .ok yields ∧
      (yields.map Prod.fst).flatten =
        greedy f d.stop (d.limit - d.generated.length) d.history ∧
      ∀ y ∈ yields, y.2.cache = y.2.history.dropLast := by
  induction passes generalizing d initial with
  | zero =>
    refine ⟨[], rfl, ?_, nofun⟩
    rw [Nat.le_zero.mp hpasses]
    rfl
  | succ passes ih =>
    rw [roundsLoop]
    by_cases hdone : d.limit ≤ d.generated.length
    · refine ⟨[], if_pos hdone, ?_, nofun⟩
      rw [Nat.sub_eq_zero_of_le hdone]
      rfl
    obtain ⟨out, last, d', hround, h', hsame, hemits⟩ := round_ok h (not_le.mp hdone)
    have hburst := Greedy.greedy_burst hemits.follows hemits.short hemits.going
    have hlast : (out ++ [last]).getLast? = some last := List.getLast?_concat
    simp only [if_neg hdone, hround, hlast]
    by_cases hstop : last ∈ d'.eos ∧ d'.fixed = false
    · -- the session ends here
      rw [if_pos hstop]
      have hend : d.stop last = true := by
        rw [stop, ← hsame.fixed, ← hsame.eos, hstop.2]
        simpa using hstop.1
      refine ⟨_, rfl, ?_, ?_⟩
      · rw [hburst, if_pos hend]
        simp
      · intro y hy
        obtain rfl := mem_singleton.mp hy
        exact h'.cache
    · rw [if_neg hstop]
      have hgoes : d.stop last = false := by
        rw [stop, ← hsame.fixed, ← hsame.eos]
        rcases hfixed : d'.fixed with - | -
        · simpa using fun hmem => hstop ⟨hmem, hfixed⟩
        · rfl
      have hleft : d'.limit - d'.generated.length =
          d.limit - d.generated.length - (out.length + 1) := by
        rw [hsame.limit, hemits.generated, length_append, length_append,
          length_singleton]
        omega
      have hstop' : d'.stop = d.stop := by
        funext token
        rw [stop, stop, hsame.fixed, hsame.eos]
      obtain ⟨rest, hrest, hflat, hcache⟩ := ih h' (by omega)
      refine ⟨(out ++ [last], d') :: rest, by rw [hrest], ?_, ?_⟩
      · rw [map_cons, flatten_cons, hflat, hburst, if_neg (by simp [hgoes]), hleft, hstop',
          hemits.history]
      · rw [forall_mem_cons]
        exact ⟨h'.cache, hcache⟩

theorem initial_ok (f : List Token → Token) {prompt : List Token} (hprompt : prompt ≠ []) :
    ((List.range prompt.length).map fun i => some (f (prompt.take (i + 1)))).drop
      (prompt.length - 1) = [some (f prompt)] := by
  obtain ⟨k, hk⟩ := Nat.exists_eq_succ_of_ne_zero (length_pos_iff.mpr hprompt).ne'
  have htake : prompt.take (k + 1) = prompt := take_of_length_le hk.le
  rw [hk, range_succ, map_append, map_singleton, htake]
  apply drop_left'
  simp

/-- **The rounds of a session** are the greedy continuation of its prompt, for every method. -/
theorem rounds_ok (f : List Token → Token) (plan : DecodingPlan) {prompt : List Token}
    (hprompt : prompt ≠ []) (limit : Nat) (eos : Finset Token) (fixed : Bool)
    {draftModel : Option (List Token → Token)}
    (hreference : plan.method = .autoregressive → draftModel = none) :
    ∃ yields, (new (fun history => some (f history)) plan prompt limit eos fixed draftModel).rounds =
        .ok yields ∧
      (yields.map Prod.fst).flatten =
        greedy f (fun token => !fixed && decide (token ∈ eos)) limit prompt ∧
      ∀ y ∈ yields, y.2.cache = y.2.history.dropLast := by
  have hstart : Coherent f (some [some (f prompt)]) { new (fun history => some (f history)) plan
      prompt limit eos fixed draftModel with cache := prompt } := by
    refine ⟨rfl, hprompt, fun draft hdraft => ?_, fun hmethod => ?_, ⟨rfl, rfl⟩⟩
    · obtain ⟨model, -, rfl⟩ := Option.map_eq_some_iff.mp hdraft
      rfl
    · show draftModel.map _ = none
      rw [hreference hmethod]
      rfl
  obtain ⟨yields, hyields, hflat, hcache⟩ := roundsLoop_ok hstart (le_rfl : limit - 0 ≤ limit)
  refine ⟨yields, ?_, hflat, hcache⟩
  rw [← hyields, ← initial_ok f hprompt]
  simp only [rounds, forward, length_map, length_range]
  rfl

end Decoder

/-- **Speculative decoding is exact.**  Whatever the draft proposes, and whatever is looked up in
the history, a speculative session yields the tokens of the autoregressive one, which has the
default plan: the target's greedy continuation up to the limit or the first end token.  No
rollback fails, and after every round the cache holds the history without its last token. -/
theorem speculation_exact (f : List Token → Token) {plan : DecodingPlan}
    (hplan : plan.method ≠ .autoregressive) (draftModel : Option (List Token → Token))
    {prompt : List Token} (hprompt : prompt ≠ []) (limit : Nat) (eos : Finset Token) (fixed : Bool) :
    let target := fun history => some (f history)
    ∃ yields reference,
      (Decoder.new target plan prompt limit eos fixed draftModel).rounds = .ok yields ∧
      (Decoder.new target {} prompt limit eos fixed none).rounds = .ok reference ∧
      (yields.map Prod.fst).flatten = (reference.map Prod.fst).flatten ∧
      (reference.map Prod.fst).flatten =
        greedy f (fun token => !fixed && decide (token ∈ eos)) limit prompt ∧
      ∀ y ∈ yields, y.2.cache = y.2.history.dropLast := by
  obtain ⟨yields, hyields, hflat, hcache⟩ := Decoder.rounds_ok f plan hprompt limit eos fixed
    fun hmethod => absurd hmethod hplan
  obtain ⟨reference, hreference, hflat', -⟩ := Decoder.rounds_ok f {} hprompt limit eos fixed
    fun _ => rfl
  exact ⟨yields, reference, hyields, hreference, hflat.trans hflat'.symm, hflat', hcache⟩

/-- A target that counts, under a draft that stands still. -/
theorem speculation_exact_counting :
    let target : List Token → Option Token := fun history => some (history.length : Int)
    let plan : DecodingPlan := { method := .assistant }
    ∃ yields reference,
      (Decoder.new target plan [7] 5 {3} false (some fun _ => 1)).rounds = .ok yields ∧
      (Decoder.new target {} [7] 5 {3} false none).rounds = .ok reference ∧
      (yields.map Prod.fst).flatten = (reference.map Prod.fst).flatten ∧
      (reference.map Prod.fst).flatten =
        greedy (fun history => (history.length : Int))
          (fun token => !false && decide (token ∈ ({3} : Finset Token))) 5 [7] ∧
      ∀ y ∈ yields, y.2.cache = y.2.history.dropLast :=
  speculation_exact (fun history => (history.length : Int)) (by decide) (some fun _ => 1)
    (cons_ne_nil _ _) 5 {3} false

end Hqsb
