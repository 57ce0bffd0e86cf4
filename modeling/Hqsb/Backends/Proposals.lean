/-
Hqsb/Backends/Proposals.lean

What a decoder proposes.

A draft model proposes its own greedy continuation of the history it is asked
about, whatever it was asked before: `consumed` is the content of the draft's
cache after every call, so the common prefix that `propose` keeps is one of the
cached tokens (`draft_coherent`).

`lookup` proposes what followed an earlier occurrence of the last tokens.  Both of
its loops count down, so the first hit has the longest suffix, and of those the
latest position (`lookup_latest_longest`).
-/
import Hqsb.Backends.Speculation

namespace Hqsb

open Lib List

/-! ### The draft -/

namespace DraftSequence

/-- The length `propose` crops the cache to. -/
def keep (d : DraftSequence) (history : List Token) : Int :=
  min (common d.consumed history : Int) ((history.length : Int) - 1)

/-- The calls of one session, one after the other. -/
def proposeAll (d : DraftSequence) :
    List (List Token × Nat) → Except DecodingError (List (List Token) × DraftSequence)
  | [] => .ok ([], d)
  | (history, count) :: calls =>
    match d.propose history count with
    | .error error => .error error
    | .ok (proposed, d) =>
      match d.proposeAll calls with
      | .error error => .error error
      | .ok (rest, d) => .ok (proposed :: rest, d)

theorem Coherent.keep_le {d : DraftSequence} (hc : d.Coherent) {history : List Token}
    (hne : history ≠ []) : 0 ≤ d.keep history ∧ d.keep history ≤ d.cache.length := by
  have hpos : 0 < history.length := length_pos_iff.mpr hne
  have hle := common_le_left d.consumed history
  have hlen : d.cache.length = d.consumed.length := congrArg List.length hc
  rw [keep]
  omega

theorem proposeLoop_same (count : Nat) (token : Token) (d : DraftSequence) :
    (d.proposeLoop count token).2.model = d.model ∧ (d.proposeLoop count token).2.eos = d.eos := by
  induction count generalizing token d with
  | zero => exact ⟨rfl, rfl⟩
  | succ left ih =>
    rw [proposeLoop]
    split_ifs
    · exact ⟨rfl, rfl⟩
    · exact ih _ _

theorem propose_same {d d' : DraftSequence} {history proposed : List Token} {count : Nat}
    (h : d.propose history count = .ok (proposed, d')) : d'.model = d.model ∧ d'.eos = d.eos := by
  rw [propose] at h
  split at h
  · cases h
  · obtain rfl : _ = d' := congrArg Prod.snd (Except.ok.inj h)
    exact proposeLoop_same count _ _

/-- Any calls answer with continuations and leave the draft coherent. -/
theorem Coherent.proposeAll_ok {d : DraftSequence} (hc : d.Coherent)
    {calls : List (List Token × Nat)} (hne : ∀ call ∈ calls, call.1 ≠ []) :
    ∃ d', d.proposeAll calls =
        .ok (calls.map fun call => greedy d.model d.stop call.2 call.1, d') ∧
      d'.Coherent ∧ d'.model = d.model ∧ d'.eos = d.eos := by
  induction calls generalizing d with
  | nil => exact ⟨d, rfl, hc, rfl, rfl⟩
  | cons call calls ih =>
    obtain ⟨history, count⟩ := call
    rw [forall_mem_cons] at hne
    obtain ⟨d₁, hpropose, hc₁⟩ := propose_ok hc hne.1 count
    obtain ⟨hmodel, heos⟩ := propose_same hpropose
    obtain ⟨d', hrest, hc', hmodel', heos'⟩ := ih hc₁ hne.2
    refine ⟨d', ?_, hc', hmodel'.trans hmodel, heos'.trans heos⟩
    have hstop : d₁.stop = d.stop := by
      funext token
      rw [stop, stop, heos]
    rw [proposeAll, hpropose]
    dsimp only
    rw [hrest, hmodel, hstop]
    rfl

end DraftSequence

/-- **The draft's cache is what the draft believes it is.**  After any calls, and so before and
after each one: the cached tokens are the consumed ones, the next call crops to a length the
cache has, and it proposes the model's greedy continuation of its history up to `count` tokens
or the first end token. -/
theorem draft_coherent (model : List Token → Token) (eos : Finset Token)
    {calls : List (List Token × Nat)} (hne : ∀ call ∈ calls, call.1 ≠ []) :
    let continuation := greedy model fun token => decide (token ∈ eos)
    ∃ d, ({ model := model, eos := eos } : DraftSequence).proposeAll calls =
        .ok (calls.map fun call => continuation call.2 call.1, d) ∧
      d.cache = d.consumed ∧
      ∀ history count, history ≠ [] → 0 ≤ d.keep history ∧ d.keep history ≤ d.cache.length ∧
        ∃ d', d.propose history count = .ok (continuation count history, d') ∧
          d'.cache = d'.consumed := by
  intro continuation
  have hnew : ({ model := model, eos := eos } : DraftSequence).Coherent := rfl
  obtain ⟨d, hall, hc, hmodel, heos⟩ := hnew.proposeAll_ok hne
  refine ⟨d, hall, hc, fun history count hhistory => ?_⟩
  obtain ⟨hzero, hle⟩ := hc.keep_le hhistory
  obtain ⟨d', hpropose, hc'⟩ := DraftSequence.propose_ok hc hhistory count
  refine ⟨hzero, hle, d', ?_, hc'⟩
  have hstop : d.stop = fun token => decide (token ∈ eos) := by
    funext token
    rw [DraftSequence.stop, heos]
  rw [hpropose, hmodel, hstop]

/-- A draft that counts is asked about two histories that part after their first token. -/
theorem draft_coherent_counting :
    let model : List Token → Token := fun history => (history.length : Int)
    ∃ d, ({ model := model, eos := {4} } : DraftSequence).proposeAll [([7, 7], 3), ([7, 8, 9], 2)] =
        .ok ([[2, 3, 4], [3, 4]], d) ∧ d.cache = d.consumed := by
  intro model
  have hne : ∀ call ∈ [(([7, 7] : List Token), 3), ([7, 8, 9], 2)], call.1 ≠ [] := by decide
  obtain ⟨d, hall, hc, -⟩ := draft_coherent model {4} hne
  exact ⟨d, hall, hc⟩

/-! ### Prompt lookup -/

theorem countdown_split {first last k : Nat} (hlast : last ≤ k) (hfirst : k ≤ first) :
    countdown first last =
      countdown first (k + 1) ++ k :: (List.range' last (k - last)).reverse := by
  have hlen : first + 1 - last = (k - last) + (1 + (first + 1 - (k + 1))) := by omega
  rw [countdown, hlen, ← List.range'_append_1, ← List.range'_append_1, Nat.add_sub_cancel' hlast]
  simp [countdown]

theorem mem_countdown {first last k : Nat} : k ∈ countdown first last ↔ last ≤ k ∧ k ≤ first := by
  rw [countdown, mem_reverse, mem_range'_1]
  omega

variable {β : Type*} {f : Nat → Option β} {first last : Nat}

theorem countdown_eq_none :
    (countdown first last).findSome? f = none ↔ ∀ k, last ≤ k → k ≤ first → f k = none := by
  rw [List.findSome?_eq_none_iff]
  constructor
  · exact fun h k hlast hfirst => h k (mem_countdown.mpr ⟨hlast, hfirst⟩)
  · exact fun h k hk => h k (mem_countdown.mp hk).1 (mem_countdown.mp hk).2

theorem countdown_eq_some {k : Nat} {b : β} (hlast : last ≤ k) (hfirst : k ≤ first)
    (hk : f k = some b) (hmax : ∀ k', k < k' → k' ≤ first → f k' = none) :
    (countdown first last).findSome? f = some b := by
  rw [countdown_split hlast hfirst, List.findSome?_append, countdown_eq_none.mpr fun k' h h' =>
    hmax k' h h', Option.none_or, List.findSome?_cons, hk]

/-- The last `n` tokens occur at `p` too, earlier and within the window. -/
def Recurs (window : Nat) (history : List Token) (n p : Nat) : Prop :=
  history.length - window ≤ p ∧ p < history.length - n ∧
    history.extract p (p + n) = history.drop (history.length - n)

/-- The inner loop of `lookup`. -/
def recurrence (window : Nat) (history : List Token) (count n : Nat) : Option (List Token) :=
  (countdown (history.length - n - 1) (history.length - window)).findSome? fun pos =>
    if history.extract pos (pos + n) = history.drop (history.length - n) then
      some (history.extract (pos + n) (min (pos + n + count) history.length))
    else none

variable {window count n : Nat} {history : List Token}

theorem recurrence_eq_none (hn : n < history.length) :
    recurrence window history count n = none ↔ ∀ p, ¬ Recurs window history n p := by
  rw [recurrence, countdown_eq_none]
  constructor
  · rintro h p ⟨hstart, hlt, heq⟩
    have hnone := h p hstart (by omega)
    rw [if_pos heq] at hnone
    cases hnone
  · intro h p hstart hle
    exact if_neg fun heq => h p ⟨hstart, by omega, heq⟩

theorem recurrence_eq_some {p : Nat} (hp : Recurs window history n p)
    (hmax : ∀ p', p < p' → ¬ Recurs window history n p') :
    recurrence window history count n =
      some (history.extract (p + n) (min (p + n + count) history.length)) := by
  obtain ⟨hstart, hlt, heq⟩ := hp
  refine countdown_eq_some hstart (by omega) (if_pos heq) fun p' hp' hle => if_neg fun heq' => ?_
  exact hmax p' hp' ⟨by omega, by omega, heq'⟩

theorem Recurs.follows {p : Nat} (hp : Recurs window history n p) (hcount : 1 ≤ count) :
    history.extract (p + n) (min (p + n + count) history.length) ≠ [] := by
  obtain ⟨-, hlt, -⟩ := hp
  rw [← length_pos_iff, length_take, length_drop]
  omega

theorem ne_nil_of_recurrence {found : List Token} (hcount : 1 ≤ count) (hn : n < history.length)
    (h : recurrence window history count n = some found) : found ≠ [] := by
  obtain ⟨p, hp, hfound⟩ := exists_of_findSome?_eq_some h
  obtain ⟨hstart, hle⟩ := mem_countdown.mp hp
  split_ifs at hfound with heq
  cases hfound
  exact Recurs.follows ⟨hstart, by omega, heq⟩ hcount

/-- **Prompt lookup finds the longest suffix that recurs, where it recurred last**, and proposes
what followed it there; it proposes nothing iff no suffix recurs. -/
theorem lookup_latest_longest (history : List Token) {minNgram maxNgram : Nat} (window : Nat)
    {count : Nat} (hmin : 1 ≤ minNgram) (hcount : 1 ≤ count) :
    let found := lookupNgrams minNgram maxNgram window history count
    let admits := fun n => minNgram ≤ n ∧ n ≤ maxNgram ∧ n < history.length
    (∀ plan : DecodingPlan, plan.lookupMinNgram = minNgram → plan.lookupMaxNgram = maxNgram →
        plan.lookupWindow = window → lookup history plan count = found) ∧
      (found = [] ↔ ∀ n, admits n → ∀ p, ¬ Recurs window history n p) ∧
      ∀ n p, admits n → Recurs window history n p →
        (∀ n', n < n' → admits n' → ∀ p', ¬ Recurs window history n' p') →
        (∀ p', p < p' → ¬ Recurs window history n p') →
        found = history.extract (p + n) (min (p + n + count) history.length) ∧ found ≠ [] := by
  intro found admits
  have hfound : found = ((countdown (min maxNgram (history.length - 1)) minNgram).findSome?
    (recurrence window history count)).getD [] := rfl
  have hadmits : ∀ n, minNgram ≤ n → n ≤ min maxNgram (history.length - 1) → admits n :=
    fun n hlow hhigh => ⟨hlow, by omega, by omega⟩
  refine ⟨?_, ⟨fun hnil => ?_, fun hnone => ?_⟩, ?_⟩
  · rintro plan rfl rfl rfl
    rfl
  · rcases hloop : (countdown (min maxNgram (history.length - 1)) minNgram).findSome?
      (recurrence window history count) with - | slice
    · rintro n ⟨hlow, hhigh, hlt⟩
      exact (recurrence_eq_none hlt).mp (countdown_eq_none.mp hloop n hlow (by omega))
    · -- a loop that ends early has a slice to return
      obtain ⟨n, hn, hslice⟩ := exists_of_findSome?_eq_some hloop
      obtain ⟨hlow, hhigh⟩ := mem_countdown.mp hn
      rw [hfound, hloop, Option.getD_some] at hnil
      exact absurd hnil (ne_nil_of_recurrence hcount (hadmits n hlow hhigh).2.2 hslice)
  · rw [hfound, countdown_eq_none.mpr fun n hlow hhigh =>
      (recurrence_eq_none (hadmits n hlow hhigh).2.2).mpr (hnone n (hadmits n hlow hhigh)),
      Option.getD_none]
  · rintro n p ⟨hlow, hhigh, hlt⟩ hp hlongest hlast
    have heq : found = history.extract (p + n) (min (p + n + count) history.length) := by
      rw [hfound, countdown_eq_some hlow (by omega) (recurrence_eq_some hp hlast) ?_,
        Option.getD_some]
      exact fun n' hn' hle => (recurrence_eq_none (by omega)).mpr
        (hlongest n' hn' (hadmits n' (by omega) hle))
    exact ⟨heq, heq ▸ hp.follows hcount⟩

/-- The last two tokens stand at two earlier places, and the later one is continued. -/
theorem lookup_latest_longest_twice : lookupNgrams 1 3 16 [5, 6, 1, 5, 6, 2, 5, 6] 2 = [2, 5] := by
  refine ((lookup_latest_longest [5, 6, 1, 5, 6, 2, 5, 6] 16 (by decide) (by decide)).2.2 2 3
    ⟨by decide, by decide, by decide⟩ ⟨by decide, by decide, by decide⟩ ?_ ?_).1
  · rintro n' hn' ⟨-, hle, -⟩ p' ⟨-, hlt, heq⟩
    obtain rfl : n' = 3 := by omega
    have hp : p' < 5 := hlt
    revert heq
    decide +revert
  · rintro p' hp' ⟨-, hlt, heq⟩
    have hp : p' < 6 := hlt
    obtain rfl | rfl : p' = 4 ∨ p' = 5 := by omega
    all_goals exact absurd heq (by decide)

end Hqsb
