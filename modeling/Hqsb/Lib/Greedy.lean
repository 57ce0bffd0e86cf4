/-
Hqsb/Lib/Greedy.lean

Greedy continuation of a token history, as a function of its own.  A decoder is
a function `g` from histories to next tokens, a token may end the output
(`stop`), and at most `n` tokens are produced:

    greedy g stop n h = t₁ t₂ ⋯    with   tᵢ₊₁ = g (h ++ t₁ ⋯ tᵢ)

This is what an engine that batches, chunks, replays or speculates has to agree
with.  `Greedy.Partial g stop n h out` says `out` is what such an engine may have
produced while it is still going; `Partial.extend` and `Partial.finish` are the
only two steps.  An engine that emits several tokens at once emits bursts:
`Follows g h out` says that each token is the decoder's choice, and `greedy_burst`
that the continuation goes on behind one.
-/
import Mathlib

namespace Lib

open List

variable {α : Type*}

/-- The greedy continuation of `h`: at most `n` tokens, the last one being the first token
that satisfies `stop`. -/
def greedy (g : List α → α) (stop : α → Bool) : Nat → List α → List α
  | 0, _ => []
  | n + 1, h => if stop (g h) then [g h] else g h :: greedy g stop n (h ++ [g h])

variable {g : List α → α} {stop : α → Bool}

@[simp] theorem greedy_zero (h : List α) : greedy g stop 0 h = [] := rfl

theorem greedy_succ (n : Nat) (h : List α) : greedy g stop (n + 1) h =
      g h :: if stop (g h) then [] else greedy g stop n (h ++ [g h]) := by
  rw [greedy]
  split <;> rfl

/-- Each token of the continuation is the decoder's choice after the tokens before it. -/
theorem getElem_greedy {n : Nat} {h : List α} {i : Nat} (hi : i < (greedy g stop n h).length) :
    (greedy g stop n h)[i] = g (h ++ (greedy g stop n h).take i) := by
  induction n generalizing h i with
  | zero => cases hi
  | succ n ih =>
    simp only [greedy_succ] at hi ⊢
    cases i with
    | zero => simp
    | succ i =>
      by_cases hs : stop (g h)
      · simp [hs] at hi
      · simp only [hs, length_cons, Nat.add_lt_add_iff_right]
          at hi
        simpa [hs] using ih hi

/-- Tokens that follow the decoder and do not stop it come first. -/
theorem greedy_eq_append {n : Nat} {h out : List α} (hn : out.length ≤ n)
    (hout : ∀ i (hi : i < out.length), out[i] = g (h ++ out.take i) ∧ stop out[i] = false) :
    greedy g stop n h = out ++ greedy g stop (n - out.length) (h ++ out) := by
  induction out generalizing n h with
  | nil => simp
  | cons t out ih =>
    obtain ⟨n, rfl⟩ : ∃ k, n = k + 1 := ⟨n - 1, by simp at hn; omega⟩
    obtain ⟨ht, hs⟩ := hout 0 (by simp)
    simp only [getElem_cons_zero, take_zero, append_nil] at ht hs
    rw [greedy_succ, ← ht, if_neg (by simp [hs])]
    have := ih (n := n) (h := h ++ [t]) (by simpa using hn) fun i hi => by
      have := hout (i + 1) (by simpa using hi)
      simpa using this
    simp [this]

/-! ### Continuations under way -/

/-- `out` is a proper beginning of the continuation, nothing in it stops it. -/
structure Greedy.Partial (g : List α → α) (stop : α → Bool) (n : Nat) (h out : List α) :
    Prop where
  short : out.length < n
  split : greedy g stop n h = out ++ greedy g stop (n - out.length) (h ++ out)

namespace Greedy

variable {n : Nat} {h out : List α}

theorem Partial.nil (hn : 0 < n) : Partial g stop n h [] := ⟨hn, by simp⟩

theorem Partial.isPrefix (hp : Partial g stop n h out) : out <+: greedy g stop n h :=
  ⟨_, hp.split.symm⟩

theorem Partial.next (hp : Partial g stop n h out) :
    greedy g stop n h = (out ++ [g (h ++ out)]) ++
      if stop (g (h ++ out)) then []
      else greedy g stop (n - (out.length + 1)) (h ++ (out ++ [g (h ++ out)])) := by
  rw [hp.split]
  obtain ⟨k, hk⟩ : ∃ k, n - out.length = k + 1 := ⟨n - out.length - 1, by have := hp.short; omega⟩
  rw [hk, greedy_succ, show n - (out.length + 1) = k by omega]
  simp

/-- A token that neither stops nor exhausts the budget leaves the continuation under way. -/
theorem Partial.extend (hp : Partial g stop n h out) (hs : stop (g (h ++ out)) = false)
    (hn : out.length + 1 < n) : Partial g stop n h (out ++ [g (h ++ out)]) where
  short := by simpa using hn
  split := by
    rw [hp.next, if_neg (by simp [hs])]
    simp

theorem Partial.finish (hp : Partial g stop n h out)
    (hend : stop (g (h ++ out)) = true ∨ n ≤ out.length + 1) :
    greedy g stop n h = out ++ [g (h ++ out)] := by
  rw [hp.next]
  rcases hend with hs | hn
  · simp [hs]
  · rw [Nat.sub_eq_zero_of_le hn]
    simp

theorem getElem_of_isPrefix (hp : out <+: greedy g stop n h) {i : Nat} (hi : i < out.length) :
    out[i] = g (h ++ out.take i) := by
  obtain ⟨rest, hr⟩ := hp
  have hlen : i < (greedy g stop n h).length := by rw [← hr]; simp; omega
  have key := getElem_greedy hlen
  simp only [← hr] at key
  rwa [getElem_append_left hi, take_append_of_le_length hi.le] at key

/-! ### Bursts -/

/-- Each token of `out` is the decoder's choice after `h` and the tokens before it. -/
def Follows (g : List α → α) (h out : List α) : Prop :=
  ∀ i (hi : i < out.length), out[i] = g (h ++ out.take i)

theorem Follows.nil (h : List α) : Follows g h [] := nofun

theorem Follows.of_isPrefix {out' : List α} (hf : Follows g h out) (hp : out' <+: out) :
    Follows g h out' := by
  intro i hi
  obtain ⟨rest, rfl⟩ := hp
  have key := hf i (by simp; omega)
  rwa [getElem_append_left hi, take_append_of_le_length hi.le] at key

theorem Follows.concat (hf : Follows g h out) : Follows g h (out ++ [g (h ++ out)]) := by
  intro i hi
  rw [length_append, length_singleton] at hi
  rcases lt_or_ge i out.length with hlt | hge
  · rw [getElem_append_left hlt, take_append_of_le_length hlt.le]
    exact hf i hlt
  · obtain rfl : i = out.length := by omega
    simp

theorem Follows.concat_eq {t : α} (hf : Follows g h (out ++ [t])) : t = g (h ++ out) := by
  have key := hf out.length (by simp)
  simpa using key

/-- **Behind a burst the continuation goes on**, unless the last token stops it. -/
theorem greedy_burst {t : α} (hf : Follows g h (out ++ [t])) (hn : out.length < n)
    (hgo : ∀ u ∈ out, stop u = false) :
    greedy g stop n h = (out ++ [t]) ++
      if stop t then [] else greedy g stop (n - (out.length + 1)) (h ++ (out ++ [t])) := by
  have hp : Partial g stop n h out := by
    refine ⟨hn, greedy_eq_append hn.le fun i hi => ⟨?_, hgo _ (getElem_mem hi)⟩⟩
    exact hf.of_isPrefix (prefix_append out [t]) i hi
  rw [hp.next, ← hf.concat_eq]

end Greedy

end Lib
