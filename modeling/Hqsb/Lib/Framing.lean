/-
Hqsb/Lib/Framing.lean

Reading delimited frames from a stream that arrives in pieces.

A `Reader` buffers what has arrived.  After each piece it cuts the buffer at the first separator,
hands what stands before it to its owner, and repeats until no separator is left.  A separator
may itself be split between two pieces, so nothing here looks at one piece alone:

    feed (feed r a) b = feed r (a ++ b).

Hence what the reader has done is a function of everything that has arrived, whatever the pieces
were (`feedAll_eq`), and a stream of terminated frames is read back frame by frame
(`feed_frames`).
-/
import Mathlib

namespace Lib.Framing

open List

variable {α σ : Type*} [DecidableEq α] {sep l more raw rest : List α} {consume : σ → List α → σ}

/-- What stands before the first `sep` in a list, and what stands after it. -/
def cutAt (sep : List α) : List α → Option (List α × List α)
  | [] => none
  | a :: l =>
    if sep.isPrefixOf (a :: l) then some ([], (a :: l).drop sep.length)
    else (cutAt sep l).map fun cut => (a :: cut.1, cut.2)

/-- A reader: the state of its owner and what has not been cut off yet. -/
structure Reader (σ α : Type*) where
  state : σ
  buffer : List α

def drain (sep : List α) (consume : σ → List α → σ) : Nat → Reader σ α → Reader σ α
  | 0, r => r
  | fuel + 1, r =>
    match cutAt sep r.buffer with
    | none => r
    | some (raw, rest) => drain sep consume fuel ⟨consume r.state raw, rest⟩

/-- One piece arrives.  Every cut takes at least one element off the buffer, so its length is
enough fuel for the loop. -/
def feed (sep : List α) (consume : σ → List α → σ) (r : Reader σ α) (piece : List α) : Reader σ α :=
  drain sep consume (r.buffer ++ piece).length ⟨r.state, r.buffer ++ piece⟩

def feedAll (sep : List α) (consume : σ → List α → σ) (r : Reader σ α) (pieces : List (List α)) :
    Reader σ α :=
  pieces.foldl (feed sep consume) r

/-! ### Cutting -/

theorem cutAt_cons_here {a : α} (h : sep <+: a :: l) :
    cutAt sep (a :: l) = some ([], (a :: l).drop sep.length) :=
  if_pos <| isPrefixOf_iff_prefix.mpr h

theorem cutAt_cons_later {a : α} (h : ¬ sep <+: a :: l) :
    cutAt sep (a :: l) = (cutAt sep l).map fun cut => (a :: cut.1, cut.2) :=
  if_neg fun hp => h <| isPrefixOf_iff_prefix.mp hp

/-- A cut loses nothing but the separator. -/
theorem eq_of_cutAt (h : cutAt sep l = some (raw, rest)) : l = raw ++ (sep ++ rest) := by
  induction l generalizing raw with
  | nil => cases h
  | cons a l ih =>
    by_cases hp : sep <+: a :: l
    · rw [cutAt_cons_here hp] at h
      obtain ⟨rfl, rfl⟩ := Prod.mk.inj (Option.some.inj h)
      obtain ⟨t, ht⟩ := hp
      rw [nil_append, ← ht, drop_left]
    · rw [cutAt_cons_later hp] at h
      obtain ⟨⟨raw', rest'⟩, hcut, he⟩ := Option.map_eq_some_iff.mp h
      cases he
      rw [ih hcut, cons_append]

/-- **What arrives later does not move a cut.** -/
theorem cutAt_append (h : cutAt sep l = some (raw, rest)) (more : List α) :
    cutAt sep (l ++ more) = some (raw, rest ++ more) := by
  induction l generalizing raw with
  | nil => cases h
  | cons a l ih =>
    by_cases hp : sep <+: a :: l
    · rw [cutAt_cons_here hp] at h
      obtain ⟨rfl, rfl⟩ := Prod.mk.inj (Option.some.inj h)
      have hlong : sep <+: a :: (l ++ more) := hp.trans (prefix_append (a :: l) more)
      rw [cons_append, cutAt_cons_here hlong, ← cons_append,
        drop_append_of_le_length hp.length_le]
    · rw [cutAt_cons_later hp] at h
      obtain ⟨⟨raw', rest'⟩, hcut, he⟩ := Option.map_eq_some_iff.mp h
      cases he
      -- a separator that begins here would lie within what had arrived before
      have hnot : ¬ sep <+: a :: (l ++ more) := by
        intro hlong
        refine hp (prefix_of_prefix_length_le hlong (prefix_append (a :: l) more) ?_)
        have hlen := congrArg List.length (eq_of_cutAt hcut)
        simp only [length_append] at hlen
        rw [length_cons]
        omega
      rw [cons_append, cutAt_cons_later hnot, ih hcut, Option.map_some]

theorem length_lt_of_cutAt (hsep : sep ≠ []) (h : cutAt sep l = some (raw, rest)) :
    rest.length < l.length := by
  have hpos := length_pos_iff.mpr hsep
  have hlen := congrArg List.length (eq_of_cutAt h)
  simp only [length_append] at hlen
  omega

/-- A frame without the first element of the separator ends at the separator written after it. -/
theorem cutAt_frame {b : α} {tail : List α} (hraw : b ∉ raw) (rest : List α) :
    cutAt (b :: tail) (raw ++ (b :: tail ++ rest)) = some (raw, rest) := by
  induction raw with
  | nil =>
    rw [nil_append, cons_append, cutAt_cons_here ⟨rest, rfl⟩, length_cons,
      drop_succ_cons, drop_left]
  | cons a raw ih =>
    have hnot : ¬ b :: tail <+: a :: (raw ++ (b :: tail ++ rest)) := fun hp =>
      hraw (mem_cons.mpr (.inl (cons_prefix_cons.mp hp).1))
    rw [cons_append, cutAt_cons_later hnot,
      ih fun hmem => hraw (.tail _ hmem), Option.map_some]

/-! ### Draining -/

/-- More fuel than elements changes nothing. -/
theorem drain_fuel (hsep : sep ≠ []) {fuel fuel' : Nat} {r : Reader σ α}
    (h : r.buffer.length ≤ fuel) (h' : r.buffer.length ≤ fuel') :
    drain sep consume fuel r = drain sep consume fuel' r := by
  induction fuel generalizing fuel' r with
  | zero =>
    have hnil : r.buffer = [] := length_eq_zero_iff.mp (Nat.le_zero.mp h)
    cases fuel' with
    | zero => rfl
    | succ fuel' => simp only [drain, hnil, cutAt]
  | succ fuel ih =>
    rcases hcut : cutAt sep r.buffer with - | ⟨raw, rest⟩
    · cases fuel' with
      | zero => simp only [drain, hcut]
      | succ fuel' => simp only [drain, hcut]
    · have hlt := length_lt_of_cutAt hsep hcut
      cases fuel' with
      | zero => omega
      | succ fuel' =>
        have hle : rest.length ≤ fuel := by omega
        have hle' : rest.length ≤ fuel' := by omega
        simp only [drain, hcut]
        exact ih hle hle'

/-- **The step of the loop.**  Draining a buffer that holds a frame consumes that frame and
drains the rest. -/
theorem feed_of_cutAt (hsep : sep ≠ []) {s : σ} (h : cutAt sep l = some (raw, rest)) :
    feed sep consume ⟨s, l⟩ [] = feed sep consume ⟨consume s raw, rest⟩ [] := by
  have hlt := length_lt_of_cutAt hsep h
  simp only [feed, append_nil]
  obtain ⟨n, hn⟩ : ∃ n, l.length = n + 1 := ⟨l.length - 1, by omega⟩
  rw [hn] at hlt ⊢
  simp only [drain, h]
  exact drain_fuel hsep (Nat.le_of_lt_succ hlt) (Nat.le_refl _)

theorem feed_of_cutAt_none {s : σ} (h : cutAt sep l = none) :
    feed sep consume ⟨s, l⟩ [] = ⟨s, l⟩ := by
  rw [feed, append_nil]
  cases l with
  | nil => rfl
  | cons a l => rw [length_cons, drain, h]

theorem feed_eq (r : Reader σ α) (piece : List α) :
    feed sep consume r piece = feed sep consume ⟨r.state, r.buffer ++ piece⟩ [] := by
  rw [feed, feed, append_nil]

/-- A drained reader takes up the next piece where the undrained one would have. -/
theorem feed_drained (hsep : sep ≠ []) (s : σ) (l b : List α) :
    feed sep consume (feed sep consume ⟨s, l⟩ []) b = feed sep consume ⟨s, l ++ b⟩ [] := by
  -- the induction is on what is left to be cut
  induction hn : l.length using Nat.strongRecOn generalizing s l with
  | _ n ih =>
    rcases hcut : cutAt sep l with - | ⟨raw, rest⟩
    · rw [feed_of_cutAt_none hcut, feed_eq]
    · rw [feed_of_cutAt hsep hcut, feed_of_cutAt hsep (cutAt_append hcut b)]
      exact ih rest.length (hn ▸ length_lt_of_cutAt hsep hcut) (consume s raw) rest rfl

/-- **Two pieces are one piece.** -/
theorem feed_feed (hsep : sep ≠ []) (r : Reader σ α) (a b : List α) :
    feed sep consume (feed sep consume r a) b = feed sep consume r (a ++ b) := by
  rw [feed_eq r a, feed_drained hsep, feed_eq r (a ++ b), append_assoc]

/-- **Any pieces are one piece.** -/
theorem feedAll_feed (hsep : sep ≠ []) (r : Reader σ α) (piece : List α) (pieces : List (List α)) :
    feedAll sep consume (feed sep consume r piece) pieces =
      feed sep consume r (piece ++ pieces.flatten) := by
  induction pieces generalizing piece with
  | nil => rw [flatten_nil, append_nil]; rfl
  | cons next pieces ih =>
    rw [flatten_cons, ← append_assoc, ← ih, ← feed_feed hsep]
    rfl

/-- From the empty buffer, what was done is a function of everything that has arrived. -/
theorem feedAll_eq (hsep : sep ≠ []) (s : σ) (pieces : List (List α)) :
    feedAll sep consume ⟨s, []⟩ pieces = feed sep consume ⟨s, []⟩ pieces.flatten := by
  cases pieces with
  | nil => rfl
  | cons piece pieces => exact feedAll_feed hsep ⟨s, []⟩ piece pieces

/-- **Terminated frames are read back one by one.** -/
theorem feed_frames {b : α} {tail : List α} (s : σ) (frames : List (List α))
    (hframes : ∀ raw ∈ frames, b ∉ raw) :
    feed (b :: tail) consume ⟨s, []⟩ (frames.flatMap fun raw => raw ++ (b :: tail)) =
      ⟨frames.foldl consume s, []⟩ := by
  rw [feed_eq, nil_append]
  induction frames generalizing s with
  | nil => rfl
  | cons raw frames ih =>
    rw [flatMap_cons, append_assoc,
      feed_of_cutAt (cons_ne_nil b tail) (cutAt_frame (hframes raw mem_cons_self) _)]
    exact ih _ fun raw' hraw' => hframes raw' (.tail _ hraw')

end Lib.Framing
