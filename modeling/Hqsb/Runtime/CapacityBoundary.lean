/-
Hqsb/Runtime/CapacityBoundary.lean

The capacity search (`find_capacity_boundary` of `hqsb/runtime/kv.py`).

A probe is an action: it may have effects of its own, and its answer is whether the run survived.
`findCapacityBoundary` refuses a range that is empty and a range whose ends do not differ, and
halves what remains.  The loop needs nothing of the probe: it stops because the range shrinks
(`bisect`), and it keeps a bracket whatever the answers in the middle are
(`bisect_asked`).

Main result: `capacity_boundary_found`.
-/
import Hqsb.Lib.Bisection

namespace Hqsb

open Lib List

/-- A `ConfigError` and the field it names. -/
structure CapacityError where
  message : String
  field : Option String := none

def CapacityError.emptyRange : CapacityError := ⟨"capacity search needs high > low", none⟩

def CapacityError.dirtyLow : CapacityError where
  message := "the capacity probe already fails at the lower bound; the run is not a " ++
    "clean measurement (state was polluted by an earlier OOM)"
  field := some "low"

def CapacityError.unboundedHigh : CapacityError where
  message := "capacity probe survived the upper bound; widen the search range " ++
    "instead of reporting an unbounded capacity"
  field := some "high"

structure CapacityBoundary where
  safeTokens : Int
  oomTokens : Int
  probePoints : List Int

section Search

variable {m : Type → Type} [Monad m] (probe : Int → m Bool)

/-- The loop; `points` are the points recorded so far. -/
def bisect (points : List Int) (safe oom : Int) : m CapacityBoundary :=
  if 1 < oom - safe then do
    let middle := (safe + oom) / 2
    if ← probe middle then
      bisect (points ++ [middle]) middle oom
    else
      bisect (points ++ [middle]) safe middle
  else
    pure ⟨safe, oom, points⟩
termination_by (oom - safe).toNat
decreasing_by all_goals omega

/-- `find_capacity_boundary`; the default of `low` is 0. -/
def findCapacityBoundary (low high : Int) : m (Except CapacityError CapacityBoundary) :=
  if high ≤ low then
    pure (.error .emptyRange)
  else do
    if ← probe low then
      -- the point is recorded behind the call, on both branches of the source
      if ← probe high then
        pure (.error .unboundedHigh)
      else do
        let boundary ← bisect probe [high] low high
        pure (.ok boundary)
    else
      pure (.error .dirtyLow)

end Search

/-! ### The calls of the probe -/

/-- A probe without effects whose calls are counted: the state is the list of them. -/
def asked (survives : Int → Bool) (tokens : Int) : StateM (List Int) Bool :=
  fun calls => (survives tokens, calls ++ [tokens])

section Asked

variable {survives : Int → Bool} {points calls : List Int} {safe oom : Int}

theorem bisect_done (h : ¬ 1 < oom - safe) :
    bisect (asked survives) points safe oom calls = (⟨safe, oom, points⟩, calls) := by
  rw [bisect, if_neg h]
  rfl

theorem bisect_step (h : 1 < oom - safe) : bisect (asked survives) points safe oom calls =
      if survives ((safe + oom) / 2) then
        bisect (asked survives) (points ++ [(safe + oom) / 2]) ((safe + oom) / 2) oom
          (calls ++ [(safe + oom) / 2])
      else
        bisect (asked survives) (points ++ [(safe + oom) / 2]) safe ((safe + oom) / 2)
          (calls ++ [(safe + oom) / 2]) := by
  rw [bisect, if_pos h]
  show (if survives ((safe + oom) / 2) then _ else _ : StateM (List Int) CapacityBoundary)
    (calls ++ [(safe + oom) / 2]) = _
  split <;> rfl

/-- What the loop finds: a bracket of two neighbours inside the one it starts with, and the
points it asks about on the way. -/
structure Bisected (survives : Int → Bool) (safe oom : Int) (boundary : CapacityBoundary)
    (middles : List Int) : Prop where
  bracket : Bracket survives boundary.safeTokens boundary.oomTokens
  neighbours : boundary.oomTokens = boundary.safeTokens + 1
  above : safe ≤ boundary.safeTokens
  below : boundary.oomTokens ≤ oom
  inside : ∀ x ∈ middles, safe < x ∧ x < oom
  few : middles.length ≤ Nat.clog 2 (oom - safe).toNat

/-- One more halving in front. -/
theorem Bisected.cons {boundary : CapacityBoundary} {middles : List Int} {middle safe' oom' : Int}
    (h : Bisected survives safe' oom' boundary middles) (hsafe : safe ≤ safe') (hoom : oom' ≤ oom)
    (hmiddle : safe < middle ∧ middle < oom)
    (hfew : Nat.clog 2 (oom' - safe').toNat + 1 ≤ Nat.clog 2 (oom - safe).toNat) :
    Bisected survives safe oom boundary (middle :: middles) where
  bracket := h.bracket
  neighbours := h.neighbours
  above := hsafe.trans h.above
  below := h.below.trans hoom
  inside := by
    intro x hx
    rcases mem_cons.mp hx with rfl | hx
    · exact hmiddle
    · have := h.inside x hx
      omega
  few := by
    have := h.few
    rw [length_cons]
    omega

/-- **The loop**, from any bracket: it stops, and it asks about the points it records. -/
theorem bisect_asked {safe oom : Int} (points calls : List Int)
    (h : Bracket survives safe oom) :
    ∃ boundary middles, Bisected survives safe oom boundary middles ∧
      bisect (asked survives) points safe oom calls = (boundary, calls ++ middles) := by
  by_cases hwide : 1 < oom - safe
  · have hlt := lt_half hwide
    have hgt := half_lt hwide
    rw [bisect_step hwide]
    rcases hmiddle : survives ((safe + oom) / 2) with - | -
    · obtain ⟨boundary, middles, hfound, heq⟩ := bisect_asked (points ++ [(safe + oom) / 2])
        (calls ++ [(safe + oom) / 2]) (h.lower hlt hmiddle)
      refine ⟨boundary, (safe + oom) / 2 :: middles,
        hfound.cons le_rfl hgt.le ⟨hlt, hgt⟩ (clog_left hwide), ?_⟩
      rw [heq, append_assoc]
      rfl
    · obtain ⟨boundary, middles, hfound, heq⟩ := bisect_asked (points ++ [(safe + oom) / 2])
        (calls ++ [(safe + oom) / 2]) (h.upper hgt hmiddle)
      refine ⟨boundary, (safe + oom) / 2 :: middles,
        hfound.cons hlt.le le_rfl ⟨hlt, hgt⟩ (clog_right hwide), ?_⟩
      rw [heq, append_assoc]
      rfl
  · have hneighbours : oom = safe + 1 := by
      have := h.lt
      omega
    rw [bisect_done hwide]
    exact ⟨⟨safe, oom, points⟩, [], ⟨h, hneighbours, le_rfl, le_rfl, nofun, Nat.zero_le _⟩,
      by rw [append_nil]⟩
termination_by (oom - safe).toNat

end Asked

/-- A range whose ends differ is searched. -/
theorem findCapacityBoundary_asked {survives : Int → Bool} {low high : Int}
    (h : Bracket survives low high) (calls : List Int) :
    findCapacityBoundary (asked survives) low high calls =
      (.ok (bisect (asked survives) [high] low high (calls ++ [low] ++ [high])).1,
        (bisect (asked survives) [high] low high (calls ++ [low] ++ [high])).2) := by
  rw [findCapacityBoundary, if_neg (not_le.mpr h.lt)]
  show (if survives low then _ else _ : StateM (List Int) _) (calls ++ [low]) = _
  rw [if_pos h.holds]
  show (if survives high then _ else _ : StateM (List Int) _) (calls ++ [low] ++ [high]) = _
  rw [h.fails]
  rfl

/-- **The capacity search.**  It terminates for every probe, on two neighbours that differ, after
few calls, and for a probe that only falls it finds the threshold. -/
theorem capacity_boundary_found (survives : Int → Bool) {low high : Int} (hrange : low < high)
    (hlow : survives low = true) (hhigh : survives high = false) :
    ∃ boundary calls,
      findCapacityBoundary (asked survives) low high [] = (.ok boundary, calls) ∧
      low ≤ boundary.safeTokens ∧ boundary.oomTokens = boundary.safeTokens + 1 ∧
      boundary.oomTokens ≤ high ∧
      survives boundary.safeTokens = true ∧ survives boundary.oomTokens = false ∧
      calls.length ≤ 2 + Nat.clog 2 (high - low).toNat ∧
      (∀ x ∈ calls, low ≤ x ∧ x ≤ high) ∧
      ((∀ x y, low ≤ x → x ≤ y → y ≤ high → survives y = true → survives x = true) →
        ∀ t, (∀ x, low ≤ x → x ≤ high → (survives x = true ↔ x ≤ t)) ↔
          t = boundary.safeTokens) := by
  have hends : Bracket survives low high := ⟨hrange, hlow, hhigh⟩
  obtain ⟨boundary, middles, hfound, heq⟩ := bisect_asked [high] ([] ++ [low] ++ [high]) hends
  have hbracket := hfound.bracket
  refine ⟨boundary, [] ++ [low] ++ [high] ++ middles, ?_, hfound.above, hfound.neighbours,
    hfound.below, hbracket.holds, hbracket.fails, ?_, ?_, ?_⟩
  · rw [findCapacityBoundary_asked hends, heq]
  · have := hfound.few
    simp only [nil_append, length_append, length_cons, length_nil]
    omega
  · intro x hx
    simp only [nil_append, append_assoc, mem_append, mem_singleton] at hx
    rcases hx with rfl | rfl | hx
    · exact ⟨le_rfl, hrange.le⟩
    · exact ⟨hrange.le, le_rfl⟩
    · have := hfound.inside x hx
      exact ⟨this.1.le, this.2.le⟩
  · intro hfalls t
    rw [hfound.neighbours] at hbracket
    have hbelow := hfound.neighbours ▸ hfound.below
    constructor
    · exact hbracket.threshold_unique hfound.above hbelow
    · rintro rfl x hx hx'
      exact hbracket.threshold hfound.above hbelow hfalls hx hx'

/-- A card that holds 37 tokens. -/
theorem capacity_boundary_found_card :
    ∃ boundary calls,
      findCapacityBoundary (asked fun tokens => tokens ≤ 37) 1 64 [] = (.ok boundary, calls) ∧
      boundary.oomTokens = boundary.safeTokens + 1 := by
  obtain ⟨boundary, calls, hfound, -, hneighbours, -⟩ :=
    capacity_boundary_found (fun tokens => tokens ≤ 37) (show (1 : Int) < 64 by decide)
      (by decide) (by decide)
  exact ⟨boundary, calls, hfound, hneighbours⟩

end Hqsb
