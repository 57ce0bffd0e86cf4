/-
Hqsb/Distributed/Overlap.lean

Communication-computation overlap from interval sets (`hqsb/distributed/overlap.py`).

The measures are taken of the points a list of half-open intervals covers: what the sweep of
`merge_intervals` keeps covers the same points without touching, so the lengths add up to a
cardinality, and the two-pointer loop over two such lists counts the points of the intersection.
-/
import Mathlib

namespace Hqsb.Overlap

open List hiding Disjoint

/-! ### Interval algebra -/

/-- A half-open interval of one clock: `__post_init__` refuses a negative duration. -/
structure Interval where
  startNs : ℤ
  endNs : ℤ
  kind : String := ""
  label : String := ""
  rank : ℤ := -1
  stream : String := ""
  ordered : startNs ≤ endNs

namespace Interval

variable (x : Interval)

def durationNs : ℤ := x.endNs - x.startNs

/-- The key of `sorted`. -/
def key : ℤ ×ₗ ℤ := toLex (x.startNs, x.endNs)

/-- The points of the interval. -/
noncomputable def cover : Finset ℤ := Finset.Ico x.startNs x.endNs

/-- `last` with an item merged into it. -/
def absorb (last item : Interval) : Interval :=
  { last with
    endNs := max last.endNs item.endNs
    ordered := last.ordered.trans (le_max_left _ _) }

end Interval

/-- The loop of `merge_intervals`, from the last interval merged so far. -/
def sweep (last : Interval) : List Interval → List Interval
  | [] => [last]
  | item :: rest =>
    if item.startNs ≤ last.endNs then sweep (last.absorb item) rest
    else last :: sweep item rest

def mergeIntervals (intervals : List Interval) : List Interval :=
  match intervals.mergeSort fun a b => a.key ≤ b.key with
  | [] => []
  | first :: rest => sweep first rest

def unionMeasureNs (intervals : List Interval) : ℤ :=
  ((mergeIntervals intervals).map Interval.durationNs).sum

/-- The loop of `intersection_measure_ns`: of the two intervals the pointers are at, the one that
ends first is left behind. -/
def twoPointers (total : ℤ) : List Interval → List Interval → ℤ
  | a :: left, b :: right =>
    let start := max a.startNs b.startNs
    let stop := min a.endNs b.endNs
    let total := if start < stop then total + (stop - start) else total
    if a.endNs < b.endNs then twoPointers total left (b :: right)
    else twoPointers total (a :: left) right
  | _, _ => total
termination_by left right => left.length + right.length

def intersectionMeasureNs (left right : List Interval) : ℤ :=
  twoPointers 0 (mergeIntervals left) (mergeIntervals right)

def wallCoveredNs (left right : List Interval) : ℤ := unionMeasureNs (left ++ right)

/-! ### Metrics -/

structure OverlapMetrics where
  computeActiveMs : ℚ
  commActiveMs : ℚ
  overlapMs : ℚ
  exposedCommMs : ℚ
  overlapFractionComm : Option ℚ
  netGainMs : Option ℚ
  clockUncertaintyMs : ℚ := 0
  wallCoveredMs : ℚ := 0

/-- A `ConfigError` with its message and the field it names. -/
structure ConfigError where
  message : String
  field : String

def OverlapMetrics.postInit (m : OverlapMetrics) : Except ConfigError OverlapMetrics := do
  for (name, value) in [("compute_active_ms", m.computeActiveMs),
      ("comm_active_ms", m.commActiveMs), ("overlap_ms", m.overlapMs),
      ("exposed_comm_ms", m.exposedCommMs)] do
    if value < 0 then throw ⟨name ++ " must be >= 0", name⟩
  if m.overlapMs > min m.computeActiveMs m.commActiveMs + 1 / 10 ^ 6 then
    throw ⟨"overlap cannot exceed min(compute_active, comm_active)", "overlap_ms"⟩
  return m

def overlapMetricsFromIntervals (compute comm : List Interval)
    (noOverlapTotalMs overlapTotalMs : Option ℚ) (clockUncertaintyMs : ℚ) :
    Except ConfigError OverlapMetrics :=
  let computeNs : ℚ := unionMeasureNs compute
  let commNs : ℚ := unionMeasureNs comm
  let overlapNs : ℚ := intersectionMeasureNs compute comm
  let exposedNs := commNs - overlapNs
  OverlapMetrics.postInit {
    computeActiveMs := computeNs / 10 ^ 6
    commActiveMs := commNs / 10 ^ 6
    overlapMs := overlapNs / 10 ^ 6
    exposedCommMs := exposedNs / 10 ^ 6
    overlapFractionComm := if commNs ≠ 0 then some (overlapNs / commNs) else none
    netGainMs := do
      let without ← noOverlapTotalMs
      let total ← overlapTotalMs
      return without - total
    clockUncertaintyMs
    wallCoveredMs := wallCoveredNs compute comm / 10 ^ 6 }

/-! ### Points -/

noncomputable def points : List Interval → Finset ℤ
  | [] => ∅
  | x :: xs => x.cover ∪ points xs

/-- Each interval ends before the later ones start, so that no two share a point or an end. -/
def Separate (xs : List Interval) : Prop := xs.Pairwise fun a b => a.endNs < b.startNs

variable {a b x last item : Interval} {xs ys rest left right : List Interval} {t : ℤ}

theorem points_cons (x : Interval) (xs : List Interval) :
    points (x :: xs) = x.cover ∪ points xs := rfl

theorem mem_points : t ∈ points xs ↔ ∃ x ∈ xs, t ∈ x.cover := by
  induction xs with
  | nil => simp [points]
  | cons x xs ih => simp [points, ih]

theorem points_perm (h : xs.Perm ys) : points xs = points ys := by
  ext t
  rw [mem_points, mem_points]
  exact exists_congr fun x => and_congr_left fun _ => h.mem_iff

theorem points_append : points (xs ++ ys) = points xs ∪ points ys := by
  induction xs with
  | nil => rw [nil_append, points, Finset.empty_union]
  | cons x xs ih => rw [cons_append, points, points, ih, Finset.union_assoc]

theorem Separate.beyond (h : Separate (a :: xs)) (ht : t ∈ points xs) : a.endNs < t := by
  obtain ⟨b, hb, ht⟩ := mem_points.mp ht
  exact (rel_of_pairwise_cons h hb).trans_le (Finset.mem_Ico.mp ht).1

/-- An interval that ends no later than the first one covers no point of the later ones. -/
theorem Separate.disjoint (h : Separate (a :: xs)) (hle : b.endNs ≤ a.endNs) :
    Disjoint b.cover (points xs) := by
  apply Finset.disjoint_left.mpr
  intro t hb ht
  have hlt := (Finset.mem_Ico.mp hb).2
  have hbeyond := h.beyond ht
  omega

theorem card_cover : (x.cover.card : ℤ) = x.durationNs := by
  rw [Interval.cover, Int.card_Ico]
  exact Int.toNat_of_nonneg (sub_nonneg.mpr x.ordered)

/-- **Lengths of separate intervals add up to the number of points.** -/
theorem Separate.sum_durations (h : Separate xs) :
    (xs.map Interval.durationNs).sum = (points xs).card := by
  induction xs with
  | nil => rfl
  | cons x xs ih =>
    rw [map_cons, sum_cons, ih h.of_cons, points,
      Finset.card_union_of_disjoint (h.disjoint le_rfl), Nat.cast_add, card_cover]

/-! ### The sweep -/

def Ascends (xs : List Interval) : Prop := xs.Pairwise fun a b => a.startNs ≤ b.startNs

theorem Ascends.absorb (h : Ascends (last :: item :: rest)) : Ascends (last.absorb item :: rest) :=
  pairwise_cons.mpr ⟨fun _ hb => rel_of_pairwise_cons h (.tail _ hb), h.of_cons.of_cons⟩

theorem start_le_of_mem_sweep (h : Ascends (last :: rest)) (hx : x ∈ sweep last rest) :
    last.startNs ≤ x.startNs := by
  induction rest generalizing last with
  | nil => exact (mem_singleton.mp hx ▸ le_rfl)
  | cons item rest ih =>
    rw [sweep] at hx
    split at hx
    · show (last.absorb item).startNs ≤ x.startNs
      exact ih h.absorb hx
    · rcases mem_cons.mp hx with rfl | hx
      · exact le_rfl
      · exact (rel_of_pairwise_cons h mem_cons_self).trans (ih h.of_cons hx)

theorem separate_sweep (h : Ascends (last :: rest)) : Separate (sweep last rest) := by
  induction rest generalizing last with
  | nil => exact pairwise_singleton _ _
  | cons item rest ih =>
    rw [sweep]
    split
    · exact ih h.absorb
    · -- a gap: everything that follows starts where `item` does or later
      have hgap : last.endNs < item.startNs := by omega
      exact pairwise_cons.mpr
        ⟨fun x hx => hgap.trans_le (start_le_of_mem_sweep h.of_cons hx), ih h.of_cons⟩

theorem cover_absorb (hle : last.startNs ≤ item.startNs) (htouch : item.startNs ≤ last.endNs) :
    (last.absorb item).cover = last.cover ∪ item.cover := by
  rw [Interval.cover, Interval.cover, Interval.cover,
    Finset.Ico_union_Ico' htouch (hle.trans item.ordered), min_eq_left hle]
  rfl

theorem points_sweep (h : Ascends (last :: rest)) :
    points (sweep last rest) = points (last :: rest) := by
  induction rest generalizing last with
  | nil => rfl
  | cons item rest ih =>
    rw [sweep]
    split
    · next htouch =>
      rw [ih h.absorb, points, cover_absorb (rel_of_pairwise_cons h mem_cons_self) htouch,
        Finset.union_assoc]
      rfl
    · rw [points, ih h.of_cons]
      rfl

theorem ascends_sorted (xs : List Interval) : Ascends (xs.mergeSort fun a b => a.key ≤ b.key) := by
  have hsorted : (xs.mergeSort fun a b => a.key ≤ b.key).Pairwise
      fun a b => decide (a.key ≤ b.key) = true := pairwise_mergeSort
    (fun a b c hab hbc => decide_eq_true ((of_decide_eq_true hab).trans (of_decide_eq_true hbc)))
    (fun a b => by simpa using le_total a.key b.key) xs
  refine hsorted.imp fun {a b} hab => ?_
  rcases Prod.Lex.le_iff.mp (of_decide_eq_true hab) with hlt | ⟨heq, -⟩
  · exact hlt.le
  · exact heq.le

/-- **The merged list is separate and covers the same points.** -/
theorem mergeIntervals_spec (xs : List Interval) :
    Separate (mergeIntervals xs) ∧ points (mergeIntervals xs) = points xs := by
  have hperm := mergeSort_perm xs fun a b => a.key ≤ b.key
  have hsorted := ascends_sorted xs
  rw [← points_perm hperm, mergeIntervals]
  split
  · next hnil => exact ⟨Pairwise.nil, by rw [hnil]⟩
  · next first rest hcons =>
    rw [hcons] at hsorted ⊢
    exact ⟨separate_sweep hsorted, points_sweep hsorted⟩

theorem unionMeasureNs_eq (xs : List Interval) : unionMeasureNs xs = (points xs).card := by
  rw [unionMeasureNs, (mergeIntervals_spec xs).1.sum_durations, (mergeIntervals_spec xs).2]

/-! ### The two pointers -/

theorem card_head_inter {A B P Q : Finset ℤ} (hP : Disjoint A P) (hQ : Disjoint A Q) :
    ((A ∪ P) ∩ (B ∪ Q)).card = (A ∩ B).card + (P ∩ (B ∪ Q)).card := by
  have hhead : A ∩ (B ∪ Q) = A ∩ B := by
    rw [Finset.inter_union_distrib_left, Finset.disjoint_iff_inter_eq_empty.mp hQ,
      Finset.union_empty]
  rw [Finset.union_inter_distrib_right, hhead, Finset.card_union_of_disjoint]
  exact hP.mono Finset.inter_subset_left Finset.inter_subset_left

theorem card_heads (total : ℤ) (a b : Interval) :
    (if max a.startNs b.startNs < min a.endNs b.endNs
      then total + (min a.endNs b.endNs - max a.startNs b.startNs) else total) =
      total + (a.cover ∩ b.cover).card := by
  rw [Interval.cover, Interval.cover, Finset.Ico_inter_Ico, Int.card_Ico]
  split
  · next hlt => rw [Int.toNat_of_nonneg (sub_nonneg.mpr hlt.le)]
  · next hle => rw [Int.toNat_of_nonpos (sub_nonpos.mpr (not_lt.mp hle)), Nat.cast_zero, add_zero]

/-- **The loop counts the points both lists cover.** -/
theorem twoPointers_eq (total : ℤ) (hleft : Separate left) (hright : Separate right) :
    twoPointers total left right = total + (points left ∩ points right).card := by
  fun_induction twoPointers total left right with
  | case1 total a left b right start stop total' hlt ih =>
    -- `a` ends first, so it meets no interval after `b`
    rw [ih hleft.of_cons hright, points_cons a, points_cons b,
      card_head_inter (hleft.disjoint le_rfl) (hright.disjoint hlt.le), Nat.cast_add, ← add_assoc]
    exact congrArg (· + _) (card_heads total a b)
  | case2 total a left b right start stop total' hge ih =>
    rw [ih hleft hright.of_cons, Finset.inter_comm (points (a :: left)), points_cons a,
      Finset.inter_comm (a.cover ∪ points left), points_cons b,
      card_head_inter (hright.disjoint le_rfl) (hleft.disjoint (not_lt.mp hge)), Nat.cast_add,
      ← add_assoc, Finset.inter_comm b.cover]
    exact congrArg (· + _) (card_heads total a b)
  | case3 total left right hne =>
    rcases left with - | ⟨a, left⟩
    · rw [points, Finset.empty_inter, Finset.card_empty, Nat.cast_zero, add_zero]
    · rcases right with - | ⟨b, right⟩
      · rw [points.eq_1, Finset.inter_empty, Finset.card_empty, Nat.cast_zero, add_zero]
      · exact absurd rfl (hne a left b right rfl)

theorem intersectionMeasureNs_eq (left right : List Interval) :
    intersectionMeasureNs left right = (points left ∩ points right).card := by
  obtain ⟨hleft, hl⟩ := mergeIntervals_spec left
  obtain ⟨hright, hr⟩ := mergeIntervals_spec right
  rw [intersectionMeasureNs, twoPointers_eq 0 hleft hright, hl, hr, zero_add]

theorem wallCoveredNs_eq (left right : List Interval) : wallCoveredNs left right =
      unionMeasureNs left + unionMeasureNs right - intersectionMeasureNs left right := by
  have hcard := Finset.card_union_add_card_inter (points left) (points right)
  rw [wallCoveredNs, unionMeasureNs_eq, unionMeasureNs_eq, unionMeasureNs_eq,
    intersectionMeasureNs_eq, points_append]
  omega

/-! ### The metrics are consistent -/

theorem OverlapMetrics.postInit_ok {m : OverlapMetrics} (hcompute : 0 ≤ m.computeActiveMs)
    (hcomm : 0 ≤ m.commActiveMs) (hoverlap : 0 ≤ m.overlapMs) (hexposed : 0 ≤ m.exposedCommMs)
    (hle : m.overlapMs ≤ min m.computeActiveMs m.commActiveMs) : m.postInit = .ok m := by
  have hslack : ¬ m.overlapMs > min m.computeActiveMs m.commActiveMs + 1 / 10 ^ 6 := by
    linarith
  simp only [postInit, forIn_cons, not_lt.mpr hcompute, not_lt.mpr hcomm,
    not_lt.mpr hoverlap, not_lt.mpr hexposed, hslack]
  rfl

/-- **The metrics are never refused.** -/
theorem overlapMetrics_ok (compute comm : List Interval)
    (noOverlapTotalMs overlapTotalMs : Option ℚ) (clockUncertaintyMs : ℚ) :
    ∃ metrics, overlapMetricsFromIntervals compute comm noOverlapTotalMs overlapTotalMs
        clockUncertaintyMs = .ok metrics ∧
      metrics.exposedCommMs = metrics.commActiveMs - metrics.overlapMs ∧
      0 ≤ metrics.exposedCommMs := by
  have hcompute : intersectionMeasureNs compute comm ≤ unionMeasureNs compute := by
    rw [intersectionMeasureNs_eq, unionMeasureNs_eq]
    exact_mod_cast Finset.card_le_card Finset.inter_subset_left
  have hcomm : intersectionMeasureNs compute comm ≤ unionMeasureNs comm := by
    rw [intersectionMeasureNs_eq, unionMeasureNs_eq]
    exact_mod_cast Finset.card_le_card Finset.inter_subset_right
  have hpos : 0 ≤ intersectionMeasureNs compute comm := by
    rw [intersectionMeasureNs_eq]
    exact Int.natCast_nonneg _
  -- the same inequalities in milliseconds
  have hcompute' : (intersectionMeasureNs compute comm : ℚ) ≤ unionMeasureNs compute := by
    exact_mod_cast hcompute
  have hcomm' : (intersectionMeasureNs compute comm : ℚ) ≤ unionMeasureNs comm := by
    exact_mod_cast hcomm
  have hpos' : (0 : ℚ) ≤ intersectionMeasureNs compute comm := by exact_mod_cast hpos
  have hexposed := div_nonneg (sub_nonneg.mpr hcomm') (by norm_num : (0 : ℚ) ≤ 10 ^ 6)
  exact ⟨_, OverlapMetrics.postInit_ok (div_nonneg (hpos'.trans hcompute') (by norm_num))
    (div_nonneg (hpos'.trans hcomm') (by norm_num)) (div_nonneg hpos' (by norm_num)) hexposed
    (le_min (div_le_div_of_nonneg_right hcompute' (by norm_num))
      (div_le_div_of_nonneg_right hcomm' (by norm_num))), sub_div _ _ _, hexposed⟩

/-- **Interval algebra of the overlap metrics.** -/
theorem interval_algebra (left right : List Interval)
    (noOverlapTotalMs overlapTotalMs : Option ℚ) (clockUncertaintyMs : ℚ) :
    (mergeIntervals left).Pairwise (fun a b : Interval =>
        a.startNs ≤ b.startNs ∧ Disjoint a.cover b.cover ∧ a.endNs < b.startNs) ∧
      points (mergeIntervals left) = points left ∧
      unionMeasureNs left = (points left).card ∧
      intersectionMeasureNs left right = (points left ∩ points right).card ∧
      wallCoveredNs left right =
        unionMeasureNs left + unionMeasureNs right - intersectionMeasureNs left right ∧
      ∃ metrics, overlapMetricsFromIntervals left right noOverlapTotalMs overlapTotalMs
          clockUncertaintyMs = .ok metrics ∧
        metrics.exposedCommMs = metrics.commActiveMs - metrics.overlapMs ∧
        0 ≤ metrics.exposedCommMs := by
  obtain ⟨hseparate, hpoints⟩ := mergeIntervals_spec left
  refine ⟨hseparate.imp fun {a b} hlt => ⟨a.ordered.trans hlt.le, ?_, hlt⟩, hpoints,
    unionMeasureNs_eq left, intersectionMeasureNs_eq left right, wallCoveredNs_eq left right,
    overlapMetrics_ok left right noOverlapTotalMs overlapTotalMs clockUncertaintyMs⟩
  apply Finset.disjoint_left.mpr
  intro t ha hb
  exact absurd (hlt.trans_le (Finset.mem_Ico.mp hb).1) (Finset.mem_Ico.mp ha).2.not_gt

end Hqsb.Overlap
