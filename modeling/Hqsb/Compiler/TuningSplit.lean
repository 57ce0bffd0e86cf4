/-
Hqsb/Compiler/TuningSplit.lean

Tuning, validation and holdout groups (`build_split_manifest` and `split_leak_check` of
`hqsb/compiler/autotune.py`).

The groups are cut in the order of their keys, which are distinct, and the splits list their ids,
which need not be.  Leaving one id out cannot leak; the cut by shares leaks exactly if an id is on
both sides of a cut, and it has no holdout if there are no groups (`split_sound_iff`).
-/
import Hqsb.Compiler.Payload
import Hqsb.Lib.Ranking

namespace Hqsb.Compiler

open Lib List

/-! ### Shape groups -/

structure ShapeGroup where
  groupId : String
  graphFamily : String
  regime : String
  bucket : String
  dtype : String
  layout : String
  arch : String

namespace ShapeGroup

def key (g : ShapeGroup) : String :=
  String.intercalate "|" [g.graphFamily, g.regime, g.bucket, g.dtype, g.layout, g.arch]

def asDict (g : ShapeGroup) : Payload :=
  .dict [("group_id", .str g.groupId), ("graph_family", .str g.graphFamily),
    ("regime", .str g.regime), ("bucket", .str g.bucket), ("dtype", .str g.dtype),
    ("layout", .str g.layout), ("arch", .str g.arch)]

end ShapeGroup

/-! ### Splits -/

inductive Split where
  | tuning | validation | holdout
  deriving DecidableEq

def Split.name : Split → String
  | tuning => "tuning"
  | validation => "validation"
  | holdout => "holdout"

/-- The group ids of each split. -/
structure SplitManifest where
  tuning : List String
  validation : List String
  holdout : List String

def SplitManifest.ids (m : SplitManifest) : Split → List String
  | .tuning => m.tuning
  | .validation => m.validation
  | .holdout => m.holdout

def SplitManifest.asDict (m : SplitManifest) : List (String × List String) :=
  [Split.tuning, .validation, .holdout].map fun s => (s.name, m.ids s)

structure SplitReport (D : Type*) where
  strategy : String
  manifest : SplitManifest
  groups : List ShapeGroup
  hash : D

inductive SplitError where
  | unknownStrategy (strategy : String)
  | duplicateKeys
  | undeclaredHoldout

def SPLIT_STRATEGIES : List String := ["group_60_20_20", "leave_one_shape_group_out"]

/-- A fifth of the groups, and at least one. -/
def share (n : Nat) : Nat := max 1 (n / 5)

/-- The split by shares of the ids, in their order.  A slice does not begin in front of the first
id. -/
def shareOut (ids : List String) : SplitManifest :=
  let n := ids.length
  ⟨ids.take (n - share n - share n), (ids.take (n - share n)).drop (n - share n - share n),
    ids.drop (n - share n)⟩

/-- Assign whole groups to tuning, validation and holdout. -/
def buildSplitManifest {D : Type*} (sha256 : List Char → D) (groups : List ShapeGroup)
    (strategy : String := "group_60_20_20") (holdoutId : String := "") :
    Except SplitError (SplitReport D) :=
  if strategy ∉ SPLIT_STRATEGIES then .error (.unknownStrategy strategy)
  else
    let ordered := ranking ShapeGroup.key groups
    let ids := ordered.map (·.groupId)
    let hash := sha256 (Payload.canonicalJson (.list (ordered.map (·.asDict))))
    if ¬ (ordered.map (·.key)).Nodup then .error .duplicateKeys
    else if strategy = "leave_one_shape_group_out" then
      if holdoutId = "" ∨ holdoutId ∉ ids then .error .undeclaredHoldout
      else .ok ⟨strategy, ⟨ids.filter (· ≠ holdoutId), [], [holdoutId]⟩, ordered, hash⟩
    else .ok ⟨strategy, shareOut ids, ordered, hash⟩

structure LeakReport where
  overlaps : List (String × List String)
  leakFree : Bool

def splitLeakCheck (manifest : List (String × List String)) : LeakReport :=
  let overlaps := manifest.flatMap fun left => manifest.filterMap fun right =>
    if left.1 < right.1 ∧ ∃ id ∈ left.2, id ∈ right.2 then
      some (left.1 ++ "∩" ++ right.1, (left.2.dedup.filter (· ∈ right.2)).mergeSort)
    else none
  ⟨overlaps, overlaps.isEmpty⟩

/-! ### Leaks -/

def SplitManifest.Apart (m : SplitManifest) : Prop :=
  ∀ s s', s ≠ s' → (m.ids s).Disjoint (m.ids s')

theorem splitLeakCheck_leakFree_iff {manifest : List (String × List String)} :
    (splitLeakCheck manifest).leakFree = true ↔
      ∀ left ∈ manifest, ∀ right ∈ manifest, left.1 < right.1 → left.2.Disjoint right.2 := by
  show List.isEmpty _ = true ↔ _
  rw [List.isEmpty_iff, List.flatMap_eq_nil_iff]
  refine forall₂_congr fun left _ => ?_
  rw [List.filterMap_eq_nil_iff]
  refine forall₂_congr fun right _ => ?_
  rw [ite_eq_right_iff]
  constructor
  · exact fun h hlt id hleft hright => nomatch h ⟨hlt, id, hleft, hright⟩
  · rintro h ⟨hlt, id, hleft, hright⟩
    exact absurd hright (h hlt hleft)

/-- **The check** finds every shared id. -/
theorem SplitManifest.leakFree_iff (m : SplitManifest) :
    (splitLeakCheck m.asDict).leakFree = true ↔ m.Apart := by
  have hmem : ∀ s, (s.name, m.ids s) ∈ m.asDict := fun s => by
    cases s <;> simp [asDict]
  have hname : ∀ s s' : Split, s.name = s'.name → s = s' := by
    intro s s' h
    cases s <;> cases s' <;> first | rfl | exact absurd h (by decide)
  rw [splitLeakCheck_leakFree_iff]
  constructor
  · intro h s s' hne
    rcases lt_or_gt_of_ne (mt (hname s s') hne) with hlt | hgt
    · exact h _ (hmem s) _ (hmem s') hlt
    · exact disjoint_symm (h _ (hmem s') _ (hmem s) hgt)
  · intro h left hleft right hright hlt
    obtain ⟨s, -, rfl⟩ := mem_map.mp hleft
    obtain ⟨s', -, rfl⟩ := mem_map.mp hright
    exact h s s' fun heq => absurd (heq ▸ hlt) (lt_irrefl _)

theorem SplitManifest.apart_iff {m : SplitManifest} :
    m.Apart ↔ m.tuning.Disjoint (m.validation ++ m.holdout) ∧
      (m.tuning ++ m.validation).Disjoint m.holdout := by
  rw [disjoint_append_right, disjoint_append_left]
  constructor
  · intro h
    exact ⟨⟨h .tuning .validation nofun, h .tuning .holdout nofun⟩, h .tuning .holdout nofun,
      h .validation .holdout nofun⟩
  · rintro ⟨⟨htv, hth⟩, -, hvh⟩ s s' hne
    cases s <;> cases s'
    · exact absurd rfl hne
    · exact htv
    · exact hth
    · exact disjoint_symm htv
    · exact absurd rfl hne
    · exact hvh
    · exact disjoint_symm hth
    · exact disjoint_symm hvh
    · exact absurd rfl hne

theorem take_drop_cut {α : Type*} (l : List α) {a b : Nat} (hab : a ≤ b) :
    l.take a ++ (l.take b).drop a = l.take b ∧ (l.take b).drop a ++ l.drop b = l.drop a := by
  constructor
  · conv_rhs => rw [← take_append_drop a (l.take b)]
    rw [take_take, min_eq_left hab]
  · conv_rhs => rw [← take_append_drop (b - a) (l.drop a)]
    rw [drop_take, drop_drop, Nat.add_sub_cancel' hab]

/-! ### Soundness -/

structure SplitSound (groups : List ShapeGroup) (m : SplitManifest) : Prop where
  apart : m.Apart
  together : ∀ g ∈ groups, ∀ g' ∈ groups, g.groupId = g'.groupId →
    ∀ s s', g.groupId ∈ m.ids s → g'.groupId ∈ m.ids s' → s = s'
  covers : ∀ id, (∃ s, id ∈ m.ids s) ↔ ∃ g ∈ groups, g.groupId = id
  held : m.holdout ≠ []
  leakFree : (splitLeakCheck m.asDict).leakFree = true

section Manifest

variable {groups : List ShapeGroup} {m : SplitManifest}

theorem SplitManifest.exists_ids_iff {id : String} :
    (∃ s, id ∈ m.ids s) ↔ id ∈ m.tuning ++ m.validation ++ m.holdout := by
  rw [mem_append, mem_append]
  constructor
  · rintro ⟨s, hs⟩
    cases s
    · exact .inl (.inl hs)
    · exact .inl (.inr hs)
    · exact .inr hs
  · rintro ((h | h) | h)
    · exact ⟨.tuning, h⟩
    · exact ⟨.validation, h⟩
    · exact ⟨.holdout, h⟩

/-- A manifest with all ids is sound if its splits are apart and there is a holdout. -/
theorem splitSound_iff (hcovers : ∀ id, (∃ s, id ∈ m.ids s) ↔ ∃ g ∈ groups, g.groupId = id) :
    SplitSound groups m ↔ m.Apart ∧ m.holdout ≠ [] := by
  refine ⟨fun h => ⟨h.apart, h.held⟩, fun ⟨hapart, hheld⟩ => ?_⟩
  refine ⟨hapart, fun g _ g' _ hid s s' hs hs' => ?_, hcovers, hheld, m.leakFree_iff.mpr hapart⟩
  by_contra hne
  exact hapart s s' hne hs (hid ▸ hs')

end Manifest

def orderedIds (groups : List ShapeGroup) : List String :=
  (ranking ShapeGroup.key groups).map (·.groupId)

theorem mem_orderedIds {groups : List ShapeGroup} {id : String} :
    id ∈ orderedIds groups ↔ ∃ g ∈ groups, g.groupId = id := by
  rw [orderedIds, mem_map]
  exact exists_congr fun g => and_congr_left fun _ => mem_mergeSort

theorem length_orderedIds (groups : List ShapeGroup) :
    (orderedIds groups).length = groups.length := by
  rw [orderedIds, length_map]
  exact length_mergeSort _

/-- No id is on both sides of a cut. -/
def UncutIds (groups : List ShapeGroup) : Prop :=
  let n := groups.length
  ∀ c ∈ [n - share n - share n, n - share n],
    ((orderedIds groups).take c).Disjoint ((orderedIds groups).drop c)

/-- **Shares** are sound where there are groups and no id is on both sides of a cut. -/
theorem shareOut_sound_iff (groups : List ShapeGroup) :
    SplitSound groups (shareOut (orderedIds groups)) ↔ groups ≠ [] ∧ UncutIds groups := by
  have hcut := take_drop_cut (orderedIds groups)
    (Nat.sub_le (groups.length - share groups.length) (share groups.length))
  rw [shareOut, length_orderedIds]
  rw [splitSound_iff, SplitManifest.apart_iff, and_comm, UncutIds]
  · dsimp only
    simp only [forall_mem_cons, not_mem_nil, false_imp_iff, implies_true, and_true]
    rw [hcut.1, hcut.2]
    refine and_congr_left' (not_congr ?_)
    rw [drop_eq_nil_iff, length_orderedIds, ← length_eq_zero_iff, share]
    omega
  · intro id
    rw [SplitManifest.exists_ids_iff, ← mem_orderedIds]
    rw [hcut.1, take_append_drop]

/-- **Exactly when a split is sound.**  Leaving an id out always is; the cut by shares is where
there are groups, and where no id is on both sides of a cut. -/
theorem split_sound_iff {D : Type*} (sha256 : List Char → D) (groups : List ShapeGroup)
    (strategy holdoutId : String) (report : SplitReport D)
    (h : buildSplitManifest sha256 groups strategy holdoutId = .ok report) :
    SplitSound groups report.manifest ↔
      (strategy = "group_60_20_20" → groups ≠ [] ∧ UncutIds groups) := by
  rw [buildSplitManifest] at h
  dsimp only at h
  split_ifs at h with hknown hkeys hleave hdeclared
  · -- one id is left out
    subst hleave
    cases h
    obtain ⟨-, hin⟩ := not_or.mp hdeclared
    refine iff_of_true ((splitSound_iff fun id => ?_).mpr ⟨?_, cons_ne_nil _ _⟩)
      fun hgroup => absurd hgroup (by decide)
    · rw [SplitManifest.exists_ids_iff, ← mem_orderedIds]
      by_cases hid : id = holdoutId
      · subst hid
        exact iff_of_true (by simp) (not_not.mp hin)
      · simp [orderedIds, hid]
    · intro s s' hne
      cases s <;> cases s' <;> simp [SplitManifest.ids] at hne ⊢
  · cases h
    have hstrategy : strategy = "group_60_20_20" := by
      simpa [SPLIT_STRATEGIES, hleave] using hknown
    rw [imp_iff_right hstrategy]
    exact shareOut_sound_iff groups

def bucketGroup (groupId bucket : String) : ShapeGroup :=
  ⟨groupId, "family", "prefill", bucket, "fp16", "contig", "sm_86"⟩

theorem buildSplitManifest_shares {D : Type*} (sha256 : List Char → D) (groups : List ShapeGroup)
    (hkeys : (groups.map (·.key)).Nodup) : ∃ report,
      buildSplitManifest sha256 groups = .ok report ∧
        report.manifest = shareOut (orderedIds groups) := by
  have hperm : ((ranking ShapeGroup.key groups).map (·.key)).Perm (groups.map (·.key)) :=
    (mergeSort_perm _ _).map _
  rw [buildSplitManifest]
  rw [if_neg (not_not.mpr (hperm.nodup_iff.mpr hkeys))]
  exact ⟨_, rfl, rfl⟩

def fourGroups : List ShapeGroup :=
  [bucketGroup "g0" "0", bucketGroup "g1" "1", bucketGroup "g2" "2", bucketGroup "g3" "3"]

theorem split_sound_four : ∃ report,
    buildSplitManifest (fun text => text) fourGroups = .ok report ∧
    (SplitSound fourGroups report.manifest ↔
      ("group_60_20_20" = "group_60_20_20" → fourGroups ≠ [] ∧ UncutIds fourGroups)) := by
  obtain ⟨report, hreport, -⟩ := buildSplitManifest_shares (fun text => text) fourGroups (by decide)
  exact ⟨report, hreport, split_sound_iff _ _ _ _ _ hreport⟩

/-- Two buckets with one id: it is validated on and held out. -/
theorem shared_id_leaks : ∃ report, buildSplitManifest (fun text => text)
      [bucketGroup "g0" "0", bucketGroup "g0" "1"] = .ok report ∧
    report.manifest = ⟨[], ["g0"], ["g0"]⟩ ∧
    ¬ SplitSound [bucketGroup "g0" "0", bucketGroup "g0" "1"] report.manifest := by
  obtain ⟨report, hreport, hmanifest⟩ := buildSplitManifest_shares (fun text => text)
    [bucketGroup "g0" "0", bucketGroup "g0" "1"] (by decide)
  have hids : orderedIds [bucketGroup "g0" "0", bucketGroup "g0" "1"] = ["g0", "g0"] :=
    (perm_replicate (n := 2)).mp ((mergeSort_perm _ _).map _)
  rw [hids] at hmanifest
  refine ⟨report, hreport, hmanifest, fun h => ?_⟩
  have hapart := h.apart .validation .holdout nofun
  rw [hmanifest] at hapart
  exact hapart mem_cons_self mem_cons_self

end Hqsb.Compiler
