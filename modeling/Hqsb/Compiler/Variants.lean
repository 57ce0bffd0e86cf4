/-
Hqsb/Compiler/Variants.lean

Compiled variants and their guards (`Variant`, `VariantRegistry` of `hqsb/compiler/guards.py`).

A lookup goes down the variants by priority and then by id, and takes the first one of the identity
whose guards are all true and whose artifact is compatible (`scan_eq`).  What it reports otherwise is
turned around: a miss where there is a fallback, and a fallback where there is none
(`lookup_exact_iff`).
-/
import Hqsb.Lib.OrderedDict
import Hqsb.Lib.Ranking
import Hqsb.Lib.Traverse

namespace Hqsb.Compiler

open Lib List

/-! ### Guards -/

def GUARD_CATEGORIES : List String :=
  ["semantic_input", "python_control", "shape_range", "relational", "layout", "dtype_device",
    "target", "performance", "state"]

def SEMANTIC_GUARD_CATEGORIES : List String := ["semantic_input", "relational", "state"]

def PERFORMANCE_GUARD_CATEGORIES : List String := ["performance"]

/-- One guard over the inputs `ι`. -/
structure GuardSpec (ι : Type) where
  guardId : String
  category : String
  expression : String
  source : String
  evaluator : Option (ι → Bool) := none
  semanticRequired : Bool := true

/-- What is wrong with a guard or a variant, with the data of its text. -/
inductive VariantProblem where
  | unknownCategory (category : String)
  | needsExpression (guardId : String)
  | needsSource (guardId : String)
  | performanceRequired (guardId : String)
  | semanticDropped (guardId category : String)
  | missing (name : String)
  | emptyDomain (variantId : String)
  | noReason (variantId : String)

/-- A `ConfigError` of the registry. -/
inductive VariantError where
  | invalid (problems : List VariantProblem)
  | duplicate (variantId : String)
  | noEvaluator (guardId : String)

def problemsOf (checks : List (Bool × VariantProblem)) : List VariantProblem :=
  (checks.filter Prod.fst).map Prod.snd

variable {ι : Type}

namespace GuardSpec

def validate (g : GuardSpec ι) : List VariantProblem :=
  problemsOf [(g.category ∉ GUARD_CATEGORIES, .unknownCategory g.category),
    (g.expression = "", .needsExpression g.guardId),
    (g.source = "", .needsSource g.guardId),
    (g.category ∈ PERFORMANCE_GUARD_CATEGORIES ∧ g.semanticRequired, .performanceRequired g.guardId),
    (g.category ∈ SEMANTIC_GUARD_CATEGORIES ∧ ¬ g.semanticRequired,
      .semanticDropped g.guardId g.category)]

def evaluate (g : GuardSpec ι) (inputs : ι) : Except VariantError Bool :=
  match g.evaluator with
  | some evaluator => .ok (evaluator inputs)
  | none => .error (.noEvaluator g.guardId)

end GuardSpec

/-! ### Variants -/

structure Variant (ι : Type) where
  variantId : String
  semanticIdentity : String
  compileIdentity : String
  targetId : String
  artifactId : String
  guards : List (GuardSpec ι)
  priority : Int := 0
  createdReason : String := ""

/-- One row of the results. -/
structure GuardRow where
  guardId : String
  category : String
  expression : String
  outcome : Bool
  semanticRequired : Bool

structure GuardEvaluation where
  variantId : String
  results : List GuardRow
  allTrue : Bool

def GuardEvaluation.failed (e : GuardEvaluation) : List GuardRow :=
  e.results.filter fun row => !row.outcome

namespace Variant

def validate (v : Variant ι) : List VariantProblem :=
  problemsOf [(v.variantId = "", .missing "variant_id"),
    (v.semanticIdentity = "", .missing "semantic_identity"),
    (v.compileIdentity = "", .missing "compile_identity"), (v.targetId = "", .missing "target_id"),
    (v.guards.isEmpty, .emptyDomain v.variantId),
    (v.createdReason = "", .noReason v.variantId)] ++ v.guards.flatMap GuardSpec.validate

def evaluate (v : Variant ι) (inputs : ι) : Except VariantError GuardEvaluation := do
  let results ← v.guards.mapM fun guard => do
    let value ← guard.evaluate inputs
    pure (GuardRow.mk guard.guardId guard.category guard.expression value guard.semanticRequired)
  pure ⟨v.variantId, results, results.all (·.outcome)⟩

/-- The order of a lookup: by priority, the highest first, and then by id. -/
def key (v : Variant ι) : ℤ ×ₗ String := toLex (-v.priority, v.variantId)

end Variant

/-! ### The registry -/

inductive LookupOutcome where
  | hit | miss | fallback

structure LookupResult where
  outcome : LookupOutcome
  variantId : String := ""
  reason : String := ""
  failedGuards : List String := []
  considered : List String := []
  artifactCompatible : Bool := false

structure VariantRegistry (ι : Type) where
  byId : OrderedDict String (Variant ι)
  fallbackAvailable : Bool

namespace VariantRegistry

def fresh (fallbackAvailable : Bool) : VariantRegistry ι := ⟨OrderedDict.empty, fallbackAvailable⟩

def add (r : VariantRegistry ι) (v : Variant ι) : Except VariantError (VariantRegistry ι) :=
  if v.validate ≠ [] then .error (.invalid v.validate)
  else if v.variantId ∈ r.byId.keys then .error (.duplicate v.variantId)
  else .ok { r with byId := r.byId.set v.variantId v }

def variants (r : VariantRegistry ι) : List (Variant ι) := ranking Variant.key r.byId.values

def hitResult (v : Variant ι) (considered : List String) : LookupResult where
  outcome := .hit
  variantId := v.variantId
  reason := "all guards true and artifact compatible"
  considered := considered
  artifactCompatible := true

def missResult (r : VariantRegistry ι) (considered failed : List String) : LookupResult :=
  if considered ≠ [] then {
    outcome := if r.fallbackAvailable then .miss else .fallback
    reason := "no variant with all guards true; guard failures recorded (a matching graph " ++
      "hash is not a cache hit)"
    failedGuards := failed.dedup.mergeSort
    considered }
  else { outcome := .miss, reason := "no variant with this semantic identity" }

variable (r : VariantRegistry ι) (semanticIdentity : String) (inputs : ι)
  (artifactCompatible : String → Bool) (acceptGuardFalse : Bool)

/-- The loop of `lookup`.  What a hit would add to `failed` is not reported. -/
def scan : List (Variant ι) → List String → List String → Except VariantError LookupResult
  | [], considered, failed => .ok (r.missResult considered failed)
  | v :: rest, considered, failed =>
    if v.semanticIdentity ≠ semanticIdentity then scan rest considered failed
    else do
      let considered := considered ++ [v.variantId]
      let evaluation ← v.evaluate inputs
      if !evaluation.allTrue && !acceptGuardFalse then
        scan rest considered (failed ++ evaluation.failed.map (·.guardId))
      else if !artifactCompatible v.artifactId then
        scan rest considered (failed ++ [v.variantId ++ ":artifact_incompatible"])
      else pure (hitResult v considered)

def lookup : Except VariantError LookupResult :=
  r.scan semanticIdentity inputs artifactCompatible acceptGuardFalse r.variants [] []

/-- The registry after some calls of `add`; a call that raises leaves it as it is. -/
def after (fallbackAvailable : Bool) (adds : List (Variant ι)) : VariantRegistry ι :=
  adds.foldl (fun r v => (r.add v).toOption.getD r) (fresh fallbackAvailable)

end VariantRegistry

/-! ### What a lookup is for -/

namespace Variant

variable (inputs : ι) (artifactCompatible : String → Bool)

def holds (g : GuardSpec ι) : Bool := g.evaluator.any (· inputs)

def Fits (v : Variant ι) : Prop :=
  (∀ g ∈ v.guards, holds inputs g = true) ∧ artifactCompatible v.artifactId = true

instance (v : Variant ι) : Decidable (v.Fits inputs artifactCompatible) :=
  inferInstanceAs (Decidable (_ ∧ _))

/-- A reason against a variant: a guard that is false, or its artifact. -/
def Against (v : Variant ι) (reason : String) : Prop :=
  (∃ g ∈ v.guards, holds inputs g = false ∧ reason = g.guardId) ∨
    artifactCompatible v.artifactId = false ∧ reason = v.variantId ++ ":artifact_incompatible"

end Variant

/-- **An exact result** for the variants of an identity. -/
structure ExactLookup (r : VariantRegistry ι) (semanticIdentity : String) (inputs : ι)
    (artifactCompatible : String → Bool) (result : LookupResult) : Prop where
  hit : result.outcome = .hit ↔ ∃ v ∈ r.byId.values, v.semanticIdentity = semanticIdentity ∧
    v.Fits inputs artifactCompatible
  best : result.outcome = .hit → ∃ v ∈ r.byId.values, v.semanticIdentity = semanticIdentity ∧
    v.Fits inputs artifactCompatible ∧ result.variantId = v.variantId ∧
    ∀ u ∈ r.byId.values, u.semanticIdentity = semanticIdentity →
      u.Fits inputs artifactCompatible →
        u.priority < v.priority ∨ u.priority = v.priority ∧ v.variantId ≤ u.variantId
  noId : result.outcome ≠ .hit → result.variantId = ""
  considered : result.outcome ≠ .hit → ∀ id, id ∈ result.considered ↔
    ∃ v ∈ r.byId.values, v.semanticIdentity = semanticIdentity ∧ v.variantId = id
  reasons : result.outcome ≠ .hit → ∀ v ∈ r.byId.values, v.semanticIdentity = semanticIdentity →
    ∃ reason ∈ result.failedGuards, v.Against inputs artifactCompatible reason
  fallback : result.outcome = .fallback → r.fallbackAvailable = true

/-! ### One variant -/

section Lookup

variable {r : VariantRegistry ι} {v : Variant ι} {semanticIdentity : String} {inputs : ι}
  {artifactCompatible : String → Bool}

def rowOf (inputs : ι) (g : GuardSpec ι) : GuardRow :=
  ⟨g.guardId, g.category, g.expression, Variant.holds inputs g, g.semanticRequired⟩

theorem Variant.evaluate_eq (h : ∀ g ∈ v.guards, g.evaluator.isSome = true) :
    v.evaluate inputs = .ok ⟨v.variantId, v.guards.map (rowOf inputs),
      v.guards.all (Variant.holds inputs)⟩ := by
  have hrows : (v.guards.mapM fun guard => do
      let value ← guard.evaluate inputs
      pure (GuardRow.mk guard.guardId guard.category guard.expression value
        guard.semanticRequired) : Except VariantError _) = .ok (v.guards.map (rowOf inputs)) := by
    refine mapM_eq_ok fun g hg => ?_
    obtain ⟨evaluator, he⟩ := Option.isSome_iff_exists.mp (h g hg)
    rw [GuardSpec.evaluate, rowOf, Variant.holds, he]
    rfl
  rw [Variant.evaluate, hrows]
  show Except.ok (GuardEvaluation.mk _ _ ((v.guards.map (rowOf inputs)).all _)) = _
  rw [all_map]
  rfl

/-- The reasons that the loop notes against a variant. -/
def noted (inputs : ι) (v : Variant ι) : List String :=
  if v.guards.all (Variant.holds inputs) then [v.variantId ++ ":artifact_incompatible"]
  else (v.guards.filter fun g => !Variant.holds inputs g).map (·.guardId)

theorem exists_noted (h : ¬ v.Fits inputs artifactCompatible) :
    ∃ reason ∈ noted inputs v, v.Against inputs artifactCompatible reason := by
  rw [noted]
  split_ifs with hall
  · refine ⟨_, mem_singleton_self _, .inr ⟨?_, rfl⟩⟩
    exact Bool.eq_false_iff.mpr fun hcompatible => h ⟨all_eq_true.mp hall, hcompatible⟩
  · obtain ⟨g, hg, hfalse⟩ := all_eq_false.mp (Bool.eq_false_iff.mpr hall)
    have hfalse := Bool.eq_false_iff.mpr hfalse
    exact ⟨g.guardId, mem_map_of_mem (mem_filter.mpr ⟨hg, by rw [hfalse]; rfl⟩),
      .inl ⟨g, hg, hfalse, rfl⟩⟩

/-! ### The loop -/

/-- **The loop of a lookup** takes the first variant that fits. -/
theorem scan_eq {l : List (Variant ι)} (h : ∀ v ∈ l, ∀ g ∈ v.guards, g.evaluator.isSome = true)
    (considered failed : List String) :
    r.scan semanticIdentity inputs artifactCompatible false l considered failed =
      let same := l.filter (·.semanticIdentity = semanticIdentity)
      .ok (match same.find? (·.Fits inputs artifactCompatible) with
        | some v => VariantRegistry.hitResult v (considered ++
            (same.takeWhile fun v => ¬ v.Fits inputs artifactCompatible).map (·.variantId) ++
              [v.variantId])
        | none => r.missResult (considered ++ same.map (·.variantId))
            (failed ++ same.flatMap (noted inputs))) := by
  induction l generalizing considered failed with
  | nil => simp [VariantRegistry.scan]
  | cons v l ih =>
    have ih := ih fun u hu => h u (.tail _ hu)
    rw [VariantRegistry.scan]
    by_cases hid : v.semanticIdentity = semanticIdentity
    · rw [if_neg (not_not.mpr hid), Variant.evaluate_eq (h v mem_cons_self)]
      show (if _ then _ else if _ then _ else _) = _
      have hsame : (v :: l).filter (fun u => decide (u.semanticIdentity = semanticIdentity)) =
          v :: l.filter fun u => decide (u.semanticIdentity = semanticIdentity) :=
        filter_cons_of_pos (decide_eq_true hid)
      rw [hsame]
      by_cases hall : v.guards.all (Variant.holds inputs) = true
      · rw [if_neg (by simp [hall])]
        by_cases hcompatible : artifactCompatible v.artifactId = true
        · have hfits : v.Fits inputs artifactCompatible := ⟨all_eq_true.mp hall, hcompatible⟩
          rw [if_neg (by simp [hcompatible])]
          simp [hfits, pure, Except.pure]
        · have hfits : ¬ v.Fits inputs artifactCompatible := fun hfits => hcompatible hfits.2
          rw [if_pos (by simp [hcompatible]), ih]
          simp [hfits, noted, hall]
      · have hfits : ¬ v.Fits inputs artifactCompatible :=
          fun hfits => hall (all_eq_true.mpr hfits.1)
        rw [if_pos (by simp [hall]), ih]
        have hfailed : (GuardEvaluation.failed ⟨v.variantId, v.guards.map (rowOf inputs),
            v.guards.all (Variant.holds inputs)⟩).map (·.guardId) = noted inputs v := by
          rw [GuardEvaluation.failed, noted, if_neg hall, filter_map, map_map]
          rfl
        simp [hfits, hfailed]
    · rw [if_pos hid, ih, filter_cons_of_neg (by simpa using hid)]

/-! ### The registry -/

def VariantRegistry.Keyed (r : VariantRegistry ι) : Prop :=
  ∀ id v, r.byId.get? id = some v → v.variantId = id

theorem VariantRegistry.Keyed.add (h : r.Keyed) (v : Variant ι) {r' : VariantRegistry ι}
    (hadd : r.add v = .ok r') : r'.Keyed ∧ r'.fallbackAvailable = r.fallbackAvailable := by
  rw [VariantRegistry.add] at hadd
  split_ifs at hadd
  cases hadd
  refine ⟨fun id u hu => ?_, rfl⟩
  rw [OrderedDict.get?_set] at hu
  split_ifs at hu with hid
  · exact Option.some.inj hu ▸ hid.symm
  · exact h id u hu

theorem VariantRegistry.keyed_after (fallbackAvailable : Bool) (adds : List (Variant ι)) :
    (after fallbackAvailable adds).Keyed ∧
      (after fallbackAvailable adds).fallbackAvailable = fallbackAvailable := by
  refine foldlRecOn (motive := fun r : VariantRegistry ι => r.Keyed ∧
    r.fallbackAvailable = fallbackAvailable) adds _ ⟨nofun, rfl⟩ fun r hr v _ => ?_
  rcases hadd : r.add v with e | r'
  · exact hr
  · exact ⟨(hr.1.add v hadd).1, (hr.1.add v hadd).2.trans hr.2⟩

theorem VariantRegistry.Keyed.ranks (h : r.Keyed) : Ranks Variant.key r.byId.values r.variants := by
  refine ranks_ranking (Nodup.of_map (fun k : ℤ ×ₗ String => (ofLex k).2) ?_)
  have hids : r.byId.values.map (·.variantId) = r.byId.keys := by
    rw [OrderedDict.values, map_map]
    refine map_congr_left fun e he => h e.1 e.2 ((OrderedDict.get?_eq_some_iff _).mpr he)
  rw [map_map]
  exact hids ▸ r.byId.nodup_keys

/-- The variants of an identity, in the order of a lookup. -/
def VariantRegistry.same (r : VariantRegistry ι) (semanticIdentity : String) : List (Variant ι) :=
  r.variants.filter (·.semanticIdentity = semanticIdentity)

theorem VariantRegistry.Keyed.mem_same (h : r.Keyed) :
    v ∈ r.same semanticIdentity ↔ v ∈ r.byId.values ∧ v.semanticIdentity = semanticIdentity := by
  rw [VariantRegistry.same, mem_filter, h.ranks.perm.mem_iff, decide_eq_true_eq]

/-- The first variant that fits comes before every other one that does. -/
theorem VariantRegistry.Keyed.first (h : r.Keyed)
    (hfind : (r.same semanticIdentity).find? (·.Fits inputs artifactCompatible) = some v)
    {u : Variant ι} (hu : u ∈ r.same semanticIdentity) (hfits : u.Fits inputs artifactCompatible) :
    u.priority < v.priority ∨ u.priority = v.priority ∧ v.variantId ≤ u.variantId := by
  obtain ⟨-, before, later, hsplit, hbefore⟩ := find?_eq_some_iff_append.mp hfind
  have hle : v.key ≤ u.key := by
    rw [hsplit, mem_append, mem_cons] at hu
    rcases hu with hu | rfl | hu
    · simpa [hfits] using hbefore u hu
    · exact le_rfl
    · have hsorted := h.ranks.increasing.filter (·.semanticIdentity = semanticIdentity)
      rw [show r.variants.filter _ = before ++ v :: later from hsplit] at hsorted
      exact (rel_of_pairwise_cons (pairwise_append.mp hsorted).2.1 hu).le
  rcases Prod.Lex.le_iff.mp hle with hlt | ⟨heq, hid⟩
  · exact .inl (Int.neg_lt_neg_iff.mp hlt)
  · exact .inr ⟨(neg_inj.mp heq).symm, hid⟩

/-! ### What a lookup returns -/

theorem VariantRegistry.Keyed.lookup_eq (h : r.Keyed)
    (hguards : ∀ v ∈ r.byId.values, ∀ g ∈ v.guards, g.evaluator.isSome = true) :
    r.lookup semanticIdentity inputs artifactCompatible false =
      .ok (match (r.same semanticIdentity).find? (·.Fits inputs artifactCompatible) with
        | some v => VariantRegistry.hitResult v
            (((r.same semanticIdentity).takeWhile fun v =>
              ¬ v.Fits inputs artifactCompatible).map (·.variantId) ++ [v.variantId])
        | none => r.missResult ((r.same semanticIdentity).map (·.variantId))
            ((r.same semanticIdentity).flatMap (noted inputs))) :=
  scan_eq (fun v hv => hguards v (h.ranks.perm.mem_iff.mp hv)) [] []

theorem VariantRegistry.Keyed.exact_hit (h : r.Keyed)
    (hfind : (r.same semanticIdentity).find? (·.Fits inputs artifactCompatible) = some v)
    (considered : List String) : ExactLookup r semanticIdentity inputs artifactCompatible
      (VariantRegistry.hitResult v considered) := by
  obtain ⟨hv, hid⟩ := h.mem_same.mp (mem_of_find?_eq_some hfind)
  have hfits : v.Fits inputs artifactCompatible := by simpa using find?_some hfind
  exact {
    hit := ⟨fun _ => ⟨v, hv, hid, hfits⟩, fun _ => rfl⟩
    best := fun _ => ⟨v, hv, hid, hfits, rfl, fun u hu hsame hu' =>
      h.first hfind (h.mem_same.mpr ⟨hu, hsame⟩) hu'⟩
    noId := fun hmiss => absurd rfl hmiss
    considered := fun hmiss => absurd rfl hmiss
    reasons := fun hmiss => absurd rfl hmiss
    fallback := nofun }

/-- Without a hit, and with what was considered, only the fallback is left to be right. -/
theorem VariantRegistry.Keyed.exactLookup_iff (h : r.Keyed) {result : LookupResult}
    (hnone : ∀ u ∈ r.same semanticIdentity, ¬ u.Fits inputs artifactCompatible)
    (hmiss : result.outcome ≠ .hit) (hnoId : result.variantId = "")
    (hconsidered : result.considered = (r.same semanticIdentity).map (·.variantId))
    (hreasons : ∀ u ∈ r.same semanticIdentity, ∃ reason ∈ result.failedGuards,
      u.Against inputs artifactCompatible reason) :
    ExactLookup r semanticIdentity inputs artifactCompatible result ↔
      (result.outcome = .fallback → r.fallbackAvailable = true) := by
  refine ⟨ExactLookup.fallback, fun hfallback => ?_⟩
  exact {
    hit := ⟨fun hhit => absurd hhit hmiss, fun ⟨u, hu, hid, hfits⟩ =>
      absurd hfits (hnone u (h.mem_same.mpr ⟨hu, hid⟩))⟩
    best := fun hhit => absurd hhit hmiss
    noId := fun _ => hnoId
    considered := fun _ id => by simp only [hconsidered, mem_map, h.mem_same, and_assoc]
    reasons := fun _ u hu hid => hreasons u (h.mem_same.mpr ⟨hu, hid⟩)
    fallback := hfallback }

/-- **What is reported without a hit** is exact where the registry has a fallback, or has no
variant of the identity. -/
theorem VariantRegistry.Keyed.exact_miss_iff (h : r.Keyed)
    (hfind : (r.same semanticIdentity).find? (·.Fits inputs artifactCompatible) = none) :
    ExactLookup r semanticIdentity inputs artifactCompatible
        (r.missResult ((r.same semanticIdentity).map (·.variantId))
          ((r.same semanticIdentity).flatMap (noted inputs))) ↔
      r.fallbackAvailable = true ∨ r.same semanticIdentity = [] := by
  have hnone : ∀ u ∈ r.same semanticIdentity, ¬ u.Fits inputs artifactCompatible := fun u hu =>
    of_decide_eq_false (Bool.eq_false_iff.mpr (find?_eq_none.mp hfind u hu))
  by_cases hsame : r.same semanticIdentity = []
  · rw [h.exactLookup_iff hnone] <;> simp [VariantRegistry.missResult, hsame]
  rw [VariantRegistry.missResult, if_pos (by simpa using hsame), h.exactLookup_iff hnone ?_ rfl rfl]
  · cases r.fallbackAvailable <;> simp [hsame]
  · intro u hu
    obtain ⟨reason, hnoted, hagainst⟩ := exists_noted (hnone u hu)
    exact ⟨reason, mem_mergeSort.mpr (mem_dedup.mpr (mem_flatMap.mpr ⟨u, hu, hnoted⟩)), hagainst⟩
  · cases r.fallbackAvailable <;> nofun

/-- **When a lookup is exact**: unless variants of the identity are there, none of them fits and
the registry has no fallback. -/
theorem lookup_exact_iff (fallbackAvailable : Bool) (adds : List (Variant ι))
    (semanticIdentity : String) (inputs : ι) (artifactCompatible : String → Bool)
    (h : ∀ v ∈ (VariantRegistry.after fallbackAvailable adds).byId.values, ∀ g ∈ v.guards,
      g.evaluator.isSome = true) :
    (∃ result, (VariantRegistry.after fallbackAvailable adds).lookup semanticIdentity inputs
        artifactCompatible false = .ok result ∧
      ExactLookup (VariantRegistry.after fallbackAvailable adds) semanticIdentity inputs
        artifactCompatible result) ↔
      fallbackAvailable = true ∨
      (∀ v ∈ (VariantRegistry.after fallbackAvailable adds).byId.values,
        v.semanticIdentity ≠ semanticIdentity) ∨
      ∃ v ∈ (VariantRegistry.after fallbackAvailable adds).byId.values,
        v.semanticIdentity = semanticIdentity ∧ v.Fits inputs artifactCompatible := by
  obtain ⟨hkeyed, hfallback⟩ := VariantRegistry.keyed_after fallbackAvailable adds
  generalize VariantRegistry.after fallbackAvailable adds = r at *
  subst hfallback
  rw [hkeyed.lookup_eq h]
  rcases hfind : (r.same semanticIdentity).find? (·.Fits inputs artifactCompatible) with - | v
  · rw [hfind]
    simp only [Except.ok.injEq, exists_eq_left', hkeyed.exact_miss_iff hfind]
    refine or_congr_right ⟨fun hnil => .inl fun v hv hid => ?_, fun hnone => ?_⟩
    · exact absurd (hkeyed.mem_same.mpr ⟨hv, hid⟩) (hnil ▸ not_mem_nil)
    · refine eq_nil_iff_forall_not_mem.mpr fun v hv => ?_
      rcases hnone with hnone | ⟨u, hu, hid, hfits⟩
      · exact hnone v (hkeyed.mem_same.mp hv).1 (hkeyed.mem_same.mp hv).2
      · have hnot := find?_eq_none.mp hfind u (hkeyed.mem_same.mpr ⟨hu, hid⟩)
        exact hnot (decide_eq_true hfits)
  · obtain ⟨hv, hid⟩ := hkeyed.mem_same.mp (mem_of_find?_eq_some hfind)
    rw [hfind]
    exact iff_of_true ⟨_, rfl, hkeyed.exact_hit hfind _⟩
      (.inr (.inr ⟨v, hv, hid, by simpa using find?_some hfind⟩))

end Lookup

def smallVariant : Variant ℕ where
  variantId := "v_small"
  semanticIdentity := "rmsnorm.v1"
  compileIdentity := "compile_small"
  targetId := "orin"
  artifactId := "artifact"
  guards := [{
    guardId := "small_rows"
    category := "shape_range"
    expression := "1 <= rows <= 8"
    source := "bounded policy"
    evaluator := some fun rows => 1 ≤ rows && rows ≤ 8
    semanticRequired := false }]
  createdReason := "manual bounded shape bucket"

theorem lookup_exact_small :
    ∃ result, (VariantRegistry.after false [smallVariant]).lookup "rmsnorm.v1" 4 (fun _ => true)
        false = .ok result ∧
      ExactLookup (VariantRegistry.after false [smallVariant]) "rmsnorm.v1" 4 (fun _ => true)
        result :=
  (lookup_exact_iff false [smallVariant] "rmsnorm.v1" 4 (fun _ => true) (by decide)).mpr
    (.inr (.inr ⟨smallVariant, mem_singleton_self _, rfl, by decide, rfl⟩))

/-- **Nine rows fall back, where there is no fallback.** -/
theorem fallback_not_available :
    ¬ ∃ result, (VariantRegistry.after false [smallVariant]).lookup "rmsnorm.v1" 9 (fun _ => true)
        false = .ok result ∧
      ExactLookup (VariantRegistry.after false [smallVariant]) "rmsnorm.v1" 9 (fun _ => true)
        result := by
  rintro ⟨result, hlookup, hexact⟩
  have hvariants : (VariantRegistry.after false [smallVariant]).variants = [smallVariant] :=
    mergeSort_singleton _
  rw [VariantRegistry.lookup, hvariants] at hlookup
  cases hlookup
  cases hexact.fallback rfl

end Hqsb.Compiler
