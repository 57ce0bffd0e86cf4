/-
Hqsb/Compiler/LoweringSelection.lean

What the selection of a lowering is worth.

A candidate is chosen (`Chosen`) by the policy among those that pass every filter; the selection
selects what is chosen and nothing else (`selectRow_of_chosen`, `chosen_of_selectRow`).  The
reference is known by its id, not by its execution kind, there is one id for all operations, and a
fallback is a name that nobody compares with the operation.  `selection_sound_iff` says on which
inputs the selection keeps what it promises.
-/
import Hqsb.Compiler.Lowering

namespace Hqsb.Compiler

open Lib List

variable {sort : RowSort} {registry : LoweringRegistry} {args : EvaluateArgs}

/-! ### Candidates -/

def candidates (registry : LoweringRegistry) (args : EvaluateArgs) : List LoweringEntry :=
  registry.entriesFor args.semanticOp args.schemaVersion

/-- The filters that a candidate passes. -/
structure Passes (args : EvaluateArgs) (entry : LoweringEntry) : Prop where
  capability : ∀ req ∈ entry.requirement, (req.check args.target).available = true
  artifact : entry.executionKind = .reference ∨
    args.artifactCompatible entry = true ∧ entry.artifactHash ≠ ""
  guard : args.guardEvaluator entry = true
  evidence : args.evidence.covered entry.implementationId
    ⟨args.dtype, args.shape, args.target.arch⟩
    (if entry.executionKind ≠ .reference then args.requireLevels else ["operator"]) = true

theorem eligible_iff_passes (entry : LoweringEntry) :
    (evaluateEntry args entry).eligible = true ↔ Passes args entry := by
  rw [CandidateEvaluation.eligible, CandidateEvaluation.available, evaluateEntry]
  simp only [Bool.and_eq_true, Option.all_eq_true, Option.map_eq_some_iff]
  constructor
  · rintro ⟨⟨⟨hcapability, hartifact⟩, hguard⟩, hevidence⟩
    refine ⟨fun req hreq => hcapability _ ⟨req, hreq, rfl⟩, ?_, hguard, hevidence⟩
    split_ifs at hartifact with hkind
    · exact .inl hkind
    · rw [Bool.and_eq_true, decide_eq_true_eq] at hartifact
      exact .inr hartifact
  · rintro ⟨hcapability, hartifact, hguard, hevidence⟩
    refine ⟨⟨⟨?_, ?_⟩, hguard⟩, hevidence⟩
    · rintro _ ⟨req, hreq, rfl⟩
      exact hcapability req hreq
    · split_ifs with hkind
      · rfl
      · simpa using hartifact.resolve_left hkind

def costOf (args : EvaluateArgs) (entry : LoweringEntry) : Cost :=
  (args.predictedCosts.get? entry.candidateId).getD (.num (some ⊤))

def sortKey (args : EvaluateArgs) (entry : LoweringEntry) : WithBot (WithTop ℚ) ×ₗ String :=
  toLex ((costOf args entry).value, entry.candidateId)

variable {entry : LoweringEntry} {policy : Policy} {decision : LoweringDecision}

theorem mem_candidates : entry ∈ candidates registry args ↔
      registry.entries.get? entry.candidateId = some entry ∧ entry.semanticOp = args.semanticOp ∧
        (args.schemaVersion = "" ∨ entry.schemaVersion = args.schemaVersion) := by
  rw [candidates, LoweringRegistry.entriesFor, mem_insertionSort, mem_filter,
    OrderedDict.mem_values_iff]
  simp only [Bool.and_eq_true, Bool.or_eq_true, decide_eq_true_eq]
  refine and_congr_left fun _ => ⟨?_, fun h => ⟨_, h⟩⟩
  rintro ⟨id, hid⟩
  rw [(registry.valid id entry hid).1]
  exact hid

theorem candidates_inj {a b : LoweringEntry} (ha : a ∈ candidates registry args)
    (hb : b ∈ candidates registry args) (h : a.candidateId = b.candidateId) : a = b := by
  have hget := (mem_candidates.mp ha).1
  rw [h, (mem_candidates.mp hb).1] at hget
  exact (Option.some.inj hget).symm

theorem candidate_named (h : entry ∈ candidates registry args) : entry.candidateId ≠ "" := by
  intro hid
  have hvalid := (registry.valid _ _ (mem_candidates.mp h).1).2
  rw [LoweringEntry.validate] at hvalid
  simp [hid] at hvalid

/-! ### What is chosen -/

variable (registry args)

/-- A candidate that passes and is not the one with the id of the reference. -/
def Rival (entry : LoweringEntry) : Prop :=
  entry ∈ candidates registry args ∧ Passes args entry ∧ entry.candidateId ≠ "reference"

/-- The candidate that a policy asks for: the reference by its id; the forced one; the cheapest
rival, or the reference when there is no rival. -/
def Chosen (policy : Policy) (entry : LoweringEntry) : Prop :=
  entry ∈ candidates registry args ∧ Passes args entry ∧
    match policy with
    | .reference => entry.candidateId = "reference"
    | .forced id => entry.candidateId = id
    | .autoHeuristic => ∀ rival, Rival registry args rival →
        entry.candidateId ≠ "reference" ∧ sortKey args entry ≤ sortKey args rival

/-- No cost that is compared is a NaN. -/
def Comparable : Prop :=
  ∀ entry, Rival registry args entry → costOf args entry ≠ .nan

variable {registry args}

theorem mem_eligible {row : CandidateEvaluation} :
    row ∈ ((candidates registry args).map (evaluateEntry args)).filter (·.eligible) ↔
      ∃ entry ∈ candidates registry args, Passes args entry ∧ evaluateEntry args entry = row := by
  rw [mem_filter, mem_map]
  constructor
  · rintro ⟨⟨entry, hentry, rfl⟩, hpasses⟩
    exact ⟨entry, hentry, (eligible_iff_passes entry).mp hpasses, rfl⟩
  · rintro ⟨entry, hentry, hpasses, rfl⟩
    exact ⟨⟨entry, hentry, rfl⟩, (eligible_iff_passes entry).mpr hpasses⟩

theorem mem_rivals {row : CandidateEvaluation} :
    row ∈ (((candidates registry args).map (evaluateEntry args)).filter (·.eligible)).filter
        (·.candidateId ≠ "reference") ↔
      ∃ entry, Rival registry args entry ∧ evaluateEntry args entry = row := by
  rw [mem_filter, mem_eligible]
  constructor
  · rintro ⟨⟨entry, hentry, hpasses, rfl⟩, hid⟩
    exact ⟨entry, ⟨hentry, hpasses, of_decide_eq_true hid⟩, rfl⟩
  · rintro ⟨entry, ⟨hentry, hpasses, hid⟩, rfl⟩
    exact ⟨⟨entry, hentry, hpasses, rfl⟩, decide_eq_true hid⟩

theorem any_reference_iff :
    ((((candidates registry args).map (evaluateEntry args)).filter (·.eligible)).any
        (·.candidateId = "reference")) = true ↔
      ∃ entry ∈ candidates registry args, Passes args entry ∧ entry.candidateId = "reference" := by
  rw [any_eq_true]
  constructor
  · rintro ⟨row, hrow, hid⟩
    obtain ⟨entry, hentry, hpasses, rfl⟩ := mem_eligible.mp hrow
    exact ⟨entry, hentry, hpasses, of_decide_eq_true hid⟩
  · rintro ⟨entry, hentry, hpasses, hid⟩
    exact ⟨_, mem_eligible.mpr ⟨entry, hentry, hpasses, rfl⟩, decide_eq_true hid⟩

theorem find?_row {id : String} :
    ((candidates registry args).map (evaluateEntry args)).find? (·.candidateId = id) =
      ((candidates registry args).find? (·.candidateId = id)).map (evaluateEntry args) := by
  rw [List.find?_map]
  rfl

theorem sort_rivals (hsort : SortsByKey sort) (hcomparable : Comparable registry args) :
    (sort ((((candidates registry args).map (evaluateEntry args)).filter (·.eligible)).filter
        (·.candidateId ≠ "reference")) = [] ∧ ∀ entry, ¬ Rival registry args entry) ∨
      ∃ entry rows, sort ((((candidates registry args).map (evaluateEntry args)).filter
          (·.eligible)).filter (·.candidateId ≠ "reference")) = evaluateEntry args entry :: rows ∧
        Rival registry args entry ∧
          ∀ rival, Rival registry args rival → sortKey args entry ≤ sortKey args rival := by
  have hmem : ∀ row, row ∈ sort ((((candidates registry args).map (evaluateEntry args)).filter
      (·.eligible)).filter (·.candidateId ≠ "reference")) ↔
        ∃ entry, Rival registry args entry ∧ evaluateEntry args entry = row := fun row =>
    (hsort.perm _).mem_iff.trans mem_rivals
  have hascending := hsort.ascending ((((candidates registry args).map (evaluateEntry args)).filter
      (·.eligible)).filter (·.candidateId ≠ "reference")) (by
    intro row hrow
    obtain ⟨entry, hrival, rfl⟩ := mem_rivals.mp hrow
    exact hcomparable entry hrival)
  generalize sort _ = rows at hmem hascending ⊢
  rcases rows with - | ⟨row, rows⟩
  · exact .inl ⟨rfl, fun entry hrival => nomatch (hmem _).mpr ⟨entry, hrival, rfl⟩⟩
  · obtain ⟨entry, hrival, rfl⟩ := (hmem row).mp mem_cons_self
    refine .inr ⟨entry, rows, rfl, hrival, fun rival hother => ?_⟩
    rcases mem_cons.mp ((hmem _).mpr ⟨rival, hother, rfl⟩) with heq | hrest
    · have hid : rival.candidateId = entry.candidateId :=
        congrArg CandidateEvaluation.candidateId heq
      rw [candidates_inj hother.1 hrival.1 hid]
    · exact (pairwise_cons.mp hascending).1 _ hrest

/-- **What is chosen is selected.** -/
theorem selectRow_of_chosen (hsort : SortsByKey sort)
    (hcomparable : policy = .autoHeuristic → Comparable registry args)
    (h : Chosen registry args policy entry) :
    selectRow sort args.semanticOp ((candidates registry args).map (evaluateEntry args)) policy =
      .ok ⟨entry.candidateId, false, ""⟩ := by
  obtain ⟨hentry, hpasses, hpolicy⟩ := h
  cases policy with
  | reference =>
    rw [selectRow, if_pos (any_reference_iff.mpr ⟨entry, hentry, hpasses, hpolicy⟩), hpolicy]
  | forced id =>
    have hfind : (candidates registry args).find? (·.candidateId = id) = some entry := by
      cases hfind : (candidates registry args).find? (·.candidateId = id) with
      | none => exact absurd hpolicy (by simpa using List.find?_eq_none.mp hfind entry hentry)
      | some other =>
        have hid : other.candidateId = id := by simpa using List.find?_some hfind
        rw [candidates_inj (mem_of_find?_eq_some hfind) hentry (hid.trans hpolicy.symm)]
    rw [selectRow, find?_row, hfind]
    simp only [Option.map_some]
    rw [if_pos (mem_eligible.mpr ⟨entry, hentry, hpasses, rfl⟩), hpolicy]
  | autoHeuristic =>
    rw [selectRow]
    rcases sort_rivals hsort (hcomparable rfl) with ⟨hnil, hnone⟩ | ⟨best, rows, hcons, hbest,
    hleast⟩
    · have hid : entry.candidateId = "reference" := by
        by_contra hid
        exact hnone entry ⟨hentry, hpasses, hid⟩
      rw [hnil]
      rw [if_pos (any_reference_iff.mpr ⟨entry, hentry, hpasses, hid⟩), hid]
    · rw [hcons]
      obtain ⟨hid, hle⟩ := hpolicy best hbest
      have hkey := le_antisymm hle (hleast entry ⟨hentry, hpasses, hid⟩)
      rw [show entry.candidateId = best.candidateId from congrArg (fun k => (ofLex k).2) hkey]
      rfl

/-- **What is selected is chosen.** -/
theorem chosen_of_selectRow (hsort : SortsByKey sort)
    (hcomparable : policy = .autoHeuristic → Comparable registry args) {selection : Selection}
    (h : selectRow sort args.semanticOp ((candidates registry args).map (evaluateEntry args)) policy =
      .ok selection) (hselected : selection.selected ≠ "") :
    ∃ entry, Chosen registry args policy entry ∧ entry.candidateId = selection.selected := by
  cases policy with
  | reference =>
    rw [selectRow] at h
    split_ifs at h with hany
    cases h
    obtain ⟨entry, hentry, hpasses, hid⟩ := any_reference_iff.mp hany
    exact ⟨entry, ⟨hentry, hpasses, hid⟩, hid⟩
  | forced id =>
    rw [selectRow, find?_row] at h
    cases hfind : (candidates registry args).find? (·.candidateId = id) with
    | none =>
      rw [hfind] at h
      cases h
    | some entry =>
      simp only [hfind, Option.map_some] at h
      have hid : entry.candidateId = id := by simpa using List.find?_some hfind
      split_ifs at h with hmem
      · cases h
        obtain ⟨other, hother, hpasses, heq⟩ := mem_eligible.mp hmem
        have hother' := candidates_inj hother (mem_of_find?_eq_some hfind)
          (congrArg CandidateEvaluation.candidateId heq)
        subst hother'
        exact ⟨other, ⟨hother, hpasses, hid⟩, hid⟩
      · cases h
        exact absurd rfl hselected
  | autoHeuristic =>
    rw [selectRow] at h
    rcases sort_rivals hsort (hcomparable rfl) with ⟨hnil, hnone⟩ | ⟨best, rows, hcons, hbest,
    hleast⟩
    · rw [hnil] at h
      split_ifs at h with hany
      · cases h
        obtain ⟨entry, hentry, hpasses, hid⟩ := any_reference_iff.mp hany
        exact ⟨entry, ⟨hentry, hpasses, fun rival hrival => absurd hrival (hnone rival)⟩, hid⟩
      · cases h
        exact absurd rfl hselected
    · rw [hcons] at h
      cases h
      exact ⟨best, ⟨hbest.1, hbest.2.1, fun rival hrival => ⟨hbest.2.2, hleast rival hrival⟩⟩, rfl⟩

/-! ### Decisions -/

structure Named (args : EvaluateArgs) : Prop where
  compileId : args.compileId ≠ ""
  opInstanceId : args.opInstanceId ≠ ""
  semanticOp : args.semanticOp ≠ ""
  targetId : args.target.targetId ≠ ""

def fallbackName (entry : LoweringEntry) : String :=
  if entry.fallbackId = "" then "reference" else entry.fallbackId

theorem fallbackName_ne (entry : LoweringEntry) : fallbackName entry ≠ "" := by
  rw [fallbackName]
  split_ifs with h
  · decide
  · exact h

theorem fallbackOf_candidate (h : entry ∈ candidates registry args) :
    fallbackOf registry entry.candidateId = .ok (fallbackName entry) := by
  rw [fallbackOf, if_neg (candidate_named h), LoweringRegistry.get, (mem_candidates.mp h).1]
  rfl

theorem evaluate_ok (h : evaluateCandidates sort registry args = .ok decision) :
    ∃ policy selection fallbackId, parsePolicy args.policy = .ok policy ∧
      selectRow sort args.semanticOp ((candidates registry args).map (evaluateEntry args)) policy =
        .ok selection ∧
      fallbackOf registry selection.selected = .ok fallbackId ∧
      decision = decisionOf args ((candidates registry args).map (evaluateEntry args)) selection
        fallbackId ∧ decision.validate = [] := by
  rw [evaluateCandidates] at h
  dsimp only [bind, Except.bind] at h
  cases hpolicy : parsePolicy args.policy with
  | error e =>
    rw [hpolicy] at h
    cases h
  | ok policy =>
    simp only [hpolicy] at h
    by_cases hempty : (registry.entriesFor args.semanticOp args.schemaVersion).isEmpty = true
    · rw [if_pos hempty] at h
      cases h
    rw [if_neg hempty] at h
    cases hselection : selectRow sort args.semanticOp
        ((candidates registry args).map (evaluateEntry args)) policy with
    | error e =>
      rw [candidates] at hselection
      rw [hselection] at h
      cases h
    | ok selection =>
      rw [candidates] at hselection
      simp only [hselection] at h
      cases hfallback : fallbackOf registry selection.selected with
      | error e =>
        rw [hfallback] at h
        cases h
      | ok fallbackId =>
        simp only [hfallback] at h
        refine ⟨policy, selection, fallbackId, rfl, hselection, hfallback, ?_⟩
        split at h
        next hvalid =>
          cases h
          exact ⟨rfl, hvalid⟩
        next => exact nomatch h

theorem decision_valid_iff {selection : Selection} {fallbackId : String}
    (hcandidates : candidates registry args ≠ [])
    (hfallback : selection.selected ≠ "" → fallbackId ≠ "")
    (hforced : selection.forcedUnsupported = true → selection.selected = "") :
    (decisionOf args ((candidates registry args).map (evaluateEntry args)) selection
      fallbackId).validate = [] ↔ Named args := by
  rw [LoweringDecision.validate, decisionOf]
  simp only [append_eq_nil_iff]
  constructor
  · rintro ⟨⟨⟨hnames, -⟩, -⟩, -⟩
    rw [map_eq_nil_iff, filter_eq_nil_iff] at hnames
    simp only [forall_mem_cons, decide_eq_true_eq] at hnames
    exact ⟨hnames.1, hnames.2.1, hnames.2.2.1, hnames.2.2.2.1⟩
  · rintro ⟨hcompile, hinstance, hop, htarget⟩
    refine ⟨⟨⟨?_, ?_⟩, ?_⟩, ?_⟩
    · simp [hcompile, hinstance, hop, htarget]
    · rw [if_neg]
      rintro ⟨hselected, hnone⟩
      exact hfallback hselected hnone
    · rw [if_neg]
      rintro ⟨hrefused, hselected⟩
      exact hselected (hforced hrefused)
    · rw [if_neg]
      simpa using hcandidates

section

variable (hsort : SortsByKey sort) (hpolicy : parsePolicy args.policy = .ok policy)
  (hcomparable : policy = .autoHeuristic → Comparable registry args)

include hsort hpolicy hcomparable

/-- **The decision for a chosen candidate.** -/
theorem evaluate_of_chosen (hnamed : Named args)
    (h : Chosen registry args policy entry) :
    ∃ decision, evaluateCandidates sort registry args = .ok decision ∧
      decision.selected = entry.candidateId ∧ decision.fallbackId = fallbackName entry := by
  have hselect := selectRow_of_chosen hsort hcomparable h
  have hcandidates : candidates registry args ≠ [] := ne_nil_of_mem h.1
  have hvalid : (decisionOf args ((candidates registry args).map (evaluateEntry args))
      ⟨entry.candidateId, false, ""⟩ (fallbackName entry)).validate = [] :=
    (decision_valid_iff hcandidates (fun _ => fallbackName_ne entry)
      (fun h => absurd h Bool.false_ne_true)).mpr hnamed
  refine ⟨decisionOf args ((candidates registry args).map (evaluateEntry args))
    ⟨entry.candidateId, false, ""⟩ (fallbackName entry), ?_, rfl, rfl⟩
  rw [evaluateCandidates, hpolicy]
  dsimp only [bind, Except.bind]
  have hne : (registry.entriesFor args.semanticOp args.schemaVersion).isEmpty ≠ true := by
    rw [ne_eq, List.isEmpty_iff]
    exact hcandidates
  rw [if_neg hne]
  rw [candidates] at hselect
  rw [hselect]
  dsimp only
  rw [fallbackOf_candidate h.1]
  dsimp only
  rw [candidates] at hvalid
  rw [hvalid]
  rfl

/-- **A decision is for a chosen candidate**, if for any. -/
theorem chosen_of_evaluate
    (h : evaluateCandidates sort registry args = .ok decision)
    (hselected : decision.selected ≠ "") :
    Named args ∧ ∃ entry, Chosen registry args policy entry ∧
      entry.candidateId = decision.selected ∧ decision.fallbackId = fallbackName entry := by
  obtain ⟨policy', selection, fallbackId, hpolicy', hselect, hfallback, rfl, hvalid⟩ := evaluate_ok h
  rw [hpolicy] at hpolicy'
  cases hpolicy'
  obtain ⟨entry, hchosen, hid⟩ := chosen_of_selectRow hsort hcomparable hselect hselected
  rw [← hid, fallbackOf_candidate hchosen.1] at hfallback
  cases hfallback
  have hexact := selectRow_of_chosen hsort hcomparable hchosen
  rw [hselect] at hexact
  cases hexact
  refine ⟨(decision_valid_iff (ne_nil_of_mem hchosen.1) (fun _ => fallbackName_ne entry)
    ?_).mp hvalid, entry, hchosen, rfl, rfl⟩
  intro hforced
  cases hforced

end

/-! ### Plans -/

/-- The fallback of an entry, when it is registered for the same operation and version. -/
def FallsBack (registry : LoweringRegistry) (args : EvaluateArgs) (entry : LoweringEntry) : Prop :=
  ∃ fallback, registry.entries.get? (fallbackName entry) = some fallback ∧
    fallback.semanticOp = args.semanticOp ∧ fallback.schemaVersion = entry.schemaVersion

def Reachable (registry : LoweringRegistry) (args : EvaluateArgs) (decision : LoweringDecision) :
    Prop :=
  ∃ plan entry fallback, materialize decision registry "" = .ok plan ∧
    registry.entries.get? decision.selected = some entry ∧
    registry.entries.get? plan.fallback = some fallback ∧
    plan.fallbackImplementation = fallback.implementationId ∧
    fallback.semanticOp = args.semanticOp ∧ fallback.schemaVersion = entry.schemaVersion

theorem reachable_iff (hentry : entry ∈ candidates registry args)
    (hselected : decision.selected = entry.candidateId)
    (hfallback : decision.fallbackId = fallbackName entry) :
    Reachable registry args decision ↔ FallsBack registry args entry := by
  have hget : registry.entries.get? decision.selected = some entry := by
    rw [hselected]
    exact (mem_candidates.mp hentry).1
  have hne : decision.selected ≠ "" := by
    rw [hselected]
    exact candidate_named hentry
  have hplan : materialize decision registry "" =
      match registry.entries.get? (fallbackName entry) with
      | none => .error (.unknownCandidate (fallbackName entry))
      | some fallback => .ok ⟨decision.compileId, decision.selected, fallbackName entry,
          entry.implementationId, fallback.implementationId, .materialized, entry.workspaceBytes,
          entry.streamSemantics, ""⟩ := by
    rw [materialize]
    simp only [ne_eq, not_true_eq_false, if_false, hfallback, fallbackName_ne entry,
      LoweringRegistry.get, hget, hne]
    cases registry.entries.get? (fallbackName entry) <;> rfl
  rw [Reachable, FallsBack, hplan]
  constructor
  · rintro ⟨plan, entry', fallback, hmaterialize, hentry', hplanned, -, hop, hversion⟩
    rw [hget] at hentry'
    cases hentry'
    cases hname : registry.entries.get? (fallbackName entry) with
    | none =>
      rw [hname] at hmaterialize
      cases hmaterialize
    | some found =>
      rw [hname] at hmaterialize
      cases hmaterialize
      rw [hname] at hplanned
      cases hplanned
      exact ⟨_, rfl, hop, hversion⟩
  · rintro ⟨fallback, hname, hop, hversion⟩
    rw [hname]
    exact ⟨_, entry, fallback, rfl, hget, hname, rfl, hop, hversion⟩

/-! ### What is promised -/

structure SelectionSound (sort : RowSort) (registry : LoweringRegistry) (args : EvaluateArgs) :
    Prop where
  passed : ∀ decision, evaluateCandidates sort registry args = .ok decision →
    decision.selected ≠ "" →
      ∃ entry ∈ candidates registry args, entry.candidateId = decision.selected ∧ Passes args entry
  cheapest : args.policy = "auto_heuristic" →
    ∀ decision, evaluateCandidates sort registry args = .ok decision →
      ∀ entry ∈ candidates registry args, entry.candidateId = decision.selected →
        ∀ kernel ∈ candidates registry args, Passes args kernel →
          kernel.executionKind ≠ .reference → entry.executionKind ≠ .reference ∧
            Cost.lt (costOf args kernel) (costOf args entry) = false
  reference : args.policy = "reference" →
    (∃ entry ∈ candidates registry args, Passes args entry ∧ entry.executionKind = .reference) →
      ∃ decision, evaluateCandidates sort registry args = .ok decision
  forced : ∀ id, parsePolicy args.policy = .ok (.forced id) →
    (∀ entry ∈ candidates registry args, entry.candidateId = id → ¬ Passes args entry) →
      ∀ decision, evaluateCandidates sort registry args = .ok decision → decision.selected = ""
  fallback : ∀ decision, evaluateCandidates sort registry args = .ok decision →
    decision.selected ≠ "" → Reachable registry args decision

/-- The inputs on which they are kept: a candidate that is chosen by its cost is a kernel when a
kernel passes, and no kernel with the id of the reference is cheaper; a reference that passes has
that id, and the names are given; and the fallback of what is chosen is registered for the same
operation. -/
structure Fitting (registry : LoweringRegistry) (args : EvaluateArgs) : Prop where
  kernel : args.policy = "auto_heuristic" → Named args →
    ∀ entry, Chosen registry args .autoHeuristic entry →
      ∀ kernel ∈ candidates registry args, Passes args kernel →
        kernel.executionKind ≠ .reference → entry.executionKind ≠ .reference ∧
          (kernel.candidateId = "reference" →
            Cost.lt (costOf args kernel) (costOf args entry) = false)
  reference : args.policy = "reference" →
    (∃ entry ∈ candidates registry args, Passes args entry ∧ entry.executionKind = .reference) →
      Named args ∧ ∃ entry, Chosen registry args .reference entry
  fallback : Named args → ∀ policy, parsePolicy args.policy = .ok policy →
    ∀ entry, Chosen registry args policy entry → FallsBack registry args entry

theorem policy_auto (h : parsePolicy args.policy = .ok .autoHeuristic) :
    args.policy = "auto_heuristic" := by
  rw [parsePolicy] at h
  by_cases href : args.policy = "reference"
  · rw [if_pos href] at h
    cases h
  by_cases hauto : args.policy = "auto_heuristic"
  · exact hauto
  · rw [if_neg href, if_neg hauto] at h
    split at h <;> exact nomatch h

theorem not_cheaper {kernel : LoweringEntry} (h : sortKey args entry ≤ sortKey args kernel) :
    Cost.lt (costOf args kernel) (costOf args entry) = false := by
  rw [sortKey, sortKey, Prod.Lex.toLex_le_toLex] at h
  cases hkernel : costOf args kernel with
  | nan => rfl
  | num x =>
    cases hentry : costOf args entry with
    | nan => rfl
    | num y =>
      rw [hkernel, hentry] at h
      refine decide_eq_false fun hlt => ?_
      rcases h with h | ⟨h, -⟩
      · exact absurd h (lt_asymm hlt)
      · exact absurd hlt (by rw [show y = x from h]; exact lt_irrefl x)

/-- **On which inputs a selection keeps its promises**, where costs can be compared. -/
theorem selection_sound_iff (hsort : SortsByKey sort)
    (hcomparable : args.policy = "auto_heuristic" → Comparable registry args) :
    SelectionSound sort registry args ↔ Fitting registry args := by
  have hcosts : ∀ {policy}, parsePolicy args.policy = .ok policy → policy = .autoHeuristic →
      Comparable registry args := by
    rintro policy hpolicy rfl
    exact hcomparable (policy_auto hpolicy)
  constructor
  · intro hsound
    refine ⟨fun hauto hnamed entry hchosen kernel hkernel hpasses hkind => ?_,
      fun href hex => ?_, fun hnamed policy hpolicy entry hchosen => ?_⟩
    · have hpolicy : parsePolicy args.policy = .ok .autoHeuristic := by rw [hauto]; rfl
      obtain ⟨decision, hok, hselected, -⟩ :=
        evaluate_of_chosen hsort hpolicy (hcosts hpolicy) hnamed hchosen
      obtain ⟨hentry, hcheaper⟩ := hsound.cheapest hauto decision hok entry hchosen.1 hselected.symm
        kernel hkernel hpasses hkind
      exact ⟨hentry, fun _ => hcheaper⟩
    · have hpolicy : parsePolicy args.policy = .ok .reference := by rw [href]; rfl
      obtain ⟨decision, hok⟩ := hsound.reference href hex
      have hselected : decision.selected ≠ "" := by
        obtain ⟨policy, selection, fallbackId, hpolicy', hselect, -, rfl, -⟩ := evaluate_ok hok
        rw [hpolicy] at hpolicy'
        cases hpolicy'
        rw [selectRow] at hselect
        split_ifs at hselect
        cases hselect
        show "reference" ≠ ""
        decide
      obtain ⟨hnamed, entry, hchosen, -⟩ :=
        chosen_of_evaluate hsort hpolicy (hcosts hpolicy) hok hselected
      exact ⟨hnamed, entry, hchosen⟩
    · obtain ⟨decision, hok, hselected, hfallback⟩ :=
        evaluate_of_chosen hsort hpolicy (hcosts hpolicy) hnamed hchosen
      have hne : decision.selected ≠ "" := by
        rw [hselected]
        exact candidate_named hchosen.1
      exact (reachable_iff hchosen.1 hselected hfallback).mp (hsound.fallback decision hok hne)
  · intro hfit
    refine ⟨fun decision hok hne => ?_, fun hauto decision hok entry hentry hid kernel hkernel hpasses
      hkind => ?_, fun href hex => ?_, fun id hpolicy hrefused decision hok => ?_,
      fun decision hok hne => ?_⟩
    · obtain ⟨policy, -, -, hpolicy, -⟩ := evaluate_ok hok
      obtain ⟨-, entry, hchosen, hid, -⟩ := chosen_of_evaluate hsort hpolicy (hcosts hpolicy) hok hne
      exact ⟨entry, hchosen.1, hid, hchosen.2.1⟩
    · have hpolicy : parsePolicy args.policy = .ok .autoHeuristic := by rw [hauto]; rfl
      obtain ⟨hnamed, chosen, hchosen, hchosenId, -⟩ := chosen_of_evaluate hsort hpolicy
        (hcosts hpolicy) hok (by rw [← hid]; exact candidate_named hentry)
      have hsame := candidates_inj hchosen.1 hentry (hchosenId.trans hid.symm)
      subst hsame
      obtain ⟨hkernelKind, hreference⟩ := hfit.kernel hauto hnamed chosen hchosen kernel hkernel hpasses
        hkind
      refine ⟨hkernelKind, ?_⟩
      by_cases hkernelId : kernel.candidateId = "reference"
      · exact hreference hkernelId
      · exact not_cheaper (hchosen.2.2 kernel ⟨hkernel, hpasses, hkernelId⟩).2
    · obtain ⟨hnamed, entry, hchosen⟩ := hfit.reference href hex
      have hpolicy : parsePolicy args.policy = .ok .reference := by rw [href]; rfl
      obtain ⟨decision, hok, -⟩ := evaluate_of_chosen hsort hpolicy (hcosts hpolicy) hnamed hchosen
      exact ⟨decision, hok⟩
    · by_contra hne
      obtain ⟨-, entry, hchosen, -⟩ := chosen_of_evaluate hsort hpolicy (hcosts hpolicy) hok hne
      exact hrefused entry hchosen.1 hchosen.2.2 hchosen.2.1
    · obtain ⟨policy, -, -, hpolicy, -⟩ := evaluate_ok hok
      obtain ⟨hnamed, entry, hchosen, hid, hfallback⟩ :=
        chosen_of_evaluate hsort hpolicy (hcosts hpolicy) hok hne
      exact (reachable_iff hchosen.1 hid.symm hfallback).mpr
        (hfit.fallback hnamed policy hpolicy entry hchosen)

/-! ### Two operations, one reference -/

def cudaTarget : TargetSnapshot :=
  ⟨"sm86", "cuda", "sm_86", .empty, ["fp16"], [], none, none, "1"⟩

def passingEvidence (implementationId : String) : CorrectnessEvidence :=
  ⟨"ev", "operator", implementationId, ["fp16"], ["*"], ["*"], "pass"⟩

def requestFor (semanticOp policy : String) : EvaluateArgs where
  semanticOp := semanticOp
  schemaVersion := "1.0.0"
  target := cudaTarget
  evidence := [passingEvidence "hqsb.reference.fused_add_rms_norm", passingEvidence "hqsb.cuda.kernel"]
  artifactCompatible := fun _ => true
  guardEvaluator := fun _ => true
  dtype := "fp16"
  shape := "*"
  policy := policy
  compileId := "compile"
  opInstanceId := "op"
  sourceIrId := ""
  targetedIrId := ""
  predictedCosts := .empty
  requireLevels := ["operator"]

/-- Norms have the id of the reference, and products a reference and a kernel of their own. -/
def sharedRegistry : LoweringRegistry :=
  .registered [referenceLoweringEntry "reference" "hqsb::fused_add_rms_norm" "",
    referenceLoweringEntry "matmul_reference" "hqsb::matmul" "",
    customKernelEntry "matmul_v1" "hqsb::matmul" "hqsb.cuda.kernel" "reference"]

/-- **The reference of the second operation is refused**, and its kernel falls back to the first
operation. -/
theorem second_operation_unsound :
    ¬ SelectionSound sortRows sharedRegistry (requestFor "hqsb::matmul" "reference") ∧
    ¬ SelectionSound sortRows sharedRegistry (requestFor "hqsb::matmul" "forced:matmul_v1") := by
  constructor
  · intro hsound
    obtain ⟨decision, hok⟩ := hsound.reference rfl
      ⟨referenceLoweringEntry "matmul_reference" "hqsb::matmul" "", by
        rw [mem_candidates]
        exact ⟨rfl, rfl, .inr rfl⟩, by
        rw [← eligible_iff_passes]
        decide +kernel, rfl⟩
    have hnone : (evaluateCandidates sortRows sharedRegistry
        (requestFor "hqsb::matmul" "reference")).toOption.isSome = false := by decide
    rw [hok] at hnone
    cases hnone
  · intro hsound
    have hselected : (evaluateCandidates sortRows sharedRegistry
        (requestFor "hqsb::matmul" "forced:matmul_v1")).toOption.map
          (fun decision => (decision.selected, decision.fallbackId)) =
            some ("matmul_v1", "reference") := by decide
    cases hok : evaluateCandidates sortRows sharedRegistry
        (requestFor "hqsb::matmul" "forced:matmul_v1") with
    | error e =>
      rw [hok] at hselected
      cases hselected
    | ok decision =>
      rw [hok] at hselected
      obtain ⟨hid, hfallback⟩ := Prod.mk.inj (Option.some.inj hselected)
      have hkernel : customKernelEntry "matmul_v1" "hqsb::matmul" "hqsb.cuda.kernel" "reference" ∈
          candidates sharedRegistry (requestFor "hqsb::matmul" "forced:matmul_v1") := by
        rw [mem_candidates]
        exact ⟨rfl, rfl, .inr rfl⟩
      obtain ⟨fallback, hget, hop, -⟩ := (reachable_iff hkernel hid hfallback).mp
        (hsound.fallback decision hok (by rw [show decision.selected = _ from hid]; decide))
      -- the fallback is the reference of the norms
      have hnorm : some fallback = some (referenceLoweringEntry "reference"
          "hqsb::fused_add_rms_norm" "") := hget.symm
      cases hnorm
      exact absurd hop (by decide)

def normRegistry : LoweringRegistry :=
  .registered [referenceLoweringEntry "reference" "hqsb::fused_add_rms_norm" "",
    customKernelEntry "cuda_v2" "hqsb::fused_add_rms_norm" "hqsb.cuda.kernel" "reference"]

/-- With one operation, the promises are kept. -/
theorem one_operation_sound :
    SelectionSound sortRows normRegistry (requestFor "hqsb::fused_add_rms_norm" "auto_heuristic") := by
  have hentries : ∀ entry ∈ candidates normRegistry
      (requestFor "hqsb::fused_add_rms_norm" "auto_heuristic"),
      entry = referenceLoweringEntry "reference" "hqsb::fused_add_rms_norm" "" ∨
        entry = customKernelEntry "cuda_v2" "hqsb::fused_add_rms_norm" "hqsb.cuda.kernel"
          "reference" := by
    intro entry hentry
    have hget := (mem_candidates.mp hentry).1
    rw [OrderedDict.get?_eq_some_iff] at hget
    have hlist : normRegistry.entries.entries =
        [("reference", referenceLoweringEntry "reference" "hqsb::fused_add_rms_norm" ""),
          ("cuda_v2", customKernelEntry "cuda_v2" "hqsb::fused_add_rms_norm" "hqsb.cuda.kernel"
            "reference")] := rfl
    rw [hlist] at hget
    simp only [mem_cons, Prod.mk.injEq, not_mem_nil, or_false] at hget
    exact hget.imp (·.2) (·.2)
  have hkernel : Rival normRegistry (requestFor "hqsb::fused_add_rms_norm" "auto_heuristic")
      (customKernelEntry "cuda_v2" "hqsb::fused_add_rms_norm" "hqsb.cuda.kernel" "reference") := by
    refine ⟨mem_candidates.mpr ⟨rfl, rfl, .inr rfl⟩, (eligible_iff_passes _).mp (by decide), ?_⟩
    show "cuda_v2" ≠ "reference"
    decide
  refine (selection_sound_iff sortRows_sorts fun _ entry _ => ?_).mpr ⟨fun _ _ entry hchosen kernel hk
    _ hkind => ?_, fun href => ?_, fun _ policy _ entry hchosen => ?_⟩
  · show (none : Option Cost).getD (.num (some ⊤)) ≠ .nan
    exact nofun
  · obtain ⟨hid, -⟩ := hchosen.2.2 _ hkernel
    rcases hentries kernel hk with rfl | rfl
    · exact absurd rfl hkind
    · rcases hentries entry hchosen.1 with rfl | rfl
      · exact absurd rfl hid
      · exact ⟨hkind, fun _ => rfl⟩
  · exact absurd href (by show "auto_heuristic" ≠ "reference"; decide)
  · refine ⟨referenceLoweringEntry "reference" "hqsb::fused_add_rms_norm" "", ?_, rfl, ?_⟩
    · rcases hentries entry hchosen.1 with rfl | rfl <;> rfl
    · rcases hentries entry hchosen.1 with rfl | rfl <;> rfl

end Hqsb.Compiler
