/-
Hqsb/Distributed/PlanAudit.lean

What a validated plan promises.

Validation is total exactly for the plans whose names the census has and whose first sharded
shard of each parameter names an axis that is there (`validate_ok_iff`), and it finds nothing
exactly for the plans of `Accepts` (`validate_eq_nil_iff`).  The ranges of a parameter are laid
end to end whatever their axes are, and replicated shards are not looked at, so that an
accepted plan need not be uniform (`validate_sound_iff`).
-/
import Hqsb.Distributed.ParallelPlan

namespace Hqsb.Distributed

open Lib Lib.Tiling Lib.Buckets List OrderedDict

/-! ### Ranges -/

/-- **The audit of ranges** is clean exactly when they lie end to end. -/
theorem foldl_auditRange_iff (param : String) (ranges : List (Int × Int)) (cursor size : Int)
    (audit : RangeAudit) :
    (ranges.foldl (auditRange param) (cursor, audit)).2 = {} ∧
        (ranges.foldl (auditRange param) (cursor, audit)).1 = size ↔
      audit = {} ∧ Laid cursor ranges size := by
  induction ranges generalizing cursor audit with
  | nil => exact Iff.rfl
  | cons range rest ih =>
    rw [foldl_cons, auditRange, ih, Laid]
    obtain ⟨overlaps, gaps⟩ := audit
    simp only [RangeAudit.mk.injEq, append_eq_nil_iff]
    rcases lt_trichotomy range.1 cursor with hlt | heq | hgt
    · rw [if_pos hlt]
      exact iff_of_false (fun h => cons_ne_nil _ _ h.1.1.2) fun h => hlt.ne h.2.1
    · rw [if_neg (heq ▸ lt_irrefl _), if_neg (heq ▸ lt_irrefl _)]
      tauto
    · rw [if_pos hgt]
      exact iff_of_false (fun h => cons_ne_nil _ _ h.1.2.2) fun h => hgt.ne' h.2.1

theorem auditParam_cons {globalShape : List Int} {audit : RangeAudit} {param : String}
    {first : ShardSpec} {rest : List ShardSpec} (haxis : first.shardAxis ≠ .none) :
    auditParam globalShape audit (param, first :: rest) =
      match globalShape[first.shardAxis.index]? with
      | none => .error .indexError
      | some size =>
        let s := (sortedRanges (first :: rest)).foldl (auditRange param) (0, audit)
        .ok { s.2 with gaps := s.2.gaps ++ if s.1 ≠ size then [(param, s.1, size)] else [] } := by
  exact if_neg haxis

theorem sortedItems_bucket {specs : List ShardSpec} {param : String} (hne : specs ≠ [])
    (hparam : ∀ spec ∈ specs, spec.paramName = param) :
    sortedItems (bucket ShardSpec.paramName specs) = [(param, specs)] := by
  obtain ⟨first, hfirst⟩ := exists_mem_of_ne_nil specs hne
  have hmem : ∀ name, name ∈ (bucket ShardSpec.paramName specs).keys ↔ name = param := by
    intro name
    rw [mem_keys_bucket]
    constructor
    · rintro ⟨spec, hspec, rfl⟩
      exact hparam spec hspec
    · rintro rfl
      exact ⟨first, hfirst, hparam first hfirst⟩
  have hkeys : (bucket ShardSpec.paramName specs).keys = [param] := by
    refine perm_singleton.mp ((perm_ext_iff_of_nodup (nodup_keys _)
      (nodup_singleton param)).mpr fun name => ?_)
    rw [hmem, mem_singleton]
  obtain ⟨entry, hentries, hentry⟩ := map_eq_singleton_iff.mp hkeys
  have hget : (bucket ShardSpec.paramName specs).get? param = some entry.2 := by
    rw [get?_eq_some_iff, hentries, ← hentry]
    exact mem_singleton_self entry
  have hvalue : ((bucket ShardSpec.paramName specs).get? param).getD [] =
      specs.filter fun spec => spec.paramName = param := getD_get?_bucket _ specs param
  rw [hget, Option.getD_some, filter_eq_self.mpr fun spec hspec =>
    decide_eq_true (hparam spec hspec)] at hvalue
  rw [sortedItems, hentries, mergeSort_singleton, ← hentry, ← hvalue]

/-! ### Checks -/

namespace ParallelPlan

variable (plan : ParallelPlan) (census : QwenArchitectureCensus)

def sharded (paramName : String) : List ShardSpec :=
  (plan.parameterShards.filter fun spec => spec.shardAxis ≠ .none).filter fun spec =>
    spec.paramName = paramName

/-- Every name is known, and the first sharded shard of a parameter has an axis of its shape. -/
structure Readable : Prop where
  names : ∀ spec ∈ plan.parameterShards, spec.paramName ∈ census.parameterShapes.keys
  axes : ∀ name shape first rest, census.parameterShapes.get? name = some shape →
    plan.sharded name = first :: rest → first.shardAxis.index < shape.length

/-- A plan with nothing to complain about. -/
structure Accepts : Prop where
  degree : 1 ≤ plan.tpDegree
  rankCount : (plan.orderedRanks.length : Int) = plan.tpDegree
  ranks : plan.orderedRanks.Nodup
  fallback : plan.fallbackPolicy = "reject"
  predicate : plan.unsupportedPredicate ≠ ""
  covered : ∀ name ∈ census.parameterShapes.keys, ∃ spec ∈ plan.parameterShards,
    spec.paramName = name
  shapes : ∀ spec ∈ plan.parameterShards,
    census.parameterShapes.get? spec.paramName = some spec.globalShape
  laid : ∀ name first rest, plan.sharded name = first :: rest → ∃ size,
    first.globalShape[first.shardAxis.index]? = some size ∧
      Laid 0 (sortedRanges (first :: rest)) size

/-- The shards of a parameter are all replicated, or all on one axis. -/
def Uniform : Prop :=
  ∀ name ∈ census.parameterShapes.keys, (∀ spec ∈ plan.shardsFor name, spec.shardAxis = .none) ∨
    ∃ axis, axis ≠ .none ∧ ∀ spec ∈ plan.shardsFor name, spec.shardAxis = axis

/-- Every parameter is replicated, or cut along one axis with every index in one shard. -/
def Sound : Prop :=
  ∀ name shape, census.parameterShapes.get? name = some shape → plan.shardsFor name ≠ [] ∧
    ((∀ spec ∈ plan.shardsFor name, spec.shardAxis = .none) ∨
      ∃ axis size, axis ≠ ShardAxis.none ∧ shape[axis.index]? = some size ∧
        (∀ spec ∈ plan.shardsFor name, spec.shardAxis = axis) ∧
        ∀ i : Int, 0 ≤ i → i < size →
          (plan.shardsFor name).countP (fun spec => spec.start ≤ i ∧ i < spec.stop) = 1)

variable {plan census} {name : String} {spec : ShardSpec}

theorem mem_sharded : spec ∈ plan.sharded name ↔
      spec ∈ plan.parameterShards ∧ spec.shardAxis ≠ .none ∧ spec.paramName = name := by
  rw [sharded, mem_filter, mem_filter]
  simp only [decide_eq_true_eq, and_assoc]

theorem mem_shardsFor :
    spec ∈ plan.shardsFor name ↔ spec ∈ plan.parameterShards ∧ spec.paramName = name := by
  rw [shardsFor, mem_filter]
  rw [decide_eq_true_eq]

/-- The groups that are audited. -/
theorem mem_shardedByParam {specs : List ShardSpec} :
    (name, specs) ∈ sortedItems plan.shardedByParam ↔
      specs ≠ [] ∧ plan.sharded name = specs := by
  have hvalue : (plan.shardedByParam.get? name).getD [] = plan.sharded name :=
    getD_get?_bucket _ _ name
  rw [sortedItems, (mergeSort_perm _ _).mem_iff, ← get?_eq_some_iff]
  constructor
  · intro hget
    obtain ⟨spec, hspec, hname⟩ := (mem_keys_bucket _ _ _).mp (mem_keys_of_get? hget)
    rw [hget, Option.getD_some] at hvalue
    refine ⟨?_, hvalue.symm⟩
    rw [hvalue]
    exact ne_nil_of_mem (mem_filter.mpr ⟨hspec, decide_eq_true hname⟩)
  · rintro ⟨hne, rfl⟩
    obtain ⟨spec, hspec⟩ := exists_mem_of_ne_nil _ hne
    have hkey : name ∈ plan.shardedByParam.keys := by
      obtain ⟨hspec, hname⟩ := mem_filter.mp hspec
      exact (mem_keys_bucket _ _ _).mpr ⟨spec, hspec, of_decide_eq_true hname⟩
    obtain ⟨specs, hget⟩ := (mem_keys_iff _).mp hkey
    rw [hget, Option.getD_some] at hvalue
    rw [hget, hvalue]

/-- The audit of a group reads one axis, and is clean exactly when the ranges lie end to end. -/
theorem rangeProblems_of_sharded {first : ShardSpec} {rest : List ShardSpec}
    (h : plan.sharded name = first :: rest) {shape : List Int}
    (hshape : census.parameterShapes.get? name = some shape) :
    match shape[first.shardAxis.index]? with
    | none => rangeProblems census (name, first :: rest) = .error .indexError
    | some size => ∃ problems, rangeProblems census (name, first :: rest) = .ok problems ∧
        (problems = [] ↔ Laid 0 (sortedRanges (first :: rest)) size) := by
  have hall : ∀ spec ∈ first :: rest, spec.shardAxis ≠ .none ∧ spec.paramName = name := by
    intro spec hspec
    rw [← h] at hspec
    exact (mem_sharded.mp hspec).2
  have hverify : verifyShardRanges (first :: rest) shape =
      auditParam shape {} (name, first :: rest) := by
    rw [verifyShardRanges, sortedItems_bucket (cons_ne_nil _ _) fun spec hspec =>
      (hall spec hspec).2]
    exact bind_pure _
  have hproblems : rangeProblems census (name, first :: rest) =
      (auditParam shape {} (name, first :: rest) >>= fun audit =>
        pure ((audit.overlaps ++ audit.gaps).map (.range name))) := by
    rw [rangeProblems, hshape]
    dsimp only
    rw [hverify]
  rw [auditParam_cons (hall first mem_cons_self).1] at hproblems
  generalize shape[first.shardAxis.index]? = axis at *
  rcases axis with - | size
  · exact hproblems
  refine ⟨_, hproblems, ?_⟩
  have haudit := foldl_auditRange_iff name (sortedRanges (first :: rest)) 0 size {}
  generalize (sortedRanges (first :: rest)).foldl (auditRange name) (0, {}) = s at *
  obtain ⟨cursor, overlaps, gaps⟩ := s
  rw [map_eq_nil_iff]
  refine Iff.trans ?_ (haudit.trans (and_iff_right rfl))
  simp only [append_eq_nil_iff, RangeAudit.mk.injEq]
  by_cases hcursor : cursor = size
  · rw [if_neg (not_not.mpr hcursor)]
    tauto
  · rw [if_pos hcursor]
    exact iff_of_false (fun h => cons_ne_nil _ _ h.2.2) fun h => hcursor h.2

/-! ### Totality -/

theorem shapeProblem_of_get? {shape : List Int}
    (h : census.parameterShapes.get? spec.paramName = some shape) :
    shapeProblem census spec =
      .ok (if spec.globalShape ≠ shape then [.shape spec.paramName spec.globalShape shape]
        else []) := by
  rw [shapeProblem, h]

/-- The checks that can raise. -/
theorem validate_eq_ok_iff {problems : List PlanProblem} :
    plan.validate (some census) = .ok problems ↔ ∃ shapes ranges,
      plan.parameterShards.mapM (shapeProblem census) = .ok shapes ∧
      (sortedItems plan.shardedByParam).mapM (rangeProblems census) = .ok ranges ∧
      plan.ownProblems ++ plan.nameProblems census ++ shapes.flatten ++ ranges.flatten =
        problems := by
  constructor
  · intro h
    obtain ⟨shapes, hshapes, h⟩ := bind_ok_iff.mp h
    obtain ⟨ranges, hranges, h⟩ := bind_ok_iff.mp h
    exact ⟨shapes, ranges, hshapes, hranges, Except.ok.inj h⟩
  · rintro ⟨shapes, ranges, hshapes, hranges, rfl⟩
    exact (bind_of_ok hshapes _).trans (bind_of_ok hranges _)

theorem get?_of_known
    (hnames : ∀ spec ∈ plan.parameterShards, spec.paramName ∈ census.parameterShapes.keys)
    {first : ShardSpec} {rest : List ShardSpec} (h : plan.sharded name = first :: rest) :
    ∃ shape, census.parameterShapes.get? name = some shape := by
  have hfirst : first ∈ plan.sharded name := h ▸ .head _
  obtain ⟨hmem, -, hname⟩ := mem_sharded.mp hfirst
  exact (mem_keys_iff _).mp (hname ▸ hnames first hmem)

/-- **Validation is total** exactly for the readable plans. -/
theorem validate_ok_iff :
    (∃ problems, plan.validate (some census) = .ok problems) ↔ plan.Readable census := by
  constructor
  · rintro ⟨problems, h⟩
    obtain ⟨shapes, ranges, hshapes, hranges, -⟩ := validate_eq_ok_iff.mp h
    constructor
    · intro spec hspec
      by_contra hunknown
      obtain ⟨found, hfound⟩ := exists_of_mapM_ok hshapes hspec
      rw [shapeProblem, (get?_eq_none_iff _).mpr hunknown] at hfound
      cases hfound
    · intro name shape first rest hshape hsharded
      have hmem : (name, first :: rest) ∈ sortedItems plan.shardedByParam :=
        mem_shardedByParam.mpr ⟨cons_ne_nil _ _, hsharded⟩
      obtain ⟨found, hfound⟩ := exists_of_mapM_ok hranges hmem
      have haudit := rangeProblems_of_sharded hsharded hshape
      by_contra hout
      rw [List.getElem?_eq_none (not_lt.mp hout), hfound] at haudit
      cases haudit
  · rintro ⟨hnames, haxes⟩
    have hshapes : ∀ spec ∈ plan.parameterShards,
        ∃ found, shapeProblem census spec = .ok found := by
      intro spec hspec
      obtain ⟨shape, hshape⟩ := (mem_keys_iff _).mp (hnames spec hspec)
      exact ⟨_, shapeProblem_of_get? hshape⟩
    have hranges : ∀ entry ∈ sortedItems plan.shardedByParam,
        ∃ found, rangeProblems census entry = .ok found := by
      rintro ⟨name, specs⟩ hentry
      obtain ⟨hne, hsharded⟩ := mem_shardedByParam.mp hentry
      rcases specs with - | ⟨first, rest⟩
      · exact absurd rfl hne
      obtain ⟨shape, hshape⟩ := get?_of_known hnames hsharded
      have haudit := rangeProblems_of_sharded hsharded hshape
      rw [List.getElem?_eq_getElem (haxes name shape first rest hshape hsharded)] at haudit
      obtain ⟨found, hfound, -⟩ := haudit
      exact ⟨found, hfound⟩
    obtain ⟨shapes, hshapes⟩ := exists_mapM_eq_ok hshapes
    obtain ⟨ranges, hranges⟩ := exists_mapM_eq_ok hranges
    exact ⟨_, validate_eq_ok_iff.mpr ⟨shapes, ranges, hshapes, hranges, rfl⟩⟩

/-! ### Nothing to complain about -/

theorem ite_singleton_eq_nil {α : Type} {p : Prop} [Decidable p] {a : α} :
    (if p then [a] else []) = [] ↔ ¬ p := by
  by_cases h : p
  · rw [if_pos h]
    exact iff_of_false (cons_ne_nil _ _) (not_not.mpr h)
  · rw [if_neg h]
    exact iff_of_true rfl h

theorem ownProblems_eq_nil_iff : plan.ownProblems = [] ↔
    1 ≤ plan.tpDegree ∧ (plan.orderedRanks.length : Int) = plan.tpDegree ∧
      plan.orderedRanks.Nodup ∧ plan.fallbackPolicy = "reject" ∧
      plan.unsupportedPredicate ≠ "" := by
  have hdedup : plan.orderedRanks.dedup.length = plan.orderedRanks.length ↔
      plan.orderedRanks.Nodup := by
    rw [← dedup_eq_self]
    exact ⟨fun h => (dedup_sublist _).eq_of_length h, fun h => congrArg List.length h⟩
  simp only [ownProblems, append_eq_nil_iff, ite_singleton_eq_nil, not_lt, not_not, hdedup,
    and_assoc]

theorem nameProblems_eq_nil_iff (hnames : ∀ spec ∈ plan.parameterShards,
    spec.paramName ∈ census.parameterShapes.keys) : plan.nameProblems census = [] ↔
    ∀ name ∈ census.parameterShapes.keys, ∃ spec ∈ plan.parameterShards,
      spec.paramName = name := by
  have hsorted : ∀ names : List String, (names.mergeSort fun a b => a ≤ b) = [] ↔ names = [] := by
    intro names
    exact ⟨fun h => List.Perm.eq_nil (h ▸ (mergeSort_perm names _).symm), fun h => by
      rw [h, mergeSort_nil]⟩
  simp only [nameProblems, append_eq_nil_iff, ite_singleton_eq_nil, not_not, hsorted,
    filter_eq_nil_iff, decide_eq_true_eq, mem_map, mem_dedup]
  constructor
  · exact fun h name hname => h.1 name hname
  · intro h
    refine ⟨h, ?_⟩
    rintro name ⟨spec, hspec, rfl⟩
    exact hnames spec hspec

/-- **Validation finds nothing** exactly when the plan is accepted. -/
theorem validate_eq_nil_iff : plan.validate (some census) = .ok [] ↔ plan.Accepts census := by
  constructor
  · intro h
    obtain ⟨hnames, haxes⟩ := validate_ok_iff.mp ⟨_, h⟩
    obtain ⟨shapes, ranges, hshapes, hranges, hnil⟩ := validate_eq_ok_iff.mp h
    simp only [append_eq_nil_iff] at hnil
    obtain ⟨⟨⟨hown, hname⟩, hshape⟩, hrange⟩ := hnil
    obtain ⟨hdegree, hcount, hranks, hfallback, hpredicate⟩ := ownProblems_eq_nil_iff.mp hown
    have hclean := mapM_flatten_eq_nil_iff.mp ⟨shapes, hshapes, hshape⟩
    have hequal : ∀ spec ∈ plan.parameterShards,
        census.parameterShapes.get? spec.paramName = some spec.globalShape := by
      intro spec hspec
      obtain ⟨shape, hget⟩ := (mem_keys_iff _).mp (hnames spec hspec)
      have hspec := hclean spec hspec
      rw [shapeProblem_of_get? hget] at hspec
      rw [hget, not_not.mp (ite_singleton_eq_nil.mp (Except.ok.inj hspec))]
    refine ⟨hdegree, hcount, hranks, hfallback, hpredicate,
      (nameProblems_eq_nil_iff hnames).mp hname, hequal, ?_⟩
    intro name first rest hsharded
    obtain ⟨hfirst, -, rfl⟩ := mem_sharded.mp (hsharded ▸ mem_cons_self)
    have haudit := rangeProblems_of_sharded hsharded (hequal first hfirst)
    rw [List.getElem?_eq_getElem (haxes _ _ first rest (hequal first hfirst) hsharded)] at haudit ⊢
    obtain ⟨found, hfound, hlaid⟩ := haudit
    have hmem := mem_shardedByParam.mpr ⟨cons_ne_nil first rest, hsharded⟩
    have hnone := mapM_flatten_eq_nil_iff.mp ⟨ranges, hranges, hrange⟩ _ hmem
    exact ⟨_, rfl, hlaid.mp (Except.ok.inj (hfound.symm.trans hnone))⟩
  · intro h
    have hnames : ∀ spec ∈ plan.parameterShards, spec.paramName ∈ census.parameterShapes.keys :=
      fun spec hspec => mem_keys_of_get? (h.shapes spec hspec)
    have hshapes : ∀ spec ∈ plan.parameterShards, shapeProblem census spec = .ok [] := by
      intro spec hspec
      rw [shapeProblem_of_get? (h.shapes spec hspec), if_neg (not_not.mpr rfl)]
    have hranges : ∀ entry ∈ sortedItems plan.shardedByParam,
        rangeProblems census entry = .ok [] := by
      rintro ⟨name, specs⟩ hentry
      obtain ⟨hne, hsharded⟩ := mem_shardedByParam.mp hentry
      rcases specs with - | ⟨first, rest⟩
      · exact absurd rfl hne
      obtain ⟨hfirst, -, rfl⟩ := mem_sharded.mp (hsharded ▸ mem_cons_self)
      obtain ⟨size, hsize, hlaid⟩ := h.laid _ first rest hsharded
      have haudit := rangeProblems_of_sharded hsharded (h.shapes first hfirst)
      rw [hsize] at haudit
      obtain ⟨found, hfound, hiff⟩ := haudit
      rw [hfound, hiff.mpr hlaid]
    obtain ⟨shapes, hshapes, hshape⟩ := mapM_flatten_eq_nil_iff.mpr hshapes
    obtain ⟨ranges, hranges, hrange⟩ := mapM_flatten_eq_nil_iff.mpr hranges
    have hown := ownProblems_eq_nil_iff.mpr
      ⟨h.degree, h.rankCount, h.ranks, h.fallback, h.predicate⟩
    refine validate_eq_ok_iff.mpr ⟨shapes, ranges, hshapes, hranges, ?_⟩
    rw [hown, (nameProblems_eq_nil_iff hnames).mpr h.covered, hshape, hrange]
    rfl

/-! ### Soundness -/

theorem sharded_eq_shardsFor {axis : ShardAxis} (haxis : axis ≠ .none)
    (h : ∀ spec ∈ plan.shardsFor name, spec.shardAxis = axis) :
    plan.sharded name = plan.shardsFor name := by
  rw [sharded, filter_comm]
  refine filter_eq_self.mpr fun spec hspec => decide_eq_true ?_
  rw [h spec hspec]
  exact haxis

/-- **Accepted and uniform plans** are sound. -/
theorem Accepts.sound (h : plan.Accepts census) (huniform : plan.Uniform census) :
    plan.Sound census := by
  intro name shape hshape
  have hkey := mem_keys_of_get? hshape
  obtain ⟨spec, hspec, hname⟩ := h.covered name hkey
  have hmem : spec ∈ plan.shardsFor name := mem_shardsFor.mpr ⟨hspec, hname⟩
  refine ⟨ne_nil_of_mem hmem, ?_⟩
  rcases huniform name hkey with hnone | ⟨axis, haxis, hall⟩
  · exact .inl hnone
  right
  have hsharded := sharded_eq_shardsFor haxis hall
  rcases hlist : plan.shardsFor name with - | ⟨first, rest⟩
  · rw [hlist] at hmem
    cases hmem
  rw [hlist] at hsharded hall
  obtain ⟨size, hsize, hlaid⟩ := h.laid name first rest hsharded
  have hfirst := mem_shardsFor.mp (hlist ▸ .head _ : first ∈ plan.shardsFor name)
  have hglobal := h.shapes first hfirst.1
  rw [hfirst.2, hshape] at hglobal
  rw [← Option.some.inj hglobal, hall first mem_cons_self] at hsize
  refine ⟨axis, size, haxis, hsize, hall, fun i hle hlt => ?_⟩
  have hcount := hlaid.countP_inRange i
  rw [if_pos ⟨hle, hlt⟩, sortedRanges, (mergeSort_perm _ _).countP_eq, countP_map]
    at hcount
  exact hcount

/-- **Validation** is total and sound for exactly the readable plans that are uniform if they are
accepted. -/
theorem validate_sound_iff (plan : ParallelPlan) (census : QwenArchitectureCensus) :
    ((∃ problems, plan.validate (some census) = .ok problems) ∧
        (plan.validate (some census) = .ok [] → plan.Sound census)) ↔
      plan.Readable census ∧ (plan.Accepts census → plan.Uniform census) := by
  rw [validate_ok_iff, validate_eq_nil_iff]
  refine and_congr_right fun _ => ⟨fun h haccepts name hkey => ?_, fun h haccepts =>
    haccepts.sound (h haccepts)⟩
  obtain ⟨shape, hshape⟩ := (mem_keys_iff _).mp hkey
  rcases (h haccepts name shape hshape).2 with hnone | ⟨axis, size, haxis, -, hall, -⟩
  · exact .inl hnone
  · exact .inr ⟨axis, haxis, hall⟩

/-! ### Two plans -/

def tinyCensus : QwenArchitectureCensus where
  numLayers := 1
  hiddenSize := 4
  intermediateSize := 4
  numAttentionHeads := 2
  numKvHeads := 2
  headDim := 2
  vocabSize := 4
  numLayers_pos := by decide
  hiddenSize_pos := by decide
  intermediateSize_pos := by decide
  numAttentionHeads_pos := by decide
  numKvHeads_pos := by decide
  headDim_pos := by decide
  vocabSize_pos := by decide
  grouped := by decide

/-- A shard that every rank holds. -/
def wholeShard (name : String) (shape : List Int) : ShardSpec where
  paramName := name
  globalShape := shape
  shardAxis := .none
  shardIndex := 0
  shardCount := 1
  start := 0
  stop := 0
  padding := 0
  replicated := true
  count_pos := by decide
  index_mem := by decide
  replicated_of_none := fun _ => rfl
  axis_lt := fun h => absurd rfl h
  padding_nonneg := by decide

/-- The first two rows of the embedding, and its last two columns. -/
def embedRows : ShardSpec where
  paramName := "model.embed_tokens.weight"
  globalShape := [4, 4]
  shardAxis := .row
  shardIndex := 0
  shardCount := 2
  start := 0
  stop := 2
  padding := 0
  replicated := false
  count_pos := by decide
  index_mem := by decide
  replicated_of_none := by decide
  axis_lt := by decide
  padding_nonneg := by decide

def embedColumns : ShardSpec :=
  { embedRows with
    shardAxis := .column
    shardIndex := 1
    start := 2
    stop := 4
    index_mem := by decide
    replicated_of_none := by decide
    axis_lt := by decide }

def unknownPlan : ParallelPlan where
  tpDegree := 1
  orderedRanks := [0]
  parameterShards := [wholeShard "unknown.weight" [4]]

/-- A plan with one parameter cut along two axes, everything else replicated. -/
def mixedPlan : ParallelPlan where
  tpDegree := 2
  orderedRanks := [0, 1]
  parameterShards := embedRows :: embedColumns ::
    (tinyCensus.parameterShapes.entries.tail.map fun e => wholeShard e.1 e.2)
  unsupportedPredicate := "divisibility"

theorem accepts_mixedPlan : mixedPlan.Accepts tinyCensus := by
  have hsharded : (mixedPlan.parameterShards.filter fun spec => spec.shardAxis ≠ .none) =
      [embedRows, embedColumns] := by decide
  refine ⟨by decide, by decide, by decide, rfl, by decide, by decide, by decide, ?_⟩
  intro name first rest h
  rw [sharded, hsharded] at h
  by_cases hname : "model.embed_tokens.weight" = name
  · subst hname
    obtain ⟨rfl, rfl⟩ := List.cons.inj h
    have hsorted : sortedRanges [embedRows, embedColumns] = [(0, 2), (2, 4)] :=
      mergeSort_of_pairwise (by decide)
    refine ⟨4, rfl, ?_⟩
    show Laid 0 (sortedRanges [embedRows, embedColumns]) 4
    rw [hsorted]
    exact ⟨rfl, rfl, rfl⟩
  · have hnone : ([embedRows, embedColumns].filter fun spec => spec.paramName = name) = [] := by
      refine filter_eq_nil_iff.mpr fun spec hspec hin => hname ?_
      fin_cases hspec
      · exact of_decide_eq_true hin
      · exact of_decide_eq_true hin
    rw [hnone] at h
    cases h

/-- **Validation** raises for one plan, and accepts another one that cuts a parameter along two
axes. -/
theorem validate_raises_and_mixes :
    (¬ ∃ problems, unknownPlan.validate (some tinyCensus) = .ok problems) ∧
      mixedPlan.validate (some tinyCensus) = .ok [] ∧ ¬ mixedPlan.Sound tinyCensus := by
  refine ⟨?_, validate_eq_nil_iff.mpr accepts_mixedPlan, ?_⟩
  · rw [validate_ok_iff]
    intro hreadable
    exact absurd (hreadable.names _ mem_cons_self) (by decide)
  · intro hsound
    have hshape : tinyCensus.parameterShapes.get? "model.embed_tokens.weight" = some [4, 4] := by
      decide
    have hrows : embedRows ∈ mixedPlan.shardsFor "model.embed_tokens.weight" := by decide
    have hcolumns : embedColumns ∈ mixedPlan.shardsFor "model.embed_tokens.weight" := by decide
    rcases (hsound _ _ hshape).2 with hnone | ⟨axis, size, -, -, hall, -⟩
    · cases hnone _ hrows
    · exact absurd ((hall _ hrows).trans (hall _ hcolumns).symm) (by decide)

end ParallelPlan

end Hqsb.Distributed
