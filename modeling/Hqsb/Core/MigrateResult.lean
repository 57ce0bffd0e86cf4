/-
Hqsb/Core/MigrateResult.lean

The result documents that are migrated without a silent loss.

A repetition becomes a raw sample in which four fields are written anew (`SampleOf`).  The loss
report is in `ResultOf.reported_iff`; `result_lossless_iff` goes through the keys of the document,
and `migration_lossless_iff` is about a document of either family.
-/
import Hqsb.Core.MigrateGolden

namespace Hqsb.Migrate

open Lib Lib.PathTree List
open Document (Scalar Value Members)

/-! ### Repetitions -/

structure SampleOf (host : Host) (rep sample : Members) : Prop where
  counts : ∀ key ∈ ["input_tokens", "output_tokens"], ∃ fallback n,
    intOf host rep key fallback = .ok n ∧ sample.lookup key = some (intValue n)
  generated : ∃ ids, listOf rep "generated_token_ids" = .ok ids ∧
    sample.lookup "generated_token_ids" = some (.items ids)
  itl : sample.lookup "itl_ms" = some (.items [])
  others : ∀ key, key ∉ ["input_tokens", "output_tokens", "generated_token_ids", "itl_ms"] →
    sample.lookup key = rep.lookup key

theorem repetition_ok {host : Host} {workload : WorkloadSpec} {v : Value} {out : Members × Members}
    (h : migrateRepetition host workload v = .ok out) :
    ∃ rep, v = .dict rep ∧ SampleOf host rep out.2 := by
  cases v with
  | leaf a => cases h
  | items vs => cases h
  | dict rep =>
    obtain ⟨itl, hitl, h⟩ := bind_ok_iff.mp h
    obtain ⟨inputTokens, hinput, h⟩ := bind_ok_iff.mp h
    obtain ⟨outputTokens, houtput, h⟩ := bind_ok_iff.mp h
    obtain ⟨generated, hgenerated, h⟩ := bind_ok_iff.mp h
    cases h
    refine ⟨rep, rfl, fun key hkey => ?_, ⟨generated, hgenerated, ?_⟩, ?_, fun key hkey => ?_⟩
    · fin_cases hkey
      · refine ⟨_, inputTokens, hinput, ?_⟩
        simp only [lookup_assign, String.reduceEq, if_true, if_false]
      · refine ⟨_, outputTokens, houtput, ?_⟩
        simp only [lookup_assign, String.reduceEq, if_true, if_false]
    · simp only [lookup_assign, String.reduceEq, if_true, if_false]
    · simp only [lookup_assign, if_true]
    · simp only [mem_cons, not_mem_nil, or_false, not_or] at hkey
      rw [lookup_assign, if_neg hkey.2.2.2, lookup_assign, if_neg hkey.2.2.1, lookup_assign,
        if_neg hkey.2.1, lookup_assign, if_neg hkey.1]

section Sample

variable {host : Host} {rep sample : Members}

def FoundAt (host : Host) (rep sample : Members) (key : String) : Prop :=
  ∀ w, rep.lookup key = some w → ∀ rest a, w.get? rest = some (.leaf a) →
    ∃ b, (dict sample).get? ([.key key] ++ rest) = some (.leaf b) ∧ Same host a b

theorem sample_get? {key : String} {w : Value} (h : sample.lookup key = some w) :
    (dict sample).get? [.key key] = some w := by
  rw [get?_dict_key, h]
  cases w <;> rfl

section

variable (h : SampleOf host rep sample)

include h

theorem SampleOf.count_iff {key : String}
    (hkey : key ∈ ["input_tokens", "output_tokens"]) : FoundAt host rep sample key ↔
      ∀ v n, rep.lookup key = some v → pyInt host v = .ok n → CarriedAs host v (.int n) := by
  obtain ⟨fallback, m, hcount, hsample⟩ := h.counts key hkey
  refine forall_congr' fun v => ⟨fun hfound n hv hn => ?_, fun hcarried hv => ?_⟩
  · rw [intOf, hv] at hcount
    cases hcount.symm.trans hn
    exact (found_iff_carried (sample_get? hsample)).mp (hfound hv)
  · rw [intOf, hv] at hcount
    exact (found_iff_carried (sample_get? hsample)).mpr (hcarried m hv hcount)

theorem SampleOf.generated_iff :
    FoundAt host rep sample "generated_token_ids" ↔ ∀ v,
      rep.lookup "generated_token_ids" = some v → (∃ ids, v = .items ids) ∨ v.Leafless := by
  obtain ⟨ids, hlist, hsample⟩ := h.generated
  have hget := sample_get? hsample
  refine forall_congr' fun v => imp_congr_right fun hv => ⟨fun hfound => ?_, ?_⟩
  · rw [or_iff_not_imp_left]
    intro hitems rest a hleaf
    obtain ⟨b, hb, -⟩ := hfound rest a hleaf
    rw [get?_append, hget] at hb
    -- neither a scalar nor the members of a mapping are where the items are
    cases v with
    | items vs => exact hitems ⟨vs, rfl⟩
    | leaf c =>
      obtain ⟨rfl, -⟩ := get?_leaf hleaf
      cases hb
    | dict ms =>
      cases rest with
      | nil => cases hb
      | cons step rest =>
        cases step with
        | key name => cases hb
        | index i => cases hleaf
  · rintro (⟨vs, rfl⟩ | hleafless) rest a hleaf
    · rw [listOf, hv] at hlist
      obtain rfl : vs = ids := Except.ok.inj hlist
      exact found_of_copy hget hleaf
    · exact absurd hleaf (hleafless rest a)

theorem SampleOf.itl_iff : FoundAt host rep sample "itl_ms" ↔
    ∀ v, rep.lookup "itl_ms" = some v → v.Leafless := by
  have hget := sample_get? h.itl
  refine forall_congr' fun v => imp_congr_right fun hv => forall_congr' fun rest =>
    forall_congr' fun a => ?_
  constructor
  · intro hfound hleaf
    obtain ⟨b, hb, -⟩ := hfound hleaf
    rw [get?_append, hget] at hb
    rcases rest with - | ⟨step, rest⟩
    · cases hb
    · cases step with
      | key name => cases hb
      | index i =>
        cases hb
  · exact fun h hleaf => absurd hleaf h

/-- **A repetition** is found in its sample, but for the statistics, exactly if nothing of value is
in the fields that are overwritten. -/
theorem SampleOf.kept_iff :
    (∀ key, key ≠ "itl" → FoundAt host rep sample key) ↔ RepetitionKept host rep := by
  constructor
  · intro hfound
    refine ⟨fun key hkey => (h.count_iff hkey).mp (hfound key ?_),
      h.generated_iff.mp (hfound _ (by decide)), h.itl_iff.mp (hfound _ (by decide))⟩
    rintro rfl
    exact absurd hkey (by decide)
  · intro hkept key _
    by_cases hkey : key ∈ ["input_tokens", "output_tokens", "generated_token_ids", "itl_ms"]
    swap
    · intro w hw rest a hleaf
      exact found_of_copy (sample_get? ((h.others key hkey).trans hw)) hleaf
    fin_cases hkey
    · exact (h.count_iff (by decide)).mpr (hkept.counts _ (by decide))
    · exact (h.count_iff (by decide)).mpr (hkept.counts _ (by decide))
    · exact h.generated_iff.mpr hkept.generated
    · exact h.itl_iff.mpr hkept.itl

end

end Sample

/-! ### Result documents -/

structure ResultOf (host : Host) (now : String)
    (document model hardware software workload : Members) (r : BenchmarkResult) : Prop where
  version : sourceVersionInfo document = .ok r.migration.declaredVersion
  modelBlock : block host document "model" = .ok model
  hardwareBlock : block host document "hardware" = .ok hardware
  softwareBlock : block host document "software" = .ok software
  workloadBlock : workloadBlock document = .ok workload
  inputTokens : intOf host workload "input_tokens" (.ok 0) = .ok r.workload.inputTokens
  outputTokens : intOf host workload "output_tokens" (.ok 0) = .ok r.workload.outputTokens
  batchSize : intOf host workload "batch_size" (.ok 1) = .ok r.workload.batchSize
  environment : environmentOf host hardware software = .ok r.environment
  timestamp : timestampOf host now document = .ok r.timestamp
  samples : ∃ reps samples, listOf document "repetitions" = .ok reps ∧
    reps.mapM (migrateRepetition host r.workload) = .ok samples ∧
      r.rawSamples = samples.map Prod.snd
  summary : ∃ itl, r.summary = [("deterministic",
      (document.lookup "deterministic").getD (.leaf .null)),
    ("generated_token_sha256", (document.lookup "generated_token_sha256").getD (.leaf .null)),
    ("itl_summary", itl)] ++ (loadTime model).toList.map fun v => ("model_load_time_s", v)
  links : r.artifactLinks = [("legacy_kind", "result"), ("model_id", strOf host model "id"),
    ("backend", strOf host model "backend"), ("dtype", strOf host model "dtype")] ++
    givenLinks host model ["source", "local_path", "attention_backend"] id
  family : r.migration.family = .legacyResult
  reported {p : List Hop} : Reported r p ↔ Mentioned (environmentLosses hardware software) p ∨
    (∃ key rest, p = .key "model" :: .key key :: rest ∧
      (key ∈ ["id", "backend", "dtype", "source", "local_path", "attention_backend"] ∧
        given host model key = true ∨ key = "load_time_s" ∧ loadTime model ≠ none)) ∨
    (∃ i rest, p = .key "repetitions" :: .index i :: .key "itl" :: rest) ∨
    ∃ rest, p = .key "deterministic" :: rest

theorem names_item {p : List Hop} : names [.key "repetitions", .each, .key "itl"] p = true ↔
    ∃ i rest, p = .key "repetitions" :: .index i :: .key "itl" :: rest := by
  constructor
  · intro h
    match p, h with
    | .key name :: .index i :: rest, h =>
      rw [names, Bool.and_eq_true, decide_eq_true_eq, names, names_key] at h
      obtain ⟨rfl, rest, rfl⟩ := h
      exact ⟨i, rest, rfl⟩
    | .key name :: .key other :: rest, h => simp [names] at h
    | [.key name], h => simp [names] at h
  · rintro ⟨i, rest, rfl⟩
    rfl

theorem mentioned_loadTime {model : Members} {p : List Hop} :
    Mentioned ((loadTime model).toList.map fun _ =>
      lossRow [.key "model", .key "load_time_s"] "summary.model_load_time_s" .representation
        .historicalOnly) p ↔
      ∃ rest, p = .key "model" :: .key "load_time_s" :: rest ∧ loadTime model ≠ none := by
  cases loadTime model with
  | none => exact iff_of_false not_mentioned_nil fun ⟨_, _, hne⟩ => hne rfl
  | some v =>
    rw [Option.toList_some, map_singleton, mentioned_row_cons, names_key_key]
    simp [not_mentioned_nil]

theorem result_ok {host : Host} {runId now : String} {document : Members} {r : BenchmarkResult}
    (h : migrateLegacyResult host runId now document = .ok r) :
    ∃ model hardware software workload,
      ResultOf host now document model hardware software workload r := by
  obtain ⟨declared, hdeclared, h⟩ := bind_ok_iff.mp h
  obtain ⟨model, hmodel, h⟩ := bind_ok_iff.mp h
  obtain ⟨hardware, hhardware, h⟩ := bind_ok_iff.mp h
  obtain ⟨software, hsoftware, h⟩ := bind_ok_iff.mp h
  obtain ⟨block, hblock, h⟩ := bind_ok_iff.mp h
  obtain ⟨repetitions, hrepetitions, h⟩ := bind_ok_iff.mp h
  obtain ⟨inputTokens, hinput, h⟩ := bind_ok_iff.mp h
  obtain ⟨outputTokens, houtput, h⟩ := bind_ok_iff.mp h
  obtain ⟨batchSize, hbatch, h⟩ := bind_ok_iff.mp h
  obtain ⟨workload, hworkload, h⟩ := bind_ok_iff.mp h
  obtain ⟨samples, hsamples, h⟩ := bind_ok_iff.mp h
  obtain ⟨environment, henvironment, h⟩ := bind_ok_iff.mp h
  obtain ⟨timestamp, htimestamp, h⟩ := bind_ok_iff.mp h
  obtain rfl := checkWorkload_ok hworkload
  cases h
  exact ⟨model, hardware, software, block, {
    version := hdeclared
    modelBlock := hmodel
    hardwareBlock := hhardware
    softwareBlock := hsoftware
    workloadBlock := hblock
    inputTokens := hinput
    outputTokens := houtput
    batchSize := hbatch
    environment := henvironment
    timestamp := htimestamp
    samples := ⟨repetitions, samples, hrepetitions, hsamples, rfl⟩
    summary := ⟨_, rfl⟩
    links := rfl
    family := rfl
    reported := by
      intro p
      show Mentioned (environmentLosses hardware software ++ _ ++ _ ++ _ ++ _) p ↔ _
      rw [mentioned_append, mentioned_append, mentioned_append, mentioned_append,
        mentioned_row_cons, mentioned_row_cons, mentioned_modelRows, mentioned_modelRows,
        mentioned_loadTime, names_key, names_item]
      constructor
      · rintro ((((henv | hitem | hflag | hnil) | ⟨key, rest, hp, hkey, hgiven⟩) |
          ⟨key, rest, hp, hkey, hgiven⟩) | ⟨rest, hp, hne⟩)
        · exact .inl henv
        · exact .inr (.inr (.inl hitem))
        · exact .inr (.inr (.inr hflag))
        · exact absurd hnil not_mentioned_nil
        · exact .inr (.inl ⟨key, rest, hp, .inl ⟨mem_append_left
            ["source", "local_path", "attention_backend"] hkey, hgiven⟩⟩)
        · exact .inr (.inl ⟨key, rest, hp, .inl ⟨mem_append_right ["id", "backend", "dtype"] hkey,
            hgiven⟩⟩)
        · exact .inr (.inl ⟨_, rest, hp, .inr ⟨rfl, hne⟩⟩)
      · rintro (henv | ⟨key, rest, hp, ⟨hkey, hgiven⟩ | ⟨rfl, hne⟩⟩ | hitem | hflag)
        · exact .inl (.inl (.inl (.inl henv)))
        · rcases mem_append (s := ["id", "backend", "dtype"]).mp hkey with hkey | hkey
          · exact .inl (.inl (.inr ⟨key, rest, hp, hkey, hgiven⟩))
          · exact .inl (.inr ⟨key, rest, hp, hkey, hgiven⟩)
        · exact .inr ⟨rest, hp, hne⟩
        · exact .inl (.inl (.inl (.inr (.inl hitem))))
        · exact .inl (.inl (.inl (.inr (.inr (.inl hflag))))) }⟩

section Result

variable {host : Host} {now : String} {document model hardware software workload : Members}
  {r : BenchmarkResult}

variable (h : ResultOf host now document model hardware software workload r)

include h

theorem ResultOf.not_reported {key : String} {rest : List Hop}
    (hkey : key ∉ ["hardware", "software", "model", "repetitions", "deterministic"]) :
    ¬ Reported r (.key key :: rest) := by
  simp only [mem_cons, not_or] at hkey
  rw [h.reported, mentioned_environment]
  simp [hkey]

theorem ResultOf.not_reported_section {key : String} (hkey : key ≠ "deterministic") :
    ¬ Reported r [.key key] := by
  rw [h.reported, mentioned_environment]
  simp [hkey]

theorem ResultOf.reported_environment {name : String}
    (hname : name ∈ ["hardware", "software", "timestamp"]) (rest : List Hop) :
    Reported r (.key name :: rest) ↔
      Mentioned (environmentLosses hardware software) (.key name :: rest) := by
  rw [h.reported]
  fin_cases hname <;> simp

theorem ResultOf.reported_model (key : String) (rest : List Hop) :
    Reported r (.key "model" :: .key key :: rest) ↔
      key ∈ ["id", "backend", "dtype", "source", "local_path", "attention_backend"] ∧
        given host model key = true ∨ key = "load_time_s" ∧ loadTime model ≠ none := by
  rw [h.reported, mentioned_environment]
  simp

theorem ResultOf.link {key place : String}
    (hmem : (key, place) ∈ [("id", "model_id"), ("backend", "backend"), ("dtype", "dtype")]) :
    r.dump.get? (field "artifact_links" place) =
      some (.leaf (.str (strOf host model key))) := by
  show (dict (r.artifactLinks.map fun e => (e.1, strValue e.2))).get? [.key place] = _
  rw [h.links]
  fin_cases hmem <;> rfl

theorem ResultOf.loadTime_fine_iff : MemberFine host resultTargets r "model" model "load_time_s" ↔
      model.lookup "load_time_s" ≠ some (.leaf .null) := by
  have hrows : ∀ rest, Reported r (.key "model" :: .key "load_time_s" :: rest) ↔
      loadTime model ≠ none := by
    intro rest
    rw [h.reported_model]
    simp
  constructor
  · intro hfine hnull
    have hload : loadTime model = none := by
      rw [loadTime, hnull]
    obtain ⟨itl, hsummary⟩ := h.summary
    have hout : r.dump.get? (field "summary" "model_load_time_s") = none := by
      show (dict (r.summary ++ _)).get? [.key "model_load_time_s"] = none
      rw [hsummary, hload]
      exact rfl
    exact not_leafless_leaf _ ((fine_absent (p := [_, .key "load_time_s"]) (fun _ => rfl)
      (fun rest hreported => (hrows rest).mp hreported hload) hout).mp hfine _ hnull)
  · intro hnull w hw rest a _
    refine .inr ((hrows rest).mpr fun hload => ?_)
    rw [loadTime, hw] at hload
    split at hload
    next heq => exact nomatch heq
    next heq => exact hnull (hw.trans heq)
    next => exact nomatch hload

theorem ResultOf.model_fine_iff {model' : Members}
    (hms : document.lookup "model" = some (.dict model')) :
    (∀ key, MemberFine host resultTargets r "model" model' key) ↔
    (∀ key v, model'.lookup key = some v → key ∉ ["id", "backend", "dtype", "source", "local_path",
      "attention_backend", "load_time_s"] → v.Leafless) ∧
    (∀ key ∈ ["id", "backend", "dtype"], ∀ v, model'.lookup key = some v →
      truthy host v = true ∨ CarriedAs host v (.str (host.str v))) ∧
    (∀ key ∈ ["source", "local_path", "attention_backend"], ∀ v, model'.lookup key = some v →
      truthy host v = true ∨ v.Leafless) ∧
    model'.lookup "load_time_s" ≠ some (.leaf .null) := by
  obtain rfl := (block_dict h.modelBlock hms).symm
  have hrows : ∀ key ∈ ["id", "backend", "dtype", "source", "local_path", "attention_backend"],
      ∀ rest, Reported r (.key "model" :: .key key :: rest) ↔ given host model key = true := by
    intro key hkey rest
    rw [h.reported_model, or_iff_left, and_iff_right hkey]
    rintro ⟨rfl, -⟩
    exact absurd hkey (by decide)
  have hidentity : ∀ key ∈ ["id", "backend", "dtype"],
      (MemberFine host resultTargets r "model" model key ↔ ∀ v, model.lookup key = some v →
        truthy host v = true ∨ CarriedAs host v (.str (host.str v))) := by
    intro key hkey
    fin_cases hkey <;>
      exact identity_fine_iff rfl rfl (hrows _ (by decide)) (h.link (by decide))
  -- a detail that is not given has no link
  have habsent : ∀ key ∈ ["source", "local_path", "attention_backend"],
      given host model key = false → r.dump.get? (field "artifact_links" key) = none := by
    intro key hkey hgiven
    refine link_absent ?_
    rw [h.links, map_append, mem_append, mem_givenLinks]
    rintro (hmem | ⟨other, -, htrue, hother⟩)
    · fin_cases hkey <;> exact absurd hmem (by simp)
    · obtain rfl : other = key := hother
      exact Bool.false_ne_true (hgiven.symm.trans htrue)
  have hdetail : ∀ key ∈ ["source", "local_path", "attention_backend"],
      (MemberFine host resultTargets r "model" model key ↔ ∀ v, model.lookup key = some v →
        truthy host v = true ∨ v.Leafless) := by
    intro key hkey
    have hout := habsent key hkey
    fin_cases hkey <;> exact detail_fine_iff rfl rfl (hrows _ (by decide)) hout
  rw [members_fine_iff ["id", "backend", "dtype", "source", "local_path", "attention_backend",
      "load_time_s"] rfl (fun key hkey => lookup_eq_none_iff.mpr (by simpa using hkey))
    fun key hkey rest hreported => hkey (by
      have hmem := (h.reported_model key rest).mp hreported
      simp only [mem_cons] at hmem ⊢
      tauto)]
  refine and_congr_right' ?_
  rw [show ["id", "backend", "dtype", "source", "local_path", "attention_backend", "load_time_s"] =
      ["id", "backend", "dtype"] ++ (["source", "local_path", "attention_backend"] ++
        ["load_time_s"]) from rfl, forall_mem_append, forall_mem_append,
    forall_mem_singleton]
  exact and_congr (forall₂_congr hidentity) (and_congr (forall₂_congr hdetail) h.loadTime_fine_iff)

theorem ResultOf.workload_eq {v : Value} (hv : document.lookup "workload" = some v) :
    v = .dict workload := by
  have hblock := h.workloadBlock
  rw [Migrate.workloadBlock, hv] at hblock
  cases v with
  | leaf a => cases hblock
  | items vs => cases hblock
  | dict ms => rw [Except.ok.inj hblock]

/-- The workload block: three counts. -/
theorem ResultOf.workload_fine_iff : KeyFine host resultTargets r document "workload" ↔
    (∀ workload key v, document.lookup "workload" = some (.dict workload) →
      workload.lookup key = some v → key ∉ ["input_tokens", "output_tokens", "batch_size"] →
        v.Leafless) ∧
    ∀ workload, document.lookup "workload" = some (.dict workload) →
      ∀ key ∈ ["input_tokens", "output_tokens", "batch_size"], ∀ v n,
        workload.lookup key = some v → pyInt host v = .ok n → CarriedAs host v (.int n) := by
  have hrows : ∀ key rest, ¬ Reported r (.key "workload" :: .key key :: rest) :=
    fun key rest => h.not_reported (by decide)
  have hcount : ∀ key ∈ ["input_tokens", "output_tokens", "batch_size"],
      (MemberFine host resultTargets r "workload" workload key ↔ ∀ v n,
        workload.lookup key = some v → pyInt host v = .ok n → CarriedAs host v (.int n)) := by
    intro key hkey
    fin_cases hkey
    · exact fine_count (p := [_, _]) (fun _ => rfl) (hrows _) h.inputTokens rfl
    · exact fine_count (p := [_, _]) (fun _ => rfl) (hrows _) h.outputTokens rfl
    · exact fine_count (p := [_, _]) (fun _ => rfl) (hrows _) h.batchSize rfl
  have hmembers : (∀ key, MemberFine host resultTargets r "workload" workload key) ↔ _ :=
    members_fine_iff ["input_tokens", "output_tokens", "batch_size"] rfl
      (fun key hkey => lookup_eq_none_iff.mpr (by simpa using hkey)) fun key _ => hrows key
  constructor
  · intro hfine
    have hmember : document.lookup "workload" = some (.dict workload) → ∀ key,
        MemberFine host resultTargets r "workload" workload key := by
      intro hms key w hw rest a hleaf
      refine hfine _ hms (.key key :: rest) a ?_
      rw [get?_dict_key, hw]
      exact hleaf
    refine ⟨fun ms key v hms => ?_, fun ms hms key hkey => ?_⟩
    · cases h.workload_eq hms
      exact (hmembers.mp (hmember hms)).1 key v
    · cases h.workload_eq hms
      exact (hcount key hkey).mp (hmember hms key)
  · rintro ⟨hother, hcounts⟩ v hv rest a hleaf
    obtain rfl := h.workload_eq hv
    obtain ⟨key, rest, w, rfl, hw, hleaf⟩ := leaf_below hleaf
    exact hmembers.mpr ⟨fun key v => hother _ key v hv,
      fun key hkey => (hcount key hkey).mpr (hcounts _ hv key hkey)⟩ key w hw rest a hleaf

theorem ResultOf.sample {vs : List Value} (hvs : document.lookup "repetitions" = some (.items vs))
    {i : Nat} {v : Value} (hv : vs[i]? = some v) : ∃ rep sample, v = .dict rep ∧
      SampleOf host rep sample ∧
        r.dump.get? [.key "raw_samples", .index i] = some (.dict sample) := by
  obtain ⟨reps, samples, hreps, hmap, hraw⟩ := h.samples
  rw [listOf, hvs] at hreps
  obtain rfl : vs = reps := Except.ok.inj hreps
  have hall := mapM_eq_ok_iff.mp hmap
  obtain ⟨hi, rfl⟩ := List.getElem?_eq_some_iff.mp hv
  have hi' : i < samples.length := hall.length_eq ▸ hi
  obtain ⟨rep, hrep, hsample⟩ := repetition_ok (hall.get hi hi')
  refine ⟨rep, samples[i].2, hrep, hsample, ?_⟩
  show (items (r.rawSamples.map dict)).get? [.index i] = _
  rw [hraw, get?_items_index, List.getElem?_map, List.getElem?_map,
    List.getElem?_eq_getElem hi']
  exact rfl

/-- **Repetitions**: a list of which each item is kept. -/
theorem ResultOf.repetitions_fine_iff : KeyFine host resultTargets r document "repetitions" ↔
    (∀ s, document.lookup "repetitions" ≠ some (.leaf s)) ∧
      ∀ vs, document.lookup "repetitions" = some (.items vs) → ∀ (i : Nat) rep,
        vs[i]? = some (.dict rep) → RepetitionKept host rep := by
  have htarget : ∀ rest, target resultTargets (.key "repetitions" :: rest) =
    some ([Hop.key "raw_samples"] ++ rest) := fun _ => rfl
  have hitem : ∀ (i : Nat) key rest,
      Reported r (.key "repetitions" :: .index i :: .key key :: rest) ↔ key = "itl" := by
    intro i key rest
    rw [h.reported, mentioned_environment]
    simp
  have hat : ∀ {i : Nat} {sample : Members} (p : List Hop),
      r.dump.get? [.key "raw_samples", .index i] = some (.dict sample) →
        r.dump.get? ([Hop.key "raw_samples"] ++ Hop.index i :: p) = (dict sample).get? p := by
    intro i sample p hsample
    have happend := get?_append r.dump [.key "raw_samples", .index i] p
    rw [hsample] at happend
    exact happend
  constructor
  · intro hfine
    refine ⟨fun s hs => ?_, fun vs hvs i rep hrep => ?_⟩
    · have hnot := h.not_reported_section (show "repetitions" ≠ "deterministic" by decide)
      obtain ⟨b, hb, -⟩ := (kept_iff (htarget _)).mp ((hfine _ hs [] s rfl).resolve_right hnot)
      cases hb
    · obtain ⟨_, sample, heq, hsample, hget⟩ := h.sample hvs hrep
      cases heq
      refine hsample.kept_iff.mp fun key hkey w hw rest a hleaf => ?_
      have hacc := hfine _ hvs (.index i :: .key key :: rest) a (by
        rw [get?_items_index, hrep, Option.bind_some, get?_dict_key, hw]
        exact hleaf)
      obtain ⟨b, hb, hsame⟩ := (kept_iff (htarget _)).mp
        (hacc.resolve_right fun hreported => hkey ((hitem i key rest).mp hreported))
      rw [hat _ hget] at hb
      exact ⟨b, hb, hsame⟩
  · rintro ⟨hscalar, hitems⟩ v hv rest a hleaf
    cases v with
    | leaf s => exact absurd hv (hscalar s)
    | dict ms =>
      -- only a mapping without keys is gone through as a list of repetitions
      obtain ⟨reps, samples, hreps, hmap, -⟩ := h.samples
      rw [listOf, hv] at hreps
      obtain rfl : _ = reps := Except.ok.inj hreps
      cases ms with
      | nil =>
        obtain ⟨key, rest, w, -, hw, -⟩ := leaf_below hleaf
        cases hw
      | cons e ms =>
        obtain ⟨_, hb⟩ := exists_of_mapM_ok hmap mem_cons_self
        cases hb
    | items vs =>
      cases rest with
      | nil => cases hleaf
      | cons step rest =>
        cases step with
        | key name => cases hleaf
        | index i =>
          rw [get?_items_index, Option.bind_eq_some_iff] at hleaf
          obtain ⟨u, hu, hleaf⟩ := hleaf
          obtain ⟨rep, sample, rfl, hsample, hget⟩ := h.sample hv hu
          obtain ⟨key, rest, w, rfl, hw, hleaf⟩ := leaf_below hleaf
          by_cases hkey : key = "itl"
          · exact .inr ((hitem i key rest).mpr hkey)
          · obtain ⟨b, hb, hsame⟩ :=
              hsample.kept_iff.mpr (hitems vs hv i rep hu) key hkey w hw rest a hleaf
            refine .inl ((kept_iff (htarget _)).mpr ⟨b, ?_, hsame⟩)
            rw [hat _ hget]
            exact hb

end Result

/-- **A result document** is migrated without a silent loss exactly if it is a `ResultKept`. -/
theorem result_lossless_iff {host : Host} {runId now : String} {document : Members}
    {r : BenchmarkResult} (h : migrateLegacyResult host runId now document = .ok r) :
    Lossless host .legacyResult document r ↔ ResultKept host document := by
  obtain ⟨model, hardware, software, workload, hparts⟩ := result_ok h
  have henv := environmentKept_iff
    (show resultTargets.lookup "hardware" = some (.members hardwareTargets) from rfl) rfl rfl
    hparts.hardwareBlock hparts.softwareBlock hparts.environment hparts.timestamp
    fun _ => hparts.reported_environment
  have hmodel := keyFine_section (show resultTargets.lookup "model" = some (.members _) from rfl)
    (hparts.not_reported_section (by decide)) hparts.modelBlock
  have hunknown : ∀ key, resultTargets.lookup key = none →
      (KeyFine host resultTargets r document key ↔ _) :=
    unknown_fine _ (by decide) fun _ hkey _ => hparts.not_reported hkey
  rw [lossless_iff]
  constructor
  · intro hfine
    obtain ⟨hsection, hmembers⟩ := hmodel.mp (hfine _)
    obtain ⟨hworkload, hcounts⟩ := hparts.workload_fine_iff.mp (hfine _)
    obtain ⟨hscalar, hitems⟩ := hparts.repetitions_fine_iff.mp (hfine _)
    have hmodelKept := fun model' hms =>
      (hparts.model_fine_iff hms).mp (hmembers model' hms)
    exact {
      environment := henv.mpr ⟨hsection, hfine _, hfine _, hfine _⟩
      keys := fun key v hv hnone => (hunknown key hnone).mp (hfine key) v hv
      model := fun model' key v hms => (hmodelKept model' hms).1 key v
      identity := fun model' hms => (hmodelKept model' hms).2.1
      links := fun model' hms => (hmodelKept model' hms).2.2.1
      loadTime := fun model' hms => (hmodelKept model' hms).2.2.2
      workload := hworkload
      counts := hcounts
      repetitions := hscalar
      items := hitems }
  · intro hkept key
    obtain ⟨hsection, hhardware, hsoftware, htimestamp⟩ := henv.mp hkept.environment
    obtain ⟨itl, hsummary⟩ := hparts.summary
    cases hlookup : resultTargets.lookup key with
    | none => exact (hunknown key hlookup).mpr fun v hv => hkept.keys key v hv hlookup
    | some place =>
      have hkey := mem_keys_iff.mpr ⟨place, hlookup⟩
      simp only [resultTargets, map_cons, map_nil, mem_cons, not_mem_nil,
        or_false] at hkey
      rcases hkey with rfl | rfl | rfl | rfl | rfl | rfl | rfl | rfl | rfl
      · refine version_fine rfl hparts.version ?_
        rw [hsummary]
        cases loadTime model <;> exact rfl
      · exact htimestamp
      · refine hmodel.mpr ⟨hsection, fun model' hms => ?_⟩
        exact (hparts.model_fine_iff hms).mpr ⟨fun key v => hkept.model _ key v hms, hkept.identity _ hms,
          hkept.links _ hms, hkept.loadTime _ hms⟩
      · exact hhardware
      · exact hsoftware
      · exact hparts.workload_fine_iff.mpr ⟨hkept.workload, hkept.counts⟩
      · exact hparts.repetitions_fine_iff.mpr ⟨hkept.repetitions, hkept.items⟩
      · exact fun _ _ rest _ _ => .inr (hparts.reported.mpr (.inr (.inr (.inr ⟨rest, rfl⟩))))
      · refine fine_copy (p := [.key "generated_token_sha256"]) (fun _ => rfl) fun v hv => ?_
        show (dict (r.summary ++ _)).get? [.key "generated_token_sha256"] = some v
        rw [hsummary, hv]
        exact rfl

/-! ### Documents of either family -/

/-- The documents that nothing is lost of. -/
def LegacyKept (host : Host) : Family → Members → Prop
  | .legacyGolden => GoldenKept host
  | .legacyResult => ResultKept host

/-- **A legacy document** that is migrated loses nothing silently exactly if it has no more in it
than the migration goes through, and if every conversion gives back what was there. -/
theorem migration_lossless_iff (host : Host) (runId now : String) (document : Members)
    (r : BenchmarkResult) (h : migrateAny host runId now document = .ok (.migrated r)) :
    Lossless host r.migration.family document r ↔ LegacyKept host r.migration.family document := by
  rw [migrateAny] at h
  split at h
  · split at h
    · cases Except.ok.inj h
    · cases h
  obtain ⟨family, -, h⟩ := bind_ok_iff.mp h
  obtain ⟨_, -, h⟩ := bind_ok_iff.mp h
  cases family with
  | legacyGolden =>
    obtain ⟨r', hr, h⟩ := bind_ok_iff.mp h
    cases Except.ok.inj h
    obtain ⟨_, _, _, hparts⟩ := golden_ok hr
    rw [hparts.family]
    exact golden_lossless_iff hr
  | legacyResult =>
    obtain ⟨r', hr, h⟩ := bind_ok_iff.mp h
    cases Except.ok.inj h
    obtain ⟨_, _, _, _, hparts⟩ := result_ok hr
    rw [hparts.family]
    exact result_lossless_iff hr

/-- Texts and integers are what they are, and the hash is that of a document. -/
def tinyHost (hash : String) : Host where
  str v := match v with
    | .leaf (.str s) => s
    | _ => ""
  floatValue _ := none
  intOfText _ := none
  laxInt v := match v with
    | .leaf (.int n) => some n
    | _ => none
  laxFloat _ := none
  dictOf _ := none
  canonicalHash _ := hash
  isResult _ := false

def tinyGolden : Members :=
  [("input_token_ids", .items [intValue 7]), ("first_token", intValue 5),
    ("generated_tokens", .items [intValue 5]), ("input_tokens", intValue 1),
    ("output_tokens", intValue 1), ("model", .dict [("id", strValue "tiny")])]

def tinyRepetition (token : Int) : Members :=
  [("input_tokens", intValue 2), ("output_tokens", intValue 1),
    ("generated_token_ids", .items [intValue token])]

def tinyResult : Members :=
  [("model", .dict [("id", strValue "tiny"), ("backend", strValue "hf")]),
    ("workload", .dict [("input_tokens", intValue 2), ("output_tokens", intValue 1)]),
    ("repetitions", .items [.dict (tinyRepetition 5), .dict (tinyRepetition 7)])]

/-- A second CUDA version, and who has run it. -/
def annotatedGolden : Members :=
  tinyGolden ++ [("software", .dict [("cuda", strValue "12.1"), ("torch_cuda", strValue "11.8")]),
    ("operator", strValue "night shift")]

theorem carriedAs_self {host : Host} (a : Scalar) : CarriedAs host (.leaf a) a := by
  intro p b h
  obtain ⟨rfl, heq⟩ := get?_leaf h
  exact ⟨rfl, .inl (PathTree.leaf.inj heq)⟩

theorem tinyGolden_kept (hash : String) : GoldenKept (tinyHost hash) tinyGolden where
  environment := {
    sections := by
      intro name hname v hv
      fin_cases hname
      · cases hv
        exact .inl rfl
      · cases hv
      · cases hv
    capability := fun _ _ h => (nomatch h)
    cuda := fun _ _ h => (nomatch h)
    timestamp := fun _ _ h => (nomatch h) }
  keys := by
    intro key v hv hnone
    have hkey := mem_keys_iff.mpr ⟨v, hv⟩
    simp only [tinyGolden, map_cons, map_nil, mem_cons, not_mem_nil,
      or_false] at hkey
    rcases hkey with rfl | rfl | rfl | rfl | rfl | rfl <;> exact nomatch hnone
  model := by
    intro model key v hmodel hv hkey
    cases Option.some.inj hmodel
    have hid := mem_keys_iff.mpr ⟨v, hv⟩
    obtain rfl := mem_singleton.mp hid
    exact absurd mem_cons_self hkey
  identity := by
    intro model hmodel key hkey v hv
    cases Option.some.inj hmodel
    obtain rfl := mem_singleton.mp (mem_keys_iff.mpr ⟨v, hv⟩)
    cases hv
    exact .inl rfl
  configHash := by
    intro model v hmodel hv
    cases Option.some.inj hmodel
    cases hv
  counts := by
    intro key hkey v n hv hn
    fin_cases hkey
    · cases hv
      rw [← Except.ok.inj hn]
      exact carriedAs_self _
    · cases hv
      rw [← Except.ok.inj hn]
      exact carriedAs_self _

theorem tinyRepetition_kept (hash : String) (token : Int) :
    RepetitionKept (tinyHost hash) (tinyRepetition token) where
  counts := by
    intro key hkey v n hv hn
    fin_cases hkey <;>
    · cases hv
      rw [← Except.ok.inj hn]
      exact carriedAs_self _
  generated := by
    intro v hv
    cases hv
    exact .inl ⟨_, rfl⟩
  itl := fun _ hv => nomatch hv

theorem tinyResult_kept (hash : String) : ResultKept (tinyHost hash) tinyResult where
  environment := {
    sections := by
      intro name hname v hv
      fin_cases hname
      · cases hv
        exact .inl rfl
      · cases hv
      · cases hv
    capability := fun _ _ h => (nomatch h)
    cuda := fun _ _ h => (nomatch h)
    timestamp := fun _ _ h => (nomatch h) }
  keys := by
    intro key v hv hnone
    have hkey := mem_keys_iff.mpr ⟨v, hv⟩
    simp only [tinyResult, map_cons, map_nil, mem_cons, not_mem_nil, or_false] at hkey
    rcases hkey with rfl | rfl | rfl <;> exact nomatch hnone
  model := by
    intro model key v hmodel hv hkey
    cases Option.some.inj hmodel
    have hid := mem_keys_iff.mpr ⟨v, hv⟩
    simp only [map_cons, map_nil, mem_cons, not_mem_nil, or_false] at hid
    rcases hid with rfl | rfl <;> exact absurd (by decide) hkey
  identity := by
    intro model hmodel key hkey v hv
    cases Option.some.inj hmodel
    fin_cases hkey
    · cases hv
      exact .inl rfl
    · cases hv
      exact .inl rfl
    · cases hv
  links := by
    intro model hmodel key hkey v hv
    cases Option.some.inj hmodel
    fin_cases hkey <;> cases hv
  loadTime := by
    intro model hmodel
    cases Option.some.inj hmodel
    exact nofun
  workload := by
    intro workload key v hworkload hv hkey
    cases Option.some.inj hworkload
    have hid := mem_keys_iff.mpr ⟨v, hv⟩
    simp only [map_cons, map_nil, mem_cons, not_mem_nil, or_false] at hid
    rcases hid with rfl | rfl <;> exact absurd (by decide) hkey
  counts := by
    intro workload hworkload key hkey v n hv hn
    cases Option.some.inj hworkload
    fin_cases hkey
    · cases hv
      rw [← Except.ok.inj hn]
      exact carriedAs_self _
    · cases hv
      rw [← Except.ok.inj hn]
      exact carriedAs_self _
    · cases hv
  repetitions := fun _ h => nomatch h
  items := by
    intro vs hvs i rep hrep
    cases Option.some.inj hvs
    rcases i with - | - | i
    · cases hrep
      exact tinyRepetition_kept hash 5
    · cases hrep
      exact tinyRepetition_kept hash 7
    · cases hrep

/-- Nothing is lost of a document of either family. -/
theorem tinyDocuments_lossless :
    (∃ r, migrateAny
        (tinyHost "4ddf8d6d48ac35dc85c7f32724762600647f74ec1e3cfec11c5ea6f35b072e0e") "run" "1.0"
        tinyGolden = .ok (.migrated r) ∧
      Lossless (tinyHost "4ddf8d6d48ac35dc85c7f32724762600647f74ec1e3cfec11c5ea6f35b072e0e")
        r.migration.family tinyGolden r) ∧
    ∃ r, migrateAny (tinyHost "20e8f424ca8d0a8c7d61dcfda813915e3a9484f428e8728fbc053b0665b26d9f")
        "run" "1.0" tinyResult = .ok (.migrated r) ∧
      Lossless (tinyHost "20e8f424ca8d0a8c7d61dcfda813915e3a9484f428e8728fbc053b0665b26d9f")
        r.migration.family tinyResult r :=
  ⟨⟨_, rfl, (migration_lossless_iff _ "run" "1.0" _ _ rfl).mpr (tinyGolden_kept _)⟩,
    _, rfl, (migration_lossless_iff _ "run" "1.0" _ _ rfl).mpr (tinyResult_kept _)⟩

/-- Neither text is anywhere in the migrated document, and no row names where it was. -/
theorem annotatedGolden_lossy : ∃ r, migrateAny
      (tinyHost "a0ae387e11b2d6554d92f5faec953bc2b75c79255819cf3e45d66447c4fb9fdd") "run" "1.0"
      annotatedGolden = .ok (.migrated r) ∧
    (dict annotatedGolden).get? [.key "operator"] = some (.leaf (.str "night shift")) ∧
    .str "night shift" ∉ r.dump.scalars ∧ ¬ Reported r [.key "operator"] ∧
    (dict annotatedGolden).get? [.key "software", .key "torch_cuda"] =
      some (.leaf (.str "11.8")) ∧
    .str "11.8" ∉ r.dump.scalars ∧ ¬ Reported r [.key "software", .key "torch_cuda"] ∧
    ¬ Lossless (tinyHost "a0ae387e11b2d6554d92f5faec953bc2b75c79255819cf3e45d66447c4fb9fdd")
      r.migration.family annotatedGolden r := by
  -- both names of the CUDA version are left out of the report
  have hrows : environmentLosses [] [("cuda", strValue "12.1"), ("torch_cuda", strValue "11.8")] =
      [] := by
    simp [environmentLosses, sortedKeys, SOFTWARE_CUDA_KEYS, List.mergeSort,
      List.MergeSort.Internal.splitInTwo]
  refine ⟨_, rfl, rfl, ?_, ?_, rfl, ?_, ?_, fun h => ?_⟩
  · rw [hrows]
    decide +kernel
  · rw [hrows]
    decide +kernel
  · rw [hrows]
    decide +kernel
  · rw [hrows]
    decide +kernel
  exact not_leafless_leaf _ (((golden_lossless_iff rfl).mp h).keys "operator" _ rfl rfl)

end Hqsb.Migrate
