/-
Hqsb/Core/MigrateGolden.lean

The golden documents that are migrated without a silent loss.

The parts of a migrated document are in `GoldenOf`, its loss report is in
`GoldenOf.reported_iff`, and `golden_lossless_iff` goes through the keys of the document.
-/
import Hqsb.Core.MigrateLoss

namespace Hqsb.Migrate

open Lib Lib.PathTree List
open Document (Scalar Value Members)

/-! ### Golden documents -/

structure GoldenOf (host : Host) (now : String) (document model hardware software : Members)
    (r : BenchmarkResult) : Prop where
  version : sourceVersionInfo document = .ok r.migration.declaredVersion
  modelBlock : block host document "model" = .ok model
  hardwareBlock : block host document "hardware" = .ok hardware
  softwareBlock : block host document "software" = .ok software
  inputTokens : intOf host document "input_tokens" (.error (.key "input_tokens")) =
    .ok r.workload.inputTokens
  outputTokens : intOf host document "output_tokens" (.error (.key "output_tokens")) =
    .ok r.workload.outputTokens
  environment : environmentOf host hardware software = .ok r.environment
  timestamp : timestampOf host now document = .ok r.timestamp
  summary : r.summary = [("first_token", (document.lookup "first_token").getD (.leaf .null)),
    ("input_token_ids", (document.lookup "input_token_ids").getD (.leaf .null))]
  links : r.artifactLinks = [("legacy_kind", "golden"), ("model_id", strOf host model "id"),
    ("source", strOf host model "source"), ("dtype", strOf host model "dtype")] ++
    givenLinks host model ["config_hash"] fun _ => "model_config_sha256"
  family : r.migration.family = .legacyGolden
  reported {p : List Hop} : Reported r p ↔ Mentioned (environmentLosses hardware software) p ∨
    (∃ key rest, p = .key "model" :: .key key :: rest ∧
      key ∈ ["config_hash", "id", "source", "dtype"] ∧ given host model key = true) ∨
    ∃ key rest, p = .key key :: rest ∧ key ∈ ["generated_tokens", "first_token"]

theorem golden_ok {host : Host} {runId now : String} {document : Members} {r : BenchmarkResult}
    (h : migrateLegacyGolden host runId now document = .ok r) :
    ∃ model hardware software, GoldenOf host now document model hardware software r := by
  obtain ⟨declared, hdeclared, h⟩ := bind_ok_iff.mp h
  obtain ⟨model, hmodel, h⟩ := bind_ok_iff.mp h
  obtain ⟨generated, hgenerated, h⟩ := bind_ok_iff.mp h
  obtain ⟨hardware, hhardware, h⟩ := bind_ok_iff.mp h
  obtain ⟨software, hsoftware, h⟩ := bind_ok_iff.mp h
  obtain ⟨inputTokens, hinput, h⟩ := bind_ok_iff.mp h
  obtain ⟨outputTokens, houtput, h⟩ := bind_ok_iff.mp h
  obtain ⟨environment, henvironment, h⟩ := bind_ok_iff.mp h
  obtain ⟨tokenIds, htokens, h⟩ := bind_ok_iff.mp h
  obtain ⟨workload, hworkload, h⟩ := bind_ok_iff.mp h
  obtain ⟨timestamp, htimestamp, h⟩ := bind_ok_iff.mp h
  obtain rfl := checkWorkload_ok hworkload
  cases h
  exact ⟨model, hardware, software, {
    version := hdeclared
    modelBlock := hmodel
    hardwareBlock := hhardware
    softwareBlock := hsoftware
    inputTokens := hinput
    outputTokens := houtput
    environment := henvironment
    timestamp := htimestamp
    summary := rfl
    links := rfl
    family := rfl
    reported := by
      intro p
      show Mentioned (environmentLosses hardware software ++ _ ++ _ ++ _) p ↔ _
      rw [mentioned_append, mentioned_append, mentioned_append, mentioned_note_cons,
        mentioned_row_cons, mentioned_row_cons, modelLosses, mentioned_modelRows,
        mentioned_modelRows, names_key, names_key]
      constructor
      · rintro (((henv | ⟨key, rest, hp, hkey, hgiven⟩) | ⟨rest, hp⟩ | ⟨rest, hp⟩ | hnil) |
          ⟨key, rest, hp, hkey, hgiven⟩)
        · exact .inl henv
        · obtain rfl := mem_singleton.mp hkey
          exact .inr (.inl ⟨_, rest, hp, .head _, hgiven⟩)
        · exact .inr (.inr ⟨_, rest, hp, by decide⟩)
        · exact .inr (.inr ⟨_, rest, hp, by decide⟩)
        · exact absurd hnil not_mentioned_nil
        · exact .inr (.inl ⟨key, rest, hp, .tail _ hkey, hgiven⟩)
      · rintro (henv | ⟨key, rest, hp, hkey, hgiven⟩ | ⟨key, rest, hp, hkey⟩)
        · exact .inl (.inl (.inl henv))
        · rcases mem_cons.mp hkey with rfl | hkey
          · exact .inl (.inl (.inr ⟨_, rest, hp, mem_singleton_self _, hgiven⟩))
          · exact .inr ⟨key, rest, hp, hkey, hgiven⟩
        · fin_cases hkey
          · exact .inl (.inr (.inl ⟨rest, hp⟩))
          · exact .inl (.inr (.inr (.inl ⟨rest, hp⟩))) }⟩

section Golden

variable {host : Host} {now : String} {document model hardware software : Members}
  {r : BenchmarkResult}

variable (h : GoldenOf host now document model hardware software r)

include h

theorem GoldenOf.not_reported {key : String} {rest : List Hop}
    (hkey : key ∉ ["hardware", "software", "model", "generated_tokens", "first_token"]) :
    ¬ Reported r (.key key :: rest) := by
  simp only [mem_cons, not_or] at hkey
  rw [h.reported, mentioned_environment]
  simp [hkey]

theorem GoldenOf.not_reported_model : ¬ Reported r [.key "model"] := by
  rw [h.reported, mentioned_environment]
  simp

theorem GoldenOf.reported_environment {name : String}
    (hname : name ∈ ["hardware", "software", "timestamp"]) (rest : List Hop) :
    Reported r (.key name :: rest) ↔
      Mentioned (environmentLosses hardware software) (.key name :: rest) := by
  rw [h.reported]
  fin_cases hname <;> simp

theorem GoldenOf.reported_model (key : String) (rest : List Hop) :
    Reported r (.key "model" :: .key key :: rest) ↔
      key ∈ ["config_hash", "id", "source", "dtype"] ∧ given host model key = true := by
  rw [h.reported, mentioned_environment]
  simp

theorem GoldenOf.link {key place : String}
    (hmem : (key, place) ∈ [("id", "model_id"), ("source", "source"), ("dtype", "dtype")]) :
    r.dump.get? (field "artifact_links" place) =
      some (.leaf (.str (strOf host model key))) := by
  show (dict (r.artifactLinks.map fun e => (e.1, strValue e.2))).get? [.key place] = _
  rw [h.links]
  fin_cases hmem <;> rfl

theorem GoldenOf.model_fine_iff {model' : Members}
    (hms : document.lookup "model" = some (.dict model')) :
    (∀ key, MemberFine host goldenTargets r "model" model' key) ↔
    (∀ key v, model'.lookup key = some v → key ∉ ["id", "source", "dtype", "config_hash"] →
      v.Leafless) ∧
    (∀ key ∈ ["id", "source", "dtype"], ∀ v, model'.lookup key = some v →
      truthy host v = true ∨ CarriedAs host v (.str (host.str v))) ∧
    ∀ v, model'.lookup "config_hash" = some v → truthy host v = true ∨ v.Leafless := by
  obtain rfl := (block_dict h.modelBlock hms).symm
  have hrows : ∀ key ∈ ["config_hash", "id", "source", "dtype"], ∀ rest,
      Reported r (.key "model" :: .key key :: rest) ↔ given host model key = true :=
    fun key hkey rest => (h.reported_model key rest).trans (and_iff_right hkey)
  have hidentity : ∀ key ∈ ["id", "source", "dtype"],
      (MemberFine host goldenTargets r "model" model key ↔ ∀ v, model.lookup key = some v →
        truthy host v = true ∨ CarriedAs host v (.str (host.str v))) := by
    intro key hkey
    fin_cases hkey <;>
      exact identity_fine_iff rfl rfl (hrows _ (by decide)) (h.link (by decide))
  have hhash : MemberFine host goldenTargets r "model" model "config_hash" ↔
      ∀ v, model.lookup "config_hash" = some v → truthy host v = true ∨ v.Leafless := by
    refine detail_fine_iff rfl rfl (hrows _ (by decide)) fun hgiven => link_absent ?_
    rw [h.links, map_append, mem_append, mem_givenLinks]
    rintro (hmem | ⟨key, hkey, htrue, -⟩)
    · exact absurd hmem (by simp)
    · rw [mem_singleton.mp hkey, hgiven] at htrue
      cases htrue
  rw [members_fine_iff ["id", "source", "dtype", "config_hash"] rfl
    (fun key hkey => lookup_eq_none_iff.mpr (by simpa using hkey))
    fun key hkey rest hreported => hkey (by
      have hmem := ((h.reported_model key rest).mp hreported).1
      simp only [mem_cons] at hmem ⊢
      tauto)]
  refine and_congr_right' ?_
  rw [show ["id", "source", "dtype", "config_hash"] = ["id", "source", "dtype"] ++ ["config_hash"]
    from rfl, forall_mem_append, forall_mem_singleton]
  exact and_congr (forall₂_congr hidentity) hhash

end Golden

/-- **A golden document** is migrated without a silent loss exactly if it is a `GoldenKept`. -/
theorem golden_lossless_iff {host : Host} {runId now : String} {document : Members}
    {r : BenchmarkResult} (h : migrateLegacyGolden host runId now document = .ok r) :
    Lossless host .legacyGolden document r ↔ GoldenKept host document := by
  obtain ⟨model, hardware, software, hparts⟩ := golden_ok h
  have henv := environmentKept_iff
    (show goldenTargets.lookup "hardware" = some (.members hardwareTargets) from rfl) rfl rfl
    hparts.hardwareBlock hparts.softwareBlock hparts.environment hparts.timestamp
    fun _ => hparts.reported_environment
  have hmodel := keyFine_section (show goldenTargets.lookup "model" = some (.members _) from rfl)
    hparts.not_reported_model hparts.modelBlock
  have hinput : KeyFine host goldenTargets r document "input_tokens" ↔ _ := fine_count (p := [_])
    (fun _ => rfl) (fun rest => hparts.not_reported (by decide)) hparts.inputTokens rfl
  have houtput : KeyFine host goldenTargets r document "output_tokens" ↔ _ := fine_count (p := [_])
    (fun _ => rfl) (fun rest => hparts.not_reported (by decide)) hparts.outputTokens rfl
  have hunknown : ∀ key, goldenTargets.lookup key = none →
      (KeyFine host goldenTargets r document key ↔ _) :=
    unknown_fine _ (by decide) fun _ hkey _ => hparts.not_reported hkey
  rw [lossless_iff]
  constructor
  · intro hfine
    obtain ⟨hsection, hmembers⟩ := hmodel.mp (hfine _)
    have hmodelKept := fun model' hms =>
      (hparts.model_fine_iff hms).mp (hmembers model' hms)
    exact {
      environment := henv.mpr ⟨hsection, hfine _, hfine _, hfine _⟩
      keys := fun key v hv hnone => (hunknown key hnone).mp (hfine key) v hv
      model := fun model' key v hms => (hmodelKept model' hms).1 key v
      identity := fun model' hms => (hmodelKept model' hms).2.1
      configHash := fun model' v hms => (hmodelKept model' hms).2.2 v
      counts := fun key hkey => by
        fin_cases hkey
        · exact hinput.mp (hfine _)
        · exact houtput.mp (hfine _) }
  · intro hkept key
    obtain ⟨hsection, hhardware, hsoftware, htimestamp⟩ := henv.mp hkept.environment
    cases hlookup : goldenTargets.lookup key with
    | none => exact (hunknown key hlookup).mpr fun v hv => hkept.keys key v hv hlookup
    | some place =>
      have hkey := mem_keys_iff.mpr ⟨place, hlookup⟩
      simp only [goldenTargets, map_cons, map_nil, mem_cons, not_mem_nil,
        or_false] at hkey
      rcases hkey with rfl | rfl | rfl | rfl | rfl | rfl | rfl | rfl | rfl | rfl
      · refine version_fine rfl hparts.version ?_
        rw [hparts.summary]
        exact rfl
      · exact htimestamp
      · refine hmodel.mpr ⟨hsection, fun model' hms => ?_⟩
        exact (hparts.model_fine_iff hms).mpr ⟨fun key v => hkept.model _ key v hms, hkept.identity _ hms,
          fun v => hkept.configHash _ v hms⟩
      · exact hhardware
      · exact hsoftware
      · exact hinput.mpr (hkept.counts _ (by decide))
      · exact houtput.mpr (hkept.counts _ (by decide))
      · refine fine_copy (p := [.key "input_token_ids"]) (fun _ => rfl) fun v hv => ?_
        show (dict (r.summary ++ _)).get? [.key "input_token_ids"] = some v
        rw [hparts.summary, hv]
        exact rfl
      · exact fun _ _ rest _ _ =>
          .inr (hparts.reported.mpr (.inr (.inr ⟨_, rest, rfl, by decide⟩)))
      · exact fun _ _ rest _ _ =>
          .inr (hparts.reported.mpr (.inr (.inr ⟨_, rest, rfl, by decide⟩)))

end Hqsb.Migrate
