/-
Hqsb/Core/MigrateLoss.lean

What a migration keeps of a legacy document.

A leaf is kept if the field that it is mapped onto has the same value, and it is reported if a
row of the loss report names it or something above it.  Keys that are not copied have no row, so
that a migration is lossless for the documents of `GoldenKept` and `ResultKept` only.

A document is lossless if its keys are (`lossless_iff`), and a key is copied, converted, named or
left out (`fine_copy`, `fine_converted`, `fine_unknown`).
-/
import Hqsb.Lib.Traverse
import Hqsb.Core.Migrate

namespace Hqsb.Migrate

open Lib Lib.PathTree List
open Document (Scalar Value Members)

/-! ### Kept and reported leaves -/

def number (host : Host) : Scalar → Option ℚ
  | .bool b => some (if b then 1 else 0)
  | .int n => some n
  | .float text => host.floatValue text
  | _ => none

/-- `==` of scalars. -/
def Same (host : Host) (a b : Scalar) : Prop :=
  a = b ∨ ∃ q, number host a = some q ∧ number host b = some q

/-- What becomes of a key: it is mapped as a whole, or member by member. -/
inductive Target where
  | whole (place : List Hop)
  | members (places : List (String × List Hop))

/-- The field below `head`. -/
def field (head name : String) : List Hop := [.key head, .key name]

def hardwareTargets : List (String × List Hop) :=
  [("platform", field "environment" "platform"), ("device", field "environment" "device"),
    ("compute_capability", field "environment" "compute_capability")]

def softwareTargets : List (String × List Hop) :=
  [("python", field "environment" "python_version"),
    ("torch", field "environment" "torch_version"), ("cuda", field "environment" "cuda_version"),
    ("torch_cuda", field "environment" "cuda_version")]

def declaredVersion : List Hop :=
  [.key "summary", .key "migration", .key "declared_version"]

def goldenTargets : List (String × Target) :=
  [("schema_version", .whole declaredVersion), ("timestamp", .whole [.key "timestamp"]),
    ("model", .members [("id", field "artifact_links" "model_id"),
      ("source", field "artifact_links" "source"), ("dtype", field "artifact_links" "dtype"),
      ("config_hash", field "artifact_links" "model_config_sha256")]),
    ("hardware", .members hardwareTargets), ("software", .members softwareTargets),
    ("input_tokens", .whole (field "workload" "input_tokens")),
    ("output_tokens", .whole (field "workload" "output_tokens")),
    ("input_token_ids", .whole (field "summary" "input_token_ids")),
    ("generated_tokens", .whole [.key "raw_samples", .index 0, .key "generated_token_ids"]),
    ("first_token", .whole (field "summary" "first_token"))]

def resultTargets : List (String × Target) :=
  [("schema_version", .whole declaredVersion), ("timestamp", .whole [.key "timestamp"]),
    ("model", .members [("id", field "artifact_links" "model_id"),
      ("backend", field "artifact_links" "backend"), ("dtype", field "artifact_links" "dtype"),
      ("source", field "artifact_links" "source"),
      ("local_path", field "artifact_links" "local_path"),
      ("attention_backend", field "artifact_links" "attention_backend"),
      ("load_time_s", field "summary" "model_load_time_s")]),
    ("hardware", .members hardwareTargets), ("software", .members softwareTargets),
    ("workload", .members [("input_tokens", field "workload" "input_tokens"),
      ("output_tokens", field "workload" "output_tokens"),
      ("batch_size", field "workload" "batch_size")]),
    ("repetitions", .whole [.key "raw_samples"]),
    ("deterministic", .whole (field "summary" "deterministic")),
    ("generated_token_sha256", .whole (field "summary" "generated_token_sha256"))]

def targetsOf : Family → List (String × Target)
  | .legacyGolden => goldenTargets
  | .legacyResult => resultTargets

/-- The field that a place is mapped onto. -/
def target (targets : List (String × Target)) : List Hop → Option (List Hop)
  | .key name :: rest =>
    match targets.lookup name with
    | some (.whole place) => some (place ++ rest)
    | some (.members places) =>
      match rest with
      | .key name :: rest => (places.lookup name).map fun place => place ++ rest
      | _ => none
    | none => none
  | _ => none

/-- The leaf is in the migrated document, where it is mapped onto, with the same value. -/
def Kept (host : Host) (targets : List (String × Target)) (r : BenchmarkResult) (p : List Hop)
    (a : Scalar) : Prop :=
  ∃ place, target targets p = some place ∧
    ∃ b, r.dump.get? place = some (.leaf b) ∧ Same host a b

/-- Does a row's source name a place, or something above it? -/
def names : List Part → List Hop → Bool
  | [], _ => true
  | .key name :: parts, .key other :: rest => name = other && names parts rest
  | .each :: parts, .index _ :: rest => names parts rest
  | _, _ => false

def Reported (r : BenchmarkResult) (p : List Hop) : Prop :=
  ∃ row ∈ r.migration.losses, ∃ parts, row.source = .field parts ∧ names parts p = true

def LossRow.names (row : LossRow) (p : List Hop) : Bool :=
  match row.source with
  | .note _ => false
  | .field parts => Migrate.names parts p

instance (r : BenchmarkResult) (p : List Hop) : Decidable (Reported r p) :=
  decidable_of_iff (r.migration.losses.any fun row => row.names p) (by
    rw [any_eq_true, Reported]
    refine exists_congr fun row => and_congr_right fun _ => ?_
    rw [LossRow.names]
    cases row.source with
    | note text => simp
    | field parts => simp)

/-- Nothing is lost silently: every leaf is kept or reported, also those of two leaves that are
mapped onto one field. -/
structure Lossless (host : Host) (family : Family) (document : Members) (r : BenchmarkResult) :
    Prop where
  leaves : ∀ p a, (dict document).get? p = some (.leaf a) →
    Kept host (targetsOf family) r p a ∨ Reported r p
  shared : ∀ p a q b place, (dict document).get? p = some (.leaf a) →
    (dict document).get? q = some (.leaf b) → p ≠ q →
      target (targetsOf family) p = some place → target (targetsOf family) q = some place →
        (Kept host (targetsOf family) r p a ∨ Reported r p) ∧
          (Kept host (targetsOf family) r q b ∨ Reported r q)

/-! ### Conditions -/

/-- The value has no leaf but itself, and it is the same as `b`. -/
def CarriedAs (host : Host) (v : Value) (b : Scalar) : Prop :=
  ∀ p a, v.get? p = some (.leaf a) → p = [] ∧ Same host a b

/-- What both families need: no section is a falsy scalar, and the values that are converted are
what they are converted to. -/
structure EnvironmentKept (host : Host) (document : Members) : Prop where
  sections : ∀ name ∈ ["model", "hardware", "software"], ∀ v, document.lookup name = some v →
    truthy host v = true ∨ v.Leafless
  capability : ∀ hardware vs, document.lookup "hardware" = some (.dict hardware) →
    hardware.lookup "compute_capability" = some (.items vs) → ∀ (i : Nat) v n, vs[i]? = some v →
      host.laxInt v = some n → CarriedAs host v (.int n)
  cuda : ∀ software b, document.lookup "software" = some (.dict software) →
    cudaVersion host software = .leaf b → ∀ key ∈ SOFTWARE_CUDA_KEYS, ∀ v,
      software.lookup key = some v → CarriedAs host v b
  timestamp : ∀ v text, document.lookup "timestamp" = some v → host.laxFloat v = some text →
    CarriedAs host v (.float text)

/-- The golden documents that nothing is lost of. -/
structure GoldenKept (host : Host) (document : Members) : Prop where
  environment : EnvironmentKept host document
  keys : ∀ key v, document.lookup key = some v → goldenTargets.lookup key = none → v.Leafless
  model : ∀ model key v, document.lookup "model" = some (.dict model) →
    model.lookup key = some v → key ∉ ["id", "source", "dtype", "config_hash"] → v.Leafless
  identity : ∀ model, document.lookup "model" = some (.dict model) →
    ∀ key ∈ ["id", "source", "dtype"], ∀ v, model.lookup key = some v →
      truthy host v = true ∨ CarriedAs host v (.str (host.str v))
  configHash : ∀ model v, document.lookup "model" = some (.dict model) →
    model.lookup "config_hash" = some v → truthy host v = true ∨ v.Leafless
  counts : ∀ key ∈ ["input_tokens", "output_tokens"], ∀ v n, document.lookup key = some v →
    pyInt host v = .ok n → CarriedAs host v (.int n)

/-- The repetitions that nothing is lost of: nothing of value is in the fields that are
overwritten. -/
structure RepetitionKept (host : Host) (rep : Members) : Prop where
  counts : ∀ key ∈ ["input_tokens", "output_tokens"], ∀ v n, rep.lookup key = some v →
    pyInt host v = .ok n → CarriedAs host v (.int n)
  generated : ∀ v, rep.lookup "generated_token_ids" = some v → (∃ ids, v = .items ids) ∨ v.Leafless
  itl : ∀ v, rep.lookup "itl_ms" = some v → v.Leafless

/-- The result documents that nothing is lost of. -/
structure ResultKept (host : Host) (document : Members) : Prop where
  environment : EnvironmentKept host document
  keys : ∀ key v, document.lookup key = some v → resultTargets.lookup key = none → v.Leafless
  model : ∀ model key v, document.lookup "model" = some (.dict model) →
    model.lookup key = some v → key ∉ ["id", "backend", "dtype", "source", "local_path",
      "attention_backend", "load_time_s"] → v.Leafless
  identity : ∀ model, document.lookup "model" = some (.dict model) →
    ∀ key ∈ ["id", "backend", "dtype"], ∀ v, model.lookup key = some v →
      truthy host v = true ∨ CarriedAs host v (.str (host.str v))
  links : ∀ model, document.lookup "model" = some (.dict model) →
    ∀ key ∈ ["source", "local_path", "attention_backend"], ∀ v, model.lookup key = some v →
      truthy host v = true ∨ v.Leafless
  loadTime : ∀ model, document.lookup "model" = some (.dict model) →
    model.lookup "load_time_s" ≠ some (.leaf .null)
  workload : ∀ workload key v, document.lookup "workload" = some (.dict workload) →
    workload.lookup key = some v → key ∉ ["input_tokens", "output_tokens", "batch_size"] →
      v.Leafless
  counts : ∀ workload, document.lookup "workload" = some (.dict workload) →
    ∀ key ∈ ["input_tokens", "output_tokens", "batch_size"], ∀ v n,
      workload.lookup key = some v → pyInt host v = .ok n → CarriedAs host v (.int n)
  repetitions : ∀ s, document.lookup "repetitions" ≠ some (.leaf s)
  items : ∀ vs, document.lookup "repetitions" = some (.items vs) → ∀ (i : Nat) rep,
    vs[i]? = some (.dict rep) → RepetitionKept host rep

/-! ### Leaves of a document -/

variable {document : Members} {host : Host} {r : BenchmarkResult}

theorem leaf_below {p : List Hop} {a : Scalar} (h : (dict document).get? p = some (.leaf a)) :
    ∃ key rest v, p = .key key :: rest ∧ document.lookup key = some v ∧
      v.get? rest = some (.leaf a) := by
  cases p with
  | nil => cases h
  | cons step rest =>
    cases step with
    | index i => cases h
    | key key =>
      rw [get?_dict_key, Option.bind_eq_some_iff] at h
      obtain ⟨v, hv, hrest⟩ := h
      exact ⟨key, rest, v, rfl, hv, hrest⟩

/-- A value that counts as false is a scalar, or there is nothing in it. -/
theorem falsy_cases {v : Value} (h : truthy host v = false) : (∃ a, v = .leaf a) ∨ v.Leafless := by
  cases v with
  | leaf a => exact .inl ⟨a, rfl⟩
  | items vs =>
    cases vs with
    | nil =>
      refine .inr fun p a hp => ?_
      cases p with
      | nil => cases hp
      | cons step rest => cases step <;> exact nomatch hp
    | cons v vs => cases h
  | dict ms =>
    cases ms with
    | nil =>
      refine .inr fun p a hp => ?_
      cases p with
      | nil => cases hp
      | cons step rest => cases step <;> exact nomatch hp
    | cons e ms => cases h

section Carry

variable {host : Host} {out w : Value} {place : List Hop}

theorem found_of_copy (hout : out.get? place = some w) {rest : List Hop} {a : Scalar}
    (h : w.get? rest = some (.leaf a)) :
    ∃ b, out.get? (place ++ rest) = some (.leaf b) ∧ Same host a b := by
  refine ⟨a, ?_, .inl rfl⟩
  rw [get?_append, hout]
  exact h

/-- All leaves of a value are found in a scalar exactly if it is carried as the scalar. -/
theorem found_iff_carried {b : Scalar} (hout : out.get? place = some (.leaf b)) :
    (∀ rest a, w.get? rest = some (.leaf a) →
      ∃ c, out.get? (place ++ rest) = some (.leaf c) ∧ Same host a c) ↔ CarriedAs host w b := by
  refine forall_congr' fun rest => forall_congr' fun a => imp_congr_right fun _ => ?_
  rw [get?_append, hout]
  constructor
  · rintro ⟨c, hc, hsame⟩
    obtain ⟨rfl, hleaf⟩ := get?_leaf hc
    cases hleaf
    exact ⟨rfl, hsame⟩
  · rintro ⟨rfl, hsame⟩
    exact ⟨b, rfl, hsame⟩

variable (host) in
theorem found_iff_leafless (hout : out.get? place = none) :
    (∀ rest a, w.get? rest = some (.leaf a) →
      ∃ c, out.get? (place ++ rest) = some (.leaf c) ∧ Same host a c) ↔ w.Leafless := by
  refine forall_congr' fun rest => forall_congr' fun a => ?_
  rw [get?_append, hout]
  constructor
  · intro h hleaf
    obtain ⟨c, hc, -⟩ := h hleaf
    cases hc
  · exact fun h hleaf => absurd hleaf h

end Carry

/-! ### Targets -/

section Targets

variable {host : Host} {targets : List (String × Target)} {r : BenchmarkResult} {p place : List Hop}
  {a : Scalar} {name key : String} {rest : List Hop}

theorem not_kept (h : target targets p = none) : ¬ Kept host targets r p a := by
  rintro ⟨place, hplace, -⟩
  exact nomatch h.symm.trans hplace

theorem kept_iff (h : target targets p = some place) : Kept host targets r p a ↔
    ∃ b, r.dump.get? place = some (.leaf b) ∧ Same host a b := by
  constructor
  · rintro ⟨place', hplace, hfound⟩
    cases h.symm.trans hplace
    exact hfound
  · exact fun hfound => ⟨place, h, hfound⟩

theorem target_whole (h : targets.lookup name = some (.whole place)) :
    target targets (.key name :: rest) = some (place ++ rest) := by
  rw [target, h]

variable {places : List (String × List Hop)}

theorem target_section (h : targets.lookup name = some (.members places)) :
    target targets [.key name] = none := by
  rw [target, h]

theorem target_member (h : targets.lookup name = some (.members places)) :
    target targets (.key name :: .key key :: rest) = (places.lookup key).map (· ++ rest) := by
  rw [target, h]

end Targets

/-! ### Rows -/

def Mentioned (losses : List LossRow) (p : List Hop) : Prop :=
  ∃ row ∈ losses, ∃ parts, row.source = .field parts ∧ names parts p = true

section Rows

variable {p : List Hop} {l : List LossRow} {acceptance : Acceptance} {lossClass : LossClass}
  {name : String}

theorem mentioned_append {l' : List LossRow} :
    Mentioned (l ++ l') p ↔ Mentioned l p ∨ Mentioned l' p := by
  simp only [Mentioned, mem_append, or_and_right, exists_or]

theorem mentioned_cons {row : LossRow} :
    Mentioned (row :: l) p ↔ (∃ parts, row.source = .field parts ∧ names parts p = true) ∨
      Mentioned l p := by
  simp only [Mentioned, mem_cons, or_and_right, exists_or, exists_eq_left]

theorem mentioned_note_cons {text target : String} :
    Mentioned (⟨.note text, target, lossClass, acceptance⟩ :: l) p ↔ Mentioned l p := by
  rw [mentioned_cons]
  exact or_iff_right fun ⟨_, h, _⟩ => (nomatch h)

theorem mentioned_row_cons {parts : List Part} {target : String} :
    Mentioned (lossRow parts target lossClass acceptance :: l) p ↔
      names parts p = true ∨ Mentioned l p := by
  rw [mentioned_cons]
  refine or_congr_left ⟨?_, fun h => ⟨parts, rfl, h⟩⟩
  rintro ⟨_, hsource, h⟩
  cases hsource
  exact h

theorem not_mentioned_nil : ¬ Mentioned [] p := fun ⟨_, h, _⟩ => nomatch h

theorem names_key : names [.key name] p = true ↔ ∃ rest, p = .key name :: rest := by
  cases p with
  | nil => exact ⟨fun h => (nomatch h), fun ⟨_, h⟩ => (nomatch h)⟩
  | cons step p =>
    cases step with
    | index i => exact ⟨fun h => (nomatch h), fun ⟨_, h⟩ => (nomatch h)⟩
    | key other =>
      simp only [names, Bool.and_true, decide_eq_true_eq, List.cons.injEq, Hop.key.injEq]
      exact ⟨fun h => ⟨p, h.symm, rfl⟩, fun ⟨_, h, _⟩ => h.symm⟩

theorem names_key_key {key : String} :
    names [.key name, .key key] p = true ↔ ∃ rest, p = .key name :: .key key :: rest := by
  cases p with
  | nil => exact ⟨fun h => (nomatch h), fun ⟨_, h⟩ => (nomatch h)⟩
  | cons step p =>
    cases step with
    | index i => exact ⟨fun h => (nomatch h), fun ⟨_, h⟩ => (nomatch h)⟩
    | key other =>
      rw [names, Bool.and_eq_true, decide_eq_true_eq, names_key]
      simp only [List.cons.injEq, Hop.key.injEq]
      exact ⟨fun ⟨h, rest, hp⟩ => ⟨rest, h.symm, hp⟩, fun ⟨rest, h, hp⟩ => ⟨h.symm, rest, hp⟩⟩

theorem mentioned_map_iff {keys : List String} {row : String → LossRow}
    (hrow : ∀ key, (row key).source = .field [.key name, .key key]) :
    Mentioned (keys.map row) p ↔
      ∃ key rest, p = .key name :: .key key :: rest ∧ key ∈ keys := by
  constructor
  · rintro ⟨_, hmem, parts, hsource, hnames⟩
    obtain ⟨key, hkey, rfl⟩ := mem_map.mp hmem
    rw [hrow key] at hsource
    cases hsource
    obtain ⟨rest, hp⟩ := names_key_key.mp hnames
    exact ⟨key, rest, hp, hkey⟩
  · rintro ⟨key, rest, hp, hkey⟩
    exact ⟨row key, mem_map_of_mem hkey, _, hrow key, names_key_key.mpr ⟨rest, hp⟩⟩

theorem mentioned_modelRows {host : Host} {model : Members} {keys : List String}
    {place : String → String} :
    Mentioned (modelRows host model keys place lossClass acceptance) p ↔
      ∃ key rest, p = .key "model" :: .key key :: rest ∧ key ∈ keys ∧
        given host model key = true := by
  rw [modelRows, mentioned_map_iff fun key => rfl]
  simp only [mem_filter]

theorem mem_sortedKeys {ms : Members} {key : String} :
    key ∈ sortedKeys ms ↔ ∃ v, ms.lookup key = some v := by
  rw [sortedKeys, mem_mergeSort, mem_keys_iff]

/-- Rows for the details of hardware and software that have no field of their own. -/
theorem mentioned_environment {hardware software : Members} :
    Mentioned (environmentLosses hardware software) p ↔
      (∃ key rest, p = .key "hardware" :: .key key :: rest ∧
        (∃ v, hardware.lookup key = some v) ∧
          key ∉ ["platform", "device", "compute_capability"]) ∨
      ∃ key rest, p = .key "software" :: .key key :: rest ∧
        (∃ v, software.lookup key = some v) ∧ key ∉ ["python", "torch"] ++ SOFTWARE_CUDA_KEYS := by
  rw [environmentLosses, mentioned_append, mentioned_map_iff fun key => rfl,
    mentioned_map_iff fun key => rfl]
  simp only [mem_filter, mem_sortedKeys, decide_eq_true_eq]

end Rows

/-! ### Keys -/

section Keys

variable (host : Host) (targets : List (String × Target)) (r : BenchmarkResult)

def Accounted (p : List Hop) (a : Scalar) : Prop := Kept host targets r p a ∨ Reported r p

/-- Every leaf below a key is kept or reported. -/
def KeyFine (document : Members) (key : String) : Prop :=
  ∀ v, document.lookup key = some v → ∀ rest a, v.get? rest = some (.leaf a) →
    Accounted host targets r (.key key :: rest) a

/-- Every leaf below a member of a section is kept or reported. -/
def MemberFine (name : String) (ms : Members) (key : String) : Prop :=
  ∀ w, ms.lookup key = some w → ∀ rest a, w.get? rest = some (.leaf a) →
    Accounted host targets r (.key name :: .key key :: rest) a

variable {host targets r} {document ms : Members} {name key : String}

theorem leaves_iff :
    (∀ p a, (dict document).get? p = some (.leaf a) → Accounted host targets r p a) ↔
      ∀ key, KeyFine host targets r document key := by
  constructor
  · intro h key v hv rest a hrest
    refine h (.key key :: rest) a ?_
    rw [get?_dict_key, hv]
    exact hrest
  · intro h p a hp
    obtain ⟨key, rest, v, rfl, hv, hrest⟩ := leaf_below hp
    exact h key v hv rest a hrest

/-- Every leaf of a value that is at `p` is kept or reported. -/
def Fine (host : Host) (targets : List (String × Target)) (r : BenchmarkResult) (p : List Hop)
    (o : Option Value) : Prop :=
  ∀ v, o = some v → ∀ rest a, v.get? rest = some (.leaf a) → Accounted host targets r (p ++ rest) a

section Fine

variable {p place : List Hop} {o : Option Value}

theorem fine_unknown (hnone : ∀ rest, target targets (p ++ rest) = none)
    (hrows : ∀ rest, ¬ Reported r (p ++ rest)) :
    Fine host targets r p o ↔ ∀ v, o = some v → v.Leafless := by
  refine forall_congr' fun v => imp_congr_right fun _ => forall_congr' fun rest =>
    forall_congr' fun a => ?_
  constructor
  · exact fun h hleaf => (h hleaf).elim (not_kept (hnone rest)) (hrows rest)
  · exact fun h hleaf => absurd hleaf h

variable (hplace : ∀ rest, target targets (p ++ rest) = some (place ++ rest))

include hplace

theorem fine_copy (hout : ∀ v, o = some v → r.dump.get? place = some v) :
    Fine host targets r p o := fun v hv rest _ hleaf =>
  .inl ((kept_iff (hplace rest)).mpr (found_of_copy (hout v hv) hleaf))

variable (hrows : ∀ rest, ¬ Reported r (p ++ rest))

include hrows

theorem fine_iff_found : Fine host targets r p o ↔ ∀ v, o = some v → ∀ rest a,
    v.get? rest = some (.leaf a) →
      ∃ b, r.dump.get? (place ++ rest) = some (.leaf b) ∧ Same host a b := by
  refine forall_congr' fun v => imp_congr_right fun _ => forall_congr' fun rest =>
    forall_congr' fun a => imp_congr_right fun _ => ?_
  rw [Accounted, or_iff_left (hrows rest), kept_iff (hplace rest)]

theorem fine_converted {b : Scalar} (hout : r.dump.get? place = some (.leaf b)) :
    Fine host targets r p o ↔ ∀ v, o = some v → CarriedAs host v b := by
  rw [fine_iff_found hplace hrows]
  exact forall_congr' fun v => imp_congr_right fun _ => found_iff_carried hout

theorem fine_absent (hout : r.dump.get? place = none) :
    Fine host targets r p o ↔ ∀ v, o = some v → v.Leafless := by
  rw [fine_iff_found hplace hrows]
  exact forall_congr' fun v => imp_congr_right fun _ => found_iff_leafless host hout

theorem fine_count {fallback : Except MigrateError Int} {n : Int}
    (hcount : intOf host ms key fallback = .ok n)
    (hout : r.dump.get? place = some (.leaf (.int n))) : Fine host targets r p (ms.lookup key) ↔
      ∀ v n, ms.lookup key = some v → pyInt host v = .ok n → CarriedAs host v (.int n) := by
  rw [fine_converted hplace hrows hout]
  refine forall_congr' fun v => ⟨fun h m hv hm => ?_, fun h hv => ?_⟩
  · rw [intOf, hv] at hcount
    rw [Except.ok.inj (hm.symm.trans hcount)]
    exact h hv
  · rw [intOf, hv] at hcount
    exact h n hv hcount

end Fine

theorem block_truthy (hblock : block host document name = .ok ms) {v : Value}
    (hv : document.lookup name = some v) (htrue : truthy host v = true) : v = .dict ms := by
  rw [block, hv] at hblock
  dsimp only at hblock
  rw [if_pos htrue] at hblock
  cases v with
  | leaf a => cases hblock
  | items vs => cases hblock
  | dict ms' => rw [Except.ok.inj hblock]

theorem block_dict (hblock : block host document name = .ok ms) {ms' : Members}
    (hv : document.lookup name = some (.dict ms')) : ms' = ms := by
  cases ms' with
  | nil =>
    rw [block, hv] at hblock
    exact Except.ok.inj hblock
  | cons e rest => exact PathTree.dict.inj (block_truthy hblock hv rfl)

theorem unknown_fine (keys : List String) (hkeys : ∀ key ∈ keys, targets.lookup key ≠ none)
    (hrows : ∀ key ∉ keys, ∀ rest, ¬ Reported r (.key key :: rest)) (key : String)
    (hnone : targets.lookup key = none) :
    KeyFine host targets r document key ↔ ∀ v, document.lookup key = some v → v.Leafless :=
  fine_unknown (p := [.key key]) (fun _ => by rw [singleton_append, target, hnone])
    fun rest => hrows key (fun hkey => hkeys key hkey hnone) rest

/-- **A section** is a falsy scalar, or it is fine member by member. -/
theorem keyFine_section {places : List (String × List Hop)}
    (hmembers : targets.lookup name = some (.members places)) (hrows : ¬ Reported r [.key name])
    (hblock : block host document name = .ok ms) : KeyFine host targets r document name ↔
      (∀ v, document.lookup name = some v → truthy host v = true ∨ v.Leafless) ∧
        ∀ ms', document.lookup name = some (.dict ms') →
          ∀ key, MemberFine host targets r name ms' key := by
  constructor
  · refine fun h => ⟨fun v hv => ?_, fun ms' hms key w hw rest a hleaf => ?_⟩
    · by_cases htrue : truthy host v = true
      · exact .inl htrue
      rcases falsy_cases (Bool.not_eq_true _ ▸ htrue) with ⟨a, rfl⟩ | hleafless
      · exact ((h _ hv [] a rfl).elim (not_kept (target_section hmembers)) hrows).elim
      · exact .inr hleafless
    · refine h (.dict ms') hms (.key key :: rest) a ?_
      rw [get?_dict_key, hw]
      exact hleaf
  · rintro ⟨htruthy, hfine⟩ v hv rest a hleaf
    rcases htruthy v hv with htrue | hleafless
    swap
    · exact absurd hleaf (hleafless rest a)
    obtain rfl := block_truthy hblock hv htrue
    obtain ⟨key, rest, w, rfl, hw, hleaf⟩ := leaf_below hleaf
    exact hfine ms hv key w hw rest a hleaf

/-- **The members of a section**: those of `keys`, one by one, and nothing else. -/
theorem members_fine_iff {places : List (String × List Hop)} (keys : List String)
    (hmembers : targets.lookup name = some (.members places))
    (hplaces : ∀ key, key ∉ keys → places.lookup key = none)
    (hrows : ∀ key, key ∉ keys → ∀ rest, ¬ Reported r (.key name :: .key key :: rest)) :
    (∀ key, MemberFine host targets r name ms key) ↔
      (∀ key v, ms.lookup key = some v → key ∉ keys → v.Leafless) ∧
        ∀ key ∈ keys, MemberFine host targets r name ms key := by
  have hunknown : ∀ key, key ∉ keys →
      (MemberFine host targets r name ms key ↔ ∀ v, ms.lookup key = some v → v.Leafless) := by
    refine fun key hkey => fine_unknown (p := [_, .key key]) (fun rest => ?_) (hrows key hkey)
    exact (target_member hmembers).trans (by rw [hplaces key hkey, Option.map_none])
  constructor
  · exact fun h => ⟨fun key v hv hkey => (hunknown key hkey).mp (h key) v hv, fun key _ => h key⟩
  · rintro ⟨hother, hkeys⟩ key
    by_cases hkey : key ∈ keys
    · exact hkeys key hkey
    · exact (hunknown key hkey).mpr fun v hv => hother key v hv hkey

end Keys

/-! ### Environment -/

structure EnvironmentOf (host : Host) (hardware software : Members) (e : EnvironmentInfo) :
    Prop where
  platform : textField hardware "platform" = .ok e.platform
  device : textField hardware "device" = .ok e.device
  capability : intList host "compute_capability" (hardware.lookup "compute_capability") =
    .ok e.computeCapability
  python : textField software "python" = .ok e.pythonVersion
  torch : textField software "torch" = .ok e.torchVersion
  cuda : cudaVersion host software = .leaf (.str e.cudaVersion)

theorem asText_ok {field s : String} {v : Value} (h : asText field v = .ok s) :
    v = .leaf (.str s) := by
  rw [asText.eq_def] at h
  split at h
  next t => rw [Except.ok.inj h]
  next => exact nomatch h

theorem environmentOf_ok {hardware software : Members} {e : EnvironmentInfo}
    (h : environmentOf host hardware software = .ok e) :
    EnvironmentOf host hardware software e := by
  obtain ⟨platform, hplatform, h⟩ := bind_ok_iff.mp h
  obtain ⟨device, hdevice, h⟩ := bind_ok_iff.mp h
  obtain ⟨capability, hcapability, h⟩ := bind_ok_iff.mp h
  obtain ⟨python, hpython, h⟩ := bind_ok_iff.mp h
  obtain ⟨torch, htorch, h⟩ := bind_ok_iff.mp h
  obtain ⟨cuda, hcuda, h⟩ := bind_ok_iff.mp h
  cases h
  exact ⟨hplatform, hdevice, hcapability, hpython, htorch, asText_ok hcuda⟩

/-- The items of a list whose items all are converted. -/
theorem exists_of_mapM_eq_some {α β : Type} {f : α → Option β} : ∀ {l : List α} {r : List β},
    l.mapM f = some r → ∀ {i : Nat} {a : α}, l[i]? = some a → ∃ b, r[i]? = some b ∧ f a = some b
  | [], _, _, _, _, h => nomatch h
  | a :: l, r, hmap, i, x, h => by
    simp only [mapM_cons, Option.bind_eq_bind, Option.bind_eq_some_iff, Option.pure_def,
      Option.some.injEq] at hmap
    obtain ⟨b, hb, rest, hrest, rfl⟩ := hmap
    cases i with
    | zero =>
      cases h
      exact ⟨b, rfl, hb⟩
    | succ i => exact exists_of_mapM_eq_some hrest h

section Environment

variable {host : Host} {targets : List (String × Target)} {r : BenchmarkResult}
  {hardware software : Members}

theorem text_fine {block : Members} {head key s : String} {places : List (String × List Hop)}
    {place : List Hop} (hmembers : targets.lookup head = some (.members places))
    (hplace : places.lookup key = some place) (htext : textField block key = .ok s)
    (hdump : r.dump.get? place = some (.leaf (.str s))) :
    MemberFine host targets r head block key := by
  refine fine_copy (p := [_, _]) (fun _ => (target_member hmembers).trans (by rw [hplace]; rfl))
    fun w hw => ?_
  rw [textField, hw] at htext
  exact hdump.trans (congrArg some (asText_ok htext).symm)

/-- **Hardware**: details without a field are named, texts are copied, and the compute capability
is a list of integers. -/
theorem hardware_fine_iff (hmembers : targets.lookup "hardware" = some (.members hardwareTargets))
    (henv : EnvironmentOf host hardware software r.environment)
    (hrows : ∀ key rest, Reported r (.key "hardware" :: .key key :: rest) ↔
      (∃ v, hardware.lookup key = some v) ∧
        key ∉ ["platform", "device", "compute_capability"]) :
    (∀ key, MemberFine host targets r "hardware" hardware key) ↔
      ∀ vs, hardware.lookup "compute_capability" = some (.items vs) →
        ∀ (i : Nat) v n, vs[i]? = some v → host.laxInt v = some n → CarriedAs host v (.int n) := by
  have hcapability := henv.capability
  have htarget : ∀ rest, target targets (.key "hardware" :: .key "compute_capability" :: rest) =
    some (field "environment" "compute_capability" ++ rest) := fun _ => target_member hmembers
  -- the integers of the list, one by one
  have hitem : ∀ vs, hardware.lookup "compute_capability" = some (.items vs) →
      ∀ (i : Nat) v, vs[i]? = some v → ∃ n, host.laxInt v = some n ∧
        r.dump.get? (field "environment" "compute_capability" ++ [Hop.index i]) =
          some (.leaf (.int n)) := by
    intro vs hvs i v hv
    rw [hvs, intList] at hcapability
    cases hmap : vs.mapM host.laxInt with
    | none =>
      rw [hmap] at hcapability
      cases hcapability
    | some l =>
      rw [hmap] at hcapability
      obtain ⟨n, hget, hn⟩ := exists_of_mapM_eq_some hmap hv
      refine ⟨n, hn, ?_⟩
      have hdump : r.dump.get? (field "environment" "compute_capability") =
          some (.items (l.map intValue)) := by
        show some (optional (fun l => PathTree.items (l.map intValue))
          r.environment.computeCapability) = _
        rw [← Except.ok.inj hcapability]
        rfl
      rw [get?_append, hdump, Option.bind_some, get?_items_index, List.getElem?_map, hget]
      rfl
  constructor
  · intro h vs hvs i v n hv hn
    obtain ⟨m, hm, hdump⟩ := hitem vs hvs i v hv
    cases hm.symm.trans hn
    refine (found_iff_carried hdump).mp fun rest a hleaf => ?_
    have hat := h "compute_capability" (.items vs) hvs (.index i :: rest) a (by
      rw [get?_items_index, hv]
      exact hleaf)
    have hnot : ¬ Reported r (.key "hardware" :: .key "compute_capability" ::
        .index i :: rest) := fun hreported =>
      ((hrows _ _).mp hreported).2 (by decide)
    have hfound := (kept_iff (htarget _)).mp (hat.resolve_right hnot)
    rwa [← singleton_append] at hfound
  · intro h key
    by_cases hkey : key ∈ ["platform", "device", "compute_capability"]
    swap
    · exact fun w hw rest a _ => .inr ((hrows key rest).mpr ⟨⟨w, hw⟩, hkey⟩)
    fin_cases hkey
    · exact text_fine hmembers rfl henv.platform rfl
    · exact text_fine hmembers rfl henv.device rfl
    · intro w hw rest a hleaf
      refine .inl ((kept_iff (htarget rest)).mpr ?_)
      cases w with
      | leaf scalar =>
        cases scalar with
        | null =>
          rw [hw] at hcapability
          obtain ⟨rfl, ha⟩ := get?_leaf hleaf
          refine ⟨.null, ?_, .inl (PathTree.leaf.inj ha)⟩
          show some (optional (fun l => PathTree.items (l.map intValue))
            r.environment.computeCapability) = _
          rw [← Except.ok.inj hcapability]
          rfl
        | _ =>
          rw [hw] at hcapability
          cases hcapability
      | dict ms =>
        rw [hw] at hcapability
        cases hcapability
      | items vs =>
        cases rest with
        | nil => cases hleaf
        | cons step rest =>
          cases step with
          | key name => cases hleaf
          | index i =>
            rw [get?_items_index, Option.bind_eq_some_iff] at hleaf
            obtain ⟨v, hv, hleaf⟩ := hleaf
            obtain ⟨n, hn, hdump⟩ := hitem vs hw i v hv
            have hfound := (found_iff_carried hdump).mpr (h vs hw i v n hv hn) rest a hleaf
            rwa [append_assoc] at hfound

/-- **Software**: two names of the CUDA version share a field, everything else is copied or
named. -/
theorem software_fine_iff (hmembers : targets.lookup "software" = some (.members softwareTargets))
    (henv : EnvironmentOf host hardware software r.environment)
    (hrows : ∀ key rest, Reported r (.key "software" :: .key key :: rest) ↔
      (∃ v, software.lookup key = some v) ∧ key ∉ ["python", "torch"] ++ SOFTWARE_CUDA_KEYS) :
    (∀ key, MemberFine host targets r "software" software key) ↔
      ∀ b, cudaVersion host software = .leaf b → ∀ key ∈ SOFTWARE_CUDA_KEYS, ∀ v,
        software.lookup key = some v → CarriedAs host v b := by
  have hcuda : ∀ key ∈ SOFTWARE_CUDA_KEYS, (MemberFine host targets r "software" software key ↔
      ∀ v, software.lookup key = some v → CarriedAs host v (.str r.environment.cudaVersion)) := by
    intro key hkey
    refine fine_converted (p := [_, .key key]) (fun rest => (target_member hmembers).trans ?_)
      (fun rest h => ((hrows key rest).mp h).2 (mem_append_right _ hkey))
      (show r.dump.get? (field "environment" "cuda_version") = _ from rfl)
    fin_cases hkey <;> rfl
  constructor
  · intro h b hb key hkey
    cases hb.symm.trans henv.cuda
    exact (hcuda key hkey).mp (h key)
  · intro h key
    by_cases hkey : key ∈ ["python", "torch"] ++ SOFTWARE_CUDA_KEYS
    swap
    · exact fun w hw rest a _ => .inr ((hrows key rest).mpr ⟨⟨w, hw⟩, hkey⟩)
    rcases mem_append.mp hkey with hkey | hkey
    swap
    · exact (hcuda key hkey).mpr (h _ henv.cuda key hkey)
    fin_cases hkey
    · exact text_fine hmembers rfl henv.python rfl
    · exact text_fine hmembers rfl henv.torch rfl

theorem version_fine {document : Members}
    (hwhole : targets.lookup "schema_version" = some (.whole declaredVersion))
    (hversion : sourceVersionInfo document = .ok r.migration.declaredVersion)
    (hsummary : r.summary.lookup "migration" = none) :
    KeyFine host targets r document "schema_version" := by
  refine fine_copy (p := [.key "schema_version"]) (fun _ => target_whole hwhole) fun v hv => ?_
  have hdump : r.dump.get? declaredVersion =
      some (optional strValue r.migration.declaredVersion) := by
    show (dict (r.summary ++ _)).get? [.key "migration", .key "declared_version"] = _
    rw [get?_dict_key, lookup_append, hsummary]
    exact rfl
  rw [hdump]
  rw [sourceVersionInfo, hv] at hversion
  split at hversion
  next heq => exact nomatch heq
  next heq =>
    rw [Option.some.inj heq, ← Except.ok.inj hversion]
    rfl
  next raw heq =>
    rw [Option.some.inj heq]
    split at hversion
    · cases hversion
    · split at hversion
      · cases hversion
      · cases hversion
      · rw [← Except.ok.inj hversion]
        rfl
  next => exact nomatch hversion

theorem timestamp_fine_iff {now : String} {document : Members}
    (hwhole : targets.lookup "timestamp" = some (.whole [.key "timestamp"]))
    (htimestamp : timestampOf host now document = .ok r.timestamp)
    (hrows : ∀ rest, ¬ Reported r (.key "timestamp" :: rest)) :
    KeyFine host targets r document "timestamp" ↔
      ∀ v text, document.lookup "timestamp" = some v → host.laxFloat v = some text →
        CarriedAs host v (.float text) := by
  refine (fine_converted (p := [.key "timestamp"]) (fun _ => target_whole hwhole) hrows
    (b := .float r.timestamp) rfl).trans (forall_congr' fun v => ?_)
  constructor
  · intro h text hv htext
    rw [timestampOf, hv] at htimestamp
    simp only [htext] at htimestamp
    exact Except.ok.inj htimestamp ▸ h hv
  · intro h hv
    rw [timestampOf, hv] at htimestamp
    dsimp only at htimestamp
    cases htext : host.laxFloat v with
    | none =>
      rw [htext] at htimestamp
      cases htimestamp
    | some text =>
      rw [htext] at htimestamp
      exact Except.ok.inj htimestamp ▸ h text hv htext

/-- **The environment** of a document: its sections, one by one. -/
theorem environmentKept_iff {now : String} {document : Members}
    (hhardware : targets.lookup "hardware" = some (.members hardwareTargets))
    (hsoftware : targets.lookup "software" = some (.members softwareTargets))
    (hwhole : targets.lookup "timestamp" = some (.whole [.key "timestamp"]))
    (hardwareBlock : block host document "hardware" = .ok hardware)
    (softwareBlock : block host document "software" = .ok software)
    (henv : environmentOf host hardware software = .ok r.environment)
    (htimestamp : timestampOf host now document = .ok r.timestamp)
    (hrows : ∀ name ∈ ["hardware", "software", "timestamp"], ∀ rest, Reported r (.key name :: rest) ↔
      Mentioned (environmentLosses hardware software) (.key name :: rest)) :
    EnvironmentKept host document ↔
      (∀ v, document.lookup "model" = some v → truthy host v = true ∨ v.Leafless) ∧
        KeyFine host targets r document "hardware" ∧ KeyFine host targets r document "software" ∧
          KeyFine host targets r document "timestamp" := by
  have henv := environmentOf_ok henv
  simp only [mentioned_environment] at hrows
  have hhardwareIff := hardware_fine_iff hhardware henv fun key rest =>
    (hrows "hardware" (by decide) _).trans (by simp)
  have hsoftwareIff := software_fine_iff hsoftware henv fun key rest =>
    (hrows "software" (by decide) _).trans (by simp)
  rw [keyFine_section hhardware (by simp [hrows]) hardwareBlock,
    keyFine_section hsoftware (by simp [hrows]) softwareBlock,
    timestamp_fine_iff hwhole htimestamp (by simp [hrows])]
  constructor
  · intro hkept
    refine ⟨hkept.sections _ (by decide), ⟨hkept.sections _ (by decide), fun ms' hms => ?_⟩,
      ⟨hkept.sections _ (by decide), fun ms' hms => ?_⟩, hkept.timestamp⟩
    · obtain rfl := block_dict hardwareBlock hms
      exact hhardwareIff.mpr fun vs => hkept.capability _ vs hms
    · obtain rfl := block_dict softwareBlock hms
      exact hsoftwareIff.mpr fun b => hkept.cuda _ b hms
  · rintro ⟨hmodel, ⟨hhardwareTrue, hhardwareFine⟩, ⟨hsoftwareTrue, hsoftwareFine⟩, htime⟩
    refine ⟨fun name hname => ?_, fun ms' vs hms => ?_, fun ms' b hms => ?_, htime⟩
    · fin_cases hname
      · exact hmodel
      · exact hhardwareTrue
      · exact hsoftwareTrue
    · obtain rfl := block_dict hardwareBlock hms
      exact hhardwareIff.mp (hhardwareFine _ hms) vs
    · obtain rfl := block_dict softwareBlock hms
      exact hsoftwareIff.mp (hsoftwareFine _ hms) b

end Environment

theorem lossless_iff {family : Family} :
    Lossless host family document r ↔ ∀ key, KeyFine host (targetsOf family) r document key := by
  rw [← leaves_iff]
  exact ⟨fun h => h.leaves, fun h => ⟨h, fun p a q b _ hp hq _ _ _ => ⟨h p a hp, h q b hq⟩⟩⟩

/-! ### Members of the model block -/

section Model

variable {host : Host} {targets : List (String × Target)} {r : BenchmarkResult} {model : Members}
  {places : List (String × List Hop)} {place : List Hop} {key : String}

theorem given_eq {v : Value} (hv : model.lookup key = some v) :
    given host model key = truthy host v := by
  rw [given, hv, Option.any_some]

theorem strOf_eq {v : Value} (hv : model.lookup key = some v) :
    strOf host model key = host.str v := by
  rw [strOf, hv, Option.getD_some]

variable (hmembers : targets.lookup "model" = some (.members places))
  (hplace : places.lookup key = some place)
  (hrows : ∀ rest, Reported r (.key "model" :: .key key :: rest) ↔ given host model key = true)

include hmembers hplace hrows

/-- A member that is named if it is given: what is found of it otherwise. -/
theorem given_fine_iff {P : Value → Prop}
    (hfound : ∀ v, model.lookup key = some v → truthy host v = false →
      ((∀ rest a, v.get? rest = some (.leaf a) →
        ∃ b, r.dump.get? (place ++ rest) = some (.leaf b) ∧ Same host a b) ↔ P v)) :
    MemberFine host targets r "model" model key ↔ ∀ v, model.lookup key = some v →
      truthy host v = true ∨ P v := by
  refine forall_congr' fun v => imp_congr_right fun hv => ?_
  by_cases htrue : truthy host v = true
  · exact iff_of_true (fun rest a _ => .inr ((hrows rest).mpr ((given_eq hv).trans htrue)))
      (.inl htrue)
  rw [or_iff_right htrue, ← hfound v hv (Bool.not_eq_true _ ▸ htrue)]
  refine forall_congr' fun rest => forall_congr' fun a => imp_congr_right fun _ => ?_
  have htarget : target targets (.key "model" :: .key key :: rest) = some (place ++ rest) := by
    rw [target_member hmembers, hplace, Option.map_some]
  rw [Accounted, or_iff_left fun h => htrue (given_eq hv ▸ (hrows rest).mp h), kept_iff htarget]

/-- An identity is named if it is given, and its text is linked in any case. -/
theorem identity_fine_iff (hout : r.dump.get? place = some (.leaf (.str (strOf host model key)))) :
    MemberFine host targets r "model" model key ↔ ∀ v, model.lookup key = some v →
      truthy host v = true ∨ CarriedAs host v (.str (host.str v)) :=
  given_fine_iff hmembers hplace hrows fun _ hv _ => found_iff_carried (strOf_eq hv ▸ hout)

/-- A detail is named and linked if it is given, and it is dropped otherwise. -/
theorem detail_fine_iff (hout : given host model key = false → r.dump.get? place = none) :
    MemberFine host targets r "model" model key ↔ ∀ v, model.lookup key = some v →
      truthy host v = true ∨ v.Leafless :=
  given_fine_iff hmembers hplace hrows fun _ hv hfalse =>
    found_iff_leafless host (hout ((given_eq hv).trans hfalse))

end Model

theorem link_absent {name : String} (h : name ∉ r.artifactLinks.map Prod.fst) :
    r.dump.get? (field "artifact_links" name) = none := by
  show (dict (r.artifactLinks.map fun e => (e.1, strValue e.2))).get? [.key name] = none
  rw [get?_dict_key]
  cases hlookup : (r.artifactLinks.map fun e => (e.1, strValue e.2)).lookup name with
  | none => rfl
  | some v =>
    have hmem := mem_keys_iff.mpr ⟨v, hlookup⟩
    rw [map_map] at hmem
    exact absurd hmem h

theorem mem_givenLinks {ms : Members} {keys : List String} {name : String → String}
    {link : String} : link ∈ (givenLinks host ms keys name).map Prod.fst ↔
      ∃ key ∈ keys, given host ms key = true ∧ name key = link := by
  simp only [givenLinks, map_map, mem_map, mem_filter, Function.comp_apply,
    and_assoc]

/-! ### Workload -/

theorem checkWorkload_ok {w w' : WorkloadSpec} (h : checkWorkload w = .ok w') : w = w' := by
  rw [checkWorkload] at h
  split at h
  · cases h
  split at h
  · cases h
  split at h
  · cases h
  exact Except.ok.inj h

end Hqsb.Migrate
