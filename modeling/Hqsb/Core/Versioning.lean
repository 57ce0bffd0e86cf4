/-
Hqsb/Core/Versioning.lean

Migration of a versioned document, step by step (`hqsb/core/schema/versioning.py`).

The loop looks a step up under the version it has reached and goes on with the next patch
version.  What the steps are for is a `Chain`: each of them leads from its version to the next one
that the table knows, by a bump of any component.  The loop runs a chain to its end when the
document and the code have the same major and minor version, and stops at a missing step otherwise.
A migration that stops on the way can be taken up again (`migration_resumes`).

A step is a pure function.  The source hands the first one a shallow copy of the document, so a
step that writes into a nested value there would write into the document as well.
-/
import Hqsb.Core.Document
import Hqsb.Lib.OrderedDict

namespace Hqsb.Versioning

open Lib Lib.PathTree List
open Document (Value Members)

/-! ### The migration -/

/-- `str(version)` -/
def text (v : SchemaVersion) : String :=
  toString v.major ++ "." ++ toString v.minor ++ "." ++ toString v.patch

/-- The next version in the migration chain (patch bump). -/
def increment (v : SchemaVersion) : SchemaVersion := ⟨v.major, v.minor, v.patch + 1⟩

/-- Why a document is not migrated. -/
inductive VersionError where
  | missing
  | notText (raw : Value)
  | invalid (raw : String)
  | newer (version current : SchemaVersion)
  | noMigration (version current : SchemaVersion)

def parseVersion (document : Members) : Except VersionError SchemaVersion :=
  match document.lookup "schema_version" with
  | none => .error .missing
  | some (.leaf .null) => .error .missing
  | some (.leaf (.str raw)) =>
    match SchemaVersion.parse raw with
    | none => .error (.invalid raw)
    | some version => .ok version
  | some raw => .error (.notText raw)

abbrev Migration := Members → Members

abbrev Table := OrderedDict SchemaVersion Migration

/-- `result["schema_version"] = str(version)` -/
def stamp (version : SchemaVersion) (result : Members) : Members :=
  assign result "schema_version" (Value.str (text version))

variable (table : Table) (current : SchemaVersion)

def orderedMigrations : List (SchemaVersion × Migration) :=
  table.entries.mergeSort fun a b => a.1.compare b.1 != .gt

/-- Enough fuel for the loop: no version with a step has a larger patch. -/
def fuelOf : Nat := (table.keys.map (·.patch)).sum + 2

/-- The `while` loop; none when the fuel is gone. -/
def migrateFrom : Nat → SchemaVersion → Members → Option (Except VersionError Members)
  | 0, _, _ => none
  | fuel + 1, version, result =>
    if version.compare current = .lt then
      match (orderedMigrations table).find? fun step => step.1 = version with
      | none => some (.error (.noMigration version current))
      | some step => migrateFrom fuel (increment version) (stamp (increment version) (step.2 result))
    else some (.ok (stamp current result))

def migrateDocument (document : Members) : Option (Except VersionError Members) :=
  match parseVersion document with
  | .error e => some (.error e)
  | .ok source =>
    if source.compare current = .gt then some (.error (.newer source current))
    else migrateFrom table current (fuelOf table) source document

/-! ### Chains -/

inductive Bump : SchemaVersion → SchemaVersion → Prop where
  | patch (a b c : Nat) : Bump ⟨a, b, c⟩ ⟨a, b, c + 1⟩
  | minor (a b c : Nat) : Bump ⟨a, b, c⟩ ⟨a, b + 1, 0⟩
  | major (a b c : Nat) : Bump ⟨a, b, c⟩ ⟨a + 1, 0, 0⟩

/-- The steps of the table from a version up to the current one, each with the version it leads
to: a bump, behind which the table continues. -/
inductive Chain : SchemaVersion → List (Migration × SchemaVersion) → Prop where
  | done : Chain current []
  | step {v w : SchemaVersion} {m : Migration} {steps : List (Migration × SchemaVersion)} :
    table.get? v = some m → Bump v w →
    (∀ u ∈ table.keys, v.compare u = .lt → u.compare w ≠ .lt) →
    Chain w steps → Chain v ((m, w) :: steps)

def applied (steps : List (Migration × SchemaVersion)) (document : Members) : Members :=
  steps.foldl (fun result step => stamp step.2 (step.1 result)) document

/-! ### Versions -/

variable {table current} {u v w : SchemaVersion} {steps : List (Migration × SchemaVersion)}

theorem compare_lt_iff : v.compare w = .lt ↔ v.major < w.major ∨ v.major = w.major ∧
    (v.minor < w.minor ∨ v.minor = w.minor ∧ v.patch < w.patch) := by
  simp [SchemaVersion.compare, Ordering.then_eq_lt, Nat.compare_eq_lt]

theorem compare_gt_iff : v.compare w = .gt ↔ w.compare v = .lt := by
  rw [compare_lt_iff]
  simp only [SchemaVersion.compare, Ordering.then_eq_gt, Nat.compare_eq_gt, Nat.compare_eq_eq]
  omega

theorem Chain.le (h : Chain table current v steps) : current.compare v ≠ .lt := by
  induction h with
  | done => simp [compare_lt_iff]
  | step _ hb _ _ ih =>
    cases hb <;> simp only [Ne, compare_lt_iff] at * <;> omega

theorem eq_of_not_lt (hle : current.compare v ≠ .lt) (hlt : ¬v.compare current = .lt) :
    v = current := by
  obtain ⟨a, b, c⟩ := v
  obtain ⟨a', b', c'⟩ := current
  simp only [Ne, compare_lt_iff, SchemaVersion.mk.injEq] at *
  omega

/-! ### The loop -/

theorem find_orderedMigrations (v : SchemaVersion) :
    ((orderedMigrations table).find? fun step => step.1 = v).map Prod.snd = table.get? v := by
  have hperm : (orderedMigrations table).Perm table.entries := mergeSort_perm ..
  rcases hf : (orderedMigrations table).find? fun step => step.1 = v with - | ⟨u, m⟩ <;> rw [hf]
  · refine (table.get?_eq_none_iff.mpr fun hv => ?_).symm
    obtain ⟨e, he, rfl⟩ := mem_map.mp hv
    exact find?_eq_none.mp hf e (hperm.mem_iff.mpr he) (by simp)
  · obtain rfl : u = v := by simpa using find?_some hf
    exact (table.get?_eq_some_iff.mpr (hperm.mem_iff.mp (mem_of_find?_eq_some hf))).symm

theorem migrateFrom_succ {fuel : Nat} {result : Members} (hlt : v.compare current = .lt) :
    migrateFrom table current (fuel + 1) v result =
      match table.get? v with
      | none => some (.error (.noMigration v current))
      | some m => migrateFrom table current fuel (increment v) (stamp (increment v) (m result)) := by
  rw [migrateFrom, if_pos hlt, ← find_orderedMigrations]
  cases (orderedMigrations table).find? fun step => step.1 = v <;> rfl

theorem fuelOf_pos : 0 < fuelOf table := Nat.succ_pos _

theorem patch_le {m : Migration} (hm : table.get? v = some m) : v.patch + 2 ≤ fuelOf table :=
  Nat.add_le_add_right
    (single_le_sum (by simp) _ (mem_map_of_mem (OrderedDict.mem_keys_of_get? hm))) 2

/-- **The loop ends**: a chain of patch bumps was there, or a step is missing. -/
theorem migrateFrom_ends {fuel : Nat} (hle : current.compare v ≠ .lt) (result : Members)
    (hpos : 0 < fuel) (hfuel : fuelOf table ≤ fuel + v.patch) :
    (∃ steps, Chain table current v steps) ∧ v.major = current.major ∧ v.minor = current.minor ∨
      ∃ u, migrateFrom table current fuel v result = some (.error (.noMigration u current)) := by
  induction fuel generalizing v result with
  | zero => omega
  | succ fuel ih =>
    by_cases hlt : v.compare current = .lt
    · rw [migrateFrom_succ hlt]
      rcases hm : table.get? v with - | m
      · exact .inr ⟨v, rfl⟩
      · have hpatch := patch_le hm
        have hle' : current.compare (increment v) ≠ .lt := by
          simp only [Ne, compare_lt_iff, increment] at *
          omega
        rcases ih hle' (stamp (increment v) (m result)) (by omega) (by simp only [increment]; omega)
          with ⟨⟨steps, hc⟩, hline⟩ | h
        · refine .inl ⟨⟨_, .step hm (.patch ..) ?_ hc⟩, hline⟩
          intro u _ hu hu'
          simp only [compare_lt_iff] at hu hu'
          omega
        · exact .inr h
    · obtain rfl := eq_of_not_lt hle hlt
      exact .inl ⟨⟨_, .done⟩, rfl, rfl⟩

/-- **A chain on one line is run to its end**: there every bump is a patch bump. -/
theorem Chain.run (h : Chain table current v steps) {fuel : Nat} (result : Members)
    (hline : v.major = current.major ∧ v.minor = current.minor)
    (hpos : 0 < fuel) (hfuel : fuelOf table ≤ fuel + v.patch) :
    migrateFrom table current fuel v result = some (.ok (stamp current (applied steps result))) := by
  induction h generalizing fuel result with
  | done =>
    obtain ⟨fuel, rfl⟩ := Nat.exists_eq_succ_of_ne_zero hpos.ne'
    rw [migrateFrom, if_neg (by simp [compare_lt_iff])]
    rfl
  | @step v w m steps hm hb _ hc ih =>
    obtain ⟨fuel, rfl⟩ := Nat.exists_eq_succ_of_ne_zero hpos.ne'
    have hle := hc.le
    have hpatch := patch_le hm
    obtain rfl : w = increment v := by
      cases hb <;> simp only [Ne, compare_lt_iff, increment] at * <;> omega
    have hlt : v.compare current = .lt := by
      simp only [Ne, compare_lt_iff, increment] at *
      omega
    rw [migrateFrom_succ hlt, hm]
    exact ih _ hline (by omega) (by simp only [increment]; omega)

/-! ### Documents -/

variable {document : Members}

/-- What a migration is for: a chain of steps is applied, and what is newer or has no chain is
refused. -/
structure Migrates (table : Table) (current version : SchemaVersion) (document : Members) : Prop where
  newer : version.compare current = .gt →
    migrateDocument table current document = some (.error (.newer version current))
  whole : ∀ steps, Chain table current version steps →
    migrateDocument table current document = some (.ok (stamp current (applied steps document)))
  gap : version.compare current ≠ .gt → (¬ ∃ steps, Chain table current version steps) →
    ∃ u, migrateDocument table current document = some (.error (.noMigration u current))

theorem migrateDocument_of_ok (h : parseVersion document = .ok v) :
    migrateDocument table current document =
      if v.compare current = .gt then some (.error (.newer v current))
      else migrateFrom table current (fuelOf table) v document := by
  rw [migrateDocument, h]

/-- A document that is refused or migrated as its chain says has a chain on one line. -/
theorem Migrates.line (hm : Migrates table current v document)
    (h : parseVersion document = .ok v) (hc : Chain table current v steps) :
    v.major = current.major ∧ v.minor = current.minor := by
  have hrun := hm.whole steps hc
  rw [migrateDocument_of_ok h, if_neg (compare_gt_iff.not.mpr hc.le)] at hrun
  rcases migrateFrom_ends hc.le document fuelOf_pos (Nat.le_add_right ..) with
    ⟨-, hline⟩ | ⟨u, herr⟩
  · exact hline
  · rw [herr] at hrun
    cases hrun

/-- **A document is migrated as it should be exactly when its chain, if there is one, stays on one
line**: the step to the next minor or major version is never looked for. -/
theorem migrates_iff (h : parseVersion document = .ok v) :
    Migrates table current v document ↔ ((∃ steps, Chain table current v steps) →
      v.major = current.major ∧ v.minor = current.minor) := by
  constructor
  · rintro hm ⟨steps, hc⟩
    exact hm.line h hc
  · intro hline
    refine ⟨fun hgt => ?_, fun steps hc => ?_, fun hgt hnone => ?_⟩
    · rw [migrateDocument_of_ok h, if_pos hgt]
    · rw [migrateDocument_of_ok h, if_neg (compare_gt_iff.not.mpr hc.le)]
      exact hc.run document (hline ⟨steps, hc⟩) fuelOf_pos (Nat.le_add_right ..)
    · rw [migrateDocument_of_ok h, if_neg hgt]
      rcases migrateFrom_ends (compare_gt_iff.not.mp hgt) document fuelOf_pos
        (Nat.le_add_right ..) with ⟨hc, -⟩ | herr
      · exact absurd hc hnone
      · exact herr

def oldDocument : Members := [("schema_version", Value.str "1.0.0")]

def oneStep : Table := OrderedDict.empty.set ⟨1, 0, 0⟩ fun result => assign result "n" (Value.str "1")

theorem parseVersion_oldDocument : parseVersion oldDocument = .ok ⟨1, 0, 0⟩ := by
  have hparse : SchemaVersion.parse "1.0.0" = some ⟨1, 0, 0⟩ := by decide
  simp [parseVersion, oldDocument, Value.str, hparse]

theorem migrates_oldDocument : Migrates oneStep ⟨1, 0, 1⟩ ⟨1, 0, 0⟩ oldDocument :=
  (migrates_iff parseVersion_oldDocument).mpr fun _ => ⟨rfl, rfl⟩

/-- The step to 1.1.0 is there, and the loop looks for one from 1.0.1. -/
theorem not_migrates_oldDocument : ¬ Migrates oneStep ⟨1, 1, 0⟩ ⟨1, 0, 0⟩ oldDocument := by
  intro h
  have hc : Chain oneStep ⟨1, 1, 0⟩ ⟨1, 0, 0⟩ [(_, ⟨1, 1, 0⟩)] :=
    .step rfl (.minor 1 0 0) (by decide) .done
  exact absurd (h.line parseVersion_oldDocument hc).2 (by decide)

/-! ### Stopping on the way -/

variable {mid later : SchemaVersion} {result back : Members}

theorem digit?_of_isDigit {c : Char} (h : c.isDigit) :
    SchemaVersion.digit? c = some (c.toNat - '0'.toNat) := by
  obtain ⟨hlow, hhigh⟩ := Char.isDigit_iff_toNat.mp h
  rw [SchemaVersion.digit?, SchemaVersion.ZEROS, find?_cons_of_pos (by simpa using ⟨hlow, hhigh⟩)]
  rfl

theorem mapM_digit? {digits : List Char} (h : ∀ c ∈ digits, c.isDigit) :
    digits.mapM SchemaVersion.digit? = some (digits.map fun c => c.toNat - '0'.toNat) := by
  induction digits with
  | nil => rfl
  | cons c digits ih =>
    obtain ⟨hc, hdigits⟩ := forall_mem_cons.mp h
    rw [mapM_cons, digit?_of_isDigit hc, ih hdigits]
    rfl

theorem component_digits (n : Nat) : SchemaVersion.component (Nat.toDigits 10 n) = some n := by
  have hdigit (c : Char) (hc : c ∈ Nat.toDigits 10 n) : c.isDigit :=
    Nat.isDigit_of_mem_toDigits (by decide) (by decide) hc
  rw [SchemaVersion.component, if_neg Nat.toDigits_ne_nil, mapM_digit? hdigit, Option.map_some,
    foldl_map]
  exact congrArg some Nat.ofDigitChars_ten_toDigits

/-- **A version is read as it was written.** -/
theorem parse_text (v : SchemaVersion) : SchemaVersion.parse (text v) = some v := by
  let parts := [v.major, v.minor, v.patch].map (Nat.toDigits 10)
  have htext : (text v).toList = ['.'].intercalate parts := by
    simp [text, parts, Nat.toList_repr, intercalate]
  have hdigit (n : Nat) (c : Char) (hc : c ∈ Nat.toDigits 10 n) : c.isDigit :=
    Nat.isDigit_of_mem_toDigits (by decide) (by decide) hc
  have hblank : ∀ c ∈ (text v).toList, ¬SchemaVersion.isBlank c := by
    intro c hc
    have hc : c = '.' ∨ c.isDigit := by
      simp only [text, String.toList_append, mem_append, Nat.toString_eq_repr,
        Nat.toList_repr] at hc
      grind
    rcases hc with rfl | hc
    · decide
    · obtain ⟨hlow, hhigh⟩ : 48 ≤ c.toNat ∧ c.toNat ≤ 57 := Char.isDigit_iff_toNat.mp hc
      simp [SchemaVersion.isBlank]
      omega
  have hsplit : (['.'].intercalate parts).splitOn '.' = parts := by
    refine splitOn_intercalate _ (fun part hpart hdot => ?_) (cons_ne_nil _ _)
    obtain ⟨n, -, rfl⟩ := mem_map.mp hpart
    cases hdigit n _ hdot
  rw [SchemaVersion.parse, dropWhile_eq_self_iff.mpr fun hl => hblank _ (getElem_mem hl),
    rdropWhile_eq_self_iff.mpr fun hl => hblank _ (getLast_mem hl), htext, hsplit]
  simp [parts, component_digits]

theorem stamp_stamp (result : Members) : stamp v (stamp u result) = stamp v result := by
  induction result with
  | nil => simp [stamp, assign]
  | cons m ms ih =>
    simp only [stamp, assign] at ih ⊢
    split_ifs with hkey
    · rw [assign, if_pos hkey]
    · rw [assign, if_neg hkey, ih]

theorem parseVersion_stamp (result : Members) : parseVersion (stamp v result) = .ok v := by
  rw [parseVersion, stamp, lookup_assign, if_pos rfl, Value.str]
  simp [parse_text]

theorem migrateFrom_mono {fuel : Nat} {outcome : Except VersionError Members}
    (h : migrateFrom table current fuel v result = some outcome) :
    migrateFrom table current (fuel + 1) v result = some outcome := by
  induction fuel generalizing v result with
  | zero => cases h
  | succ fuel ih =>
    rw [migrateFrom] at h ⊢
    split_ifs at h ⊢ with hlt
    · cases hfind : (orderedMigrations table).find? fun step => step.1 = v with
      | none => rwa [hfind] at h
      | some step =>
        rw [hfind] at h
        exact ih h
    · exact h

/-- What a migration to a version on the way leaves, the migration beyond it goes on with. -/
theorem migrateFrom_resumes {fuel : Nat} {outcome : Except VersionError Members}
    (hle : mid.compare v ≠ .lt) (hmid : later.compare mid ≠ .lt) (hdoc : stamp v result = result)
    (hback : migrateFrom table mid fuel v result = some (.ok back))
    (h : migrateFrom table later fuel v result = some outcome) :
    back = stamp mid back ∧ migrateFrom table later fuel mid back = some outcome := by
  induction fuel generalizing v result with
  | zero => cases h
  | succ fuel ih =>
    by_cases hlt : v.compare mid = .lt
    · have hlt' : v.compare later = .lt := by
        simp only [Ne, compare_lt_iff] at *
        omega
      rw [migrateFrom_succ hlt] at hback
      rw [migrateFrom_succ hlt'] at h
      cases hm : table.get? v with
      | none => rw [hm] at hback; cases hback
      | some m =>
        -- below `mid` both loops make the same step
        rw [hm] at hback h
        have hle' : mid.compare (increment v) ≠ .lt := by
          simp only [Ne, compare_lt_iff, increment] at *
          omega
        obtain ⟨hstamp, hrun⟩ := ih hle' (stamp_stamp _) hback h
        exact ⟨hstamp, migrateFrom_mono hrun⟩
    · -- at `mid` only the stamp is written, and it is there
      obtain rfl := eq_of_not_lt hle hlt
      rw [migrateFrom, if_neg hlt] at hback
      cases hback
      rw [hdoc]
      exact ⟨hdoc.symm, h⟩

/-- **A migration may stop on the way.**  A document that carries its version as `str` writes it,
migrated to any version below `later`, is at that version, and its migration to `later` does what
the migration in one go does, refusing included. -/
theorem migration_resumes (hdoc : stamp v document = document)
    (hmid : later.compare mid ≠ .lt)
    (h : migrateDocument table mid document = some (.ok back)) :
    parseVersion back = .ok mid ∧
      migrateDocument table later back = migrateDocument table later document := by
  have hv : parseVersion document = .ok v := hdoc ▸ parseVersion_stamp document
  rw [migrateDocument_of_ok hv] at h
  split_ifs at h with hgt
  · cases h
  have hle : mid.compare v ≠ .lt := compare_gt_iff.not.mp hgt
  have hle' : later.compare v ≠ .lt := by
    simp only [Ne, compare_lt_iff] at *
    omega
  obtain ⟨outcome, hrun⟩ : ∃ outcome, migrateFrom table later (fuelOf table) v document =
      some outcome := by
    rcases migrateFrom_ends hle' document fuelOf_pos (Nat.le_add_right ..) with
      ⟨⟨steps, hc⟩, hline⟩ | ⟨u, herr⟩
    · exact ⟨_, hc.run document hline fuelOf_pos (Nat.le_add_right ..)⟩
    · exact ⟨_, herr⟩
  obtain ⟨hstamp, hresumed⟩ := migrateFrom_resumes hle hmid hdoc h hrun
  have hback : parseVersion back = .ok mid := hstamp ▸ parseVersion_stamp back
  rw [migrateDocument_of_ok hback, migrateDocument_of_ok hv, if_neg (compare_gt_iff.not.mpr hmid),
    if_neg (compare_gt_iff.not.mpr hle'), hresumed, hrun]
  exact ⟨hback, rfl⟩

/-- Migrated to 1.0.1 first and to 1.0.2 from there, the document is refused as in one go. -/
theorem migration_resumes_oldDocument : ∃ back,
    migrateDocument oneStep ⟨1, 0, 1⟩ oldDocument = some (.ok back) ∧
      parseVersion back = .ok ⟨1, 0, 1⟩ ∧
      migrateDocument oneStep ⟨1, 0, 2⟩ back = migrateDocument oneStep ⟨1, 0, 2⟩ oldDocument := by
  have hc : Chain oneStep ⟨1, 0, 1⟩ ⟨1, 0, 0⟩ [(_, ⟨1, 0, 1⟩)] :=
    .step rfl (.patch 1 0 0) (by decide) .done
  have hrun := hc.run oldDocument ⟨rfl, rfl⟩ fuelOf_pos (Nat.le_add_right ..)
  have h := (migrateDocument_of_ok parseVersion_oldDocument).trans
    ((if_neg (by decide)).trans hrun)
  exact ⟨_, h, migration_resumes (v := ⟨1, 0, 0⟩) rfl (by decide) h⟩

end Hqsb.Versioning
