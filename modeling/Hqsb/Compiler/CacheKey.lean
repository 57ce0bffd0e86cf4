/-
Hqsb/Compiler/CacheKey.lean

The key of a compiled artifact: the content hash of the parts that a versioned specification names.

A build is described by a mapping of parts.  Only the parts of the key fields are hashed, and they
go through the canonicaliser first, so the key tells two builds apart exactly where the
canonicaliser does (`compute_key_eq_iff`): a field with the name of a noise key is not in the key at
all, and addresses, temporary names and noise members inside a part are not either.

A build has a key of its own exactly if all its parts are inert, and two builds have the keys that
they should have if there is nothing in their parts that the canonicaliser would not keep
(`separates_all_iff`).
-/
import Hqsb.Compiler.Words
import Hqsb.Lib.OrderedDict

namespace Hqsb.Compiler

open Lib List

def NON_KEY_FIELDS : List String :=
  ["timestamp", "pid", "output_root", "absolute_path", "log_level", "hostname"]

/-- Which parts are in the key, each with the reason why. -/
structure CacheKeySpec where
  specVersion : String
  fields : OrderedDict String String

/-- What is wrong with a specification. -/
inductive KeySpecProblem where
  | notVersioned
  | noReason (name : String)
  | nonSemantic (name : String)

inductive KeyError where
  | invalidSpec (problems : List KeySpecProblem)
  | missingFields (names : List String)

structure CacheKey (D : Type*) where
  key : D
  specVersion : String
  fields : List (String × Payload)
  stripped : List String

namespace CacheKeySpec

def validate (spec : CacheKeySpec) : List KeySpecProblem :=
  (if spec.specVersion = "" then [.notVersioned] else []) ++
    spec.fields.entries.flatMap fun (name, reason) =>
      (if reason = "" then [.noReason name] else []) ++
        if name ∈ NON_KEY_FIELDS then [.nonSemantic name] else []

def names (spec : CacheKeySpec) : List String := spec.fields.keys.insertionSort (· ≤ ·)

def payload (spec : CacheKeySpec) (parts : OrderedDict String Payload) : List (String × Payload) :=
  spec.names.filterMap fun name => (parts.get? name).map (name, ·)

variable {D : Type*} (alphabet : Alphabet) (sha256 : List Char → D)

def compute (spec : CacheKeySpec) (parts : OrderedDict String Payload) :
    Except KeyError (CacheKey D) :=
  let problems := spec.validate
  if problems ≠ [] then .error (.invalidSpec problems)
  else
    let missing := spec.fields.keys.filter fun name => name ∉ parts.keys
    if missing ≠ [] then .error (.missingFields missing)
    else
      let payload := spec.payload parts
      let (digest, stripped) := contentHash alphabet NOISE_KEYS sha256 (.dict payload)
      .ok ⟨digest, spec.specVersion, payload, stripped⟩

def Covers (spec : CacheKeySpec) (parts : OrderedDict String Payload) : Prop :=
  ∀ name ∈ spec.fields.keys, name ∈ parts.keys

/-- The part of a field; there is one when the mapping covers the key fields. -/
def part (parts : OrderedDict String Payload) (name : String) : Payload :=
  (parts.get? name).getD .null

def Agree (spec : CacheKeySpec) (p q : OrderedDict String Payload) : Prop :=
  ∀ name ∈ spec.fields.keys, (part p name).Same (part q name)

variable {spec : CacheKeySpec} {alphabet} {sha256}

theorem mem_names {name : String} : name ∈ spec.names ↔ name ∈ spec.fields.keys :=
  mem_insertionSort _

variable {parts p q : OrderedDict String Payload}

theorem payload_eq (h : spec.Covers parts) :
    spec.payload parts = spec.names.map fun name => (name, part parts name) := by
  rw [← filterMap_eq_map]
  apply filterMap_congr
  intro name hname
  obtain ⟨p, hp⟩ := parts.mem_keys_iff.mp (h name (mem_names.mp hname))
  simp [part, hp]

theorem compute_eq (hvalid : spec.validate = []) (h : spec.Covers parts) :
    spec.compute alphabet sha256 parts =
      .ok ⟨(contentHash alphabet NOISE_KEYS sha256 (.dict (spec.payload parts))).1,
        spec.specVersion, spec.payload parts,
        (contentHash alphabet NOISE_KEYS sha256 (.dict (spec.payload parts))).2⟩ := by
  have hmissing : (spec.fields.keys.filter fun name => name ∉ parts.keys) = [] := by
    rw [filter_eq_nil_iff]
    intro name hname
    simpa using h name hname
  rw [compute]
  simp only [hvalid, hmissing, ne_eq, not_true_eq_false, if_false]

/-- What the canonicaliser leaves of the parts of a key. -/
theorem canonical_payload (h : spec.Covers parts) :
    canonical alphabet NOISE_KEYS (.dict (spec.payload parts)) =
      .dict ((spec.names.filter fun name => name ∉ NOISE_KEYS).map fun name =>
        (name, canonical alphabet NOISE_KEYS (part parts name))) := by
  have hsorted : ((spec.names.map fun name =>
      (name, canonical alphabet NOISE_KEYS (part parts name))).map Prod.fst).Pairwise (· ≤ ·) := by
    rw [map_map]
    show (spec.names.map id).Pairwise _
    rw [map_id]
    exact pairwise_insertionSort _ _
  rw [payload_eq h, canonical_dict, map_map]
  refine congrArg Payload.dict ((congrArg _ (Payload.sortMembers_of_sorted hsorted)).trans ?_)
  rw [filter_map]
  rfl

/-- **One key**: the canonicaliser makes the same of every key field that it keeps. -/
theorem compute_key_eq_iff (hsha : sha256.Injective) (hp : spec.Covers p) (hq : spec.Covers q) :
    (contentHash alphabet NOISE_KEYS sha256 (.dict (spec.payload p))).1 =
        (contentHash alphabet NOISE_KEYS sha256 (.dict (spec.payload q))).1 ↔
      ∀ name ∈ spec.fields.keys, name ∉ NOISE_KEYS →
        canonical alphabet NOISE_KEYS (part p name) = canonical alphabet NOISE_KEYS (part q name) := by
  rw [contentHash_eq_iff hsha, canonical_payload hp, canonical_payload hq, Payload.dict.injEq,
    map_inj_left]
  simp only [mem_filter, decide_eq_true_eq, mem_names, Prod.mk.injEq, true_and, and_imp]

/-! ### Telling builds apart -/

/-- Both builds get a key, and it is one key exactly when their key fields agree. -/
def Separates (spec : CacheKeySpec) (alphabet : Alphabet) (sha256 : List Char → D)
    (p q : OrderedDict String Payload) : Prop :=
  ∃ kp kq, spec.compute alphabet sha256 p = .ok kp ∧ spec.compute alphabet sha256 q = .ok kq ∧
    (kp.key = kq.key ↔ spec.Agree p q)

/-- The key fields are all hashed, and nothing is taken out of their parts. -/
def Kept (spec : CacheKeySpec) (alphabet : Alphabet) (p : OrderedDict String Payload) : Prop :=
  ∀ name ∈ spec.fields.keys, name ∉ NOISE_KEYS ∧ kept alphabet NOISE_KEYS (part p name) = true

/-- The key fields are all hashed, and their parts are taken for no others. -/
def Inert (spec : CacheKeySpec) (alphabet : Alphabet) (p : OrderedDict String Payload) : Prop :=
  ∀ name ∈ spec.fields.keys, name ∉ NOISE_KEYS ∧ inert alphabet (part p name) = true

instance (p : OrderedDict String Payload) : Decidable (spec.Kept alphabet p) :=
  inferInstanceAs (Decidable (∀ name ∈ spec.fields.keys, _))

instance (p : OrderedDict String Payload) : Decidable (spec.Inert alphabet p) :=
  inferInstanceAs (Decidable (∀ name ∈ spec.fields.keys, _))

/-- Both builds get a key. -/
theorem separates_iff (hsha : sha256.Injective) (hvalid : spec.validate = [])
    (hp : spec.Covers p) (hq : spec.Covers q) : spec.Separates alphabet sha256 p q ↔
      ((∀ name ∈ spec.fields.keys, name ∉ NOISE_KEYS →
        canonical alphabet NOISE_KEYS (part p name) =
          canonical alphabet NOISE_KEYS (part q name)) ↔ spec.Agree p q) := by
  rw [← compute_key_eq_iff hsha hp hq]
  constructor
  · rintro ⟨kp, kq, hkp, hkq, h⟩
    cases (compute_eq hvalid hp).symm.trans hkp
    cases (compute_eq hvalid hq).symm.trans hkq
    exact h
  · exact fun h => ⟨_, _, compute_eq hvalid hp, compute_eq hvalid hq, h⟩

theorem Agree.canonical_eq (h : spec.Agree p q) {name : String} (hname : name ∈ spec.fields.keys) :
    canonical alphabet NOISE_KEYS (part p name) = canonical alphabet NOISE_KEYS (part q name) :=
  congrArg (walk alphabet NOISE_KEYS) (h name hname)

theorem part_set (name : String) (part' : Payload) (other : String) :
    part (p.set name part') other = if other = name then part' else part p other := by
  rw [part, OrderedDict.get?_set]
  split_ifs <;> rfl

/-- A build whose key is not its own. -/
theorem exists_collision (hsha : sha256.Injective) (hvalid : spec.validate = [])
    (hp : spec.Covers p) {name : String} (hname : name ∈ spec.fields.keys) {other : Payload}
    (hother : ¬ (part p name).Same other)
    (hkey : name ∉ NOISE_KEYS →
      canonical alphabet NOISE_KEYS (part p name) = canonical alphabet NOISE_KEYS other) :
    spec.Covers (p.set name other) ∧
      ¬ spec.Separates alphabet sha256 p (p.set name other) := by
  have hq : spec.Covers (p.set name other) := fun field hfield =>
    (p.mem_keys_set name other field).mpr (.inr (hp field hfield))
  refine ⟨hq, fun h => hother ?_⟩
  have hagree := ((separates_iff hsha hvalid hp hq).mp h).mp fun field _ hnoise => by
    rw [part_set]
    split_ifs with hfield
    · subst hfield
      exact hkey hnoise
    · rfl
  have hsame := hagree name hname
  rwa [part_set, if_pos rfl] at hsame

/-- **When the key is right.**  A build is told from all that differ from it in a key field exactly
if its parts are inert; and any two builds are told apart if nothing is taken out of their parts. -/
theorem separates_all_iff (hsha : sha256.Injective) (hvalid : spec.validate = [])
    (p : OrderedDict String Payload) (hp : spec.Covers p) :
    ((∀ q, spec.Covers q → spec.Separates alphabet sha256 p q) ↔ spec.Inert alphabet p) ∧
      ∀ q, spec.Covers q → spec.Kept alphabet p → spec.Kept alphabet q →
        spec.Separates alphabet sha256 p q := by
  refine ⟨⟨fun h name hname => ?_, fun h q hq => ?_⟩, fun q hq hkp hkq => ?_⟩
  · have hfield : ∀ other, ¬ (part p name).Same other →
        ¬ (name ∉ NOISE_KEYS → canonical alphabet NOISE_KEYS (part p name) =
          canonical alphabet NOISE_KEYS other) := fun other hother hkey =>
      have ⟨hcovers, hcollide⟩ := exists_collision hsha hvalid hp hname hother hkey
      hcollide (h _ hcovers)
    constructor
    · intro hnoise
      -- any other part will do
      refine hfield (.list [part p name]) (fun hsame => ?_) fun hnot => absurd hnoise hnot
      exact not_same_list hsame
    · refine inert_iff.mpr fun other hcanonical => ?_
      by_contra hother
      exact hfield other (fun hsame => hother hsame.symm) fun _ => hcanonical.symm
  · rw [separates_iff hsha hvalid hp hq]
    refine ⟨fun hsame name hname => ?_, fun hagree name hname _ => hagree.canonical_eq hname⟩
    exact Eq.symm (inert_iff.mp (h name hname).2 _ (hsame name hname (h name hname).1).symm)
  · rw [separates_iff hsha hvalid hp hq]
    refine ⟨fun hsame name hname => ?_, fun hagree name hname _ => hagree.canonical_eq hname⟩
    have hcanonical := hsame name hname (hkp name hname).1
    rwa [canonical_of_kept (hkp name hname).2, canonical_of_kept (hkq name hname).2] at hcanonical

end CacheKeySpec

/-! ### Two kernels, one key -/

/-- A specification with the build identity of a kernel and its flags. -/
def kernelKeySpec : CacheKeySpec where
  specVersion := "1.0.0"
  fields := ⟨[("kernel_build_id", "kernel source/build identity"),
    ("compile_flags", "flags change the code")], by simp⟩

def kernelBuild (buildId : String) : OrderedDict String Payload :=
  ⟨[("kernel_build_id", .str buildId), ("compile_flags", .list [.str "-O3", .str "-g"])], by simp⟩

theorem kernelBuild_covers (buildId : String) : kernelKeySpec.Covers (kernelBuild buildId) :=
  fun _ => id

/-- A plain build identity gives a key that no other build has. -/
theorem separates_plain_builds :
    (∀ q, kernelKeySpec.Covers q →
      kernelKeySpec.Separates ascii id (kernelBuild "build-1") q) ∧
    kernelKeySpec.Separates ascii id (kernelBuild "build-1") (kernelBuild "build-2") := by
  have hseparates := @CacheKeySpec.separates_all_iff _ ascii id kernelKeySpec
    Function.injective_id (by decide) _ (kernelBuild_covers "build-1")
  have hinert : kernelKeySpec.Inert ascii (kernelBuild "build-1") := by decide +kernel
  exact ⟨hseparates.1.mpr hinert, hseparates.2 _ (kernelBuild_covers "build-2")
    (by decide +kernel) (by decide +kernel)⟩

/-- Build identities that are written as hexadecimal numbers share a key. -/
theorem hexadecimal_builds_collide :
    ¬ kernelKeySpec.Separates ascii id (kernelBuild "build-0xdeadbeef")
      (kernelBuild "build-0xcafebabe") := by
  rintro ⟨kp, kq, hkp, hkq, h⟩
  cases (CacheKeySpec.compute_eq (by decide) (kernelBuild_covers _)).symm.trans hkp
  cases (CacheKeySpec.compute_eq (by decide) (kernelBuild_covers _)).symm.trans hkq
  have hagree := h.mp (by decide +kernel) "kernel_build_id" (by decide)
  have hsame : Payload.str "build-0xdeadbeef" = .str "build-0xcafebabe" := hagree
  exact absurd (Payload.str.inj hsame) (by decide)

end Hqsb.Compiler
