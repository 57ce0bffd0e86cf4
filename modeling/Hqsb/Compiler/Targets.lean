/-
Hqsb/Compiler/Targets.lean

What a target can execute, and what a lowering entry needs of it.

`CapabilityRequirement.check` goes through the needs in order and rejects at the first that the
target does not meet.
-/
import Hqsb.Compiler.Numbers
import Hqsb.Lib.OrderedDict

namespace Hqsb.Compiler

open Lib

def BACKEND_KINDS : List String :=
  ["cuda", "triton", "cutlass", "inductor", "ascend", "cpu_reference"]

def CAPABILITY_REASONS : List String :=
  ["TARGET_UNSUPPORTED", "DTYPE_UNSUPPORTED", "LAYOUT_UNSUPPORTED", "FEATURE_MISSING",
    "RESOURCE_INSUFFICIENT", "ALIGNMENT_REQUIRED", "WORKSPACE_EXCEEDED", "ABI_MISMATCH",
    "PACKAGE_MISSING", "EVIDENCE_MISSING"]

structure TargetSnapshot where
  targetId : String
  deviceKind : String
  arch : String
  backendVersions : OrderedDict String String
  dtypes : List String
  features : List String
  sharedMemoryPerBlockBytes : Option Int
  registersPerThread : Option Int
  abiVersion : String

structure CapabilityRequirement where
  requirementId : String
  backends : List String
  dtypes : List String
  archs : List String
  features : List String
  minArch : String
  sharedMemoryBytes : Int
  registersPerThread : Int
  abiVersion : String
  packages : List String
  evidenceScope : String
  reasonOnFailure : String

/-- What a requirement was rejected for, or that it was not. -/
inductive CapabilityDetail where
  | device (kind : String) (backends : List String)
  | arch (arch : String) (archs : List String)
  | archBelow (arch minArch : String)
  | unparsableArch (arch : String)
  | dtypes (missing : List String)
  | features (missing : List String)
  | abi (wanted found : String)
  | sharedUnknown
  | shared (wanted limit : Int)
  | registers (wanted limit : Int)
  | packages (missing : List String)
  | satisfied
  deriving DecidableEq

structure CapabilityOutcome where
  requirementId : String
  available : Bool
  reasonCode : String
  detail : CapabilityDetail
  deriving DecidableEq

inductive RequirementProblem where
  | unknownReason (reason : String)
  | noEvidenceScope (requirementId : String)
  | unknownBackend (requirementId backend : String)

/-- `int`, of a text without underscores. -/
def int? (t : List Char) : Option Int :=
  match (t.dropWhile Char.isWhitespace).rdropWhile Char.isWhitespace with
  | '-' :: t => (digits? t).map fun d => -(d.1 : Int)
  | '+' :: t => (digits? t).map fun d => (d.1 : Int)
  | t => (digits? t).map fun d => (d.1 : Int)

def archNumber (arch : String) : Option Int := (arch.toList.splitOn '_')[1]?.bind int?

namespace CapabilityRequirement

variable (req : CapabilityRequirement) (snapshot : TargetSnapshot)

def validate : List RequirementProblem :=
  (if req.reasonOnFailure ∉ CAPABILITY_REASONS then [.unknownReason req.reasonOnFailure] else []) ++
  (if req.evidenceScope = "" then [.noEvidenceScope req.requirementId] else []) ++
  (req.backends.filter (· ∉ BACKEND_KINDS)).map (.unknownBackend req.requirementId)

/-- What is rejected of the architecture. -/
def archFailure : Option CapabilityDetail :=
  let arch := snapshot.arch
  if req.archs ≠ [] ∧ arch ∉ req.archs then some (.arch arch req.archs)
  else if req.minArch ≠ "" ∧ "sm_".toList.isPrefixOf arch.toList then
    match archNumber arch, archNumber req.minArch with
    | some n, some least => if n < least then some (.archBelow arch req.minArch) else none
    | _, _ => some (.unparsableArch arch)
  else none

/-- The first need that is not met, with its reason code. -/
def failure : Option (String × CapabilityDetail) :=
  if req.backends ≠ [] ∧ snapshot.deviceKind ∉ req.backends then
    some ("TARGET_UNSUPPORTED", .device snapshot.deviceKind req.backends)
  else
    match req.archFailure snapshot with
    | some detail => some ("TARGET_UNSUPPORTED", detail)
    | none =>
      let dtypes := req.dtypes.filter (· ∉ snapshot.dtypes)
      let features := req.features.filter (· ∉ snapshot.features)
      let packages := req.packages.filter (· ∉ snapshot.backendVersions.keys)
      if dtypes ≠ [] then some ("DTYPE_UNSUPPORTED", .dtypes dtypes)
      else if features ≠ [] then some ("FEATURE_MISSING", .features features)
      else if req.abiVersion ≠ "" ∧ req.abiVersion ≠ snapshot.abiVersion then
        some ("ABI_MISMATCH", .abi req.abiVersion snapshot.abiVersion)
      else
        match sharedFailure, registersFailure with
        | some detail, _ => some ("RESOURCE_INSUFFICIENT", detail)
        | none, some detail => some ("RESOURCE_INSUFFICIENT", detail)
        | none, none =>
          if packages ≠ [] then some ("PACKAGE_MISSING", .packages packages) else none
where
  sharedFailure : Option CapabilityDetail :=
    if req.sharedMemoryBytes = 0 then none
    else
      match snapshot.sharedMemoryPerBlockBytes with
      | none => some .sharedUnknown
      | some limit =>
        if limit < req.sharedMemoryBytes then some (.shared req.sharedMemoryBytes limit) else none
  registersFailure : Option CapabilityDetail :=
    if req.registersPerThread = 0 then none
    else
      match snapshot.registersPerThread with
      | none => none
      | some limit =>
        if limit < req.registersPerThread then some (.registers req.registersPerThread limit)
        else none

def check : CapabilityOutcome :=
  match req.failure snapshot with
  | some (reason, detail) => ⟨req.requirementId, false, reason, detail⟩
  | none => ⟨req.requirementId, true, "", .satisfied⟩

end CapabilityRequirement

end Hqsb.Compiler
