/-
Hqsb/Compiler/EntryStore.lean

The compile cache on disk: publishing an entry and reading it, step by step.

A step is what happens at once: one file is looked for, read or written, or one directory is
renamed.  A writer prepares its entry in a directory of its own, renames that into place, promotes
the manifest and leaves a marker; a reader looks at the manifest, the marker, and the payload twice.
`Writer.step` and `Reader.step` say what each of them does next, so calls may be cut off anywhere
and run in any order.  A whole call is its steps without anything in between.
-/
import Hqsb.Compiler.Numbers
import Hqsb.Compiler.Ir
import Hqsb.Lib.Utf8

namespace Hqsb.Compiler

open Lib

abbrev Bytes := List UInt8

abbrev Files := OrderedDict String Bytes

namespace EntryStore

def CACHE_LAYERS : List String :=
  ["frame_guard", "capture_graph", "pass_ir", "lowering_decision", "codegen_native", "autotune_db",
    "cost_model", "binary_package"]

def STATE_TEMP : String := "TEMP"

def STATE_VALIDATING : String := "VALIDATING"

def STATE_COMMITTED : String := "COMMITTED"

def STATE_QUARANTINED : String := "QUARANTINED"

def STATE_EVICTED : String := "EVICTED"

def MANIFEST : String := "manifest.json"

def PAYLOAD : String := "payload.bin"

def MARKER : String := ".committed"

/-! ### Manifests -/

structure EntryManifest where
  entryId : String
  key : String
  layer : String
  schemaVersion : String
  state : String
  payloadName : String
  payloadSha256 : String
  payloadBytes : ℕ
  metadataSha256 : String
  parentKey : String
  createdBy : String
  targetArch : String
  abiVersion : String
  guardDomain : String
  compatibilityClass : String
  compileOccurred : Bool

def EntryManifest.asDict (m : EntryManifest) : Attrs where
  entries :=
    [("entry_id", .str m.entryId), ("key", .str m.key), ("layer", .str m.layer),
      ("schema_version", .str m.schemaVersion), ("state", .str m.state),
      ("payload_name", .str m.payloadName), ("payload_sha256", .str m.payloadSha256),
      ("payload_bytes", .int m.payloadBytes), ("metadata_sha256", .str m.metadataSha256),
      ("parent_key", .str m.parentKey), ("created_by", .str m.createdBy),
      ("target_arch", .str m.targetArch), ("abi_version", .str m.abiVersion),
      ("guard_domain", .str m.guardDomain), ("compatibility_class", .str m.compatibilityClass),
      ("compile_occurred", .bool m.compileOccurred)]
  nodup := by simp

/-- What a JSON file holds. -/
inductive Loaded where
  | mapping (d : Attrs)
  | other

/-- Why a JSON file cannot be read. -/
inductive LoadError where
  | malformed
  | encoding

/-- What the store takes from elsewhere: hashing, `json.load`, `str`, and the files that a path
leads to which is not the name of a file. -/
structure Host where
  sha256 : Bytes → String
  load : Bytes → Except LoadError Loaded
  str : Payload → String
  elsewhere : String → Option Bytes

/-- `canonical_json(d)` as a file. -/
def dump (d : Attrs) : Bytes := Utf8.encode (Payload.dict d.entries).canonicalJson

variable (host : Host)

/-- `metadata_fingerprint` -/
def fingerprint (d : Attrs) : String := host.sha256 (dump (d.set "metadata_sha256" (.str "")))

/-! ### Directories -/

/-- What there is of one entry id: its directory, the one that it is quarantined to, temporary
directories by their numbers, and the lock file. -/
structure Root where
  dir : Option Files
  quarantined : Option Files
  temps : OrderedDict ℕ Files
  lock : Bool

namespace Root

variable (root : Root)

/-- `os.path.isfile`, for a file of the entry. -/
def isFile (name : String) : Bool := root.dir.any fun files => (files.get? name).isSome

def content (name : String) : Option Bytes := root.dir.bind (·.get? name)

/-- `open(path, "w")` and a write; none when there is no directory. -/
def write (name : String) (b : Bytes) : Option Root :=
  root.dir.map fun files => { root with dir := some (files.set name b) }

/-- A directory can be renamed over one that is missing or empty. -/
def replaceable (target : Option Files) : Bool := target.all fun files => files.entries.isEmpty

/-- `mkdtemp`: a number that no temporary directory has. -/
def freshTemp : ℕ := root.temps.keys.foldr max 0 + 1

end Root

/-! ### Publishing -/

structure PublishArgs where
  key : String
  layer : String
  payload : Bytes
  targetArch : String
  abiVersion : String
  guardDomain : String
  compatibilityClass : String
  parentKey : String
  createdBy : String

inductive PublishError where
  | unknownLayer
  | alreadyPublished
  | lockStuck
  | system

/-- How far a call of `publish` has come. -/
inductive Writer where
  | start
  | locked
  | temp (id : ℕ)
  | written (id : ℕ)
  | validated (id : ℕ)
  | renamed
  | promoted
  | committed
  | done
  | raised (error : PublishError)

section

variable (entryId : String) (args : PublishArgs)

def manifestOf (state : String) : EntryManifest where
  entryId := entryId
  key := args.key
  layer := args.layer
  schemaVersion := "1.0.0"
  state := state
  payloadName := PAYLOAD
  payloadSha256 := host.sha256 args.payload
  payloadBytes := args.payload.length
  metadataSha256 := ""
  parentKey := args.parentKey
  createdBy := args.createdBy
  targetArch := args.targetArch
  abiVersion := args.abiVersion
  guardDomain := args.guardDomain
  compatibilityClass := args.compatibilityClass
  compileOccurred := true

def validatingManifest : Bytes := dump (manifestOf host entryId args STATE_VALIDATING).asDict

def finalManifest : EntryManifest :=
  let m := manifestOf host entryId args STATE_COMMITTED
  { m with metadataSha256 := fingerprint host m.asDict }

def committedManifest : Bytes := dump (finalManifest host entryId args).asDict

def Root.unlock (root : Root) : Root := { root with lock := false }

def Writer.step (root : Root) : Writer → Root × Writer
  | .start =>
    if args.layer ∉ CACHE_LAYERS then (root, .raised .unknownLayer)
    else if root.lock then (root, .raised .lockStuck)
    else ({ root with lock := true }, .locked)
  | .locked =>
    if root.isFile MANIFEST then (root.unlock, .raised .alreadyPublished)
    else
      let id := root.freshTemp
      ({ root with temps := root.temps.set id .empty }, .temp id)
  | .temp id =>
    match root.temps.get? id with
    | none => (root.unlock, .raised .system)
    | some files =>
      ({ root with temps := root.temps.set id (files.set PAYLOAD args.payload) }, .written id)
  | .written id =>
    match root.temps.get? id with
    | none => (root.unlock, .raised .system)
    | some files =>
      ({ root with
          temps := root.temps.set id
            (files.set MANIFEST (validatingManifest host entryId args)) }, .validated id)
  | .validated id =>
    match root.temps.get? id with
    | none => (root.unlock, .raised .system)
    | some files =>
      if Root.replaceable root.dir then
        ({ root with dir := some files, temps := root.temps.erase id }, .renamed)
      else (root.unlock, .raised .system)
  | .renamed =>
    match root.write MANIFEST (committedManifest host entryId args) with
    | none => (root.unlock, .raised .system)
    | some root => (root, .promoted)
  | .promoted =>
    match root.write MARKER (Utf8.encode (finalManifest host entryId args).metadataSha256.toList) with
    | none => (root.unlock, .raised .system)
    | some root => (root, .committed)
  | .committed => (root.unlock, .done)
  | .done => (root, .done)
  | .raised e => (root, .raised e)

end

section

variable {host : Host} {entryId : String} {args : PublishArgs} {root : Root}

theorem Writer.step_start (hlayer : args.layer ∈ CACHE_LAYERS) (hlock : root.lock = false) :
    step host entryId args root .start = ({ root with lock := true }, .locked) := by
  unfold step
  rw [if_neg (not_not.mpr hlayer), if_neg (by simp [hlock])]

theorem Writer.step_locked (h : root.isFile MANIFEST = false) :
    step host entryId args root .locked =
      ({ root with temps := root.temps.set root.freshTemp .empty }, .temp root.freshTemp) := by
  unfold step
  dsimp only
  rw [if_neg (by simp [h])]

section

variable {id : ℕ} {files : Files} (h : root.temps.get? id = some files)

include h

theorem Writer.step_temp : step host entryId args root (.temp id) =
      ({ root with temps := root.temps.set id (files.set PAYLOAD args.payload) }, .written id) := by
  unfold step
  dsimp only
  rw [h]

theorem Writer.step_written : step host entryId args root (.written id) =
      ({ root with
          temps := root.temps.set id
            (files.set MANIFEST (validatingManifest host entryId args)) }, .validated id) := by
  unfold step
  dsimp only
  rw [h]

theorem Writer.step_validated
    (hdir : Root.replaceable root.dir = true) :
    step host entryId args root (.validated id) =
      ({ root with dir := some files, temps := root.temps.erase id }, .renamed) := by
  unfold step
  simp only [h, if_pos hdir]

end

theorem Writer.step_renamed {files : Files} (h : root.dir = some files) :
    step host entryId args root .renamed =
      ({ root with dir := some (files.set MANIFEST (committedManifest host entryId args)) },
        .promoted) := by
  unfold step
  rw [Root.write, h, Option.map_some]

theorem Writer.step_promoted {files : Files} (h : root.dir = some files) :
    step host entryId args root .promoted =
      ({ root with
          dir := some (files.set MARKER
            (Utf8.encode (finalManifest host entryId args).metadataSha256.toList)) }, .committed) := by
  unfold step
  simp only [Root.write, h, Option.map_some]

end

/-! ### Reading -/

structure ReadArgs where
  expectedKey : String
  targetArch : String
  abiVersion : String
  guardCovers : Bool
  schemaSupported : String → Bool

inductive RejectReason where
  | metadataParse | metadataHash | unknownSchema | keyMismatch | targetIncompatible | abiMismatch
  | guardFalse | payloadHash | notCommitted | permission

/-- Why a call of `read` raises. -/
inductive ReadError where
  | encoding
  | notMapping
  | missingField
  | payloadName
  | quarantine

/-- How far a call of `read` has come, with the manifest that it goes by. -/
inductive Reader where
  | start
  | found
  | parsed (text : Bytes) (d : Attrs)
  | marked (text : Bytes) (d : Attrs) (name : String)
  | hashed (text : Bytes) (name : String)
  | mismatched
  | miss
  | reject (reason : RejectReason)
  | hit (payload : Bytes) (text : Bytes)
  | raised (error : ReadError)

section

def isText (p : Option Payload) (s : String) : Bool :=
  match p with
  | some (.str t) => t = s
  | _ => false

/-- A field that is given and is something else than what is asked for. -/
def clashes (asked : String) (p : Option Payload) : Bool :=
  asked ≠ "" && p.any Payload.truthy && !isText p asked

/-- `str(payload.get(name, ""))` -/
def fieldText (d : Attrs) (name : String) : String := host.str ((d.get? name).getD (.str ""))

/-- The checks in front of the marker. -/
def inspect (args : ReadArgs) (d : Attrs) : Option RejectReason :=
  if !args.schemaSupported (fieldText host d "schema_version") then some .unknownSchema
  else if !isText (d.get? "key") args.expectedKey then some .keyMismatch
  else if clashes args.targetArch (d.get? "target_arch") then some .targetIncompatible
  else if clashes args.abiVersion (d.get? "abi_version") then some .abiMismatch
  else if !args.guardCovers then some .guardFalse
  else none

/-- The checks of the manifest behind the marker.  A manifest without a recorded hash passes. -/
def vouch (d : Attrs) : Option RejectReason :=
  let recorded := fieldText host d "metadata_sha256"
  if fieldText host d "state" ≠ STATE_COMMITTED then some .notCommitted
  else if recorded ≠ "" ∧ fingerprint host d ≠ recorded then some .metadataHash
  else none

/-- The name of the payload file, by way of a manifest object. -/
def payloadName (d : Attrs) : Except ReadError String :=
  if ["entry_id", "key", "layer"].all fun name => (d.get? name).isSome then
    match d.get? "payload_name" with
    | none => .ok PAYLOAD
    | some (.str name) => .ok name
    | some _ => .error .payloadName
  else .error .missingField

/-- Does a path below the entry lead to one of its own files? -/
def isPlainName (name : String) : Bool := name ∉ ["", ".", ".."] && '/' ∉ name.toList

def payloadContent (root : Root) (name : String) : Option Bytes :=
  if isPlainName name then root.content name else host.elsewhere name

def Reader.step (args : ReadArgs) (root : Root) : Reader → Root × Reader
  | .start => (root, if root.isFile MANIFEST then .found else .miss)
  | .found =>
    (root, match root.content MANIFEST with
      | none => .reject .metadataParse
      | some text =>
        match host.load text with
        | .error .malformed => .reject .metadataParse
        | .error .encoding => .raised .encoding
        | .ok .other => .raised .notMapping
        | .ok (.mapping d) =>
          match inspect host args d with
          | some reason => .reject reason
          | none => .parsed text d)
  | .parsed text d =>
    (root, if !root.isFile MARKER then .reject .notCommitted
      else
        match vouch host d with
        | some reason => .reject reason
        | none =>
          match payloadName d with
          | .error e => .raised e
          | .ok name => .marked text d name)
  | .marked text d name =>
    (root, match payloadContent host root name with
      | none => .reject .permission
      | some b =>
        if isText (d.get? "payload_sha256") (host.sha256 b) then .hashed text name
        else .mismatched)
  | .mismatched =>
    match root.dir with
    | none => (root, .reject .payloadHash)
    | some files =>
      if Root.replaceable root.quarantined then
        ({ root with dir := none, quarantined := some files }, .reject .payloadHash)
      else (root, .raised .quarantine)
  | .hashed text name =>
    (root, match payloadContent host root name with
      | none => .reject .permission
      | some b => .hit b text)
  | .miss => (root, .miss)
  | .reject reason => (root, .reject reason)
  | .hit payload text => (root, .hit payload text)
  | .raised e => (root, .raised e)

end

end EntryStore

end Hqsb.Compiler
