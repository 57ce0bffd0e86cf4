/-
Hqsb/Quant/Artifact.lean

Artifacts: a quantised tensor in a directory.

`fromQuantized` makes a document of a tensor, `save` writes it into a directory that does not
exist yet, and `loadDocument` reads it back and checks it on the way.  A directory holds three
planes of cells (codes as `int8`, scales as `float32`, zeros as `int32`) and a manifest with
everything else: the axis in it is the axis of the scheme.

A manifest is stored as the value that `json.load` makes of it.  SHA-256 enters as the function
`sha256` from bytes to a hex digest.  The volatile fields, which the manifest leaves out, and what
is computed of a document only to be reported are not modelled.
-/
import Hqsb.Core.Document
import Hqsb.Lib.BinaryFloat
import Hqsb.Quant.Rtn
import Hqsb.Quant.SchemeMapping

namespace Hqsb

open Lib Lib.Cells

/-! ### Records -/

def modelIdentity : DataClass where
  fields := [("model_id", none), ("revision", none), ("architecture", some (.str "")),
    ("config_hash", some (.str "")), ("tokenizer_hash", some (.str "")),
    ("source_weight_sha256", some (.str "")), ("model_root_sha256", some (.str "")),
    ("tied_embeddings", some (.bool false))]

def calibrationProvenance : DataClass where
  fields := [("kind", some (.str "NONE")), ("dataset_manifest_sha256", some (.str "")),
    ("sample_count", some (.num 0)), ("valid_tokens", some (.num 0)), ("subset_seed", some .null),
    ("statistics_kind", some (.str "")), ("domain", some (.str "")), ("notes", some (.str ""))]

def compatibilityRecord : DataClass where
  fields := [("kernel_id", none), ("provider", none), ("layout_id", none),
    ("target_arch", some (.str "any")), ("abi_version", some (.str "1")),
    ("supported_bits", some (.arr [])), ("supported_groups", some (.arr [])),
    ("dtype", some (.str "float16")), ("m_range", some (.arr [.num 1, .num (2 ^ 30)])),
    ("n_range", some (.arr [.num 1, .num (2 ^ 30)])),
    ("k_range", some (.arr [.num 1, .num (2 ^ 30)])), ("workspace_bytes", some (.num 0)),
    ("fallback_policy", some (.str "fail_closed")), ("required_extension", some (.str "")),
    ("status", some (.str "unverified"))]
  tuples := ["supported_bits", "supported_groups", "m_range", "n_range", "k_range"]

def packedVariantRecord : DataClass where
  fields := [("layout_id", none), ("layout_version", none), ("filename", none),
    ("payload_bytes", none), ("payload_sha256", none), ("variant_hash", none),
    ("parent_canonical_hash", none), ("builder", some (.str "hqsb.quant.packing")),
    ("builder_version", some (.str "1.0.0")), ("target_arch", some (.str "any")),
    ("alignment", some (.num 16)), ("layout_extra", some (.obj []))]

/-- `ModelIdentity(model_id="", revision="")` -/
def unknownModel : Record modelIdentity where
  members := [("model_id", .str ""), ("revision", .str ""), ("architecture", .str ""),
    ("config_hash", .str ""), ("tokenizer_hash", .str ""), ("source_weight_sha256", .str ""),
    ("model_root_sha256", .str ""), ("tied_embeddings", .bool false)]
  complete := rfl
  tupled := fun _ _ h => nomatch h

/-- `CalibrationProvenance()` -/
def noCalibration : Record calibrationProvenance where
  members := [("kind", .str "NONE"), ("dataset_manifest_sha256", .str ""),
    ("sample_count", .num 0), ("valid_tokens", .num 0), ("subset_seed", .null),
    ("statistics_kind", .str ""), ("domain", .str ""), ("notes", .str "")]
  complete := rfl
  tupled := fun _ _ h => nomatch h

/-- Name, shape, dtype, layout and source of a tensor. -/
structure TensorIdentity where
  name : String
  shape : List Nat
  dtype : String
  layout : String := "row_major"
  sourceSha256 : String := ""

/-! ### Errors -/

inductive ArtifactError
  | emptyTensor
  | pack (error : PackError)
  | structError
  | alreadyExists (path : String)
  | manifestMissing (path : String)
  | manifestParse
  | kind (kind : Option Json)
  | missingVersion
  | invalidVersion (text : String)
  | unsupportedVersion (received supported : SchemaVersion)
  | missingField (field : String)
  | wrongType (field : String)
  | scheme (error : SchemeError)
  | schemeHash (declared : Json) (computed : String)
  | fileMissing (stage filename : String)
  | fileHash (stage filename : String) (expected : Json) (actual : String)
  | malformedPayloadSection
  | canonicalCount (expected : Int) (actualBytes : Nat)
  | shapeCount (shape : List Nat) (count : Nat)
  | scaleCount (expected : Int) (actualBytes : Nat)
  | symmetricZeros (zeroCount : Int)
  | zeroCount (expected : Int) (actualBytes : Nat)
  | axisOutOfRange (axis : Int) (shape : List Nat)
  | unitCount (scaleCount expected : Nat)
  | badScale (index : Nat)
  | canonicalHash (declared : Json) (computed : String)
  | rankZero
  | variantDimensions (layoutRows layoutCols : Int) (rows cols : Nat)
  | variantValues (layoutId : String)
  | quant (error : QuantError)
  | python (error : PythonError)

def ArtifactError.reasonCode : ArtifactError → Option String
  | emptyTensor | shapeCount _ _ | axisOutOfRange _ _ | rankZero | variantDimensions _ _ _ _ =>
    some "canonical_shape_mismatch"
  | pack error => error.reasonCode
  | alreadyExists _ => some "artifact_incomplete"
  | manifestMissing _ => some "manifest_missing"
  | manifestParse => some "manifest_parse_error"
  | kind _ => some "artifact_kind_mismatch"
  | missingVersion | unsupportedVersion _ _ => some "schema_version_unsupported"
  | missingField _ | wrongType _ | malformedPayloadSection =>
    some "manifest_required_field_invalid"
  | scheme _ | schemeHash _ _ | symmetricZeros _ | badScale _ | canonicalHash _ _ =>
    some "quant_semantics_mismatch"
  | fileMissing _ _ => some "payload_file_missing"
  | fileHash _ _ _ _ => some "payload_hash_mismatch"
  | canonicalCount _ _ => some "canonical_count_mismatch"
  | scaleCount _ _ | zeroCount _ _ | unitCount _ _ => some "scale_or_zero_length_mismatch"
  | variantValues _ => some "packed_bytes_value_mismatch"
  | structError | invalidVersion _ | quant _ | python _ => none

/-! ### Documents -/

structure QuantArtifactDocument where
  tensor : TensorIdentity
  scheme : QuantScheme
  values : List Int
  scales : List (Option ℚ)
  zeros : List Int
  unitsPerRow : Nat
  tail : Nat
  paddedShape : List Nat
  expectedDequantDtype : String
  method : String := "rtn"
  methodConfigHash : String := ""
  toolVersion : String := "hqsb.quant/0.1.0"
  model : Record modelIdentity := unknownModel
  calibration : Record calibrationProvenance := noCalibration
  compatibility : List (Record compatibilityRecord) := []
  variants : List (Record packedVariantRecord) := []
  knownLimitations : List String := []
  qualityReferences : Mapping := []
  license : String := "Apache-2.0"
  canonicalPackVersion : String := ""
  variantPayloads : OrderedDict String (List Byte) := .empty

/-- The keyword arguments of `from_quantized`. -/
structure ArtifactOptions where
  tensorName : String
  sourceDtype : String := "float16"
  sourceSha256 : String := ""
  model : Option (Record modelIdentity) := none
  method : String := "rtn"
  methodConfigHash : String := ""
  calibration : Option (Record calibrationProvenance) := none
  compatibility : List (Record compatibilityRecord) := []
  knownLimitations : List String := []
  qualityReferences : Mapping := []
  sourceLayout : String := "row_major"
  paddedShape : Option (List Nat) := none

def canonicalPackVersion (bits : Nat) : Except PackError String :=
  if bits = 4 then .ok "hqsb.nibble.v1"
  else if bits = 8 then .ok "hqsb.byte.v1"
  else .error (.packVersion bits)

def paddedShapeOf (qt : QuantizedTensor) : List Nat :=
  match qt.groupSize with
  | some groupSize =>
    if qt.axis = qt.shape.length - 1 then
      qt.shape.set (qt.shape.length - 1) (qt.unitsPerRow * groupSize)
    else qt.shape
  | none => qt.shape

namespace QuantArtifactDocument

/-- Make a document of a tensor, still without packed variants. -/
def fromQuantized (qt : QuantizedTensor) (o : ArtifactOptions) :
    Except ArtifactError QuantArtifactDocument :=
  if qt.q = [] then .error .emptyTensor
  else do
    let packVersion ← (Hqsb.canonicalPackVersion qt.scheme.bits).mapError .pack
    .ok {
      tensor := {
        name := o.tensorName
        shape := qt.shape
        dtype := o.sourceDtype
        layout := o.sourceLayout
        sourceSha256 := o.sourceSha256 }
      scheme := qt.scheme
      values := qt.q
      scales := qt.scales
      zeros := qt.zeros
      unitsPerRow := qt.unitsPerRow
      tail := qt.tail
      paddedShape := o.paddedShape.getD (paddedShapeOf qt)
      expectedDequantDtype := "float16"
      method := o.method
      methodConfigHash := o.methodConfigHash
      model := o.model.getD unknownModel
      calibration := o.calibration.getD noCalibration
      compatibility := o.compatibility
      knownLimitations := o.knownLimitations
      qualityReferences := o.qualityReferences
      canonicalPackVersion := packVersion }

/-! ### Planes and hashes -/

/-- The bytes of a plane; a value that does not fit its cell is a `struct.error`. -/
def packPlane {α : Type} (c : Cell α) (values : List α) : Except ArtifactError (List Byte) :=
  (c.pack values).elim (.error .structError) .ok

def scaleCell : Cell (Option ℚ) := binary32.cell roundNearestEven

/-- The payloads of the three planes. -/
structure Planes where
  canonical : List Byte := []
  scales : List Byte := []
  zeros : List Byte := []

variable (doc : QuantArtifactDocument)

def canonicalBytes : Except ArtifactError (List Byte) := packPlane (signed 1) doc.values

def scalesBytes : Except ArtifactError (List Byte) := packPlane scaleCell doc.scales

def zerosBytes : Except ArtifactError (List Byte) :=
  if doc.scheme.symmetric then .ok [] else packPlane (signed 4) doc.zeros

def planes : Except ArtifactError Planes := do
  pure ⟨← doc.canonicalBytes, ← doc.scalesBytes, ← doc.zerosBytes⟩

variable (sha256 : List Byte → String)

/-- What defines the quantised values and their meaning. -/
def semanticsPayload : Json := .obj
  [("schema_version", .str "1.0.0"), ("kind", .str "hqsb.quant.artifact"),
    ("tensor_shape", .nats doc.tensor.shape),
    ("tensor_dtype", .str doc.tensor.dtype), ("scheme", doc.scheme.asDict),
    ("scheme_hash", .str (doc.scheme.schemeHash sha256)), ("axis", .num doc.scheme.axis),
    ("units_per_row", .num doc.unitsPerRow), ("tail", .num doc.tail),
    ("padded_shape", .nats doc.paddedShape),
    ("expected_dequant_dtype", .str doc.expectedDequantDtype),
    ("canonical_pack_version", .str doc.canonicalPackVersion),
    ("canonical_count", .num doc.values.length), ("scale_count", .num doc.scales.length),
    ("zero_count", .num doc.zeros.length), ("method", .str doc.method),
    ("method_config_hash", .str doc.methodConfigHash)]

def hashOf (p : Planes) : String :=
  sha256 (canonicalJson (doc.semanticsPayload sha256) ++ p.canonical ++ p.scales ++ p.zeros)

def canonicalHash : Except ArtifactError String := do
  let p ← doc.planes
  .ok (doc.hashOf sha256 p)

/-! ### Saving -/

def tensorDict : Json := .obj
  [("name", .str doc.tensor.name), ("shape", .nats doc.tensor.shape),
    ("dtype", .str doc.tensor.dtype), ("layout", .str doc.tensor.layout),
    ("source_sha256", .str doc.tensor.sourceSha256)]

/-- The manifest up to the files, without the volatile fields. -/
def canonicalManifest : Mapping :=
  [("schema_version", .str "1.0.0"), ("kind", .str "hqsb.quant.artifact"),
    ("tensor", doc.tensorDict), ("scheme", doc.scheme.asDict),
    ("scheme_hash", .str (doc.scheme.schemeHash sha256)), ("axis", .num doc.scheme.axis),
    ("units_per_row", .num doc.unitsPerRow), ("tail", .num doc.tail),
    ("padded_shape", .nats doc.paddedShape),
    ("expected_dequant_dtype", .str doc.expectedDequantDtype),
    ("canonical_pack_version", .str doc.canonicalPackVersion),
    ("canonical_count", .num doc.values.length), ("scale_count", .num doc.scales.length),
    ("zero_count", .num doc.zeros.length), ("method", .str doc.method),
    ("method_config_hash", .str doc.methodConfigHash), ("tool_version", .str doc.toolVersion),
    ("model", doc.model.asDict), ("calibration", doc.calibration.asDict),
    ("compatibility", .arr (doc.compatibility.map Record.asDict)),
    ("known_limitations", .strs doc.knownLimitations),
    ("quality_references", .obj doc.qualityReferences), ("license", .str doc.license)]

def fileEntry (filename : String) (payload : List Byte) : Json := .obj
  [("filename", .str filename), ("bytes", .num payload.length), ("sha256", .str (sha256 payload))]

def manifestPayload (p : Planes) : Mapping :=
  doc.canonicalManifest sha256 ++
    [("canonical_file", fileEntry sha256 "canonical.bin" p.canonical),
      ("scales_file", fileEntry sha256 "scales.bin" p.scales),
      ("zeros_file",
        if doc.scheme.symmetric then .null else fileEntry sha256 "zeros.bin" p.zeros),
      ("packed_variants", .arr (doc.variants.map Record.asDict)),
      ("canonical_hash", .str (doc.hashOf sha256 p))]

end QuantArtifactDocument

/-- The file `manifest.json`. -/
inductive ManifestFile
  | missing
  | unreadable
  | json (payload : Json)

/-- A directory: its manifest and its other files by their paths. -/
structure Directory where
  manifest : ManifestFile := .missing
  files : OrderedDict String (List Byte) := .empty

abbrev FileSystem := OrderedDict String Directory

namespace QuantArtifactDocument

variable (doc : QuantArtifactDocument) (sha256 : List Byte → String)

def payloadFiles (p : Planes) : OrderedDict String (List Byte) :=
  let files := (OrderedDict.empty.set "canonical.bin" p.canonical).set "scales.bin" p.scales
  let files := if p.zeros = [] then files else files.set "zeros.bin" p.zeros
  doc.variantPayloads.entries.foldl (fun files e => files.set ("variants/" ++ e.1) e.2) files

/-- Write the artifact, unless there is something under the path.  The directory is renamed to
the path when it is complete, so a failure leaves nothing. -/
def save (fs : FileSystem) (path : String) : Except ArtifactError FileSystem := do
  let p ← doc.planes
  raiseIf (fs.get? path).isSome (.alreadyExists path)
  .ok (fs.set path {
    manifest := .json (.obj (doc.manifestPayload sha256 p))
    files := doc.payloadFiles p })

end QuantArtifactDocument

/-! ### Loading -/

open QuantArtifactDocument

def loadManifest (fs : FileSystem) (path : String) : Except ArtifactError (Directory × Mapping) :=
  match fs.get? path with
  | none => .error (.manifestMissing path)
  | some directory =>
    match directory.manifest with
    | .missing => .error (.manifestMissing path)
    | .json (.obj manifest) => .ok (directory, manifest)
    | _ => .error .manifestParse

/-- Only the version of this code is read, neither a newer nor an older one. -/
def checkVersion (text : String) : Except ArtifactError Unit :=
  match SchemaVersion.parse text with
  | none => .error (.invalidVersion text)
  | some received =>
    let current : SchemaVersion := ⟨1, 0, 0⟩
    if received.compare current = .eq then .ok ()
    else .error (.unsupportedVersion received current)

def checkSchema (manifest : Mapping) : Except ArtifactError Unit :=
  if (manifest.lookup "kind").bind Json.str? ≠ some "hqsb.quant.artifact" then
    .error (.kind (manifest.lookup "kind"))
  else
    match (manifest.lookup "schema_version").bind Json.str? with
    | none => .error .missingVersion
    | some text => checkVersion text

/-- The fields without which nothing is read, and what they must be. -/
def requiredFields : List (String × (Json → Bool)) :=
  [("tensor", (·.members?.isSome)), ("scheme", (·.members?.isSome)),
    ("canonical_file", (·.members?.isSome)), ("scales_file", (·.members?.isSome)),
    ("canonical_count", (·.int?.isSome))]

def requireField (manifest : Mapping) (field : String × (Json → Bool)) :
    Except ArtifactError Unit :=
  match manifest.lookup field.1 with
  | none => .error (.missingField field.1)
  | some value => if field.2 value then .ok () else .error (.wrongType field.1)

def TensorIdentity.fromMapping (data : Mapping) : Except PythonError TensorIdentity := do
  let shape ← data.require (Json.list? Json.nat?) "shape"
  raiseIf (∃ m ∈ data, m.1 ∉ ["name", "shape", "dtype", "layout", "source_sha256"]) .typeError
  pure {
    name := ← (data.require Json.str? "name").mapError fun _ => .typeError
    shape
    dtype := ← (data.require Json.str? "dtype").mapError fun _ => .typeError
    layout := ← data.read Json.str? "layout" "row_major"
    sourceSha256 := ← data.read Json.str? "source_sha256" "" }

section Load

variable (sha256 : List Byte → String) (manifest : Mapping) (directory : Directory)

def readTensor : Except ArtifactError TensorIdentity :=
  (manifest.require Json.members? "tensor" >>= TensorIdentity.fromMapping).mapError .python

def readScheme : Except ArtifactError QuantScheme := do
  let payload ← (manifest.require Json.members? "scheme").mapError .python
  (QuantScheme.fromMapping payload).mapError .scheme

def digestDiffers (declared : Option Json) (computed : String) : Prop :=
  ∃ value ∈ declared, value.truthy ∧ value.str? ≠ some computed

instance (declared : Option Json) (computed : String) :
    Decidable (digestDiffers declared computed) :=
  match declared with
  | none => isFalse fun ⟨_, h, _⟩ => nomatch h
  | some value =>
    if h : value.truthy ∧ value.str? ≠ some computed then isTrue ⟨value, rfl, h⟩
    else isFalse fun ⟨_, hmem, h'⟩ => h (Option.some.inj hmem ▸ h')

def checkSchemeHash (scheme : QuantScheme) : Except ArtifactError Unit :=
  raiseIf (digestDiffers (manifest.lookup "scheme_hash") (scheme.schemeHash sha256))
    (.schemeHash ((manifest.lookup "scheme_hash").getD .null) (scheme.schemeHash sha256))

def verifyPayload (filename : String) (expected : Json) (stage : String) :
    Except ArtifactError (List Byte) :=
  match directory.files.get? filename with
  | none => .error (.fileMissing stage filename)
  | some payload =>
    if expected.str? = some (sha256 payload) then .ok payload
    else .error (.fileHash stage filename expected (sha256 payload))

/-- The payload that an entry of the manifest names. -/
def readPayload (parent digest stage : String) (info : Json) : Except ArtifactError (List Byte) :=
  match (info.get? "filename").bind Json.str?, info.get? digest with
  | some filename, some expected =>
    verifyPayload sha256 directory (parent ++ filename) expected stage
  | _, _ => .error .malformedPayloadSection

/-- The plane of an entry of the manifest; one that is missing or `None` has no bytes. -/
def readPlane (entry : String) : Except ArtifactError (List Byte) :=
  match manifest.lookup entry with
  | none => .ok []
  | some info => if info.truthy then readPayload sha256 directory "" "sha256" "schema" info else .ok []

def verifyVariantPayloads : Except ArtifactError Unit :=
  match manifest.lookup "packed_variants" with
  | none => .ok ()
  | some (.arr records) =>
    records.forM fun record => do
      let _ ← readPayload sha256 directory "variants/" "payload_sha256" "pack" record
      pure ()
  | some _ => .error .malformedPayloadSection

def readPlanes : Except ArtifactError Planes := do
  let canonical ← readPayload sha256 directory "" "sha256" "schema"
    ((manifest.lookup "canonical_file").getD .null)
  let scales ← readPayload sha256 directory "" "sha256" "schema"
    ((manifest.lookup "scales_file").getD .null)
  let zeros ← readPlane sha256 manifest directory "zeros_file"
  verifyVariantPayloads sha256 manifest directory
  pure ⟨canonical, scales, zeros⟩

def readValues (scheme : QuantScheme) (shape : List Nat) (bytes : List Byte) :
    Except ArtifactError (List Int) := do
  let count ← (manifest.read Json.int? "canonical_count" (-1)).mapError .python
  raiseIf (count < 0 ∨ bytes.length ≠ count) (.canonicalCount count bytes.length)
  raiseIf (shape.prod ≠ bytes.length) (.shapeCount shape bytes.length)
  let values := (signed 1).unpack bytes.length bytes
  (validateCodes values scheme).mapError .pack
  pure values

def readScales (bytes : List Byte) : Except ArtifactError (List (Option ℚ)) := do
  let count ← (manifest.read Json.int? "scale_count" (-1)).mapError .python
  raiseIf (count < 0 ∨ bytes.length ≠ 4 * count) (.scaleCount count bytes.length)
  pure (scaleCell.unpack count.toNat bytes)

def readZeros (scheme : QuantScheme) (bytes : List Byte) : Except ArtifactError (List Int) := do
  let count ← (manifest.read Json.int? "zero_count" 0).mapError .python
  if scheme.symmetric then do
    raiseIf (count ≠ 0) (.symmetricZeros count)
    pure []
  else do
    raiseIf (bytes.length ≠ 4 * count) (.zeroCount count bytes.length)
    pure ((signed 4).unpack count.toNat bytes)

def checkUnits (scheme : QuantScheme) (shape : List Nat) (scaleCount : Nat) :
    Except ArtifactError Unit := do
  let units ← (manifest.read Json.nat? "units_per_row" 1).mapError .python
  let axis ← (manifest.read Json.int? "axis" scheme.axis).mapError .python
  if scheme.granularity ≠ .perTensor ∧ shape ≠ [] then do
    let normalized := if axis < 0 then axis + shape.length else axis
    raiseIf (¬ (0 ≤ normalized ∧ normalized < shape.length)) (.axisOutOfRange axis shape)
    let rows := shape.prod / max 1 (shape.getD normalized.toNat 0)
    raiseIf (scaleCount ≠ rows * units) (.unitCount scaleCount (rows * units))
  else pure ()

/-- Refuse the first scale that is not finite and positive. -/
def checkScales (scales : List (Option ℚ)) : Except ArtifactError Unit :=
  match scales.zipIdx.find? fun e => ¬ (∃ scale ∈ e.1, 0 < scale) with
  | none => .ok ()
  | some (_, index) => .error (.badScale index)

def readRecords (c : DataClass) (field : String) : Except PythonError (List (Record c)) := do
  let items ← manifest.read Json.arr? field []
  items.mapM c.fromMapping

def readDocument (tensor : TensorIdentity) (scheme : QuantScheme) (values : List Int)
    (scales : List (Option ℚ)) (zeros : List Int) : Except PythonError QuantArtifactDocument := do
  pure {
    tensor
    scheme
    values
    scales
    zeros
    unitsPerRow := ← manifest.read Json.nat? "units_per_row" 1
    tail := ← manifest.read Json.nat? "tail" 0
    paddedShape := ← manifest.read (Json.list? Json.nat?) "padded_shape" tensor.shape
    expectedDequantDtype := ← manifest.read Json.str? "expected_dequant_dtype" "float16"
    method := ← manifest.read Json.str? "method" "unknown"
    methodConfigHash := ← manifest.read Json.str? "method_config_hash" ""
    toolVersion := ← manifest.read Json.str? "tool_version" ""
    model := ← modelIdentity.fromMapping
      ((manifest.lookup "model").getD (.obj [("model_id", .str ""), ("revision", .str "")]))
    calibration :=
      ← calibrationProvenance.fromMapping ((manifest.lookup "calibration").getD (.obj []))
    compatibility := ← readRecords manifest compatibilityRecord "compatibility"
    variants := ← readRecords manifest packedVariantRecord "packed_variants"
    knownLimitations := ← manifest.read (Json.list? Json.str?) "known_limitations" []
    qualityReferences := ← manifest.read Json.members? "quality_references" []
    license := ← manifest.read Json.str? "license" ""
    canonicalPackVersion := ← manifest.read Json.str? "canonical_pack_version" "" }

def checkCanonicalHash (doc : QuantArtifactDocument) : Except ArtifactError Unit := do
  let computed ← doc.canonicalHash sha256
  raiseIf (digestDiffers (manifest.lookup "canonical_hash") computed)
    (.canonicalHash ((manifest.lookup "canonical_hash").getD .null) computed)

def weightMatrixShape (shape : List Nat) : Except ArtifactError (Nat × Nat) :=
  match shape.reverse with
  | [] => .error .rankZero
  | cols :: rows => .ok (rows.prod, cols)

/-- Decode a packed variant and compare it with the canonical values. -/
def verifyVariantAgainstCanonical (doc : QuantArtifactDocument)
    (record : Record packedVariantRecord) : Except ArtifactError Unit := do
  let (rows, cols) ← weightMatrixShape doc.tensor.shape
  let layout := ((record.get "layout_extra").get? "layout").bind Json.members? |>.getD []
  let fields := record.members
  let filename ← (fields.require Json.str? "filename").mapError .python
  let layoutId ← (fields.require Json.str? "layout_id").mapError .python
  let alignment ← (fields.require Json.nat? "alignment").mapError .python
  let parent ← (fields.require Json.str? "parent_canonical_hash").mapError .python
  let payload ← (directory.files.get? ("variants/" ++ filename)).elim
    (.error (.fileMissing "pack" filename)) .ok
  let layoutRows ← (layout.read Json.int? "rows" rows).mapError .python
  let layoutCols ← (layout.read Json.int? "cols" cols).mapError .python
  raiseIf (layoutRows ≠ rows ∨ layoutCols ≠ cols)
    (.variantDimensions layoutRows layoutCols rows cols)
  let kernelLayout ←
    (planKernelLayout doc.scheme rows cols (some layoutId) alignment (some parent)).mapError .pack
  let packed : PackedTensor := ⟨kernelLayout, payload, doc.scales, doc.zeros⟩
  let recovered ← (unpackKernelVariant packed doc.scheme true).mapError .pack
  raiseIf (recovered ≠ doc.values) (.variantValues layoutId)

end Load

def loadDocument (sha256 : List Byte → String) (fs : FileSystem) (path : String)
    (verifyPayloads verifyVariants enforceCanonicalHash : Bool := true) :
    Except ArtifactError QuantArtifactDocument := do
  let (directory, manifest) ← loadManifest fs path
  checkSchema manifest
  requiredFields.forM (requireField manifest)
  let tensor ← readTensor manifest
  let scheme ← readScheme manifest
  checkSchemeHash sha256 manifest scheme
  let planes ← if verifyPayloads then readPlanes sha256 manifest directory else .ok {}
  let values ← readValues manifest scheme tensor.shape planes.canonical
  let scales ← readScales manifest planes.scales
  let zeros ← readZeros manifest scheme planes.zeros
  checkUnits manifest scheme tensor.shape scales.length
  checkScales scales
  let doc ← (readDocument manifest tensor scheme values scales zeros).mapError .python
  if enforceCanonicalHash then checkCanonicalHash sha256 manifest doc else .ok ()
  if verifyPayloads ∧ verifyVariants then
    doc.variants.forM (verifyVariantAgainstCanonical directory doc)
  else .ok ()
  .ok doc

def quantizedWeightValues (doc : QuantArtifactDocument) :
    Except ArtifactError (List (Option ℚ)) := do
  let _ ← weightMatrixShape doc.tensor.shape
  (dequantizeFlat doc.values doc.scales doc.zeros doc.tensor.shape doc.unitsPerRow doc.scheme
    doc.scheme.groupSize (some doc.scheme.axis)).mapError .quant

end Hqsb
