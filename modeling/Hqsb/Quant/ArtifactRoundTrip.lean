/-
Hqsb/Quant/ArtifactRoundTrip.lean

What is saved is loaded.

A document is `Storable` if its codes and zeros are in the range of its scheme, its scales are
positive numbers of the stored format, and its numbers of values and scales are those that its
shape and its scheme imply.  Every step of the loader undoes a step of the writer and every check
passes, so the loader gives the document back (`Storable.load_save`).
-/
import Hqsb.Quant.Artifact
import Hqsb.Quant.QuantizeBounds

namespace Hqsb

open Lib Lib.Cells QuantArtifactDocument List

def expectedUnits (scheme : QuantScheme) (shape : List Nat) (units count : Nat) : Prop :=
  let axis := if scheme.axis < 0 then scheme.axis + shape.length else scheme.axis
  (0 ≤ axis ∧ axis < shape.length) ∧
    count = shape.prod / max 1 (shape.getD axis.toNat 0) * units

/-- **A document without packed variants that its files can hold.** -/
structure Storable (doc : QuantArtifactDocument) : Prop where
  variants : doc.variants = []
  payloads : doc.variantPayloads = .empty
  count : doc.tensor.shape.prod = doc.values.length
  codes : ∀ c ∈ doc.values, doc.scheme.InRange c
  scales : ∀ s ∈ doc.scales, ∃ x, s = some x ∧ 0 < x ∧ binary32.Representable x
  symmetric : doc.scheme.symmetric → doc.zeros = []
  asymmetric : doc.scheme.symmetric = false → doc.zeros ≠ []
  zeros : ∀ z ∈ doc.zeros, doc.scheme.InRange z
  units : doc.scheme.granularity ≠ .perTensor →
    expectedUnits doc.scheme doc.tensor.shape doc.unitsPerRow doc.scales.length

/-! ### The planes -/

theorem QuantScheme.InRange.byte {scheme : QuantScheme} {code : Int} (h : scheme.InRange code) :
    -128 ≤ code ∧ code ≤ 127 := by
  have hbits := scheme.legal.bits
  have hpow : (2 : Int) ^ (scheme.bits - 1) ≤ 2 ^ 7 :=
    pow_le_pow_right₀ (by decide) (by omega)
  have hlow := scheme.qmin_bounds.1
  have hhigh := scheme.qmax_eq
  obtain ⟨hmin, hmax⟩ := h
  omega

/-- The planes of a document, with what is read off them. -/
structure Holds (doc : QuantArtifactDocument) (p : Planes) : Prop where
  planes_eq : doc.planes = .ok p
  canonical_length : p.canonical.length = doc.values.length
  canonical : (signed 1).unpack doc.values.length p.canonical = doc.values
  scales_length : p.scales.length = 4 * doc.scales.length
  scales : scaleCell.unpack doc.scales.length p.scales = doc.scales
  symmetric : doc.scheme.symmetric → p.zeros = []
  asymmetric : doc.scheme.symmetric = false →
    p.zeros.length = 4 * doc.zeros.length ∧ (signed 4).unpack doc.zeros.length p.zeros = doc.zeros

theorem packPlane_ok {α : Type} {c : Cell α} {values : List α} (h : ∀ v ∈ values, c.Keeps v) :
    ∃ bytes, packPlane c values = .ok bytes ∧ bytes.length = c.width * values.length ∧
      c.unpack values.length bytes = values := by
  obtain ⟨bytes, hpack, hlength, hvalues⟩ := Cell.unpack_pack h
  exact ⟨bytes, by rw [packPlane, hpack]; rfl, hlength, hvalues⟩

theorem scaleCell_keeps {x : ℚ} (h : binary32.Representable x) : scaleCell.Keeps (some x) := by
  apply BinaryFloat.cell_keeps _ _ h
  · exact fun n => (isNearest_roundNearestEven (n : ℚ)).eq_of_intCast
  · rfl

section RoundTrip

variable {doc : QuantArtifactDocument} (h : Storable doc)

include h

theorem Storable.holds : ∃ p, Holds doc p := by
  have hbytes : ∀ n, doc.scheme.InRange n → (signed 1).Keeps n := by
    intro n hn
    obtain ⟨hlow, hhigh⟩ := hn.byte
    exact signed_keeps (by omega) (by omega)
  have hwords : ∀ n, doc.scheme.InRange n → (signed 4).Keeps n := by
    intro n hn
    obtain ⟨hlow, hhigh⟩ := hn.byte
    exact signed_keeps (by omega) (by omega)
  have hscale : ∀ s ∈ doc.scales, scaleCell.Keeps s := by
    intro s hs
    obtain ⟨x, rfl, -, hx⟩ := h.scales s hs
    exact scaleCell_keeps hx
  obtain ⟨canonical, hcanonical, hclength, hcvalues⟩ :=
    packPlane_ok fun c hc => hbytes c (h.codes c hc)
  obtain ⟨scales, hscales, hslength, hsvalues⟩ := packPlane_ok hscale
  rcases hsymmetric : doc.scheme.symmetric
  · obtain ⟨zeros, hzeros, hzlength, hzvalues⟩ :=
      packPlane_ok fun z hz => hwords z (h.zeros z hz)
    refine ⟨⟨canonical, scales, zeros⟩, ?_, ?_, hcvalues, hslength, hsvalues, ?_,
      fun _ => ⟨hzlength, hzvalues⟩⟩
    · rw [planes, canonicalBytes, hcanonical, scalesBytes, hscales, zerosBytes, hsymmetric, hzeros]
      rfl
    · exact hclength.trans (one_mul _)
    · rw [hsymmetric]
      rintro ⟨⟩
  · refine ⟨⟨canonical, scales, []⟩, ?_, ?_, hcvalues, hslength, hsvalues, fun _ => rfl, ?_⟩
    · rw [planes, canonicalBytes, hcanonical, scalesBytes, hscales, zerosBytes, hsymmetric]
      rfl
    · exact hclength.trans (one_mul _)
    · rw [hsymmetric]
      rintro ⟨⟩

end RoundTrip

/-! ### The manifest -/

section Manifest

variable (doc : QuantArtifactDocument) (sha256 : List Byte → String) (p : Planes)

theorem readTensor_manifest : readTensor (doc.manifestPayload sha256 p) = .ok doc.tensor := by
  show (TensorIdentity.fromMapping _).mapError _ = _
  rw [TensorIdentity.fromMapping, Mapping.require_of_lookup rfl (Json.list?_nats doc.tensor.shape),
    raiseIf]
  rfl

theorem readScheme_manifest : readScheme (doc.manifestPayload sha256 p) = .ok doc.scheme := by
  show ((QuantScheme.fromMapping doc.scheme.mapping).mapError _ : Except _ _) = _
  rw [QuantScheme.fromMapping_mapping]
  rfl

theorem not_digestDiffers (computed : String) : ¬ digestDiffers (some (.str computed)) computed := by
  rintro ⟨_, ⟨⟩, -, hne⟩
  exact hne rfl

theorem checkSchemeHash_manifest :
    checkSchemeHash sha256 (doc.manifestPayload sha256 p) doc.scheme = .ok () :=
  if_neg (not_digestDiffers (doc.scheme.schemeHash sha256))

theorem readRecords_of_lookup {c : DataClass} {field : String} {records : List (Record c)}
    {manifest : Mapping}
    (hlookup : manifest.lookup field = some (.arr (records.map Record.asDict))) :
    readRecords manifest c field = .ok records := by
  have hitems : manifest.read Json.arr? field [] = .ok (records.map Record.asDict) := by
    rw [Mapping.read, hlookup]
    rfl
  rw [readRecords, hitems]
  show (records.map Record.asDict).mapM c.fromMapping = _
  rw [mapM_eq_ok_iff, forall₂_map_left_iff]
  exact forall₂_same.mpr fun r _ => DataClass.fromMapping_asDict r

/-- The fields of the document are read as they were written. -/
theorem readDocument_manifest :
    readDocument (doc.manifestPayload sha256 p) doc.tensor doc.scheme doc.values doc.scales
      doc.zeros = .ok { doc with variantPayloads := .empty } := by
  have hpadded : ∀ d, (doc.manifestPayload sha256 p).read (Json.list? Json.nat?) "padded_shape" d =
      .ok doc.paddedShape :=
    Mapping.read_of_lookup rfl (Json.list?_nats doc.paddedShape)
  have hlimitations : ∀ d, (doc.manifestPayload sha256 p).read (Json.list? Json.str?)
      "known_limitations" d = .ok doc.knownLimitations :=
    Mapping.read_of_lookup rfl (Json.list?_strs doc.knownLimitations)
  have hmodel : ∀ d, modelIdentity.fromMapping
      (((doc.manifestPayload sha256 p).lookup "model").getD d) = .ok doc.model :=
    fun _ => DataClass.fromMapping_asDict doc.model
  have hcalibration : ∀ d, calibrationProvenance.fromMapping
      (((doc.manifestPayload sha256 p).lookup "calibration").getD d) = .ok doc.calibration :=
    fun _ => DataClass.fromMapping_asDict doc.calibration
  have hcompatibility : readRecords (doc.manifestPayload sha256 p) compatibilityRecord
      "compatibility" = .ok doc.compatibility := readRecords_of_lookup rfl
  have hvariants : readRecords (doc.manifestPayload sha256 p) packedVariantRecord
      "packed_variants" = .ok doc.variants := readRecords_of_lookup rfl
  simp only [readDocument, hpadded, hlimitations, hmodel, hcalibration,
    hcompatibility, hvariants]
  rfl

end Manifest

/-! ### The files -/

section Files

variable {doc : QuantArtifactDocument} (sha256 : List Byte → String) {p : Planes}

theorem readPayload_fileEntry {directory : Directory} {filename : String} {payload : List Byte}
    (hfile : directory.files.get? filename = some payload) :
    readPayload sha256 directory "" "sha256" "schema" (fileEntry sha256 filename payload) =
      .ok payload := by
  show verifyPayload sha256 directory ("" ++ filename) (.str (sha256 payload)) "schema" = _
  rw [String.empty_append, verifyPayload, hfile]
  exact if_pos rfl

variable (h : Storable doc) (hp : Holds doc p)

include h

theorem Storable.payloadFiles_eq : doc.payloadFiles p =
      if p.zeros = [] then
        (OrderedDict.empty.set "canonical.bin" p.canonical).set "scales.bin" p.scales
      else
        ((OrderedDict.empty.set "canonical.bin" p.canonical).set "scales.bin" p.scales).set
          "zeros.bin" p.zeros := by
  rw [payloadFiles, h.payloads]
  rfl

theorem Storable.get?_payloadFiles :
    (doc.payloadFiles p).get? "canonical.bin" = some p.canonical ∧
      (doc.payloadFiles p).get? "scales.bin" = some p.scales ∧
      (p.zeros ≠ [] → (doc.payloadFiles p).get? "zeros.bin" = some p.zeros) := by
  rw [h.payloadFiles_eq]
  refine ⟨?_, ?_, fun hne => ?_⟩
  · split_ifs <;> simp [OrderedDict.get?_set]
  · split_ifs <;> simp [OrderedDict.get?_set]
  · rw [if_neg hne, OrderedDict.get?_set, if_pos rfl]

include hp

/-- **The planes** are read as they were written. -/
theorem Storable.readPlanes_manifest {directory : Directory}
    (hfiles : directory.files = doc.payloadFiles p) :
    readPlanes sha256 (doc.manifestPayload sha256 p) directory = .ok p := by
  obtain ⟨hcanonical, hscales, hzeros⟩ := h.get?_payloadFiles (p := p)
  rw [← hfiles] at hcanonical hscales hzeros
  have hplane : readPlane sha256 (doc.manifestPayload sha256 p) directory "zeros_file" =
      .ok p.zeros := by
    show (if (if doc.scheme.symmetric then Json.null
      else fileEntry sha256 "zeros.bin" p.zeros).truthy then _ else _) = _
    rcases hsymmetric : doc.scheme.symmetric
    · have hne : p.zeros ≠ [] := by
        have hlength := (hp.asymmetric hsymmetric).1
        have hpos := length_pos_of_ne_nil (h.asymmetric hsymmetric)
        exact ne_nil_of_length_pos (by omega)
      exact readPayload_fileEntry sha256 (hzeros hne)
    · rw [hp.symmetric hsymmetric]
      rfl
  have hvariants : verifyVariantPayloads sha256 (doc.manifestPayload sha256 p) directory =
      .ok () := by
    show List.forM (doc.variants.map Record.asDict) _ = _
    rw [h.variants]
    rfl
  have hfirst : readPayload sha256 directory "" "sha256" "schema"
      (((doc.manifestPayload sha256 p).lookup "canonical_file").getD .null) = .ok p.canonical :=
    readPayload_fileEntry sha256 hcanonical
  have hsecond : readPayload sha256 directory "" "sha256" "schema"
      (((doc.manifestPayload sha256 p).lookup "scales_file").getD .null) = .ok p.scales :=
    readPayload_fileEntry sha256 hscales
  rw [readPlanes, hfirst, hsecond, hplane, hvariants]
  rfl

end Files

/-! ### The checks -/

section Checks

variable {doc : QuantArtifactDocument} (sha256 : List Byte → String) {p : Planes}
  (h : Storable doc) (hp : Holds doc p)

include h

theorem Storable.validateCodes_ok : validateCodes doc.values doc.scheme = .ok () := by
  rw [validateCodes.eq_def, List.find?_eq_none.mpr]
  rintro ⟨c, index⟩ hmem
  have hrange : doc.scheme.qmin ≤ c ∧ c ≤ doc.scheme.qmax :=
    h.codes c (fst_mem_of_mem_zipIdx hmem)
  simpa using hrange

theorem Storable.checkScales_ok : checkScales doc.scales = .ok () := by
  rw [checkScales.eq_def, List.find?_eq_none.mpr]
  rintro ⟨s, index⟩ hmem
  obtain ⟨x, rfl, hpos, -⟩ := h.scales s (fst_mem_of_mem_zipIdx hmem)
  simpa using hpos

theorem Storable.checkUnits_ok :
    checkUnits (doc.manifestPayload sha256 p) doc.scheme doc.tensor.shape doc.scales.length =
      .ok () := by
  apply bind_ok_iff.mpr
  refine ⟨doc.unitsPerRow, rfl, ?_⟩
  apply bind_ok_iff.mpr
  refine ⟨doc.scheme.axis, rfl, ?_⟩
  by_cases hgroups : doc.scheme.granularity ≠ .perTensor ∧ doc.tensor.shape ≠ []
  · obtain ⟨hinside, hcount⟩ := h.units hgroups.1
    rw [if_pos hgroups]
    apply bind_ok_iff.mpr
    exact ⟨(), raiseIf_eq_ok_iff.mpr (not_not.mpr hinside),
      raiseIf_eq_ok_iff.mpr (not_not.mpr hcount)⟩
  · rw [if_neg hgroups]
    rfl

include hp

theorem Storable.readValues_ok :
    readValues (doc.manifestPayload sha256 p) doc.scheme doc.tensor.shape p.canonical =
      .ok doc.values := by
  apply bind_ok_iff.mpr
  refine ⟨(doc.values.length : Int), rfl, ?_⟩
  rw [hp.canonical_length, hp.canonical, h.count]
  apply bind_ok_iff.mpr
  refine ⟨(), raiseIf_eq_ok_iff.mpr (by omega), ?_⟩
  apply bind_ok_iff.mpr
  refine ⟨(), raiseIf_eq_ok_iff.mpr (not_not.mpr rfl), ?_⟩
  show ((validateCodes doc.values doc.scheme).mapError ArtifactError.pack >>= fun _ => _) = _
  rw [h.validateCodes_ok]
  rfl

omit h in
theorem Holds.readScales_ok :
    readScales (doc.manifestPayload sha256 p) p.scales = .ok doc.scales := by
  apply bind_ok_iff.mpr
  refine ⟨(doc.scales.length : Int), rfl, ?_⟩
  rw [hp.scales_length]
  apply bind_ok_iff.mpr
  refine ⟨(), raiseIf_eq_ok_iff.mpr (by omega), ?_⟩
  rw [Int.toNat_natCast, hp.scales]
  rfl

theorem Storable.readZeros_ok :
    readZeros (doc.manifestPayload sha256 p) doc.scheme p.zeros = .ok doc.zeros := by
  apply bind_ok_iff.mpr
  refine ⟨(doc.zeros.length : Int), rfl, ?_⟩
  rcases hsymmetric : doc.scheme.symmetric
  · obtain ⟨hlength, hzeros⟩ := hp.asymmetric hsymmetric
    rw [Int.toNat_natCast, hzeros]
    apply bind_ok_iff.mpr
    exact ⟨(), raiseIf_eq_ok_iff.mpr (by omega), rfl⟩
  · rw [h.symmetric hsymmetric]
    rfl

omit h in
theorem Holds.checkCanonicalHash_ok :
    checkCanonicalHash sha256 (doc.manifestPayload sha256 p)
      { doc with variantPayloads := .empty } = .ok () := by
  have hhash : canonicalHash { doc with variantPayloads := .empty } sha256 =
      .ok (doc.hashOf sha256 p) := by
    show (doc.planes >>= fun p => _) = _
    rw [hp.planes_eq]
    rfl
  rw [checkCanonicalHash, hhash]
  exact if_neg (not_digestDiffers (doc.hashOf sha256 p))

end Checks

/-! ### The round trip -/

def savedDirectory (sha256 : List Byte → String) (doc : QuantArtifactDocument) (p : Planes) :
    Directory where
  manifest := .json (.obj (doc.manifestPayload sha256 p))
  files := doc.payloadFiles p

section Load

variable {doc : QuantArtifactDocument} (sha256 : List Byte → String) {p : Planes} {fs : FileSystem}
  {path : String}

theorem Holds.save_eq (hp : Holds doc p) (habsent : fs.get? path = none) :
    doc.save sha256 fs path = .ok (fs.set path (savedDirectory sha256 doc p)) := by
  rw [save, hp.planes_eq]
  show ((raiseIf _ _).bind _ : Except _ _) = _
  rw [habsent]
  rfl

theorem loadManifest_saved : loadManifest (fs.set path (savedDirectory sha256 doc p)) path =
      .ok (savedDirectory sha256 doc p, doc.manifestPayload sha256 p) := by
  rw [loadManifest, OrderedDict.get?_set, if_pos rfl]
  rfl

theorem save_ne_ok {directory : Directory} (hexists : fs.get? path = some directory)
    (saved : FileSystem) : doc.save sha256 fs path ≠ .ok saved := by
  intro hsave
  obtain ⟨p, -, hrest⟩ := bind_ok_iff.mp hsave
  obtain ⟨_, hraise, -⟩ := bind_ok_iff.mp hrest
  exact raiseIf_eq_ok_iff.mp hraise (hexists ▸ rfl)

/-- Every check of the loader passes. -/
theorem Storable.loadDocument_saved (h : Storable doc) (hp : Holds doc p) :
    loadDocument sha256 (fs.set path (savedDirectory sha256 doc p)) path = .ok doc := by
  have hplanes : readPlanes sha256 (doc.manifestPayload sha256 p) (savedDirectory sha256 doc p) =
      .ok p := h.readPlanes_manifest sha256 hp rfl
  have hdocument := readDocument_manifest doc sha256 p
  have hhash := hp.checkCanonicalHash_ok sha256
  have hblank : { doc with variantPayloads := .empty } = doc := by
    rw [← h.payloads]
  rw [hblank] at hdocument hhash
  simp only [loadDocument, loadManifest_saved,
    readTensor_manifest, readScheme_manifest, checkSchemeHash_manifest, hplanes,
    h.readValues_ok sha256 hp, hp.readScales_ok, h.readZeros_ok sha256 hp,
    h.checkScales_ok, hdocument, hhash, bind, Except.bind,
    Except.mapError, h.variants]
  rw [h.checkUnits_ok]
  rfl

/-- **What is saved is loaded.** -/
theorem Storable.load_save (h : Storable doc) (habsent : fs.get? path = none) :
    ∃ saved, doc.save sha256 fs path = .ok saved ∧ loadDocument sha256 saved path = .ok doc := by
  obtain ⟨p, hp⟩ := h.holds
  exact ⟨_, hp.save_eq sha256 habsent, h.loadDocument_saved sha256 hp⟩

end Load

end Hqsb
