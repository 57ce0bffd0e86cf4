/-
Hqsb/Quant/ArtifactKept.lean

An artifact keeps the tensor it was made of.

A tensor that was quantised along the axis of its scheme, or as a whole, gives a storable
document (`Produced.storable`), and decoding that document along the axis of the scheme gives
the values that the quantiser decoded (`Produced.quantizedWeightValues_eq`).  The axis argument
of the quantiser is not stored: a document of a tensor that was quantised along another axis is
decoded along that of the scheme.  An empty tensor makes no document.
-/
import Hqsb.Quant.ArtifactRoundTrip

namespace Hqsb

open Lib Lib.AxisUnits QuantArtifactDocument List

def OwnAxis (qt : QuantizedTensor) : Prop :=
  qt.scheme.granularity = .perTensor ∨ normalizeAxis qt.scheme.axis qt.shape.length = .ok qt.axis

/-! ### The axis -/

theorem normalizeAxis_eq {asked : Int} {rank axis : Nat} (h : normalizeAxis asked rank = .ok axis) :
    (if asked < 0 then asked + rank else asked) = axis ∧ axis < rank := by
  simp only [normalizeAxis] at h
  split_ifs at h ⊢
  all_goals
    cases h
    omega

theorem unitOfIndex_congr {shape : List Nat} {asked : Int} {axis : Nat}
    (h : normalizeAxis asked shape.length = .ok axis) (index units : Nat)
    (groupSize : Option Nat) :
    unitOfIndex index shape asked units groupSize =
      unitOfIndex index shape axis units groupSize := by
  obtain ⟨hnormal, hlt⟩ := normalizeAxis_eq h
  have hnormal' : (if (axis : Int) < 0 then (axis : Int) + shape.length else axis) = axis :=
    if_neg (Int.natCast_nonneg axis).not_gt
  have hinside : ¬ ¬ (0 ≤ (axis : Int) ∧ (axis : Int) < shape.length) :=
    not_not.mpr ⟨Int.natCast_nonneg axis, Int.ofNat_lt.mpr hlt⟩
  rw [unitOfIndex, unitOfIndex, hnormal, hnormal', if_neg hinside, if_neg hinside]

theorem dequantizeFlat_congr {scheme : QuantScheme} {shape : List Nat} {asked : Int} {axis : Nat}
    (h : scheme.granularity = .perTensor ∨ normalizeAxis asked shape.length = .ok axis)
    (q : List Int) (scales : List (Option ℚ)) (zeros : List Int) (units : Nat)
    (groupSize : Option Nat) :
    dequantizeFlat q scales zeros shape units scheme groupSize (some asked) =
      dequantizeFlat q scales zeros shape units scheme groupSize (some axis) := by
  have hunit : unitFor scheme shape asked units (groupSize.or scheme.groupSize) =
      unitFor scheme shape axis units (groupSize.or scheme.groupSize) := by
    funext index
    rw [unitFor, unitFor]
    rcases h with hwhole | haxis
    · rw [if_pos hwhole, if_pos hwhole]
    · rw [unitOfIndex_congr haxis]
  simp only [dequantizeFlat, Option.getD_some, hunit]

/-! ### The document of a tensor -/

structure DocumentOf (qt : QuantizedTensor) (doc : QuantArtifactDocument) : Prop where
  scheme_eq : doc.scheme = qt.scheme
  shape_eq : doc.tensor.shape = qt.shape
  values_eq : doc.values = qt.q
  scales_eq : doc.scales = qt.scales
  zeros_eq : doc.zeros = qt.zeros
  unitsPerRow_eq : doc.unitsPerRow = qt.unitsPerRow
  variants_eq : doc.variants = []
  payloads_eq : doc.variantPayloads = .empty

theorem fromQuantized_ok {qt : QuantizedTensor} (hq : qt.q ≠ [])
    (hbits : qt.scheme.bits = 4 ∨ qt.scheme.bits = 8) (o : ArtifactOptions) :
    ∃ doc, fromQuantized qt o = .ok doc ∧ DocumentOf qt doc := by
  obtain ⟨version, hversion⟩ : ∃ version,
      Hqsb.canonicalPackVersion qt.scheme.bits = .ok version := by
    rcases hbits with hfour | height
    · exact ⟨_, by rw [hfour]; rfl⟩
    · exact ⟨_, by rw [height]; rfl⟩
  rw [fromQuantized, if_neg hq, hversion]
  exact ⟨_, rfl, rfl, rfl, rfl, rfl, rfl, rfl, rfl, rfl⟩

section Document

variable {values : List (Option ℚ)} {scheme : QuantScheme} {askedAxis : Option Int}
  {qt : QuantizedTensor} (h : Produced values scheme askedAxis qt)

include h

theorem Produced.fromQuantized_nil (hvalues : values = []) (o : ArtifactOptions) :
    fromQuantized qt o = .error .emptyTensor := by
  have hq : qt.q = [] := length_eq_zero_iff.mp (by rw [h.length_q, hvalues]; rfl)
  rw [fromQuantized, if_pos hq]

variable (hne : values ≠ [])

include hne

theorem Produced.q_ne_nil : qt.q ≠ [] := by
  intro hq
  have hlength := h.length_q
  rw [hq] at hlength
  exact hne (length_eq_zero_iff.mp hlength.symm)

theorem Produced.pos : ∀ dim ∈ qt.shape, 0 < dim := by
  intro dim hdim
  apply pos_of_ne_zero
  rintro rfl
  have hprod := h.prod_shape
  rw [prod_eq_zero hdim] at hprod
  exact hne (length_eq_zero_iff.mp hprod.symm)

theorem Produced.scales_ne_nil : qt.scales ≠ [] := by
  have haxis := lt_of_normalizeAxis h.axis_ok
  have hprod : 0 < qt.shape.prod := prod_pos (h.pos hne)
  have hunit := unitIndex_lt scheme (h.pos hne) haxis hprod
  rw [← h.length_scales hne] at hunit
  exact ne_nil_of_length_pos (Nat.zero_lt_of_lt hunit)

/-- The loader expects as many scales as there are units. -/
theorem Produced.expectedUnits_scales (hgroups : scheme.granularity ≠ .perTensor)
    (haxis : normalizeAxis scheme.axis qt.shape.length = .ok qt.axis) :
    expectedUnits scheme qt.shape qt.unitsPerRow qt.scales.length := by
  obtain ⟨hnormal, hlt⟩ := normalizeAxis_eq haxis
  have hdim : 0 < dimOf qt.shape qt.axis := dimOf_pos (h.pos hne) hlt
  have hrows : qt.shape.prod / max 1 (dimOf qt.shape qt.axis) =
      outerOf qt.shape qt.axis * strideOf qt.shape qt.axis := by
    rw [max_eq_right hdim, prod_eq hlt, mul_right_comm, Nat.mul_div_cancel _ hdim]
  rw [expectedUnits]
  rw [hnormal]
  refine ⟨⟨Int.natCast_nonneg _, Int.ofNat_lt.mpr hlt⟩, ?_⟩
  rw [h.length_scales hne, h.unitsPerRow_eq hne, if_neg hgroups, unitTotal,
    if_neg hgroups]
  show _ = qt.shape.prod / max 1 (dimOf qt.shape qt.axis) * _
  rw [hrows]

/-- **The document of a tensor** can be stored if its scales are counted along the axis of the
scheme. -/
theorem Produced.storable (hscales : ∀ s ∈ qt.scales, ∃ x, s = some x ∧ binary32.Representable x)
    (hunits : scheme.granularity ≠ .perTensor →
      expectedUnits scheme qt.shape qt.unitsPerRow qt.scales.length)
    {doc : QuantArtifactDocument} (hdoc : DocumentOf qt doc) : Storable doc where
  variants := hdoc.variants_eq
  payloads := hdoc.payloads_eq
  count := by rw [hdoc.shape_eq, hdoc.values_eq, h.prod_shape, h.length_q]
  codes := by
    rw [hdoc.values_eq, hdoc.scheme_eq, h.scheme_eq]
    exact h.codes
  scales := by
    rw [hdoc.scales_eq]
    intro s hs
    obtain ⟨x, rfl, hx⟩ := hscales s hs
    exact ⟨x, rfl, h.scales x hs, hx⟩
  symmetric := by
    rw [hdoc.scheme_eq, h.scheme_eq, hdoc.zeros_eq]
    intro hsymmetric
    have hlength := h.length_zeros
    rw [if_pos hsymmetric] at hlength
    exact length_eq_zero_iff.mp hlength
  asymmetric := by
    rw [hdoc.scheme_eq, h.scheme_eq, hdoc.zeros_eq]
    intro hsymmetric
    have hlength := h.length_zeros
    have hpos := length_pos_of_ne_nil (h.scales_ne_nil hne)
    rw [if_neg (Bool.eq_false_iff.mp hsymmetric)] at hlength
    exact ne_nil_of_length_pos (hlength ▸ hpos)
  zeros := by
    rw [hdoc.zeros_eq, hdoc.scheme_eq, h.scheme_eq]
    exact h.zeros
  units := by
    rw [hdoc.scheme_eq, hdoc.shape_eq, hdoc.unitsPerRow_eq, hdoc.scales_eq, h.scheme_eq]
    exact hunits

variable (hown : OwnAxis qt)

include hown

theorem Produced.expectedUnits_ownAxis (hgroups : scheme.granularity ≠ .perTensor) :
    expectedUnits scheme qt.shape qt.unitsPerRow qt.scales.length := by
  rw [OwnAxis, h.scheme_eq] at hown
  exact h.expectedUnits_scales hne hgroups (hown.resolve_left hgroups)

omit hne in
/-- **Decoding the document** gives what the quantiser decoded. -/
theorem Produced.quantizedWeightValues_eq {doc : QuantArtifactDocument}
    (hdoc : DocumentOf qt doc) : quantizedWeightValues doc = .ok qt.valuesDequant := by
  have hrank : qt.shape ≠ [] :=
    ne_nil_of_length_pos (Nat.zero_lt_of_lt (lt_of_normalizeAxis h.axis_ok))
  have hshape : ∃ matrix, weightMatrixShape qt.shape = .ok matrix := by
    rw [weightMatrixShape.eq_def]
    rcases hreverse : qt.shape.reverse with - | ⟨cols, rows⟩
    · exact absurd (reverse_eq_nil_iff.mp hreverse) hrank
    · exact ⟨_, rfl⟩
  obtain ⟨matrix, hmatrix⟩ := hshape
  have hdecoded := h.decoded
  rw [← h.scheme_eq, ← dequantizeFlat_congr hown] at hdecoded
  rw [quantizedWeightValues, hdoc.shape_eq, hdoc.values_eq, hdoc.scales_eq, hdoc.zeros_eq,
    hdoc.unitsPerRow_eq, hdoc.scheme_eq, hmatrix, hdecoded]
  rfl

end Document

/-! ### Artifacts -/

/-- **An artifact keeps its tensor.**  A tensor that is not empty, that was quantised along the
axis of its scheme or as a whole and whose scales are numbers of the stored format is saved
wherever there is nothing yet; it is loaded as it was saved, and decoded to the same values. -/
theorem artifact_keeps_tensor (sha256 : List Byte → String) {values : List (Option ℚ)}
    {scheme : QuantScheme} {given : Option (List Nat)} {askedAxis : Option Int}
    {qt : QuantizedTensor} (hqt : quantize values scheme given askedAxis = .ok qt)
    (hbits : scheme.bits = 4 ∨ scheme.bits = 8) (hne : values ≠ []) (hown : OwnAxis qt)
    (hscales : ∀ s ∈ qt.scales, ∃ x, s = some x ∧ binary32.Representable x)
    (o : ArtifactOptions) {fs : FileSystem} {path : String} (habsent : fs.get? path = none) :
    ∃ doc saved loaded, fromQuantized qt o = .ok doc ∧ doc.save sha256 fs path = .ok saved ∧
      loadDocument sha256 saved path = .ok loaded ∧ loaded = doc ∧
      quantizedWeightValues loaded = .ok qt.valuesDequant := by
  have h := produced_of_quantize hqt
  rw [← h.scheme_eq] at hbits
  obtain ⟨doc, hdoc, hof⟩ := fromQuantized_ok (h.q_ne_nil hne) hbits o
  obtain ⟨saved, hsaved, hloaded⟩ :=
    (h.storable hne hscales (h.expectedUnits_ownAxis hne hown) hof).load_save sha256 habsent
  exact ⟨doc, saved, doc, hdoc, hsaved, hloaded, rfl, h.quantizedWeightValues_eq hown hof⟩

/-- Eight bits, with a scale for every index along the last axis. -/
def lastAxisScheme : QuantScheme where
  valid := SchemeFields.valid_defaults

theorem artifact_keeps_rows : ∃ qt doc saved loaded,
    quantize [some 127, some (-254), some 508, some 254] lastAxisScheme (some [2, 2]) none =
      .ok qt ∧
    fromQuantized qt { tensorName := "w" } = .ok doc ∧
    doc.save (fun _ => "") .empty "artifact" = .ok saved ∧
    loadDocument (fun _ => "") saved "artifact" = .ok loaded ∧ loaded = doc ∧
    quantizedWeightValues loaded = .ok qt.valuesDequant := by
  have hrun : (quantize [some 127, some (-254), some 508, some 254] lastAxisScheme (some [2, 2])
      none).map (fun qt => (qt.scheme.axis, qt.shape, qt.axis, qt.scales)) =
        .ok (-1, [2, 2], 1, [some 2, some 4]) := by
    decide +kernel
  obtain ⟨qt, hqt, hparts⟩ := exists_of_map_eq_ok hrun
  simp only [Prod.mk.injEq] at hparts
  obtain ⟨haxis, hshape, hown, hscales⟩ := hparts
  have htwo : binary32.decode 0x40000000 = some 2 := by decide +kernel
  have hfour : binary32.decode 0x40800000 = some 4 := by decide +kernel
  have hstored : ∀ s ∈ qt.scales, ∃ x, s = some x ∧ binary32.Representable x := by
    rw [hscales]
    intro s hs
    fin_cases hs
    · exact ⟨2, rfl, _, htwo⟩
    · exact ⟨4, rfl, _, hfour⟩
  have hsame : OwnAxis qt := .inr (by rw [haxis, hshape, hown]; rfl)
  have habsent : OrderedDict.empty.get? "artifact" = (none : Option Directory) := rfl
  obtain ⟨doc, saved, loaded, h⟩ := artifact_keeps_tensor (fun _ => "") hqt (.inr rfl)
    (cons_ne_nil _ _) hsame hstored { tensorName := "w" } habsent
  exact ⟨qt, doc, saved, loaded, hqt, h⟩

/-- An empty tensor makes no artifact, nothing is saved where there is a directory, and a tensor
that was quantised along its first axis is decoded along its last one. -/
theorem artifact_loses_tensor :
    (∃ qt, quantize [] lastAxisScheme none none = .ok qt ∧ qt.scales = [] ∧
      fromQuantized qt { tensorName := "w" } = .error .emptyTensor) ∧
    (∃ qt doc, quantize [some 127] lastAxisScheme none none = .ok qt ∧
      fromQuantized qt { tensorName := "w" } = .ok doc ∧
      ∀ saved, doc.save (fun _ => "") (OrderedDict.empty.set "artifact" {}) "artifact" ≠
        .ok saved) ∧
    ∃ qt doc saved, quantize [some 127, some 254, some 254, some 508] lastAxisScheme
        (some [2, 2]) (some 0) = .ok qt ∧
      fromQuantized qt { tensorName := "w" } = .ok doc ∧
      doc.save (fun _ => "") .empty "artifact" = .ok saved ∧
      loadDocument (fun _ => "") saved "artifact" = .ok doc ∧
      quantizedWeightValues doc ≠ .ok qt.valuesDequant := by
  refine ⟨?_, ?_, ?_⟩
  · have hrun : (quantize [] lastAxisScheme none none).map (·.scales) = .ok [] := by
      decide +kernel
    obtain ⟨qt, hqt, hscales⟩ := exists_of_map_eq_ok hrun
    exact ⟨qt, hqt, hscales, (produced_of_quantize hqt).fromQuantized_nil rfl _⟩
  · have hrun : (quantize [some 127] lastAxisScheme none none).map (·.q) = .ok [127] := by
      decide +kernel
    obtain ⟨qt, hqt, -⟩ := exists_of_map_eq_ok hrun
    have h := produced_of_quantize hqt
    obtain ⟨doc, hdoc, -⟩ := fromQuantized_ok (h.q_ne_nil (cons_ne_nil _ _))
      (.inr (by rw [h.scheme_eq]; rfl)) { tensorName := "w" }
    have hexists : (OrderedDict.empty.set "artifact" {}).get? "artifact" =
        some ({} : Directory) := rfl
    exact ⟨qt, doc, hqt, hdoc, fun saved => save_ne_ok _ hexists saved⟩
  · have hrun : (quantize [some 127, some 254, some 254, some 508] lastAxisScheme (some [2, 2])
        (some 0)).map (fun qt => (qt.shape, qt.unitsPerRow, qt.q, qt.zeros)) =
        .ok ([2, 2], 1, [64, 64, 127, 127], []) := by
      decide +kernel
    have hrun' : (quantize [some 127, some 254, some 254, some 508] lastAxisScheme (some [2, 2])
        (some 0)).map (fun qt => (qt.scales, qt.valuesDequant)) =
        .ok ([some 2, some 4], [some 128, some 256, some 254, some 508]) := by
      decide +kernel
    obtain ⟨qt, hqt, hparts⟩ := exists_of_map_eq_ok hrun
    obtain ⟨_, hqt', hparts'⟩ := exists_of_map_eq_ok hrun'
    cases hqt.symm.trans hqt'
    simp only [Prod.mk.injEq] at hparts hparts'
    obtain ⟨hshape, hunits, hq, hzeros⟩ := hparts
    obtain ⟨hscales, hvalues⟩ := hparts'
    have h := produced_of_quantize hqt
    obtain ⟨doc, hdoc, hof⟩ := fromQuantized_ok (h.q_ne_nil (cons_ne_nil _ _))
      (.inr (by rw [h.scheme_eq]; rfl)) { tensorName := "w" }
    have htwo : binary32.decode 0x40000000 = some 2 := by decide +kernel
    have hfour : binary32.decode 0x40800000 = some 4 := by decide +kernel
    have hstored : ∀ s ∈ qt.scales, ∃ x, s = some x ∧ binary32.Representable x := by
      rw [hscales]
      intro s hs
      rcases mem_pair.mp hs with rfl | rfl
      · exact ⟨2, rfl, _, htwo⟩
      · exact ⟨4, rfl, _, hfour⟩
    -- both axes have two units
    have hcounted : expectedUnits lastAxisScheme qt.shape qt.unitsPerRow qt.scales.length := by
      rw [hshape, hscales, hunits]
      exact ⟨by decide, by decide⟩
    have hstorable := h.storable (cons_ne_nil _ _) hstored (fun _ => hcounted) hof
    have habsent : OrderedDict.empty.get? "artifact" = (none : Option Directory) := rfl
    obtain ⟨saved, hsaved, hloaded⟩ := hstorable.load_save (fun _ => "") habsent
    have hdecoded : dequantizeFlat [64, 64, 127, 127] [some 2, some 4] [] [2, 2] 1
        lastAxisScheme lastAxisScheme.groupSize (some lastAxisScheme.axis) =
        .ok [some 128, some 128, some 508, some 508] := by
      decide +kernel
    refine ⟨qt, doc, saved, hqt, hdoc, hsaved, hloaded, ?_⟩
    rw [quantizedWeightValues, hof.shape_eq, hof.values_eq, hof.scales_eq, hof.zeros_eq,
      hof.unitsPerRow_eq, hof.scheme_eq, h.scheme_eq, hshape, hq, hscales, hzeros, hunits, hvalues]
    rw [hdecoded]
    intro hsame
    exact absurd (Except.ok.inj hsame) (by decide)

end Hqsb
