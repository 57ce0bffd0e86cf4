/-
Hqsb/Quant/ErrorBound.lean

The error of the quantiser, and what it raises.

A symmetric scheme of two or more bits never refuses a unit of finite values and never clamps
one: its scale is the largest magnitude over the full-scale code.  So every value comes back
to within half the scale of its unit, whatever the shape, the axis and the groups are.

For any scheme, a call that passes the checks of its shape and its axis fails at a unit only, and
of the errors of a unit only the refused constant group is a documented one: at one symmetric bit
a magnitude divides by zero.  Where nothing is clamped, the values of a unit with a span or a
magnitude keep to the documented bound.  A constant asymmetric group is coded as zeros at a scale
that has nothing to do with its value, and no clamp is counted: there the bound holds only if some
step happens to be large enough.
-/
import Hqsb.Quant.QuantizeRun

namespace Hqsb

open Lib List

section

variable {scheme : QuantScheme} {shape : List Nat} {axis : Nat} {values : List ℚ}

theorem not_unscalable_of_bits (hbits : 2 ≤ scheme.bits) (group : List ℚ) :
    ¬ Unscalable scheme group := by
  rintro ⟨-, hone, -⟩
  omega

theorem encodable_of_symmetric (hsymmetric : scheme.symmetric) (hbits : 2 ≤ scheme.bits) :
    Encodable scheme shape axis values := by
  intro unit _
  refine ⟨not_unscalable_of_bits hbits _, fun hrefused => ?_⟩
  exact Bool.false_ne_true (hrefused.1.symm.trans hsymmetric)

/-- Rounding the scaled value gives the code, also where a unit is all zeros. -/
theorem codeOf_of_symmetric (hsymmetric : scheme.symmetric) {group : List ℚ}
    (h : ¬ Unscalable scheme group) {v : ℚ} (hv : v ∈ group) :
    (codeOf scheme group v).1 = scheme.roundMode.rounder (v / stepOf scheme group) := by
  by_cases hflat : Flat scheme group
  · have hzero : v = 0 :=
      magnitude_eq_zero_iff.mp ((flat_of_symmetric hsymmetric).mp hflat) v hv
    have hnearest := RoundMode.isNearest scheme.legal.rtn ((0 : Int) : ℚ)
    rw [codeOf_of_flat hflat, hzero, zero_div]
    exact (hnearest.eq_of_intCast).symm
  · have hstep := stepOf_pos h (ne_nil_of_mem hv)
    have hcalm := not_saturates_of_symmetric hsymmetric h
    rcases codeOf_spec hstep hflat v with ⟨hcode, -⟩ | ⟨-, hout, -⟩
    · rw [hcode, rawCode, zeroPoint_of_symmetric hsymmetric, add_zero]
    · exact absurd ⟨hflat, v, hv, hout⟩ hcalm

theorem decodedOf_of_symmetric (hsymmetric : scheme.symmetric) (group : List ℚ) (v : ℚ) :
    decodedOf scheme group v = stepOf scheme group * (codeOf scheme group v).1 := by
  rw [decodedOf, zeroPoint_of_symmetric hsymmetric, sub_zero]

end

/-- **The error bound of the symmetric quantiser.**  The buckets of the encoder are exactly the
units of the indices and there is one scale to each; the code of an index is its value over
the scale of its unit, rounded, and is decoded with that scale; all codes are in range and
none was clamped; and decoding is off by at most half the scale. -/
theorem symmetric_error_bound (scheme : QuantScheme) (hsymmetric : scheme.symmetric)
    (hbits : 2 ≤ scheme.bits) (values : List ℚ) (given : Option (List Nat))
    (askedAxis : Option Int) (shape : List Nat) (axis : Nat)
    (hshape : resolveShape given values.length = .ok shape) (hpos : ∀ dim ∈ shape, 0 < dim)
    (haxisOk : normalizeAxis (askedAxis.getD scheme.axis) shape.length = .ok axis) :
    ∃ qt unitIndices decoded,
      quantize (values.map some) scheme given askedAxis = .ok qt ∧
      bucketUnits scheme values.length shape axis qt.unitsPerRow qt.groupSize =
        .ok unitIndices ∧
      dequantize qt = .ok decoded ∧
      (∀ unit, unit ∈ unitIndices.keys ↔ unit < qt.scales.length) ∧
      (∀ unit < qt.scales.length, (unitIndices.get? unit).getD [] ≠ [] ∧
        ∀ index, index ∈ (unitIndices.get? unit).getD [] ↔
          index < values.length ∧ qt.unitOf index = .ok unit) ∧
      (∀ code ∈ qt.q, scheme.qmin ≤ code ∧ code ≤ scheme.qmax) ∧
      qt.stats.clampCount = 0 ∧
      ∀ index (hindex : index < values.length), ∃ unit scale code value,
        qt.unitOf index = .ok unit ∧
        qt.scales[unit]? = some (some scale) ∧
        qt.q[index]? = some code ∧ code = scheme.roundMode.rounder (values[index] / scale) ∧
        decoded[index]? = some (some value) ∧ value = scale * code ∧
        |values[index] - value| ≤ scale / 2 := by
  have hcount := prod_of_resolveShape hshape
  have haxis := lt_of_normalizeAxis haxisOk
  have hscalable : ∀ group, ¬ Unscalable scheme group := not_unscalable_of_bits hbits
  obtain ⟨qt, hqt, hquantised⟩ :=
    (quantize_eq hshape haxisOk hpos).1 (encodable_of_symmetric hsymmetric hbits)
  obtain ⟨unitIndices, hunits, hkeys, hbuckets⟩ := bucketUnits_eq scheme hpos haxis
  rw [hcount] at hunits hbuckets
  have hscales := hquantised.length_scales
  refine ⟨qt, unitIndices, qt.valuesDequant, hqt, ?_,
    hquantised.dequantize_eq hpos haxis hcount, ?_, ?_, ?_, ?_, ?_⟩
  · rw [hquantised.unitsPerRow_eq, hquantised.groupSize_eq]
    exact hunits
  · intro unit
    rw [hscales, ← mem_range, ← hkeys, mem_insertionSort]
  · intro unit hunit
    rw [hscales] at hunit
    rw [hbuckets unit hunit]
    refine ⟨?_, fun index => hquantised.mem_membersOf_iff hpos haxis⟩
    have hgroup : groupOf scheme shape axis values unit ≠ [] :=
      groupOf_ne_nil hpos haxis hcount hunit
    exact fun hnil => hgroup (map_eq_nil_iff.mpr hnil)
  · intro code hcode
    rw [hquantised.q_eq] at hcode
    obtain ⟨index, hindex, rfl⟩ := mem_map.mp hcode
    have hown := mem_ownGroup scheme shape axis (mem_range.mp hindex)
    exact codeOf_in_range (hscalable _) (ne_nil_of_mem hown) _
  · rw [hquantised.clampCount_eq, sum_eq_zero_iff]
    intro clamps hclamps
    obtain ⟨unit, hunit, rfl⟩ := mem_map.mp hclamps
    apply (clamps_eq_zero_iff (hscalable _)
      (groupOf_ne_nil hpos haxis hcount (mem_range.mp hunit))).mpr
    exact not_saturates_of_symmetric hsymmetric (hscalable _)
  · intro index hindex
    have hget : values.getD index 0 = values[index] := getD_eq_getElem _ _ hindex
    have hown := mem_ownGroup scheme shape axis hindex
    have hunit := unitIndex_lt scheme hpos haxis (hcount ▸ hindex)
    rw [← hget]
    refine ⟨_, _, _, _, hquantised.unitOf_eq hpos haxis hindex, hquantised.getElem?_scales hunit,
      hquantised.getElem?_q hindex, codeOf_of_symmetric hsymmetric (hscalable _) hown,
      hquantised.getElem?_valuesDequant hindex, decodedOf_of_symmetric hsymmetric _ _, ?_⟩
    exact abs_sub_decodedOf_le_of_symmetric hsymmetric (hscalable _) hown

/-- A matrix of two rows, in groups of three along its first axis. -/
def pairScheme : QuantScheme where
  bits := 4
  granularity := .perGroup
  groupSize := some 3
  axis := 0
  valid := by decide +kernel

theorem symmetric_error_bound_pair :
    (∀ dim ∈ [2, 2], 0 < dim) ∧
      ∃ qt, quantize ([1, -7, 1 / 2, 3].map some) pairScheme (some [2, 2]) none = .ok qt ∧
        qt.stats.clampCount = 0 := by
  refine ⟨by decide, ?_⟩
  obtain ⟨qt, -, -, hqt, -, -, -, -, -, hclamps, -⟩ :=
    symmetric_error_bound pairScheme rfl (by decide) [1, -7, 1 / 2, 3] (some [2, 2]) none [2, 2] 0
      rfl (by decide) rfl
  exact ⟨qt, hqt, hclamps⟩

/-- **Total and honest.**  The call raises documented refusals only, and if it counts no clamped
value, then no value is farther from its reconstruction than the reported bound. -/
def HonestTotal (scheme : QuantScheme) (values : List ℚ) (given : Option (List Nat))
    (askedAxis : Option Int) : Prop :=
  (∀ e, quantize (values.map some) scheme given askedAxis = .error e → e.isConfig) ∧
  ∀ qt, quantize (values.map some) scheme given askedAxis = .ok qt → qt.stats.clampCount = 0 →
    ∃ bound, clampFreeErrorBound qt = some bound ∧
      ∀ index (hindex : index < values.length), ∃ value,
        qt.valuesDequant[index]? = some (some value) ∧ |values[index] - value| ≤ bound

section Condition

variable (scheme : QuantScheme) (shape : List Nat) (axis : Nat) (values : List ℚ)

/-- A constant unit that is coded as zeros is no farther from zero than half some step. -/
def FlatUnitsSmall : Prop :=
  ∀ unit < unitTotal scheme shape axis, Flat scheme (groupOf scheme shape axis values unit) →
    ∀ v ∈ groupOf scheme shape axis values unit, ∃ other < unitTotal scheme shape axis,
      |v| ≤ stepOf scheme (groupOf scheme shape axis values other) / 2

/-- No magnitude at one symmetric bit, and constant asymmetric units refused or small, unless
some value saturates. -/
def HonestInput : Prop :=
  (scheme.symmetric → scheme.bits = 1 → ∀ v ∈ values, v = 0) ∧
  (scheme.symmetric = false → scheme.constantGroupPolicy = .encodeZeroCode →
    (∃ unit < unitTotal scheme shape axis,
        Saturates scheme (groupOf scheme shape axis values unit)) ∨
      FlatUnitsSmall scheme shape axis values)

end Condition

section

variable {scheme : QuantScheme} {shape : List Nat} {axis : Nat} {values : List ℚ}
  {qt : QuantizedTensor} (hpos : ∀ dim ∈ shape, 0 < dim) (haxis : axis < shape.length)
  (hcount : shape.prod = values.length)

include hpos haxis hcount

omit hcount in
theorem exists_bound (h : Quantised scheme shape axis values qt) :
    ∃ bound, clampFreeErrorBound qt = some bound ∧
      (∀ unit < unitTotal scheme shape axis,
        stepOf scheme (groupOf scheme shape axis values unit) / 2 ≤ bound) ∧
      ∃ unit < unitTotal scheme shape axis,
        bound = stepOf scheme (groupOf scheme shape axis values unit) / 2 := by
  have hone : 0 < unitTotal scheme shape axis :=
    (Nat.zero_le _).trans_lt (unitIndex_lt scheme hpos haxis (prod_pos hpos))
  have hscales : qt.scales = ((List.range (unitTotal scheme shape axis)).map fun unit =>
      stepOf scheme (groupOf scheme shape axis values unit)).map some := by
    rw [h.scales_eq, map_map]
    rfl
  have hsteps : ((List.range (unitTotal scheme shape axis)).map fun unit =>
      stepOf scheme (groupOf scheme shape axis values unit)) ≠ [] := by
    rw [ne_eq, map_eq_nil_iff, range_eq_nil]
    exact hone.ne'
  rw [clampFreeErrorBound, hscales, if_neg (mt map_eq_nil_iff.mp hsteps),
    reduceOption_map_some, max?_eq_highest hsteps]
  refine ⟨_, rfl, fun unit hunit => ?_, ?_⟩
  · have hmem : stepOf scheme (groupOf scheme shape axis values unit) ∈
        (List.range (unitTotal scheme shape axis)).map fun unit =>
          stepOf scheme (groupOf scheme shape axis values unit) :=
      mem_map.mpr ⟨unit, mem_range.mpr hunit, rfl⟩
    exact div_le_div_of_nonneg_right (le_highest hmem) zero_le_two
  · obtain ⟨unit, hunit, heq⟩ := mem_map.mp
      (List.max?_eq_some_iff.mp (max?_eq_highest hsteps)).1
    exact ⟨unit, mem_range.mp hunit, by rw [heq]⟩

theorem clampCount_eq_zero_iff (h : Quantised scheme shape axis values qt)
    (hencodable : Encodable scheme shape axis values) :
    qt.stats.clampCount = 0 ↔ ∀ unit < unitTotal scheme shape axis,
      ¬ Saturates scheme (groupOf scheme shape axis values unit) := by
  rw [h.clampCount_eq, sum_eq_zero_iff, clampsOf, forall_mem_map]
  simp only [mem_range]
  refine forall₂_congr fun unit hunit => ?_
  exact clamps_eq_zero_iff (hencodable unit hunit).1 (groupOf_ne_nil hpos haxis hcount hunit)

/-- **The bound without clamping** is kept outside the constant units, and in these if they are
small. -/
theorem bound_iff (h : Quantised scheme shape axis values qt)
    (hencodable : Encodable scheme shape axis values)
    (hcalm : ∀ unit < unitTotal scheme shape axis,
      ¬ Saturates scheme (groupOf scheme shape axis values unit)) :
    (∃ bound, clampFreeErrorBound qt = some bound ∧
      ∀ index (hindex : index < values.length), ∃ value,
        qt.valuesDequant[index]? = some (some value) ∧ |values[index] - value| ≤ bound) ↔
      FlatUnitsSmall scheme shape axis values := by
  obtain ⟨bound, hbound, hupper, other, hother, hattained⟩ := exists_bound hpos haxis h
  constructor
  · rintro ⟨bound', hbound', hall⟩ unit hunit hflat v hv
    obtain rfl : bound' = bound := Option.some.inj (hbound'.symm.trans hbound)
    obtain ⟨index, hmember, rfl⟩ := mem_map.mp hv
    obtain ⟨hindex, hown⟩ := mem_membersOf.mp hmember
    obtain ⟨value, hvalue, hle⟩ := hall index hindex
    have hdecoded := h.getElem?_valuesDequant hindex
    cases Option.some.inj (hvalue.symm.trans hdecoded)
    -- a constant unit decodes to zero
    rw [decodedAt, ownGroup, hown, decodedOf_of_flat hflat, sub_zero] at hle
    refine ⟨other, hother, ?_⟩
    rw [← hattained, getD_eq_getElem _ _ hindex]
    exact hle
  · intro hsmall
    refine ⟨bound, hbound, fun index hindex => ⟨_, h.getElem?_valuesDequant hindex, ?_⟩⟩
    have hget : values.getD index 0 = values[index] := getD_eq_getElem _ _ hindex
    have hunit := unitIndex_lt scheme hpos haxis (hcount ▸ hindex)
    have hown := mem_ownGroup scheme shape axis hindex
    rw [← hget, decodedAt]
    by_cases hflat : Flat scheme (ownGroup scheme shape axis values index)
    · obtain ⟨unit, hlt, hle⟩ := hsmall _ hunit hflat _ hown
      rw [decodedOf_of_flat hflat, sub_zero]
      exact hle.trans (hupper unit hlt)
    · have hhalf := abs_sub_decodedOf_le (hencodable _ hunit).1 hflat (hcalm _ hunit) hown
      exact hhalf.trans (hupper _ hunit)

/-! ### Which units can be encoded -/

/-- At one symmetric bit nothing but zeros can be encoded. -/
theorem encodable_iff_of_symmetric (hsymmetric : scheme.symmetric) :
    Encodable scheme shape axis values ↔ (scheme.bits = 1 → ∀ v ∈ values, v = 0) := by
  have haccepted : ∀ group, ¬ Refused scheme group := fun _ h =>
    Bool.false_ne_true (h.1.symm.trans hsymmetric)
  constructor
  · intro h hone v hv
    obtain ⟨index, hindex, rfl⟩ := getElem_of_mem hv
    have hunit := unitIndex_lt scheme hpos haxis (hcount ▸ hindex)
    have hown := mem_ownGroup scheme shape axis hindex
    have hmagnitude : magnitude (ownGroup scheme shape axis values index) = 0 :=
      not_not.mp fun hne => (h _ hunit).1 ⟨hsymmetric, hone, hne⟩
    rw [getD_eq_getElem _ _ hindex] at hown
    exact magnitude_eq_zero_iff.mp hmagnitude _ hown
  · intro h unit _
    refine ⟨fun hunscalable => ?_, haccepted _⟩
    refine hunscalable.2.2 (magnitude_eq_zero_iff.mpr fun v hv => ?_)
    obtain ⟨index, hmember, rfl⟩ := mem_map.mp hv
    have hindex := (mem_membersOf.mp hmember).1
    rw [getD_eq_getElem _ _ hindex]
    exact h hunscalable.2.1 _ (getElem_mem hindex)

omit hpos haxis hcount in
theorem flatUnitsSmall_of_reject (hpolicy : scheme.constantGroupPolicy = .reject)
    (hsymmetric : scheme.symmetric = false) (h : Encodable scheme shape axis values) :
    FlatUnitsSmall scheme shape axis values := by
  intro unit hunit hflat
  exact absurd ⟨hsymmetric, hflat, hpolicy⟩ (h unit hunit).2

omit hpos haxis hcount in
theorem flatUnitsSmall_of_symmetric (hsymmetric : scheme.symmetric)
    (h : Encodable scheme shape axis values) : FlatUnitsSmall scheme shape axis values := by
  intro unit hunit hflat v hv
  have hzero : v = 0 :=
    magnitude_eq_zero_iff.mp ((flat_of_symmetric hsymmetric).mp hflat) v hv
  refine ⟨unit, hunit, ?_⟩
  rw [hzero]
  exact (half_pos (stepOf_pos (h unit hunit).1 (ne_nil_of_mem hv))).le

end

/-! ### The checks of a call -/

section Checks

variable {scheme : QuantScheme} {values : List ℚ} {given : Option (List Nat)}
  {askedAxis : Option Int}

theorem honestTotal_of_error {e : QuantError}
    (h : quantize (values.map some) scheme given askedAxis = .error e) :
    HonestTotal scheme values given askedAxis ↔ e.isConfig := by
  constructor
  · exact fun hhonest => hhonest.1 e h
  · intro hconfig
    refine ⟨fun e' he' => ?_, fun qt hqt => ?_⟩
    · obtain rfl : e = e' := Except.error.inj (h.symm.trans he')
      exact hconfig
    · rw [h] at hqt
      cases hqt

theorem honestTotal_of_refused (h : ∀ shape axis, resolveShape given values.length = .ok shape →
      normalizeAxis (askedAxis.getD scheme.axis) shape.length ≠ .ok axis) :
    HonestTotal scheme values given askedAxis := by
  have hlength : (values.map some).length = values.length := length_map _
  rcases hshape : resolveShape given values.length with e | shape
  · have hconfig : e.isConfig := by
      rw [resolveShape.eq_def] at hshape
      rcases given with - | given
      · cases hshape
      · simp only at hshape
        split_ifs at hshape
        cases hshape
        rfl
    refine (honestTotal_of_error (e := e) ?_).mpr hconfig
    rw [quantize, hlength, hshape]
    rfl
  · rcases haxis : normalizeAxis (askedAxis.getD scheme.axis) shape.length with e | axis
    · have hconfig : e.isConfig := by
        simp only [normalizeAxis] at haxis
        split_ifs at haxis
        all_goals
          cases haxis
          rfl
      refine (honestTotal_of_error (e := e) ?_).mpr hconfig
      rw [quantize, hlength, hshape]
      show (normalizeAxis _ _ >>= _) = _
      rw [haxis]
      rfl
    · exact absurd haxis (h shape axis hshape)

/-- A call that passes the checks. -/
theorem honestTotal_iff_honestInput {shape : List Nat} {axis : Nat}
    (hshape : resolveShape given values.length = .ok shape)
    (haxisOk : normalizeAxis (askedAxis.getD scheme.axis) shape.length = .ok axis)
    (hpos : ∀ dim ∈ shape, 0 < dim) :
    HonestTotal scheme values given askedAxis ↔ HonestInput scheme shape axis values := by
  have hcount := prod_of_resolveShape hshape
  have haxis := lt_of_normalizeAxis haxisOk
  obtain ⟨hok, herror⟩ := quantize_eq hshape haxisOk hpos
  by_cases hencodable : Encodable scheme shape axis values
  · obtain ⟨qt, hqt, hquantised⟩ := hok hencodable
    -- an encoded call is honest unless it is calm and has a large constant unit
    have hhonest : HonestTotal scheme values given askedAxis ↔
        ((∀ unit < unitTotal scheme shape axis,
            ¬ Saturates scheme (groupOf scheme shape axis values unit)) →
          FlatUnitsSmall scheme shape axis values) := by
      rw [← clampCount_eq_zero_iff hpos haxis hcount hquantised hencodable]
      constructor
      · intro h hcalm
        exact (bound_iff hpos haxis hcount hquantised hencodable
          ((clampCount_eq_zero_iff hpos haxis hcount hquantised hencodable).mp hcalm)).mp
            (h.2 qt hqt hcalm)
      · intro h
        refine ⟨fun e he => ?_, fun qt' hqt' hcalm => ?_⟩
        · rw [hqt] at he
          cases he
        · obtain rfl : qt = qt' := Except.ok.inj (hqt.symm.trans hqt')
          exact (bound_iff hpos haxis hcount hquantised hencodable
            ((clampCount_eq_zero_iff hpos haxis hcount hquantised hencodable).mp hcalm)).mpr
              (h hcalm)
    rw [hhonest, HonestInput]
    rcases hsymmetric : scheme.symmetric
    · rcases hpolicy : scheme.constantGroupPolicy
      · constructor
        · intro h
          refine ⟨fun hfalse => (by cases hfalse), fun _ _ => ?_⟩
          by_cases hcalm : ∃ unit < unitTotal scheme shape axis,
              Saturates scheme (groupOf scheme shape axis values unit)
          · exact .inl hcalm
          · exact .inr (h fun unit hunit hsat => hcalm ⟨unit, hunit, hsat⟩)
        · rintro ⟨-, h⟩ hcalm
          rcases h rfl rfl with ⟨unit, hunit, hsat⟩ | hsmall
          · exact absurd hsat (hcalm unit hunit)
          · exact hsmall
      · refine ⟨fun _ => ⟨fun hfalse => (by cases hfalse), fun _ hfalse => (by cases hfalse)⟩, ?_⟩
        exact fun _ _ => flatUnitsSmall_of_reject hpolicy hsymmetric hencodable
    · refine ⟨fun _ => ⟨fun _ => ?_, fun hfalse => (by cases hfalse)⟩, ?_⟩
      · exact (encodable_iff_of_symmetric hpos haxis hcount hsymmetric).mp hencodable
      · exact fun _ _ => flatUnitsSmall_of_symmetric hsymmetric hencodable
  · obtain ⟨unit, -, ⟨he, hunscalable⟩ | ⟨he, hrefused⟩⟩ := herror hencodable
    · rw [honestTotal_of_error he]
      refine ⟨fun hfalse => (by cases hfalse), fun h => ?_⟩
      refine absurd ?_ hencodable
      exact (encodable_iff_of_symmetric hpos haxis hcount hunscalable.1).mpr (h.1 hunscalable.1)
    · rw [honestTotal_of_error he]
      obtain ⟨hsymmetric, -, hpolicy⟩ := hrefused
      refine ⟨fun _ => ⟨fun h => ?_, fun _ h => ?_⟩, fun _ => rfl⟩
      · cases hsymmetric.symm.trans h
      · rw [hpolicy] at h
        cases h

end Checks

/-- **Exactly when the quantiser is total and its bound honest.** -/
theorem quantize_honest_iff (scheme : QuantScheme) (values : List ℚ) (given : Option (List Nat))
    (askedAxis : Option Int)
    (hpos : ∀ shape, resolveShape given values.length = .ok shape → ∀ dim ∈ shape, 0 < dim) :
    HonestTotal scheme values given askedAxis ↔
      ∀ shape axis, resolveShape given values.length = .ok shape →
        normalizeAxis (askedAxis.getD scheme.axis) shape.length = .ok axis →
        HonestInput scheme shape axis values := by
  constructor
  · intro h shape axis hshape haxis
    exact (honestTotal_iff_honestInput hshape haxis (hpos shape hshape)).mp h
  · intro h
    by_cases hchecks : ∃ shape axis, resolveShape given values.length = .ok shape ∧
        normalizeAxis (askedAxis.getD scheme.axis) shape.length = .ok axis
    · obtain ⟨shape, axis, hshape, haxis⟩ := hchecks
      exact (honestTotal_iff_honestInput hshape haxis (hpos shape hshape)).mpr
        (h shape axis hshape haxis)
    · exact honestTotal_of_refused fun shape axis hshape haxis =>
        hchecks ⟨shape, axis, hshape, haxis⟩

def oneBitScheme : QuantScheme where
  bits := 1
  granularity := .perTensor
  valid := by decide +kernel

def asymmetricScheme : QuantScheme where
  symmetric := false
  rangePolicy := .twosComplement
  valid := by decide +kernel

theorem quantize_honest_iff_span :
    (∀ shape, resolveShape none 2 = .ok shape → ∀ dim ∈ shape, 0 < dim) ∧
      (HonestTotal asymmetricScheme [0, 5] none none ↔
        ∀ shape axis, resolveShape none 2 = .ok shape →
          normalizeAxis (-1) shape.length = .ok axis →
          HonestInput asymmetricScheme shape axis [0, 5]) := by
  have hpos : ∀ shape, resolveShape none 2 = .ok shape → ∀ dim ∈ shape, 0 < dim := by
    intro shape hshape
    cases hshape
    decide
  exact ⟨hpos, quantize_honest_iff asymmetricScheme [0, 5] none none hpos⟩

/-- A magnitude at one symmetric bit divides by zero; the constant vector `[5]` comes back as
zero without a clamp, at a bound of one half. -/
theorem quantize_not_honest :
    (quantize [some 1] oneBitScheme none none).map (fun _ => ()) = .error .zeroDivision ∧
    (quantize [some 5] asymmetricScheme none none).map
        (fun qt => (qt.stats.clampCount, qt.valuesDequant, clampFreeErrorBound qt)) =
      .ok (0, [some 0], some (1 / 2)) ∧
    ¬ HonestTotal oneBitScheme [1] none none ∧
    ¬ HonestTotal asymmetricScheme [5] none none := by
  have hdivision : (quantize [some 1] oneBitScheme none none).map (fun _ => ()) =
      .error .zeroDivision := by decide
  have hconstant : (quantize [some 5] asymmetricScheme none none).map
      (fun qt => (qt.stats.clampCount, qt.valuesDequant, clampFreeErrorBound qt)) =
      .ok (0, [some 0], some (1 / 2)) := by decide +kernel
  refine ⟨hdivision, hconstant, ?_, ?_⟩
  · rcases hrun : quantize [some 1] oneBitScheme none none with e | qt
    · rw [hrun] at hdivision
      cases hdivision
      exact fun h => Bool.false_ne_true (h.1 _ hrun)
    · rw [hrun] at hdivision
      cases hdivision
  · intro h
    rcases hrun : quantize [some 5] asymmetricScheme none none with e | qt
    · rw [hrun] at hconstant
      cases hconstant
    · rw [hrun] at hconstant
      have hstats := Except.ok.inj hconstant
      simp only [Prod.mk.injEq] at hstats
      obtain ⟨hclamps, hvalues, hbound⟩ := hstats
      obtain ⟨bound, hbound', hall⟩ := h.2 qt hrun hclamps
      obtain ⟨value, hvalue, hle⟩ := hall 0 Nat.one_pos
      rw [hvalues] at hvalue
      obtain rfl : (0 : ℚ) = value := Option.some.inj (Option.some.inj hvalue)
      obtain rfl : 1 / 2 = bound := Option.some.inj (hbound.symm.trans hbound')
      exact absurd hle (by decide +kernel)

end Hqsb
