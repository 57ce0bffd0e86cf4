/-
Hqsb/Quant/Spec.lean

The frozen quantisation scheme.

`SchemeFields.validate` checks the fields in the order of the source, and a `QuantScheme`
carries the proof that it passed: whoever holds one need not check again.  What a scheme
thereby promises is `SchemeFields.Legal`.
-/
import Hqsb.Quant.Rounding

namespace Hqsb

inductive Granularity
  | perTensor
  | perChannel
  | perGroup
  deriving DecidableEq

inductive RangePolicy
  | symmetric
  | twosComplement
  deriving DecidableEq

/-- The scale of a group whose `amax`, or whose span, is zero. -/
inductive ZeroGroupPolicy
  | scaleOne
  | scaleMinPositive
  deriving DecidableEq

/-- What is done with an asymmetric group of equal values. -/
inductive ConstantGroupPolicy
  | encodeZeroCode
  | reject
  deriving DecidableEq

inductive NaNPolicy
  | reject
  | propagate
  deriving DecidableEq

inductive ScaleDtype
  | float16
  | float32
  | float64
  deriving DecidableEq

inductive ZeroDtype
  | int8
  | int16
  | int32
  deriving DecidableEq

/-- `(qmin, qmax)` for a number of bits and a range policy. -/
def integerRange (bits : Nat) (policy : RangePolicy) : Except QuantError (Int × Int) :=
  if ¬ (1 ≤ bits ∧ bits ≤ 8) then .error (.bitsOutOfRange bits)
  else
    match policy with
    | .symmetric =>
      let qmax := 2 ^ (bits - 1) - 1
      .ok (-qmax, qmax)
    | .twosComplement => .ok (-2 ^ (bits - 1), 2 ^ (bits - 1) - 1)

/-- Number of quantisation units along an axis of `k` elements; the last one may be short. -/
def groupsPerRow (k : Nat) (groupSize : Option Nat) : Except QuantError Nat :=
  match groupSize with
  | none => .ok (if k > 0 then 1 else 0)
  | some groupSize =>
    if groupSize = 0 then .error (.groupSizeNotPositive groupSize)
    else if k = 0 then .ok 0
    else .ok ((k + groupSize - 1) / groupSize)

/-- Length of the last unit along an axis of `k` elements. -/
def tailLength (k : Nat) (groupSize : Option Nat) : Except QuantError Nat :=
  match groupSize with
  | none => .ok k
  | some groupSize =>
    if groupSize = 0 then .error (.groupSizeNotPositive groupSize)
    else if k = 0 then .ok 0
    else
      let remainder := k % groupSize
      .ok (if remainder ≠ 0 then remainder else min k groupSize)

/-- The fields of a scheme, with their defaults, before any check. -/
structure SchemeFields where
  bits : Nat := 8
  rangePolicy : RangePolicy := .symmetric
  symmetric : Bool := true
  granularity : Granularity := .perChannel
  axis : Int := -1
  groupSize : Option Nat := none
  roundMode : RoundMode := .nearestEven
  scaleDtype : ScaleDtype := .float32
  zeroDtype : ZeroDtype := .int8
  zeroGroupPolicy : ZeroGroupPolicy := .scaleOne
  constantGroupPolicy : ConstantGroupPolicy := .encodeZeroCode
  nanPolicy : NaNPolicy := .reject
  computeDtype : String := "float64"
  packVersion : String := "hqsb.nibble.v1"
  label : String := "rtn"

namespace SchemeFields

/-- Only a per-group scheme has a group size, and it must have a positive one. -/
def checkGroupSize (s : SchemeFields) : Except QuantError Unit :=
  match s.granularity, s.groupSize with
  | .perGroup, none => .error .missingGroupSize
  | .perGroup, some groupSize =>
    if groupSize = 0 then .error (.groupSizeNotPositive groupSize) else .ok ()
  | _, some groupSize => .error (.unusedGroupSize groupSize)
  | _, none => .ok ()

/-- A symmetric scheme has the symmetric range, an asymmetric one the full one. -/
def checkRange (s : SchemeFields) : Except QuantError Unit :=
  if s.symmetric then
    if s.rangePolicy ≠ .symmetric then .error .symmetricTwosComplement else .ok ()
  else if s.rangePolicy ≠ .twosComplement then .error .asymmetricSymmetricRange
  else .ok ()

def validate (s : SchemeFields) : Except QuantError Unit := do
  let _ ← integerRange s.bits s.rangePolicy
  if s.roundMode.isRtn = false then .error (.unknownRoundMode s.roundMode) else .ok ()
  s.checkGroupSize
  s.checkRange
  if ¬ s.computeDtype.startsWith "float" then .error (.computeDtype s.computeDtype) else .ok ()
  if s.label = "" then .error .emptyLabel else .ok ()

end SchemeFields

/-! ### What validation establishes -/

/-- **A legal scheme.** -/
structure SchemeFields.Legal (s : SchemeFields) : Prop where
  bits : 1 ≤ s.bits ∧ s.bits ≤ 8
  rtn : s.roundMode.isRtn
  group : ∀ groupSize, s.groupSize = some groupSize → s.granularity = .perGroup ∧ 0 < groupSize
  sized : s.granularity = .perGroup → s.groupSize ≠ none
  range : s.rangePolicy = if s.symmetric then .symmetric else .twosComplement

theorem SchemeFields.checkGroupSize_ok {s : SchemeFields} (h : s.checkGroupSize = .ok ()) :
    (∀ groupSize, s.groupSize = some groupSize → s.granularity = .perGroup ∧ 0 < groupSize) ∧
      (s.granularity = .perGroup → s.groupSize ≠ none) := by
  rw [checkGroupSize] at h
  rcases hgroup : s.groupSize with - | groupSize
  · refine ⟨fun _ h => (nomatch h), fun hper => ?_⟩
    rw [hgroup, hper] at h
    cases h
  · refine ⟨?_, fun _ => Option.some_ne_none _⟩
    rintro _ ⟨⟩
    rcases hper : s.granularity
    · rw [hgroup, hper] at h
      cases h
    · rw [hgroup, hper] at h
      cases h
    · refine ⟨rfl, pos_of_ne_zero fun hzero => ?_⟩
      simp only [hgroup, hper, hzero] at h
      cases h

theorem SchemeFields.checkRange_ok {s : SchemeFields} (h : s.checkRange = .ok ()) :
    s.rangePolicy = if s.symmetric then .symmetric else .twosComplement := by
  rw [checkRange] at h
  split_ifs at h with hsymmetric hrange hrange
  · rw [if_pos hsymmetric]
    exact not_not.mp hrange
  · rw [if_neg hsymmetric]
    exact not_not.mp hrange

theorem SchemeFields.legal_of_validate {s : SchemeFields} (h : s.validate = .ok ()) : s.Legal := by
  rw [validate] at h
  rcases hbits : integerRange s.bits s.rangePolicy with e | range
  · rw [hbits] at h
    cases h
  rcases hrtn : s.roundMode.isRtn
  · rw [hbits, hrtn] at h
    cases h
  rcases hgroup : s.checkGroupSize with e | ⟨⟩
  · rw [hbits, hrtn, hgroup] at h
    cases h
  rcases hrange : s.checkRange with e | ⟨⟩
  · rw [hbits, hrtn, hgroup, hrange] at h
    cases h
  have hgroup := checkGroupSize_ok hgroup
  refine ⟨?_, hrtn, hgroup.1, hgroup.2, checkRange_ok hrange⟩
  by_contra hout
  rw [integerRange.eq_def, if_pos hout] at hbits
  cases hbits

structure QuantScheme extends SchemeFields where
  valid : toSchemeFields.validate = .ok ()

theorem SchemeFields.valid_defaults : ({} : SchemeFields).validate = .ok () := by decide +kernel

namespace QuantScheme

def range (s : QuantScheme) : Int × Int :=
  match integerRange s.bits s.rangePolicy with
  | .ok range => range
  | .error _ => (0, 0)

variable (s : QuantScheme)

theorem legal : s.toSchemeFields.Legal := SchemeFields.legal_of_validate s.valid

def qmin (s : QuantScheme) : Int := s.range.1

def qmax (s : QuantScheme) : Int := s.range.2

/-- The positive full-scale code, which symmetric scales are computed with. -/
def qmaxPositive (s : QuantScheme) : Int := 2 ^ (s.bits - 1) - 1

/-- Number of quantisation units along an axis of `k` elements. -/
def unitCount (s : QuantScheme) (k : Nat) : Except QuantError Nat := groupsPerRow k s.groupSize

/-! ### The integer range -/

theorem range_symmetric (h : s.symmetric) : s.range = (-s.qmaxPositive, s.qmaxPositive) := by
  have hpolicy := s.legal.range
  rw [if_pos h] at hpolicy
  rw [range, integerRange.eq_def, if_neg (not_not.mpr s.legal.bits), hpolicy]
  rfl

theorem range_asymmetric (h : s.symmetric = false) :
    s.range = (-2 ^ (s.bits - 1), 2 ^ (s.bits - 1) - 1) := by
  have hpolicy := s.legal.range
  rw [if_neg (Bool.eq_false_iff.mp h)] at hpolicy
  rw [range, integerRange.eq_def, if_neg (not_not.mpr s.legal.bits), hpolicy]

theorem qmax_eq : s.qmax = 2 ^ (s.bits - 1) - 1 := by
  rcases h : s.symmetric
  · rw [qmax, s.range_asymmetric h]
  · rw [qmax, s.range_symmetric h]
    rfl

/-- The code zero is always in range, and the range in that of the signed integers. -/
theorem qmin_bounds : -2 ^ (s.bits - 1) ≤ s.qmin ∧ s.qmin ≤ 0 := by
  have hpos : (0 : Int) < 2 ^ (s.bits - 1) := by positivity
  rcases h : s.symmetric
  · rw [qmin, s.range_asymmetric h]
    exact ⟨le_rfl, neg_nonpos.mpr hpos.le⟩
  · rw [qmin, s.range_symmetric h, qmaxPositive]
    constructor <;> omega

theorem qmax_nonneg : 0 ≤ s.qmax := by
  have hpos : (0 : Int) < 2 ^ (s.bits - 1) := by positivity
  rw [s.qmax_eq]
  exact Int.sub_nonneg.mpr hpos

theorem unitCount_eq {k : Nat} (hk : 0 < k) : s.unitCount k = .ok (match s.groupSize with
        | none => 1
        | some groupSize => (k + groupSize - 1) / groupSize) := by
  rw [unitCount, groupsPerRow.eq_def]
  rcases hgroup : s.groupSize with - | groupSize
  · rw [if_pos hk]
  · have hpos := (s.legal.group groupSize hgroup).2
    simp only [if_neg hpos.ne', if_neg hk.ne']

end QuantScheme

end Hqsb
