/-
Hqsb/Quant/Golden.lean

The golden quantiser, which shares no helper with the reference, and where the two agree.

It goes row by row and cuts each row into slices, so a row is taken to lie contiguously in
the flat values: the fixtures it was written for quantise along the last axis.  A per-tensor
scheme has one slice, the whole tensor, and takes it once for each row.

A slice is a unit of the reference if the units are contiguous: for a per-tensor scheme, along an
axis of length one, and along an axis with nothing but dimensions of length one behind it.  There
both compute the same codes and the same values.  The scales are the same too, except that the
golden quantiser has a placeholder for the smallest positive scale of a flat unit, and enters the
one scale of a tensor once for each row.
-/
import Hqsb.Quant.QuantizeRun

namespace Hqsb

open Lib List

/-- What the golden quantiser raises; `emptyUnit` is the `ValueError` of `min(())`. -/
inductive ExactError
  | shapeMismatch (shape : List Nat) (count : Nat)
  | axisOutOfRange (axis : Int) (rank : Nat)
  | unsupportedMode (mode : RoundMode)
  | constantGroupRejected
  | spec (e : QuantError)
  | emptyUnit
  | zeroDivision
  deriving DecidableEq

def roundExact (value : ℚ) (mode : RoundMode) : Except ExactError Int :=
  let floorValue := ⌊value⌋
  let remainder := value - floorValue
  match mode with
  | .nearestEven =>
    if remainder > 1 / 2 then .ok (floorValue + 1)
    else if remainder < 1 / 2 then .ok floorValue
    else .ok (if floorValue % 2 = 0 then floorValue else floorValue + 1)
  | .halfAwayFromZero =>
    if value ≥ 0 then .ok (if remainder ≥ 1 / 2 then floorValue + 1 else floorValue)
    else
      let magnitude := |value|
      let floorMag := ⌊magnitude⌋
      let rest := magnitude - floorMag
      let rounded := if rest ≥ 1 / 2 then floorMag + 1 else floorMag
      .ok (-rounded)
  | mode => .error (.unsupportedMode mode)

section Quantiser

variable (scheme : QuantScheme)

/-- The smallest positive scale is a placeholder here. -/
def zeroGroupScaleExact : ℚ :=
  match scheme.zeroGroupPolicy with
  | .scaleOne => 1
  | .scaleMinPositive => 1 / 2 ^ 20

/-- The result of the golden quantiser; a symmetric unit has no zero point. -/
structure ExactQuantResult where
  q : List Int
  scales : List ℚ := []
  zeros : List (Option Int) := []
  valuesHat : List ℚ
  shape : List Nat
  unitsPerRow : Nat

/-- Scale, zero point and codes of one slice. -/
structure ExactUnit where
  scale : ℚ
  zero : Int
  codes : List Int

def encodeExactSymmetric (chunk : List ℚ) (length : Nat) : Except ExactError ExactUnit :=
  let amax := (chunk.map fun value => |value|).max?.getD 0
  if amax = 0 then
    .ok { scale := zeroGroupScaleExact scheme, zero := 0, codes := List.replicate length 0 }
  else if scheme.qmaxPositive = 0 then .error .zeroDivision
  else
    let scale := amax / scheme.qmaxPositive
    (chunk.mapM fun value => (roundExact (value / scale) scheme.roundMode).map fun code =>
      max scheme.qmin (min scheme.qmax code)).map fun codes => { scale, zero := 0, codes }

def encodeExactAsymmetric (chunk : List ℚ) (length : Nat) : Except ExactError ExactUnit :=
  match chunk.min?, chunk.max? with
  | some xmin, some xmax =>
    if xmax = xmin then
      if scheme.constantGroupPolicy = .reject then .error .constantGroupRejected
      else
        .ok { scale := zeroGroupScaleExact scheme, zero := 0, codes := List.replicate length 0 }
    else if scheme.qmax - scheme.qmin = 0 then .error .zeroDivision
    else do
      let scale := (xmax - xmin) / (scheme.qmax - scheme.qmin : Int)
      let rawZero ← roundExact (scheme.qmin - xmin / scale) scheme.roundMode
      let zero := max scheme.qmin (min scheme.qmax rawZero)
      let codes ← chunk.mapM fun value =>
        (roundExact (value / scale) scheme.roundMode).map fun code =>
          max scheme.qmin (min scheme.qmax (code + zero))
      .ok { scale, zero, codes }
  | _, _ => .error .emptyUnit

def encodeExact (chunk : List ℚ) (length : Nat) : Except ExactError ExactUnit :=
  if scheme.symmetric then encodeExactSymmetric scheme chunk length
  else encodeExactAsymmetric scheme chunk length

def sliceOf (count k row unit : Nat) : Nat × Nat :=
  if scheme.granularity = .perTensor then (0, count)
  else
    let size := match scheme.groupSize with
      | none | some 0 => k
      | some groupSize => groupSize
    (row * k + unit * size, min size (k - unit * size))

/-- Append the parameters of a slice, and write its codes and its values. -/
def ExactQuantResult.enterSlice (r : ExactQuantResult) (scheme : QuantScheme) (start : Nat)
    (unit : ExactUnit) : ExactQuantResult :=
  { r with
    scales := r.scales ++ [unit.scale]
    zeros := r.zeros ++ [if scheme.symmetric then none else some unit.zero]
    q := (unit.codes.zipIdx start).foldl (fun q e => q.set e.2 e.1) r.q
    valuesHat := (unit.codes.zipIdx start).foldl
      (fun hat e => hat.set e.2
        (if scheme.symmetric then unit.scale * e.1
          else unit.scale * (e.1 - unit.zero : Int)))
      r.valuesHat }

def quantizeSlice (values : List ℚ) (k row unit : Nat)
    (r : ExactQuantResult) : Except ExactError ExactQuantResult :=
  let (start, length) := sliceOf scheme values.length k row unit
  let chunk := (values.drop start).take length
  (encodeExact scheme chunk length).map (r.enterSlice scheme start)

def quantizeExact (values : List ℚ) (scheme : QuantScheme) (shape : Option (List Nat))
    (axis : Int) : Except ExactError ExactQuantResult :=
  let shape := shape.getD [values.length]
  if shape.prod ≠ values.length then .error (.shapeMismatch shape values.length)
  else
    let rank := shape.length
    let quantAxis := if axis < 0 then axis + rank else axis
    if ¬ (0 ≤ quantAxis ∧ quantAxis < rank) then .error (.axisOutOfRange axis rank)
    else
      let k := shape.getD quantAxis.toNat 0
      let rows := (shape.eraseIdx quantAxis.toNat).prod
      match unitsPerRow scheme k with
      | .error e => .error (.spec e)
      | .ok unitsPerRow =>
        (List.range rows).foldlM
          (fun r row => (List.range unitsPerRow).foldlM
            (fun r unit => quantizeSlice scheme values k row unit r) r)
          { q := List.replicate values.length 0
            valuesHat := List.replicate values.length 0
            shape
            unitsPerRow }

/-! ### The rounding of the golden quantiser -/

/-- Both round alike, in every mode of a scheme. -/
theorem roundExact_eq {mode : RoundMode} (h : mode.isRtn) (value : ℚ) :
    roundExact value mode = .ok (mode.rounder value) := by
  cases mode with
  | nearestEven =>
    show roundExact value _ = .ok (roundNearestEven value)
    rw [roundExact, roundNearestEven]
    split_ifs <;> rfl
  | halfAwayFromZero =>
    have htie : ∀ x : ℚ, (if x - ⌊x⌋ ≥ 1 / 2 then ⌊x⌋ + 1 else ⌊x⌋) =
        if x - ⌊x⌋ > 1 / 2 then ⌊x⌋ + 1 else if x - ⌊x⌋ < 1 / 2 then ⌊x⌋ else ⌊x⌋ + 1 := by
      intro x
      rcases lt_trichotomy (x - ⌊x⌋) (1 / 2) with hlt | heq | hgt
      · rw [if_neg (not_le.mpr hlt), if_neg hlt.not_gt, if_pos hlt]
      · rw [if_pos heq.ge, if_neg heq.le.not_gt, if_neg heq.ge.not_gt]
      · rw [if_pos hgt.le, if_pos hgt]
    show roundExact value _ = .ok (roundHalfAwayFromZero value)
    rw [roundExact.eq_def, roundHalfAwayFromZero]
    simp only [htie]
    rcases le_or_gt 0 value with hsign | hsign
    · simp only [if_pos hsign, abs_of_nonneg hsign]
    · simp only [if_neg (not_le.mpr hsign)]
  | trunc => cases h
  | floor => cases h

end Quantiser

open AxisUnits Buckets

/-! ### One unit -/

section Unit

variable {scheme : QuantScheme} {group : List ℚ}

def exactScale (scheme : QuantScheme) (group : List ℚ) : ℚ :=
  if Flat scheme group then zeroGroupScaleExact scheme else stepOf scheme group

theorem codeOf_eq_clamp (hstep : 0 < stepOf scheme group) (hflat : ¬ Flat scheme group) (v : ℚ) :
    (codeOf scheme group v).1 = max scheme.qmin (min scheme.qmax (rawCode scheme group v)) := by
  have hrange : scheme.qmin ≤ scheme.qmax := scheme.qmin_bounds.2.trans scheme.qmax_nonneg
  rw [codeOf, code]
  simp only [if_neg (not_le.mpr hstep), ← rawCode.eq_def]
  split_ifs with habove hbelow
  · show scheme.qmax = _
    omega
  · show scheme.qmin = _
    omega
  · show rawCode scheme group v = _
    omega

theorem mapM_roundExact (scheme : QuantScheme) (scale : ℚ) (zero : Int) (chunk : List ℚ) :
    (chunk.mapM fun value => (roundExact (value / scale) scheme.roundMode).map fun code =>
        max scheme.qmin (min scheme.qmax (code + zero))) =
      .ok (chunk.map fun value => max scheme.qmin (min scheme.qmax
        (scheme.roundMode.rounder (value / scale) + zero))) := by
  apply mapM_eq_ok
  intro value _
  rw [roundExact_eq scheme.legal.rtn]
  rfl

/-- **A slice of the golden quantiser** that is a unit which can be encoded. -/
theorem encodeExact_eq (hne : group ≠ []) (hscalable : ¬ Unscalable scheme group)
    (haccepted : ¬ Refused scheme group) :
    encodeExact scheme group group.length =
      .ok { scale := exactScale scheme group
            zero := zeroPoint scheme group
            codes := (unitCodeOf scheme group).codes } := by
  have hstep := stepOf_pos hscalable hne
  by_cases hflat : Flat scheme group
  · have hcodes : (unitCodeOf scheme group).codes = List.replicate group.length 0 := by
      rw [← zeroUnit_eq hflat, zeroUnit, List.map_const', List.length_map]
    rw [hcodes, zeroPoint_of_flat hflat, exactScale, if_pos hflat, encodeExact]
    rcases hsymmetric : scheme.symmetric
    · have hconstant := (flat_of_asymmetric hsymmetric).mp hflat
      have hpolicy : scheme.constantGroupPolicy ≠ .reject := fun h =>
        haccepted ⟨hsymmetric, hflat, h⟩
      rw [if_neg Bool.false_ne_true, encodeExactAsymmetric, min?_eq_lowest hne,
        max?_eq_highest hne]
      simp only [if_pos hconstant, if_neg hpolicy]
    · have hzero := (flat_of_symmetric hsymmetric).mp hflat
      rw [if_pos rfl, encodeExactSymmetric, ← magnitude.eq_def]
      rw [if_pos hzero]
  · have hcodes : (unitCodeOf scheme group).codes = group.map fun v =>
        max scheme.qmin (min scheme.qmax
          (scheme.roundMode.rounder (v / stepOf scheme group) + zeroPoint scheme group)) :=
      List.map_congr_left fun v _ => codeOf_eq_clamp hstep hflat v
    rw [hcodes, exactScale, if_neg hflat, encodeExact]
    rcases hsymmetric : scheme.symmetric
    · have hspan := mt (flat_of_asymmetric hsymmetric).mpr hflat
      have hrange : ¬ scheme.qmax - scheme.qmin = 0 :=
        (Int.sub_pos_of_lt (scheme.qmin_lt_qmax hsymmetric)).ne'
      rw [if_neg Bool.false_ne_true, encodeExactAsymmetric, min?_eq_lowest hne,
        max?_eq_highest hne]
      simp only [if_neg hspan, if_neg hrange, ← stepOf_of_asymmetric hsymmetric hflat,
        roundExact_eq scheme.legal.rtn, bind, Except.bind,
        ← zeroPoint_of_asymmetric hsymmetric hflat]
      have hmapM := mapM_roundExact scheme (stepOf scheme group) (zeroPoint scheme group) group
      simp only [roundExact_eq scheme.legal.rtn] at hmapM
      rw [hmapM]
    · have hmagnitude := mt (flat_of_symmetric hsymmetric).mpr hflat
      have hfull : scheme.qmaxPositive ≠ 0 := fun h =>
        hscalable ⟨hsymmetric, scheme.qmaxPositive_eq_zero_iff.mp h, hmagnitude⟩
      have hmapM := mapM_roundExact scheme (stepOf scheme group) 0 group
      simp only [add_zero] at hmapM
      rw [encodeExactSymmetric, ← magnitude.eq_def, zeroPoint_of_symmetric hsymmetric]
      simp only [if_neg hmagnitude, if_neg hfull, ← stepOf_of_symmetric hsymmetric hflat, hmapM,
        add_zero]
      rfl

end Unit

/-! ### Slices and units -/

section Slices

variable (scheme : QuantScheme) (shape : List Nat) (axis : Nat)

/-- The indices of every unit are contiguous. -/
def Contiguous : Prop :=
  scheme.granularity = .perTensor ∨ dimOf shape axis = 1 ∨ strideOf shape axis = 1

instance : Decidable (Contiguous scheme shape axis) := by
  unfold Contiguous
  infer_instance

def slicesPerRow : Nat :=
  if scheme.granularity = .perTensor then 1
  else unitsOf (dimOf shape axis) (sizeOf scheme shape axis)

def rowsOf : Nat := (shape.eraseIdx axis).prod

/-- The unit of a pass: a per-tensor scheme takes the tensor once for each row. -/
def unitOfPass (pass : Nat) : Nat := if scheme.granularity = .perTensor then 0 else pass

/-- One pass, as it is when all units can be encoded. -/
def passSlice (scheme : QuantScheme) (shape : List Nat) (axis : Nat) (values : List ℚ)
    (r : ExactQuantResult) (p : Nat × Nat) : ExactQuantResult :=
  r.enterSlice scheme (sliceOf scheme values.length (dimOf shape axis) p.1 p.2).1
    { scale := exactScale scheme (groupOf scheme shape axis values
        (unitOfPass scheme (p.1 * slicesPerRow scheme shape axis + p.2)))
      zero := zeroPoint scheme (groupOf scheme shape axis values
        (unitOfPass scheme (p.1 * slicesPerRow scheme shape axis + p.2)))
      codes := (List.range' (sliceOf scheme values.length (dimOf shape axis) p.1 p.2).1
        (sliceOf scheme values.length (dimOf shape axis) p.1 p.2).2).map
          (codeAt scheme shape axis values) }

variable (values : List ℚ) (p : Nat × Nat)

def passGroup : List ℚ :=
  groupOf scheme shape axis values (unitOfPass scheme (p.1 * slicesPerRow scheme shape axis + p.2))

def passIndices : List Nat :=
  List.range' (sliceOf scheme values.length (dimOf shape axis) p.1 p.2).1
    (sliceOf scheme values.length (dimOf shape axis) p.1 p.2).2

variable {scheme shape axis} {values} {p} (hpos : ∀ dim ∈ shape, 0 < dim)
  (haxis : axis < shape.length) (hcount : shape.prod = values.length)

theorem rowsOf_eq : rowsOf shape axis = outerOf shape axis * strideOf shape axis := by
  rw [rowsOf, List.eraseIdx_eq_take_drop_succ, List.prod_append]
  rfl

include haxis hcount in
theorem rowsOf_mul : rowsOf shape axis * dimOf shape axis = values.length := by
  rw [← hcount, prod_eq haxis, rowsOf_eq, mul_right_comm]

include hpos in
theorem rowsOf_pos : 0 < rowsOf shape axis :=
  List.prod_pos fun dim h => hpos dim (List.mem_of_mem_eraseIdx h)

theorem unitOfPass_lt {pass : Nat}
    (h : pass < rowsOf shape axis * slicesPerRow scheme shape axis) :
    unitOfPass scheme pass < unitTotal scheme shape axis := by
  rw [unitOfPass, unitTotal]
  split_ifs with hgranularity
  · exact Nat.one_pos
  · rwa [slicesPerRow, if_neg hgranularity, rowsOf_eq] at h

include hpos haxis hcount

/-- **A slice is a unit.** -/
theorem membersOf_slice (hcontiguous : Contiguous scheme shape axis) {row unit : Nat}
    (hrow : row < rowsOf shape axis) (hunit : unit < slicesPerRow scheme shape axis) :
    membersOf scheme shape axis values
        (unitOfPass scheme (row * slicesPerRow scheme shape axis + unit)) =
      passIndices scheme shape axis values (row, unit) ∧
    (sliceOf scheme values.length (dimOf shape axis) row unit).1 +
      (sliceOf scheme values.length (dimOf shape axis) row unit).2 ≤ values.length := by
  rw [passIndices]
  by_cases hgranularity : scheme.granularity = .perTensor
  · simp only [unitOfPass, if_pos hgranularity, sliceOf]
    refine ⟨?_, (Nat.zero_add _).le⟩
    refine filter_range_eq_range' (zero_add _).le fun i hi => ?_
    rw [unitIndex, if_pos hgranularity]
    simp [hi]
  · have hsize := sizeOf_pos scheme hpos haxis
    have hcontiguous := hcontiguous.resolve_left hgranularity
    rw [slicesPerRow, if_neg hgranularity] at hunit
    have hstart := (lt_unitsOf_iff hsize _).mp hunit
    have hrows := Nat.mul_le_mul_right (dimOf shape axis) (Nat.succ_le_of_lt hrow)
    rw [rowsOf_mul haxis hcount, Nat.succ_mul] at hrows
    have hslice : sliceOf scheme values.length (dimOf shape axis) row unit =
        (row * dimOf shape axis + unit * sizeOf scheme shape axis,
          min (sizeOf scheme shape axis)
            (dimOf shape axis - unit * sizeOf scheme shape axis)) := by
      rw [sliceOf, if_neg hgranularity, sizeOf]
      rcases hgroup : scheme.groupSize with - | groupSize
      · rfl
      · rcases groupSize with - | groupSize
        · exact absurd (scheme.legal.group 0 hgroup).2 (lt_irrefl 0)
        · rfl
    have hinside : row * dimOf shape axis + unit * sizeOf scheme shape axis +
        min (sizeOf scheme shape axis) (dimOf shape axis - unit * sizeOf scheme shape axis) ≤
          values.length := by
      omega
    rw [hslice]
    refine ⟨filter_range_eq_range' hinside fun i _ => ?_, hinside⟩
    rw [decide_eq_true_iff, unitIndex, unitOfPass, if_neg hgranularity, if_neg hgranularity,
      axisUnit_contiguous hcontiguous.symm, slicesPerRow, if_neg hgranularity]
    exact slice_iff hsize hstart

/-- **A pass** over a unit that can be encoded. -/
theorem quantizeSlice_eq (hcontiguous : Contiguous scheme shape axis)
    (hencodable : Encodable scheme shape axis values) {row unit : Nat}
    (hrow : row < rowsOf shape axis) (hunit : unit < slicesPerRow scheme shape axis)
    (r : ExactQuantResult) :
    quantizeSlice scheme values (dimOf shape axis) row unit r =
      .ok (passSlice scheme shape axis values r (row, unit)) := by
  obtain ⟨hmembers, hinside⟩ := membersOf_slice hpos haxis hcount hcontiguous hrow hunit
  have hpass := unitOfPass_lt (digits_lt hrow hunit)
  have hcodes : (unitCodeOf scheme (passGroup scheme shape axis values (row, unit))).codes = _ :=
    codes_unitCodeOf scheme shape axis values _
  have hne : passGroup scheme shape axis values (row, unit) ≠ [] :=
    groupOf_ne_nil hpos haxis hcount hpass
  have hgroup : passGroup scheme shape axis values (row, unit) =
      (values.drop (sliceOf scheme values.length (dimOf shape axis) row unit).1).take
        (sliceOf scheme values.length (dimOf shape axis) row unit).2 := by
    rw [passGroup, groupOf, hmembers]
    exact map_range'_getD _ _ hinside
  have hlength : (passGroup scheme shape axis values (row, unit)).length =
      (sliceOf scheme values.length (dimOf shape axis) row unit).2 := by
    rw [passGroup, groupOf, hmembers, List.length_map, passIndices, List.length_range']
  obtain ⟨hscalable, haccepted⟩ := hencodable _ hpass
  have hencode := encodeExact_eq hne hscalable haccepted
  rw [hmembers] at hcodes
  rw [hcodes, hlength] at hencode
  show (encodeExact scheme
    ((values.drop (sliceOf scheme values.length (dimOf shape axis) row unit).1).take
      (sliceOf scheme values.length (dimOf shape axis) row unit).2)
    (sliceOf scheme values.length (dimOf shape axis) row unit).2).map _ = _
  rw [← hgroup, hencode]
  rfl

omit hpos haxis hcount

/-! ### The two loops -/

def passesOf (scheme : QuantScheme) (shape : List Nat) (axis : Nat) : List (Nat × Nat) :=
  (List.range (rowsOf shape axis)).flatMap fun row =>
    (List.range (slicesPerRow scheme shape axis)).map fun unit => (row, unit)

theorem mem_passesOf {p : Nat × Nat} : p ∈ passesOf scheme shape axis ↔
    p.1 < rowsOf shape axis ∧ p.2 < slicesPerRow scheme shape axis := by
  obtain ⟨row, unit⟩ := p
  simp [passesOf, List.mem_flatMap]

theorem map_passesOf {β : Type*} (scheme : QuantScheme) (shape : List Nat) (axis : Nat)
    (f : Nat → β) :
    ((passesOf scheme shape axis).map fun p => f (p.1 * slicesPerRow scheme shape axis + p.2)) =
      (List.range (rowsOf shape axis * slicesPerRow scheme shape axis)).map f := by
  rw [passesOf, List.map_flatMap, ← flatMap_range_eq_range, List.map_flatMap]
  simp only [List.map_map, Function.comp_def]

theorem foldl_passSlice_scales (scheme : QuantScheme) (shape : List Nat) (axis : Nat)
    (values : List ℚ) (passes : List (Nat × Nat)) (r : ExactQuantResult) :
    (passes.foldl (passSlice scheme shape axis values) r).scales =
      r.scales ++ passes.map fun p =>
        exactScale scheme (passGroup scheme shape axis values p) := by
  induction passes generalizing r with
  | nil => simp
  | cons p passes ih =>
    rw [List.foldl_cons, ih]
    simp [passSlice, passGroup, ExactQuantResult.enterSlice]

theorem foldl_passSlice_q (passes : List (Nat × Nat)) (r : ExactQuantResult) :
    (passes.foldl (passSlice scheme shape axis values) r).q =
      (passes.map (passIndices scheme shape axis values)).foldl
        (fun q indices => writeAt (codeAt scheme shape axis values) indices q) r.q := by
  induction passes generalizing r with
  | nil => rfl
  | cons p passes ih =>
    rw [List.foldl_cons, ih, List.map_cons, List.foldl_cons, passIndices,
      ← foldl_zipIdx_eq_writeAt]
    rfl

/-- A decoded value by the scale and the zero point of the golden quantiser. -/
theorem decodedOf_eq_exact (group : List ℚ) (v : ℚ) : decodedOf scheme group v =
      if scheme.symmetric then exactScale scheme group * (codeOf scheme group v).1
      else exactScale scheme group * ((codeOf scheme group v).1 - zeroPoint scheme group : Int) := by
  by_cases hflat : Flat scheme group
  · rw [decodedOf_of_flat hflat, codeOf_of_flat hflat, zeroPoint_of_flat hflat]
    simp
  · rw [decodedOf, exactScale]
    split_ifs with hsymmetric
    · rw [zeroPoint_of_symmetric hsymmetric, sub_zero]
    · rfl

theorem foldl_passSlice_valuesHat (passes : List (Nat × Nat))
    (hmembers : ∀ p ∈ passes, membersOf scheme shape axis values
      (unitOfPass scheme (p.1 * slicesPerRow scheme shape axis + p.2)) =
        passIndices scheme shape axis values p) (r : ExactQuantResult) :
    (passes.foldl (passSlice scheme shape axis values) r).valuesHat =
      (passes.map (passIndices scheme shape axis values)).foldl
        (fun hat indices => writeAt (decodedAt scheme shape axis values) indices hat)
        r.valuesHat := by
  induction passes generalizing r with
  | nil => rfl
  | cons p passes ih =>
    have hvalues : (passIndices scheme shape axis values p).map
          (decodedAt scheme shape axis values) =
        ((passIndices scheme shape axis values p).map
          (codeAt scheme shape axis values)).map fun (code : Int) =>
            if scheme.symmetric then
              exactScale scheme (passGroup scheme shape axis values p) * code
            else exactScale scheme (passGroup scheme shape axis values p) *
              (code - zeroPoint scheme (passGroup scheme shape axis values p) : Int) := by
      rw [List.map_map]
      refine List.map_congr_left fun index hindex => ?_
      rw [← hmembers p List.mem_cons_self] at hindex
      rw [decodedAt, decodedOf_eq_exact, ownGroup, Function.comp_apply,
        codeAt, ownGroup, (mem_membersOf.mp hindex).2, passGroup]
    have hpass : (passSlice scheme shape axis values r p).valuesHat =
        writeAt (decodedAt scheme shape axis values) (passIndices scheme shape axis values p)
          r.valuesHat := by
      rw [passIndices] at hvalues ⊢
      rw [← foldl_zipIdx_eq_writeAt, hvalues, ← foldl_zipIdx_map]
      rfl
    rw [List.foldl_cons, ih fun p' hp' => hmembers p' (List.mem_cons_of_mem _ hp'), List.map_cons,
      List.foldl_cons, hpass]

section Loops

variable (hpos : ∀ dim ∈ shape, 0 < dim) (haxis : axis < shape.length)
  (hcount : shape.prod = values.length) (hcontiguous : Contiguous scheme shape axis)

include hpos haxis hcount hcontiguous

theorem exists_pass_of_lt {index : Nat} (hindex : index < values.length) :
    ∃ indices ∈ (passesOf scheme shape axis).map (passIndices scheme shape axis values),
      index ∈ indices := by
  have hpass : ∃ pass < rowsOf shape axis * slicesPerRow scheme shape axis,
      unitOfPass scheme pass = unitIndex scheme shape axis index := by
    have hunit := unitIndex_lt scheme hpos haxis (hcount ▸ hindex)
    rw [unitTotal] at hunit
    simp only [unitOfPass]
    split_ifs at hunit ⊢ with hgranularity
    · refine ⟨0, ?_, (Nat.lt_one_iff.mp hunit).symm⟩
      rw [slicesPerRow, if_pos hgranularity, mul_one]
      exact rowsOf_pos hpos
    · refine ⟨_, ?_, rfl⟩
      rwa [slicesPerRow, if_neg hgranularity, rowsOf_eq]
  obtain ⟨pass, hlt, heq⟩ := hpass
  have hmem : pass ∈ (passesOf scheme shape axis).map fun p =>
      p.1 * slicesPerRow scheme shape axis + p.2 := by
    rw [map_passesOf scheme shape axis fun pass => pass]
    simpa using hlt
  obtain ⟨p, hp, rfl⟩ := List.mem_map.mp hmem
  obtain ⟨hrow, hunit⟩ := mem_passesOf.mp hp
  refine ⟨_, List.mem_map.mpr ⟨p, hp, rfl⟩, ?_⟩
  rw [← (membersOf_slice hpos haxis hcount hcontiguous hrow hunit).1]
  exact mem_membersOf.mpr ⟨hindex, heq.symm⟩

/-- **The loops**, when all units can be encoded. -/
theorem quantizeLoops_eq (hencodable : Encodable scheme shape axis values)
    (r : ExactQuantResult) :
    (List.range (rowsOf shape axis)).foldlM
        (fun r row => (List.range (slicesPerRow scheme shape axis)).foldlM
          (fun r unit => quantizeSlice scheme values (dimOf shape axis) row unit r) r) r =
      .ok ((passesOf scheme shape axis).foldl (passSlice scheme shape axis values) r) := by
  have hrows : ∀ row ∈ List.range (rowsOf shape axis), ∀ r,
      (List.range (slicesPerRow scheme shape axis)).foldlM
          (fun r unit => quantizeSlice scheme values (dimOf shape axis) row unit r) r =
        .ok ((List.range (slicesPerRow scheme shape axis)).foldl
          (fun r unit => passSlice scheme shape axis values r (row, unit)) r) := by
    intro row hrow r
    apply foldlM_eq_ok
    intro unit hunit r
    exact quantizeSlice_eq hpos haxis hcount hcontiguous hencodable (List.mem_range.mp hrow)
      (List.mem_range.mp hunit) r
  rw [foldlM_eq_ok hrows, passesOf, List.foldl_flatMap]
  simp only [List.foldl_map]

end Loops

end Slices

/-! ### A whole call -/

section Call

variable {scheme : QuantScheme} {values : List ℚ} {given : Option (List Nat)} {askedAxis : Int}
  {r : ExactQuantResult} {qt : QuantizedTensor}

/-- What a call of the golden quantiser has checked, and the loops it has gone through. -/
theorem exists_loops_of_quantizeExact (h : quantizeExact values scheme given askedAxis = .ok r) :
    ∃ axis units, normalizeAxis askedAxis (given.getD [values.length]).length = .ok axis ∧
      resolveShape given values.length = .ok (given.getD [values.length]) ∧
      unitsPerRow scheme (dimOf (given.getD [values.length]) axis) = .ok units ∧
      (List.range (rowsOf (given.getD [values.length]) axis)).foldlM
        (fun r row => (List.range units).foldlM (fun r unit => quantizeSlice scheme values
          (dimOf (given.getD [values.length]) axis) row unit r) r)
        { q := List.replicate values.length 0
          valuesHat := List.replicate values.length 0
          shape := given.getD [values.length]
          unitsPerRow := units } = .ok r := by
  rw [quantizeExact] at h
  by_cases hcount : (given.getD [values.length]).prod = values.length
  · have hshape : resolveShape given values.length = .ok (given.getD [values.length]) := by
      rcases given with - | given
      · rfl
      · exact if_neg (not_not.mpr hcount)
    rw [if_neg (not_not.mpr hcount)] at h
    set shape := given.getD [values.length]
    by_cases hinside : 0 ≤ (if askedAxis < 0 then askedAxis + shape.length else askedAxis) ∧
        (if askedAxis < 0 then askedAxis + shape.length else askedAxis) < shape.length
    · rw [if_neg (not_not.mpr hinside)] at h
      have hrank : shape.length ≠ 0 := by omega
      refine ⟨(if askedAxis < 0 then askedAxis + shape.length else askedAxis).toNat, ?_⟩
      rcases hunits : unitsPerRow scheme (dimOf shape
          (if askedAxis < 0 then askedAxis + shape.length else askedAxis).toNat) with e | units
      · rw [dimOf] at hunits
        simp only [hunits] at h
        cases h
      · rw [dimOf] at hunits
        simp only [hunits] at h
        refine ⟨units, ?_, hshape, rfl, h⟩
        rw [normalizeAxis, if_neg hrank]
        exact if_neg (not_not.mpr hinside)
    · rw [if_pos hinside] at h
      cases h
  · rw [if_pos hcount] at h
    cases h

/-- Nothing to quantise: the reference accepts that unless it is a whole tensor. -/
theorem quantize_nil {askedAxis : Option Int}
    (h : quantize [] scheme given askedAxis = .ok qt) :
    scheme.granularity ≠ .perTensor ∧ qt.q = [] ∧ qt.scales = [] ∧ qt.valuesDequant = [] := by
  obtain ⟨shape, -, h⟩ := bind_ok_iff.mp h
  obtain ⟨axis, -, h⟩ := bind_ok_iff.mp h
  obtain ⟨nonfinite, -, h⟩ := bind_ok_iff.mp h
  obtain ⟨roundFn, -, h⟩ := bind_ok_iff.mp h
  obtain ⟨units, -, h⟩ := bind_ok_iff.mp h
  obtain ⟨tail, -, h⟩ := bind_ok_iff.mp h
  obtain ⟨unitIndices, hunits, h⟩ := bind_ok_iff.mp h
  obtain ⟨s, hs, h⟩ := bind_ok_iff.mp h
  obtain ⟨hat, hhat, h⟩ := bind_ok_iff.mp h
  have hempty : unitIndices = .empty := by
    rw [bucketUnits] at hunits
    split_ifs at hunits with _ hnil
    · exact (Except.ok.inj hunits).symm
    · exact absurd rfl hnil
    · exact (Except.ok.inj hunits).symm
  rw [hempty] at hs
  obtain rfl : { q := [] } = s := Except.ok.inj hs
  rw [dequantizeFlat, unitPlanes.eq_def] at hhat
  by_cases hgranularity : scheme.granularity = .perTensor
  · rw [if_pos hgranularity] at hhat
    cases hhat
  · rw [if_neg hgranularity] at hhat
    cases hhat
    cases h
    exact ⟨hgranularity, rfl, rfl, rfl⟩

/-- The golden quantiser has no slice of nothing either. -/
theorem quantizeExact_nil (hgranularity : scheme.granularity ≠ .perTensor)
    (h : quantizeExact [] scheme given askedAxis = .ok r) :
    r.q = [] ∧ r.scales = [] ∧ r.valuesHat = [] := by
  obtain ⟨axis, units, haxisOk, hshape, hunits, hloops⟩ := exists_loops_of_quantizeExact h
  have haxis := lt_of_normalizeAxis haxisOk
  have hrows := rowsOf_mul haxis (prod_of_resolveShape hshape)
  have hnone : ∀ (r : ExactQuantResult),
      (List.range (rowsOf (given.getD [0]) axis)).foldlM
        (fun r row => (List.range units).foldlM (fun r unit => quantizeSlice scheme []
          (dimOf (given.getD [0]) axis) row unit r) r) r = .ok r := by
    intro r
    rcases Nat.mul_eq_zero.mp hrows with hzero | hzero
    · rw [show rowsOf (given.getD [0]) axis = 0 from hzero]
      rfl
    · -- an axis of length zero has no slices
      have hunits' : units = 0 := by
        rw [hzero, unitsPerRow, if_neg hgranularity, groupsPerRow.eq_def] at hunits
        rcases hgroup : scheme.groupSize with - | groupSize
        · rw [hgroup] at hunits
          exact (Except.ok.inj hunits).symm
        · have hpositive := (scheme.legal.group groupSize hgroup).2
          simp only [hgroup, if_neg hpositive.ne'] at hunits
          exact (Except.ok.inj hunits).symm
      have hrow : ∀ row ∈ List.range (rowsOf (given.getD [0]) axis), ∀ r : ExactQuantResult,
          (List.range 0).foldlM (fun r unit => quantizeSlice scheme []
            (dimOf (given.getD [0]) axis) row unit r) r = .ok ((fun r _ => r) r row) :=
        fun _ _ _ => rfl
      rw [hunits', foldlM_eq_ok hrow, List.foldl_fixed]
  rw [List.length_nil, hnone] at hloops
  cases hloops
  exact ⟨rfl, rfl, rfl⟩

end Call

/-- **Where the golden quantiser agrees.**  If both accept a call whose units are contiguous, the
codes and the decoded values are the same, and each scale of the golden quantiser is that of
the reference, unless it is the placeholder of a flat unit. -/
theorem golden_agrees (scheme : QuantScheme) (values : List ℚ) (given : Option (List Nat))
    (askedAxis : Int) (r : ExactQuantResult) (qt : QuantizedTensor)
    (hexact : quantizeExact values scheme given askedAxis = .ok r)
    (hquantize : quantize (values.map some) scheme given (some askedAxis) = .ok qt)
    (hcontiguous : Contiguous scheme qt.shape qt.axis) :
    r.q = qt.q ∧ r.valuesHat.map some = qt.valuesDequant ∧
    r.scales.length =
      (if scheme.granularity = .perTensor then rowsOf qt.shape qt.axis else qt.scales.length) ∧
    ∀ pass < r.scales.length, ∃ exact scale,
      r.scales[pass]? = some exact ∧ qt.scales[unitOfPass scheme pass]? = some (some scale) ∧
      (scheme.zeroGroupPolicy = .scaleOne ∨ ¬ Flat scheme
        (groupOf scheme qt.shape qt.axis values (unitOfPass scheme pass)) → exact = scale) := by
  rcases eq_or_ne values [] with rfl | hne
  · obtain ⟨hgranularity, hq, hscales, hvalues⟩ := quantize_nil hquantize
    obtain ⟨hq', hscales', hvalues'⟩ := quantizeExact_nil hgranularity hexact
    rw [hq, hq', hscales, hscales', hvalues, hvalues', if_neg hgranularity]
    exact ⟨rfl, rfl, rfl, fun pass hpass => absurd hpass pass.not_lt_zero⟩
  · obtain ⟨axis, units, haxisOk, hshape, hunits, hloops⟩ := exists_loops_of_quantizeExact hexact
    generalize given.getD [values.length] = shape at haxisOk hshape hunits hloops
    have hcount := prod_of_resolveShape hshape
    have haxis := lt_of_normalizeAxis haxisOk
    have hpos := pos_of_resolveShape hshape hne
    have hasked : normalizeAxis ((some askedAxis).getD scheme.axis) shape.length = .ok axis :=
      haxisOk
    obtain ⟨hencodable, hquantised⟩ := quantised_of_ok hshape hasked hpos hquantize
    rw [hquantised.shape_eq, hquantised.axis_eq] at hcontiguous ⊢
    have hslices : units = slicesPerRow scheme shape axis :=
      Except.ok.inj (hunits.symm.trans (unitsPerRow_eq scheme hpos haxis))
    rw [hslices, quantizeLoops_eq hpos haxis hcount hcontiguous hencodable] at hloops
    cases hloops
    have hcover : ∀ index < values.length, _ := fun index =>
      exists_pass_of_lt hpos haxis hcount hcontiguous
    have hscales := foldl_passSlice_scales scheme shape axis values (passesOf scheme shape axis)
      { q := List.replicate values.length 0
        valuesHat := List.replicate values.length 0
        shape
        unitsPerRow := slicesPerRow scheme shape axis }
    simp only [passGroup] at hscales
    rw [List.nil_append, map_passesOf scheme shape axis fun pass =>
      exactScale scheme (groupOf scheme shape axis values (unitOfPass scheme pass))] at hscales
    rw [hscales, List.length_map, List.length_range]
    refine ⟨?_, ?_, ?_, fun pass hpass => ?_⟩
    · rw [foldl_passSlice_q, foldl_writeAt, hquantised.q_eq, List.length_replicate]
      rw [List.length_replicate]
      exact hcover
    · rw [foldl_passSlice_valuesHat _ fun p hp => (membersOf_slice hpos haxis hcount hcontiguous
          (mem_passesOf.mp hp).1 (mem_passesOf.mp hp).2).1, foldl_writeAt,
          hquantised.valuesDequant_eq,
        List.length_replicate, List.map_map]
      · rfl
      · rw [List.length_replicate]
        exact hcover
    · rw [hquantised.length_scales, unitTotal, slicesPerRow]
      split_ifs
      · exact mul_one _
      · rw [rowsOf_eq]
    · refine ⟨?_, _, ?_, hquantised.getElem?_scales (unitOfPass_lt hpass), fun h => ?_⟩
      · exact exactScale scheme (groupOf scheme shape axis values (unitOfPass scheme pass))
      · rw [List.getElem?_map, List.getElem?_range hpass]
        rfl
      · rw [exactScale]
        split_ifs with hflat
        · have hpolicy := h.resolve_right (not_not.mpr hflat)
          rw [stepOf, if_pos hflat, zeroGroupScaleExact, zeroGroupScale.eq_def]
          rw [hpolicy]
        · rfl

/-- Channels of eight bits. -/
def channelScheme : QuantScheme where
  valid := SchemeFields.valid_defaults

/-- The same with the smallest positive scale for flat units. -/
def minPositiveScheme : QuantScheme where
  zeroGroupPolicy := .scaleMinPositive
  valid := by decide +kernel

def tensorScheme : QuantScheme where
  granularity := .perTensor
  valid := by decide +kernel

theorem golden_agrees_rows : ∃ r qt,
    quantizeExact [0, 0, 3, -4] channelScheme (some [2, 2]) (-1) = .ok r ∧
    quantize ([0, 0, 3, -4].map some) channelScheme (some [2, 2]) (some (-1)) = .ok qt ∧
    Contiguous channelScheme qt.shape qt.axis ∧ r.q = qt.q := by
  rcases hr : quantizeExact [0, 0, 3, -4] channelScheme (some [2, 2]) (-1) with e | r
  · have hok : (quantizeExact [0, 0, 3, -4] channelScheme (some [2, 2]) (-1)).isOk = true := by
      decide +kernel
    rw [hr] at hok
    cases hok
  · have hshape : (quantize ([0, 0, 3, -4].map some) channelScheme (some [2, 2]) (some (-1))).map
        (fun qt => (qt.shape, qt.axis)) = .ok ([2, 2], 1) := by decide
    rcases hqt : quantize ([0, 0, 3, -4].map some) channelScheme (some [2, 2]) (some (-1))
      with e | qt
    · rw [hqt] at hshape
      cases hshape
    · rw [hqt] at hshape
      obtain ⟨hshape, haxis⟩ := Prod.mk.inj (Except.ok.inj hshape)
      have hcontiguous : Contiguous channelScheme qt.shape qt.axis := by
        rw [hshape, haxis]
        decide
      exact ⟨r, qt, rfl, rfl, hcontiguous,
        (golden_agrees channelScheme [0, 0, 3, -4] (some [2, 2]) (-1) r qt hr hqt hcontiguous).1⟩

/-- Along the first axis of a matrix the codes differ; a flat unit has a placeholder for its
smallest positive scale; and the scale of a tensor of two rows is entered twice. -/
theorem golden_differs :
    (quantizeExact [1, 2, 3, 4] channelScheme (some [2, 2]) 0).map (fun r => r.q) =
        .ok [64, 127, 95, 127] ∧
      (quantize ([1, 2, 3, 4].map some) channelScheme (some [2, 2]) (some 0)).map
        (fun qt => qt.q) = .ok [42, 64, 127, 127] ∧
    (quantizeExact [0] minPositiveScheme none (-1)).map (fun r => r.scales) =
        .ok [1 / 2 ^ 20] ∧
      (quantize ([0].map some) minPositiveScheme none (some (-1))).map (fun qt => qt.scales) =
        .ok [some (1 / 2 ^ 126)] ∧
    (quantizeExact [127, 1] tensorScheme (some [2, 1]) (-1)).map (fun r => r.scales) =
        .ok [1, 1] ∧
      (quantize ([127, 1].map some) tensorScheme (some [2, 1]) (some (-1))).map
        (fun qt => qt.scales) = .ok [some 1] := by
  decide +kernel

end Hqsb
