/-
Hqsb/Quant/QuantizeRun.lean

A whole run of the quantiser on finite values, unit by unit.

`unitIndex` is the unit of a flat index: one unit for a whole tensor, and otherwise the groups
along the axis as `Lib.AxisUnits` counts them, a channel being one group of the full axis.
The decoder computes it (`unitFor_eq`), the encoder has bucketed by it (`bucketUnits_eq`), and
since no unit is empty the encoder goes through `0, ..., unitTotal - 1` and appends their
scales at the places where the decoder looks them up.

If all units can be encoded, the run leaves for every index the code of its value in its unit
(`groupOf`), for every unit its step and its zero point, and decodes every index with the
parameters it was encoded with (`quantize_eq`).  The only other outcomes are those of a unit that
cannot be encoded.
-/
import Hqsb.Lib.AxisUnits
import Hqsb.Lib.Buckets
import Hqsb.Quant.UnitCoding

namespace Hqsb

open Lib Lib.AxisUnits Lib.Buckets List

def strideOf (shape : List Nat) (axis : Nat) : Nat := (shape.drop (axis + 1)).prod

def dimOf (shape : List Nat) (axis : Nat) : Nat := shape.getD axis 0

def outerOf (shape : List Nat) (axis : Nat) : Nat := (shape.take axis).prod

def sizeOf (scheme : QuantScheme) (shape : List Nat) (axis : Nat) : Nat :=
  scheme.groupSize.getD (dimOf shape axis)

def unitIndex (scheme : QuantScheme) (shape : List Nat) (axis index : Nat) : Nat :=
  if scheme.granularity = .perTensor then 0
  else axisUnit (strideOf shape axis) (dimOf shape axis) (sizeOf scheme shape axis) index

def unitTotal (scheme : QuantScheme) (shape : List Nat) (axis : Nat) : Nat :=
  if scheme.granularity = .perTensor then 1
  else outerOf shape axis * strideOf shape axis *
    unitsOf (dimOf shape axis) (sizeOf scheme shape axis)

def passedSize (scheme : QuantScheme) : Option Nat :=
  if scheme.granularity = .perTensor then none else scheme.groupSize

section

variable (scheme : QuantScheme) {shape : List Nat} (hpos : ∀ dim ∈ shape, 0 < dim) {axis : Nat}
  (haxis : axis < shape.length)

include hpos

theorem prod_pos : 0 < shape.prod := List.prod_pos hpos

theorem strideOf_pos : 0 < strideOf shape axis :=
  prod_pos fun dim h => hpos dim (mem_of_mem_drop h)

include haxis

theorem dimOf_pos : 0 < dimOf shape axis := by
  rw [dimOf, getD_eq_getElem _ _ haxis]
  exact hpos _ (getElem_mem haxis)

omit hpos in
theorem prod_eq : shape.prod = outerOf shape axis * dimOf shape axis * strideOf shape axis := by
  rw [outerOf, dimOf, strideOf, getD_eq_getElem _ _ haxis, ← prod_take_succ _ _ haxis,
    prod_take_mul_prod_drop]

theorem sizeOf_pos : 0 < sizeOf scheme shape axis := by
  rw [sizeOf]
  rcases hgroup : scheme.groupSize with - | groupSize
  · exact dimOf_pos hpos haxis
  · exact (scheme.legal.group groupSize hgroup).2

theorem unitsPerRow_eq : unitsPerRow scheme (dimOf shape axis) =
      .ok (if scheme.granularity = .perTensor then 1
        else unitsOf (dimOf shape axis) (sizeOf scheme shape axis)) := by
  have hdim := dimOf_pos hpos haxis
  rw [unitsPerRow]
  split_ifs with hgranularity
  · rfl
  · show scheme.unitCount _ = _
    rw [scheme.unitCount_eq hdim, sizeOf]
    rcases scheme.groupSize with - | groupSize
    · -- a channel: `(dim + dim - 1) / dim` is one
      have hone : (dimOf shape axis + dimOf shape axis - 1) / dimOf shape axis = 1 :=
        Nat.div_eq_of_lt_le (by omega) (by omega)
      show Except.ok 1 = Except.ok ((dimOf shape axis + dimOf shape axis - 1) / dimOf shape axis)
      rw [hone]
    · rfl

theorem tailLength_ok : ∃ tail, tailLength (dimOf shape axis) (passedSize scheme) = .ok tail := by
  rw [passedSize]
  rcases hgroup : scheme.groupSize with - | groupSize
  · exact ⟨dimOf shape axis, by split_ifs <;> rfl⟩
  · obtain ⟨hper, hpositive⟩ := scheme.legal.group groupSize hgroup
    have hdim := dimOf_pos hpos haxis
    rw [hper, if_neg (by decide), tailLength.eq_def]
    simp only [if_neg hpositive.ne', if_neg hdim.ne']
    exact ⟨_, rfl⟩

/-- **The decoder's unit.** -/
theorem unitFor_eq (index : Nat) :
    unitFor scheme shape axis
        (if scheme.granularity = .perTensor then 1
          else unitsOf (dimOf shape axis) (sizeOf scheme shape axis))
        (passedSize scheme) index = .ok (unitIndex scheme shape axis index) := by
  have hdim := dimOf_pos hpos haxis
  have hstride : 0 < strideOf shape axis := strideOf_pos hpos
  have hnormal : (if (axis : Int) < 0 then (axis : Int) + shape.length else axis) = axis :=
    if_neg (Int.natCast_nonneg axis).not_gt
  have hinside : ¬ ¬ (0 ≤ (axis : Int) ∧ (axis : Int) < shape.length) :=
    not_not.mpr ⟨Int.natCast_nonneg axis, Int.ofNat_lt.mpr haxis⟩
  have hvalid : ¬ ((shape.drop (axis + 1)).prod = 0 ∨ shape.getD axis 0 = 0) := by
    rintro (h | h)
    · exact hstride.ne' h
    · exact hdim.ne' h
  rw [unitFor, unitIndex, passedSize]
  split_ifs with hgranularity
  · rfl
  · rw [unitOfIndex]
    rw [hnormal, if_neg hinside, Int.toNat_natCast, if_neg hvalid]
    rw [axisUnit, sizeOf]
    rcases hgroup : scheme.groupSize with - | groupSize
    · -- a channel has no second group
      have hcoordinate := Nat.mod_lt (index / strideOf shape axis) hdim
      rw [Option.getD_none, Nat.div_eq_of_lt hcoordinate]
      rfl
    · obtain ⟨-, hpositive⟩ := scheme.legal.group groupSize hgroup
      rcases groupSize with - | groupSize
      · exact absurd hpositive (lt_irrefl 0)
      · rfl

/-! ### The units are numbered without gaps -/

theorem unitIndex_lt {index : Nat} (hindex : index < shape.prod) :
    unitIndex scheme shape axis index < unitTotal scheme shape axis := by
  rw [unitIndex, unitTotal]
  split_ifs
  · exact Nat.one_pos
  · rw [prod_eq haxis] at hindex
    exact axisUnit_lt (dimOf_pos hpos haxis) (strideOf_pos hpos) (sizeOf_pos scheme hpos haxis)
      hindex

theorem exists_unitIndex_eq {unit : Nat} (hunit : unit < unitTotal scheme shape axis) :
    ∃ index < shape.prod, unitIndex scheme shape axis index = unit := by
  rw [unitTotal] at hunit
  simp only [unitIndex]
  split_ifs at hunit ⊢
  · exact ⟨0, prod_pos hpos, (Nat.lt_one_iff.mp hunit).symm⟩
  · rw [prod_eq haxis]
    exact exists_axisUnit_eq (strideOf_pos hpos) (sizeOf_pos scheme hpos haxis) hunit

/-- **The encoder's buckets**, in the order in which they are encoded. -/
theorem bucketUnits_eq :
    ∃ unitIndices, bucketUnits scheme shape.prod shape axis
        (if scheme.granularity = .perTensor then 1
          else unitsOf (dimOf shape axis) (sizeOf scheme shape axis))
        (passedSize scheme) = .ok unitIndices ∧
      unitIndices.keys.insertionSort (· ≤ ·) = List.range (unitTotal scheme shape axis) ∧
      ∀ unit < unitTotal scheme shape axis, (unitIndices.get? unit).getD [] =
        (List.range shape.prod).filter fun index => unitIndex scheme shape axis index = unit := by
  have hunit := unitFor_eq scheme hpos haxis
  rcases Decidable.em (scheme.granularity = .perTensor) with hgranularity | hgranularity
  · have hone : unitTotal scheme shape axis = 1 := if_pos hgranularity
    rw [bucketUnits, if_pos hgranularity, if_neg (prod_pos hpos).ne', hone]
    refine ⟨_, rfl, rfl, ?_⟩
    intro unit hlt
    obtain rfl := Nat.lt_one_iff.mp hlt
    simp [unitIndex, hgranularity]
  · rw [bucketUnits]
    simp only [unitFor, if_neg hgranularity] at hunit ⊢
    refine ⟨bucket (unitIndex scheme shape axis) (List.range shape.prod), ?_, ?_, ?_⟩
    · apply foldlM_eq_ok
      intro index _ unitIndices
      rw [hunit index]
      rfl
    · apply insertionSort_keys_eq_range
      intro unit
      rw [mem_keys_bucket]
      constructor
      · rintro ⟨index, hindex, rfl⟩
        exact unitIndex_lt scheme hpos haxis (mem_range.mp hindex)
      · intro hlt
        obtain ⟨index, hindex, rfl⟩ := exists_unitIndex_eq scheme hpos haxis hlt
        exact ⟨index, mem_range.mpr hindex, rfl⟩
    · intro unit _
      exact getD_get?_bucket _ _ unit

end

/-! ### The accumulators -/

section Accumulate

variable (scheme : QuantScheme) (members : Nat → List Nat) (chunk : Nat → List (Option ℚ))
  (unit : Nat → UnitCode)

section

variable (units : List Nat) (s : Encoding)

def enterUnits : Encoding :=
  units.foldl (fun s u => s.enterUnit scheme u (members u) (chunk u) (unit u)) s

theorem enterUnits_scales : (enterUnits scheme members chunk unit units s).scales =
      s.scales ++ units.map fun u => (unit u).scale := by
  induction units generalizing s with
  | nil => simp [enterUnits]
  | cons u units ih =>
    show (enterUnits scheme members chunk unit units _).scales = _
    rw [ih]
    simp [Encoding.enterUnit]

theorem enterUnits_zeros : (enterUnits scheme members chunk unit units s).zeros =
      if scheme.symmetric then s.zeros else s.zeros ++ units.map fun u => (unit u).zero := by
  induction units generalizing s with
  | nil => simp [enterUnits]
  | cons u units ih =>
    show (enterUnits scheme members chunk unit units _).zeros = _
    rw [ih]
    rcases hsymmetric : scheme.symmetric <;> simp [Encoding.enterUnit, hsymmetric]

theorem enterUnits_clampCount : (enterUnits scheme members chunk unit units s).clampCount =
      s.clampCount + (units.map fun u => (unit u).clamps).sum := by
  induction units generalizing s with
  | nil => rfl
  | cons u units ih =>
    show (enterUnits scheme members chunk unit units _).clampCount = _
    rw [ih, map_cons, sum_cons, ← add_assoc]
    rfl

end

theorem enterUnits_q {g : Nat → Int} (units : List Nat)
    (hcodes : ∀ u ∈ units, (unit u).codes = (members u).map g) (s : Encoding) :
    (enterUnits scheme members chunk unit units s).q =
      (units.map members).foldl (fun q indices => writeAt g indices q) s.q := by
  induction units generalizing s with
  | nil => rfl
  | cons u units ih =>
    show (enterUnits scheme members chunk unit units _).q = _
    rw [ih fun v hv => hcodes v (.tail _ hv), map_cons]
    show _ = List.foldl _ ((members u).zip ((members u).map g) |>.foldl _ s.q) _
    rw [← hcodes u mem_cons_self]
    rfl

end Accumulate

/-! ### Units of a call -/

section Call

variable (scheme : QuantScheme) (shape : List Nat) (axis : Nat) (values : List ℚ)

def membersOf (unit : Nat) : List Nat :=
  (List.range values.length).filter fun index => unitIndex scheme shape axis index = unit

def groupOf (unit : Nat) : List ℚ :=
  (membersOf scheme shape axis values unit).map fun index => values.getD index 0

def ownGroup (index : Nat) : List ℚ :=
  groupOf scheme shape axis values (unitIndex scheme shape axis index)

variable {scheme shape axis values}

theorem mem_membersOf {unit index : Nat} : index ∈ membersOf scheme shape axis values unit ↔
      index < values.length ∧ unitIndex scheme shape axis index = unit := by
  rw [membersOf, mem_filter, mem_range, decide_eq_true_iff]

theorem mem_ownGroup (scheme : QuantScheme) (shape : List Nat) (axis : Nat) {index : Nat}
    (h : index < values.length) :
    values.getD index 0 ∈ ownGroup scheme shape axis values index :=
  mem_map.mpr ⟨index, mem_membersOf.mpr ⟨h, rfl⟩, rfl⟩

theorem chunkValues_membersOf (unit : Nat) :
    chunkValues (values.map some) (membersOf scheme shape axis values unit) =
      (groupOf scheme shape axis values unit).map some := by
  rw [groupOf, map_map]
  refine map_congr_left fun index hindex => ?_
  have hinside := (mem_membersOf.mp hindex).1
  have hinside' : index < (values.map some).length := by rwa [length_map]
  rw [getD_eq_getElem _ _ hinside', Function.comp_apply, getD_eq_getElem _ _ hinside,
    getElem_map]

theorem codes_unitCodeOf (scheme : QuantScheme) (shape : List Nat) (axis : Nat)
    (values : List ℚ) (unit : Nat) :
    (unitCodeOf scheme (groupOf scheme shape axis values unit)).codes =
      (membersOf scheme shape axis values unit).map fun index =>
        (codeOf scheme (ownGroup scheme shape axis values index) (values.getD index 0)).1 := by
  show ((membersOf scheme shape axis values unit).map fun index => values.getD index 0).map
    (fun v => (codeOf scheme (groupOf scheme shape axis values unit) v).1) = _
  rw [map_map]
  refine map_congr_left fun index hindex => ?_
  rw [Function.comp_apply, ownGroup, (mem_membersOf.mp hindex).2]

end Call

/-! ### What the codes, the scales and the zeros are -/

section Outcome

variable (scheme : QuantScheme) (shape : List Nat) (axis : Nat) (values : List ℚ)

def Encodable : Prop :=
  ∀ unit < unitTotal scheme shape axis,
    ¬ Unscalable scheme (groupOf scheme shape axis values unit) ∧
      ¬ Refused scheme (groupOf scheme shape axis values unit)

def codeAt (index : Nat) : Int :=
  (codeOf scheme (ownGroup scheme shape axis values index) (values.getD index 0)).1

def decodedAt (index : Nat) : ℚ :=
  decodedOf scheme (ownGroup scheme shape axis values index) (values.getD index 0)

def scalesOf : List (Option ℚ) :=
  (List.range (unitTotal scheme shape axis)).map fun unit =>
    some (stepOf scheme (groupOf scheme shape axis values unit))

def zerosOf : List Int :=
  if scheme.symmetric then []
  else (List.range (unitTotal scheme shape axis)).map fun unit =>
    zeroPoint scheme (groupOf scheme shape axis values unit)

def clampsOf : List Nat :=
  (List.range (unitTotal scheme shape axis)).map fun unit =>
    (unitCodeOf scheme (groupOf scheme shape axis values unit)).clamps

end Outcome

section Run

variable {scheme : QuantScheme} {shape : List Nat} {axis : Nat} {values : List ℚ}
  (hpos : ∀ dim ∈ shape, 0 < dim) (haxis : axis < shape.length)
  (hcount : shape.prod = values.length)

include hpos haxis hcount

theorem groupOf_ne_nil {unit : Nat}
    (hunit : unit < unitTotal scheme shape axis) :
    groupOf scheme shape axis values unit ≠ [] := by
  obtain ⟨index, hindex, heq⟩ := exists_unitIndex_eq scheme hpos haxis hunit
  rw [hcount] at hindex
  have hown := mem_ownGroup scheme shape axis hindex
  rw [ownGroup, heq] at hown
  exact ne_nil_of_mem hown

theorem encodePass_eq {unit : Nat} (hunit : unit < unitTotal scheme shape axis) (s : Encoding) :
    (encodeUnit scheme scheme.roundMode.rounder unit
        (chunkValues (values.map some) (membersOf scheme shape axis values unit))).map
      (s.enterUnit scheme unit (membersOf scheme shape axis values unit)
        (chunkValues (values.map some) (membersOf scheme shape axis values unit))) =
    if Unscalable scheme (groupOf scheme shape axis values unit) then .error .zeroDivision
    else if Refused scheme (groupOf scheme shape axis values unit) then
      .error (.constantGroup unit (lowest (groupOf scheme shape axis values unit)))
    else .ok (s.enterUnit scheme unit (membersOf scheme shape axis values unit)
      (chunkValues (values.map some) (membersOf scheme shape axis values unit))
      (unitCodeOf scheme (groupOf scheme shape axis values unit))) := by
  have hne : groupOf scheme shape axis values unit ≠ [] :=
    groupOf_ne_nil hpos haxis hcount hunit
  rw [chunkValues_membersOf, encodeUnit_eq hne]
  split_ifs <;> rfl

variable {unitIndices : OrderedDict Nat (List Nat)}
  (hkeys : unitIndices.keys.insertionSort (· ≤ ·) = List.range (unitTotal scheme shape axis))
  (hbuckets : ∀ unit < unitTotal scheme shape axis,
    (unitIndices.get? unit).getD [] = membersOf scheme shape axis values unit)

include hkeys hbuckets

/-- **The loop over the units**, when all of them can be encoded. -/
theorem encodeUnits_ok (h : Encodable scheme shape axis values) :
    ∃ s, encodeUnits scheme scheme.roundMode.rounder (values.map some) unitIndices = .ok s ∧
      s.q = (List.range values.length).map (codeAt scheme shape axis values) ∧
      s.scales = scalesOf scheme shape axis values ∧
      s.zeros = zerosOf scheme shape axis values ∧
      s.clampCount = (clampsOf scheme shape axis values).sum := by
  refine ⟨enterUnits scheme (membersOf scheme shape axis values)
    (fun unit => chunkValues (values.map some) (membersOf scheme shape axis values unit))
    (fun unit => unitCodeOf scheme (groupOf scheme shape axis values unit))
    (List.range (unitTotal scheme shape axis))
    { q := List.replicate (values.map some).length 0 }, ?_, ?_, ?_, ?_, ?_⟩
  · rw [encodeUnits, hkeys]
    apply foldlM_eq_ok
    intro unit hunit s
    rw [mem_range] at hunit
    rw [hbuckets unit hunit, encodePass_eq hpos haxis hcount hunit]
    rw [if_neg (h unit hunit).1, if_neg (h unit hunit).2]
  · rw [enterUnits_q _ _ _ _ _ fun unit _ => codes_unitCodeOf _ _ _ _ unit, foldl_writeAt]
    · rw [length_replicate, length_map]
      rfl
    · -- every index has a bucket
      intro index hindex
      rw [length_replicate, length_map] at hindex
      refine ⟨_, mem_map.mpr ⟨_, mem_range.mpr ?_, rfl⟩,
        mem_membersOf.mpr ⟨hindex, rfl⟩⟩
      exact unitIndex_lt scheme hpos haxis (hcount ▸ hindex)
  · rw [enterUnits_scales]
    rfl
  · rw [enterUnits_zeros]
    rfl
  · rw [enterUnits_clampCount, zero_add]
    rfl

theorem encodeUnits_error (h : ¬ Encodable scheme shape axis values) :
    ∃ unit < unitTotal scheme shape axis,
      encodeUnits scheme scheme.roundMode.rounder (values.map some) unitIndices =
          .error .zeroDivision ∧ Unscalable scheme (groupOf scheme shape axis values unit) ∨
        encodeUnits scheme scheme.roundMode.rounder (values.map some) unitIndices =
            .error (.constantGroup unit (lowest (groupOf scheme shape axis values unit))) ∧
          Refused scheme (groupOf scheme shape axis values unit) := by
  rcases hrun : encodeUnits scheme scheme.roundMode.rounder (values.map some) unitIndices
    with e | r
  all_goals rw [encodeUnits, hkeys] at hrun
  · obtain ⟨unit, hunit, s, hpass⟩ := exists_of_foldlM_eq_error hrun
    rw [mem_range] at hunit
    rw [hbuckets unit hunit, encodePass_eq hpos haxis hcount hunit] at hpass
    refine ⟨unit, hunit, ?_⟩
    split_ifs at hpass with hunscalable hrefused
    · exact .inl ⟨hpass.symm, hunscalable⟩
    · exact .inr ⟨hpass.symm, hrefused⟩
  · -- a loop that goes through has encoded every unit
    refine absurd (fun unit hunit => ?_) h
    obtain ⟨s, s', hpass⟩ := exists_of_foldlM_eq_ok hrun unit (mem_range.mpr hunit)
    rw [hbuckets unit hunit, encodePass_eq hpos haxis hcount hunit] at hpass
    split_ifs at hpass with hunscalable hrefused
    exact ⟨hunscalable, hrefused⟩

end Run

/-! ### Decoding -/

theorem passedSize_eq (scheme : QuantScheme) : passedSize scheme = scheme.groupSize := by
  rw [passedSize]
  split_ifs with hgranularity
  · rcases hgroup : scheme.groupSize with - | groupSize
    · rfl
    · have hper := (scheme.legal.group groupSize hgroup).1
      rw [hgranularity] at hper
      cases hper
  · rfl

section Decode

variable {scheme : QuantScheme} {shape : List Nat} {axis : Nat} {values : List ℚ}

theorem unitPlanes_eq (values : List ℚ) (hone : 0 < unitTotal scheme shape axis) :
    ∃ planes, unitPlanes scheme (scalesOf scheme shape axis values)
        (zerosOf scheme shape axis values) = .ok planes ∧
      ∀ unit < unitTotal scheme shape axis,
        planes.1[unit]? = some (some (stepOf scheme (groupOf scheme shape axis values unit))) ∧
        (if scheme.symmetric then some 0 else planes.2[unit]?) =
          some (zeroPoint scheme (groupOf scheme shape axis values unit)) := by
  have hscales : ∀ unit < unitTotal scheme shape axis,
      (scalesOf scheme shape axis values)[unit]? =
        some (some (stepOf scheme (groupOf scheme shape axis values unit))) := by
    intro unit hunit
    rw [scalesOf, List.getElem?_map, List.getElem?_range hunit]
    rfl
  have hzeros : scheme.symmetric = false → ∀ unit < unitTotal scheme shape axis,
      (zerosOf scheme shape axis values)[unit]? =
        some (zeroPoint scheme (groupOf scheme shape axis values unit)) := by
    intro hsymmetric unit hunit
    rw [zerosOf, if_neg (Bool.eq_false_iff.mp hsymmetric), List.getElem?_map,
      List.getElem?_range hunit]
    rfl
  have hsymmetric : scheme.symmetric → ∀ group, zeroPoint scheme group = 0 :=
    fun h _ => if_pos (.inl h)
  rw [unitPlanes.eq_def]
  by_cases hgranularity : scheme.granularity = .perTensor
  · -- a tensor has one unit, and the decoder takes the first scale and the first zero
    have htotal : unitTotal scheme shape axis = 1 := if_pos hgranularity
    have hfirst := hscales 0 hone
    rw [if_pos hgranularity]
    rcases hlist : scalesOf scheme shape axis values with - | ⟨scale, rest⟩
    · rw [hlist] at hfirst
      cases hfirst
    · refine ⟨_, rfl, fun unit hunit => ?_⟩
      obtain rfl : unit = 0 := by omega
      rw [hlist] at hfirst
      refine ⟨hfirst, ?_⟩
      by_cases hscheme : scheme.symmetric = true
      · rw [if_pos hscheme, hsymmetric hscheme]
      · have hzero := hzeros (Bool.eq_false_iff.mpr hscheme) 0 hone
        rw [if_neg hscheme]
        rcases hlist' : zerosOf scheme shape axis values with - | ⟨zero, rest'⟩
        · rw [hlist'] at hzero
          cases hzero
        · rw [hlist'] at hzero
          exact hzero
  · rw [if_neg hgranularity]
    refine ⟨_, rfl, fun unit hunit => ⟨hscales unit hunit, ?_⟩⟩
    by_cases hscheme : scheme.symmetric = true
    · rw [if_pos hscheme, hsymmetric hscheme]
    · have hzero := hzeros (Bool.eq_false_iff.mpr hscheme) unit hunit
      have hne : zerosOf scheme shape axis values ≠ [] := by
        intro hnil
        rw [hnil] at hzero
        cases hzero
      rw [if_neg hscheme, if_neg hne]
      exact hzero

/-- **The decoder** gives every index the step and the zero point it was encoded with. -/
theorem dequantizeFlat_eq (scheme : QuantScheme) (hpos : ∀ dim ∈ shape, 0 < dim) (haxis : axis < shape.length)
    (hcount : shape.prod = values.length) :
    dequantizeFlat ((List.range values.length).map (codeAt scheme shape axis values))
        (scalesOf scheme shape axis values) (zerosOf scheme shape axis values) shape
        (if scheme.granularity = .perTensor then 1
          else unitsOf (dimOf shape axis) (sizeOf scheme shape axis))
        scheme (passedSize scheme) (some axis) =
      .ok ((List.range values.length).map fun index =>
        some (decodedAt scheme shape axis values index)) := by
  have hone : 0 < unitTotal scheme shape axis :=
    (Nat.zero_le _).trans_lt (unitIndex_lt scheme hpos haxis (prod_pos hpos))
  obtain ⟨planes, hplanes, hunits⟩ := unitPlanes_eq values hone
  have hsize : (passedSize scheme).or scheme.groupSize = passedSize scheme := by
    rw [passedSize_eq, Option.or_self]
  rw [dequantizeFlat, hplanes]
  show List.mapM _ (List.zipIdx _) = _
  have hpasses : ∀ e ∈ ((List.range values.length).map (codeAt scheme shape axis values)).zipIdx,
      (unitFor scheme shape axis
          (if scheme.granularity = .perTensor then 1
            else unitsOf (dimOf shape axis) (sizeOf scheme shape axis))
          ((passedSize scheme).or scheme.groupSize) e.2 >>= fun unit =>
        dequantizeCode scheme planes.1 planes.2 unit e.2 e.1) =
      .ok (((fun index => some (decodedAt scheme shape axis values index)) ∘ Prod.snd) e) := by
    rintro ⟨code, index⟩ hmem
    have hcode := mem_zipIdx_iff_getElem?.mp hmem
    have hindex : index < values.length := by
      by_contra hout
      rw [List.getElem?_eq_none (by simpa using hout)] at hcode
      cases hcode
    rw [List.getElem?_map, List.getElem?_range hindex] at hcode
    cases hcode
    obtain ⟨hscale, hzero⟩ := hunits _ (unitIndex_lt scheme hpos haxis (hcount ▸ hindex))
    rw [hsize, unitFor_eq scheme hpos haxis]
    show dequantizeCode scheme planes.1 planes.2 _ index _ = _
    rw [dequantizeCode.eq_def]
    rw [hscale, hzero]
    rfl
  refine (mapM_eq_ok hpasses).trans (congrArg Except.ok ?_)
  rw [← map_map, zipIdx_map_snd, length_map, length_range,
    range_eq_range']

end Decode

/-! ### The run -/

/-- **A quantised tensor** of finite values. -/
structure Quantised (scheme : QuantScheme) (shape : List Nat) (axis : Nat) (values : List ℚ)
    (qt : QuantizedTensor) : Prop where
  scheme_eq : qt.scheme = scheme
  shape_eq : qt.shape = shape
  axis_eq : qt.axis = axis
  groupSize_eq : qt.groupSize = passedSize scheme
  q_eq : qt.q = (List.range values.length).map (codeAt scheme shape axis values)
  scales_eq : qt.scales = scalesOf scheme shape axis values
  zeros_eq : qt.zeros = zerosOf scheme shape axis values
  clampCount_eq : qt.stats.clampCount = (clampsOf scheme shape axis values).sum
  unitsPerRow_eq : qt.unitsPerRow = if scheme.granularity = .perTensor then 1
    else unitsOf (dimOf shape axis) (sizeOf scheme shape axis)
  valuesDequant_eq : qt.valuesDequant =
    (List.range values.length).map fun index => some (decodedAt scheme shape axis values index)

theorem prod_of_resolveShape {given : Option (List Nat)} {count : Nat} {shape : List Nat}
    (hshape : resolveShape given count = .ok shape) : shape.prod = count := by
  rw [resolveShape.eq_def] at hshape
  rcases given with - | given
  · cases hshape
    exact prod_singleton
  · simp only at hshape
    split_ifs at hshape with hcount
    cases hshape
    exact not_not.mp hcount

theorem pos_of_resolveShape {given : Option (List Nat)} {values : List ℚ} {shape : List Nat}
    (hshape : resolveShape given values.length = .ok shape) (hne : values ≠ []) :
    ∀ dim ∈ shape, 0 < dim := by
  intro dim hdim
  refine pos_of_ne_zero fun hzero => ?_
  have hprod : shape.prod = 0 := List.prod_eq_zero_iff_exists_zero_nat.mpr ⟨dim, hdim, hzero⟩
  exact hne (length_eq_zero_iff.mp ((prod_of_resolveShape hshape).symm.trans hprod))

theorem checkFinite_eq (values : List ℚ) (scheme : QuantScheme) :
    checkFinite (values.map some) scheme = .ok 0 := by
  have hnone : (values.map some).countP Option.isNone = 0 := by
    rw [countP_eq_zero]
    intro v hv
    obtain ⟨w, -, rfl⟩ := mem_map.mp hv
    exact Bool.false_ne_true
  rw [checkFinite, hnone, if_neg fun h => h.1 rfl]

section Call

variable {scheme : QuantScheme} {given : Option (List Nat)} {askedAxis : Option Int}
  {shape : List Nat} {axis : Nat} {values : List ℚ}
  (hshape : resolveShape given values.length = .ok shape)
  (haxisOk : normalizeAxis (askedAxis.getD scheme.axis) shape.length = .ok axis)
  (hpos : ∀ dim ∈ shape, 0 < dim)

theorem lt_of_normalizeAxis {asked : Int} {rank : Nat} (h : normalizeAxis asked rank = .ok axis) :
    axis < rank := by
  simp only [normalizeAxis] at h
  split_ifs at h
  all_goals
    cases h
    omega

include hshape haxisOk hpos

/-- **The quantiser** is its loop over the units. -/
theorem quantize_eq :
    (Encodable scheme shape axis values →
      ∃ qt, quantize (values.map some) scheme given askedAxis = .ok qt ∧
        Quantised scheme shape axis values qt) ∧
    (¬ Encodable scheme shape axis values →
      ∃ unit < unitTotal scheme shape axis,
        quantize (values.map some) scheme given askedAxis = .error .zeroDivision ∧
            Unscalable scheme (groupOf scheme shape axis values unit) ∨
          quantize (values.map some) scheme given askedAxis =
              .error (.constantGroup unit (lowest (groupOf scheme shape axis values unit))) ∧
            Refused scheme (groupOf scheme shape axis values unit)) := by
  have hcount := prod_of_resolveShape hshape
  have haxis := lt_of_normalizeAxis haxisOk
  have hlength : (values.map some).length = values.length := length_map _
  obtain ⟨tail, htail⟩ := tailLength_ok scheme hpos haxis
  obtain ⟨unitIndices, hunits, hkeys, hbuckets⟩ := bucketUnits_eq scheme hpos haxis
  rw [hcount] at hunits hbuckets
  have hrounder := getRounder_of_isRtn scheme.legal.rtn false
  have hrow := unitsPerRow_eq scheme hpos haxis
  have hdim : shape.getD axis 0 = dimOf shape axis := rfl
  -- the checks pass, and the loop decides
  have herror : ∀ e, encodeUnits scheme scheme.roundMode.rounder (values.map some) unitIndices =
      .error e → quantize (values.map some) scheme given askedAxis = .error e := by
    intro e he
    simp only [quantize, hlength, hshape, haxisOk, checkFinite_eq, hrounder, bind, Except.bind,
      hdim, hrow, ← passedSize.eq_def, htail, hunits, he]
  constructor
  · intro hencodable
    obtain ⟨s, hs, hq, hscales, hzeros, hclamps⟩ :=
      encodeUnits_ok hpos haxis hcount hkeys hbuckets hencodable
    have hdecode := dequantizeFlat_eq scheme hpos haxis hcount
    rw [← hq, ← hscales, ← hzeros] at hdecode
    simp only [quantize, hlength, hshape, haxisOk, checkFinite_eq, hrounder, bind, Except.bind,
      hdim, hrow, ← passedSize.eq_def, htail, hunits, hs, hdecode]
    exact ⟨_, rfl, rfl, rfl, rfl, rfl, hq, hscales, hzeros, hclamps, rfl, rfl⟩
  · intro hnot
    obtain ⟨unit, hunit, hstop⟩ := encodeUnits_error hpos haxis hcount hkeys hbuckets hnot
    refine ⟨unit, hunit, ?_⟩
    rcases hstop with ⟨he, hunscalable⟩ | ⟨he, hrefused⟩
    · exact .inl ⟨herror _ he, hunscalable⟩
    · exact .inr ⟨herror _ he, hrefused⟩

/-- What a call returns, it has gone through its loop for. -/
theorem quantised_of_ok {qt : QuantizedTensor}
    (h : quantize (values.map some) scheme given askedAxis = .ok qt) :
    Encodable scheme shape axis values ∧ Quantised scheme shape axis values qt := by
  obtain ⟨hok, herror⟩ := quantize_eq hshape haxisOk hpos
  by_cases hencodable : Encodable scheme shape axis values
  · obtain ⟨qt', hqt', hquantised⟩ := hok hencodable
    cases h.symm.trans hqt'
    exact ⟨hencodable, hquantised⟩
  · obtain ⟨unit, -, ⟨he, -⟩ | ⟨he, -⟩⟩ := herror hencodable
    all_goals
      rw [h] at he
      cases he

end Call

namespace Quantised

variable {scheme : QuantScheme} {shape : List Nat} {axis : Nat} {values : List ℚ}
  {qt : QuantizedTensor}

section

variable (h : Quantised scheme shape axis values qt)

include h

theorem length_q : qt.q.length = values.length := by
  rw [h.q_eq, length_map, length_range]

theorem length_scales : qt.scales.length = unitTotal scheme shape axis := by
  rw [h.scales_eq, scalesOf, length_map, length_range]

theorem getElem?_q {index : Nat}
    (hindex : index < values.length) :
    qt.q[index]? = some (codeAt scheme shape axis values index) := by
  rw [h.q_eq, List.getElem?_map, List.getElem?_range hindex]
  rfl

theorem getElem?_scales {unit : Nat}
    (hunit : unit < unitTotal scheme shape axis) :
    qt.scales[unit]? = some (some (stepOf scheme (groupOf scheme shape axis values unit))) := by
  rw [h.scales_eq, scalesOf, List.getElem?_map, List.getElem?_range hunit]
  rfl

theorem getElem?_valuesDequant {index : Nat}
    (hindex : index < values.length) :
    qt.valuesDequant[index]? = some (some (decodedAt scheme shape axis values index)) := by
  rw [h.valuesDequant_eq, List.getElem?_map, List.getElem?_range hindex]
  rfl

section

variable (hpos : ∀ dim ∈ shape, 0 < dim) (haxis : axis < shape.length)

include hpos haxis

theorem dequantize_eq (hcount : shape.prod = values.length) :
    dequantize qt = .ok qt.valuesDequant := by
  rw [dequantize, h.q_eq, h.scales_eq, h.zeros_eq, h.shape_eq, h.unitsPerRow_eq, h.scheme_eq,
    h.groupSize_eq, h.axis_eq, h.valuesDequant_eq]
  exact dequantizeFlat_eq scheme hpos haxis hcount

theorem unitOf_eq {index : Nat} (hindex : index < values.length) :
    qt.unitOf index = .ok (unitIndex scheme shape axis index) := by
  rw [QuantizedTensor.unitOf, h.length_q, if_neg (not_le.mpr hindex), h.scheme_eq, h.shape_eq,
    h.axis_eq, h.unitsPerRow_eq, h.groupSize_eq]
  exact unitFor_eq scheme hpos haxis index

theorem mem_membersOf_iff {unit index : Nat} : index ∈ membersOf scheme shape axis values unit ↔
      index < values.length ∧ qt.unitOf index = .ok unit := by
  rw [mem_membersOf]
  refine and_congr_right fun hindex => ?_
  rw [h.unitOf_eq hpos haxis hindex, Except.ok.injEq]

end

end

end Quantised

end Hqsb
