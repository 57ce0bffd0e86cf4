/-
Hqsb/Quant/UnitCoding.lean

One quantisation unit of finite values.

The values of a unit have a step and a zero point, and `encodeUnit` codes each of them as

    clamp (round (v / step) + zeroPoint),

unless the unit is flat, in which case all codes are zero, or it cannot be encoded: at one
symmetric bit there is no positive code to scale a magnitude by, and a scheme may refuse
constant units.  What is not clamped is decoded to within half a step; what a symmetric unit
of two or more bits holds is never clamped.
-/
import Hqsb.Quant.Rtn

namespace Hqsb

open Lib List

section Extremes

variable (group : List ℚ)

def magnitude : ℚ := (group.map fun v => |v|).max?.getD 0

def lowest : ℚ := group.min?.getD 0

def highest : ℚ := group.max?.getD 0

variable {group}

theorem reduceOption_map_some : (group.map some).reduceOption = group := by
  simp [List.reduceOption]

theorem amaxOf_map_some (hne : group ≠ []) : amaxOf (group.map some) = some (magnitude group) := by
  rw [amaxOf, reduceOption_map_some, if_neg fun h => hne h.2]
  rfl

theorem min?_eq_lowest (hne : group ≠ []) : group.min? = some (lowest group) := by
  obtain ⟨v, hv⟩ := Option.isSome_iff_exists.mp (isSome_min?_of_ne_nil hne)
  rw [lowest, hv, Option.getD_some]

theorem max?_eq_highest (hne : group ≠ []) : group.max? = some (highest group) := by
  obtain ⟨v, hv⟩ := Option.isSome_iff_exists.mp (isSome_max?_of_ne_nil hne)
  rw [highest, hv, Option.getD_some]

theorem le_highest {v : ℚ} (hv : v ∈ group) : v ≤ highest group :=
  (List.max?_eq_some_iff.mp (max?_eq_highest (ne_nil_of_mem hv))).2 v hv

theorem lowest_mem (hne : group ≠ []) : lowest group ∈ group :=
  (List.min?_eq_some_iff.mp (min?_eq_lowest hne)).1

theorem abs_le_magnitude {v : ℚ} (hv : v ∈ group) : |v| ≤ magnitude group := by
  have hmem : |v| ∈ group.map fun v => |v| := mem_map.mpr ⟨v, hv, rfl⟩
  exact le_highest hmem

theorem magnitude_nonneg : 0 ≤ magnitude group := by
  rcases hgroup : group with - | ⟨v, rest⟩
  · exact le_rfl
  · exact (abs_nonneg v).trans (abs_le_magnitude mem_cons_self)

theorem magnitude_eq_zero_iff : magnitude group = 0 ↔ ∀ v ∈ group, v = 0 := by
  constructor
  · intro h v hv
    have hle := abs_le_magnitude hv
    rw [h] at hle
    exact abs_nonpos_iff.mp hle
  · intro h
    rcases eq_or_ne group [] with rfl | hne
    · rfl
    · have hmap : group.map (fun v => |v|) ≠ [] := mt map_eq_nil_iff.mp hne
      obtain ⟨v, hv, heq⟩ := mem_map.mp (List.max?_eq_some_iff.mp (max?_eq_highest hmap)).1
      show highest (group.map fun v => |v|) = 0
      rw [← heq, h v hv, abs_zero]

end Extremes

/-! ### The parameters of a unit -/

section Parameters

variable (scheme : QuantScheme) (group : List ℚ)

/-- The unit has nothing to scale by: no magnitude, or no span. -/
def Flat : Prop :=
  if scheme.symmetric then magnitude group = 0 else highest group = lowest group

instance : Decidable (Flat scheme group) := by
  unfold Flat
  infer_instance

def stepOf : ℚ :=
  if Flat scheme group then zeroGroupScale scheme
  else if scheme.symmetric then magnitude group / scheme.qmaxPositive
  else (highest group - lowest group) / (scheme.qmax - scheme.qmin : Int)

def zeroPoint : Int :=
  if scheme.symmetric ∨ Flat scheme group then 0
  else max scheme.qmin (min scheme.qmax
    (scheme.roundMode.rounder (scheme.qmin - lowest group / stepOf scheme group)))

/-- The code of a value, and whether it was clamped. -/
def codeOf (v : ℚ) : Int × Nat :=
  if Flat scheme group then (0, 0)
  else code scheme scheme.roundMode.rounder (some v) (some (stepOf scheme group))
    (zeroPoint scheme group)

/-- A magnitude at one symmetric bit, where the largest code is zero. -/
def Unscalable : Prop := scheme.symmetric ∧ scheme.bits = 1 ∧ magnitude group ≠ 0

def Refused : Prop :=
  scheme.symmetric = false ∧ Flat scheme group ∧ scheme.constantGroupPolicy = .reject

instance : Decidable (Unscalable scheme group) := by
  unfold Unscalable
  infer_instance

instance : Decidable (Refused scheme group) := by
  unfold Refused
  infer_instance

def unitCodeOf : UnitCode where
  scale := some (stepOf scheme group)
  zero := zeroPoint scheme group
  codes := group.map fun v => (codeOf scheme group v).1
  clamps := (group.map fun v => (codeOf scheme group v).2).sum
  zeroGroup := scheme.symmetric ∧ Flat scheme group
  constantGroup := scheme.symmetric = false ∧ Flat scheme group

end Parameters

namespace QuantScheme

variable (scheme : QuantScheme)

theorem qmaxPositive_pos (h : scheme.bits ≠ 1) : 0 < scheme.qmaxPositive := by
  have hbits := scheme.legal.bits
  have hexponent : scheme.bits - 1 ≠ 0 := by omega
  have hpow : (1 : Int) < 2 ^ (scheme.bits - 1) := one_lt_pow₀ (by decide) hexponent
  rw [qmaxPositive]
  omega

theorem qmaxPositive_eq_zero_iff : scheme.qmaxPositive = 0 ↔ scheme.bits = 1 := by
  constructor
  · intro h
    by_contra hbits
    exact (scheme.qmaxPositive_pos hbits).ne' h
  · intro h
    rw [qmaxPositive, h]
    rfl

theorem qmin_lt_qmax (h : scheme.symmetric = false) : scheme.qmin < scheme.qmax := by
  have hpos : (0 : Int) < 2 ^ (scheme.bits - 1) := by positivity
  rw [qmin, qmax, scheme.range_asymmetric h]
  show (-2 ^ (scheme.bits - 1) : Int) < 2 ^ (scheme.bits - 1) - 1
  omega

end QuantScheme

theorem zeroGroupScale_pos (scheme : QuantScheme) : 0 < zeroGroupScale scheme := by
  rw [zeroGroupScale.eq_def]
  rcases scheme.zeroGroupPolicy with - | -
  · exact one_pos
  · rcases scheme.scaleDtype with - | - | -
    all_goals
      show (0 : ℚ) < 1 / 2 ^ _
      positivity

section Encode

variable {scheme : QuantScheme} {group : List ℚ}

theorem flat_of_symmetric (h : scheme.symmetric) : Flat scheme group ↔ magnitude group = 0 := by
  rw [Flat, if_pos h]

theorem flat_of_asymmetric (h : scheme.symmetric = false) :
    Flat scheme group ↔ highest group = lowest group := by
  rw [Flat, if_neg (Bool.eq_false_iff.mp h)]

theorem stepOf_of_symmetric (h : scheme.symmetric) (hflat : ¬ Flat scheme group) :
    stepOf scheme group = magnitude group / scheme.qmaxPositive := by
  rw [stepOf, if_neg hflat, if_pos h]

theorem stepOf_of_asymmetric (h : scheme.symmetric = false) (hflat : ¬ Flat scheme group) :
    stepOf scheme group = (highest group - lowest group) / (scheme.qmax - scheme.qmin : Int) := by
  rw [stepOf, if_neg hflat, if_neg (Bool.eq_false_iff.mp h)]

theorem zeroPoint_of_symmetric (h : scheme.symmetric) (group : List ℚ) :
    zeroPoint scheme group = 0 := if_pos (.inl h)

theorem zeroPoint_of_flat (h : Flat scheme group) : zeroPoint scheme group = 0 := if_pos (.inr h)

theorem zeroPoint_of_asymmetric (h : scheme.symmetric = false) (hflat : ¬ Flat scheme group) :
    zeroPoint scheme group = max scheme.qmin (min scheme.qmax
      (scheme.roundMode.rounder (scheme.qmin - lowest group / stepOf scheme group))) := by
  rw [zeroPoint, if_neg]
  rintro (hsymmetric | hflat')
  · exact Bool.eq_false_iff.mp h hsymmetric
  · exact hflat hflat'

theorem codeUnit_eq (h : ¬ Flat scheme group) :
    codeUnit scheme scheme.roundMode.rounder (group.map some) (some (stepOf scheme group))
      (zeroPoint scheme group) = unitCodeOf scheme group := by
  have hsymmetric : decide (scheme.symmetric = true ∧ Flat scheme group) = false :=
    decide_eq_false fun hflat => h hflat.2
  have hasymmetric : decide (scheme.symmetric = false ∧ Flat scheme group) = false :=
    decide_eq_false fun hflat => h hflat.2
  rw [codeUnit, unitCodeOf, hsymmetric, hasymmetric]
  simp [codeOf, if_neg h, Function.comp_def]

theorem zeroUnit_eq (h : Flat scheme group) :
    zeroUnit (group.map some) (some (zeroGroupScale scheme)) scheme.symmetric
      (!scheme.symmetric) = unitCodeOf scheme group := by
  rw [zeroUnit, unitCodeOf, stepOf, if_pos h, zeroPoint_of_flat h]
  rcases hsymmetric : scheme.symmetric <;> simp [codeOf, h, Function.comp_def]

/-- At one symmetric bit a magnitude divides by zero. -/
theorem encodeSymmetric_eq (hsymmetric : scheme.symmetric) (hne : group ≠ []) :
    encodeSymmetric scheme scheme.roundMode.rounder (group.map some) =
      if Unscalable scheme group then .error .zeroDivision
      else .ok (unitCodeOf scheme group) := by
  have hflat : Flat scheme group ↔ magnitude group = 0 := flat_of_symmetric hsymmetric
  rw [encodeSymmetric, amaxOf_map_some hne]
  simp only [Unscalable, hsymmetric, true_and]
  by_cases hzero : magnitude group = 0
  · rw [if_pos hzero, if_neg (fun h => h.2 hzero), ← zeroUnit_eq (hflat.mpr hzero), hsymmetric]
    rfl
  · have hspan := mt hflat.mp hzero
    rw [if_neg hzero, ← codeUnit_eq hspan, stepOf_of_symmetric hsymmetric hspan,
      zeroPoint_of_symmetric hsymmetric]
    simp only [scheme.qmaxPositive_eq_zero_iff, ne_eq, hzero, not_false_eq_true, and_true]

theorem encodeAsymmetric_eq (hsymmetric : scheme.symmetric = false) (hne : group ≠ [])
    (unitIndex : Nat) :
    encodeAsymmetric scheme scheme.roundMode.rounder unitIndex (group.map some) =
      if Refused scheme group then .error (.constantGroup unitIndex (lowest group))
      else .ok (unitCodeOf scheme group) := by
  have hflat : Flat scheme group ↔ highest group = lowest group := flat_of_asymmetric hsymmetric
  rw [encodeAsymmetric, reduceOption_map_some, min?_eq_lowest hne, max?_eq_highest hne]
  simp only [Refused, hsymmetric, true_and, hflat]
  by_cases hconstant : highest group = lowest group
  · rw [← zeroUnit_eq (hflat.mpr hconstant), hsymmetric]
    simp only [hconstant, true_and]
    rfl
  · have hrange : ¬ scheme.qmax - scheme.qmin = 0 :=
      (Int.sub_pos_of_lt (scheme.qmin_lt_qmax hsymmetric)).ne'
    have hspan := mt hflat.mp hconstant
    rw [if_neg hconstant, if_neg hrange, if_neg fun h => hconstant h.1, ← codeUnit_eq hspan,
      zeroPoint_of_asymmetric hsymmetric hspan, stepOf_of_asymmetric hsymmetric hspan]

/-- **The outcome of a unit** of finite values. -/
theorem encodeUnit_eq (hne : group ≠ []) (unitIndex : Nat) :
    encodeUnit scheme scheme.roundMode.rounder unitIndex (group.map some) =
      if Unscalable scheme group then .error .zeroDivision
      else if Refused scheme group then .error (.constantGroup unitIndex (lowest group))
      else .ok (unitCodeOf scheme group) := by
  rw [encodeUnit]
  rcases hsymmetric : scheme.symmetric
  · have hscalable : ¬ Unscalable scheme group := fun h =>
      Bool.false_ne_true (hsymmetric.symm.trans h.1)
    rw [if_neg Bool.false_ne_true, encodeAsymmetric_eq hsymmetric hne, if_neg hscalable]
  · have haccepted : ¬ Refused scheme group := fun h =>
      Bool.false_ne_true (h.1.symm.trans hsymmetric)
    rw [if_pos rfl, encodeSymmetric_eq hsymmetric hne, if_neg haccepted]

/-! ### Codes of a unit that can be encoded -/

theorem stepOf_pos (h : ¬ Unscalable scheme group) (hne : group ≠ []) :
    0 < stepOf scheme group := by
  rw [stepOf]
  split_ifs with hflat hsymmetric
  · exact zeroGroupScale_pos scheme
  · have hmagnitude : magnitude group ≠ 0 := mt (flat_of_symmetric hsymmetric).mpr hflat
    have hbits : scheme.bits ≠ 1 := fun hone => h ⟨hsymmetric, hone, hmagnitude⟩
    have hpositive := scheme.qmaxPositive_pos hbits
    have hpos : 0 < magnitude group := lt_of_le_of_ne magnitude_nonneg hmagnitude.symm
    positivity
  · have hasymmetric := Bool.eq_false_iff.mpr hsymmetric
    have hspan : lowest group < highest group :=
      lt_of_le_of_ne (le_highest (lowest_mem hne))
        (Ne.symm (mt (flat_of_asymmetric hasymmetric).mpr hflat))
    have hrange := Int.sub_pos_of_lt (scheme.qmin_lt_qmax hasymmetric)
    positivity

def rawCode (scheme : QuantScheme) (group : List ℚ) (v : ℚ) : Int :=
  scheme.roundMode.rounder (v / stepOf scheme group) + zeroPoint scheme group

/-- All codes are in range, and clamping happens to the others. -/
theorem codeOf_spec (hstep : 0 < stepOf scheme group) (hflat : ¬ Flat scheme group) (v : ℚ) :
    (codeOf scheme group v = (rawCode scheme group v, 0) ∧
      scheme.qmin ≤ rawCode scheme group v ∧ rawCode scheme group v ≤ scheme.qmax) ∨
    ((codeOf scheme group v).2 = 1 ∧
      ¬ (scheme.qmin ≤ rawCode scheme group v ∧ rawCode scheme group v ≤ scheme.qmax) ∧
      scheme.qmin ≤ (codeOf scheme group v).1 ∧ (codeOf scheme group v).1 ≤ scheme.qmax) := by
  have hrange : scheme.qmin ≤ scheme.qmax := scheme.qmin_bounds.2.trans scheme.qmax_nonneg
  rw [codeOf, code]
  simp only [if_neg (not_le.mpr hstep)]
  split_ifs with habove hbelow
  · exact .inr ⟨rfl, fun h => absurd h.2 (not_le.mpr habove), hrange, le_rfl⟩
  · exact .inr ⟨rfl, fun h => absurd h.1 (not_le.mpr hbelow), le_rfl, hrange⟩
  · exact .inl ⟨rfl, not_lt.mp hbelow, not_lt.mp habove⟩

theorem codeOf_of_flat (hflat : Flat scheme group) (v : ℚ) : codeOf scheme group v = (0, 0) :=
  if_pos hflat

theorem codeOf_in_range (h : ¬ Unscalable scheme group) (hne : group ≠ []) (v : ℚ) :
    scheme.qmin ≤ (codeOf scheme group v).1 ∧ (codeOf scheme group v).1 ≤ scheme.qmax := by
  by_cases hflat : Flat scheme group
  · rw [codeOf_of_flat hflat]
    exact ⟨scheme.qmin_bounds.2, scheme.qmax_nonneg⟩
  · rcases codeOf_spec (stepOf_pos h hne) hflat v with ⟨hcode, hrange⟩ | ⟨-, -, hrange⟩
    · rw [hcode]
      exact hrange
    · exact hrange

/-- **Some value of the unit is clamped.** -/
def Saturates (scheme : QuantScheme) (group : List ℚ) : Prop :=
  ¬ Flat scheme group ∧
    ∃ v ∈ group, ¬ (scheme.qmin ≤ rawCode scheme group v ∧ rawCode scheme group v ≤ scheme.qmax)

theorem clamps_eq_zero_iff (h : ¬ Unscalable scheme group) (hne : group ≠ []) :
    (unitCodeOf scheme group).clamps = 0 ↔ ¬ Saturates scheme group := by
  have hclamps : (unitCodeOf scheme group).clamps = 0 ↔
      ∀ v ∈ group, (codeOf scheme group v).2 = 0 := by
    rw [unitCodeOf, sum_eq_zero_iff]
    exact forall_mem_map
  rw [hclamps, Saturates]
  by_cases hflat : Flat scheme group
  · exact ⟨fun _ hnot => hnot.1 hflat, fun _ v _ => congrArg Prod.snd (codeOf_of_flat hflat v)⟩
  · have hspec := codeOf_spec (stepOf_pos h hne) hflat
    constructor
    · rintro hzero ⟨-, v, hv, hout⟩
      rcases hspec v with ⟨-, hrange⟩ | ⟨hone, -⟩
      · exact hout hrange
      · exact absurd ((hzero v hv).symm.trans hone) Nat.zero_ne_one
    · intro hnot v hv
      rcases hspec v with ⟨hcode, -⟩ | ⟨-, hout, -⟩
      · rw [hcode]
      · exact absurd ⟨hflat, v, hv, hout⟩ hnot

def decodedOf (scheme : QuantScheme) (group : List ℚ) (v : ℚ) : ℚ :=
  stepOf scheme group * ((codeOf scheme group v).1 - zeroPoint scheme group : Int)

theorem decodedOf_of_flat (hflat : Flat scheme group) (v : ℚ) : decodedOf scheme group v = 0 := by
  rw [decodedOf, codeOf_of_flat hflat, zeroPoint_of_flat hflat]
  simp

/-- **Half a step.**  The zero point cancels, wherever it was clamped to. -/
theorem abs_sub_decodedOf_le (h : ¬ Unscalable scheme group) (hflat : ¬ Flat scheme group)
    (hcalm : ¬ Saturates scheme group) {v : ℚ} (hv : v ∈ group) :
    |v - decodedOf scheme group v| ≤ stepOf scheme group / 2 := by
  have hstep := stepOf_pos h (ne_nil_of_mem hv)
  rcases codeOf_spec hstep hflat v with ⟨hcode, -⟩ | ⟨-, hout, -⟩
  · rw [decodedOf, hcode, rawCode, add_sub_cancel_right]
    exact (RoundMode.isNearest scheme.legal.rtn _).abs_sub_mul_le hstep
  · exact absurd ⟨hflat, v, hv, hout⟩ hcalm

/-! ### Symmetric units -/

/-- A symmetric unit is never clamped: no magnitude is past that of the full-scale code. -/
theorem not_saturates_of_symmetric (hsymmetric : scheme.symmetric)
    (h : ¬ Unscalable scheme group) : ¬ Saturates scheme group := by
  rintro ⟨hflat, v, hv, hout⟩
  apply hout
  have hmagnitude : magnitude group ≠ 0 := mt (flat_of_symmetric hsymmetric).mpr hflat
  have hpos : 0 < magnitude group := lt_of_le_of_ne magnitude_nonneg hmagnitude.symm
  have hbits : scheme.bits ≠ 1 := fun hone => h ⟨hsymmetric, hone, hmagnitude⟩
  have hfull : (0 : ℚ) < scheme.qmaxPositive := by exact_mod_cast scheme.qmaxPositive_pos hbits
  -- the scaled value lies between the two full-scale codes
  have hscaled : |v / stepOf scheme group| ≤ scheme.qmaxPositive := by
    rw [stepOf_of_symmetric hsymmetric hflat, abs_div, abs_of_pos (div_pos hpos hfull),
      div_div_eq_mul_div, div_le_iff₀ hpos,
      mul_comm]
    exact mul_le_mul_of_nonneg_left (abs_le_magnitude hv) hfull.le
  have hnearest := RoundMode.isNearest scheme.legal.rtn (v / stepOf scheme group)
  obtain ⟨hlow, hhigh⟩ := abs_le.mp hscaled
  rw [rawCode, zeroPoint_of_symmetric hsymmetric, add_zero, QuantScheme.qmin, QuantScheme.qmax,
    scheme.range_symmetric hsymmetric]
  constructor
  · apply hnearest.ge
    exact hlow
  · exact hnearest.le hhigh

/-- What a symmetric unit holds comes back to within half a step, flat or not. -/
theorem abs_sub_decodedOf_le_of_symmetric (hsymmetric : scheme.symmetric)
    (h : ¬ Unscalable scheme group) {v : ℚ} (hv : v ∈ group) :
    |v - decodedOf scheme group v| ≤ stepOf scheme group / 2 := by
  by_cases hflat : Flat scheme group
  · have hzero : v = 0 :=
      magnitude_eq_zero_iff.mp ((flat_of_symmetric hsymmetric).mp hflat) v hv
    rw [decodedOf_of_flat hflat, hzero, sub_zero, abs_zero]
    exact (half_pos (stepOf_pos h (ne_nil_of_mem hv))).le
  · exact abs_sub_decodedOf_le h hflat (not_saturates_of_symmetric hsymmetric h) hv

end Encode

end Hqsb
