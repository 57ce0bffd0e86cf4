/-
Hqsb/Lib/BinaryFloat.lean

Binary floating-point formats, as words of a sign, an exponent field and a fraction.

`decode` gives the rational of a word, or `none` for an infinity or a NaN.  `encode` rounds a
rational to the grid at its magnitude; it is enough that the rounding leaves integers alone for
a number of the format to be given back (`decode_encode`).  The word of a positive number is its
multiple of the unit in the last place plus a `hidden` for every doubling of that unit, whether
the number is subnormal or not.
-/
import Hqsb.Lib.Cells

namespace Lib

open Cells

/-- The bits of the fraction and of the exponent field. -/
structure BinaryFloat where
  fraction : Nat
  exponent : Nat

def binary32 : BinaryFloat := ⟨23, 8⟩

def binary64 : BinaryFloat := ⟨52, 11⟩

namespace BinaryFloat

variable (f : BinaryFloat)

def least : Int := 2 - 2 ^ (f.exponent - 1) - f.fraction

def hidden : Nat := 2 ^ f.fraction

/-- The exponent field of what is not a number. -/
def top : Nat := 2 ^ f.exponent - 1

def sign : Nat := f.hidden * 2 ^ f.exponent

/-- The number of a word without its sign. -/
def value (w : Nat) : ℚ :=
  if w / f.hidden = 0 then (w : ℚ) * 2 ^ f.least
  else (f.hidden + w % f.hidden : Nat) * 2 ^ (f.least + (w / f.hidden - 1 : Nat))

def decode (word : Nat) : Option ℚ :=
  if word % f.sign / f.hidden = f.top then none
  else if word / f.sign % 2 = 1 then some (-f.value (word % f.sign))
  else some (f.value (word % f.sign))

/-- The exponent of the unit in the last place at a positive number. -/
def ulp (x : ℚ) : Int := max f.least (Int.log 2 x - f.fraction)

/-- The word of a positive number, which may be too large. -/
def magnitude (rnd : ℚ → Int) (x : ℚ) : Nat :=
  (rnd (x / 2 ^ f.ulp x)).toNat + (f.ulp x - f.least).toNat * f.hidden

/-- Round to a number of the format, if there is one. -/
def encode (rnd : ℚ → Int) (x : ℚ) : Option Nat :=
  let w := if x = 0 then 0 else f.magnitude rnd |x|
  if w / f.hidden < f.top then some (w + if x < 0 then f.sign else 0) else none

/-- A number of the format. -/
def Representable (x : ℚ) : Prop := ∃ word, f.decode word = some x

/-- A cell for numbers of the format; `none` stands for a NaN. -/
def cell (rnd : ℚ → Int) : Cell (Option ℚ) where
  width := (1 + f.exponent + f.fraction) / 8
  write x :=
    (match x with
      | none => some (f.top * f.hidden + f.hidden / 2)
      | some x => f.encode rnd x).map (toBytes ((1 + f.exponent + f.fraction) / 8))
  read bytes := f.decode (ofBytes bytes)

variable {f}

theorem hidden_pos : 0 < f.hidden := Nat.two_pow_pos _

/-! ### Logarithms -/

/-- The logarithm of a scaled integer. -/
theorem log_mul_zpow {m : Nat} (hm : 0 < m) (e : Int) :
    Int.log 2 ((m : ℚ) * 2 ^ e) = Nat.log 2 m + e := by
  have htwo : (2 : ℚ) ≠ 0 := two_ne_zero
  have hscale : (0 : ℚ) < 2 ^ e := zpow_pos two_pos e
  have hx : (0 : ℚ) < (m : ℚ) * 2 ^ e := mul_pos (Nat.cast_pos.mpr hm) hscale
  apply le_antisymm
  · -- below the next power
    have hlt : (m : ℚ) < 2 ^ (Nat.log 2 m + 1) := by
      exact_mod_cast Nat.lt_pow_succ_log_self Nat.one_lt_two m
    have hpower : (m : ℚ) * 2 ^ e < ((2 : Nat) : ℚ) ^ ((Nat.log 2 m : Int) + e + 1) := by
      calc (m : ℚ) * 2 ^ e < 2 ^ (Nat.log 2 m + 1) * 2 ^ e := mul_lt_mul_of_pos_right hlt hscale
        _ = 2 ^ ((Nat.log 2 m : Int) + 1) * 2 ^ e := by norm_cast
        _ = ((2 : Nat) : ℚ) ^ ((Nat.log 2 m : Int) + e + 1) := by
          rw [← zpow_add₀ htwo]
          ring_nf
    exact Int.lt_add_one_iff.mp ((Int.lt_zpow_iff_log_lt Nat.one_lt_two hx).mp hpower)
  · have hle : (2 : ℚ) ^ Nat.log 2 m ≤ m := by
      exact_mod_cast Nat.pow_log_le_self 2 hm.ne'
    have hpower : ((2 : Nat) : ℚ) ^ ((Nat.log 2 m : Int) + e) ≤ (m : ℚ) * 2 ^ e := by
      calc ((2 : Nat) : ℚ) ^ ((Nat.log 2 m : Int) + e) = 2 ^ (Nat.log 2 m : Int) * 2 ^ e := by
            rw [Nat.cast_ofNat, zpow_add₀ htwo]
        _ = 2 ^ Nat.log 2 m * 2 ^ e := by norm_cast
        _ ≤ (m : ℚ) * 2 ^ e := mul_le_mul_of_nonneg_right hle hscale.le
    exact (Int.zpow_le_iff_le_log Nat.one_lt_two hx).mp hpower

/-! ### Numbers of the format -/

theorem value_zero : f.value 0 = 0 := by simp [value]

theorem value_pos {w : Nat} (hw : 0 < w) : 0 < f.value w := by
  have hscale (e : Int) : (0 : ℚ) < 2 ^ e := zpow_pos two_pos e
  rw [value]
  split_ifs
  · exact mul_pos (Nat.cast_pos.mpr hw) (hscale _)
  · exact mul_pos (Nat.cast_pos.mpr (Nat.add_pos_left hidden_pos _)) (hscale _)

section Exact

variable {rnd : ℚ → Int} (hrnd : ∀ n : Int, rnd n = n)

include hrnd

theorem magnitude_mul {m : Nat} {e : Int} (hulp : f.ulp ((m : ℚ) * 2 ^ e) = e) :
    f.magnitude rnd ((m : ℚ) * 2 ^ e) = m + (e - f.least).toNat * f.hidden := by
  have hscale : (2 : ℚ) ^ e ≠ 0 := zpow_ne_zero e two_ne_zero
  have hint : ((m : ℚ)) = ((m : Int) : ℚ) := (Int.cast_natCast m).symm
  rw [magnitude, hulp, mul_div_cancel_right₀ _ hscale, hint, hrnd, Int.toNat_natCast]

/-- **The word of a number.** -/
theorem magnitude_value {w : Nat} (hw : 0 < w) : f.magnitude rnd (f.value w) = w := by
  rw [value]
  split_ifs with hfield
  · -- a subnormal number lies below the first doubling
    have hlog : Nat.log 2 w < f.fraction := by
      apply Nat.log_lt_of_lt_pow hw.ne'
      exact Nat.lt_of_div_eq_zero hidden_pos hfield
    have hulp : f.ulp ((w : ℚ) * 2 ^ f.least) = f.least := by
      rw [ulp, log_mul_zpow hw]
      omega
    rw [magnitude_mul hrnd hulp]
    simp
  · have hpos : 0 < f.hidden + w % f.hidden := Nat.add_pos_left hidden_pos _
    have hlt : w % f.hidden < f.hidden := Nat.mod_lt w hidden_pos
    have hlog : Nat.log 2 (f.hidden + w % f.hidden) = f.fraction := by
      apply Nat.log_eq_of_pow_le_of_lt_pow
      · exact Nat.le_add_right _ _
      · rw [pow_succ]
        show _ < f.hidden * 2
        omega
    have hulp : f.ulp ((f.hidden + w % f.hidden : Nat) *
        2 ^ (f.least + (w / f.hidden - 1 : Nat))) = f.least + (w / f.hidden - 1 : Nat) := by
      rw [ulp, log_mul_zpow hpos]
      omega
    have hword : f.hidden + w % f.hidden + (w / f.hidden - 1) * f.hidden = w := by
      have hdiv := Nat.div_add_mod' w f.hidden
      obtain ⟨k, hk⟩ := Nat.exists_eq_succ_of_ne_zero hfield
      rw [hk, Nat.succ_mul] at hdiv
      rw [hk, Nat.succ_sub_one]
      omega
    rw [magnitude_mul hrnd hulp, add_sub_cancel_left, Int.toNat_natCast, hword]

/-- **A number of the format** is encoded exactly. -/
theorem decode_encode {x : ℚ} (h : f.Representable x) :
    ∃ word < 2 * f.sign, f.encode rnd x = some word ∧ f.decode word = some x := by
  obtain ⟨given, hgiven⟩ := h
  have hsign : 0 < f.sign := Nat.mul_pos hidden_pos (Nat.two_pow_pos _)
  rw [decode] at hgiven
  generalize hw : given % f.sign = w at hgiven
  have hlt : w < f.sign := hw ▸ Nat.mod_lt given hsign
  split_ifs at hgiven with htop hnegative
  all_goals
    have hfield : w / f.hidden < f.top := by
      have hle : w / f.hidden < 2 ^ f.exponent := Nat.div_lt_of_lt_mul hlt
      rw [top] at htop ⊢
      omega
  all_goals obtain rfl := Option.some.inj hgiven
  all_goals rcases Nat.eq_zero_or_pos w with rfl | hpos
  · refine ⟨0, by omega, ?_, ?_⟩
    · rw [Nat.zero_div] at hfield
      simp [encode, value_zero, hfield]
    · rw [Nat.zero_div] at htop
      simp [decode, value_zero, htop]
  · have hvalue := value_pos (f := f) hpos
    refine ⟨w + f.sign, by omega, ?_, ?_⟩
    · simp [encode, abs_of_pos hvalue, hvalue.ne', hvalue, magnitude_value hrnd hpos, hfield]
    · have hmod : (w + f.sign) % f.sign = w := by rw [Nat.add_mod_right, Nat.mod_eq_of_lt hlt]
      have hdiv : (w + f.sign) / f.sign = 1 := by
        rw [Nat.add_div_right w hsign, Nat.div_eq_of_lt hlt]
      rw [decode, hmod, hdiv, if_neg htop, if_pos rfl]
  · refine ⟨0, by omega, ?_, ?_⟩
    · rw [Nat.zero_div] at hfield
      simp [encode, value_zero, hfield]
    · rw [Nat.zero_div] at htop
      simp [decode, value_zero, htop]
  · have hvalue := value_pos (f := f) hpos
    refine ⟨w, by omega, ?_, ?_⟩
    · simp [encode, abs_of_pos hvalue, hvalue.ne', hvalue.le.not_gt, magnitude_value hrnd hpos,
        hfield]
    · rw [decode, Nat.mod_eq_of_lt hlt, Nat.div_eq_of_lt hlt, if_neg htop, if_neg (by decide)]

theorem cell_keeps (hbytes : 2 * f.sign = 256 ^ ((1 + f.exponent + f.fraction) / 8)) {x : ℚ}
    (h : f.Representable x) : (f.cell rnd).Keeps (some x) := by
  obtain ⟨word, hword, hencode, hdecode⟩ := decode_encode hrnd h
  refine ⟨toBytes ((1 + f.exponent + f.fraction) / 8) word, ?_, length_toBytes _ _, ?_⟩
  · show (f.encode rnd x).map _ = _
    rw [hencode, Option.map_some]
  · show f.decode (ofBytes _) = _
    rw [ofBytes_toBytes (hbytes ▸ hword), hdecode]

end Exact

end BinaryFloat

end Lib
