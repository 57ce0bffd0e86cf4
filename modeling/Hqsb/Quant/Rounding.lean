/-
Hqsb/Quant/Rounding.lean

The round modes of the quantisation, on exact rationals.

The two modes that may be called round-to-nearest differ on ties only, and both give an
integer that is nearest in the sense of `Lib.IsNearest`.  Truncation and floor are for
diagnostics; `getRounder` hands them out on demand only.
-/
import Hqsb.Lib.Nearest

namespace Hqsb

open Lib

inductive RoundMode
  | nearestEven
  | halfAwayFromZero
  | trunc
  | floor
  deriving DecidableEq

/-- What the quantisation raises.  All but the last two are a `ConfigError`. -/
inductive QuantError
  | bitsOutOfRange (bits : Nat)
  | unknownRoundMode (mode : RoundMode)
  | notRtn (mode : RoundMode)
  /-- A `group_size` where the granularity has none. -/
  | unusedGroupSize (groupSize : Nat)
  | missingGroupSize
  | groupSizeNotPositive (groupSize : Nat)
  | symmetricTwosComplement
  | asymmetricSymmetricRange
  | computeDtype (dtype : String)
  | emptyLabel
  | rankZero
  | axisOutOfRange (axis : Int) (rank : Nat)
  | shapeMismatch (shape : List Nat) (expected actual : Nat)
  | nonfiniteInput (count : Nat)
  | constantGroup (unitIndex : Nat) (value : ℚ)
  | invalidShape (shape : List Nat)
  | unitWithoutScale (index unit scales : Nat)
  | zeroDivision
  | indexError
  deriving DecidableEq

/-- The error is one of the documented refusals. -/
def QuantError.isConfig : QuantError → Bool
  | zeroDivision | indexError => false
  | _ => true

def roundNearestEven (value : ℚ) : Int :=
  let lower := ⌊value⌋
  let rest := value - lower
  if rest > 1 / 2 then lower + 1
  else if rest < 1 / 2 then lower
  else if lower % 2 = 0 then lower
  else lower + 1

/-- Round half away from zero: `2.5 -> 3`, `-2.5 -> -3`. -/
def roundHalfAwayFromZero (value : ℚ) : Int :=
  let magnitude := |value|
  let lower := ⌊magnitude⌋
  let rest := magnitude - lower
  let rounded :=
    if rest > 1 / 2 then lower + 1
    else if rest < 1 / 2 then lower
    else lower + 1
  if value ≥ 0 then rounded else -rounded

/-- Truncate towards zero. -/
def roundTrunc (value : ℚ) : Int := if value ≥ 0 then ⌊value⌋ else -⌊-value⌋

def roundFloor (value : ℚ) : Int := ⌊value⌋

namespace RoundMode

def isRtn : RoundMode → Bool
  | nearestEven | halfAwayFromZero => true
  | trunc | floor => false

def rounder : RoundMode → ℚ → Int
  | nearestEven => roundNearestEven
  | halfAwayFromZero => roundHalfAwayFromZero
  | trunc => roundTrunc
  | floor => roundFloor

end RoundMode

/-- The rounder of a mode; diagnostics have to be asked for. -/
def getRounder (mode : RoundMode) (allowNonRtn : Bool) : Except QuantError (ℚ → Int) :=
  if mode.isRtn = false ∧ allowNonRtn = false then .error (.notRtn mode)
  else .ok mode.rounder

theorem getRounder_of_isRtn {mode : RoundMode} (h : mode.isRtn) (allowNonRtn : Bool) :
    getRounder mode allowNonRtn = .ok mode.rounder := by
  rw [getRounder, h, if_neg fun h => nomatch h.1]

/-! ### Both modes round to a nearest integer -/

theorem isNearest_roundNearestEven (value : ℚ) : IsNearest value (roundNearestEven value) := by
  rw [roundNearestEven]
  split_ifs with habove hbelow heven
  · exact IsNearest.floor_add_one habove.le
  · exact IsNearest.floor hbelow.le
  · exact IsNearest.floor (not_lt.mp habove)
  · exact IsNearest.floor_add_one (not_lt.mp hbelow)

theorem isNearest_roundHalfAwayFromZero (value : ℚ) :
    IsNearest value (roundHalfAwayFromZero value) := by
  have hmagnitude : ∀ x : ℚ, IsNearest x
      (if x - ⌊x⌋ > 1 / 2 then ⌊x⌋ + 1 else if x - ⌊x⌋ < 1 / 2 then ⌊x⌋ else ⌊x⌋ + 1) := by
    intro x
    split_ifs with habove hbelow
    · exact IsNearest.floor_add_one habove.le
    · exact IsNearest.floor hbelow.le
    · exact IsNearest.floor_add_one (not_lt.mp hbelow)
  rw [roundHalfAwayFromZero]
  rcases le_or_gt 0 value with hsign | hsign
  · rw [if_pos hsign, abs_of_nonneg hsign]
    exact hmagnitude value
  · rw [if_neg (not_le.mpr hsign), abs_of_neg hsign]
    simpa only [neg_neg] using (hmagnitude (-value)).neg

/-- **Round to nearest**, in every mode that may be called so. -/
theorem RoundMode.isNearest {mode : RoundMode} (h : mode.isRtn) (value : ℚ) :
    IsNearest value (mode.rounder value) := by
  cases mode with
  | nearestEven => exact isNearest_roundNearestEven value
  | halfAwayFromZero => exact isNearest_roundHalfAwayFromZero value
  | trunc => cases h
  | floor => cases h

end Hqsb
