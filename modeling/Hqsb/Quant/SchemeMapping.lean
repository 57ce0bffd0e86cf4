/-
Hqsb/Quant/SchemeMapping.lean

The mapping of a scheme, in which it is stored and hashed.

A stored scheme is read and validated again, and a field that is not known is refused: whoever
stored a valid scheme gets it back (`QuantScheme.fromMapping_asDict`).
-/
import Hqsb.Core.DataClass
import Hqsb.Lib.Utf8
import Hqsb.Quant.Packing

namespace Hqsb

open Lib

/-! ### Names of the choices -/

def nameIn {α : Type} [DecidableEq α] (table : List (String × α)) (choice : α) : String :=
  ((table.find? fun e => e.2 = choice).map Prod.fst).getD ""

def Json.named? {α : Type} (table : List (String × α)) (value : Json) : Option α :=
  value.str?.bind fun name => table.lookup name

def Granularity.names : List (String × Granularity) :=
  [("per_tensor", .perTensor), ("per_channel", .perChannel), ("per_group", .perGroup)]

def RangePolicy.names : List (String × RangePolicy) :=
  [("symmetric", .symmetric), ("twos_complement", .twosComplement)]

def ZeroGroupPolicy.names : List (String × ZeroGroupPolicy) :=
  [("zero_group_scale_one", .scaleOne), ("zero_group_scale_min_positive", .scaleMinPositive)]

def ConstantGroupPolicy.names : List (String × ConstantGroupPolicy) :=
  [("constant_group_zero_code", .encodeZeroCode), ("constant_group_reject", .reject)]

def NaNPolicy.names : List (String × NaNPolicy) := [("reject", .reject), ("propagate", .propagate)]

def ScaleDtype.names : List (String × ScaleDtype) :=
  [("float16", .float16), ("float32", .float32), ("float64", .float64)]

def ZeroDtype.names : List (String × ZeroDtype) :=
  [("int8", .int8), ("int16", .int16), ("int32", .int32)]

def RoundMode.names : List (String × RoundMode) :=
  [("nearest_even", .nearestEven), ("half_away_from_zero", .halfAwayFromZero), ("trunc", .trunc),
    ("floor", .floor)]

/-! ### Mappings -/

/-- What makes a stored scheme invalid. -/
inductive SchemeError
  | unknownFields (fields : List String)
  | python (error : PythonError)
  | config (error : QuantError)

/-- An optional number, `None` being a value of its own. -/
def Json.optionNat? : Json → Option (Option Nat)
  | .null => some none
  | value => value.nat?.map some

def Json.ofOptionNat : Option Nat → Json
  | none => .null
  | some n => .num n

namespace SchemeFields

def mapping (s : SchemeFields) : Mapping :=
  [("bits", .num s.bits),
    ("range_policy", .str (nameIn RangePolicy.names s.rangePolicy)),
    ("symmetric", .bool s.symmetric),
    ("granularity", .str (nameIn Granularity.names s.granularity)),
    ("axis", .num s.axis),
    ("group_size", .ofOptionNat s.groupSize),
    ("round_mode", .str (nameIn RoundMode.names s.roundMode)),
    ("scale_dtype", .str (nameIn ScaleDtype.names s.scaleDtype)),
    ("zero_dtype", .str (nameIn ZeroDtype.names s.zeroDtype)),
    ("zero_group_policy", .str (nameIn ZeroGroupPolicy.names s.zeroGroupPolicy)),
    ("constant_group_policy", .str (nameIn ConstantGroupPolicy.names s.constantGroupPolicy)),
    ("nan_policy", .str (nameIn NaNPolicy.names s.nanPolicy)),
    ("compute_dtype", .str s.computeDtype),
    ("pack_version", .str s.packVersion),
    ("label", .str s.label)]

def known : List String := (mapping {}).map Prod.fst

/-- The fields of a scheme, with the defaults of those that are missing. -/
def read (m : Mapping) : Except PythonError SchemeFields := do
  let s : SchemeFields := {}
  pure {
    bits := ← m.read Json.nat? "bits" s.bits
    rangePolicy := ← m.read (Json.named? RangePolicy.names) "range_policy" s.rangePolicy
    symmetric := ← m.read Json.bool? "symmetric" s.symmetric
    granularity := ← m.read (Json.named? Granularity.names) "granularity" s.granularity
    axis := ← m.read Json.int? "axis" s.axis
    groupSize := ← m.read Json.optionNat? "group_size" s.groupSize
    roundMode := ← m.read (Json.named? RoundMode.names) "round_mode" s.roundMode
    scaleDtype := ← m.read (Json.named? ScaleDtype.names) "scale_dtype" s.scaleDtype
    zeroDtype := ← m.read (Json.named? ZeroDtype.names) "zero_dtype" s.zeroDtype
    zeroGroupPolicy :=
      ← m.read (Json.named? ZeroGroupPolicy.names) "zero_group_policy" s.zeroGroupPolicy
    constantGroupPolicy :=
      ← m.read (Json.named? ConstantGroupPolicy.names) "constant_group_policy"
        s.constantGroupPolicy
    nanPolicy := ← m.read (Json.named? NaNPolicy.names) "nan_policy" s.nanPolicy
    computeDtype := ← m.read Json.str? "compute_dtype" s.computeDtype
    packVersion := ← m.read Json.str? "pack_version" s.packVersion
    label := ← m.read Json.str? "label" s.label }

end SchemeFields

def canonicalJson (payload : Json) : List Byte :=
  (Utf8.encode payload.canonical.toList).map UInt8.toBitVec

namespace QuantScheme

def asDict (s : QuantScheme) : Json := .obj s.toSchemeFields.mapping

def ofFields (s : SchemeFields) : Except SchemeError QuantScheme :=
  match h : s.validate with
  | .ok () => .ok ⟨s, h⟩
  | .error e => .error (.config e)

/-- `from_mapping`: unknown fields are refused. -/
def fromMapping (payload : Mapping) : Except SchemeError QuantScheme := do
  let unknown := (payload.map Prod.fst).filter (· ∉ SchemeFields.known)
  raiseIf (unknown ≠ []) (.unknownFields unknown)
  let s ← (SchemeFields.read payload).mapError .python
  ofFields s

def schemeHash (sha256 : List Byte → String) (s : QuantScheme) : String :=
  sha256 (canonicalJson s.asDict)

end QuantScheme

/-! ### The round trip -/

theorem Mapping.read_named {α : Type} [DecidableEq α] {m : Mapping} {table : List (String × α)}
    {field : String} {choice : α}
    (hlookup : m.lookup field = some (.str (nameIn table choice)))
    (htable : table.lookup (nameIn table choice) = some choice) (default : α) :
    m.read (Json.named? table) field default = .ok choice :=
  m.read_of_lookup hlookup htable default

namespace SchemeFields

variable (s : SchemeFields)

theorem read_choices :
    (∀ d, s.mapping.read (Json.named? RangePolicy.names) "range_policy" d = .ok s.rangePolicy) ∧
    (∀ d, s.mapping.read (Json.named? Granularity.names) "granularity" d = .ok s.granularity) ∧
    (∀ d, s.mapping.read (Json.named? RoundMode.names) "round_mode" d = .ok s.roundMode) ∧
    (∀ d, s.mapping.read (Json.named? ScaleDtype.names) "scale_dtype" d = .ok s.scaleDtype) ∧
    (∀ d, s.mapping.read (Json.named? ZeroDtype.names) "zero_dtype" d = .ok s.zeroDtype) ∧
    (∀ d, s.mapping.read (Json.named? ZeroGroupPolicy.names) "zero_group_policy" d =
      .ok s.zeroGroupPolicy) ∧
    (∀ d, s.mapping.read (Json.named? ConstantGroupPolicy.names) "constant_group_policy" d =
      .ok s.constantGroupPolicy) ∧
    ∀ d, s.mapping.read (Json.named? NaNPolicy.names) "nan_policy" d = .ok s.nanPolicy := by
  refine ⟨?_, ?_, ?_, ?_, ?_, ?_, ?_, ?_⟩ <;> apply Mapping.read_named rfl
  · cases s.rangePolicy <;> rfl
  · cases s.granularity <;> rfl
  · cases s.roundMode <;> rfl
  · cases s.scaleDtype <;> rfl
  · cases s.zeroDtype <;> rfl
  · cases s.zeroGroupPolicy <;> rfl
  · cases s.constantGroupPolicy <;> rfl
  · cases s.nanPolicy <;> rfl

theorem read_values :
    (∀ d, s.mapping.read Json.nat? "bits" d = .ok s.bits) ∧
    (∀ d, s.mapping.read Json.bool? "symmetric" d = .ok s.symmetric) ∧
    (∀ d, s.mapping.read Json.int? "axis" d = .ok s.axis) ∧
    (∀ d, s.mapping.read Json.optionNat? "group_size" d = .ok s.groupSize) ∧
    (∀ d, s.mapping.read Json.str? "compute_dtype" d = .ok s.computeDtype) ∧
    (∀ d, s.mapping.read Json.str? "pack_version" d = .ok s.packVersion) ∧
    ∀ d, s.mapping.read Json.str? "label" d = .ok s.label := by
  refine ⟨fun _ => rfl, fun _ => rfl, fun _ => rfl, ?_, fun _ => rfl, fun _ => rfl, fun _ => rfl⟩
  apply Mapping.read_of_lookup rfl
  cases s.groupSize <;> rfl

theorem read_mapping : read s.mapping = .ok s := by
  simp only [read, s.read_values, s.read_choices]
  rfl

end SchemeFields

theorem QuantScheme.ofFields_toSchemeFields (s : QuantScheme) :
    ofFields s.toSchemeFields = .ok s := by
  rw [ofFields]
  split
  · rfl
  · rename_i e he
    rw [s.valid] at he
    cases he

/-- **A stored scheme** is read again. -/
theorem QuantScheme.fromMapping_mapping (s : QuantScheme) :
    fromMapping s.toSchemeFields.mapping = .ok s := by
  have hknown : (s.toSchemeFields.mapping.map Prod.fst).filter (· ∉ SchemeFields.known) = [] := rfl
  rw [fromMapping, SchemeFields.read_mapping]
  exact s.ofFields_toSchemeFields

end Hqsb
