/-
Hqsb/Quant/Rtn.lean

The reference quantiser, in exact rational arithmetic.

`quantize` buckets the flat indices of a tensor by their quantisation unit, encodes the units
in order, and decodes the codes again.  The encoder goes by the buckets; the decoder computes
the unit of every index anew.

A value is a rational, or `none` if it is a NaN or an infinity: the source asks of such a
value only whether it is finite.
-/
import Hqsb.Lib.OrderedDict
import Hqsb.Lib.Traverse
import Hqsb.Quant.Spec

namespace Hqsb

open Lib

/-- Statistics of one unit. -/
structure UnitStats where
  amax : Option ℚ
  scale : Option ℚ
  zero : Int
  clampCount : Nat
  zeroGroup : Bool
  constantGroup : Bool
  unitIndex : Nat

/-- Statistics of one call. -/
structure QuantStats where
  numValues : Nat
  numUnits : Nat
  clampCount : Nat
  saturatedFraction : ℚ
  zeroGroupCount : Nat
  constantGroupCount : Nat
  nonfiniteCount : Nat
  invalidScaleUnits : List Nat
  maxScale : ℚ
  minPositiveScale : ℚ

/-- A quantised tensor: `q` is row-major over `shape`, `scales` and `zeros` go by units. -/
structure QuantizedTensor where
  scheme : QuantScheme
  shape : List Nat
  axis : Nat
  q : List Int
  scales : List (Option ℚ)
  zeros : List Int
  valuesDequant : List (Option ℚ)
  unitsPerRow : Nat
  groupSize : Option Nat
  tail : Nat
  stats : QuantStats
  unitStats : List UnitStats

/-! ### Shapes and units -/

/-- The shape of the call; without one the values are a vector. -/
def resolveShape (shape : Option (List Nat)) (count : Nat) : Except QuantError (List Nat) :=
  match shape with
  | none => .ok [count]
  | some shape =>
    if shape.prod ≠ count then .error (.shapeMismatch shape shape.prod count) else .ok shape

def normalizeAxis (axis : Int) (rank : Nat) : Except QuantError Nat :=
  if rank = 0 then .error .rankZero
  else
    let normalized := if axis < 0 then axis + rank else axis
    if ¬ (0 ≤ normalized ∧ normalized < rank) then .error (.axisOutOfRange axis rank)
    else .ok normalized.toNat

/-- The number of values that are not finite, if the scheme puts up with them. -/
def checkFinite (values : List (Option ℚ)) (scheme : QuantScheme) : Except QuantError Nat :=
  let nonfinite := values.countP Option.isNone
  if nonfinite ≠ 0 ∧ scheme.nanPolicy = .reject then .error (.nonfiniteInput nonfinite)
  else .ok nonfinite

/-- The unit of a flat index: the row is the index without the coordinate along the axis, and
the group is that coordinate divided by the group size. -/
def unitOfIndex (index : Nat) (shape : List Nat) (axis : Int) (unitsPerRow : Nat)
    (groupSize : Option Nat) : Except QuantError Nat :=
  let normalizedAxis := if axis < 0 then axis + shape.length else axis
  if ¬ (0 ≤ normalizedAxis ∧ normalizedAxis < shape.length) then
    .error (.axisOutOfRange axis shape.length)
  else
    let strideAxis := (shape.drop (normalizedAxis.toNat + 1)).prod
    let axisDim := shape.getD normalizedAxis.toNat 0
    if strideAxis = 0 ∨ axisDim = 0 then .error (.invalidShape shape)
    else
      let outer := index / (strideAxis * axisDim)
      let rest := index % strideAxis
      let row := outer * strideAxis + rest
      let coordinate := index / strideAxis % axisDim
      match groupSize with
      | none => .ok (row * unitsPerRow)
      | some 0 => .error .zeroDivision
      | some groupSize => .ok (row * unitsPerRow + coordinate / groupSize)

variable (scheme : QuantScheme)

def unitsPerRow (k : Nat) : Except QuantError Nat :=
  if scheme.granularity = .perTensor then .ok 1 else groupsPerRow k scheme.groupSize

def addToUnit (unitIndices : OrderedDict Nat (List Nat)) (unit index : Nat) :
    OrderedDict Nat (List Nat) :=
  unitIndices.set unit ((unitIndices.get? unit).getD [] ++ [index])

def bucketUnits (count : Nat) (shape : List Nat) (axis unitsPerRow : Nat)
    (groupSize : Option Nat) : Except QuantError (OrderedDict Nat (List Nat)) :=
  if scheme.granularity = .perTensor then
    .ok (if count = 0 then .empty else OrderedDict.empty.set 0 (List.range count))
  else
    (List.range count).foldlM
      (fun unitIndices index =>
        (unitOfIndex index shape axis unitsPerRow groupSize).map
          fun unit => addToUnit unitIndices unit index)
      .empty

/-! ### Encoding one unit -/

/-- The scale of a unit without magnitude, or without span. -/
def zeroGroupScale : ℚ :=
  match scheme.zeroGroupPolicy, scheme.scaleDtype with
  | .scaleOne, _ => 1
  | .scaleMinPositive, .float16 => 1 / 2 ^ 14
  | .scaleMinPositive, .float32 => 1 / 2 ^ 126
  | .scaleMinPositive, .float64 => 1 / 2 ^ 1074

section

variable (roundFn : ℚ → Int)

def code (value scale : Option ℚ) (zero : Int) : Int × Nat :=
  match value, scale with
  | some value, some scale =>
    if scale ≤ 0 then (0, 0)
    else
      let raw := roundFn (value / scale) + zero
      if raw > scheme.qmax then (scheme.qmax, 1)
      else if raw < scheme.qmin then (scheme.qmin, 1)
      else (raw, 0)
  | _, _ => (0, 0)

/-- The outcome of encoding one unit. -/
structure UnitCode where
  scale : Option ℚ
  zero : Int
  codes : List Int
  clamps : Nat
  zeroGroup : Bool
  constantGroup : Bool

section

variable (chunk : List (Option ℚ)) (scale : Option ℚ)

def codeUnit (zero : Int) : UnitCode :=
  let coded := chunk.map fun value => code scheme roundFn value scale zero
  { scale
    zero
    codes := coded.map Prod.fst
    clamps := (coded.map Prod.snd).sum
    zeroGroup := false
    constantGroup := false }

def zeroUnit (zeroGroup constantGroup : Bool) : UnitCode :=
  { scale, zero := 0, codes := chunk.map fun _ => 0, clamps := 0, zeroGroup, constantGroup }

/-- The largest magnitude in a unit, which is not a number without finite values. -/
def amaxOf : Option ℚ :=
  let finiteChunk := chunk.reduceOption
  if chunk ≠ [] ∧ finiteChunk = [] then none
  else some ((finiteChunk.map fun value => |value|).max?.getD 0)

/-- The symmetric branch.  At one bit there is no positive code to divide by. -/
def encodeSymmetric : Except QuantError UnitCode :=
  match amaxOf chunk with
  | none => .ok (codeUnit scheme roundFn chunk none 0)
  | some amax =>
    if amax = 0 then .ok (zeroUnit chunk (some (zeroGroupScale scheme)) true false)
    else if scheme.qmaxPositive = 0 then .error .zeroDivision
    else .ok (codeUnit scheme roundFn chunk (some (amax / scheme.qmaxPositive)) 0)

end

def encodeAsymmetric (unitIndex : Nat) (chunk : List (Option ℚ)) : Except QuantError UnitCode :=
  match chunk.reduceOption.min?, chunk.reduceOption.max? with
  | some xmin, some xmax =>
    if xmax = xmin then
      if scheme.constantGroupPolicy = .reject then .error (.constantGroup unitIndex xmin)
      else .ok (zeroUnit chunk (some (zeroGroupScale scheme)) false true)
    else if scheme.qmax - scheme.qmin = 0 then .error .zeroDivision
    else
      let span := xmax - xmin
      let scale := span / (scheme.qmax - scheme.qmin : Int)
      let rawZero := roundFn (scheme.qmin - xmin / scale)
      let unitZero := max scheme.qmin (min scheme.qmax rawZero)
      .ok (codeUnit scheme roundFn chunk (some scale) unitZero)
  | _, _ => .ok (zeroUnit chunk none false false)

def encodeUnit (unitIndex : Nat) (chunk : List (Option ℚ)) : Except QuantError UnitCode :=
  if scheme.symmetric then encodeSymmetric scheme roundFn chunk
  else encodeAsymmetric scheme roundFn unitIndex chunk

/-! ### The loop over the units -/

/-- What the loop accumulates.  No unit with a valid scale yet: `minPositiveScale = none`. -/
structure Encoding where
  q : List Int
  scales : List (Option ℚ) := []
  zeros : List Int := []
  unitStats : List UnitStats := []
  clampCount : Nat := 0
  zeroGroupCount : Nat := 0
  constantGroupCount : Nat := 0
  invalidScaleUnits : List Nat := []
  maxScale : ℚ := 0
  minPositiveScale : Option ℚ := none

/-- `q[index] = unit_q[position]` for all positions. -/
def scatter (indices : List Nat) (codes q : List Int) : List Int :=
  (indices.zip codes).foldl (fun q e => q.set e.1 e.2) q

/-- The magnitude in the statistics, which takes a unit with only finite values. -/
def statsAmax (chunk : List (Option ℚ)) : Option ℚ :=
  if chunk.all Option.isSome then some ((chunk.reduceOption.map fun value => |value|).max?.getD 0)
  else none

def Encoding.enterUnit (s : Encoding) (scheme : QuantScheme) (unitIndex : Nat)
    (indices : List Nat) (chunk : List (Option ℚ)) (unit : UnitCode) : Encoding where
  q := scatter indices unit.codes s.q
  scales := s.scales ++ [unit.scale]
  zeros := if scheme.symmetric then s.zeros else s.zeros ++ [unit.zero]
  unitStats := s.unitStats ++ [{
    amax := statsAmax chunk
    scale := unit.scale
    zero := unit.zero
    clampCount := unit.clamps
    zeroGroup := unit.scale = some 1 ∧ unit.codes.all (· = 0)
    constantGroup := unit.constantGroup
    unitIndex }]
  clampCount := s.clampCount + unit.clamps
  zeroGroupCount := s.zeroGroupCount + if unit.zeroGroup then 1 else 0
  constantGroupCount := s.constantGroupCount + if unit.constantGroup then 1 else 0
  invalidScaleUnits :=
    if ∃ scale ∈ unit.scale, 0 < scale then s.invalidScaleUnits
    else s.invalidScaleUnits ++ [unitIndex]
  maxScale :=
    match unit.scale with
    | some scale => if 0 < scale then max s.maxScale scale else s.maxScale
    | none => s.maxScale
  minPositiveScale :=
    match unit.scale with
    | some scale => if 0 < scale then some (min (s.minPositiveScale.getD scale) scale)
        else s.minPositiveScale
    | none => s.minPositiveScale

def chunkValues (values : List (Option ℚ)) (indices : List Nat) : List (Option ℚ) :=
  indices.map fun index => values.getD index none

def encodeUnits (values : List (Option ℚ))
    (unitIndices : OrderedDict Nat (List Nat)) : Except QuantError Encoding :=
  (unitIndices.keys.insertionSort (· ≤ ·)).foldlM
    (fun s unitIndex =>
      let indices := (unitIndices.get? unitIndex).getD []
      let chunk := chunkValues values indices
      (encodeUnit scheme roundFn unitIndex chunk).map
        (s.enterUnit scheme unitIndex indices chunk))
    { q := List.replicate values.length 0 }

end

/-! ### Decoding -/

def unitFor (shape : List Nat) (axis : Int) (unitsPerRow : Nat)
    (groupSize : Option Nat) (index : Nat) : Except QuantError Nat :=
  if scheme.granularity = .perTensor then .ok 0
  else unitOfIndex index shape axis unitsPerRow groupSize

def dequantizeCode (scales : List (Option ℚ)) (zeros : List Int)
    (unit index : Nat) (code : Int) : Except QuantError (Option ℚ) :=
  match scales[unit]? with
  | none => .error (.unitWithoutScale index unit scales.length)
  | some scale =>
    match if scheme.symmetric then some 0 else zeros[unit]? with
    | none => .error .indexError
    | some zero => .ok (scale.map fun scale => scale * (code - zero : Int))

def unitPlanes (scales : List (Option ℚ)) (zeros : List Int) :
    Except QuantError (List (Option ℚ) × List Int) :=
  if scheme.granularity = .perTensor then
    match scales with
    | [] => .error .indexError
    | scale :: _ => .ok ([scale], [zeros.headD 0])
  else .ok (scales, if zeros = [] then List.replicate scales.length 0 else zeros)

def dequantizeFlat (q : List Int) (scales : List (Option ℚ)) (zeros : List Int)
    (shape : List Nat) (unitsPerRow : Nat) (scheme : QuantScheme) (groupSize : Option Nat)
    (axis : Option Int) : Except QuantError (List (Option ℚ)) := do
  let (unitScales, unitZeros) ← unitPlanes scheme scales zeros
  q.zipIdx.mapM fun e => do
    let unit ← unitFor scheme shape (axis.getD scheme.axis) unitsPerRow
      (groupSize.or scheme.groupSize) e.2
    dequantizeCode scheme unitScales unitZeros unit e.2 e.1

/-! ### The quantiser -/

/-- Quantise values; units are formed along `axis`, by default the axis of the scheme. -/
def quantize (values : List (Option ℚ)) (scheme : QuantScheme) (shape : Option (List Nat))
    (axis : Option Int) : Except QuantError QuantizedTensor := do
  let shape ← resolveShape shape values.length
  let quantAxis ← normalizeAxis (axis.getD scheme.axis) shape.length
  let nonfinite ← checkFinite values scheme
  let roundFn ← getRounder scheme.roundMode false
  let k := shape.getD quantAxis 0
  let units ← unitsPerRow scheme k
  let groupSize := if scheme.granularity = .perTensor then none else scheme.groupSize
  let tail ← tailLength k groupSize
  let unitIndices ← bucketUnits scheme values.length shape quantAxis units groupSize
  let s ← encodeUnits scheme roundFn values unitIndices
  let valuesDequant ←
    dequantizeFlat s.q s.scales s.zeros shape units scheme groupSize (some quantAxis)
  .ok {
    scheme
    shape
    axis := quantAxis
    q := s.q
    scales := s.scales
    zeros := s.zeros
    valuesDequant
    unitsPerRow := units
    groupSize
    tail
    stats := {
      numValues := values.length
      numUnits := s.scales.length
      clampCount := s.clampCount
      saturatedFraction := if values = [] then 0 else s.clampCount / values.length
      zeroGroupCount := s.zeroGroupCount
      constantGroupCount := s.constantGroupCount
      nonfiniteCount := nonfinite
      invalidScaleUnits := s.invalidScaleUnits
      maxScale := s.maxScale
      minPositiveScale := s.minPositiveScale.getD 0 }
    unitStats := s.unitStats }

def dequantize (qt : QuantizedTensor) : Except QuantError (List (Option ℚ)) :=
  dequantizeFlat qt.q qt.scales qt.zeros qt.shape qt.unitsPerRow qt.scheme qt.groupSize
    (some qt.axis)

def QuantizedTensor.unitOf (qt : QuantizedTensor) (index : Nat) : Except QuantError Nat :=
  if qt.q.length ≤ index then .error .indexError
  else if qt.scheme.granularity = .perTensor then .ok 0
  else unitOfIndex index qt.shape qt.axis qt.unitsPerRow qt.groupSize

/-- The largest half scale, the documented bound of the error without clamping. -/
def clampFreeErrorBound (qt : QuantizedTensor) : Option ℚ :=
  if qt.scales = [] then some 0 else qt.scales.reduceOption.max?.map (· / 2)

end Hqsb
