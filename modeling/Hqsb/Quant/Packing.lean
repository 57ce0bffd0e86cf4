/-
Hqsb/Quant/Packing.lean

The packing of quantised codes into bytes.

The canonical form stores one code per byte, or two to a byte in one of the two nibble
orders; a kernel variant stores the rows of a matrix in canonical form, each padded to an
aligned stride.  There are two decoders: `unpackCanonical` computes the byte and the half of
each index, `unpackIndependent` runs over the bytes and appends both halves.

Bytes are bit vectors, so `code & 0xF` is the truncation of the two's complement `code`.
-/
import Hqsb.Lib.Rows
import Hqsb.Lib.Traverse
import Hqsb.Quant.Spec

namespace Hqsb

open Lib Lib.Rows

abbrev Byte := BitVec 8

/-- Which half of a byte holds the first of two codes; any other name is refused. -/
inductive NibbleOrder
  | lowFirst
  | highFirst
  | unknown (name : String)
  deriving DecidableEq

/-- What packing raises.  All but the last four are an `ArtifactError` with a reason code. -/
inductive PackError
  | packVersion (bits : Nat)
  | nibbleOrder (name : String)
  | badLength (actual expected : Nat)
  | badPadding (count : Nat)
  | codeOutOfRange (index : Nat) (code qmin qmax : Int)
  | unknownLayout (layoutId : String)
  | layoutBits (layoutId : String) (layoutBits artifactBits : Nat)
  | alignment (alignment : Nat)
  | badScale (index : Nat)
  | packingSize (actual expected : Nat)
  | scheme (error : QuantError)
  | overflowError
  | zeroDivision
  | indexError
  deriving DecidableEq

def PackError.reasonCode : PackError → Option String
  | packVersion _ | nibbleOrder _ => some "unknown_pack_version"
  | badLength _ _ | badScale _ | packingSize _ _ => some "payload_length_mismatch"
  | badPadding _ => some "nonzero_padding_nibble"
  | codeOutOfRange _ _ _ _ => some "code_out_of_range"
  | unknownLayout _ | layoutBits _ _ _ => some "unknown_layout_id"
  | alignment _ => some "alignment_not_satisfied"
  | scheme _ | overflowError | zeroDivision | indexError => none

/-- Bytes of `cols` codes in the canonical packing. -/
def packedRowBytes (bits cols : Nat) : Except PackError Nat :=
  if bits = 4 then .ok ((cols + 1) / 2)
  else if bits = 8 then .ok cols
  else .error (.packVersion bits)

def checkNibbleOrder : NibbleOrder → Except PackError Unit
  | .unknown name => .error (.nibbleOrder name)
  | _ => .ok ()

/-- `float(code)` overflows from the first integer on that rounds past the largest double. -/
def floatOverflows (code : Int) : Bool := 2 ^ 1024 - 2 ^ 970 ≤ code.natAbs

/-- One pass of the packing loop: `out[index // 2] |= nibble`, shifted for the high half. -/
def placeNibble (nibbleOrder : NibbleOrder) (out : List Byte) (entry : Int × Nat) : List Byte :=
  let nibble := BitVec.ofInt 8 entry.1 &&& 0xF#8
  let evenPosition := entry.2 % 2 = 0
  match nibbleOrder with
  | .lowFirst =>
    if evenPosition then out.modify (entry.2 / 2) (· ||| nibble)
    else out.modify (entry.2 / 2) (· ||| nibble <<< 4)
  | _ =>
    if evenPosition then out.modify (entry.2 / 2) (· ||| nibble <<< 4)
    else out.modify (entry.2 / 2) (· ||| nibble)

/-- Pack codes into the canonical form.  The conversion `float(code)` only guards against
codes that are no integers, but it comes first. -/
def packCanonical (q : List Int) (bits : Nat) (nibbleOrder : NibbleOrder) :
    Except PackError (List Byte) := do
  raiseIf (q.any floatOverflows) .overflowError
  checkNibbleOrder nibbleOrder
  if bits = 4 then
    .ok (q.zipIdx.foldl (placeNibble nibbleOrder) (List.replicate ((q.length + 1) / 2) 0#8))
  else if bits = 8 then .ok (q.map fun code => BitVec.ofInt 8 code &&& 0xFF#8)
  else .error (.packVersion bits)

def signedFromNibble (nibble : Byte) : Int :=
  let nibble := (nibble &&& 0xF#8).toNat
  if nibble ≥ 8 then nibble - 16 else nibble

def signedFromByte (byte : Byte) : Int :=
  let byte := (byte &&& 0xFF#8).toNat
  if byte ≥ 128 then byte - 256 else byte

/-- Refuse the first code outside `[qmin, qmax]`. -/
def validateCodes (codes : List Int) (scheme : QuantScheme) : Except PackError Unit :=
  match codes.zipIdx.find? fun e => ¬ (scheme.qmin ≤ e.1 ∧ e.1 ≤ scheme.qmax) with
  | none => .ok ()
  | some (code, index) => .error (.codeOutOfRange index code scheme.qmin scheme.qmax)

/-- The half of a byte that holds the code at `index`. -/
def readNibble (nibbleOrder : NibbleOrder) (byte : Byte) (index : Nat) : Byte :=
  match nibbleOrder with
  | .lowFirst => if index % 2 = 0 then byte &&& 0xF#8 else (byte >>> 4) &&& 0xF#8
  | _ => if index % 2 = 0 then (byte >>> 4) &&& 0xF#8 else byte &&& 0xF#8

/-- The half of the last byte that an odd count leaves over. -/
def paddingNibble (nibbleOrder : NibbleOrder) (last : Byte) : Byte :=
  match nibbleOrder with
  | .highFirst => last &&& 0xF#8
  | _ => (last >>> 4) &&& 0xF#8

def readCode (payload : List Byte) (nibbleOrder : NibbleOrder) (index : Nat) :
    Except PackError Int :=
  match payload[index / 2]? with
  | some byte => .ok (signedFromNibble (readNibble nibbleOrder byte index))
  | none => .error .indexError

/-- The 4-bit branch of `unpackCanonical`.  The last byte is read whatever the count is. -/
def unpackNibbles (payload : List Byte) (count : Nat) (nibbleOrder : NibbleOrder) :
    Except PackError (List Int) := do
  let codes ← (List.range count).mapM (readCode payload nibbleOrder)
  match payload.getLast? with
  | some last =>
    if count % 2 = 1 ∧ paddingNibble nibbleOrder last ≠ 0 then .error (.badPadding count)
    else .ok codes
  | none => .error .indexError

def unpackCodes (payload : List Byte) (count bits : Nat) (nibbleOrder : NibbleOrder) :
    Except PackError (List Int) :=
  if bits = 4 then unpackNibbles payload count nibbleOrder
  else if bits = 8 then .ok (payload.map signedFromByte)
  else .error (.packVersion bits)

/-- Unpack the canonical form into `count` codes. -/
def unpackCanonical (payload : List Byte) (count bits : Nat) (scheme : Option QuantScheme)
    (nibbleOrder : NibbleOrder) : Except PackError (List Int) := do
  let expected ← packedRowBytes bits count
  raiseIf (payload.length ≠ expected) (.badLength payload.length expected)
  checkNibbleOrder nibbleOrder
  let codes ← unpackCodes payload count bits nibbleOrder
  scheme.forM (validateCodes codes)
  .ok codes

/-- The loop of the second decoder: two codes a byte, until there are enough. -/
def unpackPairs (nibbleOrder : NibbleOrder) (count : Nat) : List Byte → List Int → List Int
  | [], codes => codes
  | byte :: payload, codes =>
    if codes.length ≥ count then codes
    else
      let low := signedFromNibble (byte &&& 0xF#8)
      let high := signedFromNibble ((byte >>> 4) &&& 0xF#8)
      let (first, second) := if nibbleOrder = .lowFirst then (low, high) else (high, low)
      let codes := codes ++ [first]
      if codes.length ≥ count then codes
      else unpackPairs nibbleOrder count payload (codes ++ [second])

/-- The second decoder. -/
def unpackIndependent (payload : List Byte) (count bits : Nat) (nibbleOrder : NibbleOrder) :
    Except PackError (List Int) := do
  let expected ← packedRowBytes bits count
  raiseIf (payload.length ≠ expected) (.badLength payload.length expected)
  if bits = 4 then do
    let codes := unpackPairs nibbleOrder count payload []
    raiseIf (codes.length ≠ count) (.badLength codes.length count)
    .ok codes
  else if bits = 8 then .ok (payload.map BitVec.toInt)
  else .error (.packVersion bits)

/-! ### Kernel variants -/

/-- The known layouts, with the bits they store and their nibble order. -/
def knownLayouts : List (String × Nat × NibbleOrder) :=
  [("hqsb.w4a16.rowmajor.nk.v1", 4, .lowFirst),
    ("hqsb.w4a16.hifirst.nk.v1", 4, .highFirst),
    ("hqsb.w8a16.rowmajor.nk.v1", 8, .lowFirst)]

/-- How a matrix of `rows` output channels and `cols` input features is stored. -/
structure KernelLayout where
  layoutId : String
  layoutVersion : String
  bits : Nat
  rows : Nat
  cols : Nat
  paddedCols : Nat
  validCols : Nat
  rowStrideBytes : Nat
  alignment : Nat
  groupSize : Option Nat
  groupsPerRow : Nat
  nibbleOrder : NibbleOrder
  scaleDtype : ScaleDtype
  zeroDtype : ZeroDtype
  scaleCount : Nat
  zeroCount : Nat
  payloadBytes : Nat
  scaleBytes : Nat
  zeroBytes : Nat
  parentCanonicalHash : Option String

def ScaleDtype.bytes : ScaleDtype → Nat
  | float16 => 2
  | float32 => 4
  | float64 => 8

def ZeroDtype.bytes : ZeroDtype → Nat
  | int8 => 1
  | int16 => 2
  | int32 => 4

/-- `layout_id or ...`: without an id, or with the empty one, that of the scheme's bits. -/
def resolveLayout (scheme : QuantScheme) (layoutId : Option String) : String :=
  match layoutId with
  | none | some "" =>
    if scheme.bits = 4 then "hqsb.w4a16.rowmajor.nk.v1" else "hqsb.w8a16.rowmajor.nk.v1"
  | some layoutId => layoutId

/-- Plan the layout of a `[rows, cols]` weight. -/
def planKernelLayout (scheme : QuantScheme) (rows cols : Nat) (layoutId : Option String)
    (alignment : Nat) (parentCanonicalHash : Option String) : Except PackError KernelLayout :=
  let resolved := resolveLayout scheme layoutId
  match knownLayouts.lookup resolved with
  | none => .error (.unknownLayout resolved)
  | some (layoutBits, nibbleOrder) => do
    raiseIf (layoutBits ≠ scheme.bits) (.layoutBits resolved layoutBits scheme.bits)
    raiseIf (alignment = 0 ∨ alignment % 2 ≠ 0) (.alignment alignment)
    let padding := if scheme.bits = 4 ∧ cols % 2 ≠ 0 then 1 else 0
    let paddedCols := cols + padding
    let rawRowBytes ← packedRowBytes scheme.bits paddedCols
    let rowStride := (rawRowBytes + alignment - 1) / alignment * alignment
    let groups ← (scheme.unitCount cols).mapError .scheme
    let zeroCount := if scheme.symmetric then 0 else rows * groups
    .ok {
      layoutId := resolved
      layoutVersion := "1"
      bits := scheme.bits
      rows
      cols
      paddedCols
      validCols := cols
      rowStrideBytes := rowStride
      alignment
      groupSize := scheme.groupSize
      groupsPerRow := groups
      nibbleOrder
      scaleDtype := scheme.scaleDtype
      zeroDtype := scheme.zeroDtype
      scaleCount := rows * groups
      zeroCount
      payloadBytes := rows * rowStride
      scaleBytes := scheme.scaleDtype.bytes * (rows * groups)
      zeroBytes := scheme.zeroDtype.bytes * zeroCount
      parentCanonicalHash }

/-- A kernel-layout payload with its scale and zero planes.  A scale is `none` if it is not
finite. -/
structure PackedTensor where
  layout : KernelLayout
  payload : List Byte
  scales : List (Option ℚ)
  zeros : List Int

/-- Refuse the first scale that is not finite and positive. -/
def validateScales (scales : List (Option ℚ)) : Except PackError Unit :=
  match scales.zipIdx.find? fun e => ¬ (∃ scale ∈ e.1, 0 < scale) with
  | none => .ok ()
  | some (_, index) => .error (.badScale index)

/-- The bytes of one row: its codes, a zero code if the columns were padded, and zeros up to
the stride. -/
def packRow (layout : KernelLayout) (bits : Nat) (codes : List Int) :
    Except PackError (List Byte) := do
  let rowValues := if layout.paddedCols > layout.cols then codes ++ [0] else codes
  let packed ← packCanonical rowValues bits layout.nibbleOrder
  .ok (packed ++ (List.replicate layout.rowStrideBytes 0#8).drop packed.length)

/-- Build the kernel variant of `q`, which is row-major over `[rows, cols]`. -/
def packKernelVariant (q : List Int) (scales : List (Option ℚ)) (zeros : List Int)
    (scheme : QuantScheme) (rows cols : Nat) (layoutId : Option String) (alignment : Nat)
    (parentCanonicalHash : Option String) : Except PackError PackedTensor := do
  let layout ← planKernelLayout scheme rows cols layoutId alignment parentCanonicalHash
  raiseIf (q.length ≠ rows * cols) (.badLength q.length (rows * cols))
  validateCodes q scheme
  validateScales scales
  raiseIf (scales.length ≠ layout.scaleCount) (.badLength scales.length layout.scaleCount)
  raiseIf (scheme.symmetric = false ∧ zeros.length ≠ layout.zeroCount)
    (.badLength zeros.length layout.zeroCount)
  let out ← (List.range rows).foldlM
    (fun out r => do
      let rowBytes ← packRow layout scheme.bits (row cols q r)
      .ok (setRow layout.rowStrideBytes out r rowBytes))
    (List.replicate layout.payloadBytes 0#8)
  raiseIf (out.length ≠ layout.payloadBytes) (.packingSize out.length layout.payloadBytes)
  .ok {
    layout
    payload := out
    scales
    zeros := if scheme.symmetric then [] else zeros }

/-- The decoder that the caller asks for. -/
def unpackWith (independent : Bool) (payload : List Byte) (count bits : Nat)
    (nibbleOrder : NibbleOrder) : Except PackError (List Int) :=
  if independent then unpackIndependent payload count bits nibbleOrder
  else unpackCanonical payload count bits none nibbleOrder

def unpackRow (layout : KernelLayout) (bits : Nat) (independent : Bool) (rowBytes : List Byte) :
    Except PackError (List Int) := do
  let packedLen ← packedRowBytes bits layout.paddedCols
  let rowValues ←
    unpackWith independent (rowBytes.take packedLen) layout.paddedCols bits layout.nibbleOrder
  .ok (rowValues.take layout.cols)

/-- Recover the codes of a kernel variant, with either decoder. -/
def unpackKernelVariant (packed : PackedTensor) (scheme : QuantScheme) (independent : Bool) :
    Except PackError (List Int) := do
  let layout := packed.layout
  raiseIf (packed.payload.length ≠ layout.payloadBytes)
    (.badLength packed.payload.length layout.payloadBytes)
  raiseIf (layout.alignment = 0) .zeroDivision
  raiseIf (packed.payload.length % layout.alignment ≠ 0) (.alignment layout.alignment)
  let out ← (List.range layout.rows).mapM fun r =>
    unpackRow layout scheme.bits independent (row layout.rowStrideBytes packed.payload r)
  raiseIf (out.flatten.length ≠ layout.rows * layout.cols)
    (.badLength out.flatten.length (layout.rows * layout.cols))
  validateCodes out.flatten scheme
  .ok out.flatten

end Hqsb
