/-
Hqsb/Ascend/HostTiling.lean

Host tiling (`compute_tiling` of `hqsb/ascend/tiling.py`), and the record that it sends to the
device.

A request is screened, its rows are cut into equal parts, one for each core (`existsUnique_core`),
and the loop of a core into tiles; the on-chip memory is charged and the record is built.  A
refusal is a result.  Not everything is refused, though: `estimate_ub` multiplies with a check
outside of any `try`, so that a negative buffer count or a product that is too large is raised
(`estimate_ok_iff`).

The record is sixteen numbers in fixed widths, least byte first.  The constructor refuses a record
that makes no sense, packing one that does not fit: a record whose numbers fit comes back from its
bytes (`TilingData.fromBytes_toBytes`).
-/
import Hqsb.Lib.Cells
import Hqsb.Lib.Tiling

namespace Hqsb.Ascend

open Lib.Cells Lib.Tiling

/-! ### Errors and checked arithmetic -/

/-- What the module raises.  `overflow` is a kind of usage error. -/
inductive TilingRaise where
  | usage (what : String)
  | overflow (what : String) (a b : Int)
  | config (field : String)
  | keyError (name : String)
  | structError

def maxIndex32 : Int := 2 ^ 32 - 1

/-- Multiply with an explicit overflow check instead of silent wrap-around. -/
def checkedMul (what : String) (a b : Int) : Except TilingRaise Int :=
  if a < 0 then .error (.usage what)
  else if b < 0 then .error (.usage what)
  else if maxIndex32 < a * b then .error (.overflow what a b)
  else .ok (a * b)

theorem checkedMul_eq_ok_iff {what : String} {a b c : Int} :
    checkedMul what a b = .ok c ↔ 0 ≤ a ∧ 0 ≤ b ∧ a * b ≤ maxIndex32 ∧ c = a * b := by
  rw [checkedMul]
  split_ifs with ha hb hover
  · exact ⟨fun h => (nomatch h), fun h => absurd h.1 (not_le.mpr ha)⟩
  · exact ⟨fun h => (nomatch h), fun h => absurd h.2.1 (not_le.mpr hb)⟩
  · exact ⟨fun h => (nomatch h), fun h => absurd h.2.2.1 (not_le.mpr hover)⟩
  · constructor
    · intro h
      exact ⟨not_lt.mp ha, not_lt.mp hb, not_lt.mp hover, (Except.ok.inj h).symm⟩
    · rintro ⟨-, -, -, rfl⟩
      rfl

/-! ### Dtypes -/

/-- `DTYPE_BYTES` -/
def dtypeBytesTable : List (String × Int) :=
  [("fp32", 4), ("fp16", 2), ("bf16", 2), ("int8", 1), ("int32", 4), ("int64", 8)]

def dtypeTags : List (String × Int) :=
  [("fp32", 0), ("fp16", 1), ("bf16", 2), ("int8", 3), ("int32", 4), ("int64", 5)]

def subByteDtypes : List String := ["int4"]

def dtypeBytes (dtype : String) : Except TilingRaise Int :=
  if dtype ∈ subByteDtypes then .error (.usage "sub-byte")
  else match dtypeBytesTable.lookup dtype with
    | some bytes => .ok bytes
    | none => .error (.usage "unknown dtype")

/-- `DTYPE_TAGS[dtype]` -/
def dtypeTag (dtype : String) : Except TilingRaise Int :=
  match dtypeTags.lookup dtype with
  | some tag => .ok tag
  | none => .error (.keyError dtype)

/-! ### The record -/

def tilingKeySingleTileAligned : Int := 0
def tilingKeyMultiTileAligned : Int := 1
def tilingKeyTailMasked : Int := 2
def tilingKeyRowAligned : Int := 3
def tilingKeyRowTail : Int := 4

def tilingKeys : List Int :=
  [tilingKeySingleTileAligned, tilingKeyMultiTileAligned, tilingKeyTailMasked,
    tilingKeyRowAligned, tilingKeyRowTail]

def tilingSchemaVersion : Int := 1

/-- The numbers of the record. -/
structure TilingFields where
  schemaVersion : Int := tilingSchemaVersion
  tilingKey : Int := tilingKeySingleTileAligned
  dtypeTag : Int := 0
  blockDim : Int := 1
  rows : Int := 1
  hidden : Int := 0
  tileElems : Int := 0
  loopCount : Int := 0
  tailElems : Int := 0
  bufferCount : Int := 1
  baseRows : Int := 0
  extraRows : Int := 0
  totalElements : Int := 0
  workspaceBytes : Int := 0
  reserved0 : Int := 0
  reserved1 : Int := 0

namespace TilingFields

variable (f : TilingFields)

/-- The fields that may not be negative. -/
def counts : List (String × Int) :=
  [("rows", f.rows), ("hidden", f.hidden), ("tile_elems", f.tileElems),
    ("loop_count", f.loopCount), ("tail_elems", f.tailElems), ("base_rows", f.baseRows),
    ("extra_rows", f.extraRows), ("total_elements", f.totalElements),
    ("workspace_bytes", f.workspaceBytes)]

/-- The field the constructor refuses, if any. -/
def problem : Option String :=
  if f.schemaVersion ≠ tilingSchemaVersion then some "schema_version"
  else if f.tilingKey ∉ tilingKeys then some "tiling_key"
  else if f.blockDim < 1 then some "block_dim"
  else if f.bufferCount ∉ [1, 2] then some "buffer_count"
  else match f.counts.find? fun count => count.2 < 0 with
    | some count => some count.1
    | none =>
      if f.blockDim ≤ f.extraRows ∧ f.rows ≠ 0 then some "extra_rows"
      else if f.tileElems < f.tailElems then some "tail_elems"
      else none

/-- Width and value of each field, in the order of the ABI. -/
def abi : List (Nat × Int) :=
  [(4, f.schemaVersion), (4, f.tilingKey), (4, f.dtypeTag), (4, f.blockDim), (4, f.rows),
    (4, f.hidden), (4, f.tileElems), (4, f.loopCount), (4, f.tailElems), (4, f.bufferCount),
    (4, f.baseRows), (4, f.extraRows), (8, f.totalElements), (8, f.workspaceBytes),
    (4, f.reserved0), (4, f.reserved1)]

def Fits : Prop := ∀ field ∈ f.abi, 0 ≤ field.2 ∧ field.2 < 256 ^ field.1

end TilingFields

def tilingStruct : List (Cell Int) := ({} : TilingFields).abi.map fun field => unsigned field.1

def tilingStructSize : Nat := (tilingStruct.map Cell.width).sum

/-- The serialized host→device tiling record, with what its constructor checks. -/
structure TilingData extends TilingFields where
  valid : toTilingFields.problem = none

namespace TilingData

/-- The constructor. -/
def make (f : TilingFields) : Except TilingRaise TilingData :=
  match h : f.problem with
  | some field => .error (.config field)
  | none => .ok ⟨f, h⟩

theorem make_eq_ok {f : TilingFields} (h : f.problem = none) : make f = .ok ⟨f, h⟩ := by
  rw [make]
  split
  · rename_i field hfield
    exact nomatch h.symm.trans hfield
  · rfl

theorem make_eq_error {f : TilingFields} {field : String} (h : f.problem = some field) :
    make f = .error (.config field) := by
  rw [make]
  split
  · rename_i field' hfield
    rw [Option.some.inj (h.symm.trans hfield)]
  · rename_i hnone
    exact nomatch hnone.symm.trans h

def toBytes (t : TilingData) : Except TilingRaise (List (BitVec 8)) :=
  match packRecord (t.abi.map fun field => (unsigned field.1, field.2)) with
  | some bytes => .ok bytes
  | none => .error .structError

def fromBytes (payload : List (BitVec 8)) : Except TilingRaise TilingData :=
  if payload.length ≠ tilingStructSize then .error (.config "payload")
  else match unpackRecord tilingStruct payload with
    | [schemaVersion, tilingKey, dtypeTag, blockDim, rows, hidden, tileElems, loopCount, tailElems,
        bufferCount, baseRows, extraRows, totalElements, workspaceBytes, reserved0, reserved1] =>
      make { schemaVersion, tilingKey, dtypeTag, blockDim, rows, hidden, tileElems, loopCount,
             tailElems, bufferCount, baseRows, extraRows, totalElements, workspaceBytes, reserved0,
             reserved1 }
    | _ => .error .structError

/-- **The record comes back** from its bytes. -/
theorem fromBytes_toBytes {t : TilingData} (h : t.Fits) :
    ∃ bytes, t.toBytes = .ok bytes ∧ bytes.length = tilingStructSize ∧ fromBytes bytes = .ok t := by
  have hkeeps : ∀ e ∈ t.abi.map fun field => (unsigned field.1, field.2), e.1.Keeps e.2 := by
    intro e he
    obtain ⟨field, hfield, rfl⟩ := List.mem_map.mp he
    exact unsigned_keeps (h field hfield).1 (h field hfield).2
  obtain ⟨bytes, hpack, hlength, hunpack⟩ := unpackRecord_packRecord hkeeps
  have hsize : bytes.length = tilingStructSize := hlength
  refine ⟨bytes, ?_, hsize, ?_⟩
  · rw [toBytes, hpack]
  · rw [fromBytes, if_neg (not_not.mpr hsize)]
    have hvalues : unpackRecord tilingStruct bytes = t.abi.map Prod.snd := by
      refine Eq.trans hunpack ?_
      rfl
    rw [hvalues]
    exact make_eq_ok t.valid

/-! ### The rows of a core -/

def rowsForCore (t : TilingData) (coreIndex : Int) : Except TilingRaise Int :=
  if ¬ (0 ≤ coreIndex ∧ coreIndex < t.blockDim) then .error (.usage "core")
  else .ok (t.baseRows + if coreIndex < t.extraRows then 1 else 0)

def startRow (t : TilingData) (coreIndex : Int) : Except TilingRaise Int :=
  if ¬ (0 ≤ coreIndex ∧ coreIndex < t.blockDim) then .error (.usage "core")
  else .ok (coreIndex * t.baseRows + min coreIndex t.extraRows)

def Owns (t : TilingData) (core row : Int) : Prop :=
  ∃ start count, t.startRow core = .ok start ∧ t.rowsForCore core = .ok count ∧
    start ≤ row ∧ row < start + count

section Rows

variable {t : TilingData} {blockDim : Nat} (hblock : t.blockDim = blockDim)

theorem owns_iff (hblock : t.blockDim = blockDim) {base remainder : Nat} (hbase : t.baseRows = base)
    (hextra : t.extraRows = remainder) (core row : Int) : t.Owns core row ↔
    ∃ i r : Nat, core = i ∧ row = r ∧ i < blockDim ∧
      cut base remainder i ≤ r ∧ r < cut base remainder (i + 1) := by
  have hcut : ∀ i : Nat, (i : Int) * base + min (i : Int) remainder = cut base remainder i := by
    intro i
    rw [cut, Nat.cast_add]
    omega
  have hnext : ∀ i : Nat, (cut base remainder i : Int) +
      (base + if (i : Int) < remainder then 1 else 0) = cut base remainder (i + 1) := by
    intro i
    rw [cut_succ]
    split_ifs <;> omega
  constructor
  · rintro ⟨start, count, hstart, hcount, hle, hlt⟩
    rw [startRow] at hstart
    rw [rowsForCore] at hcount
    by_cases hin : 0 ≤ core ∧ core < t.blockDim
    · rw [if_neg (not_not.mpr hin)] at hstart hcount
      obtain ⟨i, rfl⟩ := Int.eq_ofNat_of_zero_le hin.1
      cases hstart
      cases hcount
      rw [hbase, hextra, hcut] at hle hlt
      rw [hnext] at hlt
      obtain ⟨r, rfl⟩ := Int.eq_ofNat_of_zero_le (Int.le_trans (Int.natCast_nonneg _) hle)
      refine ⟨i, r, rfl, rfl, ?_, Int.ofNat_le.mp hle, Int.ofNat_lt.mp hlt⟩
      rw [hblock] at hin
      exact Int.ofNat_lt.mp hin.2
    · rw [if_pos hin] at hstart
      cases hstart
  · rintro ⟨i, r, rfl, rfl, hi, hle, hlt⟩
    have hin : 0 ≤ (i : Int) ∧ (i : Int) < t.blockDim := by
      rw [hblock]
      exact ⟨Int.natCast_nonneg i, Int.ofNat_lt.mpr hi⟩
    refine ⟨_, _, if_neg (not_not.mpr hin), if_neg (not_not.mpr hin), ?_, ?_⟩
    · rw [hbase, hextra, hcut]
      exact Int.ofNat_le.mpr hle
    · rw [hbase, hextra, hcut, hnext]
      exact Int.ofNat_lt.mpr hlt

variable {rows : Nat} (hbase : t.baseRows = (rows / blockDim : Nat))
  (hextra : t.extraRows = (rows % blockDim : Nat)) (hpos : 0 < blockDim)

include hblock hbase hextra hpos

/-- **Every row belongs to one core.** -/
theorem existsUnique_core {row : Int} (hle : 0 ≤ row) (hlt : row < rows) :
    ∃! core, t.Owns core row := by
  obtain ⟨r, rfl⟩ := Int.eq_ofNat_of_zero_le hle
  obtain ⟨i, hi, hunique⟩ := existsUnique_cut hpos (Int.ofNat_lt.mp hlt)
  refine ⟨i, (owns_iff hblock hbase hextra _ _).mpr ⟨i, r, rfl, rfl, hi⟩, ?_⟩
  intro core hcore
  obtain ⟨j, r', rfl, hr, hj⟩ := (owns_iff hblock hbase hextra _ _).mp hcore
  obtain rfl := Int.ofNat.inj hr
  rw [hunique j hj]

theorem row_of_owns {core row : Int} (h : t.Owns core row) : 0 ≤ row ∧ row < rows := by
  obtain ⟨i, r, -, rfl, hi, -, hlt⟩ := (owns_iff hblock hbase hextra _ _).mp h
  have hend := cut_mono (rows / blockDim) (rows % blockDim) (Nat.succ_le_of_lt hi)
  rw [cut_total rows hpos] at hend
  exact ⟨Int.natCast_nonneg r, Int.ofNat_lt.mpr (lt_of_lt_of_le hlt hend)⟩

end Rows

end TilingData

/-! ### The on-chip budget -/

/-- Usable on-chip budget, with what its constructor checks. -/
structure UbBudget where
  nominalBytes : Int
  frameworkReservedBytes : Int := 0
  queueReservedBytes : Int := 0
  alignmentReservedBytes : Int := 0
  implementationReservedBytes : Int := 0
  method : String
  nominal_pos : 0 < nominalBytes
  method_ne : method ≠ ""
  reserved_nonneg : 0 ≤ frameworkReservedBytes ∧ 0 ≤ queueReservedBytes ∧
    0 ≤ alignmentReservedBytes ∧ 0 ≤ implementationReservedBytes

namespace UbBudget

def reservedBytes (b : UbBudget) : Int :=
  b.frameworkReservedBytes + b.queueReservedBytes + b.alignmentReservedBytes +
    b.implementationReservedBytes

def usableBytes (b : UbBudget) : Except TilingRaise Int :=
  let usable := b.nominalBytes - b.reservedBytes
  if usable ≤ 0 then .error (.config "usable_bytes") else .ok usable

end UbBudget

/-- Static UB requirement of one candidate. -/
structure UbEstimate where
  xBytes : Int
  gammaBytes : Int
  yBytes : Int
  squareOrCastTempBytes : Int
  reduceTempBytes : Int
  scalarIntermediateBytes : Int
  alignmentAndQueueOverheadBytes : Int

namespace UbEstimate

def totalBytes (e : UbEstimate) : Int :=
  e.xBytes + e.gammaBytes + e.yBytes + e.squareOrCastTempBytes + e.reduceTempBytes +
    e.scalarIntermediateBytes + e.alignmentAndQueueOverheadBytes

def fits (e : UbEstimate) (budget : UbBudget) : Except TilingRaise Bool := do
  let usable ← budget.usableBytes
  pure (e.totalBytes ≤ usable)

end UbEstimate

/-- The bytes of a streamed gamma, when it is kept on the chip. -/
def gammaCharge (tileElems item bufferCount : Int) (keepGammaOnChip : Bool) :
    Except TilingRaise Int :=
  if keepGammaOnChip then do
    let gamma ← checkedMul "gamma_tile" tileElems item
    checkedMul "gamma_buffers" gamma bufferCount
  else .ok 0

def estimateRmsnormUb (tileElems : Int) (dtype accumDtype : String) (bufferCount : Int)
    (keepGammaOnChip : Bool) : Except TilingRaise UbEstimate := do
  let item ← dtypeBytes dtype
  let accum ← dtypeBytes accumDtype
  let x ← checkedMul "x_tile" tileElems item
  let xBytes ← checkedMul "x_buffers" x bufferCount
  let y ← checkedMul "y_tile" tileElems item
  let yBytes ← checkedMul "y_buffers" y bufferCount
  let gammaBytes ← gammaCharge tileElems item bufferCount keepGammaOnChip
  let squareBytes ← checkedMul "square_temp" tileElems accum
  let reduceBytes ← checkedMul "reduce_temp" (max 1 (tileElems.fdiv 8)) accum
  pure {
    xBytes := xBytes
    gammaBytes := gammaBytes
    yBytes := yBytes
    squareOrCastTempBytes := squareBytes
    reduceTempBytes := reduceBytes
    scalarIntermediateBytes := 64
    alignmentAndQueueOverheadBytes := 512 + 0 }

/-- Add-style budget: `input_count` streamed inputs plus one output. -/
def estimateElementwiseUb (tileElems : Int) (dtype : String) (inputCount bufferCount : Int) :
    Except TilingRaise UbEstimate := do
  let item ← dtypeBytes dtype
  let perBuffer ← checkedMul "elementwise_tile" tileElems item
  let xBytes ← checkedMul "elementwise_inputs" (perBuffer * inputCount) bufferCount
  let yBytes ← checkedMul "elementwise_output" perBuffer bufferCount
  pure {
    xBytes := xBytes
    gammaBytes := 0
    yBytes := yBytes
    squareOrCastTempBytes := 0
    reduceTempBytes := 0
    scalarIntermediateBytes := 64
    alignmentAndQueueOverheadBytes := 512 }

/-- UB cost models the host tiling path knows how to charge. -/
inductive UbModel where
  | rmsnorm | reduce | elementwise
  deriving DecidableEq

def estimateUb (model : UbModel) (tileElems : Int) (dtype accumDtype : String) (bufferCount : Int)
    (keepGammaOnChip : Bool) (inputCount : Int) : Except TilingRaise UbEstimate :=
  match model with
  | .rmsnorm => estimateRmsnormUb tileElems dtype accumDtype bufferCount keepGammaOnChip
  | .reduce => do
    let item ← dtypeBytes dtype
    let accum ← dtypeBytes accumDtype
    let tile ← checkedMul "reduce_tile" tileElems item
    let streamed ← checkedMul "reduce_buffers" tile bufferCount
    pure {
      xBytes := streamed
      gammaBytes := 0
      yBytes := 0
      squareOrCastTempBytes := 0
      reduceTempBytes := accum
      scalarIntermediateBytes := 64
      alignmentAndQueueOverheadBytes := 512 }
  | .elementwise => estimateElementwiseUb tileElems dtype inputCount bufferCount

/-! ### Requests and limits -/

/-- Device-verified limits, with what their constructor checks. -/
structure TilingLimits where
  maxBlockDim : Int
  maxWorkspaceBytes : Int
  alignmentElems : Int
  ubBudget : UbBudget
  source : String
  maxBlockDim_pos : 1 ≤ maxBlockDim
  alignment_pos : 1 ≤ alignmentElems
  source_ne : source ≠ ""

/-- Everything the host tiling function is allowed to look at. -/
structure TilingRequest where
  rows : Int
  hidden : Int
  dtype : String
  blockDim : Int
  tileElems : Int
  layout : String := "contiguous_nd"
  accumDtype : String := "fp32"
  bufferCount : Int := 1
  rowwise : Bool := true
  keepGammaOnChip : Bool := true
  workspaceBytes : Int := 0
  ubModel : UbModel := .rmsnorm

def supportedLayouts : List String := ["contiguous_nd"]

/-- Why a request is refused, with the error that was caught, if there was one. -/
inductive RejectReason where
  | layout
  | negativeDimension
  | emptyDimension
  | dtype (caught : TilingRaise)
  | blockDim
  | product (caught : TilingRaise)
  | indexWidth (total : Int)
  | tileElems
  | tileAlignment
  | workspace
  | ub (required usable : Int)
  | record (caught : TilingRaise)
  | serialSize (size : Nat)

def RejectReason.code : RejectReason → String
  | .layout => "unsupported_layout"
  | .negativeDimension | .emptyDimension => "negative_or_zero_dimension"
  | .dtype _ => "unsupported_dtype"
  | .blockDim => "block_dim_out_of_range"
  | .product _ | .record _ => "checked_arithmetic_overflow"
  | .indexWidth _ => "index_width_exceeded"
  | .tileElems | .tileAlignment => "tile_alignment_violation"
  | .workspace => "workspace_limit_exceeded"
  | .ub .. => "ub_budget_exceeded"
  | .serialSize _ => "serialized_tiling_too_large"

/-- A refusal with its reason. -/
structure TilingRejection where
  reason : RejectReason
  requested : TilingRequest

/-- The ABI record plus everything needed to audit it. -/
structure TilingDecision where
  tiling : TilingData
  ubEstimate : UbEstimate
  limits : TilingLimits
  dtype : String
  accumDtype : String
  layout : String

/-! ### The tiling -/

/-- `(base_rows, extra_rows)` -/
def partitionRows (rows blockDim : Int) : Except TilingRaise (Int × Int) :=
  if rows < 0 then .error (.usage "rows")
  else if blockDim < 1 then .error (.usage "block_dim")
  else .ok (rows.fdiv blockDim, rows.fmod blockDim)

/-- `(loop_count, tail_elems)` for one core's tile loop. -/
def tileLoop (totalElems tileElems : Int) : Except TilingRaise (Int × Int) :=
  if tileElems < 1 then .error (.usage "tile_elems")
  else if totalElems < 0 then .error (.usage "total_elems")
  else
    let loopCount := totalElems.fdiv tileElems
    let tail := totalElems.fmod tileElems
    .ok (if tail ≠ 0 then loopCount + 1 else loopCount, tail)

/-- Pick the device code path. -/
def selectTilingKey (hidden alignmentElems : Int) (rowwise : Bool) : Int :=
  let aligned := hidden.fmod alignmentElems = 0
  if rowwise then if aligned then tilingKeyRowAligned else tilingKeyRowTail
  else if hidden ≤ alignmentElems ∧ aligned then tilingKeySingleTileAligned
  else if aligned then tilingKeyMultiTileAligned else tilingKeyTailMasked

def maxTilingSerializedBytes : Nat := 4096

section

variable (request : TilingRequest) (limits : TilingLimits)

/-- The first half of `compute_tiling`: why the request is refused, or its total of elements. -/
def screen : Except TilingRaise (Except RejectReason Int) :=
  if request.layout ∉ supportedLayouts then .ok (.error .layout)
  else if request.rows < 0 ∨ request.hidden < 0 then .ok (.error .negativeDimension)
  else if request.rows = 0 ∨ request.hidden = 0 then .ok (.error .emptyDimension)
  else match dtypeBytes request.dtype, dtypeBytes request.accumDtype with
    | .error caught, _ => .ok (.error (.dtype caught))
    | .ok _, .error caught => .ok (.error (.dtype caught))
    | .ok _, .ok _ =>
      if request.blockDim < 1 ∨ limits.maxBlockDim < request.blockDim then .ok (.error .blockDim)
      else match checkedMul "total_elements" request.rows request.hidden with
        | .error (.overflow what a b) => .ok (.error (.product (.overflow what a b)))
        | .error e => .error e
        | .ok total =>
          if maxIndex32 < total then .ok (.error (.indexWidth total))
          else if request.tileElems < 1 then .ok (.error .tileElems)
          else if request.tileElems.fmod limits.alignmentElems ≠ 0 then
            .ok (.error .tileAlignment)
          else if limits.maxWorkspaceBytes < request.workspaceBytes then .ok (.error .workspace)
          else .ok (.ok total)

/-- The second half of `compute_tiling`, for a request that was not refused so far. -/
def tileScreened (total : Int) : Except TilingRaise (Except RejectReason TilingDecision) := do
  let (baseRows, extraRows) ← partitionRows request.rows request.blockDim
  let perCoreElems ←
    checkedMul "per_core_elems" (baseRows + if extraRows ≠ 0 then 1 else 0) request.hidden
  let loopUnits := if request.rowwise then request.hidden else perCoreElems
  let (loopCount, tail) ← tileLoop loopUnits request.tileElems
  let ub ← estimateUb request.ubModel request.tileElems request.dtype request.accumDtype
    request.bufferCount request.keepGammaOnChip (if request.ubModel = .elementwise then 2 else 1)
  if ! (← ub.fits limits.ubBudget) then
    return .error (.ub ub.totalBytes (← limits.ubBudget.usableBytes))
  let tilingKey := selectTilingKey request.hidden limits.alignmentElems request.rowwise
  let tag ← dtypeTag request.dtype
  match TilingData.make {
      schemaVersion := tilingSchemaVersion
      tilingKey := tilingKey
      dtypeTag := tag
      blockDim := request.blockDim
      rows := request.rows
      hidden := request.hidden
      tileElems := request.tileElems
      loopCount := loopCount
      tailElems := tail
      bufferCount := request.bufferCount
      baseRows := baseRows
      extraRows := extraRows
      totalElements := total
      workspaceBytes := request.workspaceBytes } with
  | .error caught => return .error (.record caught)
  | .ok tiling =>
    let payload ← tiling.toBytes
    if maxTilingSerializedBytes < payload.length then return .error (.serialSize payload.length)
    return .ok {
      tiling := tiling
      ubEstimate := ub
      limits := limits
      dtype := request.dtype
      accumDtype := request.accumDtype
      layout := request.layout }

/-- The pair that `compute_tiling` returns. -/
def TilingRequest.answer :
    Except RejectReason TilingDecision → Option TilingDecision × Option TilingRejection
  | .error reason => (none, some ⟨reason, request⟩)
  | .ok decision => (some decision, none)

/-- Validate and compute one tiling, or return a structured refusal. -/
def computeTiling : Except TilingRaise (Option TilingDecision × Option TilingRejection) := do
  match ← screen request limits with
  | .error reason => return request.answer (.error reason)
  | .ok total => return request.answer (← tileScreened request limits total)

end

end Hqsb.Ascend
