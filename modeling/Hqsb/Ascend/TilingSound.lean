/-
Hqsb/Ascend/TilingSound.lean

When host tiling is total and covers the tensor.

`Admitted` says which requests are screened without a refusal (`screen_of_admitted`).  For
those the record is a function of the request (`recordOf`), and `tileScreened` is the
estimate, the comparison with the budget and the check of that record
(`tileScreened_of_estimate`).  `tilingSound_iff` puts both halves together.
-/
import Hqsb.Ascend.HostTiling
import Hqsb.Lib.Traverse

namespace Hqsb.Ascend

open Lib Lib.Tiling List

/-! ### Screening -/

/-- The requests that are not refused at once. -/
structure Admitted (request : TilingRequest) (limits : TilingLimits) : Prop where
  layout : request.layout ∈ supportedLayouts
  rows : 0 < request.rows
  hidden : 0 < request.hidden
  dtype : ∃ item, dtypeBytes request.dtype = .ok item
  accumDtype : ∃ accum, dtypeBytes request.accumDtype = .ok accum
  blockDim : 1 ≤ request.blockDim
  blockDim_le : request.blockDim ≤ limits.maxBlockDim
  total : request.rows * request.hidden ≤ maxIndex32
  tile : 1 ≤ request.tileElems
  aligned : request.tileElems.fmod limits.alignmentElems = 0
  workspace : request.workspaceBytes ≤ limits.maxWorkspaceBytes

variable {request : TilingRequest} {limits : TilingLimits}

theorem screen_of_admitted (h : Admitted request limits) :
    screen request limits = .ok (.ok (request.rows * request.hidden)) := by
  obtain ⟨item, hitem⟩ := h.dtype
  obtain ⟨accum, haccum⟩ := h.accumDtype
  have hrows := h.rows
  have hhidden := h.hidden
  have hproduct : checkedMul "total_elements" request.rows request.hidden =
      .ok (request.rows * request.hidden) :=
    checkedMul_eq_ok_iff.mpr ⟨hrows.le, hhidden.le, h.total, rfl⟩
  rw [screen, if_neg (not_not.mpr h.layout), if_neg (by omega), if_neg (by omega), hitem, haccum]
  rw [if_neg (not_or.mpr ⟨not_lt.mpr h.blockDim, not_lt.mpr h.blockDim_le⟩), hproduct]
  dsimp only
  rw [if_neg (not_lt.mpr h.total), if_neg (not_lt.mpr h.tile), if_neg (not_not.mpr h.aligned),
    if_neg (not_lt.mpr h.workspace)]

/-- Every other request is refused. -/
theorem screen_of_not_admitted (h : ¬ Admitted request limits) :
    ∃ reason, screen request limits = .ok (.error reason) := by
  by_cases hlayout : request.layout ∈ supportedLayouts
  swap
  · exact ⟨_, if_pos hlayout⟩
  by_cases hnegative : request.rows < 0 ∨ request.hidden < 0
  · exact ⟨_, (if_neg (not_not.mpr hlayout)).trans (if_pos hnegative)⟩
  by_cases hempty : request.rows = 0 ∨ request.hidden = 0
  · exact ⟨_, (if_neg (not_not.mpr hlayout)).trans ((if_neg hnegative).trans (if_pos hempty))⟩
  have hrows : 0 < request.rows := by omega
  have hhidden : 0 < request.hidden := by omega
  rw [screen, if_neg (not_not.mpr hlayout), if_neg hnegative, if_neg hempty]
  rcases hitem : dtypeBytes request.dtype with caught | item
  · exact ⟨_, rfl⟩
  rcases haccum : dtypeBytes request.accumDtype with caught | accum
  · exact ⟨_, rfl⟩
  by_cases hblock : request.blockDim < 1 ∨ limits.maxBlockDim < request.blockDim
  · exact ⟨_, if_pos hblock⟩
  rw [if_neg hblock]
  rcases hproduct : checkedMul "total_elements" request.rows request.hidden with caught | total
  · rw [checkedMul, if_neg (not_lt.mpr hrows.le), if_neg (not_lt.mpr hhidden.le)] at hproduct
    split_ifs at hproduct
    cases hproduct
    exact ⟨_, rfl⟩
  obtain ⟨-, -, htotal, rfl⟩ := checkedMul_eq_ok_iff.mp hproduct
  dsimp only
  split_ifs with hwidth htile haligned hworkspace
  · exact ⟨_, rfl⟩
  · exact ⟨_, rfl⟩
  · exact ⟨_, rfl⟩
  · exact ⟨_, rfl⟩
  · exact absurd ⟨hlayout, hrows, hhidden, ⟨item, hitem⟩, ⟨accum, haccum⟩, by omega, by omega,
      htotal, by omega, not_not.mp haligned, by omega⟩ h

/-! ### Charging the budget -/

def dtypeSize (dtype : String) : Int := (dtypeBytesTable.lookup dtype).getD 0

theorem dtypeBytes_eq {dtype : String} {item : Int} (h : dtypeBytes dtype = .ok item) :
    item = dtypeSize dtype ∧ 1 ≤ item ∧ ∃ tag, dtypeTag dtype = .ok tag ∧ 0 ≤ tag ∧ tag ≤ 5 := by
  rw [dtypeBytes] at h
  split_ifs at h
  rcases hsize : dtypeBytesTable.lookup dtype with - | bytes
  · rw [hsize] at h
    cases h
  rw [hsize] at h
  obtain rfl := Except.ok.inj h
  have hmem : (dtype, bytes) ∈ dtypeBytesTable := by
    obtain ⟨before, after, htable, -⟩ := lookup_eq_some_iff.mp hsize
    rw [htable]
    exact mem_append_right _ mem_cons_self
  refine ⟨by rw [dtypeSize, hsize]; rfl, ?_⟩
  fin_cases hmem <;>
    exact ⟨by decide, _, rfl, by decide, by decide⟩

theorem dtypeTag_lookup {dtype : String} {tag : Int} (h : dtypeTag dtype = .ok tag) :
    (dtypeTags.lookup dtype).getD 0 = tag := by
  rw [dtypeTag] at h
  rcases hlookup : dtypeTags.lookup dtype with - | tag'
  · rw [hlookup] at h
    cases h
  · rw [hlookup] at h
    exact Except.ok.inj h

/-- The products that are taken to charge the budget. -/
def ubProducts (request : TilingRequest) : List Int :=
  let tile := request.tileElems * dtypeSize request.dtype
  match request.ubModel with
  | .rmsnorm =>
    [tile, tile * request.bufferCount, request.tileElems * dtypeSize request.accumDtype]
  | .reduce => [tile, tile * request.bufferCount]
  | .elementwise => [tile, tile * 2 * request.bufferCount]

/-- The buffer count is not negative, and all products are indices of the device. -/
def Representable (request : TilingRequest) : Prop :=
  0 ≤ request.bufferCount ∧ ∀ product ∈ ubProducts request, product ≤ maxIndex32

def TilingRequest.estimate (request : TilingRequest) : Except TilingRaise UbEstimate :=
  estimateUb request.ubModel request.tileElems request.dtype request.accumDtype
    request.bufferCount request.keepGammaOnChip (if request.ubModel = .elementwise then 2 else 1)

theorem checkedMul_ok {a b : Int} (ha : 0 ≤ a) (hb : 0 ≤ b) (hle : a * b ≤ maxIndex32)
    (what : String) : checkedMul what a b = .ok (a * b) :=
  checkedMul_eq_ok_iff.mpr ⟨ha, hb, hle, rfl⟩

section Estimates

variable {tile item accum buffer : Int} {dtype accumDtype : String}
  (hitem : dtypeBytes dtype = .ok item) (haccum : dtypeBytes accumDtype = .ok accum)
  (htile : 1 ≤ tile)

include hitem htile

theorem item_nonneg : 0 ≤ item ∧ 0 ≤ tile * item := by
  have hpos := (dtypeBytes_eq hitem).2.1
  exact ⟨by omega, Int.mul_nonneg (by omega) (by omega)⟩

theorem estimateElementwiseUb_ok_iff : (∃ e, estimateElementwiseUb tile dtype 2 buffer = .ok e) ↔
      0 ≤ buffer ∧ tile * item ≤ maxIndex32 ∧ tile * item * 2 * buffer ≤ maxIndex32 := by
  obtain ⟨hitemNonneg, htileNonneg⟩ := item_nonneg hitem htile
  constructor
  · rintro ⟨e, he⟩
    obtain ⟨item', hitem', he⟩ := bind_ok_iff.mp he
    cases hitem.symm.trans hitem'
    obtain ⟨perBuffer, hper, he⟩ := bind_ok_iff.mp he
    obtain ⟨xBytes, hx, -⟩ := bind_ok_iff.mp he
    obtain ⟨-, -, hperle, rfl⟩ := checkedMul_eq_ok_iff.mp hper
    obtain ⟨-, hbuffer, hxle, -⟩ := checkedMul_eq_ok_iff.mp hx
    exact ⟨hbuffer, hperle, hxle⟩
  · rintro ⟨hbuffer, hper, hx⟩
    have hy : tile * item * buffer ≤ maxIndex32 := by
      have htwice : tile * item * 2 * buffer = 2 * (tile * item * buffer) := by ring
      omega
    have hdouble : 0 ≤ tile * item * 2 := by omega
    exact ⟨_, (bind_of_ok hitem _).trans <|
      (bind_of_ok (checkedMul_ok (by omega) hitemNonneg hper _) _).trans <|
      (bind_of_ok (checkedMul_ok hdouble hbuffer hx _) _).trans <|
      bind_of_ok (checkedMul_ok htileNonneg hbuffer hy _) _⟩

include haccum

theorem estimateReduceUb_ok_iff (keepGammaOnChip : Bool) (inputCount : Int) :
    (∃ e, estimateUb .reduce tile dtype accumDtype buffer keepGammaOnChip inputCount = .ok e) ↔
      0 ≤ buffer ∧ tile * item ≤ maxIndex32 ∧ tile * item * buffer ≤ maxIndex32 := by
  obtain ⟨hitemNonneg, htileNonneg⟩ := item_nonneg hitem htile
  constructor
  · rintro ⟨e, he⟩
    obtain ⟨item', hitem', he⟩ := bind_ok_iff.mp he
    cases hitem.symm.trans hitem'
    obtain ⟨accum', -, he⟩ := bind_ok_iff.mp he
    obtain ⟨perBuffer, hper, he⟩ := bind_ok_iff.mp he
    obtain ⟨xBytes, hx, -⟩ := bind_ok_iff.mp he
    obtain ⟨-, -, hperle, rfl⟩ := checkedMul_eq_ok_iff.mp hper
    obtain ⟨-, hbuffer, hxle, -⟩ := checkedMul_eq_ok_iff.mp hx
    exact ⟨hbuffer, hperle, hxle⟩
  · rintro ⟨hbuffer, hper, hx⟩
    exact ⟨_, (bind_of_ok hitem _).trans <| (bind_of_ok haccum _).trans <|
      (bind_of_ok (checkedMul_ok (by omega) hitemNonneg hper _) _).trans <|
      bind_of_ok (checkedMul_ok htileNonneg hbuffer hx _) _⟩

theorem estimateRmsnormUb_ok_iff (keepGammaOnChip : Bool) :
    (∃ e, estimateRmsnormUb tile dtype accumDtype buffer keepGammaOnChip = .ok e) ↔
      0 ≤ buffer ∧ tile * item ≤ maxIndex32 ∧ tile * item * buffer ≤ maxIndex32 ∧
        tile * accum ≤ maxIndex32 := by
  obtain ⟨hitemNonneg, htileNonneg⟩ := item_nonneg hitem htile
  obtain ⟨haccumNonneg, -⟩ := item_nonneg haccum htile
  constructor
  · rintro ⟨e, he⟩
    obtain ⟨item', hitem', he⟩ := bind_ok_iff.mp he
    cases hitem.symm.trans hitem'
    obtain ⟨accum', haccum', he⟩ := bind_ok_iff.mp he
    cases haccum.symm.trans haccum'
    obtain ⟨x, hx, he⟩ := bind_ok_iff.mp he
    obtain ⟨xBytes, hxBytes, he⟩ := bind_ok_iff.mp he
    obtain ⟨y, -, he⟩ := bind_ok_iff.mp he
    obtain ⟨yBytes, -, he⟩ := bind_ok_iff.mp he
    obtain ⟨gammaBytes, -, he⟩ := bind_ok_iff.mp he
    obtain ⟨squareBytes, hsquare, -⟩ := bind_ok_iff.mp he
    obtain ⟨-, -, hxle, rfl⟩ := checkedMul_eq_ok_iff.mp hx
    obtain ⟨-, hbuffer, hxBytesle, -⟩ := checkedMul_eq_ok_iff.mp hxBytes
    obtain ⟨-, -, hsquarele, -⟩ := checkedMul_eq_ok_iff.mp hsquare
    exact ⟨hbuffer, hxle, hxBytesle, hsquarele⟩
  · rintro ⟨hbuffer, hx, hxBytes, hsquare⟩
    -- the reduce scratch is not larger than the square scratch
    have heighth : tile.fdiv 8 ≤ tile := by
      rw [Int.fdiv_eq_ediv_of_nonneg _ (by decide)]
      omega
    have hreduce : max 1 (tile.fdiv 8) * accum ≤ maxIndex32 :=
      (Int.mul_le_mul_of_nonneg_right (max_le htile heighth) haccumNonneg).trans hsquare
    have hstream := checkedMul_ok (by omega) hitemNonneg hx
    have hbuffers := checkedMul_ok htileNonneg hbuffer hxBytes
    obtain ⟨gammaBytes, hgamma⟩ :
        ∃ g, gammaCharge tile item buffer keepGammaOnChip = .ok g := by
      rw [gammaCharge]
      split_ifs
      · exact ⟨_, (bind_of_ok (hstream _) _).trans (hbuffers _)⟩
      · exact ⟨0, rfl⟩
    exact ⟨_, (bind_of_ok hitem _).trans <| (bind_of_ok haccum _).trans <|
      (bind_of_ok (hstream _) _).trans <| (bind_of_ok (hbuffers _) _).trans <|
      (bind_of_ok (hstream _) _).trans <| (bind_of_ok (hbuffers _) _).trans <|
      (bind_of_ok hgamma _).trans <|
      (bind_of_ok (checkedMul_ok (by omega) haccumNonneg hsquare _) _).trans <|
      bind_of_ok (checkedMul_ok (by omega) haccumNonneg hreduce _) _⟩

end Estimates

/-- **When the estimate is raised out of.** -/
theorem estimate_ok_iff (h : Admitted request limits) :
    (∃ e, request.estimate = .ok e) ↔ Representable request := by
  obtain ⟨item, hitem⟩ := h.dtype
  obtain ⟨accum, haccum⟩ := h.accumDtype
  rw [TilingRequest.estimate, Representable, ubProducts, ← (dtypeBytes_eq hitem).1,
    ← (dtypeBytes_eq haccum).1]
  cases request.ubModel with
  | rmsnorm =>
    simp only [forall_mem_cons, not_mem_nil, false_imp_iff, implies_true, and_true]
    exact estimateRmsnormUb_ok_iff hitem haccum h.tile _
  | reduce =>
    simp only [forall_mem_cons, not_mem_nil, false_imp_iff, implies_true, and_true]
    exact estimateReduceUb_ok_iff hitem haccum h.tile _ _
  | elementwise =>
    simp only [forall_mem_cons, not_mem_nil, false_imp_iff, implies_true, and_true]
    exact estimateElementwiseUb_ok_iff hitem h.tile

theorem tile_le_of_representable (h : Admitted request limits) (hrep : Representable request) :
    request.tileElems ≤ maxIndex32 := by
  obtain ⟨item, hitem⟩ := h.dtype
  obtain ⟨hsize, hpos, -⟩ := dtypeBytes_eq hitem
  have htile : request.tileElems * item ∈ ubProducts request := by
    rw [ubProducts, ← hsize]
    cases request.ubModel <;> exact .head _
  have hle : request.tileElems ≤ request.tileElems * item :=
    le_mul_of_one_le_right (Int.le_trans Int.one_nonneg h.tile) hpos
  exact hle.trans (hrep.2 _ htile)

/-! ### The record of a request -/

namespace TilingRequest

variable (request : TilingRequest)

def perCoreElems : Int :=
  (request.rows.fdiv request.blockDim +
    if request.rows.fmod request.blockDim ≠ 0 then 1 else 0) * request.hidden

def loopUnits : Int := if request.rowwise then request.hidden else request.perCoreElems

def loopCount : Int :=
  if request.loopUnits.fmod request.tileElems ≠ 0 then
    request.loopUnits.fdiv request.tileElems + 1
  else request.loopUnits.fdiv request.tileElems

def recordOf (limits : TilingLimits) : TilingFields where
  tilingKey := selectTilingKey request.hidden limits.alignmentElems request.rowwise
  dtypeTag := (dtypeTags.lookup request.dtype).getD 0
  blockDim := request.blockDim
  rows := request.rows
  hidden := request.hidden
  tileElems := request.tileElems
  loopCount := request.loopCount
  tailElems := request.loopUnits.fmod request.tileElems
  bufferCount := request.bufferCount
  baseRows := request.rows.fdiv request.blockDim
  extraRows := request.rows.fmod request.blockDim
  totalElements := request.rows * request.hidden
  workspaceBytes := request.workspaceBytes

end TilingRequest

theorem exists_sizes (h : Admitted request limits) : ∃ rows hidden blockDim tile : Nat,
    request.rows = rows ∧ request.hidden = hidden ∧ request.blockDim = blockDim ∧
    request.tileElems = tile ∧ 0 < rows ∧ 0 < hidden ∧ 0 < blockDim ∧ 0 < tile := by
  have hrows := h.rows
  have hhidden := h.hidden
  have hblock := h.blockDim
  have htile := h.tile
  exact ⟨request.rows.toNat, request.hidden.toNat, request.blockDim.toNat,
    request.tileElems.toNat, by omega, by omega, by omega, by omega, by omega, by omega, by omega,
    by omega⟩

theorem fdiv_natCast (a b : Nat) : (a : Int).fdiv b = (a / b : Nat) := by
  rw [Int.fdiv_eq_ediv_of_nonneg _ (Int.natCast_nonneg _)]
  rfl

theorem fmod_natCast (a b : Nat) : (a : Int).fmod b = (a % b : Nat) := by
  rw [Int.fmod_eq_emod_of_nonneg _ (Int.natCast_nonneg _)]
  rfl

section

variable (h : Admitted request limits)

include h

/-- The fullest core has work, and not more than all. -/
theorem perCoreElems_bounds :
    0 < request.perCoreElems ∧ request.perCoreElems ≤ request.rows * request.hidden ∧
      0 ≤ request.rows.fdiv request.blockDim +
        if request.rows.fmod request.blockDim ≠ 0 then 1 else 0 := by
  obtain ⟨rows, hidden, blockDim, tile, hr, hh, hb, ht, hrows, hhidden, hblock, htile⟩ :=
    exists_sizes h
  rw [TilingRequest.perCoreElems, hr, hh, hb, fdiv_natCast, fmod_natCast]
  have hdiv := Nat.div_add_mod rows blockDim
  generalize rows / blockDim = quot at *
  generalize rows % blockDim = rest at *
  have hsmall : quot ≤ blockDim * quot := Nat.le_mul_of_pos_left _ hblock
  have hle : quot + (if rest ≠ 0 then 1 else 0) ≤ rows := by
    split_ifs <;> omega
  have hpos : 0 < quot + (if rest ≠ 0 then 1 else 0) := by
    by_contra hzero
    obtain ⟨rfl, hrest⟩ : quot = 0 ∧ (if rest ≠ 0 then 1 else 0) = 0 := by omega
    split_ifs at hrest
    omega
  have hcast : (quot : Int) + (if (rest : Int) ≠ 0 then 1 else 0) =
      ((quot + if rest ≠ 0 then 1 else 0 : Nat) : Int) := by
    split_ifs <;> omega
  rw [hcast]
  refine ⟨?_, ?_, Int.natCast_nonneg _⟩
  · exact Int.mul_pos (Int.ofNat_lt.mpr hpos) (Int.ofNat_lt.mpr hhidden)
  · exact Int.mul_le_mul_of_nonneg_right (Int.ofNat_le.mpr hle) (Int.natCast_nonneg _)

theorem loopUnits_bounds :
    0 < request.loopUnits ∧ request.loopUnits ≤ request.rows * request.hidden := by
  obtain ⟨hpos, hle, -⟩ := perCoreElems_bounds h
  have hrows := h.rows
  have hhidden := h.hidden
  rw [TilingRequest.loopUnits]
  split_ifs
  · exact ⟨hhidden, le_mul_of_one_le_left hhidden.le hrows⟩
  · exact ⟨hpos, hle⟩

theorem partitionRows_ok : partitionRows request.rows request.blockDim =
      .ok (request.rows.fdiv request.blockDim, request.rows.fmod request.blockDim) := by
  rw [partitionRows, if_neg (not_lt.mpr h.rows.le), if_neg (not_lt.mpr h.blockDim)]

theorem tileLoop_ok : tileLoop request.loopUnits request.tileElems =
      .ok (request.loopCount, request.loopUnits.fmod request.tileElems) := by
  rw [tileLoop, if_neg (not_lt.mpr h.tile), if_neg (not_lt.mpr (loopUnits_bounds h).1.le)]
  rfl

/-- **The second half** of the tiling, once the budget is charged. -/
theorem tileScreened_of_estimate {e : UbEstimate}
    (he : request.estimate = .ok e) {usable : Int}
    (husable : limits.ubBudget.usableBytes = .ok usable) :
    tileScreened request limits (request.rows * request.hidden) =
      if usable < e.totalBytes then .ok (.error (.ub e.totalBytes usable))
      else match TilingData.make (request.recordOf limits) with
        | .error caught => .ok (.error (.record caught))
        | .ok tiling => tiling.toBytes >>= fun payload =>
          if maxTilingSerializedBytes < payload.length then
            .ok (.error (.serialSize payload.length))
          else
            .ok (.ok ⟨tiling, e, limits, request.dtype, request.accumDtype, request.layout⟩) := by
  obtain ⟨hcore, hcorele, hcount⟩ := perCoreElems_bounds h
  obtain ⟨item, hitem⟩ := h.dtype
  obtain ⟨-, -, tag, htag, -, -⟩ := dtypeBytes_eq hitem
  have hpartition := partitionRows_ok h
  have hloop := tileLoop_ok h
  have hfits : e.fits limits.ubBudget = .ok (decide (e.totalBytes ≤ usable)) := bind_of_ok husable _
  refine (bind_of_ok hpartition _).trans ?_
  refine (bind_of_ok (checkedMul_ok hcount h.hidden.le (hcorele.trans h.total) _) _).trans ?_
  refine (bind_of_ok hloop _).trans ?_
  refine (bind_of_ok he _).trans ?_
  refine (bind_of_ok hfits _).trans ?_
  by_cases hover : usable < e.totalBytes
  · rw [if_pos hover, if_pos (by rw [decide_eq_false (not_le.mpr hover)]; rfl)]
    exact bind_of_ok husable _
  · rw [if_neg hover, if_neg (by rw [decide_eq_true (not_lt.mp hover)]; exact Bool.false_ne_true)]
    refine (bind_of_ok htag _).trans ?_
    rw [TilingRequest.recordOf, dtypeTag_lookup htag]
    rfl

theorem tileScreened_of_raise {raised : TilingRaise}
    (he : request.estimate = .error raised) :
    tileScreened request limits (request.rows * request.hidden) = .error raised := by
  obtain ⟨hcore, hcorele, hcount⟩ := perCoreElems_bounds h
  refine (bind_of_ok (partitionRows_ok h) _).trans ?_
  refine (bind_of_ok (checkedMul_ok hcount h.hidden.le (hcorele.trans h.total) _) _).trans ?_
  refine (bind_of_ok (tileLoop_ok h) _).trans ?_
  exact bind_of_error he _

end

/-! ### The loop and the parts in numbers -/

theorem exists_quotient {a b : Int} (ha : 0 ≤ a) (hb : 0 < b) :
    0 ≤ a.fdiv b ∧ 0 ≤ a.fmod b ∧ a.fmod b < b ∧ b * a.fdiv b + a.fmod b = a :=
  ⟨Int.fdiv_nonneg ha hb.le, Int.fmod_nonneg_of_pos a hb, Int.fmod_lt_of_pos a hb,
    Int.mul_fdiv_add_fmod a b⟩

/-- **The loop** covers its units, and has one pass when they are one tile. -/
theorem loop_spec (h : Admitted request limits) :
    1 ≤ request.loopCount ∧ request.loopCount ≤ request.loopUnits ∧
    (request.loopCount - 1) * request.tileElems +
      (if request.loopUnits.fmod request.tileElems = 0 then request.tileElems
        else request.loopUnits.fmod request.tileElems) = request.loopUnits ∧
    (request.loopCount = 1 ↔ request.loopUnits ≤ request.tileElems) := by
  have hpos := (loopUnits_bounds h).1
  have htile := h.tile
  obtain ⟨hquot, hrest, hrestlt, hsum⟩ :=
    exists_quotient hpos.le (Int.lt_of_lt_of_le Int.one_pos htile)
  rw [TilingRequest.loopCount]
  generalize request.loopUnits.fdiv request.tileElems = quot at *
  generalize request.loopUnits.fmod request.tileElems = rest at *
  have hle : quot ≤ request.tileElems * quot := le_mul_of_one_le_left hquot htile
  have htwo : 2 ≤ quot → 2 * request.tileElems ≤ request.tileElems * quot := by
    intro htwo
    rw [Int.mul_comm 2]
    exact Int.mul_le_mul_of_nonneg_left htwo (by omega)
  have hcases : quot = 0 ∨ quot = 1 ∨ 2 ≤ quot := by omega
  by_cases hzero : rest = 0
  · rw [if_neg (not_not.mpr hzero)]
    have hstep : (quot - 1) * request.tileElems = request.tileElems * quot - request.tileElems := by
      ring
    rcases hcases with rfl | rfl | hcase
    · omega
    · omega
    · have := htwo hcase
      omega
  · rw [if_pos hzero]
    have hstep : (quot + 1 - 1) * request.tileElems = request.tileElems * quot := by
      ring
    rcases hcases with rfl | rfl | hcase
    · omega
    · omega
    · have := htwo hcase
      omega

/-! ### When the record is valid, and fits -/

theorem selectTilingKey_mem (hidden alignmentElems : Int) (rowwise : Bool) :
    selectTilingKey hidden alignmentElems rowwise ∈ tilingKeys := by
  rw [selectTilingKey]
  split_ifs <;> decide

/-- Every number of the record but the workspace lies in the range of an index. -/
theorem recordOf_bounds (h : Admitted request limits) :
    (0 ≤ request.rows.fdiv request.blockDim ∧ request.rows.fdiv request.blockDim ≤ request.rows) ∧
    (0 ≤ request.rows.fmod request.blockDim ∧
      request.rows.fmod request.blockDim < request.blockDim) ∧
    (0 ≤ request.loopUnits.fmod request.tileElems ∧
      request.loopUnits.fmod request.tileElems < request.tileElems) ∧
    request.rows ≤ request.rows * request.hidden ∧
    request.hidden ≤ request.rows * request.hidden := by
  have hrows := h.rows
  have hhidden := h.hidden
  have hblock := h.blockDim
  obtain ⟨hquot, hrest, hrestlt, hsum⟩ :=
    exists_quotient hrows.le (Int.lt_of_lt_of_le Int.one_pos hblock)
  obtain ⟨-, htail, htaillt, -⟩ := exists_quotient (loopUnits_bounds h).1.le
    (Int.lt_of_lt_of_le Int.one_pos h.tile)
  have hle : request.rows.fdiv request.blockDim ≤
      request.blockDim * request.rows.fdiv request.blockDim := le_mul_of_one_le_left hquot hblock
  exact ⟨⟨hquot, by omega⟩, ⟨hrest, hrestlt⟩, ⟨htail, htaillt⟩,
    le_mul_of_one_le_right hrows.le hhidden, le_mul_of_one_le_left hhidden.le hrows⟩

/-- The other fields of the record are in order, so it depends on the buffer count and the
workspace. -/
theorem problem_recordOf (h : Admitted request limits) : (request.recordOf limits).problem = none ↔
      request.bufferCount ∈ [1, 2] ∧ 0 ≤ request.workspaceBytes := by
  have hrows := h.rows
  have hhidden := h.hidden
  have hblock := h.blockDim
  obtain ⟨hbase, hextra, htail, hrowsle, -⟩ := recordOf_bounds h
  obtain ⟨hcount, -⟩ := loop_spec h
  have hkey : (request.recordOf limits).tilingKey ∈ tilingKeys :=
    selectTilingKey_mem request.hidden limits.alignmentElems request.rowwise
  have hcores : ¬ (request.recordOf limits).blockDim < 1 := not_lt.mpr hblock
  have hnegative : (request.recordOf limits).counts.find? (fun count => count.2 < 0) = none ↔
      0 ≤ request.workspaceBytes := by
    rw [List.find?_eq_none]
    simp only [TilingFields.counts, TilingRequest.recordOf, forall_mem_cons, not_mem_nil,
      false_imp_iff, implies_true, and_true, decide_eq_true_eq, not_lt]
    constructor
    · intro hall
      exact hall.2.2.2.2.2.2.2.2
    · intro hworkspace
      exact ⟨hrows.le, hhidden.le, by omega, by omega, htail.1, hbase.1, hextra.1, by omega,
        hworkspace⟩
  have hremainder : ¬ ((request.recordOf limits).blockDim ≤ (request.recordOf limits).extraRows ∧
      (request.recordOf limits).rows ≠ 0) := fun hle => absurd hle.1 (not_le.mpr hextra.2)
  have hlast : ¬ (request.recordOf limits).tileElems < (request.recordOf limits).tailElems :=
    not_lt.mpr htail.2.le
  have hversion : (request.recordOf limits).schemaVersion = tilingSchemaVersion := rfl
  rw [TilingFields.problem, if_neg (not_not.mpr hkey),
    if_neg hcores]
  by_cases hbuffer : (request.recordOf limits).bufferCount ∈ [1, 2]
  · rw [if_neg (not_not.mpr hbuffer)]
    rcases hfind : (request.recordOf limits).counts.find? (fun count => count.2 < 0) with - | count
    · rw [hfind]
      exact iff_of_true ((if_neg hremainder).trans (if_neg hlast)) ⟨hbuffer, hnegative.mp hfind⟩
    · rw [hfind]
      refine iff_of_false (fun hnone => nomatch hnone) fun hcond => ?_
      rw [hnegative.mpr hcond.2] at hfind
      cases hfind
  · rw [if_pos hbuffer]
    exact iff_of_false (fun hnone => nomatch hnone) fun hcond => hbuffer hcond.1

theorem fits_recordOf (h : Admitted request limits) (hrep : Representable request)
    (hbuffer : request.bufferCount ∈ [1, 2]) (hnonneg : 0 ≤ request.workspaceBytes)
    (hblock : limits.maxBlockDim < 2 ^ 32) (hworkspace : limits.maxWorkspaceBytes < 2 ^ 64) :
    (request.recordOf limits).Fits := by
  have hhidden := h.hidden
  have hblockle := h.blockDim_le
  have htotal := h.total
  have hworkspacele := h.workspace
  obtain ⟨hbase, hextra, htail, hrowsle, hhiddenle⟩ := recordOf_bounds h
  obtain ⟨hcount, hcountle, -⟩ := loop_spec h
  have hunits := (loopUnits_bounds h).2
  have htile : request.tileElems ≤ maxIndex32 := tile_le_of_representable h hrep
  obtain ⟨item, hitem⟩ := h.dtype
  obtain ⟨-, -, tag, htag, htagle, htagge⟩ := dtypeBytes_eq hitem
  have hkey : 0 ≤ selectTilingKey request.hidden limits.alignmentElems request.rowwise ∧
      selectTilingKey request.hidden limits.alignmentElems request.rowwise ≤ 4 := by
    have hmem := selectTilingKey_mem request.hidden limits.alignmentElems request.rowwise
    revert hmem
    generalize selectTilingKey request.hidden limits.alignmentElems request.rowwise = key
    intro hmem
    simp only [tilingKeys, tilingKeySingleTileAligned, tilingKeyMultiTileAligned,
      tilingKeyTailMasked, tilingKeyRowAligned, tilingKeyRowTail, mem_cons, not_mem_nil,
      or_false] at hmem
    omega
  have hbufferle : 0 ≤ request.bufferCount ∧ request.bufferCount ≤ 2 := by
    simp only [mem_cons, not_mem_nil, or_false] at hbuffer
    omega
  have hmax : maxIndex32 = 4294967295 := rfl
  have hversion : tilingSchemaVersion = 1 := rfl
  simp only [TilingFields.Fits, TilingFields.abi, TilingRequest.recordOf, forall_mem_cons,
    not_mem_nil, false_imp_iff, implies_true, and_true, dtypeTag_lookup htag]
  refine ⟨?_, ?_, ?_, ?_, ?_, ?_, ?_, ?_, ?_, ?_, ?_, ?_, ?_, ?_, ?_, ?_⟩ <;> omega

/-! ### What a decision promises -/

/-- The fullest core has `count` rows. -/
def IsFullest (t : TilingData) (count : Int) : Prop :=
  (∃ core, t.rowsForCore core = .ok count) ∧
    ∀ core count', t.rowsForCore core = .ok count' → count' ≤ count

/-- A decision that covers the tensor exactly. -/
structure DecisionSound (request : TilingRequest) (t : TilingData) : Prop where
  rows : ∀ row, 0 ≤ row → row < request.rows → ∃! core, t.Owns core row
  inside : ∀ core row, t.Owns core row → 0 ≤ row ∧ row < request.rows
  loop : ∃ count, IsFullest t count ∧
    (t.loopCount - 1) * t.tileElems + (if t.tailElems = 0 then t.tileElems else t.tailElems) =
      if request.rowwise then request.hidden else count * request.hidden
  single : t.tilingKey = tilingKeySingleTileAligned → t.loopCount = 1
  fits : t.Fits
  roundTrip : ∃ bytes, t.toBytes = .ok bytes ∧ TilingData.fromBytes bytes = .ok t

variable (request limits)

/-- Host tiling answers, and a decision is sound. -/
structure TilingSound : Prop where
  answers : ∃ answer, computeTiling request limits = .ok answer ∧
    ((∃ decision, answer = (some decision, none)) ∨ ∃ rejection, answer = (none, some rejection))
  decided : ∀ decision rejection, computeTiling request limits = .ok (some decision, rejection) →
    DecisionSound request decision.tiling

/-- The budget and the record let the request through. -/
def Charged : Prop :=
  (∃ e usable, request.estimate = .ok e ∧ limits.ubBudget.usableBytes = .ok usable ∧
    e.totalBytes ≤ usable) ∧ request.bufferCount ∈ [1, 2] ∧ 0 ≤ request.workspaceBytes

/-- A flat tensor whose hidden size is one alignment unit has one tile on the fullest core. -/
def TilesOnce : Prop :=
  request.rowwise = false → request.hidden = limits.alignmentElems →
    request.perCoreElems ≤ request.tileElems

def Handled : Prop :=
  Admitted request limits →
    Representable request ∧ (Charged request limits → TilesOnce request limits)

variable {request limits}

theorem selectTilingKey_single_iff (h : Admitted request limits) :
    selectTilingKey request.hidden limits.alignmentElems request.rowwise =
        tilingKeySingleTileAligned ↔
      request.rowwise = false ∧ request.hidden = limits.alignmentElems := by
  have hhidden := h.hidden
  rw [selectTilingKey]
  cases request.rowwise with
  | true =>
    refine iff_of_false ?_ fun hcond => Bool.false_ne_true hcond.1.symm
    rw [if_pos rfl]
    split_ifs <;> decide
  | false =>
    have hunit : request.hidden ≤ limits.alignmentElems ∧
        request.hidden.fmod limits.alignmentElems = 0 ↔
          request.hidden = limits.alignmentElems := by
      constructor
      · rintro ⟨hle, hdvd⟩
        exact le_antisymm hle (Int.le_of_dvd hhidden (Int.dvd_of_fmod_eq_zero hdvd))
      · intro heq
        rw [heq, Int.fmod_self]
        exact ⟨le_refl _, rfl⟩
    by_cases hcond : request.hidden ≤ limits.alignmentElems ∧
        request.hidden.fmod limits.alignmentElems = 0
    · rw [if_pos hcond]
      exact iff_of_true rfl ⟨rfl, hunit.mp hcond⟩
    · rw [if_neg hcond]
      refine iff_of_false ?_ fun hright => hcond (hunit.mpr hright.2)
      split_ifs <;> decide

theorem isFullest_recordOf (h : Admitted request limits) {t : TilingData}
    (ht : t.toTilingFields = request.recordOf limits) :
    IsFullest t (request.rows.fdiv request.blockDim +
      if request.rows.fmod request.blockDim ≠ 0 then 1 else 0) := by
  obtain ⟨-, hextra, -⟩ := recordOf_bounds h
  have hcores : t.blockDim = request.blockDim := congrArg TilingFields.blockDim ht
  have hbaseRows : t.baseRows = request.rows.fdiv request.blockDim :=
    congrArg TilingFields.baseRows ht
  have hextraRows : t.extraRows = request.rows.fmod request.blockDim :=
    congrArg TilingFields.extraRows ht
  refine ⟨⟨0, ?_⟩, ?_⟩
  · rw [TilingData.rowsForCore, if_neg (by omega)]
    congr 2
    split_ifs <;> omega
  · intro core count hcount
    rw [TilingData.rowsForCore, hextraRows] at hcount
    split_ifs at hcount ⊢ <;> (obtain rfl := Except.ok.inj hcount; omega)

/-- **The record of a request** that was let through is sound exactly when the loop of a single
tile has one pass. -/
theorem decisionSound_iff (h : Admitted request limits) (hrep : Representable request)
    (hbuffer : request.bufferCount ∈ [1, 2]) (hnonneg : 0 ≤ request.workspaceBytes)
    (hblock : limits.maxBlockDim < 2 ^ 32) (hworkspace : limits.maxWorkspaceBytes < 2 ^ 64)
    {t : TilingData} (ht : t.toTilingFields = request.recordOf limits) :
    DecisionSound request t ↔ TilesOnce request limits := by
  have hkey : t.tilingKey = tilingKeySingleTileAligned ↔
      request.rowwise = false ∧ request.hidden = limits.alignmentElems := by
    rw [← selectTilingKey_single_iff h]
    exact Eq.congr_left (congrArg TilingFields.tilingKey ht)
  obtain ⟨-, -, hloop, hone⟩ := loop_spec h
  have hcount : t.loopCount = request.loopCount := congrArg TilingFields.loopCount ht
  have hunits : request.rowwise = false → request.loopUnits = request.perCoreElems := by
    intro hflat
    rw [TilingRequest.loopUnits, hflat, if_neg Bool.false_ne_true]
  constructor
  · intro hsound hflat hunit
    have hsingle := hsound.single (hkey.mpr ⟨hflat, hunit⟩)
    rw [hcount, hone, hunits hflat] at hsingle
    exact hsingle
  · intro honce
    obtain ⟨rows, hidden, blockDim, tile, hr, -, hb, -, -, -, hpos, -⟩ := exists_sizes h
    have hcores : t.blockDim = blockDim := (congrArg TilingFields.blockDim ht).trans hb
    have hbase : t.baseRows = (rows / blockDim : Nat) := by
      rw [← fdiv_natCast, ← hr, ← hb]
      exact congrArg TilingFields.baseRows ht
    have hextra : t.extraRows = (rows % blockDim : Nat) := by
      rw [← fmod_natCast, ← hr, ← hb]
      exact congrArg TilingFields.extraRows ht
    have hfits : t.Fits := by
      rw [ht]
      exact fits_recordOf h hrep hbuffer hnonneg hblock hworkspace
    obtain ⟨bytes, hbytes, -, hback⟩ := TilingData.fromBytes_toBytes hfits
    refine ⟨?_, ?_, ⟨_, isFullest_recordOf h ht, ?_⟩, ?_, hfits, ⟨bytes, hbytes, hback⟩⟩
    · intro row hle hlt
      rw [hr] at hlt
      exact TilingData.existsUnique_core hcores hbase hextra hpos hle hlt
    · intro core row howns
      rw [hr]
      exact TilingData.row_of_owns hcores hbase hextra hpos howns
    · rw [ht]
      exact hloop
    · intro hsingle
      obtain ⟨hflat, hunit⟩ := hkey.mp hsingle
      rw [hcount, hone, hunits hflat]
      exact honce hflat hunit

/-! ### The whole function -/

theorem computeTiling_of_ok (h : Admitted request limits) {r : Except RejectReason TilingDecision}
    (hr : tileScreened request limits (request.rows * request.hidden) = .ok r) :
    computeTiling request limits = .ok (request.answer r) :=
  (bind_of_ok (screen_of_admitted h) _).trans (bind_of_ok hr _)

theorem computeTiling_of_error (h : Admitted request limits) {raised : TilingRaise}
    (hr : tileScreened request limits (request.rows * request.hidden) = .error raised) :
    computeTiling request limits = .error raised :=
  (bind_of_ok (screen_of_admitted h) _).trans (bind_of_error hr _)

theorem answer_sides (request : TilingRequest) (r : Except RejectReason TilingDecision) :
    (∃ decision, request.answer r = (some decision, none)) ∨
      ∃ rejection, request.answer r = (none, some rejection) := by
  cases r with
  | error reason => exact .inr ⟨_, rfl⟩
  | ok decision => exact .inl ⟨decision, rfl⟩

theorem answer_decision {r : Except RejectReason TilingDecision} {decision : TilingDecision}
    {rejection : Option TilingRejection} (h : request.answer r = (some decision, rejection)) :
    r = .ok decision := by
  cases r with
  | error reason => exact nomatch congrArg Prod.fst h
  | ok decision' => exact congrArg Except.ok (Option.some.inj (congrArg Prod.fst h))

/-- **A representable request** is answered, with a sound decision unless it is let through and
does not tile once. -/
theorem tileScreened_sound (h : Admitted request limits) (hrep : Representable request)
    (husable : ∃ usable, limits.ubBudget.usableBytes = .ok usable)
    (hblock : limits.maxBlockDim < 2 ^ 32) (hworkspace : limits.maxWorkspaceBytes < 2 ^ 64) :
    ∃ r, tileScreened request limits (request.rows * request.hidden) = .ok r ∧
      ((∀ decision, r = .ok decision → DecisionSound request decision.tiling) ↔
        (Charged request limits → TilesOnce request limits)) := by
  obtain ⟨e, he⟩ := (estimate_ok_iff h).mpr hrep
  obtain ⟨usable, husable⟩ := husable
  rw [tileScreened_of_estimate h he husable]
  have refused : ∀ reason : RejectReason, ¬ Charged request limits →
      ((∀ decision, (Except.error reason : Except RejectReason TilingDecision) = .ok decision →
        DecisionSound request decision.tiling) ↔
          (Charged request limits → TilesOnce request limits)) := fun reason hnot =>
    iff_of_true (fun decision hdecision => nomatch hdecision) fun hcharged => absurd hcharged hnot
  by_cases hover : usable < e.totalBytes
  · rw [if_pos hover]
    refine ⟨_, rfl, refused _ ?_⟩
    rintro ⟨⟨e', usable', he', husable', hle⟩, -⟩
    cases he.symm.trans he'
    cases husable.symm.trans husable'
    exact absurd hover (not_lt.mpr hle)
  rw [if_neg hover]
  rcases hproblem : (request.recordOf limits).problem with - | field
  · obtain ⟨hbuffer, hnonneg⟩ := (problem_recordOf h).mp hproblem
    rw [TilingData.make_eq_ok hproblem]
    have hsound := decisionSound_iff h hrep hbuffer hnonneg hblock hworkspace
      (t := ⟨request.recordOf limits, hproblem⟩) rfl
    obtain ⟨bytes, hbytes, hlength, -⟩ := TilingData.fromBytes_toBytes
      (t := ⟨request.recordOf limits, hproblem⟩)
      (fits_recordOf h hrep hbuffer hnonneg hblock hworkspace)
    have hshort : ¬ maxTilingSerializedBytes < bytes.length := by
      rw [hlength]
      decide
    refine ⟨_, (bind_of_ok hbytes _).trans (if_neg hshort), ?_⟩
    constructor
    · intro hall _
      exact hsound.mp (hall _ rfl)
    · intro honce decision hdecision
      cases hdecision
      exact hsound.mpr (honce ⟨⟨e, usable, he, husable, not_lt.mp hover⟩, hbuffer, hnonneg⟩)
  · rw [TilingData.make_eq_error hproblem]
    refine ⟨_, rfl, refused _ ?_⟩
    rintro ⟨-, hrecord⟩
    exact nomatch hproblem.symm.trans ((problem_recordOf h).mpr hrecord)

/-- **Host tiling** is total, and its decisions cover the tensor, for exactly the requests that are
handled. -/
theorem tilingSound_iff (husable : ∃ usable, limits.ubBudget.usableBytes = .ok usable)
    (hblock : limits.maxBlockDim < 2 ^ 32) (hworkspace : limits.maxWorkspaceBytes < 2 ^ 64) :
    TilingSound request limits ↔ Handled request limits := by
  by_cases h : Admitted request limits
  swap
  · -- a refusal is an answer, and there is no decision
    obtain ⟨reason, hreason⟩ := screen_of_not_admitted h
    have hanswer : computeTiling request limits = .ok (request.answer (.error reason)) :=
      bind_of_ok hreason _
    refine iff_of_true ⟨⟨_, hanswer, answer_sides _ _⟩, ?_⟩ fun hadmitted => absurd hadmitted h
    intro decision rejection hdecision
    exact nomatch answer_decision (Except.ok.inj (hanswer.symm.trans hdecision))
  by_cases hrep : Representable request
  · obtain ⟨r, hr, hiff⟩ := tileScreened_sound h hrep husable hblock hworkspace
    have hanswer := computeTiling_of_ok h hr
    constructor
    · intro hsound _
      refine ⟨hrep, hiff.mp ?_⟩
      rintro decision rfl
      exact hsound.decided decision none hanswer
    · intro hhandled
      refine ⟨⟨_, hanswer, answer_sides _ _⟩, ?_⟩
      intro decision rejection hdecision
      exact hiff.mpr (hhandled h).2 decision
        (answer_decision (Except.ok.inj (hanswer.symm.trans hdecision)))
  · -- the estimate is raised out of
    rcases hestimate : request.estimate with raised | e
    · have hraised := computeTiling_of_error h (tileScreened_of_raise h hestimate)
      refine iff_of_false ?_ fun hhandled => hrep (hhandled h).1
      intro hsound
      obtain ⟨answer, hanswer, -⟩ := hsound.answers
      exact nomatch hraised.symm.trans hanswer
    · exact absurd ((estimate_ok_iff h).mp ⟨e, hestimate⟩) hrep

def probedLimits : TilingLimits where
  maxBlockDim := 24
  maxWorkspaceBytes := 1048576
  alignmentElems := 16
  ubBudget := {
    nominalBytes := 196608
    method := "runtime_query"
    nominal_pos := by decide
    method_ne := by decide
    reserved_nonneg := by decide }
  source := "probe"
  maxBlockDim_pos := by decide
  alignment_pos := by decide
  source_ne := by decide

/-- 64 rows of one alignment unit, looped over as one range of 1024 elements. -/
def flatRequest : TilingRequest where
  rows := 64
  hidden := 16
  dtype := "fp16"
  blockDim := 1
  tileElems := 512
  rowwise := false

/-- One element, with a tile that is out of range. -/
def wideRequest : TilingRequest where
  rows := 1
  hidden := 1
  dtype := "fp16"
  blockDim := 1
  tileElems := 4294967296

theorem tilingSound_iff_flat :
    TilingSound flatRequest probedLimits ↔ Handled flatRequest probedLimits :=
  tilingSound_iff ⟨196608, rfl⟩ (by decide) (by decide)

/-- **Host tiling** raises for one request, and labels two passes as a single tile for another. -/
theorem tiling_raises_and_mislabels :
    ¬ TilingSound wideRequest probedLimits ∧ ¬ TilingSound flatRequest probedLimits := by
  constructor
  · intro hsound
    obtain ⟨answer, hanswer, -⟩ := hsound.answers
    have hraised : computeTiling wideRequest probedLimits =
        .error (.overflow "x_tile" 4294967296 2) := by rfl
    exact nomatch hraised.symm.trans hanswer
  · intro hsound
    have hproblem : (flatRequest.recordOf probedLimits).problem = none := by decide
    have hanswer : ∃ e, computeTiling flatRequest probedLimits =
        .ok (some ⟨⟨flatRequest.recordOf probedLimits, hproblem⟩, e, probedLimits, "fp16", "fp32",
          "contiguous_nd"⟩, none) := ⟨_, rfl⟩
    obtain ⟨e, hanswer⟩ := hanswer
    have hone : (flatRequest.recordOf probedLimits).loopCount = 1 :=
      (hsound.decided _ _ hanswer).single rfl
    cases hone

end Hqsb.Ascend
