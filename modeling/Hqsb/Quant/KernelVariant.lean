/-
Hqsb/Quant/KernelVariant.lean

Kernel variants hold the codes they were packed from, for both decoders.

The two decoders are the same function of a payload of the right length, although one
computes indices and the other appends.  A kernel variant is the rows of the matrix, each in
canonical form and filled with zeros up to the stride: row `r` lies between `r * stride` and
`(r + 1) * stride`, and an odd number of nibbles leaves a zero one.  The zero code that pads
the columns is dropped again by the unpacker.
-/
import Hqsb.Lib.Zip
import Hqsb.Quant.CanonicalCodes

namespace Hqsb

open Lib Lib.Halves Lib.Rows List

/-! ### The second decoder -/

theorem unpackPairs_eq (order : NibbleOrder) (count : Nat) (payload : List Byte)
    (codes : List Int) (h : codes.length ≤ count) :
    unpackPairs order count payload codes =
      (codes ++ spread (firstCode order) (secondCode order) payload).take count := by
  induction payload generalizing codes with
  | nil =>
    rw [unpackPairs, show spread (firstCode order) (secondCode order) [] = [] from rfl,
      append_nil, take_of_length_le h]
  | cons byte payload ih =>
    have hpair : (if order = .lowFirst
        then (signedFromNibble (byte &&& 0xF#8), signedFromNibble ((byte >>> 4) &&& 0xF#8))
        else (signedFromNibble ((byte >>> 4) &&& 0xF#8), signedFromNibble (byte &&& 0xF#8))) =
        (firstCode order byte, secondCode order byte) := by
      rcases order with - | - | name <;> rfl
    rw [unpackPairs, spread_cons]
    simp only [hpair]
    split_ifs with hfull hfull
    · -- enough codes before the byte
      rw [take_append_of_le_length hfull, take_of_length_le h]
    · -- enough codes after the first half
      have hlength : (codes ++ [firstCode order byte]).length = count := by
        rw [length_append, length_singleton] at hfull ⊢
        omega
      have hsplit := append_cons codes (firstCode order byte)
        (secondCode order byte :: spread (firstCode order) (secondCode order) payload)
      rw [hsplit, take_left' hlength]
    · rw [ih]
      · rw [append_assoc, append_assoc]
        rfl
      · rw [length_append, length_append, length_singleton,
          length_singleton]
        rw [length_append, length_singleton] at hfull
        omega

variable {bits count : Nat} {payload : List Byte} {codes : List Int} {order : NibbleOrder}

/-- **The second decoder** reads off any payload of the right length what the first one
does. -/
theorem unpackIndependent_eq (hbits : bits = 4 ∨ bits = 8) (order : NibbleOrder)
    (hlength : packedRowBytes bits count = .ok payload.length) :
    unpackIndependent payload count bits order = .ok (decoded bits order payload count) := by
  rw [unpackIndependent, hlength]
  rcases hbits with rfl | rfl
  · have hcount : ((spread (firstCode order) (secondCode order) payload).take count).length =
        count := by
      rw [length_take, length_spread, ← Except.ok.inj hlength]
      omega
    show (raiseIf _ _).bind _ = _
    rw [raiseIf, if_neg (not_not.mpr rfl)]
    show (raiseIf _ _).bind _ = _
    rw [unpackPairs_eq order count payload [] count.zero_le, nil_append, raiseIf,
      if_neg (not_not.mpr hcount)]
    rfl
  · have hsigned : ∀ byte : Byte, byte.toInt = signedFromByte byte := by decide
    show (raiseIf _ _).bind _ = _
    rw [raiseIf, if_neg (not_not.mpr rfl)]
    refine congrArg Except.ok (map_congr_left fun byte _ => hsigned byte)

section

variable {scheme : Option QuantScheme}
  (h : unpackCanonical payload count bits scheme order = .ok codes)

include h

/-- What the first decoder accepts, it accepts with a known width and a known order. -/
theorem known_of_unpackCanonical :
    (bits = 4 ∨ bits = 8) ∧ (order = .lowFirst ∨ order = .highFirst) := by
  simp only [unpackCanonical, bind_ok_iff] at h
  obtain ⟨expected, hexpected, _, -, _, horder, -⟩ := h
  constructor
  · by_contra hnot
    obtain ⟨hfour, height⟩ := not_or.mp hnot
    rw [packedRowBytes, if_neg hfour, if_neg height] at hexpected
    cases hexpected
  · rcases order with - | - | name
    · exact .inl rfl
    · exact .inr rfl
    · cases horder

/-- **The decoders agree.** -/
theorem unpackIndependent_of_unpackCanonical :
    unpackIndependent payload count bits order = .ok codes := by
  obtain ⟨hbits, horder⟩ := known_of_unpackCanonical h
  obtain ⟨hfitting, rfl, -⟩ := (unpackCanonical_ok_iff hbits horder).mp h
  exact unpackIndependent_eq hbits order hfitting.length

end

/-! ### One row -/

/-- **The plan of a layout**, as far as the payload depends on it. -/
structure Planned (scheme : QuantScheme) (rows cols alignment groups : Nat) (order : NibbleOrder)
    (layout : KernelLayout) : Prop where
  rows_eq : layout.rows = rows
  cols_eq : layout.cols = cols
  order_eq : layout.nibbleOrder = order
  alignment_eq : layout.alignment = alignment
  paddedCols_eq : layout.paddedCols = cols + if scheme.bits = 4 ∧ cols % 2 ≠ 0 then 1 else 0
  payloadBytes_eq : layout.payloadBytes = rows * layout.rowStrideBytes
  aligned : alignment ∣ layout.rowStrideBytes
  fits : ∃ bytes, packedRowBytes scheme.bits layout.paddedCols = .ok bytes ∧
    bytes ≤ layout.rowStrideBytes
  scaleCount_eq : layout.scaleCount = rows * groups
  zeroCount_eq : scheme.symmetric = false → layout.zeroCount = rows * groups

theorem le_roundUp (n : Nat) {alignment : Nat} (h : 0 < alignment) :
    n ≤ (n + alignment - 1) / alignment * alignment := by
  have hdiv := Nat.div_add_mod (n + alignment - 1) alignment
  have hmod := Nat.mod_lt (n + alignment - 1) h
  rw [mul_comm] at hdiv
  omega

theorem known_layout {layoutId : String} (h : (layoutId, bits, order) ∈ knownLayouts) :
    (∀ scheme, resolveLayout scheme (some layoutId) = layoutId) ∧
      knownLayouts.lookup layoutId = some (bits, order) ∧ (bits = 4 ∨ bits = 8) ∧
      (order = .lowFirst ∨ order = .highFirst) := by
  fin_cases h
  · exact ⟨fun _ => rfl, by decide, .inl rfl, .inl rfl⟩
  · exact ⟨fun _ => rfl, by decide, .inl rfl, .inr rfl⟩
  · exact ⟨fun _ => rfl, by decide, .inr rfl, .inl rfl⟩

theorem packedRowBytes_ok (hbits : bits = 4 ∨ bits = 8) (cols : Nat) :
    ∃ bytes, packedRowBytes bits cols = .ok bytes := by
  rcases hbits with rfl | rfl
  · exact ⟨_, rfl⟩
  · exact ⟨_, rfl⟩

theorem planKernelLayout_planned {scheme : QuantScheme} {layoutId : String}
    (hlayout : (layoutId, scheme.bits, order) ∈ knownLayouts) (rows : Nat) {cols groups : Nat}
    (hgroups : scheme.unitCount cols = .ok groups) {alignment : Nat} (hpos : 0 < alignment)
    (heven : alignment % 2 = 0) (parent : Option String) :
    ∃ layout, planKernelLayout scheme rows cols (some layoutId) alignment parent = .ok layout ∧
      Planned scheme rows cols alignment groups order layout := by
  obtain ⟨hresolve, hlookup, hbits, -⟩ := known_layout hlayout
  obtain ⟨bytes, hbytes⟩ :=
    packedRowBytes_ok hbits (cols + if scheme.bits = 4 ∧ cols % 2 ≠ 0 then 1 else 0)
  have haligned : ¬ (alignment = 0 ∨ alignment % 2 ≠ 0) := by omega
  rw [planKernelLayout, hresolve]
  simp only [hlookup, raiseIf, if_neg (not_not.mpr rfl), if_neg haligned, hbytes, hgroups]
  refine ⟨_, rfl, ?_⟩
  exact {
    rows_eq := rfl
    cols_eq := rfl
    order_eq := rfl
    alignment_eq := rfl
    paddedCols_eq := rfl
    payloadBytes_eq := rfl
    aligned := Nat.dvd_mul_left _ _
    fits := ⟨bytes, hbytes, le_roundUp bytes hpos⟩
    scaleCount_eq := rfl
    zeroCount_eq := fun hasymmetric => by simp only [hasymmetric]; rfl }

def rowImage (layout : KernelLayout) (bits : Nat) (codes : List Int) : List Byte :=
  let packed := canonicalForm bits layout.nibbleOrder codes
  packed ++ List.replicate (layout.rowStrideBytes - packed.length) 0#8

/-- The codes of a row with the zero code that pads the columns. -/
def paddedRow (layout : KernelLayout) (codes : List Int) : List Int :=
  if layout.paddedCols > layout.cols then codes ++ [0] else codes

section Row

variable {scheme : QuantScheme} {rows cols alignment groups : Nat} {order : NibbleOrder}
  {layout : KernelLayout} (hplan : Planned scheme rows cols alignment groups order layout)
  (hbits : scheme.bits = 4 ∨ scheme.bits = 8)
  (horder : order = .lowFirst ∨ order = .highFirst) {codes : List Int}
  (hcols : codes.length = cols)

include hplan

theorem paddedCols_gt_iff : layout.paddedCols > layout.cols ↔ scheme.bits = 4 ∧ cols % 2 ≠ 0 := by
  rw [hplan.paddedCols_eq, hplan.cols_eq]
  split_ifs with h
  · exact ⟨fun _ => h, fun _ => Nat.lt_succ_self cols⟩
  · exact ⟨fun hlt => absurd hlt (lt_irrefl cols), fun hnot => absurd hnot h⟩

include hcols

theorem length_paddedRow : (paddedRow layout codes).length = layout.paddedCols := by
  rw [paddedRow]
  rcases Decidable.em (scheme.bits = 4 ∧ cols % 2 ≠ 0) with hpad | hfull
  · rw [if_pos ((paddedCols_gt_iff hplan).mpr hpad), length_append, length_singleton,
      hcols, hplan.paddedCols_eq, if_pos hpad]
  · rw [if_neg (mt (paddedCols_gt_iff hplan).mp hfull), hcols, hplan.paddedCols_eq, if_neg hfull,
      add_zero]

/-- The zero code does not change the bytes, only the number of codes they stand for. -/
theorem canonicalForm_paddedRow : canonicalForm scheme.bits order (paddedRow layout codes) =
      canonicalForm scheme.bits order codes := by
  rw [paddedRow]
  split_ifs with hpad
  · obtain ⟨hfour, hodd⟩ := (paddedCols_gt_iff hplan).mp hpad
    rw [hfour]
    exact gather_append_pad _ 0 codes (by rw [hcols]; omega)
  · rfl

theorem take_paddedRow : (paddedRow layout codes).take layout.cols = codes := by
  rw [hplan.cols_eq, ← hcols, paddedRow]
  split_ifs
  · exact take_left
  · exact take_length

include hbits

theorem length_canonicalForm_le :
    (canonicalForm scheme.bits order codes).length ≤ layout.rowStrideBytes := by
  obtain ⟨bytes, hbytes, hle⟩ := hplan.fits
  have hlength := length_canonicalForm hbits order (paddedRow layout codes)
  rw [length_paddedRow hplan hcols, hbytes, canonicalForm_paddedRow hplan hcols] at hlength
  rw [← Except.ok.inj hlength]
  exact hle

theorem length_rowImage : (rowImage layout scheme.bits codes).length = layout.rowStrideBytes := by
  have hle := length_canonicalForm_le hplan hbits hcols
  rw [rowImage, hplan.order_eq, length_append, length_replicate]
  exact Nat.add_sub_of_le hle

variable (hrange : ∀ code ∈ codes, Representable scheme.bits code)

include hrange

omit hbits hcols in
theorem representable_paddedRow : ∀ code ∈ paddedRow layout codes,
    Representable scheme.bits code := by
  intro code hcode
  rw [paddedRow] at hcode
  split_ifs at hcode with hpad
  · rcases mem_append.mp hcode with hcode | hcode
    · exact hrange code hcode
    · obtain rfl := mem_singleton.mp hcode
      rw [((paddedCols_gt_iff hplan).mp hpad).1]
      exact representable_zero
  · exact hrange code hcode

include horder

theorem packRow_eq : packRow layout scheme.bits codes = .ok (rowImage layout scheme.bits codes) := by
  have hfinite : (paddedRow layout codes).any floatOverflows = false := by
    refine any_eq_false.mpr fun code hcode => Bool.eq_false_iff.mp ?_
    refine floatOverflows_of_representable ?_
      (representable_paddedRow hplan hrange code hcode)
    omega
  rw [packRow, hplan.order_eq]
  show (packCanonical (paddedRow layout codes) _ _).bind _ = _
  rw [packCanonical_eq hbits horder, hfinite,
    canonicalForm_paddedRow hplan hcols, rowImage, hplan.order_eq]
  refine congrArg Except.ok ?_
  rw [drop_replicate]

/-- **Both unpackers read the row off its image.** -/
theorem unpackRow_eq (hpos : 0 < cols) (independent : Bool) :
    unpackRow layout scheme.bits independent (rowImage layout scheme.bits codes) =
      .ok codes := by
  have hlength := length_canonicalForm hbits order (paddedRow layout codes)
  rw [length_paddedRow hplan hcols, canonicalForm_paddedRow hplan hcols] at hlength
  have htake : (rowImage layout scheme.bits codes).take
      (canonicalForm scheme.bits order codes).length = canonicalForm scheme.bits order codes := by
    rw [rowImage, hplan.order_eq]
    exact take_left
  have hdecoded := decoded_canonicalForm hbits order
    (representable_paddedRow hplan hrange)
  have hfitting := fitting_canonicalForm (q := paddedRow layout codes) hbits horder
    (.inr fun hnil => ?_)
  · rw [length_paddedRow hplan hcols, canonicalForm_paddedRow hplan hcols] at hdecoded hfitting
    have hunpacked : unpackWith independent (canonicalForm scheme.bits order codes)
        layout.paddedCols scheme.bits order = .ok (paddedRow layout codes) := by
      rw [unpackWith]
      split_ifs
      · rw [unpackIndependent_eq hbits order hlength, hdecoded]
      · exact (unpackCanonical_ok_iff hbits horder).mpr
          ⟨hfitting, hdecoded.symm, fun _ h => nomatch h⟩
    rw [unpackRow, hplan.order_eq]
    refine bind_ok_iff.mpr ⟨_, hlength, bind_ok_iff.mpr ⟨_, htake ▸ hunpacked, ?_⟩⟩
    exact congrArg Except.ok (take_paddedRow hplan hcols)
  · have hempty := take_paddedRow hplan hcols
    rw [hnil, take_nil] at hempty
    rw [← hcols, ← hempty] at hpos
    exact absurd hpos (lt_irrefl 0)

end Row

/-! ### The matrix -/

theorem validateCodes_ok_iff {scheme : QuantScheme} : validateCodes codes scheme = .ok () ↔
      ∀ code ∈ codes, scheme.qmin ≤ code ∧ code ≤ scheme.qmax := by
  have hnone := find?_zipIdx_eq_none (l := codes)
    (p := fun code => decide ¬ (scheme.qmin ≤ code ∧ code ≤ scheme.qmax))
  simp only [decide_eq_false_iff_not, not_not] at hnone
  rw [validateCodes, ← hnone]
  rcases codes.zipIdx.find? _ with - | ⟨code, index⟩
  · exact ⟨fun _ => rfl, fun _ => rfl⟩
  · exact ⟨fun h => (nomatch h), fun h => (nomatch h)⟩

theorem validateScales_ok {scales : List (Option ℚ)} (h : ∀ s ∈ scales, ∃ scale ∈ s, 0 < scale) :
    validateScales scales = .ok () := by
  have hnone := (find?_zipIdx_eq_none (l := scales)
    (p := fun s => decide ¬ ∃ scale ∈ s, 0 < scale)).mpr fun s hs =>
      decide_eq_false (not_not.mpr (h s hs))
  rw [validateScales, hnone]

theorem QuantScheme.representable (scheme : QuantScheme) {code : Int}
    (h : scheme.qmin ≤ code ∧ code ≤ scheme.qmax) : Representable scheme.bits code :=
  ⟨scheme.qmin_bounds.1.trans h.1, scheme.qmax_eq ▸ h.2⟩

/-- **What is packed**: the codes of a matrix, with scale and zero planes that fit. -/
structure KernelInput (q : List Int) (scales : List (Option ℚ)) (zeros : List Int)
    (scheme : QuantScheme) (rows cols : Nat) : Prop where
  cols_pos : 0 < cols
  length_eq : q.length = rows * cols
  in_range : ∀ code ∈ q, scheme.qmin ≤ code ∧ code ≤ scheme.qmax
  scales_pos : ∀ s ∈ scales, ∃ scale ∈ s, 0 < scale
  planes : ∀ groups, scheme.unitCount cols = .ok groups → scales.length = rows * groups ∧
    (scheme.symmetric = false → zeros.length = rows * groups)

section Matrix

variable {q : List Int} {scales : List (Option ℚ)} {zeros : List Int} {scheme : QuantScheme}
  {rows cols : Nat} (hinput : KernelInput q scales zeros scheme rows cols)

include hinput

theorem representable_row {r : Nat} : ∀ code ∈ row cols q r, Representable scheme.bits code :=
  fun code hcode => scheme.representable
    (hinput.in_range code (mem_of_mem_drop (mem_of_mem_take hcode)))

variable {layoutId : String} {order : NibbleOrder}
  (hlayout : (layoutId, scheme.bits, order) ∈ knownLayouts) {alignment : Nat}
  (hpos : 0 < alignment) (heven : alignment % 2 = 0)

include hlayout hpos heven

/-- **The payload** is the images of the rows. -/
theorem packKernelVariant_eq (parent : Option String) :
    ∃ packed groups, packKernelVariant q scales zeros scheme rows cols (some layoutId) alignment
        parent = .ok packed ∧
      Planned scheme rows cols alignment groups order packed.layout ∧
      packed.payload =
        (List.range rows).flatMap fun r => rowImage packed.layout scheme.bits (row cols q r) := by
  obtain ⟨-, -, hbits, horder⟩ := known_layout hlayout
  have hgroups := scheme.unitCount_eq hinput.cols_pos
  obtain ⟨layout, hplanned, hplan⟩ :=
    planKernelLayout_planned hlayout rows hgroups hpos heven parent
  obtain ⟨hscales, hzeros⟩ := hinput.planes _ hgroups
  have hcols : ∀ r < rows, (row cols q r).length = cols := fun r hr =>
    length_row hinput.length_eq hr
  have himage : ∀ r < rows, (rowImage layout scheme.bits (row cols q r)).length =
      layout.rowStrideBytes := fun r hr => length_rowImage hplan hbits (hcols r hr)
  have hpass : ∀ r ∈ List.range rows, ∀ out, (do
      let rowBytes ← packRow layout scheme.bits (row cols q r)
      .ok (setRow layout.rowStrideBytes out r rowBytes)) =
      Except.ok (setRow layout.rowStrideBytes out r
        (rowImage layout scheme.bits (row cols q r))) := by
    intro r hr out
    have hr := mem_range.mp hr
    rw [packRow_eq hplan hbits horder (hcols r hr) (representable_row hinput)]
    rfl
  have hout := foldlM_eq_ok hpass (List.replicate layout.payloadBytes 0#8)
  rw [foldl_setRow himage, drop_of_length_le, append_nil] at hout
  swap
  · rw [length_replicate, hplan.payloadBytes_eq]
  have hlength := length_flatMap_range himage
  refine ⟨{
    layout
    payload := (List.range rows).flatMap fun r => rowImage layout scheme.bits (row cols q r)
    scales
    zeros := if scheme.symmetric then [] else zeros }, _, ?_, hplan, rfl⟩
  simp only [packKernelVariant, bind_ok_iff, raiseIf_eq_ok_iff]
  refine ⟨layout, hplanned, (), not_not.mpr hinput.length_eq, (),
    validateCodes_ok_iff.mpr hinput.in_range, (), validateScales_ok hinput.scales_pos, (), ?_,
    (), ?_, _, hout, (), ?_, rfl⟩
  · rw [hscales, hplan.scaleCount_eq]
    exact not_not.mpr rfl
  · rintro ⟨hasymmetric, hne⟩
    exact hne ((hzeros hasymmetric).trans (hplan.zeroCount_eq hasymmetric).symm)
  · rw [hlength, hplan.payloadBytes_eq]
    exact not_not.mpr rfl

omit heven in
/-- Either unpacker recovers the codes from the images of the rows. -/
theorem unpackKernelVariant_eq {packed : PackedTensor} {groups : Nat}
    (hplan : Planned scheme rows cols alignment groups order packed.layout)
    (hpayload : packed.payload =
      (List.range rows).flatMap fun r => rowImage packed.layout scheme.bits (row cols q r))
    (independent : Bool) : unpackKernelVariant packed scheme independent = .ok q := by
  obtain ⟨-, -, hbits, horder⟩ := known_layout hlayout
  have hcols : ∀ r < rows, (row cols q r).length = cols := fun r hr =>
    length_row hinput.length_eq hr
  have himage : ∀ r < rows, (rowImage packed.layout scheme.bits (row cols q r)).length =
      packed.layout.rowStrideBytes := fun r hr => length_rowImage hplan hbits (hcols r hr)
  have hlength : packed.payload.length = packed.layout.payloadBytes := by
    rw [hpayload, length_flatMap_range himage, hplan.payloadBytes_eq]
  have haligned : packed.payload.length % packed.layout.alignment = 0 := by
    rw [hlength, hplan.payloadBytes_eq, hplan.alignment_eq]
    exact Nat.mod_eq_zero_of_dvd (hplan.aligned.mul_left rows)
  have hrows : (List.range packed.layout.rows).mapM (fun r => unpackRow packed.layout scheme.bits
      independent (row packed.layout.rowStrideBytes packed.payload r)) =
      .ok ((List.range rows).map (row cols q)) := by
    rw [hplan.rows_eq]
    refine mapM_eq_ok fun r hr => ?_
    have hr := mem_range.mp hr
    rw [hpayload, row_flatMap himage hr]
    exact unpackRow_eq hplan hbits horder (hcols r hr) (representable_row hinput) hinput.cols_pos
      independent
  have hflat : ((List.range rows).map (row cols q)).flatten = q := by
    rw [← flatMap_def, flatMap_row, ← hinput.length_eq, take_length]
  simp only [unpackKernelVariant, bind_ok_iff, raiseIf_eq_ok_iff]
  refine ⟨(), not_not.mpr hlength, (), ?_, (), not_not.mpr haligned, _, hrows, (), ?_, (), ?_, ?_⟩
  · rw [hplan.alignment_eq]
    exact hpos.ne'
  · rw [hflat, hplan.rows_eq, hplan.cols_eq]
    exact not_not.mpr hinput.length_eq
  · rw [hflat]
    exact validateCodes_ok_iff.mpr hinput.in_range
  · rw [hflat]

/-- **Kernel variants hold their codes.**  Packing succeeds, both decoders recover the codes,
and each row is its canonical form and zeros, within its own stride.  Whatever the first
decoder accepts, the second one reads in the same way. -/
theorem kernel_variant_round_trip (parent : Option String) :
    (∃ packed, packKernelVariant q scales zeros scheme rows cols (some layoutId) alignment
        parent = .ok packed ∧
      (∀ independent, unpackKernelVariant packed scheme independent = .ok q) ∧
      packed.payload.length = rows * packed.layout.rowStrideBytes ∧
      ∀ r < rows, ∃ bytes, packCanonical (row cols q r) scheme.bits order = .ok bytes ∧
        row packed.layout.rowStrideBytes packed.payload r =
          bytes ++ List.replicate (packed.layout.rowStrideBytes - bytes.length) 0#8 ∧
        (scheme.bits = 4 → cols % 2 = 1 →
          ∀ last ∈ bytes.getLast?, paddingNibble order last = 0)) ∧
    ∀ payload count bits checked nibbleOrder codes,
      unpackCanonical payload count bits checked nibbleOrder = .ok codes →
        unpackIndependent payload count bits nibbleOrder = .ok codes := by
  refine ⟨?_, fun _ _ _ _ _ _ => unpackIndependent_of_unpackCanonical⟩
  obtain ⟨-, -, hbits, horder⟩ := known_layout hlayout
  obtain ⟨packed, groups, hpacked, hplan, hpayload⟩ :=
    packKernelVariant_eq hinput hlayout hpos heven parent
  have hcols : ∀ r < rows, (row cols q r).length = cols := fun r hr =>
    length_row hinput.length_eq hr
  have himage : ∀ r < rows, (rowImage packed.layout scheme.bits (row cols q r)).length =
      packed.layout.rowStrideBytes := fun r hr => length_rowImage hplan hbits (hcols r hr)
  refine ⟨packed, hpacked, unpackKernelVariant_eq hinput hlayout hpos hplan hpayload, ?_, ?_⟩
  · rw [hpayload, length_flatMap_range himage]
  · intro r hr
    have hrow := representable_row hinput (r := r)
    have hfinite : (row cols q r).any floatOverflows = false :=
      any_eq_false.mpr fun code hcode => Bool.eq_false_iff.mp
        (floatOverflows_of_representable (by omega) (hrow code hcode))
    have hnonempty : row cols q r ≠ [] := by
      intro hnil
      have hlength := hcols r hr
      rw [hnil] at hlength
      exact hinput.cols_pos.ne hlength
    have hfitting := fitting_canonicalForm hbits horder (.inr hnonempty)
    refine ⟨canonicalForm scheme.bits order (row cols q r), ?_, ?_, ?_⟩
    · rw [packCanonical_eq hbits horder, hfinite, if_neg Bool.false_ne_true]
    · rw [hpayload, row_flatMap himage hr, rowImage, hplan.order_eq]
    · intro hfour hodd
      exact hfitting.padded hfour (by rw [hcols r hr]; exact hodd)

end Matrix

def fourBits : QuantScheme where
  bits := 4
  valid := by decide +kernel

theorem kernelInput_odd : KernelInput [1, -2, 3, 4, -5, 6] [some 1, some 2] [] fourBits 2 3 where
  cols_pos := by decide
  length_eq := rfl
  in_range := by decide
  scales_pos := by decide
  planes := by
    rintro groups h
    have hone : fourBits.unitCount 3 = .ok 1 := rfl
    obtain rfl : 1 = groups := Except.ok.inj (hone.symm.trans h)
    exact ⟨rfl, fun hasymmetric => nomatch hasymmetric⟩

theorem kernel_variant_round_trip_odd :
    ∃ packed, packKernelVariant [1, -2, 3, 4, -5, 6] [some 1, some 2] [] fourBits 2 3
        (some "hqsb.w4a16.hifirst.nk.v1") 2 none = .ok packed ∧
      ∀ independent, unpackKernelVariant packed fourBits independent = .ok [1, -2, 3, 4, -5, 6] := by
  have hlayout : ("hqsb.w4a16.hifirst.nk.v1", fourBits.bits, NibbleOrder.highFirst) ∈
      knownLayouts := by decide
  obtain ⟨⟨packed, hpacked, hunpacked, -⟩, -⟩ :=
    kernel_variant_round_trip kernelInput_odd hlayout Nat.two_pos rfl none
  exact ⟨packed, hpacked, hunpacked⟩

end Hqsb
