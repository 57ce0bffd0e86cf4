/-
Hqsb/Quant/QuantizeBounds.lean

What holds of every quantised tensor, values that are not finite included.

The codes and the zero points are in the range of the scheme, a scale that is a number is
positive, and there are as many of them as units.  It is the invariant of the loop over the units
(`Encoding.Bounded`), which every unit keeps (`Encoding.Bounded.enterUnit`).
-/
import Hqsb.Quant.QuantizeRun

namespace Hqsb

open Lib Lib.AxisUnits List

namespace QuantScheme

def InRange (scheme : QuantScheme) (code : Int) : Prop := scheme.qmin ≤ code ∧ code ≤ scheme.qmax

variable {scheme : QuantScheme}

theorem inRange_zero : scheme.InRange 0 := ⟨scheme.qmin_bounds.2, scheme.qmax_nonneg⟩

theorem qmin_le_qmax : scheme.qmin ≤ scheme.qmax := scheme.qmin_bounds.2.trans scheme.qmax_nonneg

end QuantScheme

/-! ### One unit -/

structure UnitCode.Bounded (scheme : QuantScheme) (unit : UnitCode) : Prop where
  scale : ∀ x, unit.scale = some x → 0 < x
  zero : scheme.InRange unit.zero
  codes : ∀ c ∈ unit.codes, scheme.InRange c

section Unit

variable {scheme : QuantScheme} {roundFn : ℚ → Int} {chunk : List (Option ℚ)} {unit : UnitCode}

theorem code_inRange (scheme : QuantScheme) (roundFn : ℚ → Int) (value scale : Option ℚ)
    (zero : Int) : scheme.InRange (code scheme roundFn value scale zero).1 := by
  rcases value with - | value
  · exact scheme.inRange_zero
  · rcases scale with - | scale
    · exact scheme.inRange_zero
    · rw [code]
      dsimp only
      split_ifs with hscale hhigh hlow
      · exact scheme.inRange_zero
      · exact ⟨scheme.qmin_le_qmax, le_rfl⟩
      · exact ⟨le_rfl, scheme.qmin_le_qmax⟩
      · exact ⟨not_lt.mp hlow, not_lt.mp hhigh⟩

theorem codeUnit_bounded {scale : Option ℚ} {zero : Int} (hscale : ∀ x, scale = some x → 0 < x)
    (hzero : scheme.InRange zero) :
    (codeUnit scheme roundFn chunk scale zero).Bounded scheme where
  scale := hscale
  zero := hzero
  codes := by
    intro c hc
    obtain ⟨coded, hcoded, rfl⟩ := mem_map.mp hc
    obtain ⟨value, -, rfl⟩ := mem_map.mp hcoded
    exact code_inRange scheme roundFn value scale zero

theorem zeroUnit_bounded {scale : Option ℚ} (hscale : ∀ x, scale = some x → 0 < x)
    (zeroGroup constantGroup : Bool) :
    (zeroUnit chunk scale zeroGroup constantGroup).Bounded scheme where
  scale := hscale
  zero := scheme.inRange_zero
  codes := by
    intro c hc
    obtain ⟨-, -, rfl⟩ := mem_map.mp hc
    exact scheme.inRange_zero

theorem amaxOf_nonneg {amax : ℚ} (h : amaxOf chunk = some amax) : 0 ≤ amax := by
  rw [amaxOf] at h
  split_ifs at h
  cases h
  rcases hmax : (chunk.reduceOption.map fun value => |value|).max? with - | top
  · exact le_rfl
  · obtain ⟨value, -, rfl⟩ := mem_map.mp (List.max?_mem hmax)
    exact abs_nonneg value

theorem zeroGroupScale_some : ∀ x, some (zeroGroupScale scheme) = some x → 0 < x := by
  rintro x ⟨⟩
  exact zeroGroupScale_pos scheme

theorem encodeSymmetric_bounded (h : encodeSymmetric scheme roundFn chunk = .ok unit) :
    unit.Bounded scheme := by
  rw [encodeSymmetric.eq_def] at h
  rcases hamax : amaxOf chunk with - | amax
  · rw [hamax] at h
    cases h
    exact codeUnit_bounded (fun _ h => nomatch h) scheme.inRange_zero
  · rw [hamax] at h
    dsimp only at h
    split_ifs at h with hflat hbits
    · cases h
      exact zeroUnit_bounded zeroGroupScale_some true false
    · cases h
      refine codeUnit_bounded ?_ scheme.inRange_zero
      rintro x ⟨⟩
      have hpositive : 0 < scheme.qmaxPositive :=
        scheme.qmaxPositive_pos fun hone => hbits (scheme.qmaxPositive_eq_zero_iff.mpr hone)
      exact div_pos ((amaxOf_nonneg hamax).lt_of_ne' hflat) (Int.cast_pos.mpr hpositive)

theorem encodeAsymmetric_bounded {unitIndex : Nat}
    (h : encodeAsymmetric scheme roundFn unitIndex chunk = .ok unit) : unit.Bounded scheme := by
  rw [encodeAsymmetric.eq_def] at h
  rcases hmin : chunk.reduceOption.min? with - | xmin
  · rw [hmin] at h
    cases h
    refine zeroUnit_bounded ?_ false false
    rintro x ⟨⟩
  · rcases hmax : chunk.reduceOption.max? with - | xmax
    · rw [hmin, hmax] at h
      cases h
      refine zeroUnit_bounded ?_ false false
      rintro x ⟨⟩
    · rw [hmin, hmax] at h
      dsimp only at h
      split_ifs at h with hconstant hreject hspan
      · cases h
        exact zeroUnit_bounded zeroGroupScale_some false true
      · cases h
        apply codeUnit_bounded
        · -- the span and the number of steps are positive
          rintro x ⟨⟩
          have hle : xmin ≤ xmax := (List.min?_eq_some_iff.mp hmin).2 xmax (List.max?_mem hmax)
          have hsteps : 0 < scheme.qmax - scheme.qmin := by
            have hrange := scheme.qmin_le_qmax
            omega
          exact div_pos (sub_pos.mpr (hle.lt_of_ne' hconstant)) (Int.cast_pos.mpr hsteps)
        · exact ⟨le_max_left _ _, max_le scheme.qmin_le_qmax (min_le_left _ _)⟩

theorem encodeUnit_bounded {unitIndex : Nat}
    (h : encodeUnit scheme roundFn unitIndex chunk = .ok unit) : unit.Bounded scheme := by
  rw [encodeUnit] at h
  split_ifs at h
  · exact encodeSymmetric_bounded h
  · exact encodeAsymmetric_bounded h

end Unit

/-! ### The loop -/

structure Encoding.Bounded (scheme : QuantScheme) (count units : Nat) (s : Encoding) : Prop where
  length_q : s.q.length = count
  codes : ∀ c ∈ s.q, scheme.InRange c
  length_scales : s.scales.length = units
  scales : ∀ x, some x ∈ s.scales → 0 < x
  length_zeros : s.zeros.length = if scheme.symmetric then 0 else units
  zeros : ∀ z ∈ s.zeros, scheme.InRange z

section Loop

variable {scheme : QuantScheme} {count units : Nat} {s : Encoding}

theorem length_scatter (indices : List Nat) (codes q : List Int) :
    (scatter indices codes q).length = q.length := by
  rw [scatter]
  generalize indices.zip codes = entries
  induction entries generalizing q with
  | nil => rfl
  | cons e entries ih => rw [foldl_cons, ih, length_set]

/-- What is scattered comes from the codes or was there before. -/
theorem mem_scatter {indices : List Nat} {codes q : List Int} {c : Int}
    (h : c ∈ scatter indices codes q) : c ∈ codes ∨ c ∈ q := by
  have hzip : ∀ e ∈ indices.zip codes, e.2 ∈ codes := fun e he => (of_mem_zip he).2
  rw [scatter] at h
  generalize indices.zip codes = entries at h hzip
  induction entries generalizing q with
  | nil => exact .inr h
  | cons e entries ih =>
    rcases ih h fun e' he' => hzip e' (mem_cons_of_mem e he') with hcodes | hset
    · exact .inl hcodes
    · rcases mem_or_eq_of_mem_set hset with hq | rfl
      · exact .inr hq
      · exact .inl (hzip e mem_cons_self)

/-- **One unit.** -/
theorem Encoding.Bounded.enterUnit (h : s.Bounded scheme count units) {unit : UnitCode}
    (hunit : unit.Bounded scheme) (unitIndex : Nat) (indices : List Nat)
    (chunk : List (Option ℚ)) :
    (s.enterUnit scheme unitIndex indices chunk unit).Bounded scheme count (units + 1) where
  length_q := (length_scatter _ _ _).trans h.length_q
  codes := by
    intro c hc
    rcases mem_scatter hc with hnew | hold
    · exact hunit.codes c hnew
    · exact h.codes c hold
  length_scales := by
    show (s.scales ++ [unit.scale]).length = units + 1
    rw [length_append, h.length_scales, length_singleton]
  scales := by
    intro x hx
    rcases mem_append.mp hx with hold | hnew
    · exact h.scales x hold
    · exact hunit.scale x (mem_singleton.mp hnew).symm
  length_zeros := by
    have hlength := h.length_zeros
    show (if scheme.symmetric then s.zeros else s.zeros ++ [unit.zero]).length = _
    split_ifs at hlength ⊢
    · exact hlength
    · rw [length_append, hlength, length_singleton]
  zeros := by
    have hzeros : ∀ z ∈ s.zeros ++ [unit.zero], scheme.InRange z := by
      intro z hz
      rcases mem_append.mp hz with hold | hnew
      · exact h.zeros z hold
      · exact mem_singleton.mp hnew ▸ hunit.zero
    show ∀ z ∈ (if scheme.symmetric then s.zeros else s.zeros ++ [unit.zero]), _
    split_ifs
    · exact h.zeros
    · exact hzeros

/-- **All units.** -/
theorem encodeUnits_bounded {roundFn : ℚ → Int} {values : List (Option ℚ)}
    {unitIndices : OrderedDict Nat (List Nat)}
    (h : encodeUnits scheme roundFn values unitIndices = .ok s) :
    s.Bounded scheme values.length (unitIndices.keys.insertionSort (· ≤ ·)).length := by
  have hstart : Encoding.Bounded scheme values.length 0
      { q := List.replicate values.length 0 } := {
    length_q := length_replicate
    codes := fun c hc => (eq_of_mem_replicate hc) ▸ scheme.inRange_zero
    length_scales := rfl
    scales := fun _ h => nomatch h
    length_zeros := (ite_self 0).symm
    zeros := fun _ h => nomatch h }
  rw [← zero_add (unitIndices.keys.insertionSort (· ≤ ·)).length]
  refine foldlM_invariant (P := Encoding.Bounded scheme values.length) ?_ hstart h
  intro n s unitIndex s' hs hpass
  rcases hunit : encodeUnit scheme roundFn unitIndex
    (chunkValues values ((unitIndices.get? unitIndex).getD [])) with e | unit
  · simp only [hunit] at hpass
    cases hpass
  · simp only [hunit] at hpass
    cases hpass
    exact hs.enterUnit (encodeUnit_bounded hunit) _ _ _

end Loop

/-! ### Every tensor -/

/-- **A tensor that the quantiser gave.** -/
structure Produced (values : List (Option ℚ)) (scheme : QuantScheme) (askedAxis : Option Int)
    (qt : QuantizedTensor) : Prop where
  scheme_eq : qt.scheme = scheme
  axis_ok : normalizeAxis (askedAxis.getD scheme.axis) qt.shape.length = .ok qt.axis
  groupSize_eq : qt.groupSize = scheme.groupSize
  prod_shape : qt.shape.prod = values.length
  length_q : qt.q.length = values.length
  codes : ∀ c ∈ qt.q, scheme.InRange c
  scales : ∀ x, some x ∈ qt.scales → 0 < x
  length_zeros : qt.zeros.length = if scheme.symmetric then 0 else qt.scales.length
  zeros : ∀ z ∈ qt.zeros, scheme.InRange z
  decoded : dequantizeFlat qt.q qt.scales qt.zeros qt.shape qt.unitsPerRow scheme
    scheme.groupSize (some qt.axis) = .ok qt.valuesDequant
  length_scales : values ≠ [] → qt.scales.length = unitTotal scheme qt.shape qt.axis
  unitsPerRow_eq : values ≠ [] → qt.unitsPerRow = if scheme.granularity = .perTensor then 1
    else unitsOf (dimOf qt.shape qt.axis) (sizeOf scheme qt.shape qt.axis)

theorem produced_of_quantize {values : List (Option ℚ)} {scheme : QuantScheme}
    {given : Option (List Nat)} {askedAxis : Option Int} {qt : QuantizedTensor}
    (h : quantize values scheme given askedAxis = .ok qt) :
    Produced values scheme askedAxis qt := by
  simp only [quantize, bind_ok_iff] at h
  obtain ⟨shape, hshape, axis, haxisOk, nonfinite, -, roundFn, -, units, hunits, tail, -,
    unitIndices, hbuckets, s, hs, decoded, hdecoded, hqt⟩ := h
  cases hqt
  have hs := encodeUnits_bounded hs
  have hsize : (if scheme.granularity = .perTensor then none else scheme.groupSize) =
      scheme.groupSize := passedSize_eq scheme
  rw [hsize] at hbuckets hdecoded
  -- the units of a tensor with values are counted
  have hcounted : values ≠ [] →
      units = (if scheme.granularity = .perTensor then 1
        else unitsOf (dimOf shape axis) (sizeOf scheme shape axis)) ∧
      (unitIndices.keys.insertionSort (· ≤ ·)).length = unitTotal scheme shape axis := by
    intro hne
    have hpos : ∀ dim ∈ shape, 0 < dim := by
      intro dim hdim
      apply pos_of_ne_zero
      rintro rfl
      have hprod := prod_of_resolveShape hshape
      rw [prod_eq_zero hdim] at hprod
      exact hne (length_eq_zero_iff.mp hprod.symm)
    have haxis := lt_of_normalizeAxis haxisOk
    have hrow := unitsPerRow_eq scheme hpos haxis
    cases hunits.symm.trans hrow
    obtain ⟨buckets, hbuckets', hkeys, -⟩ := bucketUnits_eq scheme hpos haxis
    rw [prod_of_resolveShape hshape, passedSize_eq, hbuckets] at hbuckets'
    cases hbuckets'
    exact ⟨rfl, by rw [hkeys, length_range]⟩
  exact { hs with
    scheme_eq := rfl
    axis_ok := haxisOk
    groupSize_eq := hsize
    prod_shape := prod_of_resolveShape hshape
    length_zeros := by rw [hs.length_zeros, hs.length_scales]
    decoded := hdecoded
    length_scales := fun hne => hs.length_scales.trans (hcounted hne).2
    unitsPerRow_eq := fun hne => (hcounted hne).1 }

end Hqsb
