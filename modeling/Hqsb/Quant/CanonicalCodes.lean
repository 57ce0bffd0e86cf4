/-
Hqsb/Quant/CanonicalCodes.lean

The canonical form of quantised codes is a bijection, apart from two slips.

A byte is two nibbles, so in terms of `Lib.Halves`

    pack   = gather,
    unpack = (spread payload).take count,

once the count fits the payload and the half beside an odd last code is zero.  Codes that fit
their bits come back from the payload, and a payload that is accepted comes back from its
codes.  But `unpackCanonical` reads the last byte of an empty payload too, and
`packCanonical` truncates the codes that do not fit instead of refusing them.
-/
import Hqsb.Lib.Halves
import Hqsb.Quant.Packing

namespace Hqsb

open Lib Lib.Halves List

/-- The codes of `bits` bits in two's complement. -/
def Representable (bits : Nat) (code : Int) : Prop :=
  -2 ^ (bits - 1) ≤ code ∧ code ≤ 2 ^ (bits - 1) - 1

instance (bits : Nat) (code : Int) : Decidable (Representable bits code) :=
  inferInstanceAs (Decidable (_ ∧ _))

/-! ### Nibbles -/

theorem nibble_low (x y : Byte) :
    ((0#8 ||| (x &&& 0xF#8)) ||| (y &&& 0xF#8) <<< 4) &&& 0xF#8 = x &&& 0xF#8 := by
  apply BitVec.eq_of_getLsbD_eq
  intro i hi
  interval_cases i <;> simp

theorem nibble_high (x y : Byte) :
    (((0#8 ||| (x &&& 0xF#8)) ||| (y &&& 0xF#8) <<< 4) >>> 4) &&& 0xF#8 = y &&& 0xF#8 := by
  apply BitVec.eq_of_getLsbD_eq
  intro i hi
  interval_cases i <;> simp

variable {code : Int} {order : NibbleOrder} {bits count : Nat} {payload : List Byte}

theorem signedFromNibble_ofInt (h : Representable 4 code) :
    signedFromNibble (BitVec.ofInt 8 code &&& 0xF#8) = code := by
  obtain ⟨hlow, hhigh⟩ := h
  norm_num at hlow hhigh
  interval_cases code <;> rfl

theorem representable_signedFromNibble (nibble : Byte) :
    Representable 4 (signedFromNibble nibble) := by
  revert nibble
  decide +kernel

theorem signedFromByte_ofInt (h : Representable 8 code) :
    signedFromByte (BitVec.ofInt 8 code &&& 0xFF#8) = code := by
  obtain ⟨hlow, hhigh⟩ := h
  norm_num at hlow hhigh
  interval_cases code <;> rfl

theorem representable_signedFromByte (byte : Byte) : Representable 8 (signedFromByte byte) := by
  revert byte
  decide +kernel

theorem ofInt_signedFromByte (byte : Byte) :
    BitVec.ofInt 8 (signedFromByte byte) &&& 0xFF#8 = byte := by
  revert byte
  decide +kernel

/-! ### Bytes of two codes -/

section Halves

variable (order : NibbleOrder)

def leftHalf (code : Int) (byte : Byte) : Byte :=
  let nibble := BitVec.ofInt 8 code &&& 0xF#8
  if order = .lowFirst then byte ||| nibble else byte ||| nibble <<< 4

def rightHalf (code : Int) (byte : Byte) : Byte :=
  let nibble := BitVec.ofInt 8 code &&& 0xF#8
  if order = .lowFirst then byte ||| nibble <<< 4 else byte ||| nibble

theorem placeNibble_eq_write :
    placeNibble order = Halves.write (leftHalf order) (rightHalf order) := by
  funext out entry
  rcases Decidable.em (entry.2 % 2 = 0) with heven | hodd
  · simp only [placeNibble, Halves.write, if_pos heven]
    rcases order with - | - | name <;> rfl
  · simp only [placeNibble, Halves.write, if_neg hodd]
    rcases order with - | - | name <;> rfl

def pairByte (a b : Int) : Byte := rightHalf order b (leftHalf order a 0#8)

def firstCode (byte : Byte) : Int := signedFromNibble (readNibble order byte 0)

def secondCode (byte : Byte) : Int := signedFromNibble (readNibble order byte 1)

variable {order}

theorem firstCode_pairByte (a b : Int) (ha : Representable 4 a) :
    firstCode order (pairByte order a b) = a := by
  rcases order with - | - | name
  · show signedFromNibble (((0#8 ||| (_ &&& 0xF#8)) ||| (_ &&& 0xF#8) <<< 4) &&& 0xF#8) = a
    rw [nibble_low, signedFromNibble_ofInt ha]
  all_goals
    show signedFromNibble ((((0#8 ||| (_ &&& 0xF#8) <<< 4) ||| (_ &&& 0xF#8)) >>> 4) &&& 0xF#8) = a
    rw [BitVec.zero_or, BitVec.or_comm, ← BitVec.zero_or (x := BitVec.ofInt 8 b &&& 0xF#8),
      nibble_high, signedFromNibble_ofInt ha]

theorem secondCode_pairByte (a b : Int) (hb : Representable 4 b) :
    secondCode order (pairByte order a b) = b := by
  rcases order with - | - | name
  · show signedFromNibble ((((0#8 ||| (_ &&& 0xF#8)) ||| (_ &&& 0xF#8) <<< 4) >>> 4) &&& 0xF#8) = b
    rw [nibble_high, signedFromNibble_ofInt hb]
  all_goals
    show signedFromNibble (((0#8 ||| (_ &&& 0xF#8) <<< 4) ||| (_ &&& 0xF#8)) &&& 0xF#8) = b
    rw [BitVec.zero_or, BitVec.or_comm, ← BitVec.zero_or (x := BitVec.ofInt 8 b &&& 0xF#8),
      nibble_low, signedFromNibble_ofInt hb]

theorem pairByte_codes (byte : Byte) :
    pairByte order (firstCode order byte) (secondCode order byte) = byte := by
  have hlow : ∀ byte, pairByte .lowFirst (firstCode .lowFirst byte) (secondCode .lowFirst byte) =
      byte := by decide
  have hhigh : ∀ byte, pairByte .highFirst (firstCode .highFirst byte)
      (secondCode .highFirst byte) = byte := by decide
  rcases order with - | - | name
  · exact hlow byte
  · exact hhigh byte
  · exact hhigh byte

theorem rightHalf_zero (byte : Byte) : rightHalf order 0 byte = byte := by
  rw [rightHalf]
  split_ifs
  · exact BitVec.or_zero
  · exact BitVec.or_zero

theorem representable_zero : Representable 4 0 := by decide

end Halves

/-! ### The two directions without their checks -/

def canonicalForm (bits : Nat) (order : NibbleOrder) (q : List Int) : List Byte :=
  if bits = 4 then gather (pairByte order) 0 q
  else q.map fun code => BitVec.ofInt 8 code &&& 0xFF#8

def decoded (bits : Nat) (order : NibbleOrder) (payload : List Byte) (count : Nat) : List Int :=
  if bits = 4 then (spread (firstCode order) (secondCode order) payload).take count
  else payload.map signedFromByte

/-- **A payload that is accepted for a count.** -/
structure Fitting (bits : Nat) (order : NibbleOrder) (payload : List Byte) (count : Nat) :
    Prop where
  length : packedRowBytes bits count = .ok payload.length
  nonempty : bits = 4 → payload ≠ []
  padded : bits = 4 → count % 2 = 1 → ∀ last ∈ payload.getLast?, paddingNibble order last = 0

theorem checkNibbleOrder_ok (h : order = .lowFirst ∨ order = .highFirst) :
    checkNibbleOrder order = .ok () := by
  rcases h with rfl | rfl <;> rfl

theorem packCanonical_eq (hbits : bits = 4 ∨ bits = 8)
    (horder : order = .lowFirst ∨ order = .highFirst) (q : List Int) :
    packCanonical q bits order =
      if q.any floatOverflows then .error .overflowError
      else .ok (canonicalForm bits order q) := by
  rw [packCanonical, checkNibbleOrder_ok horder]
  rcases hoverflow : q.any floatOverflows
  · rcases hbits with rfl | rfl
    · show Except.ok (q.zipIdx.foldl (placeNibble order) _) = Except.ok (gather _ _ q)
      have hpad : ∀ code, rightHalf order 0 (leftHalf order code 0#8) =
          leftHalf order code 0#8 := fun _ => rightHalf_zero _
      rw [placeNibble_eq_write, foldl_write hpad]
      rfl
    · rfl
  · rfl

theorem paddingNibble_eq_zero_iff (horder : order = .lowFirst ∨ order = .highFirst) (last : Byte) :
    paddingNibble order last = 0 ↔ secondCode order last = 0 := by
  have hlow : ∀ last, paddingNibble .lowFirst last = 0 ↔ secondCode .lowFirst last = 0 := by
    decide +kernel
  have hhigh : ∀ last, paddingNibble .highFirst last = 0 ↔ secondCode .highFirst last = 0 := by
    decide +kernel
  rcases horder with rfl | rfl
  · exact hlow last
  · exact hhigh last

theorem signedFromNibble_readNibble (order : NibbleOrder) (byte : Byte) (i : Nat) :
    signedFromNibble (readNibble order byte i) =
      (if i % 2 = 0 then firstCode order else secondCode order) byte := by
  rcases Decidable.em (i % 2 = 0) with heven | hodd
  · rw [if_pos heven]
    rcases order with - | - | name <;> simp only [readNibble, firstCode, if_pos heven, if_true]
  · rw [if_neg hodd]
    rcases order with - | - | name <;> simp only [readNibble, secondCode, if_neg hodd,
      if_neg Nat.one_ne_zero]

/-- The loop of `unpackCanonical` over the indices. -/
theorem mapM_readCode (hlength : payload.length = (count + 1) / 2) :
    (List.range count).mapM (readCode payload order) =
      .ok ((spread (firstCode order) (secondCode order) payload).take count) := by
  have hcount : ((spread (firstCode order) (secondCode order) payload).take count).length =
      count := by
    rw [length_take, length_spread]
    omega
  rw [mapM_eq_ok_iff, forall₂_iff_get]
  refine ⟨by rw [length_range, hcount], fun i hi hi' => ?_⟩
  have hinside : i / 2 < payload.length := by omega
  have hspread := getElem?_spread (firstCode order) (secondCode order) payload i
  rw [List.getElem?_eq_getElem hinside, Option.map_some, List.getElem?_eq_some_iff] at hspread
  obtain ⟨hbound, hspread⟩ := hspread
  simp only [readCode, get_eq_getElem, getElem_range, getElem_take,
    List.getElem?_eq_getElem hinside, hspread, signedFromNibble_readNibble]

theorem unpackNibbles_eq (hlength : payload.length = (count + 1) / 2) :
    unpackNibbles payload count order =
      match payload.getLast? with
      | some last =>
        if count % 2 = 1 ∧ paddingNibble order last ≠ 0 then .error (.badPadding count)
        else .ok (decoded 4 order payload count)
      | none => .error .indexError := by
  rw [unpackNibbles, mapM_readCode hlength]
  rfl

section Unpack

variable {bits : Nat} (hbits : bits = 4 ∨ bits = 8) {order : NibbleOrder}
  (horder : order = .lowFirst ∨ order = .highFirst) {payload : List Byte} {count : Nat}

include hbits in
/-- The codes of a payload of the right length, if its last byte can be read and is padded. -/
theorem unpackCodes_ok_iff (hlength : packedRowBytes bits count = .ok payload.length)
    {codes : List Int} :
    unpackCodes payload count bits order = .ok codes ↔
      Fitting bits order payload count ∧ codes = decoded bits order payload count := by
  rcases hbits with rfl | rfl
  · have hhalf : payload.length = (count + 1) / 2 := by
      exact (Except.ok.inj hlength).symm
    rw [unpackCodes, if_pos rfl, unpackNibbles_eq hhalf]
    rcases hlast : payload.getLast? with - | last
    · constructor
      · exact fun h => nomatch h
      · exact fun h => absurd (List.getLast?_eq_none_iff.mp hlast) (h.1.nonempty rfl)
    · have hnonempty : payload ≠ [] := by
        rintro rfl
        cases hlast
      show (if _ then _ else _) = _ ↔ _
      split_ifs with hpadding
      · constructor
        · exact fun h => nomatch h
        · exact fun h => absurd (h.1.padded rfl hpadding.1 last hlast) hpadding.2
      · have hpadded : ∀ byte ∈ payload.getLast?, count % 2 = 1 →
            paddingNibble order byte = 0 := by
          rw [hlast]
          rintro _ ⟨⟩ hodd
          exact not_not.mp fun hne => hpadding ⟨hodd, hne⟩
        constructor
        · rintro ⟨⟩
          exact ⟨⟨hlength, fun _ => hnonempty, fun _ hodd byte hbyte => hpadded byte hbyte hodd⟩,
            rfl⟩
        · rintro ⟨-, rfl⟩
          rfl
  · constructor
    · rintro ⟨⟩
      exact ⟨⟨hlength, fun h => (nomatch h), fun h => (nomatch h)⟩, rfl⟩
    · rintro ⟨-, rfl⟩
      rfl

include hbits horder in
/-- **What is accepted**, and as which codes. -/
theorem unpackCanonical_ok_iff {scheme : Option QuantScheme} {codes : List Int} :
    unpackCanonical payload count bits scheme order = .ok codes ↔
      Fitting bits order payload count ∧ codes = decoded bits order payload count ∧
        ∀ s ∈ scheme, validateCodes codes s = .ok () := by
  have hscheme : ∀ found, scheme.forM (validateCodes found) = .ok () ↔
      ∀ s ∈ scheme, validateCodes found s = .ok () := by
    intro found
    rcases scheme with - | s
    · exact ⟨fun _ _ h => (nomatch h), fun _ => rfl⟩
    · exact ⟨fun h _ hs => Option.some.inj hs ▸ h, fun h => h s rfl⟩
  rw [unpackCanonical]
  simp only [bind_ok_iff, raiseIf_eq_ok_iff, checkNibbleOrder_ok horder, not_not]
  constructor
  · rintro ⟨_, hexpected, -, rfl, -, -, found, hfound, ⟨⟩, hchecked, ⟨⟩⟩
    obtain ⟨hfitting, hcodes⟩ := (unpackCodes_ok_iff hbits hexpected).mp hfound
    exact ⟨hfitting, hcodes, (hscheme codes).mp hchecked⟩
  · rintro ⟨hfitting, hcodes, hchecked⟩
    exact ⟨_, hfitting.length, (), rfl, (), trivial, codes,
      (unpackCodes_ok_iff hbits hfitting.length).mpr ⟨hfitting, hcodes⟩, (),
      (hscheme codes).mpr hchecked, rfl⟩

end Unpack

/-! ### Round trips -/

theorem length_canonicalForm (hbits : bits = 4 ∨ bits = 8) (order : NibbleOrder) (q : List Int) :
    packedRowBytes bits q.length = .ok (canonicalForm bits order q).length := by
  rcases hbits with rfl | rfl
  · show Except.ok ((q.length + 1) / 2) = Except.ok (gather _ _ q).length
    rw [length_gather]
  · show Except.ok q.length = Except.ok (q.map _).length
    rw [length_map]

section

variable (hbits : bits = 4 ∨ bits = 8)

include hbits

/-- The canonical form of some codes is accepted for their number. -/
theorem fitting_canonicalForm
    (horder : order = .lowFirst ∨ order = .highFirst) {q : List Int} (hempty : bits = 8 ∨ q ≠ []) :
    Fitting bits order (canonicalForm bits order q) q.length := by
  refine ⟨length_canonicalForm hbits order q, ?_, ?_⟩
  · rintro rfl hnil
    have hlength := length_gather (pairByte order) 0 q
    rw [show gather (pairByte order) 0 q = [] from hnil] at hlength
    have hpos := length_pos_iff.mpr (hempty.resolve_left (by decide))
    rw [length_nil] at hlength
    omega
  · rintro rfl hodd last hlast
    apply (paddingNibble_eq_zero_iff horder last).mpr
    exact second_getLast_gather (fun a => secondCode_pairByte a 0 representable_zero) q hodd last
      hlast

theorem decoded_canonicalForm (order : NibbleOrder) {q : List Int}
    (h : ∀ code ∈ q, Representable bits code) :
    decoded bits order (canonicalForm bits order q) q.length = q := by
  rcases hbits with rfl | rfl
  · exact take_spread_gather firstCode_pairByte secondCode_pairByte q h
  · show (q.map _).map signedFromByte = q
    rw [map_map]
    refine (map_congr_left fun code hcode => ?_).trans q.map_id
    exact signedFromByte_ofInt (h code hcode)

theorem canonicalForm_decoded
    (horder : order = .lowFirst ∨ order = .highFirst) (h : Fitting bits order payload count) :
    canonicalForm bits order (decoded bits order payload count) = payload := by
  rcases hbits with rfl | rfl
  · refine gather_take_spread pairByte_codes payload count ?_ ?_
    · exact (Except.ok.inj h.length).symm
    · intro hodd last hlast
      exact (paddingNibble_eq_zero_iff horder last).mp (h.padded rfl hodd last hlast)
  · show (payload.map signedFromByte).map _ = payload
    rw [map_map]
    exact (map_congr_left fun byte _ => ofInt_signedFromByte byte).trans payload.map_id

theorem representable_of_mem_decoded
    (h : code ∈ decoded bits order payload count) : Representable bits code := by
  rcases hbits with rfl | rfl
  · obtain ⟨byte, -, hbyte⟩ := mem_flatMap.mp (mem_of_mem_take h)
    rcases mem_pair.mp hbyte with rfl | rfl
    · exact representable_signedFromNibble _
    · exact representable_signedFromNibble _
  · obtain ⟨byte, -, rfl⟩ := mem_map.mp h
    exact representable_signedFromByte byte

end

theorem floatOverflows_of_representable (hbits : bits ≤ 8) (h : Representable bits code) :
    floatOverflows code = false := by
  have hpow : (2 : Int) ^ (bits - 1) ≤ 2 ^ 7 := pow_le_pow_right₀ (by decide) (by omega)
  obtain ⟨hlow, hhigh⟩ := h
  have hsmall : code.natAbs < 2 ^ 1024 - 2 ^ 970 := by
    have hbound : code.natAbs ≤ 128 := by omega
    exact hbound.trans_lt (by decide +kernel)
  exact decide_eq_false (not_le.mpr hsmall)

/-- **What the canonical form promises** about a list of codes. -/
structure CanonicalKept (bits : Nat) (order : NibbleOrder) (q : List Int) : Prop where
  round_trip : (∀ code ∈ q, Representable bits code) →
    ∃ payload, packCanonical q bits order = .ok payload ∧
      unpackCanonical payload q.length bits none order = .ok q
  faithful : ∀ payload codes, packCanonical q bits order = .ok payload →
    unpackCanonical payload q.length bits none order = .ok codes → codes = q
  refused : (∃ code ∈ q, ¬ Representable bits code) →
    ∃ error, packCanonical q bits order = .error error

/-- **Canonical round trips.**  An accepted payload is the packing of its codes.  A list of
codes is kept if there is a byte to read and no code is truncated; what does not fit its bits
is only refused once it overflows a double. -/
theorem canonical_kept_iff {bits : Nat} (hbits : bits = 4 ∨ bits = 8) {order : NibbleOrder}
    (horder : order = .lowFirst ∨ order = .highFirst) :
    (∀ payload count scheme codes, unpackCanonical payload count bits scheme order = .ok codes →
      packCanonical codes bits order = .ok payload) ∧
    ∀ q, CanonicalKept bits order q ↔
      (bits = 8 ∨ q ≠ []) ∧
        ((∀ code ∈ q, Representable bits code) ∨ ∃ code ∈ q, floatOverflows code) := by
  have hpack : ∀ q : List Int, (∀ code ∈ q, floatOverflows code = false) →
      packCanonical q bits order = .ok (canonicalForm bits order q) := by
    intro q hq
    rw [packCanonical_eq hbits horder, if_neg]
    rw [any_eq_true]
    rintro ⟨code, hcode, hoverflow⟩
    exact Bool.eq_false_iff.mp (hq code hcode) hoverflow
  have hfits : ∀ code, Representable bits code → floatOverflows code = false := fun code =>
    floatOverflows_of_representable (by omega)
  refine ⟨?_, fun q => ⟨fun h => ⟨?_, ?_⟩, ?_⟩⟩
  · intro payload count scheme codes h
    obtain ⟨hfitting, rfl, -⟩ := (unpackCanonical_ok_iff hbits horder).mp h
    rw [hpack _ fun code hcode => hfits code (representable_of_mem_decoded hbits hcode),
      canonicalForm_decoded hbits horder hfitting]
  · -- an empty payload of nibbles has no last byte
    by_contra hempty
    obtain ⟨hnot, hnil⟩ := not_or.mp hempty
    obtain rfl := not_not.mp hnil
    obtain rfl := hbits.resolve_right hnot
    obtain ⟨payload, hpayload, hunpack⟩ := h.round_trip fun _ h => nomatch h
    obtain ⟨hfitting, -⟩ := (unpackCanonical_ok_iff hbits horder).mp hunpack
    rw [hpack [] fun _ h => nomatch h] at hpayload
    exact hfitting.nonempty rfl (Except.ok.inj hpayload).symm
  · -- a code that does not fit is refused, which takes an overflow
    by_contra hneither
    obtain ⟨hnot, hfinite⟩ := not_or.mp hneither
    push Not at hnot hfinite
    obtain ⟨error, herror⟩ := h.refused hnot
    rw [hpack q fun code hcode => Bool.eq_false_iff.mpr (hfinite code hcode)] at herror
    cases herror
  · rintro ⟨hempty, hrepresentable | ⟨code, hcode, hoverflow⟩⟩
    · have hpayload := hpack q fun code hcode => hfits code (hrepresentable code hcode)
      have hunpack : unpackCanonical (canonicalForm bits order q) q.length bits none order =
          .ok q := (unpackCanonical_ok_iff hbits horder).mpr
        ⟨fitting_canonicalForm hbits horder hempty,
          (decoded_canonicalForm hbits order hrepresentable).symm, fun _ h => nomatch h⟩
      refine ⟨fun _ => ⟨_, hpayload, hunpack⟩, ?_, ?_⟩
      · intro payload codes hpayload' hunpack'
        cases hpayload.symm.trans hpayload'
        exact Except.ok.inj (hunpack'.symm.trans hunpack)
      · rintro ⟨code, hcode, hnot⟩
        exact absurd (hrepresentable code hcode) hnot
    · have herror : packCanonical q bits order = .error .overflowError := by
        rw [packCanonical_eq hbits horder, if_pos (any_eq_true.mpr ⟨code, hcode, hoverflow⟩)]
      refine ⟨fun hall => ?_, fun payload codes hpayload _ => ?_, fun _ => ⟨_, herror⟩⟩
      · rw [hfits code (hall code hcode)] at hoverflow
        cases hoverflow
      · rw [herror] at hpayload
        cases hpayload

theorem canonical_kept_iff_nibbles :
    (∀ payload count scheme codes,
      unpackCanonical payload count 4 scheme .highFirst = .ok codes →
        packCanonical codes 4 .highFirst = .ok payload) ∧
    ∀ q, CanonicalKept 4 .highFirst q ↔
      (4 = 8 ∨ q ≠ []) ∧
        ((∀ code ∈ q, Representable 4 code) ∨ ∃ code ∈ q, floatOverflows code) :=
  canonical_kept_iff (.inl rfl) (.inr rfl)

/-- The empty tensor does not come back, and `20` comes back as `4`. -/
theorem canonical_not_kept :
    (packCanonical [] 4 .lowFirst = .ok [] ∧
      unpackCanonical [] 0 4 none .lowFirst = .error .indexError) ∧
    packCanonical [20] 4 .lowFirst = .ok [4#8] ∧
      unpackCanonical [4#8] 1 4 none .lowFirst = .ok [4] := by
  decide +kernel

end Hqsb
