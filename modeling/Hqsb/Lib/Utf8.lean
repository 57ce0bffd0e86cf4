/-
Hqsb/Lib/Utf8.lean

UTF-8: texts as bytes, and bytes that arrive in pieces.

`encode` writes the bytes of a text.  `decode` is total: where no character begins it writes one
U+FFFD for the longest piece that could have begun one, and goes on behind that piece.  Text that
was encoded is decoded to itself (`decode_encode`), and the line feed is the only character
written with the byte 10 (`mem_encode_lineFeed`).

The incremental decoder takes one byte after the other (`step`) and refuses the first one with
which the bytes so far begin no character.  It does not matter where the pieces are cut
(`feed_append`).  What it accepts are the bytes of texts (`accepts_iff`), and the text is what
comes out (`feed_encode`).
-/
import Mathlib

namespace Lib.Utf8

open List

/-- The bytes of a text. -/
def encode (s : List Char) : List UInt8 := s.flatMap String.utf8EncodeChar

/-- May `second` follow the first byte of a sequence of three or of four bytes? -/
def follows (lead second : UInt8) : Bool :=
  if lead = 0xE0 then 0xA0 ≤ second && second ≤ 0xBF
  else if lead = 0xED then 0x80 ≤ second && second ≤ 0x9F
  else if lead = 0xF0 then 0x90 ≤ second && second ≤ 0xBF
  else if lead = 0xF4 then 0x80 ≤ second && second ≤ 0x8F
  else 0xE1 ≤ lead && lead ≤ 0xF3 && 0x80 ≤ second && second ≤ 0xBF

/-- How many bytes one replacement character stands for, where no character begins. -/
def malformed : List UInt8 → Nat
  | lead :: second :: third :: _ =>
    if follows lead second then
      if 0xF0 ≤ lead && 0x80 ≤ third && third ≤ 0xBF then 3 else 2
    else 1
  | [lead, second] => if follows lead second then 2 else 1
  | _ => 1

def decodeFrom : Nat → List UInt8 → List Char
  | _, [] => []
  | 0, _ :: _ => []
  | fuel + 1, bytes =>
    match bytes.toByteArray.utf8DecodeChar? 0 with
    | some c => c :: decodeFrom fuel (bytes.drop c.utf8Size)
    | none => '\uFFFD' :: decodeFrom fuel (bytes.drop (malformed bytes))

/-- Every turn of the loop takes at least one byte, so their number is enough fuel. -/
def decode (bytes : List UInt8) : List Char := decodeFrom bytes.length bytes

@[simp] theorem encode_nil : encode [] = [] := rfl

@[simp] theorem encode_cons (c : Char) (s : List Char) :
    encode (c :: s) = String.utf8EncodeChar c ++ encode s := flatMap_cons

@[simp] theorem encode_append (s t : List Char) : encode (s ++ t) = encode s ++ encode t :=
  flatMap_append

/-- **One turn of the loop** reads back one character. -/
theorem decodeFrom_encodeChar (fuel : Nat) (c : Char) (rest : List UInt8) :
    decodeFrom (fuel + 1) (String.utf8EncodeChar c ++ rest) = c :: decodeFrom fuel rest := by
  have hchar : (String.utf8EncodeChar c ++ rest).toByteArray.utf8DecodeChar? 0 = some c := by
    rw [toByteArray_append]
    exact ByteArray.utf8DecodeChar?_utf8EncodeChar_append
  have hlen : (String.utf8EncodeChar c).length = c.utf8Size := String.length_utf8EncodeChar c
  have hpos : 0 < c.utf8Size := c.utf8Size_pos
  rcases hbytes : String.utf8EncodeChar c ++ rest with - | ⟨b, bytes⟩
  · have hnil := (append_eq_nil_iff.mp hbytes).1
    rw [hnil, length_nil] at hlen
    omega
  · rw [decodeFrom, ← hbytes, hchar]
    simp only [← hlen, drop_left]
    · exact fun h => (nomatch h)

theorem decodeFrom_encode {s : List Char} {fuel : Nat} (h : (encode s).length ≤ fuel) :
    decodeFrom fuel (encode s) = s := by
  induction s generalizing fuel with
  | nil => cases fuel <;> rfl
  | cons c s ih =>
    have hpos : 0 < c.utf8Size := c.utf8Size_pos
    rw [encode_cons, length_append, String.length_utf8EncodeChar] at h
    obtain ⟨fuel, rfl⟩ : ∃ n, fuel = n + 1 := ⟨fuel - 1, by omega⟩
    rw [encode_cons, decodeFrom_encodeChar, ih (by omega)]

/-- **Round trip.** -/
theorem decode_encode (s : List Char) : decode (encode s) = s := decodeFrom_encode (Nat.le_refl _)

/-! ### Line feeds -/

theorem mem_encodeChar_lineFeed {c : Char} (h : (10 : UInt8) ∈ String.utf8EncodeChar c) :
    c = '\n' := by
  have hbytes : ∀ n : Nat, (10 : UInt8) = UInt8.ofNat n → n % 256 = 10 := fun n hn => by
    have := congrArg UInt8.toNat hn
    exact this.symm
  have hval : c.val.toNat = 10 → c = '\n' := fun hc => Char.ext (UInt32.toNat.inj hc)
  apply hval
  rw [String.utf8EncodeChar] at h
  split_ifs at h with h1 h2 h3 <;> simp only [mem_cons, not_mem_nil, or_false] at h
  -- every byte of a longer sequence is at least 128
  · have := hbytes _ h
    omega
  · rcases h with h | h <;> · have := hbytes _ h; omega
  · rcases h with h | h | h <;> · have := hbytes _ h; omega
  · rcases h with h | h | h | h <;> · have := hbytes _ h; omega

theorem mem_encode_lineFeed {s : List Char} (h : (10 : UInt8) ∈ encode s) : '\n' ∈ s := by
  obtain ⟨c, hc, hmem⟩ := mem_flatMap.mp h
  exact mem_encodeChar_lineFeed hmem ▸ hc

/-- The bytes of a character that has begun, and what the decoder expects of the others. -/
structure Partial where
  held : List UInt8
  owed : Nat
  low : Nat
  high : Nat
  code : Nat

/-- Between two characters. -/
def Partial.start : Partial := ⟨[], 0, 0, 0, 0⟩

def lowAfter (b : UInt8) : Nat :=
  if b.toNat = 0xE0 then 0xA0 else if b.toNat = 0xF0 then 0x90 else 0x80

def highAfter (b : UInt8) : Nat :=
  if b.toNat = 0xED then 0x9F else if b.toNat = 0xF4 then 0x8F else 0xBF

/-- The first byte of a character. -/
def lead (b : UInt8) : Option (Option Char × Partial) :=
  if b.toNat < 0x80 then some (some (Char.ofNat b.toNat), .start)
  else if b.toNat < 0xC2 then none
  else if b.toNat < 0xE0 then some (none, ⟨[b], 1, 0x80, 0xBF, b.toNat - 0xC0⟩)
  else if b.toNat < 0xF0 then
    some (none, ⟨[b], 2, lowAfter b, highAfter b, b.toNat - 0xE0⟩)
  else if b.toNat < 0xF5 then
    some (none, ⟨[b], 3, lowAfter b, highAfter b, b.toNat - 0xF0⟩)
  else none

/-- One byte: the character it ends, if it ends one, and where the decoder stands then; nothing
where the bytes so far begin no character. -/
def step (p : Partial) (b : UInt8) : Option (Option Char × Partial) :=
  if p.owed = 0 then lead b
  else if p.low ≤ b.toNat ∧ b.toNat ≤ p.high then
    if p.owed = 1 then some (some (Char.ofNat (p.code * 64 + (b.toNat - 0x80))), .start)
    else some (none, ⟨p.held ++ [b], p.owed - 1, 0x80, 0xBF, p.code * 64 + (b.toNat - 0x80)⟩)
  else none

variable {b : UInt8}

theorem step_last {held : List UInt8} {low high code : Nat} (hlow : low ≤ b.toNat)
    (hhigh : b.toNat ≤ high) :
    step ⟨held, 1, low, high, code⟩ b =
      some (some (Char.ofNat (code * 64 + (b.toNat - 0x80))), .start) := by
  rw [step, if_neg Nat.one_ne_zero, if_pos ⟨hlow, hhigh⟩, if_pos rfl]

theorem step_more {held : List UInt8} {owed low high code : Nat} (hlow : low ≤ b.toNat)
    (hhigh : b.toNat ≤ high) :
    step ⟨held, owed + 2, low, high, code⟩ b =
      some (none, ⟨held ++ [b], owed + 1, 0x80, 0xBF, code * 64 + (b.toNat - 0x80)⟩) := by
  have hne : owed + 2 ≠ 1 := by omega
  rw [step, if_neg (Nat.succ_ne_zero _), if_pos ⟨hlow, hhigh⟩]
  rfl

variable {p : Partial}

theorem range_of_step (howed : p.owed ≠ 0) {r : Option Char × Partial} (h : step p b = some r) :
    p.low ≤ b.toNat ∧ b.toNat ≤ p.high := by
  rw [step, if_neg howed] at h
  by_contra hrange
  rw [if_neg hrange] at h
  cases h

/-- The bytes one after the other: the characters up to the first byte that is refused, and where
the decoder stands when none is. -/
def feed : Partial → List UInt8 → List Char × Option Partial
  | p, [] => ([], some p)
  | p, b :: bytes =>
    match step p b with
    | none => ([], none)
    | some (c, q) => (c.toList ++ (feed q bytes).1, (feed q bytes).2)

theorem feed_cons_none (h : step p b = none) (bytes : List UInt8) :
    feed p (b :: bytes) = ([], none) := by
  rw [feed, h]

variable {q : Partial}

theorem feed_cons {c : Option Char} (h : step p b = some (c, q)) (bytes : List UInt8) :
    feed p (b :: bytes) = (c.toList ++ (feed q bytes).1, (feed q bytes).2) := by
  rw [feed, h]

/-- **The cuts do not matter**: what was fed in two pieces was fed at once. -/
theorem feed_append {a : List UInt8} (h : (feed p a).2 = some q) (b : List UInt8) :
    feed p (a ++ b) = ((feed p a).1 ++ (feed q b).1, (feed q b).2) := by
  induction a generalizing p with
  | nil =>
    obtain rfl : p = q := Option.some.inj h
    rfl
  | cons x a ih =>
    rw [cons_append]
    rcases hstep : step p x with - | ⟨c, r⟩
    · rw [feed_cons_none hstep] at h
      cases h
    · rw [feed_cons hstep] at h ⊢
      rw [feed_cons hstep, ih h, append_assoc]

theorem feed_append_none {a : List UInt8} (h : (feed p a).2 = none) (b : List UInt8) :
    feed p (a ++ b) = ((feed p a).1, none) := by
  induction a generalizing p with
  | nil => cases h
  | cons x a ih =>
    rw [cons_append]
    rcases hstep : step p x with - | ⟨c, r⟩
    · rw [feed_cons_none hstep, feed_cons_none hstep]
    · rw [feed_cons hstep] at h ⊢
      rw [feed_cons hstep, ih h]

theorem length_feed_le (p : Partial) (bytes : List UInt8) :
    (feed p bytes).1.length ≤ bytes.length := by
  induction bytes generalizing p with
  | nil => exact Nat.le_refl _
  | cons b bytes ih =>
    rcases hstep : step p b with - | ⟨c, q⟩
    · rw [feed_cons_none hstep]
      exact Nat.zero_le _
    · have hq := ih q
      rw [feed_cons hstep, length_append]
      cases c <;> simp only [Option.toList, length_cons, length_nil] <;> omega

/-! ### What the decoder accepts -/

/-- Every character that can still be ended is written with the bytes that are held. -/
def Awaits : Nat → Nat → Nat → Nat → List UInt8 → Prop
  | 0, _, _, _, _ => True
  | 1, low, high, code, held => ∀ b : UInt8, low ≤ b.toNat → b.toNat ≤ high →
    String.utf8EncodeChar (Char.ofNat (code * 64 + (b.toNat - 0x80))) = held ++ [b]
  | owed + 2, low, high, code, held => ∀ b : UInt8, low ≤ b.toNat → b.toNat ≤ high →
    Awaits (owed + 1) 0x80 0xBF (code * 64 + (b.toNat - 0x80)) (held ++ [b])

/-- A state the decoder comes to. -/
structure Partial.Sound (p : Partial) : Prop where
  awaits : Awaits p.owed p.low p.high p.code p.held
  between : p.owed = 0 → p.held = []
  fresh : p.held = [] → p = .start

theorem Partial.sound_start : Partial.start.Sound := ⟨trivial, fun _ => rfl, fun _ => rfl⟩

theorem val_ofNat {n : Nat} (h : n < 0xD800 ∨ 0xDFFF < n ∧ n < 0x110000) :
    (Char.ofNat n).val.toNat = n := by
  have hvalid : n.isValidChar := h
  rw [Char.ofNat, dif_pos hvalid]
  rfl

theorem eq_ofNat {n : Nat} (h : n % 256 = b.toNat) : UInt8.ofNat n = b :=
  UInt8.toNat.inj (by rw [UInt8.toNat_ofNat']; exact h)

theorem encodeChar_one (h : b.toNat < 0x80) : String.utf8EncodeChar (Char.ofNat b.toNat) = [b] := by
  have hb : b.toNat < 256 := b.toNat_lt
  have hval : (Char.ofNat b.toNat).val.toNat = b.toNat := val_ofNat (by omega)
  rw [String.utf8EncodeChar, hval]
  rw [if_pos (by omega), eq_ofNat (Nat.mod_eq_of_lt hb)]

section

variable {b b₁ b₂ b₃ : UInt8} (hlow : lowAfter b ≤ b₁.toNat) (hhigh : b₁.toNat ≤ highAfter b)
  (hlow₂ : 0x80 ≤ b₂.toNat) (hhigh₂ : b₂.toNat ≤ 0xBF) (hlow₃ : 0x80 ≤ b₃.toNat)
  (hhigh₃ : b₃.toNat ≤ 0xBF)

theorem encodeChar_two (h : 0xC2 ≤ b.toNat) (h' : b.toNat < 0xE0) (hlow : 0x80 ≤ b₁.toNat)
    (hhigh : b₁.toNat ≤ 0xBF) :
    String.utf8EncodeChar (Char.ofNat ((b.toNat - 0xC0) * 64 + (b₁.toNat - 0x80))) = [b, b₁] := by
  generalize hn : (b.toNat - 0xC0) * 64 + (b₁.toNat - 0x80) = n
  have hval : (Char.ofNat n).val.toNat = n := val_ofNat (by omega)
  rw [String.utf8EncodeChar]
  rw [if_neg (by omega), if_pos (by omega), @eq_ofNat b _ (by omega), @eq_ofNat b₁ _ (by omega)]

include hlow hhigh

theorem second_tail : 0x80 ≤ b₁.toNat ∧ b₁.toNat ≤ 0xBF := by
  unfold lowAfter at hlow
  unfold highAfter at hhigh
  split_ifs at hlow hhigh <;> omega

theorem second_three (h : 0xE0 ≤ b.toNat) (h' : b.toNat < 0xF0) :
    (b.toNat = 0xE0 → 0xA0 ≤ b₁.toNat) ∧ (b.toNat = 0xED → b₁.toNat ≤ 0x9F) := by
  unfold lowAfter at hlow
  unfold highAfter at hhigh
  split_ifs at hlow hhigh <;> omega

theorem second_four (h : 0xF0 ≤ b.toNat) :
    (b.toNat = 0xF0 → 0x90 ≤ b₁.toNat) ∧ (b.toNat = 0xF4 → b₁.toNat ≤ 0x8F) := by
  unfold lowAfter at hlow
  unfold highAfter at hhigh
  split_ifs at hlow hhigh <;> omega

include hlow₂ hhigh₂

theorem encodeChar_three (h : 0xE0 ≤ b.toNat) (h' : b.toNat < 0xF0) :
    String.utf8EncodeChar (Char.ofNat (((b.toNat - 0xE0) * 64 + (b₁.toNat - 0x80)) * 64 +
      (b₂.toNat - 0x80))) = [b, b₁, b₂] := by
  have htail := second_tail hlow hhigh
  have hsecond := second_three hlow hhigh h h'
  clear hlow hhigh
  generalize hn : ((b.toNat - 0xE0) * 64 + (b₁.toNat - 0x80)) * 64 + (b₂.toNat - 0x80) = n
  have hval : (Char.ofNat n).val.toNat = n := val_ofNat (by omega)
  rw [String.utf8EncodeChar]
  rw [if_neg (by omega), if_neg (by omega), if_pos (by omega), @eq_ofNat b _ (by omega),
    @eq_ofNat b₁ _ (by omega), @eq_ofNat b₂ _ (by omega)]

include hlow₃ hhigh₃

theorem encodeChar_four (h : 0xF0 ≤ b.toNat) (h' : b.toNat < 0xF5) :
    String.utf8EncodeChar (Char.ofNat ((((b.toNat - 0xF0) * 64 + (b₁.toNat - 0x80)) * 64 +
      (b₂.toNat - 0x80)) * 64 + (b₃.toNat - 0x80))) = [b, b₁, b₂, b₃] := by
  have htail := second_tail hlow hhigh
  have hsecond := second_four hlow hhigh h
  clear hlow hhigh
  generalize hn : (((b.toNat - 0xF0) * 64 + (b₁.toNat - 0x80)) * 64 + (b₂.toNat - 0x80)) * 64 +
    (b₃.toNat - 0x80) = n
  have hval : (Char.ofNat n).val.toNat = n := val_ofNat (by omega)
  rw [String.utf8EncodeChar]
  rw [if_neg (by omega), if_neg (by omega), if_neg (by omega), @eq_ofNat b _ (by omega),
    @eq_ofNat b₁ _ (by omega), @eq_ofNat b₂ _ (by omega), @eq_ofNat b₃ _ (by omega)]

end

theorem sound_lead {c : Option Char} (h : lead b = some (c, q)) :
    (∀ x, c = some x → q = .start ∧ String.utf8EncodeChar x = [b]) ∧
    (c = none → q.Sound ∧ q.held = [b]) := by
  unfold lead at h
  split_ifs at h with h1 h2 h3 h4 h5 <;>
    obtain ⟨rfl, rfl⟩ := Prod.mk.inj (Option.some.inj h)
  · refine ⟨fun x hx => ?_, nofun⟩
    cases hx
    exact ⟨rfl, encodeChar_one h1⟩
  · refine ⟨nofun, fun _ => ⟨⟨fun b₁ hlow hhigh => ?_, nofun, nofun⟩, rfl⟩⟩
    exact encodeChar_two (Nat.not_lt.mp h2) h3 hlow hhigh
  · refine ⟨nofun, fun _ => ⟨⟨fun b₁ hlow hhigh b₂ hlow₂ hhigh₂ => ?_, nofun, nofun⟩, rfl⟩⟩
    exact encodeChar_three hlow hhigh hlow₂ hhigh₂ (Nat.not_lt.mp h3) h4
  · refine ⟨nofun, fun _ => ⟨⟨fun b₁ hlow hhigh b₂ hlow₂ hhigh₂ b₃ hlow₃ hhigh₃ => ?_, nofun,
      nofun⟩, rfl⟩⟩
    exact encodeChar_four hlow hhigh hlow₂ hhigh₂ hlow₃ hhigh₃ (Nat.not_lt.mp h4) h5

/-- **One byte** of a character: it ends one that is written with exactly the bytes so far, or is
held with the others. -/
theorem Partial.Sound.step (hp : p.Sound) {c : Option Char} (h : Lib.Utf8.step p b = some (c, q)) :
    (∀ x, c = some x → q = .start ∧ String.utf8EncodeChar x = p.held ++ [b]) ∧
    (c = none → q.Sound ∧ q.held = p.held ++ [b]) := by
  obtain ⟨held, owed, low, high, code⟩ := p
  obtain ⟨hawaits, hbetween, -⟩ := hp
  rcases owed with - | _ | owed
  · obtain rfl : held = [] := hbetween rfl
    exact sound_lead h
  · obtain ⟨hlow, hhigh⟩ := range_of_step Nat.one_ne_zero h
    obtain ⟨rfl, rfl⟩ := Prod.mk.inj (Option.some.inj ((step_last hlow hhigh).symm.trans h))
    refine ⟨fun x hx => ?_, nofun⟩
    obtain rfl := Option.some.inj hx
    exact ⟨rfl, hawaits b hlow hhigh⟩
  · obtain ⟨hlow, hhigh⟩ := range_of_step (Nat.succ_ne_zero _) h
    obtain ⟨rfl, rfl⟩ := Prod.mk.inj (Option.some.inj ((step_more hlow hhigh).symm.trans h))
    exact ⟨nofun, fun _ => ⟨⟨hawaits b hlow hhigh, nofun, by simp⟩, rfl⟩⟩

/-- **Only UTF-8 is accepted**: what was fed are the bytes of the characters that came out, and
the ones still held. -/
theorem Partial.Sound.feed (hp : p.Sound) {bytes : List UInt8}
    (h : (Lib.Utf8.feed p bytes).2 = some q) :
    q.Sound ∧ p.held ++ bytes = encode (Lib.Utf8.feed p bytes).1 ++ q.held := by
  induction bytes generalizing p with
  | nil =>
    obtain rfl : p = q := Option.some.inj h
    exact ⟨hp, by simp [Lib.Utf8.feed]⟩
  | cons b bytes ih =>
    rcases hstep : Lib.Utf8.step p b with - | ⟨c, r⟩
    · rw [feed_cons_none hstep] at h
      cases h
    · rw [feed_cons hstep] at h ⊢
      rcases c with - | c
      · obtain ⟨hr, hheld⟩ := (hp.step hstep).2 rfl
        obtain ⟨hq, hbytes⟩ := ih hr h
        refine ⟨hq, ?_⟩
        rw [hheld, append_assoc] at hbytes
        exact hbytes
      · obtain ⟨rfl, hc⟩ := (hp.step hstep).1 c rfl
        obtain ⟨hq, hbytes⟩ := ih sound_start h
        refine ⟨hq, ?_⟩
        show p.held ++ ([b] ++ bytes) = encode ([c] ++ (Lib.Utf8.feed .start bytes).1) ++ q.held
        rw [← append_assoc, ← hc, encode_append, append_assoc, ← hbytes]
        simp [Partial.start]

/-- The next character to come is written with the bytes that are held and at least one more. -/
theorem Partial.Sound.next (hp : p.Sound) {bytes : List UInt8} {c : Char} {s : List Char}
    (h : (Lib.Utf8.feed p bytes).1 = c :: s) :
    p.held.length < (String.utf8EncodeChar c).length := by
  induction bytes generalizing p with
  | nil => cases h
  | cons b bytes ih =>
    rcases hstep : Lib.Utf8.step p b with - | ⟨x, r⟩
    · rw [feed_cons_none hstep] at h
      cases h
    · rw [feed_cons hstep] at h
      rcases x with - | x
      · obtain ⟨hr, hheld⟩ := (hp.step hstep).2 rfl
        have hlt := ih hr h
        rw [hheld, length_append] at hlt
        exact Nat.lt_of_le_of_lt (Nat.le_add_right _ _) hlt
      · obtain ⟨-, hx⟩ := (hp.step hstep).1 x rfl
        obtain ⟨rfl, -⟩ := List.cons.inj h
        rw [hx, length_append]
        exact Nat.lt_succ_self _

/-! ### What is written as UTF-8 is accepted -/

theorem eq_ofNat_val {c : Char} {n : Nat} (h : n = c.val.toNat) : Char.ofNat n = c := by
  have hvalid : c.val.toNat < 0xD800 ∨ 0xDFFF < c.val.toNat ∧ c.val.toNat < 0x110000 := c.valid
  exact Char.ext (UInt32.toNat.inj ((val_ofNat (h ▸ hvalid)).trans h))

theorem toNat_ofNat_of_lt {n : Nat} (h : n < 256) : (UInt8.ofNat n).toNat = n := by
  rw [UInt8.toNat_ofNat', Nat.mod_eq_of_lt h]

theorem feed_encodeChar (c : Char) : feed .start (String.utf8EncodeChar c) = ([c], some .start) := by
  have hvalid : c.val.toNat < 0xD800 ∨ 0xDFFF < c.val.toNat ∧ c.val.toNat < 0x110000 := c.valid
  generalize hv : c.val.toNat = v at hvalid
  have hone : v % 0x40 + 0x80 < 256 := by omega
  have htwo : v / 64 % 0x40 + 0x80 < 256 := by omega
  have hthree : v / 4096 % 0x40 + 0x80 < 256 := by omega
  rw [String.utf8EncodeChar, hv]
  split_ifs with h1 h2 h3
  · have hb : (UInt8.ofNat v).toNat = v := toNat_ofNat_of_lt (by omega)
    generalize UInt8.ofNat v = b at hb
    have hlead : step .start b = some (some c, .start) := by
      show lead b = _
      rw [lead, if_pos (by omega), @eq_ofNat_val c _ (by omega)]
    rw [feed_cons hlead]
    rfl
  · have hb := @toNat_ofNat_of_lt (v / 64 % 0x20 + 0xc0) (by omega)
    have hb₁ := toNat_ofNat_of_lt hone
    generalize UInt8.ofNat (v / 64 % 0x20 + 0xc0) = b at hb
    generalize UInt8.ofNat (v % 0x40 + 0x80) = b₁ at hb₁
    have hlead : step .start b = some (none, ⟨[b], 1, 0x80, 0xBF, b.toNat - 0xC0⟩) := by
      show lead b = _
      rw [lead, if_neg (by omega), if_neg (by omega), if_pos (by omega)]
    rw [feed_cons hlead, feed_cons (step_last (by omega) (by omega)), @eq_ofNat_val c _ (by omega)]
    rfl
  · have hb := @toNat_ofNat_of_lt (v / 4096 % 0x10 + 0xe0) (by omega)
    have hb₁ := toNat_ofNat_of_lt htwo
    have hb₂ := toNat_ofNat_of_lt hone
    generalize UInt8.ofNat (v / 4096 % 0x10 + 0xe0) = b at hb
    generalize UInt8.ofNat (v / 64 % 0x40 + 0x80) = b₁ at hb₁
    generalize UInt8.ofNat (v % 0x40 + 0x80) = b₂ at hb₂
    have hlead : step .start b = some (none, ⟨[b], 2, lowAfter b, highAfter b, b.toNat - 0xE0⟩) := by
      show lead b = _
      rw [lead, if_neg (by omega), if_neg (by omega), if_neg (by omega), if_pos (by omega)]
    have hlow : lowAfter b ≤ b₁.toNat := by
      unfold lowAfter
      split_ifs <;> omega
    have hhigh : b₁.toNat ≤ highAfter b := by
      unfold highAfter
      split_ifs <;> omega
    rw [feed_cons hlead, feed_cons (step_more hlow hhigh),
      feed_cons (step_last (by omega) (by omega)), @eq_ofNat_val c _ (by omega)]
    rfl
  · have hb := @toNat_ofNat_of_lt (v / 262144 % 0x08 + 0xf0) (by omega)
    have hb₁ := toNat_ofNat_of_lt hthree
    have hb₂ := toNat_ofNat_of_lt htwo
    have hb₃ := toNat_ofNat_of_lt hone
    generalize UInt8.ofNat (v / 262144 % 0x08 + 0xf0) = b at hb
    generalize UInt8.ofNat (v / 4096 % 0x40 + 0x80) = b₁ at hb₁
    generalize UInt8.ofNat (v / 64 % 0x40 + 0x80) = b₂ at hb₂
    generalize UInt8.ofNat (v % 0x40 + 0x80) = b₃ at hb₃
    have hlead : step .start b = some (none, ⟨[b], 3, lowAfter b, highAfter b, b.toNat - 0xF0⟩) := by
      show lead b = _
      rw [lead, if_neg (by omega), if_neg (by omega), if_neg (by omega), if_neg (by omega),
        if_pos (by omega)]
    have hlow : lowAfter b ≤ b₁.toNat := by
      unfold lowAfter
      split_ifs <;> omega
    have hhigh : b₁.toNat ≤ highAfter b := by
      unfold highAfter
      split_ifs <;> omega
    rw [feed_cons hlead, feed_cons (step_more hlow hhigh),
      feed_cons (step_more (by omega) (by omega)), feed_cons (step_last (by omega) (by omega)),
      @eq_ofNat_val c _ (by omega)]
    rfl

/-- **Round trip**: the bytes of a text are accepted, and the text comes out. -/
theorem feed_encode (s : List Char) : feed .start (encode s) = (s, some .start) := by
  induction s with
  | nil => rfl
  | cons c s ih =>
    have hc := feed_encodeChar c
    rw [encode_cons, feed_append (congrArg Prod.snd hc), hc, ih]
    rfl

theorem accepts_iff (bytes : List UInt8) :
    (feed .start bytes).2 = some .start ↔ ∃ s, bytes = encode s := by
  constructor
  · intro h
    have hbytes := (Partial.sound_start.feed h).2
    exact ⟨(feed .start bytes).1, by simpa [Partial.start] using hbytes⟩
  · rintro ⟨s, rfl⟩
    rw [feed_encode]

end Lib.Utf8
