/-
Hqsb/Lib/JsonText.lean

JSON texts, and a decoder that reads one value off the front of a text.

`Spells n v t` is the grammar: `t` is a way of writing `v` with at most `n` brackets inside each
other.  `rawDecode` is the decoder; it is the one of the standard library, down to the three words
`NaN`, `Infinity` and `-Infinity` and to the surrogates of `\u` escapes.  What the library makes of
a number or of a word is a function of its characters, so `Value.atom` keeps the characters.

The decoder finds exactly what the grammar derives (`rawDecode_sound`, `rawDecode_complete`).  A
number goes on as long as it can, so the second direction needs a text that ends behind the value
or goes on with a character no value goes on with (`Delimited`).
-/
import Mathlib

namespace Lib.JsonText

open List

/-- What a text stands for. -/
inductive Value where
  | atom (lexeme : List Char)
  | str (codes : List Nat)
  | arr (items : List Value)
  | obj (members : List (List Nat × Value))

def isBlank (c : Char) : Bool := c = ' ' || c = '\t' || c = '\r' || c = '\n'

/-- The characters that end a number. -/
def isBoundary (c : Char) : Bool := isBlank c || c = ',' || c = ']' || c = '}' || c = ':'

/-- The characters of numbers and words are among these. -/
def isPlain (c : Char) : Bool := !isBoundary c && c ≠ '"' && c ≠ '[' && c ≠ '{'

def skipBlanks (t : List Char) : List Char := t.dropWhile isBlank

/-! ### Numbers and words -/

inductive LexState where
  | start | minus | zero | int | dot | frac | e | sign | exp
  | word (rest : List Char)

namespace LexState

/-- Behind the whole part of a number. -/
def afterInt (c : Char) : Option LexState :=
  if c = '.' then some .dot else if c = 'e' ∨ c = 'E' then some .e else none

def next : LexState → Char → Option LexState
  | .start, c =>
    if c = '-' then some .minus
    else if c = '0' then some .zero
    else if c.isDigit then some .int
    else if c = 't' then some (.word ['r', 'u', 'e'])
    else if c = 'f' then some (.word ['a', 'l', 's', 'e'])
    else if c = 'n' then some (.word ['u', 'l', 'l'])
    else if c = 'N' then some (.word ['a', 'N'])
    else if c = 'I' then some (.word ['n', 'f', 'i', 'n', 'i', 't', 'y'])
    else none
  | .minus, c =>
    if c = '0' then some .zero
    else if c.isDigit then some .int
    else if c = 'I' then some (.word ['n', 'f', 'i', 'n', 'i', 't', 'y'])
    else none
  | .zero, c => afterInt c
  | .int, c => if c.isDigit then some .int else afterInt c
  | .dot, c => if c.isDigit then some .frac else none
  | .frac, c => if c.isDigit then some .frac else if c = 'e' ∨ c = 'E' then some .e else none
  | .e, c => if c.isDigit then some .exp else if c = '+' ∨ c = '-' then some .sign else none
  | .sign, c => if c.isDigit then some .exp else none
  | .exp, c => if c.isDigit then some .exp else none
  | .word (x :: rest), c => if c = x then some (.word rest) else none
  | .word [], _ => none

def accepting : LexState → Bool
  | .zero | .int | .frac | .exp | .word [] => true
  | _ => false

/-- The longest piece that ends where one can end. -/
def scan : LexState → List Char → Option (List Char × List Char)
  | q, [] => if q.accepting then some ([], []) else none
  | q, c :: t =>
    ((q.next c).bind fun r => (scan r t).map fun p => (c :: p.1, p.2)) <|>
      if q.accepting then some ([], c :: t) else none

/-- The pieces that lead to a state in which they can end. -/
def Accepts : LexState → List Char → Prop
  | q, [] => q.accepting
  | q, c :: t => ∃ r, q.next c = some r ∧ Accepts r t

end LexState

/-! ### Strings -/

/-- What stands before the closing quote, and what follows it. -/
def quoted : List Char → Option (List Char × List Char)
  | '"' :: t => some ([], t)
  | '\\' :: c :: t => (quoted t).map fun p => ('\\' :: c :: p.1, p.2)
  | c :: t => (quoted t).map fun p => (c :: p.1, p.2)
  | [] => none

/-- What can stand before a closing quote. -/
inductive Raw : List Char → Prop where
  | nil : Raw []
  | escape (c : Char) {t : List Char} : Raw t → Raw ('\\' :: c :: t)
  | plain {c : Char} {t : List Char} : c ≠ '"' → c ≠ '\\' → Raw t → Raw (c :: t)

def hexDigit (c : Char) : Option Nat :=
  if c.isDigit then some (c.toNat - 48)
  else if 'a' ≤ c ∧ c ≤ 'f' then some (c.toNat - 87)
  else if 'A' ≤ c ∧ c ≤ 'F' then some (c.toNat - 55)
  else none

def escapeOf (c : Char) : Option Nat :=
  if c = '"' ∨ c = '\\' ∨ c = '/' then some c.toNat
  else if c = 'b' then some 8
  else if c = 'f' then some 12
  else if c = 'n' then some 10
  else if c = 'r' then some 13
  else if c = 't' then some 9
  else none

def unescape : List Char → Option (List Nat)
  | [] => some []
  | '\\' :: 'u' :: a :: b :: c :: d :: t => do
    let digits ← [a, b, c, d].mapM hexDigit
    (digits.foldl (fun n digit => 16 * n + digit) 0 :: ·) <$> unescape t
  | '\\' :: c :: t => do
    let code ← escapeOf c
    (code :: ·) <$> unescape t
  | ['\\'] => none
  | c :: t => if c.toNat < 0x20 then none else (c.toNat :: ·) <$> unescape t

/-- Two escapes that stand for one code point. -/
def joinSurrogates : List Nat → List Nat
  | high :: low :: t =>
    if 0xD800 ≤ high ∧ high ≤ 0xDBFF ∧ 0xDC00 ≤ low ∧ low ≤ 0xDFFF then
      (0x10000 + ((high - 0xD800) * 0x400 + (low - 0xDC00))) :: joinSurrogates t
    else high :: joinSurrogates (low :: t)
  | t => t

/-- The code points of a string that is written as `raw`. -/
def codesOf (raw : List Char) : Option (List Nat) := (unescape raw).map joinSurrogates

def scanString (t : List Char) : Option (List Nat × List Char) := do
  let (raw, rest) ← quoted t
  let codes ← codesOf raw
  some (codes, rest)

/-! ### Values -/

section

variable {α : Type*}

/-- One item after the other, up to the closing bracket. -/
def separated (close : Char) (item : List Char → Option (α × List Char)) :
    Nat → List Char → Option (List α × List Char)
  | 0, _ => none
  | fuel + 1, t =>
    match item t with
    | none => none
    | some (a, rest) =>
      match skipBlanks rest with
      | [] => none
      | c :: rest =>
        if c = close then some ([a], rest)
        else if c = ',' then
          (separated close item fuel (skipBlanks rest)).map fun p => (a :: p.1, p.2)
        else none

/-- The items between two brackets, behind the opening one. -/
def enclosed (close : Char) (item : List Char → Option (α × List Char)) (t : List Char) :
    Option (List α × List Char) :=
  match skipBlanks t with
  | [] => none
  | c :: rest =>
    if c = close then some ([], rest) else separated close item (c :: rest).length (c :: rest)

end

def entry (value : List Char → Option (Value × List Char)) (t : List Char) :
    Option ((List Nat × Value) × List Char) :=
  match t with
  | '"' :: t =>
    match scanString t with
    | none => none
    | some (key, rest) =>
      match skipBlanks rest with
      | ':' :: rest => (value (skipBlanks rest)).map fun p => ((key, p.1), p.2)
      | _ => none
  | _ => none

def scalar : List Char → Option (Value × List Char)
  | '"' :: t => (scanString t).map fun p => (.str p.1, p.2)
  | t => (LexState.scan .start t).map fun p => (.atom p.1, p.2)

/-- One value with at most `n` brackets inside each other. -/
def decode : Nat → List Char → Option (Value × List Char)
  | 0, t => scalar t
  | n + 1, t =>
    match t with
    | '[' :: t => (enclosed ']' (decode n) t).map fun p => (.arr p.1, p.2)
    | '{' :: t => (enclosed '}' (entry (decode n)) t).map fun p => (.obj p.1, p.2)
    | t => scalar t

/-- `raw_decode`: the value a text begins with, and what follows it. -/
def rawDecode (t : List Char) : Option (Value × List Char) := decode t.length t

/-- `loads`: the value of a whole text. -/
def loads (t : List Char) : Option Value :=
  match rawDecode (skipBlanks t) with
  | some (v, rest) => if skipBlanks rest = [] then some v else none
  | none => none

/-! ### The grammar -/

/-- No value goes on with what stands here. -/
def Delimited (t : List Char) : Prop := ∀ c ∈ t.head?, isBoundary c

def Blank (w : List Char) : Prop := ∀ c ∈ w, isBlank c

section

variable {α : Type*} (Q : α → List Char → Prop)

/-- At least one item, with commas in between. -/
inductive Listed : List α → List Char → Prop where
  | one {a : α} {seg w : List Char} : Q a seg → Blank w → Listed [a] (seg ++ w)
  | more {a : α} {as : List α} {seg w w' body : List Char} : Q a seg → Blank w → Blank w' →
    Listed as body → Listed (a :: as) (seg ++ (w ++ ',' :: (w' ++ body)))

/-- Items between brackets. -/
inductive Enclosed (opening closing : Char) : List α → List Char → Prop where
  | empty {w : List Char} : Blank w → Enclosed opening closing [] (opening :: (w ++ [closing]))
  | items {as : List α} {w body : List Char} : Blank w → Listed Q as body →
    Enclosed opening closing as (opening :: (w ++ (body ++ [closing])))

end

/-- A key, a colon and a value. -/
inductive Entry (Q : Value → List Char → Prop) : List Nat × Value → List Char → Prop where
  | mk {raw w w' seg : List Char} {key : List Nat} {v : Value} : Raw raw →
    codesOf raw = some key → Blank w → Blank w' → Q v seg →
    Entry Q (key, v) ('"' :: (raw ++ '"' :: (w ++ ':' :: (w' ++ seg))))

/-- A value without brackets. -/
inductive Scalar : Value → List Char → Prop where
  | atom {lexeme : List Char} : LexState.Accepts .start lexeme → Scalar (.atom lexeme) lexeme
  | str {raw : List Char} {codes : List Nat} : Raw raw → codesOf raw = some codes →
    Scalar (.str codes) ('"' :: (raw ++ ['"']))

/-- The ways of writing a value with at most `n` brackets inside each other. -/
def Spells : Nat → Value → List Char → Prop
  | 0, v, t => Scalar v t
  | n + 1, v, t => Scalar v t ∨
    (∃ items, v = .arr items ∧ Enclosed (Spells n) '[' ']' items t) ∨
    ∃ members, v = .obj members ∧ Enclosed (Entry (Spells n)) '{' '}' members t

/-! ### Lexemes are found -/

variable {c : Char} {t : List Char} {Q : Value → List Char → Prop}
  {value : List Char → Option (Value × List Char)}

theorem isBoundary_of_isBlank (h : isBlank c) : isBoundary c := by
  simp [isBoundary, h]

theorem delimited_cons : Delimited (c :: t) ↔ isBoundary c := by
  simp [Delimited]

theorem delimited_blank {w : List Char} (hw : Blank w) (ht : Delimited t) : Delimited (w ++ t) := by
  rcases w with - | ⟨c, w⟩
  · exact ht
  · exact delimited_cons.mpr (isBoundary_of_isBlank (hw c mem_cons_self))

namespace LexState

theorem next_boundary {q : LexState} (hq : q.accepting) {c : Char} (hc : isBoundary c) :
    q.next c = none := by
  have hcases : c = ' ' ∨ c = '\t' ∨ c = '\r' ∨ c = '\n' ∨ c = ',' ∨ c = ']' ∨ c = '}' ∨ c = ':' := by
    simpa [isBoundary, isBlank, or_assoc] using hc
  cases q with
  | word rest =>
    cases rest with
    | nil => rfl
    | cons x rest => exact absurd hq (by simp [accepting])
  | zero | int | frac | exp =>
    rcases hcases with rfl | rfl | rfl | rfl | rfl | rfl | rfl | rfl <;> decide
  | start | minus | dot | e | sign => cases hq

theorem scan_sound {q : LexState} {t lexeme rest : List Char} (h : scan q t = some (lexeme, rest)) :
    t = lexeme ++ rest ∧ Accepts q lexeme := by
  induction t generalizing q lexeme with
  | nil =>
    rw [scan] at h
    split_ifs at h with hq
    cases h
    exact ⟨rfl, hq⟩
  | cons c t ih =>
    rw [scan] at h
    rcases hnext : (q.next c).bind fun r => (scan r t).map fun p => (c :: p.1, p.2) with - | p
    · rw [hnext] at h
      change (if q.accepting then some ([], c :: t) else none) = _ at h
      split_ifs at h with hq
      cases h
      exact ⟨rfl, hq⟩
    · rw [hnext] at h
      cases h
      obtain ⟨r, hr, hscan⟩ := Option.bind_eq_some_iff.mp hnext
      obtain ⟨p', hp', hp⟩ := Option.map_eq_some_iff.mp hscan
      cases hp
      obtain ⟨ht, haccepts⟩ := ih hp'
      exact ⟨by rw [cons_append, ← ht], r, hr, haccepts⟩

theorem scan_complete {q : LexState} {lexeme rest : List Char} (h : Accepts q lexeme)
    (hrest : Delimited rest) : scan q (lexeme ++ rest) = some (lexeme, rest) := by
  induction lexeme generalizing q with
  | nil =>
    have hq : q.accepting = true := h
    rcases rest with - | ⟨c, rest⟩
    · rw [nil_append, scan, if_pos hq]
    · rw [nil_append, scan, next_boundary hq (delimited_cons.mp hrest), if_pos hq]
      rfl
  | cons c lexeme ih =>
    obtain ⟨r, hr, haccepts⟩ := h
    rw [cons_append, scan, hr]
    simp [ih haccepts]

end LexState

theorem quoted_sound {raw rest : List Char} (h : quoted t = some (raw, rest)) :
    t = raw ++ '"' :: rest ∧ Raw raw := by
  fun_induction quoted t generalizing raw with
  | case1 t =>
    cases h
    exact ⟨rfl, .nil⟩
  | case2 c t ih =>
    obtain ⟨p, hp, heq⟩ := Option.map_eq_some_iff.mp h
    cases heq
    obtain ⟨ht, hraw⟩ := ih hp
    exact ⟨by rw [ht]; rfl, .escape c hraw⟩
  | case3 c t hquote hescape ih =>
    obtain ⟨p, hp, heq⟩ := Option.map_eq_some_iff.mp h
    cases heq
    obtain ⟨ht, hraw⟩ := ih hp
    refine ⟨by rw [ht]; rfl, .plain (fun hc => hquote hc) (fun hc => ?_) hraw⟩
    -- behind a backslash there is a character, or there is no closing quote
    rcases t with - | ⟨x, t⟩
    · cases hp
    · exact hescape x t hc rfl
  | case4 => cases h

theorem quoted_complete {raw : List Char} (h : Raw raw) (rest : List Char) :
    quoted (raw ++ '"' :: rest) = some (raw, rest) := by
  induction h with
  | nil => rfl
  | escape c _ ih => simp [quoted, ih]
  | @plain c t hquote hescape _ ih =>
    rw [cons_append, quoted.eq_def]
    split
    · rename_i heq
      exact absurd (List.cons.inj heq).1 hquote
    · rename_i heq
      exact absurd (List.cons.inj heq).1 hescape
    · rename_i heq
      obtain ⟨rfl, rfl⟩ := List.cons.inj heq
      rw [ih]
      rfl
    · rename_i heq
      cases heq

theorem scanString_sound {rest : List Char} {codes : List Nat}
    (h : scanString t = some (codes, rest)) :
    ∃ raw, t = raw ++ '"' :: rest ∧ Raw raw ∧ codesOf raw = some codes := by
  obtain ⟨⟨raw, rest'⟩, hquoted, h⟩ := Option.bind_eq_some_iff.mp h
  obtain ⟨codes', hcodes, h⟩ := Option.bind_eq_some_iff.mp h
  cases h
  obtain ⟨ht, hraw⟩ := quoted_sound hquoted
  exact ⟨raw, ht, hraw, hcodes⟩

theorem scanString_complete {raw : List Char} {codes : List Nat} (hraw : Raw raw)
    (hcodes : codesOf raw = some codes) (rest : List Char) :
    scanString (raw ++ '"' :: rest) = some (codes, rest) := by
  simp [scanString, quoted_complete hraw, hcodes]

/-! ### Items between brackets are found -/

section

variable {α : Type*} {item : List Char → Option (α × List Char)} {Q Q' : α → List Char → Prop}

variable (item Q)

/-- What the decoder of an item takes is a way of writing it. -/
def Reads : Prop :=
  ∀ ⦃t a rest⦄, item t = some (a, rest) → ∃ seg, t = seg ++ rest ∧ Q a seg

/-- The decoder of an item takes what is written there. -/
def Finds : Prop :=
  ∀ ⦃a seg⦄, Q a seg → ∀ ⦃rest⦄, Delimited rest → item (seg ++ rest) = some (a, rest)

variable {item Q}

/-- Nothing is written with a blank, a comma or a closing bracket in front. -/
def Solid (Q : α → List Char → Prop) : Prop :=
  ∀ ⦃a seg⦄, Q a seg → ∃ c t, seg = c :: t ∧ isBoundary c = false

theorem exists_blank (t : List Char) : ∃ w, Blank w ∧ t = w ++ skipBlanks t :=
  ⟨t.takeWhile isBlank, fun _ hc => mem_takeWhile_imp hc, takeWhile_append_dropWhile.symm⟩

theorem skipBlanks_append {w : List Char} (hw : Blank w) (t : List Char) :
    skipBlanks (w ++ t) = skipBlanks t := dropWhile_append_of_pos hw

theorem skipBlanks_cons {c : Char} (hc : isBlank c = false) (t : List Char) :
    skipBlanks (c :: t) = c :: t := dropWhile_cons_of_neg (by simp [hc])

theorem not_isBlank {c : Char} (h : isBoundary c = false) : isBlank c = false := by
  simp only [isBoundary, Bool.or_eq_false_iff] at h
  exact h.1.1.1.1

theorem Solid.skipBlanks (h : Solid Q) {a : α} {seg : List Char} (hseg : Q a seg)
    (t : List Char) : skipBlanks (seg ++ t) = seg ++ t := by
  obtain ⟨c, seg, rfl, hc⟩ := h hseg
  exact skipBlanks_cons (not_isBlank hc) _

variable {body : List Char}

theorem Listed.imp {as : List α} (h : Listed Q as body) {limit : Nat}
    (hlimit : body.length ≤ limit) (hQ : ∀ a seg, seg.length ≤ limit → Q a seg → Q' a seg) :
    Listed Q' as body := by
  induction h with
  | one hseg hw =>
    rw [length_append] at hlimit
    exact .one (hQ _ _ (by omega) hseg) hw
  | more hseg hw hw' _ ih =>
    simp only [length_append, length_cons] at hlimit
    exact .more (hQ _ _ (by omega) hseg) hw hw' (ih (by omega))

theorem Enclosed.imp {opening closing : Char} {as : List α} {t : List Char}
    (h : Enclosed Q opening closing as t) {limit : Nat} (hlimit : t.length ≤ limit + 1)
    (hQ : ∀ a seg, seg.length ≤ limit → Q a seg → Q' a seg) :
    Enclosed Q' opening closing as t := by
  cases h with
  | empty hw => exact .empty hw
  | items hw hbody =>
    simp only [length_append, length_cons] at hlimit
    exact .items hw (hbody.imp (by omega) hQ)

theorem Listed.length_le (hs : Solid Q) {as : List α} (h : Listed Q as body) :
    as.length ≤ body.length := by
  induction h with
  | one hseg hw =>
    obtain ⟨c, t, rfl, -⟩ := hs hseg
    simp
  | more hseg hw hw' _ ih =>
    simp only [length_append, length_cons]
    omega

theorem Listed.starts (hs : Solid Q) {as : List α} (h : Listed Q as body) :
    ∃ c t, body = c :: t ∧ isBoundary c = false := by
  cases h with
  | one hseg hw =>
    obtain ⟨c, t, rfl, hc⟩ := hs hseg
    exact ⟨c, _, rfl, hc⟩
  | more hseg hw hw' hbody =>
    obtain ⟨c, t, rfl, hc⟩ := hs hseg
    exact ⟨c, _, rfl, hc⟩

theorem separated_sound (h : Reads item Q) {close : Char} {fuel : Nat} {t rest : List Char}
    {as : List α} (hs : separated close item fuel t = some (as, rest)) :
    ∃ body, t = body ++ close :: rest ∧ Listed Q as body := by
  induction fuel generalizing t as with
  | zero => cases hs
  | succ fuel ih =>
    rw [separated] at hs
    rcases hitem : item t with - | ⟨a, rest₁⟩
    · rw [hitem] at hs
      cases hs
    · obtain ⟨seg, rfl, hseg⟩ := h hitem
      obtain ⟨w, hw, hrest₁⟩ := exists_blank rest₁
      rw [hitem] at hs
      simp only at hs
      rcases hskip : skipBlanks rest₁ with - | ⟨c, rest₂⟩
      · rw [hskip] at hs
        cases hs
      · rw [hskip] at hs hrest₁
        simp only at hs
        split_ifs at hs with hclose hcomma
        · cases hs
          exact ⟨seg ++ w, by rw [hrest₁, hclose, append_assoc], .one hseg hw⟩
        · obtain ⟨p, hp, heq⟩ := Option.map_eq_some_iff.mp hs
          cases heq
          obtain ⟨body, hbody, hlisted⟩ := ih hp
          obtain ⟨w', hw', hrest₂⟩ := exists_blank rest₂
          refine ⟨seg ++ (w ++ ',' :: (w' ++ body)), ?_, .more hseg hw hw' hlisted⟩
          rw [hrest₁, hrest₂, hbody, hcomma]
          simp

theorem separated_complete (h : Finds item Q) (hsolid : Solid Q) {close : Char}
    (hclose : isBoundary close) (hblank : isBlank close = false) (hne : ',' ≠ close) {as : List α}
    (hlisted : Listed Q as body) (fuel : Nat) (hfuel : as.length ≤ fuel) (rest : List Char) :
    separated close item fuel (body ++ close :: rest) = some (as, rest) := by
  induction hlisted generalizing fuel with
  | @one a seg w hseg hw =>
    obtain ⟨fuel, rfl⟩ : ∃ n, fuel = n + 1 := ⟨fuel - 1, by simp at hfuel; omega⟩
    have hitem := h hseg (delimited_blank hw (delimited_cons.mpr hclose) : Delimited (w ++ close :: rest))
    rw [append_assoc, separated, hitem]
    simp only [skipBlanks_append hw, skipBlanks_cons hblank, if_true]
  | @more a as seg w w' body hseg hw hw' hbody ih =>
    rw [length_cons] at hfuel
    obtain ⟨fuel, rfl⟩ : ∃ n, fuel = n + 1 := ⟨fuel - 1, by omega⟩
    have hcomma : Delimited (w ++ ',' :: (w' ++ (body ++ close :: rest))) :=
      delimited_blank hw (delimited_cons.mpr (by decide))
    have hitem := h hseg hcomma
    obtain ⟨c, t, hstart, hc⟩ := hbody.starts hsolid
    have hskip : skipBlanks (w' ++ (body ++ close :: rest)) = body ++ close :: rest := by
      rw [skipBlanks_append hw', hstart]
      exact skipBlanks_cons (not_isBlank hc) _
    simp only [append_assoc, cons_append]
    rw [separated, hitem]
    simp only [skipBlanks_append hw, skipBlanks_cons (show isBlank ',' = false by decide), hne,
      if_false, if_true, hskip, ih fuel (by omega), Option.map_some]

theorem enclosed_sound (h : Reads item Q) {opening close : Char} {t rest : List Char}
    {as : List α} (hs : enclosed close item t = some (as, rest)) :
    ∃ seg, opening :: t = seg ++ rest ∧ Enclosed Q opening close as seg := by
  obtain ⟨w, hw, ht⟩ := exists_blank t
  rw [enclosed] at hs
  rcases hskip : skipBlanks t with - | ⟨c, rest₁⟩
  · rw [hskip] at hs
    cases hs
  · rw [hskip] at hs ht
    simp only at hs
    split_ifs at hs with hclose
    · cases hs
      exact ⟨opening :: (w ++ [close]), by rw [ht, hclose]; simp, .empty hw⟩
    · obtain ⟨body, hbody, hlisted⟩ := separated_sound h hs
      refine ⟨opening :: (w ++ (body ++ [close])), ?_, .items hw hlisted⟩
      rw [ht, hbody]
      simp

theorem enclosed_complete (h : Finds item Q) (hsolid : Solid Q) {opening close : Char}
    (hclose : isBoundary close) (hblank : isBlank close = false) (hne : ',' ≠ close)
    {as : List α} {t : List Char}
    (henclosed : Enclosed Q opening close as (opening :: t)) (rest : List Char) :
    enclosed close item (t ++ rest) = some (as, rest) := by
  cases henclosed with
  | @empty w hw =>
    rw [append_assoc, enclosed, skipBlanks_append hw]
    simp [skipBlanks_cons hblank]
  | @items _ w body hw hbody =>
    have hfuel := hbody.length_le hsolid
    obtain ⟨c, t, hcons, hc⟩ := hbody.starts hsolid
    have hne' : c ≠ close := by
      rintro rfl
      rw [hclose] at hc
      cases hc
    have hskip : skipBlanks (w ++ (body ++ [close]) ++ rest) = c :: (t ++ close :: rest) := by
      rw [append_assoc, skipBlanks_append hw, hcons]
      simp [skipBlanks_cons (not_isBlank hc)]
    rw [enclosed, hskip]
    simp only [hne']
    have hfound := separated_complete h hsolid hclose hblank hne hbody
      (c :: (t ++ close :: rest)).length (by rw [hcons] at hfuel; simp at hfuel ⊢; omega) rest
    rw [hcons] at hfound
    exact hfound

end

/-! ### Values are found -/

theorem entry_sound (h : Reads value Q) : Reads (entry value) (Entry Q) := by
  intro t m rest hm
  unfold entry at hm
  split at hm
  · rename_i t
    rcases hkey : scanString t with - | ⟨key, rest₁⟩
    · rw [hkey] at hm
      cases hm
    · obtain ⟨raw, rfl, hraw, hcodes⟩ := scanString_sound hkey
      obtain ⟨w, hw, hrest₁⟩ := exists_blank rest₁
      rw [hkey] at hm
      simp only at hm
      split at hm
      · rename_i rest₂ hcolon
        obtain ⟨p, hp, heq⟩ := Option.map_eq_some_iff.mp hm
        cases heq
        obtain ⟨w', hw', hrest₂⟩ := exists_blank rest₂
        obtain ⟨seg, hseg, hQ⟩ := h hp
        refine ⟨_, ?_, .mk hraw hcodes hw hw' hQ⟩
        rw [hrest₁, hcolon, hrest₂, hseg]
        simp
      · cases hm
  · cases hm

theorem entry_complete (h : Finds value Q) (hsolid : Solid Q) : Finds (entry value) (Entry Q) := by
  rintro ⟨key, v⟩ - ⟨hraw, hcodes, hw, hw', hseg⟩ rest hrest
  rename_i raw w w' seg
  have hvalue : value (skipBlanks (w' ++ (seg ++ rest))) = some (v, rest) := by
    rw [skipBlanks_append hw', hsolid.skipBlanks hseg, h hseg hrest]
  simp only [entry, cons_append, append_assoc, scanString_complete hraw hcodes,
    skipBlanks_append hw, skipBlanks_cons (show isBlank ':' = false by decide), hvalue,
    Option.map_some]

theorem entry_solid (Q : Value → List Char → Prop) : Solid (Entry Q) := by
  rintro - - ⟨-, -, -, -, -⟩
  exact ⟨'"', _, rfl, by decide⟩

theorem Entry.imp {Q Q' : Value → List Char → Prop} {m : List Nat × Value} {t : List Char}
    (h : Entry Q m t) (hQ : ∀ v seg, seg.length ≤ t.length → Q v seg → Q' v seg) :
    Entry Q' m t := by
  obtain ⟨hraw, hcodes, hw, hw', hseg⟩ := h
  refine .mk hraw hcodes hw hw' (hQ _ _ ?_ hseg)
  simp only [List.length_append, List.length_cons]
  omega

theorem scalar_sound : Reads scalar Scalar := by
  intro t v rest h
  unfold scalar at h
  split at h
  · obtain ⟨p, hp, heq⟩ := Option.map_eq_some_iff.mp h
    cases heq
    obtain ⟨raw, rfl, hraw, hcodes⟩ := scanString_sound hp
    exact ⟨_, by simp, .str hraw hcodes⟩
  · obtain ⟨p, hp, heq⟩ := Option.map_eq_some_iff.mp h
    cases heq
    obtain ⟨rfl, haccepts⟩ := LexState.scan_sound hp
    exact ⟨_, rfl, .atom haccepts⟩

namespace LexState

def Plain : LexState → Prop
  | .word rest => ∀ c ∈ rest, isPlain c
  | _ => True

theorem isPlain_of_next {q r : LexState} (hq : q.Plain) {c : Char} (h : q.next c = some r) :
    isPlain c := by
  by_contra hc
  have hcases : c = ' ' ∨ c = '\t' ∨ c = '\r' ∨ c = '\n' ∨ c = ',' ∨ c = ']' ∨ c = '}' ∨ c = ':' ∨
      c = '"' ∨ c = '[' ∨ c = '{' := by
    by_contra hnone
    exact hc (by simpa [isPlain, isBoundary, isBlank, not_or, and_assoc] using hnone)
  cases q with
  | word rest =>
    cases rest with
    | nil => cases h
    | cons x rest =>
      rw [next] at h
      split_ifs at h with hx
      exact hc (hx ▸ hq x mem_cons_self)
  | start | minus | zero | int | dot | frac | e | sign | exp =>
    revert h
    rcases hcases with rfl | rfl | rfl | rfl | rfl | rfl | rfl | rfl | rfl | rfl | rfl <;> exact nofun

theorem Plain.next {q r : LexState} (hq : q.Plain) (h : q.next c = some r) : r.Plain := by
  cases q with
  | word rest =>
    cases rest with
    | nil => cases h
    | cons x rest =>
      rw [LexState.next] at h
      split_ifs at h
      cases h
      exact fun c hc => hq c (mem_cons_of_mem x hc)
  | start | minus | zero | int | dot | frac | e | sign | exp =>
    simp only [LexState.next, afterInt] at h
    split_ifs at h <;> cases h <;> first | trivial | simp [Plain, isPlain, isBoundary, isBlank]

theorem accepts_plain {q : LexState} (hq : q.Plain) {lexeme : List Char} (h : Accepts q lexeme) :
    ∀ c ∈ lexeme, isPlain c := by
  induction lexeme generalizing q with
  | nil => exact nofun
  | cons c t ih =>
    obtain ⟨r, hr, hrest⟩ := h
    intro x hx
    rcases mem_cons.mp hx with rfl | hx
    · exact isPlain_of_next hq hr
    · exact ih (hq.next hr) hrest x hx

end LexState

theorem accepts_start {lexeme : List Char} (h : LexState.Accepts .start lexeme) :
    ∃ c t, lexeme = c :: t ∧ isPlain c := by
  rcases lexeme with - | ⟨c, t⟩
  · exact absurd h (by simp [LexState.Accepts, LexState.accepting])
  · exact ⟨c, t, rfl, @LexState.accepts_plain .start trivial _ h c mem_cons_self⟩

theorem scalar_complete : Finds scalar Scalar := by
  intro v seg h rest hrest
  cases h with
  | atom haccepts =>
    obtain ⟨c, t, rfl, hc⟩ := accepts_start haccepts
    have hquote : c ≠ '"' := by
      rintro rfl
      cases hc
    have hscan := LexState.scan_complete haccepts hrest
    rw [List.cons_append] at hscan ⊢
    unfold scalar
    split
    · rename_i heq
      exact absurd (List.cons.inj heq).1 hquote
    · rw [hscan]
      rfl
  | str hraw hcodes =>
    have hscan := scanString_complete hraw hcodes rest
    simp only [List.cons_append, List.append_assoc, List.nil_append]
    unfold scalar
    simp only [hscan, Option.map_some]

theorem scalar_head {v : Value} {t : List Char} (h : Scalar v t) :
    ∃ c s, t = c :: s ∧ isBoundary c = false ∧ c ≠ '[' ∧ c ≠ '{' := by
  cases h with
  | atom haccepts =>
    obtain ⟨c, s, rfl, hc⟩ := accepts_start haccepts
    simp only [isPlain, Bool.and_eq_true, Bool.not_eq_true', decide_eq_true_eq] at hc
    exact ⟨c, s, rfl, hc.1.1.1, hc.1.2, hc.2⟩
  | str hraw hcodes => exact ⟨'"', _, rfl, by decide, by decide, by decide⟩

theorem spells_solid (n : Nat) : Solid (Spells n) := by
  have hscalar : Solid Scalar := fun v seg h =>
    let ⟨c, s, hs, hc, _⟩ := scalar_head h
    ⟨c, s, hs, hc⟩
  intro v seg h
  cases n with
  | zero => exact hscalar h
  | succ n =>
    rcases h with h | ⟨items, rfl, h⟩ | ⟨members, rfl, h⟩
    · exact hscalar h
    · cases h <;> exact ⟨'[', _, rfl, by decide⟩
    · cases h <;> exact ⟨'{', _, rfl, by decide⟩

theorem decode_sound (n : Nat) : Reads (decode n) (Spells n) := by
  induction n with
  | zero => exact scalar_sound
  | succ n ih =>
    intro t v rest h
    unfold decode at h
    split at h
    · obtain ⟨p, hp, heq⟩ := Option.map_eq_some_iff.mp h
      cases heq
      obtain ⟨seg, hseg, hitems⟩ := @enclosed_sound _ _ _ ih '[' _ _ _ _ hp
      exact ⟨seg, hseg, .inr (.inl ⟨_, rfl, hitems⟩)⟩
    · obtain ⟨p, hp, heq⟩ := Option.map_eq_some_iff.mp h
      cases heq
      obtain ⟨seg, hseg, hmembers⟩ := @enclosed_sound _ _ _ (entry_sound ih) '{' _ _ _ _ hp
      exact ⟨seg, hseg, .inr (.inr ⟨_, rfl, hmembers⟩)⟩
    · obtain ⟨seg, ht, hseg⟩ := scalar_sound h
      exact ⟨seg, ht, .inl hseg⟩

theorem decode_complete (n : Nat) : Finds (decode n) (Spells n) := by
  induction n with
  | zero => exact scalar_complete
  | succ n ih =>
    intro v seg h rest hrest
    rcases h with h | ⟨items, rfl, h⟩ | ⟨members, rfl, h⟩
    · have hfound := scalar_complete h hrest
      obtain ⟨c, s, rfl, -, hbracket, hbrace⟩ := scalar_head h
      rw [cons_append] at hfound ⊢
      unfold decode
      split
      · rename_i heq
        exact absurd (List.cons.inj heq).1 hbracket
      · rename_i heq
        exact absurd (List.cons.inj heq).1 hbrace
      · exact hfound
    · obtain ⟨s, rfl⟩ : ∃ s, seg = '[' :: s := by cases h <;> exact ⟨_, rfl⟩
      have hfound := enclosed_complete ih (spells_solid n) (by decide) (by decide) (by decide) h rest
      rw [cons_append]
      unfold decode
      simp only [hfound, Option.map_some]
    · obtain ⟨s, rfl⟩ : ∃ s, seg = '{' :: s := by cases h <;> exact ⟨_, rfl⟩
      have hfound := enclosed_complete (entry_complete ih (spells_solid n)) (entry_solid _)
        (by decide) (by decide) (by decide) h rest
      rw [cons_append]
      unfold decode
      simp only [hfound, Option.map_some]

/-- A value has no more brackets inside each other than it has characters. -/
theorem Spells.imp {n m : Nat} {v : Value} {t : List Char} (h : Spells n v t)
    (hm : n ≤ m ∨ t.length ≤ m) : Spells m v t := by
  induction n generalizing m v t with
  | zero =>
    cases m with
    | zero => exact h
    | succ m => exact .inl h
  | succ n ih =>
    rcases h with h | ⟨items, rfl, h⟩ | ⟨members, rfl, h⟩
    · cases m with
      | zero => exact h
      | succ m => exact .inl h
    · have hpos : 0 < t.length := by cases h <;> simp
      obtain ⟨m, rfl⟩ : ∃ k, m = k + 1 := ⟨m - 1, by omega⟩
      refine .inr (.inl ⟨items, rfl, h.imp (by omega : t.length ≤ t.length - 1 + 1) fun a seg hlen ha => ?_⟩)
      exact ih ha (by omega)
    · have hpos : 0 < t.length := by cases h <;> simp
      obtain ⟨m, rfl⟩ : ∃ k, m = k + 1 := ⟨m - 1, by omega⟩
      refine .inr (.inr ⟨members, rfl, h.imp (by omega : t.length ≤ t.length - 1 + 1) fun a seg hlen ha => ?_⟩)
      exact ha.imp fun v s hs hv => ih hv (by omega)

/-- **Soundness**: what the decoder takes is a way of writing the value. -/
theorem rawDecode_sound {t rest : List Char} {v : Value} (h : rawDecode t = some (v, rest)) :
    ∃ seg, t = seg ++ rest ∧ Spells seg.length v seg := by
  obtain ⟨seg, ht, hseg⟩ := decode_sound _ h
  exact ⟨seg, ht, hseg.imp (.inr (le_refl _))⟩

/-- **Completeness**: a value that is written there, and cannot go on, is found. -/
theorem rawDecode_complete {n : Nat} {v : Value} {seg rest : List Char} (h : Spells n v seg)
    (hrest : Delimited rest) : rawDecode (seg ++ rest) = some (v, rest) := by
  apply decode_complete
  · exact h.imp (.inr (by simp))
  · exact hrest

/-- **Whole texts**: a value with blanks around it. -/
theorem loads_complete {n : Nat} {v : Value} {w seg w' : List Char} (hw : Blank w)
    (h : Spells n v seg) (hw' : Blank w') : loads (w ++ (seg ++ w')) = some v := by
  have hskip : skipBlanks w' = [] := by simpa [skipBlanks, Blank] using hw'
  have hrest : Delimited w' := append_nil w' ▸ delimited_blank hw' (show Delimited [] from nofun)
  rw [loads, skipBlanks_append hw, (spells_solid n).skipBlanks h, rawDecode_complete h hrest]
  simp [hskip]

end Lib.JsonText
