/-
Hqsb/Compiler/Payload.lean

The data that the compiler records are made of, and its text: what `json.dumps` writes with
sorted keys and without blanks (`canonical_json`).

A float is kept as the text that `repr` gives to it.  Two floats with one text are one float, and
no integer and no word has the text of a float.

The text says everything: it is a way of writing the value in the sense of `Lib.JsonText`, which
has one reading only, so texts that are equal come from data that are equal up to the order of
their members (`canonicalJson_inj`).
-/
import Hqsb.Core.Json
import Hqsb.Lib.JsonText

namespace Hqsb.Compiler

open Lib.JsonText List

/-- Is this what `repr` can write for a float? -/
def isFloatText (t : List Char) : Bool :=
  LexState.scan .start t == some (t, []) && t != "true".toList && t != "false".toList &&
    t.any fun c => c = '.' || c = 'e' || c = 'N' || c = 'I'

structure PyFloat where
  text : List Char
  written : isFloatText text = true

/-- Plain data: what a JSON text can say. -/
inductive Payload where
  | null
  | bool (b : Bool)
  | int (n : Int)
  | float (x : PyFloat)
  | str (s : String)
  | list (items : List Payload)
  | dict (members : List (String × Payload))

namespace Payload

/-- The items of a mapping, by ascending keys. -/
def sortMembers {α : Type*} (members : List (String × α)) : List (String × α) :=
  members.insertionSort fun m n => m.1 ≤ n.1

mutual

/-- The same data, with every mapping by ascending keys. -/
def sorted : Payload → Payload
  | .null => .null
  | .bool b => .bool b
  | .int n => .int n
  | .float x => .float x
  | .str s => .str s
  | .list items => .list (sortedItems items)
  | .dict members => .dict (sortMembers (sortedMembers members))

def sortedItems : List Payload → List Payload
  | [] => []
  | p :: items => p.sorted :: sortedItems items

def sortedMembers : List (String × Payload) → List (String × Payload)
  | [] => []
  | (key, p) :: members => (key, p.sorted) :: sortedMembers members

end

/-- Equal data: mappings do not remember the order of their members. -/
def Same (p q : Payload) : Prop := p.sorted = q.sorted

/-! ### Texts -/

def intText : Int → List Char
  | .ofNat n => Nat.toDigits 10 n
  | .negSucc n => '-' :: Nat.toDigits 10 (n + 1)

mutual

def text : Payload → List Char
  | .null => "null".toList
  | .bool b => (if b then "true" else "false").toList
  | .int n => intText n
  | .float x => x.text
  | .str s => Json.quote s
  | .list items => '[' :: (textItems items ++ [']'])
  | .dict members => '{' :: (textMembers members ++ ['}'])

def textItems : List Payload → List Char
  | [] => []
  | p :: items => p.text ++ if items.isEmpty then [] else ',' :: textItems items

def textMembers : List (String × Payload) → List Char
  | [] => []
  | (key, p) :: members =>
    Json.quote key ++ ':' :: p.text ++ if members.isEmpty then [] else ',' :: textMembers members

end

def canonicalJson (p : Payload) : List Char := p.sorted.text

/-! ### What the texts stand for -/

def codes (s : String) : List Nat := s.toList.map Char.toNat

mutual

/-- The value that the text of `p` has as a JSON text. -/
def value : Payload → Value
  | .null => .atom "null".toList
  | .bool b => .atom (if b then "true" else "false").toList
  | .int n => .atom (intText n)
  | .float x => .atom x.text
  | .str s => .str (codes s)
  | .list items => .arr (valueItems items)
  | .dict members => .obj (valueMembers members)

def valueItems : List Payload → List Value
  | [] => []
  | p :: items => p.value :: valueItems items

def valueMembers : List (String × Payload) → List (List Nat × Value)
  | [] => []
  | (key, p) :: members => (codes key, p.value) :: valueMembers members

end

/-! ### Strings -/

theorem codes_inj {s t : String} (h : codes s = codes t) : s = t := by
  apply String.toList_inj.mp
  exact map_injective_iff.mpr (fun c d hcd => Char.toNat_inj.mp hcd) h

/-- No character is half of one. -/
theorem joinSurrogates_codes (l : List Char) :
    joinSurrogates (l.map Char.toNat) = l.map Char.toNat := by
  induction l with
  | nil => rfl
  | cons c l ih =>
    rcases l with - | ⟨d, l⟩
    · rfl
    · rw [map_cons, map_cons, joinSurrogates, if_neg, ← map_cons (f := Char.toNat), ih]
      rintro ⟨hlow, hhigh, -⟩
      have hc := c.valid
      have : c.toNat = c.val.toNat := rfl
      omega

/-- What a character of a string is written as. -/
def Writes (c : Char) (w : List Char) : Prop :=
  (∃ d, w = ['\\', d] ∧ d ≠ 'u' ∧ escapeOf d = some c.toNat) ∨
    (∃ x y i j, w = ['\\', 'u', '0', '0', x, y] ∧ hexDigit x = some i ∧ hexDigit y = some j ∧
      16 * i + j = c.toNat) ∨
    w = [c] ∧ c ≠ '"' ∧ c ≠ '\\' ∧ 32 ≤ c.toNat

theorem quote_writes (s : String) :
    ∃ write : Char → List Char, (∀ c, Writes c (write c)) ∧
      Json.quote s = '"' :: (s.toList.flatMap write ++ ['"']) := by
  refine ⟨_, ?_, rfl⟩
  intro c
  have hhex : ∀ k < 16, hexDigit (Nat.digitChar k) = some k := by decide
  split_ifs with hquote hescape hn hr ht hb hf hlow
  · subst hquote
    exact .inl ⟨'"', rfl, by decide, by decide⟩
  · subst hescape
    exact .inl ⟨'\\', rfl, by decide, by decide⟩
  · subst hn
    exact .inl ⟨'n', rfl, by decide, by decide⟩
  · subst hr
    exact .inl ⟨'r', rfl, by decide, by decide⟩
  · subst ht
    exact .inl ⟨'t', rfl, by decide, by decide⟩
  · exact .inl ⟨'b', rfl, by decide, hb.symm ▸ rfl⟩
  · exact .inl ⟨'f', rfl, by decide, hf.symm ▸ rfl⟩
  · refine .inr (.inl ⟨_, _, c.toNat / 16, c.toNat % 16, rfl, hhex _ ?_, hhex _ ?_, ?_⟩) <;> omega
  · exact .inr (.inr ⟨rfl, hquote, hescape, by omega⟩)

variable {c : Char} {t : List Char} (n : Int) (x : PyFloat)

theorem Writes.raw {w : List Char} (h : Writes c w) (ht : Raw t) : Raw (w ++ t) := by
  rcases h with ⟨d, rfl, -⟩ | ⟨x, y, i, j, rfl, hi, hj, -⟩ | ⟨rfl, hquote, hescape, -⟩
  · exact .escape d ht
  · have hplain : ∀ z k, hexDigit z = some k → z ≠ '"' ∧ z ≠ '\\' := by
      intro z k hz
      constructor <;> rintro rfl
      · exact nomatch hz.symm.trans (by decide : hexDigit '"' = none)
      · exact nomatch hz.symm.trans (by decide : hexDigit '\\' = none)
    apply Raw.escape
    refine .plain (by decide) (by decide) (.plain (by decide) (by decide) ?_)
    exact .plain (hplain x i hi).1 (hplain x i hi).2 (.plain (hplain y j hj).1 (hplain y j hj).2 ht)
  · exact .plain hquote hescape ht

theorem Writes.unescape {w : List Char} {l : List Nat} (h : Writes c w)
    (ht : Lib.JsonText.unescape t = some l) :
    Lib.JsonText.unescape (w ++ t) = some (c.toNat :: l) := by
  rcases h with ⟨d, rfl, hd, hescape⟩ | ⟨x, y, i, j, rfl, hi, hj, hij⟩ | ⟨rfl, hquote, hescape, hlow⟩
  · have : Lib.JsonText.unescape ('\\' :: d :: t) = (do
        let code ← escapeOf d
        (code :: ·) <$> Lib.JsonText.unescape t) := by
      rw [Lib.JsonText.unescape.eq_def]
      split
      · rename_i heq
        cases heq
      · rename_i heq
        exact absurd (List.cons.inj (List.cons.inj heq).2).1 hd
      · rename_i heq
        obtain ⟨rfl, rfl⟩ := List.cons.inj (List.cons.inj heq).2
        rfl
      · rename_i heq
        cases heq
      · rename_i hnot _ heq
        obtain ⟨rfl, rfl⟩ := List.cons.inj heq
        exact absurd rfl (hnot d t rfl)
    rw [cons_append, cons_append, nil_append, this, hescape, ht]
    rfl
  · have h0 : hexDigit '0' = some 0 := by decide
    simp only [cons_append, nil_append, Lib.JsonText.unescape, mapM_cons, h0, hi, hj, ht]
    rw [← hij]
    simp
  · rw [singleton_append, Lib.JsonText.unescape.eq_def]
    split
    · rename_i heq
      cases heq
    · rename_i heq
      exact absurd (List.cons.inj heq).1 hescape
    · rename_i heq
      exact absurd (List.cons.inj heq).1 hescape
    · rename_i heq
      exact absurd (List.cons.inj heq).1 hescape
    · rename_i heq
      obtain ⟨rfl, rfl⟩ := List.cons.inj heq
      rw [if_neg (by omega), ht]
      rfl

/-- **Quoted strings** are read as what they quote. -/
theorem quote_spells (s : String) :
    ∃ raw, Json.quote s = '"' :: (raw ++ ['"']) ∧ Raw raw ∧ codesOf raw = some (codes s) := by
  obtain ⟨write, hwrite, hquote⟩ := quote_writes s
  refine ⟨_, hquote, ?_, ?_⟩
  · induction s.toList with
    | nil => exact .nil
    | cons c l ih => exact (hwrite c).raw ih
  · have hunescape : ∀ l : List Char,
        Lib.JsonText.unescape (l.flatMap write) = some (l.map Char.toNat) := by
      intro l
      induction l with
      | nil => rfl
      | cons c l ih => exact (hwrite c).unescape ih
    rw [codesOf, hunescape, Option.map_some, joinSurrogates_codes, codes]

/-! ### Numbers -/

theorem accepts_digits (ht : ∀ c ∈ t, c.isDigit) : LexState.Accepts .int t := by
  induction t with
  | nil => exact rfl
  | cons c t ih =>
    refine ⟨.int, ?_, ih fun d hd => ht d (mem_cons_of_mem c hd)⟩
    rw [LexState.next, if_pos (ht c mem_cons_self)]

theorem toDigits_head (n : Nat) (hn : 0 < n) : ∃ c t, Nat.toDigits 10 n = c :: t ∧ c ≠ '0' := by
  induction n using Nat.strongRecOn with
  | ind n ih =>
    rcases lt_or_ge n 10 with hlt | hge
    · refine ⟨n.digitChar, [], Nat.toDigits_of_lt_base hlt, ?_⟩
      have : ∀ k < 10, 0 < k → Nat.digitChar k ≠ '0' := by decide
      exact this n hlt hn
    · obtain ⟨c, t, ht, hc⟩ := ih (n / 10) (Nat.div_lt_self hn (by omega)) (by omega)
      refine ⟨c, t ++ [(n % 10).digitChar], ?_, hc⟩
      rw [Nat.toDigits_of_base_le (by omega) hge, ht, cons_append]

theorem accepts_nat {q : LexState} (n : Nat) (hzero : q.next '0' = some .zero)
    (hdigit : ∀ c : Char, c ≠ '0' → c.isDigit → q.next c = some .int) :
    LexState.Accepts q (Nat.toDigits 10 n) := by
  rcases Nat.eq_zero_or_pos n with rfl | hn
  · rw [Nat.toDigits_zero]
    exact ⟨.zero, hzero, rfl⟩
  · obtain ⟨c, t, ht, hc⟩ := toDigits_head n hn
    have hdigits : ∀ d ∈ c :: t, d.isDigit := fun d hd =>
      Nat.isDigit_of_mem_toDigits (by omega) (by omega) (ht ▸ hd)
    rw [ht]
    refine ⟨.int, hdigit c hc (hdigits c mem_cons_self), accepts_digits fun d hd => ?_⟩
    exact hdigits d (mem_cons_of_mem c hd)

theorem accepts_intText : LexState.Accepts .start (intText n) := by
  have hminus : ∀ c : Char, c.isDigit → c ≠ '-' := by
    rintro c hc rfl
    cases hc
  cases n with
  | ofNat n =>
    apply accepts_nat n rfl
    intro c hc hdigit
    rw [LexState.next, if_neg (hminus c hdigit), if_neg hc, if_pos hdigit]
  | negSucc n =>
    refine ⟨.minus, rfl, accepts_nat (n + 1) rfl fun c hc hdigit => ?_⟩
    rw [LexState.next, if_neg hc, if_pos hdigit]

theorem intText_digits : ∀ c ∈ intText n, c.isDigit ∨ c = '-' := by
  intro c hc
  cases n with
  | ofNat n => exact .inl (Nat.isDigit_of_mem_toDigits (by omega) (by omega) hc)
  | negSucc n =>
    rcases mem_cons.mp hc with rfl | hc
    · exact .inr rfl
    · exact .inl (Nat.isDigit_of_mem_toDigits (by omega) (by omega) hc)

theorem toDigits_inj {n m : Nat} (h : Nat.toDigits 10 n = Nat.toDigits 10 m) : n = m := by
  rw [← Nat.ofDigitChars_ten_toDigits (n := n), h, Nat.ofDigitChars_ten_toDigits]

theorem intText_inj {n m : Int} (h : intText n = intText m) : n = m := by
  have hminus : ∀ n : Nat, '-' ∉ Nat.toDigits 10 n := fun n hn =>
    absurd (Nat.isDigit_of_mem_toDigits (by omega) (by omega) hn) (by decide)
  cases n with
  | ofNat n =>
    cases m with
    | ofNat m => rw [toDigits_inj h]
    | negSucc m =>
      have h' : Nat.toDigits 10 n = '-' :: Nat.toDigits 10 (m + 1) := h
      exact absurd (h' ▸ .head _) (hminus n)
  | negSucc n =>
    cases m with
    | ofNat m =>
      have h' : '-' :: Nat.toDigits 10 (n + 1) = Nat.toDigits 10 m := h
      exact absurd (h' ▸ .head _) (hminus m)
    | negSucc m =>
      have := toDigits_inj (List.cons.inj h).2
      rw [show n = m by omega]

/-! ### The texts are ways of writing the values -/

theorem accepts_float : LexState.Accepts .start x.text := by
  have h := x.written
  simp only [isFloatText, Bool.and_eq_true, beq_iff_eq] at h
  exact (LexState.scan_sound h.1.1.1).2

theorem word_accepts (h : LexState.next .start c = some (.word t)) :
    LexState.Accepts .start (c :: t) := by
  refine ⟨_, h, ?_⟩
  clear h
  induction t with
  | nil => rfl
  | cons c t ih => exact ⟨.word t, if_pos rfl, ih⟩

mutual

/-- **The text of `p` is a way of writing its value.** -/
theorem spells : ∀ p : Payload, Spells p.text.length p.value p.text
  | .null => Spells.imp (n := 0) (.atom (word_accepts rfl)) (.inl (Nat.zero_le _))
  | .bool true => Spells.imp (n := 0) (.atom (word_accepts rfl)) (.inl (Nat.zero_le _))
  | .bool false => Spells.imp (n := 0) (.atom (word_accepts rfl)) (.inl (Nat.zero_le _))
  | .int n => Spells.imp (n := 0) (.atom (accepts_intText n)) (.inl (Nat.zero_le _))
  | .float x => Spells.imp (n := 0) (.atom (accepts_float x)) (.inl (Nat.zero_le _))
  | .str s => by
    obtain ⟨raw, hquote, hraw, hcodes⟩ := quote_spells s
    rw [text, hquote]
    exact Spells.imp (n := 0) (.str hraw hcodes) (.inl (Nat.zero_le _))
  | .list items => by
    have hlen : (text (.list items)).length = (textItems items).length + 1 + 1 := by simp [text]
    rw [hlen]
    refine .inr (.inl ⟨_, rfl, ?_⟩)
    by_cases hitems : items = []
    · subst hitems
      exact .empty (w := []) nofun
    · exact .items (w := []) nofun (listed items hitems (Nat.le_succ _))
  | .dict members => by
    have hlen : (text (.dict members)).length = (textMembers members).length + 1 + 1 := by
      simp [text]
    rw [hlen]
    refine .inr (.inr ⟨_, rfl, ?_⟩)
    by_cases hmembers : members = []
    · subst hmembers
      exact .empty (w := []) nofun
    · exact .items (w := []) nofun (listedMembers members hmembers (Nat.le_succ _))

theorem listed : ∀ items : List Payload, items ≠ [] → ∀ {limit : Nat},
    (textItems items).length ≤ limit →
      Listed (Spells limit) (valueItems items) (textItems items)
  | [], h, _, _ => absurd rfl h
  | p :: items, _, limit, h => by
    by_cases hitems : items = []
    · subst hitems
      have htext : textItems [p] = p.text ++ [] := rfl
      rw [htext] at h ⊢
      exact .one ((spells p).imp (.inl (by simpa using h))) nofun
    · have htext : textItems (p :: items) = p.text ++ ([] ++ ',' :: ([] ++ textItems items)) := by
        rw [textItems, if_neg (by simpa using hitems)]
        rfl
      rw [htext] at h ⊢
      have hlen : p.text.length ≤ limit ∧ (textItems items).length ≤ limit := by
        simp only [length_append, length_cons] at h
        omega
      exact .more ((spells p).imp (.inl hlen.1)) nofun nofun (listed items hitems hlen.2)

theorem listedMembers : ∀ members : List (String × Payload), members ≠ [] → ∀ {limit : Nat},
    (textMembers members).length ≤ limit →
      Listed (Entry (Spells limit)) (valueMembers members) (textMembers members)
  | [], h, _, _ => absurd rfl h
  | (key, p) :: members, _, limit, h => by
    obtain ⟨raw, hquote, hraw, hcodes⟩ := quote_spells key
    by_cases hmembers : members = []
    · subst hmembers
      have htext : textMembers [(key, p)] =
          '"' :: (raw ++ '"' :: ([] ++ ':' :: ([] ++ p.text))) ++ [] := by
        simp [textMembers, hquote]
      rw [htext] at h ⊢
      have hlen : p.text.length ≤ limit := by
        simp only [length_append, length_cons] at h
        omega
      exact .one (.mk hraw hcodes nofun nofun ((spells p).imp (.inl hlen))) nofun
    · have htext : textMembers ((key, p) :: members) =
          '"' :: (raw ++ '"' :: ([] ++ ':' :: ([] ++ p.text))) ++
            ([] ++ ',' :: ([] ++ textMembers members)) := by
        simp [textMembers, hquote, hmembers]
      rw [htext] at h ⊢
      have hlen : p.text.length ≤ limit ∧ (textMembers members).length ≤ limit := by
        simp only [length_append, length_cons] at h
        omega
      exact .more (.mk hraw hcodes nofun nofun ((spells p).imp (.inl hlen.1))) nofun nofun
        (listedMembers members hmembers hlen.2)

end

/-! ### One text, one value -/

theorem float_ext {x y : PyFloat} (h : x.text = y.text) : x = y := by
  cases y
  cases h
  rfl

theorem float_mark :
    x.text ≠ "true".toList ∧ x.text ≠ "false".toList ∧
      ∃ c ∈ x.text, c = '.' ∨ c = 'e' ∨ c = 'N' ∨ c = 'I' := by
  have h := x.written
  simp only [isFloatText, Bool.and_eq_true, bne_iff_ne, any_eq_true, Bool.or_eq_true,
    decide_eq_true_eq] at h
  obtain ⟨⟨⟨-, htrue⟩, hfalse⟩, c, hc, hmark⟩ := h
  exact ⟨htrue, hfalse, c, hc, by tauto⟩

theorem float_ne_intText (n : Int) : x.text ≠ intText n := by
  intro h
  obtain ⟨-, -, c, hc, hmark⟩ := float_mark x
  have := intText_digits n c (h ▸ hc)
  rcases hmark with rfl | rfl | rfl | rfl <;> exact absurd this (by decide)

theorem float_ne_null : x.text ≠ "null".toList := by
  intro h
  obtain ⟨-, -, c, hc, hmark⟩ := float_mark x
  rw [h] at hc
  rcases hmark with rfl | rfl | rfl | rfl <;> exact absurd hc (by decide)

theorem intText_ne_word {n : Int} (hc : ¬ (c.isDigit ∨ c = '-')) :
    intText n ≠ c :: t := fun h => hc (intText_digits n c (h ▸ .head _))

theorem float_ne_bool (b : Bool) : x.text ≠ (if b then "true" else "false").toList := by
  cases b
  · exact (float_mark x).2.1
  · exact (float_mark x).1

theorem intText_ne_bool (b : Bool) : intText n ≠ (if b then "true" else "false").toList := by
  cases b <;> exact intText_ne_word (by decide)

theorem null_ne_bool (b : Bool) : "null".toList ≠ (if b then "true" else "false").toList := by
  cases b <;> decide

theorem bool_inj {b b' : Bool}
    (h : (if b then "true" else "false").toList = (if b' then "true" else "false").toList) :
    b = b' := by
  revert h
  cases b <;> cases b' <;> decide

mutual

theorem value_inj : ∀ {p q : Payload}, p.value = q.value → p = q
  | .null, q, h => by
    cases q with
    | null => rfl
    | bool b => exact absurd (Value.atom.inj h) (null_ne_bool b)
    | int n => exact absurd (Value.atom.inj h).symm (intText_ne_word (by decide))
    | float x => exact absurd (Value.atom.inj h).symm (float_ne_null x)
    | str | list | dict => cases h
  | .bool b, q, h => by
    cases q with
    | null => exact absurd (Value.atom.inj h).symm (null_ne_bool b)
    | bool b' => rw [bool_inj (Value.atom.inj h)]
    | int n => exact absurd (Value.atom.inj h).symm (intText_ne_bool n b)
    | float x => exact absurd (Value.atom.inj h).symm (float_ne_bool x b)
    | str | list | dict => cases h
  | .int n, q, h => by
    cases q with
    | null => exact absurd (Value.atom.inj h) (intText_ne_word (by decide))
    | bool b => exact absurd (Value.atom.inj h) (intText_ne_bool n b)
    | int m => rw [intText_inj (Value.atom.inj h)]
    | float x => exact absurd (Value.atom.inj h).symm (float_ne_intText x n)
    | str | list | dict => cases h
  | .float x, q, h => by
    cases q with
    | null => exact absurd (Value.atom.inj h) (float_ne_null x)
    | bool b => exact absurd (Value.atom.inj h) (float_ne_bool x b)
    | int n => exact absurd (Value.atom.inj h) (float_ne_intText x n)
    | float y => rw [float_ext (Value.atom.inj h)]
    | str | list | dict => cases h
  | .str s, q, h => by
    cases q with
    | str t => rw [codes_inj (Value.str.inj h)]
    | null | bool | int | float | list | dict => cases h
  | .list items, q, h => by
    cases q with
    | list items' => rw [valueItems_inj (Value.arr.inj h)]
    | null | bool | int | float | str | dict => cases h
  | .dict members, q, h => by
    cases q with
    | dict members' => rw [valueMembers_inj (Value.obj.inj h)]
    | null | bool | int | float | str | list => cases h

theorem valueItems_inj : ∀ {items items' : List Payload},
    valueItems items = valueItems items' → items = items'
  | [], items', h => by
    cases items' with
    | nil => rfl
    | cons q items' => cases h
  | p :: items, items', h => by
    cases items' with
    | nil => cases h
    | cons q items' =>
      obtain ⟨hp, hitems⟩ := List.cons.inj h
      rw [value_inj hp, valueItems_inj hitems]

theorem valueMembers_inj : ∀ {members members' : List (String × Payload)},
    valueMembers members = valueMembers members' → members = members'
  | [], members', h => by
    cases members' with
    | nil => rfl
    | cons m members' => cases h
  | (key, p) :: members, members', h => by
    rcases members' with - | ⟨⟨key', q⟩, members'⟩
    · cases h
    · obtain ⟨hm, hmembers⟩ := List.cons.inj h
      obtain ⟨hkey, hp⟩ := Prod.mk.inj hm
      rw [codes_inj hkey, value_inj hp, valueMembers_inj hmembers]

end

/-- **Texts are read in one way only.** -/
theorem text_inj {p q : Payload} (h : p.text = q.text) : p = q := by
  have hread : ∀ p : Payload, rawDecode p.text = some (p.value, []) := by
    intro p
    have := rawDecode_complete (spells p) (show Delimited [] from nofun)
    rwa [append_nil] at this
  have hvalue := (hread p).symm.trans (h ▸ hread q)
  exact value_inj (Prod.mk.inj (Option.some.inj hvalue)).1

/-- **The canonical text** tells apart what is not the same. -/
theorem canonicalJson_inj {p q : Payload} : canonicalJson p = canonicalJson q ↔ Same p q :=
  ⟨text_inj, congrArg text⟩

end Payload

end Hqsb.Compiler
