/-
Hqsb/Compiler/Words.lean

What the canonicaliser tells apart.

Addresses and temporary names lie within the words of a string, so the canonicaliser works on the
words one by one (`cleaned_toList`).  It leaves a string alone exactly if no word is a temporary
name or contains an address (`keptString_iff`).  It makes the same of no other string exactly if,
beyond that, no word is or contains what it writes in their place (`inertString_iff`).

For data this means: the canonicaliser keeps what has no noise key and no such string in it, and
says so (`stripped_eq_nil_iff`).  Data that it makes of nothing else has no mapping in it at all,
because a mapping can always have one more member with a noise key (`inert_iff`).
-/
import Hqsb.Compiler.Identity
import Hqsb.Lib.Runs

namespace Hqsb.Compiler

open Lib.Runs List

/-! ### Scanning a word -/

/-- `0x[0-9a-fA-F]{4,}` matches here. -/
def startsAddress : List Char → Bool
  | '0' :: 'x' :: t => 4 ≤ (t.takeWhile isHexDigit).length
  | _ => false

def hasAddress : List Char → Bool
  | [] => false
  | c :: t => startsAddress (c :: t) || hasAddress t

/-- Here stands what the canonicaliser writes for an address. -/
def startsPlaceholder (t : List Char) : Bool :=
  "0xADDR".toList.isPrefixOf t && !(t.drop 6).head?.any isHexDigit

def hasPlaceholder : List Char → Bool
  | [] => false
  | c :: t => startsPlaceholder (c :: t) || hasPlaceholder t

/-! ### Addresses -/

section Addresses

variable {c : Char} {t : List Char}

theorem startsAddress_iff : startsAddress (c :: t) = true ↔
    ∃ t', c = '0' ∧ t = 'x' :: t' ∧ 4 ≤ (t'.takeWhile isHexDigit).length := by
  constructor
  · intro h
    rw [startsAddress.eq_def] at h
    split at h
    · next t' heq =>
      obtain ⟨rfl, rfl⟩ := List.cons.inj heq
      exact ⟨t', rfl, rfl, of_decide_eq_true h⟩
    · cases h
  · rintro ⟨t', rfl, rfl, h⟩
    exact decide_eq_true h

theorem normalise_address (h : 4 ≤ (t.takeWhile isHexDigit).length) :
    normaliseAddresses false ('0' :: 'x' :: t) =
      "0xADDR".toList ++ normaliseAddresses true t := by
  rw [normaliseAddresses.eq_def]
  exact (if_neg (by simp)).trans (if_pos ⟨rfl, rfl, h⟩)

theorem normalise_cons (h : startsAddress (c :: t) = false) :
    normaliseAddresses false (c :: t) = c :: normaliseAddresses false t := by
  rw [normaliseAddresses.eq_def]
  refine (if_neg (by simp)).trans ?_
  rcases t with - | ⟨d, t⟩
  · rfl
  · refine if_neg fun hstart => ?_
    obtain ⟨rfl, rfl, hlength⟩ := hstart
    exact absurd (startsAddress_iff.mpr ⟨t, rfl, rfl, hlength⟩) (by simp [h])

theorem normalise_skip (t : List Char) :
    normaliseAddresses true t = normaliseAddresses false (t.dropWhile isHexDigit) := by
  induction t with
  | nil => rfl
  | cons c t ih =>
    by_cases hc : isHexDigit c = true
    · rw [dropWhile_cons_of_pos hc, ← ih, normaliseAddresses.eq_def]
      exact if_pos (by simp [hc])
    · rw [dropWhile_cons_of_neg hc, normaliseAddresses.eq_def, normaliseAddresses.eq_def false]
      exact (if_neg (by simp [hc])).trans (if_neg (by simp)).symm

theorem addressInduction {P : List Char → Prop} (hnil : P [])
    (haddress : ∀ t, 4 ≤ (t.takeWhile isHexDigit).length → P (t.dropWhile isHexDigit) →
      P ('0' :: 'x' :: t))
    (hcons : ∀ c t, startsAddress (c :: t) = false → P t → P (c :: t)) (t : List Char) : P t := by
  induction hn : t.length using Nat.strongRecOn generalizing t with
  | ind n ih =>
    rcases t with - | ⟨c, t⟩
    · exact hnil
    · rcases hstart : startsAddress (c :: t) with - | -
      · exact hcons c t hstart (ih t.length (by rw [← hn]; exact Nat.lt_succ_self _) t rfl)
      · obtain ⟨t', rfl, rfl, hlength⟩ := startsAddress_iff.mp hstart
        refine haddress t' hlength (ih _ ?_ _ rfl)
        have hle := (dropWhile_sublist isHexDigit (l := t')).length_le
        simp only [length_cons] at hn
        omega

theorem head?_normalise (t : List Char) : (normaliseAddresses false t).head? = t.head? := by
  induction t using addressInduction with
  | hnil => rfl
  | haddress t h ih =>
    rw [normalise_address h]
    rfl
  | hcons c t h ih =>
    rw [normalise_cons h]
    rfl

theorem takeWhile_normalise (t : List Char) :
    (normaliseAddresses false t).takeWhile isHexDigit = t.takeWhile isHexDigit := by
  induction t using addressInduction with
  | hnil => rfl
  | haddress t h ih =>
    rw [normalise_address h]
    rfl
  | hcons c t h ih =>
    rw [normalise_cons h, takeWhile_cons, takeWhile_cons, ih]

theorem startsAddress_normalise (c : Char) (t : List Char) :
    startsAddress (c :: normaliseAddresses false t) = startsAddress (c :: t) := by
  rcases t with - | ⟨d, t⟩
  · rfl
  · by_cases hd : d = 'x'
    · have hx : startsAddress (d :: t) = false := by rw [hd]; rfl
      rw [normalise_cons hx, Bool.eq_iff_iff, startsAddress_iff, startsAddress_iff]
      simp [takeWhile_normalise]
    · have hnot : ∀ s : List Char, s.head? = some d → startsAddress (c :: s) = false := by
        intro s hs
        refine Bool.eq_false_iff.mpr fun hstart => ?_
        obtain ⟨s', -, rfl, -⟩ := startsAddress_iff.mp hstart
        exact hd (Option.some.inj hs).symm
      rw [hnot _ (head?_normalise (d :: t)), hnot (d :: t) rfl]

theorem hasAddress_normalise (t : List Char) : hasAddress (normaliseAddresses false t) = false := by
  induction t using addressInduction with
  | hnil => rfl
  | haddress t h ih =>
    rw [normalise_address h, normalise_skip]
    have hplain : ∀ r : List Char, hasAddress ("0xADDR".toList ++ r) = hasAddress r := fun r => rfl
    rw [hplain, ih]
  | hcons c t h ih =>
    rw [normalise_cons h, hasAddress, ih, Bool.or_false, startsAddress_normalise, h]

theorem normalise_of_hasAddress (h : hasAddress t = false) : normaliseAddresses false t = t := by
  induction t with
  | nil => rfl
  | cons c t ih =>
    obtain ⟨hc, ht⟩ := Bool.or_eq_false_iff.mp h
    rw [normalise_cons hc, ih ht]

theorem startsPlaceholder_append (r : List Char) :
    startsPlaceholder ("0xADDR".toList ++ r) = !r.head?.any isHexDigit := rfl

/-- A string stays if nothing in it is put in the place of an address. -/
theorem normalise_of_hasPlaceholder (h : hasPlaceholder (normaliseAddresses false t) = false) :
    normaliseAddresses false t = t := by
  induction t using addressInduction with
  | hnil => rfl
  | haddress t hlength ih =>
    rw [normalise_address hlength, normalise_skip] at h
    have hhead : ((normaliseAddresses false (t.dropWhile isHexDigit)).head?.any isHexDigit) =
        false := by
      rw [head?_normalise]
      rcases hdrop : t.dropWhile isHexDigit with - | ⟨c, r⟩
      · rfl
      · have hc := head_dropWhile_not isHexDigit (l := t) (by simp [hdrop])
        simpa [hdrop] using hc
    have hstart : startsPlaceholder ("0xADDR".toList ++
        normaliseAddresses false (t.dropWhile isHexDigit)) = false := (Bool.or_eq_false_iff.mp h).1
    rw [startsPlaceholder_append, hhead] at hstart
    cases hstart
  | hcons c t hc ih =>
    rw [normalise_cons hc] at h ⊢
    rw [ih (Bool.or_eq_false_iff.mp h).2]

theorem placeholder_eq : "0xADDR".toList = ['0', 'x', 'A', 'D', 'D', 'R'] := rfl

/-- In place of an address there is more than one thing that it can have been. -/
theorem exists_address (haddress : hasAddress t = false) (h : hasPlaceholder t = true) :
    ∃ t', t' ≠ t ∧ normaliseAddresses false t' = t ∧ ∀ c ∈ t', c ∈ t := by
  induction t with
  | nil => cases h
  | cons c t ih =>
    obtain ⟨hc, ht⟩ := Bool.or_eq_false_iff.mp haddress
    by_cases hstart : startsPlaceholder (c :: t) = true
    · obtain ⟨r, hr⟩ := isPrefixOf_iff_prefix.mp (Bool.and_eq_true_iff.mp hstart).1
      have hhead := hstart
      rw [← hr, startsPlaceholder_append] at hhead
      have hdrop : r.dropWhile isHexDigit = r := by
        rcases r with - | ⟨d, r⟩
        · rfl
        · exact dropWhile_cons_of_neg (by simpa using hhead)
      have hplain : hasAddress r = false := by
        rw [← hr] at haddress
        exact haddress
      refine ⟨['0', 'x', '0', '0', '0', '0'] ++ r, ?_, ?_, ?_⟩
      · rw [← hr]
        intro h
        rw [placeholder_eq] at h
        exact absurd (append_cancel_right h) (by decide)
      · have hdigits : ∀ c ∈ ['0', '0', '0', '0'], isHexDigit c = true := by
          simp [isHexDigit]
        show normaliseAddresses false ('0' :: 'x' :: (['0', '0', '0', '0'] ++ r)) = _
        rw [normalise_address, normalise_skip, dropWhile_append_of_pos hdigits, hdrop,
          normalise_of_hasAddress hplain, hr]
        rw [takeWhile_append_of_pos hdigits]
        simp
      · intro d hd
        rw [← hr]
        rcases mem_append.mp hd with hd | hd
        · have hcases : d = '0' ∨ d = 'x' := by simpa [or_comm, or_left_comm] using hd
          rw [placeholder_eq]
          rcases hcases with rfl | rfl
          · exact .head _
          · exact .tail _ (.head _)
        · exact mem_append_right _ hd
    · obtain ⟨t', hne, hnormal, hmem⟩ := ih ht (by simpa [hasPlaceholder, hstart] using h)
      have hc' : startsAddress (c :: t') = false := by
        rw [← startsAddress_normalise, hnormal, hc]
      refine ⟨c :: t', fun h => hne (List.cons.inj h).2, by rw [normalise_cons hc', hnormal], ?_⟩
      intro d hd
      rcases mem_cons.mp hd with rfl | hd
      · exact .head _
      · exact .tail _ (hmem d hd)

theorem mem_normalise {d : Char} (h : d ∈ normaliseAddresses false t) :
    d ∈ t ∨ d ∈ "0xADDR".toList ∧ '0' ∈ t := by
  induction t using addressInduction with
  | hnil => cases h
  | haddress t hlength ih =>
    rw [normalise_address hlength, normalise_skip] at h
    rcases mem_append.mp h with h | h
    · exact .inr ⟨h, .head _⟩
    · have hsub : ∀ {e : Char}, e ∈ t.dropWhile isHexDigit → e ∈ '0' :: 'x' :: t :=
        fun he => .tail _ (.tail _ ((dropWhile_sublist _).subset he))
      exact (ih h).imp hsub fun h => ⟨h.1, hsub h.2⟩
  | hcons c t hc ih =>
    rw [normalise_cons hc] at h
    rcases mem_cons.mp h with rfl | h
    · exact .inl (.head _)
    · exact (ih h).imp (.tail _) fun h => ⟨h.1, .tail _ h.2⟩

end Addresses

/-! ### Words -/

/-- The words of a text, and what is between them. -/
abbrev wordsOf (alphabet : Alphabet) (t : List Char) : List (List Char) := runs alphabet.word t

def cleanWord (alphabet : Alphabet) (w : List Char) : List Char :=
  let w := normaliseAddresses false w
  if isTempName alphabet w then "TMP".toList else w

section Words

variable (alphabet : Alphabet) {w t : List Char}

theorem word_of_hex {c : Char} (h : isHexDigit c = true ∨ c = 'x' ∨ c ∈ "0xADDR".toList) :
    alphabet.word c = true := by
  apply alphabet.word_of_ascii
  rcases h with h | rfl | h
  · simp only [isHexDigit, Bool.or_eq_true, Bool.and_eq_true, decide_eq_true_eq] at h
    simp only [Char.isAlphanum, Char.isAlpha, Char.isUpper, Char.isLower, Bool.or_eq_true,
      Bool.and_eq_true, decide_eq_true_eq]
    rcases h with (h | ⟨hlow, hhigh⟩) | ⟨hlow, hhigh⟩
    · exact .inl (.inr h)
    · exact .inl (.inl (.inr ⟨hlow, hhigh.trans (by decide)⟩))
    · exact .inl (.inl (.inl ⟨hlow, hhigh.trans (by decide)⟩))
  · rfl
  · rw [placeholder_eq] at h
    simp only [mem_cons, not_mem_nil, or_false] at h
    rcases h with rfl | rfl | rfl | rfl | rfl | rfl <;> rfl

theorem word_of_TMP {c : Char} (h : c ∈ "TMP".toList) : alphabet.word c = true := by
  have hcases : c ∈ ['T', 'M', 'P'] := h
  simp only [mem_cons, not_mem_nil, or_false] at hcases
  rcases hcases with rfl | rfl | rfl <;> exact alphabet.word_of_ascii _ rfl

/-- Where no word goes on, no address does. -/
theorem normalise_append_of_head {rest : List Char}
    (hrest : ∀ b ∈ rest.head?, isHexDigit b = false ∧ b ≠ 'x') :
    normaliseAddresses false (w ++ rest) =
      normaliseAddresses false w ++ normaliseAddresses false rest := by
  have hhex : rest.takeWhile isHexDigit = [] ∧ rest.dropWhile isHexDigit = rest := by
    rcases rest with - | ⟨b, rest⟩
    · exact ⟨rfl, rfl⟩
    · have hb := (hrest b rfl).1
      exact ⟨takeWhile_cons_of_neg (by simp [hb]), dropWhile_cons_of_neg (by simp [hb])⟩
  have htake : ∀ t : List Char, (t ++ rest).takeWhile isHexDigit = t.takeWhile isHexDigit := by
    intro t
    rw [takeWhile_append]
    split_ifs with hall
    · have hstart : t.takeWhile isHexDigit <+: t := takeWhile_prefix _
      rw [hhex.1, append_nil]
      exact (hstart.eq_of_length hall).symm
    · rfl
  induction w using addressInduction with
  | hnil => rfl
  | haddress t hlength ih =>
    have hdrop : (t ++ rest).dropWhile isHexDigit = t.dropWhile isHexDigit ++ rest := by
      rw [dropWhile_append]
      split_ifs with hempty
      · rw [isEmpty_iff.mp hempty, nil_append, hhex.2]
      · rfl
    rw [normalise_address hlength, cons_append, cons_append, normalise_address (by rwa [htake]),
      normalise_skip, hdrop, ih, normalise_skip, append_assoc]
  | hcons c t hc ih =>
    have hc' : startsAddress (c :: (t ++ rest)) = false := by
      refine Bool.eq_false_iff.mpr fun hstart => ?_
      obtain ⟨t', rfl, ht', hlength⟩ := startsAddress_iff.mp hstart
      rcases t with - | ⟨d, t⟩
      · have hx : rest.head? = some 'x' := by
          rw [nil_append] at ht'
          rw [ht']
          rfl
        exact (hrest 'x' hx).2 rfl
      · obtain ⟨rfl, htail⟩ := List.cons.inj ht'
        rw [← show t ++ rest = t' from htail, htake] at hlength
        exact absurd (startsAddress_iff.mpr ⟨t, rfl, rfl, hlength⟩) (by simp [hc])
    rw [cons_append, normalise_cons hc', ih, normalise_cons hc, cons_append]

/-- An address lies within a word. -/
theorem normalise_append {rest : List Char}
    (hrest : ∀ a ∈ w, ∀ b ∈ rest.head?, alphabet.word a ≠ alphabet.word b) :
    normaliseAddresses false (w ++ rest) =
      normaliseAddresses false w ++ normaliseAddresses false rest := by
  by_cases hzero : '0' ∈ w
  · have hword : alphabet.word '0' = true := alphabet.word_of_ascii '0' rfl
    refine normalise_append_of_head fun b hb => ?_
    have hb : alphabet.word b = false := by
      have := hrest '0' hzero b hb
      rw [hword] at this
      exact Bool.eq_false_iff.mpr this.symm
    constructor
    · refine Bool.eq_false_iff.mpr fun hhex => ?_
      rw [word_of_hex alphabet (.inl hhex)] at hb
      cases hb
    · rintro rfl
      rw [word_of_hex alphabet (.inr (.inl rfl))] at hb
      cases hb
  · -- nothing starts within `w`
    have hplain : ∀ r, normaliseAddresses false (w ++ r) = w ++ normaliseAddresses false r := by
      intro r
      clear hrest
      induction w with
      | nil => rfl
      | cons c w ih =>
        have hc : startsAddress (c :: (w ++ r)) = false := by
          refine Bool.eq_false_iff.mpr fun hstart => ?_
          obtain ⟨-, rfl, -⟩ := startsAddress_iff.mp hstart
          exact hzero (.head _)
        rw [cons_append, normalise_cons hc, ih fun h => hzero (.tail _ h), cons_append]
    rw [hplain, ← append_nil w, hplain []]
    simp [normaliseAddresses]

theorem normalise_eq (t : List Char) : normaliseAddresses false t =
    (wordsOf alphabet t).flatMap (normaliseAddresses false) :=
  eq_flatMap_runs rfl (fun _ _ _ hrest => normalise_append alphabet hrest) t

theorem isTempName_head (h : isTempName alphabet w = true) : ∃ c ∈ w, c = 't' ∨ c = '_' := by
  unfold isTempName at h
  simp only [Bool.or_eq_true, beq_iff_eq] at h
  rcases h with ((rfl | rfl) | h) | h
  · exact ⟨'t', .head _, .inl rfl⟩
  · exact ⟨'t', .head _, .inl rfl⟩
  · split at h
    · exact ⟨'t', .head _, .inl rfl⟩
    · cases h
  · split at h
    · exact ⟨'_', .head _, .inr rfl⟩
    · cases h

variable {alphabet}

theorem word_normalise (hw : ∀ a ∈ w, ∀ b ∈ w, alphabet.word a = alphabet.word b) :
    ∀ a ∈ normaliseAddresses false w, ∀ b ∈ w, alphabet.word a = alphabet.word b := by
  intro a ha b hb
  rcases mem_normalise ha with ha | ⟨ha, hzero⟩
  · exact hw a ha b hb
  · rw [word_of_hex alphabet (.inr (.inr ha)), ← hw '0' hzero b hb]
    exact (alphabet.word_of_ascii '0' rfl).symm

theorem normalise_ne_nil (hw : w ≠ []) : normaliseAddresses false w ≠ [] := by
  intro hnil
  have hhead := head?_normalise w
  rw [hnil] at hhead
  exact hw (head?_eq_none_iff.mp hhead.symm)

theorem cleanWord_kind (hne : w ≠ [])
    (hw : ∀ a ∈ w, ∀ b ∈ w, alphabet.word a = alphabet.word b) :
    cleanWord alphabet w ≠ [] ∧
      ∀ a ∈ cleanWord alphabet w, ∀ b ∈ w, alphabet.word a = alphabet.word b := by
  rw [cleanWord]
  split_ifs with htemp
  · refine ⟨by decide, fun a ha b hb => ?_⟩
    obtain ⟨c, hc, hletter⟩ := isTempName_head alphabet htemp
    have hword : ∀ c : Char, c = 't' ∨ c = '_' → alphabet.word c = true := by
      rintro c (rfl | rfl) <;> exact alphabet.word_of_ascii _ rfl
    rw [← word_normalise hw c hc b hb, hword c hletter]
    exact word_of_TMP alphabet ha
  · exact ⟨normalise_ne_nil hne, word_normalise hw⟩

/-- **The canonicaliser works word by word.** -/
theorem cleaned_toList (s : String) :
    (cleaned alphabet s).toList = (wordsOf alphabet s.toList).flatMap (cleanWord alphabet) := by
  have hwords : wordsOf alphabet (normaliseAddresses false s.toList) =
      (wordsOf alphabet s.toList).map (normaliseAddresses false) := by
    rw [normalise_eq alphabet]
    exact runs_flatMap fun w hw =>
      ⟨normalise_ne_nil (ne_nil_of_mem hw), word_normalise (kind_eq_of_mem hw)⟩
  rw [cleaned, String.toList_ofList]
  show (wordsOf alphabet (normaliseAddresses false s.toList)).flatMap _ = _
  rw [hwords, flatMap_map]
  rfl

theorem wordsOf_cleaned (s : String) : wordsOf alphabet (cleaned alphabet s).toList =
    (wordsOf alphabet s.toList).map (cleanWord alphabet) := by
  rw [cleaned_toList]
  exact runs_flatMap fun w hw => cleanWord_kind (ne_nil_of_mem hw) (kind_eq_of_mem hw)

/-- Two strings are cleaned to one exactly if their words are. -/
theorem cleaned_inj_iff {s t : String} : cleaned alphabet s = cleaned alphabet t ↔
    (wordsOf alphabet s.toList).map (cleanWord alphabet) =
      (wordsOf alphabet t.toList).map (cleanWord alphabet) := by
  rw [← wordsOf_cleaned, ← wordsOf_cleaned]
  refine ⟨fun h => by rw [h], fun h => String.toList_inj.mp (eq_of_runs_eq h)⟩

/-! ### Strings that are kept -/

variable (alphabet) in
/-- The canonicaliser finds nothing in the word. -/
def isKept (w : List Char) : Bool := !isTempName alphabet w && !hasAddress w

variable (alphabet) in
/-- The canonicaliser makes this of no other word. -/
def isInert (w : List Char) : Bool :=
  isKept alphabet w && w != "TMP".toList && !hasPlaceholder w

variable (alphabet) in
def keptString (s : String) : Bool := (wordsOf alphabet s.toList).all (isKept alphabet)

variable (alphabet) in
def inertString (s : String) : Bool := (wordsOf alphabet s.toList).all (isInert alphabet)

theorem cleanWord_of_isKept (h : isKept alphabet w = true) : cleanWord alphabet w = w := by
  obtain ⟨htemp, haddress⟩ := Bool.and_eq_true_iff.mp h
  rw [Bool.not_eq_true'] at htemp haddress
  rw [cleanWord, normalise_of_hasAddress haddress, if_neg (by simp [htemp])]

theorem isKept_of_cleanWord (h : cleanWord alphabet w = w) : isKept alphabet w = true := by
  rw [cleanWord] at h
  split_ifs at h with htemp
  · rw [← h] at htemp
    cases htemp
  · have haddress := hasAddress_normalise w
    rw [h] at haddress htemp
    simp [isKept, haddress, htemp]

theorem cleanWord_inj (h : isInert alphabet t = true)
    (hw : cleanWord alphabet w = cleanWord alphabet t) : w = t := by
  simp only [isInert, Bool.and_eq_true, bne_iff_ne, Bool.not_eq_true'] at h
  obtain ⟨⟨hkept, htmp⟩, hplaceholder⟩ := h
  rw [cleanWord_of_isKept hkept, cleanWord] at hw
  split_ifs at hw with htemp
  · exact absurd hw.symm htmp
  · rw [← hw] at hplaceholder
    rw [← normalise_of_hasPlaceholder hplaceholder]
    exact hw

/-- **Other words become what becomes of this one.** -/
theorem exists_cleanWord (hne : w ≠ [])
    (hw : ∀ a ∈ w, ∀ b ∈ w, alphabet.word a = alphabet.word b) (h : isInert alphabet w = false) :
    ∃ w', w' ≠ w ∧ cleanWord alphabet w' = cleanWord alphabet w ∧ w' ≠ [] ∧
      ∀ a ∈ w', ∀ b ∈ w, alphabet.word a = alphabet.word b := by
  by_cases haddress : hasAddress w = true
  · -- what is left of an address is left alone
    refine ⟨normaliseAddresses false w, ?_, ?_, normalise_ne_nil hne, word_normalise hw⟩
    · intro hsame
      have := hasAddress_normalise w
      rw [hsame, haddress] at this
      cases this
    · rw [cleanWord, normalise_of_hasAddress (hasAddress_normalise w)]
      rfl
  have haddress := Bool.eq_false_iff.mpr haddress
  have hplain := normalise_of_hasAddress haddress
  have hwords : ∀ {l : List Char} {c : Char}, c ∈ w → alphabet.word c = true →
      (∀ a ∈ l, alphabet.word a = true) → ∀ a ∈ l, ∀ b ∈ w, alphabet.word a = alphabet.word b := by
    intro l c hc hword hl a ha b hb
    rw [hl a ha, ← hw c hc b hb, hword]
  have hascii : ∀ a ∈ ['t', 'm', 'p', 'e'], alphabet.word a = true := by
    intro a ha
    simp only [mem_cons, not_mem_nil, or_false] at ha
    rcases ha with rfl | rfl | rfl | rfl <;> exact alphabet.word_of_ascii _ rfl
  by_cases htemp : isTempName alphabet w = true
  · -- one temporary name for another
    obtain ⟨c, hc, hletter⟩ := isTempName_head alphabet htemp
    have hword : alphabet.word c = true := by
      rcases hletter with rfl | rfl <;> exact alphabet.word_of_ascii _ rfl
    have hclean : cleanWord alphabet w = "TMP".toList := by
      rw [cleanWord, hplain, if_pos htemp]
    by_cases hsame : w = ['t', 'm', 'p']
    · refine ⟨['t', 'e', 'm', 'p'], by rw [hsame]; decide, ?_, by decide, ?_⟩
      · rw [hclean]
        rfl
      · exact hwords hc hword fun a ha => hascii a (by simp at ha ⊢; tauto)
    · refine ⟨['t', 'm', 'p'], Ne.symm hsame, ?_, by decide, ?_⟩
      · rw [hclean]
        rfl
      · exact hwords hc hword fun a ha => hascii a (by simp at ha ⊢; tauto)
  have hclean : cleanWord alphabet w = w := by
    rw [cleanWord, hplain, if_neg htemp]
  by_cases htmp : w = "TMP".toList
  · -- what a temporary name becomes, and the name
    refine ⟨['t', 'm', 'p'], by rw [htmp]; decide, ?_, by decide, ?_⟩
    · rw [hclean, htmp]
      rfl
    · have hT : 'T' ∈ w := htmp ▸ .head _
      exact hwords hT (alphabet.word_of_ascii _ rfl) fun a ha => hascii a (by simp at ha ⊢; tauto)
  · -- an address in the place of a placeholder
    have hplaceholder : hasPlaceholder w = true := by
      simp only [isInert, isKept, htemp, haddress, bne_iff_ne.mpr htmp] at h
      simpa using h
    obtain ⟨w', hne', hnormal, hmem⟩ := exists_address haddress hplaceholder
    refine ⟨w', hne', ?_, ?_, ?_⟩
    · rw [hclean, cleanWord, hnormal, if_neg htemp]
    · rintro rfl
      exact hne hnormal.symm
    · exact fun a ha b hb => hw a (hmem a ha) b hb

/-- **What is cleaned has nothing left in it.** -/
theorem keptString_iff {s : String} : keptString alphabet s = true ↔ cleaned alphabet s = s := by
  have hwords : cleaned alphabet s = s ↔
      (wordsOf alphabet s.toList).map (cleanWord alphabet) = wordsOf alphabet s.toList := by
    rw [← wordsOf_cleaned]
    exact ⟨fun h => by rw [h], fun h => String.toList_inj.mp (eq_of_runs_eq h)⟩
  rw [hwords, keptString, all_eq_true]
  constructor
  · intro h
    exact (map_congr_left fun w hw => cleanWord_of_isKept (h w hw)).trans (map_id _)
  · intro h w hw
    exact isKept_of_cleanWord (map_inj_left.mp (h.trans (map_id _).symm) w hw)

/-- **A string is told from all others** exactly if no word of it is shared. -/
theorem inertString_iff {s : String} : inertString alphabet s = true ↔
    ∀ t, cleaned alphabet t = cleaned alphabet s → t = s := by
  constructor
  · intro h t hclean
    have hsame : ∀ {l l' : List (List Char)}, (∀ w ∈ l', isInert alphabet w = true) →
        l.map (cleanWord alphabet) = l'.map (cleanWord alphabet) → l = l' := by
      intro l l' hinert hmap
      induction l' generalizing l with
      | nil => exact map_eq_nil_iff.mp hmap
      | cons w' l' ih =>
        rcases l with - | ⟨w, l⟩
        · cases hmap
        · obtain ⟨hhead, htail⟩ := List.cons.inj hmap
          rw [cleanWord_inj (hinert w' (.head _)) hhead,
            ih (fun v hv => hinert v (.tail _ hv)) htail]
    have hwords := hsame (all_eq_true.mp h) (cleaned_inj_iff.mp hclean)
    exact String.toList_inj.mp (eq_of_runs_eq hwords)
  · intro h
    by_contra hnot
    obtain ⟨w, hw, hshared⟩ := all_eq_false.mp (Bool.eq_false_iff.mpr hnot)
    obtain ⟨w', hne, hclean, hnonempty, hkind⟩ := exists_cleanWord (ne_nil_of_mem hw)
      (kind_eq_of_mem hw) (Bool.eq_false_iff.mpr hshared)
    -- the word is replaced wherever it stands
    let other : List Char → List Char := fun v => if v = w then w' else v
    have hruns : wordsOf alphabet ((wordsOf alphabet s.toList).flatMap other) =
        (wordsOf alphabet s.toList).map other := by
      refine runs_flatMap fun v hv => ?_
      by_cases hvw : v = w
      · simp only [other, if_pos hvw]
        exact ⟨hnonempty, hvw ▸ hkind⟩
      · simp only [other, if_neg hvw]
        exact ⟨ne_nil_of_mem hv, kind_eq_of_mem hv⟩
    have hsame : (wordsOf alphabet s.toList).map (cleanWord alphabet ∘ other) =
        (wordsOf alphabet s.toList).map (cleanWord alphabet) := by
      refine map_congr_left fun v _ => ?_
      by_cases hvw : v = w
      · subst hvw
        exact (congrArg (cleanWord alphabet) (if_pos rfl)).trans hclean
      · exact congrArg (cleanWord alphabet) (if_neg hvw)
    have heq := h (String.ofList ((wordsOf alphabet s.toList).flatMap other)) (by
      rw [cleaned_inj_iff, String.toList_ofList, hruns, map_map, hsame])
    have htext := congrArg (fun t : String => wordsOf alphabet t.toList) heq
    simp only [String.toList_ofList] at htext
    rw [hruns] at htext
    have hw' := map_inj_left.mp (htext.trans (map_id _).symm) w hw
    exact hne ((if_pos rfl).symm.trans hw')

end Words

/-! ### Data that is kept -/

section Kept

variable (alphabet : Alphabet) (noise : List String)

mutual

/-- The canonicaliser finds nothing in the data. -/
def kept : Payload → Bool
  | .null | .bool _ | .int _ | .float _ => true
  | .str s => keptString alphabet s
  | .list items => keptItems items
  | .dict members => keptMembers members

def keptItems : List Payload → Bool
  | [] => true
  | p :: items => kept p && keptItems items

def keptMembers : List (String × Payload) → Bool
  | [] => true
  | (key, p) :: members => decide (key ∉ noise) && kept p && keptMembers members

end

mutual

/-- The canonicaliser makes this of no other data: there is no mapping in it, and only inert
strings. -/
def inert : Payload → Bool
  | .null | .bool _ | .int _ | .float _ => true
  | .str s => inertString alphabet s
  | .list items => inertItems items
  | .dict _ => false

def inertItems : List Payload → Bool
  | [] => true
  | p :: items => inert p && inertItems items

end

variable {alphabet noise}

theorem keptItems_eq (items : List Payload) :
    keptItems alphabet noise items = items.all (kept alphabet noise) := by
  induction items with
  | nil => rfl
  | cons p items ih => rw [keptItems, ih, all_cons]

theorem keptMembers_eq (members : List (String × Payload)) : keptMembers alphabet noise members =
    members.all fun m => decide (m.1 ∉ noise) && kept alphabet noise m.2 := by
  induction members with
  | nil => rfl
  | cons m members ih => rw [keptMembers, ih, all_cons]

theorem inertItems_eq (items : List Payload) :
    inertItems alphabet items = items.all (inert alphabet) := by
  induction items with
  | nil => rfl
  | cons p items ih => rw [inertItems, ih, all_cons]

theorem kept_sorted (p : Payload) : kept alphabet noise p.sorted = kept alphabet noise p := by
  induction p using Payload.induction with
  | hnull | hbool | hint | hfloat | hstr => rfl
  | hlist items ih =>
    rw [Payload.sorted, kept, kept, Payload.sortedItems_eq, keptItems_eq, keptItems_eq, all_map,
      Bool.eq_iff_iff, all_eq_true, all_eq_true]
    exact forall₂_congr fun p hp => by rw [Function.comp, ih p hp]
  | hdict members ih =>
    rw [Payload.sorted, kept, kept, Payload.sortedMembers_eq, keptMembers_eq, keptMembers_eq,
      Payload.sortMembers, (perm_insertionSort _ _).all_eq, all_map, Bool.eq_iff_iff, all_eq_true,
      all_eq_true]
    exact forall₂_congr fun m hm => by rw [Function.comp, ih m hm]

/-- **Nothing reported, nothing found.** -/
theorem stripped_eq_nil_iff (path : String) (p : Payload) :
    strippedAt alphabet noise path p = [] ↔ kept alphabet noise p = true := by
  induction p using Payload.induction generalizing path with
  | hnull | hbool | hint | hfloat => exact iff_of_true rfl rfl
  | hstr s =>
    rw [strippedAt, kept, keptString_iff]
    split_ifs with h
    · exact iff_of_false (by simp) h
    · exact iff_of_true rfl (not_not.mp h)
  | hlist items ih =>
    rw [strippedAt, kept]
    generalize 0 = index
    induction items generalizing index with
    | nil => exact iff_of_true rfl rfl
    | cons p items ih' =>
      rw [strippedItems, keptItems, append_eq_nil_iff, Bool.and_eq_true, ih p (.head _),
        ih' fun q hq => ih q (.tail _ hq)]
  | hdict members ih =>
    rw [strippedAt, kept]
    induction members with
    | nil => exact iff_of_true rfl rfl
    | cons m members ih' =>
      have hrest := ih' fun q hq => ih q (.tail _ hq)
      rw [strippedMembers, keptMembers]
      generalize (if path ≠ "" then path ++ "." ++ m.1 else m.1) = child
      split_ifs with hnoise
      · exact iff_of_false (by simp) (by simp [hnoise])
      · rw [append_eq_nil_iff, ih m (.head _), hrest, Bool.and_eq_true, Bool.and_eq_true]
        simp [hnoise]

theorem walk_of_kept {p : Payload} (h : kept alphabet noise p = true) :
    walk alphabet noise p = p := by
  induction p using Payload.induction with
  | hnull | hbool | hint | hfloat => rfl
  | hstr s => rw [walk, keptString_iff.mp h]
  | hlist items ih =>
    rw [kept, keptItems_eq, all_eq_true] at h
    rw [walk, walkItems_eq]
    exact congrArg Payload.list ((map_congr_left fun p hp => ih p hp (h p hp)).trans (map_id _))
  | hdict members ih =>
    rw [kept, keptMembers_eq, all_eq_true] at h
    simp only [Bool.and_eq_true, decide_eq_true_eq] at h
    rw [walk, walkMembers_eq, filter_eq_self.mpr fun m hm => by simpa using (h m hm).1]
    exact congrArg Payload.dict ((map_congr_left fun m hm =>
      congrArg (Prod.mk m.1) (ih m hm (h m hm).2)).trans (map_id _))

theorem canonical_of_kept {p : Payload} (h : kept alphabet noise p = true) :
    canonical alphabet noise p = p.sorted := walk_of_kept ((kept_sorted p).trans h)

end Kept

/-! ### Data that is told from all other -/

section Inert

variable {alphabet : Alphabet}

/-- Two values of data that the canonicaliser makes the same of. -/
def Confused (alphabet : Alphabet) (p q : Payload) : Prop :=
  canonical alphabet NOISE_KEYS q = canonical alphabet NOISE_KEYS p ∧ ¬ q.Same p

/-- Inert data is made of nothing else. -/
theorem eq_of_inert {p q : Payload} (hp : inert alphabet p = true)
    (h : canonical alphabet NOISE_KEYS q = canonical alphabet NOISE_KEYS p) : q = p := by
  induction p using Payload.induction generalizing q with
  | hnull =>
    cases q with
    | null => rfl
    | bool | int | float | str | list | dict => cases h
  | hbool b =>
    cases q with
    | bool => exact h
    | null | int | float | str | list | dict => cases h
  | hint n =>
    cases q with
    | int => exact h
    | null | bool | float | str | list | dict => cases h
  | hfloat x =>
    cases q with
    | float => exact h
    | null | bool | int | str | list | dict => cases h
  | hstr s =>
    cases q with
    | str t => rw [inertString_iff.mp hp t (Payload.str.inj h)]
    | null | bool | int | float | list | dict => cases h
  | hlist items ih =>
    cases q with
    | list items' =>
      rw [canonical_list, canonical_list, Payload.list.injEq] at h
      rw [inert, inertItems_eq, all_eq_true] at hp
      refine congrArg Payload.list ?_
      induction items generalizing items' with
      | nil => exact map_eq_nil_iff.mp h
      | cons p items ih' =>
        rcases items' with - | ⟨q, items'⟩
        · cases h
        · obtain ⟨hq, hrest⟩ := List.cons.inj h
          rw [ih p (.head _) (hp p (.head _)) hq,
            ih' (fun p hp => ih p (.tail _ hp)) (fun p hmem => hp p (.tail _ hmem)) items' hrest]
    | null | bool | int | float | str | dict => cases h
  | hdict members ih => cases hp

theorem not_same_list {p : Payload} : ¬ p.Same (.list [p]) := by
  intro h
  have hsize := congrArg sizeOf h
  simp only [Payload.sorted, Payload.sortedItems, Payload.list.sizeOf_spec, List.cons.sizeOf_spec,
    List.nil.sizeOf_spec] at hsize
  omega

/-- How often the letter `z` stands in the text of the data; the canonicaliser writes none. -/
def Payload.loudness (p : Payload) : Nat := p.canonicalJson.count 'z'

theorem Payload.Same.loudness {p q : Payload} (h : p.Same q) : p.loudness = q.loudness := by
  rw [Payload.loudness, Payload.canonicalJson_inj.mpr h, Payload.loudness]

def loud (n : Nat) : Payload := .str (String.ofList (replicate n 'z'))

theorem loudness_loud (n : Nat) : (loud n).loudness = n := by
  show (Json.quote (String.ofList (replicate n 'z'))).count 'z' = n
  simp [Json.quote, flatMap_replicate]

/-- A mapping is as loud as what is in it. -/
theorem loudness_le {members : List (String × Payload)} {key : String} {p : Payload}
    (h : (key, p) ∈ members) : p.loudness ≤ (Payload.dict members).loudness := by
  have htext : ∀ {ms : List (String × Payload)}, (key, p.sorted) ∈ ms →
      p.sorted.text.count 'z' ≤ (Payload.textMembers ms).count 'z' := by
    intro ms hmem
    induction ms with
    | nil => cases hmem
    | cons m ms ih =>
      rcases mem_cons.mp hmem with rfl | hrest
      · rw [Payload.textMembers]
        simp only [count_append, count_cons]
        omega
      · have hne : ms.isEmpty = false := isEmpty_eq_false_iff.mpr (ne_nil_of_mem hrest)
        rw [Payload.textMembers, hne]
        simp only [count_append, count_cons, Bool.false_eq_true, if_false]
        exact (ih hrest).trans (by omega)
  have hsorted : (key, p.sorted) ∈ Payload.sortMembers (Payload.sortedMembers members) := by
    rw [Payload.mem_sortMembers, Payload.sortedMembers_eq]
    exact mem_map.mpr ⟨_, h, rfl⟩
  refine (htext hsorted).trans ?_
  rw [Payload.loudness, Payload.canonicalJson, Payload.sorted, Payload.text]
  simp only [count_append, count_cons]
  omega

theorem filter_orderedInsert {α : Type*} {r : α → α → Prop} [DecidableRel r] {p : α → Bool}
    {a : α} (ha : p a = false) (l : List α) : (l.orderedInsert r a).filter p = l.filter p := by
  induction l with
  | nil => rw [orderedInsert, filter_cons_of_neg (by simp [ha])]
  | cons b l ih =>
    rw [orderedInsert]
    split_ifs
    · rw [filter_cons_of_neg (by simp [ha])]
    · rw [filter_cons, filter_cons, ih]

variable (alphabet) in
/-- **A mapping can be louder**: it can have one more member with a noise key, or another value
under one. -/
theorem exists_louder (members : List (String × Payload)) :
    ∃ members', canonical alphabet NOISE_KEYS (.dict members') =
        canonical alphabet NOISE_KEYS (.dict members) ∧
      ((members.map Prod.fst).Nodup → (members'.map Prod.fst).Nodup) ∧
      (Payload.dict members).loudness < (Payload.dict members').loudness := by
  let value := loud ((Payload.dict members).loudness + 1)
  have hlouder : ∀ {members' : List (String × Payload)} {key : String}, (key, value) ∈ members' →
      (Payload.dict members).loudness < (Payload.dict members').loudness := fun hmem =>
    (Nat.lt_succ_self _).trans_le ((loudness_loud _).symm.trans_le (loudness_le hmem))
  by_cases hnoise : ∃ m ∈ members, m.1 ∈ NOISE_KEYS
  · let other : String × Payload → Payload := fun m => if m.1 ∈ NOISE_KEYS then value else m.2
    refine ⟨members.map fun m => (m.1, other m), ?_, ?_, ?_⟩
    · rw [canonical_dict, canonical_dict, map_map]
      show Payload.dict (filter _ (Payload.sortMembers
        (members.map fun m => (m.1, canonical alphabet NOISE_KEYS (other m))))) = _
      rw [Payload.sortMembers_map fun m => canonical alphabet NOISE_KEYS (other m),
        Payload.sortMembers_map fun m => canonical alphabet NOISE_KEYS m.2, filter_map, filter_map]
      refine congrArg Payload.dict (map_congr_left fun m hm => ?_)
      have hkept : m.1 ∉ NOISE_KEYS := of_decide_eq_true (mem_filter.mp hm).2
      rw [show other m = m.2 from if_neg hkept]
    · rw [map_map]
      exact id
    · obtain ⟨m, hm, hkey⟩ := hnoise
      exact hlouder (mem_map.mpr ⟨m, hm, congrArg (Prod.mk m.1) (if_pos hkey)⟩)
  · refine ⟨("pid", value) :: members, ?_, fun hnodup => ?_, hlouder (.head _)⟩
    · rw [canonical_dict, canonical_dict, map_cons, Payload.sortMembers, insertionSort_cons]
      have hpid : "pid" ∈ NOISE_KEYS := by decide
      exact congrArg Payload.dict (filter_orderedInsert (by simp [hpid]) _)
    · refine nodup_cons.mpr ⟨fun hmem => hnoise ?_, hnodup⟩
      obtain ⟨m, hm, hkey⟩ := mem_map.mp hmem
      exact ⟨m, hm, hkey.symm ▸ (show "pid" ∈ NOISE_KEYS by decide)⟩

/-- **Other data is taken for it**, unless it is inert. -/
theorem exists_confused {p : Payload} (h : inert alphabet p = false) :
    ∃ q, Confused alphabet p q := by
  induction p using Payload.induction with
  | hnull | hbool | hint | hfloat => cases h
  | hstr s =>
    obtain ⟨t, hne⟩ := not_forall.mp (mt inertString_iff.mpr (Bool.eq_false_iff.mp h))
    obtain ⟨hclean, hne⟩ := Classical.not_imp.mp hne
    exact ⟨.str t, congrArg Payload.str hclean, fun hsame => hne (Payload.str.inj hsame)⟩
  | hlist items ih =>
    have hitems : ∃ items' : List Payload, items'.map (canonical alphabet NOISE_KEYS) =
        items.map (canonical alphabet NOISE_KEYS) ∧
          items'.map Payload.sorted ≠ items.map Payload.sorted := by
      rw [inert] at h
      induction items with
      | nil => cases h
      | cons p items ih' =>
        rw [inertItems, Bool.and_eq_false_iff] at h
        rcases h with hp | hrest
        · obtain ⟨q, hq, hne⟩ := ih p (.head _) hp
          exact ⟨q :: items, by rw [map_cons, map_cons, hq], fun hmap => hne (List.cons.inj hmap).1⟩
        · obtain ⟨items', hmap, hne⟩ := ih' (fun p hp => ih p (.tail _ hp)) hrest
          exact ⟨p :: items', by rw [map_cons, map_cons, hmap], fun h => hne (List.cons.inj h).2⟩
    obtain ⟨items', hmap, hne⟩ := hitems
    refine ⟨.list items', by rw [canonical_list, canonical_list, hmap], fun hsame => hne ?_⟩
    rw [← Payload.sortedItems_eq, ← Payload.sortedItems_eq]
    exact Payload.list.inj hsame
  | hdict members ih =>
    obtain ⟨members', hcanonical, -, hlouder⟩ := exists_louder alphabet members
    exact ⟨.dict members', hcanonical, fun hsame => absurd hsame.loudness hlouder.ne'⟩

/-- **Data is told from all other** exactly if it is inert. -/
theorem inert_iff {p : Payload} : inert alphabet p = true ↔
    ∀ q, canonical alphabet NOISE_KEYS q = canonical alphabet NOISE_KEYS p → q.Same p := by
  constructor
  · intro hp q h
    rw [eq_of_inert hp h]
    rfl
  · intro h
    by_contra hnot
    obtain ⟨q, hcanonical, hne⟩ := exists_confused (Bool.eq_false_iff.mpr hnot)
    exact hne (h q hcanonical)

end Inert

end Hqsb.Compiler
