/-
Hqsb/Console/TraceReads.lean

The incremental reader against the whole text.

`Ahead` ties a reader to the text that is still ahead of it: the unread part of its buffer, and
what the decoder will make of the bytes the stream has not returned.  Filling the buffer moves
characters from the one part to the other and leaves that text as it is.  So every method of the
reader that goes well does what the method on the whole text does; and over a file that is UTF-8
and within the read budget one that raises raises on the whole text too.  For values this is where
the budgets come in: the reader gives up over a buffer that holds more than 1 MiB, and by then the
buffer would have held the value with the character behind it (`Ahead.seg_of_pending`).
-/
import Hqsb.Console.TraceText

namespace Hqsb.Console

open Lib Lib.JsonText List

def Readable (file : List UInt8) : Prop :=
  (∃ text, file = Utf8.encode text) ∧ file.length ≤ MAX_TRACE_BYTES

/-- The text of a file, up to the first byte that is refused. -/
def textOf (file : List UInt8) : List Char := (Utf8.feed .start file).1

theorem byteLength_append (a b : List Char) : byteLength (a ++ b) = byteLength a + byteLength b := by
  rw [byteLength, Utf8.encode_append, length_append]
  rfl

theorem byteLength_cons (c : Char) (t : List Char) :
    byteLength (c :: t) = (String.utf8EncodeChar c).length + byteLength t := by
  rw [byteLength, Utf8.encode_cons, length_append]
  rfl

theorem length_boundary {c : Char} (h : isBoundary c) : (String.utf8EncodeChar c).length = 1 := by
  have hcases : c = ' ' ∨ c = '\t' ∨ c = '\r' ∨ c = '\n' ∨ c = ',' ∨ c = ']' ∨ c = '}' ∨ c = ':' := by
    simpa [isBoundary, isBlank, or_assoc] using h
  rcases hcases with rfl | rfl | rfl | rfl | rfl | rfl | rfl | rfl <;> decide

theorem skipBlanks_skipBlanks_append (a b : List Char) :
    skipBlanks (skipBlanks a ++ b) = skipBlanks (a ++ b) := by
  obtain ⟨w, hw, ha⟩ := exists_blank a
  conv_rhs => rw [ha, append_assoc, skipBlanks_append hw]

namespace TraceReader

variable {file : List UInt8} {r : TraceReader} {t : List Char} {fuel : Nat}

/-- How often the buffer can still be filled. -/
def left (r : TraceReader) : Nat := r.stream.length + if r.eof then 0 else 1

/-- A bound on the characters still to come. -/
def size (r : TraceReader) : Nat := r.buffer.length + r.stream.length

/-- `t` is ahead of the reader. -/
structure Ahead (file : List UInt8) (r : TraceReader) (t : List Char) : Prop where
  read : ∃ done, file = done ++ r.stream ∧ done.length = r.bytesRead ∧
    (Utf8.feed .start done).2 = some r.utf8
  text : t = r.buffer ++ (Utf8.feed r.utf8 r.stream).1
  within : r.bytesRead ≤ MAX_TRACE_BYTES
  ended : r.eof = true → r.stream = [] ∧ r.utf8 = .start

namespace Ahead

theorem new (file : List UInt8) (cuts : List Nat) :
    Ahead file (TraceReader.new file cuts) (textOf file) :=
  ⟨⟨[], rfl, rfl, rfl⟩, rfl, Nat.zero_le _, nofun⟩

section

variable (h : Ahead file r t)

include h

theorem sound : r.utf8.Sound := by
  obtain ⟨done, -, -, hdone⟩ := h.read
  exact (Utf8.Partial.sound_start.feed hdone).1

theorem accepted (hfile : Readable file) : (Utf8.feed r.utf8 r.stream).2 = some .start := by
  obtain ⟨done, hfeed, -, hdone⟩ := h.read
  have haccepts := (Utf8.accepts_iff file).mpr hfile.1
  rw [hfeed, Utf8.feed_append hdone] at haccepts
  exact haccepts

theorem at_end (heof : r.eof = true) : Readable file ∧ t = r.buffer := by
  obtain ⟨hstream, hutf8⟩ := h.ended heof
  obtain ⟨done, hfile, hlength, hdone⟩ := h.read
  have ht := h.text
  rw [hstream, append_nil] at hfile
  rw [hutf8, ← hfile] at hdone
  rw [hstream] at ht
  refine ⟨⟨(Utf8.accepts_iff file).mp hdone, ?_⟩, ht.trans (append_nil _)⟩
  rw [hfile, hlength]
  exact h.within

/-- The bytes that are held belong to the next character of a readable file. -/
theorem held (hfile : Readable file) :
    r.utf8.held = [] ∨ ∃ c s, (Utf8.feed r.utf8 r.stream).1 = c :: s ∧
      r.utf8.held.length < (String.utf8EncodeChar c).length := by
  rcases htext : (Utf8.feed r.utf8 r.stream).1 with - | ⟨c, s⟩
  · have hbytes := (h.sound.feed (h.accepted hfile)).2
    rw [htext] at hbytes
    exact .inl (append_eq_nil_iff.mp hbytes).1
  · exact .inr ⟨c, s, rfl, h.sound.next htext⟩

theorem drop (b : List Char) :
    Ahead file { r with buffer := b } (b ++ (Utf8.feed r.utf8 r.stream).1) :=
  ⟨h.read, rfl, h.within, h.ended⟩

/-- **Behind a read** what is ahead is what it was, and a readable file gives no trouble. -/
theorem received (hopen : r.eof = false) {chunk rest : List UInt8}
    (hstream : r.stream = chunk ++ rest) (hchunk : chunk = [] → rest = []) (cuts : List Nat) :
    (∃ r', TraceReader.received { r with
        stream := rest, cuts := cuts, bytesRead := r.bytesRead + chunk.length } chunk = .ok r' ∧
      Ahead file r' t ∧ r'.left < r.left ∧ r'.size ≤ r.size) ∨
    ∃ e, TraceReader.received { r with
        stream := rest, cuts := cuts, bytesRead := r.bytesRead + chunk.length } chunk = .error e ∧
      e ≠ .outOfFuel ∧ ¬ Readable file := by
  obtain ⟨done, hfile, hlength, hdone⟩ := h.read
  have hread : file = (done ++ chunk) ++ rest := by rw [append_assoc, ← hstream, hfile]
  have htotal : (done ++ chunk).length = r.bytesRead + chunk.length := by
    rw [length_append, hlength]
  unfold TraceReader.received
  simp only
  split_ifs with hgrown hne hheld
  · refine .inr ⟨_, rfl, nofun, fun hreadable => ?_⟩
    have hle := hreadable.2
    rw [hread, length_append] at hle
    omega
  · rcases hfeed : Utf8.feed r.utf8 chunk with ⟨text, - | utf8⟩
    · refine .inr ⟨_, rfl, nofun, fun hreadable => ?_⟩
      have haccepted := h.accepted hreadable
      rw [hstream, Utf8.feed_append_none (congrArg Prod.snd hfeed)] at haccepted
      cases haccepted
    · have hutf8 : (Utf8.feed r.utf8 chunk).2 = some utf8 := congrArg Prod.snd hfeed
      have hshort := Utf8.length_feed_le r.utf8 chunk
      have hpos : 0 < chunk.length := length_pos_iff.mpr hne
      rw [hfeed] at hshort
      refine .inl ⟨_, rfl, ⟨⟨_, hread, htotal, ?_⟩, ?_, Nat.not_lt.mp hgrown, ?_⟩, ?_, ?_⟩
      · rw [Utf8.feed_append hdone, hutf8]
      · rw [h.text, hstream, Utf8.feed_append hutf8, hfeed]
        rw [append_assoc]
      · intro heof
        cases hopen.symm.trans heof
      · simp only [left, hstream, length_append]
        omega
      · simp only [size, hstream, length_append]
        simp only at hshort
        omega
  · have hnil : chunk = [] := not_not.mp hne
    refine .inr ⟨_, rfl, nofun, fun hreadable => hheld ?_⟩
    have haccepted := h.accepted hreadable
    rw [hstream, hnil, hchunk hnil] at haccepted
    exact congrArg Utf8.Partial.held (Option.some.inj haccepted)
  · have hnil : chunk = [] := not_not.mp hne
    have hstart : r.utf8 = .start := h.sound.fresh (not_not.mp hheld)
    have hempty : r.stream = [] := by rw [hstream, hnil, hchunk hnil, nil_append]
    refine .inl ⟨_, rfl, ⟨⟨_, hread, htotal, ?_⟩, ?_, Nat.not_lt.mp hgrown, ?_⟩, ?_, ?_⟩
    · rw [hnil, append_nil, hdone, hstart]
    · rw [h.text, hempty, hstart, hchunk hnil]
    · exact fun _ => ⟨hchunk hnil, rfl⟩
    · simp only [left, hopen, hempty, hchunk hnil]
      decide
    · simp only [size, hempty, hchunk hnil]
      exact le_refl _

/-- **Filling the buffer** leaves what is ahead as it is.  Over a readable file only the budget of
one value stands in its way. -/
theorem fill (hopen : r.eof = false) :
    (∃ r', r.fill = .ok r' ∧ Ahead file r' t ∧ r'.left < r.left ∧ r'.size ≤ r.size) ∨
    ∃ e, r.fill = .error e ∧ e ≠ .outOfFuel ∧
      (Readable file → MAX_TRACE_VALUE_BYTES < byteLength r.buffer + r.utf8.held.length) := by
  simp only [TraceReader.fill]
  split_ifs with hbudget
  · exact .inr ⟨_, rfl, nofun, fun _ => hbudget⟩
  generalize hrequest : r.readLength _ = n
  have hn : 0 < n := hrequest ▸ Nat.lt_of_lt_of_le Nat.one_pos (Nat.le_max_left _ _)
  have hchunk : r.stream.take n = [] → r.stream.drop n = [] := fun hnil => by
    rcases take_eq_nil_iff.mp hnil with h0 | h0
    · exact absurd h0 hn.ne'
    · rw [h0, drop_nil]
  rcases h.received hopen (take_append_drop n r.stream).symm hchunk r.cuts.tail with
    hok | ⟨e, he, hfuel, hbad⟩
  · exact .inl hok
  · exact .inr ⟨e, he, hfuel, fun hreadable => absurd hreadable hbad⟩

/-! ### `peek` and `expect` -/

/-- **`peek`** finds the character that the whole text goes on with. -/
theorem peek (hfuel : r.left < fuel) :
    (∃ r', r.peek fuel = .ok ((skipBlanks t).head?, r') ∧ Ahead file r' (skipBlanks t) ∧
      r'.buffer.head? = (skipBlanks t).head? ∧ r'.left ≤ r.left ∧ r'.size ≤ r.size ∧
      ((skipBlanks t).head? = none → r'.eof = true)) ∨
    ∃ e, r.peek fuel = .error e ∧ e ≠ .outOfFuel ∧ ¬ Readable file := by
  induction fuel generalizing r t with
  | zero => cases hfuel
  | succ fuel ih =>
    have hskip := h.drop (skipBlanks r.buffer)
    have hsame : skipBlanks (skipBlanks r.buffer ++ (Utf8.feed r.utf8 r.stream).1) = skipBlanks t := by
      rw [skipBlanks_skipBlanks_append, h.text]
    have hsize : (skipBlanks r.buffer).length + r.stream.length ≤ r.size :=
      Nat.add_le_add_right (length_dropWhile_le _ _) _
    rw [TraceReader.peek]
    simp only
    rcases hbuffer : skipBlanks r.buffer with - | ⟨c, buffer⟩
    · rw [hbuffer] at hskip hsame hsize
      simp only
      by_cases heof : r.eof = true
      · -- the file is read to its end, so nothing but blanks was left
        have hend : skipBlanks t = [] := by
          rw [(h.at_end heof).2, hbuffer]
        have htext : [] ++ (Utf8.feed r.utf8 r.stream).1 = [] := (hskip.at_end heof).2
        rw [htext] at hskip
        rw [if_pos heof, hend]
        exact .inl ⟨_, rfl, hskip, rfl, le_refl _, hsize, fun _ => heof⟩
      · rw [if_neg heof]
        have hopen : r.eof = false := by simpa using heof
        rcases hskip.fill hopen with ⟨r₁, hr₁, hahead, hleft, hsize₁⟩ | ⟨e, he, hfuel', hbudget⟩
        · rw [hr₁]
          have hlt : r₁.left < fuel := lt_of_lt_of_le hleft (Nat.le_of_lt_succ hfuel)
          rcases ih hahead hlt with ⟨r₂, hr₂, hahead₂, hhead, hleft₂, hsize₂, heof₂⟩ | ⟨e, he, hbad⟩
          · rw [hsame] at hr₂ hahead₂ hhead heof₂
            exact .inl ⟨r₂, hr₂, hahead₂, hhead, hleft₂.trans hleft.le,
              (hsize₂.trans hsize₁).trans hsize, heof₂⟩
          · exact .inr ⟨e, he, hbad⟩
        · rw [he]
          refine .inr ⟨e, rfl, hfuel', fun hreadable => ?_⟩
          have hbudget := hbudget hreadable
          -- nothing but the bytes of one character is buffered
          rcases hskip.held hreadable with hheld | ⟨x, s, -, hlt⟩
          · simp only at hheld hbudget
            rw [hheld] at hbudget
            cases hbudget
          · have hfour : (String.utf8EncodeChar x).length ≤ 4 := by
              rw [String.length_utf8EncodeChar]
              exact x.utf8Size_le_four
            simp only [byteLength, Utf8.encode_nil, length_nil,
              MAX_TRACE_VALUE_BYTES] at hbudget hlt
            omega
    · obtain ⟨w, hw, hblank⟩ := exists_blank r.buffer
      have hc : isBlank c = false := by
        have hhead := List.head?_dropWhile_not isBlank r.buffer
        rw [show r.buffer.dropWhile isBlank = c :: buffer from hbuffer] at hhead
        simpa using hhead
      rw [hbuffer] at hskip hsame hsize
      have hsame' : skipBlanks t = c :: (buffer ++ (Utf8.feed r.utf8 r.stream).1) := by
        rw [← hsame, cons_append, skipBlanks_cons hc]
      rw [hsame']
      exact .inl ⟨_, rfl, hskip, rfl, le_refl _, hsize, nofun⟩

/-- **`expect`** takes that character. -/
theorem expect (hfuel : r.left < fuel) (c : Char) :
    (∃ r' t', r.expect fuel c = .ok ((), r') ∧ TraceText.expect c t = .ok ((), t') ∧
      Ahead file r' t' ∧ r'.left ≤ r.left ∧ r'.size < r.size) ∨
    ∃ e, r.expect fuel c = .error e ∧ e ≠ .outOfFuel ∧
      (Readable file → ∃ e', TraceText.expect c t = .error e') := by
  unfold TraceReader.expect TraceText.expect
  rcases h.peek hfuel with ⟨r', hr', hahead, hhead, hleft, hsize, -⟩ | ⟨e, he, hfuel', hbad⟩
  · rw [hr']
    by_cases hc : (skipBlanks t).head? = some c
    · rw [if_pos hc]
      obtain ⟨buffer, hbuffer⟩ : ∃ buffer, r'.buffer = c :: buffer :=
        List.head?_eq_some_iff.mp (hhead.trans hc)
      have htail : (skipBlanks t).tail = buffer ++ (Utf8.feed r'.utf8 r'.stream).1 := by
        rw [hahead.text, hbuffer]
        rfl
      refine .inl ⟨{ r' with buffer := r'.buffer.tail }, _, ?_, rfl, ?_, hleft, ?_⟩
      · simp [hc, bind, Except.bind, pure, Except.pure]
      · rw [htail, hbuffer]
        exact hahead.drop buffer
      · rw [size, hbuffer, length_cons] at hsize
        rw [size, hbuffer]
        simp only [tail_cons]
        omega
    · rw [if_neg hc]
      refine .inr ⟨.valueError "Invalid JSON trace container", ?_, nofun, fun _ => ⟨_, rfl⟩⟩
      simp [hc, bind, Except.bind, throw, throwThe, MonadExceptOf.throw]
  · rw [he]
    exact .inr ⟨e, rfl, hfuel', fun hreadable => absurd hreadable hbad⟩

/-! ### `value` -/

/-- **Where the value is not complete** it goes on behind the buffer. -/
theorem seg_of_pending
    (hpending : ∀ v rest, rawDecode r.buffer = some (v, rest) → r.complete rest = false)
    {v : Value} {t' : List Char} (hok : TraceText.valueAt t = .ok (v, t')) :
    ∃ seg, (Utf8.feed r.utf8 r.stream).1 = seg ++ t' ∧ Delimited t' ∧
      byteLength r.buffer + byteLength seg ≤ MAX_TRACE_VALUE_BYTES := by
  obtain ⟨seg, ht, ⟨n, hseg⟩, hdelimited, hlength, -⟩ := TraceText.valueAt_eq_ok_iff.mp hok
  rcases append_eq_append_iff.mp (h.text.symm.trans ht) with ⟨a, ha, htail⟩ | ⟨a, ha, htail⟩
  · refine ⟨a, htail, hdelimited, ?_⟩
    rw [← byteLength_append, ← ha]
    exact hlength
  · rcases a with - | ⟨c, a⟩
    · rw [append_nil] at ha
      refine ⟨[], htail.symm, hdelimited, ?_⟩
      rw [ha]
      exact hlength
    · -- the value with the character behind it is in the buffer
      rw [htail] at hdelimited
      have hboundary := delimited_cons.mp hdelimited
      have hfound : rawDecode r.buffer = some (v, c :: a) := by
        rw [ha]
        exact rawDecode_complete hseg (delimited_cons.mpr hboundary)
      have hincomplete := hpending v (c :: a) hfound
      rw [complete, hboundary] at hincomplete
      cases hincomplete

/-- The loop gives up for want of room only where the whole text has no value either. -/
theorem no_value_of_full
    (hpending : ∀ v rest, rawDecode r.buffer = some (v, rest) → r.complete rest = false)
    (hreadable : Readable file)
    (hfull : MAX_TRACE_VALUE_BYTES < byteLength r.buffer + r.utf8.held.length) :
    ∃ e, TraceText.valueAt t = .error e := by
  rcases hvalue : TraceText.valueAt t with e | ⟨v, t'⟩
  · exact ⟨e, rfl⟩
  · obtain ⟨seg, htail, hdelimited, hlength⟩ := h.seg_of_pending hpending hvalue
    rcases h.held hreadable with hheld | ⟨c, s, hnext, hlt⟩
    · rw [hheld, length_nil] at hfull
      omega
    · rw [hnext] at htail
      rcases seg with - | ⟨x, seg⟩
      · -- the character behind a value is a single byte
        rw [nil_append] at htail
        rw [← htail] at hdelimited
        rw [length_boundary (delimited_cons.mp hdelimited)] at hlt
        omega
      · obtain ⟨rfl, -⟩ := List.cons.inj htail
        rw [byteLength_cons] at hlength
        omega

/-- **`value`, behind the blanks**, takes the value of the whole text. -/
theorem valueLoop (hfuel : r.left < fuel) :
    (∃ v r' t', r.valueLoop fuel = .ok (v, r') ∧ TraceText.valueAt t = .ok (v, t') ∧
      Ahead file r' t' ∧ r'.left ≤ r.left ∧ r'.size < r.size) ∨
    ∃ e, r.valueLoop fuel = .error e ∧ e ≠ .outOfFuel ∧
      (Readable file → ∃ e', TraceText.valueAt t = .error e') := by
  induction fuel generalizing r with
  | zero => cases hfuel
  | succ fuel ih =>
    have hmore : ∀ more : Except TraceError (Value × TraceReader), r.eof = false →
        (∀ v rest, rawDecode r.buffer = some (v, rest) → r.complete rest = false) →
        more = (if byteLength r.buffer > MAX_TRACE_VALUE_BYTES then
            .error (.valueError "Trace value exceeds the 1 MiB budget")
          else r.fill >>= TraceReader.valueLoop fuel) →
        (∃ v r' t', more = .ok (v, r') ∧ TraceText.valueAt t = .ok (v, t') ∧
          Ahead file r' t' ∧ r'.left ≤ r.left ∧ r'.size < r.size) ∨
        ∃ e, more = .error e ∧ e ≠ .outOfFuel ∧
          (Readable file → ∃ e', TraceText.valueAt t = .error e') := by
      rintro more hopen hpending rfl
      split_ifs with hfull
      · exact .inr ⟨_, rfl, nofun, fun hreadable =>
          h.no_value_of_full hpending hreadable (Nat.lt_add_right _ hfull)⟩
      · rcases h.fill hopen with ⟨r₁, hr₁, hahead, hleft, hsize⟩ | ⟨e, he, hne, hbudget⟩
        · rw [hr₁]
          rcases ih hahead (lt_of_lt_of_le hleft (Nat.le_of_lt_succ hfuel)) with
            ⟨v, r₂, t', hr₂, ht', hahead₂, hleft₂, hsize₂⟩ | hbad
          · exact .inl ⟨v, r₂, t', hr₂, ht', hahead₂, hleft₂.trans hleft.le,
              hsize₂.trans_le hsize⟩
          · exact .inr hbad
        · rw [he]
          exact .inr ⟨e, rfl, hne, fun hreadable =>
            h.no_value_of_full hpending hreadable (hbudget hreadable)⟩
    rw [TraceReader.valueLoop]
    by_cases hdepth : checkValueDepth r.buffer = true
    · -- the check fails in what is there, so it fails in the whole text
      have hwhole : checkValueDepth t = true := h.text ▸ checkValueDepth_append hdepth _
      rw [if_pos hdepth]
      exact .inr ⟨_, rfl, nofun, fun _ => ⟨_, if_pos hwhole⟩⟩
    rw [if_neg hdepth]
    rcases hdecode : rawDecode r.buffer with - | ⟨v, rest⟩
    · by_cases heof : r.eof = true
      · rw [if_pos heof]
        refine .inr ⟨_, rfl, nofun, fun _ => ?_⟩
        rw [(h.at_end heof).2, TraceText.valueAt, if_neg hdepth, hdecode]
        exact ⟨_, rfl⟩
      · rw [if_neg heof]
        refine hmore _ (by simpa using heof) ?_ rfl
        rintro v rest hv
        cases hdecode.symm.trans hv
    · simp only
      by_cases hcomplete : r.complete rest = true
      · obtain ⟨seg, hbuffer, hseg⟩ := rawDecode_sound hdecode
        generalize htail : (Utf8.feed r.utf8 r.stream).1 = tail
        have ht : t = seg ++ (rest ++ tail) := by rw [h.text, hbuffer, htail, append_assoc]
        have hdelimited : Delimited (rest ++ tail) := by
          rcases rest with - | ⟨c, rest⟩
          · -- the file ends behind the value
            have hnil : tail = [] := by
              have hend := (h.at_end hcomplete).2
              rw [h.text, htail] at hend
              exact append_right_eq_self.mp hend
            rw [hnil]
            exact nofun
          · exact delimited_cons.mpr hcomplete
        have hwhole : checkValueDepth t = false := by
          rcases checkValueDepth_spells hseg with hpass | ⟨-, hfail⟩
          · rw [ht]
            exact hpass _
          · exact absurd (hbuffer ▸ hfail rest) hdepth
        have hdecode' : rawDecode t = some (v, rest ++ tail) := by
          rw [ht]
          exact rawDecode_complete hseg hdelimited
        have hsolid := spells_solid _ hseg
        rw [hbuffer, TraceText.take_seg]
        split_ifs with hlength
        · refine .inr ⟨_, rfl, nofun, fun _ => ?_⟩
          rw [TraceText.valueAt, hwhole, hdecode']
          simp only [TraceText.all_isBoundary.mpr hdelimited]
          rw [ht, TraceText.take_seg, if_pos hlength]
          exact ⟨_, rfl⟩
        · refine .inl ⟨v, _, rest ++ tail, rfl, ?_, ?_, le_refl _, ?_⟩
          · exact TraceText.valueAt_eq_ok_iff.mpr
              ⟨seg, ht, ⟨_, hseg⟩, hdelimited, Nat.not_lt.mp hlength, hwhole⟩
          · rw [← htail]
            exact h.drop rest
          · obtain ⟨c, s, rfl, -⟩ := hsolid
            simp only [size, hbuffer, length_append, length_cons]
            omega
      · rw [if_neg hcomplete]
        by_cases heof : r.eof = true
        · rw [if_pos heof]
          refine .inr ⟨_, rfl, nofun, fun _ => ?_⟩
          have hboundary : ¬ rest.head?.all isBoundary = true := by
            rcases rest with - | ⟨c, rest⟩
            · exact absurd heof hcomplete
            · exact hcomplete
          rw [(h.at_end heof).2, TraceText.valueAt, if_neg hdepth, hdecode]
          exact ⟨_, if_neg hboundary⟩
        · rw [if_neg heof]
          refine hmore _ (by simpa using heof) ?_ rfl
          rintro v' rest' hv
          obtain ⟨rfl, rfl⟩ := Prod.mk.inj (Option.some.inj (hdecode.symm.trans hv))
          simpa using hcomplete

/-- **`value`** takes the next value of the whole text. -/
theorem value (hfuel : r.left < fuel) :
    (∃ v r' t', r.value fuel = .ok (v, r') ∧ TraceText.value t = .ok (v, t') ∧
      Ahead file r' t' ∧ r'.left ≤ r.left ∧ r'.size < r.size) ∨
    ∃ e, r.value fuel = .error e ∧ e ≠ .outOfFuel ∧
      (Readable file → ∃ e', TraceText.value t = .error e') := by
  unfold TraceReader.value
  rcases h.peek hfuel with ⟨r₁, hr₁, hahead, -, hleft, hsize, -⟩ | ⟨e, he, hfuel', hbad⟩
  · rw [hr₁]
    rcases hhead : (skipBlanks t).head? with - | c
    · have hnil : skipBlanks t = [] := List.head?_eq_none_iff.mp hhead
      refine .inr ⟨.valueError "Truncated JSON trace value", rfl, nofun, fun _ => ?_⟩
      rw [TraceText.value, hnil]
      exact ⟨_, rfl⟩
    · show (∃ v r' t', r₁.valueLoop fuel = .ok (v, r') ∧ _) ∨ ∃ e, r₁.valueLoop fuel = .error e ∧ _
      rcases hahead.valueLoop (lt_of_le_of_lt hleft hfuel) with
        ⟨v, r₂, t', hr₂, ht', hahead₂, hleft₂, hsize₂⟩ | hbad
      · exact .inl ⟨v, r₂, t', hr₂, ht', hahead₂, hleft₂.trans hleft, hsize₂.trans_le hsize⟩
      · exact .inr hbad
  · rw [he]
    exact .inr ⟨e, rfl, hfuel', fun hreadable => absurd hreadable hbad⟩

end

end Ahead

end TraceReader

/-! ### `_iter_trace_events` -/

section

variable {σ τ : Type} {src : TraceSource σ} {src' : TraceSource τ}

/-- The methods of one source do what those of another do. -/
structure SourceMirrors (strict : Prop) (R : σ → τ → Prop) (src : TraceSource σ)
    (src' : TraceSource τ) : Prop where
  peek : Gen.Mirrors strict R (.lift src.peek : Gen TraceError Value σ _) (.lift src'.peek)
  expect : ∀ c, Gen.Mirrors strict R (.lift (src.expect c) : Gen TraceError Value σ _)
    (.lift (src'.expect c))
  value : Gen.Mirrors strict R (.lift src.value : Gen TraceError Value σ _) (.lift src'.value)

namespace SourceMirrors

variable {strict : Prop} {R : σ → τ → Prop}

section

variable (h : SourceMirrors strict R src src')

include h

theorem events (fuel : Nat) : Gen.Mirrors strict R (src.events fuel) (src'.events fuel) := by
  induction fuel with
  | zero => exact .raise _
  | succ fuel ih =>
    exact .bind h.value fun v => .bind (.yield v) fun _ => .bind h.peek fun next =>
      .ite (h.expect _) (.bind (h.expect _) fun _ => ih)

theorem member (fuel : Nat) (key : List Nat)
    (seenEvents : Bool) :
    Gen.Mirrors strict R (src.member fuel key seenEvents) (src'.member fuel key seenEvents) :=
  .ite
    (.ite (.raise _) (.bind (h.expect _) fun _ => .bind h.peek fun _ =>
      .ite (.bind (h.expect _) fun _ => .pure _) (.bind (h.events fuel) fun _ => .pure _)))
    (.bind h.value fun _ => .pure _)

theorem members (fuel turns : Nat) (seenEvents : Bool) :
    Gen.Mirrors strict R (src.members fuel turns seenEvents)
      (src'.members fuel turns seenEvents) := by
  induction turns generalizing seenEvents with
  | zero => exact .raise _
  | succ turns ih =>
    refine .bind h.value fun key => ?_
    cases key with
    | str key =>
      exact .bind (h.expect _) fun _ => .bind (h.member fuel key seenEvents) fun seenEvents =>
        .bind h.peek fun _ => .ite (h.expect _) (.bind (h.expect _) fun _ => ih seenEvents)
    | atom | arr | obj => exact .raise _

/-- **The generator** over the one source does what it does over the other. -/
theorem iterTraceEvents (fuel : Nat) :
    Gen.Mirrors strict R (src.iterTraceEvents fuel) (src'.iterTraceEvents fuel) := by
  have hend : ∀ _ : Unit, Gen.Mirrors strict R
      (do
        let next ← .lift src.peek
        if next ≠ none then .raise (.valueError "Trailing content after the JSON trace object")
        else pure () : Gen TraceError Value σ Unit)
      (do
        let next ← .lift src'.peek
        if next ≠ none then .raise (.valueError "Trailing content after the JSON trace object")
        else pure ()) := fun _ => .bind h.peek fun _ => .ite (.raise _) (.pure _)
  exact .bind (h.expect _) fun _ => .bind h.peek fun _ =>
    .ite (.bind (h.expect _) hend) (.bind (h.members fuel fuel false) hend)

end

end SourceMirrors

/-- No method of a source runs out of fuel; `expect` and `value` take at least one character. -/
structure SourceEnds (inv : σ → Prop) (size : σ → Nat) (src : TraceSource σ) : Prop where
  peek : ∀ n, Gen.EndsBelow inv .outOfFuel size n 0 (.lift src.peek : Gen TraceError Value σ _)
  expect : ∀ n c,
    Gen.EndsBelow inv .outOfFuel size n 1 (.lift (src.expect c) : Gen TraceError Value σ _)
  value : ∀ n, Gen.EndsBelow inv .outOfFuel size n 1 (.lift src.value : Gen TraceError Value σ _)

namespace SourceEnds

variable {inv : σ → Prop} {size : σ → Nat}

theorem events (h : SourceEnds inv size src) (n : Nat) :
    Gen.EndsBelow inv .outOfFuel size n 0 (src.events n) := by
  induction n with
  | zero => exact fun _ _ hs => absurd hs (Nat.not_lt_zero _)
  | succ n ih =>
    have hrest : Gen.EndsBelow inv .outOfFuel size n 0 (do
        .lift (src.expect ',')
        src.events n : Gen TraceError Value σ Unit) :=
      (Gen.EndsBelow.bind (h.expect n ',') fun _ => ih.mono (Nat.sub_le n 1) le_rfl).mono le_rfl
        (Nat.zero_le _)
    exact (Gen.EndsBelow.bind (h.value (n + 1)) fun v => .bind (.yield v) fun _ =>
      .bind (h.peek _) fun _ => .ite ((h.expect _ _).mono le_rfl (Nat.zero_le 1)) hrest).mono le_rfl
        (Nat.zero_le _)

theorem member (h : SourceEnds inv size src) {n fuel : Nat} (hn : n ≤ fuel) (key : List Nat)
    (seenEvents : Bool) :
    Gen.EndsBelow inv .outOfFuel size n 0 (src.member fuel key seenEvents) := by
  have hevents : ∀ m, m ≤ fuel → Gen.EndsBelow inv .outOfFuel size m 0 (src.events fuel) :=
    fun m hm => (h.events fuel).mono hm le_rfl
  have harray : Gen.EndsBelow inv .outOfFuel size n 0 (do
      .lift (src.expect '[')
      let next ← .lift src.peek
      if next = some ']' then .lift (src.expect ']') else src.events fuel
      pure true : Gen TraceError Value σ Bool) :=
    (Gen.EndsBelow.bind (h.expect n '[') fun _ => .bind (h.peek _) fun _ =>
      .ite ((Gen.EndsBelow.bind (h.expect _ ']') fun _ => .pure true).mono le_rfl (Nat.zero_le _))
        (.bind (hevents _ ((Nat.sub_le _ _).trans ((Nat.sub_le n 1).trans hn))) fun _ =>
          .pure true)).mono le_rfl (Nat.zero_le _)
  exact .ite (.ite (.raise nofun) harray)
    ((Gen.EndsBelow.bind (h.value n) fun _ => .pure seenEvents).mono le_rfl (Nat.zero_le _))

theorem members (h : SourceEnds inv size src) {fuel n : Nat} (hn : n ≤ fuel) (seenEvents : Bool) :
    Gen.EndsBelow inv .outOfFuel size n 0 (src.members fuel n seenEvents) := by
  induction n generalizing seenEvents with
  | zero => exact fun _ _ hs => absurd hs (Nat.not_lt_zero _)
  | succ n ih =>
    have hrest : ∀ seenEvents, Gen.EndsBelow inv .outOfFuel size n 0 (do
        .lift (src.expect ',')
        src.members fuel n seenEvents : Gen TraceError Value σ Unit) := fun seenEvents =>
      (Gen.EndsBelow.bind (h.expect n ',') fun _ =>
        (ih (Nat.le_of_succ_le hn) seenEvents).mono (Nat.sub_le n 1) le_rfl).mono le_rfl
          (Nat.zero_le _)
    refine (Gen.EndsBelow.bind (h.value (n + 1)) fun key => (?_ : Gen.EndsBelow _ _ _ n 0 _)).mono
      le_rfl (Nat.zero_le _)
    cases key with
    | str key =>
      refine (Gen.EndsBelow.bind (h.expect n ':') fun _ => .bind
        (h.member ((Nat.sub_le n 1).trans (Nat.le_of_succ_le hn)) key seenEvents)
        fun seenEvents => .bind (h.peek _) fun _ => .ite ((h.expect _ _).mono le_rfl (Nat.zero_le 1))
          ((hrest seenEvents).mono ?_ le_rfl)).mono le_rfl (Nat.zero_le _)
      exact Nat.sub_le n 1
    | atom | arr | obj => exact .raise nofun

/-- **The generator ends**, given more fuel than there is to read. -/
theorem iterTraceEvents (h : SourceEnds inv size src) (fuel : Nat) :
    Gen.EndsBelow inv .outOfFuel size fuel 0 (src.iterTraceEvents fuel) := by
  have hend : ∀ n, ∀ _ : Unit, Gen.EndsBelow inv .outOfFuel size n 0 (do
      let next ← .lift src.peek
      if next ≠ none then .raise (.valueError "Trailing content after the JSON trace object")
      else pure () : Gen TraceError Value σ Unit) := fun n _ => by
    have hlast : ∀ next : Option Char, Gen.EndsBelow inv .outOfFuel size n 0
        (if next ≠ none then .raise (.valueError "Trailing content after the JSON trace object")
          else pure () : Gen TraceError Value σ Unit) := fun _ => .ite (.raise nofun) (.pure ())
    exact .bind (h.peek n) hlast
  refine (Gen.EndsBelow.bind (h.expect fuel '{') fun _ => .bind (h.peek _) fun _ =>
    .ite ((Gen.EndsBelow.bind (h.expect _ '}') (hend _)).mono le_rfl (Nat.zero_le _))
      (.bind ((h.members le_rfl false).mono ?_ le_rfl) (hend _))).mono le_rfl (Nat.zero_le _)
  exact Nat.sub_le fuel 1

end SourceEnds

end

namespace TraceReader

def Reading (file : List UInt8) (fuel : Nat) (r : TraceReader) (t : List Char) : Prop :=
  Ahead file r t ∧ r.left < fuel

theorem source_mirrors (file : List UInt8) (fuel : Nat) :
    SourceMirrors (Readable file) (Reading file fuel) (TraceReader.source fuel)
      TraceText.source where
  peek := .lift fun r t ⟨h, hfuel⟩ => by
    rcases h.peek hfuel with ⟨r', hr', hahead, -, hleft, -, -⟩ | ⟨e, he, -, hbad⟩
    · exact .inl ⟨_, r', _, hr', rfl, hahead, hleft.trans_lt hfuel⟩
    · exact .inr ⟨e, he, fun hreadable => absurd hreadable hbad⟩
  expect c := .lift fun r t ⟨h, hfuel⟩ => by
    rcases h.expect hfuel c with ⟨r', t', hr', ht', hahead, hleft, -⟩ | ⟨e, he, -, hbad⟩
    · exact .inl ⟨(), r', t', hr', ht', hahead, hleft.trans_lt hfuel⟩
    · exact .inr ⟨e, he, hbad⟩
  value := .lift fun r t ⟨h, hfuel⟩ => by
    rcases h.value hfuel with ⟨v, r', t', hr', ht', hahead, hleft, -⟩ | ⟨e, he, -, hbad⟩
    · exact .inl ⟨v, r', t', hr', ht', hahead, hleft.trans_lt hfuel⟩
    · exact .inr ⟨e, he, hbad⟩

theorem source_ends (file : List UInt8) (fuel : Nat) :
    SourceEnds (fun r => ∃ t, Reading file fuel r t) size (TraceReader.source fuel) where
  peek n := .lift fun r ⟨t, h, hfuel⟩ _ => by
    rcases h.peek hfuel with ⟨r', hr', hahead, -, hleft, hsize, -⟩ | ⟨e, he, hne, -⟩
    · exact .inl ⟨_, r', hr', ⟨_, hahead, hleft.trans_lt hfuel⟩, hsize⟩
    · exact .inr ⟨e, he, hne⟩
  expect n c := .lift fun r ⟨t, h, hfuel⟩ _ => by
    rcases h.expect hfuel c with ⟨r', t', hr', -, hahead, hleft, hsize⟩ | ⟨e, he, hne, -⟩
    · exact .inl ⟨_, r', hr', ⟨_, hahead, hleft.trans_lt hfuel⟩, hsize⟩
    · exact .inr ⟨e, he, hne⟩
  value n := .lift fun r ⟨t, h, hfuel⟩ _ => by
    rcases h.value hfuel with ⟨v, r', t', hr', -, hahead, hleft, hsize⟩ | ⟨e, he, hne, -⟩
    · exact .inl ⟨v, r', hr', ⟨_, hahead, hleft.trans_lt hfuel⟩, hsize⟩
    · exact .inr ⟨e, he, hne⟩

theorem reading_new {file : List UInt8} {fuel : Nat} (hfuel : file.length + 2 ≤ fuel)
    (cuts : List Nat) : Reading file fuel (new file cuts) (textOf file) :=
  ⟨.new file cuts, hfuel⟩

end TraceReader

/-! ### The cuts do not matter -/

/-- A run with more turns for every loop than the file has bytes. -/
def readTrace (spare : Nat) (file : List UInt8) (cuts : List Nat) :
    List Value × Except TraceError (Unit × TraceReader) :=
  iterTraceEvents (file.length + 2 + spare) file cuts

variable (file : List UInt8) (spare : Nat)

def readText : List Value × Except TraceError (Unit × List Char) :=
  TraceText.source.iterTraceEvents (file.length + 2 + spare) (textOf file)

theorem readTrace_ends (cuts : List Nat) : (readTrace spare file cuts).2 ≠ .error .outOfFuel := by
  have hfuel : file.length + 2 ≤ file.length + 2 + spare := Nat.le_add_right _ _
  have hreading := TraceReader.reading_new hfuel cuts
  have hsize : (TraceReader.new file cuts).size < file.length + 2 + spare := by
    simp only [TraceReader.size, TraceReader.new, length_nil]
    omega
  exact ((TraceReader.source_ends file _).iterTraceEvents _ ⟨_, hreading⟩ hsize).1

/-- A run that went well has read a readable file to its end. -/
theorem readable_of_ok {cuts : List Nat} {r : TraceReader}
    (h : (readTrace spare file cuts).2 = .ok ((), r)) : Readable file := by
  have hfuel : file.length + 2 ≤ file.length + 2 + spare := Nat.le_add_right _ _
  have hmirrors := TraceReader.source_mirrors file (file.length + 2 + spare)
  obtain ⟨_, r₁, h₁, h⟩ := Gen.exists_of_bind_ok h
  obtain ⟨t₁, hR₁⟩ := (hmirrors.expect '{').exists_of_ok (TraceReader.reading_new hfuel cuts) h₁
  obtain ⟨next, r₂, h₂, h⟩ := Gen.exists_of_bind_ok h
  obtain ⟨t₂, hR₂⟩ := hmirrors.peek.exists_of_ok hR₁ h₂
  obtain ⟨r₃, t₃, hR₃, next, r₄, h₄, h⟩ : ∃ r₃ t₃, TraceReader.Reading file
      (file.length + 2 + spare) r₃ t₃ ∧ ∃ next r₄,
        (TraceReader.source (file.length + 2 + spare)).peek r₃ = .ok (next, r₄) ∧
        ((if next ≠ none then .raise (.valueError "Trailing content after the JSON trace object")
          else pure () : Gen TraceError Value TraceReader Unit) r₄).2 = .ok ((), r) := by
    simp only at h
    split_ifs at h
    · obtain ⟨_, r₃, h₃, h⟩ := Gen.exists_of_bind_ok h
      obtain ⟨t₃, hR₃⟩ := (hmirrors.expect '}').exists_of_ok hR₂ h₃
      obtain ⟨next, r₄, h₄, h⟩ := Gen.exists_of_bind_ok h
      exact ⟨r₃, t₃, hR₃, next, r₄, h₄, h⟩
    · obtain ⟨_, r₃, h₃, h⟩ := Gen.exists_of_bind_ok h
      obtain ⟨t₃, hR₃⟩ := (hmirrors.members _ _ false).exists_of_ok hR₂ h₃
      obtain ⟨next, r₄, h₄, h⟩ := Gen.exists_of_bind_ok h
      exact ⟨r₃, t₃, hR₃, next, r₄, h₄, h⟩
  have hnone : next = none := by
    by_contra hsome
    rw [if_pos hsome] at h
    cases h
  rcases hR₃.1.peek hR₃.2 with ⟨r', hr', hahead, -, -, -, heof⟩ | ⟨e, he, -⟩
  · obtain ⟨hnext, rfl⟩ := Prod.mk.inj (Except.ok.inj (hr'.symm.trans h₄))
    exact (hahead.at_end (heof (hnext.trans hnone))).1
  · exact nomatch he.symm.trans h₄

/-- What any run yields is the beginning of what the run on the whole text yields; over a readable
file the two are seen to do the same. -/
theorem readTrace_text (cuts : List Nat) :
    (readTrace spare file cuts).1 <+: (readText file spare).1 ∧
      (Readable file → seen (readTrace spare file cuts) = seen (readText file spare)) := by
  have hfuel : file.length + 2 ≤ file.length + 2 + spare := Nat.le_add_right _ _
  have hmirrors := (TraceReader.source_mirrors file (file.length + 2 + spare)).iterTraceEvents
    (file.length + 2 + spare)
  rcases hmirrors (TraceReader.reading_new hfuel cuts) with
    ⟨a, r, t, hr, ht, hyield, -⟩ | ⟨e, hr, hyield, hstrict⟩
  · refine ⟨hyield ▸ prefix_refl _, fun _ => Prod.ext hyield ?_⟩
    show Except.isOk (readTrace spare file cuts).2 = Except.isOk (readText file spare).2
    rw [show (readTrace spare file cuts).2 = _ from hr, show (readText file spare).2 = _ from ht]
    rfl
  · refine ⟨hyield, fun hreadable => ?_⟩
    obtain ⟨hsame, e', ht⟩ := hstrict hreadable
    refine Prod.ext hsame ?_
    show Except.isOk (readTrace spare file cuts).2 = Except.isOk (readText file spare).2
    rw [show (readTrace spare file cuts).2 = _ from hr, show (readText file spare).2 = _ from ht]
    rfl

theorem not_ok_of_not_readable (h : ¬ Readable file) (cuts : List Nat) :
    (seen (readTrace spare file cuts)).2 = false := by
  rcases hrun : (readTrace spare file cuts).2 with e | ⟨_, r⟩
  · rw [seen, hrun]
    rfl
  · exact absurd (readable_of_ok file spare hrun) h

/-- **The reader against a one-shot parse.**  Every run ends.  Whether it ends well does not depend
on the cuts, and over a readable file neither does anything that is yielded; over any other file
every run raises, and what the runs have yielded by then are beginnings of one sequence.  A trace
document yields the events that a parse of the whole document gives. -/
theorem trace_reader_outcome (file : List UInt8) (spare : Nat) :
    (∀ cuts, (readTrace spare file cuts).2 ≠ .error .outOfFuel) ∧
    (∀ cuts cuts', (seen (readTrace spare file cuts)).2 = (seen (readTrace spare file cuts')).2) ∧
    (Readable file → ∀ cuts cuts',
      seen (readTrace spare file cuts) = seen (readTrace spare file cuts')) ∧
    (¬ Readable file → (∀ cuts, (seen (readTrace spare file cuts)).2 = false) ∧
      ∃ events, ∀ cuts, (readTrace spare file cuts).1 <+: events) ∧
    ∀ members text, TraceDocument members text → file = Utf8.encode text →
      file.length ≤ MAX_TRACE_BYTES →
      loads text = some (.obj members) ∧
        ∀ cuts, seen (readTrace spare file cuts) = (eventsOf members, true) := by
  have hsame : Readable file → ∀ cuts cuts',
      seen (readTrace spare file cuts) = seen (readTrace spare file cuts') :=
    fun hreadable cuts cuts' => ((readTrace_text file spare cuts).2 hreadable).trans
      ((readTrace_text file spare cuts').2 hreadable).symm
  refine ⟨readTrace_ends file spare, fun cuts cuts' => ?_, hsame, fun h => ?_, ?_⟩
  · by_cases hreadable : Readable file
    · rw [hsame hreadable cuts cuts']
    · rw [not_ok_of_not_readable file spare hreadable cuts,
        not_ok_of_not_readable file spare hreadable cuts']
  · exact ⟨not_ok_of_not_readable file spare h, _, fun cuts => (readTrace_text file spare cuts).1⟩
  · rintro members text hdocument rfl hlength
    refine ⟨hdocument.loads, fun cuts => ?_⟩
    have htext : textOf (Utf8.encode text) = text := congrArg Prod.fst (Utf8.feed_encode text)
    have hshort : text.length ≤ (Utf8.encode text).length := by
      have hle := Utf8.length_feed_le .start (Utf8.encode text)
      rwa [Utf8.feed_encode] at hle
    obtain ⟨hevents, rest, hok⟩ := TraceText.iterTraceEvents_document hdocument
      (show text.length ≤ (Utf8.encode text).length + 2 + spare by omega)
    rw [(readTrace_text _ spare cuts).2 ⟨⟨text, rfl⟩, hlength⟩]
    unfold seen readText
    rw [htext, hevents, hok]
    rfl

/-- A trace that breaks off in a byte that begins no character. -/
def brokenTrace : List UInt8 := Utf8.encode "\x7b\"traceEvents\":[1,2,".toList ++ [0xFF]

/-- Read at once the broken trace yields nothing, read byte by byte it yields two events. -/
theorem events_depend_on_cuts :
    (readTrace 0 brokenTrace []).1.length = 0 ∧
      (readTrace 0 brokenTrace (List.replicate 21 1)).1.length = 2 := by
  decide +kernel

end Hqsb.Console
