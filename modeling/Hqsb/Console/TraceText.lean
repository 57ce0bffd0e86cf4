/-
Hqsb/Console/TraceText.lean

The reader of trace files: JSON values from a stream of bytes, with bounded buffers.

`TraceReader` is `_TraceJSONReader`.  The stream is what it has not returned yet, and how long its
next reads are; a read returns at least one byte while there is one, and no more than it was asked
for.  Of the buffer only the part from `position` on is kept, which is all the class looks at.
A loop of the source runs on `fuel`; the error `outOfFuel` is the model's own.

`iterTraceEvents` is `_iter_trace_events`, over anything with the three methods it calls.
`textSource` has them on a text that is there as a whole: the specification of the reader.  The
nesting check of the source looks at brackets only; over a value that is written there it comes to
the end or exceeds its budget, whatever stands behind (`Settles`).
-/
import Hqsb.Lib.JsonText
import Hqsb.Lib.Utf8
import Hqsb.Lib.Yielding

namespace Hqsb.Console

open Lib Lib.JsonText List

def MAX_TRACE_BYTES : Nat := 64 * 1024 * 1024

def TRACE_CHUNK_BYTES : Nat := 64 * 1024

def MAX_TRACE_VALUE_BYTES : Nat := 1024 * 1024

def MAX_TRACE_DEPTH : Nat := 128

/-- What the reader can raise; every one but the last is a `ValueError`. -/
inductive TraceError where
  | valueError (text : String)
  | unicodeDecodeError
  | outOfFuel

/-- `len(text.encode("utf-8"))` -/
def byteLength (text : List Char) : Nat := (Utf8.encode text).length

/-! ### `_check_value_depth` -/

/-- The loop over the characters: is the budget exceeded before the first bracket is closed? -/
def depthExceeded : Nat → Bool → Bool → List Char → Bool
  | _, _, _, [] => false
  | depth, true, true, _ :: text => depthExceeded depth true false text
  | depth, true, false, character :: text =>
    if character = '\\' then depthExceeded depth true true text
    else if character = '"' then depthExceeded depth false false text
    else depthExceeded depth true false text
  | depth, false, escaped, character :: text =>
    if character = '"' then depthExceeded depth true escaped text
    else if character = '[' ∨ character = '{' then
      if depth + 1 > MAX_TRACE_DEPTH then true else depthExceeded (depth + 1) false escaped text
    else if character = ']' ∨ character = '}' then
      if depth - 1 = 0 then false else depthExceeded (depth - 1) false escaped text
    else depthExceeded depth false escaped text

/-- `_check_value_depth`: does it raise? -/
def checkValueDepth (text : List Char) : Bool :=
  match text.head? with
  | some character =>
    if character = '[' ∨ character = '{' then depthExceeded 0 false false text else false
  | none => false

/-! ### `_TraceJSONReader` -/

structure TraceReader where
  stream : List UInt8
  cuts : List Nat
  buffer : List Char
  utf8 : Utf8.Partial
  eof : Bool
  bytesRead : Nat

namespace TraceReader

/-- `__init__` -/
def new (file : List UInt8) (cuts : List Nat) : TraceReader :=
  ⟨file, cuts, [], .start, false, 0⟩

/-- How many bytes the stream returns. -/
def readLength (r : TraceReader) (request : Nat) : Nat :=
  max 1 (min (r.cuts.headD request) request)

/-- The rest of `_fill`, behind `self.stream.read`. -/
def received (r : TraceReader) (chunk : List UInt8) : Except TraceError TraceReader :=
  if r.bytesRead > MAX_TRACE_BYTES then
    .error (.valueError "Trace grew beyond the original-file read budget")
  else if chunk ≠ [] then
    match Utf8.feed r.utf8 chunk with
    | (text, some utf8) => .ok { r with buffer := r.buffer ++ text, utf8 := utf8 }
    | (_, none) => .error .unicodeDecodeError
  else if r.utf8.held ≠ [] then .error .unicodeDecodeError
  else .ok { r with utf8 := .start, eof := true }

def fill (r : TraceReader) : Except TraceError TraceReader :=
  let bufferedBytes := byteLength r.buffer + r.utf8.held.length
  if bufferedBytes > MAX_TRACE_VALUE_BYTES then
    .error (.valueError "Trace value exceeds the 1 MiB budget")
  else
    let remaining := MAX_TRACE_VALUE_BYTES - bufferedBytes
    let n := r.readLength (min TRACE_CHUNK_BYTES (max 1 (remaining + 1)))
    let chunk := r.stream.take n
    received { r with
      stream := r.stream.drop n
      cuts := r.cuts.tail
      bytesRead := r.bytesRead + chunk.length } chunk

/-- `peek`, up to the next character that is no blank. -/
def peek : Nat → TraceReader → Except TraceError (Option Char × TraceReader)
  | 0, _ => .error .outOfFuel
  | fuel + 1, r =>
    let r := { r with buffer := skipBlanks r.buffer }
    match r.buffer with
    | character :: _ => .ok (some character, r)
    | [] => if r.eof then .ok (none, r) else r.fill >>= peek fuel

def expect (fuel : Nat) (character : Char) (r : TraceReader) :
    Except TraceError (Unit × TraceReader) := do
  let (found, r) ← r.peek fuel
  if found ≠ some character then throw (.valueError "Invalid JSON trace container")
  pure ((), { r with buffer := r.buffer.tail })

/-- Has the value ended where the decoder stopped? -/
def complete (r : TraceReader) (rest : List Char) : Bool :=
  match rest with
  | boundary :: _ => isBoundary boundary
  | [] => r.eof

/-- The loop of `value`. -/
def valueLoop : Nat → TraceReader → Except TraceError (Value × TraceReader)
  | 0, _ => .error .outOfFuel
  | fuel + 1, r =>
    let more : Except TraceError (Value × TraceReader) :=
      if byteLength r.buffer > MAX_TRACE_VALUE_BYTES then
        .error (.valueError "Trace value exceeds the 1 MiB budget")
      else r.fill >>= valueLoop fuel
    if checkValueDepth r.buffer then .error (.valueError "Trace value exceeds the nesting budget")
    else
      match rawDecode r.buffer with
      | none =>
        if r.eof then .error (.valueError "Invalid or truncated JSON trace value") else more
      | some (value, rest) =>
        if r.complete rest then
          if byteLength (r.buffer.take (r.buffer.length - rest.length)) > MAX_TRACE_VALUE_BYTES then
            .error (.valueError "Trace value exceeds the 1 MiB budget")
          else .ok (value, { r with buffer := rest })
        else if r.eof then .error (.valueError "Invalid JSON value boundary")
        else more

def value (fuel : Nat) (r : TraceReader) : Except TraceError (Value × TraceReader) := do
  let (found, r) ← r.peek fuel
  if found = none then throw (.valueError "Truncated JSON trace value")
  r.valueLoop fuel

end TraceReader

/-! ### `_iter_trace_events` -/

/-- The methods of a reader that `_iter_trace_events` calls. -/
structure TraceSource (σ : Type) where
  peek : σ → Except TraceError (Option Char × σ)
  expect : Char → σ → Except TraceError (Unit × σ)
  value : σ → Except TraceError (Value × σ)

/-- `"traceEvents"` -/
def traceEventsKey : List Nat := "traceEvents".toList.map Char.toNat

namespace TraceSource

variable {σ : Type} (src : TraceSource σ)

def events : Nat → Gen TraceError Value σ Unit
  | 0 => .raise .outOfFuel
  | fuel + 1 => do
    let event ← .lift src.value
    .yield event
    let next ← .lift src.peek
    if next = some ']' then .lift (src.expect ']')
    else do
      .lift (src.expect ',')
      events fuel

/-- The value of one key of the trace object; the result is `seen_events`. -/
def member (fuel : Nat) (key : List Nat) (seenEvents : Bool) : Gen TraceError Value σ Bool :=
  if key = traceEventsKey then
    if seenEvents then .raise (.valueError "Duplicate top-level traceEvents key")
    else do
      .lift (src.expect '[')
      let next ← .lift src.peek
      if next = some ']' then .lift (src.expect ']') else src.events fuel
      pure true
  else do
    let _ ← .lift src.value
    pure seenEvents

def members (fuel : Nat) : Nat → Bool → Gen TraceError Value σ Unit
  | 0, _ => .raise .outOfFuel
  | turns + 1, seenEvents => do
    let key ← .lift src.value
    match key with
    | .str key => do
      .lift (src.expect ':')
      let seenEvents ← src.member fuel key seenEvents
      let next ← .lift src.peek
      if next = some '}' then .lift (src.expect '}')
      else do
        .lift (src.expect ',')
        members fuel turns seenEvents
    | _ => .raise (.valueError "Trace object keys must be strings")

def iterTraceEvents (fuel : Nat) : Gen TraceError Value σ Unit := do
  .lift (src.expect '{')
  let next ← .lift src.peek
  if next = some '}' then .lift (src.expect '}') else src.members fuel fuel false
  let next ← .lift src.peek
  if next ≠ none then .raise (.valueError "Trailing content after the JSON trace object")
  else pure ()

end TraceSource

def TraceReader.source (fuel : Nat) : TraceSource TraceReader :=
  ⟨peek fuel, expect fuel, value fuel⟩

/-- What the caller of a generator sees: what was yielded, and whether it ended without an
error. -/
def seen {σ α : Type} (outcome : List Value × Except TraceError (α × σ)) : List Value × Bool :=
  (outcome.1, outcome.2.isOk)

/-- `_iter_trace_events(stream)`, for a stream that returns `file` in reads that are cut so. -/
def iterTraceEvents (fuel : Nat) (file : List UInt8) (cuts : List Nat) :
    List Value × Except TraceError (Unit × TraceReader) :=
  (TraceReader.source fuel).iterTraceEvents fuel (TraceReader.new file cuts)

variable {p : Prop} {depth : Nat}

/-! ### The nesting check -/

/-- The check goes on behind `seg` as it was before. -/
def Passed (depth : Nat) (seg : List Char) : Prop :=
  ∀ rest, depthExceeded depth false false (seg ++ rest) = depthExceeded depth false false rest

/-- The check passes over `seg`, or exceeds its budget there; the latter only when `p` fails. -/
def Settles (p : Prop) (depth : Nat) (seg : List Char) : Prop :=
  Passed depth seg ∨ ¬ p ∧ ∀ rest, depthExceeded depth false false (seg ++ rest) = true

theorem Settles.append {a b : List Char} (ha : Settles p depth a) (hb : Settles p depth b) :
    Settles p depth (a ++ b) := by
  rcases ha with ha | ⟨hp, ha⟩
  · rcases hb with hb | ⟨hp, hb⟩
    · left
      intro rest
      rw [append_assoc, ha, hb]
    · refine .inr ⟨hp, fun rest => ?_⟩
      rw [append_assoc, ha, hb]
  · refine .inr ⟨hp, fun rest => ?_⟩
    rw [append_assoc, ha]

theorem Settles.cons {c : Char} {b : List Char} (hc : Passed depth [c])
    (hb : Settles p depth b) : Settles p depth (c :: b) :=
  Settles.append (.inl hc) hb

theorem passed_char {c : Char} (hquote : c ≠ '"') (hopen : c ≠ '[' ∧ c ≠ '{')
    (hclose : c ≠ ']' ∧ c ≠ '}') : Passed depth [c] := by
  intro rest
  simp [depthExceeded, hquote, hopen, hclose]

theorem settles_chars {seg : List Char} (h : ∀ c ∈ seg, Passed depth [c]) :
    Settles p depth seg := by
  induction seg with
  | nil => exact .inl fun rest => rfl
  | cons c seg ih =>
    exact .cons (h c List.mem_cons_self) (ih fun x hx => h x (List.mem_cons_of_mem c hx))

theorem passed_blank {c : Char} (h : isBlank c) : Passed depth [c] := by
  have hcases : c = ' ' ∨ c = '\t' ∨ c = '\r' ∨ c = '\n' := by
    simpa [isBlank, or_assoc] using h
  apply passed_char
  all_goals rcases hcases with rfl | rfl | rfl | rfl <;> decide

theorem passed_plain {c : Char} (h : isPlain c) : Passed depth [c] := by
  simp only [isPlain, isBoundary, Bool.and_eq_true, Bool.not_eq_true', Bool.or_eq_false_iff,
    decide_eq_true_eq, decide_eq_false_iff_not] at h
  obtain ⟨⟨⟨hboundary, hquote⟩, hbracket⟩, hbrace⟩ := h
  exact passed_char hquote ⟨hbracket, hbrace⟩ ⟨hboundary.1.1.2, hboundary.1.2⟩

theorem settles_blank {w : List Char} (hw : Blank w) : Settles p depth w :=
  settles_chars fun c hc => passed_blank (hw c hc)

theorem depthExceeded_raw {raw : List Char} (h : Raw raw) (rest : List Char) :
    depthExceeded depth true false (raw ++ rest) = depthExceeded depth true false rest := by
  induction h with
  | nil => rfl
  | escape c _ ih => simp [depthExceeded, ih]
  | plain hquote hescape _ ih => simp [depthExceeded, hquote, hescape, ih]

theorem settles_string {raw : List Char} (h : Raw raw) : Settles p depth ('"' :: (raw ++ ['"'])) := by
  left
  intro rest
  simp only [List.cons_append, List.append_assoc, List.nil_append]
  rw [show depthExceeded depth false false ('"' :: (raw ++ '"' :: rest)) =
    depthExceeded depth true false (raw ++ '"' :: rest) by simp [depthExceeded],
    depthExceeded_raw h]
  simp [depthExceeded]

theorem settles_scalar {v : Value} {seg : List Char} (h : Scalar v seg) : Settles p depth seg := by
  cases h with
  | atom haccepts =>
    exact settles_chars fun c hc =>
      passed_plain (@LexState.accepts_plain .start trivial _ haccepts c hc)
  | str hraw hcodes => exact settles_string hraw

theorem settles_listed {α : Type} {Q : α → List Char → Prop} {as : List α} {body : List Char}
    (hQ : ∀ a seg, Q a seg → Settles p depth seg) (h : Listed Q as body) :
    Settles p depth body := by
  have hcomma : Passed depth [','] := passed_char (by decide) (by decide) (by decide)
  induction h with
  | one hseg hw => exact (hQ _ _ hseg).append (settles_blank hw)
  | more hseg hw hw' _ ih =>
    exact (hQ _ _ hseg).append ((settles_blank hw).append (.cons hcomma ((settles_blank hw').append ih)))

theorem settles_entry {Q : Value → List Char → Prop} (hQ : ∀ v seg, Q v seg → Settles p depth seg)
    (m : List Nat × Value) (seg : List Char) (h : Entry Q m seg) : Settles p depth seg := by
  obtain ⟨hraw, -, hw, hw', hseg⟩ := h
  have hcolon : Passed depth [':'] := passed_char (by decide) (by decide) (by decide)
  have hrest := (settles_blank hw).append (.cons hcolon ((settles_blank hw').append (hQ _ _ hseg)))
  simpa using (settles_string hraw).append hrest

theorem enclosed_body {α : Type} {Q : α → List Char → Prop} {opening closing : Char}
    {as : List α} {seg : List Char} (hQ : ∀ a s, Q a s → Settles p depth s)
    (h : Enclosed Q opening closing as seg) :
    ∃ body, seg = opening :: (body ++ [closing]) ∧ Settles p depth body := by
  cases h with
  | @empty w hw => exact ⟨w, rfl, settles_blank hw⟩
  | @items _ w body hw hbody =>
    exact ⟨w ++ body, by simp, (settles_blank hw).append (settles_listed hQ hbody)⟩

theorem depthExceeded_open {c : Char} (hc : c = '[' ∨ c = '{') (rest : List Char) :
    depthExceeded depth false false (c :: rest) =
      if depth + 1 > MAX_TRACE_DEPTH then true else depthExceeded (depth + 1) false false rest := by
  rcases hc with rfl | rfl <;> simp [depthExceeded]

theorem depthExceeded_close {c : Char} (hc : c = ']' ∨ c = '}') (rest : List Char) :
    depthExceeded depth false false (c :: rest) =
      if depth - 1 = 0 then false else depthExceeded (depth - 1) false false rest := by
  rcases hc with rfl | rfl <;> simp [depthExceeded]

theorem settles_brackets {opening closing : Char} (hopen : opening = '[' ∨ opening = '{')
    (hclose : closing = ']' ∨ closing = '}') (hdepth : depth ≠ 0)
    (hroom : p → depth + 1 ≤ MAX_TRACE_DEPTH) {body : List Char}
    (hbody : Settles p (depth + 1) body) : Settles p depth (opening :: (body ++ [closing])) := by
  by_cases hlimit : depth + 1 > MAX_TRACE_DEPTH
  · refine .inr ⟨fun hp => (hroom hp).not_gt hlimit, fun rest => ?_⟩
    rw [cons_append, depthExceeded_open hopen, if_pos hlimit]
  · rcases hbody with hbody | ⟨hp, hbody⟩
    · left
      intro rest
      simp only [cons_append, append_assoc]
      rw [depthExceeded_open hopen, if_neg hlimit, hbody, depthExceeded_close hclose]
      simp [hdepth]
    · refine .inr ⟨hp, fun rest => ?_⟩
      rw [cons_append, append_assoc]
      rw [depthExceeded_open hopen, if_neg hlimit, hbody]

/-- **Inside a container** the check settles at every value. -/
theorem settles_spells {n : Nat} (hdepth : depth ≠ 0) {v : Value} {seg : List Char}
    (h : Spells n v seg) : Settles (depth + n ≤ MAX_TRACE_DEPTH) depth seg := by
  induction n generalizing depth v seg with
  | zero => exact settles_scalar h
  | succ n ih =>
    have hinner : ∀ v seg, Spells n v seg →
        Settles (depth + (n + 1) ≤ MAX_TRACE_DEPTH) (depth + 1) seg := fun v seg hv => by
      have hv := ih (Nat.succ_ne_zero depth) hv
      rwa [Nat.succ_add_eq_add_succ] at hv
    have hroom : depth + (n + 1) ≤ MAX_TRACE_DEPTH → depth + 1 ≤ MAX_TRACE_DEPTH := by omega
    rcases h with h | ⟨items, rfl, h⟩ | ⟨members, rfl, h⟩
    · exact settles_scalar h
    · obtain ⟨body, rfl, hbody⟩ := enclosed_body hinner h
      exact settles_brackets (.inl rfl) (.inl rfl) hdepth hroom hbody
    · obtain ⟨body, rfl, hbody⟩ := enclosed_body (settles_entry hinner) h
      exact settles_brackets (.inr rfl) (.inr rfl) hdepth hroom hbody

theorem checkValueDepth_brackets {opening closing : Char} (hopen : opening = '[' ∨ opening = '{')
    (hclose : closing = ']' ∨ closing = '}') {body : List Char} (hbody : Settles p 1 body) :
    (∀ rest, checkValueDepth (opening :: (body ++ [closing]) ++ rest) = false) ∨
    ¬ p ∧ ∀ rest, checkValueDepth (opening :: (body ++ [closing]) ++ rest) = true := by
  have hcheck : ∀ rest, checkValueDepth (opening :: (body ++ [closing]) ++ rest) =
      depthExceeded 1 false false (body ++ (closing :: rest)) := fun rest => by
    simp only [cons_append, append_assoc, checkValueDepth,
      List.head?_cons, if_pos hopen]
    rw [depthExceeded_open hopen]
    exact if_neg (by decide)
  rcases hbody with hbody | ⟨hp, hbody⟩
  · left
    intro rest
    rw [hcheck, hbody, depthExceeded_close hclose]
    rfl
  · exact .inr ⟨hp, fun rest => by rw [hcheck, hbody]⟩

/-- **The check of a value** does not depend on what stands behind it, and a value within the
budget passes. -/
theorem checkValueDepth_spells {n : Nat} {v : Value} {seg : List Char} (h : Spells n v seg) :
    (∀ rest, checkValueDepth (seg ++ rest) = false) ∨
    ¬ n ≤ MAX_TRACE_DEPTH ∧ ∀ rest, checkValueDepth (seg ++ rest) = true := by
  have hscalar : Scalar v seg → ∀ rest, checkValueDepth (seg ++ rest) = false := fun h rest => by
    obtain ⟨c, s, rfl, -, hbracket, hbrace⟩ := scalar_head h
    simp [checkValueDepth, hbracket, hbrace]
  cases n with
  | zero => exact .inl (hscalar h)
  | succ n =>
    have hinner : ∀ v seg, Spells n v seg → Settles (n + 1 ≤ MAX_TRACE_DEPTH) 1 seg :=
      fun v seg hv => by
        have hv := settles_spells Nat.one_ne_zero hv
        rwa [Nat.add_comm] at hv
    rcases h with h | ⟨items, rfl, h⟩ | ⟨members, rfl, h⟩
    · exact .inl (hscalar h)
    · obtain ⟨body, rfl, hbody⟩ := enclosed_body hinner h
      exact checkValueDepth_brackets (.inl rfl) (.inl rfl) hbody
    · obtain ⟨body, rfl, hbody⟩ := enclosed_body (settles_entry hinner) h
      exact checkValueDepth_brackets (.inr rfl) (.inr rfl) hbody

theorem depthExceeded_append {quoted escaped : Bool} {text : List Char}
    (h : depthExceeded depth quoted escaped text = true) (rest : List Char) :
    depthExceeded depth quoted escaped (text ++ rest) = true := by
  fun_induction depthExceeded depth quoted escaped text <;> simp_all [depthExceeded]

theorem checkValueDepth_append {text : List Char} (h : checkValueDepth text = true)
    (rest : List Char) : checkValueDepth (text ++ rest) = true := by
  rcases text with - | ⟨c, text⟩
  · cases h
  · simp only [checkValueDepth, cons_append, List.head?_cons] at h ⊢
    split_ifs at h ⊢ with hopen
    exact depthExceeded_append h rest

/-! ### A text that is there as a whole -/

namespace TraceText

def peek (t : List Char) : Except TraceError (Option Char × List Char) :=
  .ok ((skipBlanks t).head?, skipBlanks t)

def expect (character : Char) (t : List Char) : Except TraceError (Unit × List Char) :=
  if (skipBlanks t).head? = some character then .ok ((), (skipBlanks t).tail)
  else .error (.valueError "Invalid JSON trace container")

def valueAt (t : List Char) : Except TraceError (Value × List Char) :=
  if checkValueDepth t then .error (.valueError "Trace value exceeds the nesting budget")
  else
    match rawDecode t with
    | none => .error (.valueError "Invalid or truncated JSON trace value")
    | some (v, rest) =>
      if rest.head?.all isBoundary then
        if byteLength (t.take (t.length - rest.length)) > MAX_TRACE_VALUE_BYTES then
          .error (.valueError "Trace value exceeds the 1 MiB budget")
        else .ok (v, rest)
      else .error (.valueError "Invalid JSON value boundary")

def value (t : List Char) : Except TraceError (Value × List Char) := valueAt (skipBlanks t)

def source : TraceSource (List Char) := ⟨peek, expect, value⟩

variable {v : Value} {t w seg rest : List Char}

theorem all_isBoundary : rest.head?.all isBoundary = true ↔ Delimited rest := by
  cases rest <;> simp [Delimited]

theorem take_seg (seg rest : List Char) :
    (seg ++ rest).take ((seg ++ rest).length - rest.length) = seg := by
  rw [length_append, Nat.add_sub_cancel, take_left]

/-- A value is taken exactly when it is written there, ends there and keeps to the budgets. -/
theorem valueAt_eq_ok_iff : valueAt t = .ok (v, rest) ↔
    ∃ seg, t = seg ++ rest ∧ (∃ n, Spells n v seg) ∧ Delimited rest ∧
      byteLength seg ≤ MAX_TRACE_VALUE_BYTES ∧ checkValueDepth t = false := by
  constructor
  · intro h
    unfold valueAt at h
    split_ifs at h with hdepth
    rcases hdecode : rawDecode t with - | ⟨v', rest'⟩
    · rw [hdecode] at h
      cases h
    · rw [hdecode] at h
      simp only at h
      split_ifs at h with hboundary hlength
      cases h
      obtain ⟨seg, rfl, hseg⟩ := rawDecode_sound hdecode
      rw [take_seg] at hlength
      exact ⟨seg, rfl, ⟨_, hseg⟩, all_isBoundary.mp hboundary, Nat.not_lt.mp hlength,
        by simpa using hdepth⟩
  · rintro ⟨seg, rfl, ⟨n, hseg⟩, hrest, hlength, hdepth⟩
    unfold valueAt
    rw [hdepth, rawDecode_complete hseg hrest]
    simp only [all_isBoundary.mpr hrest, take_seg]
    exact if_neg (Nat.not_lt.mpr hlength)

theorem value_spelled (hw : Blank w) {n : Nat} (hseg : Spells n v seg) (hn : n ≤ MAX_TRACE_DEPTH)
    (hlength : byteLength seg ≤ MAX_TRACE_VALUE_BYTES) (hrest : Delimited rest) :
    source.value (w ++ (seg ++ rest)) = .ok (v, rest) := by
  have hdepth : checkValueDepth (seg ++ rest) = false := by
    rcases checkValueDepth_spells hseg with h | ⟨h, -⟩
    · exact h rest
    · exact absurd hn h
  show valueAt (skipBlanks _) = _
  rw [skipBlanks_append hw, (spells_solid n).skipBlanks hseg]
  exact valueAt_eq_ok_iff.mpr ⟨seg, rfl, ⟨n, hseg⟩, hrest, hlength, hdepth⟩

theorem peek_cons (hw : Blank w) {c : Char} (hc : isBlank c = false) :
    source.peek (w ++ c :: rest) = .ok (some c, c :: rest) := by
  show peek _ = _
  rw [peek, skipBlanks_append hw, skipBlanks_cons hc]
  rfl

theorem expect_cons (hw : Blank w) {c : Char} (hc : isBlank c = false) :
    source.expect c (w ++ c :: rest) = .ok ((), rest) := by
  show expect c _ = _
  rw [expect, skipBlanks_append hw, skipBlanks_cons hc]
  exact if_pos rfl

theorem expect_here {c : Char} (hc : isBlank c = false) :
    source.expect c (c :: rest) = .ok ((), rest) := by
  show expect c _ = _
  rw [expect, skipBlanks_cons hc]
  exact if_pos rfl

end TraceText

/-! ### Trace documents -/

def Affordable (v : Value) (seg : List Char) : Prop :=
  Spells MAX_TRACE_DEPTH v seg ∧ byteLength seg ≤ MAX_TRACE_VALUE_BYTES

/-- What stands under a key: the events, each within the budgets, or one value within them. -/
def MemberText (key : List Nat) (v : Value) (seg : List Char) : Prop :=
  if key = traceEventsKey then ∃ events, v = .arr events ∧ Enclosed Affordable '[' ']' events seg
  else Affordable v seg

/-- A key of the trace object with its value. -/
inductive TraceEntry : List Nat × Value → List Char → Prop where
  | mk {raw w w' seg : List Char} {key : List Nat} {v : Value} : Raw raw →
    codesOf raw = some key → byteLength ('"' :: (raw ++ ['"'])) ≤ MAX_TRACE_VALUE_BYTES →
    Blank w → Blank w' → MemberText key v seg →
    TraceEntry (key, v) ('"' :: (raw ++ '"' :: (w ++ ':' :: (w' ++ seg))))

/-- A JSON object with at most one `traceEvents`, an array, and with all its parts within the
budgets. -/
structure TraceDocument (members : List (List Nat × Value)) (text : List Char) : Prop where
  once : (members.filter fun m => m.1 = traceEventsKey).length ≤ 1
  written : ∃ w seg w', Blank w ∧ Blank w' ∧ text = w ++ (seg ++ w') ∧
    Enclosed TraceEntry '{' '}' members seg

/-- `document["traceEvents"]`, or nothing where there is no such array. -/
def eventsOf (members : List (List Nat × Value)) : List Value :=
  match members.lookup traceEventsKey with
  | some (.arr events) => events
  | _ => []

theorem Affordable.solid : Solid Affordable := fun _ _ h => spells_solid _ h.1

theorem MemberText.spells {key : List Nat} {v : Value} {seg : List Char}
    (h : MemberText key v seg) : Spells (MAX_TRACE_DEPTH + 1) v seg := by
  unfold MemberText at h
  split_ifs at h
  · obtain ⟨events, rfl, h⟩ := h
    exact .inr (.inl ⟨events, rfl, h.imp (Nat.le_succ _) fun _ _ _ he => he.1⟩)
  · exact h.1.imp (.inl (Nat.le_succ _))

theorem TraceEntry.entry {m : List Nat × Value} {seg : List Char} (h : TraceEntry m seg) :
    Entry (Spells (MAX_TRACE_DEPTH + 1)) m seg := by
  obtain ⟨hraw, hcodes, -, hw, hw', hseg⟩ := h
  exact .mk hraw hcodes hw hw' hseg.spells

theorem TraceEntry.solid : Solid TraceEntry := fun _ _ h => entry_solid _ h.entry

theorem TraceDocument.loads {members : List (List Nat × Value)} {text : List Char}
    (h : TraceDocument members text) : loads text = some (.obj members) := by
  obtain ⟨w, seg, w', hw, hw', rfl, hseg⟩ := h.written
  have hspells : Spells (MAX_TRACE_DEPTH + 2) (.obj members) seg :=
    .inr (.inr ⟨members, rfl, hseg.imp (Nat.le_succ _) fun _ _ _ hm => hm.entry⟩)
  exact loads_complete hw hspells hw'

namespace TraceText

variable {w rest : List Char}

theorem delimited_close (hw : Blank w) {c : Char} (hc : isBoundary c) (rest : List Char) :
    Delimited (w ++ c :: rest) := delimited_blank hw (delimited_cons.mpr hc)

/-- **The loop over the events** yields one after the other. -/
theorem events_listed {events : List Value} {body : List Char} (h : Listed Affordable events body)
    (hw : Blank w) {fuel : Nat} (hfuel : events.length ≤ fuel) (rest : List Char) :
    source.events fuel (w ++ (body ++ ']' :: rest)) = (events, .ok ((), rest)) := by
  induction h generalizing w fuel with
  | @one v seg w' hseg hw' =>
    obtain ⟨fuel, rfl⟩ : ∃ n, fuel = n + 1 := ⟨fuel - 1, by simp at hfuel; omega⟩
    have hvalue : source.value (w ++ (seg ++ (w' ++ ']' :: rest))) = .ok (v, w' ++ ']' :: rest) :=
      value_spelled hw hseg.1 le_rfl hseg.2 (delimited_close hw' (by decide) rest)
    have hpeek : source.peek (w' ++ ']' :: rest) = .ok (some ']', ']' :: rest) :=
      peek_cons hw' (by decide)
    rw [append_assoc, TraceSource.events, Gen.lift_bind hvalue, Gen.bind_ok rfl,
      Gen.lift_bind hpeek]
    show ([v] ++ [], source.expect ']' (']' :: rest)) = _
    rfl
  | @more v events seg w' w'' body hseg hw' hw'' hbody ih =>
    rw [length_cons] at hfuel
    obtain ⟨fuel, rfl⟩ : ∃ n, fuel = n + 1 := ⟨fuel - 1, by omega⟩
    simp only [append_assoc, cons_append]
    generalize htail : w'' ++ (body ++ ']' :: rest) = tail
    have hvalue : source.value (w ++ (seg ++ (w' ++ ',' :: tail))) = .ok (v, w' ++ ',' :: tail) :=
      value_spelled hw hseg.1 le_rfl hseg.2 (delimited_close hw' (by decide) _)
    have hpeek : source.peek (w' ++ ',' :: tail) = .ok (some ',', ',' :: tail) :=
      peek_cons hw' (by decide)
    have hexpect : source.expect ',' (',' :: tail) = .ok ((), tail) :=
      expect_here (by decide)
    have hnext : source.events fuel tail = (events, .ok ((), rest)) :=
      htail ▸ ih hw'' (by omega)
    rw [TraceSource.events, Gen.lift_bind hvalue, Gen.bind_ok rfl, Gen.lift_bind hpeek,
      if_neg (by decide), Gen.lift_bind hexpect, hnext]
    rfl

def memberEvents (m : List Nat × Value) : List Value :=
  if m.1 = traceEventsKey then eventsOf [m] else []

theorem member_text {key : List Nat} {v : Value} {seg : List Char} (h : MemberText key v seg)
    (hw : Blank w) {seenEvents : Bool} (hseen : key = traceEventsKey → seenEvents = false)
    {fuel : Nat} (hfuel : seg.length ≤ fuel) (hrest : Delimited rest) :
    source.member fuel key seenEvents (w ++ (seg ++ rest)) =
      (memberEvents (key, v), .ok (seenEvents || decide (key = traceEventsKey), rest)) := by
  unfold MemberText at h
  unfold TraceSource.member memberEvents
  by_cases hkey : key = traceEventsKey
  · simp only [hkey, if_true] at h ⊢
    obtain ⟨events, rfl, henclosed⟩ := h
    have hevents : eventsOf [(traceEventsKey, .arr events)] = events := by
      simp [eventsOf]
    simp only [hseen hkey, Bool.false_eq_true, if_false, hevents]
    cases henclosed with
    | @empty w' hw' =>
      have hopen : source.expect '[' (w ++ ('[' :: (w' ++ [']']) ++ rest)) =
          .ok ((), w' ++ ']' :: rest) := by
        have h := @expect_cons w (w' ++ ']' :: rest) hw '[' (by decide)
        simpa using h
      have hpeek : source.peek (w' ++ ']' :: rest) = .ok (some ']', ']' :: rest) :=
        peek_cons hw' (by decide)
      have hclose : source.expect ']' (']' :: rest) = .ok ((), rest) := expect_here (by decide)
      rw [Gen.lift_bind hopen, Gen.lift_bind hpeek, if_pos rfl, Gen.lift_bind hclose]
      simp [Gen.pure_apply]
    | @items _ w' body hw' hbody =>
      have hlength := hbody.length_le Affordable.solid
      simp only [length_cons, length_append] at hfuel
      have hloop := events_listed hbody (w := []) (forall_mem_nil _) (show events.length ≤ fuel by omega) rest
      obtain ⟨c, body, rfl, hc⟩ := hbody.starts Affordable.solid
      have hopen : source.expect '[' (w ++ ('[' :: (w' ++ (c :: body ++ [']'])) ++ rest)) =
          .ok ((), w' ++ c :: (body ++ ']' :: rest)) := by
        have h := @expect_cons w (w' ++ c :: (body ++ ']' :: rest)) hw '[' (by decide)
        simpa using h
      have hpeek : source.peek (w' ++ c :: (body ++ ']' :: rest)) =
          .ok (some c, c :: (body ++ ']' :: rest)) := peek_cons hw' (not_isBlank hc)
      have hne : some c ≠ some ']' := by
        rintro ⟨⟩
        cases hc
      rw [Gen.lift_bind hopen, Gen.lift_bind hpeek, if_neg hne]
      have hloop' : (source.events fuel (c :: (body ++ ']' :: rest))).2 = .ok ((), rest) :=
        congrArg Prod.snd hloop
      rw [Gen.bind_ok hloop']
      rw [nil_append, cons_append] at hloop
      rw [hloop]
      simp [Gen.pure_apply]
  · simp only [hkey, if_false] at h ⊢
    have hvalue : source.value (w ++ (seg ++ rest)) = .ok (v, rest) :=
      value_spelled hw h.1 le_rfl h.2 hrest
    rw [Gen.lift_bind hvalue]
    simp [Gen.pure_apply]

theorem eventsOf_cons (m : List Nat × Value) {members : List (List Nat × Value)}
    (h : m.1 = traceEventsKey → members.lookup traceEventsKey = none) :
    eventsOf (m :: members) = memberEvents m ++ eventsOf members := by
  obtain ⟨key, v⟩ := m
  by_cases hkey : key = traceEventsKey
  · have hnone : eventsOf members = [] := by rw [eventsOf, h hkey]
    subst hkey
    rw [hnone]
    simp [memberEvents, eventsOf]
  · have hne : (traceEventsKey == key) = false := beq_false_of_ne fun h => hkey h.symm
    simp [memberEvents, hkey, eventsOf, lookup_cons, hne]

/-- **One turn of the loop over the keys**, up to the comma or the closing brace. -/
theorem members_entry {m : List Nat × Value} {seg : List Char} (h : TraceEntry m seg)
    (hw : Blank w) {seenEvents : Bool} (hseen : m.1 = traceEventsKey → seenEvents = false)
    {fuel : Nat} (hfuel : seg.length ≤ fuel) (turns : Nat) (hrest : Delimited rest) :
    source.members fuel (turns + 1) seenEvents (w ++ (seg ++ rest)) =
      ((.lift source.peek >>= fun next =>
        if next = some '}' then .lift (source.expect '}')
        else do
          .lift (source.expect ',')
          source.members fuel turns (seenEvents || decide (m.1 = traceEventsKey)) :
        Gen TraceError Value (List Char) Unit) rest).map (memberEvents m ++ ·) id := by
  obtain ⟨hraw, hcodes, hlength, hw₁, hw₂, hseg⟩ := h
  rename_i raw w₁ w₂ seg key v
  simp only [length_cons, length_append] at hfuel
  have hkey : source.value (w ++ ('"' :: (raw ++ '"' :: (w₁ ++ ':' :: (w₂ ++ seg))) ++ rest)) =
      .ok (.str key, w₁ ++ ':' :: (w₂ ++ (seg ++ rest))) := by
    have hspells : Spells 0 (.str key) ('"' :: (raw ++ ['"'])) := .str hraw hcodes
    have h := value_spelled hw hspells (Nat.zero_le _) hlength
      (delimited_close hw₁ (show isBoundary ':' by decide) (w₂ ++ (seg ++ rest)))
    simpa using h
  have hcolon : source.expect ':' (w₁ ++ ':' :: (w₂ ++ (seg ++ rest))) =
      .ok ((), w₂ ++ (seg ++ rest)) := expect_cons hw₁ (by decide)
  have hmember := member_text hseg hw₂ hseen (show seg.length ≤ fuel by omega) hrest
  rw [TraceSource.members, Gen.lift_bind hkey]
  simp only
  rw [Gen.lift_bind hcolon, Gen.bind_ok (congrArg Prod.snd hmember), hmember]
  rfl

/-- **The loop over the keys** yields the events, wherever they stand. -/
theorem members_listed {members : List (List Nat × Value)} {body : List Char}
    (h : Listed TraceEntry members body) (hw : Blank w) {seenEvents : Bool}
    (honce : (members.filter fun m => m.1 = traceEventsKey).length +
      (if seenEvents then 1 else 0) ≤ 1) {fuel : Nat} (hfuel : body.length ≤ fuel) {turns : Nat}
    (hturns : members.length ≤ turns) (rest : List Char) :
    source.members fuel turns seenEvents (w ++ (body ++ '}' :: rest)) =
      (eventsOf members, .ok ((), rest)) := by
  induction h generalizing w seenEvents turns with
  | @one m seg w' hseg hw' =>
    obtain ⟨turns, rfl⟩ : ∃ n, turns = n + 1 := ⟨turns - 1, by simp at hturns; omega⟩
    have hseen : m.1 = traceEventsKey → seenEvents = false := fun hkey => by
      cases seenEvents
      · rfl
      · simp [hkey] at honce
    rw [length_append] at hfuel
    have hpeek : source.peek (w' ++ '}' :: rest) = .ok (some '}', '}' :: rest) :=
      peek_cons hw' (by decide)
    have hexpect : source.expect '}' ('}' :: rest) = .ok ((), rest) := expect_here (by decide)
    rw [append_assoc, members_entry hseg hw hseen (by omega) turns
      (delimited_close hw' (by decide) rest), Gen.lift_bind hpeek, eventsOf_cons m (fun _ => rfl)]
    show (memberEvents m ++ [], source.expect '}' ('}' :: rest)) = _
    rfl
  | @more m members seg w' w'' body hseg hw' hw'' hbody ih =>
    rw [length_cons] at hturns
    obtain ⟨turns, rfl⟩ : ∃ n, turns = n + 1 := ⟨turns - 1, by omega⟩
    have hseen : m.1 = traceEventsKey → seenEvents = false := fun hkey => by
      cases seenEvents
      · rfl
      · simp [hkey] at honce
    have honce' : (members.filter fun m => m.1 = traceEventsKey).length +
        (if seenEvents || decide (m.1 = traceEventsKey) then 1 else 0) ≤ 1 := by
      by_cases hkey : m.1 = traceEventsKey
      · simpa [hkey, hseen hkey] using honce
      · simpa [hkey] using honce
    have hnone : m.1 = traceEventsKey → members.lookup traceEventsKey = none := fun hkey => by
      simp only [hkey, decide_true, Bool.or_true, if_true] at honce'
      have hnil : members.filter (fun m => m.1 = traceEventsKey) = [] :=
        length_eq_zero_iff.mp (by omega)
      rw [lookup_eq_none_iff]
      intro m' hm'
      have hne := filter_eq_nil_iff.mp hnil m' hm'
      exact bne_iff_ne.mpr fun hkey : traceEventsKey = m'.1 => hne (by simp [← hkey])
    simp only [length_append, length_cons] at hfuel
    simp only [append_assoc, cons_append]
    have hnext := ih hw'' honce' (show body.length ≤ fuel by omega) (show members.length ≤ turns by omega)
    generalize w'' ++ (body ++ '}' :: rest) = tail at hnext ⊢
    have hpeek : source.peek (w' ++ ',' :: tail) = .ok (some ',', ',' :: tail) :=
      peek_cons hw' (by decide)
    have hexpect : source.expect ',' (',' :: tail) = .ok ((), tail) := expect_here (by decide)
    rw [members_entry hseg hw hseen (by omega) turns (delimited_close hw' (by decide) tail),
      Gen.lift_bind hpeek, if_neg (by decide), Gen.lift_bind hexpect, hnext, eventsOf_cons m hnone]
    rfl

/-- **A trace document** yields its events, and nothing is wrong with it. -/
theorem iterTraceEvents_document {members : List (List Nat × Value)} {text : List Char}
    (h : TraceDocument members text) {fuel : Nat} (hfuel : text.length ≤ fuel) :
    (source.iterTraceEvents fuel text).1 = eventsOf members ∧
      ∃ rest, (source.iterTraceEvents fuel text).2 = .ok ((), rest) := by
  obtain ⟨w, seg, w', hw, hw', rfl, hseg⟩ := h.written
  have hend : source.peek w' = .ok (none, []) := by
    have hskip : skipBlanks w' = [] := by simpa [skipBlanks, Blank] using hw'
    show peek w' = _
    rw [peek, hskip]
    rfl
  cases hseg with
  | @empty w₁ hw₁ =>
    have hopen : source.expect '{' (w ++ ('{' :: (w₁ ++ ['}']) ++ w')) = .ok ((), w₁ ++ '}' :: w') := by
      have h := @expect_cons w (w₁ ++ '}' :: w') hw '{' (by decide)
      simpa using h
    have hpeek : source.peek (w₁ ++ '}' :: w') = .ok (some '}', '}' :: w') :=
      peek_cons hw₁ (by decide)
    have hclose : source.expect '}' ('}' :: w') = .ok ((), w') := expect_here (by decide)
    rw [TraceSource.iterTraceEvents, Gen.lift_bind hopen, Gen.lift_bind hpeek, if_pos rfl,
      Gen.lift_bind hclose]
    beta_reduce
    rw [Gen.lift_bind hend]
    exact ⟨rfl, [], rfl⟩
  | @items _ w₁ body hw₁ hbody =>
    have hturns := hbody.length_le TraceEntry.solid
    simp only [length_cons, length_append] at hfuel
    have honce : (members.filter fun m => m.1 = traceEventsKey).length +
        (if false then 1 else 0) ≤ 1 := by simpa using h.once
    have hloop := members_listed hbody (w := []) (forall_mem_nil _) honce
      (show body.length ≤ fuel by omega) (show members.length ≤ fuel by omega) w'
    obtain ⟨c, body, rfl, hc⟩ := hbody.starts TraceEntry.solid
    have hopen : source.expect '{' (w ++ ('{' :: (w₁ ++ (c :: body ++ ['}'])) ++ w')) =
        .ok ((), w₁ ++ c :: (body ++ '}' :: w')) := by
      have h := @expect_cons w (w₁ ++ c :: (body ++ '}' :: w')) hw '{' (by decide)
      simpa using h
    have hpeek : source.peek (w₁ ++ c :: (body ++ '}' :: w')) =
        .ok (some c, c :: (body ++ '}' :: w')) := peek_cons hw₁ (not_isBlank hc)
    have hne : some c ≠ some '}' := by
      rintro ⟨⟩
      cases hc
    rw [nil_append, cons_append] at hloop
    rw [TraceSource.iterTraceEvents, Gen.lift_bind hopen, Gen.lift_bind hpeek, if_neg hne,
      Gen.bind_ok (congrArg Prod.snd hloop), hloop]
    beta_reduce
    rw [Gen.lift_bind hend]
    exact ⟨append_nil _, [], rfl⟩

end TraceText

end Hqsb.Console
