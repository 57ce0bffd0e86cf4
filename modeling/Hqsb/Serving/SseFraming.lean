/-
Hqsb/Serving/SseFraming.lean

SSE framing is lossless.

What a stream is made of is a list of items: data frames, heartbeats and the terminal marker.
Each is one line (`SseItem.line`), and parsing that line gives the frame of the item back
(`parseEvent_line`).  The rest is the reader of `Lib.Framing`: terminated frames are read back one
by one, and the reads may be cut anywhere.
-/
import Hqsb.Serving.Sse

namespace Hqsb

open Lib Lib.Framing List

variable {J : Type}

/-- What the writer puts on the wire. -/
inductive SseItem (J : Type) where
  | data (payload : J)
  | heartbeat (text : List Char)
  | terminal

namespace SseItem

variable (codec : JsonCodec J) (dataPrefix : List Char)

def line : SseItem J → List Char
  | data payload => dataPrefix ++ codec.dumps payload
  | heartbeat text => ": ".toList ++ text
  | terminal => dataPrefix ++ defaultTerminalMarker

def encode : SseItem J → List UInt8
  | data payload => encodeDataFrame codec dataPrefix payload
  | heartbeat text => encodeHeartbeat text
  | terminal => encodeTerminal dataPrefix

def frame (item : SseItem J) (index : Nat) : SseFrame J :=
  let raw := Utf8.encode (item.line codec dataPrefix)
  match item with
  | data payload => ⟨index, raw, codec.dumps payload, false, false, some payload, ""⟩
  | heartbeat _ => ⟨index, raw, [], false, true, none, ""⟩
  | terminal => ⟨index, raw, defaultTerminalMarker, true, false, none, ""⟩

/-- The frames of some items, counted from `index`. -/
def framesFrom (items : List (SseItem J)) (index : Nat) : List (SseFrame J) :=
  (items.zipIdx index).map fun (item, i) => item.frame codec dataPrefix i

/-- The payload is an object that JSON carries, and the comment is one line. -/
def Plain : SseItem J → Prop
  | data payload => codec.Carries payload
  | heartbeat text => '\n' ∉ text
  | terminal => True

end SseItem

/-- The data field of SSE, with or without the optional space. -/
def IsDataField (dataPrefix : List Char) : Prop :=
  dataPrefix = "data: ".toList ∨ dataPrefix = "data:".toList

/-! ### One line -/

section Line

variable {codec : JsonCodec J} {dataPrefix : List Char}

/-- Text that begins with something visible is not stripped at its beginning. -/
theorem head?_strip {c : Char} {s : List Char} (hc : isSpace c = false) :
    (strip (c :: s)).head? = some c := by
  have hdrop : (c :: s).dropWhile isSpace = c :: s := by
    rw [dropWhile_cons, hc]
    rfl
  rw [strip, hdrop, reverse_cons]
  -- what is stripped at the end stops before the first character
  have hkeep : ∀ l : List Char,
      (((l ++ [c]).dropWhile isSpace).reverse).head? = some c := by
    intro l
    induction l with
    | nil =>
      rw [nil_append, dropWhile_cons, hc]
      rfl
    | cons a l ih =>
      rw [cons_append, dropWhile_cons]
      by_cases ha : isSpace a = true
      · rw [if_pos ha]
        exact ih
      · rw [if_neg ha, reverse_cons, reverse_append]
        rfl
  exact hkeep s.reverse

theorem strip_marker : strip defaultTerminalMarker = defaultTerminalMarker := by decide

theorem line_data (hfield : IsDataField dataPrefix) {value : List Char}
    (hvalue : value.head? ≠ some ' ') (errors : List SseError) :
    EventLines.line ⟨[], false, errors⟩ (dataPrefix ++ value) = ⟨[value], false, errors⟩ := by
  have hspace : ¬ " ".toList <+: value := by
    rintro ⟨t, rfl⟩
    exact hvalue rfl
  rcases hfield with rfl | rfl
  · rfl
  · show (⟨[if " ".toList <+: value then value.drop 1 else value], false, errors⟩ : EventLines) = _
    rw [if_neg hspace]

theorem splitOn_line {line : List Char} (h : '\n' ∉ line) :
    (Utf8.decode (Utf8.encode line)).splitOn '\n' = [line] := by
  rw [Utf8.decode_encode]
  refine splitOnP_eq_singleton fun c hc => ?_
  exact beq_eq_false_iff_ne.mpr fun he => h (he ▸ hc)

section

variable (hfield : IsDataField dataPrefix)

include hfield

theorem lineFeed_not_mem_field : '\n' ∉ dataPrefix := by
  rcases hfield with rfl | rfl <;> decide

theorem lineFeed_not_mem_line {item : SseItem J}
    (hitem : item.Plain codec) : '\n' ∉ item.line codec dataPrefix := by
  cases item with
  | data payload =>
    exact not_mem_append (lineFeed_not_mem_field hfield) hitem.one_line
  | heartbeat text => exact not_mem_append (by decide) hitem
  | terminal => exact not_mem_append (lineFeed_not_mem_field hfield) (by decide)

/-- **One frame**: the line of an item is parsed to the frame of the item. -/
theorem parseEvent_line {item : SseItem J}
    (hitem : item.Plain codec) (p : SseParser J) :
    p.parseEvent codec defaultTerminalMarker (Utf8.encode (item.line codec dataPrefix)) =
      ⟨p.index + 1, p.frames ++ [item.frame codec dataPrefix p.index], p.errors⟩ := by
  have hsplit := splitOn_line (lineFeed_not_mem_line hfield hitem)
  rw [SseParser.parseEvent, hsplit, foldl_cons, foldl_nil]
  cases item with
  | data payload =>
    obtain ⟨c, s, hdumps, rfl⟩ : ∃ c s, codec.dumps payload = c :: s ∧ c = '{' := by
      rcases hd : codec.dumps payload with - | ⟨c, s⟩
      · have := hitem.brace
        rw [hd] at this
        cases this
      · have := hitem.brace
        rw [hd] at this
        exact ⟨c, s, rfl, Option.some.inj this⟩
    have hhead : (codec.dumps payload).head? ≠ some ' ' := by
      rw [hdumps, List.head?_cons]
      decide
    have hterminal : strip (codec.dumps payload) ≠ defaultTerminalMarker := by
      intro he
      have hfirst := head?_strip (s := s) (show isSpace '{' = false by decide)
      rw [← hdumps, he] at hfirst
      cases hfirst
    have hne : codec.dumps payload ≠ [] := by
      rw [hdumps]
      exact cons_ne_nil _ _
    simp only [SseItem.line, line_data hfield hhead, intercalate_singleton,
      hterminal, decide_false, hne, ne_eq, not_false_eq_true, Bool.false_eq_true, and_self,
      if_true, hitem.loads_dumps, SseItem.frame, Bool.false_and]
  | heartbeat text =>
    rfl
  | terminal =>
    have hhead : defaultTerminalMarker.head? ≠ some ' ' := by decide
    simp only [SseItem.line, line_data hfield hhead, intercalate_singleton, strip_marker,
      decide_true, not_true_eq_false, and_false, if_false, SseItem.frame, Bool.false_and]

theorem isBlank_line (item : SseItem J) :
    isBlank (Utf8.encode (item.line codec dataPrefix)) = false := by
  cases item with
  | heartbeat text => rfl
  | data payload => rcases hfield with rfl | rfl <;> rfl
  | terminal => rcases hfield with rfl | rfl <;> rfl

end

end Line

/-! ### Streams -/

section Stream

variable {codec : JsonCodec J} {dataPrefix : List Char}

theorem encode_item (item : SseItem J) : item.encode codec dataPrefix =
      Utf8.encode (item.line codec dataPrefix) ++ frameSeparator := by
  cases item <;> exact Utf8.encode_append _ _

/-- **The run of the parser** over the lines of some items. -/
theorem foldl_consume (hfield : IsDataField dataPrefix) {items : List (SseItem J)}
    (hitems : ∀ item ∈ items, item.Plain codec) (p : SseParser J) :
    (items.map fun item => Utf8.encode (item.line codec dataPrefix)).foldl
        (SseParser.consume codec defaultTerminalMarker) p =
      ⟨p.index + items.length, p.frames ++ SseItem.framesFrom codec dataPrefix items p.index,
        p.errors⟩ := by
  induction items generalizing p with
  | nil => simp [SseItem.framesFrom]
  | cons item items ih =>
    have hconsume := parseEvent_line hfield (hitems item mem_cons_self) p
    rw [map_cons, foldl_cons, SseParser.consume, isBlank_line hfield item,
      if_neg Bool.false_ne_true, hconsume, ih fun i hi => hitems i (.tail _ hi)]
    simp only [SseItem.framesFrom, zipIdx_cons, map_cons, append_assoc,
      singleton_append, length_cons, SseParser.mk.injEq, and_true]
    omega

theorem feedAll_eq_feed (marker : List Char) (chunks : List (List UInt8)) :
    SseReassembler.feedAll codec marker chunks =
      Framing.feed frameSeparator (SseParser.consume codec marker) SseReassembler.init
        chunks.flatten :=
  Framing.feedAll_eq (cons_ne_nil _ _) _ chunks

/-- The stream of some items, however it was read. -/
theorem feedAll_items (hfield : IsDataField dataPrefix) {items : List (SseItem J)}
    (hitems : ∀ item ∈ items, item.Plain codec) {chunks : List (List UInt8)}
    (hchunks : chunks.flatten = items.flatMap (SseItem.encode codec dataPrefix)) :
    SseReassembler.feedAll codec defaultTerminalMarker chunks =
      ⟨⟨items.length, SseItem.framesFrom codec dataPrefix items 0, []⟩, []⟩ := by
  have hbytes : items.flatMap (SseItem.encode codec dataPrefix) =
      (items.map fun item => Utf8.encode (item.line codec dataPrefix)).flatMap
        fun raw => raw ++ frameSeparator := by
    rw [flatMap_map]
    exact congrArg items.flatMap (funext encode_item)
  have hframes : ∀ raw ∈ items.map fun item => Utf8.encode (item.line codec dataPrefix),
      (10 : UInt8) ∉ raw := by
    intro raw hraw hmem
    obtain ⟨item, hitem, rfl⟩ := mem_map.mp hraw
    exact lineFeed_not_mem_line hfield (hitems item hitem) (Utf8.mem_encode_lineFeed hmem)
  rw [feedAll_eq_feed, hchunks, hbytes]
  refine (Framing.feed_frames _ _ hframes).trans ?_
  rw [foldl_consume hfield hitems]
  rw [Nat.zero_add, nil_append]

end Stream

/-- **SSE framing is lossless under any chunking.**  Whatever the reads are, the items of a stream
are read back in order, each as its own frame, with no error and nothing left over; and of any
bytes at all, frames, errors and what is left over do not depend on the reads. -/
theorem sse_framing_lossless (codec : JsonCodec J) {dataPrefix : List Char}
    (hfield : IsDataField dataPrefix) (items : List (SseItem J))
    (hitems : ∀ item ∈ items, item.Plain codec) :
    (∀ chunks : List (List UInt8),
      chunks.flatten = items.flatMap (SseItem.encode codec dataPrefix) →
        let r := SseReassembler.feedAll codec defaultTerminalMarker chunks
        r.state.frames = SseItem.framesFrom codec dataPrefix items 0 ∧
          r.state.errors = [] ∧ r.buffer = [] ∧ r.finish.state.errors = []) ∧
    ∀ (marker : List Char) (chunks chunks' : List (List UInt8)),
      chunks.flatten = chunks'.flatten →
        SseReassembler.feedAll codec marker chunks = SseReassembler.feedAll codec marker chunks' := by
  constructor
  · intro chunks hchunks
    rw [feedAll_items hfield hitems hchunks]
    exact ⟨rfl, rfl, rfl, rfl⟩
  · intro marker chunks chunks' h
    rw [feedAll_eq_feed, feedAll_eq_feed, h]

/-- Two objects, a heartbeat and the end, read byte by byte. -/
theorem sse_framing_lossless_bytes :
    let text (done : Bool) : List Char :=
      if done then "\x7b\"done\": true\x7d".toList else "\x7b\"done\": false\x7d".toList
    let codec : JsonCodec Bool :=
      ⟨text, fun s => if s = text true then .ok (some true)
        else if s = text false then .ok (some false) else .error "Expecting value"⟩
    let items : List (SseItem Bool) :=
      [.data false, .heartbeat "keep-alive".toList, .data true, .terminal]
    let chunks := (items.flatMap (SseItem.encode codec "data: ".toList)).map fun b => [b]
    let r := SseReassembler.feedAll codec defaultTerminalMarker chunks
    r.state.frames = SseItem.framesFrom codec "data: ".toList items 0 ∧
      r.state.errors = [] ∧ r.buffer = [] ∧ r.finish.state.errors = [] := by
  intro text codec items chunks
  have hcarries : ∀ done, codec.Carries done := by
    intro done
    cases done
    · exact ⟨by decide, by decide, rfl⟩
    · exact ⟨by decide, by decide, rfl⟩
  have hitems : ∀ item ∈ items, item.Plain codec := by
    intro item hitem
    cases item with
    | data payload => exact hcarries payload
    | heartbeat text' =>
      have htext : text' = "keep-alive".toList := by simpa [items] using hitem
      have hline : '\n' ∉ "keep-alive".toList := by decide
      rw [htext]
      exact hline
    | terminal => exact trivial
  have hchunks : chunks.flatten = items.flatMap (SseItem.encode codec "data: ".toList) := by
    exact flatMap_singleton' _
  exact (sse_framing_lossless codec (.inl rfl) items hitems).1 chunks hchunks

end Hqsb
