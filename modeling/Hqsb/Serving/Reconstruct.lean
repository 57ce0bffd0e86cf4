/-
Hqsb/Serving/Reconstruct.lean

What a client rebuilds of a stream, and the oracle that compares it with the body of the same
answer.

Text, token ids, finish reason and usage are read off one frame at a time and collected over the
stream (`reconstruct`); `streamVsNonstream` names what differs from a body.  What the source would
raise is a `PythonError`; a text in the place of a number is refused, also one with digits in it.
-/
import Hqsb.Core.DataClass
import Hqsb.Serving.Sse

namespace Hqsb

open Lib

/-! ### One frame -/

/-- A value that `.get` is called on. -/
def Json.dict (value : Json) : Except PythonError Mapping :=
  value.members?.elim (.error .typeError) .ok

/-- `payload.get("choices") or []` -/
def frameChoices (payload : Json) : Except PythonError (List Json) :=
  match payload.get? "choices" with
  | none => .ok []
  | some value => if value.truthy then value.arr?.elim (.error .typeError) .ok else .ok []

/-- `int(item)` -/
def Json.toInt : Json → Except PythonError Int
  | .num n => .ok n
  | .bool b => .ok b.toNat
  | _ => .error .typeError

def segmentTokens (choice : Mapping) (key : String) : Except PythonError (List Int) :=
  match (choice.lookup key).bind (·.get? "token_ids") with
  | none => .ok []
  | some ids => do (← ids.arr?.elim (.error .typeError) .ok).mapM Json.toInt

def choiceTokens (choice : Json) : Except PythonError (List Int) := do
  let choice ← choice.dict
  let delta ← segmentTokens choice "delta"
  let text ← segmentTokens choice "text"
  pure (delta ++ text)

def choiceText (choice : Json) : Except PythonError String := do
  let choice ← choice.dict
  match (choice.lookup "delta").bind (·.get? "content") |>.bind Json.str? with
  | some content => pure content
  | none => pure (((choice.lookup "text").bind Json.str?).getD "")

/-- `str(reason)`; the texts of lists and dictionaries are those of JSON. -/
def Json.toText : Json → String
  | .null => "None"
  | .bool b => if b then "True" else "False"
  | .num n => toString n
  | .str s => s
  | value => String.ofList value.dumps

def firstReason : List Json → Except PythonError String
  | [] => .ok ""
  | choice :: choices => do
    let members ← choice.dict
    match members.lookup "finish_reason" with
    | some reason => if reason.truthy then .ok reason.toText else firstReason choices
    | none => firstReason choices

namespace SseFrame

variable (f : SseFrame Json)

def contentChoices : Except PythonError (List Json) :=
  match f.payload with
  | none => .ok []
  | some payload => if f.isTerminal then .ok [] else frameChoices payload

def tokenIds : Except PythonError (List Int) := do
  let tokens ← (← f.contentChoices).mapM choiceTokens
  pure tokens.flatten

def text : Except PythonError String := do
  let parts ← (← f.contentChoices).mapM choiceText
  pure (String.join parts)

def finishReason : Except PythonError String :=
  match f.payload with
  | none => .ok ""
  | some payload => do firstReason (← frameChoices payload)

def usage : Option Mapping := (f.payload.bind (·.get? "usage")).bind Json.members?

end SseFrame

/-! ### The whole stream -/

def parseStream (codec : JsonCodec Json) (raw : List UInt8) : SseReassembler Json :=
  ((SseReassembler.init.feed codec defaultTerminalMarker raw).2).finish

/-- The answer rebuilt of a stream. -/
structure Rebuilt where
  text : String := ""
  tokenIds : List Int := []
  finishReason : String := ""
  usage : Option Mapping := none

/-- One frame of the loop in `reconstruct`. -/
def Rebuilt.add (r : Rebuilt) (f : SseFrame Json) : Except PythonError Rebuilt :=
  if f.isHeartbeat ∨ f.isTerminal then .ok r
  else do
    let text ← f.text
    let tokenIds ← f.tokenIds
    let finishReason ← f.finishReason
    pure {
      text := r.text ++ text
      tokenIds := r.tokenIds ++ tokenIds
      finishReason := if finishReason ≠ "" then finishReason else r.finishReason
      usage := if f.usage.getD [] ≠ [] then f.usage else r.usage }

def reconstruct (frames : List (SseFrame Json)) : Except PythonError Rebuilt :=
  frames.foldlM Rebuilt.add {}

/-! ### The oracle -/

/-- `==` of two JSON values, by their canonical texts. -/
def Json.same (a b : Json) : Bool := a.canonical = b.canonical

/-- A number in a list, against a token id. -/
def Json.isInt (value : Json) (n : Int) : Bool := value.toInt.toOption = some n

def bodyChoice (body : Mapping) : Except PythonError Mapping :=
  match body.lookup "choices" with
  | none => .ok []
  | some value =>
    if value.truthy then
      match value with
      | .arr (choice :: _) => choice.dict
      | _ => .error .typeError
    else .ok []

def finalText (choice : Mapping) : Except PythonError Json :=
  match choice.lookup "text" with
  | some value => if value matches .null then message else .ok value
  | none => message
where
  message : Except PythonError Json := do
    let message ← match choice.lookup "message" with
      | some value => if value.truthy then value.dict else .ok []
      | none => .ok []
    pure ((message.lookup "content").getD (.str ""))

/-- `final_tokens` is present and differs from the token ids. -/
def tokensDiffer (choice : Mapping) (tokenIds : List Int) : Except PythonError Bool :=
  match choice.lookup "token_ids" with
  | none | some .null => .ok false
  | some value => do
    let items ← value.arr?.elim (.error .typeError) .ok
    pure (¬ (items.length = tokenIds.length ∧
      (items.zip tokenIds).all fun e => e.1.isInt e.2))

/-- A count of the stream is there and differs from that of the body. -/
def usageDiffers (streamed body : Mapping) (name : String) : Bool :=
  match streamed.lookup name with
  | none | some .null => false
  | some value => ¬ value.same ((body.lookup name).getD .null)

/-- The counts that differ, if both sides have a usage. -/
def differingUsage (body : Mapping) (streamed : Option Mapping) :
    Except PythonError (List String) :=
  match body.lookup "usage", streamed with
  | some value, some streamed =>
    if value.truthy then do
      let body ← value.dict
      pure (["prompt_tokens", "completion_tokens", "total_tokens"].filter
        (usageDiffers streamed body))
    else pure []
  | _, _ => pure []

/-- What the oracle says. -/
structure PairReport where
  problems : List String
  reconstructed : Rebuilt
  finalText : Json

def PairReport.ok (r : PairReport) : Bool := r.problems.isEmpty

def streamVsNonstream (frames : List (SseFrame Json)) (body : Mapping) :
    Except PythonError PairReport := do
  let rebuilt ← reconstruct frames
  let choice ← bodyChoice body
  let text ← finalText choice
  let differs ← tokensDiffer choice rebuilt.tokenIds
  let usage ← differingUsage body rebuilt.usage
  pure {
    problems :=
      (if text.str? ≠ some rebuilt.text then
        ["streamed text does not equal the non-stream text"] else []) ++
      (if differs then ["streamed token IDs do not equal the non-stream token IDs"] else []) ++
      (if (choice.lookup "finish_reason").bind Json.str? ≠ some rebuilt.finishReason then
        ["stream finish reason differs from the non-stream finish reason"] else []) ++
      usage.map fun name => "streamed usage " ++ name ++ " differs from the non-stream usage"
    reconstructed := rebuilt
    finalText := text }

end Hqsb
