import Solarcido.Crates.StreamState
import Solarcido.Lib.ChunkedDecoder
import Solarcido.Lib.Search

namespace Solarcido.Crates

open RustText ChunkedDecoder Emitter

namespace Sse

def lfLf : Bytes := [10, 10]

def crLfCrLf : Bytes := [13, 10, 13, 10]

/-- `buffer.windows(n).position(|w| w == separator)`. -/
def position (separator buffer : Bytes) : Option Nat := Search.firstIndexOf separator buffer

/-- Where the first frame ends, and how long its separator is. -/
def separator (buffer : Bytes) : Option (Nat × Nat) :=
  ((position lfLf buffer).map fun pos => (pos, 2)).or
    ((position crLfCrLf buffer).map fun pos => (pos, 4))

/-- `next_sse_frame`, and `next_frame` of `SseParser`: the bytes of the frame, and how many bytes
are drained with it. -/
def nextSseFrame : Next UInt8 Bytes Empty := fun buffer =>
  .ok ((separator buffer).map fun (pos, len) =>
    ((buffer.take (pos + len)).take ((buffer.take (pos + len)).length - len), pos + len))

/-- The data of one line of a frame. -/
def lineData (line : RustString) : Option RustString :=
  if startsWith line (str ":") then none else (stripPrefix line (str "data:")).map trimStart

/-- The data payload of a frame. -/
def payloadOf (frame : RustString) : Option RustString :=
  let trimmed := trim frame
  if trimmed = [] then none
  else
    let dataLines := (lines trimmed).filterMap lineData
    if dataLines = [] then none
    else
      let payload := join (str "\n") dataLines
      if payload = str "[DONE]" then none else some payload

/-- `extract_data_payload`. -/
def extractDataPayload (frame : RustString) : Option RustString := payloadOf frame

end Sse

/-- The parser of raw payloads. -/
structure SseParser where
  buffer : Bytes

namespace SseParser

open Sse

def new : SseParser := ⟨[]⟩

def push (chunk : Bytes) (s : SseParser) : List RustString × SseParser :=
  let drained := drain nextSseFrame (s.buffer ++ chunk)
  (drained.messages.filterMap fun frame => extractDataPayload (fromUtf8Lossy frame), ⟨drained.rest⟩)

def finish (s : SseParser) : List RustString × SseParser :=
  if s.buffer = [] then ([], s)
  else ((extractDataPayload (trim (fromUtf8Lossy s.buffer))).toList, ⟨[]⟩)

/-- The payloads of a whole body. -/
def parse (s : SseParser) : List Bytes → List RustString
  | [] => (finish s).1
  | chunk :: chunks => (push chunk s).1 ++ parse (push chunk s).2 chunks

end SseParser

section chunks

open Value

def OpenAiUsage.deserialize (v : Value) : Option OpenAiUsage := do
  let v ← v.asStruct [str "prompt_tokens", str "completion_tokens"]
  let promptTokens ← defaulted u32 0 (str "prompt_tokens") v
  let completionTokens ← defaulted u32 0 (str "completion_tokens") v
  some ⟨promptTokens, completionTokens⟩

def DeltaFunction.deserialize (v : Value) : Option DeltaFunction := do
  let v ← v.asStruct [str "name", str "arguments"]
  let name ← optional asStr (str "name") v
  let arguments ← optional asStr (str "arguments") v
  some ⟨name, arguments⟩

def DeltaToolCall.deserialize (v : Value) : Option DeltaToolCall := do
  let v ← v.asStruct [str "index", str "id", str "function"]
  let index ← defaulted u32 0 (str "index") v
  let id ← optional asStr (str "id") v
  let function ← defaulted DeltaFunction.deserialize ⟨none, none⟩ (str "function") v
  some ⟨index, id, function⟩

/-- `deserialize_null_as_empty_vec`. -/
def nullAsEmptyVec {α : Type} (read : Value → Option α) (v : Value) : Option (List α) :=
  (nullable (vec read) v).map fun items => items.getD []

def ChunkDelta.deserialize (v : Value) : Option ChunkDelta := do
  let v ← v.asStruct [str "content", str "tool_calls"]
  let content ← optional asStr (str "content") v
  let toolCalls ← defaulted (nullAsEmptyVec DeltaToolCall.deserialize) [] (str "tool_calls") v
  some ⟨content, toolCalls⟩

def ChunkChoice.deserialize (v : Value) : Option ChunkChoice := do
  let v ← v.asStruct [str "delta", str "finish_reason"]
  let delta ← required ChunkDelta.deserialize (str "delta") v
  let finishReason ← optional asStr (str "finish_reason") v
  some ⟨delta, finishReason⟩

def ChatCompletionChunk.deserialize (v : Value) : Option ChatCompletionChunk := do
  let v ← v.asStruct [str "id", str "model", str "choices", str "usage"]
  let id ← required asStr (str "id") v
  let model ← optional asStr (str "model") v
  let choices ← defaulted (vec ChunkChoice.deserialize) [] (str "choices") v
  let usage ← optional OpenAiUsage.deserialize (str "usage") v
  some ⟨id, model, choices, usage⟩

end chunks

namespace Sse

variable (serde : SerdeJson) (model : RustString)

/-- What `parse_sse_frame` makes of a payload. -/
def decodePayload (payload : RustString) : Except ApiError ChatCompletionChunk :=
  match serde.fromStr payload with
  | none => .error (.jsonDeserialize (str "Upstage") model payload)
  | some raw =>
    match ApiError.embedded (str "provider returned an error in stream") none payload raw with
    | some error => .error error
    | none =>
      match ChatCompletionChunk.deserialize raw with
      | none => .error (.jsonDeserialize (str "Upstage") model payload)
      | some chunk => .ok chunk

/-- `parse_sse_frame`. -/
def parseSseFrame (frame : RustString) : Except ApiError (Option ChatCompletionChunk) :=
  match payloadOf frame with
  | none => .ok none
  | some payload => (decodePayload serde model payload).map some

end Sse

/-- The parser of the client. -/
structure OpenAiSseParser where
  buffer : Bytes
  model : RustString

namespace OpenAiSseParser

open Sse

variable (serde : SerdeJson)

def new (model : RustString) : OpenAiSseParser := ⟨[], model⟩

/-- A frame of the client, parsed. -/
def nextChunk (model : RustString) : Next UInt8 (Option ChatCompletionChunk) ApiError :=
  parsed (fun frame => parseSseFrame serde model (fromUtf8Lossy frame)) nextSseFrame

/-- A frame that cannot be parsed has been taken from the buffer. -/
def skipFrame (buffer : Bytes) : Bytes :=
  match separator buffer with
  | none => buffer
  | some (pos, len) => buffer.drop (pos + len)

def push (chunk : Bytes) (s : OpenAiSseParser) :
    Except ApiError (List ChatCompletionChunk) × OpenAiSseParser :=
  let drained := drain (nextChunk serde s.model) (s.buffer ++ chunk)
  match drained.failure with
  | none => (.ok (drained.messages.filterMap id), { s with buffer := drained.rest })
  | some error => (.error error, { s with buffer := skipFrame drained.rest })

/-- The chunks handed on for the chunks of a body, up to the first error. -/
def receive (s : OpenAiSseParser) : List Bytes → List ChatCompletionChunk × Option ApiError
  | [] => ([], none)
  | chunk :: chunks =>
    match push serde chunk s with
    | (.error error, _) => ([], some error)
    | (.ok received, s) => (received ++ (receive s chunks).1, (receive s chunks).2)

end OpenAiSseParser

structure SolarStream where
  parser : OpenAiSseParser
  pending : List StreamEvent
  done : Bool
  state : StreamState

namespace SolarStream

variable (serde : SerdeJson)

def new (model : RustString) : SolarStream := ⟨.new model, [], false, .new model⟩

/-- What is returned once the body has ended. -/
def finishing (s : SolarStream) : Except Failure (Option StreamEvent) × SolarStream :=
  match s.state.finish with
  | .error panic => (.error (.panic panic), s)
  | .ok (events, state) => (.ok events.head?, { s with pending := events.tail, state := state })

/-- `next_event`, with the results that `response.chunk()` is still to give: a chunk or an error,
and the end of the body behind them. -/
def nextEvent (s : SolarStream) : List (Except ApiError Bytes) →
    Except Failure (Option StreamEvent) × SolarStream × List (Except ApiError Bytes)
  | [] =>
    match s.pending with
    | event :: pending => (.ok (some event), { s with pending := pending }, [])
    | [] => ((finishing { s with done := true }).1, (finishing { s with done := true }).2, [])
  | response :: rest =>
    match s.pending with
    | event :: pending => (.ok (some event), { s with pending := pending }, response :: rest)
    | [] =>
      if s.done then ((finishing s).1, (finishing s).2, response :: rest)
      else
        match response with
        | .error error => (.error (.api error), s, rest)
        | .ok chunk =>
          match s.parser.push serde chunk with
          | (.error error, parser) => (.error (.api error), { s with parser := parser }, rest)
          | (.ok received, parser) =>
            match forEach StreamState.ingestChunk received s.state with
            | .error panic => (.error (.panic panic), { s with parser := parser }, rest)
            | .ok (events, state) =>
              nextEvent { s with parser := parser, pending := events, state := state } rest

end SolarStream

end Solarcido.Crates
