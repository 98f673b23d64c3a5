import Solarcido.Crates.Runtime
import Solarcido.Crates.Sse

namespace Solarcido.Crates

open RustText Emitter

structure ResponseToolFunction where
  name : RustString
  arguments : RustString

structure ResponseToolCall where
  id : RustString
  function : ResponseToolFunction

structure ChatMsg where
  role : RustString
  content : Option RustString
  toolCalls : List ResponseToolCall

structure ChatChoice where
  message : ChatMsg
  finishReason : Option RustString

structure ChatCompletionResponse where
  id : RustString
  model : RustString
  choices : List ChatChoice
  usage : Option OpenAiUsage

section responses

open Value

def ResponseToolFunction.deserialize (v : Value) : Option ResponseToolFunction := do
  let v ← v.asStruct [str "name", str "arguments"]
  let name ← required asStr (str "name") v
  let arguments ← required asStr (str "arguments") v
  some ⟨name, arguments⟩

def ResponseToolCall.deserialize (v : Value) : Option ResponseToolCall := do
  let v ← v.asStruct [str "id", str "function"]
  let id ← required asStr (str "id") v
  let function ← required ResponseToolFunction.deserialize (str "function") v
  some ⟨id, function⟩

def ChatMsg.deserialize (v : Value) : Option ChatMsg := do
  let v ← v.asStruct [str "role", str "content", str "tool_calls"]
  let role ← required asStr (str "role") v
  let content ← optional asStr (str "content") v
  let toolCalls ← defaulted (vec ResponseToolCall.deserialize) [] (str "tool_calls") v
  some ⟨role, content, toolCalls⟩

def ChatChoice.deserialize (v : Value) : Option ChatChoice := do
  let v ← v.asStruct [str "message", str "finish_reason"]
  let message ← required ChatMsg.deserialize (str "message") v
  let finishReason ← optional asStr (str "finish_reason") v
  some ⟨message, finishReason⟩

def ChatCompletionResponse.deserialize (v : Value) : Option ChatCompletionResponse := do
  let v ← v.asStruct [str "id", str "model", str "choices", str "usage"]
  let id ← required asStr (str "id") v
  let model ← required asStr (str "model") v
  let choices ← required (vec ChatChoice.deserialize) (str "choices") v
  let usage ← optional OpenAiUsage.deserialize (str "usage") v
  some ⟨id, model, choices, usage⟩

end responses

namespace Client

variable (serde : SerdeJson) (model : RustString)

/-- `parse_tool_arguments`. -/
def parseToolArguments (arguments : RustString) : Value :=
  (serde.fromStr arguments).getD (.object [(str "raw", .string arguments)])

def contentOf (message : ChatMsg) : List OutputContentBlock :=
  ((message.content.filter fun v => !v.isEmpty).map OutputContentBlock.text).toList ++
    message.toolCalls.map fun tc =>
      .toolUse tc.id tc.function.name (parseToolArguments serde tc.function.arguments)

/-- `normalize_response`. -/
def normalizeResponse (response : ChatCompletionResponse) : Except ApiError MessageResponse :=
  match response.choices.head? with
  | none => .error (.invalidSseFrame (str "response missing choices"))
  | some choice => .ok {
      id := response.id
      kind := str "message"
      role := choice.message.role
      content := contentOf serde choice.message
      model := if response.model = [] then model else response.model
      stopReason := choice.finishReason.map normalizeFinishReason
      stopSequence := none
      usage := (response.usage.map fun u => ⟨u.promptTokens, u.completionTokens⟩).getD .zero
      requestId := none }

/-- What `send_message` makes of the body of a successful response. -/
def receiveBody (requestId : Option RustString) (body : RustString) :
    Except ApiError MessageResponse :=
  match serde.fromStr body with
  | none => .error (.jsonDeserialize (str "Upstage") model body)
  | some raw =>
    match ApiError.embedded (str "provider returned an error") requestId body raw with
    | some error => .error error
    | none =>
      match ChatCompletionResponse.deserialize raw with
      | none => .error (.jsonDeserialize (str "Upstage") model body)
      | some payload => (normalizeResponse serde model payload).map fun normalized =>
        { normalized with requestId := normalized.requestId.or requestId }

end Client

section replies

variable (serde : SerdeJson) (model : RustString) (usage : Usage)

/-- What `run_turn` makes of a body. -/
def receivedReply (requestId : Option RustString) (body : RustString) : Except Failure Reply :=
  match Client.receiveBody serde model requestId body with
  | .error error => .error (.api error)
  | .ok response => (replyOfResponse usage response).mapError Failure.panic

/-- The events of the payloads of a stream. -/
def streamedEvents (payloads : List RustString) : Except Failure (List StreamEvent) :=
  match payloads.mapM (Sse.decodePayload serde model) with
  | .error error => .error (.api error)
  | .ok chunks =>
    match StreamState.stream chunks (.new model) with
    | .error panic => .error (.panic panic)
    | .ok (events, _) => .ok events

/-- What `run_turn_streaming` makes of the payloads of a stream. -/
def streamedReply (payloads : List RustString) : Except Failure Reply :=
  match streamedEvents serde model payloads with
  | .error failure => .error failure
  | .ok events => (replyOfEvents serde usage events).mapError Failure.panic

end replies

namespace ConversationRuntime

open ThrowingProgram

variable {ω : Type} {host : Host ω} (self : ConversationRuntime) (serde : SerdeJson)
  (model : RustString) (usage : Usage) {s : Running ω} {w : ω}

/-- How the request for a reply ends in a state. -/
def endsIn (s : Running ω) : Except Failure Reply → EStateM.Result Stop (Running ω) Reply
  | .ok reply => .ok reply s
  | .error failure => .error (.ofFailure failure) s

/-- A turn goes on with what is made of the body that the client has received. -/
theorem askForReply_received {requestId : Option RustString} {body : RustString}
    (h : host.sendMessage (self.buildRequest (host.definitions s.world) s.messages) s.world =
      ((Client.receiveBody serde model requestId body).mapError Failure.api, w)) :
    ∃ trace, self.askForReply host usage s =
      endsIn ⟨s.messages, w, trace⟩ (receivedReply serde model usage requestId body) := by
  refine ⟨s.trace ++ [.request (self.buildRequest (host.definitions s.world) s.messages)], ?_⟩
  refine (bind_of_ok (rfl : self.nextRequest host s = .ok _ s) _).trans ?_
  refine (bind_of_ok (x := record _) rfl _).trans ?_
  refine (bind_of_ok (x := fromOutside _) rfl _).trans ?_
  rw [h, receivedReply]
  cases Client.receiveBody serde model requestId body with
  | error error => rfl
  | ok response =>
    simp only [Except.mapError]
    cases replyOfResponse usage response with
    | error p => rfl
    | ok reply => rfl

/-- A streaming turn goes on with what is made of the payloads that the client has received. -/
theorem streamReply_received {payloads : List RustString} {events : List StreamEvent}
    (hevents : streamedEvents serde model payloads = .ok events)
    (h : host.streamMessage (self.buildRequest (host.definitions s.world) s.messages) s.world =
      (⟨events, none⟩, w)) : ∃ trace, self.streamReply host serde usage s =
        endsIn ⟨s.messages, w, trace⟩ (streamedReply serde model usage payloads) := by
  refine ⟨s.trace ++ [.request (self.buildRequest (host.definitions s.world) s.messages)], ?_⟩
  refine (bind_of_ok (rfl : self.nextRequest host s = .ok _ s) _).trans ?_
  refine (bind_of_ok (x := record _) rfl _).trans ?_
  refine (bind_of_ok (x := fromOutside _) rfl _).trans ?_
  rw [h, streamedReply, hevents]
  simp only
  cases replyOfEvents serde usage events with
  | error p => rfl
  | ok reply => rfl

end ConversationRuntime

end Solarcido.Crates
