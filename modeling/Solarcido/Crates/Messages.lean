import Solarcido.Crates.Json

namespace Solarcido.Crates

open RustText

structure Usage where
  promptTokens : U32
  completionTokens : U32
  deriving DecidableEq

def Usage.zero : Usage := ⟨0, 0⟩

inductive ToolResultContentBlock where
  | text (text : RustString)
  | json (value : Value)

inductive InputContentBlock where
  | text (text : RustString)
  | toolUse (id name : RustString) (input : Value)
  | toolResult (toolUseId : RustString) (content : List ToolResultContentBlock) (isError : Bool)

structure InputMessage where
  role : RustString
  content : List InputContentBlock

namespace InputMessage

def userText (text : RustString) : InputMessage := ⟨str "user", [.text text]⟩

def userToolResult (toolUseId content : RustString) (isError : Bool) : InputMessage :=
  ⟨str "user", [.toolResult toolUseId [.text content] isError]⟩

end InputMessage

inductive OutputContentBlock where
  | text (text : RustString)
  | toolUse (id name : RustString) (input : Value)

structure MessageResponse where
  id : RustString
  kind : RustString
  role : RustString
  content : List OutputContentBlock
  model : RustString
  stopReason : Option RustString
  stopSequence : Option RustString
  usage : Usage
  requestId : Option RustString

structure ToolDefinition where
  name : RustString
  description : Option RustString
  inputSchema : Value

/-- A request of the runtime; the fields it never sets are left out. -/
structure MessageRequest where
  model : RustString
  maxTokens : U32
  messages : List InputMessage
  system : Option RustString
  tools : Option (List ToolDefinition)
  stream : Bool
  temperature : Option JsonNumber
  reasoningEffort : Option RustString

structure MessageDelta where
  stopReason : Option RustString
  stopSequence : Option RustString

inductive ContentBlockDelta where
  | textDelta (text : RustString)
  | inputJsonDelta (partialJson : RustString)

inductive StreamEvent where
  | messageStart (message : MessageResponse)
  | messageDelta (delta : MessageDelta) (usage : Usage)
  | contentBlockStart (index : U32) (contentBlock : OutputContentBlock)
  | contentBlockDelta (index : U32) (delta : ContentBlockDelta)
  | contentBlockStop (index : U32)
  | messageStop

/-- The errors of the API client. A transport error comes with its text. -/
inductive ApiError where
  | transport (text : RustString)
  | json (provider model bodySnippet : RustString)
  | api (status : Nat) (errorType message requestId : Option RustString) (body : RustString)
      (retryable : Bool) (suggestedAction : Option RustString)
  | invalidSseFrame (message : RustString)

/-- Why a call gives nothing: an error it returns, or a panic. -/
inductive Failure where
  | api (error : ApiError)
  | panic (panic : Panic)

namespace ApiError

/-- `truncate_body_snippet(body, max_chars)`. -/
def truncateBodySnippet (body : RustString) (maxChars : Nat) : RustString :=
  if maxChars < body.length then body.take maxChars ++ ['…'] else body

def jsonDeserialize (provider model body : RustString) : ApiError :=
  .json provider model (truncateBodySnippet body 200)

def suggestedActionForStatus (status : Nat) : Option RustString :=
  if status = 401 then some (str "Check API key is set correctly and has not expired")
  else if status = 403 then some (str "Verify API key has required permissions for this operation")
  else if status = 413 then some (str "Reduce prompt size or context window before retrying")
  else if status = 429 then some (str "Wait a moment before retrying; consider reducing request rate")
  else if status = 500 then some (str "Provider server error — retry after a brief wait")
  else if 502 ≤ status ∧ status ≤ 504 then
    some (str "Provider gateway error — retry after a brief wait")
  else none

/-- `StatusCode::from_u16(code as u16).unwrap_or(BAD_REQUEST)`. -/
def statusOf (code : Option Nat) : Nat :=
  let status := (code.map (· % 2 ^ 16)).getD 400
  if 100 ≤ status ∧ status < 1000 then status else 400

/-- The error a document carries in place of an answer. -/
def embedded (fallback : RustString) (requestId : Option RustString) (body : RustString)
    (raw : Value) : Option ApiError :=
  (raw.get (str "error")).map fun errObj =>
    let status := statusOf ((errObj.get (str "code")).bind Value.asU64)
    .api status ((errObj.get (str "type")).bind Value.asStr)
      (some (((errObj.get (str "message")).bind Value.asStr).getD fallback)) requestId body false
      (suggestedActionForStatus status)

theorem embedded_none (fallback : RustString) (requestId : Option RustString) (body : RustString)
    {raw : Value} (h : raw.get (str "error") = none) : embedded fallback requestId body raw = none := by
  rw [embedded, h, Option.map_none]

end ApiError

namespace Wire

-- How a float is written.
variable (floatText : UInt64 → RustString)

def flattenBlock : ToolResultContentBlock → RustString
  | .text text => text
  | .json value => value.display floatText

/-- `flatten_tool_result_content`. -/
def flattenToolResultContent (content : List ToolResultContentBlock) : RustString :=
  join (str "\n") (content.map (flattenBlock floatText))

def assistantText : InputContentBlock → RustString
  | .text text => text
  | _ => []

/-- A call of a tool; the members of an object are in the order of their keys. -/
def toolCallOf (id name : RustString) (input : Value) : Value :=
  .object [
    (str "function", .object [
      (str "arguments", .string (input.display floatText)),
      (str "name", .string name)]),
    (str "id", .string id),
    (str "type", .string (str "function"))]

def toolCall : InputContentBlock → Option Value
  | .toolUse id name input => some (toolCallOf floatText id name input)
  | _ => none

def userBlock : InputContentBlock → Option Value
  | .text text => some (.object [
      (str "content", .string text),
      (str "role", .string (str "user"))])
  | .toolResult toolUseId content _ => some (.object [
      (str "content", .string (flattenToolResultContent floatText content)),
      (str "role", .string (str "tool")),
      (str "tool_call_id", .string toolUseId)])
  | .toolUse _ _ _ => none

/-- `translate_message`. -/
def translateMessage (message : InputMessage) : List Value :=
  if message.role = str "assistant" then
    let text := message.content.flatMap assistantText
    let toolCalls := message.content.filterMap (toolCall floatText)
    if text = [] ∧ toolCalls = [] then []
    else
      [.object ([
        (str "content", if text = [] then .null else .string text),
        (str "role", .string (str "assistant"))] ++
        if toolCalls = [] then [] else [(str "tool_calls", .array toolCalls)])]
  else message.content.filterMap (userBlock floatText)

/-- `msg.get("role").and_then(|v| v.as_str())`. -/
def roleOf (message : Value) : Option RustString := (message.get (str "role")).bind Value.asStr

def isTool (message : Value) : Bool := roleOf message = some (str "tool")

def callsTool (toolCallId : RustString) (toolCall : Value) : Bool :=
  (toolCall.get (str "id")).bind Value.asStr = some toolCallId

/-- A tool message behind an assistant's message that has no call of its id. -/
def isDropped (before : List Value) (message : Value) : Bool :=
  if isTool message then
    let toolCallId := ((message.get (str "tool_call_id")).bind Value.asStr).getD []
    let preceding := before.reverse.find? fun m => !isTool m
    let precedingRole := (preceding.bind roleOf).getD []
    if precedingRole = str "assistant" then
      !((preceding.bind fun m => (m.get (str "tool_calls")).bind Value.asArray).any fun toolCalls =>
        toolCalls.any (callsTool toolCallId))
    else false
  else false

/-- `sanitize_tool_message_pairing`. -/
def sanitizeToolMessagePairing (messages : List Value) : List Value :=
  (messages.zipIdx.filter fun (message, i) => !isDropped (messages.take i) message).map Prod.fst

/-- The messages of a request before they are sanitized. -/
def requestMessages (request : MessageRequest) : List Value :=
  (match request.system.filter fun v => !v.isEmpty with
    | some system => [Value.object [
        (str "content", .string system),
        (str "role", .string (str "system"))]]
    | none => []) ++
  request.messages.flatMap (translateMessage floatText)

/-- `openai_tool_definition`. -/
def openaiToolDefinition (tool : ToolDefinition) : Value :=
  .object [
    (str "function", .object [
      (str "description", (tool.description.map Value.string).getD .null),
      (str "name", .string tool.name),
      (str "parameters", tool.inputSchema)]),
    (str "type", .string (str "function"))]

/-- `build_chat_completion_request`, for the fields the runtime sets. -/
def buildChatCompletionRequest (request : MessageRequest) : Value :=
  .object (
    [(str "max_tokens", Value.number (.int request.maxTokens.val)),
      (str "messages", .array (sanitizeToolMessagePairing (requestMessages floatText request))),
      (str "model", .string request.model)] ++
    (request.reasoningEffort.map fun effort => (str "reasoning_effort", Value.string effort)).toList ++
    [(str "stream", .bool request.stream)] ++
    (if request.stream then
      [(str "stream_options", .object [(str "include_usage", .bool true)])] else []) ++
    (request.temperature.map fun t => (str "temperature", Value.number t)).toList ++
    (request.tools.map fun tools =>
      (str "tools", Value.array (tools.map openaiToolDefinition))).toList)

end Wire

end Solarcido.Crates
