import Solarcido.Framing.Readers
import Solarcido.Js.Value
import Solarcido.Lib.Serial

namespace Solarcido.Mcp.Server

open Text

/-- What a server advertises and lists. -/
structure McpServerSpec where
  serverName : JsString
  serverVersion : JsString
  tools : List Json

inductive JsonRpcResponse where
  | result (id value : Json)
  | error (id : Json) (code : Int) (message : JsString)

def JsonRpcResponse.id : JsonRpcResponse → Json
  | .result id _ => id
  | .error id _ _ => id

def PARSE_ERROR : Int := -32700

def INVALID_REQUEST : Int := -32600

def METHOD_NOT_FOUND : Int := -32601

def INVALID_PARAMS : Int := -32602

def protocolVersion : JsString := js "2025-03-26"

/-- How a call of the tool handler ends. What it throws may be a value whose text cannot be had. -/
inductive ToolOutcome where
  | returned (text : JsString) (isError : Option Bool)
  | threw (error : Thrown)
  | threwUnprintable

/-- A call of the tool handler under way, for the request it answers. -/
structure ToolCall where
  delivery : Nat
  id : Json
  name : JsString
  arguments : Json

/-- What the handling of a value comes to before the tool handler is awaited. -/
inductive Handling where
  | ignored
  | rejected
  | answered (response : JsonRpcResponse)
  | called (id : Json) (name : JsString) (arguments : Json)

section dispatch

variable (spec : McpServerSpec)

def handleInitialize (id : Json) : JsonRpcResponse :=
  .result id (.ofMembers [("protocolVersion", .str protocolVersion),
    ("capabilities", .ofMembers [("tools", .obj [])]),
    ("serverInfo", .ofMembers [("name", .str spec.serverName),
      ("version", .str spec.serverVersion)])])

def handleToolsList (id : Json) : JsonRpcResponse :=
  .result id (.ofMembers [("tools", .arr spec.tools)])

/-- `call.arguments ?? {}`. -/
def argumentsOf (params : Json) : Json :=
  match params.member (js "arguments") with
  | none => .obj []
  | some .null => .obj []
  | some arguments => arguments

def handleToolsCall (id : Json) : Option Json → Handling
  | none => .answered (.error id INVALID_PARAMS (js "missing params for tools/call"))
  | some .null => .answered (.error id INVALID_PARAMS (js "missing params for tools/call"))
  | some params =>
    if params.isObject then
      match params.member (js "name") with
      | some (.str name) => .called id name (argumentsOf params)
      | _ =>
        .answered (.error id INVALID_PARAMS (js "invalid tools/call params: missing tool name"))
    else
      .answered (.error id INVALID_PARAMS (js "invalid tools/call params: expected an object"))

def dispatch (id : Json) (method : JsString) (params : Option Json) : Handling :=
  if method = js "initialize" then .answered (handleInitialize spec id)
  else if method = js "tools/list" then .answered (handleToolsList spec id)
  else if method = js "tools/call" then handleToolsCall id params
  else .answered (.error id METHOD_NOT_FOUND (js "method not found: " ++ method))

/-- `handleInbound`. To ask `null` for a member or a primitive whether it has one throws; an array
has no member `id`. -/
def handleInbound : Json → Handling
  | .obj members =>
    let request := Json.obj members
    match request.member (js "id") with
    | none => .ignored
    | some id =>
      match request.member (js "jsonrpc"), request.member (js "method") with
      | some (.str jsonrpc), some (.str method) =>
        if jsonrpc = js "2.0" then dispatch spec id method (request.member (js "params"))
        else .answered (.error id INVALID_REQUEST (js "invalid request"))
      | _, _ => .answered (.error id INVALID_REQUEST (js "invalid request"))
  | .arr _ => .ignored
  | _ => .rejected

end dispatch

/-- A session with the replies it has sent and the handlings that were rejected, each under the
number of the delivery it is for. -/
structure ServerSession where
  closed : Bool
  delivered : Nat
  replies : List (Nat × JsonRpcResponse)
  calls : List ToolCall
  rejections : List Nat

/-- What happens to a session: a value is delivered, or what cannot be parsed, a call of the tool
handler ends, the stream or the session is closed. -/
inductive ServerEvent where
  | message (value : Json)
  | parseError (error : JsString)
  | toolDone (delivery : Nat) (outcome : ToolOutcome)
  | close

namespace ServerSession

def new : ServerSession := ⟨false, 0, [], [], []⟩

def deliver (s : ServerSession) : ServerSession := { s with delivered := s.delivered + 1 }

def reply (i : Nat) (response : JsonRpcResponse) (s : ServerSession) : ServerSession :=
  if s.closed then s else { s with replies := s.replies ++ [(i, response)] }

def reject (i : Nat) (s : ServerSession) : ServerSession :=
  { s with rejections := s.rejections ++ [i] }

def handled (i : Nat) (s : ServerSession) : Handling → ServerSession
  | .ignored => s
  | .rejected => s.reject i
  | .answered response => s.reply i response
  | .called id name arguments => { s with calls := s.calls ++ [⟨i, id, name, arguments⟩] }

def endCall (i : Nat) (s : ServerSession) : ServerSession :=
  { s with calls := s.calls.filter fun call => call.delivery ≠ i }

/-- The result of a `tools/call`: one text block. -/
def toolResult (id : Json) (text : JsString) (isError : Bool) : JsonRpcResponse :=
  .result id (.ofMembers [
    ("content", .arr [.ofMembers [("type", .str (js "text")), ("text", .str text)]]),
    ("isError", .bool isError)])

def toolDone (i : Nat) (outcome : ToolOutcome) (s : ServerSession) : ServerSession :=
  match s.calls.find? fun call => call.delivery = i with
  | none => s
  | some call =>
    match outcome with
    | .returned text isError => (s.endCall i).reply i (toolResult call.id text (isError.getD false))
    | .threw error => (s.endCall i).reply i (toolResult call.id error.messageOf true)
    | .threwUnprintable => (s.endCall i).reject i

def step (spec : McpServerSpec) (s : ServerSession) : ServerEvent → ServerSession
  | .message value => s.deliver.handled s.delivered (handleInbound spec value)
  | .parseError error =>
    s.deliver.reply s.delivered (.error .null PARSE_ERROR (js "parse error: " ++ error))
  | .toolDone i outcome => s.toolDone i outcome
  | .close => { s with closed := true }

def after (spec : McpServerSpec) (events : List ServerEvent) : ServerSession :=
  Serial.runAll (step spec) new events

def isDelivery : ServerEvent → Bool
  | .message _ => true
  | .parseError _ => true
  | _ => false

def deliveries (events : List ServerEvent) : Nat := events.countP isDelivery

def repliesTo (s : ServerSession) (i : Nat) : List JsonRpcResponse :=
  (s.replies.filter fun reply => reply.1 = i).map Prod.snd

def callsFor (s : ServerSession) (i : Nat) : List ToolCall :=
  s.calls.filter fun call => call.delivery = i

end ServerSession

section transport

open Framing

variable {V : Type} (json : JsonCodec V) (toJson : V → Json)

/-- What the reader hands the session. -/
def inbound : Delivery V → ServerEvent
  | .message value => .message (toJson value)
  | .parseError error => .parseError error.message
  | .thrown error => .parseError error.message

/-- Values framed one after the other reach the session as they are, however the stream is cut. -/
theorem inbound_frames (values : List V) (chunks : List Bytes)
    (h : chunks.flatten = frames json values) :
    ((chunks.foldl (StdioServerTransport.onChunk json) .fresh).delivered.map (inbound toJson)) =
      values.map fun value => .message (toJson value) := by
  have hframes := onChunkWith_frames json serverPolicy .fresh rfl values chunks h
  rw [show StdioServerTransport.onChunk json = onChunkWith json serverPolicy from rfl, hframes]
  simp only [Transport.fresh, List.nil_append, List.map_map]
  rfl

end transport

end Solarcido.Mcp.Server
