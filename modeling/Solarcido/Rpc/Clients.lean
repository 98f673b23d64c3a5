import Solarcido.Lib.Requests
import Solarcido.Rpc.Message

namespace Solarcido.Rpc

open Text Requests

structure JsonRpcRequest where
  id : JsNumber
  method : JsString
  params : Option Json

def makeRequest (id : JsNumber) (method : JsString) (params : Option Json) : JsonRpcRequest :=
  ⟨id, method, params⟩

/-- What a request is rejected with: what its send threw at once, or an error of the session. -/
inductive Failure (E : Type) where
  | thrown (error : Thrown)
  | client (error : E)

/-- What the client sessions have of their own: the key of the request a message is looked up
under, if it is looked up at all, and their errors, given the method they are about. -/
structure ClientKind (texts : TemplateText) (E : Type) where
  requestTimeoutMs : JsNumber
  lookupKey : Json → Option JsString
  timedOut : JsString → E
  sendFailed : JsString → Thrown → E
  closed : E
  finds : ∀ message k,
    lookupKey message = some (requestKey texts k) ↔ carriesId k message = true

/-- The requests a session has handed to its transport and the table of them. -/
structure ClientSession (E : Type) where
  sent : List JsonRpcRequest
  table : Table JsString Json (Failure E) Thrown

/-- What happens to a session. A request is named by its number; a send throws at once or runs. -/
inductive ClientEvent where
  | request (method : JsString) (params : Option Json) (sendThrows : Option Thrown)
  | message (message : Json)
  | timeout (k : Nat)
  | sendFailed (k : Nat) (error : Thrown)
  | sent (k : Nat)
  | close

namespace ClientSession

variable {texts : TemplateText} {E : Type} (kind : ClientKind texts E)

def new : ClientSession E := ⟨[], .new⟩

def takeId (s : ClientSession E) : JsNumber := requestId s.table.issued

/-- The error of the timer of a request, if it has one. -/
def timerError (method : JsString) : Option (Failure E) :=
  if kind.requestTimeoutMs.gt (.ofInt 0) then some (.client (kind.timedOut method)) else none

def sendError (method : JsString) (error : Thrown) : Failure E :=
  .client (kind.sendFailed method error)

def request (method : JsString) (params : Option Json) (sendThrows : Option Thrown)
    (s : ClientSession E) : ClientSession E where
  sent := s.sent ++ [makeRequest s.takeId method params]
  table := s.table.issue (requestKey texts) (timerError kind method) (sendError kind method)
    (sendThrows.map .thrown)

def handleMessage (message : Json) (s : ClientSession E) : ClientSession E :=
  { s with table := s.table.deliver kind.lookupKey message }

def timeout (texts : TemplateText) (k : Nat) (s : ClientSession E) : ClientSession E :=
  { s with table := s.table.fire (requestKey texts) k }

def sendFailed (texts : TemplateText) (k : Nat) (error : Thrown) (s : ClientSession E) :
    ClientSession E :=
  { s with table := s.table.failSend (requestKey texts) k error }

def endSend (k : Nat) (s : ClientSession E) : ClientSession E :=
  { s with table := s.table.endSend k }

def close (s : ClientSession E) : ClientSession E :=
  { s with table := s.table.closeAll (.client kind.closed) }

def promise (s : ClientSession E) (k : Nat) : Option (Outcome Json (Failure E)) :=
  s.table.promises k

def step (s : ClientSession E) : ClientEvent → ClientSession E
  | .request method params sendThrows => s.request kind method params sendThrows
  | .message message => s.handleMessage kind message
  | .timeout k => s.timeout texts k
  | .sendFailed k error => s.sendFailed texts k error
  | .sent k => s.endSend k
  | .close => s.close kind

/-- A timer goes off only while it is set, and a send fails only while it is under way. -/
def Possible (s : ClientSession E) : ClientEvent → Prop
  | .timeout k => ∃ error, (k, error) ∈ s.table.timers
  | .sendFailed k _ => ∃ onSendError, (k, onSendError) ∈ s.table.sends
  | _ => True

def after (events : List ClientEvent) : ClientSession E := Serial.runAll (step kind) new events

def isRequest : ClientEvent → Bool
  | .request _ _ _ => true
  | _ => false

def requests (events : List ClientEvent) : Nat := events.countP isRequest

end ClientSession

end Solarcido.Rpc

namespace Solarcido

open Text Rpc

/-- `requestTimeoutMs ?? DEFAULT_REQUEST_TIMEOUT_MS`, for both clients. -/
def requestTimeoutMsOf (requestTimeoutMs : Option JsNumber) : JsNumber :=
  requestTimeoutMs.getD (.ofInt 30000)

namespace Mcp.Client

structure McpClientError where
  message : JsString
  serverName : JsString
  method : JsString
  deriving DecidableEq

variable (texts : TemplateText)

/-- The key of an id; a message without one has the key `undefined:undefined`. -/
def idKey : Option Json → Option JsString
  | none => some (js "undefined:undefined")
  | some .null => some (js "null")
  | some id => typedText texts id

/-- `handleMessage` never looks at the method. -/
def lookupKey : Json → Option JsString
  | .null => none
  | message => idKey texts (message.member (js "id"))

def timedOut (serverName method : JsString) : McpClientError :=
  ⟨js "MCP server `" ++ serverName ++ js "` timed out during " ++ method, serverName, method⟩

def sendFailed (serverName method : JsString) (error : Thrown) : McpClientError :=
  ⟨error.messageOf, serverName, method⟩

def sessionClosed (serverName : JsString) : McpClientError :=
  ⟨js "MCP server `" ++ serverName ++ js "` session closed", serverName, js "close"⟩

theorem idKey_eq_requestKey (id : Option Json) (k : Nat) :
    idKey texts id = some (requestKey texts k) ↔ id = some (.num (requestId k)) := by
  cases id with
  | none =>
    have hnumber : js "number" = [110, 117, 109, 98, 101, 114] := by decide
    have hundefined : js "undefined:undefined" = 117 :: js "ndefined:undefined" := by decide
    simp [idKey, requestKey, hnumber, hundefined]
  | some id =>
    rw [key_eq_requestKey texts (f := fun id => idKey texts (some id)) rfl _ id k, Option.some_inj]
    intro id hid
    rw [idKey]
    exact hid

theorem lookupKey_finds (message : Json) (k : Nat) :
    lookupKey texts message = some (requestKey texts k) ↔ carriesId k message = true := by
  rw [carriesId_iff, ← idKey_eq_requestKey texts]
  cases message with
  | null => simp [lookupKey, idKey_eq_requestKey, Json.member]
  | bool b => rfl
  | num n => rfl
  | str s => rfl
  | arr items => rfl
  | obj members => rfl

/-- The client session of `serverName`. -/
def session (serverName : JsString) (requestTimeoutMs : Option JsNumber) :
    ClientKind texts McpClientError where
  requestTimeoutMs := requestTimeoutMsOf requestTimeoutMs
  lookupKey := lookupKey texts
  timedOut := timedOut serverName
  sendFailed := sendFailed serverName
  closed := sessionClosed serverName
  finds := lookupKey_finds texts

end Mcp.Client

namespace Lsp

structure LspClientError where
  message : JsString
  method : JsString
  deriving DecidableEq

variable (texts : TemplateText)

def idKey : Option Json → Option JsString
  | none => some (js "null")
  | some .null => some (js "null")
  | some id => typedText texts id

/-- A message with a method and no id is a notification, which no request waits for. -/
def lookupKey : Json → Option JsString
  | .null => none
  | message =>
    if hasMethod message ∧ message.member (js "id") = none then none
    else
      match message.member (js "id") with
      | none => none
      | some id => idKey texts (some id)

def timedOut (method : JsString) : LspClientError :=
  ⟨js "LSP request `" ++ method ++ js "` timed out", method⟩

def sendFailed (method : JsString) (error : Thrown) : LspClientError := ⟨error.messageOf, method⟩

def sessionClosed : LspClientError := ⟨js "LSP session closed", js "shutdown"⟩

theorem idKey_eq_requestKey (id : Json) (k : Nat) :
    idKey texts (some id) = some (requestKey texts k) ↔ id = .num (requestId k) := by
  apply key_eq_requestKey texts (f := fun id => idKey texts (some id)) rfl
  intro id hid
  rw [idKey]
  exact hid

theorem lookupKey_finds (message : Json) (k : Nat) :
    lookupKey texts message = some (requestKey texts k) ↔ carriesId k message = true := by
  rw [carriesId_iff]
  by_cases hnull : message = .null
  · subst hnull
    simp [lookupKey, Json.member]
  · rw [lookupKey]
    · split
      · next hnotification =>
        rw [hnotification.2]
        simp
      · cases message.member (js "id") with
        | none => simp
        | some id => simp [idKey_eq_requestKey]
    · exact hnull

/-- The client session of a language server. -/
def session (requestTimeoutMs : Option JsNumber) : ClientKind texts LspClientError where
  requestTimeoutMs := requestTimeoutMsOf requestTimeoutMs
  lookupKey := lookupKey texts
  timedOut := timedOut
  sendFailed := sendFailed
  closed := sessionClosed
  finds := lookupKey_finds texts

end Lsp

end Solarcido
