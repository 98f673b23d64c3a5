import Solarcido.Api.Chat

namespace Solarcido.Conversation

open Text Tools Api ThrowingProgram

section sessions

inductive SessionStatus where
  | running
  | completed
  | failed
  deriving DecidableEq

structure SessionRecord where
  id : JsString
  createdAt : JsString
  updatedAt : JsString
  status : SessionStatus
  goal : JsString
  cwd : JsString
  model : Option JsString
  reasoningEffort : ReasoningEffort
  approvalPolicy : ApprovalPolicy
  sandbox : SandboxMode
  summary : Option JsString
  changedFiles : List JsString
  nextSteps : List JsString
  error : Option JsString
  messages : Option (List ChatMessage)

structure CreateSessionOptions where
  goal : JsString
  cwd : JsString
  model : Option JsString
  reasoningEffort : ReasoningEffort
  approvalPolicy : ApprovalPolicy
  sandbox : SandboxMode

structure SessionUpdate where
  summary : JsString
  changedFiles : List JsString
  nextSteps : List JsString
  messages : Option (List ChatMessage)

structure SessionStore (ε : Type) where
  create : CreateSessionOptions → Effect ε SessionRecord
  complete : SessionRecord → SessionUpdate → Effect ε SessionRecord
  fail : SessionRecord → JsString → Effect ε SessionRecord

/-- The record of a new session. -/
def createdRecord (options : CreateSessionOptions) (id now : JsString) : SessionRecord where
  id := id
  createdAt := now
  updatedAt := now
  status := .running
  goal := options.goal
  cwd := options.cwd
  model := options.model
  reasoningEffort := options.reasoningEffort
  approvalPolicy := options.approvalPolicy
  sandbox := options.sandbox
  summary := none
  changedFiles := []
  nextSteps := []
  error := none
  messages := none

/-- The record of a completed session: an error is forgotten, and the messages are
those of the update when it has any. -/
def completedRecord (session : SessionRecord) (update : SessionUpdate) (now : JsString) :
    SessionRecord :=
  { session with
    error := none
    updatedAt := now
    status := .completed
    summary := some update.summary
    changedFiles := update.changedFiles
    nextSteps := update.nextSteps
    messages := update.messages.orElse fun _ => session.messages }

def failedRecord (session : SessionRecord) (error now : JsString) : SessionRecord :=
  { session with updatedAt := now, status := .failed, error := some error }

/-- A store that writes nothing down. -/
def SessionStore.inMemory {ε : Type} (id now : JsString) : SessionStore ε where
  create options := pure (createdRecord options id now)
  complete session update := pure (completedRecord session update now)
  fail session error := pure (failedRecord session error now)

end sessions

section events

inductive HookEvent where
  | preToolUse
  | postToolUse
  | postToolUseFailure
  deriving DecidableEq

def HookEvent.name : HookEvent → JsString
  | .preToolUse => js "PreToolUse"
  | .postToolUse => js "PostToolUse"
  | .postToolUseFailure => js "PostToolUseFailure"

structure HookCommandResult where
  exitCode : Option Int
  stdout : JsString
  stderr : JsString

/-- What became of a hook's command. -/
inductive HookOutcome where
  | failedToStart (error : Thrown)
  | exited (result : HookCommandResult)

/-- What a run does that can be seen from outside. -/
inductive Event where
  /-- A request goes to the model. -/
  | chatRequest (options : ChatRunOptions)
  /-- The model's message is taken up into the conversation. -/
  | reply (message : ChatMessage)
  | hook (event : HookEvent) (command : JsString) (outcome : HookOutcome)
  /-- A call goes to the tool registry. -/
  | dispatched (call : ChatToolCall)
  | toolResult (call : ChatToolCall) (result : ToolExecutionResult)
  | compacted
  /-- The session is completed by a call, with the later calls of its reply pending. -/
  | completed (call : ChatToolCall) (pending : List ChatToolCall) (result : ToolExecutionResult)
      (update : SessionUpdate)

end events

/-- The state of a runtime and of all around it. The trace, and the responses that have
come with the request of each, are kept for the proofs. -/
structure Machine (ε : Type) where
  world : World ε
  lastSummaryTurn : Option Int
  trace : List Event
  received : List (ChatRunOptions × ChatResponse)

abbrev RuntimeM (ε α : Type) := EStateM Thrown (Machine ε) α

variable {ε α : Type}

def inWorld (x : Action ε α) : RuntimeM ε α :=
  onPart Machine.world (fun world m => { m with world }) x

/-- Something done by the outside, seen from the runtime. -/
def fromOutside (x : Effect ε α) : RuntimeM ε α := inWorld (outside x)

def record (e : Event) : RuntimeM ε Unit := modify fun m => { m with trace := m.trace ++ [e] }

def receive (params : ChatRunOptions) (response : ChatResponse) : RuntimeM ε Unit :=
  modify fun m => { m with received := m.received ++ [(params, response)] }

end Solarcido.Conversation
