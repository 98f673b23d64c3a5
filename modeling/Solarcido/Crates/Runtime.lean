import Solarcido.Crates.Permissions
import Solarcido.Crates.Messages
import Solarcido.Lib.SortedMap
import Solarcido.Lib.ThrowingProgram

namespace Solarcido.Crates

open RustText ThrowingProgram

/-- The error of a turn; an API error comes with its text only. -/
inductive RuntimeError where
  | api (error : ApiError)
  | message (text : RustString)

inductive Stop where
  | error (error : RuntimeError)
  | panic (panic : Panic)

def Stop.ofFailure : Failure → Stop
  | .api e => .error (.api e)
  | .panic p => .panic p

structure ToolUse where
  id : RustString
  name : RustString
  input : Value

structure TurnSummary where
  assistantText : RustString
  toolResults : List (RustString × RustString)
  iterations : Nat
  usage : Usage

def TurnSummary.default : TurnSummary := ⟨[], [], 0, .zero⟩

/-- How a turn ends. -/
inductive TurnEnd where
  | ok (summary : TurnSummary)
  | stopped (stop : Stop)

/-- What a run does, in its order. -/
inductive Action where
  | request (request : MessageRequest)
  | call (toolUse : ToolUse)
  | prompt (request : PermissionRequest) (approved : Bool)
  | execute (name : RustString) (input : Value)
  | result (message : InputMessage)
  | ended (turnEnd : TurnEnd)

/-- The session, whatever is outside, and the actions so far. -/
structure Running (ω : Type) where
  messages : List InputMessage
  world : ω
  trace : List Action

/-- What a stream gives until it is over, and why it is over, if not by its end. -/
structure StreamReply where
  events : List StreamEvent
  failure : Option Failure

/-- The client and the tools. -/
structure Host (ω : Type) where
  sendMessage : MessageRequest → ω → Except Failure MessageResponse × ω
  streamMessage : MessageRequest → ω → StreamReply × ω
  definitions : ω → List ToolDefinition
  execute : RustString → Value → ω → Except RustString RustString × ω
  floatText : UInt64 → RustString

abbrev Prompter (ω : Type) := PermissionRequest → ω → Bool × ω

structure ConversationRuntime where
  model : RustString
  reasoningEffort : RustString
  systemPrompt : RustString
  permissionPolicy : PermissionPolicy
  maxIterations : Nat
  maxOutputTokens : U32

def ConversationRuntime.new (model reasoningEffort systemPrompt : RustString)
    (permissionSpecs : List (RustString × PermissionMode)) (permissionMode : PermissionMode) :
    ConversationRuntime where
  model := model
  reasoningEffort := reasoningEffort
  systemPrompt := systemPrompt
  permissionPolicy := permissionSpecs.foldl
    (fun policy (tool, mode) => policy.withToolRequirement tool mode) (.new permissionMode)
  maxIterations := 128
  maxOutputTokens := 4096

abbrev RuntimeM (ω : Type) := EStateM Stop (Running ω)

variable {ω α : Type}

def record (action : Action) : RuntimeM ω Unit :=
  modify fun s => { s with trace := s.trace ++ [action] }

def push (message : InputMessage) : RuntimeM ω Unit :=
  modify fun s => { s with messages := s.messages ++ [message] }

/-- Something outside is asked. -/
def fromOutside (f : ω → α × ω) : RuntimeM ω α := fun s =>
  .ok (f s.world).1 { s with world := (f s.world).2 }

def orPanic (x : Except Panic α) : RuntimeM ω α :=
  match x with
  | .ok a => pure a
  | .error p => throw (.panic p)

section permissions

/-- `PermissionPolicy::authorize`. -/
def PermissionPolicy.authorize (s : PermissionPolicy) (toolName input : RustString)
    (prompter : Option (Prompter ω)) : RuntimeM ω PermissionOutcome :=
  let requiredMode := s.requiredModeFor toolName
  if requiredMode ≤ s.activeMode then pure .allow
  else if s.activeMode = .workspaceWrite ∧ requiredMode = .dangerFullAccess then do
    let request : PermissionRequest := ⟨toolName, input, s.activeMode, requiredMode⟩
    let approved ←
      match prompter with
      | some decide => do
        let approved ← fromOutside (decide request)
        record (.prompt request approved)
        pure approved
      | none => pure false
    pure (if approved then .allow
      else .deny (str "tool `" ++ toolName ++ str "` requires approval to escalate from " ++
        s.activeMode.asStr ++ str " to " ++ requiredMode.asStr))
  else pure (.deny (str "tool `" ++ toolName ++ str "` requires " ++ requiredMode.asStr ++
    str " permission; current mode is " ++ s.activeMode.asStr))

end permissions

section replies

def Usage.add (u v : Usage) : Except Panic Usage := do
  let promptTokens ← checkedAdd u.promptTokens v.promptTokens
  let completionTokens ← checkedAdd u.completionTokens v.completionTokens
  .ok ⟨promptTokens, completionTokens⟩

/-- What a turn takes from one reply of the model. -/
structure Reply where
  content : RustString
  toolUses : List ToolUse
  usage : Usage

def joinText (content text : RustString) : RustString :=
  if content = [] then text else content ++ '\n' :: text

def toolUseOf : OutputContentBlock → Option ToolUse
  | .text _ => none
  | .toolUse id name input => some ⟨id, name, input⟩

def takeText (content : RustString) : OutputContentBlock → RustString
  | .text text => joinText content text
  | .toolUse _ _ _ => content

/-- The reply of `run_turn`, added to the usage so far. -/
def replyOfResponse (usage : Usage) (response : MessageResponse) : Except Panic Reply := do
  let usage ← usage.add response.usage
  .ok ⟨response.content.foldl takeText [], response.content.filterMap toolUseOf, usage⟩

structure StreamingToolUse where
  id : RustString
  name : RustString
  inputJson : RustString

/-- What `run_turn_streaming` has gathered of a reply. -/
structure Gathered where
  content : RustString
  toolUses : SortedMap U32 StreamingToolUse
  usage : Usage

def gather (s : Gathered) : StreamEvent → Except Panic Gathered
  | .contentBlockStart index (.toolUse id name _) =>
    .ok { s with toolUses := s.toolUses.set index ⟨id, name, []⟩ }
  | .contentBlockDelta _ (.textDelta text) => .ok { s with content := s.content ++ text }
  | .contentBlockDelta index (.inputJsonDelta partialJson) =>
    match s.toolUses.get index with
    | some toolUse => .ok { s with
        toolUses := s.toolUses.set index
          { toolUse with inputJson := toolUse.inputJson ++ partialJson } }
    | none => .ok s
  | .messageDelta _ usage => (s.usage.add usage).map fun usage => { s with usage := usage }
  | _ => .ok s

variable (serde : SerdeJson)

/-- `parse_streaming_tool_input`. -/
def parseStreamingToolInput (inputJson : RustString) : Value :=
  if trim inputJson = [] then .object []
  else (serde.fromStr inputJson).getD (.object [(str "raw", .string inputJson)])

def StreamingToolUse.finalize (toolUse : StreamingToolUse) : ToolUse :=
  ⟨toolUse.id, toolUse.name, parseStreamingToolInput serde toolUse.inputJson⟩

/-- The reply of `run_turn_streaming`, added to the usage so far. -/
def replyOfEvents (usage : Usage) (events : List StreamEvent) : Except Panic Reply := do
  let gathered ← events.foldlM gather ⟨[], .empty, usage⟩
  .ok ⟨gathered.content, gathered.toolUses.values.map (StreamingToolUse.finalize serde),
    gathered.usage⟩

end replies

namespace ConversationRuntime

variable (self : ConversationRuntime) (host : Host ω) (serde : SerdeJson)
  (prompter : Option (Prompter ω))

def buildRequest (definitions : List ToolDefinition) (messages : List InputMessage) :
    MessageRequest where
  model := self.model
  maxTokens := self.maxOutputTokens
  messages := messages
  system := some self.systemPrompt
  tools := some definitions
  stream := false
  temperature := some (.float 0x3FC999999999999A)
  reasoningEffort := some self.reasoningEffort

/-- The request of an iteration. -/
def nextRequest : RuntimeM ω MessageRequest := do
  let s ← get
  pure (self.buildRequest (host.definitions s.world) s.messages)

/-- How `run_turn` gets a reply. -/
def askForReply (usage : Usage) : RuntimeM ω Reply := do
  let request ← self.nextRequest host
  record (.request request)
  match ← fromOutside (host.sendMessage request) with
  | .error failure => throw (.ofFailure failure)
  | .ok response => orPanic (replyOfResponse usage response)

/-- How `run_turn_streaming` gets a reply. -/
def streamReply (usage : Usage) : RuntimeM ω Reply := do
  let request ← self.nextRequest host
  record (.request request)
  let stream ← fromOutside (host.streamMessage request)
  let reply ← orPanic (replyOfEvents serde usage stream.events)
  match stream.failure with
  | some failure => throw (.ofFailure failure)
  | none => pure reply

/-- The assistant's message of a reply. -/
def assistantMessage (content : RustString) (toolUses : List ToolUse) : InputMessage :=
  ⟨str "assistant", (if content = [] then [] else [.text content]) ++
    toolUses.map fun toolUse => .toolUse toolUse.id toolUse.name toolUse.input⟩

/-- The output of a call. -/
def toolOutput (toolUse : ToolUse) : PermissionOutcome → RuntimeM ω RustString
  | .allow => do
    record (.execute toolUse.name toolUse.input)
    match ← fromOutside (host.execute toolUse.name toolUse.input) with
    | .ok output => pure output
    | .error e => pure (str "ERROR: " ++ e)
  | .deny reason => pure (str "ERROR: " ++ reason)

/-- One call of a reply. -/
def runTool (summary : TurnSummary) (toolUse : ToolUse) : RuntimeM ω TurnSummary := do
  record (.call toolUse)
  let outcome ← self.permissionPolicy.authorize toolUse.name
    (toolUse.input.display host.floatText) prompter
  let output ← toolOutput host toolUse outcome
  let message := InputMessage.userToolResult toolUse.id output false
  push message
  record (.result message)
  pure { summary with toolResults := summary.toolResults ++ [(toolUse.name, output)] }

def runTools (summary : TurnSummary) : List ToolUse → RuntimeM ω TurnSummary
  | [] => pure summary
  | toolUse :: rest => do
    let summary ← self.runTool host prompter summary toolUse
    runTools summary rest

def iterationsExceeded : RuntimeError :=
  .message (str "conversation loop exceeded the maximum number of iterations")

/-- The loop of a turn, with the iterations that are left. -/
def turnLoop (nextReply : Usage → RuntimeM ω Reply) : Nat → TurnSummary → RuntimeM ω TurnSummary
  | 0, _ => throw (.error iterationsExceeded)
  | left + 1, summary => do
    let reply ← nextReply summary.usage
    push (assistantMessage reply.content reply.toolUses)
    let summary : TurnSummary :=
      { summary with
        iterations := summary.iterations + 1
        usage := reply.usage
        assistantText := if reply.content = [] then summary.assistantText
          else joinText summary.assistantText reply.content }
    if reply.toolUses.isEmpty then pure summary
    else do
      let summary ← self.runTools host prompter summary reply.toolUses
      turnLoop nextReply left summary

/-- `run_turn_with_status`. -/
def runTurn (userInput : RustString) : RuntimeM ω TurnSummary := do
  push (.userText userInput)
  self.turnLoop host prompter (self.askForReply host) self.maxIterations .default

/-- `run_turn_streaming_with_status`. -/
def runTurnStreaming (userInput : RustString) : RuntimeM ω TurnSummary := do
  push (.userText userInput)
  self.turnLoop host prompter (self.streamReply host serde) self.maxIterations .default

end ConversationRuntime

/-- A turn the program asks for. -/
structure Turn (ω : Type) where
  streaming : Bool
  userInput : RustString
  prompter : Option (Prompter ω)

namespace ConversationRuntime

variable (self : ConversationRuntime) (host : Host ω) (serde : SerdeJson)

def takeTurn (turn : Turn ω) : RuntimeM ω TurnSummary :=
  if turn.streaming then self.runTurnStreaming host serde turn.prompter turn.userInput
  else self.runTurn host turn.prompter turn.userInput

def noteEnd (s : Running ω) (turnEnd : TurnEnd) : Running ω :=
  { s with trace := s.trace ++ [.ended turnEnd] }

/-- Turns one after the other; only a panic ends the program. -/
def runTurns : List (Turn ω) → Running ω → Running ω
  | [], s => s
  | turn :: turns, s =>
    match self.takeTurn host serde turn s with
    | .ok summary s => runTurns turns (noteEnd s (.ok summary))
    | .error (.error error) s => runTurns turns (noteEnd s (.stopped (.error error)))
    | .error (.panic p) s => noteEnd s (.stopped (.panic p))

/-- A runtime with an empty session, after some turns. -/
def after (turns : List (Turn ω)) (world : ω) : Running ω :=
  self.runTurns host serde turns ⟨[], world, []⟩

end ConversationRuntime

end Solarcido.Crates
