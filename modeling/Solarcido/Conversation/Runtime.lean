import Solarcido.Conversation.Hooks
import Solarcido.Conversation.Summaries

namespace Solarcido.Conversation

open Text Tools Api ThrowingProgram

section executionGuard

def goalLikelyRequiresModification (goal : JsString) : Bool :=
  [js "add", js "change", js "create", js "edit", js "fix", js "implement", js "modify",
    js "refactor", js "remove", js "rename", js "replace", js "update", js "write", js "고쳐",
    js "구현", js "만들", js "바꿔", js "변경", js "수정", js "업데이트", js "작성",
    js "추가"].any (includes (toLowerCase goal))

def isSuccessfulModificationTool (toolName content : JsString) : Bool :=
  if startsWith content (js "ERROR:") then false
  else toolName = js "edit_file" || toolName = js "write_file"

def blockedPrematureFinishMessage : JsString :=
  js "ERROR: This goal appears to require code or documentation changes, but no edit_file or write_file call has succeeded yet. Inspect the repository, make the required edits, run relevant verification, then call finish."

end executionGuard

/-- `SystemPromptBuilder.build`. -/
def buildSystemPrompt (cwd : JsString) (approvalPolicy : ApprovalPolicy) (sandbox : SandboxMode)
    (gitContext : Option JsString) : JsString :=
  let base := join (js " ")
    [js "You are Solarcido, a direct coding assistant for the current repository.",
      js "Work like a coding terminal assistant: inspect files, edit files, run commands, and finish only when the task is done.",
      js "Use tools whenever you need repository context or need to make changes.",
      js "If the goal asks for code or documentation changes, do not stop at a plan or expected actions; inspect the relevant files, make the edits with edit_file or write_file, then verify.",
      js "Prefer search_files for locating code, read_file with offset/limit for focused inspection, and edit_file for small precise changes.",
      js "Use write_file only when creating a new file or replacing a whole file is clearly safer.",
      js "After edits, run the most relevant verification command when one exists.",
      js "Command failures are returned as tool output; inspect exit_code, stdout, and stderr before deciding the next step.",
      js "Stay inside the provided working directory.",
      js "Working directory: " ++ cwd ++ js ".",
      js "Current sandbox mode: " ++ sandbox.permission.name ++ js ". Current approval policy: " ++
        approvalPolicy.name ++ js ".",
      js "Do not create a plan/review split unless the user explicitly asks for it.",
      js "If you describe planned actions without tool calls, you have not executed the task yet.",
      js "When the task is complete, call the finish tool."]
  match gitContext with
  | some context => if (trim context).isEmpty then base else base ++ js "\n\n" ++ context
  | none => base

structure RunTurnInput (ε : Type) where
  goal : JsString
  cwd : JsString
  reasoningEffort : Option ReasoningEffort
  model : Option JsString
  approvalPolicy : Option ApprovalPolicy
  sandbox : Option SandboxMode
  maxTurns : Option Int
  resumeMessages : Option (List ChatMessage)
  stream : Bool
  onDelta : Option (JsString → Effect ε Unit)

structure TurnSummary where
  session : SessionRecord
  finish : FinishPayload
  transcript : List JsString
  turns : Nat
  usage : TokenUsage

def DEFAULT_MAX_TURNS : Int := 20

def RESERVED_OUTPUT_TOKENS : Int := 16384

def FALLBACK_CONTEXT_TOKENS : Int := 131072

def DEFAULT_COMPACTION_RECENT : Int := 12

def MIN_TURNS_BETWEEN_SUMMARIES : Int := 3

def COMPACTION_NOTICE : JsString :=
  js "Earlier tool transcript was compacted. Continue from the latest visible messages and preserve completed work."

/-- A runtime's own mutable fields are in the machine: the plan-mode flag in its world,
the turn of the last summary beside it. -/
structure ConversationRuntime (ε : Type) where
  apiClient : ApiClient ε
  toolRegistry : GlobalToolRegistry ε
  sessionStore : SessionStore ε
  permissionEnforcer : PermissionEnforcer ε
  maxTranscriptTokensOverride : Option Int
  compactionRecentLimit : Int
  gitContextProvider : JsString → Effect ε (Option JsString)
  hookRunner : Hooks.HookRunner ε
  createInteractionHandler : ε → Option (InteractionHandler ε)

/-- What the loop changes: the messages and the transcript. -/
structure Dialogue where
  messages : List ChatMessage
  transcript : List JsString

variable {ε : Type} (host : Host ε) (self : ConversationRuntime ε)

section compacting

def isTool (message : ChatMessage) : Bool := message.role = .tool

def safeRecentMessages (messages : List ChatMessage) (limit : Int) : List ChatMessage :=
  if limit ≤ 0 then []
  else (messages.drop (messages.length - limit.toNat)).dropWhile isTool

def renderForSummary (message : ChatMessage) : JsString :=
  join (js "\n")
    ((message.role.name ++ js ": " ++ message.content.getD []) ::
      (message.tool_calls.getD []).map fun call =>
        js "  ↳ called " ++ call.name ++ js "(" ++ call.arguments.take 200 ++ js ")")

def summaryRequest (droppedText model : JsString) : ChatRunOptions where
  model := model
  messages :=
    [.text .system (js "Summarize the following conversation segment in a few concise bullet points capturing decisions, files touched, and pending work. Output only the summary."),
      .text .user (droppedText.take 24000)]
  tools := none
  toolChoice := none
  reasoningEffort := .low
  temperature := 0
  maxTokens := none

def summarizeDropped (droppedText model : JsString) : RuntimeM ε (Option JsString) :=
  tryCatch
    (do
      record (.chatRequest (summaryRequest droppedText model))
      let response ← fromOutside (self.apiClient.chat (summaryRequest droppedText model))
      receive (summaryRequest droppedText model) response
      let summary := (response.message.bind ChatMessage.content).map trim
      return summary.filter fun text => !text.isEmpty)
    fun _ => return none

/-- What stands in for the messages that are dropped. -/
def summarize (droppedText model : JsString) (turn : Nat) : RuntimeM ε JsString := do
  let last := (← get).lastSummaryTurn
  if last.all fun last => (turn : Int) - last ≥ MIN_TURNS_BETWEEN_SUMMARIES then
    match ← summarizeDropped self droppedText model with
    | some summary =>
      modify fun m => { m with lastSummaryTurn := some turn }
      return formatCompactSummary summary
    | none => return COMPACTION_NOTICE
  else
    let compressed := (compressSummary droppedText .default).text
    return if compressed.isEmpty then COMPACTION_NOTICE else compressed

/-- The messages a compaction keeps after the first two. -/
def keptRecent (messages : List ChatMessage) : List ChatMessage :=
  safeRecentMessages (messages.drop 2) self.compactionRecentLimit

/-- The messages a compaction drops. -/
def droppedMessages (messages : List ChatMessage) : List ChatMessage :=
  (messages.take (messages.length - (keptRecent self messages).length)).drop
    (messages.take 2).length

/-- The messages after a compaction. -/
def compactedMessages (messages : List ChatMessage) (summaryContent : JsString) :
    List ChatMessage :=
  messages.take 2 ++ .text .user summaryContent :: keptRecent self messages

def compactIfNeeded (dialogue : Dialogue) (turn : Nat) (model : JsString) (budget : Int)
    (toolsTokens : Nat) : RuntimeM ε Dialogue :=
  if ((estimateMessagesTokens dialogue.messages + toolsTokens : Nat) : Int) ≤ budget then
    return dialogue
  else if (droppedMessages self dialogue.messages).isEmpty then return dialogue
  else do
    let droppedText :=
      join (js "\n") ((droppedMessages self dialogue.messages).map renderForSummary)
    let summaryContent ← summarize self droppedText model turn
    record .compacted
    return ⟨compactedMessages self dialogue.messages summaryContent,
      dialogue.transcript.drop (dialogue.transcript.length - 24)⟩

end compacting

/-- What is settled before the first turn. -/
structure Settings (ε : Type) where
  input : RunTurnInput ε
  reasoningEffort : ReasoningEffort
  model : JsString
  approvalPolicy : ApprovalPolicy
  sandbox : SandboxMode
  maxTurns : Int
  permissionEnforcer : PermissionEnforcer ε
  requiresModification : Bool
  tools : List ChatTool
  toolsTokens : Nat
  transcriptBudget : Int
  contextWindow : Int
  outputCeiling : Int

def resolveTranscriptBudget (model : JsString) : Int :=
  match self.maxTranscriptTokensOverride with
  | some budget => budget
  | none =>
    let contextWindow :=
      ((modelTokenLimit model).map ModelTokenLimit.contextWindowTokens).getD FALLBACK_CONTEXT_TOKENS
    max 1024 (contextWindow - RESERVED_OUTPUT_TOKENS)

def settings (input : RunTurnInput ε) : Settings ε :=
  let model := input.model.getD DEFAULT_MODEL
  let approvalPolicy := input.approvalPolicy.getD .onFailure
  let sandbox := input.sandbox.getD .workspaceWrite
  let tools := self.toolRegistry.definitions none (some sandbox.permission)
  { input
    reasoningEffort := input.reasoningEffort.getD DEFAULT_REASONING_EFFORT
    model
    approvalPolicy
    sandbox
    maxTurns := input.maxTurns.getD DEFAULT_MAX_TURNS
    permissionEnforcer :=
      self.permissionEnforcer.withPolicy approvalPolicy sandbox (some sandbox.permission)
    requiresModification := goalLikelyRequiresModification input.goal
    tools
    toolsTokens := estimateTokens
      (Json.stringify host.numberText (.arr (tools.map ChatTool.toJson)))
    transcriptBudget := resolveTranscriptBudget self model
    contextWindow :=
      ((modelTokenLimit model).map ModelTokenLimit.contextWindowTokens).getD FALLBACK_CONTEXT_TOKENS
    outputCeiling := maxTokensForModel model }

def goalMessage (input : RunTurnInput ε) : ChatMessage :=
  .text .user (js "Goal: " ++ input.goal ++ js "\n" ++ js "Working directory: " ++ input.cwd)

def startMessages (cfg : Settings ε) (gitContext : Option JsString) : List ChatMessage :=
  match cfg.input.resumeMessages with
  | some (message :: messages) => message :: messages ++ [goalMessage cfg.input]
  | _ =>
    [.text .system (buildSystemPrompt cfg.input.cwd cfg.approvalPolicy cfg.sandbox gitContext),
      goalMessage cfg.input]

variable (cfg : Settings ε)

section requesting

/-- The pulls of a stream, up to its end; the last response counts. -/
def readStream (onDelta : Option (JsString → Effect ε Unit)) :
    List (Effect ε ChatStreamEvent) → Option ChatResponse → Effect ε (Option ChatResponse)
  | [], response => return response
  | pull :: pulls, response => do
    match ← pull with
    | .delta text =>
      match onDelta with
      | some onDelta => onDelta text
      | none => pure ()
      readStream onDelta pulls response
    | .done response => readStream onDelta pulls (some response)

/-- A request as it goes to the client. -/
def sendRequest (params : ChatRunOptions) : Effect ε ChatResponse :=
  match cfg.input.stream, self.apiClient.chatStream with
  | true, some chatStream => do
    let pulls ← chatStream params
    match ← readStream cfg.input.onDelta pulls none with
    | some response => return response
    | none => throw (.error (js "Streaming response ended without a completion."))
  | _, _ => self.apiClient.chat params

def requestCompletion (params : ChatRunOptions) : RuntimeM ε ChatResponse := do
  record (.chatRequest params)
  let response ← fromOutside (sendRequest self cfg params)
  receive params response
  return response

/-- The request of a turn, with what the window still holds as its limit. -/
def requestParams (messages : List ChatMessage) : ChatRunOptions where
  model := cfg.model
  messages := messages
  tools := some cfg.tools
  toolChoice := some (js "auto")
  reasoningEffort := cfg.reasoningEffort
  temperature := 2 / 10
  maxTokens := some (max 256 (min cfg.outputCeiling
    (cfg.contextWindow - ((estimateMessagesTokens messages + cfg.toolsTokens : Nat) : Int) - 512)))

/-- A turn's request: after an overflow of the context window it is made once more with
what a forced compaction leaves. -/
def requestTurn (dialogue : Dialogue) (turn : Nat) : RuntimeM ε (ChatResponse × Dialogue) :=
  tryCatch
    (do return (← requestCompletion self cfg (requestParams cfg dialogue.messages), dialogue))
    fun error =>
      if (classifyApiError error).kind ≠ .contextWindow then throw error
      else do
        let compacted ← compactIfNeeded self dialogue turn cfg.model 0 cfg.toolsTokens
        if estimateMessagesTokens compacted.messages ≥ estimateMessagesTokens dialogue.messages then
          throw error
        else
          return (← requestCompletion self cfg (requestParams cfg compacted.messages), compacted)

end requesting

section calling

def toolInput (toolCall : ChatToolCall) : JsString :=
  if toolCall.arguments.isEmpty then js "\x7b\x7d" else toolCall.arguments

def executeToolCall (toolCall : ChatToolCall) : RuntimeM ε ToolExecutionResult :=
  match host.parseJson (toolInput toolCall) with
  | .error error =>
    return .text toolCall.name (js "ERROR: invalid JSON arguments: " ++ error.messageOf)
  | .ok input => do
    let interaction := self.createInteractionHandler (← get).world.env
    record (.dispatched toolCall)
    inWorld (self.toolRegistry.execute host toolCall.name input
      { root := cfg.input.cwd
        approvalPolicy := cfg.approvalPolicy
        sandbox := cfg.sandbox
        maxPermission := some cfg.sandbox.permission
        permissionEnforcer := some cfg.permissionEnforcer
        interaction
        planMode := true })

/-- The hooks after a call. -/
def runPostHooks (toolCall : ChatToolCall) (content : JsString) :
    RuntimeM ε Hooks.HookRunResult :=
  if startsWith content (js "ERROR:") then
    Hooks.runPostToolUseFailure host self.hookRunner toolCall.name (toolInput toolCall) content
  else
    Hooks.runPostToolUse host self.hookRunner toolCall.name (toolInput toolCall) content false

/-- A call between its hooks. -/
def callTool (toolCall : ChatToolCall) : RuntimeM ε ToolExecutionResult := do
  let pre ← Hooks.runPreToolUse host self.hookRunner toolCall.name (toolInput toolCall)
  if pre.denied then
    let reason := if pre.messages.isEmpty then [] else js ": " ++ join (js "; ") pre.messages
    return .text toolCall.name (js "ERROR: blocked by PreToolUse hook" ++ reason)
  else
    let result ← executeToolCall host self cfg toolCall
    let _ ← runPostHooks host self toolCall result.content
    return result

end calling

/-- What the turns change. -/
structure Progress where
  dialogue : Dialogue
  sessionUsage : TokenUsage
  session : SessionRecord
  successfulModification : Bool

/-- The content of a tool message: a finish before its time is blocked. -/
def shownContent (successfulModification : Bool) (result : ToolExecutionResult) : JsString :=
  if result.finish.isSome && cfg.requiresModification && !successfulModification then
    blockedPrematureFinishMessage
  else result.content

/-- The finish of a result that has come through unchanged. -/
def acceptedFinish (successfulModification : Bool) (result : ToolExecutionResult) :
    Option FinishPayload :=
  if shownContent cfg successfulModification result = result.content then result.finish else none

def toolMessage (toolCall : ChatToolCall) (content : JsString) : ChatMessage :=
  ⟨.tool, some content, none, some toolCall.id⟩

/-- The progress after a call's result has been put down. -/
def takeResult (progress : Progress) (toolCall : ChatToolCall) (result : ToolExecutionResult) :
    Progress :=
  let content := shownContent cfg progress.successfulModification result
  { progress with
    dialogue :=
      { messages := progress.dialogue.messages ++ [toolMessage toolCall content]
        transcript := progress.dialogue.transcript ++
          [js "tool:" ++ result.toolName ++ js ": " ++ content] }
    successfulModification := progress.successfulModification ||
      isSuccessfulModificationTool result.toolName content }

def completion (finish : FinishPayload) (messages : List ChatMessage) : SessionUpdate where
  summary := finish.summary
  changedFiles := finish.changed_files
  nextSteps := finish.next_steps
  messages := some messages

/-- The calls of a reply, up to one that completes the session. -/
def runToolCalls (turn : Nat) :
    List ChatToolCall → Progress → RuntimeM ε (Progress ⊕ TurnSummary)
  | [], progress => return .inl progress
  | toolCall :: pending, progress => do
    let result ← callTool host self cfg toolCall
    record (.toolResult toolCall result)
    let after := takeResult cfg progress toolCall result
    match acceptedFinish cfg progress.successfulModification result with
    | some finish =>
      let update := completion finish after.dialogue.messages
      record (.completed toolCall pending result update)
      let session ← fromOutside (self.sessionStore.complete after.session update)
      return .inr ⟨session, finish, after.dialogue.transcript, turn, after.sessionUsage⟩
    | none => runToolCalls turn pending after

def continueMessage : ChatMessage :=
  .text .user (js "Continue with tool calls. If the task is complete, call finish with summary, changed_files, and next_steps.")

/-- The model's message as the conversation keeps it. -/
def assistantMessage (message : ChatMessage) : ChatMessage :=
  ⟨.assistant, some (message.content.getD []), message.tool_calls, none⟩

/-- The progress after the model's message has been put down. -/
def takeReply (progress : Progress) (dialogue : Dialogue) (response : ChatResponse)
    (message : ChatMessage) : Progress :=
  let content := message.content.getD []
  { progress with
    dialogue :=
      { messages := dialogue.messages ++ [assistantMessage message]
        transcript := dialogue.transcript ++
          if content.isEmpty then [] else [js "assistant: " ++ content] }
    sessionUsage := addUsage progress.sessionUsage (normalizeUsage response.usage) }

def askToContinue (progress : Progress) : Progress :=
  { progress with
    dialogue :=
      { progress.dialogue with messages := progress.dialogue.messages ++ [continueMessage] } }

def runOneTurn (turn : Nat) (progress : Progress) : RuntimeM ε (Progress ⊕ TurnSummary) := do
  let dialogue ← compactIfNeeded self progress.dialogue turn cfg.model cfg.transcriptBudget
    cfg.toolsTokens
  let (response, dialogue) ← requestTurn self cfg dialogue turn
  match response.message with
  | none => throw (.error (js "Conversation runtime received no assistant message."))
  | some message =>
    record (.reply message)
    let progress := takeReply progress dialogue response message
    match message.tool_calls.getD [] with
    | [] => return .inl (askToContinue progress)
    | toolCall :: pending => runToolCalls host self cfg turn (toolCall :: pending) progress

/-- The turns from one on, as many as are left. -/
def runTurns : Nat → Nat → Progress → RuntimeM ε TurnSummary
  | 0, _, _ =>
    throw (.error (js "Conversation runtime exceeded maxTurns (" ++ intText cfg.maxTurns ++
      js ") before finish."))
  | left + 1, turn, progress => do
    match ← runOneTurn host self cfg turn progress with
    | .inl progress => runTurns left (turn + 1) progress
    | .inr summary => return summary

def runTurn (input : RunTurnInput ε) : RuntimeM ε TurnSummary := do
  let cfg := settings host self input
  let session ← fromOutside (self.sessionStore.create
    ⟨input.goal, input.cwd, some cfg.model, cfg.reasoningEffort, cfg.approvalPolicy, cfg.sandbox⟩)
  let gitContext ← tryCatch (fromOutside (self.gitContextProvider input.cwd)) fun _ => pure none
  let progress : Progress := ⟨⟨startMessages cfg gitContext, []⟩, emptyUsage, session, false⟩
  tryCatch (runTurns host self cfg cfg.maxTurns.toNat 1 progress) fun error => do
    let _ ← fromOutside (self.sessionStore.fail session
      (formatClassifiedError (classifyApiError error)))
    throw error

section scripted

/-- A host that can parse the JSON texts of a table. -/
def hostWith (texts : List (JsString × Json)) : Host (List ChatMessage) :=
  .bare fun text =>
    match texts.lookup text with
    | some value => .ok value
    | none => .error (.error (js "Unexpected token"))

/-- A runtime whose model answers from a list, with a runner of hooks. -/
def scripted (hookRunner : Hooks.HookRunner (List ChatMessage)) :
    ConversationRuntime (List ChatMessage) where
  apiClient :=
    { chat := fun _ replies =>
        match replies with
        | [] => .error (.error (js "No reply.")) []
        | reply :: replies => .ok ⟨[some reply], none⟩ replies
      chatStream := none }
  toolRegistry := GlobalToolRegistry.builtinRegistry
  sessionStore := .inMemory (js "session-1") (js "2026-05-23T00:00:00.000Z")
  permissionEnforcer := ⟨.never, .workspaceWrite, none, none⟩
  maxTranscriptTokensOverride := none
  compactionRecentLimit := DEFAULT_COMPACTION_RECENT
  gitContextProvider _ := pure none
  hookRunner := hookRunner
  createInteractionHandler _ := none

/-- No hooks. -/
def noHooks : Hooks.HookRunner (List ChatMessage) :=
  ⟨Hooks.emptyHookConfig, fun _ _ _ => pure ⟨some 0, [], []⟩⟩

/-- A machine with an empty workspace that is about to answer. -/
def startWith (replies : List ChatMessage) : Machine (List ChatMessage) :=
  ⟨⟨replies, .dir [(js "w", .dir [])], false⟩, none, [], []⟩

/-- A turn in the workspace. -/
def turnFor (goal : JsString) : RunTurnInput (List ChatMessage) where
  goal := goal
  cwd := js "/w"
  reasoningEffort := none
  model := none
  approvalPolicy := none
  sandbox := none
  maxTurns := none
  resumeMessages := none
  stream := false
  onDelta := none

end scripted

end Solarcido.Conversation
