import Solarcido.Conversation.Pairing
import Solarcido.Conversation.Transcripts
import Solarcido.Tools.PlanMode
import Solarcido.Tools.ReadOnly

namespace Solarcido.Agents

open Text Tools Api ThrowingProgram GlobalToolRegistry
open Conversation (AnswersTo Dialogue assistantMessage callsOf compactTranscript
  estimateTranscriptTokens isTool toolInput toolMessage)

inductive AgentRole where
  | planner
  | explorer
  | executor
  | verifier
  | reviewer
  deriving DecidableEq

structure AgentResult where
  role : AgentRole
  summary : JsString
  findings : List JsString
  changedFiles : List JsString
  evidence : List JsString
  risks : List JsString
  nextSteps : List JsString

structure WorkflowPlan where
  summary : JsString
  requiresModification : Bool
  explorationTargets : List JsString
  executionSteps : List JsString
  verificationCommands : List JsString

structure OrchestrationResult where
  summary : JsString
  changedFiles : List JsString
  nextSteps : List JsString
  agentResults : List AgentResult

/-- A request of an agent. -/
structure AgentRequest where
  model : Option JsString
  messages : List ChatMessage
  tools : Option (List ChatTool)
  toolChoice : Option JsString
  responseFormat : Option Json
  reasoningEffort : ReasoningEffort
  temperature : ℚ

/-- What `orchestrateGoal` is called with. -/
structure Job (ε : Type) where
  client : AgentRequest → Effect ε ChatResponse
  goal : JsString
  cwd : JsString
  reasoningEffort : ReasoningEffort
  model : Option JsString
  approvalPolicy : ApprovalPolicy
  sandbox : SandboxMode

/-- What an agent does that can be seen from outside. -/
inductive AgentEvent where
  /-- A request goes to the model. -/
  | request (role : AgentRole) (request : AgentRequest)
  /-- The model's message is taken up into the agent's conversation. -/
  | reply (role : AgentRole) (message : ChatMessage)
  | toolResult (role : AgentRole) (call : ChatToolCall) (result : ToolExecutionResult)

def AgentEvent.role : AgentEvent → AgentRole
  | .request role _ => role
  | .reply role _ => role
  | .toolResult role _ _ => role

/-- The world the agents work in. The trace is kept for the proofs. -/
structure Workshop (ε : Type) where
  world : World ε
  trace : List AgentEvent

abbrev AgentM (ε α : Type) := EStateM Thrown (Workshop ε) α

section agents

variable {ε α : Type}

def inWorld (x : Action ε α) : AgentM ε α :=
  onPart Workshop.world (fun world m => { m with world }) x

def record (e : AgentEvent) : AgentM ε Unit := modify fun m => { m with trace := m.trace ++ [e] }

/-- What sets an agent with tools apart from the others. -/
structure Agent where
  role : AgentRole
  systemPrompt : JsString
  assignment : JsString
  maxPermission : PermissionMode
  approvalPolicy : ApprovalPolicy
  sandbox : SandboxMode
  temperature : ℚ
  /-- What it throws when a response has no message. -/
  noMessage : JsString
  /-- What it keeps of its transcript before a request. -/
  shorten : List JsString → List JsString

/-- `createToolDefinitions` of an agent. -/
def Agent.tools (agent : Agent) : List ChatTool :=
  definitions (builtinRegistry (ε := Unit)) none (some agent.maxPermission)

/-- The messages an agent starts with. -/
def Agent.opening (agent : Agent) : List ChatMessage :=
  [.text .system agent.systemPrompt, .text .user agent.assignment]

variable (host : Host ε) (job : Job ε)

/-- The context of an agent's calls: no plan mode, and nobody to ask. -/
def callContext (root : JsString) (approvalPolicy : ApprovalPolicy) (sandbox : SandboxMode) :
    ToolExecutionContext ε where
  root := root
  approvalPolicy := approvalPolicy
  sandbox := sandbox
  maxPermission := none
  permissionEnforcer := none
  interaction := none
  planMode := false

def executeToolCall (root : JsString) (toolCall : ChatToolCall) (approvalPolicy : ApprovalPolicy)
    (sandbox : SandboxMode) : Action ε ToolExecutionResult :=
  match host.parseJson (toolInput toolCall) with
  | .error error =>
    return .text (normalizeToolName toolCall.name)
      (js "ERROR: invalid JSON arguments: " ++ error.messageOf)
  | .ok input =>
    builtinRegistry.execute host toolCall.name input (callContext root approvalPolicy sandbox)

variable (agent : Agent)

def agentRequest (messages : List ChatMessage) : AgentRequest where
  model := job.model
  messages := messages
  tools := some agent.tools
  toolChoice := some (js "auto")
  responseFormat := none
  reasoningEffort := job.reasoningEffort
  temperature := agent.temperature

def takeReply (dialogue : Dialogue) (message : ChatMessage) : Dialogue where
  messages := dialogue.messages ++ [assistantMessage message]
  transcript := dialogue.transcript ++
    if (message.content.getD []).isEmpty then []
    else [js "assistant: " ++ message.content.getD []]

def takeResult (dialogue : Dialogue) (toolCall : ChatToolCall) (result : ToolExecutionResult) :
    Dialogue where
  messages := dialogue.messages ++ [toolMessage toolCall result.content]
  transcript := dialogue.transcript ++
    [js "tool:" ++ result.toolName ++ js ": " ++ result.content]

/-- The calls of a reply, up to one that finishes. -/
def runToolCalls : List ChatToolCall → Dialogue → AgentM ε (Dialogue × Option FinishPayload)
  | [], dialogue => return (dialogue, none)
  | toolCall :: pending, dialogue => do
    let result ←
      inWorld (executeToolCall host job.cwd toolCall agent.approvalPolicy agent.sandbox)
    record (.toolResult agent.role toolCall result)
    match result.finish with
    | some finish => return (takeResult dialogue toolCall result, some finish)
    | none => runToolCalls pending (takeResult dialogue toolCall result)

/-- One pass of an agent's loop. -/
def runTurn (dialogue : Dialogue) : AgentM ε (Dialogue × Option FinishPayload) := do
  record (.request agent.role (agentRequest job agent dialogue.messages))
  let response ← inWorld (outside (job.client (agentRequest job agent dialogue.messages)))
  match response.message with
  | none => throw (.error agent.noMessage)
  | some message =>
    record (.reply agent.role message)
    runToolCalls host job agent (message.tool_calls.getD [])
      (takeReply ⟨dialogue.messages, agent.shorten dialogue.transcript⟩ message)

/-- An agent's loop, watched for so many passes: nothing when it still goes on. -/
def runAgent : Nat → Dialogue → AgentM ε (Option (Dialogue × FinishPayload))
  | 0, _ => return none
  | turns + 1, dialogue => do
    let (after, finish) ← runTurn host job agent dialogue
    match finish with
    | some finish => return some (after, finish)
    | none => runAgent turns after

end agents

section planning

variable {ε : Type} (host : Host ε) (job : Job ε)

def planError : Thrown :=
  .object ⟨true, false, some (js "TypeError"), none, none, none, none, none, none, js "TypeError"⟩

/-- `!value` of a member, which may be absent. -/
def isFalsy : Option Json → Bool
  | none => true
  | some .null => true
  | some (.bool b) => !b
  | some (.num n) => n = .nan || n = .finite 0
  | some (.str s) => s.isEmpty
  | some (.arr _) => false
  | some (.obj _) => false

def planText (value : Option Json) : Except Thrown JsString :=
  if isFalsy value then .ok []
  else
    match value with
    | some (.str s) => .ok s
    | _ => .error planError

def planItems : List Json → Except Thrown (List JsString)
  | [] => .ok []
  | .str s :: items => do return s :: (← planItems items)
  | _ :: _ => .error planError

def planList (value : Option Json) : Except Thrown (List JsString) :=
  if isFalsy value then .ok []
  else
    match value with
    | some (.arr items) => planItems items
    | _ => .error planError

/-- The plan in a response, with its defaults. -/
def readPlan (plan : Json) : Except Thrown WorkflowPlan :=
  match plan with
  | .obj _ | .arr _ => do
    let summary ← planText (plan.member (js "summary"))
    let explorationTargets ← planList (plan.member (js "explorationTargets"))
    let executionSteps ← planList (plan.member (js "executionSteps"))
    let verificationCommands ← planList (plan.member (js "verificationCommands"))
    return { summary
             requiresModification := !isFalsy (plan.member (js "requiresModification"))
             explorationTargets
             executionSteps
             verificationCommands }
  | _ => .error planError

def workflowPlanFormat : Json :=
  let strings := Json.ofMembers [("type", .str (js "array")), ("items", Schema.typed "string")]
  .ofMembers [("type", .str (js "json_schema")),
    ("json_schema", .ofMembers [("name", .str (js "workflow_plan")), ("strict", .bool true),
      ("schema", Schema.object [("summary", Schema.typed "string"),
        ("requiresModification", Schema.typed "boolean"), ("explorationTargets", strings),
        ("executionSteps", strings), ("verificationCommands", strings)]
        ["summary", "requiresModification", "explorationTargets", "executionSteps",
          "verificationCommands"])])]

def planRequest : AgentRequest where
  model := job.model
  messages :=
    [.text .system (js "You are a planning agent in a Solar-only CLI. Break the user's goal into short actionable steps. Return JSON only."),
      .text .user job.goal]
  tools := none
  toolChoice := none
  responseFormat := some workflowPlanFormat
  reasoningEffort := job.reasoningEffort
  temperature := 2 / 10

def createPlan : AgentM ε WorkflowPlan := do
  record (.request .planner (planRequest job))
  let response ← inWorld (outside (job.client (planRequest job)))
  let content := (response.message.bind ChatMessage.content).getD []
  if content.isEmpty then throw (.error (js "Planner returned no content."))
  else
    inWorld (orThrow do
      let plan ← host.parseJson content
      readPlan plan)

end planning

section roles

variable {ε : Type} (host : Host ε) (job : Job ε) (plan : WorkflowPlan)

def joined (items : List JsString) : JsString := join (js ", ") items

/-- `items.join(", ") || "<none>"`. -/
def joinedOrNone (items : List JsString) : JsString :=
  if (joined items).isEmpty then js "<none>" else joined items

/-- The system message of an agent; only the second sentence differs. -/
def agentPrompt (role : JsString) (toolRule : JsString) : JsString :=
  join (js " ")
    [js "You are " ++ role ++ js " agent in a Solar-only CLI.", toolRule,
      js "Stay inside the provided working directory.",
      js "When the task is complete, call the finish tool.",
      js "Do not mention other models or fallback behavior."]

def readOnlyRule : JsString := js "You must use read-only tools only."

/-- An agent that may look and not touch. -/
def readOnlyAgent (role : AgentRole) (systemPrompt assignment : JsString) (temperature : ℚ)
    (noMessage : JsString) : Agent where
  role := role
  systemPrompt := systemPrompt
  assignment := assignment
  maxPermission := .readOnly
  approvalPolicy := .never
  sandbox := .readOnly
  temperature := temperature
  noMessage := noMessage
  shorten := id

def explorer : Agent :=
  readOnlyAgent .explorer (agentPrompt (js "an explorer") readOnlyRule)
    (join (js "\n")
      [js "Goal: " ++ job.goal,
        js "Plan summary: " ++ plan.summary,
        js "Plan steps: " ++ joinedOrNone plan.executionSteps,
        js "Exploration targets: " ++ joinedOrNone plan.explorationTargets,
        js "Working directory: " ++ job.cwd])
    (2 / 10) (js "Explorer returned no message.")

def executorBudget : ℚ := 90 * 131072 / 100

def shortenTranscript (transcript : List JsString) : List JsString :=
  if (estimateTranscriptTokens transcript : ℚ) > executorBudget then
    compactTranscript transcript executorBudget
  else transcript

def executor : Agent where
  role := .executor
  systemPrompt := agentPrompt (js "the executor")
    (js "You must use tools whenever you need repository context or want to change files.")
  assignment := join (js "\n")
    [js "Goal: " ++ job.goal,
      js "Working directory: " ++ job.cwd,
      js "Plan summary: " ++ plan.summary,
      js "Exploration targets: " ++ joinedOrNone plan.explorationTargets,
      js "Execution steps: " ++ joinedOrNone plan.executionSteps,
      js "Verification commands: " ++ joinedOrNone plan.verificationCommands]
  maxPermission := job.sandbox.permission
  approvalPolicy := job.approvalPolicy
  sandbox := job.sandbox
  temperature := 2 / 10
  noMessage := js "Executor returned no message."
  shorten := shortenTranscript

def verifier (finish : FinishPayload) : Agent :=
  readOnlyAgent .verifier (agentPrompt (js "a verifier") readOnlyRule)
    (join (js "\n")
      [js "Goal: " ++ job.goal,
        js "Plan summary: " ++ plan.summary,
        js "Execution summary: " ++ finish.summary,
        js "Changed files: " ++ joined finish.changed_files,
        js "Suggested next steps: " ++ joined finish.next_steps,
        js "Verification commands: " ++ joined plan.verificationCommands,
        js "Working directory: " ++ job.cwd])
    (2 / 10) (js "Verifier returned no message.")

def reviewer (explorerResult : AgentResult) (finish : FinishPayload)
    (verifierResult : AgentResult) : Agent :=
  readOnlyAgent .reviewer (agentPrompt (js "a reviewer") readOnlyRule)
    (join (js "\n")
      [js "Goal: " ++ job.goal,
        js "Plan summary: " ++ plan.summary,
        js "Plan steps: " ++ joinedOrNone plan.executionSteps,
        js "Exploration targets: " ++ joinedOrNone plan.explorationTargets,
        js "Verification commands: " ++ joinedOrNone plan.verificationCommands,
        js "Execution summary: " ++ finish.summary,
        js "Changed files: " ++ joined finish.changed_files,
        js "Suggested next steps: " ++ joined finish.next_steps,
        js "Explorer findings: " ++ joinedOrNone explorerResult.findings,
        js "Explorer risks: " ++ joinedOrNone explorerResult.risks,
        js "Explorer evidence: " ++ joinedOrNone explorerResult.evidence,
        js "Verifier findings: " ++ joinedOrNone verifierResult.findings,
        js "Verifier risks: " ++ joinedOrNone verifierResult.risks,
        js "Verifier evidence: " ++ joinedOrNone verifierResult.evidence,
        js "Transcript: ",
        js "Working directory: " ++ job.cwd])
    (1 / 10) (js "Reviewer returned no message.")

def plannerResult : AgentResult where
  role := .planner
  summary := plan.summary
  findings := plan.executionSteps
  changedFiles := []
  evidence := []
  risks := []
  nextSteps := plan.executionSteps

def fileEvidence (finish : FinishPayload) : List JsString :=
  finish.changed_files.map fun file => js "File: " ++ file

def explorerResult (finish : FinishPayload) : AgentResult where
  role := .explorer
  summary := finish.summary
  findings := finish.next_steps
  changedFiles := []
  evidence := fileEvidence finish
  risks := []
  nextSteps := finish.next_steps

/-- What the executor and the verifier make of their finish. -/
def workResult (role : AgentRole) (finish : FinishPayload) : AgentResult where
  role := role
  summary := finish.summary
  findings := finish.next_steps
  changedFiles := finish.changed_files
  evidence := fileEvidence finish
  risks := finish.next_steps.map fun step => js "Risk: " ++ step
  nextSteps := finish.next_steps

def reviewerResult (finish : FinishPayload) : AgentResult where
  role := .reviewer
  summary := finish.summary
  findings := finish.next_steps
  changedFiles := []
  evidence := []
  risks := finish.next_steps.map fun concern => js "Concern: " ++ concern
  nextSteps := finish.next_steps

/-- What the agents' plan and finishes are combined into. -/
def orchestrationResult (explored executed verified reviewed : FinishPayload) :
    OrchestrationResult where
  summary := js "Goal \"" ++ job.goal ++ js "\" completed via multi-agent orchestration."
  changedFiles := executed.changed_files
  nextSteps := reviewed.next_steps
  agentResults := [plannerResult plan, explorerResult explored, workResult .executor executed,
    workResult .verifier verified, reviewerResult reviewed]

/-- The executor's own part of an orchestration. -/
def executePlan (plan : WorkflowPlan) (turns : Nat) :
    AgentM ε (Option (Dialogue × FinishPayload)) :=
  runAgent host job (executor job plan) turns ⟨(executor job plan).opening, []⟩

/-- An agent from its opening messages on, watched for so many passes of its loop. What comes
next begins when it has finished. -/
def conduct {α : Type} (agent : Agent) (turns : Nat) (next : FinishPayload → AgentM ε (Option α)) :
    AgentM ε (Option α) := do
  match ← runAgent host job agent turns ⟨agent.opening, []⟩ with
  | none => return none
  | some (_, finish) => next finish

/-- The agents one after the other: nothing when one of them still goes on. -/
def orchestrateGoal (turns : Nat) : AgentM ε (Option OrchestrationResult) := do
  let plan ← createPlan host job
  conduct host job (explorer job plan) turns fun explored =>
    conduct host job (executor job plan) turns fun executed =>
      conduct host job (verifier job plan executed) turns fun verified =>
        conduct host job (reviewer job plan (explorerResult explored) executed
            (workResult .verifier verified)) turns fun reviewed =>
          return some (orchestrationResult job plan explored executed verified reviewed)

end roles

end Solarcido.Agents
