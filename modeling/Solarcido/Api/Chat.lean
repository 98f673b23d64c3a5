import Solarcido.Tools.Registry

namespace Solarcido.Api

open Text Tools

structure ChatToolCall where
  id : JsString
  name : JsString
  arguments : JsString
  deriving DecidableEq

inductive Role where
  | system
  | user
  | assistant
  | tool
  deriving DecidableEq

def Role.name : Role → JsString
  | .system => js "system"
  | .user => js "user"
  | .assistant => js "assistant"
  | .tool => js "tool"

structure ChatMessage where
  role : Role
  content : Option JsString
  tool_calls : Option (List ChatToolCall)
  tool_call_id : Option JsString
  deriving DecidableEq

/-- A message of text alone. -/
def ChatMessage.text (role : Role) (content : JsString) : ChatMessage :=
  ⟨role, some content, none, none⟩

structure ChatUsage where
  prompt_tokens : Option Int
  completion_tokens : Option Int
  total_tokens : Option Int

structure ChatResponse where
  choices : List (Option ChatMessage)
  usage : Option ChatUsage

/-- `response.choices[0]?.message`. -/
def ChatResponse.message (response : ChatResponse) : Option ChatMessage :=
  response.choices.head?.join

inductive ReasoningEffort where
  | low
  | medium
  | high
  deriving DecidableEq

structure ChatRunOptions where
  model : JsString
  messages : List ChatMessage
  tools : Option (List ChatTool)
  toolChoice : Option JsString
  reasoningEffort : ReasoningEffort
  temperature : ℚ
  maxTokens : Option Int

inductive ChatStreamEvent where
  | delta (text : JsString)
  | done (response : ChatResponse)

/-- A stream is what each pull of it gives; a pull may throw. -/
structure ApiClient (ε : Type) where
  chat : ChatRunOptions → Effect ε ChatResponse
  chatStream : Option (ChatRunOptions → Effect ε (List (Effect ε ChatStreamEvent)))

def DEFAULT_MODEL : JsString := js "solar-pro3-260323"

def DEFAULT_REASONING_EFFORT : ReasoningEffort := .high

section usage

structure TokenUsage where
  inputTokens : Int
  outputTokens : Int
  totalTokens : Int
  deriving DecidableEq

def emptyUsage : TokenUsage := ⟨0, 0, 0⟩

def addUsage (a b : TokenUsage) : TokenUsage :=
  ⟨a.inputTokens + b.inputTokens, a.outputTokens + b.outputTokens,
    a.totalTokens + b.totalTokens⟩

def normalizeUsage (raw : Option ChatUsage) : TokenUsage :=
  match raw with
  | none => emptyUsage
  | some raw =>
    let inputTokens := raw.prompt_tokens.getD 0
    let outputTokens := raw.completion_tokens.getD 0
    ⟨inputTokens, outputTokens, raw.total_tokens.getD (inputTokens + outputTokens)⟩

end usage

section estimates

def isCjk (code : Nat) : Bool :=
  (0x1100 ≤ code && code ≤ 0x11ff) || (0x3000 ≤ code && code ≤ 0x30ff) ||
    (0x3130 ≤ code && code ≤ 0x318f) || (0x3400 ≤ code && code ≤ 0x9fff) ||
    (0xac00 ≤ code && code ≤ 0xd7a3) || (0xf900 ≤ code && code ≤ 0xfaff) ||
    (0xff00 ≤ code && code ≤ 0xffef)

/-- Four units of ASCII make a token, and a unit of CJK makes three fifths of one. -/
def estimateTokens (content : JsString) : Nat :=
  let cjk := content.countP fun u => isCjk u.toNat
  let ascii := content.length - cjk
  ascii / 4 + (3 * cjk + 4) / 5 + 10

def estimateMessageTokens (message : ChatMessage) : Nat :=
  4 + (message.content.map estimateTokens).getD 0 +
    ((message.tool_calls.getD []).map fun call =>
      estimateTokens call.name + estimateTokens call.arguments + 6).sum +
    if message.tool_call_id.getD [] = [] then 0 else 4

def estimateMessagesTokens (messages : List ChatMessage) : Nat :=
  (messages.map estimateMessageTokens).sum

end estimates

section models

structure ModelTokenLimit where
  maxOutputTokens : Int
  contextWindowTokens : Int

/-- Each alias with its canonical name. -/
def ALIAS_TABLE : List (JsString × JsString) :=
  [(js "solar", js "solar-pro3-260323"),
    (js "solar-pro", js "solar-pro3-260323"),
    (js "solar-pro3", js "solar-pro3-260323"),
    (js "grok", js "grok-3"),
    (js "grok-3", js "grok-3"),
    (js "grok-mini", js "grok-3-mini"),
    (js "grok-3-mini", js "grok-3-mini"),
    (js "grok-2", js "grok-2"),
    (js "gpt-4o", js "gpt-4o"),
    (js "gpt-4o-mini", js "gpt-4o-mini"),
    (js "kimi", js "kimi-k2.5"),
    (js "kimi-k2.5", js "kimi-k2.5"),
    (js "kimi-k1.5", js "kimi-k1.5")]

def TOKEN_LIMITS : List (JsString × ModelTokenLimit) :=
  [(js "solar-pro3-260323", ⟨16384, 131072⟩),
    (js "grok-3", ⟨64000, 131072⟩),
    (js "grok-3-mini", ⟨64000, 131072⟩),
    (js "kimi-k2.5", ⟨16384, 256000⟩),
    (js "kimi-k1.5", ⟨16384, 256000⟩)]

def resolveModelAlias (model : JsString) : JsString :=
  (ALIAS_TABLE.lookup (toLowerCase (trim model))).getD (trim model)

def modelTokenLimit (model : JsString) : Option ModelTokenLimit :=
  TOKEN_LIMITS.lookup (resolveModelAlias model)

def maxTokensForModel (model : JsString) : Int :=
  ((modelTokenLimit model).map ModelTokenLimit.maxOutputTokens).getD 4096

end models

end Solarcido.Api
