import Solarcido.Js.LowerCase

namespace Solarcido.Workers

open Text Search

inductive WorkerPromptTarget where
  | shell
  | wrongTarget
  | wrongTask
  | unknown
  deriving DecidableEq

inductive ToolPermissionAllowScope where
  | sessionOnly
  | sessionOrAlways
  | unknown
  deriving DecidableEq

structure WorkerTaskReceipt where
  repo : JsString
  taskKind : JsString
  sourceSurface : JsString
  expectedArtifacts : List JsString
  objectivePreview : JsString
  deriving DecidableEq

section texts

/-- A string that is there and not empty. -/
def truthy : Option JsString → Bool
  | some s => !s.isEmpty
  | none => false

/-- `value || undefined`. -/
def orUndefined (value : JsString) : Option JsString := if value.isEmpty then none else some value

def includesAny (text : JsString) (cues : List JsString) : Bool :=
  cues.any fun cue => includes text cue

def slice (s : JsString) (first last : Nat) : JsString := (s.take last).drop first

/-- `s.indexOf(pat, from)`. -/
def indexOfFrom (s pat : JsString) (start : Nat) : Option Nat :=
  (firstIndexOf pat (s.drop start)).map (start + ·)

/-- `s.split(/\s+/)`: `inRun` tells that the last unit was white space. -/
def splitSpacesFrom : Bool → JsString → JsString → List JsString
  | _, piece, [] => [piece.reverse]
  | inRun, piece, u :: rest =>
    if isWhiteSpace u then
      if inRun then splitSpacesFrom true piece rest
      else piece.reverse :: splitSpacesFrom true [] rest
    else splitSpacesFrom false (u :: piece) rest

def splitSpaces (s : JsString) : List JsString := splitSpacesFrom false [] s

/-- `[?:"']`. -/
def isPromptMark (u : UInt16) : Bool := u == 63 || u == 58 || u == 34 || u == 39

def dropOne (p : UInt16 → Bool) : JsString → JsString
  | [] => []
  | u :: rest => if p u then rest else u :: rest

/-- `s.replace(/^[?:"']|[?:"']$/g, "")`. -/
def stripPromptMarks (s : JsString) : JsString :=
  (dropOne isPromptMark (dropOne isPromptMark s).reverse).reverse

def lines (screenText : JsString) : List JsString := split screenText (js "\n")

end texts

/-- Trim prompt to at most 48 characters for display. -/
def promptPreview (prompt : JsString) : JsString :=
  let trimmed := trim prompt
  if (codePoints trimmed).length ≤ 48 then trimmed
  else trimEnd (fromCodePoints ((codePoints trimmed).take 48)) ++ js "…"

section paths

/-- `p.replace(/\/+/g, "/")`. -/
def collapseSlashes : JsString → JsString
  | [] => []
  | [u] => [u]
  | u :: v :: rest =>
    if u = 47 ∧ v = 47 then collapseSlashes (v :: rest) else u :: collapseSlashes (v :: rest)

def norm (p : JsString) : JsString :=
  let collapsed := collapseSlashes (p.map fun u => if u = 92 then 47 else u)
  if endsWith collapsed (js "/") then collapsed.dropLast else collapsed

def pathMatchesAllowlist (cwd trustedRoot : JsString) : Bool :=
  let c := norm cwd
  let r := norm trustedRoot
  c == r || startsWith c (r ++ js "/")

end paths

section detectors

def TRUST_PROMPT_CUES : List JsString :=
  [js "do you trust the files in this folder", js "trust the files in this folder",
    js "trust this folder", js "allow and continue", js "yes, proceed"]

def detectTrustPrompt (lowered : JsString) : Bool := includesAny lowered TRUST_PROMPT_CUES

def READY_FOR_PROMPT_CUES : List JsString :=
  [js "ready for input", js "ready for your input", js "ready for prompt", js "send a message"]

def isShellPrompt (trimmed : JsString) : Bool :=
  endsWith trimmed (js "$") || endsWith trimmed (js "%") || endsWith trimmed (js "#") ||
    startsWith trimmed (js "$") || startsWith trimmed (js "%") || startsWith trimmed (js "#")

/-- A line that shows the input mark of a coding agent. -/
def isInputLine (trimmed : JsString) : Bool :=
  trimmed == js ">" || trimmed == js "›" || trimmed == js "❯" || startsWith trimmed (js "> ") ||
    startsWith trimmed (js "› ") || startsWith trimmed (js "❯ ") ||
    includes trimmed (js "│ >") || includes trimmed (js "│ ›") || includes trimmed (js "│ ❯")

def detectReadyForPrompt (screenText lowered : JsString) : Bool :=
  if includesAny lowered READY_FOR_PROMPT_CUES then true
  else
    match (lines screenText).reverse.find? fun l => !(trim l).isEmpty with
    | none => false
    | some lastNonEmpty =>
      let trimmed := trim lastNonEmpty
      if isShellPrompt trimmed then false else isInputLine trimmed

def RUNNING_CUES : List JsString :=
  [js "thinking", js "working", js "running tests", js "inspecting", js "analyzing"]

def detectRunningCue (lowered : JsString) : Bool := includesAny lowered RUNNING_CUES

end detectors

section toolPermission

structure ToolPermissionObservation where
  serverName : Option JsString
  toolName : Option JsString
  allowScope : ToolPermissionAllowScope
  promptPreview : JsString

def toolPermissionMessage (obs : ToolPermissionObservation) : JsString :=
  let blocked := js "worker boot blocked on tool permission prompt"
  let server := obs.serverName.getD []
  let tool := obs.toolName.getD []
  if truthy obs.serverName && truthy obs.toolName then
    blocked ++ js " for " ++ server ++ js "." ++ tool
  else if truthy obs.serverName then blocked ++ js " for " ++ server
  else if truthy obs.toolName then blocked ++ js " for " ++ tool
  else blocked

def extractQuotedValue (text : JsString) : Option JsString := do
  let start ← firstIndexOf (js "\"") text
  let last ← indexOfFrom text (js "\"") (start + 1)
  return slice text (start + 1) last

def extractBetween (text before after : JsString) : Option JsString := do
  let start ← firstIndexOf before text
  let rest := text.drop (start + before.length)
  let last ← firstIndexOf after rest
  orUndefined (trim (rest.take last))

def extractAfter (text before : JsString) : Option JsString := do
  let start ← firstIndexOf before (toLowerCase text)
  let token ← (splitSpaces (text.drop (start + before.length))).head?
  orUndefined (stripPromptMarks token)

def extractServerFromQualifiedTool (tool : JsString) : Option JsString :=
  if !startsWith tool (js "mcp__") then none
  else do
    let rest := tool.drop (js "mcp__").length
    let idx ← firstIndexOf (js "__") rest
    orUndefined (rest.take idx)

def detectToolPermissionAllowScope (lowered : JsString) : ToolPermissionAllowScope :=
  if includesAny lowered [js "always allow", js "allow always", js "allow this tool always",
      js "allow for all sessions"] then .sessionOrAlways
  else if includesAny lowered [js "allow once", js "allow for this session",
      js "allow this session", js "yes, allow"] then .sessionOnly
  else .unknown

def looksLikePrompt (lowered : JsString) : Bool :=
  includes lowered (js "allow the") && includes lowered (js "server") &&
    includes lowered (js "tool") && includes lowered (js "run")

def looksLikeToolGate (lowered : JsString) : Bool :=
  includes lowered (js "allow tool") && includes lowered (js "run")

def isToolPermissionLine (line : JsString) : Bool :=
  let ll := toLowerCase line
  includes ll (js "allow") && includes ll (js "tool") &&
    (includes ll (js "run") || includes ll (js "server"))

/-- `s.replace(/ MCP$/, "")`. -/
def stripMcp (s : JsString) : JsString :=
  if endsWith s (js " MCP") then s.take (s.length - 4) else s

def detectToolPermissionPrompt (screenText lowered : JsString) :
    Option ToolPermissionObservation :=
  if !looksLikePrompt lowered && !looksLikeToolGate lowered then none
  else
    let promptLine := trim (((lines screenText).reverse.find? isToolPermissionLine).getD screenText)
    let toolName := (extractQuotedValue promptLine).or
      ((extractAfter promptLine (js "tool ")).map fun s => s.filter fun u => !isPromptMark u)
    let serverName := ((extractBetween promptLine (js "the ") (js " server")).map stripMcp).or
      (if truthy toolName then toolName.bind extractServerFromQualifiedTool else none)
    some {
      serverName := serverName
      toolName := toolName
      allowScope := detectToolPermissionAllowScope lowered
      promptPreview := Workers.promptPreview promptLine }

end toolPermission

section misdelivery

structure PromptDeliveryObservation where
  target : WorkerPromptTarget
  observedCwd : Option JsString
  observedPromptPreview : Option JsString

/-- What stands behind the input mark at the front of a line. -/
def echoOf (line : JsString) : Option JsString :=
  let stripped := trim (dropOne (· == 8250) (trimStart line))
  if startsWith (trimStart line) (js "›") then orUndefined stripped else none

def detectPromptEcho (screenText : JsString) : Option JsString := (lines screenText).findSome? echoOf

def isShellPromptToken (token : JsString) : Bool :=
  [js "$", js "%", js "#", js ">", js "›", js "❯"].contains token

def looksLikeCwdLabel (candidate : JsString) : Bool :=
  startsWith candidate (js "/") || startsWith candidate (js "~") || startsWith candidate (js ".") ||
    includes candidate (js "/")

/-- The label in front of the first prompt token of a line. -/
def cwdLabelOf (line : JsString) : Option JsString := do
  let tokens := splitSpaces line
  let promptIdx ← tokens.findIdx? isShellPromptToken
  if promptIdx = 0 then none
  else
    let candidate ← tokens[promptIdx - 1]?
    if !candidate.isEmpty && looksLikeCwdLabel candidate then some candidate else none

def detectObservedShellCwd (screenText : JsString) : Option JsString :=
  (lines screenText).findSome? cwdLabelOf

def cwdMatchesObservedTarget (expectedCwd observedCwd : JsString) : Bool :=
  let e := norm expectedCwd
  let o := norm observedCwd
  let eBase := (split e (js "/")).getLast?.getD e
  let oBase := (split o (js "/")).getLast?.getD o
  endsWith e o || endsWith o e || eBase == oBase

def taskReceiptVisible (loweredScreenText : JsString) (receipt : WorkerTaskReceipt) : Bool :=
  let tokens := [toLowerCase receipt.repo, toLowerCase receipt.taskKind,
    toLowerCase receipt.sourceSurface, toLowerCase receipt.objectivePreview]
  (tokens.all fun t => includes loweredScreenText t) &&
    receipt.expectedArtifacts.all fun a => includes loweredScreenText (toLowerCase a)

def SHELL_ERROR_CUES : List JsString :=
  [js "command not found", js "syntax error near unexpected token", js "parse error near",
    js "no such file or directory", js "unknown command"]

/-- The first line of a prompt that is not blank, trimmed and lowered. -/
def promptSnippetOf (prompt : JsString) : JsString :=
  toLowerCase (trim (((split prompt (js "\n")).find? fun l => !(trim l).isEmpty).getD []))

def wrongTask (lowered promptSnippet : JsString) (observedPromptPreview : Option JsString)
    (expectedReceipt : Option WorkerTaskReceipt) : Bool :=
  match expectedReceipt with
  | none => false
  | some receipt =>
    let mismatchedPromptVisible := match observedPromptPreview with
      | none => false
      | some preview => !includes (toLowerCase preview) promptSnippet
    (includes lowered promptSnippet || mismatchedPromptVisible) &&
      !taskReceiptVisible lowered receipt

def wrongTarget (expectedCwd : JsString) (promptVisible : Bool) (observedCwd : Option JsString) :
    Bool :=
  match observedCwd with
  | none => false
  | some cwd => !cwd.isEmpty && promptVisible && !cwdMatchesObservedTarget expectedCwd cwd

def detectPromptMisdelivery (screenText lowered : JsString) (prompt : Option JsString)
    (expectedCwd : JsString) (expectedReceipt : Option WorkerTaskReceipt) :
    Option PromptDeliveryObservation :=
  let promptSnippet := promptSnippetOf (prompt.getD [])
  if !truthy prompt || promptSnippet.isEmpty then none
  else
    let promptVisible := includes lowered promptSnippet
    let observedPromptPreview := detectPromptEcho screenText
    let observedCwd := detectObservedShellCwd screenText
    if wrongTask lowered promptSnippet observedPromptPreview expectedReceipt then
      some ⟨.wrongTask, observedCwd, observedPromptPreview⟩
    else if wrongTarget expectedCwd promptVisible observedCwd then
      some ⟨.wrongTarget, observedCwd, observedPromptPreview⟩
    else if includesAny lowered SHELL_ERROR_CUES && promptVisible then
      some ⟨.shell, none, observedPromptPreview⟩
    else none

def promptMisdeliveryDetail : WorkerPromptTarget → JsString
  | .shell => js "shell misdelivery detected"
  | .wrongTarget => js "prompt landed in wrong target"
  | .wrongTask => js "prompt receipt mismatched expected task context"
  | .unknown => js "prompt delivery failure detected"

end misdelivery

end Solarcido.Workers
