import Solarcido.Api.Errors
import Solarcido.Conversation.Machine

namespace Solarcido.Conversation.Hooks

open Text
open Tools (Host Effect)

structure HookConfig where
  preToolUse : List JsString
  postToolUse : List JsString
  postToolUseFailure : List JsString

def emptyHookConfig : HookConfig := ⟨[], [], []⟩

inductive PermissionDecision where
  | allow
  | deny
  | ask
  deriving DecidableEq

structure HookRunResult where
  denied : Bool
  failed : Bool
  messages : List JsString
  permissionDecision : Option PermissionDecision
  permissionReason : Option JsString
  updatedInput : Option JsString

def allow : HookRunResult := ⟨false, false, [], none, none, none⟩

structure ParsedHookOutput where
  messages : List JsString
  deny : Bool
  permissionDecision : Option PermissionDecision
  permissionReason : Option JsString
  updatedInput : Option JsString

/-- Nothing but messages. -/
def ParsedHookOutput.ofMessages (messages : List JsString) : ParsedHookOutput :=
  ⟨messages, false, none, none, none⟩

structure HookRunner (ε : Type) where
  config : HookConfig
  execute : JsString → List (JsString × JsString) → JsString → Effect ε HookCommandResult

variable {ε : Type} (host : Host ε)

section output

def looksLikeJsonAttempt (value : JsString) : Bool :=
  match (trimStart value).head? with
  | some u => u == 123 || u == 91
  | none => false

def PREVIEW_LIMIT : Nat := 160

def escapeControls (s : JsString) : JsString :=
  s.flatMap fun u =>
    if u = 10 then js "\\n" else if u = 13 then js "\\r" else if u = 9 then js "\\t" else [u]

def preview (value : JsString) : JsString :=
  let points := codePoints (trim value)
  let escaped := escapeControls (fromCodePoints (points.take PREVIEW_LIMIT))
  if points.length > PREVIEW_LIMIT then escaped ++ js "…" else escaped

def invalidJsonMessage (event : HookEvent) (toolName command stdout stderr : JsString) : JsString :=
  let shownError := preview stderr
  js "hook_invalid_json: phase=" ++ event.name ++ js " tool=" ++ toolName ++ js " command=" ++
    preview command ++ js " stdout_preview=" ++ preview stdout ++ js " stderr_preview=" ++
    if shownError.isEmpty then js "<empty>" else shownError

def stringMember (object : Json) (key : String) : Option JsString :=
  Json.asString (object.member (js key))

/-- `value === false`. -/
def isFalse : Option Json → Bool
  | some (.bool false) => true
  | _ => false

def parseDecision (specific : Json) : Option PermissionDecision :=
  match stringMember specific "permissionDecision" with
  | some decision =>
    if decision = js "allow" then some .allow
    else if decision = js "deny" then some .deny
    else if decision = js "ask" then some .ask
    else none
  | none => none

/-- What an object on stdout says. -/
def parseHookObject (object : Json) (stdout : JsString) : ParsedHookOutput :=
  let messages :=
    (stringMember object "systemMessage").toList ++ (stringMember object "reason").toList
  let deny := isFalse (object.member (js "continue")) ||
    stringMember object "decision" = some (js "block")
  -- A member that is no object has no members of its own.
  let specific := (object.member (js "hookSpecificOutput")).getD .null
  let messages := messages ++ (stringMember specific "additionalContext").toList
  { messages := if messages.isEmpty then [stdout] else messages
    deny
    permissionDecision := parseDecision specific
    permissionReason := stringMember specific "permissionDecisionReason"
    updatedInput := (specific.member (js "updatedInput")).map (Json.stringify host.numberText) }

def parseHookOutput (event : HookEvent) (toolName command stdout stderr : JsString) :
    ParsedHookOutput :=
  if stdout.isEmpty then .ofMessages []
  else
    match host.parseJson stdout with
    | .error _ =>
      if looksLikeJsonAttempt stdout then
        .ofMessages [invalidJsonMessage event toolName command stdout stderr]
      else .ofMessages [stdout]
    | .ok root => if root.isObject then parseHookObject host root stdout else .ofMessages [stdout]

end output

section running

def parseToolInput (toolInput : JsString) : Json :=
  match host.parseJson toolInput with
  | .ok input => input
  | .error _ => .ofMembers [("raw", .str toolInput)]

def hookPayload (event : HookEvent) (toolName toolInput : JsString) (toolOutput : Option JsString)
    (isError : Bool) : Json :=
  .ofMembers
    ([("hook_event_name", .str event.name), ("tool_name", .str toolName),
      ("tool_input", parseToolInput host toolInput), ("tool_input_json", .str toolInput)] ++
      if event = .postToolUseFailure then
        (toolOutput.map fun output => ("tool_error", Json.str output)).toList ++
          [("tool_result_is_error", .bool true)]
      else
        [("tool_output", (toolOutput.map Json.str).getD .null),
          ("tool_result_is_error", .bool isError)])

def hookEnv (event : HookEvent) (toolName toolInput : JsString) (toolOutput : Option JsString)
    (isError : Bool) : List (JsString × JsString) :=
  [(js "HOOK_EVENT", event.name), (js "HOOK_TOOL_NAME", toolName),
    (js "HOOK_TOOL_INPUT", toolInput),
    (js "HOOK_TOOL_IS_ERROR", if isError then js "1" else js "0")] ++
    (toolOutput.map fun output => (js "HOOK_TOOL_OUTPUT", output)).toList

def mergeParsed (target : HookRunResult) (parsed : ParsedHookOutput) : HookRunResult :=
  { target with
    messages := target.messages ++ parsed.messages
    permissionDecision := parsed.permissionDecision.orElse fun _ => target.permissionDecision
    permissionReason := parsed.permissionReason.orElse fun _ => target.permissionReason
    updatedInput := parsed.updatedInput.orElse fun _ => target.updatedInput }

/-- The messages so far, or a last resort when there is none. -/
def orMessage (messages : List JsString) (message : JsString) : List JsString :=
  if messages.isEmpty then [message] else messages

def formatHookFailure (command : JsString) (code : Option Int) (stderr : JsString) : JsString :=
  js "Hook `" ++ command ++ js "` exited with status " ++
    (code.map Api.intText).getD (js "signal") ++
    if stderr.isEmpty then [] else js ": " ++ stderr

/-- What a command comes to, from the environment it starts in. -/
def tryHook (x : Effect ε HookCommandResult) : Effect ε HookOutcome :=
  tryCatch (do return .exited (← x)) fun error => return .failedToStart error

/-- What a hook's outcome does to the result, and whether the next hook is run. -/
def judge (event : HookEvent) (toolName command : JsString) (result : HookRunResult) :
    HookOutcome → HookRunResult × Bool
  | .failedToStart error =>
    ({ result with
      failed := true
      messages := result.messages ++ [event.name ++ js " hook `" ++ command ++
        js "` failed to start: " ++ error.messageOf] }, false)
  | .exited exec =>
    let stderr := trim exec.stderr
    let parsed := parseHookOutput host event toolName command (trim exec.stdout) stderr
    let result := mergeParsed result parsed
    if exec.exitCode = some 0 then
      if parsed.deny then ({ result with denied := true }, false) else (result, true)
    else if exec.exitCode = some 2 then
      ({ result with
        denied := true
        messages := orMessage result.messages
          (event.name ++ js " hook denied tool `" ++ toolName ++ js "`") }, false)
    else
      ({ result with
        failed := true
        messages := orMessage result.messages (formatHookFailure command exec.exitCode stderr) },
        false)

variable (runner : HookRunner ε) (event : HookEvent) (toolName : JsString)
  (env : List (JsString × JsString)) (payload : JsString)

def runEach : List JsString → HookRunResult → RuntimeM ε HookRunResult
  | [], result => return result
  | command :: commands, result => do
    let outcome ← fromOutside (tryHook (runner.execute command env payload))
    record (.hook event command outcome)
    let (result, next) := judge host event toolName command result outcome
    if next then runEach commands result else return result

def runCommands (commands : List JsString) (toolInput : JsString) (toolOutput : Option JsString)
    (isError : Bool) : RuntimeM ε HookRunResult :=
  let payload := Json.stringify host.numberText
    (hookPayload host event toolName toolInput toolOutput isError)
  runEach host runner event toolName (hookEnv event toolName toolInput toolOutput isError) payload
    commands allow

def runPreToolUse (toolInput : JsString) : RuntimeM ε HookRunResult :=
  runCommands host runner .preToolUse toolName runner.config.preToolUse toolInput none false

def runPostToolUse (toolInput toolOutput : JsString) (isError : Bool) :
    RuntimeM ε HookRunResult :=
  runCommands host runner .postToolUse toolName runner.config.postToolUse toolInput
    (some toolOutput) isError

def runPostToolUseFailure (toolInput toolError : JsString) : RuntimeM ε HookRunResult :=
  runCommands host runner .postToolUseFailure toolName runner.config.postToolUseFailure toolInput
    (some toolError) true

end running

end Solarcido.Conversation.Hooks
