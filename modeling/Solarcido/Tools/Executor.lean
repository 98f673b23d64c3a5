import Solarcido.Tools.FileOps
import Solarcido.Tools.Specs

namespace Solarcido.Tools

open Text

inductive TodoStatus where
  | pending
  | inProgress
  | completed
  deriving DecidableEq

def TodoStatus.name : TodoStatus → JsString
  | .pending => js "pending"
  | .inProgress => js "in_progress"
  | .completed => js "completed"

def TODO_STATUSES : List TodoStatus := [.pending, .inProgress, .completed]

structure TodoItem where
  content : JsString
  activeForm : JsString
  status : TodoStatus
  deriving DecidableEq

def TodoItem.toJson (todo : TodoItem) : Json :=
  .ofMembers [("content", .str todo.content), ("activeForm", .str todo.activeForm),
    ("status", .str todo.status.name)]

/-- The members of an input that is an object; any other input has none. -/
def objectInput (input : Json) : Json := if input.isObject then input else .obj []

def requireString (value : Option Json) (name : JsString) : Except Thrown JsString :=
  match value with
  | some (.str s) => .ok s
  | _ => .error (.error (name ++ js " must be a string."))

def arrayOfStrings : Option Json → List JsString
  | some (.arr items) => items.filterMap fun item => Json.asString (some item)
  | _ => []

section todos

def todoError (index : Nat) (rest : String) : JsString :=
  js "ERROR: todos[" ++ Number.decimal index ++ js "]" ++ js rest

/-- A member that is a string and not empty. -/
def nonEmptyString (item : Json) (key : String) : Option JsString :=
  match item.member (js key) with
  | some (.str s) => if s.isEmpty then none else some s
  | _ => none

def parseStatus (item : Json) : Option TodoStatus :=
  match item.member (js "status") with
  | some (.str s) => TODO_STATUSES.find? fun status => status.name = s
  | _ => none

def parseTodo (index : Nat) (item : Json) : Except JsString TodoItem :=
  if !item.isObject then .error (todoError index " must be an object.")
  else
    match nonEmptyString item "content" with
    | none => .error (todoError index ".content must be a non-empty string.")
    | some content =>
      match nonEmptyString item "activeForm" with
      | none => .error (todoError index ".activeForm must be a non-empty string.")
      | some activeForm =>
        match parseStatus item with
        | none =>
          .error (todoError index ".status must be one of pending, in_progress, completed.")
        | some status => .ok ⟨content, activeForm, status⟩

def parseTodosFrom : Nat → List Json → Except JsString (List TodoItem)
  | _, [] => .ok []
  | index, item :: items =>
    match parseTodo index item with
    | .error e => .error e
    | .ok todo =>
      match parseTodosFrom (index + 1) items with
      | .error e => .error e
      | .ok todos => .ok (todo :: todos)

def parseTodos (value : Option Json) : Except JsString (List TodoItem) :=
  match value with
  | some (.arr (item :: items)) => parseTodosFrom 0 (item :: items)
  | _ => .error (js "ERROR: todos must be a non-empty array.")

end todos

variable {ε : Type} (host : Host ε)

def prettyJson (members : List (String × Json)) : JsString :=
  Json.prettyJson host.numberText (.ofMembers members)

def getPermissionEnforcer (context : ToolExecutionContext ε) : PermissionEnforcer ε :=
  context.permissionEnforcer.getD
    { approvalPolicy := context.approvalPolicy
      sandbox := context.sandbox
      maxPermission := context.maxPermission
      approveCommand := some host.promptForCommandApproval }

section store

def todoStorePath (root : JsString) : Path :=
  match host.todoStore with
  | some store =>
    if store.isEmpty then resolveRoot host root ++ [js ".solarcido-todos.json"]
    else resolve host.cwd store
  | none => resolveRoot host root ++ [js ".solarcido-todos.json"]

/-- The entries in the store; nothing when it is absent or holds no JSON array. -/
def readTodoStore (storePath : Path) (fs : FileSystem) : List Json :=
  match readText fs storePath with
  | .error _ => []
  | .ok text =>
    match host.parseJson text with
    | .ok (.arr items) => items
    | _ => []

/-- What is written to the store. -/
def todoStoreText (todos : List TodoItem) : JsString :=
  Json.prettyJson host.numberText (.arr (todos.map TodoItem.toJson)) ++ js "\n"

def writeTodoStore (storePath : Path) (todos : List TodoItem) : Action ε Unit := do
  writing fun fs => mkdirRecursive fs storePath.dropLast
  writing fun fs => writeText fs storePath (todoStoreText host todos)

end store

section tools

variable (name : JsString) (args : Json) (context : ToolExecutionContext ε)

def listFilesTool : Action ε ToolExecutionResult := do
  let output ← reading (listFiles host context.root
    ((Json.asString (args.member (js "path"))).getD (js "."))
    ((Json.asNumber (args.member (js "depth"))).getD (.ofInt 2))
    ((Json.asBool (args.member (js "include_hidden"))).getD false))
  return .text name output

def readFileTool : Action ε ToolExecutionResult := do
  let path ← orThrow (requireString (args.member (js "path")) (js "path"))
  let output ← reading (readFile host context.root path
    (Json.asNumber (args.member (js "offset")))
    (Json.asNumber (args.member (js "limit"))))
  return .text name output

def searchFilesTool : Action ε ToolExecutionResult := do
  let pattern ← orThrow (requireString (args.member (js "pattern")) (js "pattern"))
  let output ← reading (searchFiles host context.root pattern
    ((Json.asString (args.member (js "path"))).getD (js "."))
    ((Json.asNumber (args.member (js "max_results"))).getD (.ofInt 100))
    ((Json.asBool (args.member (js "case_sensitive"))).getD false)
    ((Json.asBool (args.member (js "regex"))).getD false))
  return .text name output

def writeFileTool : Action ε ToolExecutionResult := do
  let path ← orThrow (requireString (args.member (js "path")) (js "path"))
  let content ← orThrow (requireString (args.member (js "content")) (js "content"))
  return .text name (← writeFile host context.root path content)

def editFileTool : Action ε ToolExecutionResult := do
  let path ← orThrow (requireString (args.member (js "path")) (js "path"))
  let oldString ← orThrow (requireString (args.member (js "old_string")) (js "old_string"))
  let newString ← orThrow (requireString (args.member (js "new_string")) (js "new_string"))
  return .text name (← editFile host context.root path oldString newString
    ((Json.asBool (args.member (js "replace_all"))).getD false))

def runCommandTool : Action ε ToolExecutionResult := do
  let command ← orThrow (requireString (args.member (js "command")) (js "command"))
  let approval ← outside ((getPermissionEnforcer host context).decideCommand command)
  match approval with
  | .refused reason => return .text name (js "ERROR: " ++ reason)
  | .approved =>
    return .text name (← runCommand host context.root command
      (Json.asNumber (args.member (js "timeout_ms"))))

def askUserQuestionTool : Action ε ToolExecutionResult := do
  let question ← orThrow (requireString (args.member (js "question")) (js "question"))
  let options := arrayOfStrings (args.member (js "options"))
  match context.interaction with
  | none =>
    return .text name (prettyJson host [("question", .str question), ("answer", .null),
      ("status", .str (js "unanswered")), ("reason", .str (js "no interactive terminal"))])
  | some interaction =>
    let answer ← outside
      (if options.isEmpty then interaction.askText question
        else interaction.askChoice question options)
    return .text name (prettyJson host [("question", .str question), ("answer", .str answer),
      ("status", .str (js "answered"))])

def enterPlanModeTool : Action ε ToolExecutionResult := do
  if !context.planMode then
    return .text name (prettyJson host [("active", .bool false), ("changed", .bool false),
      ("message", .str (js "Plan mode unavailable in this context."))])
  else
    let wasActive := (← get).planActive
    modify fun w => { w with planActive := true }
    return .text name (prettyJson host [("active", .bool true), ("changed", .bool (!wasActive)),
      ("message", .str (js "Plan mode on: edits are blocked until exit_plan_mode."))])

def exitPlanModeTool : Action ε ToolExecutionResult := do
  let plan ← orThrow (requireString (args.member (js "plan")) (js "plan"))
  if !(context.planMode && (← get).planActive) then
    return .text name (prettyJson host [("active", .bool false), ("approved", .bool true),
      ("changed", .bool false), ("message", .str (js "Not in plan mode."))])
  else
    match context.interaction with
    | none =>
      modify fun w => { w with planActive := false }
      return .text name (prettyJson host [("active", .bool false), ("approved", .bool true),
        ("changed", .bool true), ("autoApproved", .bool true),
        ("message", .str (js "No TTY; plan auto-approved."))])
    | some interaction =>
      let ok ← outside (interaction.askYesNo (js "Proceed with this plan?\n\n" ++ plan))
      if ok then
        modify fun w => { w with planActive := false }
        return .text name (prettyJson host [("active", .bool false), ("approved", .bool true),
          ("changed", .bool true), ("message", .str (js "Plan approved; edits enabled."))])
      else
        return .text name (prettyJson host [("active", .bool true), ("approved", .bool false),
          ("changed", .bool false),
          ("message", .str (js "Plan rejected; still in plan mode."))])

def todoWriteTool : Action ε ToolExecutionResult :=
  match parseTodos (args.member (js "todos")) with
  | .error message => return .text name message
  | .ok todos => do
    let storePath := todoStorePath host context.root
    let oldTodos := readTodoStore host storePath (← get).fs
    let allCompleted := todos.all fun todo => todo.status = .completed
    let newTodos := if allCompleted then [] else todos
    writeTodoStore host storePath newTodos
    let verificationNudgeNeeded := allCompleted && todos.length ≥ 3 &&
      !todos.any fun todo => RegExp.test (RegExp.literal (js "verif")) todo.content
    return .text name (prettyJson host
      ([("oldTodos", .arr oldTodos), ("newTodos", .arr (newTodos.map TodoItem.toJson))] ++
        if verificationNudgeNeeded then [("verificationNudgeNeeded", .bool true)] else []))

def finishTool : Action ε ToolExecutionResult := do
  let summary ← orThrow (requireString (args.member (js "summary")) (js "summary"))
  return ⟨name, summary, some
    { summary
      changed_files := arrayOfStrings (args.member (js "changed_files"))
      next_steps := arrayOfStrings (args.member (js "next_steps")) }⟩

end tools

def executeBuiltinTool (name : JsString) (input : Json) (context : ToolExecutionContext ε) :
    Action ε ToolExecutionResult :=
  let args := objectInput input
  if name = js "list_files" then listFilesTool host name args context
  else if name = js "read_file" then readFileTool host name args context
  else if name = js "search_files" then searchFilesTool host name args context
  else if name = js "write_file" then writeFileTool host name args context
  else if name = js "edit_file" then editFileTool host name args context
  else if name = js "run_command" then runCommandTool host name args context
  else if name = js "ask_user_question" then askUserQuestionTool host name args context
  else if name = js "enter_plan_mode" then enterPlanModeTool host name context
  else if name = js "exit_plan_mode" then exitPlanModeTool host name args context
  else if name = js "todo_write" then todoWriteTool host name args context
  else if name = js "finish" then finishTool name args
  else return .text name (js "ERROR: unsupported tool: " ++ name)

end Solarcido.Tools
