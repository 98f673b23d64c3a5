import Solarcido.Tools.Permissions

namespace Solarcido.Tools

open Text

structure FinishPayload where
  summary : JsString
  changed_files : List JsString
  next_steps : List JsString
  deriving DecidableEq

structure ToolExecutionResult where
  toolName : JsString
  content : JsString
  finish : Option FinishPayload
  deriving DecidableEq

/-- A result without a finish payload. -/
def ToolExecutionResult.text (toolName content : JsString) : ToolExecutionResult :=
  ⟨toolName, content, none⟩

structure InteractionHandler (ε : Type) where
  askText : JsString → Effect ε JsString
  askYesNo : JsString → Effect ε Bool
  askChoice : JsString → List JsString → Effect ε JsString

/-- `planMode` says whether the call has the conversation's plan-mode flag; the flag
itself is in the world. -/
structure ToolExecutionContext (ε : Type) where
  root : JsString
  approvalPolicy : ApprovalPolicy
  sandbox : SandboxMode
  maxPermission : Option PermissionMode
  permissionEnforcer : Option (PermissionEnforcer ε)
  interaction : Option (InteractionHandler ε)
  planMode : Bool

structure ToolSpec where
  name : JsString
  description : JsString
  inputSchema : Json
  requiredPermission : PermissionMode

/-- The executor of a tool: a builtin one goes by the builtin tool's name, any other
is a function from outside. -/
inductive ToolHandler (ε : Type) where
  | builtin (name : JsString)
  | external (run : Json → ToolExecutionContext ε → Action ε ToolExecutionResult)

structure BuiltinTool where
  spec : ToolSpec

/-- A runtime tool, for one an MCP tool. -/
structure RuntimeToolDefinition (ε : Type) where
  spec : ToolSpec
  execute : Option (Json → ToolExecutionContext ε → Action ε ToolExecutionResult)

structure PluginTool (ε : Type) where
  pluginName : JsString
  spec : ToolSpec
  execute : Option (Json → ToolExecutionContext ε → Action ε ToolExecutionResult)

namespace Schema

def typed (type : String) : Json := .ofMembers [("type", .str (js type))]

def described (type description : String) : Json :=
  .ofMembers [("type", .str (js type)), ("description", .str (js description))]

def strings (names : List String) : Json := .arr (names.map fun name => .str (js name))

def object (properties : List (String × Json)) (required : List String) : Json :=
  .ofMembers [("type", .str (js "object")), ("additionalProperties", .bool false),
    ("properties", .ofMembers properties), ("required", strings required)]

end Schema

open Schema in
def BUILTIN_TOOL_SPECS : List ToolSpec :=
  [{ name := js "list_files"
     description := js "List files under the current working directory."
     requiredPermission := .readOnly
     inputSchema := object [("path", typed "string"), ("depth", typed "integer"),
       ("include_hidden", typed "boolean")] [] },
   { name := js "read_file"
     description := js "Read a UTF-8 text file inside the working directory. A .pdf path returns extracted text."
     requiredPermission := .readOnly
     inputSchema := object [("path", typed "string"),
       ("offset", described "integer" "1-based starting line. Use with limit for large files."),
       ("limit", described "integer" "Maximum number of lines to return.")] ["path"] },
   { name := js "search_files"
     description := js "Search text files in the working directory and return path:line matches."
     requiredPermission := .readOnly
     inputSchema := object [("pattern", typed "string"), ("path", typed "string"),
       ("max_results", typed "integer"), ("case_sensitive", typed "boolean"),
       ("regex", described "boolean" "Treat pattern as a JavaScript regular expression.")]
       ["pattern"] },
   { name := js "write_file"
     description := js "Write UTF-8 text content to a file inside the working directory."
     requiredPermission := .workspaceWrite
     inputSchema := object [("path", typed "string"), ("content", typed "string")]
       ["path", "content"] },
   { name := js "edit_file"
     description := js "Edit a file by replacing an exact old string with a new string. Prefer this over write_file for focused changes."
     requiredPermission := .workspaceWrite
     inputSchema := object [("path", typed "string"), ("old_string", typed "string"),
       ("new_string", typed "string"), ("replace_all", typed "boolean")]
       ["path", "old_string", "new_string"] },
   { name := js "run_command"
     description := js "Run a shell command in the working directory. The result includes exit_code, stdout, and stderr instead of throwing on command failure."
     requiredPermission := .workspaceWrite
     inputSchema := object [("command", typed "string"), ("timeout_ms", typed "integer")]
       ["command"] },
   { name := js "ask_user_question"
     description := js "Ask the human a question and wait for their answer. Provide `options` for a multiple-choice prompt. Returns an unanswered status when there is no interactive terminal."
     requiredPermission := .readOnly
     inputSchema := object [("question", typed "string"),
       ("options", .ofMembers [("type", .str (js "array")), ("items", typed "string"),
         ("description", .str (js "Optional choices to present as a numbered list."))])]
       ["question"] },
   { name := js "enter_plan_mode"
     description := js "Enter plan mode: write/edit/run tools are blocked until exit_plan_mode applies a plan. Use while researching before making changes."
     requiredPermission := .readOnly
     inputSchema := object [] [] },
   { name := js "exit_plan_mode"
     description := js "Present the proposed plan for approval and leave plan mode. On approval, edits are re-enabled; without a terminal the plan is auto-approved."
     requiredPermission := .readOnly
     inputSchema := object [("plan", typed "string")] ["plan"] },
   { name := js "todo_write"
     description := js "Record the task todo list. Each item needs `content`, `activeForm`, and a status of pending|in_progress|completed. Submitting an all-completed list clears the store."
     requiredPermission := .readOnly
     inputSchema := object
       [("todos", .ofMembers [("type", .str (js "array")),
         ("items", object [("content", typed "string"), ("activeForm", typed "string"),
           ("status", .ofMembers [("type", .str (js "string")),
             ("enum", strings ["pending", "in_progress", "completed"])])]
           ["content", "activeForm", "status"])])] ["todos"] },
   { name := js "finish"
     description := js "Declare the task complete and provide a concise summary."
     requiredPermission := .readOnly
     inputSchema := object [("summary", typed "string"),
       ("changed_files", .ofMembers [("type", .str (js "array")), ("items", typed "string")]),
       ("next_steps", .ofMembers [("type", .str (js "array")), ("items", typed "string")])]
       ["summary", "changed_files", "next_steps"] }]

/-- A builtin tool is its spec: its executor goes by the spec's name. -/
def BUILTIN_TOOLS : List BuiltinTool := BUILTIN_TOOL_SPECS.map fun spec => ⟨spec⟩

end Solarcido.Tools
