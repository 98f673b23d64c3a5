import Solarcido.Js.Value
import Solarcido.Js.Text
import Solarcido.Lib.Collector

namespace Solarcido.Plugins

open Text Collector

section types

inductive PluginPermission where
  | read
  | write
  | execute
  deriving DecidableEq

inductive PluginToolPermission where
  | readOnly
  | workspaceWrite
  | dangerFullAccess
  deriving DecidableEq

def PluginPermission.name : PluginPermission → JsString
  | .read => js "read"
  | .write => js "write"
  | .execute => js "execute"

def PluginToolPermission.name : PluginToolPermission → JsString
  | .readOnly => js "read-only"
  | .workspaceWrite => js "workspace-write"
  | .dangerFullAccess => js "danger-full-access"

structure PluginHooks where
  PreToolUse : List JsString
  PostToolUse : List JsString
  PostToolUseFailure : List JsString

structure PluginLifecycle where
  Init : List JsString
  Shutdown : List JsString

/-- The input schema is an object: its members. -/
structure PluginToolManifest where
  name : JsString
  description : JsString
  inputSchema : List (JsString × Json)
  command : JsString
  args : List JsString
  requiredPermission : PluginToolPermission

structure PluginCommandManifest where
  name : JsString
  description : JsString
  command : JsString

@[ext]
structure PluginManifest where
  name : JsString
  version : JsString
  description : JsString
  permissions : List PluginPermission
  defaultEnabled : Bool
  hooks : PluginHooks
  lifecycle : PluginLifecycle
  tools : List PluginToolManifest
  commands : List PluginCommandManifest

inductive ManifestValidationError where
  | emptyField (field : JsString)
  | emptyEntryField (kind field : JsString) (name : Option JsString)
  | invalidPermission (permission : JsString)
  | duplicatePermission (permission : JsString)
  | duplicateEntry (kind name : JsString)
  | invalidToolInputSchema (toolName : JsString)
  | invalidToolRequiredPermission (toolName permission : JsString)
  deriving DecidableEq

def VALID_PERMISSIONS : List PluginPermission := [.read, .write, .execute]

def VALID_TOOL_PERMISSIONS : List PluginToolPermission :=
  [.readOnly, .workspaceWrite, .dangerFullAccess]

/-- The valid permission of a name. -/
def permissionOf (value : JsString) : Option PluginPermission :=
  VALID_PERMISSIONS.find? fun p => p.name == value

def toolPermissionOf (value : JsString) : Option PluginToolPermission :=
  VALID_TOOL_PERMISSIONS.find? fun p => p.name == value

end types

section reading

/-- `typeof value === "string" ? value.trim() : ""`. -/
def trimmedText : Option Json → JsString
  | some (.str s) => trim s
  | _ => []

/-- `typeof value === "string" ? value : ""`. -/
def textOrEmpty : Option Json → JsString
  | some (.str s) => s
  | _ => []

/-- `typeof value !== "string" || value.trim() === ""`. -/
def isBlank : Option Json → Bool
  | some (.str s) => (trim s).isEmpty
  | _ => true

/-- `Array.isArray(value) ? value : []`. -/
def itemsOrEmpty : Option Json → List Json
  | some (.arr items) => items
  | _ => []

/-- `isObject(value) ? value : {}`, by its members. -/
def membersOrEmpty : Option Json → List (JsString × Json)
  | some (.obj members) => members
  | _ => []

/-- The items that are strings. -/
def stringsOf (items : List Json) : List JsString :=
  items.filterMap fun item => Json.asString (some item)

def errorIf (condition : Bool) (error : ManifestValidationError) : List ManifestValidationError :=
  if condition then [error] else []

def readPermission (p : Json) : Reading ManifestValidationError JsString PluginPermission :=
  let pStr := trimmedText (some p)
  if pStr = [] then .unnamed (.emptyEntryField (js "permission") (js "value") none)
  else
    match permissionOf pStr with
    | none => .entry pStr [.invalidPermission pStr] none
    | some permission => .entry pStr [] (some permission)

/-- `requiredPermission` of a tool, or its default. -/
def rawToolPermission : Option Json → JsString
  | some (.str s) => trim s
  | _ => js "danger-full-access"

def toolErrors (t : Json) (name : JsString) : List ManifestValidationError :=
  errorIf (isBlank (t.member (js "description")))
      (.emptyEntryField (js "tool") (js "description") (some name)) ++
    errorIf (isBlank (t.member (js "command")))
      (.emptyEntryField (js "tool") (js "command") (some name)) ++
    errorIf (!((t.member (js "inputSchema")).any Json.isObject)) (.invalidToolInputSchema name)

def toolOf (t : Json) (name : JsString) (permission : PluginToolPermission) : PluginToolManifest where
  name := name
  description := textOrEmpty (t.member (js "description"))
  inputSchema := membersOrEmpty (t.member (js "inputSchema"))
  command := textOrEmpty (t.member (js "command"))
  args := stringsOf (itemsOrEmpty (t.member (js "args")))
  requiredPermission := permission

/-- An element that is no object is skipped. -/
def readTool (t : Json) : Reading ManifestValidationError JsString PluginToolManifest :=
  if t.isObject then
    let name := trimmedText (t.member (js "name"))
    if name = [] then .unnamed (.emptyEntryField (js "tool") (js "name") none)
    else
      let rawPerm := rawToolPermission (t.member (js "requiredPermission"))
      match toolPermissionOf rawPerm with
      | none => .entry name (toolErrors t name ++ [.invalidToolRequiredPermission name rawPerm]) none
      | some permission => .entry name (toolErrors t name) (some (toolOf t name permission))
  else .skipped

def commandErrors (c : Json) (name : JsString) : List ManifestValidationError :=
  errorIf (isBlank (c.member (js "description")))
      (.emptyEntryField (js "command") (js "description") (some name)) ++
    errorIf (isBlank (c.member (js "command")))
      (.emptyEntryField (js "command") (js "command") (some name))

def commandOf (c : Json) (name : JsString) : PluginCommandManifest where
  name := name
  description := textOrEmpty (c.member (js "description"))
  command := textOrEmpty (c.member (js "command"))

/-- An element that is no object is skipped. -/
def readCommand (c : Json) : Reading ManifestValidationError JsString PluginCommandManifest :=
  if c.isObject then
    let name := trimmedText (c.member (js "name"))
    if name = [] then .unnamed (.emptyEntryField (js "command") (js "name") none)
    else .entry name (commandErrors c name) (some (commandOf c name))
  else .skipped

/-- The elements of `value[key]`, if there is such an array. -/
def rawItems (value : Option Json) (key : JsString) : List Json :=
  itemsOrEmpty (value.bind (Json.member key))

def resolvedHooks (hooks : Option Json) : PluginHooks where
  PreToolUse := stringsOf (rawItems hooks (js "PreToolUse"))
  PostToolUse := stringsOf (rawItems hooks (js "PostToolUse"))
  PostToolUseFailure := stringsOf (rawItems hooks (js "PostToolUseFailure"))

def resolvedLifecycle (lifecycle : Option Json) : PluginLifecycle where
  Init := stringsOf (rawItems lifecycle (js "Init"))
  Shutdown := stringsOf (rawItems lifecycle (js "Shutdown"))

def fieldErrors (raw : Json) : List ManifestValidationError :=
  [js "name", js "version", js "description"].flatMap fun field =>
    errorIf (isBlank (raw.member field)) (.emptyField field)

def collectPermissions (errors : List ManifestValidationError) (raw : Json) :
    Collected ManifestValidationError JsString PluginPermission :=
  collectAll readPermission .duplicatePermission ⟨errors, [], []⟩
    (rawItems (some raw) (js "permissions"))

def collectTools (errors : List ManifestValidationError) (raw : Json) :
    Collected ManifestValidationError JsString PluginToolManifest :=
  collectAll readTool (.duplicateEntry (js "tool")) ⟨errors, [], []⟩ (rawItems (some raw) (js "tools"))

def collectCommands (errors : List ManifestValidationError) (raw : Json) :
    Collected ManifestValidationError JsString PluginCommandManifest :=
  collectAll readCommand (.duplicateEntry (js "command")) ⟨errors, [], []⟩
    (rawItems (some raw) (js "commands"))

/-- The errors go through the three loops one after the other. -/
def validateManifest (raw : Json) : Except (List ManifestValidationError) PluginManifest :=
  if raw.isObject then
    let permissions := collectPermissions (fieldErrors raw) raw
    let tools := collectTools permissions.errors raw
    let commands := collectCommands tools.errors raw
    if commands.errors = [] then
      .ok {
        name := trimmedText (raw.member (js "name"))
        version := trimmedText (raw.member (js "version"))
        description := trimmedText (raw.member (js "description"))
        permissions := permissions.kept
        defaultEnabled := Json.asBool (raw.member (js "defaultEnabled")) = some true
        hooks := resolvedHooks (raw.member (js "hooks"))
        lifecycle := resolvedLifecycle (raw.member (js "lifecycle"))
        tools := tools.kept
        commands := commands.kept }
    else .error commands.errors
  else .error [.emptyField (js "manifest")]

end reading

section values

def textItems (texts : List JsString) : Json := .arr (texts.map Json.str)

def PluginToolManifest.toJson (tool : PluginToolManifest) : Json :=
  .ofMembers [("name", .str tool.name), ("description", .str tool.description),
    ("inputSchema", .obj tool.inputSchema), ("command", .str tool.command),
    ("args", textItems tool.args), ("requiredPermission", .str tool.requiredPermission.name)]

def PluginCommandManifest.toJson (command : PluginCommandManifest) : Json :=
  .ofMembers [("name", .str command.name), ("description", .str command.description),
    ("command", .str command.command)]

def PluginHooks.toJson (hooks : PluginHooks) : Json :=
  .ofMembers [("PreToolUse", textItems hooks.PreToolUse),
    ("PostToolUse", textItems hooks.PostToolUse),
    ("PostToolUseFailure", textItems hooks.PostToolUseFailure)]

def PluginLifecycle.toJson (lifecycle : PluginLifecycle) : Json :=
  .ofMembers [("Init", textItems lifecycle.Init), ("Shutdown", textItems lifecycle.Shutdown)]

/-- The manifest as the value it is. -/
def PluginManifest.toJson (manifest : PluginManifest) : Json :=
  .ofMembers [("name", .str manifest.name), ("version", .str manifest.version),
    ("description", .str manifest.description),
    ("permissions", textItems (manifest.permissions.map PluginPermission.name)),
    ("defaultEnabled", .bool manifest.defaultEnabled), ("hooks", manifest.hooks.toJson),
    ("lifecycle", manifest.lifecycle.toJson),
    ("tools", .arr (manifest.tools.map PluginToolManifest.toJson)),
    ("commands", .arr (manifest.commands.map PluginCommandManifest.toJson))]

end values

end Solarcido.Plugins
