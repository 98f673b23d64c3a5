import Solarcido.Mcp.Naming

namespace Solarcido.Mcp

open Text Tools

structure McpTool where
  name : JsString
  description : Option JsString
  inputSchema : Option Json

structure BridgedToolSpec where
  qualifiedName : JsString
  serverName : JsString
  rawName : JsString
  description : Option JsString
  inputSchema : Option Json

def bridgeTool (serverName : JsString) (tool : McpTool) : BridgedToolSpec where
  qualifiedName := mcpToolName serverName tool.name
  serverName := serverName
  rawName := tool.name
  description := tool.description
  inputSchema := tool.inputSchema

def bridgeTools (serverName : JsString) (tools : List McpTool) : List BridgedToolSpec :=
  tools.map (bridgeTool serverName)

/-- A `tools/call` request that has reached a server. -/
structure McpCall where
  serverName : JsString
  rawName : JsString
  args : Option Json

structure McpToolCallResult where
  content : Option (List Json)
  isError : Option Bool

/-- What has reached the servers so far. -/
abbrev Calls := List McpCall

/-- A session with a server, its handshake done. What the server answers may depend
on everything that was called before. -/
structure McpServerSession where
  listTools : Calls → Except Thrown (List McpTool)
  answer : JsString → Option Json → Calls → Except Thrown McpToolCallResult

/-- Call a tool by its raw name on the session of a server. -/
def McpServerSession.callTool (session : McpServerSession) (serverName rawName : JsString)
    (args : Option Json) : Effect Calls McpToolCallResult := fun calls =>
  match session.answer rawName args calls with
  | .ok result => .ok result (calls ++ [⟨serverName, rawName, args⟩])
  | .error e => .error e (calls ++ [⟨serverName, rawName, args⟩])

structure ToolRoute where
  serverName : JsString
  rawName : JsString
  deriving DecidableEq

structure McpServerManager where
  sessions : InsertionMap JsString McpServerSession
  toolIndex : InsertionMap JsString ToolRoute

def BridgedToolSpec.route (spec : BridgedToolSpec) : ToolRoute := ⟨spec.serverName, spec.rawName⟩

def clearRoutesForServer (toolIndex : InsertionMap JsString ToolRoute) (serverName : JsString) :
    InsertionMap JsString ToolRoute :=
  toolIndex.filter fun entry => entry.2.serverName != serverName

def setRoutes (toolIndex : InsertionMap JsString ToolRoute) (specs : List BridgedToolSpec) :
    InsertionMap JsString ToolRoute :=
  toolIndex.setAll BridgedToolSpec.qualifiedName BridgedToolSpec.route specs

/-- An `McpClientError`. -/
def clientError (message : JsString) : Thrown :=
  .object ⟨true, false, some (js "McpClientError"), some message, none, none, none, none, none,
    js "McpClientError: " ++ message⟩

namespace McpServerManager

def registerServer (self : McpServerManager) (serverName : JsString)
    (session : McpServerSession) : McpServerManager :=
  { self with sessions := self.sessions.set serverName session }

def discoverEach (calls : Calls) :
    List (JsString × McpServerSession) → InsertionMap JsString ToolRoute → List BridgedToolSpec →
      Except Thrown (List BridgedToolSpec) × InsertionMap JsString ToolRoute
  | [], toolIndex, discovered => (.ok discovered, toolIndex)
  | (serverName, session) :: rest, toolIndex, discovered =>
    let toolIndex := clearRoutesForServer toolIndex serverName
    match session.listTools calls with
    | .error e => (.error e, toolIndex)
    | .ok tools =>
      let specs := bridgeTools serverName tools
      discoverEach calls rest (setRoutes toolIndex specs) (discovered ++ specs)

def discoverTools (self : McpServerManager) (calls : Calls) :
    Except Thrown (List BridgedToolSpec) × McpServerManager :=
  let (result, toolIndex) := discoverEach calls self.sessions.entries self.toolIndex []
  (result, { self with toolIndex })

structure FailedServer where
  serverName : JsString
  error : JsString

def bestEffortEach (calls : Calls) :
    List (JsString × McpServerSession) → InsertionMap JsString ToolRoute → List BridgedToolSpec →
      List FailedServer →
      List BridgedToolSpec × List FailedServer × InsertionMap JsString ToolRoute
  | [], toolIndex, tools, failedServers => (tools, failedServers, toolIndex)
  | (serverName, session) :: rest, toolIndex, tools, failedServers =>
    let toolIndex := clearRoutesForServer toolIndex serverName
    match session.listTools calls with
    | .error e =>
      bestEffortEach calls rest toolIndex tools (failedServers ++ [⟨serverName, e.messageOf⟩])
    | .ok listed =>
      let specs := bridgeTools serverName listed
      bestEffortEach calls rest (setRoutes toolIndex specs) (tools ++ specs) failedServers

def discoverToolsBestEffort (self : McpServerManager) (calls : Calls) :
    List BridgedToolSpec × List FailedServer × McpServerManager :=
  let (tools, failedServers, toolIndex) :=
    bestEffortEach calls self.sessions.entries self.toolIndex [] []
  (tools, failedServers, { self with toolIndex })

def invoke (self : McpServerManager) (qualifiedToolName : JsString) (args : Option Json) :
    Effect Calls McpToolCallResult :=
  match self.toolIndex.get qualifiedToolName with
  | none => throw (clientError (js "unknown MCP tool `" ++ qualifiedToolName ++ js "`"))
  | some route =>
    match self.sessions.get route.serverName with
    | none => throw (clientError (js "unknown MCP server `" ++ route.serverName ++ js "`"))
    | some session => session.callTool route.serverName route.rawName args

end McpServerManager

section runtimeTools

variable (numberText : ℚ → JsString)

/-- The text of a content block. A block that is `null` has no members to read. -/
def blockText (block : Json) : Except Thrown JsString :=
  match block with
  | .null => .error (.error (js "Cannot read properties of null (reading 'text')"))
  | _ =>
    match block.member (js "text") with
    | some (.str text) => .ok text
    | _ => .ok (Json.stringify numberText block)

def formatMcpToolResult (result : McpToolCallResult) : Except Thrown JsString := do
  let texts ← (result.content.getD []).mapM (blockText numberText)
  let parts := texts.filter fun text => !text.isEmpty
  let body := if parts.isEmpty then js "(no content)" else join (js "\n") parts
  return if result.isError.getD false then js "ERROR: " ++ body else body

def toInputSchema (schema : Option Json) : Json :=
  match schema with
  | some (.obj members) => .obj members
  | _ => .ofMembers [("type", .str (js "object")), ("properties", .obj []),
      ("additionalProperties", .bool true)]

variable {ε : Type} (invoke : JsString → Option Json → Effect ε McpToolCallResult)

/-- The executor of an MCP tool: it goes through `invoke` under the qualified name. -/
def mcpToolExecute (qualifiedName : JsString) (input : Json) : Action ε ToolExecutionResult :=
  tryCatch
    (do
      let result ← outside (invoke qualifiedName (some input))
      return .text qualifiedName (← orThrow (formatMcpToolResult numberText result)))
    fun error => return .text qualifiedName (js "ERROR: " ++ error.messageOf)

def mcpToolAsRuntimeTool (spec : BridgedToolSpec) : RuntimeToolDefinition ε where
  spec :=
    { name := spec.qualifiedName
      description := spec.description.getD
        (js "MCP tool `" ++ spec.rawName ++ js "` from server `" ++ spec.serverName ++ js "`")
      inputSchema := toInputSchema spec.inputSchema
      requiredPermission := .workspaceWrite }
  execute := some fun input _ => mcpToolExecute numberText invoke spec.qualifiedName input

def mcpToolsAsRuntimeTools (specs : List BridgedToolSpec) : List (RuntimeToolDefinition ε) :=
  specs.map (mcpToolAsRuntimeTool numberText invoke)

end runtimeTools

end Solarcido.Mcp
