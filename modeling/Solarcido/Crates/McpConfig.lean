import Solarcido.Crates.Members

namespace Solarcido.Crates

open RustText Value

section configs

structure McpStdioServerConfig where
  command : RustString
  args : List RustString
  env : SortedMap RustString RustString
  toolCallTimeoutMs : Option U64

structure McpRemoteServerConfig where
  url : RustString
  headers : SortedMap RustString RustString
  headersHelper : Option RustString

/-- It has the fields, and the checks, of `McpRemoteServerConfig`. -/
abbrev McpWebSocketServerConfig := McpRemoteServerConfig

structure McpSdkServerConfig where
  name : RustString

inductive McpServerConfig where
  | stdio (config : McpStdioServerConfig)
  | http (config : McpRemoteServerConfig)
  | sse (config : McpRemoteServerConfig)
  | ws (config : McpWebSocketServerConfig)
  | sdk (config : McpSdkServerConfig)

structure McpConfigCollection where
  servers : SortedMap RustString McpServerConfig

def McpConfigCollection.default : McpConfigCollection := ⟨.empty⟩

end configs

section validate

/-- An error is its message. -/
def McpStdioServerConfig.validate (c : McpStdioServerConfig) : Except RustString Unit :=
  if (trim c.command).isEmpty then .error (str "command must not be empty")
  else if c.toolCallTimeoutMs = some 0 then
    .error (str "toolCallTimeoutMs must be greater than zero")
  else .ok ()

def McpRemoteServerConfig.validate (c : McpRemoteServerConfig) : Except RustString Unit :=
  if (trim c.url).isEmpty then .error (str "url must not be empty") else .ok ()

def McpSdkServerConfig.validate (c : McpSdkServerConfig) : Except RustString Unit :=
  if (trim c.name).isEmpty then .error (str "name must not be empty") else .ok ()

def McpServerConfig.validate : McpServerConfig → Except RustString Unit
  | .stdio config => config.validate
  | .http config => config.validate
  | .sse config => config.validate
  | .ws config => config.validate
  | .sdk config => config.validate

def McpConfigCollection.validate (c : McpConfigCollection) : Except RustString Unit :=
  c.servers.entries.forM fun (serverName, server) =>
    if (trim serverName).isEmpty then .error (str "MCP server names must not be empty")
    else server.validate.mapError fun error =>
      str "MCP server `" ++ serverName ++ str "`: " ++ error

end validate

section deserialize

def stdioFields : List RustString :=
  [str "command", str "args", str "env", str "toolCallTimeoutMs"]

def remoteFields : List RustString := [str "url", str "headers", str "headersHelper"]

def sdkFields : List RustString := [str "name"]

def McpStdioServerConfig.deserialize (v : Value) : Option McpStdioServerConfig := do
  let fields ← v.strictStruct stdioFields
  let command ← required asStr (str "command") fields
  let args ← defaulted (vec asStr) [] (str "args") fields
  let env ← defaulted (btreeMap asStr) .empty (str "env") fields
  let toolCallTimeoutMs ← optional u64 (str "toolCallTimeoutMs") fields
  return ⟨command, args, env, toolCallTimeoutMs⟩

def McpRemoteServerConfig.deserialize (v : Value) : Option McpRemoteServerConfig := do
  let fields ← v.strictStruct remoteFields
  let url ← required asStr (str "url") fields
  let headers ← defaulted (btreeMap asStr) .empty (str "headers") fields
  let headersHelper ← optionField asStr (str "headersHelper") v fields
  return ⟨url, headers, headersHelper⟩

def McpSdkServerConfig.deserialize (v : Value) : Option McpSdkServerConfig := do
  let fields ← v.strictStruct sdkFields
  let name ← required asStr (str "name") fields
  return ⟨name⟩

/-- `#[serde(tag = "type", rename_all = "kebab-case")]`. -/
def McpServerConfig.deserialize (v : Value) : Option McpServerConfig := do
  let (name, content) ← v.untag (str "type")
  if name = str "stdio" then (McpStdioServerConfig.deserialize content).map .stdio
  else if name = str "http" then (McpRemoteServerConfig.deserialize content).map .http
  else if name = str "sse" then (McpRemoteServerConfig.deserialize content).map .sse
  else if name = str "ws" then (McpRemoteServerConfig.deserialize content).map .ws
  else if name = str "sdk" then (McpSdkServerConfig.deserialize content).map .sdk
  else none

def McpConfigCollection.deserialize (v : Value) : Option McpConfigCollection := do
  let fields ← v.strictStruct [str "servers"]
  let servers ← defaulted (btreeMap McpServerConfig.deserialize) .empty (str "servers") fields
  return ⟨servers⟩

end deserialize

section serialize

def ofStrings (items : List RustString) : Value := .array (items.map .string)

def ofOption {α : Type} (write : α → Value) : Option α → Value
  | none => .null
  | some value => write value

def ofU64 (n : U64) : Value := .number (.int n.val)

/-- The fields of a struct as they are written. -/
def McpStdioServerConfig.members (c : McpStdioServerConfig) : List (RustString × Value) :=
  [(str "command", .string c.command), (str "args", ofStrings c.args),
    (str "env", ofMap .string c.env),
    (str "toolCallTimeoutMs", ofOption ofU64 c.toolCallTimeoutMs)]

def McpRemoteServerConfig.members (c : McpRemoteServerConfig) : List (RustString × Value) :=
  [(str "url", .string c.url), (str "headers", ofMap .string c.headers),
    (str "headersHelper", ofOption .string c.headersHelper)]

def McpSdkServerConfig.members (c : McpSdkServerConfig) : List (RustString × Value) :=
  [(str "name", .string c.name)]

def McpServerConfig.transport : McpServerConfig → RustString
  | .stdio _ => str "stdio"
  | .http _ => str "http"
  | .sse _ => str "sse"
  | .ws _ => str "ws"
  | .sdk _ => str "sdk"

def McpServerConfig.members : McpServerConfig → List (RustString × Value)
  | .stdio config => config.members
  | .http config => config.members
  | .sse config => config.members
  | .ws config => config.members
  | .sdk config => config.members

/-- The tag of a variant is its `transport`. -/
def McpServerConfig.toValue (c : McpServerConfig) : Value :=
  .object ((str "type", .string c.transport) :: c.members)

def McpConfigCollection.toValue (c : McpConfigCollection) : Value :=
  .object [(str "servers", ofMap McpServerConfig.toValue c.servers)]

end serialize

section roundTrip

variable {v : Value}

theorem vec_ofStrings (items : List RustString) : vec asStr (ofStrings items) = some items := by
  have hitems : (items.map Value.string).mapM asStr = some items := by
    induction items with
    | nil => rfl
    | cons item rest ih =>
      rw [List.map_cons, List.mapM_cons, ih]
      rfl
  exact hitems

theorem btreeMap_strings (m : SortedMap RustString RustString) :
    btreeMap asStr (ofMap .string m) = some m := btreeMap_ofMap fun _ _ => rfl

theorem nullable_ofString (text : Option RustString) :
    nullable asStr (ofOption .string text) = some text := by
  cases text <;> rfl

theorem nullable_ofU64 (n : Option U64) : nullable u64 (ofOption ofU64 n) = some n := by
  cases n with
  | none => rfl
  | some n =>
    change (u64 (ofU64 n)).map some = some (some n)
    rw [ofU64, u64_int]
    rfl

theorem McpStdioServerConfig.deserialize_members {c : McpStdioServerConfig}
    (h : v.HasMembers c.members) : deserialize v = some c := by
  have hnodup : (c.members.map Prod.fst).Nodup := (by decide : stdioFields.Nodup)
  have hcommand : v.get (str "command") = some (.string c.command) := h.get hnodup _
  have hargs : v.get (str "args") = some (ofStrings c.args) := h.get hnodup _
  have henv : v.get (str "env") = some (ofMap .string c.env) := h.get hnodup _
  have htimeout : v.get (str "toolCallTimeoutMs") = some (ofOption ofU64 c.toolCallTimeoutMs) :=
    h.get hnodup _
  have hfields : v.strictStruct stdioFields = some v := h.strictStruct rfl
  rw [deserialize, hfields]
  simp [required_of_get hcommand, defaulted_of_get hargs, defaulted_of_get henv,
    optional_of_get htimeout, vec_ofStrings, btreeMap_strings, nullable_ofU64, asStr]

theorem McpRemoteServerConfig.deserialize_members {c : McpRemoteServerConfig}
    (h : v.HasMembers c.members) : deserialize v = some c := by
  have hnodup : (c.members.map Prod.fst).Nodup := (by decide : remoteFields.Nodup)
  have hurl : v.get (str "url") = some (.string c.url) := h.get hnodup _
  have hheaders : v.get (str "headers") = some (ofMap .string c.headers) := h.get hnodup _
  have hhelper : v.get (str "headersHelper") = some (ofOption .string c.headersHelper) :=
    h.get hnodup _
  have hfields : v.strictStruct remoteFields = some v := h.strictStruct rfl
  rw [deserialize, hfields]
  simp [required_of_get hurl, defaulted_of_get hheaders, h.optionField,
    optional_of_get hhelper, btreeMap_strings, nullable_ofString, asStr]

theorem McpSdkServerConfig.deserialize_members {c : McpSdkServerConfig}
    (h : v.HasMembers c.members) : deserialize v = some c := by
  have hname : v.get (str "name") = some (.string c.name) := h.get (by decide : sdkFields.Nodup) _
  have hfields : v.strictStruct sdkFields = some v := h.strictStruct rfl
  rw [deserialize, hfields]
  simp [required_of_get hname, asStr]

theorem ofMap_string_sorted (m : SortedMap RustString RustString) :
    (ofMap .string m).sorted = ofMap .string m := sorted_ofMap .string m

/-- What is written of a server has only maps of strings in it, which keep their order. -/
theorem McpServerConfig.members_sorted (c : McpServerConfig) :
    c.members.map (fun m => (m.1, m.2.sorted)) = c.members := by
  cases c with
  | stdio c =>
    have hargs : (ofStrings c.args).sorted = ofStrings c.args := sorted_strings c.args
    have henv := ofMap_string_sorted c.env
    cases h : c.toolCallTimeoutMs <;>
      simp [members, McpStdioServerConfig.members, h, hargs, henv, ofOption, ofU64, sorted]
  | http c | sse c | ws c =>
    have hheaders := ofMap_string_sorted c.headers
    cases h : c.headersHelper <;>
      simp [members, McpRemoteServerConfig.members, h, hheaders, ofOption, sorted]
  | sdk c => rfl

theorem McpServerConfig.deserialize_sorted (c : McpServerConfig) :
    deserialize c.toValue.sorted = some c := by
  have hnodup : (str "type" :: c.members.map Prod.fst).Nodup := by
    cases c with
    | stdio c => exact (by decide : (str "type" :: stdioFields).Nodup)
    | http c | sse c | ws c => exact (by decide : (str "type" :: remoteFields).Nodup)
    | sdk c => exact (by decide : (str "type" :: sdkFields).Nodup)
  have hmembers : c.toValue.sorted.HasMembers
      (((str "type", .string c.transport) :: c.members).map fun m => (m.1, m.2.sorted)) :=
    hasMembers_sorted hnodup
  rw [List.map_cons, c.members_sorted] at hmembers
  obtain ⟨content, hcontent, hrest⟩ :
      ∃ content, c.toValue.sorted.untag (str "type") = some (c.transport, content) ∧
        content.HasMembers c.members := hmembers.untag hnodup
  rw [deserialize, hcontent]
  cases c with
  | stdio c =>
    have hread := McpStdioServerConfig.deserialize_members hrest
    exact congrArg (Option.map McpServerConfig.stdio) hread
  | http c =>
    have hread := McpRemoteServerConfig.deserialize_members hrest
    exact congrArg (Option.map McpServerConfig.http) hread
  | sse c =>
    have hread := McpRemoteServerConfig.deserialize_members hrest
    exact congrArg (Option.map McpServerConfig.sse) hread
  | ws c =>
    have hread := McpRemoteServerConfig.deserialize_members hrest
    exact congrArg (Option.map McpServerConfig.ws) hread
  | sdk c =>
    have hread := McpSdkServerConfig.deserialize_members hrest
    exact congrArg (Option.map McpServerConfig.sdk) hread

/-- A section that is written and parsed again is read as itself. -/
theorem McpConfigCollection.deserialize_sorted (c : McpConfigCollection) :
    deserialize c.toValue.sorted = some c := by
  have hnodup : [str "servers"].Nodup := by decide
  have hmembers : c.toValue.sorted.HasMembers
      [(str "servers", (ofMap McpServerConfig.toValue c.servers).sorted)] :=
    hasMembers_sorted hnodup
  have hservers : c.toValue.sorted.get (str "servers") =
      some (ofMap (fun server => server.toValue.sorted) c.servers) :=
    (hmembers.get hnodup _).trans (congrArg some (sorted_ofMap McpServerConfig.toValue c.servers))
  have hfields : c.toValue.sorted.strictStruct [str "servers"] = some c.toValue.sorted :=
    hmembers.strictStruct rfl
  have hread : btreeMap McpServerConfig.deserialize
      (ofMap (fun server => server.toValue.sorted) c.servers) = some c.servers :=
    btreeMap_ofMap fun e _ => McpServerConfig.deserialize_sorted e.2
  rw [deserialize, hfields]
  simp [defaulted_of_get hservers, hread]

end roundTrip

end Solarcido.Crates
