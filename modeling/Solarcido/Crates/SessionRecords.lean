import Solarcido.Crates.Messages

namespace Solarcido.Crates

open RustText Value

/-- A line of a session's file. -/
inductive SessionRecord where
  | metadata (version : U32) (id model reasoningEffort systemPrompt : RustString)
      (createdAtMs updatedAtMs : U64)
  | message (message : InputMessage)

section serialize

def ToolResultContentBlock.serialize : ToolResultContentBlock → Value
  | .text s => .object [(str "type", .string (str "text")), (str "text", .string s)]
  | .json v => .object [(str "type", .string (str "json")), (str "value", v)]

def InputContentBlock.serialize : InputContentBlock → Value
  | .text s => .object [(str "type", .string (str "text")), (str "text", .string s)]
  | .toolUse id name input => .object [
      (str "type", .string (str "tool_use")),
      (str "id", .string id),
      (str "name", .string name),
      (str "input", input)]
  | .toolResult toolUseId content isError => .object ([
      (str "type", .string (str "tool_result")),
      (str "tool_use_id", .string toolUseId),
      (str "content", .array (content.map ToolResultContentBlock.serialize))] ++
      if isError then [(str "is_error", .bool true)] else [])

def InputMessage.serialize (message : InputMessage) : Value :=
  .object [
    (str "role", .string message.role),
    (str "content", .array (message.content.map InputContentBlock.serialize))]

def SessionRecord.serialize : SessionRecord → Value
  | .metadata version id model reasoningEffort systemPrompt createdAtMs updatedAtMs => .object [
      (str "type", .string (str "metadata")),
      (str "version", .number (.int version.val)),
      (str "id", .string id),
      (str "model", .string model),
      (str "reasoning_effort", .string reasoningEffort),
      (str "system_prompt", .string systemPrompt),
      (str "created_at_ms", .number (.int createdAtMs.val)),
      (str "updated_at_ms", .number (.int updatedAtMs.val))]
  | .message m => .object [
      (str "type", .string (str "message")),
      (str "message", m.serialize)]

end serialize

section deserialize

/-- The name of a variant, and its fields: `#[serde(tag = "type")]`. -/
def tagged : Value → Option (RustString × Value)
  | .object members =>
    (((Value.object members).get (str "type")).bind asStr).map fun tag => (tag, .object members)
  | .array (.string tag :: items) => some (tag, .array items)
  | _ => none

def ToolResultContentBlock.deserialize (v : Value) : Option ToolResultContentBlock := do
  let (tag, v) ← tagged v
  if tag = str "text" then
    let v ← v.asStruct [str "text"]
    let text ← required asStr (str "text") v
    some (.text text)
  else if tag = str "json" then
    let v ← v.asStruct [str "value"]
    let value ← required some (str "value") v
    some (.json value)
  else none

def InputContentBlock.deserialize (v : Value) : Option InputContentBlock := do
  let (tag, v) ← tagged v
  if tag = str "text" then
    let v ← v.asStruct [str "text"]
    let text ← required asStr (str "text") v
    some (.text text)
  else if tag = str "tool_use" then
    let v ← v.asStruct [str "id", str "name", str "input"]
    let id ← required asStr (str "id") v
    let name ← required asStr (str "name") v
    let input ← required some (str "input") v
    some (.toolUse id name input)
  else if tag = str "tool_result" then
    let v ← v.asStruct [str "tool_use_id", str "content", str "is_error"]
    let toolUseId ← required asStr (str "tool_use_id") v
    let content ← required (vec ToolResultContentBlock.deserialize) (str "content") v
    let isError ← defaulted asBool false (str "is_error") v
    some (.toolResult toolUseId content isError)
  else none

def InputMessage.deserialize (v : Value) : Option InputMessage := do
  let v ← v.asStruct [str "role", str "content"]
  let role ← required asStr (str "role") v
  let content ← required (vec InputContentBlock.deserialize) (str "content") v
  some ⟨role, content⟩

def SessionRecord.deserialize (v : Value) : Option SessionRecord := do
  let (tag, v) ← tagged v
  if tag = str "metadata" then
    let v ← v.asStruct [str "version", str "id", str "model", str "reasoning_effort",
      str "system_prompt", str "created_at_ms", str "updated_at_ms"]
    let version ← required u32 (str "version") v
    let id ← required asStr (str "id") v
    let model ← required asStr (str "model") v
    let reasoningEffort ← required asStr (str "reasoning_effort") v
    let systemPrompt ← required asStr (str "system_prompt") v
    let createdAtMs ← required u64 (str "created_at_ms") v
    let updatedAtMs ← required u64 (str "updated_at_ms") v
    some (.metadata version id model reasoningEffort systemPrompt createdAtMs updatedAtMs)
  else if tag = str "message" then
    let v ← v.asStruct [str "message"]
    let message ← required InputMessage.deserialize (str "message") v
    some (.message message)
  else none

end deserialize

section roundTrips

theorem vec_map {α : Type} {read : Value → Option α} {write : α → Value}
    (h : ∀ a, read (write a) = some a) (items : List α) :
    vec read (.array (items.map write)) = some items := by
  rw [vec, asArray, Option.bind_some]
  induction items with
  | nil => rfl
  | cons a items ih =>
    rw [List.map_cons, List.mapM_cons, h, ih]
    rfl

theorem ToolResultContentBlock.deserialize_serialize (block : ToolResultContentBlock) :
    deserialize block.serialize = some block := by
  cases block <;> rfl

theorem InputContentBlock.deserialize_serialize (block : InputContentBlock) :
    deserialize block.serialize = some block := by
  cases block with
  | text text => rfl
  | toolUse id name input => rfl
  | toolResult toolUseId content isError =>
    have htag : tagged (toolResult toolUseId content isError).serialize =
        some (str "tool_result", (toolResult toolUseId content isError).serialize) := rfl
    have hstruct : (toolResult toolUseId content isError).serialize.asStruct
        [str "tool_use_id", str "content", str "is_error"] =
          some (toolResult toolUseId content isError).serialize := rfl
    have hid : required asStr (str "tool_use_id")
        (toolResult toolUseId content isError).serialize = some toolUseId := rfl
    have hcontent : required (vec ToolResultContentBlock.deserialize) (str "content")
        (toolResult toolUseId content isError).serialize = some content :=
      (required_of_get rfl _).trans (vec_map ToolResultContentBlock.deserialize_serialize content)
    have herror : defaulted asBool false (str "is_error")
        (toolResult toolUseId content isError).serialize = some isError := by
      cases isError <;> rfl
    have htext : str "tool_result" ≠ str "text" := by
      rw [str_eq rfl, str_eq rfl]
      decide
    have huse : str "tool_result" ≠ str "tool_use" := by
      rw [str_eq rfl, str_eq rfl]
      decide
    rw [deserialize, htag]
    simp only [bind, Option.bind, if_neg htext, if_neg huse, if_true, hstruct, hid, hcontent,
      herror]

theorem InputMessage.deserialize_serialize (message : InputMessage) :
    deserialize message.serialize = some message := by
  have hstruct : message.serialize.asStruct [str "role", str "content"] =
      some message.serialize := rfl
  have hrole : required asStr (str "role") message.serialize = some message.role := rfl
  have hcontent : required (vec InputContentBlock.deserialize) (str "content") message.serialize =
      some message.content :=
    (required_of_get rfl _).trans (vec_map InputContentBlock.deserialize_serialize message.content)
  rw [deserialize, hstruct]
  simp only [bind, Option.bind, hrole, hcontent]

/-- What is read of a record that has been written is the record. -/
theorem SessionRecord.deserialize_serialize (record : SessionRecord) :
    deserialize record.serialize = some record := by
  cases record with
  | metadata version id model reasoningEffort systemPrompt createdAtMs updatedAtMs =>
    generalize hv : (metadata version id model reasoningEffort systemPrompt createdAtMs
      updatedAtMs).serialize = v
    have htag : tagged v = some (str "metadata", v) := by rw [← hv]; rfl
    have hstruct : v.asStruct [str "version", str "id", str "model", str "reasoning_effort",
        str "system_prompt", str "created_at_ms", str "updated_at_ms"] = some v := by
      rw [← hv]
      rfl
    have hversion : required u32 (str "version") v = some version := by
      rw [← hv]
      exact (required_of_get rfl _).trans (u32_int version)
    have hid : required asStr (str "id") v = some id := by
      rw [← hv]
      rfl
    have hmodel : required asStr (str "model") v = some model := by
      rw [← hv]
      rfl
    have heffort : required asStr (str "reasoning_effort") v = some reasoningEffort := by
      rw [← hv]
      rfl
    have hprompt : required asStr (str "system_prompt") v = some systemPrompt := by
      rw [← hv]
      rfl
    have hcreated : required u64 (str "created_at_ms") v = some createdAtMs := by
      rw [← hv]
      exact (required_of_get rfl _).trans (u64_int createdAtMs)
    have hupdated : required u64 (str "updated_at_ms") v = some updatedAtMs := by
      rw [← hv]
      exact (required_of_get rfl _).trans (u64_int updatedAtMs)
    rw [deserialize, htag, Option.bind_eq_bind, Option.bind_some]
    simp only [if_true]
    rw [hstruct, Option.bind_eq_bind, Option.bind_some, hversion, Option.bind_eq_bind,
      Option.bind_some, hid, Option.bind_eq_bind, Option.bind_some, hmodel, Option.bind_some,
      heffort, Option.bind_some, hprompt, Option.bind_some, hcreated, Option.bind_eq_bind,
      Option.bind_some, hupdated, Option.bind_some]
  | message m =>
    have htag : tagged (message m).serialize = some (str "message", (message m).serialize) := rfl
    have hstruct : (message m).serialize.asStruct [str "message"] =
        some (message m).serialize := rfl
    have hmessage : required InputMessage.deserialize (str "message") (message m).serialize =
        some m := (required_of_get rfl _).trans (InputMessage.deserialize_serialize m)
    have hmetadata : str "message" ≠ str "metadata" := by decide
    rw [deserialize, htag]
    simp only [bind, Option.bind, if_neg hmetadata, if_true, hstruct, hmessage]

end roundTrips

end Solarcido.Crates
