import Solarcido.Crates.Responses

namespace Solarcido.Crates

open RustText Value

/-- A tool call as the model makes it. -/
structure Call where
  id : RustString
  name : RustString
  arguments : RustString

/-- A chat completion with one choice. -/
structure Completion where
  content : Option RustString
  toolCalls : List Call
  finishReason : Option RustString
  usage : Option OpenAiUsage

/-- A member that may be left out, or be `null`, where there is no value. -/
def Nullable (field value : Option Value) : Prop :=
  field = value ∨ (value = none ∧ field = some .null)

structure IsToolCall (call : Call) (item : Value) : Prop where
  id : item.get (str "id") = some (.string call.id)
  function : ∃ function, item.get (str "function") = some function ∧
    function.get (str "name") = some (.string call.name) ∧
    function.get (str "arguments") = some (.string call.arguments)

structure IsMessage (c : Completion) (message : Value) : Prop where
  role : ∃ role, message.get (str "role") = some (.string role)
  content : Nullable (message.get (str "content")) (c.content.map .string)
  toolCalls : (c.toolCalls = [] ∧ Nullable (message.get (str "tool_calls")) none) ∨
    ∃ items, message.get (str "tool_calls") = some (.array items) ∧
      List.Forall₂ IsToolCall c.toolCalls items

structure IsUsage (u : OpenAiUsage) (v : Value) : Prop where
  promptTokens : v.get (str "prompt_tokens") = some (.number (.int u.promptTokens.val))
  completionTokens : v.get (str "completion_tokens") = some (.number (.int u.completionTokens.val))

/-- The usage of a document, where it has one. -/
def HasUsage (usage : Option OpenAiUsage) (v : Value) : Prop :=
  (usage = none ∧ Nullable (v.get (str "usage")) none) ∨
    ∃ u w, usage = some u ∧ v.get (str "usage") = some w ∧ IsUsage u w

/-- A document that gives a completion as a whole. -/
structure IsBody (c : Completion) (body : Value) : Prop where
  error : body.get (str "error") = none
  id : ∃ id, body.get (str "id") = some (.string id)
  model : ∃ model, body.get (str "model") = some (.string model)
  choices : ∃ choice message, body.get (str "choices") = some (.array [choice]) ∧
    choice.get (str "message") = some message ∧ IsMessage c message ∧
    Nullable (choice.get (str "finish_reason")) (c.finishReason.map .string)
  usage : HasUsage c.usage body

/-- What a body has for its tool calls. -/
def toolCallsOf (body : Value) : Option Value :=
  ((((body.get (str "choices")).bind asArray).bind List.head?).bind (get (str "message"))).bind
    (get (str "tool_calls"))

/-- The usage a completion reports. -/
def Completion.reported (c : Completion) : Usage :=
  (c.usage.map fun u => ⟨u.promptTokens, u.completionTokens⟩).getD .zero

section deserialize

theorem asStruct_of_get {v w : Value} {key : RustString} (h : v.get key = some w)
    (fields : List RustString) : v.asStruct fields = some v := by
  cases v with
  | object members => rfl
  | _ => cases h

theorem optional_of_nullable {v : Value} {key : RustString} {text : Option RustString}
    (h : Nullable (v.get key) (text.map .string)) :
    Value.optional asStr key v = some text := by
  rw [Value.optional, defaulted]
  obtain h | ⟨hnone, h⟩ := h
  · rw [h]
    cases text <;> rfl
  · rw [h]
    cases text with
    | none => rfl
    | some text => cases hnone

theorem IsToolCall.deserialize {call : Call} {item : Value} (h : IsToolCall call item) :
    ResponseToolCall.deserialize item = some ⟨call.id, ⟨call.name, call.arguments⟩⟩ := by
  obtain ⟨function, hfunction, hname, harguments⟩ := h.function
  have hread : ResponseToolFunction.deserialize function = some ⟨call.name, call.arguments⟩ := by
    rw [ResponseToolFunction.deserialize, asStruct_of_get hname]
    simp [required_of_get hname, required_of_get harguments, asStr]
  rw [ResponseToolCall.deserialize, asStruct_of_get h.id]
  simp [required_of_get h.id, required_of_get hfunction, hread, asStr]

/-- Items that are all read. -/
theorem mapM_read {α β : Type} {R : α → Value → Prop} {read : Value → Option β} {g : α → β}
    (hread : ∀ a v, R a v → read v = some (g a)) {as : List α} {items : List Value}
    (h : List.Forall₂ R as items) : items.mapM read = some (as.map g) := by
  induction h with
  | nil => rfl
  | cons hitem rest ih =>
    rw [List.mapM_cons, hread _ _ hitem, ih]
    rfl

theorem IsUsage.deserialize {u : OpenAiUsage} {v : Value} (h : IsUsage u v) :
    OpenAiUsage.deserialize v = some u := by
  have hprompt : defaulted u32 0 (str "prompt_tokens") v = some u.promptTokens := by
    rw [defaulted, h.promptTokens]
    exact u32_int u.promptTokens
  have hcompletion : defaulted u32 0 (str "completion_tokens") v = some u.completionTokens := by
    rw [defaulted, h.completionTokens]
    exact u32_int u.completionTokens
  rw [OpenAiUsage.deserialize, asStruct_of_get h.promptTokens]
  simp [hprompt, hcompletion]

theorem HasUsage.deserialize {usage : Option OpenAiUsage} {v : Value} (h : HasUsage usage v) :
    Value.optional OpenAiUsage.deserialize (str "usage") v = some usage := by
  rw [Value.optional, defaulted]
  obtain ⟨hnone, hfield | ⟨-, hfield⟩⟩ | ⟨u, w, husage, hfield, hw⟩ := h
  · rw [hfield, hnone]
  · rw [hfield, hnone]
    rfl
  · rw [hfield, husage]
    have hread := hw.deserialize
    cases w with
    | null => cases hw.promptTokens
    | _ => simp [nullable, hread]

theorem IsMessage.deserialize {c : Completion} {message : Value} (h : IsMessage c message)
    (hnull : message.get (str "tool_calls") ≠ some .null) :
    ∃ role, ChatMsg.deserialize message = some ⟨role, c.content,
      c.toolCalls.map fun call => ⟨call.id, ⟨call.name, call.arguments⟩⟩⟩ := by
  obtain ⟨role, hrole⟩ := h.role
  have hcalls : defaulted (vec ResponseToolCall.deserialize) [] (str "tool_calls") message =
      some (c.toolCalls.map fun call => ⟨call.id, ⟨call.name, call.arguments⟩⟩) := by
    obtain ⟨hnil, hfield⟩ | ⟨items, hitems, hforall⟩ := h.toolCalls
    · obtain hnone | ⟨-, hfield⟩ := hfield
      · rw [defaulted, hnone, hnil]
        rfl
      · exact absurd hfield hnull
    · rw [defaulted, hitems]
      exact mapM_read (fun _ _ hcall => hcall.deserialize) hforall
  refine ⟨role, ?_⟩
  rw [ChatMsg.deserialize, asStruct_of_get hrole]
  simp [required_of_get hrole, optional_of_nullable h.content, hcalls, asStr]

/-- Tool calls that are `null` make the message unreadable. -/
theorem IsMessage.deserialize_null {c : Completion} {message : Value} (h : IsMessage c message)
    (hnull : message.get (str "tool_calls") = some .null) : ChatMsg.deserialize message = none := by
  obtain ⟨role, hrole⟩ := h.role
  have hcalls : defaulted (vec ResponseToolCall.deserialize) [] (str "tool_calls") message =
      none := by
    rw [defaulted, hnull]
    rfl
  rw [ChatMsg.deserialize, asStruct_of_get hrole]
  simp [required_of_get hrole, optional_of_nullable h.content, hcalls]

theorem toolCallsOf_eq {body choice message : Value}
    (hchoices : body.get (str "choices") = some (.array [choice]))
    (hmessage : choice.get (str "message") = some message) :
    toolCallsOf body = message.get (str "tool_calls") := by
  simp [toolCallsOf, hchoices, asArray, hmessage]

theorem IsBody.deserialize {c : Completion} {body : Value} (h : IsBody c body)
    (hnull : toolCallsOf body ≠ some .null) : ∃ id model role,
    ChatCompletionResponse.deserialize body = some ⟨id, model,
      [⟨⟨role, c.content, c.toolCalls.map fun call => ⟨call.id, ⟨call.name, call.arguments⟩⟩⟩,
        c.finishReason⟩], c.usage⟩ := by
  obtain ⟨id, hid⟩ := h.id
  obtain ⟨model, hmodel⟩ := h.model
  obtain ⟨choice, message, hchoices, hmessage, hread, hfinish⟩ := h.choices
  rw [toolCallsOf_eq hchoices hmessage] at hnull
  obtain ⟨role, hrole⟩ := hread.deserialize hnull
  have hchoice : ChatChoice.deserialize choice = some ⟨⟨role, c.content,
      c.toolCalls.map fun call => ⟨call.id, ⟨call.name, call.arguments⟩⟩⟩, c.finishReason⟩ := by
    rw [ChatChoice.deserialize, asStruct_of_get hmessage]
    simp [required_of_get hmessage, hrole, optional_of_nullable hfinish]
  refine ⟨id, model, role, ?_⟩
  rw [ChatCompletionResponse.deserialize, asStruct_of_get hid]
  simp [required_of_get hid, required_of_get hmodel, required_of_get hchoices, asStr, vec, asArray,
    hchoice, h.usage.deserialize]

theorem IsBody.deserialize_null {c : Completion} {body : Value} (h : IsBody c body)
    (hnull : toolCallsOf body = some .null) : ChatCompletionResponse.deserialize body = none := by
  obtain ⟨id, hid⟩ := h.id
  obtain ⟨model, hmodel⟩ := h.model
  obtain ⟨choice, message, hchoices, hmessage, hread, hfinish⟩ := h.choices
  rw [toolCallsOf_eq hchoices hmessage] at hnull
  have hchoice : ChatChoice.deserialize choice = none := by
    rw [ChatChoice.deserialize, asStruct_of_get hmessage]
    simp [required_of_get hmessage, hread.deserialize_null hnull]
  rw [ChatCompletionResponse.deserialize, asStruct_of_get hid]
  simp [required_of_get hid, required_of_get hmodel, required_of_get hchoices, asStr, vec, asArray,
    hchoice]

end deserialize

section received

variable (serde : SerdeJson) (model : RustString) (usage : Usage) (requestId : Option RustString)

/-- The tool use `run_turn` makes of a call. -/
def receivedToolUse (call : Call) : ToolUse :=
  ⟨call.id, call.name, Client.parseToolArguments serde call.arguments⟩

theorem received_text (message : ChatMsg) :
    (Client.contentOf serde message).foldl takeText [] = message.content.getD [] := by
  have huses (content : RustString) (calls : List ResponseToolCall) :
      (calls.map fun tc => OutputContentBlock.toolUse tc.id tc.function.name
        (Client.parseToolArguments serde tc.function.arguments)).foldl takeText content =
          content := by
    induction calls with
    | nil => rfl
    | cons tc calls ih => exact ih
  rw [Client.contentOf, List.foldl_append, huses]
  cases message.content with
  | none => rfl
  | some text =>
    cases text with
    | nil => rfl
    | cons c text => rfl

theorem received_toolUses (message : ChatMsg) :
    (Client.contentOf serde message).filterMap toolUseOf = message.toolCalls.map fun tc =>
      ⟨tc.id, tc.function.name, Client.parseToolArguments serde tc.function.arguments⟩ := by
  have huses : (message.toolCalls.map fun tc => OutputContentBlock.toolUse tc.id tc.function.name
      (Client.parseToolArguments serde tc.function.arguments)).filterMap toolUseOf =
        message.toolCalls.map fun tc => ⟨tc.id, tc.function.name,
          Client.parseToolArguments serde tc.function.arguments⟩ := by
    rw [List.filterMap_map]
    exact congrFun (List.filterMap_eq_map (f := fun tc : ResponseToolCall =>
      (⟨tc.id, tc.function.name, Client.parseToolArguments serde tc.function.arguments⟩ : ToolUse))) _
  rw [Client.contentOf, List.filterMap_append, huses]
  cases message.content.filter fun v => !v.isEmpty <;> rfl

/-- What `run_turn` makes of a completion that comes as a whole. -/
theorem receivedReply_eq {c : Completion} {body : Value} {text : RustString} (h : IsBody c body)
    (htext : serde.fromStr text = some body) (hnull : toolCallsOf body ≠ some .null) :
    receivedReply serde model usage requestId text =
      ((usage.add c.reported).map fun usage =>
        (⟨c.content.getD [], c.toolCalls.map (receivedToolUse serde), usage⟩ : Reply)).mapError
          Failure.panic := by
  obtain ⟨id, bodyModel, role, hread⟩ := h.deserialize hnull
  rw [receivedReply, Client.receiveBody, htext]
  simp only [ApiError.embedded_none _ requestId _ h.error, hread, Client.normalizeResponse, List.head?_cons,
    Except.map, replyOfResponse, received_text, received_toolUses]
  rw [Completion.reported]
  cases usage.add ((c.usage.map fun u => (⟨u.promptTokens, u.completionTokens⟩ : Usage)).getD .zero) with
  | error p => rfl
  | ok total =>
    simp only [List.map_map]
    rfl

/-- Tool calls that are `null` are refused. -/
theorem receivedReply_null {c : Completion} {body : Value} {text : RustString} (h : IsBody c body)
    (htext : serde.fromStr text = some body) (hnull : toolCallsOf body = some .null) :
    ∃ failure, receivedReply serde model usage requestId text = .error failure := by
  rw [receivedReply, Client.receiveBody, htext]
  simp only [ApiError.embedded_none _ requestId _ h.error, h.deserialize_null hnull]
  exact ⟨_, rfl⟩

end received

end Solarcido.Crates
