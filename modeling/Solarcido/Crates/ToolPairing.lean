import Solarcido.Crates.TurnTraces
import Solarcido.Lib.Serial
import Solarcido.Lib.Sifting

namespace Solarcido.Crates

open RustText Serial Wire

section session

def toolUseId : InputContentBlock → Option RustString
  | .toolUse id _ _ => some id
  | _ => none

def toolResultId : InputContentBlock → Option RustString
  | .toolResult id _ _ => some id
  | _ => none

def isText : InputContentBlock → Bool
  | .text _ => true
  | _ => false

def toolUseIds (message : InputMessage) : List RustString := message.content.filterMap toolUseId

def toolResultIds (message : InputMessage) : List RustString :=
  message.content.filterMap toolResultId

/-- An assistant's message or a user's text. -/
def endsAnswers (message : InputMessage) : Bool :=
  message.role = str "assistant" || message.content.any isText

/-- The tool results in front of the next user text or assistant's message. -/
def answersOf (after : List InputMessage) : List RustString :=
  (after.takeWhile fun message => !endsAnswers message).flatMap toolResultIds

/-- Each tool use is answered, in order. -/
def AnsweredIn (_ : List InputMessage) (message : InputMessage) (after : List InputMessage) : Prop :=
  toolUseIds message ≠ [] → answersOf after = toolUseIds message

theorem toolUseIds_assistantMessage (content : RustString) (toolUses : List ToolUse) :
    toolUseIds (ConversationRuntime.assistantMessage content toolUses) =
      toolUses.map ToolUse.id := by
  have huses : (toolUses.map fun toolUse : ToolUse => InputContentBlock.toolUse toolUse.id
      toolUse.name toolUse.input).filterMap toolUseId = toolUses.map ToolUse.id := by
    rw [List.filterMap_map]
    exact congrFun (List.filterMap_eq_map (f := ToolUse.id)) toolUses
  rw [toolUseIds, ConversationRuntime.assistantMessage, List.filterMap_append, huses]
  split <;> rfl

theorem answersOf_answers (answers : List (ToolUse × RustString)) (after : List InputMessage) :
    answersOf (answers.map Exchange.answer ++ after) =
      (answers.map fun a => a.1.id) ++ answersOf after := by
  induction answers with
  | nil => rfl
  | cons a answers ih =>
    rw [List.map_cons, List.cons_append, answersOf, List.takeWhile_cons_of_pos rfl,
      List.flatMap_cons, List.map_cons, List.cons_append]
    exact congrArg (a.1.id :: ·) ih

/-- A session goes on with a user's text or an assistant's message. -/
theorem answersOf_exchanges (exchanges : List Exchange) :
    answersOf (exchanges.flatMap Exchange.messages) = [] := by
  cases exchanges with
  | nil => rfl
  | cons exchange rest =>
    rw [List.flatMap_cons]
    cases exchange with
    | user text => rfl
    | reply content answers =>
      rw [Exchange.messages, List.cons_append, answersOf, List.takeWhile_cons_of_neg]
      · rfl
      · simp [endsAnswers, ConversationRuntime.assistantMessage]

theorem complete_answered {messages : List InputMessage} (h : Complete messages) :
    Everywhere AnsweredIn messages := by
  obtain ⟨exchanges, rfl⟩ := h
  induction exchanges with
  | nil => exact everywhere_of_forall fun o ho => absurd ho List.not_mem_nil
  | cons exchange rest ih =>
    have hleft (x before : List InputMessage) (message : InputMessage) (after : List InputMessage)
        (h : AnsweredIn before message after) : AnsweredIn (x ++ before) message after := h
    rw [List.flatMap_cons]
    cases exchange with
    | user text =>
      exact Everywhere.cons hleft (fun h => absurd rfl h) ih
    | reply content answers =>
      rw [Exchange.messages, List.cons_append]
      refine Everywhere.cons hleft ?_ ?_
      · intro _
        rw [answersOf_answers, answersOf_exchanges, List.append_nil, toolUseIds_assistantMessage,
          List.map_map]
        rfl
      · intro before message after hsplit
        obtain ⟨tail, hhere, rfl⟩ | ⟨tail, rfl, hhere⟩ := split_append hsplit
        · obtain ⟨a, -, rfl⟩ : ∃ a ∈ answers, Exchange.answer a = message :=
            List.mem_map.mp (by rw [hhere]; simp)
          exact fun h => absurd rfl h
        · exact ih tail message after hhere

/-- Each tool use of a session is answered by one result with its id, in order, in front of the
next user text or assistant's message. -/
def AllAnswered (messages : List InputMessage) : Prop :=
  ∀ before message after, messages = before ++ message :: after → toolUseIds message ≠ [] →
    answersOf after = toolUseIds message ∧
      ((toolUseIds message).Nodup → ∀ id ∈ toolUseIds message, (answersOf after).count id = 1)

theorem Complete.allAnswered {messages : List InputMessage} (h : Complete messages) :
    AllAnswered messages := by
  intro before message after hsplit huses
  have hanswers := complete_answered h before message after hsplit huses
  refine ⟨hanswers, ?_⟩
  intro hnodup id hid
  rw [hanswers]
  exact List.count_eq_one_of_mem hnodup hid

end session

section wire

variable (floatText : UInt64 → RustString)

/-- A tool message stands behind the message with its call, with nothing but tool messages
between. -/
def CoveredIn (before : List Value) (message : Value) (_ : List Value) : Prop :=
  isTool message = true → ∃ earlier caller tools, before = earlier ++ caller :: tools ∧
    isTool caller = false ∧ (∀ t ∈ tools, isTool t = true) ∧
    ((caller.get (str "tool_calls")).bind Value.asArray).any (fun toolCalls => toolCalls.any
      (callsTool (((message.get (str "tool_call_id")).bind Value.asStr).getD []))) = true

theorem coveredIn_left (x before : List Value) (message : Value) (after : List Value)
    (h : CoveredIn before message after) : CoveredIn (x ++ before) message after := by
  intro htool
  obtain ⟨earlier, caller, tools, rfl, hrest⟩ := h htool
  exact ⟨x ++ earlier, caller, tools, (List.append_assoc _ _ _).symm, hrest⟩

theorem coveredIn_right (x before : List Value) (message : Value) (after : List Value)
    (h : CoveredIn before message after) : CoveredIn before message (after ++ x) := h

theorem isDropped_of_covered {before after : List Value} {message : Value}
    (h : CoveredIn before message after) : isDropped before message = false := by
  rw [isDropped]
  split
  · next htool =>
    obtain ⟨earlier, caller, tools, rfl, hcaller, htools, hpaired⟩ := h htool
    have hnone : (tools.reverse.find? fun m => !isTool m) = none := by
      rw [List.find?_eq_none]
      intro t ht
      simp [htools t (List.mem_reverse.mp ht)]
    have hfind : ((earlier ++ caller :: tools).reverse.find? fun m => !isTool m) = some caller := by
      rw [List.reverse_append, List.reverse_cons, List.append_assoc, List.find?_append, hnone,
        Option.none_or, List.singleton_append, List.find?_cons_of_pos (by simp [hcaller])]
    simp only [hfind, Option.bind_some, hpaired]
    split <;> rfl
  · rfl

/-- Where every tool message has its call in front of it nothing is dropped. -/
theorem sanitize_of_covered {messages : List Value} (h : Everywhere CoveredIn messages) :
    sanitizeToolMessagePairing messages = messages := by
  apply Sifting.sift_eq_self isDropped
  intro before message after hsplit
  exact isDropped_of_covered (h before message after hsplit)

theorem callsTool_toolCallOf (id name : RustString) (input : Value) :
    callsTool id (toolCallOf floatText id name input) = true := by
  simp +decide [callsTool, toolCallOf, Value.get_object_cons, Value.asStr]

/-- The message of a tool's answer. -/
def toolMessage (a : ToolUse × RustString) : Value :=
  .object [
    (str "content", .string a.2),
    (str "role", .string (str "tool")),
    (str "tool_call_id", .string a.1.id)]

theorem translate_answer (a : ToolUse × RustString) :
    translateMessage floatText (Exchange.answer a) = [toolMessage a] := by
  have hrole : (Exchange.answer a).role = str "user" := rfl
  rw [translateMessage, hrole, if_neg (by decide)]
  simp [Exchange.answer, InputMessage.userToolResult, userBlock, toolMessage,
    flattenToolResultContent, flattenBlock, join]

theorem isTool_object (v : Value) (text : RustString) (members : List (RustString × Value)) :
    isTool (.object ((str "content", v) :: (str "role", .string text) :: members)) =
      decide (text = str "tool") := by
  simp +decide [isTool, roleOf, Value.get_object_cons, Value.asStr]

theorem translate_assistantMessage (content : RustString) (toolUses : List ToolUse) :
    translateMessage floatText (ConversationRuntime.assistantMessage content toolUses) =
      if content = [] ∧ toolUses = [] then []
      else
        [.object ([
          (str "content", if content = [] then .null else .string content),
          (str "role", .string (str "assistant"))] ++
          if toolUses = [] then [] else [(str "tool_calls",
            .array (toolUses.map fun toolUse =>
              toolCallOf floatText toolUse.id toolUse.name toolUse.input))])] := by
  have hrole : (ConversationRuntime.assistantMessage content toolUses).role = str "assistant" := rfl
  have htext : (ConversationRuntime.assistantMessage content toolUses).content.flatMap
      assistantText = content := by
    rw [ConversationRuntime.assistantMessage, List.flatMap_append, List.flatMap_map]
    by_cases hcontent : content = []
    · simp [hcontent, assistantText]
    · simp [hcontent, assistantText]
  have hcalls : (ConversationRuntime.assistantMessage content toolUses).content.filterMap
      (Wire.toolCall floatText) = toolUses.map fun toolUse =>
        toolCallOf floatText toolUse.id toolUse.name toolUse.input := by
    have huses : (toolUses.map fun toolUse : ToolUse => InputContentBlock.toolUse toolUse.id
        toolUse.name toolUse.input).filterMap (Wire.toolCall floatText) = toolUses.map fun toolUse =>
          toolCallOf floatText toolUse.id toolUse.name toolUse.input := by
      rw [List.filterMap_map]
      exact congrFun (List.filterMap_eq_map (f := fun toolUse : ToolUse =>
        toolCallOf floatText toolUse.id toolUse.name toolUse.input)) toolUses
    rw [ConversationRuntime.assistantMessage, List.filterMap_append, huses]
    split <;> rfl
  rw [translateMessage, if_pos hrole]
  simp only [htext, hcalls, List.map_eq_nil_iff]

theorem isTool_toolMessage (a : ToolUse × RustString) : isTool (toolMessage a) = true := by
  rw [toolMessage, isTool_object]
  rfl

theorem toolCallId_toolMessage (a : ToolUse × RustString) :
    (((toolMessage a).get (str "tool_call_id")).bind Value.asStr).getD [] = a.1.id := by
  simp +decide [toolMessage, Value.get_object_cons, Value.asStr]

theorem reply_covered (content : RustString) (answers : List (ToolUse × RustString)) :
    Everywhere CoveredIn
      ((Exchange.reply content answers).messages.flatMap (translateMessage floatText)) := by
  have hanswers : (answers.map Exchange.answer).flatMap (translateMessage floatText) =
      answers.map toolMessage := by
    rw [List.flatMap_map, List.map_eq_flatMap]
    exact List.flatMap_congr fun a _ => translate_answer floatText a
  have hassistant (v : Value) (members : List (RustString × Value)) :
      isTool (.object ((str "content", v) :: (str "role", .string (str "assistant")) :: members)) =
        false := by
    rw [isTool_object]
    decide
  rw [Exchange.messages, List.flatMap_cons, hanswers, translate_assistantMessage]
  cases answers with
  | nil =>
    apply everywhere_of_forall
    intro o ho before after htool
    split at ho
    · simp at ho
    · have hnot : isTool o = false := by
        rw [List.mem_singleton.mp ho]
        exact hassistant _ _
      rw [hnot] at htool
      cases htool
  | cons a rest =>
    have huses : (a :: rest).map Prod.fst ≠ [] := by simp
    rw [if_neg fun h => huses h.2, if_neg huses]
    generalize hcalls : ((a :: rest).map Prod.fst).map (fun toolUse : ToolUse =>
      toolCallOf floatText toolUse.id toolUse.name toolUse.input) = calls
    intro before message after hsplit htool
    cases before with
    | nil =>
      obtain ⟨rfl, -⟩ := List.cons.inj hsplit
      have hnot := hassistant (if content = [] then .null else .string content)
        [(str "tool_calls", .array calls)]
      exact absurd (hnot.symm.trans htool) (by simp)
    | cons caller before =>
      obtain ⟨rfl, hrest⟩ := List.cons.inj hsplit
      have hmessages : (a :: rest).map toolMessage = before ++ message :: after := hrest
      have hmem (m : Value) (hm : m ∈ before ++ message :: after) :
          ∃ b ∈ a :: rest, toolMessage b = m := by
        have : m ∈ (a :: rest).map toolMessage := by
          rw [hmessages]
          exact hm
        exact List.mem_map.mp this
      refine ⟨[], _, before, rfl, ?_, ?_, ?_⟩
      · exact hassistant _ _
      · intro t ht
        obtain ⟨b, -, rfl⟩ := hmem t (by simp [ht])
        exact isTool_toolMessage b
      · obtain ⟨b, hb, rfl⟩ := hmem message (by simp)
        rw [toolCallId_toolMessage]
        have hcall : toolCallOf floatText b.1.id b.1.name b.1.input ∈ calls := by
          rw [← hcalls, List.map_map]
          exact List.mem_map.mpr ⟨b, hb, rfl⟩
        have hany : calls.any (callsTool b.1.id) = true :=
          List.any_eq_true.mpr ⟨_, hcall, callsTool_toolCallOf floatText _ _ _⟩
        simp +decide [Value.get_object_cons, Value.asArray, hany]

theorem exchanges_covered (exchanges : List Exchange) : Everywhere CoveredIn
    ((exchanges.flatMap Exchange.messages).flatMap (translateMessage floatText)) := by
  induction exchanges with
  | nil => exact everywhere_of_forall fun o ho => absurd ho List.not_mem_nil
  | cons exchange rest ih =>
    rw [List.flatMap_cons, List.flatMap_append]
    refine Everywhere.append coveredIn_left coveredIn_right ?_ ih
    cases exchange with
    | user text =>
      apply everywhere_of_forall
      intro o ho before after htool
      have ho : o ∈ [Value.object [(str "content", .string text),
        (str "role", .string (str "user"))]] := ho
      rw [List.mem_singleton.mp ho, isTool_object] at htool
      cases htool
    | reply content answers => exact reply_covered floatText content answers

variable {floatText} in
theorem CallsTrace.no_request {policy : PermissionPolicy} {answers : List (ToolUse × RustString)}
    {labels : List Action} (h : CallsTrace policy floatText answers labels)
    (request : MessageRequest) : .request request ∉ labels := by
  induction h with
  | nil => exact List.not_mem_nil
  | cons first rest ih =>
    rw [List.mem_append, not_or]
    refine ⟨?_, ih⟩
    cases first with
    | allowed h =>
      cases h with
      | mode h => simp
      | approval hactive hrequired => simp
    | denied h hmode reason houtput =>
      cases h with
      | mode => simp
      | disapproval => simp

variable {floatText} in
theorem TurnTrace.complete {policy : PermissionPolicy} {labels : List Action}
    (h : TurnTrace policy floatText labels) {request : MessageRequest}
    (hmem : .request request ∈ labels) : Complete request.messages := by
  induction h with
  | limit => simp at hmem
  | ended h turnEnd =>
    simp only [List.mem_cons, Action.request.injEq, reduceCtorEq, List.not_mem_nil, or_false] at hmem
    rwa [hmem]
  | calls h hcalls rest ih =>
    obtain hmem | hmem := List.mem_cons.mp hmem
    · rwa [Action.request.inj hmem]
    · obtain hmem | hmem := List.mem_append.mp hmem
      · exact absurd hmem (hcalls.no_request request)
      · exact ih hmem

end wire

namespace ConversationRuntime

variable {ω : Type}

/-- In every run every request carries a session whose tool uses have all been answered, and
sanitizing the request drops nothing; so does the session at the end. -/
theorem wire_requests_paired (self : ConversationRuntime) (host : Host ω) (serde : SerdeJson)
    (turns : List (Turn ω)) (world : ω) :
    (∀ request, .request request ∈ (self.after host serde turns world).trace →
      sanitizeToolMessagePairing (requestMessages host.floatText request) =
          requestMessages host.floatText request ∧
        AllAnswered request.messages) ∧
    AllAnswered (self.after host serde turns world).messages := by
  obtain ⟨⟨traces, htrace, hturns⟩, hsession⟩ := self.after_trace host serde turns world
  refine ⟨?_, hsession.allAnswered⟩
  intro request hmem
  rw [htrace] at hmem
  obtain ⟨labels, hlabels, hmem⟩ := List.mem_flatten.mp hmem
  have hcomplete := (hturns labels hlabels).complete hmem
  refine ⟨?_, hcomplete.allAnswered⟩
  apply sanitize_of_covered
  obtain ⟨exchanges, hexchanges⟩ := hcomplete
  rw [requestMessages, hexchanges]
  refine Everywhere.append coveredIn_left coveredIn_right ?_ (exchanges_covered _ exchanges)
  apply everywhere_of_forall
  intro o ho before after htool
  split at ho
  · rw [List.mem_singleton.mp ho, isTool_object] at htool
    cases htool
  · simp at ho

end ConversationRuntime

end Solarcido.Crates
