import Solarcido.Lib.LeaderGroups
import Solarcido.Conversation.Course

namespace Solarcido.Conversation

open Text Tools Api ThrowingProgram LeaderGroups Traces

/-- The calls an assistant message makes. -/
def callsOf (message : ChatMessage) : List ChatToolCall :=
  if message.role = .assistant then message.tool_calls.getD [] else []

/-- Each of the tool messages behind a message answers one of its calls. -/
def AnswersCalls (message : ChatMessage) (answers : List ChatMessage) : Prop :=
  ∀ answer ∈ answers, ∃ call ∈ callsOf message, answer.tool_call_id = some call.id

/-- The tool messages behind a message answer its calls, and all of them. -/
def Answered (message : ChatMessage) (answers : List ChatMessage) : Prop :=
  AnswersCalls message answers ∧
    ∀ call ∈ callsOf message, ∃ answer ∈ answers, answer.tool_call_id = some call.id

/-- The tool messages behind a message answer each of its calls, and each exactly once. -/
def AnsweredOnce (message : ChatMessage) (answers : List ChatMessage) : Prop :=
  AnswersCalls message answers ∧
    ∀ call ∈ callsOf message, answers.countP (fun answer => answer.tool_call_id = some call.id) = 1

instance (message : ChatMessage) (answers : List ChatMessage) :
    Decidable (AnswersCalls message answers) :=
  inferInstanceAs (Decidable (∀ answer ∈ answers, ∃ call ∈ callsOf message, _))

instance (message : ChatMessage) (answers : List ChatMessage) :
    Decidable (Answered message answers) :=
  inferInstanceAs (Decidable (_ ∧ ∀ call ∈ callsOf message, ∃ answer ∈ answers, _))

instance (message : ChatMessage) (answers : List ChatMessage) :
    Decidable (AnsweredOnce message answers) :=
  inferInstanceAs (Decidable (_ ∧ ∀ call ∈ callsOf message, _))

/-- Every tool message stands behind an assistant message that has made its call, with
tool messages alone between them, and every call of an assistant message is answered there. -/
def Paired (messages : List ChatMessage) : Prop := Grouped isTool Answered messages

instance (messages : List ChatMessage) : Decidable (Paired messages) :=
  inferInstanceAs (Decidable (Grouped isTool Answered messages))

/-- The same, with exactly one answer for each call. -/
def WellPaired (messages : List ChatMessage) : Prop := Grouped isTool AnsweredOnce messages

instance (messages : List ChatMessage) : Decidable (WellPaired messages) :=
  inferInstanceAs (Decidable (Grouped isTool AnsweredOnce messages))

/-- The answers of a list of calls in their order. -/
structure AnswersTo (calls : List ChatToolCall) (answers : List ChatMessage) : Prop where
  tools : ∀ answer ∈ answers, isTool answer = true
  ids : answers.map ChatMessage.tool_call_id = calls.map fun call => some call.id

theorem AnswersTo.snoc {calls : List ChatToolCall} {answers : List ChatMessage}
    (h : AnswersTo calls answers) (toolCall : ChatToolCall) (content : JsString) :
    AnswersTo (calls ++ [toolCall]) (answers ++ [toolMessage toolCall content]) where
  tools answer hanswer := by
    rcases List.mem_append.mp hanswer with hold | hnew
    · exact h.tools answer hold
    · obtain rfl := List.mem_singleton.mp hnew
      rfl
  ids := by
    rw [List.map_append, List.map_append, h.ids]
    rfl

theorem AnswersTo.mem_id {calls : List ChatToolCall} {answers : List ChatMessage}
    (h : AnswersTo calls answers) (id : Option JsString) :
    (∃ answer ∈ answers, answer.tool_call_id = id) ↔ ∃ call ∈ calls, some call.id = id := by
  have hids := congrArg (id ∈ ·) h.ids
  simpa only [List.mem_map, eq_iff_iff] using hids

section fits

theorem callsOf_assistantMessage (message : ChatMessage) :
    callsOf (assistantMessage message) = message.tool_calls.getD [] := rfl

theorem callsOf_text_user (content : JsString) : callsOf (.text .user content) = [] := rfl

theorem answersCalls_of_answersTo {message : ChatMessage} {answers : List ChatMessage}
    (h : AnswersTo (callsOf message) answers) : AnswersCalls message answers := by
  intro answer hanswer
  obtain ⟨call, hcall, hid⟩ := (h.mem_id answer.tool_call_id).mp ⟨answer, hanswer, rfl⟩
  exact ⟨call, hcall, hid.symm⟩

theorem answered_of_answersTo {message : ChatMessage} {answers : List ChatMessage}
    (h : AnswersTo (callsOf message) answers) : Answered message answers :=
  ⟨answersCalls_of_answersTo h, fun call hcall => (h.mem_id _).mpr ⟨call, hcall, rfl⟩⟩

theorem answeredOnce_of_answersTo {message : ChatMessage} {answers : List ChatMessage}
    (hids : ((callsOf message).map ChatToolCall.id).Nodup)
    (h : AnswersTo (callsOf message) answers) : AnsweredOnce message answers := by
  refine ⟨answersCalls_of_answersTo h, fun call hcall => ?_⟩
  have hcount : answers.countP (fun answer => answer.tool_call_id = some call.id) =
      ((answers.map ChatMessage.tool_call_id).countP fun id => id = some call.id) := by
    rw [List.countP_map]
    rfl
  have hsome : ((callsOf message).map fun call => some call.id) =
      ((callsOf message).map ChatToolCall.id).map some := by
    rw [List.map_map]
    rfl
  rw [hcount, h.ids, hsome, List.countP_map]
  have hone := List.count_eq_one_of_mem hids (List.mem_map_of_mem hcall)
  rw [← hone, List.count_eq_countP]
  refine List.countP_congr fun id _ => ?_
  simp

end fits

section course

-- A law for the answers of a message, the events that are taken for granted, and the
-- first two messages.
variable (Fits : ChatMessage → List ChatMessage → Prop) (GoodEvent : Event → Prop)
  (head : List ChatMessage)

def Good (shown : List Event) : Prop := ∀ e ∈ shown, GoodEvent e

/-- Messages that begin with the head. After a compaction no tool message comes next. -/
def Rooted (shown : List Event) (messages : List ChatMessage) : Prop :=
  ∃ rest, messages = head ++ rest ∧ (.compacted ∈ shown → StartsFresh isTool rest)

/-- The messages while the calls of a reply are made: first those before the reply, then
the reply, then the answers to the calls that are done. -/
structure Answering (shown : List Event) (base : List ChatMessage) (message : ChatMessage)
    (answers : List ChatMessage) (done : List ChatToolCall) : Prop where
  rooted : Rooted head shown base
  grouped : Good GoodEvent shown → Grouped isTool Fits base
  replied : .reply message ∈ shown
  answers : AnswersTo done answers

/-- What is known at the points of a run. -/
def Standing (shown : List Event) : Point → Prop
  | .ready messages _ =>
    Rooted head shown messages ∧ (Good GoodEvent shown → Grouped isTool Fits messages)
  | .calling pending messages _ => ∃ base message answers done,
    messages = base ++ assistantMessage message :: answers ∧
      message.tool_calls.getD [] = done ++ pending ∧
      Answering Fits GoodEvent head shown base message answers done
  | .completed => ∃ before toolCall pending result finish base message answers done,
    shown = before ++ [.completed toolCall pending result
      (completion finish (base ++ assistantMessage message :: answers))] ∧
      message.tool_calls.getD [] = done ++ pending ∧
      Answering Fits GoodEvent head before base message answers done

def RequestGrouped : Event → Prop
  | .chatRequest options => Grouped isTool Fits options.messages
  | _ => True

/-- What is known all along a run. -/
structure Tracked (shown : List Event) (p : Point) : Prop where
  standing : Standing Fits GoodEvent head shown p
  requests : Good GoodEvent shown → ∀ e ∈ shown, RequestGrouped Fits e

variable {Fits GoodEvent head}

theorem Good.left {a b : List Event} (h : Good GoodEvent (a ++ b)) : Good GoodEvent a :=
  fun e he => h e (List.mem_append_left b he)

theorem Rooted.mono {shown events : List Event} {messages : List ChatMessage}
    (h : Rooted head shown messages) (hno : .compacted ∉ events) :
    Rooted head (shown ++ events) messages := by
  obtain ⟨rest, hmessages, hfresh⟩ := h
  refine ⟨rest, hmessages, fun hmem => hfresh ?_⟩
  exact (List.mem_append.mp hmem).resolve_right hno

theorem Rooted.append {shown : List Event} {messages more : List ChatMessage}
    (h : Rooted head shown messages) (hmore : StartsFresh isTool more) :
    Rooted head shown (messages ++ more) := by
  obtain ⟨rest, rfl, hfresh⟩ := h
  exact ⟨rest ++ more, List.append_assoc .., fun hmem => (hfresh hmem).append hmore⟩

theorem Answering.mono {shown events : List Event} {base : List ChatMessage}
    {message : ChatMessage} {answers : List ChatMessage} {done : List ChatToolCall}
    (h : Answering Fits GoodEvent head shown base message answers done)
    (hno : .compacted ∉ events) :
    Answering Fits GoodEvent head (shown ++ events) base message answers done where
  rooted := h.rooted.mono hno
  grouped hgood := h.grouped hgood.left
  replied := List.mem_append_left _ h.replied
  answers := h.answers

theorem Answering.snoc {shown : List Event} {base : List ChatMessage} {message : ChatMessage}
    {answers : List ChatMessage} {done : List ChatToolCall}
    (h : Answering Fits GoodEvent head shown base message answers done) (toolCall : ChatToolCall)
    (content : JsString) :
    Answering Fits GoodEvent head shown base message (answers ++ [toolMessage toolCall content])
      (done ++ [toolCall]) where
  rooted := h.rooted
  grouped := h.grouped
  replied := h.replied
  answers := h.answers.snoc toolCall content

-- A message without calls needs no answers, and all the answers of a good reply fit it.
variable (hplain : ∀ message, callsOf message = [] → Fits message [])
  (hreply : ∀ message answers, GoodEvent (.reply message) →
    AnswersTo (message.tool_calls.getD []) answers → Fits (assistantMessage message) answers)
  (hcompacted : GoodEvent .compacted → Led isTool Fits head)

include hplain in
theorem grouped_plain {message : ChatMessage} (htool : isTool message = false)
    (hcalls : callsOf message = []) : Grouped isTool Fits [message] :=
  grouped_leader htool (by simp) (hplain message hcalls)

include hreply in
/-- All calls of a reply done: its group is complete. -/
theorem Answering.complete {shown : List Event} {base : List ChatMessage} {message : ChatMessage}
    {answers : List ChatMessage}
    (h : Answering Fits GoodEvent head shown base message answers (message.tool_calls.getD []))
    (hgood : Good GoodEvent shown) :
    Grouped isTool Fits (base ++ assistantMessage message :: answers) :=
  (h.grouped hgood).append (grouped_leader rfl h.answers.tools
    (hreply message answers (hgood _ h.replied) h.answers))

theorem keptRecent_grouped {ε : Type} (self : ConversationRuntime ε) {messages : List ChatMessage}
    (h : Led isTool Fits messages) : Grouped isTool Fits (keptRecent self messages) := by
  rw [keptRecent, safeRecentMessages]
  split
  · exact grouped_nil
  · exact grouped_dropWhile ((h.drop 2).drop _)

include hplain hcompacted in
theorem compactedMessages_grouped {ε : Type} (self : ConversationRuntime ε) (hlen : head.length = 2)
    {shown : List Event} {messages : List ChatMessage} (hrooted : Rooted head shown messages)
    (hgrouped : Grouped isTool Fits messages) (hgood : GoodEvent .compacted)
    (summaryContent : JsString) :
    Grouped isTool Fits (compactedMessages self messages summaryContent) := by
  obtain ⟨rest, rfl, -⟩ := hrooted
  have htake : (head ++ rest).take 2 = head := by
    rw [← hlen, List.take_left]
  have hhead : Grouped isTool Fits head := by
    refine ⟨fun message hmem => hgrouped.fresh message ?_, hcompacted hgood⟩
    cases head with
    | nil => simp at hmem
    | cons first others => simpa using hmem
  rw [compactedMessages, htake]
  exact hhead.append ((grouped_plain hplain rfl (callsOf_text_user _)).append
    (keptRecent_grouped self hgrouped.led))

theorem compactedMessages_rooted {ε : Type} (self : ConversationRuntime ε) (hlen : head.length = 2)
    {shown later : List Event} {messages : List ChatMessage} (hrooted : Rooted head shown messages)
    (summaryContent : JsString) :
    Rooted head later (compactedMessages self messages summaryContent) := by
  obtain ⟨rest, rfl, -⟩ := hrooted
  have htake : (head ++ rest).take 2 = head := by
    rw [← hlen, List.take_left]
  exact ⟨_, by rw [compactedMessages, htake], fun _ => startsFresh_cons _ rfl⟩

section steps

variable {ε : Type} (self : ConversationRuntime ε) (cfg : Settings ε)

theorem Tracked.step_requests {shown events : List Event} {p : Point}
    (h : Tracked Fits GoodEvent head shown p)
    (hnew : Good GoodEvent (shown ++ events) → ∀ e ∈ events, RequestGrouped Fits e) :
    Good GoodEvent (shown ++ events) → ∀ e ∈ shown ++ events, RequestGrouped Fits e := by
  intro hgood e he
  rcases List.mem_append.mp he with hold | hlast
  · exact h.requests hgood.left e hold
  · exact hnew hgood e hlast

theorem IsCallEvent.request_grouped {e : Event} (h : IsCallEvent e) : RequestGrouped Fits e := by
  cases e <;> first | exact trivial | exact absurd h id

theorem compacted_not_mem {events later : List Event} (hevents : ∀ e ∈ events, IsCallEvent e)
    (hlater : .compacted ∉ later) : .compacted ∉ events ++ later := by
  intro hmem
  rcases List.mem_append.mp hmem with h | h
  · exact hevents _ h
  · exact hlater h

/-- The answer to the first call that is left. -/
theorem Standing.answered {shown events : List Event} {toolCall : ChatToolCall}
    {pending : List ChatToolCall} {messages : List ChatMessage} {modified : Bool}
    (h : Standing Fits GoodEvent head shown (.calling (toolCall :: pending) messages modified))
    (hevents : ∀ e ∈ events, IsCallEvent e) (result : ToolExecutionResult) (content : JsString) :
    ∃ base message answers done,
      messages ++ [toolMessage toolCall content] = base ++ assistantMessage message :: answers ∧
        message.tool_calls.getD [] = done ++ pending ∧
        Answering Fits GoodEvent head (shown ++ (events ++ [.toolResult toolCall result])) base
          message answers done := by
  obtain ⟨base, message, answers, done, rfl, hcalls, hanswering⟩ := h
  have hno : .compacted ∉ events ++ [Event.toolResult toolCall result] :=
    compacted_not_mem hevents (by simp)
  refine ⟨base, message, _, done ++ [toolCall], ?_, ?_,
    (hanswering.mono hno).snoc toolCall content⟩
  · rw [List.append_assoc, List.cons_append]
  · rw [hcalls, List.append_assoc]
    rfl

theorem call_requests_grouped {events later : List Event} (hevents : ∀ e ∈ events, IsCallEvent e)
    (hlater : ∀ e ∈ later, RequestGrouped Fits e) : ∀ e ∈ events ++ later, RequestGrouped Fits e := by
  intro e he
  obtain hcall | hlast := List.mem_append.mp he
  · exact (hevents e hcall).request_grouped
  · exact hlater e hlast

include hplain hreply hcompacted in
/-- One step keeps what is known. -/
theorem tracked_step (hlen : head.length = 2) {shown events : List Event} {p q : Point}
    (h : Tracked Fits GoodEvent head shown p) (hstep : Step self cfg p events q) :
    Tracked Fits GoodEvent head (shown ++ events) q := by
  cases hstep with
  | summary messages modified droppedText =>
    obtain ⟨hrooted, hgrouped⟩ := h.standing
    refine ⟨⟨hrooted.mono (by simp), fun hgood => hgrouped hgood.left⟩,
      h.step_requests fun hgood e he => ?_⟩
    obtain rfl := List.mem_singleton.mp he
    exact (grouped_plain hplain rfl rfl).append (grouped_plain hplain rfl rfl)
  | compact messages modified summaryContent =>
    obtain ⟨hrooted, hgrouped⟩ := h.standing
    refine ⟨⟨compactedMessages_rooted self hlen hrooted summaryContent, fun hgood => ?_⟩,
      h.step_requests fun hgood e he => ?_⟩
    · exact compactedMessages_grouped hplain hcompacted self hlen hrooted (hgrouped hgood.left)
        (hgood _ (by simp)) summaryContent
    · obtain rfl := List.mem_singleton.mp he
      trivial
  | request messages modified =>
    obtain ⟨hrooted, hgrouped⟩ := h.standing
    refine ⟨⟨hrooted.mono (by simp), fun hgood => hgrouped hgood.left⟩,
      h.step_requests fun hgood e he => ?_⟩
    obtain rfl := List.mem_singleton.mp he
    exact hgrouped hgood.left
  | answer messages modified message hnone =>
    obtain ⟨hrooted, hgrouped⟩ := h.standing
    refine ⟨⟨?_, fun hgood => ?_⟩, h.step_requests fun hgood e he => ?_⟩
    · exact ((hrooted.mono (by simp)).append (startsFresh_cons [] rfl)).append
        (startsFresh_cons [] rfl)
    · have hanswer : Grouped isTool Fits [assistantMessage message] :=
        grouped_plain hplain rfl hnone
      exact ((hgrouped hgood.left).append hanswer).append (grouped_plain hplain rfl rfl)
    · obtain rfl := List.mem_singleton.mp he
      trivial
  | calls messages modified message =>
    obtain ⟨hrooted, hgrouped⟩ := h.standing
    refine ⟨⟨messages, message, [], [], rfl, rfl, hrooted.mono (by simp),
      fun hgood => hgrouped hgood.left, by simp, ⟨by simp, rfl⟩⟩,
      h.step_requests fun hgood e he => ?_⟩
    obtain rfl := List.mem_singleton.mp he
    trivial
  | result toolCall pending messages modified result events hevents hname hgoes =>
    refine ⟨h.standing.answered hevents result _, h.step_requests fun _ => ?_⟩
    exact call_requests_grouped hevents (by simp [RequestGrouped])
  | finish toolCall pending messages modified result finish events hevents hname haccepted =>
    obtain ⟨base, message, answers, done, hmessages, hcalls, hanswering⟩ :=
      h.standing.answered hevents result (shownContent cfg modified result)
    refine ⟨⟨shown ++ (events ++ [.toolResult toolCall result]), toolCall, pending, result, finish,
      base, message, answers, done, ?_, hcalls, hanswering⟩, h.step_requests fun _ => ?_⟩
    · rw [← hmessages]
      simp only [List.append_assoc, List.cons_append, List.nil_append]
    · exact call_requests_grouped hevents (by simp [RequestGrouped])
  | rest messages modified =>
    obtain ⟨base, message, answers, done, rfl, hcalls, hanswering⟩ := h.standing
    rw [List.append_nil] at hcalls
    subst hcalls
    rw [List.append_nil]
    refine ⟨⟨hanswering.rooted.append (startsFresh_cons _ rfl), fun hgood => ?_⟩, h.requests⟩
    exact hanswering.complete hreply hgood

include hplain hreply hcompacted in
/-- What is known at the start of a run is known all along it. -/
theorem tracked_path (hlen : head.length = 2) {rest : List ChatMessage}
    (hstart : Good GoodEvent [] → Grouped isTool Fits (head ++ rest)) {modified : Bool}
    {shown : List Event} {q : Point}
    (hpath : Path (Step self cfg) (.ready (head ++ rest) modified) shown q) :
    Tracked Fits GoodEvent head shown q := by
  refine hpath.invariant (Tracked Fits GoodEvent head) ?_ fun shown q events r h hstep =>
    tracked_step hplain hreply hcompacted self cfg hlen h hstep
  exact ⟨⟨⟨rest, rfl, fun h => by simp at h⟩, hstart⟩, fun _ e he => by simp at he⟩

end steps

end course

section runs

variable {ε : Type} (host : Host ε) (self : ConversationRuntime ε)

theorem startMessages_eq (cfg : Settings ε) (gitContext : Option JsString) :
    startMessages cfg gitContext = match cfg.input.resumeMessages with
      | some (message :: messages) => (message :: messages) ++ [goalMessage cfg.input]
      | _ => [.text .system (buildSystemPrompt cfg.input.cwd cfg.approvalPolicy cfg.sandbox
          gitContext)] ++ [goalMessage cfg.input] := rfl

theorem startMessages_head (cfg : Settings ε) (gitContext : Option JsString) :
    ((startMessages cfg gitContext).take 2).length = 2 := by
  rw [startMessages]
  split <;> simp

theorem startMessages_grouped {Fits : ChatMessage → List ChatMessage → Prop}
    (hplain : ∀ message, callsOf message = [] → Fits message []) (cfg : Settings ε)
    (gitContext : Option JsString)
    (hresume : ∀ messages, cfg.input.resumeMessages = some messages →
      Grouped isTool Fits messages) :
    Grouped isTool Fits (startMessages cfg gitContext) := by
  rw [startMessages_eq]
  split
  · next message messages hsome =>
    exact (hresume _ hsome).append (grouped_plain hplain rfl rfl)
  · exact (grouped_plain hplain rfl rfl).append (grouped_plain hplain rfl rfl)

theorem answered_plain (message : ChatMessage) (h : callsOf message = []) : Answered message [] :=
  ⟨by simp [AnswersCalls], by simp [h]⟩

theorem answeredOnce_plain (message : ChatMessage) (h : callsOf message = []) :
    AnsweredOnce message [] := ⟨by simp [AnswersCalls], by simp [h]⟩

/-- A transcript to resume from begins with a system message and a user message. -/
def BeginsAsSaved (messages : List ChatMessage) : Prop :=
  ∃ first second rest, messages = first :: second :: rest ∧ first.role = .system ∧
    second.role = .user

theorem callsOf_eq_nil {message : ChatMessage} (h : message.role ≠ .assistant) :
    callsOf message = [] := if_neg h

/-- The first two messages of a run make no calls. -/
theorem startMessages_head_led (cfg : Settings ε) (gitContext : Option JsString)
    (hresume : ∀ messages, cfg.input.resumeMessages = some messages →
      messages = [] ∨ BeginsAsSaved messages) :
    Led isTool Answered ((startMessages cfg gitContext).take 2) := by
  have hpair : ∀ first second : ChatMessage, first.role ≠ .assistant → first.role ≠ .tool →
      second.role ≠ .assistant → second.role ≠ .tool → Led isTool Answered [first, second] :=
    fun first second hfirst hfirsttool hsecond hsecondtool =>
      ((grouped_plain answered_plain (by simpa [isTool] using hfirsttool)
        (callsOf_eq_nil hfirst)).append (grouped_plain answered_plain
        (by simpa [isTool] using hsecondtool) (callsOf_eq_nil hsecond))).led
  rw [startMessages_eq]
  split
  · next message messages hsome =>
    obtain hnil | ⟨first, second, rest, heq, hfirst, hsecond⟩ := hresume _ hsome
    · simp at hnil
    · rw [heq]
      exact hpair first second (by simp [hfirst]) (by simp [hfirst]) (by simp [hsecond])
        (by simp [hsecond])
  · exact hpair _ _ (by simp [ChatMessage.text]) (by simp [ChatMessage.text])
      (by simp [goalMessage, ChatMessage.text]) (by simp [goalMessage, ChatMessage.text])

/-- Every request of a run, with a summary asked for or not and before a compaction or
after it, is paired, and so is what a compaction keeps of paired messages. -/
theorem requests_paired (input : RunTurnInput ε) (m : Machine ε) (htrace : m.trace = [])
    (hresume : ∀ messages, input.resumeMessages = some messages →
      messages = [] ∨ Paired messages ∧ BeginsAsSaved messages) :
    (∀ options, .chatRequest options ∈ (finalState (runTurn host self input m)).trace →
      Paired options.messages) ∧
      ∀ messages, Paired messages → Paired (keptRecent self messages) := by
  refine ⟨fun options hmem => ?_, fun messages h => keptRecent_grouped self h.led⟩
  obtain ⟨gitContext, q, shown, hshown, hpath⟩ := runTurn_course host self input m
  rw [htrace, List.nil_append] at hshown
  rw [hshown] at hmem
  have hgrouped : Grouped isTool Answered
      (startMessages (settings host self input) gitContext) := by
    refine startMessages_grouped answered_plain _ gitContext fun messages hsome => ?_
    obtain rfl | ⟨hpaired, -⟩ := hresume messages hsome
    · exact grouped_nil
    · exact hpaired
  have hled := startMessages_head_led (settings host self input) gitContext
    fun messages hsome => (hresume messages hsome).imp_right And.right
  rw [← List.take_append_drop 2 (startMessages (settings host self input) gitContext)]
    at hpath hgrouped
  have htracked : Tracked Answered (fun _ => True)
      ((startMessages (settings host self input) gitContext).take 2) shown q :=
    tracked_path answered_plain (fun message answers _ h => answered_of_answersTo h)
      (fun _ => hled) self (settings host self input) (startMessages_head _ gitContext)
      (fun _ => hgrouped) hpath
  exact htracked.requests (fun _ _ => trivial) _ hmem

/-- A transcript with an answered call. -/
def savedTranscript : List ChatMessage :=
  [.text .system (js "system"), .text .user (js "goal"),
    replyOf [⟨js "call-0", js "list_files", []⟩],
    toolMessage ⟨js "call-0", js "list_files", []⟩ (js "")]

theorem requests_paired_resumed :
    let input := { turnFor (js "look") with resumeMessages := some savedTranscript }
    (∀ options, .chatRequest options ∈ (finalState (runTurn (finishHost (js "Done"))
        (scripted noHooks) input (startWith [replyOf [finishCall (js "Done")]]))).trace →
      Paired options.messages) ∧
      ∀ messages, Paired messages → Paired (keptRecent (scripted noHooks) messages) :=
  requests_paired _ _ _ _ rfl fun messages hsome => by
    obtain rfl := Option.some.inj hsome
    exact .inr ⟨by decide, _, _, _, rfl, rfl, rfl⟩

/-- The ids of a reply's calls are distinct, and the head is complete where it is cut off
from the rest. -/
def PairedEvent (head : List ChatMessage) : Event → Prop
  | .reply message => ((message.tool_calls.getD []).map ChatToolCall.id).Nodup
  | .compacted => Led isTool AnsweredOnce head
  | _ => True

/-- The first two messages are complete exactly when those of the resumed transcript are. -/
theorem startMessages_head_led_iff (cfg : Settings ε) (gitContext : Option JsString)
    (hresume : ∀ messages, cfg.input.resumeMessages = some messages → WellPaired messages) :
    Led isTool AnsweredOnce ((startMessages cfg gitContext).take 2) ↔
      ∀ saved, cfg.input.resumeMessages = some saved → WellPaired (saved.take 2) := by
  have hgoal : WellPaired [goalMessage cfg.input] := grouped_plain answeredOnce_plain rfl rfl
  rw [startMessages_eq]
  cases hsaved : cfg.input.resumeMessages with
  | none =>
    exact iff_of_true ((grouped_plain answeredOnce_plain rfl rfl).append hgoal).led
      (fun saved h => by simp at h)
  | some saved =>
    match saved with
    | [] =>
      refine iff_of_true ((grouped_plain answeredOnce_plain rfl rfl).append hgoal).led ?_
      intro saved h
      obtain rfl := Option.some.inj h
      exact grouped_nil
    | [first] =>
      have hfirst : WellPaired [first] := hresume _ hsaved
      refine iff_of_true (hfirst.append hgoal).led fun saved h => ?_
      obtain rfl := Option.some.inj h
      exact hfirst
    | first :: second :: rest =>
      have hfresh := (hresume _ hsaved).fresh
      change Led isTool AnsweredOnce [first, second] ↔ _
      constructor
      · intro hled saved h
        obtain rfl := Option.some.inj h
        exact ⟨fun message hmem => hfresh message hmem, hled⟩
      · intro h
        exact (h _ rfl).led

/-- A reply with a call that is not answered is not paired. -/
theorem pending_eq_nil {base : List ChatMessage} {message : ChatMessage}
    {answers : List ChatMessage} {done pending : List ChatToolCall}
    (hcalls : message.tool_calls.getD [] = done ++ pending)
    (hids : ((message.tool_calls.getD []).map ChatToolCall.id).Nodup)
    (hanswers : AnswersTo done answers)
    (hpaired : WellPaired (base ++ assistantMessage message :: answers)) : pending = [] := by
  refine List.eq_nil_iff_forall_not_mem.mpr fun call hcall => ?_
  have hfits := hpaired.led.at rfl (rfl : isTool (assistantMessage message) = false)
  rw [List.takeWhile_eq_self_iff.mpr hanswers.tools] at hfits
  have hmem : call ∈ callsOf (assistantMessage message) := by
    rw [callsOf_assistantMessage, hcalls]
    exact List.mem_append_right done hcall
  have hpos : 0 < answers.countP (fun answer => answer.tool_call_id = some call.id) := by
    rw [hfits.2 call hmem]
    exact Nat.one_pos
  obtain ⟨answer, hanswer, hid⟩ := List.countP_pos_iff.mp hpos
  obtain ⟨earlier, hearlier, hsame⟩ := (hanswers.mem_id (some call.id)).mp
    ⟨answer, hanswer, of_decide_eq_true hid⟩
  rw [hcalls, List.map_append] at hids
  have hdisjoint := (List.nodup_append.mp hids).2.2
  exact hdisjoint _ (List.mem_map_of_mem hearlier) _ (List.mem_map_of_mem hcall)
    (Option.some.inj hsame)

/-- The messages a completed session is given are well paired exactly when the finish is
the last call of its reply and no compaction has cut the first two messages off from
answers to their calls. -/
theorem completed_paired_iff (input : RunTurnInput ε) (m m' : Machine ε) (summary : TurnSummary)
    (htrace : m.trace = [])
    (hresume : ∀ messages, input.resumeMessages = some messages → WellPaired messages)
    (hids : ∀ message, .reply message ∈ m'.trace →
      ((message.tool_calls.getD []).map ChatToolCall.id).Nodup)
    (hrun : runTurn host self input m = .ok summary m') :
    ∃ before toolCall pending result finish messages,
      m'.trace = before ++ [.completed toolCall pending result (completion finish messages)] ∧
        (WellPaired messages ↔ pending = [] ∧ (.compacted ∈ before →
          ∀ saved, input.resumeMessages = some saved → WellPaired (saved.take 2))) := by
  obtain ⟨gitContext, shown, hshown, hpath⟩ := runTurn_completes host self hrun
  rw [htrace, List.nil_append] at hshown
  have hgrouped : Grouped isTool AnsweredOnce
      (startMessages (settings host self input) gitContext) :=
    startMessages_grouped answeredOnce_plain _ gitContext hresume
  have hhead := startMessages_head_led_iff (settings host self input) gitContext hresume
  have hlen := startMessages_head (settings host self input) gitContext
  rw [← List.take_append_drop 2 (startMessages (settings host self input) gitContext)]
    at hpath hgrouped
  generalize (startMessages (settings host self input) gitContext).take 2 = head at *
  have htracked : Tracked AnsweredOnce (PairedEvent head) head shown .completed :=
    tracked_path answeredOnce_plain
      (fun message answers hnodup h => answeredOnce_of_answersTo hnodup h) (fun h => h) self
      (settings host self input) hlen (fun _ => hgrouped) hpath
  obtain ⟨before, toolCall, pending, result, finish, base, message, answers, done, rfl, hcalls,
    hanswering⟩ := htracked.standing
  have hnodup : ((message.tool_calls.getD []).map ChatToolCall.id).Nodup :=
    hids message (by rw [hshown]; exact List.mem_append_left _ hanswering.replied)
  refine ⟨before, toolCall, pending, result, finish, _, hshown, ?_, ?_⟩
  · intro hpaired
    refine ⟨pending_eq_nil hcalls hnodup hanswering.answers hpaired, fun hcompacted => ?_⟩
    obtain ⟨rest, rfl, hfresh⟩ := hanswering.rooted
    apply hhead.mp
    have hled := hpaired.led
    rw [List.append_assoc] at hled
    exact hled.left ((hfresh hcompacted).append (startsFresh_cons _ rfl))
  · rintro ⟨rfl, hcut⟩
    rw [List.append_nil] at hcalls
    subst hcalls
    refine hanswering.complete (fun message answers hnodup h =>
      answeredOnce_of_answersTo hnodup h) fun e he => ?_
    cases e with
    | reply message => exact hids message (by rw [hshown]; exact List.mem_append_left _ he)
    | compacted => exact hhead.mpr (hcut he)
    | _ => trivial

/-- The ids of the calls in the replies are distinct. -/
def distinctIds (trace : List Event) : Bool :=
  trace.all fun
    | .reply message => decide ((message.tool_calls.getD []).map ChatToolCall.id).Nodup
    | _ => true

theorem nodup_of_distinctIds {trace : List Event} (h : distinctIds trace = true) :
    ∀ message, .reply message ∈ trace →
      ((message.tool_calls.getD []).map ChatToolCall.id).Nodup := fun message hmem =>
  of_decide_eq_true (List.all_eq_true.mp h (.reply message) hmem)

theorem completed_paired_iff_done :
    ∃ summary m', runTurn (finishHost (js "Done")) (scripted noHooks) (turnFor (js "look"))
        (startWith [replyOf [finishCall (js "Done")]]) = .ok summary m' ∧
      ∃ before toolCall pending result finish messages,
        m'.trace = before ++ [.completed toolCall pending result (completion finish messages)] ∧
          (WellPaired messages ↔ pending = [] ∧ (.compacted ∈ before →
            ∀ saved, (turnFor (js "look")).resumeMessages = some saved →
              WellPaired (saved.take 2))) := by
  obtain ⟨summary, m', hrun, hids⟩ := runTurn_of_completesWith (finishHost (js "Done")) noHooks
    (js "look") (finishCall (js "Done")) [] distinctIds (by
      rw [completesWith_finish _ _ _ _ (acceptedFinish_unguarded (by decide))]
      rfl)
  exact ⟨summary, m', hrun, completed_paired_iff _ _ _ _ m' summary rfl
    (fun _ h => by simp [turnFor] at h) (nodup_of_distinctIds hids) hrun⟩

/-- Whether a session has been completed with messages that are not well paired. -/
def savesUnpaired (trace : List Event) : Bool :=
  trace.any fun
    | .completed _ _ _ update => update.messages.any fun messages => !decide (WellPaired messages)
    | _ => false

/-- A call behind the finish of the same reply stays without an answer. -/
theorem finish_leaves_calls_open :
    ¬ ∀ (replies : List ChatMessage) (summary : TurnSummary) (m' : Machine (List ChatMessage)),
      runTurn (finishHost (js "Done")) (scripted noHooks) (turnFor (js "look"))
          (startWith replies) = .ok summary m' →
        (∀ message, .reply message ∈ m'.trace →
          ((message.tool_calls.getD []).map ChatToolCall.id).Nodup) →
        ∀ toolCall pending result update messages,
          .completed toolCall pending result update ∈ m'.trace →
            update.messages = some messages → WellPaired messages := by
  intro h
  obtain ⟨summary, m', hrun, htest⟩ := runTurn_of_completesWith (finishHost (js "Done")) noHooks
    (js "look") (finishCall (js "Done")) [⟨js "call-2", js "list_files", []⟩]
    (fun trace => distinctIds trace && savesUnpaired trace) (by
      rw [completesWith_finish _ _ _ _ (acceptedFinish_unguarded (by decide))]
      rfl)
  obtain ⟨hids, hunpaired⟩ := Bool.and_eq_true_iff.mp htest
  obtain ⟨event, hmem, hevent⟩ := List.any_eq_true.mp hunpaired
  cases event with
  | completed toolCall pending result update =>
    obtain ⟨messages, hsome, hnot⟩ := (Option.any_eq_true _ _).mp hevent
    exact absurd (h _ summary m' hrun (nodup_of_distinctIds hids) _ _ _ _ _ hmem hsome)
      (by simpa using hnot)
  | _ => exact absurd hevent Bool.false_ne_true

end runs

end Solarcido.Conversation
