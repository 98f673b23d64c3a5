import Solarcido.Lib.Traces
import Solarcido.Conversation.Steps

namespace Solarcido.Conversation

open Text Tools Api ThrowingProgram Traces

variable {ε α : Type}

/-- Where a run stands: between two turns, with calls of a reply still to be made, or at
its end. -/
inductive Point where
  | ready (messages : List ChatMessage) (modified : Bool)
  | calling (pending : List ChatToolCall) (messages : List ChatMessage) (modified : Bool)
  | completed

/-- An event of the hooks around a call, or the call's dispatch. -/
def IsCallEvent : Event → Prop
  | .hook .. => True
  | .dispatched _ => True
  | _ => False

/-- A result that is no error comes from the tool of the call's name. -/
def FromItsTool (toolCall : ChatToolCall) (result : ToolExecutionResult) : Prop :=
  startsWith result.content (js "ERROR:") = false →
    result.toolName = normalizeToolName toolCall.name

variable (host : Host ε) (self : ConversationRuntime ε) (cfg : Settings ε)

/-- The steps of a run and the events each one shows. -/
inductive Step : Point → List Event → Point → Prop where
  | summary (messages : List ChatMessage) (modified : Bool) (droppedText : JsString) :
      Step (.ready messages modified) [.chatRequest (summaryRequest droppedText cfg.model)]
        (.ready messages modified)
  | compact (messages : List ChatMessage) (modified : Bool) (summaryContent : JsString) :
      Step (.ready messages modified) [.compacted]
        (.ready (compactedMessages self messages summaryContent) modified)
  | request (messages : List ChatMessage) (modified : Bool) :
      Step (.ready messages modified) [.chatRequest (requestParams cfg messages)]
        (.ready messages modified)
  | answer (messages : List ChatMessage) (modified : Bool) (message : ChatMessage)
      (hnone : message.tool_calls.getD [] = []) :
      Step (.ready messages modified) [.reply message]
        (.ready (messages ++ [assistantMessage message] ++ [continueMessage]) modified)
  | calls (messages : List ChatMessage) (modified : Bool) (message : ChatMessage) :
      Step (.ready messages modified) [.reply message]
        (.calling (message.tool_calls.getD []) (messages ++ [assistantMessage message]) modified)
  | result (toolCall : ChatToolCall) (pending : List ChatToolCall) (messages : List ChatMessage)
      (modified : Bool) (result : ToolExecutionResult) (events : List Event)
      (hevents : ∀ e ∈ events, IsCallEvent e) (hname : FromItsTool toolCall result)
      (hgoes : acceptedFinish cfg modified result = none) :
      Step (.calling (toolCall :: pending) messages modified)
        (events ++ [.toolResult toolCall result])
        (.calling pending
          (messages ++ [toolMessage toolCall (shownContent cfg modified result)])
          (modified || isSuccessfulModificationTool result.toolName
            (shownContent cfg modified result)))
  | finish (toolCall : ChatToolCall) (pending : List ChatToolCall) (messages : List ChatMessage)
      (modified : Bool) (result : ToolExecutionResult) (finish : FinishPayload)
      (events : List Event) (hevents : ∀ e ∈ events, IsCallEvent e)
      (hname : FromItsTool toolCall result)
      (haccepted : acceptedFinish cfg modified result = some finish) :
      Step (.calling (toolCall :: pending) messages modified)
        (events ++ [.toolResult toolCall result, .completed toolCall pending result
          (completion finish
            (messages ++ [toolMessage toolCall (shownContent cfg modified result)]))])
        .completed
  | rest (messages : List ChatMessage) (modified : Bool) :
      Step (.calling [] messages modified) [] (.ready messages modified)

/-- A machine goes from one point of a run to another. -/
abbrev Goes (p : Point) (m : Machine ε) (q : Point) (m' : Machine ε) : Prop :=
  Reaches Machine.trace (Step self cfg) p m q m'

/-- A machine breaks off somewhere in a run. -/
def Breaks (p : Point) (m m' : Machine ε) : Prop := ∃ q, Goes self cfg p m q m'

section outside

theorem fromOutside_trace (x : Effect ε α) (m : Machine ε) :
    Ends (fromOutside x) m (fun _ m' => m'.trace = m.trace) (fun _ m' => m'.trace = m.trace) := by
  rw [Ends, fromOutside_apply]
  cases x m.world.env <;> rfl

theorem requestCompletion_trace (params : ChatRunOptions) (m : Machine ε) :
    Ends (requestCompletion self cfg params) m
      (fun _ m' => m'.trace = m.trace ++ [.chatRequest params])
      (fun _ m' => m'.trace = m.trace ++ [.chatRequest params]) := by
  apply ends_bind_of_ok (record_apply _ _)
  apply ends_bind
  refine (fromOutside_trace _ { m with trace := m.trace ++ [.chatRequest params] }).mono
    (fun response m' h => ?_) (fun _ _ h => h)
  exact ends_bind_of_ok (receive_apply params response m') (ends_pure h)

end outside

section compacting

theorem summarizeDropped_apply (droppedText model : JsString) (m : Machine ε) :
    ∃ summary m', summarizeDropped self droppedText model m = .ok summary m' ∧
      m'.trace = m.trace ++ [.chatRequest (summaryRequest droppedText model)] := by
  rw [summarizeDropped]
  have htrace := fromOutside_trace (self.apiClient.chat (summaryRequest droppedText model))
    { m with trace := m.trace ++ [.chatRequest (summaryRequest droppedText model)] }
  unfold Ends at htrace
  cases hchat : fromOutside (self.apiClient.chat (summaryRequest droppedText model))
      { m with trace := m.trace ++ [.chatRequest (summaryRequest droppedText model)] } with
  | ok response m' =>
    rw [hchat] at htrace
    refine ⟨((response.message.bind ChatMessage.content).map trim).filter fun text => !text.isEmpty,
      { m' with received := m'.received ++ [(summaryRequest droppedText model, response)] },
      tryCatch_of_ok ?_ _, htrace⟩
    rw [bind_of_ok (record_apply _ _), bind_of_ok hchat, bind_of_ok (receive_apply _ _ _)]
    rfl
  | error error m' =>
    rw [hchat] at htrace
    exact ⟨_, m', tryCatch_of_error
      ((bind_of_ok (record_apply _ _) _).trans (bind_of_error hchat _)) _, htrace⟩

theorem summarize_goes (droppedText : JsString) (turn : Nat) (messages : List ChatMessage)
    (modified : Bool) (m : Machine ε) :
    ∃ content m', summarize self droppedText cfg.model turn m = .ok content m' ∧
      Goes self cfg (.ready messages modified) m (.ready messages modified) m' := by
  rw [summarize]
  rw [get_bind]
  split
  · obtain ⟨summary, m', hsummary, htrace⟩ :=
      summarizeDropped_apply self droppedText cfg.model m
    have hgoes : Goes self cfg (.ready messages modified) m (.ready messages modified) m' :=
      .step htrace (.summary messages modified droppedText)
    rw [bind_of_ok hsummary]
    cases summary with
    | some summary =>
      exact ⟨_, { m' with lastSummaryTurn := some turn }, rfl, hgoes⟩
    | none => exact ⟨_, m', rfl, hgoes⟩
  · exact ⟨_, m, rfl, .refl _ m⟩

theorem compactIfNeeded_goes (dialogue : Dialogue) (turn : Nat) (budget : Int) (toolsTokens : Nat)
    (modified : Bool) (m : Machine ε) :
    ∃ after m', compactIfNeeded self dialogue turn cfg.model budget toolsTokens m =
        .ok after m' ∧
      Goes self cfg (.ready dialogue.messages modified) m (.ready after.messages modified) m' := by
  rw [compactIfNeeded]
  split
  · exact ⟨dialogue, m, rfl, .refl _ m⟩
  · split
    · exact ⟨dialogue, m, rfl, .refl _ m⟩
    · obtain ⟨content, m', hcontent, hgoes⟩ := summarize_goes self cfg
        (join (js "\n") ((droppedMessages self dialogue.messages).map renderForSummary)) turn
        dialogue.messages modified m
      rw [bind_of_ok hcontent, bind_of_ok (record_apply _ _)]
      exact ⟨_, _, rfl, hgoes.trans (.step rfl (.compact dialogue.messages modified content))⟩

end compacting

section turns

theorem requestTurn_goes (dialogue : Dialogue) (turn : Nat) (modified : Bool) (m : Machine ε) :
    Ends (requestTurn self cfg dialogue turn) m
      (fun r m' => Goes self cfg (.ready dialogue.messages modified) m
        (.ready r.2.messages modified) m')
      (fun _ m' => Breaks self cfg (.ready dialogue.messages modified) m m') := by
  rw [requestTurn]
  refine ends_tryCatch (ends_bind ((requestCompletion_trace self cfg _ m).mono
    (fun response m' htrace => ?_) (fun error m' htrace => ?_)))
  · exact ends_pure (.step htrace (.request dialogue.messages modified))
  · have hasked : Goes self cfg (.ready dialogue.messages modified) m
        (.ready dialogue.messages modified) m' :=
      .step htrace (.request dialogue.messages modified)
    refine ends_ite (fun _ => ends_throw ⟨_, hasked⟩) fun _ => ?_
    obtain ⟨compacted, m'', hcompact, hgoes⟩ := compactIfNeeded_goes self cfg dialogue turn 0
      cfg.toolsTokens modified m'
    refine ends_bind_of_ok hcompact (ends_ite (fun _ => ends_throw ⟨_, hasked.trans hgoes⟩)
      fun _ => ?_)
    have hagain : ∀ m₃ : Machine ε,
        m₃.trace = m''.trace ++ [.chatRequest (requestParams cfg compacted.messages)] →
        Goes self cfg (.ready dialogue.messages modified) m
          (.ready compacted.messages modified) m₃ := fun m₃ h₃ =>
      (hasked.trans hgoes).trans (.step h₃ (.request compacted.messages modified))
    exact ends_bind ((requestCompletion_trace self cfg _ m'').mono
      (fun response m₃ h₃ => ends_pure (hagain m₃ h₃)) (fun error m₃ h₃ => ⟨_, hagain m₃ h₃⟩))

def pointAfter : Progress ⊕ TurnSummary → Point
  | .inl progress => .ready progress.dialogue.messages progress.successfulModification
  | .inr _ => .completed

theorem isCallEvent_hookEvents (event : HookEvent) (ran : List (JsString × HookOutcome)) :
    ∀ e ∈ hookEvents event ran, IsCallEvent e := by
  intro e he
  obtain ⟨r, -, rfl⟩ := List.mem_map.mp he
  trivial

/-- A call shows its own events only. -/
theorem callTool_shows (toolCall : ChatToolCall) (m : Machine ε) :
    ∃ result m' events, callTool host self cfg toolCall m = .ok result m' ∧
      m'.trace = m.trace ++ events ∧ (∀ e ∈ events, IsCallEvent e) ∧
      FromItsTool toolCall result := by
  obtain ⟨result, w', event, ran, -, hcall, hname⟩ := callTool_apply host self cfg toolCall m
  refine ⟨result, _, _, hcall, rfl, fun e he => ?_, hname⟩
  rcases List.mem_append.mp he with hpre | hrest
  · exact isCallEvent_hookEvents _ _ e hpre
  · rcases List.mem_append.mp hrest with hcalled | hpost
    · unfold dispatchedIf at hcalled
      split at hcalled
      · simp at hcalled
      · split at hcalled
        · obtain rfl := List.mem_singleton.mp hcalled
          trivial
        · simp at hcalled
    · exact isCallEvent_hookEvents _ _ e hpost

theorem runToolCalls_goes (turn : Nat) (calls : List ChatToolCall) (progress : Progress)
    (m : Machine ε) :
    Ends (runToolCalls host self cfg turn calls progress) m
      (fun r m' => Goes self cfg (.calling calls progress.dialogue.messages
        progress.successfulModification) m (pointAfter r) m')
      (fun _ m' => Breaks self cfg (.calling calls progress.dialogue.messages
        progress.successfulModification) m m') := by
  induction calls generalizing progress m with
  | nil =>
    exact ends_pure (.step (List.append_nil _).symm
      (.rest progress.dialogue.messages progress.successfulModification))
  | cons toolCall pending ih =>
    obtain ⟨result, m', events, hcall, htrace, hevents, hname⟩ :=
      callTool_shows host self cfg toolCall m
    refine ends_bind_of_ok hcall (ends_bind_of_ok (record_apply _ _) ?_)
    cases haccepted : acceptedFinish cfg progress.successfulModification result with
    | none =>
      have hgoes : Goes self cfg (.calling (toolCall :: pending) progress.dialogue.messages
          progress.successfulModification) m (.calling pending
            (takeResult cfg progress toolCall result).dialogue.messages
            (takeResult cfg progress toolCall result).successfulModification)
          { m' with trace := m'.trace ++ [.toolResult toolCall result] } :=
        .step (by rw [htrace, List.append_assoc])
          (.result toolCall pending _ _ result events hevents hname haccepted)
      exact (ih (takeResult cfg progress toolCall result) _).mono
        (fun r m₃ h => hgoes.trans h) (fun _ m₃ ⟨q, h⟩ => ⟨q, hgoes.trans h⟩)
    | some finish =>
      have hdone : ∀ m₃ : Machine ε, m₃.trace = m'.trace ++ [.toolResult toolCall result] ++
          [.completed toolCall pending result (completion finish
            (takeResult cfg progress toolCall result).dialogue.messages)] →
          Goes self cfg (.calling (toolCall :: pending) progress.dialogue.messages
            progress.successfulModification) m .completed m₃ := fun m₃ h₃ =>
        .step (by
            rw [h₃, htrace]
            simp only [List.append_assoc, List.cons_append, List.nil_append]
            rfl)
          (.finish toolCall pending _ _ result finish events hevents hname haccepted)
      exact ends_bind_of_ok (record_apply _ _) (ends_bind ((fromOutside_trace _ _).mono
        (fun session m₃ h₃ => ends_pure (hdone m₃ h₃)) (fun error m₃ h₃ => ⟨_, hdone m₃ h₃⟩)))

theorem runOneTurn_goes (turn : Nat) (progress : Progress) (m : Machine ε) :
    Ends (runOneTurn host self cfg turn progress) m
      (fun r m' => Goes self cfg (.ready progress.dialogue.messages
        progress.successfulModification) m (pointAfter r) m')
      (fun _ m' => Breaks self cfg (.ready progress.dialogue.messages
        progress.successfulModification) m m') := by
  obtain ⟨dialogue, m₁, hcompact, hgoes₁⟩ := compactIfNeeded_goes self cfg progress.dialogue turn
    cfg.transcriptBudget cfg.toolsTokens progress.successfulModification m
  refine ends_bind_of_ok hcompact (ends_bind
    ((requestTurn_goes self cfg dialogue turn progress.successfulModification m₁).mono
      (fun r m₂ hgoes₂ => ?_) (fun error m₂ ⟨q, hgoes₂⟩ => ⟨q, hgoes₁.trans hgoes₂⟩)))
  obtain ⟨response, dialogue⟩ := r
  have hready := hgoes₁.trans hgoes₂
  dsimp only at hready ⊢
  cases response.message with
  | none => exact ends_throw ⟨_, hready⟩
  | some message =>
    apply ends_bind_of_ok (record_apply _ _)
    cases hcalls : message.tool_calls.getD [] with
    | nil =>
      exact ends_pure (hready.trans (.step rfl (.answer dialogue.messages _ message hcalls)))
    | cons toolCall pending =>
      have hreplied : Step self cfg (.ready dialogue.messages progress.successfulModification)
          [.reply message] (.calling (message.tool_calls.getD [])
            (dialogue.messages ++ [assistantMessage message]) progress.successfulModification) :=
        .calls dialogue.messages _ message
      have hcalling := hready.trans
        (Reaches.step (t := { m₂ with trace := m₂.trace ++ [.reply message] }) rfl hreplied)
      rw [hcalls] at hcalling
      exact (runToolCalls_goes host self cfg turn (toolCall :: pending)
        (takeReply progress dialogue response message) _).mono
        (fun r m₃ h => hcalling.trans h) (fun _ m₃ ⟨q, h⟩ => ⟨q, hcalling.trans h⟩)

theorem runTurns_goes (left turn : Nat) (progress : Progress) (m : Machine ε) :
    Ends (runTurns host self cfg left turn progress) m
      (fun _ m' => Goes self cfg (.ready progress.dialogue.messages
        progress.successfulModification) m .completed m')
      (fun _ m' => Breaks self cfg (.ready progress.dialogue.messages
        progress.successfulModification) m m') := by
  induction left generalizing turn progress m with
  | zero => exact ends_throw ⟨_, .refl _ m⟩
  | succ left ih =>
    refine ends_bind ((runOneTurn_goes host self cfg turn progress m).mono
      (fun r m₁ hgoes => ?_) (fun _ _ h => h))
    cases r with
    | inl progress' =>
      exact (ih (turn + 1) progress' m₁).mono (fun _ m₂ h => hgoes.trans h)
        (fun _ m₂ ⟨q, h⟩ => ⟨q, hgoes.trans h⟩)
    | inr summary => exact ends_pure hgoes

/-- Every run is a course of steps from its first messages on, to the end when it
returns. -/
theorem runTurn_goes (input : RunTurnInput ε) (m : Machine ε) :
    Ends (runTurn host self input) m
      (fun _ m' => ∃ gitContext, Goes self (settings host self input)
        (.ready (startMessages (settings host self input) gitContext) false) m .completed m')
      (fun _ m' => ∃ gitContext, Breaks self (settings host self input)
        (.ready (startMessages (settings host self input) gitContext) false) m m') := by
  rw [runTurn]
  refine ends_bind ((fromOutside_trace _ m).mono (fun session m₁ h₁ => ?_) (fun _ m₁ h₁ => ?_))
  · apply ends_bind
    have hgit : Ends (tryCatch (fromOutside (self.gitContextProvider input.cwd))
        fun _ => pure none : RuntimeM ε (Option JsString)) m₁
        (fun _ m₂ => m₂.trace = m₁.trace) (fun _ m₂ => m₂.trace = m₁.trace) :=
      ends_tryCatch ((fromOutside_trace _ m₁).mono (fun _ _ h => h) (fun _ _ h => h))
    refine hgit.mono (fun gitContext m₂ h₂ => ?_) (fun _ m₂ h₂ => ?_)
    · have hstart : ∀ m' : Machine ε, ∀ q, Goes self (settings host self input)
          (.ready (startMessages (settings host self input) gitContext) false) m₂ q m' →
          Goes self (settings host self input)
            (.ready (startMessages (settings host self input) gitContext) false) m q m' := by
        rintro m' q ⟨labels, htrace, hpath⟩
        exact ⟨labels, by rw [htrace, h₂, h₁], hpath⟩
      refine ends_tryCatch ((runTurns_goes host self _ _ 1 _ m₂).mono
        (fun summary m₃ h₃ => ⟨gitContext, hstart m₃ _ h₃⟩) (fun error m₃ h₃ => ?_))
      obtain ⟨q, h₃⟩ := h₃
      have hfailed : ∀ m₄ : Machine ε, m₄.trace = m₃.trace →
          ∃ gitContext, Breaks self (settings host self input)
            (.ready (startMessages (settings host self input) gitContext) false) m m₄ := by
        intro m₄ h₄
        obtain ⟨labels, htrace, hpath⟩ := hstart m₃ q h₃
        exact ⟨gitContext, q, labels, by rw [h₄, htrace], hpath⟩
      exact ends_bind ((fromOutside_trace _ m₃).mono (fun _ m₄ h₄ => ends_throw (hfailed m₄ h₄))
        (fun _ m₄ h₄ => hfailed m₄ h₄))
    · exact ⟨none, _, [], by rw [h₂, h₁, List.append_nil], .refl _⟩
  · exact ⟨none, _, [], by rw [h₁, List.append_nil], .refl _⟩

/-- Wherever a run ends, it got there by a course of steps. -/
theorem runTurn_course (input : RunTurnInput ε) (m : Machine ε) :
    ∃ gitContext q, Goes self (settings host self input)
      (.ready (startMessages (settings host self input) gitContext) false) m q
      (finalState (runTurn host self input m)) := by
  have hends := runTurn_goes host self input m
  unfold Ends at hends
  cases hrun : runTurn host self input m with
  | ok summary m' =>
    rw [hrun] at hends
    obtain ⟨gitContext, hgoes⟩ := hends
    exact ⟨gitContext, .completed, hgoes⟩
  | error error m' =>
    rw [hrun] at hends
    exact hends

theorem runTurn_completes {input : RunTurnInput ε} {m m' : Machine ε} {summary : TurnSummary}
    (hrun : runTurn host self input m = .ok summary m') :
    ∃ gitContext, Goes self (settings host self input)
      (.ready (startMessages (settings host self input) gitContext) false) m .completed m' :=
  ends_of_ok (runTurn_goes host self input m) hrun

end turns

section scripted

theorem runTurns_of_one {left turn : Nat} {progress : Progress} {m m' : Machine ε}
    {summary : TurnSummary}
    (hone : runOneTurn host self cfg turn progress m = .ok (.inr summary) m') :
    runTurns host self cfg (left + 1) turn progress m = .ok summary m' := by
  rw [runTurns]
  rw [bind_of_ok hone]
  rfl

theorem runTurn_of_turns {input : RunTurnInput ε} {m m₁ m₂ m' : Machine ε}
    {session : SessionRecord} {gitContext : Option JsString} {summary : TurnSummary}
    (hsession : fromOutside (self.sessionStore.create
      ⟨input.goal, input.cwd, some (settings host self input).model,
        (settings host self input).reasoningEffort, (settings host self input).approvalPolicy,
        (settings host self input).sandbox⟩) m = .ok session m₁)
    (hgit : (tryCatch (fromOutside (self.gitContextProvider input.cwd)) fun _ => pure none :
      RuntimeM ε (Option JsString)) m₁ = .ok gitContext m₂)
    (hturns : runTurns host self (settings host self input)
      (settings host self input).maxTurns.toNat 1
      ⟨⟨startMessages (settings host self input) gitContext, []⟩, emptyUsage, session, false⟩ m₂ =
        .ok summary m') :
    runTurn host self input m = .ok summary m' := by
  rw [runTurn]
  rw [bind_of_ok hsession, bind_of_ok hgit]
  exact tryCatch_of_ok hturns _

/-- Messages without anything to drop are left as they are. -/
theorem compactIfNeeded_keeps (dialogue : Dialogue) (turn : Nat) (model : JsString) (budget : Int)
    (toolsTokens : Nat) (m : Machine ε) (hnone : droppedMessages self dialogue.messages = []) :
    compactIfNeeded self dialogue turn model budget toolsTokens m = .ok dialogue m := by
  rw [compactIfNeeded]
  split
  · rfl
  · rw [hnone]
    rfl

/-- A compaction, once it has its summary. -/
theorem compactIfNeeded_of_summary {dialogue : Dialogue} {turn : Nat} {model : JsString}
    {budget : Int} {toolsTokens : Nat} {summaryContent : JsString} {m m₁ : Machine ε}
    (hover : budget < ((estimateMessagesTokens dialogue.messages + toolsTokens : Nat) : Int))
    (hdropped : (droppedMessages self dialogue.messages).isEmpty = false)
    (hsummary : summarize self
      (join (js "\n") ((droppedMessages self dialogue.messages).map renderForSummary)) model turn m =
        .ok summaryContent m₁) :
    compactIfNeeded self dialogue turn model budget toolsTokens m =
      .ok ⟨compactedMessages self dialogue.messages summaryContent,
        dialogue.transcript.drop (dialogue.transcript.length - 24)⟩
        { m₁ with trace := m₁.trace ++ [.compacted] } := by
  have hsome : ¬ (droppedMessages self dialogue.messages).isEmpty = true := by
    rw [hdropped]
    exact Bool.false_ne_true
  rw [compactIfNeeded, if_neg (Int.not_le.mpr hover), if_neg hsome, bind_of_ok hsummary,
    bind_of_ok (record_apply _ _)]
  rfl

variable (host : Host (List ChatMessage)) (hooks : Hooks.HookRunner (List ChatMessage))
  (goal : JsString) (reply : ChatMessage) (replies : List ChatMessage)

theorem scripted_create (options : CreateSessionOptions) (m : Machine (List ChatMessage)) :
    fromOutside ((scripted hooks).sessionStore.create options) m =
      .ok (createdRecord options (js "session-1") (js "2026-05-23T00:00:00.000Z")) m := rfl

/-- The machine after the first reply of a script. -/
def repliedMachine : Machine (List ChatMessage) :=
  let cfg := settings host (scripted hooks) (turnFor goal)
  { startWith replies with
    trace := [.chatRequest (requestParams cfg (startMessages cfg none)), .reply reply]
    received := [(requestParams cfg (startMessages cfg none), ⟨[some reply], none⟩)] }

/-- The progress after the first reply of a script. -/
def repliedProgress : Progress :=
  let cfg := settings host (scripted hooks) (turnFor goal)
  takeReply ⟨⟨startMessages cfg none, []⟩, emptyUsage,
    createdRecord ⟨goal, js "/w", some cfg.model, cfg.reasoningEffort, cfg.approvalPolicy,
      cfg.sandbox⟩ (js "session-1") (js "2026-05-23T00:00:00.000Z"), false⟩
    ⟨startMessages cfg none, []⟩ ⟨[some reply], none⟩ reply

/-- A script whose first reply completes the session. -/
theorem scripted_completes {toolCall : ChatToolCall} {pending : List ChatToolCall}
    {summary : TurnSummary} {m' : Machine (List ChatMessage)}
    (hreply : reply.tool_calls = some (toolCall :: pending))
    (hcalls : runToolCalls host (scripted hooks) (settings host (scripted hooks) (turnFor goal)) 1
      (toolCall :: pending) (repliedProgress host hooks goal reply)
      (repliedMachine host hooks goal reply replies) = .ok (.inr summary) m') :
    runTurn host (scripted hooks) (turnFor goal) (startWith (reply :: replies)) =
      .ok summary m' := by
  have hone : ∀ progress : Progress,
      progress.dialogue = ⟨startMessages (settings host (scripted hooks) (turnFor goal)) none, []⟩ →
      takeReply progress progress.dialogue ⟨[some reply], none⟩ reply =
        repliedProgress host hooks goal reply →
      runOneTurn host (scripted hooks) (settings host (scripted hooks) (turnFor goal)) 1 progress
        (startWith (reply :: replies)) = .ok (.inr summary) m' := by
    intro progress hdialogue htake
    have hkeeps := compactIfNeeded_keeps (scripted hooks) progress.dialogue 1
      (settings host (scripted hooks) (turnFor goal)).model
      (settings host (scripted hooks) (turnFor goal)).transcriptBudget
      (settings host (scripted hooks) (turnFor goal)).toolsTokens (startWith (reply :: replies))
      (by rw [hdialogue]; rfl)
    have hrequest : requestTurn (scripted hooks) (settings host (scripted hooks) (turnFor goal))
        progress.dialogue 1 (startWith (reply :: replies)) =
        .ok (⟨[some reply], none⟩, progress.dialogue) { startWith replies with
          trace := [.chatRequest (requestParams (settings host (scripted hooks) (turnFor goal))
            progress.dialogue.messages)]
          received := [(requestParams (settings host (scripted hooks) (turnFor goal))
            progress.dialogue.messages, ⟨[some reply], none⟩)] } := rfl
    rw [runOneTurn]
    rw [bind_of_ok hkeeps, bind_of_ok hrequest]
    dsimp only [ChatResponse.message, List.head?, Option.join, Option.bind, id]
    rw [bind_of_ok (record_apply _ _), htake, hreply, hdialogue]
    exact hcalls
  have hturns : (settings host (scripted hooks) (turnFor goal)).maxTurns.toNat = 19 + 1 := rfl
  apply runTurn_of_turns host (scripted hooks) (scripted_create hooks _ _) rfl
  rw [hturns]
  exact runTurns_of_one host (scripted hooks) _ (hone _ rfl rfl)

/-- A reply of calls alone. -/
def replyOf (calls : List ChatToolCall) : ChatMessage := ⟨.assistant, none, some calls, none⟩

/-- Whether the calls of a script's only reply complete the session with a trace that
passes a test. -/
def completesWith (calls : List ChatToolCall) (test : List Event → Bool) : Bool :=
  match runToolCalls host (scripted hooks) (settings host (scripted hooks) (turnFor goal)) 1 calls
    (repliedProgress host hooks goal (replyOf calls))
    (repliedMachine host hooks goal (replyOf calls) []) with
  | .ok (.inr _) m' => test m'.trace
  | _ => false

theorem runTurn_of_completesWith (toolCall : ChatToolCall) (pending : List ChatToolCall)
    (test : List Event → Bool)
    (h : completesWith host hooks goal (toolCall :: pending) test = true) :
    ∃ summary m', runTurn host (scripted hooks) (turnFor goal)
      (startWith [replyOf (toolCall :: pending)]) = .ok summary m' ∧ test m'.trace = true := by
  unfold completesWith at h
  split at h
  · next summary m' hcalls =>
    exact ⟨summary, m', scripted_completes host hooks goal _ [] rfl hcalls, h⟩
  · exact absurd h Bool.false_ne_true

/-- A call of finish with a summary. -/
def finishCall (summary : JsString) : ChatToolCall :=
  ⟨js "call-1", js "finish", js "\x7b\"summary\":\"" ++ summary ++ js "\"\x7d"⟩

/-- A host that can parse the arguments of that call. -/
def finishHost (summary : JsString) : Host (List ChatMessage) :=
  hostWith [((finishCall summary).arguments, .obj [(js "summary", .str summary)])]

end scripted

section finishing

variable (text goal : JsString) (replies : List ChatMessage) (fs : FileSystem)
  (last : Option Int) (trace : List Event) (received : List (ChatRunOptions × ChatResponse))

theorem parse_finishCall : (finishHost text).parseJson (toolInput (finishCall text)) =
    .ok (.obj [(js "summary", .str text)]) := by
  have hinput : toolInput (finishCall text) = (finishCall text).arguments := rfl
  rw [hinput]
  simp [finishHost, hostWith, Host.bare]

/-- What that call results in. -/
def finishResult : ToolExecutionResult := ⟨js "finish", text, some ⟨text, [], []⟩⟩

theorem finishResult_content : (finishResult text).content = text := rfl

theorem executeToolCall_finish : executeToolCall (finishHost text) (scripted noHooks)
    (settings (finishHost text) (scripted noHooks) (turnFor goal)) (finishCall text)
    ⟨⟨replies, fs, false⟩, last, trace, received⟩ = .ok (finishResult text)
      ⟨⟨replies, fs, false⟩, last, trace ++ [.dispatched (finishCall text)], received⟩ := by
  rw [executeToolCall, parse_finishCall]
  rfl

/-- Without hooks a call is its execution. -/
theorem callTool_of_execute {host : Host (List ChatMessage)}
    {self : ConversationRuntime (List ChatMessage)} {cfg : Settings (List ChatMessage)}
    {toolCall : ChatToolCall} {result : ToolExecutionResult} {m m₁ : Machine (List ChatMessage)}
    (hhooks : self.hookRunner = noHooks)
    (hresult : executeToolCall host self cfg toolCall m = .ok result m₁) :
    callTool host self cfg toolCall m = .ok result m₁ := by
  have hpre : Hooks.runPreToolUse host self.hookRunner toolCall.name (toolInput toolCall) m =
      .ok Hooks.allow m := by
    rw [hhooks]
    rfl
  have hpost : runPostHooks host self toolCall result.content m₁ = .ok Hooks.allow m₁ := by
    unfold runPostHooks
    rw [hhooks]
    split <;> rfl
  rw [callTool, bind_of_ok hpre]
  change (executeToolCall _ _ _ _ >>= fun result => _) _ = _
  rw [bind_of_ok hresult, bind_of_ok hpost]
  rfl

theorem callTool_finish : callTool (finishHost text) (scripted noHooks)
    (settings (finishHost text) (scripted noHooks) (turnFor goal)) (finishCall text)
    ⟨⟨replies, fs, false⟩, last, trace, received⟩ = .ok (finishResult text)
      ⟨⟨replies, fs, false⟩, last, trace ++ [.dispatched (finishCall text)], received⟩ :=
  callTool_of_execute rfl (executeToolCall_finish text goal replies fs last trace received)

theorem acceptedFinish_unguarded {ε : Type} {cfg : Settings ε} {modified : Bool}
    {result : ToolExecutionResult} (h : cfg.requiresModification = false) :
    acceptedFinish cfg modified result = result.finish := by
  have hshown : shownContent cfg modified result = result.content := by
    rw [shownContent, h, Bool.and_false, Bool.false_and, if_neg Bool.false_ne_true]
  rw [acceptedFinish, if_pos hshown]

/-- A reply that begins with a finish completes the session if the guard lets it through. -/
theorem completesWith_finish (pending : List ChatToolCall) (test : List Event → Bool)
    (haccepted : acceptedFinish (settings (finishHost text) (scripted noHooks) (turnFor goal)) false
      (finishResult text) = some ⟨text, [], []⟩) :
    let host := finishHost text
    let cfg := settings host (scripted noHooks) (turnFor goal)
    let reply := replyOf (finishCall text :: pending)
    completesWith host noHooks goal (finishCall text :: pending) test =
      test [.chatRequest (requestParams cfg (startMessages cfg none)), .reply reply,
        .dispatched (finishCall text), .toolResult (finishCall text) (finishResult text),
        .completed (finishCall text) pending (finishResult text) (completion ⟨text, [], []⟩
          (takeResult cfg (repliedProgress host noHooks goal reply) (finishCall text)
            (finishResult text)).dialogue.messages)] := by
  intro host cfg reply
  have hmodified : (repliedProgress host noHooks goal reply).successfulModification = false := rfl
  rw [completesWith, runToolCalls, repliedMachine, startWith,
    bind_of_ok (callTool_finish text goal _ _ _ _ _), bind_of_ok (record_apply _ _), hmodified,
    haccepted]
  rfl

end finishing

end Solarcido.Conversation
