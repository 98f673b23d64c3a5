import Mathlib.Data.List.Infix
import Solarcido.Lib.Serial
import Solarcido.Conversation.Course

namespace Solarcido.Conversation

open Text Tools Api ThrowingProgram Traces

variable {ε : Type} (host : Host ε) (self : ConversationRuntime ε) (cfg : Settings ε)

section stages

/-- Where a run stands, with the turns it has left. In a turn it has asked the model and
packed its messages some times before the reply. -/
inductive Stage where
  | turn (left asked packed : Nat) (messages : List ChatMessage) (modified : Bool)
  | calling (left : Nat) (pending : List ChatToolCall) (messages : List ChatMessage)
      (modified : Bool)
  | completed

def Event.dispatchedCall : Event → Option ChatToolCall
  | .dispatched toolCall => some toolCall
  | _ => none

/-- The events of a call up to its result: those of its hooks, and its dispatch once or not
at all. -/
def IsCallOf (toolCall : ChatToolCall) (events : List Event) : Prop :=
  (∀ e ∈ events, IsCallEvent e) ∧ (events.filterMap Event.dispatchedCall).Sublist [toolCall]

/-- A compaction asks for a summary or goes without. -/
def AsksSummary (events : List Event) : Prop :=
  events = [] ∨ ∃ droppedText, events = [.chatRequest (summaryRequest droppedText cfg.model)]

inductive Move : Stage → List Event → Stage → Prop where
  | pack (left asked packed : Nat) (messages : List ChatMessage) (modified : Bool)
      (content : JsString) (asking : List Event) (hasking : AsksSummary cfg asking)
      (hpacked : packed ≤ asked) (hasked : asked ≤ 1) :
      Move (.turn (left + 1) asked packed messages modified) (asking ++ [.compacted])
        (.turn (left + 1) asked (packed + 1) (compactedMessages self messages content) modified)
  | request (left asked packed : Nat) (messages : List ChatMessage) (modified : Bool)
      (hasked : asked ≤ 1) :
      Move (.turn (left + 1) asked packed messages modified)
        [.chatRequest (requestParams cfg messages)]
        (.turn (left + 1) (asked + 1) packed messages modified)
  | answer (left asked packed : Nat) (messages : List ChatMessage) (modified : Bool)
      (message : ChatMessage) (hnone : message.tool_calls.getD [] = []) :
      Move (.turn (left + 1) asked packed messages modified) [.reply message]
        (.turn left 0 0 (messages ++ [assistantMessage message] ++ [continueMessage]) modified)
  | calls (left asked packed : Nat) (messages : List ChatMessage) (modified : Bool)
      (message : ChatMessage) (hsome : message.tool_calls.getD [] ≠ []) :
      Move (.turn (left + 1) asked packed messages modified) [.reply message]
        (.calling left (message.tool_calls.getD []) (messages ++ [assistantMessage message])
          modified)
  | result (left : Nat) (toolCall : ChatToolCall) (pending : List ChatToolCall)
      (messages : List ChatMessage) (modified : Bool) (result : ToolExecutionResult)
      (events : List Event) (hevents : IsCallOf toolCall events) :
      Move (.calling left (toolCall :: pending) messages modified)
        (events ++ [.toolResult toolCall result])
        (.calling left pending
          (messages ++ [toolMessage toolCall (shownContent cfg modified result)])
          (modified || isSuccessfulModificationTool result.toolName
            (shownContent cfg modified result)))
  | finish (left : Nat) (toolCall : ChatToolCall) (pending : List ChatToolCall)
      (messages : List ChatMessage) (modified : Bool) (result : ToolExecutionResult)
      (finish : FinishPayload) (events : List Event) (hevents : IsCallOf toolCall events) :
      Move (.calling left (toolCall :: pending) messages modified)
        (events ++ [.toolResult toolCall result, .completed toolCall pending result
          (completion finish
            (messages ++ [toolMessage toolCall (shownContent cfg modified result)]))])
        .completed
  | rest (left : Nat) (messages : List ChatMessage) (modified : Bool) :
      Move (.calling left [] messages modified) [] (.turn left 0 0 messages modified)

abbrev Moves (p : Stage) (m : Machine ε) (q : Stage) (m' : Machine ε) : Prop :=
  Reaches Machine.trace (Move self cfg) p m q m'

def MovesSomewhere (p : Stage) (m m' : Machine ε) : Prop := ∃ q, Moves self cfg p m q m'

end stages

section course

theorem summarize_asks (droppedText : JsString) (turn : Nat) (m : Machine ε) :
    ∃ content m' asking, summarize self droppedText cfg.model turn m = .ok content m' ∧
      m'.trace = m.trace ++ asking ∧ AsksSummary cfg asking := by
  rw [summarize]
  rw [get_bind]
  split
  · obtain ⟨summary, m', hsummary, htrace⟩ := summarizeDropped_apply self droppedText cfg.model m
    rw [bind_of_ok hsummary]
    cases summary with
    | some summary =>
      exact ⟨_, { m' with lastSummaryTurn := some turn }, _, rfl, htrace, .inr ⟨droppedText, rfl⟩⟩
    | none => exact ⟨_, m', _, rfl, htrace, .inr ⟨droppedText, rfl⟩⟩
  · exact ⟨_, m, [], rfl, (List.append_nil _).symm, .inl rfl⟩

theorem compactIfNeeded_moves (dialogue : Dialogue) (turn left asked packed : Nat) (budget : Int)
    (toolsTokens : Nat) (modified : Bool) (m : Machine ε) (hpacked : packed ≤ asked)
    (hasked : asked ≤ 1) :
    ∃ after m' packed', compactIfNeeded self dialogue turn cfg.model budget toolsTokens m =
        .ok after m' ∧ packed' ≤ packed + 1 ∧
      Moves self cfg (.turn (left + 1) asked packed dialogue.messages modified) m
        (.turn (left + 1) asked packed' after.messages modified) m' := by
  rw [compactIfNeeded]
  split
  · exact ⟨dialogue, m, packed, rfl, by omega, .refl _ m⟩
  · split
    · exact ⟨dialogue, m, packed, rfl, by omega, .refl _ m⟩
    · obtain ⟨content, m', asking, hcontent, htrace, hasking⟩ := summarize_asks self cfg
        (join (js "\n") ((droppedMessages self dialogue.messages).map renderForSummary)) turn m
      rw [bind_of_ok hcontent, bind_of_ok (record_apply _ _)]
      refine ⟨_, _, packed + 1, rfl, le_rfl, .step ?_
        (.pack left asked packed dialogue.messages modified content asking hasking hpacked hasked)⟩
      dsimp only
      rw [htrace, List.append_assoc]

theorem requestTurn_moves (dialogue : Dialogue) (turn left packed : Nat) (modified : Bool)
    (m : Machine ε) (hpacked : packed ≤ 1) :
    Ends (requestTurn self cfg dialogue turn) m
      (fun r m' => ∃ asked packed', Moves self cfg
        (.turn (left + 1) 0 packed dialogue.messages modified) m
        (.turn (left + 1) asked packed' r.2.messages modified) m')
      (fun _ m' => MovesSomewhere self cfg
        (.turn (left + 1) 0 packed dialogue.messages modified) m m') := by
  rw [requestTurn]
  have hasked : ∀ m' : Machine ε,
      m'.trace = m.trace ++ [.chatRequest (requestParams cfg dialogue.messages)] →
      Moves self cfg (.turn (left + 1) 0 packed dialogue.messages modified) m
        (.turn (left + 1) 1 packed dialogue.messages modified) m' := fun m' htrace =>
    .step htrace (.request left 0 packed dialogue.messages modified (by omega))
  apply ends_tryCatch
  apply ends_bind
  refine (requestCompletion_trace self cfg _ m).mono (fun response m' htrace => ?_)
    (fun error m' htrace => ?_)
  · exact ends_pure ⟨1, packed, hasked m' htrace⟩
  · apply ends_ite (fun _ => ends_throw ⟨_, hasked m' htrace⟩)
    intro hoverflow
    obtain ⟨compacted, m'', packed', hcompact, hpacked', hmoves⟩ := compactIfNeeded_moves self cfg
      dialogue turn left 1 packed 0 cfg.toolsTokens modified m' hpacked le_rfl
    have hshrunk := (hasked m' htrace).trans hmoves
    apply ends_bind_of_ok hcompact
    apply ends_ite (fun _ => ends_throw ⟨_, hshrunk⟩)
    intro hsmaller
    have hagain : ∀ m₃ : Machine ε,
        m₃.trace = m''.trace ++ [.chatRequest (requestParams cfg compacted.messages)] →
        Moves self cfg (.turn (left + 1) 0 packed dialogue.messages modified) m
          (.turn (left + 1) 2 packed' compacted.messages modified) m₃ := fun m₃ h₃ =>
      hshrunk.trans (.step h₃ (.request left 1 packed' compacted.messages modified le_rfl))
    apply ends_bind
    exact (requestCompletion_trace self cfg _ m'').mono
      (fun response m₃ h₃ => ends_pure ⟨2, packed', hagain m₃ h₃⟩)
      (fun error m₃ h₃ => ⟨_, hagain m₃ h₃⟩)

theorem dispatchedCall_hookEvents (event : HookEvent) (ran : List (JsString × HookOutcome)) :
    (hookEvents event ran).filterMap Event.dispatchedCall = [] := by
  rw [hookEvents, List.filterMap_map]
  exact List.filterMap_eq_nil_iff.mpr fun _ _ => rfl

theorem callTool_isCallOf (toolCall : ChatToolCall) (m : Machine ε) :
    ∃ result m' events, callTool host self cfg toolCall m = .ok result m' ∧
      m'.trace = m.trace ++ events ∧ IsCallOf toolCall events := by
  obtain ⟨result, w', event, ran, -, hcall, -⟩ := callTool_apply host self cfg toolCall m
  refine ⟨result, _, _, hcall, rfl, ?_, ?_⟩
  · intro e he
    rcases List.mem_append.mp he with hpre | hrest
    · exact isCallEvent_hookEvents _ _ e hpre
    · rcases List.mem_append.mp hrest with hcalled | hpost
      · unfold dispatchedIf at hcalled
        split at hcalled
        · simp at hcalled
        · split at hcalled
          · obtain rfl := List.mem_singleton.mp hcalled
            trivial
          · simp at hcalled
      · exact isCallEvent_hookEvents _ _ e hpost
  · rw [List.filterMap_append, List.filterMap_append, dispatchedCall_hookEvents,
      dispatchedCall_hookEvents, List.nil_append, List.append_nil]
    split
    · exact List.nil_sublist _
    · unfold dispatchedIf
      split
      · exact List.Sublist.refl _
      · exact List.nil_sublist _

/-- The stage after a turn, with the turns that are left. -/
def stageAfter (left : Nat) : Progress ⊕ TurnSummary → Stage
  | .inl progress => .turn left 0 0 progress.dialogue.messages progress.successfulModification
  | .inr _ => .completed

theorem runToolCalls_moves (turn left : Nat) (calls : List ChatToolCall) (progress : Progress)
    (m : Machine ε) :
    Ends (runToolCalls host self cfg turn calls progress) m
      (fun r m' => Moves self cfg (.calling left calls progress.dialogue.messages
        progress.successfulModification) m (stageAfter left r) m')
      (fun _ m' => MovesSomewhere self cfg (.calling left calls progress.dialogue.messages
        progress.successfulModification) m m') := by
  induction calls generalizing progress m with
  | nil =>
    exact ends_pure (.step (List.append_nil _).symm
      (.rest left progress.dialogue.messages progress.successfulModification))
  | cons toolCall pending ih =>
    obtain ⟨result, m', events, hcall, htrace, hevents⟩ :=
      callTool_isCallOf host self cfg toolCall m
    apply ends_bind_of_ok hcall
    apply ends_bind_of_ok (record_apply _ _)
    cases haccepted : acceptedFinish cfg progress.successfulModification result with
    | none =>
      have hmoves : Moves self cfg (.calling left (toolCall :: pending) progress.dialogue.messages
          progress.successfulModification) m (.calling left pending
            (takeResult cfg progress toolCall result).dialogue.messages
            (takeResult cfg progress toolCall result).successfulModification)
          { m' with trace := m'.trace ++ [.toolResult toolCall result] } :=
        .step (by rw [htrace, List.append_assoc])
          (.result left toolCall pending _ _ result events hevents)
      exact (ih (takeResult cfg progress toolCall result) _).mono
        (fun r m₃ h => hmoves.trans h) (fun _ m₃ ⟨q, h⟩ => ⟨q, hmoves.trans h⟩)
    | some finish =>
      have hdone : ∀ m₃ : Machine ε, m₃.trace = m'.trace ++ [.toolResult toolCall result] ++
          [.completed toolCall pending result (completion finish
            (takeResult cfg progress toolCall result).dialogue.messages)] →
          Moves self cfg (.calling left (toolCall :: pending) progress.dialogue.messages
            progress.successfulModification) m .completed m₃ := fun m₃ h₃ =>
        .step (by
            rw [h₃, htrace]
            simp only [List.append_assoc, List.cons_append, List.nil_append]
            rfl)
          (.finish left toolCall pending _ _ result finish events hevents)
      apply ends_bind_of_ok (record_apply _ _)
      apply ends_bind
      exact (fromOutside_trace _ _).mono
        (fun session m₃ h₃ => ends_pure (hdone m₃ h₃)) (fun error m₃ h₃ => ⟨_, hdone m₃ h₃⟩)

theorem runOneTurn_moves (turn left : Nat) (progress : Progress) (m : Machine ε) :
    Ends (runOneTurn host self cfg turn progress) m
      (fun r m' => Moves self cfg (.turn (left + 1) 0 0 progress.dialogue.messages
        progress.successfulModification) m (stageAfter left r) m')
      (fun _ m' => MovesSomewhere self cfg (.turn (left + 1) 0 0 progress.dialogue.messages
        progress.successfulModification) m m') := by
  obtain ⟨dialogue, m₁, packed, hcompact, hpacked, hmoves₁⟩ := compactIfNeeded_moves self cfg
    progress.dialogue turn left 0 0 cfg.transcriptBudget cfg.toolsTokens
    progress.successfulModification m le_rfl (Nat.zero_le 1)
  apply ends_bind_of_ok hcompact
  apply ends_bind
  refine (requestTurn_moves self cfg dialogue turn left packed progress.successfulModification m₁
    hpacked).mono (fun r m₂ hr => ?_) (fun error m₂ ⟨q, hmoves₂⟩ => ⟨q, hmoves₁.trans hmoves₂⟩)
  obtain ⟨response, dialogue⟩ := r
  obtain ⟨asked, packed', hmoves₂⟩ := hr
  have hready := hmoves₁.trans hmoves₂
  dsimp only at hready ⊢
  cases response.message with
  | none => exact ends_throw ⟨_, hready⟩
  | some message =>
    apply ends_bind_of_ok (record_apply _ _)
    cases hcalls : message.tool_calls.getD [] with
    | nil =>
      apply ends_pure
      exact hready.trans (.step rfl
        (.answer left asked packed' dialogue.messages _ message hcalls))
    | cons toolCall pending =>
      have hreplied : Move self cfg
          (.turn (left + 1) asked packed' dialogue.messages progress.successfulModification)
          [.reply message] (.calling left (message.tool_calls.getD [])
            (dialogue.messages ++ [assistantMessage message]) progress.successfulModification) :=
        .calls left asked packed' dialogue.messages _ message (by simp [hcalls])
      have hcalling := hready.trans
        (Reaches.step (t := { m₂ with trace := m₂.trace ++ [.reply message] }) rfl hreplied)
      rw [hcalls] at hcalling
      exact (runToolCalls_moves host self cfg turn left (toolCall :: pending)
        (takeReply progress dialogue response message) _).mono
        (fun r m₃ h => hcalling.trans h) (fun _ m₃ ⟨q, h⟩ => ⟨q, hcalling.trans h⟩)

theorem runTurns_moves (left turn : Nat) (progress : Progress) (m : Machine ε) :
    Ends (runTurns host self cfg left turn progress) m
      (fun _ m' => Moves self cfg (.turn left 0 0 progress.dialogue.messages
        progress.successfulModification) m .completed m')
      (fun _ m' => MovesSomewhere self cfg (.turn left 0 0 progress.dialogue.messages
        progress.successfulModification) m m') := by
  induction left generalizing turn progress m with
  | zero => exact ends_throw ⟨_, .refl _ m⟩
  | succ left ih =>
    apply ends_bind
    refine (runOneTurn_moves host self cfg turn left progress m).mono
      (fun r m₁ hmoves => ?_) (fun _ _ h => h)
    cases r with
    | inl progress' =>
      exact (ih (turn + 1) progress' m₁).mono (fun _ m₂ h => hmoves.trans h)
        (fun _ m₂ ⟨q, h⟩ => ⟨q, hmoves.trans h⟩)
    | inr summary => exact ends_pure hmoves

/-- The stage before the first turn. -/
def firstStage (gitContext : Option JsString) : Stage :=
  .turn cfg.maxTurns.toNat 0 0 (startMessages cfg gitContext) false

theorem runTurn_ends (input : RunTurnInput ε) (m : Machine ε) :
    Ends (runTurn host self input) m
      (fun _ m' => ∃ gitContext, Moves self (settings host self input)
        (firstStage (settings host self input) gitContext) m .completed m')
      (fun _ m' => ∃ gitContext, MovesSomewhere self (settings host self input)
        (firstStage (settings host self input) gitContext) m m') := by
  have hstill : ∀ {m' : Machine ε}, m'.trace = m.trace →
      ∃ gitContext, MovesSomewhere self (settings host self input)
        (firstStage (settings host self input) gitContext) m m' := fun {m'} h =>
    ⟨none, _, [], by rw [h, List.append_nil], .refl _⟩
  rw [runTurn]
  apply ends_bind
  refine (fromOutside_trace _ m).mono (fun session m₁ h₁ => ?_) (fun _ m₁ h₁ => hstill h₁)
  apply ends_bind
  have hgit : Ends (tryCatch (fromOutside (self.gitContextProvider input.cwd))
      fun _ => pure none : RuntimeM ε (Option JsString)) m₁
      (fun _ m₂ => m₂.trace = m₁.trace) (fun _ m₂ => m₂.trace = m₁.trace) :=
    ends_tryCatch ((fromOutside_trace _ m₁).mono (fun _ _ h => h) (fun _ _ h => h))
  refine hgit.mono (fun gitContext m₂ h₂ => ?_) (fun _ m₂ h₂ => hstill (h₂.trans h₁))
  have hstart : ∀ {m' m'' : Machine ε} {q : Stage}, m''.trace = m'.trace →
      Moves self (settings host self input)
        (firstStage (settings host self input) gitContext) m₂ q m' →
      Moves self (settings host self input)
        (firstStage (settings host self input) gitContext) m q m'' := by
    rintro m' m'' q hsame ⟨labels, htrace, hpath⟩
    exact ⟨labels, by rw [hsame, htrace, h₂, h₁], hpath⟩
  apply ends_tryCatch
  refine (runTurns_moves host self _ _ 1 _ m₂).mono
    (fun summary m₃ h₃ => ⟨gitContext, hstart rfl h₃⟩) (fun error m₃ h₃ => ?_)
  obtain ⟨q, h₃⟩ := h₃
  apply ends_bind
  exact (fromOutside_trace _ m₃).mono
    (fun _ m₄ h₄ => ends_throw ⟨gitContext, q, hstart h₄ h₃⟩)
    (fun _ m₄ h₄ => ⟨gitContext, q, hstart h₄ h₃⟩)

/-- A run goes through its stages, and to the last one when it returns. -/
theorem runTurn_moves (input : RunTurnInput ε) (m : Machine ε) :
    ∃ gitContext q, Moves self (settings host self input)
        (firstStage (settings host self input) gitContext) m q
        (finalState (runTurn host self input m)) ∧
      ∀ summary m', runTurn host self input m = .ok summary m' → q = .completed := by
  have hends := runTurn_ends host self input m
  unfold Ends at hends
  cases hrun : runTurn host self input m with
  | ok summary m' =>
    rw [hrun] at hends
    obtain ⟨gitContext, hmoves⟩ := hends
    exact ⟨gitContext, .completed, hmoves, fun _ _ _ => rfl⟩
  | error error m' =>
    rw [hrun] at hends
    obtain ⟨gitContext, q, hmoves⟩ := hends
    exact ⟨gitContext, q, hmoves, fun _ _ h => by cases h⟩

end course

section replay

/-- A conversation as a log tells it. The log does not say what stood in for the messages a
compaction dropped: those contents are given beforehand. -/
structure Replay where
  messages : List ChatMessage
  modified : Bool
  contents : List JsString

def Replay.take (r : Replay) : Event → Replay
  | .reply message =>
    let replied := r.messages ++ [assistantMessage message]
    { r with messages :=
        if message.tool_calls.getD [] = [] then replied ++ [continueMessage] else replied }
  | .toolResult toolCall result =>
    let content := shownContent cfg r.modified result
    { r with
      messages := r.messages ++ [toolMessage toolCall content]
      modified := r.modified || isSuccessfulModificationTool result.toolName content }
  | .compacted =>
    match r.contents with
    | [] => r
    | content :: contents =>
      { r with messages := compactedMessages self r.messages content, contents }
  | _ => r

def Replay.takeAll (r : Replay) (events : List Event) : Replay :=
  events.foldl (Replay.take self cfg) r

variable {self cfg}

@[simp] theorem Replay.takeAll_append (r : Replay) (events later : List Event) :
    r.takeAll self cfg (events ++ later) =
      (r.takeAll self cfg events).takeAll self cfg later :=
  List.foldl_append

theorem Replay.takeAll_calls (r : Replay) {events : List Event}
    (h : ∀ e ∈ events, IsCallEvent e) : r.takeAll self cfg events = r := by
  induction events with
  | nil => rfl
  | cons e events ih =>
    have hfirst : r.take self cfg e = r := by
      have he := h e List.mem_cons_self
      cases e <;> first | rfl | exact absurd he id
    change (r.take self cfg e).takeAll self cfg events = r
    rw [hfirst]
    exact ih fun e he => h e (List.mem_cons_of_mem _ he)

variable (self cfg)

/-- Each request of a turn, and the session that is completed, hold what the log up to there
tells; nothing comes after the completion. -/
def Faithful (r : Replay) (shown : List Event) : Prop :=
  (∀ before params after, shown = before ++ .chatRequest params :: after →
    params.tools.isSome = true →
      params = requestParams cfg (r.takeAll self cfg before).messages) ∧
  ∀ before toolCall pending result update after,
    shown = before ++ .completed toolCall pending result update :: after →
      after = [] ∧ update.messages = some (r.takeAll self cfg before).messages

def Event.IsCompleted : Event → Prop
  | .completed .. => True
  | _ => False

/-- The conversation of a stage, with the contents of later compactions. -/
def Stage.told (later : List JsString) : Stage → Option Replay
  | .turn _ _ _ messages modified => some ⟨messages, modified, later⟩
  | .calling _ _ messages modified => some ⟨messages, modified, later⟩
  | .completed => none

/-- A log tells the conversation of a stage. -/
def Tells (r : Replay) (later : List JsString) (shown : List Event) (q : Stage) : Prop :=
  ∀ told, q.told later = some told →
    r.takeAll self cfg shown = told ∧ ∀ e ∈ shown, ¬ e.IsCompleted

variable {self cfg}

theorem Faithful.append {r : Replay} {shown labels : List Event}
    (h : Faithful self cfg r shown) (hopen : ∀ e ∈ shown, ¬ e.IsCompleted)
    (hlabels : Faithful self cfg (r.takeAll self cfg shown) labels) :
    Faithful self cfg r (shown ++ labels) := by
  refine ⟨fun before params after hsplit => ?_,
    fun before toolCall pending result update after hsplit => ?_⟩
  · rcases Serial.split_append hsplit with ⟨rest, hshown, -⟩ | ⟨front, rfl, hlabel⟩
    · exact h.1 before params rest hshown
    · rw [Replay.takeAll_append]
      exact hlabels.1 front params after hlabel
  · rcases Serial.split_append hsplit with ⟨rest, hshown, -⟩ | ⟨front, rfl, hlabel⟩
    · exact absurd trivial (hopen (.completed toolCall pending result update) (by simp [hshown]))
    · rw [Replay.takeAll_append]
      exact hlabels.2 front toolCall pending result update after hlabel

theorem faithful_request (r : Replay) :
    Faithful self cfg r [.chatRequest (requestParams cfg r.messages)] := by
  refine ⟨fun before params after hsplit _ => ?_,
    fun before toolCall pending result update after hsplit => ?_⟩
  · cases before with
    | nil => exact (Event.chatRequest.inj (List.cons.inj hsplit).1).symm
    | cons e before => simp at hsplit
  · cases before <;> simp at hsplit

theorem faithful_completed (r : Replay) (toolCall : ChatToolCall) (pending : List ChatToolCall)
    (result : ToolExecutionResult) (finish : FinishPayload) :
    Faithful self cfg r [.completed toolCall pending result (completion finish r.messages)] := by
  refine ⟨fun before params after hsplit => ?_,
    fun before toolCall pending result update after hsplit => ?_⟩
  · cases before <;> simp at hsplit
  · cases before with
    | nil =>
      obtain ⟨hsame, hafter⟩ := List.cons.inj hsplit
      obtain ⟨-, -, -, rfl⟩ := Event.completed.inj hsame
      exact ⟨hafter.symm, rfl⟩
    | cons e before => simp at hsplit

/-- An event that neither offers tools to the model nor completes the session. -/
def Event.IsPlain : Event → Prop
  | .chatRequest params => params.tools = none
  | .completed .. => False
  | _ => True

theorem faithful_plain (r : Replay) {labels : List Event} (h : ∀ e ∈ labels, e.IsPlain) :
    Faithful self cfg r labels := by
  refine ⟨fun before params after hsplit htools => ?_,
    fun before toolCall pending result update after hsplit => ?_⟩
  · have hplain : params.tools = none := h (.chatRequest params) (by simp [hsplit])
    rw [hplain] at htools
    cases htools
  · exact absurd (h (.completed toolCall pending result update) (by simp [hsplit])) id

theorem IsCallEvent.isPlain {e : Event} (h : IsCallEvent e) : e.IsPlain := by
  cases e <;> trivial

theorem Event.IsPlain.not_completed {e : Event} (h : e.IsPlain) : ¬ e.IsCompleted := by
  intro hcompleted
  cases e <;> trivial

theorem AsksSummary.isPlain {asking : List Event} (h : AsksSummary cfg asking) :
    ∀ e ∈ asking, e.IsPlain := by
  rcases h with rfl | ⟨droppedText, rfl⟩
  · simp
  · intro e he
    obtain rfl := List.mem_singleton.mp he
    rfl

theorem tells_plain {told next : Replay} {labels : List Event} {q : Stage}
    {later : List JsString} (hplain : ∀ e ∈ labels, e.IsPlain)
    (hnext : q.told later = some next) (htake : told.takeAll self cfg labels = next) :
    Faithful self cfg told labels ∧ Tells self cfg told later labels q := by
  refine ⟨faithful_plain told hplain, ?_⟩
  intro told' htold
  rw [hnext] at htold
  obtain rfl := Option.some.inj htold
  exact ⟨htake, fun e he => (hplain e he).not_completed⟩

theorem takeAll_asking {asking : List Event} (h : AsksSummary cfg asking) (told : Replay) :
    told.takeAll self cfg asking = told := by
  rcases h with rfl | ⟨droppedText, rfl⟩ <;> rfl

theorem takeAll_result {toolCall : ChatToolCall} {events : List Event}
    (h : IsCallOf toolCall events) (messages : List ChatMessage) (modified : Bool)
    (contents : List JsString) (result : ToolExecutionResult) :
    (⟨messages, modified, contents⟩ : Replay).takeAll self cfg
        (events ++ [.toolResult toolCall result]) =
      ⟨messages ++ [toolMessage toolCall (shownContent cfg modified result)],
        modified || isSuccessfulModificationTool result.toolName
          (shownContent cfg modified result), contents⟩ := by
  rw [Replay.takeAll_append, Replay.takeAll_calls _ h.1]
  rfl

theorem IsCallOf.isPlain {toolCall : ChatToolCall} {events : List Event}
    (h : IsCallOf toolCall events) (result : ToolExecutionResult) :
    ∀ e ∈ events ++ [.toolResult toolCall result], e.IsPlain := by
  intro e he
  rcases List.mem_append.mp he with hcall | hresult
  · exact (h.1 e hcall).isPlain
  · obtain rfl := List.mem_singleton.mp hresult
    trivial

/-- What a move shows carries the conversation from its first stage to its last. -/
theorem move_tells {p q : Stage} {labels : List Event} (h : Move self cfg p labels q) :
    ∃ used, ∀ later told, p.told (used ++ later) = some told →
      Faithful self cfg told labels ∧ Tells self cfg told later labels q := by
  cases h with
  | pack left asked packed messages modified content asking hasking hpacked hasked =>
    refine ⟨[content], fun later told htold => ?_⟩
    obtain rfl := Option.some.inj htold
    apply tells_plain _ rfl
    · rw [Replay.takeAll_append, takeAll_asking hasking]
      rfl
    · intro e he
      rcases List.mem_append.mp he with hsummary | hcompacted
      · exact hasking.isPlain e hsummary
      · obtain rfl := List.mem_singleton.mp hcompacted
        trivial
  | request left asked packed messages modified hasked =>
    refine ⟨[], fun later told htold => ?_⟩
    obtain rfl := Option.some.inj htold
    refine ⟨faithful_request _, fun told' htold' => ?_⟩
    obtain rfl := Option.some.inj htold'
    exact ⟨rfl, by simp [Event.IsCompleted]⟩
  | answer left asked packed messages modified message hnone =>
    refine ⟨[], fun later told htold => ?_⟩
    obtain rfl := Option.some.inj htold
    apply tells_plain (by simp [Event.IsPlain]) rfl
    simp [Replay.takeAll, Replay.take, hnone]
  | calls left asked packed messages modified message hsome =>
    refine ⟨[], fun later told htold => ?_⟩
    obtain rfl := Option.some.inj htold
    apply tells_plain (by simp [Event.IsPlain]) rfl
    simp [Replay.takeAll, Replay.take, hsome]
  | result left toolCall pending messages modified result events hevents =>
    refine ⟨[], fun later told htold => ?_⟩
    obtain rfl := Option.some.inj htold
    exact tells_plain (hevents.isPlain result) rfl (takeAll_result hevents _ _ _ result)
  | finish left toolCall pending messages modified result finish events hevents =>
    refine ⟨[], fun later told htold => ?_⟩
    obtain rfl := Option.some.inj htold
    refine ⟨?_, fun told' htold' => by cases htold'⟩
    rw [List.append_cons]
    apply (faithful_plain _ (hevents.isPlain result)).append
    · exact fun e he => (hevents.isPlain result e he).not_completed
    · rw [takeAll_result hevents]
      exact faithful_completed _ toolCall pending result finish
  | rest left messages modified =>
    refine ⟨[], fun later told htold => ?_⟩
    obtain rfl := Option.some.inj htold
    exact tells_plain (by simp) rfl rfl

/-- All along a run the log tells the conversation. -/
theorem path_tells {start : List ChatMessage} {left : Nat} {q : Stage} {shown : List Event}
    (h : Path (Move self cfg) (.turn left 0 0 start false) shown q) :
    ∃ contents, ∀ later, Faithful self cfg ⟨start, false, contents ++ later⟩ shown ∧
      Tells self cfg ⟨start, false, contents ++ later⟩ later shown q := by
  apply h.invariant fun shown q => ∃ contents, ∀ later,
    Faithful self cfg ⟨start, false, contents ++ later⟩ shown ∧
      Tells self cfg ⟨start, false, contents ++ later⟩ later shown q
  · exact ⟨[], fun later => tells_plain (by simp) rfl rfl⟩
  · rintro shown p labels q ⟨contents, hcontents⟩ hmove
    obtain ⟨used, hused⟩ := move_tells hmove
    refine ⟨contents ++ used, fun later => ?_⟩
    obtain ⟨hfaithful, htells⟩ := hcontents (used ++ later)
    rw [List.append_assoc]
    cases htold : p.told (used ++ later) with
    | none =>
      cases p with
      | completed => cases hmove
      | turn left asked packed messages modified => cases htold
      | calling left pending messages modified => cases htold
    | some told =>
      obtain ⟨htake, hopen⟩ := htells told htold
      obtain ⟨hlabels, hnext⟩ := hused later told htold
      rw [← htake] at hlabels hnext
      refine ⟨hfaithful.append hopen hlabels, fun told' htold' => ?_⟩
      obtain ⟨htake', hopen'⟩ := hnext told' htold'
      rw [Replay.takeAll_append]
      refine ⟨htake', fun e he => ?_⟩
      rcases List.mem_append.mp he with hold | hnew
      · exact hopen e hold
      · exact hopen' e hnew

variable (self)

/-- In every run, whatever it ends with, each request for a turn carries just the conversation
that the events before it tell, and so does the session that is completed, after which nothing
more is done. -/
theorem requests_replayed (input : RunTurnInput ε) (m : Machine ε) :
    ∃ gitContext contents events,
      (finalState (runTurn host self input m)).trace = m.trace ++ events ∧
        Faithful self (settings host self input)
          ⟨startMessages (settings host self input) gitContext, false, contents⟩ events := by
  obtain ⟨gitContext, q, ⟨events, htrace, hpath⟩, -⟩ := runTurn_moves host self input m
  obtain ⟨contents, hcontents⟩ := path_tells hpath
  refine ⟨gitContext, contents, events, htrace, ?_⟩
  have hfaithful := (hcontents []).1
  rwa [List.append_nil] at hfaithful

end replay

section bounds

/-- The calls the model asked for by an event. -/
def Event.repliedCalls : Event → List ChatToolCall
  | .reply message => message.tool_calls.getD []
  | _ => []

def Event.resultCall : Event → Option ChatToolCall
  | .toolResult toolCall _ => some toolCall
  | _ => none

def repliedCalls (shown : List Event) : List ChatToolCall := shown.flatMap Event.repliedCalls

def resultCalls (shown : List Event) : List ChatToolCall := shown.filterMap Event.resultCall

def dispatchedCalls (shown : List Event) : List ChatToolCall :=
  shown.filterMap Event.dispatchedCall

theorem repliedCalls_append (shown labels : List Event) :
    repliedCalls (shown ++ labels) = repliedCalls shown ++ repliedCalls labels :=
  List.flatMap_append

theorem resultCalls_append (shown labels : List Event) :
    resultCalls (shown ++ labels) = resultCalls shown ++ resultCalls labels :=
  List.filterMap_append

theorem dispatchedCalls_append (shown labels : List Event) :
    dispatchedCalls (shown ++ labels) = dispatchedCalls shown ++ dispatchedCalls labels :=
  List.filterMap_append

variable {self cfg} {toolCall : ChatToolCall} {events : List Event}

theorem repliedCalls_result (h : IsCallOf toolCall events) (result : ToolExecutionResult) :
    repliedCalls (events ++ [.toolResult toolCall result]) = [] := by
  apply List.flatMap_eq_nil_iff.mpr
  intro e he
  rcases List.mem_append.mp he with hcall | hresult
  · have hcall := h.1 e hcall
    cases e <;> first | rfl | exact absurd hcall id
  · obtain rfl := List.mem_singleton.mp hresult
    rfl

theorem resultCalls_result (h : IsCallOf toolCall events) (result : ToolExecutionResult) :
    resultCalls (events ++ [.toolResult toolCall result]) = [toolCall] := by
  have hnone : events.filterMap Event.resultCall = [] := by
    apply List.filterMap_eq_nil_iff.mpr
    intro e he
    have hcall := h.1 e he
    cases e <;> first | rfl | exact absurd hcall id
  rw [resultCalls, List.filterMap_append, hnone]
  rfl

theorem dispatchedCalls_result (result : ToolExecutionResult) :
    dispatchedCalls (events ++ [.toolResult toolCall result]) =
      events.filterMap Event.dispatchedCall := by
  rw [dispatchedCalls, List.filterMap_append]
  exact List.append_nil _

/-- The calls a stage leaves to be made; a completion leaves some of them unmade. -/
def Stage.Unmade : Stage → List ChatToolCall → Prop
  | .turn .., toolCalls => toolCalls = []
  | .calling _ pending _ _, toolCalls => toolCalls = pending
  | .completed, _ => True

theorem move_calls {p q : Stage} {labels : List Event} (h : Move self cfg p labels q)
    {unmade : List ChatToolCall} (hunmade : p.Unmade unmade) :
    (∃ unmade', q.Unmade unmade' ∧
        unmade ++ repliedCalls labels = resultCalls labels ++ unmade') ∧
      (dispatchedCalls labels).Sublist (resultCalls labels) := by
  cases h with
  | pack left asked packed messages modified content asking hasking hpacked hasked =>
    obtain rfl := hunmade
    rcases hasking with rfl | ⟨droppedText, rfl⟩ <;> exact ⟨⟨[], rfl, rfl⟩, .slnil⟩
  | request left asked packed messages modified hasked =>
    obtain rfl := hunmade
    exact ⟨⟨[], rfl, rfl⟩, .slnil⟩
  | answer left asked packed messages modified message hnone =>
    obtain rfl := hunmade
    exact ⟨⟨[], rfl, by simp [repliedCalls, resultCalls, Event.repliedCalls, Event.resultCall,
      hnone]⟩, .slnil⟩
  | calls left asked packed messages modified message hsome =>
    obtain rfl := hunmade
    exact ⟨⟨message.tool_calls.getD [], rfl, by simp [repliedCalls, resultCalls,
      Event.repliedCalls, Event.resultCall]⟩, .slnil⟩
  | result left toolCall pending messages modified result events hevents =>
    obtain rfl := hunmade
    refine ⟨⟨pending, rfl, ?_⟩, ?_⟩
    · rw [repliedCalls_result hevents, resultCalls_result hevents, List.append_nil]
      rfl
    · rw [resultCalls_result hevents, dispatchedCalls_result]
      exact hevents.2
  | finish left toolCall pending messages modified result finish events hevents =>
    obtain rfl := hunmade
    rw [List.append_cons, repliedCalls_append, resultCalls_append, dispatchedCalls_append,
      repliedCalls_result hevents, resultCalls_result hevents, dispatchedCalls_result]
    refine ⟨⟨pending, trivial, List.append_nil _⟩, ?_⟩
    exact hevents.2.append .slnil
  | rest left messages modified =>
    obtain rfl := hunmade
    exact ⟨⟨[], rfl, rfl⟩, .slnil⟩

/-- A request for a turn finds no call open. -/
theorem move_request {p q : Stage} {labels front after : List Event} {params : ChatRunOptions}
    (h : Move self cfg p labels q) (hsplit : labels = front ++ .chatRequest params :: after)
    (htools : params.tools.isSome = true) :
    front = [] ∧ ∀ unmade, p.Unmade unmade → unmade = [] := by
  have hplain : ¬ ∀ e ∈ labels, e.IsPlain := by
    intro hplain
    have hnone : params.tools = none := hplain (.chatRequest params) (by simp [hsplit])
    rw [hnone] at htools
    cases htools
  cases h with
  | request left asked packed messages modified hasked =>
    refine ⟨?_, fun unmade hunmade => hunmade⟩
    cases front with
    | nil => rfl
    | cons e front => simp at hsplit
  | pack left asked packed messages modified content asking hasking hpacked hasked =>
    refine absurd (fun e he => ?_) hplain
    rcases List.mem_append.mp he with hsummary | hcompacted
    · exact hasking.isPlain e hsummary
    · obtain rfl := List.mem_singleton.mp hcompacted
      trivial
  | answer => exact absurd (by simp [Event.IsPlain]) hplain
  | calls => exact absurd (by simp [Event.IsPlain]) hplain
  | result left toolCall pending messages modified result events hevents =>
    exact absurd (hevents.isPlain result) hplain
  | finish left toolCall pending messages modified result finish events hevents =>
    have hmem : Event.chatRequest params ∈ events := by
      have hlabel : Event.chatRequest params ∈ events ++ [.toolResult toolCall result,
          .completed toolCall pending result (completion finish
            (messages ++ [toolMessage toolCall (shownContent cfg modified result)]))] := by
        simp [hsplit]
      simpa using hlabel
    exact absurd (hevents.1 _ hmem) id
  | rest => exact absurd (by simp) hplain

/-- Calls are settled in the order of the replies that ask for them, all of them by the next
request, and a call is dispatched, if at all, before it is settled. -/
structure Settles (shown : List Event) (q : Stage) : Prop where
  unmade : ∃ unmade, q.Unmade unmade ∧ repliedCalls shown = resultCalls shown ++ unmade
  dispatched : (dispatchedCalls shown).Sublist (resultCalls shown)
  asked : ∀ before params after, shown = before ++ .chatRequest params :: after →
    params.tools.isSome = true → resultCalls before = repliedCalls before

theorem path_settles {p q : Stage} {shown : List Event} (h : Path (Move self cfg) p shown q)
    (hstart : p.Unmade []) : Settles shown q := by
  apply h.invariant fun shown q => Settles shown q
  · exact ⟨⟨[], hstart, rfl⟩, .slnil, fun before params after hsplit => by simp at hsplit⟩
  · rintro shown p labels q ⟨⟨unmade, hunmade, hreplied⟩, hdispatched, hasked⟩ hmove
    obtain ⟨⟨unmade', hunmade', hlabels⟩, hlater⟩ := move_calls hmove hunmade
    refine ⟨⟨unmade', hunmade', ?_⟩, ?_, fun before params after hsplit htools => ?_⟩
    · rw [repliedCalls_append, resultCalls_append, hreplied, List.append_assoc, hlabels,
        List.append_assoc]
    · rw [resultCalls_append, dispatchedCalls_append]
      exact hdispatched.append hlater
    · rcases Serial.split_append hsplit with ⟨rest, hshown, -⟩ | ⟨front, rfl, hlabel⟩
      · exact hasked before params rest hshown htools
      · obtain ⟨rfl, hnone⟩ := move_request hmove hlabel htools
        rw [List.append_nil, hreplied, hnone unmade hunmade, List.append_nil]

/-- What of a run is counted. -/
structure Tally where
  replies : Nat
  requests : Nat
  summaries : Nat
  compactions : Nat

def Tally.count (t : Tally) : Event → Tally
  | .reply _ => { t with replies := t.replies + 1 }
  | .chatRequest params =>
    if params.tools.isSome then { t with requests := t.requests + 1 }
    else { t with summaries := t.summaries + 1 }
  | .compacted => { t with compactions := t.compactions + 1 }
  | _ => t

def Tally.countAll (t : Tally) (shown : List Event) : Tally := shown.foldl Tally.count t

theorem Tally.countAll_append (t : Tally) (shown labels : List Event) :
    t.countAll (shown ++ labels) = (t.countAll shown).countAll labels :=
  List.foldl_append

theorem Tally.countAll_calls (t : Tally) (h : ∀ e ∈ events, IsCallEvent e) :
    t.countAll events = t := by
  induction events with
  | nil => rfl
  | cons e events ih =>
    have hfirst : t.count e = t := by
      have he := h e List.mem_cons_self
      cases e <;> first | rfl | exact absurd he id
    change (t.count e).countAll events = t
    rw [hfirst]
    exact ih fun e he => h e (List.mem_cons_of_mem _ he)

theorem Tally.countAll_asking (t : Tally) {asking : List Event} (h : AsksSummary cfg asking) :
    ∃ summaries ≤ t.summaries + 1, t.countAll asking = { t with summaries } := by
  rcases h with rfl | ⟨droppedText, rfl⟩
  · exact ⟨t.summaries, Nat.le_succ _, rfl⟩
  · exact ⟨t.summaries + 1, le_rfl, rfl⟩

/-- What a run may have done by the time it is at a stage, out of so many turns: a reply for each
turn that is over, and at most two requests and two compactions for each reply. -/
def Within (turns : Nat) (t : Tally) : Stage → Prop
  | .turn left asked packed _ _ =>
    t.replies + left = turns ∧ asked ≤ 2 ∧ asked ≤ 2 * left ∧ packed ≤ 2 ∧ packed ≤ 2 * left ∧
      t.requests ≤ 2 * t.replies + asked ∧ t.compactions ≤ 2 * t.replies + packed ∧
      t.summaries ≤ t.compactions
  | .calling left _ _ _ =>
    t.replies + left = turns ∧ t.requests ≤ 2 * t.replies ∧ t.compactions ≤ 2 * t.replies ∧
      t.summaries ≤ t.compactions
  | .completed =>
    t.replies ≤ turns ∧ t.requests ≤ 2 * t.replies ∧ t.compactions ≤ 2 * t.replies ∧
      t.summaries ≤ t.compactions

theorem move_within {turns : Nat} {t : Tally} {p q : Stage} {labels : List Event}
    (h : Move self cfg p labels q) (ht : Within turns t p) :
    Within turns (t.countAll labels) q := by
  cases h with
  | pack left asked packed messages modified content asking hasking hpacked hasked =>
    obtain ⟨summaries, hsummaries, hcount⟩ := t.countAll_asking hasking
    rw [Tally.countAll_append, hcount]
    simp only [Within, Tally.countAll, Tally.count, List.foldl_cons, List.foldl_nil] at ht ⊢
    omega
  | request left asked packed messages modified hasked =>
    change Within turns { t with requests := t.requests + 1 } _
    simp only [Within] at ht ⊢
    omega
  | answer left asked packed messages modified message hnone =>
    change Within turns { t with replies := t.replies + 1 } _
    simp only [Within] at ht ⊢
    omega
  | calls left asked packed messages modified message hsome =>
    change Within turns { t with replies := t.replies + 1 } _
    simp only [Within] at ht ⊢
    omega
  | result left toolCall pending messages modified result events hevents =>
    rw [Tally.countAll_append, t.countAll_calls hevents.1]
    exact ht
  | finish left toolCall pending messages modified result finish events hevents =>
    rw [Tally.countAll_append, t.countAll_calls hevents.1]
    change Within turns t _
    simp only [Within] at ht ⊢
    omega
  | rest left messages modified =>
    change Within turns t _
    simp only [Within] at ht ⊢
    omega

theorem path_within {turns : Nat} {start : List ChatMessage} {q : Stage} {shown : List Event}
    (h : Path (Move self cfg) (.turn turns 0 0 start false) shown q) :
    Within turns ((⟨0, 0, 0, 0⟩ : Tally).countAll shown) q := by
  apply h.invariant fun shown q => Within turns ((⟨0, 0, 0, 0⟩ : Tally).countAll shown) q
  · simp [Within, Tally.countAll]
  · intro shown p labels q hshown hmove
    rw [Tally.countAll_append]
    exact move_within hmove hshown

theorem Within.bounds {turns : Nat} {t : Tally} {q : Stage} (h : Within turns t q) :
    t.replies ≤ turns ∧ t.requests ≤ 2 * turns ∧ t.summaries ≤ t.compactions ∧
      t.compactions ≤ 2 * turns := by
  cases q <;> simp only [Within] at h <;> omega

theorem move_completed {p : Stage} {labels : List Event}
    (h : Move self cfg p labels .completed) :
    ∃ before toolCall pending result update,
      labels = before ++ [.completed toolCall pending result update] := by
  cases h with
  | finish left toolCall pending messages modified result finish events hevents =>
    exact ⟨events ++ [.toolResult toolCall result], toolCall, pending, result,
      completion finish (messages ++ [toolMessage toolCall (shownContent cfg modified result)]),
      List.append_cons ..⟩

/-- A run that is over ends with the completion. -/
theorem path_completed {p : Stage} {shown : List Event}
    (h : Path (Move self cfg) p shown .completed) (hopen : p ≠ .completed) :
    ∃ before toolCall pending result update,
      shown = before ++ [.completed toolCall pending result update] := by
  cases h with
  | refl => exact absurd rfl hopen
  | @snoc _ _ shown labels path hmove =>
    obtain ⟨before, toolCall, pending, result, update, rfl⟩ := move_completed hmove
    exact ⟨shown ++ before, toolCall, pending, result, update, (List.append_assoc ..).symm⟩

variable (self)

/-- In every run, whatever it ends with, the calls that the model asks for are settled each once
and in the order it asks for them, all of them before it is asked again; and only such calls reach
the tool registry, in that order and each at most once. -/
theorem calls_in_order (input : RunTurnInput ε) (m : Machine ε) :
    ∃ events, (finalState (runTurn host self input m)).trace = m.trace ++ events ∧
      resultCalls events <+: repliedCalls events ∧
      (dispatchedCalls events).Sublist (resultCalls events) ∧
      ∀ before params after, events = before ++ .chatRequest params :: after →
        params.tools.isSome = true → resultCalls before = repliedCalls before := by
  obtain ⟨gitContext, q, ⟨events, htrace, hpath⟩, -⟩ := runTurn_moves host self input m
  obtain ⟨⟨unmade, -, hreplied⟩, hdispatched, hasked⟩ := path_settles hpath rfl
  exact ⟨events, htrace, ⟨unmade, hreplied.symm⟩, hdispatched, hasked⟩

end bounds

end Solarcido.Conversation
