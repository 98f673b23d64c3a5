import Solarcido.Conversation.Course

namespace Solarcido.Conversation

open Text Tools Api ThrowingProgram

section usage

theorem addUsage_assoc (a b c : TokenUsage) :
    addUsage (addUsage a b) c = addUsage a (addUsage b c) := by
  simp only [addUsage, Int.add_assoc]

theorem addUsage_comm (a b : TokenUsage) : addUsage a b = addUsage b a := by
  simp only [addUsage, Int.add_comm]

@[simp] theorem addUsage_empty (a : TokenUsage) : addUsage a emptyUsage = a := by
  simp only [addUsage, emptyUsage, Int.add_zero]

@[simp] theorem empty_addUsage (a : TokenUsage) : addUsage emptyUsage a = a := by
  rw [addUsage_comm, addUsage_empty]

theorem addUsage_eq_left_iff (a b : TokenUsage) : a = addUsage a b ↔ b = emptyUsage := by
  obtain ⟨inputTokens, outputTokens, totalTokens⟩ := b
  cases a
  simp only [addUsage, emptyUsage, TokenUsage.mk.injEq]
  omega

end usage

/-- A response, with the request it answers. -/
abbrev Received : Type := ChatRunOptions × ChatResponse

section ledger

/-- The usage of some responses, added up by components. -/
def totalUsage (received : List Received) : TokenUsage :=
  (received.map fun r => normalizeUsage r.2.usage).foldr addUsage emptyUsage

/-- Only a request for a summary offers no tools. -/
def asksSummary (r : Received) : Bool := r.1.tools.isNone

def summaryResponses (received : List Received) : List Received := received.filter asksSummary

def turnResponses (received : List Received) : List Received :=
  received.filter fun r => !asksSummary r

theorem totalUsage_cons (r : Received) (received : List Received) :
    totalUsage (r :: received) = addUsage (normalizeUsage r.2.usage) (totalUsage received) := rfl

theorem totalUsage_append (received later : List Received) :
    totalUsage (received ++ later) = addUsage (totalUsage received) (totalUsage later) := by
  induction received with
  | nil => exact (empty_addUsage _).symm
  | cons r received ih =>
    rw [List.cons_append, totalUsage_cons, totalUsage_cons, ih, addUsage_assoc]

/-- Every response answers a turn or a request for a summary. -/
theorem totalUsage_split (received : List Received) :
    totalUsage received =
      addUsage (totalUsage (turnResponses received)) (totalUsage (summaryResponses received)) := by
  induction received with
  | nil => rfl
  | cons r received ih =>
    rw [totalUsage_cons, ih]
    by_cases hr : asksSummary r = true
    · have hturns : turnResponses (r :: received) = turnResponses received :=
        List.filter_cons_of_neg (by simp [hr])
      have hsummaries : summaryResponses (r :: received) = r :: summaryResponses received :=
        List.filter_cons_of_pos hr
      rw [hturns, hsummaries, totalUsage_cons, ← addUsage_assoc, addUsage_comm (normalizeUsage _),
        addUsage_assoc]
    · have hturns : turnResponses (r :: received) = r :: turnResponses received :=
        List.filter_cons_of_pos (by simp [hr])
      have hsummaries : summaryResponses (r :: received) = summaryResponses received :=
        List.filter_cons_of_neg hr
      rw [hturns, hsummaries, totalUsage_cons, addUsage_assoc]

variable {ε : Type}

/-- The usage counted so far is that of the turns' responses since a start. -/
def Accounts (before : List Received) (usage : TokenUsage) (m : Machine ε) : Prop :=
  ∃ received, m.received = before ++ received ∧ usage = totalUsage (turnResponses received)

/-- What was counted before still accounts for a later machine. -/
def KeepsAccount (m m' : Machine ε) : Prop :=
  ∀ before usage, Accounts before usage m → Accounts before usage m'

theorem isFrame_keepsAccount : IsFrame (KeepsAccount (ε := ε)) :=
  ⟨fun _ _ _ h => h, fun _ _ _ h h' before usage hm => h' before usage (h before usage hm)⟩

theorem keepsAccount_of_received {m m' : Machine ε} (h : m'.received = m.received) :
    KeepsAccount m m' := by
  rintro before usage ⟨received, hreceived, husage⟩
  exact ⟨received, h.trans hreceived, husage⟩

end ledger

variable {ε α : Type} (host : Host ε) (self : ConversationRuntime ε) (cfg : Settings ε)

section compacting

theorem keeps_fromOutside (x : Effect ε α) : Keeps KeepsAccount (fromOutside x) := by
  intro m
  rw [Ends, fromOutside_apply]
  cases x m.world.env with
  | ok a env => exact keepsAccount_of_received rfl
  | error e env => exact keepsAccount_of_received rfl

theorem keeps_record (e : Event) : Keeps KeepsAccount (record e : RuntimeM ε Unit) :=
  keeps_modify fun _ => keepsAccount_of_received rfl

/-- A summary's response is not counted. -/
theorem keeps_receive_summary (params : ChatRunOptions) (response : ChatResponse)
    (hsummary : params.tools = none) :
    Keeps KeepsAccount (receive params response : RuntimeM ε Unit) := by
  apply keeps_modify
  rintro m before usage ⟨received, hreceived, rfl⟩
  refine ⟨received ++ [(params, response)], ?_, ?_⟩
  · dsimp only
    rw [hreceived, List.append_assoc]
  · simp [turnResponses, asksSummary, hsummary]

theorem keeps_summarizeDropped (droppedText model : JsString) :
    Keeps KeepsAccount (summarizeDropped self droppedText model) := by
  apply keeps_tryCatch isFrame_keepsAccount
  · apply keeps_bind isFrame_keepsAccount (keeps_record _)
    intro _
    apply keeps_bind isFrame_keepsAccount (keeps_fromOutside _)
    intro response
    apply keeps_bind isFrame_keepsAccount (keeps_receive_summary _ response rfl)
    intro _
    exact keeps_pure isFrame_keepsAccount _
  · intro _
    exact keeps_pure isFrame_keepsAccount _

theorem keeps_summarize (droppedText model : JsString) (turn : Nat) :
    Keeps KeepsAccount (summarize self droppedText model turn) := by
  apply keeps_bind isFrame_keepsAccount (keeps_get isFrame_keepsAccount)
  intro m
  apply keeps_ite
  · intro _
    apply keeps_bind isFrame_keepsAccount (keeps_summarizeDropped self droppedText model)
    intro summary
    cases summary with
    | none => exact keeps_pure isFrame_keepsAccount _
    | some summary =>
      have hnoted : Keeps KeepsAccount (modify fun m : Machine ε =>
          { m with lastSummaryTurn := some turn } : RuntimeM ε Unit) :=
        keeps_modify fun _ => keepsAccount_of_received rfl
      apply keeps_bind isFrame_keepsAccount hnoted
      intro _
      exact keeps_pure isFrame_keepsAccount _
  · intro _
    exact keeps_pure isFrame_keepsAccount _

theorem keeps_compactIfNeeded (dialogue : Dialogue) (turn : Nat) (model : JsString) (budget : Int)
    (toolsTokens : Nat) :
    Keeps KeepsAccount (compactIfNeeded self dialogue turn model budget toolsTokens) := by
  apply keeps_ite
  · intro _
    exact keeps_pure isFrame_keepsAccount _
  · intro _
    apply keeps_ite
    · intro _
      exact keeps_pure isFrame_keepsAccount _
    · intro _
      apply keeps_bind isFrame_keepsAccount (keeps_summarize self _ model turn)
      intro summaryContent
      apply keeps_bind isFrame_keepsAccount (keeps_record _)
      intro _
      exact keeps_pure isFrame_keepsAccount _

end compacting

section turns

variable {before : List Received} {usage : TokenUsage}

/-- A turn's response is counted where it is taken up. -/
theorem requestCompletion_accounts (params : ChatRunOptions) (hturn : params.tools.isSome = true)
    {m : Machine ε} (h : Accounts before usage m) :
    Ends (requestCompletion self cfg params) m
      (fun response m' => Accounts before (addUsage usage (normalizeUsage response.usage)) m')
      (fun _ m' => Accounts before usage m') := by
  apply ends_bind_of_ok (record_apply _ _)
  apply ends_bind
  have houtside := keeps_fromOutside (sendRequest self cfg params)
    { m with trace := m.trace ++ [.chatRequest params] }
  refine houtside.mono (fun response m' hkeeps => ?_) (fun error m' hkeeps => ?_)
  · obtain ⟨received, hreceived, husage⟩ := hkeeps before usage h
    refine ends_bind_of_ok (receive_apply params response m')
      (ends_pure ⟨received ++ [(params, response)], ?_, ?_⟩)
    · dsimp only
      rw [hreceived, List.append_assoc]
    · have hturns : turnResponses (received ++ [(params, response)]) =
          turnResponses received ++ [(params, response)] := by
        simp [turnResponses, asksSummary, ← Option.not_isSome, hturn]
      rw [hturns, totalUsage_append, ← husage, totalUsage_cons]
      exact congrArg (addUsage usage) (addUsage_empty _).symm
  · exact hkeeps before usage h

theorem requestTurn_accounts (dialogue : Dialogue) (turn : Nat) {m : Machine ε}
    (h : Accounts before usage m) :
    Ends (requestTurn self cfg dialogue turn) m
      (fun r m' => Accounts before (addUsage usage (normalizeUsage r.1.usage)) m')
      (fun _ _ => True) := by
  refine ends_tryCatch (ends_bind ((requestCompletion_accounts self cfg _ rfl h).mono
    (fun response m' hcounted => ends_pure hcounted) (fun error m' hkept => ?_)))
  refine ends_ite (fun _ => ends_throw trivial) fun _ => ends_bind ?_
  refine (keeps_compactIfNeeded self dialogue turn cfg.model 0 cfg.toolsTokens m').mono
    (fun compacted m'' hcompacted => ?_) (fun _ _ _ => trivial)
  refine ends_ite (fun _ => ends_throw trivial) fun _ => ends_bind ?_
  exact (requestCompletion_accounts self cfg _ rfl (hcompacted before usage hkept)).mono
    (fun response m₃ hcounted => ends_pure hcounted) (fun _ _ _ => trivial)

/-- The usage that has been counted where some turns or calls have ended. -/
def usageAfter : Progress ⊕ TurnSummary → TokenUsage
  | .inl progress => progress.sessionUsage
  | .inr summary => summary.usage

theorem runToolCalls_accounts (turn : Nat) (calls : List ChatToolCall) (progress : Progress)
    {m : Machine ε} (h : Accounts before progress.sessionUsage m) :
    Ends (runToolCalls host self cfg turn calls progress) m
      (fun r m' => Accounts before (usageAfter r) m') (fun _ _ => True) := by
  induction calls generalizing progress m with
  | nil => exact ends_pure h
  | cons toolCall pending ih =>
    obtain ⟨result, w', event, ran, -, hcall, -⟩ := callTool_apply host self cfg toolCall m
    refine ends_bind_of_ok hcall (ends_bind_of_ok (record_apply _ _) ?_)
    cases acceptedFinish cfg progress.successfulModification result with
    | none => exact ih (takeResult cfg progress toolCall result) h
    | some finish =>
      apply ends_bind_of_ok (record_apply _ _)
      refine ends_bind ((keeps_fromOutside _ _).mono (fun session m' hkeeps => ?_)
        (fun _ _ _ => trivial))
      exact ends_pure (hkeeps before _ h)

theorem runOneTurn_accounts (turn : Nat) (progress : Progress) {m : Machine ε}
    (h : Accounts before progress.sessionUsage m) :
    Ends (runOneTurn host self cfg turn progress) m
      (fun r m' => Accounts before (usageAfter r) m') (fun _ _ => True) := by
  refine ends_bind ((keeps_compactIfNeeded self progress.dialogue turn cfg.model
    cfg.transcriptBudget cfg.toolsTokens m).mono (fun dialogue m₁ hcompacted => ?_)
    (fun _ _ _ => trivial))
  refine ends_bind ((requestTurn_accounts self cfg dialogue turn (hcompacted before _ h)).mono
    (fun r m₂ hcounted => ?_) (fun _ _ _ => trivial))
  obtain ⟨response, dialogue⟩ := r
  dsimp only at hcounted ⊢
  cases response.message with
  | none => exact ends_throw trivial
  | some message =>
    apply ends_bind_of_ok (record_apply _ _)
    have hcounted' : Accounts before (takeReply progress dialogue response message).sessionUsage
        { m₂ with trace := m₂.trace ++ [.reply message] } := hcounted
    cases message.tool_calls.getD [] with
    | nil => exact ends_pure hcounted'
    | cons toolCall pending =>
      exact runToolCalls_accounts host self cfg turn (toolCall :: pending) _ hcounted'

theorem runTurns_accounts (left turn : Nat) (progress : Progress) {m : Machine ε}
    (h : Accounts before progress.sessionUsage m) :
    Ends (runTurns host self cfg left turn progress) m
      (fun summary m' => Accounts before summary.usage m') (fun _ _ => True) := by
  induction left generalizing turn progress m with
  | zero => exact ends_throw trivial
  | succ left ih =>
    refine ends_bind ((runOneTurn_accounts host self cfg turn progress h).mono
      (fun r m₁ haccounts => ?_) (fun _ _ _ => trivial))
    cases r with
    | inl progress' => exact ih (turn + 1) progress' haccounts
    | inr summary => exact ends_pure haccounts

theorem runTurn_accounts (input : RunTurnInput ε) (m : Machine ε) :
    Ends (runTurn host self input) m
      (fun summary m' => Accounts m.received summary.usage m') (fun _ _ => True) := by
  have hstart : Accounts m.received emptyUsage m := ⟨[], (List.append_nil _).symm, rfl⟩
  refine ends_bind ((keeps_fromOutside _ m).mono (fun session m₁ h₁ => ?_) (fun _ _ _ => trivial))
  have hgit : Keeps KeepsAccount (tryCatch (fromOutside (self.gitContextProvider input.cwd))
      fun _ => pure none : RuntimeM ε (Option JsString)) :=
    keeps_tryCatch isFrame_keepsAccount (keeps_fromOutside _)
      fun _ => keeps_pure isFrame_keepsAccount _
  refine ends_bind ((hgit m₁).mono (fun gitContext m₂ h₂ => ?_) (fun _ _ _ => trivial))
  refine ends_tryCatch ((runTurns_accounts host self _ _ 1 _
    (h₂ _ _ (h₁ _ _ hstart))).mono (fun summary m₃ h => h) (fun error m₃ _ => ?_))
  exact ends_bind ((keeps_fromOutside _ m₃).mono (fun _ _ _ => ends_throw trivial)
    (fun _ _ _ => trivial))

/-- The usage of a run is that of every response it has received exactly when those to
requests for a summary add nothing. -/
theorem usage_total_iff (input : RunTurnInput ε) (m m' : Machine ε) (summary : TurnSummary)
    (hrun : runTurn host self input m = .ok summary m') :
    ∃ received, m'.received = m.received ++ received ∧
      (summary.usage = totalUsage received ↔
        totalUsage (summaryResponses received) = emptyUsage) := by
  obtain ⟨received, hreceived, husage⟩ := ends_of_ok (runTurn_accounts host self input m) hrun
  refine ⟨received, hreceived, ?_⟩
  rw [totalUsage_split, husage]
  exact addUsage_eq_left_iff _ _

end turns

section scripted

/-- A runtime whose model reports the usage of each answer, and that compacts its
messages before every turn. -/
def metered : ConversationRuntime (List ChatMessage) :=
  { scripted noHooks with
    apiClient :=
      { chat := fun _ replies =>
          match replies with
          | [] => .error (.error (js "No reply.")) []
          | reply :: replies => .ok ⟨[some reply], some ⟨some 10, some 1, some 11⟩⟩ replies
        chatStream := none }
    toolRegistry := .new (BUILTIN_TOOLS.filter fun tool => tool.spec.name = js "finish") [] []
    maxTranscriptTokensOverride := some 0
    compactionRecentLimit := 1 }

/-- A resumed turn, with a message for a compaction to drop. -/
def resumedTurn : RunTurnInput (List ChatMessage) :=
  { turnFor (js "look") with
    resumeMessages := some
      [.text .system (js "s"), .text .user (js "u"), .text .user (js "dropped")] }

def meteredRun : EStateM.Result Thrown (Machine (List ChatMessage)) TurnSummary :=
  runTurn (finishHost (js "Done")) metered resumedTurn
    (startWith [.text .assistant (js "notes"), replyOf [finishCall (js "Done")]])

/-- Whether a run has counted one of the two responses it has received. -/
def countsOneOfTwo : EStateM.Result Thrown (Machine (List ChatMessage)) TurnSummary → Bool
  | .ok summary m' => summary.usage = ⟨10, 1, 11⟩ && totalUsage m'.received = ⟨20, 2, 22⟩
  | .error _ _ => false

theorem countsOneOfTwo_ok {run : EStateM.Result Thrown (Machine (List ChatMessage)) TurnSummary}
    (h : countsOneOfTwo run = true) : ∃ summary m', run = .ok summary m' ∧
      summary.usage = ⟨10, 1, 11⟩ ∧ totalUsage m'.received = ⟨20, 2, 22⟩ := by
  cases run with
  | ok summary m' =>
    obtain ⟨husage, htotal⟩ := Bool.and_eq_true_iff.mp h
    exact ⟨summary, m', rfl, of_decide_eq_true husage, of_decide_eq_true htotal⟩
  | error thrown m' => cases h

/-- A response of that model. -/
def reported (message : ChatMessage) : ChatResponse :=
  ⟨[some message], some ⟨some 10, some 1, some 11⟩⟩

section answers

variable (text model : JsString) (replies : List ChatMessage) (fs : FileSystem)
  (last : Option Int) (trace : List Event) (received : List Received)

theorem summarize_metered : summarize metered text model 1
    ⟨⟨.text .assistant (js "notes") :: replies, fs, false⟩, none, trace, received⟩ =
      .ok (formatCompactSummary (js "notes")) ⟨⟨replies, fs, false⟩, some 1,
        trace ++ [.chatRequest (summaryRequest text model)],
        received ++
          [(summaryRequest text model, reported (.text .assistant (js "notes")))]⟩ := rfl

theorem requestTurn_metered (dialogue : Dialogue) (turn : Nat) (reply : ChatMessage) :
    let cfg := settings (finishHost text) metered resumedTurn
    requestTurn metered cfg dialogue turn
      ⟨⟨reply :: replies, fs, false⟩, last, trace, received⟩ =
        .ok (reported reply, dialogue) ⟨⟨replies, fs, false⟩, last,
          trace ++ [.chatRequest (requestParams cfg dialogue.messages)],
          received ++ [(requestParams cfg dialogue.messages, reported reply)]⟩ := rfl

theorem executeToolCall_metered : executeToolCall (finishHost text) metered
    (settings (finishHost text) metered resumedTurn) (finishCall text)
    ⟨⟨replies, fs, false⟩, last, trace, received⟩ = .ok (finishResult text)
      ⟨⟨replies, fs, false⟩, last, trace ++ [.dispatched (finishCall text)], received⟩ := by
  rw [executeToolCall, parse_finishCall]
  rfl

/-- The call of finish completes the session: no response is added. -/
theorem runToolCalls_metered (progress : Progress) : ∃ summary m',
    runToolCalls (finishHost text) metered (settings (finishHost text) metered resumedTurn) 1
      [finishCall text] progress ⟨⟨replies, fs, false⟩, last, trace, received⟩ =
        .ok (.inr summary) m' ∧
      summary.usage = progress.sessionUsage ∧ m'.received = received := by
  have hcall := callTool_of_execute rfl
    (executeToolCall_metered text replies fs last trace received)
  have haccepted : acceptedFinish (settings (finishHost text) metered resumedTurn)
      progress.successfulModification (finishResult text) = some ⟨text, [], []⟩ :=
    acceptedFinish_unguarded rfl
  rw [runToolCalls, bind_of_ok hcall, bind_of_ok (record_apply _ _), haccepted]
  exact ⟨_, _, rfl, rfl, rfl⟩

end answers

/-- The first turn asks for a summary, and then for the call of finish. -/
theorem runOneTurn_metered (progress : Progress) :
    let cfg := settings (finishHost (js "Done")) metered resumedTurn
    progress.dialogue = ⟨startMessages cfg none, []⟩ → progress.sessionUsage = emptyUsage →
      ∃ summary m', runOneTurn (finishHost (js "Done")) metered cfg 1 progress
        (startWith [.text .assistant (js "notes"), replyOf [finishCall (js "Done")]]) =
          .ok (.inr summary) m' ∧ countsOneOfTwo (.ok summary m') = true := by
  intro cfg hdialogue husage
  let dialogue : Dialogue := ⟨startMessages cfg none, []⟩
  have hover : (0 : Int) <
      ((estimateMessagesTokens dialogue.messages + cfg.toolsTokens : Nat) : Int) := by
    have hmessages : 0 < estimateMessagesTokens dialogue.messages := by decide
    omega
  have hbudget : cfg.transcriptBudget = 0 := rfl
  have hcompact := compactIfNeeded_of_summary metered hover rfl
    (summarize_metered _ cfg.model [replyOf [finishCall (js "Done")]] (.dir [(js "w", .dir [])])
      [] [])
  rw [runOneTurn, hdialogue, startWith, hbudget, bind_of_ok hcompact,
    bind_of_ok (requestTurn_metered _ _ _ _ _ _ _ _ _)]
  dsimp only [reported, replyOf, ChatResponse.message, List.head?, Option.join, Option.bind,
    Option.getD, id]
  rw [bind_of_ok (record_apply _ _)]
  obtain ⟨summary, m', hcalls, hsummary, hreceived⟩ :=
    runToolCalls_metered (js "Done") [] _ _ _ _ _
  refine ⟨summary, m', hcalls, ?_⟩
  rw [countsOneOfTwo, hsummary, hreceived, takeReply, husage]
  rfl

theorem meteredRun_ends : ∃ summary m', meteredRun = .ok summary m' ∧
    summary.usage = ⟨10, 1, 11⟩ ∧ totalUsage m'.received = ⟨20, 2, 22⟩ := by
  let cfg := settings (finishHost (js "Done")) metered resumedTurn
  obtain ⟨summary, m', hturn, hcounts⟩ := runOneTurn_metered
    ⟨⟨startMessages cfg none, []⟩, emptyUsage, createdRecord ⟨js "look", js "/w", some cfg.model,
      cfg.reasoningEffort, cfg.approvalPolicy, cfg.sandbox⟩ (js "session-1")
      (js "2026-05-23T00:00:00.000Z"), false⟩ rfl rfl
  apply countsOneOfTwo_ok
  rw [meteredRun, runTurn_of_turns _ _ rfl rfl (runTurns_of_one _ _ _ hturn)]
  exact hcounts

theorem usage_total_iff_metered : ∃ summary m', meteredRun = .ok summary m' ∧
    ∃ received, m'.received = [] ++ received ∧ (summary.usage = totalUsage received ↔
      totalUsage (summaryResponses received) = emptyUsage) := by
  obtain ⟨summary, m', hrun, -⟩ := meteredRun_ends
  exact ⟨summary, m', hrun, usage_total_iff _ _ _ _ m' summary hrun⟩

/-- The response to the summary of a compaction is not counted. -/
theorem summary_uncounted :
    ¬ ∀ summary m', meteredRun = .ok summary m' → summary.usage = totalUsage m'.received := by
  intro h
  obtain ⟨summary, m', hrun, husage, htotal⟩ := meteredRun_ends
  have hequal := h summary m' hrun
  rw [husage, htotal] at hequal
  exact absurd hequal (by decide)

end scripted

end Solarcido.Conversation
