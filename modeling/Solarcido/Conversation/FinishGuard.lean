import Solarcido.Conversation.Course

namespace Solarcido.Conversation

open Text Tools Api ThrowingProgram Traces

variable {ε : Type}

/-- The result of an edit that came through. -/
def IsEdit : Event → Prop
  | .toolResult toolCall result =>
    normalizeToolName toolCall.name ∈ [js "edit_file", js "write_file"] ∧
      startsWith result.content (js "ERROR:") = false
  | _ => False

instance : DecidablePred IsEdit
  | .toolResult toolCall _ => inferInstanceAs (Decidable (normalizeToolName toolCall.name ∈ _ ∧ _))
  | .chatRequest _ | .reply _ | .hook .. | .dispatched _ | .compacted | .completed .. => .isFalse id

/-- An edit has come through. -/
def Edited (shown : List Event) : Prop := ∃ e ∈ shown, IsEdit e

/-- No finish so far has had the guard's own message for its text. -/
def NoEcho (shown : List Event) : Prop :=
  ∀ toolCall result, .toolResult toolCall result ∈ shown → result.finish.isSome = true →
    result.content ≠ blockedPrematureFinishMessage

/-- What the flag of a run stands for. -/
structure Flagged (modified : Bool) (shown : List Event) : Prop where
  edited : modified = true → Edited shown
  noEcho : NoEcho shown

theorem Edited.append {shown : List Event} (h : Edited shown) (labels : List Event) :
    Edited (shown ++ labels) := by
  obtain ⟨e, hmem, hedit⟩ := h
  exact ⟨e, List.mem_append_left labels hmem, hedit⟩

/-- Events that are no results change nothing. -/
theorem Flagged.append {modified : Bool} {shown labels : List Event} (h : Flagged modified shown)
    (hother : ∀ toolCall result, .toolResult toolCall result ∉ labels) :
    Flagged modified (shown ++ labels) where
  edited hmodified := (h.edited hmodified).append labels
  noEcho toolCall result hmem :=
    (List.mem_append.mp hmem).elim (h.noEcho toolCall result)
      fun hnew => absurd hnew (hother toolCall result)

theorem not_result_of_isCallEvent {events : List Event} (h : ∀ e ∈ events, IsCallEvent e)
    (toolCall : ChatToolCall) (result : ToolExecutionResult) :
    .toolResult toolCall result ∉ events := fun hmem => h _ hmem

set_option maxRecDepth 4000 in
theorem startsWith_blockedPrematureFinishMessage :
    startsWith blockedPrematureFinishMessage (js "ERROR:") = true := by
  obtain ⟨rest, hunits⟩ : ∃ rest, blockedPrematureFinishMessage = fromCodePoints
      (('E' :: 'R' :: 'R' :: 'O' :: 'R' :: ':' :: rest).map Char.toNat) := ⟨_, js_eq rfl⟩
  rw [hunits]
  rfl

section guard

variable (cfg : Settings ε) {modified : Bool} {result : ToolExecutionResult}

/-- A finish whose text is the guard's own message always comes through. -/
theorem acceptedFinish_of_echo (h : result.content = blockedPrematureFinishMessage) :
    acceptedFinish cfg modified result = result.finish := by
  have hshown : shownContent cfg modified result = result.content := by
    unfold shownContent
    split
    · exact h.symm
    · rfl
  rw [acceptedFinish, if_pos hshown]

theorem finish_of_accepted {finish : FinishPayload}
    (h : acceptedFinish cfg modified result = some finish) : result.finish = some finish := by
  unfold acceptedFinish at h
  split at h
  · exact h
  · exact absurd h (by simp)

/-- Before an edit nothing else does. -/
theorem echo_of_accepted {finish : FinishPayload} (hrequires : cfg.requiresModification = true)
    (h : acceptedFinish cfg false result = some finish) :
    result.content = blockedPrematureFinishMessage := by
  have hguard : (result.finish.isSome && cfg.requiresModification && !false) = true := by
    rw [finish_of_accepted cfg h, hrequires]
    rfl
  unfold acceptedFinish at h
  split at h
  · next hshown =>
    rw [shownContent, if_pos hguard] at hshown
    exact hshown.symm
  · exact absurd h (by simp)

end guard

variable (self : ConversationRuntime ε) (cfg : Settings ε)

/-- At every point of a run the flag is set for an edit only, and a session is completed
by a finish that the guard has let through. -/
def Guarded (shown : List Event) : Point → Prop
  | .ready _ modified => Flagged modified shown
  | .calling _ _ modified => Flagged modified shown
  | .completed =>
    ∃ before toolCall pending result finish update modified,
      shown = before ++ [.toolResult toolCall result, .completed toolCall pending result update] ∧
        Flagged modified before ∧ acceptedFinish cfg modified result = some finish

/-- A result that does not end the run. -/
theorem Flagged.result {toolCall : ChatToolCall} {result : ToolExecutionResult} {modified : Bool}
    {before : List Event} (h : Flagged modified before) (hname : FromItsTool toolCall result)
    (hgoes : acceptedFinish cfg modified result = none) :
    Flagged (modified || isSuccessfulModificationTool result.toolName
      (shownContent cfg modified result)) (before ++ [.toolResult toolCall result]) where
  edited hset := by
    rcases (Bool.or_eq_true _ _).mp hset with hold | hnew
    · exact (h.edited hold).append _
    · refine ⟨_, List.mem_append_right before (List.mem_singleton_self _), ?_⟩
      unfold isSuccessfulModificationTool at hnew
      split at hnew
      · exact absurd hnew Bool.false_ne_true
      · next hgood =>
        -- the guard's message is an error, so the content is the tool's own
        have hcontent : shownContent cfg modified result = result.content := by
          unfold shownContent at hgood ⊢
          split
          · next hblocked =>
            rw [if_pos hblocked] at hgood
            exact absurd startsWith_blockedPrematureFinishMessage hgood
          · rfl
        rw [hcontent, Bool.not_eq_true] at hgood
        have htool := hname hgood
        rw [htool] at hnew
        exact ⟨by simpa [or_comm] using hnew, hgood⟩
  noEcho toolCall' result' hmem hfinish hecho := by
    rcases List.mem_append.mp hmem with hold | hnew
    · exact h.noEcho toolCall' result' hold hfinish hecho
    · obtain ⟨rfl, rfl⟩ := Event.toolResult.inj (List.mem_singleton.mp hnew)
      rw [acceptedFinish_of_echo cfg hecho] at hgoes
      rw [hgoes] at hfinish
      exact absurd hfinish Bool.false_ne_true

theorem guarded_step {shown labels : List Event} {q r : Point} (h : Guarded cfg shown q)
    (step : Step self cfg q labels r) : Guarded cfg (shown ++ labels) r := by
  cases step with
  | summary => exact Flagged.append h (by simp)
  | compact => exact Flagged.append h (by simp)
  | request => exact Flagged.append h (by simp)
  | answer => exact Flagged.append h (by simp)
  | calls => exact Flagged.append h (by simp)
  | result toolCall pending messages modified result events hevents hname hgoes =>
    rw [← List.append_assoc]
    exact (Flagged.append h (not_result_of_isCallEvent hevents)).result cfg hname hgoes
  | finish toolCall pending messages modified result finish events hevents hname haccepted =>
    exact ⟨_, toolCall, pending, result, finish, _, modified, (List.append_assoc _ _ _).symm,
      Flagged.append h (not_result_of_isCallEvent hevents), haccepted⟩
  | rest => exact Flagged.append h (by simp)

theorem guarded_path {messages : List ChatMessage} {shown : List Event} {q : Point}
    (h : Path (Step self cfg) (.ready messages false) shown q) : Guarded cfg shown q :=
  h.invariant (Guarded cfg) ⟨by simp, by simp [NoEcho]⟩
    fun _ _ _ _ hq hstep => guarded_step self cfg hq hstep

variable (host : Host ε)

/-- A session with a goal that needs an edit is completed after an edit exactly when no
finish before the first edit has had the guard's own message for its text. -/
theorem completed_edited_iff (input : RunTurnInput ε) (m m' : Machine ε) (summary : TurnSummary)
    (htrace : m.trace = []) (hgoal : goalLikelyRequiresModification input.goal = true)
    (hrun : runTurn host self input m = .ok summary m') :
    ∃ before toolCall pending result update,
      m'.trace = before ++ [.toolResult toolCall result,
        .completed toolCall pending result update] ∧
      (Edited before ↔ ∀ earlier later toolCall result,
        m'.trace = earlier ++ .toolResult toolCall result :: later → ¬ Edited earlier →
          result.finish.isSome = true → result.content ≠ blockedPrematureFinishMessage) := by
  obtain ⟨gitContext, shown, hshown, hpath⟩ := runTurn_completes host self hrun
  rw [htrace, List.nil_append] at hshown
  obtain ⟨before, toolCall, pending, result, finish, update, modified, rfl, hflagged, haccepted⟩ :=
    guarded_path self _ hpath
  refine ⟨before, toolCall, pending, result, update, hshown, ?_, ?_⟩
  · intro hedited earlier later toolCall' result' hsplit hnone hfinish
    rw [hshown, List.append_eq_append_iff] at hsplit
    obtain ⟨between, rfl, -⟩ | ⟨between, rfl, hrest⟩ := hsplit
    · exact absurd (hedited.append between) hnone
    · cases between with
      | nil =>
        rw [List.append_nil] at hedited
        exact absurd hedited hnone
      | cons e between =>
        obtain ⟨rfl, -⟩ := List.cons.inj hrest
        exact hflagged.noEcho toolCall' result'
          (List.mem_append_right earlier List.mem_cons_self) hfinish
  · intro hnoEcho
    by_contra hnone
    have hmodified : modified = false := by
      cases modified with
      | true => exact absurd (hflagged.edited rfl) hnone
      | false => rfl
    subst hmodified
    refine hnoEcho before _ toolCall result hshown hnone ?_ (echo_of_accepted _ hgoal haccepted)
    rw [finish_of_accepted _ haccepted]
    rfl

/-- A call that writes a file. -/
def writeCall : ChatToolCall :=
  ⟨js "call-0", js "write_file", js "\x7b\"path\":\"a\",\"content\":\"\"\x7d"⟩

/-- A host that can parse the arguments of a write and of a finish. -/
def writeHost : Host (List ChatMessage) :=
  hostWith [(writeCall.arguments, .obj [(js "path", .str (js "a")), (js "content", .str [])]),
    ((finishCall (js "Done")).arguments, .obj [(js "summary", .str (js "Done"))])]

theorem completed_edited_iff_written :
    ∃ summary m', runTurn writeHost (scripted noHooks) (turnFor (js "fix it"))
        (startWith [replyOf [writeCall, finishCall (js "Done")]]) = .ok summary m' ∧
      ∃ before toolCall pending result update,
        m'.trace = before ++ [.toolResult toolCall result,
          .completed toolCall pending result update] ∧
        (Edited before ↔ ∀ earlier later toolCall result,
          m'.trace = earlier ++ .toolResult toolCall result :: later → ¬ Edited earlier →
            result.finish.isSome = true → result.content ≠ blockedPrematureFinishMessage) := by
  obtain ⟨summary, m', hrun, -⟩ := runTurn_of_completesWith writeHost noHooks (js "fix it")
    writeCall [finishCall (js "Done")] (fun trace => trace.any fun e => decide (IsEdit e))
    (by decide +kernel)
  exact ⟨summary, m', hrun, completed_edited_iff _ _ _ _ m' summary rfl (by decide) hrun⟩

/-- A finish with the guard's own message for a summary completes a session without any
edit. -/
theorem echo_passes_guard :
    ¬ ∀ (replies : List ChatMessage) (summary : TurnSummary) (m' : Machine (List ChatMessage)),
      goalLikelyRequiresModification (js "fix it") = true →
        runTurn (finishHost blockedPrematureFinishMessage) (scripted noHooks)
          (turnFor (js "fix it")) (startWith replies) = .ok summary m' → Edited m'.trace := by
  intro h
  obtain ⟨summary, m', hrun, hnone⟩ := runTurn_of_completesWith
    (finishHost blockedPrematureFinishMessage) noHooks (js "fix it")
    (finishCall blockedPrematureFinishMessage) []
    (fun trace => trace.all fun e => !decide (IsEdit e)) (by
      rw [completesWith_finish _ _ _ _ (acceptedFinish_of_echo _ (finishResult_content _))]
      generalize blockedPrematureFinishMessage = text
      rfl)
  obtain ⟨e, hmem, hedit⟩ := h _ summary m' (by decide) hrun
  exact absurd hedit (by simpa using List.all_eq_true.mp hnone e hmem)

end Solarcido.Conversation
