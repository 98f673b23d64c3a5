import Mathlib.Algebra.Order.BigOperators.Group.List
import Mathlib.Algebra.Order.Ring.Nat
import Solarcido.Conversation.Course

namespace Solarcido.Conversation

open Text Tools Api ThrowingProgram Traces

variable {ε : Type} (host : Host ε)

section limits

/-- The window of a model, or that of a model that is not known. -/
def contextWindowTokens (model : JsString) : Int :=
  ((modelTokenLimit model).map ModelTokenLimit.contextWindowTokens).getD FALLBACK_CONTEXT_TOKENS

/-- The estimate of all that goes into a request: its messages and its tools. -/
def estimatedInputTokens (params : ChatRunOptions) : Nat :=
  estimateMessagesTokens params.messages +
    (params.tools.map fun tools => estimateTokens
      (Json.stringify host.numberText (.arr (tools.map ChatTool.toJson)))).getD 0

/-- What goes in and what may come out fit together into the model's window. -/
def FitsWindow (params : ChatRunOptions) : Prop :=
  ∀ maxTokens ∈ params.maxTokens,
    (estimatedInputTokens host params : Int) + maxTokens ≤ contextWindowTokens params.model

/-- What goes into a turn's request, the one kind that offers tools, leaves 256 tokens of the
window. -/
def LeavesFloor (params : ChatRunOptions) : Prop :=
  params.tools.isSome = true →
    (estimatedInputTokens host params : Int) + 256 ≤ contextWindowTokens params.model

end limits

section requests

variable (self : ConversationRuntime ε) (input : RunTurnInput ε)

theorem clamped_fits_iff (inputTokens window ceiling : Int) :
    inputTokens + max 256 (min ceiling (window - inputTokens - 512)) ≤ window ↔
      inputTokens + 256 ≤ window := by
  omega

theorem estimatedInputTokens_requestParams (messages : List ChatMessage) :
    estimatedInputTokens host (requestParams (settings host self input) messages) =
      estimateMessagesTokens messages + (settings host self input).toolsTokens := rfl

/-- The floor under the limit is all that can take a request over the window. -/
theorem fitsWindow_requestParams_iff (messages : List ChatMessage) :
    FitsWindow host (requestParams (settings host self input) messages) ↔
      LeavesFloor host (requestParams (settings host self input) messages) := by
  have hwindow : contextWindowTokens (settings host self input).model =
      (settings host self input).contextWindow := rfl
  have hclamped := clamped_fits_iff
    ((estimateMessagesTokens messages + (settings host self input).toolsTokens : Nat) : Int)
    (settings host self input).contextWindow (settings host self input).outputCeiling
  rw [FitsWindow, LeavesFloor, estimatedInputTokens_requestParams]
  simp only [requestParams, Option.mem_some, forall_eq', Option.isSome_some, true_imp_iff, hwindow]
  exact hclamped

theorem fitsWindow_summaryRequest (droppedText model : JsString) :
    FitsWindow host (summaryRequest droppedText model) ∧
      LeavesFloor host (summaryRequest droppedText model) := by
  constructor
  · intro maxTokens hmax
    cases hmax
  · intro htools
    cases htools

/-- What a request of a run asks for: a summary, or the answer of a turn. -/
def IsAsked (cfg : Settings ε) (params : ChatRunOptions) : Prop :=
  (∃ droppedText, params = summaryRequest droppedText cfg.model) ∨
    ∃ messages, params = requestParams cfg messages

variable {self} {cfg : Settings ε}

theorem step_asked {p q : Point} {labels : List Event} (h : Step self cfg p labels q)
    {params : ChatRunOptions} (hmem : .chatRequest params ∈ labels) : IsAsked cfg params := by
  cases h with
  | summary messages modified droppedText =>
    exact Or.inl ⟨droppedText, Event.chatRequest.inj (List.mem_singleton.mp hmem)⟩
  | request messages modified =>
    exact Or.inr ⟨messages, Event.chatRequest.inj (List.mem_singleton.mp hmem)⟩
  | result toolCall pending messages modified result events hevents hname hgoes =>
    rcases List.mem_append.mp hmem with hcall | hresult
    · exact absurd (hevents _ hcall) id
    · exact absurd hresult (by simp)
  | finish toolCall pending messages modified result finish events hevents hname haccepted =>
    rcases List.mem_append.mp hmem with hcall | hresult
    · exact absurd (hevents _ hcall) id
    · exact absurd hresult (by simp)
  | compact => exact absurd hmem (by simp)
  | answer => exact absurd hmem (by simp)
  | calls => exact absurd hmem (by simp)
  | rest => exact absurd hmem (by simp)

theorem path_asked {p q : Point} {shown : List Event} (h : Path (Step self cfg) p shown q) :
    ∀ params, .chatRequest params ∈ shown → IsAsked cfg params := by
  apply h.invariant fun shown _ => ∀ params, .chatRequest params ∈ shown → IsAsked cfg params
  · intro params hmem
    cases hmem
  · intro shown p labels q hshown hstep params hmem
    rcases List.mem_append.mp hmem with hold | hnew
    · exact hshown params hold
    · exact step_asked hstep hnew

variable (self)

/-- In every run, whatever it ends with, each request fits into the window of its model just when
its messages and tools leave 256 tokens of it. -/
theorem requests_fit_iff (m : Machine ε) :
    ∃ events, (finalState (runTurn host self input m)).trace = m.trace ++ events ∧
      ∀ params, .chatRequest params ∈ events →
        (FitsWindow host params ↔ LeavesFloor host params) := by
  obtain ⟨gitContext, q, events, htrace, hpath⟩ := runTurn_course host self input m
  refine ⟨events, htrace, ?_⟩
  intro params hmem
  rcases path_asked hpath params hmem with ⟨droppedText, rfl⟩ | ⟨messages, rfl⟩
  · obtain ⟨hfits, hleaves⟩ := fitsWindow_summaryRequest host droppedText
      (settings host self input).model
    exact iff_of_true hfits hleaves
  · exact fitsWindow_requestParams_iff host self input messages

end requests

section overflow

/-- An estimate counts at least one token for four units. -/
theorem length_le_estimateTokens (content : JsString) :
    content.length ≤ 4 * estimateTokens content := by
  rw [estimateTokens]
  omega

theorem estimateMessageTokens_le {message : ChatMessage} {messages : List ChatMessage}
    (h : message ∈ messages) : estimateMessageTokens message ≤ estimateMessagesTokens messages :=
  List.le_sum_of_mem (List.mem_map_of_mem h)

/-- The goal counts in the first request of a turn. -/
theorem goal_le_estimatedInputTokens (self : ConversationRuntime ε) (input : RunTurnInput ε)
    (gitContext : Option JsString) :
    input.goal.length ≤ 4 * estimatedInputTokens host (requestParams (settings host self input)
      (startMessages (settings host self input) gitContext)) := by
  have hmem : goalMessage input ∈ startMessages (settings host self input) gitContext := by
    have hinput : (settings host self input).input = input := rfl
    rw [startMessages, hinput]
    split <;> simp
  have hgoal : estimateTokens ((goalMessage input).content.getD []) ≤
      estimateMessageTokens (goalMessage input) := by
    change _ ≤ 4 + estimateTokens _ + _ + _
    simp only [goalMessage, ChatMessage.text, Option.getD_some]
    omega
  have hlength : input.goal.length ≤ ((goalMessage input).content.getD []).length := by
    simp only [goalMessage, ChatMessage.text, Option.getD_some, List.length_append]
    omega
  have hcontent := length_le_estimateTokens ((goalMessage input).content.getD [])
  have hmessages := estimateMessageTokens_le hmem
  have hinput : estimateMessagesTokens (startMessages (settings host self input) gitContext) ≤
      estimatedInputTokens host (requestParams (settings host self input)
        (startMessages (settings host self input) gitContext)) := Nat.le_add_right _ _
  omega

variable (host : Host (List ChatMessage)) (hooks : Hooks.HookRunner (List ChatMessage))
  (goal : JsString)

/-- The machine after the only request of a script without replies. -/
def askedMachine : Machine (List ChatMessage) :=
  let cfg := settings host (scripted hooks) (turnFor goal)
  { startWith [] with trace := [.chatRequest (requestParams cfg (startMessages cfg none))] }

theorem runOneTurn_unanswered (progress : Progress)
    (hdialogue : progress.dialogue =
      ⟨startMessages (settings host (scripted hooks) (turnFor goal)) none, []⟩) :
    runOneTurn host (scripted hooks) (settings host (scripted hooks) (turnFor goal)) 1 progress
      (startWith []) = .error (.error (js "No reply.")) (askedMachine host hooks goal) := by
  have hkeeps := compactIfNeeded_keeps (scripted hooks) progress.dialogue 1
    (settings host (scripted hooks) (turnFor goal)).model
    (settings host (scripted hooks) (turnFor goal)).transcriptBudget
    (settings host (scripted hooks) (turnFor goal)).toolsTokens (startWith [])
    (by rw [hdialogue]; rfl)
  have hask : requestCompletion (scripted hooks) (settings host (scripted hooks) (turnFor goal))
      (requestParams (settings host (scripted hooks) (turnFor goal)) progress.dialogue.messages)
      (startWith []) = .error (.error (js "No reply.")) (askedMachine host hooks goal) := by
    rw [hdialogue]
    rfl
  have hrequest : requestTurn (scripted hooks) (settings host (scripted hooks) (turnFor goal))
      progress.dialogue 1 (startWith []) =
      .error (.error (js "No reply.")) (askedMachine host hooks goal) := by
    rw [requestTurn, tryCatch_of_error (bind_of_error hask _), if_pos (by decide)]
    rfl
  rw [runOneTurn, bind_of_ok hkeeps, bind_of_error hrequest]

/-- A script without replies shows one request. -/
theorem runTurn_unanswered :
    (finalState (runTurn host (scripted hooks) (turnFor goal) (startWith []))).trace =
      (askedMachine host hooks goal).trace := by
  have hturns : ∀ progress : Progress, progress.dialogue =
      ⟨startMessages (settings host (scripted hooks) (turnFor goal)) none, []⟩ →
      runTurns host (scripted hooks) (settings host (scripted hooks) (turnFor goal))
        (settings host (scripted hooks) (turnFor goal)).maxTurns.toNat 1 progress (startWith []) =
        .error (.error (js "No reply.")) (askedMachine host hooks goal) := by
    intro progress hdialogue
    have hleft : (settings host (scripted hooks) (turnFor goal)).maxTurns.toNat = 19 + 1 := rfl
    rw [hleft, runTurns, bind_of_error (runOneTurn_unanswered host hooks goal progress hdialogue)]
  have hgit : (tryCatch (fromOutside ((scripted hooks).gitContextProvider (js "/w")))
      fun _ => pure none : RuntimeM (List ChatMessage) (Option JsString)) (startWith []) =
      .ok none (startWith []) := rfl
  rw [runTurn, bind_of_ok (scripted_create hooks _ _)]
  change (finalState ((tryCatch (fromOutside ((scripted hooks).gitContextProvider (js "/w")))
    (fun _ => pure none) >>= _) (startWith []))).trace = _
  rw [bind_of_ok hgit, tryCatch_of_error (hturns _ rfl)]
  rfl

/-- A goal that fills the window goes out all the same. -/
theorem goal_overflows (hlong : 4 * 131072 ≤ goal.length) :
    ∃ params, .chatRequest params ∈ (finalState (runTurn host (scripted hooks) (turnFor goal)
        (startWith []))).trace ∧ ¬ FitsWindow host params := by
  refine ⟨requestParams (settings host (scripted hooks) (turnFor goal))
    (startMessages (settings host (scripted hooks) (turnFor goal)) none), ?_, ?_⟩
  · rw [runTurn_unanswered]
    exact List.mem_singleton.mpr rfl
  · intro hfits
    have hfloor := (fitsWindow_requestParams_iff host (scripted hooks) (turnFor goal) _).mp hfits rfl
    have hgoal := goal_le_estimatedInputTokens host (scripted hooks) (turnFor goal) none
    have hlength : (turnFor goal).goal.length = goal.length := rfl
    have hwindow : contextWindowTokens (requestParams (settings host (scripted hooks)
        (turnFor goal)) (startMessages (settings host (scripted hooks) (turnFor goal)) none)).model =
        131072 := by
      change contextWindowTokens DEFAULT_MODEL = 131072
      decide
    rw [hwindow] at hfloor
    omega

/-- 600000 letters are asked about with a limit of 256 tokens behind a full window. -/
theorem long_goal_overflows :
    ∃ params, .chatRequest params ∈ (finalState (runTurn (hostWith []) (scripted noHooks)
        (turnFor (List.replicate 600000 97)) (startWith []))).trace ∧
      ¬ FitsWindow (hostWith []) params := by
  apply goal_overflows
  rw [List.length_replicate]
  decide

end overflow

end Solarcido.Conversation
