import Solarcido.Conversation.Runtime

namespace Solarcido.Conversation

open Text Tools Api ThrowingProgram

variable {ε α : Type}

theorem fromOutside_apply (x : Effect ε α) (m : Machine ε) :
    fromOutside x m = match x m.world.env with
      | .ok a env => .ok a { m with world := { m.world with env } }
      | .error e env => .error e { m with world := { m.world with env } } := by
  unfold fromOutside inWorld outside onPart
  cases x m.world.env <;> rfl

theorem record_apply (e : Event) (m : Machine ε) :
    record e m = .ok ⟨⟩ { m with trace := m.trace ++ [e] } := rfl

theorem receive_apply (params : ChatRunOptions) (response : ChatResponse) (m : Machine ε) :
    receive params response m =
      .ok ⟨⟩ { m with received := m.received ++ [(params, response)] } := rfl

/-- A machine after the outside has changed and events were recorded. -/
def Machine.after (m : Machine ε) (env : ε) (events : List Event) : Machine ε :=
  { m with world := { m.world with env }, trace := m.trace ++ events }

namespace Hooks

variable (host : Host ε) (runner : HookRunner ε) (event : HookEvent) (toolName : JsString)
  (env : List (JsString × JsString)) (payload : JsString)

def hookOutcome (x : Effect ε HookCommandResult) (e : ε) : HookOutcome × ε :=
  match x e with
  | .ok result e' => (.exited result, e')
  | .error error e' => (.failedToStart error, e')

theorem tryHook_apply (x : Effect ε HookCommandResult) (e : ε) :
    tryHook x e = .ok (hookOutcome x e).1 (hookOutcome x e).2 := by
  rw [tryHook, hookOutcome]
  cases hx : x e with
  | ok result e' => exact tryCatch_return_of_ok hx HookOutcome.exited _
  | error error e' => exact tryCatch_of_error (bind_of_error hx _) _

/-- What the commands come to when each is run in its turn. -/
def hookOutcomes : List JsString → ε → List (JsString × HookOutcome)
  | [], _ => []
  | command :: commands, e =>
    let (outcome, e') := hookOutcome (runner.execute command env payload) e
    (command, outcome) :: hookOutcomes commands e'

/-- The result of a list of outcomes, and the outcomes up to the one that stops. -/
def judgeAll : List (JsString × HookOutcome) → HookRunResult →
    HookRunResult × List (JsString × HookOutcome)
  | [], result => (result, [])
  | (command, outcome) :: rest, result =>
    let (result, next) := judge host event toolName command result outcome
    if next then
      let (result, ran) := judgeAll rest result
      (result, (command, outcome) :: ran)
    else (result, [(command, outcome)])

theorem runEach_apply (commands : List JsString) (result : HookRunResult) (m : Machine ε) :
    ∃ e, runEach host runner event toolName env payload commands result m =
      let judged := judgeAll host event toolName
        (hookOutcomes runner env payload commands m.world.env) result
      .ok judged.1 (m.after e (judged.2.map fun ran => .hook event ran.1 ran.2)) := by
  induction commands generalizing result m with
  | nil =>
    refine ⟨m.world.env, ?_⟩
    simp only [Machine.after, hookOutcomes, judgeAll, List.map_nil, List.append_nil]
    rfl
  | cons command commands ih =>
    have hrun : fromOutside (tryHook (runner.execute command env payload)) m =
        .ok (hookOutcome (runner.execute command env payload) m.world.env).1
          { m with world := { m.world with
            env := (hookOutcome (runner.execute command env payload) m.world.env).2 } } := by
      rw [fromOutside_apply, tryHook_apply]
    rw [hookOutcomes]
    generalize hookOutcome (runner.execute command env payload) m.world.env = ran at hrun
    obtain ⟨outcome, e₁⟩ := ran
    dsimp only at hrun
    rw [runEach, bind_of_ok hrun, bind_of_ok (record_apply _ _), judgeAll]
    cases judge host event toolName command result outcome with
    | mk judged next =>
    cases next with
    | false => exact ⟨e₁, rfl⟩
    | true =>
      obtain ⟨e₂, hrest⟩ := ih judged
        { m with world := { m.world with env := e₁ }
                 trace := m.trace ++ [.hook event command outcome] }
      refine ⟨e₂, ?_⟩
      simp only [if_true] at hrest ⊢
      rw [hrest]
      simp only [Machine.after, List.map_cons, List.append_assoc, List.cons_append, List.nil_append]

/-- What hooks come to before a call. -/
def preOutcomes (toolInput : JsString) (e : ε) : List (JsString × HookOutcome) :=
  hookOutcomes runner (hookEnv .preToolUse toolName toolInput none false)
    (Json.stringify host.numberText (hookPayload host .preToolUse toolName toolInput none false))
    runner.config.preToolUse e

theorem runPreToolUse_apply (toolInput : JsString) (m : Machine ε) :
    ∃ e, runPreToolUse host runner toolName toolInput m =
      let judged := judgeAll host .preToolUse toolName
        (preOutcomes host runner toolName toolInput m.world.env) allow
      .ok judged.1 (m.after e (judged.2.map fun ran => .hook .preToolUse ran.1 ran.2)) :=
  runEach_apply host runner .preToolUse toolName _ _ _ allow m

end Hooks

theorem startsWith_append (a b p : JsString) (h : startsWith a p = true) :
    startsWith (a ++ b) p = true := by
  rw [startsWith_iff] at h ⊢
  exact h.trans (List.prefix_append a b)

variable (host : Host ε) (self : ConversationRuntime ε) (cfg : Settings ε)

section calling

variable (toolCall : ChatToolCall)

/-- The verdict of the hooks on a call, and what those that were run came to. -/
def verdict (e : ε) : Hooks.HookRunResult × List (JsString × HookOutcome) :=
  Hooks.judgeAll host .preToolUse toolCall.name
    (Hooks.preOutcomes host self.hookRunner toolCall.name (toolInput toolCall) e) Hooks.allow

def hookEvents (event : HookEvent) (ran : List (JsString × HookOutcome)) : List Event :=
  ran.map fun ran => .hook event ran.1 ran.2

/-- Arguments that are no JSON keep a call from the registry. -/
def dispatchedIf : List Event :=
  match host.parseJson (toolInput toolCall) with
  | .ok _ => [.dispatched toolCall]
  | .error _ => []

theorem executeToolCall_apply (m : Machine ε) :
    ∃ result w', executeToolCall host self cfg toolCall m =
        .ok result ⟨w', m.lastSummaryTurn, m.trace ++ dispatchedIf host toolCall, m.received⟩ ∧
      (startsWith result.content (js "ERROR:") = false →
        result.toolName = normalizeToolName toolCall.name) := by
  rw [executeToolCall, dispatchedIf]
  cases hinput : host.parseJson (toolInput toolCall) with
  | error error =>
    refine ⟨.text toolCall.name (js "ERROR: invalid JSON arguments: " ++ error.messageOf), m.world,
      ?_, fun hgood => ?_⟩
    · dsimp only
      rw [List.append_nil]
      rfl
    · rw [ToolExecutionResult.text, startsWith_append _ _ _ (by decide)] at hgood
      exact absurd hgood (by simp)
  | ok input =>
    dsimp only
    rw [get_bind, bind_of_ok (record_apply _ _), inWorld, onPart]
    obtain ⟨result, w', hexec, hname⟩ := self.toolRegistry.execute_ok host toolCall.name input
      { root := cfg.input.cwd
        approvalPolicy := cfg.approvalPolicy
        sandbox := cfg.sandbox
        maxPermission := some cfg.sandbox.permission
        permissionEnforcer := some cfg.permissionEnforcer
        interaction := self.createInteractionHandler m.world.env
        planMode := true } m.world
    dsimp only
    rw [hexec]
    exact ⟨result, w', rfl, fun _ => hname⟩

/-- The hooks after a call add their own events only. -/
theorem runPostHooks_apply (content : JsString) (m : Machine ε) :
    ∃ post e event ran, event ≠ .preToolUse ∧
      runPostHooks host self toolCall content m = .ok post (m.after e (hookEvents event ran)) := by
  rw [runPostHooks]
  split
  · obtain ⟨e, h⟩ := Hooks.runEach_apply host self.hookRunner .postToolUseFailure toolCall.name
      _ _ self.hookRunner.config.postToolUseFailure Hooks.allow m
    exact ⟨_, e, .postToolUseFailure, _, by decide, h⟩
  · obtain ⟨e, h⟩ := Hooks.runEach_apply host self.hookRunner .postToolUse toolCall.name
      _ _ self.hookRunner.config.postToolUse Hooks.allow m
    exact ⟨_, e, .postToolUse, _, by decide, h⟩

/-- What a call does: the hooks before it, the call itself unless they deny it, and the
hooks after it. -/
theorem callTool_apply (m : Machine ε) :
    ∃ result w' event ran, event ≠ .preToolUse ∧
      callTool host self cfg toolCall m =
        .ok result ⟨w', m.lastSummaryTurn, m.trace ++
          (hookEvents .preToolUse (verdict host self toolCall m.world.env).2 ++
            ((if (verdict host self toolCall m.world.env).1.denied then []
              else dispatchedIf host toolCall) ++ hookEvents event ran)), m.received⟩ ∧
      (startsWith result.content (js "ERROR:") = false →
        result.toolName = normalizeToolName toolCall.name) := by
  obtain ⟨e, hpre⟩ := Hooks.runPreToolUse_apply host self.hookRunner toolCall.name
    (toolInput toolCall) m
  have hverdict : Hooks.runPreToolUse host self.hookRunner toolCall.name (toolInput toolCall) m =
      .ok (verdict host self toolCall m.world.env).1
        (m.after e (hookEvents .preToolUse (verdict host self toolCall m.world.env).2)) := hpre
  rw [callTool]
  rw [bind_of_ok hverdict]
  generalize verdict host self toolCall m.world.env = judged
  obtain ⟨pre, ran⟩ := judged
  dsimp only
  by_cases hdenied : pre.denied = true
  · rw [if_pos hdenied, if_pos hdenied]
    refine ⟨.text toolCall.name (js "ERROR: blocked by PreToolUse hook" ++
      if pre.messages.isEmpty then [] else js ": " ++ join (js "; ") pre.messages),
      { m.world with env := e }, .postToolUse, [], by decide, ?_, fun hgood => ?_⟩
    · simp only [hookEvents, List.map_nil, List.append_nil]
      rfl
    · rw [ToolExecutionResult.text, startsWith_append _ _ _ (by decide)] at hgood
      exact absurd hgood (by simp)
  · rw [if_neg hdenied, if_neg hdenied]
    obtain ⟨result, w', hexec, hname⟩ := executeToolCall_apply host self cfg toolCall
      (m.after e (hookEvents .preToolUse ran))
    obtain ⟨post, e', event, later, hevent, hpost⟩ := runPostHooks_apply host self toolCall
      result.content ⟨w', m.lastSummaryTurn, m.trace ++ hookEvents .preToolUse ran ++
        dispatchedIf host toolCall, m.received⟩
    refine ⟨result, { w' with env := e' }, event, later, hevent, ?_, hname⟩
    rw [bind_of_ok hexec]
    refine (bind_of_ok hpost _).trans ?_
    simp only [Machine.after, List.append_assoc]
    rfl

end calling

end Solarcido.Conversation
