import Solarcido.Conversation.Steps

namespace Solarcido.Conversation

open Text Tools Api ThrowingProgram

variable {ε : Type} (host : Host ε)

section outcomes

/-- The command was run and came back with exit code 0. -/
def ExitsWithZero : HookOutcome → Prop
  | .exited exec => exec.exitCode = some 0
  | .failedToStart _ => False

def Exits : HookOutcome → Prop
  | .exited _ => True
  | .failedToStart _ => False

/-- An object on stdout asks for a stop by its `decision` or its `continue`. -/
def StdoutBlocks (stdout : JsString) : Prop :=
  trim stdout ≠ [] ∧ ∃ root, host.parseJson (trim stdout) = .ok root ∧
    (root.member (js "decision") = some (.str (js "block")) ∨
      root.member (js "continue") = some (.bool false))

/-- An object on stdout denies by its `hookSpecificOutput.permissionDecision`. -/
def StdoutDeniesPermission (stdout : JsString) : Prop :=
  trim stdout ≠ [] ∧ ∃ root, host.parseJson (trim stdout) = .ok root ∧
    ∃ specific, root.member (js "hookSpecificOutput") = some specific ∧
      specific.member (js "permissionDecision") = some (.str (js "deny"))

/-- A denial by exit code 2, or at exit code 0 by `decision` or `continue`. -/
def Blocks : HookOutcome → Prop
  | .exited exec =>
    exec.exitCode = some 2 ∨ exec.exitCode = some 0 ∧ StdoutBlocks host exec.stdout
  | .failedToStart _ => False

/-- A denial by exit code 2, or at exit code 0 by any of the three members. -/
def Denies : HookOutcome → Prop
  | .exited exec =>
    exec.exitCode = some 2 ∨ exec.exitCode = some 0 ∧
      (StdoutBlocks host exec.stdout ∨ StdoutDeniesPermission host exec.stdout)
  | .failedToStart _ => False

theorem Blocks.denies {outcome : HookOutcome} (h : Blocks host outcome) : Denies host outcome := by
  cases outcome with
  | failedToStart error => exact h
  | exited exec => exact h.imp_right fun hzero => ⟨hzero.1, Or.inl hzero.2⟩

end outcomes

section judging

variable (event : HookEvent) (toolName command : JsString)

theorem stringMember_eq_some_iff (object : Json) (key : String) (s : JsString) :
    Hooks.stringMember object key = some s ↔ object.member (js key) = some (.str s) := by
  unfold Hooks.stringMember Json.asString
  split <;> simp_all

theorem isFalse_iff (value : Option Json) :
    Hooks.isFalse value = true ↔ value = some (.bool false) := by
  unfold Hooks.isFalse
  split <;> simp_all

theorem member_of_not_object {root : Json} (h : root.isObject = false) (key : JsString) :
    root.member key = none := by
  cases root <;> first | rfl | simp [Json.isObject] at h

theorem parseHookObject_deny_iff (object : Json) (stdout : JsString) :
    (Hooks.parseHookObject host object stdout).deny = true ↔
      object.member (js "decision") = some (.str (js "block")) ∨
        object.member (js "continue") = some (.bool false) := by
  rw [Hooks.parseHookObject]
  dsimp only
  rw [Bool.or_eq_true, isFalse_iff, decide_eq_true_iff, stringMember_eq_some_iff, or_comm]

/-- What makes the code take an output for a denial. -/
theorem parseHookOutput_deny_iff (stdout stderr : JsString) :
    (Hooks.parseHookOutput host event toolName command (trim stdout) stderr).deny = true ↔
      StdoutBlocks host stdout := by
  rw [Hooks.parseHookOutput, StdoutBlocks]
  by_cases hempty : trim stdout = []
  · simp [hempty, Hooks.ParsedHookOutput.ofMessages]
  · simp only [List.isEmpty_iff, hempty, if_false, ne_eq, not_false_iff, true_and]
    cases hroot : host.parseJson (trim stdout) with
    | error e =>
      simp only [reduceCtorEq, false_and, exists_false, iff_false]
      split <;> simp [Hooks.ParsedHookOutput.ofMessages]
    | ok root =>
      simp only [Except.ok.injEq, exists_eq_left']
      cases hobject : root.isObject with
      | true =>
        rw [if_pos rfl]
        exact parseHookObject_deny_iff host root (trim stdout)
      | false =>
        simp [member_of_not_object hobject, Hooks.ParsedHookOutput.ofMessages]

/-- The next hook is run exactly after an exit with 0 that does not block. -/
theorem judge_next_iff (result : Hooks.HookRunResult) (outcome : HookOutcome) :
    (Hooks.judge host event toolName command result outcome).2 = true ↔
      ExitsWithZero outcome ∧ ¬ Blocks host outcome := by
  cases outcome with
  | failedToStart error => simp [Hooks.judge, ExitsWithZero]
  | exited exec =>
    have hdeny := parseHookOutput_deny_iff host event toolName command exec.stdout
      (trim exec.stderr)
    dsimp only [Hooks.judge, ExitsWithZero, Blocks]
    by_cases hzero : exec.exitCode = some 0
    · rw [← hdeny]
      simp only [hzero, if_true]
      split <;> simp_all
    · simp only [hzero, if_false]
      split <;> simp

/-- A hook's denial is a block. -/
theorem judge_denied_iff (result : Hooks.HookRunResult) (outcome : HookOutcome) :
    (Hooks.judge host event toolName command result outcome).1.denied = true ↔
      result.denied = true ∨ Blocks host outcome := by
  cases outcome with
  | failedToStart error => simp [Hooks.judge, Blocks]
  | exited exec =>
    have hdeny := parseHookOutput_deny_iff host event toolName command exec.stdout
      (trim exec.stderr)
    dsimp only [Hooks.judge, Blocks]
    by_cases hzero : exec.exitCode = some 0
    · rw [← hdeny]
      simp only [hzero, if_true]
      split <;> simp_all [Hooks.mergeParsed]
    · simp only [hzero, if_false, false_and, or_false]
      split <;> simp_all [Hooks.mergeParsed]

end judging

section lists

variable (toolName : JsString)

/-- A hook blocks, and those before it exit with 0. -/
def BlockedInTime (outcomes : List (JsString × HookOutcome)) : Prop :=
  ∃ before ran after, outcomes = before ++ ran :: after ∧ Blocks host ran.2 ∧
    ∀ earlier ∈ before, ExitsWithZero earlier.2

/-- Every hook comes back without denying, and all but the last exit with 0. -/
def Clean (outcomes : List (JsString × HookOutcome)) : Prop :=
  (∀ ran ∈ outcomes, Exits ran.2 ∧ ¬ Denies host ran.2) ∧
    ∀ ran ∈ outcomes.dropLast, ExitsWithZero ran.2

theorem blockedInTime_cons (ran : JsString × HookOutcome) (rest : List (JsString × HookOutcome)) :
    BlockedInTime host (ran :: rest) ↔
      Blocks host ran.2 ∨ ExitsWithZero ran.2 ∧ BlockedInTime host rest := by
  constructor
  · rintro ⟨before, found, after, hsplit, hblocks, hzero⟩
    cases before with
    | nil =>
      obtain ⟨rfl, -⟩ := List.cons.inj hsplit
      exact Or.inl hblocks
    | cons first before =>
      obtain ⟨rfl, hrest⟩ := List.cons.inj hsplit
      exact Or.inr ⟨hzero ran (by simp), before, found, after, hrest, hblocks,
        fun earlier h => hzero earlier (by simp [h])⟩
  · rintro (hblocks | ⟨hran, before, found, after, rfl, hblocks, hzero⟩)
    · exact ⟨[], ran, rest, rfl, hblocks, by simp⟩
    · refine ⟨ran :: before, found, after, rfl, hblocks, fun earlier h => ?_⟩
      rcases List.mem_cons.mp h with rfl | h
      · exact hran
      · exact hzero earlier h

theorem judgeAll_denied_iff (outcomes : List (JsString × HookOutcome))
    (result : Hooks.HookRunResult) (hresult : result.denied = false) :
    (Hooks.judgeAll host .preToolUse toolName outcomes result).1.denied = true ↔
      BlockedInTime host outcomes := by
  induction outcomes generalizing result with
  | nil =>
    simp only [Hooks.judgeAll, hresult, Bool.false_eq_true, false_iff]
    rintro ⟨before, ran, after, hsplit, -⟩
    simp at hsplit
  | cons ran rest ih =>
    obtain ⟨command, outcome⟩ := ran
    have hnext := judge_next_iff host .preToolUse toolName command result outcome
    have hdenied := judge_denied_iff host .preToolUse toolName command result outcome
    rw [hresult] at hdenied
    rw [blockedInTime_cons, Hooks.judgeAll]
    cases hjudge : Hooks.judge host .preToolUse toolName command result outcome with
    | mk judged next =>
    rw [hjudge] at hnext hdenied
    cases next with
    | false =>
      have hstop : ¬ (ExitsWithZero outcome ∧ ¬ Blocks host outcome) := by simpa using hnext.symm
      simp only [Bool.false_eq_true, if_false, false_or] at hdenied ⊢
      rw [hdenied]
      constructor
      · exact Or.inl
      · rintro (hblocks | ⟨hzero, -⟩)
        · exact hblocks
        · exact Classical.byContradiction fun hno => hstop ⟨hzero, hno⟩
    | true =>
      obtain ⟨hzero, hno⟩ := hnext.mp rfl
      have hpassed : judged.denied = false := by
        rw [← Bool.not_eq_true]
        intro h
        exact hno ((hdenied.mp h).resolve_left (by simp))
      simp only [if_true]
      rw [ih judged hpassed]
      simp [hzero, hno]

/-- Hooks that are not blocked are all run, without a denial among them, exactly when
their outcomes are clean. -/
theorem judgeAll_ran_iff (outcomes : List (JsString × HookOutcome))
    (result : Hooks.HookRunResult) :
    (((Hooks.judgeAll host .preToolUse toolName outcomes result).2.map Prod.fst =
        outcomes.map Prod.fst) ∧
      ∀ ran ∈ (Hooks.judgeAll host .preToolUse toolName outcomes result).2,
        Exits ran.2 ∧ ¬ Denies host ran.2) ↔ Clean host outcomes := by
  induction outcomes generalizing result with
  | nil => simp [Hooks.judgeAll, Clean]
  | cons ran rest ih =>
    obtain ⟨command, outcome⟩ := ran
    have hnext := judge_next_iff host .preToolUse toolName command result outcome
    rw [Hooks.judgeAll]
    cases hjudge : Hooks.judge host .preToolUse toolName command result outcome with
    | mk judged next =>
    rw [hjudge] at hnext
    cases next with
    | false =>
      have hstop : ¬ (ExitsWithZero outcome ∧ ¬ Blocks host outcome) := by simpa using hnext.symm
      cases rest with
      | nil => simp [Clean]
      | cons second rest =>
        simp only [Bool.false_eq_true, if_false, List.map_cons, List.map_nil, List.cons.injEq,
          true_and, reduceCtorEq, false_and, false_iff]
        rintro ⟨hall, hzero⟩
        have hfirst := hall (command, outcome) (by simp)
        exact hstop ⟨hzero (command, outcome) (by simp),
          fun hblocks => hfirst.2 (Blocks.denies host hblocks)⟩
    | true =>
      obtain ⟨hzero, -⟩ := hnext.mp rfl
      simp only [if_true, List.map_cons, List.cons.injEq, true_and, List.forall_mem_cons]
      have hrest := ih judged
      rw [Clean] at hrest ⊢
      simp only [List.forall_mem_cons]
      have hlast : (∀ ran ∈ ((command, outcome) :: rest).dropLast, ExitsWithZero ran.2) ↔
          ∀ ran ∈ rest.dropLast, ExitsWithZero ran.2 := by
        cases rest with
        | nil => simp
        | cons second rest => simp [List.dropLast, hzero]
      rw [hlast]
      tauto

end lists

section gate

variable (self : ConversationRuntime ε) (cfg : Settings ε) (toolCall : ChatToolCall)

/-- The hooks before a call, as the events show them. -/
def preHooks (events : List Event) : List (JsString × HookOutcome) :=
  events.filterMap fun
    | .hook .preToolUse command outcome => some (command, outcome)
    | _ => none

/-- A call goes to the registry only after every configured hook has come back and none
has denied it. -/
def Gated (events : List Event) : Prop :=
  .dispatched toolCall ∈ events →
    (preHooks events).map Prod.fst = self.hookRunner.config.preToolUse ∧
      ∀ ran ∈ preHooks events, Exits ran.2 ∧ ¬ Denies host ran.2

theorem hookOutcomes_commands (runner : Hooks.HookRunner ε) (env : List (JsString × JsString))
    (payload : JsString) (commands : List JsString) (e : ε) :
    (Hooks.hookOutcomes runner env payload commands e).map Prod.fst = commands := by
  induction commands generalizing e with
  | nil => rfl
  | cons command commands ih =>
    rw [Hooks.hookOutcomes, List.map_cons]
    exact congrArg (command :: ·) (ih _)

theorem preHooks_append (a b : List Event) : preHooks (a ++ b) = preHooks a ++ preHooks b :=
  List.filterMap_append

theorem preHooks_hookEvents (ran : List (JsString × HookOutcome)) :
    preHooks (hookEvents .preToolUse ran) = ran := by
  induction ran with
  | nil => rfl
  | cons r ran ih => exact congrArg (r :: ·) ih

theorem preHooks_others {event : HookEvent} (h : event ≠ .preToolUse)
    (ran : List (JsString × HookOutcome)) : preHooks (hookEvents event ran) = [] := by
  induction ran with
  | nil => rfl
  | cons r ran ih => cases event <;> first | exact absurd rfl h | exact ih

theorem not_dispatched_hookEvents (event : HookEvent) (ran : List (JsString × HookOutcome)) :
    .dispatched toolCall ∉ hookEvents event ran := by
  simp [hookEvents]

/-- What the trace of a call shows of its hooks and of its dispatch. -/
theorem callTool_events (m : Machine ε) :
    ∃ result m' events, callTool host self cfg toolCall m = .ok result m' ∧
      m'.trace = m.trace ++ events ∧
      preHooks events = (verdict host self toolCall m.world.env).2 ∧
      (.dispatched toolCall ∈ events ↔ (verdict host self toolCall m.world.env).1.denied = false ∧
        ∃ input, host.parseJson (toolInput toolCall) = .ok input) := by
  obtain ⟨result, w', event, later, hevent, hcall, -⟩ := callTool_apply host self cfg toolCall m
  refine ⟨result, _, _, hcall, rfl, ?_, ?_⟩
  · rw [preHooks_append, preHooks_append, preHooks_hookEvents, preHooks_others hevent]
    have hnone : preHooks (if (verdict host self toolCall m.world.env).1.denied then []
        else dispatchedIf host toolCall) = [] := by
      rw [dispatchedIf]
      split
      · rfl
      · split <;> rfl
    rw [hnone, List.append_nil, List.append_nil]
  · simp only [List.mem_append, not_dispatched_hookEvents, false_or, or_false]
    rw [dispatchedIf]
    cases (verdict host self toolCall m.world.env).1.denied <;>
      cases host.parseJson (toolInput toolCall) <;> simp

/-- A call is gated by its hooks exactly when its arguments are no JSON, or a hook blocks
it after hooks that exit with 0, or all hooks come back clean. -/
theorem callTool_gated_iff (m : Machine ε) :
    ∃ result m' events, callTool host self cfg toolCall m = .ok result m' ∧
      m'.trace = m.trace ++ events ∧
      (Gated host self toolCall events ↔
        (∃ error, host.parseJson (toolInput toolCall) = .error error) ∨
          BlockedInTime host (Hooks.preOutcomes host self.hookRunner toolCall.name
            (toolInput toolCall) m.world.env) ∨
          Clean host (Hooks.preOutcomes host self.hookRunner toolCall.name (toolInput toolCall)
            m.world.env)) := by
  obtain ⟨result, m', events, hcall, htrace, hpre, hdispatched⟩ :=
    callTool_events host self cfg toolCall m
  refine ⟨result, m', events, hcall, htrace, ?_⟩
  have hcommands : self.hookRunner.config.preToolUse =
      (Hooks.preOutcomes host self.hookRunner toolCall.name (toolInput toolCall)
        m.world.env).map Prod.fst := (hookOutcomes_commands _ _ _ _ _).symm
  have hblocked := judgeAll_denied_iff host toolCall.name
    (Hooks.preOutcomes host self.hookRunner toolCall.name (toolInput toolCall) m.world.env)
    Hooks.allow rfl
  have hclean := judgeAll_ran_iff host toolCall.name
    (Hooks.preOutcomes host self.hookRunner toolCall.name (toolInput toolCall) m.world.env)
    Hooks.allow
  rw [Gated]
  rw [hpre, hdispatched, hcommands, ← hblocked, ← hclean]
  cases hjson : host.parseJson (toolInput toolCall) with
  | error error => simp
  | ok input =>
    simp only [Except.ok.injEq, exists_eq', and_true, reduceCtorEq, exists_false, false_or]
    change (_ → _) ↔ (verdict host self toolCall m.world.env).1.denied = true ∨ _
    cases hdenied : (verdict host self toolCall m.world.env).1.denied with
    | true => simp
    | false =>
      simp only [forall_const, Bool.false_eq_true, false_or]
      rfl

/-- Two hooks: the first fails with exit code 1, the second denies. -/
def failThenDeny : Hooks.HookRunner (List ChatMessage) where
  config := ⟨[js "lint", js "guard"], [], []⟩
  execute command _ _ :=
    pure ⟨if command = js "guard" then some 2 else some 1, [], []⟩

/-- The first hook's failure lets a call past the second hook's denial. -/
theorem failure_hides_denial :
    ¬ ∀ (toolCall : ChatToolCall) (m : Machine (List ChatMessage)) (result : ToolExecutionResult)
      (m' : Machine (List ChatMessage)) (events : List Event),
      let host := hostWith [(js "\x7b\x7d", .obj [])]
      let self := scripted failThenDeny
      callTool host self (settings host self (turnFor (js "look"))) toolCall m = .ok result m' →
        m'.trace = m.trace ++ events → Gated host self toolCall events := by
  intro h
  obtain ⟨result, m', events, hcall, htrace, hpre, hdispatched⟩ := callTool_events
    (hostWith [(js "\x7b\x7d", .obj [])]) (scripted failThenDeny)
    (settings (hostWith [(js "\x7b\x7d", .obj [])]) (scripted failThenDeny) (turnFor (js "look")))
    ⟨js "1", js "list_files", []⟩ (startWith [])
  obtain ⟨hran, -⟩ := h _ _ _ _ _ hcall htrace (hdispatched.mpr ⟨by decide +kernel, .obj [], rfl⟩)
  rw [hpre] at hran
  exact absurd hran (by decide +kernel)

end gate

end Solarcido.Conversation
