import Solarcido.Tools.Calls

namespace Solarcido.Tools

open Text ThrowingProgram GlobalToolRegistry

variable {ε : Type} (host : Host ε)

section tools

variable (name : JsString) (args : Json) (context : ToolExecutionContext ε) (w : World ε)

/-- The user agrees to a plan, or there is nobody to ask. -/
def Approves (interaction : Option (InteractionHandler ε)) (plan : JsString) (env : ε) : Prop :=
  match interaction with
  | none => True
  | some handler =>
    ∃ env', handler.askYesNo (js "Proceed with this plan?\n\n" ++ plan) env = .ok true env'

/-- A plan is given, and approved. -/
def PlanApproved : Prop :=
  ∃ plan, args.member (js "plan") = some (.str plan) ∧ Approves context.interaction plan w.env

theorem enterPlanModeTool_final :
    finalState (enterPlanModeTool host name context w) =
      if context.planMode then { w with planActive := true } else w := by
  rw [enterPlanModeTool]
  cases context.planMode <;> rfl

theorem requireString_ok_iff (value : Option Json) (s : JsString) :
    requireString value name = .ok s ↔ value = some (.str s) := by
  unfold requireString
  split <;> simp_all

theorem requireString_error {value : Option Json} {e : Thrown}
    (h : requireString value name = .error e) (s : JsString) : value ≠ some (.str s) := by
  rintro rfl
  simp [requireString] at h

theorem outside_apply {α : Type} (x : Effect ε α) :
    outside x w = match x w.env with
      | .ok a env => .ok a { w with env }
      | .error e env => .error e { w with env } := by
  rw [outside, onPart]
  cases x w.env <;> rfl

/-- With a plan given, `exit_plan_mode` ends plan mode exactly when it is approved. -/
theorem exitPlanModeTool_active_of_plan {plan : JsString}
    (hplan : args.member (js "plan") = some (.str plan)) :
    (finalState (exitPlanModeTool host name args context w)).planActive = true ↔
      w.planActive = true ∧ ¬ (context.planMode = true ∧
        Approves context.interaction plan w.env) := by
  have hread : (orThrow (requireString (args.member (js "plan")) (js "plan")) : Action ε JsString) w
      = .ok plan w := by
    rw [(requireString_ok_iff _ _ _).mpr hplan]
    rfl
  rw [exitPlanModeTool]
  rw [bind_of_ok hread, get_bind]
  by_cases hon : context.planMode = true ∧ w.planActive = true
  · obtain ⟨hmode, hactive⟩ := hon
    rw [if_neg (by simp [hmode, hactive])]
    cases hasked : context.interaction with
    | none =>
      simp only [hmode, hactive, Approves, and_self, not_true, and_false, iff_false]
      exact Bool.false_ne_true
    | some handler =>
      simp only [hmode, hactive, Approves, true_and]
      cases hask : handler.askYesNo (js "Proceed with this plan?\n\n" ++ plan) w.env with
      | error e env =>
        have hthrow : outside (handler.askYesNo (js "Proceed with this plan?\n\n" ++ plan)) w =
            .error e { w with env } := by rw [outside_apply, hask]
        rw [bind_of_error hthrow]
        simp [finalState, hactive]
      | ok answer env =>
        have hanswer : outside (handler.askYesNo (js "Proceed with this plan?\n\n" ++ plan)) w =
            .ok answer { w with env } := by rw [outside_apply, hask]
        rw [bind_of_ok hanswer]
        cases answer with
        | true =>
          simp only [if_true, EStateM.Result.ok.injEq, exists_eq', true_and, not_true, iff_false]
          exact Bool.false_ne_true
        | false =>
          simp only [Bool.false_eq_true, if_false, EStateM.Result.ok.injEq, false_and, exists_false,
            not_false_iff, iff_true]
          exact hactive
  · have hoff : (!(context.planMode && w.planActive)) = true := by
      rw [Bool.not_eq_true', ← Bool.not_eq_true, Bool.and_eq_true]
      exact hon
    rw [if_pos hoff]
    change w.planActive = true ↔ _
    exact ⟨fun h => ⟨h, fun hboth => hon ⟨hboth.1, h⟩⟩, And.left⟩

/-- Plan mode is left exactly with an approved plan. -/
theorem exitPlanModeTool_active :
    (finalState (exitPlanModeTool host name args context w)).planActive = true ↔
      w.planActive = true ∧ ¬ (context.planMode = true ∧ PlanApproved args context w) := by
  cases hplan : requireString (args.member (js "plan")) (js "plan") with
  | error e =>
    have hno : ¬ PlanApproved args context w := fun ⟨plan, h, _⟩ =>
      requireString_error _ hplan plan h
    simp only [hno, and_false, not_false_iff, and_true]
    rw [exitPlanModeTool]
    rw [hplan]
    rfl
  | ok plan =>
    have hmember := (requireString_ok_iff _ _ _).mp hplan
    have happroved : PlanApproved args context w ↔ Approves context.interaction plan w.env := by
      simp [PlanApproved, hmember]
    rw [happroved, exitPlanModeTool_active_of_plan host name args context w hmember]

end tools

section calls

/-- A call that enters plan mode. -/
def Enters (c : ToolCall ε) : Prop :=
  c.context.planMode = true ∧ normalizeToolName c.name = js "enter_plan_mode"

/-- A call that leaves plan mode: its plan is approved, or there is nobody to ask. -/
def Exits (w : World ε) (c : ToolCall ε) : Prop :=
  c.context.planMode = true ∧ normalizeToolName c.name = js "exit_plan_mode" ∧
    PlanApproved (objectInput c.input) c.context w

theorem plan_mode_specs : ∀ name ∈ [js "enter_plan_mode", js "exit_plan_mode"],
    ∃ spec ∈ BUILTIN_TOOL_SPECS, spec.name = name ∧ spec.requiredPermission = .readOnly := by
  decide +kernel

/-- The tools that switch plan mode run under any ceiling, in plan mode or not. -/
theorem plan_mode_tool_runs (w : World ε) (c : ToolCall ε) (name : JsString)
    (hmem : name ∈ [js "enter_plan_mode", js "exit_plan_mode"])
    (hname : normalizeToolName c.name = name) :
    c.run host w =
      finalState (executeBuiltinTool host name c.input (c.handlerContext host) w) := by
  obtain ⟨spec, hspec, rfl, hread⟩ := plan_mode_specs name hmem
  exact ToolCall.run_of_executed host (ToolCall.executed_of_readOnly host hspec hname.symm hread)

/-- What a call does to the plan-mode flag. -/
theorem run_planActive (w : World ε) (c : ToolCall ε) :
    (c.run host w).planActive = true ↔ Enters c ∨ w.planActive = true ∧ ¬ Exits w c := by
  by_cases henter : normalizeToolName c.name = js "enter_plan_mode"
  · have hnoexit : ¬ Exits w c := by
      rintro ⟨-, hexit, -⟩
      rw [henter] at hexit
      exact absurd hexit (by decide)
    rw [plan_mode_tool_runs host w c _ (by simp) henter]
    change (finalState (enterPlanModeTool host _ (c.handlerContext host) w)).planActive = true ↔ _
    have hsame : (c.handlerContext host).planMode = c.context.planMode := rfl
    rw [enterPlanModeTool_final, hsame]
    simp only [Enters, henter, and_true, hnoexit, not_false_iff]
    by_cases hmode : c.context.planMode = true
    · simp [hmode]
    · simp [hmode]
  · have hnoenter : ¬ Enters c := fun h => henter h.2
    simp only [hnoenter, false_or]
    by_cases hexit : normalizeToolName c.name = js "exit_plan_mode"
    · rw [plan_mode_tool_runs host w c _ (by simp) hexit]
      simp only [Exits, hexit, true_and]
      exact exitPlanModeTool_active host (js "exit_plan_mode") (objectInput c.input)
        (c.handlerContext host) w
    · have hnoexit : ¬ Exits w c := fun h => hexit h.2.1
      simp only [hnoexit, not_false_iff, and_true]
      cases hexec : c.executed host w with
      | none => rw [ToolCall.run_of_refused host hexec]
      | some spec =>
        obtain ⟨-, hname, -, -⟩ := (ToolCall.executed_iff host w c spec).mp hexec
        have hsame := keeps_iff.mp (executeBuiltinTool_plan host spec.name (c.handlerContext host)
          c.input (hname ▸ henter) (hname ▸ hexit)) w
        rw [ToolCall.run_of_executed host hexec, hsame]

def runCalls : List (ToolCall ε) → World ε → World ε
  | [], w => w
  | c :: calls, w => runCalls calls (c.run host w)

/-- No call leaves plan mode where it is made. -/
def Stays : List (ToolCall ε) → World ε → Prop
  | [], _ => True
  | c :: calls, w => ¬ Exits w c ∧ Stays calls (c.run host w)

/-- Plan mode lasts as long as no call leaves it. -/
theorem runCalls_planActive (calls : List (ToolCall ε)) (w : World ε)
    (hactive : w.planActive = true) (hstays : Stays host calls w) : (runCalls host calls w).planActive = true := by
  induction calls generalizing w with
  | nil => exact hactive
  | cons c calls ih =>
    obtain ⟨hno, hlater⟩ := hstays
    exact ih (c.run host w) ((run_planActive host w c).mpr (Or.inr ⟨hactive, hno⟩)) hlater

/-- In plan mode a tool that is not read-only is not run, whatever its name is spelled
like. -/
theorem blocked_in_plan_mode (w : World ε) (c : ToolCall ε) (hshared : c.context.planMode = true)
    (hactive : w.planActive = true) (spec : ToolSpec) (hspec : spec ∈ BUILTIN_TOOL_SPECS)
    (hname : spec.name = normalizeToolName c.name) (hperm : spec.requiredPermission ≠ .readOnly) :
    c.executed host w = none ∧ c.run host w = w := by
  have hnone : c.executed host w = none := by
    cases hexec : c.executed host w with
    | none => rfl
    | some found =>
      obtain ⟨hfound, hfoundname, -, hplan⟩ := (ToolCall.executed_iff host w c found).mp hexec
      obtain rfl := List.inj_on_of_nodup_map builtin_names_nodup hspec hfound
        (hname.trans hfoundname.symm)
      obtain ⟨exit, hexit, hexitname, hread⟩ := plan_mode_specs (js "exit_plan_mode") (by simp)
      have hother : spec.name ≠ js "exit_plan_mode" := by
        intro h
        obtain rfl := List.inj_on_of_nodup_map builtin_names_nodup hspec hexit
          (h.trans hexitname.symm)
        exact hperm hread
      have hallows := hplan (by rw [hshared, hactive]; rfl) hother
      exact absurd ((permissionAllows_readOnly _).mp hallows) hperm
  exact ⟨hnone, ToolCall.run_of_refused host hnone⟩

/-- From a call that enters plan mode to one that leaves it: the flag is set, a tool that
is not read-only is not run, and the flag goes with an approved plan only. -/
theorem plan_mode_holds (w : World ε) (enter : ToolCall ε) (between : List (ToolCall ε))
    (c : ToolCall ε) (henter : Enters enter) (hstays : Stays host between (enter.run host w))
    (hshared : c.context.planMode = true) :
    let now := runCalls host (enter :: between) w
    now.planActive = true ∧
      (∀ spec ∈ BUILTIN_TOOL_SPECS, spec.name = normalizeToolName c.name →
        spec.requiredPermission ≠ .readOnly → c.executed host now = none ∧ c.run host now = now) ∧
      ((c.run host now).planActive = false ↔ Exits now c) := by
  have hentered : (enter.run host w).planActive = true :=
    (run_planActive host w enter).mpr (Or.inl henter)
  have hactive : (runCalls host (enter :: between) w).planActive = true :=
    runCalls_planActive host between (enter.run host w) hentered hstays
  refine ⟨hactive, fun spec hspec hname hperm =>
    blocked_in_plan_mode host _ c hshared hactive spec hspec hname hperm, ?_⟩
  rw [← Bool.not_eq_true, run_planActive, hactive]
  constructor
  · intro h
    by_contra hno
    exact h (Or.inr ⟨rfl, hno⟩)
  · rintro hexit (hagain | ⟨-, hno⟩)
    · have hsame := hagain.2.symm.trans hexit.2.1
      exact absurd hsame (by decide)
    · exact hno hexit

/-- A session where the user turns every plan down. -/
def strictContext : ToolExecutionContext Unit where
  root := js "/w"
  approvalPolicy := .onRequest
  sandbox := .workspaceWrite
  maxPermission := some .dangerFullAccess
  permissionEnforcer := none
  interaction := some ⟨fun _ => pure [], fun _ => pure false, fun _ _ => pure []⟩
  planMode := true

theorem plan_mode_holds_rejected :
    let host := Host.bare (ε := Unit) fun _ => .error (.string (js "no JSON"))
    let exit : ToolCall Unit :=
      ⟨js "exit-plan-mode", .ofMembers [("plan", .str (js "p"))], strictContext⟩
    let now := runCalls host [⟨js "Enter-Plan-Mode", .null, strictContext⟩, exit]
      ⟨(), .dir [], false⟩
    now.planActive = true ∧
      (∀ spec ∈ BUILTIN_TOOL_SPECS, spec.name = normalizeToolName (js " Bash ") →
        spec.requiredPermission ≠ .readOnly →
        ToolCall.executed host now ⟨js " Bash ", .null, strictContext⟩ = none ∧
          ToolCall.run host now ⟨js " Bash ", .null, strictContext⟩ = now) ∧
      ((ToolCall.run host now ⟨js " Bash ", .null, strictContext⟩).planActive = false ↔
        Exits now ⟨js " Bash ", .null, strictContext⟩) := by
  refine plan_mode_holds _ _ ⟨js "Enter-Plan-Mode", .null, strictContext⟩ [_]
    ⟨js " Bash ", .null, strictContext⟩ ⟨rfl, by decide +kernel⟩ ⟨?_, trivial⟩ rfl
  rintro ⟨-, -, plan, -, env, hyes⟩
  have hno := congrArg (fun r => match r with
    | EStateM.Result.ok answer _ => answer
    | EStateM.Result.error _ _ => false) hyes
  exact absurd hno Bool.false_ne_true

end calls

end Solarcido.Tools
