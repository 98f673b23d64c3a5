import Solarcido.Agents.Orchestration
import Solarcido.Lib.Serial
import Solarcido.Lib.Traces

namespace Solarcido.Agents

open Text Tools Api ThrowingProgram GlobalToolRegistry Traces LeaderGroups
open Conversation (AnswersTo Dialogue assistantMessage callsOf isTool toolInput toolMessage)

variable {ε α : Type}

section worlds

variable (host : Host ε) (job : Job ε)

/-- A law of the world, as one of the workshop. -/
def OnWorld (R : World ε → World ε → Prop) (m m' : Workshop ε) : Prop := R m.world m'.world

theorem onWorld {R : World ε → World ε → Prop} (hR : IsFrame R) : IsFrame (OnWorld R) where
  refl m := hR.refl m.world
  trans a b c := hR.trans a.world b.world c.world

theorem keeps_inWorld {R : World ε → World ε → Prop} {x : Action ε α} (h : Keeps R x) :
    Keeps (OnWorld R) (inWorld x) :=
  keeps_iff.mpr fun m => by
    rw [inWorld, finalState_onPart]
    exact keeps_iff.mp h m.world

section laws

-- A law that holds wherever neither the files nor the plan-mode flag have changed.
variable {R : World ε → World ε → Prop} (hR : IsFrame R)
  (hsame : ∀ w w', SameFilesAndPlan w w' → R w w') (agent : Agent)

include hR in
theorem keeps_record (e : AgentEvent) : Keeps (OnWorld R) (record e) :=
  keeps_modify fun m => hR.refl m.world

include hsame in
theorem keeps_client (request : AgentRequest) :
    Keeps (OnWorld R) (inWorld (outside (job.client request))) :=
  keeps_inWorld ((keeps_outside _).mono hsame)

include hR hsame

theorem createPlan_keeps : Keeps (OnWorld R) (createPlan host job) := by
  refine keeps_bind (onWorld hR) (keeps_record hR _) fun _ => ?_
  refine keeps_bind (onWorld hR) (keeps_client job hsame _) fun response => ?_
  exact keeps_ite (fun _ => keeps_throw (onWorld hR) _)
    fun _ => keeps_inWorld (keeps_orThrow hR _)

-- The agent's calls keep the law.
variable (hcalls : ∀ toolCall, Keeps R
  (executeToolCall host job.cwd toolCall agent.approvalPolicy agent.sandbox))

include hcalls

omit hsame in
theorem runToolCalls_keeps (calls : List ChatToolCall) (dialogue : Dialogue) :
    Keeps (OnWorld R) (runToolCalls host job agent calls dialogue) := by
  induction calls generalizing dialogue with
  | nil => exact keeps_pure (onWorld hR) _
  | cons toolCall pending ih =>
    refine keeps_bind (onWorld hR) (keeps_inWorld (hcalls toolCall)) fun result => ?_
    refine keeps_bind (onWorld hR) (keeps_record hR _) fun _ => ?_
    cases result.finish with
    | some finish => exact keeps_pure (onWorld hR) _
    | none => exact ih _

theorem runTurn_keeps (dialogue : Dialogue) :
    Keeps (OnWorld R) (runTurn host job agent dialogue) := by
  refine keeps_bind (onWorld hR) (keeps_record hR _) fun _ => ?_
  refine keeps_bind (onWorld hR) (keeps_client job hsame _) fun response => ?_
  cases response.message with
  | none => exact keeps_throw (onWorld hR) _
  | some message =>
    exact keeps_bind (onWorld hR) (keeps_record hR _)
      fun _ => runToolCalls_keeps host job hR agent hcalls _ _

theorem runAgent_keeps (turns : Nat) (dialogue : Dialogue) :
    Keeps (OnWorld R) (runAgent host job agent turns dialogue) := by
  induction turns generalizing dialogue with
  | zero => exact keeps_pure (onWorld hR) _
  | succ turns ih =>
    refine keeps_bind (onWorld hR) (runTurn_keeps host job hR hsame agent hcalls dialogue) ?_
    rintro ⟨after, finish⟩
    cases finish with
    | some finish => exact keeps_pure (onWorld hR) _
    | none => exact ih after

theorem conduct_keeps (turns : Nat) {next : FinishPayload → AgentM ε (Option α)}
    (hnext : ∀ finish, Keeps (OnWorld R) (next finish)) :
    Keeps (OnWorld R) (conduct host job agent turns next) := by
  refine keeps_bind (onWorld hR) (runAgent_keeps host job hR hsame agent hcalls turns _) ?_
  rintro (_ | ⟨dialogue, finish⟩)
  · exact keeps_pure (onWorld hR) _
  · exact hnext finish

end laws

end worlds

section confinement

variable (host : Host ε) (job : Job ε)

/-- The plan-mode flag and the files of the workspace are as before, the todo store set apart. -/
structure KeptButTodos (root : JsString) (w w' : World ε) : Prop where
  plan : w'.planActive = w.planActive
  files : ∀ p, resolveRoot host root <+: p → p ≠ todoStorePath host root →
    fileAt (some w'.fs) p = fileAt (some w.fs) p

variable {host} in
theorem keptButTodos {root : JsString} : IsFrame (KeptButTodos (ε := ε) host root) where
  refl _ := ⟨rfl, fun _ _ _ => rfl⟩
  trans _ _ _ hab hbc :=
    ⟨hbc.plan.trans hab.plan,
      fun p hp hstore => (hbc.files p hp hstore).trans (hab.files p hp hstore)⟩

theorem KeptButTodos.of_same {root : JsString} {w w' : World ε} (h : SameFilesAndPlan w w') :
    KeptButTodos host root w w' := ⟨h.2, fun p _ _ => by rw [h.1]⟩

variable (root : JsString) (approvalPolicy : ApprovalPolicy) (sandbox : SandboxMode)

/-- What an agent's call does to the world is what a call of the registry does. -/
theorem executeToolCall_keeps {R : World ε → World ε → Prop} (hR : IsFrame R)
    (toolCall : ChatToolCall) (hrun : ∀ w input, R w
      (ToolCall.run host w ⟨toolCall.name, input, callContext root approvalPolicy sandbox⟩)) :
    Keeps R (executeToolCall host root toolCall approvalPolicy sandbox) := by
  rw [keeps_iff, executeToolCall]
  intro w
  cases host.parseJson (toolInput toolCall) with
  | error error => exact hR.refl w
  | ok input => exact hrun w input

/-- Without a plan-mode flag of its own a call leaves the flag alone. -/
theorem run_samePlan (w : World ε) (c : ToolCall ε) (hplan : c.context.planMode = false) :
    SamePlan w (c.run host w) := by
  have hno : c.context.planMode ≠ true := by
    rw [hplan]
    exact Bool.false_ne_true
  have hflag : (c.run host w).planActive = true ↔ w.planActive = true := by
    rw [run_planActive]
    constructor
    · rintro (henters | ⟨hactive, -⟩)
      · exact absurd henters.1 hno
      · exact hactive
    · exact fun hactive => Or.inr ⟨hactive, fun hexits => hno hexits.1⟩
  exact Bool.eq_iff_iff.mpr hflag

/-- A call at the read-only ceiling changes no file of the workspace but the todo store. -/
theorem run_keeps_others (w : World ε) (c : ToolCall ε)
    (hceiling : (getPermissionEnforcer host c.context).ceiling = .readOnly) (p : Path)
    (hp : resolveRoot host c.context.root <+: p) (hstore : p ≠ todoStorePath host c.context.root) :
    fileAt (some (c.run host w).fs) p = fileAt (some w.fs) p := by
  by_cases hname : normalizeToolName c.name = js "todo_write"
  · rw [todo_write_runs host w c hname, todoWriteTool_final]
    cases parseTodos ((objectInput c.input).member (js "todos")) with
    | error message => rfl
    | ok todos =>
      obtain ⟨-, hfiles⟩ | ⟨-, hfiles⟩ :=
        writeTodoStore_files host (todoStorePath host c.context.root) todos w
      · exact (hfiles p).trans (if_neg hstore)
      · exact hfiles p
  · exact (run_keeps_iff host w c hceiling).mpr (fun h => absurd h hname) p hp

theorem executeToolCall_samePlan (toolCall : ChatToolCall) :
    Keeps (SamePlan (ε := ε)) (executeToolCall host root toolCall approvalPolicy sandbox) :=
  executeToolCall_keeps host root approvalPolicy sandbox samePlan toolCall
    fun w _ => run_samePlan host w _ rfl

theorem executeToolCall_kept (toolCall : ChatToolCall) :
    Keeps (KeptButTodos host root)
      (executeToolCall host root toolCall approvalPolicy .readOnly) := by
  apply executeToolCall_keeps host root approvalPolicy .readOnly keptButTodos toolCall
  intro w input
  refine ⟨run_samePlan host w _ rfl, ?_⟩
  exact run_keeps_others host w
    ⟨toolCall.name, input, callContext root approvalPolicy .readOnly⟩ rfl

end confinement

section tools

/-- What the default registry offers under a ceiling. -/
theorem mem_definitions_iff (ceiling : PermissionMode) (tool : ChatTool) :
    tool ∈ definitions (builtinRegistry (ε := Unit)) none (some ceiling) ↔
      ∃ spec ∈ BUILTIN_TOOL_SPECS, permissionAllows ceiling spec.requiredPermission = true ∧
        toolSpecToChatTool spec = tool := by
  simp only [definitions, isAllowed, InsertionMap.values, List.mem_map, List.mem_filter,
    Option.getD_some]
  constructor
  · rintro ⟨registered, ⟨⟨⟨entry, hentry, rfl⟩, -⟩, hallows⟩, rfl⟩
    obtain ⟨spec, hspec, -, hregistered⟩ :=
      (builtinRegistry_get_iff entry.1 entry.2).mp (InsertionMap.get_of_mem hentry)
    rw [hregistered] at hallows ⊢
    exact ⟨spec, hspec, hallows, rfl⟩
  · rintro ⟨spec, hspec, hallows, rfl⟩
    have hget := (builtinRegistry_get_iff (ε := Unit) spec.name
      ⟨spec, some (.builtin spec.name)⟩).mpr ⟨spec, hspec, rfl, rfl⟩
    exact ⟨_, ⟨⟨⟨_, InsertionMap.mem_of_get hget, rfl⟩, trivial⟩, hallows⟩, rfl⟩

variable (host : Host ε) (job : Job ε)

/-- Under whatever spelling, an agent's call runs a tool exactly when the agent is offered one
of that name. -/
def OfferedWhatRuns (agent : Agent) : Prop :=
  ∀ (w : World ε) (name : JsString) (input : Json),
    (∃ spec, ToolCall.executed host w
      ⟨name, input, callContext job.cwd agent.approvalPolicy agent.sandbox⟩ = some spec) ↔
      ∃ tool ∈ agent.tools, tool.name = normalizeToolName name

theorem offeredWhatRuns {agent : Agent}
    (hceiling : agent.maxPermission = agent.sandbox.permission) :
    OfferedWhatRuns host job agent := by
  intro w name input
  simp only [ToolCall.executed_iff, Agent.tools, mem_definitions_iff, hceiling]
  constructor
  · rintro ⟨spec, hspec, hname, hallows, -⟩
    exact ⟨toolSpecToChatTool spec, ⟨spec, hspec, hallows, rfl⟩, hname⟩
  · rintro ⟨tool, ⟨spec, hspec, hallows, rfl⟩, hname⟩
    exact ⟨spec, hspec, hname, hallows, fun hplan => absurd hplan Bool.false_ne_true⟩

/-- Every agent of an orchestration is offered exactly the tools that it can run. -/
theorem agents_offered (plan : WorkflowPlan) (explored : AgentResult) (executed : FinishPayload)
    (verified : AgentResult) :
    OfferedWhatRuns host job (explorer job plan) ∧
      OfferedWhatRuns host job (executor job plan) ∧
      OfferedWhatRuns host job (verifier job plan executed) ∧
      OfferedWhatRuns host job (reviewer job plan explored executed verified) :=
  ⟨offeredWhatRuns host job rfl, offeredWhatRuns host job rfl, offeredWhatRuns host job rfl,
    offeredWhatRuns host job rfl⟩

end tools

section orchestration

variable (host : Host ε) (job : Job ε)

/-- A law that the calls of the executor and of the other agents keep is kept all along. -/
theorem orchestrateGoal_keeps {R : World ε → World ε → Prop} (hR : IsFrame R)
    (hsame : ∀ w w', SameFilesAndPlan w w' → R w w')
    (hwrite : ∀ toolCall, Keeps R
      (executeToolCall host job.cwd toolCall job.approvalPolicy job.sandbox))
    (hread : ∀ toolCall, Keeps R (executeToolCall host job.cwd toolCall .never .readOnly))
    (turns : Nat) : Keeps (OnWorld R) (orchestrateGoal host job turns) := by
  refine keeps_bind (onWorld hR) (createPlan_keeps host job hR hsame) fun plan => ?_
  refine conduct_keeps host job hR hsame (explorer job plan) hread turns fun explored => ?_
  refine conduct_keeps host job hR hsame (executor job plan) hwrite turns fun executed => ?_
  refine conduct_keeps host job hR hsame (verifier job plan executed) hread turns
    fun verified => ?_
  refine conduct_keeps host job hR hsame (reviewer job plan (explorerResult explored) executed
    (workResult .verifier verified)) hread turns fun reviewed => ?_
  exact keeps_pure (onWorld hR) _

/-- Between the first state and the last one the world is kept, but for what the executor does
in one go. -/
def Confined (R : World ε → World ε → Prop) (turns : Nat) (m m' : Workshop ε) : Prop :=
  ∃ before after, OnWorld R m before ∧
    (after = before ∨
      ∃ plan, after = finalState (executePlan host job plan turns before)) ∧
    OnWorld R after m'

theorem orchestrateGoal_confined {R : World ε → World ε → Prop} (hR : IsFrame R)
    (hsame : ∀ w w', SameFilesAndPlan w w' → R w w')
    (hread : ∀ toolCall, Keeps R (executeToolCall host job.cwd toolCall .never .readOnly))
    (turns : Nat) (m : Workshop ε) :
    Confined host job R turns m (finalState (orchestrateGoal host job turns m)) := by
  have hidle : ∀ m', OnWorld R m m' → Confined host job R turns m m' := fun m' h =>
    ⟨m', m', h, Or.inl rfl, hR.refl m'.world⟩
  suffices hends : Ends (orchestrateGoal host job turns) m
      (fun _ m' => Confined host job R turns m m') (fun _ m' => Confined host job R turns m m') from
    ends_state_iff.mp hends
  apply ends_bind
  refine (createPlan_keeps host job hR hsame m).mono (fun plan m₁ hplanned => ?_)
    (fun error m₁ hplanned => hidle m₁ hplanned)
  apply ends_bind
  refine (runAgent_keeps host job hR hsame (explorer job plan) hread turns _ m₁).mono
    (fun explored m₂ hexplored => ?_)
    (fun error m₂ hexplored => hidle m₂ ((onWorld hR).trans m m₁ m₂ hplanned hexplored))
  have hbefore : OnWorld R m m₂ := (onWorld hR).trans m m₁ m₂ hplanned hexplored
  cases explored with
  | none => exact ends_pure (hidle m₂ hbefore)
  | some explored =>
    have hown : ∀ m', OnWorld R (finalState (executePlan host job plan turns m₂)) m' →
        Confined host job R turns m m' := fun m' h =>
      ⟨m₂, _, hbefore, Or.inr ⟨plan, rfl⟩, h⟩
    have hexecuted : Ends (executePlan host job plan turns) m₂
        (fun _ m₃ => m₃ = finalState (executePlan host job plan turns m₂))
        (fun _ m₃ => m₃ = finalState (executePlan host job plan turns m₂)) :=
      ends_state_iff.mpr rfl
    apply ends_bind
    refine hexecuted.mono (fun executed m₃ hm₃ => ?_) (fun error m₃ hm₃ => ?_)
    · subst hm₃
      cases executed with
      | none => exact ends_pure (hown _ (hR.refl _))
      | some executed =>
        have hchecked : Keeps (OnWorld R) (conduct host job (verifier job plan executed.2) turns
            fun verified => conduct host job (reviewer job plan (explorerResult explored.2)
              executed.2 (workResult .verifier verified)) turns fun reviewed =>
                return some (orchestrationResult job plan explored.2 executed.2 verified
                  reviewed)) := by
          refine conduct_keeps host job hR hsame (verifier job plan executed.2) hread turns
            fun verified => ?_
          refine conduct_keeps host job hR hsame (reviewer job plan (explorerResult explored.2)
            executed.2 (workResult .verifier verified)) hread turns fun reviewed => ?_
          exact keeps_pure (onWorld hR) _
        exact (hchecked _).mono (fun _ m' h => hown m' h) (fun _ m' h => hown m' h)
    · subst hm₃
      exact hown _ (hR.refl _)

end orchestration

section stages

def AgentEvent.finish : AgentEvent → Option FinishPayload
  | .request _ _ => none
  | .reply _ _ => none
  | .toolResult _ _ result => result.finish

/-- What an event adds to the conversation of its agent. -/
def AgentEvent.told : AgentEvent → List ChatMessage
  | .request _ _ => []
  | .reply _ message => [assistantMessage message]
  | .toolResult _ toolCall result => [toolMessage toolCall result.content]

def told (events : List AgentEvent) : List ChatMessage := events.flatMap AgentEvent.told

theorem told_snoc (events : List AgentEvent) (e : AgentEvent) :
    told (events ++ [e]) = told events ++ e.told := by
  rw [told, List.flatMap_append, List.flatMap_singleton]
  rfl

/-- The tool messages behind a message answer its calls one by one, in their order. -/
def AnsweredInTurn (message : ChatMessage) (answers : List ChatMessage) : Prop :=
  AnswersTo (callsOf message) answers

def Unfinished (events : List AgentEvent) : Prop := ∀ e ∈ events, e.finish = none

/-- The last event is the first to finish. -/
def Finishes (events : List AgentEvent) (finish : FinishPayload) : Prop :=
  ∃ before e, events = before ++ [e] ∧ Unfinished before ∧ e.finish = some finish

theorem Unfinished.snoc {events : List AgentEvent} {e : AgentEvent} (h : Unfinished events)
    (he : e.finish = none) : Unfinished (events ++ [e]) := by
  intro e' hmem
  rcases List.mem_append.mp hmem with hold | hnew
  · exact h e' hold
  · obtain rfl := List.mem_singleton.mp hnew
    exact he

variable (job : Job ε) (agent : Agent)

/-- An event of an agent: a request carries the opening messages and all that the events before
it tell, every call answered. -/
def Belongs (before : List AgentEvent) (e : AgentEvent) (_after : List AgentEvent) : Prop :=
  e.role = agent.role ∧ ∀ role request, e = .request role request →
    request = agentRequest job agent (agent.opening ++ told before) ∧
      Grouped isTool AnsweredInTurn request.messages

/-- What an agent does from its opening on. -/
def IsCourse (events : List AgentEvent) : Prop := Serial.Everywhere (Belongs job agent) events

theorem IsCourse.snoc {job : Job ε} {agent : Agent} {events : List AgentEvent} {e : AgentEvent}
    (h : IsCourse job agent events) (he : Belongs job agent events e []) :
    IsCourse job agent (events ++ [e]) :=
  Serial.Everywhere.snoc (fun _ _ _ _ hbelongs => hbelongs) h he

/-- Where an agent stands. -/
inductive Stage where
  | turn (messages : List ChatMessage)
  | asked (messages : List ChatMessage)
  | calling (pending : List ChatToolCall) (messages : List ChatMessage)
  | finished (finish : FinishPayload)

def Stage.Running : Stage → Prop
  | .finished _ => False
  | _ => True

inductive Move : Stage → List AgentEvent → Stage → Prop where
  | request (messages : List ChatMessage) :
      Move (.turn messages) [.request agent.role (agentRequest job agent messages)]
        (.asked messages)
  | reply (messages : List ChatMessage) (message : ChatMessage) :
      Move (.asked messages) [.reply agent.role message]
        (.calling (message.tool_calls.getD []) (messages ++ [assistantMessage message]))
  | result (toolCall : ChatToolCall) (pending : List ChatToolCall) (messages : List ChatMessage)
      (result : ToolExecutionResult) (hfinish : result.finish = none) :
      Move (.calling (toolCall :: pending) messages) [.toolResult agent.role toolCall result]
        (.calling pending (messages ++ [toolMessage toolCall result.content]))
  | finish (toolCall : ChatToolCall) (pending : List ChatToolCall) (messages : List ChatMessage)
      (result : ToolExecutionResult) (finish : FinishPayload)
      (hfinish : result.finish = some finish) :
      Move (.calling (toolCall :: pending) messages) [.toolResult agent.role toolCall result]
        (.finished finish)
  | rest (messages : List ChatMessage) : Move (.calling [] messages) [] (.turn messages)

/-- What is known where an agent stands after some events. -/
def Stands (shown : List AgentEvent) : Stage → Prop
  | .turn messages | .asked messages =>
    messages = agent.opening ++ told shown ∧ Unfinished shown ∧
      Grouped isTool AnsweredInTurn messages
  | .calling pending messages =>
    messages = agent.opening ++ told shown ∧ Unfinished shown ∧ ∃ base message answers done,
      messages = base ++ assistantMessage message :: answers ∧
        message.tool_calls.getD [] = done ++ pending ∧
        Grouped isTool AnsweredInTurn base ∧ AnswersTo done answers
  | .finished finish => Finishes shown finish

variable {job agent}

theorem Stands.unfinished {shown : List AgentEvent} {q : Stage} (h : Stands agent shown q)
    (hrunning : q.Running) : Unfinished shown := by
  cases q with
  | turn messages => exact h.2.1
  | asked messages => exact h.2.1
  | calling pending messages => exact h.2.1
  | finished finish => exact absurd hrunning id

theorem move_stands {shown labels : List AgentEvent} {p q : Stage} (h : Move job agent p labels q)
    (hcourse : IsCourse job agent shown) (hstands : Stands agent shown p) :
    IsCourse job agent (shown ++ labels) ∧ Stands agent (shown ++ labels) q := by
  cases h with
  | request messages =>
    obtain ⟨hmessages, hopen, hgrouped⟩ := hstands
    refine ⟨hcourse.snoc ⟨rfl, ?_⟩, ?_, hopen.snoc rfl, hgrouped⟩
    · intro role request he
      obtain ⟨-, rfl⟩ := AgentEvent.request.inj he
      exact ⟨by rw [← hmessages], hgrouped⟩
    · rw [told_snoc, AgentEvent.told, List.append_nil, hmessages]
  | reply messages message =>
    obtain ⟨hmessages, hopen, hgrouped⟩ := hstands
    refine ⟨hcourse.snoc ⟨rfl, ?_⟩, ?_, hopen.snoc rfl, messages, message, [], [], rfl, rfl,
      hgrouped, ⟨by simp, rfl⟩⟩
    · rintro role request ⟨⟩
    · rw [told_snoc, AgentEvent.told, hmessages, List.append_assoc]
  | result toolCall pending messages result hfinish =>
    obtain ⟨hmessages, hopen, base, message, answers, done, hbase, hcalls, hgrouped, hanswers⟩ :=
      hstands
    refine ⟨hcourse.snoc ⟨rfl, ?_⟩, ?_, hopen.snoc hfinish, base, message,
      answers ++ [toolMessage toolCall result.content], done ++ [toolCall], ?_, ?_, hgrouped,
      hanswers.snoc toolCall result.content⟩
    · rintro role request ⟨⟩
    · rw [told_snoc, AgentEvent.told, hmessages, List.append_assoc]
    · rw [hbase, List.append_assoc, List.cons_append]
    · rw [hcalls, List.append_assoc, List.singleton_append]
  | finish toolCall pending messages result finish hfinish =>
    refine ⟨hcourse.snoc ⟨rfl, ?_⟩, shown, _, rfl, hstands.2.1, hfinish⟩
    rintro role request ⟨⟩
  | rest messages =>
    obtain ⟨hmessages, hopen, base, message, answers, done, hbase, hcalls, hgrouped, hanswers⟩ :=
      hstands
    rw [List.append_nil] at hcalls ⊢
    refine ⟨hcourse, hmessages, hopen, ?_⟩
    have hfits : AnsweredInTurn (assistantMessage message) answers := by
      rw [AnsweredInTurn, Conversation.callsOf_assistantMessage, hcalls]
      exact hanswers
    rw [hbase]
    exact hgrouped.append (grouped_leader rfl hanswers.tools hfits)

theorem opening_grouped : Grouped isTool AnsweredInTurn agent.opening := by
  have hplain : ∀ role content, role ≠ .tool →
      Grouped isTool AnsweredInTurn [ChatMessage.text role content] := by
    intro role content hrole
    have hcalls : AnswersTo (callsOf (.text role content)) [] := by
      cases role <;> exact ⟨by simp, rfl⟩
    exact grouped_leader (decide_eq_false hrole) (by simp) hcalls
  exact (hplain .system _ (by decide)).append (hplain .user _ (by decide))

theorem path_stands {shown : List AgentEvent} {q : Stage}
    (h : Path (Move job agent) (.turn agent.opening) shown q) :
    IsCourse job agent shown ∧ Stands agent shown q := by
  apply h.invariant fun shown q => IsCourse job agent shown ∧ Stands agent shown q
  · refine ⟨Serial.everywhere_of_forall (by simp), ?_, by simp [Unfinished], opening_grouped⟩
    rw [told, List.flatMap_nil, List.append_nil]
  · intro shown p labels q hshown hmove
    exact move_stands hmove hshown.1 hshown.2

end stages

section course

variable (host : Host ε) (job : Job ε) (agent : Agent)

theorem record_apply (e : AgentEvent) (m : Workshop ε) :
    record e m = .ok ⟨⟩ { m with trace := m.trace ++ [e] } := rfl

theorem inWorld_trace (x : Action ε α) (m : Workshop ε) :
    Ends (inWorld x) m (fun _ m' => m'.trace = m.trace) (fun _ m' => m'.trace = m.trace) := by
  unfold Ends inWorld onPart
  cases x m.world <;> rfl

abbrev Moves (p : Stage) (m : Workshop ε) (q : Stage) (m' : Workshop ε) : Prop :=
  Reaches Workshop.trace (Move job agent) p m q m'

/-- An agent that is not done gets somewhere. -/
def MovesOn (p : Stage) (m m' : Workshop ε) : Prop := ∃ q, q.Running ∧ Moves job agent p m q m'

variable {job agent} in
theorem moves_still (p : Stage) {m m' : Workshop ε} (htrace : m'.trace = m.trace) :
    Moves job agent p m p m' := ⟨[], by rw [htrace, List.append_nil], .refl p⟩

variable {job agent} in
theorem MovesOn.after {p q : Stage} {m m' m'' : Workshop ε} (hmoves : Moves job agent p m q m')
    (h : MovesOn job agent q m' m'') : MovesOn job agent p m m'' := by
  obtain ⟨r, hrunning, hrest⟩ := h
  exact ⟨r, hrunning, hmoves.trans hrest⟩

/-- Where the calls of a reply leave an agent. -/
def stageAfter (messages : List ChatMessage) : Option FinishPayload → Stage
  | some finish => .finished finish
  | none => .turn messages

theorem runToolCalls_moves (calls : List ChatToolCall) (dialogue : Dialogue) (m : Workshop ε) :
    Ends (runToolCalls host job agent calls dialogue) m
      (fun r m' => Moves job agent (.calling calls dialogue.messages) m
        (stageAfter r.1.messages r.2) m')
      (fun _ m' => MovesOn job agent (.calling calls dialogue.messages) m m') := by
  induction calls generalizing dialogue m with
  | nil => exact ends_pure (.step (List.append_nil _).symm (.rest dialogue.messages))
  | cons toolCall pending ih =>
    apply ends_bind
    refine (inWorld_trace _ m).mono (fun result m₁ htrace => ?_)
      (fun error m₁ htrace =>
        ⟨.calling (toolCall :: pending) dialogue.messages, trivial, moves_still _ htrace⟩)
    apply ends_bind_of_ok (record_apply _ _)
    cases hfinish : result.finish with
    | some finish =>
      refine ends_pure (.step ?_ (.finish toolCall pending dialogue.messages result finish hfinish))
      rw [htrace]
    | none =>
      have hstep : Moves job agent (.calling (toolCall :: pending) dialogue.messages) m
          (.calling pending (takeResult dialogue toolCall result).messages)
          { m₁ with trace := m₁.trace ++ [.toolResult agent.role toolCall result] } := by
        refine .step ?_ (.result toolCall pending dialogue.messages result hfinish)
        rw [htrace]
      exact (ih _ _).mono (fun r m₂ hmoves => hstep.trans hmoves)
        (fun error m₂ hmoves => .after hstep hmoves)

theorem runTurn_moves (dialogue : Dialogue) (m : Workshop ε) :
    Ends (runTurn host job agent dialogue) m
      (fun r m' => Moves job agent (.turn dialogue.messages) m (stageAfter r.1.messages r.2) m')
      (fun _ m' => MovesOn job agent (.turn dialogue.messages) m m') := by
  have hask : Moves job agent (.turn dialogue.messages) m (.asked dialogue.messages)
      { m with trace := m.trace ++ [.request agent.role
        (agentRequest job agent dialogue.messages)] } :=
    .step rfl (.request dialogue.messages)
  apply ends_bind_of_ok (record_apply _ _)
  apply ends_bind
  refine (inWorld_trace _ _).mono (fun response m₁ htrace => ?_)
    (fun error m₁ htrace =>
      ⟨.asked dialogue.messages, trivial, hask.trans (moves_still _ htrace)⟩)
  cases response.message with
  | none =>
    exact ends_throw ⟨.asked dialogue.messages, trivial, hask.trans (moves_still _ htrace)⟩
  | some message =>
    have hreply : Moves job agent (.turn dialogue.messages) m
        (.calling (message.tool_calls.getD []) (dialogue.messages ++ [assistantMessage message]))
        { m₁ with trace := m₁.trace ++ [.reply agent.role message] } := by
      refine hask.trans (.step ?_ (.reply dialogue.messages message))
      rw [htrace]
    apply ends_bind_of_ok (record_apply _ _)
    exact (runToolCalls_moves host job agent _ _ _).mono
      (fun r m₂ hmoves => hreply.trans hmoves) (fun error m₂ hmoves => .after hreply hmoves)

theorem runAgent_moves (turns : Nat) (dialogue : Dialogue) (m : Workshop ε) :
    Ends (runAgent host job agent turns dialogue) m
      (fun r m' => match r with
        | some (_, finish) => Moves job agent (.turn dialogue.messages) m (.finished finish) m'
        | none => MovesOn job agent (.turn dialogue.messages) m m')
      (fun _ m' => MovesOn job agent (.turn dialogue.messages) m m') := by
  induction turns generalizing dialogue m with
  | zero => exact ends_pure ⟨.turn dialogue.messages, trivial, .refl _ m⟩
  | succ turns ih =>
    apply ends_bind
    refine (runTurn_moves host job agent dialogue m).mono ?_ (fun error m₁ hmoves => hmoves)
    rintro ⟨after, finish⟩ m₁ hturn
    cases finish with
    | some finish => exact ends_pure hturn
    | none =>
      refine (ih after m₁).mono ?_ (fun error m₂ hrest => .after hturn hrest)
      rintro (_ | ⟨last, finish⟩) m₂ hrest
      · exact .after hturn hrest
      · exact hturn.trans hrest

/-- What a run returns; nothing when it throws. -/
def returned : EStateM.Result Thrown (Workshop ε) (Option α) → Option α
  | .ok r _ => r
  | .error _ _ => none

/-- A run logs events that a law relates to what it returns. -/
def Logs (P : List AgentEvent → Option α → Prop) (x : AgentM ε (Option α)) (m : Workshop ε) :
    Prop :=
  ∃ events, (finalState (x m)).trace = m.trace ++ events ∧ P events (returned (x m))

/-- The course of an agent, and when it has finished, what comes next. -/
def Phase (rest : FinishPayload → List AgentEvent → Option α → Prop) (events : List AgentEvent)
    (result : Option α) : Prop :=
  ∃ own later, events = own ++ later ∧ IsCourse job agent own ∧
    ((Unfinished own ∧ later = [] ∧ result = none) ∨
      ∃ finish, Finishes own finish ∧ rest finish later result)

theorem logs_return (a : α) (m : Workshop ε) :
    Logs (fun last result => last = [] ∧ result = some a) (return some a) m :=
  ⟨[], (List.append_nil m.trace).symm, rfl, rfl⟩

theorem conduct_logs (turns : Nat) {next : FinishPayload → AgentM ε (Option α)}
    {rest : FinishPayload → List AgentEvent → Option α → Prop}
    (hnext : ∀ finish m, Logs (rest finish) (next finish) m) (m : Workshop ε) :
    Logs (Phase job agent rest) (conduct host job agent turns next) m := by
  have hagent := runAgent_moves host job agent turns ⟨agent.opening, []⟩ m
  -- An agent that is not done is the last to log anything.
  have hlast : ∀ m', MovesOn job agent (.turn agent.opening) m m' →
      ∃ events, m'.trace = m.trace ++ events ∧ Phase job agent rest events none := by
    rintro m' ⟨q, hrunning, own, htrace, hpath⟩
    obtain ⟨hcourse, hstands⟩ := path_stands hpath
    exact ⟨own, htrace, own, [], (List.append_nil own).symm, hcourse,
      Or.inl ⟨hstands.unfinished hrunning, rfl, rfl⟩⟩
  rw [Logs, conduct]
  rw [Ends] at hagent
  cases hrun : runAgent host job agent turns ⟨agent.opening, []⟩ m with
  | error error m₁ =>
    rw [hrun] at hagent
    rw [bind_of_error hrun]
    exact hlast m₁ hagent
  | ok r m₁ =>
    rw [hrun] at hagent
    rw [bind_of_ok hrun]
    cases r with
    | none => exact hlast m₁ hagent
    | some r =>
      obtain ⟨own, htrace, hpath⟩ := hagent
      obtain ⟨hcourse, hfinishes⟩ := path_stands hpath
      obtain ⟨later, hlater, hrest⟩ := hnext r.2 m₁
      refine ⟨own ++ later, ?_, own, later, rfl, hcourse, Or.inr ⟨r.2, hfinishes, hrest⟩⟩
      exact hlater.trans (by rw [htrace, List.append_assoc])

/-- The events of an orchestration with what it returns: the planner's request, and with a plan
the courses of the agents, each beginning when the one before it has finished. -/
def IsOrchestration (events : List AgentEvent) (result : Option OrchestrationResult) : Prop :=
  ∃ later, events = .request .planner (planRequest job) :: later ∧
    ((later = [] ∧ result = none) ∨ ∃ plan,
      Phase job (explorer job plan) (fun explored =>
        Phase job (executor job plan) fun executed =>
          Phase job (verifier job plan executed) fun verified =>
            Phase job (reviewer job plan (explorerResult explored) executed
              (workResult .verifier verified)) fun reviewed last result =>
                last = [] ∧ result = some
                  (orchestrationResult job plan explored executed verified reviewed))
        later result)

theorem createPlan_trace (m : Workshop ε) :
    Ends (createPlan host job) m
      (fun _ m' => m'.trace = m.trace ++ [.request .planner (planRequest job)])
      (fun _ m' => m'.trace = m.trace ++ [.request .planner (planRequest job)]) := by
  apply ends_bind_of_ok (record_apply _ _)
  apply ends_bind
  refine (inWorld_trace _ _).mono (fun response m₁ htrace => ?_) (fun error m₁ htrace => htrace)
  refine ends_ite (fun _ => ends_throw htrace) fun _ => ?_
  exact (inWorld_trace _ m₁).mono (fun _ m₂ h => h.trans htrace) (fun _ m₂ h => h.trans htrace)

end course

end Solarcido.Agents
