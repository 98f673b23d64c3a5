import Solarcido.Crates.Runtime

namespace Solarcido.Crates

open RustText ThrowingProgram

variable {ω : Type}

/-- What a session is made of: a user's text, or a reply with the answers to its tool uses. -/
inductive Exchange where
  | user (text : RustString)
  | reply (content : RustString) (answers : List (ToolUse × RustString))

namespace Exchange

def answer (a : ToolUse × RustString) : InputMessage := .userToolResult a.1.id a.2 false

def messages : Exchange → List InputMessage
  | .user text => [.userText text]
  | .reply content answers =>
    ConversationRuntime.assistantMessage content (answers.map Prod.fst) :: answers.map answer

end Exchange

/-- All tool uses of a session have been answered. -/
def Complete (messages : List InputMessage) : Prop :=
  ∃ exchanges : List Exchange, messages = exchanges.flatMap Exchange.messages

theorem Complete.nil : Complete [] := ⟨[], rfl⟩

theorem Complete.append {messages : List InputMessage} (h : Complete messages)
    (exchange : Exchange) : Complete (messages ++ exchange.messages) := by
  obtain ⟨exchanges, rfl⟩ := h
  exact ⟨exchanges ++ [exchange], by simp⟩

section traces

variable (policy : PermissionPolicy) (floatText : UInt64 → RustString)

/-- The question a prompter is asked about a call. -/
def escalation (toolUse : ToolUse) : PermissionRequest :=
  ⟨toolUse.name, toolUse.input.display floatText, .workspaceWrite, .dangerFullAccess⟩

/-- Why a call is allowed, and what has been asked. -/
inductive Permitted (toolUse : ToolUse) : List Action → Prop where
  | mode (h : policy.requiredModeFor toolUse.name ≤ policy.activeMode) : Permitted toolUse []
  | approval (hactive : policy.activeMode = .workspaceWrite)
      (hrequired : policy.requiredModeFor toolUse.name = .dangerFullAccess) :
      Permitted toolUse [.prompt (escalation floatText toolUse) true]

/-- What has been asked when a call is denied. -/
inductive Refused (toolUse : ToolUse) : List Action → Prop where
  | mode : Refused toolUse []
  | disapproval : Refused toolUse [.prompt (escalation floatText toolUse) false]

/-- The actions of one call. -/
inductive CallTrace (toolUse : ToolUse) (output : RustString) : List Action → Prop where
  | allowed {prompted : List Action} (h : Permitted policy floatText toolUse prompted) :
      CallTrace toolUse output (.call toolUse :: (prompted ++
        [.execute toolUse.name toolUse.input, .result (Exchange.answer (toolUse, output))]))
  | denied {prompted : List Action} (h : Refused floatText toolUse prompted)
      (hmode : ¬ policy.requiredModeFor toolUse.name ≤ policy.activeMode)
      (reason : RustString) (houtput : output = str "ERROR: " ++ reason) :
      CallTrace toolUse output
        (.call toolUse :: (prompted ++ [.result (Exchange.answer (toolUse, output))]))

/-- The actions of the calls of a reply. -/
inductive CallsTrace : List (ToolUse × RustString) → List Action → Prop where
  | nil : CallsTrace [] []
  | cons {toolUse : ToolUse} {output : RustString} {answers : List (ToolUse × RustString)}
      {labels more : List Action} (first : CallTrace policy floatText toolUse output labels)
      (rest : CallsTrace answers more) : CallsTrace ((toolUse, output) :: answers) (labels ++ more)

/-- The actions of a turn. -/
inductive TurnTrace : List Action → Prop where
  | limit : TurnTrace [.ended (.stopped (.error ConversationRuntime.iterationsExceeded))]
  | ended {request : MessageRequest} (h : Complete request.messages) (turnEnd : TurnEnd) :
      TurnTrace [.request request, .ended turnEnd]
  | calls {request : MessageRequest} (h : Complete request.messages)
      {answers : List (ToolUse × RustString)} {labels more : List Action}
      (hcalls : CallsTrace policy floatText answers labels) (rest : TurnTrace more) :
      TurnTrace (.request request :: (labels ++ more))

/-- The actions of a run. -/
def RunTrace (trace : List Action) : Prop :=
  ∃ turns : List (List Action), trace = turns.flatten ∧ ∀ t ∈ turns, TurnTrace policy floatText t

end traces

namespace ConversationRuntime

variable (self : ConversationRuntime) (host : Host ω) (serde : SerdeJson)
  (prompter : Option (Prompter ω))

section calls

theorem authorize_ends (toolUse : ToolUse) (s : Running ω) :
    Ends (self.permissionPolicy.authorize toolUse.name (toolUse.input.display host.floatText)
        prompter) s
      (fun outcome t => t.messages = s.messages ∧ ∃ prompted, t.trace = s.trace ++ prompted ∧
        match outcome with
        | .allow => Permitted self.permissionPolicy host.floatText toolUse prompted
        | .deny _ => Refused host.floatText toolUse prompted ∧
          ¬ self.permissionPolicy.requiredModeFor toolUse.name ≤ self.permissionPolicy.activeMode)
      (fun _ _ => False) := by
  rw [PermissionPolicy.authorize]
  apply ends_ite
  · intro hmode
    exact ends_pure ⟨rfl, [], (List.append_nil _).symm, .mode hmode⟩
  · intro hmode
    apply ends_ite
    · rintro ⟨hactive, hrequired⟩
      rw [hactive, hrequired] at hmode ⊢
      cases prompter with
      | none =>
        exact ⟨rfl, [], (List.append_nil _).symm, .mode, hmode⟩
      | some decide =>
        refine ends_bind_of_ok (rfl : _ = EStateM.Result.ok
          (decide (escalation host.floatText toolUse) s.world).1 _) ?_
        refine ⟨rfl, _, rfl, ?_⟩
        cases (decide (escalation host.floatText toolUse) s.world).1 with
        | true => exact .approval hactive hrequired
        | false => exact ⟨.disapproval, hmode⟩
    · intro _
      exact ends_pure ⟨rfl, [], (List.append_nil _).symm, .mode, hmode⟩

theorem toolOutput_ends (toolUse : ToolUse) (outcome : PermissionOutcome) (s : Running ω) :
    Ends (toolOutput host toolUse outcome) s
      (fun output t => t.messages = s.messages ∧
        match outcome with
        | .allow => t.trace = s.trace ++ [.execute toolUse.name toolUse.input]
        | .deny reason => t.trace = s.trace ∧ output = str "ERROR: " ++ reason)
      (fun _ _ => False) := by
  cases outcome with
  | allow =>
    refine ends_bind_of_ok (rfl : _ = EStateM.Result.ok () _) ?_
    refine ends_bind_of_ok
      (rfl : _ = EStateM.Result.ok (host.execute toolUse.name toolUse.input s.world).1 _) ?_
    cases (host.execute toolUse.name toolUse.input s.world).1 with
    | ok output => exact ⟨rfl, rfl⟩
    | error e => exact ⟨rfl, rfl⟩
  | deny reason => exact ⟨rfl, rfl, rfl⟩

theorem runTool_ends (summary : TurnSummary) (toolUse : ToolUse) (s : Running ω) :
    Ends (self.runTool host prompter summary toolUse) s
      (fun _ t => ∃ output labels, t.messages = s.messages ++ [Exchange.answer (toolUse, output)] ∧
        t.trace = s.trace ++ labels ∧
        CallTrace self.permissionPolicy host.floatText toolUse output labels)
      (fun _ _ => False) := by
  refine ends_bind_of_ok (rfl : record (.call toolUse) s = .ok () _) (ends_bind ?_)
  refine (authorize_ends self host prompter toolUse _).mono ?_ (fun _ _ h => h)
  rintro outcome t ⟨hmessages, prompted, htrace, houtcome⟩
  refine ends_bind ((toolOutput_ends host toolUse outcome t).mono ?_ (fun _ _ h => h))
  rintro output u ⟨humessages, hu⟩
  refine ends_bind_of_ok (rfl : _ = EStateM.Result.ok () _) ?_
  refine ends_bind_of_ok (rfl : _ = EStateM.Result.ok () _) ?_
  have hanswer : u.messages ++ [InputMessage.userToolResult toolUse.id output false] =
      s.messages ++ [Exchange.answer (toolUse, output)] := by
    rw [humessages, hmessages]
    rfl
  cases outcome with
  | allow =>
    refine ⟨output, _, hanswer, ?_, .allowed houtcome⟩
    simp only [hu, htrace, List.append_assoc, List.cons_append, List.nil_append]
    rfl
  | deny reason =>
    refine ⟨output, _, hanswer, ?_, .denied houtcome.1 houtcome.2 reason hu.2⟩
    simp only [hu.1, htrace, List.append_assoc, List.cons_append, List.nil_append]
    rfl

theorem runTools_ends (summary : TurnSummary) (toolUses : List ToolUse) (s : Running ω) :
    Ends (self.runTools host prompter summary toolUses) s
      (fun _ t => ∃ answers labels, answers.map Prod.fst = toolUses ∧
        t.messages = s.messages ++ answers.map Exchange.answer ∧ t.trace = s.trace ++ labels ∧
        CallsTrace self.permissionPolicy host.floatText answers labels)
      (fun _ _ => False) := by
  induction toolUses generalizing summary s with
  | nil => exact ⟨[], [], rfl, (List.append_nil _).symm, (List.append_nil _).symm, .nil⟩
  | cons toolUse rest ih =>
    refine ends_bind ((runTool_ends self host prompter summary toolUse s).mono ?_ (fun _ _ h => h))
    rintro summary' t ⟨output, labels, hmessages, htrace, hcall⟩
    refine (ih summary' t).mono ?_ (fun _ _ h => h)
    rintro summary'' u ⟨answers, more, hfst, humessages, hutrace, hcalls⟩
    refine ⟨(toolUse, output) :: answers, labels ++ more, by rw [List.map_cons, hfst], ?_, ?_,
      .cons hcall hcalls⟩
    · rw [humessages, hmessages, List.append_assoc]
      rfl
    · rw [hutrace, htrace, List.append_assoc]

end calls

section turns

/-- A reply is asked for with one request, which carries the session. -/
def Asks (nextReply : Usage → RuntimeM ω Reply) : Prop :=
  ∀ usage, Keeps (fun s t : Running ω => t.messages = s.messages ∧ ∃ request : MessageRequest,
    request.messages = s.messages ∧ t.trace = s.trace ++ [.request request]) (nextReply usage)

theorem askForReply_asks : Asks (self.askForReply host) := by
  intro usage s
  refine ends_bind_of_ok (rfl : self.nextRequest host s = .ok _ s) ?_
  refine ends_bind_of_ok (rfl : _ = EStateM.Result.ok () _) ?_
  refine ends_bind_of_ok (rfl : _ = EStateM.Result.ok (host.sendMessage
    (self.buildRequest (host.definitions s.world) s.messages) s.world).1 _) ?_
  cases (host.sendMessage (self.buildRequest (host.definitions s.world) s.messages) s.world).1 with
  | error failure => exact ⟨rfl, _, rfl, rfl⟩
  | ok response =>
    simp only
    cases replyOfResponse usage response with
    | error p => exact ⟨rfl, _, rfl, rfl⟩
    | ok reply => exact ⟨rfl, _, rfl, rfl⟩

theorem streamReply_asks : Asks (self.streamReply host serde) := by
  intro usage s
  refine ends_bind_of_ok (rfl : self.nextRequest host s = .ok _ s) ?_
  refine ends_bind_of_ok (rfl : _ = EStateM.Result.ok () _) ?_
  refine ends_bind_of_ok (rfl : _ = EStateM.Result.ok (host.streamMessage
    (self.buildRequest (host.definitions s.world) s.messages) s.world).1 _) ?_
  generalize (host.streamMessage (self.buildRequest (host.definitions s.world) s.messages)
    s.world).1 = stream
  cases hreply : replyOfEvents serde usage stream.events with
  | error p => exact ⟨rfl, _, rfl, rfl⟩
  | ok reply =>
    refine ends_bind_of_ok (rfl : _ = EStateM.Result.ok reply _) ?_
    cases stream.failure with
    | none => exact ⟨rfl, _, rfl, rfl⟩
    | some failure => exact ⟨rfl, _, rfl, rfl⟩

/-- A turn that goes on behind the calls of a reply. -/
theorem turnLoop_ends {nextReply : Usage → RuntimeM ω Reply} (hasks : Asks nextReply) (left : Nat)
    (summary : TurnSummary) (s : Running ω) (hs : Complete s.messages) :
    Ends (self.turnLoop host prompter nextReply left summary) s
      (fun summary t => Complete t.messages ∧ ∃ labels, t.trace = s.trace ++ labels ∧
        TurnTrace self.permissionPolicy host.floatText (labels ++ [.ended (.ok summary)]))
      (fun stop t => Complete t.messages ∧ ∃ labels, t.trace = s.trace ++ labels ∧
        TurnTrace self.permissionPolicy host.floatText (labels ++ [.ended (.stopped stop)])) := by
  induction left generalizing summary s with
  | zero => exact ⟨hs, [], (List.append_nil _).symm, .limit⟩
  | succ left ih =>
    refine ends_bind ((hasks summary.usage s).mono ?_ ?_)
    · rintro reply t ⟨hmessages, request, hrequest, htrace⟩
      have hcomplete : Complete request.messages := by rwa [hrequest]
      refine ends_bind_of_ok (rfl : _ = EStateM.Result.ok () _) ?_
      simp only
      apply ends_ite
      · intro hempty
        have hnone : reply.toolUses = [] := List.isEmpty_iff.mp hempty
        refine ends_pure ⟨?_, [.request request], htrace, .ended hcomplete _⟩
        rw [hmessages, hnone]
        exact hs.append (.reply reply.content [])
      · intro _
        refine ends_bind ((runTools_ends self host prompter _ reply.toolUses _).mono ?_
          (fun _ _ h => h.elim))
        rintro summary' u ⟨answers, labels, hfst, humessages, hutrace, hcalls⟩
        have hu : Complete u.messages := by
          rw [humessages, hmessages, ← hfst, List.append_assoc]
          exact hs.append (.reply reply.content answers)
        have hafter (turnEnd : TurnEnd) (v : Running ω) (hv : Complete v.messages ∧
            ∃ more, v.trace = u.trace ++ more ∧
              TurnTrace self.permissionPolicy host.floatText (more ++ [.ended turnEnd])) :
            Complete v.messages ∧ ∃ more, v.trace = s.trace ++ more ∧
              TurnTrace self.permissionPolicy host.floatText (more ++ [.ended turnEnd]) := by
          obtain ⟨hvcomplete, more, hvtrace, hmore⟩ := hv
          refine ⟨hvcomplete, .request request :: (labels ++ more), ?_, ?_⟩
          · rw [hvtrace, hutrace, htrace]
            simp
          · have hcall := TurnTrace.calls hcomplete hcalls hmore
            rwa [← List.append_assoc] at hcall
        exact (ih summary' u hu).mono (fun _ v hv => hafter _ v hv) (fun _ v hv => hafter _ v hv)
    · rintro stop t ⟨hmessages, request, hrequest, htrace⟩
      refine ⟨by rwa [hmessages], [.request request], htrace, .ended ?_ _⟩
      rwa [hrequest]

theorem takeTurn_ends (turn : Turn ω) (s : Running ω) (hs : Complete s.messages) :
    Ends (self.takeTurn host serde turn) s
      (fun summary t => Complete t.messages ∧ ∃ labels, t.trace = s.trace ++ labels ∧
        TurnTrace self.permissionPolicy host.floatText (labels ++ [.ended (.ok summary)]))
      (fun stop t => Complete t.messages ∧ ∃ labels, t.trace = s.trace ++ labels ∧
        TurnTrace self.permissionPolicy host.floatText (labels ++ [.ended (.stopped stop)])) := by
  have hpushed := hs.append (.user turn.userInput)
  apply ends_ite
  · intro _
    refine ends_bind_of_ok (rfl : _ = EStateM.Result.ok () _) ?_
    exact turnLoop_ends self host turn.prompter (streamReply_asks self host serde) _ _ _ hpushed
  · intro _
    refine ends_bind_of_ok (rfl : _ = EStateM.Result.ok () _) ?_
    exact turnLoop_ends self host turn.prompter (askForReply_asks self host) _ _ _ hpushed

theorem RunTrace.snoc {policy : PermissionPolicy} {floatText : UInt64 → RustString}
    {trace labels : List Action} (h : RunTrace policy floatText trace)
    (hturn : TurnTrace policy floatText labels) : RunTrace policy floatText (trace ++ labels) := by
  obtain ⟨turns, rfl, hturns⟩ := h
  refine ⟨turns ++ [labels], by simp, ?_⟩
  intro t ht
  obtain ht | ht := List.mem_append.mp ht
  · exact hturns t ht
  · rwa [List.mem_singleton.mp ht]

theorem runTurns_trace (turns : List (Turn ω)) (s : Running ω) (hs : Complete s.messages)
    (htrace : RunTrace self.permissionPolicy host.floatText s.trace) :
    RunTrace self.permissionPolicy host.floatText (self.runTurns host serde turns s).trace ∧
      Complete (self.runTurns host serde turns s).messages := by
  induction turns generalizing s with
  | nil => exact ⟨htrace, hs⟩
  | cons turn turns ih =>
    have hturn := takeTurn_ends self host serde turn s hs
    have hended {t : Running ω} {turnEnd : TurnEnd} (h : ∃ labels, t.trace = s.trace ++ labels ∧
        TurnTrace self.permissionPolicy host.floatText (labels ++ [.ended turnEnd])) :
        RunTrace self.permissionPolicy host.floatText (noteEnd t turnEnd).trace := by
      obtain ⟨labels, heq, hlabels⟩ := h
      rw [noteEnd, heq, List.append_assoc]
      exact RunTrace.snoc htrace hlabels
    rw [runTurns]
    rw [Ends] at hturn
    cases hrun : self.takeTurn host serde turn s with
    | ok summary t =>
      rw [hrun] at hturn
      exact ih (noteEnd t (.ok summary)) hturn.1 (hended hturn.2)
    | error stop t =>
      rw [hrun] at hturn
      cases stop with
      | error error => exact ih (noteEnd t (.stopped (.error error))) hturn.1 (hended hturn.2)
      | panic p => exact ⟨hended hturn.2, hturn.1⟩

/-- The actions and the session of every run of turns from an empty session. -/
theorem after_trace (turns : List (Turn ω)) (world : ω) :
    RunTrace self.permissionPolicy host.floatText (self.after host serde turns world).trace ∧
      Complete (self.after host serde turns world).messages :=
  runTurns_trace self host serde turns _ .nil ⟨[], rfl, by simp⟩

end turns

end ConversationRuntime

end Solarcido.Crates
