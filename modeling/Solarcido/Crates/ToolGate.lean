import Solarcido.Crates.TurnTraces
import Solarcido.Lib.Serial

namespace Solarcido.Crates

open RustText Serial

section gate

/-- A tool result that is an error, by its flag or by its text. -/
def isErrorResult : InputContentBlock → Bool
  | .toolResult _ content isError => isError || content.any fun block =>
    match block with
    | .text text => startsWith text (str "ERROR:")
    | .json value => ((value.get (str "error")).bind Value.asBool).getD false
  | _ => false

/-- What a run can do next behind the answer to a call. -/
def GoesOn : Action → Prop
  | .call _ => True
  | .request _ => True
  | .ended turnEnd => turnEnd = .stopped (.error ConversationRuntime.iterationsExceeded)
  | _ => False

variable (policy : PermissionPolicy) (floatText : UInt64 → RustString)

/-- The mode is high enough, or this very call has just been approved. -/
def ExecutedRightly (before : List Action) : Action → List Action → Prop
  | .execute name input, _ => policy.requiredModeFor name ≤ policy.activeMode ∨
    (policy.activeMode = .workspaceWrite ∧ policy.requiredModeFor name = .dangerFullAccess ∧
      ∃ earlier, before = earlier ++
        [.prompt ⟨name, input.display floatText, .workspaceWrite, .dangerFullAccess⟩ true])
  | _, _ => True

/-- A call is executed, or denied: then the answer to it is an error and the run goes on. -/
def CalledRightly (_ : List Action) : Action → List Action → Prop
  | .call toolUse, after =>
    (∃ prompted message more, after =
      prompted ++ .execute toolUse.name toolUse.input :: .result message :: more ∧
        Permitted policy floatText toolUse prompted) ∨
    (∃ prompted content isError next more, after =
      prompted ++ .result ⟨str "user", [.toolResult toolUse.id content isError]⟩ :: next :: more ∧
        Refused floatText toolUse prompted ∧
        isErrorResult (.toolResult toolUse.id content isError) = true ∧ GoesOn next)
  | _, _ => True

variable {policy floatText}

theorem executedRightly_left (x before : List Action) (o : Action) (after : List Action)
    (h : ExecutedRightly policy floatText before o after) :
    ExecutedRightly policy floatText (x ++ before) o after := by
  cases o with
  | execute name input =>
    obtain h | ⟨hactive, hrequired, earlier, rfl⟩ := h
    · exact Or.inl h
    · exact Or.inr ⟨hactive, hrequired, x ++ earlier, (List.append_assoc _ _ _).symm⟩
  | _ => trivial

theorem executedRightly_right (x before : List Action) (o : Action) (after : List Action)
    (h : ExecutedRightly policy floatText before o after) :
    ExecutedRightly policy floatText before o (after ++ x) := by
  cases o with
  | execute name input => exact h
  | _ => trivial

theorem calledRightly_left (x before : List Action) (o : Action) (after : List Action)
    (h : CalledRightly policy floatText before o after) :
    CalledRightly policy floatText (x ++ before) o after := by
  cases o with
  | call toolUse => exact h
  | _ => trivial

theorem calledRightly_right (x before : List Action) (o : Action) (after : List Action)
    (h : CalledRightly policy floatText before o after) :
    CalledRightly policy floatText before o (after ++ x) := by
  cases o with
  | call toolUse =>
    obtain ⟨prompted, message, more, rfl, hpermitted⟩ |
      ⟨prompted, content, isError, next, more, rfl, hrefused⟩ := h
    · exact Or.inl ⟨prompted, message, more ++ x, by simp, hpermitted⟩
    · exact Or.inr ⟨prompted, content, isError, next, more ++ x, by simp, hrefused⟩
  | _ => trivial

section calls

variable {toolUse : ToolUse} {output : RustString} {answers : List (ToolUse × RustString)}
  {labels : List Action}

theorem CallTrace.executedRightly (h : CallTrace policy floatText toolUse output labels) :
    Everywhere (ExecutedRightly policy floatText) labels := by
  have hother (o : Action) (hne : ∀ name input, o ≠ .execute name input) (before after : List Action) :
      ExecutedRightly policy floatText before o after := by
    cases o with
    | execute name input => exact absurd rfl (hne name input)
    | _ => trivial
  have hlast (message : InputMessage) :
      Everywhere (ExecutedRightly policy floatText) [.result message] := by
    apply everywhere_of_forall
    intro o ho
    obtain rfl := List.mem_singleton.mp ho
    exact hother _ (by simp)
  cases h with
  | allowed h =>
    cases h with
    | mode hmode =>
      refine Everywhere.cons executedRightly_left trivial (Everywhere.cons executedRightly_left ?_
        (hlast _))
      exact Or.inl hmode
    | approval hactive hrequired =>
      rintro before o after hsplit
      match before with
      | [] =>
        obtain ⟨rfl, -⟩ := List.cons.inj hsplit
        trivial
      | [first] =>
        obtain ⟨-, hsplit⟩ := List.cons.inj hsplit
        obtain ⟨rfl, -⟩ := List.cons.inj hsplit
        trivial
      | first :: second :: rest =>
        simp only [List.cons_append, List.nil_append, List.cons.injEq] at hsplit
        obtain ⟨rfl, rfl, hsplit⟩ := hsplit
        cases rest with
        | nil =>
          obtain ⟨rfl, -⟩ := List.cons.inj hsplit
          exact Or.inr ⟨hactive, hrequired, [.call toolUse], rfl⟩
        | cons third rest =>
          obtain ⟨-, hsplit⟩ := List.cons.inj hsplit
          exact executedRightly_left [_, _, third] rest o after (hlast _ rest o after hsplit)
  | denied h hmode reason houtput =>
    refine Everywhere.cons executedRightly_left trivial ?_
    apply everywhere_of_forall
    intro o ho
    apply hother
    rintro name input rfl
    cases h with
    | mode => simp at ho
    | disapproval => simp at ho

/-- Behind the actions of a call the run goes on. -/
theorem CallTrace.calledRightly (h : CallTrace policy floatText toolUse output labels)
    {next : Action} {more : List Action} (hnext : GoesOn next)
    (hmore : Everywhere (CalledRightly policy floatText) (next :: more)) :
    Everywhere (CalledRightly policy floatText) (labels ++ next :: more) := by
  have hother (o : Action) (hne : ∀ toolUse, o ≠ .call toolUse) (before after : List Action) :
      CalledRightly policy floatText before o after := by
    cases o with
    | call toolUse => exact absurd rfl (hne toolUse)
    | _ => trivial
  cases h with
  | allowed h =>
    refine Everywhere.cons calledRightly_left ?_ (Everywhere.append calledRightly_left
      calledRightly_right (everywhere_of_forall ?_) hmore)
    · exact Or.inl ⟨_, Exchange.answer (toolUse, output), next :: more, by simp, h⟩
    · intro o ho
      apply hother
      rintro toolUse' rfl
      cases h with
      | mode => simp at ho
      | approval => simp at ho
  | denied h hmode reason houtput =>
    refine Everywhere.cons calledRightly_left ?_ (Everywhere.append calledRightly_left
      calledRightly_right (everywhere_of_forall ?_) hmore)
    · refine Or.inr ⟨_, [.text output], false, next, more, by simp; rfl, h, ?_, hnext⟩
      simp [isErrorResult, startsWith, houtput, str, List.isPrefixOf]
    · intro o ho
      apply hother
      rintro toolUse' rfl
      cases h with
      | mode => simp at ho
      | disapproval => simp at ho

theorem CallsTrace.executedRightly (h : CallsTrace policy floatText answers labels) :
    Everywhere (ExecutedRightly policy floatText) labels := by
  induction h with
  | nil => exact everywhere_of_forall fun o ho => absurd ho List.not_mem_nil
  | cons first rest ih =>
    exact first.executedRightly.append executedRightly_left executedRightly_right ih

theorem CallTrace.starts (h : CallTrace policy floatText toolUse output labels) :
    ∃ rest, labels = .call toolUse :: rest := by
  cases h with
  | allowed h => exact ⟨_, rfl⟩
  | denied h hmode reason houtput => exact ⟨_, rfl⟩

theorem CallsTrace.calledRightly (h : CallsTrace policy floatText answers labels)
    {next : Action} {more : List Action} (hnext : GoesOn next)
    (hmore : Everywhere (CalledRightly policy floatText) (next :: more)) :
    Everywhere (CalledRightly policy floatText) (labels ++ next :: more) := by
  induction h with
  | nil => exact hmore
  | cons first rest ih =>
    rw [List.append_assoc]
    cases rest with
    | nil => exact first.calledRightly hnext hmore
    | cons second rest =>
      obtain ⟨tail, htail⟩ := second.starts
      rw [htail] at ih ⊢
      exact first.calledRightly trivial ih

end calls

theorem TurnTrace.starts {labels : List Action} (h : TurnTrace policy floatText labels) :
    ∃ next more, labels = next :: more ∧ GoesOn next := by
  cases h with
  | limit => exact ⟨_, _, rfl, rfl⟩
  | ended h turnEnd => exact ⟨_, _, rfl, trivial⟩
  | calls h hcalls rest => exact ⟨_, _, rfl, trivial⟩

theorem TurnTrace.executedRightly {labels : List Action} (h : TurnTrace policy floatText labels) :
    Everywhere (ExecutedRightly policy floatText) labels := by
  induction h with
  | limit =>
    exact everywhere_of_forall fun o ho => by
      obtain rfl := List.mem_singleton.mp ho
      exact fun _ _ => trivial
  | ended h turnEnd =>
    refine Everywhere.cons executedRightly_left trivial (everywhere_of_forall ?_)
    intro o ho
    obtain rfl := List.mem_singleton.mp ho
    exact fun _ _ => trivial
  | calls h hcalls rest ih =>
    exact Everywhere.cons executedRightly_left trivial
      (hcalls.executedRightly.append executedRightly_left executedRightly_right ih)

theorem TurnTrace.calledRightly {labels : List Action} (h : TurnTrace policy floatText labels) :
    Everywhere (CalledRightly policy floatText) labels := by
  induction h with
  | limit =>
    exact everywhere_of_forall fun o ho => by
      obtain rfl := List.mem_singleton.mp ho
      exact fun _ _ => trivial
  | ended h turnEnd =>
    refine Everywhere.cons calledRightly_left trivial (everywhere_of_forall ?_)
    intro o ho
    obtain rfl := List.mem_singleton.mp ho
    exact fun _ _ => trivial
  | calls h hcalls rest ih =>
    refine Everywhere.cons calledRightly_left trivial ?_
    obtain ⟨next, more, rfl, hnext⟩ := rest.starts
    exact hcalls.calledRightly hnext ih

end gate

namespace ConversationRuntime

variable {ω : Type}

/-- In every run a tool is executed only if the mode is high enough or the prompter has just
approved the call; a denied call is answered by an error, and the run goes on. -/
theorem tools_gated (self : ConversationRuntime) (host : Host ω) (serde : SerdeJson)
    (turns : List (Turn ω)) (world : ω) :
    (∀ before name input after, (self.after host serde turns world).trace =
        before ++ .execute name input :: after →
      self.permissionPolicy.requiredModeFor name ≤ self.permissionPolicy.activeMode ∨
      (self.permissionPolicy.activeMode = .workspaceWrite ∧
        self.permissionPolicy.requiredModeFor name = .dangerFullAccess ∧
        ∃ earlier, before = earlier ++ [.prompt ⟨name, input.display host.floatText,
          .workspaceWrite, .dangerFullAccess⟩ true])) ∧
    (self.permissionPolicy.activeMode = .readOnly → ∀ name input,
      .execute name input ∈ (self.after host serde turns world).trace →
        self.permissionPolicy.requiredModeFor name = .readOnly) ∧
    (∀ name, (∀ mode, (name, mode) ∉ self.permissionPolicy.requirements) →
      self.permissionPolicy.requiredModeFor name = .dangerFullAccess) ∧
    ∀ before toolUse after, (self.after host serde turns world).trace =
        before ++ .call toolUse :: after →
      (∃ prompted message more, after =
        prompted ++ .execute toolUse.name toolUse.input :: .result message :: more ∧
          Permitted self.permissionPolicy host.floatText toolUse prompted) ∨
      ∃ prompted content isError next more, after =
        prompted ++ .result ⟨str "user", [.toolResult toolUse.id content isError]⟩ :: next :: more ∧
          Refused host.floatText toolUse prompted ∧
          isErrorResult (.toolResult toolUse.id content isError) = true ∧ GoesOn next := by
  obtain ⟨⟨traces, htrace, hturns⟩, -⟩ := self.after_trace host serde turns world
  have hexecuted : Everywhere (ExecutedRightly self.permissionPolicy host.floatText)
      (self.after host serde turns world).trace := by
    rw [htrace]
    exact everywhere_flatten executedRightly_left executedRightly_right
      fun t ht => (hturns t ht).executedRightly
  have hcalled : Everywhere (CalledRightly self.permissionPolicy host.floatText)
      (self.after host serde turns world).trace := by
    rw [htrace]
    exact everywhere_flatten calledRightly_left calledRightly_right
      fun t ht => (hturns t ht).calledRightly
  refine ⟨fun before name input after h => hexecuted before _ after h, ?_, ?_,
    fun before toolUse after h => hcalled before _ after h⟩
  · intro hreadOnly name input hmem
    obtain ⟨before, after, hsplit⟩ := List.append_of_mem hmem
    obtain hmode | ⟨hactive, -⟩ := hexecuted before _ after hsplit
    · rw [hreadOnly] at hmode
      exact PermissionMode.le_readOnly hmode
    · rw [hreadOnly] at hactive
      cases hactive
  · intro name
    exact PermissionPolicy.requiredModeFor_undeclared

end ConversationRuntime

end Solarcido.Crates
