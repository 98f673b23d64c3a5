import Mathlib.Data.List.Infix
import Solarcido.Crates.ToolPairing

namespace Solarcido.Crates

open RustText ThrowingProgram

variable {ω : Type}

section growth

def Action.sent : Action → Option (List InputMessage)
  | .request asked => some asked.messages
  | _ => none

/-- The sessions that are sent with the requests of a run, in their order. -/
def sentSessions (trace : List Action) : List (List InputMessage) := trace.filterMap Action.sent

theorem sentSessions_append (labels more : List Action) :
    sentSessions (labels ++ more) = sentSessions labels ++ sentSessions more :=
  List.filterMap_append

theorem sentSessions_eq_nil {labels : List Action}
    (h : ∀ request : MessageRequest, .request request ∉ labels) : sentSessions labels = [] := by
  apply List.filterMap_eq_nil_iff.mpr
  intro action hmem
  cases action with
  | request request => exact absurd hmem (h request)
  | call | prompt | execute | result | ended => rfl

/-- From an earlier to a later session nothing is taken back, and what is sent on the way, at most
so many times, lies in between. -/
def Grows (times : Nat) (s t : Running ω) : Prop :=
  ∃ labels, t.trace = s.trace ++ labels ∧ s.messages <+: t.messages ∧
    (∀ sent ∈ sentSessions labels, s.messages <+: sent ∧ sent <+: t.messages) ∧
    (sentSessions labels).Pairwise (· <+: ·) ∧ (sentSessions labels).length ≤ times

theorem Grows.of_quiet {times : Nat} {s t : Running ω} {labels : List Action}
    (htrace : t.trace = s.trace ++ labels) (hmessages : s.messages <+: t.messages)
    (hquiet : ∀ request : MessageRequest, .request request ∉ labels) : Grows times s t := by
  refine ⟨labels, htrace, hmessages, ?_⟩
  rw [sentSessions_eq_nil hquiet]
  simp

theorem Grows.refl (times : Nat) (s : Running ω) : Grows times s s :=
  .of_quiet (List.append_nil _).symm (List.prefix_refl _) (by simp)

theorem Grows.trans {first second : Nat} {s t u : Running ω} (hst : Grows first s t)
    (htu : Grows second t u) : Grows (first + second) s u := by
  obtain ⟨labels, ht, hgrown, hsent, hchain, hcount⟩ := hst
  obtain ⟨more, hu, hgrown', hsent', hchain', hcount'⟩ := htu
  refine ⟨labels ++ more, by rw [hu, ht, List.append_assoc], hgrown.trans hgrown', ?_⟩
  rw [sentSessions_append, List.pairwise_append, List.length_append]
  refine ⟨fun sent hmem => ?_, ⟨hchain, hchain', fun sent hmem later hlater => ?_⟩, by omega⟩
  · rcases List.mem_append.mp hmem with hfirst | hsecond
    · exact ⟨(hsent sent hfirst).1, (hsent sent hfirst).2.trans hgrown'⟩
    · exact ⟨hgrown.trans (hsent' sent hsecond).1, (hsent' sent hsecond).2⟩
  · exact (hsent sent hmem).2.trans (hsent' later hlater).1

theorem Grows.mono {times more : Nat} {s t : Running ω} (h : Grows times s t)
    (hle : times ≤ more) : Grows more s t := by
  obtain ⟨labels, ht, hgrown, hsent, hchain, hcount⟩ := h
  exact ⟨labels, ht, hgrown, hsent, hchain, hcount.trans hle⟩

end growth

namespace ConversationRuntime

variable (self : ConversationRuntime) (host : Host ω) (serde : SerdeJson)
  (prompter : Option (Prompter ω))

section turns

theorem nextReply_grows {nextReply : Usage → RuntimeM ω Reply} (hasks : Asks nextReply)
    (usage : Usage) : Keeps (Grows 1) (nextReply usage) := by
  apply (hasks usage).mono
  rintro s t ⟨hmessages, request, hrequest, htrace⟩
  refine ⟨[.request request], htrace, by rw [hmessages], ?_⟩
  simp [sentSessions, Action.sent, hrequest, hmessages]

theorem runTools_grows (summary : TurnSummary) (toolUses : List ToolUse) :
    Keeps (Grows 0) (self.runTools host prompter summary toolUses) := by
  intro s
  apply (runTools_ends self host prompter summary toolUses s).mono
  · rintro summary' t ⟨answers, labels, -, hmessages, htrace, hcalls⟩
    apply Grows.of_quiet htrace
    · rw [hmessages]
      exact List.prefix_append _ _
    · exact hcalls.no_request
  · intro stop t h
    exact h.elim

theorem push_grows (message : InputMessage) : Keeps (Grows 0) (push message : RuntimeM ω Unit) := by
  apply keeps_modify
  intro s
  exact .of_quiet (List.append_nil _).symm (List.prefix_append _ _) (by simp)

/-- Each iteration sends the session once. -/
theorem turnLoop_grows {nextReply : Usage → RuntimeM ω Reply} (hasks : Asks nextReply)
    (left : Nat) (summary : TurnSummary) :
    Keeps (Grows left) (self.turnLoop host prompter nextReply left summary) := by
  induction left generalizing summary with
  | zero => exact fun s => ends_throw (Grows.refl 0 s)
  | succ left ih =>
    intro s
    apply ends_bind
    refine (nextReply_grows hasks summary.usage s).mono (fun reply t ht => ?_)
      (fun stop t ht => ht.mono (by omega))
    apply ends_bind
    refine (push_grows _ t).mono (fun _ u hu => ?_) (fun stop u hu => (ht.trans hu).mono (by omega))
    have hreplied := ht.trans hu
    dsimp only
    refine ends_ite (fun _ => ends_pure (hreplied.mono (by omega))) fun _ => ?_
    apply ends_bind
    refine (runTools_grows self host prompter _ reply.toolUses u).mono (fun summary' v hv => ?_)
      (fun stop v hv => (hreplied.trans hv).mono (by omega))
    exact (ih summary' v).mono (fun _ w hw => ((hreplied.trans hv).trans hw).mono (by omega))
      (fun _ w hw => ((hreplied.trans hv).trans hw).mono (by omega))

theorem takeTurn_grows (turn : Turn ω) :
    Keeps (Grows self.maxIterations) (self.takeTurn host serde turn) := by
  have hloop : ∀ {nextReply : Usage → RuntimeM ω Reply}, Asks nextReply →
      Keeps (Grows self.maxIterations) (do
        push (.userText turn.userInput)
        self.turnLoop host turn.prompter nextReply self.maxIterations .default) := by
    intro nextReply hasks s
    apply ends_bind
    refine (push_grows _ s).mono (fun _ t ht => ?_) (fun stop t ht => ht.mono (by omega))
    exact (turnLoop_grows self host turn.prompter hasks _ _ t).mono
      (fun _ u hu => (ht.trans hu).mono (by omega))
      (fun _ u hu => (ht.trans hu).mono (by omega))
  apply keeps_ite
  · intro _
    exact hloop (streamReply_asks self host serde)
  · intro _
    exact hloop (askForReply_asks self host)

theorem noteEnd_grows (s : Running ω) (turnEnd : TurnEnd) : Grows 0 s (noteEnd s turnEnd) :=
  .of_quiet rfl (List.prefix_refl _) (by simp)

theorem runTurns_grows (turns : List (Turn ω)) (s : Running ω) :
    Grows (turns.length * self.maxIterations) s (self.runTurns host serde turns s) := by
  induction turns generalizing s with
  | nil => exact .refl _ s
  | cons turn turns ih =>
    have hturn := takeTurn_grows self host serde turn s
    have hcount : self.maxIterations + 0 + turns.length * self.maxIterations =
        (turn :: turns).length * self.maxIterations := by
      rw [List.length_cons, Nat.succ_mul]
      omega
    rw [runTurns]
    rw [Ends] at hturn
    rw [← hcount]
    cases hrun : self.takeTurn host serde turn s with
    | ok summary t =>
      rw [hrun] at hturn
      exact (hturn.trans (noteEnd_grows t _)).trans (ih _)
    | error stop t =>
      rw [hrun] at hturn
      cases stop with
      | error error => exact (hturn.trans (noteEnd_grows t _)).trans (ih _)
      | panic p => exact (hturn.trans (noteEnd_grows t _)).mono (by omega)

end turns

/-- Over turns of any kind, however each of them ends, the session is only added to: what a request
sends begins with the session at the start and is what all later ones and the session at the end
begin with, and each turn sends it at most as often as it may iterate. -/
theorem session_grows (turns : List (Turn ω)) (messages : List InputMessage) (world : ω) :
    let last := self.runTurns host serde turns ⟨messages, world, []⟩
    (sentSessions last.trace).Pairwise (· <+: ·) ∧
      (∀ sent ∈ sentSessions last.trace, messages <+: sent ∧ sent <+: last.messages) ∧
      (sentSessions last.trace).length ≤ turns.length * self.maxIterations := by
  intro last
  obtain ⟨labels, htrace, -, hsent, hchain, hcount⟩ :=
    runTurns_grows self host serde turns ⟨messages, world, []⟩
  change last.trace = [] ++ labels at htrace
  rw [List.nil_append] at htrace
  rw [htrace]
  exact ⟨hchain, hsent, hcount⟩

end ConversationRuntime

end Solarcido.Crates
