import Solarcido.Crates.TokenUsage

namespace Solarcido.Crates

open RustText Counters ThrowingProgram

variable {ω : Type}

/-- What the model answers when it is asked for a reply, as a whole or as a stream. -/
structure Answer where
  response : MessageResponse
  events : List StreamEvent

/-- A client whose answers are given beforehand, next to whatever else is outside. -/
def Host.scripted (host : Host ω) : Host (ω × List Answer) where
  sendMessage _ w :=
    match w.2 with
    | [] => (.error (.api (.transport [])), w)
    | answer :: rest => (.ok answer.response, (w.1, rest))
  streamMessage _ w :=
    match w.2 with
    | [] => (⟨[], some (.api (.transport []))⟩, w)
    | answer :: rest => (⟨answer.events, none⟩, (w.1, rest))
  definitions w := host.definitions w.1
  execute name input w := ((host.execute name input w.1).1, ((host.execute name input w.1).2, w.2))
  floatText := host.floatText

def Prompter.scripted (prompter : Prompter ω) : Prompter (ω × List Answer) := fun request w =>
  ((prompter request w.1).1, ((prompter request w.1).2, w.2))

section replies

/-- The usage an event reports. -/
def eventUsage : StreamEvent → Option Usage
  | .messageDelta _ usage => some usage
  | _ => none

/-- What is gathered of a stream besides its usage. -/
structure GatheredBlocks where
  content : RustString
  toolUses : SortedMap U32 StreamingToolUse

def GatheredBlocks.empty : GatheredBlocks := ⟨[], .empty⟩

def GatheredBlocks.metered (s : GatheredBlocks) (usage : Usage) : Gathered :=
  ⟨s.content, s.toolUses, usage⟩

def gatherBlocks (s : GatheredBlocks) : StreamEvent → GatheredBlocks
  | .contentBlockStart index (.toolUse id name _) =>
    { s with toolUses := s.toolUses.set index ⟨id, name, []⟩ }
  | .contentBlockDelta _ (.textDelta text) => { s with content := s.content ++ text }
  | .contentBlockDelta index (.inputJsonDelta partialJson) =>
    match s.toolUses.get index with
    | some toolUse => { s with
        toolUses := s.toolUses.set index
          { toolUse with inputJson := toolUse.inputJson ++ partialJson } }
    | none => s
  | _ => s

theorem gather_metered (s : GatheredBlocks) (usage : Usage) (e : StreamEvent) :
    gather (s.metered usage) e =
      ((eventUsage e).elim (.ok usage) usage.add).map (gatherBlocks s e).metered := by
  cases e with
  | contentBlockStart index block => cases block <;> rfl
  | contentBlockDelta index delta =>
    cases delta with
    | textDelta text => rfl
    | inputJsonDelta partialJson =>
      simp only [gather, eventUsage, gatherBlocks, GatheredBlocks.metered]
      cases s.toolUses.get index <;> rfl
  | _ => rfl

theorem foldlM_gather (s : GatheredBlocks) (usage : Usage) (events : List StreamEvent) :
    events.foldlM gather (s.metered usage) =
      ((events.filterMap eventUsage).foldlM Usage.add usage).map
        (events.foldl gatherBlocks s).metered := by
  induction events generalizing s usage with
  | nil => rfl
  | cons e events ih =>
    rw [List.foldlM_cons, gather_metered, List.filterMap_cons, List.foldl_cons]
    cases eventUsage e with
    | none => exact ih (gatherBlocks s e) usage
    | some more =>
      simp only [Option.elim_some, List.foldlM_cons]
      cases usage.add more with
      | error p => rfl
      | ok sum => exact ih (gatherBlocks s e) sum

/-- A reply with a usage added up from several ones. -/
structure AddsUp (reply : Usage → Except Panic Reply) (usages : List Usage) (base : Usage → Reply) :
    Prop where
  eq : ∀ usage, reply usage = (usages.foldlM Usage.add usage).map base
  usage : ∀ usage, (base usage).usage = usage

theorem replyOfResponse_addsUp (response : MessageResponse) :
    AddsUp (fun usage => replyOfResponse usage response) [response.usage] fun usage =>
      ⟨response.content.foldl takeText [], response.content.filterMap toolUseOf, usage⟩ where
  eq usage := by
    rw [replyOfResponse, List.foldlM_cons]
    cases usage.add response.usage <;> rfl
  usage _ := rfl

theorem replyOfEvents_addsUp (serde : SerdeJson) (events : List StreamEvent) :
    AddsUp (fun usage => replyOfEvents serde usage events) (events.filterMap eventUsage)
      fun usage => ⟨(events.foldl gatherBlocks .empty).content,
        (events.foldl gatherBlocks .empty).toolUses.values.map (StreamingToolUse.finalize serde),
        usage⟩ where
  eq usage := by
    rw [replyOfEvents]
    have hfold := foldlM_gather .empty usage events
    rw [GatheredBlocks.metered] at hfold
    rw [GatheredBlocks.empty] at hfold ⊢
    rw [hfold]
    cases (events.filterMap eventUsage).foldlM Usage.add usage <;> rfl
  usage _ := rfl

end replies

namespace ConversationRuntime

variable (self : ConversationRuntime) (host : Host ω) (serde : SerdeJson)
  (prompter : Option (Prompter ω))

section calls

theorem authorize_scripted (toolName input : RustString) (s : Running (ω × List Answer)) :
    Ends (self.permissionPolicy.authorize toolName input (prompter.map Prompter.scripted)) s
      (fun _ t => t.world.2 = s.world.2) (fun _ _ => False) := by
  rw [PermissionPolicy.authorize]
  apply ends_ite
  · intro _
    exact ends_pure rfl
  · intro _
    apply ends_ite
    · intro _
      cases prompter with
      | none => exact ends_pure rfl
      | some decide =>
        exact ends_bind_of_ok (rfl : _ = EStateM.Result.ok (decide _ s.world.1).1 _) rfl
    · intro _
      exact ends_pure rfl

theorem toolOutput_scripted (toolUse : ToolUse) (outcome : PermissionOutcome)
    (s : Running (ω × List Answer)) : Ends (toolOutput host.scripted toolUse outcome) s
      (fun _ t => t.world.2 = s.world.2) (fun _ _ => False) := by
  cases outcome with
  | allow =>
    refine ends_bind_of_ok (rfl : _ = EStateM.Result.ok () _) ?_
    refine ends_bind_of_ok
      (rfl : _ = EStateM.Result.ok (host.execute toolUse.name toolUse.input s.world.1).1 _) ?_
    cases (host.execute toolUse.name toolUse.input s.world.1).1 <;> exact rfl
  | deny reason => exact ends_pure rfl

/-- The calls of a reply leave the script and the usage alone. -/
theorem runTools_scripted (summary : TurnSummary) (toolUses : List ToolUse)
    (s : Running (ω × List Answer)) :
    Ends (self.runTools host.scripted (prompter.map Prompter.scripted) summary toolUses) s
      (fun summary' t => summary'.usage = summary.usage ∧ t.world.2 = s.world.2)
      (fun _ _ => False) := by
  induction toolUses generalizing summary s with
  | nil => exact ends_pure ⟨rfl, rfl⟩
  | cons toolUse rest ih =>
    refine ends_bind (ends_bind_of_ok (rfl : _ = EStateM.Result.ok () _) (ends_bind ?_))
    refine (authorize_scripted self prompter _ _ _).mono ?_ (fun _ _ h => h)
    intro outcome t ht
    refine ends_bind ((toolOutput_scripted host toolUse outcome t).mono ?_ (fun _ _ h => h))
    intro output u hu
    refine (ih _ _).mono ?_ (fun _ _ h => h)
    rintro summary' v ⟨husage, hv⟩
    exact ⟨husage, hv.trans (hu.trans ht)⟩

end calls

section turns

variable (usages : Answer → List Usage) (toolUses : Answer → List ToolUse)

/-- The answers a turn asks for, with the iterations that are left. -/
def received : Nat → List Answer → List Answer
  | 0, _ => []
  | _ + 1, [] => []
  | left + 1, answer :: rest =>
    answer :: if (toolUses answer).isEmpty then [] else received left rest

/-- A turn comes to an answer without calls. -/
def completes : Nat → List Answer → Bool
  | 0, _ => false
  | _ + 1, [] => false
  | left + 1, answer :: rest => (toolUses answer).isEmpty || completes left rest

/-- The replies of a turn are read off the script. -/
structure Reads (nextReply : Usage → RuntimeM (ω × List Answer) Reply) : Prop where
  out : ∀ usage s, s.world.2 = [] → ∃ e t, nextReply usage s = .error (.error e) t
  next : ∀ usage s answer rest, s.world.2 = answer :: rest → ∃ t base, t.world.2 = rest ∧
    nextReply usage s = orPanic (((usages answer).foldlM Usage.add usage).map base) t ∧
    ∀ usage, (base usage).usage = usage ∧ (base usage).toolUses = toolUses answer

variable {usages toolUses} {nextReply : Usage → RuntimeM (ω × List Answer) Reply}

/-- What a turn has received of a usage. -/
abbrev FitsTurn (usage : Usage) (usages : List Usage) : Prop :=
  Fits UsageCounter.count UsageCounter.count (2 ^ 32) usage usages

/-- A usage has grown by what has been received. -/
abbrev Grown (usage usage' : Usage) (usages : List Usage) : Prop :=
  ∀ i, UsageCounter.count i usage' =
    UsageCounter.count i usage + gained UsageCounter.count i usages

/-- An iteration counts what its answer reports; an answer without calls is the last one. -/
theorem turnLoop_iteration (hreads : Reads usages toolUses nextReply) {left : Nat}
    {summary : TurnSummary} {s : Running (ω × List Answer)} {answer : Answer} {rest : List Answer}
    {P : TurnSummary → Running (ω × List Answer) → Prop}
    {E : Stop → Running (ω × List Answer) → Prop}
    (hscript : s.world.2 = answer :: rest) (hfits : FitsTurn summary.usage (usages answer))
    (hdone : (toolUses answer).isEmpty → ∀ summary' t,
      Grown summary.usage summary'.usage (usages answer) → P summary' t)
    (hcalls : ¬ (toolUses answer).isEmpty → ∀ summary' t, t.world.2 = rest →
      Grown summary.usage summary'.usage (usages answer) →
      Ends (self.turnLoop host.scripted (prompter.map Prompter.scripted) nextReply left summary')
        t P E) :
    Ends (self.turnLoop host.scripted (prompter.map Prompter.scripted) nextReply (left + 1)
      summary) s P E := by
  obtain ⟨t, base, ht, hreply, hbase⟩ := hreads.next summary.usage s answer rest hscript
  obtain ⟨usage, husage, hgrown⟩ := usage_checked.foldlM_ok hfits
  rw [husage] at hreply
  refine ends_bind_of_ok hreply ?_
  refine ends_bind_of_ok (rfl : _ = EStateM.Result.ok () _) ?_
  simp only [(hbase usage).1, (hbase usage).2]
  apply ends_ite
  · intro hnone
    exact ends_pure (hdone hnone _ _ hgrown)
  · intro hsome
    apply ends_bind
    apply (runTools_scripted self host prompter _ _ _).mono
    · rintro summary' u ⟨hsame, hu⟩
      apply hcalls hsome summary' u (hu.trans ht)
      rw [show summary'.usage = usage from hsame]
      exact hgrown
    · exact fun _ _ h => h.elim

/-- A turn adds up the usage of what it receives, and panics where that cannot be counted. -/
theorem turnLoop_reads (hreads : Reads usages toolUses nextReply) (left : Nat)
    (summary : TurnSummary) (s : Running (ω × List Answer)) :
    Ends (self.turnLoop host.scripted (prompter.map Prompter.scripted) nextReply left summary) s
      (fun summary' _ => completes toolUses left s.world.2 = true ∧
        Grown summary.usage summary'.usage ((received toolUses left s.world.2).flatMap usages))
      (fun stop _ => match stop with
        | .error _ => completes toolUses left s.world.2 = false ∧
            FitsTurn summary.usage ((received toolUses left s.world.2).flatMap usages)
        | .panic _ => ¬ FitsTurn summary.usage
            ((received toolUses left s.world.2).flatMap usages)) := by
  induction left generalizing summary s with
  | zero => exact ⟨rfl, usage_checked.fits_nil _⟩
  | succ left ih =>
    cases hscript : s.world.2 with
    | nil =>
      obtain ⟨e, t, h⟩ := hreads.out summary.usage s hscript
      rw [Ends, turnLoop, bind_of_error h]
      exact ⟨rfl, usage_checked.fits_nil _⟩
    | cons answer rest =>
      rw [received, List.flatMap_cons, completes]
      by_cases hfits : FitsTurn summary.usage (usages answer)
      · apply self.turnLoop_iteration host prompter hreads hscript hfits
        · intro hnone summary' t hgrown
          rw [if_pos hnone, List.flatMap_nil, List.append_nil, hnone]
          exact ⟨rfl, hgrown⟩
        · intro hsome summary' t ht hgrown
          rw [if_neg hsome, Bool.eq_false_iff.mpr hsome, Bool.false_or]
          have hrest := ih summary' t
          rw [ht] at hrest
          apply hrest.mono
          · rintro summary'' u ⟨hends, hgrown'⟩
            exact ⟨hends, counts_append hgrown hgrown'⟩
          · intro stop u hstop
            cases stop with
            | error e => exact ⟨hstop.1, (fits_append hgrown _).mpr hstop.2⟩
            | panic p => exact mt (fits_append hgrown _).mp hstop
      · obtain ⟨t, base, -, hreply, -⟩ := hreads.next summary.usage s answer rest hscript
        obtain ⟨p, hp⟩ := usage_checked.foldlM_error hfits
        rw [hp] at hreply
        rw [Ends, turnLoop, bind_of_error hreply]
        exact mt fits_of_append hfits

end turns

section runs

/-- The tool uses of an answer as a whole. -/
def responseUses (answer : Answer) : List ToolUse := answer.response.content.filterMap toolUseOf

def responseUsages (answer : Answer) : List Usage := [answer.response.usage]

/-- The tool uses of an answer as a stream. -/
def streamUses (answer : Answer) : List ToolUse :=
  (answer.events.foldl gatherBlocks .empty).toolUses.values.map (StreamingToolUse.finalize serde)

def streamUsages (answer : Answer) : List Usage := answer.events.filterMap eventUsage

/-- The state once a request has been answered. -/
def asked (s : Running (ω × List Answer)) (rest : List Answer) : Running (ω × List Answer) :=
  ⟨s.messages, (s.world.1, rest), s.trace ++
    [.request (self.buildRequest (host.scripted.definitions s.world) s.messages)]⟩

theorem askForReply_reads :
    Reads responseUsages responseUses (self.askForReply host.scripted) where
  out := by
    rintro usage ⟨messages, ⟨w, script⟩, trace⟩ rfl
    exact ⟨_, self.asked host ⟨messages, (w, []), trace⟩ [], rfl⟩
  next := by
    rintro usage ⟨messages, ⟨w, script⟩, trace⟩ answer rest rfl
    obtain ⟨heq, husage⟩ := replyOfResponse_addsUp answer.response
    refine ⟨self.asked host ⟨messages, (w, answer :: rest), trace⟩ rest, _, rfl, ?_,
      fun usage => ⟨husage usage, rfl⟩⟩
    rw [responseUsages, ← heq]
    rfl

theorem streamReply_reads :
    Reads streamUsages (streamUses serde) (self.streamReply host.scripted serde) where
  out := by
    rintro usage ⟨messages, ⟨w, script⟩, trace⟩ rfl
    exact ⟨_, self.asked host ⟨messages, (w, []), trace⟩ [], rfl⟩
  next := by
    rintro usage ⟨messages, ⟨w, script⟩, trace⟩ answer rest rfl
    obtain ⟨heq, husage⟩ := replyOfEvents_addsUp serde answer.events
    refine ⟨self.asked host ⟨messages, (w, answer :: rest), trace⟩ rest, _, rfl, ?_,
      fun usage => ⟨husage usage, rfl⟩⟩
    have hstream : self.streamReply host.scripted serde usage
        ⟨messages, (w, answer :: rest), trace⟩ =
          (orPanic (replyOfEvents serde usage answer.events) >>= pure)
            (self.asked host ⟨messages, (w, answer :: rest), trace⟩ rest) := rfl
    rw [hstream, bind_pure, heq, streamUsages]

/-- What is promised of a turn that receives some usages. -/
def ReportsExactly (usages : List Usage) :
    EStateM.Result Stop (Running (ω × List Answer)) TurnSummary → Prop
  | .ok summary _ => ExactUsage usages summary.usage
  | .error (.error _) _ => True
  | .error (.panic _) _ => False

/-- The sums of a turn can be counted, and the sum of both where the turn comes to its end. -/
def SumsFit (usages : List Usage) (ended : Bool) : Prop :=
  promptSum usages < 2 ^ 32 ∧ completionSum usages < 2 ^ 32 ∧
    (ended = true → promptSum usages + completionSum usages < 2 ^ 32)

theorem fitsTurn_zero (usages : List Usage) :
    FitsTurn .zero usages ↔ promptSum usages < 2 ^ 32 ∧ completionSum usages < 2 ^ 32 := by
  have hprompt : UsageCounter.count .prompt .zero + gained UsageCounter.count .prompt usages =
      promptSum usages := Nat.zero_add _
  have hcompletion : UsageCounter.count .completion .zero +
      gained UsageCounter.count .completion usages = completionSum usages := Nat.zero_add _
  constructor
  · intro h
    exact ⟨hprompt ▸ h .prompt, hcompletion ▸ h .completion⟩
  · rintro ⟨h, h'⟩ (_ | _)
    · exact hprompt ▸ h
    · exact hcompletion ▸ h'

variable {self host prompter}

theorem turnLoop_exact_iff {usages : Answer → List Usage} {toolUses : Answer → List ToolUse}
    {nextReply : Usage → RuntimeM (ω × List Answer) Reply}
    (hreads : Reads usages toolUses nextReply) (left : Nat) (s : Running (ω × List Answer)) :
    ReportsExactly ((received toolUses left s.world.2).flatMap usages)
        (self.turnLoop host.scripted (prompter.map Prompter.scripted) nextReply left .default s) ↔
      SumsFit ((received toolUses left s.world.2).flatMap usages)
        (completes toolUses left s.world.2) := by
  have hfits := fitsTurn_zero ((received toolUses left s.world.2).flatMap usages)
  have hends := turnLoop_reads self host prompter hreads left .default s
  rw [Ends] at hends
  split at hends
  · next summary t hrun =>
    obtain ⟨hcomplete, hcounts⟩ := hends
    rw [hrun, hcomplete]
    refine (exactUsage_iff fun i => ?_).trans ?_
    · rw [hcounts]
      cases i <;> exact Nat.zero_add _
    · refine ⟨fun h => ⟨by omega, by omega, fun _ => h⟩, fun h => h.2.2 rfl⟩
  · next stop t hrun =>
    rw [hrun]
    cases stop with
    | error e =>
      obtain ⟨hcomplete, hcounts⟩ := hends
      obtain ⟨hprompt, hcompletion⟩ := hfits.mp hcounts
      refine iff_of_true trivial ⟨hprompt, hcompletion, ?_⟩
      rw [hcomplete]
      exact fun h => absurd h Bool.false_ne_true
    | panic p => exact iff_of_false id fun h => hends (hfits.mpr ⟨h.1, h.2.1⟩)

theorem runTurn_exact_iff (userInput : RustString) (s : Running (ω × List Answer)) :
    ReportsExactly ((received responseUses self.maxIterations s.world.2).flatMap responseUsages)
        (self.runTurn host.scripted (prompter.map Prompter.scripted) userInput s) ↔
      SumsFit ((received responseUses self.maxIterations s.world.2).flatMap responseUsages)
        (completes responseUses self.maxIterations s.world.2) :=
  turnLoop_exact_iff (self.askForReply_reads host) self.maxIterations
    { s with messages := s.messages ++ [.userText userInput] }

theorem runTurnStreaming_exact_iff (userInput : RustString) (s : Running (ω × List Answer)) :
    ReportsExactly ((received (streamUses serde) self.maxIterations s.world.2).flatMap streamUsages)
        (self.runTurnStreaming host.scripted serde (prompter.map Prompter.scripted) userInput s) ↔
      SumsFit ((received (streamUses serde) self.maxIterations s.world.2).flatMap streamUsages)
        (completes (streamUses serde) self.maxIterations s.world.2) :=
  turnLoop_exact_iff (self.streamReply_reads host serde) self.maxIterations
    { s with messages := s.messages ++ [.userText userInput] }

/-- Turns of both kinds, and the tracker of a session, report the sums of what they have received
as long as these can be counted. -/
theorem usage_exact_iff (userInput : RustString) (s : Running (ω × List Answer))
    (recorded : List TokenUsage) :
    (ReportsExactly ((received responseUses self.maxIterations s.world.2).flatMap responseUsages)
        (self.runTurn host.scripted (prompter.map Prompter.scripted) userInput s) ↔
      SumsFit ((received responseUses self.maxIterations s.world.2).flatMap responseUsages)
        (completes responseUses self.maxIterations s.world.2)) ∧
    (ReportsExactly
        ((received (streamUses serde) self.maxIterations s.world.2).flatMap streamUsages)
        (self.runTurnStreaming host.scripted serde (prompter.map Prompter.scripted) userInput s) ↔
      SumsFit ((received (streamUses serde) self.maxIterations s.world.2).flatMap streamUsages)
        (completes (streamUses serde) self.maxIterations s.world.2)) ∧
    (RecordsExactly recorded ↔ tokenSum recorded < 2 ^ 32 ∧ recorded.length < 2 ^ 32) :=
  ⟨runTurn_exact_iff userInput s, runTurnStreaming_exact_iff serde userInput s,
    recordsExactly_iff recorded⟩

end runs

section overflow

/-- A response with a call, or without one. -/
def meteredAnswer (promptTokens : U32) (content : List OutputContentBlock) : Answer where
  response := ⟨[], str "message", str "assistant", content, [], none, none, ⟨promptTokens, 0⟩, none⟩
  events := []

/-- Two responses whose prompts have more tokens than the counter can hold. -/
def longPrompts : List Answer :=
  [meteredAnswer 4294967295 [.toolUse (str "call_1") (str "read_file") .null], meteredAnswer 1 []]

/-- A client without tools. -/
def bareHost : Host Unit where
  sendMessage _ w := (.error (.api (.transport [])), w)
  streamMessage _ w := (⟨[], none⟩, w)
  definitions _ := []
  execute _ _ w := (.error [], w)
  floatText _ := []

def bareRuntime : ConversationRuntime := .new [] [] [] [] .readOnly

theorem longPrompts_overflow :
    ¬ ReportsExactly (longPrompts.flatMap responseUsages)
      (bareRuntime.runTurn bareHost.scripted none [] ⟨[], ((), longPrompts), []⟩) := by
  have hreceived : received responseUses bareRuntime.maxIterations longPrompts = longPrompts := rfl
  have hexact : ReportsExactly
      ((received responseUses bareRuntime.maxIterations longPrompts).flatMap responseUsages)
      (bareRuntime.runTurn bareHost.scripted ((none : Option (Prompter Unit)).map Prompter.scripted) []
        ⟨[], ((), longPrompts), []⟩) ↔ _ := runTurn_exact_iff [] ⟨[], ((), longPrompts), []⟩
  rw [hreceived] at hexact
  intro h
  exact absurd (hexact.mp h).1 (by decide)

end overflow

end ConversationRuntime

end Solarcido.Crates
