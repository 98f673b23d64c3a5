import Solarcido.Workers.Finished

namespace Solarcido.Workers

open Text ThrowingProgram Serial

section log

/-- A resolution of the trust prompt has been logged, and no restart after it. -/
def ResolvedSince (events : List WorkerEvent) : Prop :=
  Since (fun _ e => e.kind = .trustResolved) (fun _ e => e.kind = .restarted) events

/-- The log of a worker's trust gate. -/
structure GateKept (w : Worker) : Prop where
  cleared : w.trustGateCleared = true ↔ ResolvedSince w.events
  asked : ∀ before e rest, w.events = before ++ e :: rest → e.kind = .trustRequired →
    ¬ ResolvedSince before
  waiting : w.status = .trustRequired → w.trustGateCleared = false

theorem resolvedSince_snoc (events : List WorkerEvent) (e : WorkerEvent) :
    ResolvedSince (events ++ [e]) ↔
      e.kind = .trustResolved ∨ (ResolvedSince events ∧ e.kind ≠ .restarted) :=
  since_snoc _ _ events e

theorem asked_snoc {events : List WorkerEvent} {e : WorkerEvent}
    (h : ∀ before e' rest, events = before ++ e' :: rest → e'.kind = .trustRequired →
      ¬ ResolvedSince before)
    (he : e.kind = .trustRequired → ¬ ResolvedSince events) :
    ∀ before e' rest, events ++ [e] = before ++ e' :: rest → e'.kind = .trustRequired →
      ¬ ResolvedSince before := by
  intro before e' rest hsplit hkind
  obtain ⟨-, rfl, rfl⟩ | ⟨tail, -, hevents⟩ := split_snoc hsplit
  · exact he hkind
  · exact h before e' tail hevents hkind

end log

namespace Boot

variable (clock : WorkerClock) (format : NumberFormat)

/-- An event that is not about the gate. -/
theorem pushEvent_gateKept (kind : WorkerEventKind) (status : WorkerStatus)
    (detail : Option JsString) (payload : Option WorkerEventPayload) (b : Boot)
    (h : GateKept b.worker) (hresolved : kind ≠ .trustResolved) (hrestarted : kind ≠ .restarted)
    (hrequired : kind ≠ .trustRequired) (hstatus : status ≠ .trustRequired) :
    GateKept (pushEvent clock kind status detail payload b).worker := by
  refine ⟨?_, ?_, fun hs => absurd hs hstatus⟩
  · rw [pushEvent, resolvedSince_snoc]
    simpa [hresolved, hrestarted] using h.cleared
  · exact asked_snoc h.asked fun hk => absurd hk hrequired

theorem edit_gateKept (f : Worker → Worker) (b : Boot) (h : GateKept b.worker)
    (hcleared : (f b.worker).trustGateCleared = b.worker.trustGateCleared)
    (hevents : (f b.worker).events = b.worker.events)
    (hstatus : (f b.worker).status = b.worker.status) : GateKept (b.edit f).worker := by
  refine ⟨?_, ?_, ?_⟩
  · rw [edit, hcleared, hevents]
    exact h.cleared
  · rw [edit, hevents]
    exact h.asked
  · rw [edit, hcleared, hstatus]
    exact h.waiting

theorem setError_gateKept (kind : WorkerFailureKind) (message : JsString) (b : Boot)
    (h : GateKept b.worker) : GateKept (setError clock kind message b).worker :=
  ⟨h.cleared, h.asked, h.waiting⟩

theorem trustRequired_gateKept (b : Boot) (h : GateKept b.worker)
    (hcleared : b.worker.trustGateCleared = false) :
    GateKept (trustRequired clock b).worker := by
  have hnot : ¬ ResolvedSince b.worker.events := by
    rw [← h.cleared, hcleared]
    exact Bool.false_ne_true
  refine ⟨?_, asked_snoc h.asked fun _ => hnot, fun _ => hcleared⟩
  simp only [trustRequired, pushEvent, setError]
  rw [resolvedSince_snoc, h.cleared]
  simp

theorem trustResolved_gateKept (detail : JsString) (resolution : WorkerTrustResolution) (b : Boot)
    (h : GateKept b.worker) : GateKept (trustResolved clock detail resolution b).worker := by
  refine ⟨?_, asked_snoc h.asked fun hk => (by cases hk), fun hs => (by cases hs)⟩
  simp only [trustResolved, pushEvent, edit]
  rw [resolvedSince_snoc]
  simp

theorem restart_gateKept (b : Boot) (h : GateKept b.worker) :
    GateKept (restart clock b).worker := by
  refine ⟨?_, asked_snoc h.asked fun hk => (by cases hk), fun hs => (by cases hs)⟩
  simp only [restart, pushEvent, edit]
  rw [resolvedSince_snoc]
  simp

theorem observePrompt_gateKept (screenText lowered : JsString) (b : Boot) (h : GateKept b.worker) :
    GateKept (observePrompt clock screenText lowered b).worker := by
  rw [observePrompt]
  cases misdeliveryOf screenText lowered b.worker with
  | some observation =>
    have hfailed : GateKept (promptMisdelivered clock observation b).worker :=
      pushEvent_gateKept clock _ _ _ _ _ (edit_gateKept _ _ (setError_gateKept clock _ _ b h)
        rfl rfl rfl) (by decide) (by decide) (by decide) (by decide)
    simp only [observeMisdelivery]
    split
    · exact pushEvent_gateKept clock _ _ _ _ _ (edit_gateKept _ _ hfailed rfl rfl rfl)
        (by decide) (by decide) (by decide) (by decide)
    · exact hfailed
  | none =>
    have hrunning : GateKept (observeRunning clock lowered b).worker := by
      rw [observeRunning]
      split
      · exact pushEvent_gateKept clock _ _ _ _ _ (edit_gateKept _ _ h rfl rfl rfl)
          (by decide) (by decide) (by decide) (by decide)
      · exact h
    simp only [observeReady]
    split
    · exact pushEvent_gateKept clock _ _ _ _ _ (edit_gateKept _ _ hrunning rfl rfl rfl)
        (by decide) (by decide) (by decide) (by decide)
    · exact hrunning

theorem observe_gateKept (screenText : JsString) (b : Boot) (h : GateKept b.worker) :
    GateKept (observe clock screenText b).worker := by
  rw [observe]
  cases detectToolPermissionPrompt screenText (toLowerCase screenText) with
  | some toolPrompt =>
    exact pushEvent_gateKept clock _ _ _ _ _ (setError_gateKept clock _ _ b h)
      (by decide) (by decide) (by decide) (by decide)
  | none =>
    simp only [observeTrust]
    split
    · next htrust =>
      have hcleared : b.worker.trustGateCleared = false := by
        simpa using (Bool.and_eq_true_iff.mp htrust).1
      have hrequired := trustRequired_gateKept clock b h hcleared
      split
      · apply observePrompt_gateKept
        exact trustResolved_gateKept clock _ _ _ hrequired
      · exact hrequired
    · exact observePrompt_gateKept clock screenText _ b h

theorem effect_gateKept (c : WorkerCall) (b : Boot) (h : GateKept b.worker) :
    GateKept (c.effect clock format b).worker := by
  cases c with
  | observe screenText => exact observe_gateKept clock screenText b h
  | resolveTrust => exact trustResolved_gateKept clock _ _ b h
  | sendPrompt prompt taskReceipt =>
    exact pushEvent_gateKept clock _ _ _ _ _ (edit_gateKept _ b h rfl rfl rfl)
      (by decide) (by decide) (by decide) (by decide)
  | restart => exact restart_gateKept clock b h
  | terminate =>
    exact pushEvent_gateKept clock _ _ _ _ _ (edit_gateKept _ b h rfl rfl rfl)
      (by decide) (by decide) (by decide) (by decide)
  | observeCompletion finishReason tokensOutput =>
    simp only [WorkerCall.effect, observeCompletion]
    split
    · exact pushEvent_gateKept clock _ _ _ _ _ (edit_gateKept _ _ (setError_gateKept clock _ _ b h)
        rfl rfl rfl) (by decide) (by decide) (by decide) (by decide)
    · exact pushEvent_gateKept clock _ _ _ _ _ (edit_gateKept _ b h rfl rfl rfl)
        (by decide) (by decide) (by decide) (by decide)
  | observeStartupTimeout paneCommand transportHealthy mcpHealthy =>
    exact pushEvent_gateKept clock _ _ _ _ _ ⟨h.cleared, h.asked, h.waiting⟩
      (by decide) (by decide) (by decide) (by decide)

/-- Calls never change where a worker stands and whether its directory is trusted, and only add
to its log. -/
structure Continues (w w' : Worker) : Prop where
  cwd : w'.cwd = w.cwd
  trustAutoResolve : w'.trustAutoResolve = w.trustAutoResolve
  log : w.events <+: w'.events

theorem Continues.refl (w : Worker) : Continues w w := ⟨rfl, rfl, List.prefix_refl _⟩

theorem Continues.trans {w w' w'' : Worker} (h : Continues w w') (h' : Continues w' w'') :
    Continues w w'' :=
  ⟨h'.cwd.trans h.cwd, h'.trustAutoResolve.trans h.trustAutoResolve, h.log.trans h'.log⟩

/-- An event after changes that leave the place, its trust and the log alone. -/
theorem pushEvent_continues (kind : WorkerEventKind) (status : WorkerStatus)
    (detail : Option JsString) (payload : Option WorkerEventPayload) (w : Worker) (b : Boot)
    (h : Continues w b.worker) :
    Continues w (pushEvent clock kind status detail payload b).worker :=
  ⟨h.cwd, h.trustAutoResolve, h.log.trans (List.prefix_append _ _)⟩

theorem trustRequired_continues (b : Boot) : Continues b.worker (trustRequired clock b).worker :=
  pushEvent_continues clock _ _ _ _ _ _ ⟨rfl, rfl, List.prefix_refl _⟩

theorem trustResolved_continues (detail : JsString) (resolution : WorkerTrustResolution) (b : Boot) :
    Continues b.worker (trustResolved clock detail resolution b).worker :=
  pushEvent_continues clock _ _ _ _ _ _ ⟨rfl, rfl, List.prefix_refl _⟩

theorem observePrompt_continues (screenText lowered : JsString) (b : Boot) :
    Continues b.worker (observePrompt clock screenText lowered b).worker := by
  rw [observePrompt]
  cases misdeliveryOf screenText lowered b.worker with
  | some observation =>
    have hfailed : Continues b.worker (promptMisdelivered clock observation b).worker :=
      pushEvent_continues clock _ _ _ _ _ _ ⟨rfl, rfl, List.prefix_refl _⟩
    simp only [observeMisdelivery]
    split
    · exact pushEvent_continues clock _ _ _ _ _ _
        ⟨hfailed.cwd, hfailed.trustAutoResolve, hfailed.log⟩
    · exact hfailed
  | none =>
    have hrunning : Continues b.worker (observeRunning clock lowered b).worker := by
      rw [observeRunning]
      split
      · exact pushEvent_continues clock _ _ _ _ _ _ ⟨rfl, rfl, List.prefix_refl _⟩
      · exact Continues.refl _
    simp only [observeReady]
    split
    · exact pushEvent_continues clock _ _ _ _ _ _
        ⟨hrunning.cwd, hrunning.trustAutoResolve, hrunning.log⟩
    · exact hrunning

theorem observe_continues (screenText : JsString) (b : Boot) :
    Continues b.worker (observe clock screenText b).worker := by
  have hrequired := trustRequired_continues clock b
  rw [observe]
  cases detectToolPermissionPrompt screenText (toLowerCase screenText) with
  | some toolPrompt =>
    exact pushEvent_continues clock _ _ _ _ _ _ ⟨rfl, rfl, List.prefix_refl _⟩
  | none =>
    simp only [observeTrust]
    split
    · split
      · have hresolved := trustResolved_continues clock autoResolveDetail .autoAllowlisted
          (trustRequired clock b)
        exact (hrequired.trans hresolved).trans (observePrompt_continues clock screenText _ _)
      · exact hrequired
    · exact observePrompt_continues clock screenText _ b

theorem effect_continues (c : WorkerCall) (b : Boot) :
    Continues b.worker (c.effect clock format b).worker := by
  cases c with
  | observe screenText => exact observe_continues clock screenText b
  | resolveTrust => exact trustResolved_continues clock _ _ b
  | observeCompletion finishReason tokensOutput =>
    simp only [WorkerCall.effect, observeCompletion]
    split
    · exact pushEvent_continues clock _ _ _ _ _ _ ⟨rfl, rfl, List.prefix_refl _⟩
    · exact pushEvent_continues clock _ _ _ _ _ _ ⟨rfl, rfl, List.prefix_refl _⟩
  | sendPrompt prompt taskReceipt =>
    exact pushEvent_continues clock _ _ _ _ _ _ ⟨rfl, rfl, List.prefix_refl _⟩
  | restart => exact pushEvent_continues clock _ _ _ _ _ _ ⟨rfl, rfl, List.prefix_refl _⟩
  | terminate => exact pushEvent_continues clock _ _ _ _ _ _ ⟨rfl, rfl, List.prefix_refl _⟩
  | observeStartupTimeout paneCommand transportHealthy mcpHealthy =>
    exact pushEvent_continues clock _ _ _ _ _ _ ⟨rfl, rfl, List.prefix_refl _⟩

theorem observePrompt_cleared (screenText lowered : JsString) (b : Boot) :
    (observePrompt clock screenText lowered b).worker.trustGateCleared =
      b.worker.trustGateCleared := by
  rw [observePrompt]
  cases misdeliveryOf screenText lowered b.worker with
  | some observation =>
    simp only [observeMisdelivery]
    split
    · rfl
    · rfl
  | none =>
    simp only [observeReady, observeRunning]
    split
    · split
      · rfl
      · rfl
    · split
      · rfl
      · rfl

end Boot

/-- A call, accepted, that leaves the trust gate clear. -/
def WorkerCall.clears (w : Worker) : WorkerCall → Bool
  | .observe screenText =>
    (detectToolPermissionPrompt screenText (toLowerCase screenText)).isNone &&
      detectTrustPrompt (toLowerCase screenText) && w.trustAutoResolve
  | .resolveTrust => w.status = .trustRequired
  | _ => false

/-- How a call that clears the trust gate resolves it. -/
def WorkerCall.resolution : WorkerCall → WorkerTrustResolution
  | .resolveTrust => .manualApproval
  | _ => .autoAllowlisted

namespace Boot

variable (clock : WorkerClock) (format : NumberFormat)

theorem observe_cleared (screenText : JsString) (b : Boot) :
    (observe clock screenText b).worker.trustGateCleared =
      ((WorkerCall.observe screenText).clears b.worker || b.worker.trustGateCleared) := by
  simp only [observe, WorkerCall.clears]
  cases detectToolPermissionPrompt screenText (toLowerCase screenText) with
  | some toolPrompt => rfl
  | none =>
    simp only [observeTrust]
    by_cases hcleared : b.worker.trustGateCleared = true
    · simp [hcleared, observePrompt_cleared]
    · rw [Bool.not_eq_true] at hcleared
      cases detectTrustPrompt (toLowerCase screenText) with
      | false => simp [hcleared, observePrompt_cleared]
      | true =>
        cases hauto : b.worker.trustAutoResolve with
        | false =>
          simp only [hcleared, Bool.not_false, Bool.and_self, Option.isNone_none, Bool.and_false,
            Bool.or_self, if_true, Bool.false_eq_true, if_false]
          exact hcleared
        | true =>
          simp only [hcleared, Bool.not_false, Bool.and_self, if_true, observePrompt_cleared]
          rfl

theorem effect_cleared_iff (c : WorkerCall) (b : Boot) (workerId : JsString)
    (hc : c.refusal workerId b.worker = none) :
    (c.effect clock format b).worker.trustGateCleared = true ↔
      c.clears b.worker = true ∨ (b.worker.trustGateCleared = true ∧ c ≠ .restart) := by
  cases c with
  | observe screenText => simp [WorkerCall.effect, observe_cleared]
  | resolveTrust =>
    have hstatus : b.worker.status = .trustRequired := by
      by_contra h
      simp [WorkerCall.refusal, h] at hc
    simp [WorkerCall.effect, resolveTrust, trustResolved, pushEvent, edit, WorkerCall.clears, hstatus]
  | restart => simp [WorkerCall.effect, restart, pushEvent, edit, WorkerCall.clears]
  | sendPrompt prompt taskReceipt =>
    simp [WorkerCall.effect, sendPrompt, pushEvent, edit, WorkerCall.clears]
  | terminate => simp [WorkerCall.effect, terminate, pushEvent, edit, WorkerCall.clears]
  | observeCompletion finishReason tokensOutput =>
    simp only [WorkerCall.effect, observeCompletion, WorkerCall.clears]
    split
    · simp [pushEvent, edit, setError]
    · simp [pushEvent, edit]
  | observeStartupTimeout paneCommand transportHealthy mcpHealthy =>
    simp [WorkerCall.effect, observeStartupTimeout, pushEvent, WorkerCall.clears]

/-- The event of a resolution is among those its call adds. -/
theorem trustResolved_logged (detail : JsString) (resolution : WorkerTrustResolution) (b : Boot)
    {n : Nat} (hn : n ≤ b.worker.events.length) {w' : Worker}
    (h : Continues (trustResolved clock detail resolution b).worker w') :
    ∃ e ∈ w'.events.drop n, e.kind = .trustResolved ∧
      e.payload = some (.trustPrompt b.worker.cwd (some resolution)) := by
  obtain ⟨more, hmore⟩ := h.log
  refine ⟨⟨b.worker.events.length + 1, .trustResolved, .spawning, some detail,
    some (.trustPrompt b.worker.cwd (some resolution)), clock.nowSecs b.readings⟩, ?_, rfl, rfl⟩
  rw [← hmore]
  simp only [trustResolved, pushEvent, edit]
  rw [List.append_assoc, List.drop_append_of_le_length hn]
  simp

/-- A call that finds the gate closed and clears it logs how it was resolved. -/
theorem effect_logged (c : WorkerCall) (b : Boot) (hclears : c.clears b.worker = true)
    (hclosed : b.worker.trustGateCleared = false) :
    ∃ e ∈ (c.effect clock format b).worker.events.drop b.worker.events.length,
      e.kind = .trustResolved ∧
        e.payload = some (.trustPrompt b.worker.cwd (some c.resolution)) := by
  cases c with
  | observe screenText =>
    simp only [WorkerCall.clears, Bool.and_eq_true, Option.isNone_iff_eq_none] at hclears
    obtain ⟨⟨hprompt, htrust⟩, hauto⟩ := hclears
    have hrequired := trustRequired_continues clock b
    have hobserve : observe clock screenText b = observePrompt clock screenText
        (toLowerCase screenText)
        (trustResolved clock autoResolveDetail .autoAllowlisted (trustRequired clock b)) := by
      simp [observe, observeTrust, hprompt, htrust, hauto, hclosed]
    have hlogged := trustResolved_logged clock autoResolveDetail .autoAllowlisted
      (trustRequired clock b) hrequired.log.length_le (observePrompt_continues clock screenText
        (toLowerCase screenText) _)
    rw [WorkerCall.effect, hobserve]
    rw [hrequired.cwd] at hlogged
    exact hlogged
  | resolveTrust => exact trustResolved_logged clock _ _ b (Nat.le_refl _) (Continues.refl _)
  | sendPrompt prompt taskReceipt => cases hclears
  | restart => cases hclears
  | terminate => cases hclears
  | observeCompletion finishReason tokensOutput => cases hclears
  | observeStartupTimeout paneCommand transportHealthy mcpHealthy => cases hclears

end Boot

namespace WorkerRegistry

variable (clock : WorkerClock) (format : NumberFormat)

/-- The worker was last made with an allow-listed directory. -/
def CreatedAllowListed (workerId : JsString) (ops : List WorkerOperation) : Prop :=
  Since
    (fun earlier op => ∃ cwd trustedRoots autoRecover, op = .create cwd trustedRoots autoRecover ∧
      newWorkerId clock format (after clock format earlier) = workerId ∧
      allowListed cwd trustedRoots = true)
    (fun earlier op => Creates clock format workerId (after clock format earlier) op) ops

/-- After the earlier operations this one clears the worker's trust gate: a screen with a trust
prompt and no tool-permission prompt while the worker's directory is allow-listed, or a
resolution by hand while the worker waits for it. -/
def Clears (workerId : JsString) (earlier : List WorkerOperation) (op : WorkerOperation)
    (resolution : WorkerTrustResolution) : Prop :=
  ∃ worker, (after clock format earlier).workers.get workerId = some worker ∧
    ((∃ screenText, op = .call workerId (.observe screenText) ∧
      detectToolPermissionPrompt screenText (toLowerCase screenText) = none ∧
      detectTrustPrompt (toLowerCase screenText) = true ∧
      CreatedAllowListed clock format workerId earlier ∧ resolution = .autoAllowlisted) ∨
    (op = .call workerId .resolveTrust ∧ worker.status = .trustRequired ∧
      resolution = .manualApproval))

/-- The worker's gate has been cleared since it was made or started again. -/
def ClearedSince (workerId : JsString) (ops : List WorkerOperation) : Prop :=
  Since (fun earlier op => ∃ resolution, Clears clock format workerId earlier op resolution)
    (fun earlier op => Renews clock format workerId (after clock format earlier) op) ops

theorem created_gateKept (registry : WorkerRegistry) (cwd : JsString)
    (trustedRoots : List JsString) (autoRecover : Bool) :
    GateKept (created clock format cwd trustedRoots autoRecover registry).worker := by
  have hfresh : GateKept (freshWorker (newWorkerId clock format registry) cwd trustedRoots
      autoRecover (clock.nowSecs registry.readings)) := by
    refine ⟨?_, ?_, fun _ => rfl⟩
    · have hnot : ¬ ResolvedSince [] := not_since_nil _ _
      simpa [freshWorker] using hnot
    · intro before e rest h
      simp [freshWorker] at h
  exact Boot.pushEvent_gateKept clock _ _ _ _ _ hfresh (by decide) (by decide) (by decide)
    (by decide)

theorem after_gateKept (ops : List WorkerOperation) :
    ∀ workerId worker, (after clock format ops).workers.get workerId = some worker →
      GateKept worker :=
  after_keeps clock format GateKept (created_gateKept clock format)
    (Boot.effect_gateKept clock format) ops

/-- `trustAutoResolve` is what the directory was when the worker was made. -/
theorem trustAutoResolve_iff (workerId : JsString) (ops : List WorkerOperation) :
    ∀ worker, (after clock format ops).workers.get workerId = some worker →
      (worker.trustAutoResolve = true ↔ CreatedAllowListed clock format workerId ops) := by
  induction ops using List.reverseRecOn with
  | nil =>
    intro worker hget
    exact absurd hget (by simp [after, new])
  | append_singleton ops op ih =>
    intro worker' hget
    rw [CreatedAllowListed, since_snoc]
    rw [after_snoc] at hget
    obtain ⟨cwd, trustedRoots, autoRecover, rfl, hnew, rfl⟩ | ⟨hcreates, worker, hworker, hcall⟩ :=
      step_worker clock format hget
    · constructor
      · intro h
        exact Or.inl ⟨cwd, trustedRoots, autoRecover, rfl, hnew, h⟩
      · rintro (⟨cwd', roots', auto', hop, -, h⟩ | ⟨-, h⟩)
        · obtain ⟨rfl, rfl, -⟩ := WorkerOperation.create.inj hop
          exact h
        · exact absurd ⟨cwd, trustedRoots, autoRecover, rfl, hnew⟩ h
    · have hsame : worker'.trustAutoResolve = worker.trustAutoResolve := by
        obtain ⟨c, -, -, rfl⟩ | ⟨rfl, -⟩ := hcall
        · exact (Boot.effect_continues clock format c _).trustAutoResolve
        · rfl
      rw [hsame, ih worker hworker]
      constructor
      · intro h
        exact Or.inr ⟨h, hcreates⟩
      · rintro (⟨cwd, roots, auto, hop, hnew, -⟩ | ⟨h, -⟩)
        · exact absurd ⟨cwd, roots, auto, hop, hnew⟩ hcreates
        · exact h

/-- The two ways of clearing the gate, as the call finds the worker. -/
theorem clears_iff {workerId : JsString} {ops : List WorkerOperation} {worker : Worker}
    (hget : (after clock format ops).workers.get workerId = some worker) (c : WorkerCall)
    (resolution : WorkerTrustResolution) :
    Clears clock format workerId ops (.call workerId c) resolution ↔
      c.clears worker = true ∧ resolution = c.resolution := by
  have hauto := trustAutoResolve_iff clock format workerId ops worker hget
  constructor
  · rintro ⟨w, hw, ⟨screenText, hop, hprompt, htrust, hlisted, rfl⟩ | ⟨hop, hstatus, rfl⟩⟩
    · obtain ⟨-, rfl⟩ := WorkerOperation.call.inj hop
      refine ⟨?_, rfl⟩
      simp [WorkerCall.clears, hprompt, htrust, hauto.mpr hlisted]
    · obtain ⟨-, rfl⟩ := WorkerOperation.call.inj hop
      obtain rfl := Option.some.inj (hw.symm.trans hget)
      exact ⟨decide_eq_true hstatus, rfl⟩
  · rintro ⟨hclears, rfl⟩
    refine ⟨worker, hget, ?_⟩
    cases c with
    | observe screenText =>
      simp only [WorkerCall.clears, Bool.and_eq_true, Option.isNone_iff_eq_none] at hclears
      obtain ⟨⟨hprompt, htrust⟩, hresolve⟩ := hclears
      exact Or.inl ⟨screenText, rfl, hprompt, htrust, hauto.mp hresolve, rfl⟩
    | resolveTrust => exact Or.inr ⟨rfl, of_decide_eq_true hclears, rfl⟩
    | sendPrompt prompt taskReceipt => cases hclears
    | restart => cases hclears
    | terminate => cases hclears
    | observeCompletion finishReason tokensOutput => cases hclears
    | observeStartupTimeout paneCommand transportHealthy mcpHealthy => cases hclears

/-- Only a call of the worker clears its gate. -/
theorem clears_call {workerId : JsString} {ops : List WorkerOperation} {op : WorkerOperation}
    {resolution : WorkerTrustResolution} (h : Clears clock format workerId ops op resolution) :
    ∃ c, op = .call workerId c ∧ ∀ worker,
      (after clock format ops).workers.get workerId = some worker →
        c.refusal workerId worker = none := by
  obtain ⟨w, hw, ⟨screenText, rfl, -⟩ | ⟨rfl, hstatus, -⟩⟩ := h
  · exact ⟨_, rfl, fun _ _ => rfl⟩
  · refine ⟨_, rfl, ?_⟩
    intro worker hget
    obtain rfl := Option.some.inj (hw.symm.trans hget)
    simp [WorkerCall.refusal, hstatus]

theorem cleared_iff (workerId : JsString) (ops : List WorkerOperation) :
    ∀ worker, (after clock format ops).workers.get workerId = some worker →
      (worker.trustGateCleared = true ↔ ClearedSince clock format workerId ops) := by
  induction ops using List.reverseRecOn with
  | nil =>
    intro worker hget
    exact absurd hget (by simp [after, new])
  | append_singleton ops op ih =>
    intro worker' hget
    rw [ClearedSince, since_snoc]
    rw [after_snoc] at hget
    obtain ⟨cwd, trustedRoots, autoRecover, rfl, hnew, rfl⟩ |
      ⟨hcreates, worker, hworker, ⟨c, rfl, hc, rfl⟩ | ⟨rfl, hrefused⟩⟩ :=
      step_worker clock format hget
    · refine ⟨fun h => (by cases h), ?_⟩
      rintro (⟨resolution, hclears⟩ | ⟨-, h⟩)
      · obtain ⟨c, hop, -⟩ := clears_call clock format hclears
        cases hop
      · exact absurd (Or.inr ⟨cwd, trustedRoots, autoRecover, rfl, hnew⟩) h
    · rw [Boot.effect_cleared_iff clock format c _ workerId hc, ih worker hworker]
      have hrenews : Renews clock format workerId (after clock format ops) (.call workerId c) ↔
          c = .restart := by
        constructor
        · rintro (h | h)
          · exact (WorkerOperation.call.inj h).2
          · exact absurd h hcreates
        · rintro rfl
          exact Or.inl rfl
      have hclears : (∃ resolution, Clears clock format workerId ops (.call workerId c) resolution) ↔
          c.clears worker = true := by
        constructor
        · rintro ⟨resolution, h⟩
          exact ((clears_iff clock format hworker c resolution).mp h).1
        · intro h
          exact ⟨c.resolution, (clears_iff clock format hworker c _).mpr ⟨h, rfl⟩⟩
      rw [hrenews, hclears]
      rfl
    · rw [ih worker' hworker]
      constructor
      · intro h
        refine Or.inr ⟨h, ?_⟩
        rintro (rfl | h)
        · exact hrefused _ rfl rfl
        · exact hcreates h
      · rintro (⟨resolution, hclears⟩ | ⟨h, -⟩)
        · obtain ⟨c, hop, hc⟩ := clears_call clock format hclears
          exact absurd (hc worker' hworker) (hrefused c hop)
        · exact h

/-- As long as it is not made again a worker continues what it was. -/
theorem runAll_continues {registry : WorkerRegistry} {workerId : JsString} {worker : Worker}
    (hget : registry.workers.get workerId = some worker) {later : List WorkerOperation}
    (hlater : Meets (step clock format) (fun r op => ¬ Creates clock format workerId r op) registry
      later) :
    ∃ worker', (runAll (step clock format) registry later).workers.get workerId = some worker' ∧
      Boot.Continues worker worker' := by
  apply runAll_meeting (step clock format)
    (fun r => ∃ worker', r.workers.get workerId = some worker' ∧ Boot.Continues worker worker')
    ⟨worker, hget, Boot.Continues.refl worker⟩ ?_ hlater
  rintro r op ⟨w, hw, hcontinues⟩ hcreates
  obtain ⟨w', hw'⟩ := step_present clock format op hw
  refine ⟨w', hw', ?_⟩
  obtain ⟨cwd, trustedRoots, autoRecover, hop, hnew, -⟩ |
    ⟨-, v, hv, ⟨c, -, -, rfl⟩ | ⟨rfl, -⟩⟩ := step_worker clock format hw'
  · exact absurd ⟨cwd, trustedRoots, autoRecover, hop, hnew⟩ hcreates
  · obtain rfl := Option.some.inj (hv.symm.trans hw)
    exact hcontinues.trans (Boot.effect_continues clock format c ⟨v, r.readings⟩)
  · obtain rfl := Option.some.inj (hv.symm.trans hw)
    exact hcontinues

/-- A clearing that finds the gate closed adds an event with its resolution to the log, where it
stays as long as the worker is not made again. -/
theorem clearing_logged {earlier later : List WorkerOperation} {op : WorkerOperation}
    {workerId : JsString} {resolution : WorkerTrustResolution} {before worker : Worker}
    (hget : (after clock format (earlier ++ op :: later)).workers.get workerId = some worker)
    (hclears : Clears clock format workerId earlier op resolution)
    (hbefore : (after clock format earlier).workers.get workerId = some before)
    (hclosed : before.trustGateCleared = false)
    (hlater : Meets (step clock format) (fun r o => ¬ Creates clock format workerId r o)
      (after clock format (earlier ++ [op])) later) :
    ∃ cleared, (after clock format (earlier ++ [op])).workers.get workerId = some cleared ∧
      cleared.trustGateCleared = true ∧ ResolvedSince cleared.events ∧
      cleared.events <+: worker.events ∧
      ∃ e ∈ cleared.events.drop before.events.length, e.kind = .trustResolved ∧
        e.payload = some (.trustPrompt worker.cwd (some resolution)) := by
  obtain ⟨c, rfl, hc⟩ := clears_call clock format hclears
  obtain ⟨hcall, rfl⟩ := (clears_iff clock format hbefore c resolution).mp hclears
  have hstep : (after clock format (earlier ++ [.call workerId c])).workers.get workerId =
      some (c.effect clock format ⟨before, (after clock format earlier).readings⟩).worker := by
    rw [after_snoc, step, perform_accepted clock format hbefore (hc before hbefore)]
    exact InsertionMap.get_set_self _ _ _
  obtain ⟨worker', hworker', hcontinues⟩ := runAll_continues clock format hstep hlater
  have hsame : worker' = worker := by
    rw [after, ← runAll_append, List.append_assoc] at hworker'
    rw [after] at hget
    exact Option.some.inj (hworker'.symm.trans hget)
  subst hsame
  obtain ⟨e, he, hkind, hpayload⟩ := Boot.effect_logged clock format c
    ⟨before, (after clock format earlier).readings⟩ hcall hclosed
  have hcleared := (Boot.effect_cleared_iff clock format c
    ⟨before, (after clock format earlier).readings⟩ workerId (hc before hbefore)).mpr (Or.inl hcall)
  refine ⟨_, hstep, hcleared, ?_, hcontinues.log, e, he, hkind, ?_⟩
  · exact (after_gateKept clock format _ workerId _ hstep).cleared.mp hcleared
  · rw [hpayload, hcontinues.cwd, (Boot.effect_continues clock format c _).cwd]

/-- The trust gate of every worker, after any operations: it is clear exactly if it has been
cleared since the worker was made or started again, each clearing that found it closed is in the
log with its resolution, and the log asks for trust only while no resolution has come since the
last restart. -/
theorem trust_gate (ops : List WorkerOperation) (workerId : JsString) (worker : Worker)
    (hget : (after clock format ops).workers.get workerId = some worker) :
    (worker.trustGateCleared = true ↔ ClearedSince clock format workerId ops) ∧
    (∀ earlier op later resolution before, ops = earlier ++ op :: later →
      Clears clock format workerId earlier op resolution →
      (after clock format earlier).workers.get workerId = some before →
      before.trustGateCleared = false →
      Meets (step clock format) (fun r o => ¬ Creates clock format workerId r o)
        (after clock format (earlier ++ [op])) later →
      ∃ cleared, (after clock format (earlier ++ [op])).workers.get workerId = some cleared ∧
        cleared.trustGateCleared = true ∧ ResolvedSince cleared.events ∧
        cleared.events <+: worker.events ∧
        ∃ e ∈ cleared.events.drop before.events.length, e.kind = .trustResolved ∧
          e.payload = some (.trustPrompt worker.cwd (some resolution))) ∧
    (∀ before e rest, worker.events = before ++ e :: rest → e.kind = .trustRequired →
      ¬ ResolvedSince before) := by
  refine ⟨cleared_iff clock format workerId ops worker hget, ?_,
    (after_gateKept clock format ops workerId worker hget).asked⟩
  rintro earlier op later resolution before rfl hclears hbefore hclosed hlater
  exact clearing_logged clock format hget hclears hbefore hclosed hlater

/-- A trust prompt in an allow-listed directory clears the gate. -/
theorem trust_gate_auto_resolved :
    ClearedSince countingClock wholeNumbers (js "worker_00000000_1")
      [.create (js "/repo") [js "/repo"] false,
        .call (js "worker_00000000_1") (.observe (js "Trust this folder?"))] := by
  have hmap : ((after countingClock wholeNumbers [.create (js "/repo") [js "/repo"] false,
      .call (js "worker_00000000_1") (.observe (js "Trust this folder?"))]).workers.get
      (js "worker_00000000_1")).map Worker.trustGateCleared = some true := by decide +kernel
  obtain ⟨worker, hget, hcleared⟩ := Option.map_eq_some_iff.mp hmap
  exact (trust_gate countingClock wholeNumbers _ _ worker hget).1.mp hcleared

end WorkerRegistry

end Solarcido.Workers
