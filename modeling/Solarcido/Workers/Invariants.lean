import Solarcido.Workers.Registry

namespace Solarcido.Workers

open Text ThrowingProgram

/-- A worker that waits for a prompt or has ended. -/
def WorkerStatus.isSettled (s : WorkerStatus) : Bool :=
  s = .readyForPrompt || s = .finished || s = .failed

/-- The events are numbered from one without a gap. -/
def Numbered (w : Worker) : Prop := w.events.map WorkerEvent.seq = List.range' 1 w.events.length

/-- The record agrees with the log, and no prompt is in flight where none can be. -/
structure WellKept (w : Worker) : Prop where
  numbered : Numbered w
  last : ∃ e, w.events.getLast? = some e ∧ w.status = e.status ∧ w.updatedAt = e.timestamp
  idle : w.status.isSettled → w.promptInFlight = false

namespace Boot

variable (clock : WorkerClock) (format : NumberFormat)

theorem pushEvent_numbered (kind : WorkerEventKind) (status : WorkerStatus)
    (detail : Option JsString) (payload : Option WorkerEventPayload) (b : Boot)
    (h : Numbered b.worker) : Numbered (pushEvent clock kind status detail payload b).worker := by
  rw [Numbered] at h ⊢
  simp only [pushEvent, List.map_append, List.map_cons, List.map_nil, List.length_append,
    List.length_cons, List.length_nil]
  rw [h, List.range'_concat, Nat.one_mul, Nat.add_comm 1]

/-- An event makes the record agree with the log; the flag is for the caller to see to. -/
theorem pushEvent_wellKept (kind : WorkerEventKind) (status : WorkerStatus)
    (detail : Option JsString) (payload : Option WorkerEventPayload) (b : Boot)
    (h : Numbered b.worker) (hidle : status.isSettled → b.worker.promptInFlight = false) :
    WellKept (pushEvent clock kind status detail payload b).worker := by
  refine ⟨pushEvent_numbered clock kind status detail payload b h, ?_, hidle⟩
  exact ⟨_, List.getLast?_concat, rfl, rfl⟩

theorem trustResolved_wellKept (detail : JsString) (resolution : WorkerTrustResolution) (b : Boot)
    (h : Numbered b.worker) : WellKept (trustResolved clock detail resolution b).worker :=
  pushEvent_wellKept clock _ _ _ _ _ h fun hs => absurd hs (by decide)

theorem observeMisdelivery_wellKept (observation : PromptDeliveryObservation) (b : Boot)
    (h : Numbered b.worker) : WellKept (observeMisdelivery clock observation b).worker := by
  have hfailed : WellKept (promptMisdelivered clock observation b).worker :=
    pushEvent_wellKept clock _ _ _ _ _ h fun _ => rfl
  rw [observeMisdelivery]
  by_cases hauto : b.worker.autoRecoverPromptMisdelivery
  · rw [if_pos hauto]
    exact pushEvent_wellKept clock _ _ _ _ _ hfailed.numbered fun _ => rfl
  · rw [if_neg hauto]
    exact hfailed

theorem observeRunning_wellKept (lowered : JsString) (b : Boot) (h : WellKept b.worker) :
    WellKept (observeRunning clock lowered b).worker := by
  rw [observeRunning]
  by_cases hcue : (detectRunningCue lowered && b.worker.promptInFlight) = true
  · rw [if_pos hcue]
    exact pushEvent_wellKept clock _ _ _ _ _ h.numbered fun _ => rfl
  · rw [if_neg hcue]
    exact h

theorem observeReady_wellKept (screenText lowered : JsString) (b : Boot) (h : WellKept b.worker) :
    WellKept (observeReady clock screenText lowered b).worker := by
  rw [observeReady]
  by_cases hcue : (detectReadyForPrompt screenText lowered &&
      b.worker.status != .readyForPrompt) = true
  · rw [if_pos hcue]
    exact pushEvent_wellKept clock _ _ _ _ _ h.numbered fun _ => rfl
  · rw [if_neg hcue]
    exact h

theorem observePrompt_wellKept (screenText lowered : JsString) (b : Boot) (h : WellKept b.worker) :
    WellKept (observePrompt clock screenText lowered b).worker := by
  rw [observePrompt]
  cases misdeliveryOf screenText lowered b.worker with
  | some observation => exact observeMisdelivery_wellKept clock observation b h.numbered
  | none =>
    have hrunning := observeRunning_wellKept clock lowered b h
    exact observeReady_wellKept clock screenText lowered _ hrunning

theorem observe_wellKept (screenText : JsString) (b : Boot) (h : WellKept b.worker) :
    WellKept (observe clock screenText b).worker := by
  have hrequired : WellKept (trustRequired clock b).worker :=
    pushEvent_wellKept clock _ _ _ _ _ h.numbered fun hs => absurd hs (by decide)
  rw [observe]
  cases detectToolPermissionPrompt screenText (toLowerCase screenText) with
  | some toolPrompt =>
    exact pushEvent_wellKept clock _ _ _ _ _ h.numbered fun hs => absurd hs (by decide)
  | none =>
    simp only [observeTrust]
    split
    · split
      · apply observePrompt_wellKept
        exact trustResolved_wellKept clock _ _ _ hrequired.numbered
      · exact hrequired
    · exact observePrompt_wellKept clock screenText _ b h

theorem effect_wellKept (c : WorkerCall) (b : Boot) (h : WellKept b.worker) :
    WellKept (c.effect clock format b).worker := by
  cases c with
  | observe screenText => exact observe_wellKept clock screenText b h
  | resolveTrust => exact trustResolved_wellKept clock _ _ b h.numbered
  | sendPrompt prompt taskReceipt =>
    exact pushEvent_wellKept clock _ _ _ _ _ h.numbered fun hs => absurd hs (by decide)
  | restart => exact pushEvent_wellKept clock _ _ _ _ _ h.numbered fun _ => rfl
  | terminate => exact pushEvent_wellKept clock _ _ _ _ _ h.numbered fun _ => rfl
  | observeCompletion finishReason tokensOutput =>
    simp only [WorkerCall.effect, observeCompletion]
    split
    · exact pushEvent_wellKept clock _ _ _ _ _ h.numbered fun _ => rfl
    · exact pushEvent_wellKept clock _ _ _ _ _ h.numbered fun _ => rfl
  | observeStartupTimeout paneCommand transportHealthy mcpHealthy =>
    exact pushEvent_wellKept clock _ _ _ _ _ h.numbered fun _ => rfl

end Boot

namespace WorkerRegistry

variable (clock : WorkerClock) (format : NumberFormat)

theorem created_wellKept (cwd : JsString) (trustedRoots : List JsString) (autoRecover : Bool)
    (registry : WorkerRegistry) :
    WellKept (created clock format cwd trustedRoots autoRecover registry).worker :=
  Boot.pushEvent_wellKept clock _ _ _ _ _ rfl fun _ => rfl

theorem step_wellKept (registry : WorkerRegistry) (op : WorkerOperation)
    (h : ∀ workerId worker, registry.workers.get workerId = some worker → WellKept worker) :
    ∀ workerId worker, (step clock format registry op).workers.get workerId = some worker →
      WellKept worker :=
  step_keeps clock format WellKept registry op
    (fun cwd trustedRoots autoRecover =>
      created_wellKept clock format cwd trustedRoots autoRecover registry)
    (fun c _ hworker => Boot.effect_wellKept clock format c _ hworker) h

theorem after_wellKept (ops : List WorkerOperation) :
    ∀ workerId worker, (after clock format ops).workers.get workerId = some worker →
      WellKept worker :=
  after_keeps clock format WellKept
    (fun registry cwd trustedRoots autoRecover =>
      created_wellKept clock format cwd trustedRoots autoRecover registry)
    (Boot.effect_wellKept clock format) ops

theorem perform_rejected (registry : WorkerRegistry) (op : WorkerOperation) (e : Thrown)
    (registry' : WorkerRegistry) (h : perform clock format op registry = .error e registry') :
    registry' = registry := by
  cases op with
  | create cwd trustedRoots autoRecover => cases h
  | get workerId => cases h
  | awaitReady workerId =>
    have hstep := step_awaitReady clock format registry workerId
    rw [step, h] at hstep
    exact hstep
  | call workerId c =>
    cases hget : registry.workers.get workerId with
    | none =>
      rw [perform_missing clock format hget] at h
      cases h
      rfl
    | some worker =>
      cases hc : c.refusal workerId worker with
      | some message =>
        rw [perform_refused clock format hget hc] at h
        cases h
        rfl
      | none =>
        rw [perform_accepted clock format hget hc] at h
        cases h

/-- After any operations every worker's log is numbered without gaps, its last event gives its
status and its time, and no prompt is in flight where none can be; what is rejected changes
nothing. -/
theorem workers_wellKept (ops : List WorkerOperation) :
    (∀ workerId worker, (after clock format ops).workers.get workerId = some worker →
      worker.events.map WorkerEvent.seq = List.range' 1 worker.events.length ∧
      (∃ e, worker.events.getLast? = some e ∧ worker.status = e.status ∧
        worker.updatedAt = e.timestamp) ∧
      (worker.status = .readyForPrompt ∨ worker.status = .finished ∨ worker.status = .failed →
        worker.promptInFlight = false)) ∧
    ∀ op e registry', perform clock format op (after clock format ops) = .error e registry' →
      registry' = after clock format ops := by
  constructor
  · intro workerId worker hget
    have hkept := after_wellKept clock format ops workerId worker hget
    refine ⟨hkept.numbered, hkept.last, ?_⟩
    intro hstatus
    apply hkept.idle
    rw [WorkerStatus.isSettled]
    simpa [or_assoc] using hstatus
  · intro op e registry' hop
    exact perform_rejected clock format _ op e registry' hop

end WorkerRegistry

end Solarcido.Workers
