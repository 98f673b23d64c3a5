import Solarcido.Workers.Registry

namespace Solarcido.Workers

open Text ThrowingProgram

/-- An error of one of the two gates. -/
def isGateError (lastError : Option WorkerFailure) : Bool :=
  lastError.any fun e => e.kind = .trustGate || e.kind = .toolPermissionGate

def isToolGateError (lastError : Option WorkerFailure) : Bool :=
  lastError.any fun e => e.kind = .toolPermissionGate

/-- A worker that is ready carries no error of a gate. -/
def Recovered (w : Worker) : Prop := w.status = .readyForPrompt → isGateError w.lastError = false

/-- The screen makes the worker ready: no gate stands in the way, no misdelivered prompt, and no
running cue that forgets the error first. -/
def showsReady (screenText : JsString) (w : Worker) : Bool :=
  let lowered := toLowerCase screenText
  (detectToolPermissionPrompt screenText lowered).isNone &&
    !(!w.trustGateCleared && detectTrustPrompt lowered) &&
    (Boot.misdeliveryOf screenText lowered w).isNone &&
    !(detectRunningCue lowered && w.promptInFlight) && detectReadyForPrompt screenText lowered

namespace Boot

variable (clock : WorkerClock) (format : NumberFormat)

theorem pushEvent_recovered (kind : WorkerEventKind) {status : WorkerStatus}
    (detail : Option JsString) (payload : Option WorkerEventPayload) (b : Boot)
    (h : status ≠ .readyForPrompt) :
    Recovered (pushEvent clock kind status detail payload b).worker :=
  fun hready => absurd hready h

theorem forgetTrustError_gate (lastError : Option WorkerFailure) :
    isGateError (forgetTrustError lastError) = isToolGateError lastError := by
  cases lastError with
  | none => rfl
  | some e =>
    obtain ⟨kind, message, createdAt⟩ := e
    cases kind <;> rfl

theorem isGateError_of_tool {lastError : Option WorkerFailure}
    (h : isToolGateError lastError = true) : isGateError lastError = true := by
  cases lastError with
  | none => exact h
  | some e =>
    rw [isToolGateError, Option.any_some, decide_eq_true_iff] at h
    simp [isGateError, h]

theorem observeMisdelivery_recovered (observation : PromptDeliveryObservation) (b : Boot) :
    Recovered (observeMisdelivery clock observation b).worker := by
  rw [observeMisdelivery]
  by_cases hauto : b.worker.autoRecoverPromptMisdelivery = true
  · rw [if_pos hauto]
    exact fun _ => rfl
  · rw [if_neg hauto]
    exact fun _ => rfl

/-- Making ready keeps the error of the tool-permission gate. -/
theorem observeReady_recovered_iff (screenText lowered : JsString) (b : Boot)
    (h : Recovered b.worker) : Recovered (observeReady clock screenText lowered b).worker ↔
      ¬ (detectReadyForPrompt screenText lowered = true ∧
        isToolGateError b.worker.lastError = true) := by
  rw [observeReady]
  by_cases hready : detectReadyForPrompt screenText lowered = true
  · by_cases hstatus : b.worker.status = .readyForPrompt
    · have hclean : isToolGateError b.worker.lastError ≠ true :=
        mt isGateError_of_tool (by rw [h hstatus]; exact Bool.false_ne_true)
      simp [hready, hstatus, hclean, h]
    · have hcue : (detectReadyForPrompt screenText lowered &&
          b.worker.status != .readyForPrompt) = true := by simp [hready, hstatus]
      rw [if_pos hcue]
      constructor
      · rintro hrecovered ⟨-, htool⟩
        have hclean := hrecovered rfl
        rw [← Bool.not_eq_true] at hclean
        apply hclean
        exact (forgetTrustError_gate _).trans htool
      · intro hnot _
        have htool : isToolGateError b.worker.lastError = false := by
          rw [← Bool.not_eq_true]
          exact fun htool => hnot ⟨hready, htool⟩
        exact (forgetTrustError_gate _).trans htool
  · simp [hready, h]

theorem observePrompt_recovered_iff (screenText lowered : JsString) (b : Boot)
    (h : Recovered b.worker) : Recovered (observePrompt clock screenText lowered b).worker ↔
      ¬ ((misdeliveryOf screenText lowered b.worker).isNone = true ∧
        (detectRunningCue lowered && b.worker.promptInFlight) = false ∧
        detectReadyForPrompt screenText lowered = true ∧
        isToolGateError b.worker.lastError = true) := by
  rw [observePrompt]
  cases hmisdelivery : misdeliveryOf screenText lowered b.worker with
  | some observation =>
    simp [observeMisdelivery_recovered]
  | none =>
    cases hcue : detectRunningCue lowered && b.worker.promptInFlight with
    | true =>
      have hrunning : Recovered (observeRunning clock lowered b).worker := by
        rw [observeRunning, if_pos hcue]
        exact pushEvent_recovered clock _ _ _ _ (by decide)
      have hforgotten : isToolGateError (observeRunning clock lowered b).worker.lastError = false := by
        rw [observeRunning, if_pos hcue]
        rfl
      simp only [observeReady_recovered_iff clock screenText lowered _ hrunning, hforgotten]
      simp
    | false =>
      have hsame : observeRunning clock lowered b = b := by
        rw [observeRunning, hcue]
        rfl
      simp only [hsame, observeReady_recovered_iff clock screenText lowered b h]
      simp

/-- A look at the screen leaves a gate's error on a ready worker exactly when it makes ready a
worker that the tool-permission gate has blocked. -/
theorem observe_recovered_iff (screenText : JsString) (b : Boot) (h : Recovered b.worker) :
    Recovered (observe clock screenText b).worker ↔
      ¬ (showsReady screenText b.worker = true ∧ isToolGateError b.worker.lastError = true) := by
  rw [observe]
  cases htool : detectToolPermissionPrompt screenText (toLowerCase screenText) with
  | some toolPrompt =>
    have hblocked : Recovered (observeToolPermission clock toolPrompt b).worker :=
      pushEvent_recovered clock _ _ _ _ (by decide)
    simp [hblocked, showsReady, htool]
  | none =>
    simp only [observeTrust]
    by_cases htrust : (!b.worker.trustGateCleared && detectTrustPrompt (toLowerCase screenText)) = true
    · rw [if_pos htrust]
      have hnot : showsReady screenText b.worker = false := by
        simp only [showsReady, htrust]
        simp
      rw [hnot]
      have hall : Recovered (if b.worker.trustAutoResolve then
          observePrompt clock screenText (toLowerCase screenText)
            (trustResolved clock autoResolveDetail .autoAllowlisted (trustRequired clock b))
          else trustRequired clock b).worker := by
        by_cases hauto : b.worker.trustAutoResolve = true
        · have hresolved : Recovered (trustResolved clock autoResolveDetail .autoAllowlisted
              (trustRequired clock b)).worker := pushEvent_recovered clock _ _ _ _ (by decide)
          rw [if_pos hauto, observePrompt_recovered_iff clock screenText _ _ hresolved]
          rintro ⟨-, -, -, herror⟩
          cases herror
        · rw [if_neg hauto]
          exact pushEvent_recovered clock _ _ _ _ (by decide)
      simp [hall]
    · rw [if_neg htrust, observePrompt_recovered_iff clock screenText _ b h]
      rw [Bool.not_eq_true] at htrust
      simp only [showsReady, htool, htrust, Option.isNone_none, Bool.not_false, Bool.true_and,
        Bool.and_eq_true, Bool.not_eq_true', and_assoc]

theorem effect_recovered_iff (c : WorkerCall) (b : Boot) (h : Recovered b.worker) :
    Recovered (c.effect clock format b).worker ↔
      ¬ ∃ screenText, c = .observe screenText ∧ showsReady screenText b.worker = true ∧
        isToolGateError b.worker.lastError = true := by
  cases c with
  | observe screenText =>
    refine (observe_recovered_iff clock screenText b h).trans (not_congr ?_)
    constructor
    · intro hslips
      exact ⟨screenText, rfl, hslips⟩
    · rintro ⟨screenText', heq, hslips⟩
      obtain rfl := WorkerCall.observe.inj heq
      exact hslips
  | resolveTrust | sendPrompt | restart | terminate | observeStartupTimeout =>
    refine iff_of_true (pushEvent_recovered clock _ _ _ _ (by decide)) ?_
    rintro ⟨screenText, hcall, -⟩
    cases hcall
  | observeCompletion finishReason tokensOutput =>
    refine iff_of_true ?_ ?_
    · simp only [WorkerCall.effect, observeCompletion]
      split
      · exact pushEvent_recovered clock _ _ _ _ (by decide)
      · exact pushEvent_recovered clock _ _ _ _ (by decide)
    · rintro ⟨screenText, hcall, -⟩
      cases hcall

end Boot

namespace WorkerRegistry

open Serial

variable (clock : WorkerClock) (format : NumberFormat)

def AllRecovered (registry : WorkerRegistry) : Prop :=
  ∀ workerId worker, registry.workers.get workerId = some worker → Recovered worker

/-- The operation shows a ready screen of a worker that the tool-permission gate has blocked. -/
def Unblocks (registry : WorkerRegistry) (op : WorkerOperation) : Prop :=
  ∃ workerId screenText worker, op = .call workerId (.observe screenText) ∧
    registry.workers.get workerId = some worker ∧ showsReady screenText worker = true ∧
    isToolGateError worker.lastError = true

theorem step_allRecovered_iff (registry : WorkerRegistry) (op : WorkerOperation)
    (h : AllRecovered registry) :
    AllRecovered (step clock format registry op) ↔ ¬ Unblocks registry op := by
  constructor
  · rintro hall ⟨workerId, screenText, worker, rfl, hget, hshows, herror⟩
    have hafter : (step clock format registry (.call workerId (.observe screenText))).workers.get
        workerId = some (Boot.observe clock screenText ⟨worker, registry.readings⟩).worker := by
      rw [step, perform_accepted clock format hget rfl]
      exact InsertionMap.get_set_self _ _ _
    exact (Boot.observe_recovered_iff clock screenText ⟨worker, registry.readings⟩
      (h workerId worker hget)).mp (hall workerId _ hafter) ⟨hshows, herror⟩
  · intro hnot workerId worker' hget
    obtain ⟨cwd, trustedRoots, autoRecover, -, -, rfl⟩ |
      ⟨-, worker, hworker, ⟨c, rfl, -, rfl⟩ | ⟨rfl, -⟩⟩ := step_worker clock format hget
    · exact Boot.pushEvent_recovered clock _ _ _ _ (by decide)
    · apply (Boot.effect_recovered_iff clock format c ⟨worker, registry.readings⟩
        (h workerId worker hworker)).mpr
      rintro ⟨screenText, rfl, hslips⟩
      exact hnot ⟨workerId, screenText, worker, rfl, hworker, hslips⟩
    · exact h workerId worker' hworker

theorem awaitReady_clean_iff (registry : WorkerRegistry) :
    (∀ workerId snapshot registry', awaitReady workerId registry = .ok snapshot registry' →
      snapshot.ready = true → isGateError snapshot.lastError = false) ↔ AllRecovered registry := by
  have hok : ∀ workerId worker, registry.workers.get workerId = some worker →
      awaitReady workerId registry = .ok (readySnapshot worker) registry := by
    intro workerId worker hget
    rw [awaitReady, bind_of_ok (require_of_get hget)]
    rfl
  constructor
  · intro h workerId worker hget hstatus
    apply h workerId _ _ (hok workerId worker hget)
    simp [readySnapshot, hstatus]
  · intro h workerId snapshot registry' hanswer hready
    cases hget : registry.workers.get workerId with
    | none =>
      rw [awaitReady, bind_of_error (require_of_none hget)] at hanswer
      cases hanswer
    | some worker =>
      rw [hok workerId worker hget] at hanswer
      cases hanswer
      exact h workerId worker hget (of_decide_eq_true hready)

/-- A run reports no ready worker with an error of a gate, in any of its states, exactly when it
shows no ready screen of a worker blocked by the tool-permission gate. -/
theorem ready_without_gate_error_iff (ops : List WorkerOperation) :
    (∀ first second, ops = first ++ second → ∀ workerId snapshot registry',
      awaitReady workerId (after clock format first) = .ok snapshot registry' →
      snapshot.ready = true → isGateError snapshot.lastError = false) ↔
      Meets (step clock format) (fun registry op => ¬ Unblocks registry op) new ops := by
  have hstart : AllRecovered new := by
    intro workerId worker hget
    exact absurd hget (by simp [new])
  have hkept : (∀ first second, ops = first ++ second → AllRecovered (after clock format first)) ↔
      Meets (step clock format) (fun registry op => ¬ Unblocks registry op) new ops :=
    meets_iff_kept (step clock format) (E := fun _ _ => True) AllRecovered hstart
      (fun registry op h _ => step_allRecovered_iff clock format registry op h)
      (meets_of_mem _ fun _ _ _ => trivial)
  rw [← hkept]
  constructor
  · intro h first second hsplit
    exact (awaitReady_clean_iff _).mp (h first second hsplit)
  · intro h first second hsplit
    exact (awaitReady_clean_iff _).mpr (h first second hsplit)

/-- A worker whose tool call was allowed on its own screen waits for a prompt again. -/
def allowedTool : List WorkerOperation :=
  [.create (js "/repo") [] false,
    .call (js "worker_00000000_1") (.observe (js "Allow tool build to run?")),
    .call (js "worker_00000000_1") (.observe (js ">"))]

theorem tool_gate_error_survives :
    ¬ ∀ (clock : WorkerClock) (format : NumberFormat) (ops : List WorkerOperation) (workerId : JsString)
      (snapshot : WorkerReadySnapshot) (registry' : WorkerRegistry),
      awaitReady workerId (after clock format ops) = .ok snapshot registry' →
      snapshot.ready = true → isGateError snapshot.lastError = false := by
  intro h
  have hstate : ((after countingClock wholeNumbers allowedTool).workers.get
      (js "worker_00000000_1")).map (fun w => (w.status, isGateError w.lastError)) =
      some (.readyForPrompt, true) := by decide +kernel
  obtain ⟨worker, hget, hpair⟩ := Option.map_eq_some_iff.mp hstate
  obtain ⟨hstatus, herror⟩ := Prod.mk.inj hpair
  have hclean : ∀ workerId snapshot registry',
      awaitReady workerId (after countingClock wholeNumbers allowedTool) = .ok snapshot registry' →
      snapshot.ready = true → isGateError snapshot.lastError = false := h _ _ allowedTool
  rw [(awaitReady_clean_iff _).mp hclean _ worker hget hstatus] at herror
  cases herror

end WorkerRegistry

end Solarcido.Workers
