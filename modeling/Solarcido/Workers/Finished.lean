import Solarcido.Workers.Invariants

namespace Solarcido.Workers

open Text ThrowingProgram

/-- A call that moves a finished worker to another status: a screen with one of the cues that
are not asked whether the worker has ended, a failing completion, a startup timeout. -/
def WorkerCall.leavesFinished (w : Worker) : WorkerCall → Bool
  | .observe screenText =>
    (detectToolPermissionPrompt screenText (toLowerCase screenText)).isSome ||
      (!w.trustGateCleared && detectTrustPrompt (toLowerCase screenText)) ||
      detectReadyForPrompt screenText (toLowerCase screenText)
  | .observeCompletion finishReason tokensOutput =>
    Boot.isProviderFailure finishReason tokensOutput
  | .observeStartupTimeout _ _ _ => true
  | _ => false

namespace Boot

variable (clock : WorkerClock) (format : NumberFormat)

theorem observeReady_finished_iff (screenText lowered : JsString) (b : Boot)
    (hfinished : b.worker.status = .finished) :
    (observeReady clock screenText lowered b).worker.status = .finished ↔
      detectReadyForPrompt screenText lowered = false := by
  have hstatus : (b.worker.status != .readyForPrompt) = true := by
    rw [hfinished]
    rfl
  rw [observeReady, hstatus, Bool.and_true]
  cases hready : detectReadyForPrompt screenText lowered with
  | true => simp [pushEvent]
  | false => simpa using hfinished

theorem observePrompt_idle (screenText lowered : JsString) (b : Boot)
    (hidle : b.worker.promptInFlight = false) :
    observePrompt clock screenText lowered b = observeReady clock screenText lowered b := by
  simp [observePrompt, misdeliveryOf, observeRunning, hidle]

/-- What stands behind the gates never finishes a worker. -/
theorem observePrompt_not_finished (screenText lowered : JsString) (b : Boot)
    (h : b.worker.status ≠ .finished) :
    (observePrompt clock screenText lowered b).worker.status ≠ .finished := by
  rw [observePrompt]
  cases misdeliveryOf screenText lowered b.worker with
  | some observation =>
    simp only [observeMisdelivery]
    by_cases hauto : b.worker.autoRecoverPromptMisdelivery
    · rw [if_pos hauto]
      simp [promptReplayArmed, pushEvent]
    · rw [if_neg hauto]
      simp [promptMisdelivered, pushEvent]
  | none =>
    have hrunning : (observeRunning clock lowered b).worker.status ≠ .finished := by
      rw [observeRunning]
      split
      · simp [pushEvent]
      · exact h
    simp only [observeReady]
    split
    · simp [pushEvent]
    · exact hrunning

theorem observe_finished_iff (screenText : JsString) (b : Boot)
    (hfinished : b.worker.status = .finished) (hidle : b.worker.promptInFlight = false) :
    (observe clock screenText b).worker.status = .finished ↔
      (WorkerCall.observe screenText).leavesFinished b.worker = false := by
  rw [observe]
  cases hprompt : detectToolPermissionPrompt screenText (toLowerCase screenText) with
  | some toolPrompt =>
    simp [WorkerCall.leavesFinished, hprompt, observeToolPermission, pushEvent]
  | none =>
    simp only [observeTrust]
    by_cases htrust : (!b.worker.trustGateCleared &&
        detectTrustPrompt (toLowerCase screenText)) = true
    · have hgone : ((if b.worker.trustAutoResolve then
          observePrompt clock screenText (toLowerCase screenText)
            (trustResolved clock autoResolveDetail .autoAllowlisted (trustRequired clock b))
          else trustRequired clock b).worker.status) ≠ .finished := by
        by_cases hauto : b.worker.trustAutoResolve
        · rw [if_pos hauto]
          apply observePrompt_not_finished
          simp [trustResolved, pushEvent]
        · rw [if_neg hauto]
          simp [trustRequired, pushEvent]
      rw [if_pos htrust]
      simp only [WorkerCall.leavesFinished, htrust, Bool.or_true, Bool.true_or]
      exact ⟨fun h => absurd h hgone, fun h => absurd h (by simp)⟩
    · rw [if_neg htrust, observePrompt_idle clock screenText _ b hidle,
        observeReady_finished_iff clock screenText _ b hfinished]
      rw [Bool.not_eq_true] at htrust
      simp [WorkerCall.leavesFinished, hprompt, htrust]

/-- What an accepted call other than a restart does to a finished worker. -/
theorem effect_finished_iff (c : WorkerCall) (b : Boot) (workerId : JsString)
    (hfinished : b.worker.status = .finished) (hidle : b.worker.promptInFlight = false)
    (hc : c ≠ .restart) (hrefusal : c.refusal workerId b.worker = none) :
    (c.effect clock format b).worker.status = .finished ↔ c.leavesFinished b.worker = false := by
  cases c with
  | observe screenText => exact observe_finished_iff clock screenText b hfinished hidle
  | resolveTrust => simp [WorkerCall.refusal, hfinished] at hrefusal
  | sendPrompt prompt taskReceipt => simp [WorkerCall.refusal, hfinished] at hrefusal
  | restart => exact absurd rfl hc
  | terminate => simp [WorkerCall.effect, terminate, pushEvent, WorkerCall.leavesFinished]
  | observeCompletion finishReason tokensOutput =>
    simp only [WorkerCall.effect, observeCompletion, WorkerCall.leavesFinished]
    cases isProviderFailure finishReason tokensOutput with
    | true => simp [pushEvent]
    | false => simp [pushEvent]
  | observeStartupTimeout paneCommand transportHealthy mcpHealthy =>
    simp [WorkerCall.effect, observeStartupTimeout, pushEvent, WorkerCall.leavesFinished]

end Boot

namespace WorkerRegistry

variable (clock : WorkerClock) (format : NumberFormat)

/-- The worker is finished, and takes no prompt. -/
def FinishedAt (workerId : JsString) (registry : WorkerRegistry) : Prop :=
  ∃ worker, registry.workers.get workerId = some worker ∧ worker.status = .finished ∧
    ∀ prompt taskReceipt, ∃ e,
      perform clock format (.call workerId (.sendPrompt prompt taskReceipt)) registry =
        .error e registry

/-- The operation starts the worker again, or makes another worker of the same id. -/
def Renews (workerId : JsString) (registry : WorkerRegistry) (op : WorkerOperation) : Prop :=
  op = .call workerId .restart ∨ Creates clock format workerId registry op

/-- The operation is none that moves the worker out of finished. -/
def LeavesAlone (workerId : JsString) (registry : WorkerRegistry) (op : WorkerOperation) : Prop :=
  ∀ c worker, op = .call workerId c → registry.workers.get workerId = some worker →
    c.leavesFinished worker = false

theorem finishedAt_of_status {registry : WorkerRegistry} {workerId : JsString} {worker : Worker}
    (hget : registry.workers.get workerId = some worker) (hstatus : worker.status = .finished) :
    FinishedAt clock format workerId registry := by
  refine ⟨worker, hget, hstatus, ?_⟩
  intro prompt taskReceipt
  have hnot : worker.status ≠ .readyForPrompt := by
    rw [hstatus]
    decide
  exact ⟨_, perform_refused clock format hget (if_pos hnot)⟩

/-- A step that does not renew a finished worker keeps it finished exactly if it leaves it alone. -/
theorem step_finished_iff (registry : WorkerRegistry) (op : WorkerOperation) (workerId : JsString)
    (hkept : ∀ id worker, registry.workers.get id = some worker → WellKept worker)
    (hfinished : FinishedAt clock format workerId registry)
    (hop : ¬ Renews clock format workerId registry op) :
    FinishedAt clock format workerId (step clock format registry op) ↔
      LeavesAlone workerId registry op := by
  obtain ⟨worker, hget, hstatus, -⟩ := hfinished
  have hidle : worker.promptInFlight = false :=
    (hkept workerId worker hget).idle (by rw [hstatus]; rfl)
  obtain ⟨worker', hget'⟩ := step_present clock format op hget
  obtain ⟨cwd, trustedRoots, autoRecover, hcreate, hnew, -⟩ |
    ⟨-, w, hw, ⟨c, rfl, hc, rfl⟩ | ⟨rfl, hrefused⟩⟩ := step_worker clock format hget'
  · exact absurd (Or.inr ⟨cwd, trustedRoots, autoRecover, hcreate, hnew⟩) hop
  · obtain rfl := Option.some.inj (hw.symm.trans hget)
    have hrestart : c ≠ .restart := fun h => hop (Or.inl (by rw [h]))
    have heffect := Boot.effect_finished_iff clock format c ⟨w, registry.readings⟩ workerId
      hstatus hidle hrestart hc
    constructor
    · rintro ⟨w', hgetw', hstatus', -⟩ c' v hc' hv
      obtain rfl := Option.some.inj (hv.symm.trans hw)
      obtain ⟨-, rfl⟩ := WorkerOperation.call.inj hc'
      rw [hget'] at hgetw'
      rw [← Option.some.inj hgetw'] at hstatus'
      exact heffect.mp hstatus'
    · intro halone
      exact finishedAt_of_status clock format hget' (heffect.mpr (halone c w rfl hw))
  · obtain rfl := Option.some.inj (hw.symm.trans hget)
    refine ⟨?_, fun _ => finishedAt_of_status clock format hget' hstatus⟩
    -- a refused call is one that only other states take
    intro _ c v hc hv
    obtain rfl := Option.some.inj (hv.symm.trans hw)
    cases c with
    | resolveTrust => rfl
    | sendPrompt prompt taskReceipt => rfl
    | restart => rfl
    | terminate => rfl
    | observe screenText => exact absurd rfl (hrefused _ hc)
    | observeCompletion finishReason tokensOutput => exact absurd rfl (hrefused _ hc)
    | observeStartupTimeout paneCommand transportHealthy mcpHealthy =>
      exact absurd rfl (hrefused _ hc)

/-- Once a worker is finished, and as long as it is not renewed, it is finished in every state
reached and takes no prompt if and only if each operation leaves it alone. -/
theorem finished_stays_iff (earlier later : List WorkerOperation) (workerId : JsString)
    (worker : Worker) (hget : (after clock format earlier).workers.get workerId = some worker)
    (hstatus : worker.status = .finished)
    (hrenew : Serial.Meets (step clock format)
      (fun registry op => ¬ Renews clock format workerId registry op)
      (after clock format earlier) later) :
    (∀ first second, later = first ++ second →
      FinishedAt clock format workerId (after clock format (earlier ++ first))) ↔
    Serial.Meets (step clock format) (LeavesAlone workerId) (after clock format earlier) later := by
  have hiff := Serial.meets_iff_kept (step clock format) (C := LeavesAlone workerId)
    (fun registry => (∀ id w, registry.workers.get id = some w → WellKept w) ∧
      FinishedAt clock format workerId registry)
    ⟨after_wellKept clock format earlier, finishedAt_of_status clock format hget hstatus⟩
    (fun registry op h hop => by
      rw [step_finished_iff clock format registry op workerId h.1 h.2 hop |>.symm]
      exact and_iff_right (step_wellKept clock format registry op h.1)) hrenew
  rw [← hiff]
  constructor
  · intro h first second hsplit
    have hkept := after_wellKept clock format (earlier ++ first)
    have hfinished := h first second hsplit
    rw [after, Serial.runAll_append] at hkept hfinished
    exact ⟨hkept, hfinished⟩
  · intro h first second hsplit
    rw [after, Serial.runAll_append]
    exact (h first second hsplit).2

/-- A terminated worker refuses a prompt and stays finished when its session completes. -/
theorem finished_stays_after_terminate :
    FinishedAt countingClock wholeNumbers (js "worker_00000000_1")
      (after countingClock wholeNumbers
        ([.create (js "/repo") [] false, .call (js "worker_00000000_1") .terminate] ++
        [.call (js "worker_00000000_1") (.sendPrompt (some (js "go")) none),
          .call (js "worker_00000000_1") (.observeCompletion (js "stop") (.finite 3))])) := by
  have hstatus : ((after countingClock wholeNumbers [.create (js "/repo") [] false,
      .call (js "worker_00000000_1") .terminate]).workers.get (js "worker_00000000_1")).map
      Worker.status = some .finished := by decide +kernel
  obtain ⟨worker, hget, hfinished⟩ := Option.map_eq_some_iff.mp hstatus
  refine (finished_stays_iff countingClock wholeNumbers _ _ _ worker hget hfinished ?_).mpr ?_ _ []
    (List.append_nil _).symm
  · apply Serial.meets_of_mem
    intro op hop registry hrenews
    obtain h | ⟨cwd, trustedRoots, autoRecover, h, -⟩ := hrenews
    · rw [h] at hop
      simp at hop
    · rw [h] at hop
      simp at hop
  · apply Serial.meets_of_mem
    intro op hop registry c worker hcall _
    rw [hcall] at hop
    have hc : c = .sendPrompt (some (js "go")) none ∨ c = .observeCompletion (js "stop") (.finite 3) :=
      by simpa using hop
    obtain rfl | rfl := hc
    · rfl
    · exact (by decide +kernel : Boot.isProviderFailure (js "stop") (.finite 3) = false)

/-- A screen that ends in an input mark makes a terminated worker ready again. -/
theorem finished_left_by_ready_cue :
    ¬ ∀ (clock : WorkerClock) (format : NumberFormat) (earlier later : List WorkerOperation)
      (workerId : JsString) (worker : Worker),
      (after clock format earlier).workers.get workerId = some worker →
      worker.status = .finished →
      Serial.Meets (step clock format)
        (fun registry op => ¬ Renews clock format workerId registry op)
        (after clock format earlier) later →
      ∀ first second, later = first ++ second →
        FinishedAt clock format workerId (after clock format (earlier ++ first)) := by
  intro h
  have hstatus : ((after countingClock wholeNumbers [.create (js "/repo") [] false,
      .call (js "worker_00000000_1") .terminate]).workers.get (js "worker_00000000_1")).map
      Worker.status = some .finished := by decide +kernel
  obtain ⟨worker, hget, hfinished⟩ := Option.map_eq_some_iff.mp hstatus
  have hready : ((after countingClock wholeNumbers ([.create (js "/repo") [] false,
      .call (js "worker_00000000_1") .terminate] ++
      [.call (js "worker_00000000_1") (.observe (js ">"))])).workers.get
      (js "worker_00000000_1")).map Worker.status = some .readyForPrompt := by decide +kernel
  obtain ⟨worker', hget', hstatus', -⟩ := h countingClock wholeNumbers _
    [.call (js "worker_00000000_1") (.observe (js ">"))] _ worker hget hfinished
    (Serial.meets_of_mem _ (by
      intro op hop registry hrenews
      rw [List.mem_singleton] at hop
      subst hop
      obtain h | ⟨cwd, trustedRoots, autoRecover, h, -⟩ := hrenews
      · cases h
      · cases h)) _ [] (List.append_nil _).symm
  rw [hget', Option.map_some, hstatus'] at hready
  cases hready

end WorkerRegistry

end Solarcido.Workers
