import Solarcido.Js.Value
import Solarcido.Workers.Screen

namespace Solarcido.Workers

open Text

/-- An injected clock: what it gives at each reading. -/
structure WorkerClock where
  nextId : Nat → JsNumber
  nowSecs : Nat → JsNumber

inductive WorkerStatus where
  | spawning
  | trustRequired
  | toolPermissionRequired
  | readyForPrompt
  | running
  | finished
  | failed
  deriving DecidableEq

def WorkerStatus.text : WorkerStatus → JsString
  | .spawning => js "spawning"
  | .trustRequired => js "trust_required"
  | .toolPermissionRequired => js "tool_permission_required"
  | .readyForPrompt => js "ready_for_prompt"
  | .running => js "running"
  | .finished => js "finished"
  | .failed => js "failed"

inductive WorkerFailureKind where
  | trustGate
  | toolPermissionGate
  | promptDelivery
  | protocol
  | provider
  | startupNoEvidence
  deriving DecidableEq

structure WorkerFailure where
  kind : WorkerFailureKind
  message : JsString
  createdAt : JsNumber

inductive WorkerEventKind where
  | spawning
  | trustRequired
  | toolPermissionRequired
  | trustResolved
  | readyForPrompt
  | promptMisdelivery
  | promptReplayArmed
  | running
  | restarted
  | finished
  | failed
  | startupNoEvidence
  deriving DecidableEq

inductive WorkerTrustResolution where
  | autoAllowlisted
  | manualApproval
  deriving DecidableEq

inductive StartupFailureClassification where
  | trustRequired
  | toolPermissionRequired
  | promptMisdelivery
  | promptAcceptanceTimeout
  | transportDead
  | workerCrashed
  | unknown
  deriving DecidableEq

def StartupFailureClassification.text : StartupFailureClassification → JsString
  | .trustRequired => js "trust_required"
  | .toolPermissionRequired => js "tool_permission_required"
  | .promptMisdelivery => js "prompt_misdelivery"
  | .promptAcceptanceTimeout => js "prompt_acceptance_timeout"
  | .transportDead => js "transport_dead"
  | .workerCrashed => js "worker_crashed"
  | .unknown => js "unknown"

structure StartupEvidenceBundle where
  lastLifecycleState : WorkerStatus
  paneCommand : JsString
  promptSentAt : Option JsNumber
  promptAcceptanceState : Bool
  trustPromptDetected : Bool
  toolPermissionPromptDetected : Bool
  toolPermissionPromptAgeSeconds : Option JsNumber
  toolPermissionAllowScope : Option ToolPermissionAllowScope
  transportHealthy : Bool
  mcpHealthy : Bool
  elapsedSeconds : JsNumber

inductive WorkerEventPayload where
  | trustPrompt (cwd : JsString) (resolution : Option WorkerTrustResolution)
  | toolPermissionPrompt (serverName toolName : Option JsString) (promptAgeSeconds : JsNumber)
      (allowScope : ToolPermissionAllowScope) (promptPreview : JsString)
  | promptDelivery (promptPreview : JsString) (observedTarget : WorkerPromptTarget)
      (observedCwd observedPromptPreview : Option JsString)
      (taskReceipt : Option WorkerTaskReceipt) (recoveryArmed : Bool)
  | startupNoEvidence (evidence : StartupEvidenceBundle)
      (classification : StartupFailureClassification)

structure WorkerEvent where
  seq : Nat
  kind : WorkerEventKind
  status : WorkerStatus
  detail : Option JsString
  payload : Option WorkerEventPayload
  timestamp : JsNumber

structure Worker where
  workerId : JsString
  cwd : JsString
  status : WorkerStatus
  trustAutoResolve : Bool
  trustGateCleared : Bool
  autoRecoverPromptMisdelivery : Bool
  promptDeliveryAttempts : Nat
  promptInFlight : Bool
  lastPrompt : Option JsString
  expectedReceipt : Option WorkerTaskReceipt
  replayPrompt : Option JsString
  lastError : Option WorkerFailure
  createdAt : JsNumber
  updatedAt : JsNumber
  events : List WorkerEvent

structure WorkerReadySnapshot where
  workerId : JsString
  status : WorkerStatus
  ready : Bool
  blocked : Bool
  replayPromptReady : Bool
  lastError : Option WorkerFailure

def classifyStartupFailure (evidence : StartupEvidenceBundle) : StartupFailureClassification :=
  if !evidence.transportHealthy then .transportDead
  else if evidence.trustPromptDetected && evidence.lastLifecycleState = .trustRequired then
    .trustRequired
  else if evidence.toolPermissionPromptDetected &&
      evidence.lastLifecycleState = .toolPermissionRequired then .toolPermissionRequired
  else if evidence.promptSentAt.isSome && !evidence.promptAcceptanceState &&
      evidence.lastLifecycleState = .running then .promptAcceptanceTimeout
  else if evidence.promptSentAt.isSome && !evidence.promptAcceptanceState &&
      evidence.elapsedSeconds.gt (.finite 30) then .promptMisdelivery
  else if !evidence.mcpHealthy && evidence.transportHealthy then .workerCrashed
  else .unknown

/-- A worker, and how often the clock has been read. -/
structure Boot where
  worker : Worker
  readings : Nat

namespace Boot

-- The clock a registry was made with, and the engine it runs on.
variable (clock : WorkerClock) (format : NumberFormat)

def edit (f : Worker → Worker) (b : Boot) : Boot := { b with worker := f b.worker }

def pushEvent (kind : WorkerEventKind) (status : WorkerStatus) (detail : Option JsString)
    (payload : Option WorkerEventPayload) (b : Boot) : Boot where
  worker := { b.worker with
    updatedAt := clock.nowSecs b.readings
    status := status
    events := b.worker.events ++
      [⟨b.worker.events.length + 1, kind, status, detail, payload, clock.nowSecs b.readings⟩] }
  readings := b.readings + 1

/-- Set `lastError`, stamped with a reading of the clock. -/
def setError (kind : WorkerFailureKind) (message : JsString) (b : Boot) : Boot where
  worker := { b.worker with lastError := some ⟨kind, message, clock.nowSecs b.readings⟩ }
  readings := b.readings + 1

section observe

def observeToolPermission (toolPrompt : ToolPermissionObservation) (b : Boot) : Boot :=
  pushEvent clock .toolPermissionRequired .toolPermissionRequired
    (some (js "tool permission prompt detected"))
    (some (.toolPermissionPrompt toolPrompt.serverName toolPrompt.toolName (.finite 0)
      toolPrompt.allowScope toolPrompt.promptPreview))
    (setError clock .toolPermissionGate (toolPermissionMessage toolPrompt) b)

def trustRequired (b : Boot) : Boot :=
  pushEvent clock .trustRequired .trustRequired (some (js "trust prompt detected"))
    (some (.trustPrompt b.worker.cwd none))
    (setError clock .trustGate (js "worker boot blocked on trust prompt") b)

/-- Clear the trust gate and record how it was resolved. -/
def trustResolved (detail : JsString) (resolution : WorkerTrustResolution) (b : Boot) : Boot :=
  pushEvent clock .trustResolved .spawning (some detail)
    (some (.trustPrompt b.worker.cwd (some resolution)))
    (b.edit fun w => { w with trustGateCleared := true, lastError := none })

def misdeliveryMessage (target : WorkerPromptTarget) (cwd preview : JsString) : JsString :=
  match target with
  | .shell => js "worker prompt landed in shell instead of coding agent: " ++ preview
  | .wrongTarget => js "worker prompt landed in the wrong target instead of " ++ cwd ++ js ": " ++
      preview
  | .wrongTask => js "worker prompt receipt mismatched the expected task context for " ++ cwd ++
      js ": " ++ preview
  | .unknown => js "worker prompt delivery failed before reaching coding agent: " ++ preview

def misdeliveryPayload (observation : PromptDeliveryObservation) (recoveryArmed : Bool)
    (w : Worker) : WorkerEventPayload :=
  .promptDelivery (promptPreview (w.lastPrompt.getD [])) observation.target observation.observedCwd
    observation.observedPromptPreview w.expectedReceipt recoveryArmed

def promptMisdelivered (observation : PromptDeliveryObservation) (b : Boot) : Boot :=
  pushEvent clock .promptMisdelivery .failed (some (promptMisdeliveryDetail observation.target))
    (some (misdeliveryPayload observation false b.worker))
    ((setError clock .promptDelivery (misdeliveryMessage observation.target b.worker.cwd
      (promptPreview (b.worker.lastPrompt.getD []))) b).edit
        fun w => { w with promptInFlight := false })

def promptReplayArmed (observation : PromptDeliveryObservation) (b : Boot) : Boot :=
  pushEvent clock .promptReplayArmed .readyForPrompt
    (some (js "prompt replay armed after prompt misdelivery"))
    (some (misdeliveryPayload observation true b.worker))
    (b.edit fun w => { w with replayPrompt := w.lastPrompt })

def observeMisdelivery (observation : PromptDeliveryObservation) (b : Boot) : Boot :=
  let failed := promptMisdelivered clock observation b
  if b.worker.autoRecoverPromptMisdelivery then promptReplayArmed clock observation failed
  else failed

def observeRunning (lowered : JsString) (b : Boot) : Boot :=
  if detectRunningCue lowered && b.worker.promptInFlight then
    pushEvent clock .running .running none none
      (b.edit fun w => { w with promptInFlight := false, lastError := none })
  else b

/-- An error of the trust gate is forgotten. -/
def forgetTrustError (lastError : Option WorkerFailure) : Option WorkerFailure :=
  lastError.filter fun e => e.kind != .trustGate

def observeReady (screenText lowered : JsString) (b : Boot) : Boot :=
  if detectReadyForPrompt screenText lowered && b.worker.status != .readyForPrompt then
    pushEvent clock .readyForPrompt .readyForPrompt (some (js "worker is ready for prompt delivery"))
      none (b.edit fun w =>
        { w with promptInFlight := false, lastError := forgetTrustError w.lastError })
  else b

def misdeliveryOf (screenText lowered : JsString) (w : Worker) :
    Option PromptDeliveryObservation :=
  if w.promptInFlight && w.lastPrompt.isSome then
    detectPromptMisdelivery screenText lowered w.lastPrompt w.cwd w.expectedReceipt
  else none

/-- The part of `observe` behind the two gates. -/
def observePrompt (screenText lowered : JsString) (b : Boot) : Boot :=
  match misdeliveryOf screenText lowered b.worker with
  | some observation => observeMisdelivery clock observation b
  | none => observeReady clock screenText lowered (observeRunning clock lowered b)

def autoResolveDetail : JsString := js "allowlisted repo auto-resolved trust prompt"

def observeTrust (screenText lowered : JsString) (b : Boot) : Boot :=
  if !b.worker.trustGateCleared && detectTrustPrompt lowered then
    if b.worker.trustAutoResolve then
      observePrompt clock screenText lowered
        (trustResolved clock autoResolveDetail .autoAllowlisted (trustRequired clock b))
    else trustRequired clock b
  else observePrompt clock screenText lowered b

/-- The tool-permission gate takes priority. -/
def observe (screenText : JsString) (b : Boot) : Boot :=
  match detectToolPermissionPrompt screenText (toLowerCase screenText) with
  | some toolPrompt => observeToolPermission clock toolPrompt b
  | none => observeTrust clock screenText (toLowerCase screenText) b

end observe

def resolveTrust (b : Boot) : Boot :=
  trustResolved clock (js "trust prompt resolved manually") .manualApproval b

def nextPrompt (prompt : Option JsString) (w : Worker) : Option JsString :=
  (prompt.bind fun p => orUndefined (trim p)).or w.replayPrompt

def sendPrompt (prompt : Option JsString) (taskReceipt : Option WorkerTaskReceipt) (b : Boot) :
    Boot :=
  let next := (nextPrompt prompt b.worker).getD []
  pushEvent clock .running .running
    (some (js "prompt dispatched to worker: " ++ promptPreview next)) none
    (b.edit fun w =>
      { w with
        promptDeliveryAttempts := w.promptDeliveryAttempts + 1
        promptInFlight := true
        lastPrompt := some next
        expectedReceipt := taskReceipt
        replayPrompt := none
        lastError := none })

def restart (b : Boot) : Boot :=
  pushEvent clock .restarted .spawning (some (js "worker restarted")) none
    (b.edit fun w =>
      { w with
        trustGateCleared := false
        lastPrompt := none
        replayPrompt := none
        lastError := none
        promptDeliveryAttempts := 0
        promptInFlight := false })

def terminate (b : Boot) : Boot :=
  pushEvent clock .finished .finished (some (js "worker terminated by control plane")) none
    (b.edit fun w => { w with promptInFlight := false })

section completion

def isDegraded (finishReason : JsString) (tokensOutput : JsNumber) : Bool :=
  finishReason == js "unknown" && tokensOutput = .finite 0

def isProviderFailure (finishReason : JsString) (tokensOutput : JsNumber) : Bool :=
  isDegraded finishReason tokensOutput || finishReason == js "error"

def providerMessage (finishReason : JsString) (tokensOutput : JsNumber) : JsString :=
  if isDegraded finishReason tokensOutput then
    js "session completed with finish='unknown' and zero output — provider degraded or context exhausted"
  else js "session failed with finish='" ++ finishReason ++ js "' — provider error"

def observeCompletion (finishReason : JsString) (tokensOutput : JsNumber) (b : Boot) : Boot :=
  if isProviderFailure finishReason tokensOutput then
    pushEvent clock .failed .failed (some (js "provider failure classified")) none
      ((setError clock .provider (providerMessage finishReason tokensOutput) b).edit
        fun w => { w with promptInFlight := false })
  else
    pushEvent clock .finished .finished
      (some (js "session completed: finish='" ++ finishReason ++ js "', tokens=" ++
        format.decimal tokensOutput)) none
      (b.edit fun w => { w with promptInFlight := false, lastError := none })

end completion

section startup

def boolText (b : Bool) : JsString := if b then js "true" else js "false"

def allowScopeOf (event : WorkerEvent) : Option ToolPermissionAllowScope :=
  match event.payload with
  | some (.toolPermissionPrompt _ _ _ allowScope _) => some allowScope
  | _ => none

def startupEvidence (paneCommand : JsString) (transportHealthy mcpHealthy : Bool) (now : JsNumber)
    (w : Worker) : StartupEvidenceBundle :=
  let latestToolPermissionEvent := w.events.reverse.find? fun e => e.kind = .toolPermissionRequired
  { lastLifecycleState := w.status
    paneCommand := paneCommand
    promptSentAt := if w.promptDeliveryAttempts > 0 then some w.updatedAt else none
    promptAcceptanceState := w.status = .running && !w.promptInFlight
    trustPromptDetected := w.events.any fun e => e.kind = .trustRequired
    toolPermissionPromptDetected := w.events.any fun e => e.kind = .toolPermissionRequired
    toolPermissionPromptAgeSeconds := latestToolPermissionEvent.map fun e => now.sub e.timestamp
    toolPermissionAllowScope := latestToolPermissionEvent.bind allowScopeOf
    transportHealthy := transportHealthy
    mcpHealthy := mcpHealthy
    elapsedSeconds := now.sub w.createdAt }

def startupMessage (evidence : StartupEvidenceBundle) : JsString :=
  js "worker startup stalled after " ++ format.decimal evidence.elapsedSeconds ++
    js "s — classified as " ++ (classifyStartupFailure evidence).text

def startupDetail (evidence : StartupEvidenceBundle) : JsString :=
  js "startup timeout with evidence: last_state=" ++ evidence.lastLifecycleState.text ++
    js ", trust_detected=" ++ boolText evidence.trustPromptDetected ++
    js ", prompt_accepted=" ++ boolText evidence.promptAcceptanceState

/-- The clock is read once for the evidence and the error. -/
def observeStartupTimeout (paneCommand : JsString) (transportHealthy mcpHealthy : Bool) (b : Boot) :
    Boot :=
  let now := clock.nowSecs b.readings
  let evidence := startupEvidence paneCommand transportHealthy mcpHealthy now b.worker
  pushEvent clock .startupNoEvidence .failed (some (startupDetail evidence))
    (some (.startupNoEvidence evidence (classifyStartupFailure evidence)))
    { worker := { b.worker with
        lastError := some ⟨.startupNoEvidence, startupMessage format evidence, now⟩
        promptInFlight := false }
      readings := b.readings + 1 }

end startup

end Boot

/-- What can be asked of one worker and changes it. -/
inductive WorkerCall where
  | observe (screenText : JsString)
  | resolveTrust
  | sendPrompt (prompt : Option JsString) (taskReceipt : Option WorkerTaskReceipt)
  | restart
  | terminate
  | observeCompletion (finishReason : JsString) (tokensOutput : JsNumber)
  | observeStartupTimeout (paneCommand : JsString) (transportHealthy mcpHealthy : Bool)

namespace WorkerCall

/-- The error a call throws before it changes anything. -/
def refusal (workerId : JsString) (w : Worker) : WorkerCall → Option JsString
  | .resolveTrust =>
    if w.status ≠ .trustRequired then
      some (js "worker " ++ workerId ++ js " is not waiting on trust; current status: " ++
        w.status.text)
    else none
  | .sendPrompt prompt _ =>
    if w.status ≠ .readyForPrompt then
      some (js "worker " ++ workerId ++ js " is not ready for prompt delivery; current status: " ++
        w.status.text)
    else if !truthy (Boot.nextPrompt prompt w) then
      some (js "worker " ++ workerId ++ js " has no prompt to send or replay")
    else none
  | _ => none

def effect (clock : WorkerClock) (format : NumberFormat) : WorkerCall → Boot → Boot
  | .observe screenText => Boot.observe clock screenText
  | .resolveTrust => Boot.resolveTrust clock
  | .sendPrompt prompt taskReceipt => Boot.sendPrompt clock prompt taskReceipt
  | .restart => Boot.restart clock
  | .terminate => Boot.terminate clock
  | .observeCompletion finishReason tokensOutput =>
    Boot.observeCompletion clock format finishReason tokensOutput
  | .observeStartupTimeout paneCommand transportHealthy mcpHealthy =>
    Boot.observeStartupTimeout clock format paneCommand transportHealthy mcpHealthy

end WorkerCall

end Solarcido.Workers
