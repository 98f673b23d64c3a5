import Solarcido.Lib.InsertionMap
import Solarcido.Lib.Serial
import Solarcido.Lib.ThrowingProgram
import Solarcido.Workers.Boot

namespace Solarcido.Workers

open Text ThrowingProgram

inductive WorkerOperation where
  | create (cwd : JsString) (trustedRoots : List JsString) (autoRecoverPromptMisdelivery : Bool)
  | get (workerId : JsString)
  | awaitReady (workerId : JsString)
  | call (workerId : JsString) (c : WorkerCall)

inductive WorkerAnswer where
  | worker (w : Option Worker)
  | ready (snapshot : WorkerReadySnapshot)

/-- The registry's workers, and how often its clock has been asked. -/
structure WorkerRegistry where
  workers : InsertionMap JsString Worker
  ids : Nat
  readings : Nat

namespace WorkerRegistry

abbrev RegistryProgram := EStateM Thrown WorkerRegistry

-- The clock a registry was made with, and the engine it runs on.
variable (clock : WorkerClock) (format : NumberFormat)

def new : WorkerRegistry := ⟨.empty, 0, 0⟩

def newWorkerId (registry : WorkerRegistry) : JsString :=
  js "worker_" ++ padStart (format.hex (clock.nowSecs registry.readings)) 8 ++ js "_" ++
    format.decimal (clock.nextId registry.ids)

def allowListed (cwd : JsString) (trustedRoots : List JsString) : Bool :=
  trustedRoots.any fun root => pathMatchesAllowlist cwd root

/-- A worker as it is before its first event. -/
def freshWorker (workerId cwd : JsString) (trustedRoots : List JsString)
    (autoRecoverPromptMisdelivery : Bool) (ts : JsNumber) : Worker where
  workerId := workerId
  cwd := cwd
  status := .spawning
  trustAutoResolve := allowListed cwd trustedRoots
  trustGateCleared := false
  autoRecoverPromptMisdelivery := autoRecoverPromptMisdelivery
  promptDeliveryAttempts := 0
  promptInFlight := false
  lastPrompt := none
  expectedReceipt := none
  replayPrompt := none
  lastError := none
  createdAt := ts
  updatedAt := ts
  events := []

/-- The worker `create` makes, and the readings of the clock it took. -/
def created (cwd : JsString) (trustedRoots : List JsString) (autoRecoverPromptMisdelivery : Bool)
    (registry : WorkerRegistry) : Boot :=
  Boot.pushEvent clock .spawning .spawning (some (js "worker created")) none
    { worker := freshWorker (newWorkerId clock format registry) cwd trustedRoots
        autoRecoverPromptMisdelivery (clock.nowSecs registry.readings)
      readings := registry.readings + 1 }

def store (registry : WorkerRegistry) (workerId : JsString) (boot : Boot) : WorkerRegistry :=
  { registry with
    workers := registry.workers.set workerId boot.worker
    readings := boot.readings }

def create (cwd : JsString) (trustedRoots : List JsString) (autoRecoverPromptMisdelivery : Bool) :
    RegistryProgram Worker := do
  let registry ← get
  let boot := created clock format cwd trustedRoots autoRecoverPromptMisdelivery registry
  set { registry.store (newWorkerId clock format registry) boot with ids := registry.ids + 1 }
  return boot.worker

def require (workerId : JsString) : RegistryProgram Worker := do
  let registry ← get
  match registry.workers.get workerId with
  | some worker => return worker
  | none => throw (.error (js "worker not found: " ++ workerId))

def call (workerId : JsString) (c : WorkerCall) : RegistryProgram Worker := do
  let worker ← require workerId
  match c.refusal workerId worker with
  | some message => throw (.error message)
  | none =>
    let registry ← get
    let boot := c.effect clock format ⟨worker, registry.readings⟩
    set (registry.store workerId boot)
    return boot.worker

def readySnapshot (worker : Worker) : WorkerReadySnapshot where
  workerId := worker.workerId
  status := worker.status
  ready := worker.status = .readyForPrompt
  blocked := worker.status = .trustRequired || worker.status = .toolPermissionRequired ||
    worker.status = .failed
  replayPromptReady := worker.replayPrompt.isSome
  lastError := worker.lastError

def awaitReady (workerId : JsString) : RegistryProgram WorkerReadySnapshot := do
  let worker ← require workerId
  return readySnapshot worker

def perform : WorkerOperation → RegistryProgram WorkerAnswer
  | .create cwd trustedRoots autoRecoverPromptMisdelivery => do
    let worker ← create clock format cwd trustedRoots autoRecoverPromptMisdelivery
    return .worker (some worker)
  | .get workerId => do
    let registry ← get
    return .worker (registry.workers.get workerId)
  | .awaitReady workerId => do
    let snapshot ← awaitReady workerId
    return .ready snapshot
  | .call workerId c => do
    let worker ← call clock format workerId c
    return .worker (some worker)

/-- The registry an operation leaves, whether it returns or throws. -/
def step (registry : WorkerRegistry) (op : WorkerOperation) : WorkerRegistry :=
  finalState (perform clock format op registry)

/-- A registry made new, after a sequence of operations. -/
def after (ops : List WorkerOperation) : WorkerRegistry :=
  Serial.runAll (step clock format) new ops

section steps

theorem require_of_get {registry : WorkerRegistry} {workerId : JsString} {worker : Worker}
    (h : registry.workers.get workerId = some worker) :
    require workerId registry = .ok worker registry := by
  rw [require, get_bind]
  simp only [h]
  rfl

theorem require_of_none {registry : WorkerRegistry} {workerId : JsString}
    (h : registry.workers.get workerId = none) :
    require workerId registry = .error (.error (js "worker not found: " ++ workerId)) registry := by
  rw [require, get_bind]
  simp only [h]
  rfl

theorem step_create (registry : WorkerRegistry) (cwd : JsString) (trustedRoots : List JsString)
    (autoRecoverPromptMisdelivery : Bool) :
    (step clock format registry (.create cwd trustedRoots autoRecoverPromptMisdelivery)).workers =
      registry.workers.set (newWorkerId clock format registry)
        (created clock format cwd trustedRoots autoRecoverPromptMisdelivery registry).worker := rfl

theorem step_awaitReady (registry : WorkerRegistry) (workerId : JsString) :
    step clock format registry (.awaitReady workerId) = registry := by
  cases h : registry.workers.get workerId with
  | some worker =>
    have hready : awaitReady workerId registry = .ok (readySnapshot worker) registry := by
      rw [awaitReady, bind_of_ok (require_of_get h)]
      rfl
    rw [step, perform, bind_of_ok hready]
    rfl
  | none =>
    have hready : awaitReady workerId registry =
        .error (.error (js "worker not found: " ++ workerId)) registry := by
      rw [awaitReady, bind_of_error (require_of_none h)]
    rw [step, perform, bind_of_error hready]
    rfl

theorem perform_missing {registry : WorkerRegistry} {workerId : JsString}
    (h : registry.workers.get workerId = none) (c : WorkerCall) :
    perform clock format (.call workerId c) registry =
      .error (.error (js "worker not found: " ++ workerId)) registry := by
  have hcall : call clock format workerId c registry =
      .error (.error (js "worker not found: " ++ workerId)) registry := by
    rw [call, bind_of_error (require_of_none h)]
  rw [perform, bind_of_error hcall]

theorem perform_refused {registry : WorkerRegistry} {workerId : JsString} {worker : Worker}
    (h : registry.workers.get workerId = some worker) {c : WorkerCall} {message : JsString}
    (hc : c.refusal workerId worker = some message) :
    perform clock format (.call workerId c) registry = .error (.error message) registry := by
  have hcall : call clock format workerId c registry = .error (.error message) registry := by
    rw [call, bind_of_ok (require_of_get h)]
    simp only [hc]
    rfl
  rw [perform, bind_of_error hcall]

theorem perform_accepted {registry : WorkerRegistry} {workerId : JsString} {worker : Worker}
    (h : registry.workers.get workerId = some worker) {c : WorkerCall}
    (hc : c.refusal workerId worker = none) :
    perform clock format (.call workerId c) registry =
      .ok (.worker (some (c.effect clock format ⟨worker, registry.readings⟩).worker))
        (registry.store workerId (c.effect clock format ⟨worker, registry.readings⟩)) := by
  have hcall : call clock format workerId c registry =
      .ok (c.effect clock format ⟨worker, registry.readings⟩).worker
        (registry.store workerId (c.effect clock format ⟨worker, registry.readings⟩)) := by
    rw [call, bind_of_ok (require_of_get h)]
    simp only [hc]
    rfl
  rw [perform, bind_of_ok hcall]
  rfl

/-- What one operation can do to the workers. -/
theorem step_cases (registry : WorkerRegistry) (op : WorkerOperation) :
    (step clock format registry op).workers = registry.workers ∨
    (∃ cwd trustedRoots autoRecover, op = .create cwd trustedRoots autoRecover ∧
      (step clock format registry op).workers =
        registry.workers.set (newWorkerId clock format registry)
          (created clock format cwd trustedRoots autoRecover registry).worker) ∨
    (∃ workerId c worker, op = .call workerId c ∧
      registry.workers.get workerId = some worker ∧ c.refusal workerId worker = none ∧
      (step clock format registry op).workers =
        registry.workers.set workerId (c.effect clock format ⟨worker, registry.readings⟩).worker) := by
  cases op with
  | create cwd trustedRoots autoRecover =>
    exact Or.inr (Or.inl ⟨cwd, trustedRoots, autoRecover, rfl, rfl⟩)
  | get workerId => exact Or.inl rfl
  | awaitReady workerId =>
    rw [step_awaitReady]
    exact Or.inl rfl
  | call workerId c =>
    cases hget : registry.workers.get workerId with
    | none =>
      rw [step, perform_missing clock format hget]
      exact Or.inl rfl
    | some worker =>
      cases hc : c.refusal workerId worker with
      | some message =>
        rw [step, perform_refused clock format hget hc]
        exact Or.inl rfl
      | none =>
        rw [step, perform_accepted clock format hget hc]
        exact Or.inr (Or.inr ⟨workerId, c, worker, rfl, hget, hc, rfl⟩)

/-- The operation makes a worker of this id. -/
def Creates (workerId : JsString) (registry : WorkerRegistry) (op : WorkerOperation) : Prop :=
  ∃ cwd trustedRoots autoRecover, op = .create cwd trustedRoots autoRecover ∧
    newWorkerId clock format registry = workerId

/-- Where a worker found after an operation comes from. -/
theorem step_worker {registry : WorkerRegistry} {op : WorkerOperation} {workerId : JsString}
    {worker' : Worker}
    (h : (step clock format registry op).workers.get workerId = some worker') :
    (∃ cwd trustedRoots autoRecover, op = .create cwd trustedRoots autoRecover ∧
      newWorkerId clock format registry = workerId ∧
      worker' = (created clock format cwd trustedRoots autoRecover registry).worker) ∨
    (¬ Creates clock format workerId registry op ∧
      ∃ worker, registry.workers.get workerId = some worker ∧
        ((∃ c : WorkerCall, op = .call workerId c ∧ c.refusal workerId worker = none ∧
          worker' = (c.effect clock format ⟨worker, registry.readings⟩).worker) ∨
        (worker' = worker ∧ ∀ c : WorkerCall, op = .call workerId c →
          c.refusal workerId worker ≠ none))) := by
  cases op with
  | create cwd trustedRoots autoRecover =>
    rw [step_create] at h
    by_cases hid : workerId = newWorkerId clock format registry
    · subst hid
      rw [InsertionMap.get_set_self] at h
      exact Or.inl ⟨cwd, trustedRoots, autoRecover, rfl, rfl, (Option.some.inj h).symm⟩
    · rw [InsertionMap.get_set_of_ne _ _ _ _ hid] at h
      refine Or.inr ⟨?_, worker', h, Or.inr ⟨rfl, fun c hc => by cases hc⟩⟩
      rintro ⟨_, _, _, -, hnew⟩
      exact hid hnew.symm
  | get id =>
    refine Or.inr ⟨?_, worker', h, Or.inr ⟨rfl, fun c hc => by cases hc⟩⟩
    rintro ⟨_, _, _, hop, -⟩
    cases hop
  | awaitReady id =>
    rw [step_awaitReady] at h
    refine Or.inr ⟨?_, worker', h, Or.inr ⟨rfl, fun c hc => by cases hc⟩⟩
    rintro ⟨_, _, _, hop, -⟩
    cases hop
  | call id c =>
    have hcreates : ¬ Creates clock format workerId registry (.call id c) := by
      rintro ⟨_, _, _, hop, -⟩
      cases hop
    refine Or.inr ⟨hcreates, ?_⟩
    cases hget : registry.workers.get id with
    | none =>
      rw [step, perform_missing clock format hget] at h
      refine ⟨worker', h, Or.inr ⟨rfl, ?_⟩⟩
      rintro c' hc'
      obtain ⟨rfl, -⟩ := WorkerOperation.call.inj hc'
      rw [finalState, hget] at h
      cases h
    | some worker =>
      cases hc : c.refusal id worker with
      | some message =>
        rw [step, perform_refused clock format hget hc] at h
        refine ⟨worker', h, Or.inr ⟨rfl, ?_⟩⟩
        rintro c' hc'
        obtain ⟨rfl, rfl⟩ := WorkerOperation.call.inj hc'
        obtain rfl := Option.some.inj (hget.symm.trans h)
        rw [hc]
        exact Option.some_ne_none message
      | none =>
        rw [step, perform_accepted clock format hget hc] at h
        by_cases hid : workerId = id
        · subst hid
          refine ⟨worker, hget, Or.inl ⟨c, rfl, hc, ?_⟩⟩
          exact Option.some.inj (h.symm.trans (InsertionMap.get_set_self _ _ _))
        · have hsame := h.symm.trans (InsertionMap.get_set_of_ne _ _ _ _ hid)
          refine ⟨worker', hsame.symm, Or.inr ⟨rfl, ?_⟩⟩
          rintro c' hc'
          exact absurd (WorkerOperation.call.inj hc').1 (Ne.symm hid)

/-- A worker is there as long as it is not made again. -/
theorem step_present {registry : WorkerRegistry} (op : WorkerOperation) {workerId : JsString}
    {worker : Worker} (h : registry.workers.get workerId = some worker) :
    ∃ worker', (step clock format registry op).workers.get workerId = some worker' := by
  obtain hsame | ⟨_, _, _, -, hset⟩ | ⟨id, c, w, -, -, -, hset⟩ := step_cases clock format registry op
  · exact ⟨worker, by rw [hsame, h]⟩
  · rw [hset]
    by_cases hid : workerId = newWorkerId clock format registry
    · subst hid
      exact ⟨_, InsertionMap.get_set_self _ _ _⟩
    · exact ⟨worker, by rw [InsertionMap.get_set_of_ne _ _ _ _ hid, h]⟩
  · rw [hset]
    by_cases hid : workerId = id
    · subst hid
      exact ⟨_, InsertionMap.get_set_self _ _ _⟩
    · exact ⟨worker, by rw [InsertionMap.get_set_of_ne _ _ _ _ hid, h]⟩

/-- What every new worker has and every call keeps, all workers have. -/
theorem step_keeps (P : Worker → Prop) (registry : WorkerRegistry) (op : WorkerOperation)
    (hnew : ∀ cwd trustedRoots autoRecover,
      P (created clock format cwd trustedRoots autoRecover registry).worker)
    (hcall : ∀ (c : WorkerCall) worker, P worker →
      P (c.effect clock format ⟨worker, registry.readings⟩).worker)
    (h : ∀ workerId worker, registry.workers.get workerId = some worker → P worker) :
    ∀ workerId worker, (step clock format registry op).workers.get workerId = some worker →
      P worker := by
  intro workerId worker' hget
  obtain ⟨cwd, trustedRoots, autoRecover, -, -, rfl⟩ |
    ⟨-, worker, hworker, ⟨c, -, -, rfl⟩ | ⟨rfl, -⟩⟩ := step_worker clock format hget
  · exact hnew cwd trustedRoots autoRecover
  · exact hcall c worker (h workerId worker hworker)
  · exact h workerId worker' hworker

/-- What every new worker has and every call keeps, all workers have after any operations. -/
theorem after_keeps (P : Worker → Prop)
    (hnew : ∀ registry cwd trustedRoots autoRecover,
      P (created clock format cwd trustedRoots autoRecover registry).worker)
    (hcall : ∀ (c : WorkerCall) (b : Boot), P b.worker → P (c.effect clock format b).worker)
    (ops : List WorkerOperation) :
    ∀ workerId worker, (after clock format ops).workers.get workerId = some worker → P worker := by
  apply Serial.runAll_invariant (step clock format) new
    fun registry => ∀ workerId worker, registry.workers.get workerId = some worker → P worker
  · intro workerId worker hget
    exact absurd hget (by simp [new])
  · intro registry op ih
    exact step_keeps clock format P registry op (hnew registry)
      (fun c worker hworker => hcall c _ hworker) ih

theorem after_snoc (ops : List WorkerOperation) (op : WorkerOperation) :
    after clock format (ops ++ [op]) = step clock format (after clock format ops) op :=
  Serial.runAll_snoc _ _ _ _

end steps

section examples

/-- A clock that counts its readings. -/
def countingClock : WorkerClock where
  nextId n := .finite (n + 1)
  nowSecs n := .finite n

end examples

end WorkerRegistry

end Solarcido.Workers
