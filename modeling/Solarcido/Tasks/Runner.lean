import Solarcido.Tasks.Registry

namespace Solarcido.Tasks

open Text ThrowingProgram TaskRegistry

structure TaskExecution where
  ok : Bool
  output : JsString

/-- How a task's executor settles. -/
abbrev Outcome := Except Thrown TaskExecution

/-- One call of `runTask`. -/
inductive TaskRun where
  | waiting (taskId : JsString) (task : Task)
  | returned (task : Task)
  | threw (e : Thrown)

section programs

variable (clock : IdClock)

/-- The part of `runTask` in front of the executor; the executor gets the task. -/
def startTask (taskId : JsString) : RegistryProgram Task := do
  let _ ← setStatus clock taskId .running
  require taskId

/-- The status `runTask` records for an outcome. -/
def Outcome.status : Outcome → TaskStatus
  | .ok result => if result.ok then .completed else .failed
  | .error _ => .failed

def record (taskId output : JsString) (status : TaskStatus) : RegistryProgram Unit := do
  let _ ← appendOutput clock taskId output
  let _ ← setStatus clock taskId status

def recordResult (taskId : JsString) : Outcome → RegistryProgram Unit
  | .ok result => record clock taskId result.output (if result.ok then .completed else .failed)
  | .error error => throw error

def recordError (taskId : JsString) (error : Thrown) : RegistryProgram Unit :=
  record clock taskId (js "ERROR: " ++ error.messageOf) .failed

/-- The part of `runTask` behind the executor. -/
def finishTask (taskId : JsString) (outcome : Outcome) : RegistryProgram Task := do
  tryCatch (recordResult clock taskId outcome) (recordError clock taskId)
  require taskId

end programs

/-- A registry, and the calls of `runTask` made on it so far. -/
structure TaskWorld where
  registry : TaskRegistry
  runs : List TaskRun

namespace TaskWorld

variable (clock : IdClock) (format : NumberFormat)

def new : TaskWorld := ⟨TaskRegistry.new, []⟩

/-- What happens next: an operation of the registry, a call of `runTask`, or an executor that
settles. -/
inductive Action where
  | operation (op : TaskOperation)
  | runTask (taskId : JsString)
  | settle (run : Nat) (outcome : Outcome)

def runTask (taskId : JsString) (world : TaskWorld) : TaskWorld :=
  match startTask clock taskId world.registry with
  | .ok task registry => ⟨registry, world.runs ++ [.waiting taskId task]⟩
  | .error e registry => ⟨registry, world.runs ++ [.threw e]⟩

def settle (run : Nat) (outcome : Outcome) (world : TaskWorld) : TaskWorld :=
  match world.runs[run]? with
  | some (.waiting taskId _) =>
    match finishTask clock taskId outcome world.registry with
    | .ok task registry => ⟨registry, world.runs.set run (.returned task)⟩
    | .error e registry => ⟨registry, world.runs.set run (.threw e)⟩
  | _ => world

def step (world : TaskWorld) : Action → TaskWorld
  | .operation op => { world with registry := finalState (perform clock format op world.registry) }
  | .runTask taskId => runTask clock taskId world
  | .settle run outcome => settle clock run outcome world

/-- A registry made new, after a sequence of actions. -/
def after (actions : List Action) : TaskWorld := Serial.runAll (step clock format) new actions

theorem runTask_registry (taskId : JsString) (world : TaskWorld) :
    (runTask clock taskId world).registry = finalState (startTask clock taskId world.registry) := by
  rw [runTask]
  cases startTask clock taskId world.registry with
  | ok task registry => rfl
  | error e registry => rfl

theorem settle_registry {run : Nat} {taskId : JsString} {task : Task} {world : TaskWorld}
    (h : world.runs[run]? = some (.waiting taskId task)) (outcome : Outcome) :
    (settle clock run outcome world).registry =
      finalState (finishTask clock taskId outcome world.registry) := by
  simp only [settle, h]
  cases finishTask clock taskId outcome world.registry with
  | ok task registry => rfl
  | error e registry => rfl

end TaskWorld

section results

variable (clock : IdClock)

/-- Two registries hold the same task of an id. -/
def SameTask (taskId : JsString) (registry registry' : TaskRegistry) : Prop :=
  registry'.tasks.get taskId = registry.tasks.get taskId

theorem sameTask_isFrame (taskId : JsString) : IsFrame (SameTask taskId) :=
  ⟨fun _ => rfl, fun _ _ _ h h' => Eq.trans h' h⟩

theorem require_keeps (other taskId : JsString) : Keeps (SameTask other) (require taskId) := by
  rw [keeps_iff]
  intro registry
  cases h : registry.tasks.get taskId with
  | some task => rw [require_of_get h]; rfl
  | none => rw [require_of_none h]; rfl

theorem edit_keeps {other taskId : JsString} (h : other ≠ taskId) (e : TaskEdit) :
    Keeps (SameTask other) (edit clock taskId e) := by
  rw [keeps_iff]
  intro registry
  exact edit_frame clock registry e h

theorem startTask_keeps {other taskId : JsString} (h : other ≠ taskId) :
    Keeps (SameTask other) (startTask clock taskId) :=
  keeps_bind (sameTask_isFrame other) (edit_keeps clock h _) fun _ => require_keeps other taskId

theorem record_keeps {other taskId : JsString} (h : other ≠ taskId) (output : JsString)
    (status : TaskStatus) : Keeps (SameTask other) (record clock taskId output status) :=
  keeps_bind (sameTask_isFrame other) (edit_keeps clock h _) fun _ =>
    keeps_bind (sameTask_isFrame other) (edit_keeps clock h _) fun _ =>
      keeps_pure (sameTask_isFrame other) _

theorem finishTask_keeps {other taskId : JsString} (h : other ≠ taskId) (outcome : Outcome) :
    Keeps (SameTask other) (finishTask clock taskId outcome) := by
  have hresult : Keeps (SameTask other) (recordResult clock taskId outcome) := by
    cases outcome with
    | ok result => exact record_keeps clock h _ _
    | error error => exact keeps_throw (sameTask_isFrame other) error
  exact keeps_bind (sameTask_isFrame other)
    (keeps_tryCatch (sameTask_isFrame other) hresult fun _ => record_keeps clock h _ _)
    fun _ => require_keeps other taskId

/-- A registered task is running when its executor is called. -/
theorem startTask_ok {registry : TaskRegistry} {taskId : JsString} {task : Task}
    (h : registry.tasks.get taskId = some task) :
    ∃ task' registry', startTask clock taskId registry = .ok task' registry' ∧
      registry'.tasks.get taskId = some task' ∧ task'.status = .running := by
  obtain ⟨registry', hset, hget⟩ := edit_ok clock h (rfl : TaskEdit.refusal taskId task (.setStatus .running) = none)
  refine ⟨_, registry', ?_, hget, rfl⟩
  rw [startTask, setStatus, bind_of_ok hset]
  exact require_of_get hget

theorem record_ok {registry : TaskRegistry} {taskId : JsString} {task : Task}
    (h : registry.tasks.get taskId = some task) (output : JsString) (status : TaskStatus) :
    ∃ task' registry', record clock taskId output status registry = .ok () registry' ∧
      registry'.tasks.get taskId = some task' ∧ task'.status = status := by
  obtain ⟨first, happend, hget⟩ := edit_ok clock h
    (rfl : TaskEdit.refusal taskId task (.appendOutput output) = none)
  obtain ⟨second, hset, hget'⟩ := edit_ok clock hget
    (rfl : TaskEdit.refusal taskId _ (.setStatus status) = none)
  refine ⟨_, second, ?_, hget', rfl⟩
  rw [record, appendOutput, bind_of_ok happend, setStatus, bind_of_ok hset]
  rfl

/-- A task that is still registered ends with the status of its executor's outcome. -/
theorem finishTask_ok {registry : TaskRegistry} {taskId : JsString} {task : Task}
    (h : registry.tasks.get taskId = some task) (outcome : Outcome) :
    ∃ task' registry', finishTask clock taskId outcome registry = .ok task' registry' ∧
      registry'.tasks.get taskId = some task' ∧ task'.status = outcome.status := by
  cases outcome with
  | ok result =>
    obtain ⟨task', registry', hrecord, hget, hstatus⟩ := record_ok clock h result.output
      (if result.ok then .completed else .failed)
    have hresult : recordResult clock taskId (.ok result) registry = .ok () registry' := hrecord
    have hcatch := tryCatch_of_ok hresult (recordError clock taskId)
    refine ⟨task', registry', ?_, hget, hstatus⟩
    rw [finishTask, bind_of_ok hcatch]
    exact require_of_get hget
  | error error =>
    obtain ⟨task', registry', hrecord, hget, hstatus⟩ := record_ok clock h
      (js "ERROR: " ++ error.messageOf) .failed
    have hthrow : recordResult clock taskId (.error error) registry = .error error registry := rfl
    have hcatch := tryCatch_of_error hthrow (recordError clock taskId)
    refine ⟨task', registry', ?_, hget, hstatus⟩
    rw [finishTask, bind_of_ok (hcatch.trans hrecord)]
    exact require_of_get hget

end results

end Solarcido.Tasks
