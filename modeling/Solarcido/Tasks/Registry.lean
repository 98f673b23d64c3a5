import Solarcido.Js.Number
import Solarcido.Js.Value
import Solarcido.Lib.InsertionMap
import Solarcido.Lib.Serial
import Solarcido.Lib.ThrowingProgram

namespace Solarcido.Tasks

open Text ThrowingProgram

inductive TaskScope where
  | workspace
  | module
  | singleFile
  | custom
  deriving DecidableEq

def taskScopeLabel : TaskScope → JsString
  | .workspace => js "workspace"
  | .module => js "module"
  | .singleFile => js "single-file"
  | .custom => js "custom"

/-- Structured brief handed to a sub-agent when creating a scoped task. -/
structure TaskPacket where
  objective : JsString
  scope : TaskScope
  scopePath : Option JsString
  repo : JsString
  worktree : Option JsString
  branchPolicy : JsString
  acceptanceTests : List JsString
  commitPolicy : JsString
  reportingContract : JsString
  escalationPolicy : JsString

def validateRequired (field value : JsString) : List JsString :=
  if (trim value).isEmpty then [field ++ js " must not be empty"] else []

def validateScopeRequirements (packet : TaskPacket) : List JsString :=
  if packet.scope ≠ .workspace ∧ (trim (packet.scopePath.getD [])).isEmpty then
    [js "scope_path is required for scope '" ++ taskScopeLabel packet.scope ++ js "'"]
  else []

def validateAcceptanceTest (test : JsString × Nat) : List JsString :=
  if (trim test.1).isEmpty then
    [js "acceptance_tests contains an empty value at index " ++ Number.decimal test.2]
  else []

def packetErrors (packet : TaskPacket) : List JsString :=
  validateRequired (js "objective") packet.objective ++
  validateRequired (js "repo") packet.repo ++
  validateRequired (js "branch_policy") packet.branchPolicy ++
  validateRequired (js "commit_policy") packet.commitPolicy ++
  validateRequired (js "reporting_contract") packet.reportingContract ++
  validateRequired (js "escalation_policy") packet.escalationPolicy ++
  validateScopeRequirements packet ++ packet.acceptanceTests.zipIdx.flatMap validateAcceptanceTest

/-- A packet that passed all field checks. -/
structure ValidatedPacket where
  packet : TaskPacket
  valid : packetErrors packet = []

/-- `new TaskPacketValidationError(errors)`. -/
def packetValidationError (errors : List JsString) : Thrown :=
  .object ⟨true, false, some (js "TaskPacketValidationError"), some (join (js "; ") errors), none,
    none, none, none, none, js "TaskPacketValidationError: " ++ join (js "; ") errors⟩

def validatePacket (packet : TaskPacket) : Except Thrown ValidatedPacket :=
  if h : packetErrors packet = [] then .ok ⟨packet, h⟩
  else .error (packetValidationError (packetErrors packet))

/-- Lifecycle state of a task. -/
inductive TaskStatus where
  | created
  | running
  | completed
  | failed
  | stopped
  deriving DecidableEq

def TaskStatus.text : TaskStatus → JsString
  | .created => js "created"
  | .running => js "running"
  | .completed => js "completed"
  | .failed => js "failed"
  | .stopped => js "stopped"

def isTerminalStatus (status : TaskStatus) : Bool :=
  status = .completed || status = .failed || status = .stopped

structure TaskMessage where
  role : JsString
  content : JsString
  timestamp : JsNumber

structure Task where
  taskId : JsString
  prompt : JsString
  description : Option JsString
  taskPacket : Option TaskPacket
  status : TaskStatus
  createdAt : JsNumber
  updatedAt : JsNumber
  messages : List TaskMessage
  output : JsString
  teamId : Option JsString

/-- An injected clock: what it gives at each reading. -/
structure IdClock where
  nextId : Nat → JsNumber
  nowSecs : Nat → JsNumber

/-- What can be asked of one task and changes it. -/
inductive TaskEdit where
  | setStatus (status : TaskStatus)
  | stop
  | update (message : JsString)
  | appendOutput (output : JsString)
  | assignTeam (teamId : JsString)

namespace TaskEdit

/-- The error an edit throws before it changes anything. -/
def refusal (taskId : JsString) (task : Task) : TaskEdit → Option JsString
  | .stop =>
    if isTerminalStatus task.status then
      some (js "task " ++ taskId ++ js " is already in terminal state: " ++ task.status.text)
    else none
  | _ => none

/-- How often an edit reads the clock. -/
def readings : TaskEdit → Nat
  | .update _ => 2
  | _ => 1

/-- What an edit does to a task; the last reading of the clock is its `updatedAt`. -/
def effect (clock : IdClock) (read : Nat) (task : Task) : TaskEdit → Task
  | .setStatus status => { task with status := status, updatedAt := clock.nowSecs read }
  | .stop => { task with status := .stopped, updatedAt := clock.nowSecs read }
  | .update message =>
    { task with
      messages := task.messages ++ [⟨js "user", message, clock.nowSecs read⟩]
      updatedAt := clock.nowSecs (read + 1) }
  | .appendOutput output =>
    { task with output := task.output ++ output, updatedAt := clock.nowSecs read }
  | .assignTeam teamId => { task with teamId := some teamId, updatedAt := clock.nowSecs read }

end TaskEdit

structure TaskRegistry where
  tasks : InsertionMap JsString Task
  ids : Nat
  readings : Nat

namespace TaskRegistry

abbrev RegistryProgram := EStateM Thrown TaskRegistry

-- The clock a registry was made with, and the engine it runs on.
variable (clock : IdClock) (format : NumberFormat)

def new : TaskRegistry := ⟨.empty, 0, 0⟩

section creation

def newTaskId (registry : TaskRegistry) : JsString :=
  js "task_" ++ padStart (format.hex (clock.nowSecs registry.readings)) 8 ++ js "_" ++
    format.decimal (clock.nextId registry.ids)

def newTask (prompt : JsString) (description : Option JsString) (taskPacket : Option TaskPacket)
    (registry : TaskRegistry) : Task where
  taskId := newTaskId clock format registry
  prompt := prompt
  description := description
  taskPacket := taskPacket
  status := .created
  createdAt := clock.nowSecs registry.readings
  updatedAt := clock.nowSecs registry.readings
  messages := []
  output := []
  teamId := none

def createTask (prompt : JsString) (description : Option JsString) (taskPacket : Option TaskPacket) :
    RegistryProgram Task := do
  let registry ← get
  let task := newTask clock format prompt description taskPacket registry
  set (TaskRegistry.mk (registry.tasks.set (newTaskId clock format registry) task)
    (registry.ids + 1) (registry.readings + 1))
  return task

/-- Create a task from a raw prompt string and optional description. -/
def create (prompt : JsString) (description : Option JsString) : RegistryProgram Task :=
  createTask clock format prompt description none

/-- The packet's objective becomes the prompt, its path or scope the description. -/
def createFromPacket (packet : TaskPacket) : RegistryProgram Task :=
  match validatePacket packet with
  | .error e => throw e
  | .ok validated =>
    let inner := validated.packet
    createTask clock format inner.objective
      (some (inner.scopePath.getD (taskScopeLabel inner.scope))) (some inner)

end creation

def require (taskId : JsString) : RegistryProgram Task := do
  let registry ← get
  match registry.tasks.get taskId with
  | some task => return task
  | none => throw (.error (js "task not found: " ++ taskId))

/-- The registry with a task changed by an edit. -/
def edited (registry : TaskRegistry) (taskId : JsString) (task : Task) (e : TaskEdit) :
    TaskRegistry :=
  { registry with
    tasks := registry.tasks.set taskId (e.effect clock registry.readings task)
    readings := registry.readings + e.readings }

def edit (taskId : JsString) (e : TaskEdit) : RegistryProgram Task := do
  let task ← require taskId
  match e.refusal taskId task with
  | some message => throw (.error message)
  | none =>
    let registry ← get
    set (registry.edited clock taskId task e)
    return e.effect clock registry.readings task

section operations

/-- Set a task's status directly. -/
def setStatus (taskId : JsString) (status : TaskStatus) : RegistryProgram Task :=
  edit clock taskId (.setStatus status)

/-- Transition a task to Stopped. -/
def stop (taskId : JsString) : RegistryProgram Task := edit clock taskId .stop

def update (taskId message : JsString) : RegistryProgram Task := edit clock taskId (.update message)

def appendOutput (taskId output : JsString) : RegistryProgram Task :=
  edit clock taskId (.appendOutput output)

def assignTeam (taskId teamId : JsString) : RegistryProgram Task :=
  edit clock taskId (.assignTeam teamId)

def list (statusFilter : Option TaskStatus) (registry : TaskRegistry) : List Task :=
  registry.tasks.values.filter fun t => statusFilter.isNone || some t.status = statusFilter

def output (taskId : JsString) : RegistryProgram JsString := do
  let task ← require taskId
  return task.output

/-- Hard-remove a task from the registry. -/
def remove (taskId : JsString) : RegistryProgram (Option Task) := do
  let registry ← get
  match registry.tasks.get taskId with
  | none => return none
  | some task =>
    set { registry with tasks := registry.tasks.erase taskId }
    return some task

end operations

/-- What a caller can ask of the registry. -/
inductive TaskOperation where
  | create (prompt : JsString) (description : Option JsString)
  | createFromPacket (packet : TaskPacket)
  | get (taskId : JsString)
  | list (statusFilter : Option TaskStatus)
  | edit (taskId : JsString) (e : TaskEdit)
  | output (taskId : JsString)
  | remove (taskId : JsString)

inductive TaskAnswer where
  | task (t : Option Task)
  | tasks (ts : List Task)
  | text (s : JsString)

def perform : TaskOperation → RegistryProgram TaskAnswer
  | .create prompt description => do
    let task ← create clock format prompt description
    return .task (some task)
  | .createFromPacket packet => do
    let task ← createFromPacket clock format packet
    return .task (some task)
  | .get taskId => do
    let registry ← get
    return .task (registry.tasks.get taskId)
  | .list statusFilter => do
    let registry ← get
    return .tasks (list statusFilter registry)
  | .edit taskId e => do
    let task ← edit clock taskId e
    return .task (some task)
  | .output taskId => do
    let text ← output taskId
    return .text text
  | .remove taskId => do
    let task ← remove taskId
    return .task task

section results

theorem require_of_get {registry : TaskRegistry} {taskId : JsString} {task : Task}
    (h : registry.tasks.get taskId = some task) :
    require taskId registry = .ok task registry := by
  rw [require, get_bind]
  simp only [h]
  rfl

theorem require_of_none {registry : TaskRegistry} {taskId : JsString}
    (h : registry.tasks.get taskId = none) :
    require taskId registry = .error (.error (js "task not found: " ++ taskId)) registry := by
  rw [require, get_bind]
  simp only [h]
  rfl

theorem edit_missing {registry : TaskRegistry} {taskId : JsString}
    (h : registry.tasks.get taskId = none) (e : TaskEdit) :
    edit clock taskId e registry = .error (.error (js "task not found: " ++ taskId)) registry := by
  rw [edit, bind_of_error (require_of_none h)]

theorem edit_refused {registry : TaskRegistry} {taskId : JsString} {task : Task}
    (h : registry.tasks.get taskId = some task) {e : TaskEdit} {message : JsString}
    (he : e.refusal taskId task = some message) :
    edit clock taskId e registry = .error (.error message) registry := by
  rw [edit, bind_of_ok (require_of_get h)]
  simp only [he]
  rfl

theorem edit_accepted {registry : TaskRegistry} {taskId : JsString} {task : Task}
    (h : registry.tasks.get taskId = some task) {e : TaskEdit}
    (he : e.refusal taskId task = none) :
    edit clock taskId e registry =
      .ok (e.effect clock registry.readings task) (registry.edited clock taskId task e) := by
  rw [edit, bind_of_ok (require_of_get h)]
  simp only [he]
  rfl

theorem edited_get_self (registry : TaskRegistry) (taskId : JsString) (task : Task) (e : TaskEdit) :
    (registry.edited clock taskId task e).tasks.get taskId =
      some (e.effect clock registry.readings task) := InsertionMap.get_set_self _ _ _

theorem edited_get_of_ne (registry : TaskRegistry) {taskId other : JsString} (task : Task)
    (e : TaskEdit) (h : other ≠ taskId) :
    (registry.edited clock taskId task e).tasks.get other = registry.tasks.get other :=
  InsertionMap.get_set_of_ne _ _ _ _ h

theorem edit_ok {registry : TaskRegistry} {taskId : JsString} {task : Task}
    (h : registry.tasks.get taskId = some task) {e : TaskEdit}
    (he : e.refusal taskId task = none) :
    ∃ registry', edit clock taskId e registry =
        .ok (e.effect clock registry.readings task) registry' ∧
      registry'.tasks.get taskId = some (e.effect clock registry.readings task) :=
  ⟨_, edit_accepted clock h he, edited_get_self clock registry taskId task e⟩

/-- An edit leaves the other tasks alone. -/
theorem edit_frame (registry : TaskRegistry) {taskId other : JsString} (e : TaskEdit)
    (h : other ≠ taskId) :
    (finalState (edit clock taskId e registry)).tasks.get other = registry.tasks.get other := by
  cases hget : registry.tasks.get taskId with
  | none => rw [edit_missing clock hget, finalState]
  | some task =>
    cases he : e.refusal taskId task with
    | some message => rw [edit_refused clock hget he, finalState]
    | none => rw [edit_accepted clock hget he, finalState, edited_get_of_ne clock registry task e h]

end results

/-- A clock that counts its readings. -/
def countingClock : IdClock where
  nextId n := .finite (n + 1)
  nowSecs n := .finite n

end TaskRegistry

end Solarcido.Tasks
