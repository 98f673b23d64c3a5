import Solarcido.Tasks.Runner

namespace Solarcido.Tasks

open Text ThrowingProgram TaskRegistry

namespace TaskWorld

variable (clock : IdClock) (format : NumberFormat)

/-- The status an action writes to a task, where only `stop` asks whether the task has ended. -/
def Action.writes (world : TaskWorld) (taskId : JsString) : Action → Option TaskStatus
  | .operation (.edit id (.setStatus status)) => if id = taskId then some status else none
  | .runTask id => if id = taskId then some .running else none
  | .settle run outcome =>
    match world.runs[run]? with
    | some (.waiting id _) => if id = taskId then some outcome.status else none
    | _ => none
  | _ => none

/-- The action writes no other status to a task that has ended. -/
def Respects (taskId : JsString) (world : TaskWorld) (action : Action) : Prop :=
  ∀ status task, action.writes world taskId = some status →
    world.registry.tasks.get taskId = some task → isTerminalStatus task.status = true →
      status = task.status

/-- The action takes the task out of the registry, or puts another one of its id in its place. -/
def Replaces (taskId : JsString) (world : TaskWorld) (action : Action) : Prop :=
  action = .operation (.remove taskId) ∨
    ((∃ prompt description, action = .operation (.create prompt description)) ∨
      ∃ packet, action = .operation (.createFromPacket packet)) ∧
    newTaskId clock format world.registry = taskId

/-- The task is registered with this status. -/
def HasStatus (taskId : JsString) (status : TaskStatus) (world : TaskWorld) : Prop :=
  ∃ task, world.registry.tasks.get taskId = some task ∧ task.status = status

theorem createTask_get (prompt : JsString) (description : Option JsString)
    (taskPacket : Option TaskPacket) (registry : TaskRegistry) {taskId : JsString}
    (h : taskId ≠ newTaskId clock format registry) :
    (finalState (createTask clock format prompt description taskPacket registry)).tasks.get taskId =
      registry.tasks.get taskId := InsertionMap.get_set_of_ne _ _ _ _ h

theorem createFromPacket_get (packet : TaskPacket) (registry : TaskRegistry) {taskId : JsString}
    (h : taskId ≠ newTaskId clock format registry) :
    (finalState (createFromPacket clock format packet registry)).tasks.get taskId =
      registry.tasks.get taskId := by
  rw [createFromPacket]
  cases validatePacket packet with
  | error e => rfl
  | ok validated => exact createTask_get clock format _ _ _ registry h

theorem remove_get (registry : TaskRegistry) {taskId other : JsString} (h : taskId ≠ other) :
    (finalState (remove other registry)).tasks.get taskId = registry.tasks.get taskId := by
  rw [remove, get_bind]
  cases registry.tasks.get other with
  | none => rfl
  | some task => exact InsertionMap.get_erase_of_ne _ _ _ h

/-- Making an answer of what a program returns leaves its state alone. -/
theorem finalState_answer {α : Type} (x : RegistryProgram α) (answer : α → TaskAnswer)
    (registry : TaskRegistry) :
    finalState ((x >>= fun a => pure (answer a)) registry) = finalState (x registry) :=
  finalState_bind x _ registry fun _ _ => rfl

theorem finalState_require (registry : TaskRegistry) (taskId : JsString) :
    finalState (require taskId registry) = registry := by
  cases h : registry.tasks.get taskId with
  | some task => rw [require_of_get h]; rfl
  | none => rw [require_of_none h]; rfl

theorem finalState_output (registry : TaskRegistry) (taskId : JsString) :
    finalState (output taskId registry) = registry := by
  rw [output, finalState_bind (h := fun _ _ => rfl), finalState_require]

/-- The status of a task after an edit of it, where it has ended. -/
theorem edit_status {registry : TaskRegistry} {taskId : JsString} {task : Task}
    (hget : registry.tasks.get taskId = some task) (hend : isTerminalStatus task.status = true)
    (e : TaskEdit) (world : TaskWorld) :
    ∃ task', (finalState (edit clock taskId e registry)).tasks.get taskId = some task' ∧
      task'.status =
        ((Action.operation (.edit taskId e)).writes world taskId).getD task.status := by
  have hedit (e : TaskEdit) (he : e.refusal taskId task = none) :
      (finalState (edit clock taskId e registry)).tasks.get taskId =
        some (e.effect clock registry.readings task) := by
    rw [edit_accepted clock hget he]
    exact edited_get_self clock registry taskId task e
  cases e with
  | setStatus status => exact ⟨_, hedit _ rfl, by simp [Action.writes, TaskEdit.effect]⟩
  | stop =>
    rw [edit_refused clock hget (e := .stop) (if_pos hend)]
    exact ⟨task, hget, rfl⟩
  | update message => exact ⟨_, hedit _ rfl, rfl⟩
  | appendOutput output => exact ⟨_, hedit _ rfl, rfl⟩
  | assignTeam teamId => exact ⟨_, hedit _ rfl, rfl⟩

theorem operation_status {world : TaskWorld} {taskId : JsString} {task : Task}
    (hget : world.registry.tasks.get taskId = some task)
    (hend : isTerminalStatus task.status = true) (op : TaskOperation)
    (hreplaces : ¬ Replaces clock format taskId world (.operation op)) :
    ∃ task', (finalState (perform clock format op world.registry)).tasks.get taskId = some task' ∧
      task'.status = ((Action.operation op).writes world taskId).getD task.status := by
  cases op with
  | create prompt description =>
    have hid : taskId ≠ newTaskId clock format world.registry := fun h =>
      hreplaces (Or.inr ⟨Or.inl ⟨prompt, description, rfl⟩, h.symm⟩)
    have hsame := createTask_get clock format prompt description none world.registry hid
    rw [perform, finalState_answer]
    exact ⟨task, hsame.trans hget, rfl⟩
  | createFromPacket packet =>
    have hid : taskId ≠ newTaskId clock format world.registry := fun h =>
      hreplaces (Or.inr ⟨Or.inr ⟨packet, rfl⟩, h.symm⟩)
    rw [perform, finalState_answer]
    exact ⟨task, (createFromPacket_get clock format packet world.registry hid).trans hget, rfl⟩
  | get id => exact ⟨task, hget, rfl⟩
  | list statusFilter => exact ⟨task, hget, rfl⟩
  | output id =>
    rw [perform, finalState_answer, finalState_output]
    exact ⟨task, hget, rfl⟩
  | edit id e =>
    rw [perform, finalState_answer]
    by_cases hid : id = taskId
    · subst hid
      exact edit_status clock hget hend e world
    · have hwrites : (Action.operation (.edit id e)).writes world taskId = none := by
        cases e <;> simp [Action.writes, hid]
      rw [edit_frame clock world.registry e (Ne.symm hid), hwrites]
      exact ⟨task, hget, rfl⟩
  | remove id =>
    have hid : taskId ≠ id := by
      rintro rfl
      exact hreplaces (Or.inl rfl)
    rw [perform, finalState_answer, remove_get world.registry hid]
    exact ⟨task, hget, rfl⟩

/-- What one action leaves of the status of a task that has ended. -/
theorem step_status {world : TaskWorld} {taskId : JsString} {task : Task}
    (hget : world.registry.tasks.get taskId = some task)
    (hend : isTerminalStatus task.status = true) (action : Action)
    (hreplaces : ¬ Replaces clock format taskId world action) :
    HasStatus taskId ((action.writes world taskId).getD task.status)
      (step clock format world action) := by
  cases action with
  | operation op => exact operation_status clock format hget hend op hreplaces
  | runTask id =>
    rw [HasStatus, step, runTask_registry]
    by_cases hid : id = taskId
    · subst hid
      obtain ⟨task', registry', hstart, hget', hstatus⟩ := startTask_ok clock hget
      rw [hstart]
      exact ⟨task', hget', by simp [Action.writes, hstatus]⟩
    · have hsame := keeps_iff.mp (startTask_keeps clock (Ne.symm hid)) world.registry
      refine ⟨task, hsame.trans hget, ?_⟩
      simp [Action.writes, hid]
  | settle run outcome =>
    cases hrun : world.runs[run]? with
    | none =>
      refine ⟨task, ?_, by simp [Action.writes, hrun]⟩
      simpa [step, settle, hrun] using hget
    | some state =>
      cases state with
      | returned t =>
        refine ⟨task, ?_, by simp [Action.writes, hrun]⟩
        simpa [step, settle, hrun] using hget
      | threw e =>
        refine ⟨task, ?_, by simp [Action.writes, hrun]⟩
        simpa [step, settle, hrun] using hget
      | waiting id t =>
        rw [HasStatus, step, settle_registry clock hrun]
        by_cases hid : id = taskId
        · subst hid
          obtain ⟨task', registry', hfinish, hget', hstatus⟩ := finishTask_ok clock hget outcome
          rw [hfinish]
          exact ⟨task', hget', by simp [Action.writes, hrun, hstatus]⟩
        · have hsame := keeps_iff.mp (finishTask_keeps clock (Ne.symm hid) outcome) world.registry
          refine ⟨task, hsame.trans hget, ?_⟩
          simp [Action.writes, hrun, hid]

theorem hasStatus_unique {taskId : JsString} {status status' : TaskStatus} {world : TaskWorld}
    (h : HasStatus taskId status world) (h' : HasStatus taskId status' world) : status = status' := by
  obtain ⟨task, hget, rfl⟩ := h
  obtain ⟨task', hget', rfl⟩ := h'
  rw [Option.some.inj (hget.symm.trans hget')]

theorem step_status_iff {world : TaskWorld} {taskId : JsString} {status : TaskStatus}
    (hend : isTerminalStatus status = true) (h : HasStatus taskId status world) (action : Action)
    (hreplaces : ¬ Replaces clock format taskId world action) :
    HasStatus taskId status (step clock format world action) ↔ Respects taskId world action := by
  obtain ⟨task, hget, rfl⟩ := h
  have hstep := step_status clock format hget hend action hreplaces
  constructor
  · intro hkept written task' hwrites hget' _
    obtain rfl := Option.some.inj (hget.symm.trans hget')
    rw [hwrites] at hstep
    exact hasStatus_unique hstep hkept
  · intro hrespects
    cases hwrites : action.writes world taskId with
    | none =>
      rw [hwrites] at hstep
      exact hstep
    | some written =>
      rw [hwrites, Option.getD_some, hrespects written task hwrites hget hend] at hstep
      exact hstep

/-- A task that has ended keeps its status in every state reached, as long as it is not removed,
if and only if no action writes it another one: no `setStatus` on it, no `runTask` started on it,
no executor of it that settles otherwise. -/
theorem terminal_stays_iff (earlier later : List Action) (taskId : JsString) (status : TaskStatus)
    (hend : isTerminalStatus status = true)
    (hstatus : HasStatus taskId status (after clock format earlier))
    (hreplaces : Serial.Meets (step clock format)
      (fun world action => ¬ Replaces clock format taskId world action)
      (after clock format earlier) later) :
    (∀ first second, later = first ++ second →
      HasStatus taskId status (after clock format (earlier ++ first))) ↔
    Serial.Meets (step clock format) (Respects taskId) (after clock format earlier) later := by
  have hiff := Serial.meets_iff_kept (step clock format) (C := Respects taskId)
    (HasStatus taskId status) hstatus
    (fun world action h hnot => step_status_iff clock format hend h action hnot) hreplaces
  rw [← hiff]
  have hsplit (first : List Action) : after clock format (earlier ++ first) =
      Serial.runAll (step clock format) (after clock format earlier) first :=
    Serial.runAll_append _ _ _ _
  simp only [hsplit]

/-- A task that completed is not stopped, and a message to it leaves it completed. -/
theorem completed_stays_completed :
    HasStatus (js "task_00000000_1") .completed
      (after countingClock wholeNumbers
        ([.operation (.create (js "go") none), .runTask (js "task_00000000_1"),
          .settle 0 (.ok ⟨true, js "done"⟩)] ++
        [.operation (.edit (js "task_00000000_1") .stop),
          .operation (.edit (js "task_00000000_1") (.update (js "more")))])) := by
  have hmap : ((after countingClock wholeNumbers [.operation (.create (js "go") none),
      .runTask (js "task_00000000_1"), .settle 0 (.ok ⟨true, js "done"⟩)]).registry.tasks.get
      (js "task_00000000_1")).map Task.status = some .completed := by decide +kernel
  obtain ⟨task, hget, hstatus⟩ := Option.map_eq_some_iff.mp hmap
  refine (terminal_stays_iff countingClock wholeNumbers _ _ _ .completed rfl ⟨task, hget, hstatus⟩
    ?_).mpr ?_ _ [] (List.append_nil _).symm
  · apply Serial.meets_of_mem
    intro action haction world hreplaces
    obtain rfl | ⟨⟨prompt, description, rfl⟩ | ⟨packet, rfl⟩, -⟩ := hreplaces
    · simp at haction
    · simp at haction
    · simp at haction
  · apply Serial.meets_of_mem
    intro action haction world status task' hwrites
    obtain rfl | rfl : action = .operation (.edit (js "task_00000000_1") .stop) ∨
        action = .operation (.edit (js "task_00000000_1") (.update (js "more"))) := by
      simpa using haction
    · cases hwrites
    · cases hwrites

/-- A task stopped while its executor runs ends as completed. -/
theorem stopped_task_completes :
    ¬ ∀ (clock : IdClock) (format : NumberFormat) (earlier later : List Action)
      (taskId : JsString) (status : TaskStatus), isTerminalStatus status = true →
      HasStatus taskId status (after clock format earlier) →
      Serial.Meets (step clock format)
        (fun world action => ¬ Replaces clock format taskId world action)
        (after clock format earlier) later →
      ∀ first second, later = first ++ second →
        HasStatus taskId status (after clock format (earlier ++ first)) := by
  intro h
  have hstopped : ((after countingClock wholeNumbers [.operation (.create (js "go") none),
      .runTask (js "task_00000000_1"),
      .operation (.edit (js "task_00000000_1") .stop)]).registry.tasks.get
      (js "task_00000000_1")).map Task.status = some .stopped := by decide +kernel
  have hcompleted : ((after countingClock wholeNumbers ([.operation (.create (js "go") none),
      .runTask (js "task_00000000_1"), .operation (.edit (js "task_00000000_1") .stop)] ++
      [.settle 0 (.ok ⟨true, js "done"⟩)])).registry.tasks.get
      (js "task_00000000_1")).map Task.status = some .completed := by decide +kernel
  obtain ⟨task, hget, hstatus⟩ := Option.map_eq_some_iff.mp hstopped
  obtain ⟨task', hget', hstatus'⟩ := h countingClock wholeNumbers _
    [.settle 0 (.ok ⟨true, js "done"⟩)] (js "task_00000000_1") .stopped rfl
    ⟨task, hget, hstatus⟩ (Serial.meets_of_mem _ (by
      intro action haction world hreplaces
      obtain rfl | ⟨⟨prompt, description, rfl⟩ | ⟨packet, rfl⟩, -⟩ := hreplaces
      · simp at haction
      · simp at haction
      · simp at haction)) _ [] (List.append_nil _).symm
  rw [hget', Option.map_some, hstatus'] at hcompleted
  cases hcompleted

end TaskWorld

end Solarcido.Tasks
