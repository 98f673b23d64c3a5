import Mathlib.Data.List.Perm.Subperm
import Solarcido.Js.JsonParse
import Solarcido.Js.Number
import Solarcido.Tasks.Pace

namespace Solarcido.Tasks

open Text Json Documents Doc ThrowingProgram TaskRegistry

/-- A task of a tasks file. -/
structure TaskSpec where
  prompt : JsString
  description : Option JsString

section files

/-- The list in a tasks file: the file's own, or that of its member `tasks`. -/
def tasksOf : Json → Option (List Json)
  | .arr items => some items
  | parsed =>
    match parsed.member (js "tasks") with
    | some (.arr items) => some items
    | _ => none

/-- What an item of the list asks for; a blank prompt asks for nothing. -/
def specOf : Json → Option TaskSpec
  | .str prompt => if (trim prompt).isEmpty then none else some ⟨trim prompt, none⟩
  | item =>
    match item.member (js "prompt") with
    | some (.str prompt) =>
      if (trim prompt).isEmpty then none
      else some ⟨trim prompt, Json.asString (item.member (js "description"))⟩
    | _ => none

def parseTasksFile (numbers : NumberTexts) (raw : JsString) : Except Thrown (List TaskSpec) :=
  match Json.parse numbers raw with
  | none => .error (.error (js "tasks file is not valid JSON"))
  | some parsed =>
    match tasksOf parsed with
    | none =>
      .error (.error
        (js "tasks file must be a JSON array or an object with a \"tasks\" array"))
    | some list =>
      let specs := list.filterMap specOf
      if specs.isEmpty then .error (.error (js "tasks file contains no tasks")) else .ok specs

/-- What a task of a tasks file can ask for. -/
def IsPrompt (prompt : JsString) : Prop := prompt ≠ [] ∧ trim prompt = prompt

/-- A task as an item of a tasks file. -/
def TaskSpec.toJson (spec : TaskSpec) : Json :=
  .obj ((js "prompt", .str spec.prompt) ::
    (spec.description.map fun description => (js "description", Json.str description)).toList)

/-- A tasks file with these tasks. -/
def tasksText (numbers : NumberTexts) (specs : List TaskSpec) : JsString :=
  stringify numbers.text (.arr (specs.map TaskSpec.toJson))

variable {spec : TaskSpec}

theorem isPrompt_trim {prompt : JsString} (h : (trim prompt).isEmpty = false) :
    IsPrompt (trim prompt) := by
  refine ⟨?_, trim_trim prompt⟩
  intro hnil
  rw [hnil] at h
  cases h

theorem specOf_prompt {item : Json} (h : specOf item = some spec) : IsPrompt spec.prompt := by
  have hof : ∀ {prompt : JsString} {description : Option JsString},
      (if (trim prompt).isEmpty then none else some ⟨trim prompt, description⟩) = some spec →
        IsPrompt spec.prompt := by
    intro prompt description hspec
    split_ifs at hspec with hempty
    cases hspec
    exact isPrompt_trim (Bool.not_eq_true _ ▸ hempty)
  unfold specOf at h
  split at h
  · exact hof h
  · split at h
    · exact hof h
    · cases h

theorem specOf_toJson (h : IsPrompt spec.prompt) : specOf spec.toJson = some spec := by
  obtain ⟨prompt, description⟩ := spec
  have hnot : (trim prompt).isEmpty = false := by
    rw [h.2, List.isEmpty_eq_false_iff]
    exact h.1
  cases description with
  | none =>
    change (if (trim prompt).isEmpty then none else some (TaskSpec.mk (trim prompt) none)) = _
    rw [hnot, h.2]
    rfl
  | some description =>
    change (if (trim prompt).isEmpty then none
      else some (TaskSpec.mk (trim prompt) (some description))) = _
    rw [hnot, h.2]
    rfl

theorem everywhere_toJson {P : List JsString → Prop} (hone : P [js "prompt"])
    (htwo : P [js "prompt", js "description"]) (spec : TaskSpec) :
    spec.toJson.data.Everywhere P := by
  obtain ⟨prompt, description⟩ := spec
  rw [TaskSpec.toJson, data_obj]
  cases description with
  | none => exact .obj _ hone (List.forall_mem_singleton.mpr (.text prompt))
  | some description =>
    apply Everywhere.obj _ htwo
    exact List.forall_mem_cons.mpr ⟨.text prompt, List.forall_mem_singleton.mpr (.text description)⟩

theorem allAtoms_toJson {P : Scalar → Prop} (spec : TaskSpec) : spec.toJson.data.AllAtoms P := by
  obtain ⟨prompt, description⟩ := spec
  rw [TaskSpec.toJson, data_obj]
  cases description with
  | none => exact .obj _ (List.forall_mem_singleton.mpr (.text prompt))
  | some description =>
    apply AllAtoms.obj _
    exact List.forall_mem_cons.mpr ⟨.text prompt, List.forall_mem_singleton.mpr (.text description)⟩

theorem everywhere_specs {P : List JsString → Prop} (hone : P [js "prompt"])
    (htwo : P [js "prompt", js "description"]) (specs : List TaskSpec) :
    (Json.arr (specs.map TaskSpec.toJson)).data.Everywhere P := by
  rw [data_arr, List.map_map]
  exact .arr _ (List.forall_mem_map.mpr fun spec _ => everywhere_toJson hone htwo spec)

theorem parse_tasksText (numbers : NumberTexts) (specs : List TaskSpec) :
    Json.parse numbers (tasksText numbers specs) = some (.arr (specs.map TaskSpec.toJson)) := by
  have hdata : IsData numbers (Json.arr (specs.map TaskSpec.toJson)).data := by
    refine ⟨everywhere_specs (by decide) (by decide) specs, ?_⟩
    rw [data_arr, List.map_map]
    exact .arr _ (List.forall_mem_map.mpr fun spec _ => allAtoms_toJson spec)
  have hparse : Json.parse numbers (tasksText numbers specs ++ []) =
      some (enumerate (.arr (specs.map TaskSpec.toJson))) :=
    parse_scans (scans_stringify hdata) hdata (by rintro u ⟨⟩)
  rwa [List.append_nil, enumerate_self hdata.keys
    (everywhere_specs (by decide) (by decide) specs)] at hparse

/-- Which lists of tasks a tasks file can hold, and that such a list comes back from a file it is
written to. -/
theorem parseTasksFile_iff (numbers : NumberTexts) (specs : List TaskSpec) :
    ((∃ raw, parseTasksFile numbers raw = .ok specs) ↔
      specs ≠ [] ∧ ∀ spec ∈ specs, IsPrompt spec.prompt) ∧
    ((∃ raw, parseTasksFile numbers raw = .ok specs) →
      parseTasksFile numbers (tasksText numbers specs) = .ok specs) := by
  have hread : ∀ raw, parseTasksFile numbers raw = .ok specs →
      specs ≠ [] ∧ ∀ spec ∈ specs, IsPrompt spec.prompt := by
    intro raw h
    rw [parseTasksFile] at h
    split at h
    · cases h
    · split at h
      · cases h
      · next items _ =>
        dsimp only at h
        split_ifs at h with hempty
        cases h
        refine ⟨by rwa [List.isEmpty_iff] at hempty, ?_⟩
        intro spec hmem
        obtain ⟨item, -, hitem⟩ := List.mem_filterMap.mp hmem
        exact specOf_prompt hitem
  have hwritten : specs ≠ [] ∧ (∀ spec ∈ specs, IsPrompt spec.prompt) →
      parseTasksFile numbers (tasksText numbers specs) = .ok specs := by
    rintro ⟨hne, hprompts⟩
    have hspecs : (specs.map TaskSpec.toJson).filterMap specOf = specs := by
      rw [List.filterMap_map]
      calc specs.filterMap (specOf ∘ TaskSpec.toJson) = specs.filterMap some :=
          List.filterMap_congr fun spec hmem => specOf_toJson (hprompts spec hmem)
        _ = specs := List.filterMap_some
    rw [parseTasksFile, parse_tasksText]
    simp only [tasksOf, hspecs, List.isEmpty_iff, hne, if_false]
  refine ⟨⟨?_, fun h => ⟨_, hwritten h⟩⟩, ?_⟩
  · rintro ⟨raw, h⟩
    exact hread raw h
  · rintro ⟨raw, h⟩
    exact hwritten (hread raw h)

end files

structure TeamTaskResult where
  prompt : JsString
  status : TaskStatus
  output : JsString

@[ext]
structure TeamReport where
  results : List TeamTaskResult
  completed : Nat
  failed : Nat

/-- The report of the tasks that `runPending` gives back. -/
def teamReport (tasks : List Task) : TeamReport :=
  let results := tasks.map fun task => ⟨task.prompt, task.status, task.output⟩
  { results := results
    completed := results.countP fun result => result.status = .completed
    failed := results.countP fun result => result.status = .failed }

/-- The clock of a registry that is given none, from a count of the ids of all registries on. -/
def makeDefaultClock (counter : Nat) (seconds : Nat → Nat) : IdClock where
  nextId n := .finite (counter + n + 1 : Nat)
  nowSecs n := .finite (seconds n)

section runs

variable (clock : IdClock) (format : NumberFormat)

/-- `TaskRunner.runPending`. -/
def runPending (limit : Option JsNumber) (registry : TaskRegistry) : Batch :=
  Batch.runBatch (Batch.concurrencyOf limit)
    ((list (some .created) registry).map Task.taskId) registry

def createTasks : List TaskSpec → RegistryProgram Unit
  | [] => pure ()
  | spec :: specs => do
    let _ ← create clock format spec.prompt spec.description
    createTasks specs

/-- `runTeam` up to its `await`. -/
def runTeam (tasks : List TaskSpec) (limit : Option JsNumber) : Batch :=
  runPending limit (finalState (createTasks clock format tasks TaskRegistry.new))

/-- What happens while a team runs. The registry is `runTeam`'s own, so that nothing else is done
to it. -/
inductive TeamEvent where
  | start
  | settle (run : Nat) (outcome : Outcome)
  | resume

def TeamEvent.inBatch : TeamEvent → BatchEvent
  | .start => .start
  | .settle run outcome => .settle run outcome
  | .resume => .resume

def teamStep (limit : Option JsNumber) (batch : Batch) (event : TeamEvent) : Batch :=
  Batch.step clock format (Batch.concurrencyOf limit) batch event.inBatch

/-- A call of `runTeam` after a sequence of events. -/
def teamAfter (tasks : List TaskSpec) (limit : Option JsNumber) (events : List TeamEvent) : Batch :=
  Serial.runAll (teamStep clock format limit) (runTeam clock format tasks limit) events

end runs

section registration

variable (counter : Nat) (seconds : Nat → Nat)

/-- The id of the task in a place of the list. -/
def teamTaskId (k : Nat) : JsString :=
  newTaskId (makeDefaultClock counter seconds) wholeNumbers ⟨.empty, k, k⟩

def teamTask (spec : TaskSpec) (k : Nat) : Task :=
  newTask (makeDefaultClock counter seconds) wholeNumbers spec.prompt spec.description none
    ⟨.empty, k, k⟩

/-- The tasks of a team from a place of the list on, as the registry holds them. -/
def teamEntries (tasks : List TaskSpec) (k : Nat) : List (JsString × Task) :=
  (tasks.zipIdx k).map fun item => (teamTaskId counter seconds item.2,
    teamTask counter seconds item.1 item.2)

def teamIds (tasks : List TaskSpec) : List JsString :=
  (List.range tasks.length).map (teamTaskId counter seconds)

theorem behind_last {α : Type} {a : α} {x y z w : List α} (hy : a ∉ y) (hw : a ∉ w)
    (h : x ++ a :: y = z ++ a :: w) : y = w := by
  rcases List.append_eq_append_iff.mp h with ⟨middle, -, hmiddle⟩ | ⟨middle, -, hmiddle⟩
  · cases middle with
    | nil => exact (List.cons.inj hmiddle).2
    | cons b middle =>
      rw [(List.cons.inj hmiddle).2] at hy
      exact absurd (List.mem_append_right _ List.mem_cons_self) hy
  · cases middle with
    | nil => exact (List.cons.inj hmiddle).2.symm
    | cons b middle =>
      rw [(List.cons.inj hmiddle).2] at hw
      exact absurd (List.mem_append_right _ List.mem_cons_self) hw

theorem teamTaskId_eq (k : Nat) : ∃ front,
    teamTaskId counter seconds k = front ++ 95 :: Number.decimal (counter + k + 1) := by
  have hdecimal : wholeNumbers.decimal ((makeDefaultClock counter seconds).nextId k) =
      Number.decimal (counter + k + 1) := by
    change Number.decimal ((counter + k + 1 : Nat) : ℚ).floor.toNat = _
    rw [← Int.cast_natCast, Rat.floor_intCast, Int.toNat_natCast]
  refine ⟨js "task_" ++
    padStart (wholeNumbers.hex ((makeDefaultClock counter seconds).nowSecs k)) 8, ?_⟩
  rw [teamTaskId, newTaskId, hdecimal, List.append_assoc]
  rfl

theorem teamTaskId_injective : Function.Injective (teamTaskId counter seconds) := by
  intro i j h
  obtain ⟨front, hi⟩ := teamTaskId_eq counter seconds i
  obtain ⟨front', hj⟩ := teamTaskId_eq counter seconds j
  rw [hi, hj] at h
  have hdecimal := behind_last (Number.not_mem_decimal (by decide) _)
    (Number.not_mem_decimal (by decide) _) h
  have := Number.decimal_injective hdecimal
  omega

theorem teamIds_nodup (tasks : List TaskSpec) : (teamIds counter seconds tasks).Nodup :=
  List.nodup_range.map (teamTaskId_injective counter seconds)

theorem teamIds_getElem? {tasks : List TaskSpec} {k : Nat} (h : k < tasks.length) :
    (teamIds counter seconds tasks)[k]? = some (teamTaskId counter seconds k) := by
  rw [teamIds, List.getElem?_map, List.getElem?_range h]
  rfl

/-- What the calls of `create` leave in the registry, in the order of the list. -/
theorem createTasks_entries (tasks : List TaskSpec) (registry : TaskRegistry)
    (hids : registry.ids = registry.readings)
    (hold : ∀ id ∈ registry.tasks.keys, ∃ j < registry.ids, teamTaskId counter seconds j = id) :
    (finalState (createTasks (makeDefaultClock counter seconds) wholeNumbers tasks
      registry)).tasks.entries =
        registry.tasks.entries ++ teamEntries counter seconds tasks registry.ids := by
  induction tasks generalizing registry with
  | nil => exact (List.append_nil _).symm
  | cons spec tasks ih =>
    obtain ⟨held, ids, readings⟩ := registry
    obtain rfl : ids = readings := hids
    have hnew : teamTaskId counter seconds ids ∉ held.entries.map Prod.fst := by
      intro hmem
      obtain ⟨j, hj, hsame⟩ := hold _ hmem
      rw [teamTaskId_injective counter seconds hsame] at hj
      exact Nat.lt_irrefl ids hj
    let first : TaskRegistry := ⟨held.set (teamTaskId counter seconds ids)
      (teamTask counter seconds spec ids), ids + 1, ids + 1⟩
    have hcreate : create (makeDefaultClock counter seconds) wholeNumbers spec.prompt
        spec.description ⟨held, ids, ids⟩ = .ok (teamTask counter seconds spec ids) first := rfl
    have hentries : first.tasks.entries = held.entries ++
        [(teamTaskId counter seconds ids, teamTask counter seconds spec ids)] :=
      InsertionMap.setEntries_of_notMem hnew _
    have hrest := ih first rfl (by
      intro id hmem
      rw [InsertionMap.keys, hentries, List.map_append, List.mem_append] at hmem
      rcases hmem with hmem | hmem
      · obtain ⟨j, hj, hsame⟩ := hold id hmem
        exact ⟨j, Nat.lt_succ_of_lt hj, hsame⟩
      · exact ⟨ids, Nat.lt_succ_self ids, (List.mem_singleton.mp hmem).symm⟩)
    rw [createTasks, bind_of_ok hcreate, hrest, hentries, List.append_assoc]
    rfl

def teamRegistry (tasks : List TaskSpec) : TaskRegistry :=
  finalState (createTasks (makeDefaultClock counter seconds) wholeNumbers tasks TaskRegistry.new)

theorem teamRegistry_entries (tasks : List TaskSpec) :
    (teamRegistry counter seconds tasks).tasks.entries = teamEntries counter seconds tasks 0 :=
  createTasks_entries counter seconds tasks TaskRegistry.new rfl (by rintro id ⟨⟩)

/-- All tasks of the list are pending. -/
theorem pending_ids (tasks : List TaskSpec) :
    (list (some .created) (teamRegistry counter seconds tasks)).map Task.taskId =
      teamIds counter seconds tasks := by
  rw [TaskRegistry.list, InsertionMap.values, teamRegistry_entries, teamEntries, List.map_map]
  rw [List.filter_eq_self.mpr, List.map_map]
  · calc (tasks.zipIdx.map fun item => teamTaskId counter seconds item.2) =
        (tasks.zipIdx.map Prod.snd).map (teamTaskId counter seconds) := by
          rw [List.map_map]
          rfl
      _ = teamIds counter seconds tasks := by
        rw [List.zipIdx_map_snd, ← List.range_eq_range']
        rfl
  · intro task hmem
    obtain ⟨item, -, rfl⟩ := List.mem_map.mp hmem
    rfl

theorem teamRegistry_get {tasks : List TaskSpec} {k : Nat} {spec : TaskSpec}
    (h : tasks[k]? = some spec) :
    (teamRegistry counter seconds tasks).tasks.get (teamTaskId counter seconds k) =
      some (teamTask counter seconds spec k) := by
  apply InsertionMap.get_of_mem
  rw [teamRegistry_entries]
  apply List.mem_map.mpr
  exact ⟨(spec, k), List.mem_zipIdx_iff_getElem?.mpr h, rfl⟩

end registration

/-- The text `runTask` appends for an outcome. -/
def Outcome.text : Outcome → JsString
  | .ok result => result.output
  | .error error => js "ERROR: " ++ error.messageOf

/-- A task with an output and a status written into it. -/
structure Written (task : Task) (output : JsString) (status : TaskStatus) (task' : Task) :
    Prop where
  prompt : task'.prompt = task.prompt
  output : task'.output = task.output ++ output
  status : task'.status = status

section calls

variable (clock : IdClock) {world : TaskWorld} {taskId : JsString} {task : Task}

theorem record_writes {registry : TaskRegistry} (h : registry.tasks.get taskId = some task)
    (output : JsString) (status : TaskStatus) :
    ∃ task' registry', record clock taskId output status registry = .ok () registry' ∧
      registry'.tasks.get taskId = some task' ∧ Written task output status task' := by
  obtain ⟨first, happend, hget⟩ := edit_ok clock h
    (rfl : TaskEdit.refusal taskId task (.appendOutput output) = none)
  obtain ⟨second, hset, hget'⟩ := edit_ok clock hget
    (rfl : TaskEdit.refusal taskId _ (.setStatus status) = none)
  refine ⟨_, second, ?_, hget', ⟨rfl, rfl, rfl⟩⟩
  rw [record, appendOutput, bind_of_ok happend, setStatus, bind_of_ok hset]
  rfl

theorem finishTask_writes {registry : TaskRegistry} (h : registry.tasks.get taskId = some task)
    (outcome : Outcome) :
    ∃ task' registry', finishTask clock taskId outcome registry = .ok task' registry' ∧
      registry'.tasks.get taskId = some task' ∧
      Written task outcome.text outcome.status task' := by
  obtain ⟨task', registry', hrecord, hget, hwritten⟩ :=
    record_writes clock h outcome.text outcome.status
  refine ⟨task', registry', ?_, hget, hwritten⟩
  have hcatch : tryCatch (recordResult clock taskId outcome) (recordError clock taskId) registry =
      .ok () registry' := by
    cases outcome with
    | ok result => exact tryCatch_of_ok hrecord (recordError clock taskId)
    | error error =>
      exact (tryCatch_of_error rfl (recordError clock taskId)).trans hrecord
  rw [finishTask, bind_of_ok hcatch]
  exact require_of_get hget

theorem startTask_writes {registry : TaskRegistry} (h : registry.tasks.get taskId = some task) :
    ∃ task' registry', startTask clock taskId registry = .ok task' registry' ∧
      registry'.tasks.get taskId = some task' ∧ Written task [] .running task' := by
  obtain ⟨registry', hset, hget⟩ := edit_ok clock h
    (rfl : TaskEdit.refusal taskId task (.setStatus .running) = none)
  refine ⟨_, registry', ?_, hget, ⟨rfl, (List.append_nil _).symm, rfl⟩⟩
  rw [startTask, setStatus, bind_of_ok hset]
  exact require_of_get hget

/-- A run that is started on a registered task. -/
theorem runTask_writes (h : world.registry.tasks.get taskId = some task) :
    ∃ task' registry', TaskWorld.runTask clock taskId world =
        ⟨registry', world.runs ++ [.waiting taskId task']⟩ ∧
      registry'.tasks.get taskId = some task' ∧ Written task [] .running task' ∧
      ∀ other, other ≠ taskId → registry'.tasks.get other = world.registry.tasks.get other := by
  obtain ⟨task', registry', hstart, hget, hwritten⟩ := startTask_writes clock h
  refine ⟨task', registry', ?_, hget, hwritten, ?_⟩
  · rw [TaskWorld.runTask, hstart]
  · intro other hother
    have hkeeps := (keeps_iff.mp (startTask_keeps clock hother)) world.registry
    rwa [hstart] at hkeeps

/-- A run that is settled on a registered task. -/
theorem settle_writes {run : Nat} {handed : Task}
    (hrun : world.runs[run]? = some (.waiting taskId handed))
    (h : world.registry.tasks.get taskId = some task) (outcome : Outcome) :
    ∃ task' registry', TaskWorld.settle clock run outcome world =
        ⟨registry', world.runs.set run (.returned task')⟩ ∧
      Written task outcome.text outcome.status task' ∧
      ∀ other, other ≠ taskId → registry'.tasks.get other = world.registry.tasks.get other := by
  obtain ⟨task', registry', hfinish, -, hwritten⟩ := finishTask_writes clock h outcome
  refine ⟨task', registry', ?_, hwritten, ?_⟩
  · simp only [TaskWorld.settle, hrun, hfinish]
  · intro other hother
    have hkeeps := (keeps_iff.mp (finishTask_keeps clock hother outcome)) world.registry
    rwa [hfinish] at hkeeps

end calls

/-- A task no executor has reported on. -/
structure Asked (spec : TaskSpec) (task : Task) : Prop where
  prompt : task.prompt = spec.prompt
  output : task.output = []

structure Answers (spec : TaskSpec) (outcome : Outcome) (task : Task) : Prop where
  prompt : task.prompt = spec.prompt
  status : task.status = outcome.status
  output : task.output = outcome.text

theorem Asked.started {spec : TaskSpec} {task task' : Task} (h : Asked spec task)
    (hwritten : Written task [] .running task') : Asked spec task' :=
  ⟨hwritten.prompt.trans h.prompt, by rw [hwritten.output, h.output, List.append_nil]⟩

theorem Asked.settled {spec : TaskSpec} {task task' : Task} {outcome : Outcome}
    (h : Asked spec task) (hwritten : Written task outcome.text outcome.status task') :
    Answers spec outcome task' where
  prompt := hwritten.prompt.trans h.prompt
  status := hwritten.status
  output := by rw [hwritten.output, h.output, List.nil_append]

/-- What holds at any time of a batch whose registry nobody else writes to: a task that has not
been answered is in the registry as it was asked for, and one that has been answered says what
its executor said, which was asked once. -/
structure IsTeam (tasks : List TaskSpec) (ids : List JsString) (batch : Batch) : Prop where
  accepted : batch.rejection = none
  held : ∀ (k : Nat) id spec, ids[k]? = some id → tasks[k]? = some spec →
    (∀ task, batch.world.runs[k]? ≠ some (TaskRun.returned task)) →
      ∃ task, batch.world.registry.tasks.get id = some task ∧ Asked spec task
  handed : ∀ (k : Nat) id task spec, batch.world.runs[k]? = some (TaskRun.waiting id task) →
    tasks[k]? = some spec → task.status = .running ∧ Asked spec task
  answered : ∀ (k : Nat) id task spec, ids[k]? = some id → tasks[k]? = some spec →
    batch.world.runs[k]? = some (TaskRun.returned task) →
      ∃ outcome, (id, outcome) ∈ batch.outcomes ∧ Answers spec outcome task
  once : (batch.outcomes.map Prod.fst).Nodup
  settled : ∀ id ∈ batch.outcomes.map Prod.fst,
    ∃ (k : Nat) (task : Task), ids[k]? = some id ∧
      batch.world.runs[k]? = some (TaskRun.returned task)

section teams

variable (clock : IdClock) {concurrency : JsNumber} {tasks : List TaskSpec} {ids : List JsString}
  {batch : Batch}

theorem getElem?_ne {k j : Nat} {id other : JsString} (hnodup : ids.Nodup)
    (hk : ids[k]? = some id) (hj : ids[j]? = some other) (h : j ≠ k) : other ≠ id := by
  rintro rfl
  obtain ⟨hlt, hget⟩ := List.getElem?_eq_some_iff.mp hk
  obtain ⟨hlt', hget'⟩ := List.getElem?_eq_some_iff.mp hj
  exact h (hnodup.getElem_inj_iff.mp (hget'.trans hget.symm))

theorem IsTeam.start (h : IsTeam tasks ids batch) (hsound : Batch.IsSound ids batch)
    (hnodup : ids.Nodup) (hlength : ids.length = tasks.length) :
    IsTeam tasks ids (Batch.start clock batch) := by
  cases hslice : batch.slice with
  | nil => rwa [Batch.start, hslice]
  | cons id slice =>
    obtain ⟨hid, -⟩ := hsound.next hslice
    have hlt : batch.world.runs.length < tasks.length := by
      rw [← hlength]
      exact (List.getElem?_eq_some_iff.mp hid).1
    obtain ⟨task, hget, hasked⟩ := h.held _ id _ hid (List.getElem?_eq_getElem hlt) (by
      intro task hreturned
      rw [List.getElem?_eq_none (Nat.le_refl _)] at hreturned
      cases hreturned)
    obtain ⟨task', registry', hrun, hget', hwritten, hothers⟩ := runTask_writes clock hget
    have haccepted : (Batch.start clock batch).rejection = none := by
      rw [Batch.rejection_start]
      refine ⟨h.accepted, ?_⟩
      intro taskId hhead
      rw [hslice] at hhead
      cases hhead
      exact Option.ne_none_iff_exists'.mpr ⟨task, hget⟩
    have hworld : (Batch.start clock batch).world =
        ⟨registry', batch.world.runs ++ [.waiting id task']⟩ := by
      rw [Batch.start, hslice]
      exact hrun
    have houtcomes : (Batch.start clock batch).outcomes = batch.outcomes := by
      rw [Batch.start, hslice]
    constructor
    · exact haccepted
    · intro k other spec hk hspec hopen
      rw [hworld] at hopen ⊢
      by_cases hlast : k = batch.world.runs.length
      · subst hlast
        rw [hid] at hk
        cases hk
        rw [List.getElem?_eq_getElem hlt] at hspec
        cases hspec
        exact ⟨task', hget', hasked.started hwritten⟩
      · dsimp only
        rw [hothers other (getElem?_ne hnodup hid hk hlast)]
        apply h.held k other spec hk hspec
        intro returned hreturned
        apply hopen returned
        rw [List.getElem?_append_left (List.getElem?_eq_some_iff.mp hreturned).1, hreturned]
    · intro k other given spec hk hspec
      rw [hworld] at hk
      rcases Batch.get_concat hk with hk | ⟨rfl, hlast⟩
      · exact h.handed k other given spec hk hspec
      · cases hlast
        rw [List.getElem?_eq_getElem hlt] at hspec
        cases hspec
        exact ⟨hwritten.status, hasked.started hwritten⟩
    · intro k other given spec hk hspec hreturned
      rw [hworld] at hreturned
      rw [houtcomes]
      rcases Batch.get_concat hreturned with hreturned | ⟨-, hlast⟩
      · exact h.answered k other given spec hk hspec hreturned
      · cases hlast
    · rw [houtcomes]
      exact h.once
    · intro other hmem
      rw [houtcomes] at hmem
      obtain ⟨k, given, hk, hreturned⟩ := h.settled other hmem
      refine ⟨k, given, hk, ?_⟩
      rw [hworld, List.getElem?_append_left (List.getElem?_eq_some_iff.mp hreturned).1, hreturned]

theorem IsTeam.settle (h : IsTeam tasks ids batch) (hsound : Batch.IsSound ids batch)
    (hnodup : ids.Nodup) (hlength : ids.length = tasks.length) (run : Nat) (outcome : Outcome) :
    IsTeam tasks ids (Batch.settle clock run outcome batch) := by
  cases hrun : batch.world.runs[run]? with
  | none => rwa [Batch.settle, hrun]
  | some before =>
    cases before with
    | returned task => rwa [Batch.settle, hrun]
    | threw e => rwa [Batch.settle, hrun]
    | waiting id given =>
      have hid := hsound.waiting run id given hrun
      have hlt : run < tasks.length := by
        rw [← hlength]
        exact (List.getElem?_eq_some_iff.mp hid).1
      have hplace : run < batch.world.runs.length := (List.getElem?_eq_some_iff.mp hrun).1
      obtain ⟨task, hget, hasked⟩ := h.held run id _ hid (List.getElem?_eq_getElem hlt) (by
        intro task hreturned
        rw [hrun] at hreturned
        cases hreturned)
      obtain ⟨task', registry', hsettle, hwritten, hothers⟩ :=
        settle_writes clock hrun hget outcome
      have haccepted : (Batch.settle clock run outcome batch).rejection = none := by
        rw [Batch.rejection_settle]
        refine ⟨h.accepted, ?_⟩
        intro taskId waiting hwaiting
        rw [hrun] at hwaiting
        cases hwaiting
        exact Option.ne_none_iff_exists'.mpr ⟨task, hget⟩
      have hworld : (Batch.settle clock run outcome batch).world =
          ⟨registry', batch.world.runs.set run (.returned task')⟩ := by
        rw [Batch.settle, hrun]
        exact hsettle
      have houtcomes : (Batch.settle clock run outcome batch).outcomes =
          batch.outcomes ++ [(id, outcome)] := by
        rw [Batch.settle, hrun]
      -- a run that has returned is another one
      have hkept : ∀ (k : Nat) result, batch.world.runs[k]? = some (TaskRun.returned result) →
          (batch.world.runs.set run (.returned task'))[k]? = some (.returned result) := by
        intro k result hreturned
        rwa [List.getElem?_set_ne]
        rintro rfl
        rw [hrun] at hreturned
        cases hreturned
      constructor
      · exact haccepted
      · intro k other spec hk hspec hopen
        rw [hworld] at hopen ⊢
        have hne : k ≠ run := by
          rintro rfl
          exact hopen task' (List.getElem?_set_self hplace)
        dsimp only
        rw [hothers other (getElem?_ne hnodup hid hk hne)]
        exact h.held k other spec hk hspec fun result hreturned =>
          hopen result (hkept k result hreturned)
      · intro k other waiting spec hk hspec
        rw [hworld] at hk
        rcases Batch.get_set hplace hk with ⟨-, hreturned⟩ | hk
        · cases hreturned
        · exact h.handed k other waiting spec hk hspec
      · intro k other result spec hk hspec hreturned
        rw [hworld] at hreturned
        rw [houtcomes]
        rcases Batch.get_set hplace hreturned with ⟨rfl, hresult⟩ | hreturned
        · cases hresult
          rw [hid] at hk
          cases hk
          rw [List.getElem?_eq_getElem hlt] at hspec
          cases hspec
          exact ⟨outcome, List.mem_concat_self, hasked.settled hwritten⟩
        · obtain ⟨answer, hmem, hanswers⟩ := h.answered k other result spec hk hspec hreturned
          exact ⟨answer, List.mem_append_left _ hmem, hanswers⟩
      · rw [houtcomes, List.map_append, List.map_singleton, List.nodup_append]
        refine ⟨h.once, List.nodup_singleton _, ?_⟩
        rintro other hmem _ hlast rfl
        rw [List.mem_singleton.mp hlast] at hmem
        obtain ⟨k, result, hk, hreturned⟩ := h.settled id hmem
        by_cases hsame : k = run
        · rw [hsame, hrun] at hreturned
          cases hreturned
        · exact getElem?_ne hnodup hid hk hsame rfl
      · intro other hmem
        rw [houtcomes, List.map_append, List.mem_append] at hmem
        rw [hworld]
        rcases hmem with hmem | hmem
        · obtain ⟨k, result, hk, hreturned⟩ := h.settled other hmem
          exact ⟨k, result, hk, hkept k result hreturned⟩
        · rw [List.mem_singleton.mp hmem]
          exact ⟨run, task', hid, List.getElem?_set_self hplace⟩

end teams

section reports

variable (counter : Nat) (seconds : Nat → Nat) {tasks : List TaskSpec} {limit : Option JsNumber}

/-- A batch that is run for a team. -/
structure TeamRun (tasks : List TaskSpec) (ids : List JsString) (batch : Batch) : Prop where
  sound : Batch.IsSound ids batch
  busy : Batch.Busy batch
  team : IsTeam tasks ids batch

theorem IsTeam.of_same {ids : List JsString} {batch batch' : Batch} (h : IsTeam tasks ids batch)
    (hrejection : batch'.rejection = batch.rejection) (hworld : batch'.world = batch.world)
    (houtcomes : batch'.outcomes = batch.outcomes) : IsTeam tasks ids batch' := by
  constructor
  · exact hrejection.trans h.accepted
  · rw [hworld]
    exact h.held
  · rw [hworld]
    exact h.handed
  · rw [hworld, houtcomes]
    exact h.answered
  · rw [houtcomes]
    exact h.once
  · rw [hworld, houtcomes]
    exact h.settled

theorem TeamRun.step {ids : List JsString} {batch : Batch} (clock : IdClock)
    (format : NumberFormat) (hc : Batch.TakesSome (Batch.concurrencyOf limit))
    (hnodup : ids.Nodup) (hlength : ids.length = tasks.length) (h : TeamRun tasks ids batch)
    (event : TeamEvent) : TeamRun tasks ids (teamStep clock format limit batch event) := by
  refine ⟨Batch.isSound_step format hc.ne_nan h.sound event.inBatch,
    Batch.busy_step format hc h.sound h.busy event.inBatch, ?_⟩
  cases event with
  | start => exact h.team.start clock h.sound hnodup hlength
  | settle run outcome => exact h.team.settle clock h.sound hnodup hlength run outcome
  | resume =>
    obtain ⟨hworld, houtcomes⟩ := Batch.resume_keeps batch
    exact h.team.of_same (Batch.rejection_resume batch) hworld houtcomes

theorem runTeam_eq (tasks : List TaskSpec) (limit : Option JsNumber) :
    runTeam (makeDefaultClock counter seconds) wholeNumbers tasks limit =
      Batch.runBatch (Batch.concurrencyOf limit) (teamIds counter seconds tasks)
        (teamRegistry counter seconds tasks) := by
  rw [← pending_ids]
  rfl

theorem teamIds_length (tasks : List TaskSpec) :
    (teamIds counter seconds tasks).length = tasks.length := by
  rw [teamIds, List.length_map, List.length_range]

theorem teamRun_start (hc : Batch.TakesSome (Batch.concurrencyOf limit)) :
    TeamRun tasks (teamIds counter seconds tasks)
      (runTeam (makeDefaultClock counter seconds) wholeNumbers tasks limit) := by
  rw [runTeam_eq]
  refine ⟨Batch.isSound_runBatch _ hc.ne_nan _, Batch.busy_advance hc _, ?_⟩
  have hworld : (Batch.runBatch (Batch.concurrencyOf limit) (teamIds counter seconds tasks)
      (teamRegistry counter seconds tasks)).world =
        ⟨teamRegistry counter seconds tasks, []⟩ := Batch.advance_world _
  have houtcomes : (Batch.runBatch (Batch.concurrencyOf limit) (teamIds counter seconds tasks)
      (teamRegistry counter seconds tasks)).outcomes = [] := Batch.advance_outcomes _
  constructor
  · exact Batch.rejection_advance _
  · intro k id spec hid hspec _
    rw [hworld]
    have hlt := (List.getElem?_eq_some_iff.mp hspec).1
    rw [teamIds_getElem? counter seconds hlt] at hid
    cases hid
    exact ⟨_, teamRegistry_get counter seconds hspec, rfl, rfl⟩
  · intro k id task spec hk
    rw [hworld] at hk
    cases hk
  · intro k id task spec _ _ hk
    rw [hworld] at hk
    cases hk
  · rw [houtcomes]
    exact List.nodup_nil
  · rw [houtcomes]
    rintro id ⟨⟩

theorem teamRun_after (hlimit : limit ≠ some .nan) (events : List TeamEvent) :
    TeamRun tasks (teamIds counter seconds tasks)
      (teamAfter (makeDefaultClock counter seconds) wholeNumbers tasks limit events) := by
  have hc := takesSome_concurrencyOf hlimit
  apply Serial.runAll_invariant
  · exact teamRun_start counter seconds hc
  · intro batch event h
    exact h.step _ _ hc (teamIds_nodup counter seconds tasks)
      (teamIds_length counter seconds tasks) event

/-- Each executor at work was called with its own task of the list, set running. -/
theorem executors_handed (hlimit : limit ≠ some .nan) (events : List TeamEvent) {k : Nat}
    {id : JsString} {task : Task}
    (h : (teamAfter (makeDefaultClock counter seconds) wholeNumbers tasks limit
      events).world.runs[k]? = some (.waiting id task)) :
    (teamIds counter seconds tasks)[k]? = some id ∧
      ∃ spec, tasks[k]? = some spec ∧ task.status = .running ∧ Asked spec task := by
  have hrun : TeamRun tasks (teamIds counter seconds tasks) _ :=
    teamRun_after counter seconds hlimit events
  have hid := hrun.sound.waiting k id task h
  refine ⟨hid, ?_⟩
  have hlt := (List.getElem?_eq_some_iff.mp hid).1
  rw [teamIds_length] at hlt
  have hspec := List.getElem?_eq_getElem hlt
  exact ⟨_, hspec, hrun.team.handed k id task _ h hspec⟩

/-- The line of a task whose executor has settled. -/
def teamLine (spec : TaskSpec) (outcome : Outcome) : TeamTaskResult :=
  ⟨spec.prompt, outcome.status, outcome.text⟩

/-- The report of a team whose executors settle so, one for each task of the list. -/
def reportOf (tasks : List TaskSpec) (outcomes : List Outcome) : TeamReport where
  results := (tasks.zip outcomes).map fun item => teamLine item.1 item.2
  completed := outcomes.countP fun outcome => outcome.status = .completed
  failed := outcomes.countP fun outcome => outcome.status = .failed

theorem reportOf_counts (tasks : List TaskSpec) (outcomes : List Outcome) :
    (reportOf tasks outcomes).completed + (reportOf tasks outcomes).failed = outcomes.length := by
  have hfailed : (reportOf tasks outcomes).failed =
      outcomes.countP fun outcome => ¬ decide (outcome.status = .completed) = true := by
    apply List.countP_congr
    intro outcome _
    cases outcome with
    | ok result => cases hok : result.ok <;> simp [Outcome.status, hok]
    | error error => simp [Outcome.status]
  rw [hfailed]
  exact (List.length_eq_countP_add_countP _).symm

theorem teamReport_eq {outcomes : List Outcome} {results : List Task}
    (hlength : outcomes.length = tasks.length)
    (h : (teamReport results).results = (reportOf tasks outcomes).results) :
    teamReport results = reportOf tasks outcomes := by
  have hcount : ∀ status, (teamReport results).results.countP (fun r => r.status = status) =
      outcomes.countP fun outcome => outcome.status = status := by
    intro status
    calc (teamReport results).results.countP (fun r => r.status = status) =
        (tasks.zip outcomes).countP fun item => item.2.status = status := by
          rw [h, reportOf, List.countP_map]
          rfl
      _ = ((tasks.zip outcomes).map Prod.snd).countP fun outcome => outcome.status = status := by
          rw [List.countP_map]
          rfl
      _ = outcomes.countP fun outcome => outcome.status = status := by
          rw [List.map_snd_zip (le_of_eq hlength)]
  ext1
  · exact h
  · exact hcount .completed
  · exact hcount .failed

/-- What comes of a team, whatever the order in which its executors settle. -/
structure Reported (tasks : List TaskSpec) (ids : List JsString) (batch : Batch)
    (results : List Task) (outcomes : List Outcome) : Prop where
  returned : batch.returned = some (.ok results)
  called : batch.executed = ids
  answered : batch.outcomes.Perm (ids.zip outcomes)
  length : outcomes.length = tasks.length
  report : teamReport results = reportOf tasks outcomes

/-- Each executor has settled once, where each has. -/
theorem IsTeam.perm_zip {ids : List JsString} {batch : Batch} (h : IsTeam tasks ids batch)
    (hnodup : ids.Nodup) {outcomes : List Outcome} (hlength : outcomes.length = ids.length)
    (hall : ∀ (k : Nat) id outcome, ids[k]? = some id → outcomes[k]? = some outcome →
      (id, outcome) ∈ batch.outcomes) : batch.outcomes.Perm (ids.zip outcomes) := by
  have hkeys : (ids.zip outcomes).map Prod.fst = ids := List.map_fst_zip (le_of_eq hlength.symm)
  have hsub : ids.zip outcomes ⊆ batch.outcomes := by
    intro pair hmem
    obtain ⟨k, hk⟩ := List.mem_iff_getElem?.mp hmem
    rw [List.getElem?_zip_eq_some] at hk
    exact hall k pair.1 pair.2 hk.1 hk.2
  have hshort : batch.outcomes.length ≤ (ids.zip outcomes).length := by
    have hids : batch.outcomes.map Prod.fst ⊆ ids := by
      intro id hmem
      obtain ⟨k, task, hid, -⟩ := h.settled id hmem
      exact List.mem_of_getElem? hid
    have hle := (h.once.subperm hids).length_le
    rwa [← hkeys, List.length_map, List.length_map] at hle
  have hzip : (ids.zip outcomes).Nodup := by
    apply List.Nodup.of_map Prod.fst
    rwa [hkeys]
  exact ((hzip.subperm hsub).perm_of_length_le hshort).symm

/-- A batch that has come to its end has a result for each id. -/
theorem TeamRun.results {ids : List JsString} {batch : Batch} {clock : IdClock}
    (h : TeamRun tasks ids batch) (hc : Batch.TakesSome (Batch.concurrencyOf limit))
    (hfinished : Batch.Finished clock (Batch.concurrencyOf limit) batch) :
    batch.returned = some (.ok batch.results) ∧
      batch.world.runs = batch.results.map TaskRun.returned ∧
        batch.results.length = ids.length := by
  have hended : batch.returned = some (.ok batch.results) := by
    have hsome := hfinished.returned hc h.sound
    cases hreturned : batch.returned with
    | none =>
      rw [hreturned] at hsome
      cases hsome
    | some answer =>
      cases answer with
      | ok results => rw [(h.sound.ended results hreturned).1]
      | error e =>
        have hfailed := h.sound.failed e hreturned
        rw [h.team.accepted] at hfailed
        cases hfailed
  obtain ⟨-, hslice, hremaining, hall, -⟩ := h.sound.ended batch.results hended
  have hruns : batch.world.runs = batch.results.map TaskRun.returned := by
    rw [← h.sound.pushed, hall, List.take_length]
  refine ⟨hended, hruns, ?_⟩
  have hlong : ids.length ≤ batch.world.runs.length := by
    have hsplit := h.sound.split
    rwa [hslice, hremaining, List.append_nil, List.drop_eq_nil_iff] at hsplit
  have hshort : batch.results.length ≤ ids.length := by
    by_contra hnot
    obtain ⟨_, _, hid, -⟩ := h.sound.outcomes ids.length _ (by
      rw [hruns, List.getElem?_map, List.getElem?_eq_getElem (by omega)]
      rfl)
    rw [List.getElem?_eq_none (Nat.le_refl _)] at hid
    cases hid
  rw [hruns, List.length_map] at hlong
  omega

theorem TeamRun.reported {ids : List JsString} {batch : Batch} {clock : IdClock}
    (h : TeamRun tasks ids batch) (hc : Batch.TakesSome (Batch.concurrencyOf limit))
    (hnodup : ids.Nodup) (hlength : ids.length = tasks.length)
    (hfinished : Batch.Finished clock (Batch.concurrencyOf limit) batch) :
    ∃ outcomes, Reported tasks ids batch batch.results outcomes := by
  obtain ⟨hended, hruns, hresults⟩ := h.results hc hfinished
  have hanswer : ∀ k : Fin tasks.length, ∃ outcome,
      (ids.get (k.cast hlength.symm), outcome) ∈ batch.outcomes ∧
        Answers tasks[k] outcome
          (batch.results.get (k.cast (hlength.symm.trans hresults.symm))) := by
    intro k
    apply h.team.answered k.1
    · exact List.getElem?_eq_getElem _
    · exact List.getElem?_eq_getElem _
    · rw [hruns, List.getElem?_map, List.getElem?_eq_getElem (by omega)]
      rfl
  choose answer hmem hanswers using hanswer
  refine ⟨List.ofFn answer, hended, ?_, ?_, List.length_ofFn, ?_⟩
  · have hexecuted := h.sound.executed h.team.accepted
    rw [hexecuted, hruns, List.length_map, hresults, List.take_length]
  · exact h.team.perm_zip hnodup (List.length_ofFn.trans hlength.symm) (by
      intro k id outcome hid houtcome
      obtain ⟨hk, rfl⟩ := List.getElem?_eq_some_iff.mp hid
      obtain ⟨hk', rfl⟩ := List.getElem?_eq_some_iff.mp houtcome
      rw [List.getElem_ofFn]
      exact hmem ⟨k, _⟩)
  · apply teamReport_eq List.length_ofFn
    apply List.ext_getElem
    · simp [teamReport, reportOf, hresults, hlength]
    · intro k hk hk'
      have hlt : k < tasks.length := by simpa [reportOf] using hk'
      have hsaid := hanswers ⟨k, hlt⟩
      simp only [teamReport, reportOf, teamLine, List.getElem_map, List.getElem_zip,
        List.getElem_ofFn, TeamTaskResult.mk.injEq]
      exact ⟨hsaid.prompt, hsaid.status, hsaid.output⟩

/-- A team that has come to its end reports each task of its list with what its own executor
settled with, in the order of the list and not in that of the executors, each of which was
called once. -/
theorem team_reports (hlimit : limit ≠ some .nan) (events : List TeamEvent)
    (hfinished : Batch.Finished (makeDefaultClock counter seconds) (Batch.concurrencyOf limit)
      (teamAfter (makeDefaultClock counter seconds) wholeNumbers tasks limit events)) :
    ∃ results outcomes,
      Reported tasks (teamIds counter seconds tasks)
        (teamAfter (makeDefaultClock counter seconds) wholeNumbers tasks limit events)
        results outcomes ∧
      (teamReport results).completed + (teamReport results).failed = tasks.length := by
  obtain ⟨outcomes, hreported⟩ :=
    (teamRun_after counter seconds hlimit events).reported (takesSome_concurrencyOf hlimit)
      (teamIds_nodup counter seconds tasks) (teamIds_length counter seconds tasks) hfinished
  refine ⟨_, outcomes, hreported, ?_⟩
  rw [hreported.report, reportOf_counts, hreported.length]

end reports

section progress

variable {clock : IdClock} (format : NumberFormat) {limit : Option JsNumber}
  {tasks : List TaskSpec} {ids : List JsString} {batch : Batch}

/-- Behind a slice that is done, and not pushed. -/
theorem work_resume {concurrency : JsNumber} (h : TeamRun tasks ids batch)
    (hopen : batch.returned = none) (hslice : batch.slice = [])
    (hdone : ∀ (run : Nat) id task, batch.world.runs[run]? ≠ some (TaskRun.waiting id task)) :
    work ids (Batch.resume concurrency batch) < work ids batch := by
  have hbusy : batch.first < batch.world.runs.length := by
    rcases h.busy hopen with hstart | hpush
    · exact absurd hslice hstart
    · exact hpush
  cases hreturned : Batch.returnedTasks (batch.world.runs.drop batch.first) with
  | none =>
    obtain ⟨run, hmem, hrun⟩ := Batch.exists_of_returnedTasks_none hreturned
    have hmem := List.mem_of_mem_drop hmem
    cases run with
    | returned task => exact absurd rfl (hrun task)
    | threw e => exact absurd hmem (h.sound.thrown h.team.accepted e)
    | waiting id task =>
      obtain ⟨k, hk⟩ := List.mem_iff_getElem?.mp hmem
      exact absurd hk (hdone k id task)
  | some results =>
    have hresume : Batch.resume concurrency batch = Batch.advance concurrency
        { batch with results := batch.results ++ results,
                     first := batch.world.runs.length } := by
      rw [Batch.resume, hopen, hslice, h.team.accepted]
      simp only [hreturned]
      rfl
    rw [hresume, work, work, Batch.inFlight, Batch.advance_world, Batch.advance_first, hopen,
      Batch.inFlight]
    dsimp only
    split <;> simp only [Option.isSome_none, Bool.false_eq_true, if_false] <;> omega

variable (clock) (limit)

/-- A team that has not come to its end can go on, whatever its executors give. -/
theorem TeamRun.progress (h : TeamRun tasks ids batch) (answer : Nat → Outcome) :
    Batch.Finished clock (Batch.concurrencyOf limit) batch ∨
      ∃ event, (∀ run outcome, event = TeamEvent.settle run outcome → outcome = answer run) ∧
        work ids (teamStep clock format limit batch event) < work ids batch := by
  cases hslice : batch.slice with
  | cons id slice => exact Or.inr ⟨.start, by rintro _ _ ⟨⟩, work_start h.sound hslice⟩
  | nil =>
    by_cases hwaiting : ∃ (run : Nat) (id : JsString) (task : Task),
        batch.world.runs[run]? = some (TaskRun.waiting id task)
    · obtain ⟨run, id, task, hrun⟩ := hwaiting
      refine Or.inr ⟨.settle run (answer run), ?_, work_settle hrun (answer run)⟩
      rintro _ _ ⟨⟩
      rfl
    · have hdone : ∀ (run : Nat) id task,
          batch.world.runs[run]? ≠ some (TaskRun.waiting id task) := by
        intro run id task hrun
        exact hwaiting ⟨run, id, task, hrun⟩
      cases hreturned : batch.returned with
      | none => exact Or.inr ⟨.resume, by rintro _ _ ⟨⟩, work_resume h hreturned hslice hdone⟩
      | some answer =>
        left
        constructor
        · rw [Batch.start, hslice]
        · rw [Batch.resume, hreturned]
          rfl
        · exact hdone

variable {limit}

/-- From each state a team can come to its end, whatever its executors give: no order of them
leaves it waiting for ever. -/
theorem team_ends (counter : Nat) (seconds : Nat → Nat) (tasks : List TaskSpec)
    (hlimit : limit ≠ some .nan) (events : List TeamEvent) (answer : Nat → Outcome) :
    ∃ more, (∀ run outcome, TeamEvent.settle run outcome ∈ more → outcome = answer run) ∧
      Batch.Finished (makeDefaultClock counter seconds) (Batch.concurrencyOf limit)
        (teamAfter (makeDefaultClock counter seconds) wholeNumbers tasks limit
          (events ++ more)) := by
  generalize hleft : work (teamIds counter seconds tasks)
    (teamAfter (makeDefaultClock counter seconds) wholeNumbers tasks limit events) = left
  induction left using Nat.strong_induction_on generalizing events with
  | h left ih =>
    have hrun : TeamRun tasks (teamIds counter seconds tasks) _ :=
      teamRun_after counter seconds hlimit events
    rcases hrun.progress (makeDefaultClock counter seconds) wholeNumbers limit answer with
      hfinished | ⟨event, hanswer, hless⟩
    · refine ⟨[], by rintro _ _ ⟨⟩, ?_⟩
      rwa [List.append_nil]
    · obtain ⟨more, hmore, hfinished⟩ := ih _ (hleft ▸ hless) (events ++ [event])
        (congrArg _ (Serial.runAll_snoc _ _ events event))
      refine ⟨event :: more, ?_, ?_⟩
      · intro run outcome hmem
        rcases List.mem_cons.mp hmem with rfl | hmem
        · exact hanswer run outcome rfl
        · exact hmore run outcome hmem
      · rwa [List.append_assoc, List.singleton_append] at hfinished

end progress

section twoTasks

def twoTasks : List TaskSpec := [⟨js "first", none⟩, ⟨js "second", none⟩]

/-- The second task's executor settles before the first one's, which fails. -/
def secondFirst : List TeamEvent :=
  [.start, .start, .settle 1 (.ok ⟨true, js "done"⟩), .settle 0 (.error (.error (js "no"))),
    .resume]

def afterSecondFirst : Batch :=
  teamAfter (makeDefaultClock 0 fun _ => 0) wholeNumbers twoTasks (some (.finite 2)) secondFirst

theorem secondFirst_finished :
    Batch.Finished (makeDefaultClock 0 fun _ => 0) (Batch.concurrencyOf (some (.finite 2)))
      afterSecondFirst := by
  constructor
  · rfl
  · rfl
  · intro run id task h
    have hnone : (afterSecondFirst.world.runs.any Batch.isWaiting) = false := by decide +kernel
    have hsome : (afterSecondFirst.world.runs.any Batch.isWaiting) = true :=
      List.any_eq_true.mpr ⟨_, List.mem_of_getElem? h, rfl⟩
    rw [hnone] at hsome
    cases hsome

theorem second_task_reported :
    ∃ results outcomes,
      Reported twoTasks (teamIds 0 (fun _ => 0) twoTasks) afterSecondFirst results outcomes ∧
      (teamReport results).completed + (teamReport results).failed = twoTasks.length :=
  team_reports 0 (fun _ => 0) (by rintro ⟨⟩) secondFirst secondFirst_finished

theorem first_task_ends :
    ∃ more, (∀ run outcome, TeamEvent.settle run outcome ∈ more →
        outcome = .error (.error (js "no"))) ∧
      Batch.Finished (makeDefaultClock 0 fun _ => 0) (Batch.concurrencyOf none)
        (teamAfter (makeDefaultClock 0 fun _ => 0) wholeNumbers twoTasks none
          ([.start] ++ more)) :=
  team_ends 0 (fun _ => 0) twoTasks (by rintro ⟨⟩) [.start] fun _ => .error (.error (js "no"))

end twoTasks

end Solarcido.Tasks
