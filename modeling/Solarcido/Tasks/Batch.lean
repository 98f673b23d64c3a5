import Mathlib.Data.List.Forall2
import Mathlib.Data.List.Induction
import Mathlib.Data.List.Infix
import Solarcido.Tasks.Runner

namespace Solarcido.Tasks

open Text ThrowingProgram TaskRegistry

/-- What happens while a batch runs: an operation of the registry, the start of the next task of
the slice, an executor that settles, or `runBatch` going on behind its `await`. -/
inductive BatchEvent where
  | operation (op : TaskOperation)
  | start
  | settle (run : Nat) (outcome : Outcome)
  | resume

/-- A call of `runBatch`: the runs it started, the ids of its slice that are not started, the ids
behind the slice, and what it has pushed and given back. -/
structure Batch where
  world : TaskWorld
  slice : List JsString
  remaining : List JsString
  first : Nat
  results : List Task
  rejection : Option Thrown
  returned : Option (Except Thrown (List Task))
  executed : List JsString
  outcomes : List (JsString × Outcome)

namespace Batch

variable (clock : IdClock) (format : NumberFormat) (concurrency : JsNumber)

/-- `Math.max(1, Math.floor(options.concurrency ?? 1))`. -/
def concurrencyOf (limit : Option JsNumber) : JsNumber :=
  (JsNumber.ofInt 1).max (limit.getD (.ofInt 1)).floor

/-- `taskIds.slice(index, index + concurrency)`, and the ids from the next index on. -/
def nextSlice (ids : List JsString) : List JsString × List JsString :=
  match concurrency with
  | .nan => ([], [])
  | .infinite _ => (ids, [])
  | .finite q => ids.splitAt q.floor.toNat

/-- The head of the loop: the next slice, or the end. -/
def advance (batch : Batch) : Batch :=
  if batch.remaining.isEmpty then { batch with returned := some (.ok batch.results) }
  else
    let (slice, remaining) := nextSlice concurrency batch.remaining
    { batch with slice := slice, remaining := remaining }

def runBatch (taskIds : List JsString) (registry : TaskRegistry) : Batch :=
  advance concurrency
    { world := ⟨registry, []⟩
      slice := []
      remaining := taskIds
      first := 0
      results := []
      rejection := none
      returned := none
      executed := []
      outcomes := [] }

def errorOf : TaskRun → Option Thrown
  | .threw e => some e
  | _ => none

def thrownAt (world : TaskWorld) (run : Nat) : Option Thrown := world.runs[run]?.bind errorOf

/-- The call of `runTask` on the next id of the slice. -/
def start (batch : Batch) : Batch :=
  match batch.slice with
  | [] => batch
  | taskId :: slice =>
    let world := TaskWorld.runTask clock taskId batch.world
    let thrown := thrownAt world batch.world.runs.length
    { batch with
      world := world
      slice := slice
      rejection := batch.rejection.or thrown
      executed := if thrown.isSome then batch.executed else batch.executed ++ [taskId] }

def settle (run : Nat) (outcome : Outcome) (batch : Batch) : Batch :=
  match batch.world.runs[run]? with
  | some (.waiting taskId _) =>
    let world := TaskWorld.settle clock run outcome batch.world
    { batch with
      world := world
      rejection := batch.rejection.or (thrownAt world run)
      outcomes := batch.outcomes ++ [(taskId, outcome)] }
  | _ => batch

def returnedTasks : List TaskRun → Option (List Task)
  | [] => some []
  | .returned task :: runs => (returnedTasks runs).map (task :: ·)
  | _ :: _ => none

/-- `results.push(...(await Promise.all(...)))`: nothing comes of it while the slice goes on, and
the first error of the slice ends the call. -/
def resume (batch : Batch) : Batch :=
  if batch.returned.isSome || !batch.slice.isEmpty then batch
  else
    match batch.rejection with
    | some e => { batch with returned := some (.error e) }
    | none =>
      match returnedTasks (batch.world.runs.drop batch.first) with
      | some tasks =>
        advance concurrency
          { batch with results := batch.results ++ tasks, first := batch.world.runs.length }
      | none => batch

def step (batch : Batch) : BatchEvent → Batch
  | .operation op =>
    { batch with
      world := { batch.world with
        registry := finalState (perform clock format op batch.world.registry) } }
  | .start => start clock batch
  | .settle run outcome => settle clock run outcome batch
  | .resume => resume concurrency batch

section runs

theorem startTask_missing {registry : TaskRegistry} {taskId : JsString}
    (h : registry.tasks.get taskId = none) :
    ∃ e, startTask clock taskId registry = .error e registry :=
  ⟨_, by rw [startTask, setStatus, bind_of_error (edit_missing clock h _)]⟩

theorem record_missing {registry : TaskRegistry} {taskId : JsString}
    (h : registry.tasks.get taskId = none) (output : JsString) (status : TaskStatus) :
    ∃ e, record clock taskId output status registry = .error e registry :=
  ⟨_, by rw [record, appendOutput, bind_of_error (edit_missing clock h _)]⟩

/-- What the handler of `runTask` does for a task that is gone throws again. -/
theorem finishTask_missing {registry : TaskRegistry} {taskId : JsString}
    (h : registry.tasks.get taskId = none) (outcome : Outcome) :
    ∃ e, finishTask clock taskId outcome registry = .error e registry := by
  obtain ⟨e, he⟩ : ∃ e, recordResult clock taskId outcome registry = .error e registry := by
    cases outcome with
    | ok result => exact record_missing clock h _ _
    | error error => exact ⟨error, rfl⟩
  obtain ⟨e', he'⟩ := record_missing clock h (js "ERROR: " ++ e.messageOf) .failed
  have hcatch := (tryCatch_of_error he (recordError clock taskId)).trans he'
  exact ⟨e', by rw [finishTask, bind_of_error hcatch]⟩

/-- Started on a registered task a run waits for its executor, and otherwise it has thrown. -/
theorem runTask_runs (taskId : JsString) (world : TaskWorld) :
    ∃ run, (TaskWorld.runTask clock taskId world).runs = world.runs ++ [run] ∧
      ((world.registry.tasks.get taskId ≠ none ∧ ∃ task, run = .waiting taskId task) ∨
        (world.registry.tasks.get taskId = none ∧ ∃ e, run = .threw e)) := by
  rw [TaskWorld.runTask]
  cases hget : world.registry.tasks.get taskId with
  | none =>
    obtain ⟨e, he⟩ := startTask_missing clock hget
    rw [he]
    exact ⟨_, rfl, Or.inr ⟨rfl, e, rfl⟩⟩
  | some task =>
    obtain ⟨task', registry', hstart, -⟩ := startTask_ok clock hget
    rw [hstart]
    exact ⟨_, rfl, Or.inl ⟨Option.some_ne_none task, task', rfl⟩⟩

/-- Settled on a registered task a run returns it with the status of the outcome, and otherwise
it throws. -/
theorem settle_runs {world : TaskWorld} {run : Nat} {taskId : JsString} {task : Task}
    (h : world.runs[run]? = some (.waiting taskId task)) (outcome : Outcome) :
    ∃ settled, (TaskWorld.settle clock run outcome world).runs = world.runs.set run settled ∧
      ((world.registry.tasks.get taskId ≠ none ∧
          ∃ task, settled = .returned task ∧ task.status = outcome.status) ∨
        (world.registry.tasks.get taskId = none ∧ ∃ e, settled = .threw e)) := by
  simp only [TaskWorld.settle, h]
  cases hget : world.registry.tasks.get taskId with
  | none =>
    obtain ⟨e, he⟩ := finishTask_missing clock hget outcome
    rw [he]
    exact ⟨_, rfl, Or.inr ⟨rfl, e, rfl⟩⟩
  | some task =>
    obtain ⟨task', registry', hfinish, -, hstatus⟩ := finishTask_ok clock hget outcome
    rw [hfinish]
    exact ⟨_, rfl, Or.inl ⟨Option.some_ne_none task, task', rfl, hstatus⟩⟩

end runs

section invariant

variable (ids : List JsString)

/-- What holds of a call of `runBatch` at any time. -/
structure IsSound (batch : Batch) : Prop where
  split : ids.drop batch.world.runs.length = batch.slice ++ batch.remaining
  waiting : ∀ (run : Nat) taskId task, batch.world.runs[run]? = some (TaskRun.waiting taskId task) →
    ids[run]? = some taskId
  thrown : batch.rejection = none → ∀ e, TaskRun.threw e ∉ batch.world.runs
  first_le : batch.first ≤ batch.world.runs.length
  pushed : batch.world.runs.take batch.first = batch.results.map TaskRun.returned
  ended : ∀ results, batch.returned = some (.ok results) → results = batch.results ∧
    batch.slice = [] ∧ batch.remaining = [] ∧ batch.first = batch.world.runs.length ∧
      batch.rejection = none
  failed : ∀ e, batch.returned = some (.error e) → batch.rejection = some e
  executed : batch.rejection = none → batch.executed = ids.take batch.world.runs.length
  outcomes : ∀ (run : Nat) task, batch.world.runs[run]? = some (TaskRun.returned task) →
    ∃ taskId outcome, ids[run]? = some taskId ∧ (taskId, outcome) ∈ batch.outcomes ∧
      task.status = outcome.status

variable {ids} {clock} {batch : Batch}

theorem thrownAt_last {world : TaskWorld} {runs : List TaskRun} {run : TaskRun}
    (h : world.runs = runs ++ [run]) : thrownAt world runs.length = errorOf run := by
  rw [thrownAt, h, List.getElem?_concat_length]
  rfl

theorem thrownAt_set {world : TaskWorld} {runs : List TaskRun} {k : Nat} {run : TaskRun}
    (h : world.runs = runs.set k run) (hk : k < runs.length) :
    thrownAt world k = errorOf run := by
  rw [thrownAt, h, List.getElem?_set_self hk]
  rfl

theorem get_concat {runs : List TaskRun} {run other : TaskRun} {k : Nat}
    (h : (runs ++ [run])[k]? = some other) :
    runs[k]? = some other ∨ (k = runs.length ∧ other = run) := by
  rw [List.getElem?_append] at h
  split_ifs at h with hk
  · exact Or.inl h
  · have hzero : k - runs.length = 0 := by
      by_contra hne
      rw [List.getElem?_eq_none (by simp; omega)] at h
      cases h
    rw [hzero] at h
    exact Or.inr ⟨by omega, (Option.some.inj h).symm⟩

theorem get_set {runs : List TaskRun} {run other : TaskRun} {i k : Nat} (hi : i < runs.length)
    (h : (runs.set i run)[k]? = some other) :
    (k = i ∧ other = run) ∨ runs[k]? = some other := by
  by_cases hsame : i = k
  · subst hsame
    rw [List.getElem?_set_self hi] at h
    exact Or.inl ⟨rfl, (Option.some.inj h).symm⟩
  · rw [List.getElem?_set_ne hsame] at h
    exact Or.inr h

/-- The next run is that of the first id of the slice. -/
theorem IsSound.next (h : IsSound ids batch) {taskId : JsString} {slice : List JsString}
    (hslice : batch.slice = taskId :: slice) :
    ids[batch.world.runs.length]? = some taskId ∧
      ids.drop (batch.world.runs.length + 1) = slice ++ batch.remaining := by
  have hsplit : ids.drop batch.world.runs.length = taskId :: (slice ++ batch.remaining) := by
    rw [h.split, hslice, List.cons_append]
  constructor
  · rw [← List.head?_drop, hsplit, List.head?_cons]
  · rw [← List.drop_drop, hsplit]
    rfl

/-- The runs that were pushed have returned. -/
theorem IsSound.first_le_waiting (h : IsSound ids batch) {run : Nat} {taskId : JsString}
    {task : Task} (hrun : batch.world.runs[run]? = some (.waiting taskId task)) :
    batch.first ≤ run := by
  by_contra hnot
  have hget : (batch.world.runs.take batch.first)[run]? = some (.waiting taskId task) := by
    rw [List.getElem?_take_of_lt (by omega), hrun]
  rw [h.pushed, List.getElem?_map] at hget
  cases hresult : batch.results[run]? with
  | none =>
    rw [hresult] at hget
    cases hget
  | some result =>
    rw [hresult] at hget
    cases hget

theorem isSound_start (h : IsSound ids batch) : IsSound ids (start clock batch) := by
  rw [start]
  cases hslice : batch.slice with
  | nil => exact h
  | cons taskId slice =>
    obtain ⟨run, hruns, hrun⟩ := runTask_runs clock taskId batch.world
    have hlast := thrownAt_last hruns
    obtain ⟨hid, hrest⟩ := h.next hslice
    have hnotReturned : ∀ task, run ≠ .returned task := by
      rintro task rfl
      rcases hrun with ⟨-, _, hrun⟩ | ⟨-, _, hrun⟩ <;> cases hrun
    dsimp only
    rw [hlast]
    constructor <;> dsimp only
    · rw [hruns, List.length_append]
      exact hrest
    · intro k id task hk
      rw [hruns] at hk
      rcases get_concat hk with hk | ⟨rfl, rfl⟩
      · exact h.waiting k id task hk
      · rcases hrun with ⟨-, _, hrun⟩ | ⟨-, _, hrun⟩
        · cases hrun
          exact hid
        · cases hrun
    · intro hnone e hmem
      obtain ⟨hbefore, hthrown⟩ := Option.or_eq_none_iff.mp hnone
      rw [hruns] at hmem
      rcases List.mem_append.mp hmem with hmem | hmem
      · exact h.thrown hbefore e hmem
      · rw [← List.mem_singleton.mp hmem] at hthrown
        cases hthrown
    · rw [hruns, List.length_append]
      exact Nat.le_add_right_of_le h.first_le
    · rw [hruns, List.take_append_of_le_length h.first_le]
      exact h.pushed
    · intro results hreturned
      have hnil := (h.ended results hreturned).2.1
      rw [hslice] at hnil
      cases hnil
    · intro e hreturned
      rw [h.failed e hreturned]
      rfl
    · intro hnone
      obtain ⟨hbefore, hthrown⟩ := Option.or_eq_none_iff.mp hnone
      rw [hruns, hthrown, List.length_append, h.executed hbefore, List.length_singleton,
        List.take_add_one, hid]
      rfl
    · intro k task hk
      rw [hruns] at hk
      rcases get_concat hk with hk | ⟨rfl, hlast⟩
      · exact h.outcomes k task hk
      · exact absurd hlast.symm (hnotReturned task)

theorem isSound_settle (h : IsSound ids batch) (run : Nat) (outcome : Outcome) :
    IsSound ids (settle clock run outcome batch) := by
  rw [settle]
  cases hrun : batch.world.runs[run]? with
  | none => exact h
  | some before =>
    cases before with
    | returned task => exact h
    | threw e => exact h
    | waiting taskId task =>
      obtain ⟨settled, hruns, hsettled⟩ := settle_runs clock hrun outcome
      have hlt : run < batch.world.runs.length := (List.getElem?_eq_some_iff.mp hrun).1
      have hlast := thrownAt_set hruns hlt
      dsimp only
      rw [hlast]
      constructor <;> dsimp only
      · rw [hruns, List.length_set]
        exact h.split
      · intro k id task hk
        rw [hruns] at hk
        rcases get_set hlt hk with ⟨-, hwaiting⟩ | hk
        · rcases hsettled with ⟨-, _, hreturned, -⟩ | ⟨-, _, hthrew⟩
          · cases hwaiting.trans hreturned
          · cases hwaiting.trans hthrew
        · exact h.waiting k id task hk
      · intro hnone e hmem
        obtain ⟨hbefore, hthrown⟩ := Option.or_eq_none_iff.mp hnone
        rw [hruns] at hmem
        rcases List.mem_or_eq_of_mem_set hmem with hmem | rfl
        · exact h.thrown hbefore e hmem
        · cases hthrown
      · rw [hruns, List.length_set]
        exact h.first_le
      · rw [hruns, List.take_set_of_le (h.first_le_waiting hrun)]
        exact h.pushed
      · intro results hreturned
        have hall := (h.ended results hreturned).2.2.2.1
        have hfirst := h.first_le_waiting hrun
        omega
      · intro e hreturned
        rw [h.failed e hreturned]
        rfl
      · intro hnone
        rw [hruns, List.length_set]
        exact h.executed (Option.or_eq_none_iff.mp hnone).1
      · intro k result hk
        rw [hruns] at hk
        rcases get_set hlt hk with ⟨rfl, hresult⟩ | hk
        · refine ⟨taskId, outcome, h.waiting k taskId task hrun, List.mem_concat_self, ?_⟩
          rcases hsettled with ⟨-, task', hreturned, hstatus⟩ | ⟨-, e, hthrew⟩
          · cases hresult.trans hreturned
            exact hstatus
          · cases hresult.trans hthrew
        · obtain ⟨id, other, hid, hmem, hstatus⟩ := h.outcomes k result hk
          exact ⟨id, other, hid, List.mem_append_left _ hmem, hstatus⟩

theorem nextSlice_split {concurrency : JsNumber} (hc : concurrency ≠ .nan) (rest : List JsString) :
    (nextSlice concurrency rest).1 ++ (nextSlice concurrency rest).2 = rest := by
  cases concurrency with
  | nan => exact absurd rfl hc
  | infinite negative => exact List.append_nil rest
  | finite q =>
    rw [nextSlice, List.splitAt_eq]
    exact List.take_append_drop _ rest

theorem returnedTasks_eq {runs : List TaskRun} {tasks : List Task}
    (h : returnedTasks runs = some tasks) : runs = tasks.map .returned := by
  induction runs generalizing tasks with
  | nil =>
    cases h
    rfl
  | cons run runs ih =>
    cases run with
    | returned task =>
      rw [returnedTasks, Option.map_eq_some_iff] at h
      obtain ⟨rest, hrest, rfl⟩ := h
      rw [List.map_cons, ← ih hrest]
    | waiting taskId task => cases h
    | threw e => cases h

/-- Between two slices, when all that was started is pushed. -/
theorem isSound_advance (hc : concurrency ≠ .nan) (h : IsSound ids batch)
    (hslice : batch.slice = []) (hall : batch.first = batch.world.runs.length)
    (hnone : batch.rejection = none) : IsSound ids (advance concurrency batch) := by
  rw [advance]
  split_ifs with hempty
  · rw [List.isEmpty_iff] at hempty
    refine { h with ended := ?_, failed := ?_ } <;> dsimp only
    · rintro results ⟨⟩
      exact ⟨rfl, hslice, hempty, hall, hnone⟩
    · rintro e ⟨⟩
  · refine { h with split := ?_, ended := ?_ } <;> dsimp only
    · rw [h.split, hslice, nextSlice_split hc, List.nil_append]
    · intro results hreturned
      rw [(h.ended results hreturned).2.2.1] at hempty
      exact absurd rfl hempty

theorem isSound_runBatch (hc : concurrency ≠ .nan) (registry : TaskRegistry) :
    IsSound ids (runBatch concurrency ids registry) := by
  apply isSound_advance concurrency hc
  · constructor <;> dsimp only
    · rfl
    · rintro k taskId task ⟨⟩
    · rintro - e ⟨⟩
    · exact Nat.le_refl 0
    · rfl
    · rintro results ⟨⟩
    · rintro e ⟨⟩
    · rintro -
      rfl
    · rintro k task ⟨⟩
  · rfl
  · rfl
  · rfl

theorem isSound_resume (hc : concurrency ≠ .nan) (h : IsSound ids batch) :
    IsSound ids (resume concurrency batch) := by
  rw [resume]
  split_ifs with hclosed
  · exact h
  · rw [Bool.or_eq_true, not_or, Option.not_isSome_iff_eq_none, Bool.not_eq_true',
      Bool.not_eq_false, List.isEmpty_iff] at hclosed
    obtain ⟨hopen, hslice⟩ := hclosed
    split
    · next e hrejection =>
      refine { h with ended := ?_, failed := ?_ } <;> dsimp only
      · rintro results ⟨⟩
      · rintro e ⟨⟩
        exact hrejection
    · next hrejection =>
      split
      · next tasks htasks =>
        apply isSound_advance concurrency hc
        · refine { h with first_le := ?_, pushed := ?_, ended := ?_ } <;> dsimp only
          · exact Nat.le_refl _
          · rw [List.take_length, List.map_append, ← h.pushed, ← returnedTasks_eq htasks,
              List.take_append_drop]
          · intro results hreturned
            rw [hopen] at hreturned
            cases hreturned
        · exact hslice
        · rfl
        · exact hrejection
      · exact h

end invariant

section finished

/-- Nothing of a call of `runBatch` is left to do. -/
structure Finished (batch : Batch) : Prop where
  started : start clock batch = batch
  resumed : resume concurrency batch = batch
  settled : ∀ (run : Nat) taskId task,
    batch.world.runs[run]? ≠ some (TaskRun.waiting taskId task)

/-- A concurrency by which each slice takes something. -/
def TakesSome (concurrency : JsNumber) : Prop :=
  match concurrency with
  | .nan => False
  | .infinite _ => True
  | .finite q => 1 ≤ q.floor

variable {clock} {concurrency} {ids : List JsString} {batch : Batch}

theorem TakesSome.ne_nan (h : TakesSome concurrency) : concurrency ≠ .nan := by
  rintro rfl
  exact h

theorem nextSlice_ne_nil (h : TakesSome concurrency) {rest : List JsString} (hrest : rest ≠ []) :
    (nextSlice concurrency rest).1 ≠ [] := by
  cases concurrency with
  | nan => exact absurd h id
  | infinite negative => exact hrest
  | finite q =>
    have hq : 1 ≤ q.floor := h
    rw [nextSlice, List.splitAt_eq, ne_eq, List.take_eq_nil_iff, not_or]
    exact ⟨by omega, hrest⟩

theorem exists_of_returnedTasks_none {runs : List TaskRun} (h : returnedTasks runs = none) :
    ∃ run ∈ runs, ∀ task, run ≠ .returned task := by
  induction runs with
  | nil => cases h
  | cons run runs ih =>
    cases run with
    | returned task =>
      rw [returnedTasks, Option.map_eq_none_iff] at h
      obtain ⟨other, hmem, hother⟩ := ih h
      exact ⟨other, List.mem_cons_of_mem _ hmem, hother⟩
    | waiting taskId task => exact ⟨_, List.mem_cons_self, by rintro _ ⟨⟩⟩
    | threw e => exact ⟨_, List.mem_cons_self, by rintro _ ⟨⟩⟩

theorem Finished.slice_eq (h : Finished clock concurrency batch) : batch.slice = [] := by
  cases hslice : batch.slice with
  | nil => rfl
  | cons taskId slice =>
    have hsame := congrArg Batch.slice h.started
    rw [start, hslice] at hsame
    exact absurd hsame List.ne_cons_self

/-- The head of the loop starts a slice or ends the call. -/
theorem advance_moves (hc : TakesSome concurrency) (batch : Batch) :
    (advance concurrency batch).returned.isSome = true ∨
      (advance concurrency batch).slice ≠ [] := by
  rw [advance]
  split_ifs with hempty
  · exact Or.inl rfl
  · exact Or.inr (nextSlice_ne_nil hc (by rwa [List.isEmpty_iff] at hempty))

/-- A call that is finished has ended. -/
theorem Finished.returned (hc : TakesSome concurrency) (h : Finished clock concurrency batch)
    (hsound : IsSound ids batch) : batch.returned.isSome = true := by
  have hslice := h.slice_eq
  have hsame := h.resumed
  rw [resume, hslice] at hsame
  by_contra hopen
  rw [Bool.not_eq_true] at hopen
  simp only [hopen, List.isEmpty_nil, Bool.not_true, Bool.or_false, Bool.false_eq_true,
    if_false] at hsame
  split at hsame
  · next e hrejection =>
    rw [← hsame] at hopen
    cases hopen
  · next hrejection =>
    split at hsame
    · next tasks htasks =>
      rcases advance_moves hc
        { batch with slice := [], results := batch.results ++ tasks,
                     first := batch.world.runs.length } with hmoved | hmoved
      · rw [hsame, hopen] at hmoved
        cases hmoved
      · rw [hsame] at hmoved
        exact hmoved hslice
    · next hnone =>
      obtain ⟨run, hmem, hrun⟩ := exists_of_returnedTasks_none hnone
      have hmem := List.mem_of_mem_drop hmem
      cases run with
      | returned task => exact hrun task rfl
      | threw e => exact hsound.thrown hrejection e hmem
      | waiting taskId task =>
        obtain ⟨k, hk⟩ := List.mem_iff_getElem?.mp hmem
        exact h.settled k taskId task hk

end finished

section presence

/-- The event finds the task it writes to in the registry. -/
def Present (batch : Batch) : BatchEvent → Prop
  | .start => ∀ taskId ∈ batch.slice.head?, batch.world.registry.tasks.get taskId ≠ none
  | .settle run _ => ∀ taskId task,
      batch.world.runs[run]? = some (TaskRun.waiting taskId task) →
        batch.world.registry.tasks.get taskId ≠ none
  | _ => True

variable {clock} {format} {concurrency}

theorem rejection_start (batch : Batch) :
    (start clock batch).rejection = none ↔ batch.rejection = none ∧ Present batch .start := by
  rw [start, Present]
  cases hslice : batch.slice with
  | nil => simp
  | cons taskId slice =>
    obtain ⟨run, hruns, hrun⟩ := runTask_runs clock taskId batch.world
    dsimp only
    rw [thrownAt_last hruns, Option.or_eq_none_iff]
    apply and_congr_right'
    rcases hrun with ⟨hget, task, rfl⟩ | ⟨hget, e, rfl⟩
    · simpa [errorOf] using hget
    · simpa [errorOf] using hget

theorem rejection_settle (batch : Batch) (run : Nat) (outcome : Outcome) :
    (settle clock run outcome batch).rejection = none ↔
      batch.rejection = none ∧ Present batch (.settle run outcome) := by
  rw [settle, Present]
  cases hrun : batch.world.runs[run]? with
  | none => simp
  | some before =>
    cases before with
    | returned task => simp
    | threw e => simp
    | waiting taskId task =>
      obtain ⟨settled, hruns, hsettled⟩ := settle_runs clock hrun outcome
      have hlt : run < batch.world.runs.length := (List.getElem?_eq_some_iff.mp hrun).1
      dsimp only
      rw [thrownAt_set hruns hlt, Option.or_eq_none_iff]
      apply and_congr_right'
      rcases hsettled with ⟨hget, task', rfl, -⟩ | ⟨hget, e, rfl⟩
      · simpa [errorOf] using hget
      · simpa [errorOf] using hget

theorem rejection_advance (batch : Batch) :
    (advance concurrency batch).rejection = batch.rejection := by
  rw [advance]
  split_ifs <;> rfl

theorem rejection_resume (batch : Batch) :
    (resume concurrency batch).rejection = batch.rejection := by
  rw [resume]
  split_ifs
  · rfl
  · split
    · rfl
    · split
      · rw [rejection_advance]
      · rfl

theorem rejection_step (batch : Batch) (event : BatchEvent) :
    (step clock format concurrency batch event).rejection = none ↔
      batch.rejection = none ∧ Present batch event := by
  cases event with
  | operation op => simp [step, Present]
  | start => exact rejection_start batch
  | settle run outcome => exact rejection_settle batch run outcome
  | resume => simp [step, Present, rejection_resume]

/-- No run of the call throws exactly when each event finds its task. -/
theorem rejection_runAll (ids : List JsString) (registry : TaskRegistry)
    (events : List BatchEvent) :
    (Serial.runAll (step clock format concurrency) (runBatch concurrency ids registry)
        events).rejection = none ↔
      Serial.Meets (step clock format concurrency) Present (runBatch concurrency ids registry)
        events := by
  induction events using List.reverseRecOn with
  | nil =>
    rw [Serial.runAll_nil, runBatch, rejection_advance]
    exact iff_of_true rfl (Serial.meets_nil _)
  | append_singleton events event ih =>
    rw [Serial.runAll_snoc, rejection_step, ih, Serial.meets_snoc]

end presence

end Batch

section limits

/-- A limit of one at least. -/
def IsAtLeastOne : JsNumber → Prop
  | .nan => False
  | .infinite negative => negative = false
  | .finite q => 1 ≤ q

theorem takesSome_of_atLeastOne {limit : Option JsNumber} (h : ∀ n ∈ limit, IsAtLeastOne n) :
    Batch.TakesSome (Batch.concurrencyOf limit) := by
  have hnumber : ∀ n, IsAtLeastOne n → Batch.TakesSome ((JsNumber.ofInt 1).max n.floor) := by
    intro n hn
    cases n with
    | nan => exact hn
    | infinite negative =>
      cases negative with
      | true => cases hn
      | false => exact trivial
    | finite q =>
      have hq : 1 ≤ q.floor := Rat.le_floor_iff.mpr (by exact_mod_cast hn)
      have hnot : ¬ (q.floor : ℚ) < 1 := by exact_mod_cast not_lt.mpr hq
      have hmax : (JsNumber.ofInt 1).max (JsNumber.finite q).floor = .finite q.floor := by
        simp [JsNumber.max, JsNumber.floor, JsNumber.ofInt, JsNumber.gt, hnot]
      rw [hmax, Batch.TakesSome, Rat.floor_intCast]
      exact hq
  cases limit with
  | none => exact hnumber (.ofInt 1) (show IsAtLeastOne (.finite 1) from le_refl _)
  | some n => exact hnumber n (h n rfl)

end limits

/-- A call of `runBatch` on distinct ids that has come to its end. -/
structure BatchRun (clock : IdClock) (format : NumberFormat) where
  taskIds : List JsString
  distinct : taskIds.Nodup
  limit : Option JsNumber
  atLeastOne : ∀ n ∈ limit, IsAtLeastOne n
  registry : TaskRegistry
  events : List BatchEvent
  finished : Batch.Finished clock (Batch.concurrencyOf limit)
    (Serial.runAll (Batch.step clock format (Batch.concurrencyOf limit))
      (Batch.runBatch (Batch.concurrencyOf limit) taskIds registry) events)

namespace BatchRun

variable {clock : IdClock} {format : NumberFormat} (run : BatchRun clock format)

def initial : Batch := Batch.runBatch (Batch.concurrencyOf run.limit) run.taskIds run.registry

def step : Batch → BatchEvent → Batch := Batch.step clock format (Batch.concurrencyOf run.limit)

def after (events : List BatchEvent) : Batch := Serial.runAll run.step run.initial events

/-- The id is registered all the time. -/
def StaysRegistered (taskId : JsString) : Prop :=
  ∀ first rest, run.events = first ++ rest →
    (run.after first).world.registry.tasks.get taskId ≠ none

/-- The tasks stand for the outcomes of the executors, id by id. -/
def Reports (reported : List JsString) (results : List Task) : Prop :=
  List.Forall₂ (fun taskId task => ∃ outcome,
    (taskId, outcome) ∈ (run.after run.events).outcomes ∧ task.status = outcome.status)
    reported results

/-- Each listed task that stays registered runs once, and the call returns the outcomes, in the
order of the ids. -/
structure Isolates : Prop where
  once : ∀ taskId ∈ run.taskIds, run.StaysRegistered taskId →
    (run.after run.events).executed.count taskId = 1
  returned : ∃ reported results, (run.after run.events).returned = some (.ok results) ∧
    reported.Sublist run.taskIds ∧
    (∀ taskId ∈ run.taskIds, run.StaysRegistered taskId → taskId ∈ reported) ∧
    run.Reports reported results

theorem takesSome : Batch.TakesSome (Batch.concurrencyOf run.limit) :=
  takesSome_of_atLeastOne run.atLeastOne

theorem isSound (events : List BatchEvent) : Batch.IsSound run.taskIds (run.after events) := by
  have hc := run.takesSome.ne_nan
  refine Serial.runAll_invariant run.step run.initial (Batch.IsSound run.taskIds)
    (Batch.isSound_runBatch _ hc run.registry) ?_ events
  intro batch event h
  cases event with
  | operation op => exact { h with }
  | start => exact Batch.isSound_start h
  | settle k outcome => exact Batch.isSound_settle h k outcome
  | resume => exact Batch.isSound_resume _ hc h

/-- What a call gives back in which every event finds its task. -/
theorem isolates_of_present (h : Serial.Meets run.step Batch.Present run.initial run.events) :
    run.Isolates := by
  have hsound := run.isSound run.events
  have hnone : (run.after run.events).rejection = none := (Batch.rejection_runAll _ _ _).mpr h
  have hended : ∃ results, (run.after run.events).returned = some (.ok results) := by
    have hsome : (run.after run.events).returned.isSome = true :=
      run.finished.returned run.takesSome hsound
    cases hreturned : (run.after run.events).returned with
    | none =>
      rw [hreturned] at hsome
      cases hsome
    | some answer =>
      cases answer with
      | ok results => exact ⟨results, rfl⟩
      | error e =>
        rw [hsound.failed e hreturned] at hnone
        cases hnone
  obtain ⟨results, hreturned⟩ := hended
  obtain ⟨rfl, hslice, hremaining, hall, -⟩ := hsound.ended results hreturned
  -- all ids were started, and what they returned was pushed
  have hruns : (run.after run.events).world.runs =
      (run.after run.events).results.map TaskRun.returned := by
    rw [← hsound.pushed, hall, List.take_length]
  have hget : ∀ (k : Nat) (task : Task), (run.after run.events).results[k]? = some task →
      (run.after run.events).world.runs[k]? = some (TaskRun.returned task) := by
    intro k task hk
    rw [hruns, List.getElem?_map, hk]
    rfl
  have hlong : run.taskIds.length ≤ (run.after run.events).world.runs.length := by
    have hsplit := hsound.split
    rw [hslice, hremaining, List.append_nil, List.drop_eq_nil_iff] at hsplit
    exact hsplit
  have hexecuted : (run.after run.events).executed = run.taskIds := by
    rw [hsound.executed hnone, List.take_of_length_le hlong]
  have hlength : run.taskIds.length = (run.after run.events).results.length := by
    have hshort : (run.after run.events).results.length ≤ run.taskIds.length := by
      by_contra hnot
      obtain ⟨_, _, hid, -⟩ := hsound.outcomes run.taskIds.length _
        (hget _ _ (List.getElem?_eq_getElem (by omega)))
      rw [List.getElem?_eq_none (Nat.le_refl _)] at hid
      cases hid
    rw [hruns, List.length_map] at hlong
    omega
  constructor
  · intro taskId hmem _
    rw [hexecuted]
    exact List.count_eq_one_of_mem run.distinct hmem
  · refine ⟨run.taskIds, (run.after run.events).results, hreturned, List.Sublist.refl _,
      fun taskId hmem _ => hmem, ?_⟩
    refine List.forall₂_iff_get.mpr ⟨hlength, ?_⟩
    intro k hk hk'
    obtain ⟨taskId, outcome, hid, hmem, hstatus⟩ := hsound.outcomes k _
      (hget k _ (List.getElem?_eq_getElem hk'))
    rw [List.getElem?_eq_getElem hk] at hid
    rw [List.get_eq_getElem, List.get_eq_getElem, Option.some.inj hid]
    exact ⟨outcome, hmem, hstatus⟩

/-- Which calls isolate their tasks from one another. -/
theorem runBatch_isolates_iff : run.Isolates ↔
    Serial.Meets run.step Batch.Present run.initial run.events := by
  constructor
  · intro h
    obtain ⟨reported, results, hreturned, -⟩ := h.returned
    have hnone := ((run.isSound run.events).ended results hreturned).2.2.2.2
    exact (Batch.rejection_runAll _ _ _).mp hnone
  · exact run.isolates_of_present

end BatchRun

section missing

/-- One task is listed behind an id that is not registered. -/
def missingFirst : BatchRun countingClock wholeNumbers where
  taskIds := [js "gone", js "task_00000000_1"]
  distinct := by decide +kernel
  limit := none
  atLeastOne := by rintro n ⟨⟩
  registry := (TaskWorld.after countingClock wholeNumbers
    [.operation (.create (js "go") none)]).registry
  events := [.start, .resume]
  finished := by
    constructor
    · rfl
    · rfl
    · intro run taskId task h
      have hnone : ((Serial.runAll
          (Batch.step countingClock wholeNumbers (Batch.concurrencyOf none))
          (Batch.runBatch (Batch.concurrencyOf none) [js "gone", js "task_00000000_1"]
            (TaskWorld.after countingClock wholeNumbers
              [.operation (.create (js "go") none)]).registry)
          [.start, .resume]).world.runs.all fun run => (Batch.errorOf run).isSome) = true := by
        decide +kernel
      have hrun := List.all_eq_true.mp hnone _ (List.mem_of_getElem? h)
      cases hrun

/-- The task behind the missing one is not run. -/
theorem missing_task_ends_batch :
    missingFirst.StaysRegistered (js "task_00000000_1") ∧ ¬ missingFirst.Isolates := by
  have hstays : missingFirst.StaysRegistered (js "task_00000000_1") := by
    intro first rest hsplit
    have hall : (missingFirst.events.inits.all fun first =>
        ((missingFirst.after first).world.registry.tasks.get
          (js "task_00000000_1")).isSome) = true := by decide +kernel
    have hsome := List.all_eq_true.mp hall first ((List.mem_inits _ _).mpr ⟨rest, hsplit.symm⟩)
    exact Option.ne_none_iff_isSome.mpr hsome
  refine ⟨hstays, ?_⟩
  intro h
  exact absurd (h.once _ (by decide +kernel) hstays) (by decide +kernel)

end missing

end Solarcido.Tasks
