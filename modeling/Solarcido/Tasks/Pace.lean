import Solarcido.Tasks.Batch

namespace Solarcido.Tasks

open ThrowingProgram TaskRegistry

namespace Batch

section pace

variable {clock : IdClock} {concurrency : JsNumber} {batch : Batch}

theorem advance_world (batch : Batch) : (advance concurrency batch).world = batch.world := by
  rw [advance]
  split_ifs <;> rfl

theorem advance_outcomes (batch : Batch) :
    (advance concurrency batch).outcomes = batch.outcomes := by
  rw [advance]
  split_ifs <;> rfl

theorem advance_first (batch : Batch) : (advance concurrency batch).first = batch.first := by
  rw [advance]
  split_ifs <;> rfl

/-- Behind its `await` the call changes no task and no outcome. -/
theorem resume_keeps (batch : Batch) : (resume concurrency batch).world = batch.world ∧
    (resume concurrency batch).outcomes = batch.outcomes := by
  rw [resume]
  split_ifs
  · exact ⟨rfl, rfl⟩
  · split
    · exact ⟨rfl, rfl⟩
    · split
      · rw [advance_world, advance_outcomes]
        exact ⟨rfl, rfl⟩
      · exact ⟨rfl, rfl⟩

theorem start_length {taskId : JsString} {slice : List JsString}
    (h : batch.slice = taskId :: slice) :
    (start clock batch).world.runs.length = batch.world.runs.length + 1 := by
  obtain ⟨run, hruns, -⟩ := runTask_runs clock taskId batch.world
  rw [start, h]
  dsimp only
  rw [hruns, List.length_append, List.length_singleton]

theorem settle_length (batch : Batch) (run : Nat) (outcome : Outcome) :
    (settle clock run outcome batch).world.runs.length = batch.world.runs.length := by
  rw [settle]
  cases hrun : batch.world.runs[run]? with
  | none => rfl
  | some before =>
    cases before with
    | returned task => rfl
    | threw e => rfl
    | waiting taskId task =>
      obtain ⟨settled, hruns, -⟩ := settle_runs clock hrun outcome
      dsimp only
      rw [hruns, List.length_set]

/-- What is started of a slice and what is left of it are at most so many. -/
def Within (most : Nat) (batch : Batch) : Prop :=
  batch.world.runs.length + batch.slice.length ≤ batch.first + most

theorem nextSlice_length (q : ℚ) (ids : List JsString) :
    (nextSlice (.finite q) ids).1.length ≤ q.floor.toNat := by
  rw [nextSlice, List.splitAt_eq]
  exact List.length_take_le _ _

theorem within_advance {q : ℚ} (hslice : batch.slice = [])
    (hfirst : batch.first = batch.world.runs.length) :
    Within q.floor.toNat (advance (.finite q) batch) := by
  rw [Within, advance_world, advance_first, hfirst]
  apply Nat.add_le_add_left
  rw [advance]
  split_ifs
  · dsimp only
    rw [hslice]
    exact Nat.zero_le _
  · exact nextSlice_length q batch.remaining

theorem within_step (format : NumberFormat) {q : ℚ} (h : Within q.floor.toNat batch)
    (event : BatchEvent) :
    Within q.floor.toNat (step clock format (.finite q) batch event) := by
  cases event with
  | operation op => exact h
  | start =>
    cases hslice : batch.slice with
    | nil => rwa [step, start, hslice]
    | cons taskId slice =>
      have hlength : (start clock batch).world.runs.length = batch.world.runs.length + 1 :=
        start_length hslice
      rw [Within, hslice, List.length_cons] at h
      rw [step, Within, hlength, start, hslice]
      dsimp only
      omega
  | settle run outcome =>
    rw [step, Within, settle_length]
    rw [settle]
    split <;> exact h
  | resume =>
    rw [step, resume]
    split_ifs with hclosed
    · exact h
    · rw [Bool.or_eq_true, not_or, Bool.not_eq_true', Bool.not_eq_false, List.isEmpty_iff]
        at hclosed
      split
      · exact h
      · split
        · exact within_advance hclosed.2 rfl
        · exact h

end pace

section limits

variable {clock : IdClock} (format : NumberFormat) {concurrency : JsNumber} {ids : List JsString}
  {batch : Batch}

theorem isSound_step (hc : concurrency ≠ .nan) (h : IsSound ids batch) (event : BatchEvent) :
    IsSound ids (step clock format concurrency batch event) := by
  cases event with
  | operation op => exact { h with }
  | start => exact isSound_start h
  | settle run outcome => exact isSound_settle h run outcome
  | resume => exact isSound_resume _ hc h

/-- A call that goes on has something to start or something to push. -/
def Busy (batch : Batch) : Prop :=
  batch.returned = none → batch.slice ≠ [] ∨ batch.first < batch.world.runs.length

theorem busy_advance (hc : TakesSome concurrency) (batch : Batch) :
    Busy (advance concurrency batch) := by
  intro hopen
  rcases advance_moves hc batch with hreturned | hslice
  · rw [hopen] at hreturned
    cases hreturned
  · exact Or.inl hslice

theorem busy_step (hc : TakesSome concurrency) (hsound : IsSound ids batch) (h : Busy batch)
    (event : BatchEvent) : Busy (step clock format concurrency batch event) := by
  cases event with
  | operation op => exact h
  | start =>
    cases hslice : batch.slice with
    | nil => rwa [step, start, hslice]
    | cons taskId slice =>
      have hlength : (start clock batch).world.runs.length = batch.world.runs.length + 1 :=
        start_length hslice
      intro _
      rw [step, hlength, start, hslice]
      exact Or.inr (Nat.lt_succ_of_le hsound.first_le)
  | settle run outcome =>
    rw [step, Busy, settle_length, settle]
    split <;> exact h
  | resume =>
    rw [step, resume]
    split_ifs
    · exact h
    · split
      · intro hopen
        cases hopen
      · split
        · exact busy_advance hc _
        · exact h

def isWaiting : TaskRun → Bool
  | .waiting _ _ => true
  | _ => false

/-- How many executors have been called and have not settled. -/
def inFlight (batch : Batch) : Nat := batch.world.runs.countP isWaiting

theorem inFlight_le_slice (h : IsSound ids batch) :
    batch.first + inFlight batch ≤ batch.world.runs.length := by
  have hpushed : (batch.world.runs.take batch.first).countP isWaiting = 0 := by
    rw [h.pushed, List.countP_eq_zero]
    intro run hmem
    obtain ⟨task, -, rfl⟩ := List.mem_map.mp hmem
    exact Bool.false_ne_true
  have hsplit : inFlight batch = (batch.world.runs.take batch.first).countP isWaiting +
      (batch.world.runs.drop batch.first).countP isWaiting := by
    rw [← List.countP_append, List.take_append_drop, inFlight]
  rw [hpushed, Nat.zero_add] at hsplit
  have hle := List.countP_le_length (p := isWaiting) (l := batch.world.runs.drop batch.first)
  rw [List.length_drop, ← hsplit] at hle
  have hfirst := h.first_le
  omega

theorem concurrencyOf_finite (limit : ℚ) :
    concurrencyOf (some (.finite limit)) = .finite (max 1 limit.floor : Int) := by
  rw [concurrencyOf, Option.getD_some]
  by_cases h : (limit.floor : ℚ) < 1
  · have hfloor : limit.floor ≤ 1 := by
      exact_mod_cast h.le
    simp [JsNumber.max, JsNumber.floor, JsNumber.ofInt, JsNumber.gt, h, max_eq_left hfloor]
  · have hfloor : 1 ≤ limit.floor := by
      exact_mod_cast not_lt.mp h
    simp [JsNumber.max, JsNumber.floor, JsNumber.ofInt, JsNumber.gt, h, max_eq_right hfloor]

/-- Whatever else is done to the registry, a batch never has more executors at work than its
limit, and one where the limit is less than one. -/
theorem inFlight_le_limit (limit : ℚ) (ids : List JsString) (registry : TaskRegistry)
    (events : List BatchEvent) :
    inFlight (Serial.runAll (step clock format (concurrencyOf (some (.finite limit))))
      (runBatch (concurrencyOf (some (.finite limit))) ids registry) events) ≤
        max 1 limit.floor.toNat := by
  rw [concurrencyOf_finite]
  have hkept := Serial.runAll_invariant
    (step clock format (.finite (max 1 limit.floor : Int)))
    (runBatch (.finite (max 1 limit.floor : Int)) ids registry)
    (fun batch => IsSound ids batch ∧ Within ((max 1 limit.floor : Int) : ℚ).floor.toNat batch)
    ⟨isSound_runBatch _ (by rintro ⟨⟩) registry, within_advance rfl rfl⟩
    (fun batch event h => ⟨isSound_step format (by rintro ⟨⟩) h.1 event,
      within_step format h.2 event⟩) events
  obtain ⟨hsound, hwithin⟩ := hkept
  have hslice := inFlight_le_slice hsound
  rw [Within, Rat.floor_intCast] at hwithin
  omega

end limits

end Batch

theorem takesSome_concurrencyOf {limit : Option JsNumber} (h : limit ≠ some .nan) :
    Batch.TakesSome (Batch.concurrencyOf limit) := by
  cases limit with
  | none => exact takesSome_of_atLeastOne (by rintro n ⟨⟩)
  | some n =>
    cases n with
    | nan => exact absurd rfl h
    | infinite negative =>
      cases negative with
      | false =>
        apply takesSome_of_atLeastOne
        rintro n ⟨⟩
        exact rfl
      | true => exact le_of_eq (Rat.floor_intCast 1).symm
    | finite q =>
      rw [Batch.concurrencyOf_finite, Batch.TakesSome, Rat.floor_intCast]
      exact le_max_left 1 q.floor

section work

variable {clock : IdClock} {ids : List JsString} {batch : Batch}

/-- How much is left to do. -/
def work (ids : List JsString) (batch : Batch) : Nat :=
  4 * (ids.length - batch.world.runs.length) + 2 * Batch.inFlight batch +
    (batch.world.runs.length - batch.first) + if batch.returned.isSome then 0 else 1

theorem work_start (hsound : Batch.IsSound ids batch) {id : JsString} {slice : List JsString}
    (hslice : batch.slice = id :: slice) :
    work ids (Batch.start clock batch) < work ids batch := by
  obtain ⟨hid, -⟩ := hsound.next hslice
  have hlt := (List.getElem?_eq_some_iff.mp hid).1
  have hfirst := hsound.first_le
  obtain ⟨run, hruns, -⟩ := Batch.runTask_runs clock id batch.world
  have hflight : Batch.inFlight (Batch.start clock batch) ≤ Batch.inFlight batch + 1 := by
    rw [Batch.inFlight, Batch.start, hslice]
    dsimp only
    rw [hruns, List.countP_append]
    exact Nat.add_le_add_left List.countP_le_length _
  have hlength : (Batch.start clock batch).world.runs.length = batch.world.runs.length + 1 :=
    Batch.start_length hslice
  have hsame : (Batch.start clock batch).first = batch.first ∧
      (Batch.start clock batch).returned = batch.returned := by
    rw [Batch.start, hslice]
    exact ⟨rfl, rfl⟩
  rw [work, work, hlength, hsame.1, hsame.2]
  omega

theorem work_settle {run : Nat} {id : JsString} {task : Task}
    (hrun : batch.world.runs[run]? = some (.waiting id task)) (outcome : Outcome) :
    work ids (Batch.settle clock run outcome batch) < work ids batch := by
  obtain ⟨hlt, hget⟩ := List.getElem?_eq_some_iff.mp hrun
  obtain ⟨settled, hruns, hsettled⟩ := Batch.settle_runs clock hrun outcome
  have hdone : Batch.isWaiting settled = false := by
    rcases hsettled with ⟨-, task', rfl, -⟩ | ⟨-, e, rfl⟩ <;> rfl
  have hmem : 0 < Batch.inFlight batch :=
    List.countP_pos_iff.mpr ⟨_, List.mem_of_getElem? hrun, rfl⟩
  have hflight : Batch.inFlight (Batch.settle clock run outcome batch) =
      Batch.inFlight batch - 1 := by
    rw [Batch.inFlight, Batch.settle, hrun]
    dsimp only
    rw [hruns, List.countP_set hlt, hget, hdone]
    rfl
  have hsame : (Batch.settle clock run outcome batch).first = batch.first ∧
      (Batch.settle clock run outcome batch).returned = batch.returned := by
    rw [Batch.settle, hrun]
    exact ⟨rfl, rfl⟩
  rw [work, work, Batch.settle_length, hflight, hsame.1, hsame.2]
  omega

end work

end Solarcido.Tasks
