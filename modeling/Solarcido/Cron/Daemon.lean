import Solarcido.Cron.Expression

namespace Solarcido.Cron

open Text

structure CronJob where
  name : JsString
  schedule : JsString
  goal : JsString
  deriving DecidableEq

section scheduler

structure CronJobError where
  name : JsString
  error : CronError

structure ValidationResult where
  ok : List CronJob
  errors : List CronJobError

def isDue (date : Date) (job : CronJob) : Bool :=
  match cronMatches job.schedule date with
  | .ok due => due
  | .error _ => false

def dueJobs (jobs : List CronJob) (date : Date) : List CronJob := jobs.filter (isDue date)

def validateCronJobs : List CronJob → ValidationResult
  | [] => ⟨[], []⟩
  | job :: rest =>
    let result := validateCronJobs rest
    match parseCronExpression job.schedule with
    | .ok _ => { result with ok := job :: result.ok }
    | .error error => { result with errors := ⟨job.name, error⟩ :: result.errors }

end scheduler

section ticks

/-- What one call of `runJob` comes to: the milliseconds it takes and what it is
rejected with, if it is. -/
structure JobRun where
  duration : Nat
  failure : Option JsString

/-- A call of `runJob`, by the tick it belongs to and the time it is made. -/
structure Firing where
  job : CronJob
  tick : Date
  startedAt : Int

/-- The loop of `runCronTick` from the `i`-th due job on: the calls it makes, and the
time it is over or what it throws. -/
def runJobs (runJob : Nat → JobRun) (date : Date) :
    Nat → Int → List CronJob → List Firing × Except JsString Int
  | _, now, [] => ([], .ok now)
  | i, now, job :: rest =>
    let run := runJob i
    match run.failure with
    | some e => ([⟨job, date, now⟩], .error e)
    | none =>
      let (fired, outcome) := runJobs runJob date (i + 1) (now + run.duration) rest
      (⟨job, date, now⟩ :: fired, outcome)

def runCronTick (jobs : List CronJob) (date : Date) (runJob : Nat → JobRun) :
    List Firing × Except JsString Int := runJobs runJob date 0 date.time (dueJobs jobs date)

def minuteKey (date : Date) : JsString := date.toISOString.take 16

structure TickResult where
  lastMinute : JsString
  fired : List Firing
  outcome : Except JsString Int

/-- `tick`, where the clock says `date`. -/
def tick (jobs : List CronJob) (runJob : Nat → JobRun) (lastMinute : JsString) (date : Date) :
    TickResult :=
  if minuteKey date = lastMinute then ⟨lastMinute, [], .ok date.time⟩
  else
    let (fired, outcome) := runCronTick jobs date runJob
    ⟨minuteKey date, fired, outcome⟩

end ticks

section daemon

structure CronDaemonOptions where
  jobs : List CronJob
  intervalMs : Option Int

/-- What the timer makes of the poll interval. -/
def CronDaemonOptions.delay (options : CronDaemonOptions) : Int :=
  let after := options.intervalMs.getD 30000
  if 1 ≤ after ∧ after ≤ 2147483647 then after else 1

/-- A run of the daemon: when it is started, how long each due job of each tick takes, and
what the clock says each time the timer fires. No job is rejected. -/
structure DaemonRun where
  options : CronDaemonOptions
  start : Date
  durations : Nat → Nat → Nat
  polls : List Date

namespace DaemonRun

variable (run : DaemonRun)

def jobs : List CronJob := (validateCronJobs run.options.jobs).ok

def runJob (k i : Nat) : JobRun := ⟨run.durations k i, none⟩

/-- `await tick()`. -/
def firstTick : TickResult := tick run.jobs (run.runJob 0) [] run.start

/-- The ticks of the timer, which nothing waits for. -/
def pollTicks (jobs : List CronJob) (runJob : Nat → Nat → JobRun) :
    Nat → JsString → List Date → List Firing
  | _, _, [] => []
  | k, lastMinute, date :: rest =>
    let result := tick jobs (runJob k) lastMinute date
    result.fired ++ pollTicks jobs runJob (k + 1) result.lastMinute rest

/-- The calls of `runJob` that `runCronDaemon` makes. -/
def firings : List Firing :=
  if run.jobs = [] then []
  else
    match run.firstTick.outcome with
    | .error _ => run.firstTick.fired
    | .ok _ =>
      run.firstTick.fired ++ pollTicks run.jobs run.runJob 1 run.firstTick.lastMinute run.polls

/-- The timer is set when the first tick is over, the clock never goes back, and from
then on the timer fires at most one delay later each time. -/
structure Paced : Prop where
  steps : ∀ timerSet, run.firstTick.outcome = .ok timerSet →
    (timerSet :: run.polls.map Date.time).IsChain fun a b => a ≤ b ∧ b ≤ a + run.options.delay

end DaemonRun

end daemon

end Solarcido.Cron
