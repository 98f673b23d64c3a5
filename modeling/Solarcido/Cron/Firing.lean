import Mathlib.Algebra.Order.Group.Int
import Solarcido.Cron.Daemon
import Solarcido.Lib.Changes

namespace Solarcido.Cron

open Text Changes Date

section keys

theorem minuteKey_eq_iff {d e : Date} : minuteKey d = minuteKey e ↔
    d.minute = e.minute ∨ (d.hour = e.hour ∧ ¬ FourDigits d.getUTCFullYear) :=
  toISOString_take_eq_iff

theorem minuteKey_ne_nil (d : Date) : minuteKey d ≠ [] := by
  have hlen : (minuteKey d).length = 16 := by
    rw [minuteKey, toISOString_take]
    split
    · next h => rw [minuteText_length, if_pos h]
    · next h => rw [hourText_length, if_neg h]
  intro h
  simp [h] at hlen

theorem minute_mono {d e : Date} (h : d ≤ e) : d.minute ≤ e.minute :=
  Int.ediv_le_ediv (by decide) h

theorem minuteKey_convex : Convex minuteKey := by
  intro a b c hab hbc hac
  have hmin := minute_mono hab
  have hmin' := minute_mono hbc
  have hour := a.hour_of_minute
  have hour' := b.hour_of_minute
  have hour'' := c.hour_of_minute
  rcases minuteKey_eq_iff.mp hac with h | ⟨h, hfar⟩
  · exact minuteKey_eq_iff.mpr (.inl (by omega))
  · have hhour : b.hour = a.hour := by omega
    have hyear := year_eq (day_eq_of_hour hhour)
    exact minuteKey_eq_iff.mpr (.inr ⟨hhour, hyear ▸ hfar⟩)

end keys

section ticks

variable (jobs : List CronJob) {job : CronJob} {minute : Int}

/-- A call of `runJob` for the job, by a tick in the minute. -/
def Fires (job : CronJob) (minute : Int) (f : Firing) : Prop := f.job = job ∧ f.tick.minute = minute

instance (job : CronJob) (minute : Int) : DecidablePred (Fires job minute) :=
  fun _ => inferInstanceAs (Decidable (_ ∧ _))

/-- When no job is rejected the loop makes every call, and it is over. -/
theorem runJobs_fulfilled (durations : Nat → Nat) (date : Date) (i : Nat) (now : Int)
    (due : List CronJob) :
    ∃ fired ended, runJobs (fun i => ⟨durations i, none⟩) date i now due = (fired, .ok ended) ∧
      now ≤ ended ∧ fired.map Firing.job = due ∧ ∀ f ∈ fired, f.tick = date := by
  induction due generalizing i now with
  | nil => exact ⟨[], now, rfl, Int.le_refl now, rfl, by simp⟩
  | cons job rest ih =>
    obtain ⟨fired, ended, hrest, hover, hjobs, htick⟩ := ih (i + 1) (now + durations i)
    refine ⟨⟨job, date, now⟩ :: fired, ended, ?_, by omega, by simp [hjobs], ?_⟩
    · simp only [runJobs, hrest]
    · intro f hf
      rcases List.mem_cons.mp hf with rfl | hf
      · rfl
      · exact htick f hf

theorem tick_fulfilled (durations : Nat → Nat) (lastMinute : JsString) (date : Date) :
    ∃ ended, (tick jobs (fun i => ⟨durations i, none⟩) lastMinute date).outcome = .ok ended ∧
      date.time ≤ ended := by
  obtain ⟨fired, ended, hrun, hover, -⟩ :=
    runJobs_fulfilled durations date 0 date.time (dueJobs jobs date)
  unfold tick
  split
  · exact ⟨date.time, rfl, Int.le_refl _⟩
  · exact ⟨ended, by simp only [runCronTick, hrun], hover⟩

/-- The tick calls `runJob` for each due job when its minute key is new. -/
theorem tick_count (durations : Nat → Nat) (lastMinute : JsString) (date : Date)
    (hdue : ∀ d : Date, d.minute = minute → isDue d job = true) :
    (tick jobs (fun i => ⟨durations i, none⟩) lastMinute date).fired.countP (Fires job minute) =
      if minuteKey date = lastMinute ∨ date.minute ≠ minute then 0 else jobs.count job := by
  obtain ⟨fired, ended, hrun, -, hjobs, htick⟩ :=
    runJobs_fulfilled durations date 0 date.time (dueJobs jobs date)
  unfold tick
  by_cases hkey : minuteKey date = lastMinute
  · simp [hkey]
  · rw [if_neg hkey]
    simp only [runCronTick, hrun]
    by_cases hminute : date.minute = minute
    · have hcount : fired.countP (Fires job minute) = (fired.map Firing.job).count job := by
        rw [List.count, List.countP_map]
        refine List.countP_congr fun f hf => ?_
        simp [Fires, htick f hf, hminute]
      rw [if_neg (by simp [hkey, hminute]), hcount, hjobs, dueJobs,
        List.count_filter (hdue date hminute)]
    · rw [if_pos (.inr hminute), List.countP_eq_zero]
      intro f hf
      simp [Fires, htick f hf, hminute]

theorem tick_lastMinute (runJob : Nat → JobRun) (lastMinute : JsString) (date : Date) :
    (tick jobs runJob lastMinute date).lastMinute = minuteKey date := by
  unfold tick
  split
  · next h => exact h.symm
  · rfl

end ticks

section runs

variable (run : DaemonRun) {job : CronJob} {minute : Int}

theorem firstTick_fulfilled :
    ∃ timerSet, run.firstTick.outcome = .ok timerSet ∧ run.start.time ≤ timerSet :=
  tick_fulfilled run.jobs (run.durations 0) [] run.start

theorem pollTicks_count (k : Nat) (lastMinute : JsString) (polls : List Date)
    (hdue : ∀ d : Date, d.minute = minute → isDue d job = true) :
    (DaemonRun.pollTicks run.jobs run.runJob k lastMinute polls).countP (Fires job minute) =
      (fresh minuteKey (some lastMinute) polls).countP (·.minute = minute) * run.jobs.count job := by
  induction polls generalizing k lastMinute with
  | nil => simp [DaemonRun.pollTicks, fresh]
  | cons date rest ih =>
    have htick := tick_count run.jobs (run.durations k) lastMinute date hdue
    change (tick run.jobs (run.runJob k) lastMinute date).fired.countP (Fires job minute) = _ at htick
    rw [DaemonRun.pollTicks, List.countP_append, htick, ih, tick_lastMinute, fresh]
    by_cases hkey : minuteKey date = lastMinute
    · simp [hkey]
    · by_cases hminute : date.minute = minute
      · simp [hkey, hminute, Nat.add_mul, Nat.add_comm]
      · simp [hkey, hminute]

/-- The daemon calls `runJob` for a job in a minute it matches once for each tick in that
minute whose key is not the key of the tick before. -/
theorem firings_count (hjobs : run.jobs ≠ [])
    (hdue : ∀ d : Date, d.minute = minute → isDue d job = true) :
    run.firings.countP (Fires job minute) =
      (fresh minuteKey none (run.start :: run.polls)).countP (·.minute = minute) *
        run.jobs.count job := by
  obtain ⟨ended, hover, -⟩ := firstTick_fulfilled run
  have htick := tick_count run.jobs (run.durations 0) [] run.start hdue
  change run.firstTick.fired.countP (Fires job minute) = _ at htick
  have hlast : run.firstTick.lastMinute = minuteKey run.start := tick_lastMinute _ _ _ _
  have hfresh : fresh minuteKey none (run.start :: run.polls) =
      run.start :: fresh minuteKey (some (minuteKey run.start)) run.polls := by
    rw [fresh, if_neg (by simp)]
  rw [DaemonRun.firings, if_neg hjobs, hover]
  simp only
  rw [List.countP_append, htick, pollTicks_count run 1 _ _ hdue, hlast, hfresh]
  by_cases hminute : run.start.minute = minute
  · simp [hminute, minuteKey_ne_nil, Nat.add_mul, Nat.add_comm]
  · simp [hminute]

variable {run}

theorem paced_chain (h : run.Paced) : ∃ timerSet, run.start.time ≤ timerSet ∧
    (timerSet :: run.polls.map Date.time).IsChain
      fun a b => a ≤ b ∧ b ≤ a + run.options.delay := by
  obtain ⟨timerSet, houtcome, hset⟩ := firstTick_fulfilled run
  exact ⟨timerSet, hset, h.steps timerSet houtcome⟩

theorem paced_sorted (h : run.Paced) : (run.start :: run.polls).Pairwise (· ≤ ·) := by
  obtain ⟨timerSet, hset, hchain⟩ := paced_chain h
  have hle : (timerSet :: run.polls.map Date.time).IsChain fun a b => a ≤ b :=
    hchain.imp fun _ _ hstep => hstep.1
  obtain ⟨hfirst, hrest⟩ := List.pairwise_cons.mp (List.isChain_iff_pairwise.mp hle)
  rw [List.pairwise_map] at hrest
  refine List.pairwise_cons.mpr ⟨fun p hp => ?_, hrest⟩
  exact hset.trans (hfirst p.time (List.mem_map_of_mem hp))

theorem delay_le (options : CronDaemonOptions) (h : options.intervalMs.getD 30000 ≤ 60000) :
    options.delay ≤ 60000 := by
  unfold CronDaemonOptions.delay
  dsimp only
  split <;> omega

/-- A minute that the first poll does not come too late for has a poll. -/
theorem minute_polled (h : run.Paced) (hdelay : run.options.delay ≤ 60000)
    (hearly : ∃ p ∈ run.polls, p.time < (minute + 1) * 60000)
    (hover : ∃ p ∈ run.polls, (minute + 1) * 60000 ≤ p.time) :
    ∃ p ∈ run.polls, p.minute = minute := by
  obtain ⟨timerSet, -, hchain⟩ := paced_chain h
  have hsorted := (List.pairwise_cons.mp (paced_sorted h)).2
  cases hpolls : run.polls with
  | nil => simp [hpolls] at hearly
  | cons first rest =>
    rw [hpolls] at hsorted hearly hover hchain
    have hfirst : first.time < (minute + 1) * 60000 := by
      obtain ⟨p, hp, hlt⟩ := hearly
      rcases List.mem_cons.mp hp with rfl | hp
      · exact hlt
      · exact lt_of_le_of_lt ((List.pairwise_cons.mp hsorted).1 p hp) hlt
    have hlater : ∃ t ∈ rest.map Date.time, (minute + 1) * 60000 ≤ t := by
      obtain ⟨p, hp, hle⟩ := hover
      rcases List.mem_cons.mp hp with rfl | hp
      · exact absurd hle (not_le.mpr hfirst)
      · exact ⟨p.time, List.mem_map_of_mem hp, hle⟩
    obtain ⟨t, ht, hwindow⟩ :=
      window_hit first.time (rest.map Date.time) (List.isChain_cons_cons.mp hchain).2 hfirst hlater
    rw [← List.map_cons] at ht
    obtain ⟨p, hp, rfl⟩ := List.mem_map.mp ht
    refine ⟨p, hp, ?_⟩
    unfold Date.minute
    omega

end runs

section minutes

variable {run : DaemonRun} {job : CronJob} {moment : Date}

/-- Some poll comes before the minute is over, and its key is no other minute's: its year
has four digits, or the clock is read in its hour for the first time. -/
def Reached (run : DaemonRun) (moment : Date) : Prop :=
  (∃ p ∈ run.polls, p.time < (moment.minute + 1) * 60000) ∧
    (FourDigits moment.getUTCFullYear ∨
      ∀ d ∈ run.start :: run.polls, d.time < moment.minute * 60000 → d.hour ≠ moment.hour)

theorem isDue_of_match (hmatch : cronMatches job.schedule moment = .ok true) (d : Date)
    (hd : d.minute = moment.minute) : isDue d job = true := by
  rw [isDue, cronMatches_minute job.schedule hd, hmatch]

/-- The minute has a tick of its own when the first reading of its key lies in it. -/
theorem fresh_minute (h : run.Paced) :
    (fresh minuteKey none (run.start :: run.polls)).countP (·.minute = moment.minute) =
      (((run.start :: run.polls).filter (minuteKey · = minuteKey moment)).take 1).countP
        (·.minute = moment.minute) := by
  rw [← fresh_first minuteKey_convex _ (paced_sorted h), List.countP_filter]
  refine List.countP_congr fun d _ => ?_
  simp only [decide_eq_true_eq, Bool.and_eq_true]
  exact ⟨fun hd => ⟨hd, minuteKey_eq_iff.mpr (.inl hd)⟩, fun hd => hd.1⟩

theorem first_of_key {d : Date} {rest : List Date} (h : run.Paced)
    (hfilter : (run.start :: run.polls).filter (minuteKey · = minuteKey moment) = d :: rest) :
    (d ∈ run.start :: run.polls ∧ minuteKey d = minuteKey moment) ∧
      ∀ e ∈ run.start :: run.polls, minuteKey e = minuteKey moment → d ≤ e := by
  have hmem : d ∈ (run.start :: run.polls).filter (minuteKey · = minuteKey moment) := by
    simp [hfilter]
  have hsorted := (paced_sorted h).filter (p := (minuteKey · = minuteKey moment))
  rw [hfilter] at hsorted
  refine ⟨by simpa using hmem, fun e he hkey => ?_⟩
  have he' : e ∈ (run.start :: run.polls).filter (minuteKey · = minuteKey moment) := by
    rw [List.mem_filter]
    exact ⟨he, by simpa using hkey⟩
  rw [hfilter] at he'
  rcases List.mem_cons.mp he' with rfl | he'
  · exact Int.le_refl _
  · exact (List.pairwise_cons.mp hsorted).1 e he'

theorem reached_iff (h : run.Paced) (hdelay : run.options.delay ≤ 60000)
    (hafter : run.start.time < moment.minute * 60000)
    (hover : ∃ p ∈ run.polls, (moment.minute + 1) * 60000 ≤ p.time) :
    (∃ d rest, (run.start :: run.polls).filter (minuteKey · = minuteKey moment) = d :: rest ∧
      d.minute = moment.minute) ↔ Reached run moment := by
  constructor
  · rintro ⟨d, rest, hfilter, hminute⟩
    obtain ⟨⟨hd, -⟩, hfirst⟩ := first_of_key h hfilter
    have htime : moment.minute * 60000 ≤ d.time ∧ d.time < (moment.minute + 1) * 60000 := by
      unfold Date.minute at hminute ⊢
      omega
    refine ⟨⟨d, ?_, htime.2⟩, ?_⟩
    · rcases List.mem_cons.mp hd with rfl | hd
      · omega
      · exact hd
    · by_contra hnot
      obtain ⟨hfar, hearlier⟩ := not_or.mp hnot
      refine hearlier fun e he hlt hhour => ?_
      have hyear := year_eq (day_eq_of_hour hhour)
      have hkey := minuteKey_eq_iff.mpr (.inr ⟨hhour, hyear ▸ hfar⟩)
      have hle := (le_def d e).mp (hfirst e he hkey)
      omega
  · rintro ⟨hearly, hyear⟩
    obtain ⟨p, hp, hminute⟩ := minute_polled h hdelay hearly hover
    have hpkey : minuteKey p = minuteKey moment := minuteKey_eq_iff.mpr (.inl hminute)
    cases hfilter : (run.start :: run.polls).filter (minuteKey · = minuteKey moment) with
    | nil =>
      have hnone := List.filter_eq_nil_iff.mp hfilter p (List.mem_cons_of_mem _ hp)
      exact absurd hpkey (by simpa using hnone)
    | cons d rest =>
      obtain ⟨⟨hd, hkey⟩, hfirst⟩ := first_of_key h hfilter
      have hle := minute_mono (hfirst p (List.mem_cons_of_mem _ hp) hpkey)
      refine ⟨d, rest, rfl, ?_⟩
      rcases minuteKey_eq_iff.mp hkey with hsame | ⟨hhour, hfar⟩
      · exact hsame
      · rw [year_eq (day_eq_of_hour hhour)] at hfar
        have hearlier := hyear.resolve_left hfar d hd
        have htime : moment.minute * 60000 ≤ d.time :=
          not_lt.mp fun hlt => hearlier hlt hhour
        unfold Date.minute at hle hminute htime ⊢
        omega

/-- No job is fired twice for a minute, however long the jobs take. -/
theorem fired_never_twice (h : run.Paced) (hjobs : run.jobs ≠ [])
    (hmatch : cronMatches job.schedule moment = .ok true) :
    run.firings.countP (Fires job moment.minute) ≤ run.jobs.count job := by
  have hone : (((run.start :: run.polls).filter (minuteKey · = minuteKey moment)).take 1).countP
      (·.minute = moment.minute) ≤ 1 :=
    List.countP_le_length.trans (List.length_take_le 1 _)
  rw [firings_count run hjobs (isDue_of_match hmatch), fresh_minute h]
  exact (Nat.mul_le_mul_right _ hone).trans (Nat.le_of_eq (Nat.one_mul _))

/-- A job is fired exactly once for a minute it matches exactly when the minute is reached. -/
theorem fired_once_iff (hinterval : run.options.intervalMs.getD 30000 ≤ 60000) (h : run.Paced)
    (hafter : run.start.time < moment.minute * 60000)
    (hover : ∃ p ∈ run.polls, (moment.minute + 1) * 60000 ≤ p.time) (hjob : job ∈ run.jobs)
    (hmatch : cronMatches job.schedule moment = .ok true) :
    run.firings.countP (Fires job moment.minute) = run.jobs.count job ↔ Reached run moment := by
  have hpos : 0 < run.jobs.count job := List.count_pos_iff.mpr hjob
  rw [← reached_iff h (delay_le run.options hinterval) hafter hover,
    firings_count run (List.ne_nil_of_mem hjob) (isDue_of_match hmatch), fresh_minute h]
  cases hfilter : (run.start :: run.polls).filter (minuteKey · = minuteKey moment) with
  | nil =>
    simp only [List.take_nil, List.countP_nil, Nat.zero_mul]
    exact ⟨fun hzero => by omega, fun ⟨d, rest, hnil, _⟩ => by simp at hnil⟩
  | cons d rest =>
    by_cases hminute : d.minute = moment.minute
    · simp [hminute]
    · simp [hminute]
      omega

end minutes

section newYear

/-- Milliseconds after the start of 2026. -/
def newYear (ms : Fin 1000000000) : Date := ⟨1767225600000 + ms.val, by omega, by omega⟩

def everyMinute : CronJob := ⟨js "job", js "* * * * *", js "goal"⟩

/-- The daemon is started on the minute with one job, which takes some time at first. -/
def runFrom (duration : Nat) (intervalMs : Int) (polls : List Date) : DaemonRun where
  options := ⟨[everyMinute], some intervalMs⟩
  start := newYear 0
  durations k _ := if k = 0 then duration else 0
  polls := polls

theorem isDue_iff {date : Date} {job : CronJob} :
    isDue date job = true ↔ cronMatches job.schedule date = .ok true := by
  unfold isDue
  split
  · next h => simp [h]
  · next h => simp [h]

theorem quick_job_fired :
    (runFrom 0 60000 [newYear 60000, newYear 120000]).firings.countP
        (Fires everyMinute (newYear 60000).minute) =
      (runFrom 0 60000 [newYear 60000, newYear 120000]).jobs.count everyMinute := by
  refine (fired_once_iff (by decide) ⟨fun timerSet hset => ?_⟩ (by decide) (by decide)
    (by decide +kernel) (isDue_iff.mp (by decide +kernel))).mpr ⟨by decide, .inl (by decide)⟩
  have houtcome : (runFrom 0 60000 [newYear 60000, newYear 120000]).firstTick.outcome =
      .ok (newYear 0).time := rfl
  obtain rfl : (newYear 0).time = timerSet := Except.ok.inj (houtcome.symm.trans hset)
  decide

/-- A job that runs for five minutes at the start of the daemon is not fired in the minutes
until it is done. -/
theorem slow_start_missed :
    (runFrom 300000 30000 [newYear 330000, newYear 360000]).Paced ∧
      everyMinute ∈ (runFrom 300000 30000 [newYear 330000, newYear 360000]).jobs ∧
      (runFrom 300000 30000 [newYear 330000, newYear 360000]).start.time <
        (newYear 60000).minute * 60000 ∧
      (∃ p ∈ (runFrom 300000 30000 [newYear 330000, newYear 360000]).polls,
        ((newYear 60000).minute + 1) * 60000 ≤ p.time) ∧
      cronMatches everyMinute.schedule (newYear 60000) = .ok true ∧
      (runFrom 300000 30000 [newYear 330000, newYear 360000]).firings.countP
        (Fires everyMinute (newYear 60000).minute) = 0 := by
  refine ⟨⟨fun timerSet hset => ?_⟩, by decide +kernel, by decide, by decide,
    isDue_iff.mp (by decide +kernel), by decide +kernel⟩
  have houtcome : (runFrom 300000 30000 [newYear 330000, newYear 360000]).firstTick.outcome =
      .ok (newYear 300000).time := rfl
  obtain rfl : (newYear 300000).time = timerSet := Except.ok.inj (houtcome.symm.trans hset)
  decide

end newYear

section ticks

variable (runJob : Nat → JobRun) (date : Date)

/-- The loop calls `runJob` for the jobs in their order, and goes on behind a job unless it
is rejected. -/
theorem runJobs_jobs_iff (i : Nat) (now : Int) (due : List CronJob) :
    (runJobs runJob date i now due).1.map Firing.job = due ↔
      ∀ k, k + 1 < due.length → (runJob (i + k)).failure = none := by
  induction due generalizing i now with
  | nil => simp [runJobs]
  | cons job rest ih =>
    rw [runJobs]
    cases hfailure : (runJob i).failure with
    | some e =>
      dsimp only
      cases rest with
      | nil => simp
      | cons next rest =>
        constructor
        · intro h
          simp at h
        · intro h
          have hfirst := h 0 (by simp)
          rw [Nat.add_zero, hfailure] at hfirst
          cases hfirst
    | none =>
      have hrest := ih (i + 1) (now + (runJob i).duration)
      simp only [List.map_cons, List.cons.injEq, true_and]
      rw [hrest]
      constructor
      · intro h k hk
        cases k with
        | zero => exact hfailure
        | succ k =>
          have hlater := h k (by simpa using hk)
          rw [Nat.add_right_comm, Nat.add_assoc] at hlater
          exact hlater
      · intro h k hk
        have hlater := h (k + 1) (by simpa using hk)
        rw [Nat.add_right_comm, Nat.add_assoc]
        exact hlater

theorem tick_new {jobs : List CronJob} {lastMinute : JsString} (h : minuteKey date ≠ lastMinute) :
    (tick jobs runJob lastMinute date).fired = (runCronTick jobs date runJob).1 := by
  rw [tick, if_neg h]

/-- A minute that has had its tick gets no other. -/
theorem tick_again (jobs : List CronJob) (again : Nat → JobRun) (lastMinute : JsString)
    {later : Date} (h : minuteKey later = minuteKey date) :
    (tick jobs again (tick jobs runJob lastMinute date).lastMinute later).fired = [] := by
  have hkey : (tick jobs runJob lastMinute date).lastMinute = minuteKey date := by
    rw [tick]
    split
    · next heq => exact heq.symm
    · rfl
  rw [hkey, tick, if_pos h]

/-- A tick of a minute calls `runJob` once for each due job, in order, exactly when no due job
but the last is rejected; what it leaves out no later tick of the minute makes up for. -/
theorem tick_calls_iff (jobs : List CronJob) :
    ((runCronTick jobs date runJob).1.map Firing.job = dueJobs jobs date ↔
      ∀ i, i + 1 < (dueJobs jobs date).length → (runJob i).failure = none) ∧
    ∀ lastMinute, minuteKey date ≠ lastMinute →
      ((tick jobs runJob lastMinute date).fired.map Firing.job = dueJobs jobs date ↔
        ∀ i, i + 1 < (dueJobs jobs date).length → (runJob i).failure = none) ∧
      ∀ again later, minuteKey later = minuteKey date →
        (tick jobs again (tick jobs runJob lastMinute date).lastMinute later).fired = [] := by
  have hcalls : (runCronTick jobs date runJob).1.map Firing.job = dueJobs jobs date ↔
      ∀ i, i + 1 < (dueJobs jobs date).length → (runJob i).failure = none := by
    rw [runCronTick, runJobs_jobs_iff]
    simp only [Nat.zero_add]
  refine ⟨hcalls, ?_⟩
  intro lastMinute hnew
  refine ⟨?_, ?_⟩
  · rw [tick_new runJob date hnew]
    exact hcalls
  · intro again later hlater
    exact tick_again runJob date jobs again lastMinute hlater

end ticks

def failingFirst (i : Nat) : JobRun := ⟨0, if i = 0 then some (js "no") else none⟩

/-- Of two jobs that are due the second is lost with the first one's failure. -/
theorem second_job_lost :
    dueJobs [everyMinute, everyMinute] (newYear 0) = [everyMinute, everyMinute] ∧
      (runCronTick [everyMinute, everyMinute] (newYear 0) failingFirst).1.map Firing.job =
        [everyMinute] ∧
      ¬ ∀ jobs date runJob,
        (runCronTick jobs date runJob).1.map Firing.job = dueJobs jobs date := by
  have hdue : dueJobs [everyMinute, everyMinute] (newYear 0) = [everyMinute, everyMinute] := by
    decide +kernel
  have hcalls : (runCronTick [everyMinute, everyMinute] (newYear 0) failingFirst).1.map
      Firing.job = [everyMinute] := by
    rw [runCronTick, hdue]
    rfl
  refine ⟨hdue, hcalls, ?_⟩
  intro h
  have hboth := h [everyMinute, everyMinute] (newYear 0) failingFirst
  rw [hdue, hcalls] at hboth
  exact absurd (congrArg List.length hboth) (by decide)

end Solarcido.Cron
