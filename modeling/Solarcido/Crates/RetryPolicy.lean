import Mathlib.Order.Fin.Basic
import Mathlib.Order.MinMax
import Solarcido.Crates.Retries

namespace Solarcido.Crates

open RustText Attempts

section delays

theorem jitterForBase_lt (base : Duration) (weather : Weather) :
    (jitterForBase base weather).val < 2 ^ 64 := by
  simp only [jitterForBase]
  split
  · exact Nat.two_pow_pos 64
  · exact UInt64.toNat_lt _

/-- A base that the jitter could carry over the end is so long that the jitter does not depend on
it. -/
theorem jitter_fits_iff (base : Duration) (weather : Weather) :
    base.val + (jitterForBase base weather).val < 2 ^ 64 * 10 ^ 9 ↔
      base.val + weather.mixed.toNat % (2 ^ 64 - 1) < 2 ^ 64 * 10 ^ 9 := by
  by_cases hbase : base.val < 2 ^ 64 - 2
  · have hjitter := jitterForBase_lt base weather
    have hmixed : weather.mixed.toNat % (2 ^ 64 - 1) < 2 ^ 64 - 1 := Nat.mod_lt _ (by decide)
    constructor
    · intro _
      omega
    · intro _
      omega
  · have hmin : min (min base.val (2 ^ 64 - 1) + 1) (2 ^ 64 - 1) = 2 ^ 64 - 1 := by omega
    have hne : min base.val (2 ^ 64 - 1) ≠ 0 := by omega
    have hjitter : (jitterForBase base weather).val = weather.mixed.toNat % (2 ^ 64 - 1) := by
      simp only [jitterForBase, if_neg hne, hmin, Duration.fromNanos, UInt64.toNat_mod]
      rfl
    rw [hjitter]

variable (s : SolarClient)

/-- The base delay behind an attempt: doubled from attempt to attempt, up to a bound. -/
def SolarClient.exponentialDelay (n : Nat) : Nat :=
  min (s.initialBackoff.val * 2 ^ (n - 1)) s.maxBackoff.val

theorem exponentialDelay_monotone : Monotone s.exponentialDelay := by
  intro m n hmn
  have hpow : 2 ^ (m - 1) ≤ 2 ^ (n - 1) := Nat.pow_le_pow_right (by decide) (by omega)
  exact min_le_min (Nat.mul_le_mul_left _ hpow) le_rfl

theorem checkedShl_one (bits : U32) (h : bits.val < 32) :
    ∃ multiplier, checkedShl 1 bits = some multiplier ∧ multiplier.val = 2 ^ bits.val := by
  have hlt : 2 ^ bits.val < 2 ^ 32 := Nat.pow_lt_pow_right (by decide) h
  refine ⟨_, if_pos h, ?_⟩
  have hone : (1 : U32).val = 1 := rfl
  simp only [hone, Nat.one_mul]
  exact Nat.mod_eq_of_lt hlt

theorem backoff_ok {attempt : U32} (h : attempt.val ≤ 32) :
    ∃ base, s.backoff attempt = .ok base ∧ base.val = s.exponentialDelay attempt.val := by
  obtain ⟨multiplier, hshl, hmultiplier⟩ :=
    checkedShl_one ⟨attempt.val - 1, by omega⟩ (by simp only; omega)
  rw [SolarClient.backoff, hshl, SolarClient.exponentialDelay]
  by_cases hmul : s.initialBackoff.val * multiplier.val < 2 ^ 64 * 10 ^ 9
  · refine ⟨_, rfl, ?_⟩
    rw [Duration.checkedMul, dif_pos hmul]
    have hval : s.initialBackoff.val * multiplier.val =
        s.initialBackoff.val * 2 ^ (attempt.val - 1) := congrArg _ hmultiplier
    simp only [Option.map_some, Option.getD_some, Fin.coe_min, hval]
  · refine ⟨_, rfl, ?_⟩
    rw [Duration.checkedMul, dif_neg hmul]
    rw [hmultiplier] at hmul
    have := s.maxBackoff.isLt
    exact (Nat.min_eq_right (by simp only at hmul; omega)).symm

theorem backoff_overflow {attempt : U32} (h : 32 < attempt.val) :
    s.backoff attempt = .error (.backoffOverflow attempt s.initialBackoff) := by
  have hshl : checkedShl 1 ⟨attempt.val - 1, by omega⟩ = none := if_neg (by simp only; omega)
  rw [SolarClient.backoff, hshl]

end delays

section passes

variable (serde : SerdeJson) (floatText : UInt64 → RustString) (request : MessageRequest)
  (s : SolarClient) (weather : Nat → Weather)

def Retryable (result : Except SendError HttpResponse) : Prop :=
  ∃ e, result = .error e ∧ e.isRetryable = true

def SendEnd.IsPanic : SendEnd → Prop
  | .panicked _ => True
  | _ => False

def SendEnd.IsOverflow : SendEnd → Prop
  | .panicked _ => True
  | .returned (.error (.backoffOverflow _ _)) => True
  | _ => False

/-- The errors an attempt itself ends with. -/
def SendError.IsOfAttempt : SendError → Prop
  | .retriesExhausted _ _ => False
  | .backoffOverflow _ _ => False
  | _ => True

theorem attempted_error {w : Weather} {e : SendError}
    (h : attempted serde floatText request w = .error e) : e.IsOfAttempt := by
  rw [attempted, sendRaw, checkRequestBodySize] at h
  split at h
  · cases h
    trivial
  · cases hpost : w.post with
    | error _ =>
      rw [hpost] at h
      cases h
      trivial
    | ok response =>
      simp only [hpost, bind, Except.bind, Except.mapError, expectSuccess] at h
      split at h
      · cases h
      · cases h
        trivial

/-- No sum overflows behind the `n`th attempt, if that fails so that it may be repeated. -/
structure SolarClient.SumsFit (n : Nat) : Prop where
  countable : s.maxRetries.val + 1 < 2 ^ 32
  addable : n ≤ s.maxRetries.val → n ≤ 32 →
    s.exponentialDelay n + (weather n).mixed.toNat % (2 ^ 64 - 1) < 2 ^ 64 * 10 ^ 9

/-- The passes by their numbers. -/
def SolarClient.passAt (n : Nat) : Except SendEnd Backoff :=
  if h : n < 2 ^ 32 then s.pass serde floatText request weather ⟨n, h⟩
  else .error (.panicked ⟨str "attempt to add with overflow"⟩)

variable {serde floatText request s weather}

theorem jitteredBackoff_ok (attempt : U32) {w : Weather}
    (hshift : attempt.val ≤ 32)
    (hadd : s.exponentialDelay attempt.val + w.mixed.toNat % (2 ^ 64 - 1) < 2 ^ 64 * 10 ^ 9) :
    ∃ b, s.jitteredBackoff w attempt = .ok b ∧ b.base.val = s.exponentialDelay attempt.val := by
  obtain ⟨base, hbase, hval⟩ := backoff_ok s hshift
  rw [← hval, ← jitter_fits_iff] at hadd
  have hsum : Duration.add base (jitterForBase base w) = .ok ⟨_, hadd⟩ := dif_pos hadd
  refine ⟨⟨base, ⟨_, hadd⟩⟩, ?_, hval⟩
  rw [SolarClient.jitteredBackoff, hbase]
  simp only [bind, Except.bind, Except.mapError, hsum]

theorem jitteredBackoff_panic {attempt : U32} {w : Weather} (hshift : attempt.val ≤ 32)
    (hadd : ¬ s.exponentialDelay attempt.val + w.mixed.toNat % (2 ^ 64 - 1) < 2 ^ 64 * 10 ^ 9) :
    ∃ p, s.jitteredBackoff w attempt = .error (.panicked p) := by
  obtain ⟨base, hbase, hval⟩ := backoff_ok s hshift
  rw [← hval, ← jitter_fits_iff] at hadd
  have hsum : Duration.add base (jitterForBase base w) =
      .error ⟨str "overflow when adding durations"⟩ := dif_neg hadd
  refine ⟨⟨str "overflow when adding durations"⟩, ?_⟩
  rw [SolarClient.jitteredBackoff, hbase]
  simp only [bind, Except.bind, Except.mapError, hsum]

theorem jitteredBackoff_overflow {attempt : U32} {w : Weather} (h : 32 < attempt.val) :
    s.jitteredBackoff w attempt =
      .error (.returned (.error (.backoffOverflow attempt s.initialBackoff))) := by
  rw [SolarClient.jitteredBackoff, backoff_overflow s h]
  rfl

theorem passAt_returned {n : Nat} (hn : n < 2 ^ 32)
    (h : ¬ Retryable (attempted serde floatText request (weather n))) :
    s.passAt serde floatText request weather n =
      .error (.returned (attempted serde floatText request (weather n))) := by
  rw [SolarClient.passAt, dif_pos hn, SolarClient.pass]
  cases hresult : attempted serde floatText request (weather n) with
  | ok response => rfl
  | error e =>
    have hretry : ¬ e.isRetryable = true := fun hretry => h ⟨e, hresult, hretry⟩
    simp only [if_neg hretry]

theorem passAt_retryable {n : Nat} {e : SendError} (hn : n ≤ s.maxRetries.val + 1)
    (hresult : attempted serde floatText request (weather n) = .error e)
    (hretry : e.isRetryable = true) (hcount : s.maxRetries.val + 1 < 2 ^ 32) :
    s.passAt serde floatText request weather n =
      if s.maxRetries.val < n then
        .error (.returned (.error (.retriesExhausted ⟨n, by omega⟩ e)))
      else s.jitteredBackoff (weather n) ⟨n, by omega⟩ := by
  have hlimit : checkedAdd s.maxRetries 1 = .ok ⟨s.maxRetries.val + 1, hcount⟩ := dif_pos hcount
  rw [SolarClient.passAt, dif_pos (by omega), SolarClient.pass]
  simp only [hresult, if_pos hretry, hlimit]
  exact if_pos hn

theorem passAt_uncountable {n : Nat} (hn : n < 2 ^ 32)
    (h : Retryable (attempted serde floatText request (weather n)))
    (hcount : ¬ s.maxRetries.val + 1 < 2 ^ 32) :
    ∃ p, s.passAt serde floatText request weather n = .error (.panicked p) := by
  obtain ⟨e, hresult, hretry⟩ := h
  have hlimit : checkedAdd s.maxRetries 1 = .error ⟨str "attempt to add with overflow"⟩ :=
    dif_neg hcount
  refine ⟨⟨str "attempt to add with overflow"⟩, ?_⟩
  rw [SolarClient.passAt, dif_pos hn, SolarClient.pass]
  simp only [hresult, if_pos hretry, hlimit]
  rfl

theorem passAt_sleeps {n : Nat} (hn : n ≤ s.maxRetries.val) (hshift : n ≤ 32)
    (h : Retryable (attempted serde floatText request (weather n)))
    (hfit : s.SumsFit weather n) :
    ∃ b, s.passAt serde floatText request weather n = .ok b := by
  obtain ⟨e, hresult, hretry⟩ := h
  rw [passAt_retryable (by omega) hresult hretry hfit.countable, if_neg (by omega)]
  obtain ⟨b, hb, -⟩ := jitteredBackoff_ok ⟨n, by omega⟩ hshift (hfit.addable hn hshift)
  exact ⟨b, hb⟩

theorem passAt_panic {n : Nat} (hn : n ≤ s.maxRetries.val + 1) (hlt : n < 2 ^ 32)
    (h : Retryable (attempted serde floatText request (weather n)))
    (hfit : ¬ s.SumsFit weather n) :
    ∃ p, s.passAt serde floatText request weather n = .error (.panicked p) := by
  by_cases hcount : s.maxRetries.val + 1 < 2 ^ 32
  · have hadd : ¬ (n ≤ s.maxRetries.val → n ≤ 32 →
        s.exponentialDelay n + (weather n).mixed.toNat % (2 ^ 64 - 1) < 2 ^ 64 * 10 ^ 9) :=
      fun hadd => hfit ⟨hcount, hadd⟩
    rw [Classical.not_imp, Classical.not_imp] at hadd
    obtain ⟨hle, hshift, hadd⟩ := hadd
    obtain ⟨e, hresult, hretry⟩ := h
    rw [passAt_retryable hn hresult hretry hcount, if_neg (by omega)]
    exact jitteredBackoff_panic hshift hadd
  · exact passAt_uncountable hlt h hcount

theorem jitteredBackoff_base {attempt : U32} {w : Weather} {b : Backoff}
    (h : s.jitteredBackoff w attempt = .ok b) : b.base.val = s.exponentialDelay attempt.val := by
  by_cases hshift : attempt.val ≤ 32
  · obtain ⟨base, hbase, hval⟩ := backoff_ok s hshift
    rw [SolarClient.jitteredBackoff, hbase] at h
    simp only [bind, Except.bind, Except.mapError] at h
    split at h
    · cases h
    · cases h
      exact hval
  · rw [jitteredBackoff_overflow (by omega)] at h
    cases h

theorem passAt_base {n : Nat} {b : Backoff}
    (h : s.passAt serde floatText request weather n = .ok b) :
    b.base.val = s.exponentialDelay n := by
  rw [SolarClient.passAt] at h
  split at h
  · rw [SolarClient.pass] at h
    split at h
    · cases h
    · split at h
      · cases hlimit : checkedAdd s.maxRetries 1 with
        | error p =>
          rw [hlimit] at h
          cases h
        | ok limit =>
          simp only [hlimit, bind, Except.bind, Except.mapError] at h
          split at h
          · split at h
            · cases h
            · exact jitteredBackoff_base h
          · cases h
      · cases h
  · cases h

end passes

section runs

variable (serde : SerdeJson) (floatText : UInt64 → RustString) (request : MessageRequest)
  (s : SolarClient) (weather : Nat → Weather)

/-- How the attempts end, each of them if it is made. -/
def outcomes (n : Nat) : Except SendError HttpResponse :=
  attempted serde floatText request (weather n)

def FailsThrough (outcome : Nat → Except SendError HttpResponse) (n : Nat) : Prop :=
  ∀ k, 1 ≤ k → k ≤ n → Retryable (outcome k)

/-- What is promised of a request that is sent with retries: how many attempts there may be, and
how the loop ends when all of them have failed, are left open. -/
structure SolarClient.RetriesRightly (tries : Nat) (GivesUp Breaks : SendEnd → Prop)
    (outcome : Nat → Except SendError HttpResponse) (sent : Sent) : Prop where
  bounded : sent.made ≤ tries
  returned : ∀ n, 1 ≤ n → n ≤ tries → FailsThrough outcome (n - 1) → ¬ Retryable (outcome n) →
    sent.made = n ∧ sent.sendEnd = .returned (outcome n)
  givesUp : GivesUp sent.sendEnd ↔ FailsThrough outcome tries
  growing : (sent.sleeps.map Backoff.base).Pairwise (· ≤ ·)
  capped : ∀ sleep ∈ sent.sleeps, sleep.base ≤ s.maxBackoff
  unbroken : ¬ Breaks sent.sendEnd

/-- All retries have been used up. -/
def SolarClient.Exhausts (outcome : Nat → Except SendError HttpResponse) (sendEnd : SendEnd) :
    Prop :=
  ∃ attempts e, attempts.val = s.maxRetries.val + 1 ∧ outcome (s.maxRetries.val + 1) = .error e ∧
    sendEnd = .returned (.error (.retriesExhausted attempts e))

/-- How many attempts there are delays for. -/
def SolarClient.tries : Nat := min (s.maxRetries.val + 1) 33

/-- All retries have been used up, or all delays. -/
def SolarClient.RunsOut (outcome : Nat → Except SendError HttpResponse) (sendEnd : SendEnd) :
    Prop :=
  if s.maxRetries.val ≤ 32 then s.Exhausts outcome sendEnd
  else sendEnd = .returned (.error (.backoffOverflow 33 s.initialBackoff))

variable {s} in
theorem not_isPanic_of_runsOut {outcome : Nat → Except SendError HttpResponse} {sendEnd : SendEnd}
    (h : s.RunsOut outcome sendEnd) : ¬ sendEnd.IsPanic := by
  rw [SolarClient.RunsOut] at h
  split at h
  · obtain ⟨attempts, e, -, -, rfl⟩ := h
    exact id
  · rw [h]
    exact id

theorem not_runsOut_returned (n : Nat) : ¬ s.RunsOut (outcomes serde floatText request weather)
    (.returned (outcomes serde floatText request weather n)) := by
  intro h
  rw [SolarClient.RunsOut] at h
  split at h
  · obtain ⟨attempts, e, -, -, hreturned⟩ := h
    injection hreturned with hresult
    exact attempted_error serde floatText request hresult
  · injection h with hresult
    exact attempted_error serde floatText request hresult

theorem passAt_next {attempts next : U32} (h : checkedAdd attempts 1 = .ok next) :
    s.passAt serde floatText request weather (attempts.val + 1) =
      s.pass serde floatText request weather next := by
  have hval : next.val = attempts.val + 1 := val_of_checkedAdd h
  have hlt := next.isLt
  rw [SolarClient.passAt, dif_pos (by omega)]
  exact congrArg _ (Fin.ext hval.symm)

theorem passAt_overflow {attempts : U32} {p : Panic} (h : checkedAdd attempts 1 = .error p) :
    s.passAt serde floatText request weather (attempts.val + 1) = .error (.panicked p) := by
  rw [checkedAdd] at h
  split at h
  · cases h
  · next hlt =>
    cases h
    exact dif_neg hlt

theorem sendFrom_leaves (attempts : U32) :
    Leaves (s.passAt serde floatText request weather) (attempts.val + 1)
      (s.sendFrom serde floatText request weather attempts).sleeps
      (s.sendFrom serde floatText request weather attempts).sendEnd := by
  fun_induction SolarClient.sendFrom serde floatText request s weather attempts with
  | case1 attempts p h => exact .now (passAt_overflow serde floatText request s weather h)
  | case2 attempts next h _ sendEnd hpass =>
    exact .now ((passAt_next serde floatText request s weather h).trans hpass)
  | case3 attempts next h hnext sleep hpass rest ih =>
    rw [hnext] at ih
    exact .later ((passAt_next serde floatText request s weather h).trans hpass) ih

theorem sendWithRetry_leaves :
    Leaves (s.passAt serde floatText request weather) 1
      (s.sendWithRetry serde floatText request weather).sleeps
      (s.sendWithRetry serde floatText request weather).sendEnd :=
  sendFrom_leaves serde floatText request s weather 0

/-- Each sleep follows an attempt, and one more attempt follows the last of them. -/
theorem sendFrom_made (attempts : U32)
    (h : ¬ (s.sendFrom serde floatText request weather attempts).sendEnd.IsPanic) :
    (s.sendFrom serde floatText request weather attempts).made =
      (s.sendFrom serde floatText request weather attempts).sleeps.length + 1 := by
  fun_induction SolarClient.sendFrom serde floatText request s weather attempts with
  | case1 attempts p _ => exact absurd trivial h
  | case2 => rfl
  | case3 attempts next _ _ sleep _ rest ih => exact congrArg (· + 1) (ih h)

theorem failsThrough_of_le {outcome : Nat → Except SendError HttpResponse} {m n : Nat}
    (h : FailsThrough outcome n) (hmn : m ≤ n) : FailsThrough outcome m :=
  fun k hk hkm => h k hk (hkm.trans hmn)

/-- Attempts that do not all fail so have a first one that does not. -/
theorem exists_first {outcome : Nat → Except SendError HttpResponse} {m : Nat}
    (h : ¬ FailsThrough outcome m) :
    ∃ n, 1 ≤ n ∧ n ≤ m ∧ FailsThrough outcome (n - 1) ∧ ¬ Retryable (outcome n) := by
  induction m with
  | zero => exact absurd (fun k hk hk0 => absurd hk (by omega)) h
  | succ m ih =>
    by_cases hm : FailsThrough outcome m
    · refine ⟨m + 1, by omega, le_rfl, hm, fun hlast => h fun k hk hkm => ?_⟩
      obtain hlt | rfl := Nat.lt_or_eq_of_le hkm
      · exact hm k hk (by omega)
      · exact hlast
    · obtain ⟨n, hpos, hn, hbefore, hnot⟩ := ih hm
      exact ⟨n, hpos, by omega, hbefore, hnot⟩

variable {serde floatText request s weather}

section fitting

variable (hfit : ∀ n, 1 ≤ n → n ≤ s.tries →
  FailsThrough (outcomes serde floatText request weather) n → s.SumsFit weather n)

include hfit

theorem passAt_before {m : Nat} (hm : m < s.tries)
    (h : FailsThrough (outcomes serde floatText request weather) m) :
    ∀ k, 1 ≤ k → k < m + 1 → ∃ b, s.passAt serde floatText request weather k = .ok b := by
  intro k hk hkm
  have hfails := failsThrough_of_le h (Nat.le_of_lt_succ hkm)
  have hsums := hfit k hk (by omega) hfails
  rw [SolarClient.tries] at hm
  exact passAt_sleeps (by omega) (by omega) (hfails k hk le_rfl) hsums

/-- The first attempt that does not fail so is the last one. -/
theorem sendWithRetry_first {n : Nat} (hpos : 1 ≤ n) (hn : n ≤ s.tries)
    (hbefore : FailsThrough (outcomes serde floatText request weather) (n - 1))
    (hnot : ¬ Retryable (outcomes serde floatText request weather n)) :
    (s.sendWithRetry serde floatText request weather).sleeps.length + 1 = n ∧
      (s.sendWithRetry serde floatText request weather).sendEnd =
        .returned (outcomes serde floatText request weather n) := by
  have hlt : n < 2 ^ 32 := by
    rw [SolarClient.tries] at hn
    omega
  have hends := (sendWithRetry_leaves serde floatText request s weather).ends_at hpos
    (fun k hk hkn => passAt_before hfit (m := n - 1) (by omega) hbefore k hk (by omega))
    (passAt_returned hlt hnot)
  refine ⟨?_, hends.2⟩
  rw [Nat.add_comm]
  exact hends.1

theorem sendWithRetry_last
    (hall : FailsThrough (outcomes serde floatText request weather) s.tries) :
    (s.sendWithRetry serde floatText request weather).sleeps.length + 1 = s.tries ∧
      s.RunsOut (outcomes serde floatText request weather)
        (s.sendWithRetry serde floatText request weather).sendEnd := by
  have hpos : 1 ≤ s.tries := by
    rw [SolarClient.tries]
    omega
  have hcount := (hfit _ hpos le_rfl hall).countable
  obtain ⟨e, hresult, hretry⟩ := hall _ hpos le_rfl
  have hpass := passAt_retryable (Nat.min_le_left _ _) hresult hretry hcount
  have hbefore := passAt_before hfit (m := s.tries - 1) (by omega)
    (failsThrough_of_le hall (by omega))
  rw [Nat.sub_add_cancel hpos] at hbefore
  rw [SolarClient.RunsOut]
  by_cases hmax : s.maxRetries.val ≤ 32
  · have htries : s.tries = s.maxRetries.val + 1 := Nat.min_eq_left (by omega)
    rw [if_pos (by omega)] at hpass
    obtain ⟨hlength, hend⟩ :=
      (sendWithRetry_leaves serde floatText request s weather).ends_at hpos hbefore hpass
    rw [if_pos hmax]
    exact ⟨by omega, _, e, htries, htries ▸ hresult, hend⟩
  · have htries : s.tries = 33 := Nat.min_eq_right (by omega)
    rw [if_neg (by omega), jitteredBackoff_overflow (by simp only; omega)] at hpass
    obtain ⟨hlength, hend⟩ :=
      (sendWithRetry_leaves serde floatText request s weather).ends_at hpos hbefore hpass
    rw [if_neg hmax, hend]
    refine ⟨by omega, ?_⟩
    exact congrArg (fun n => SendEnd.returned (.error (.backoffOverflow n s.initialBackoff)))
      (Fin.ext htries)

theorem retriesRightly_of_sumsFit :
    s.RetriesRightly s.tries (s.RunsOut (outcomes serde floatText request weather))
      SendEnd.IsPanic (outcomes serde floatText request weather)
      (s.sendWithRetry serde floatText request weather) := by
  have hleaves := sendWithRetry_leaves serde floatText request s weather
  have hunbroken : ¬ (s.sendWithRetry serde floatText request weather).sendEnd.IsPanic := by
    by_cases hall : FailsThrough (outcomes serde floatText request weather) s.tries
    · exact not_isPanic_of_runsOut (sendWithRetry_last hfit hall).2
    · obtain ⟨n, hpos, hn, hbefore, hnot⟩ := exists_first hall
      rw [(sendWithRetry_first hfit hpos hn hbefore hnot).2]
      exact id
  have hmade := sendFrom_made serde floatText request s weather 0 hunbroken
  refine ⟨?_, ?_, ⟨?_, ?_⟩, ?_, ?_, hunbroken⟩
  · by_cases hall : FailsThrough (outcomes serde floatText request weather) s.tries
    · exact (hmade.trans (sendWithRetry_last hfit hall).1).le
    · obtain ⟨n, hpos, hn, hbefore, hnot⟩ := exists_first hall
      exact (hmade.trans (sendWithRetry_first hfit hpos hn hbefore hnot).1).le.trans hn
  · intro n hpos hn hbefore hnot
    obtain ⟨hlength, hend⟩ := sendWithRetry_first hfit hpos hn hbefore hnot
    exact ⟨hmade.trans hlength, hend⟩
  · intro hout
    by_contra hall
    obtain ⟨n, hpos, hn, hbefore, hnot⟩ := exists_first hall
    rw [(sendWithRetry_first hfit hpos hn hbefore hnot).2] at hout
    exact not_runsOut_returned serde floatText request s weather n hout
  · intro hall
    exact (sendWithRetry_last hfit hall).2
  · rw [List.pairwise_map]
    exact hleaves.pairwise_le (exponentialDelay_monotone s) fun k b => passAt_base
  · intro sleep hsleep
    obtain ⟨i, hi, rfl⟩ := List.getElem_of_mem hsleep
    have hbase := passAt_base (hleaves.passed i hi)
    exact Fin.le_def.mpr (hbase.trans_le (Nat.min_le_right _ _))

end fitting

/-- The attempt whose sums do not fit ends the loop with a panic. -/
theorem sendWithRetry_panic {n : Nat} (hpos : 1 ≤ n) (hn : n ≤ s.tries)
    (hfails : FailsThrough (outcomes serde floatText request weather) n)
    (hbefore : ∀ k, 1 ≤ k → k < n → s.SumsFit weather k) (hfit : ¬ s.SumsFit weather n) :
    (s.sendWithRetry serde floatText request weather).sendEnd.IsPanic := by
  rw [SolarClient.tries] at hn
  obtain ⟨p, hp⟩ := passAt_panic (by omega) (by omega) (hfails n hpos le_rfl) hfit
  have hends := (sendWithRetry_leaves serde floatText request s weather).ends_at hpos
    (fun k hk hkn =>
      passAt_sleeps (by omega) (by omega) (hfails k hk hkn.le) (hbefore k hk hkn)) hp
  rw [hends.2]
  trivial

variable (serde floatText request s weather)

/-- The retries run as designed, until they or the delays are used up, if and only if no sum
overflows on the way. -/
theorem SolarClient.retriesRightly_iff :
    s.RetriesRightly s.tries (s.RunsOut (outcomes serde floatText request weather))
        SendEnd.IsPanic (outcomes serde floatText request weather)
        (s.sendWithRetry serde floatText request weather) ↔
      ∀ n, 1 ≤ n → n ≤ s.tries →
        FailsThrough (outcomes serde floatText request weather) n → s.SumsFit weather n := by
  constructor
  · intro h n
    induction n using Nat.strong_induction_on with
    | _ n ih =>
      intro hpos hn hfails
      by_contra hfit
      apply h.unbroken
      refine sendWithRetry_panic hpos hn hfails (fun k hk hkn => ?_) hfit
      exact ih k hkn hk (by omega) (failsThrough_of_le hfails hkn.le)
  · intro hfit
    exact retriesRightly_of_sumsFit hfit

end runs

section outage

/-- A reader that reads nothing. -/
def blindReader : SerdeJson where
  fromStr _ := none
  fromStr_blank _ _ := rfl

def shortRequest : MessageRequest :=
  ⟨str "solar-pro3", 1, [], none, none, false, none, none⟩

/-- No attempt connects. -/
def outage (_ : Nat) : Weather := ⟨.error ⟨str "connection refused", true, false, false⟩, 0, 0⟩

def patientClient : SolarClient := SolarClient.new.withRetryPolicy 33 (.fromSecs 1) (.fromSecs 128)

theorem shortRequest_fits : checkRequestBodySize (fun _ => []) shortRequest = .ok () := by
  rw [checkRequestBodySize]
  exact if_neg (by decide)

theorem outage_fails (n : Nat) :
    FailsThrough (outcomes blindReader (fun _ => []) shortRequest outage) n := by
  intro k _ _
  refine ⟨.http (str "connection refused") true false false, ?_, rfl⟩
  rw [outcomes, attempted, sendRaw, shortRequest_fits]
  rfl

theorem outage_sumsFit (n : Nat) : patientClient.SumsFit outage n := by
  refine ⟨by decide, fun _ _ => ?_⟩
  have hdelay : patientClient.exponentialDelay n ≤ 128 * 10 ^ 9 := Nat.min_le_right _ _
  have hmixed : (outage n).mixed.toNat % (2 ^ 64 - 1) < 2 ^ 64 - 1 := Nat.mod_lt _ (by decide)
  omega

/-- The delays are used up before the retries. -/
theorem SolarClient.longOutage_overflows :
    ¬ patientClient.RetriesRightly (patientClient.maxRetries.val + 1)
      (patientClient.Exhausts (outcomes blindReader (fun _ => []) shortRequest outage))
      SendEnd.IsOverflow (outcomes blindReader (fun _ => []) shortRequest outage)
      (patientClient.sendWithRetry blindReader (fun _ => []) shortRequest outage) := by
  intro h
  have hout := (sendWithRetry_last (fun n _ _ _ => outage_sumsFit n) (outage_fails _)).2
  rw [SolarClient.RunsOut, if_neg (by decide)] at hout
  apply h.unbroken
  rw [hout]
  trivial

end outage

end Solarcido.Crates
