import Mathlib.Logic.Function.Basic
import Solarcido.Lib.InsertionMap
import Solarcido.Lib.Serial

namespace Solarcido.Requests

variable {K M E X : Type} [DecidableEq K]

/-- How the promise of a request is settled: with a message or with an error. -/
inductive Outcome (M E : Type) where
  | resolved (m : M)
  | rejected (e : E)

/-- What happens to a table of requests: a new one (with the error its timer rejects it with, if
it has one, what it makes of an error of its send, and the error of a send that throws at once), a
message of the peer, a timer, the end of a send, the end of the connection. -/
inductive Event (M E X : Type) where
  | issue (timer : Option E) (onSendError : X → E) (failure : Option E)
  | message (m : M)
  | timeout (k : Nat)
  | sendFailed (k : Nat) (x : X)
  | sent (k : Nat)
  | close (e : E)

/-- The requests of one side of a connection, numbered in the order they were issued. A key of
`pending` is there to find the request a message is for. -/
structure Table (K M E X : Type) where
  issued : Nat
  pending : InsertionMap K Nat
  timers : List (Nat × E)
  sends : List (Nat × (X → E))
  promises : Nat → Option (Outcome M E)

namespace Table

-- The key of each request, and the key a message is looked up under.
variable (key : Nat → K) (accept : M → Option K)

def new : Table K M E X := ⟨0, .empty, [], [], fun _ => none⟩

/-- The first settlement of a promise counts. -/
def settle (k : Nat) (o : Outcome M E) (t : Table K M E X) : Table K M E X :=
  { t with promises := fun j => if j = k then (t.promises j).or (some o) else t.promises j }

def clearTimer (k : Nat) (t : Table K M E X) : Table K M E X :=
  { t with timers := t.timers.filter fun timer => timer.1 ≠ k }

def endSend (k : Nat) (t : Table K M E X) : Table K M E X :=
  { t with sends := t.sends.filter fun send => send.1 ≠ k }

def forget (κ : K) (t : Table K M E X) : Table K M E X := { t with pending := t.pending.erase κ }

def issue (timer : Option E) (onSendError : X → E) (failure : Option E) (t : Table K M E X) :
    Table K M E X where
  issued := t.issued + 1
  pending := t.pending.set (key t.issued) t.issued
  timers := t.timers ++ (timer.map fun e => (t.issued, e)).toList
  sends := if failure.isSome then t.sends else t.sends ++ [(t.issued, onSendError)]
  promises := Function.update t.promises t.issued (failure.map .rejected)

def deliver (m : M) (t : Table K M E X) : Table K M E X :=
  match accept m with
  | none => t
  | some κ =>
    match t.pending.get κ with
    | none => t
    | some k => settle k (.resolved m) (clearTimer k (forget κ t))

def fire (k : Nat) (t : Table K M E X) : Table K M E X :=
  match t.timers.find? fun timer => timer.1 = k with
  | some (_, e) => settle k (.rejected e) (forget (key k) (clearTimer k t))
  | none => t

def failSend (k : Nat) (x : X) (t : Table K M E X) : Table K M E X :=
  match t.sends.find? fun send => send.1 = k with
  | some (_, onSendError) =>
    settle k (.rejected (onSendError x)) (clearTimer k (forget (key k) (endSend k t)))
  | none => t

/-- Reject what is pending, in the order of the map, and empty it. -/
def closeAll (e : E) (t : Table K M E X) : Table K M E X :=
  { t.pending.values.foldl (fun t k => settle k (.rejected e) (clearTimer k t)) t with
    pending := .empty }

def step (t : Table K M E X) : Event M E X → Table K M E X
  | .issue timer onSendError failure => issue key timer onSendError failure t
  | .message m => deliver accept m t
  | .timeout k => fire key k t
  | .sendFailed k x => failSend key k x t
  | .sent k => endSend k t
  | .close e => closeAll e t

/-- A timer goes off only while it is set, and a send fails only while it is under way. -/
def Possible (t : Table K M E X) : Event M E X → Prop
  | .timeout k => ∃ e, (k, e) ∈ t.timers
  | .sendFailed k _ => ∃ onSendError, (k, onSendError) ∈ t.sends
  | _ => True

def after (events : List (Event M E X)) : Table K M E X := Serial.runAll (step key accept) new events

/-- What an event settles a request with that was issued before, its timer's error and what it
makes of an error of its send given, if only good messages do. -/
def settles (good : M → Bool) (timer : Option E) (onSendError : X → E) (k : Nat) :
    Event M E X → Option (Outcome M E)
  | .message m => if good m ∧ accept m = some (key k) then some (.resolved m) else none
  | .timeout j => if j = k then timer.map .rejected else none
  | .sendFailed j x => if j = k then some (.rejected (onSendError x)) else none
  | .close e => some (.rejected e)
  | _ => none

def isIssue : Event M E X → Bool
  | .issue _ _ _ => true
  | _ => false

/-- How many requests have been issued. -/
def issues (events : List (Event M E X)) : Nat := events.countP isIssue

section invariant

/-- What holds between the parts of a table: an entry stands for the request it is the key of, and
a request that is not settled has its entry. -/
structure Consistent (t : Table K M E X) : Prop where
  entry : ∀ κ k, t.pending.get κ = some k → k < t.issued ∧ κ = key k
  waiting : ∀ k, k < t.issued → t.promises k = none → t.pending.get (key k) = some k
  timers : ∀ timer ∈ t.timers, timer.1 < t.issued
  sends : ∀ send ∈ t.sends, send.1 < t.issued
  unissued : ∀ k, t.issued ≤ k → t.promises k = none

variable {key accept}

theorem new_consistent : Consistent key (new : Table K M E X) := by
  refine ⟨?_, ?_, ?_, ?_, fun _ _ => rfl⟩
  · intro κ k h
    simp [new] at h
  · intro k hk
    simp [new] at hk
  · intro timer h
    simp [new] at h
  · intro send h
    simp [new] at h

/-- Take a request out of the table and settle it. -/
theorem settled_consistent {t t' : Table K M E X} (hkey : Function.Injective key)
    (h : Consistent key t) (k : Nat) (o : Outcome M E) (hk : k < t.issued)
    (hissued : t'.issued = t.issued) (hpending : t'.pending = t.pending.erase (key k))
    (htimers : ∀ timer ∈ t'.timers, timer ∈ t.timers) (hsends : ∀ send ∈ t'.sends, send ∈ t.sends)
    (hpromises : t'.promises = t.promises) : Consistent key (settle k o t') := by
  refine ⟨?_, ?_, ?_, ?_, ?_⟩
  · intro κ j hget
    simp only [settle, hpending, hissued] at hget ⊢
    by_cases hκ : κ = key k
    · subst hκ
      simp at hget
    · rw [InsertionMap.get_erase_of_ne _ _ _ hκ] at hget
      exact h.entry κ j hget
  · intro j hj hnone
    simp only [settle, hpending, hissued, hpromises] at hj hnone ⊢
    by_cases hjk : j = k
    · subst hjk
      simp at hnone
    · rw [if_neg hjk] at hnone
      rw [InsertionMap.get_erase_of_ne _ _ _ fun he => hjk (hkey he)]
      exact h.waiting j hj hnone
  · intro timer htimer
    simp only [settle, hissued]
    exact h.timers timer (htimers timer htimer)
  · intro send hsend
    simp only [settle, hissued]
    exact h.sends send (hsends send hsend)
  · intro j hj
    simp only [settle, hissued, hpromises] at hj ⊢
    have hjk : j ≠ k := by omega
    rw [if_neg hjk]
    exact h.unissued j hj

theorem issue_consistent {t : Table K M E X} (hkey : Function.Injective key)
    (h : Consistent key t) (timer : Option E) (onSendError : X → E) (failure : Option E) :
    Consistent key (issue key timer onSendError failure t) := by
  refine ⟨?_, ?_, ?_, ?_, ?_⟩
  · intro κ k hget
    simp only [issue] at hget ⊢
    by_cases hκ : κ = key t.issued
    · subst hκ
      rw [InsertionMap.get_set_self] at hget
      obtain rfl := Option.some.inj hget
      exact ⟨Nat.lt_succ_self _, rfl⟩
    · rw [InsertionMap.get_set_of_ne _ _ _ _ hκ] at hget
      obtain ⟨hk, hκk⟩ := h.entry κ k hget
      exact ⟨Nat.lt_succ_of_lt hk, hκk⟩
  · intro k hk hnone
    simp only [issue] at hk hnone ⊢
    by_cases hlast : k = t.issued
    · subst hlast
      exact InsertionMap.get_set_self _ _ _
    · rw [Function.update_of_ne hlast] at hnone
      rw [InsertionMap.get_set_of_ne _ _ _ _ fun he => hlast (hkey he)]
      exact h.waiting k (by omega) hnone
  · intro timer' htimer
    simp only [issue] at htimer ⊢
    obtain htimer | htimer := List.mem_append.mp htimer
    · exact Nat.lt_succ_of_lt (h.timers timer' htimer)
    · simp only [Option.mem_toList, Option.map_eq_some_iff] at htimer
      obtain ⟨e, -, rfl⟩ := htimer
      exact Nat.lt_succ_self _
  · intro send hsend
    simp only [issue] at hsend ⊢
    split at hsend
    · exact Nat.lt_succ_of_lt (h.sends send hsend)
    · obtain hsend | hsend := List.mem_append.mp hsend
      · exact Nat.lt_succ_of_lt (h.sends send hsend)
      · rw [List.mem_singleton.mp hsend]
        exact Nat.lt_succ_self _
  · intro k hk
    simp only [issue] at hk ⊢
    rw [Function.update_of_ne (by omega)]
    exact h.unissued k (by omega)

omit [DecidableEq K] in
/-- Rejecting a list of requests settles just these. -/
theorem reject_promises (e : E) (ks : List Nat) (t : Table K M E X) (k : Nat) :
    (ks.foldl (fun t k => settle k (.rejected e) (clearTimer k t)) t).promises k =
      if k ∈ ks then (t.promises k).or (some (.rejected e)) else t.promises k := by
  induction ks generalizing t with
  | nil => rfl
  | cons j ks ih =>
    rw [List.foldl_cons, ih]
    simp only [settle, clearTimer, List.mem_cons]
    by_cases hj : k = j
    · by_cases hks : k ∈ ks
      · simp only [hj, if_true, true_or]
        split
        · rw [Option.or_assoc]
          rfl
        · rfl
      · simp [hj]
    · simp [hj]

omit [DecidableEq K] in
theorem reject_frame (e : E) (ks : List Nat) (t : Table K M E X) :
    let t' := ks.foldl (fun t k => settle k (.rejected e) (clearTimer k t)) t
    t'.issued = t.issued ∧ t'.sends = t.sends ∧ ∀ timer ∈ t'.timers, timer ∈ t.timers := by
  induction ks generalizing t with
  | nil => exact ⟨rfl, rfl, fun _ h => h⟩
  | cons j ks ih =>
    obtain ⟨hissued, hsends, htimers⟩ := ih (settle j (.rejected e) (clearTimer j t))
    refine ⟨hissued, hsends, ?_⟩
    intro timer htimer
    exact (List.mem_filter.mp (htimers timer htimer)).1

theorem closeAll_promises {t : Table K M E X} (h : Consistent key t) (e : E) {k : Nat}
    (hk : k < t.issued) :
    (closeAll e t).promises k = (t.promises k).or (some (.rejected e)) := by
  simp only [closeAll]
  rw [reject_promises]
  split
  · rfl
  · next hmem =>
    cases hpromise : t.promises k with
    | some o => rfl
    | none =>
      -- a request that is not settled has an entry
      have hget := InsertionMap.mem_of_get (h.waiting k hk hpromise)
      exact absurd (List.mem_map.mpr ⟨_, hget, rfl⟩) hmem

theorem closeAll_consistent {t : Table K M E X} (h : Consistent key t) (e : E) :
    Consistent key (closeAll e t) := by
  obtain ⟨hissued, hsends, htimers⟩ := reject_frame e t.pending.values t
  refine ⟨?_, ?_, ?_, ?_, ?_⟩
  · intro κ k hget
    simp [closeAll] at hget
  · intro k hk hnone
    simp only [closeAll] at hk
    rw [hissued] at hk
    rw [closeAll_promises h e hk] at hnone
    simp at hnone
  · intro timer htimer
    simp only [closeAll]
    rw [hissued]
    exact h.timers timer (htimers timer htimer)
  · intro send hsend
    simp only [closeAll] at hsend ⊢
    rw [hsends] at hsend
    rw [hissued]
    exact h.sends send hsend
  · intro k hk
    simp only [closeAll] at hk ⊢
    rw [hissued] at hk
    rw [reject_promises, if_neg]
    · exact h.unissued k hk
    · intro hmem
      obtain ⟨⟨κ, j⟩, hentry, rfl⟩ := List.mem_map.mp hmem
      have hlt := (h.entry κ j (InsertionMap.get_of_mem hentry)).1
      simp only at hk
      omega

omit [DecidableEq K] in
theorem mem_clearTimer {t : Table K M E X} {k : Nat} {timer : Nat × E}
    (h : timer ∈ (clearTimer k t).timers) : timer ∈ t.timers := (List.mem_filter.mp h).1

omit [DecidableEq K] in
theorem mem_endSend {t : Table K M E X} {k : Nat} {send : Nat × (X → E)}
    (h : send ∈ (endSend k t).sends) : send ∈ t.sends := (List.mem_filter.mp h).1

theorem step_consistent (hkey : Function.Injective key) {t : Table K M E X} (h : Consistent key t)
    (event : Event M E X) : Consistent key (step key accept t event) := by
  cases event with
  | issue timer onSendError failure => exact issue_consistent hkey h timer onSendError failure
  | message m =>
    simp only [step, deliver]
    cases accept m with
    | none => exact h
    | some κ =>
      cases hget : t.pending.get κ with
      | none =>
        simp only [hget]
        exact h
      | some k =>
        obtain ⟨hk, rfl⟩ := h.entry κ k hget
        simp only [hget]
        exact settled_consistent hkey h k _ hk rfl rfl (fun _ => mem_clearTimer) (fun _ hj => hj) rfl
  | timeout k =>
    simp only [step, fire]
    split
    · next j e hfound =>
      have hj : j = k := by simpa using List.find?_some hfound
      subst hj
      have hk := h.timers _ (List.mem_of_find?_eq_some hfound)
      exact settled_consistent hkey h _ _ hk rfl rfl (fun _ => mem_clearTimer) (fun _ hj => hj) rfl
    · exact h
  | sendFailed k x =>
    simp only [step, failSend]
    split
    · next j onSendError hfound =>
      have hj : j = k := by simpa using List.find?_some hfound
      subst hj
      have hk := h.sends _ (List.mem_of_find?_eq_some hfound)
      exact settled_consistent hkey h _ _ hk rfl rfl (fun _ => mem_clearTimer)
        (fun _ => mem_endSend) rfl
    · exact h
  | sent k =>
    exact ⟨h.entry, h.waiting, h.timers, fun send hsend => h.sends send (mem_endSend hsend),
      h.unissued⟩
  | close e => exact closeAll_consistent h e

theorem after_consistent (hkey : Function.Injective key) (events : List (Event M E X)) :
    Consistent key (after key accept events) :=
  Serial.runAll_invariant _ _ (Consistent key) new_consistent
    (fun _ event h => step_consistent hkey h event) events

end invariant

section outcomes

variable {key accept}

/-- Only good messages come for requests that are not settled. -/
def OnlyGood (key : Nat → K) (accept : M → Option K) (good : M → Bool) (t : Table K M E X)
    (event : Event M E X) : Prop :=
  ∀ m k, event = .message m → k < t.issued → t.promises k = none → accept m = some (key k) →
    good m = true

theorem deliver_promise (hkey : Function.Injective key) {t : Table K M E X} (h : Consistent key t)
    (m : M) {k : Nat} (hk : k < t.issued) :
    (deliver accept m t).promises k =
      (t.promises k).or (if accept m = some (key k) then some (.resolved m) else none) := by
  rw [deliver]
  cases haccept : accept m with
  | none => simp
  | some κ =>
    cases hget : t.pending.get κ with
    | none =>
      by_cases hκ : κ = key k
      · subst hκ
        cases hpromise : t.promises k with
        | some o =>
          simp only [hget]
          exact hpromise
        | none =>
          rw [h.waiting k hk hpromise] at hget
          cases hget
      · simp only [hget]
        rw [if_neg fun he => hκ (Option.some.inj he), Option.or_none]
    | some j =>
      obtain ⟨-, rfl⟩ := h.entry κ j hget
      simp only [hget, settle]
      by_cases hjk : k = j
      · subst hjk
        simp only [if_true]
        rfl
      · rw [if_neg hjk, if_neg fun he => hjk (hkey (Option.some.inj he)).symm, Option.or_none]
        rfl

/-- What one event does to the promise of a request. -/
theorem step_promise (hkey : Function.Injective key) {good : M → Bool} {t : Table K M E X}
    (h : Consistent key t) {event : Event M E X} (hpossible : Possible t event)
    (hgood : OnlyGood key accept good t event) {k : Nat} (hk : k < t.issued) {timer : Option E}
    {onSendError : X → E} (htimer : ∀ e, (k, e) ∈ t.timers → timer = some e)
    (hsend : ∀ f, (k, f) ∈ t.sends → onSendError = f) :
    (step key accept t event).promises k =
      (t.promises k).or (settles key accept good timer onSendError k event) := by
  cases event with
  | issue newTimer newOnSendError failure =>
    have hne : k ≠ t.issued := Nat.ne_of_lt hk
    simp only [step, issue, settles, Option.or_none]
    exact Function.update_of_ne hne _ _
  | message m =>
    rw [step, deliver_promise hkey h m hk, settles]
    cases hpromise : t.promises k with
    | some o => rfl
    | none =>
      by_cases haccept : accept m = some (key k)
      · rw [if_pos haccept, if_pos ⟨hgood m k rfl hk hpromise haccept, haccept⟩]
      · rw [if_neg haccept, if_neg fun hand => haccept hand.2]
  | timeout j =>
    obtain ⟨e, hmem⟩ := hpossible
    simp only [step, fire, settles]
    cases hfind : t.timers.find? fun timer => timer.1 = j with
    | none => simpa using List.find?_eq_none.mp hfind _ hmem
    | some found =>
      obtain ⟨j', e'⟩ := found
      have hj' : j' = j := by simpa using List.find?_some hfind
      subst hj'
      have hfound := List.mem_of_find?_eq_some hfind
      by_cases hjk : j' = k
      · subst hjk
        simp [settle, forget, clearTimer, htimer e' hfound]
      · simp [settle, forget, clearTimer, Ne.symm hjk, hjk]
  | sendFailed j x =>
    obtain ⟨f, hmem⟩ := hpossible
    simp only [step, failSend, settles]
    cases hfind : t.sends.find? fun send => send.1 = j with
    | none => simpa using List.find?_eq_none.mp hfind _ hmem
    | some found =>
      obtain ⟨j', f'⟩ := found
      have hj' : j' = j := by simpa using List.find?_some hfind
      subst hj'
      have hfound := List.mem_of_find?_eq_some hfind
      by_cases hjk : j' = k
      · subst hjk
        simp [settle, forget, clearTimer, endSend, hsend f' hfound]
      · simp [settle, forget, clearTimer, endSend, Ne.symm hjk, hjk]
  | sent j =>
    simp only [settles, Option.or_none]
    rfl
  | close e => exact closeAll_promises h e hk

omit [DecidableEq K] in
theorem issue_or (event : Event M E X) :
    (∃ timer onSendError failure, event = .issue timer onSendError failure) ∨
      isIssue event = false := by
  cases event with
  | issue timer onSendError failure => exact Or.inl ⟨timer, onSendError, failure, rfl⟩
  | message m => exact Or.inr rfl
  | timeout k => exact Or.inr rfl
  | sendFailed k x => exact Or.inr rfl
  | sent k => exact Or.inr rfl
  | close e => exact Or.inr rfl

/-- What every event but a new request leaves: the requests, and no timer and no send that was not
there. -/
structure Shrinks (t t' : Table K M E X) : Prop where
  issued : t'.issued = t.issued
  timers : ∀ timer ∈ t'.timers, timer ∈ t.timers
  sends : ∀ send ∈ t'.sends, send ∈ t.sends

theorem step_shrinks (t : Table K M E X) {event : Event M E X} (h : isIssue event = false) :
    Shrinks t (step key accept t event) := by
  have hsame : Shrinks t t := ⟨rfl, fun _ hmem => hmem, fun _ hmem => hmem⟩
  cases event with
  | issue timer onSendError failure => cases h
  | message m =>
    simp only [step, deliver]
    split
    · exact hsame
    · split
      · exact hsame
      · exact ⟨rfl, fun _ => mem_clearTimer, fun _ hmem => hmem⟩
  | timeout k =>
    simp only [step, fire]
    split
    · exact ⟨rfl, fun _ => mem_clearTimer, fun _ hmem => hmem⟩
    · exact hsame
  | sendFailed k x =>
    simp only [step, failSend]
    split
    · exact ⟨rfl, fun _ => mem_clearTimer, fun _ => mem_endSend⟩
    · exact hsame
  | sent k => exact ⟨rfl, fun _ hmem => hmem, fun _ => mem_endSend⟩
  | close e =>
    obtain ⟨hissued, hsends, htimers⟩ := reject_frame e t.pending.values t
    refine ⟨hissued, htimers, ?_⟩
    intro send hsend
    simp only [step, closeAll] at hsend
    rwa [hsends] at hsend

/-- No event sets the timer of a request that was issued before. -/
theorem step_timers {t : Table K M E X} (event : Event M E X) {k : Nat} (hk : k < t.issued) {e : E}
    (h : (k, e) ∈ (step key accept t event).timers) : (k, e) ∈ t.timers := by
  obtain ⟨timer, onSendError, failure, rfl⟩ | hother := issue_or event
  · obtain h | h := List.mem_append.mp h
    · exact h
    · simp only [Option.mem_toList, Option.map_eq_some_iff] at h
      obtain ⟨e', -, he'⟩ := h
      obtain ⟨rfl, -⟩ := Prod.mk.inj he'
      exact absurd hk (Nat.lt_irrefl _)
  · exact (step_shrinks t hother).timers _ h

/-- No event starts the send of a request that was issued before. -/
theorem step_sends {t : Table K M E X} (event : Event M E X) {k : Nat} (hk : k < t.issued)
    {f : X → E} (h : (k, f) ∈ (step key accept t event).sends) : (k, f) ∈ t.sends := by
  obtain ⟨timer, onSendError, failure, rfl⟩ | hother := issue_or event
  · simp only [step, issue] at h
    split at h
    · exact h
    · obtain h | h := List.mem_append.mp h
      · exact h
      · obtain ⟨rfl, -⟩ := Prod.mk.inj (List.mem_singleton.mp h)
        exact absurd hk (Nat.lt_irrefl _)
  · exact (step_shrinks t hother).sends _ h

theorem step_issued (t : Table K M E X) (event : Event M E X) :
    (step key accept t event).issued = t.issued + if isIssue event then 1 else 0 := by
  obtain ⟨timer, onSendError, failure, rfl⟩ | hother := issue_or event
  · rfl
  · rw [hother]
    exact (step_shrinks t hother).issued

theorem after_snoc (events : List (Event M E X)) (event : Event M E X) :
    after key accept (events ++ [event]) = step key accept (after key accept events) event :=
  Serial.runAll_snoc _ _ _ _

variable (key accept) in
theorem after_issued (events : List (Event M E X)) :
    (after key accept events).issued = issues events := by
  induction events using List.reverseRecOn with
  | nil => rfl
  | append_singleton events event ih =>
    rw [after_snoc, step_issued, ih, issues, issues, List.countP_append, List.countP_singleton]

/-- What is known of a request after the events that follow its issue. -/
structure Followed (key : Nat → K) (accept : M → Option K) (good : M → Bool) (timer : Option E)
    (onSendError : X → E) (failure : Option E) (k : Nat) (rest : List (Event M E X))
    (t : Table K M E X) : Prop where
  promise : t.promises k = (failure.map .rejected).or
    (rest.findSome? (settles key accept good timer onSendError k))
  issued : k < t.issued
  timer : ∀ e, (k, e) ∈ t.timers → timer = some e
  send : ∀ f, (k, f) ∈ t.sends → onSendError = f

theorem issue_followed {good : M → Bool} {t : Table K M E X} (h : Consistent key t)
    (timer : Option E) (onSendError : X → E) (failure : Option E) :
    Followed key accept good timer onSendError failure t.issued []
      (issue key timer onSendError failure t) := by
  refine ⟨?_, Nat.lt_succ_self _, ?_, ?_⟩
  · simp only [issue]
    rw [Function.update_self, List.findSome?_nil, Option.or_none]
  · intro e he
    simp only [issue] at he
    obtain he | he := List.mem_append.mp he
    · exact absurd (h.timers _ he) (Nat.lt_irrefl _)
    · simp only [Option.mem_toList, Option.map_eq_some_iff] at he
      obtain ⟨e', htimer, he'⟩ := he
      obtain ⟨-, rfl⟩ := Prod.mk.inj he'
      exact htimer
  · intro f hf
    simp only [issue] at hf
    split at hf
    · exact absurd (h.sends _ hf) (Nat.lt_irrefl _)
    · obtain hf | hf := List.mem_append.mp hf
      · exact absurd (h.sends _ hf) (Nat.lt_irrefl _)
      · obtain ⟨-, rfl⟩ := Prod.mk.inj (List.mem_singleton.mp hf)
        rfl

theorem step_followed (hkey : Function.Injective key) {good : M → Bool} {timer : Option E}
    {onSendError : X → E} {failure : Option E} {k : Nat} {rest : List (Event M E X)}
    {t : Table K M E X} (h : Consistent key t)
    (hf : Followed key accept good timer onSendError failure k rest t) {event : Event M E X}
    (hpossible : Possible t event) (hgood : OnlyGood key accept good t event) :
    Followed key accept good timer onSendError failure k (rest ++ [event])
      (step key accept t event) := by
  refine ⟨?_, ?_, ?_, ?_⟩
  · rw [step_promise hkey h hpossible hgood hf.issued hf.timer hf.send, hf.promise,
      List.findSome?_append, Option.or_assoc]
    simp
  · rw [step_issued]
    exact Nat.lt_add_right _ hf.issued
  · intro e he
    exact hf.timer e (step_timers event hf.issued he)
  · intro f he
    exact hf.send f (step_sends event hf.issued he)

/-- A request is settled by the error of its send if that throws at once, else by the first event
after it that can settle it. -/
theorem promise_eq (hkey : Function.Injective key) {good : M → Bool}
    (before : List (Event M E X)) (timer : Option E) (onSendError : X → E) (failure : Option E)
    (rest : List (Event M E X))
    (hpossible : Serial.Meets (step key accept) Possible new
      (before ++ .issue timer onSendError failure :: rest))
    (hgood : Serial.Meets (step key accept) (OnlyGood key accept good) new
      (before ++ .issue timer onSendError failure :: rest)) :
    (after key accept (before ++ .issue timer onSendError failure :: rest)).promises
        (issues before) =
      (failure.map .rejected).or
        (rest.findSome? (settles key accept good timer onSendError (issues before))) := by
  suffices hall : Followed key accept good timer onSendError failure (issues before) rest
      (after key accept (before ++ .issue timer onSendError failure :: rest)) from hall.promise
  induction rest using List.reverseRecOn with
  | nil =>
    rw [after_snoc, ← after_issued key accept]
    exact issue_followed (after_consistent hkey before) timer onSendError failure
  | append_singleton rest event ih =>
    rw [← List.cons_append, ← List.append_assoc] at hpossible hgood ⊢
    have hbefore := ih (hpossible.initial _) (hgood.initial _)
    rw [after_snoc]
    exact step_followed hkey (after_consistent hkey _) hbefore
      (hpossible _ event [] rfl) (hgood _ event [] rfl)

omit [DecidableEq K] in
theorem settle_promises (j : Nat) (o : Outcome M E) (t : Table K M E X) (k : Nat) :
    (settle j o t).promises k = t.promises k ∨
      (settle j o t).promises k = (t.promises k).or (some o) := by
  rw [settle]
  by_cases hk : k = j
  · exact Or.inr (if_pos hk)
  · exact Or.inl (if_neg hk)

variable (key accept) in
/-- What every event but a new request does to a promise: nothing, or it settles it, and only a
message resolves it. -/
theorem step_promises (t : Table K M E X) {event : Event M E X} (h : isIssue event = false)
    (k : Nat) :
    (step key accept t event).promises k = t.promises k ∨
      ∃ o, (step key accept t event).promises k = (t.promises k).or (some o) ∧
        ∀ m, o = .resolved m → event = .message m := by
  cases event with
  | issue timer onSendError failure => cases h
  | message m =>
    simp only [step, deliver]
    split
    · exact Or.inl rfl
    · split
      · exact Or.inl rfl
      · refine (settle_promises _ _ _ k).imp_right fun hsettled => ⟨_, hsettled, ?_⟩
        intro m' hm'
        rw [Outcome.resolved.inj hm']
  | timeout j =>
    simp only [step, fire]
    split
    · refine (settle_promises _ _ _ k).imp_right fun hsettled => ⟨_, hsettled, ?_⟩
      intro m' hm'
      cases hm'
    · exact Or.inl rfl
  | sendFailed j x =>
    simp only [step, failSend]
    split
    · refine (settle_promises _ _ _ k).imp_right fun hsettled => ⟨_, hsettled, ?_⟩
      intro m' hm'
      cases hm'
    · exact Or.inl rfl
  | sent j => exact Or.inl rfl
  | close e =>
    simp only [step, closeAll]
    rw [reject_promises]
    split
    · refine Or.inr ⟨_, rfl, ?_⟩
      intro m' hm'
      cases hm'
    · exact Or.inl rfl

/-- A settled promise stays as it is. -/
theorem step_settled {t : Table K M E X} (h : Consistent key t) (event : Event M E X) {k : Nat}
    {o : Outcome M E} (hpromise : t.promises k = some o) :
    (step key accept t event).promises k = some o := by
  obtain ⟨timer, onSendError, failure, rfl⟩ | hother := issue_or event
  · have hne : k ≠ t.issued := by
      rintro rfl
      rw [h.unissued t.issued (Nat.le_refl _)] at hpromise
      cases hpromise
    simp only [step, issue]
    rw [Function.update_of_ne hne, hpromise]
  · obtain hsame | ⟨o', hsettled, -⟩ := step_promises key accept t hother k
    · rw [hsame, hpromise]
    · rw [hsettled, hpromise]
      rfl

/-- Only a message resolves a promise. -/
theorem resolved_by_message {t : Table K M E X} {event : Event M E X} {k : Nat} {m : M}
    (h : (step key accept t event).promises k = some (.resolved m)) :
    t.promises k = some (.resolved m) ∨ event = .message m := by
  obtain ⟨timer, onSendError, failure, rfl⟩ | hother := issue_or event
  · simp only [step, issue] at h
    by_cases hk : k = t.issued
    · subst hk
      rw [Function.update_self] at h
      obtain ⟨e, -, he⟩ := Option.map_eq_some_iff.mp h
      cases he
    · rw [Function.update_of_ne hk] at h
      exact Or.inl h
  · obtain hsame | ⟨o, hsettled, hmessage⟩ := step_promises key accept t hother k
    · rw [hsame] at h
      exact Or.inl h
    · rw [hsettled] at h
      cases hpromise : t.promises k with
      | some o' =>
        rw [hpromise] at h
        exact Or.inl h
      | none =>
        rw [hpromise] at h
        exact Or.inr (hmessage m (Option.some.inj h))

theorem promise_stays (hkey : Function.Injective key) (events more : List (Event M E X)) {k : Nat}
    {o : Outcome M E} (h : (after key accept events).promises k = some o) :
    (after key accept (events ++ more)).promises k = some o := by
  induction more using List.reverseRecOn with
  | nil => rwa [List.append_nil]
  | append_singleton more event ih =>
    rw [← List.append_assoc, after_snoc]
    exact step_settled (after_consistent hkey _) event ih

/-- When the end of the connection has been handled nothing is pending and every request issued
before is settled. -/
theorem close_settles (hkey : Function.Injective key) (events : List (Event M E X)) (e : E) :
    (after key accept (events ++ [.close e])).pending = .empty ∧
      ∀ k, k < issues events → ((after key accept (events ++ [.close e])).promises k).isSome := by
  rw [after_snoc]
  refine ⟨rfl, ?_⟩
  intro k hk
  rw [← after_issued key accept] at hk
  rw [step, closeAll_promises (after_consistent hkey events) e hk]
  simp

/-- If only good messages have settled a request, only good messages came for a request that was
not settled. -/
theorem onlyGood_of_resolved (hkey : Function.Injective key) {good : M → Bool}
    {events : List (Event M E X)}
    (h : ∀ k m, (after key accept events).promises k = some (.resolved m) → good m = true) :
    Serial.Meets (step key accept) (OnlyGood key accept good) new events := by
  rintro before event rest rfl m k rfl hk hnone haccept
  have hconsistent : Consistent key (after key accept before) := after_consistent hkey before
  have hresolved : (after key accept (before ++ [.message m])).promises k = some (.resolved m) := by
    rw [after_snoc, step, deliver_promise hkey hconsistent m hk, if_pos haccept]
    rw [after, hnone]
    rfl
  have hlast := promise_stays hkey (before ++ [.message m]) rest hresolved
  rw [List.append_assoc] at hlast
  exact h k m hlast

end outcomes

end Table

end Solarcido.Requests
