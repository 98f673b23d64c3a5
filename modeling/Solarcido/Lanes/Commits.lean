import Mathlib.Data.List.Induction
import Solarcido.Lanes.Events

namespace Solarcido.Lanes

open Text

section deduping

variable {R : Type}

def typeError (message : JsString) : Thrown :=
  .object ⟨true, false, some (js "TypeError"), some message, none, none, none, none, none,
    js "TypeError: " ++ message⟩

/-- `data["supersededBy"] !== undefined && data["supersededBy"] !== null` -/
def isSuperseded (data : Json) : Bool :=
  match data.member (js "supersededBy") with
  | none => false
  | some .null => false
  | some _ => true

/-- `data["canonicalCommit"] ?? data["commit"]` -/
def commitKey (data : Json) : Option Json :=
  match data.member (js "canonicalCommit") with
  | none => data.member (js "commit")
  | some .null => data.member (js "commit")
  | some key => some key

/-- Keys of a `Map`; an array or an object of one event is not that of another. -/
def sameKey : Json → Json → Bool
  | .null, .null => true
  | .bool a, .bool b => a = b
  | .num a, .num b => a = b
  | .str a, .str b => a = b
  | _, _ => false

/-- What the loop changes. -/
structure Sweep where
  keep : List Bool
  latestByKey : List (Json × Nat)

def Sweep.latest (sweep : Sweep) (key : Json) : Option Nat :=
  (sweep.latestByKey.find? fun entry => sameKey key entry.1).map Prod.snd

def Sweep.drop (sweep : Sweep) (i : Nat) : Sweep := { sweep with keep := sweep.keep.set i false }

/-- The event takes the place of the one that had its key. -/
def Sweep.record (sweep : Sweep) (key : Json) (i : Nat) : Sweep :=
  let swept := match sweep.latest key with
    | some prev => sweep.drop prev
    | none => sweep
  { swept with latestByKey := (key, i) :: swept.latestByKey }

def Sweep.visit (sweep : Sweep) (ev : LaneEvent R) (i : Nat) : Except Thrown Sweep :=
  if ev.event ≠ .laneCommitCreated then .ok sweep
  else
    match ev.data with
    | none => .ok sweep
    | some .null =>
      .error (typeError (js "Cannot read properties of null (reading 'supersededBy')"))
    | some data =>
      if isSuperseded data then .ok (sweep.drop i)
      else
        match commitKey data with
        | none => .ok sweep
        | some key => .ok (sweep.record key i)

def dedupeSupersededCommitEvents (events : List (LaneEvent R)) :
    Except Thrown (List (LaneEvent R)) := do
  let sweep ← events.zipIdx.foldlM (fun (sweep : Sweep) entry => sweep.visit entry.1 entry.2)
    ⟨List.replicate events.length true, []⟩
  return (events.zipIdx.filter fun entry => sweep.keep.getD entry.2 false).map Prod.fst

end deduping

section specification

variable {R : Type}

/-- The data of an event that reports a commit. -/
def LaneEvent.commitData (ev : LaneEvent R) : Option Json :=
  if ev.event = .laneCommitCreated then ev.data else none

/-- The canonical or commit key of an event that is not superseded. -/
def LaneEvent.liveKey (ev : LaneEvent R) : Option JsString :=
  match ev.commitData with
  | none => none
  | some data => if isSuperseded data then none else Json.asString (commitKey data)

/-- The keys of a commit are left out, or are strings. -/
def LaneEvent.KeysReadable (ev : LaneEvent R) : Prop :=
  ∀ data, ev.commitData = some data → ∀ field ∈ [js "canonicalCommit", js "commit"],
    ∀ value, data.member field = some value → ∃ s, value = .str s

/-- An event stays in front of those behind it. -/
def LaneEvent.stays (ev : LaneEvent R) (later : List (LaneEvent R)) : Bool :=
  ev.event ≠ .laneCommitCreated || ev.data.isNone ||
    (!(ev.data.any isSuperseded) &&
      (ev.liveKey.isNone || later.all fun other => other.liveKey ≠ ev.liveKey))

def survivors : List (LaneEvent R) → List (LaneEvent R)
  | [] => []
  | ev :: later => if ev.stays later then ev :: survivors later else survivors later

end specification

section sweeping

variable {R : Type} {ev : LaneEvent R} {l later : List (LaneEvent R)} {k : JsString}

theorem stays_of_liveKey (h : ev.liveKey = some k) :
    ev.stays later = later.all fun other => other.liveKey ≠ some k := by
  have hlive := h
  rw [LaneEvent.liveKey, LaneEvent.commitData] at hlive
  by_cases hevent : ev.event = .laneCommitCreated
  · rw [if_pos hevent] at hlive
    cases hdata : ev.data with
    | none => simp [hdata] at hlive
    | some data =>
      by_cases hsuperseded : isSuperseded data = true
      · simp [hdata, hsuperseded] at hlive
      · simp [LaneEvent.stays, hevent, hdata, hsuperseded, h]
  · simp [hevent] at hlive

theorem stays_of_no_liveKey (h : ev.liveKey = none) (later : List (LaneEvent R)) :
    ev.stays later = ev.stays [] := by
  simp [LaneEvent.stays, h]

theorem stays_snoc (other : LaneEvent R) : ev.stays (later ++ [other]) =
    (ev.stays later && decide (ev.liveKey = none ∨ other.liveKey ≠ ev.liveKey)) := by
  cases hkey : ev.liveKey with
  | none => simp [stays_of_no_liveKey hkey (later ++ [other]), stays_of_no_liveKey hkey later]
  | some k => simp [stays_of_liveKey hkey]

/-- The event stays with what is there behind it. -/
def staysAt (l : List (LaneEvent R)) (i : Nat) : Bool :=
  match l[i]? with
  | some ev => ev.stays (l.drop (i + 1))
  | none => true

def liveKeyAt (l : List (LaneEvent R)) (i : Nat) : Option JsString := l[i]?.bind LaneEvent.liveKey

theorem liveKeyAt_snoc (i : Nat) : liveKeyAt (l ++ [ev]) i =
    if i = l.length then ev.liveKey else liveKeyAt l i := by
  rw [liveKeyAt, liveKeyAt, List.getElem?_append]
  by_cases hlast : i = l.length
  · simp [hlast]
  · by_cases hlt : i < l.length
    · simp [hlast, hlt]
    · have hpast : i - l.length ≠ 0 := by omega
      simp [hlast, hlt, hpast]

theorem staysAt_snoc (i : Nat) : staysAt (l ++ [ev]) i =
    if i = l.length then ev.stays []
    else staysAt l i && decide (liveKeyAt l i = none ∨ ev.liveKey ≠ liveKeyAt l i) := by
  rw [staysAt, List.getElem?_append]
  by_cases hlast : i = l.length
  · simp [hlast]
  · rw [if_neg hlast]
    by_cases hlt : i < l.length
    · rw [if_pos hlt, List.getElem?_eq_getElem hlt, List.drop_append_of_le_length (by omega)]
      simp only [staysAt, liveKeyAt, List.getElem?_eq_getElem hlt, Option.bind_some]
      exact stays_snoc ev
    · have hpast : i - l.length ≠ 0 := by omega
      simp [hlt, staysAt, liveKeyAt, hpast]

theorem liveKeyAt_length : liveKeyAt l l.length = none := by simp [liveKeyAt]

/-- What the loop has come to after some of the events. -/
structure Swept (n : Nat) (l : List (LaneEvent R)) (sweep : Sweep) : Prop where
  length : sweep.keep.length = n
  keep : ∀ i, i < n → sweep.keep[i]? = some (staysAt l i)
  latest : ∀ k i, sweep.latest (.str k) = some i ↔ liveKeyAt l i = some k ∧ staysAt l i = true

variable {n : Nat} {sweep : Sweep}

theorem Swept.start (n : Nat) : Swept n ([] : List (LaneEvent R)) ⟨List.replicate n true, []⟩ := by
  refine ⟨List.length_replicate, ?_, ?_⟩
  · intro i hi
    simp [staysAt, hi]
  · intro k i
    simp [Sweep.latest, liveKeyAt]

theorem Swept.pass (h : Swept n l sweep) (hkey : ev.liveKey = none) (hstays : ev.stays [] = true) :
    Swept n (l ++ [ev]) sweep := by
  have hsame : ∀ i, staysAt (l ++ [ev]) i = staysAt l i := by
    intro i
    rw [staysAt_snoc]
    by_cases hlast : i = l.length
    · simp [hlast, hstays, staysAt]
    · cases hlive : liveKeyAt l i <;> simp [hlast, hkey]
  refine ⟨h.length, ?_, ?_⟩
  · intro i hi
    rw [h.keep i hi, hsame]
  · intro k i
    rw [h.latest, hsame, liveKeyAt_snoc, hkey]
    by_cases hlast : i = l.length
    · simp [hlast, liveKeyAt_length]
    · simp [hlast]

theorem Swept.drop (h : Swept n l sweep) (hkey : ev.liveKey = none) (hstays : ev.stays [] = false) :
    Swept n (l ++ [ev]) (sweep.drop l.length) := by
  have hsame : ∀ i, i ≠ l.length → staysAt (l ++ [ev]) i = staysAt l i := by
    intro i hlast
    rw [staysAt_snoc]
    cases hlive : liveKeyAt l i <;> simp [hlast, hkey]
  have hdropped : staysAt (l ++ [ev]) l.length = false := by
    rw [staysAt_snoc, if_pos rfl, hstays]
  refine ⟨by rw [Sweep.drop, List.length_set, h.length], ?_, ?_⟩
  · intro i hi
    rw [Sweep.drop, List.getElem?_set]
    by_cases hlast : l.length = i
    · subst hlast
      simp [hdropped, h.length, hi]
    · rw [if_neg hlast, h.keep i hi, hsame i (Ne.symm hlast)]
  · intro k i
    have hlatest : (sweep.drop l.length).latest (.str k) = sweep.latest (.str k) := rfl
    rw [hlatest, h.latest, liveKeyAt_snoc]
    by_cases hlast : i = l.length
    · simp [hlast, liveKeyAt_length, hkey]
    · rw [if_neg hlast, hsame i hlast]

theorem latest_record (key key' : JsString) (i : Nat) :
    (sweep.record (.str key) i).latest (.str key') =
      if key' = key then some i else sweep.latest (.str key') := by
  have hswept : (sweep.record (.str key) i).latestByKey = (.str key, i) :: sweep.latestByKey := by
    rw [Sweep.record]
    cases sweep.latest (.str key) <;> rfl
  rw [Sweep.latest, hswept, List.find?_cons]
  by_cases hkey : key' = key
  · simp [sameKey, hkey]
  · simp [sameKey, hkey, Sweep.latest]

theorem stays_last (hkey : ev.liveKey = some k) : staysAt (l ++ [ev]) l.length = true := by
  rw [staysAt_snoc, if_pos rfl, stays_of_liveKey hkey]
  rfl

/-- The event that had the key is the only one in front that changes. -/
theorem Swept.stays_before (h : Swept n l sweep) (hkey : ev.liveKey = some k) {i : Nat}
    (hi : i ≠ l.length) : staysAt (l ++ [ev]) i =
      (staysAt l i && decide (sweep.latest (.str k) ≠ some i)) := by
  rw [staysAt_snoc, if_neg hi, hkey]
  cases hstays : staysAt l i with
  | false => rfl
  | true =>
    have hlatest : sweep.latest (.str k) ≠ some i ↔ liveKeyAt l i ≠ some k := by
      rw [ne_eq, h.latest, hstays]
      simp
    rw [Bool.true_and, Bool.true_and, decide_eq_decide, hlatest]
    cases liveKeyAt l i <;> simp [eq_comm]

theorem Swept.record_keep (h : Swept n l sweep) (hkey : ev.liveKey = some k) {i : Nat}
    (hi : i < n) :
    (sweep.record (.str k) l.length).keep[i]? = some (staysAt (l ++ [ev]) i) := by
  have hkept := h.keep i hi
  rw [Sweep.record]
  cases hprev : sweep.latest (.str k) with
  | none =>
    by_cases hi' : i = l.length
    · subst hi'
      rw [stays_last hkey]
      simpa [staysAt] using hkept
    · rw [h.stays_before hkey hi', hprev]
      simpa using hkept
  | some prev =>
    have hprevLive : liveKeyAt l prev = some k := ((h.latest k prev).mp hprev).1
    have hprevLast : prev ≠ l.length := by
      rintro rfl
      rw [liveKeyAt_length] at hprevLive
      cases hprevLive
    have hset : ({ sweep.drop prev with
        latestByKey := (.str k, l.length) :: (sweep.drop prev).latestByKey } : Sweep).keep[i]? =
        if prev = i then some false else some (staysAt l i) := by
      rw [Sweep.drop, List.getElem?_set, hkept]
      by_cases heq : prev = i
      · simp [heq, h.length, hi]
      · rw [if_neg heq, if_neg heq]
    refine hset.trans ?_
    by_cases hi' : i = l.length
    · subst hi'
      rw [stays_last hkey, if_neg hprevLast]
      simp [staysAt]
    · rw [h.stays_before hkey hi', hprev]
      by_cases heq : prev = i
      · simp [heq]
      · simp [heq]

theorem Swept.record_latest (h : Swept n l sweep) (hkey : ev.liveKey = some k) (k' : JsString)
    (i : Nat) : (sweep.record (.str k) l.length).latest (.str k') = some i ↔
      liveKeyAt (l ++ [ev]) i = some k' ∧ staysAt (l ++ [ev]) i = true := by
  rw [latest_record, liveKeyAt_snoc]
  by_cases hi : i = l.length
  · subst hi
    rw [if_pos rfl, stays_last hkey, hkey]
    by_cases hk : k' = k
    · simp [hk]
    · have hnone : sweep.latest (.str k') ≠ some l.length := by
        rw [ne_eq, h.latest, liveKeyAt_length]
        simp
      simp [Ne.symm hk, hk, hnone]
  · rw [if_neg hi, h.stays_before hkey hi, Bool.and_eq_true, decide_eq_true_iff, ← and_assoc,
      ← h.latest]
    by_cases hk : k' = k
    · simp [hk, Ne.symm hi]
    · rw [if_neg hk]
      constructor
      · intro hlatest
        refine ⟨hlatest, ?_⟩
        intro hsame
        have hboth := ((h.latest k i).mp hsame).1
        rw [((h.latest k' i).mp hlatest).1] at hboth
        exact hk (Option.some.inj hboth)
      · exact And.left

theorem Swept.record (h : Swept n l sweep) (hkey : ev.liveKey = some k) :
    Swept n (l ++ [ev]) (sweep.record (.str k) l.length) := by
  refine ⟨?_, fun i hi => h.record_keep hkey hi, h.record_latest hkey⟩
  rw [Sweep.record]
  cases sweep.latest (.str k) with
  | none => exact h.length
  | some prev => exact (List.length_set).trans h.length

theorem visit_null (hevent : ev.event = .laneCommitCreated) (hdata : ev.data = some .null)
    (sweep : Sweep) (i : Nat) : ∃ e, sweep.visit ev i = .error e := by
  rw [Sweep.visit, if_neg (not_not_intro hevent), hdata]
  exact ⟨_, rfl⟩

theorem commitKey_str {data key : Json}
    (hreadable : ∀ field ∈ [js "canonicalCommit", js "commit"],
      ∀ value, data.member field = some value → ∃ s, value = .str s)
    (hkey : commitKey data = some key) : ∃ s, key = .str s := by
  have hcommit := hreadable (js "commit") (by simp)
  rw [commitKey] at hkey
  cases hcanonical : data.member (js "canonicalCommit") with
  | none =>
    rw [hcanonical] at hkey
    exact hcommit key hkey
  | some value =>
    obtain ⟨s, rfl⟩ := hreadable (js "canonicalCommit") (by simp) value hcanonical
    rw [hcanonical] at hkey
    exact ⟨s, (Option.some.inj hkey).symm⟩

theorem visit_data {data : Json} (hevent : ev.event = .laneCommitCreated)
    (hdata : ev.data = some data) (hnull : data ≠ .null) (i : Nat) : sweep.visit ev i =
    if isSuperseded data then .ok (sweep.drop i)
    else match commitKey data with
      | none => .ok sweep
      | some key => .ok (sweep.record key i) := by
  rw [Sweep.visit, if_neg (not_not_intro hevent), hdata]
  cases data with
  | null => exact absurd rfl hnull
  | bool | num | str | arr | obj => rfl

/-- One event either passes, is dropped, or takes its key. -/
theorem Swept.visit (h : Swept n l sweep) (hreadable : ev.KeysReadable)
    (hnull : ¬ (ev.event = .laneCommitCreated ∧ ev.data = some .null)) :
    ∃ after, sweep.visit ev l.length = .ok after ∧ Swept n (l ++ [ev]) after := by
  by_cases hevent : ev.event = .laneCommitCreated
  · cases hdata : ev.data with
    | none =>
      refine ⟨sweep, by simp [Sweep.visit, hdata], h.pass ?_ ?_⟩
      · simp [LaneEvent.liveKey, LaneEvent.commitData, hdata]
      · simp [LaneEvent.stays, hdata]
    | some data =>
      have hne : data ≠ .null := by
        rintro rfl
        exact hnull ⟨hevent, hdata⟩
      have hcommit : ev.commitData = some data := by rw [LaneEvent.commitData, if_pos hevent, hdata]
      rw [visit_data hevent hdata hne]
      by_cases hsuperseded : isSuperseded data = true
      · rw [if_pos hsuperseded]
        refine ⟨_, rfl, h.drop ?_ ?_⟩
        · simp [LaneEvent.liveKey, hcommit, hsuperseded]
        · simp [LaneEvent.stays, hevent, hdata, hsuperseded]
      · rw [if_neg hsuperseded]
        cases hkey : commitKey data with
        | none =>
          have hlive : ev.liveKey = none := by
            simp [LaneEvent.liveKey, hcommit, hsuperseded, hkey, Json.asString]
          refine ⟨sweep, rfl, h.pass hlive ?_⟩
          simp [LaneEvent.stays, hdata, hsuperseded]
        | some key =>
          obtain ⟨s, rfl⟩ := commitKey_str (hreadable data hcommit) hkey
          refine ⟨_, rfl, h.record ?_⟩
          simp [LaneEvent.liveKey, hcommit, hsuperseded, hkey, Json.asString]
  · refine ⟨sweep, by simp [Sweep.visit, hevent], h.pass ?_ ?_⟩
    · simp [LaneEvent.liveKey, LaneEvent.commitData, hevent]
    · simp [LaneEvent.stays, hevent]

end sweeping

section result

variable {R : Type} {events : List (LaneEvent R)}

theorem sweep_ok (n : Nat) (hreadable : ∀ ev ∈ events, ev.KeysReadable)
    (hnull : ∀ ev ∈ events, ¬ (ev.event = .laneCommitCreated ∧ ev.data = some .null)) :
    ∃ after, events.zipIdx.foldlM (fun (sweep : Sweep) entry => sweep.visit entry.1 entry.2)
      ⟨List.replicate n true, []⟩ = Except.ok after ∧ Swept n events after := by
  induction events using List.reverseRecOn with
  | nil => exact ⟨_, rfl, Swept.start n⟩
  | append_singleton l ev ih =>
    obtain ⟨sweep, hfold, hswept⟩ := ih (fun other h => hreadable other (by simp [h]))
      (fun other h => hnull other (by simp [h]))
    obtain ⟨after, hvisit, hafter⟩ := hswept.visit (hreadable ev (by simp)) (hnull ev (by simp))
    refine ⟨after, ?_, hafter⟩
    rw [List.zipIdx_append, List.foldlM_append, hfold, Nat.zero_add]
    change (sweep.visit ev l.length >>= pure) = _
    rw [hvisit]
    rfl

theorem sweep_null {ev : LaneEvent R} (hmem : ev ∈ events) (hevent : ev.event = .laneCommitCreated)
    (hdata : ev.data = some .null) (i : Nat) (sweep : Sweep) :
    ∃ e, (events.zipIdx i).foldlM (fun (sweep : Sweep) entry => sweep.visit entry.1 entry.2)
      sweep = Except.error e := by
  induction events generalizing i sweep with
  | nil => cases hmem
  | cons first rest ih =>
    rw [List.zipIdx_cons, List.foldlM_cons]
    rcases List.mem_cons.mp hmem with rfl | hmem
    · obtain ⟨e, he⟩ := visit_null hevent hdata sweep i
      exact ⟨e, by rw [he]; rfl⟩
    · cases hvisit : sweep.visit first i with
      | error e => exact ⟨e, rfl⟩
      | ok after => exact ih hmem (i + 1) after

/-- What stays is what each event says of those behind it. -/
theorem filter_staysAt (events : List (LaneEvent R)) (keep : List Bool) (i : Nat)
    (h : ∀ j, j < events.length → keep.getD (i + j) false = staysAt events j) :
    ((events.zipIdx i).filter fun entry => keep.getD entry.2 false).map Prod.fst =
      survivors events := by
  induction events generalizing i with
  | nil => rfl
  | cons ev later ih =>
    have hfirst : keep.getD i false = ev.stays later := h 0 (Nat.succ_pos _)
    have hrest := ih (i + 1) (fun j hj => by
      have hnext := h (j + 1) (Nat.succ_lt_succ hj)
      rw [show i + 1 + j = i + (j + 1) by omega, hnext]
      rfl)
    rw [List.zipIdx_cons, survivors, List.filter_cons, hfirst]
    by_cases hstays : ev.stays later = true
    · rw [if_pos hstays, if_pos hstays, List.map_cons, hrest]
    · rw [if_neg hstays, if_neg hstays, hrest]

theorem survivors_sublist (events : List (LaneEvent R)) : (survivors events).Sublist events := by
  induction events with
  | nil => exact List.Sublist.refl []
  | cons ev later ih =>
    rw [survivors]
    split
    · exact ih.cons_cons ev
    · exact ih.cons ev

theorem stays_sublist {ev : LaneEvent R} {later rest : List (LaneEvent R)}
    (h : ev.stays later = true) (hsub : rest.Sublist later) : ev.stays rest = true := by
  cases hkey : ev.liveKey with
  | none =>
    rw [stays_of_no_liveKey hkey] at h ⊢
    exact h
  | some k =>
    rw [stays_of_liveKey hkey] at h ⊢
    rw [List.all_eq_true] at h ⊢
    intro other hother
    exact h other (hsub.subset hother)

theorem survivors_survivors (events : List (LaneEvent R)) :
    survivors (survivors events) = survivors events := by
  induction events with
  | nil => rfl
  | cons ev later ih =>
    by_cases hstays : ev.stays later = true
    · have hagain := stays_sublist hstays (survivors_sublist later)
      rw [survivors, if_pos hstays, survivors, if_pos hagain, ih]
    · rw [survivors, if_neg hstays, ih]

theorem dedupe_ok (hreadable : ∀ ev ∈ events, ev.KeysReadable)
    (hnull : ∀ ev ∈ events, ¬ (ev.event = .laneCommitCreated ∧ ev.data = some .null)) :
    dedupeSupersededCommitEvents events = .ok (survivors events) := by
  obtain ⟨after, hfold, hswept⟩ := sweep_ok events.length hreadable hnull
  rw [dedupeSupersededCommitEvents, hfold]
  have hkept := filter_staysAt events after.keep 0 (fun j hj => by
    rw [Nat.zero_add, List.getD_eq_getElem?_getD, hswept.keep j hj]
    rfl)
  exact congrArg Except.ok hkept

/-- The commits that stay are the ones nothing supersedes and no later commit has the key of, and
a second time nothing more is dropped, unless some commit's data is `null`: reading its fields
throws. -/
theorem dedupeSupersededCommitEvents_iff (events : List (LaneEvent R))
    (hreadable : ∀ ev ∈ events, ev.KeysReadable) :
    (dedupeSupersededCommitEvents events = .ok (survivors events) ∧
      (dedupeSupersededCommitEvents events).bind dedupeSupersededCommitEvents =
        dedupeSupersededCommitEvents events) ↔
      ∀ ev ∈ events, ¬ (ev.event = .laneCommitCreated ∧ ev.data = some .null) := by
  constructor
  · rintro ⟨hresult, -⟩ ev hmem ⟨hevent, hdata⟩
    obtain ⟨e, he⟩ := sweep_null hmem hevent hdata 0 ⟨List.replicate events.length true, []⟩
    rw [dedupeSupersededCommitEvents, he] at hresult
    cases hresult
  · intro hnull
    have hsub := survivors_sublist events
    have hfirst := dedupe_ok hreadable hnull
    have hsecond := dedupe_ok (fun ev h => hreadable ev (hsub.subset h))
      (fun ev h => hnull ev (hsub.subset h))
    refine ⟨hfirst, ?_⟩
    rw [hfirst, Except.bind, hsecond, survivors_survivors]

theorem keysReadable_of_strings {ev : LaneEvent R} {members : List (JsString × Json)}
    (hdata : ev.data = some (.obj members)) (h : ∀ m ∈ members, ∃ s, m.2 = .str s) :
    ev.KeysReadable := by
  intro data hcommit field _ value hvalue
  rw [LaneEvent.commitData, hdata] at hcommit
  split at hcommit
  · obtain rfl := Option.some.inj hcommit
    obtain ⟨m, hm, rfl⟩ := Option.map_eq_some_iff.mp hvalue
    exact h m (List.mem_of_find?_eq_some hm)
  · cases hcommit

def commitEvent (data : Option Json) (seq : ℚ) : LaneEvent Unit :=
  ⟨.laneCommitCreated, .completed, js "2026-05-23T00:00:00.000Z", none, none, data, ⟨seq, none, ()⟩⟩

/-- A rebased commit, with a commit of its own between its two reports. -/
def rebased : List (LaneEvent Unit) :=
  [commitEvent (some (Json.ofMembers [("commit", .str (js "a1")),
      ("canonicalCommit", .str (js "c"))])) 1,
    commitEvent (some (Json.ofMembers [("commit", .str (js "b"))])) 2,
    commitEvent (some (Json.ofMembers [("commit", .str (js "a2")),
      ("canonicalCommit", .str (js "c"))])) 3]

theorem rebased_deduped :
    dedupeSupersededCommitEvents rebased = .ok (survivors rebased) ∧
      (dedupeSupersededCommitEvents rebased).bind dedupeSupersededCommitEvents =
        dedupeSupersededCommitEvents rebased := by
  apply (dedupeSupersededCommitEvents_iff rebased ?_).mpr
  · simp [rebased, commitEvent, Json.ofMembers]
  · have hstrings : ∀ ev ∈ rebased, ∃ members, ev.data = some (.obj members) ∧
        ∀ m ∈ members, ∃ s, m.2 = .str s := by
      simp only [rebased, commitEvent, Json.ofMembers, List.forall_mem_cons]
      refine ⟨⟨_, rfl, ?_⟩, ⟨_, rfl, ?_⟩, ⟨_, rfl, ?_⟩, by simp⟩ <;> simp
    intro ev hev
    obtain ⟨members, hdata, hall⟩ := hstrings ev hev
    exact keysReadable_of_strings hdata hall

/-- A commit reported with `null` for its data is one to keep. -/
theorem null_commit_throws :
    survivors [commitEvent (some .null) 1] = [commitEvent (some .null) 1] ∧
      dedupeSupersededCommitEvents [commitEvent (some .null) 1] =
        .error (typeError (js "Cannot read properties of null (reading 'supersededBy')")) :=
  ⟨rfl, rfl⟩

end result

end Solarcido.Lanes
