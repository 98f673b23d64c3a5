import Solarcido.Lanes.Reconcile

namespace Solarcido.Lanes

open Text Succession

section deduping

variable {R : Type}

/-- What the loop changes. -/
structure Distinct (R : Type) where
  seen : List JsString
  result : List (LaneEvent R)

def isTerminalEvent (event : LaneEventName) : Bool := TERMINAL_EVENTS.contains event

def Distinct.take (state : Distinct R) (ev : LaneEvent R) : Distinct R :=
  if isTerminalEvent ev.event then
    match ev.metadata.eventFingerprint with
    | none => { state with result := state.result ++ [ev] }
    | some fp =>
      if state.seen.contains fp then state
      else { seen := state.seen ++ [fp], result := state.result ++ [ev] }
  else { state with result := state.result ++ [ev] }

def dedupeTerminalEvents (events : List (LaneEvent R)) : List (LaneEvent R) :=
  (events.foldl Distinct.take ⟨[], []⟩).result

/-- A terminal event with the fingerprint of an earlier one. -/
def repeats (events : List (LaneEvent R)) (ev : LaneEvent R) : Bool :=
  ev.isTerminal && events.any fun other =>
    other.isTerminal && decide (other.seq < ev.seq) && sameFingerprint ev other

theorem isTerminalEvent_eq (ev : LaneEvent R) : isTerminalEvent ev.event = ev.isTerminal := by
  rw [LaneEvent.isTerminal]
  cases ev.event <;> decide

/-- What the loop has come to after some events. -/
structure Distinct.Holds (state : Distinct R) (l : List (LaneEvent R)) : Prop where
  seen : ∀ fp, fp ∈ state.seen ↔
    ∃ ev ∈ l, ev.isTerminal = true ∧ ev.metadata.eventFingerprint = some fp
  result : state.result = l.filter fun ev => !repeats l ev

variable {l : List (LaneEvent R)} {ev : LaneEvent R}

theorem repeats_iff (events : List (LaneEvent R)) (ev : LaneEvent R) : repeats events ev = true ↔
    ev.isTerminal = true ∧ ∃ other ∈ events, other.isTerminal = true ∧ other.seq < ev.seq ∧
      sameFingerprint ev other = true := by
  simp [repeats, and_assoc]

theorem repeats_append {m : List (LaneEvent R)}
    (h : (l ++ m).Pairwise fun a b => a.seq < b.seq) (hmem : ev ∈ l) :
    repeats (l ++ m) ev = repeats l ev := by
  rw [Bool.eq_iff_iff, repeats_iff, repeats_iff]
  constructor
  · rintro ⟨hterminal, other, hother, hot, hlt, hsame⟩
    refine ⟨hterminal, other, ?_, hot, hlt, hsame⟩
    rcases List.mem_append.mp hother with hother | hother
    · exact hother
    · exact absurd hlt ((List.pairwise_append.mp h).2.2 ev hmem other hother).asymm
  · rintro ⟨hterminal, other, hother, hrest⟩
    exact ⟨hterminal, other, List.mem_append_left m hother, hrest⟩

theorem repeats_last (h : (l ++ [ev]).Pairwise fun a b => a.seq < b.seq) :
    repeats (l ++ [ev]) ev = true ↔ ev.isTerminal = true ∧
      ∃ other ∈ l, other.isTerminal = true ∧ sameFingerprint ev other = true := by
  rw [repeats_iff]
  have hearlier : ∀ other ∈ l, other.seq < ev.seq := by
    intro other hother
    exact (List.pairwise_append.mp h).2.2 other hother ev (by simp)
  constructor
  · rintro ⟨hterminal, other, hother, hot, hlt, hsame⟩
    refine ⟨hterminal, other, ?_, hot, hsame⟩
    rcases List.mem_append.mp hother with hother | hother
    · exact hother
    · rw [List.mem_singleton.mp hother] at hlt
      exact absurd hlt (lt_irrefl _)
  · rintro ⟨hterminal, other, hother, hot, hsame⟩
    exact ⟨hterminal, other, List.mem_append_left [ev] hother, hot, hearlier other hother, hsame⟩

theorem sameFingerprint_iff {fp : JsString} (hfp : ev.metadata.eventFingerprint = some fp)
    (other : LaneEvent R) :
    sameFingerprint ev other = true ↔ other.metadata.eventFingerprint = some fp := by
  rw [sameFingerprint, hfp]
  cases other.metadata.eventFingerprint with
  | none => simp
  | some fp' => simp [eq_comm]

theorem sameFingerprint_none (hfp : ev.metadata.eventFingerprint = none) (other : LaneEvent R) :
    sameFingerprint ev other = false := by
  rw [sameFingerprint, hfp]

theorem exists_snoc (p : LaneEvent R → Prop) :
    (∃ other ∈ l ++ [ev], p other) ↔ (∃ other ∈ l, p other) ∨ p ev := by
  simp only [List.mem_append, List.mem_singleton, or_and_right, exists_or, exists_eq_left]

/-- One event is put behind the rest, or repeats what was seen. -/
theorem Distinct.Holds.take {state : Distinct R} (hstate : state.Holds l)
    (h : (l ++ [ev]).Pairwise fun a b => a.seq < b.seq) : (state.take ev).Holds (l ++ [ev]) := by
  have hrest : l.filter (fun other => !repeats (l ++ [ev]) other) =
      l.filter fun other => !repeats l other := by
    apply List.filter_congr
    intro other hother
    rw [repeats_append h hother]
  have hpushed : repeats (l ++ [ev]) ev = false → state.result ++ [ev] =
      (l ++ [ev]).filter fun other => !repeats (l ++ [ev]) other := by
    intro hnew
    rw [List.filter_append, hrest, ← hstate.result]
    simp [hnew]
  rw [Distinct.take, isTerminalEvent_eq]
  cases hterminal : ev.isTerminal with
  | false =>
    refine ⟨?_, hpushed ?_⟩
    · intro fp
      rw [if_neg Bool.false_ne_true, hstate.seen]
      simp [hterminal]
    · simp [repeats, hterminal]
  | true =>
    rw [if_pos rfl]
    cases hfp : ev.metadata.eventFingerprint with
    | none =>
      refine ⟨?_, hpushed ?_⟩
      · intro fp
        rw [hstate.seen]
        simp [hfp]
      · rw [← Bool.not_eq_true, repeats_last h]
        simp [sameFingerprint_none hfp]
    | some fp =>
      have hseen : repeats (l ++ [ev]) ev = true ↔ fp ∈ state.seen := by
        rw [repeats_last h, hstate.seen]
        simp [hterminal, sameFingerprint_iff hfp]
      by_cases hmem : fp ∈ state.seen
      · simp only [List.contains_iff_mem, hmem, if_true]
        refine ⟨?_, ?_⟩
        · intro fp'
          rw [hstate.seen, exists_snoc, hterminal, hfp]
          constructor
          · exact Or.inl
          · rintro (hold | ⟨-, hnew⟩)
            · exact hold
            · rw [← Option.some.inj hnew]
              exact (hstate.seen fp).mp hmem
        · rw [List.filter_append, hrest, ← hstate.result]
          simp [hseen.mpr hmem]
      · simp only [List.contains_iff_mem, hmem, if_false]
        refine ⟨?_, hpushed (Bool.not_eq_true _ ▸ mt hseen.mp hmem)⟩
        intro fp'
        rw [List.mem_append, hstate.seen, exists_snoc, hterminal, hfp, List.mem_singleton,
          Option.some_inj, eq_comm (a := fp'), eq_self, true_and]

theorem dedupeTerminalEvents_eq (h : l.Pairwise fun a b => a.seq < b.seq) :
    dedupeTerminalEvents l = l.filter fun ev => !repeats l ev := by
  have hstate : (l.foldl Distinct.take ⟨[], []⟩).Holds l := by
    induction l using List.reverseRecOn with
    | nil => exact ⟨by simp, rfl⟩
    | append_singleton l ev ih =>
      rw [List.foldl_append]
      exact (ih (List.pairwise_append.mp h).1).take h
  exact hstate.result

end deduping

section outcome

variable {R : Type} (numberText : ℚ → JsString)

/-- The event that a burst comes to. -/
def finalEvent (events : List (LaneEvent R)) : Option (LaneEvent R) :=
  (reconcileTerminalEvents numberText events).map Prod.fst

variable {numberText} {l : List (LaneEvent R)}

theorem inOrder_increasing_self (h : l.Pairwise fun a b => a.seq < b.seq) :
    inOrder LaneEvent.seq l = l := by
  apply List.mergeSort_of_pairwise
  apply h.imp
  intro a b hlt
  exact decide_eq_true hlt.le

theorem finalEvent_eq (h : l.Pairwise fun a b => a.seq < b.seq) :
    (¬ Doubted l → finalEvent numberText l =
      lastHolder (contradicts numberText) (l.filter LaneEvent.isTerminal)) ∧
    (Doubted l → finalEvent numberText l =
      (lastHolder (contradicts numberText) (l.filter LaneEvent.isTerminal)).map
        uncertainTerminal) := by
  have hholds := foldl_take_holds numberText l
  rw [finalEvent, reconcileTerminalEvents_eq, inOrder_increasing_self h]
  dsimp only
  rw [Option.map_map, hholds.lastTerminal]
  refine ⟨?_, ?_⟩
  · intro hsure
    rw [← hholds.uncertainty, Bool.not_eq_true] at hsure
    simp [hsure, Function.comp_def]
  · intro hdoubted
    rw [← hholds.uncertainty] at hdoubted
    simp [hdoubted, Function.comp_def]

/-- A terminal event is there, or one before it, when the repeated ones are gone. -/
theorem exists_first_terminal (h : l.Pairwise fun a b => a.seq < b.seq) {t : LaneEvent R}
    (ht : t ∈ l) (hterminal : t.isTerminal = true) :
    ∃ o ∈ l, o.isTerminal = true ∧ repeats l o = false ∧ o.seq ≤ t.seq := by
  have hsorted := h.filter LaneEvent.isTerminal
  cases hlist : l.filter LaneEvent.isTerminal with
  | nil => exact absurd hterminal (List.filter_eq_nil_iff.mp hlist t ht)
  | cons o rest =>
    have hmem : ∀ x, x ∈ o :: rest ↔ x ∈ l ∧ x.isTerminal = true := by
      intro x
      rw [← hlist, List.mem_filter]
    rw [hlist, List.pairwise_cons] at hsorted
    have hleast : ∀ x ∈ l, x.isTerminal = true → o.seq ≤ x.seq := by
      intro x hx hxt
      rcases List.mem_cons.mp ((hmem x).mpr ⟨hx, hxt⟩) with rfl | hx
      · exact le_refl _
      · exact (hsorted.1 x hx).le
    obtain ⟨ho, hot⟩ := (hmem o).mp List.mem_cons_self
    refine ⟨o, ho, hot, ?_, hleast t ht hterminal⟩
    rw [← Bool.not_eq_true, repeats_iff]
    rintro ⟨-, x, hx, hxt, hlt, -⟩
    exact absurd hlt (not_lt_of_ge (hleast x hx hxt))

theorem doubted_dedupe (h : l.Pairwise fun a b => a.seq < b.seq) :
    Doubted (l.filter fun ev => !repeats l ev) ↔ Doubted l := by
  rw [doubted_iff h, doubted_iff (h.filter _)]
  constructor
  · rintro ⟨t, ht, r, hr, hrest⟩
    exact ⟨t, (List.mem_filter.mp ht).1, r, (List.mem_filter.mp hr).1, hrest⟩
  · rintro ⟨t, ht, r, hr, hterminal, hreconciled, hlt⟩
    obtain ⟨o, ho, hot, hnew, hle⟩ := exists_first_terminal h ht hterminal
    have hplain : r.isTerminal = false := by rw [LaneEvent.isTerminal, hreconciled]; rfl
    refine ⟨o, List.mem_filter.mpr ⟨ho, by rw [hnew]; rfl⟩, r,
      List.mem_filter.mpr ⟨hr, by simp [repeats, hplain]⟩, hot, hreconciled, hle.trans_lt hlt⟩

/-- The terminal events in their order, and those among them that repeat none before. -/
def terminals (l : List (LaneEvent R)) : List (LaneEvent R) := l.filter LaneEvent.isTerminal

def newTerminals (l : List (LaneEvent R)) : List (LaneEvent R) :=
  (terminals l).filter fun ev => !repeats l ev

theorem terminals_increasing (h : l.Pairwise fun a b => a.seq < b.seq) :
    (terminals l).Pairwise fun a b => a.seq < b.seq := h.filter LaneEvent.isTerminal

theorem eq_of_seq (h : l.Pairwise fun a b => a.seq < b.seq) {a b : LaneEvent R} (ha : a ∈ l)
    (hb : b ∈ l) (hseq : a.seq = b.seq) : a = b := by
  have hnodup : (l.map LaneEvent.seq).Nodup := List.pairwise_map.mpr (h.imp ne_of_lt)
  exact List.inj_on_of_nodup_map hnodup ha hb hseq

theorem lastHolder_mem {m : List (LaneEvent R)} {ev : LaneEvent R}
    (h : lastHolder (contradicts numberText) m = some ev) : ev ∈ m := by
  obtain ⟨before, after, rfl, -⟩ := lastHolder_spec _ h
  simp

theorem uncertainTerminal_inj (h : l.Pairwise fun a b => a.seq < b.seq)
    {first second : Option (LaneEvent R)} (hfirst : ∀ ev, first = some ev → ev ∈ l)
    (hsecond : ∀ ev, second = some ev → ev ∈ l) :
    first.map uncertainTerminal = second.map uncertainTerminal ↔ first = second := by
  constructor
  · intro hmap
    cases first with
    | none => exact (Option.map_eq_none_iff.mp hmap.symm).symm
    | some a =>
      obtain ⟨b, hb, hwrapped⟩ := Option.map_eq_some_iff.mp hmap.symm
      have hseq : b.seq = a.seq :=
        congrArg (fun ev => ev.metadata.seq) hwrapped
      rw [hb, eq_of_seq h (hsecond b hb) (hfirst a rfl) hseq]
  · intro hsame
    rw [hsame]

theorem newTerminals_eq (h : l.Pairwise fun a b => a.seq < b.seq) :
    newTerminals l = terminals (dedupeTerminalEvents l) := by
  rw [dedupeTerminalEvents_eq h, newTerminals, terminals, terminals, List.filter_filter,
    List.filter_filter]
  simp only [Bool.and_comm]

/-- The outcome stays when the same terminal event is held to the end. -/
theorem finalEvent_dedupe_iff (h : l.Pairwise fun a b => a.seq < b.seq) :
    finalEvent numberText l = finalEvent numberText (dedupeTerminalEvents l) ↔
      lastHolder (contradicts numberText) (terminals l) =
        lastHolder (contradicts numberText) (newTerminals l) := by
  rw [newTerminals_eq h, dedupeTerminalEvents_eq h, terminals, terminals]
  have hkept := h.filter fun ev => !repeats l ev
  by_cases hdoubted : Doubted l
  · rw [(finalEvent_eq h).2 hdoubted, (finalEvent_eq hkept).2 ((doubted_dedupe h).mpr hdoubted)]
    apply uncertainTerminal_inj h
    · intro ev hev
      exact (List.mem_filter.mp (lastHolder_mem hev)).1
    · intro ev hev
      exact (List.mem_filter.mp (List.mem_filter.mp (lastHolder_mem hev)).1).1
  · rw [(finalEvent_eq h).1 hdoubted, (finalEvent_eq hkept).1 (mt (doubted_dedupe h).mp hdoubted)]

theorem terminals_snoc (ev : LaneEvent R) :
    terminals (l ++ [ev]) = terminals l ++ if ev.isTerminal then [ev] else [] := by
  rw [terminals, List.filter_append]
  cases hterminal : ev.isTerminal <;> simp [terminals, hterminal]

theorem newTerminals_snoc {ev : LaneEvent R}
    (h : (l ++ [ev]).Pairwise fun a b => a.seq < b.seq) : newTerminals (l ++ [ev]) =
      newTerminals l ++ if ev.isTerminal && !repeats (l ++ [ev]) ev then [ev] else [] := by
  have hrest : (terminals l).filter (fun other => !repeats (l ++ [ev]) other) = newTerminals l := by
    apply List.filter_congr
    intro other hother
    rw [repeats_append h (List.mem_filter.mp hother).1]
  rw [newTerminals, terminals_snoc, List.filter_append, hrest]
  cases ev.isTerminal <;> cases hrepeats : repeats (l ++ [ev]) ev <;> simp [hrepeats]

/-- No event that takes the place of another repeats an earlier one: the same is held. -/
theorem lastHolder_same (h : l.Pairwise fun a b => a.seq < b.seq)
    (hnew : ∀ ev, Reached (contradicts numberText) (terminals l) ev → repeats l ev = false) :
    lastHolder (contradicts numberText) (terminals l) =
      lastHolder (contradicts numberText) (newTerminals l) := by
  induction l using List.reverseRecOn with
  | nil => rfl
  | append_singleton l ev ih =>
    have hbefore := (List.pairwise_append.mp h).1
    have hreached : ∀ other, Reached (contradicts numberText) (terminals l) other →
        repeats l other = false := by
      intro other hother
      rw [← repeats_append h (List.mem_filter.mp (reached_mem hother)).1]
      apply hnew
      rw [terminals_snoc]
      exact hother.mono
    have hsame := ih hbefore hreached
    rw [terminals_snoc, newTerminals_snoc h]
    cases hterminal : ev.isTerminal with
    | false => simpa using hsame
    | true =>
      cases hrepeats : repeats (l ++ [ev]) ev with
      | false =>
        simp only [Bool.not_false, Bool.and_self, if_true]
        rw [lastHolder_snoc, lastHolder_snoc, hsame]
      | true =>
        simp only [Bool.not_true, Bool.and_false, if_true, if_false, Bool.false_eq_true]
        rw [List.append_nil, ← hsame, lastHolder_snoc]
        obtain ⟨-, earlier, hearlier, het, -⟩ := (repeats_last h).mp hrepeats
        cases hheld : lastHolder (contradicts numberText) (terminals l) with
        | none =>
          rw [lastHolder_eq_none_iff] at hheld
          have hmem : earlier ∈ terminals l := List.mem_filter.mpr ⟨hearlier, het⟩
          rw [hheld] at hmem
          cases hmem
        | some last =>
          cases hcontradicts : contradicts numberText last ev with
          | false => simp [succeed, hcontradicts]
          | true =>
            have htook : lastHolder (contradicts numberText) (terminals (l ++ [ev])) = some ev := by
              rw [terminals_snoc, hterminal, if_pos rfl, lastHolder_snoc, hheld]
              simp [succeed, hcontradicts]
            have hev := ((lastHolder_iff_reached (terminals_increasing h) ev).mp htook).1
            rw [hnew ev hev] at hrepeats
            cases hrepeats

/-- The outcome is the same for every initial part when no event that takes the place of another
repeats an earlier one. -/
theorem parts_agree_iff (h : l.Pairwise fun a b => a.seq < b.seq) :
    (∀ part, part <+: l →
      finalEvent numberText part = finalEvent numberText (dedupeTerminalEvents part)) ↔
      ∀ ev, Reached (contradicts numberText) (terminals l) ev → repeats l ev = false := by
  constructor
  · intro hagree ev hreached
    obtain ⟨hmem, hterminal⟩ := List.mem_filter.mp (reached_mem hreached)
    obtain ⟨before, after, rfl⟩ := List.append_of_mem hmem
    have hpart : before ++ [ev] <+: before ++ ev :: after := ⟨after, by simp⟩
    have hincreasing : (before ++ [ev]).Pairwise fun a b => a.seq < b.seq :=
      h.sublist hpart.sublist
    have hsame := (finalEvent_dedupe_iff hincreasing).mp (hagree _ hpart)
    have hheld : lastHolder (contradicts numberText) (terminals (before ++ [ev])) = some ev := by
      have hnodup := (terminals_increasing h).imp (S := (· ≠ ·)) fun {a b} hlt heq =>
        absurd (heq ▸ hlt) (lt_irrefl a.seq)
      obtain ⟨first, rest, hsplit, htook⟩ := (reached_iff hnodup ev).mp hreached
      have hparts : terminals (before ++ ev :: after) =
          terminals before ++ ev :: terminals after := by
        rw [terminals, List.filter_append, List.filter_cons_of_pos hterminal]
        rfl
      rw [terminals_snoc, hterminal, if_pos rfl, ← split_unique hnodup hsplit hparts]
      exact htook
    have hkept := lastHolder_mem (hsame.symm.trans hheld)
    have hnew := (List.mem_filter.mp hkept).2
    have hlonger : before ++ ev :: after = (before ++ [ev]) ++ after := by simp
    rw [hlonger] at h ⊢
    rw [repeats_append h (by simp)]
    simpa using hnew
  · rintro hnew part ⟨rest, rfl⟩
    have hpart := (List.pairwise_append.mp h).1
    apply (finalEvent_dedupe_iff hpart).mpr
    apply lastHolder_same hpart
    intro ev hreached
    rw [← repeats_append h (List.mem_filter.mp (reached_mem hreached)).1]
    apply hnew
    rw [terminals, List.filter_append]
    exact hreached.mono

def endedEvent (event : LaneEventName) (status : LaneEventStatus) (seq : ℚ) (fp : String) :
    LaneEvent Unit :=
  ⟨event, status, js "2026-05-23T00:00:00.000Z", none, none, none, ⟨seq, some (js fp), ()⟩⟩

/-- A lane that is reported finished twice, and failed behind it. -/
def repeated : List (LaneEvent Unit) :=
  [endedEvent .laneFinished .completed 1 "a", endedEvent .laneFinished .completed 2 "a",
    endedEvent .laneFailed .failed 3 "b"]

theorem repeated_increasing : repeated.Pairwise fun a b => a.seq < b.seq := by
  simp [repeated, endedEvent, LaneEvent.seq]
  norm_num

/-- A lane that is reported finished, failed, and finished once more. -/
def flapping : List (LaneEvent Unit) :=
  [endedEvent .laneFinished .completed 1 "a", endedEvent .laneFailed .failed 2 "b",
    endedEvent .laneFinished .completed 3 "a"]

end outcome

end Solarcido.Lanes
