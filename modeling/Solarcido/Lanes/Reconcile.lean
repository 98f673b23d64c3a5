import Solarcido.Lanes.Events

namespace Solarcido.Lanes

open Text Succession

variable {R : Type} (numberText : ℚ → JsString)

def LaneEvent.seq (ev : LaneEvent R) : ℚ := ev.metadata.seq

def LaneEvent.isTerminal (ev : LaneEvent R) : Bool := classifyEventTerminality ev.event = .terminal

/-- A later terminal event that takes the place of the last one. -/
def contradicts (last ev : LaneEvent R) : Bool :=
  !sameFingerprint ev last && eventsMateriallyDiffer numberText last ev

section loop

variable {numberText} {burst : Burst R} {ev : LaneEvent R}

theorem take_terminal (h : ev.isTerminal = true) : burst.take numberText ev =
    { burst with lastTerminal := succeed (contradicts numberText) burst.lastTerminal ev } := by
  have hterminal : classifyEventTerminality ev.event = .terminal := of_decide_eq_true h
  rw [Burst.take, hterminal]
  obtain ⟨lastTerminal, flag, kept⟩ := burst
  cases lastTerminal with
  | none => rfl
  | some last =>
    simp only [succeed, contradicts]
    by_cases hsame : sameFingerprint ev last = true
    · simp [hsame]
    · by_cases hdiffer : eventsMateriallyDiffer numberText last ev = true
      · simp [hsame, hdiffer]
      · simp [hsame, hdiffer]

theorem uncertain_iff : classifyEventTerminality ev.event = .uncertainty ↔
    ev.event = .laneReconciled := by
  cases ev.event <;> decide

theorem take_other (h : ev.isTerminal = false) : burst.take numberText ev =
    { burst with
      postTerminalUncertainty := burst.postTerminalUncertainty ||
        (decide (ev.event = .laneReconciled) && burst.lastTerminal.isSome)
      reconciledEvents := burst.reconciledEvents ++ [ev] } := by
  have hterminal : classifyEventTerminality ev.event ≠ .terminal := of_decide_eq_false h
  rw [Burst.take]
  cases hclass : classifyEventTerminality ev.event with
  | terminal => exact absurd hclass hterminal
  | uncertainty => simp [uncertain_iff.mp hclass]
  | advisory =>
    have hnot : ev.event ≠ .laneReconciled := by
      intro heq
      rw [uncertain_iff.mpr heq] at hclass
      cases hclass
    simp [hnot]

/-- Some reconciled event comes behind a terminal one. -/
def Doubted (l : List (LaneEvent R)) : Prop :=
  ∃ t r, [t, r].Sublist l ∧ t.isTerminal = true ∧ r.event = .laneReconciled

theorem doubted_snoc (l : List (LaneEvent R)) (ev : LaneEvent R) : Doubted (l ++ [ev]) ↔
    Doubted l ∨ (ev.event = .laneReconciled ∧ ∃ t ∈ l, t.isTerminal = true) := by
  constructor
  · rintro ⟨t, r, hpair, ht, hr⟩
    obtain ⟨first, second, hsplit, hfirst, hsecond⟩ := List.sublist_append_iff.mp hpair
    rcases List.sublist_singleton.mp hsecond with rfl | rfl
    · rw [List.append_nil] at hsplit
      exact Or.inl ⟨t, r, hsplit ▸ hfirst, ht, hr⟩
    · have hparts : [t] ++ [r] = first ++ [ev] := hsplit
      obtain ⟨rfl, hlast⟩ := List.append_inj' hparts rfl
      obtain rfl := List.singleton_inj.mp hlast
      exact Or.inr ⟨hr, t, List.singleton_sublist.mp hfirst, ht⟩
  · rintro (⟨t, r, hpair, ht, hr⟩ | ⟨hr, t, hmem, ht⟩)
    · exact ⟨t, r, hpair.trans (List.sublist_append_left l [ev]), ht, hr⟩
    · exact ⟨t, ev, (List.singleton_sublist.mpr hmem).append (List.Sublist.refl [ev]), ht, hr⟩

theorem doubted_iff {l : List (LaneEvent R)} (h : l.Pairwise fun a b => a.seq < b.seq) :
    Doubted l ↔
    ∃ t ∈ l, ∃ r ∈ l, t.isTerminal = true ∧ r.event = .laneReconciled ∧ t.seq < r.seq := by
  simp only [Doubted, pair_sublist_iff h]
  constructor
  · rintro ⟨t, r, ⟨ht, hr, hlt⟩, hterminal, hreconciled⟩
    exact ⟨t, ht, r, hr, hterminal, hreconciled, hlt⟩
  · rintro ⟨t, ht, r, hr, hterminal, hreconciled, hlt⟩
    exact ⟨t, r, ⟨ht, hr, hlt⟩, hterminal, hreconciled⟩

end loop

/-- What the loop has come to after some events. -/
structure Burst.Holds (burst : Burst R) (l : List (LaneEvent R)) : Prop where
  lastTerminal : burst.lastTerminal =
    lastHolder (contradicts numberText) (l.filter LaneEvent.isTerminal)
  uncertainty : burst.postTerminalUncertainty = true ↔ Doubted l
  rest : burst.reconciledEvents = l.filter fun ev => !ev.isTerminal

theorem foldl_take_holds (l : List (LaneEvent R)) :
    (l.foldl (Burst.take numberText) .empty).Holds numberText l := by
  induction l using List.reverseRecOn with
  | nil =>
    refine ⟨rfl, ?_, rfl⟩
    constructor
    · intro h
      cases h
    · rintro ⟨t, r, hpair, -⟩
      cases List.sublist_nil.mp hpair
  | append_singleton l ev ih =>
    rw [List.foldl_append, List.foldl_cons, List.foldl_nil]
    generalize l.foldl (Burst.take numberText) .empty = burst at ih
    cases hterminal : ev.isTerminal with
    | true =>
      rw [take_terminal hterminal]
      refine ⟨?_, ?_, ?_⟩
      · have hfilter : (l ++ [ev]).filter LaneEvent.isTerminal =
            l.filter LaneEvent.isTerminal ++ [ev] := by simp [hterminal]
        rw [hfilter, lastHolder_snoc, ← ih.lastTerminal]
      · rw [doubted_snoc, ih.uncertainty]
        constructor
        · exact Or.inl
        · rintro (h | ⟨hr, -⟩)
          · exact h
          · rw [LaneEvent.isTerminal, hr] at hterminal
            cases hterminal
      · simp [List.filter_append, hterminal, ih.rest]
    | false =>
      rw [take_other hterminal]
      refine ⟨?_, ?_, ?_⟩
      · simp [List.filter_append, hterminal, ih.lastTerminal]
      · have hsome : burst.lastTerminal.isSome = true ↔ ∃ t ∈ l, t.isTerminal = true := by
          rw [Option.isSome_iff_ne_none, ih.lastTerminal, ne_eq, lastHolder_eq_none_iff,
            List.filter_eq_nil_iff]
          simp
        rw [doubted_snoc, Bool.or_eq_true, Bool.and_eq_true, decide_eq_true_iff, ih.uncertainty,
          hsome]
      · simp [List.filter_append, hterminal, ih.rest]

/-- What is reconciled is told by the events in their order alone. -/
theorem reconcileTerminalEvents_eq (events : List (LaneEvent R)) :
    reconcileTerminalEvents numberText events =
      let sorted := inOrder LaneEvent.seq events
      let burst := sorted.foldl (Burst.take numberText) .empty
      burst.lastTerminal.map fun last =>
        (if burst.postTerminalUncertainty then uncertainTerminal last else last,
          burst.reconciledEvents) := by
  rw [reconcileTerminalEvents]
  cases events with
  | nil =>
    have hnil : inOrder LaneEvent.seq ([] : List (LaneEvent R)) = [] :=
      List.perm_nil.mp (inOrder_perm _ _)
    rw [hnil]
    rfl
  | cons ev events => rfl

theorem reconcile_perm {events other : List (LaneEvent R)}
    (hdistinct : (events.map LaneEvent.seq).Nodup) (hother : other.Perm events) :
    reconcileTerminalEvents numberText other = reconcileTerminalEvents numberText events := by
  have hsame : inOrder LaneEvent.seq events = inOrder LaneEvent.seq other :=
    inOrder_eq_of_perm hother.symm hdistinct
  rw [reconcileTerminalEvents_eq, reconcileTerminalEvents_eq, hsame]

theorem reconcile_eq_none_iff (events : List (LaneEvent R)) :
    reconcileTerminalEvents numberText events = none ↔ ∀ ev ∈ events, ev.isTerminal = false := by
  have hholds := foldl_take_holds numberText (inOrder LaneEvent.seq events)
  rw [reconcileTerminalEvents_eq]
  dsimp only
  rw [Option.map_eq_none_iff, hholds.lastTerminal, lastHolder_eq_none_iff, List.filter_eq_nil_iff]
  simp only [(inOrder_perm LaneEvent.seq events).mem_iff, Bool.not_eq_true]

/-- The terminal event that is kept, in the order of the events. -/
theorem lastTerminal_spec {l : List (LaneEvent R)}
    (hincreasing : l.Pairwise fun a b => a.seq < b.seq) {last : LaneEvent R}
    (h : lastHolder (contradicts numberText) (l.filter LaneEvent.isTerminal) = some last) :
    last ∈ l ∧ last.isTerminal = true ∧ ∀ ev ∈ l, ev.isTerminal = true → last.seq < ev.seq →
      ¬ (eventsMateriallyDiffer numberText last ev = true ∧ sameFingerprint ev last = false) := by
  obtain ⟨before, after, hsplit, hafter⟩ := lastHolder_spec _ h
  have hmem : last ∈ l.filter LaneEvent.isTerminal := by
    rw [hsplit]
    simp
  obtain ⟨hmem, hterminal⟩ := List.mem_filter.mp hmem
  refine ⟨hmem, hterminal, ?_⟩
  intro ev hev hevTerminal hlater hcontradicts
  have horder := hincreasing.filter LaneEvent.isTerminal
  have hevMem : ev ∈ l.filter LaneEvent.isTerminal := List.mem_filter.mpr ⟨hev, hevTerminal⟩
  rw [hsplit] at horder hevMem
  have hkept := hafter ev (mem_behind horder hevMem hlater)
  rw [contradicts, hcontradicts.1, hcontradicts.2] at hkept
  cases hkept

/-- Events that are told apart by their numbers come to the same outcome in every order. There
is one when some event is terminal; it is in doubt when a reconciled event comes behind a
terminal one, and is else a terminal event that no later one contradicts. -/
theorem reconcile_settled (events : List (LaneEvent R))
    (hdistinct : (events.map LaneEvent.seq).Nodup) :
    (∀ other, other.Perm events →
      reconcileTerminalEvents numberText other = reconcileTerminalEvents numberText events) ∧
    (reconcileTerminalEvents numberText events = none ↔ ∀ ev ∈ events, ev.isTerminal = false) ∧
    ∀ final rest, reconcileTerminalEvents numberText events = some (final, rest) →
      rest = (inOrder LaneEvent.seq events).filter (fun ev => !ev.isTerminal) ∧
      (final.event = .laneReconciled ↔ ∃ t ∈ events, ∃ r ∈ events,
        t.isTerminal = true ∧ r.event = .laneReconciled ∧ t.seq < r.seq) ∧
      (final.event ≠ .laneReconciled → final ∈ events ∧ final.isTerminal = true ∧
        ∀ ev ∈ events, ev.isTerminal = true → final.seq < ev.seq →
          ¬ (eventsMateriallyDiffer numberText final ev = true ∧
            sameFingerprint ev final = false)) := by
  have hperm := inOrder_perm LaneEvent.seq events
  have hincreasing := inOrder_increasing hdistinct
  refine ⟨fun other hother => reconcile_perm numberText hdistinct hother,
    reconcile_eq_none_iff numberText events, ?_⟩
  intro final rest hresult
  rw [reconcileTerminalEvents_eq] at hresult
  dsimp only at hresult
  have hholds := foldl_take_holds numberText (inOrder LaneEvent.seq events)
  generalize (inOrder LaneEvent.seq events).foldl (Burst.take numberText) .empty = burst
    at hresult hholds
  obtain ⟨last, hlast, hpair⟩ := Option.map_eq_some_iff.mp hresult
  obtain ⟨hfinal, hrest⟩ := Prod.mk.inj hpair
  have hdoubted : Doubted (inOrder LaneEvent.seq events) ↔ ∃ t ∈ events, ∃ r ∈ events,
      t.isTerminal = true ∧ r.event = .laneReconciled ∧ t.seq < r.seq := by
    simp only [doubted_iff hincreasing, hperm.mem_iff]
  rw [hholds.lastTerminal] at hlast
  obtain ⟨hmem, hterminal, hkept⟩ := lastTerminal_spec numberText hincreasing hlast
  have hname : last.event ≠ .laneReconciled := by
    intro h
    rw [LaneEvent.isTerminal, h] at hterminal
    cases hterminal
  refine ⟨hrest.symm.trans hholds.rest, ?_, ?_⟩
  · rw [← hdoubted, ← hholds.uncertainty, ← hfinal]
    cases burst.postTerminalUncertainty with
    | true => simp [uncertainTerminal]
    | false => simp [hname]
  · intro hsure
    have hlast : last = final := by
      rw [← hfinal] at hsure ⊢
      cases hflag : burst.postTerminalUncertainty with
      | true => simp [hflag, uncertainTerminal] at hsure
      | false => rfl
    subst hlast
    exact ⟨hperm.mem_iff.mp hmem, hterminal, fun ev hev => hkept ev (hperm.mem_iff.mpr hev)⟩

def plainEvent (event : LaneEventName) (status : LaneEventStatus) (seq : ℚ) : LaneEvent Unit :=
  ⟨event, status, js "2026-05-23T00:00:00.000Z", none, none, none, ⟨seq, none, ()⟩⟩

/-- A lane that is reported finished, loses its transport and is reported failed. -/
def contradictory : List (LaneEvent Unit) :=
  [plainEvent .laneFinished .completed 1, plainEvent .laneReconciled .reconciled 2,
    plainEvent .laneFailed .failed 3]

theorem contradictory_settled : reconcileTerminalEvents (fun _ => []) contradictory.reverse =
    reconcileTerminalEvents (fun _ => []) contradictory := by
  apply (reconcile_settled _ contradictory ?_).1
  · exact List.reverse_perm contradictory
  · simp [contradictory, plainEvent, LaneEvent.seq]

end Solarcido.Lanes
