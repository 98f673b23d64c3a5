import Solarcido.Crates.StreamState
import Solarcido.Lib.Brackets

namespace Solarcido.Crates

open Emitter Brackets

/-- What an event does to a content block. -/
def StreamEvent.mark : StreamEvent → Option (Mark U32)
  | .contentBlockStart index _ => some (.opens index)
  | .contentBlockDelta index _ => some (.uses index)
  | .contentBlockStop index => some (.closes index)
  | _ => none

def marks (events : List StreamEvent) : List (Mark U32) := events.filterMap StreamEvent.mark

@[simp] theorem marks_nil : marks [] = [] := rfl

@[simp] theorem marks_append (es fs : List StreamEvent) : marks (es ++ fs) = marks es ++ marks fs :=
  List.filterMap_append

namespace ToolCallState

def phase (s : ToolCallState) : Phase :=
  if s.started then (if s.stopped then .closed else .opened) else .fresh

/-- The events of a step on a tool call are those of its own block. -/
structure Advances (index : U32) (s : ToolCallState) (es : List StreamEvent) (t : ToolCallState) :
    Prop where
  path : Path index s.phase (marks es) t.phase
  blocks : ∀ e ∈ es, e.mark.isSome
  openaiIndex : t.openaiIndex = s.openaiIndex

/-- Arguments that come for a stopped block are not let out. -/
structure Ready (s : ToolCallState) : Prop where
  within : s.emittedLen ≤ s.arguments.length
  started : s.stopped = true → s.started = true
  quiet : s.stopped = true → s.arguments.length ≤ s.emittedLen

/-- All arguments of a started block have been let out. -/
structure Settled (s : ToolCallState) : Prop where
  within : s.emittedLen ≤ s.arguments.length
  started : s.stopped = true → s.started = true
  quiet : s.started = true → s.arguments.length ≤ s.emittedLen

theorem Settled.ready {s : ToolCallState} (h : Settled s) : Ready s :=
  ⟨h.within, h.started, fun hs => h.quiet (h.started hs)⟩

/-- With an index for its block a step succeeds, and leads from one condition to another. -/
def Leads (index : U32) (P : ToolCallState → Prop) (f : Step ToolCallState)
    (Q : ToolCallState → Prop) : Prop :=
  ∀ s, s.blockIndex = .ok index → P s → ∃ es t, f s = .ok (es, t) ∧ Advances index s es t ∧ Q t

section steps

variable {index : U32} {P Q R : ToolCallState → Prop} {f g : Step ToolCallState}

theorem Leads.refl (s : ToolCallState) : Advances index s [] s :=
  ⟨.refl index _, by simp, rfl⟩

theorem Advances.trans {s t u : ToolCallState} {es fs : List StreamEvent}
    (h : Advances index s es t) (h' : Advances index t fs u) : Advances index s (es ++ fs) u := by
  refine ⟨?_, ?_, h'.openaiIndex.trans h.openaiIndex⟩
  · rw [marks_append]
    exact h.path.append h'.path
  · intro e he
    obtain he | he := List.mem_append.mp he
    · exact h.blocks e he
    · exact h'.blocks e he

theorem Leads.andThen (hf : Leads index P f Q) (hg : Leads index Q g R) :
    Leads index P (Emitter.andThen f g) R := by
  intro s hindex hs
  obtain ⟨es, t, hft, hadv, ht⟩ := hf s hindex hs
  obtain ⟨fs, u, hgu, hadv', hu⟩ := hg t (by rw [blockIndex, hadv.openaiIndex]; exact hindex) ht
  exact ⟨es ++ fs, u, (andThen_ok_iff f g s _ u).mpr ⟨es, t, fs, hft, hgu, rfl⟩,
    hadv.trans hadv', hu⟩

theorem start_eq {s : ToolCallState} (h : s.blockIndex = .ok index) : s.start =
    .ok (if s.started then [] else (s.name.map fun name => StreamEvent.contentBlockStart index
        (.toolUse (s.id.getD (str "tool_call_" ++ RustText.decimal s.openaiIndex)) name
          (.object []))).toList,
      { s with started := s.started || s.name.isSome }) := by
  rw [start]
  cases hstarted : s.started with
  | true =>
    cases s
    simp_all
  | false =>
    rw [startEvent]
    cases hname : s.name with
    | none => simp [Except.map]
    | some name => simp [h, Except.map]

theorem delta_eq {s : ToolCallState} (h : s.blockIndex = .ok index) : s.delta =
    .ok (if s.arguments.length ≤ s.emittedLen then [] else
        [.contentBlockDelta index (.inputJsonDelta (s.arguments.drop s.emittedLen))],
      { s with emittedLen := max s.emittedLen s.arguments.length }) := by
  rw [delta]
  split
  · next hle => rw [max_eq_left hle]
  · next hlt => rw [h, max_eq_right (by omega)]; rfl

theorem stop_eq {s : ToolCallState} (h : s.blockIndex = .ok index) : s.stop =
    .ok (if s.started ∧ !s.stopped then [.contentBlockStop index] else [],
      { s with stopped := s.stopped || s.started }) := by
  rw [stop]
  split
  · next hstop => simp [h, hstop.1, Except.map]
  · next hstop =>
    cases s
    simp_all

theorem start_leads : Leads index Ready start Ready := by
  intro s hindex hs
  refine ⟨_, _, start_eq hindex, ⟨?_, ?_, rfl⟩, ⟨hs.within, ?_, hs.quiet⟩⟩
  · cases hstarted : s.started with
    | true => simp [phase, hstarted, Brackets.Path.refl]
    | false =>
      have hstopped : s.stopped = false := by
        cases hstopped : s.stopped with
        | true => rw [hs.started hstopped] at hstarted; cases hstarted
        | false => rfl
      cases hname : s.name with
      | none => simp [phase, hstarted, Brackets.Path.refl]
      | some name => simpa [phase, hstarted, hstopped, marks, StreamEvent.mark] using Path.opens index
  · intro e he
    split at he
    · simp at he
    · obtain ⟨name, -, rfl⟩ := Option.map_eq_some_iff.mp (Option.mem_toList.mp he)
      rfl
  · intro hstopped
    simp [hs.started hstopped]

theorem delta_leads : Leads index (fun s => Ready s ∧ s.started = true) delta Settled := by
  rintro s hindex ⟨hs, hstarted⟩
  refine ⟨_, _, delta_eq hindex, ⟨?_, ?_, rfl⟩,
    ⟨by simp [hs.within], hs.started, fun _ => by simp⟩⟩
  · split
    · exact .refl _ _
    · next hlt =>
      have hstopped : s.stopped = false := by
        cases hstopped : s.stopped with
        | true => exact absurd (hs.quiet hstopped) hlt
        | false => rfl
      simpa [phase, hstarted, hstopped, marks, StreamEvent.mark] using Path.uses index
  · intro e he
    split at he
    · simp at he
    · obtain rfl := List.mem_singleton.mp he
      rfl

theorem stop_leads :
    Leads index Settled stop fun t => Settled t ∧ (t.started = true → t.stopped = true) := by
  intro s hindex hs
  refine ⟨_, _, stop_eq hindex, ⟨?_, ?_, rfl⟩, ⟨hs.within, ?_, hs.quiet⟩, ?_⟩
  · cases hstarted : s.started with
    | false => simp [phase, hstarted, Brackets.Path.refl]
    | true =>
      cases hstopped : s.stopped with
      | true => simp [phase, hstarted, hstopped, Brackets.Path.refl]
      | false => simpa [phase, hstarted, hstopped, marks, StreamEvent.mark] using Path.closes index
  · intro e he
    split at he
    · obtain rfl := List.mem_singleton.mp he
      rfl
    · simp at he
  · intro h
    obtain h | h := Bool.or_eq_true_iff.mp h
    · exact hs.started h
    · exact h
  · intro h
    exact Bool.or_eq_true_iff.mpr (Or.inr h)

theorem whenStarted_leads (hf : Leads index (fun s => Ready s ∧ s.started = true) f Settled) :
    Leads index Ready (whenStarted f) Settled := by
  intro s hindex hs
  rw [whenStarted]
  split
  · next hstarted => exact hf s hindex ⟨hs, hstarted⟩
  · next hstarted =>
    exact ⟨[], s, rfl, Leads.refl s, hs.within, hs.started, fun h => absurd h hstarted⟩

theorem Leads.weaken (hf : Leads index P f Q) (hQ : ∀ s, Q s → R s) : Leads index P f R := by
  intro s hindex hs
  obtain ⟨es, t, hft, hadv, ht⟩ := hf s hindex hs
  exact ⟨es, t, hft, hadv, hQ t ht⟩

theorem quiet_leads : Leads index P (quiet fun t => t) P :=
  fun s _ hs => ⟨[], s, rfl, Leads.refl s, hs⟩

theorem advance_leads (finishReason : Option RustString) :
    Leads index Ready (advance finishReason) Settled := by
  have hlast : Leads index Settled
      (if finishReason = some (str "tool_calls") then stop else quiet fun t => t) Settled := by
    split
    · exact stop_leads.weaken fun s hs => hs.1
    · exact quiet_leads
  have hall := start_leads.andThen (whenStarted_leads (delta_leads.andThen hlast))
  intro s hindex hs
  obtain ⟨es, t, heq, hadv, ht⟩ := hall s hindex hs
  refine ⟨es, t, ?_, hadv, ht⟩
  rw [advance, hindex]
  exact heq

/-- Arguments that come for a stopped block are let out all the same. -/
theorem advance_stopped (finishReason : Option RustString) {s : ToolCallState}
    (hindex : s.blockIndex = .ok index) (hstarted : s.started = true) (hstopped : s.stopped = true)
    (hmore : ¬ s.arguments.length ≤ s.emittedLen) : s.advance finishReason =
      .ok ([.contentBlockDelta index (.inputJsonDelta (s.arguments.drop s.emittedLen))],
        { s with emittedLen := s.arguments.length }) := by
  have hstart : s.start = .ok ([], s) := by
    rw [start, if_pos hstarted]
  have hdelta : s.delta =
      .ok ([.contentBlockDelta index (.inputJsonDelta (s.arguments.drop s.emittedLen))],
        { s with emittedLen := s.arguments.length }) := by
    rw [delta, if_neg hmore, hindex]
    rfl
  have hlast (t : ToolCallState) (ht : t.stopped = true) :
      (if finishReason = some (str "tool_calls") then stop else quiet fun t => t) t = .ok ([], t) := by
    split
    · rw [stop, if_neg (by simp [ht])]
    · rfl
  rw [advance, hindex]
  simp only
  rw [andThen_ok_iff]
  refine ⟨[], s, _, hstart, ?_, rfl⟩
  rw [whenStarted, if_pos hstarted, andThen_ok_iff]
  exact ⟨_, _, [], hdelta, hlast _ hstopped, rfl⟩

theorem finish_leads :
    Leads index Settled finish fun t => Settled t ∧ (t.started = true → t.stopped = true) := by
  apply Leads.andThen (Q := Settled) _ stop_leads
  intro s hindex hs
  simp only
  split
  · exact ⟨[], s, rfl, Leads.refl s, hs⟩
  · exact (start_leads.andThen (whenStarted_leads delta_leads)) s hindex hs.ready

end steps

end ToolCallState

namespace StreamState

def textPhase (s : StreamState) : Phase :=
  if s.textStarted then (if s.textFinished then .closed else .opened) else .fresh

def toolPhase (t : Option ToolCallState) : Phase := (t.map ToolCallState.phase).getD .fresh

/-- The blocks are in the phases the state says, and all events but the first are about them. -/
structure Live (es : List StreamEvent) (s : StreamState) : Prop where
  phases : ∃ phase, Reaches (marks es) phase ∧ phase 0 = s.textPhase ∧
    ∀ k index : U32, index.val = k.val + 1 → phase index = toolPhase (s.toolCalls.get k)
  tools : ∀ k t, s.toolCalls.get k = some t →
    t.Settled ∧ ∃ index : U32, t.blockIndex = .ok index ∧ index.val = k.val + 1
  frame : ∃ message body, es = .messageStart message :: body ∧ ∀ e ∈ body, e.mark.isSome

section live

variable {es : List StreamEvent} {s : StreamState}

theorem frame_append {fs : List StreamEvent} (hfs : ∀ e ∈ fs, e.mark.isSome)
    (h : ∃ message body, es = StreamEvent.messageStart message :: body ∧ ∀ e ∈ body, e.mark.isSome) :
    ∃ message body, es ++ fs = StreamEvent.messageStart message :: body ∧
      ∀ e ∈ body, e.mark.isSome := by
  obtain ⟨message, body, rfl, hbody⟩ := h
  refine ⟨message, body ++ fs, rfl, ?_⟩
  intro e he
  obtain he | he := List.mem_append.mp he
  · exact hbody e he
  · exact hfs e he

/-- A step on the tool call of one index. -/
theorem Live.setTool (h : Live es s) {k index : U32} {t u : ToolCallState} {fs : List StreamEvent}
    (hphase : t.phase = toolPhase (s.toolCalls.get k)) (hindex : t.blockIndex = .ok index)
    (hk : index.val = k.val + 1) (hadv : t.Advances index fs u) (hu : u.Settled) :
    Live (es ++ fs) { s with toolCalls := s.toolCalls.set k u } := by
  obtain ⟨phase, hreaches, htext, htools⟩ := h.phases
  refine ⟨⟨Function.update phase index u.phase, ?_, ?_, ?_⟩, ?_, frame_append hadv.blocks h.frame⟩
  · rw [marks_append]
    apply hreaches.path
    rw [htools k index hk, ← hphase]
    exact hadv.path
  · have hzero : (0 : U32) ≠ index := by
      intro h0
      rw [← h0] at hk
      simp at hk
    rw [Function.update_of_ne hzero]
    exact htext
  · intro k' index' hk'
    rw [SortedMap.get_set]
    by_cases heq : k' = k
    · subst heq
      obtain rfl : index' = index := Fin.ext (hk'.trans hk.symm)
      rw [Function.update_self, if_pos rfl]
      rfl
    · have hne : index' ≠ index := by
        rintro rfl
        exact heq (Fin.ext (by omega))
      rw [Function.update_of_ne hne, if_neg heq]
      exact htools k' index' hk'
  · intro k' t' hget
    simp only [SortedMap.get_set] at hget
    split at hget
    · next heq =>
      obtain rfl := Option.some.inj hget
      refine ⟨hu, index, ?_, by rw [heq]; exact hk⟩
      rw [ToolCallState.blockIndex, hadv.openaiIndex]
      exact hindex
    · exact h.tools k' t' hget

theorem updateTool_live {P : ToolCallState → Prop} {f : Step ToolCallState}
    (hf : ∀ index, ToolCallState.Leads index ToolCallState.Settled f fun t => t.Settled ∧ P t) (h : Live es s)
    (k : U32) : ∃ fs calls, updateTool f k s = .ok (fs, { s with toolCalls := calls }) ∧
      Live (es ++ fs) { s with toolCalls := calls } ∧ (∀ t, calls.get k = some t → P t) ∧
      ∀ k', k' ≠ k → calls.get k' = s.toolCalls.get k' := by
  rw [updateTool]
  cases hget : s.toolCalls.get k with
  | none =>
    refine ⟨[], s.toolCalls, rfl, by rwa [List.append_nil], ?_, fun k' _ => rfl⟩
    intro t ht
    rw [hget] at ht
    cases ht
  | some t =>
    obtain ⟨ht, index, hindex, hk⟩ := h.tools k t hget
    obtain ⟨fs, u, hfu, hadv, hu, hPu⟩ := hf index t hindex ht
    refine ⟨fs, s.toolCalls.set k u, by simp [hfu, Except.map], ?_, ?_, ?_⟩
    · exact h.setTool (by rw [hget]; rfl) hindex hk hadv hu
    · intro t' ht'
      rw [SortedMap.get_set_self] at ht'
      rwa [← Option.some.inj ht']
    · intro k' hne
      exact SortedMap.get_set_of_ne hne _ _

/-- A loop over all the tool calls. -/
theorem eachTool_live {P : ToolCallState → Prop} {f : Step ToolCallState}
    (hf : ∀ index, ToolCallState.Leads index ToolCallState.Settled f fun t => t.Settled ∧ P t) (h : Live es s) :
    ∃ fs calls, eachTool f s = .ok (fs, { s with toolCalls := calls }) ∧
      Live (es ++ fs) { s with toolCalls := calls } ∧ ∀ k t, calls.get k = some t → P t := by
  suffices hks : ∀ ks : List U32, ∃ fs calls, forEach (updateTool f) ks s =
      .ok (fs, { s with toolCalls := calls }) ∧ Live (es ++ fs) { s with toolCalls := calls } ∧
      (∀ k ∈ ks, ∀ t, calls.get k = some t → P t) ∧
      ∀ k, k ∉ ks → calls.get k = s.toolCalls.get k by
    obtain ⟨fs, calls, heq, hlive, hdone, hrest⟩ := hks s.toolCalls.keys
    refine ⟨fs, calls, heq, hlive, ?_⟩
    intro k t hget
    by_cases hk : k ∈ s.toolCalls.keys
    · exact hdone k hk t hget
    · rw [hrest k hk] at hget
      exact absurd ((s.toolCalls.mem_keys_iff k).mpr ⟨t, hget⟩) hk
  intro ks
  induction ks using List.reverseRecOn with
  | nil => exact ⟨[], s.toolCalls, rfl, by rwa [List.append_nil], by simp, fun k _ => rfl⟩
  | append_singleton ks k ih =>
    obtain ⟨fs, calls, heq, hlive, hdone, hrest⟩ := ih
    obtain ⟨gs, calls', heq', hlive', hdone', hrest'⟩ := updateTool_live hf hlive k
    refine ⟨fs ++ gs, calls', ?_, by rwa [← List.append_assoc], ?_, ?_⟩
    · exact (forEach_snoc_ok_iff _ ks k s _ _).mpr ⟨fs, _, gs, heq, heq', rfl⟩
    · intro k' hk' t hget
      by_cases hne : k' = k
      · rw [hne] at hget
        exact hdone' t hget
      · rw [hrest' k' hne] at hget
        exact hdone k' (by simpa [hne] using hk') t hget
    · intro k' hk'
      simp only [List.mem_append, List.mem_singleton, not_or] at hk'
      rw [hrest' k' hk'.2]
      exact hrest k' hk'.1

end live

end StreamState

end Solarcido.Crates
