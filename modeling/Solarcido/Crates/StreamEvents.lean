import Solarcido.Crates.Blocks

namespace Solarcido.Crates

open Emitter Brackets

namespace StreamState

section pieces

/-- What a chunk is taken in by, step by step. -/
inductive Piece where
  | start (chunk : ChatCompletionChunk)
  | content (content : Option RustString)
  | toolCall (finishReason : Option RustString) (tc : DeltaToolCall)
  | finishReason (finishReason : Option RustString)

def ingestPiece : Piece → Step StreamState
  | .start chunk => andThen (startMessage chunk) (quiet (takeUsage chunk.usage))
  | .content content => ingestContent content
  | .toolCall finishReason tc => ingestToolCall finishReason tc
  | .finishReason finishReason => ingestFinishReason finishReason

def choicePieces (choice : ChunkChoice) : List Piece :=
  .content choice.delta.content ::
    (choice.delta.toolCalls.map (Piece.toolCall choice.finishReason) ++
      [.finishReason choice.finishReason])

def chunkPieces (chunk : ChatCompletionChunk) : List Piece :=
  .start chunk :: chunk.choices.flatMap choicePieces

theorem ingestChoice_eq (choice : ChunkChoice) :
    ingestChoice choice = forEach ingestPiece (choicePieces choice) := by
  rw [choicePieces, forEach, forEach_append, forEach_map, forEach_singleton]
  rfl

theorem ingestChunk_eq (chunk : ChatCompletionChunk) :
    ingestChunk chunk = forEach ingestPiece (chunkPieces chunk) := by
  have hchoices : ingestChoice = fun choice => forEach ingestPiece (choicePieces choice) :=
    funext ingestChoice_eq
  rw [chunkPieces, forEach, ingestChunk, hchoices, forEach_flatMap, ← andThen_assoc]
  rfl

theorem ingestChunks_eq (chunks : List ChatCompletionChunk) :
    forEach ingestChunk chunks = forEach ingestPiece (chunks.flatMap chunkPieces) := by
  have hchunks : ingestChunk = fun chunk => forEach ingestPiece (chunkPieces chunk) :=
    funext ingestChunk_eq
  rw [hchunks, forEach_flatMap]

end pieces

/-- A fragment of a tool call has an index with a block, and brings no arguments for a block that
has been stopped. -/
def Orderly (s : StreamState) : Piece → Prop
  | .toolCall _ tc => tc.index.val + 1 < 2 ^ 32 ∧
    ∀ t, s.toolCalls.get tc.index = some t → t.stopped = true →
      tc.function.arguments.getD [] = []
  | _ => True

/-- What holds while the chunks come in. -/
structure Running (es : List StreamEvent) (s : StreamState) : Prop where
  live : Live es s
  messageStarted : s.messageStarted = true
  textOpen : s.textFinished = false
  unfinished : s.finished = false

section steps

variable {es : List StreamEvent} {s : StreamState}

theorem Running.withCalls (h : Running es s) {fs : List StreamEvent}
    {calls : SortedMap U32 ToolCallState} (hlive : Live (es ++ fs) { s with toolCalls := calls }) :
    Running (es ++ fs) { s with toolCalls := calls } :=
  ⟨hlive, h.messageStarted, h.textOpen, h.unfinished⟩

theorem startMessage_running (h : Running es s) (chunk : ChatCompletionChunk) :
    startMessage chunk s = .ok ([], s) := by
  rw [startMessage, if_pos h.messageStarted]

theorem takeUsage_running (h : Running es s) (usage : Option OpenAiUsage) :
    Running es (takeUsage usage s) := by
  cases usage with
  | none => exact h
  | some u =>
    exact ⟨⟨h.live.phases, h.live.tools, h.live.frame⟩, h.messageStarted, h.textOpen, h.unfinished⟩

theorem ingestContent_running (h : Running es s) (content : Option RustString) :
    ∃ fs u, ingestContent content s = .ok (fs, u) ∧ Running (es ++ fs) u := by
  rw [ingestContent]
  cases content.filter fun v => !v.isEmpty with
  | none => exact ⟨[], s, rfl, by rwa [List.append_nil]⟩
  | some text =>
    refine ⟨_, _, rfl, ⟨?_, h.live.tools, frame_append ?_ h.live.frame⟩, h.messageStarted,
      h.textOpen, h.unfinished⟩
    · obtain ⟨phase, hreaches, htext, htools⟩ := h.live.phases
      refine ⟨Function.update phase 0 .opened, ?_, ?_, ?_⟩
      · rw [marks_append]
        apply hreaches.path
        rw [htext, textPhase, h.textOpen]
        cases s.textStarted with
        | true => simpa [marks, StreamEvent.mark] using Path.uses (0 : U32)
        | false =>
          simpa [marks, StreamEvent.mark] using (Path.opens (0 : U32)).append (Path.uses 0)
      · simp [textPhase, h.textOpen]
      · intro k index hk
        have hne : index ≠ 0 := by
          rintro rfl
          simp at hk
        rw [Function.update_of_ne hne]
        exact htools k index hk
    · intro e he
      cases hstarted : s.textStarted with
      | true =>
        rw [hstarted] at he
        obtain rfl := List.mem_singleton.mp he
        rfl
      | false =>
        rw [hstarted] at he
        obtain rfl | he := List.mem_cons.mp he
        · rfl
        · obtain rfl := List.mem_singleton.mp he
          rfl

/-- A fragment leaves its tool call with the phase it had, ready to go on. -/
theorem apply_ready (h : Live es s) (tc : DeltaToolCall)
    (hquiet : ∀ t, s.toolCalls.get tc.index = some t → t.stopped = true →
      tc.function.arguments.getD [] = []) :
    (((s.toolCalls.get tc.index).getD .new).apply tc).Ready ∧
      (((s.toolCalls.get tc.index).getD .new).apply tc).phase =
        toolPhase (s.toolCalls.get tc.index) := by
  cases hget : s.toolCalls.get tc.index with
  | none =>
    refine ⟨⟨Nat.zero_le _, ?_, ?_⟩, rfl⟩
    · intro hstopped
      cases hstopped
    · intro hstopped
      cases hstopped
  | some t =>
    obtain ⟨ht, -⟩ := h.tools tc.index t hget
    refine ⟨⟨?_, ht.started, ?_⟩, rfl⟩
    · exact ht.within.trans (by simp [ToolCallState.apply])
    · intro hstopped
      have hlen := ht.ready.quiet hstopped
      simpa [ToolCallState.apply, hquiet t hget hstopped] using hlen

theorem blockIndex_apply (t : ToolCallState) (tc : DeltaToolCall) (h : tc.index.val + 1 < 2 ^ 32) :
    (t.apply tc).blockIndex = .ok ⟨tc.index.val + 1, h⟩ := by
  rw [ToolCallState.blockIndex, checkedAdd]
  exact dif_pos h

theorem ingestToolCall_running (h : Running es s) (finishReason : Option RustString)
    (tc : DeltaToolCall) (horderly : Orderly s (.toolCall finishReason tc)) :
    ∃ fs u, ingestToolCall finishReason tc s = .ok (fs, u) ∧ Running (es ++ fs) u := by
  obtain ⟨hlt, hquiet⟩ := horderly
  obtain ⟨hready, hphase⟩ := apply_ready h.live tc hquiet
  have hindex := blockIndex_apply ((s.toolCalls.get tc.index).getD .new) tc hlt
  obtain ⟨fs, u, heq, hadv, hu⟩ := ToolCallState.advance_leads finishReason _ hindex hready
  refine ⟨fs, { s with toolCalls := s.toolCalls.set tc.index u }, ?_, ?_⟩
  · simp [ingestToolCall, heq, Except.map]
  · exact h.withCalls (h.live.setTool hphase hindex rfl hadv hu)

theorem ingestFinishReason_running (h : Running es s) (finishReason : Option RustString) :
    ∃ fs u, ingestFinishReason finishReason s = .ok (fs, u) ∧ Running (es ++ fs) u := by
  cases finishReason with
  | none => exact ⟨[], s, rfl, by rwa [List.append_nil]⟩
  | some reason =>
    have h' : Running es { s with stopReason := some (normalizeFinishReason reason) } :=
      ⟨⟨h.live.phases, h.live.tools, h.live.frame⟩, h.messageStarted, h.textOpen, h.unfinished⟩
    simp only [ingestFinishReason]
    split
    · obtain ⟨fs, calls, heq, hlive, -⟩ := eachTool_live (fun _ => ToolCallState.stop_leads) h'.live
      exact ⟨fs, _, heq, h'.withCalls hlive⟩
    · exact ⟨[], _, rfl, by rwa [List.append_nil]⟩

/-- An orderly piece is taken in. -/
theorem ingestPiece_running (h : Running es s) (piece : Piece) (horderly : Orderly s piece) :
    ∃ fs u, ingestPiece piece s = .ok (fs, u) ∧ Running (es ++ fs) u := by
  cases piece with
  | start chunk =>
    refine ⟨[], takeUsage chunk.usage s, ?_, ?_⟩
    · rw [ingestPiece, andThen_ok_iff]
      exact ⟨[], s, [], startMessage_running h chunk, rfl, rfl⟩
    · rw [List.append_nil]
      exact takeUsage_running h chunk.usage
  | content content => exact ingestContent_running h content
  | toolCall finishReason tc => exact ingestToolCall_running h finishReason tc horderly
  | finishReason finishReason => exact ingestFinishReason_running h finishReason

end steps

section finishing

variable {es : List StreamEvent} {s : StreamState}

theorem finishText_live (h : Live es s) (htext : s.textFinished = false) :
    ∃ fs u, finishText s = .ok (fs, u) ∧ Live (es ++ fs) u ∧ u.textPhase ≠ .opened ∧
      u.messageStarted = s.messageStarted := by
  rw [finishText]
  cases hstarted : s.textStarted with
  | false =>
    refine ⟨[], s, by simp, by rwa [List.append_nil], ?_, rfl⟩
    simp [textPhase, hstarted]
  | true =>
    refine ⟨[.contentBlockStop 0], { s with textFinished := true }, by simp [hstarted, htext], ?_, ?_, rfl⟩
    · obtain ⟨phase, hreaches, hphase, htools⟩ := h.phases
      refine ⟨⟨Function.update phase 0 .closed, ?_, ?_, ?_⟩, h.tools, frame_append ?_ h.frame⟩
      · rw [marks_append]
        apply hreaches.path
        rw [hphase, textPhase, hstarted, htext]
        simpa [marks, StreamEvent.mark] using Path.closes (0 : U32)
      · simp [textPhase, hstarted]
      · intro k index hk
        have hne : index ≠ 0 := by
          rintro rfl
          simp at hk
        rw [Function.update_of_ne hne]
        exact htools k index hk
      · intro e he
        obtain rfl := List.mem_singleton.mp he
        rfl
    · simp [textPhase, hstarted]

end finishing

section outcomes

/-- The indices of the tool blocks that are started. -/
def toolStart : StreamEvent → Option U32
  | .contentBlockStart index (.toolUse _ _ _) => some index
  | _ => none

def textStart : StreamEvent → Option U32
  | .contentBlockStart index (.text _) => some index
  | _ => none

/-- One message, its blocks in order, and nothing behind its end. -/
structure WellFormed (events : List StreamEvent) : Prop where
  framed : ∃ message body delta usage,
    events = .messageStart message :: body ++ [.messageDelta delta usage, .messageStop] ∧
      ∀ e ∈ body, e.mark.isSome
  bracketed : WellBracketed (marks events)
  tools_distinct : (events.filterMap toolStart).Nodup
  tools_not_text : ∀ index ∈ events.filterMap toolStart, index ∉ events.filterMap textStart

theorem count_starts (events : List StreamEvent) (index : U32) :
    (events.filterMap toolStart).count index + (events.filterMap textStart).count index =
      (marks events).count (.opens index) := by
  induction events with
  | nil => rfl
  | cons e events ih =>
    have hmarks : marks (e :: events) = marks [e] ++ marks events := marks_append [e] events
    rw [hmarks, List.count_append, ← ih]
    cases e with
    | contentBlockStart i block =>
      cases block with
      | text text =>
        rw [List.filterMap_cons_none (f := toolStart) rfl, List.filterMap_cons_some (f := textStart) rfl,
          List.count_cons, ← Nat.add_assoc, Nat.add_comm]
        simp [marks, StreamEvent.mark, List.count_singleton]
      | toolUse id name input =>
        rw [List.filterMap_cons_some (f := toolStart) rfl, List.filterMap_cons_none (f := textStart) rfl,
          List.count_cons, Nat.add_right_comm, Nat.add_comm]
        simp [marks, StreamEvent.mark, List.count_singleton]
    | _ =>
      rw [List.filterMap_cons_none (f := toolStart) rfl, List.filterMap_cons_none (f := textStart) rfl]
      exact (Nat.zero_add _).symm

/-- The indices of blocks started once are distinct. -/
theorem WellFormed.of_bracketed {events : List StreamEvent}
    (hframed : ∃ message body delta usage,
      events = .messageStart message :: body ++ [.messageDelta delta usage, .messageStop] ∧
        ∀ e ∈ body, e.mark.isSome)
    (h : WellBracketed (marks events)) : WellFormed events := by
  have hcount (index : U32) : (events.filterMap toolStart).count index +
      (events.filterMap textStart).count index ≤ 1 := by
    rw [count_starts]
    exact h.opened_once index
  refine ⟨hframed, h, ?_, ?_⟩
  · rw [List.nodup_iff_count_le_one]
    intro index
    have := hcount index
    omega
  · intro index htool htext
    have := hcount index
    have htool := List.count_pos_iff.mpr htool
    have htext := List.count_pos_iff.mpr htext
    omega

/-- What is left to come out makes the events well formed. -/
theorem finish_running {es : List StreamEvent} {s : StreamState} (h : Running es s) :
    ∃ fs u, finish s = .ok (fs, u) ∧ WellFormed (es ++ fs) := by
  have hlive : Live es { s with finished := true } := ⟨h.live.phases, h.live.tools, h.live.frame⟩
  obtain ⟨fs, t, htext, ht, hclosed, hstarted⟩ := finishText_live hlive h.textOpen
  obtain ⟨gs, calls, htools, hu, hdone⟩ := eachTool_live (fun _ => ToolCallState.finish_leads) ht
  obtain ⟨phase, hreaches, hzero, htool⟩ := hu.phases
  have hmessage : t.messageStarted = true := hstarted.trans h.messageStarted
  refine ⟨fs ++ (gs ++ [.messageDelta ⟨some (t.stopReason.getD (str "end_turn")), none⟩
    (t.usage.getD .zero), .messageStop]), { t with toolCalls := calls }, ?_, ?_⟩
  · rw [finish, if_neg (by simp [h.unfinished]), andThen_ok_iff]
    refine ⟨fs, t, _, htext, ?_, rfl⟩
    rw [andThen_ok_iff]
    refine ⟨gs, _, _, htools, ?_, rfl⟩
    rw [finishMessage, if_pos hmessage]
  · obtain ⟨message, body, hframe, hbody⟩ := hu.frame
    have hevents (ends : List StreamEvent) :
        es ++ (fs ++ (gs ++ ends)) = .messageStart message :: body ++ ends := by
      rw [← hframe]
      simp only [List.append_assoc]
    rw [hevents]
    apply WellFormed.of_bracketed
    · exact ⟨message, body, _, _, rfl, hbody⟩
    · rw [marks_append, ← hframe]
      have hends (delta : MessageDelta) (usage : Usage) :
          marks [.messageDelta delta usage, .messageStop] = [] := rfl
      rw [hends, List.append_nil]
      apply hreaches.wellBracketed
      intro index
      obtain heq | ⟨k, hk⟩ : index = 0 ∨ ∃ k : U32, index.val = k.val + 1 := by
        by_cases h0 : index.val = 0
        · exact Or.inl (Fin.ext h0)
        · exact Or.inr ⟨⟨index.val - 1, by omega⟩, by simp only; omega⟩
      · rw [heq, hzero]
        exact hclosed
      · rw [htool k index hk, toolPhase]
        cases hget : calls.get k with
        | none => simp
        | some t =>
          have hstop := hdone k t hget
          simp only [Option.map_some, Option.getD_some, ToolCallState.phase]
          split
          · next hstart => simp [hstop hstart]
          · simp

theorem begin_running (model : RustString) (chunk : ChatCompletionChunk) :
    ∃ es s, ingestPiece (.start chunk) (new model) = .ok (es, s) ∧ Running es s := by
  have hstart : Running [.messageStart {
      id := chunk.id
      kind := str "message"
      role := str "assistant"
      content := []
      model := chunk.model.getD model
      stopReason := none
      stopSequence := none
      usage := .zero
      requestId := none }] { new model with messageStarted := true } := by
    refine ⟨⟨⟨fun _ => .fresh, .start, rfl, fun _ _ _ => rfl⟩, ?_, ⟨_, [], rfl, by simp⟩⟩, rfl, rfl, rfl⟩
    intro k t hget
    cases hget
  refine ⟨_, _, ?_, takeUsage_running hstart chunk.usage⟩
  rw [ingestPiece, andThen_ok_iff]
  exact ⟨_, _, [], rfl, rfl, rfl⟩

/-- A piece that is out of order makes the stream panic, or lets out arguments for a stopped block. -/
theorem ingestPiece_disorderly {es : List StreamEvent} {s : StreamState} (h : Running es s)
    {piece : Piece} (hdisorder : ¬ Orderly s piece) {fs : List StreamEvent} {u : StreamState}
    (hpiece : ingestPiece piece s = .ok (fs, u)) :
    ∃ index rest, marks fs = .uses index :: rest ∧ .closes index ∈ marks es := by
  cases piece with
  | start chunk => exact absurd trivial hdisorder
  | content content => exact absurd trivial hdisorder
  | finishReason finishReason => exact absurd trivial hdisorder
  | toolCall finishReason tc =>
    rw [ingestPiece, ingestToolCall] at hpiece
    by_cases hlt : tc.index.val + 1 < 2 ^ 32
    · have hindex (t : ToolCallState) := blockIndex_apply t tc hlt
      obtain ⟨t, hget, hstopped, hargs⟩ : ∃ t, s.toolCalls.get tc.index = some t ∧
          t.stopped = true ∧ tc.function.arguments.getD [] ≠ [] := by
        by_contra hnone
        refine hdisorder ⟨hlt, fun t hget hstopped => ?_⟩
        by_contra hargs
        exact hnone ⟨t, hget, hstopped, hargs⟩
      obtain ⟨ht, -⟩ := h.live.tools tc.index t hget
      have hstarted := ht.started hstopped
      have hmore : ¬ (t.apply tc).arguments.length ≤ (t.apply tc).emittedLen := by
        have hlen := List.length_pos_iff.mpr hargs
        have := ht.within
        simp only [ToolCallState.apply, List.length_append]
        omega
      refine ⟨⟨tc.index.val + 1, hlt⟩, [], ?_, ?_⟩
      · rw [hget, Option.getD_some, ToolCallState.advance_stopped finishReason (hindex t) hstarted
          hstopped hmore] at hpiece
        obtain ⟨rfl, -⟩ := Prod.mk.inj (Except.ok.inj hpiece)
        rfl
      · obtain ⟨phase, hreaches, -, htools⟩ := h.live.phases
        have hclosed : phase ⟨tc.index.val + 1, hlt⟩ = .closed := by
          rw [htools tc.index _ rfl, hget]
          simp [toolPhase, ToolCallState.phase, hstarted, hstopped]
        rw [← List.count_pos_iff, hreaches.count_closes, if_pos hclosed]
        exact Nat.one_pos
    · have hpanic (t : ToolCallState) : ∃ p, (t.apply tc).advance finishReason = .error p := by
        refine ⟨⟨str "attempt to add with overflow"⟩, ?_⟩
        have hover : (t.apply tc).blockIndex = .error ⟨str "attempt to add with overflow"⟩ := by
          rw [ToolCallState.blockIndex, checkedAdd]
          exact dif_neg hlt
        rw [ToolCallState.advance, hover]
      obtain ⟨p, hp⟩ := hpanic ((s.toolCalls.get tc.index).getD .new)
      rw [hp] at hpiece
      cases hpiece

/-- The events of a stream are well formed just when its fragments come in order. -/
theorem wellFormed_iff (model : RustString) (first : ChatCompletionChunk)
    (rest : List ChatCompletionChunk) :
    (∃ events last, stream (first :: rest) (new model) = .ok (events, last) ∧ WellFormed events) ↔
      Meets ingestPiece Orderly (new model) ((first :: rest).flatMap chunkPieces) := by
  obtain ⟨es, s, hfirst, hs⟩ := begin_running model first
  have hpieces : (first :: rest).flatMap chunkPieces =
      .start first :: (first.choices.flatMap choicePieces ++ rest.flatMap chunkPieces) := rfl
  rw [stream, ingestChunks_eq, hpieces, meets_cons_iff hfirst, forEach, andThen_assoc]
  generalize first.choices.flatMap choicePieces ++ rest.flatMap chunkPieces = more
  have hmeeting {before : List Piece} (hmeets : Meets ingestPiece Orderly s before) :
      ∃ fs t, forEach ingestPiece before s = .ok (fs, t) ∧ Running (es ++ fs) t := by
    refine forEach_meeting (fun fs t => Running (es ++ fs) t) (by rwa [List.append_nil]) ?_ hmeets
    intro fs t piece ht horderly
    obtain ⟨gs, u, heq, hu⟩ := ingestPiece_running ht piece horderly
    exact ⟨gs, u, heq, by rwa [← List.append_assoc]⟩
  constructor
  · rintro ⟨events, last, hstream, hwell⟩
    refine ⟨trivial, ?_⟩
    by_contra hnot
    -- the first piece out of order is taken in by a running stream
    obtain ⟨before, piece, after, fs, t, rfl, hbefore, hdisorder, hmeets⟩ := exists_first_unmet hnot
    obtain ⟨fs', t', hbefore', hrunning⟩ := hmeeting hmeets
    obtain ⟨rfl, rfl⟩ := Prod.mk.inj (Except.ok.inj (hbefore'.symm.trans hbefore))
    obtain ⟨es', s', out, hfirst', htail, rfl⟩ := (andThen_ok_iff _ _ _ _ _).mp hstream
    obtain ⟨rfl, rfl⟩ := Prod.mk.inj (Except.ok.inj (hfirst.symm.trans hfirst'))
    obtain ⟨gs, u, ends, hpieces, -, rfl⟩ := (andThen_ok_iff _ _ _ _ _).mp htail
    obtain ⟨fs', t'', hs', v, ks, hbefore'', hpiece, -, rfl⟩ := forEach_split hpieces
    obtain ⟨rfl, rfl⟩ := Prod.mk.inj (Except.ok.inj (hbefore.symm.trans hbefore''))
    obtain ⟨index, more, huses, hcloses⟩ := ingestPiece_disorderly hrunning hdisorder hpiece
    refine (hwell.bracketed.used_between (marks (es ++ fs')) index (more ++ marks (ks ++ ends)) ?_).2
      hcloses
    simp only [marks_append, huses, List.append_assoc, List.cons_append]
  · rintro ⟨-, hmeets⟩
    obtain ⟨fs, t, hpieces, hrunning⟩ := hmeeting hmeets
    obtain ⟨gs, u, hfinish, hwell⟩ := finish_running hrunning
    refine ⟨es ++ (fs ++ gs), u, ?_, by rwa [← List.append_assoc]⟩
    rw [andThen_ok_iff]
    refine ⟨es, s, fs ++ gs, hfirst, ?_, rfl⟩
    rw [andThen_ok_iff]
    exact ⟨fs, t, gs, hpieces, hfinish, rfl⟩

def fragment (name : Option RustString) (arguments : RustString) (finishReason : Option RustString) :
    ChatCompletionChunk :=
  ⟨str "c", none, [⟨⟨none, [⟨0, none, ⟨name, some arguments⟩⟩]⟩, finishReason⟩], none⟩

/-- Arguments that follow the finish reason come out behind the end of their block. -/
theorem delta_after_stop :
    ∃ events last, stream [fragment (some (str "bash")) (str "\x7b") (some (str "tool_calls")),
      fragment none (str "\x7d") none] (new (str "solar")) = .ok (events, last) ∧
        ¬ WellFormed events := by
  have hmarks : (stream [fragment (some (str "bash")) (str "\x7b") (some (str "tool_calls")),
      fragment none (str "\x7d") none] (new (str "solar"))).map (fun r => marks r.1) =
        .ok [.opens 1, .uses 1, .closes 1, .uses 1] := by
    decide +kernel
  cases hstream : stream [fragment (some (str "bash")) (str "\x7b") (some (str "tool_calls")),
      fragment none (str "\x7d") none] (new (str "solar")) with
  | error panic =>
    rw [hstream] at hmarks
    cases hmarks
  | ok r =>
    rw [hstream] at hmarks
    refine ⟨r.1, r.2, rfl, ?_⟩
    intro h
    have hused := h.bracketed.used_between [.opens 1, .uses 1, .closes 1] 1 []
      (Except.ok.inj hmarks)
    exact hused.2 (by decide)

end outcomes

end StreamState

end Solarcido.Crates
