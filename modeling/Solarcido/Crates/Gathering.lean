import Solarcido.Crates.Assembly

namespace Solarcido.Crates

open Emitter

namespace StreamState

namespace Piece

def text : Piece → RustString
  | .content c => c.getD []
  | _ => []

def fragment : Piece → Option DeltaToolCall
  | .toolCall _ tc => some tc
  | _ => none

def usage : Piece → Option OpenAiUsage
  | .start chunk => chunk.usage
  | _ => none

end Piece

def usageOf (u : OpenAiUsage) : Usage := ⟨u.promptTokens, u.completionTokens⟩

/-- The fragments of one index among pieces. -/
def fragmentsAt (k : U32) (ps : List Piece) : List DeltaToolCall :=
  (ps.filterMap Piece.fragment).filter fun f => f.index = k

/-- The fragments have an index with a block. -/
def Piece.Fits (p : Piece) : Prop := ∀ f, p.fragment = some f → f.index.val + 1 < 2 ^ 32

/-- The events say what the pieces said, and the state knows what it has still to say. -/
structure Gathering (ps : List Piece) (es : List StreamEvent) (s : StreamState) : Prop where
  content : textAfter es [] = ps.flatMap Piece.text
  textUse : useAfter 0 es none = none
  uses : ∀ k index : U32, index.val = k.val + 1 →
    useAfter index es none = gatheredUse k (fragmentsAt k ps)
  calls : ∀ k, ToolCallState.Assembled k (fragmentsAt k ps) ((s.toolCalls.get k).getD .new)
  blocks : ∀ k t, s.toolCalls.get k = some t → t.openaiIndex = k ∧ k.val + 1 < 2 ^ 32
  usage : s.usage = (ps.filterMap Piece.usage).getLast?.map usageOf
  started : s.messageStarted = true ∨ s.usage = none
  unmetered : Unmetered es

section steps

variable {ps : List Piece} {es fs : List StreamEvent} {s : StreamState}

theorem fragmentsAt_snoc (k : U32) (ps : List Piece) (p : Piece) :
    fragmentsAt k (ps ++ [p]) = fragmentsAt k ps ++ (p.fragment.filter fun f => f.index = k).toList := by
  rw [fragmentsAt, List.filterMap_append, List.filter_append, fragmentsAt]
  congr 1
  rw [List.filterMap_cons]
  cases p.fragment with
  | none => rfl
  | some f =>
    by_cases h : f.index = k
    · simp [h, Option.filter]
    · simp [h, Option.filter]

theorem begin_gathering (model : RustString) : Gathering [] [] (new model) :=
  ⟨rfl, rfl, fun _ _ _ => rfl, fun k => ToolCallState.new_assembled k, (fun _ _ h => by cases h), rfl,
    Or.inr rfl, fun _ _ => List.not_mem_nil⟩

/-- A piece with no fragment, which lets out nothing but text. -/
theorem Gathering.plain (h : Gathering ps es s) {p : Piece} {u : StreamState}
    (hfragment : p.fragment = none) (huses : ∀ index w, useAfter index fs w = w)
    (htext : ∀ content, textAfter fs content = content ++ p.text) (hunmetered : Unmetered fs)
    (hcalls : u.toolCalls = s.toolCalls)
    (husage : u.usage = (p.usage.map usageOf).or s.usage)
    (hstarted : u.messageStarted = true ∨ u.usage = none) : Gathering (ps ++ [p]) (es ++ fs) u := by
  have hfragments (k : U32) : fragmentsAt k (ps ++ [p]) = fragmentsAt k ps := by
    rw [fragmentsAt_snoc, hfragment]
    exact List.append_nil _
  refine ⟨?_, ?_, ?_, ?_, ?_, ?_, hstarted, h.unmetered.append hunmetered⟩
  · rw [textAfter_append, htext, h.content, List.flatMap_append, List.flatMap_singleton]
  · rw [useAfter_append, huses, h.textUse]
  · intro k index hk
    rw [useAfter_append, huses, h.uses k index hk, hfragments]
  · intro k
    rw [hfragments, hcalls]
    exact h.calls k
  · rw [hcalls]
    exact h.blocks
  · rw [husage, h.usage, List.filterMap_append, List.getLast?_append, List.filterMap_cons]
    cases p.usage <;> rfl

/-- Tool calls that let out nothing that is gathered. -/
theorem Gathering.settled (h : Gathering ps es s) (hidle : Idle fs) {k : U32} {t u : ToolCallState}
    (hget : s.toolCalls.get k = some t)
    (hassembled : ToolCallState.Assembled k (fragmentsAt k ps) u)
    (hindex : u.openaiIndex = t.openaiIndex) :
    Gathering ps (es ++ fs) { s with toolCalls := s.toolCalls.set k u } := by
  refine ⟨?_, ?_, ?_, ?_, ?_, h.usage, h.started, h.unmetered.append hidle.unmetered⟩
  · rw [textAfter_append, hidle.text, h.content]
  · rw [useAfter_append, hidle.uses, h.textUse]
  · intro k' index hk
    rw [useAfter_append, hidle.uses, h.uses k' index hk]
  · intro k'
    rw [SortedMap.get_set]
    by_cases heq : k' = k
    · subst heq
      rw [if_pos rfl]
      exact hassembled
    · rw [if_neg heq]
      exact h.calls k'
  · intro k' t' hget'
    simp only [SortedMap.get_set] at hget'
    split at hget'
    · next heq =>
      obtain rfl := Option.some.inj hget'
      subst heq
      obtain ⟨hopen, hlt⟩ := h.blocks k' t hget
      exact ⟨hindex.trans hopen, hlt⟩
    · exact h.blocks k' t' hget'

theorem eachTool_gathering {f : Step ToolCallState} (hf : ToolCallState.Settles f)
    (h : Gathering ps es s) : ∃ fs calls, eachTool f s = .ok (fs, { s with toolCalls := calls }) ∧
      Gathering ps (es ++ fs) { s with toolCalls := calls } := by
  suffices hrun : ∃ fs u, forEach (updateTool f) s.toolCalls.keys s = .ok (fs, u) ∧
      ∃ calls, u = { s with toolCalls := calls } ∧ Gathering ps (es ++ fs) u by
    obtain ⟨fs, u, heq, calls, rfl, hgathering⟩ := hrun
    exact ⟨fs, calls, heq, hgathering⟩
  refine forEach_meeting (C := fun _ _ => True)
    (fun fs u => ∃ calls, u = { s with toolCalls := calls } ∧ Gathering ps (es ++ fs) u)
    ⟨s.toolCalls, rfl, by rwa [List.append_nil]⟩ ?_ (fun _ _ _ _ _ _ _ => trivial)
  rintro fs u k ⟨calls, rfl, hgathering⟩ -
  rw [updateTool]
  cases hget : calls.get k with
  | none => exact ⟨[], _, rfl, calls, rfl, by rwa [List.append_nil]⟩
  | some t =>
    obtain ⟨hopen, hlt⟩ := hgathering.blocks k t hget
    have hindex : t.blockIndex = .ok ⟨k.val + 1, hlt⟩ := by
      rw [ToolCallState.blockIndex, hopen]
      exact dif_pos hlt
    have hassembled := hgathering.calls k
    simp only [hget, Option.getD_some] at hassembled
    obtain ⟨gs, t', heq, hidle, hassembled', hopen'⟩ := hf k _ _ t hindex hassembled
    refine ⟨gs, { s with toolCalls := calls.set k t' }, ?_, calls.set k t', rfl, ?_⟩
    · simp [heq, Except.map]
    · rw [← List.append_assoc]
      exact hgathering.settled hidle hget hassembled' hopen'

theorem start_gathering (h : Gathering ps es s) (chunk : ChatCompletionChunk) :
    ∃ fs u, ingestPiece (.start chunk) s = .ok (fs, u) ∧
      Gathering (ps ++ [.start chunk]) (es ++ fs) u ∧ u.finished = s.finished := by
  have htake (s : StreamState) : (takeUsage chunk.usage s).usage = (chunk.usage.map usageOf).or s.usage ∧
      (takeUsage chunk.usage s).messageStarted = s.messageStarted ∧
      (takeUsage chunk.usage s).toolCalls = s.toolCalls ∧
      (takeUsage chunk.usage s).finished = s.finished := by
    cases hu : chunk.usage with
    | none => exact ⟨rfl, rfl, rfl, rfl⟩
    | some u => exact ⟨rfl, rfl, rfl, rfl⟩
  obtain ⟨fs, t, hstart, husage, hstarted, hcalls, hfinished, huses, htext, hunmetered⟩ : ∃ fs t,
      startMessage chunk s = .ok (fs, t) ∧ t.usage = s.usage ∧ t.messageStarted = true ∧
      t.toolCalls = s.toolCalls ∧ t.finished = s.finished ∧ (∀ index w, useAfter index fs w = w) ∧
      (∀ content, textAfter fs content = content) ∧ Unmetered fs := by
    rw [startMessage]
    split
    · next hstarted =>
      exact ⟨[], s, rfl, rfl, hstarted, rfl, rfl, Idle.nil.uses, Idle.nil.text, Idle.nil.unmetered⟩
    · exact ⟨_, _, rfl, rfl, rfl, rfl, rfl, fun _ _ => rfl, fun _ => rfl, by simp [Unmetered]⟩
  obtain ⟨husage', hstarted', hcalls', hfinished'⟩ := htake t
  refine ⟨fs, takeUsage chunk.usage t, ?_, ?_, hfinished'.trans hfinished⟩
  · rw [ingestPiece, andThen_ok_iff]
    exact ⟨fs, t, [], hstart, rfl, (List.append_nil fs).symm⟩
  · refine h.plain rfl huses (fun content => ?_) hunmetered (hcalls'.trans hcalls) ?_
      (Or.inl (hstarted'.trans hstarted))
    · rw [htext]
      exact (List.append_nil content).symm
    · rw [husage', husage]
      rfl

theorem content_gathering (h : Gathering ps es s) (content : Option RustString) :
    ∃ fs u, ingestPiece (.content content) s = .ok (fs, u) ∧
      Gathering (ps ++ [.content content]) (es ++ fs) u ∧ u.finished = s.finished := by
  rw [ingestPiece, ingestContent]
  cases hfilter : content.filter fun v => !v.isEmpty with
  | none =>
    have hnil : content.getD [] = [] := by
      cases content with
      | none => rfl
      | some text =>
        cases text with
        | nil => rfl
        | cons c text => cases hfilter
    refine ⟨[], s, rfl, h.plain rfl Idle.nil.uses (fun text => ?_) Idle.nil.unmetered rfl rfl h.started,
      rfl⟩
    change text = text ++ content.getD []
    rw [hnil, List.append_nil]
  | some text =>
    have hsome : content.getD [] = text := by
      rw [(Option.filter_eq_some_iff.mp hfilter).1]
      rfl
    refine ⟨_, _, rfl, h.plain rfl ?_ (fun before => ?_) ?_ rfl rfl h.started, rfl⟩
    · intro index w
      cases s.textStarted <;> rfl
    · change _ = before ++ content.getD []
      rw [hsome]
      cases s.textStarted <;> rfl
    · cases s.textStarted <;> simp [Unmetered]

theorem toolCall_gathering (h : Gathering ps es s) (finishReason : Option RustString)
    (tc : DeltaToolCall) (hlt : tc.index.val + 1 < 2 ^ 32) :
    ∃ fs u, ingestPiece (.toolCall finishReason tc) s = .ok (fs, u) ∧
      Gathering (ps ++ [.toolCall finishReason tc]) (es ++ fs) u ∧ u.finished = s.finished := by
  have hsnoc : fragmentsAt tc.index (ps ++ [.toolCall finishReason tc]) =
      fragmentsAt tc.index ps ++ [tc] := by
    rw [fragmentsAt_snoc]
    simp [Piece.fragment]
  have hsnoc_ne {k : U32} (hne : k ≠ tc.index) :
      fragmentsAt k (ps ++ [.toolCall finishReason tc]) = fragmentsAt k ps := by
    rw [fragmentsAt_snoc]
    simp [Piece.fragment, hne.symm]
  obtain ⟨fs, t, hadvance, hlets, hassembled, hopen⟩ := ToolCallState.advance_lets finishReason
    (h.calls tc.index) tc rfl (blockIndex_apply _ tc hlt)
  refine ⟨fs, { s with toolCalls := s.toolCalls.set tc.index t }, ?_, ?_, rfl⟩
  · simp [ingestPiece, ingestToolCall, hadvance, Except.map]
  refine ⟨?_, ?_, ?_, ?_, ?_, ?_, h.started, h.unmetered.append hlets.unmetered⟩
  · rw [textAfter_append, hlets.text, h.content, List.flatMap_append, List.flatMap_singleton]
    exact (List.append_nil _).symm
  · have hne : (0 : U32) ≠ ⟨tc.index.val + 1, hlt⟩ := by
      intro h0
      have := congrArg Fin.val h0
      simp at this
    rw [useAfter_append, hlets.others 0 hne, h.textUse]
  · intro k index hk
    rw [useAfter_append, h.uses k index hk]
    by_cases heq : k = tc.index
    · subst heq
      obtain rfl : index = ⟨tc.index.val + 1, hlt⟩ := Fin.ext hk
      rw [hsnoc, hlets.use]
    · have hne : index ≠ ⟨tc.index.val + 1, hlt⟩ := by
        rintro rfl
        exact heq (Fin.ext (Nat.succ.inj hk.symm))
      rw [hsnoc_ne heq, hlets.others index hne]
  · intro k
    rw [SortedMap.get_set]
    by_cases heq : k = tc.index
    · rw [heq, if_pos rfl, hsnoc]
      exact hassembled
    · rw [if_neg heq, hsnoc_ne heq]
      exact h.calls k
  · intro k t' hget
    simp only [SortedMap.get_set] at hget
    split at hget
    · next heq =>
      obtain rfl := Option.some.inj hget
      rw [heq]
      exact ⟨hopen, hlt⟩
    · exact h.blocks k t' hget
  · rw [List.filterMap_append]
    exact h.usage.trans (by rw [List.filterMap_cons_none (f := Piece.usage) rfl, List.filterMap_nil,
      List.append_nil])

theorem finishReason_gathering (h : Gathering ps es s) (finishReason : Option RustString) :
    ∃ fs u, ingestPiece (.finishReason finishReason) s = .ok (fs, u) ∧
      Gathering (ps ++ [.finishReason finishReason]) (es ++ fs) u ∧ u.finished = s.finished := by
  have hplain (stopReason : Option RustString) :
      Gathering (ps ++ [.finishReason finishReason]) es { s with stopReason := stopReason } := by
    rw [← List.append_nil es]
    exact h.plain rfl Idle.nil.uses (fun content => (List.append_nil content).symm)
      Idle.nil.unmetered rfl rfl h.started
  cases finishReason with
  | none => exact ⟨[], s, rfl, by rw [List.append_nil]; exact hplain s.stopReason, rfl⟩
  | some reason =>
    simp only [ingestPiece, ingestFinishReason]
    split
    · obtain ⟨fs, calls, heq, hgathering⟩ := eachTool_gathering ToolCallState.stop_settles
        (hplain (some (normalizeFinishReason reason)))
      exact ⟨fs, _, heq, hgathering, rfl⟩
    · exact ⟨[], _, rfl, by rw [List.append_nil]; exact hplain _, rfl⟩

/-- A piece whose fragment has a block is taken in and gathered. -/
theorem ingestPiece_gathering (h : Gathering ps es s) (p : Piece) (hfits : p.Fits) :
    ∃ fs u, ingestPiece p s = .ok (fs, u) ∧ Gathering (ps ++ [p]) (es ++ fs) u ∧
      u.finished = s.finished := by
  cases p with
  | start chunk => exact start_gathering h chunk
  | content content => exact content_gathering h content
  | toolCall finishReason tc => exact toolCall_gathering h finishReason tc (hfits tc rfl)
  | finishReason finishReason => exact finishReason_gathering h finishReason

/-- Pieces whose fragments have blocks are taken in and gathered. -/
theorem ingestPieces_gathering (model : RustString) {ps : List Piece} (hfits : ∀ p ∈ ps, p.Fits) :
    ∃ es s, forEach ingestPiece ps (new model) = .ok (es, s) ∧ Gathering ps es s ∧
      s.finished = false := by
  induction ps using List.reverseRecOn with
  | nil => exact ⟨[], new model, rfl, begin_gathering model, rfl⟩
  | append_singleton ps p ih =>
    obtain ⟨es, s, hrun, hgathering, hfinished⟩ := ih fun q hq => hfits q (by simp [hq])
    obtain ⟨fs, u, heq, hgathering', hfinished'⟩ :=
      ingestPiece_gathering hgathering p (hfits p (by simp))
    exact ⟨es ++ fs, u, (forEach_snoc_ok_iff _ ps p _ _ u).mpr ⟨es, s, fs, hrun, heq, rfl⟩,
      hgathering', hfinished'.trans hfinished⟩

/-- A fragment without a block makes the stream panic. -/
theorem ingestPiece_fits {p : Piece} {u : StreamState} (h : ingestPiece p s = .ok (fs, u)) :
    p.Fits := by
  intro f hf
  cases p with
  | toolCall finishReason tc =>
    obtain rfl := Option.some.inj hf
    by_contra hlt
    have hover (t : ToolCallState) :
        (t.apply tc).blockIndex = .error ⟨str "attempt to add with overflow"⟩ := by
      rw [ToolCallState.blockIndex, checkedAdd]
      exact dif_neg hlt
    rw [ingestPiece, ingestToolCall, ToolCallState.advance, hover] at h
    cases h
  | _ => cases hf

theorem ingestPieces_fits {u : StreamState} (h : forEach ingestPiece ps s = .ok (fs, u)) :
    ∀ p ∈ ps, p.Fits := by
  intro p hp
  obtain ⟨before, after, rfl⟩ := List.append_of_mem hp
  obtain ⟨-, t, gs, u', -, -, hpiece, -, -⟩ := forEach_split h
  exact ingestPiece_fits hpiece

/-- The events behind the blocks. -/
def closing (s : StreamState) : List StreamEvent :=
  if s.messageStarted then
    [.messageDelta ⟨some (s.stopReason.getD (str "end_turn")), none⟩ (s.usage.getD .zero), .messageStop]
  else []

theorem finish_gathering (h : Gathering ps es s) (hfinished : s.finished = false) :
    ∃ fs u, finish s = .ok (fs ++ closing u, u) ∧ Gathering ps (es ++ fs) u := by
  obtain ⟨fs, t, htext, ht⟩ : ∃ fs t, finishText { s with finished := true } = .ok (fs, t) ∧
      Gathering ps (es ++ fs) t := by
    have hs : Gathering ps es { s with finished := true } :=
      ⟨h.content, h.textUse, h.uses, h.calls, h.blocks, h.usage, h.started, h.unmetered⟩
    rw [finishText]
    split
    · have hidle := Idle.stop 0
      refine ⟨_, _, rfl, ?_, ?_, ?_, hs.calls, hs.blocks, hs.usage, hs.started,
        hs.unmetered.append hidle.unmetered⟩
      · rw [textAfter_append, hidle.text, hs.content]
      · rw [useAfter_append, hidle.uses, hs.textUse]
      · intro k index hk
        rw [useAfter_append, hidle.uses, hs.uses k index hk]
    · exact ⟨[], _, rfl, by rwa [List.append_nil]⟩
  obtain ⟨gs, calls, htools, hu⟩ := eachTool_gathering ToolCallState.finish_settles ht
  refine ⟨fs ++ gs, { t with toolCalls := calls }, ?_, by rwa [← List.append_assoc]⟩
  have hmessage : finishMessage { t with toolCalls := calls } =
      .ok (closing { t with toolCalls := calls }, { t with toolCalls := calls }) := by
    rw [finishMessage, closing]
    split <;> rfl
  rw [finish, if_neg (by simp [hfinished]), andThen_ok_iff]
  refine ⟨fs, t, gs ++ closing { t with toolCalls := calls }, htext, ?_, by rw [List.append_assoc]⟩
  rw [andThen_ok_iff]
  exact ⟨gs, _, _, htools, hmessage, rfl⟩

/-- The events of a stream, gathered up to those behind the blocks. -/
theorem stream_gathering (model : RustString) {chunks : List ChatCompletionChunk}
    (hfits : ∀ p ∈ chunks.flatMap chunkPieces, p.Fits) : ∃ es last,
      stream chunks (new model) = .ok (es ++ closing last, last) ∧
        Gathering (chunks.flatMap chunkPieces) es last := by
  obtain ⟨es, s, hrun, hgathering, hfinished⟩ := ingestPieces_gathering model hfits
  obtain ⟨fs, last, hfinish, hlast⟩ := finish_gathering hgathering hfinished
  refine ⟨es ++ fs, last, ?_, hlast⟩
  rw [stream, ingestChunks_eq, andThen_ok_iff]
  exact ⟨es, s, fs ++ closing last, hrun, hfinish, List.append_assoc _ _ _⟩

theorem stream_fits {model : RustString} {chunks : List ChatCompletionChunk} {u : StreamState}
    (h : stream chunks (new model) = .ok (es, u)) : ∀ p ∈ chunks.flatMap chunkPieces, p.Fits := by
  rw [stream, ingestChunks_eq, andThen_ok_iff] at h
  obtain ⟨fs, t, gs, hrun, -, -⟩ := h
  exact ingestPieces_fits hrun

end steps

section replies

variable {ps : List Piece} {es : List StreamEvent} {s : StreamState}

theorem add_zero (usage : Usage) : usage.add .zero = .ok usage := by
  have hzero (n : U32) : checkedAdd n 0 = .ok n := by
    rw [checkedAdd, dif_pos (by simp)]
    rfl
  rw [Usage.add, Usage.zero]
  simp only [hzero]
  rfl

/-- What is gathered of all events: the text of the pieces, and a tool use for each index. -/
theorem Gathering.gathered (h : Gathering ps es s) (usage : Usage) :
    ∃ g : Gathered, g.content = ps.flatMap Piece.text ∧ g.toolUses.get 0 = none ∧
      (∀ k index : U32, index.val = k.val + 1 →
        g.toolUses.get index = gatheredUse k (fragmentsAt k ps)) ∧
      (es ++ closing s).foldlM gather ⟨[], .empty, usage⟩ =
        (usage.add (s.usage.getD .zero)).map fun total => { g with usage := total } := by
  obtain ⟨g, hrun, hcontent, husage, huses⟩ := gather_events es ⟨[], .empty, usage⟩ h.unmetered
  refine ⟨g, hcontent.trans h.content, ?_, ?_, ?_⟩
  · rw [huses, SortedMap.get_empty, h.textUse]
  · intro k index hk
    rw [huses, SortedMap.get_empty, h.uses k index hk]
  · rw [List.foldlM_append, hrun, closing]
    change List.foldlM gather g _ = _
    split
    · rw [List.foldlM_cons, gather, husage]
      cases usage.add (s.usage.getD .zero) with
      | error p => rfl
      | ok total => rfl
    · next hstarted =>
      obtain hstarted' | hnone := h.started
      · exact absurd hstarted' hstarted
      · change g.usage = usage at husage
        rw [hnone, Option.getD_none, add_zero, ← husage]
        rfl

/-- The reply that is gathered is the text of the pieces, and a tool use for each index. -/
theorem Gathering.reply (h : Gathering ps es s) (serde : SerdeJson) (usage : Usage) :
    ∃ uses : SortedMap U32 StreamingToolUse, uses.get 0 = none ∧
      (∀ k index : U32, index.val = k.val + 1 → uses.get index = gatheredUse k (fragmentsAt k ps)) ∧
      replyOfEvents serde usage (es ++ closing s) =
        (usage.add (s.usage.getD .zero)).map fun total =>
          ⟨ps.flatMap Piece.text, uses.values.map (StreamingToolUse.finalize serde), total⟩ := by
  obtain ⟨g, hcontent, htext, huses, hrun⟩ := h.gathered usage
  refine ⟨g.toolUses, htext, huses, ?_⟩
  rw [replyOfEvents, hrun, ← hcontent]
  cases usage.add (s.usage.getD .zero) with
  | error p => rfl
  | ok total => rfl

end replies

end StreamState

end Solarcido.Crates
