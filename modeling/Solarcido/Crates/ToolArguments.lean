import Solarcido.Crates.Splits

namespace Solarcido.Crates

open RustText Emitter

section deltas

/-- The arguments an event brings for a block. -/
def jsonDelta (index : U32) : StreamEvent → RustString
  | .contentBlockDelta i (.inputJsonDelta partialJson) => if i = index then partialJson else []
  | _ => []

/-- The `InputJsonDelta` events for a block, one behind the other. -/
def jsonDeltas (index : U32) (es : List StreamEvent) : RustString := es.flatMap (jsonDelta index)

/-- The input a tool use has come to. -/
def inputOf (u : Option StreamingToolUse) : RustString := (u.map StreamingToolUse.inputJson).getD []

/-- Everything that is let out for a block is in what is gathered of it. -/
def Tracks (index : U32) (es : List StreamEvent) (u : Option StreamingToolUse) : Prop :=
  inputOf (useAfter index es u) = inputOf u ++ jsonDeltas index es

/-- No event starts a block for a tool use. -/
def Unstarted (index : U32) (es : List StreamEvent) : Prop :=
  ∀ id name input, .contentBlockStart index (.toolUse id name input) ∉ es

variable {index : U32} {es fs : List StreamEvent} {u : Option StreamingToolUse}

theorem jsonDeltas_append (index : U32) (es fs : List StreamEvent) :
    jsonDeltas index (es ++ fs) = jsonDeltas index es ++ jsonDeltas index fs := List.flatMap_append

theorem Tracks.append (h : Tracks index es u) (h' : Tracks index fs (useAfter index es u)) :
    Tracks index (es ++ fs) u := by
  rw [Tracks] at h h' ⊢
  rw [useAfter_append, h', h, jsonDeltas_append, List.append_assoc]

theorem useAfter_unstarted (h : Unstarted index es) (use : StreamingToolUse) :
    useAfter index es (some use) =
      some { use with inputJson := use.inputJson ++ jsonDeltas index es } := by
  induction es generalizing use with
  | nil => exact congrArg some (by simp [jsonDeltas])
  | cons e es ih =>
    have hrest : Unstarted index es := fun id name input hmem =>
      h id name input (List.mem_cons_of_mem e hmem)
    have hstep : useStep index (some use) e =
        some { use with inputJson := use.inputJson ++ jsonDelta index e } := by
      cases e with
      | contentBlockStart i block =>
        cases block with
        | text text => simp [useStep, jsonDelta]
        | toolUse id name input =>
          have hi : i ≠ index := by
            rintro rfl
            exact h id name input List.mem_cons_self
          simp [useStep, jsonDelta, hi]
      | contentBlockDelta i delta =>
        cases delta with
        | textDelta text => simp [useStep, jsonDelta]
        | inputJsonDelta partialJson =>
          by_cases hi : i = index <;> simp [useStep, jsonDelta, hi]
      | _ => simp [useStep, jsonDelta]
    have hcons : jsonDeltas index (e :: es) = jsonDelta index e ++ jsonDeltas index es :=
      List.flatMap_cons
    rw [hcons, ← List.append_assoc]
    exact (congrArg (useAfter index es) hstep).trans (ih hrest _)

theorem tracks_unstarted (h : Unstarted index es) (use : StreamingToolUse) :
    Tracks index es (some use) := by
  rw [Tracks, useAfter_unstarted h]
  rfl

/-- A block that is started has got what comes behind its start. -/
theorem tracks_start (h : Unstarted index es) (id name : RustString) (input : Value) :
    Tracks index (.contentBlockStart index (.toolUse id name input) :: es) none := by
  have hstart : useStep index none (.contentBlockStart index (.toolUse id name input)) =
      some ⟨id, name, []⟩ := if_pos rfl
  have hafter : useAfter index (.contentBlockStart index (.toolUse id name input) :: es) none =
      useAfter index es (some ⟨id, name, []⟩) := congrArg (useAfter index es) hstart
  rw [Tracks, hafter, useAfter_unstarted h]
  rfl

/-- Events that change no tool use of a block bring nothing for it. -/
theorem tracks_of_kept (h : ∀ u, useAfter index es u = u) (u : Option StreamingToolUse) :
    Tracks index es u := by
  have hnot : Unstarted index es := by
    intro id name input hmem
    obtain ⟨before, after, rfl⟩ := List.append_of_mem hmem
    -- a start leaves the same, whatever has been there before
    have hsame : ∀ v w : Option StreamingToolUse, useStep index v
        (.contentBlockStart index (.toolUse id name input)) =
          useStep index w (.contentBlockStart index (.toolUse id name input)) := by
      intro v w
      rw [useStep, useStep, if_pos rfl, if_pos rfl]
    have hnone := h none
    have hsome := h (some ⟨[], [], []⟩)
    rw [useAfter_append] at hnone hsome
    have hboth := congrArg (useAfter index after) (hsame (useAfter index before none)
      (useAfter index before (some ⟨[], [], []⟩)))
    cases (hnone.symm.trans hboth).trans hsome
  have hnil : jsonDeltas index es = [] := by
    have hinput := (useAfter_unstarted hnot ⟨[], [], []⟩).symm.trans (h _)
    exact congrArg inputOf hinput
  rw [Tracks, h, hnil, List.append_nil]

theorem Unstarted.append (h : Unstarted index es) (h' : Unstarted index fs) :
    Unstarted index (es ++ fs) := by
  intro id name input hmem
  obtain hmem | hmem := List.mem_append.mp hmem
  · exact h id name input hmem
  · exact h' id name input hmem

end deltas

namespace ToolCallState

variable {index : U32} {es : List StreamEvent} {t t' : ToolCallState}

theorem stop_unstarted (hindex : t.blockIndex = .ok index) (h : t.stop = .ok (es, t')) :
    Unstarted index es := by
  obtain ⟨rfl, -⟩ := Prod.mk.inj (Except.ok.inj ((stop_eq hindex).symm.trans h))
  intro id name input
  split <;> simp

theorem delta_unstarted (hindex : t.blockIndex = .ok index) (h : t.delta = .ok (es, t')) :
    Unstarted index es ∧ t'.blockIndex = .ok index := by
  obtain ⟨rfl, rfl⟩ := Prod.mk.inj (Except.ok.inj ((delta_eq hindex).symm.trans h))
  refine ⟨?_, hindex⟩
  intro id name input
  split <;> simp

/-- What a fragment lets out behind the start of its block. -/
theorem arguments_unstarted {finishReason : Option RustString} (hindex : t.blockIndex = .ok index)
    (h : whenStarted (andThen delta
      (if finishReason = some (str "tool_calls") then stop else quiet fun t => t)) t =
        .ok (es, t')) : Unstarted index es := by
  rw [whenStarted] at h
  split at h
  · obtain ⟨fs, u, gs, hdelta, hstop, rfl⟩ := (andThen_ok_iff _ _ t es t').mp h
    obtain ⟨hfs, hu⟩ := delta_unstarted hindex hdelta
    apply hfs.append
    split at hstop
    · exact stop_unstarted hu hstop
    · obtain ⟨rfl, -⟩ := Prod.mk.inj (Except.ok.inj hstop)
      exact fun _ _ _ => List.not_mem_nil
  · obtain ⟨rfl, -⟩ := Prod.mk.inj (Except.ok.inj h)
    exact fun _ _ _ => List.not_mem_nil

/-- A call's block is started once, in front of its arguments. -/
theorem advance_tracks {finishReason : Option RustString} (hindex : t.blockIndex = .ok index)
    (h : t.advance finishReason = .ok (es, t')) {u : Option StreamingToolUse}
    (hu : u.isSome = t.started) : Tracks index es u := by
  rw [advance, hindex] at h
  obtain ⟨fs, v, gs, hstart, hrest, rfl⟩ := (andThen_ok_iff _ _ t es t').mp h
  obtain ⟨rfl, rfl⟩ := Prod.mk.inj (Except.ok.inj ((start_eq hindex).symm.trans hstart))
  have hgs : Unstarted index gs :=
    arguments_unstarted (t := { t with started := t.started || t.name.isSome }) hindex hrest
  cases hstarted : t.started with
  | true =>
    rw [hstarted] at hu
    obtain ⟨use, rfl⟩ := Option.isSome_iff_exists.mp hu
    exact tracks_unstarted hgs use
  | false =>
    rw [hstarted, Option.isSome_eq_false_iff, Option.isNone_iff_eq_none] at hu
    rw [hu]
    cases hname : t.name with
    | some name => exact tracks_start hgs _ name _
    | none =>
      rw [whenStarted, if_neg (by simp [hstarted, hname])] at hrest
      obtain ⟨rfl, -⟩ := Prod.mk.inj (Except.ok.inj hrest)
      rfl

end ToolCallState

namespace StreamState

variable {ps : List Piece} {es fs : List StreamEvent} {s u : StreamState}

/-- Everything that has been let out for a block is in what is gathered of it. -/
def Whole (es : List StreamEvent) : Prop := ∀ index, Tracks index es none

theorem Whole.append (h : Whole es) (hkept : ∀ index w, useAfter index fs w = w) :
    Whole (es ++ fs) :=
  fun index => (h index).append (tracks_of_kept (hkept index) _)

/-- Where a step of all calls leaves each as it has been gathered, nothing comes out of it. -/
theorem eachTool_idle {f : Step ToolCallState} (hf : ToolCallState.Settles f)
    (hgathering : Gathering ps es s) (h : eachTool f s = .ok (fs, u)) : Idle fs := by
  obtain ⟨hidle, -⟩ := forEach_invariant
    (fun gs v => Idle gs ∧ ∀ k t, v.toolCalls.get k = some t → ∃ index fragments,
      t.blockIndex = .ok index ∧ ToolCallState.Assembled k fragments t)
    (by
      refine ⟨Idle.nil, fun k t hget => ?_⟩
      obtain ⟨hopen, hlt⟩ := hgathering.blocks k t hget
      have hassembled := hgathering.calls k
      rw [hget, Option.getD_some] at hassembled
      refine ⟨⟨k.val + 1, hlt⟩, _, ?_, hassembled⟩
      rw [ToolCallState.blockIndex, hopen]
      exact dif_pos hlt)
    (by
      rintro gs v k fs' v' ⟨hidle, hready⟩ hstep
      rw [updateTool] at hstep
      cases hget : v.toolCalls.get k with
      | none =>
        rw [hget] at hstep
        obtain ⟨rfl, rfl⟩ := Prod.mk.inj (Except.ok.inj hstep)
        exact ⟨by rwa [List.append_nil], hready⟩
      | some t =>
        obtain ⟨index, fragments, hindex, hassembled⟩ := hready k t hget
        obtain ⟨fs'', t', heq, hidle', hassembled', hopen⟩ :=
          hf k index fragments t hindex hassembled
        rw [hget] at hstep
        simp only [heq, Except.map, Except.ok.injEq, Prod.mk.injEq] at hstep
        obtain ⟨rfl, rfl⟩ := hstep
        refine ⟨hidle.append hidle', fun k' t'' hget' => ?_⟩
        simp only [SortedMap.get_set] at hget'
        split at hget'
        · next hk =>
          obtain rfl := Option.some.inj hget'
          rw [hk]
          refine ⟨index, fragments, ?_, hassembled'⟩
          rw [ToolCallState.blockIndex, hopen]
          exact hindex
        · exact hready k' t'' hget') h
  exact hidle

/-- The same calls, whatever else the state says. -/
theorem Gathering.relabel (h : Gathering ps es s) (hcalls : u.toolCalls = s.toolCalls)
    (husage : u.usage = s.usage) (hstarted : u.messageStarted = s.messageStarted) :
    Gathering ps es u := by
  refine ⟨h.content, h.textUse, h.uses, ?_, ?_, ?_, ?_, h.unmetered⟩
  · rw [hcalls]
    exact h.calls
  · rw [hcalls]
    exact h.blocks
  · rw [husage]
    exact h.usage
  · rw [husage, hstarted]
    exact h.started

theorem ingestToolCall_whole (h : Gathering ps es s) (hwhole : Whole es)
    {finishReason : Option RustString} {tc : DeltaToolCall} (hlt : tc.index.val + 1 < 2 ^ 32)
    (hstep : ingestToolCall finishReason tc s = .ok (fs, u)) : Whole (es ++ fs) := by
  obtain ⟨gs, t', hadvance, hlets, -, -⟩ := ToolCallState.advance_lets finishReason
    (h.calls tc.index) tc rfl (blockIndex_apply _ tc hlt)
  simp only [ingestToolCall, hadvance, Except.map, Except.ok.injEq, Prod.mk.injEq] at hstep
  obtain ⟨rfl, -⟩ := hstep
  intro index
  by_cases hindex : index = ⟨tc.index.val + 1, hlt⟩
  · subst hindex
    apply (hwhole _).append
    apply ToolCallState.advance_tracks (blockIndex_apply _ tc hlt) hadvance
    rw [h.uses tc.index _ rfl, gatheredUse, Option.isSome_map]
    exact (h.calls tc.index).started.symm
  · exact (hwhole index).append (tracks_of_kept (hlets.others index hindex) _)

theorem ingestPiece_whole (h : Gathering ps es s) (hwhole : Whole es) {p : Piece} (hfits : p.Fits)
    (hstep : ingestPiece p s = .ok (fs, u)) : Whole (es ++ fs) := by
  cases p with
  | start chunk =>
    rw [ingestPiece] at hstep
    obtain ⟨gs, t, gs', hstart, htake, rfl⟩ := (andThen_ok_iff _ _ s fs u).mp hstep
    obtain ⟨rfl, -⟩ := Prod.mk.inj (Except.ok.inj htake)
    rw [List.append_nil]
    rw [startMessage] at hstart
    split at hstart
    · obtain ⟨rfl, -⟩ := Prod.mk.inj (Except.ok.inj hstart)
      exact hwhole.append fun _ _ => rfl
    · obtain ⟨rfl, -⟩ := Prod.mk.inj (Except.ok.inj hstart)
      exact hwhole.append fun _ _ => rfl
  | content content =>
    rw [ingestPiece, ingestContent] at hstep
    split at hstep
    · obtain ⟨rfl, -⟩ := Prod.mk.inj (Except.ok.inj hstep)
      exact hwhole.append fun _ _ => rfl
    · obtain ⟨rfl, -⟩ := Prod.mk.inj (Except.ok.inj hstep)
      apply hwhole.append
      intro index w
      cases s.textStarted <;> rfl
  | toolCall finishReason tc => exact ingestToolCall_whole h hwhole (hfits tc rfl) hstep
  | finishReason finishReason =>
    cases finishReason with
    | none =>
      obtain ⟨rfl, -⟩ := Prod.mk.inj (Except.ok.inj hstep)
      exact hwhole.append fun _ _ => rfl
    | some reason =>
      simp only [ingestPiece, ingestFinishReason] at hstep
      split at hstep
      · have hsame := h.relabel
          (u := { s with stopReason := some (normalizeFinishReason reason) }) rfl rfl rfl
        have hidle := eachTool_idle ToolCallState.stop_settles hsame hstep
        exact hwhole.append hidle.uses
      · obtain ⟨rfl, -⟩ := Prod.mk.inj (Except.ok.inj hstep)
        exact hwhole.append fun _ _ => rfl

theorem finish_whole (h : Gathering ps es s) (hwhole : Whole es)
    (hfinish : finish s = .ok (fs, u)) : Whole (es ++ fs) := by
  rw [finish] at hfinish
  split at hfinish
  · obtain ⟨rfl, -⟩ := Prod.mk.inj (Except.ok.inj hfinish)
    exact hwhole.append fun _ _ => rfl
  · obtain ⟨gs, t, rest, htext, hrest, rfl⟩ := (andThen_ok_iff _ _ _ fs u).mp hfinish
    obtain ⟨gs', t', gs'', htools, hmessage, rfl⟩ := (andThen_ok_iff _ _ t rest u).mp hrest
    have hgs : (∀ index w, useAfter index gs w = w) ∧ t.toolCalls = s.toolCalls ∧
        t.usage = s.usage ∧ t.messageStarted = s.messageStarted := by
      rw [finishText] at htext
      split at htext
      · obtain ⟨rfl, rfl⟩ := Prod.mk.inj (Except.ok.inj htext)
        exact ⟨fun _ _ => rfl, rfl, rfl, rfl⟩
      · obtain ⟨rfl, rfl⟩ := Prod.mk.inj (Except.ok.inj htext)
        exact ⟨fun _ _ => rfl, rfl, rfl, rfl⟩
    obtain ⟨hkept, hcalls, husage, hstarted⟩ := hgs
    have hidle := eachTool_idle ToolCallState.finish_settles (h.relabel hcalls husage hstarted)
      htools
    have hlast : ∀ index w, useAfter index gs'' w = w := by
      rw [finishMessage] at hmessage
      split at hmessage
      · obtain ⟨rfl, -⟩ := Prod.mk.inj (Except.ok.inj hmessage)
        exact fun _ _ => rfl
      · obtain ⟨rfl, -⟩ := Prod.mk.inj (Except.ok.inj hmessage)
        exact fun _ _ => rfl
    apply hwhole.append
    intro index w
    rw [useAfter_append, useAfter_append, hkept, hidle.uses, hlast]

theorem ingestPieces_whole (model : RustString) {ps : List Piece} (hfits : ∀ p ∈ ps, p.Fits)
    {es : List StreamEvent} {s : StreamState}
    (h : forEach ingestPiece ps (new model) = .ok (es, s)) : Gathering ps es s ∧ Whole es := by
  induction ps using List.reverseRecOn generalizing es s with
  | nil =>
    obtain ⟨rfl, rfl⟩ := Prod.mk.inj (Except.ok.inj h)
    exact ⟨begin_gathering model, fun _ => rfl⟩
  | append_singleton ps p ih =>
    obtain ⟨es, t, fs, hrun, hstep, rfl⟩ := (forEach_snoc_ok_iff _ ps p _ _ s).mp h
    obtain ⟨hgathering, hwhole⟩ := ih (fun q hq => hfits q (by simp [hq])) hrun
    have hp : p.Fits := hfits p (by simp)
    obtain ⟨fs', u', heq, hgathering', -⟩ := ingestPiece_gathering hgathering p hp
    obtain ⟨rfl, rfl⟩ := Prod.mk.inj (Except.ok.inj (heq.symm.trans hstep))
    exact ⟨hgathering', ingestPiece_whole hgathering hwhole hp hstep⟩

theorem stream_whole {model : RustString} {chunks : List ChatCompletionChunk}
    {es : List StreamEvent} {s : StreamState} (h : stream chunks (new model) = .ok (es, s)) :
    Whole es := by
  have hfits := stream_fits h
  rw [stream, ingestChunks_eq, andThen_ok_iff] at h
  obtain ⟨fs, t, gs, hpieces, hfinish, rfl⟩ := h
  obtain ⟨hgathering, hwhole⟩ := ingestPieces_whole model hfits hpieces
  exact finish_whole hgathering hwhole hfinish

theorem useAfter_closing (index : U32) (s : StreamState) (w : Option StreamingToolUse) :
    useAfter index (closing s) w = w := by
  rw [closing]
  split <;> rfl

theorem naming_isSome (k : U32) (id : Option RustString) {fragments : List DeltaToolCall}
    (h : ∃ f ∈ fragments, f.function.name.isSome) : (naming k id fragments).isSome := by
  induction fragments generalizing id with
  | nil =>
    obtain ⟨f, hf, -⟩ := h
    cases hf
  | cons first fragments ih =>
    rw [naming]
    cases hname : first.function.name with
    | some name => rfl
    | none =>
      obtain ⟨f, hf, hsome⟩ := h
      obtain rfl | hf := List.mem_cons.mp hf
      · rw [hname] at hsome
        cases hsome
      · exact ih _ ⟨f, hf, hsome⟩

/-- The arguments of each call that is named are let out, and gathered by a turn, as they have
come. -/
theorem toolArguments_streamed (model : RustString) (usage : Usage)
    (chunks : List ChatCompletionChunk)
    (hindices : ∀ d ∈ deltasOf chunks, ∀ f ∈ d.toolCalls, f.index.val < 2 ^ 32 - 1) :
    ∃ (events : List StreamEvent) (last : StreamState) (g : Gathered),
      stream chunks (new model) = .ok (events, last) ∧
      events.foldlM gather ⟨[], .empty, usage⟩ =
        (usage.add (last.usage.getD .zero)).map (fun total => { g with usage := total }) ∧
      ∀ k block : U32, block.val = k.val + 1 →
        (∃ f ∈ fragmentsOf k chunks, f.function.name.isSome) →
        jsonDeltas block events = argumentsOf (fragmentsOf k chunks) ∧
        (g.toolUses.get block).map StreamingToolUse.inputJson =
          some (argumentsOf (fragmentsOf k chunks)) := by
  obtain ⟨es, last, hstream, hgathering⟩ := stream_gathering model (pieces_fit chunks hindices)
  have hwhole := stream_whole hstream
  obtain ⟨g, -, -, huses, hrun⟩ := hgathering.gathered usage
  refine ⟨es ++ closing last, last, g, hstream, hrun, ?_⟩
  intro k block hblock hnamed
  rw [← fragmentsAt_pieces] at hnamed ⊢
  have hafter : useAfter block (es ++ closing last) none =
      gatheredUse k (fragmentsAt k (chunks.flatMap chunkPieces)) := by
    rw [useAfter_append, useAfter_closing, hgathering.uses k block hblock]
  obtain ⟨p, hp⟩ := Option.isSome_iff_exists.mp (naming_isSome k none hnamed)
  have huse := ToolCallState.gatheredUse_of_naming hp
  constructor
  · have htracks := hwhole block
    rw [Tracks, hafter, huse] at htracks
    exact htracks.symm
  · rw [huses k block hblock, huse]
    rfl

/-- A fragment of one of two calls. -/
def fragmentChunk (index : U32) (name : Option RustString) (arguments : RustString) :
    ChatCompletionChunk :=
  ⟨[], none, [⟨⟨none, [⟨index, none, ⟨name, some arguments⟩⟩]⟩, none⟩], none⟩

/-- Two calls in turns; the name of the first comes behind its first arguments. -/
def lateName : List ChatCompletionChunk :=
  [fragmentChunk 0 none (str "[1"), fragmentChunk 1 (some (str "glob")) (str "[2"),
    fragmentChunk 0 (some (str "grep")) (str ",3]"), fragmentChunk 1 none (str "]")]

theorem toolArguments_lateName : ∃ (events : List StreamEvent) (last : StreamState) (g : Gathered),
    stream lateName (new []) = .ok (events, last) ∧
    events.foldlM gather ⟨[], .empty, .zero⟩ =
      (Usage.zero.add (last.usage.getD .zero)).map (fun total => { g with usage := total }) ∧
    jsonDeltas 1 events = str "[1,3]" ∧
    (g.toolUses.get 1).map StreamingToolUse.inputJson = some (str "[1,3]") := by
  obtain ⟨events, last, g, hstream, hgathered, huses⟩ :=
    toolArguments_streamed [] .zero lateName (by decide)
  exact ⟨events, last, g, hstream, hgathered, huses 0 1 rfl (by decide)⟩

end StreamState

end Solarcido.Crates
