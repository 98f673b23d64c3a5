import Solarcido.Crates.Runtime
import Solarcido.Crates.StreamEvents

namespace Solarcido.Crates

open RustText Emitter

section gathering

/-- What an event does to the tool use of a block. -/
def useStep (index : U32) (u : Option StreamingToolUse) : StreamEvent → Option StreamingToolUse
  | .contentBlockStart i (.toolUse id name _) => if i = index then some ⟨id, name, []⟩ else u
  | .contentBlockDelta i (.inputJsonDelta partialJson) =>
    if i = index then u.map fun use => { use with inputJson := use.inputJson ++ partialJson } else u
  | _ => u

def textStep (content : RustString) : StreamEvent → RustString
  | .contentBlockDelta _ (.textDelta text) => content ++ text
  | _ => content

def useAfter (index : U32) (es : List StreamEvent) (u : Option StreamingToolUse) :
    Option StreamingToolUse := es.foldl (useStep index) u

def textAfter (es : List StreamEvent) (content : RustString) : RustString := es.foldl textStep content

/-- No usage comes with an event. -/
def Unmetered (es : List StreamEvent) : Prop := ∀ delta usage, .messageDelta delta usage ∉ es

theorem useAfter_append (index : U32) (es fs : List StreamEvent) (u : Option StreamingToolUse) :
    useAfter index (es ++ fs) u = useAfter index fs (useAfter index es u) := List.foldl_append

theorem textAfter_append (es fs : List StreamEvent) (content : RustString) :
    textAfter (es ++ fs) content = textAfter fs (textAfter es content) := List.foldl_append

theorem Unmetered.append {es fs : List StreamEvent} (he : Unmetered es) (hf : Unmetered fs) :
    Unmetered (es ++ fs) := by
  intro delta usage hmem
  obtain hmem | hmem := List.mem_append.mp hmem
  · exact he delta usage hmem
  · exact hf delta usage hmem

theorem gather_step (g : Gathered) (e : StreamEvent) (h : ∀ delta usage, e ≠ .messageDelta delta usage) :
    ∃ g', gather g e = .ok g' ∧ g'.content = textStep g.content e ∧ g'.usage = g.usage ∧
      ∀ index, g'.toolUses.get index = useStep index (g.toolUses.get index) e := by
  cases e with
  | messageDelta delta usage => exact absurd rfl (h delta usage)
  | contentBlockStart i block =>
    cases block with
    | text text => exact ⟨g, rfl, rfl, rfl, fun _ => rfl⟩
    | toolUse id name input =>
      refine ⟨_, rfl, rfl, rfl, ?_⟩
      intro index
      rw [SortedMap.get_set, useStep]
      simp only [eq_comm]
  | contentBlockDelta i delta =>
    cases delta with
    | textDelta text => exact ⟨_, rfl, rfl, rfl, fun _ => rfl⟩
    | inputJsonDelta partialJson =>
      rw [gather]
      cases hget : g.toolUses.get i with
      | none =>
        refine ⟨g, rfl, rfl, rfl, ?_⟩
        intro index
        rw [useStep]
        split
        · next heq => rw [← heq, hget]; rfl
        · rfl
      | some use =>
        refine ⟨_, rfl, rfl, rfl, ?_⟩
        intro index
        rw [SortedMap.get_set, useStep]
        by_cases heq : index = i
        · subst heq
          simp [hget]
        · simp [heq, Ne.symm heq]
  | _ => exact ⟨g, rfl, rfl, rfl, fun _ => rfl⟩

/-- What is gathered from events: the text, and a tool use for each block. -/
theorem gather_events (es : List StreamEvent) (g : Gathered) (h : Unmetered es) :
    ∃ g', es.foldlM gather g = .ok g' ∧ g'.content = textAfter es g.content ∧
      g'.usage = g.usage ∧
      ∀ index, g'.toolUses.get index = useAfter index es (g.toolUses.get index) := by
  induction es generalizing g with
  | nil => exact ⟨g, rfl, rfl, rfl, fun _ => rfl⟩
  | cons e es ih =>
    obtain ⟨g₁, hstep, htext, husage, huses⟩ := gather_step g e fun delta usage heq =>
      h delta usage (by rw [heq]; exact List.mem_cons_self)
    obtain ⟨g₂, hrun, htext', husage', huses'⟩ := ih g₁ fun delta usage hmem =>
      h delta usage (List.mem_cons_of_mem e hmem)
    refine ⟨g₂, ?_, ?_, husage'.trans husage, ?_⟩
    · rw [List.foldlM_cons, hstep]
      exact hrun
    · rw [htext', htext]
      rfl
    · intro index
      rw [huses', huses]
      rfl

/-- Events that gather nothing. -/
structure Idle (es : List StreamEvent) : Prop where
  uses : ∀ index u, useAfter index es u = u
  text : ∀ content, textAfter es content = content
  unmetered : Unmetered es

/-- Events of one block, which lead its tool use from one value to another. -/
structure Lets (index : U32) (es : List StreamEvent) (u v : Option StreamingToolUse) : Prop where
  use : useAfter index es u = v
  others : ∀ j, j ≠ index → ∀ w, useAfter j es w = w
  text : ∀ content, textAfter es content = content
  unmetered : Unmetered es

theorem Idle.nil : Idle [] := ⟨fun _ _ => rfl, fun _ => rfl, fun _ _ => List.not_mem_nil⟩

theorem Idle.stop (index : U32) : Idle [.contentBlockStop index] :=
  ⟨fun _ _ => rfl, fun _ => rfl, by simp [Unmetered]⟩

theorem Idle.append {es fs : List StreamEvent} (he : Idle es) (hf : Idle fs) : Idle (es ++ fs) := by
  refine ⟨?_, ?_, he.unmetered.append hf.unmetered⟩
  · intro index u
    rw [useAfter_append, he.uses, hf.uses]
  · intro content
    rw [textAfter_append, he.text, hf.text]

theorem Idle.lets {es : List StreamEvent} (h : Idle es) (index : U32)
    (u : Option StreamingToolUse) : Lets index es u u :=
  ⟨h.uses index u, fun j _ => h.uses j, h.text, h.unmetered⟩

section lets

variable {index : U32} {es fs : List StreamEvent} {u v w : Option StreamingToolUse}

theorem Lets.trans (h : Lets index es u v) (h' : Lets index fs v w) : Lets index (es ++ fs) u w := by
  refine ⟨?_, ?_, ?_, h.unmetered.append h'.unmetered⟩
  · rw [useAfter_append, h.use, h'.use]
  · intro j hj x
    rw [useAfter_append, h.others j hj, h'.others j hj]
  · intro content
    rw [textAfter_append, h.text, h'.text]

theorem Lets.start (index : U32) (u : Option StreamingToolUse) (id name : RustString)
    (input : Value) :
    Lets index [.contentBlockStart index (.toolUse id name input)] u (some ⟨id, name, []⟩) := by
  refine ⟨by simp [useAfter, useStep], ?_, fun _ => rfl, by simp [Unmetered]⟩
  intro j hj x
  simp [useAfter, useStep, hj.symm]

theorem Lets.delta (index : U32) (u : Option StreamingToolUse) (partialJson : RustString) :
    Lets index [.contentBlockDelta index (.inputJsonDelta partialJson)] u
      (u.map fun use => { use with inputJson := use.inputJson ++ partialJson }) := by
  refine ⟨by simp [useAfter, useStep], ?_, fun _ => rfl, by simp [Unmetered]⟩
  intro j hj x
  simp [useAfter, useStep, hj.symm]

end lets

end gathering

section fragments

/-- The id of a call whose fragments bring none in time. -/
def fallbackId (index : U32) : RustString := str "tool_call_" ++ decimal index

/-- The last id in fragments. -/
def lastId (id : Option RustString) (fs : List DeltaToolCall) : Option RustString :=
  fs.foldl (fun id f => f.id.or id) id

/-- The id and the name a block is started with: those known when the first name comes. -/
def naming (index : U32) (id : Option RustString) : List DeltaToolCall →
    Option (RustString × RustString)
  | [] => none
  | f :: fs =>
    match f.function.name with
    | some name => some ((f.id.or id).getD (fallbackId index), name)
    | none => naming index (f.id.or id) fs

def argumentsOf (fs : List DeltaToolCall) : RustString :=
  fs.flatMap fun f => f.function.arguments.getD []

/-- The tool use gathered from the fragments of one index. -/
def gatheredUse (index : U32) (fs : List DeltaToolCall) : Option StreamingToolUse :=
  (naming index none fs).map fun p => ⟨p.1, p.2, argumentsOf fs⟩

theorem lastId_snoc (id : Option RustString) (fs : List DeltaToolCall) (f : DeltaToolCall) :
    lastId id (fs ++ [f]) = f.id.or (lastId id fs) := by
  rw [lastId, List.foldl_append]
  rfl

theorem naming_snoc (index : U32) (id : Option RustString) (fs : List DeltaToolCall)
    (f : DeltaToolCall) : naming index id (fs ++ [f]) =
      (naming index id fs).or (f.function.name.map fun name =>
        ((f.id.or (lastId id fs)).getD (fallbackId index), name)) := by
  induction fs generalizing id with
  | nil =>
    rw [List.nil_append, naming, naming, Option.none_or]
    cases f.function.name <;> rfl
  | cons first fs ih =>
    rw [List.cons_append, naming, naming]
    cases first.function.name with
    | some name => rfl
    | none => exact ih (first.id.or id)

theorem argumentsOf_snoc (fs : List DeltaToolCall) (f : DeltaToolCall) :
    argumentsOf (fs ++ [f]) = argumentsOf fs ++ f.function.arguments.getD [] := by
  simp [argumentsOf]

end fragments

namespace ToolCallState

/-- What the fragments of a call have made of it. -/
structure Assembled (index : U32) (fs : List DeltaToolCall) (t : ToolCallState) : Prop where
  id : t.id = lastId none fs
  arguments : t.arguments = argumentsOf fs
  started : t.started = (naming index none fs).isSome
  unnamed : t.started = false → t.name = none ∧ t.emittedLen = 0
  emitted : t.started = true → t.emittedLen = t.arguments.length

section steps

variable {k index : U32} {fs : List DeltaToolCall} {t : ToolCallState}

theorem new_assembled (k : U32) : Assembled k [] new :=
  ⟨rfl, rfl, rfl, fun _ => ⟨rfl, rfl⟩, fun h => by cases h⟩

/-- A step that leaves everything as it has been gathered. -/
def Settles (f : Step ToolCallState) : Prop :=
  ∀ k index fs t, t.blockIndex = .ok index → Assembled k fs t → ∃ es t', f t = .ok (es, t') ∧
    Idle es ∧ Assembled k fs t' ∧ t'.openaiIndex = t.openaiIndex

theorem stop_settles : Settles stop := by
  intro k index fs t hindex h
  refine ⟨_, _, stop_eq hindex, ?_, ⟨h.id, h.arguments, h.started, h.unnamed, h.emitted⟩, rfl⟩
  split
  · exact Idle.stop index
  · exact Idle.nil

theorem start_unnamed (hstarted : t.started = false) (hname : t.name = none) :
    t.start = .ok ([], t) := by
  have hevent : t.startEvent = .ok none := by rw [startEvent, hname]
  rw [start, if_neg (by simp [hstarted]), hevent]
  cases t
  subst hstarted
  rfl

theorem finish_settles : Settles finish := by
  intro k index fs t hindex h
  obtain ⟨es, t', hstop, hidle, hassembled, hopen⟩ := stop_settles k index fs t hindex h
  refine ⟨es, t', ?_, hidle, hassembled, hopen⟩
  rw [finish, andThen_ok_iff]
  refine ⟨[], t, es, ?_, hstop, rfl⟩
  split
  · rfl
  · next hnot =>
    -- a call that has not been started has no name to be started with
    have hfalse : t.started = false := by simpa using hnot
    rw [andThen_ok_iff]
    refine ⟨[], t, [], start_unnamed hfalse (h.unnamed hfalse).1, ?_, rfl⟩
    rw [whenStarted, if_neg hnot]

/-- The arguments that have come in, let out. -/
theorem delta_lets (hindex : t.blockIndex = .ok index) (use : StreamingToolUse)
    {before new : RustString} (harguments : t.arguments = before ++ new)
    (hemitted : t.emittedLen = before.length) :
    ∃ es, t.delta = .ok (es, { t with emittedLen := t.arguments.length }) ∧
      Lets index es (some use) (some { use with inputJson := use.inputJson ++ new }) := by
  refine ⟨_, by rw [delta_eq hindex, max_eq_right (by simp [harguments, hemitted])], ?_⟩
  have hdrop : t.arguments.drop t.emittedLen = new := by
    rw [harguments, hemitted, List.drop_left]
  rw [hdrop]
  split
  · next hle =>
    have hnil : new = [] := by
      rw [harguments, hemitted, List.length_append] at hle
      exact List.length_eq_zero_iff.mp (by omega)
    rw [hnil, List.append_nil]
    exact Idle.nil.lets index _
  · exact Lets.delta index _ _

theorem Assembled.apply_id (h : Assembled k fs t) (f : DeltaToolCall) :
    (t.apply f).id = lastId none (fs ++ [f]) := by
  rw [lastId_snoc, ← h.id]
  rfl

theorem Assembled.apply_arguments (h : Assembled k fs t) (f : DeltaToolCall) :
    (t.apply f).arguments = argumentsOf (fs ++ [f]) := by
  rw [argumentsOf_snoc, ← h.arguments]
  rfl

theorem last_settles (finishReason : Option RustString) :
    Settles (if finishReason = some (str "tool_calls") then stop else quiet fun t => t) := by
  split
  · exact stop_settles
  · exact fun _ _ _ s _ hs => ⟨[], s, rfl, Idle.nil, hs, rfl⟩

theorem gatheredUse_of_naming {p : RustString × RustString} (h : naming k none fs = some p) :
    gatheredUse k fs = some ⟨p.1, p.2, argumentsOf fs⟩ := by
  rw [gatheredUse, h]
  rfl

theorem gatheredUse_of_unnamed (h : naming k none fs = none) : gatheredUse k fs = none := by
  rw [gatheredUse, h]
  rfl

/-- A call that has been started lets out the arguments that are new. -/
theorem started_lets (finishReason : Option RustString) (hindex : t.blockIndex = .ok index)
    (hstarted : t.started = true) (hid : t.id = lastId none fs)
    (harguments : t.arguments = argumentsOf fs) {p : RustString × RustString}
    (hnaming : naming k none fs = some p) {before new : RustString}
    (hnew : t.arguments = before ++ new) (hemitted : t.emittedLen = before.length) :
    ∃ es t', whenStarted (andThen delta
        (if finishReason = some (str "tool_calls") then stop else quiet fun t => t)) t =
          .ok (es, t') ∧
      Lets index es (some ⟨p.1, p.2, before⟩) (gatheredUse k fs) ∧
      Assembled k fs t' ∧ t'.openaiIndex = t.openaiIndex := by
  obtain ⟨es, hdelta, hlets⟩ := delta_lets hindex ⟨p.1, p.2, before⟩ hnew hemitted
  have hsent : Assembled k fs { t with emittedLen := t.arguments.length } := by
    refine ⟨hid, harguments, ?_, ?_, fun _ => rfl⟩
    · rw [hnaming]
      exact hstarted
    · intro hnot
      exact absurd hnot (by simp [hstarted])
  obtain ⟨es', t', hstop, hidle, hassembled, hopen⟩ :=
    last_settles finishReason k index fs { t with emittedLen := t.arguments.length } hindex hsent
  refine ⟨es ++ es', t', ?_, ?_, hassembled, hopen⟩
  · rw [whenStarted, if_pos hstarted, andThen_ok_iff]
    exact ⟨es, _, es', hdelta, hstop, rfl⟩
  · rw [gatheredUse_of_naming hnaming, ← harguments, hnew]
    exact hlets.trans (hidle.lets index _)

/-- What a fragment lets out brings the tool use gathered up to date. -/
theorem advance_lets (finishReason : Option RustString) (h : Assembled k fs t) (f : DeltaToolCall)
    (hk : f.index = k) (hindex : (t.apply f).blockIndex = .ok index) :
    ∃ es t', (t.apply f).advance finishReason = .ok (es, t') ∧
      Lets index es (gatheredUse k fs) (gatheredUse k (fs ++ [f])) ∧
      Assembled k (fs ++ [f]) t' ∧ t'.openaiIndex = k := by
  have hid := h.apply_id f
  have harguments := h.apply_arguments f
  have hknown : (t.apply f).started = (naming k none fs).isSome := h.started
  have hname : (t.apply f).name = f.function.name.or t.name := rfl
  rw [advance, hindex]
  simp only
  cases hnaming : naming k none fs with
  | some p =>
    -- the block has been started: the new arguments go out
    rw [hnaming, Option.isSome_some] at hknown
    have hsnoc : naming k none (fs ++ [f]) = some p := by
      rw [naming_snoc, hnaming]
      rfl
    have hsent : (t.apply f).emittedLen = (argumentsOf fs).length := by
      rw [← h.arguments]
      exact h.emitted hknown
    obtain ⟨es, t', hdelta, hlets, hassembled, hopen⟩ := started_lets finishReason hindex hknown
      hid harguments hsnoc (harguments.trans (argumentsOf_snoc fs f)) hsent
    refine ⟨es, t', ?_, ?_, hassembled, hopen.trans hk⟩
    · rw [andThen_ok_iff]
      exact ⟨[], t.apply f, es, by rw [start, if_pos hknown], hdelta, rfl⟩
    · rw [gatheredUse_of_naming hnaming]
      exact hlets
  | none =>
    rw [hnaming, Option.isSome_none] at hknown
    obtain ⟨hunnamed, hunsent⟩ := h.unnamed hknown
    rw [hunnamed, Option.or_none] at hname
    rw [gatheredUse_of_unnamed hnaming]
    cases hfirst : f.function.name with
    | none =>
      -- still without a name
      rw [hfirst] at hname
      have hsnoc : naming k none (fs ++ [f]) = none := by
        rw [naming_snoc, hnaming, hfirst]
        rfl
      refine ⟨[], t.apply f, ?_, ?_, ⟨hid, harguments, ?_, fun _ => ⟨hname, hunsent⟩, ?_⟩, hk⟩
      · rw [andThen_ok_iff]
        refine ⟨[], t.apply f, [], start_unnamed hknown hname, ?_, rfl⟩
        rw [whenStarted, if_neg (by simp [hknown])]
      · rw [gatheredUse_of_unnamed hsnoc]
        exact Idle.nil.lets index none
      · rw [hsnoc]
        exact hknown
      · intro htrue
        exact absurd htrue (by simp [hknown])
    | some name =>
      -- the name has come: the block is started, and all arguments so far go out
      rw [hfirst] at hname
      have hsnoc : naming k none (fs ++ [f]) =
          some ((lastId none (fs ++ [f])).getD (fallbackId k), name) := by
        rw [naming_snoc, hnaming, hfirst, lastId_snoc]
        rfl
      have hstart : (t.apply f).start =
          .ok ([.contentBlockStart index (.toolUse ((lastId none (fs ++ [f])).getD (fallbackId k)) name
            (.object []))], { t.apply f with started := true }) := by
        have hopen : (t.apply f).openaiIndex = k := hk
        rw [start_eq hindex]
        refine congrArg Except.ok (Prod.ext ?_ ?_)
        · simp only [hknown, hname, hid, hopen]
          rfl
        · simp only [hknown, hname]
          rfl
      obtain ⟨es, t', hdelta, hlets, hassembled, hopen⟩ := started_lets finishReason
        (t := { t.apply f with started := true }) hindex rfl hid harguments hsnoc
        (List.nil_append _).symm hunsent
      refine ⟨_ :: es, t', ?_, (Lets.start index none _ name (.object [])).trans hlets, hassembled,
        hopen.trans hk⟩
      rw [andThen_ok_iff]
      exact ⟨_, _, es, hstart, hdelta, rfl⟩

end steps

end ToolCallState

end Solarcido.Crates
