import Solarcido.Crates.Completions
import Solarcido.Crates.Gathering

namespace Solarcido.Crates

open RustText Value StreamState

def deltasOf (chunks : List ChatCompletionChunk) : List ChunkDelta :=
  chunks.flatMap fun chunk => chunk.choices.map ChunkChoice.delta

/-- The fragments of the tool call of an index, in their order. -/
def fragmentsOf (k : U32) (chunks : List ChatCompletionChunk) : List DeltaToolCall :=
  ((deltasOf chunks).flatMap ChunkDelta.toolCalls).filter fun f => f.index = k

/-- Fragments of a call: its id and its name come whole, its arguments in parts. -/
structure SplitsCall (call : Call) (fs : List DeltaToolCall) : Prop where
  ids : ∀ f ∈ fs, ∀ id, f.id = some id → id = call.id
  identified : ∃ f ∈ fs, f.id.isSome
  names : ∀ f ∈ fs, ∀ name, f.function.name = some name → name = call.name
  named : ∃ f ∈ fs, f.function.name.isSome
  arguments : argumentsOf fs = call.arguments

/-- Chunks that bring a completion in parts, cut anywhere and mixed in any way. -/
structure Splits (c : Completion) (chunks : List ChatCompletionChunk) : Prop where
  content : ((deltasOf chunks).flatMap fun d => d.content.getD []) = c.content.getD []
  indices : ∀ d ∈ deltasOf chunks, ∀ f ∈ d.toolCalls, f.index.val < c.toolCalls.length
  calls : ∀ i call, c.toolCalls[i]? = some call →
    ∃ k : U32, k.val = i ∧ SplitsCall call (fragmentsOf k chunks)
  finishReason : (chunks.flatMap fun chunk => chunk.choices.filterMap ChunkChoice.finishReason) =
    c.finishReason.toList
  usages : ∀ chunk ∈ chunks, ∀ u, chunk.usage = some u → c.usage = some u
  metered : c.usage.isSome → ∃ chunk ∈ chunks, chunk.usage.isSome

/-- An id comes no later than the first name. -/
def idInTime : List DeltaToolCall → Bool
  | [] => false
  | f :: fs => f.id.isSome || (f.function.name.isNone && idInTime fs)

section documents

structure IsFragment (f : DeltaToolCall) (item : Value) : Prop where
  index : item.get (str "index") = some (.number (.int f.index.val))
  id : Nullable (item.get (str "id")) (f.id.map .string)
  function : (f.function = ⟨none, none⟩ ∧ item.get (str "function") = none) ∨
    ∃ members, item.get (str "function") = some (.object members) ∧
      Nullable ((object members).get (str "name")) (f.function.name.map .string) ∧
      Nullable ((object members).get (str "arguments")) (f.function.arguments.map .string)

structure IsDelta (d : ChunkDelta) (v : Value) : Prop where
  members : ∃ members, v = .object members
  content : Nullable (v.get (str "content")) (d.content.map .string)
  toolCalls : (d.toolCalls = [] ∧ Nullable (v.get (str "tool_calls")) none) ∨
    ∃ items, v.get (str "tool_calls") = some (.array items) ∧
      List.Forall₂ IsFragment d.toolCalls items

structure IsChoice (choice : ChunkChoice) (v : Value) : Prop where
  delta : ∃ delta, v.get (str "delta") = some delta ∧ IsDelta choice.delta delta
  finishReason : Nullable (v.get (str "finish_reason")) (choice.finishReason.map .string)

/-- A document that gives a chunk. -/
structure IsChunk (chunk : ChatCompletionChunk) (v : Value) : Prop where
  error : v.get (str "error") = none
  id : v.get (str "id") = some (.string chunk.id)
  model : Nullable (v.get (str "model")) (chunk.model.map .string)
  choices : (chunk.choices = [] ∧ v.get (str "choices") = none) ∨
    ∃ items, v.get (str "choices") = some (.array items) ∧ List.Forall₂ IsChoice chunk.choices items
  usage : HasUsage chunk.usage v

theorem IsFragment.deserialize {f : DeltaToolCall} {item : Value} (h : IsFragment f item) :
    DeltaToolCall.deserialize item = some f := by
  have hindex : defaulted u32 0 (str "index") item = some f.index := by
    rw [defaulted, h.index]
    exact u32_int f.index
  have hfunction : defaulted DeltaFunction.deserialize ⟨none, none⟩ (str "function") item =
      some f.function := by
    rw [defaulted]
    obtain ⟨hnone, hfield⟩ | ⟨members, hfield, hname, harguments⟩ := h.function
    · rw [hfield, hnone]
    · rw [hfield]
      simp [DeltaFunction.deserialize, asStruct, optional_of_nullable hname,
        optional_of_nullable harguments]
  rw [DeltaToolCall.deserialize, asStruct_of_get h.index]
  simp [hindex, optional_of_nullable h.id, hfunction]

theorem IsDelta.deserialize {d : ChunkDelta} {v : Value} (h : IsDelta d v) :
    ChunkDelta.deserialize v = some d := by
  have hcalls : defaulted (nullAsEmptyVec DeltaToolCall.deserialize) [] (str "tool_calls") v =
      some d.toolCalls := by
    rw [defaulted]
    obtain ⟨hnil, hfield | ⟨-, hfield⟩⟩ | ⟨items, hfield, hitems⟩ := h.toolCalls
    · rw [hfield, hnil]
    · rw [hfield, hnil]
      rfl
    · have hread : items.mapM DeltaToolCall.deserialize = some (d.toolCalls.map fun f => f) :=
        mapM_read (fun _ _ hitem => hitem.deserialize) hitems
      rw [hfield]
      simp [nullAsEmptyVec, nullable, vec, asArray, hread]
  obtain ⟨members, rfl⟩ := h.members
  simp [ChunkDelta.deserialize, asStruct, optional_of_nullable h.content, hcalls]

theorem IsChoice.deserialize {choice : ChunkChoice} {v : Value} (h : IsChoice choice v) :
    ChunkChoice.deserialize v = some choice := by
  obtain ⟨delta, hfield, hdelta⟩ := h.delta
  rw [ChunkChoice.deserialize, asStruct_of_get hfield]
  simp [required_of_get hfield, hdelta.deserialize, optional_of_nullable h.finishReason]

theorem IsChunk.deserialize {chunk : ChatCompletionChunk} {v : Value} (h : IsChunk chunk v) :
    ChatCompletionChunk.deserialize v = some chunk := by
  have hchoices : defaulted (vec ChunkChoice.deserialize) [] (str "choices") v =
      some chunk.choices := by
    rw [defaulted]
    obtain ⟨hnil, hfield⟩ | ⟨items, hfield, hitems⟩ := h.choices
    · rw [hfield, hnil]
    · have hread : items.mapM ChunkChoice.deserialize = some (chunk.choices.map fun c => c) :=
        mapM_read (fun _ _ hitem => hitem.deserialize) hitems
      rw [hfield]
      simp [vec, asArray, hread]
  rw [ChatCompletionChunk.deserialize, asStruct_of_get h.id]
  simp [required_of_get h.id, asStr, optional_of_nullable h.model, hchoices, h.usage.deserialize]

/-- The text of a document that gives a chunk. -/
def IsPayload (serde : SerdeJson) (chunk : ChatCompletionChunk) (payload : RustString) : Prop :=
  ∃ v, serde.fromStr payload = some v ∧ IsChunk chunk v

theorem IsPayload.decode {serde : SerdeJson} {chunk : ChatCompletionChunk} {payload : RustString}
    (h : IsPayload serde chunk payload) (model : RustString) :
    Sse.decodePayload serde model payload = .ok chunk := by
  obtain ⟨v, htext, hchunk⟩ := h
  rw [Sse.decodePayload, htext]
  simp only [ApiError.embedded_none _ none _ hchunk.error, hchunk.deserialize]

theorem decode_payloads {serde : SerdeJson} {chunks : List ChatCompletionChunk}
    {payloads : List RustString} (h : List.Forall₂ (IsPayload serde) chunks payloads)
    (model : RustString) : payloads.mapM (Sse.decodePayload serde model) = .ok chunks := by
  induction h with
  | nil => rfl
  | cons hpayload rest ih =>
    rw [List.mapM_cons, hpayload.decode, ih]
    rfl

end documents

section pieces

variable (chunks : List ChatCompletionChunk)

theorem choices_text (choices : List ChunkChoice) :
    (choices.flatMap choicePieces).flatMap Piece.text =
      (choices.map ChunkChoice.delta).flatMap fun d => d.content.getD [] := by
  induction choices with
  | nil => rfl
  | cons choice choices ih =>
    have hcalls (calls : List DeltaToolCall) :
        (calls.map (Piece.toolCall choice.finishReason)).flatMap Piece.text = [] := by
      rw [List.flatMap_map]
      exact List.flatMap_eq_nil_iff.mpr fun _ _ => rfl
    rw [List.flatMap_cons, List.flatMap_append, ih, choicePieces, List.flatMap_cons,
      List.flatMap_append, hcalls, List.map_cons, List.flatMap_cons]
    simp [Piece.text]

theorem choices_fragments (choices : List ChunkChoice) :
    (choices.flatMap choicePieces).filterMap Piece.fragment =
      (choices.map ChunkChoice.delta).flatMap ChunkDelta.toolCalls := by
  induction choices with
  | nil => rfl
  | cons choice choices ih =>
    have hcalls (calls : List DeltaToolCall) :
        (calls.map (Piece.toolCall choice.finishReason)).filterMap Piece.fragment = calls := by
      rw [List.filterMap_map]
      exact List.filterMap_some
    rw [List.flatMap_cons, List.filterMap_append, ih, choicePieces,
      List.filterMap_cons_none (f := Piece.fragment) rfl, List.filterMap_append, hcalls,
      List.filterMap_cons_none (f := Piece.fragment) rfl, List.filterMap_nil, List.append_nil,
      List.map_cons, List.flatMap_cons]

theorem choices_usage (choices : List ChunkChoice) :
    (choices.flatMap choicePieces).filterMap Piece.usage = [] := by
  rw [List.filterMap_eq_nil_iff]
  intro p hp
  obtain ⟨choice, -, hp⟩ := List.mem_flatMap.mp hp
  obtain rfl | hp := List.mem_cons.mp hp
  · rfl
  · obtain hp | hp := List.mem_append.mp hp
    · obtain ⟨tc, -, rfl⟩ := List.mem_map.mp hp
      rfl
    · obtain rfl := List.mem_singleton.mp hp
      rfl

theorem pieces_text : (chunks.flatMap chunkPieces).flatMap Piece.text =
    (deltasOf chunks).flatMap fun d => d.content.getD [] := by
  induction chunks with
  | nil => rfl
  | cons chunk chunks ih =>
    rw [List.flatMap_cons, List.flatMap_append, ih, chunkPieces, List.flatMap_cons, choices_text,
      deltasOf, deltasOf, List.flatMap_cons, List.flatMap_append]
    rfl

theorem pieces_fragments : (chunks.flatMap chunkPieces).filterMap Piece.fragment =
    (deltasOf chunks).flatMap ChunkDelta.toolCalls := by
  induction chunks with
  | nil => rfl
  | cons chunk chunks ih =>
    rw [List.flatMap_cons, List.filterMap_append, ih, chunkPieces,
      List.filterMap_cons_none (f := Piece.fragment) rfl, choices_fragments, deltasOf, deltasOf,
      List.flatMap_cons, List.flatMap_append]

theorem pieces_fit (h : ∀ d ∈ deltasOf chunks, ∀ f ∈ d.toolCalls, f.index.val < 2 ^ 32 - 1) :
    ∀ p ∈ chunks.flatMap chunkPieces, p.Fits := by
  intro p hp f hf
  have hmem : f ∈ (chunks.flatMap chunkPieces).filterMap Piece.fragment :=
    List.mem_filterMap.mpr ⟨p, hp, hf⟩
  rw [pieces_fragments] at hmem
  obtain ⟨d, hd, hfd⟩ := List.mem_flatMap.mp hmem
  have hindex := h d hd f hfd
  omega

theorem fragmentsAt_pieces (k : U32) :
    fragmentsAt k (chunks.flatMap chunkPieces) = fragmentsOf k chunks := by
  rw [fragmentsAt, pieces_fragments, fragmentsOf]

theorem pieces_usage : (chunks.flatMap chunkPieces).filterMap Piece.usage =
    chunks.filterMap ChatCompletionChunk.usage := by
  induction chunks with
  | nil => rfl
  | cons chunk chunks ih =>
    rw [List.flatMap_cons, List.filterMap_append, ih, chunkPieces, List.filterMap_cons,
      choices_usage, List.filterMap_cons]
    have hstart : (Piece.start chunk).usage = chunk.usage := rfl
    rw [hstart]
    cases chunk.usage <;> rfl

end pieces

section calls

variable {call : Call} {fs : List DeltaToolCall}

/-- The id a block is started with is the fallback where the id comes too late. -/
theorem naming_eq (k : U32) (hids : ∀ f ∈ fs, ∀ id, f.id = some id → id = call.id)
    (hnames : ∀ f ∈ fs, ∀ name, f.function.name = some name → name = call.name)
    (hnamed : ∃ f ∈ fs, f.function.name.isSome) (id : Option RustString)
    (hid : ∀ i, id = some i → i = call.id) : naming k id fs =
      some (if id.isSome || idInTime fs then call.id else fallbackId k, call.name) := by
  induction fs generalizing id with
  | nil =>
    obtain ⟨f, hf, -⟩ := hnamed
    cases hf
  | cons f fs ih =>
    have hlast (i : RustString) (hi : f.id.or id = some i) : i = call.id := by
      obtain hi | ⟨-, hi⟩ := Option.or_eq_some_iff.mp hi
      · exact hids f List.mem_cons_self i hi
      · exact hid i hi
    have hknown : (f.id.or id).isSome = (id.isSome || f.id.isSome) := by
      cases f.id <;> cases id <;> rfl
    rw [naming, idInTime]
    cases hname : f.function.name with
    | some name =>
      obtain rfl := hnames f List.mem_cons_self name hname
      simp only [Option.isNone_some, Bool.false_and, Bool.or_false, ← hknown]
      cases hor : f.id.or id with
      | none => rfl
      | some i =>
        obtain rfl := hlast i hor
        rfl
    | none =>
      simp only [Option.isNone_none, Bool.true_and, ← Bool.or_assoc, ← hknown]
      refine ih (fun g hg => hids g (List.mem_cons_of_mem f hg))
        (fun g hg => hnames g (List.mem_cons_of_mem f hg)) ?_ (f.id.or id) hlast
      obtain ⟨g, hg, hsome⟩ := hnamed
      obtain rfl | hg := List.mem_cons.mp hg
      · rw [hname] at hsome
        cases hsome
      · exact ⟨g, hg, hsome⟩

/-- The tool use gathered from fragments of a call. -/
theorem SplitsCall.gatheredUse_eq (h : SplitsCall call fs) (k : U32) : gatheredUse k fs =
    some ⟨if idInTime fs then call.id else fallbackId k, call.name, call.arguments⟩ := by
  rw [gatheredUse, naming_eq k h.ids h.names h.named none (fun _ hi => by cases hi), h.arguments]
  rfl

end calls

end Solarcido.Crates
