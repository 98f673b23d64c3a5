import Solarcido.Crates.Responses
import Solarcido.Crates.Splits

namespace Solarcido.Crates

open RustText StreamState

/-- Two ways to get a reply give the same one, or both give none. -/
inductive Agree : Except Failure Reply → Except Failure Reply → Prop
  | ok (reply : Reply) : Agree (.ok reply) (.ok reply)
  | error (failure failure' : Failure) : Agree (.error failure) (.error failure')

theorem agree_ok_iff (reply reply' : Reply) : Agree (.ok reply) (.ok reply') ↔ reply = reply' := by
  constructor
  · rintro ⟨⟩
    rfl
  · rintro rfl
    exact Agree.ok reply

/-- Where a stream makes of a completion what is made of it as a whole: no call is without
arguments or has an id that comes behind its name, and a document does not say `null` for calls. -/
structure Alike (c : Completion) (body : Value) (chunks : List ChatCompletionChunk) : Prop where
  listed : toolCallsOf body ≠ some .null
  room : c.toolCalls.length < 2 ^ 32
  arguments : ∀ call ∈ c.toolCalls, trim call.arguments ≠ []
  ids : ∀ (k : U32) call, c.toolCalls[k.val]? = some call →
    idInTime (fragmentsOf k chunks) = true ∨ call.id = fallbackId k

/-- The tool use gathered for a call. -/
def streamedUse (call : Call) (k : U32) (chunks : List ChatCompletionChunk) : StreamingToolUse :=
  ⟨if idInTime (fragmentsOf k chunks) then call.id else fallbackId k, call.name, call.arguments⟩

section streamed

variable {c : Completion} {chunks : List ChatCompletionChunk}

theorem mem_fragmentsOf {k : U32} {f : DeltaToolCall} :
    f ∈ fragmentsOf k chunks ↔ (∃ d ∈ deltasOf chunks, f ∈ d.toolCalls) ∧ f.index = k := by
  simp [fragmentsOf]

theorem Splits.fits (h : Splits c chunks) (hroom : c.toolCalls.length < 2 ^ 32) :
    ∀ p ∈ chunks.flatMap chunkPieces, p.Fits := by
  apply pieces_fit
  intro d hd f hf
  have hindex := h.indices d hd f hf
  omega

theorem Splits.usage_eq (h : Splits c chunks) :
    (((chunks.flatMap chunkPieces).filterMap Piece.usage).getLast?.map usageOf).getD .zero =
      c.reported := by
  rw [pieces_usage, Completion.reported]
  cases hlast : (chunks.filterMap ChatCompletionChunk.usage).getLast? with
  | some u =>
    obtain ⟨chunk, hchunk, hu⟩ := List.mem_filterMap.mp (List.mem_of_getLast? hlast)
    rw [h.usages chunk hchunk u hu]
    rfl
  | none =>
    have hnone : c.usage = none := by
      by_contra hsome
      obtain ⟨chunk, hchunk, hu⟩ := h.metered (Option.isSome_iff_ne_none.mpr hsome)
      obtain ⟨u, hu⟩ := Option.isSome_iff_exists.mp hu
      have hmem := List.mem_filterMap.mpr ⟨chunk, hchunk, hu⟩
      rw [List.getLast?_eq_none_iff.mp hlast] at hmem
      cases hmem
    rw [hnone]
    rfl

theorem fragmentsOf_beyond (h : Splits c chunks) {k : U32} (hk : c.toolCalls.length ≤ k.val) :
    fragmentsOf k chunks = [] := by
  apply List.eq_nil_iff_forall_not_mem.mpr
  intro f hf
  obtain ⟨⟨d, hd, hfd⟩, rfl⟩ := mem_fragmentsOf.mp hf
  have := h.indices d hd f hfd
  omega

/-- The tool uses gathered are those of the calls, in their order. -/
theorem Splits.values_eq (h : Splits c chunks) (hroom : c.toolCalls.length < 2 ^ 32)
    {uses : SortedMap U32 StreamingToolUse} (hzero : uses.get 0 = none)
    (huses : ∀ k index : U32, index.val = k.val + 1 →
      uses.get index = gatheredUse k (fragmentsOf k chunks)) :
    uses.values = List.ofFn fun i : Fin c.toolCalls.length =>
      streamedUse c.toolCalls[i] ⟨i.val, by omega⟩ chunks := by
  apply uses.values_eq_ofFn fun i => ⟨i.val + 1, by omega⟩
  · intro i j hij
    exact Fin.mk_lt_mk.mpr (Nat.succ_lt_succ hij)
  · intro index use
    obtain hindex | ⟨k, hk⟩ : index = 0 ∨ ∃ k : U32, index.val = k.val + 1 := by
      by_cases h0 : index.val = 0
      · exact Or.inl (Fin.ext h0)
      · exact Or.inr ⟨⟨index.val - 1, by omega⟩, by simp only; omega⟩
    · rw [hindex, hzero]
      constructor
      · intro hnone
        cases hnone
      · rintro ⟨i, hi, -⟩
        have := congrArg Fin.val hi
        simp at this
    · rw [huses k index hk]
      by_cases hlt : k.val < c.toolCalls.length
      · obtain ⟨k', hk', hcall⟩ := h.calls k.val c.toolCalls[k.val] (List.getElem?_eq_getElem hlt)
        obtain rfl : k' = k := Fin.ext hk'
        rw [hcall.gatheredUse_eq]
        constructor
        · intro huse
          exact ⟨⟨k'.val, hlt⟩, Fin.ext hk.symm, Option.some.inj huse⟩
        · rintro ⟨i, hi, rfl⟩
          obtain rfl : i = ⟨k'.val, hlt⟩ := by
            have := congrArg Fin.val hi
            apply Fin.ext
            simp only at this ⊢
            omega
          rfl
      · rw [fragmentsOf_beyond h (not_lt.mp hlt)]
        constructor
        · intro hnone
          cases hnone
        · rintro ⟨i, hi, -⟩
          have := congrArg Fin.val hi
          simp only at this
          omega

variable (serde : SerdeJson) (model : RustString) (usage : Usage) {payloads : List RustString}

/-- What `run_turn_streaming` makes of a completion that comes in chunks. -/
theorem streamedReply_eq (h : Splits c chunks) (hroom : c.toolCalls.length < 2 ^ 32)
    (hpayloads : List.Forall₂ (IsPayload serde) chunks payloads) :
    streamedReply serde model usage payloads =
      ((usage.add c.reported).map fun usage =>
        (⟨c.content.getD [], List.ofFn fun i : Fin c.toolCalls.length =>
          (streamedUse c.toolCalls[i] ⟨i.val, by omega⟩ chunks).finalize serde, usage⟩ : Reply)).mapError
            Failure.panic := by
  obtain ⟨es, last, hstream, hgathering⟩ := stream_gathering model (h.fits hroom)
  obtain ⟨uses, hzero, huses, hreply⟩ := hgathering.reply serde usage
  simp only [fragmentsAt_pieces] at huses
  rw [streamedReply, streamedEvents, decode_payloads hpayloads model]
  simp only [hstream]
  rw [hreply, hgathering.usage, h.usage_eq, pieces_text, h.content, h.values_eq hroom hzero huses,
    List.map_ofFn]
  rfl

/-- A stream with more calls than there are blocks panics. -/
theorem streamedReply_full (h : Splits c chunks) (hroom : ¬ c.toolCalls.length < 2 ^ 32)
    (hpayloads : List.Forall₂ (IsPayload serde) chunks payloads) :
    ∃ failure, streamedReply serde model usage payloads = .error failure := by
  rw [streamedReply, streamedEvents, decode_payloads hpayloads model]
  simp only
  cases hstream : stream chunks (new model) with
  | error p => exact ⟨_, rfl⟩
  | ok r =>
    -- the last of the calls has a fragment without a block
    obtain ⟨k, hk, hcall⟩ := h.calls (2 ^ 32 - 1) _ (List.getElem?_eq_getElem (by omega))
    obtain ⟨f, hf, -⟩ := hcall.named
    obtain ⟨⟨d, hd, hfd⟩, rfl⟩ := mem_fragmentsOf.mp hf
    have hmem : f ∈ (chunks.flatMap chunkPieces).filterMap Piece.fragment := by
      rw [pieces_fragments]
      exact List.mem_flatMap.mpr ⟨d, hd, hfd⟩
    obtain ⟨p, hp, hfp⟩ := List.mem_filterMap.mp hmem
    have := stream_fits hstream p hp f hfp
    omega

end streamed

section agreement

variable (serde : SerdeJson)

/-- The arguments of a call are parsed in the same way where there are any. -/
theorem parse_eq_iff (arguments : RustString) :
    parseStreamingToolInput serde arguments = Client.parseToolArguments serde arguments ↔
      trim arguments ≠ [] := by
  rw [parseStreamingToolInput, Client.parseToolArguments]
  split
  · next hblank =>
    rw [serde.fromStr_blank arguments hblank]
    simp [hblank]
  · next hsome => simp [hsome]

theorem finalize_eq_iff (call : Call) (k : U32) (chunks : List ChatCompletionChunk) :
    (streamedUse call k chunks).finalize serde = receivedToolUse serde call ↔
      trim call.arguments ≠ [] ∧
        (idInTime (fragmentsOf k chunks) = true ∨ call.id = fallbackId k) := by
  rw [streamedUse, StreamingToolUse.finalize, receivedToolUse, ToolUse.mk.injEq]
  simp only [parse_eq_iff, true_and]
  split
  · next htime => simp [htime]
  · next hlate =>
    simp only [hlate, Bool.false_eq_true, false_or, eq_comm (a := call.id)]
    exact and_comm

theorem toolUses_eq_iff (c : Completion) (chunks : List ChatCompletionChunk)
    (hroom : c.toolCalls.length < 2 ^ 32) :
    (List.ofFn fun i : Fin c.toolCalls.length =>
        (streamedUse c.toolCalls[i] ⟨i.val, by omega⟩ chunks).finalize serde) =
      c.toolCalls.map (receivedToolUse serde) ↔
    (∀ call ∈ c.toolCalls, trim call.arguments ≠ []) ∧
      ∀ (k : U32) call, c.toolCalls[k.val]? = some call →
        idInTime (fragmentsOf k chunks) = true ∨ call.id = fallbackId k := by
  rw [← List.ofFn_getElem_eq_map, List.ofFn_injective.eq_iff, funext_iff]
  simp only [Fin.getElem_fin, finalize_eq_iff]
  constructor
  · intro h
    refine ⟨?_, ?_⟩
    · intro call hcall
      obtain ⟨i, hi, rfl⟩ := List.getElem_of_mem hcall
      exact (h ⟨i, hi⟩).1
    · intro k call hcall
      obtain ⟨hk, rfl⟩ := List.getElem?_eq_some_iff.mp hcall
      exact (h ⟨k.val, hk⟩).2
  · rintro ⟨harguments, hids⟩ i
    exact ⟨harguments _ (List.getElem_mem i.isLt),
      hids ⟨i.val, by omega⟩ _ (List.getElem?_eq_getElem i.isLt)⟩

/-- A stream and a whole give the same reply just when both panic, or the completion is such that
they are alike. -/
theorem replies_agree_iff (model : RustString) (usage : Usage) (requestId : Option RustString)
    (c : Completion) (body : Value) (text : RustString) (chunks : List ChatCompletionChunk)
    (payloads : List RustString) (hbody : IsBody c body) (htext : serde.fromStr text = some body)
    (hsplits : Splits c chunks) (hpayloads : List.Forall₂ (IsPayload serde) chunks payloads) :
    Agree (receivedReply serde model usage requestId text)
        (streamedReply serde model usage payloads) ↔
      (∃ panic, usage.add c.reported = .error panic) ∨ Alike c body chunks := by
  by_cases hlisted : toolCallsOf body = some .null
  · -- the whole is refused, and the stream is not
    obtain ⟨failure, hreceived⟩ := receivedReply_null serde model usage requestId hbody htext hlisted
    have hnil : c.toolCalls = [] := by
      obtain ⟨choice, message, hchoices, hmessage, hread, -⟩ := hbody.choices
      rw [toolCallsOf_eq hchoices hmessage] at hlisted
      obtain ⟨hnil, -⟩ | ⟨items, hitems, -⟩ := hread.toolCalls
      · exact hnil
      · rw [hlisted] at hitems
        cases hitems
    rw [hreceived, streamedReply_eq serde model usage hsplits (by simp [hnil]) hpayloads]
    cases hadd : usage.add c.reported with
    | error p => exact ⟨fun _ => Or.inl ⟨p, rfl⟩, fun _ => .error _ _⟩
    | ok total =>
      constructor
      · intro h
        cases h
      · rintro (⟨p, hp⟩ | halike)
        · cases hp
        · exact absurd hlisted halike.listed
  · rw [receivedReply_eq serde model usage requestId hbody htext hlisted]
    cases hadd : usage.add c.reported with
    | error p =>
      refine ⟨fun _ => Or.inl ⟨p, rfl⟩, fun _ => ?_⟩
      by_cases hroom : c.toolCalls.length < 2 ^ 32
      · rw [streamedReply_eq serde model usage hsplits hroom hpayloads, hadd]
        exact .error _ _
      · obtain ⟨failure, hstreamed⟩ := streamedReply_full serde model usage hsplits hroom hpayloads
        rw [hstreamed]
        exact .error _ _
    | ok total =>
      have hok : (∃ panic, Except.ok total = (Except.error panic : Except Panic Usage)) ↔ False := by
        simp
      rw [hok, false_or]
      by_cases hroom : c.toolCalls.length < 2 ^ 32
      · rw [streamedReply_eq serde model usage hsplits hroom hpayloads, hadd]
        change Agree (.ok _) (.ok _) ↔ _
        rw [agree_ok_iff, Reply.mk.injEq, eq_comm (a := c.toolCalls.map _), toolUses_eq_iff serde c chunks hroom]
        constructor
        · rintro ⟨-, ⟨harguments, hids⟩, -⟩
          exact ⟨hlisted, hroom, harguments, hids⟩
        · intro h
          exact ⟨rfl, ⟨h.arguments, h.ids⟩, rfl⟩
      · obtain ⟨failure, hstreamed⟩ := streamedReply_full serde model usage hsplits hroom hpayloads
        rw [hstreamed]
        constructor
        · intro h
          cases h
        · intro h
          exact absurd h.room hroom

end agreement

section sample

/-- A reader of some documents only. -/
def SerdeJson.ofDocuments (documents : List (List (RustString × Value))) : SerdeJson where
  fromStr text := (documents.map Value.object).find? fun v => v.display (fun _ => []) = text
  fromStr_blank text hblank := by
    rw [List.find?_eq_none]
    intro v hv heq
    obtain ⟨members, -, rfl⟩ := List.mem_map.mp hv
    -- the text of an object does not start with white space
    have hstart : trimStart text = text := by
      rw [← of_decide_eq_true heq, Value.display, List.cons_append, trimStart, List.dropWhile_cons,
        if_neg (by decide)]
    have hall := List.rdropWhile_eq_nil_iff.mp ((congrArg trimEnd hstart).symm.trans hblank)
    have hbrace := hall '\x7b' (by rw [← of_decide_eq_true heq]; exact List.mem_cons_self)
    revert hbrace
    decide

/-- The text of an object whose numbers are integers. -/
def textOf (members : List (RustString × Value)) : RustString :=
  (Value.object members).display fun _ => []

theorem ofDocuments_first (members : List (RustString × Value))
    (rest : List (List (RustString × Value))) :
    (SerdeJson.ofDocuments (members :: rest)).fromStr (textOf members) = some (.object members) := by
  simp [SerdeJson.ofDocuments, textOf]

theorem ofDocuments_rest {members : List (RustString × Value)} {text : RustString}
    (h : textOf members ≠ text) (rest : List (List (RustString × Value))) :
    (SerdeJson.ofDocuments (members :: rest)).fromStr text =
      (SerdeJson.ofDocuments rest).fromStr text := by
  rw [textOf] at h
  simp [SerdeJson.ofDocuments, h]

def sampleCompletion (arguments : RustString) : Completion :=
  ⟨none, [⟨str "c1", str "list_dir", arguments⟩], some (str "tool_calls"), none⟩

def sampleBody (arguments : RustString) : List (RustString × Value) := [
  (str "choices", .array [.object [
    (str "finish_reason", .string (str "tool_calls")),
    (str "message", .object [
      (str "content", .null),
      (str "role", .string (str "assistant")),
      (str "tool_calls", .array [.object [
        (str "function", .object [
          (str "arguments", .string arguments),
          (str "name", .string (str "list_dir"))]),
        (str "id", .string (str "c1"))]])])]]),
  (str "id", .string (str "r")),
  (str "model", .string (str "solar"))]

def sampleChunk (arguments : RustString) : ChatCompletionChunk :=
  ⟨str "r", none, [⟨⟨none, [⟨0, some (str "c1"), ⟨some (str "list_dir"), some arguments⟩⟩]⟩,
    some (str "tool_calls")⟩], none⟩

def sampleChunkDocument (arguments : RustString) : List (RustString × Value) := [
  (str "choices", .array [.object [
    (str "delta", .object [
      (str "tool_calls", .array [.object [
        (str "function", .object [
          (str "arguments", .string arguments),
          (str "name", .string (str "list_dir"))]),
        (str "id", .string (str "c1")),
        (str "index", .number (.int 0))]])]),
    (str "finish_reason", .string (str "tool_calls"))]]),
  (str "id", .string (str "r"))]

def sampleSerde (arguments : RustString) : SerdeJson :=
  .ofDocuments [sampleBody arguments, sampleChunkDocument arguments, []]

theorem sampleBody_isBody (arguments : RustString) :
    IsBody (sampleCompletion arguments) (.object (sampleBody arguments)) where
  error := rfl
  id := ⟨_, rfl⟩
  model := ⟨_, rfl⟩
  choices := ⟨_, _, rfl, rfl, ⟨⟨_, rfl⟩, Or.inr ⟨rfl, rfl⟩, Or.inr ⟨_, rfl, .cons ⟨rfl, _, rfl, rfl, rfl⟩ .nil⟩⟩,
    Or.inl rfl⟩
  usage := Or.inl ⟨rfl, Or.inl rfl⟩

theorem sampleChunk_isChunk (arguments : RustString) :
    IsChunk (sampleChunk arguments) (.object (sampleChunkDocument arguments)) where
  error := rfl
  id := rfl
  model := Or.inl rfl
  choices := Or.inr ⟨_, rfl, .cons ⟨⟨_, rfl, ⟨_, rfl⟩, Or.inl rfl, Or.inr ⟨_, rfl,
    .cons ⟨rfl, Or.inl rfl, Or.inr ⟨_, rfl, Or.inl rfl, Or.inl rfl⟩⟩ .nil⟩⟩, Or.inl rfl⟩ .nil⟩
  usage := Or.inl ⟨rfl, Or.inl rfl⟩

theorem sample_splits (arguments : RustString) :
    Splits (sampleCompletion arguments) [sampleChunk arguments] where
  content := rfl
  indices := by simp [deltasOf, sampleChunk, sampleCompletion]
  calls := by
    intro i call hcall
    obtain ⟨hi, rfl⟩ := List.getElem?_eq_some_iff.mp hcall
    obtain rfl : i = 0 := Nat.lt_one_iff.mp hi
    have hfragments : fragmentsOf 0 [sampleChunk arguments] =
        [⟨0, some (str "c1"), ⟨some (str "list_dir"), some arguments⟩⟩] := rfl
    refine ⟨0, rfl, ?_⟩
    rw [hfragments]
    exact ⟨by simp [sampleCompletion], by simp, by simp [sampleCompletion], by simp,
      List.append_nil arguments⟩
  finishReason := rfl
  usages := by simp [sampleChunk]
  metered := by simp [sampleCompletion]

theorem sample_texts {arguments : RustString}
    (hdistinct : textOf (sampleBody arguments) ≠ textOf (sampleChunkDocument arguments)) :
    (sampleSerde arguments).fromStr (textOf (sampleBody arguments)) =
        some (.object (sampleBody arguments)) ∧
      List.Forall₂ (IsPayload (sampleSerde arguments)) [sampleChunk arguments]
        [textOf (sampleChunkDocument arguments)] := by
  refine ⟨?_, .cons ⟨_, ?_, sampleChunk_isChunk arguments⟩ .nil⟩
  · exact ofDocuments_first _ _
  · exact (ofDocuments_rest hdistinct _).trans (ofDocuments_first _ _)

theorem list_dir_alike : Alike (sampleCompletion (str "\x7b\x7d"))
    (.object (sampleBody (str "\x7b\x7d"))) [sampleChunk (str "\x7b\x7d")] where
  listed hnull := by cases hnull
  room := by simp [sampleCompletion]
  arguments := by decide
  ids k call hcall := by
    obtain ⟨hk, -⟩ := List.getElem?_eq_some_iff.mp hcall
    obtain rfl : k = 0 := Fin.ext (Nat.lt_one_iff.mp hk)
    exact Or.inl rfl

theorem list_dir_replies_agree :
    Agree (receivedReply (sampleSerde (str "\x7b\x7d")) (str "solar") .zero none
        (textOf (sampleBody (str "\x7b\x7d"))))
      (streamedReply (sampleSerde (str "\x7b\x7d")) (str "solar") .zero
        [textOf (sampleChunkDocument (str "\x7b\x7d"))]) :=
  have hdistinct : textOf (sampleBody (str "\x7b\x7d")) ≠
      textOf (sampleChunkDocument (str "\x7b\x7d")) := by
    decide +kernel
  have htexts := sample_texts hdistinct
  (replies_agree_iff (sampleSerde (str "\x7b\x7d")) (str "solar") .zero none
    (sampleCompletion (str "\x7b\x7d")) (.object (sampleBody (str "\x7b\x7d")))
    (textOf (sampleBody (str "\x7b\x7d"))) [sampleChunk (str "\x7b\x7d")]
    [textOf (sampleChunkDocument (str "\x7b\x7d"))] (sampleBody_isBody _) htexts.1
    (sample_splits _) htexts.2).mpr (Or.inr list_dir_alike)

/-- Arguments that are empty become an object with nothing in it, or with an empty text. -/
theorem empty_arguments_differ :
    IsBody (sampleCompletion []) (.object (sampleBody [])) ∧
      (sampleSerde []).fromStr (textOf (sampleBody [])) = some (.object (sampleBody [])) ∧
      Splits (sampleCompletion []) [sampleChunk []] ∧
      List.Forall₂ (IsPayload (sampleSerde [])) [sampleChunk []] [textOf (sampleChunkDocument [])] ∧
      ¬ Agree (receivedReply (sampleSerde []) (str "solar") .zero none (textOf (sampleBody [])))
        (streamedReply (sampleSerde []) (str "solar") .zero [textOf (sampleChunkDocument [])]) := by
  have hdistinct : textOf (sampleBody []) ≠ textOf (sampleChunkDocument []) := by
    decide +kernel
  obtain ⟨htext, hpayloads⟩ := sample_texts hdistinct
  refine ⟨sampleBody_isBody [], htext, sample_splits [], hpayloads, ?_⟩
  have hnull : toolCallsOf (.object (sampleBody [])) ≠ some .null := by
    intro hnull
    cases hnull
  rw [receivedReply_eq _ _ _ none (sampleBody_isBody []) htext hnull,
    streamedReply_eq _ _ _ (sample_splits []) (by decide) hpayloads]
  change ¬ Agree (.ok _) (.ok _)
  rw [agree_ok_iff, Reply.mk.injEq, eq_comm (a := (sampleCompletion []).toolCalls.map _),
    toolUses_eq_iff _ _ _ (by decide)]
  rintro ⟨-, ⟨harguments, -⟩, -⟩
  exact harguments _ List.mem_cons_self rfl

end sample

end Solarcido.Crates
