import Solarcido.Api.Chat
import Solarcido.Lib.SparseArray

namespace Solarcido.Api

open Text SparseArray

section stream

/-- The function of a fragment of a tool call. -/
structure FunctionDelta where
  name : Option JsString
  arguments : Option JsString

structure ToolCallDelta where
  index : Option Nat
  id : Option JsString
  function : Option FunctionDelta

structure ChunkDelta where
  content : Option JsString
  tool_calls : Option (List ToolCallDelta)

structure ChunkChoice where
  delta : Option ChunkDelta

structure ChatCompletionChunk where
  choices : Option (List ChunkChoice)
  usage : Option ChatUsage

/-- `chunk.choices?.[0]?.delta`. -/
def ChatCompletionChunk.delta (chunk : ChatCompletionChunk) : Option ChunkDelta :=
  (chunk.choices.bind List.head?).bind ChunkChoice.delta

/-- A text that is there and not empty. -/
def truthy (text : Option JsString) : Option JsString := text.filter fun t => !t.isEmpty

/-- `tc.index ?? 0`. -/
def ToolCallDelta.key (tc : ToolCallDelta) : Nat := tc.index.getD 0

def emptyCall : ChatToolCall := ⟨[], [], []⟩

/-- A fragment taken in by the call it belongs to. -/
def takeFragment (existing : ChatToolCall) (tc : ToolCallDelta) : ChatToolCall where
  id := (truthy tc.id).getD existing.id
  name := existing.name ++ (truthy (tc.function.bind FunctionDelta.name)).getD []
  arguments := existing.arguments ++ (truthy (tc.function.bind FunctionDelta.arguments)).getD []

/-- The indices of array elements. -/
def arrayIndices : Nat := 2 ^ 32 - 1

/-- A fragment taken in. Behind the last index an assignment makes a property of the array, which
its `filter` does not see. -/
def takeToolCall (toolCalls : List (Option ChatToolCall)) (tc : ToolCallDelta) :
    List (Option ChatToolCall) :=
  if tc.key < arrayIndices then
    collect ToolCallDelta.key takeFragment emptyCall toolCalls tc
  else toolCalls

/-- What the loop over the chunks keeps. -/
structure Streamed where
  content : JsString
  toolCalls : List (Option ChatToolCall)
  usage : Option ChatUsage

/-- One chunk: the event it yields, and what is kept of it. -/
def ingestChunk (s : Streamed) (chunk : ChatCompletionChunk) : List ChatStreamEvent × Streamed :=
  let text := truthy (chunk.delta.bind ChunkDelta.content)
  let fragments := (chunk.delta.bind ChunkDelta.tool_calls).getD []
  (text.toList.map ChatStreamEvent.delta, {
    content := s.content ++ text.getD []
    toolCalls := fragments.foldl takeToolCall s.toolCalls
    usage := chunk.usage.or s.usage })

def ingestChunks (s : Streamed) : List ChatCompletionChunk → List ChatStreamEvent × Streamed
  | [] => ([], s)
  | chunk :: chunks =>
    let ingested := ingestChunk s chunk
    let rest := ingestChunks ingested.2 chunks
    (ingested.1 ++ rest.1, rest.2)

/-- The response behind the chunks. -/
def Streamed.response (s : Streamed) : ChatResponse :=
  let finalToolCalls := values s.toolCalls
  ⟨[some {
    role := .assistant
    content := if s.content.length > 0 then some s.content else none
    tool_calls := if finalToolCalls.length > 0 then some finalToolCalls else none
    tool_call_id := none }], s.usage⟩

/-- `chatStream`: what it yields for the chunks of the provider. -/
def chatStream (chunks : List ChatCompletionChunk) : List ChatStreamEvent :=
  let streamed := ingestChunks ⟨[], [], none⟩ chunks
  streamed.1 ++ [.done streamed.2.response]

end stream

section splits

def ToolCallDelta.nameText (tc : ToolCallDelta) : JsString :=
  (tc.function.bind FunctionDelta.name).getD []

def ToolCallDelta.argumentsText (tc : ToolCallDelta) : JsString :=
  (tc.function.bind FunctionDelta.arguments).getD []

def ChatCompletionChunk.text (chunk : ChatCompletionChunk) : JsString :=
  (chunk.delta.bind ChunkDelta.content).getD []

/-- The fragments of tool calls, in the order in which they come. -/
def fragmentsOf (chunks : List ChatCompletionChunk) : List ToolCallDelta :=
  chunks.flatMap fun chunk => (chunk.delta.bind ChunkDelta.tool_calls).getD []

/-- Fragments of a call: its id and its name are in the first one. -/
structure SplitsCall (call : ChatToolCall) (fs : List ToolCallDelta) : Prop where
  first : ∃ first rest, fs = first :: rest ∧ first.id.getD [] = call.id ∧
    first.nameText = call.name ∧ ∀ f ∈ rest, f.id.getD [] = [] ∧ f.nameText = []
  arguments : fs.flatMap ToolCallDelta.argumentsText = call.arguments

/-- Chunks that bring a message in parts: its content is cut anywhere, and the fragments of its
calls, which have array indices in their order, come in turns. -/
structure SplitsMessage (content : JsString) (calls : List ChatToolCall)
    (chunks : List ChatCompletionChunk) : Prop where
  content : chunks.flatMap ChatCompletionChunk.text = content
  calls : ∃ keys : List Nat, keys.Pairwise (· < ·) ∧ (∀ key ∈ keys, key < arrayIndices) ∧
    (∀ f ∈ fragmentsOf chunks, f.key ∈ keys) ∧
    List.Forall₂ (fun key call => SplitsCall call ((fragmentsOf chunks).filter (·.key = key)))
      keys calls

/-- The usage that came last. -/
def lastUsage (chunks : List ChatCompletionChunk) : Option ChatUsage :=
  (chunks.filterMap ChatCompletionChunk.usage).getLast?

end splits

section round

theorem truthy_getD (text : Option JsString) : (truthy text).getD [] = text.getD [] := by
  cases text with
  | none => rfl
  | some text => cases text <;> rfl

theorem ingestChunks_spec (s : Streamed) (chunks : List ChatCompletionChunk) :
    (∃ texts : List JsString, (ingestChunks s chunks).1 = texts.map ChatStreamEvent.delta ∧
      texts.flatten = chunks.flatMap ChatCompletionChunk.text) ∧
    (ingestChunks s chunks).2.content = s.content ++ chunks.flatMap ChatCompletionChunk.text ∧
    (ingestChunks s chunks).2.toolCalls = (fragmentsOf chunks).foldl takeToolCall s.toolCalls ∧
    (ingestChunks s chunks).2.usage = (lastUsage chunks).or s.usage := by
  induction chunks generalizing s with
  | nil => exact ⟨⟨[], rfl, rfl⟩, (List.append_nil _).symm, rfl, rfl⟩
  | cons chunk chunks ih =>
    obtain ⟨⟨texts, hevents, htexts⟩, hcontent, hcalls, husage⟩ := ih (ingestChunk s chunk).2
    refine ⟨⟨(truthy (chunk.delta.bind ChunkDelta.content)).toList ++ texts, ?_, ?_⟩, ?_, ?_, ?_⟩
    · rw [ingestChunks, hevents, List.map_append]
      rfl
    · rw [List.flatten_append, htexts, List.flatMap_cons, ChatCompletionChunk.text, ← truthy_getD]
      cases truthy (chunk.delta.bind ChunkDelta.content) <;> simp
    · rw [ingestChunks, hcontent, ingestChunk, List.flatMap_cons, truthy_getD, List.append_assoc]
      rfl
    · rw [ingestChunks, hcalls, fragmentsOf, fragmentsOf, List.flatMap_cons, List.foldl_append]
      rfl
    · rw [ingestChunks, husage, ingestChunk, lastUsage, lastUsage, List.filterMap_cons]
      cases chunk.usage with
      | none => rfl
      | some usage =>
        rw [Option.some_or, List.getLast?_cons]
        cases (chunks.filterMap ChatCompletionChunk.usage).getLast? <;> rfl

/-- Fragments without id and name add to the arguments alone. -/
theorem foldl_takeFragment (call : ChatToolCall) {fs : List ToolCallDelta}
    (h : ∀ f ∈ fs, f.id.getD [] = [] ∧ f.nameText = []) : fs.foldl takeFragment call =
      { call with arguments := call.arguments ++ fs.flatMap ToolCallDelta.argumentsText } := by
  induction fs generalizing call with
  | nil => simp
  | cons f fs ih =>
    obtain ⟨hid, hname⟩ := h f List.mem_cons_self
    have hnone : truthy f.id = none := by
      cases hf : f.id with
      | none => rfl
      | some id =>
        rw [hf] at hid
        obtain rfl : id = [] := hid
        rfl
    have hstep : takeFragment call f =
        { call with arguments := call.arguments ++ f.argumentsText } := by
      rw [takeFragment, hnone, truthy_getD, truthy_getD]
      change (⟨call.id, call.name ++ f.nameText, _⟩ : ChatToolCall) = _
      rw [hname, List.append_nil]
      rfl
    rw [List.foldl_cons, hstep, ih _ fun g hg => h g (List.mem_cons_of_mem f hg), List.flatMap_cons]
    simp

theorem SplitsCall.assembled {call : ChatToolCall} {fs : List ToolCallDelta}
    (h : SplitsCall call fs) : fs.foldl takeFragment emptyCall = call := by
  obtain ⟨first, rest, rfl, hid, hname, hrest⟩ := h.first
  have harguments := h.arguments
  have hfirst : takeFragment emptyCall first = ⟨call.id, call.name, first.argumentsText⟩ := by
    rw [takeFragment, ← hid, ← hname]
    simp only [emptyCall, truthy_getD, List.nil_append]
    rfl
  rw [List.foldl_cons, hfirst, foldl_takeFragment _ hrest]
  rw [List.flatMap_cons] at harguments
  rw [harguments]

theorem foldl_takeToolCall (toolCalls : List (Option ChatToolCall)) {fs : List ToolCallDelta}
    (h : ∀ f ∈ fs, f.key < arrayIndices) : fs.foldl takeToolCall toolCalls =
      fs.foldl (collect ToolCallDelta.key takeFragment emptyCall) toolCalls := by
  apply List.foldl_ext
  intro calls f hf
  exact if_pos (h f hf)

/-- The calls assembled are those of the message, in the order of their indices. -/
theorem SplitsMessage.toolCalls {content : JsString} {calls : List ChatToolCall}
    {chunks : List ChatCompletionChunk} (h : SplitsMessage content calls chunks) :
    values ((fragmentsOf chunks).foldl takeToolCall []) = calls := by
  obtain ⟨keys, hkeys, hindices, hmem, hcalls⟩ := h.calls
  rw [foldl_takeToolCall [] fun f hf => hindices _ (hmem f hf)]
  apply values_eq hkeys
  · intro i hi
    rw [get_collected, if_pos]
    apply List.filter_eq_nil_iff.mpr
    intro f hf hkey
    exact hi (of_decide_eq_true hkey ▸ hmem f hf)
  · clear hkeys hindices hmem h
    induction hcalls with
    | nil => rfl
    | @cons key call keys calls hcall rest ih =>
      obtain ⟨first, more, hfs, -⟩ := hcall.first
      have hne : (fragmentsOf chunks).filter (·.key = key) ≠ [] := by
        rw [hfs]
        exact List.cons_ne_nil first more
      rw [List.map_cons, List.map_cons, ih, get_collected, if_neg hne, hcall.assembled]

/-- A message that comes in parts is put together again. -/
theorem chatStream_splits {content : JsString} {calls : List ChatToolCall}
    {chunks : List ChatCompletionChunk} (h : SplitsMessage content calls chunks) :
    ∃ texts : List JsString, texts.flatten = content ∧
      chatStream chunks = texts.map ChatStreamEvent.delta ++ [.done ⟨[some {
        role := .assistant
        content := if content = [] then none else some content
        tool_calls := if calls = [] then none else some calls
        tool_call_id := none }], lastUsage chunks⟩] := by
  obtain ⟨⟨texts, hevents, htexts⟩, hcontent, hcalls, husage⟩ :=
    ingestChunks_spec ⟨[], [], none⟩ chunks
  have hvalues := h.toolCalls
  rw [List.nil_append, h.content] at hcontent
  rw [Option.or_none] at husage
  refine ⟨texts, htexts.trans h.content, ?_⟩
  rw [chatStream, hevents, Streamed.response, hcontent, hcalls, husage, hvalues]
  cases content <;> cases calls <;> rfl

/-- Fragments of two calls in turns, the second with an index that leaves a hole. -/
def turnsChunks : List ChatCompletionChunk :=
  let chunk (index : Nat) (name : Option JsString) (arguments : JsString) : ChatCompletionChunk :=
    ⟨some [⟨some ⟨some (js "a"), some [⟨some index, name, some ⟨name, some arguments⟩⟩]⟩⟩], none⟩
  [chunk 2 (some (js "glob")) (js "[2"), chunk 0 (some (js "grep")) (js "[0"),
    chunk 2 none (js "]"), chunk 0 none (js "]"), ⟨some [], some ⟨some 1, some 2, some 3⟩⟩]

theorem turnsChunks_split : SplitsMessage (js "aaaa")
    [⟨js "grep", js "grep", js "[0]"⟩, ⟨js "glob", js "glob", js "[2]"⟩] turnsChunks where
  content := rfl
  calls := by
    have hrest (f : ToolCallDelta) (h : f.id.getD [] = [] ∧ f.nameText = []) :
        ∀ g ∈ [f], g.id.getD [] = [] ∧ g.nameText = [] := List.forall_mem_singleton.mpr h
    exact ⟨[0, 2], by decide, by decide, by decide,
      .cons ⟨⟨_, _, rfl, rfl, rfl, hrest _ ⟨rfl, rfl⟩⟩, rfl⟩
        (.cons ⟨⟨_, _, rfl, rfl, rfl, hrest _ ⟨rfl, rfl⟩⟩, rfl⟩ .nil)⟩

theorem chatStream_turnsChunks : ∃ texts : List JsString, texts.flatten = js "aaaa" ∧
    chatStream turnsChunks = texts.map ChatStreamEvent.delta ++ [.done ⟨[some {
      role := .assistant
      content := some (js "aaaa")
      tool_calls := some [⟨js "grep", js "grep", js "[0]"⟩, ⟨js "glob", js "glob", js "[2]"⟩]
      tool_call_id := none }], some ⟨some 1, some 2, some 3⟩⟩] :=
  chatStream_splits turnsChunks_split

end round

end Solarcido.Api
