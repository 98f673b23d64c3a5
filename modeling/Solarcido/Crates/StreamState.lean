import Solarcido.Crates.Messages
import Solarcido.Lib.Emitter
import Solarcido.Lib.SortedMap

namespace Solarcido.Crates

open RustText Emitter

structure OpenAiUsage where
  promptTokens : U32
  completionTokens : U32

structure DeltaFunction where
  name : Option RustString
  arguments : Option RustString

structure DeltaToolCall where
  index : U32
  id : Option RustString
  function : DeltaFunction

structure ChunkDelta where
  content : Option RustString
  toolCalls : List DeltaToolCall

structure ChunkChoice where
  delta : ChunkDelta
  finishReason : Option RustString

structure ChatCompletionChunk where
  id : RustString
  model : Option RustString
  choices : List ChunkChoice
  usage : Option OpenAiUsage

def normalizeFinishReason (value : RustString) : RustString :=
  if value = str "stop" then str "end_turn"
  else if value = str "tool_calls" then str "tool_use"
  else value

/-- A tool call in the making. The length emitted is counted in characters. -/
structure ToolCallState where
  openaiIndex : U32
  id : Option RustString
  name : Option RustString
  arguments : RustString
  emittedLen : Nat
  started : Bool
  stopped : Bool

/-- A step that lets events out, unless the arithmetic of an index panics. -/
abbrev Step (σ : Type) := Emit σ StreamEvent Panic

namespace ToolCallState

def new : ToolCallState := ⟨0, none, none, [], 0, false, false⟩

def apply (tc : DeltaToolCall) (s : ToolCallState) : ToolCallState :=
  { s with
    openaiIndex := tc.index
    id := tc.id.or s.id
    name := tc.function.name.or s.name
    arguments := s.arguments ++ tc.function.arguments.getD [] }

def blockIndex (s : ToolCallState) : Except Panic U32 := checkedAdd s.openaiIndex 1

def startEvent (s : ToolCallState) : Except Panic (Option StreamEvent) :=
  match s.name with
  | none => .ok none
  | some name => s.blockIndex.map fun index =>
    let id := s.id.getD (str "tool_call_" ++ decimal s.openaiIndex)
    some (.contentBlockStart index (.toolUse id name (.object [])))

/-- Start the block as soon as the name is known. -/
def start : Step ToolCallState := fun s =>
  if s.started then .ok ([], s)
  else s.startEvent.map fun event => (event.toList, { s with started := event.isSome })

/-- The arguments that have come since the last delta. -/
def delta : Step ToolCallState := fun s =>
  if s.arguments.length ≤ s.emittedLen then .ok ([], s)
  else s.blockIndex.map fun index =>
    ([.contentBlockDelta index (.inputJsonDelta (s.arguments.drop s.emittedLen))],
      { s with emittedLen := s.arguments.length })

def stop : Step ToolCallState := fun s =>
  if s.started ∧ !s.stopped then
    s.blockIndex.map fun index => ([.contentBlockStop index], { s with stopped := true })
  else .ok ([], s)

def whenStarted (step : Step ToolCallState) : Step ToolCallState := fun s =>
  if s.started then step s else .ok ([], s)

/-- What a fragment that has been applied lets out. -/
def advance (finishReason : Option RustString) : Step ToolCallState := fun s =>
  match s.blockIndex with
  | .error p => .error p
  | .ok _ =>
    andThen start (whenStarted (andThen delta
      (if finishReason = some (str "tool_calls") then stop else quiet fun t => t))) s

/-- What is left to let out at the end of the stream. -/
def finish : Step ToolCallState :=
  andThen (fun s => if s.started then .ok ([], s) else andThen start (whenStarted delta) s) stop

end ToolCallState

structure StreamState where
  model : RustString
  messageStarted : Bool
  textStarted : Bool
  textFinished : Bool
  finished : Bool
  stopReason : Option RustString
  usage : Option Usage
  toolCalls : SortedMap U32 ToolCallState

namespace StreamState

def new (model : RustString) : StreamState :=
  ⟨model, false, false, false, false, none, none, .empty⟩

def startMessage (chunk : ChatCompletionChunk) : Step StreamState := fun s =>
  if s.messageStarted then .ok ([], s)
  else
    .ok ([.messageStart {
      id := chunk.id
      kind := str "message"
      role := str "assistant"
      content := []
      model := chunk.model.getD s.model
      stopReason := none
      stopSequence := none
      usage := .zero
      requestId := none }], { s with messageStarted := true })

def takeUsage (usage : Option OpenAiUsage) (s : StreamState) : StreamState :=
  match usage with
  | none => s
  | some u => { s with usage := some ⟨u.promptTokens, u.completionTokens⟩ }

def ingestContent (content : Option RustString) : Step StreamState := fun s =>
  match content.filter fun v => !v.isEmpty with
  | none => .ok ([], s)
  | some text =>
    let starts : List StreamEvent := if s.textStarted then [] else [.contentBlockStart 0 (.text [])]
    .ok (starts ++ [.contentBlockDelta 0 (.textDelta text)], { s with textStarted := true })

/-- `self.tool_calls.entry(tc.index).or_default()` takes the fragment in. -/
def ingestToolCall (finishReason : Option RustString) (tc : DeltaToolCall) : Step StreamState :=
  fun s =>
    let state := ((s.toolCalls.get tc.index).getD .new).apply tc
    (state.advance finishReason).map fun (events, state) =>
      (events, { s with toolCalls := s.toolCalls.set tc.index state })

/-- One step of a loop over `tool_calls.values_mut()`. -/
def updateTool (step : Step ToolCallState) (index : U32) : Step StreamState := fun s =>
  match s.toolCalls.get index with
  | none => .ok ([], s)
  | some state => (step state).map fun (events, state) =>
    (events, { s with toolCalls := s.toolCalls.set index state })

def eachTool (step : Step ToolCallState) : Step StreamState := fun s =>
  forEach (updateTool step) s.toolCalls.keys s

def ingestFinishReason (finishReason : Option RustString) : Step StreamState := fun s =>
  match finishReason with
  | none => .ok ([], s)
  | some reason =>
    let s := { s with stopReason := some (normalizeFinishReason reason) }
    if reason = str "tool_calls" then eachTool ToolCallState.stop s else .ok ([], s)

def ingestChoice (choice : ChunkChoice) : Step StreamState :=
  andThen (ingestContent choice.delta.content)
    (andThen (forEach (ingestToolCall choice.finishReason) choice.delta.toolCalls)
      (ingestFinishReason choice.finishReason))

def ingestChunk (chunk : ChatCompletionChunk) : Step StreamState :=
  andThen (startMessage chunk)
    (andThen (quiet (takeUsage chunk.usage)) (forEach ingestChoice chunk.choices))

def finishText : Step StreamState := fun s =>
  if s.textStarted ∧ !s.textFinished then
    .ok ([.contentBlockStop 0], { s with textFinished := true })
  else .ok ([], s)

def finishMessage : Step StreamState := fun s =>
  if s.messageStarted then
    .ok ([.messageDelta ⟨some (s.stopReason.getD (str "end_turn")), none⟩ (s.usage.getD .zero),
      .messageStop], s)
  else .ok ([], s)

def finish : Step StreamState := fun s =>
  if s.finished then .ok ([], s)
  else andThen finishText (andThen (eachTool ToolCallState.finish) finishMessage) { s with finished := true }

/-- The events of a whole stream. -/
def stream (chunks : List ChatCompletionChunk) : Step StreamState :=
  andThen (forEach ingestChunk chunks) finish

end StreamState

end Solarcido.Crates
