import Solarcido.Tools.Calls

namespace Solarcido.Tools

open Text ThrowingProgram

variable {ε : Type} (host : Host ε)

/-- The files under a directory are the same. -/
def FilesKept (root : Path) (w w' : World ε) : Prop :=
  ∀ p, root <+: p → fileAt (some w'.fs) p = fileAt (some w.fs) p

theorem FilesKept.trans {root : Path} {a b c : World ε} (hab : FilesKept root a b)
    (hbc : FilesKept root b c) : FilesKept root a c :=
  fun p hp => (hbc p hp).trans (hab p hp)

theorem filesKept_of_eq {root : Path} {w w' : World ε} (h : w'.fs = w.fs) :
    FilesKept root w w' := fun p _ => by rw [h]

section todos

/-- The list `todo_write` stores: none when all is done. -/
def storedTodos (todos : List TodoItem) : List TodoItem :=
  if todos.all fun todo => todo.status = .completed then [] else todos

def storedBytes (todos : List TodoItem) : Bytes :=
  Utf8.bufferFrom (todoStoreText host (storedTodos todos))

/-- The store can be written: its directory can be made, and it is not one itself. -/
def StoreWritable (fs : FileSystem) (storePath : Path) (todos : List TodoItem) : Prop :=
  ∃ fs₁ fs₂, mkdirRecursive fs storePath.dropLast = .ok fs₁ ∧
    writeText fs₁ storePath (todoStoreText host (storedTodos todos)) = .ok fs₂

/-- What `todo_write` does to the files: with a valid list and a writable store it sets
the store and nothing else, and otherwise it changes none. -/
theorem writeTodoStore_files (storePath : Path) (todos : List TodoItem) (w : World ε) :
    (StoreWritable host w.fs storePath todos ∧ ∀ p,
      fileAt (some (finalState
        (writeTodoStore host storePath (storedTodos todos) w)).fs) p =
        if p = storePath then some (storedBytes host todos) else fileAt (some w.fs) p) ∨
    (¬ StoreWritable host w.fs storePath todos ∧ ∀ p,
      fileAt (some (finalState
        (writeTodoStore host storePath (storedTodos todos) w)).fs) p = fileAt (some w.fs) p) := by
  rw [writeTodoStore]
  simp only [bind, EStateM.bind, writing_apply]
  cases hmkdir : mkdirRecursive w.fs storePath.dropLast with
  | error e =>
    refine Or.inr ⟨?_, fun p => rfl⟩
    rintro ⟨fs₁, fs₂, hmk, -⟩
    rw [hmkdir] at hmk
    simp at hmk
  | ok fs₁ =>
    have hdirs := fileAt_mkdirRecursive hmkdir
    cases hwrite : writeText fs₁ storePath (todoStoreText host (storedTodos todos)) with
    | error e =>
      refine Or.inr ⟨?_, fun p => ?_⟩
      · rintro ⟨fs₁', fs₂, hmk, hwr⟩
        obtain rfl : fs₁ = fs₁' := by simpa [hmkdir] using hmk
        rw [hwrite] at hwr
        simp at hwr
      · simp only [hwrite, finalState]
        exact hdirs p
    | ok fs₂ =>
      refine Or.inl ⟨⟨fs₁, fs₂, hmkdir, hwrite⟩, fun p => ?_⟩
      simp only [hwrite, finalState]
      rw [fileAt_writeText hwrite p, hdirs p]
      rfl

/-- The todos of a call's arguments. -/
def ToolCall.todos (c : ToolCall ε) : Except JsString (List TodoItem) :=
  parseTodos ((objectInput c.input).member (js "todos"))

theorem todoWriteTool_final (name : JsString) (args : Json) (context : ToolExecutionContext ε)
    (w : World ε) :
    finalState (todoWriteTool host name args context w) =
      match parseTodos (args.member (js "todos")) with
      | .error _ => w
      | .ok todos => finalState
          (writeTodoStore host (todoStorePath host context.root) (storedTodos todos) w) := by
  rw [todoWriteTool]
  cases parseTodos (args.member (js "todos")) with
  | error message => rfl
  | ok todos =>
    dsimp only
    rw [get_bind, ← storedTodos]
    simp only [bind, EStateM.bind]
    cases writeTodoStore host (todoStorePath host context.root) (storedTodos todos) w <;> rfl

end todos

/-- A call writes nothing new: it is not `todo_write` with a valid list, or the store
is outside the workspace, or cannot be written, or already holds what is written. -/
def Quiet (w : World ε) (c : ToolCall ε) : Prop :=
  normalizeToolName c.name = js "todo_write" → ∀ todos, c.todos = .ok todos →
    resolveRoot host c.context.root <+: todoStorePath host c.context.root →
    StoreWritable host w.fs (todoStorePath host c.context.root) todos →
    fileAt (some w.fs) (todoStorePath host c.context.root) = some (storedBytes host todos)

theorem readOnly_specs : ∀ spec ∈ BUILTIN_TOOL_SPECS, spec.requiredPermission = .readOnly →
    spec.name ≠ js "write_file" ∧ spec.name ≠ js "edit_file" ∧ spec.name ≠ js "run_command" := by
  decide +kernel

theorem todo_write_spec : ∃ spec ∈ BUILTIN_TOOL_SPECS, spec.name = js "todo_write" ∧
    spec.requiredPermission = .readOnly := by
  refine ⟨_, List.mem_of_getElem? (i := 9) rfl, rfl, rfl⟩

/-- Under any ceiling a call of `todo_write` is admitted. -/
theorem todo_write_runs (w : World ε) (c : ToolCall ε)
    (hname : normalizeToolName c.name = js "todo_write") :
    c.run host w = finalState (todoWriteTool host (js "todo_write") (objectInput c.input)
      (c.handlerContext host) w) := by
  obtain ⟨spec, hspec, hspecname, hread⟩ := todo_write_spec
  have hexec := ToolCall.executed_of_readOnly host (w := w) (c := c) hspec
    (hspecname.trans hname.symm) hread
  rw [ToolCall.run_of_executed host hexec, hspecname]
  rfl

/-- At the read-only ceiling a call keeps the files of the workspace exactly when it is
quiet. -/
theorem run_keeps_iff (w : World ε) (c : ToolCall ε)
    (hceiling : (getPermissionEnforcer host c.context).ceiling = .readOnly) :
    FilesKept (resolveRoot host c.context.root) w (c.run host w) ↔ Quiet host w c := by
  by_cases hname : normalizeToolName c.name = js "todo_write"
  · rw [todo_write_runs host w c hname, todoWriteTool_final]
    rw [Quiet]
    simp only [hname, forall_const]
    change FilesKept _ w (match c.todos with
      | .error _ => w
      | .ok todos => finalState (writeTodoStore host (todoStorePath host c.context.root)
          (storedTodos todos) w)) ↔ _
    cases htodos : c.todos with
    | error message => exact ⟨fun _ todos h => by simp at h, fun _ p _ => rfl⟩
    | ok todos =>
      dsimp only
      obtain ⟨hwritable, hfiles⟩ | ⟨hstuck, hfiles⟩ :=
        writeTodoStore_files host (todoStorePath host c.context.root) todos w
      · constructor
        · intro hkept todos' htodos' hinside _
          obtain rfl : todos = todos' := by simpa using htodos'
          rw [← hkept _ hinside, hfiles, if_pos rfl]
        · intro hquiet p hp
          rw [hfiles p]
          split
          · next hpath =>
            subst hpath
            exact (hquiet todos rfl hp hwritable).symm
          · rfl
      · constructor
        · intro _ todos' htodos' _ hwritable
          obtain rfl : todos = todos' := by simpa using htodos'
          exact absurd hwritable hstuck
        · intro _ p _
          exact hfiles p
  · refine ⟨fun _ h => absurd h hname, fun _ => ?_⟩
    cases hexec : c.executed host w with
    | none => exact filesKept_of_eq (by rw [ToolCall.run_of_refused host hexec])
    | some spec =>
      obtain ⟨hspec, hspecname, hallows, -⟩ := (ToolCall.executed_iff host w c spec).mp hexec
      rw [hceiling, permissionAllows_readOnly] at hallows
      obtain ⟨hwrite, hedit, hcommand⟩ := readOnly_specs spec hspec hallows
      rw [ToolCall.run_of_executed host hexec]
      exact filesKept_of_eq (keeps_iff.mp (executeBuiltinTool_files host spec.name
        (c.handlerContext host) c.input hwrite hedit hcommand (hspecname ▸ hname)) w)

/-- What happens in a run: a call, or the plan mode is switched from elsewhere. -/
inductive Step (ε : Type) where
  | call (c : ToolCall ε)
  | planMode (active : Bool)

def Step.run (w : World ε) : Step ε → World ε
  | .call c => c.run host w
  | .planMode active => { w with planActive := active }

def runSteps : List (Step ε) → World ε → World ε
  | [], w => w
  | step :: steps, w => runSteps steps (step.run host w)

theorem runSteps_cons (step : Step ε) (steps : List (Step ε)) (w : World ε) :
    runSteps host (step :: steps) w = runSteps host steps (step.run host w) := rfl

/-- A step of a run in a workspace with the read-only ceiling. -/
def ReadOnlyStep (root : JsString) : Step ε → Prop
  | .call c => c.context.root = root ∧
      (getPermissionEnforcer host c.context).ceiling = .readOnly
  | .planMode _ => True

/-- Every call of a run is quiet where it is made. -/
def QuietRun : List (Step ε) → World ε → Prop
  | [], _ => True
  | .call c :: steps, w => Quiet host w c ∧ QuietRun steps (c.run host w)
  | .planMode active :: steps, w => QuietRun steps { w with planActive := active }

/-- A session in `/w` at the read-only ceiling, with nobody to ask. -/
def readOnlyContext : ToolExecutionContext Unit where
  root := js "/w"
  approvalPolicy := .never
  sandbox := .readOnly
  maxPermission := none
  permissionEnforcer := none
  interaction := none
  planMode := true

def readOnlyHost : Host Unit := .bare fun _ => .error (.string (js "no JSON"))

/-- The workspace is empty. -/
def emptyWorkspace : World Unit := ⟨(), .dir [(js "w", .dir [])], false⟩

def call (name : JsString) (members : List (String × Json)) : ToolCall Unit :=
  ⟨name, .ofMembers members, readOnlyContext⟩

/-- One entry, still to be done. -/
def oneTodo : ToolCall Unit :=
  call (js "todo_write") [("todos", .arr [.ofMembers [("content", .str (js "a")),
    ("activeForm", .str (js "b")), ("status", .str (js "pending"))]])]

end Solarcido.Tools
