import Solarcido.Tools.Registry

namespace Solarcido.Tools

open Text ThrowingProgram

section frames

variable {ε α β : Type}

/-- Neither the files nor the plan-mode flag have changed. -/
def SameFilesAndPlan (w w' : World ε) : Prop := w'.fs = w.fs ∧ w'.planActive = w.planActive

def SamePlan (w w' : World ε) : Prop := w'.planActive = w.planActive

def SameFiles (w w' : World ε) : Prop := w'.fs = w.fs

theorem sameFilesAndPlan : IsFrame (SameFilesAndPlan (ε := ε)) where
  refl _ := ⟨rfl, rfl⟩
  trans _ _ _ hab hbc := ⟨hbc.1.trans hab.1, hbc.2.trans hab.2⟩

theorem samePlan : IsFrame (SamePlan (ε := ε)) where
  refl _ := rfl
  trans _ _ _ hab hbc := Eq.trans hbc hab

theorem sameFiles : IsFrame (SameFiles (ε := ε)) where
  refl _ := rfl
  trans _ _ _ hab hbc := Eq.trans hbc hab

section rules

theorem keeps_orThrow {R : World ε → World ε → Prop} (hR : IsFrame R) (r : Except Thrown α) :
    Keeps R (orThrow r : Action ε α) := by
  cases r with
  | ok a => exact keeps_pure hR a
  | error e => exact keeps_throw hR e

theorem keeps_outside (x : Effect ε α) : Keeps SameFilesAndPlan (outside x) :=
  keeps_iff.mpr fun w => by
    rw [outside, finalState_onPart]
    exact ⟨rfl, rfl⟩

theorem keeps_reading (f : FileSystem → Except Thrown α) :
    Keeps SameFilesAndPlan (reading f : Action ε α) :=
  keeps_bind sameFilesAndPlan (keeps_get sameFilesAndPlan)
    fun w => keeps_orThrow sameFilesAndPlan (f w.fs)

theorem plan_of_both {x : Action ε α} (h : Keeps SameFilesAndPlan x) : Keeps SamePlan x :=
  h.mono fun _ _ hw => hw.2

theorem files_of_both {x : Action ε α} (h : Keeps SameFilesAndPlan x) : Keeps SameFiles x :=
  h.mono fun _ _ hw => hw.1

theorem keeps_writing (f : FileSystem → Except Thrown FileSystem) :
    Keeps SamePlan (writing f : Action ε Unit) :=
  keeps_bind samePlan (plan_of_both (keeps_reading f)) fun _ => keeps_modify fun _ => rfl

end rules

variable (host : Host ε) (name : JsString) (args : Json) (context : ToolExecutionContext ε)

theorem listFilesTool_keeps : Keeps SameFilesAndPlan (listFilesTool host name args context) :=
  keeps_bind sameFilesAndPlan (keeps_reading _)
    fun _ => keeps_pure sameFilesAndPlan _

theorem readFileTool_keeps : Keeps SameFilesAndPlan (readFileTool host name args context) :=
  keeps_bind sameFilesAndPlan (keeps_orThrow sameFilesAndPlan _) fun _ =>
    keeps_bind sameFilesAndPlan (keeps_reading _)
      fun _ => keeps_pure sameFilesAndPlan _

theorem searchFilesTool_keeps : Keeps SameFilesAndPlan (searchFilesTool host name args context) :=
  keeps_bind sameFilesAndPlan (keeps_orThrow sameFilesAndPlan _) fun _ =>
    keeps_bind sameFilesAndPlan (keeps_reading _)
      fun _ => keeps_pure sameFilesAndPlan _

theorem askUserQuestionTool_keeps :
    Keeps SameFilesAndPlan (askUserQuestionTool host name args context) := by
  refine keeps_bind sameFilesAndPlan (keeps_orThrow sameFilesAndPlan _) fun question => ?_
  dsimp only
  split
  · exact keeps_pure sameFilesAndPlan _
  · exact keeps_bind sameFilesAndPlan (keeps_outside _)
      fun _ => keeps_pure sameFilesAndPlan _

theorem finishTool_keeps : Keeps (SameFilesAndPlan (ε := ε)) (finishTool name args) :=
  keeps_bind sameFilesAndPlan (keeps_orThrow sameFilesAndPlan _)
    fun _ => keeps_pure sameFilesAndPlan _

theorem writeFile_keeps (root targetPath content : JsString) :
    Keeps SamePlan (writeFile host root targetPath content) :=
  keeps_bind samePlan (keeps_orThrow samePlan _) fun _ =>
    keeps_bind samePlan (keeps_writing _) fun _ =>
      keeps_bind samePlan (keeps_writing _) fun _ => keeps_pure samePlan _

theorem editFile_keeps (root targetPath oldString newString : JsString) (replaceAll : Bool) :
    Keeps SamePlan (editFile host root targetPath oldString newString replaceAll) :=
  keeps_ite (fun _ => keeps_throw samePlan _) fun _ =>
    (keeps_bind samePlan (keeps_orThrow samePlan _) fun _ =>
      keeps_bind samePlan (plan_of_both (keeps_reading _)) fun _ =>
        keeps_bind samePlan (keeps_orThrow samePlan _) fun _ =>
          keeps_bind samePlan (keeps_writing _) fun _ => keeps_pure samePlan _)

theorem writeFileTool_keeps : Keeps SamePlan (writeFileTool host name args context) :=
  keeps_bind samePlan (keeps_orThrow samePlan _) fun _ =>
    keeps_bind samePlan (keeps_orThrow samePlan _) fun _ =>
      keeps_bind samePlan (writeFile_keeps host _ _ _) fun _ => keeps_pure samePlan _

theorem editFileTool_keeps : Keeps SamePlan (editFileTool host name args context) :=
  keeps_bind samePlan (keeps_orThrow samePlan _) fun _ =>
    keeps_bind samePlan (keeps_orThrow samePlan _) fun _ =>
      keeps_bind samePlan (keeps_orThrow samePlan _) fun _ =>
        keeps_bind samePlan (editFile_keeps host _ _ _ _ _)
          fun _ => keeps_pure samePlan _

theorem runCommandTool_keeps : Keeps SamePlan (runCommandTool host name args context) := by
  refine keeps_bind samePlan (keeps_orThrow samePlan _) fun command => ?_
  refine keeps_bind samePlan (plan_of_both (keeps_outside _)) fun approval => ?_
  cases approval with
  | refused reason => exact keeps_pure samePlan _
  | approved =>
    exact keeps_bind samePlan (fun _ => rfl) fun _ => keeps_pure samePlan _

theorem todoWriteTool_keeps : Keeps SamePlan (todoWriteTool host name args context) := by
  rw [todoWriteTool]
  split
  · exact keeps_pure samePlan _
  · refine keeps_bind samePlan (keeps_get samePlan) fun w => ?_
    refine keeps_bind samePlan ?_ fun _ => keeps_pure samePlan _
    exact keeps_bind samePlan (keeps_writing _) fun _ => keeps_writing _

theorem enterPlanModeTool_keeps : Keeps SameFiles (enterPlanModeTool host name context) := by
  rw [enterPlanModeTool]
  split
  · exact keeps_pure sameFiles _
  · exact keeps_bind sameFiles (keeps_get sameFiles) fun _ =>
      keeps_bind sameFiles (keeps_modify fun _ => rfl) fun _ => keeps_pure sameFiles _

theorem exitPlanModeTool_keeps : Keeps SameFiles (exitPlanModeTool host name args context) := by
  refine keeps_bind sameFiles (keeps_orThrow sameFiles _) fun plan => ?_
  refine keeps_bind sameFiles (keeps_get sameFiles) fun w => ?_
  split
  · exact keeps_pure sameFiles _
  · split
    · exact keeps_bind sameFiles (keeps_modify fun _ => rfl)
        fun _ => keeps_pure sameFiles _
    · refine keeps_bind sameFiles (files_of_both (keeps_outside _)) fun ok => ?_
      split
      · exact keeps_bind sameFiles (keeps_modify fun _ => rfl)
          fun _ => keeps_pure sameFiles _
      · exact keeps_pure sameFiles _

/-- Only four builtin tools can touch the files. -/
theorem executeBuiltinTool_files (input : Json) (hwrite : name ≠ js "write_file")
    (hedit : name ≠ js "edit_file") (hrun : name ≠ js "run_command")
    (htodo : name ≠ js "todo_write") :
    Keeps SameFiles (executeBuiltinTool host name input context) := by
  rw [executeBuiltinTool]
  refine keeps_ite (fun _ => files_of_both (listFilesTool_keeps host name _ context)) fun _ => ?_
  refine keeps_ite (fun _ => files_of_both (readFileTool_keeps host name _ context)) fun _ => ?_
  refine keeps_ite (fun _ => files_of_both (searchFilesTool_keeps host name _ context)) fun _ => ?_
  refine keeps_ite (fun h => absurd h hwrite) fun _ => ?_
  refine keeps_ite (fun h => absurd h hedit) fun _ => ?_
  refine keeps_ite (fun h => absurd h hrun) fun _ => ?_
  refine keeps_ite (fun _ => files_of_both (askUserQuestionTool_keeps host name _ context))
    fun _ => ?_
  refine keeps_ite (fun _ => enterPlanModeTool_keeps host name context) fun _ => ?_
  refine keeps_ite (fun _ => exitPlanModeTool_keeps host name _ context) fun _ => ?_
  refine keeps_ite (fun h => absurd h htodo) fun _ => ?_
  exact keeps_ite (fun _ => files_of_both (finishTool_keeps name _)) fun _ =>
    keeps_pure sameFiles _

/-- Only two builtin tools can touch the plan-mode flag. -/
theorem executeBuiltinTool_plan (input : Json) (henter : name ≠ js "enter_plan_mode")
    (hexit : name ≠ js "exit_plan_mode") :
    Keeps SamePlan (executeBuiltinTool host name input context) := by
  rw [executeBuiltinTool]
  refine keeps_ite (fun _ => plan_of_both (listFilesTool_keeps host name _ context)) fun _ => ?_
  refine keeps_ite (fun _ => plan_of_both (readFileTool_keeps host name _ context)) fun _ => ?_
  refine keeps_ite (fun _ => plan_of_both (searchFilesTool_keeps host name _ context)) fun _ => ?_
  refine keeps_ite (fun _ => writeFileTool_keeps host name _ context) fun _ => ?_
  refine keeps_ite (fun _ => editFileTool_keeps host name _ context) fun _ => ?_
  refine keeps_ite (fun _ => runCommandTool_keeps host name _ context) fun _ => ?_
  refine keeps_ite (fun _ => plan_of_both (askUserQuestionTool_keeps host name _ context))
    fun _ => ?_
  refine keeps_ite (fun h => absurd h henter) fun _ => ?_
  refine keeps_ite (fun h => absurd h hexit) fun _ => ?_
  refine keeps_ite (fun _ => todoWriteTool_keeps host name _ context) fun _ => ?_
  exact keeps_ite (fun _ => plan_of_both (finishTool_keeps name _)) fun _ =>
    keeps_pure samePlan _

end frames

open GlobalToolRegistry

variable {ε : Type} (host : Host ε)

/-- A tool call as it comes to the registry. -/
structure ToolCall (ε : Type) where
  name : JsString
  input : Json
  context : ToolExecutionContext ε

namespace ToolCall

/-- The world after a call by way of the default registry. -/
def run (w : World ε) (c : ToolCall ε) : World ε :=
  finalState (builtinRegistry.execute host c.name c.input c.context w)

/-- The tool whose executor a call runs; none when the registry refuses it. -/
def executed (w : World ε) (c : ToolCall ε) : Option ToolSpec :=
  match builtinRegistry.admission host c.name c.context w.planActive with
  | .refused _ => none
  | .admitted tool _ => some tool.spec

/-- The handler runs with the enforcer the call was checked with. -/
def handlerContext (c : ToolCall ε) : ToolExecutionContext ε :=
  { c.context with permissionEnforcer := some (getPermissionEnforcer host c.context) }

theorem executed_iff (w : World ε) (c : ToolCall ε) (spec : ToolSpec) :
    c.executed host w = some spec ↔
      spec ∈ BUILTIN_TOOL_SPECS ∧ spec.name = normalizeToolName c.name ∧
        permissionAllows (getPermissionEnforcer host c.context).ceiling
          spec.requiredPermission = true ∧
        ((c.context.planMode && w.planActive) = true → spec.name ≠ js "exit_plan_mode" →
          permissionAllows .readOnly spec.requiredPermission = true) := by
  rw [executed]
  constructor
  · intro h
    cases hadmission : builtinRegistry.admission host c.name c.context w.planActive with
    | refused content => simp [hadmission] at h
    | admitted tool handler =>
      rw [hadmission] at h
      obtain ⟨found, hfound, hname, rfl, -, hallows, hplan⟩ :=
        (builtinRegistry_admitted_iff host _ _ _ _ _).mp hadmission
      obtain rfl : found = spec := Option.some.inj h
      exact ⟨hfound, hname, hallows, hplan⟩
  · rintro ⟨hspec, hname, hallows, hplan⟩
    rw [(builtinRegistry_admitted_iff host _ _ _ _ _).mpr
      ⟨spec, hspec, hname, rfl, rfl, hallows, hplan⟩]

/-- A refused call leaves the world as it is. -/
theorem run_of_refused {w : World ε} {c : ToolCall ε} (h : c.executed host w = none) :
    c.run host w = w := by
  unfold executed at h
  rw [run]
  rw [execute_apply]
  cases hadmission : builtinRegistry.admission host c.name c.context w.planActive with
  | refused content => rfl
  | admitted tool handler => simp [hadmission] at h

/-- Any other call does what the executor of its tool does. -/
theorem run_of_executed {w : World ε} {c : ToolCall ε} {spec : ToolSpec}
    (h : c.executed host w = some spec) :
    c.run host w =
      finalState (executeBuiltinTool host spec.name c.input (c.handlerContext host) w) := by
  obtain ⟨hspec, hname, hallows, hplan⟩ := (executed_iff host w c spec).mp h
  rw [run]
  rw [execute_apply, (builtinRegistry_admitted_iff host _ _ _ _ _).mpr
    ⟨spec, hspec, hname, rfl, rfl, hallows, hplan⟩]
  exact finalState_runCaught host _ _ _ _ _

end ToolCall

theorem permissionAllows_of_readOnly (ceiling : PermissionMode) :
    permissionAllows ceiling .readOnly = true := by
  cases ceiling <;> rfl

/-- No ceiling and no plan mode keeps a read-only tool from running. -/
theorem ToolCall.executed_of_readOnly {w : World ε} {c : ToolCall ε} {spec : ToolSpec}
    (hspec : spec ∈ BUILTIN_TOOL_SPECS) (hname : spec.name = normalizeToolName c.name)
    (hread : spec.requiredPermission = .readOnly) : c.executed host w = some spec := by
  refine (executed_iff host w c spec).mpr ⟨hspec, hname, ?_, fun _ _ => ?_⟩
  · rw [hread]
    exact permissionAllows_of_readOnly _
  · rw [hread]
    exact permissionAllows_of_readOnly _

end Solarcido.Tools
