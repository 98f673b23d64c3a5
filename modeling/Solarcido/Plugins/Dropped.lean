import Solarcido.Plugins.NormalForm

namespace Solarcido.Plugins

open Text Collector

variable {raw t c : Json} {m : PluginManifest}

def isString : Json → Bool
  | .str _ => true
  | _ => false

section represented

def TextAt (v : Json) (s : JsString) : Prop := v = .str s

def PermissionAt (v : Json) (p : PluginPermission) : Prop := ∃ s, v = .str s ∧ trim s = p.name

/-- The tool has what the element has, each of its arguments at its place. -/
structure ToolAt (t : Json) (tool : PluginToolManifest) : Prop where
  name : ∃ s, t.member (js "name") = some (.str s) ∧ tool.name = trim s
  description : t.member (js "description") = some (.str tool.description)
  inputSchema : t.member (js "inputSchema") = some (.obj tool.inputSchema)
  command : t.member (js "command") = some (.str tool.command)
  args : List.Forall₂ TextAt (itemsOrEmpty (t.member (js "args"))) tool.args
  requiredPermission : toolPermissionOf (rawToolPermission (t.member (js "requiredPermission"))) =
    some tool.requiredPermission

structure CommandAt (c : Json) (entry : PluginCommandManifest) : Prop where
  name : ∃ s, c.member (js "name") = some (.str s) ∧ entry.name = trim s
  description : c.member (js "description") = some (.str entry.description)
  command : c.member (js "command") = some (.str entry.command)

/-- The manifest has each element of each array at its place, and nothing else. -/
structure Represented (raw : Json) (m : PluginManifest) : Prop where
  permissions : List.Forall₂ PermissionAt (rawItems (some raw) (js "permissions")) m.permissions
  tools : List.Forall₂ ToolAt (rawItems (some raw) (js "tools")) m.tools
  commands : List.Forall₂ CommandAt (rawItems (some raw) (js "commands")) m.commands
  preToolUse : List.Forall₂ TextAt (rawItems (raw.member (js "hooks")) (js "PreToolUse"))
    m.hooks.PreToolUse
  postToolUse : List.Forall₂ TextAt (rawItems (raw.member (js "hooks")) (js "PostToolUse"))
    m.hooks.PostToolUse
  postToolUseFailure : List.Forall₂ TextAt
    (rawItems (raw.member (js "hooks")) (js "PostToolUseFailure")) m.hooks.PostToolUseFailure
  init : List.Forall₂ TextAt (rawItems (raw.member (js "lifecycle")) (js "Init")) m.lifecycle.Init
  shutdown : List.Forall₂ TextAt (rawItems (raw.member (js "lifecycle")) (js "Shutdown"))
    m.lifecycle.Shutdown

def AllStrings (items : List Json) : Prop := ∀ item ∈ items, isString item = true

/-- Each element of the tools and the commands is an object, and each element of the arguments,
the hooks and the lifecycle is a string. -/
structure NothingToDrop (raw : Json) : Prop where
  tools : ∀ t ∈ rawItems (some raw) (js "tools"), t.isObject = true
  args : ∀ t ∈ rawItems (some raw) (js "tools"), AllStrings (itemsOrEmpty (t.member (js "args")))
  commands : ∀ c ∈ rawItems (some raw) (js "commands"), c.isObject = true
  hooks : ∀ key ∈ [js "PreToolUse", js "PostToolUse", js "PostToolUseFailure"],
    AllStrings (rawItems (raw.member (js "hooks")) key)
  lifecycle : ∀ key ∈ [js "Init", js "Shutdown"],
    AllStrings (rawItems (raw.member (js "lifecycle")) key)

end represented

section entries

theorem allStrings_of_at {items : List Json} {texts : List JsString}
    (h : List.Forall₂ TextAt items texts) : AllStrings items :=
  forall_left h fun v s hv => by rw [hv, isString]

theorem stringsOf_at_iff (items : List Json) :
    List.Forall₂ TextAt items (stringsOf items) ↔ AllStrings items := by
  refine ⟨allStrings_of_at, fun h => ?_⟩
  induction items with
  | nil => exact .nil
  | cons item items ih =>
    obtain ⟨hitem, hitems⟩ := List.forall_mem_cons.mp h
    cases item with
    | str s => exact .cons rfl (ih hitems)
    | _ => cases hitem

theorem text_of_not_blank {value : Option Json} (h : isBlank value = false) :
    value = some (.str (textOrEmpty value)) := by
  match value, h with
  | some (.str s), _ => rfl

theorem text_of_trimmed {value : Option Json} (h : trimmedText value ≠ []) :
    ∃ s, value = some (.str s) ∧ trimmedText value = trim s := by
  match value, h with
  | some (.str s), _ => exact ⟨s, rfl, rfl⟩

theorem members_of_object {value : Option Json} (h : value.any Json.isObject = true) :
    value = some (.obj (membersOrEmpty value)) := by
  match value, h with
  | some (.obj members), _ => rfl

/-- A tool that was read is the element's but for the arguments that are no strings. -/
theorem toolAt_iff {tool : PluginToolManifest} (h : ToolRead t tool) :
    ToolAt t tool ↔ AllStrings (itemsOrEmpty (t.member (js "args"))) := by
  have hargs : tool.args = stringsOf (itemsOrEmpty (t.member (js "args"))) :=
    congrArg PluginToolManifest.args h.item
  rw [← stringsOf_at_iff, ← hargs]
  refine ⟨ToolAt.args, fun hall => ⟨?_, ?_, ?_, ?_, hall, h.permission⟩⟩
  · have hnamed := h.named
    rw [h.name] at hnamed ⊢
    exact text_of_trimmed hnamed
  · have hdescription : tool.description = textOrEmpty (t.member (js "description")) :=
      congrArg PluginToolManifest.description h.item
    rw [hdescription]
    exact text_of_not_blank h.description
  · have hschema : tool.inputSchema = membersOrEmpty (t.member (js "inputSchema")) :=
      congrArg PluginToolManifest.inputSchema h.item
    rw [hschema]
    exact members_of_object h.inputSchema
  · have hcommand : tool.command = textOrEmpty (t.member (js "command")) :=
      congrArg PluginToolManifest.command h.item
    rw [hcommand]
    exact text_of_not_blank h.command

theorem commandAt_of_read {entry : PluginCommandManifest} (h : CommandRead c entry) :
    CommandAt c entry := by
  constructor
  · have hnamed := h.named
    rw [h.name] at hnamed ⊢
    exact text_of_trimmed hnamed
  · have hdescription : entry.description = textOrEmpty (c.member (js "description")) :=
      congrArg PluginCommandManifest.description h.item
    rw [hdescription]
    exact text_of_not_blank h.description
  · have hcommand : entry.command = textOrEmpty (c.member (js "command")) :=
      congrArg PluginCommandManifest.command h.item
    rw [hcommand]
    exact text_of_not_blank h.command

theorem readTool_isSkipped (t : Json) : (readTool t).isSkipped = !t.isObject := by
  rw [readTool]
  cases t.isObject with
  | false => rfl
  | true =>
    rw [if_pos rfl]
    dsimp only
    split
    · rfl
    · split <;> rfl

theorem readCommand_isSkipped (c : Json) : (readCommand c).isSkipped = !c.isObject := by
  rw [readCommand]
  cases c.isObject with
  | false => rfl
  | true =>
    rw [if_pos rfl]
    dsimp only
    split <;> rfl

theorem readPermission_isSkipped (p : Json) : (readPermission p).isSkipped = false := by
  rw [readPermission]
  split
  · rfl
  · split <;> rfl

theorem permissionAt_of_read {v : Json} {p : PluginPermission}
    (h : ReadsAs readPermission PluginPermission.name v p) : PermissionAt v p := by
  rw [ReadsAs, readPermission] at h
  split at h
  · cases h
  · next hnamed =>
    obtain ⟨s, hv, htrim⟩ := text_of_trimmed hnamed
    refine ⟨s, Option.some.inj hv, ?_⟩
    rw [← htrim]
    split at h
    · exact absurd (Reading.entry.inj h).2.1 (by simp)
    · exact (Reading.entry.inj h).1

end entries

section lists

variable {α : Type} {read : Json → Reading ManifestValidationError JsString α}
  {nameOf : α → JsString} {key : JsString} {items : List α} {R : Json → α → Prop}

/-- As many items as elements: none was skipped. -/
theorem not_skipped_of_at (h : ListRead read nameOf raw key items)
    (hat : List.Forall₂ R (rawItems (some raw) key) items) :
    ∀ item ∈ rawItems (some raw) key, (read item).isSkipped = false := by
  have hlen := h.reads.length_eq.trans hat.length_eq.symm
  intro item hitem
  have hkept := List.length_filter_eq_length_iff.mp hlen item hitem
  simpa using hkept

theorem reads_of_not_skipped (h : ListRead read nameOf raw key items)
    (hskip : ∀ item ∈ rawItems (some raw) key, (read item).isSkipped = false) :
    List.Forall₂ (ReadsAs read nameOf) (rawItems (some raw) key) items := by
  have hreads := h.reads
  rwa [List.filter_eq_self.mpr fun item hitem => by simp [hskip item hitem]] at hreads

end lists

/-- An accepted manifest has each element at its place iff there was none to be dropped. -/
theorem represented_iff (raw : Json) (m : PluginManifest) (h : validateManifest raw = .ok m) :
    Represented raw m ↔ NothingToDrop raw := by
  have haccepted := validateManifest_ok_iff.mp h
  constructor
  · intro hrep
    constructor
    · intro t ht
      have hskip := not_skipped_of_at haccepted.tools hrep.tools t ht
      rwa [readTool_isSkipped, Bool.not_eq_false'] at hskip
    · exact forall_left hrep.tools fun t tool hat => allStrings_of_at hat.args
    · intro c hc
      have hskip := not_skipped_of_at haccepted.commands hrep.commands c hc
      rwa [readCommand_isSkipped, Bool.not_eq_false'] at hskip
    · simp only [List.forall_mem_cons, List.not_mem_nil, false_imp_iff, implies_true, and_true]
      exact ⟨allStrings_of_at hrep.preToolUse, allStrings_of_at hrep.postToolUse,
        allStrings_of_at hrep.postToolUseFailure⟩
    · simp only [List.forall_mem_cons, List.not_mem_nil, false_imp_iff, implies_true, and_true]
      exact ⟨allStrings_of_at hrep.init, allStrings_of_at hrep.shutdown⟩
  · intro hall
    have hpermissions := reads_of_not_skipped haccepted.permissions fun p _ =>
      readPermission_isSkipped p
    have htools := reads_of_not_skipped haccepted.tools fun t ht => by
      rw [readTool_isSkipped, hall.tools t ht, Bool.not_true]
    have hcommands := reads_of_not_skipped haccepted.commands fun c hc => by
      rw [readCommand_isSkipped, hall.commands c hc, Bool.not_true]
    have htools := (List.forall₂_and_left _ _).mpr ⟨hall.args, htools⟩
    constructor
    · exact hpermissions.imp fun _ _ => permissionAt_of_read
    · exact htools.imp fun t tool hread =>
        (toolAt_iff (readsAs_tool_iff.mp hread.2)).mpr hread.1
    · exact hcommands.imp fun _ _ hread => commandAt_of_read (readsAs_command_iff.mp hread)
    · rw [haccepted.hooks]
      exact (stringsOf_at_iff _).mpr (hall.hooks _ (by simp))
    · rw [haccepted.hooks]
      exact (stringsOf_at_iff _).mpr (hall.hooks _ (by simp))
    · rw [haccepted.hooks]
      exact (stringsOf_at_iff _).mpr (hall.hooks _ (by simp))
    · rw [haccepted.lifecycle]
      exact (stringsOf_at_iff _).mpr (hall.lifecycle _ (by simp))
    · rw [haccepted.lifecycle]
      exact (stringsOf_at_iff _).mpr (hall.lifecycle _ (by simp))

/-- A plugin whose hook list holds a number beside a guard. -/
def hookedManifest (guard : Json) : Json :=
  .ofMembers [("name", .str (js "demo")), ("version", .str (js "1.0")),
    ("description", .str (js "d")), ("hooks", .ofMembers [("PreToolUse", .arr [guard])])]

def hookedResult (hooks : List JsString) : PluginManifest where
  name := js "demo"
  version := js "1.0"
  description := js "d"
  permissions := []
  defaultEnabled := false
  hooks := ⟨hooks, [], []⟩
  lifecycle := ⟨[], []⟩
  tools := []
  commands := []

set_option maxRecDepth 4000 in
theorem validateManifest_hooked :
    validateManifest (hookedManifest (.str (js "guard"))) = .ok (hookedResult [js "guard"]) := by
  with_unfolding_all rfl

theorem represented_hooked :
    Represented (hookedManifest (.str (js "guard"))) (hookedResult [js "guard"]) ↔
      NothingToDrop (hookedManifest (.str (js "guard"))) :=
  represented_iff _ _ validateManifest_hooked

set_option maxRecDepth 4000 in
/-- An object in a hook list is dropped and the manifest accepted. -/
theorem not_represented_object :
    validateManifest (hookedManifest (.ofMembers [("command", .str (js "guard"))])) =
        .ok (hookedResult []) ∧
      ¬Represented (hookedManifest (.ofMembers [("command", .str (js "guard"))])) (hookedResult []) := by
  constructor
  · with_unfolding_all rfl
  · intro h
    have hlen := h.preToolUse.length_eq
    with_unfolding_all cases hlen

end Solarcido.Plugins
