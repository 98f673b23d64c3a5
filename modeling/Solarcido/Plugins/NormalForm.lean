import Solarcido.Plugins.Manifest

namespace Solarcido.Plugins

open Text Collector

variable {raw t c : Json} {name : JsString} {m : PluginManifest}

section fields

theorem mem_VALID_PERMISSIONS (p : PluginPermission) : p ∈ VALID_PERMISSIONS := by
  cases p <;> decide

theorem mem_VALID_TOOL_PERMISSIONS (p : PluginToolPermission) : p ∈ VALID_TOOL_PERMISSIONS := by
  cases p <;> decide

theorem toolPermissionOf_trim_name (p : PluginToolPermission) :
    toolPermissionOf (trim p.name) = some p := by
  cases p <;> decide

theorem name_of_permissionOf {value : JsString} {p : PluginPermission}
    (h : permissionOf value = some p) : p.name = value := by
  have hname := List.find?_some h
  rwa [beq_iff_eq] at hname

theorem stringsOf_map (texts : List JsString) : stringsOf (texts.map Json.str) = texts := by
  rw [stringsOf, List.filterMap_map]
  exact List.filterMap_some

theorem errorIf_eq_nil {condition : Bool} {error : ManifestValidationError} :
    errorIf condition error = [] ↔ condition = false := by
  cases condition <;> simp [errorIf]

theorem isBlank_textOrEmpty {value : Option Json} (h : isBlank value = false) :
    isBlank (some (.str (textOrEmpty value))) = false := by
  match value, h with
  | some (.str s), h => exact h

/-- A text that is written in a member's place is no more blank than the member. -/
theorem isBlank_copied {value copy : Option Json} {s : JsString} (h : isBlank value = false)
    (hs : s = textOrEmpty value) (hcopy : copy = some (.str s)) : isBlank copy = false := by
  rw [hcopy, hs]
  exact isBlank_textOrEmpty h

theorem isBlank_trimmedText {value : Option Json} (h : isBlank value = false) :
    isBlank (some (.str (trimmedText value))) = false := by
  match value, h with
  | some (.str s), h =>
    rw [isBlank] at h
    rw [trimmedText, isBlank, trim_trim, h]

theorem trim_trimmedText (value : Option Json) : trim (trimmedText value) = trimmedText value := by
  match value with
  | some (.str s) => exact trim_trim s
  | none | some .null | some (.bool _) | some (.num _) | some (.arr _) | some (.obj _) => rfl

end fields

section entries

theorem sound_permission : Sound readPermission PluginPermission.name := by
  intro p pStr item h
  rw [readPermission] at h
  split at h
  · cases h
  · cases hvalid : permissionOf (trimmedText (some p)) with
    | none =>
      rw [hvalid] at h
      cases h
    | some permission =>
      rw [hvalid] at h
      cases h
      exact ⟨permission, rfl, name_of_permissionOf hvalid⟩

theorem readPermission_name (p : PluginPermission) :
    ReadsAs readPermission PluginPermission.name (.str p.name) p := by
  cases p <;> rfl

/-- What a tool is read from without an error. -/
structure ToolRead (t : Json) (tool : PluginToolManifest) : Prop where
  object : t.isObject = true
  name : tool.name = trimmedText (t.member (js "name"))
  named : tool.name ≠ []
  description : isBlank (t.member (js "description")) = false
  command : isBlank (t.member (js "command")) = false
  inputSchema : (t.member (js "inputSchema")).any Json.isObject = true
  permission : toolPermissionOf (rawToolPermission (t.member (js "requiredPermission"))) =
    some tool.requiredPermission
  item : tool = toolOf t tool.name tool.requiredPermission

theorem toolErrors_eq_nil : toolErrors t name = [] ↔
    isBlank (t.member (js "description")) = false ∧ isBlank (t.member (js "command")) = false ∧
      (t.member (js "inputSchema")).any Json.isObject = true := by
  rw [toolErrors, List.append_eq_nil_iff, List.append_eq_nil_iff, errorIf_eq_nil, errorIf_eq_nil,
    errorIf_eq_nil, Bool.not_eq_false', and_assoc]

theorem readTool_entry {item : Option PluginToolManifest} (h : readTool t = .entry name [] item) :
    ∃ tool, item = some tool ∧ tool.name = name ∧ ToolRead t tool := by
  rw [readTool] at h
  split at h
  · next hobject =>
    dsimp only at h
    split at h
    · cases h
    · next hname =>
      cases hperm : toolPermissionOf (rawToolPermission (t.member (js "requiredPermission"))) with
      | none =>
        rw [hperm] at h
        simp at h
      | some permission =>
        rw [hperm] at h
        dsimp only at h
        obtain ⟨rfl, herrors, rfl⟩ := Reading.entry.inj h
        obtain ⟨hdescription, hcommand, hschema⟩ := toolErrors_eq_nil.mp herrors
        exact ⟨_, rfl, rfl, hobject, rfl, hname, hdescription, hcommand, hschema, hperm, rfl⟩
  · cases h

theorem sound_tool : Sound readTool PluginToolManifest.name :=
  sound_of_entry fun _ _ _ => readTool_entry

theorem readsAs_tool_iff {tool : PluginToolManifest} :
    ReadsAs readTool PluginToolManifest.name t tool ↔ ToolRead t tool := by
  constructor
  · exact read_of_readsAs fun _ _ _ => readTool_entry
  · intro h
    have herrors : toolErrors t tool.name = [] :=
      toolErrors_eq_nil.mpr ⟨h.description, h.command, h.inputSchema⟩
    rw [ReadsAs, readTool, if_pos h.object]
    dsimp only
    rw [← h.name, if_neg h.named, h.permission]
    dsimp only
    rw [herrors, ← h.item]

/-- A tool that was read is read back from its own value. -/
theorem toolRead_toJson {tool : PluginToolManifest} (h : ToolRead t tool) :
    ToolRead tool.toJson tool := by
  have hname : trim tool.name = tool.name := by
    rw [h.name]
    exact trim_trimmedText _
  have hdescription : tool.description = textOrEmpty (t.member (js "description")) :=
    congrArg PluginToolManifest.description h.item
  have hcommand : tool.command = textOrEmpty (t.member (js "command")) :=
    congrArg PluginToolManifest.command h.item
  have hmember : ∀ key, tool.toJson.member key = _ := fun key => Json.member_ofMembers key _
  constructor
  · rfl
  · simp +decide [hmember, trimmedText, hname]
  · exact h.named
  · exact isBlank_copied h.description hdescription (by simp +decide [hmember])
  · exact isBlank_copied h.command hcommand (by simp +decide [hmember])
  · simp +decide [hmember, Json.isObject]
  · simp +decide [hmember, rawToolPermission, toolPermissionOf_trim_name]
  · simp +decide [hmember, toolOf, textOrEmpty, membersOrEmpty, itemsOrEmpty, textItems,
      stringsOf_map]

/-- What a command is read from without an error. -/
structure CommandRead (c : Json) (entry : PluginCommandManifest) : Prop where
  object : c.isObject = true
  name : entry.name = trimmedText (c.member (js "name"))
  named : entry.name ≠ []
  description : isBlank (c.member (js "description")) = false
  command : isBlank (c.member (js "command")) = false
  item : entry = commandOf c entry.name

theorem commandErrors_eq_nil : commandErrors c name = [] ↔
    isBlank (c.member (js "description")) = false ∧ isBlank (c.member (js "command")) = false := by
  rw [commandErrors, List.append_eq_nil_iff, errorIf_eq_nil, errorIf_eq_nil]

theorem readCommand_entry {item : Option PluginCommandManifest}
    (h : readCommand c = .entry name [] item) :
    ∃ command, item = some command ∧ command.name = name ∧ CommandRead c command := by
  rw [readCommand] at h
  split at h
  · next hobject =>
    dsimp only at h
    split at h
    · cases h
    · next hname =>
      obtain ⟨rfl, herrors, rfl⟩ := Reading.entry.inj h
      obtain ⟨hdescription, hcommand⟩ := commandErrors_eq_nil.mp herrors
      exact ⟨_, rfl, rfl, hobject, rfl, hname, hdescription, hcommand, rfl⟩
  · cases h

theorem sound_command : Sound readCommand PluginCommandManifest.name :=
  sound_of_entry fun _ _ _ => readCommand_entry

theorem readsAs_command_iff {command : PluginCommandManifest} :
    ReadsAs readCommand PluginCommandManifest.name c command ↔ CommandRead c command := by
  constructor
  · exact read_of_readsAs fun _ _ _ => readCommand_entry
  · intro h
    have herrors : commandErrors c command.name = [] :=
      commandErrors_eq_nil.mpr ⟨h.description, h.command⟩
    rw [ReadsAs, readCommand, if_pos h.object]
    dsimp only
    rw [← h.name, if_neg h.named, herrors, ← h.item]

theorem commandRead_toJson {command : PluginCommandManifest} (h : CommandRead c command) :
    CommandRead command.toJson command := by
  have hname : trim command.name = command.name := by
    rw [h.name]
    exact trim_trimmedText _
  have hdescription : command.description = textOrEmpty (c.member (js "description")) :=
    congrArg PluginCommandManifest.description h.item
  have hcommand : command.command = textOrEmpty (c.member (js "command")) :=
    congrArg PluginCommandManifest.command h.item
  have hmember : ∀ key, command.toJson.member key = _ := fun key => Json.member_ofMembers key _
  constructor
  · rfl
  · simp +decide [hmember, trimmedText, hname]
  · exact h.named
  · exact isBlank_copied h.description hdescription (by simp +decide [hmember])
  · exact isBlank_copied h.command hcommand (by simp +decide [hmember])
  · simp +decide [hmember, commandOf, textOrEmpty]

end entries

section accepted

/-- The list that a loop collects from the elements under a key. -/
structure ListRead {α : Type} (read : Json → Reading ManifestValidationError JsString α)
    (nameOf : α → JsString) (raw : Json) (key : JsString) (items : List α) : Prop where
  reads : List.Forall₂ (ReadsAs read nameOf)
    ((rawItems (some raw) key).filter fun item => !(read item).isSkipped) items
  distinct : (items.map nameOf).Nodup

theorem collectAll_accepted_iff (raw : Json) {α : Type}
    {read : Json → Reading ManifestValidationError JsString α}
    {nameOf : α → JsString} (hsound : Sound read nameOf)
    (duplicate : JsString → ManifestValidationError) (key : JsString)
    (errors : List ManifestValidationError) (items : List α) :
    let collected := collectAll read duplicate ⟨errors, [], []⟩ (rawItems (some raw) key)
    collected.errors = [] ∧ collected.kept = items ↔
      errors = [] ∧ ListRead read nameOf raw key items := by
  intro collected
  constructor
  · rintro ⟨herrors, hkept⟩
    obtain ⟨hbefore, items', hreads, hnodup, -, hrun⟩ := collectAll_errors_nil hsound herrors
    have hitems : collected.kept = items' := congrArg Collected.kept hrun
    rw [← hkept, hitems]
    exact ⟨hbefore, hreads, hnodup⟩
  · rintro ⟨rfl, hreads, hnodup⟩
    have hrun : collected = _ := collectAll_of_reads hreads hnodup (by simp)
    rw [hrun]
    exact ⟨rfl, rfl⟩

/-- What a manifest is made from without an error. -/
structure Accepted (raw : Json) (m : PluginManifest) : Prop where
  object : raw.isObject = true
  fields : fieldErrors raw = []
  name : m.name = trimmedText (raw.member (js "name"))
  version : m.version = trimmedText (raw.member (js "version"))
  description : m.description = trimmedText (raw.member (js "description"))
  defaultEnabled : m.defaultEnabled = decide (Json.asBool (raw.member (js "defaultEnabled")) = some true)
  hooks : m.hooks = resolvedHooks (raw.member (js "hooks"))
  lifecycle : m.lifecycle = resolvedLifecycle (raw.member (js "lifecycle"))
  permissions : ListRead readPermission PluginPermission.name raw (js "permissions") m.permissions
  tools : ListRead readTool PluginToolManifest.name raw (js "tools") m.tools
  commands : ListRead readCommand PluginCommandManifest.name raw (js "commands") m.commands

theorem validateManifest_ok_iff : validateManifest raw = .ok m ↔ Accepted raw m := by
  have hpermissions := collectAll_accepted_iff raw sound_permission .duplicatePermission
    (js "permissions") (fieldErrors raw) m.permissions
  have htools := collectAll_accepted_iff raw sound_tool (.duplicateEntry (js "tool"))
    (js "tools") (collectPermissions (fieldErrors raw) raw).errors m.tools
  have hcommands := collectAll_accepted_iff raw sound_command (.duplicateEntry (js "command"))
    (js "commands") (collectTools (collectPermissions (fieldErrors raw) raw).errors raw).errors
    m.commands
  rw [validateManifest]
  constructor
  · intro h
    split at h
    · next hobject =>
      dsimp only at h
      split at h
      · next herrors =>
        cases h
        obtain ⟨herrors, hcommands⟩ := hcommands.mp ⟨herrors, rfl⟩
        obtain ⟨herrors, htools⟩ := htools.mp ⟨herrors, rfl⟩
        obtain ⟨herrors, hpermissions⟩ := hpermissions.mp ⟨herrors, rfl⟩
        exact ⟨hobject, herrors, rfl, rfl, rfl, rfl, rfl, rfl, hpermissions, htools, hcommands⟩
      · cases h
    · cases h
  · intro h
    obtain ⟨herrors, hpkept⟩ := hpermissions.mpr ⟨h.fields, h.permissions⟩
    obtain ⟨herrors, htkept⟩ := htools.mpr ⟨herrors, h.tools⟩
    obtain ⟨herrors, hckept⟩ := hcommands.mpr ⟨herrors, h.commands⟩
    have hnone : (collectCommands (collectTools (collectPermissions (fieldErrors raw) raw).errors
        raw).errors raw).errors = [] := herrors
    rw [if_pos h.object]
    dsimp only
    rw [if_pos hnone]
    apply congrArg Except.ok
    apply PluginManifest.ext
    · exact h.name.symm
    · exact h.version.symm
    · exact h.description.symm
    · exact hpkept
    · exact h.defaultEnabled.symm
    · exact h.hooks.symm
    · exact h.lifecycle.symm
    · exact htkept
    · exact hckept

end accepted

section again

theorem fieldErrors_eq_nil_iff : fieldErrors raw = [] ↔
    isBlank (raw.member (js "name")) = false ∧ isBlank (raw.member (js "version")) = false ∧
      isBlank (raw.member (js "description")) = false := by
  simp only [fieldErrors, List.flatMap_eq_nil_iff, List.forall_mem_cons, errorIf_eq_nil]
  simp

theorem resolvedHooks_toJson (hooks : PluginHooks) : resolvedHooks (some hooks.toJson) = hooks := by
  have hmember : ∀ key, hooks.toJson.member key = _ := fun key => Json.member_ofMembers key _
  simp +decide [resolvedHooks, rawItems, hmember, textItems, itemsOrEmpty, stringsOf_map]

theorem resolvedLifecycle_toJson (lifecycle : PluginLifecycle) :
    resolvedLifecycle (some lifecycle.toJson) = lifecycle := by
  have hmember : ∀ key, lifecycle.toJson.member key = _ := fun key => Json.member_ofMembers key _
  simp +decide [resolvedLifecycle, rawItems, hmember, textItems, itemsOrEmpty, stringsOf_map]

/-- A list that was read is read back from the values of its items. -/
theorem listRead_map {α : Type} {read : Json → Reading ManifestValidationError JsString α}
    {nameOf : α → JsString} {key key' : JsString} {items : List α} {value : Json}
    (write : α → Json) (h : ListRead read nameOf raw key items)
    (hwrite : ∀ raw a, ReadsAs read nameOf raw a → ReadsAs read nameOf (write a) a)
    (hvalue : value.member key' = some (.arr (items.map write))) :
    ListRead read nameOf value key' items := by
  have hitems : rawItems (some value) key' = items.map write := by
    rw [rawItems, Option.bind_some, hvalue]
    rfl
  constructor
  · rw [hitems]
    exact reads_map h.reads hwrite
  · exact h.distinct

theorem accepted_toJson (h : Accepted raw m) : Accepted m.toJson m := by
  have hmember : ∀ key, m.toJson.member key = _ := fun key => Json.member_ofMembers key _
  obtain ⟨hname, hversion, hdescription⟩ := fieldErrors_eq_nil_iff.mp h.fields
  constructor
  · rfl
  · rw [fieldErrors_eq_nil_iff]
    refine ⟨?_, ?_, ?_⟩
    · have hblank := isBlank_trimmedText hname
      rw [← h.name] at hblank
      simpa +decide [hmember] using hblank
    · have hblank := isBlank_trimmedText hversion
      rw [← h.version] at hblank
      simpa +decide [hmember] using hblank
    · have hblank := isBlank_trimmedText hdescription
      rw [← h.description] at hblank
      simpa +decide [hmember] using hblank
  · have htrim := trim_trimmedText (raw.member (js "name"))
    rw [← h.name] at htrim
    simp +decide [hmember, trimmedText, htrim]
  · have htrim := trim_trimmedText (raw.member (js "version"))
    rw [← h.version] at htrim
    simp +decide [hmember, trimmedText, htrim]
  · have htrim := trim_trimmedText (raw.member (js "description"))
    rw [← h.description] at htrim
    simp +decide [hmember, trimmedText, htrim]
  · simp +decide [hmember, Json.asBool]
  · have hhooks := resolvedHooks_toJson m.hooks
    simp +decide [hmember, hhooks]
  · have hlifecycle := resolvedLifecycle_toJson m.lifecycle
    simp +decide [hmember, hlifecycle]
  · apply listRead_map (fun p => .str p.name) h.permissions
    · exact fun _ p _ => readPermission_name p
    · simp +decide [hmember, textItems]
  · apply listRead_map PluginToolManifest.toJson h.tools
    · exact fun _ _ hread => readsAs_tool_iff.mpr (toolRead_toJson (readsAs_tool_iff.mp hread))
    · simp +decide [hmember]
  · apply listRead_map PluginCommandManifest.toJson h.commands
    · exact fun _ _ hread =>
        readsAs_command_iff.mpr (commandRead_toJson (readsAs_command_iff.mp hread))
    · simp +decide [hmember]

/-- Tools and commands have distinct names that are not empty, and the permissions are known. -/
structure NormalForm (m : PluginManifest) : Prop where
  tools_named : ∀ tool ∈ m.tools, tool.name ≠ []
  tools_distinct : (m.tools.map PluginToolManifest.name).Nodup
  commands_named : ∀ command ∈ m.commands, command.name ≠ []
  commands_distinct : (m.commands.map PluginCommandManifest.name).Nodup
  permissions_known : ∀ p ∈ m.permissions, p ∈ VALID_PERMISSIONS
  tools_permitted : ∀ tool ∈ m.tools, tool.requiredPermission ∈ VALID_TOOL_PERMISSIONS

theorem Accepted.normalForm (h : Accepted raw m) : NormalForm m where
  tools_named :=
    forall_left h.tools.reads.flip fun _ _ hread => (readsAs_tool_iff.mp hread).named
  tools_distinct := h.tools.distinct
  commands_named :=
    forall_left h.commands.reads.flip fun _ _ hread => (readsAs_command_iff.mp hread).named
  commands_distinct := h.commands.distinct
  permissions_known p _ := mem_VALID_PERMISSIONS p
  tools_permitted tool _ := mem_VALID_TOOL_PERMISSIONS tool.requiredPermission

/-- An accepted manifest is accepted again, as it is. -/
theorem validateManifest_idempotent (raw : Json) (m : PluginManifest)
    (h : validateManifest raw = .ok m) : validateManifest m.toJson = .ok m ∧ NormalForm m := by
  have haccepted := validateManifest_ok_iff.mp h
  exact ⟨validateManifest_ok_iff.mpr (accepted_toJson haccepted), haccepted.normalForm⟩

/-- A manifest with blanks around its name and one command. -/
def spacedManifest : Json :=
  .ofMembers [("name", .str (js " demo ")), ("version", .str (js "1.0")),
    ("description", .str (js "d")),
    ("commands", .arr [.ofMembers [("name", .str (js " run ")), ("description", .str (js "r")),
      ("command", .str (js "x"))]])]

def trimmedManifest : PluginManifest where
  name := js "demo"
  version := js "1.0"
  description := js "d"
  permissions := []
  defaultEnabled := false
  hooks := ⟨[], [], []⟩
  lifecycle := ⟨[], []⟩
  tools := []
  commands := [⟨js "run", js "r", js "x"⟩]

set_option maxRecDepth 4000 in
theorem validateManifest_spacedManifest :
    validateManifest spacedManifest = .ok trimmedManifest := by
  with_unfolding_all rfl

theorem validateManifest_spaced : validateManifest trimmedManifest.toJson = .ok trimmedManifest ∧
    NormalForm trimmedManifest :=
  validateManifest_idempotent spacedManifest trimmedManifest validateManifest_spacedManifest

end again

end Solarcido.Plugins
