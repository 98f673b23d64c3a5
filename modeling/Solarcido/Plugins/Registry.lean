import Mathlib.Data.List.Pairwise
import Solarcido.Lib.InsertionMap
import Solarcido.Lib.Serial
import Solarcido.Plugins.NormalForm

namespace Solarcido.Plugins

open Text

inductive PluginKind where
  | builtin
  | bundled
  | external
  deriving DecidableEq

def PluginKind.kind : PluginKind → JsString
  | .builtin => js "builtin"
  | .bundled => js "bundled"
  | .external => js "external"

structure PluginMetadata where
  id : JsString
  name : JsString
  version : JsString
  description : JsString
  kind : PluginKind
  source : JsString
  defaultEnabled : Bool

structure PluginEntry where
  metadata : PluginMetadata
  manifest : PluginManifest
  enabled : Bool

structure PluginTool where
  pluginId : JsString
  pluginName : JsString
  name : JsString
  description : JsString
  inputSchema : List (JsString × Json)
  command : JsString
  args : List JsString
  requiredPermission : PluginToolPermission

def pluginId (name marketplace : JsString) : JsString := marketplace ++ js ":" ++ name

/-- External plugins are disabled until they are enabled. -/
def defaultEnabled (kind : PluginKind) (manifestDefault : Bool) : Bool :=
  if kind = .external then false else manifestDefault

/-- The registered plugins by their ids, in the order in which they were registered. -/
abbrev PluginRegistry := InsertionMap JsString PluginEntry

def idOf (manifest : PluginManifest) (kind : PluginKind) : JsString :=
  pluginId manifest.name kind.kind

def entryOf (manifest : PluginManifest) (kind : PluginKind) (source : JsString) : PluginEntry where
  metadata := ⟨idOf manifest kind, manifest.name, manifest.version, manifest.description, kind,
    source, manifest.defaultEnabled⟩
  manifest := manifest
  enabled := defaultEnabled kind manifest.defaultEnabled

def alreadyRegistered (id : JsString) : JsString :=
  js "plugin `" ++ id ++ js "` is already registered"

def notRegistered (id : JsString) : JsString := js "plugin `" ++ id ++ js "` is not registered"

def definedTwice (tool first second : JsString) : JsString :=
  js "plugin tool `" ++ tool ++ js "` is defined by both `" ++ first ++ js "` and `" ++ second ++
    js "`"

/-- What is done with a registry. -/
inductive RegistryOp where
  | register (manifest : PluginManifest) (kind : PluginKind) (source : JsString)
  | enable (id : JsString)
  | disable (id : JsString)

namespace PluginRegistry

def register (manifest : PluginManifest) (kind : PluginKind) (source : JsString)
    (registry : PluginRegistry) : Except JsString PluginRegistry :=
  match registry.get (idOf manifest kind) with
  | some _ => .error (alreadyRegistered (idOf manifest kind))
  | none => .ok (registry.set (idOf manifest kind) (entryOf manifest kind source))

/-- `enable` and `disable`. -/
def setEnabled (enabled : Bool) (id : JsString) (registry : PluginRegistry) :
    Except JsString PluginRegistry :=
  match registry.get id with
  | none => .error (notRegistered id)
  | some entry => .ok (registry.set id { entry with enabled := enabled })

def perform (registry : PluginRegistry) : RegistryOp → Except JsString PluginRegistry
  | .register manifest kind source => registry.register manifest kind source
  | .enable id => registry.setEnabled true id
  | .disable id => registry.setEnabled false id

/-- An operation that throws leaves the registry as it is. -/
def step (registry : PluginRegistry) (op : RegistryOp) : PluginRegistry :=
  match registry.perform op with
  | .ok registry' => registry'
  | .error _ => registry

def after (ops : List RegistryOp) : PluginRegistry := Serial.runAll step .empty ops

def listEnabled (registry : PluginRegistry) : List PluginEntry :=
  registry.values.filter PluginEntry.enabled

def pushHooks (result : PluginHooks) (entry : PluginEntry) : PluginHooks where
  PreToolUse := result.PreToolUse ++ entry.manifest.hooks.PreToolUse
  PostToolUse := result.PostToolUse ++ entry.manifest.hooks.PostToolUse
  PostToolUseFailure := result.PostToolUseFailure ++ entry.manifest.hooks.PostToolUseFailure

def aggregatedHooks (registry : PluginRegistry) : PluginHooks :=
  registry.listEnabled.foldl pushHooks ⟨[], [], []⟩

/-- The tools that have been collected, and the plugin that each name was first seen in. -/
structure Tools where
  seen : InsertionMap JsString JsString
  tools : List PluginTool

def pluginTool (entry : PluginEntry) (t : PluginToolManifest) : PluginTool where
  pluginId := entry.metadata.id
  pluginName := entry.metadata.name
  name := t.name
  description := t.description
  inputSchema := t.inputSchema
  command := t.command
  args := t.args
  requiredPermission := t.requiredPermission

def addTool (entry : PluginEntry) (collected : Tools) (t : PluginToolManifest) :
    Except JsString Tools :=
  match collected.seen.get t.name with
  | some existing => .error (definedTwice t.name existing entry.metadata.id)
  | none => .ok ⟨collected.seen.set t.name entry.metadata.id,
      collected.tools ++ [pluginTool entry t]⟩

def addTools (collected : Tools) (entry : PluginEntry) : Except JsString Tools :=
  entry.manifest.tools.foldlM (addTool entry) collected

def aggregatedTools (registry : PluginRegistry) : Except JsString (List PluginTool) :=
  (registry.listEnabled.foldlM addTools ⟨.empty, []⟩).map Tools.tools

end PluginRegistry

/-- An item of a manifest source; its own `defaultEnabled` is not looked at. -/
structure ManifestItem where
  manifest : PluginManifest
  kind : PluginKind
  source : JsString
  defaultEnabled : Option Bool

def ManifestItem.id (item : ManifestItem) : JsString := idOf item.manifest item.kind

def ManifestItem.op (item : ManifestItem) : RegistryOp :=
  .register item.manifest item.kind item.source

/-- What `load` has come to. -/
structure Loading where
  registry : PluginRegistry
  loaded : Nat
  errors : List (JsString × JsString)

namespace PluginManager

def loadItem (loading : Loading) (item : ManifestItem) : Loading :=
  match loading.registry.register item.manifest item.kind item.source with
  | .ok registry => { loading with registry := registry, loaded := loading.loaded + 1 }
  | .error error => { loading with errors := loading.errors ++ [(item.id, error)] }

def load (items : List ManifestItem) (registry : PluginRegistry) : Loading :=
  items.foldl loadItem ⟨registry, 0, []⟩

end PluginManager

section history

/-- The plugin that an operation registers under an id. -/
def registration (id : JsString) : RegistryOp → Option PluginEntry
  | .register manifest kind source =>
    if idOf manifest kind = id then some (entryOf manifest kind source) else none
  | _ => none

def registeredId : RegistryOp → Option JsString
  | .register manifest kind _ => some (idOf manifest kind)
  | _ => none

/-- Whether an operation enables or disables an id. -/
def switch (id : JsString) : RegistryOp → Option Bool
  | .enable id' => if id' = id then some true else none
  | .disable id' => if id' = id then some false else none
  | _ => none

/-- What the operations make of an id: the plugin of its first registration, as the last operation
that switches it after that leaves it. -/
def entryAfter (id : JsString) : List RegistryOp → Option PluginEntry
  | [] => none
  | op :: rest =>
    match registration id op with
    | none => entryAfter id rest
    | some entry =>
      some { entry with enabled := (rest.filterMap (switch id)).getLast?.getD entry.enabled }

def switched (id : JsString) (op : RegistryOp) (entry : PluginEntry) : PluginEntry :=
  { entry with enabled := (switch id op).getD entry.enabled }

theorem entryAfter_snoc (id : JsString) (ops : List RegistryOp) (op : RegistryOp) :
    entryAfter id (ops ++ [op]) =
      ((entryAfter id ops).map (switched id op)).or (registration id op) := by
  induction ops with
  | nil =>
    simp only [List.nil_append, entryAfter]
    cases registration id op with
    | none => rfl
    | some entry => rfl
  | cons first rest ih =>
    rw [List.cons_append, entryAfter, entryAfter]
    cases registration id first with
    | none => exact ih
    | some entry =>
      rw [List.filterMap_append]
      cases hswitch : switch id op with
      | none => simp [switched, hswitch]
      | some enabled => simp [switched, hswitch]

namespace PluginRegistry

theorem get_set (registry : PluginRegistry) (id id' : JsString) (entry : PluginEntry) :
    InsertionMap.get (registry.set id' entry) id =
      if id' = id then some entry else registry.get id := by
  split
  · next h =>
    rw [h, InsertionMap.get_set_self]
  · next h => exact InsertionMap.get_set_of_ne registry id' id entry (Ne.symm h)

theorem step_setEnabled (registry : PluginRegistry) (op : RegistryOp) (enabled : Bool)
    (target : JsString) (hop : registry.perform op = registry.setEnabled enabled target)
    (hswitch : ∀ id, switch id op = if target = id then some enabled else none)
    (hnone : ∀ id, registration id op = none) (id : JsString) :
    InsertionMap.get (registry.step op) id =
      ((registry.get id).map (switched id op)).or (registration id op) := by
  rw [step, hop, setEnabled, hnone, Option.or_none]
  cases htarget : registry.get target with
  | none =>
    by_cases hid : target = id
    · rw [← hid, htarget]
      rfl
    · cases registry.get id with
      | none => rfl
      | some entry => simp [switched, hswitch, hid]
  | some entry =>
    simp only
    rw [get_set]
    by_cases hid : target = id
    · rw [if_pos hid, ← hid, htarget]
      simp [switched, hswitch]
    · rw [if_neg hid]
      cases registry.get id with
      | none => rfl
      | some other => simp [switched, hswitch, hid]

/-- What one operation does to an id. -/
theorem step_get (registry : PluginRegistry) (op : RegistryOp) (id : JsString) :
    InsertionMap.get (registry.step op) id =
      ((registry.get id).map (switched id op)).or (registration id op) := by
  cases op with
  | register manifest kind source =>
    rw [step, perform, register, registration]
    cases hfound : registry.get (idOf manifest kind) with
    | some entry =>
      by_cases hid : idOf manifest kind = id
      · rw [← hid, hfound]
        rfl
      · rw [if_neg hid, Option.or_none]
        cases registry.get id with
        | none => rfl
        | some other => rfl
    | none =>
      simp only
      rw [get_set]
      by_cases hid : idOf manifest kind = id
      · rw [if_pos hid, if_pos hid, ← hid, hfound]
        rfl
      · rw [if_neg hid, if_neg hid, Option.or_none]
        cases registry.get id with
        | none => rfl
        | some other => rfl
  | enable target =>
    exact step_setEnabled registry _ true target rfl (fun _ => rfl) (fun _ => rfl) id
  | disable target =>
    exact step_setEnabled registry _ false target rfl (fun _ => rfl) (fun _ => rfl) id

theorem after_get (ops : List RegistryOp) (id : JsString) :
    InsertionMap.get (after ops) id = entryAfter id ops := by
  induction ops using List.reverseRecOn with
  | nil => rfl
  | append_singleton ops op ih =>
    rw [after, Serial.runAll_snoc, step_get, ← after, ih, entryAfter_snoc]

theorem keys_set_of_mem {registry : PluginRegistry} {id : JsString} (h : id ∈ registry.keys)
    (entry : PluginEntry) : InsertionMap.keys (registry.set id entry) = registry.keys :=
  (InsertionMap.keys_setEntries id entry registry.entries).trans (if_pos h)

theorem keys_set_of_not_mem {registry : PluginRegistry} {id : JsString} (h : id ∉ registry.keys)
    (entry : PluginEntry) : InsertionMap.keys (registry.set id entry) = registry.keys ++ [id] :=
  (InsertionMap.keys_setEntries id entry registry.entries).trans (if_neg h)

theorem mem_keys_iff (registry : PluginRegistry) (id : JsString) :
    id ∈ registry.keys ↔ (registry.get id).isSome := by
  constructor
  · intro h
    obtain ⟨⟨id', entry⟩, hmem, rfl⟩ := List.mem_map.mp h
    rw [InsertionMap.get_of_mem hmem]
    rfl
  · intro h
    obtain ⟨entry, hentry⟩ := Option.isSome_iff_exists.mp h
    exact List.mem_map.mpr ⟨_, InsertionMap.mem_of_get hentry, rfl⟩

theorem setEnabled_keys (registry : PluginRegistry) (op : RegistryOp) (enabled : Bool)
    (target : JsString) (hop : registry.perform op = registry.setEnabled enabled target) :
    (registry.step op).keys = registry.keys := by
  rw [step, hop, setEnabled]
  cases htarget : registry.get target with
  | none => rfl
  | some entry =>
    have hmem : target ∈ registry.keys := (mem_keys_iff registry target).mpr (by rw [htarget]; rfl)
    exact keys_set_of_mem hmem _

theorem step_keys (registry : PluginRegistry) (op : RegistryOp) :
    (registry.step op).keys =
      registry.keys ++ ((registeredId op).toList.removeAll registry.keys) := by
  cases op with
  | register manifest kind source =>
    have hsingle :
        (registeredId (.register manifest kind source)).toList = [idOf manifest kind] := rfl
    rw [hsingle, step, perform, register]
    cases hfound : registry.get (idOf manifest kind) with
    | some entry =>
      have hmem : idOf manifest kind ∈ registry.keys :=
        (mem_keys_iff registry _).mpr (by rw [hfound]; rfl)
      simp [List.removeAll, hmem]
    | none =>
      have hnot : idOf manifest kind ∉ registry.keys := by
        rw [mem_keys_iff, hfound]
        simp
      simp only
      rw [keys_set_of_not_mem hnot]
      simp [List.removeAll, hnot]
  | enable target =>
    rw [setEnabled_keys registry _ true target rfl]
    exact (List.append_nil _).symm
  | disable target =>
    rw [setEnabled_keys registry _ false target rfl]
    exact (List.append_nil _).symm

theorem eraseDups_of_nodup {ids : List JsString} (h : ids.Nodup) : ids.eraseDups = ids := by
  induction ids with
  | nil => rfl
  | cons id ids ih =>
    obtain ⟨hid, hids⟩ := List.nodup_cons.mp h
    have hsame : (ids.filter fun other => !other == id) = ids := by
      apply List.filter_eq_self.mpr
      intro other hother
      have hne : other ≠ id := fun heq => hid (heq ▸ hother)
      simpa using hne
    rw [List.eraseDups_cons, hsame, ih hids]

/-- New ids stand behind the others, in the order of their first registrations. -/
theorem runAll_keys (registry : PluginRegistry) (ops : List RegistryOp) :
    (Serial.runAll step registry ops).keys =
      (registry.keys ++ ops.filterMap registeredId).eraseDups := by
  induction ops using List.reverseRecOn with
  | nil =>
    rw [List.filterMap_nil, List.append_nil]
    exact (eraseDups_of_nodup registry.nodup).symm
  | append_singleton ops op ih =>
    rw [Serial.runAll_snoc, step_keys, ih, List.filterMap_append, ← List.append_assoc]
    generalize registry.keys ++ ops.filterMap registeredId = ids
    rw [List.eraseDups_append]
    cases hop : registeredId op with
    | none => simp [hop, List.removeAll]
    | some id =>
      by_cases hmem : id ∈ ids
      · simp [hop, List.removeAll, hmem]
      · simp [hop, List.removeAll, hmem, List.eraseDups_cons]

theorem after_keys (ops : List RegistryOp) :
    (after ops).keys = (ops.filterMap registeredId).eraseDups := runAll_keys .empty ops

/-- The values stand in the order of their keys. -/
theorem values_eq (registry : PluginRegistry) :
    registry.values = registry.keys.filterMap registry.get := by
  rw [InsertionMap.values, InsertionMap.keys, List.filterMap_map, ← List.filterMap_eq_map]
  apply List.filterMap_congr
  intro e he
  exact (InsertionMap.get_of_mem he).symm

theorem foldl_pushHooks (entries : List PluginEntry) (start : PluginHooks) :
    entries.foldl pushHooks start =
      ⟨start.PreToolUse ++ entries.flatMap fun e => e.manifest.hooks.PreToolUse,
        start.PostToolUse ++ entries.flatMap fun e => e.manifest.hooks.PostToolUse,
        start.PostToolUseFailure ++
          entries.flatMap fun e => e.manifest.hooks.PostToolUseFailure⟩ := by
  induction entries generalizing start with
  | nil => simp
  | cons e entries ih =>
    rw [List.foldl_cons, ih]
    simp [pushHooks]

end PluginRegistry

end history

open PluginRegistry

section aggregation

/-- After any operations, refused ones among them, the plugins are the first ones registered under
their ids, in the order of these registrations, each as the last operation that switched it left
it; and the hooks are those of the enabled ones, in that order. -/
theorem registry_after (ops : List RegistryOp) :
    let ids := (ops.filterMap registeredId).eraseDups
    let enabled := (ids.filterMap fun id => entryAfter id ops).filter PluginEntry.enabled
    (after ops).keys = ids ∧ (∀ id, InsertionMap.get (after ops) id = entryAfter id ops) ∧
      (after ops).listEnabled = enabled ∧
      (after ops).aggregatedHooks =
        ⟨enabled.flatMap fun e => e.manifest.hooks.PreToolUse,
          enabled.flatMap fun e => e.manifest.hooks.PostToolUse,
          enabled.flatMap fun e => e.manifest.hooks.PostToolUseFailure⟩ := by
  intro ids enabled
  have henabled : (after ops).listEnabled = enabled := by
    rw [listEnabled, values_eq, after_keys]
    congr 1
    apply List.filterMap_congr
    intro id _
    exact after_get ops id
  refine ⟨after_keys ops, after_get ops, henabled, ?_⟩
  rw [aggregatedHooks, foldl_pushHooks, henabled]
  rfl

/-- A tool and the plugin that offers it. -/
abbrev Offer := PluginEntry × PluginToolManifest

def offers (entries : List PluginEntry) : List Offer :=
  entries.flatMap fun entry => entry.manifest.tools.map fun t => (entry, t)

def toolName (offer : Offer) : JsString := offer.2.name

def add (collected : Tools) (offer : Offer) : Except JsString Tools :=
  addTool offer.1 collected offer.2

theorem foldlM_addTools (entries : List PluginEntry) (collected : Tools) :
    entries.foldlM addTools collected = (offers entries).foldlM add collected := by
  induction entries generalizing collected with
  | nil => rfl
  | cons entry entries ih =>
    have hentry (tools : List PluginToolManifest) (collected : Tools) :
        (tools.map fun t => (entry, t)).foldlM add collected =
          tools.foldlM (addTool entry) collected := by
      induction tools generalizing collected with
      | nil => rfl
      | cons t tools iht =>
        rw [List.map_cons, List.foldlM_cons, List.foldlM_cons]
        exact bind_congr fun next => iht next
    rw [List.foldlM_cons, offers, List.flatMap_cons, List.foldlM_append, hentry]
    exact bind_congr fun next => ih next

/-- What has been seen is the tools of the offers that were added, each under its plugin. -/
structure Adds (added : List Offer) (collected : Tools) : Prop where
  tools : collected.tools = added.map fun offer => pluginTool offer.1 offer.2
  seen : ∀ name id, collected.seen.get name = some id ↔
    ∃ offer ∈ added, toolName offer = name ∧ offer.1.metadata.id = id
  distinct : (added.map toolName).Nodup

theorem adds_nil : Adds [] ⟨.empty, []⟩ := by
  refine ⟨rfl, ?_, List.nodup_nil⟩
  intro name id
  simp

theorem Adds.add_ok {added : List Offer} {collected next : Tools} {offer : Offer}
    (h : Adds added collected) (hadd : add collected offer = .ok next) :
    Adds (added ++ [offer]) next := by
  rw [add, addTool] at hadd
  cases hseen : collected.seen.get offer.2.name with
  | some existing =>
    rw [hseen] at hadd
    cases hadd
  | none =>
    rw [hseen] at hadd
    cases hadd
    have hnew : toolName offer ∉ added.map toolName := by
      intro hmem
      obtain ⟨earlier, hearlier, hname⟩ := List.mem_map.mp hmem
      have hsome := (h.seen _ _).mpr ⟨earlier, hearlier, hname, rfl⟩
      rw [toolName, hseen] at hsome
      cases hsome
    refine ⟨?_, ?_, ?_⟩
    · rw [h.tools, List.map_append]
      rfl
    · intro name id
      simp only [List.mem_append, List.mem_singleton, or_and_right, exists_or, exists_eq_left]
      by_cases hname : name = offer.2.name
      · subst hname
        rw [InsertionMap.get_set_self, Option.some_inj]
        constructor
        · intro hid
          exact Or.inr ⟨rfl, hid⟩
        · rintro (⟨earlier, hearlier, hname, -⟩ | ⟨-, hid⟩)
          · exact absurd (List.mem_map.mpr ⟨earlier, hearlier, hname⟩) hnew
          · exact hid
      · rw [InsertionMap.get_set_of_ne _ _ _ _ hname, h.seen]
        constructor
        · exact Or.inl
        · rintro (hbefore | ⟨hsame, -⟩)
          · exact hbefore
          · exact absurd hsame.symm hname
    · rw [List.map_append, List.map_singleton]
      refine List.nodup_append.mpr ⟨h.distinct, List.nodup_singleton _, ?_⟩
      intro name hmem name' hname' heq
      obtain rfl := List.mem_singleton.mp hname'
      exact hnew (heq ▸ hmem)

theorem Adds.add_error {added : List Offer} {collected : Tools} {offer : Offer} {error : JsString}
    (h : Adds added collected) (hadd : add collected offer = .error error) :
    ∃ first ∈ added, toolName first = toolName offer ∧
      error = definedTwice (toolName offer) first.1.metadata.id offer.1.metadata.id := by
  rw [add, addTool] at hadd
  cases hseen : collected.seen.get offer.2.name with
  | none =>
    rw [hseen] at hadd
    cases hadd
  | some existing =>
    rw [hseen] at hadd
    obtain ⟨first, hfirst, hname, rfl⟩ := (h.seen _ _).mp hseen
    exact ⟨first, hfirst, hname, (Except.error.inj hadd).symm⟩

/-- The first offer of a name that was offered before, with what is said of it. -/
def Clashes (offers : List Offer) (error : JsString) : Prop :=
  ∃ before offer rest, offers = before ++ offer :: rest ∧ (before.map toolName).Nodup ∧
    ∃ first ∈ before, toolName first = toolName offer ∧
      error = definedTwice (toolName offer) first.1.metadata.id offer.1.metadata.id

/-- The tools of all offers are collected, or the first clash is reported. -/
theorem foldlM_add {added : List Offer} {collected : Tools} (h : Adds added collected)
    (rest : List Offer) :
    (∃ last, rest.foldlM add collected = .ok last ∧ Adds (added ++ rest) last) ∨
      ∃ error, rest.foldlM add collected = .error error ∧ Clashes (added ++ rest) error := by
  induction rest generalizing added collected with
  | nil =>
    rw [List.append_nil]
    exact Or.inl ⟨collected, rfl, h⟩
  | cons offer rest ih =>
    cases hadd : add collected offer with
    | ok next =>
      have hrest := ih (h.add_ok hadd)
      rw [List.append_assoc, List.singleton_append] at hrest
      rw [List.foldlM_cons, hadd]
      exact hrest
    | error error =>
      refine Or.inr ⟨error, ?_, added, offer, rest, rfl, h.distinct, h.add_error hadd⟩
      rw [List.foldlM_cons, hadd]
      rfl

theorem Clashes.not_nodup {offers : List Offer} {error : JsString} (h : Clashes offers error) :
    ¬ (offers.map toolName).Nodup := by
  obtain ⟨before, offer, rest, rfl, -, first, hfirst, hname, -⟩ := h
  rw [List.map_append, List.map_cons]
  intro hnodup
  have hdisjoint := (List.nodup_append.mp hnodup).2.2
  exact hdisjoint _ (List.mem_map.mpr ⟨first, hfirst, hname⟩) _ List.mem_cons_self rfl

/-- The tools of the enabled plugins, in their order, if no two have one name; else the first clash
is what the error names. -/
theorem aggregatedTools_cases (registry : PluginRegistry) :
    ((offers registry.listEnabled).map toolName).Nodup ∧ registry.aggregatedTools =
        .ok ((offers registry.listEnabled).map fun offer => pluginTool offer.1 offer.2) ∨
      ∃ error, registry.aggregatedTools = .error error ∧
        Clashes (offers registry.listEnabled) error := by
  rw [aggregatedTools, foldlM_addTools]
  obtain ⟨last, hlast, hadds⟩ | ⟨error, herror, hclash⟩ :=
    foldlM_add adds_nil (offers registry.listEnabled)
  · refine Or.inl ⟨hadds.distinct, ?_⟩
    rw [hlast, ← List.nil_append (offers _), ← hadds.tools]
    rfl
  · refine Or.inr ⟨error, ?_, hclash⟩
    rw [herror]
    rfl

theorem entryAfter_id {id : JsString} {ops : List RegistryOp} {entry : PluginEntry}
    (h : entryAfter id ops = some entry) : entry.metadata.id = id ∧
      ∃ kind source, .register entry.manifest kind source ∈ ops := by
  induction ops with
  | nil => cases h
  | cons op rest ih =>
    rw [entryAfter] at h
    cases hop : registration id op with
    | none =>
      rw [hop] at h
      obtain ⟨hid, kind, source, hmem⟩ := ih h
      exact ⟨hid, kind, source, List.mem_cons_of_mem _ hmem⟩
    | some first =>
      rw [hop] at h
      obtain rfl := Option.some.inj h
      cases op with
      | register manifest kind source =>
        rw [registration] at hop
        split at hop
        · next hid =>
          obtain rfl := Option.some.inj hop
          exact ⟨hid, kind, source, List.mem_cons_self⟩
        · cases hop
      | enable target => cases hop
      | disable target => cases hop

theorem enabled_of_mem {ops : List RegistryOp} {entry : PluginEntry}
    (h : entry ∈ (after ops).listEnabled) : ∃ id, entryAfter id ops = some entry := by
  obtain ⟨⟨id, entry'⟩, hmem, rfl⟩ := List.mem_map.mp (List.mem_filter.mp h).1
  exact ⟨id, (after_get ops id).symm.trans (InsertionMap.get_of_mem hmem)⟩

/-- The enabled plugins have distinct ids. -/
theorem enabled_distinct (ops : List RegistryOp) :
    ((after ops).listEnabled.map fun entry => entry.metadata.id).Nodup := by
  have hids : (after ops).values.map (fun entry => entry.metadata.id) = (after ops).keys := by
    rw [InsertionMap.values, InsertionMap.keys, List.map_map]
    apply List.map_congr_left
    intro e he
    have hget := (after_get ops e.1).symm.trans (InsertionMap.get_of_mem he)
    exact (entryAfter_id hget).1
  refine List.Nodup.sublist (List.filter_sublist.map _) ?_
  rw [hids]
  exact (after ops).nodup

/-- With validated manifests the tools are refused if and only if two enabled plugins offer tools
of one name. -/
theorem aggregatedTools_ok_iff (ops : List RegistryOp)
    (hvalid : ∀ manifest kind source, .register manifest kind source ∈ ops →
      ∃ raw, validateManifest raw = .ok manifest) :
    (∃ tools, (after ops).aggregatedTools = .ok tools) ↔
      ∀ first ∈ (after ops).listEnabled, ∀ second ∈ (after ops).listEnabled,
        first.metadata.id ≠ second.metadata.id →
          ∀ t ∈ first.manifest.tools, ∀ t' ∈ second.manifest.tools, t.name ≠ t'.name := by
  have hnames : (offers (after ops).listEnabled).map toolName =
      (after ops).listEnabled.flatMap fun entry =>
        entry.manifest.tools.map PluginToolManifest.name := by
    simp only [offers, List.map_flatMap, List.map_map]
    rfl
  have hown : ∀ entry ∈ (after ops).listEnabled,
      (entry.manifest.tools.map PluginToolManifest.name).Nodup := by
    intro entry hentry
    obtain ⟨id, hid⟩ := enabled_of_mem hentry
    obtain ⟨-, kind, source, hmem⟩ := entryAfter_id hid
    obtain ⟨raw, hraw⟩ := hvalid _ _ _ hmem
    exact (validateManifest_idempotent raw entry.manifest hraw).2.tools_distinct
  have hids := enabled_distinct ops
  have hiff : (∃ tools, (after ops).aggregatedTools = .ok tools) ↔
      ((offers (after ops).listEnabled).map toolName).Nodup := by
    obtain ⟨hnodup, hok⟩ | ⟨error, herror, hclash⟩ := aggregatedTools_cases (after ops)
    · exact iff_of_true ⟨_, hok⟩ hnodup
    · refine iff_of_false ?_ hclash.not_nodup
      rintro ⟨tools, htools⟩
      rw [herror] at htools
      cases htools
  rw [hiff, hnames, List.nodup_flatMap]
  constructor
  · rintro ⟨-, hpairs⟩ first hfirst second hsecond hne t ht t' ht' heq
    have : Std.Symm (Function.onFun List.Disjoint fun entry : PluginEntry =>
        entry.manifest.tools.map PluginToolManifest.name) := ⟨fun _ _ h _ ha hb => h hb ha⟩
    have hdiffer : first ≠ second := by
      rintro rfl
      exact hne rfl
    have hdisjoint := hpairs.forall hfirst hsecond hdiffer
    exact hdisjoint (List.mem_map_of_mem ht) (heq ▸ List.mem_map_of_mem ht')
  · intro h
    refine ⟨hown, ?_⟩
    apply (List.Nodup.of_map _ hids).pairwise_of_forall_ne
    intro first hfirst second hsecond hdiffer name hname hname'
    obtain ⟨t, ht, rfl⟩ := List.mem_map.mp hname
    obtain ⟨t', ht', heq⟩ := List.mem_map.mp hname'
    have hne : first.metadata.id ≠ second.metadata.id := fun hsame =>
      hdiffer (List.inj_on_of_nodup_map hids hfirst hsecond hsame)
    exact h first hfirst second hsecond hne t ht t' ht' heq.symm

/-- A builtin plugin that is switched off and on again. -/
def switching : List RegistryOp :=
  [.register trimmedManifest .builtin (js "builtin"), .disable (js "builtin:demo"),
    .enable (js "builtin:demo")]

theorem aggregatedTools_ok_switching :
    (∃ tools, (after switching).aggregatedTools = .ok tools) ↔
      ∀ first ∈ (after switching).listEnabled, ∀ second ∈ (after switching).listEnabled,
        first.metadata.id ≠ second.metadata.id →
          ∀ t ∈ first.manifest.tools, ∀ t' ∈ second.manifest.tools, t.name ≠ t'.name := by
  apply aggregatedTools_ok_iff
  intro manifest kind source hmem
  simp only [switching, List.mem_cons, RegistryOp.register.injEq, reduceCtorEq, List.not_mem_nil,
    or_false] at hmem
  exact ⟨spacedManifest, hmem.1 ▸ validateManifest_spacedManifest⟩

end aggregation

section loading

variable {items : List ManifestItem} {registry : PluginRegistry}

/-- The ids that have come before, in their order. -/
def repeats {α : Type} [DecidableEq α] (seen : List α) : List α → List α
  | [] => []
  | id :: rest => if id ∈ seen then id :: repeats seen rest else repeats (seen ++ [id]) rest

/-- Items go the way of registrations; an item whose id is taken is reported and left out. -/
theorem foldl_loadItem (items : List ManifestItem) (loading : Loading) :
    let last := items.foldl PluginManager.loadItem loading
    last.registry = Serial.runAll step loading.registry (items.map ManifestItem.op) ∧
      last.errors = loading.errors ++
        ((repeats loading.registry.keys (items.map ManifestItem.id)).map fun id =>
          (id, alreadyRegistered id)) ∧
      last.loaded + last.errors.length =
        loading.loaded + loading.errors.length + items.length := by
  induction items generalizing loading with
  | nil => simp [repeats]
  | cons item items ih =>
    intro last
    obtain ⟨hregistry, herrors, hcount⟩ := ih (PluginManager.loadItem loading item)
    change last.registry = _ at hregistry
    change last.errors = _ at herrors
    change last.loaded + last.errors.length = _ at hcount
    have hstep :
        (PluginManager.loadItem loading item).registry = loading.registry.step item.op := by
      rw [PluginManager.loadItem, ManifestItem.op, step, perform]
      cases loading.registry.register item.manifest item.kind item.source with
      | ok registry => rfl
      | error error => rfl
    rw [hstep] at hregistry herrors
    rw [List.map_cons, List.map_cons, repeats]
    cases hfound : loading.registry.get item.id with
    | some entry =>
      have hmem : item.id ∈ loading.registry.keys :=
        (mem_keys_iff loading.registry item.id).mpr (by rw [hfound]; rfl)
      have hrefused : loading.registry.register item.manifest item.kind item.source =
          .error (alreadyRegistered item.id) := by
        rw [register, ← ManifestItem.id, hfound]
      have hsame : loading.registry.step item.op = loading.registry := by
        rw [step, ManifestItem.op, perform, hrefused]
      have hreported : PluginManager.loadItem loading item =
          { loading with errors := loading.errors ++ [(item.id, alreadyRegistered item.id)] } := by
        rw [PluginManager.loadItem, hrefused]
      refine ⟨hregistry, ?_, ?_⟩
      · rw [if_pos hmem, List.map_cons]
        rw [hsame, hreported, List.append_assoc] at herrors
        exact herrors
      · rw [hreported, List.length_append] at hcount
        rw [List.length_cons]
        simp only [List.length_cons, List.length_nil] at hcount
        omega
    | none =>
      have hnot : item.id ∉ loading.registry.keys := by
        rw [mem_keys_iff, hfound]
        simp
      have hdone : loading.registry.register item.manifest item.kind item.source =
          .ok (loading.registry.set item.id (entryOf item.manifest item.kind item.source)) := by
        rw [register, ← ManifestItem.id, hfound]
      have hset : loading.registry.step item.op =
          loading.registry.set item.id (entryOf item.manifest item.kind item.source) := by
        rw [step, ManifestItem.op, perform, hdone]
      have hloaded : PluginManager.loadItem loading item =
          { loading with
            registry := loading.registry.set item.id (entryOf item.manifest item.kind item.source)
            loaded := loading.loaded + 1 } := by
        rw [PluginManager.loadItem, hdone]
      refine ⟨hregistry, ?_, ?_⟩
      · rw [if_neg hnot]
        rw [hset, hloaded, keys_set_of_not_mem hnot] at herrors
        exact herrors
      · rw [hloaded] at hcount
        rw [List.length_cons]
        simp only at hcount
        omega

/-- Loading registers the items one after the other, skips those whose id is taken, by a plugin
that was there or by an earlier item, and reports these alone, in their order. -/
theorem load_eq (items : List ManifestItem) (registry : PluginRegistry) :
    let loading := PluginManager.load items registry
    loading.registry = Serial.runAll step registry (items.map ManifestItem.op) ∧
      loading.registry.keys = (registry.keys ++ items.map ManifestItem.id).eraseDups ∧
      loading.errors = ((repeats registry.keys (items.map ManifestItem.id)).map fun id =>
        (id, alreadyRegistered id)) ∧
      loading.loaded + loading.errors.length = items.length := by
  intro loading
  obtain ⟨hregistry, herrors, hcount⟩ := foldl_loadItem items ⟨registry, 0, []⟩
  have hids : (items.map ManifestItem.op).filterMap registeredId = items.map ManifestItem.id := by
    rw [List.filterMap_map, ← List.filterMap_eq_map]
    rfl
  refine ⟨hregistry, ?_, herrors, ?_⟩
  · rw [← hids, ← runAll_keys]
    exact congrArg InsertionMap.keys hregistry
  · change loading.loaded + loading.errors.length = _ at hcount
    rw [hcount]
    exact Nat.zero_add _

end loading

end Solarcido.Plugins
