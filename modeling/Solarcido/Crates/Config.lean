import Solarcido.Crates.McpConfig
import Solarcido.Crates.Permissions
import Solarcido.Lib.KeyedUpdates

namespace Solarcido.Crates.Config

open RustText Value

section words

inductive ReasoningEffort where
  | low
  | medium
  | high
  deriving DecidableEq

def ReasoningEffort.asStr : ReasoningEffort → RustString
  | .low => str "low"
  | .medium => str "medium"
  | .high => str "high"

def ReasoningEffort.parse (value : RustString) : Except RustString ReasoningEffort :=
  if value = str "low" then .ok .low
  else if value = str "medium" then .ok .medium
  else if value = str "high" then .ok .high
  else .error (str "invalid reasoning effort `" ++ value ++ str "`; expected low, medium, or high")

inductive ApprovalPolicy where
  | never
  | onFailure
  | onRequest
  deriving DecidableEq

def ApprovalPolicy.asStr : ApprovalPolicy → RustString
  | .never => str "never"
  | .onFailure => str "on-failure"
  | .onRequest => str "on-request"

def ApprovalPolicy.parse (value : RustString) : Except RustString ApprovalPolicy :=
  if value = str "never" then .ok .never
  else if value = str "on-failure" then .ok .onFailure
  else if value = str "on-request" then .ok .onRequest
  else .error (str "invalid approvalPolicy `" ++ value ++
    str "`; expected never, on-failure, or on-request")

/-- A mode that a configuration may have. -/
def sandboxMode (unsupported value : RustString) : Except RustString PermissionMode :=
  (PermissionMode.parse value).bind fun mode =>
    if mode = .dangerFullAccess then .error unsupported else .ok mode

end words

section keys

inductive ConfigKey where
  | model
  | reasoningEffort
  | approvalPolicy
  | sandbox
  | quiet
  | mcp
  deriving DecidableEq

def ConfigKey.name : ConfigKey → RustString
  | .model => str "model"
  | .reasoningEffort => str "reasoningEffort"
  | .approvalPolicy => str "approvalPolicy"
  | .sandbox => str "sandbox"
  | .quiet => str "quiet"
  | .mcp => str "mcp"

def ConfigKey.Value : ConfigKey → Type
  | .model => RustString
  | .reasoningEffort => ReasoningEffort
  | .approvalPolicy => ApprovalPolicy
  | .sandbox => PermissionMode
  | .quiet => Bool
  | .mcp => McpConfigCollection

def keys : List ConfigKey := [.model, .reasoningEffort, .approvalPolicy, .sandbox, .quiet, .mcp]

def configKeys : List RustString := keys.map ConfigKey.name

/-- The arm of a `match` on the keys that a text takes. -/
def keyNamed (key : RustString) : Option ConfigKey := keys.find? fun k => k.name = key

theorem mem_keys (key : ConfigKey) : key ∈ keys := by
  cases key <;> decide

theorem keyNamed_name (key : ConfigKey) : keyNamed key.name = some key := by
  cases key <;> decide

theorem name_injective : Function.Injective ConfigKey.name := by
  intro key key' h
  have hfound := keyNamed_name key
  rw [h, keyNamed_name] at hfound
  exact (Option.some.inj hfound).symm

theorem name_of_keyNamed {key : RustString} {k : ConfigKey} (h : keyNamed key = some k) :
    k.name = key := by
  have hfound := List.find?_some h
  exact of_decide_eq_true hfound

end keys

section configs

structure SolarcidoConfig where
  model : RustString
  reasoningEffort : ReasoningEffort
  approvalPolicy : ApprovalPolicy
  sandbox : PermissionMode
  quiet : Bool
  mcp : McpConfigCollection

def DEFAULT_MODEL : RustString := str "solar-pro3-260323"

def SolarcidoConfig.default : SolarcidoConfig :=
  ⟨DEFAULT_MODEL, .medium, .onFailure, .workspaceWrite, false, .default⟩

namespace SolarcidoConfig

variable {config : SolarcidoConfig} {key other : ConfigKey}

/-- The field of a key. -/
def field (config : SolarcidoConfig) : (key : ConfigKey) → key.Value
  | .model => config.model
  | .reasoningEffort => config.reasoningEffort
  | .approvalPolicy => config.approvalPolicy
  | .sandbox => config.sandbox
  | .quiet => config.quiet
  | .mcp => config.mcp

def setField (config : SolarcidoConfig) : (key : ConfigKey) → key.Value → SolarcidoConfig
  | .model, value => { config with model := value }
  | .reasoningEffort, value => { config with reasoningEffort := value }
  | .approvalPolicy, value => { config with approvalPolicy := value }
  | .sandbox, value => { config with sandbox := value }
  | .quiet, value => { config with quiet := value }
  | .mcp, value => { config with mcp := value }

@[simp]
theorem field_setField (config : SolarcidoConfig) (key : ConfigKey) (value : key.Value) :
    (config.setField key value).field key = value := by
  cases key <;> rfl

theorem field_setField_of_ne (h : other ≠ key) (value : key.Value) :
    (config.setField key value).field other = config.field other := by
  cases key <;> cases other <;> first | rfl | exact absurd rfl h

end SolarcidoConfig

end configs

section updates

/-- What is taken for the value of a key. -/
def parseValue : (key : ConfigKey) → RustString → Except RustString key.Value
  | .model, rawValue =>
    let model := trim rawValue
    if model.isEmpty then .error (str "model must not be empty") else .ok model
  | .reasoningEffort, rawValue => ReasoningEffort.parse rawValue
  | .approvalPolicy, rawValue => ApprovalPolicy.parse rawValue
  | .sandbox, rawValue =>
    sandboxMode (str "sandbox config supports read-only or workspace-write; use " ++
      str "--dangerously-skip-permissions for danger-full-access") rawValue
  | .quiet, rawValue =>
    if rawValue = str "true" then .ok true
    else if rawValue = str "false" then .ok false
    else .error (str "quiet must be true or false")
  | .mcp, _ =>
    .error (str "mcp config is managed as JSON; edit ~/.solarcido/config.json directly to " ++
      str "change servers")

def unknownConfigKey (key : RustString) : RustString :=
  str "unknown config key: " ++ key ++ str ". Valid keys: " ++ join (str ", ") configKeys

def setConfigValue (config : SolarcidoConfig) (key rawValue : RustString) :
    Except RustString SolarcidoConfig :=
  match keyNamed key with
  | some k => (parseValue k rawValue).map (config.setField k)
  | none => .error (unknownConfigKey key)

end updates

section files

/-- What reading a file as text comes to. -/
inductive ReadToString where
  | notFound
  | failed (error : RustString)
  | read (raw : RustString)

/-- What the configuration needs of `serde_json`. -/
structure SerdeText where
  toStringPretty : Value → RustString
  fromStr : RustString → Except RustString Value
  /-- The error for a value that is no `McpConfigCollection`. -/
  fromValueError : Value → RustString

/-- A document that is printed, with a line break behind it, is parsed as itself. -/
def SerdeText.ReadsBack (serde : SerdeText) (v : Value) : Prop :=
  serde.fromStr (serde.toStringPretty v ++ str "\n") = .ok v.sorted

variable (serde : SerdeText)

/-- What is taken from a document for the value of a key. -/
def readField : (key : ConfigKey) → Value → Except RustString key.Value
  | .model, value =>
    match value.asStr.filter fun value => !(trim value).isEmpty with
    | some model => .ok model
    | none => .error (str "model must be a non-empty string")
  | .reasoningEffort, value =>
    match value.asStr with
    | some value => ReasoningEffort.parse value
    | none => .error (str "reasoningEffort must be low, medium, or high")
  | .approvalPolicy, value =>
    match value.asStr with
    | some value => ApprovalPolicy.parse value
    | none => .error (str "approvalPolicy must be never, on-failure, or on-request")
  | .sandbox, value =>
    match value.asStr with
    | some value => sandboxMode (str "sandbox config supports read-only or workspace-write") value
    | none => .error (str "sandbox must be read-only or workspace-write")
  | .quiet, value =>
    match value.asBool with
    | some quiet => .ok quiet
    | none => .error (str "quiet must be a boolean")
  | .mcp, value =>
    match McpConfigCollection.deserialize value with
    | some mcp => mcp.validate.map fun _ => mcp
    | none => .error (str "invalid mcp config: " ++ serde.fromValueError value)

/-- The fields that are there are taken in turn. -/
def takeField (object : Value) (config : SolarcidoConfig) (key : ConfigKey) :
    Except RustString SolarcidoConfig :=
  match object.get key.name with
  | some value => (readField serde key value).map (config.setField key)
  | none => .ok config

def keyError (path key : RustString) : Option RustString :=
  if key = str "maxSteps" then
    some (str "maxSteps is no longer supported. Solarcido runs without a step limit.")
  else if configKeys.contains key then none
  else
    some (str "unknown config key in " ++ path ++ str ": " ++ key ++ str ". Valid keys: " ++
      join (str ", ") configKeys)

def validateConfigValue (path : RustString) : Value → Except RustString SolarcidoConfig
  | .object members =>
    match (members.map Prod.fst).findSome? (keyError path) with
    | some error => .error error
    | none => keys.foldlM (takeField serde (.object members)) .default
  | _ => .error (str "config at " ++ path ++ str " must be a JSON object")

def load (path : RustString) : ReadToString → Except RustString SolarcidoConfig
  | .notFound => .ok .default
  | .failed error => .error (str "could not read config at " ++ path ++ str ": " ++ error)
  | .read raw =>
    match serde.fromStr raw with
    | .ok value => validateConfigValue serde path value
    | .error error => .error (str "invalid JSON in " ++ path ++ str ": " ++ error)

/-- A field as it is written. -/
def fieldValue : (key : ConfigKey) → key.Value → Value
  | .model, value => .string value
  | .reasoningEffort, value => .string (ReasoningEffort.asStr value)
  | .approvalPolicy, value => .string (ApprovalPolicy.asStr value)
  | .sandbox, value => .string (PermissionMode.asStr value)
  | .quiet, value => .bool value
  | .mcp, value => McpConfigCollection.toValue value

def SolarcidoConfig.toValue (config : SolarcidoConfig) : Value :=
  .object (keys.map fun key => (key.name, fieldValue key (config.field key)))

/-- What `save` writes. -/
def saved (config : SolarcidoConfig) : RustString :=
  serde.toStringPretty config.toValue ++ str "\n"

end files

section validity

/-- What the loader demands of a field, beyond its type. -/
def ConfigKey.Valid : (key : ConfigKey) → key.Value → Prop
  | .model, value => (trim value).isEmpty = false
  | .sandbox, value => value ≠ PermissionMode.dangerFullAccess
  | .mcp, value => McpConfigCollection.validate value = .ok ()
  | _, _ => True

def Valid (config : SolarcidoConfig) : Prop := ∀ key : ConfigKey, key.Valid (config.field key)

variable {serde : SerdeText} {config config' : SolarcidoConfig} {key : ConfigKey}

theorem configFields :
    KeyedUpdates.Fields SolarcidoConfig.field SolarcidoConfig.setField where
  own := SolarcidoConfig.field_setField
  other _ _ value _ hne := SolarcidoConfig.field_setField_of_ne hne value

theorem valid_setField (h : Valid config) {value : key.Value} (hvalue : key.Valid value) :
    Valid (config.setField key value) :=
  configFields.valid_set h hvalue

theorem valid_default : Valid .default := by
  intro key
  cases key with
  | model => exact (by decide : (trim DEFAULT_MODEL).isEmpty = false)
  | sandbox => exact (by decide : PermissionMode.workspaceWrite ≠ .dangerFullAccess)
  | mcp => exact (rfl : McpConfigCollection.default.validate = .ok ())
  | _ => trivial

theorem sandboxMode_valid {unsupported value : RustString} {mode : PermissionMode}
    (h : sandboxMode unsupported value = .ok mode) : mode ≠ .dangerFullAccess := by
  unfold sandboxMode at h
  cases hmode : PermissionMode.parse value with
  | error error =>
    rw [hmode] at h
    cases h
  | ok parsed =>
    rw [hmode] at h
    change (if parsed = .dangerFullAccess then _ else _) = _ at h
    split_ifs at h with hdanger
    cases h
    exact hdanger

theorem readField_valid {v : Value} {value : key.Value} (h : readField serde key v = .ok value) :
    key.Valid value := by
  cases key with
  | model =>
    rw [readField] at h
    split at h
    · next model hmodel =>
      cases h
      have hmatch := (Option.filter_eq_some_iff.mp hmodel).2
      change (trim value).isEmpty = false
      simpa using hmatch
    · cases h
  | sandbox =>
    rw [readField] at h
    split at h
    · exact sandboxMode_valid h
    · cases h
  | mcp =>
    rw [readField] at h
    split at h
    · next mcp _ =>
      cases hvalidate : mcp.validate with
      | error error =>
        rw [hvalidate] at h
        cases h
      | ok _ =>
        rw [hvalidate] at h
        cases h
        exact hvalidate
    · cases h
  | _ => trivial

theorem parseValue_valid {rawValue : RustString} {value : key.Value}
    (h : parseValue key rawValue = .ok value) : key.Valid value := by
  cases key with
  | model =>
    rw [parseValue] at h
    split_ifs at h with hempty
    cases h
    change (trim (trim rawValue)).isEmpty = false
    rw [trim_trim]
    exact Bool.eq_false_iff.mpr hempty
  | sandbox => exact sandboxMode_valid h
  | mcp => cases h
  | _ => trivial

theorem takeField_valid {object : Value} (h : Valid config)
    (htake : takeField serde object config key = .ok config') : Valid config' := by
  unfold takeField at htake
  split at htake
  · next field _ =>
    cases hfield : readField serde key field with
    | error error =>
      rw [hfield] at htake
      cases htake
    | ok value =>
      rw [hfield] at htake
      cases htake
      exact valid_setField h (readField_valid hfield)
  · cases htake
    exact h

theorem load_valid {path : RustString} {file : ReadToString}
    (h : load serde path file = .ok config) : Valid config := by
  cases file with
  | notFound =>
    cases h
    exact valid_default
  | failed error => cases h
  | read raw =>
    unfold load at h
    dsimp only at h
    split at h
    · next value _ =>
      cases value with
      | object members =>
        rw [validateConfigValue] at h
        split at h
        · cases h
        · exact KeyedUpdates.run_keeps (P := Valid)
            (fun _ _ _ hvalid htake => takeField_valid hvalid htake) valid_default h
      | _ => cases h
    · cases h

end validity

section reading

variable {serde : SerdeText} {config : SolarcidoConfig} {key : ConfigKey}

theorem readField_model {model : RustString} (h : (trim model).isEmpty = false) :
    readField serde .model (.string model) = .ok model := by
  have hfilter : (asStr (.string model)).filter (fun value => !(trim value).isEmpty) = some model :=
    Option.filter_eq_some_iff.mpr ⟨rfl, by rw [h]; rfl⟩
  rw [readField, hfilter]

theorem readField_mcp {mcp : McpConfigCollection} (h : mcp.validate = .ok ()) :
    readField serde .mcp mcp.toValue.sorted = .ok mcp := by
  rw [readField, McpConfigCollection.deserialize_sorted]
  exact congrArg (Except.map fun _ => mcp) h

/-- A field that is written is read as itself. -/
theorem readField_fieldValue {value : key.Value} (h : key.Valid value) :
    readField serde key (fieldValue key value).sorted = .ok value := by
  cases key with
  | model => exact readField_model h
  | reasoningEffort => cases value <;> rfl
  | approvalPolicy => cases value <;> rfl
  | sandbox =>
    cases value with
    | readOnly | workspaceWrite => rfl
    | dangerFullAccess => exact absurd rfl h
  | quiet => rfl
  | mcp => exact readField_mcp h

theorem toValue_hasMembers (config : SolarcidoConfig) :
    config.toValue.sorted.HasMembers
      (keys.map fun key => (key.name, (fieldValue key (config.field key)).sorted)) := by
  have hkeys : ((keys.map fun key =>
      (key.name, fieldValue key (config.field key))).map Prod.fst).Nodup :=
    (by decide : configKeys.Nodup)
  have h := hasMembers_sorted hkeys
  rwa [List.map_map] at h

theorem get_toValue (config : SolarcidoConfig) (key : ConfigKey) :
    config.toValue.sorted.get key.name = some (fieldValue key (config.field key)).sorted := by
  have hkeys : ((keys.map fun key =>
      (key.name, (fieldValue key (config.field key)).sorted)).map Prod.fst).Nodup :=
    (by decide : configKeys.Nodup)
  rw [(toValue_hasMembers config).get hkeys, get_object_eq_some_iff hkeys]
  exact List.mem_map_of_mem (f := fun key =>
    (key.name, (fieldValue key (config.field key)).sorted)) (mem_keys key)

theorem takeField_toValue (h : Valid config) (taken : SolarcidoConfig) (key : ConfigKey) :
    takeField serde config.toValue.sorted taken key =
      .ok (taken.setField key (config.field key)) := by
  rw [takeField, get_toValue]
  exact congrArg (Except.map (taken.setField key)) (readField_fieldValue (h key))

theorem keyError_of_mem (path : RustString) {key : RustString} (h : key ∈ configKeys) :
    keyError path key = none := by
  have hlegacy : key ≠ str "maxSteps" := by
    rintro rfl
    exact absurd h (by decide)
  rw [keyError, if_neg hlegacy, if_pos (List.contains_iff_mem.mpr h)]

theorem validateConfigValue_toValue (path : RustString) (h : Valid config) :
    validateConfigValue serde path config.toValue.sorted = .ok config := by
  have htaken : keys.foldlM (takeField serde config.toValue.sorted) .default = .ok config :=
    KeyedUpdates.foldlM_set (takeField_toValue h) keys .default
  obtain ⟨l, hl, hperm⟩ := toValue_hasMembers config
  have hknown : (l.map Prod.fst).findSome? (keyError path) = none := by
    rw [List.findSome?_eq_none_iff]
    intro key hkey
    have hmem := (hperm.map Prod.fst).mem_iff.mp hkey
    rw [List.map_map] at hmem
    exact keyError_of_mem path hmem
  rw [hl] at htaken ⊢
  rw [validateConfigValue, hknown]
  exact htaken

/-- A configuration that is saved is loaded as itself. -/
theorem load_saved (path : RustString) (h : Valid config)
    (hjson : serde.ReadsBack config.toValue) :
    load serde path (.read (saved serde config)) = .ok config := by
  rw [load, saved, hjson]
  exact validateConfigValue_toValue path h

end reading

section runs

variable {config config' : SolarcidoConfig}

/-- `set_config_value` for a key and a text. -/
def updateConfig (config : SolarcidoConfig) (update : RustString × RustString) :
    Except RustString SolarcidoConfig := setConfigValue config update.1 update.2

theorem updateConfig_ok {key raw : RustString} (h : updateConfig config (key, raw) = .ok config') :
    ∃ k value, k.name = key ∧ parseValue k raw = .ok value ∧ config' = config.setField k value := by
  unfold updateConfig setConfigValue at h
  dsimp only at h
  split at h
  · next k hk =>
    cases hvalue : parseValue k raw with
    | error error =>
      rw [hvalue] at h
      cases h
    | ok value =>
      rw [hvalue] at h
      cases h
      exact ⟨k, value, name_of_keyNamed hk, hvalue, rfl⟩
  · cases h

theorem updateConfig_updating :
    KeyedUpdates.Updating ConfigKey.name SolarcidoConfig.field parseValue updateConfig where
  own := by
    intro config config' key raw h
    obtain ⟨k, value, hname, hvalue, rfl⟩ := updateConfig_ok h
    obtain rfl := name_injective hname
    exact hvalue.trans (congrArg Except.ok (config.field_setField k value).symm)
  other := by
    intro config config' key updated raw h hne
    obtain ⟨k, value, rfl, -, rfl⟩ := updateConfig_ok h
    exact SolarcidoConfig.field_setField_of_ne (fun heq => hne (congrArg ConfigKey.name heq)) value

theorem updateConfig_valid {update : RustString × RustString} (h : Valid config)
    (hupdate : updateConfig config update = .ok config') : Valid config' := by
  obtain ⟨k, value, -, hvalue, rfl⟩ := updateConfig_ok hupdate
  exact valid_setField h (parseValue_valid hvalue)

/-- No text is taken for the section of the servers. -/
theorem updateConfig_mcp {update : RustString × RustString}
    (h : updateConfig config update = .ok config') : config'.mcp = config.mcp := by
  obtain ⟨k, value, -, hvalue, rfl⟩ := updateConfig_ok h
  cases k with
  | mcp => cases hvalue
  | _ => rfl

end runs

end Solarcido.Crates.Config
