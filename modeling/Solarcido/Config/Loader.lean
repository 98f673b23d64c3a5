import Solarcido.Api.Chat

namespace Solarcido.Config

open Text Api Tools

section keys

inductive ConfigKey where
  | model
  | reasoningEffort
  | approvalPolicy
  | sandbox
  | quiet
  | stream
  deriving DecidableEq

def ConfigKey.name : ConfigKey → JsString
  | .model => js "model"
  | .reasoningEffort => js "reasoningEffort"
  | .approvalPolicy => js "approvalPolicy"
  | .sandbox => js "sandbox"
  | .quiet => js "quiet"
  | .stream => js "stream"

/-- `SolarcidoConfig[key]`. -/
def ConfigKey.Value : ConfigKey → Type
  | .model => JsString
  | .reasoningEffort => ReasoningEffort
  | .approvalPolicy => ApprovalPolicy
  | .sandbox => SandboxMode
  | .quiet => Bool
  | .stream => Bool

def CONFIG_KEYS : List ConfigKey :=
  [.model, .reasoningEffort, .approvalPolicy, .sandbox, .quiet, .stream]

def configKeyNames : List JsString := CONFIG_KEYS.map ConfigKey.name

def LEGACY_CONFIG_KEYS : List JsString := [js "maxSteps"]

def isConfigKey (value : JsString) : Bool := configKeyNames.contains value

def isLegacyConfigKey (value : JsString) : Bool := LEGACY_CONFIG_KEYS.contains value

theorem mem_CONFIG_KEYS (key : ConfigKey) : key ∈ CONFIG_KEYS := by
  cases key <;> decide

theorem find_name (key : ConfigKey) :
    (CONFIG_KEYS.find? fun k => k.name = key.name) = some key := by
  cases key <;> decide

theorem name_injective : Function.Injective ConfigKey.name := by
  intro key key' h
  have hfound := find_name key
  rw [h, find_name] at hfound
  exact (Option.some.inj hfound).symm

theorem isConfigKey_iff (value : JsString) :
    isConfigKey value = true ↔ ∃ key : ConfigKey, key.name = value := by
  rw [isConfigKey, List.contains_iff_mem, configKeyNames, List.mem_map]
  exact exists_congr fun key => and_iff_right (mem_CONFIG_KEYS key)

theorem isLegacyConfigKey_iff (value : JsString) :
    isLegacyConfigKey value = true ↔ value = js "maxSteps" := by
  rw [isLegacyConfigKey, List.contains_iff_mem, LEGACY_CONFIG_KEYS, List.mem_singleton]

end keys

section configs

structure SolarcidoConfig where
  model : JsString
  reasoningEffort : ReasoningEffort
  approvalPolicy : ApprovalPolicy
  sandbox : SandboxMode
  quiet : Bool
  stream : Bool
  deriving DecidableEq

def DEFAULT_CONFIG : SolarcidoConfig :=
  ⟨DEFAULT_MODEL, DEFAULT_REASONING_EFFORT, .onFailure, .workspaceWrite, false, false⟩

def getConfigValue (config : SolarcidoConfig) : (key : ConfigKey) → key.Value
  | .model => config.model
  | .reasoningEffort => config.reasoningEffort
  | .approvalPolicy => config.approvalPolicy
  | .sandbox => config.sandbox
  | .quiet => config.quiet
  | .stream => config.stream

def setConfigValue (config : SolarcidoConfig) : (key : ConfigKey) → key.Value → SolarcidoConfig
  | .model, value => { config with model := value }
  | .reasoningEffort, value => { config with reasoningEffort := value }
  | .approvalPolicy, value => { config with approvalPolicy := value }
  | .sandbox, value => { config with sandbox := value }
  | .quiet, value => { config with quiet := value }
  | .stream, value => { config with stream := value }

variable {config : SolarcidoConfig} {key other : ConfigKey}

@[simp]
theorem getConfigValue_set (config : SolarcidoConfig) (key : ConfigKey) (value : key.Value) :
    getConfigValue (setConfigValue config key value) key = value := by
  cases key <;> rfl

theorem getConfigValue_set_of_ne (h : other ≠ key) (value : key.Value) :
    getConfigValue (setConfigValue config key value) other = getConfigValue config other := by
  cases key <;> cases other <;> first | rfl | exact absurd rfl h

end configs

section words

/-- `s === "low" || s === "medium" || s === "high"`, with the value it then is. -/
def reasoningEffortOf (s : JsString) : Option ReasoningEffort :=
  if s = js "low" then some .low
  else if s = js "medium" then some .medium
  else if s = js "high" then some .high
  else none

def approvalPolicyOf (s : JsString) : Option ApprovalPolicy :=
  if s = js "never" then some .never
  else if s = js "on-failure" then some .onFailure
  else if s = js "on-request" then some .onRequest
  else none

def sandboxOf (s : JsString) : Option SandboxMode :=
  if s = js "read-only" then some .readOnly
  else if s = js "workspace-write" then some .workspaceWrite
  else none

/-- The value of a word, or an error. -/
def wordOr {α : Type} (message : JsString) : Option α → Except JsString α
  | some value => .ok value
  | none => .error message

end words

/-- The two words of `quiet` and of `stream`. -/
def parseFlag (message rawValue : JsString) : Except JsString Bool :=
  if rawValue = js "true" then .ok true
  else if rawValue = js "false" then .ok false
  else .error message

def parseConfigValue : (key : ConfigKey) → JsString → Except JsString key.Value
  | .model, rawValue =>
    if (trim rawValue).isEmpty then .error (js "model must not be empty.") else .ok (trim rawValue)
  | .reasoningEffort, rawValue =>
    wordOr (js "reasoningEffort must be low, medium, or high.") (reasoningEffortOf rawValue)
  | .approvalPolicy, rawValue =>
    wordOr (js "approvalPolicy must be never, on-failure, or on-request.")
      (approvalPolicyOf rawValue)
  | .sandbox, rawValue =>
    wordOr (js "sandbox must be read-only or workspace-write.") (sandboxOf rawValue)
  | .quiet, rawValue => parseFlag (js "quiet must be true or false.") rawValue
  | .stream, rawValue => parseFlag (js "stream must be true or false.") rawValue

/-- A word is looked for in a string only. -/
def wordField {α : Type} (message : JsString) (wordOf : JsString → Option α) :
    Json → Except JsString α
  | .str s => wordOr message (wordOf s)
  | _ => .error message

def flagField (message : JsString) : Json → Except JsString Bool
  | .bool b => .ok b
  | _ => .error message

def validateConfigField : (key : ConfigKey) → Json → Except JsString key.Value
  | .model, .str s =>
    if (trim s).isEmpty then .error (js "model must be a non-empty string.") else .ok s
  | .model, _ => .error (js "model must be a non-empty string.")
  | .reasoningEffort, value =>
    wordField (js "reasoningEffort must be low, medium, or high.") reasoningEffortOf value
  | .approvalPolicy, value =>
    wordField (js "approvalPolicy must be never, on-failure, or on-request.") approvalPolicyOf value
  | .sandbox, value =>
    wordField (js "sandbox must be read-only or workspace-write.") sandboxOf value
  | .quiet, value => flagField (js "quiet must be a boolean.") value
  | .stream, value => flagField (js "stream must be a boolean.") value

section validateConfig

/-- One round of the loop over the keys: a member that is there is validated and taken over. -/
def takeField (value : Json) (config : SolarcidoConfig) (key : ConfigKey) :
    Except JsString SolarcidoConfig :=
  match value.member key.name with
  | none => .ok config
  | some field => (validateConfigField key field).map (setConfigValue config key)

def isUnknownKey (key : JsString) : Bool := !isConfigKey key && !isLegacyConfigKey key

def validateConfig (configPath : JsString) : Json → Except JsString SolarcidoConfig
  | .obj members =>
    match (members.map Prod.fst).find? isUnknownKey with
    | some key =>
      .error (js "Unknown config key in " ++ configPath ++ js ": " ++ key ++ js ". Valid keys: " ++
        join (js ", ") configKeyNames)
    | none => CONFIG_KEYS.foldlM (takeField (.obj members)) DEFAULT_CONFIG
  | _ => .error (js "Config at " ++ configPath ++ js " must be a JSON object.")

variable {value : Json} {config : SolarcidoConfig}

theorem map_ok_iff {α β : Type} (f : α → β) (result : Except JsString α) :
    (∃ b, result.map f = .ok b) ↔ ∃ a, result = .ok a := by
  cases result with
  | error message => exact iff_of_false (fun ⟨_, h⟩ => nomatch h) fun ⟨_, h⟩ => nomatch h
  | ok a => exact iff_of_true ⟨f a, rfl⟩ ⟨a, rfl⟩

theorem takeField_ok_iff (key : ConfigKey) :
    (∃ next, takeField value config key = .ok next) ↔
      ∀ field ∈ value.member key.name, ∃ v, validateConfigField key field = .ok v := by
  rw [takeField]
  cases value.member key.name with
  | none => simp
  | some field => simp [map_ok_iff]

theorem foldlM_takeField_ok_iff (keys : List ConfigKey) :
    (∃ last, keys.foldlM (takeField value) config = .ok last) ↔
      ∀ key ∈ keys, ∀ field ∈ value.member key.name, ∃ v, validateConfigField key field = .ok v := by
  induction keys generalizing config with
  | nil => exact iff_of_true ⟨config, rfl⟩ (by simp)
  | cons key keys ih =>
    have hkey : (∃ next, takeField value config key = .ok next) ↔ _ := takeField_ok_iff key
    rw [List.foldlM_cons, List.forall_mem_cons, ← hkey]
    cases takeField value config key with
    | error message => exact iff_of_false (fun ⟨_, h⟩ => nomatch h) fun ⟨⟨_, h⟩, _⟩ => nomatch h
    | ok next => exact ih.trans (iff_and_self.mpr fun _ => ⟨next, rfl⟩)

/-- An object is accepted iff no key of it is unknown and each field that is there is valid. -/
theorem validateConfig_ok_iff (configPath : JsString) (members : List (JsString × Json)) :
    (∃ config, validateConfig configPath (.obj members) = .ok config) ↔
      (∀ m ∈ members, isUnknownKey m.1 = false) ∧
        ∀ key : ConfigKey, ∀ field ∈ (Json.obj members).member key.name,
          ∃ v, validateConfigField key field = .ok v := by
  rw [validateConfig]
  cases hunknown : (members.map Prod.fst).find? isUnknownKey with
  | some name =>
    obtain ⟨m, hm, rfl⟩ := List.mem_map.mp (List.mem_of_find?_eq_some hunknown)
    have hbad := List.find?_some hunknown
    refine iff_of_false (fun ⟨_, h⟩ => nomatch h) ?_
    rintro ⟨hknown, -⟩
    rw [hknown m hm] at hbad
    cases hbad
  | none =>
    have hknown : ∀ m ∈ members, isUnknownKey m.1 = false := by
      intro m hm
      have := List.find?_eq_none.mp hunknown m.1 (List.mem_map_of_mem hm)
      rwa [Bool.not_eq_true] at this
    rw [and_iff_right hknown, foldlM_takeField_ok_iff]
    exact forall_congr' fun key => forall_prop_of_true (mem_CONFIG_KEYS key)

end validateConfig

end Solarcido.Config
