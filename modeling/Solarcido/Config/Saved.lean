import Solarcido.Config.Loader
import Solarcido.Crates.Config
import Solarcido.Js.JsonParse
import Solarcido.Js.JsonUtf8
import Solarcido.Js.Text
import Solarcido.Lib.KeyedUpdates

namespace Solarcido.Config

open Text Json Documents Doc Api Tools

section files

/-- What reading a file comes to. -/
inductive FileRead where
  | notFound
  | failed (message : JsString)
  | read (bytes : Bytes)

variable (numbers : NumberTexts)

/-- The message of the error that a text raises is the engine's. -/
def loadConfig (parseMessage : JsString → JsString) (configPath : JsString) :
    FileRead → Except JsString SolarcidoConfig
  | .notFound => .ok DEFAULT_CONFIG
  | .failed message => .error (js "Could not read config at " ++ configPath ++ js ": " ++ message)
  | .read bytes =>
    let raw := Utf8.bufferToString bytes
    match Json.parse numbers raw with
    | none => .error (js "Invalid JSON in " ++ configPath ++ js ": " ++ parseMessage raw)
    | some parsed => validateConfig configPath parsed

def reasoningEffortWord : ReasoningEffort → JsString
  | .low => js "low"
  | .medium => js "medium"
  | .high => js "high"

def sandboxWord : SandboxMode → JsString
  | .readOnly => js "read-only"
  | .workspaceWrite => js "workspace-write"

/-- A value of a key as it is in the object. -/
def fieldJson : (key : ConfigKey) → key.Value → Json
  | .model, value => .str value
  | .reasoningEffort, value => .str (reasoningEffortWord value)
  | .approvalPolicy, value => .str (ApprovalPolicy.name value)
  | .sandbox, value => .str (sandboxWord value)
  | .quiet, value => .bool value
  | .stream, value => .bool value

/-- The object that a configuration is. -/
def configJson (config : SolarcidoConfig) : Json :=
  .obj (CONFIG_KEYS.map fun key => (key.name, fieldJson key (getConfigValue config key)))

/-- The bytes that `saveConfig` writes. -/
def savedConfig (config : SolarcidoConfig) : Bytes :=
  Utf8.bufferFrom (Json.prettyJson numbers.text (configJson config) ++ js "\n")

end files

section validity

/-- What the loader demands of a value of a key, beyond its type. -/
def ConfigKey.Valid : (key : ConfigKey) → key.Value → Prop
  | .model, value => (trim value).isEmpty = false
  | _, _ => True

def Valid (config : SolarcidoConfig) : Prop :=
  ∀ key : ConfigKey, key.Valid (getConfigValue config key)

variable {config config' : SolarcidoConfig} {key : ConfigKey}

theorem configFields : KeyedUpdates.Fields getConfigValue setConfigValue where
  own := getConfigValue_set
  other _ _ value _ hne := getConfigValue_set_of_ne hne value

theorem valid_set (h : Valid config) {value : key.Value} (hvalue : key.Valid value) :
    Valid (setConfigValue config key value) :=
  configFields.valid_set h hvalue

theorem validateConfigField_valid {field : Json} {value : key.Value}
    (h : validateConfigField key field = .ok value) : key.Valid value := by
  cases key with
  | model =>
    cases field with
    | str s =>
      rw [validateConfigField] at h
      split_ifs at h with hempty
      cases h
      exact Bool.eq_false_iff.mpr hempty
    | _ => cases h
  | _ => trivial

theorem parseConfigValue_valid {rawValue : JsString} {value : key.Value}
    (h : parseConfigValue key rawValue = .ok value) : key.Valid value := by
  cases key with
  | model =>
    rw [parseConfigValue] at h
    split_ifs at h with hempty
    cases h
    change (trim (trim rawValue)).isEmpty = false
    rw [trim_trim]
    exact Bool.eq_false_iff.mpr hempty
  | _ => trivial

theorem valid_default : Valid DEFAULT_CONFIG := by
  intro key
  cases key with
  | model => exact (by decide : (trim DEFAULT_CONFIG.model).isEmpty = false)
  | _ => trivial

theorem takeField_valid {value : Json} (h : Valid config)
    (htake : takeField value config key = .ok config') : Valid config' := by
  unfold takeField at htake
  split at htake
  · cases htake
    exact h
  · next field _ =>
    cases hfield : validateConfigField key field with
    | error message =>
      rw [hfield] at htake
      cases htake
    | ok v =>
      rw [hfield] at htake
      cases htake
      exact valid_set h (validateConfigField_valid hfield)

theorem loadConfig_valid {numbers : NumberTexts} {parseMessage : JsString → JsString}
    {configPath : JsString} {file : FileRead}
    (h : loadConfig numbers parseMessage configPath file = .ok config) : Valid config := by
  cases file with
  | notFound =>
    cases h
    exact valid_default
  | failed message => cases h
  | read bytes =>
    unfold loadConfig at h
    dsimp only at h
    split at h
    · cases h
    · next parsed _ =>
      cases parsed with
      | obj members =>
        rw [validateConfig] at h
        split at h
        · cases h
        · exact KeyedUpdates.run_keeps (P := Valid)
            (fun _ _ _ hvalid htake => takeField_valid hvalid htake) valid_default h
      | _ => cases h

end validity

section reading

variable {config : SolarcidoConfig} {key : ConfigKey}

/-- A value that is written under a key is read as itself. -/
theorem validateConfigField_fieldJson {value : key.Value} (h : key.Valid value) :
    validateConfigField key (fieldJson key value) = .ok value := by
  cases key with
  | model => exact if_neg (Bool.eq_false_iff.mp h)
  | reasoningEffort => cases value <;> rfl
  | approvalPolicy => cases value <;> rfl
  | sandbox => cases value <;> rfl
  | quiet => rfl
  | stream => rfl

theorem member_configJson (config : SolarcidoConfig) (key : ConfigKey) :
    (configJson config).member key.name = some (fieldJson key (getConfigValue config key)) := by
  have hkeys : ((CONFIG_KEYS.map fun key =>
      (key.name, fieldJson key (getConfigValue config key))).map Prod.fst).Nodup := by
    rw [List.map_map]
    exact (by decide : (CONFIG_KEYS.map ConfigKey.name).Nodup)
  exact (Json.member_eq_some_iff hkeys).mpr (List.mem_map_of_mem (mem_CONFIG_KEYS key))

theorem takeField_configJson (h : Valid config) (taken : SolarcidoConfig) (key : ConfigKey) :
    takeField (configJson config) taken key =
      .ok (setConfigValue taken key (getConfigValue config key)) := by
  rw [takeField, member_configJson]
  exact congrArg (Except.map (setConfigValue taken key)) (validateConfigField_fieldJson (h key))

theorem validateConfig_configJson (configPath : JsString) (h : Valid config) :
    validateConfig configPath (configJson config) = .ok config := by
  have hknown : ((CONFIG_KEYS.map fun key =>
      (key.name, fieldJson key (getConfigValue config key))).map Prod.fst).find? isUnknownKey =
        none := by
    rw [List.map_map]
    exact (by decide : (CONFIG_KEYS.map ConfigKey.name).find? isUnknownKey = none)
  rw [configJson, validateConfig, hknown]
  exact KeyedUpdates.foldlM_set (takeField_configJson h) CONFIG_KEYS DEFAULT_CONFIG

theorem data_fieldJson (value : key.Value) :
    (∃ s, (fieldJson key value).data = .text s) ∨
      ∃ b, (fieldJson key value).data = .atom (.bool b) := by
  cases key with
  | quiet | stream => exact .inr ⟨_, rfl⟩
  | _ => exact .inl ⟨_, rfl⟩

theorem everywhere_configJson {P : List JsString → Prop} (h : P configKeyNames) :
    (configJson config).data.Everywhere P := by
  rw [configJson, data_obj, List.map_map]
  refine .obj _ (by rwa [List.map_map]) (List.forall_mem_map.mpr fun key _ => ?_)
  change Everywhere P (fieldJson key (getConfigValue config key)).data
  rcases data_fieldJson (getConfigValue config key) with ⟨s, hfield⟩ | ⟨b, hfield⟩
  · rw [hfield]
    exact .text s
  · rw [hfield]
    exact .atom _

theorem configJson_isData (numbers : NumberTexts) (config : SolarcidoConfig) :
    IsData numbers (configJson config).data := by
  refine ⟨everywhere_configJson (by decide), ?_⟩
  rw [configJson, data_obj, List.map_map]
  refine .obj _ (List.forall_mem_map.mpr fun key _ => ?_)
  change AllAtoms (Scalar.IsKnown numbers) (fieldJson key (getConfigValue config key)).data
  rcases data_fieldJson (getConfigValue config key) with ⟨s, hfield⟩ | ⟨b, hfield⟩
  · rw [hfield]
    exact .text s
  · rw [hfield]
    exact .atom _ trivial

/-- A configuration that is saved is loaded as itself. -/
theorem loadConfig_saved (numbers : NumberTexts) (parseMessage : JsString → JsString)
    (configPath : JsString) (h : Valid config) :
    loadConfig numbers parseMessage configPath (.read (savedConfig numbers config)) =
      .ok config := by
  have hdata := configJson_isData numbers config
  have hwell : WellFormed (Json.prettyJson numbers.text (configJson config) ++ js "\n") :=
    (wellFormed_prettyFrom _ hdata.atoms 0).append (wellFormed_js "\n")
  have hparse : Json.parse numbers (Json.prettyJson numbers.text (configJson config) ++ js "\n") =
      some (configJson config) := by
    rw [Json.prettyJson, js_newline,
      parse_scans (scans_prettyFrom _ hdata.atoms 0) hdata blank_newline,
      enumerate_self hdata.keys (everywhere_configJson (by decide))]
  rw [loadConfig, savedConfig, Utf8.bufferToString_bufferFrom _ hwell, hparse]
  exact validateConfig_configJson configPath h

end reading

section updates

/-- `parseConfigValue` and then `setConfigValue`. -/
def updateConfig (config : SolarcidoConfig) (update : ConfigKey × JsString) :
    Except JsString SolarcidoConfig :=
  (parseConfigValue update.1 update.2).map (setConfigValue config update.1)

theorem updateConfig_ok {config config' : SolarcidoConfig} {key : ConfigKey} {raw : JsString}
    (h : updateConfig config (key, raw) = .ok config') :
    ∃ value, parseConfigValue key raw = .ok value ∧ config' = setConfigValue config key value := by
  unfold updateConfig at h
  cases hvalue : parseConfigValue key raw with
  | error message =>
    rw [hvalue] at h
    cases h
  | ok value =>
    rw [hvalue] at h
    cases h
    exact ⟨value, rfl, rfl⟩

theorem updateConfig_updating :
    KeyedUpdates.Updating id getConfigValue parseConfigValue updateConfig where
  own := by
    intro config config' key raw h
    obtain ⟨value, hvalue, rfl⟩ := updateConfig_ok h
    exact hvalue.trans (congrArg Except.ok (getConfigValue_set config key value).symm)
  other := by
    intro config config' key updated raw h hne
    obtain ⟨value, -, rfl⟩ := updateConfig_ok h
    exact getConfigValue_set_of_ne hne value

theorem updateConfig_valid {config config' : SolarcidoConfig} {update : ConfigKey × JsString}
    (h : Valid config) (hupdate : updateConfig config update = .ok config') : Valid config' := by
  obtain ⟨value, hvalue, rfl⟩ := updateConfig_ok hupdate
  exact valid_set h (parseConfigValue_valid hvalue)

end updates

open Crates

section reload

variable (numbers : NumberTexts) (parseMessage : JsString → JsString) (configPath : JsString)
  (serde : Crates.Config.SerdeText) (path : RustString)

/-- In either program: what is saved after a run of accepted updates on a configuration that was
loaded is loaded as it is, each key with the last value it was given, or with the one it had. -/
theorem reload_updates :
    (∀ (file : FileRead) (start last : SolarcidoConfig) (updates : List (ConfigKey × JsString)),
      loadConfig numbers parseMessage configPath file = .ok start →
      updates.foldlM updateConfig start = .ok last →
      loadConfig numbers parseMessage configPath (.read (savedConfig numbers last)) = .ok last ∧
        ∀ key, KeyedUpdates.Holds id getConfigValue parseConfigValue start last updates key) ∧
    ∀ (file : Crates.Config.ReadToString) (start last : Crates.Config.SolarcidoConfig)
      (updates : List (RustString × RustString)),
      Crates.Config.load serde path file = .ok start →
      updates.foldlM Crates.Config.updateConfig start = .ok last →
      serde.ReadsBack last.toValue →
      Crates.Config.load serde path (.read (Crates.Config.saved serde last)) = .ok last ∧
        last.mcp = start.mcp ∧
        ∀ key, KeyedUpdates.Holds Crates.Config.ConfigKey.name Crates.Config.SolarcidoConfig.field
          Crates.Config.parseValue start last updates key := by
  refine ⟨fun file start last updates hstart hlast => ⟨?_, ?_⟩,
    fun file start last updates hstart hlast hjson => ⟨?_, ?_, ?_⟩⟩
  · have hvalid : Valid last := KeyedUpdates.run_keeps (P := Valid)
      (fun _ _ _ => updateConfig_valid) (loadConfig_valid hstart) hlast
    exact loadConfig_saved numbers parseMessage configPath hvalid
  · exact updateConfig_updating.holds hlast
  · have hvalid : Crates.Config.Valid last := KeyedUpdates.run_keeps (P := Crates.Config.Valid)
      (fun _ _ _ => Crates.Config.updateConfig_valid) (Crates.Config.load_valid hstart) hlast
    exact Crates.Config.load_saved path hvalid hjson
  · exact KeyedUpdates.run_keeps (P := fun config => config.mcp = start.mcp)
      (fun _ _ _ hkept hupdate => (Crates.Config.updateConfig_mcp hupdate).trans hkept) rfl hlast
  · exact Crates.Config.updateConfig_updating.holds hlast

end reload

/-- The other program's configuration with a model and `quiet` set. -/
def quietConfig : Crates.Config.SolarcidoConfig :=
  { Crates.Config.SolarcidoConfig.default with model := str "solar-mini", quiet := true }

def quietText : RustString :=
  str "\x7b\n  \"model\": \"solar-mini\",\n  \"reasoningEffort\": \"medium\",\n" ++
    str "  \"approvalPolicy\": \"on-failure\",\n  \"sandbox\": \"workspace-write\",\n" ++
    str "  \"quiet\": true,\n  \"mcp\": \x7b\n    \"servers\": \x7b\x7d\n  \x7d\n\x7d"

/-- The JSON library, as far as one document needs it. -/
def serdeFor (text : RustString) (document : Value) : Crates.Config.SerdeText where
  toStringPretty _ := text
  fromStr s :=
    if s = text ++ str "\n" then .ok document.sorted
    else .error (str "expected value at line 1 column 1")
  fromValueError _ := str "invalid type"

theorem serdeFor_readsBack (text : RustString) (document : Value) :
    (serdeFor text document).ReadsBack document := if_pos rfl

theorem reload_quiet :
    (∃ last, [(ConfigKey.model, js " solar-mini "), (.quiet, js "true")].foldlM updateConfig
        DEFAULT_CONFIG = .ok last ∧
      loadConfig wholeNumberTexts id (js "config.json")
        (.read (savedConfig wholeNumberTexts last)) = .ok last) ∧
      Crates.Config.load (serdeFor quietText quietConfig.toValue) (str "config.json")
        (.read (Crates.Config.saved (serdeFor quietText quietConfig.toValue) quietConfig)) =
          .ok quietConfig := by
  have h := reload_updates wholeNumberTexts id (js "config.json")
    (serdeFor quietText quietConfig.toValue) (str "config.json")
  refine ⟨⟨{ DEFAULT_CONFIG with model := js "solar-mini", quiet := true }, rfl, ?_⟩, ?_⟩
  · exact (h.1 .notFound DEFAULT_CONFIG _
      [(.model, js " solar-mini "), (.quiet, js "true")] rfl rfl).1
  · exact (h.2 .notFound .default quietConfig
      [(str "model", str " solar-mini "), (str "quiet", str "true")] rfl rfl
      (serdeFor_readsBack _ _)).1

end Solarcido.Config
