import Solarcido.Config.Loader
import Solarcido.Config.Suggestions
import Solarcido.Js.Value
import Solarcido.Rpc.Message

namespace Solarcido.Config

open Text
open Rpc (typeOf)

inductive ConfigDiagnostic where
  | unknownKey (key : JsString) (suggestion : Option JsString)
  | wrongType (key expected got : JsString)
  | deprecated (key : JsString) (replacement : Option JsString)
  deriving DecidableEq

def REASONING_EFFORT_VALUES : List JsString := [js "low", js "medium", js "high"]

def APPROVAL_POLICY_VALUES : List JsString := [js "never", js "on-failure", js "on-request"]

def SANDBOX_VALUES : List JsString := [js "read-only", js "workspace-write"]

/-- A key whose values are words: the type is told of a value that is no string, and the word of
one that is. -/
def checkWord (expected : JsString) (values : List JsString) : Json → Option (JsString × JsString)
  | .str s => if values.contains s then none else some (expected, js "\"" ++ s ++ js "\"")
  | value => some (expected, typeOf value)

/-- What is expected and what there is, for a value of the wrong type. No case is there for
`stream`. -/
def checkValueType (key : JsString) (value : Json) : Option (JsString × JsString) :=
  if key = js "model" then
    match value with
    | .str _ => none
    | value => some (js "string", typeOf value)
  else if key = js "reasoningEffort" then
    checkWord (js "low|medium|high") REASONING_EFFORT_VALUES value
  else if key = js "approvalPolicy" then
    checkWord (js "never|on-failure|on-request") APPROVAL_POLICY_VALUES value
  else if key = js "sandbox" then checkWord (js "read-only|workspace-write") SANDBOX_VALUES value
  else if key = js "quiet" then
    match value with
    | .bool _ => none
    | value => some (js "boolean", typeOf value)
  else none

def DEPRECATED_KEYS : List (JsString × Option JsString) := [(js "maxSteps", none)]

/-- The diagnostic of one entry, if it has one. -/
def diagnoseEntry (knownKeys : List JsString) (entry : JsString × Json) : Option ConfigDiagnostic :=
  let (key, value) := entry
  match DEPRECATED_KEYS.lookup key with
  | some replacement => some (.deprecated key replacement)
  | none =>
    if knownKeys.contains key then
      (checkValueType key value).map fun typeError => .wrongType key typeError.1 typeError.2
    else some (.unknownKey key (suggestKey key knownKeys))

def validateConfigDiagnostics (parsed : List (JsString × Json)) (knownKeys : List JsString) :
    List ConfigDiagnostic :=
  parsed.filterMap (diagnoseEntry knownKeys)

/-- An unknown key or a wrong type. -/
def ConfigDiagnostic.isFault : ConfigDiagnostic → Bool
  | .deprecated _ _ => false
  | _ => true

section faults

/-- A value of a known key that the diagnostics tell and the loader rejects. -/
def sharedFault : ConfigKey → Json → Bool
  | .model, .str _ => false
  | .model, _ => true
  | .reasoningEffort, .str s => (reasoningEffortOf s).isNone
  | .reasoningEffort, _ => true
  | .approvalPolicy, .str s => (approvalPolicyOf s).isNone
  | .approvalPolicy, _ => true
  | .sandbox, .str s => (sandboxOf s).isNone
  | .sandbox, _ => true
  | .quiet, .bool _ => false
  | .quiet, _ => true
  | .stream, _ => false

/-- A value of a known key that only the loader rejects: a blank model, or a `stream` that is no
boolean. -/
def missedFault : ConfigKey → Json → Bool
  | .model, .str s => (trim s).isEmpty
  | .stream, .bool _ => false
  | .stream, _ => true
  | _, _ => false

/-- An unknown key, or a known one with a value that both reject. -/
def EntryFault (m : JsString × Json) : Prop :=
  isUnknownKey m.1 = true ∨ ∃ key : ConfigKey, key.name = m.1 ∧ sharedFault key m.2 = true

def HasSharedFault (members : List (JsString × Json)) : Prop := ∃ m ∈ members, EntryFault m

def HasMissedFault (members : List (JsString × Json)) : Prop :=
  ∃ m ∈ members, ∃ key : ConfigKey, key.name = m.1 ∧ missedFault key m.2 = true

variable {members : List (JsString × Json)}

theorem checkWord_isSome {α : Type} {expected : JsString} {values : List JsString}
    {wordOf : JsString → Option α} (h : ∀ s, values.contains s = (wordOf s).isSome) (s : JsString) :
    (checkWord expected values (.str s)).isSome = (wordOf s).isNone := by
  rw [checkWord, h]
  cases wordOf s <;> rfl

theorem reasoningEffortOf_isSome (s : JsString) :
    REASONING_EFFORT_VALUES.contains s = (reasoningEffortOf s).isSome := by
  rw [Bool.eq_iff_iff, List.contains_iff_mem, REASONING_EFFORT_VALUES, reasoningEffortOf]
  split_ifs <;> simp_all

theorem approvalPolicyOf_isSome (s : JsString) :
    APPROVAL_POLICY_VALUES.contains s = (approvalPolicyOf s).isSome := by
  rw [Bool.eq_iff_iff, List.contains_iff_mem, APPROVAL_POLICY_VALUES, approvalPolicyOf]
  split_ifs <;> simp_all

theorem sandboxOf_isSome (s : JsString) : SANDBOX_VALUES.contains s = (sandboxOf s).isSome := by
  rw [Bool.eq_iff_iff, List.contains_iff_mem, SANDBOX_VALUES, sandboxOf]
  split_ifs <;> simp_all

theorem checkValueType_isSome (key : ConfigKey) (value : Json) :
    (checkValueType key.name value).isSome = sharedFault key value := by
  cases key with
  | model => cases value <;> rfl
  | reasoningEffort =>
    cases value with
    | str s => exact checkWord_isSome reasoningEffortOf_isSome s
    | _ => rfl
  | approvalPolicy =>
    cases value with
    | str s => exact checkWord_isSome approvalPolicyOf_isSome s
    | _ => rfl
  | sandbox =>
    cases value with
    | str s => exact checkWord_isSome sandboxOf_isSome s
    | _ => rfl
  | quiet => cases value <;> rfl
  | stream => rfl

theorem lookup_deprecated (key : JsString) :
    DEPRECATED_KEYS.lookup key = if isLegacyConfigKey key then some none else none := by
  by_cases h : key = js "maxSteps"
  · subst h
    decide
  · have hlegacy : isLegacyConfigKey key = false := by
      rw [← Bool.not_eq_true, isLegacyConfigKey_iff]
      exact h
    rw [hlegacy, DEPRECATED_KEYS, List.lookup_cons, beq_false_of_ne h]
    rfl

theorem name_ne_legacy (key : ConfigKey) : isLegacyConfigKey key.name = false := by
  cases key <;> decide

theorem diagnoseEntry_legacy {key : JsString} (h : isLegacyConfigKey key = true) (value : Json) :
    diagnoseEntry configKeyNames (key, value) = some (.deprecated key none) := by
  simp only [diagnoseEntry, lookup_deprecated, h, if_true]

theorem diagnoseEntry_unknown {key : JsString} (h : isUnknownKey key = true) (value : Json) :
    diagnoseEntry configKeyNames (key, value) =
      some (.unknownKey key (suggestKey key configKeyNames)) := by
  rw [isUnknownKey, Bool.and_eq_true, Bool.not_eq_true', Bool.not_eq_true'] at h
  have hconfig : configKeyNames.contains key = false := h.1
  simp only [diagnoseEntry, lookup_deprecated, h.2, hconfig, Bool.false_eq_true, if_false]

theorem diagnoseEntry_known (key : ConfigKey) (value : Json) :
    diagnoseEntry configKeyNames (key.name, value) =
      (checkValueType key.name value).map fun typeError =>
        .wrongType key.name typeError.1 typeError.2 := by
  have hconfig : configKeyNames.contains key.name = true := (isConfigKey_iff _).mpr ⟨key, rfl⟩
  simp only [diagnoseEntry, lookup_deprecated, name_ne_legacy, hconfig, Bool.false_eq_true,
    if_false, if_true]

/-- A key is legacy, unknown, or one of the configuration's. -/
theorem key_cases (key : JsString) :
    isLegacyConfigKey key = true ∨ isUnknownKey key = true ∨ ∃ known : ConfigKey, known.name = key := by
  rw [← isConfigKey_iff, isUnknownKey]
  cases isLegacyConfigKey key <;> cases isConfigKey key <;> decide

theorem entryFault_known (key : ConfigKey) (value : Json) :
    EntryFault (key.name, value) ↔ sharedFault key value = true := by
  constructor
  · rintro (hunknown | ⟨other, hname, hfault⟩)
    · have hconfig : isConfigKey key.name = true := (isConfigKey_iff _).mpr ⟨key, rfl⟩
      rw [isUnknownKey, hconfig] at hunknown
      cases hunknown
    · rwa [name_injective hname] at hfault
  · exact fun hfault => Or.inr ⟨key, rfl, hfault⟩

theorem diagnoseEntry_isFault (m : JsString × Json) :
    (∃ d ∈ diagnoseEntry configKeyNames m, d.isFault = true) ↔ EntryFault m := by
  obtain ⟨key, value⟩ := m
  rcases key_cases key with hlegacy | hunknown | ⟨known, rfl⟩
  · rw [diagnoseEntry_legacy hlegacy]
    refine iff_of_false (by simp [ConfigDiagnostic.isFault]) ?_
    rintro (hunknown | ⟨known, rfl, -⟩)
    · rw [isUnknownKey, hlegacy, Bool.not_true, Bool.and_false] at hunknown
      cases hunknown
    · rw [name_ne_legacy] at hlegacy
      cases hlegacy
  · rw [diagnoseEntry_unknown hunknown]
    exact iff_of_true ⟨_, rfl, rfl⟩ (Or.inl hunknown)
  · rw [diagnoseEntry_known, entryFault_known, ← checkValueType_isSome]
    cases checkValueType known.name value with
    | none => simp
    | some typeError => exact iff_of_true ⟨_, rfl, rfl⟩ rfl

theorem diagnostics_isFault :
    (∃ d ∈ validateConfigDiagnostics members configKeyNames, d.isFault = true) ↔
      HasSharedFault members := by
  constructor
  · rintro ⟨d, hd, hfault⟩
    obtain ⟨m, hm, hentry⟩ := List.mem_filterMap.mp hd
    exact ⟨m, hm, (diagnoseEntry_isFault m).mp ⟨d, hentry, hfault⟩⟩
  · rintro ⟨m, hm, hshared⟩
    obtain ⟨d, hentry, hfault⟩ := (diagnoseEntry_isFault m).mpr hshared
    exact ⟨d, List.mem_filterMap.mpr ⟨m, hm, hentry⟩, hfault⟩

theorem wordField_ok_iff {α : Type} (message : JsString) (wordOf : JsString → Option α)
    (s : JsString) :
    (∃ v, wordField message wordOf (.str s) = .ok v) ↔ (wordOf s).isNone = false := by
  rw [wordField]
  cases wordOf s with
  | none => exact iff_of_false (fun ⟨_, h⟩ => nomatch h) (by simp)
  | some v => exact iff_of_true ⟨v, rfl⟩ rfl

theorem validateConfigField_ok_iff (key : ConfigKey) (field : Json) :
    (∃ v, validateConfigField key field = .ok v) ↔
      sharedFault key field = false ∧ missedFault key field = false := by
  cases key with
  | model =>
    cases field with
    | str s =>
      rw [validateConfigField]
      cases h : (trim s).isEmpty with
      | true => simp [missedFault, h]
      | false => exact iff_of_true ⟨s, rfl⟩ ⟨rfl, h⟩
    | _ => simp [validateConfigField, sharedFault]
  | reasoningEffort =>
    cases field with
    | str s =>
      exact (wordField_ok_iff _ reasoningEffortOf s).trans (and_iff_left rfl).symm
    | _ => simp [validateConfigField, wordField, sharedFault]
  | approvalPolicy =>
    cases field with
    | str s => exact (wordField_ok_iff _ approvalPolicyOf s).trans (and_iff_left rfl).symm
    | _ => simp [validateConfigField, wordField, sharedFault]
  | sandbox =>
    cases field with
    | str s => exact (wordField_ok_iff _ sandboxOf s).trans (and_iff_left rfl).symm
    | _ => simp [validateConfigField, wordField, sharedFault]
  | quiet =>
    cases field with
    | bool b => exact iff_of_true ⟨b, rfl⟩ ⟨rfl, rfl⟩
    | _ => simp [validateConfigField, flagField, sharedFault]
  | stream =>
    cases field with
    | bool b => exact iff_of_true ⟨b, rfl⟩ ⟨rfl, rfl⟩
    | _ => simp [validateConfigField, flagField, missedFault]

theorem validateConfig_ok_iff_faults (configPath : JsString)
    (hkeys : (members.map Prod.fst).Nodup) :
    (∃ config, validateConfig configPath (.obj members) = .ok config) ↔
      ¬HasSharedFault members ∧ ¬HasMissedFault members := by
  rw [validateConfig_ok_iff]
  constructor
  · rintro ⟨hknown, hfields⟩
    have hfield : ∀ m ∈ members, ∀ key : ConfigKey, key.name = m.1 →
        sharedFault key m.2 = false ∧ missedFault key m.2 = false := by
      intro m hm key hname
      apply (validateConfigField_ok_iff key m.2).mp
      apply hfields
      rw [Option.mem_def, Json.member_eq_some_iff hkeys, hname]
      exact hm
    constructor
    · rintro ⟨m, hm, hunknown | ⟨key, hname, hfault⟩⟩
      · rw [hknown m hm] at hunknown
        cases hunknown
      · rw [(hfield m hm key hname).1] at hfault
        cases hfault
    · rintro ⟨m, hm, key, hname, hfault⟩
      rw [(hfield m hm key hname).2] at hfault
      cases hfault
  · rintro ⟨hshared, hmissed⟩
    constructor
    · intro m hm
      rw [← Bool.not_eq_true]
      exact fun hunknown => hshared ⟨m, hm, Or.inl hunknown⟩
    · intro key field hfield
      have hm := Json.mem_of_member hfield
      rw [validateConfigField_ok_iff, ← Bool.not_eq_true, ← Bool.not_eq_true]
      exact ⟨fun h => hshared ⟨_, hm, Or.inr ⟨key, rfl, h⟩⟩, fun h => hmissed ⟨_, hm, key, rfl, h⟩⟩

/-- The diagnostics find no fault where the loader accepts, and only there. -/
def Agree (configPath : JsString) (members : List (JsString × Json)) : Prop :=
  (∀ d ∈ validateConfigDiagnostics members configKeyNames, d.isFault = false) ↔
    ∃ config, validateConfig configPath (.obj members) = .ok config

theorem agree_iff (configPath : JsString) (members : List (JsString × Json))
    (hkeys : (members.map Prod.fst).Nodup) :
    Agree configPath members ↔ (HasMissedFault members → HasSharedFault members) := by
  have hclean : (∀ d ∈ validateConfigDiagnostics members configKeyNames, d.isFault = false) ↔
      ¬HasSharedFault members := by
    rw [← diagnostics_isFault, not_exists]
    exact forall_congr' fun d => by rw [not_and, Bool.not_eq_true]
  rw [Agree, hclean, validateConfig_ok_iff_faults configPath hkeys]
  tauto

theorem agree_iff_default :
    Agree (js "config.json") [(js "quiet", .bool true)] ↔
      (HasMissedFault [(js "quiet", .bool true)] → HasSharedFault [(js "quiet", .bool true)]) :=
  agree_iff (js "config.json") [(js "quiet", .bool true)] (by simp)

/-- `{"stream": "yes"}` has no diagnostic, and the loader rejects it. -/
theorem not_agree_stream : ¬Agree (js "config.json") [(js "stream", .str (js "yes"))] := by
  intro h
  have hnone : validateConfigDiagnostics [(js "stream", .str (js "yes"))] configKeyNames = [] := by
    decide
  have hall : ∀ d ∈ validateConfigDiagnostics [(js "stream", .str (js "yes"))] configKeyNames,
      d.isFault = false := by
    rw [hnone]
    simp
  obtain ⟨config, hload⟩ := h.mp hall
  have hreject : validateConfig (js "config.json") (.obj [(js "stream", .str (js "yes"))]) =
      .error (js "stream must be a boolean.") := rfl
  rw [hreject] at hload
  cases hload

end faults

end Solarcido.Config
