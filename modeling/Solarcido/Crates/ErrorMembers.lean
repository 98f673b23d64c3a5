import Solarcido.Crates.Responses

namespace Solarcido.Crates

open RustText

section embedded

variable (fallback : RustString) (requestId : Option RustString) (body : RustString) {raw : Value}

/-- `ApiError::Api`. -/
def ApiError.IsApi : ApiError → Prop
  | .api _ _ _ _ _ _ _ => True
  | _ => False

/-- A call ends with an error the provider has reported. -/
def ReportsApi {α : Type} (result : Except ApiError α) : Prop :=
  ∃ error, result = .error error ∧ error.IsApi

theorem embedded_some {errObj : Value} (h : raw.get (str "error") = some errObj) :
    ∃ error, ApiError.embedded fallback requestId body raw = some error ∧ error.IsApi := by
  rw [ApiError.embedded, h, Option.map_some]
  exact ⟨_, rfl, trivial⟩

/-- A document is refused for its `error` member if and only if that has a value. -/
def ReportedRightly (valid : Value → Prop) (raw : Value) (refused : Prop) : Prop :=
  (valid raw → raw.get (str "error") = none ∨ raw.get (str "error") = some .null → ¬ refused) ∧
    ∀ errObj, raw.get (str "error") = some errObj → errObj ≠ .null → refused

/-- Where each `error` member, and nothing else, gets a valid document refused, the ones with
`null` are those it goes wrong for. -/
theorem reportedRightly_iff {valid : Value → Prop} {refused : Prop}
    (hmember : (raw.get (str "error")).isSome → refused)
    (hvalid : valid raw → raw.get (str "error") = none → ¬ refused) :
    ReportedRightly valid raw refused ↔ (valid raw → raw.get (str "error") ≠ some .null) := by
  constructor
  · intro h hraw hnull
    exact h.1 hraw (Or.inr hnull) (hmember (by rw [hnull, Option.isSome_some]))
  · intro h
    refine ⟨fun hraw hfree => ?_, fun errObj hsome _ => hmember (by rw [hsome, Option.isSome_some])⟩
    obtain hnone | hnull := hfree
    · exact hvalid hraw hnone
    · exact absurd hnull (h hraw)

end embedded

section paths

variable (serde : SerdeJson) (model : RustString)

def IsCompletion (raw : Value) : Prop := (ChatCompletionResponse.deserialize raw).isSome

def IsCompletionChunk (raw : Value) : Prop := (ChatCompletionChunk.deserialize raw).isSome

/-- What is promised of the body of a successful response. -/
def BodyReportedRightly (requestId : Option RustString) (body : RustString) : Prop :=
  ∀ raw, serde.fromStr body = some raw → ReportedRightly IsCompletion raw
    (ReportsApi (Client.receiveBody serde model requestId body))

/-- What is promised of a frame of a stream. -/
def FrameReportedRightly (frame : RustString) : Prop :=
  ∀ payload raw, Sse.payloadOf frame = some payload → serde.fromStr payload = some raw →
    ReportedRightly IsCompletionChunk raw (ReportsApi (Sse.parseSseFrame serde model frame))

theorem normalizeResponse_no_api (response : ChatCompletionResponse)
    (requestId : Option RustString) :
    ¬ ReportsApi ((Client.normalizeResponse serde model response).map
      fun normalized => { normalized with requestId := normalized.requestId.or requestId }) := by
  rw [Client.normalizeResponse]
  rintro ⟨error, herror, hapi⟩
  cases hchoice : response.choices.head? with
  | none =>
    simp only [hchoice, Except.map, Except.error.injEq] at herror
    rw [← herror] at hapi
    exact hapi
  | some choice => simp only [hchoice, Except.map, reduceCtorEq] at herror

theorem bodyReportedRightly_iff (requestId : Option RustString) (body : RustString) :
    BodyReportedRightly serde model requestId body ↔
      ∀ raw, serde.fromStr body = some raw → IsCompletion raw →
        raw.get (str "error") ≠ some .null := by
  refine forall_congr' fun raw => forall_congr' fun hraw => reportedRightly_iff ?_ ?_
  · intro hmember
    obtain ⟨errObj, herrObj⟩ := Option.isSome_iff_exists.mp hmember
    obtain ⟨error, herror, hapi⟩ :=
      embedded_some (str "provider returned an error") requestId body herrObj
    refine ⟨error, ?_, hapi⟩
    rw [Client.receiveBody, hraw]
    simp only [herror]
  · intro hvalid hnone
    obtain ⟨payload, hpayload⟩ := Option.isSome_iff_exists.mp hvalid
    rw [Client.receiveBody, hraw]
    simp only [ApiError.embedded_none _ requestId body hnone, hpayload]
    exact normalizeResponse_no_api serde model payload requestId

theorem frameReportedRightly_iff (frame : RustString) :
    FrameReportedRightly serde model frame ↔
      ∀ payload raw, Sse.payloadOf frame = some payload → serde.fromStr payload = some raw →
        IsCompletionChunk raw → raw.get (str "error") ≠ some .null := by
  refine forall_congr' fun payload => forall_congr' fun raw => forall_congr' fun hpayload =>
    forall_congr' fun hraw => reportedRightly_iff ?_ ?_
  · intro hmember
    obtain ⟨errObj, herrObj⟩ := Option.isSome_iff_exists.mp hmember
    obtain ⟨error, herror, hapi⟩ :=
      embedded_some (str "provider returned an error in stream") none payload herrObj
    refine ⟨error, ?_, hapi⟩
    rw [Sse.parseSseFrame, hpayload]
    simp only [Sse.decodePayload, hraw, herror]
    rfl
  · intro hvalid hnone
    obtain ⟨chunk, hchunk⟩ := Option.isSome_iff_exists.mp hvalid
    rw [Sse.parseSseFrame, hpayload]
    simp only [Sse.decodePayload, hraw, ApiError.embedded_none _ none payload hnone, hchunk]
    rintro ⟨error, herror, -⟩
    cases herror

/-- Bodies and frames are refused for an error, and only for one, except those that say that there
is none. -/
theorem reportedRightly_paths_iff (requestId : Option RustString) (text : RustString) :
    (BodyReportedRightly serde model requestId text ↔
      ∀ raw, serde.fromStr text = some raw → IsCompletion raw →
        raw.get (str "error") ≠ some .null) ∧
    (FrameReportedRightly serde model text ↔
      ∀ payload raw, Sse.payloadOf text = some payload → serde.fromStr payload = some raw →
        IsCompletionChunk raw → raw.get (str "error") ≠ some .null) :=
  ⟨bodyReportedRightly_iff serde model requestId text, frameReportedRightly_iff serde model text⟩

end paths

section null

/-- A completion that says that there is no error. -/
def errorFree : Value :=
  .object [(str "id", .string (str "1")), (str "model", .string (str "solar-pro3")),
    (str "choices", .array [.object [(str "message", .object [
      (str "role", .string (str "assistant")), (str "content", .string (str "hi"))])]]),
    (str "error", .null)]

def errorFreeText : RustString :=
  str "\x7b\"id\":\"1\",\"model\":\"solar-pro3\",\"choices\":[\x7b\"message\":" ++
    str "\x7b\"role\":\"assistant\",\"content\":\"hi\"\x7d\x7d],\"error\":null\x7d"

/-- A reader that reads this one text. -/
def errorFreeReader : SerdeJson where
  fromStr s := if s = errorFreeText then some errorFree else none
  fromStr_blank s h := by
    split
    · next hs =>
      have hbrace : '\x7b' ∈ errorFreeText := by
        rw [errorFreeText, str_eq rfl]
        exact List.mem_cons_self
      rw [hs] at h
      exact absurd h (trim_ne_nil hbrace (by decide))
    · rfl

theorem errorFree_reported :
    ¬ BodyReportedRightly errorFreeReader (str "solar-pro3") none errorFreeText := by
  intro h
  have hread : errorFreeReader.fromStr errorFreeText = some errorFree := by
    simp only [errorFreeReader, ↓reduceIte]
  exact (bodyReportedRightly_iff _ _ _ _).mp h errorFree hread rfl rfl

end null

end Solarcido.Crates
