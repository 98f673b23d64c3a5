import Solarcido.Crates.Paths
import Solarcido.Crates.Responses
import Solarcido.Lib.Attempts

namespace Solarcido.Crates

open RustText Attempts

/-- A `Duration`: its nanoseconds. -/
abbrev Duration := Fin (2 ^ 64 * 10 ^ 9)

namespace Duration

def zero : Duration := ⟨0, by decide⟩

def fromSecs (secs : U64) : Duration := ⟨secs.val * 10 ^ 9, by omega⟩

def fromNanos (nanos : UInt64) : Duration :=
  ⟨nanos.toNat, by have := nanos.toNat_lt; omega⟩

def checkedMul (d : Duration) (n : U32) : Option Duration :=
  if h : d.val * n.val < 2 ^ 64 * 10 ^ 9 then some ⟨d.val * n.val, h⟩ else none

/-- `a + b`. -/
def add (a b : Duration) : Except Panic Duration :=
  if h : a.val + b.val < 2 ^ 64 * 10 ^ 9 then .ok ⟨a.val + b.val, h⟩
  else .error ⟨str "overflow when adding durations"⟩

end Duration

/-- The errors of sending a request. A transport error comes with what it says of itself. -/
inductive SendError where
  | http (text : RustString) (isConnect isTimeout isRequest : Bool)
  | api (status : Nat) (errorType message requestId : Option RustString) (body : RustString)
      (retryable : Bool) (suggestedAction : Option RustString)
  | retriesExhausted (attempts : U32) (lastError : SendError)
  | backoffOverflow (attempt : U32) (baseDelay : Duration)
  | requestBodySizeExceeded (estimatedBytes maxBytes : Nat) (provider : RustString)

def SendError.isRetryable : SendError → Bool
  | .http _ isConnect isTimeout isRequest => isConnect || isTimeout || isRequest
  | .api _ _ _ _ _ retryable _ => retryable
  | .retriesExhausted _ lastError => lastError.isRetryable
  | .backoffOverflow _ _ => false
  | .requestBodySizeExceeded _ _ _ => false

theorem val_of_checkedAdd {a b c : U32} (h : checkedAdd a b = .ok c) : c.val = a.val + b.val := by
  rw [checkedAdd] at h
  split at h
  · cases h
    rfl
  · cases h

section attempts

structure ErrorBody where
  errorType : Option RustString
  message : Option RustString

structure ErrorEnvelope where
  error : ErrorBody

def ErrorBody.deserialize (v : Value) : Option ErrorBody := do
  let v ← v.asStruct [str "type", str "message"]
  let errorType ← Value.optional Value.asStr (str "type") v
  let message ← Value.optional Value.asStr (str "message") v
  some ⟨errorType, message⟩

def ErrorEnvelope.deserialize (v : Value) : Option ErrorEnvelope := do
  let v ← v.asStruct [str "error"]
  let error ← Value.required ErrorBody.deserialize (str "error") v
  some ⟨error⟩

/-- An answer, and the text of its body if that can be read. -/
structure HttpResponse where
  status : Nat
  requestId : Option RustString
  body : Option RustString

structure HttpError where
  text : RustString
  isConnect : Bool
  isTimeout : Bool
  isRequest : Bool

def maxRequestBodyBytes : Nat := 104857600

/-- What an attempt meets: what posting the request gives, and what the clock and the counter say
should it be repeated. -/
structure Weather where
  post : Except HttpError HttpResponse
  clock : UInt64
  tick : UInt64

variable (serde : SerdeJson) (floatText : UInt64 → RustString) (request : MessageRequest)

/-- `expect_success`. -/
def expectSuccess (response : HttpResponse) : Except SendError HttpResponse :=
  if 200 ≤ response.status ∧ response.status < 300 then .ok response
  else
    let body := response.body.getD []
    let parsed := (serde.fromStr body).bind ErrorEnvelope.deserialize
    let retryable := [408, 409, 429, 500, 502, 503, 504].contains response.status
    .error (.api response.status (parsed.bind fun e => e.error.errorType)
      (parsed.bind fun e => e.error.message) response.requestId body retryable
      (ApiError.suggestedActionForStatus response.status))

/-- `check_request_body_size`. -/
def checkRequestBodySize : Except SendError Unit :=
  let size := (utf8 ((Wire.buildChatCompletionRequest floatText request).display floatText)).length
  if maxRequestBodyBytes < size then
    .error (.requestBodySizeExceeded size maxRequestBodyBytes (str "Upstage"))
  else .ok ()

/-- `send_raw`. -/
def sendRaw (weather : Weather) : Except SendError HttpResponse := do
  checkRequestBodySize floatText request
  weather.post.mapError fun e => .http e.text e.isConnect e.isTimeout e.isRequest

/-- An attempt; the two places it can fail in are treated alike. -/
def attempted (weather : Weather) : Except SendError HttpResponse := do
  let response ← sendRaw floatText request weather
  expectSuccess serde response

end attempts

section backoff

/-- `a.checked_shl(bits)`. -/
def checkedShl (a bits : U32) : Option U32 :=
  if bits.val < 32 then some ⟨a.val * 2 ^ bits.val % 2 ^ 32, Nat.mod_lt _ (by decide)⟩ else none

/-- The number the jitter is cut from. -/
def Weather.mixed (weather : Weather) : UInt64 :=
  let mixed := weather.clock + weather.tick + 0x9E3779B97F4A7C15
  let mixed := (mixed ^^^ (mixed >>> 30)) * 0xBF58476D1CE4E5B9
  let mixed := (mixed ^^^ (mixed >>> 27)) * 0x94D049BB133111EB
  mixed ^^^ (mixed >>> 31)

/-- `jitter_for_base`. -/
def jitterForBase (base : Duration) (weather : Weather) : Duration :=
  let baseNanos := min base.val (2 ^ 64 - 1)
  if baseNanos = 0 then .zero
  else .fromNanos (weather.mixed % UInt64.ofNat (min (baseNanos + 1) (2 ^ 64 - 1)))

/-- How the loop ends. -/
inductive SendEnd where
  | returned (result : Except SendError HttpResponse)
  | panicked (panic : Panic)

/-- A delay, and the base it comes from. -/
structure Backoff where
  base : Duration
  delay : Duration

/-- A client; what it sends with, and where, is outside. -/
structure SolarClient where
  maxRetries : U32
  initialBackoff : Duration
  maxBackoff : Duration

namespace SolarClient

def new : SolarClient := ⟨8, .fromSecs 1, .fromSecs 128⟩

def withRetryPolicy (_ : SolarClient) (maxRetries : U32) (initialBackoff maxBackoff : Duration) :
    SolarClient := ⟨maxRetries, initialBackoff, maxBackoff⟩

variable (s : SolarClient)

def backoff (attempt : U32) : Except SendError Duration :=
  match checkedShl 1 ⟨attempt.val - 1, by omega⟩ with
  | none => .error (.backoffOverflow attempt s.initialBackoff)
  | some multiplier => .ok (((Duration.checkedMul s.initialBackoff multiplier).map
      fun d => min d s.maxBackoff).getD s.maxBackoff)

def jitteredBackoff (weather : Weather) (attempt : U32) : Except SendEnd Backoff := do
  let base ← (s.backoff attempt).mapError fun e => SendEnd.returned (.error e)
  let delay ← (Duration.add base (jitterForBase base weather)).mapError SendEnd.panicked
  .ok ⟨base, delay⟩

end SolarClient

end backoff

/-- What has been sent, and slept, when the loop has ended. -/
structure Sent where
  made : Nat
  sleeps : List Backoff
  sendEnd : SendEnd

namespace SolarClient

variable (serde : SerdeJson) (floatText : UInt64 → RustString) (request : MessageRequest)
  (s : SolarClient) (weather : Nat → Weather)

/-- One pass of the loop, behind the counting: how it ends the loop, or how long it sleeps. -/
def pass (attempts : U32) : Except SendEnd Backoff :=
  match attempted serde floatText request (weather attempts.val) with
  | .ok response => .error (.returned (.ok response))
  | .error e =>
    if e.isRetryable then do
      let limit ← (checkedAdd s.maxRetries 1).mapError SendEnd.panicked
      if attempts ≤ limit then
        if s.maxRetries < attempts then .error (.returned (.error (.retriesExhausted attempts e)))
        else s.jitteredBackoff (weather attempts.val) attempts
      else .error (.returned (.error e))
    else .error (.returned (.error e))

def sendFrom (attempts : U32) : Sent :=
  match h : checkedAdd attempts 1 with
  | .error p => ⟨0, [], .panicked p⟩
  | .ok next =>
    have : next.val = attempts.val + 1 := val_of_checkedAdd h
    match s.pass serde floatText request weather next with
    | .error sendEnd => ⟨1, [], sendEnd⟩
    | .ok sleep =>
      let rest := sendFrom next
      ⟨rest.made + 1, sleep :: rest.sleeps, rest.sendEnd⟩
termination_by 2 ^ 32 - attempts.val

def sendWithRetry : Sent := s.sendFrom serde floatText request weather 0

end SolarClient

end Solarcido.Crates
