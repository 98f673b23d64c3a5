import Solarcido.Js.RegExp
import Solarcido.Js.Value

namespace Solarcido.Api

open Text RegExp

inductive ApiErrorKind where
  | auth
  | rateLimit
  | contextWindow
  | retryable
  | json
  | io
  | timeout
  | unknown
  deriving DecidableEq

def ApiErrorKind.name : ApiErrorKind → JsString
  | .auth => js "auth"
  | .rateLimit => js "rate-limit"
  | .contextWindow => js "context-window"
  | .retryable => js "retryable"
  | .json => js "json"
  | .io => js "io"
  | .timeout => js "timeout"
  | .unknown => js "unknown"

structure ClassifiedApiError where
  kind : ApiErrorKind
  message : JsString
  status : Option Int
  code : Option JsString
  requestId : Option JsString

def CONTEXT_WINDOW_MARKERS : List JsString :=
  [js "maximum context length",
    js "context window",
    js "context length",
    js "too many tokens",
    js "prompt is too long",
    js "input is too long",
    js "request is too large"]

def IO_CODES : List JsString :=
  [js "ENOENT", js "EACCES", js "EISDIR", js "ENOTDIR", js "EEXIST", js "EPERM"]

def looksLikeContextWindow (text : JsString) : Bool :=
  CONTEXT_WINDOW_MARKERS.any (includes (toLowerCase text))

section patterns

/-- `/timed?\s?out/i`. -/
def timedOut : Pattern :=
  .seq (literal (js "time")) (.seq (.opt (literal (js "d")))
    (.seq (.opt (.unit isWhiteSpace)) (literal (js "out"))))

/-- `/api[_\s]?key/i`. -/
def apiKey : Pattern :=
  .seq (literal (js "api")) (.seq (.opt (.unit fun u => u == 95 || isWhiteSpace u))
    (literal (js "key")))

/-- `/required|missing|not set|invalid/i`. -/
def absent : Pattern :=
  .alt (literal (js "required")) (.alt (literal (js "missing"))
    (.alt (literal (js "not set")) (literal (js "invalid"))))

def isLineTerminator (u : UInt16) : Bool := u == 10 || u == 13 || u == 0x2028 || u == 0x2029

/-- `/unexpected token.*json/i`. -/
def unexpectedToken : Pattern :=
  .seq (literal (js "unexpected token")) (.seq (.opt (.many fun u => !isLineTerminator u))
    (literal (js "json")))

end patterns

def classifyFields (message name : JsString) (status : Option Int) (code requestId : Option JsString)
    (isSyntaxError : Bool) : ClassifiedApiError :=
  let base := fun kind => (⟨kind, message, status, code, requestId⟩ : ClassifiedApiError)
  -- Without an HTTP status that decides.
  let byMessage :=
    if test apiKey message && test absent message then base .auth
    else if isSyntaxError || test (word (js "json")) name || test unexpectedToken message then
      base .json
    else if looksLikeContextWindow message then base .contextWindow
    else base .unknown
  if includes name (js "Timeout") || code = some (js "ETIMEDOUT") || test timedOut message then
    base .timeout
  else if name = js "APIConnectionError" ∨ code = some (js "ECONNRESET") ∨
      code = some (js "ECONNREFUSED") ∨ code = some (js "ENOTFOUND") then base .retryable
  else if code.any IO_CODES.contains then base .io
  else
    match status with
    | none => byMessage
    | some n =>
      if n = 401 ∨ n = 403 then base .auth
      else if n = 429 then base .rateLimit
      else if (n = 400 ∨ n = 413 ∨ n = 422) ∧ looksLikeContextWindow message then
        base .contextWindow
      else if 500 ≤ n then base .retryable
      else byMessage

def classifyApiError : Thrown → ClassifiedApiError
  | .string s => classifyFields s [] none none none false
  | .other text => ⟨.unknown, text, none, none, none⟩
  | .object e =>
    let message := match e.message with
      | some m => if m.isEmpty then e.text else m
      | none => e.text
    classifyFields message (e.name.getD []) (e.status.orElse fun _ => e.statusCode) e.code
      (e.request_id.orElse fun _ => e.requestID) e.isSyntaxError

/-- The digits of an integer. -/
def intText (n : Int) : JsString :=
  (if n < 0 then js "-" else []) ++ Number.decimal n.natAbs

def formatClassifiedError (error : ClassifiedApiError) : JsString :=
  join (js " ")
    ([js "[" ++ error.kind.name ++ js "]"] ++
      (match error.status with
        | some status => [js "(" ++ intText status ++ js ")"]
        | none => []) ++
      [error.message] ++
      match error.requestId with
      | some id => if id.isEmpty then [] else [js "[trace " ++ id ++ js "]"]
      | none => [])

end Solarcido.Api
