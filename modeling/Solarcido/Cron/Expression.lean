import Solarcido.Js.Date

namespace Solarcido.Cron

open Text Number Search

structure FieldBounds where
  min : Nat
  max : Nat

/-- The allowed values of a field, and whether the field was a bare star. -/
structure FieldSet where
  values : List Nat
  isStar : Bool

structure CronExpression where
  minute : FieldSet
  hour : FieldSet
  dayOfMonth : FieldSet
  month : FieldSet
  dayOfWeek : FieldSet

section errors

inductive CronError where
  | emptySegment (raw : JsString)
  | badStep (stepStr : JsString)
  | notRange (raw : JsString)
  | notInteger (s : JsString)
  | outOfRange (n : Nat) (bounds : FieldBounds) (raw : JsString)
  | reversed (lo hi : Nat) (raw : JsString)
  | fieldCount (n : Nat) (expr : JsString)

/-- The text of the error, by the host's text of a number. -/
def CronError.message (numberText : Nat → JsString) : CronError → JsString
  | .emptySegment raw => js "empty segment in field: \"" ++ raw ++ js "\""
  | .badStep stepStr => js "step must be >= 1, got " ++ stepStr
  | .notRange raw => js "expected range a-b, got \"" ++ raw ++ js "\""
  | .notInteger s => js "expected integer, got \"" ++ s ++ js "\""
  | .outOfRange n bounds raw =>
    js "value " ++ numberText n ++ js " out of range [" ++ numberText bounds.min ++ js ", " ++
      numberText bounds.max ++ js "] in \"" ++ raw ++ js "\""
  | .reversed lo hi raw =>
    js "range start " ++ numberText lo ++ js " > end " ++ numberText hi ++ js " in \"" ++ raw ++ js "\""
  | .fieldCount n expr =>
    js "cron expression must have exactly 5 fields (minute hour dom month dow), got " ++
      numberText n ++ js ": \"" ++ expr ++ js "\""

end errors

section fields

/-- The value is kept as it is written, where the language rounds it past `2 ^ 53`:
the bounds are small. -/
def parseIntStrict (s : JsString) : Except CronError Nat :=
  if s ≠ [] ∧ s.all isDigit then .ok (digitsValue s) else .error (.notInteger s)

def checkBounds (n : Nat) (bounds : FieldBounds) (raw : JsString) : Except CronError Unit :=
  if n < bounds.min ∨ bounds.max < n then .error (.outOfRange n bounds raw) else .ok ()

def parseRange (raw : JsString) (bounds : FieldBounds) : Except CronError (Nat × Nat) :=
  match firstIndexOf (js "-") raw with
  | none => .error (.notRange raw)
  | some dashIdx => do
    let lo ← parseIntStrict (raw.take dashIdx)
    let hi ← parseIntStrict (raw.drop (dashIdx + 1))
    checkBounds lo bounds raw
    checkBounds hi bounds raw
    if hi < lo then .error (.reversed lo hi raw) else .ok (lo, hi)

/-- The values of the loop from `lo` up to `hi`, where `lo` is not above `hi`. -/
def countUp (lo hi step : Nat) : List Nat := List.range' lo ((hi - lo) / step + 1) step

def fullRange (bounds : FieldBounds) : List Nat := countUp bounds.min bounds.max 1

/-- What one segment of the list adds to the field's values. -/
def parseSegment (raw : JsString) (bounds : FieldBounds) (part : JsString) :
    Except CronError (List Nat) :=
  let trimmed := trim part
  if trimmed = [] then .error (.emptySegment raw)
  else
    match firstIndexOf (js "/") trimmed with
    | some slashIdx => do
      let stepStr := trimmed.drop (slashIdx + 1)
      let step ← parseIntStrict stepStr
      if step = 0 then .error (.badStep stepStr)
      else
        let rangeStr := trimmed.take slashIdx
        if rangeStr = js "*" then .ok (countUp bounds.min bounds.max step)
        else do
          let (lo, hi) ← parseRange rangeStr bounds
          return countUp lo hi step
    | none =>
      if includes trimmed (js "-") then do
        let (lo, hi) ← parseRange trimmed bounds
        return countUp lo hi 1
      else do
        let n ← parseIntStrict trimmed
        checkBounds n bounds raw
        return [n]

def parseField (raw : JsString) (bounds : FieldBounds) : Except CronError FieldSet :=
  if raw = js "*" then .ok ⟨fullRange bounds, true⟩
  else do
    let values ← (split raw (js ",")).mapM (parseSegment raw bounds)
    return ⟨values.flatten, false⟩

end fields

section expressions

/-- `s.split(/\s+/)`: `spaces` while a run of white space is passed over. -/
def splitSpacesFrom : Bool → JsString → JsString → List JsString
  | _, piece, [] => [piece.reverse]
  | spaces, piece, u :: rest =>
    if isWhiteSpace u then
      if spaces then splitSpacesFrom true piece rest
      else piece.reverse :: splitSpacesFrom true [] rest
    else splitSpacesFrom false (u :: piece) rest

def splitSpaces (s : JsString) : List JsString := splitSpacesFrom false [] s

def parseCronExpression (expr : JsString) : Except CronError CronExpression :=
  match splitSpaces (trim expr) with
  | [minute, hour, dayOfMonth, month, dayOfWeek] => do
    return {
      minute := ← parseField minute ⟨0, 59⟩
      hour := ← parseField hour ⟨0, 23⟩
      dayOfMonth := ← parseField dayOfMonth ⟨1, 31⟩
      month := ← parseField month ⟨1, 12⟩
      dayOfWeek := ← parseField dayOfWeek ⟨0, 6⟩ }
  | parts => .error (.fieldCount parts.length expr)

def CronExpression.test (expr : CronExpression) (date : Date) : Bool :=
  let minute := date.getUTCMinutes.toNat
  let hour := date.getUTCHours.toNat
  let dayOfMonth := date.getUTCDate.toNat
  let month := (date.getUTCMonth + 1).toNat
  let dayOfWeek := date.getUTCDay.toNat
  if !expr.minute.values.contains minute then false
  else if !expr.hour.values.contains hour then false
  else if !expr.month.values.contains month then false
  else
    let domRestricted := !expr.dayOfMonth.isStar
    let dowRestricted := !expr.dayOfWeek.isStar
    if domRestricted && dowRestricted then
      expr.dayOfMonth.values.contains dayOfMonth || expr.dayOfWeek.values.contains dayOfWeek
    else if domRestricted then expr.dayOfMonth.values.contains dayOfMonth
    else if dowRestricted then expr.dayOfWeek.values.contains dayOfWeek
    else true

/-- `cronMatches` on a string. -/
def cronMatches (expr : JsString) (date : Date) : Except CronError Bool := do
  let parsed ← parseCronExpression expr
  return parsed.test date

/-- Seconds and milliseconds play no part. -/
theorem test_minute (expr : CronExpression) {d e : Date} (h : d.minute = e.minute) :
    expr.test d = expr.test e := by
  have hhour := Date.hour_eq h
  have hday := Date.day_eq_of_hour hhour
  have hminutes : d.getUTCMinutes = e.getUTCMinutes := by
    rw [Date.getUTCMinutes, Date.getUTCMinutes, h]
  have hweekday : d.getUTCDay = e.getUTCDay := by rw [Date.getUTCDay, Date.getUTCDay, hday]
  simp only [CronExpression.test, hminutes, Date.hours_eq hhour, Date.date_eq hday,
    Date.month_eq hday, hweekday]

theorem cronMatches_minute (expr : JsString) {d e : Date} (h : d.minute = e.minute) :
    cronMatches expr d = cronMatches expr e := by
  rw [cronMatches, cronMatches]
  simp only [test_minute _ h]

end expressions

end Solarcido.Cron
