import Mathlib.Data.Rat.Lemmas
import Solarcido.Js.Value

namespace Solarcido.Rpc

open Text Number

/-- How the engine writes the values of a template that are no strings. It writes no two numbers
alike; writing an object may throw. -/
structure TemplateText where
  number : JsNumber → JsString
  number_injective : Function.Injective number
  object : Json → Option JsString

section plain

def integerText : Int → JsString
  | .ofNat n => decimal n
  | .negSucc n => 45 :: decimal (n + 1)

/-- A whole number as the engine writes it, any other as a fraction. -/
def rationalText (q : ℚ) : JsString :=
  integerText q.num ++ if q.den = 1 then [] else 47 :: decimal q.den

def numberText : JsNumber → JsString
  | .nan => js "NaN"
  | .infinite false => js "Infinity"
  | .infinite true => js "-Infinity"
  | .finite q => rationalText q

theorem integerText_injective : Function.Injective integerText := by
  intro a b h
  cases a with
  | ofNat m =>
    cases b with
    | ofNat n => exact congrArg _ (decimal_injective h)
    | negSucc n =>
      have hmem : (45 : UInt16) ∈ decimal m := by
        rw [show decimal m = 45 :: decimal (n + 1) from h]
        exact List.mem_cons_self
      exact absurd hmem (not_mem_decimal (by decide) m)
  | negSucc m =>
    cases b with
    | ofNat n =>
      have hmem : (45 : UInt16) ∈ decimal n := by
        rw [show decimal n = 45 :: decimal (m + 1) from h.symm]
        exact List.mem_cons_self
      exact absurd hmem (not_mem_decimal (by decide) n)
    | negSucc n =>
      have hdigits := decimal_injective (List.cons.inj h).2
      rw [Nat.succ.inj hdigits]

theorem not_mem_integerText {u : UInt16} (h : isDigit u = false) (hminus : u ≠ 45) (n : Int) :
    u ∉ integerText n := by
  cases n with
  | ofNat n => exact not_mem_decimal h n
  | negSucc n =>
    intro hu
    obtain hu | hu := List.mem_cons.mp hu
    · exact hminus hu
    · exact not_mem_decimal h _ hu

theorem not_mem_rationalText {u : UInt16} (h : isDigit u = false) (hminus : u ≠ 45)
    (hslash : u ≠ 47) (q : ℚ) : u ∉ rationalText q := by
  intro hu
  obtain hu | hu := List.mem_append.mp hu
  · exact not_mem_integerText h hminus _ hu
  · split at hu
    · simp at hu
    · obtain hu | hu := List.mem_cons.mp hu
      · exact hslash hu
      · exact not_mem_decimal h _ hu

theorem takeWhile_rationalText (q : ℚ) :
    (rationalText q).takeWhile (· ≠ 47) = integerText q.num := by
  have hnum : ∀ u ∈ integerText q.num, (decide (u ≠ 47)) = true := by
    intro u hu
    apply decide_eq_true
    rintro rfl
    exact not_mem_integerText (by decide) (by decide) _ hu
  rw [rationalText, List.takeWhile_append_of_pos hnum]
  split
  · simp
  · simp

theorem rationalText_injective : Function.Injective rationalText := by
  intro p q h
  have hnum : p.num = q.num := by
    apply integerText_injective
    rw [← takeWhile_rationalText, h, takeWhile_rationalText]
  have hden : p.den = q.den := by
    simp only [rationalText, hnum] at h
    have hrest := List.append_cancel_left h
    split at hrest
    · next hp =>
      split at hrest
      · next hq => rw [hp, hq]
      · cases hrest
    · split at hrest
      · cases hrest
      · exact decimal_injective (List.cons.inj hrest).2
  exact Rat.ext hnum hden

theorem numberText_injective : Function.Injective numberText := by
  have hnan (q : ℚ) : js "NaN" ≠ rationalText q := by
    intro h
    have hmem : (78 : UInt16) ∈ rationalText q := h ▸ (by decide)
    exact not_mem_rationalText (by decide) (by decide) (by decide) q hmem
  have hinfinite (negative : Bool) (q : ℚ) : numberText (.infinite negative) ≠ rationalText q := by
    intro h
    have hmem : (73 : UInt16) ∈ numberText (.infinite negative) := by
      cases negative with
      | false => decide
      | true => decide
    rw [h] at hmem
    exact not_mem_rationalText (by decide) (by decide) (by decide) q hmem
  intro a b h
  cases a with
  | nan =>
    cases b with
    | nan => rfl
    | infinite negative =>
      cases negative with
      | false => exact absurd h (by decide)
      | true => exact absurd h (by decide)
    | finite q => exact absurd h (hnan q)
  | infinite negative =>
    cases b with
    | nan =>
      cases negative with
      | false => exact absurd h (by decide)
      | true => exact absurd h (by decide)
    | infinite negative' =>
      cases negative with
      | false =>
        cases negative' with
        | false => rfl
        | true => exact absurd h (by decide)
      | true =>
        cases negative' with
        | false => exact absurd h (by decide)
        | true => rfl
    | finite q => exact absurd h (hinfinite negative q)
  | finite p =>
    cases b with
    | nan => exact absurd h.symm (hnan p)
    | infinite negative => exact absurd h.symm (hinfinite negative p)
    | finite q => exact congrArg _ (rationalText_injective h)

def plainText : TemplateText where
  number := numberText
  number_injective := numberText_injective
  object := fun _ => some (js "[object Object]")

end plain

section keys

variable (texts : TemplateText)

def typeOf : Json → JsString
  | .bool _ => js "boolean"
  | .num _ => js "number"
  | .str _ => js "string"
  | _ => js "object"

def templateText : Json → Option JsString
  | .null => some (js "null")
  | .bool true => some (js "true")
  | .bool false => some (js "false")
  | .num n => some (texts.number n)
  | .str s => some s
  | value => texts.object value

/-- The id with its type in front of it. -/
def typedText (id : Json) : Option JsString :=
  (templateText texts id).map fun text => typeOf id ++ js ":" ++ text

/-- The id of a session's request, the requests counted from zero. -/
def requestId (k : Nat) : JsNumber := .ofInt (k + 1)

def requestKey (k : Nat) : JsString := js "number" ++ js ":" ++ texts.number (requestId k)

/-- The message has the id of a request. -/
def carriesId (k : Nat) (message : Json) : Bool :=
  match message.member (js "id") with
  | some (.num n) => n = requestId k
  | _ => false

def hasMethod (message : Json) : Bool := (message.member (js "method")).isSome

theorem requestId_injective : Function.Injective requestId := by
  intro j k h
  have hq : ((j + 1 : Int) : ℚ) = ((k + 1 : Int) : ℚ) := JsNumber.finite.inj h
  have hint : (j + 1 : Int) = k + 1 := by exact_mod_cast hq
  omega

theorem requestKey_injective : Function.Injective (requestKey texts) := by
  intro j k h
  exact requestId_injective (texts.number_injective (List.append_cancel_left h))

/-- No id but the number of a request is written as its key. -/
theorem typedText_eq_requestKey (id : Json) (k : Nat) :
    typedText texts id = some (requestKey texts k) ↔ id = .num (requestId k) := by
  have hnumber : js "number" = [110, 117, 109, 98, 101, 114] := by decide
  have hboolean : js "boolean" = [98, 111, 111, 108, 101, 97, 110] := by decide
  have hstring : js "string" = [115, 116, 114, 105, 110, 103] := by decide
  have hobject : js "object" = [111, 98, 106, 101, 99, 116] := by decide
  constructor
  · intro h
    obtain ⟨text, htext, h⟩ := Option.map_eq_some_iff.mp h
    rw [requestKey] at h
    cases id with
    | null => simp [typeOf, hnumber, hobject] at h
    | bool b => simp [typeOf, hnumber, hboolean] at h
    | num n =>
      obtain rfl := Option.some.inj htext
      rw [texts.number_injective (List.append_cancel_left h)]
    | str s => simp [typeOf, hnumber, hstring] at h
    | arr items => simp [typeOf, hnumber, hobject] at h
    | obj members => simp [typeOf, hnumber, hobject] at h
  · rintro rfl
    rfl

/-- A key that is `null` for `null` and else the typed text is the key of a request only for its
number. -/
theorem key_eq_requestKey {f : Json → Option JsString} (hnull : f .null = some (js "null"))
    (hother : ∀ id, id ≠ .null → f id = typedText texts id) (id : Json) (k : Nat) :
    f id = some (requestKey texts k) ↔ id = .num (requestId k) := by
  by_cases hid : id = .null
  · subst hid
    have hnumber : js "number" = [110, 117, 109, 98, 101, 114] := by decide
    have hnullText : js "null" = [110, 117, 108, 108] := by decide
    simp [hnull, requestKey, hnumber, hnullText]
  · rw [hother id hid]
    exact typedText_eq_requestKey texts id k

theorem carriesId_iff (k : Nat) (message : Json) :
    carriesId k message = true ↔ message.member (js "id") = some (.num (requestId k)) := by
  rw [carriesId]
  split
  · next n h =>
    rw [h]
    simp
  · next h =>
    constructor
    · intro hfalse
      cases hfalse
    · intro he
      exact absurd he (h _)

end keys

end Solarcido.Rpc
