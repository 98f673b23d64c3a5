import Mathlib.Data.List.Nodup
import Mathlib.Data.Rat.Floor
import Solarcido.Js.Number

namespace Solarcido

open Text

/-- A number of the language; the two zeros are not told apart. -/
inductive JsNumber where
  | nan
  | infinite (negative : Bool)
  | finite (q : ℚ)
  deriving DecidableEq

/-- What `JSON.parse` gives. The members of an object have distinct keys. -/
inductive Json where
  | null
  | bool (b : Bool)
  | num (n : JsNumber)
  | str (s : JsString)
  | arr (items : List Json)
  | obj (members : List (JsString × Json))

/-- The properties of a thrown object that the program looks at. -/
structure ErrorObject where
  isError : Bool
  isSyntaxError : Bool
  name : Option JsString
  message : Option JsString
  status : Option Int
  statusCode : Option Int
  code : Option JsString
  request_id : Option JsString
  requestID : Option JsString
  text : JsString
  deriving DecidableEq

/-- A thrown value: a string, an object, or anything else with its text. -/
inductive Thrown where
  | string (s : JsString)
  | object (e : ErrorObject)
  | other (text : JsString)
  deriving DecidableEq

/-- `new Error(message)`. -/
def Thrown.error (message : JsString) : Thrown :=
  .object ⟨true, false, some (js "Error"), some message, none, none, none, none, none,
    js "Error: " ++ message⟩

/-- `error instanceof Error ? error.message : String(error)`. -/
def Thrown.messageOf : Thrown → JsString
  | .string s => s
  | .object e => if e.isError then e.message.getD [] else e.text
  | .other text => text

namespace JsNumber

def floor : JsNumber → JsNumber
  | .finite q => .finite q.floor
  | n => n

/-- `a > b`; a comparison with `NaN` is false. -/
def gt : JsNumber → JsNumber → Bool
  | .nan, _ => false
  | _, .nan => false
  | .infinite na, .infinite nb => !na && nb
  | .infinite na, .finite _ => !na
  | .finite _, .infinite nb => nb
  | .finite a, .finite b => b < a

def max (a b : JsNumber) : JsNumber :=
  match a, b with
  | .nan, _ => .nan
  | _, .nan => .nan
  | a, b => if a.gt b then a else b

def min (a b : JsNumber) : JsNumber :=
  match a, b with
  | .nan, _ => .nan
  | _, .nan => .nan
  | a, b => if b.gt a then a else b

def ofInt (n : Int) : JsNumber := .finite n

/-- `a + n` for an integer `n`. -/
def addInt : JsNumber → Int → JsNumber
  | .finite q, n => .finite (q + n)
  | a, _ => a

def add : JsNumber → JsNumber → JsNumber
  | .nan, _ => .nan
  | _, .nan => .nan
  | .infinite na, .infinite nb => if na == nb then .infinite na else .nan
  | .infinite na, .finite _ => .infinite na
  | .finite _, .infinite nb => .infinite nb
  | .finite a, .finite b => .finite (a + b)

def neg : JsNumber → JsNumber
  | .nan => .nan
  | .infinite negative => .infinite !negative
  | .finite q => .finite (-q)

def sub (a b : JsNumber) : JsNumber := a.add b.neg

end JsNumber

/-- How the engine writes a number in a template and in base sixteen. -/
structure NumberFormat where
  decimal : JsNumber → JsString
  hex : JsNumber → JsString

/-- `s.padStart(width, "0")`. -/
def padStart (s : JsString) (width : Nat) : JsString := List.replicate (width - s.length) 48 ++ s

/-- Whole numbers as the engine writes them. -/
def wholeNumbers : NumberFormat where
  decimal
    | .finite q => Number.decimal q.floor.toNat
    | _ => js "NaN"
  hex
    | .finite q => (Nat.toDigits 16 q.floor.toNat).map fun c => UInt16.ofNat c.toNat
    | _ => js "NaN"

namespace Json

def member (key : JsString) : Json → Option Json
  | .obj members => (members.find? fun m => m.1 == key).map Prod.snd
  | _ => none

def asString : Option Json → Option JsString
  | some (.str s) => some s
  | _ => none

def asNumber : Option Json → Option JsNumber
  | some (.num n) => some n
  | _ => none

def asBool : Option Json → Option Bool
  | some (.bool b) => some b
  | _ => none

def isObject : Json → Bool
  | .obj _ => true
  | _ => false

/-- An object of string members. -/
def ofMembers (members : List (String × Json)) : Json :=
  .obj (members.map fun m => (js m.1, m.2))

def hexUnit (n : Nat) : UInt16 := UInt16.ofNat (if n < 10 then 48 + n else 87 + n)

/-- `\uXXXX`. -/
def unicodeEscape (u : UInt16) : JsString :=
  let n := u.toNat
  [92, 117, hexUnit (n / 4096 % 16), hexUnit (n / 256 % 16), hexUnit (n / 16 % 16),
    hexUnit (n % 16)]

def escapeUnit (u : UInt16) : JsString :=
  if u == 34 then [92, 34]
  else if u == 92 then [92, 92]
  else if u == 8 then [92, 98]
  else if u == 9 then [92, 116]
  else if u == 10 then [92, 110]
  else if u == 12 then [92, 102]
  else if u == 13 then [92, 114]
  else if u.toNat < 32 then unicodeEscape u
  else if isHighSurrogate u || isLowSurrogate u then unicodeEscape u
  else [u]

/-- The escapes of a JSON string; a surrogate pair is written as it is. -/
def escape : JsString → JsString
  | [] => []
  | [u] => escapeUnit u
  | u :: v :: rest =>
    if isHighSurrogate u && isLowSurrogate v then u :: v :: escape rest
    else escapeUnit u ++ escape (v :: rest)

def quote (s : JsString) : JsString := 34 :: escape s ++ [34]

section stringify

-- How the engine writes a finite number.
variable (numberText : ℚ → JsString)

def numText : JsNumber → JsString
  | .finite q => numberText q
  | _ => js "null"

mutual

/-- `JSON.stringify(value)`. -/
def stringify : Json → JsString
  | .null => js "null"
  | .bool true => js "true"
  | .bool false => js "false"
  | .num n => numText numberText n
  | .str s => quote s
  | .arr items => js "[" ++ join (js ",") (stringifyItems items) ++ js "]"
  | .obj members => js "\x7b" ++ join (js ",") (stringifyMembers members) ++ js "\x7d"

def stringifyItems : List Json → List JsString
  | [] => []
  | item :: rest => stringify item :: stringifyItems rest

def stringifyMembers : List (JsString × Json) → List JsString
  | [] => []
  | (key, value) :: rest => (quote key ++ js ":" ++ stringify value) :: stringifyMembers rest

end

def spaces (n : Nat) : JsString := List.replicate n 32

/-- `items` between brackets, one a line. -/
def block (opening closing : JsString) (indent : Nat) (items : List JsString) : JsString :=
  if items.isEmpty then opening ++ closing
  else
    opening ++ js "\n" ++ join (js ",\n") (items.map (spaces (indent + 2) ++ ·)) ++ js "\n" ++
      spaces indent ++ closing

mutual

/-- `JSON.stringify(value, null, 2)`, for a value that starts at a column. -/
def prettyFrom (indent : Nat) : Json → JsString
  | .null => js "null"
  | .bool true => js "true"
  | .bool false => js "false"
  | .num n => numText numberText n
  | .str s => quote s
  | .arr items => block (js "[") (js "]") indent (prettyItems (indent + 2) items)
  | .obj members => block (js "\x7b") (js "\x7d") indent (prettyMembers (indent + 2) members)

def prettyItems (indent : Nat) : List Json → List JsString
  | [] => []
  | item :: rest => prettyFrom indent item :: prettyItems indent rest

def prettyMembers (indent : Nat) : List (JsString × Json) → List JsString
  | [] => []
  | (key, value) :: rest =>
    (quote key ++ js ": " ++ prettyFrom indent value) :: prettyMembers indent rest

end

def prettyJson (value : Json) : JsString := prettyFrom numberText 0 value

end stringify

section members

variable {key name : JsString} {value : Json} {members : List (JsString × Json)}

theorem member_cons_self (key : JsString) (value : Json) (members : List (JsString × Json)) :
    (obj ((key, value) :: members)).member key = some value := by
  rw [member, List.find?_cons_of_pos (by simp)]
  rfl

theorem member_cons_of_ne (h : key ≠ name) (value : Json) (members : List (JsString × Json)) :
    (obj ((key, value) :: members)).member name = (obj members).member name := by
  rw [member, List.find?_cons_of_neg (by simpa using h)]
  rfl

theorem mem_of_member (h : (obj members).member name = some value) : (name, value) ∈ members := by
  obtain ⟨m, hfind, rfl⟩ := Option.map_eq_some_iff.mp h
  have hname := List.find?_some hfind
  rw [beq_iff_eq] at hname
  rw [← hname]
  exact List.mem_of_find?_eq_some hfind

/-- Where the keys are distinct each member is the one its key finds. -/
theorem member_eq_some_iff (hkeys : (members.map Prod.fst).Nodup) :
    (obj members).member name = some value ↔ (name, value) ∈ members := by
  refine ⟨mem_of_member, fun h => ?_⟩
  induction members with
  | nil => cases h
  | cons m members ih =>
    obtain ⟨key, first⟩ := m
    rw [List.map_cons, List.nodup_cons] at hkeys
    by_cases hname : key = name
    · subst hname
      rcases List.mem_cons.mp h with heq | h
      · rw [member_cons_self, (Prod.mk.inj heq).2]
      · exact absurd (List.mem_map_of_mem h) hkeys.1
    · rw [member_cons_of_ne hname]
      rcases List.mem_cons.mp h with heq | h
      · exact absurd (Prod.mk.inj heq).1.symm hname
      · exact ih hkeys.2 h

theorem member_ofMembers (name : JsString) (members : List (String × Json)) :
    (ofMembers members).member name = (members.find? fun m => Text.js m.1 == name).map Prod.snd := by
  rw [ofMembers, member, List.find?_map, Option.map_map]
  rfl

end members

end Json

end Solarcido
