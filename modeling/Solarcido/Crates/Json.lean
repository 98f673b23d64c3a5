import Mathlib.Algebra.Group.Int.Defs
import Solarcido.Crates.Text

namespace Solarcido.Crates

open RustText

inductive JsonNumber where
  | int (n : Int)
  | float (bits : UInt64)
  deriving DecidableEq

/-- `serde_json::Value`. The members of an object have distinct keys, in their order. -/
inductive Value where
  | null
  | bool (b : Bool)
  | number (n : JsonNumber)
  | string (s : RustString)
  | array (items : List Value)
  | object (members : List (RustString × Value))

namespace Value

/-- `value.get(key)`. -/
def get (key : RustString) : Value → Option Value
  | .object members => (members.find? fun m => m.1 = key).map Prod.snd
  | _ => none

theorem get_object_cons (key k : RustString) (v : Value) (members : List (RustString × Value)) :
    (object ((k, v) :: members)).get key = if k = key then some v else (object members).get key := by
  rw [get, get, List.find?_cons]
  by_cases h : k = key
  · simp [h]
  · simp [h]

def asStr : Value → Option RustString
  | .string s => some s
  | _ => none

def asArray : Value → Option (List Value)
  | .array items => some items
  | _ => none

def asBool : Value → Option Bool
  | .bool b => some b
  | _ => none

def asU64 : Value → Option Nat
  | .number (.int n) => if 0 ≤ n ∧ n < 2 ^ 64 then some n.toNat else none
  | _ => none

def hexDigit (n : Nat) : Char := Char.ofNat (if n < 10 then 48 + n else 87 + n)

def escapeChar (c : Char) : RustString :=
  if c = '"' then ['\\', '"']
  else if c = '\\' then ['\\', '\\']
  else if c = '\x08' then ['\\', 'b']
  else if c = '\t' then ['\\', 't']
  else if c = '\n' then ['\\', 'n']
  else if c = '\x0c' then ['\\', 'f']
  else if c = '\r' then ['\\', 'r']
  else if c.toNat < 32 then
    ['\\', 'u', '0', '0', hexDigit (c.toNat / 16), hexDigit (c.toNat % 16)]
  else [c]

def quote (s : RustString) : RustString := '"' :: s.flatMap escapeChar ++ ['"']

section display

-- How a float is written.
variable (floatText : UInt64 → RustString)

def numberText : JsonNumber → RustString
  | .int (.ofNat n) => decimal n
  | .int (.negSucc n) => '-' :: decimal (n + 1)
  | .float bits => floatText bits

mutual

/-- `value.to_string()`. -/
def display : Value → RustString
  | .null => str "null"
  | .bool true => str "true"
  | .bool false => str "false"
  | .number n => numberText floatText n
  | .string s => quote s
  | .array items => '[' :: join [','] (displayItems items) ++ [']']
  | .object members => '\x7b' :: join [','] (displayMembers members) ++ ['\x7d']

def displayItems : List Value → List RustString
  | [] => []
  | item :: rest => display item :: displayItems rest

def displayMembers : List (RustString × Value) → List RustString
  | [] => []
  | (key, value) :: rest => (quote key ++ ':' :: display value) :: displayMembers rest

end

end display

section deserialize

variable {α : Type}

/-- A field that must be there. -/
def required (read : Value → Option α) (key : RustString) (v : Value) : Option α :=
  (v.get key).bind read

/-- `#[serde(default)] field: T`. -/
def defaulted (read : Value → Option α) (default : α) (key : RustString) (v : Value) : Option α :=
  match v.get key with
  | none => some default
  | some field => read field

/-- `Option<T>`: `null` is `None`. -/
def nullable (read : Value → Option α) : Value → Option (Option α)
  | .null => some none
  | v => (read v).map some

/-- `#[serde(default)] field: Option<T>`. -/
def optional (read : Value → Option α) (key : RustString) (v : Value) : Option (Option α) :=
  defaulted (nullable read) none key v

/-- `Vec<T>`. -/
def vec (read : Value → Option α) (v : Value) : Option (List α) := v.asArray.bind (List.mapM read)

def u32 (v : Value) : Option U32 :=
  v.asU64.bind fun n => if h : n < 2 ^ 32 then some ⟨n, h⟩ else none

def u64 (v : Value) : Option U64 :=
  v.asU64.bind fun n => if h : n < 2 ^ 64 then some ⟨n, h⟩ else none

/-- What a derived `Deserialize` takes for a struct: an object, or an array with its fields in
order. -/
def asStruct (fields : List RustString) : Value → Option Value
  | .object members => some (.object members)
  | .array items => if items.length ≤ fields.length then some (.object (fields.zip items)) else none
  | _ => none

theorem required_of_get {v w : Value} {key : RustString} (h : v.get key = some w)
    (read : Value → Option α) : required read key v = read w := by
  rw [required, h, Option.bind_some]

theorem defaulted_of_get {v w : Value} {key : RustString} (h : v.get key = some w)
    (read : Value → Option α) (default : α) : defaulted read default key v = read w := by
  rw [defaulted, h]

theorem optional_of_get {v w : Value} {key : RustString} (h : v.get key = some w)
    (read : Value → Option α) : Value.optional read key v = nullable read w :=
  defaulted_of_get h (nullable read) none

theorem asU64_int {n : Nat} (h : n < 2 ^ 64) : asU64 (.number (.int n)) = some n := by
  rw [asU64, if_pos (by omega)]
  rfl

theorem u32_int (n : U32) : u32 (.number (.int n.val)) = some n := by
  have hlt : n.val < 2 ^ 32 := n.isLt
  rw [u32, asU64_int (by omega)]
  exact dif_pos hlt

theorem u64_int (n : U64) : u64 (.number (.int n.val)) = some n := by
  rw [u64, asU64_int n.isLt]
  exact dif_pos n.isLt

end deserialize

end Value

/-- What the program relies on of `serde_json::from_str`: a text of nothing but white space is
no document. -/
structure SerdeJson where
  fromStr : RustString → Option Value
  fromStr_blank : ∀ s, trim s = [] → fromStr s = none

end Solarcido.Crates
