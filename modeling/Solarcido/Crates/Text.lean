import Mathlib.Algebra.GroupWithZero.Nat
import Mathlib.Data.List.Basic
import Mathlib.Data.List.DropRight
import Mathlib.Data.List.TakeWhile
import Solarcido.Js.Utf8

namespace Solarcido.Crates

/-- A Rust string: its characters. -/
abbrev RustString := List Char

/-- A string literal of the source. -/
def str (s : String) : RustString := s.toList

theorem str_eq {s : String} {l : List Char} (h : s = String.ofList l) : str s = l := by
  rw [h, str, String.toList_ofList]

/-- A `u32`. -/
abbrev U32 := Fin (2 ^ 32)

/-- A `u64`. -/
abbrev U64 := Fin (2 ^ 64)

instance neZero_u32 : NeZero (2 ^ 32) := ⟨by decide⟩

instance neZero_u64 : NeZero (2 ^ 64) := ⟨by decide⟩

/-- Why a call does not return: the arithmetic checks of the build stop the program. -/
structure Panic where
  message : RustString
  deriving DecidableEq

/-- `a + b`, checked. -/
def checkedAdd (a b : U32) : Except Panic U32 :=
  if h : a.val + b.val < 2 ^ 32 then .ok ⟨a.val + b.val, h⟩
  else .error ⟨str "attempt to add with overflow"⟩

namespace RustText

/-- `char::is_whitespace`. -/
def isWhitespace (c : Char) : Bool :=
  let n := c.toNat
  (9 ≤ n && n ≤ 13) || n == 0x20 || n == 0x85 || n == 0xA0 || n == 0x1680 ||
    (0x2000 ≤ n && n ≤ 0x200A) || n == 0x2028 || n == 0x2029 || n == 0x202F || n == 0x205F ||
    n == 0x3000

def trimStart (s : RustString) : RustString := s.dropWhile isWhitespace

def trimEnd (s : RustString) : RustString := s.rdropWhile isWhitespace

def trim (s : RustString) : RustString := trimEnd (trimStart s)

def startsWith (s p : RustString) : Bool := p.isPrefixOf s

def stripPrefix (s p : RustString) : Option RustString :=
  if p.isPrefixOf s then some (s.drop p.length) else none

def join (sep : RustString) (parts : List RustString) : RustString := sep.intercalate parts

/-- A line without the carriage return in front of its end. -/
def endLine : RustString → RustString
  | '\r' :: piece => piece.reverse
  | piece => piece.reverse

/-- The lines behind a piece, which is kept in reverse. -/
def linesFrom : RustString → RustString → List RustString
  | [], [] => []
  | piece, [] => [piece.reverse]
  | piece, c :: rest =>
    if c = '\n' then endLine piece :: linesFrom [] rest else linesFrom (c :: piece) rest

/-- `s.lines()`. -/
def lines (s : RustString) : List RustString := linesFrom [] s

/-- `String::from_utf8_lossy`. -/
def fromUtf8Lossy (bytes : Bytes) : RustString := (Utf8.decodeFrom none bytes).map Char.ofNat

/-- A number as `format!` writes it. -/
def decimal (n : Nat) : RustString := Nat.toDigits 10 n

/-- A string as the other language keeps it. -/
def toJs (s : RustString) : JsString := Text.fromCodePoints (s.map Char.toNat)

theorem toJs_cons (c : Char) (s : RustString) : toJs (c :: s) = Text.utf16 c.toNat ++ toJs s := rfl

theorem toJs_append (s t : RustString) : toJs (s ++ t) = toJs s ++ toJs t := by
  rw [toJs, List.map_append, Text.fromCodePoints_append]
  rfl

theorem codePoints_toJs (s : RustString) : Text.codePoints (toJs s) = s.map Char.toNat := by
  apply Text.codePoints_fromCodePoints
  intro c hc
  obtain ⟨char, -, rfl⟩ := List.mem_map.mp hc
  exact Text.isScalar_toNat char

theorem toJs_injective {s t : RustString} (h : toJs s = toJs t) : s = t := by
  have hmap : s.map Char.toNat = t.map Char.toNat := by
    rw [← codePoints_toJs, h, codePoints_toJs]
  exact List.map_injective_iff.mpr (fun _ _ => Char.toNat_inj.mp) hmap

theorem trimStart_trimEnd (s : RustString) (h : trimStart s = s) :
    trimStart (trimEnd s) = trimEnd s := by
  cases hend : trimEnd s with
  | nil => rfl
  | cons d t =>
    -- what is dropped at the end leaves a prefix, so the first character stays
    obtain ⟨rest, hrest⟩ : d :: t <+: s := by
      rw [← hend]
      exact List.rdropWhile_prefix _ _
    rw [trimStart, ← hrest, List.cons_append, List.dropWhile_cons] at h
    rw [trimStart, List.dropWhile_cons]
    split at h
    · next hd =>
      have hlen := congrArg List.length h
      have hle := (List.dropWhile_suffix isWhitespace (l := t ++ rest)).length_le
      simp only [List.length_cons] at hlen
      omega
    · next hd => rw [if_neg hd]

theorem trim_ne_nil {s : RustString} {c : Char} (hmem : c ∈ s) (hc : isWhitespace c = false) :
    trim s ≠ [] := by
  intro h
  have hblank := List.rdropWhile_eq_nil_iff.mp h
  have hstart : trimStart s = [] := by
    by_contra hne
    have hhead : isWhitespace ((trimStart s).head hne) = false :=
      List.head_dropWhile_not isWhitespace hne
    rw [hblank _ (List.head_mem hne)] at hhead
    cases hhead
  rw [List.dropWhile_eq_nil_iff.mp hstart c hmem] at hc
  cases hc

theorem trim_trim (s : RustString) : trim (trim s) = trim s := by
  have hstart : trimStart (trimStart s) = trimStart s := List.dropWhile_idempotent _ _
  rw [trim, trim, trimStart_trimEnd _ hstart, trimEnd, trimEnd, List.rdropWhile_idempotent]

end RustText

end Solarcido.Crates
