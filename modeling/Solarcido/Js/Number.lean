import Mathlib.Algebra.Group.Nat.Defs
import Mathlib.Data.List.TakeWhile
import Solarcido.Js.Text

namespace Solarcido.Number

open Text

/-- A number's decimal digits. -/
def decimal (n : Nat) : JsString := (Nat.toDigits 10 n).map fun c => UInt16.ofNat c.toNat

def isDigit (u : UInt16) : Bool := 48 ≤ u.toNat && u.toNat ≤ 57

def digitsValue (digits : JsString) : Nat := digits.foldl (fun n u => 10 * n + (u.toNat - 48)) 0

inductive ParsedInt where
  | nan
  | infinite
  | int (n : Int)

/-- The least integer that rounds to infinity. -/
def overflow : Nat := Nat.pow 2 1024 - Nat.pow 2 970

def signOf : JsString → Bool × JsString
  | 45 :: rest => (true, rest)
  | 43 :: rest => (false, rest)
  | s => (false, s)

/-- `Number.parseInt(s, 10)`. A value past `2 ^ 53` is kept as it is written, where
the language rounds it: no buffer is that long. -/
def parseInt (s : JsString) : ParsedInt :=
  let (negative, rest) := signOf (trimStart s)
  let digits := rest.takeWhile isDigit
  if digits.isEmpty then .nan
  else if overflow ≤ digitsValue digits then .infinite
  else .int (if negative then -(digitsValue digits : Int) else digitsValue digits)

/-- The value of a hexadecimal digit. -/
def hexValue (u : UInt16) : Option Nat :=
  let n := u.toNat
  if 48 ≤ n ∧ n ≤ 57 then some (n - 48)
  else if 65 ≤ n ∧ n ≤ 70 then some (n - 55)
  else if 97 ≤ n ∧ n ≤ 102 then some (n - 87)
  else none

theorem isDigit_of_char (c : Char) (h : c.isDigit = true) :
    (UInt16.ofNat c.toNat).toNat = c.toNat ∧ isDigit (UInt16.ofNat c.toNat) = true := by
  have hc : 48 ≤ c.toNat ∧ c.toNat ≤ 57 := by
    simpa [Char.isDigit, UInt32.le_iff_toNat_le] using h
  have hn : (UInt16.ofNat c.toNat).toNat = c.toNat := by
    rw [UInt16.toNat_ofNat']
    omega
  refine ⟨hn, ?_⟩
  rw [isDigit, hn]
  simp [hc]

theorem decimal_digits (n : Nat) : ∀ u ∈ decimal n, isDigit u = true := by
  intro u hu
  obtain ⟨c, hc, rfl⟩ := List.mem_map.mp hu
  exact (isDigit_of_char c (Nat.isDigit_of_mem_toDigits (by decide) (by decide) hc)).2

theorem decimal_ne_nil (n : Nat) : decimal n ≠ [] := by
  simp [decimal]

theorem digitsValue_decimal (n : Nat) : digitsValue (decimal n) = n := by
  have hval : digitsValue (decimal n) = Nat.ofDigitChars 10 (Nat.toDigits 10 n) 0 := by
    rw [Nat.ofDigitChars_eq_foldl, digitsValue, decimal, List.foldl_map]
    apply List.foldl_ext
    intro acc c hc
    rw [(isDigit_of_char c (Nat.isDigit_of_mem_toDigits (by decide) (by decide) hc)).1]
    rfl
  rw [hval, Nat.ofDigitChars_ten_toDigits]

theorem decimal_injective : Function.Injective decimal := by
  intro m n h
  rw [← digitsValue_decimal m, h, digitsValue_decimal]

theorem not_mem_decimal {u : UInt16} (h : isDigit u = false) (n : Nat) : u ∉ decimal n := by
  intro hu
  rw [decimal_digits n u hu] at h
  cases h

/-- `String(n).padStart(width, "0")`. -/
def padded (width n : Nat) : JsString := padStart width 48 (decimal n)

theorem padded_length {width n : Nat} (hw : 0 < width) (hn : n < 10 ^ width) :
    (padded width n).length = width := by
  have hlen : (decimal n).length ≤ width := by
    rw [decimal, List.length_map]
    exact (Nat.length_toDigits_le_iff (by decide) hw).mpr hn
  simp only [padded, padStart, List.length_append, List.length_replicate]
  omega

theorem digitsValue_zeros (k : Nat) (digits : JsString) :
    digitsValue (List.replicate k 48 ++ digits) = digitsValue digits := by
  induction k with
  | zero => rfl
  | succ k ih => exact ih

theorem digitsValue_padded (width n : Nat) : digitsValue (padded width n) = n := by
  rw [padded, padStart, digitsValue_zeros, digitsValue_decimal]

theorem padded_injective {width m n : Nat} (h : padded width m = padded width n) : m = n := by
  rw [← digitsValue_padded width m, h, digitsValue_padded]

theorem digit_not_whiteSpace (u : UInt16) (h : isDigit u = true) : isWhiteSpace u = false := by
  simp only [isDigit, Bool.and_eq_true, decide_eq_true_eq] at h
  simp [isWhiteSpace]
  omega

theorem decimal_isAscii (n : Nat) : IsAscii (decimal n) := by
  intro u hu
  have h := decimal_digits n u hu
  simp only [isDigit, Bool.and_eq_true, decide_eq_true_eq] at h
  omega

theorem signOf_digits (s : JsString) (hs : ∀ u ∈ s, isDigit u = true) : signOf s = (false, s) := by
  cases s with
  | nil => rfl
  | cons u s =>
    have hu := hs u (by simp)
    unfold signOf
    split
    · next h => exact absurd hu (by simp [(List.cons.inj h).1, isDigit])
    · next h => exact absurd hu (by simp [(List.cons.inj h).1, isDigit])
    · rfl

theorem trimStart_digits (s : JsString) (hs : ∀ u ∈ s, isDigit u = true) : trimStart s = s :=
  trimStart_of_no_space s fun u hu => digit_not_whiteSpace u (hs u hu)

theorem trim_digits (s : JsString) (hs : ∀ u ∈ s, isDigit u = true) : trim s = s :=
  trim_of_no_space s fun u hu => digit_not_whiteSpace u (hs u hu)

theorem parseInt_decimal (n : Nat) (hn : n < overflow) : parseInt (decimal n) = .int n := by
  have hdigits := decimal_digits n
  have htake : (decimal n).takeWhile isDigit = decimal n := List.takeWhile_eq_self_iff.mpr hdigits
  rw [parseInt, trimStart_digits _ hdigits, signOf_digits _ hdigits]
  simp only [htake, digitsValue_decimal, List.isEmpty_iff, decimal_ne_nil, if_false]
  rw [if_neg (by omega)]
  simp

end Solarcido.Number
