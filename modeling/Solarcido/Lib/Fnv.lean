import Mathlib.Data.UInt
import Mathlib.Tactic.Ring

namespace Solarcido.Fnv

section words

def high (w : UInt64) : UInt32 := (w >>> 32).toUInt32

def low (w : UInt64) : UInt32 := w.toUInt32

def ofWords (hi lo : UInt32) : UInt64 := UInt64.ofNat (hi.toNat * 2 ^ 32 + lo.toNat)

/-- The high word of a product of words. -/
def mulHigh (u v : UInt32) : UInt32 := UInt32.ofNat (u.toNat * v.toNat / 2 ^ 32)

theorem toNat_high (w : UInt64) : (high w).toNat = w.toNat / 2 ^ 32 := by
  have hw := w.toNat_lt
  have hshift : (w >>> 32).toNat = w.toNat / 2 ^ 32 := by
    rw [UInt64.toNat_shiftRight, Nat.shiftRight_eq_div_pow]
    rfl
  rw [high, UInt64.toNat_toUInt32, hshift]
  omega

theorem toNat_low (w : UInt64) : (low w).toNat = w.toNat % 2 ^ 32 := UInt64.toNat_toUInt32 w

theorem toNat_ofWords (hi lo : UInt32) : (ofWords hi lo).toNat = hi.toNat * 2 ^ 32 + lo.toNat := by
  have hhi := hi.toNat_lt
  have hlo := lo.toNat_lt
  rw [ofWords, UInt64.toNat_ofNat']
  omega

theorem high_ofWords (hi lo : UInt32) : high (ofWords hi lo) = hi := by
  have hlo := lo.toNat_lt
  apply UInt32.toNat.inj
  rw [toNat_high, toNat_ofWords]
  omega

theorem low_ofWords (hi lo : UInt32) : low (ofWords hi lo) = lo := by
  have hlo := lo.toNat_lt
  apply UInt32.toNat.inj
  rw [toNat_low, toNat_ofWords]
  omega

theorem ofWords_high_low (w : UInt64) : ofWords (high w) (low w) = w := by
  apply UInt64.toNat.inj
  rw [toNat_ofWords, toNat_high, toNat_low]
  omega

theorem low_mul (x y : UInt64) : low (x * y) = low x * low y := by
  apply UInt32.toNat.inj
  rw [toNat_low, UInt64.toNat_mul, UInt32.toNat_mul, toNat_low, toNat_low, ← Nat.mul_mod]
  exact Nat.mod_mod_of_dvd _ ⟨2 ^ 32, rfl⟩

theorem high_mul (x y : UInt64) :
    high (x * y) = high x * low y + low x * high y + mulHigh (low x) (low y) := by
  have hx : x.toNat = (high x).toNat * 2 ^ 32 + (low x).toNat := by
    rw [← toNat_ofWords, ofWords_high_low]
  have hy : y.toNat = (high y).toNat * 2 ^ 32 + (low y).toNat := by
    rw [← toNat_ofWords, ofWords_high_low]
  have hxy : x.toNat * y.toNat = (high x).toNat * (high y).toNat * 2 ^ 64 +
      ((high x).toNat * (low y).toNat + (low x).toNat * (high y).toNat) * 2 ^ 32 +
      (low x).toNat * (low y).toNat := by
    rw [hx, hy]
    ring
  apply UInt32.toNat.inj
  simp only [toNat_high, UInt64.toNat_mul, UInt32.toNat_add, UInt32.toNat_mul, mulHigh,
    UInt32.toNat_ofNat', hxy]
  generalize (high x).toNat * (high y).toNat = p
  generalize (high x).toNat * (low y).toNat = q
  generalize (low x).toNat * (high y).toNat = r
  generalize (low x).toNat * (low y).toNat = s
  omega

end words

section halves

open scoped UInt32.CommRing

def lowHalf (w : UInt32) : UInt32 := w &&& 0xffff

def highHalf (w : UInt32) : UInt32 := (w >>> 16) &&& 0xffff

theorem toNat_lowHalf (w : UInt32) : (lowHalf w).toNat = w.toNat % 2 ^ 16 := by
  rw [lowHalf, UInt32.toNat_and]
  exact Nat.and_two_pow_sub_one_eq_mod w.toNat 16

theorem toNat_shift (w : UInt32) : (w >>> 16).toNat = w.toNat / 2 ^ 16 := by
  rw [UInt32.toNat_shiftRight, Nat.shiftRight_eq_div_pow]
  rfl

theorem highHalf_eq (w : UInt32) : highHalf w = w >>> 16 := by
  have hw := w.toNat_lt
  apply UInt32.toNat.inj
  rw [highHalf, UInt32.toNat_and, toNat_shift]
  refine (Nat.and_two_pow_sub_one_eq_mod _ 16).trans ?_
  omega

theorem toNat_highHalf (w : UInt32) : (highHalf w).toNat = w.toNat / 2 ^ 16 := by
  rw [highHalf_eq, toNat_shift]

theorem halves (w : UInt32) : w = 65536 * highHalf w + lowHalf w := by
  have hw := w.toNat_lt
  apply UInt32.toNat.inj
  rw [UInt32.toNat_add, UInt32.toNat_mul, toNat_highHalf, toNat_lowHalf]
  simp only [UInt32.reduceToNat]
  omega

/-- A product as far as one word holds it. -/
theorem mul_of_halves (u v : UInt32) : u * v =
    65536 * (highHalf u * lowHalf v + lowHalf u * highHalf v) + lowHalf u * lowHalf v := by
  have hsquare : (65536 * 65536 : UInt32) = 0 := rfl
  calc u * v = (65536 * highHalf u + lowHalf u) * (65536 * highHalf v + lowHalf v) := by
        rw [← halves, ← halves]
    _ = 65536 * 65536 * (highHalf u * highHalf v) +
        (65536 * (highHalf u * lowHalf v + lowHalf u * highHalf v) + lowHalf u * lowHalf v) := by
        ring
    _ = _ := by rw [hsquare, zero_mul, zero_add]

/-- Two halves put side by side. -/
theorem joined_halves (u v : UInt32) :
    ((u &&& 0xffff) <<< 16) ||| (v &&& 0xffff) = 65536 * u + lowHalf v := by
  have hu : ((u &&& 0xffff) <<< 16).toNat = (u.toNat % 2 ^ 16) <<< 16 := by
    have hlt : u.toNat % 2 ^ 16 < 2 ^ 16 := Nat.mod_lt _ (by decide)
    rw [UInt32.toNat_shiftLeft]
    change ((lowHalf u).toNat <<< 16) % 2 ^ 32 = _
    rw [toNat_lowHalf, Nat.shiftLeft_eq]
    omega
  have hv : v.toNat % 2 ^ 16 < 2 ^ 16 := Nat.mod_lt _ (by decide)
  apply UInt32.toNat.inj
  change (_ ||| lowHalf v).toNat = _
  rw [UInt32.toNat_or, hu, toNat_lowHalf, ← Nat.shiftLeft_add_eq_or_of_lt hv, UInt32.toNat_add,
    UInt32.toNat_mul, toNat_lowHalf, Nat.shiftLeft_eq]
  simp only [UInt32.reduceToNat]
  omega

/-- What the product of the low halves and the mixed products carry into the upper places. -/
def middle (u v : UInt32) : Nat :=
  (lowHalf u).toNat * (lowHalf v).toNat / 2 ^ 16 + (highHalf u).toNat * (lowHalf v).toNat +
    (lowHalf u).toNat * (highHalf v).toNat

theorem product_halves (u v : UInt32) : u.toNat * v.toNat =
    ((highHalf u).toNat * (highHalf v).toNat * 2 ^ 16 + middle u v) * 2 ^ 16 +
      (lowHalf u).toNat * (lowHalf v).toNat % 2 ^ 16 := by
  have hu : u.toNat = (highHalf u).toNat * 2 ^ 16 + (lowHalf u).toNat := by
    rw [toNat_highHalf, toNat_lowHalf]
    omega
  have hv : v.toNat = (highHalf v).toNat * 2 ^ 16 + (lowHalf v).toNat := by
    rw [toNat_highHalf, toNat_lowHalf]
    omega
  have huv : u.toNat * v.toNat = (highHalf u).toNat * (highHalf v).toNat * 2 ^ 32 +
      ((highHalf u).toNat * (lowHalf v).toNat + (lowHalf u).toNat * (highHalf v).toNat) * 2 ^ 16 +
      (lowHalf u).toNat * (lowHalf v).toNat := by
    rw [hu, hv]
    ring
  rw [huv, middle]
  omega

theorem mulHigh_halves (u v : UInt32) :
    mulHigh u v = highHalf u * highHalf v + UInt32.ofNat (middle u v / 2 ^ 16) := by
  apply UInt32.toNat.inj
  rw [mulHigh, product_halves, UInt32.toNat_add, UInt32.toNat_mul, UInt32.toNat_ofNat',
    UInt32.toNat_ofNat']
  omega

theorem mul_halves (u v : UInt32) :
    u * v = 65536 * UInt32.ofNat (middle u v) + lowHalf (lowHalf u * lowHalf v) := by
  apply UInt32.toNat.inj
  rw [UInt32.toNat_mul u v, product_halves, UInt32.toNat_add, UInt32.toNat_mul 65536,
    toNat_lowHalf (lowHalf u * lowHalf v), UInt32.toNat_mul (lowHalf u), UInt32.toNat_ofNat']
  simp only [UInt32.reduceToNat]
  omega

/-- A carry of one word forgets what is above it. -/
theorem shift_middle (u v : UInt32) : UInt32.ofNat (middle u v / 2 ^ 16) =
    UInt32.ofNat (middle u v) >>> 16 + 65536 * UInt32.ofNat (middle u v / 2 ^ 32) := by
  apply UInt32.toNat.inj
  rw [UInt32.toNat_add, toNat_shift, UInt32.toNat_mul, UInt32.toNat_ofNat', UInt32.toNat_ofNat',
    UInt32.toNat_ofNat']
  simp only [UInt32.reduceToNat]
  omega

theorem ofNat_middle (u v : UInt32) : UInt32.ofNat (middle u v) =
    (lowHalf u * lowHalf v) >>> 16 + highHalf u * lowHalf v + lowHalf u * highHalf v := by
  have hu : (lowHalf u).toNat ≤ 65535 := by
    rw [toNat_lowHalf]
    omega
  have hv : (lowHalf v).toNat ≤ 65535 := by
    rw [toNat_lowHalf]
    omega
  have hsmall := Nat.mul_le_mul hu hv
  apply UInt32.toNat.inj
  simp only [UInt32.toNat_add, toNat_shift, UInt32.toNat_mul, UInt32.toNat_ofNat', middle]
  omega

end halves

section hash

variable (hash : UInt64) (bytes : List UInt8)

def absorb (hash : UInt64) (byte : UInt8) : UInt64 := (hash ^^^ byte.toUInt64) * 0x100000001b3

/-- The 64-bit FNV-1a of a byte string. -/
def fnv1a (bytes : List UInt8) : UInt64 := bytes.foldl absorb 0xcbf29ce484222325

theorem low_xor (byte : UInt8) : low (hash ^^^ byte.toUInt64) = low hash ^^^ byte.toUInt32 := by
  rw [low, UInt64.toUInt32_xor, UInt8.toUInt32_toUInt64, low]

theorem high_xor (byte : UInt8) : high (hash ^^^ byte.toUInt64) = high hash := by
  have hbyte := byte.toNat_lt
  apply UInt32.toNat.inj
  rw [toNat_high, UInt64.toNat_xor, Nat.xor_div_two_pow, UInt8.toNat_toUInt64,
    Nat.div_eq_of_lt (by omega : byte.toNat < 2 ^ 32), Nat.xor_zero, toNat_high]

theorem highHalf_xor (w : UInt32) (byte : UInt8) : highHalf (w ^^^ byte.toUInt32) = highHalf w := by
  have hbyte := byte.toNat_lt
  apply UInt32.toNat.inj
  rw [toNat_highHalf, UInt32.toNat_xor, Nat.xor_div_two_pow, UInt8.toNat_toUInt32,
    Nat.div_eq_of_lt (by omega : byte.toNat < 2 ^ 16), Nat.xor_zero, toNat_highHalf]

end hash

section digits

/-- Hexadecimal digits with zeros in front. -/
def hexDigits (width n : Nat) : List Char := (Nat.toDigits 16 n).leftpad width '0'

theorem leftpad_snoc (width : Nat) (digits : List Char) (d : Char) :
    (digits ++ [d]).leftpad (width + 1) '0' = digits.leftpad width '0' ++ [d] := by
  simp [List.leftpad]

theorem hexDigits_succ {width : Nat} (hwidth : 0 < width) (n : Nat) :
    hexDigits (width + 1) n = hexDigits width (n / 16) ++ [Nat.digitChar (n % 16)] := by
  by_cases hn : n < 16
  · have hzero : hexDigits width 0 = List.replicate width '0' := by
      obtain ⟨k, rfl⟩ := Nat.exists_eq_succ_of_ne_zero hwidth.ne'
      simp [hexDigits, List.leftpad, Nat.toDigits_zero, List.replicate_succ']
    rw [Nat.div_eq_of_lt hn, Nat.mod_eq_of_lt hn, hzero, hexDigits, Nat.toDigits_of_lt_base hn]
    simp [List.leftpad]
  · rw [hexDigits, Nat.toDigits_of_base_le (by decide) (by omega), leftpad_snoc, hexDigits]

/-- The digits of two numbers side by side. -/
theorem hexDigits_append {width k : Nat} (hwidth : 0 < width) (m n : Nat) (hn : n < 16 ^ (k + 1)) :
    hexDigits (width + (k + 1)) (m * 16 ^ (k + 1) + n) =
      hexDigits width m ++ hexDigits (k + 1) n := by
  induction k generalizing n with
  | zero =>
    have hdiv : (m * 16 ^ (0 + 1) + n) / 16 = m := by omega
    have hmod : (m * 16 ^ (0 + 1) + n) % 16 = n := by omega
    rw [hexDigits_succ hwidth, hdiv, hmod]
    simp [hexDigits, List.leftpad, Nat.toDigits_of_lt_base (show n < 16 by omega)]
  | succ k ih =>
    have hsplit : m * 16 ^ (k + 1 + 1) = 16 * (m * 16 ^ (k + 1)) := by ring
    have hdiv : (m * 16 ^ (k + 1 + 1) + n) / 16 = m * 16 ^ (k + 1) + n / 16 := by omega
    have hmod : (m * 16 ^ (k + 1 + 1) + n) % 16 = n % 16 := by omega
    have hsmall : n / 16 < 16 ^ (k + 1) := by
      rw [pow_succ] at hn
      omega
    rw [← Nat.add_assoc, hexDigits_succ (by omega), hdiv, hmod, ih _ hsmall,
      hexDigits_succ (Nat.succ_pos k), List.append_assoc]

/-- Sixteen hexadecimal digits. -/
def hex (hash : UInt64) : List Char := hexDigits 16 hash.toNat

theorem hex_ofWords (hi lo : UInt32) :
    hex (ofWords hi lo) = hexDigits 8 hi.toNat ++ hexDigits 8 lo.toNat := by
  have hlo : lo.toNat < 16 ^ (7 + 1) := lo.toNat_lt
  rw [hex, toNat_ofWords]
  exact hexDigits_append (by decide) hi.toNat lo.toNat hlo

end digits

end Solarcido.Fnv
