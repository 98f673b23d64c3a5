import Solarcido.Api.PromptCache
import Solarcido.Crates.Paths
import Solarcido.Lib.Fnv

namespace Solarcido

open Text

/-- `stableHexHash`: the hash is a big integer, cut to 64 bits after each product. -/
def Mcp.stableHexHash (value : JsString) : JsString :=
  let hash := (Utf8.bufferFrom value).foldl
    (fun hash byte => ((hash ^^^ byte.toNat) * 0x100000001b3) &&& 0xffffffffffffffff)
    0xcbf29ce484222325
  padStart ((Nat.toDigits 16 hash).map fun c => UInt16.ofNat c.toNat) 16

/-- `stable_hex_hash`. -/
def Crates.stableHexHash (value : Crates.RustString) : Crates.RustString :=
  let hash := (Crates.utf8 value).foldl
    (fun (hash : UInt64) byte => (hash ^^^ byte.toUInt64) * 0x100000001b3) 0xcbf29ce484222325
  (Nat.toDigits 16 hash.toNat).leftpad 16 '0'

namespace Hashes

open Fnv

open scoped UInt32.CommRing

/-- A text of ASCII characters as the language keeps it. -/
def units (text : List Char) : JsString := text.map fun c => UInt16.ofNat c.toNat

section digits

theorem units_leftpad (width : Nat) (digits : List Char) :
    units (digits.leftpad width '0') = padStart (units digits) width := by
  simp [units, List.leftpad, padStart]

theorem hexWord_eq (word : UInt32) : Sessions.hexWord word = units (hexDigits 8 word.toNat) :=
  (units_leftpad 8 _).symm

theorem hexWords_eq (hash : UInt64) :
    Sessions.hexWord (high hash) ++ Sessions.hexWord (low hash) = units (hex hash) := by
  rw [hexWord_eq, hexWord_eq, ← ofWords_high_low hash, hex_ofWords, ofWords_high_low, units, units,
    units, List.map_append]

end digits

section product

variable (aHi aLo bHi bLo : UInt32)

/-- The products that belong a half word higher than the code adds them in. -/
def upperProducts : UInt32 :=
  highHalf aHi * lowHalf bLo + lowHalf aHi * highHalf bLo + highHalf aLo * lowHalf bHi +
    lowHalf aLo * highHalf bHi

/-- What the carry holds above 32 bits. -/
def lostCarry : UInt32 := UInt32.ofNat (middle aLo bLo / 2 ^ 32)

/-- How far the high word is from the one of the product. -/
def productError : UInt32 := 65535 * upperProducts aHi aLo bHi bLo + 65536 * lostCarry aLo bLo

theorem mul64_snd : (Sessions.mul64 aHi aLo bHi bLo).2 = aLo * bLo := by
  rw [mul_halves, ofNat_middle]
  exact joined_halves _ _

theorem mul64_fst : (Sessions.mul64 aHi aLo bHi bLo).1 + productError aHi aLo bHi bLo =
    aHi * bLo + aLo * bHi + mulHigh aLo bLo := by
  have hmul : (Sessions.mul64 aHi aLo bHi bLo).1 = UInt32.ofNat (middle aLo bLo) >>> 16 +
      lowHalf aHi * lowHalf bLo + highHalf aLo * highHalf bLo + lowHalf aLo * lowHalf bHi +
      highHalf aHi * lowHalf bLo + lowHalf aHi * highHalf bLo + highHalf aLo * lowHalf bHi +
      lowHalf aLo * highHalf bHi := by
    rw [ofNat_middle]
    rfl
  rw [hmul, mulHigh_halves, shift_middle, mul_of_halves aHi bLo, mul_of_halves aLo bHi,
    productError, upperProducts, lostCarry]
  ring

/-- The words of a product are right if the misplaced products and the lost carry cancel out. -/
theorem mul64_iff : Sessions.mul64 aHi aLo bHi bLo =
      (high (ofWords aHi aLo * ofWords bHi bLo), low (ofWords aHi aLo * ofWords bHi bLo)) ↔
    productError aHi aLo bHi bLo = 0 := by
  have hfst := mul64_fst aHi aLo bHi bLo
  have hsnd := mul64_snd aHi aLo bHi bLo
  rw [high_mul, low_mul, high_ofWords, high_ofWords, low_ofWords, low_ofWords, ← hfst, Prod.ext_iff]
  constructor
  · intro h
    exact left_eq_add.mp h.1
  · intro h
    exact ⟨left_eq_add.mpr h, hsnd⟩

end product

section hash

variable (hash : UInt64) (behind : UInt32) (byte : UInt8) (bytes : List UInt8)

/-- The error of the high word after one more byte, for a hash whose high word is behind by
the error so far. -/
def driftStep : UInt32 :=
  435 * behind + 65535 * (435 * highHalf (high hash - behind) + 256 * highHalf (low hash))

def driftFrom (hash : UInt64) (behind : UInt32) : List UInt8 → UInt32
  | [] => behind
  | byte :: bytes => driftFrom (absorb hash byte) (driftStep hash behind) bytes

/-- How far the high word of a hash is behind that of FNV-1a: the error of each product, carried
on by the products after it. -/
def drift (bytes : List UInt8) : UInt32 := driftFrom 0xcbf29ce484222325 0 bytes

theorem lostCarry_prime (word : UInt32) : lostCarry word Sessions.fnvPrimeLo = 0 := by
  have hlow : (lowHalf word).toNat ≤ 65535 := by
    rw [toNat_lowHalf]
    omega
  have hhigh : (highHalf word).toNat ≤ 65535 := by
    have hword := word.toNat_lt
    rw [toNat_highHalf]
    omega
  have hmiddle : middle word Sessions.fnvPrimeLo < 2 ^ 32 := by
    change (lowHalf word).toNat * 435 / 2 ^ 16 + (highHalf word).toNat * 435 +
      (lowHalf word).toNat * 0 < 2 ^ 32
    omega
  rw [lostCarry, Nat.div_eq_of_lt hmiddle]
  rfl

theorem productError_prime : productError (high hash - behind) (low hash ^^^ byte.toUInt32)
      Sessions.fnvPrimeHi Sessions.fnvPrimeLo =
    65535 * (435 * highHalf (high hash - behind) + 256 * highHalf (low hash)) := by
  have hlo : lowHalf Sessions.fnvPrimeLo = 435 ∧ highHalf Sessions.fnvPrimeLo = 0 := by decide
  have hhi : lowHalf Sessions.fnvPrimeHi = 256 ∧ highHalf Sessions.fnvPrimeHi = 0 := by decide
  rw [productError, lostCarry_prime, upperProducts, hlo.1, hlo.2, hhi.1, hhi.2, highHalf_xor]
  ring

theorem mul64_step : Sessions.mul64 (high hash - behind) (low hash ^^^ byte.toUInt32)
      Sessions.fnvPrimeHi Sessions.fnvPrimeLo =
    (high (absorb hash byte) - driftStep hash behind, low (absorb hash byte)) := by
  have hprime : (0x100000001b3 : UInt64) = ofWords Sessions.fnvPrimeHi Sessions.fnvPrimeLo := by
    decide
  have hlo : Sessions.fnvPrimeLo = 435 := rfl
  apply Prod.ext
  · have hfst := mul64_fst (high hash - behind) (low hash ^^^ byte.toUInt32) Sessions.fnvPrimeHi
      Sessions.fnvPrimeLo
    rw [productError_prime] at hfst
    rw [eq_sub_of_add_eq hfst, absorb, hprime, high_mul, high_ofWords, low_ofWords, high_xor,
      low_xor, driftStep, hlo]
    ring
  · rw [mul64_snd, absorb, hprime, low_mul, low_ofWords, low_xor]

theorem fnv1a64_from : bytes.foldl
      (fun (hi, lo) byte => Sessions.mul64 hi (lo ^^^ byte.toUInt32) Sessions.fnvPrimeHi
        Sessions.fnvPrimeLo) (high hash - behind, low hash) =
    (high (bytes.foldl absorb hash) - driftFrom hash behind bytes, low (bytes.foldl absorb hash)) := by
  induction bytes generalizing hash behind with
  | nil => rfl
  | cons byte bytes ih =>
    rw [List.foldl_cons, List.foldl_cons, driftFrom, ← ih, ← mul64_step]

/-- What the two-word hash comes to. -/
theorem fnv1a64_eq : Sessions.fnv1a64 bytes =
    (high (fnv1a bytes) - drift bytes, low (fnv1a bytes)) :=
  fnv1a64_from 0xcbf29ce484222325 0 bytes

theorem fnv1a64_iff : Sessions.fnv1a64 bytes = (high (fnv1a bytes), low (fnv1a bytes)) ↔
    drift bytes = 0 := by
  rw [fnv1a64_eq, Prod.ext_iff]
  simp [sub_eq_self]

end hash

section texts

theorem stableHexHash_eq (value : JsString) :
    Mcp.stableHexHash value = units (hex (fnv1a (Utf8.bufferFrom value))) := by
  have hfold : ∀ (bytes : Bytes) (hash : UInt64), bytes.foldl
      (fun hash byte => ((hash ^^^ byte.toNat) * 0x100000001b3) &&& 0xffffffffffffffff) hash.toNat =
        (bytes.foldl absorb hash).toNat := by
    intro bytes
    induction bytes with
    | nil => exact fun _ => rfl
    | cons byte bytes ih =>
      intro hash
      rw [List.foldl_cons, List.foldl_cons, ← ih, absorb, UInt64.toNat_mul, UInt64.toNat_xor,
        UInt8.toNat_toUInt64]
      congr 1
      exact Nat.and_two_pow_sub_one_eq_mod _ 64
  rw [hex, hexDigits, units_leftpad, Mcp.stableHexHash]
  congr 3
  exact hfold (Utf8.bufferFrom value) 0xcbf29ce484222325

theorem utf8_eq (value : Crates.RustString) :
    Crates.utf8 value = Utf8.bufferFrom (Crates.RustText.toJs value) := by
  rw [Utf8.bufferFrom, Crates.RustText.codePoints_toJs, Crates.utf8, List.flatMap_map]
  apply List.flatMap_congr
  intro c _
  rw [Utf8.scalar, if_pos (Text.isScalar_toNat c)]

theorem rust_stableHexHash_eq (value : Crates.RustString) :
    Crates.stableHexHash value = hex (fnv1a (Utf8.bufferFrom (Crates.RustText.toJs value))) := by
  rw [← utf8_eq]
  rfl

end texts

/-- The product of two numbers of two words each. -/
def Multiplies (aHi aLo bHi bLo : UInt32) : Prop :=
  Api.PromptCache.mul64 aHi aLo bHi bLo =
      (high (ofWords aHi aLo * ofWords bHi bLo), low (ofWords aHi aLo * ofWords bHi bLo)) ∧
    Sessions.mul64 aHi aLo bHi bLo =
      (high (ofWords aHi aLo * ofWords bHi bLo), low (ofWords aHi aLo * ofWords bHi bLo))

/-- All implementations compute the FNV-1a of the bytes of a text. -/
structure ComputesFnv (value : JsString) : Prop where
  cache : Api.PromptCache.fnv1a64 (Utf8.bufferFrom value) =
    (high (fnv1a (Utf8.bufferFrom value)), low (fnv1a (Utf8.bufferFrom value)))
  fingerprint : Sessions.workspaceFingerprint value = units (hex (fnv1a (Utf8.bufferFrom value)))
  naming : Mcp.stableHexHash value = units (hex (fnv1a (Utf8.bufferFrom value)))
  rust : ∀ text, Crates.RustText.toJs text = value →
    Crates.stableHexHash text = hex (fnv1a (Utf8.bufferFrom value))

theorem computesFnv_of_drift {value : JsString} (h : drift (Utf8.bufferFrom value) = 0) :
    ComputesFnv value := by
  have hwords := (fnv1a64_iff (Utf8.bufferFrom value)).mpr h
  refine ⟨hwords, ?_, stableHexHash_eq value, ?_⟩
  · rw [← hexWords_eq, Sessions.workspaceFingerprint, hwords]
  · rintro text rfl
    exact rust_stableHexHash_eq text

theorem hashes_agree_iff (aHi aLo bHi bLo : UInt32) (value : JsString) :
    (Multiplies aHi aLo bHi bLo ↔ productError aHi aLo bHi bLo = 0) ∧
      (ComputesFnv value ↔ drift (Utf8.bufferFrom value) = 0) := by
  constructor
  · exact (and_self_iff).trans (mul64_iff aHi aLo bHi bLo)
  · constructor
    · intro h
      exact (fnv1a64_iff (Utf8.bufferFrom value)).mp h.cache
    · exact computesFnv_of_drift

theorem letter_hashed_wrong : ¬ ComputesFnv (js "a") ∧ ¬ Multiplies 0 0x10000 1 0 := by
  constructor
  · intro h
    exact absurd h.cache (by decide)
  · intro h
    exact absurd h.1 (by decide)

end Hashes

end Solarcido
