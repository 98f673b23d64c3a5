import Solarcido.Js.CodePoints
import Solarcido.Js.Number
import Solarcido.Js.Utf8

namespace Solarcido.Uri

open Text Number

/-- The byte of a `%XX` at the front. -/
def escapeByte : JsString → Option Nat
  | 37 :: a :: b :: _ => do
    let high ← hexValue a
    let low ← hexValue b
    return 16 * high + low
  | _ => none

/-- How many bytes a code point with this first byte has. -/
def sequenceLength (b : Nat) : Option Nat :=
  if b < 0x80 then some 1
  else if 0xC0 ≤ b ∧ b < 0xE0 then some 2
  else if 0xE0 ≤ b ∧ b < 0xF0 then some 3
  else if 0xF0 ≤ b ∧ b < 0xF8 then some 4
  else none

/-- The bits of a first byte beside its length. -/
def leadBits (length b : Nat) : Nat := if length = 1 then b else b % 2 ^ (7 - length)

/-- The code point of some bytes, which must be the bytes it is encoded by. -/
def pointOf (bytes : List Nat) : Option Nat :=
  match bytes with
  | [] => none
  | b :: rest =>
    let c := rest.foldl (fun bits byte => bits * 0x40 + byte % 0x40) (leadBits bytes.length b)
    if IsScalar c ∧ Utf8.encodeCodePoint c = bytes.map UInt8.ofNat then some c else none

/-- The code point of the escapes at the front, and how many units they take. -/
def escapedPoint (s : JsString) : Option (Nat × Nat) := do
  let first ← escapeByte s
  let length ← sequenceLength first
  let bytes ← (List.range length).mapM fun i => escapeByte (s.drop (3 * i))
  let c ← pointOf bytes
  return (c, 3 * length)

def decodeFrom : Nat → JsString → Option JsString
  | _, [] => some []
  | skip + 1, _ :: rest => decodeFrom skip rest
  | 0, u :: rest =>
    if u = 37 then
      match escapedPoint (u :: rest) with
      | none => none
      | some (c, width) => (decodeFrom (width - 1) rest).map (utf16 c ++ ·)
    else (decodeFrom 0 rest).map (u :: ·)

/-- `decodeURIComponent(s)`, `none` where it throws. -/
def decodeURIComponent (s : JsString) : Option JsString := decodeFrom 0 s

theorem decodeURIComponent_cons {u : UInt16} (h : u ≠ 37) (rest : JsString) :
    decodeURIComponent (u :: rest) = (decodeURIComponent rest).map (u :: ·) := by
  rw [decodeURIComponent, decodeFrom, if_neg h]
  rfl

section encoding

/-- The characters that are not escaped: letters, digits, and `- _ . ! ~ * ' ( )`. -/
def isUnescaped (c : Nat) : Bool :=
  (65 ≤ c && c ≤ 90) || (97 ≤ c && c ≤ 122) || (48 ≤ c && c ≤ 57) ||
    [45, 95, 46, 33, 126, 42, 39, 40, 41].contains c

def hexDigit (n : Nat) : UInt16 := UInt16.ofNat (if n < 10 then 48 + n else 55 + n)

def escape (b : UInt8) : JsString := [37, hexDigit (b.toNat / 16), hexDigit (b.toNat % 16)]

def encodePoint (c : Nat) : JsString :=
  if isUnescaped c then [UInt16.ofNat c] else (Utf8.encodeCodePoint c).flatMap escape

/-- `encodeURIComponent(s)`, `none` where it throws. -/
def encodeURIComponent (s : JsString) : Option JsString :=
  if ∀ c ∈ codePoints s, IsScalar c then some ((codePoints s).flatMap encodePoint) else none

theorem hexValue_hexDigit : ∀ n < 16, hexValue (hexDigit n) = some n := by decide

theorem escapeByte_escape (b : UInt8) (rest : JsString) :
    escapeByte (escape b ++ rest) = some b.toNat := by
  have hb : b.toNat < 256 := b.toNat_lt
  have hhigh := hexValue_hexDigit (b.toNat / 16) (by omega)
  have hlow := hexValue_hexDigit (b.toNat % 16) (by omega)
  have hsum : 16 * (b.toNat / 16) + b.toNat % 16 = b.toNat := Nat.div_add_mod _ _
  simp only [escape, List.cons_append, List.nil_append, escapeByte, hhigh, hlow, bind,
    Option.bind, pure, hsum]

theorem escapeBytes_escape (bytes : Bytes) (rest : JsString) :
    ((List.range bytes.length).mapM fun i =>
      escapeByte ((bytes.flatMap escape ++ rest).drop (3 * i))) = some (bytes.map UInt8.toNat) := by
  induction bytes with
  | nil => rfl
  | cons b bytes ih =>
    have hafter : (fun i => escapeByte (((b :: bytes).flatMap escape ++ rest).drop (3 * i))) ∘
        Nat.succ = fun i => escapeByte ((bytes.flatMap escape ++ rest).drop (3 * i)) := by
      funext i
      rw [Function.comp_apply, Nat.mul_succ, List.flatMap_cons, List.append_assoc, Nat.add_comm,
        ← List.drop_drop]
      rfl
    have hfirst : escapeByte (((b :: bytes).flatMap escape ++ rest).drop (3 * 0)) =
        some b.toNat := by
      rw [Nat.mul_zero, List.drop_zero, List.flatMap_cons, List.append_assoc, escapeByte_escape]
    rw [List.length_cons, List.range_succ_eq_map, List.mapM_cons, hfirst, List.mapM_map]
    rw [hafter, ih]
    rfl

theorem toNat_encode {c : Nat} (hc : IsScalar c) : (Utf8.encodeCodePoint c).map UInt8.toNat =
    if c < 0x80 then [c]
    else if c < 0x800 then [0xC0 + c / 0x40, 0x80 + c % 0x40]
    else if c < 0x10000 then [0xE0 + c / 0x1000, 0x80 + c / 0x40 % 0x40, 0x80 + c % 0x40]
    else [0xF0 + c / 0x40000, 0x80 + c / 0x1000 % 0x40, 0x80 + c / 0x40 % 0x40,
      0x80 + c % 0x40] := by
  unfold IsScalar at hc
  rw [Utf8.encodeCodePoint]
  split_ifs <;> simp (disch := omega) only [List.map_cons, List.map_nil, Utf8.toNat_ofNat]

/-- The first byte of a code point says how many there are, and the bits are in all of them. -/
theorem bytes_encode {c : Nat} (hc : IsScalar c) : ∃ b rest,
    (Utf8.encodeCodePoint c).map UInt8.toNat = b :: rest ∧
      sequenceLength b = some (rest.length + 1) ∧
      rest.foldl (fun bits byte => bits * 0x40 + byte % 0x40) (leadBits (rest.length + 1) b) = c := by
  rw [toNat_encode hc]
  unfold IsScalar at hc
  split
  · next h1 => exact ⟨c, [], rfl, if_pos h1, rfl⟩
  · split
    · refine ⟨_, _, rfl, ?_, ?_⟩
      · rw [sequenceLength, if_neg (by omega), if_pos (by omega)]
        rfl
      · change (0xC0 + c / 0x40) % 2 ^ 5 * 0x40 + (0x80 + c % 0x40) % 0x40 = c
        omega
    · split
      · refine ⟨_, _, rfl, ?_, ?_⟩
        · rw [sequenceLength, if_neg (by omega), if_neg (by omega), if_pos (by omega)]
          rfl
        · change ((0xE0 + c / 0x1000) % 2 ^ 4 * 0x40 + (0x80 + c / 0x40 % 0x40) % 0x40) * 0x40 +
            (0x80 + c % 0x40) % 0x40 = c
          omega
      · refine ⟨_, _, rfl, ?_, ?_⟩
        · rw [sequenceLength, if_neg (by omega), if_neg (by omega), if_neg (by omega),
            if_pos (by omega)]
          rfl
        · change (((0xF0 + c / 0x40000) % 2 ^ 3 * 0x40 + (0x80 + c / 0x1000 % 0x40) % 0x40) * 0x40 +
            (0x80 + c / 0x40 % 0x40) % 0x40) * 0x40 + (0x80 + c % 0x40) % 0x40 = c
          omega

theorem pointOf_encode {c : Nat} (hc : IsScalar c) :
    pointOf ((Utf8.encodeCodePoint c).map UInt8.toNat) = some c := by
  have hback : ((Utf8.encodeCodePoint c).map UInt8.toNat).map UInt8.ofNat =
      Utf8.encodeCodePoint c := by
    rw [List.map_map]
    exact (List.map_congr_left fun b _ => UInt8.ofNat_toNat).trans (List.map_id _)
  obtain ⟨b, rest, hbytes, -, hbits⟩ := bytes_encode hc
  rw [hbytes] at hback ⊢
  simp only [pointOf, List.length_cons, hbits, hback, hc, and_self, if_true]

theorem escapedPoint_encode {c : Nat} (hc : IsScalar c) (rest : JsString) :
    escapedPoint ((Utf8.encodeCodePoint c).flatMap escape ++ rest) =
      some (c, 3 * (Utf8.encodeCodePoint c).length) := by
  obtain ⟨first, others, hbytes, hlength, -⟩ := bytes_encode hc
  obtain ⟨b, bytes, hencode, rfl, rfl⟩ := List.map_eq_cons_iff.mp hbytes
  have hfirst : escapeByte ((Utf8.encodeCodePoint c).flatMap escape ++ rest) = some b.toNat := by
    rw [hencode, List.flatMap_cons, List.append_assoc, escapeByte_escape]
  have hlen : (bytes.map UInt8.toNat).length + 1 = (Utf8.encodeCodePoint c).length := by
    rw [hencode, List.length_map, List.length_cons]
  rw [hlen] at hlength
  simp only [escapedPoint, hfirst, hlength, escapeBytes_escape, pointOf_encode hc,
    Option.bind_eq_bind, Option.bind_some, pure]

theorem decodeFrom_skip (front rest : JsString) :
    decodeFrom front.length (front ++ rest) = decodeFrom 0 rest := by
  induction front with
  | nil => rfl
  | cons u front ih => exact ih

theorem length_escapes (bytes : Bytes) : (bytes.flatMap escape).length = 3 * bytes.length := by
  induction bytes with
  | nil => rfl
  | cons b bytes ih =>
    have hthree : (escape b).length = 3 := rfl
    rw [List.flatMap_cons, List.length_append, ih, hthree, List.length_cons]
    omega

theorem isUnescaped_bounds {c : Nat} (h : isUnescaped c = true) : c < 128 ∧ c ≠ 37 := by
  simp only [isUnescaped, Bool.or_eq_true, Bool.and_eq_true, decide_eq_true_eq,
    List.contains_iff_mem, List.mem_cons, List.not_mem_nil, or_false] at h
  omega

/-- What a character is encoded by is decoded to the character. -/
theorem decode_encodePoint {c : Nat} (hc : IsScalar c) (rest : JsString) :
    decodeURIComponent (encodePoint c ++ rest) = (decodeURIComponent rest).map (utf16 c ++ ·) := by
  rw [encodePoint]
  split
  · next hplain =>
    obtain ⟨hsmall, hpercent⟩ := isUnescaped_bounds hplain
    have hne : UInt16.ofNat c ≠ 37 := by
      intro heq
      have hnat := congrArg UInt16.toNat heq
      rw [UInt16.toNat_ofNat', Nat.mod_eq_of_lt (by omega)] at hnat
      exact hpercent hnat
    rw [List.singleton_append, decodeURIComponent_cons hne, utf16, if_pos (by omega)]
    rfl
  · have hpoint := escapedPoint_encode hc rest
    have hlength := length_escapes (Utf8.encodeCodePoint c)
    obtain ⟨b, others, hbytes, -⟩ := bytes_encode hc
    obtain ⟨b, bytes, hencode, -⟩ := List.map_eq_cons_iff.mp hbytes
    obtain ⟨tail, htail⟩ : ∃ tail, (Utf8.encodeCodePoint c).flatMap escape = 37 :: tail := by
      rw [hencode]
      exact ⟨_, rfl⟩
    rw [htail] at hpoint hlength ⊢
    have hwidth : 3 * (Utf8.encodeCodePoint c).length - 1 = tail.length := by
      rw [← hlength, List.length_cons, Nat.add_sub_cancel]
    rw [List.cons_append] at hpoint ⊢
    rw [decodeURIComponent, decodeFrom, if_pos rfl, hpoint]
    simp only [hwidth, decodeFrom_skip]
    rfl

theorem decode_encodePoints {cs : List Nat} (h : ∀ c ∈ cs, IsScalar c) (rest : JsString) :
    decodeURIComponent (cs.flatMap encodePoint ++ rest) =
      (decodeURIComponent rest).map (fromCodePoints cs ++ ·) := by
  induction cs with
  | nil => exact Option.map_id_apply.symm
  | cons c cs ih =>
    rw [List.flatMap_cons, List.append_assoc, decode_encodePoint (h c List.mem_cons_self),
      ih fun d hd => h d (List.mem_cons_of_mem c hd), Option.map_map]
    congr 1
    funext t
    exact (List.append_assoc _ _ _).symm

/-- What a text is encoded by is decoded to the text. -/
theorem decode_encode {s encoded : JsString} (h : encodeURIComponent s = some encoded)
    (rest : JsString) :
    decodeURIComponent (encoded ++ rest) = (decodeURIComponent rest).map (s ++ ·) := by
  rw [encodeURIComponent] at h
  split at h
  · next hscalar =>
    obtain rfl := Option.some.inj h
    rw [decode_encodePoints hscalar, fromCodePoints_codePoints]
  · cases h

theorem encodeURIComponent_nil : encodeURIComponent [] = some [] := rfl

end encoding

example : decodeURIComponent (js "/a%20%ED%95%9C%F0%9F%98%80") = some (js "/a 한😀") := by decide

example : decodeURIComponent (js "%C0%AF") = none := by decide

end Solarcido.Uri
