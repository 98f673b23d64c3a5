import Solarcido.Js.Text

namespace Solarcido

/-- The contents of a `Buffer`. -/
abbrev Bytes := List UInt8

namespace Utf8

open Text

def replacement : Nat := 0xFFFD

def encodeCodePoint (c : Nat) : Bytes :=
  if c < 0x80 then [UInt8.ofNat c]
  else if c < 0x800 then [UInt8.ofNat (0xC0 + c / 0x40), UInt8.ofNat (0x80 + c % 0x40)]
  else if c < 0x10000 then
    [UInt8.ofNat (0xE0 + c / 0x1000), UInt8.ofNat (0x80 + c / 0x40 % 0x40),
      UInt8.ofNat (0x80 + c % 0x40)]
  else
    [UInt8.ofNat (0xF0 + c / 0x40000), UInt8.ofNat (0x80 + c / 0x1000 % 0x40),
      UInt8.ofNat (0x80 + c / 0x40 % 0x40), UInt8.ofNat (0x80 + c % 0x40)]

def scalar (c : Nat) : Nat := if IsScalar c then c else replacement

/-- `Buffer.from(s, "utf8")`: a lone surrogate is written as U+FFFD. -/
def bufferFrom (s : JsString) : Bytes := (codePoints s).flatMap fun c => encodeCodePoint (scalar c)

/-- A sequence under way: the continuation bytes still needed, the bits so far,
and the range the next byte must lie in. -/
structure Pending where
  needed : Nat
  bits : Nat
  lower : Nat
  upper : Nat

inductive Lead where
  | point (c : Nat)
  | pending (p : Pending)

def leadByte (b : Nat) : Lead :=
  if b < 0x80 then .point b
  else if 0xC2 ≤ b && b ≤ 0xDF then .pending ⟨1, b - 0xC0, 0x80, 0xBF⟩
  else if 0xE0 ≤ b && b ≤ 0xEF then
    .pending ⟨2, b - 0xE0, if b == 0xE0 then 0xA0 else 0x80, if b == 0xED then 0x9F else 0xBF⟩
  else if 0xF0 ≤ b && b ≤ 0xF4 then
    .pending ⟨3, b - 0xF0, if b == 0xF0 then 0x90 else 0x80, if b == 0xF4 then 0x8F else 0xBF⟩
  else .point replacement

/-- The decoder of the Encoding Standard: an ill-formed sequence gives U+FFFD
and the byte that broke it is read anew. -/
def decodeFrom : Option Pending → Bytes → List Nat
  | none, [] => []
  | some _, [] => [replacement]
  | none, b :: bs =>
    match leadByte b.toNat with
    | .point c => c :: decodeFrom none bs
    | .pending p => decodeFrom (some p) bs
  | some p, b :: bs =>
    if p.lower ≤ b.toNat && b.toNat ≤ p.upper then
      let bits := p.bits * 0x40 + (b.toNat - 0x80)
      if p.needed == 1 then bits :: decodeFrom none bs
      else decodeFrom (some ⟨p.needed - 1, bits, 0x80, 0xBF⟩) bs
    else
      replacement ::
        match leadByte b.toNat with
        | .point c => c :: decodeFrom none bs
        | .pending q => decodeFrom (some q) bs

/-- `buffer.toString("utf8")`. -/
def bufferToString (bs : Bytes) : JsString := fromCodePoints (decodeFrom none bs)

theorem toNat_ofNat {n : Nat} (h : n < 256) : (UInt8.ofNat n).toNat = n := by
  rw [UInt8.toNat_ofNat']
  omega

theorem decodeFrom_lead {n : Nat} (h : n < 256) (p : Pending) (hp : leadByte n = .pending p)
    (rest : Bytes) : decodeFrom none (UInt8.ofNat n :: rest) = decodeFrom (some p) rest := by
  rw [decodeFrom, toNat_ofNat h, hp]

theorem decodeFrom_continue {n needed bits lower upper : Nat} (h : n < 256) (hl : lower ≤ n)
    (hu : n ≤ upper) (hn : 2 ≤ needed) (rest : Bytes) :
    decodeFrom (some ⟨needed, bits, lower, upper⟩) (UInt8.ofNat n :: rest) =
      decodeFrom (some ⟨needed - 1, bits * 0x40 + (n - 0x80), 0x80, 0xBF⟩) rest := by
  have hne : (needed == 1) = false := by
    rw [beq_eq_false_iff_ne]
    omega
  rw [decodeFrom, toNat_ofNat h]
  simp [hl, hu, hne]

theorem decodeFrom_last {n bits lower upper : Nat} (h : n < 256) (hl : lower ≤ n) (hu : n ≤ upper)
    (rest : Bytes) :
    decodeFrom (some ⟨1, bits, lower, upper⟩) (UInt8.ofNat n :: rest) =
      (bits * 0x40 + (n - 0x80)) :: decodeFrom none rest := by
  rw [decodeFrom, toNat_ofNat h]
  simp [hl, hu]

theorem within_range {n lower upper : Nat} (hl : lower ≤ n) (hu : n ≤ upper) :
    (decide (lower ≤ n) && decide (n ≤ upper)) = true := by
  simp [hl, hu]

theorem above_range {n lower upper : Nat} (h : upper < n) :
    ¬ (decide (lower ≤ n) && decide (n ≤ upper)) = true := by
  simp only [Bool.and_eq_true, decide_eq_true_eq]
  omega

theorem decodeFrom_two (c : Nat) (h1 : 0x80 ≤ c) (h2 : c < 0x800) (rest : Bytes) :
    decodeFrom none (UInt8.ofNat (0xC0 + c / 0x40) :: UInt8.ofNat (0x80 + c % 0x40) :: rest) =
      c :: decodeFrom none rest := by
  have hlead : leadByte (0xC0 + c / 0x40) = .pending ⟨1, c / 0x40, 0x80, 0xBF⟩ := by
    rw [leadByte, if_neg (by omega), if_pos (within_range (by omega) (by omega)),
      Nat.add_sub_cancel_left]
  rw [decodeFrom_lead (by omega) _ hlead, decodeFrom_last (by omega) (by omega) (by omega)]
  exact congrArg (· :: decodeFrom none rest) (by omega)

theorem decodeFrom_three (c : Nat) (hc : IsScalar c) (h1 : 0x800 ≤ c) (h2 : c < 0x10000)
    (rest : Bytes) :
    decodeFrom none (UInt8.ofNat (0xE0 + c / 0x1000) :: UInt8.ofNat (0x80 + c / 0x40 % 0x40) ::
      UInt8.ofNat (0x80 + c % 0x40) :: rest) = c :: decodeFrom none rest := by
  unfold IsScalar at hc
  have hlead : leadByte (0xE0 + c / 0x1000) =
      .pending ⟨2, c / 0x1000, if 0xE0 + c / 0x1000 == 0xE0 then 0xA0 else 0x80,
        if 0xE0 + c / 0x1000 == 0xED then 0x9F else 0xBF⟩ := by
    rw [leadByte, if_neg (by omega), if_neg (above_range (by omega)),
      if_pos (within_range (by omega) (by omega)), Nat.add_sub_cancel_left]
  have hlow : (if 0xE0 + c / 0x1000 == 0xE0 then 0xA0 else 0x80) ≤ 0x80 + c / 0x40 % 0x40 := by
    simp only [beq_iff_eq]
    split <;> omega
  have hup : 0x80 + c / 0x40 % 0x40 ≤ if 0xE0 + c / 0x1000 == 0xED then 0x9F else 0xBF := by
    simp only [beq_iff_eq]
    split <;> omega
  rw [decodeFrom_lead (by omega) _ hlead, decodeFrom_continue (by omega) hlow hup (by omega),
    decodeFrom_last (by omega) (by omega) (by omega)]
  exact congrArg (· :: decodeFrom none rest) (by omega)

theorem decodeFrom_four (c : Nat) (h1 : 0x10000 ≤ c) (h2 : c < 0x110000) (rest : Bytes) :
    decodeFrom none (UInt8.ofNat (0xF0 + c / 0x40000) :: UInt8.ofNat (0x80 + c / 0x1000 % 0x40) ::
      UInt8.ofNat (0x80 + c / 0x40 % 0x40) :: UInt8.ofNat (0x80 + c % 0x40) :: rest) =
      c :: decodeFrom none rest := by
  have hlead : leadByte (0xF0 + c / 0x40000) =
      .pending ⟨3, c / 0x40000, if 0xF0 + c / 0x40000 == 0xF0 then 0x90 else 0x80,
        if 0xF0 + c / 0x40000 == 0xF4 then 0x8F else 0xBF⟩ := by
    rw [leadByte, if_neg (by omega), if_neg (above_range (by omega)),
      if_neg (above_range (by omega)), if_pos (within_range (by omega) (by omega)),
      Nat.add_sub_cancel_left]
  have hlow : (if 0xF0 + c / 0x40000 == 0xF0 then 0x90 else 0x80) ≤
      0x80 + c / 0x1000 % 0x40 := by
    simp only [beq_iff_eq]
    split <;> omega
  have hup : 0x80 + c / 0x1000 % 0x40 ≤ if 0xF0 + c / 0x40000 == 0xF4 then 0x8F else 0xBF := by
    simp only [beq_iff_eq]
    split <;> omega
  rw [decodeFrom_lead (by omega) _ hlead, decodeFrom_continue (by omega) hlow hup (by omega),
    decodeFrom_continue (by omega) (by omega) (by omega) (by omega),
    decodeFrom_last (by omega) (by omega) (by omega)]
  exact congrArg (· :: decodeFrom none rest) (by omega)

theorem decodeFrom_encodeCodePoint (c : Nat) (hc : IsScalar c) (rest : Bytes) :
    decodeFrom none (encodeCodePoint c ++ rest) = c :: decodeFrom none rest := by
  have hmax : c < 0x110000 := by
    unfold IsScalar at hc
    omega
  rw [encodeCodePoint]
  split
  · next h1 =>
    rw [List.singleton_append, decodeFrom, toNat_ofNat (by omega), leadByte, if_pos h1]
  · split
    · exact decodeFrom_two c (by omega) (by omega) rest
    · split
      · exact decodeFrom_three c hc (by omega) (by omega) rest
      · exact decodeFrom_four c (by omega) hmax rest

theorem decodeFrom_encode (cs : List Nat) (h : ∀ c ∈ cs, IsScalar c) :
    decodeFrom none (cs.flatMap encodeCodePoint) = cs := by
  induction cs with
  | nil => rfl
  | cons c cs ih =>
    rw [List.flatMap_cons, decodeFrom_encodeCodePoint c (h c (by simp)),
      ih fun d hd => h d (by simp [hd])]

theorem bufferFrom_fromCodePoints (cs : List Nat) (h : ∀ c ∈ cs, IsScalar c) :
    bufferFrom (fromCodePoints cs) = cs.flatMap encodeCodePoint := by
  rw [bufferFrom, codePoints_fromCodePoints cs h]
  induction cs with
  | nil => rfl
  | cons c cs ih =>
    rw [List.flatMap_cons, List.flatMap_cons, ih fun d hd => h d (by simp [hd]), scalar,
      if_pos (h c (by simp))]

theorem bufferToString_bufferFrom (s : JsString) (h : WellFormed s) :
    bufferToString (bufferFrom s) = s := by
  obtain ⟨cs, hcs, rfl⟩ := h
  rw [bufferFrom_fromCodePoints cs hcs, bufferToString, decodeFrom_encode cs hcs]

theorem bufferFrom_ascii (s : JsString) (h : IsAscii s) :
    bufferFrom s = s.map fun u => UInt8.ofNat u.toNat := by
  rw [bufferFrom, codePoints_ascii s h, List.flatMap_map]
  induction s with
  | nil => rfl
  | cons u s ih =>
    have hu : u.toNat < 128 := h u (by simp)
    have hscalar : IsScalar u.toNat := Or.inl (by omega)
    rw [List.flatMap_cons, ih fun v hv => h v (by simp [hv]), scalar, if_pos hscalar,
      encodeCodePoint, if_pos hu]
    rfl

theorem encodeCodePoint_length (c : Nat) : (encodeCodePoint c).length ≤ 4 := by
  rw [encodeCodePoint]
  split_ifs <;> simp

theorem encodeCodePoint_length_unit (c : Nat) (hc : c < 0x10000) :
    (encodeCodePoint (scalar c)).length ≤ 3 := by
  have hs : scalar c < 0x10000 := by
    rw [scalar, replacement]
    split <;> omega
  rw [encodeCodePoint]
  rw [if_pos hs]
  split_ifs <;> simp

theorem bufferFrom_length (s : JsString) : (bufferFrom s).length ≤ 3 * s.length := by
  rw [bufferFrom]
  induction s using codePoints.induct with
  | case1 => simp [codePoints]
  | case2 u =>
    have hu := encodeCodePoint_length_unit u.toNat u.toNat_lt
    simpa [codePoints] using hu
  | case3 u v rest hpair ih =>
    have hu := encodeCodePoint_length
      (scalar (0x10000 + (u.toNat - 0xD800) * 0x400 + (v.toNat - 0xDC00)))
    rw [codePoints, if_pos hpair, List.flatMap_cons, List.length_append, List.length_cons,
      List.length_cons]
    omega
  | case4 u v rest hpair ih =>
    have hu := encodeCodePoint_length_unit u.toNat u.toNat_lt
    rw [codePoints, if_neg hpair, List.flatMap_cons, List.length_append, List.length_cons]
    omega

section decoder

/-- What a byte gives that continues no sequence. -/
def startByte (b : UInt8) : List Nat × Option Pending :=
  match leadByte b.toNat with
  | .point c => ([c], none)
  | .pending p => ([], some p)

def writeByte : Option Pending → UInt8 → List Nat × Option Pending
  | none, b => startByte b
  | some p, b =>
    if p.lower ≤ b.toNat && b.toNat ≤ p.upper then
      let bits := p.bits * 0x40 + (b.toNat - 0x80)
      if p.needed == 1 then ([bits], none)
      else ([], some ⟨p.needed - 1, bits, 0x80, 0xBF⟩)
    else (replacement :: (startByte b).1, (startByte b).2)

/-- `decoder.write(bytes)` of a string decoder: the code points that are complete, and the
sequence that is still under way. -/
def write : Option Pending → Bytes → List Nat × Option Pending
  | p, [] => ([], p)
  | p, b :: bs =>
    let (cs, q) := writeByte p b
    let (ds, rest) := write q bs
    (cs ++ ds, rest)

/-- `decoder.end()`. -/
def flush : Option Pending → List Nat
  | none => []
  | some _ => [replacement]

theorem write_cons (p : Option Pending) (b : UInt8) (bs : Bytes) : write p (b :: bs) =
    ((writeByte p b).1 ++ (write (writeByte p b).2 bs).1, (write (writeByte p b).2 bs).2) := rfl

theorem write_single (p : Option Pending) (b : UInt8) : write p [b] = writeByte p b := by
  rw [write_cons, write, List.append_nil]

theorem decodeFrom_start (b : UInt8) (bs : Bytes) :
    decodeFrom none (b :: bs) = (startByte b).1 ++ decodeFrom (startByte b).2 bs := by
  rw [decodeFrom, startByte]
  cases leadByte b.toNat <;> rfl

theorem decodeFrom_cons (p : Option Pending) (b : UInt8) (bs : Bytes) :
    decodeFrom p (b :: bs) = (writeByte p b).1 ++ decodeFrom (writeByte p b).2 bs := by
  cases p with
  | none => exact decodeFrom_start b bs
  | some p =>
    have hbroken : decodeFrom (some p) (b :: bs) =
        if p.lower ≤ b.toNat && b.toNat ≤ p.upper then
          let bits := p.bits * 0x40 + (b.toNat - 0x80)
          if p.needed == 1 then bits :: decodeFrom none bs
          else decodeFrom (some ⟨p.needed - 1, bits, 0x80, 0xBF⟩) bs
        else replacement :: decodeFrom none (b :: bs) := by
      rw [decodeFrom, decodeFrom]
    rw [hbroken, writeByte, decodeFrom_start]
    split
    · dsimp only
      split <;> rfl
    · rfl

/-- Written piece by piece and ended, the bytes give what they give in one piece. -/
theorem decodeFrom_eq_write (p : Option Pending) (bs : Bytes) :
    decodeFrom p bs = (write p bs).1 ++ flush (write p bs).2 := by
  induction bs generalizing p with
  | nil => cases p <;> simp [decodeFrom, write, flush]
  | cons b bs ih => rw [decodeFrom_cons, ih, write_cons, List.append_assoc]

end decoder

end Utf8

end Solarcido
