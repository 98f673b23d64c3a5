import Mathlib.Data.List.Infix
import Solarcido.Lib.Search

namespace Solarcido

/-- A JavaScript string: its UTF-16 code units. -/
abbrev JsString := List UInt16

namespace Text

open Search

/-- The code units of one code point. -/
def utf16 (c : Nat) : JsString :=
  if c < 0x10000 then [UInt16.ofNat c]
  else [UInt16.ofNat (0xD800 + (c - 0x10000) / 0x400),
    UInt16.ofNat (0xDC00 + (c - 0x10000) % 0x400)]

def fromCodePoints (cs : List Nat) : JsString := cs.flatMap utf16

/-- A string literal of the source. -/
def js (s : String) : JsString := fromCodePoints (s.toList.map Char.toNat)

theorem js_eq {s : String} {l : List Char} (h : s = String.ofList l) :
    js s = fromCodePoints (l.map Char.toNat) := by
  rw [h, js, String.toList_ofList]

def isHighSurrogate (u : UInt16) : Bool := 0xD800 ≤ u.toNat && u.toNat < 0xDC00

def isLowSurrogate (u : UInt16) : Bool := 0xDC00 ≤ u.toNat && u.toNat < 0xE000

/-- The code points `for (const ch of s)` visits: surrogate pairs are joined,
a surrogate without its partner stands for itself. -/
def codePoints : JsString → List Nat
  | [] => []
  | [u] => [u.toNat]
  | u :: v :: rest =>
    if isHighSurrogate u && isLowSurrogate v then
      (0x10000 + (u.toNat - 0xD800) * 0x400 + (v.toNat - 0xDC00)) :: codePoints rest
    else u.toNat :: codePoints (v :: rest)

def IsScalar (c : Nat) : Prop := c < 0xD800 ∨ (0xE000 ≤ c ∧ c < 0x110000)

instance (c : Nat) : Decidable (IsScalar c) := inferInstanceAs (Decidable (_ ∨ _))

theorem isScalar_toNat (c : Char) : IsScalar c.toNat := by
  have hvalid : c.toNat < 0xD800 ∨ (0xDFFF < c.toNat ∧ c.toNat < 0x110000) := c.valid
  unfold IsScalar
  omega

/-- No surrogate stands alone. -/
def WellFormed (s : JsString) : Prop :=
  ∃ cs : List Nat, (∀ c ∈ cs, IsScalar c) ∧ s = fromCodePoints cs

theorem codePoints_cons (u : UInt16) (rest : JsString) (h : isHighSurrogate u = false) :
    codePoints (u :: rest) = u.toNat :: codePoints rest := by
  cases rest with
  | nil => rfl
  | cons v rest => simp [codePoints, h]

theorem codePoints_utf16 (c : Nat) (hc : IsScalar c) (rest : JsString) :
    codePoints (utf16 c ++ rest) = c :: codePoints rest := by
  unfold IsScalar at hc
  by_cases hb : c < 0x10000
  · have hu : (UInt16.ofNat c).toNat = c := by
      rw [UInt16.toNat_ofNat']
      omega
    have hh : isHighSurrogate (UInt16.ofNat c) = false := by
      simp only [isHighSurrogate, hu, Bool.and_eq_false_iff, decide_eq_false_iff_not]
      omega
    rw [utf16, if_pos hb, List.singleton_append, codePoints_cons _ _ hh, hu]
  · have hu : (UInt16.ofNat (0xD800 + (c - 0x10000) / 0x400)).toNat =
        0xD800 + (c - 0x10000) / 0x400 := by
      rw [UInt16.toNat_ofNat']
      omega
    have hv : (UInt16.ofNat (0xDC00 + (c - 0x10000) % 0x400)).toNat =
        0xDC00 + (c - 0x10000) % 0x400 := by
      rw [UInt16.toNat_ofNat']
      omega
    have hpair : (isHighSurrogate (UInt16.ofNat (0xD800 + (c - 0x10000) / 0x400)) &&
        isLowSurrogate (UInt16.ofNat (0xDC00 + (c - 0x10000) % 0x400))) = true := by
      simp only [isHighSurrogate, isLowSurrogate, hu, hv, Bool.and_eq_true, decide_eq_true_eq]
      omega
    rw [utf16, if_neg hb]
    simp only [List.cons_append, List.nil_append]
    have hc' : 0x10000 + (0xD800 + (c - 0x10000) / 0x400 - 0xD800) * 0x400 +
        (0xDC00 + (c - 0x10000) % 0x400 - 0xDC00) = c := by
      omega
    rw [codePoints, if_pos hpair, hu, hv, hc']

theorem codePoints_fromCodePoints (cs : List Nat) (h : ∀ c ∈ cs, IsScalar c) :
    codePoints (fromCodePoints cs) = cs := by
  induction cs with
  | nil => rfl
  | cons c cs ih =>
    have hcs := ih fun d hd => h d (by simp [hd])
    rw [fromCodePoints, List.flatMap_cons, codePoints_utf16 c (h c (by simp))]
    exact congrArg (c :: ·) hcs

def IsAscii (s : JsString) : Prop := ∀ u ∈ s, u.toNat < 128

instance (s : JsString) : Decidable (IsAscii s) :=
  List.decidableBAll (fun u : UInt16 => u.toNat < 128) s

theorem fromCodePoints_append (cs ds : List Nat) :
    fromCodePoints (cs ++ ds) = fromCodePoints cs ++ fromCodePoints ds := List.flatMap_append

theorem codePoints_ascii (s : JsString) (h : IsAscii s) :
    codePoints s = s.map UInt16.toNat := by
  induction s with
  | nil => rfl
  | cons u s ih =>
    have hu : u.toNat < 128 := h u (by simp)
    have hhigh : isHighSurrogate u = false := by
      simp only [isHighSurrogate, Bool.and_eq_false_iff, decide_eq_false_iff_not]
      omega
    rw [codePoints_cons u s hhigh, ih fun v hv => h v (by simp [hv]), List.map_cons]

theorem wellFormed_ascii (s : JsString) (h : IsAscii s) : WellFormed s := by
  refine ⟨s.map UInt16.toNat, ?_, ?_⟩
  · intro c hc
    obtain ⟨u, hu, rfl⟩ := List.mem_map.mp hc
    exact Or.inl (Nat.lt_trans (h u hu) (by omega))
  · induction s with
    | nil => rfl
    | cons u s ih =>
      have hu : u.toNat < 128 := h u (by simp)
      have hs := ih fun v hv => h v (by simp [hv])
      rw [List.map_cons, fromCodePoints, List.flatMap_cons, utf16, if_pos (by omega),
        UInt16.ofNat_toNat]
      exact congrArg (u :: ·) hs

/-- `\s` and what `trim` removes: the white space and line terminators of the language. -/
def isWhiteSpace (u : UInt16) : Bool :=
  let n := u.toNat
  (9 ≤ n && n ≤ 13) || n == 0x20 || n == 0xA0 || n == 0x1680 || (0x2000 ≤ n && n ≤ 0x200A) ||
    n == 0x2028 || n == 0x2029 || n == 0x202F || n == 0x205F || n == 0x3000 || n == 0xFEFF

def trimStart (s : JsString) : JsString := s.dropWhile isWhiteSpace

def trimEnd (s : JsString) : JsString := (s.reverse.dropWhile isWhiteSpace).reverse

def trim (s : JsString) : JsString := trimEnd (trimStart s)

theorem trimStart_of_no_space (s : JsString) (h : ∀ u ∈ s, isWhiteSpace u = false) :
    trimStart s = s := by
  cases s with
  | nil => rfl
  | cons u s =>
    rw [trimStart, List.dropWhile_cons, h u (by simp)]
    simp

theorem trim_of_no_space (s : JsString) (h : ∀ u ∈ s, isWhiteSpace u = false) : trim s = s := by
  have hrev := trimStart_of_no_space s.reverse fun u hu => h u (by simpa using hu)
  rw [trim, trimStart_of_no_space s h, trimEnd]
  rw [trimStart] at hrev
  rw [hrev, List.reverse_reverse]

theorem dropWhile_unseen {β : Type} (f : JsString → β)
    (hfirst : ∀ u s, isWhiteSpace u = true → f (u :: s) = f s) (s : JsString) :
    f (s.dropWhile isWhiteSpace) = f s := by
  induction s with
  | nil => rfl
  | cons u s ih =>
    rw [List.dropWhile_cons]
    split
    · next hu => rw [ih, hfirst u s hu]
    · rfl

/-- What passes over white space at both ends of a text does not see it trimmed. -/
theorem trim_unseen {β : Type} (f : JsString → β)
    (hfirst : ∀ u s, isWhiteSpace u = true → f (u :: s) = f s)
    (hlast : ∀ u s, isWhiteSpace u = true → f (s ++ [u]) = f s) (s : JsString) :
    f (trim s) = f s := by
  have hend : ∀ t : JsString, f (trimEnd t) = f t := by
    intro t
    have hreverse := dropWhile_unseen (fun s => f s.reverse)
      (fun u s hu => by rw [List.reverse_cons, hlast u s.reverse hu]) t.reverse
    rwa [List.reverse_reverse] at hreverse
  rw [trim, hend, trimStart, dropWhile_unseen f hfirst]

/-- `s.padStart(width, fill)` for a fill of one unit. -/
def padStart (width : Nat) (fill : UInt16) (s : JsString) : JsString :=
  List.replicate (width - s.length) fill ++ s

def startsWith (s p : JsString) : Bool := p.isPrefixOf s

def includes (s p : JsString) : Bool := (firstIndexOf p s).isSome

/-- The pieces of `s.split(sep)` for a separator that is not empty: `skip` units
of the current separator are still to be passed over. -/
def splitFrom (sep : JsString) : Nat → JsString → JsString → List JsString
  | _, piece, [] => [piece.reverse]
  | skip + 1, piece, _ :: rest => splitFrom sep skip piece rest
  | 0, piece, u :: rest =>
    if sep.isPrefixOf (u :: rest) then
      piece.reverse :: splitFrom sep (sep.length - 1) [] rest
    else splitFrom sep 0 (u :: piece) rest

def split (s sep : JsString) : List JsString := splitFrom sep 0 [] s

def join (sep : JsString) (parts : List JsString) : JsString := sep.intercalate parts

/-- `s.split(/\r?\n/)`. -/
def splitLinesFrom : JsString → JsString → List JsString
  | piece, [] => [piece.reverse]
  | piece, 13 :: 10 :: rest => piece.reverse :: splitLinesFrom [] rest
  | piece, u :: rest =>
    if u = 10 then piece.reverse :: splitLinesFrom [] rest else splitLinesFrom (u :: piece) rest

def splitLines (s : JsString) : List JsString := splitLinesFrom [] s

/-- The replacement text of `replace`: `$$`, `$&` and the two quotes after a dollar
stand for a dollar, the match, and the text in front of it and behind it. -/
def expandReplacement (before found after : JsString) : JsString → JsString
  | [] => []
  | [u] => [u]
  | u :: v :: rest =>
    if u = 36 ∧ v = 36 then 36 :: expandReplacement before found after rest
    else if u = 36 ∧ v = 38 then found ++ expandReplacement before found after rest
    else if u = 36 ∧ v = 96 then before ++ expandReplacement before found after rest
    else if u = 36 ∧ v = 39 then after ++ expandReplacement before found after rest
    else u :: expandReplacement before found after (v :: rest)

/-- `s.replace(pat, replacement)` for a string pattern. -/
def replaceFirst (s pat replacement : JsString) : JsString :=
  match firstIndexOf pat s with
  | none => s
  | some i =>
    s.take i ++ expandReplacement (s.take i) pat (s.drop (i + pat.length)) replacement ++
      s.drop (i + pat.length)

def endsWith (s p : JsString) : Bool := p.isSuffixOf s

section parts

variable (s p : JsString) (u : UInt16)

theorem startsWith_iff : startsWith s p = true ↔ p <+: s := List.isPrefixOf_iff_prefix

theorem endsWith_iff : endsWith s p = true ↔ p <:+ s := List.isSuffixOf_iff_suffix

theorem includes_iff : includes s p = true ↔ p <:+: s := by
  rw [includes]
  exact firstIndexOf_isSome_iff p s

theorem includes_unit : includes s [u] = true ↔ u ∈ s := by
  rw [includes_iff, List.singleton_infix_iff]

theorem endsWith_unit : endsWith s [u] = true ↔ u ∈ s.getLast? := by
  rw [endsWith_iff, Option.mem_def, List.getLast?_eq_some_iff]
  exact exists_congr fun front => eq_comm

end parts

theorem splitFrom_skip (p : UInt16) (ps piece s : JsString) (hs : p ∉ s) :
    splitFrom (p :: ps) 0 piece s = [piece.reverse ++ s] := by
  induction s generalizing piece with
  | nil => simp [splitFrom]
  | cons u s ih =>
    have hu : p ≠ u := fun h => hs (by simp [h])
    have hs' : p ∉ s := fun h => hs (by simp [h])
    rw [splitFrom, not_prefix_of_head_ne p u ps s hu, if_neg (by simp), ih _ hs']
    simp

theorem split_of_not_mem (p : UInt16) (ps s : JsString) (hs : p ∉ s) :
    split s (p :: ps) = [s] := by
  rw [split, splitFrom_skip p ps [] s hs]
  simp

theorem split_eq_pieces (s sep : JsString) : split s sep = pieces sep s := by
  suffices h : ∀ skip piece, splitFrom sep skip piece s = piecesFrom sep skip piece s from h 0 []
  induction s with
  | nil => exact fun _ _ => rfl
  | cons u s ih =>
    intro skip piece
    cases skip with
    | succ skip => exact ih skip piece
    | zero => rw [splitFrom, piecesFrom, ih, ih]

section separators

variable (c : UInt16)

theorem splitFrom_sep (piece s : JsString) :
    splitFrom [c] 0 piece (c :: s) = piece.reverse :: splitFrom [c] 0 [] s := by
  simp [splitFrom, List.isPrefixOf]

theorem splitFrom_unit {u : UInt16} (hu : c ≠ u) (piece s : JsString) :
    splitFrom [c] 0 piece (u :: s) = splitFrom [c] 0 (u :: piece) s := by
  simp [splitFrom, List.isPrefixOf, hu]

theorem splitFrom_append (piece s t : JsString) :
    splitFrom [c] 0 piece (s ++ c :: t) = splitFrom [c] 0 piece s ++ splitFrom [c] 0 [] t := by
  induction s generalizing piece with
  | nil => rw [List.nil_append, splitFrom_sep, splitFrom, List.singleton_append]
  | cons u s ih =>
    rw [List.cons_append]
    by_cases hu : c = u
    · subst hu
      rw [splitFrom_sep, splitFrom_sep, ih, List.cons_append]
    · rw [splitFrom_unit c hu, splitFrom_unit c hu, ih]

theorem split_append (s t : JsString) : split (s ++ c :: t) [c] = split s [c] ++ split t [c] :=
  splitFrom_append c [] s t

/-- The parts of a text that is joined at a unit none of them has are found again. -/
theorem split_join (first : JsString) (parts : List JsString)
    (h : ∀ s ∈ first :: parts, c ∉ s) : split (join [c] (first :: parts)) [c] = first :: parts := by
  induction parts generalizing first with
  | nil => simpa [join] using split_of_not_mem c [] first (h first (by simp))
  | cons second parts ih =>
    have hjoin : join [c] (first :: second :: parts) = first ++ c :: join [c] (second :: parts) := by
      simp [join]
    rw [hjoin, split_append, split_of_not_mem c [] first (h first (by simp)),
      ih second fun s hs => h s (by simp [List.mem_cons.mp hs]), List.singleton_append]

theorem not_mem_of_mem_splitFrom (piece s : JsString) (hpiece : c ∉ piece) :
    ∀ t ∈ splitFrom [c] 0 piece s, c ∉ t := by
  induction s generalizing piece with
  | nil => simpa [splitFrom] using hpiece
  | cons u s ih =>
    by_cases hu : c = u
    · subst hu
      rw [splitFrom_sep]
      intro t ht
      rcases List.mem_cons.mp ht with rfl | ht
      · simpa using hpiece
      · exact ih [] (by simp) t ht
    · rw [splitFrom_unit c hu]
      exact ih (u :: piece) (by simp [hu, hpiece])

theorem splitFrom_last (piece s tail : JsString) (htail : c ∉ tail) :
    ∃ front last, splitFrom [c] 0 piece (s ++ tail) = front ++ [last ++ tail] := by
  induction s generalizing piece with
  | nil => exact ⟨[], piece.reverse, by simp [splitFrom_skip c [] piece tail htail]⟩
  | cons u s ih =>
    rw [List.cons_append]
    by_cases hu : c = u
    · subst hu
      obtain ⟨front, last, h⟩ := ih []
      exact ⟨piece.reverse :: front, last, by rw [splitFrom_sep, h, List.cons_append]⟩
    · obtain ⟨front, last, h⟩ := ih (u :: piece)
      exact ⟨front, last, by rw [splitFrom_unit c hu, h]⟩

/-- What follows a text without the unit stays in the last piece. -/
theorem split_last (s tail : JsString) (htail : c ∉ tail) :
    ∃ front last, split (s ++ tail) [c] = front ++ [last ++ tail] ∧ c ∉ last ++ tail := by
  obtain ⟨front, last, h⟩ := splitFrom_last c [] s tail htail
  refine ⟨front, last, h, not_mem_of_mem_splitFrom c [] (s ++ tail) (by simp) _ ?_⟩
  rw [h]
  simp

end separators

section trimmed

theorem head_dropWhile (s : JsString) :
    ∀ u ∈ (s.dropWhile isWhiteSpace).head?, isWhiteSpace u = false := by
  intro u hu
  have hnot := List.head?_dropWhile_not isWhiteSpace s
  rw [Option.mem_def.mp hu] at hnot
  exact hnot

theorem trimEnd_prefix (s : JsString) : trimEnd s <+: s := by
  rw [trimEnd, ← List.reverse_suffix, List.reverse_reverse]
  exact List.dropWhile_suffix _

theorem trim_head (s : JsString) : ∀ u ∈ (trim s).head?, isWhiteSpace u = false := by
  intro u hu
  obtain ⟨rest, hrest⟩ := trimEnd_prefix (trimStart s)
  rw [← trim] at hrest
  apply head_dropWhile s
  rw [← trimStart, ← hrest, List.head?_append, Option.mem_def.mp hu]
  rfl

theorem trimEnd_last (s : JsString) : ∀ u ∈ (trimEnd s).getLast?, isWhiteSpace u = false := by
  intro u hu
  rw [trimEnd, List.getLast?_reverse] at hu
  exact head_dropWhile _ u hu

theorem trim_last (s : JsString) : ∀ u ∈ (trim s).getLast?, isWhiteSpace u = false :=
  trimEnd_last (trimStart s)

/-- A text without white space at its ends is left as it is. -/
theorem trim_of_ends {s : JsString} (hhead : ∀ u ∈ s.head?, isWhiteSpace u = false)
    (hlast : ∀ u ∈ s.getLast?, isWhiteSpace u = false) : trim s = s := by
  have hkept : ∀ t : JsString, (∀ u ∈ t.head?, isWhiteSpace u = false) →
      t.dropWhile isWhiteSpace = t := by
    intro t ht
    cases t with
    | nil => rfl
    | cons u t => rw [List.dropWhile_cons_of_neg (by simp [ht u rfl])]
  have hback : ∀ u ∈ s.reverse.head?, isWhiteSpace u = false := by
    intro u hu
    rw [List.head?_reverse] at hu
    exact hlast u hu
  rw [trim, trimEnd, trimStart, hkept s hhead, hkept s.reverse hback, List.reverse_reverse]

theorem trim_trim (s : JsString) : trim (trim s) = trim s := trim_of_ends (trim_head s) (trim_last s)

end trimmed

end Text

end Solarcido
