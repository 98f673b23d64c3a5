import Mathlib.Data.List.Forall2
import Solarcido.Js.Value
import Solarcido.Lib.Documents

namespace Solarcido.Json

open Text Documents

abbrev JsonToken := Token JsString JsString

/-- A JSON text as it is written: the words of its atoms, its strings without their escapes. -/
abbrev Tree := Doc JsString JsString

def isBlank (u : UInt16) : Bool := u == 9 || u == 10 || u == 13 || u == 32

def markOf (u : UInt16) : Option JsonToken :=
  if u = 91 then some .openArr
  else if u = 93 then some .closeArr
  else if u = 123 then some .openObj
  else if u = 125 then some .closeObj
  else if u = 44 then some .comma
  else if u = 58 then some .colon
  else none

def escapedUnit (u : UInt16) : Option UInt16 :=
  if u = 34 ∨ u = 92 ∨ u = 47 then some u
  else if u = 98 then some 8
  else if u = 102 then some 12
  else if u = 110 then some 10
  else if u = 114 then some 13
  else if u = 116 then some 9
  else none

/-- Where the scanner is: in a word, in a string, behind a backslash, or in the digits of `\uXXXX`.
What it has read there is kept last first. -/
inductive ScanState where
  | word (w : JsString)
  | text (s : JsString)
  | escaped (s : JsString)
  | hex (s : JsString) (left value : Nat)

/-- The token of a word that ends. -/
def wordToken (w : JsString) : List JsonToken := if w.isEmpty then [] else [.atom w.reverse]

/-- The tokens of a JSON text. A word is what stands between blanks, marks and strings. -/
def scan : ScanState → JsString → Option (List JsonToken)
  | .word w, [] => some (wordToken w)
  | _, [] => none
  | .word w, u :: rest =>
    if isBlank u then (scan (.word []) rest).map (wordToken w ++ ·)
    else if u = 34 then (scan (.text []) rest).map (wordToken w ++ ·)
    else
      match markOf u with
      | some mark => (scan (.word []) rest).map (wordToken w ++ mark :: ·)
      | none => scan (.word (u :: w)) rest
  | .text s, u :: rest =>
    if u = 34 then (scan (.word []) rest).map (.text s.reverse :: ·)
    else if u = 92 then scan (.escaped s) rest
    else if u.toNat < 32 then none
    else scan (.text (u :: s)) rest
  | .escaped s, u :: rest =>
    match escapedUnit u with
    | some v => scan (.text (v :: s)) rest
    | none => if u = 117 then scan (.hex s 4 0) rest else none
  | .hex s left value, u :: rest =>
    match Number.hexValue u with
    | none => none
    | some digit =>
      if left ≤ 1 then scan (.text (UInt16.ofNat (16 * value + digit) :: s)) rest
      else scan (.hex s (left - 1) (16 * value + digit)) rest

section strings

variable (s rest : JsString) (u : UInt16)

theorem hexValue_hexUnit {n : Nat} (h : n < 16) : Number.hexValue (hexUnit n) = some n := by
  have hall : ∀ n : Fin 16, Number.hexValue (hexUnit n) = some n.val := by decide
  exact hall ⟨n, h⟩

theorem scan_text_plain (h34 : u ≠ 34) (h92 : u ≠ 92) (h32 : ¬ u.toNat < 32) :
    scan (.text s) (u :: rest) = scan (.text (u :: s)) rest := by
  rw [scan, if_neg h34, if_neg h92, if_neg h32]

theorem scan_hex {left value n : Nat} (hn : n < 16) (hleft : ¬ left ≤ 1) :
    scan (.hex s left value) (hexUnit n :: rest) = scan (.hex s (left - 1) (16 * value + n)) rest := by
  rw [scan, hexValue_hexUnit hn]
  exact if_neg hleft

theorem scan_hex_last {value n : Nat} (hn : n < 16) :
    scan (.hex s 1 value) (hexUnit n :: rest) =
      scan (.text (UInt16.ofNat (16 * value + n) :: s)) rest := by
  rw [scan, hexValue_hexUnit hn]
  exact if_pos (le_refl 1)

theorem scan_unicodeEscape :
    scan (.text s) (unicodeEscape u ++ rest) = scan (.text (u :: s)) rest := by
  have hu : u.toNat < 65536 := u.toNat_lt
  have hfour : 16 * (16 * (16 * (16 * 0 + u.toNat / 4096 % 16) + u.toNat / 256 % 16) +
      u.toNat / 16 % 16) + u.toNat % 16 = u.toNat := by omega
  have hescape : scan (.text s) (unicodeEscape u ++ rest) =
      scan (.hex s 4 0) (hexUnit (u.toNat / 4096 % 16) :: hexUnit (u.toNat / 256 % 16) ::
        hexUnit (u.toNat / 16 % 16) :: hexUnit (u.toNat % 16) :: rest) := by
    simp [unicodeEscape, scan, escapedUnit]
  rw [hescape, scan_hex s _ (by omega) (by decide), scan_hex s _ (by omega) (by decide),
    scan_hex s _ (by omega) (by decide), scan_hex_last s _ (by omega), hfour, UInt16.ofNat_toNat]

/-- A unit behind a backslash. -/
theorem scan_escaped {u v w : UInt16} (hu : u = w) (h : escapedUnit v = some w) :
    scan (.text s) (92 :: v :: rest) = scan (.text (u :: s)) rest := by
  have h92 : (92 : UInt16) ≠ 34 := by decide
  rw [scan, if_neg h92, if_pos rfl, scan, h, hu]

theorem scan_escapeUnit : scan (.text s) (escapeUnit u ++ rest) = scan (.text (u :: s)) rest := by
  unfold escapeUnit
  split_ifs with h34 h92 h8 h9 h10 h12 h13 hcontrol hsurrogate
  · exact scan_escaped s rest (eq_of_beq h34) rfl
  · exact scan_escaped s rest (eq_of_beq h92) rfl
  · exact scan_escaped s rest (eq_of_beq h8) rfl
  · exact scan_escaped s rest (eq_of_beq h9) rfl
  · exact scan_escaped s rest (eq_of_beq h10) rfl
  · exact scan_escaped s rest (eq_of_beq h12) rfl
  · exact scan_escaped s rest (eq_of_beq h13) rfl
  · exact scan_unicodeEscape s rest u
  · exact scan_unicodeEscape s rest u
  · exact scan_text_plain s rest u (by simpa using h34) (by simpa using h92) hcontrol

theorem scan_surrogate (h : isHighSurrogate u = true ∨ isLowSurrogate u = true) :
    scan (.text s) (u :: rest) = scan (.text (u :: s)) rest := by
  have hbig : 0xD800 ≤ u.toNat := by
    simp only [isHighSurrogate, isLowSurrogate, Bool.and_eq_true, decide_eq_true_eq] at h
    omega
  refine scan_text_plain s rest u ?_ ?_ (by omega)
  · rintro rfl
    exact absurd hbig (by decide)
  · rintro rfl
    exact absurd hbig (by decide)

/-- What `escape` writes is read as the text it has been given. -/
theorem scan_escape (t : JsString) :
    scan (.text s) (escape t ++ 34 :: rest) =
      (scan (.word []) rest).map (.text (s.reverse ++ t) :: ·) := by
  fun_induction escape t generalizing s with
  | case1 => simp [scan]
  | case2 u =>
    rw [scan_escapeUnit]
    simp [scan]
  | case3 u v t h ih =>
    rw [Bool.and_eq_true] at h
    rw [List.cons_append, List.cons_append, scan_surrogate s _ u (.inl h.1),
      scan_surrogate _ _ v (.inr h.2), ih]
    simp
  | case4 u v t h ih =>
    rw [List.append_assoc, scan_escapeUnit, ih]
    simp

end strings

/-- A text after which a word is over. -/
def Ends (rest : JsString) : Prop := ∀ u ∈ rest.head?, isBlank u = true ∨ (markOf u).isSome = true

/-- The text is scanned as the tokens, whatever follows. -/
def Scans (s : JsString) (tokens : List JsonToken) : Prop :=
  ∀ rest, Ends rest →
    scan (.word []) (s ++ rest) = (scan (.word []) rest).map (tokens ++ ·)

/-- A word can be told from what stands around it. -/
def IsWord (w : JsString) : Prop :=
  w ≠ [] ∧ ∀ u ∈ w, isBlank u = false ∧ u ≠ 34 ∧ markOf u = none

instance (w : JsString) : Decidable (IsWord w) :=
  have := List.decidableBAll (fun u => isBlank u = false ∧ u ≠ 34 ∧ (markOf u) = none) w
  inferInstanceAs (Decidable (_ ∧ _))

section scanning

variable {s t rest : JsString} {first last : List JsonToken} {u : UInt16} {mark : JsonToken}

theorem ends_mark (h : markOf u = some mark) : Ends (u :: rest) := by
  intro v hv
  obtain rfl : u = v := by simpa using hv
  exact .inr (by rw [h]; rfl)

theorem ends_blank (h : isBlank u = true) : Ends (u :: rest) := by
  intro v hv
  obtain rfl : u = v := by simpa using hv
  exact .inl h

theorem scan_blank (h : isBlank u = true) :
    scan (.word []) (u :: rest) = scan (.word []) rest := by
  rw [scan, if_pos h]
  exact Option.map_id'

theorem mark_not_blank (h : markOf u = some mark) : isBlank u = false ∧ u ≠ 34 := by
  constructor
  · refine Bool.eq_false_iff.mpr fun hblank => ?_
    simp only [isBlank, Bool.or_eq_true, beq_iff_eq] at hblank
    rcases hblank with ((rfl | rfl) | rfl) | rfl <;> exact absurd h (by simp [markOf])
  · rintro rfl
    exact absurd h (by simp [markOf])

theorem scan_mark (h : markOf u = some mark) :
    scan (.word []) (u :: rest) = (scan (.word []) rest).map (mark :: ·) := by
  have hplain := mark_not_blank h
  rw [scan, hplain.1, if_neg (by decide), if_neg hplain.2, h]
  rfl

theorem scans_nil : Scans [] [] := fun _ _ => Option.map_id'.symm

theorem Scans.append (hs : Scans s first) (ht : Scans t last)
    (hends : ∀ rest, Ends rest → Ends (t ++ rest)) : Scans (s ++ t) (first ++ last) := by
  intro rest hrest
  rw [List.append_assoc, hs _ (hends rest hrest), ht rest hrest, Option.map_map]
  exact congrArg (Option.map · _) (funext fun tokens => (List.append_assoc first last tokens).symm)

theorem Scans.afterMark (h : markOf u = some mark) (hs : Scans s first) :
    Scans (u :: s) (mark :: first) := by
  intro rest hrest
  rw [List.cons_append, scan_mark h, hs rest hrest, Option.map_map]
  rfl

theorem Scans.afterBlank (h : isBlank u = true) (hs : Scans s first) : Scans (u :: s) first := by
  intro rest hrest
  rw [List.cons_append, scan_blank h, hs rest hrest]

theorem scan_ends (w : JsString) (h : Ends rest) :
    scan (.word w) rest = (scan (.word []) rest).map (wordToken w ++ ·) := by
  cases rest with
  | nil => simp [scan, wordToken]
  | cons u rest =>
    rcases h u rfl with hblank | hmark
    · rw [scan_blank hblank, scan, if_pos hblank]
    · obtain ⟨mark, hmark⟩ := Option.isSome_iff_exists.mp hmark
      have hplain := mark_not_blank hmark
      rw [scan_mark hmark, scan, hplain.1, if_neg (by decide), if_neg hplain.2, hmark,
        Option.map_map]
      rfl

theorem scan_word (w : JsString) (h : ∀ u ∈ s, isBlank u = false ∧ u ≠ 34 ∧ markOf u = none) :
    scan (.word w) (s ++ rest) = scan (.word (s.reverse ++ w)) rest := by
  induction s generalizing w with
  | nil => rfl
  | cons u s ih =>
    obtain ⟨hblank, hquote, hmark⟩ := h u List.mem_cons_self
    rw [List.cons_append, scan, hblank, if_neg (by decide), if_neg hquote, hmark]
    refine (ih (u :: w) fun v hv => h v (List.mem_cons_of_mem u hv)).trans ?_
    rw [List.reverse_cons, List.append_assoc, List.singleton_append]

theorem scans_word (h : IsWord s) : Scans s [.atom s] := by
  intro rest hrest
  rw [scan_word [] h.2, scan_ends _ hrest]
  simp [wordToken, h.1]

theorem scans_quote (s : JsString) : Scans (quote s) [.text s] := by
  intro rest _
  have hopen : scan (.word []) (34 :: (escape s ++ 34 :: rest)) =
      scan (.text []) (escape s ++ 34 :: rest) := Option.map_id'
  rw [quote, List.cons_append, List.cons_append, List.append_assoc, List.singleton_append, hopen,
    scan_escape]
  rfl

theorem Scans.between {v : UInt16} {close : JsonToken} (hu : markOf u = some mark)
    (hclose : markOf v = some close) (hs : Scans s first) :
    Scans (u :: (s ++ [v])) (mark :: (first ++ [close])) :=
  Scans.afterMark hu (hs.append (Scans.afterMark hclose scans_nil) fun _ _ => ends_mark hclose)

theorem Scans.afterBlanks {blanks : JsString} (hblanks : ∀ u ∈ blanks, isBlank u = true)
    (hs : Scans s first) : Scans (blanks ++ s) first := by
  induction blanks with
  | nil => exact hs
  | cons u blanks ih =>
    exact Scans.afterBlank (hblanks u List.mem_cons_self)
      (ih fun v hv => hblanks v (List.mem_cons_of_mem u hv))

/-- Parts that are separated by commas and blanks. -/
theorem scans_join {blanks : JsString} (hblanks : ∀ u ∈ blanks, isBlank u = true)
    {parts : List JsString} {tokens : List (List JsonToken)}
    (h : List.Forall₂ Scans parts tokens) :
    Scans (join (44 :: blanks) parts) ([.comma].intercalate tokens) := by
  have hcomma : markOf 44 = some .comma := rfl
  induction h with
  | nil => exact scans_nil
  | @cons s first parts tokens hs hrest ih =>
    cases hrest with
    | nil => simpa [join, List.intercalate] using hs
    | cons _ _ =>
      have hjoin := hs.append (Scans.afterMark hcomma (Scans.afterBlanks hblanks ih))
        fun _ _ => ends_mark hcomma
      simpa [join, List.intercalate] using hjoin

theorem no_blanks : ∀ u ∈ ([] : JsString), isBlank u = true := fun _ hu => nomatch hu

theorem blank_spaces (n : Nat) : ∀ u ∈ spaces n, isBlank u = true := by
  intro u hu
  rw [List.eq_of_mem_replicate hu]
  rfl

theorem js_newline : js "\n" = [10] := by decide

theorem blank_newline : ∀ u ∈ ([10] : JsString), isBlank u = true :=
  List.forall_mem_singleton.mpr rfl

theorem scans_block {v : UInt16} {close : JsonToken} (hu : markOf u = some mark)
    (hclose : markOf v = some close) (indent : Nat) {parts : List JsString}
    {tokens : List (List JsonToken)} (h : List.Forall₂ Scans parts tokens) :
    Scans (block [u] [v] indent parts) (mark :: ([.comma].intercalate tokens ++ [close])) := by
  cases h with
  | nil => exact Scans.between hu hclose scans_nil
  | @cons s first parts tokens hs hrest =>
    have hindented : List.Forall₂ Scans ((s :: parts).map (spaces (indent + 2) ++ ·))
        (first :: tokens) := by
      rw [List.forall₂_map_left_iff]
      exact (List.Forall₂.cons hs hrest).imp fun _ _ h =>
        Scans.afterBlanks (blank_spaces (indent + 2)) h
    have hend : Scans (10 :: (spaces indent ++ [v])) [close] :=
      Scans.afterBlank rfl (Scans.afterBlanks (blank_spaces indent)
        (Scans.afterMark hclose scans_nil))
    have hbody := (scans_join blank_newline hindented).append hend fun _ _ => ends_blank rfl
    have hall := Scans.afterMark hu (Scans.afterBlank (u := 10) rfl hbody)
    have htext : block [u] [v] indent (s :: parts) =
        u :: 10 :: (join (44 :: [10]) ((s :: parts).map (spaces (indent + 2) ++ ·)) ++
          10 :: (spaces indent ++ [v])) := by
      have hcomma : js ",\n" = 44 :: [10] := by decide
      simp [block, hcomma, js_newline]
    rw [htext]
    exact hall

end scanning

end Solarcido.Json
