import Solarcido.Js.Text
import Solarcido.Js.Utf8

namespace Solarcido.Pdf

open Text Search

section operators

/-- `stream.toString("latin1")`. -/
def latin1Text (stream : Bytes) : JsString := stream.map fun b => UInt16.ofNat b.toNat

/-- `text.split(/\r\n|\r|\n/)`. -/
def splitRowsFrom : JsString → JsString → List JsString
  | piece, [] => [piece.reverse]
  | piece, 13 :: 10 :: rest => piece.reverse :: splitRowsFrom [] rest
  | piece, u :: rest =>
    if u = 13 ∨ u = 10 then piece.reverse :: splitRowsFrom [] rest
    else splitRowsFrom (u :: piece) rest

def splitRows (text : JsString) : List JsString := splitRowsFrom [] text

def isOctal (u : UInt16) : Bool := 48 ≤ u && u ≤ 55

/-- What a backslash in front of the unit stands for, an octal digit apart. -/
def escaped (e : UInt16) : UInt16 :=
  if e = 110 then 10 else if e = 114 then 13 else if e = 116 then 9 else e

/-- The loop of `extractParenthesizedString`, at some depth. -/
def parenthesizedFrom : Int → JsString → Option JsString
  | _, [] => none
  | depth, c :: rest =>
    if c = 40 then
      let found := parenthesizedFrom (depth + 1) rest
      if 0 < depth then found.map (40 :: ·) else found
    else if c = 41 then
      if depth - 1 = 0 then some [] else (parenthesizedFrom (depth - 1) rest).map (41 :: ·)
    else if c = 92 then
      match rest with
      | [] => none
      | e :: rest =>
        if isOctal e then
          match rest with
          | [] => (parenthesizedFrom depth []).map ((e - 48) :: ·)
          | f :: rest =>
            if isOctal f then
              let octal := (e - 48) * 8 + (f - 48)
              match rest with
              | [] => (parenthesizedFrom depth []).map (octal :: ·)
              | g :: rest =>
                if isOctal g then
                  (parenthesizedFrom depth rest).map ((octal * 8 + (g - 48)) :: ·)
                else (parenthesizedFrom depth (g :: rest)).map (octal :: ·)
            else (parenthesizedFrom depth (f :: rest)).map ((e - 48) :: ·)
        else (parenthesizedFrom depth rest).map (escaped e :: ·)
    else (parenthesizedFrom depth rest).map (c :: ·)

def extractParenthesizedString (input : JsString) : Option JsString :=
  parenthesizedFrom 0 (input.dropWhile (· ≠ 40))

/-- The loops of `extractTjArray`: at depth zero it looks for a string, and above it for the end
of the one it has read, by the parentheses alone. -/
def tjFrom : Nat → JsString → JsString
  | _, [] => []
  | 0, c :: rest =>
    if c = 40 then
      match extractParenthesizedString (c :: rest) with
      | some s => s ++ tjFrom 1 rest
      | none => tjFrom 0 rest
    else tjFrom 0 rest
  | depth + 1, c :: rest =>
    if c = 40 then tjFrom (depth + 2) rest
    else if c = 41 then tjFrom depth rest
    else tjFrom (depth + 1) rest

def lastIndexOf (u : UInt16) (s : JsString) : Option Nat :=
  (firstIndexOf [u] s.reverse).map fun i => s.length - 1 - i

def extractTjArray (input : JsString) : JsString :=
  match firstIndexOf [91] input, lastIndexOf 93 input with
  | some bracketStart, some bracketEnd =>
    tjFrom 0 ((input.take bracketEnd).drop (bracketStart + 1))
  | _, _ => []

def isNewlineShowOperator (trimmed : JsString) : Bool :=
  (endsWith trimmed (js "'") && 1 < trimmed.length) ||
    (endsWith trimmed (js "\"") && includes trimmed (js "("))

/-- The text behind the result, with a space between them on one line. -/
def appendShown (result shown : JsString) : JsString :=
  if !result.isEmpty && !endsWith result (js "\n") then result ++ js " " ++ shown
  else result ++ shown

/-- What a line of a text block adds to the result. -/
def showLine (result trimmed : JsString) : JsString :=
  if endsWith trimmed (js "Tj") then
    match extractParenthesizedString trimmed with
    | some s => appendShown result s
    | none => result
  else if endsWith trimmed (js "TJ") then
    let extracted := extractTjArray trimmed
    if extracted.isEmpty then result else appendShown result extracted
  else if isNewlineShowOperator trimmed then
    match extractParenthesizedString trimmed with
    | some s => (if result.isEmpty then result else result ++ js "\n") ++ s
    | none => result
  else result

structure TextState where
  result : JsString
  inBt : Bool

def readRow (st : TextState) (rawLine : JsString) : TextState :=
  let trimmed := trim rawLine
  if trimmed = js "BT" then { st with inBt := true }
  else if trimmed = js "ET" then { st with inBt := false }
  else if st.inBt then { st with result := showLine st.result trimmed }
  else st

def extractBtEtText (stream : Bytes) : JsString :=
  ((splitRows (latin1Text stream)).foldl readRow ⟨[], false⟩).result

end operators

section streams

def latin1Bytes (s : JsString) : Bytes := s.map UInt16.toUInt8

/-- What `node:zlib` answers, with `none` where it throws. -/
structure Zlib where
  inflateSync : Bytes → Option Bytes
  inflateRawSync : Bytes → Option Bytes

def inflate (zlib : Zlib) (data : Bytes) : Option Bytes :=
  match zlib.inflateSync data with
  | some inflated => some inflated
  | none => zlib.inflateRawSync data

def skipStreamEol (buf : Bytes) (pos : Nat) : Nat :=
  if buf[pos]? = some 0x0d then if buf[pos + 1]? = some 0x0a then pos + 2 else pos + 1
  else if buf[pos]? = some 0x0a then pos + 1
  else pos

/-- `buf.indexOf(text, offset, "latin1")`. -/
def bufferIndexOf (buf : Bytes) (text : JsString) (offset : Nat) : Option Nat :=
  (firstIndexOf (latin1Bytes text) (buf.drop offset)).map (offset + ·)

structure ScanState where
  offset : Nat
  allText : JsString

def appendText (allText text : JsString) : JsString :=
  if text.isEmpty then allText
  else (if allText.isEmpty then allText else allText ++ js "\n") ++ text

/-- A turn of the loop of `extractTextFromBytes`, with `none` where the loop ends. -/
def scanStep (zlib : Zlib) (buf : Bytes) (st : ScanState) : Option ScanState :=
  if st.offset < buf.length then
    match bufferIndexOf buf (js "stream") st.offset with
    | none => none
    | some streamStart =>
      let contentStart := skipStreamEol buf (streamStart + (js "stream").length)
      match bufferIndexOf buf (js "endstream") contentStart with
      | none => none
      | some contentEnd =>
        let dictWindow := (buf.take streamStart).drop (streamStart - 512)
        let isFlate := (bufferIndexOf dictWindow (js "FlateDecode") 0).isSome
        let raw := (buf.take contentEnd).drop contentStart
        let next := contentEnd + (js "endstream").length
        match if isFlate then inflate zlib raw else some raw with
        | none => some { st with offset := next }
        | some streamBytes => some ⟨next, appendText st.allText (extractBtEtText streamBytes)⟩
  else none

def scanFrom (zlib : Zlib) (buf : Bytes) : Nat → ScanState → Option JsString
  | 0, _ => none
  | fuel + 1, st =>
    match scanStep zlib buf st with
    | none => some st.allText
    | some st => scanFrom zlib buf fuel st

def extractTextFromBytes (zlib : Zlib) (data : Bytes) (fuel : Nat) : Option JsString :=
  scanFrom zlib data fuel ⟨0, []⟩

end streams

section literals

def escapeUnit (u : UInt16) : JsString := if u = 92 ∨ u = 40 ∨ u = 41 then [92, u] else [u]

def escape (w : JsString) : JsString := w.flatMap escapeUnit

/-- A PDF literal string, with backslash and both parentheses escaped. -/
def literal (w : JsString) : JsString := 40 :: (escape w ++ [41])

def Printable (w : JsString) : Prop := ∀ u ∈ w, (32 ≤ u ∧ u ≤ 126) ∨ (160 ≤ u ∧ u ≤ 255)

/-- Numbers and spaces. -/
def Spacing (gap : JsString) : Prop :=
  ∀ u ∈ gap, (48 ≤ u ∧ u ≤ 57) ∨ u = 32 ∨ u = 43 ∨ u = 45 ∨ u = 46

/-- Strings, each with the numbers and spaces behind it. -/
def arrayItems (items : List (JsString × JsString)) : JsString :=
  items.flatMap fun item => literal item.1 ++ item.2

def arrayLine (gap : JsString) (items : List (JsString × JsString)) : JsString :=
  91 :: (gap ++ arrayItems items ++ js "] TJ")

def stringLine (w : JsString) : JsString := literal w ++ js " Tj"

def lineEnds : List JsString := [[10], [13], [13, 10]]

def textBlock (eol line : JsString) : JsString := js "BT" ++ eol ++ line ++ eol ++ js "ET"

/-- What lies behind the `)` that closes the last of `depth` open parentheses. -/
def behindClose : Nat → JsString → Option JsString
  | _, [] => none
  | depth, u :: w =>
    if u = 40 then behindClose (depth + 1) w
    else if u = 41 then if depth = 1 then some w else behindClose (depth - 1) w
    else behindClose depth w

/-- The number of open parentheses behind a text, with `depth` of them before it. -/
def openBehind : Nat → JsString → Nat
  | depth, [] => depth
  | depth, u :: w =>
    if u = 40 then openBehind (depth + 1) w
    else if u = 41 then openBehind (depth - 1) w
    else openBehind depth w

/-- Counted without regard to escapes, the parentheses of the string leave the one around it
open, or close it where nothing behind can be taken for another string. -/
def ReadOnce (w : JsString) : Prop :=
  match behindClose 1 w with
  | none => openBehind 1 w = 1
  | some behind => 40 ∉ behind.dropLast

instance (w : JsString) : Decidable (ReadOnce w) := by
  unfold ReadOnce
  split <;> infer_instance

end literals

section scans

theorem escape_cons (u : UInt16) (w : JsString) : escape (u :: w) = escapeUnit u ++ escape w :=
  rfl

theorem escape_append (v w : JsString) : escape (v ++ w) = escape v ++ escape w :=
  List.flatMap_append

theorem literal_append (w t : JsString) : literal w ++ t = 40 :: (escape w ++ 41 :: t) := by
  simp [literal]

theorem mem_escape {u : UInt16} (hu : u ≠ 92) (w : JsString) : u ∈ escape w ↔ u ∈ w := by
  rw [escape, List.mem_flatMap]
  constructor
  · rintro ⟨c, hc, hin⟩
    rw [escapeUnit] at hin
    split at hin
    · simp only [List.mem_cons, hu, List.not_mem_nil, or_false, false_or] at hin
      rwa [hin]
    · rw [List.mem_singleton.mp hin]
      exact hc
  · intro hu'
    refine ⟨u, hu', ?_⟩
    rw [escapeUnit]
    split <;> simp

/-- The string reader takes the escapes away again, and no escaped parenthesis counts. -/
theorem parenthesizedFrom_escape (depth : Int) (w t : JsString) :
    parenthesizedFrom depth (escape w ++ t) = (parenthesizedFrom depth t).map (w ++ ·) := by
  induction w with
  | nil => simp [escape]
  | cons u w ih =>
    have hmap : ((parenthesizedFrom depth t).map (w ++ ·)).map (u :: ·) =
        (parenthesizedFrom depth t).map (u :: w ++ ·) := by
      rw [Option.map_map]
      rfl
    rw [escape_cons, List.append_assoc, escapeUnit]
    by_cases hspecial : u = 92 ∨ u = 40 ∨ u = 41
    · have hplain : isOctal u = false := by
        rcases hspecial with rfl | rfl | rfl <;> rfl
      have hself : escaped u = u := by
        rcases hspecial with rfl | rfl | rfl <;> rfl
      rw [if_pos hspecial]
      simp only [List.cons_append, List.nil_append]
      rw [parenthesizedFrom.eq_def]
      simp only [show ¬ (92 : UInt16) = 40 by decide, show ¬ (92 : UInt16) = 41 by decide,
        if_false, if_true, hplain, Bool.false_eq_true, hself, ih, hmap, List.cons_append]
    · push Not at hspecial
      rw [if_neg (by simp [hspecial])]
      simp only [List.cons_append, List.nil_append]
      rw [parenthesizedFrom.eq_def]
      simp only [hspecial, if_false, ih, hmap, List.cons_append]

theorem extractParenthesizedString_literal (w t : JsString) :
    extractParenthesizedString (literal w ++ t) = some w := by
  have hclose : parenthesizedFrom 1 (41 :: t) = some [] := by
    rw [parenthesizedFrom.eq_def]
    simp
  rw [extractParenthesizedString, literal_append, List.dropWhile_cons_of_neg (by simp),
    parenthesizedFrom.eq_def]
  simp [parenthesizedFrom_escape, hclose]

theorem tjFrom_skip {s : JsString} (hs : 40 ∉ s) (t : JsString) :
    tjFrom 0 (s ++ t) = tjFrom 0 t := by
  induction s with
  | nil => rfl
  | cons c s ih =>
    have hc : c ≠ 40 := fun h => hs (by simp [h])
    rw [List.cons_append, tjFrom, if_neg hc, ih (fun h => hs (by simp [h]))]

/-- A string is taken whole, and then passed over by its parentheses. -/
theorem tjFrom_literal (w t : JsString) :
    tjFrom 0 (literal w ++ t) = w ++ tjFrom 1 (escape w ++ 41 :: t) := by
  have hread := extractParenthesizedString_literal w t
  rw [literal_append] at hread ⊢
  rw [tjFrom, if_pos rfl, hread]

theorem tjFrom_escapeUnit (depth : Nat) (u : UInt16) (t : JsString) :
    tjFrom (depth + 1) (escapeUnit u ++ t) = tjFrom (depth + 1) (u :: t) := by
  rw [escapeUnit]
  split
  · simp [tjFrom]
  · rfl

theorem tjFrom_unclosed {depth : Nat} {w : JsString} (hopen : behindClose (depth + 1) w = none)
    (t : JsString) :
    0 < openBehind (depth + 1) w ∧
      tjFrom (depth + 1) (escape w ++ t) = tjFrom (openBehind (depth + 1) w) t := by
  induction w generalizing depth with
  | nil => exact ⟨Nat.succ_pos depth, rfl⟩
  | cons u w ih =>
    rw [escape_cons, List.append_assoc, tjFrom_escapeUnit, tjFrom, openBehind]
    rw [behindClose] at hopen
    by_cases hup : u = 40
    · rw [if_pos hup] at hopen
      simp only [if_pos hup]
      exact ih hopen
    · rw [if_neg hup] at hopen
      simp only [if_neg hup]
      by_cases hdown : u = 41
      · rw [if_pos hdown] at hopen
        simp only [if_pos hdown]
        cases depth with
        | zero => cases hopen
        | succ depth => exact ih hopen
      · rw [if_neg hdown] at hopen
        simp only [if_neg hdown]
        exact ih hopen

theorem tjFrom_closed {depth : Nat} {w v : JsString} (hclose : behindClose (depth + 1) w = some v)
    (t : JsString) : tjFrom (depth + 1) (escape w ++ t) = tjFrom 0 (escape v ++ t) := by
  induction w generalizing depth with
  | nil => cases hclose
  | cons u w ih =>
    rw [escape_cons, List.append_assoc, tjFrom_escapeUnit, tjFrom]
    rw [behindClose] at hclose
    by_cases hup : u = 40
    · rw [if_pos hup] at hclose ⊢
      exact ih hclose
    · rw [if_neg hup] at hclose ⊢
      by_cases hdown : u = 41
      · rw [if_pos hdown] at hclose ⊢
        cases depth with
        | zero =>
          obtain rfl := Option.some.inj hclose
          rfl
        | succ depth => exact ih hclose
      · rw [if_neg hdown] at hclose ⊢
        exact ih hclose

/-- Behind the close found too early, the next `(` is taken for the start of a string. -/
theorem tjFrom_behind {v₁ : JsString} (hv : 40 ∉ v₁) (v₂ t : JsString) :
    tjFrom 0 (escape (v₁ ++ 40 :: v₂) ++ 41 :: t) = tjFrom 0 (literal v₂ ++ t) := by
  have hskip : 40 ∉ escape v₁ ++ [92] := by
    rw [List.mem_append, mem_escape (by decide)]
    simpa using hv
  have hescaped : escape (v₁ ++ 40 :: v₂) ++ 41 :: t =
      (escape v₁ ++ [92]) ++ (literal v₂ ++ t) := by
    rw [escape_append, escape_cons, literal_append]
    simp [escapeUnit]
  rw [hescaped, tjFrom_skip hskip]

theorem tjFrom_readOnce {w : JsString} (hw : ReadOnce w) (t : JsString) :
    tjFrom 0 (literal w ++ t) = w ++ tjFrom 0 t := by
  rw [tjFrom_literal]
  congr 1
  rw [ReadOnce] at hw
  split at hw
  · next hopen =>
    rw [(tjFrom_unclosed hopen _).2, hw]
    rfl
  · next v hclose =>
    rw [tjFrom_closed hclose]
    by_cases hv : 40 ∈ v
    · have hne : v ≠ [] := List.ne_nil_of_mem hv
      have hsplit : v.dropLast ++ [v.getLast hne] = v := List.dropLast_append_getLast hne
      have hlast : v.getLast hne = 40 := by
        rw [← hsplit, List.mem_append, List.mem_singleton] at hv
        exact (hv.resolve_left hw).symm
      -- the string that seems to start there is empty
      rw [← hsplit, hlast, tjFrom_behind hw, tjFrom_literal]
      rfl
    · have hskip : 40 ∉ escape v ++ [41] := by
        rw [List.mem_append, mem_escape (by decide)]
        simpa using hv
      rw [List.append_cons, tjFrom_skip hskip]

theorem behindClose_deeper {depth : Nat} (extra : Nat) {w : JsString}
    (hopen : behindClose (depth + 1) w = none) : behindClose (depth + 1 + extra) w = none := by
  induction w generalizing depth with
  | nil => rfl
  | cons u w ih =>
    rw [behindClose] at hopen ⊢
    by_cases hup : u = 40
    · rw [if_pos hup] at hopen ⊢
      rw [Nat.add_right_comm]
      exact ih hopen
    · rw [if_neg hup] at hopen ⊢
      by_cases hdown : u = 41
      · rw [if_pos hdown] at hopen ⊢
        cases depth with
        | zero => cases hopen
        | succ depth =>
          rw [if_neg (by omega)] at hopen ⊢
          rw [show depth + 1 + 1 + extra - 1 = depth + 1 + extra by omega]
          exact ih hopen
      · rw [if_neg hdown] at hopen ⊢
        exact ih hopen

@[simp] theorem tjFrom_nil (depth : Nat) : tjFrom depth [] = [] := by
  cases depth <;> rfl

/-- Inside a string that was left too late, the next one is passed over. -/
theorem tjFrom_lost (depth : Nat) {w : JsString} (hopen : behindClose (0 + 1) w = none) :
    tjFrom (depth + 1) (literal w) = [] := by
  have hdeeper : behindClose (depth + 1 + 1) w = none := by
    have := behindClose_deeper (depth + 1) hopen
    rwa [show 0 + 1 + (depth + 1) = depth + 1 + 1 by omega] at this
  obtain ⟨hinside, hpast⟩ := tjFrom_unclosed hdeeper [41]
  obtain ⟨inside, hinside⟩ := Nat.exists_eq_succ_of_ne_zero (Nat.ne_of_gt hinside)
  rw [literal, tjFrom, if_pos rfl, hpast, hinside, tjFrom, if_neg (by decide), if_pos rfl,
    tjFrom_nil]

/-- Strings that come out of their arrays are each read once: a string that is left too late
loses the next one, and one that is left too early is read on. -/
theorem readOnce_of_arrays {w : JsString} (halone : tjFrom 0 (literal w ++ []) = w)
    (htwice : tjFrom 0 (literal w ++ literal w) = w ++ w) : ReadOnce w := by
  rw [ReadOnce]
  split
  · next hopen =>
    obtain ⟨hpos, hread⟩ : 0 < openBehind 1 w ∧ _ := tjFrom_unclosed hopen (41 :: literal w)
    rw [tjFrom_literal, hread] at htwice
    by_contra hdeep
    obtain ⟨extra, hextra⟩ : ∃ extra, openBehind 1 w = extra + 2 :=
      ⟨openBehind 1 w - 2, by omega⟩
    have hnone : tjFrom (openBehind 1 w) (41 :: literal w) = [] := by
      rw [hextra, tjFrom, if_neg (by decide), if_pos rfl, tjFrom_lost _ hopen]
    rw [hnone] at htwice
    rw [(List.append_cancel_left htwice).symm] at hdeep
    exact hdeep rfl
  · next v hclose =>
    intro hagain
    obtain ⟨v₁, v₂, hv, hfirst⟩ :=
      List.eq_append_cons_of_mem (List.dropLast_subset v hagain)
    rw [tjFrom_literal, tjFrom_closed hclose, hv, tjFrom_behind hfirst, tjFrom_literal] at halone
    have hnone : v₂ = [] :=
      (List.append_eq_nil_iff.mp (List.append_right_eq_self.mp halone)).1
    rw [hv, hnone, List.dropLast_concat] at hagain
    exact hfirst hagain

end scans

section blocks

/-- A Latin-1 unit that neither is nor belongs to a line break. -/
def isLineUnit (u : UInt16) : Bool := 32 ≤ u && u ≤ 255

theorem isLineUnit_iff (u : UInt16) : isLineUnit u = true ↔ 32 ≤ u ∧ u ≤ 255 := by
  simp [isLineUnit]

theorem latin1Text_latin1Bytes {s : JsString} (hs : ∀ u ∈ s, u ≤ 255) :
    latin1Text (latin1Bytes s) = s := by
  rw [latin1Text, latin1Bytes, List.map_map]
  conv_rhs => rw [← List.map_id s]
  apply List.map_congr_left
  intro u hu
  apply UInt16.toNat_inj.mp
  have hle : u.toNat ≤ 255 := UInt16.le_iff_toNat_le.mp (hs u hu)
  simp only [Function.comp_apply, UInt16.toNat_ofNat', UInt16.toNat_toUInt8, id_eq]
  omega

theorem splitRowsFrom_skip {row : JsString} (hrow : 13 ∉ row ∧ 10 ∉ row) (piece rest : JsString) :
    splitRowsFrom piece (row ++ rest) = splitRowsFrom (row.reverse ++ piece) rest := by
  induction row generalizing piece with
  | nil => rfl
  | cons u row ih =>
    simp only [List.mem_cons, not_or] at hrow
    obtain ⟨⟨hcr, hcr'⟩, hlf, hlf'⟩ := hrow
    have hstep : splitRowsFrom piece (u :: (row ++ rest)) =
        splitRowsFrom (u :: piece) (row ++ rest) := by
      simp [splitRowsFrom, Ne.symm hcr, Ne.symm hlf]
    rw [List.cons_append, hstep, ih ⟨hcr', hlf'⟩, List.reverse_cons, List.append_assoc]
    rfl

theorem splitRowsFrom_eol {eol : JsString} (heol : eol ∈ lineEnds) {c : UInt16} (hc : c ≠ 10)
    (piece rest : JsString) :
    splitRowsFrom piece (eol ++ c :: rest) = piece.reverse :: splitRowsFrom [] (c :: rest) := by
  simp only [lineEnds, List.mem_cons, List.not_mem_nil, or_false] at heol
  rcases heol with rfl | rfl | rfl
  · simp [splitRowsFrom]
  · simp [splitRowsFrom, hc]
  · simp [splitRowsFrom]

theorem splitRows_textBlock {eol : JsString} (heol : eol ∈ lineEnds) {c : UInt16}
    {rest : JsString} (hline : 13 ∉ c :: rest ∧ 10 ∉ c :: rest) :
    splitRows (textBlock eol (c :: rest)) = [js "BT", c :: rest, js "ET"] := by
  have hc : c ≠ 10 := fun h => hline.2 (by simp [h])
  have hopen : textBlock eol (c :: rest) =
      js "BT" ++ (eol ++ c :: (rest ++ (eol ++ 69 :: js "T"))) := by
    rw [textBlock]
    simp only [List.append_assoc, List.cons_append]
    rfl
  have hclose : c :: (rest ++ (eol ++ 69 :: js "T")) = (c :: rest) ++ (eol ++ 69 :: js "T") := rfl
  rw [splitRows, hopen, splitRowsFrom_skip (by decide), splitRowsFrom_eol heol hc, hclose,
    splitRowsFrom_skip hline, splitRowsFrom_eol heol (by decide)]
  simp only [List.append_nil, List.reverse_reverse]
  rfl

/-- A block of one line shows what the line shows. -/
theorem extractBtEtText_textBlock {eol : JsString} (heol : eol ∈ lineEnds) {c : UInt16}
    {rest : JsString} (hline : ∀ u ∈ c :: rest, isLineUnit u = true)
    (htrim : trim (c :: rest) = c :: rest) (hc : c ≠ 66 ∧ c ≠ 69) :
    extractBtEtText (latin1Bytes (textBlock eol (c :: rest))) = showLine [] (c :: rest) := by
  have hbreaks : 13 ∉ c :: rest ∧ 10 ∉ c :: rest := by
    constructor <;> intro h <;> exact absurd (hline _ h) (by decide)
  have hlatin : ∀ u ∈ textBlock eol (c :: rest), u ≤ 255 := by
    have hends : ∀ u ∈ eol, u ≤ 255 := by
      have := List.all_eq_true.mp (show lineEnds.all (·.all (· ≤ 255)) by decide) eol heol
      simpa using this
    have hwords : ∀ w ∈ [js "BT", js "ET"], ∀ u ∈ w, isLineUnit u = true := by
      have := show [js "BT", js "ET"].all (·.all isLineUnit) by decide
      simpa using this
    intro u hu
    simp only [textBlock, List.mem_append] at hu
    rcases hu with (((hu | hu) | hu) | hu) | hu
    · exact ((isLineUnit_iff u).mp (hwords _ (by simp) u hu)).2
    · exact hends u hu
    · exact ((isLineUnit_iff u).mp (hline u hu)).2
    · exact hends u hu
    · exact ((isLineUnit_iff u).mp (hwords _ (by simp) u hu)).2
  have hbt : c :: rest ≠ js "BT" := fun h => hc.1 (List.cons.inj h).1
  have het : c :: rest ≠ js "ET" := fun h => hc.2 (List.cons.inj h).1
  have hfirst : readRow ⟨[], false⟩ (js "BT") = ⟨[], true⟩ := rfl
  have hshown : readRow ⟨[], true⟩ (c :: rest) = ⟨showLine [] (c :: rest), true⟩ := by
    rw [readRow]
    simp only [htrim, if_neg hbt, if_neg het, if_true]
  rw [extractBtEtText, latin1Text_latin1Bytes hlatin, splitRows_textBlock heol hbreaks]
  simp only [List.foldl_cons, List.foldl_nil, hfirst, hshown]
  rfl

theorem Printable.line {w : JsString} (hw : Printable w) : ∀ u ∈ w, isLineUnit u = true := by
  intro u hu
  rw [isLineUnit_iff]
  rcases hw u hu with ⟨hlow, hhigh⟩ | ⟨hlow, hhigh⟩
  · exact ⟨hlow, UInt16.le_trans hhigh (by decide)⟩
  · exact ⟨UInt16.le_trans (by decide) hlow, hhigh⟩

theorem Spacing.line {gap : JsString} (hgap : Spacing gap) : ∀ u ∈ gap, isLineUnit u = true := by
  intro u hu
  rcases hgap u hu with ⟨hlow, hhigh⟩ | rfl | rfl | rfl | rfl
  · rw [isLineUnit_iff]
    exact ⟨UInt16.le_trans (by decide) hlow, UInt16.le_trans hhigh (by decide)⟩
  all_goals rfl

theorem Spacing.not_mem {gap : JsString} (hgap : Spacing gap) : 40 ∉ gap := by
  intro hopen
  rcases hgap 40 hopen with ⟨hlow, -⟩ | h | h | h | h
  · exact absurd hlow (by decide)
  all_goals exact absurd h (by decide)

theorem literal_line {w : JsString} (hw : Printable w) : ∀ u ∈ literal w, isLineUnit u = true := by
  intro u hu
  simp only [literal, List.mem_cons, List.mem_append, List.not_mem_nil, or_false] at hu
  rcases hu with rfl | hu | rfl
  · rfl
  · by_cases hslash : u = 92
    · rw [hslash]
      rfl
    · rw [mem_escape hslash] at hu
      exact hw.line u hu
  · rfl

theorem arrayItems_line {items : List (JsString × JsString)}
    (hitems : ∀ item ∈ items, Printable item.1 ∧ Spacing item.2) :
    ∀ u ∈ arrayItems items, isLineUnit u = true := by
  intro u hu
  obtain ⟨item, hitem, hin⟩ := List.mem_flatMap.mp hu
  rcases List.mem_append.mp hin with hin | hin
  · exact literal_line (hitems item hitem).1 u hin
  · exact (hitems item hitem).2.line u hin

theorem extractTjArray_arrayLine (gap : JsString) (items : List (JsString × JsString)) :
    extractTjArray (arrayLine gap items) = tjFrom 0 (gap ++ arrayItems items) := by
  have hstart : firstIndexOf [91] (arrayLine gap items) = some 0 :=
    firstIndexOf_of_prefix [91] (by decide) _
  have hreverse : (arrayLine gap items).reverse =
      (js "] TJ").reverse.take 3 ++ ([93] ++ (91 :: (gap ++ arrayItems items)).reverse) := by
    rw [arrayLine, ← List.cons_append, List.reverse_append]
    rfl
  have hend : lastIndexOf 93 (arrayLine gap items) =
      some ((gap ++ arrayItems items).length + 1) := by
    rw [lastIndexOf, hreverse, firstIndexOf_skip _ _ _ _ (by decide), Option.map_some]
    congr 1
    simp only [arrayLine, List.length_cons, List.length_append,
      show (js "] TJ").length = 4 from rfl, show ((js "] TJ").reverse.take 3).length = 3 from rfl]
    omega
  have hinner : ((arrayLine gap items).take ((gap ++ arrayItems items).length + 1)).drop (0 + 1) =
      gap ++ arrayItems items := by
    rw [arrayLine, List.take_succ_cons, List.take_left]
    rfl
  rw [extractTjArray, hstart, hend]
  exact congrArg (tjFrom 0) hinner

theorem endsWith_of_append {s p q : JsString} (hlen : p.length = q.length) :
    endsWith (s ++ q) p = decide (p = q) := by
  rw [Bool.eq_iff_iff, endsWith_iff, decide_eq_true_iff]
  constructor
  · rintro ⟨front, hfront⟩
    exact (List.append_inj' hfront hlen).2
  · rintro rfl
    exact List.suffix_append s p

theorem showLine_arrayLine (gap : JsString) (items : List (JsString × JsString)) :
    showLine [] (arrayLine gap items) = tjFrom 0 (gap ++ arrayItems items) := by
  have hline : arrayLine gap items = (91 :: (gap ++ arrayItems items) ++ js "] ") ++ js "TJ" := by
    rw [arrayLine, show js "] TJ" = js "] " ++ js "TJ" from rfl, ← List.append_assoc]
    rfl
  have hstring : endsWith (arrayLine gap items) (js "Tj") = false := by
    rw [hline, endsWith_of_append (by decide)]
    decide
  have harray : endsWith (arrayLine gap items) (js "TJ") = true := by
    rw [hline, endsWith_of_append (by decide)]
    decide
  rw [showLine, hstring, harray, extractTjArray_arrayLine]
  simp only [Bool.false_eq_true, if_false, if_true, appendShown, List.isEmpty_nil, Bool.not_true,
    Bool.false_and, List.nil_append, List.isEmpty_iff]
  split
  · next hempty => exact hempty.symm
  · rfl

theorem showLine_stringLine (w : JsString) : showLine [] (stringLine w) = w := by
  have hstring : endsWith (stringLine w) (js "Tj") = true := by
    rw [stringLine, show js " Tj" = js " " ++ js "Tj" from rfl, ← List.append_assoc,
      endsWith_of_append (by decide)]
    decide
  rw [showLine, hstring, stringLine, extractParenthesizedString_literal]
  rfl

theorem trim_line {c last : UInt16} (hc : isWhiteSpace c = false)
    (hlast : isWhiteSpace last = false) (middle : JsString) :
    trim (c :: (middle ++ [last])) = c :: (middle ++ [last]) := by
  apply trim_of_ends
  · intro u hu
    rw [← Option.some.inj hu]
    exact hc
  · intro u hu
    rw [← List.cons_append, List.getLast?_concat] at hu
    rw [← Option.some.inj hu]
    exact hlast

theorem extractBtEtText_arrayLine {eol : JsString} (heol : eol ∈ lineEnds) {gap : JsString}
    (hgap : Spacing gap) {items : List (JsString × JsString)}
    (hitems : ∀ item ∈ items, Printable item.1 ∧ Spacing item.2) :
    extractBtEtText (latin1Bytes (textBlock eol (arrayLine gap items))) =
      tjFrom 0 (gap ++ arrayItems items) := by
  have hunits : ∀ u ∈ arrayLine gap items, isLineUnit u = true := by
    intro u hu
    simp only [arrayLine, List.mem_cons, List.mem_append] at hu
    rcases hu with rfl | (hu | hu) | hu
    · rfl
    · exact hgap.line u hu
    · exact arrayItems_line hitems u hu
    · exact List.all_eq_true.mp (by decide) u hu
  have htrim : trim (arrayLine gap items) = arrayLine gap items := by
    have hline : arrayLine gap items =
        91 :: ((gap ++ arrayItems items ++ js "] T") ++ [74]) := by
      rw [arrayLine, List.append_assoc _ _ [74]]
      rfl
    rw [hline]
    exact trim_line (by decide) (by decide) _
  rw [← showLine_arrayLine]
  exact extractBtEtText_textBlock heol hunits htrim (by decide)

theorem extractBtEtText_stringLine {eol : JsString} (heol : eol ∈ lineEnds) {w : JsString}
    (hw : Printable w) :
    extractBtEtText (latin1Bytes (textBlock eol (stringLine w))) = w := by
  have hunits : ∀ u ∈ stringLine w, isLineUnit u = true := by
    intro u hu
    rcases List.mem_append.mp hu with hu | hu
    · exact literal_line hw u hu
    · exact List.all_eq_true.mp (by decide) u hu
  have htrim : trim (stringLine w) = stringLine w := by
    have hline : stringLine w = 40 :: ((escape w ++ [41] ++ js " T") ++ [106]) := by
      rw [stringLine, literal, List.append_assoc _ _ [106]]
      rfl
    rw [hline]
    exact trim_line (by decide) (by decide) _
  conv_rhs => rw [← showLine_stringLine w]
  exact extractBtEtText_textBlock heol hunits htrim (by decide)

/-- The strings of an array that are each read once come out of it in order. -/
theorem tjFrom_arrayItems {items : List (JsString × JsString)}
    (hitems : ∀ item ∈ items, ReadOnce item.1 ∧ Spacing item.2) :
    tjFrom 0 (arrayItems items) = items.flatMap Prod.fst := by
  induction items with
  | nil => rfl
  | cons item items ih =>
    obtain ⟨⟨hread, hgap⟩, hrest⟩ := List.forall_mem_cons.mp hitems
    have hsplit : arrayItems (item :: items) =
        literal item.1 ++ (item.2 ++ arrayItems items) := List.append_assoc _ _ _
    rw [hsplit, tjFrom_readOnce hread, tjFrom_skip hgap.not_mem, ih hrest]
    rfl

end blocks

section scanning

variable {zlib : Zlib} {buf : Bytes}

theorem bufferIndexOf_le {text : JsString} {offset i : Nat}
    (h : bufferIndexOf buf text offset = some i) : offset ≤ i := by
  obtain ⟨j, -, rfl⟩ := Option.map_eq_some_iff.mp h
  exact Nat.le_add_right offset j

theorem skipStreamEol_le (buf : Bytes) (pos : Nat) : pos ≤ skipStreamEol buf pos := by
  rw [skipStreamEol]
  split
  · split <;> omega
  · split <;> omega

/-- Each turn of the loop begins inside the buffer and leaves the offset further on. -/
theorem scanStep_offset {st st' : ScanState} (h : scanStep zlib buf st = some st') :
    st.offset < buf.length ∧ st.offset < st'.offset := by
  rw [scanStep] at h
  split at h
  · next hinside =>
    refine ⟨hinside, ?_⟩
    split at h
    · cases h
    · next streamStart hstart =>
      simp only at h
      split at h
      · cases h
      · next contentEnd hend =>
        have hfirst := bufferIndexOf_le hstart
        have hskip := skipStreamEol_le buf (streamStart + (js "stream").length)
        have hlast := bufferIndexOf_le hend
        have hlen : (js "endstream").length = 9 := rfl
        split at h
        all_goals
          obtain rfl := Option.some.inj h
          simp only [hlen]
          omega
  · cases h

/-- The loop ends within one turn for each byte that is left. -/
theorem scanFrom_ends (zlib : Zlib) (buf : Bytes) (st : ScanState) :
    ∃ text, ∀ fuel, buf.length - st.offset < fuel → scanFrom zlib buf fuel st = some text := by
  induction hleft : buf.length - st.offset using Nat.strongRecOn generalizing st with
  | _ left ih =>
    cases hstep : scanStep zlib buf st with
    | none =>
      refine ⟨st.allText, fun fuel hfuel => ?_⟩
      obtain ⟨fuel, rfl⟩ := Nat.exists_eq_succ_of_ne_zero (Nat.ne_of_gt (Nat.zero_lt_of_lt hfuel))
      rw [scanFrom, hstep]
    | some st' =>
      obtain ⟨hinside, hgrows⟩ := scanStep_offset hstep
      obtain ⟨text, htext⟩ := ih (buf.length - st'.offset) (by omega) st' rfl
      refine ⟨text, fun fuel hfuel => ?_⟩
      obtain ⟨fuel, rfl⟩ := Nat.exists_eq_succ_of_ne_zero (Nat.ne_of_gt (Nat.zero_lt_of_lt hfuel))
      rw [scanFrom, hstep]
      exact htext fuel (by omega)

end scanning

/-- For every set of strings, the array lines over it all give the strings of the array one
behind the other exactly when each string of the set is read once. -/
theorem extractBtEtText_exact_iff (zlib : Zlib) (data : Bytes) (written : JsString → Prop) :
    ((∀ eol ∈ lineEnds, ∀ gap items, Spacing gap →
        (∀ item ∈ items, Printable item.1 ∧ written item.1 ∧ Spacing item.2) →
        extractBtEtText (latin1Bytes (textBlock eol (arrayLine gap items))) =
          items.flatMap Prod.fst) ↔
      ∀ w, Printable w → written w → ReadOnce w) ∧
    (∀ eol ∈ lineEnds, ∀ w, Printable w →
      extractBtEtText (latin1Bytes (textBlock eol (stringLine w))) = w) ∧
    ∃ text, ∀ fuel, data.length < fuel → extractTextFromBytes zlib data fuel = some text := by
  refine ⟨⟨?_, ?_⟩, fun eol heol w hw => extractBtEtText_stringLine heol hw,
    scanFrom_ends zlib data ⟨0, []⟩⟩
  · intro hexact w hw hwritten
    have hempty : Spacing [] := fun u hu => absurd hu List.not_mem_nil
    have harray : ∀ items : List (JsString × JsString), (∀ item ∈ items, item = (w, [])) →
        tjFrom 0 (arrayItems items) = items.flatMap Prod.fst := by
      intro items hitems
      have hparts : ∀ item ∈ items, Printable item.1 ∧ written item.1 ∧ Spacing item.2 := by
        intro item hitem
        rw [hitems item hitem]
        exact ⟨hw, hwritten, hempty⟩
      have hline := hexact [10] (by decide) [] items hempty hparts
      rwa [extractBtEtText_arrayLine (by decide) hempty
        fun item hitem => ⟨(hparts item hitem).1, (hparts item hitem).2.2⟩] at hline
    apply readOnce_of_arrays
    · have halone := harray [(w, [])] (by simp)
      simpa [arrayItems] using halone
    · have htwice := harray [(w, []), (w, [])] (by simp)
      simpa [arrayItems] using htwice
  · intro hread eol heol gap items hgap hitems
    rw [extractBtEtText_arrayLine heol hgap
        fun item hitem => ⟨(hitems item hitem).1, (hitems item hitem).2.2⟩,
      tjFrom_skip hgap.not_mem, tjFrom_arrayItems]
    intro item hitem
    obtain ⟨hw, hwritten, hspace⟩ := hitems item hitem
    exact ⟨hread item.1 hw hwritten, hspace⟩

/-- A string that ends in `(` is left too late, and the next one is lost. -/
theorem string_behind_open_lost :
    extractBtEtText (latin1Bytes (textBlock [10] (arrayLine [] [(js "(", []), (js "x", [])]))) ≠
      js "(x" := by
  decide

end Solarcido.Pdf
