import Solarcido.Js.Surrogates
import Solarcido.Tools.FileOps

namespace Solarcido.Tools

open Text

/-- The units a truncation keeps at the start. -/
def headUnits (maxChars : Nat) : ClampMode → Nat
  | .head => maxChars
  | .headTail => (7 * maxChars + 9) / 10

/-- The units a truncation keeps at the end. -/
def tailUnits (maxChars : Nat) (mode : ClampMode) : Nat := maxChars - headUnits maxChars mode

/-- The marker between what is kept. -/
def truncationMarker (omitted : Nat) (hint : JsString) : JsString :=
  js "\n…[" ++ Number.decimal omitted ++ js " characters truncated" ++
    (if hint.isEmpty then [] else js " — " ++ hint) ++ js "]…\n"

section cutting

variable {text hint : JsString} {maxChars : Nat} {mode : ClampMode}

theorem headUnits_le (maxChars : Nat) (mode : ClampMode) : headUnits maxChars mode ≤ maxChars := by
  cases mode with
  | head => exact le_rfl
  | headTail =>
    rw [headUnits]
    omega

theorem headUnits_add_tailUnits (maxChars : Nat) (mode : ClampMode) :
    headUnits maxChars mode + tailUnits maxChars mode = maxChars :=
  Nat.add_sub_of_le (headUnits_le maxChars mode)

theorem clampText_of_fits (h : text.length ≤ maxChars) : clampText text maxChars mode hint = text :=
  if_pos h

theorem clampText_of_long (h : maxChars < text.length) :
    clampText text maxChars mode hint = text.take (headUnits maxChars mode) ++
      truncationMarker (text.length - maxChars) hint ++
      text.drop (text.length - tailUnits maxChars mode) := by
  rw [clampText, if_neg (Nat.not_le.mpr h)]
  cases mode with
  | head => simp [headUnits, tailUnits, truncationMarker]
  | headTail => rfl

theorem wellFormed_marker (omitted : Nat) (hhint : WellFormed hint) :
    WellFormed (truncationMarker omitted hint) := by
  have hdecimal : WellFormed (Number.decimal omitted) := by
    apply wellFormed_ascii
    intro u hu
    have hdigit := Number.decimal_digits omitted u hu
    simp only [Number.isDigit, Bool.and_eq_true, decide_eq_true_eq] at hdigit
    omega
  have hsuffix : WellFormed (if hint.isEmpty then [] else js " — " ++ hint) := by
    split
    · exact wellFormed_nil
    · exact (wellFormed_js _).append hhint
  exact ((((wellFormed_js _).append hdecimal).append (wellFormed_js _)).append hsuffix).append
    (wellFormed_js _)

/-- The marker begins and ends with a line feed, so it completes no pair. -/
theorem marker_splits (omitted : Nat) (before after : JsString) :
    splitsPair before (truncationMarker omitted hint ++ after) = false ∧
      splitsPair (before ++ truncationMarker omitted hint) after = false := by
  constructor
  · exact splitsPair_of_head before _ (u := 10) (by decide)
  · have hend : js "]…\n" = js "]…" ++ [10] := by decide
    rw [truncationMarker, hend, ← List.append_assoc, ← List.append_assoc]
    exact splitsPair_of_last _ after (by decide)

theorem wellFormed_around_marker (omitted : Nat) (hhint : WellFormed hint) (head tail : JsString) :
    WellFormed (head ++ truncationMarker omitted hint ++ tail) ↔
      WellFormed head ∧ WellFormed tail := by
  constructor
  · intro h
    have hright := h.parts (marker_splits omitted head tail).2
    rw [List.append_assoc] at h
    exact ⟨(h.parts (marker_splits omitted head tail).1).1, hright.2⟩
  · rintro ⟨hhead, htail⟩
    exact (hhead.append (wellFormed_marker omitted hhint)).append htail

end cutting

section clamped

variable (text : JsString) (maxChars : Nat) (mode : ClampMode) (hint : JsString)

/-- A place lies between the halves of a surrogate pair of the text. -/
def CutsPair (place : Nat) : Prop := splitsPair (text.take place) (text.drop place) = true

instance (place : Nat) : Decidable (CutsPair text place) :=
  inferInstanceAs (Decidable (_ = true))

/-- The text fits, or no place where it is cut lies inside a surrogate pair. -/
def CutsBetween : Prop :=
  text.length ≤ maxChars ∨ ¬ CutsPair text (headUnits maxChars mode) ∧
    ¬ CutsPair text (text.length - tailUnits maxChars mode)

instance : Decidable (CutsBetween text maxChars mode) := inferInstanceAs (Decidable (_ ∨ _))

/-- A text that fits is kept. Of a longer one stay a head and a tail around a marker
that counts what is left out, and no code point is split. -/
structure ClampsWell : Prop where
  fits : text.length ≤ maxChars → clampText text maxChars mode hint = text
  truncates : maxChars < text.length → ∃ head omitted tail, text = head ++ omitted ++ tail ∧
    clampText text maxChars mode hint = head ++ truncationMarker omitted.length hint ++ tail ∧
    (mode = .head → tail = [])
  wellFormed : WellFormed (clampText text maxChars mode hint)

variable {text maxChars mode hint}

theorem clampText_truncates (h : maxChars < text.length) :
    ∃ head omitted tail, text = head ++ omitted ++ tail ∧
      clampText text maxChars mode hint = head ++ truncationMarker omitted.length hint ++ tail ∧
      (mode = .head → tail = []) := by
  have hunits := headUnits_add_tailUnits maxChars mode
  refine ⟨text.take (headUnits maxChars mode),
    (text.take (text.length - tailUnits maxChars mode)).drop (headUnits maxChars mode),
    text.drop (text.length - tailUnits maxChars mode), ?_, ?_, ?_⟩
  · have hle : headUnits maxChars mode ≤ text.length - tailUnits maxChars mode := by omega
    have htake : text.take (headUnits maxChars mode) =
        (text.take (text.length - tailUnits maxChars mode)).take (headUnits maxChars mode) := by
      rw [List.take_take, min_eq_left hle]
    rw [htake, List.take_append_drop, List.take_append_drop]
  · have hcount : ((text.take (text.length - tailUnits maxChars mode)).drop
        (headUnits maxChars mode)).length = text.length - maxChars := by
      rw [List.length_drop, List.length_take]
      omega
    rw [hcount, clampText_of_long h]
  · rintro rfl
    simp [tailUnits, headUnits]

theorem clampText_wellFormed_iff (htext : WellFormed text) (hhint : WellFormed hint) :
    WellFormed (clampText text maxChars mode hint) ↔ CutsBetween text maxChars mode := by
  by_cases hfits : text.length ≤ maxChars
  · rw [clampText_of_fits hfits]
    exact ⟨fun _ => Or.inl hfits, fun _ => htext⟩
  · have hparts : ∀ place, WellFormed (text.take place ++ text.drop place) := by
      intro place
      rw [List.take_append_drop]
      exact htext
    rw [clampText_of_long (Nat.lt_of_not_le hfits), wellFormed_around_marker _ hhint,
      wellFormed_left_iff (hparts _), wellFormed_right_iff (hparts _)]
    simp [CutsBetween, CutsPair, hfits]

/-- The truncation does what it says exactly when it cuts between code points. -/
theorem clampsWell_iff (htext : WellFormed text) (hhint : WellFormed hint) :
    ClampsWell text maxChars mode hint ↔ CutsBetween text maxChars mode := by
  rw [← clampText_wellFormed_iff htext hhint]
  exact ⟨fun h => h.wellFormed, fun h => ⟨clampText_of_fits, clampText_truncates, h⟩⟩

theorem face_at_end_clamped : CutsBetween (js "ab😀") 2 .head ∧ ClampsWell (js "ab😀") 2 .head [] :=
  ⟨by decide, (clampsWell_iff (wellFormed_js _) wellFormed_nil).mpr (by decide)⟩

theorem face_cut : WellFormed (js "😀") ∧ ¬ ClampsWell (js "😀") 1 .head [] := by
  refine ⟨wellFormed_js _, fun h => ?_⟩
  have hwellFormed := h.wellFormed
  revert hwellFormed
  decide

end clamped

end Solarcido.Tools
