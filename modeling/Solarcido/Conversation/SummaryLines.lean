import Solarcido.Conversation.Summaries
import Solarcido.Js.CodePoints
import Solarcido.Lib.Selection

namespace Solarcido.Conversation

open Text Selection

section words

variable {u : UInt16} {word line : JsString}

theorem wordsFrom_snoc (hu : isWhiteSpace u = true) (word line : JsString) :
    wordsFrom word (line ++ [u]) = wordsFrom word line := by
  induction line generalizing word with
  | nil => simp [wordsFrom, hu]
  | cons v line ih =>
    rw [List.cons_append, wordsFrom, wordsFrom, ih, ih]

theorem collapse_cons (hu : isWhiteSpace u = true) (line : JsString) :
    collapseInlineWhitespace (u :: line) = collapseInlineWhitespace line := by
  rw [collapseInlineWhitespace, collapseInlineWhitespace, wordsFrom, if_pos hu]
  rfl

theorem collapse_snoc (hu : isWhiteSpace u = true) (line : JsString) :
    collapseInlineWhitespace (line ++ [u]) = collapseInlineWhitespace line := by
  rw [collapseInlineWhitespace, collapseInlineWhitespace, wordsFrom_snoc hu]

/-- A word is not empty and has no white space. -/
theorem wordsFrom_spec (hword : ∀ u ∈ word, isWhiteSpace u = false) :
    ∀ w ∈ wordsFrom word line, w ≠ [] ∧ ∀ u ∈ w, isWhiteSpace u = false := by
  have hlast : ∀ word : JsString, (∀ u ∈ word, isWhiteSpace u = false) →
      ∀ w ∈ (if word.isEmpty then [] else [word.reverse]), w ≠ [] ∧
        ∀ u ∈ w, isWhiteSpace u = false := by
    intro word hword w hw
    cases word with
    | nil => cases hw
    | cons u word =>
      rw [List.isEmpty_cons, if_neg Bool.false_ne_true, List.mem_singleton] at hw
      rw [hw]
      exact ⟨by simp, fun v hv => hword v (List.mem_reverse.mp hv)⟩
  induction line generalizing word with
  | nil => exact hlast word hword
  | cons u line ih =>
    rw [wordsFrom]
    split
    · intro w hw
      rcases List.mem_append.mp hw with hw | hw
      · exact hlast word hword w hw
      · exact ih (by simp) w hw
    · next hu =>
      apply ih
      intro v hv
      rcases List.mem_cons.mp hv with rfl | hv
      · exact Bool.not_eq_true _ ▸ hu
      · exact hword v hv

theorem wordsFrom_ne_nil (h : word ≠ [] ∨ ∃ u ∈ line, isWhiteSpace u = false) :
    wordsFrom word line ≠ [] := by
  induction line generalizing word with
  | nil =>
    have hword : word ≠ [] := h.resolve_right (by simp)
    simp [wordsFrom, hword]
  | cons u line ih =>
    rw [wordsFrom]
    split
    · next hu =>
      rcases h with hword | ⟨v, hv, hspace⟩
      · simp [hword]
      · rcases List.mem_cons.mp hv with rfl | hv
        · rw [hu] at hspace
          cases hspace
        · simp [ih (Or.inr ⟨v, hv, hspace⟩)]
    · exact ih (Or.inl (List.cons_ne_nil u word))

theorem words_spec : ∀ w ∈ wordsFrom [] line, w ≠ [] ∧ ∀ u ∈ w, isWhiteSpace u = false :=
  wordsFrom_spec (by simp)

theorem collapse_ne_nil (h : ∃ u ∈ line, isWhiteSpace u = false) :
    collapseInlineWhitespace line ≠ [] := by
  have hwords : wordsFrom [] line ≠ [] := wordsFrom_ne_nil (Or.inr h)
  obtain ⟨first, rest, hfirst⟩ := List.exists_cons_of_ne_nil hwords
  have hne := (words_spec first (hfirst ▸ List.mem_cons_self)).1
  intro hnil
  rw [collapseInlineWhitespace, hfirst] at hnil
  have hprefix := prefix_join (js " ") first rest
  rw [hnil, List.prefix_nil] at hprefix
  exact hne hprefix

theorem exists_ink_of_collapse (h : collapseInlineWhitespace line ≠ []) :
    ∃ u ∈ collapseInlineWhitespace line, isWhiteSpace u = false := by
  cases hwords : wordsFrom [] line with
  | nil =>
    rw [collapseInlineWhitespace, hwords] at h
    exact absurd rfl h
  | cons first rest =>
    obtain ⟨hne, hspace⟩ := words_spec first (hwords ▸ List.mem_cons_self)
    obtain ⟨u, hu⟩ := List.exists_mem_of_ne_nil first hne
    refine ⟨u, ?_, hspace u hu⟩
    rw [collapseInlineWhitespace, hwords]
    exact (prefix_join (js " ") first rest).subset hu

theorem newline_not_mem_collapse (line : JsString) : 10 ∉ collapseInlineWhitespace line := by
  intro h
  rcases mem_join h with h | ⟨w, hw, h⟩
  · exact absurd h (by decide)
  · exact absurd ((words_spec w hw).2 10 h) (by decide)

theorem space_plain : IsPlain 32 := ⟨by decide, by decide⟩

theorem isPlain_of_space (hu : isWhiteSpace u = true) : IsPlain u := by
  simp only [isWhiteSpace, Bool.or_eq_true, Bool.and_eq_true, decide_eq_true_eq,
    beq_iff_eq] at hu
  constructor <;> simp only [isHighSurrogate, isLowSurrogate, Bool.and_eq_false_iff,
    decide_eq_false_iff_not] <;> omega

theorem collapse_length_from (word line : JsString) :
    (codePoints (join (js " ") (wordsFrom word line))).length ≤
      (codePoints (word.reverse ++ line)).length := by
  induction line generalizing word with
  | nil =>
    rw [wordsFrom, List.append_nil]
    split
    · exact Nat.zero_le _
    · rw [join, List.intercalate_singleton]
  | cons u line ih =>
    rw [wordsFrom]
    split
    · next hu =>
      have hline := ih []
      rw [List.reverse_nil, List.nil_append] at hline
      rw [codePoints_append_plain (isPlain_of_space hu), List.length_append, List.length_cons]
      split
      · rw [List.nil_append]
        omega
      · cases hwords : wordsFrom [] line with
        | nil =>
          rw [List.append_nil, join, List.intercalate_singleton]
          omega
        | cons second rest =>
          rw [hwords] at hline
          have hspace : js " " = [32] := rfl
          rw [List.singleton_append, join_cons_cons, hspace, List.append_assoc,
            List.singleton_append, codePoints_append_plain space_plain, List.length_append,
            List.length_cons, ← hspace]
          omega
    · have hline := ih (u :: word)
      rw [List.reverse_cons, List.append_assoc, List.singleton_append] at hline
      exact hline

theorem collapse_length (line : JsString) :
    (codePoints (collapseInlineWhitespace line)).length ≤ (codePoints line).length :=
  collapse_length_from [] line

end words

section capping

variable {line : JsString} {maxChars : Nat}

theorem ellipsis_plain : IsPlain 8230 := ⟨by decide, by decide⟩

/-- A line is left as it is, or cut and marked. -/
theorem truncateLine_cases (line : JsString) (maxChars : Nat) :
    (truncateLine line maxChars = line ∧ (codePoints line).length ≤ maxChars) ∨
      ∃ start, start <+: line ∧ truncateLine line maxChars = start ++ [8230] ∧
        (codePoints (start ++ [8230])).length ≤ max 1 maxChars ∧
        (line ≠ [] → (codePoints (start ++ [8230])).length ≤ (codePoints line).length) := by
  have hellipsis : js "…" = [8230] := rfl
  rw [truncateLine]
  split
  · right
    refine ⟨[], List.nil_prefix, hellipsis, Nat.le_max_left _ _, ?_⟩
    intro hne
    have hpos : codePoints line ≠ [] := fun h => hne ((codePoints_eq_nil_iff line).mp h)
    exact List.length_pos_iff.mpr hpos
  · split
    · next h => exact Or.inl ⟨rfl, h⟩
    · right
      have hstart := codePoints_fromCodePoints_length ((codePoints line).take (maxChars - 1))
        fun c hc => codePoints_lt line c (List.mem_of_mem_take hc)
      rw [List.length_take] at hstart
      refine ⟨_, take_codePoints_prefix line (maxChars - 1), by rw [hellipsis], ?_⟩
      rw [codePoints_snoc_plain ellipsis_plain, List.length_append, List.length_singleton]
      constructor
      · omega
      · intro
        omega

theorem truncateLine_capped (line : JsString) (maxChars : Nat) :
    (codePoints (truncateLine line maxChars)).length ≤ max 1 maxChars := by
  rcases truncateLine_cases line maxChars with ⟨heq, hle⟩ | ⟨start, -, heq, hle, -⟩
  · rw [heq]
    omega
  · rw [heq]
    exact hle

theorem truncateLine_length (hne : line ≠ []) :
    (codePoints (truncateLine line maxChars)).length ≤ (codePoints line).length := by
  rcases truncateLine_cases line maxChars with ⟨heq, -⟩ | ⟨start, -, heq, -, hle⟩
  · rw [heq]
  · rw [heq]
    exact hle hne

theorem truncateLine_ink (h : ∃ u ∈ line, isWhiteSpace u = false) :
    ∃ u ∈ truncateLine line maxChars, isWhiteSpace u = false := by
  rcases truncateLine_cases line maxChars with ⟨heq, -⟩ | ⟨start, -, heq, -, -⟩
  · rw [heq]
    exact h
  · rw [heq]
    exact ⟨8230, by simp, by decide⟩

theorem newline_not_mem_truncateLine (h : 10 ∉ line) : 10 ∉ truncateLine line maxChars := by
  rcases truncateLine_cases line maxChars with ⟨heq, -⟩ | ⟨start, hstart, heq, -, -⟩
  · rw [heq]
    exact h
  · rw [heq]
    intro hmem
    rcases List.mem_append.mp hmem with hmem | hmem
    · exact h (hstart.subset hmem)
    · exact absurd hmem (by decide)

end capping

section lines

variable (maxLineChars : Nat)

/-- Each line that is not blank, with its white space collapsed and its length capped. -/
def cappedFrom (raws : List JsString) : List JsString :=
  ((raws.map collapseInlineWhitespace).filter fun line => !line.isEmpty).map
    (truncateLine · maxLineChars)

def cappedLines (text : JsString) : List JsString := cappedFrom maxLineChars (split text (js "\n"))

variable {maxLineChars}

theorem cappedFrom_cons_blank {raw : JsString} (h : collapseInlineWhitespace raw = [])
    (raws : List JsString) : cappedFrom maxLineChars (raw :: raws) = cappedFrom maxLineChars raws := by
  simp [cappedFrom, h]

theorem cappedFrom_cons {raw : JsString} (h : collapseInlineWhitespace raw ≠ [])
    (raws : List JsString) :
    cappedFrom maxLineChars (raw :: raws) =
      truncateLine (collapseInlineWhitespace raw) maxLineChars :: cappedFrom maxLineChars raws := by
  simp [cappedFrom, h]

theorem cappedFrom_append (raws more : List JsString) :
    cappedFrom maxLineChars (raws ++ more) =
      cappedFrom maxLineChars raws ++ cappedFrom maxLineChars more := by
  simp [cappedFrom]

theorem cappedFrom_congr {raw other : JsString}
    (h : collapseInlineWhitespace raw = collapseInlineWhitespace other) :
    cappedFrom maxLineChars [raw] = cappedFrom maxLineChars [other] := by
  simp [cappedFrom, h]

theorem mem_cappedFrom {raws : List JsString} {line : JsString}
    (h : line ∈ cappedFrom maxLineChars raws) :
    (codePoints line).length ≤ max 1 maxLineChars ∧ 10 ∉ line ∧
      ∃ u ∈ line, isWhiteSpace u = false := by
  obtain ⟨collapsed, hcollapsed, rfl⟩ := List.mem_map.mp h
  obtain ⟨hmem, hne⟩ := List.mem_filter.mp hcollapsed
  obtain ⟨raw, -, rfl⟩ := List.mem_map.mp hmem
  have hne' : collapseInlineWhitespace raw ≠ [] := by simpa using hne
  exact ⟨truncateLine_capped _ _, newline_not_mem_truncateLine (newline_not_mem_collapse raw),
    truncateLine_ink (exists_ink_of_collapse hne')⟩

/-- The lines kept are the first of each spelling, whatever its case. -/
theorem dedupLines_fst (seen raws : List JsString) :
    (dedupLines maxLineChars seen raws).1 =
      (firstsBy toLowerCase (cappedFrom maxLineChars raws)).filter
        fun line => !seen.contains (toLowerCase line) := by
  induction raws generalizing seen with
  | nil => rfl
  | cons raw raws ih =>
    rw [dedupLines]
    by_cases hblank : collapseInlineWhitespace raw = []
    · rw [cappedFrom_cons_blank hblank, ← ih]
      simp [hblank]
    · rw [cappedFrom_cons hblank, firstsBy, List.filter_cons, List.filter_filter]
      simp only [List.isEmpty_iff, hblank, if_false]
      by_cases hseen : seen.contains
          (toLowerCase (truncateLine (collapseInlineWhitespace raw) maxLineChars)) = true
      · simp only [hseen, if_true, Bool.not_true, Bool.false_eq_true, if_false]
        rw [ih]
        apply List.filter_congr
        intro line _
        by_cases hsame : toLowerCase line =
            toLowerCase (truncateLine (collapseInlineWhitespace raw) maxLineChars)
        · rw [hsame, hseen]
          rfl
        · simp [hsame]
      · simp only [hseen, if_false, Bool.false_eq_true, Bool.not_false, if_true]
        rw [ih]
        congr 1
        apply List.filter_congr
        intro line _
        rw [List.contains_cons, Bool.not_or, Bool.and_comm]
        by_cases hsame : toLowerCase line =
          toLowerCase (truncateLine (collapseInlineWhitespace raw) maxLineChars) <;> simp [hsame]

/-- A line is kept or counted as a repetition. -/
theorem dedupLines_length (seen raws : List JsString) :
    (dedupLines maxLineChars seen raws).1.length + (dedupLines maxLineChars seen raws).2 =
      (cappedFrom maxLineChars raws).length := by
  induction raws generalizing seen with
  | nil => rfl
  | cons raw raws ih =>
    rw [dedupLines]
    by_cases hblank : collapseInlineWhitespace raw = []
    · rw [cappedFrom_cons_blank hblank, ← ih seen]
      simp [hblank]
    · rw [cappedFrom_cons hblank, List.length_cons]
      simp only [List.isEmpty_iff, hblank, if_false]
      split
      · rw [← ih seen, Nat.add_assoc]
      · rw [← ih (toLowerCase (truncateLine (collapseInlineWhitespace raw) maxLineChars) :: seen),
          List.length_cons]
        omega

theorem cappedLines_cons {u : UInt16} (hu : isWhiteSpace u = true) (text : JsString) :
    cappedLines maxLineChars (u :: text) = cappedLines maxLineChars text := by
  have hnl : js "\n" = [10] := rfl
  rw [cappedLines, cappedLines, hnl]
  by_cases hnewline : 10 = u
  · subst hnewline
    have hsplit : split (10 :: text) [10] = [] :: split text [10] := splitFrom_sep 10 [] text
    rw [hsplit, cappedFrom_cons_blank rfl]
  · obtain ⟨first, rest, hs, hsu⟩ := split_cons hnewline text
    rw [hs, hsu, ← List.singleton_append, cappedFrom_append,
      cappedFrom_congr (collapse_cons hu first), ← cappedFrom_append, List.singleton_append]

theorem cappedLines_snoc {u : UInt16} (hu : isWhiteSpace u = true) (text : JsString) :
    cappedLines maxLineChars (text ++ [u]) = cappedLines maxLineChars text := by
  have hnl : js "\n" = [10] := rfl
  rw [cappedLines, cappedLines, hnl]
  by_cases hnewline : 10 = u
  · subst hnewline
    rw [split_append, cappedFrom_append]
    simp [cappedFrom, split, splitFrom, collapseInlineWhitespace, wordsFrom, join]
  · obtain ⟨front, last, hs, hsu⟩ := split_snoc hnewline text
    rw [hs, hsu, cappedFrom_append, cappedFrom_append, cappedFrom_congr (collapse_snoc hu last)]

/-- The white space around a text has no part in its lines. -/
theorem cappedLines_trim (text : JsString) :
    cappedLines maxLineChars (trim text) = cappedLines maxLineChars text :=
  trim_unseen (cappedLines maxLineChars) (fun _ text hu => cappedLines_cons hu text)
    (fun _ text hu => cappedLines_snoc hu text) text

end lines

end Solarcido.Conversation
