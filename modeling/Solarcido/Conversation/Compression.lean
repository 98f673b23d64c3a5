import Mathlib.Algebra.Order.BigOperators.Group.List
import Mathlib.Algebra.Order.Ring.Nat
import Solarcido.Conversation.SummaryLines
import Solarcido.Lib.Succession

namespace Solarcido.Conversation

open Text Selection Succession

section selection

variable (opts : CompressSummaryOptions) (lines : List JsString)

/-- More lines, or more characters, than there is room for. -/
def Exceeds (candidate : List JsString) : Prop :=
  opts.maxLines < candidate.length ∨ opts.maxChars < joinedCharCount candidate

/-- The lines at some places, in the order of the places. -/
def pick (places : List Nat) : List JsString := places.map fun i => lines.getD i []

theorem pick_range : pick lines (List.range lines.length) = lines := by
  apply List.ext_getElem
  · simp [pick]
  · intro i _ h
    simp [pick, h]

def priorityAt (i : Nat) : Nat := linePriority (lines.getD i [])

/-- A line is looked at before another of lower priority, or further down. -/
def ranksBefore (i j : Nat) : Bool :=
  priorityAt lines j < priorityAt lines i || priorityAt lines j == priorityAt lines i && j < i

def hasRoom (chosen : List Nat) (i : Nat) : Bool :=
  let candidate := linesAt lines chosen ++ [lines.getD i []]
  !(candidate.length > opts.maxLines || joinedCharCount candidate > opts.maxChars)

def placesOf (priority : Nat) : List Nat :=
  (List.range lines.length).filter fun i => priorityAt lines i == priority

/-- The places in the order in which they are looked at. -/
def visited : List Nat := (List.range 4).flatMap (placesOf lines)

theorem linePriority_lt (line : JsString) : linePriority line < 4 := by
  rw [linePriority]
  split_ifs <;> omega

theorem mem_placesOf {priority i : Nat} :
    i ∈ placesOf lines priority ↔ i < lines.length ∧ priorityAt lines i = priority := by
  simp [placesOf]

theorem mem_visited {i : Nat} : i ∈ visited lines ↔ i < lines.length := by
  rw [visited, List.mem_flatMap]
  constructor
  · rintro ⟨priority, -, hi⟩
    exact ((mem_placesOf lines).mp hi).1
  · intro hi
    exact ⟨priorityAt lines i, List.mem_range.mpr (linePriority_lt _),
      (mem_placesOf lines).mpr ⟨hi, rfl⟩⟩

theorem visited_ranked : (visited lines).Pairwise fun j i => ranksBefore lines i j = true := by
  rw [visited, List.pairwise_flatMap]
  constructor
  · intro priority _
    have hlt : (placesOf lines priority).Pairwise (· < ·) := List.pairwise_lt_range.filter _
    apply hlt.imp_of_mem
    intro j i hj hi hji
    have hpj := ((mem_placesOf lines).mp hj).2
    have hpi := ((mem_placesOf lines).mp hi).2
    simp [ranksBefore, hpj, hpi, hji]
  · apply List.pairwise_lt_range.imp
    intro p q hpq j hj i hi
    have hpj := ((mem_placesOf lines).mp hj).2
    have hpi := ((mem_placesOf lines).mp hi).2
    simp [ranksBefore, hpj, hpi, hpq]

theorem ranksBefore_irrefl (i : Nat) : ranksBefore lines i i = false := by
  simp [ranksBefore]

theorem ranksBefore_asymm {i j : Nat} (h : ranksBefore lines i j = true) :
    ranksBefore lines j i = false := by
  simp only [ranksBefore, Bool.or_eq_true, Bool.and_eq_true, decide_eq_true_eq, beq_iff_eq,
    Bool.or_eq_false_iff, Bool.and_eq_false_iff, decide_eq_false_iff_not, beq_eq_false_iff_ne] at h ⊢
  omega

theorem visited_nodup : (visited lines).Nodup := by
  apply (visited_ranked lines).imp
  rintro i j h rfl
  rw [ranksBefore_irrefl] at h
  cases h

theorem selectLine_of_priority {priority i : Nat} {selected : List Nat}
    (hpriority : priorityAt lines i = priority) (hout : i ∉ selected) :
    selectLine opts lines priority selected i =
      if hasRoom opts lines selected i then i :: selected else selected := by
  have hskip : ¬ (selected.contains i || linePriority (lines.getD i []) != priority) = true := by
    rw [Bool.or_eq_true, not_or, bne_iff_ne, not_not]
    exact ⟨by simpa using hout, hpriority⟩
  rw [selectLine]
  simp only [if_neg hskip]
  split
  · next hfull =>
    have hout : hasRoom opts lines selected i = false := by
      rw [hasRoom, hfull]
      rfl
    rw [hout, if_neg Bool.false_ne_true]
  · next hfull =>
    have hroom : hasRoom opts lines selected i = true := by
      rw [Bool.not_eq_true] at hfull
      rw [hasRoom, hfull]
      rfl
    rw [if_pos hroom]

theorem selectLine_of_other {priority i : Nat} {selected : List Nat}
    (hpriority : priorityAt lines i ≠ priority) :
    selectLine opts lines priority selected i = selected := by
  have hskip : (selected.contains i || linePriority (lines.getD i []) != priority) = true := by
    rw [Bool.or_eq_true, bne_iff_ne]
    exact Or.inr hpriority
  rw [selectLine]
  simp only [if_pos hskip]

/-- One round over the places takes those of its priority in turn. -/
theorem foldl_selectLine (priority : Nat) (places : List Nat) (hnodup : places.Nodup)
    (selected : List Nat)
    (hfresh : ∀ i ∈ places, priorityAt lines i = priority → i ∉ selected) :
    places.foldl (selectLine opts lines priority) selected =
      greedy (hasRoom opts lines) selected
        (places.filter fun i => priorityAt lines i == priority) := by
  induction places generalizing selected with
  | nil => rfl
  | cons i places ih =>
    obtain ⟨hi, hplaces⟩ := List.nodup_cons.mp hnodup
    have hrest : ∀ j ∈ places, priorityAt lines j = priority → j ∉ selected := fun j hj =>
      hfresh j (List.mem_cons_of_mem i hj)
    rw [List.foldl_cons, List.filter_cons]
    by_cases hpriority : priorityAt lines i = priority
    · have hout := hfresh i List.mem_cons_self hpriority
      rw [selectLine_of_priority opts lines hpriority hout, if_pos (beq_iff_eq.mpr hpriority), greedy]
      apply ih hplaces
      intro j hj hpj
      split
      · intro hmem
        rcases List.mem_cons.mp hmem with rfl | hmem
        · exact hi hj
        · exact hrest j hj hpj hmem
      · exact hrest j hj hpj
    · rw [selectLine_of_other opts lines hpriority,
        if_neg fun h => hpriority (beq_iff_eq.mp h)]
      exact ih hplaces selected hrest

/-- The rounds take all the places in turn. -/
theorem foldl_rounds (priorities : List Nat) (hnodup : priorities.Nodup) (selected : List Nat)
    (hfresh : ∀ i ∈ selected, priorityAt lines i ∉ priorities) :
    priorities.foldl (fun selected priority =>
        (List.range lines.length).foldl (selectLine opts lines priority) selected) selected =
      greedy (hasRoom opts lines) selected (priorities.flatMap (placesOf lines)) := by
  induction priorities generalizing selected with
  | nil => rfl
  | cons priority priorities ih =>
    obtain ⟨hpriority, hpriorities⟩ := List.nodup_cons.mp hnodup
    rw [List.foldl_cons, List.flatMap_cons, greedy_append,
      foldl_selectLine opts lines priority _ List.nodup_range selected]
    · apply ih hpriorities
      intro i hi
      obtain ⟨new, heq, hsub⟩ := greedy_eq_append selected (placesOf lines priority)
      rw [← placesOf, heq] at hi
      rcases List.mem_append.mp hi with hi | hi
      · rw [((mem_placesOf lines).mp (List.mem_reverse.mp (hsub.subset hi))).2]
        exact hpriority
      · exact fun h => hfresh i hi (List.mem_cons_of_mem priority h)
    · intro i _ hpi hmem
      exact hfresh i hmem (by rw [hpi]; exact List.mem_cons_self)

def chosenPlaces : List Nat := inOrder id (greedy (hasRoom opts lines) [] (visited lines))

theorem selectLines_eq : selectLines opts lines = pick lines (chosenPlaces opts lines) := by
  rw [selectLines, foldl_rounds opts lines _ List.nodup_range [] (by simp)]
  rfl

end selection

section budgets

variable (opts : CompressSummaryOptions) (lines : List JsString)

def size (line : JsString) : Nat := (codePoints line).length

theorem joinedCharCount_eq (lines : List JsString) :
    joinedCharCount lines = (lines.map size).sum + (lines.length - 1) := rfl

theorem joinedCharCount_perm {lines more : List JsString} (h : lines.Perm more) :
    joinedCharCount lines = joinedCharCount more := by
  rw [joinedCharCount_eq, joinedCharCount_eq, (h.map size).sum_eq, h.length_eq]

theorem linesAt_cons_perm (i : Nat) (chosen : List Nat) :
    (linesAt lines (i :: chosen)).Perm (linesAt lines chosen ++ [lines.getD i []]) := by
  have hfront := (inOrder_perm id (i :: chosen)).map fun i => lines.getD i []
  have hback := ((inOrder_perm id chosen).map fun i => lines.getD i []).symm
  apply hfront.trans
  rw [List.map_cons]
  exact (hback.cons _).trans (List.perm_append_singleton _ _).symm

theorem hasRoom_eq_false_iff (chosen : List Nat) (i : Nat) :
    hasRoom opts lines chosen i = false ↔
      Exceeds opts (linesAt lines chosen ++ [lines.getD i []]) := by
  rw [hasRoom, Bool.not_eq_false', Bool.or_eq_true, decide_eq_true_iff, decide_eq_true_iff]
  rfl

/-- The lines picked are within both budgets. -/
theorem chosen_within : ¬ Exceeds opts (pick lines (chosenPlaces opts lines)) := by
  apply greedy_induction (P := fun chosen => ¬ Exceeds opts (linesAt lines chosen))
  · simp [Exceeds, linesAt, joinedCharCount]
  · intro chosen i hroom hover
    rw [← Bool.not_eq_false, hasRoom_eq_false_iff] at hroom
    apply hroom
    have hperm := linesAt_cons_perm lines i chosen
    rwa [Exceeds, hperm.length_eq, joinedCharCount_perm hperm] at hover

theorem greedy_visited_nodup : (greedy (hasRoom opts lines) [] (visited lines)).Nodup :=
  (greedy_sublist _).nodup (List.nodup_reverse.mpr (visited_nodup lines))

theorem chosenPlaces_increasing : (chosenPlaces opts lines).Pairwise (· < ·) :=
  inOrder_increasing (by simpa using greedy_visited_nodup opts lines)

theorem mem_chosenPlaces (i : Nat) :
    i ∈ chosenPlaces opts lines ↔ i ∈ greedy (hasRoom opts lines) [] (visited lines) :=
  (inOrder_perm id _).mem_iff

theorem chosenPlaces_sublist : (chosenPlaces opts lines).Sublist (List.range lines.length) := by
  have hsubset : chosenPlaces opts lines ⊆ List.range lines.length := by
    intro i hi
    rw [mem_chosenPlaces] at hi
    have hvisited := List.mem_reverse.mp ((greedy_sublist _).subset hi)
    exact List.mem_range.mpr ((mem_visited lines).mp hvisited)
  have hnodup : (chosenPlaces opts lines).Nodup := (chosenPlaces_increasing opts lines).imp Nat.ne_of_lt
  exact List.sublist_of_subperm_of_pairwise (List.subperm_of_subset hnodup hsubset)
    (chosenPlaces_increasing opts lines) List.pairwise_lt_range

/-- A line that is left out has no room beside those picked before it. -/
theorem exceeds_of_not_mem {i : Nat} (hi : i < lines.length) (hout : i ∉ chosenPlaces opts lines) :
    Exceeds opts (pick lines ((chosenPlaces opts lines).filter (ranksBefore lines i)) ++
      [lines.getD i []]) := by
  rw [mem_chosenPlaces] at hout
  obtain ⟨front, back, hvisited⟩ := List.append_of_mem ((mem_visited lines).mpr hi)
  have hranked := visited_ranked lines
  have hnodup := visited_nodup lines
  have hgreedy := greedy_visited_nodup opts lines
  rw [hvisited] at hranked hnodup
  have hrefused := refused_of_not_mem hnodup (hvisited ▸ hout)
  rw [← hvisited] at hrefused
  have hfront : (greedy (hasRoom opts lines) [] (visited lines)).filter (· ∈ front) =
      (greedy (hasRoom opts lines) [] (visited lines)).filter (ranksBefore lines i) := by
    apply List.filter_congr
    intro j hj
    have hmem : j ∈ front ++ i :: back := by
      rw [← hvisited]
      exact List.mem_reverse.mp ((greedy_sublist _).subset hj)
    obtain ⟨-, hback, hbefore⟩ := List.pairwise_append.mp hranked
    rcases List.mem_append.mp hmem with hfront | hmem
    · rw [decide_eq_true hfront, hbefore j hfront i List.mem_cons_self]
    · have hnot : j ∉ front := fun h => (List.nodup_append.mp hnodup).2.2 j h j hmem rfl
      rw [decide_eq_false hnot]
      rcases List.mem_cons.mp hmem with rfl | hlater
      · rw [ranksBefore_irrefl]
      · rw [ranksBefore_asymm lines ((List.pairwise_cons.mp hback).1 j hlater)]
  rw [hfront, hasRoom_eq_false_iff] at hrefused
  have horder : inOrder id ((greedy (hasRoom opts lines) [] (visited lines)).filter
      (ranksBefore lines i)) = (chosenPlaces opts lines).filter (ranksBefore lines i) :=
    inOrder_filter (by simpa using hgreedy) _
  rw [← horder]
  exact hrefused

end budgets

section result

/-- A line of its own, and not a blank one. -/
structure IsLine (line : JsString) : Prop where
  single : 10 ∉ line
  ink : ∃ u ∈ line, isWhiteSpace u = false

/-- The lines of a text; an empty one has none. -/
def linesOf (text : JsString) : List JsString :=
  if text = [] then [] else split text (js "\n")

theorem IsLine.ne_nil {line : JsString} (h : IsLine line) : line ≠ [] := by
  obtain ⟨u, hu, -⟩ := h.ink
  exact List.ne_nil_of_mem hu

theorem split_join_lines {parts : List JsString} (hne : parts ≠ [])
    (h : ∀ line ∈ parts, IsLine line) : split (join (js "\n") parts) (js "\n") = parts := by
  obtain ⟨first, rest, rfl⟩ := List.exists_cons_of_ne_nil hne
  exact split_join 10 first rest fun line hline => (h line hline).single

theorem linesOf_join {parts : List JsString} (h : ∀ line ∈ parts, IsLine line) :
    linesOf (join (js "\n") parts) = parts := by
  cases parts with
  | nil => rfl
  | cons first rest =>
    have hprefix := prefix_join (js "\n") first rest
    have hne : join (js "\n") (first :: rest) ≠ [] := by
      intro hnil
      rw [hnil, List.prefix_nil] at hprefix
      exact (h first List.mem_cons_self).ne_nil hprefix
    rw [linesOf, if_neg hne, split_join_lines (List.cons_ne_nil first rest) h]

theorem cappedLines_join {parts : List JsString} (h : ∀ line ∈ parts, IsLine line)
    (maxLineChars : Nat) :
    cappedLines maxLineChars (join (js "\n") parts) =
      parts.map fun line => truncateLine (collapseInlineWhitespace line) maxLineChars := by
  by_cases hnil : parts = []
  · rw [hnil]
    rfl
  · have hkept : (parts.map collapseInlineWhitespace).filter (fun line => !line.isEmpty) =
        parts.map collapseInlineWhitespace := by
      rw [List.filter_eq_self]
      intro collapsed hcollapsed
      obtain ⟨line, hline, rfl⟩ := List.mem_map.mp hcollapsed
      simpa using collapse_ne_nil (h line hline).ink
    rw [cappedLines, split_join_lines hnil h, cappedFrom, hkept, List.map_map]
    rfl

variable (text : JsString) (opts : CompressSummaryOptions)

/-- The lines of a text that are not blank, with their white space collapsed and their length
capped; of those that differ in case only, the first. -/
def normalisedLines : List JsString := firstsBy toLowerCase (cappedLines opts.maxLineChars text)

def removedDupes : Nat := (dedupLines opts.maxLineChars [] (split text (js "\n"))).2

def omissionNotice (omitted : Nat) : JsString :=
  js "- … " ++ Number.decimal omitted ++ js " additional line(s) omitted."

def keptPlaces : List Nat := chosenPlaces opts (normalisedLines text opts)

def keptLines : List JsString := pick (normalisedLines text opts) (keptPlaces text opts)

def omittedCount : Nat := (normalisedLines text opts).length - (keptPlaces text opts).length

def shownLines : List JsString :=
  if omittedCount text opts > 0 && (keptLines text opts).length < opts.maxLines &&
      joinedCharCount (keptLines text opts ++ [omissionNotice (omittedCount text opts)]) ≤
        opts.maxChars then
    keptLines text opts ++ [omissionNotice (omittedCount text opts)]
  else keptLines text opts

theorem dedupLines_normalised :
    (dedupLines opts.maxLineChars [] (split text (js "\n"))).1 = normalisedLines text opts := by
  rw [dedupLines_fst]
  exact List.filter_eq_self.mpr fun line _ => rfl

theorem normalised_length :
    (normalisedLines text opts).length + removedDupes text opts =
      (cappedLines opts.maxLineChars text).length := by
  rw [← dedupLines_normalised]
  exact dedupLines_length [] _

theorem keptLines_length : (keptLines text opts).length = (keptPlaces text opts).length :=
  List.length_map _

theorem compressSummary_eq
    (hroom : ¬ ((normalisedLines text opts).isEmpty || opts.maxChars == 0 || opts.maxLines == 0) = true) :
    compressSummary text opts = ⟨join (js "\n") (shownLines text opts),
      removedDupes text opts > 0 || omittedCount text opts > 0 ||
        join (js "\n") (shownLines text opts) != trim text⟩ := by
  rw [← dedupLines_normalised] at hroom
  have hkept : selectLines opts (dedupLines opts.maxLineChars [] (split text (js "\n"))).1 =
      keptLines text opts := by
    rw [dedupLines_normalised, selectLines_eq]
    rfl
  have homitted : (dedupLines opts.maxLineChars [] (split text (js "\n"))).1.length -
      (keptLines text opts).length = omittedCount text opts := by
    rw [dedupLines_normalised, keptLines_length]
    rfl
  rw [compressSummary]
  simp only [if_neg hroom, hkept, homitted]
  rfl

theorem isLine_notice (omitted : Nat) : IsLine (omissionNotice omitted) := by
  constructor
  · intro h
    rw [omissionNotice, List.mem_append, List.mem_append] at h
    rcases h with (h | h) | h
    · exact absurd h (by decide)
    · exact absurd (Number.decimal_digits omitted 10 h) (by decide)
    · exact absurd h (by decide)
  · exact ⟨45, by simp [omissionNotice, js, fromCodePoints, utf16], by decide⟩

theorem isLine_normalised {line : JsString} (h : line ∈ normalisedLines text opts) :
    IsLine line := by
  obtain ⟨-, hsingle, hink⟩ := mem_cappedFrom ((firstsBy_sublist _ _).subset h)
  exact ⟨hsingle, hink⟩

theorem keptLines_sublist : (keptLines text opts).Sublist (normalisedLines text opts) := by
  have hsub : (keptLines text opts).Sublist
      (pick (normalisedLines text opts) (List.range (normalisedLines text opts).length)) :=
    (chosenPlaces_sublist opts (normalisedLines text opts)).map _
  rwa [pick_range] at hsub

theorem shownLines_cases :
    shownLines text opts = keptLines text opts ∨
      (keptPlaces text opts).length < (normalisedLines text opts).length ∧
        shownLines text opts = keptLines text opts ++ [omissionNotice (omittedCount text opts)] := by
  rw [shownLines]
  split
  · next h =>
    have homitted : omittedCount text opts > 0 := by
      simp only [Bool.and_eq_true, decide_eq_true_eq] at h
      exact h.1.1
    rw [omittedCount] at homitted
    exact Or.inr ⟨by omega, rfl⟩
  · exact Or.inl rfl

theorem shownLines_within : ¬ Exceeds opts (shownLines text opts) := by
  rw [shownLines]
  split
  · next h =>
    simp only [Bool.and_eq_true, decide_eq_true_eq] at h
    simp only [Exceeds, List.length_append, List.length_singleton]
    omega
  · exact chosen_within opts (normalisedLines text opts)

theorem isLine_shown : ∀ line ∈ shownLines text opts, IsLine line := by
  have hkept : ∀ line ∈ keptLines text opts, IsLine line := fun line h =>
    isLine_normalised text opts ((keptLines_sublist text opts).subset h)
  intro line hline
  rcases shownLines_cases text opts with heq | ⟨-, heq⟩
  · exact hkept line (heq ▸ hline)
  · rw [heq] at hline
    rcases List.mem_append.mp hline with hline | hline
    · exact hkept line hline
    · rw [List.mem_singleton.mp hline]
      exact isLine_notice _

/-- Collapsed and capped once more, a line does not get longer. -/
theorem size_again (line : JsString) (h : IsLine line) :
    size (truncateLine (collapseInlineWhitespace line) opts.maxLineChars) ≤ size line :=
  (truncateLine_length (collapse_ne_nil h.ink)).trans (collapse_length line)

variable {text opts}

/-- When one line only is omitted, its place and those kept are all there are. -/
theorem normalised_size {i : Nat} (hi : i < (normalisedLines text opts).length)
    (hout : i ∉ keptPlaces text opts)
    (hone : (normalisedLines text opts).length = (keptPlaces text opts).length + 1) :
    ((normalisedLines text opts).map size).sum =
      ((keptLines text opts).map size).sum + size ((normalisedLines text opts).getD i []) := by
  have hsub := chosenPlaces_sublist opts (normalisedLines text opts)
  have hnodup : (i :: keptPlaces text opts).Nodup :=
    List.nodup_cons.mpr ⟨hout, hsub.nodup List.nodup_range⟩
  have hsubset : i :: keptPlaces text opts ⊆ List.range (normalisedLines text opts).length :=
    List.cons_subset.mpr ⟨List.mem_range.mpr hi, hsub.subset⟩
  have hperm : (i :: keptPlaces text opts).Perm (List.range (normalisedLines text opts).length) := by
    apply (List.subperm_of_subset hnodup hsubset).perm_of_length_le
    rw [List.length_range, List.length_cons]
    omega
  have hlines := hperm.map fun i => (normalisedLines text opts).getD i []
  rw [List.map_cons] at hlines
  have hall := pick_range (normalisedLines text opts)
  rw [pick] at hall
  rw [hall] at hlines
  rw [← (hlines.map size).sum_eq, List.map_cons, List.sum_cons, Nat.add_comm]
  rfl

/-- A notice in the place of a line is longer than the line only where the line fits too. -/
theorem exists_omitted_size (h : join (js "\n") (shownLines text opts) = trim text)
    (hshown : shownLines text opts = keptLines text opts ++ [omissionNotice (omittedCount text opts)])
    (hlt : (keptPlaces text opts).length < (normalisedLines text opts).length) :
    ∃ i < (normalisedLines text opts).length, i ∉ keptPlaces text opts ∧
      size ((normalisedLines text opts).getD i []) ≤ size (omissionNotice (omittedCount text opts)) := by
  have hcapped : cappedLines opts.maxLineChars text = (shownLines text opts).map fun line =>
      truncateLine (collapseInlineWhitespace line) opts.maxLineChars := by
    rw [← cappedLines_trim, ← h, cappedLines_join (isLine_shown text opts)]
  have hlength := normalised_length text opts
  rw [hcapped, List.length_map, hshown, List.length_append, keptLines_length,
    List.length_singleton] at hlength
  have hcount : (normalisedLines text opts).length = (cappedLines opts.maxLineChars text).length := by
    rw [hcapped, List.length_map, hshown, List.length_append, keptLines_length,
      List.length_singleton]
    omega
  have hnormalised : normalisedLines text opts = cappedLines opts.maxLineChars text :=
    (firstsBy_sublist _ _).eq_of_length hcount
  obtain ⟨i, hi, hout⟩ : ∃ i < (normalisedLines text opts).length, i ∉ keptPlaces text opts := by
    by_contra hall
    push Not at hall
    have hsubset : List.range (normalisedLines text opts).length ⊆ keptPlaces text opts :=
      fun i hi => hall i (List.mem_range.mp hi)
    have hle := (List.subperm_of_subset List.nodup_range hsubset).length_le
    rw [List.length_range] at hle
    omega
  refine ⟨i, hi, hout, ?_⟩
  have hsize := normalised_size hi hout (by omega)
  have hle : ((normalisedLines text opts).map size).sum ≤ ((shownLines text opts).map size).sum := by
    rw [hnormalised, hcapped, List.map_map]
    exact List.sum_le_sum fun line hline => size_again opts line (isLine_shown text opts line hline)
  rw [hsize, hshown, List.map_append, List.sum_append, List.map_singleton, List.sum_singleton] at hle
  omega

/-- Where the text comes back as it was, nothing was left out. -/
theorem nothing_omitted (h : join (js "\n") (shownLines text opts) = trim text) :
    removedDupes text opts = 0 ∧ omittedCount text opts = 0 := by
  rcases shownLines_cases text opts with hshown | ⟨hlt, hshown⟩
  · have hcapped : (cappedLines opts.maxLineChars text).length = (shownLines text opts).length := by
      rw [← cappedLines_trim, ← h, cappedLines_join (isLine_shown text opts), List.length_map]
    have hlength := normalised_length text opts
    have hsub := (chosenPlaces_sublist opts (normalisedLines text opts)).length_le
    rw [hcapped, hshown, keptLines_length] at hlength
    rw [List.length_range, ← keptPlaces] at hsub
    rw [omittedCount]
    omega
  · obtain ⟨i, hi, hout, hsize⟩ := exists_omitted_size h hshown hlt
    have hover := exceeds_of_not_mem opts (normalisedLines text opts) hi hout
    have hwithin := shownLines_within text opts
    have hfew : ((keptPlaces text opts).filter (ranksBefore (normalisedLines text opts) i)).length ≤
        (keptPlaces text opts).length := List.length_filter_le _ _
    have hsum : ((pick (normalisedLines text opts) ((keptPlaces text opts).filter
        (ranksBefore (normalisedLines text opts) i))).map size).sum ≤
          ((keptLines text opts).map size).sum :=
      ((List.filter_sublist.map _).map size).sum_le_sum fun _ _ => Nat.zero_le _
    refine absurd ?_ hwithin
    rw [hshown]
    rw [← keptPlaces] at hover
    simp only [Exceeds, joinedCharCount_eq, List.length_append, List.length_singleton,
      List.map_append, List.sum_append, List.map_singleton, List.sum_singleton, pick,
      List.length_map, keptLines_length] at hover hsum ⊢
    omega

variable (text opts)

/-- The lines that selection starts from are short, differ in more than case, and stand for
every line of the text. -/
theorem normalisedLines_spec :
    (∀ line ∈ normalisedLines text opts, size line ≤ max 1 opts.maxLineChars) ∧
      ((normalisedLines text opts).Pairwise fun a b => toLowerCase a ≠ toLowerCase b) ∧
      ∀ line ∈ cappedLines opts.maxLineChars text,
        ∃ kept ∈ normalisedLines text opts, toLowerCase kept = toLowerCase line := by
  refine ⟨?_, firstsBy_pairwise _ _, fun line hline => exists_mem_firstsBy _ hline⟩
  intro line hline
  exact (mem_cappedFrom ((firstsBy_sublist _ _).subset hline)).1

/-- What a compressed text is made of: lines at some places, and a notice of the others. -/
structure Compressed (result : CompressSummaryResult) (places : List Nat) : Prop where
  ordered : places.Sublist (List.range (normalisedLines text opts).length)
  lines : linesOf result.text = pick (normalisedLines text opts) places ∨
    places.length < (normalisedLines text opts).length ∧
      linesOf result.text = pick (normalisedLines text opts) places ++
        [omissionNotice ((normalisedLines text opts).length - places.length)]
  few : (linesOf result.text).length ≤ opts.maxLines
  short : size result.text ≤ opts.maxChars
  needed : ∀ i < (normalisedLines text opts).length, i ∉ places →
    Exceeds opts (pick (normalisedLines text opts)
      (places.filter (ranksBefore (normalisedLines text opts) i)) ++
        [(normalisedLines text opts).getD i []])
  whole : result.truncated = false ↔ result.text = trim text

variable {text opts}

/-- Without any room, or without any line, nothing is given. -/
theorem compressed_nothing
    (hnone : ((normalisedLines text opts).isEmpty || opts.maxChars == 0 || opts.maxLines == 0) = true) :
    Compressed text opts (compressSummary text opts) [] := by
  have hresult : compressSummary text opts = ⟨[], !(trim text).isEmpty⟩ := by
    rw [← dedupLines_normalised] at hnone
    rw [compressSummary]
    simp only [if_pos hnone]
  rw [hresult]
  refine ⟨List.nil_sublist _, Or.inl rfl, Nat.zero_le _, Nat.zero_le _, ?_, ?_⟩
  · intro i hi _
    simp only [Bool.or_eq_true, List.isEmpty_iff, beq_iff_eq] at hnone
    rcases hnone with (hnil | hchars) | hlines
    · rw [hnil] at hi
      exact absurd hi (Nat.not_lt_zero i)
    · have hmem : (normalisedLines text opts).getD i [] ∈ normalisedLines text opts := by
        rw [List.getD_eq_getElem?_getD, List.getElem?_eq_getElem hi]
        exact List.getElem_mem hi
      have hne := (isLine_normalised text opts hmem).ne_nil
      have hpos : 0 < size ((normalisedLines text opts).getD i []) :=
        List.length_pos_iff.mpr fun h => hne ((codePoints_eq_nil_iff _).mp h)
      right
      rw [hchars, List.filter_nil, pick, List.map_nil, List.nil_append, joinedCharCount_eq,
        List.map_singleton, List.sum_singleton]
      exact Nat.lt_of_lt_of_le hpos (Nat.le_add_right _ _)
    · left
      rw [hlines]
      exact Nat.succ_pos _
  · cases htrim : trim text with
    | nil => simp
    | cons u rest => simp

theorem compressed_shown
    (hroom : ¬ ((normalisedLines text opts).isEmpty || opts.maxChars == 0 || opts.maxLines == 0) = true) :
    Compressed text opts (compressSummary text opts) (keptPlaces text opts) := by
  have hlines : linesOf (join (js "\n") (shownLines text opts)) = shownLines text opts :=
    linesOf_join (isLine_shown text opts)
  have hwithin := shownLines_within text opts
  rw [Exceeds, not_or, Nat.not_lt, Nat.not_lt] at hwithin
  rw [compressSummary_eq text opts hroom]
  refine ⟨chosenPlaces_sublist opts _, ?_, ?_, ?_, fun i => exceeds_of_not_mem opts _, ?_⟩
  · rw [hlines]
    exact shownLines_cases text opts
  · rw [hlines]
    exact hwithin.1
  · have hnl : js "\n" = [10] := rfl
    rw [size, hnl, codePoints_join_length ⟨by decide, by decide⟩]
    exact hwithin.2
  · dsimp only
    constructor
    · intro h
      simp only [Bool.or_eq_false_iff, bne_eq_false_iff_eq] at h
      exact h.2
    · intro h
      obtain ⟨hdupes, homitted⟩ := nothing_omitted h
      simp [hdupes, homitted, h]

variable (text opts)

theorem compressSummary_short : size (compressSummary text opts).text ≤ opts.maxChars := by
  by_cases hroom :
      ((normalisedLines text opts).isEmpty || opts.maxChars == 0 || opts.maxLines == 0) = true
  · exact (compressed_nothing hroom).short
  · exact (compressed_shown hroom).short

theorem compressSummary_compressed :
    ∃ places, Compressed text opts (compressSummary text opts) places := by
  by_cases hroom :
      ((normalisedLines text opts).isEmpty || opts.maxChars == 0 || opts.maxLines == 0) = true
  · exact ⟨[], compressed_nothing hroom⟩
  · exact ⟨keptPlaces text opts, compressed_shown hroom⟩

end result

end Solarcido.Conversation
