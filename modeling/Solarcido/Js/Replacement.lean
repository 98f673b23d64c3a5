import Solarcido.Js.Text

namespace Solarcido.Text

open Search

section patterns

/-- A dollar with a unit behind it that makes a pattern of the two. -/
def hasPattern : JsString → Bool
  | u :: v :: rest => (u == 36 && (v == 36 || v == 38 || v == 96 || v == 39)) || hasPattern (v :: rest)
  | _ => false

variable {before found after s : JsString}

theorem hasPattern_append {t : JsString} (hs : 36 ∉ s) : hasPattern (s ++ t) = hasPattern t := by
  induction s with
  | nil => rfl
  | cons u s ih =>
    have hu : u ≠ 36 := fun h => hs (by simp [h])
    rw [← ih fun h => hs (List.mem_cons_of_mem u h), List.cons_append]
    cases s ++ t with
    | nil => rfl
    | cons v rest => simp [hasPattern, hu]

theorem expandReplacement_of_plain (h : hasPattern s = false) :
    expandReplacement before found after s = s := by
  induction s with
  | nil => rfl
  | cons u s ih =>
    cases s with
    | nil => rfl
    | cons v rest =>
      simp only [hasPattern, Bool.or_eq_false_iff, Bool.and_eq_false_iff, beq_eq_false_iff_ne] at h
      obtain ⟨hhead, hrest⟩ := h
      rw [expandReplacement, ih hrest, if_neg, if_neg, if_neg, if_neg]
      all_goals
        rintro ⟨rfl, rfl⟩
        simp at hhead

/-- A replacement that brings in the match, or has no more dollars than before, and fewer
where there is a pattern. -/
def Unsettled (found s expanded : JsString) : Prop :=
  found <:+: expanded ∨ expanded.count 36 ≤ s.count 36 ∧
    (hasPattern s = true → expanded.count 36 < s.count 36)

theorem unsettled_pattern {rest expanded : JsString} (v : UInt16) (x : JsString)
    (hx : x.count 36 < [36, v].count 36) (h : Unsettled found rest expanded) :
    Unsettled found (36 :: v :: rest) (x ++ expanded) := by
  rcases h with h | ⟨h, -⟩
  · exact Or.inl (h.trans (List.suffix_append x expanded).isInfix)
  · have hlt : (x ++ expanded).count 36 < (36 :: v :: rest).count 36 := by
      have hsplit : 36 :: v :: rest = [36, v] ++ rest := rfl
      rw [hsplit, List.count_append, List.count_append]
      omega
    exact Or.inr ⟨Nat.le_of_lt hlt, fun _ => hlt⟩

/-- With no dollar around the match, each pattern brings in the match or loses a dollar. -/
theorem expandReplacement_unsettled (hbefore : 36 ∉ before) (hafter : 36 ∉ after)
    (s : JsString) : Unsettled found s (expandReplacement before found after s) := by
  induction s using expandReplacement.induct with
  | case1 => simp [Unsettled, expandReplacement, hasPattern]
  | case2 u => simp [Unsettled, expandReplacement, hasPattern]
  | case3 u v rest h ih =>
    obtain ⟨rfl, rfl⟩ := h
    rw [expandReplacement, if_pos ⟨rfl, rfl⟩]
    exact unsettled_pattern 36 [36] (by decide) ih
  | case4 u v rest _ h ih =>
    obtain ⟨rfl, rfl⟩ := h
    rw [expandReplacement, if_neg (by decide), if_pos ⟨rfl, rfl⟩]
    exact Or.inl (List.prefix_append _ _).isInfix
  | case5 u v rest _ _ h ih =>
    obtain ⟨rfl, rfl⟩ := h
    rw [expandReplacement, if_neg (by decide), if_neg (by decide), if_pos ⟨rfl, rfl⟩]
    exact unsettled_pattern 96 before (by rw [List.count_eq_zero.mpr hbefore]; decide) ih
  | case6 u v rest _ _ _ h ih =>
    obtain ⟨rfl, rfl⟩ := h
    rw [expandReplacement, if_neg (by decide), if_neg (by decide), if_neg (by decide),
      if_pos ⟨rfl, rfl⟩]
    exact unsettled_pattern 39 after (by rw [List.count_eq_zero.mpr hafter]; decide) ih
  | case7 u v rest h1 h2 h3 h4 ih =>
    rw [expandReplacement, if_neg h1, if_neg h2, if_neg h3, if_neg h4]
    have hhead : (u == 36 && (v == 36 || v == 38 || v == 96 || v == 39)) = false := by
      simp only [Bool.and_eq_false_iff, beq_eq_false_iff_ne, Bool.or_eq_false_iff]
      by_cases hu : u = 36
      · exact Or.inr ⟨⟨⟨fun h => h1 ⟨hu, h⟩, fun h => h2 ⟨hu, h⟩⟩, fun h => h3 ⟨hu, h⟩⟩,
          fun h => h4 ⟨hu, h⟩⟩
      · exact Or.inl hu
    rcases ih with h | ⟨hle, hlt⟩
    · exact Or.inl (h.trans (List.suffix_cons u _).isInfix)
    · refine Or.inr ⟨?_, ?_⟩
      · rw [List.count_cons, List.count_cons]
        omega
      · intro hpattern
        rw [hasPattern, hhead, Bool.false_or] at hpattern
        rw [List.count_cons, List.count_cons]
        exact Nat.add_lt_add_right (hlt hpattern) _

end patterns

section ink

/-- What a text has besides its white space. -/
def ink (s : JsString) : JsString := s.filter fun u => !isWhiteSpace u

theorem ink_append (s t : JsString) : ink (s ++ t) = ink s ++ ink t := List.filter_append s t

theorem ink_trim (s : JsString) : ink (trim s) = ink s := by
  apply trim_unseen ink
  · intro u s hu
    simp [ink, hu]
  · intro u s hu
    simp [ink, hu]

theorem ink_flatMap_split (c : UInt16) (hc : isWhiteSpace c = true) (s : JsString) :
    (split s [c]).flatMap ink = ink s := by
  suffices h : ∀ piece, (splitFrom [c] 0 piece s).flatMap ink = ink piece.reverse ++ ink s from
    h []
  induction s with
  | nil => simp [splitFrom, ink]
  | cons u s ih =>
    intro piece
    by_cases hu : c = u
    · subst hu
      rw [splitFrom_sep, List.flatMap_cons, ih []]
      simp [ink, hc]
    · rw [splitFrom_unit c hu, ih, List.reverse_cons, ink_append, List.append_assoc,
        ← ink_append, List.singleton_append]

theorem ink_join (c : UInt16) (hc : isWhiteSpace c = true) (parts : List JsString) :
    ink (join [c] parts) = parts.flatMap ink := by
  induction parts with
  | nil => rfl
  | cons first parts ih =>
    cases parts with
    | nil => simp [join]
    | cons second parts =>
      have hjoin : join [c] (first :: second :: parts) = first ++ c :: join [c] (second :: parts) := by
        simp [join]
      rw [hjoin, ink_append, List.flatMap_cons, ← ih]
      simp [ink, hc]

end ink

/-- `s.replace(/u/g, replacement)` for one unit and a replacement without a pattern. -/
def replaceUnit (u : UInt16) (replacement s : JsString) : JsString :=
  s.flatMap fun v => if v = u then replacement else [v]

end Solarcido.Text
