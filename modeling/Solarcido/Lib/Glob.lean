import Mathlib.Data.List.Basic

namespace Solarcido.Glob

/-- A place of a pattern: any run of letters, any one letter, or one letter only. -/
inductive Mark (α : Type) where
  | run
  | one
  | only (a : α)
  deriving DecidableEq

def Mark.isWild {α : Type} : Mark α → Bool
  | .only _ => false
  | _ => true

variable {α : Type}

/-- The language of a pattern. -/
inductive Matches : List (Mark α) → List α → Prop
  | nil : Matches [] []
  | run {p : List (Mark α)} {s : List α} (first : List α) :
      Matches p s → Matches (.run :: p) (first ++ s)
  | one {p : List (Mark α)} {s : List α} (a : α) : Matches p s → Matches (.one :: p) (a :: s)
  | only {p : List (Mark α)} {s : List α} (a : α) : Matches p s → Matches (.only a :: p) (a :: s)

section inversion

variable {p q : List (Mark α)} {s t : List α} {a b : α}

theorem matches_nil_iff : Matches ([] : List (Mark α)) s ↔ s = [] := by
  constructor
  · intro h
    cases h
    rfl
  · rintro rfl
    exact .nil

theorem matches_run_iff : Matches (.run :: p) s ↔ ∃ first rest, s = first ++ rest ∧ Matches p rest := by
  constructor
  · intro h
    cases h with
    | run first h => exact ⟨first, _, rfl, h⟩
  · rintro ⟨first, rest, rfl, h⟩
    exact .run first h

theorem matches_one_iff : Matches (.one :: p) s ↔ ∃ a rest, s = a :: rest ∧ Matches p rest := by
  constructor
  · intro h
    cases h with
    | one a h => exact ⟨a, _, rfl, h⟩
  · rintro ⟨a, rest, rfl, h⟩
    exact .one a h

theorem matches_only_iff : Matches (.only a :: p) s ↔ ∃ rest, s = a :: rest ∧ Matches p rest := by
  constructor
  · intro h
    cases h with
    | only a h => exact ⟨_, rfl, h⟩
  · rintro ⟨rest, rfl, h⟩
    exact .only a h

theorem Matches.append (hp : Matches p s) (hq : Matches q t) : Matches (p ++ q) (s ++ t) := by
  induction hp with
  | nil => exact hq
  | run first _ ih =>
    rw [List.append_assoc]
    exact .run first ih
  | one a _ ih => exact .one a ih
  | only a _ ih => exact .only a ih

theorem matches_append_iff :
    Matches (p ++ q) s ↔ ∃ first rest, s = first ++ rest ∧ Matches p first ∧ Matches q rest := by
  constructor
  · intro h
    induction p generalizing s with
    | nil => exact ⟨[], s, rfl, .nil, h⟩
    | cons m p ih =>
      cases h with
      | run first h =>
        obtain ⟨middle, rest, rfl, hp, hq⟩ := ih h
        exact ⟨first ++ middle, rest, by rw [List.append_assoc], .run first hp, hq⟩
      | one a h =>
        obtain ⟨first, rest, rfl, hp, hq⟩ := ih h
        exact ⟨a :: first, rest, rfl, .one a hp, hq⟩
      | only a h =>
        obtain ⟨first, rest, rfl, hp, hq⟩ := ih h
        exact ⟨a :: first, rest, rfl, .only a hp, hq⟩
  · rintro ⟨first, rest, rfl, hp, hq⟩
    exact hp.append hq

theorem Matches.reverse (h : Matches p s) : Matches p.reverse s.reverse := by
  induction h with
  | nil => exact .nil
  | run first _ ih =>
    rw [List.reverse_cons, List.reverse_append]
    have hlast : Matches [Mark.run] first.reverse := by
      simpa using Matches.run first.reverse Matches.nil
    exact ih.append hlast
  | one a _ ih =>
    rw [List.reverse_cons, List.reverse_cons]
    exact ih.append (.one a .nil)
  | only a _ ih =>
    rw [List.reverse_cons, List.reverse_cons]
    exact ih.append (.only a .nil)

/-- A text fits the pattern read off it, with any letters in the place of the wildcards. -/
theorem matches_map {β : Type} (mark : β → Mark α) (fill : β → α)
    (h : ∀ b, mark b = .run ∨ mark b = .one ∨ mark b = .only (fill b)) (l : List β) :
    Matches (l.map mark) (l.map fill) := by
  induction l with
  | nil => exact .nil
  | cons b l ih =>
    rw [List.map_cons, List.map_cons]
    rcases h b with hb | hb | hb <;> rw [hb]
    · exact .run [fill b] ih
    · exact .one _ ih
    · exact .only _ ih

theorem matches_only_map_iff {β : Type} (letter : β → α) (l : List β) :
    Matches (l.map fun b => .only (letter b)) s ↔ s = l.map letter := by
  induction l generalizing s with
  | nil => exact matches_nil_iff
  | cons b l ih =>
    rw [List.map_cons, List.map_cons, matches_only_iff]
    constructor
    · rintro ⟨rest, rfl, h⟩
      rw [ih.mp h]
    · rintro rfl
      exact ⟨_, rfl, ih.mpr rfl⟩

end inversion

section surroundings

variable {p : List (Mark α)} {s : List α}

/-- A run of letters fits before the first letter of the pattern. -/
def OpensFreely (p : List (Mark α)) : Prop := .run ∈ p.takeWhile Mark.isWild

instance [DecidableEq α] (p : List (Mark α)) : Decidable (OpensFreely p) :=
  inferInstanceAs (Decidable (_ ∈ _))

theorem opensFreely_run : OpensFreely (.run :: p) := by
  rw [OpensFreely, List.takeWhile_cons_of_pos rfl]
  exact List.mem_cons_self

theorem opensFreely_one : OpensFreely (.one :: p) ↔ OpensFreely p := by
  rw [OpensFreely, List.takeWhile_cons_of_pos rfl, List.mem_cons]
  exact or_iff_right (by simp)

theorem not_opensFreely_only (a : α) : ¬ OpensFreely (.only a :: p) := by
  rw [OpensFreely, List.takeWhile_cons_of_neg (by simp [Mark.isWild])]
  exact List.not_mem_nil

theorem OpensFreely.prepend (h : OpensFreely p) (hs : Matches p s) (before : List α) :
    Matches p (before ++ s) := by
  induction p generalizing before s with
  | nil => cases h
  | cons m p ih =>
    cases hs with
    | run first hs =>
      rw [← List.append_assoc]
      exact .run (before ++ first) hs
    | one a hs =>
      have hp := opensFreely_one.mp h
      cases before with
      | nil => exact .one a hs
      | cons b before =>
        have hnext := ih hp hs (before ++ [a])
        rw [List.append_assoc] at hnext
        exact .one b hnext
    | only a hs => exact absurd h (not_opensFreely_only a)

theorem OpensFreely.surround (h : OpensFreely p) (hlast : OpensFreely p.reverse)
    (hs : Matches p s) (before after : List α) : Matches p (before ++ s ++ after) := by
  have hbehind := (hlast.prepend hs.reverse after.reverse).reverse
  rw [List.reverse_append, List.reverse_reverse, List.reverse_reverse, List.reverse_reverse]
    at hbehind
  rw [List.append_assoc]
  exact h.prepend hbehind before

/-- Where no run fits in front, enough of one letter does not. -/
theorem exists_unmatched_front (h : ¬ OpensFreely p) {x y : α} (hxy : x ≠ y) :
    ∃ a n, (a = x ∨ a = y) ∧ ∀ rest, ¬ Matches p (List.replicate (n + 1) a ++ rest) := by
  induction p with
  | nil =>
    refine ⟨x, 0, Or.inl rfl, ?_⟩
    intro rest hrest
    cases hrest
  | cons m p ih =>
    cases m with
    | run => exact absurd opensFreely_run h
    | one =>
      have hp := mt opensFreely_one.mpr h
      obtain ⟨a, n, ha, hnot⟩ := ih hp
      refine ⟨a, n + 1, ha, ?_⟩
      intro rest hrest
      cases hrest with
      | one _ hrest => exact hnot rest hrest
    | only c =>
      by_cases hc : x = c
      · refine ⟨y, 0, Or.inr rfl, ?_⟩
        intro rest hrest
        cases hrest with
        | only _ _ => exact hxy hc
      · refine ⟨x, 0, Or.inl rfl, ?_⟩
        intro rest hrest
        cases hrest with
        | only _ _ => exact hc rfl

theorem exists_unmatched_back (h : ¬ OpensFreely p.reverse) {x y : α} (hxy : x ≠ y) :
    ∃ a n, (a = x ∨ a = y) ∧ ∀ rest, ¬ Matches p (rest ++ List.replicate (n + 1) a) := by
  obtain ⟨a, n, ha, hnot⟩ := exists_unmatched_front h hxy
  refine ⟨a, n, ha, ?_⟩
  intro rest hrest
  have hreverse := hrest.reverse
  rw [List.reverse_append, List.reverse_replicate] at hreverse
  exact hnot _ hreverse

end surroundings

end Solarcido.Glob
