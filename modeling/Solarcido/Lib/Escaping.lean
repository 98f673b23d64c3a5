import Mathlib.Data.List.Basic

namespace Solarcido.Escaping

variable {α : Type} [DecidableEq α]

section escape

variable (mark sep : α)

def escapeOne (a : α) : List α := if a = mark ∨ a = sep then [mark, a] else [a]

/-- The mark stands before each mark and each separator of a part. -/
def escape (part : List α) : List α := part.flatMap (escapeOne mark sep)

def joined (parts : List (List α)) : List α := [sep].intercalate (parts.map (escape mark sep))

/-- The first of the parts gets an element in front. -/
def prepend (a : α) : List (List α) → List (List α)
  | [] => [[a]]
  | part :: parts => (a :: part) :: parts

/-- The parts of a list: what stands behind a mark is taken as it is, a separator ends a part. -/
def parts : List α → List (List α)
  | [] => [[]]
  | [a] => if a = mark then [[]] else if a = sep then [[], []] else [[a]]
  | a :: b :: rest =>
    if a = mark then prepend b (parts rest)
    else if a = sep then [] :: parts (b :: rest)
    else prepend a (parts (b :: rest))

end escape

variable {mark sep a : α} {rest : List α}

theorem parts_mark (a : α) (rest : List α) :
    parts mark sep (mark :: a :: rest) = prepend a (parts mark sep rest) := by
  rw [parts, if_pos rfl]

theorem parts_sep (h : mark ≠ sep) (rest : List α) :
    parts mark sep (sep :: rest) = [] :: parts mark sep rest := by
  cases rest with
  | nil => rw [parts, parts, if_neg h.symm, if_pos rfl]
  | cons b rest => rw [parts, if_neg h.symm, if_pos rfl]

theorem parts_plain (hmark : a ≠ mark) (hsep : a ≠ sep) (rest : List α) :
    parts mark sep (a :: rest) = prepend a (parts mark sep rest) := by
  cases rest with
  | nil =>
    rw [parts, parts, if_neg hmark, if_neg hsep]
    rfl
  | cons b rest => rw [parts, if_neg hmark, if_neg hsep]

theorem parts_escapeOne (a : α) (rest : List α) :
    parts mark sep (escapeOne mark sep a ++ rest) = prepend a (parts mark sep rest) := by
  rw [escapeOne]
  split
  · exact parts_mark a rest
  · next h =>
    obtain ⟨hmark, hsep⟩ := not_or.mp h
    exact parts_plain hmark hsep rest

/-- An escaped part goes in front of the first of the parts behind it. -/
theorem parts_escape (part rest : List α) :
    parts mark sep (escape mark sep part ++ rest) =
      part.foldr prepend (parts mark sep rest) := by
  induction part with
  | nil => rfl
  | cons a part ih =>
    rw [escape, List.flatMap_cons, List.append_assoc, parts_escapeOne, List.foldr_cons, ← ih]
    rfl

omit [DecidableEq α] in
theorem foldr_prepend (part first : List α) (others : List (List α)) :
    part.foldr prepend (first :: others) = (part ++ first) :: others := by
  induction part with
  | nil => rfl
  | cons a part ih =>
    rw [List.foldr_cons, ih]
    rfl

/-- The parts of a joined list are the parts it was joined from. -/
theorem parts_joined (h : mark ≠ sep) (first : List α) (others : List (List α)) :
    parts mark sep (joined mark sep (first :: others)) = first :: others := by
  induction others generalizing first with
  | nil =>
    have hone : parts mark sep (escape mark sep first ++ []) = _ := parts_escape first []
    rw [List.append_nil, parts, foldr_prepend, List.append_nil] at hone
    rw [joined, List.map_singleton, List.intercalate_singleton]
    exact hone
  | cons second others ih =>
    have hrest := ih second
    rw [joined, List.map_cons] at hrest
    rw [joined, List.map_cons, List.map_cons, List.intercalate_cons_cons, List.append_assoc,
      parts_escape, List.singleton_append, parts_sep h, hrest, foldr_prepend, List.append_nil]

theorem joined_inj (h : mark ≠ sep) {first first' : List α} {others others' : List (List α)} :
    joined mark sep (first :: others) = joined mark sep (first' :: others') ↔
      first :: others = first' :: others' := by
  constructor
  · intro heq
    rw [← parts_joined h first others, heq, parts_joined h]
  · intro heq
    rw [heq]

end Solarcido.Escaping
