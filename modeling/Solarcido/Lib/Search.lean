import Mathlib.Data.List.Basic

namespace Solarcido.Search

variable {α : Type} [BEq α] [LawfulBEq α]

/-- The position of the first occurrence of a pattern in a list. -/
def firstIndexOf (pat : List α) : List α → Option Nat
  | [] => if pat.isEmpty then some 0 else none
  | a :: rest =>
    if pat.isPrefixOf (a :: rest) then some 0 else (firstIndexOf pat rest).map (· + 1)

theorem firstIndexOf_of_prefix (pat : List α) (hpat : pat ≠ []) (t : List α) :
    firstIndexOf pat (pat ++ t) = some 0 := by
  cases pat with
  | nil => exact absurd rfl hpat
  | cons p ps =>
    have h : (p :: ps).isPrefixOf ((p :: ps) ++ t) = true := by
      rw [List.isPrefixOf_iff_prefix]
      exact List.prefix_append _ _
    simp only [List.cons_append] at h ⊢
    rw [firstIndexOf, if_pos h]

theorem not_prefix_of_head_ne (p a : α) (ps s : List α) (h : p ≠ a) :
    (p :: ps).isPrefixOf (a :: s) = false := by
  simp [List.isPrefixOf, h]

/-- An occurrence starts with the pattern's first element, so a stretch
without that element is skipped. -/
theorem firstIndexOf_skip (p : α) (ps s t : List α) (hs : p ∉ s) :
    firstIndexOf (p :: ps) (s ++ ((p :: ps) ++ t)) = some s.length := by
  induction s with
  | nil => exact firstIndexOf_of_prefix (p :: ps) (by simp) t
  | cons a s ih =>
    have ha : p ≠ a := fun h => hs (by simp [h])
    have hs' : p ∉ s := fun h => hs (by simp [h])
    rw [List.cons_append, firstIndexOf, not_prefix_of_head_ne p a _ _ ha, ih hs']
    simp

theorem firstIndexOf_fits (pat s : List α) (i : Nat) (h : firstIndexOf pat s = some i) :
    i + pat.length ≤ s.length := by
  induction s generalizing i with
  | nil =>
    cases pat with
    | nil =>
      simp only [firstIndexOf, List.isEmpty_nil, if_true, Option.some.injEq] at h
      simp [← h]
    | cons p ps => simp [firstIndexOf] at h
  | cons a s ih =>
    rw [firstIndexOf] at h
    split at h
    · next hp =>
      have hlen := (List.isPrefixOf_iff_prefix.mp hp).length_le
      simp only [Option.some.injEq] at h
      omega
    · obtain ⟨j, hj, rfl⟩ := Option.map_eq_some_iff.mp h
      have := ih j hj
      simp only [List.length_cons]
      omega

/-- What lies behind the first occurrence does not move it. -/
theorem firstIndexOf_append (pat s t : List α) (i : Nat)
    (h : firstIndexOf pat s = some i) : firstIndexOf pat (s ++ t) = some i := by
  induction s generalizing i with
  | nil =>
    cases pat with
    | nil => cases t <;> simp_all [firstIndexOf]
    | cons p ps => simp [firstIndexOf] at h
  | cons a s ih =>
    have hfit := firstIndexOf_fits pat (a :: s) i h
    rw [firstIndexOf] at h
    rw [List.cons_append, firstIndexOf]
    by_cases hp : pat.isPrefixOf (a :: s) = true
    · rw [if_pos hp] at h
      have hpt : pat <+: a :: (s ++ t) :=
        (List.isPrefixOf_iff_prefix.mp hp).trans (List.prefix_append (a :: s) t)
      rw [if_pos (List.isPrefixOf_iff_prefix.mpr hpt)]
      exact h
    · rw [if_neg hp] at h
      obtain ⟨j, hj, rfl⟩ := Option.map_eq_some_iff.mp h
      have hpt : ¬ pat.isPrefixOf (a :: (s ++ t)) = true := by
        rw [List.isPrefixOf_iff_prefix] at hp ⊢
        intro hc
        exact hp (List.prefix_of_prefix_length_le hc (List.prefix_append (a :: s) t) (by omega))
      rw [if_neg hpt, ih j hj]
      rfl

theorem firstIndexOf_eq_none_iff {pat : List α} (hpat : pat ≠ []) (s : List α) :
    firstIndexOf pat s = none ↔ ∀ j, ¬ pat <+: s.drop j := by
  induction s with
  | nil =>
    cases pat with
    | nil => exact absurd rfl hpat
    | cons p ps => simp [firstIndexOf]
  | cons a s ih =>
    rw [firstIndexOf]
    by_cases hp : pat.isPrefixOf (a :: s) = true
    · rw [if_pos hp]
      constructor
      · intro h
        cases h
      · intro h
        exact absurd (List.isPrefixOf_iff_prefix.mp hp) (h 0)
    · rw [if_neg hp, Option.map_eq_none_iff, ih]
      constructor
      · intro h j
        cases j with
        | zero => exact fun hc => hp (List.isPrefixOf_iff_prefix.mpr hc)
        | succ j => exact h j
      · intro h j
        exact h (j + 1)

theorem firstIndexOf_eq_some_iff {pat : List α} (hpat : pat ≠ []) (s : List α) (i : Nat) :
    firstIndexOf pat s = some i ↔ pat <+: s.drop i ∧ ∀ j < i, ¬ pat <+: s.drop j := by
  induction s generalizing i with
  | nil =>
    cases pat with
    | nil => exact absurd rfl hpat
    | cons p ps => simp [firstIndexOf]
  | cons a s ih =>
    rw [firstIndexOf]
    by_cases hp : pat.isPrefixOf (a :: s) = true
    · rw [if_pos hp]
      have hfirst : pat <+: a :: s := List.isPrefixOf_iff_prefix.mp hp
      constructor
      · intro h
        obtain rfl := Option.some.inj h
        exact ⟨hfirst, fun j hj => absurd hj (Nat.not_lt_zero j)⟩
      · rintro ⟨-, hbefore⟩
        by_contra hi
        exact hbefore 0 (Nat.pos_of_ne_zero fun h0 => hi (by rw [h0])) hfirst
    · rw [if_neg hp]
      have hfirst : ¬ pat <+: a :: s := fun hc => hp (List.isPrefixOf_iff_prefix.mpr hc)
      cases i with
      | zero =>
        constructor
        · intro h
          obtain ⟨j, -, hj⟩ := Option.map_eq_some_iff.mp h
          omega
        · rintro ⟨h, -⟩
          exact absurd h hfirst
      | succ i =>
        rw [Option.map_eq_some_iff]
        simp only [Nat.add_right_cancel_iff, exists_eq_right, ih, List.drop_succ_cons]
        refine and_congr_right fun _ => ⟨fun h j hj => ?_, fun h j hj => h (j + 1) (by omega)⟩
        cases j with
        | zero => exact hfirst
        | succ j => exact h j (by omega)

theorem firstIndexOf_isSome_iff (pat s : List α) :
    (firstIndexOf pat s).isSome = true ↔ pat <:+: s := by
  induction s with
  | nil => cases pat <;> simp [firstIndexOf]
  | cons a s ih =>
    rw [firstIndexOf, List.infix_cons_iff, ← List.isPrefixOf_iff_prefix, ← ih]
    cases pat.isPrefixOf (a :: s) <;> simp

omit [BEq α] [LawfulBEq α] in
theorem cons_prefix_drop_iff (p : α) (ps s : List α) (i : Nat) :
    p :: ps <+: s.drop i ↔ s[i]? = some p ∧ ps <+: s.drop (i + 1) := by
  induction s generalizing i with
  | nil => simp
  | cons a s ih =>
    cases i with
    | zero => simp [eq_comm]
    | succ i => simpa using ih i

section pieces

/-- The pieces between the occurrences that a scan from the left finds: `skip` elements
of the current occurrence are still to be passed over. -/
def piecesFrom (pat : List α) : Nat → List α → List α → List (List α)
  | _, piece, [] => [piece.reverse]
  | skip + 1, piece, _ :: rest => piecesFrom pat skip piece rest
  | 0, piece, a :: rest =>
    if pat.isPrefixOf (a :: rest) then piece.reverse :: piecesFrom pat (pat.length - 1) [] rest
    else piecesFrom pat 0 (a :: piece) rest

def pieces (pat s : List α) : List (List α) := piecesFrom pat 0 [] s

variable {pat : List α}

omit [LawfulBEq α] in
theorem piecesFrom_skip (skip : Nat) (piece s : List α) (h : skip ≤ s.length) :
    piecesFrom pat skip piece s = piecesFrom pat 0 piece (s.drop skip) := by
  induction skip generalizing s with
  | zero => rw [List.drop_zero]
  | succ skip ih =>
    cases s with
    | nil => simp at h
    | cons a s =>
      rw [piecesFrom, List.drop_succ_cons]
      exact ih s (by simpa using h)

theorem piecesFrom_eq (hpat : pat ≠ []) (piece s : List α) :
    piecesFrom pat 0 piece s = match firstIndexOf pat s with
      | none => [piece.reverse ++ s]
      | some i => (piece.reverse ++ s.take i) :: pieces pat (s.drop (i + pat.length)) := by
  induction s generalizing piece with
  | nil =>
    rw [firstIndexOf, if_neg (by simpa using hpat), piecesFrom, List.append_nil]
  | cons a s ih =>
    rw [piecesFrom, firstIndexOf]
    by_cases hp : pat.isPrefixOf (a :: s) = true
    · have hlen := (List.isPrefixOf_iff_prefix.mp hp).length_le
      have hpos := List.length_pos_iff.mpr hpat
      rw [List.length_cons] at hlen
      have hdrop : (a :: s).drop (0 + pat.length) = s.drop (pat.length - 1) := by
        obtain ⟨k, hk⟩ := Nat.exists_eq_succ_of_ne_zero (Nat.ne_of_gt hpos)
        rw [Nat.zero_add, hk, List.drop_succ_cons, Nat.succ_sub_one]
      simp only [hp, if_true, List.take_zero, List.append_nil, hdrop]
      rw [piecesFrom_skip _ _ _ (by omega), pieces]
    · rw [if_neg hp, if_neg hp, ih]
      cases firstIndexOf pat s with
      | none => simp
      | some i =>
        have hdrop : (a :: s).drop (i + 1 + pat.length) = s.drop (i + pat.length) := by
          rw [Nat.add_right_comm, List.drop_succ_cons]
        simp [hdrop]

theorem pieces_eq (hpat : pat ≠ []) (s : List α) :
    pieces pat s = match firstIndexOf pat s with
      | none => [s]
      | some i => s.take i :: pieces pat (s.drop (i + pat.length)) :=
  piecesFrom_eq hpat [] s

omit [LawfulBEq α] in
theorem pieces_length_pos (s : List α) : 0 < (pieces pat s).length := by
  suffices h : ∀ skip piece, 0 < (piecesFrom pat skip piece s).length from h 0 []
  induction s with
  | nil => exact fun _ _ => Nat.one_pos
  | cons a s ih =>
    intro skip piece
    cases skip with
    | succ skip => exact ih skip piece
    | zero =>
      rw [piecesFrom]
      split
      · exact Nat.succ_pos _
      · exact ih 0 (a :: piece)

end pieces

section occurrences

/-- A pattern stands at a position. -/
def Occurs (pat s : List α) (i : Nat) : Prop := pat <+: s.drop i

instance {β : Type} [DecidableEq β] (pat s : List β) (i : Nat) : Decidable (Occurs pat s i) :=
  inferInstanceAs (Decidable (pat <+: s.drop i))

/-- A pattern stands at one position and no other. -/
def OccursOnce (pat s : List α) : Prop := ∃ i, Occurs pat s i ∧ ∀ j, Occurs pat s j → j = i

variable {pat s : List α}

theorem pieces_length_one_iff (hpat : pat ≠ []) :
    (pieces pat s).length = 1 ↔ ∀ i, ¬ Occurs pat s i := by
  unfold Occurs
  rw [pieces_eq hpat, ← firstIndexOf_eq_none_iff hpat]
  cases firstIndexOf pat s with
  | none => simp
  | some i =>
    have hpos : 0 < (pieces pat (s.drop (i + pat.length))).length := pieces_length_pos _
    simp only [List.length_cons, reduceCtorEq, iff_false]
    omega

/-- A scan finds one occurrence if all others overlap the first one. -/
theorem pieces_length_two_iff (hpat : pat ≠ []) : (pieces pat s).length = 2 ↔
    ∃ i, firstIndexOf pat s = some i ∧ ∀ j, i + pat.length ≤ j → ¬ Occurs pat s j := by
  rw [pieces_eq hpat]
  cases firstIndexOf pat s with
  | none => simp
  | some i =>
    simp only [List.length_cons, Nat.reduceEqDiff, Option.some.injEq, exists_eq_left']
    rw [pieces_length_one_iff hpat]
    constructor
    · intro h j hj hocc
      apply h (j - (i + pat.length))
      rw [Occurs, List.drop_drop, Nat.add_sub_cancel' hj]
      exact hocc
    · intro h j hocc
      apply h (i + pat.length + j) (Nat.le_add_right _ _)
      rw [Occurs, List.drop_drop] at hocc
      exact hocc

theorem firstIndexOf_of_once {i : Nat} (hpat : pat ≠ []) (hocc : Occurs pat s i)
    (honly : ∀ j, Occurs pat s j → j = i) : firstIndexOf pat s = some i := by
  rw [firstIndexOf_eq_some_iff hpat]
  exact ⟨hocc, fun j hj h => absurd (honly j h) (Nat.ne_of_lt hj)⟩

/-- What stands around the only occurrence. -/
theorem pieces_of_once {before after : List α} (hpat : pat ≠ [])
    (honce : OccursOnce pat (before ++ pat ++ after)) :
    firstIndexOf pat (before ++ pat ++ after) = some before.length ∧
      pieces pat (before ++ pat ++ after) = [before, after] := by
  have hocc : Occurs pat (before ++ pat ++ after) before.length := by
    rw [Occurs, List.append_assoc, List.drop_left]
    exact List.prefix_append _ _
  obtain ⟨i, -, honly⟩ := honce
  have honly' : ∀ j, Occurs pat (before ++ pat ++ after) j → j = before.length := by
    intro j hj
    rw [honly j hj, honly before.length hocc]
  have hfirst := firstIndexOf_of_once hpat hocc honly'
  refine ⟨hfirst, ?_⟩
  have hbehind : (before ++ pat ++ after).drop (before.length + pat.length) = after := by
    rw [← List.length_append, List.drop_left]
  have hrest : pieces pat after = [after] := by
    have hnone : firstIndexOf pat after = none := by
      rw [firstIndexOf_eq_none_iff hpat]
      intro j hj
      have hpos := List.length_pos_iff.mpr hpat
      rw [← hbehind, List.drop_drop] at hj
      have hsame := honly' _ hj
      omega
    rw [pieces_eq hpat, hnone]
  rw [pieces_eq hpat, hfirst]
  dsimp only
  rw [hbehind, hrest, List.append_assoc, List.take_left]

end occurrences

end Solarcido.Search
