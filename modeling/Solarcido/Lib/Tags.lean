import Mathlib.Data.List.Infix
import Solarcido.Lib.Search

namespace Solarcido.Tags

open Search

variable {α : Type} [DecidableEq α]

/-- A pattern that starts with an element it has nowhere else. -/
structure Headed (p : α) (pat : List α) : Prop where
  head : pat.head? = some p
  alone : p ∉ pat.tail

/-- Of two patterns neither starts with the other. -/
structure Unlike (pat other : List α) : Prop where
  left : ¬ pat <+: other
  right : ¬ other <+: pat

section patterns

variable {p : α} {pat other s t : List α} {i j : Nat}

omit [DecidableEq α] in
theorem Headed.eq_cons (hpat : Headed p pat) : pat = p :: pat.tail :=
  List.eq_cons_of_mem_head? hpat.head

omit [DecidableEq α] in
theorem Headed.ne_nil (hpat : Headed p pat) : pat ≠ [] := by
  rw [hpat.eq_cons]
  exact List.cons_ne_nil p _

omit [DecidableEq α] in
theorem Headed.length_pos (hpat : Headed p pat) : 0 < pat.length :=
  List.length_pos_iff.mpr hpat.ne_nil

omit [DecidableEq α] in
theorem Headed.get_of_occurs (hpat : Headed p pat) (h : Occurs pat s i) : s[i]? = some p := by
  rw [Occurs, hpat.eq_cons, cons_prefix_drop_iff] at h
  exact h.1

omit [DecidableEq α] in
theorem occurs_length (hpos : 0 < pat.length) (h : Occurs pat s i) :
    i + pat.length ≤ s.length := by
  have hlength := h.length_le
  rw [List.length_drop] at hlength
  omega

omit [DecidableEq α] in
/-- Where a pattern stands its first element does not come again. -/
theorem Headed.apart (hpat : Headed p pat) (h : Occurs pat s i) (hget : s[j]? = some p)
    (hlt : i < j) : i + pat.length ≤ j := by
  by_contra hinside
  apply hpat.alone
  obtain ⟨more, hmore⟩ := h
  have hin : (pat.tail)[j - i - 1]? = some p := by
    rw [List.getElem?_tail, Nat.sub_add_cancel (by omega), ← hget]
    rw [← Nat.add_sub_cancel' hlt.le, ← List.getElem?_drop, ← hmore,
      List.getElem?_append_left (by omega), Nat.add_sub_cancel_left]
  exact List.mem_of_getElem? hin

omit [DecidableEq α] in
theorem occurs_append_right : Occurs pat (s ++ t) (s.length + i) ↔ Occurs pat t i := by
  rw [Occurs, Occurs, List.drop_append, List.drop_eq_nil_of_le (Nat.le_add_right _ _),
    List.nil_append, Nat.add_sub_cancel_left]

omit [DecidableEq α] in
theorem occurs_append_left (hle : i + pat.length ≤ s.length) :
    Occurs pat (s ++ t) i ↔ Occurs pat s i := by
  rw [Occurs, Occurs, List.drop_append_of_le_length (by omega)]
  constructor
  · intro h
    apply List.prefix_of_prefix_length_le h (List.prefix_append _ t)
    rw [List.length_drop]
    omega
  · exact fun h => h.trans (List.prefix_append _ t)

omit [DecidableEq α] in
/-- A pattern across a seam has its first part in front of it and its last part behind. -/
theorem occurs_across (hleft : i ≤ s.length) (hright : s.length ≤ i + pat.length) :
    Occurs pat (s ++ t) i ↔
      pat.take (s.length - i) <:+ s ∧ pat.drop (s.length - i) <+: t := by
  rw [Occurs, List.drop_append_of_le_length hleft]
  have hlength : (s.drop i).length = (pat.take (s.length - i)).length := by
    rw [List.length_drop, List.length_take]
    omega
  constructor
  · rintro ⟨more, hmore⟩
    rw [← List.take_append_drop (s.length - i) pat, List.append_assoc] at hmore
    obtain ⟨hfirst, hlast⟩ := List.append_inj hmore hlength.symm
    refine ⟨?_, more, hlast⟩
    rw [hfirst]
    exact List.drop_suffix i s
  · rintro ⟨hfirst, hlast⟩
    have hsame : pat.take (s.length - i) = s.drop i :=
      (List.IsSuffix.eq_of_length (List.suffix_of_suffix_length_le hfirst (List.drop_suffix i s)
        hlength.symm.le) hlength.symm)
    nth_rewrite 1 [← List.take_append_drop (s.length - i) pat]
    rw [hsame]
    exact (List.prefix_append_right_inj _).mpr hlast

/-- A pattern is not found across the start of a text that begins with its first element. -/
theorem firstIndexOf_append_of_head (hpat : Headed p pat) (hnone : firstIndexOf pat s = none)
    (hhead : t.head? = some p) :
    firstIndexOf pat (s ++ t) = (firstIndexOf pat t).map (s.length + ·) := by
  induction s with
  | nil => simp
  | cons a s ih =>
    rw [firstIndexOf] at hnone
    split at hnone
    · cases hnone
    · next hnot =>
      have hrest : firstIndexOf pat s = none := Option.map_eq_none_iff.mp hnone
      have hstill : ¬ pat.isPrefixOf (a :: s ++ t) = true := by
        intro hprefix
        have hocc : Occurs pat (a :: s ++ t) 0 := List.isPrefixOf_iff_prefix.mp hprefix
        have hget : (a :: s ++ t)[(a :: s).length]? = some p := by
          rw [List.getElem?_append_right (Nat.le_refl _), Nat.sub_self, ← List.head?_eq_getElem?]
          exact hhead
        have hle := hpat.apart hocc hget (Nat.succ_pos _)
        exact hnot (List.isPrefixOf_iff_prefix.mpr ((occurs_append_left hle).mp hocc))
      rw [List.cons_append] at hstill
      rw [List.cons_append, firstIndexOf, if_neg hstill, ih hrest, Option.map_map]
      congr 1
      funext i
      simp only [Function.comp_apply, List.length_cons]
      omega

omit [DecidableEq α] in
theorem Unlike.not_occurs (h : Unlike pat other) (hocc : Occurs pat s i) : ¬ Occurs other s i := by
  intro hother
  rcases List.prefix_or_prefix_of_prefix hocc hother with hleft | hright
  · exact h.left hleft
  · exact h.right hright

/-- A pattern is not found inside another with the same first element. -/
theorem firstIndexOf_append_other (hpat : Headed p pat) (hother : Headed p other)
    (hunlike : Unlike pat other) :
    firstIndexOf pat (other ++ t) = (firstIndexOf pat t).map (other.length + ·) := by
  have hskip : ∀ u : List α, p ∉ u →
      firstIndexOf pat (u ++ t) = (firstIndexOf pat t).map (u.length + ·) := by
    intro u hu
    induction u with
    | nil => simp
    | cons a u ih =>
      have ha : p ≠ a := fun h => hu (by simp [h])
      have hnot : ¬ pat.isPrefixOf (a :: (u ++ t)) = true := by
        rw [hpat.eq_cons, not_prefix_of_head_ne p a _ _ ha]
        exact Bool.false_ne_true
      rw [List.cons_append, firstIndexOf, if_neg hnot,
        ih fun h => hu (List.mem_cons_of_mem a h), Option.map_map]
      congr 1
      funext i
      simp only [Function.comp_apply, List.length_cons]
      omega
  have hnot : ¬ pat.isPrefixOf (p :: (other.tail ++ t)) = true := by
    rw [List.isPrefixOf_iff_prefix, ← List.cons_append, ← hother.eq_cons]
    intro hprefix
    have hocc : Occurs pat (other ++ t) 0 := hprefix
    exact hunlike.not_occurs hocc (List.prefix_append other t)
  have hlength : other.length = other.tail.length + 1 := by
    rw [hother.eq_cons]
    rfl
  nth_rewrite 1 [hother.eq_cons]
  rw [List.cons_append, firstIndexOf, if_neg hnot, hskip _ hother.alone, Option.map_map, hlength]
  congr 1
  funext i
  simp only [Function.comp_apply]
  omega

end patterns

section blocks

variable (opn close : List α)

/-- A closing tag somewhere behind an opening one. -/
def HasBlock (s : List α) : Prop :=
  ∃ i j, Occurs opn s i ∧ i + opn.length ≤ j ∧ Occurs close s j

/-- The end of one text and the start of another make an opening tag, and a closing one
follows it. -/
def Rejoined (before after : List α) : Prop :=
  ∃ k, 0 < k ∧ k < opn.length ∧ opn.take k <:+ before ∧ opn.drop k <+: after ∧
    ∃ j, opn.length - k ≤ j ∧ Occurs close after j

/-- The text without what stands from the first opening tag to the first closing one. -/
def stripFirst (s : List α) : List α :=
  match firstIndexOf opn s, firstIndexOf close s with
  | some i, some j => s.take i ++ s.drop (j + close.length)
  | _, _ => s

/-- Of two tags the opening one comes first and nothing of a block is left behind the closing
one; or the two stand back to back the wrong way round, with no closing tag behind them. -/
def FirstBlockOnly (s : List α) : Prop :=
  match firstIndexOf opn s, firstIndexOf close s with
  | some i, some j =>
    (i < j ∧ ¬ HasBlock opn close (s.drop (j + close.length)) ∧
      ¬ Rejoined opn close (s.take i) (s.drop (j + close.length))) ∨
    (j + close.length = i ∧ ∀ k, ¬ Occurs close (s.drop (i + opn.length)) k)
  | _, _ => True

variable {opn close} {p : α} {s before after : List α} {i j : Nat}

theorem occurs_of_first (hne : opn ≠ []) (h : firstIndexOf opn s = some i) : Occurs opn s i :=
  ((firstIndexOf_eq_some_iff hne s i).mp h).1

theorem first_le (hne : opn ≠ []) (h : firstIndexOf opn s = some i) (hocc : Occurs opn s j) :
    i ≤ j := by
  by_contra hlt
  exact ((firstIndexOf_eq_some_iff hne s i).mp h).2 j (Nat.not_le.mp hlt) hocc

theorem not_hasBlock_of_none (hopn : opn ≠ []) (hclose : close ≠ [])
    (h : firstIndexOf opn s = none ∨ firstIndexOf close s = none) : ¬ HasBlock opn close s := by
  rintro ⟨i, j, hi, -, hj⟩
  rcases h with h | h
  · exact (firstIndexOf_eq_none_iff hopn s).mp h i hi
  · exact (firstIndexOf_eq_none_iff hclose s).mp h j hj

omit [DecidableEq α] in
/-- Behind a text without an opening tag, a block is in what follows or starts across the seam. -/
theorem hasBlock_append_iff (hbefore : ∀ i, ¬ Occurs opn before i) :
    HasBlock opn close (before ++ after) ↔
      HasBlock opn close after ∨ Rejoined opn close before after := by
  constructor
  · rintro ⟨i, j, hi, hle, hj⟩
    have hover : ¬ i + opn.length ≤ before.length := fun h =>
      hbefore i ((occurs_append_left h).mp hi)
    have hbehind : before.length ≤ j := by omega
    obtain ⟨j, rfl⟩ := Nat.exists_eq_add_of_le hbehind
    rw [occurs_append_right] at hj
    by_cases hstart : before.length ≤ i
    · obtain ⟨i, rfl⟩ := Nat.exists_eq_add_of_le hstart
      rw [occurs_append_right] at hi
      exact Or.inl ⟨i, j, hi, by omega, hj⟩
    · rw [occurs_across (by omega) (by omega)] at hi
      exact Or.inr ⟨before.length - i, by omega, by omega, hi.1, hi.2, j, by omega, hj⟩
  · rintro (⟨i, j, hi, hle, hj⟩ | ⟨k, hpos, hlt, hfirst, hlast, j, hle, hj⟩)
    · exact ⟨before.length + i, before.length + j, occurs_append_right.mpr hi, by omega,
        occurs_append_right.mpr hj⟩
    · have hlength := hfirst.length_le
      rw [List.length_take, Nat.min_eq_left hlt.le] at hlength
      refine ⟨before.length - k, before.length + j, ?_, by omega, occurs_append_right.mpr hj⟩
      rw [occurs_across (by omega) (by omega), Nat.sub_sub_self hlength]
      exact ⟨hfirst, hlast⟩

section strip

variable (hopn : Headed p opn) (hfirst : firstIndexOf opn s = some i)
include hopn hfirst

theorem hasBlock_iff_of_first :
    HasBlock opn close s ↔ ∃ k, Occurs close (s.drop (i + opn.length)) k := by
  constructor
  · rintro ⟨k, l, hk, hle, hl⟩
    have hmin := first_le hopn.ne_nil hfirst hk
    refine ⟨l - (i + opn.length), ?_⟩
    rw [Occurs, List.drop_drop, Nat.add_sub_cancel' (by omega)]
    exact hl
  · rintro ⟨k, hk⟩
    rw [Occurs, List.drop_drop] at hk
    exact ⟨i, i + opn.length + k, occurs_of_first hopn.ne_nil hfirst, by omega, hk⟩

/-- In front of the first opening tag there is none, also not in part. -/
theorem not_occurs_take (k : Nat) : ¬ Occurs opn (s.take i) k := by
  intro hk
  have hle := occurs_length hopn.length_pos hk
  have hin : Occurs opn (s.take i ++ s.drop i) k := (occurs_append_left hle).mpr hk
  rw [List.take_append_drop] at hin
  rw [List.length_take] at hle
  have hmin := first_le hopn.ne_nil hfirst hin
  have hpos := hopn.length_pos
  omega

/-- With the closing tag first, the text between the two is given twice. -/
theorem cut_sublist_iff (hle : j + close.length ≤ i) :
    (s.take i ++ s.drop (j + close.length)).Sublist s ↔ j + close.length = i := by
  have hend := occurs_length hopn.length_pos (occurs_of_first hopn.ne_nil hfirst)
  constructor
  · intro h
    have hlength := h.length_le
    rw [List.length_append, List.length_take, List.length_drop] at hlength
    omega
  · intro h
    rw [h, List.take_append_drop]

end strip

omit [DecidableEq α] in
theorem cut_sublist (h : i ≤ j) : (s.take i ++ s.drop j).Sublist s := by
  nth_rewrite 3 [← List.take_append_drop i s]
  apply List.Sublist.append_left
  obtain ⟨d, rfl⟩ := Nat.exists_eq_add_of_le h
  rw [← List.drop_drop]
  exact List.drop_sublist d _

/-- One cut leaves a part of the text without a block exactly when there is no second block for
it to leave, and no text between tags the wrong way round. -/
theorem stripFirst_iff (hopn : Headed p opn) (hclose : Headed p close)
    (hunlike : Unlike opn close) :
    (stripFirst opn close s).Sublist s ∧ ¬ HasBlock opn close (stripFirst opn close s) ↔
      FirstBlockOnly opn close s := by
  rw [stripFirst, FirstBlockOnly]
  cases hfirst : firstIndexOf opn s with
  | none => simpa using not_hasBlock_of_none hopn.ne_nil hclose.ne_nil (Or.inl hfirst)
  | some i =>
    cases hlast : firstIndexOf close s with
    | none => simpa using not_hasBlock_of_none hopn.ne_nil hclose.ne_nil (Or.inr hlast)
    | some j =>
      have hi := occurs_of_first hopn.ne_nil hfirst
      have hj := occurs_of_first hclose.ne_nil hlast
      dsimp only
      rcases Nat.lt_trichotomy i j with hlt | rfl | hlt
      · have hsub : (s.take i ++ s.drop (j + close.length)).Sublist s :=
          cut_sublist (Nat.le_trans hlt.le (Nat.le_add_right j _))
        have hback : ¬ j + close.length = i := by omega
        rw [hasBlock_append_iff (not_occurs_take hopn hfirst)]
        simp [hsub, hlt, hback]
      · exact absurd hj (hunlike.not_occurs hi)
      · have hle := hclose.apart hj (hopn.get_of_occurs hi) hlt
        have hforward : ¬ i < j := by omega
        rw [cut_sublist_iff hopn hfirst hle]
        constructor
        · rintro ⟨heq, hblock⟩
          rw [heq, List.take_append_drop, hasBlock_iff_of_first hopn hfirst] at hblock
          exact Or.inr ⟨heq, fun k hk => hblock ⟨k, hk⟩⟩
        · rintro (⟨hlt, -⟩ | ⟨heq, hnone⟩)
          · exact absurd hlt hforward
          · refine ⟨heq, ?_⟩
            rw [heq, List.take_append_drop, hasBlock_iff_of_first hopn hfirst]
            rintro ⟨k, hk⟩
            exact hnone k hk

end blocks

end Solarcido.Tags
