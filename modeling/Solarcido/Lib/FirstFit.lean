import Mathlib.Data.List.Infix
import Mathlib.Algebra.BigOperators.Group.List.Basic
import Mathlib.Algebra.Order.Ring.Nat

namespace Solarcido.FirstFit

variable {α : Type} (weight : α → Nat) (fits : Nat → Bool)

def total (l : List α) : Nat := (l.map weight).sum

/-- Walk the list from its front and take each member that still fits beside those taken. -/
def firstFit (used : Nat) : List α → List α
  | [] => []
  | a :: rest =>
    if fits (used + weight a) then a :: firstFit (used + weight a) rest
    else firstFit used rest

/-- The longest part at the end of a list that fits. -/
structure LongestEnd (l kept : List α) : Prop where
  suffix : kept <:+ l
  within : fits (total weight kept)
  longest : ∀ other, other <:+ l → fits (total weight other) → other.length ≤ kept.length

def longestEnd : List α → List α
  | [] => []
  | a :: rest =>
    if fits (total weight (a :: rest)) then a :: rest
    else longestEnd rest

/-- How far a list is spelled by the members of another: the part before it is, and one member
more is not. -/
structure Spelled (front done rest : List α) : Prop where
  sublist : done.Sublist front
  farthest : ∀ a ∈ rest.head?, ¬ (done ++ [a]).Sublist front

/-- After `front`, each member that fits beside what those before it spell of a list is the next
of that list. -/
def Spells (kept front todo : List α) : Prop :=
  ∀ before a after, todo = before ++ a :: after → ∀ done rest, kept = done ++ rest →
    Spelled (front ++ before) done rest → fits (total weight done + weight a) →
    rest.head? = some a

section total

@[simp]
theorem total_nil : total weight ([] : List α) = 0 := rfl

@[simp]
theorem total_cons (a : α) (l : List α) : total weight (a :: l) = weight a + total weight l := rfl

@[simp]
theorem total_append (l m : List α) :
    total weight (l ++ m) = total weight l + total weight m := by
  simp [total]

end total

section spelled

variable {front done rest kept : List α} {a : α}

theorem concat_sublist_concat {l m : List α} {b : α} (h : (l ++ [b]).Sublist (m ++ [a])) :
    (l ++ [b]).Sublist m ∨ b = a ∧ l.Sublist m := by
  have hreverse : (b :: l.reverse).Sublist (a :: m.reverse) := by
    simpa using h.reverse
  rcases List.cons_sublist_cons'.mp hreverse with hlater | ⟨rfl, hlater⟩
  · exact Or.inl (List.reverse_sublist.mp (by simpa using hlater))
  · exact Or.inr ⟨rfl, List.reverse_sublist.mp hlater⟩

theorem spelled_nil (kept : List α) : Spelled [] [] kept := by
  refine ⟨List.Sublist.refl [], ?_⟩
  intro a _ h
  exact absurd h.length_le (by simp)

theorem Spelled.next (h : Spelled front done (a :: rest)) :
    Spelled (front ++ [a]) (done ++ [a]) rest := by
  refine ⟨h.sublist.append_right [a], ?_⟩
  intro b _ hsub
  apply h.farthest a rfl
  rcases concat_sublist_concat hsub with hsub | ⟨-, hsub⟩
  · exact (List.sublist_append_left _ [b]).trans hsub
  · exact hsub

theorem Spelled.stay (h : Spelled front done rest) (hne : rest.head? ≠ some a) :
    Spelled (front ++ [a]) done rest := by
  refine ⟨h.sublist.trans (List.sublist_append_left front [a]), ?_⟩
  intro b hb hsub
  rcases concat_sublist_concat hsub with hsub | ⟨rfl, -⟩
  · exact h.farthest b hb hsub
  · exact hne hb

/-- There is one way only to spell a list as far as it goes. -/
theorem Spelled.length_le {done' rest' : List α} (h : Spelled front done rest)
    (h' : Spelled front done' rest') (heq : done ++ rest = done' ++ rest') :
    done'.length ≤ done.length := by
  by_contra hlt
  obtain ⟨more, hdone, hrest⟩ := List.append_eq_append_iff.mp heq |>.resolve_right (by
    rintro ⟨more, rfl, -⟩
    simp at hlt)
  cases more with
  | nil => simp [hdone] at hlt
  | cons a more =>
    apply h.farthest a (by rw [hrest]; rfl)
    apply List.Sublist.trans _ h'.sublist
    rw [hdone]
    exact ((List.nil_sublist more).cons_cons a).append_left done

theorem Spelled.unique {done' rest' : List α} (h : Spelled front done rest)
    (h' : Spelled front done' rest') (heq : done ++ rest = done' ++ rest') :
    done = done' ∧ rest = rest' :=
  List.append_inj heq (le_antisymm (h'.length_le h heq.symm) (h.length_le h' heq))

end spelled

section walk

variable {weight fits}

theorem spells_cons {kept front todo done rest : List α} {a : α} (hkept : kept = done ++ rest)
    (hspelled : Spelled front done rest) :
    Spells weight fits kept front (a :: todo) ↔
      (fits (total weight done + weight a) → rest.head? = some a) ∧
        Spells weight fits kept (front ++ [a]) todo := by
  constructor
  · intro h
    constructor
    · exact h [] a todo rfl done rest hkept (by rwa [List.append_nil])
    · intro before b after htodo done' rest' hkept' hspelled'
      apply h (a :: before) b after (by rw [htodo]; rfl) done' rest' hkept'
      rwa [List.append_cons]
  · rintro ⟨hnow, hlater⟩ before b after htodo done' rest' hkept' hspelled'
    cases before with
    | nil =>
      obtain ⟨rfl, -⟩ := List.cons.inj htodo
      rw [List.append_nil] at hspelled'
      obtain ⟨rfl, rfl⟩ := hspelled.unique hspelled' (hkept.symm.trans hkept')
      exact hnow
    | cons c before =>
      obtain ⟨rfl, hrest⟩ := List.cons.inj htodo
      rw [List.append_cons] at hspelled'
      exact hlater before b after hrest done' rest' hkept' hspelled'

theorem firstFit_eq_self {used : Nat} {l : List α}
    (hdown : ∀ m n, m ≤ n → fits n = true → fits m = true)
    (hfits : fits (used + total weight l) = true) : firstFit weight fits used l = l := by
  induction l generalizing used with
  | nil => rfl
  | cons a l ih =>
    rw [total_cons, ← Nat.add_assoc] at hfits
    have hone : fits (used + weight a) = true := hdown _ _ (Nat.le_add_right _ _) hfits
    rw [firstFit, if_pos hone, ih hfits]

/-- Members none of which fits on its own are all left out. -/
theorem firstFit_append_of_over {used : Nat} {l : List α} (m : List α)
    (hover : ∀ a ∈ l, fits (used + weight a) = false) :
    firstFit weight fits used (l ++ m) = firstFit weight fits used m := by
  induction l with
  | nil => rfl
  | cons a l ih =>
    have hone := hover a List.mem_cons_self
    rw [List.cons_append, firstFit, if_neg (by rw [hone]; simp)]
    exact ih fun b hb => hover b (List.mem_cons_of_mem a hb)

/-- A member that does not fit beside what is spelled is not the next of a list that fits. -/
theorem head_ne_of_over (hdown : ∀ m n, m ≤ n → fits n = true → fits m = true)
    {done rest : List α} {a : α} (hfits : fits (total weight (done ++ rest)) = true)
    (hover : ¬ fits (total weight done + weight a) = true) : rest.head? ≠ some a := by
  intro hhead
  cases rest with
  | nil => cases hhead
  | cons b rest =>
    obtain rfl := Option.some.inj hhead
    apply hover
    apply hdown _ _ _ hfits
    rw [total_append, total_cons]
    omega

theorem firstFit_eq_rest_iff (hdown : ∀ m n, m ≤ n → fits n = true → fits m = true)
    {kept : List α} (hfits : fits (total weight kept) = true) (todo : List α)
    {front done rest : List α} (hkept : kept = done ++ rest)
    (hsub : kept.Sublist (front ++ todo)) (hspelled : Spelled front done rest) :
    firstFit weight fits (total weight done) todo = rest ↔
      Spells weight fits kept front todo := by
  induction todo generalizing front done rest with
  | nil =>
    have hrest : rest = [] := by
      cases rest with
      | nil => rfl
      | cons a rest =>
        refine absurd ?_ (hspelled.farthest a rfl)
        rw [List.append_nil, hkept] at hsub
        exact (((List.nil_sublist rest).cons_cons a).append_left done).trans hsub
    rw [hrest]
    simp [firstFit, Spells]
  | cons a todo ih =>
    rw [spells_cons hkept hspelled, firstFit]
    rw [List.append_cons] at hsub
    by_cases hfit : fits (total weight done + weight a) = true
    · rw [if_pos hfit]
      simp only [hfit, true_implies]
      -- What the walk takes is the next of the list, and spells one more of it.
      cases rest with
      | nil => simp
      | cons b rest =>
        by_cases hsame : b = a
        · subst hsame
          have hnext := ih (by rw [hkept]; simp) hsub hspelled.next
          rw [total_append, total_cons, total_nil, Nat.add_zero] at hnext
          rw [← hnext]
          simp
        · simp [hsame, Ne.symm hsame]
    · rw [if_neg hfit]
      have hstay := hspelled.stay (head_ne_of_over hdown (hkept ▸ hfits) hfit)
      rw [ih hkept hsub hstay]
      simp [hfit]

/-- The walk gives a list that fits exactly when the walk spells it. -/
theorem firstFit_eq_iff (hdown : ∀ m n, m ≤ n → fits n = true → fits m = true)
    {l kept : List α} (hfits : fits (total weight kept) = true) (hsub : kept.Sublist l) :
    firstFit weight fits 0 l = kept ↔ Spells weight fits kept [] l := by
  have hall : kept.Sublist ([] ++ l) := hsub
  exact firstFit_eq_rest_iff hdown hfits l rfl hall (spelled_nil kept)

end walk

section ends

variable {weight fits} {l kept older : List α}

theorem LongestEnd.unique {other : List α} (h : LongestEnd weight fits l kept)
    (h' : LongestEnd weight fits l other) : kept = other := by
  have hlength : kept.length = other.length :=
    le_antisymm (h'.longest kept h.suffix h.within) (h.longest other h'.suffix h'.within)
  obtain ⟨front, rfl⟩ := h.suffix
  obtain ⟨front', heq⟩ := h'.suffix
  exact (List.append_inj' heq hlength.symm).2.symm

theorem longestEnd_spec (hnothing : fits 0 = true) (l : List α) :
    LongestEnd weight fits l (longestEnd weight fits l) := by
  induction l with
  | nil =>
    refine ⟨List.suffix_refl [], hnothing, ?_⟩
    intro other hother _
    rw [List.suffix_nil.mp hother]
    exact Nat.zero_le _
  | cons a l ih =>
    rw [longestEnd]
    by_cases hall : fits (total weight (a :: l)) = true
    · rw [if_pos hall]
      exact ⟨List.suffix_refl _, hall, fun other hother _ => hother.length_le⟩
    · rw [if_neg hall]
      refine ⟨ih.suffix.trans (List.suffix_cons a l), ih.within, ?_⟩
      intro other hother hfits
      rcases List.suffix_cons_iff.mp hother with rfl | hother
      · exact absurd hfits hall
      · exact ih.longest other hother hfits

theorem longestEnd_iff (hdown : ∀ m n, m ≤ n → fits n = true → fits m = true) :
    LongestEnd weight fits l kept ↔ fits 0 = true ∧ kept = longestEnd weight fits l := by
  constructor
  · intro h
    have hnothing : fits 0 = true := hdown _ _ (Nat.zero_le _) h.within
    exact ⟨hnothing, h.unique (longestEnd_spec hnothing l)⟩
  · rintro ⟨hnothing, rfl⟩
    exact longestEnd_spec hnothing l

/-- The walk gives the longest part at the end that fits exactly when it spells that part. -/
theorem firstFit_longestEnd_iff (hdown : ∀ m n, m ≤ n → fits n = true → fits m = true)
    (l : List α) :
    LongestEnd weight fits l (firstFit weight fits 0 l) ↔
      fits 0 = true ∧ Spells weight fits (longestEnd weight fits l) [] l := by
  rw [longestEnd_iff hdown]
  apply and_congr_right
  intro hnothing
  have hspec : LongestEnd weight fits l (longestEnd weight fits l) :=
    longestEnd_spec hnothing l
  exact firstFit_eq_iff hdown hspec.within hspec.suffix.sublist

/-- Of distinct members, the walk gives those at the end exactly when it leaves each of the
others out on its own. -/
theorem firstFit_append_eq_iff (hdown : ∀ m n, m ≤ n → fits n = true → fits m = true)
    (hfits : fits (total weight kept) = true) (hdistinct : (older ++ kept).Nodup) :
    firstFit weight fits 0 (older ++ kept) = kept ↔ ∀ a ∈ older, fits (weight a) = false := by
  constructor
  · intro h
    induction older with
    | nil => simp
    | cons a older ih =>
      rw [List.cons_append, firstFit, Nat.zero_add] at h
      rw [List.cons_append, List.nodup_cons] at hdistinct
      cases hone : fits (weight a) with
      | true =>
        rw [hone, if_pos rfl] at h
        refine absurd ?_ hdistinct.1
        rw [List.mem_append, ← h]
        exact Or.inr List.mem_cons_self
      | false =>
        rw [hone, if_neg (by simp)] at h
        intro b hb
        rcases List.mem_cons.mp hb with rfl | hb
        · exact hone
        · exact ih hdistinct.2 h b hb
  · intro h
    rw [firstFit_append_of_over kept (by simpa using h)]
    exact firstFit_eq_self hdown (by simpa using hfits)

theorem firstFit_longestEnd_iff_of_nodup
    (hdown : ∀ m n, m ≤ n → fits n = true → fits m = true) (hdistinct : l.Nodup) :
    LongestEnd weight fits l (firstFit weight fits 0 l) ↔
      fits 0 = true ∧ ∀ older, l = older ++ longestEnd weight fits l →
        ∀ a ∈ older, fits (weight a) = false := by
  rw [longestEnd_iff hdown]
  apply and_congr_right
  intro hnothing
  have hspec : LongestEnd weight fits l (longestEnd weight fits l) :=
    longestEnd_spec hnothing l
  obtain ⟨older, hl⟩ := hspec.suffix
  have hiff := firstFit_append_eq_iff hdown hspec.within (hl.symm ▸ hdistinct)
  rw [hl] at hiff
  rw [hiff]
  constructor
  · intro h other hother
    rw [List.append_cancel_right (hother.symm.trans hl.symm)]
    exact h
  · intro h
    exact h older hl.symm

end ends

end Solarcido.FirstFit
