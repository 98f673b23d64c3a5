import Mathlib.Data.List.Nodup

namespace Solarcido.Selection

section greedy

variable {α : Type} (accept : List α → α → Bool)

/-- Take each member in turn that the choice so far leaves room for. -/
def greedy (chosen : List α) : List α → List α
  | [] => chosen
  | a :: rest => greedy (if accept chosen a then a :: chosen else chosen) rest

variable {accept} {chosen l : List α}

theorem greedy_append (l m : List α) :
    greedy accept chosen (l ++ m) = greedy accept (greedy accept chosen l) m := by
  induction l generalizing chosen with
  | nil => rfl
  | cons a l ih => exact ih

/-- What is taken comes in front of what was, the last first. -/
theorem greedy_eq_append (chosen l : List α) :
    ∃ new, greedy accept chosen l = new ++ chosen ∧ new.Sublist l.reverse := by
  induction l generalizing chosen with
  | nil => exact ⟨[], rfl, List.nil_sublist _⟩
  | cons a l ih =>
    rw [greedy, List.reverse_cons]
    split
    · obtain ⟨new, heq, hsub⟩ := ih (a :: chosen)
      exact ⟨new ++ [a], by rw [heq, List.append_cons], hsub.append_right [a]⟩
    · obtain ⟨new, heq, hsub⟩ := ih chosen
      exact ⟨new, heq, hsub.trans (List.sublist_append_left _ [a])⟩

theorem greedy_sublist (l : List α) : (greedy accept [] l).Sublist l.reverse := by
  obtain ⟨new, heq, hsub⟩ := greedy_eq_append [] l
  rw [heq, List.append_nil]
  exact hsub

theorem greedy_induction {P : List α → Prop} (hstart : P chosen)
    (hstep : ∀ chosen a, accept chosen a = true → P (a :: chosen)) (l : List α) :
    P (greedy accept chosen l) := by
  induction l generalizing chosen with
  | nil => exact hstart
  | cons a l ih =>
    rw [greedy]
    split
    · next h => exact ih (hstep chosen a h)
    · exact ih hstart

/-- A member that was left out had no room beside those taken before it. -/
theorem refused_of_not_mem [DecidableEq α] {front back : List α} {a : α}
    (hnodup : (front ++ a :: back).Nodup)
    (hout : a ∉ greedy accept [] (front ++ a :: back)) :
    accept ((greedy accept [] (front ++ a :: back)).filter (· ∈ front)) a = false := by
  obtain ⟨-, hback, hapart⟩ := List.nodup_append.mp hnodup
  have hbefore : (greedy accept [] (front ++ a :: back)).filter (· ∈ front) =
      greedy accept [] front := by
    obtain ⟨new, heq, hsub⟩ := greedy_eq_append (greedy accept [] front)
      (a :: back)
    rw [greedy_append, heq, List.filter_append]
    have hnew : new.filter (· ∈ front) = [] := by
      rw [List.filter_eq_nil_iff]
      intro b hb hfront
      have hlater : b ∈ a :: back := List.mem_reverse.mp (hsub.subset hb)
      exact hapart b (of_decide_eq_true hfront) b hlater rfl
    have hold : (greedy accept [] front).filter (· ∈ front) = greedy accept [] front := by
      rw [List.filter_eq_self]
      intro b hb
      exact decide_eq_true (List.mem_reverse.mp ((greedy_sublist front).subset hb))
    rw [hnew, hold, List.nil_append]
  rw [hbefore]
  by_contra hroom
  rw [Bool.not_eq_false] at hroom
  apply hout
  rw [greedy_append, greedy, if_pos hroom]
  obtain ⟨new, heq, -⟩ := greedy_eq_append (a :: greedy accept [] front) back
  rw [heq]
  exact List.mem_append_right _ List.mem_cons_self

end greedy

section firsts

variable {α κ : Type} [DecidableEq κ] (key : α → κ)

/-- The first member of each key. -/
def firstsBy : List α → List α
  | [] => []
  | a :: rest => a :: (firstsBy rest).filter fun b => key b ≠ key a

theorem firstsBy_sublist (l : List α) : (firstsBy key l).Sublist l := by
  induction l with
  | nil => exact List.nil_sublist _
  | cons a l ih => exact (List.filter_sublist.trans ih).cons_cons a

theorem firstsBy_pairwise (l : List α) :
    (firstsBy key l).Pairwise fun a b => key a ≠ key b := by
  induction l with
  | nil => exact List.Pairwise.nil
  | cons a l ih =>
    apply List.Pairwise.cons
    · intro b hb
      exact (of_decide_eq_true (List.mem_filter.mp hb).2).symm
    · exact ih.filter _

theorem exists_mem_firstsBy {l : List α} {a : α} (h : a ∈ l) :
    ∃ b ∈ firstsBy key l, key b = key a := by
  induction l with
  | nil => cases h
  | cons c l ih =>
    rcases List.mem_cons.mp h with rfl | h
    · exact ⟨a, List.mem_cons_self, rfl⟩
    · obtain ⟨b, hb, hkey⟩ := ih h
      by_cases hsame : key b = key c
      · exact ⟨c, List.mem_cons_self, hsame.symm.trans hkey⟩
      · refine ⟨b, ?_, hkey⟩
        exact List.mem_cons_of_mem c (List.mem_filter.mpr ⟨hb, decide_eq_true hsame⟩)

end firsts

section nearest

variable {α : Type} (far : α → Nat)

/-- The best member so far and how far it is. -/
def nearer (best : Option α × Nat) (a : α) : Option α × Nat :=
  if far a < best.2 then (some a, far a) else best

/-- Nothing before it is as near, and nothing behind it is nearer. -/
def IsFirstNearest (l : List α) (a : α) : Prop :=
  ∃ before after, l = before ++ a :: after ∧ (∀ b ∈ before, far a < far b) ∧
    ∀ b ∈ after, far a ≤ far b

/-- What has been found among some members: nothing below the limit, or the first nearest. -/
def Found (limit : Nat) (l : List α) : Option α × Nat → Prop
  | (none, d) => d = limit ∧ ∀ b ∈ l, limit ≤ far b
  | (some a, d) => d = far a ∧ far a < limit ∧ IsFirstNearest far l a

variable {far} {limit : Nat} {l : List α}

theorem found_nearer {best : Option α × Nat} (h : Found far limit l best) (a : α) :
    Found far limit (l ++ [a]) (nearer far best a) := by
  obtain ⟨best, d⟩ := best
  rw [nearer]
  dsimp only
  cases best with
  | none =>
    obtain ⟨rfl, hfar⟩ := h
    split
    · next hlt =>
      exact ⟨rfl, hlt, l, [], rfl, fun b hb => Nat.lt_of_lt_of_le hlt (hfar b hb), by simp⟩
    · next hge =>
      refine ⟨rfl, fun b hb => ?_⟩
      rcases List.mem_append.mp hb with hb | hb
      · exact hfar b hb
      · rw [List.mem_singleton.mp hb]
        exact Nat.le_of_not_lt hge
  | some c =>
    obtain ⟨rfl, hc, before, after, rfl, hbefore, hafter⟩ := h
    split
    · next hlt =>
      refine ⟨rfl, Nat.lt_trans hlt hc, before ++ c :: after, [], rfl, fun b hb => ?_, by simp⟩
      rcases List.mem_append.mp hb with hb | hb
      · exact Nat.lt_trans hlt (hbefore b hb)
      · rcases List.mem_cons.mp hb with rfl | hb
        · exact hlt
        · exact Nat.lt_of_lt_of_le hlt (hafter b hb)
    · next hge =>
      refine ⟨rfl, hc, before, after ++ [a], by simp, hbefore, fun b hb => ?_⟩
      rcases List.mem_append.mp hb with hb | hb
      · exact hafter b hb
      · rw [List.mem_singleton.mp hb]
        exact Nat.le_of_not_lt hge

theorem found_foldl {front : List α} {best : Option α × Nat} (h : Found far limit front best)
    (l : List α) : Found far limit (front ++ l) (l.foldl (nearer far) best) := by
  induction l generalizing front best with
  | nil =>
    rw [List.append_nil]
    exact h
  | cons a l ih =>
    rw [List.append_cons]
    exact ih (found_nearer h a)

theorem found_nearest (far : α → Nat) (limit : Nat) (l : List α) :
    Found far limit l (l.foldl (nearer far) (none, limit)) := by
  have hstart : Found far limit [] (none, limit) := ⟨rfl, by simp⟩
  exact found_foldl hstart l

theorem IsFirstNearest.mem {a : α} (h : IsFirstNearest far l a) : a ∈ l := by
  obtain ⟨before, after, rfl, -, -⟩ := h
  simp

end nearest

end Solarcido.Selection
