import Mathlib.Order.Bounds.Basic
import Mathlib.Order.MinMax
import Mathlib.Data.List.Basic

namespace Solarcido.EditDistance

variable {α : Type}

/-- One element is put in, taken out, or replaced by another. -/
inductive Edit : List α → List α → Prop where
  | insert (s : List α) (a : α) (t : List α) : Edit (s ++ t) (s ++ a :: t)
  | delete (s : List α) (a : α) (t : List α) : Edit (s ++ a :: t) (s ++ t)
  | substitute (s : List α) (a b : α) (t : List α) : Edit (s ++ a :: t) (s ++ b :: t)

/-- So many edits lead from one list to the other. -/
inductive Edits : Nat → List α → List α → Prop where
  | none (s : List α) : Edits 0 s s
  | more {n : Nat} {s t u : List α} (first : Edit s t) (rest : Edits n t u) : Edits (n + 1) s u

section edits

variable {s t u : List α} {m n : Nat}

theorem Edits.one (h : Edit s t) : Edits 1 s t := .more h (.none t)

theorem Edits.trans (hst : Edits m s t) (htu : Edits n t u) : Edits (m + n) s u := by
  induction hst with
  | none s =>
    rw [Nat.zero_add]
    exact htu
  | more first _ ih =>
    rw [Nat.add_right_comm]
    exact .more first (ih htu)

theorem Edit.cons (a : α) (h : Edit s t) : Edit (a :: s) (a :: t) := by
  cases h with
  | insert s b t => exact .insert (a :: s) b t
  | delete s b t => exact .delete (a :: s) b t
  | substitute s b c t => exact .substitute (a :: s) b c t

theorem Edits.cons (a : α) (h : Edits n s t) : Edits n (a :: s) (a :: t) := by
  induction h with
  | none s => exact .none _
  | more first _ ih => exact .more (first.cons a) ih

theorem reverse_around (s : List α) (a : α) (t : List α) :
    (s ++ a :: t).reverse = t.reverse ++ a :: s.reverse := by
  rw [List.reverse_append, List.reverse_cons, List.append_assoc, List.singleton_append]

theorem Edit.reverse (h : Edit s t) : Edit s.reverse t.reverse := by
  cases h with
  | insert s a t =>
    rw [reverse_around, List.reverse_append]
    exact .insert _ a _
  | delete s a t =>
    rw [reverse_around, List.reverse_append]
    exact .delete _ a _
  | substitute s a b t =>
    rw [reverse_around, reverse_around]
    exact .substitute _ a b _

theorem Edits.reverse (h : Edits n s t) : Edits n s.reverse t.reverse := by
  induction h with
  | none s => exact .none _
  | more first _ ih => exact .more first.reverse ih

theorem edits_insert (t : List α) : Edits t.length [] t := by
  induction t with
  | nil => exact .none []
  | cons a t ih =>
    have h := ih.trans (.one (Edit.insert [] a t))
    exact h

theorem edits_delete (s : List α) : Edits s.length s [] := by
  induction s with
  | nil => exact .none []
  | cons a s ih => exact .more (.delete [] a s) ih

end edits

section distance

variable [DecidableEq α]

def cost (a b : α) : Nat := if a = b then 0 else 1

def distance : List α → List α → Nat
  | [], t => t.length
  | a :: s, [] => (a :: s).length
  | a :: s, b :: t =>
    min (min (distance s (b :: t) + 1) (distance (a :: s) t + 1)) (distance s t + cost a b)
termination_by s t => s.length + t.length

variable {s t u : List α} {a b : α} {n : Nat}

theorem distance_nil_left (t : List α) : distance [] t = t.length := by
  rw [distance]

theorem distance_nil_right (s : List α) : distance s [] = s.length := by
  cases s with
  | nil => rw [distance]
  | cons a s => rw [distance]

theorem distance_cons_cons (a b : α) (s t : List α) :
    distance (a :: s) (b :: t) =
      min (min (distance s (b :: t) + 1) (distance (a :: s) t + 1)) (distance s t + cost a b) := by
  rw [distance]

theorem cost_le (a b : α) : cost a b ≤ 1 := by
  rw [cost]
  split <;> omega

theorem edits_head (a b : α) (t : List α) : Edits (cost a b) (a :: t) (b :: t) := by
  rw [cost]
  split
  · next h =>
    rw [h]
    exact .none _
  · exact .one (.substitute [] a b t)

/-- The distance is reached. -/
theorem edits_distance (s t : List α) : Edits (distance s t) s t := by
  induction s generalizing t with
  | nil =>
    rw [distance_nil_left]
    exact edits_insert t
  | cons a s ihs =>
    induction t with
    | nil =>
      rw [distance_nil_right]
      exact edits_delete (a :: s)
    | cons b t iht =>
      have hdelete : Edits (distance s (b :: t) + 1) (a :: s) (b :: t) :=
        .more (.delete [] a s) (ihs (b :: t))
      have hinsert : Edits (distance (a :: s) t + 1) (a :: s) (b :: t) :=
        iht.trans (.one (.insert [] b t))
      have hreplace : Edits (distance s t + cost a b) (a :: s) (b :: t) :=
        ((ihs t).cons a).trans (edits_head a b t)
      rw [distance_cons_cons]
      rcases min_choice (min (distance s (b :: t) + 1) (distance (a :: s) t + 1))
        (distance s t + cost a b) with h | h
      · rw [h]
        rcases min_choice (distance s (b :: t) + 1) (distance (a :: s) t + 1) with h | h
        · rw [h]
          exact hdelete
        · rw [h]
          exact hinsert
      · rw [h]
        exact hreplace

theorem distance_cons_left_le (a : α) (s t : List α) : distance (a :: s) t ≤ distance s t + 1 := by
  cases t with
  | nil => simp [distance_nil_right]
  | cons b t =>
    rw [distance_cons_cons]
    omega

theorem distance_cons_right_le (s : List α) (b : α) (t : List α) :
    distance s (b :: t) ≤ distance s t + 1 := by
  cases s with
  | nil => simp [distance_nil_left]
  | cons a s =>
    rw [distance_cons_cons]
    omega

theorem distance_le_cons_left (a : α) (s t : List α) : distance s t ≤ distance (a :: s) t + 1 := by
  induction t with
  | nil =>
    rw [distance_nil_right, distance_nil_right, List.length_cons]
    omega
  | cons b t ih =>
    have hright := distance_cons_right_le s b t
    rw [distance_cons_cons]
    omega

theorem distance_head_le (a c : α) (s t : List α) :
    distance (a :: s) t ≤ distance (c :: s) t + 1 := by
  induction t with
  | nil =>
    rw [distance_nil_right, distance_nil_right]
    exact Nat.le_succ _
  | cons b t ih =>
    have hcost := cost_le a b
    rw [distance_cons_cons, distance_cons_cons]
    omega

/-- An element in front of both keeps them as near to each other. -/
theorem distance_cons_le (h : ∀ u, distance s u ≤ distance t u + 1) (a : α) (u : List α) :
    distance (a :: s) u ≤ distance (a :: t) u + 1 := by
  induction u with
  | nil =>
    have hnil := h []
    rw [distance_nil_right, distance_nil_right] at hnil ⊢
    simp only [List.length_cons]
    omega
  | cons b u ih =>
    have hall := h (b :: u)
    have hrest := h u
    rw [distance_cons_cons, distance_cons_cons]
    omega

theorem distance_append_le (h : ∀ u, distance s u ≤ distance t u + 1) (front u : List α) :
    distance (front ++ s) u ≤ distance (front ++ t) u + 1 := by
  induction front generalizing u with
  | nil => exact h u
  | cons a front ih => exact distance_cons_le ih a u

/-- One edit brings a list nearer by one at most. -/
theorem distance_le_of_edit (h : Edit s t) (u : List α) : distance s u ≤ distance t u + 1 := by
  cases h with
  | insert s a t => exact distance_append_le (distance_le_cons_left a t) s u
  | delete s a t => exact distance_append_le (distance_cons_left_le a t) s u
  | substitute s a b t => exact distance_append_le (distance_head_le a b t) s u

theorem distance_self (s : List α) : distance s s = 0 := by
  induction s with
  | nil => exact distance_nil_left []
  | cons a s ih =>
    have hcost : cost a a = 0 := if_pos rfl
    rw [distance_cons_cons, ih, hcost]
    omega

theorem distance_le_of_edits (h : Edits n s t) : distance s t ≤ n := by
  induction h with
  | none s => exact (distance_self s).le
  | more first _ ih => exact (distance_le_of_edit first _).trans (Nat.succ_le_succ ih)

/-- The distance is the least number of edits. -/
theorem distance_isLeast (s t : List α) : IsLeast {n | Edits n s t} (distance s t) :=
  ⟨edits_distance s t, fun _ h => distance_le_of_edits h⟩

theorem distance_reverse (s t : List α) : distance s.reverse t.reverse = distance s t := by
  apply Nat.le_antisymm
  · exact distance_le_of_edits (edits_distance s t).reverse
  · have h := (edits_distance s.reverse t.reverse).reverse
    rw [List.reverse_reverse, List.reverse_reverse] at h
    exact distance_le_of_edits h

end distance

end Solarcido.EditDistance
