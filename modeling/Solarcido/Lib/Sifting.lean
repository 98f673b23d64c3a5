import Mathlib.Data.List.Induction
import Mathlib.Data.List.Infix

namespace Solarcido.Sifting

variable {α V : Type} (drops : List α → α → Bool)

/-- What is left of a list when each element is judged by what stands in front of it. -/
def sift (l : List α) : List α :=
  (l.zipIdx.filter fun p => !drops (l.take p.2) p.1).map Prod.fst

/-- The elements at the places that are kept. -/
def keptAt (keep : Nat → Bool) (l : List α) : List α :=
  (l.zipIdx.filter fun p => keep p.2).map Prod.fst

theorem sift_snoc (l : List α) (a : α) :
    sift drops (l ++ [a]) = if drops l a then sift drops l else sift drops l ++ [a] := by
  have hfront : (l.zipIdx.filter fun p => !drops ((l ++ [a]).take p.2) p.1) =
      l.zipIdx.filter fun p => !drops (l.take p.2) p.1 := by
    apply List.filter_congr
    intro p hp
    have hi : p.2 < l.length := by simpa using List.snd_lt_of_mem_zipIdx hp
    rw [List.take_append_of_le_length hi.le]
  rw [sift, List.zipIdx_append, List.filter_append, List.map_append, hfront, List.zipIdx_singleton,
    Nat.zero_add, List.filter_cons, List.take_left, List.filter_nil]
  cases drops l a with
  | true => exact List.append_nil _
  | false => rfl

theorem sift_sublist (l : List α) : (sift drops l).Sublist l := by
  have h := (List.filter_sublist (p := fun p => !drops (l.take p.2) p.1) (l := l.zipIdx)).map
    Prod.fst
  rwa [List.zipIdx_map_fst] at h

theorem sift_eq_keptAt {l : List α} {keep : Nat → Bool}
    (h : ∀ before a after, l = before ++ a :: after → keep before.length = !drops before a) :
    sift drops l = keptAt keep l := by
  rw [sift, keptAt]
  congr 1
  apply List.filter_congr
  intro p hmem
  obtain ⟨hlt, hget⟩ := List.getElem?_eq_some_iff.mp (List.mem_zipIdx_iff_getElem?.mp hmem)
  have hsplit : l = l.take p.2 ++ p.1 :: l.drop (p.2 + 1) := by
    rw [← hget, List.getElem_cons_drop, List.take_append_drop]
  have hkeep := h _ _ _ hsplit
  rw [List.length_take, Nat.min_eq_left hlt.le] at hkeep
  exact hkeep.symm

theorem sift_eq_self {l : List α}
    (h : ∀ before a after, l = before ++ a :: after → drops before a = false) :
    sift drops l = l := by
  have hall : ∀ before a after, l = before ++ a :: after → true = !drops before a := by
    intro before a after hsplit
    rw [h before a after hsplit]
    rfl
  have hkept : sift drops l = keptAt (fun _ => true) l := sift_eq_keptAt drops hall
  rw [hkept, keptAt, List.filter_eq_self.mpr fun _ _ => rfl, List.zipIdx_map_fst]

section view

-- An element is judged by what can be seen of the list in front of it.
variable {drops} (view : List α → V)
  (hnext : ∀ l l' a, view l = view l' → view (l ++ [a]) = view (l' ++ [a]))
  (hkeep : ∀ l a, drops l a = true → view (l ++ [a]) = view l)
  (hdrops : ∀ l l' a, view l = view l' → drops l a = drops l' a)

include hnext hkeep

/-- Where what is dropped was not seen, nothing looks different without it. -/
theorem view_sift (l : List α) : view (sift drops l) = view l := by
  induction l using List.reverseRecOn with
  | nil => rfl
  | append_singleton l a ih =>
    rw [sift_snoc]
    split
    · next hdrop => exact ih.trans (hkeep l a hdrop).symm
    · exact hnext _ _ a ih

include hdrops

theorem sift_sift (l : List α) : sift drops (sift drops l) = sift drops l := by
  induction l using List.reverseRecOn with
  | nil => rfl
  | append_singleton l a ih =>
    rw [sift_snoc]
    split
    · exact ih
    · next hdrop =>
      have hagain := hdrops _ _ a (view_sift view hnext hkeep l)
      rw [sift_snoc, hagain, if_neg hdrop, ih]

/-- In what is left nothing is to be dropped. -/
theorem not_drops_of_sift {l before after : List α} {a : α}
    (h : sift drops l = before ++ a :: after) : drops before a = false := by
  induction l using List.reverseRecOn generalizing after with
  | nil => simp [sift] at h
  | append_singleton l b ih =>
    rw [sift_snoc] at h
    split at h
    · exact ih h
    · next hdrop =>
      cases after using List.reverseRecOn with
      | nil =>
        obtain ⟨hfront, hlast⟩ := List.append_inj' h rfl
        obtain rfl := (List.cons.inj hlast).1
        rw [← hfront, hdrops _ _ b (view_sift view hnext hkeep l)]
        exact Bool.eq_false_iff.mpr hdrop
      | append_singleton after c =>
        rw [← List.cons_append, ← List.append_assoc] at h
        exact ih (List.append_inj' h rfl).1

end view

end Solarcido.Sifting
