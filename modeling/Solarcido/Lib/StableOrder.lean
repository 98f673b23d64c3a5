import Solarcido.Lib.Succession

namespace Solarcido.Succession

variable {α κ : Type} [LinearOrder κ] (key : α → κ)

/-- The same members in the order of a key, those of one key in the order they had. -/
structure IsStableOrder (l m : List α) : Prop where
  perm : m.Perm l
  sorted : m.Pairwise fun a b => key a ≤ key b
  stable : ∀ k, m.filter (key · = k) = l.filter (key · = k)

theorem inOrder_stable (l : List α) : IsStableOrder key l (inOrder key l) := by
  refine ⟨inOrder_perm key l, inOrder_sorted key l, ?_⟩
  intro k
  have hequal : (l.filter (key · = k)).Pairwise fun a b => decide (key a ≤ key b) = true := by
    apply List.pairwise_of_forall_mem_list
    intro a ha b hb
    have hka : key a = k := of_decide_eq_true (List.mem_filter.mp ha).2
    have hkb : key b = k := of_decide_eq_true (List.mem_filter.mp hb).2
    exact decide_eq_true (hka.trans hkb.symm).le
  have hsub : (l.filter (key · = k)).Sublist (inOrder key l) :=
    List.sublist_mergeSort (keyLe_trans key) (keyLe_total key) hequal List.filter_sublist
  have hclass : (l.filter (key · = k)).Sublist ((inOrder key l).filter (key · = k)) := by
    have h := hsub.filter (key · = k)
    simpa only [List.filter_filter, Bool.and_self] using h
  have hlength := ((inOrder_perm key l).filter (key · = k)).length_eq
  exact (hclass.eq_of_length hlength.symm).symm

variable {key}

/-- Two sorted lists with the same members of each key are one list. -/
theorem eq_of_classes {m n : List α} (hm : m.Pairwise fun a b => key a ≤ key b)
    (hn : n.Pairwise fun a b => key a ≤ key b) (hperm : m.Perm n)
    (hclasses : ∀ k, m.filter (key · = k) = n.filter (key · = k)) : m = n := by
  induction m generalizing n with
  | nil => exact (List.nil_perm.mp hperm).symm
  | cons a m ih =>
    cases n with
    | nil => cases List.perm_nil.mp hperm
    | cons b n =>
      obtain ⟨hafter, hm'⟩ := List.pairwise_cons.mp hm
      obtain ⟨hbehind, hn'⟩ := List.pairwise_cons.mp hn
      have hle : key a ≤ key b := by
        rcases List.mem_cons.mp (hperm.mem_iff.mpr List.mem_cons_self) with rfl | hb
        · exact le_refl _
        · exact hafter b hb
      have hge : key b ≤ key a := by
        rcases List.mem_cons.mp (hperm.mem_iff.mp List.mem_cons_self) with rfl | ha
        · exact le_refl _
        · exact hbehind a ha
      have hkey : key b = key a := le_antisymm hge hle
      have hfirst := hclasses (key a)
      rw [List.filter_cons_of_pos (by simp), List.filter_cons_of_pos (by simp [hkey])] at hfirst
      obtain ⟨rfl, hrest⟩ := List.cons.inj hfirst
      congr 1
      apply ih hm' hn' hperm.cons_inv
      intro k
      by_cases hk : key a = k
      · rw [← hk]
        exact hrest
      · have h := hclasses k
        rwa [List.filter_cons_of_neg (by simp [hk]), List.filter_cons_of_neg (by simp [hk])] at h

theorem IsStableOrder.unique {l m n : List α} (hm : IsStableOrder key l m)
    (hn : IsStableOrder key l n) : m = n := by
  apply eq_of_classes hm.sorted hn.sorted (hm.perm.trans hn.perm.symm)
  intro k
  exact (hm.stable k).trans (hn.stable k).symm

section repeats

/-- The elements that differ from the one in front of them. -/
def dropRepeatsBehind (same : α → α → Bool) : α → List α → List α
  | _, [] => []
  | prev, a :: rest =>
    if same a prev then dropRepeatsBehind same a rest else a :: dropRepeatsBehind same a rest

def dropRepeats (same : α → α → Bool) : List α → List α
  | [] => []
  | a :: rest => a :: dropRepeatsBehind same a rest

variable {same : α → α → Bool} (hsame : ∀ a b, same a b = true ↔ key a = key b)

include hsame

theorem mem_dropRepeatsBehind {prev : α} {l : List α}
    (h : (prev :: l).Pairwise fun a b => key a ≤ key b) (a : α) :
    a ∈ dropRepeatsBehind same prev l ↔
      key a ≠ key prev ∧ (l.filter (key · = key a)).head? = some a := by
  induction l generalizing prev with
  | nil => simp [dropRepeatsBehind]
  | cons b rest ih =>
    obtain ⟨hprev, hrest⟩ := List.pairwise_cons.mp h
    have hbefore : ∀ c ∈ rest, key b ≤ key c := (List.pairwise_cons.mp hrest).1
    rw [dropRepeatsBehind]
    by_cases hb : key b = key prev
    · rw [if_pos ((hsame b prev).mpr hb), ih hrest, hb]
      refine and_congr_right fun hne => ?_
      rw [List.filter_cons_of_neg (by simp [hb, Ne.symm hne])]
    · rw [if_neg (mt (hsame b prev).mp hb), List.mem_cons, ih hrest]
      by_cases ha : key a = key b
      · rw [List.filter_cons_of_pos (by simp [ha]), List.head?_cons, Option.some_inj]
        constructor
        · rintro (rfl | ⟨hne, -⟩)
          · exact ⟨hb, rfl⟩
          · exact absurd ha hne
        · rintro ⟨-, rfl⟩
          exact Or.inl rfl
      · rw [List.filter_cons_of_neg (by simp [Ne.symm ha])]
        constructor
        · rintro (rfl | ⟨-, hfirst⟩)
          · exact absurd rfl ha
          · refine ⟨?_, hfirst⟩
            have hmem : a ∈ rest := List.mem_of_mem_filter (List.mem_of_mem_head? hfirst)
            intro heq
            have hle := hbefore a hmem
            rw [heq] at hle
            exact hb (le_antisymm hle (hprev b List.mem_cons_self))
        · rintro ⟨-, hfirst⟩
          exact Or.inr ⟨ha, hfirst⟩

/-- Of the elements of one key the first stays. -/
theorem mem_dropRepeats {l : List α} (h : l.Pairwise fun a b => key a ≤ key b) (a : α) :
    a ∈ dropRepeats same l ↔ (l.filter (key · = key a)).head? = some a := by
  cases l with
  | nil => simp [dropRepeats]
  | cons b rest =>
    rw [dropRepeats, List.mem_cons, mem_dropRepeatsBehind hsame h]
    by_cases ha : key a = key b
    · rw [List.filter_cons_of_pos (by simp [ha]), List.head?_cons, Option.some_inj]
      constructor
      · rintro (rfl | ⟨hne, -⟩)
        · rfl
        · exact absurd ha hne
      · rintro rfl
        exact Or.inl rfl
    · rw [List.filter_cons_of_neg (by simp [Ne.symm ha])]
      constructor
      · rintro (rfl | ⟨-, hfirst⟩)
        · exact absurd rfl ha
        · exact hfirst
      · intro hfirst
        exact Or.inr ⟨ha, hfirst⟩

theorem dropRepeatsBehind_increasing {prev : α} {l : List α}
    (h : (prev :: l).Pairwise fun a b => key a ≤ key b) :
    (prev :: dropRepeatsBehind same prev l).Pairwise fun a b => key a < key b := by
  induction l generalizing prev with
  | nil => exact List.pairwise_singleton _ _
  | cons b rest ih =>
    obtain ⟨hprev, hrest⟩ := List.pairwise_cons.mp h
    have hle : key prev ≤ key b := hprev b List.mem_cons_self
    have htail := ih hrest
    rw [dropRepeatsBehind]
    by_cases hb : key b = key prev
    · rw [if_pos ((hsame b prev).mpr hb)]
      obtain ⟨hbehind, hlater⟩ := List.pairwise_cons.mp htail
      exact List.pairwise_cons.mpr ⟨fun c hc => hb ▸ hbehind c hc, hlater⟩
    · rw [if_neg (mt (hsame b prev).mp hb)]
      have hlt : key prev < key b := lt_of_le_of_ne hle (Ne.symm hb)
      refine List.pairwise_cons.mpr ⟨?_, htail⟩
      intro c hc
      rcases List.mem_cons.mp hc with rfl | hc
      · exact hlt
      · exact hlt.trans ((List.pairwise_cons.mp htail).1 c hc)

end repeats

section distinct

variable (key)

/-- A list in the order of a key, with one element of each key. -/
def distinct (same : α → α → Bool) (l : List α) : List α := dropRepeats same (inOrder key l)

variable {key} {same : α → α → Bool} (hsame : ∀ a b, same a b = true ↔ key a = key b)

include hsame

theorem mem_distinct (l : List α) (a : α) :
    a ∈ distinct key same l ↔ (l.filter (key · = key a)).head? = some a := by
  rw [distinct, mem_dropRepeats hsame (inOrder_sorted key l), (inOrder_stable key l).stable]

/-- An element stays when none of its key comes before it. -/
theorem mem_distinct_iff (l : List α) (a : α) : a ∈ distinct key same l ↔
    ∃ before after, l = before ++ a :: after ∧ ∀ b ∈ before, key b ≠ key a := by
  rw [mem_distinct hsame, List.head?_filter, List.find?_eq_some_iff_append]
  simp

theorem distinct_increasing (l : List α) :
    (distinct key same l).Pairwise fun a b => key a < key b := by
  have hsorted := inOrder_sorted key l
  rw [distinct]
  cases hlist : inOrder key l with
  | nil => exact List.Pairwise.nil
  | cons a rest =>
    rw [hlist] at hsorted
    exact dropRepeatsBehind_increasing hsame hsorted

theorem mem_of_mem_distinct {l : List α} {a : α} (h : a ∈ distinct key same l) : a ∈ l :=
  List.mem_of_mem_filter (List.mem_of_mem_head? ((mem_distinct hsame l a).mp h))

/-- Each element is there itself or has one of its key in its place. -/
theorem exists_mem_distinct {l : List α} {a : α} (h : a ∈ l) :
    ∃ b ∈ distinct key same l, key b = key a := by
  cases hclass : l.filter (key · = key a) with
  | nil => exact absurd (List.filter_eq_nil_iff.mp hclass a h) (by simp)
  | cons b rest =>
    have hb : key b = key a := by
      have hmem : b ∈ l.filter (key · = key a) := by simp [hclass]
      exact of_decide_eq_true (List.mem_filter.mp hmem).2
    refine ⟨b, (mem_distinct hsame l b).mpr ?_, hb⟩
    rw [hb, hclass]
    rfl

end distinct

end Solarcido.Succession
