import Mathlib.Data.List.Induction
import Mathlib.Data.List.Sort

namespace Solarcido.Succession

section order

variable {α κ : Type} [LinearOrder κ] (key : α → κ)

/-- A list in the order of a key. -/
def inOrder (l : List α) : List α := l.mergeSort fun a b => decide (key a ≤ key b)

theorem inOrder_perm (l : List α) : (inOrder key l).Perm l := List.mergeSort_perm l _

theorem keyLe_trans (a b c : α) (hab : decide (key a ≤ key b) = true)
    (hbc : decide (key b ≤ key c) = true) : decide (key a ≤ key c) = true :=
  decide_eq_true ((of_decide_eq_true hab).trans (of_decide_eq_true hbc))

theorem keyLe_total (a b : α) : (decide (key a ≤ key b) || decide (key b ≤ key a)) = true := by
  simp [le_total (key a) (key b)]

theorem inOrder_sorted (l : List α) : (inOrder key l).Pairwise fun a b => key a ≤ key b :=
  (List.pairwise_mergeSort (keyLe_trans key) (keyLe_total key) l).imp of_decide_eq_true

variable {key} {l m : List α}

theorem inOrder_increasing (h : (l.map key).Nodup) :
    (inOrder key l).Pairwise fun a b => key a < key b := by
  have hnodup : ((inOrder key l).map key).Nodup := ((inOrder_perm key l).map key).nodup_iff.mpr h
  have hne : (inOrder key l).Pairwise fun a b => key a ≠ key b := List.pairwise_map.mp hnodup
  apply (inOrder_sorted key l).imp₂ _ hne
  intro a b hle hne
  exact lt_of_le_of_ne hle hne

/-- With distinct keys the order does not depend on the order before. -/
theorem inOrder_eq_of_perm (h : l.Perm m) (hdistinct : (l.map key).Nodup) :
    inOrder key l = inOrder key m := by
  have hother : (m.map key).Nodup := (h.map key).nodup_iff.mp hdistinct
  apply List.Perm.eq_of_pairwise _ (inOrder_increasing hdistinct) (inOrder_increasing hother)
  · exact ((inOrder_perm key l).trans h).trans (inOrder_perm key m).symm
  · intro a b _ _ hab hba
    exact absurd hab hba.asymm

theorem inOrder_filter (h : (l.map key).Nodup) (p : α → Bool) :
    inOrder key (l.filter p) = (inOrder key l).filter p := by
  have hfilter : ((l.filter p).map key).Nodup := h.sublist (List.filter_sublist.map key)
  apply List.Perm.eq_of_pairwise _ (inOrder_increasing hfilter)
    ((inOrder_increasing h).filter p)
  · exact (inOrder_perm key _).trans ((inOrder_perm key l).filter p).symm
  · intro a b _ _ hab hba
    exact absurd hab hba.asymm

/-- What has a larger key than a member stands behind it. -/
theorem mem_behind {before after : List α} {a b : α}
    (h : (before ++ a :: after).Pairwise fun a b => key a < key b)
    (hb : b ∈ before ++ a :: after) (hlt : key a < key b) : b ∈ after := by
  obtain ⟨-, -, hbefore⟩ := List.pairwise_append.mp h
  obtain hb | hb := List.mem_append.mp hb
  · exact absurd hlt (hbefore b hb a List.mem_cons_self).asymm
  · obtain rfl | hb := List.mem_cons.mp hb
    · exact absurd hlt (lt_irrefl _)
    · exact hb

/-- Of two members the one with the smaller key comes first. -/
theorem pair_sublist_iff (h : l.Pairwise fun a b => key a < key b) (a b : α) :
    [a, b].Sublist l ↔ a ∈ l ∧ b ∈ l ∧ key a < key b := by
  constructor
  · intro hpair
    have hlt := (h.sublist hpair)
    simp only [List.pairwise_cons, List.mem_singleton, forall_eq] at hlt
    exact ⟨hpair.subset (by simp), hpair.subset (by simp), hlt.1⟩
  · rintro ⟨ha, hb, hlt⟩
    obtain ⟨before, after, rfl⟩ := List.append_of_mem ha
    have hbehind := mem_behind h hb hlt
    apply List.Sublist.trans _ (List.sublist_append_right before _)
    exact (List.singleton_sublist.mpr hbehind).cons_cons a

end order

section holders

variable {α : Type} (replaces : α → α → Bool)

/-- Who holds a place after another has come. -/
def succeed : Option α → α → Option α
  | none, a => some a
  | some b, a => some (if replaces b a then a else b)

/-- Who holds the place at the end. -/
def lastHolder (l : List α) : Option α := l.foldl (succeed replaces) none

theorem lastHolder_snoc (l : List α) (a : α) :
    lastHolder replaces (l ++ [a]) = succeed replaces (lastHolder replaces l) a := by
  rw [lastHolder, List.foldl_append]
  rfl

theorem lastHolder_eq_none_iff (l : List α) : lastHolder replaces l = none ↔ l = [] := by
  induction l using List.reverseRecOn with
  | nil => simp [lastHolder]
  | append_singleton l a ih =>
    rw [lastHolder_snoc]
    cases lastHolder replaces l <;> simp [succeed]

theorem lastHolder_append_kept {l m : List α} {a : α} (h : lastHolder replaces l = some a)
    (hkept : ∀ b ∈ m, replaces a b = false) : lastHolder replaces (l ++ m) = some a := by
  induction m using List.reverseRecOn with
  | nil => rwa [List.append_nil]
  | append_singleton m b ih =>
    rw [← List.append_assoc, lastHolder_snoc, ih (fun c hc => hkept c (by simp [hc]))]
    simp [succeed, hkept b (by simp)]

/-- The last holder took the place when it came. -/
theorem lastHolder_split {l : List α} {a : α} (h : lastHolder replaces l = some a) :
    ∃ before after, l = before ++ a :: after ∧ lastHolder replaces (before ++ [a]) = some a ∧
      ∀ b ∈ after, replaces a b = false := by
  induction l using List.reverseRecOn with
  | nil => cases h
  | append_singleton l c ih =>
    by_cases hc : c = a
    · subst hc
      exact ⟨l, [], rfl, h, by simp⟩
    · rw [lastHolder_snoc] at h
      cases hbefore : lastHolder replaces l with
      | none =>
        rw [hbefore] at h
        exact absurd (Option.some.inj h) hc
      | some b =>
        rw [hbefore] at h
        have hheld : (if replaces b c then c else b) = a := Option.some.inj h
        by_cases hreplaces : replaces b c = true
        · rw [if_pos hreplaces] at hheld
          exact absurd hheld hc
        · rw [if_neg hreplaces] at hheld
          subst hheld
          obtain ⟨before, after, rfl, htook, hafter⟩ := ih hbefore
          refine ⟨before, after ++ [c], by simp, htook, ?_⟩
          intro d hd
          rcases List.mem_append.mp hd with hd | hd
          · exact hafter d hd
          · rw [List.mem_singleton.mp hd]
            exact Bool.not_eq_true _ ▸ hreplaces

/-- The last holder is one of those who came, and none of those behind replaces it. -/
theorem lastHolder_spec {l : List α} {a : α} (h : lastHolder replaces l = some a) :
    ∃ before after, l = before ++ a :: after ∧ ∀ b ∈ after, replaces a b = false := by
  obtain ⟨before, after, hl, -, hafter⟩ := lastHolder_split replaces h
  exact ⟨before, after, hl, hafter⟩

/-- Those who take the place: the first, and behind each the first who replaces it. -/
inductive Reached (l : List α) : α → Prop
  | first (a : α) (after : List α) : l = a :: after → Reached l a
  | next (a b : α) (before between after : List α) : Reached l a →
      l = before ++ a :: between ++ b :: after →
      (∀ c ∈ between, replaces a c = false) → replaces a b = true → Reached l b

variable {replaces}

theorem Reached.mono {l m : List α} {a : α} (h : Reached replaces l a) :
    Reached replaces (l ++ m) a := by
  induction h with
  | first a after hl => exact .first a (after ++ m) (by rw [hl]; rfl)
  | next a b before between after _ hl hkept hreplaced ih =>
    exact .next a b before between (after ++ m) ih (by rw [hl]; simp) hkept hreplaced

theorem split_unique {l before before' after after' : List α} {a : α} (hnodup : l.Nodup)
    (h : l = before ++ a :: after) (h' : l = before' ++ a :: after') : before = before' := by
  rw [h, List.nodup_middle, List.nodup_cons, List.mem_append, not_or] at hnodup
  obtain ⟨⟨hbefore, hafter⟩, -⟩ := hnodup
  exact ((List.append_cons_inj_of_notMem hbefore hafter).mp (h.symm.trans h')).1

theorem reached_iff {l : List α} (hnodup : l.Nodup) (a : α) : Reached replaces l a ↔
    ∃ before after, l = before ++ a :: after ∧ lastHolder replaces (before ++ [a]) = some a := by
  constructor
  · intro h
    induction h with
    | first a after hl => exact ⟨[], after, hl, rfl⟩
    | next a b before between after _ hl hkept hreplaced ih =>
      obtain ⟨first, rest, hsplit, htook⟩ := ih
      have hl' : l = before ++ a :: (between ++ b :: after) := by
        rw [hl, List.append_assoc, List.cons_append]
      have hsame : first = before := split_unique hnodup hsplit hl'
      subst hsame
      refine ⟨first ++ a :: between, after, hl, ?_⟩
      have hheld : lastHolder replaces (first ++ a :: between) = some a := by
        have h := lastHolder_append_kept replaces htook hkept
        simpa using h
      rw [lastHolder_snoc, hheld]
      simp [succeed, hreplaced]
  · rintro ⟨before, after, hl, htook⟩
    induction hn : before.length using Nat.strong_induction_on generalizing a before after with
    | _ n ih =>
      cases hheld : lastHolder replaces before with
      | none =>
        rw [lastHolder_eq_none_iff] at hheld
        subst hheld
        exact .first a after hl
      | some b =>
        obtain ⟨first, between, hbefore, hb, hkept⟩ := lastHolder_split replaces hheld
        subst hbefore
        have hne : b ≠ a := by
          rintro rfl
          rw [hl] at hnodup
          exact List.disjoint_of_nodup_append hnodup (by simp) List.mem_cons_self
        have hreplaced : replaces b a = true := by
          rw [lastHolder_snoc, hheld] at htook
          by_contra h
          rw [Bool.not_eq_true] at h
          exact hne (by simpa [succeed, h] using htook)
        apply Reached.next b a first between after _ hl hkept hreplaced
        apply ih first.length _ b first (between ++ a :: after) (hl.trans (by simp)) hb rfl
        rw [← hn]
        simp

theorem reached_mem {l : List α} {a : α} (h : Reached replaces l a) : a ∈ l := by
  cases h with
  | first _ after hl => simp [hl]
  | next b _ before between after _ hl => simp [hl]

variable {κ : Type} [LinearOrder κ] {key : α → κ}

/-- In the order of a key the last holder took the place, and none with a greater key replaces
it. -/
theorem lastHolder_iff_reached {l : List α} (h : l.Pairwise fun a b => key a < key b) (a : α) :
    lastHolder replaces l = some a ↔
      Reached replaces l a ∧ ∀ b ∈ l, key a < key b → replaces a b = false := by
  have hnodup : l.Nodup := h.imp fun hlt heq => absurd (heq ▸ hlt) (lt_irrefl _)
  rw [reached_iff hnodup]
  constructor
  · intro hlast
    obtain ⟨before, after, hl, htook, hafter⟩ := lastHolder_split replaces hlast
    refine ⟨⟨before, after, hl, htook⟩, ?_⟩
    intro b hb hlt
    rw [hl] at h hb
    obtain ⟨-, -, hbefore⟩ := List.pairwise_append.mp h
    rcases List.mem_append.mp hb with hb | hb
    · exact absurd hlt (hbefore b hb a List.mem_cons_self).asymm
    · rcases List.mem_cons.mp hb with rfl | hb
      · exact absurd hlt (lt_irrefl _)
      · exact hafter b hb
  · rintro ⟨⟨before, after, hl, htook⟩, hkept⟩
    have hlater : ∀ b ∈ after, replaces a b = false := by
      intro b hb
      apply hkept b (by simp [hl, hb])
      rw [hl] at h
      exact List.rel_of_pairwise_cons (List.pairwise_append.mp h).2.1 hb
    have hall := lastHolder_append_kept replaces htook hlater
    simpa [hl] using hall

/-- A part of the members has the same last holder exactly when it is reached in both. -/
theorem lastHolder_sublist_iff {l m : List α} (h : l.Pairwise fun a b => key a < key b)
    (hm : m.Sublist l) : lastHolder replaces l = lastHolder replaces m ↔
      l = [] ∨ ∃ a, Reached replaces l a ∧ Reached replaces m a ∧
        ∀ b ∈ l, key a < key b → replaces a b = false := by
  have hpart := h.sublist hm
  constructor
  · intro hsame
    cases hlast : lastHolder replaces l with
    | none => exact Or.inl ((lastHolder_eq_none_iff replaces l).mp hlast)
    | some a =>
      obtain ⟨hreached, hkept⟩ := (lastHolder_iff_reached h a).mp hlast
      have hreached' := ((lastHolder_iff_reached hpart a).mp (hsame.symm.trans hlast)).1
      exact Or.inr ⟨a, hreached, hreached', hkept⟩
  · rintro (rfl | ⟨a, hreached, hreached', hkept⟩)
    · rw [List.sublist_nil.mp hm]
    · rw [(lastHolder_iff_reached h a).mpr ⟨hreached, hkept⟩,
        (lastHolder_iff_reached hpart a).mpr
          ⟨hreached', fun b hb => hkept b (hm.subset hb)⟩]

end holders

end Solarcido.Succession
