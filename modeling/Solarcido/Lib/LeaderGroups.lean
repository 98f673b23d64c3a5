import Mathlib.Data.List.DropRight
import Mathlib.Data.List.TakeWhile

namespace Solarcido.LeaderGroups

variable {α : Type}

-- An element follows, or leads the followers right behind it.
variable (follows : α → Bool) (Fits : α → List α → Prop)

/-- Each leader's followers fit it. Followers at the front have no leader. -/
def Led : List α → Prop
  | [] => True
  | a :: rest => (follows a = false → Fits a (rest.takeWhile follows)) ∧ Led rest

/-- The first element leads. -/
def StartsFresh (l : List α) : Prop := ∀ a ∈ l.head?, follows a = false

/-- A list of groups: each follower has a leader, and each leader's followers fit it. -/
structure Grouped (l : List α) : Prop where
  fresh : StartsFresh follows l
  led : Led follows Fits l

instance decidableLed [∀ a l, Decidable (Fits a l)] : (l : List α) → Decidable (Led follows Fits l)
  | [] => .isTrue trivial
  | a :: rest =>
    let _ := decidableLed rest
    inferInstanceAs (Decidable ((follows a = false → Fits a (rest.takeWhile follows)) ∧
      Led follows Fits rest))

instance (l : List α) : Decidable (StartsFresh follows l) :=
  inferInstanceAs (Decidable (∀ a ∈ l.head?, follows a = false))

theorem grouped_iff (l : List α) :
    Grouped follows Fits l ↔ StartsFresh follows l ∧ Led follows Fits l :=
  ⟨fun h => ⟨h.fresh, h.led⟩, fun h => ⟨h.1, h.2⟩⟩

instance [∀ a l, Decidable (Fits a l)] (l : List α) : Decidable (Grouped follows Fits l) :=
  decidable_of_iff _ (grouped_iff follows Fits l).symm

variable {follows Fits}

theorem takeWhile_eq_nil {l : List α} (h : StartsFresh follows l) : l.takeWhile follows = [] := by
  cases l with
  | nil => rfl
  | cons a l =>
    rw [List.takeWhile_cons, h a (by simp)]
    rfl

/-- Followers are looked for up to the next leader only. -/
theorem takeWhile_append_fresh (a : List α) {b : List α} (h : StartsFresh follows b) :
    (a ++ b).takeWhile follows = a.takeWhile follows := by
  rw [List.takeWhile_append]
  split
  · next hall =>
    rw [takeWhile_eq_nil h, List.append_nil]
    exact (List.IsPrefix.eq_of_length (List.takeWhile_prefix follows) hall).symm
  · rfl

/-- What the law says about one place in a list. -/
theorem Led.at {l : List α} (h : Led follows Fits l) {before : List α} {a : α} {after : List α}
    (hl : l = before ++ a :: after) (ha : follows a = false) :
    Fits a (after.takeWhile follows) := by
  induction before generalizing l with
  | nil =>
    subst hl
    exact h.1 ha
  | cons b before ih =>
    subst hl
    exact ih h.2 rfl

theorem Led.append {a b : List α} (ha : Led follows Fits a) (hb : Led follows Fits b)
    (hfresh : StartsFresh follows b) : Led follows Fits (a ++ b) := by
  induction a with
  | nil => exact hb
  | cons x a ih =>
    rw [List.cons_append]
    refine ⟨fun hx => ?_, ih ha.2⟩
    rw [takeWhile_append_fresh a hfresh]
    exact ha.1 hx

theorem Led.right {a b : List α} (h : Led follows Fits (a ++ b)) : Led follows Fits b := by
  induction a with
  | nil => exact h
  | cons x a ih => exact ih h.2

theorem Led.left {a b : List α} (h : Led follows Fits (a ++ b)) (hfresh : StartsFresh follows b) :
    Led follows Fits a := by
  induction a with
  | nil => trivial
  | cons x a ih =>
    rw [List.cons_append] at h
    refine ⟨fun hx => ?_, ih h.2⟩
    have hfits := h.1 hx
    rwa [takeWhile_append_fresh a hfresh] at hfits

theorem StartsFresh.append {a b : List α} (ha : StartsFresh follows a)
    (hb : StartsFresh follows b) : StartsFresh follows (a ++ b) := by
  cases a with
  | nil => exact hb
  | cons x a =>
    intro y hy
    exact ha y (by simpa using hy)

theorem startsFresh_cons {a : α} (l : List α) (ha : follows a = false) :
    StartsFresh follows (a :: l) := by
  intro b hb
  obtain rfl : a = b := by simpa using hb
  exact ha

theorem Grouped.append {a b : List α} (ha : Grouped follows Fits a) (hb : Grouped follows Fits b) :
    Grouped follows Fits (a ++ b) :=
  ⟨ha.fresh.append hb.fresh, ha.led.append hb.led hb.fresh⟩

/-- A leader with its followers is a group. -/
theorem grouped_leader {a : α} {followers : List α} (ha : follows a = false)
    (hfollowers : ∀ b ∈ followers, follows b = true) (hfits : Fits a followers) :
    Grouped follows Fits (a :: followers) := by
  refine ⟨startsFresh_cons _ ha, fun _ => ?_, ?_⟩
  · rw [List.takeWhile_eq_self_iff.mpr hfollowers]
    exact hfits
  · clear hfits
    induction followers with
    | nil => trivial
    | cons b followers ih =>
      refine ⟨fun hb => ?_, ih fun c hc => hfollowers c (by simp [hc])⟩
      rw [hfollowers b (by simp)] at hb
      exact absurd hb (by simp)

theorem grouped_nil : Grouped follows Fits [] := ⟨fun _ h => by simp at h, trivial⟩

/-- Dropping leaderless followers off the front of a rest leaves groups. -/
theorem grouped_dropWhile {l : List α} (h : Led follows Fits l) :
    Grouped follows Fits (l.dropWhile follows) := by
  refine ⟨fun a ha => ?_, ?_⟩
  · have hne : l.dropWhile follows ≠ [] := by
      intro hnil
      simp [hnil] at ha
    have hhead := List.head_dropWhile_not follows hne
    rw [List.head?_eq_some_head hne] at ha
    obtain rfl : (l.dropWhile follows).head hne = a := by simpa using ha
    exact hhead
  · have hl := List.takeWhile_append_dropWhile (p := follows) (l := l)
    rw [← hl] at h
    exact h.right

theorem Led.drop {l : List α} (h : Led follows Fits l) (n : Nat) :
    Led follows Fits (l.drop n) := by
  rw [← List.take_append_drop n l] at h
  exact h.right

section last

variable (follows) in
/-- The last leader and the followers behind it. -/
def lastGroup (l : List α) : List α := l.drop ((l.rdropWhile follows).length - 1)

/-- A list that begins with a leader ends with a group. -/
theorem exists_last_leader {l : List α} (hne : l ≠ []) (hfresh : StartsFresh follows l) :
    ∃ front a followers, l = front ++ a :: followers ∧ follows a = false ∧
      ∀ b ∈ followers, follows b = true := by
  have hrest : l.rdropWhile follows ≠ [] := by
    intro hnil
    obtain ⟨a, rest, rfl⟩ := List.exists_cons_of_ne_nil hne
    have hall := List.rdropWhile_eq_nil_iff.mp hnil a (by simp)
    rw [hfresh a (by simp)] at hall
    cases hall
  refine ⟨(l.rdropWhile follows).dropLast, (l.rdropWhile follows).getLast hrest,
    l.rtakeWhile follows, ?_, ?_, fun b hb => List.mem_rtakeWhile_imp hb⟩
  · have hsplit := List.rdropWhile_append_rtakeWhile (p := follows) (l := l)
    rw [← List.dropLast_append_getLast hrest, List.append_assoc] at hsplit
    exact hsplit.symm
  · exact Bool.eq_false_iff.mpr (List.rdropWhile_last_not follows l hrest)

theorem lastGroup_eq {front followers : List α} {a : α} (ha : follows a = false)
    (hfollowers : ∀ b ∈ followers, follows b = true) :
    lastGroup follows (front ++ a :: followers) = a :: followers := by
  have hrest : (front ++ a :: followers).rdropWhile follows = front ++ [a] := by
    induction followers using List.reverseRecOn with
    | nil => exact List.rdropWhile_concat_neg _ _ _ (by simp [ha])
    | append_singleton followers b ih =>
      have hb : follows b = true := hfollowers b (by simp)
      rw [← List.cons_append, ← List.append_assoc, List.rdropWhile_concat_pos _ _ _ hb]
      exact ih fun c hc => hfollowers c (by simp [hc])
  rw [lastGroup, hrest, List.length_append]
  exact List.drop_left

theorem dropWhile_keeps_leader {front followers : List α} {a : α} (ha : follows a = false) :
    a :: followers <:+ (front ++ a :: followers).dropWhile follows := by
  induction front with
  | nil =>
    have hstop : (a :: followers).dropWhile follows = a :: followers :=
      List.dropWhile_cons_of_neg (by simp [ha])
    simp only [List.nil_append, hstop, List.suffix_rfl]
  | cons b front ih =>
    rw [List.cons_append]
    by_cases hb : follows b = true
    · rw [List.dropWhile_cons_of_pos hb]
      exact ih
    · rw [List.dropWhile_cons_of_neg hb]
      exact (List.suffix_append front _).trans (List.suffix_cons b _)

/-- The last elements of a list, begun with a leader, hold the last group exactly when
they are as many as it has. -/
theorem lastGroup_suffix_iff {l : List α} (hne : l ≠ []) (hfresh : StartsFresh follows l) (n : Nat) :
    lastGroup follows l <:+ (l.drop (l.length - n)).dropWhile follows ↔
      (lastGroup follows l).length ≤ n := by
  obtain ⟨front, a, followers, rfl, ha, hfollowers⟩ := exists_last_leader hne hfresh
  rw [lastGroup_eq ha hfollowers]
  constructor
  · intro hsuffix
    have hle := hsuffix.length_le.trans (List.dropWhile_suffix follows).length_le
    rw [List.length_drop] at hle
    omega
  · intro hle
    have hdrop : (front ++ a :: followers).length - n ≤ front.length := by
      rw [List.length_append]
      omega
    rw [List.drop_append_of_le_length hdrop]
    exact dropWhile_keeps_leader ha

end last

end Solarcido.LeaderGroups
