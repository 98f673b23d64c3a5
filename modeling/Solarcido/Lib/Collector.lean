import Mathlib.Data.List.Forall2
import Mathlib.Data.List.Nodup

namespace Solarcido.Collector

/-- What an element of a list is read as: nothing, an entry without a name, or an entry with a
name, the errors in it, and the item it gives. -/
inductive Reading (ε κ α : Type) where
  | skipped
  | unnamed (error : ε)
  | entry (name : κ) (errors : List ε) (item : Option α)

structure Collected (ε κ α : Type) where
  errors : List ε
  seen : List κ
  kept : List α

variable {ε κ α ρ : Type} [DecidableEq κ]

namespace Reading

def isSkipped : Reading ε κ α → Bool
  | .skipped => true
  | _ => false

end Reading

section collect

variable (read : ρ → Reading ε κ α) (duplicate : κ → ε)

/-- An entry of a name that was seen is an error, and is looked at no further. -/
def collect (s : Collected ε κ α) (raw : ρ) : Collected ε κ α :=
  match read raw with
  | .skipped => s
  | .unnamed error => { s with errors := s.errors ++ [error] }
  | .entry name errors item =>
    if name ∈ s.seen then { s with errors := s.errors ++ [duplicate name] }
    else ⟨s.errors ++ errors, s.seen ++ [name], s.kept ++ item.toList⟩

def collectAll (s : Collected ε κ α) (raws : List ρ) : Collected ε κ α :=
  raws.foldl (collect read duplicate) s

end collect

variable {read : ρ → Reading ε κ α} {duplicate : κ → ε} {nameOf : α → κ}
  {s : Collected ε κ α} {raws : List ρ} {items : List α}

/-- An entry without errors gives an item, and the item has the entry's name. -/
def Sound (read : ρ → Reading ε κ α) (nameOf : α → κ) : Prop :=
  ∀ raw name item, read raw = .entry name [] item → ∃ a, item = some a ∧ nameOf a = name

/-- The element is read as the item, without an error. -/
def ReadsAs (read : ρ → Reading ε κ α) (nameOf : α → κ) (raw : ρ) (a : α) : Prop :=
  read raw = .entry (nameOf a) [] (some a)

section entries

variable {Read : ρ → α → Prop} (hentry : ∀ raw name item, read raw = .entry name [] item →
  ∃ a, item = some a ∧ nameOf a = name ∧ Read raw a)

include hentry

omit [DecidableEq κ]

theorem sound_of_entry : Sound read nameOf := by
  intro raw name item h
  obtain ⟨a, hitem, hname, -⟩ := hentry raw name item h
  exact ⟨a, hitem, hname⟩

theorem read_of_readsAs {raw : ρ} {a : α} (h : ReadsAs read nameOf raw a) : Read raw a := by
  obtain ⟨_, hitem, -, hread⟩ := hentry raw _ _ h
  rwa [← Option.some.inj hitem] at hread

end entries

theorem collectAll_cons (s : Collected ε κ α) (raw : ρ) (raws : List ρ) :
    collectAll read duplicate s (raw :: raws) =
      collectAll read duplicate (collect read duplicate s raw) raws := rfl

/-- An element that adds no error is skipped, or gives an item of a new name. -/
theorem collect_errors_nil (hsound : Sound read nameOf) {raw : ρ}
    (h : (collect read duplicate s raw).errors = []) :
    s.errors = [] ∧
      (read raw = .skipped ∧ collect read duplicate s raw = s ∨
        ∃ a, ReadsAs read nameOf raw a ∧ nameOf a ∉ s.seen ∧
          collect read duplicate s raw = ⟨[], s.seen ++ [nameOf a], s.kept ++ [a]⟩) := by
  rw [collect] at h ⊢
  cases hread : read raw with
  | skipped =>
    rw [hread] at h
    exact ⟨h, .inl ⟨rfl, rfl⟩⟩
  | unnamed error =>
    rw [hread] at h
    exact absurd h (List.append_ne_nil_of_right_ne_nil _ (by simp))
  | entry name errors item =>
    rw [hread] at h
    dsimp only at h ⊢
    by_cases hseen : name ∈ s.seen
    · rw [if_pos hseen] at h
      exact absurd h (List.append_ne_nil_of_right_ne_nil _ (by simp))
    · rw [if_neg hseen] at h ⊢
      obtain ⟨hbefore, rfl⟩ := List.append_eq_nil_iff.mp h
      obtain ⟨a, rfl, rfl⟩ := hsound raw name item hread
      refine ⟨hbefore, .inr ⟨a, hread, hseen, ?_⟩⟩
      rw [hbefore]
      rfl

/-- A run without an error reads each element it does not skip as an item, the names of the items
being distinct. -/
theorem collectAll_errors_nil (hsound : Sound read nameOf)
    (h : (collectAll read duplicate s raws).errors = []) :
    s.errors = [] ∧ ∃ items,
      List.Forall₂ (ReadsAs read nameOf) (raws.filter fun raw => !(read raw).isSkipped) items ∧
      (items.map nameOf).Nodup ∧ (∀ a ∈ items, nameOf a ∉ s.seen) ∧
      collectAll read duplicate s raws = ⟨[], s.seen ++ items.map nameOf, s.kept ++ items⟩ := by
  induction raws generalizing s with
  | nil =>
    have hs : s.errors = [] := h
    refine ⟨hs, [], .nil, .nil, by simp, ?_⟩
    rw [List.map_nil, List.append_nil, List.append_nil, ← hs]
    rfl
  | cons raw raws ih =>
    obtain ⟨hnext, items, hreads, hnodup, hnew, hrun⟩ := ih h
    obtain ⟨hs, ⟨hskip, heq⟩ | ⟨a, hread, hseen, heq⟩⟩ := collect_errors_nil hsound hnext
    · rw [heq] at hnew hrun
      refine ⟨hs, items, ?_, hnodup, hnew, ?_⟩
      · rw [List.filter_cons_of_neg (by simp [hskip, Reading.isSkipped])]
        exact hreads
      · rw [collectAll_cons, heq, hrun]
    · rw [heq] at hnew hrun
      refine ⟨hs, a :: items, ?_, ?_, ?_, ?_⟩
      · have hread' : read raw = .entry (nameOf a) [] (some a) := hread
        rw [List.filter_cons_of_pos (by simp [hread', Reading.isSkipped])]
        exact .cons hread hreads
      · refine List.nodup_cons.mpr ⟨fun hmem => ?_, hnodup⟩
        obtain ⟨b, hb, hname⟩ := List.mem_map.mp hmem
        exact hnew b hb (by simp [hname])
      · intro b hb
        rcases List.mem_cons.mp hb with rfl | hb
        · exact hseen
        · exact fun hmem => hnew b hb (List.mem_append_left _ hmem)
      · rw [collectAll_cons, heq, hrun, List.map_cons, List.append_assoc, List.append_assoc,
          List.singleton_append, List.singleton_append]

/-- Elements that are read as items of distinct new names are collected without an error. -/
theorem collectAll_of_reads
    (hreads : List.Forall₂ (ReadsAs read nameOf) (raws.filter fun raw => !(read raw).isSkipped) items)
    (hnodup : (items.map nameOf).Nodup) (hnew : ∀ a ∈ items, nameOf a ∉ s.seen) :
    collectAll read duplicate s raws =
      ⟨s.errors, s.seen ++ items.map nameOf, s.kept ++ items⟩ := by
  induction raws generalizing s items with
  | nil =>
    cases hreads
    simp [collectAll]
  | cons raw raws ih =>
    cases hskip : (read raw).isSkipped with
    | true =>
      have hstep : collect read duplicate s raw = s := by
        rw [collect]
        cases hread : read raw with
        | skipped => rfl
        | unnamed | entry =>
          rw [hread] at hskip
          cases hskip
      rw [List.filter_cons_of_neg (by simp [hskip])] at hreads
      rw [collectAll_cons, hstep, ih hreads hnodup hnew]
    | false =>
      rw [List.filter_cons_of_pos (by simp [hskip])] at hreads
      obtain ⟨a, others, hread, hothers, rfl⟩ := List.forall₂_cons_left_iff.mp hreads
      have hstep : collect read duplicate s raw =
          ⟨s.errors, s.seen ++ [nameOf a], s.kept ++ [a]⟩ := by
        rw [ReadsAs] at hread
        rw [collect, hread]
        dsimp only
        rw [if_neg (hnew a List.mem_cons_self), List.append_nil]
        rfl
      obtain ⟨hfirst, hrest⟩ := List.nodup_cons.mp hnodup
      have hlater : ∀ b ∈ others, nameOf b ∉ s.seen ++ [nameOf a] := by
        intro b hb hmem
        rcases List.mem_append.mp hmem with hmem | hmem
        · exact hnew b (List.mem_cons_of_mem a hb) hmem
        · rw [← List.mem_singleton.mp hmem] at hfirst
          exact hfirst (List.mem_map_of_mem hb)
      rw [collectAll_cons, hstep, ih hothers hrest hlater, List.map_cons, List.append_assoc,
        List.append_assoc, List.singleton_append, List.singleton_append]

theorem forall_left {β : Type} {R : ρ → β → Prop} {P : ρ → Prop} {bs : List β}
    (h : List.Forall₂ R raws bs) (hR : ∀ raw b, R raw b → P raw) : ∀ raw ∈ raws, P raw := by
  induction h with
  | nil => simp
  | cons hfirst _ ih => exact List.forall_mem_cons.mpr ⟨hR _ _ hfirst, ih⟩

omit [DecidableEq κ] in
theorem filter_of_reads (h : List.Forall₂ (ReadsAs read nameOf) raws items) :
    raws.filter (fun raw => !(read raw).isSkipped) = raws := by
  induction h with
  | nil => rfl
  | cons hread _ ih =>
    rw [ReadsAs] at hread
    rw [List.filter_cons_of_pos (by simp [hread, Reading.isSkipped]), ih]

omit [DecidableEq κ] in
/-- Items that were read are read back from what is written of them. -/
theorem reads_map {write : α → ρ} (h : List.Forall₂ (ReadsAs read nameOf) raws items)
    (hwrite : ∀ raw a, ReadsAs read nameOf raw a → ReadsAs read nameOf (write a) a) :
    List.Forall₂ (ReadsAs read nameOf)
      ((items.map write).filter fun raw => !(read raw).isSkipped) items := by
  have hback : List.Forall₂ (ReadsAs read nameOf) (items.map write) items := by
    induction h with
    | nil => exact .nil
    | cons hread _ ih => exact .cons (hwrite _ _ hread) ih
  rw [filter_of_reads hback]
  exact hback

end Solarcido.Collector
