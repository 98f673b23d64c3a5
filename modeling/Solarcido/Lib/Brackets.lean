import Mathlib.Logic.Function.Basic
import Solarcido.Lib.Serial

namespace Solarcido.Brackets

variable {I : Type} [DecidableEq I]

/-- Something is opened, used, or closed. -/
inductive Mark (I : Type) where
  | opens (i : I)
  | uses (i : I)
  | closes (i : I)
  deriving DecidableEq

inductive Phase where
  | fresh
  | opened
  | closed
  deriving DecidableEq

/-- Everything is opened at most once, closed exactly once after that, and used in between. -/
structure WellBracketed (marks : List (Mark I)) : Prop where
  opened_once : ∀ i, marks.count (.opens i) ≤ 1
  closed_once : ∀ i, .opens i ∈ marks → marks.count (.closes i) = 1
  closed_after : ∀ before i after, marks = before ++ .closes i :: after → .opens i ∈ before
  used_between : ∀ before i after, marks = before ++ .uses i :: after →
    .opens i ∈ before ∧ .closes i ∉ before

/-- Marks in an order that keeps to the phases, and the phases they lead to. -/
inductive Reaches : List (Mark I) → (I → Phase) → Prop where
  | start : Reaches [] fun _ => .fresh
  | opens {marks : List (Mark I)} {phase : I → Phase} (i : I) (run : Reaches marks phase)
      (h : phase i = .fresh) : Reaches (marks ++ [.opens i]) (Function.update phase i .opened)
  | uses {marks : List (Mark I)} {phase : I → Phase} (i : I) (run : Reaches marks phase)
      (h : phase i = .opened) : Reaches (marks ++ [.uses i]) phase
  | closes {marks : List (Mark I)} {phase : I → Phase} (i : I) (run : Reaches marks phase)
      (h : phase i = .opened) : Reaches (marks ++ [.closes i]) (Function.update phase i .closed)

namespace Reaches

variable {marks : List (Mark I)} {phase : I → Phase}

theorem count_opens (h : Reaches marks phase) (i : I) :
    marks.count (.opens i) = if phase i = .fresh then 0 else 1 := by
  induction h with
  | start => simp
  | opens j run hj ih =>
    rw [List.count_append, ih]
    by_cases hi : i = j
    · subst hi
      simp [hj]
    · simp [hi, Ne.symm hi]
  | uses j run hj ih =>
    rw [List.count_append, ih]
    simp
  | closes j run hj ih =>
    rw [List.count_append, ih]
    by_cases hi : i = j
    · subst hi
      simp [hj]
    · simp [hi]

theorem count_closes (h : Reaches marks phase) (i : I) :
    marks.count (.closes i) = if phase i = .closed then 1 else 0 := by
  induction h with
  | start => simp
  | opens j run hj ih =>
    rw [List.count_append, ih]
    by_cases hi : i = j
    · subst hi
      simp [hj]
    · simp [hi]
  | uses j run hj ih =>
    rw [List.count_append, ih]
    simp
  | closes j run hj ih =>
    rw [List.count_append, ih]
    by_cases hi : i = j
    · subst hi
      simp [hj]
    · simp [hi, Ne.symm hi]

theorem opened (h : Reaches marks phase) {i : I} (hi : phase i = .opened) :
    .opens i ∈ marks ∧ .closes i ∉ marks := by
  rw [← List.count_pos_iff, ← List.count_eq_zero, h.count_opens, h.count_closes, hi]
  simp

theorem closed_after (h : Reaches marks phase) {before after : List (Mark I)} {i : I}
    (hsplit : marks = before ++ .closes i :: after) : .opens i ∈ before := by
  induction h generalizing after with
  | start => simp at hsplit
  | opens j run hj ih =>
    obtain ⟨-, hlast, -⟩ | ⟨rest, -, hmarks⟩ := Serial.split_snoc hsplit
    · cases hlast
    · exact ih hmarks
  | uses j run hj ih =>
    obtain ⟨-, hlast, -⟩ | ⟨rest, -, hmarks⟩ := Serial.split_snoc hsplit
    · cases hlast
    · exact ih hmarks
  | closes j run hj ih =>
    obtain ⟨-, hlast, rfl⟩ | ⟨rest, -, hmarks⟩ := Serial.split_snoc hsplit
    · cases hlast
      exact (run.opened hj).1
    · exact ih hmarks

theorem used_between (h : Reaches marks phase) {before after : List (Mark I)} {i : I}
    (hsplit : marks = before ++ .uses i :: after) : .opens i ∈ before ∧ .closes i ∉ before := by
  induction h generalizing after with
  | start => simp at hsplit
  | opens j run hj ih =>
    obtain ⟨-, hlast, -⟩ | ⟨rest, -, hmarks⟩ := Serial.split_snoc hsplit
    · cases hlast
    · exact ih hmarks
  | uses j run hj ih =>
    obtain ⟨-, hlast, rfl⟩ | ⟨rest, -, hmarks⟩ := Serial.split_snoc hsplit
    · cases hlast
      exact run.opened hj
    · exact ih hmarks
  | closes j run hj ih =>
    obtain ⟨-, hlast, -⟩ | ⟨rest, -, hmarks⟩ := Serial.split_snoc hsplit
    · cases hlast
    · exact ih hmarks

/-- Marks that keep to the phases and leave nothing open are well bracketed. -/
theorem wellBracketed (h : Reaches marks phase) (hdone : ∀ i, phase i ≠ .opened) :
    WellBracketed marks := by
  refine ⟨?_, ?_, fun before i after => h.closed_after, fun before i after => h.used_between⟩
  · intro i
    rw [h.count_opens]
    split <;> simp
  · intro i hi
    rw [← List.count_pos_iff, h.count_opens] at hi
    rw [h.count_closes]
    cases hphase : phase i with
    | fresh =>
      rw [hphase] at hi
      simp at hi
    | opened => exact absurd hphase (hdone i)
    | closed => rfl

end Reaches

section paths

/-- What a mark for one thing does to its phase. -/
def Phase.next (i : I) : Phase → Mark I → Option Phase
  | .fresh, .opens j => if j = i then some .opened else none
  | .opened, .uses j => if j = i then some .opened else none
  | .opened, .closes j => if j = i then some .closed else none
  | _, _ => none

/-- Marks for one thing that lead from one phase to another. -/
def Path (i : I) (first : Phase) (marks : List (Mark I)) (last : Phase) : Prop :=
  marks.foldlM (Phase.next i) first = some last

variable {i : I} {first middle last : Phase} {marks more : List (Mark I)}

theorem Path.refl (i : I) (phase : Phase) : Path i phase [] phase := rfl

theorem Path.append (h : Path i first marks middle) (h' : Path i middle more last) :
    Path i first (marks ++ more) last := by
  rw [Path] at h
  rw [Path, List.foldlM_append, h]
  exact h'

theorem Path.opens (i : I) : Path i .fresh [.opens i] .opened := by
  simp [Path, Phase.next]

theorem Path.uses (i : I) : Path i .opened [.uses i] .opened := by
  simp [Path, Phase.next]

theorem Path.closes (i : I) : Path i .opened [.closes i] .closed := by
  simp [Path, Phase.next]

/-- One thing goes on while the others rest. -/
theorem Reaches.path {phase : I → Phase} (h : Reaches marks phase)
    (hpath : Path i (phase i) more last) :
    Reaches (marks ++ more) (Function.update phase i last) := by
  induction more generalizing marks phase with
  | nil =>
    obtain rfl : phase i = last := Option.some.inj hpath
    rwa [List.append_nil, Function.update_eq_self]
  | cons mark more ih =>
    rw [Path, List.foldlM_cons] at hpath
    obtain ⟨middle, hnext, hrest⟩ := Option.bind_eq_some_iff.mp hpath
    have hstep : Reaches (marks ++ [mark]) (Function.update phase i middle) := by
      cases hphase : phase i with
      | fresh =>
        cases mark with
        | opens j =>
          simp only [hphase, Phase.next, Option.ite_none_right_eq_some] at hnext
          obtain ⟨rfl, hmiddle⟩ := hnext
          rw [← Option.some.inj hmiddle]
          exact .opens j h hphase
        | uses j => simp [hphase, Phase.next] at hnext
        | closes j => simp [hphase, Phase.next] at hnext
      | opened =>
        cases mark with
        | opens j => simp [hphase, Phase.next] at hnext
        | uses j =>
          simp only [hphase, Phase.next, Option.ite_none_right_eq_some] at hnext
          obtain ⟨rfl, hmiddle⟩ := hnext
          rw [← Option.some.inj hmiddle, ← hphase, Function.update_eq_self]
          exact .uses j h hphase
        | closes j =>
          simp only [hphase, Phase.next, Option.ite_none_right_eq_some] at hnext
          obtain ⟨rfl, hmiddle⟩ := hnext
          rw [← Option.some.inj hmiddle]
          exact .closes j h hphase
      | closed => simp [hphase, Phase.next] at hnext
    have hmore := ih hstep (by rw [Function.update_self]; exact hrest)
    rwa [Function.update_idem, List.append_assoc] at hmore

end paths

end Solarcido.Brackets
