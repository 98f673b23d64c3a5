import Mathlib.Algebra.Order.Group.Defs
import Mathlib.Logic.Function.Basic

namespace Solarcido.ExpiringMap

variable {K V T : Type} [DecidableEq K] [AddCommGroup T] [LinearOrder T]

/-- What was put last under each key, and when. -/
abbrev Contents (K V T : Type) := K → Option (T × V)

def empty : Contents K V T := fun _ => none

def put (m : Contents K V T) (k : K) (now : T) (v : V) : Contents K V T :=
  Function.update m k (some (now, v))

def drop (m : Contents K V T) (k : K) : Contents K V T := Function.update m k none

variable (ttl : T)

def find (m : Contents K V T) (now : T) (k : K) : Option V :=
  (m k).bind fun entry => if now - entry.1 < ttl then some entry.2 else none

/-- A store holds a map at some time: what it has lost has expired. -/
def Holds (now : T) (store m : Contents K V T) : Prop :=
  ∀ k, store k = m k ∨ store k = none ∧ ∃ entry, m k = some entry ∧ ttl ≤ now - entry.1

variable {ttl} {now : T} {store m : Contents K V T}

omit [DecidableEq K] in
theorem holds_self : Holds ttl now m m := fun _ => Or.inl rfl

omit [DecidableEq K] in
theorem Holds.find_eq (h : Holds ttl now store m) (k : K) :
    find ttl store now k = find ttl m now k := by
  obtain heq | ⟨hnone, entry, hentry, hold⟩ := h k
  · rw [find, heq, find]
  · rw [find, hnone, find, hentry, Option.bind_some, if_neg (not_lt.mpr hold)]
    rfl

theorem Holds.put (h : Holds ttl now store m) (k : K) (v : V) :
    Holds ttl now (put store k now v) (put m k now v) := by
  intro k'
  by_cases hk : k' = k
  · subst hk
    exact Or.inl (by simp [ExpiringMap.put])
  · simpa [ExpiringMap.put, hk] using h k'

/-- An entry that has expired can be lost. -/
theorem Holds.drop (h : Holds ttl now store m) {k : K} {entry : T × V}
    (hentry : store k = some entry) (hold : ttl ≤ now - entry.1) :
    Holds ttl now (drop store k) m := by
  intro k'
  by_cases hk : k' = k
  · subst hk
    obtain heq | ⟨hnone, -⟩ := h k'
    · exact Or.inr ⟨by simp [ExpiringMap.drop], entry, by rw [← heq, hentry], hold⟩
    · rw [hnone] at hentry
      exact absurd hentry (by simp)
  · simpa [ExpiringMap.drop, hk] using h k'

omit [DecidableEq K] in
/-- What has expired stays so. -/
theorem Holds.later [IsOrderedAddMonoid T] (h : Holds ttl now store m) {later : T}
    (hlater : now ≤ later) : Holds ttl later store m := by
  intro k
  obtain heq | ⟨hnone, entry, hentry, hold⟩ := h k
  · exact Or.inl heq
  · exact Or.inr ⟨hnone, entry, hentry, hold.trans (sub_le_sub_right hlater entry.1)⟩

end Solarcido.ExpiringMap
