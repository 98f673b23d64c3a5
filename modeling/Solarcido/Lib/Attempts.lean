import Mathlib.Data.List.Basic
import Mathlib.Order.Monotone.Basic

namespace Solarcido.Attempts

variable {γ δ : Type}

/-- The passes of a loop from the `n`th on: what each leaves behind that is not the last, and what
the last one ends the loop with. -/
inductive Leaves (pass : Nat → Except γ δ) : Nat → List δ → γ → Prop
  | now {n : Nat} {e : γ} (h : pass n = .error e) : Leaves pass n [] e
  | later {n : Nat} {d : δ} {ds : List δ} {e : γ} (h : pass n = .ok d)
      (rest : Leaves pass (n + 1) ds e) : Leaves pass n (d :: ds) e

namespace Leaves

variable {pass : Nat → Except γ δ} {n : Nat} {ds : List δ} {e : γ}

theorem passed (h : Leaves pass n ds e) (i : Nat) (hi : i < ds.length) :
    pass (n + i) = .ok ds[i] := by
  induction h generalizing i with
  | now h => exact absurd hi (Nat.not_lt_zero i)
  | @later n d ds e h rest ih =>
    cases i with
    | zero => exact h
    | succ i =>
      have hrest := ih i (Nat.lt_of_succ_lt_succ hi)
      rw [Nat.add_assoc, Nat.add_comm 1 i] at hrest
      exact hrest

theorem left (h : Leaves pass n ds e) : pass (n + ds.length) = .error e := by
  induction h with
  | now h => exact h
  | @later n d ds e h rest ih =>
    rw [List.length_cons, Nat.add_comm ds.length 1, ← Nat.add_assoc]
    exact ih

/-- A loop ends with the first pass that does not go on. -/
theorem ends_at {m : Nat} {f : γ} (h : Leaves pass n ds e) (hnm : n ≤ m)
    (hbefore : ∀ k, n ≤ k → k < m → ∃ d, pass k = .ok d) (hm : pass m = .error f) :
    n + ds.length = m ∧ e = f := by
  have hlength : n + ds.length = m := by
    obtain hlt | heq | hgt := Nat.lt_trichotomy (n + ds.length) m
    · obtain ⟨d, hd⟩ := hbefore (n + ds.length) (Nat.le_add_right n ds.length) hlt
      rw [h.left] at hd
      cases hd
    · exact heq
    · have hpassed := h.passed (m - n) (by omega)
      rw [Nat.add_sub_cancel' hnm, hm] at hpassed
      cases hpassed
  have hleft := h.left
  rw [hlength, hm] at hleft
  cases hleft
  exact ⟨hlength, rfl⟩

/-- What grows from pass to pass grows along what the passes leave behind. -/
theorem pairwise_le {size : δ → Nat} {bound : Nat → Nat} (hbound : Monotone bound)
    (h : Leaves pass n ds e) (hsize : ∀ k d, pass k = .ok d → size d = bound k) :
    ds.Pairwise fun d d' => size d ≤ size d' := by
  rw [List.pairwise_iff_getElem]
  intro i j hi hj hij
  rw [hsize _ _ (h.passed i hi), hsize _ _ (h.passed j hj)]
  exact hbound (Nat.add_le_add_left (Nat.le_of_lt hij) n)

end Leaves

end Solarcido.Attempts
