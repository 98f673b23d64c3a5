import Mathlib.Tactic.TypeStar

namespace Solarcido.Traces

variable {σ τ L : Type}

-- A step from one state to another that shows some labels.
variable (Step : σ → List L → σ → Prop)

/-- Steps one after the other, and the labels they show. -/
inductive Path : σ → List L → σ → Prop where
  | refl (p : σ) : Path p [] p
  | snoc {p q r : σ} {shown labels : List L} (path : Path p shown q) (step : Step q labels r) :
      Path p (shown ++ labels) r

variable {Step}

theorem Path.single {p q : σ} {labels : List L} (h : Step p labels q) : Path Step p labels q := by
  have hpath := Path.snoc (Path.refl p) h
  rwa [List.nil_append] at hpath

theorem Path.trans {p q r : σ} {first second : List L} (hpq : Path Step p first q)
    (hqr : Path Step q second r) : Path Step p (first ++ second) r := by
  induction hqr with
  | refl => rwa [List.append_nil]
  | snoc path step ih =>
    rw [← List.append_assoc]
    exact Path.snoc ih step

/-- What holds at the start and is kept by every step holds all along a path. -/
theorem Path.invariant {p q : σ} {shown : List L} (h : Path Step p shown q)
    (Inv : List L → σ → Prop) (hstart : Inv [] p)
    (hstep : ∀ shown q labels r, Inv shown q → Step q labels r → Inv (shown ++ labels) r) :
    Inv shown q := by
  induction h with
  | refl => exact hstart
  | snoc path step ih => exact hstep _ _ _ _ ih step

-- The labels a program's state has kept.
variable (trace : τ → List L)

/-- Between two states of a program its trace has grown by the labels of a path. -/
def Reaches (Step : σ → List L → σ → Prop) (p : σ) (s : τ) (q : σ) (t : τ) : Prop :=
  ∃ labels, trace t = trace s ++ labels ∧ Path Step p labels q

variable {trace}

theorem Reaches.refl (p : σ) (s : τ) : Reaches trace Step p s p s :=
  ⟨[], (List.append_nil _).symm, .refl p⟩

theorem Reaches.trans {p q r : σ} {s t u : τ} (hpq : Reaches trace Step p s q t)
    (hqr : Reaches trace Step q t r u) : Reaches trace Step p s r u := by
  obtain ⟨first, ht, hfirst⟩ := hpq
  obtain ⟨second, hu, hsecond⟩ := hqr
  exact ⟨first ++ second, by rw [hu, ht, List.append_assoc], hfirst.trans hsecond⟩

theorem Reaches.step {p q : σ} {s t : τ} {labels : List L} (ht : trace t = trace s ++ labels)
    (h : Step p labels q) : Reaches trace Step p s q t := ⟨labels, ht, .single h⟩

end Solarcido.Traces
