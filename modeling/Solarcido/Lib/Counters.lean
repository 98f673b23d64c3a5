import Mathlib.Algebra.BigOperators.Group.List.Basic
import Mathlib.Algebra.GroupWithZero.Nat

namespace Solarcido.Counters

variable {ι σ δ ε : Type} (add : σ → δ → Except ε σ) (count : ι → σ → Nat) (gain : ι → δ → Nat)
  (bound : Nat)

/-- What each counter has gained from a list. -/
def gained (i : ι) (ds : List δ) : Nat := (ds.map (gain i)).sum

/-- No counter reaches its bound. -/
def Fits (s : σ) (ds : List δ) : Prop := ∀ i, count i s + gained gain i ds < bound

/-- Counters that stand for exact numbers as long as all of them are below a bound, and that are
given up otherwise. -/
structure Checked : Prop where
  below : ∀ i s, count i s < bound
  ok : ∀ s d, (∀ i, count i s + gain i d < bound) →
    ∃ t, add s d = .ok t ∧ ∀ i, count i t = count i s + gain i d
  error : ∀ s d, ¬ (∀ i, count i s + gain i d < bound) → ∃ e, add s d = .error e

variable {add count gain bound}

theorem gained_cons (i : ι) (d : δ) (ds : List δ) :
    gained gain i (d :: ds) = gain i d + gained gain i ds := by
  rw [gained, List.map_cons, List.sum_cons, gained]

theorem gained_append (i : ι) (ds es : List δ) :
    gained gain i (ds ++ es) = gained gain i ds + gained gain i es := by
  rw [gained, List.map_append, List.sum_append, gained, gained]

/-- Behind a first part the rest is counted from where that has led. -/
theorem fits_append {s t : σ} {ds : List δ} (h : ∀ i, count i t = count i s + gained gain i ds)
    (es : List δ) : Fits count gain bound s (ds ++ es) ↔ Fits count gain bound t es := by
  apply forall_congr'
  intro i
  rw [gained_append, h, Nat.add_assoc]

theorem counts_append {s t u : σ} {ds es : List δ}
    (h : ∀ i, count i t = count i s + gained gain i ds)
    (h' : ∀ i, count i u = count i t + gained gain i es) (i : ι) :
    count i u = count i s + gained gain i (ds ++ es) := by
  rw [h', h, gained_append, Nat.add_assoc]

theorem fits_of_append {s : σ} {ds es : List δ} (h : Fits count gain bound s (ds ++ es)) :
    Fits count gain bound s ds := by
  intro i
  have hi := h i
  rw [gained_append] at hi
  omega

namespace Checked

variable (h : Checked add count gain bound) {s : σ} {ds : List δ}

include h

/-- Where the sums stay below the bound they are what is counted. -/
theorem foldlM_ok (hfits : Fits count gain bound s ds) :
    ∃ t, ds.foldlM add s = .ok t ∧ ∀ i, count i t = count i s + gained gain i ds := by
  induction ds generalizing s with
  | nil => exact ⟨s, rfl, fun i => (Nat.add_zero _).symm⟩
  | cons d ds ih =>
    have hsplit : Fits count gain bound s ([d] ++ ds) := hfits
    have hfirst : Fits count gain bound s [d] := fits_of_append hsplit
    obtain ⟨t, ht, hcount⟩ := h.ok s d hfirst
    have hone : ∀ i, count i t = count i s + gained gain i [d] := hcount
    obtain ⟨u, hu, hrest⟩ := ih ((fits_append hone ds).mp hsplit)
    refine ⟨u, ?_, ?_⟩
    · rw [List.foldlM_cons, ht]
      exact hu
    · intro i
      rw [hrest, hcount, gained_cons, Nat.add_assoc]

theorem fits_nil (s : σ) : Fits count gain bound s [] := fun i => h.below i s

theorem foldlM_error (hfits : ¬ Fits count gain bound s ds) : ∃ e, ds.foldlM add s = .error e := by
  induction ds generalizing s with
  | nil => exact absurd (h.fits_nil s) hfits
  | cons d ds ih =>
    by_cases hfirst : ∀ i, count i s + gain i d < bound
    · obtain ⟨t, ht, hcount⟩ := h.ok s d hfirst
      have hone : ∀ i, count i t = count i s + gained gain i [d] := hcount
      obtain ⟨e, he⟩ := ih (mt (fits_append hone ds).mpr hfits)
      refine ⟨e, ?_⟩
      rw [List.foldlM_cons, ht]
      exact he
    · obtain ⟨e, he⟩ := h.error s d hfirst
      refine ⟨e, ?_⟩
      rw [List.foldlM_cons, he]
      rfl

end Checked

end Solarcido.Counters
