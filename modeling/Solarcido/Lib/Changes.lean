import Mathlib.Data.List.Chain
import Mathlib.Order.Lattice

namespace Solarcido.Changes

variable {σ κ : Type} [DecidableEq κ] (key : σ → κ)

/-- The samples whose key is not the key of the sample before them. -/
def fresh : Option κ → List σ → List σ
  | _, [] => []
  | last, s :: rest =>
    if some (key s) = last then fresh last rest else s :: fresh (some (key s)) rest

variable [LE σ]

/-- A key that comes back never left. -/
def Convex : Prop := ∀ a b c : σ, a ≤ b → b ≤ c → key a = key c → key b = key a

variable {key}

/-- Of the samples in order, each key keeps the first sample that has it, apart from the key
that was there before them. -/
theorem fresh_after (hkey : Convex key) (a : σ) (samples : List σ)
    (h : (a :: samples).Pairwise (· ≤ ·)) (k : κ) :
    (fresh key (some (key a)) samples).filter (key · = k) =
      if k = key a then [] else (samples.filter (key · = k)).take 1 := by
  induction samples generalizing a with
  | nil => simp [fresh]
  | cons b rest ih =>
    obtain ⟨ha, hrest⟩ := List.pairwise_cons.mp h
    have hb := (List.pairwise_cons.mp hrest).1
    by_cases hab : key b = key a
    · rw [fresh, if_pos (by rw [hab]), ← hab, ih b hrest]
      by_cases hk : k = key b
      · rw [if_pos hk, if_pos hk]
      · rw [if_neg hk, if_neg hk, List.filter_cons, if_neg (by simpa using Ne.symm hk)]
    · rw [fresh, if_neg (by simpa using hab), List.filter_cons, ih b hrest]
      by_cases hk : k = key b
      · subst hk
        simp [hab]
      · have hcons : (b :: rest).filter (key · = k) = rest.filter (key · = k) := by
          rw [List.filter_cons, if_neg (by simpa using Ne.symm hk)]
        rw [if_neg (by simpa using Ne.symm hk), if_neg hk, hcons]
        by_cases hka : k = key a
        · have hnone : rest.filter (key · = k) = [] := by
            refine List.filter_eq_nil_iff.mpr fun c hc hkc => hab ?_
            have hc' : key c = k := by simpa using hkc
            exact hkey a b c (ha b (by simp)) (hb c hc) (by rw [hc', hka])
          rw [hnone, List.take_nil, if_pos hka]
        · rw [if_neg hka]

theorem fresh_first (hkey : Convex key) (samples : List σ) (h : samples.Pairwise (· ≤ ·)) (k : κ) :
    (fresh key none samples).filter (key · = k) = (samples.filter (key · = k)).take 1 := by
  cases samples with
  | nil => simp [fresh]
  | cons a rest =>
    rw [fresh, if_neg (by simp), List.filter_cons, fresh_after hkey a rest h]
    by_cases hk : k = key a
    · simp [hk]
    · have hk' : ¬ key a = k := fun h => hk h.symm
      simp [hk, hk']

section windows

variable {α : Type} [Add α] [LinearOrder α]

/-- A walk in steps of at most a width does not jump over a window of that width. -/
theorem window_hit {width stop : α} (first : α) (rest : List α)
    (hsteps : (first :: rest).IsChain fun a b => a ≤ b ∧ b ≤ a + width) (hfirst : first < stop)
    (hover : ∃ a ∈ rest, stop ≤ a) : ∃ a ∈ first :: rest, stop ≤ a + width ∧ a < stop := by
  induction rest generalizing first with
  | nil => simp at hover
  | cons second rest ih =>
    obtain ⟨hstep, hrest⟩ := List.isChain_cons_cons.mp hsteps
    rcases lt_or_ge second stop with hsecond | hsecond
    · have hover' : ∃ a ∈ rest, stop ≤ a := by
        obtain ⟨a, ha, hstop⟩ := hover
        rcases List.mem_cons.mp ha with rfl | ha
        · exact absurd hstop (not_le.mpr hsecond)
        · exact ⟨a, ha, hstop⟩
      obtain ⟨a, ha, hwindow⟩ := ih second hrest hsecond hover'
      exact ⟨a, List.mem_cons_of_mem first ha, hwindow⟩
    · exact ⟨first, List.mem_cons_self, hsecond.trans hstep.2, hfirst⟩

end windows

end Solarcido.Changes
