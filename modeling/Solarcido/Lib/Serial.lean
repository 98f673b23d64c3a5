import Mathlib.Data.List.Induction

namespace Solarcido.Serial

variable {σ O : Type} (step : σ → O → σ)

/-- The state after operations performed one after the other. -/
def runAll (s : σ) (ops : List O) : σ := ops.foldl step s

@[simp] theorem runAll_nil (s : σ) : runAll step s [] = s := rfl

theorem runAll_append (s : σ) (first second : List O) :
    runAll step s (first ++ second) = runAll step (runAll step s first) second :=
  List.foldl_append

theorem runAll_snoc (s : σ) (ops : List O) (o : O) :
    runAll step s (ops ++ [o]) = step (runAll step s ops) o := by
  rw [runAll_append]
  rfl

/-- What holds at the start and is kept by every operation holds after every list of them. -/
theorem runAll_invariant (s : σ) (Inv : σ → Prop) (hstart : Inv s)
    (hstep : ∀ t o, Inv t → Inv (step t o)) (ops : List O) : Inv (runAll step s ops) := by
  induction ops using List.reverseRecOn with
  | nil => exact hstart
  | append_singleton ops o ih =>
    rw [runAll_snoc]
    exact hstep _ o ih

/-- Each operation meets a condition in the state it is performed in. -/
def Meets (C : σ → O → Prop) (s : σ) (ops : List O) : Prop :=
  ∀ before o rest, ops = before ++ o :: rest → C (runAll step s before) o

theorem Meets.initial {C : σ → O → Prop} {s : σ} {first second : List O}
    (h : Meets step C s (first ++ second)) : Meets step C s first := by
  intro before o rest hsplit
  apply h before o (rest ++ second)
  rw [hsplit, List.append_assoc, List.cons_append]

theorem meets_nil {C : σ → O → Prop} {s : σ} : Meets step C s [] := by
  intro before o rest h
  simp at h

theorem meets_cons {C : σ → O → Prop} {s : σ} {o : O} {ops : List O} (ho : C s o)
    (hops : Meets step C (step s o) ops) : Meets step C s (o :: ops) := by
  intro before o' rest h
  cases before with
  | nil =>
    obtain ⟨rfl, -⟩ := List.cons.inj h
    exact ho
  | cons first before =>
    obtain ⟨rfl, htail⟩ := List.cons.inj h
    exact hops before o' rest htail

theorem meets_of_mem {C : σ → O → Prop} {s : σ} {ops : List O} (h : ∀ o ∈ ops, ∀ t, C t o) :
    Meets step C s ops := by
  intro before o rest hsplit
  exact h o (by rw [hsplit]; simp) _

/-- What holds in a state and is kept by operations that meet a condition holds in every
state reached by such operations. -/
theorem runAll_meeting {C : σ → O → Prop} {s : σ} (P : σ → Prop) (hstart : P s)
    (hstep : ∀ t o, P t → C t o → P (step t o)) {ops : List O} (hmeets : Meets step C s ops) :
    P (runAll step s ops) := by
  induction ops using List.reverseRecOn with
  | nil => exact hstart
  | append_singleton ops o ih =>
    rw [runAll_snoc]
    exact hstep _ _ (ih (hmeets.initial step)) (hmeets ops o [] rfl)

/-- Where a condition is exactly what keeps a property, a run keeps it in every state if and
only if each of its operations meets the condition. -/
theorem meets_iff_kept {C E : σ → O → Prop} {s : σ} (P : σ → Prop) (hstart : P s)
    (hiff : ∀ t o, P t → E t o → (P (step t o) ↔ C t o)) {ops : List O} (henv : Meets step E s ops) :
    (∀ first second, ops = first ++ second → P (runAll step s first)) ↔ Meets step C s ops := by
  constructor
  · intro hkept before o rest hsplit
    have hbefore := hkept before (o :: rest) hsplit
    have hafter := hkept (before ++ [o]) rest (by rw [hsplit, List.append_assoc]; rfl)
    rw [runAll_snoc] at hafter
    exact (hiff _ o hbefore (henv before o rest hsplit)).mp hafter
  · intro hmeets first second hsplit
    subst hsplit
    apply runAll_meeting step (C := fun t o => C t o ∧ E t o) P hstart
    · intro t o ht hto
      exact (hiff t o ht hto.2).mpr hto.1
    · intro before o rest hfirst
      exact ⟨hmeets.initial step before o rest hfirst, henv.initial step before o rest hfirst⟩

/-- Every split of a longer list at an operation is at the last one or before it. -/
theorem split_snoc {ops earlier later : List O} {o last : O}
    (h : ops ++ [last] = earlier ++ o :: later) :
    (later = [] ∧ o = last ∧ earlier = ops) ∨
      ∃ rest, later = rest ++ [last] ∧ ops = earlier ++ o :: rest := by
  induction later using List.reverseRecOn with
  | nil =>
    obtain ⟨hops, hlast⟩ := List.append_inj' h rfl
    exact Or.inl ⟨rfl, (List.cons.inj hlast).1.symm, hops.symm⟩
  | append_singleton rest last' =>
    rw [← List.cons_append, ← List.append_assoc] at h
    obtain ⟨hops, hlast⟩ := List.append_inj' h rfl
    exact Or.inr ⟨rest, by rw [(List.cons.inj hlast).1], hops⟩

theorem meets_snoc {C : σ → O → Prop} {s : σ} {ops : List O} {o : O} :
    Meets step C s (ops ++ [o]) ↔ Meets step C s ops ∧ C (runAll step s ops) o := by
  constructor
  · intro h
    exact ⟨h.initial step, h ops o [] rfl⟩
  · rintro ⟨hops, ho⟩ before o' rest hsplit
    obtain ⟨rfl, rfl, rfl⟩ | ⟨rest', rfl, rfl⟩ := split_snoc hsplit
    · exact ho
    · exact hops before o' rest' rfl

/-- Something of the one kind came, and nothing of the other kind after it. What an element
is may depend on all that came before. -/
def Since (A R : List O → O → Prop) (ops : List O) : Prop :=
  ∃ earlier o later, ops = earlier ++ o :: later ∧ A earlier o ∧
    ∀ middle o' rest, later = middle ++ o' :: rest → ¬ R (earlier ++ o :: middle) o'

theorem not_since_nil (A R : List O → O → Prop) : ¬ Since A R [] := by
  rintro ⟨earlier, o, later, h, -⟩
  simp at h

theorem since_snoc (A R : List O → O → Prop) (ops : List O) (o : O) :
    Since A R (ops ++ [o]) ↔ A ops o ∨ (Since A R ops ∧ ¬ R ops o) := by
  constructor
  · rintro ⟨earlier, o', later, hsplit, hA, hR⟩
    obtain ⟨rfl, rfl, rfl⟩ | ⟨rest, rfl, rfl⟩ := split_snoc hsplit
    · exact Or.inl hA
    · refine Or.inr ⟨⟨earlier, o', rest, rfl, hA, ?_⟩, hR rest o [] rfl⟩
      intro middle o'' tail h
      apply hR middle o'' (tail ++ [o])
      rw [h, List.append_assoc, List.cons_append]
  · rintro (hA | ⟨⟨earlier, o', later, rfl, hA, hR⟩, hlast⟩)
    · refine ⟨ops, o, [], rfl, hA, ?_⟩
      intro middle o' rest h
      simp at h
    · refine ⟨earlier, o', later ++ [o], by simp, hA, ?_⟩
      intro middle o'' rest h
      obtain ⟨rfl, rfl, rfl⟩ | ⟨tail, rfl, htail⟩ := split_snoc h
      · exact hlast
      · exact hR middle o'' tail htail

section translation

variable {σ' O' : Type} {step' : σ' → O' → σ'} (view : σ → σ') (translate : O → O')

/-- One system seen as another does what the other does with the translated operations. -/
theorem view_runAll (hstep : ∀ s o, view (step s o) = step' (view s) (translate o)) (s : σ)
    (ops : List O) : view (runAll step s ops) = runAll step' (view s) (ops.map translate) := by
  induction ops using List.reverseRecOn with
  | nil => rfl
  | append_singleton ops o ih =>
    rw [List.map_append, List.map_singleton, runAll_snoc, runAll_snoc, hstep, ih]

theorem meets_translate (hstep : ∀ s o, view (step s o) = step' (view s) (translate o))
    {C : σ → O → Prop} {C' : σ' → O' → Prop} (hC : ∀ s o, C s o ↔ C' (view s) (translate o))
    (s : σ) (ops : List O) :
    Meets step C s ops ↔ Meets step' C' (view s) (ops.map translate) := by
  constructor
  · intro h before' o' rest' hsplit
    obtain ⟨before, tail, rfl, rfl, htail⟩ := List.map_eq_append_iff.mp hsplit
    obtain ⟨o, rest, rfl, rfl, rfl⟩ := List.map_eq_cons_iff.mp htail
    rw [← view_runAll step view translate hstep]
    exact (hC _ _).mp (h before o rest rfl)
  · intro h before o rest hsplit
    have hhere := h (before.map translate) (translate o) (rest.map translate) (by
      rw [hsplit, List.map_append, List.map_cons])
    rw [← view_runAll step view translate hstep] at hhere
    exact (hC _ _).mpr hhere

end translation

section splits

theorem split_append {first second earlier later : List O} {o : O}
    (h : first ++ second = earlier ++ o :: later) :
    (∃ rest, first = earlier ++ o :: rest ∧ later = rest ++ second) ∨
      ∃ before, earlier = first ++ before ∧ second = before ++ o :: later := by
  obtain ⟨before, hearlier, hsecond⟩ | ⟨rest, hfirst, hlater⟩ := List.append_eq_append_iff.mp h
  · exact Or.inr ⟨before, hearlier, hsecond⟩
  · cases rest with
    | nil =>
      rw [List.append_nil] at hfirst
      exact Or.inr ⟨[], by rw [hfirst, List.append_nil], hlater.symm⟩
    | cons o' rest =>
      obtain ⟨rfl, rfl⟩ := List.cons.inj hlater
      exact Or.inl ⟨rest, hfirst, rfl⟩

/-- Each element stands well with what comes before and behind it. -/
def Everywhere (P : List O → O → List O → Prop) (ops : List O) : Prop :=
  ∀ before o after, ops = before ++ o :: after → P before o after

variable {P : List O → O → List O → Prop} {first second : List O}

theorem everywhere_of_forall (h : ∀ o ∈ first, ∀ before after, P before o after) :
    Everywhere P first := by
  rintro before o after rfl
  exact h o (by simp) before after

/-- What does not depend on the far ends is kept when lists are put together. -/
theorem Everywhere.append (hleft : ∀ x before o after, P before o after → P (x ++ before) o after)
    (hright : ∀ x before o after, P before o after → P before o (after ++ x))
    (hfirst : Everywhere P first) (hsecond : Everywhere P second) :
    Everywhere P (first ++ second) := by
  intro before o after hsplit
  obtain ⟨rest, hhere, rfl⟩ | ⟨rest, rfl, hhere⟩ := split_append hsplit
  · exact hright second before o rest (hfirst before o rest hhere)
  · exact hleft first rest o after (hsecond rest o after hhere)

theorem Everywhere.snoc (hright : ∀ x before o after, P before o after → P before o (after ++ x))
    {o : O} (hfirst : Everywhere P first) (ho : P first o []) : Everywhere P (first ++ [o]) := by
  intro before o' after hsplit
  obtain ⟨rest, hhere, rfl⟩ | ⟨rest, rfl, hhere⟩ := split_append hsplit
  · exact hright [o] before o' rest (hfirst before o' rest hhere)
  · cases rest with
    | nil =>
      obtain ⟨rfl, rfl⟩ := List.cons.inj hhere
      rwa [List.append_nil]
    | cons first' rest => simp at hhere

theorem Everywhere.cons (hleft : ∀ x before o after, P before o after → P (x ++ before) o after)
    {o : O} (ho : P [] o second) (hsecond : Everywhere P second) :
    Everywhere P (o :: second) := by
  intro before o' after hsplit
  cases before with
  | nil =>
    obtain ⟨rfl, rfl⟩ := List.cons.inj hsplit
    exact ho
  | cons first before =>
    obtain ⟨rfl, htail⟩ := List.cons.inj hsplit
    exact hleft [o] before o' after (hsecond before o' after htail)

theorem everywhere_flatten (hleft : ∀ x before o after, P before o after → P (x ++ before) o after)
    (hright : ∀ x before o after, P before o after → P before o (after ++ x))
    {lists : List (List O)} (h : ∀ l ∈ lists, Everywhere P l) : Everywhere P lists.flatten := by
  induction lists with
  | nil => exact everywhere_of_forall fun o ho => absurd ho List.not_mem_nil
  | cons l lists ih =>
    rw [List.flatten_cons]
    exact (h l List.mem_cons_self).append hleft hright
      (ih fun l' hl' => h l' (List.mem_cons_of_mem l hl'))

end splits

end Solarcido.Serial
