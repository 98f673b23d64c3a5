import Mathlib.Tactic.TypeStar

namespace Solarcido.ThrowingProgram

variable {σ τ ε α β : Type}

/-- How a program that changes a state and may throw ends: with a value and a
state in `Q`, or with a thrown value and a state in `E`. -/
def Ends (x : EStateM ε σ α) (s : σ) (Q : α → σ → Prop) (E : ε → σ → Prop) : Prop :=
  match x s with
  | .ok a s' => Q a s'
  | .error e s' => E e s'

/-- The state a program ends in, whether it returns or throws. -/
def finalState : EStateM.Result ε σ α → σ
  | .ok _ s => s
  | .error _ s => s

/-- Run a program on a part of the state. -/
def onPart (part : σ → τ) (put : τ → σ → σ) (x : EStateM ε τ α) : EStateM ε σ α := fun s =>
  match x (part s) with
  | .ok a t => .ok a (put t s)
  | .error e t => .error e (put t s)

theorem get_bind (f : σ → EStateM ε σ α) (s : σ) : (get >>= f) s = f s s := rfl

theorem bind_of_ok {x : EStateM ε σ α} {s s' : σ} {a : α} (h : x s = .ok a s')
    (f : α → EStateM ε σ β) : (x >>= f) s = f a s' := by
  simp only [bind, EStateM.bind, h]

theorem bind_of_error {x : EStateM ε σ α} {s s' : σ} {e : ε} (h : x s = .error e s')
    (f : α → EStateM ε σ β) : (x >>= f) s = .error e s' := by
  simp only [bind, EStateM.bind, h]

theorem tryCatch_of_ok {x : EStateM ε σ α} {s s' : σ} {a : α} (h : x s = .ok a s')
    (handler : ε → EStateM ε σ α) : (tryCatch x handler : EStateM ε σ α) s = .ok a s' := by
  change EStateM.tryCatch x handler s = _
  delta EStateM.tryCatch
  dsimp only
  rw [h]

theorem tryCatch_of_error {x : EStateM ε σ α} {s s' : σ} {e : ε} (h : x s = .error e s')
    (handler : ε → EStateM ε σ α) :
    (tryCatch x handler : EStateM ε σ α) s = handler e s' := by
  change EStateM.tryCatch x handler s = _
  delta EStateM.tryCatch
  dsimp only
  rw [h]
  rfl

/-- A handler is not asked where the program returns what it makes of a value. -/
theorem tryCatch_return_of_ok {x : EStateM ε σ α} {s s' : σ} {a : α} (h : x s = .ok a s')
    (g : α → β) (handler : ε → EStateM ε σ β) :
    (tryCatch (x >>= fun a => pure (g a)) handler : EStateM ε σ β) s = .ok (g a) s' := by
  apply tryCatch_of_ok
  rw [bind_of_ok h]
  rfl

theorem finalState_onPart (part : σ → τ) (put : τ → σ → σ) (x : EStateM ε τ α) (s : σ) :
    finalState (onPart part put x s) = put (finalState (x (part s))) s := by
  rw [onPart]
  cases x (part s) <;> rfl

/-- A handler that leaves the state alone does not change where a program ends. -/
theorem finalState_tryCatch (x : EStateM ε σ α) (handler : ε → EStateM ε σ α) (s : σ)
    (h : ∀ e s', finalState (handler e s') = s') :
    finalState ((tryCatch x handler : EStateM ε σ α) s) = finalState (x s) := by
  cases hx : x s with
  | ok a s' =>
    rw [tryCatch_of_ok hx]
  | error e s' =>
    rw [tryCatch_of_error hx]
    exact h e s'

/-- What is computed from a result without touching the state does not change where
a program ends. -/
theorem finalState_bind (x : EStateM ε σ α) (f : α → EStateM ε σ β) (s : σ)
    (h : ∀ a s', finalState (f a s') = s') : finalState ((x >>= f) s) = finalState (x s) := by
  simp only [bind, EStateM.bind]
  cases hx : x s with
  | ok a s' => exact h a s'
  | error e s' => rfl

section rules

variable {x : EStateM ε σ α} {f : α → EStateM ε σ β} {handler : ε → EStateM ε σ α} {s : σ}
  {Q Q' : α → σ → Prop} {P : β → σ → Prop} {E E' F : ε → σ → Prop}

/-- What does not ask for the value says something about the state alone. -/
theorem ends_state_iff {P : σ → Prop} :
    Ends x s (fun _ s' => P s') (fun _ s' => P s') ↔ P (finalState (x s)) := by
  unfold Ends finalState
  cases x s <;> rfl

theorem ends_of_ok {a : α} {s' : σ} (h : Ends x s Q E) (hx : x s = .ok a s') : Q a s' := by
  rw [Ends, hx] at h
  exact h

theorem Ends.mono (h : Ends x s Q E) (hQ : ∀ a s', Q a s' → Q' a s')
    (hE : ∀ e s', E e s' → E' e s') : Ends x s Q' E' := by
  rw [Ends] at h ⊢
  split at h
  · exact hQ _ _ h
  · exact hE _ _ h

theorem ends_pure {a : α} (h : Q a s) : Ends (pure a) s Q E := h

theorem ends_throw {e : ε} (h : E e s) : Ends (throw e : EStateM ε σ α) s Q E := h

theorem ends_bind (h : Ends x s (fun a s' => Ends (f a) s' P E) E) : Ends (x >>= f) s P E := by
  rw [Ends] at h ⊢
  simp only [bind, EStateM.bind]
  cases hx : x s with
  | ok a s' =>
    rw [hx] at h
    exact h
  | error e s' =>
    rw [hx] at h
    exact h

theorem ends_bind_of_ok {a : α} {s' : σ} (hx : x s = .ok a s') (h : Ends (f a) s' P E) :
    Ends (x >>= f) s P E := by
  rwa [Ends, bind_of_ok hx]

theorem ends_ite {c : Prop} [Decidable c] {x y : EStateM ε σ α} (hx : c → Ends x s Q E)
    (hy : ¬ c → Ends y s Q E) : Ends (if c then x else y) s Q E := by
  by_cases hc : c
  · rw [if_pos hc]
    exact hx hc
  · rw [if_neg hc]
    exact hy hc

theorem ends_tryCatch (h : Ends x s Q (fun e s' => Ends (handler e) s' Q F)) :
    Ends (tryCatch x handler) s Q F := by
  rw [Ends] at h ⊢
  cases hx : x s with
  | ok a s' =>
    rw [hx] at h
    rw [tryCatch_of_ok hx]
    exact h
  | error e s' =>
    rw [hx] at h
    rw [tryCatch_of_error hx]
    exact h

end rules

/-- A relation between an earlier and a later state that says what has not changed. -/
structure IsFrame (R : σ → σ → Prop) : Prop where
  refl : ∀ s, R s s
  trans : ∀ a b c, R a b → R b c → R a c

/-- Whatever the start, a program relates the states it starts and ends in. -/
def Keeps (R : σ → σ → Prop) (x : EStateM ε σ α) : Prop :=
  ∀ s, Ends x s (fun _ s' => R s s') (fun _ s' => R s s')

section keeps

variable {R : σ → σ → Prop} {x : EStateM ε σ α} {f : α → EStateM ε σ β}

theorem keeps_iff : Keeps R x ↔ ∀ s, R s (finalState (x s)) := by
  unfold Keeps Ends finalState
  refine forall_congr' fun s => ?_
  cases x s <;> rfl

theorem keeps_pure (hR : IsFrame R) (a : α) : Keeps R (pure a : EStateM ε σ α) := hR.refl

theorem keeps_throw (hR : IsFrame R) (e : ε) : Keeps R (throw e : EStateM ε σ α) := hR.refl

theorem keeps_get (hR : IsFrame R) : Keeps R (get : EStateM ε σ σ) := hR.refl

theorem keeps_modify {g : σ → σ} (h : ∀ s, R s (g s)) :
    Keeps R (modify g : EStateM ε σ PUnit) := h

theorem keeps_bind (hR : IsFrame R) (hx : Keeps R x) (hf : ∀ a, Keeps R (f a)) :
    Keeps R (x >>= f) := fun s =>
  ends_bind ((hx s).mono
    (fun a s' h => (hf a s').mono (fun _ _ h' => hR.trans _ _ _ h h')
      (fun _ _ h' => hR.trans _ _ _ h h'))
    (fun _ _ h => h))

theorem keeps_ite {c : Prop} [Decidable c] {x y : EStateM ε σ α} (hx : c → Keeps R x)
    (hy : ¬ c → Keeps R y) : Keeps R (if c then x else y) := by
  by_cases hc : c
  · rw [if_pos hc]
    exact hx hc
  · rw [if_neg hc]
    exact hy hc

theorem keeps_tryCatch (hR : IsFrame R) {handler : ε → EStateM ε σ α} (hx : Keeps R x)
    (hh : ∀ e, Keeps R (handler e)) : Keeps R (tryCatch x handler) := fun s =>
  ends_tryCatch ((hx s).mono (fun _ _ h => h)
    (fun e s' h => (hh e s').mono (fun _ _ h' => hR.trans _ _ _ h h')
      (fun _ _ h' => hR.trans _ _ _ h h')))

theorem Keeps.mono {R' : σ → σ → Prop} (h : Keeps R x) (hRR' : ∀ s s', R s s' → R' s s') :
    Keeps R' x := fun s => (h s).mono (fun _ _ => hRR' s _) (fun _ _ => hRR' s _)

end keeps

end Solarcido.ThrowingProgram
