import Mathlib.Data.List.Induction

namespace Solarcido.KeyedUpdates

variable {S R N K E : Type} {V : K → Type}

section runs

variable {U : Type} {step : S → U → Except E S} {start last : S} {updates : List U}

theorem foldlM_snoc {u : U} (h : (updates ++ [u]).foldlM step start = .ok last) :
    ∃ middle, updates.foldlM step start = .ok middle ∧ step middle u = .ok last := by
  rw [List.foldlM_append] at h
  cases hmiddle : updates.foldlM step start with
  | error e =>
    rw [hmiddle] at h
    cases h
  | ok middle =>
    rw [hmiddle] at h
    refine ⟨middle, rfl, ?_⟩
    change (step middle u >>= fun s => pure s) = .ok last at h
    rwa [bind_pure] at h

/-- What each accepted step keeps is kept by a run of them. -/
theorem run_keeps {P : S → Prop} (hstep : ∀ s u s', P s → step s u = .ok s' → P s')
    (hstart : P start) (h : updates.foldlM step start = .ok last) : P last := by
  induction updates using List.reverseRecOn generalizing last with
  | nil =>
    cases h
    exact hstart
  | append_singleton updates u ih =>
    obtain ⟨middle, hmiddle, hlast⟩ := foldlM_snoc h
    exact hstep middle u last (ih hmiddle) hlast

/-- What a run leaves in a part of the state that each step either sets or leaves alone: the last
value it has been set to. -/
theorem get_foldlM {V : Type} (get : S → V) (pick : U → Option V)
    (hstep : ∀ s u s', step s u = .ok s' → get s' = (pick u).getD (get s))
    (h : updates.foldlM step start = .ok last) :
    get last = (updates.filterMap pick).getLast?.getD (get start) := by
  induction updates using List.reverseRecOn generalizing last with
  | nil =>
    cases h
    rfl
  | append_singleton updates u ih =>
    obtain ⟨middle, hmiddle, hlast⟩ := foldlM_snoc h
    rw [hstep middle u last hlast, List.filterMap_append, ih hmiddle]
    cases hpick : pick u with
    | none => rw [Option.getD_none, List.filterMap_cons_none hpick, List.filterMap_nil,
        List.append_nil]
    | some v => rw [Option.getD_some, List.filterMap_cons_some hpick, List.filterMap_nil,
        List.getLast?_concat, Option.getD_some]

/-- What a run leaves in a list that each step may add to. -/
theorem get_foldlM_append {V : Type} (get : S → List V) (pick : U → Option V)
    (hstep : ∀ s u s', step s u = .ok s' → get s' = get s ++ (pick u).toList)
    (h : updates.foldlM step start = .ok last) :
    get last = get start ++ updates.filterMap pick := by
  induction updates using List.reverseRecOn generalizing last with
  | nil =>
    cases h
    exact (List.append_nil _).symm
  | append_singleton updates u ih =>
    obtain ⟨middle, hmiddle, hlast⟩ := foldlM_snoc h
    rw [hstep middle u last hlast, List.filterMap_append, ih hmiddle, List.append_assoc]
    cases hpick : pick u with
    | none => rw [List.filterMap_cons_none hpick, Option.toList_none, List.filterMap_nil]
    | some v => rw [List.filterMap_cons_some hpick, Option.toList_some, List.filterMap_nil]

/-- A run is accepted just when each update is, whatever the state it comes to. -/
theorem foldlM_ok_iff (start : S) {Accepts : U → Prop}
    (hstep : ∀ s u, (∃ s', step s u = .ok s') ↔ Accepts u) :
    (∃ last, updates.foldlM step start = .ok last) ↔ ∀ u ∈ updates, Accepts u := by
  induction updates generalizing start with
  | nil => exact iff_of_true ⟨start, rfl⟩ (by simp)
  | cons u updates ih =>
    rw [List.forall_mem_cons, ← hstep start u, List.foldlM_cons]
    cases hfirst : step start u with
    | error e =>
      refine iff_of_false ?_ (by simp)
      rintro ⟨last, h⟩
      cases h
    | ok middle =>
      rw [← ih middle]
      simp only [Except.ok.injEq, exists_eq', true_and]
      rfl

end runs

section fields

variable (get : S → (k : K) → V k) (set : S → (k : K) → V k → S)

/-- A record with a field for each key. -/
structure Fields : Prop where
  own : ∀ s k v, get (set s k v) k = v
  other : ∀ s k v k', k' ≠ k → get (set s k v) k' = get s k'

variable {get set}

theorem Fields.valid_set {Valid : (k : K) → V k → Prop} {s : S} {k : K} {v : V k}
    (hfields : Fields get set) (h : ∀ k, Valid k (get s k)) (hv : Valid k v) (k' : K) :
    Valid k' (get (set s k v) k') := by
  by_cases hk : k' = k
  · subst hk
    rwa [hfields.own]
  · rw [hfields.other s k v k' hk]
    exact h k'

/-- A loop over keys that takes each field from one record. -/
theorem foldlM_set {take : S → K → Except E S} {given : S}
    (htake : ∀ s k, take s k = .ok (set s k (get given k))) (keys : List K) (s : S) :
    keys.foldlM take s = .ok (keys.foldl (fun s k => set s k (get given k)) s) := by
  induction keys generalizing s with
  | nil => rfl
  | cons k keys ih =>
    rw [List.foldlM_cons, htake]
    exact ih _

end fields

variable [DecidableEq N]

/-- The last text that is given for a name. -/
def lastFor (n : N) (updates : List (N × R)) : Option R :=
  (updates.reverse.find? fun u => u.1 = n).map Prod.snd

theorem lastFor_snoc (n : N) (updates : List (N × R)) (u : N × R) :
    lastFor n (updates ++ [u]) = if u.1 = n then some u.2 else lastFor n updates := by
  rw [lastFor, List.reverse_append, List.reverse_singleton, List.singleton_append, List.find?_cons]
  by_cases h : u.1 = n
  · simp [h]
  · simp [h, lastFor]

variable (name : K → N) (get : S → (k : K) → V k) (parse : (k : K) → R → Except E (V k))
  (step : S → N × R → Except E S)

/-- A step that is accepted puts what its text is parsed as under the key it names, and leaves the
others as they are. -/
structure Updating : Prop where
  own : ∀ s s' k r, step s (name k, r) = .ok s' → parse k r = .ok (get s' k)
  other : ∀ s s' k n r, step s (n, r) = .ok s' → name k ≠ n → get s' k = get s k

/-- A key has the value of the last text that is given for it, and without one the value it had. -/
def Holds (start last : S) (updates : List (N × R)) (k : K) : Prop :=
  match lastFor (name k) updates with
  | some r => parse k r = .ok (get last k)
  | none => get last k = get start k

variable {name get parse step} {start last : S} {updates : List (N × R)}

/-- What a run of accepted steps leaves under each key. -/
theorem Updating.holds (hstep : Updating name get parse step)
    (h : updates.foldlM step start = .ok last) (k : K) :
    Holds name get parse start last updates k := by
  induction updates using List.reverseRecOn generalizing last with
  | nil =>
    cases h
    exact rfl
  | append_singleton updates u ih =>
    obtain ⟨n, r⟩ := u
    obtain ⟨middle, hmiddle, hlast⟩ := foldlM_snoc h
    rw [Holds, lastFor_snoc]
    by_cases hn : n = name k
    · subst hn
      rw [if_pos rfl]
      exact hstep.own middle last k r hlast
    · have hsame := hstep.other middle last k n r hlast (Ne.symm hn)
      have hbefore := ih hmiddle
      rw [if_neg hn, hsame]
      exact hbefore

end Solarcido.KeyedUpdates
