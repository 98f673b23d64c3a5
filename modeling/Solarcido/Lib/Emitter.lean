import Solarcido.Lib.Serial

namespace Solarcido.Emitter

variable {σ I J E ε : Type}

/-- A step of a machine that lets out a list of things, or fails. -/
abbrev Emit (σ E ε : Type) := σ → Except ε (List E × σ)

def quiet (f : σ → σ) : Emit σ E ε := fun s => .ok ([], f s)

def andThen (first second : Emit σ E ε) : Emit σ E ε := fun s =>
  match first s with
  | .error e => .error e
  | .ok (es, t) =>
    match second t with
    | .error e => .error e
    | .ok (fs, u) => .ok (es ++ fs, u)

/-- A loop: one step for each item. -/
def forEach (f : I → Emit σ E ε) : List I → Emit σ E ε
  | [] => quiet id
  | i :: rest => andThen (f i) (forEach f rest)

section composition

theorem andThen_ok_iff (first second : Emit σ E ε) (s : σ) (gs : List E) (u : σ) :
    andThen first second s = .ok (gs, u) ↔
      ∃ es t fs, first s = .ok (es, t) ∧ second t = .ok (fs, u) ∧ gs = es ++ fs := by
  rw [andThen]
  cases hfirst : first s with
  | error e => simp
  | ok p =>
    obtain ⟨es, t⟩ := p
    simp only [Except.ok.injEq, Prod.mk.injEq]
    constructor
    · intro h
      cases hsecond : second t with
      | error e =>
        rw [hsecond] at h
        cases h
      | ok q =>
        obtain ⟨fs, v⟩ := q
        rw [hsecond] at h
        obtain ⟨rfl, rfl⟩ := Prod.mk.inj (Except.ok.inj h)
        exact ⟨es, t, fs, ⟨rfl, rfl⟩, hsecond, rfl⟩
    · rintro ⟨es', t', fs, ⟨rfl, rfl⟩, hsecond, rfl⟩
      rw [hsecond]

theorem quiet_andThen (f : σ → σ) (second : Emit σ E ε) (s : σ) :
    andThen (quiet f) second s = second (f s) := by
  simp only [andThen, quiet]
  cases second (f s) <;> rfl

theorem andThen_quiet_id (first : Emit σ E ε) : andThen first (quiet id) = first := by
  funext s
  simp only [andThen, quiet]
  cases first s with
  | error e => rfl
  | ok p =>
    obtain ⟨es, t⟩ := p
    simp

theorem andThen_assoc (first second third : Emit σ E ε) :
    andThen (andThen first second) third = andThen first (andThen second third) := by
  funext s
  simp only [andThen]
  cases first s with
  | error e => rfl
  | ok p =>
    obtain ⟨es, t⟩ := p
    simp only
    cases second t with
    | error e => rfl
    | ok q =>
      obtain ⟨fs, u⟩ := q
      simp only
      cases third u with
      | error e => rfl
      | ok r =>
        obtain ⟨gs, v⟩ := r
        simp

theorem forEach_append (f : I → Emit σ E ε) (first second : List I) :
    forEach f (first ++ second) = andThen (forEach f first) (forEach f second) := by
  induction first with
  | nil =>
    funext s
    exact (quiet_andThen id _ s).symm
  | cons i first ih =>
    rw [List.cons_append, forEach, ih, forEach, andThen_assoc]

theorem forEach_singleton (f : I → Emit σ E ε) (i : I) : forEach f [i] = f i :=
  andThen_quiet_id (f i)

theorem forEach_map (f : I → Emit σ E ε) (g : J → I) (js : List J) :
    forEach f (js.map g) = forEach (fun j => f (g j)) js := by
  induction js with
  | nil => rfl
  | cons j js ih => rw [List.map_cons, forEach, ih, forEach]

/-- A loop in a loop is a loop over all the inner items. -/
theorem forEach_flatMap (f : I → Emit σ E ε) (g : J → List I) (js : List J) :
    forEach (fun j => forEach f (g j)) js = forEach f (js.flatMap g) := by
  induction js with
  | nil => rfl
  | cons j js ih => rw [forEach, ih, List.flatMap_cons, forEach_append]

theorem forEach_snoc_ok_iff (f : I → Emit σ E ε) (is : List I) (i : I) (s : σ) (gs : List E)
    (u : σ) : forEach f (is ++ [i]) s = .ok (gs, u) ↔
      ∃ es t fs, forEach f is s = .ok (es, t) ∧ f i t = .ok (fs, u) ∧ gs = es ++ fs := by
  rw [forEach_append, forEach_singleton, andThen_ok_iff]

end composition

section runs

variable {f : I → Emit σ E ε} {s : σ}

/-- What holds at the start and is kept by every step holds after every run that does not fail. -/
theorem forEach_invariant (Inv : List E → σ → Prop) (hstart : Inv [] s)
    (hstep : ∀ es t i fs u, Inv es t → f i t = .ok (fs, u) → Inv (es ++ fs) u) {is : List I}
    {es : List E} {t : σ} (h : forEach f is s = .ok (es, t)) : Inv es t := by
  induction is using List.reverseRecOn generalizing es t with
  | nil =>
    obtain ⟨rfl, rfl⟩ := Prod.mk.inj (Except.ok.inj h)
    exact hstart
  | append_singleton is i ih =>
    obtain ⟨es', t', fs, hrun, hi, rfl⟩ := (forEach_snoc_ok_iff f is i s es t).mp h
    exact hstep es' t' i fs t (ih hrun) hi

variable (f) in
/-- Each item meets a condition in the state it is met in. -/
def Meets (C : σ → I → Prop) (s : σ) (is : List I) : Prop :=
  ∀ before i after es t, is = before ++ i :: after → forEach f before s = .ok (es, t) → C t i

theorem meets_cons_iff {C : σ → I → Prop} {i : I} {is : List I} {es : List E} {t : σ}
    (h : f i s = .ok (es, t)) : Meets f C s (i :: is) ↔ C s i ∧ Meets f C t is := by
  constructor
  · intro hmeets
    refine ⟨hmeets [] i is [] s rfl rfl, ?_⟩
    intro before j after fs u hsplit hbefore
    apply hmeets (i :: before) j after (es ++ fs) u
    · rw [hsplit, List.cons_append]
    · rw [forEach, andThen_ok_iff]
      exact ⟨es, t, fs, h, hbefore, rfl⟩
  · rintro ⟨hi, hmeets⟩ before j after gs u hsplit hbefore
    cases before with
    | nil =>
      obtain ⟨rfl, -⟩ := List.cons.inj hsplit
      obtain ⟨-, rfl⟩ := Prod.mk.inj (Except.ok.inj hbefore)
      exact hi
    | cons first before =>
      obtain ⟨rfl, htail⟩ := List.cons.inj hsplit
      rw [forEach, andThen_ok_iff] at hbefore
      obtain ⟨es', t', fs, hfirst, hrest, -⟩ := hbefore
      obtain ⟨-, rfl⟩ := Prod.mk.inj (Except.ok.inj (h.symm.trans hfirst))
      exact hmeets before j after fs u htail hrest

/-- Where the condition lets a step succeed and keep the invariant, the run succeeds. -/
theorem forEach_meeting {C : σ → I → Prop} (Inv : List E → σ → Prop) (hstart : Inv [] s)
    (hstep : ∀ es t i, Inv es t → C t i → ∃ fs u, f i t = .ok (fs, u) ∧ Inv (es ++ fs) u)
    {is : List I} (hmeets : Meets f C s is) :
    ∃ es t, forEach f is s = .ok (es, t) ∧ Inv es t := by
  induction is using List.reverseRecOn with
  | nil => exact ⟨[], s, rfl, hstart⟩
  | append_singleton is i ih =>
    obtain ⟨es, t, hrun, hinv⟩ := ih fun before j after es t hsplit hbefore =>
      hmeets before j (after ++ [i]) es t (by rw [hsplit, List.append_assoc]; rfl) hbefore
    obtain ⟨fs, u, hi, hinv'⟩ := hstep es t i hinv (hmeets is i [] es t rfl hrun)
    exact ⟨es ++ fs, u, (forEach_snoc_ok_iff f is i s _ u).mpr ⟨es, t, fs, hrun, hi, rfl⟩, hinv'⟩

/-- Where the condition is not met there is a first item that does not meet it. -/
theorem exists_first_unmet {C : σ → I → Prop} {is : List I} (h : ¬ Meets f C s is) :
    ∃ before i after es t, is = before ++ i :: after ∧ forEach f before s = .ok (es, t) ∧
      ¬ C t i ∧ Meets f C s before := by
  induction is using List.reverseRecOn with
  | nil =>
    refine absurd ?_ h
    intro before i after es t hsplit
    simp at hsplit
  | append_singleton is i ih =>
    by_cases his : Meets f C s is
    · by_contra hnone
      apply h
      intro before j after es t hsplit hbefore
      obtain ⟨rfl, rfl, rfl⟩ | ⟨rest, rfl, rfl⟩ := Serial.split_snoc hsplit
      · by_contra hj
        exact hnone ⟨before, j, [], es, t, rfl, hbefore, hj, his⟩
      · exact his before j rest es t rfl hbefore
    · obtain ⟨before, j, after, es, t, rfl, hrun, hj, hmeets⟩ := ih his
      exact ⟨before, j, after ++ [i], es, t, by simp, hrun, hj, hmeets⟩

/-- A run that does not fail goes through each of its items. -/
theorem forEach_split {before after : List I} {i : I} {gs : List E} {v : σ}
    (h : forEach f (before ++ i :: after) s = .ok (gs, v)) :
    ∃ es t fs u hs, forEach f before s = .ok (es, t) ∧ f i t = .ok (fs, u) ∧
      forEach f after u = .ok (hs, v) ∧ gs = es ++ (fs ++ hs) := by
  rw [forEach_append] at h
  obtain ⟨es, t, rest, hbefore, hrest, rfl⟩ := (andThen_ok_iff _ _ s gs v).mp h
  rw [forEach] at hrest
  obtain ⟨fs, u, hs, hi, hafter, rfl⟩ := (andThen_ok_iff _ _ t rest v).mp hrest
  exact ⟨es, t, fs, u, hs, hbefore, hi, hafter, rfl⟩

end runs

end Solarcido.Emitter
