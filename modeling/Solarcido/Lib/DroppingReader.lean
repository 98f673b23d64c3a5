import Mathlib.Data.List.Infix

namespace Solarcido.DroppingReader

/-- A reader takes keys up to a result. After a result that is not its last it starts anew. -/
structure Reader (κ σ ρ : Type) where
  start : σ
  step : σ → κ → σ ⊕ ρ
  last : ρ → Bool

/-- The results so far, and where the reader stands unless it has ended. -/
structure Standing (σ ρ : Type) where
  results : List ρ
  now : Option σ

variable {κ σ ρ : Type}

namespace Reader

variable (r : Reader κ σ ρ)

def fresh : Standing σ ρ := ⟨[], some r.start⟩

/-- The keys of a chunk up to a result. -/
def readChunk : σ → List κ → σ ⊕ ρ
  | s, [] => .inl s
  | s, k :: ks =>
    match r.step s k with
    | .inl s' => readChunk s' ks
    | .inr result => .inr result

def settle (results : List ρ) : σ ⊕ ρ → Standing σ ρ
  | .inl s => ⟨results, some s⟩
  | .inr result => ⟨results ++ [result], if r.last result then none else some r.start⟩

/-- A chunk is read up to a result, and the rest of it is dropped. -/
def feed (t : Standing σ ρ) (chunk : List κ) : Standing σ ρ :=
  match t.now with
  | none => t
  | some s => r.settle t.results (r.readChunk s chunk)

def feedAll (t : Standing σ ρ) (chunks : List (List κ)) : Standing σ ρ := chunks.foldl r.feed t

/-- Each key is a chunk of its own. -/
def feedKeys (t : Standing σ ρ) (keys : List κ) : Standing σ ρ :=
  r.feedAll t (keys.map fun k => [k])

/-- A key gives a result after some others that give none. -/
def Ends (s : σ) (front : List κ) (k : κ) (result : ρ) : Prop :=
  ∃ s', r.readChunk s front = .inl s' ∧ r.step s' k = .inr result

/-- A key gives a result, and the reader starts anew. -/
def Restarts (t : Standing σ ρ) (front : List κ) (k : κ) : Prop :=
  ∃ s result, t.now = some s ∧ r.Ends s front k result ∧ r.last result = false

/-- Nothing stands in a chunk behind a key that makes the reader start anew. -/
def Whole (t : Standing σ ρ) (chunk : List κ) : Prop :=
  ∀ front k rest, chunk = front ++ k :: rest → r.Restarts t front k → rest = []

/-- Some keys give a fresh reader no result and leave it fresh. -/
def Quiet (keys : List κ) : Prop := r.feedKeys r.fresh keys = r.fresh

/-- Nothing is lost of some keys wherever a chunk ends: what stands behind the key that
makes the reader start anew leaves no trace, from wherever on it is read. -/
def LosesNothing (t : Standing σ ρ) (keys : List κ) : Prop :=
  ∀ front k rest, keys = front ++ k :: rest → r.Restarts t front k →
    ∀ later, later <:+ rest → r.Quiet later

variable {r} {s s' : σ} {t : Standing σ ρ} {front rest keys : List κ} {k : κ} {result : ρ}

section chunks

theorem readChunk_append (h : r.readChunk s front = .inl s') (rest : List κ) :
    r.readChunk s (front ++ rest) = r.readChunk s' rest := by
  induction front generalizing s with
  | nil =>
    obtain rfl : s = s' := Sum.inl.inj h
    rfl
  | cons k front ih =>
    rw [readChunk] at h
    rw [List.cons_append, readChunk]
    cases hstep : r.step s k with
    | inl s₁ =>
      rw [hstep] at h
      exact ih h
    | inr result =>
      rw [hstep] at h
      cases h

theorem readChunk_ends (h : r.Ends s front k result) (rest : List κ) :
    r.readChunk s (front ++ k :: rest) = .inr result := by
  obtain ⟨s', hfront, hstep⟩ := h
  rw [readChunk_append hfront, readChunk, hstep]

/-- A chunk gives no result, or the first one is given by one of its keys. -/
theorem readChunk_cases (s : σ) (chunk : List κ) :
    (∃ s', r.readChunk s chunk = .inl s') ∨
      ∃ front k rest result, chunk = front ++ k :: rest ∧ r.Ends s front k result := by
  induction chunk generalizing s with
  | nil => exact .inl ⟨s, rfl⟩
  | cons k chunk ih =>
    cases hstep : r.step s k with
    | inr result => exact .inr ⟨[], k, chunk, result, rfl, s, rfl, hstep⟩
    | inl s₁ =>
      rcases ih s₁ with ⟨s', hread⟩ | ⟨front, k', rest, result, rfl, s', hread, hend⟩
      · left
        refine ⟨s', ?_⟩
        rw [readChunk, hstep]
        exact hread
      · right
        refine ⟨k :: front, k', rest, result, rfl, s', ?_, hend⟩
        rw [readChunk, hstep]
        exact hread

end chunks

section feeding

theorem feed_ended (h : t.now = none) (chunk : List κ) : r.feed t chunk = t := by
  rw [feed, h]

theorem feedAll_ended (h : t.now = none) (chunks : List (List κ)) : r.feedAll t chunks = t := by
  induction chunks with
  | nil => rfl
  | cons chunk chunks ih =>
    rw [feedAll, List.foldl_cons, feed_ended h]
    exact ih

theorem feedAll_append (t : Standing σ ρ) (chunks later : List (List κ)) :
    r.feedAll t (chunks ++ later) = r.feedAll (r.feedAll t chunks) later := List.foldl_append

theorem feedKeys_append (t : Standing σ ρ) (keys later : List κ) :
    r.feedKeys t (keys ++ later) = r.feedKeys (r.feedKeys t keys) later := by
  rw [feedKeys, List.map_append, feedAll_append]
  rfl

theorem feedKeys_cons (t : Standing σ ρ) (k : κ) (keys : List κ) :
    r.feedKeys t (k :: keys) = r.feedKeys (r.feed t [k]) keys := rfl

theorem feed_key (h : t.now = some s) (k : κ) :
    r.feed t [k] = r.settle t.results (r.step s k) := by
  rw [feed, h]
  dsimp only
  rw [readChunk]
  cases r.step s k <;> rfl

theorem feed_of_read {chunk : List κ} (h : t.now = some s) (hread : r.readChunk s chunk = .inl s') :
    r.feed t chunk = ⟨t.results, some s'⟩ := by
  rw [feed, h]
  dsimp only
  rw [hread]
  rfl

/-- Keys without a result are read the same in one chunk and in many. -/
theorem feedKeys_of_read (h : t.now = some s) (hread : r.readChunk s keys = .inl s') :
    r.feedKeys t keys = ⟨t.results, some s'⟩ := by
  induction keys generalizing s t with
  | nil =>
    obtain rfl : s = s' := Sum.inl.inj hread
    rw [← h]
    rfl
  | cons k keys ih =>
    rw [readChunk] at hread
    rw [feedKeys_cons, feed_key h]
    cases hstep : r.step s k with
    | inl s₁ =>
      rw [hstep] at hread
      exact ih rfl hread
    | inr result =>
      rw [hstep] at hread
      cases hread

theorem feed_of_ends (h : t.now = some s) (hends : r.Ends s front k result) (rest : List κ) :
    r.feed t (front ++ k :: rest) = r.settle t.results (.inr result) := by
  rw [feed, h]
  dsimp only
  rw [readChunk_ends hends]

theorem feedKeys_of_ends (h : t.now = some s) (hends : r.Ends s front k result) (rest : List κ) :
    r.feedKeys t (front ++ k :: rest) = r.feedKeys (r.settle t.results (.inr result)) rest := by
  obtain ⟨s', hfront, hstep⟩ := hends
  rw [feedKeys_append, feedKeys_of_read h hfront, feedKeys_cons, feed_key (s := s') rfl, hstep]

theorem feed_shift (earlier : List ρ) (t : Standing σ ρ) (chunk : List κ) :
    r.feed ⟨earlier ++ t.results, t.now⟩ chunk =
      ⟨earlier ++ (r.feed t chunk).results, (r.feed t chunk).now⟩ := by
  cases hnow : t.now with
  | none => rw [feed_ended rfl, feed_ended hnow, hnow]
  | some s =>
    simp only [feed, hnow]
    cases r.readChunk s chunk with
    | inl s' => rfl
    | inr result => rw [settle, settle, List.append_assoc]

/-- The results before play no part in what is read. -/
theorem feedKeys_shift (earlier : List ρ) (t : Standing σ ρ) (keys : List κ) :
    r.feedKeys ⟨earlier ++ t.results, t.now⟩ keys =
      ⟨earlier ++ (r.feedKeys t keys).results, (r.feedKeys t keys).now⟩ := by
  induction keys generalizing t with
  | nil => rfl
  | cons k keys ih => rw [feedKeys_cons, feedKeys_cons, feed_shift, ih]

theorem feedKeys_restarted (results : List ρ) (keys : List κ) :
    r.feedKeys ⟨results, some r.start⟩ keys =
      ⟨results ++ (r.feedKeys r.fresh keys).results, (r.feedKeys r.fresh keys).now⟩ := by
  have hshift := feedKeys_shift (r := r) results r.fresh keys
  rw [fresh, List.append_nil] at hshift
  exact hshift

theorem quiet_iff (results : List ρ) (keys : List κ) : r.Quiet keys ↔
    r.feedKeys ⟨results, some r.start⟩ keys = ⟨results, some r.start⟩ := by
  rw [feedKeys_restarted, Quiet, fresh]
  generalize r.feedKeys ⟨[], some r.start⟩ keys = ended
  obtain ⟨more, now⟩ := ended
  simp

/-- Where some keys are quiet none of them gives a result. -/
theorem Quiet.not_ends (h : r.Quiet (front ++ k :: rest)) :
    ¬ r.Ends r.start front k result := by
  intro hends
  have hresults := congrArg Standing.results h
  rw [feedKeys_of_ends (t := r.fresh) rfl hends, fresh, settle] at hresults
  have hshift := feedKeys_shift (r := r) [result] ⟨[], if r.last result then none else some r.start⟩ rest
  rw [List.append_nil] at hshift
  rw [List.nil_append, hshift] at hresults
  cases hresults

end feeding

section deliveries

theorem feed_whole {chunk : List κ} (h : r.Whole t chunk) : r.feed t chunk = r.feedKeys t chunk := by
  cases hnow : t.now with
  | none => rw [feed_ended hnow, feedKeys, feedAll_ended hnow]
  | some s =>
    rcases readChunk_cases s chunk with ⟨s', hread⟩ | ⟨front, k, rest, result, rfl, hends⟩
    · rw [feed_of_read hnow hread, feedKeys_of_read hnow hread]
    · rw [feed_of_ends hnow hends, feedKeys_of_ends hnow hends]
      cases hlast : r.last result with
      | true =>
        have hended : (r.settle t.results (.inr result)).now = none := by
          rw [settle, if_pos hlast]
        rw [feedKeys, feedAll_ended hended]
      | false =>
        obtain rfl := h front k rest rfl ⟨s, result, hnow, hends, hlast⟩
        rfl

/-- Chunks that each end where the reader starts anew are read as their keys one by one. -/
theorem feedAll_whole {chunks : List (List κ)} (h : ∀ before chunk after,
    chunks = before ++ chunk :: after → r.Whole (r.feedAll t before) chunk) :
    r.feedAll t chunks = r.feedKeys t chunks.flatten := by
  induction chunks generalizing t with
  | nil => rfl
  | cons chunk chunks ih =>
    have hchunk : r.feed t chunk = r.feedKeys t chunk := feed_whole (h [] chunk chunks rfl)
    rw [List.flatten_cons, feedKeys_append, ← hchunk]
    apply ih
    intro before later after hsplit
    exact h (chunk :: before) later after (by rw [hsplit, List.cons_append])

theorem flatten_keys (keys : List κ) : (keys.map fun k => [k]).flatten = keys := by
  induction keys with
  | nil => rfl
  | cons k keys ih => rw [List.map_cons, List.flatten_cons, ih, List.singleton_append]

theorem losesNothing_of_quiet (results : List ρ) (h : ∀ later, later <:+ keys → r.Quiet later) :
    r.LosesNothing ⟨results, some r.start⟩ keys := by
  rintro front k rest rfl ⟨s, result, hnow, hends, -⟩
  obtain rfl := Option.some.inj hnow
  exact absurd hends (h _ (List.suffix_refl _)).not_ends

theorem LosesNothing.later (h : r.LosesNothing t (front ++ rest)) (hnow : t.now = some s)
    (hread : r.readChunk s front = .inl s') :
    r.LosesNothing ⟨t.results, some s'⟩ rest := by
  rintro middle k rest' rfl ⟨s₁, result, hnow', ⟨s₂, hmiddle, hstep⟩, hlast⟩
  obtain rfl := Option.some.inj hnow'
  refine h (front ++ middle) k rest' (List.append_assoc _ _ _).symm
    ⟨s, result, hnow, ⟨s₂, ?_, hstep⟩, hlast⟩
  rw [readChunk_append hread]
  exact hmiddle

theorem feedAll_of_losesNothing {chunks : List (List κ)} (h : r.LosesNothing t chunks.flatten) :
    r.feedAll t chunks = r.feedKeys t chunks.flatten := by
  induction chunks generalizing t with
  | nil => rfl
  | cons chunk chunks ih =>
    rw [List.flatten_cons] at h ⊢
    cases hnow : t.now with
    | none => rw [feedAll_ended hnow, feedKeys, feedAll_ended hnow]
    | some s =>
      rw [feedAll, List.foldl_cons]
      rcases readChunk_cases s chunk with ⟨s', hread⟩ | ⟨front, k, rest, result, rfl, hends⟩
      · rw [feed_of_read hnow hread, feedKeys_append, feedKeys_of_read hnow hread]
        exact ih (h.later hnow hread)
      · rw [feed_of_ends hnow hends, List.append_assoc, List.cons_append,
          feedKeys_of_ends hnow hends]
        cases hlast : r.last result with
        | true =>
          have hended : (r.settle t.results (.inr result)).now = none := by
            rw [settle, if_pos hlast]
          rw [feedKeys, feedAll_ended hended]
          exact feedAll_ended hended chunks
        | false =>
          -- what the chunk drops is quiet, and so is what is left of the keys
          have hquiet := h front k (rest ++ chunks.flatten) (by simp)
            ⟨s, result, hnow, hends, hlast⟩
          have hrestarted : r.settle t.results (.inr result) =
              ⟨t.results ++ [result], some r.start⟩ := by
            rw [settle, hlast]
            rfl
          have hlater : ∀ later, later <:+ chunks.flatten → r.Quiet later := fun later hsuffix =>
            hquiet later (hsuffix.trans (List.suffix_append rest _))
          rw [hrestarted, (quiet_iff _ _).mp (hquiet _ (List.suffix_refl _))]
          exact (ih (losesNothing_of_quiet _ hlater)).trans
            ((quiet_iff _ _).mp (hlater _ (List.suffix_refl _)))

/-- All ways to cut some keys into chunks are read alike exactly when none of them loses
anything. -/
theorem feedAll_agree_iff (t : Standing σ ρ) (keys : List κ) :
    (∀ first second : List (List κ), first.flatten = keys → second.flatten = keys →
      r.feedAll t first = r.feedAll t second) ↔ r.LosesNothing t keys := by
  constructor
  · rintro h front k rest rfl ⟨s, result, hnow, hends, hlast⟩ later ⟨dropped, rfl⟩
    have hrestarted : r.settle t.results (.inr result) =
        ⟨t.results ++ [result], some r.start⟩ := by
      rw [settle, hlast]
      rfl
    have hall := h [front ++ k :: (dropped ++ later)]
      ((front ++ k :: dropped) :: later.map fun k => [k]) (by simp)
      (by rw [List.flatten_cons, flatten_keys, List.append_assoc, List.cons_append])
    rw [feedAll, feedAll, List.foldl_cons, List.foldl_cons, feed_of_ends hnow hends,
      feed_of_ends hnow hends, hrestarted] at hall
    exact (quiet_iff _ later).mpr hall.symm
  · rintro h first second rfl hsecond
    rw [feedAll_of_losesNothing h]
    rw [← hsecond] at h ⊢
    exact (feedAll_of_losesNothing h).symm

end deliveries

end Reader

end Solarcido.DroppingReader
