import Mathlib.Algebra.Order.Ring.Rat
import Solarcido.Api.PromptCache
import Solarcido.Lib.ExpiringMap
import Solarcido.Lib.Serial

namespace Solarcido.Api

open Text Serial

namespace PromptCache

variable {R : Type}

inductive Operation (R : Type) where
  | lookup (request : RequestLike)
  | recordResponse (request : RequestLike) (response : R) (usage : CacheUsage)
  | recordUsage (request : RequestLike) (usage : CacheUsage)
  /-- A new object for the same storage takes the place of the old one. -/
  | recreate

namespace Operation

def isLookup : Operation R → Bool
  | .lookup _ => true
  | _ => false

def isResponse : Operation R → Bool
  | .recordResponse .. => true
  | _ => false

/-- The usage that is recorded. -/
def usage : Operation R → Option CacheUsage
  | .recordResponse _ _ usage => some usage
  | .recordUsage _ usage => some usage
  | _ => none

end Operation

variable (config : PromptCacheConfig) (numberText : ℚ → JsString)

/-- One operation at the time the clock shows. -/
def perform (self : PromptCache R) (op : ℚ × Operation R) : PromptCache R :=
  match op.2 with
  | .lookup request => (lookupCompletion config numberText op.1 request self).2
  | .recordResponse request response usage =>
    (recordResponse config numberText op.1 request response usage self).2
  | .recordUsage request usage => (recordUsage config numberText op.1 request usage self).2
  | .recreate => new self.storage

/-- The object after operations on a storage that was empty. -/
def after (ops : List (ℚ × Operation R)) : PromptCache R :=
  runAll (perform config numberText) (new inMemoryStorage) ops

/-- The latest response recorded under each key, and when. -/
def recordedStep (m : ExpiringMap.Contents JsString R ℚ) (op : ℚ × Operation R) :
    ExpiringMap.Contents JsString R ℚ :=
  match op.2 with
  | .recordResponse request response _ =>
    ExpiringMap.put m (requestHashHex numberText request) op.1 response
  | _ => m

def recorded (ops : List (ℚ × Operation R)) : ExpiringMap.Contents JsString R ℚ :=
  runAll (recordedStep numberText) ExpiringMap.empty ops

/-- What a storage holds under each key. -/
def contents (self : PromptCache R) : ExpiringMap.Contents JsString R ℚ := fun key =>
  (self.storage.completions.get key).map fun entry => (entry.cachedAtSecs, entry.response)

/-- The statistics count the operations. -/
structure Accounts (stats : PromptCacheStats) (ops : List (Operation R)) : Prop where
  lookups : stats.completionCacheHits + stats.completionCacheMisses = ops.countP Operation.isLookup
  records : stats.trackedRequests = (ops.filterMap Operation.usage).length
  writes : stats.completionCacheWrites = ops.countP Operation.isResponse
  creation : stats.totalCacheCreationInputTokens =
    ((ops.filterMap Operation.usage).map CacheUsage.cacheCreationInputTokens).sum
  read : stats.totalCacheReadInputTokens =
    ((ops.filterMap Operation.usage).map CacheUsage.cacheReadInputTokens).sum

/-- What a storage holds at some time, next to the map it stands for. -/
structure Refines (now : ℚ) (cache : PromptCache R) (m : ExpiringMap.Contents JsString R ℚ) :
    Prop where
  holds : ExpiringMap.Holds config.completionTtlSecs now (contents cache) m
  versions : ∀ key entry, cache.storage.completions.get key = some entry →
    entry.fingerprintVersion = FINGERPRINT_VERSION

/-- The statistics of an object are those of its storage. -/
def Saved (self : PromptCache R) : Prop := self.storage.stats.getD emptyStats = self.stats

section steps

variable {config} {now : ℚ} {self : PromptCache R} {m : ExpiringMap.Contents JsString R ℚ}

theorem contents_recordInternal (request : RequestLike) (usage : CacheUsage) (response : R) :
    contents (recordInternal config numberText now request usage (some response) self).2 =
      ExpiringMap.put (contents self) (requestHashHex numberText request) now response := by
  funext k
  by_cases hk : k = requestHashHex numberText request
  · subst hk
    simp [contents, recordInternal, saveStats, ExpiringMap.put]
  · simp [contents, recordInternal, saveStats, ExpiringMap.put, hk, InsertionMap.get_set_of_ne]

theorem contents_deleteCompletion (key : JsString) :
    contents (self.deleteCompletion key) = ExpiringMap.drop (contents self) key := by
  funext k
  by_cases hk : k = key
  · subst hk
    simp [contents, deleteCompletion, ExpiringMap.drop]
  · simp [contents, deleteCompletion, ExpiringMap.drop, hk, InsertionMap.get_erase_of_ne]

theorem Refines.saveStats (h : Refines config now self m) (stats : PromptCacheStats) :
    Refines config now (self.saveStats stats) m := ⟨h.holds, h.versions⟩

theorem Refines.deleteCompletion (h : Refines config now self m) {key : JsString}
    {entry : CompletionCacheEntry R} (hentry : self.storage.completions.get key = some entry)
    (hold : config.completionTtlSecs ≤ now - entry.cachedAtSecs) :
    Refines config now (self.deleteCompletion key) m := by
  have hcontents : contents self key = some (entry.cachedAtSecs, entry.response) := by
    rw [contents, hentry, Option.map_some]
  constructor
  · rw [contents_deleteCompletion]
    exact h.holds.drop hcontents hold
  · intro k e hget
    by_cases hk : k = key
    · subst hk
      simp [PromptCache.deleteCompletion] at hget
    · apply h.versions k e
      rwa [← InsertionMap.get_erase_of_ne self.storage.completions key k hk]

/-- A lookup answers as the map does, and changes nothing of it. -/
theorem lookupCompletion_refines (h : Refines config now self m) (request : RequestLike) :
    (lookupCompletion config numberText now request self).1 =
        ExpiringMap.find config.completionTtlSecs m now (requestHashHex numberText request) ∧
      Refines config now (lookupCompletion config numberText now request self).2 m := by
  rw [← h.holds.find_eq, lookupCompletion, ExpiringMap.find, contents]
  cases hentry : self.storage.completions.get (requestHashHex numberText request) with
  | none => exact ⟨rfl, h.saveStats _⟩
  | some entry =>
    have hversion := h.versions _ entry hentry
    by_cases hold : config.completionTtlSecs ≤ now - entry.cachedAtSecs
    · simp only [hold, or_true, if_true, Option.map_some, Option.bind_some, not_lt.mpr hold, if_false]
      exact ⟨trivial, (h.deleteCompletion hentry hold).saveStats _⟩
    · simp only [hold, hversion, ne_eq, not_true_eq_false, or_false, if_false, Option.map_some,
        Option.bind_some, not_le.mp hold, if_true]
      exact ⟨trivial, h.saveStats _⟩

/-- A record puts its response, if it has one. -/
theorem recordInternal_refines (h : Refines config now self m) (request : RequestLike)
    (usage : CacheUsage) (response : Option R) :
    Refines config now (recordInternal config numberText now request usage response self).2
      (match response with
      | none => m
      | some response => ExpiringMap.put m (requestHashHex numberText request) now response) := by
  cases response with
  | none => exact ⟨h.holds, h.versions⟩
  | some response =>
    constructor
    · rw [contents_recordInternal]
      exact h.holds.put _ response
    · intro k e hget
      by_cases hk : k = requestHashHex numberText request
      · subst hk
        simp [recordInternal, PromptCache.saveStats] at hget
        rw [← hget]
      · apply h.versions k e
        simpa [recordInternal, PromptCache.saveStats, InsertionMap.get_set_of_ne _ _ _ _ hk] using hget

/-- An operation keeps what the storage stands for, up to what is recorded. -/
theorem perform_refines (h : Refines config now self m) (op : Operation R) :
    Refines config now (perform config numberText self (now, op))
      (recordedStep numberText m (now, op)) := by
  cases op with
  | lookup request => exact (lookupCompletion_refines numberText h request).2
  | recordResponse request response usage =>
    exact recordInternal_refines numberText h request usage (some response)
  | recordUsage request usage => exact recordInternal_refines numberText h request usage none
  | recreate => exact ⟨h.holds, h.versions⟩

theorem recordInternal_saved (request : RequestLike) (usage : CacheUsage) (response : Option R) :
    Saved (recordInternal config numberText now request usage response self).2 := by
  cases response <;> rfl

theorem lookupCompletion_saved (request : RequestLike) :
    Saved (lookupCompletion config numberText now request self).2 := by
  unfold lookupCompletion
  dsimp only
  split
  · rfl
  · split <;> rfl

theorem perform_saved (op : ℚ × Operation R) :
    Saved (perform config numberText self op) := by
  obtain ⟨now, op⟩ := op
  cases op with
  | lookup request => exact lookupCompletion_saved numberText request
  | recordResponse request response usage =>
    exact recordInternal_saved numberText request usage (some response)
  | recordUsage request usage => exact recordInternal_saved numberText request usage none
  | recreate => rfl

end steps

section accounts

variable {config} {now : ℚ} {self : PromptCache R} {ops : List (Operation R)}

/-- What one more operation adds to the accounts. -/
theorem Accounts.snoc {stats stats' : PromptCacheStats} (h : Accounts stats ops) (op : Operation R)
    (hlookups : stats'.completionCacheHits + stats'.completionCacheMisses =
      stats.completionCacheHits + stats.completionCacheMisses + if op.isLookup then 1 else 0)
    (hrecords : stats'.trackedRequests = stats.trackedRequests + op.usage.toList.length)
    (hwrites : stats'.completionCacheWrites =
      stats.completionCacheWrites + if op.isResponse then 1 else 0)
    (hcreation : stats'.totalCacheCreationInputTokens = stats.totalCacheCreationInputTokens +
      (op.usage.toList.map CacheUsage.cacheCreationInputTokens).sum)
    (hread : stats'.totalCacheReadInputTokens = stats.totalCacheReadInputTokens +
      (op.usage.toList.map CacheUsage.cacheReadInputTokens).sum) :
    Accounts stats' (ops ++ [op]) := by
  have husage : (ops ++ [op]).filterMap Operation.usage =
      ops.filterMap Operation.usage ++ op.usage.toList := by
    cases hop : op.usage <;> simp [List.filterMap_append, hop]
  constructor
  · rw [hlookups, h.lookups, List.countP_append, List.countP_singleton]
  · rw [hrecords, h.records, husage, List.length_append]
  · rw [hwrites, h.writes, List.countP_append, List.countP_singleton]
  · rw [hcreation, h.creation, husage, List.map_append, List.sum_append]
  · rw [hread, h.read, husage, List.map_append, List.sum_append]

theorem accounts_lookup (h : Accounts self.stats ops) (request : RequestLike) :
    Accounts (lookupCompletion config numberText now request self).2.stats
      (ops ++ [.lookup request]) := by
  have hmissed : Accounts (missed self.stats (requestHashHex numberText request))
      (ops ++ [.lookup request]) :=
    h.snoc _ (Nat.add_assoc _ _ 1).symm rfl rfl (add_zero _).symm (add_zero _).symm
  unfold lookupCompletion
  dsimp only
  split
  · exact hmissed
  · split
    · exact hmissed
    · exact h.snoc _ (Nat.add_right_comm _ 1 _) rfl rfl (add_zero _).symm (add_zero _).symm

theorem accounts_record (h : Accounts self.stats ops) (request : RequestLike) (usage : CacheUsage)
    (response : Option R) (op : Operation R) (husage : op.usage = some usage)
    (hlookup : op.isLookup = false) (hresponse : op.isResponse = response.isSome) :
    Accounts (recordInternal config numberText now request usage response self).2.stats
      (ops ++ [op]) := by
  apply h.snoc
  all_goals
    unfold recordInternal
    dsimp only
    cases detectCacheBreak numberText config self.previous
      (stateFromRequest numberText request usage now) <;>
    cases response <;>
    simp [PromptCache.saveStats, countBreak, applyUsageToStats, husage, hlookup, hresponse]

theorem accounts_perform (hsaved : Saved self) (h : Accounts self.stats ops) (op : Operation R) :
    Accounts (perform config numberText self (now, op)).stats (ops ++ [op]) := by
  cases op with
  | lookup request => exact accounts_lookup numberText h request
  | recordResponse request response usage =>
    exact accounts_record numberText h request usage (some response) _ rfl rfl rfl
  | recordUsage request usage =>
    exact accounts_record numberText h request usage none _ rfl rfl rfl
  | recreate =>
    rw [perform, new, hsaved]
    exact h.snoc _ rfl rfl rfl (add_zero _).symm (add_zero _).symm

end accounts

theorem after_snoc (ops : List (ℚ × Operation R)) (op : ℚ × Operation R) :
    after config numberText (ops ++ [op]) =
      perform config numberText (after config numberText ops) op :=
  runAll_snoc _ _ ops op

theorem recorded_snoc (ops : List (ℚ × Operation R)) (op : ℚ × Operation R) :
    recorded numberText (ops ++ [op]) = recordedStep numberText (recorded numberText ops) op :=
  runAll_snoc _ _ ops op

theorem after_saved (ops : List (ℚ × Operation R)) : Saved (after config numberText ops) :=
  runAll_invariant _ (new inMemoryStorage) Saved rfl (fun _ op _ => perform_saved numberText op) ops

theorem after_accounts (ops : List (ℚ × Operation R)) :
    Accounts (after config numberText ops).stats (ops.map Prod.snd) := by
  induction ops using List.reverseRecOn with
  | nil => exact ⟨rfl, rfl, rfl, rfl, rfl⟩
  | append_singleton ops op ih =>
    rw [after_snoc, List.map_append]
    exact accounts_perform numberText (after_saved config numberText ops) ih op.2

/-- With a clock that does not go back, the storage stands for what has been recorded. -/
theorem after_refines (ops : List (ℚ × Operation R))
    (hclock : (ops.map Prod.fst).Pairwise (· ≤ ·)) (now : ℚ) (hnow : ∀ op ∈ ops, op.1 ≤ now) :
    Refines config now (after config numberText ops) (recorded numberText ops) := by
  induction ops using List.reverseRecOn generalizing now with
  | nil => exact ⟨ExpiringMap.holds_self, fun key entry h => absurd h (by simp [after, new, inMemoryStorage])⟩
  | append_singleton ops op ih =>
    obtain ⟨time, op⟩ := op
    rw [List.map_append, List.pairwise_append] at hclock
    have hearlier : ∀ o ∈ ops, o.1 ≤ time := fun o ho =>
      hclock.2.2 o.1 (List.mem_map_of_mem ho) time (by simp)
    have hstep := perform_refines numberText (ih hclock.1 time hearlier) op
    rw [after_snoc, recorded_snoc]
    exact ⟨hstep.holds.later (hnow (time, op) (by simp)), hstep.versions⟩

/-- An operation records a response under a key. -/
def Records (key : JsString) (response : R) (op : Operation R) : Prop :=
  ∃ request usage, op = .recordResponse request response usage ∧
    requestHashHex numberText request = key

/-- The latest response recorded under a key, and when. -/
def Latest (ops : List (ℚ × Operation R)) (key : JsString) (time : ℚ) (response : R) : Prop :=
  Since (fun _ op => op.1 = time ∧ Records numberText key response op.2)
    (fun _ op => ∃ response', Records numberText key response' op.2) ops

theorem recorded_iff (ops : List (ℚ × Operation R)) (key : JsString) (time : ℚ) (response : R) :
    recorded numberText ops key = some (time, response) ↔
      Latest numberText ops key time response := by
  induction ops using List.reverseRecOn with
  | nil =>
    constructor
    · intro h
      exact absurd h (by simp [recorded, ExpiringMap.empty])
    · intro h
      exact absurd h (not_since_nil _ _)
  | append_singleton ops op ih =>
    obtain ⟨now, op⟩ := op
    rw [recorded_snoc, Latest, since_snoc]
    change _ ↔ _ ∨ Latest numberText ops key time response ∧ _
    rw [← ih]
    by_cases hrecords : ∃ response', Records numberText key response' op
    · obtain ⟨response', request, usage, rfl, rfl⟩ := hrecords
      have hput : recordedStep numberText (recorded numberText ops)
          (now, .recordResponse request response' usage) (requestHashHex numberText request) =
            some (now, response') := by
        simp [recordedStep, ExpiringMap.put]
      rw [hput]
      constructor
      · intro h
        obtain ⟨rfl, rfl⟩ := Prod.mk.inj (Option.some.inj h)
        exact Or.inl ⟨rfl, request, usage, rfl, rfl⟩
      · rintro (⟨rfl, request', usage', hop, -⟩ | ⟨-, hnone⟩)
        · cases hop
          rfl
        · exact absurd ⟨response', request, usage, rfl, rfl⟩ hnone
    · have hsame : recordedStep numberText (recorded numberText ops) (now, op) key =
          recorded numberText ops key := by
        cases op with
        | recordResponse request response' usage =>
          have hne : key ≠ requestHashHex numberText request := by
            rintro rfl
            exact hrecords ⟨response', request, usage, rfl, rfl⟩
          simp [recordedStep, ExpiringMap.put, hne]
        | lookup request => rfl
        | recordUsage request usage => rfl
        | recreate => rfl
      rw [hsame]
      constructor
      · intro h
        exact Or.inr ⟨h, hrecords⟩
      · rintro (⟨-, hop⟩ | ⟨h, -⟩)
        · exact absurd ⟨response, hop⟩ hrecords
        · exact h

section sample

/-- A response is recorded, the object is made anew, and the request comes again. -/
def sampleOperations : List (ℚ × Operation JsString) :=
  [(0, .recordResponse [] (js "hello") ⟨0, 5, 7, 1⟩), (8, .recreate), (10, .lookup [])]

end sample

end PromptCache

end Solarcido.Api
