import Solarcido.Crates.Runtime
import Solarcido.Lib.Counters

namespace Solarcido.Crates

open RustText Counters

section usage

/-- `Usage::total_tokens`. -/
def Usage.totalTokens (u : Usage) : Except Panic U32 := checkedAdd u.promptTokens u.completionTokens

structure TokenUsage where
  inputTokens : U32
  outputTokens : U32
  cacheCreationInputTokens : U32
  cacheReadInputTokens : U32

def TokenUsage.default : TokenUsage := ⟨0, 0, 0, 0⟩

/-- `TokenUsage::total_tokens`. -/
def TokenUsage.totalTokens (u : TokenUsage) : Except Panic U32 := do
  let total ← checkedAdd u.inputTokens u.outputTokens
  let total ← checkedAdd total u.cacheCreationInputTokens
  checkedAdd total u.cacheReadInputTokens

structure UsageTracker where
  latestTurn : TokenUsage
  cumulative : TokenUsage
  turns : U32

def UsageTracker.new : UsageTracker := ⟨.default, .default, 0⟩

def UsageTracker.record (s : UsageTracker) (usage : TokenUsage) : Except Panic UsageTracker := do
  let inputTokens ← checkedAdd s.cumulative.inputTokens usage.inputTokens
  let outputTokens ← checkedAdd s.cumulative.outputTokens usage.outputTokens
  let cacheCreationInputTokens ←
    checkedAdd s.cumulative.cacheCreationInputTokens usage.cacheCreationInputTokens
  let cacheReadInputTokens ←
    checkedAdd s.cumulative.cacheReadInputTokens usage.cacheReadInputTokens
  let turns ← checkedAdd s.turns 1
  .ok ⟨usage, ⟨inputTokens, outputTokens, cacheCreationInputTokens, cacheReadInputTokens⟩, turns⟩

end usage

section checked

theorem checkedAdd_ok {a b : U32} (h : a.val + b.val < 2 ^ 32) :
    checkedAdd a b = .ok ⟨a.val + b.val, h⟩ := dif_pos h

theorem checkedAdd_error {a b : U32} (h : ¬ a.val + b.val < 2 ^ 32) :
    ∃ p, checkedAdd a b = .error p := ⟨_, dif_neg h⟩

theorem bind_error {α β : Type} {x : Except Panic α} (h : ∃ p, x = .error p)
    (f : α → Except Panic β) : ∃ p, (x >>= f) = .error p := by
  obtain ⟨p, rfl⟩ := h
  exact ⟨p, rfl⟩

/-- The counters of a turn. -/
inductive UsageCounter where
  | prompt
  | completion

def UsageCounter.count : UsageCounter → Usage → Nat
  | .prompt, u => u.promptTokens.val
  | .completion, u => u.completionTokens.val

theorem usage_checked :
    Checked Usage.add UsageCounter.count UsageCounter.count (2 ^ 32) where
  below
    | .prompt, u => u.promptTokens.isLt
    | .completion, u => u.completionTokens.isLt
  ok := by
    intro u v h
    have hprompt : u.promptTokens.val + v.promptTokens.val < 2 ^ 32 := h .prompt
    have hcompletion : u.completionTokens.val + v.completionTokens.val < 2 ^ 32 := h .completion
    refine ⟨⟨⟨_, hprompt⟩, ⟨_, hcompletion⟩⟩, ?_, ?_⟩
    · rw [Usage.add, checkedAdd_ok hprompt, checkedAdd_ok hcompletion]
      rfl
    · rintro (_ | _) <;> rfl
  error := by
    intro u v h
    rw [Usage.add]
    by_cases hprompt : u.promptTokens.val + v.promptTokens.val < 2 ^ 32
    · have hcompletion : ¬ u.completionTokens.val + v.completionTokens.val < 2 ^ 32 := by
        intro hcompletion
        apply h
        rintro (_ | _)
        · exact hprompt
        · exact hcompletion
      rw [checkedAdd_ok hprompt]
      exact bind_error (checkedAdd_error hcompletion) _
    · exact bind_error (checkedAdd_error hprompt) _

/-- The counters of a session. -/
inductive TrackerCounter where
  | input
  | output
  | cacheCreation
  | cacheRead
  | turns

def TrackerCounter.count : TrackerCounter → UsageTracker → Nat
  | .input, s => s.cumulative.inputTokens.val
  | .output, s => s.cumulative.outputTokens.val
  | .cacheCreation, s => s.cumulative.cacheCreationInputTokens.val
  | .cacheRead, s => s.cumulative.cacheReadInputTokens.val
  | .turns, s => s.turns.val

def TrackerCounter.gain : TrackerCounter → TokenUsage → Nat
  | .input, u => u.inputTokens.val
  | .output, u => u.outputTokens.val
  | .cacheCreation, u => u.cacheCreationInputTokens.val
  | .cacheRead, u => u.cacheReadInputTokens.val
  | .turns, _ => 1

theorem tracker_checked :
    Checked UsageTracker.record TrackerCounter.count TrackerCounter.gain (2 ^ 32) where
  below
    | .input, s => s.cumulative.inputTokens.isLt
    | .output, s => s.cumulative.outputTokens.isLt
    | .cacheCreation, s => s.cumulative.cacheCreationInputTokens.isLt
    | .cacheRead, s => s.cumulative.cacheReadInputTokens.isLt
    | .turns, s => s.turns.isLt
  ok := by
    intro s u h
    refine ⟨⟨u, ⟨⟨_, h .input⟩, ⟨_, h .output⟩, ⟨_, h .cacheCreation⟩, ⟨_, h .cacheRead⟩⟩,
      ⟨_, h .turns⟩⟩, ?_, ?_⟩
    · rw [UsageTracker.record, checkedAdd_ok (h .input), checkedAdd_ok (h .output),
        checkedAdd_ok (h .cacheCreation), checkedAdd_ok (h .cacheRead), checkedAdd_ok (h .turns)]
      rfl
    · rintro (_ | _ | _ | _ | _) <;> rfl
  error := by
    intro s u h
    rw [UsageTracker.record]
    by_cases hinput : TrackerCounter.input.count s + TrackerCounter.input.gain u < 2 ^ 32
    swap; · exact bind_error (checkedAdd_error hinput) _
    rw [checkedAdd_ok hinput]
    by_cases houtput : TrackerCounter.output.count s + TrackerCounter.output.gain u < 2 ^ 32
    swap; · exact bind_error (checkedAdd_error houtput) _
    rw [checkedAdd_ok houtput]
    by_cases hcreation : TrackerCounter.cacheCreation.count s +
        TrackerCounter.cacheCreation.gain u < 2 ^ 32
    swap; · exact bind_error (checkedAdd_error hcreation) _
    rw [checkedAdd_ok hcreation]
    by_cases hread : TrackerCounter.cacheRead.count s + TrackerCounter.cacheRead.gain u < 2 ^ 32
    swap; · exact bind_error (checkedAdd_error hread) _
    rw [checkedAdd_ok hread]
    have hturns : ¬ TrackerCounter.turns.count s + TrackerCounter.turns.gain u < 2 ^ 32 := by
      intro hturns
      apply h
      rintro (_ | _ | _ | _ | _) <;> assumption
    exact bind_error (checkedAdd_error hturns) _

end checked

section exact

/-- The sums of a list of usages. -/
def promptSum (usages : List Usage) : Nat := (usages.map fun u => u.promptTokens.val).sum

def completionSum (usages : List Usage) : Nat := (usages.map fun u => u.completionTokens.val).sum

/-- A turn reports the sums of what it has received. -/
structure ExactUsage (received : List Usage) (u : Usage) : Prop where
  prompt : u.promptTokens.val = promptSum received
  completion : u.completionTokens.val = completionSum received
  total : ∃ total, u.totalTokens = .ok total ∧
    total.val = promptSum received + completionSum received

/-- The sums of the usages of some turns. -/
def tokenSum (usages : List TokenUsage) : Nat :=
  gained TrackerCounter.gain .input usages + gained TrackerCounter.gain .output usages +
    gained TrackerCounter.gain .cacheCreation usages + gained TrackerCounter.gain .cacheRead usages

/-- A session's tracker reports the sums of what it has recorded. -/
structure ExactTracker (recorded : List TokenUsage) (s : UsageTracker) : Prop where
  counters : ∀ i, TrackerCounter.count i s = gained TrackerCounter.gain i recorded
  total : ∃ total, s.cumulative.totalTokens = .ok total ∧ total.val = tokenSum recorded

theorem exactUsage_iff {received : List Usage} {u : Usage}
    (h : ∀ i, UsageCounter.count i u = gained UsageCounter.count i received) :
    ExactUsage received u ↔ promptSum received + completionSum received < 2 ^ 32 := by
  have hprompt : u.promptTokens.val = promptSum received := h .prompt
  have hcompletion : u.completionTokens.val = completionSum received := h .completion
  constructor
  · rintro ⟨-, -, total, -, htotal⟩
    rw [← htotal]
    exact total.isLt
  · intro hfits
    rw [← hprompt, ← hcompletion] at hfits
    exact ⟨hprompt, hcompletion, _, checkedAdd_ok hfits, congrArg₂ (· + ·) hprompt hcompletion⟩

theorem totalTokens_exact_iff (u : TokenUsage) (sum : Nat)
    (hsum : sum = u.inputTokens.val + u.outputTokens.val + u.cacheCreationInputTokens.val +
      u.cacheReadInputTokens.val) :
    (∃ total, u.totalTokens = .ok total ∧ total.val = sum) ↔ sum < 2 ^ 32 := by
  subst hsum
  constructor
  · rintro ⟨total, -, htotal⟩
    rw [← htotal]
    exact total.isLt
  · intro h
    have hfirst : u.inputTokens.val + u.outputTokens.val < 2 ^ 32 := by omega
    have hsecond : u.inputTokens.val + u.outputTokens.val + u.cacheCreationInputTokens.val <
        2 ^ 32 := by omega
    refine ⟨⟨_, h⟩, ?_, rfl⟩
    rw [TokenUsage.totalTokens, checkedAdd_ok hfirst]
    simp only [bind, Except.bind]
    rw [checkedAdd_ok (a := ⟨_, hfirst⟩) hsecond]
    exact checkedAdd_ok (a := ⟨_, hsecond⟩) h

/-- What is promised of a tracker. -/
def RecordsExactly (recorded : List TokenUsage) : Prop :=
  ∃ s, recorded.foldlM UsageTracker.record .new = .ok s ∧ ExactTracker recorded s

theorem recordsExactly_iff (recorded : List TokenUsage) :
    RecordsExactly recorded ↔ tokenSum recorded < 2 ^ 32 ∧ recorded.length < 2 ^ 32 := by
  have hturns : gained TrackerCounter.gain .turns recorded = recorded.length := by
    have hone : TrackerCounter.gain .turns = fun _ => 1 := rfl
    simp [gained, hone]
  have hstart : ∀ i, TrackerCounter.count i .new = 0 := by
    rintro (_ | _ | _ | _ | _) <;> rfl
  constructor
  · rintro ⟨s, -, hcounters, total, -, htotal⟩
    refine ⟨htotal ▸ total.isLt, ?_⟩
    rw [← hturns, ← hcounters]
    exact s.turns.isLt
  · rintro ⟨hsum, hlength⟩
    have hfits : Fits TrackerCounter.count TrackerCounter.gain (2 ^ 32) .new recorded := by
      rintro (_ | _ | _ | _ | _)
      all_goals
        rw [hstart, Nat.zero_add]
        rw [tokenSum] at hsum
        omega
    obtain ⟨s, hs, hcounters⟩ := tracker_checked.foldlM_ok hfits
    have hcounts : ∀ i, TrackerCounter.count i s = gained TrackerCounter.gain i recorded := by
      intro i
      rw [hcounters, hstart, Nat.zero_add]
    refine ⟨s, hs, hcounts, (totalTokens_exact_iff s.cumulative _ ?_).mpr hsum⟩
    rw [tokenSum, ← hcounts, ← hcounts, ← hcounts, ← hcounts]
    rfl

end exact

end Solarcido.Crates
