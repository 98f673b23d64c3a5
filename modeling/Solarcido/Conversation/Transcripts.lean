import Mathlib.Algebra.Order.Ring.Rat
import Solarcido.Api.Chat
import Solarcido.Lib.FirstFit

namespace Solarcido.Conversation

open Text Api FirstFit

section transcripts

def estimateTranscriptTokens (transcript : List JsString) : Nat :=
  (transcript.map estimateTokens).sum

/-- What the loop leaves with `compacted` and `currentTokens` so far. -/
def compactTranscriptFrom (maxTokens : ℚ) (compacted : List JsString) (currentTokens : Nat) :
    List JsString → List JsString
  | [] => compacted
  | line :: rest =>
    let tokens := estimateTokens line
    if (currentTokens + tokens : ℚ) > maxTokens then
      compactTranscriptFrom maxTokens compacted currentTokens rest
    else compactTranscriptFrom maxTokens (compacted ++ [line]) (currentTokens + tokens) rest

def compactTranscript (transcript : List JsString) (maxTokens : ℚ) : List JsString :=
  compactTranscriptFrom maxTokens [] 0 transcript

variable (transcript : List JsString) (maxTokens : ℚ)

/-- The lines kept are the latest that the budget has room for. -/
structure KeepsRecent (kept : List JsString) : Prop where
  suffix : kept <:+ transcript
  within : (estimateTranscriptTokens kept : ℚ) ≤ maxTokens
  longest : ∀ other, other <:+ transcript → (estimateTranscriptTokens other : ℚ) ≤ maxTokens →
    other.length ≤ kept.length

def withinTokens (tokens : Nat) : Bool := decide ((tokens : ℚ) ≤ maxTokens)

def recentLines : List JsString := longestEnd estimateTokens (withinTokens maxTokens) transcript

theorem withinTokens_down (m n : Nat) (hle : m ≤ n) (h : withinTokens maxTokens n = true) :
    withinTokens maxTokens m = true :=
  decide_eq_true ((Nat.cast_le.mpr hle).trans (of_decide_eq_true h))

theorem compactTranscriptFrom_eq (compacted : List JsString) (currentTokens : Nat) :
    compactTranscriptFrom maxTokens compacted currentTokens transcript =
      compacted ++ firstFit estimateTokens (withinTokens maxTokens) currentTokens transcript := by
  induction transcript generalizing compacted currentTokens with
  | nil => rw [compactTranscriptFrom, firstFit, List.append_nil]
  | cons line rest ih =>
    rw [compactTranscriptFrom, firstFit]
    by_cases hover : (currentTokens + estimateTokens line : ℚ) > maxTokens
    · have hskip : ¬ withinTokens maxTokens (currentTokens + estimateTokens line) = true := by
        simpa [withinTokens] using hover
      rw [if_pos hover, if_neg hskip, ih]
    · have htake : withinTokens maxTokens (currentTokens + estimateTokens line) = true := by
        simpa [withinTokens] using hover
      rw [if_neg hover, if_pos htake, ih, List.append_assoc, List.singleton_append]

theorem compactTranscript_eq :
    compactTranscript transcript maxTokens =
      firstFit estimateTokens (withinTokens maxTokens) 0 transcript := by
  rw [compactTranscript, compactTranscriptFrom_eq, List.nil_append]

theorem keepsRecent_iff (kept : List JsString) :
    KeepsRecent transcript maxTokens kept ↔
      LongestEnd estimateTokens (withinTokens maxTokens) transcript kept := by
  constructor
  · intro h
    exact ⟨h.suffix, decide_eq_true h.within,
      fun other hother hwithin => h.longest other hother (of_decide_eq_true hwithin)⟩
  · intro h
    exact ⟨h.suffix, of_decide_eq_true h.within,
      fun other hother hwithin => h.longest other hother (decide_eq_true hwithin)⟩

theorem withinTokens_zero : withinTokens maxTokens 0 = true ↔ 0 ≤ maxTokens := by
  simp [withinTokens]

theorem compactTranscript_recent_iff :
    (KeepsRecent transcript maxTokens (compactTranscript transcript maxTokens) ↔
      0 ≤ maxTokens ∧
        Spells estimateTokens (withinTokens maxTokens) (recentLines transcript maxTokens) []
          transcript) ∧
    (transcript.Nodup →
      (KeepsRecent transcript maxTokens (compactTranscript transcript maxTokens) ↔
        0 ≤ maxTokens ∧ ∀ older, transcript = older ++ recentLines transcript maxTokens →
          ∀ line ∈ older, maxTokens < estimateTokens line)) := by
  rw [keepsRecent_iff, compactTranscript_eq, ← withinTokens_zero]
  have hdown := withinTokens_down maxTokens
  constructor
  · exact firstFit_longestEnd_iff hdown transcript
  · intro hdistinct
    have hover : ∀ line : JsString, withinTokens maxTokens (estimateTokens line) = false ↔
        maxTokens < estimateTokens line := by
      intro line
      simp [withinTokens]
    simp only [← hover]
    exact firstFit_longestEnd_iff_of_nodup hdown hdistinct

theorem latest_line_dropped :
    compactTranscript [js "a", js "b", js "c"] 20 = [js "a", js "b"] ∧
      ¬ KeepsRecent [js "a", js "b", js "c"] 20
        (compactTranscript [js "a", js "b", js "c"] 20) := by
  have hkept : compactTranscript [js "a", js "b", js "c"] 20 = [js "a", js "b"] := by
    decide +kernel
  refine ⟨hkept, ?_⟩
  rw [hkept]
  intro h
  exact absurd h.suffix (by decide)

end transcripts

end Solarcido.Conversation
