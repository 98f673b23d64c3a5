import Solarcido.Mcp.Lifecycle

namespace Solarcido.Mcp.Lifecycle

open Text Serial

namespace McpLifecycleState

variable (now : Nat → Int) (format : NumberFormat)

/-- The operation is a call that enters the phase with a success. -/
def Succeeds (s : McpLifecycleState) (op : LifecycleOperation) (phase : McpLifecyclePhase) : Prop :=
  ∃ durationMs, (perform now format s op).1 = .success phase durationMs

/-- Somewhere in a run of a new validator the phase was entered with a success. -/
def HasEntered (ops : List LifecycleOperation) (phase : McpLifecyclePhase) : Prop :=
  ∃ earlier op later, ops = earlier ++ op :: later ∧ Succeeds now format (after now format earlier) op phase

/-- The phase was entered with a success, by the validator's own record. -/
def Recorded (s : McpLifecycleState) (phase : McpLifecyclePhase) : Prop :=
  ∃ durationMs, .success phase durationMs ∈ s.phaseResults

section record

theorem step_phaseResults (s : McpLifecycleState) (op : LifecycleOperation) :
    (step now format s op).phaseResults = s.phaseResults ++ [(perform now format s op).1] := by
  cases op with
  | runPhase phase =>
    simp only [step, perform, runPhase]
    cases rejection phase s with
    | none => rfl
    | some refused => rfl
  | recordFailure error => rfl
  | recordTimeout phase waitedMs serverName context => rfl

theorem recorded_step_iff (s : McpLifecycleState) (op : LifecycleOperation)
    (phase : McpLifecyclePhase) :
    Recorded (step now format s op) phase ↔ Recorded s phase ∨ Succeeds now format s op phase := by
  simp only [Recorded, Succeeds, step_phaseResults, List.mem_append, List.mem_singleton]
  constructor
  · rintro ⟨durationMs, hmem | heq⟩
    · exact Or.inl ⟨durationMs, hmem⟩
    · exact Or.inr ⟨durationMs, heq.symm⟩
  · rintro (⟨durationMs, hmem⟩ | ⟨durationMs, heq⟩)
    · exact ⟨durationMs, Or.inl hmem⟩
    · exact ⟨durationMs, Or.inr heq.symm⟩

/-- The record of a new validator is its history. -/
theorem recorded_iff (ops : List LifecycleOperation) (phase : McpLifecyclePhase) :
    Recorded (after now format ops) phase ↔ HasEntered now format ops phase := by
  induction ops using List.reverseRecOn with
  | nil =>
    constructor
    · rintro ⟨durationMs, hmem⟩
      cases hmem
    · rintro ⟨earlier, op, later, h, -⟩
      simp at h
  | append_singleton ops op ih =>
    rw [after_snoc, recorded_step_iff, ih]
    constructor
    · rintro (⟨earlier, op', later, rfl, hop⟩ | hop)
      · exact ⟨earlier, op', later ++ [op], by simp, hop⟩
      · exact ⟨ops, op, [], rfl, hop⟩
    · rintro ⟨earlier, op', later, hsplit, hop⟩
      obtain ⟨rfl, rfl, rfl⟩ | ⟨rest, rfl, rfl⟩ := split_snoc hsplit
      · exact Or.inr hop
      · exact Or.inl ⟨earlier, op', rest, rfl, hop⟩

theorem succeeds_iff (s : McpLifecycleState) (op : LifecycleOperation)
    (phase : McpLifecyclePhase) :
    Succeeds now format s op phase ↔ entered s op = some phase := by
  cases op with
  | runPhase p =>
    simp only [Succeeds, perform, runPhase, entered]
    cases rejection p s with
    | none => simp [enter]
    | some refused => simp [reject, recordFailure, surface]
  | recordFailure error => simp [Succeeds, perform, recordFailure, surface, entered]
  | recordTimeout p waitedMs serverName context =>
    simp [Succeeds, perform, recordTimeout, surface, entered]

end record

section startup

/-- The two phases `ready` rests on are on record. -/
def Started (s : McpLifecycleState) : Prop :=
  Recorded s .initializeHandshake ∧ Recorded s .toolDiscovery

/-- A machine is as far along as its phase says: the record holds every phase of the startup path
before it. -/
structure OnPath (s : McpLifecycleState) : Prop where
  handshake : s.currentPhase = some .initializeHandshake → Recorded s .initializeHandshake
  discovery : Recorded s .toolDiscovery → Recorded s .initializeHandshake
  started : ∀ phase ∈ [McpLifecyclePhase.toolDiscovery, .resourceDiscovery, .ready, .invocation],
    s.currentPhase = some phase → Started s

/-- The machine resumes after an error only when the tools have been discovered. -/
def ResumesStarted (s : McpLifecycleState) (op : LifecycleOperation) : Prop :=
  Resumes s op → Recorded s .toolDiscovery

/-- From where the phases behind the handshake can be entered. -/
theorem before_of_valid {first second : McpLifecyclePhase}
    (hvalid : validatePhaseTransition first second = true) :
    (second = .toolDiscovery → first = .initializeHandshake) ∧
    (second ∈ [McpLifecyclePhase.resourceDiscovery, .ready, .invocation] →
      first ∈ [McpLifecyclePhase.toolDiscovery, .resourceDiscovery, .ready, .invocation] ∨
        (first = .errorSurfacing ∧ second = .ready)) := by
  revert hvalid
  cases first <;> cases second <;> decide

/-- What is entered from a machine on the path that is not a wild resumption. -/
theorem started_of_entered {s : McpLifecycleState} {op : LifecycleOperation}
    {phase : McpLifecyclePhase} (hpath : OnPath s) (hresume : ResumesStarted s op)
    (hentered : entered s op = some phase) :
    (phase = .toolDiscovery → Recorded s .initializeHandshake) ∧
    (phase ∈ [McpLifecyclePhase.resourceDiscovery, .ready, .invocation] → Started s) := by
  cases hcurrent : s.currentPhase with
  | none =>
    -- a new machine enters nothing but `config_load`
    cases op with
    | runPhase p =>
      simp only [entered, rejection, hcurrent] at hentered
      by_cases hp : p = .configLoad
      · subst hp
        obtain rfl := Option.some.inj hentered
        simp
      · simp [hp] at hentered
    | recordFailure error => cases hentered
    | recordTimeout p waitedMs serverName context => cases hentered
  | some current =>
    obtain ⟨rfl, hcan, hvalid⟩ := (entered_iff hcurrent op phase).mp hentered
    obtain ⟨htools, hlater⟩ := before_of_valid hvalid
    refine ⟨?_, ?_⟩
    · intro h
      exact hpath.handshake (by rw [hcurrent, htools h])
    · intro h
      obtain hfirst | ⟨rfl, rfl⟩ := hlater h
      · exact hpath.started current hfirst hcurrent
      · have hlast : canResumeAfterError s = true := by simpa using hcan
        have hdone := hresume ⟨rfl, hcurrent, (canResumeAfterError_iff s).mp hlast⟩
        exact ⟨hpath.discovery hdone, hdone⟩

theorem step_onPath (s : McpLifecycleState) (op : LifecycleOperation) (hpath : OnPath s)
    (hresume : ResumesStarted s op) : OnPath (step now format s op) := by
  have hkeep (phase : McpLifecyclePhase) (h : Recorded s phase) :
      Recorded (step now format s op) phase := (recorded_step_iff now format s op phase).mpr (Or.inl h)
  have hnew (phase : McpLifecyclePhase) (h : entered s op = some phase) :
      Recorded (step now format s op) phase :=
    (recorded_step_iff now format s op phase).mpr (Or.inr ((succeeds_iff now format s op phase).mpr h))
  have hphase (phase : McpLifecyclePhase) (hne : phase ≠ .errorSurfacing)
      (h : (step now format s op).currentPhase = some phase) : entered s op = some phase := by
    rw [step_currentPhase] at h
    cases hentered : entered s op with
    | none =>
      rw [hentered] at h
      exact absurd (Option.some.inj h).symm hne
    | some entered =>
      rw [hentered] at h
      rw [← Option.some.inj h]
      rfl
  constructor
  · intro h
    exact hnew _ (hphase _ (by decide) h)
  · intro h
    obtain hold | hop := (recorded_step_iff now format s op _).mp h
    · exact hkeep _ (hpath.discovery hold)
    · have hentered := (succeeds_iff now format s op _).mp hop
      exact hkeep _ ((started_of_entered hpath hresume hentered).1 rfl)
  · intro phase hmem h
    have hentered := hphase phase (by rintro rfl; simp at hmem) h
    have hfacts := started_of_entered hpath hresume hentered
    by_cases htools : phase = .toolDiscovery
    · subst htools
      exact ⟨hkeep _ (hfacts.1 rfl), hnew _ hentered⟩
    · have hlater : phase ∈ [McpLifecyclePhase.resourceDiscovery, .ready, .invocation] := by
        simpa [htools] using hmem
      obtain ⟨hhand, htool⟩ := hfacts.2 hlater
      exact ⟨hkeep _ hhand, hkeep _ htool⟩

theorem new_onPath : OnPath new := by
  constructor
  · intro h
    cases h
  · rintro ⟨durationMs, hmem⟩
    cases hmem
  · intro phase hmem h
    cases h

/-- In a run `ready` is entered only after the handshake and the tool discovery if and only if
the machine never resumes after an error before the tools have been discovered. -/
theorem ready_after_startup_iff (ops : List LifecycleOperation) :
    (∀ earlier op later, ops = earlier ++ op :: later →
      Succeeds now format (after now format earlier) op .ready →
        HasEntered now format earlier .initializeHandshake ∧
          HasEntered now format earlier .toolDiscovery) ↔
    Meets (step now format) ResumesStarted new ops := by
  constructor
  · rintro h earlier op later hsplit ⟨rfl, herror, hlast⟩
    have hready : entered (after now format earlier) (.runPhase .ready) = some .ready := by
      apply (entered_iff herror _ _).mpr
      refine ⟨rfl, ?_, by decide⟩
      rintro ⟨-, -, hcan⟩
      rw [(canResumeAfterError_iff _).mpr hlast] at hcan
      cases hcan
    have hboth := h earlier _ later hsplit ((succeeds_iff now format _ _ _).mpr hready)
    exact (recorded_iff now format earlier _).mpr hboth.2
  · intro h earlier op later hsplit hready
    have hpath : OnPath (after now format earlier) := by
      apply runAll_meeting (step now format) (C := ResumesStarted) OnPath new_onPath
      · intro s o hs ho
        exact step_onPath now format s o hs ho
      · rw [hsplit] at h
        exact h.initial (step now format)
    have hentered := (succeeds_iff now format _ _ _).mp hready
    have hstarted := (started_of_entered hpath (h earlier op later hsplit) hentered).2 (by simp)
    exact ⟨(recorded_iff now format earlier _).mp hstarted.1,
      (recorded_iff now format earlier _).mp hstarted.2⟩

/-- A time-out that is waited for in place of the startup makes the machine ready. -/
theorem ready_after_timeout :
    ¬ ∀ (now : Nat → Int) (format : NumberFormat) (ops earlier : List LifecycleOperation)
      (op : LifecycleOperation) (later : List LifecycleOperation), ops = earlier ++ op :: later →
      Succeeds now format (after now format earlier) op .ready →
        HasEntered now format earlier .initializeHandshake ∧
          HasEntered now format earlier .toolDiscovery := by
  intro h
  have hboth := h (fun _ => 0) wholeNumbers
    ([.recordTimeout .spawnConnect (.ofInt 250) none none] ++ [.runPhase .ready])
    [.recordTimeout .spawnConnect (.ofInt 250) none none] (.runPhase .ready) [] rfl ⟨0, rfl⟩
  obtain ⟨durationMs, hmem⟩ := (recorded_iff _ _ _ _).mpr hboth.1
  simp [after, runAll, step, perform, recordTimeout, surface, pushResult] at hmem
  cases hmem

end startup

end McpLifecycleState

end Solarcido.Mcp.Lifecycle
