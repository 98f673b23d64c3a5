import Solarcido.Js.Value
import Solarcido.Lib.InsertionMap
import Solarcido.Lib.Serial

namespace Solarcido.Mcp.Lifecycle

open Text

inductive McpLifecyclePhase where
  | configLoad
  | serverRegistration
  | spawnConnect
  | initializeHandshake
  | toolDiscovery
  | resourceDiscovery
  | ready
  | invocation
  | errorSurfacing
  | shutdown
  | cleanup
  deriving DecidableEq

def McpLifecyclePhase.text : McpLifecyclePhase → JsString
  | .configLoad => js "config_load"
  | .serverRegistration => js "server_registration"
  | .spawnConnect => js "spawn_connect"
  | .initializeHandshake => js "initialize_handshake"
  | .toolDiscovery => js "tool_discovery"
  | .resourceDiscovery => js "resource_discovery"
  | .ready => js "ready"
  | .invocation => js "invocation"
  | .errorSurfacing => js "error_surfacing"
  | .shutdown => js "shutdown"
  | .cleanup => js "cleanup"

/-- A `Record<string, string>`. -/
abbrev Context := InsertionMap JsString JsString

/-- A structured, surfaceable lifecycle error. -/
structure McpErrorSurface where
  phase : McpLifecyclePhase
  serverName : Option JsString
  message : JsString
  context : Context
  recoverable : Bool
  timestamp : Int

/-- Outcome of running a phase: success, structured failure, or timeout. -/
inductive McpPhaseResult where
  | success (phase : McpLifecyclePhase) (durationMs : Int)
  | failure (phase : McpLifecyclePhase) (error : McpErrorSurface)
  | timeout (phase : McpLifecyclePhase) (waitedMs : JsNumber) (error : McpErrorSurface)

namespace McpPhaseResult

/-- The error of a failure or a timeout. -/
def error : McpPhaseResult → Option McpErrorSurface
  | .success _ _ => none
  | .failure _ e => some e
  | .timeout _ _ e => some e

end McpPhaseResult

section transitions

open McpLifecyclePhase

def explicitTransitions : List (McpLifecyclePhase × McpLifecyclePhase) :=
  [(configLoad, serverRegistration),
    (serverRegistration, spawnConnect),
    (spawnConnect, initializeHandshake),
    (initializeHandshake, toolDiscovery),
    (toolDiscovery, resourceDiscovery),
    (toolDiscovery, ready),
    (resourceDiscovery, ready),
    (ready, invocation),
    (invocation, ready),
    (errorSurfacing, ready),
    (errorSurfacing, shutdown),
    (shutdown, cleanup)]

/-- Any phase that is not terminal may fall into `shutdown` and `error_surfacing`. -/
def validatePhaseTransition (first second : McpLifecyclePhase) : Bool :=
  if (first, second) ∈ explicitTransitions then true
  else if second = shutdown then first ≠ cleanup
  else if second = errorSurfacing then first ≠ cleanup && first ≠ shutdown
  else false

end transitions

/-- Accumulated lifecycle state, and how often the time has been asked for. -/
structure McpLifecycleState where
  currentPhase : Option McpLifecyclePhase
  phaseErrors : InsertionMap McpLifecyclePhase (List McpErrorSurface)
  phaseTimestamps : InsertionMap McpLifecyclePhase Int
  phaseResults : List McpPhaseResult
  readings : Nat

/-- What a caller asks of a validator. -/
inductive LifecycleOperation where
  | runPhase (phase : McpLifecyclePhase)
  | recordFailure (error : McpErrorSurface)
  | recordTimeout (phase : McpLifecyclePhase) (waitedMs : JsNumber)
      (serverName : Option JsString) (context : Option Context)

namespace McpLifecycleState

-- `Date.now()` at each reading, and how the engine writes a number.
variable (now : Nat → Int) (format : NumberFormat)

def new : McpLifecycleState := ⟨none, .empty, .empty, [], 0⟩

def nowSecs (s : McpLifecycleState) : Int := now s.readings / 1000

def tick (s : McpLifecycleState) : McpLifecycleState := { s with readings := s.readings + 1 }

def errorsForPhase (phase : McpLifecyclePhase) (s : McpLifecycleState) : List McpErrorSurface :=
  (s.phaseErrors.get phase).getD []

def canResumeAfterError (s : McpLifecycleState) : Bool :=
  match s.phaseResults.getLast?.bind McpPhaseResult.error with
  | some error => error.recoverable
  | none => false

def recordPhase (phase : McpLifecyclePhase) (s : McpLifecycleState) : McpLifecycleState :=
  { s with
    currentPhase := some phase
    phaseTimestamps := s.phaseTimestamps.set phase (nowSecs now s)
    readings := s.readings + 1 }

def recordError (error : McpErrorSurface) (s : McpLifecycleState) : McpLifecycleState :=
  { s with phaseErrors := s.phaseErrors.set error.phase (errorsForPhase error.phase s ++ [error]) }

def pushResult (result : McpPhaseResult) (s : McpLifecycleState) : McpLifecycleState :=
  { s with phaseResults := s.phaseResults ++ [result] }

/-- Record an error and move the machine into `error_surfacing`. -/
def surface (error : McpErrorSurface) (result : McpPhaseResult) (s : McpLifecycleState) :
    McpPhaseResult × McpLifecycleState :=
  (result, pushResult result (recordPhase now .errorSurfacing (recordError error s)))

def recordFailure (error : McpErrorSurface) (s : McpLifecycleState) :
    McpPhaseResult × McpLifecycleState := surface now error (.failure error.phase error) s

def recordTimeout (phase : McpLifecyclePhase) (waitedMs : JsNumber) (serverName : Option JsString)
    (context : Option Context) (s : McpLifecycleState) : McpPhaseResult × McpLifecycleState :=
  let error : McpErrorSurface := {
    phase := phase
    serverName := serverName
    message := js "MCP lifecycle phase " ++ phase.text ++ js " timed out after " ++
      format.decimal waitedMs ++ js " ms"
    context := (context.getD .empty).set (js "waited_ms") (format.decimal waitedMs)
    recoverable := true
    timestamp := nowSecs now s }
  surface now error (.timeout phase waitedMs error) (tick s)

/-- `recordFailure(makeErrorSurface(phase, message, { context }))`: not recoverable. -/
def reject (phase : McpLifecyclePhase) (message : JsString) (context : Context)
    (s : McpLifecycleState) : McpPhaseResult × McpLifecycleState :=
  recordFailure now ⟨phase, none, message, context, false, nowSecs now s⟩ (tick s)

def fromTo (first second : McpLifecyclePhase) : Context :=
  (InsertionMap.empty.set (js "from") first.text).set (js "to") second.text

/-- Why a phase may not be entered now: the message and the context of the failure. -/
def rejection (phase : McpLifecyclePhase) (s : McpLifecycleState) : Option (JsString × Context) :=
  match s.currentPhase with
  | some current =>
    if current = .errorSurfacing ∧ phase = .ready ∧ !canResumeAfterError s then
      some (js "cannot return to ready after a non-recoverable MCP lifecycle failure",
        fromTo current phase)
    else if !validatePhaseTransition current phase then
      some (js "invalid MCP lifecycle transition from " ++ current.text ++ js " to " ++ phase.text,
        fromTo current phase)
    else none
  | none =>
    if phase ≠ .configLoad then
      some (js "invalid initial MCP lifecycle phase " ++ phase.text,
        InsertionMap.empty.set (js "phase") phase.text)
    else none

/-- Enter a phase, timed from the reading the call started with. -/
def enter (phase : McpLifecyclePhase) (started : Int) (s : McpLifecycleState) :
    McpPhaseResult × McpLifecycleState :=
  let entered := recordPhase now phase s
  let result : McpPhaseResult := .success phase (now entered.readings - started)
  (result, pushResult result (tick entered))

/-- Attempt to enter a phase. -/
def runPhase (phase : McpLifecyclePhase) (s : McpLifecycleState) :
    McpPhaseResult × McpLifecycleState :=
  match rejection phase s with
  | some (message, context) => reject now phase message context (tick s)
  | none => enter now phase (now s.readings) (tick s)

def perform (s : McpLifecycleState) : LifecycleOperation → McpPhaseResult × McpLifecycleState
  | .runPhase phase => runPhase now phase s
  | .recordFailure error => recordFailure now error s
  | .recordTimeout phase waitedMs serverName context =>
    recordTimeout now format phase waitedMs serverName context s

def step (s : McpLifecycleState) (op : LifecycleOperation) : McpLifecycleState :=
  (perform now format s op).2

/-- A validator made new, after a sequence of operations. -/
def after (ops : List LifecycleOperation) : McpLifecycleState :=
  Serial.runAll (step now format) new ops

section steps

/-- The phase an operation enters without an error. -/
def entered (s : McpLifecycleState) : LifecycleOperation → Option McpLifecyclePhase
  | .runPhase phase => if (rejection phase s).isNone then some phase else none
  | _ => none

/-- Every operation sets the phase: the one it enters, or else `error_surfacing`. -/
theorem step_currentPhase (s : McpLifecycleState) (op : LifecycleOperation) :
    (step now format s op).currentPhase = some ((entered s op).getD .errorSurfacing) := by
  cases op with
  | runPhase phase =>
    simp only [step, perform, runPhase, entered]
    cases rejection phase s with
    | none => rfl
    | some refused => rfl
  | recordFailure error => rfl
  | recordTimeout phase waitedMs serverName context => rfl

theorem rejection_of_phase {s : McpLifecycleState} {current : McpLifecyclePhase}
    (h : s.currentPhase = some current) (phase : McpLifecyclePhase) :
    rejection phase s = none ↔
      ¬ (current = .errorSurfacing ∧ phase = .ready ∧ canResumeAfterError s = false) ∧
        validatePhaseTransition current phase = true := by
  simp only [rejection, h]
  by_cases hresume : current = .errorSurfacing ∧ phase = .ready ∧ canResumeAfterError s = false
  · rw [if_pos (by simpa using hresume)]
    simp [hresume]
  · rw [if_neg (by simpa using hresume)]
    cases validatePhaseTransition current phase with
    | true => simpa using hresume
    | false => simp

/-- What an operation enters without an error from a phase. -/
theorem entered_iff {s : McpLifecycleState} {current : McpLifecyclePhase}
    (h : s.currentPhase = some current) (op : LifecycleOperation) (next : McpLifecyclePhase) :
    entered s op = some next ↔ op = .runPhase next ∧
      ¬ (current = .errorSurfacing ∧ next = .ready ∧ canResumeAfterError s = false) ∧
        validatePhaseTransition current next = true := by
  cases op with
  | runPhase phase =>
    simp only [entered]
    rw [LifecycleOperation.runPhase.injEq]
    constructor
    · intro hentered
      split at hentered
      · next hnone =>
        obtain rfl := Option.some.inj hentered
        exact ⟨rfl, (rejection_of_phase h phase).mp (Option.isNone_iff_eq_none.mp hnone)⟩
      · cases hentered
    · rintro ⟨rfl, hphase⟩
      rw [(rejection_of_phase h phase).mpr hphase]
      rfl
  | recordFailure error => simp [entered]
  | recordTimeout phase waitedMs serverName context => simp [entered]

theorem after_snoc (ops : List LifecycleOperation) (op : LifecycleOperation) :
    after now format (ops ++ [op]) = step now format (after now format ops) op :=
  Serial.runAll_snoc _ _ _ _

end steps

end McpLifecycleState

section phases

open Serial

namespace McpLifecycleState

variable (now : Nat → Int) (format : NumberFormat)

section transitions

/-- A phase that may not fall into `error_surfacing`. -/
def isLast (phase : McpLifecyclePhase) : Bool := phase = .shutdown || phase = .cleanup

theorem errorSurfacing_valid_iff (first : McpLifecyclePhase) :
    validatePhaseTransition first .errorSurfacing = true ↔ isLast first = false := by
  cases first <;> decide

/-- In `shutdown` and in `cleanup` nothing is asked for but a valid next phase: no failure and no
timeout is recorded there. -/
def LeavesLast (s : McpLifecycleState) (op : LifecycleOperation) : Prop :=
  ∀ phase, s.currentPhase = some phase → isLast phase = true →
    ∃ next, op = .runPhase next ∧ validatePhaseTransition phase next = true

theorem step_valid_iff (s : McpLifecycleState) (op : LifecycleOperation) :
    (∀ first second, s.currentPhase = some first →
      (step now format s op).currentPhase = some second →
        validatePhaseTransition first second = true) ↔ LeavesLast s op := by
  rw [step_currentPhase]
  constructor
  · intro h first hfirst hlast
    cases hentered : entered s op with
    | some next =>
      obtain ⟨hop, -, hvalid⟩ := (entered_iff hfirst op next).mp hentered
      exact ⟨next, hop, hvalid⟩
    | none =>
      have hvalid := h first .errorSurfacing hfirst (by rw [hentered]; rfl)
      rw [errorSurfacing_valid_iff, hlast] at hvalid
      cases hvalid
  · intro h first second hfirst hsecond
    cases hentered : entered s op with
    | some next =>
      rw [hentered] at hsecond
      obtain rfl := Option.some.inj hsecond
      exact ((entered_iff hfirst op next).mp hentered).2.2
    | none =>
      rw [hentered] at hsecond
      obtain rfl := Option.some.inj hsecond
      rw [Option.getD_none, errorSurfacing_valid_iff, ← Bool.not_eq_true]
      intro hlast
      obtain ⟨next, hop, hvalid⟩ := h first hfirst hlast
      have hnot : first ≠ .errorSurfacing := by
        rintro rfl
        cases hlast
      have hsome := (entered_iff hfirst op next).mpr ⟨hop, fun hc => hnot hc.1, hvalid⟩
      rw [hentered] at hsome
      cases hsome

/-- In a run every pair of consecutive phases is a valid transition if and only if no failure and
no timeout is recorded, and no other than a valid phase is asked for, in `shutdown` and `cleanup`. -/
theorem phases_valid_iff (ops : List LifecycleOperation) :
    (∀ earlier op later first second, ops = earlier ++ op :: later →
      (after now format earlier).currentPhase = some first →
      (after now format (earlier ++ [op])).currentPhase = some second →
        validatePhaseTransition first second = true) ↔
    Meets (step now format) LeavesLast new ops := by
  constructor
  · intro h earlier op later hsplit
    apply (step_valid_iff now format _ op).mp
    intro first second hfirst hsecond
    exact h earlier op later first second hsplit hfirst (by rw [after_snoc]; exact hsecond)
  · intro h earlier op later first second hsplit hfirst hsecond
    rw [after_snoc] at hsecond
    exact (step_valid_iff now format _ op).mpr (h earlier op later hsplit) first second hfirst
      hsecond

/-- A failure recorded in `cleanup` moves the machine out of it. -/
theorem cleanup_left_by_failure :
    ¬ ∀ (now : Nat → Int) (format : NumberFormat) (ops earlier : List LifecycleOperation)
      (op : LifecycleOperation) (later : List LifecycleOperation) (first second : McpLifecyclePhase),
      ops = earlier ++ op :: later → (after now format earlier).currentPhase = some first →
      (after now format (earlier ++ [op])).currentPhase = some second →
        validatePhaseTransition first second = true := by
  intro h
  have hvalid := h (fun _ => 0) wholeNumbers
    ([.runPhase .configLoad, .runPhase .shutdown, .runPhase .cleanup] ++
      [.recordFailure ⟨.cleanup, none, js "leak", .empty, true, 0⟩])
    [.runPhase .configLoad, .runPhase .shutdown, .runPhase .cleanup] _ [] .cleanup .errorSurfacing
    rfl rfl rfl
  revert hvalid
  decide

end transitions

section resumption

/-- The last result is a failure or a timeout that is marked recoverable. -/
def LastRecoverable (s : McpLifecycleState) : Prop :=
  ∃ result error, s.phaseResults.getLast? = some result ∧ result.error = some error ∧
    error.recoverable = true

theorem canResumeAfterError_iff (s : McpLifecycleState) :
    canResumeAfterError s = true ↔ LastRecoverable s := by
  rw [canResumeAfterError, LastRecoverable]
  cases hlast : s.phaseResults.getLast? with
  | none => simp
  | some result =>
    cases herror : result.error with
    | none => simp [herror]
    | some error => simp [herror]

/-- The phases a machine can be in after an error, as long as it does not get ready again. -/
def isClosed (phase : McpLifecyclePhase) : Bool := phase = .errorSurfacing || isLast phase

def ClosedAt (s : McpLifecycleState) : Prop :=
  ∃ phase, s.currentPhase = some phase ∧ isClosed phase = true

/-- The machine is asked to get ready after an error when the last one is recoverable. -/
def Resumes (s : McpLifecycleState) (op : LifecycleOperation) : Prop :=
  op = .runPhase .ready ∧ s.currentPhase = some .errorSurfacing ∧ LastRecoverable s

theorem valid_of_closed {first second : McpLifecyclePhase} (hfirst : isClosed first = true)
    (hvalid : validatePhaseTransition first second = true) :
    isClosed second = true ∨ (first = .errorSurfacing ∧ second = .ready) := by
  revert hfirst hvalid
  cases first <;> cases second <;> decide

/-- From a phase after an error one operation leads to another such phase, unless it resumes. -/
theorem step_closed_iff (s : McpLifecycleState) (op : LifecycleOperation) (h : ClosedAt s) :
    ClosedAt (step now format s op) ↔ ¬ Resumes s op := by
  obtain ⟨first, hfirst, hclosed⟩ := h
  rw [ClosedAt, step_currentPhase]
  constructor
  · rintro ⟨second, hsecond, hclosed'⟩ ⟨rfl, herror, hlast⟩
    have hready : entered s (.runPhase .ready) = some .ready := by
      apply (entered_iff herror _ _).mpr
      rw [(canResumeAfterError_iff s).mpr hlast]
      exact ⟨rfl, by simp, by decide⟩
    rw [hready] at hsecond
    obtain rfl := Option.some.inj hsecond
    cases hclosed'
  · intro hresumes
    refine ⟨_, rfl, ?_⟩
    cases hentered : entered s op with
    | none => rfl
    | some second =>
      obtain ⟨rfl, hresume, hvalid⟩ := (entered_iff hfirst op second).mp hentered
      obtain hclosed' | ⟨rfl, rfl⟩ := valid_of_closed hclosed hvalid
      · exact hclosed'
      · -- the machine may get ready, so its last error was recoverable
        have hcan : canResumeAfterError s = true := by simpa using hresume
        exact absurd ⟨rfl, hfirst, (canResumeAfterError_iff s).mp hcan⟩ hresumes

theorem step_closed_or_ready (s : McpLifecycleState) (op : LifecycleOperation) (h : ClosedAt s) :
    ClosedAt (step now format s op) ∨ (step now format s op).currentPhase = some .ready := by
  by_cases hresumes : Resumes s op
  · obtain ⟨rfl, herror, hlast⟩ := hresumes
    right
    rw [step_currentPhase, (entered_iff herror _ .ready).mpr]
    · rfl
    · rw [(canResumeAfterError_iff s).mpr hlast]
      exact ⟨rfl, by simp, by decide⟩
  · exact Or.inl ((step_closed_iff now format s op h).mpr hresumes)

/-- The operation records a failure that is not recoverable. -/
def FailsForGood (s : McpLifecycleState) (op : LifecycleOperation) : Prop :=
  ∃ phase error, (perform now format s op).1 = .failure phase error ∧ error.recoverable = false

theorem closed_of_failure (s : McpLifecycleState) (op : LifecycleOperation)
    (h : FailsForGood now format s op) : ClosedAt (step now format s op) := by
  obtain ⟨phase, error, hresult, -⟩ := h
  rw [ClosedAt, step_currentPhase]
  refine ⟨_, rfl, ?_⟩
  cases hentered : entered s op with
  | none => rfl
  | some second =>
    -- what is entered gives a success
    cases op with
    | runPhase next =>
      simp only [entered] at hentered
      split at hentered
      · next hnone =>
        rw [Option.isNone_iff_eq_none] at hnone
        simp only [perform, runPhase, hnone, enter] at hresult
        cases hresult
      · cases hentered
    | recordFailure e => cases hentered
    | recordTimeout p waitedMs serverName context => cases hentered

theorem runAll_closed {s : McpLifecycleState} (h : ClosedAt s) (ops : List LifecycleOperation)
    (hready : ∀ first second, ops = first ++ second →
      (runAll (step now format) s first).currentPhase ≠ some .ready) :
    ClosedAt (runAll (step now format) s ops) := by
  induction ops using List.reverseRecOn with
  | nil => exact h
  | append_singleton ops op ih =>
    have hops := ih fun first second hsplit => hready first (second ++ [op]) (by
      rw [hsplit, List.append_assoc])
    have hlast := hready (ops ++ [op]) [] (List.append_nil _).symm
    rw [runAll_snoc] at hlast ⊢
    exact (step_closed_or_ready now format _ op hops).resolve_right hlast

/-- After a failure that is not recoverable the machine never gets ready again if and only if it
is never asked to while its last error is a recoverable one. -/
theorem ready_never_again_iff (earlier later : List LifecycleOperation) (op : LifecycleOperation)
    (hfailure : FailsForGood now format (after now format earlier) op) :
    (∀ first second, later = first ++ second →
      (after now format (earlier ++ [op] ++ first)).currentPhase ≠ some .ready) ↔
    Meets (step now format) (fun s o => ¬ Resumes s o) (after now format (earlier ++ [op])) later := by
  have hclosed : ClosedAt (after now format (earlier ++ [op])) := by
    rw [after_snoc]
    exact closed_of_failure now format _ op hfailure
  have hsplit (first : List LifecycleOperation) : after now format (earlier ++ [op] ++ first) =
      runAll (step now format) (after now format (earlier ++ [op])) first := runAll_append _ _ _ _
  have hany : Meets (step now format) (fun _ _ => True) (after now format (earlier ++ [op])) later :=
    fun _ _ _ _ => trivial
  have hiff := meets_iff_kept (step now format) (C := fun s o => ¬ Resumes s o) ClosedAt hclosed
    (fun s o h _ => step_closed_iff now format s o h) hany
  rw [← hiff]
  simp only [hsplit]
  constructor
  · intro hready first second hlater
    apply runAll_closed now format hclosed
    intro first' second' hfirst
    exact hready first' (second' ++ second) (by rw [hlater, hfirst, List.append_assoc])
  · intro hkept first second hlater hready
    obtain ⟨phase, hphase, hphaseClosed⟩ := hkept first second hlater
    rw [hphase] at hready
    obtain rfl := Option.some.inj hready
    cases hphaseClosed

/-- After a corrupted session the machine is shut down and cleaned up without getting ready. -/
theorem never_ready_after_corruption :
    (after (fun _ => 0) wholeNumbers
      ([.runPhase .configLoad] ++ [.recordFailure ⟨.invocation, none, js "corrupted", .empty, false, 0⟩]
        ++ [.runPhase .ready, .runPhase .shutdown, .runPhase .cleanup])).currentPhase ≠
      some .ready := by
  refine (ready_never_again_iff (fun _ => 0) wholeNumbers [.runPhase .configLoad]
    [.runPhase .ready, .runPhase .shutdown, .runPhase .cleanup] _ ⟨_, _, rfl, rfl⟩).mpr ?_ _ []
    (List.append_nil _).symm
  rintro before o rest hsplit ⟨rfl, -, result, error, hlast, herror, hrecoverable⟩
  -- the only call for `ready` comes right after the failure
  have hbefore : before = [] := by
    cases before with
    | nil => rfl
    | cons first before =>
      have hmem : LifecycleOperation.runPhase .ready ∈
          [LifecycleOperation.runPhase .shutdown, .runPhase .cleanup] := by
        rw [(List.cons.inj hsplit).2]
        simp
      simp at hmem
  subst hbefore
  obtain rfl := Option.some.inj hlast
  obtain rfl := Option.some.inj herror
  cases hrecoverable

/-- A recoverable failure recorded after one that is not lets the machine get ready again. -/
theorem ready_again_after_recoverable :
    ¬ ∀ (now : Nat → Int) (format : NumberFormat) (earlier later : List LifecycleOperation)
      (op : LifecycleOperation), FailsForGood now format (after now format earlier) op →
      ∀ first second, later = first ++ second →
        (after now format (earlier ++ [op] ++ first)).currentPhase ≠ some .ready := by
  intro h
  have hnot := h (fun _ => 0) wholeNumbers [.runPhase .configLoad]
    [.recordFailure ⟨.invocation, none, js "retryable", .empty, true, 0⟩, .runPhase .ready]
    (.recordFailure ⟨.invocation, none, js "corrupted", .empty, false, 0⟩) ⟨_, _, rfl, rfl⟩ _ []
    (List.append_nil _).symm
  exact hnot rfl

end resumption

end McpLifecycleState

end phases

end Solarcido.Mcp.Lifecycle
