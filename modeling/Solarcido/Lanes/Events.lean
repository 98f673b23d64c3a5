import Mathlib.Algebra.Order.Ring.Rat
import Solarcido.Js.Value
import Solarcido.Lib.Succession

namespace Solarcido.Lanes

open Text Succession

section types

inductive LaneEventName where
  | laneStarted
  | laneReady
  | lanePromptMisdelivery
  | laneBlocked
  | laneRed
  | laneGreen
  | laneCommitCreated
  | lanePrOpened
  | laneMergeReady
  | laneFinished
  | laneFailed
  | laneReconciled
  | laneMerged
  | laneSuperseded
  | laneClosed
  | branchStaleAgainstMain
  | branchWorkspaceMismatch
  | shipPrepared
  | shipCommitsSelected
  | shipMerged
  | shipPushedMain
  deriving DecidableEq

inductive LaneEventStatus where
  | running
  | ready
  | blocked
  | red
  | green
  | completed
  | failed
  | reconciled
  | merged
  | superseded
  | closed
  deriving DecidableEq

inductive LaneFailureClass where
  | promptDelivery
  | trustGate
  | branchDivergence
  | compile
  | test
  | pluginStartup
  | mcpStartup
  | mcpHandshake
  | gatewayRouting
  | toolRuntime
  | workspaceMismatch
  | infra
  deriving DecidableEq

/-- What of an event's metadata is read here, and all the rest of it. -/
structure LaneEventMetadata (R : Type) where
  seq : ℚ
  eventFingerprint : Option JsString
  rest : R

structure LaneEvent (R : Type) where
  event : LaneEventName
  status : LaneEventStatus
  emittedAt : JsString
  failureClass : Option LaneFailureClass
  detail : Option JsString
  data : Option Json
  metadata : LaneEventMetadata R

end types

inductive EventTerminality where
  | terminal
  | advisory
  | uncertainty
  deriving DecidableEq

def TERMINAL_EVENTS : List LaneEventName :=
  [.laneFinished, .laneFailed, .laneSuperseded, .laneClosed, .laneMerged]

def classifyEventTerminality (event : LaneEventName) : EventTerminality :=
  if TERMINAL_EVENTS.contains event then .terminal
  else if event = .laneReconciled then .uncertainty
  else .advisory

section reconciling

variable {R : Type} (numberText : ℚ → JsString)

def eventsMateriallyDiffer (a b : LaneEvent R) : Bool :=
  a.event ≠ b.event || a.status ≠ b.status || a.failureClass ≠ b.failureClass ||
    a.data.map (Json.stringify numberText) ≠ b.data.map (Json.stringify numberText)

/-- Both events have a fingerprint, and it is the same. -/
def sameFingerprint (a b : LaneEvent R) : Bool :=
  match a.metadata.eventFingerprint, b.metadata.eventFingerprint with
  | some fp1, some fp2 => fp1 = fp2
  | _, _ => false

/-- What the loop changes. -/
structure Burst (R : Type) where
  lastTerminal : Option (LaneEvent R)
  postTerminalUncertainty : Bool
  reconciledEvents : List (LaneEvent R)

def Burst.empty : Burst R := ⟨none, false, []⟩

def Burst.take (burst : Burst R) (ev : LaneEvent R) : Burst R :=
  match classifyEventTerminality ev.event with
  | .terminal =>
    match burst.lastTerminal with
    | some last =>
      if sameFingerprint ev last then burst
      else if eventsMateriallyDiffer numberText last ev then { burst with lastTerminal := some ev }
      else burst
    | none => { burst with lastTerminal := some ev }
  | .uncertainty =>
    { burst with
      postTerminalUncertainty := burst.postTerminalUncertainty || burst.lastTerminal.isSome
      reconciledEvents := burst.reconciledEvents ++ [ev] }
  | .advisory => { burst with reconciledEvents := burst.reconciledEvents ++ [ev] }

def uncertainTerminal (last : LaneEvent R) : LaneEvent R :=
  { last with
    event := .laneReconciled
    status := .reconciled
    detail := some (js "Session terminal state uncertain: transport died after terminal event") }

def reconcileTerminalEvents (events : List (LaneEvent R)) :
    Option (LaneEvent R × List (LaneEvent R)) :=
  if events.isEmpty then none
  else
    let sorted := inOrder (fun ev : LaneEvent R => ev.metadata.seq) events
    let burst := sorted.foldl (Burst.take numberText) .empty
    burst.lastTerminal.map fun last =>
      (if burst.postTerminalUncertainty then uncertainTerminal last else last,
        burst.reconciledEvents)

end reconciling

end Solarcido.Lanes
