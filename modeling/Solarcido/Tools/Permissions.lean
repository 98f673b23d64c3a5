import Solarcido.Js.RegExp
import Solarcido.Tools.World

namespace Solarcido.Tools

open Text RegExp ThrowingProgram

inductive PermissionMode where
  | readOnly
  | workspaceWrite
  | dangerFullAccess
  deriving DecidableEq

inductive SandboxMode where
  | readOnly
  | workspaceWrite
  deriving DecidableEq

inductive ApprovalPolicy where
  | never
  | onFailure
  | onRequest
  deriving DecidableEq

inductive CommandRisk where
  | low
  | risky
  deriving DecidableEq

def PermissionMode.rank : PermissionMode → Nat
  | .readOnly => 0
  | .workspaceWrite => 1
  | .dangerFullAccess => 2

def PermissionMode.name : PermissionMode → JsString
  | .readOnly => js "read-only"
  | .workspaceWrite => js "workspace-write"
  | .dangerFullAccess => js "danger-full-access"

/-- A sandbox mode is the permission mode of the same name. -/
def SandboxMode.permission : SandboxMode → PermissionMode
  | .readOnly => .readOnly
  | .workspaceWrite => .workspaceWrite

def ApprovalPolicy.name : ApprovalPolicy → JsString
  | .never => js "never"
  | .onFailure => js "on-failure"
  | .onRequest => js "on-request"

def permissionAllows (maxPermission requiredPermission : PermissionMode) : Bool :=
  requiredPermission.rank ≤ maxPermission.rank

theorem permissionAllows_readOnly (required : PermissionMode) :
    permissionAllows .readOnly required = true ↔ required = .readOnly := by
  cases required <;> decide

inductive PermissionDecision where
  | approved
  | refused (reason : JsString)
  deriving DecidableEq

def RISKY_COMMAND_PATTERNS : List Pattern :=
  [word (js "rm"),
    word (js "del"),
    word (js "remove-item"),
    word (js "rmdir"),
    twoWords (js "git") [js "push"],
    twoWords (js "git") [js "reset"],
    twoWords (js "git") [js "checkout"],
    twoWords (js "npm") [js "install", js "publish"],
    twoWords (js "npm.cmd") [js "install", js "publish"],
    twoWords (js "yarn") [js "add", js "remove", js "publish"],
    twoWords (js "pnpm") [js "add", js "remove", js "install", js "publish"],
    word (js "curl"),
    word (js "wget"),
    word (js "invoke-webrequest"),
    word (js "set-executionpolicy"),
    word (js "sudo")]

def classifyCommand (command : JsString) : CommandRisk :=
  if RISKY_COMMAND_PATTERNS.any (test · command) then .risky else .low

def decideApproval (policy : ApprovalPolicy) (risk : CommandRisk) (approvedByUser : Bool) :
    PermissionDecision :=
  if policy = .never ∨ policy = .onFailure ∨ risk = .low ∨ approvedByUser then .approved
  else .refused (js "Command requires approval.")

structure PermissionPolicy (ε : Type) where
  approvalPolicy : ApprovalPolicy
  sandbox : SandboxMode
  maxPermission : Option PermissionMode
  approveCommand : Option (JsString → Effect ε Bool)

/-- A permission enforcer is its policy. -/
abbrev PermissionEnforcer := PermissionPolicy

namespace PermissionEnforcer

variable {ε : Type}

/-- `{ ...this.policy, ...policy }`, where `policy` has every field but the prompt. -/
def withPolicy (self : PermissionEnforcer ε) (approvalPolicy : ApprovalPolicy)
    (sandbox : SandboxMode) (maxPermission : Option PermissionMode) : PermissionEnforcer ε :=
  { self with approvalPolicy, sandbox, maxPermission }

/-- The ceiling: `maxPermission ?? sandbox`. -/
def ceiling (self : PermissionEnforcer ε) : PermissionMode :=
  self.maxPermission.getD self.sandbox.permission

def decideTool (self : PermissionEnforcer ε) (toolPermission : PermissionMode)
    (toolName : JsString) : PermissionDecision :=
  if permissionAllows self.ceiling toolPermission then .approved
  else if self.ceiling = .readOnly ∧ toolPermission = .workspaceWrite then
    .refused (toolName ++ js " is disabled in read-only sandbox mode.")
  else
    .refused (toolName ++ js " requires " ++ toolPermission.name ++
      js " permission, but current permission is " ++ self.ceiling.name ++ js ".")

def decideCommand (self : PermissionEnforcer ε) (command : JsString) :
    Effect ε PermissionDecision := do
  let risk := classifyCommand command
  if self.approvalPolicy = .never ∨ self.approvalPolicy = .onFailure ∨ risk = .low then
    return .approved
  else
    let approvedByUser ← match self.approveCommand with
      | some approveCommand => approveCommand command
      | none => pure false
    return decideApproval self.approvalPolicy risk approvedByUser

theorem decideTool_approved_iff (self : PermissionEnforcer ε) (toolPermission : PermissionMode)
    (toolName : JsString) :
    self.decideTool toolPermission toolName = .approved ↔
      permissionAllows self.ceiling toolPermission = true := by
  rw [decideTool]
  split
  · simp_all
  · split <;> simp_all

end PermissionEnforcer

end Solarcido.Tools
