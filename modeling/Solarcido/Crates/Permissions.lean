import Solarcido.Crates.Text

namespace Solarcido.Crates

inductive PermissionMode where
  | readOnly
  | workspaceWrite
  | dangerFullAccess
  deriving DecidableEq

namespace PermissionMode

def asStr : PermissionMode → RustString
  | .readOnly => str "read-only"
  | .workspaceWrite => str "workspace-write"
  | .dangerFullAccess => str "danger-full-access"

def parse (value : RustString) : Except RustString PermissionMode :=
  if value = str "read-only" then .ok .readOnly
  else if value = str "workspace-write" then .ok .workspaceWrite
  else if value = str "danger-full-access" then .ok .dangerFullAccess
  else .error (str "invalid permission mode `" ++ value ++
    str "`; expected read-only, workspace-write, or danger-full-access")

/-- The order of the variants. -/
def rank : PermissionMode → Nat
  | .readOnly => 0
  | .workspaceWrite => 1
  | .dangerFullAccess => 2

instance : LE PermissionMode := ⟨fun a b => a.rank ≤ b.rank⟩

instance (a b : PermissionMode) : Decidable (a ≤ b) := inferInstanceAs (Decidable (a.rank ≤ b.rank))

theorem le_readOnly {mode : PermissionMode} (h : mode ≤ .readOnly) : mode = .readOnly := by
  cases mode with
  | readOnly => rfl
  | workspaceWrite => exact absurd h (by decide)
  | dangerFullAccess => exact absurd h (by decide)

end PermissionMode

inductive PermissionOutcome where
  | allow
  | deny (reason : RustString)

structure PermissionRequest where
  toolName : RustString
  input : RustString
  currentMode : PermissionMode
  requiredMode : PermissionMode

structure PermissionPolicy where
  activeMode : PermissionMode
  requirements : List (RustString × PermissionMode)

namespace PermissionPolicy

def new (activeMode : PermissionMode) : PermissionPolicy := ⟨activeMode, []⟩

def withToolRequirement (toolName : RustString) (required : PermissionMode) (s : PermissionPolicy) :
    PermissionPolicy :=
  { s with requirements := s.requirements ++ [(toolName, required)] }

def requiredModeFor (toolName : RustString) (s : PermissionPolicy) : PermissionMode :=
  (s.requirements.findSome? fun (name, mode) => if name = toolName then some mode else none).getD
    .dangerFullAccess

theorem requiredModeFor_undeclared {s : PermissionPolicy} {toolName : RustString}
    (h : ∀ mode, (toolName, mode) ∉ s.requirements) :
    s.requiredModeFor toolName = .dangerFullAccess := by
  have hnone : (s.requirements.findSome? fun (name, mode) =>
      if name = toolName then some mode else none) = none := by
    rw [List.findSome?_eq_none_iff]
    rintro ⟨name, mode⟩ hmem
    have hne : name ≠ toolName := by
      rintro rfl
      exact h mode hmem
    exact if_neg hne
  rw [requiredModeFor, hnone]
  rfl

end PermissionPolicy

end Solarcido.Crates
