import Solarcido.Lib.ThrowingProgram
import Solarcido.Tools.FileSystem

namespace Solarcido.Tools

open Text ThrowingProgram

/-- What a tool call can read and change: the world outside the program, the
files, and the conversation's plan-mode flag. -/
structure World (ε : Type) where
  env : ε
  fs : FileSystem
  planActive : Bool

/-- Something done by the outside that does not touch the files. -/
abbrev Effect (ε α : Type) := EStateM Thrown ε α

abbrev Action (ε α : Type) := EStateM Thrown (World ε) α

variable {ε α : Type}

/-- Something done by the outside, seen from a tool. -/
def outside (x : Effect ε α) : Action ε α := onPart World.env (fun env w => { w with env }) x

/-- The result of a computation that may fail. -/
def orThrow : Except Thrown α → Action ε α
  | .ok a => pure a
  | .error e => throw e

/-- Read from the files. -/
def reading (f : FileSystem → Except Thrown α) : Action ε α := do
  orThrow (f (← get).fs)

/-- Change the files. -/
def writing (f : FileSystem → Except Thrown FileSystem) : Action ε Unit := do
  let fs ← reading f
  modify fun w => { w with fs }

theorem orThrow_apply (r : Except Thrown α) (w : World ε) :
    orThrow r w = match r with
      | .ok a => .ok a w
      | .error e => .error e w := by
  cases r <;> rfl

theorem reading_apply (f : FileSystem → Except Thrown α) (w : World ε) :
    reading f w = match f w.fs with
      | .ok a => .ok a w
      | .error e => .error e w :=
  orThrow_apply (f w.fs) w

theorem writing_apply (f : FileSystem → Except Thrown FileSystem) (w : World ε) :
    writing f w = match f w.fs with
      | .ok fs => .ok ⟨⟩ { w with fs }
      | .error e => .error e w := by
  have hread := reading_apply f w
  cases hf : f w.fs with
  | error e =>
    rw [hf] at hread
    exact bind_of_error hread _
  | ok fs =>
    rw [hf] at hread
    exact bind_of_ok hread _

/-- What a shell command came to. -/
inductive ExecOutcome where
  | finished (stdout stderr : JsString)
  | failed (stdout : Option JsString) (stderr : Option JsString) (message : JsString)
    (code : Option JsString) (signal : Option JsString) (killed : Bool)

/-- The services of the language and the operating system. -/
structure Host (ε : Type) where
  /-- The decimal text of a finite number. -/
  numberText : ℚ → JsString
  /-- `JSON.parse`. -/
  parseJson : JsString → Except Thrown Json
  /-- `a.localeCompare(b) <= 0`. -/
  localeLe : JsString → JsString → Bool
  /-- `new RegExp(source, flags)` and its `test`. -/
  regExp : JsString → Bool → Except Thrown (JsString → Bool)
  extractTextFromBytes : Bytes → Except Thrown JsString
  /-- `process.cwd()`. -/
  cwd : Path
  /-- `process.env.SOLARCIDO_TODO_STORE`. -/
  todoStore : Option JsString
  /-- `exec(command, { cwd, timeout })`: a command may change any file. -/
  exec : JsString → JsString → JsNumber → ε → FileSystem → ExecOutcome × ε × FileSystem
  promptForCommandApproval : JsString → Effect ε Bool

/-- A host with no environment variable, no command and nobody to ask behind it. -/
def Host.bare (parseJson : JsString → Except Thrown Json) : Host ε where
  numberText q := Number.decimal q.floor.toNat
  parseJson := parseJson
  localeLe a b := !List.lex (b.map UInt16.toNat) (a.map UInt16.toNat) Nat.blt
  regExp source _ := .ok fun text => includes text source
  extractTextFromBytes _ := .ok []
  cwd := []
  todoStore := none
  exec _ _ _ env fs := (.failed none none (js "spawn ENOENT") none none false, env, fs)
  promptForCommandApproval _ := pure false

end Solarcido.Tools
