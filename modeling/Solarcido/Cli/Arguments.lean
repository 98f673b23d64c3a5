import Mathlib.Algebra.Order.Ring.Rat
import Solarcido.Config.Loader
import Solarcido.Lib.KeyedUpdates

namespace Solarcido.Cli

open Text Api Tools Config KeyedUpdates

section commands

structure CliDefaults where
  reasoningEffort : ReasoningEffort
  model : JsString
  approvalPolicy : ApprovalPolicy
  sandbox : SandboxMode
  quiet : Bool
  stream : Bool

inductive ConfigAction where
  | get (key : Option JsString)
  | set (key value : JsString)
  | path

inductive SessionsAction where
  | list
  | show (id : JsString)

inductive CliCommand where
  | run (goal cwd : JsString) (reasoningEffort : ReasoningEffort) (model : JsString)
      (approvalPolicy : ApprovalPolicy) (sandbox : SandboxMode) (quiet stream : Bool)
      (resume : Option JsString)
  | interactive (cwd : JsString) (reasoningEffort : ReasoningEffort) (model : JsString)
      (approvalPolicy : ApprovalPolicy) (sandbox : SandboxMode) (quiet stream : Bool)
  | config (action : ConfigAction)
  | sessions (action : SessionsAction)
  | team (file cwd : JsString) (reasoningEffort : ReasoningEffort) (model : JsString)
      (approvalPolicy : ApprovalPolicy) (sandbox : SandboxMode) (quiet : Bool) (concurrency : Nat)
  | orchestrate (goal cwd : JsString) (reasoningEffort : ReasoningEffort) (model : JsString)
      (approvalPolicy : ApprovalPolicy) (sandbox : SandboxMode) (quiet : Bool)
  | cron (file cwd : JsString) (reasoningEffort : ReasoningEffort) (model : JsString)
      (approvalPolicy : ApprovalPolicy) (sandbox : SandboxMode)
  | init (cwd : JsString)
  | lsp (file : JsString) (server : Option JsString) (settleMs : Option Rat)
  | mcpServe (cwd : JsString) (approvalPolicy : ApprovalPolicy) (sandbox : SandboxMode)
  | help

/-- What `Number` makes of a text. -/
inductive NumberValue where
  | nan
  | infinite
  | finite (value : Rat)

/-- `process.cwd()`, `path.resolve` and `Number`. -/
structure Surroundings where
  cwd : JsString
  resolve : JsString → JsString
  number : JsString → NumberValue

end commands

variable (env : Surroundings)

section flags

/-- `Number(undefined)` is NaN. -/
def numberOf (value : Option JsString) : NumberValue := (value.map env.number).getD .nan

def cwdFlag (value : Option JsString) : JsString := env.resolve (value.getD env.cwd)

def textFlag (message : JsString) (value : Option JsString) : Except JsString JsString :=
  wordOr message ((value.map trim).filter fun text => !text.isEmpty)

def approvalPolicyFlag (value : Option JsString) : Except JsString ApprovalPolicy :=
  wordOr (js "--approval-policy must be never, on-failure, or on-request.")
    (value.bind approvalPolicyOf)

def sandboxFlag (value : Option JsString) : Except JsString SandboxMode :=
  wordOr (js "--sandbox must be read-only or workspace-write.") (value.bind sandboxOf)

/-- A number that is finite and no less than a bound. -/
def numberFlag (message : JsString) (least : Rat) (value : Option JsString) :
    Except JsString Rat :=
  match numberOf env value with
  | .finite number => if number < least then .error message else .ok number
  | _ => .error message

def concurrencyFlag (value : Option JsString) : Except JsString Nat :=
  let message := js "--concurrency must be a positive integer."
  match numberOf env value with
  | .finite number =>
    if number.den ≠ 1 ∨ number < 1 then .error message else .ok number.num.toNat
  | _ => .error message

def parseReasoningEffort (value : Option JsString) : ReasoningEffort :=
  (value.bind reasoningEffortOf).getD DEFAULT_REASONING_EFFORT

/-- A loop over arguments whose body may take the next one along. -/
def scan {σ : Type} (body : σ → JsString → Option JsString → Except JsString (σ × Bool)) :
    List JsString → σ → Except JsString σ
  | [], s => .ok s
  | [token], s => (body s token none).map Prod.fst
  | token :: value :: rest, s =>
    match body s token (some value) with
    | .error e => .error e
    | .ok (s, true) => scan body rest s
    | .ok (s, false) => scan body (value :: rest) s

end flags

section arguments

/-- What the arguments of a run come to. -/
@[ext]
structure Arguments where
  positional : List JsString
  cwd : JsString
  reasoningEffort : ReasoningEffort
  model : JsString
  approvalPolicy : ApprovalPolicy
  sandbox : SandboxMode
  quiet : Bool
  stream : Bool
  resume : Option JsString
  concurrency : Nat

def Arguments.start (defaults : CliDefaults) : Arguments where
  positional := []
  cwd := env.cwd
  reasoningEffort := defaults.reasoningEffort
  model := defaults.model
  approvalPolicy := defaults.approvalPolicy
  sandbox := defaults.sandbox
  quiet := defaults.quiet
  stream := defaults.stream
  resume := none
  concurrency := 1

inductive Flag where
  | stream
  | noStream
  | resume
  | cwd
  | concurrency
  | maxSteps
  | reasoning
  | model
  | approvalPolicy
  | sandbox
  | quiet
  deriving DecidableEq

def Flag.name : Flag → JsString
  | .stream => js "--stream"
  | .noStream => js "--no-stream"
  | .resume => js "--resume"
  | .cwd => js "--cwd"
  | .concurrency => js "--concurrency"
  | .maxSteps => js "--max-steps"
  | .reasoning => js "--reasoning"
  | .model => js "--model"
  | .approvalPolicy => js "--approval-policy"
  | .sandbox => js "--sandbox"
  | .quiet => js "--quiet"

/-- In the order in which an argument is compared with them. -/
def FLAGS : List Flag :=
  [.stream, .noStream, .resume, .cwd, .concurrency, .maxSteps, .reasoning, .model,
    .approvalPolicy, .sandbox, .quiet]

def flagOf (token : JsString) : Option Flag := FLAGS.find? fun flag => flag.name = token

def Flag.takesValue : Flag → Bool
  | .stream | .noStream | .quiet => false
  | _ => true

def takeFlag (s : Arguments) (value : Option JsString) : Flag → Except JsString Arguments
  | .stream => .ok { s with stream := true }
  | .noStream => .ok { s with stream := false }
  | .resume => (textFlag (js "--resume requires a session id.") value).map fun id =>
      { s with resume := some id }
  | .cwd => .ok { s with cwd := cwdFlag env value }
  | .concurrency => (concurrencyFlag env value).map fun concurrency => { s with concurrency }
  | .maxSteps =>
    (numberFlag env (js "--max-steps must be a positive number.") 1 value).map fun _ => s
  | .reasoning => .ok { s with reasoningEffort := parseReasoningEffort value }
  | .model => (textFlag (js "--model requires a value.") value).map fun model => { s with model }
  | .approvalPolicy => (approvalPolicyFlag value).map fun approvalPolicy =>
      { s with approvalPolicy }
  | .sandbox => (sandboxFlag value).map fun sandbox => { s with sandbox }
  | .quiet => .ok { s with quiet := true }

def takeArgument (s : Arguments) (token : JsString) (value : Option JsString) :
    Except JsString (Arguments × Bool) :=
  match flagOf token with
  | none => .ok ({ s with positional := s.positional ++ [token] }, false)
  | some flag => (takeFlag env s value flag).map fun s => (s, flag.takesValue)

def readArguments (defaults : CliDefaults) (rest : List JsString) : Except JsString Arguments :=
  scan (takeArgument env) rest (.start env defaults)

inductive RunMode where
  | run
  | team
  | orchestrate
  | cron

def RunMode.name : RunMode → JsString
  | .run => js "run"
  | .team => js "team"
  | .orchestrate => js "orchestrate"
  | .cron => js "cron"

/-- The first positional argument, if it is there and not empty. -/
def fileArgument (usage : JsString) (positional : List JsString) : Except JsString JsString :=
  wordOr usage (positional.head?.filter fun file => !file.isEmpty)

def goalArgument (positional : List JsString) : Except JsString JsString :=
  let goal := trim (join (js " ") positional)
  if goal.isEmpty then .error (js "A goal string is required.") else .ok goal

def commandOf (s : Arguments) : RunMode → Except JsString CliCommand
  | .team => do
    let file ← fileArgument
      (js "Usage: solarcido team <tasks.json> [--concurrency N] [run flags]") s.positional
    .ok (.team (env.resolve file) s.cwd s.reasoningEffort s.model s.approvalPolicy s.sandbox
      s.quiet s.concurrency)
  | .cron => do
    let file ← fileArgument (js "Usage: solarcido cron <cron.json> [run flags]") s.positional
    .ok (.cron (env.resolve file) s.cwd s.reasoningEffort s.model s.approvalPolicy s.sandbox)
  | .orchestrate => do
    let goal ← goalArgument s.positional
    .ok (.orchestrate goal s.cwd s.reasoningEffort s.model s.approvalPolicy s.sandbox s.quiet)
  | .run => do
    let goal ← goalArgument s.positional
    .ok (.run goal s.cwd s.reasoningEffort s.model s.approvalPolicy s.sandbox s.quiet s.stream
      s.resume)

end arguments

section modes

def parseConfig : List JsString → Except JsString CliCommand
  | action :: rest =>
    if action = js "path" then .ok (.config .path)
    else if action = js "get" then .ok (.config (.get rest.head?))
    else if action = js "set" then
      let key := rest.head?.getD []
      let value := trim (join (js " ") rest.tail)
      if key.isEmpty || value.isEmpty then
        .error (js "Usage: solarcido config set <key> <value>")
      else .ok (.config (.set key value))
    else .error (js "Usage: solarcido config get [key] | config set <key> <value> | config path")
  | [] => .error (js "Usage: solarcido config get [key] | config set <key> <value> | config path")

def parseSessions : List JsString → Except JsString CliCommand
  | action :: rest =>
    if action = js "list" then .ok (.sessions .list)
    else if action = js "show" then
      let id := rest.head?.getD []
      if id.isEmpty then .error (js "Usage: solarcido sessions show <id>")
      else .ok (.sessions (.show id))
    else .error (js "Usage: solarcido sessions list | sessions show <id>")
  | [] => .error (js "Usage: solarcido sessions list | sessions show <id>")

/-- Other arguments of `init` are passed over. -/
def takeInit (cwd token : JsString) (value : Option JsString) :
    Except JsString (JsString × Bool) :=
  .ok (if token = js "--cwd" then (cwdFlag env value, true) else (cwd, false))

structure LspArguments where
  positional : List JsString
  server : Option JsString
  settleMs : Option Rat

def takeLsp (s : LspArguments) (token : JsString) (value : Option JsString) :
    Except JsString (LspArguments × Bool) :=
  if token = js "--server" then
    (wordOr (js "--server requires a command string.")
      (value.filter fun server => !server.isEmpty)).map fun server =>
        ({ s with server := some server }, true)
  else if token = js "--settle-ms" then
    (numberFlag env (js "--settle-ms must be a non-negative number.") 0 value).map fun settleMs =>
      ({ s with settleMs := some settleMs }, true)
  else .ok ({ s with positional := s.positional ++ [token] }, false)

/-- The working directory, the approval policy and the sandbox. -/
abbrev McpServeArguments := JsString × ApprovalPolicy × SandboxMode

def takeMcpServe (s : McpServeArguments) (token : JsString) (value : Option JsString) :
    Except JsString (McpServeArguments × Bool) :=
  if token = js "--cwd" then .ok ((cwdFlag env value, s.2), true)
  else if token = js "--approval-policy" then
    (approvalPolicyFlag value).map fun approvalPolicy => ((s.1, approvalPolicy, s.2.2), true)
  else if token = js "--sandbox" then
    (sandboxFlag value).map fun sandbox => ((s.1, s.2.1, sandbox), true)
  else .error (js "Unknown flag for mcp-serve: " ++ token)

def runModeOf (mode : JsString) : Option RunMode :=
  if mode = js "run" then some .run
  else if mode = js "team" then some .team
  else if mode = js "orchestrate" then some .orchestrate
  else if mode = js "cron" then some .cron
  else none

def parseMode (mode : JsString) (rest : List JsString) (defaults : CliDefaults) :
    Except JsString CliCommand :=
  if mode = js "--help" || mode = js "-h" then .ok .help
  else if mode = js "config" then parseConfig rest
  else if mode = js "sessions" then parseSessions rest
  else if mode = js "init" then (scan (takeInit env) rest env.cwd).map .init
  else if mode = js "lsp" then do
    let s ← scan (takeLsp env) rest ⟨[], none, none⟩
    let file ← fileArgument
      (js "Usage: solarcido lsp <file> [--server \"<command>\"] [--settle-ms N]") s.positional
    .ok (.lsp (env.resolve file) s.server s.settleMs)
  else if mode = js "mcp-serve" then
    (scan (takeMcpServe env) rest (env.cwd, defaults.approvalPolicy, defaults.sandbox)).map
      fun s => .mcpServe s.1 s.2.1 s.2.2
  else
    match runModeOf mode with
    | none => .error (js "Unknown command: " ++ mode)
    | some mode => do
      let s ← readArguments env defaults rest
      commandOf env s mode

def parseCliArgs (argv : List JsString) (defaults : CliDefaults) : Except JsString CliCommand :=
  let mode := argv.head?.getD []
  if mode.isEmpty then
    .ok (.interactive env.cwd defaults.reasoningEffort defaults.model defaults.approvalPolicy
      defaults.sandbox defaults.quiet defaults.stream)
  else parseMode env mode argv.tail defaults

end modes

section reading

/-- An argument, with the next one where it takes that along. -/
abbrev Group := JsString × Option JsString

def takesAlong (token : JsString) : Bool := (flagOf token).any Flag.takesValue

def groups : List JsString → List Group
  | [] => []
  | [token] => [(token, none)]
  | token :: value :: rest =>
    if takesAlong token then (token, some value) :: groups rest
    else (token, none) :: groups (value :: rest)

def takeGroup (s : Arguments) (g : Group) : Except JsString Arguments :=
  (takeArgument env s g.1 g.2).map Prod.fst

theorem takeArgument_along {token : JsString} (h : takesAlong token = true) (s : Arguments)
    (value : Option JsString) :
    takeArgument env s token value = (takeGroup env s (token, value)).map fun s => (s, true) := by
  rw [takeGroup, takeArgument]
  rw [takesAlong] at h
  cases hflag : flagOf token with
  | none =>
    rw [hflag] at h
    cases h
  | some flag =>
    rw [hflag, Option.any_some] at h
    dsimp only
    rw [h]
    cases takeFlag env s value flag <;> rfl

theorem takeArgument_alone {token : JsString} (h : takesAlong token = false) (s : Arguments)
    (value : Option JsString) :
    takeArgument env s token value = (takeGroup env s (token, none)).map fun s => (s, false) := by
  rw [takeGroup, takeArgument, takeArgument]
  rw [takesAlong] at h
  cases hflag : flagOf token with
  | none => rfl
  | some flag =>
    rw [hflag, Option.any_some] at h
    cases flag <;> first | rfl | cases h

/-- The loop over the arguments goes from group to group. -/
theorem scan_eq (args : List JsString) (s : Arguments) :
    scan (takeArgument env) args s = (groups args).foldlM (takeGroup env) s := by
  induction args using groups.induct generalizing s with
  | case1 => rfl
  | case2 token =>
    rw [scan, groups, List.foldlM_cons]
    change takeGroup env s (token, none) = takeGroup env s (token, none) >>= pure
    rw [bind_pure]
  | case3 token value rest h ih =>
    rw [scan, groups, if_pos h, List.foldlM_cons, takeArgument_along env h]
    cases takeGroup env s (token, some value) with
    | error e => rfl
    | ok s => exact ih s
  | case4 token value rest h ih =>
    rw [Bool.not_eq_true] at h
    rw [scan, groups, if_neg (by simp [h]), List.foldlM_cons, takeArgument_alone env h]
    cases takeGroup env s (token, none) with
    | error e => rfl
    | ok s => exact ih s

theorem takeGroup_eq (s : Arguments) (g : Group) :
    takeGroup env s g = match flagOf g.1 with
      | none => .ok { s with positional := s.positional ++ [g.1] }
      | some flag => takeFlag env s g.2 flag := by
  rw [takeGroup, takeArgument]
  cases flagOf g.1 with
  | none => rfl
  | some flag =>
    dsimp only
    cases takeFlag env s g.2 flag <;> rfl

end reading

section meaning

/-- What a flag can set. -/
inductive Setting where
  | cwd
  | reasoningEffort
  | model
  | approvalPolicy
  | sandbox
  | quiet
  | stream
  | resume
  | concurrency

def Setting.Value : Setting → Type
  | .cwd | .model => JsString
  | .reasoningEffort => ReasoningEffort
  | .approvalPolicy => ApprovalPolicy
  | .sandbox => SandboxMode
  | .quiet | .stream => Bool
  | .resume => Option JsString
  | .concurrency => Nat

def Arguments.get (s : Arguments) : (k : Setting) → k.Value
  | .cwd => s.cwd
  | .reasoningEffort => s.reasoningEffort
  | .model => s.model
  | .approvalPolicy => s.approvalPolicy
  | .sandbox => s.sandbox
  | .quiet => s.quiet
  | .stream => s.stream
  | .resume => s.resume
  | .concurrency => s.concurrency

/-- What a flag with its value says of a setting. -/
def Setting.read (value : Option JsString) : (k : Setting) → Flag → Option k.Value
  | .cwd, .cwd => some (cwdFlag env value)
  | .reasoningEffort, .reasoning => some (parseReasoningEffort value)
  | .model, .model => value.map trim
  | .approvalPolicy, .approvalPolicy => value.bind approvalPolicyOf
  | .sandbox, .sandbox => value.bind sandboxOf
  | .quiet, .quiet => some true
  | .stream, .stream => some true
  | .stream, .noStream => some false
  | .resume, .resume => value.map fun id => some (trim id)
  | .concurrency, .concurrency =>
    match numberOf env value with
    | .finite number => some number.num.toNat
    | _ => none
  | _, _ => none

def Setting.pick (k : Setting) (g : Group) : Option k.Value := (flagOf g.1).bind (k.read env g.2)

/-- A positional argument. -/
def word (g : Group) : Option JsString := if (flagOf g.1).isNone then some g.1 else none

/-- A flag has a value as it asks for. -/
def Accepts (g : Group) : Prop :=
  match flagOf g.1 with
  | some .resume | some .model => ∃ text, g.2 = some text ∧ trim text ≠ []
  | some .concurrency => ∃ n : Nat, 1 ≤ n ∧ numberOf env g.2 = .finite n
  | some .maxSteps => ∃ number, 1 ≤ number ∧ numberOf env g.2 = .finite number
  | some .approvalPolicy => ∃ policy, g.2.bind approvalPolicyOf = some policy
  | some .sandbox => ∃ sandbox, g.2.bind sandboxOf = some sandbox
  | _ => True

theorem exists_of_map_ok {α β : Type} {f : α → β} {x : Except JsString α} {b : β}
    (h : x.map f = .ok b) : ∃ a, x = .ok a ∧ f a = b := by
  cases x with
  | error e => cases h
  | ok a => exact ⟨a, rfl, Except.ok.inj h⟩

theorem wordOr_ok_iff {α : Type} {message : JsString} {found : Option α} {value : α} :
    wordOr message found = .ok value ↔ found = some value := by
  cases found <;> simp [wordOr]

theorem textFlag_ok_iff {message : JsString} {value : Option JsString} {text : JsString} :
    textFlag message value = .ok text ↔ ∃ given, value = some given ∧ trim given = text ∧
      text ≠ [] := by
  rw [textFlag, wordOr_ok_iff]
  cases value with
  | none => simp
  | some given =>
    simp only [Option.map_some, Option.filter_eq_some_iff, Option.some.injEq, exists_eq_left',
      Bool.not_eq_true', List.isEmpty_eq_false_iff]

theorem concurrencyFlag_ok_iff {value : Option JsString} {n : Nat} :
    concurrencyFlag env value = .ok n ↔ 1 ≤ n ∧ numberOf env value = .finite n := by
  rw [concurrencyFlag]
  cases numberOf env value with
  | nan => simp
  | infinite => simp
  | finite number =>
    dsimp only
    rw [NumberValue.finite.injEq]
    by_cases hrefused : number.den ≠ 1 ∨ number < 1
    · rw [if_pos hrefused]
      refine iff_of_false (by simp) ?_
      rintro ⟨hn, rfl⟩
      rcases hrefused with hden | hless
      · exact hden rfl
      · exact absurd (by exact_mod_cast hn) (not_le.mpr hless)
    · rw [if_neg hrefused, Except.ok.injEq]
      obtain ⟨hden, hleast⟩ := not_or.mp hrefused
      rw [not_not] at hden
      rw [not_lt] at hleast
      have hnum : number = number.num := (Rat.den_eq_one_iff number).mp hden |>.symm
      have hpos : 1 ≤ number.num := by
        rw [hnum] at hleast
        exact_mod_cast hleast
      have hnat : ((number.num.toNat : Nat) : Int) = number.num := Int.toNat_of_nonneg (by omega)
      have hcast : ((number.num.toNat : Nat) : Rat) = number := by
        rw [← Int.cast_natCast, hnat, ← hnum]
      constructor
      · rintro rfl
        exact ⟨by omega, hcast.symm⟩
      · rintro ⟨-, rfl⟩
        simp

theorem numberFlag_ok_iff {message : JsString} {least : Rat} {value : Option JsString}
    {number : Rat} :
    numberFlag env message least value = .ok number ↔
      least ≤ number ∧ numberOf env value = .finite number := by
  rw [numberFlag]
  cases numberOf env value with
  | nan => simp
  | infinite => simp
  | finite given =>
    dsimp only
    rw [NumberValue.finite.injEq]
    by_cases hless : given < least
    · rw [if_pos hless]
      refine iff_of_false (by simp) ?_
      rintro ⟨hleast, rfl⟩
      exact absurd hleast (not_le.mpr hless)
    · rw [if_neg hless, Except.ok.injEq]
      refine ⟨?_, fun h => h.2⟩
      rintro rfl
      exact ⟨not_lt.mp hless, rfl⟩

/-- A group sets the settings it speaks of, and no others. -/
theorem takeGroup_get {s s' : Arguments} {g : Group} (h : takeGroup env s g = .ok s')
    (k : Setting) : s'.get k = (k.pick env g).getD (s.get k) := by
  rw [takeGroup_eq] at h
  rw [Setting.pick]
  cases hflag : flagOf g.1 with
  | none =>
    rw [hflag] at h
    obtain rfl := Except.ok.inj h
    cases k <;> rfl
  | some flag =>
    rw [hflag] at h
    rw [Option.bind_some]
    cases flag with
    | stream | noStream | cwd | reasoning | quiet =>
      obtain rfl := Except.ok.inj h
      cases k <;> rfl
    | resume =>
      obtain ⟨id, hid, rfl⟩ := exists_of_map_ok h
      obtain ⟨given, hgiven, rfl, -⟩ := textFlag_ok_iff.mp hid
      rw [hgiven]
      cases k <;> rfl
    | model =>
      obtain ⟨id, hid, rfl⟩ := exists_of_map_ok h
      obtain ⟨given, hgiven, rfl, -⟩ := textFlag_ok_iff.mp hid
      rw [hgiven]
      cases k <;> rfl
    | concurrency =>
      obtain ⟨n, hn, rfl⟩ := exists_of_map_ok h
      obtain ⟨-, hnumber⟩ := (concurrencyFlag_ok_iff env).mp hn
      have hread : Setting.concurrency.read env g.2 .concurrency = some n := by
        rw [Setting.read, hnumber]
        change some (n : Rat).num.toNat = some n
        rw [Rat.num_natCast, Int.toNat_natCast]
      cases k with
      | concurrency => rw [hread]; rfl
      | _ => rfl
    | maxSteps =>
      obtain ⟨number, -, rfl⟩ := exists_of_map_ok h
      cases k <;> rfl
    | approvalPolicy =>
      obtain ⟨policy, hpolicy, rfl⟩ := exists_of_map_ok h
      rw [approvalPolicyFlag, wordOr_ok_iff] at hpolicy
      have hread : Setting.approvalPolicy.read env g.2 .approvalPolicy = some policy := hpolicy
      cases k with
      | approvalPolicy => rw [hread]; rfl
      | _ => rfl
    | sandbox =>
      obtain ⟨sandbox, hsandbox, rfl⟩ := exists_of_map_ok h
      rw [sandboxFlag, wordOr_ok_iff] at hsandbox
      have hread : Setting.sandbox.read env g.2 .sandbox = some sandbox := hsandbox
      cases k with
      | sandbox => rw [hread]; rfl
      | _ => rfl

theorem takeFlag_positional {s s' : Arguments} {value : Option JsString} {flag : Flag}
    (h : takeFlag env s value flag = .ok s') : s'.positional = s.positional := by
  cases flag with
  | stream | noStream | cwd | reasoning | quiet =>
    obtain rfl := Except.ok.inj h
    rfl
  | resume | model | concurrency | maxSteps | approvalPolicy | sandbox =>
    obtain ⟨-, -, rfl⟩ := exists_of_map_ok h
    rfl

theorem takeGroup_positional {s s' : Arguments} {g : Group} (h : takeGroup env s g = .ok s') :
    s'.positional = s.positional ++ (word g).toList := by
  rw [takeGroup_eq] at h
  rw [word]
  cases hflag : flagOf g.1 with
  | none =>
    rw [hflag] at h
    obtain rfl := Except.ok.inj h
    rfl
  | some flag =>
    rw [hflag] at h
    rw [takeFlag_positional env h]
    exact (List.append_nil _).symm

/-- Whether a group is accepted does not depend on those in front of it. -/
theorem takeGroup_ok_iff (s : Arguments) (g : Group) :
    (∃ s', takeGroup env s g = .ok s') ↔ Accepts env g := by
  rw [takeGroup_eq, Accepts]
  cases flagOf g.1 with
  | none => simp
  | some flag =>
    cases flag with
    | stream | noStream | cwd | reasoning | quiet => exact iff_of_true ⟨_, rfl⟩ trivial
    | resume | model =>
      dsimp only [takeFlag]
      simp only [map_ok_iff, textFlag_ok_iff]
      constructor
      · rintro ⟨text, given, hgiven, rfl, hne⟩
        exact ⟨given, hgiven, hne⟩
      · rintro ⟨given, hgiven, hne⟩
        exact ⟨trim given, given, hgiven, rfl, hne⟩
    | concurrency =>
      dsimp only [takeFlag]
      simp only [map_ok_iff, concurrencyFlag_ok_iff]
    | maxSteps =>
      dsimp only [takeFlag]
      simp only [map_ok_iff, numberFlag_ok_iff]
    | approvalPolicy =>
      dsimp only [takeFlag]
      simp only [map_ok_iff, approvalPolicyFlag, wordOr_ok_iff]
    | sandbox =>
      dsimp only [takeFlag]
      simp only [map_ok_iff, sandboxFlag, wordOr_ok_iff]

/-- The last flag for a setting counts, and without one its default; the positional arguments are
those that are no flags and no flag's value, in their order. -/
def Says (defaults : CliDefaults) (args : List Group) (s : Arguments) : Prop :=
  s.positional = args.filterMap word ∧
    ∀ k : Setting, s.get k = (args.filterMap (k.pick env)).getLast?.getD
      ((Arguments.start env defaults).get k)

theorem Says.unique {defaults : CliDefaults} {args : List Group} {s s' : Arguments}
    (h : Says env defaults args s) (h' : Says env defaults args s') : s = s' := by
  have hget : ∀ k : Setting, s.get k = s'.get k := fun k => (h.2 k).trans (h'.2 k).symm
  ext1
  · exact h.1.trans h'.1.symm
  · exact hget .cwd
  · exact hget .reasoningEffort
  · exact hget .model
  · exact hget .approvalPolicy
  · exact hget .sandbox
  · exact hget .quiet
  · exact hget .stream
  · exact hget .resume
  · exact hget .concurrency

theorem readArguments_ok_iff (defaults : CliDefaults) (rest : List JsString) (s : Arguments) :
    readArguments env defaults rest = .ok s ↔
      (∀ g ∈ groups rest, Accepts env g) ∧ Says env defaults (groups rest) s := by
  have hmeans : ∀ {last : Arguments}, (groups rest).foldlM (takeGroup env) (.start env defaults) =
      .ok last → Says env defaults (groups rest) last := by
    intro last h
    refine ⟨?_, fun k => ?_⟩
    · exact get_foldlM_append Arguments.positional word
        (fun s g s' hg => takeGroup_positional env hg) h
    · exact get_foldlM (fun s => s.get k) (k.pick env) (fun s g s' hg => takeGroup_get env hg k) h
  rw [readArguments, scan_eq, ← foldlM_ok_iff (Arguments.start env defaults)
    (takeGroup_ok_iff env)]
  constructor
  · intro h
    exact ⟨⟨s, h⟩, hmeans h⟩
  · rintro ⟨⟨last, h⟩, hs⟩
    rwa [hs.unique env (hmeans h)]

theorem parseCliArgs_run (mode : RunMode) (rest : List JsString) (defaults : CliDefaults) :
    parseCliArgs env (mode.name :: rest) defaults =
      readArguments env defaults rest >>= fun s => commandOf env s mode := by
  cases mode <;> rfl

/-- A command of a run mode is given just when every flag has a value as it asks for, and is made of
what the last flag for each setting and the positional arguments say. -/
theorem parse_run_iff (mode : RunMode) (rest : List JsString) (defaults : CliDefaults)
    (command : CliCommand) :
    parseCliArgs env (mode.name :: rest) defaults = .ok command ↔
      (∀ g ∈ groups rest, Accepts env g) ∧
        ∃ s, Says env defaults (groups rest) s ∧ commandOf env s mode = .ok command := by
  rw [parseCliArgs_run]
  cases hread : readArguments env defaults rest with
  | error e =>
    refine iff_of_false (fun h => by cases h) ?_
    rintro ⟨haccepts, s, hs, -⟩
    rw [(readArguments_ok_iff env defaults rest s).mpr ⟨haccepts, hs⟩] at hread
    cases hread
  | ok s =>
    obtain ⟨haccepts, hs⟩ := (readArguments_ok_iff env defaults rest s).mp hread
    constructor
    · intro h
      exact ⟨haccepts, s, hs, h⟩
    · rintro ⟨-, s', hs', h⟩
      rwa [← hs.unique env hs'] at h

end meaning

end Solarcido.Cli
