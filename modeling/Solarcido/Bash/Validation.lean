import Mathlib.Data.List.TakeWhile
import Solarcido.Js.Text
import Solarcido.Workers.Screen

namespace Solarcido.Bash

open Text
open Workers (splitSpaces splitSpacesFrom)

inductive CommandIntent where
  | readOnly
  | destructive
  | network
  | packageMgmt
  | other
  deriving DecidableEq

inductive ValidationResult where
  | allow
  | block (reason : JsString)
  | warn (message : JsString)
  deriving DecidableEq

section tables

def READ_ONLY_COMMANDS : List JsString :=
  [js "ls", js "cat", js "head", js "tail", js "less", js "more", js "wc", js "sort", js "uniq",
    js "grep", js "egrep", js "fgrep", js "find", js "which", js "whereis", js "file", js "stat",
    js "du", js "df", js "free", js "uptime", js "uname", js "hostname", js "whoami", js "id",
    js "env", js "printenv", js "echo", js "printf", js "date", js "pwd", js "tree",
    js "diff", js "cmp", js "md5sum", js "sha256sum", js "sha1sum", js "xxd", js "od",
    js "strings", js "readlink", js "realpath", js "basename", js "dirname", js "seq",
    js "column", js "jq", js "yq", js "xargs", js "tr", js "cut", js "paste", js "awk"]

def DESTRUCTIVE_COMMANDS : List JsString :=
  [js "rm", js "rmdir", js "shred", js "wipefs", js "mkfs"]

def DESTRUCTIVE_PATTERNS : List (JsString × JsString) :=
  [(js "rm -rf /", js "Recursive forced deletion at root — this will destroy the system"),
    (js "rm -rf ~", js "Recursive forced deletion of home directory"),
    (js "rm -rf *", js "Recursive forced deletion of all files in current directory"),
    (js "rm -rf .", js "Recursive forced deletion of current directory"),
    (js "mkfs", js "Filesystem creation will destroy existing data on the device"),
    (js "dd if=", js "Direct disk write — can overwrite partitions or devices"),
    (js "> /dev/sd", js "Writing to raw disk device"),
    (js "chmod -R 777", js "Recursively setting world-writable permissions"),
    (js "chmod -R 000", js "Recursively removing all permissions"),
    (js ":()\x7b :|:& \x7d;:", js "Fork bomb — will crash the system")]

def NETWORK_COMMANDS : List JsString :=
  [js "curl", js "wget", js "ssh", js "scp", js "rsync", js "ftp", js "sftp",
    js "nc", js "ncat", js "telnet", js "ping", js "traceroute", js "dig", js "nslookup", js "host"]

def PACKAGE_MGMT_COMMANDS : List JsString :=
  [js "apt", js "apt-get", js "yum", js "dnf", js "pacman", js "brew",
    js "pip", js "pip3", js "npm", js "yarn", js "pnpm", js "bun",
    js "cargo", js "gem", js "go", js "rustup", js "snap", js "flatpak"]

def WRITE_COMMANDS : List JsString :=
  [js "cp", js "mv", js "mkdir", js "touch", js "chmod", js "chown", js "chgrp", js "ln",
    js "install", js "tee", js "truncate", js "mkfifo", js "mknod", js "dd"]

def GIT_READ_ONLY_SUBCOMMANDS : List JsString :=
  [js "status", js "log", js "diff", js "show", js "branch", js "tag", js "stash", js "remote",
    js "fetch", js "ls-files", js "ls-tree", js "cat-file", js "rev-parse", js "describe",
    js "shortlog", js "blame", js "bisect", js "reflog", js "config"]

def SYSTEM_PATHS : List JsString :=
  [js "/etc/", js "/usr/", js "/var/", js "/boot/", js "/sys/",
    js "/proc/", js "/dev/", js "/sbin/", js "/lib/", js "/opt/"]

end tables

section reading

def isLetter (u : UInt16) : Bool := (65 ≤ u && u ≤ 90) || (97 ≤ u && u ≤ 122)

/-- `[A-Za-z_]`. -/
def isNameStart (u : UInt16) : Bool := isLetter u || u == 95

/-- `[A-Za-z0-9_]`. -/
def isNameUnit (u : UInt16) : Bool := isNameStart u || (48 ≤ u && u ≤ 57)

/-- What is left behind `"[^"]*"` or `'[^']*'`. -/
def closeQuote (quote : UInt16) : JsString → Option JsString
  | [] => none
  | u :: rest =>
    if u = quote then
      if quote ∈ rest then some ((rest.dropWhile (· ≠ quote)).drop 1) else none
    else none

/-- What is left behind the value of an assignment: `(?:"[^"]*"|'[^']*'|\S*)\s*`. -/
def dropValue (value : JsString) : JsString :=
  let rest :=
    match closeQuote 34 value with
    | some rest => rest
    | none =>
      match closeQuote 39 value with
      | some rest => rest
      | none => value.dropWhile fun u => !isWhiteSpace u
  rest.dropWhile isWhiteSpace

/-- What `envVarRe` leaves of a text that it matches. -/
def envVarRest (remaining : JsString) : Option JsString :=
  match remaining with
  | [] => none
  | u :: rest =>
    if isNameStart u then
      match rest.dropWhile isNameUnit with
      | [] => none
      | v :: value => if v = 61 then some (dropValue value) else none
    else none

/-- The loop over the assignments in front: each match leaves a shorter text. -/
def skipEnvVars : Nat → JsString → JsString
  | 0, remaining => remaining
  | n + 1, remaining =>
    match envVarRest remaining with
    | some rest => skipEnvVars n rest
    | none => remaining

def extractFirstCommand (command : JsString) : JsString :=
  let remaining := trim command
  (splitSpaces (skipEnvVars remaining.length remaining)).headD []

def gitSubcommand (command : JsString) : Option JsString :=
  ((splitSpaces (trim command)).drop 1).find? fun p => !startsWith p (js "-")

/-- `/\s-[a-zA-Z]*i/.test(command)`. -/
def editsInPlace (command : JsString) : Bool :=
  command.tails.any fun rest =>
    match rest with
    | u :: v :: flags => isWhiteSpace u && v == 45 && (flags.takeWhile isLetter).contains 105
    | _ => false

def classifyCommandIntent (command : JsString) : CommandIntent :=
  let first := extractFirstCommand command
  if DESTRUCTIVE_COMMANDS.contains first then .destructive
  else if NETWORK_COMMANDS.contains first then .network
  else if PACKAGE_MGMT_COMMANDS.contains first then .packageMgmt
  else if READ_ONLY_COMMANDS.contains first then
    if first == js "sed" && editsInPlace command then .other else .readOnly
  else if first = js "git" then
    match gitSubcommand command with
    | some sub => if GIT_READ_ONLY_SUBCOMMANDS.contains sub then .readOnly else .other
    | none => .other
  else .other

end reading

section validation

def intentText : CommandIntent → JsString
  | .readOnly => js "read-only"
  | .destructive => js "destructive"
  | .network => js "network"
  | .packageMgmt => js "package-mgmt"
  | .other => js "other"

/-- `/(?<![<>])>/.test(command)`, behind the unit before. -/
def redirectsFrom : Option UInt16 → JsString → Bool
  | _, [] => false
  | before, u :: rest =>
    (u == 62 && !(before == some 60 || before == some 62)) || redirectsFrom (some u) rest

def redirects (command : JsString) : Bool := redirectsFrom none command

/-- The rules behind those of read-only mode. -/
def warnings (command : JsString) : ValidationResult :=
  let first := extractFirstCommand command
  let isWriteCmd := WRITE_COMMANDS.contains first || DESTRUCTIVE_COMMANDS.contains first
  let sysPath := if isWriteCmd then SYSTEM_PATHS.find? (includes command) else none
  match sysPath with
  | some sysPath =>
    .warn (js "Command targets a system path ('" ++ sysPath ++
      js "') — verify this is intentional")
  | none =>
    match DESTRUCTIVE_PATTERNS.find? fun entry => includes command entry.1 with
    | some (_, message) => .warn (js "Destructive command detected: " ++ message)
    | none =>
      if includes command (js "rm ") && includes command (js "-r") && includes command (js "-f")
      then .warn (js "Recursive forced deletion detected — verify the target path is correct")
      else if first = js "shred" ∨ first = js "wipefs" then
        .warn (js "'" ++ first ++ js "' is inherently destructive and may cause data loss")
      else .allow

def validateCommand (command : JsString) (readOnly : Bool) : ValidationResult :=
  let intent := classifyCommandIntent command
  if readOnly && intent ≠ .readOnly then
    .block (js "'" ++ extractFirstCommand command ++
      js "' is not allowed in read-only mode (intent: " ++ intentText intent ++ js ")")
  else if readOnly && redirects command then
    .block (js "Write redirection '>' is not allowed in read-only mode")
  else warnings command

end validation

section assignments

theorem closeQuote_length {quote : UInt16} {s rest : JsString}
    (h : closeQuote quote s = some rest) : rest.length ≤ s.length := by
  cases s with
  | nil => cases h
  | cons u s =>
    rw [closeQuote] at h
    split_ifs at h
    cases h
    have hle := (List.dropWhile_sublist (· ≠ quote) (l := s)).length_le
    rw [List.length_drop, List.length_cons]
    omega

theorem dropValue_length (value : JsString) : (dropValue value).length ≤ value.length := by
  have hspace : ∀ s : JsString, (s.dropWhile isWhiteSpace).length ≤ s.length :=
    fun s => (List.dropWhile_sublist isWhiteSpace).length_le
  rw [dropValue]
  cases hdouble : closeQuote 34 value with
  | some rest => exact Nat.le_trans (hspace rest) (closeQuote_length hdouble)
  | none =>
    cases hsingle : closeQuote 39 value with
    | some rest => exact Nat.le_trans (hspace rest) (closeQuote_length hsingle)
    | none => exact Nat.le_trans (hspace _) (List.dropWhile_sublist _).length_le

theorem envVarRest_length {s rest : JsString} (h : envVarRest s = some rest) :
    rest.length < s.length := by
  cases s with
  | nil => cases h
  | cons u s =>
    rw [envVarRest] at h
    split_ifs at h
    have hle := (List.dropWhile_sublist isNameUnit (l := s)).length_le
    split at h
    · cases h
    · next v value hvalue =>
      split_ifs at h
      cases h
      rw [hvalue, List.length_cons] at hle
      have hdrop := dropValue_length value
      rw [List.length_cons]
      omega

/-- The loop ends where no assignment is left. -/
theorem envVarRest_skipEnvVars (n : Nat) (s : JsString) (h : s.length ≤ n) :
    envVarRest (skipEnvVars n s) = none := by
  induction n generalizing s with
  | zero =>
    rw [List.length_eq_zero_iff.mp (Nat.le_zero.mp h)]
    rfl
  | succ n ih =>
    rw [skipEnvVars]
    cases hrest : envVarRest s with
    | none => exact hrest
    | some rest =>
      have hlt := envVarRest_length hrest
      exact ih rest (by omega)

theorem skipEnvVars_of_none {s : JsString} (h : envVarRest s = none) (n : Nat) :
    skipEnvVars n s = s := by
  cases n with
  | zero => rfl
  | succ n => rw [skipEnvVars, h]

end assignments

section redirections

variable {before : Option UInt16} {s t : JsString}

/-- A unit that does not take the write out of a `>` behind it. -/
def LetsWrite (before : Option UInt16) : Prop := before ≠ some 60 ∧ before ≠ some 62

theorem redirectsFrom_letsWrite (h : LetsWrite before) (s : JsString) :
    redirectsFrom before s = redirects s := by
  cases s with
  | nil => rfl
  | cons u s =>
    have hnot : (before == some 60 || before == some 62) = false := by
      simp [h.1, h.2]
    rw [redirects, redirectsFrom, redirectsFrom, hnot]
    rfl

theorem redirectsFrom_append (before : Option UInt16) (s : JsString) {u : UInt16}
    (hu : LetsWrite (some u)) (hwrite : u ≠ 62) (t : JsString) :
    redirectsFrom before (s ++ u :: t) = (redirectsFrom before s || redirects t) := by
  induction s generalizing before with
  | nil =>
    rw [List.nil_append, redirectsFrom.eq_2, redirectsFrom_letsWrite hu, redirectsFrom]
    simp [hwrite]
  | cons v s ih => rw [List.cons_append, redirectsFrom, ih, redirectsFrom, Bool.or_assoc]

end redirections

section lines

inductive Separator where
  | semicolon
  | and
  | or
  | pipe
  | background
  | newline
  deriving DecidableEq

def Separator.text : Separator → JsString
  | .semicolon => js ";"
  | .and => js "&&"
  | .or => js "||"
  | .pipe => js "|"
  | .background => js "&"
  | .newline => js "\n"

/-- A compound command. -/
def line (first : JsString) (others : List (Separator × JsString)) : JsString :=
  first ++ others.flatMap fun other => other.1.text ++ other.2

def commands (first : JsString) (others : List (Separator × JsString)) : List JsString :=
  first :: others.map Prod.snd

def Blocks (command : JsString) : Prop := ∃ reason, validateCommand command true = .block reason

theorem warnings_ne_block (command reason : JsString) : warnings command ≠ .block reason := by
  intro h
  rw [warnings] at h
  split at h
  · cases h
  · split at h
    · cases h
    · split_ifs at h

theorem blocks_iff (command : JsString) :
    Blocks command ↔ classifyCommandIntent command ≠ .readOnly ∨ redirects command = true := by
  rw [Blocks, validateCommand]
  by_cases hintent : classifyCommandIntent command = .readOnly
  · cases hredirects : redirects command with
    | true => simp [hintent]
    | false => simp [hintent, warnings_ne_block]
  · simp [hintent]

theorem redirectsFrom_separator (before : Option UInt16) (s : JsString) (separator : Separator)
    (t : JsString) :
    redirectsFrom before (s ++ (separator.text ++ t)) =
      (redirectsFrom before s || redirects t) := by
  have hone : ∀ u : UInt16, u ≠ 60 → u ≠ 62 → ∀ b r q,
      redirectsFrom b (r ++ u :: q) = (redirectsFrom b r || redirects q) := by
    intro u hless hgreater b r q
    exact redirectsFrom_append b r ⟨by simpa using hless, by simpa using hgreater⟩ hgreater q
  have htwo : ∀ u : UInt16, u ≠ 60 → u ≠ 62 → ∀ b r q,
      redirectsFrom b (r ++ u :: u :: q) = (redirectsFrom b r || redirects q) := by
    intro u hless hgreater b r q
    rw [hone u hless hgreater, redirects, ← List.nil_append (u :: q), hone u hless hgreater]
    rfl
  cases separator with
  | semicolon => exact hone 59 (by decide) (by decide) before s t
  | and => exact htwo 38 (by decide) (by decide) before s t
  | or => exact htwo 124 (by decide) (by decide) before s t
  | pipe => exact hone 124 (by decide) (by decide) before s t
  | background => exact hone 38 (by decide) (by decide) before s t
  | newline => exact hone 10 (by decide) (by decide) before s t

theorem line_cons (first : JsString) (other : Separator × JsString)
    (others : List (Separator × JsString)) :
    line first (other :: others) = first ++ (other.1.text ++ line other.2 others) := by
  rw [line, List.flatMap_cons, List.append_assoc, line]

/-- A line writes exactly when one of its commands does. -/
theorem redirects_line (first : JsString) (others : List (Separator × JsString)) :
    redirects (line first others) = true ↔
      ∃ command ∈ commands first others, redirects command = true := by
  induction others generalizing first with
  | nil => simp [line, commands]
  | cons other others ih =>
    rw [line_cons, redirects, redirectsFrom_separator, Bool.or_eq_true, ih]
    simp [commands, redirects]

end lines

section fronts

variable {lead w t : JsString}

theorem splitSpaces_headD (s : JsString) :
    (splitSpaces s).headD [] = s.takeWhile fun u => !isWhiteSpace u := by
  suffices h : ∀ piece, (splitSpacesFrom false piece s).headD [] =
      piece.reverse ++ s.takeWhile fun u => !isWhiteSpace u from h []
  induction s with
  | nil =>
    intro piece
    simp [splitSpacesFrom]
  | cons u s ih =>
    intro piece
    rw [splitSpacesFrom]
    by_cases hu : isWhiteSpace u = true
    · rw [if_pos hu, if_neg Bool.false_ne_true, List.takeWhile_cons_of_neg (by simp [hu])]
      simp
    · rw [if_neg hu, ih, List.takeWhile_cons_of_pos (by simp [hu])]
      simp

/-- A first word: no assignment, and followed by white space or a separator. -/
structure IsFront (lead w t : JsString) : Prop where
  blank : ∀ u ∈ lead, isWhiteSpace u = true
  nonempty : w ≠ []
  word : ∀ u ∈ w, isWhiteSpace u = false
  unassigned : 61 ∉ w
  ended : ∀ u ∈ t.head?, isNameUnit u = false ∧ u ≠ 61

theorem envVarRest_front (hne : w ≠ []) (hassign : 61 ∉ w)
    (hended : ∀ u ∈ t.head?, isNameUnit u = false ∧ u ≠ 61) : envVarRest (w ++ t) = none := by
  obtain ⟨u, v, rfl⟩ := List.exists_cons_of_ne_nil hne
  have hnext : ∀ x ∈ ((v ++ t).dropWhile isNameUnit).head?, x ≠ 61 := by
    rw [List.dropWhile_append]
    split_ifs with hempty
    · cases t with
      | nil => simp
      | cons x t =>
        have hx := hended x rfl
        rw [List.dropWhile_cons_of_neg (by simp [hx.1])]
        rintro y hy
        rw [List.head?_cons, Option.mem_some_iff] at hy
        exact hy ▸ hx.2
    · rintro x hx rfl
      rw [List.head?_append_of_ne_nil _ (by simpa using hempty)] at hx
      have hmem := (List.dropWhile_suffix isNameUnit).subset (List.mem_of_head? hx)
      exact hassign (List.mem_cons_of_mem u hmem)
  rw [List.cons_append, envVarRest]
  split_ifs
  · split
    · rfl
    · next x value hvalue =>
      rw [hvalue] at hnext
      rw [if_neg (hnext x rfl)]
  · rfl

theorem trim_front (h : IsFront lead w t) : trim (lead ++ (w ++ t)) = w ++ trimEnd t := by
  obtain ⟨u, v, hw⟩ := List.exists_cons_of_ne_nil h.nonempty
  have hu : isWhiteSpace u = false := h.word u (hw ▸ List.mem_cons_self)
  have hstart : trimStart (lead ++ (w ++ t)) = w ++ t := by
    rw [trimStart, List.dropWhile_append_of_pos h.blank, hw, List.cons_append,
      List.dropWhile_cons_of_neg (by simp [hu])]
  have hback : w.reverse.dropWhile isWhiteSpace = w.reverse :=
    trimStart_of_no_space w.reverse (by simpa using h.word)
  rw [trim, hstart, trimEnd, List.reverse_append, List.dropWhile_append, trimEnd]
  split_ifs with hempty
  · rw [List.isEmpty_iff] at hempty
    rw [hback, List.reverse_reverse, hempty, List.reverse_nil, List.append_nil]
  · rw [List.reverse_append, List.reverse_reverse]

theorem extractFirstCommand_front (h : IsFront lead w t) :
    extractFirstCommand (lead ++ (w ++ t)) =
      w ++ (trimEnd t).takeWhile fun u => !isWhiteSpace u := by
  have hended : ∀ u ∈ (trimEnd t).head?, isNameUnit u = false ∧ u ≠ 61 := by
    intro u hu
    obtain ⟨rest, hrest⟩ := trimEnd_prefix t
    apply h.ended
    rw [← hrest, List.head?_append, Option.mem_def.mp hu]
    rfl
  rw [extractFirstCommand, trim_front h,
    skipEnvVars_of_none (envVarRest_front h.nonempty h.unassigned hended), splitSpaces_headD,
    List.takeWhile_append_of_pos]
  intro u hu
  rw [h.word u hu]
  rfl

theorem head_trimEnd (t : JsString) : ∀ u ∈ (trimEnd t).head?, u ∈ t.head? := by
  intro u hu
  obtain ⟨rest, hrest⟩ := trimEnd_prefix t
  rw [← hrest, List.head?_append, Option.mem_def.mp hu]
  rfl

theorem extractFirstCommand_ended (h : IsFront lead w t)
    (hspace : ∀ u ∈ t.head?, isWhiteSpace u = true) :
    extractFirstCommand (lead ++ (w ++ t)) = w := by
  rw [extractFirstCommand_front h]
  cases hkept : trimEnd t with
  | nil => rw [List.takeWhile_nil, List.append_nil]
  | cons u rest =>
    have hu := hspace u (head_trimEnd t u (by rw [hkept]; rfl))
    rw [List.takeWhile_cons_of_neg (by simp [hu]), List.append_nil]

/-- The first word goes on where no white space ends it. -/
theorem mem_extractFirstCommand {u : UInt16} (h : IsFront lead w (u :: t))
    (hu : isWhiteSpace u = false) : u ∈ extractFirstCommand (lead ++ (w ++ u :: t)) := by
  have hne : trimEnd (u :: t) ≠ [] := by
    rw [trimEnd, ne_eq, List.reverse_eq_nil_iff, List.dropWhile_eq_nil_iff]
    intro hall
    rw [hall u (by simp)] at hu
    cases hu
  obtain ⟨v, rest, hkept⟩ := List.exists_cons_of_ne_nil hne
  have hv := head_trimEnd (u :: t) v (by rw [hkept]; rfl)
  rw [List.head?_cons, Option.mem_some_iff] at hv
  rw [extractFirstCommand_front h, hkept, ← hv, List.takeWhile_cons_of_pos (by simp [hu])]
  simp

theorem not_nameUnit_of_space {u : UInt16} (hu : isWhiteSpace u = true) :
    isNameUnit u = false ∧ u ≠ 61 := by
  constructor
  · rw [← Bool.not_eq_true]
    intro hname
    simp only [isNameUnit, isNameStart, isLetter, isWhiteSpace, Bool.or_eq_true, Bool.and_eq_true,
      decide_eq_true_eq, beq_iff_eq, UInt16.le_iff_toNat_le, ← UInt16.toNat_inj] at hname hu
    simp only [UInt16.reduceToNat] at hname
    omega
  · rintro rfl
    exact absurd hu (by decide)

end fronts

section classification

theorem READ_ONLY_COMMANDS_no_sed : READ_ONLY_COMMANDS.contains (js "sed") = false := by
  decide +kernel

theorem classifyCommandIntent_congr {a b : JsString}
    (h : extractFirstCommand a = extractFirstCommand b)
    (hgit : extractFirstCommand a ≠ js "git") :
    classifyCommandIntent a = classifyCommandIntent b := by
  have hsed : ∀ command, READ_ONLY_COMMANDS.contains (extractFirstCommand command) = true →
      (extractFirstCommand command == js "sed") = false := by
    intro command hmem
    rw [beq_eq_false_iff_ne]
    intro hfirst
    rw [hfirst, READ_ONLY_COMMANDS_no_sed] at hmem
    cases hmem
  rw [classifyCommandIntent, classifyCommandIntent]
  by_cases hread : READ_ONLY_COMMANDS.contains (extractFirstCommand a) = true
  · have ha := hsed a hread
    have hb := hsed b (h ▸ hread)
    simp only [hread, ha, ← h, Bool.false_and, Bool.false_eq_true, if_false, if_true]
  · simp only [hread, ← h, hgit, Bool.false_eq_true, if_false]

/-- `[;&|]`, the units of the separators other than a line break. -/
def isMark (u : UInt16) : Bool := u == 59 || u == 38 || u == 124

/-- No command that is read-only has a separator in its name. -/
theorem not_readOnly_of_mark {command : JsString} {u : UInt16} (hu : isMark u = true)
    (hmem : u ∈ extractFirstCommand command) : classifyCommandIntent command ≠ .readOnly := by
  have hnone : ((js "git" :: READ_ONLY_COMMANDS).all fun w => w.all fun v => !isMark v) = true := by
    decide +kernel
  have hnot : ∀ w ∈ js "git" :: READ_ONLY_COMMANDS, extractFirstCommand command ≠ w := by
    rintro w hw rfl
    have hv := List.all_eq_true.mp (List.all_eq_true.mp hnone _ hw) u hmem
    rw [hu] at hv
    cases hv
  have hread : READ_ONLY_COMMANDS.contains (extractFirstCommand command) = false := by
    rw [List.contains_eq_mem, decide_eq_false_iff_not]
    intro h
    exact hnot _ (List.mem_cons_of_mem _ h) rfl
  rw [classifyCommandIntent]
  simp only [hread, hnot (js "git") List.mem_cons_self, Bool.false_eq_true, if_false]
  split_ifs <;> exact CommandIntent.noConfusion

end classification

section law

/-- When a line is blocked wherever one of its commands is. -/
theorem blocks_line_iff (first : JsString) (others : List (Separator × JsString)) :
    ((∃ command ∈ commands first others, Blocks command) → Blocks (line first others)) ↔
      (∃ command ∈ commands first others, redirects command = true) ∨
        classifyCommandIntent (line first others) ≠ .readOnly ∨
        ∀ command ∈ commands first others, classifyCommandIntent command = .readOnly := by
  rw [blocks_iff, redirects_line]
  simp only [blocks_iff]
  constructor
  · intro h
    by_contra hnot
    simp only [not_or, not_exists, not_and, not_not, not_forall] at hnot
    obtain ⟨hwrites, hline, command, hmem, hintent⟩ := hnot
    rcases h ⟨command, hmem, Or.inl hintent⟩ with h | ⟨other, hother, h⟩
    · exact h hline
    · exact hwrites other hother h
  · rintro (h | h | h) ⟨command, hmem, hblocks⟩
    · exact Or.inr h
    · exact Or.inl h
    · rcases hblocks with hintent | hwrites
      · exact absurd (h command hmem) hintent
      · exact Or.inr ⟨command, hmem, hwrites⟩

end law

section compound

/-- A command that begins with a word: no assignment, and not `git`, whose words go on. -/
structure Front where
  lead : JsString
  word : JsString
  more : JsString
  blank : ∀ u ∈ lead, isWhiteSpace u = true
  nonempty : word ≠ []
  unbroken : ∀ u ∈ word, isWhiteSpace u = false
  unassigned : 61 ∉ word
  notGit : word ≠ js "git"
  spaced : ∀ u ∈ more.head?, isWhiteSpace u = true

namespace Front

variable (front : Front) (others : List (Separator × JsString))

def text : JsString := front.lead ++ (front.word ++ front.more)

/-- The word ends in the command, or at the line break behind it. -/
def Ends : Prop := front.more ≠ [] ∨ ∀ other ∈ others.head?, other.1 = .newline

theorem isFront {t : JsString} (h : ∀ u ∈ t.head?, isNameUnit u = false ∧ u ≠ 61) :
    IsFront front.lead front.word t :=
  ⟨front.blank, front.nonempty, front.unbroken, front.unassigned, h⟩

theorem extractFirstCommand_text {t : JsString} (h : ∀ u ∈ t.head?, isWhiteSpace u = true) :
    extractFirstCommand (front.lead ++ (front.word ++ t)) = front.word :=
  extractFirstCommand_ended (front.isFront fun u hu => not_nameUnit_of_space (h u hu)) h

theorem line_text : line front.text others =
    front.lead ++ (front.word ++ line front.more others) := by
  simp only [text, line, List.append_assoc]

theorem classify_of_ends (h : front.Ends others) :
    classifyCommandIntent (line front.text others) = classifyCommandIntent front.text := by
  have htail : ∀ u ∈ (line front.more others).head?, isWhiteSpace u = true := by
    intro u hu
    cases hmore : front.more with
    | cons v more =>
      rw [hmore] at hu
      exact front.spaced u (by rw [hmore]; exact hu)
    | nil =>
      rw [hmore] at hu
      cases others with
      | nil => cases hu
      | cons other others =>
        have hnewline := h.resolve_left (fun hne => hne hmore) other rfl
        rw [line_cons, hnewline] at hu
        cases hu
        rfl
  have hfirst := front.extractFirstCommand_text front.spaced
  rw [line_text]
  apply classifyCommandIntent_congr
  · rw [front.extractFirstCommand_text htail, text, hfirst]
  · rw [front.extractFirstCommand_text htail]
    exact front.notGit

theorem classify_of_not_ends (h : ¬ front.Ends others) :
    classifyCommandIntent (line front.text others) ≠ .readOnly := by
  rw [Ends, not_or, not_not] at h
  obtain ⟨hmore, hother⟩ := h
  cases others with
  | nil => exact absurd (by simp) hother
  | cons other others =>
    have hnot : other.1 ≠ .newline := by
      simpa using hother
    obtain ⟨u, t, hu, ht⟩ :
        ∃ u t, isMark u = true ∧ other.1.text ++ line other.2 others = u :: t := by
      cases hsep : other.1 with
      | newline => exact absurd hsep hnot
      | _ => exact ⟨_, _, rfl, rfl⟩
    have hmark : isNameUnit u = false ∧ u ≠ 61 ∧ isWhiteSpace u = false := by
      simp only [isMark, Bool.or_eq_true, beq_iff_eq] at hu
      rcases hu with (rfl | rfl) | rfl <;> decide
    rw [line_text, hmore, line_cons, List.nil_append, ht]
    apply not_readOnly_of_mark hu
    refine mem_extractFirstCommand (front.isFront ?_) hmark.2.2
    rintro v hv
    rw [List.head?_cons, Option.mem_some_iff] at hv
    exact hv ▸ ⟨hmark.1, hmark.2.1⟩

end Front

/-- For which lines a blocked command blocks the whole, and what this is where the line
begins with a word. -/
theorem blocks_compound_iff (first : JsString) (others : List (Separator × JsString)) :
    (((∃ command ∈ commands first others, Blocks command) → Blocks (line first others)) ↔
      (∃ command ∈ commands first others, redirects command = true) ∨
        classifyCommandIntent (line first others) ≠ .readOnly ∨
        ∀ command ∈ commands first others, classifyCommandIntent command = .readOnly) ∧
    ∀ front : Front, front.text = first →
      (classifyCommandIntent (line first others) ≠ .readOnly ↔
        ¬ front.Ends others ∨ classifyCommandIntent first ≠ .readOnly) := by
  refine ⟨blocks_line_iff first others, ?_⟩
  rintro front rfl
  by_cases hends : front.Ends others
  · rw [front.classify_of_ends others hends]
    simp [hends]
  · exact iff_of_true (front.classify_of_not_ends others hends) (Or.inl hends)

/-- A line break hides the command behind it. -/
theorem hidden_behind_newline :
    Blocks (js "rm x") ∧ ¬ Blocks (line (js "ls") [(.newline, js "rm x")]) := by
  rw [blocks_iff, blocks_iff]
  decide +kernel

end compound

end Solarcido.Bash
