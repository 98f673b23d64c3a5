import Mathlib.Data.List.Lex
import Solarcido.Crates.Json
import Solarcido.Crates.Paths

namespace Solarcido.Crates

open RustText PathBuf

/-- The tools of a workspace; `cwd` is an absolute path. -/
structure WorkspaceTools where
  cwd : PathBuf

/-- A text without floats. -/
def Value.text (v : Value) : RustString := v.display fun _ => []

/-- `string_arg`. -/
def stringArg (input : Value) (key : RustString) : Except RustString RustString :=
  match (input.get key).bind Value.asStr with
  | some value => .ok value
  | none => .error (key ++ str " must be a string")

def maxWriteBytes : Nat := 10 * 1024 * 1024

abbrev DiskM := EStateM RustString Disk

def orFail {α : Type} (x : Except RustString α) : DiskM α :=
  match x with
  | .ok a => pure a
  | .error e => throw e

def orIo {α : Type} (x : Except IoError α) : DiskM α := orFail (x.mapError IoError.text)

namespace WorkspaceTools

variable (self : WorkspaceTools) (files : Files)

def resolveCandidate (path : RustString) : PathBuf := joinPath self.cwd (utf8 path)

def ensureInside (path : PathBuf) : Except RustString Unit :=
  match canonicalize files self.cwd with
  | .error error => .error (display self.cwd ++ str ": " ++ error.text)
  | .ok root =>
    if startsWith path (pathOf root) then .ok ()
    else .error (str "path " ++ display path ++ str " escapes workspace " ++ display (pathOf root))

def resolveExisting (path : RustString) : Except RustString PathBuf :=
  match canonicalize files (self.resolveCandidate path) with
  | .error error => .error (path ++ str ": " ++ error.text)
  | .ok resolved => do
    self.ensureInside files (pathOf resolved)
    .ok (pathOf resolved)

def resolveAllowMissing (path : RustString) : Except RustString PathBuf :=
  let candidate := self.resolveCandidate path
  let parent := candidate.parent.getD self.cwd
  match canonicalize files parent with
  | .error error => .error (display parent ++ str ": " ++ error.text)
  | .ok resolvedParent => do
    self.ensureInside files (pathOf resolvedParent)
    match candidate.fileName with
    | none => .error (str "path must include a file name")
    | some name => .ok (join (pathOf resolvedParent) [name])

/-- A path as the tools show it. -/
def relative (path : PathBuf) : RustString :=
  (fromUtf8Lossy ((stripPrefix path self.cwd).getD (bytes path))).map fun c =>
    if c = '\\' then '/' else c

/-- The directory a file is written in. -/
def makeParent (resolved : PathBuf) : Except IoError Unit :=
  match resolved.parent with
  | some parent => createDirAll files parent
  | none => .ok ()

/-- `write_file`. -/
def writeFile (input : Value) : DiskM RustString := do
  let path ← orFail (stringArg input (str "path"))
  let content ← orFail (stringArg input (str "content"))
  if maxWriteBytes < (utf8 content).length then
    throw (str "content is too large (" ++ decimal (utf8 content).length ++ str " bytes, max " ++
      decimal maxWriteBytes ++ str " bytes)")
  let disk ← get
  let resolved ← orFail (self.resolveAllowMissing disk.files path)
  let original := readToString disk.files resolved
  orIo (makeParent disk.files resolved)
  let disk ← orIo (disk.write resolved (utf8 content))
  set disk
  pure (Value.object [
    (str "filePath", .string (self.relative resolved)),
    (str "originalFile", (original.map Value.string).getD .null),
    (str "type", .string (if original.isSome then str "update" else str "create"))]).text

section globs

/-- The crate that expands a pattern: an error of the pattern, or the paths, each with the error
of reading its directory in its place. -/
abbrev Glob := RustString → Files → Except RustString (List (Except RustString PathBuf))

def globLimit : Nat := 100

/-- The files among the paths of a pattern. -/
def matchedFiles : List (Except RustString PathBuf) → Except RustString (List RustString)
  | [] => .ok []
  | .error error :: _ => .error error
  | .ok entry :: rest =>
    if isFile files entry then do
      self.ensureInside files entry
      let matched ← matchedFiles rest
      .ok (self.relative entry :: matched)
    else matchedFiles rest

/-- The order of strings. -/
def textLe (a b : RustString) : Bool := decide (a.map Char.toNat ≤ b.map Char.toNat)

variable (glob : Glob)

/-- The base of a search. -/
def globBase (input : Value) : Except RustString PathBuf :=
  match (input.get (str "path")).bind Value.asStr with
  | none => .ok self.cwd
  | some path => self.resolveExisting files path

/-- The paths that the crate gives for a search. -/
def globEntries (input : Value) : Except RustString (List (Except RustString PathBuf)) := do
  let pattern ← stringArg input (str "pattern")
  let base ← self.globBase files input
  glob (display (joinPath base (utf8 pattern))) files

/-- All files that match, in their order. -/
def sortedMatches (input : Value) : Except RustString (List RustString) := do
  let entries ← self.globEntries files glob input
  let matched ← self.matchedFiles files entries
  .ok (matched.mergeSort textLe)

/-- `glob_search`. -/
def globSearch (input : Value) : Except RustString RustString :=
  (self.sortedMatches files glob input).map fun matched =>
    (Value.object [
      (str "filenames", .array ((matched.take globLimit).map Value.string)),
      (str "numFiles", .number (.int (matched.take globLimit).length)),
      (str "truncated", .bool (decide (globLimit < matched.length)))]).text

end globs

variable {files} in
theorem ensureInside_ok_iff (p : PathBuf) : self.ensureInside files p = .ok () ↔
    ∃ root, canonicalize files self.cwd = .ok root ∧ startsWith p (pathOf root) = true := by
  rw [ensureInside]
  cases canonicalize files self.cwd with
  | error error => simp
  | ok root =>
    simp only [Except.ok.injEq, exists_eq_left']
    split
    · next hstarts => simp [hstarts]
    · next hnot => simp [hnot]

end WorkspaceTools

end Solarcido.Crates
