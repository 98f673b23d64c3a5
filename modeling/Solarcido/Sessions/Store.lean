import Solarcido.Js.LowerCase
import Solarcido.Js.NodePath
import Solarcido.Js.Utf8

namespace Solarcido.Sessions

open Text NodePath

section fingerprint

def fnvOffsetHi : UInt32 := 0xcbf29ce4

def fnvOffsetLo : UInt32 := 0x84222325

def fnvPrimeHi : UInt32 := 0x00000100

def fnvPrimeLo : UInt32 := 0x000001b3

/-- The high and the low word. `aHH` is added in at the place of `aH`. -/
def mul64 (aHi aLo bHi bLo : UInt32) : UInt32 × UInt32 :=
  let aL := aLo &&& 0xffff
  let aM := (aLo >>> 16) &&& 0xffff
  let aH := aHi &&& 0xffff
  let aHH := (aHi >>> 16) &&& 0xffff
  let bL := bLo &&& 0xffff
  let bM := (bLo >>> 16) &&& 0xffff
  let bH := bHi &&& 0xffff
  let lo := aL * bL
  let carry := (lo >>> 16) + aM * bL + aL * bM
  let lo := ((carry &&& 0xffff) <<< 16) ||| (lo &&& 0xffff)
  let hi := (carry >>> 16) + aH * bL + aM * bM + aL * bH + aHH * bL + aH * bM + aM * bH +
    aL * ((bHi >>> 16) &&& 0xffff)
  (hi, lo)

def fnv1a64 (bytes : Bytes) : UInt32 × UInt32 :=
  bytes.foldl (fun (hi, lo) byte => mul64 hi (lo ^^^ byte.toUInt32) fnvPrimeHi fnvPrimeLo)
    (fnvOffsetHi, fnvOffsetLo)

/-- `word.toString(16).padStart(8, "0")`. -/
def hexWord (word : UInt32) : JsString :=
  Text.padStart 8 48 ((Nat.toDigits 16 word.toNat).map fun c => UInt16.ofNat c.toNat)

def workspaceFingerprint (workspacePath : JsString) : JsString :=
  let (hi, lo) := fnv1a64 (Utf8.bufferFrom workspacePath)
  hexWord hi ++ hexWord lo

end fingerprint

section files

def primarySessionExtension : JsString := js "jsonl"

def legacySessionExtension : JsString := js "json"

def sessionExtensions : List JsString := [primarySessionExtension, legacySessionExtension]

def sessionReferenceAliases : List JsString := [js "latest", js "last", js "recent"]

def isSessionReferenceAlias (reference : JsString) : Bool :=
  sessionReferenceAliases.contains (toLowerCase reference)

def isManagedSessionFile (filePath : JsString) : Bool :=
  sessionExtensions.contains (afterLastDot filePath)

/-- The answers of the file system at one moment. -/
structure FsAdapter where
  /-- `none` when it throws. -/
  realpath : JsString → Option JsString
  mkdir : JsString → Except JsString Unit
  pathExists : JsString → Bool
  readdir : JsString → List FileName
  mtimeMs : JsString → Rat

end files

section layout

def dataDirSessionsRoot (dataDir canonicalWorkspace : JsString) : JsString :=
  join [dataDir, js "sessions", workspaceFingerprint canonicalWorkspace]

def cwdSessionsRoot (canonicalCwd : JsString) : JsString :=
  join [canonicalCwd, js ".claw", js "sessions", workspaceFingerprint canonicalCwd]

def legacySessionsRoot (sessionsRoot : JsString) : Option JsString :=
  let parent := dirname sessionsRoot
  if basename parent = js "sessions" then some parent else none

def sessionIdFromPath (filePath : JsString) : Option JsString :=
  let base := basename filePath
  sessionExtensions.findSome? fun ext =>
    if endsWith base (js "." ++ ext) then some (base.take (base.length - (ext.length + 1))) else none

structure SessionHandle where
  id : JsString
  path : JsString

def sessionHandlePath (sessionsRoot sessionId : JsString) : JsString :=
  join [sessionsRoot, sessionId ++ (js "." ++ primarySessionExtension)]

end layout

section summaries

/-- What `loadSummary` reads out of a session file. -/
structure LoadedSummary where
  id : JsString
  updatedAtMs : Rat
  messageCount : Nat
  parentSessionId : Option JsString
  branchName : Option JsString

structure SessionSummary extends LoadedSummary where
  path : JsString
  mtimeMs : Rat

/-- The callback that parses session files, where there is one. -/
abbrev LoadSummary := Option (JsString → Option LoadedSummary)

/-- The comparison of `sortSessionSummaries`, by the host's comparison of texts. -/
def compareSummaries (localeCompare : JsString → JsString → Int) (a b : SessionSummary) : Rat :=
  if b.updatedAtMs ≠ a.updatedAtMs then b.updatedAtMs - a.updatedAtMs
  else if b.mtimeMs ≠ a.mtimeMs then b.mtimeMs - a.mtimeMs
  else localeCompare b.id a.id

def sortSessionSummaries (localeCompare : JsString → JsString → Int)
    (summaries : List SessionSummary) : List SessionSummary :=
  summaries.mergeSort fun a b => compareSummaries localeCompare a b ≤ 0

end summaries

inductive SessionStoreError where
  | io (message : JsString)
  | notFound (reference sessionsRoot : JsString)
  | noSessions (sessionsRoot : JsString)
  | workspaceMismatch (expected actual : JsString)

def sessionStoreErrorMessage : SessionStoreError → JsString
  | .io message => message
  | .notFound reference sessionsRoot =>
    js "session not found: " ++ reference ++ js "\nHint: managed sessions live in .claw/sessions/" ++
      basename sessionsRoot ++
      js "/ (workspace-specific partition).\nTry `latest` for the most recent session or `/session list` in the REPL."
  | .noSessions sessionsRoot =>
    js "no managed sessions found in .claw/sessions/" ++ basename sessionsRoot ++
      js "/\nStart the assistant to create a session, then rerun with `--resume latest`.\nNote: sessions are partitioned per workspace fingerprint; sessions from other CWDs are invisible."
  | .workspaceMismatch expected actual =>
    js "session workspace mismatch: expected " ++ expected ++ js ", found " ++ actual

structure SessionStore where
  sessionsRoot : JsString
  workspaceRoot : JsString

namespace SessionStore

section build

variable (fs : FsAdapter)

def fromCwd (cwd : JsString) : Except JsString SessionStore := do
  let canonical := (fs.realpath cwd).getD cwd
  let sessionsRoot := cwdSessionsRoot canonical
  fs.mkdir sessionsRoot
  return ⟨sessionsRoot, canonical⟩

def fromDataDir (dataDir workspaceRoot : JsString) : Except JsString SessionStore := do
  let canonical := (fs.realpath workspaceRoot).getD workspaceRoot
  let sessionsRoot := dataDirSessionsRoot dataDir canonical
  fs.mkdir sessionsRoot
  return ⟨sessionsRoot, canonical⟩

end build

def createHandle (store : SessionStore) (sessionId : JsString) : SessionHandle :=
  ⟨sessionId, sessionHandlePath store.sessionsRoot sessionId⟩

variable (fs : FsAdapter) (localeCompare : JsString → JsString → Int) (loadSummary : LoadSummary)

/-- What the loop of `collectFromDir` pushes for one session file. -/
def summaryOf (name fullPath : JsString) : SessionSummary :=
  let id := (sessionIdFromPath fullPath).getD name
  let loaded := loadSummary.bind fun load => load fullPath
  ⟨loaded.getD ⟨id, 0, 0, none, none⟩, fullPath, fs.mtimeMs fullPath⟩

def collectFromDir (dir : JsString) : List SessionSummary :=
  (fs.readdir dir).filterMap fun name =>
    let fullPath := join [dir, name.val]
    if isManagedSessionFile fullPath then some (summaryOf fs loadSummary name.val fullPath)
    else none

def listSessions (store : SessionStore) : List SessionSummary :=
  let legacy :=
    match legacySessionsRoot store.sessionsRoot with
    | some legacyRoot => collectFromDir fs loadSummary legacyRoot
    | none => []
  sortSessionSummaries localeCompare (collectFromDir fs loadSummary store.sessionsRoot ++ legacy)

def latestSession (store : SessionStore) : Except SessionStoreError SessionSummary :=
  match store.listSessions fs localeCompare loadSummary with
  | [] => .error (.noSessions store.sessionsRoot)
  | summary :: _ => .ok summary

def resolveReference (store : SessionStore) (reference : JsString) :
    Except SessionStoreError SessionHandle :=
  if isSessionReferenceAlias reference then
    (store.latestSession fs localeCompare loadSummary).map fun summary => ⟨summary.id, summary.path⟩
  else
    let candidate :=
      if isAbsolute reference then reference else join [store.workspaceRoot, reference]
    let hasExtension := extname reference ≠ []
    let hasDirectoryPart := slash ∈ reference
    if hasExtension ∨ hasDirectoryPart then
      if fs.pathExists candidate then
        .ok ⟨(sessionIdFromPath candidate).getD reference, candidate⟩
      else .error (.notFound reference store.sessionsRoot)
    else
      let found := sessionExtensions.findSome? fun ext =>
        let p := join [store.sessionsRoot, reference ++ (js "." ++ ext)]
        if fs.pathExists p then some p else none
      match found with
      | some p => .ok ⟨reference, p⟩
      | none => .error (.notFound reference store.sessionsRoot)

end SessionStore

end Solarcido.Sessions
