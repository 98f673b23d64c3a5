import Solarcido.Tools.World
import Solarcido.Js.LowerCase

namespace Solarcido.Tools

open Text

section outputLimits

def MAX_COMMAND_STREAM_CHARS : Nat := 16000

def MAX_READ_OUTPUT_CHARS : Nat := 100000

def MAX_SEARCH_OUTPUT_CHARS : Nat := 40000

inductive ClampMode where
  | head
  | headTail
  deriving DecidableEq

/-- The head takes seven tenths, rounded up. -/
def clampText (text : JsString) (maxChars : Nat) (mode : ClampMode) (hint : JsString) : JsString :=
  if text.length ≤ maxChars then text
  else
    let omitted := text.length - maxChars
    let suffix := if hint.isEmpty then [] else js " — " ++ hint
    let marker := js "\n…[" ++ Number.decimal omitted ++ js " characters truncated" ++ suffix ++
      js "]…\n"
    match mode with
    | .headTail =>
      let headChars := (7 * maxChars + 9) / 10
      let tailChars := maxChars - headChars
      text.take headChars ++ marker ++ text.drop (text.length - tailChars)
    | .head => text.take maxChars ++ marker

end outputLimits

def DEFAULT_SKIPPED_DIRS : List JsString :=
  [js ".git", js "node_modules", js "dist", js ".next", js "coverage"]

def MAX_FILE_BYTES : Nat := 1024 * 1024

def MAX_PDF_BYTES : Nat := 16 * 1024 * 1024

def isPdfPath (target : JsString) : Bool := endsWith (trimEnd (toLowerCase target)) (js ".pdf")

variable {ε : Type} (host : Host ε)

/-- `path.resolve(root)`. -/
def resolveRoot (root : JsString) : Path := resolve host.cwd root

def resolveInsideRoot (root target : JsString) : Except Thrown Path :=
  let resolvedRoot := resolveRoot host root
  let resolved := resolve resolvedRoot target
  -- A relative path of this platform is never absolute.
  if startsWith (relative resolvedRoot resolved) (js "..") then
    .error (.error (js "Path escapes the working directory: " ++ target))
  else .ok resolved

/-- `path.relative(root, p)`. -/
def shownPath (root : JsString) (p : Path) : JsString := relative (resolveRoot host root) p

section walking

variable (includeHidden : Bool)

def skipped (name : JsString) (n : Node) : Bool :=
  (!includeHidden && startsWith name (js ".")) ||
    (n.isDirectory && DEFAULT_SKIPPED_DIRS.contains name)

def inOrder {α : Type} (entries : List (JsString × List α)) : List α :=
  (entries.mergeSort fun a b => host.localeLe a.1 b.1).flatMap Prod.snd

variable (depth : JsNumber)

mutual

/-- The rows of a directory: each path, and whether it is a directory. -/
def walkDirectory (dir : Path) (currentDepth : Nat) : Node → List (Path × Bool)
  | .file _ => []
  | .dir children =>
    if (JsNumber.ofInt currentDepth).gt depth then []
    else inOrder host (walkChildren dir currentDepth children)

def walkChildren (dir : Path) (currentDepth : Nat) :
    List (JsString × Node) → List (JsString × List (Path × Bool))
  | [] => []
  | (name, n) :: rest =>
    if skipped includeHidden name n then walkChildren dir currentDepth rest
    else
      let children :=
        if n.isDirectory && depth.gt (JsNumber.ofInt currentDepth) then
          walkDirectory (dir ++ [name]) (currentDepth + 1) n
        else []
      (name, (dir ++ [name], n.isDirectory) :: children) :: walkChildren dir currentDepth rest

end

mutual

def collectFiles (dir : Path) (currentDepth : Nat) : Node → List Path
  | .file _ => []
  | .dir children =>
    if (JsNumber.ofInt currentDepth).gt depth then []
    else inOrder host (collectChildren dir currentDepth children)

def collectChildren (dir : Path) (currentDepth : Nat) :
    List (JsString × Node) → List (JsString × List Path)
  | [] => []
  | (name, n) :: rest =>
    if skipped includeHidden name n then collectChildren dir currentDepth rest
    else
      let files :=
        if n.isDirectory then collectFiles (dir ++ [name]) (currentDepth + 1) n
        else [dir ++ [name]]
      (name, files) :: collectChildren dir currentDepth rest

end

end walking

def listFiles (root targetPath : JsString) (depth : JsNumber) (includeHidden : Bool)
    (fs : FileSystem) : Except Thrown JsString := do
  let resolved ← resolveInsideRoot host root targetPath
  let node ← stat fs resolved
  if !node.isDirectory then throw (.error (js "Not a directory: " ++ targetPath))
  let rows := walkDirectory host includeHidden depth resolved 0 node
  let relativeRows := rows.map fun row =>
    shownPath host root row.1 ++ if row.2 then js "/" else []
  let output := join (js "\n") relativeRows
  return if output.isEmpty then js "<empty directory>" else output

section windows

def numberString (n : JsNumber) : JsString :=
  match n with
  | .nan => js "NaN"
  | .infinite negative => if negative then js "-Infinity" else js "Infinity"
  | .finite q => host.numberText q

/-- The place an argument of `slice` stands for in a list of some length. -/
def slicePlace (n : JsNumber) (length : Nat) : Nat :=
  match n with
  | .nan => 0
  | .infinite negative => if negative then 0 else length
  | .finite q =>
    let k : Int := if q < 0 then -(-q).floor else q.floor
    if k < 0 then (length + k).toNat else Nat.min k.toNat length

def normalizeLineWindow (totalLines : Nat) (offset limit : Option JsNumber) :
    JsNumber × JsNumber :=
  let start := (JsNumber.ofInt 1).max (offset.getD (.ofInt 1)).floor
  let cappedLimit := match limit with
    | none => .ofInt totalLines
    | some limit => (JsNumber.ofInt 1).max limit.floor
  (start, (JsNumber.ofInt totalLines).min ((start.add cappedLimit).addInt (-1)))

def padStart (width : Nat) (s : JsString) : JsString :=
  List.replicate (width - s.length) 32 ++ s

def withLineNumbers (content : JsString) (offset limit : Option JsNumber) : JsString :=
  let lines := splitLines content
  let (start, last) := normalizeLineWindow lines.length offset limit
  let width := (numberString host last).length
  let window := (lines.take (slicePlace last lines.length)).drop
    (slicePlace (start.addInt (-1)) lines.length)
  join (js "\n") (window.zipIdx.map fun (line, index) =>
    padStart width (numberString host (start.addInt index)) ++ js " | " ++ line)

end windows

def readFile (root targetPath : JsString) (offset limit : Option JsNumber) (fs : FileSystem) :
    Except Thrown JsString := do
  let resolved ← resolveInsideRoot host root targetPath
  if isPdfPath (pathText resolved) then
    let node ← stat fs resolved
    if node.size > MAX_PDF_BYTES then
      throw (.error (js "PDF is too large (" ++ Number.decimal node.size ++ js " bytes; limit " ++
        Number.decimal MAX_PDF_BYTES ++ js ")."))
    let bytes ← readBytes fs resolved
    let text ← host.extractTextFromBytes bytes
    return clampText (if text.isEmpty then js "<no extractable text in PDF>" else text)
      MAX_READ_OUTPUT_CHARS .head []
  else
    let node ← stat fs resolved
    if node.size > MAX_FILE_BYTES && limit.isNone then
      throw (.error (js "File is large (" ++ Number.decimal node.size ++
        js " bytes). Read it with offset and limit."))
    let content ← readText fs resolved
    let rendered :=
      if offset.isSome || limit.isSome then withLineNumbers host content offset limit else content
    return clampText rendered MAX_READ_OUTPUT_CHARS .head
      (js "read again with offset/limit to see more")

section searching

def escapeRegExp (value : JsString) : JsString :=
  value.flatMap fun u => if (js ".*+?^$\x7b\x7d()|[]\\").contains u then [92, u] else [u]

def buildSearchRegex (pattern : JsString) (caseSensitive regex : Bool) :
    Except Thrown (JsString → Bool) :=
  host.regExp (if regex then pattern else escapeRegExp pattern) (!caseSensitive)

/-- The rows of one file, added while there are fewer than `maxResults`. -/
def searchLines (matches_ : JsString → Bool) (shown : JsString) (maxResults : JsNumber) :
    Nat → List JsString → List JsString → List JsString
  | _, [], rows => rows
  | index, line :: lines, rows =>
    if !maxResults.gt (.ofInt rows.length) then rows
    else if matches_ line then
      searchLines matches_ shown maxResults (index + 1) lines
        (rows ++ [shown ++ js ":" ++ Number.decimal (index + 1) ++ js ": " ++ line])
    else searchLines matches_ shown maxResults (index + 1) lines rows

def searchEach (root : JsString) (matches_ : JsString → Bool) (maxResults : JsNumber)
    (fs : FileSystem) : List Path → List JsString → Except Thrown (List JsString)
  | [], rows => .ok rows
  | file :: files, rows =>
    if !maxResults.gt (.ofInt rows.length) then .ok rows
    else do
      let node ← stat fs file
      if node.size > MAX_FILE_BYTES then searchEach root matches_ maxResults fs files rows
      else
        match readText fs file with
        | .error _ => searchEach root matches_ maxResults fs files rows
        | .ok content =>
          searchEach root matches_ maxResults fs files
            (searchLines matches_ (shownPath host root file) maxResults 0 (splitLines content) rows)

end searching

def searchFiles (root pattern targetPath : JsString) (maxResults : JsNumber)
    (caseSensitive regex : Bool) (fs : FileSystem) : Except Thrown JsString := do
  if pattern.isEmpty then throw (.error (js "pattern is required."))
  let resolved ← resolveInsideRoot host root targetPath
  let node ← stat fs resolved
  let files :=
    if node.isDirectory then collectFiles host false (.ofInt 25) resolved 0 node else [resolved]
  let searchRegex ← buildSearchRegex host pattern caseSensitive regex
  let rows ← searchEach host root searchRegex maxResults fs files []
  let output := join (js "\n") rows
  return clampText (if output.isEmpty then js "<no matches>" else output) MAX_SEARCH_OUTPUT_CHARS
    .head (js "narrow the pattern or path")

def writeFile (root targetPath content : JsString) : Action ε JsString := do
  let resolved ← orThrow (resolveInsideRoot host root targetPath)
  writing fun fs => mkdirRecursive fs resolved.dropLast
  writing fun fs => writeText fs resolved content
  return js "Wrote " ++ shownPath host root resolved

/-- The text of an edit, and how many places it changes. -/
def editText (targetPath oldString newString : JsString) (replaceAll : Bool)
    (content : JsString) : Except Thrown (JsString × Nat) :=
  let matches_ := (split content oldString).length - 1
  if matches_ = 0 then
    .error (.error (js "Could not find old_string in " ++ targetPath ++ js "."))
  else if matches_ > 1 && !replaceAll then
    .error (.error (js "old_string appears " ++ Number.decimal matches_ ++ js " times in " ++
      targetPath ++ js "; set replace_all true or provide more context."))
  else if replaceAll then .ok (join newString (split content oldString), matches_)
  else .ok (replaceFirst content oldString newString, matches_)

def editFile (root targetPath oldString newString : JsString) (replaceAll : Bool) :
    Action ε JsString :=
  if oldString.isEmpty then throw (.error (js "old_string must not be empty."))
  else do
    let resolved ← orThrow (resolveInsideRoot host root targetPath)
    let content ← reading fun fs => readText fs resolved
    let (updated, matches_) ← orThrow (editText targetPath oldString newString replaceAll content)
    writing fun fs => writeText fs resolved updated
    return js "Edited " ++ shownPath host root resolved ++ js " (" ++
      Number.decimal (if replaceAll then matches_ else 1) ++ js " replacement" ++
      (if matches_ = 1 then [] else js "s") ++ js ")"

section commands

def formatCommandOutput (stdout stderr exitCode : JsString) : JsString :=
  let out := trim stdout
  let err := trim stderr
  let clamp := fun text =>
    clampText text MAX_COMMAND_STREAM_CHARS .headTail (js "re-run with a narrower command")
  join (js "\n\n")
    ([js "exit_code: " ++ exitCode] ++
      (if out.isEmpty then [] else [js "stdout:\n" ++ clamp out]) ++
      if err.isEmpty then [] else [js "stderr:\n" ++ clamp err])

def commandOutput : ExecOutcome → JsString
  | .finished stdout stderr => formatCommandOutput stdout stderr (js "0")
  | .failed stdout stderr message code signal killed =>
    let exitCode :=
      if killed then js "timeout" ++ (signal.map (js ":" ++ ·)).getD [] else code.getD (js "1")
    let shownError := match stderr with
      | some text => if text.isEmpty then message else text
      | none => message
    formatCommandOutput (stdout.getD []) shownError exitCode

def runCommand (root command : JsString) (timeoutMs : Option JsNumber) : Action ε JsString :=
  fun w =>
    let (outcome, env, fs) := host.exec root command (timeoutMs.getD (.ofInt 60000)) w.env w.fs
    .ok (commandOutput outcome) { w with env, fs }

end commands

end Solarcido.Tools
