import Solarcido.Lib.InsertionMap
import Solarcido.Js.Utf8
import Solarcido.Js.Value

namespace Solarcido.Tools

open Text InsertionMap

/-- An absolute path: the names from the root down. -/
abbrev Path := List JsString

/-- A file or a directory. There are no links. -/
inductive Node where
  | file (content : Bytes)
  | dir (children : List (JsString × Node))

/-- The directory at the root. -/
abbrev FileSystem := Node

section paths

def segmentStep (p : Path) (segment : JsString) : Path :=
  if segment = [] ∨ segment = js "." then p
  else if segment = js ".." then p.dropLast
  else p ++ [segment]

/-- `path.resolve(base, target)` for an absolute base. -/
def resolve (base : Path) (target : JsString) : Path :=
  (split target (js "/")).foldl segmentStep (if startsWith target (js "/") then [] else base)

def commonPrefix : Path → Path → Path
  | a :: as, b :: bs => if a = b then a :: commonPrefix as bs else []
  | _, _ => []

/-- `path.relative(first, second)` for absolute paths. -/
def relative (first second : Path) : JsString :=
  let common := (commonPrefix first second).length
  join (js "/") (List.replicate (first.length - common) (js "..") ++ second.drop common)

def pathText (p : Path) : JsString := js "/" ++ join (js "/") p

end paths

section nodes

def Node.isDirectory : Node → Bool
  | .dir _ => true
  | .file _ => false

/-- What a path leads to. -/
def nodeAt : Option Node → Path → Option Node
  | n, [] => n
  | some (.dir children), name :: rest => nodeAt (lookup name children) rest
  | _, _ :: _ => none

def fileAt (n : Option Node) (p : Path) : Option Bytes :=
  match nodeAt n p with
  | some (.file content) => some content
  | _ => none

/-- A file on the way to a path. -/
def blockedBy : Option Node → Path → Bool
  | some (.file _), _ :: _ => true
  | some (.dir children), name :: rest => blockedBy (lookup name children) rest
  | _, _ => false

/-- The tree with a file written at a path, unless a directory is there or the
parent directory is not. -/
def put (content : Bytes) : Option Node → Path → Option Node
  | some (.dir _), [] => none
  | _, [] => some (.file content)
  | some (.dir children), name :: rest =>
    (put content (lookup name children) rest).map fun n => .dir (setEntries name n children)
  | _, _ :: _ => none

/-- The tree with the directories down to a path made, unless a file is in the way. -/
def makeDirs : Option Node → Path → Option Node
  | some (.file _), _ => none
  | some (.dir children), [] => some (.dir children)
  | none, [] => some (.dir [])
  | some (.dir children), name :: rest =>
    (makeDirs (lookup name children) rest).map fun n => .dir (setEntries name n children)
  | none, name :: rest => (makeDirs none rest).map fun n => .dir [(name, n)]

theorem lookup_setEntries (k k' : JsString) (n : Node) (children : List (JsString × Node)) :
    lookup k' (setEntries k n children) = if k' = k then some n else lookup k' children := by
  induction children with
  | nil =>
    by_cases h : k' = k
    · simp [setEntries, lookup, h]
    · simp [setEntries, lookup, h, Ne.symm h]
  | cons e rest ih =>
    obtain ⟨j, m⟩ := e
    by_cases hj : j = k
    · subst hj
      by_cases h : k' = j
      · simp [setEntries, lookup, h]
      · simp [setEntries, lookup, h, Ne.symm h]
    · by_cases h : k' = k
      · subst h
        simp [setEntries, lookup, hj, ih]
      · simp [setEntries, lookup, hj, h, ih]

@[simp] theorem fileAt_nil (n : Option Node) :
    fileAt n [] = match n with
      | some (.file content) => some content
      | _ => none := by
  cases n with
  | none => rfl
  | some n => cases n <;> rfl

@[simp] theorem fileAt_dir (children : List (JsString × Node)) (name : JsString) (rest : Path) :
    fileAt (some (.dir children)) (name :: rest) = fileAt (lookup name children) rest := rfl

@[simp] theorem fileAt_none (p : Path) : fileAt none p = none := by
  cases p <;> rfl

@[simp] theorem fileAt_file (content : Bytes) (name : JsString) (rest : Path) :
    fileAt (some (.file content)) (name :: rest) = none := rfl

/-- Writing a file changes what that path holds and nothing else. -/
theorem fileAt_put {content : Bytes} {n : Option Node} {p : Path} {n' : Node}
    (h : put content n p = some n') (q : Path) :
    fileAt (some n') q = if q = p then some content else fileAt n q := by
  induction p generalizing n n' q with
  | nil =>
    match n, h with
    | none, h =>
      obtain rfl : Node.file content = n' := by simpa [put] using h
      cases q <;> simp
    | some (.file old), h =>
      obtain rfl : Node.file content = n' := by simpa [put] using h
      cases q <;> simp
    | some (.dir _), h => simp [put] at h
  | cons name rest ih =>
    match n, h with
    | none, h => simp [put] at h
    | some (.file old), h => simp [put] at h
    | some (.dir children), h =>
      obtain ⟨m, hm, rfl⟩ := Option.map_eq_some_iff.mp h
      cases q with
      | nil => simp
      | cons name' rest' =>
        rw [fileAt_dir, fileAt_dir, lookup_setEntries]
        by_cases hname : name' = name
        · subst hname
          rw [if_pos rfl, ih hm rest']
          simp
        · simp [hname]

/-- Making directories changes no file. -/
theorem fileAt_makeDirs {n : Option Node} {p : Path} {n' : Node} (h : makeDirs n p = some n')
    (q : Path) : fileAt (some n') q = fileAt n q := by
  induction p generalizing n n' q with
  | nil =>
    cases n with
    | none =>
      obtain rfl : Node.dir [] = n' := by simpa [makeDirs] using h
      cases q <;> simp [lookup]
    | some node =>
      cases node with
      | file old => simp [makeDirs] at h
      | dir children =>
        obtain rfl : Node.dir children = n' := by simpa [makeDirs] using h
        rfl
  | cons name rest ih =>
    cases n with
    | none =>
      obtain ⟨m, hm, rfl⟩ := Option.map_eq_some_iff.mp h
      cases q with
      | nil => simp
      | cons name' rest' =>
        rw [fileAt_dir, lookup]
        by_cases hname : name = name'
        · rw [if_pos hname, ih hm rest']
          simp
        · simp [hname, lookup]
    | some node =>
      cases node with
      | file old => simp [makeDirs] at h
      | dir children =>
        obtain ⟨m, hm, rfl⟩ := Option.map_eq_some_iff.mp h
        cases q with
        | nil => simp
        | cons name' rest' =>
          rw [fileAt_dir, fileAt_dir, lookup_setEntries]
          by_cases hname : name' = name
          · subst hname
            rw [if_pos rfl, ih hm rest']
          · rw [if_neg hname]

end nodes

section calls

/-- The error of a system call. -/
def systemError (code reason call : JsString) (p : Path) : Thrown :=
  let message := code ++ js ": " ++ reason ++ js ", " ++ call ++ js " '" ++ pathText p ++ js "'"
  .object ⟨true, false, some (js "Error"), some message, none, none, some code, none, none,
    js "Error: " ++ message⟩

def notFound (fs : FileSystem) (call : JsString) (p : Path) : Thrown :=
  if blockedBy (some fs) p then systemError (js "ENOTDIR") (js "not a directory") call p
  else systemError (js "ENOENT") (js "no such file or directory") call p

def stat (fs : FileSystem) (p : Path) : Except Thrown Node :=
  match nodeAt (some fs) p with
  | some n => .ok n
  | none => .error (notFound fs (js "stat") p)

def Node.size : Node → Nat
  | .file content => content.length
  | .dir _ => 0

def readBytes (fs : FileSystem) (p : Path) : Except Thrown Bytes :=
  match nodeAt (some fs) p with
  | some (.file content) => .ok content
  | some (.dir _) =>
    .error (systemError (js "EISDIR") (js "illegal operation on a directory") (js "read") p)
  | none => .error (notFound fs (js "open") p)

/-- `readFile(p, "utf8")`. -/
def readText (fs : FileSystem) (p : Path) : Except Thrown JsString :=
  (readBytes fs p).map Utf8.bufferToString

/-- `writeFile(p, text, "utf8")`. -/
def writeText (fs : FileSystem) (p : Path) (text : JsString) : Except Thrown FileSystem :=
  match put (Utf8.bufferFrom text) (some fs) p with
  | some fs' => .ok fs'
  | none =>
    match nodeAt (some fs) p with
    | some (.dir _) =>
      .error (systemError (js "EISDIR") (js "illegal operation on a directory") (js "open") p)
    | _ => .error (notFound fs (js "open") p)

/-- `mkdir(p, { recursive: true })`. -/
def mkdirRecursive (fs : FileSystem) (p : Path) : Except Thrown FileSystem :=
  match makeDirs (some fs) p with
  | some fs' => .ok fs'
  | none =>
    if blockedBy (some fs) p then
      .error (systemError (js "ENOTDIR") (js "not a directory") (js "mkdir") p)
    else .error (systemError (js "EEXIST") (js "file already exists") (js "mkdir") p)

theorem fileAt_writeText {fs fs' : FileSystem} {p : Path} {text : JsString}
    (h : writeText fs p text = .ok fs') (q : Path) :
    fileAt (some fs') q = if q = p then some (Utf8.bufferFrom text) else fileAt (some fs) q := by
  unfold writeText at h
  split at h
  · next fs'' hput =>
    obtain rfl : fs'' = fs' := by simpa using h
    exact fileAt_put hput q
  · split at h <;> simp at h

theorem fileAt_mkdirRecursive {fs fs' : FileSystem} {p : Path}
    (h : mkdirRecursive fs p = .ok fs') (q : Path) : fileAt (some fs') q = fileAt (some fs) q := by
  unfold mkdirRecursive at h
  split at h
  · next fs'' hmake =>
    obtain rfl : fs'' = fs' := by simpa using h
    exact fileAt_makeDirs hmake q
  · split at h <;> simp at h

end calls

end Solarcido.Tools
