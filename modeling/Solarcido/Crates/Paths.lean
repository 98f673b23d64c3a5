import Solarcido.Crates.Text
import Solarcido.Lib.LinkedTree

namespace Solarcido.Crates

open LinkedTree RustText

/-- The bytes of a string. -/
def utf8 (s : RustString) : Bytes := s.flatMap fun c => Utf8.encodeCodePoint c.toNat

/-- `String::from_utf8`. -/
def fromUtf8 (bytes : Bytes) : Option RustString :=
  if utf8 (fromUtf8Lossy bytes) = bytes then some (fromUtf8Lossy bytes) else none

theorem fromUtf8_utf8 (s : RustString) : fromUtf8 (utf8 s) = some s := by
  have hutf8 : utf8 s = (s.map Char.toNat).flatMap Utf8.encodeCodePoint := by
    rw [utf8, List.flatMap_map]
  have hlossy : fromUtf8Lossy (utf8 s) = s := by
    rw [fromUtf8Lossy, hutf8, Utf8.decodeFrom_encode, List.map_map]
    · exact (List.map_congr_left fun c _ => Char.ofNat_toNat c).trans (List.map_id s)
    · intro n hn
      obtain ⟨c, -, rfl⟩ := List.mem_map.mp hn
      exact Text.isScalar_toNat c
  rw [fromUtf8, hlossy, if_pos rfl]

def slash : UInt8 := 47

def dot : Bytes := [46]

def dotDot : Bytes := [46, 46]

/-- A name that something in a directory can have. -/
def IsName (b : Bytes) : Prop := b ≠ [] ∧ b ≠ dot ∧ b ≠ dotDot ∧ slash ∉ b ∧ 0 ∉ b

instance (b : Bytes) : Decidable (IsName b) := inferInstanceAs (Decidable (_ ∧ _))

abbrev FileName := { b : Bytes // IsName b }

/-- The names from the root down. -/
abbrev Location := List FileName

abbrev Files := Tree FileName Bytes

/-- An absolute path: the parts behind its first slash, as the other slashes cut them. -/
abbrev PathBuf := List Bytes

namespace PathBuf

/-- A part that is no component. -/
def isNoise (part : Bytes) : Bool := part = [] ∨ part = dot

def components (p : PathBuf) : List Bytes := p.filter fun part => !isNoise part

/-- The text of a path. -/
def bytes (p : PathBuf) : Bytes := p.flatMap fun part => slash :: part

/-- `path.display()`, and `path.to_string_lossy()`. -/
def display (p : PathBuf) : RustString := fromUtf8Lossy (bytes p)

/-- The path with these parts; one with none is the root. -/
def ofParts (parts : List Bytes) : PathBuf := if parts = [] then [[]] else parts

/-- `path.join(relative)`. -/
def join (p : PathBuf) (relative : List Bytes) : PathBuf :=
  if p.getLast? = some [] then p.dropLast ++ relative else p ++ relative

/-- `base.join(path)` for any path. -/
def joinPath (base : PathBuf) (path : Bytes) : PathBuf :=
  if path.head? = some slash then path.tail.splitOn slash else join base (path.splitOn slash)

def parent (p : PathBuf) : Option PathBuf :=
  if p.rdropWhile isNoise = [] then none
  else some (ofParts ((p.rdropWhile isNoise).dropLast.rdropWhile isNoise))

def fileName (p : PathBuf) : Option Bytes :=
  (p.rdropWhile isNoise).getLast?.filter fun part => part ≠ dotDot

def startsWith (p base : PathBuf) : Bool := (components base).isPrefixOf (components p)

/-- The parts behind some components. -/
def partsBehind : List Bytes → List Bytes → Option (List Bytes)
  | [], parts => some parts
  | component :: rest, parts =>
    match parts.dropWhile isNoise with
    | [] => none
    | part :: more => if part = component then partsBehind rest more else none

/-- `path.strip_prefix(base)`, as bytes. -/
def stripPrefix (p base : PathBuf) : Option Bytes :=
  (partsBehind (components base) p).map fun parts =>
    [slash].intercalate ((parts.dropWhile isNoise).rdropWhile isNoise)

end PathBuf

inductive IoError where
  | notFound
  | notDirectory
  | isDirectory
  | alreadyExists
  | tooManyLinks
  | nulByte

namespace IoError

def text : IoError → RustString
  | .notFound => str "No such file or directory (os error 2)"
  | .notDirectory => str "Not a directory (os error 20)"
  | .isDirectory => str "Is a directory (os error 21)"
  | .alreadyExists => str "File exists (os error 17)"
  | .tooManyLinks => str "Too many levels of symbolic links (os error 40)"
  | .nulByte => str "file name contained an unexpected NUL byte"

def ofFault : Fault → IoError
  | .notFound => .notFound
  | .notDirectory => .notDirectory
  | .loop => .tooManyLinks

end IoError

/-- The files, and where files have been written. -/
structure Disk where
  files : Files
  written : List Location

/-- So many links are followed for one path. -/
def maxLinks : Nat := 40

/-- What a part of a path stands for, if a call of the system takes it. -/
def segmentOf (part : Bytes) : Option (Segment FileName) :=
  if part = [] ∨ part = dot then some .stay
  else if part = dotDot then some .up
  else if h : IsName part then some (.name ⟨part, h⟩)
  else none

section files

variable (files : Files)

/-- Where a path leads, all links followed. -/
def leadsTo (p : PathBuf) : Except IoError (End FileName) :=
  match p.mapM segmentOf with
  | none => .error .nulByte
  | some segments => (files.walk maxLinks [] segments).mapError .ofFault

/-- `path.canonicalize()`. -/
def canonicalize (p : PathBuf) : Except IoError Location :=
  match leadsTo files p with
  | .ok (.found l) => .ok l
  | .ok (.missing _ _) => .error .notFound
  | .error e => .error e

/-- The path of a location. -/
def pathOf (l : Location) : PathBuf := PathBuf.ofParts (l.map Subtype.val)

/-- The file a path leads to. -/
def fileAt (p : PathBuf) : Option Bytes :=
  match canonicalize files p with
  | .ok l =>
    match files.node l with
    | some (.file content) => some content
    | _ => none
  | .error _ => none

/-- `path.is_file()`. -/
def isFile (p : PathBuf) : Bool := (fileAt files p).isSome

/-- `fs::read_to_string(path).ok()`. -/
def readToString (p : PathBuf) : Option RustString := (fileAt files p).bind fromUtf8

/-- `fs::create_dir_all(path)`, for a path to something that is there. -/
def createDirAll (p : PathBuf) : Except IoError Unit :=
  match canonicalize files p with
  | .error e => .error e
  | .ok l =>
    match files.node l with
    | some .dir => .ok ()
    | _ => .error .alreadyExists

end files

/-- `fs::write(path, contents)`. -/
def Disk.write (disk : Disk) (p : PathBuf) (contents : Bytes) : Except IoError Disk :=
  match leadsTo disk.files p with
  | .error e => .error e
  | .ok (.found l) =>
    match h : disk.files.node l with
    | some (.file _) => .ok ⟨disk.files.setFile l contents (Tree.writable_found h), disk.written ++ [l]⟩
    | _ => .error .isDirectory
  | .ok (.missing l n) =>
    match hdir : disk.files.node l, hnone : disk.files.node (l ++ [n]) with
    | some .dir, none =>
      .ok ⟨disk.files.setFile (l ++ [n]) contents (Tree.writable_missing hdir hnone),
        disk.written ++ [l ++ [n]]⟩
    | _, _ => .error .notFound

end Solarcido.Crates
