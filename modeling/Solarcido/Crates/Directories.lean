import Solarcido.Crates.Places
import Solarcido.Lib.GrowingTree
import Solarcido.Lib.ThrowingProgram

namespace Solarcido.Crates

open LinkedTree PathBuf ThrowingProgram

section directories

/-- `path.is_dir()`. -/
def isDir (files : Files) (p : PathBuf) : Bool :=
  match canonicalize files p with
  | .ok l =>
    match files.node l with
    | some .dir => true
    | _ => false
  | .error _ => false

/-- The call that makes one directory. A link in its place is not followed. -/
def Disk.mkdir (disk : Disk) (p : PathBuf) : Except IoError Disk :=
  match (p.rdropWhile fun part => part = []).mapM segmentOf with
  | none => .error .nulByte
  | some segments =>
    match segments.getLast? with
    | none => .error .alreadyExists
    | some last =>
      match disk.files.walk maxLinks [] segments.dropLast with
      | .error fault => .error (.ofFault fault)
      | .ok (.missing _ _) => .error .notFound
      | .ok (.found l) =>
        match hdir : disk.files.node l, last with
        | some .dir, .name n =>
          match hnone : disk.files.node (l ++ [n]) with
          | none => .ok { disk with files := disk.files.setDir l n hdir hnone }
          | some _ => .error .alreadyExists
        | some .dir, _ => .error .alreadyExists
        | _, _ => .error .notDirectory

abbrev IoM := EStateM IoError Disk

/-- A directory that is made, or is there. -/
def makeOrFind (p : PathBuf) : IoM Unit := do
  let disk ← get
  match disk.mkdir p with
  | .ok made => set made
  | .error e => if isDir disk.files p then pure () else throw e

/-- A directory, where the one above it is made first if that is missing. -/
def makeBelow (above : IoM Unit) (p : PathBuf) : IoM Unit := do
  let disk ← get
  match disk.mkdir p with
  | .error .notFound => do
    above
    makeOrFind p
  | _ => makeOrFind p

def createDirAllIn : Nat → PathBuf → IoM Unit
  | 0, p => makeBelow (throw .notFound) p
  | depth + 1, p => makeBelow (match p.parent with
    | some above => createDirAllIn depth above
    | none => throw .notFound) p

/-- `fs::create_dir_all(path)`. -/
def Disk.createDirAll (p : PathBuf) : IoM Unit := createDirAllIn (components p).length p

/-- Nothing that was there is changed. -/
def Disk.Extends (disk disk' : Disk) : Prop := disk.files.Extends disk'.files

theorem isFrame_extends : IsFrame Disk.Extends where
  refl disk := Tree.Extends.refl disk.files
  trans _ _ _ h h' := Tree.Extends.trans h h'

theorem mkdir_extends {disk disk' : Disk} {p : PathBuf} (h : disk.mkdir p = .ok disk') :
    disk.Extends disk' := by
  rw [Disk.mkdir] at h
  split at h
  · cases h
  · split at h
    · cases h
    · split at h
      · cases h
      · cases h
      · split at h
        · split at h
          · cases h
            exact Tree.setDir_extends _ _ _ ‹_› ‹_›
          · cases h
        · cases h
        · cases h

theorem makeOrFind_keeps (p : PathBuf) : Keeps Disk.Extends (makeOrFind p) := by
  intro disk
  refine ends_bind_of_ok (rfl : _ = EStateM.Result.ok disk disk) ?_
  split
  · next made hmade => exact mkdir_extends hmade
  · exact keeps_ite (fun _ => keeps_pure isFrame_extends ())
      (fun _ => keeps_throw isFrame_extends _) disk

theorem makeBelow_keeps {above : IoM Unit} (habove : Keeps Disk.Extends above) (p : PathBuf) :
    Keeps Disk.Extends (makeBelow above p) := by
  intro disk
  refine ends_bind_of_ok (rfl : _ = EStateM.Result.ok disk disk) ?_
  split
  · exact keeps_bind isFrame_extends habove (fun _ => makeOrFind_keeps p) disk
  · exact makeOrFind_keeps p disk

/-- Making directories changes nothing that was there. -/
theorem createDirAllIn_keeps (depth : Nat) (p : PathBuf) :
    Keeps Disk.Extends (createDirAllIn depth p) := by
  induction depth generalizing p with
  | zero => exact makeBelow_keeps (keeps_throw isFrame_extends _) p
  | succ depth ih =>
    refine makeBelow_keeps ?_ p
    split
    · exact ih _
    · exact keeps_throw isFrame_extends _

end directories

section files

/-- `File::create(path)`: where the file is, which is empty now. -/
def Disk.create (disk : Disk) (p : PathBuf) : Except IoError (Location × Disk) := do
  let e ← leadsTo disk.files p
  let created ← disk.write p []
  .ok (e.place, created)

/-- A file has got longer. -/
def Disk.append (disk : Disk) (file : Location) (bytes : Bytes) : Disk :=
  match h : disk.files.node file with
  | some (.file content) =>
    ⟨disk.files.setFile file (content ++ bytes) (Tree.writable_found h), disk.written ++ [file]⟩
  | _ => disk

/-- All bytes of a file that is opened and read. -/
def readFile (files : Files) (p : PathBuf) : Except IoError Bytes :=
  match canonicalize files p with
  | .error e => .error e
  | .ok l =>
    match files.node l with
    | some (.file content) => .ok content
    | some .dir => .error .isDirectory
    | _ => .error .notFound

theorem write_putAt {disk disk' : Disk} {p : PathBuf} {contents : Bytes}
    (h : disk.write p contents = .ok disk') :
    ∃ e, leadsTo disk.files p = .ok e ∧ disk.files.PutAt disk'.files e.place contents := by
  rw [Disk.write] at h
  cases hleads : leadsTo disk.files p with
  | error error =>
    rw [hleads] at h
    cases h
  | ok e =>
    rw [hleads] at h
    refine ⟨e, rfl, ?_⟩
    cases e with
    | found l =>
      simp only at h
      split at h
      · next hfile =>
        cases h
        exact Tree.putAt_setFile _ _ _ (Tree.writable_found hfile)
      · cases h
    | missing l n =>
      simp only at h
      split at h
      · next hdir hnone =>
        cases h
        exact Tree.putAt_setFile _ _ _ (Tree.writable_missing hdir hnone)
      · cases h

theorem create_putAt {disk disk' : Disk} {p : PathBuf} {file : Location}
    (h : disk.create p = .ok (file, disk')) :
    ∃ e, leadsTo disk.files p = .ok e ∧ e.place = file ∧
      disk.files.PutAt disk'.files file [] := by
  rw [Disk.create] at h
  cases hleads : leadsTo disk.files p with
  | error error =>
    rw [hleads] at h
    cases h
  | ok e =>
    rw [hleads] at h
    cases hwrite : disk.write p [] with
    | error error =>
      rw [hwrite] at h
      cases h
    | ok created =>
      rw [hwrite] at h
      cases h
      obtain ⟨e', he', hput⟩ := write_putAt hwrite
      rw [hleads] at he'
      cases he'
      exact ⟨e, rfl, rfl, hput⟩

theorem append_putAt {disk : Disk} {file : Location} {content : Bytes} (bytes : Bytes)
    (h : disk.files.node file = some (.file content)) :
    disk.files.PutAt (disk.append file bytes).files file (content ++ bytes) := by
  rw [Disk.append]
  split
  · next old hold =>
    rw [h] at hold
    cases hold
    exact Tree.putAt_setFile _ _ _ (Tree.writable_found h)
  · next hnot => exact absurd h (hnot content)

end files

section growth

variable {files files' : Files} {p : PathBuf} {l : Location}

/-- Where a path leads, it leads later too, once there is something. -/
theorem canonicalize_of_leadsTo (h : files.Grows files') {e : End FileName}
    (hleads : leadsTo files p = .ok e) (hreal : files'.Real e.place) :
    canonicalize files' p = .ok e.place := by
  obtain ⟨segments, hsegments, hwalk⟩ := leadsTo_ok_iff.mp hleads
  rw [canonicalize_walk hsegments]
  exact Tree.walk_grows h maxLinks hwalk hreal

theorem canonicalize_real (h : canonicalize files p = .ok l) : files.Real l :=
  leadsTo_isEnd (canonicalize_ok_iff.mp h)

theorem canonicalize_grows (h : files.Grows files') (hp : canonicalize files p = .ok l) :
    canonicalize files' p = .ok l :=
  canonicalize_of_leadsTo h (canonicalize_ok_iff.mp hp) (h.real (canonicalize_real hp))

theorem leadsTo_back {q : Location} {content : Bytes} (h : files.PutAt files' q content)
    {e : End FileName} (hleads : leadsTo files' p = .ok e) (hplace : e.place = q) :
    ∃ e', leadsTo files p = .ok e' ∧ e'.place = q := by
  obtain ⟨segments, hsegments, hwalk⟩ := leadsTo_ok_iff.mp hleads
  obtain ⟨e', hwalk', hplace'⟩ := h.walk_back maxLinks hplace hwalk
  exact ⟨e', leadsTo_ok_iff.mpr ⟨segments, hsegments, hwalk'⟩, hplace'⟩

theorem readFile_ok {content : Bytes} (hp : canonicalize files p = .ok l)
    (hl : files.node l = some (.file content)) : readFile files p = .ok content := by
  rw [readFile, hp]
  simp only [hl]

end growth

end Solarcido.Crates
