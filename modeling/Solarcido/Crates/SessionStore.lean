import Solarcido.Crates.SessionFiles

namespace Solarcido.Crates

open LinkedTree PathBuf RustText ThrowingProgram

/-- A store of sessions; `root` is an absolute path. -/
structure SessionStore where
  root : PathBuf

/-- A call of `save`, and the time it is made at. -/
structure Save where
  snapshot : SessionSnapshot
  nowMs : U64

def Save.id (s : Save) : RustString := s.snapshot.id

/-- A selector that is a path itself. -/
def isPath (selector : RustString) : Bool :=
  selector.head? = some '/' || (str ".jsonl").isSuffixOf selector

namespace SessionStore

variable (self : SessionStore)

def pathForId (id : RustString) : PathBuf := joinPath self.root (utf8 (id ++ str ".jsonl"))

def latestPath : PathBuf := joinPath self.root (utf8 (str "latest"))

section code

variable (floatText : UInt64 → RustString) (serde : SerdeJson) (reason : RustString → RustString)
  (files : Files) (cwd : PathBuf)

/-- The directories that are made for a session. -/
def makeDirs (id : RustString) : SessionM Unit := do
  orFailed (str "failed to create session directory") (Disk.createDirAll self.root)
  makeSessionDir (self.pathForId id)

def updateLatest (id : RustString) : SessionM Unit :=
  orFailed (str "failed to update latest session pointer") fun disk =>
    match disk.write self.latestPath (utf8 id) with
    | .ok written => .ok () written
    | .error e => .error e disk

def save (s : Save) : SessionM PathBuf := do
  orFailed (str "failed to create session directory") (Disk.createDirAll self.root)
  let path := self.pathForId s.id
  saveSnapshot floatText path s.snapshot s.nowMs
  self.updateLatest s.id
  pure path

/-- A selector that is a relative path starts from `cwd`. -/
def resolveSelector (selector : RustString) : Except RuntimeError PathBuf :=
  if isPath selector then .ok (joinPath cwd (utf8 selector))
  else if selector = str "latest" then
    match readFile files self.latestPath with
    | .error e =>
      .error (.message (str "failed to read latest session pointer: " ++ e.text))
    | .ok content =>
      match fromUtf8 content with
      | none => .error (.message (str "failed to read latest session pointer: " ++
          str "stream did not contain valid UTF-8"))
      | some id => .ok (self.pathForId (trim id))
  else .ok (self.pathForId selector)

def load (selector : RustString) : Except RuntimeError SessionSnapshot := do
  let path ← self.resolveSelector files cwd selector
  loadSnapshot serde reason files path

end code

section recalls

variable (floatText : UInt64 → RustString) (serde : SerdeJson) (reason : RustString → RustString)
  (cwd : PathBuf)

/-- The disks that saves lead to, and the saves that have succeeded on the way. -/
inductive Reached (Allowed : Disk → List Save → Save → Prop) (start : Disk) :
    List Save → Disk → Prop
  | start : Reached Allowed start [] start
  | saved {saved : List Save} {disk disk' : Disk} {s : Save} {path : PathBuf}
      (h : Reached Allowed start saved disk) (hallowed : Allowed disk saved s)
      (hsave : self.save floatText s disk = .ok path disk') :
      Reached Allowed start (saved ++ [s]) disk'
  | failed {saved : List Save} {disk disk' : Disk} {s : Save} {e : RuntimeError}
      (h : Reached Allowed start saved disk)
      (hsave : self.save floatText s disk = .error e disk') :
      Reached Allowed start saved disk'

def lastSaved (id : RustString) (saved : List Save) : Option Save :=
  saved.reverse.find? fun s => s.id = id

/-- What is promised of a store. -/
structure Recalls (store : SessionStore) (files : Files) (saved : List Save) : Prop where
  each : ∀ id s, lastSaved id saved = some s →
    store.load serde reason files cwd id = .ok (s.snapshot.stored s.nowMs)
  latest : ∀ s, saved.getLast? = some s →
    store.load serde reason files cwd (str "latest") = .ok (s.snapshot.stored s.nowMs)

def PlaceOf (files : Files) (p : PathBuf) (l : Location) : Prop :=
  ∃ e, leadsTo files p = .ok e ∧ e.place = l

/-- A save that `load` can find: its id means itself, and is saved in a file of its own. -/
structure Fits (store : SessionStore) (disk : Disk) (saved : List Save) (s : Save) : Prop where
  version : s.snapshot.version = sessionVersion
  notPath : isPath s.id = false
  trimmed : trim s.id = s.id
  notShadowing : str "latest" ∈ saved.map Save.id → s.id = str "latest"
  apart : ∀ l, PlaceOf (finalState (store.makeDirs s.id disk)).files (store.pathForId s.id) l →
    ¬ PlaceOf (finalState (store.makeDirs s.id disk)).files store.latestPath l ∧
      ∀ t ∈ saved, t.id ≠ s.id →
        ¬ PlaceOf (finalState (store.makeDirs s.id disk)).files (store.pathForId t.id) l

theorem lastSaved_append (id : RustString) (saved : List Save) (s : Save) :
    lastSaved id (saved ++ [s]) = if s.id = id then some s else lastSaved id saved := by
  rw [lastSaved, List.reverse_append, List.reverse_singleton, List.singleton_append,
    List.find?_cons]
  by_cases h : s.id = id
  · rw [if_pos h, decide_eq_true h]
  · rw [if_neg h, decide_eq_false h]
    rfl

theorem mem_of_lastSaved {id : RustString} {saved : List Save} {s : Save}
    (h : lastSaved id saved = some s) : s ∈ saved ∧ s.id = id :=
  ⟨List.mem_reverse.mp (List.mem_of_find?_eq_some h),
    of_decide_eq_true (List.find?_some (p := fun s : Save => decide (s.id = id)) h)⟩

section ids

/-- What the saves of a run say of themselves. -/
structure Sound (saved : List Save) : Prop where
  version : ∀ s ∈ saved, s.snapshot.version = sessionVersion
  notPath : ∀ s ∈ saved, isPath s.id = false
  trimmed : ∀ s ∈ saved, trim s.id = s.id
  notShadowed : ∀ s, saved.getLast? = some s → str "latest" ∈ saved.map Save.id →
    s.id = str "latest"

theorem sound_nil : Sound [] :=
  ⟨List.forall_mem_nil _, List.forall_mem_nil _, List.forall_mem_nil _, fun s h => by cases h⟩

theorem Sound.append {saved : List Save} {s : Save} (h : Sound saved)
    (hversion : s.snapshot.version = sessionVersion) (hpath : isPath s.id = false)
    (htrim : trim s.id = s.id)
    (hshadow : str "latest" ∈ saved.map Save.id → s.id = str "latest") : Sound (saved ++ [s]) := by
  have hboth {P : Save → Prop} (hsaved : ∀ t ∈ saved, P t) (hs : P s) :
      ∀ t ∈ saved ++ [s], P t := by
    intro t ht
    obtain ht | ht := List.mem_append.mp ht
    · exact hsaved t ht
    · rw [List.mem_singleton.mp ht]
      exact hs
  refine ⟨hboth h.version hversion, hboth h.notPath hpath, hboth h.trimmed htrim, ?_⟩
  intro t ht hmem
  rw [List.getLast?_concat] at ht
  cases ht
  rw [List.map_append, List.map_singleton, List.mem_append] at hmem
  obtain hmem | hmem := hmem
  · exact hshadow hmem
  · exact (List.mem_singleton.mp hmem).symm

/-- Where "latest" has been saved as an id, what is saved last has been saved under it. -/
theorem Sound.last_of_latest {saved : List Save} {s : Save} (h : Sound saved)
    (hs : lastSaved (str "latest") saved = some s) : saved.getLast? = some s := by
  obtain ⟨hmem, hid⟩ := mem_of_lastSaved hs
  cases saved using List.reverseRecOn with
  | nil => cases hmem
  | append_singleton saved t =>
    have ht := h.notShadowed t List.getLast?_concat (hid ▸ List.mem_map_of_mem hmem)
    rw [lastSaved_append, if_pos ht] at hs
    rw [List.getLast?_concat, hs]

end ids

section invariant

variable {self floatText} {files files' : Files} {saved : List Save}

/-- The path of an id leads to a file, which is not the pointer. -/
def HasFile (store : SessionStore) (files : Files) (id : RustString) (content : Bytes) : Prop :=
  ∃ l, canonicalize files (store.pathForId id) = .ok l ∧ files.node l = some (.file content) ∧
    canonicalize files store.latestPath ≠ .ok l

/-- The files of the saved sessions, and the pointer, which is none of them. -/
structure Kept (store : SessionStore) (floatText : UInt64 → RustString) (files : Files)
    (saved : List Save) : Prop where
  sessions : ∀ id s, lastSaved id saved = some s →
    store.HasFile files id (recordBytes floatText (s.snapshot.records s.nowMs))
  pointer : ∀ s, saved.getLast? = some s → ∃ l,
    canonicalize files store.latestPath = .ok l ∧ files.node l = some (.file (utf8 s.id))

theorem Kept.nil : Kept self floatText files [] :=
  ⟨fun _ _ h => (by cases h), fun _ h => (by cases h)⟩

theorem Kept.pointer_of_mem (h : Kept self floatText files saved) {s : Save} (hs : s ∈ saved) :
    ∃ l id, canonicalize files self.latestPath = .ok l ∧ files.node l = some (.file (utf8 id)) := by
  obtain ⟨t, ht⟩ : ∃ t, saved.getLast? = some t :=
    ⟨_, List.getLast?_eq_getLast_of_ne_nil (List.ne_nil_of_mem hs)⟩
  obtain ⟨l, hl, hfile⟩ := h.pointer t ht
  exact ⟨l, t.id, hl, hfile⟩

theorem Kept.extends (h : Kept self floatText files saved) (hext : files.Extends files') :
    Kept self floatText files' saved := by
  refine ⟨fun id s hs => ?_, fun s hs => ?_⟩
  · obtain ⟨l, hpath, hfile, hne⟩ := h.sessions id s hs
    obtain ⟨lp, -, hlp, -⟩ := h.pointer_of_mem (mem_of_lastSaved hs).1
    refine ⟨l, canonicalize_grows hext.grows hpath, hext l _ hfile, ?_⟩
    rw [canonicalize_grows hext.grows hlp]
    rw [hlp] at hne
    exact hne
  · obtain ⟨l, hpath, hfile⟩ := h.pointer s hs
    exact ⟨l, canonicalize_grows hext.grows hpath, hext l _ hfile⟩

end invariant

section steps

/-- What a save that succeeds does to the files: directories are made, the snapshot is put where
its path leads, and then the pointer. -/
structure Written (store : SessionStore) (floatText : UInt64 → RustString) (s : Save)
    (dirs middle after : Files) (p q : Location) : Prop where
  path : PlaceOf dirs (store.pathForId s.id) p
  snapshot : dirs.PutAt middle p (recordBytes floatText (s.snapshot.records s.nowMs))
  latest : PlaceOf middle store.latestPath q
  pointer : middle.PutAt after q (utf8 s.id)

theorem makeDirs_keeps (id : RustString) : Keeps Disk.Extends (self.makeDirs id) :=
  keeps_bind isFrame_extends (orFailed_keeps (createDirAllIn_keeps _ _))
    fun _ => makeSessionDir_keeps _

theorem updateLatest_ends (id : RustString) (disk : Disk) : Ends (self.updateLatest id) disk
    (fun _ disk' => ∃ q, PlaceOf disk.files self.latestPath q ∧
      disk.files.PutAt disk'.files q (utf8 id))
    (fun _ disk' => disk' = disk ∧ ∀ l content, canonicalize disk.files self.latestPath = .ok l →
      disk.files.node l ≠ some (.file content)) := by
  rw [Ends]
  cases hwrite : disk.write self.latestPath (utf8 id) with
  | ok written =>
    obtain ⟨e, hleads, hput⟩ := write_putAt hwrite
    simp only [updateLatest, orFailed, hwrite]
    exact ⟨e.place, ⟨e, hleads, rfl⟩, hput⟩
  | error error =>
    simp only [updateLatest, orFailed, hwrite]
    refine ⟨trivial, fun l content hl hfile => ?_⟩
    obtain ⟨disk', hok, -⟩ := write_ok (utf8 id) (canonicalize_ok_iff.mp hl)
      (Tree.writable_found hfile)
    rw [hwrite] at hok
    cases hok

/-- A save that fails changes nothing that was there, if the pointer was. -/
theorem save_ends (s : Save) (disk : Disk) : Ends (self.save floatText s) disk
    (fun _ disk' => ∃ middle p q, self.Written floatText s
      (finalState (self.makeDirs s.id disk)).files middle disk'.files p q)
    (fun _ disk' => disk.Extends disk' ∨
      ∀ l content, canonicalize disk.files self.latestPath = .ok l →
        disk.files.node l ≠ some (.file content)) := by
  have hkeeps : Keeps Disk.Extends (orFailed (str "failed to create session directory")
      (Disk.createDirAll self.root)) := orFailed_keeps (createDirAllIn_keeps _ _)
  have hmade := hkeeps disk
  rw [Ends] at hmade
  cases hroot : orFailed (str "failed to create session directory")
      (Disk.createDirAll self.root) disk with
  | error e rootMade =>
    rw [hroot] at hmade
    rw [Ends, save, bind_of_error hroot]
    exact Or.inl hmade
  | ok _ rootMade =>
    rw [hroot] at hmade
    refine ends_bind_of_ok hroot (ends_bind
      ((saveSnapshot_ends floatText (self.pathForId s.id) s.snapshot s.nowMs rootMade).mono ?_ ?_))
    · rintro _ middle ⟨dirs, e, hdirs, hleads, hput⟩
      have hmake : self.makeDirs s.id disk = .ok () dirs := (bind_of_ok hroot _).trans hdirs
      refine ends_bind ((self.updateLatest_ends s.id middle).mono ?_ ?_)
      · rintro _ after ⟨q, hlatest, hpointer⟩
        refine ⟨middle.files, e.place, q, ?_⟩
        rw [hmake]
        exact ⟨⟨e, hleads, rfl⟩, hput, hlatest, hpointer⟩
      · rintro error after ⟨rfl, hnone⟩
        refine Or.inr fun l content hl hfile => ?_
        have hdirsKept := self.makeDirs_keeps s.id disk
        rw [Ends, hmake] at hdirsKept
        have hgrows := hdirsKept.grows.trans hput.grows
        obtain ⟨content', hcontent⟩ := hgrows.file hfile
        exact hnone l content' (canonicalize_grows hgrows hl) hcontent
    · intro error after hext
      exact Or.inl (hmade.trans hext)

variable {self floatText} {dirs middle after : Files} {s : Save} {saved : List Save}
  {p q : Location}

theorem Written.apart (h : self.Written floatText s dirs middle after p q)
    (hpointer : ¬ PlaceOf dirs self.latestPath p) : q ≠ p := by
  obtain ⟨e, hleads, hplace⟩ := h.latest
  intro hqp
  obtain ⟨e', hleads', hplace'⟩ := leadsTo_back h.snapshot hleads (hplace.trans hqp)
  exact hpointer ⟨e', hleads', hplace'⟩

theorem Written.canonicalize_path (h : self.Written floatText s dirs middle after p q) :
    canonicalize after (self.pathForId s.id) = .ok p := by
  obtain ⟨e, hleads, rfl⟩ := h.path
  exact canonicalize_of_leadsTo (h.snapshot.grows.trans h.pointer.grows) hleads
    (h.pointer.grows.real h.snapshot.real)

theorem Written.canonicalize_latest (h : self.Written floatText s dirs middle after p q) :
    canonicalize after self.latestPath = .ok q := by
  obtain ⟨e, hleads, rfl⟩ := h.latest
  exact canonicalize_of_leadsTo h.pointer.grows hleads h.pointer.real

theorem Written.hasFile (h : self.Written floatText s dirs middle after p q) (hqp : q ≠ p) :
    self.HasFile after s.id (recordBytes floatText (s.snapshot.records s.nowMs)) := by
  refine ⟨p, h.canonicalize_path, ?_, ?_⟩
  · rw [h.pointer.others p hqp.symm]
    exact h.snapshot.now
  · rw [h.canonicalize_latest]
    exact fun heq => hqp (Except.ok.inj heq)

/-- A session in a file of its own is left alone. -/
theorem HasFile.written {id : RustString} {content : Bytes} (hfile : self.HasFile dirs id content)
    (h : self.Written floatText s dirs middle after p q)
    (hpointer : ∃ l, canonicalize dirs self.latestPath = .ok l)
    (hother : ¬ PlaceOf dirs (self.pathForId id) p) : self.HasFile after id content := by
  obtain ⟨l, hpath, hnode, hne⟩ := hfile
  obtain ⟨lp, hlp⟩ := hpointer
  have hgrows := h.snapshot.grows.trans h.pointer.grows
  have hsame : q = lp :=
    Except.ok.inj (h.canonicalize_latest.symm.trans (canonicalize_grows hgrows hlp))
  have hlq : l ≠ q := by
    rintro rfl
    exact hne (hsame ▸ hlp)
  have hnot : l ≠ p := by
    rintro rfl
    exact hother ⟨.found l, canonicalize_ok_iff.mp hpath, rfl⟩
  refine ⟨l, canonicalize_grows hgrows hpath, ?_, ?_⟩
  · rw [h.pointer.others l hlq, h.snapshot.others l hnot]
    exact hnode
  · rw [h.canonicalize_latest]
    exact fun heq => hlq (Except.ok.inj heq).symm

/-- A save in a file of its own keeps what has been saved under other ids. -/
theorem Kept.append (h : Kept self floatText dirs saved)
    (hwritten : self.Written floatText s dirs middle after p q)
    (hpointer : ¬ PlaceOf dirs self.latestPath p)
    (hothers : ∀ t ∈ saved, t.id ≠ s.id → ¬ PlaceOf dirs (self.pathForId t.id) p) :
    Kept self floatText after (saved ++ [s]) := by
  refine ⟨fun id t ht => ?_, fun t ht => ?_⟩
  · rw [lastSaved_append] at ht
    by_cases hid : s.id = id
    · rw [if_pos hid] at ht
      cases ht
      exact hid ▸ hwritten.hasFile (hwritten.apart hpointer)
    · rw [if_neg hid] at ht
      obtain ⟨hmem, rfl⟩ := mem_of_lastSaved ht
      obtain ⟨lp, -, hlp, -⟩ := h.pointer_of_mem hmem
      exact (h.sessions _ t ht).written hwritten ⟨lp, hlp⟩ (hothers t hmem (Ne.symm hid))
  · rw [List.getLast?_concat] at ht
    cases ht
    exact ⟨q, hwritten.canonicalize_latest, hwritten.pointer.now⟩

end steps

variable {floatText}

theorem reached_kept {start disk : Disk} {saved : List Save}
    (h : self.Reached floatText self.Fits start saved disk) :
    Sound saved ∧ Kept self floatText disk.files saved := by
  induction h with
  | start => exact ⟨sound_nil, Kept.nil⟩
  | @saved saved disk disk' s path h hfits hsave ih =>
    obtain ⟨hsound, hkept⟩ := ih
    obtain ⟨middle, p, q, hwritten⟩ := ends_of_ok (self.save_ends floatText s disk) hsave
    have hmade : disk.Extends (finalState (self.makeDirs s.id disk)) :=
      (keeps_iff.mp (self.makeDirs_keeps s.id)) disk
    obtain ⟨hpointer, hothers⟩ := hfits.apart p hwritten.path
    exact ⟨hsound.append hfits.version hfits.notPath hfits.trimmed hfits.notShadowing,
      (hkept.extends hmade).append hwritten hpointer hothers⟩
  | @failed saved disk disk' s e h hsave ih =>
    obtain ⟨hsound, hkept⟩ := ih
    refine ⟨hsound, ?_⟩
    have hends := self.save_ends floatText s disk
    rw [Ends, hsave] at hends
    obtain hext | hnone := hends
    · exact hkept.extends hext
    · cases saved with
      | nil => exact Kept.nil
      | cons t saved =>
        obtain ⟨l, id, hl, hfile⟩ := hkept.pointer_of_mem List.mem_cons_self
        exact absurd hfile (hnone l _ hl)

section loads

variable {files : Files}

theorem resolveSelector_id {id : RustString} (hpath : isPath id = false)
    (hlatest : id ≠ str "latest") :
    self.resolveSelector files cwd id = .ok (self.pathForId id) := by
  rw [resolveSelector, if_neg (by rw [hpath]; exact Bool.false_ne_true), if_neg hlatest]

theorem resolveSelector_latest {id : RustString} (htrim : trim id = id)
    (hread : readFile files self.latestPath = .ok (utf8 id)) :
    self.resolveSelector files cwd (str "latest") = .ok (self.pathForId id) := by
  rw [resolveSelector, if_neg (by decide), if_pos rfl, hread]
  simp only [fromUtf8_utf8, htrim]

theorem load_of_resolved {selector : RustString} {saved : List Save} {s : Save}
    (hkept : self.Kept floatText files saved) (hversion : s.snapshot.version = sessionVersion)
    (hserde : ∀ record ∈ s.snapshot.records s.nowMs, PrintsBack serde floatText record)
    (hs : lastSaved s.id saved = some s)
    (hresolved : self.resolveSelector files cwd selector = .ok (self.pathForId s.id)) :
    self.load serde reason files cwd selector = .ok (s.snapshot.stored s.nowMs) := by
  obtain ⟨l, hpath, hfile, -⟩ := hkept.sessions s.id s hs
  rw [load, hresolved]
  exact loadSnapshot_of_file serde floatText reason hversion hserde hpath hfile

theorem lastSaved_of_getLast {saved : List Save} {s : Save} (h : saved.getLast? = some s) :
    lastSaved s.id saved = some s := by
  cases saved using List.reverseRecOn with
  | nil => cases h
  | append_singleton saved t =>
    rw [List.getLast?_concat] at h
    cases h
    rw [lastSaved_append, if_pos rfl]

theorem load_latest {saved : List Save} {s : Save} (hsound : Sound saved)
    (hkept : self.Kept floatText files saved)
    (hserde : ∀ record ∈ s.snapshot.records s.nowMs, PrintsBack serde floatText record)
    (hs : saved.getLast? = some s) :
    self.load serde reason files cwd (str "latest") = .ok (s.snapshot.stored s.nowMs) := by
  have hmem := List.mem_of_getLast? hs
  obtain ⟨l, hlatest, hfile⟩ := hkept.pointer s hs
  exact self.load_of_resolved serde reason cwd hkept (hsound.version s hmem) hserde
    (lastSaved_of_getLast hs)
    (self.resolveSelector_latest cwd (hsound.trimmed s hmem) (readFile_ok hlatest hfile))

end loads

/-- In a run whose successful saves all fit, each saved session is found under its id, and the one
saved last as the latest. -/
theorem reached_recalls {start disk : Disk} {saved : List Save}
    (hserde : ∀ s ∈ saved, ∀ record ∈ s.snapshot.records s.nowMs,
      PrintsBack serde floatText record)
    (h : self.Reached floatText self.Fits start saved disk) :
    Recalls serde reason cwd self disk.files saved := by
  obtain ⟨hsound, hkept⟩ := self.reached_kept h
  refine ⟨fun id s hs => ?_, fun s hs => ?_⟩
  · obtain ⟨hmem, rfl⟩ := mem_of_lastSaved hs
    by_cases hlatest : s.id = str "latest"
    · have hlast := hsound.last_of_latest (hlatest ▸ hs)
      rw [hlatest]
      exact self.load_latest serde reason cwd hsound hkept (hserde s hmem) hlast
    · exact self.load_of_resolved serde reason cwd hkept (hsound.version s hmem) (hserde s hmem) hs
        (self.resolveSelector_id cwd (hsound.notPath s hmem) hlatest)
  · exact self.load_latest serde reason cwd hsound hkept (hserde s (List.mem_of_getLast? hs)) hs

end recalls

section runs

def endsOk {ε σ α : Type} : EStateM.Result ε σ α → Bool
  | .ok _ _ => true
  | .error _ _ => false

/-- A disk with nothing on it. -/
def emptyDisk : Disk where
  files := {
    node
      | [] => some .dir
      | _ => none
    root := rfl
    parents l n hsome := by
      cases l with
      | nil => rfl
      | cons m l => cases hsome }
  written := []

def smallStore : SessionStore := ⟨[[115]]⟩

/-- A session without messages. -/
def emptySession (id : RustString) : SessionSnapshot where
  version := 1
  id := id
  model := str "solar-pro3"
  reasoningEffort := str "low"
  systemPrompt := []
  createdAtMs := 1
  updatedAtMs := 1
  messages := []

/-- A reader of its one record. -/
def emptySessionReader (id : RustString) : SerdeJson where
  fromStr s :=
    if trim s = [] then none
    else if s = ((emptySession id).metadata 2).text fun _ => [] then
      some ((emptySession id).metadata 2).serialize
    else none
  fromStr_blank _ h := if_pos h

theorem placeOf_iff {files : Files} {p : PathBuf} {l : Location} :
    PlaceOf files p l ↔ (leadsTo files p).toOption.map End.place = some l := by
  rw [PlaceOf]
  cases leadsTo files p with
  | error e => simp [Except.toOption]
  | ok e => simp [Except.toOption]

theorem emptySession_fits : smallStore.Fits emptyDisk [] ⟨emptySession (str "a"), 2⟩ where
  version := rfl
  notPath := by decide
  trimmed := by decide
  notShadowing h := by cases h
  apart l hl := by
    refine ⟨fun hlatest => ?_, List.forall_mem_nil _⟩
    rw [placeOf_iff] at hl hlatest
    have hne : (leadsTo (finalState (smallStore.makeDirs (str "a") emptyDisk)).files
          (smallStore.pathForId (str "a"))).toOption.map End.place ≠
        (leadsTo (finalState (smallStore.makeDirs (str "a") emptyDisk)).files
          smallStore.latestPath).toOption.map End.place := by decide +kernel
    exact hne (hl.trans hlatest.symm)

theorem emptySession_printsBack {id : RustString}
    (hblank : trim (((emptySession id).metadata 2).text fun _ => []) ≠ [])
    (hline : '\n' ∉ ((emptySession id).metadata 2).text fun _ => []) :
    ∀ record ∈ (emptySession id).records 2,
      PrintsBack (emptySessionReader id) (fun _ => []) record := by
  refine List.forall_mem_cons.mpr ⟨⟨hline, ?_⟩, List.forall_mem_nil _⟩
  simp only [emptySessionReader, if_neg hblank, if_true]

theorem emptySession_recalled : ∃ disk : Disk, Recalls (emptySessionReader (str "a"))
    (fun _ => []) [[]] smallStore disk.files [⟨emptySession (str "a"), 2⟩] := by
  have hok : endsOk (smallStore.save (fun _ => []) ⟨emptySession (str "a"), 2⟩ emptyDisk) := by
    decide +kernel
  cases hsave : smallStore.save (fun _ => []) ⟨emptySession (str "a"), 2⟩ emptyDisk with
  | error e disk =>
    rw [hsave] at hok
    cases hok
  | ok path disk =>
    refine ⟨disk, smallStore.reached_recalls (emptySessionReader (str "a")) (fun _ => []) [[]]
      (List.forall_mem_cons.mpr
        ⟨emptySession_printsBack (by decide +kernel) (by decide +kernel), List.forall_mem_nil _⟩)
      (.saved .start emptySession_fits hsave)⟩

/-- An id with a blank behind it is saved, and is not what `latest` leads to. -/
theorem blankId_lost : ∃ (saved : List Save) (disk : Disk),
    smallStore.Reached (fun _ => []) (fun _ _ _ => True) emptyDisk saved disk ∧
      (∀ s ∈ saved, ∀ record ∈ s.snapshot.records s.nowMs,
        PrintsBack (emptySessionReader (str "a ")) (fun _ => []) record) ∧
      ¬ Recalls (emptySessionReader (str "a ")) (fun _ => []) [[]] smallStore disk.files saved := by
  have hok : endsOk (smallStore.save (fun _ => []) ⟨emptySession (str "a "), 2⟩ emptyDisk) := by
    decide +kernel
  have hlost : (smallStore.load (emptySessionReader (str "a ")) (fun _ => [])
      (finalState (smallStore.save (fun _ => []) ⟨emptySession (str "a "), 2⟩ emptyDisk)).files
        [[]] (str "latest")).toOption.isSome = false := by decide +kernel
  cases hsave : smallStore.save (fun _ => []) ⟨emptySession (str "a "), 2⟩ emptyDisk with
  | error e disk =>
    rw [hsave] at hok
    cases hok
  | ok path disk =>
    refine ⟨_, disk, .saved .start trivial hsave, List.forall_mem_cons.mpr
      ⟨emptySession_printsBack (by decide +kernel) (by decide +kernel), List.forall_mem_nil _⟩,
      fun h => ?_⟩
    rw [hsave, finalState, h.latest _ rfl] at hlost
    cases hlost

end runs

end SessionStore

end Solarcido.Crates
