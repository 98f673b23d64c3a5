import Solarcido.Crates.Directories
import Solarcido.Crates.Runtime
import Solarcido.Crates.SessionRecords
import Solarcido.Lib.Lines

namespace Solarcido.Crates

open LinkedTree PathBuf RustText ThrowingProgram

def sessionVersion : U32 := 1

structure SessionSnapshot where
  version : U32
  id : RustString
  model : RustString
  reasoningEffort : RustString
  systemPrompt : RustString
  createdAtMs : U64
  updatedAtMs : U64
  messages : List InputMessage

abbrev SessionM := EStateM RuntimeError Disk

/-- An error of the system, with what it has kept from happening. -/
def orFailed {α : Type} (what : RustString) (x : IoM α) : SessionM α := fun disk =>
  match x disk with
  | .ok a disk' => .ok a disk'
  | .error e disk' => .error (.message (what ++ str ": " ++ e.text)) disk'

section save

-- How a float is written.
variable (floatText : UInt64 → RustString)

/-- `serde_json::to_string`, which the types of a record cannot make fail. -/
def SessionRecord.text (record : SessionRecord) : RustString := record.serialize.display floatText

def writeRecord (file : Location) (record : SessionRecord) : SessionM Unit :=
  modify fun disk => disk.append file (utf8 (record.text floatText ++ ['\n']))

/-- The first record of a file. -/
def SessionSnapshot.metadata (snapshot : SessionSnapshot) (nowMs : U64) : SessionRecord :=
  .metadata snapshot.version snapshot.id snapshot.model snapshot.reasoningEffort
    snapshot.systemPrompt snapshot.createdAtMs nowMs

/-- The directory a session's file is in. -/
def makeSessionDir (path : PathBuf) : SessionM Unit :=
  match path.parent with
  | some parent => orFailed (str "failed to create session directory") (Disk.createDirAll parent)
  | none => pure ()

def createSession (path : PathBuf) : SessionM Location :=
  orFailed (str "failed to write session") fun disk =>
    match disk.create path with
    | .ok (file, created) => .ok file created
    | .error e => .error e disk

def saveSnapshot (path : PathBuf) (snapshot : SessionSnapshot) (nowMs : U64) : SessionM Unit := do
  makeSessionDir path
  let file ← createSession path
  writeRecord floatText file (snapshot.metadata nowMs)
  snapshot.messages.forM fun message => writeRecord floatText file (.message message)

end save

section load

-- What `serde_json` says of a text it cannot read as a record.
variable (serde : SerdeJson) (reason : RustString → RustString)

/-- The records read so far. -/
structure Reading where
  metadata : Option (U32 × RustString × RustString × RustString × RustString × U64 × U64)
  messages : List InputMessage

def readLine (s : Reading) (line : Bytes) : Except RuntimeError Reading :=
  match fromUtf8 line with
  | none => .error (.message (str "failed to read session: stream did not contain valid UTF-8"))
  | some line =>
    if trim line = [] then .ok s
    else
      match (serde.fromStr line).bind SessionRecord.deserialize with
      | none => .error (.message (str "invalid session record: " ++ reason line))
      | some (.metadata version id model reasoningEffort systemPrompt createdAtMs updatedAtMs) =>
        .ok ⟨some (version, id, model, reasoningEffort, systemPrompt, createdAtMs, updatedAtMs),
          s.messages⟩
      | some (.message message) => .ok ⟨s.metadata, s.messages ++ [message]⟩

def loadSnapshot (files : Files) (path : PathBuf) : Except RuntimeError SessionSnapshot := do
  let content ← (readFile files path).mapError fun e =>
    RuntimeError.message (str "failed to read session: " ++ e.text)
  let read ← (Lines.lines 10 13 content).foldlM (readLine serde reason) ⟨none, []⟩
  match read.metadata with
  | none => .error (.message (str "session is missing metadata"))
  | some (version, id, model, reasoningEffort, systemPrompt, createdAtMs, updatedAtMs) =>
    if version ≠ sessionVersion then
      .error (.message (str "unsupported session version " ++ decimal version.val ++
        str "; expected " ++ decimal sessionVersion.val))
    else .ok ⟨version, id, model, reasoningEffort, systemPrompt, createdAtMs, updatedAtMs,
      read.messages⟩

end load

section text

theorem utf8_append (s t : RustString) : utf8 (s ++ t) = utf8 s ++ utf8 t := List.flatMap_append

theorem newline_of_encodeCodePoint {n : Nat} (hn : n < 0x110000)
    (h : 10 ∈ Utf8.encodeCodePoint n) : n = 10 := by
  have hbyte : ∀ m, (10 : UInt8) = UInt8.ofNat m → m % 256 = 10 := by
    intro m hm
    have hval := congrArg UInt8.toNat hm
    rw [UInt8.toNat_ofNat'] at hval
    exact hval.symm
  rw [Utf8.encodeCodePoint] at h
  split at h
  · have hm := hbyte n (List.mem_singleton.mp h)
    omega
  · exfalso
    split at h
    · simp only [List.mem_cons, List.not_mem_nil, or_false] at h
      obtain h | h := h <;> have hm := hbyte _ h <;> omega
    · split at h
      · simp only [List.mem_cons, List.not_mem_nil, or_false] at h
        obtain h | h | h := h <;> have hm := hbyte _ h <;> omega
      · simp only [List.mem_cons, List.not_mem_nil, or_false] at h
        obtain h | h | h | h := h <;> have hm := hbyte _ h <;> omega

/-- The byte of a line's end stands for that only. -/
theorem newline_not_mem_utf8 {s : RustString} (h : '\n' ∉ s) : 10 ∉ utf8 s := by
  intro hmem
  obtain ⟨c, hc, hbyte⟩ := List.mem_flatMap.mp hmem
  have hscalar := Text.isScalar_toNat c
  have hlt : c.toNat < 0x110000 := by
    unfold Text.IsScalar at hscalar
    omega
  have hten : c.toNat = '\n'.toNat := newline_of_encodeCodePoint hlt hbyte
  exact h (Char.toNat_inj.mp hten ▸ hc)

end text

section roundTrip

variable (serde : SerdeJson) (floatText : UInt64 → RustString) (reason : RustString → RustString)

/-- What is relied on of `serde_json` for a record: it is printed on one line, and its text is
read as what was printed. -/
structure PrintsBack (record : SessionRecord) : Prop where
  oneLine : '\n' ∉ record.text floatText
  readsBack : serde.fromStr (record.text floatText) = some record.serialize

theorem SessionRecord.text_closed (record : SessionRecord) :
    ∃ front, record.text floatText = front ++ ['\x7d'] := by
  cases record with
  | metadata => exact ⟨_, rfl⟩
  | message => exact ⟨_, rfl⟩

theorem SessionRecord.trim_text_ne_nil (record : SessionRecord) :
    trim (record.text floatText) ≠ [] := by
  obtain ⟨front, hfront⟩ := record.text_closed floatText
  rw [hfront]
  exact trim_ne_nil List.mem_concat_self (by decide)

theorem SessionRecord.utf8_text_last (record : SessionRecord) :
    (utf8 (record.text floatText)).getLast? ≠ some 13 := by
  obtain ⟨front, hfront⟩ := record.text_closed floatText
  have hlast : (utf8 ['\x7d']).getLast? = some 125 := by decide
  rw [hfront, utf8_append, List.getLast?_append, hlast]
  exact fun h => by cases h

/-- The bytes of some records. -/
def recordBytes (records : List SessionRecord) : Bytes :=
  Lines.unlines 10 (records.map fun record => utf8 (record.text floatText))

theorem recordBytes_cons (record : SessionRecord) (records : List SessionRecord) :
    recordBytes floatText (record :: records) =
      utf8 (record.text floatText ++ ['\n']) ++ recordBytes floatText records := by
  rw [recordBytes, List.map_cons, Lines.unlines, List.flatMap_cons, utf8_append]
  rfl

theorem lines_recordBytes {records : List SessionRecord}
    (h : ∀ record ∈ records, PrintsBack serde floatText record) :
    Lines.lines 10 13 (recordBytes floatText records) =
      records.map fun record => utf8 (record.text floatText) := by
  apply Lines.lines_unlines
  · intro line hline
    obtain ⟨record, hrecord, rfl⟩ := List.mem_map.mp hline
    exact newline_not_mem_utf8 (h record hrecord).oneLine
  · intro line hline
    obtain ⟨record, -, rfl⟩ := List.mem_map.mp hline
    exact record.utf8_text_last floatText

theorem readLine_text {record : SessionRecord} (h : PrintsBack serde floatText record)
    (s : Reading) : readLine serde reason s (utf8 (record.text floatText)) =
      .ok (match record with
      | .metadata version id model reasoningEffort systemPrompt createdAtMs updatedAtMs =>
        ⟨some (version, id, model, reasoningEffort, systemPrompt, createdAtMs, updatedAtMs),
          s.messages⟩
      | .message message => ⟨s.metadata, s.messages ++ [message]⟩) := by
  have hblank : trim (record.text floatText) ≠ [] := by
    intro hblank
    have hnone := serde.fromStr_blank _ hblank
    rw [h.readsBack] at hnone
    cases hnone
  rw [readLine, fromUtf8_utf8]
  simp only [if_neg hblank, h.readsBack, Option.bind_some, SessionRecord.deserialize_serialize]
  cases record <;> rfl

theorem readLines_messages {messages : List InputMessage}
    (h : ∀ message ∈ messages, PrintsBack serde floatText (.message message)) (s : Reading) :
    ((messages.map SessionRecord.message).map fun record =>
        utf8 (record.text floatText)).foldlM (readLine serde reason) s =
      .ok ⟨s.metadata, s.messages ++ messages⟩ := by
  induction messages generalizing s with
  | nil =>
    rw [List.append_nil]
    rfl
  | cons message messages ih =>
    have hrest := ih (fun m hm => h m (List.mem_cons_of_mem message hm))
      ⟨s.metadata, s.messages ++ [message]⟩
    rw [List.append_assoc, List.singleton_append] at hrest
    rw [List.map_cons, List.map_cons, List.foldlM_cons,
      readLine_text serde floatText reason (h message List.mem_cons_self)]
    exact hrest

/-- The records of a snapshot. -/
def SessionSnapshot.records (snapshot : SessionSnapshot) (nowMs : U64) : List SessionRecord :=
  snapshot.metadata nowMs :: snapshot.messages.map SessionRecord.message

/-- A snapshot as it is saved. -/
def SessionSnapshot.stored (snapshot : SessionSnapshot) (nowMs : U64) : SessionSnapshot :=
  { snapshot with updatedAtMs := nowMs }

theorem loadSnapshot_of_file {files : Files} {path : PathBuf} {l : Location}
    {snapshot : SessionSnapshot} {nowMs : U64} (hversion : snapshot.version = sessionVersion)
    (hserde : ∀ record ∈ snapshot.records nowMs, PrintsBack serde floatText record)
    (hpath : canonicalize files path = .ok l)
    (hfile : files.node l = some (.file (recordBytes floatText (snapshot.records nowMs)))) :
    loadSnapshot serde reason files path = .ok (snapshot.stored nowMs) := by
  have hmessages : ∀ message ∈ snapshot.messages,
      PrintsBack serde floatText (SessionRecord.message message) :=
    fun message hmem => hserde _ (List.mem_cons_of_mem _ (List.mem_map_of_mem hmem))
  have hread : ((snapshot.records nowMs).map fun record =>
      utf8 (record.text floatText)).foldlM (readLine serde reason) ⟨none, []⟩ =
        .ok ⟨some (snapshot.version, snapshot.id, snapshot.model, snapshot.reasoningEffort,
          snapshot.systemPrompt, snapshot.createdAtMs, nowMs), snapshot.messages⟩ := by
    rw [SessionSnapshot.records, List.map_cons, List.foldlM_cons,
      readLine_text serde floatText reason (hserde _ List.mem_cons_self)]
    exact readLines_messages serde floatText reason hmessages _
  rw [loadSnapshot, readFile_ok hpath hfile]
  simp only [Except.mapError, bind, Except.bind, lines_recordBytes serde floatText hserde, hread]
  exact if_neg (not_not.mpr hversion)

end roundTrip

section saved

variable (floatText : UInt64 → RustString)

theorem orFailed_keeps {α : Type} {R : Disk → Disk → Prop} {what : RustString} {x : IoM α}
    (h : Keeps R x) : Keeps R (orFailed what x) := by
  intro disk
  have hx := h disk
  rw [Ends] at hx ⊢
  rw [orFailed]
  cases hrun : x disk <;> rw [hrun] at hx <;> exact hx

theorem makeSessionDir_keeps (path : PathBuf) : Keeps Disk.Extends (makeSessionDir path) := by
  rw [makeSessionDir]
  split
  · exact orFailed_keeps (createDirAllIn_keeps _ _)
  · exact keeps_pure isFrame_extends ()

theorem createSession_ends (path : PathBuf) (disk : Disk) : Ends (createSession path) disk
    (fun file disk' => ∃ e, leadsTo disk.files path = .ok e ∧ e.place = file ∧
      disk.files.PutAt disk'.files file [])
    (fun _ disk' => disk' = disk) := by
  rw [Ends]
  cases hcreate : disk.create path with
  | error e =>
    simp only [createSession, orFailed, hcreate]
  | ok result =>
    simp only [createSession, orFailed, hcreate]
    exact create_putAt hcreate

/-- Each record gets behind what a file has. -/
theorem writeRecords_putAt {file : Location} {before : Files} {disk : Disk} {content : Bytes}
    (h : before.PutAt disk.files file content) (messages : List InputMessage) :
    ∃ disk', messages.forM (fun message => writeRecord floatText file (.message message)) disk =
        .ok () disk' ∧
      before.PutAt disk'.files file
        (content ++ recordBytes floatText (messages.map SessionRecord.message)) := by
  induction messages generalizing disk content with
  | nil => exact ⟨disk, rfl, by rw [List.map_nil]; exact (List.append_nil content).symm ▸ h⟩
  | cons message messages ih =>
    obtain ⟨disk', hrun, hput⟩ := ih (h.trans (append_putAt
      (utf8 ((SessionRecord.message message).text floatText ++ ['\n'])) h.now))
    refine ⟨disk', hrun, ?_⟩
    rw [List.map_cons, recordBytes_cons, ← List.append_assoc]
    exact hput

/-- A snapshot that is saved is put where its path leads, once there are its directories. -/
theorem saveSnapshot_ends (path : PathBuf) (snapshot : SessionSnapshot) (nowMs : U64)
    (disk : Disk) : Ends (saveSnapshot floatText path snapshot nowMs) disk
      (fun _ disk' => ∃ dirs e, makeSessionDir path disk = .ok () dirs ∧
        leadsTo dirs.files path = .ok e ∧
        dirs.files.PutAt disk'.files e.place (recordBytes floatText (snapshot.records nowMs)))
      (fun _ disk' => disk.Extends disk') := by
  have hkeeps := makeSessionDir_keeps path disk
  cases hdirs : makeSessionDir path disk with
  | error e dirs =>
    rw [Ends, hdirs] at hkeeps
    rw [Ends, saveSnapshot, bind_of_error hdirs]
    exact hkeeps
  | ok _ dirs =>
    rw [Ends, hdirs] at hkeeps
    refine ends_bind_of_ok hdirs (ends_bind ((createSession_ends path dirs).mono ?_ ?_))
    · rintro file created ⟨e, hleads, hplace, hput⟩
      have hfirst := hput.trans (append_putAt
        (utf8 ((snapshot.metadata nowMs).text floatText ++ ['\n'])) hput.now)
      obtain ⟨disk', hrun, hall⟩ := writeRecords_putAt floatText hfirst snapshot.messages
      refine ends_bind_of_ok (rfl : _ = EStateM.Result.ok PUnit.unit _) ?_
      rw [Ends, hrun]
      refine ⟨dirs, e, rfl, hleads, ?_⟩
      rw [hplace, SessionSnapshot.records, recordBytes_cons]
      exact hall
    · rintro error disk' rfl
      exact hkeeps

variable (serde : SerdeJson) (reason : RustString → RustString)

/-- A snapshot of the current version that has been saved is read back as it has been saved, and
the file holds its records and nothing else, whatever was there before. -/
theorem loadSnapshot_saveSnapshot {disk disk' : Disk} {path : PathBuf}
    {snapshot : SessionSnapshot} {nowMs : U64} (hversion : snapshot.version = sessionVersion)
    (hserde : ∀ record ∈ snapshot.records nowMs, PrintsBack serde floatText record)
    (hsave : saveSnapshot floatText path snapshot nowMs disk = .ok () disk') :
    loadSnapshot serde reason disk'.files path = .ok (snapshot.stored nowMs) ∧
      readFile disk'.files path = .ok (recordBytes floatText (snapshot.records nowMs)) := by
  obtain ⟨dirs, e, -, hleads, hput⟩ :=
    ends_of_ok (saveSnapshot_ends floatText path snapshot nowMs disk) hsave
  have hpath := canonicalize_of_leadsTo hput.grows hleads hput.real
  exact ⟨loadSnapshot_of_file serde floatText reason hversion hserde hpath hput.now,
    readFile_ok hpath hput.now⟩

/-- A snapshot with two lines in its texts. -/
def twoLines : SessionSnapshot where
  version := 1
  id := str "s"
  model := str "solar-pro3"
  reasoningEffort := str "low"
  systemPrompt := str "be\nbrief"
  createdAtMs := 1
  updatedAtMs := 1
  messages := [.userText (str "hé\n")]

/-- A reader of its records. -/
def twoLinesReader : SerdeJson where
  fromStr s :=
    if s = (twoLines.metadata 2).text fun _ => [] then some (twoLines.metadata 2).serialize
    else if s = (SessionRecord.message (.userText (str "hé\n"))).text fun _ => [] then
      some (SessionRecord.message (.userText (str "hé\n"))).serialize
    else none
  fromStr_blank s h := by
    split
    · next hs =>
      rw [hs] at h
      exact absurd h (SessionRecord.trim_text_ne_nil _ _)
    · split
      · next hs =>
        rw [hs] at h
        exact absurd h (SessionRecord.trim_text_ne_nil _ _)
      · rfl

/-- A longer file in the place of the session's. -/
def longerFile : Disk where
  files := {
    node
      | [] => some .dir
      | [n] => if n.val = [115] then some (.file (List.replicate 1000 10)) else none
      | _ => none
    root := rfl
    parents l n hsome := by
      match l with
      | [] => rfl
      | [m] => cases hsome
      | first :: second :: rest => cases hsome }
  written := []

theorem twoLines_printsBack :
    ∀ record ∈ twoLines.records 2, PrintsBack twoLinesReader (fun _ => []) record := by
  refine List.forall_mem_cons.mpr ⟨⟨by decide +kernel, ?_⟩, List.forall_mem_cons.mpr
    ⟨⟨by decide +kernel, ?_⟩, List.forall_mem_nil _⟩⟩
  · simp only [twoLinesReader, if_true]
  · have hne : (SessionRecord.message (.userText (str "hé\n"))).text (fun _ => []) ≠
        (twoLines.metadata 2).text fun _ => [] := by decide +kernel
    simp only [twoLinesReader, if_neg hne, if_true]

theorem twoLines_loaded : ∃ disk',
    saveSnapshot (fun _ => []) [[115]] twoLines 2 longerFile = .ok () disk' ∧
      loadSnapshot twoLinesReader (fun _ => []) disk'.files [[115]] = .ok (twoLines.stored 2) ∧
      readFile disk'.files [[115]] = .ok (recordBytes (fun _ => []) (twoLines.records 2)) := by
  refine ⟨_, rfl, ?_⟩
  exact loadSnapshot_saveSnapshot (fun _ => []) twoLinesReader (fun _ => []) rfl
    twoLines_printsBack (rfl : saveSnapshot _ _ _ _ longerFile = _)

end saved

end Solarcido.Crates
