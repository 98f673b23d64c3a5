import Solarcido.Crates.EditFile
import Solarcido.Crates.Places

namespace Solarcido.Crates

open LinkedTree PathBuf RustText

section sizes

/-- A `usize` of a 64-bit target. -/
abbrev Usize := U64

/-- `a.saturating_add(b)`. -/
def saturatingAdd (a b : Usize) : Usize := ⟨min (a.val + b.val) (2 ^ 64 - 1), by omega⟩

/-- `a + b`, checked. -/
def addUsize (a b : Usize) : Except Panic Usize :=
  if h : a.val + b.val < 2 ^ 64 then .ok ⟨a.val + b.val, h⟩
  else .error ⟨str "attempt to add with overflow"⟩

variable {α : Type}

/-- `items[start..finish]`. -/
def slice (items : List α) (start finish : Nat) : Except Panic (List α) :=
  if finish < start then
    .error ⟨str "slice index starts at " ++ decimal start ++ str " but ends at " ++ decimal finish⟩
  else if items.length < finish then
    .error ⟨str "range end index " ++ decimal finish ++ str " out of range for slice of length " ++
      decimal items.length⟩
  else .ok ((items.take finish).drop start)

/-- The items with an index from `start` on and in front of `finish`. -/
def between (items : List α) (start finish : Nat) : List α :=
  (items.zipIdx.filter fun (_, i) => start ≤ i ∧ i < finish).map Prod.fst

theorem between_eq (items : List α) (start finish : Nat) :
    between items start finish = (items.take finish).drop start := by
  suffices h : ∀ k, ((items.zipIdx k).filter fun (_, i) => start ≤ i ∧ i < finish).map Prod.fst =
      (items.take (finish - k)).drop (start - k) from h 0
  induction items with
  | nil => simp
  | cons item items ih =>
    intro k
    rw [List.zipIdx_cons, List.filter_cons]
    by_cases hfinish : k < finish
    · obtain ⟨rest, hrest⟩ : ∃ rest, finish - k = rest + 1 := ⟨finish - k - 1, by omega⟩
      have hnext : finish - (k + 1) = rest := by omega
      rw [hrest, List.take_succ_cons, ← hnext]
      by_cases hstart : start ≤ k
      · have hzero : start - k = 0 := by omega
        have hzero' : start - (k + 1) = 0 := by omega
        have hih := ih (k + 1)
        rw [hzero', List.drop_zero] at hih
        rw [if_pos (by simp [hstart, hfinish]), List.map_cons, hih, hzero, List.drop_zero]
      · obtain ⟨more, hmore⟩ : ∃ more, start - k = more + 1 := ⟨start - k - 1, by omega⟩
        have hnext' : start - (k + 1) = more := by omega
        rw [if_neg (by simp [hstart]), ih, hmore, List.drop_succ_cons, hnext']
    · have hzero : finish - k = 0 := by omega
      have hzero' : finish - (k + 1) = 0 := by omega
      have hih := ih (k + 1)
      rw [hzero', List.take_zero, List.drop_nil] at hih
      rw [if_neg (by simp [hfinish]), hih, hzero, List.take_zero, List.drop_nil]

end sizes

def maxReadBytes : Nat := 10 * 1024 * 1024

/-- Why a tool gives nothing: an error it returns, or a panic. -/
inductive ToolStop where
  | error (message : RustString)
  | panic (panic : Panic)

section call

variable (input : Value)

/-- The offset of a call. -/
def offsetOf : Usize := ((input.get (str "offset")).bind Value.u64).getD 0

/-- The limit of a call. -/
def limitOf : Option Usize := (input.get (str "limit")).bind Value.u64

end call

namespace WorkspaceTools

variable (self : WorkspaceTools) (files : Files)

section reading

-- How long a directory is said to be.
variable (dirLength : Location → Nat)

/-- `fs::metadata(path)`, of which the length is read, with the text of its error. -/
def metadataLen (p : PathBuf) : Except RustString Nat :=
  match canonicalize files p with
  | .error e => .error e.text
  | .ok l =>
    match files.node l with
    | some (.file content) => .ok content.length
    | _ => .ok (dirLength l)

/-- The lines of a range as one text. -/
def selectedText (lines : List RustString) (offset finish : Nat) : Except Panic RustString :=
  if offset ≤ lines.length then (slice lines offset finish).map (RustText.join (str "\n"))
  else .ok []

/-- What the tool says of a file. -/
def readReport (filePath content : RustString) (numLines startLine totalLines : Nat) : RustString :=
  (Value.object [
    (str "file", .object [
      (str "content", .string content),
      (str "filePath", .string filePath),
      (str "numLines", .number (.int numLines)),
      (str "startLine", .number (.int startLine)),
      (str "totalLines", .number (.int totalLines))]),
    (str "type", .string (str "text"))]).text

/-- `read_file`. -/
def readFile (input : Value) : Except ToolStop RustString := do
  let path ← (stringArg input (str "path")).mapError ToolStop.error
  let offset := offsetOf input
  let limit := limitOf input
  let resolved ← (self.resolveExisting files path).mapError ToolStop.error
  let length ← (metadataLen files dirLength resolved).mapError ToolStop.error
  if maxReadBytes < length then
    throw (.error (str "file is too large (" ++ decimal length ++ str " bytes, max " ++
      decimal maxReadBytes ++ str " bytes)"))
  let content ← (readFileText files resolved).mapError ToolStop.error
  let lines := lines content
  let finish := (limit.map fun limit => min (saturatingAdd offset limit).val lines.length).getD
    lines.length
  let selected ← (selectedText lines offset.val finish).mapError ToolStop.panic
  let startLine ← (addUsize offset 1).mapError ToolStop.panic
  return readReport (self.relative resolved) selected (finish - min offset.val finish) startLine.val
    lines.length

end reading

/-- A file of the workspace that can be read: `path` leads to it, and it holds `content`. -/
structure ReadableFile (tools : WorkspaceTools) (files : Files) (path content : RustString)
    (l : Location) : Prop where
  there : canonicalize files (tools.resolveCandidate path) = .ok l
  inside : ∃ root, canonicalize files tools.cwd = .ok root ∧ root <+: l
  holds : files.node l = some (.file (utf8 content))
  fits : (utf8 content).length ≤ maxReadBytes

/-- The end of the lines that a call asks for. -/
def askedEnd (input : Value) (content : RustString) : Nat :=
  match limitOf input with
  | some limit => min ((offsetOf input).val + limit.val) (lines content).length
  | none => (lines content).length

/-- The lines that a call asks for. -/
def askedLines (input : Value) (content : RustString) : List RustString :=
  between (lines content) (offsetOf input).val (askedEnd input content)

/-- The call gives the lines it asks for, with their number and the place of the first. -/
def ReadsExactly (dirLength : Location → Nat) (input : Value) (content : RustString)
    (l : Location) : Prop :=
  self.readFile files dirLength input = .ok (readReport (self.relative (pathOf l))
    (RustText.join (str "\n") (askedLines input content)) (askedLines input content).length
    ((offsetOf input).val + 1) (lines content).length)

section window

theorem linesFrom_length_le (piece s : RustString) : (linesFrom piece s).length ≤ s.length + 1 := by
  induction s generalizing piece with
  | nil => cases piece <;> simp [linesFrom]
  | cons c s ih =>
    rw [linesFrom]
    split
    · exact Nat.succ_le_succ (ih [])
    · exact (ih (c :: piece)).trans (Nat.le_succ _)

theorem length_le_utf8 (s : RustString) : s.length ≤ (utf8 s).length := by
  induction s with
  | nil => exact Nat.le_refl 0
  | cons c s ih =>
    have hcons : utf8 (c :: s) = Utf8.encodeCodePoint c.toNat ++ utf8 s := List.flatMap_cons
    have hpos : 0 < (Utf8.encodeCodePoint c.toNat).length := by
      rw [Utf8.encodeCodePoint]
      split_ifs <;> simp
    rw [hcons, List.length_append, List.length_cons]
    omega

variable {self files} {path content : RustString} {l : Location}

theorem ReadableFile.lines_lt (h : self.ReadableFile files path content l) :
    (lines content).length < 2 ^ 64 := by
  have hlines := linesFrom_length_le [] content
  have hbytes := (length_le_utf8 content).trans h.fits
  have hmax : maxReadBytes < 2 ^ 64 - 1 := by decide
  change (linesFrom [] content).length < 2 ^ 64
  omega

theorem ReadableFile.resolves (h : self.ReadableFile files path content l) :
    self.resolveExisting files path = .ok (pathOf l) := by
  obtain ⟨root, hroot, hbelow⟩ := h.inside
  have hinside : self.ensureInside files (pathOf l) = .ok () :=
    (self.ensureInside_ok_iff (pathOf l)).mpr ⟨root, hroot, startsWith_pathOf.mpr hbelow⟩
  rw [resolveExisting, h.there]
  change (self.ensureInside files (pathOf l) >>= fun _ => _) = _
  rw [hinside]
  rfl

theorem ReadableFile.canonical (h : self.ReadableFile files path content l) :
    canonicalize files (pathOf l) = .ok l :=
  canonicalize_pathOf ⟨_, h.holds, fun route heq => by cases heq⟩

theorem ReadableFile.metadata (h : self.ReadableFile files path content l)
    (dirLength : Location → Nat) :
    metadataLen files dirLength (pathOf l) = .ok (utf8 content).length := by
  rw [metadataLen, h.canonical]
  simp only [h.holds]

theorem ReadableFile.reads (h : self.ReadableFile files path content l) :
    readFileText files (pathOf l) = .ok content := by
  rw [readFileText, h.canonical]
  simp only [h.holds, fromUtf8_utf8]

/-- The end that the code cuts at is the end of what is asked for. -/
theorem end_eq (input : Value) (hlines : (lines content).length < 2 ^ 64) :
    ((limitOf input).map fun limit => min (saturatingAdd (offsetOf input) limit).val
      (lines content).length).getD (lines content).length = askedEnd input content := by
  rw [askedEnd]
  cases limitOf input with
  | none => rfl
  | some limit =>
    simp only [Option.map_some, Option.getD_some, saturatingAdd]
    omega

theorem askedEnd_le (input : Value) (content : RustString) :
    askedEnd input content ≤ (lines content).length := by
  rw [askedEnd]
  split
  · exact Nat.min_le_right _ _
  · exact Nat.le_refl _

theorem askedLines_eq (input : Value) (content : RustString) : askedLines input content =
    ((lines content).take (askedEnd input content)).drop (offsetOf input).val := between_eq _ _ _

theorem askedLines_length (input : Value) (content : RustString) :
    (askedLines input content).length =
      askedEnd input content - min (offsetOf input).val (askedEnd input content) := by
  have hle := askedEnd_le input content
  rw [askedLines_eq, List.length_drop, List.length_take]
  omega

/-- Cutting the lines out never fails, and past the end there are none. -/
theorem selectedText_asked (input : Value) (content : RustString) :
    selectedText (lines content) (offsetOf input).val (askedEnd input content) =
      .ok (RustText.join (str "\n") (askedLines input content)) := by
  have hle := askedEnd_le input content
  rw [selectedText]
  split
  · next hoffset =>
    have hstart : (offsetOf input).val ≤ askedEnd input content := by
      rw [askedEnd]
      split
      · exact Nat.le_min.mpr ⟨Nat.le_add_right _ _, hoffset⟩
      · exact hoffset
    rw [slice, if_neg (by omega), if_neg (by omega), askedLines_eq]
    rfl
  · next hoffset =>
    have hnone : askedLines input content = [] := by
      rw [askedLines_eq, List.drop_eq_nil_iff, List.length_take]
      omega
    rw [hnone]
    rfl

/-- On a readable file only the number of the first line can fail. -/
theorem readFile_readable (h : self.ReadableFile files path content l)
    (dirLength : Location → Nat) {input : Value} (hpath : stringArg input (str "path") = .ok path) :
    self.readFile files dirLength input =
      ((addUsize (offsetOf input) 1).mapError ToolStop.panic).map fun startLine =>
        readReport (self.relative (pathOf l))
          (RustText.join (str "\n") (askedLines input content)) (askedLines input content).length
          startLine.val (lines content).length := by
  have hfits : ¬ maxReadBytes < (utf8 content).length := Nat.not_lt.mpr h.fits
  unfold readFile
  simp only [hpath, h.resolves, h.metadata, h.reads, Except.mapError, bind, Except.bind, hfits,
    if_false, pure, Except.pure, end_eq input h.lines_lt, selectedText_asked, askedLines_length]
  cases addUsize (offsetOf input) 1 <;> rfl

theorem addUsize_one (offset : Usize) : (∃ next, addUsize offset 1 = .ok next ∧
    next.val = offset.val + 1) ∧ offset.val < 2 ^ 64 - 1 ∨
    (∃ p, addUsize offset 1 = .error p) ∧ offset.val = 2 ^ 64 - 1 := by
  have hone : ((1 : Usize) : Nat) = 1 := rfl
  have hlt := offset.isLt
  rw [addUsize]
  split
  · exact .inl ⟨⟨_, rfl, rfl⟩, by omega⟩
  · exact .inr ⟨⟨_, rfl⟩, by omega⟩

/-- A readable file is read exactly at every offset and limit but the last offset there is. -/
theorem readsExactly_iff (h : self.ReadableFile files path content l)
    (dirLength : Location → Nat) {input : Value} (hpath : stringArg input (str "path") = .ok path) :
    self.ReadsExactly files dirLength input content l ↔ (offsetOf input).val < 2 ^ 64 - 1 := by
  rw [ReadsExactly, readFile_readable h dirLength hpath]
  obtain ⟨⟨next, hnext, hval⟩, hlt⟩ | ⟨⟨p, hpanic⟩, hlast⟩ := addUsize_one (offsetOf input)
  · rw [hnext]
    simp only [Except.mapError, Except.map, hval, hlt]
  · rw [hpanic, hlast]
    simp [Except.mapError, Except.map]

end window

section sample

/-- A file `a` with two lines. -/
def twoLines : Files where
  node
    | [] => some .dir
    | [n] => if n.val = [97] then some (.file (utf8 (str "x\ny"))) else none
    | _ => none
  root := rfl
  parents l n hsome := by
    cases l with
    | nil => rfl
    | cons m l =>
      cases l with
      | nil => cases hsome
      | cons m' l => cases hsome

def readInput (offset : Nat) : Value := .object [
  (str "limit", .number (.int (2 ^ 64 - 1))),
  (str "offset", .number (.int offset)),
  (str "path", .string (str "a"))]

theorem twoLines_readable :
    ReadableFile ⟨[[]]⟩ twoLines (str "a") (str "x\ny") [⟨[97], by decide⟩] where
  there := rfl
  inside := ⟨[], rfl, List.nil_prefix⟩
  holds := rfl
  fits := by decide

theorem readsExactly_second : ReadsExactly ⟨[[]]⟩ twoLines (fun _ => 4096) (readInput 1)
    (str "x\ny") [⟨[97], by decide⟩] :=
  (readsExactly_iff twoLines_readable (fun _ => 4096) rfl).mpr (by decide)

theorem readFile_last_offset :
    ReadableFile ⟨[[]]⟩ twoLines (str "a") (str "x\ny") [⟨[97], by decide⟩] ∧
      ¬ ReadsExactly ⟨[[]]⟩ twoLines (fun _ => 4096) (readInput 18446744073709551615)
        (str "x\ny") [⟨[97], by decide⟩] := by
  refine ⟨twoLines_readable, ?_⟩
  have hlast : addUsize (offsetOf (readInput 18446744073709551615)) 1 =
      .error ⟨str "attempt to add with overflow"⟩ := rfl
  rw [ReadsExactly, readFile_readable twoLines_readable _ rfl, hlast]
  simp [Except.mapError, Except.map]

end sample

end WorkspaceTools

end Solarcido.Crates
