import Solarcido.Crates.EditFile
import Solarcido.Tools.FileOps

namespace Solarcido.Tools

open Text Search ThrowingProgram

section files

/-- Where there is a file, a file can be written. -/
theorem put_of_file {content old : Bytes} {n : Option Node} {p : Path}
    (h : nodeAt n p = some (.file old)) : ∃ n', put content n p = some n' := by
  induction p generalizing n with
  | nil =>
    obtain rfl : n = some (.file old) := by
      cases n with
      | none => exact h
      | some n => exact h
    exact ⟨.file content, rfl⟩
  | cons name rest ih =>
    match n, h with
    | some (.dir children), h =>
      obtain ⟨n', hn'⟩ := ih h
      exact ⟨.dir (InsertionMap.setEntries name n' children), by rw [put, hn', Option.map_some]⟩

theorem writeText_of_readText {fs : FileSystem} {p : Path} {content : JsString}
    (h : readText fs p = .ok content) (text : JsString) : ∃ fs', writeText fs p text = .ok fs' := by
  rw [readText, readBytes] at h
  split at h
  · next old hnode =>
    obtain ⟨n', hn'⟩ := put_of_file hnode
    exact ⟨n', by rw [writeText, hn']⟩
  · cases h
  · cases h

end files

variable {ε : Type} (host : Host ε) (root targetPath oldString newString : JsString)
  (replaceAll : Bool)

/-- The file that an edit writes, the text it writes there, and how many places it has found. -/
def edited (fs : FileSystem) : Except Thrown (Path × JsString × Nat) :=
  if oldString.isEmpty then .error (.error (js "old_string must not be empty."))
  else
    match resolveInsideRoot host root targetPath with
    | .error e => .error e
    | .ok resolved =>
      match readText fs resolved with
      | .error e => .error e
      | .ok content =>
        match editText targetPath oldString newString replaceAll content with
        | .error e => .error e
        | .ok (updated, matches_) => .ok (resolved, updated, matches_)

/-- An edit writes what it makes of the file's text. -/
theorem editFile_eq (w : World ε) :
    editFile host root targetPath oldString newString replaceAll w =
      match edited host root targetPath oldString newString replaceAll w.fs with
      | .error e => .error e w
      | .ok (resolved, updated, matches_) =>
        match writeText w.fs resolved updated with
        | .error e => .error e w
        | .ok fs => .ok (js "Edited " ++ shownPath host root resolved ++ js " (" ++
            Number.decimal (if replaceAll then matches_ else 1) ++ js " replacement" ++
            (if matches_ = 1 then [] else js "s") ++ js ")") { w with fs } := by
  rw [editFile, edited]
  cases oldString.isEmpty with
  | true => rfl
  | false =>
    simp only [Bool.false_eq_true, if_false]
    cases hresolved : resolveInsideRoot host root targetPath with
    | error e => rfl
    | ok resolved =>
      rw [bind_of_ok (orThrow_apply _ w)]
      dsimp only
      have hread := reading_apply (fun fs => readText fs resolved) w
      cases hcontent : readText w.fs resolved with
      | error e =>
        rw [hcontent] at hread
        exact bind_of_error hread _
      | ok content =>
        rw [hcontent] at hread
        rw [bind_of_ok hread]
        dsimp only
        have hedit := orThrow_apply
          (editText targetPath oldString newString replaceAll content) w
        cases htext : editText targetPath oldString newString replaceAll content with
        | error e =>
          rw [htext] at hedit
          exact bind_of_error hedit _
        | ok result =>
          rw [htext] at hedit
          rw [bind_of_ok hedit]
          dsimp only
          have hwrite := writing_apply (fun fs => writeText fs resolved result.1) w
          cases hfs : writeText w.fs resolved result.1 with
          | error e =>
            rw [hfs] at hwrite
            exact bind_of_error hwrite _
          | ok fs =>
            rw [hfs] at hwrite
            exact bind_of_ok hwrite _

section single

variable {host root targetPath oldString newString}

/-- Without `replace_all` an edit goes through if the scan finds one place. -/
theorem editText_single (content : JsString) :
    editText targetPath oldString newString false content =
      if (pieces oldString content).length = 2 then
        .ok (replaceFirst content oldString newString, 1)
      else if (pieces oldString content).length = 1 then
        .error (.error (js "Could not find old_string in " ++ targetPath ++ js "."))
      else
        .error (.error (js "old_string appears " ++
          Number.decimal ((pieces oldString content).length - 1) ++ js " times in " ++ targetPath ++
          js "; set replace_all true or provide more context.")) := by
  have hpos : 0 < (pieces oldString content).length := pieces_length_pos content
  rw [editText, split_eq_pieces]
  generalize (pieces oldString content).length = n at hpos
  match n, hpos with
  | 1, _ => rfl
  | 2, _ => rfl
  | n + 3, _ => simp

variable {w : World ε} {resolved : Path} {content : JsString}

theorem edited_of_file (hold : oldString ≠ [])
    (hresolved : resolveInsideRoot host root targetPath = .ok resolved)
    (hcontent : readText w.fs resolved = .ok content) :
    edited host root targetPath oldString newString replaceAll w.fs =
      (editText targetPath oldString newString replaceAll content).map fun result =>
        (resolved, result) := by
  rw [edited, if_neg (by simpa using hold), hresolved]
  dsimp only
  rw [hcontent]
  dsimp only
  cases editText targetPath oldString newString replaceAll content <;> rfl

/-- An edit without `replace_all` writes, or it fails and leaves everything as it is. -/
theorem editFile_single (newString : JsString) (hold : oldString ≠ [])
    (hresolved : resolveInsideRoot host root targetPath = .ok resolved)
    (hcontent : readText w.fs resolved = .ok content) :
    ((pieces oldString content).length = 2 ∧ ∃ out w',
        editFile host root targetPath oldString newString false w = .ok out w') ∨
      ((pieces oldString content).length ≠ 2 ∧ ∃ e,
        editFile host root targetPath oldString newString false w = .error e w) := by
  rw [editFile_eq, edited_of_file false hold hresolved hcontent, editText_single]
  by_cases htwo : (pieces oldString content).length = 2
  · left
    rw [if_pos htwo]
    obtain ⟨fs, hfs⟩ := writeText_of_readText hcontent (replaceFirst content oldString newString)
    dsimp only [Except.map]
    rw [hfs]
    exact ⟨htwo, _, _, rfl⟩
  · right
    rw [if_neg htwo]
    refine ⟨htwo, ?_⟩
    by_cases hone : (pieces oldString content).length = 1
    · rw [if_pos hone]
      exact ⟨_, rfl⟩
    · rw [if_neg hone]
      exact ⟨_, rfl⟩

/-- Where a text stands at a second place, it stands at one that does not overlap the first. -/
def RepeatsApart (pat s : JsString) : Prop :=
  ∀ i, firstIndexOf pat s = some i → (∃ j, i < j ∧ Occurs pat s j) →
    ∃ j, i + pat.length ≤ j ∧ Occurs pat s j

theorem once_iff (hold : oldString ≠ []) (content : JsString) : OccursOnce oldString content ↔
    (pieces oldString content).length = 2 ∧ ¬ ∃ i j, firstIndexOf oldString content = some i ∧
      i < j ∧ Occurs oldString content j := by
  rw [pieces_length_two_iff hold]
  constructor
  · rintro ⟨i, hocc, honly⟩
    have hfirst := firstIndexOf_of_once hold hocc honly
    have hpos := List.length_pos_iff.mpr hold
    refine ⟨⟨i, hfirst, ?_⟩, ?_⟩
    · intro j hj hoccj
      have hsame := honly j hoccj
      omega
    · rintro ⟨i', j, hi', hlt, hoccj⟩
      rw [hfirst] at hi'
      obtain rfl := Option.some.inj hi'
      exact absurd (honly j hoccj) (Nat.ne_of_gt hlt)
  · rintro ⟨⟨i, hfirst, -⟩, hnone⟩
    obtain ⟨hocc, hbefore⟩ := (firstIndexOf_eq_some_iff hold content i).mp hfirst
    refine ⟨i, hocc, ?_⟩
    intro j hoccj
    obtain hlt | heq | hgt := Nat.lt_trichotomy j i
    · exact absurd hoccj (hbefore j hlt)
    · exact heq
    · exact absurd ⟨i, j, hfirst, hgt, hoccj⟩ hnone

theorem repeatsApart_iff (hold : oldString ≠ []) (content : JsString) :
    RepeatsApart oldString content ↔
      ((pieces oldString content).length = 2 → OccursOnce oldString content) := by
  rw [once_iff hold, pieces_length_two_iff hold]
  constructor
  · rintro hapart ⟨i, hfirst, hbehind⟩
    refine ⟨⟨i, hfirst, hbehind⟩, ?_⟩
    rintro ⟨i', j, hi', hlt, hocc⟩
    rw [hfirst] at hi'
    obtain rfl := Option.some.inj hi'
    obtain ⟨k, hk, hocck⟩ := hapart i hfirst ⟨j, hlt, hocc⟩
    exact hbehind k hk hocck
  · intro hsingle i hfirst ⟨j, hlt, hocc⟩
    by_contra hnone
    have hbehind : ∀ k, i + oldString.length ≤ k → ¬ Occurs oldString content k := by
      intro k hk hocck
      exact hnone ⟨k, hk, hocck⟩
    exact (hsingle ⟨i, hfirst, hbehind⟩).2 ⟨i, j, hfirst, hlt, hocc⟩

variable (host root targetPath oldString newString w content)

/-- An edit without `replace_all` goes through only where its text stands at one position of the
content, and changes nothing elsewhere. -/
structure RefusesAmbiguous : Prop where
  succeeds : ∀ out w', editFile host root targetPath oldString newString false w = .ok out w' →
    OccursOnce oldString content
  fails : ¬ OccursOnce oldString content → ∃ e,
    editFile host root targetPath oldString newString false w = .error e w

variable {host root targetPath oldString newString w content}

theorem refusesAmbiguous_iff (hold : oldString ≠ [])
    (hresolved : resolveInsideRoot host root targetPath = .ok resolved)
    (hcontent : readText w.fs resolved = .ok content) :
    RefusesAmbiguous host root targetPath oldString newString w content ↔
      RepeatsApart oldString content := by
  rw [repeatsApart_iff hold]
  obtain ⟨htwo, out, w', hok⟩ | ⟨htwo, e, herror⟩ :=
    editFile_single newString hold hresolved hcontent
  · constructor
    · intro h _
      exact h.succeeds out w' hok
    · intro h
      exact ⟨fun _ _ _ => h htwo, fun hnot => absurd (h htwo) hnot⟩
  · constructor
    · intro _ h
      exact absurd h htwo
    · intro _
      refine ⟨fun out w' h => ?_, fun _ => ⟨e, herror⟩⟩
      rw [herror] at h
      cases h

end single

section once

variable {host root targetPath oldString newString} {before after : JsString}

theorem replaceFirst_once (hold : oldString ≠ [])
    (honce : OccursOnce oldString (before ++ oldString ++ after)) :
    replaceFirst (before ++ oldString ++ after) oldString newString =
      before ++ expandReplacement before oldString after newString ++ after := by
  have hbehind : (before ++ oldString ++ after).drop (before.length + oldString.length) = after := by
    rw [← List.length_append, List.drop_left]
  rw [replaceFirst, (pieces_of_once hold honce).1]
  dsimp only
  rw [hbehind, List.append_assoc before oldString, List.take_left]

theorem editText_once (hold : oldString ≠ [])
    (honce : OccursOnce oldString (before ++ oldString ++ after)) :
    editText targetPath oldString newString replaceAll (before ++ oldString ++ after) =
      .ok (before ++ (if replaceAll then newString
        else expandReplacement before oldString after newString) ++ after, 1) := by
  have hpieces := (pieces_of_once hold honce).2
  cases replaceAll with
  | true =>
    rw [editText, split_eq_pieces, hpieces]
    simp [join]
  | false =>
    rw [editText_single, hpieces, replaceFirst_once hold honce]
    rfl

theorem not_once_nil (s : JsString) : ¬ OccursOnce [] s := by
  rintro ⟨i, -, honly⟩
  have hzero := honly 0 List.nil_prefix
  have hone := honly 1 List.nil_prefix
  omega

variable (host root targetPath oldString newString before after)

/-- An edit puts the new text in the place of the old one, whichever way it is made: with and
without `replace_all`, and by the tool of the Rust workspace for a file with the same text. -/
structure EditsExactly (fs : FileSystem) (resolved : Path) : Prop where
  single : edited host root targetPath oldString newString false fs =
    .ok (resolved, before ++ newString ++ after, 1)
  all : edited host root targetPath oldString newString true fs =
    .ok (resolved, before ++ newString ++ after, 1)
  rust : ∀ (tools : Crates.WorkspaceTools) (files : Crates.Files) (target : Crates.PathBuf)
    (path original old new : Crates.RustString) (replaceAll : Bool),
    tools.resolveExisting files path = .ok target →
    Crates.readFileText files target = .ok original →
    Crates.RustText.toJs original = before ++ oldString ++ after →
    Crates.RustText.toJs old = oldString → Crates.RustText.toJs new = newString →
    ∃ text, tools.edited files path old new replaceAll = .ok (target, text, 1) ∧
      Crates.RustText.toJs text = before ++ newString ++ after

variable {host root targetPath oldString newString before after}

theorem rust_edits_exactly (hold : oldString ≠ [])
    (honce : OccursOnce oldString (before ++ oldString ++ after))
    (tools : Crates.WorkspaceTools) (files : Crates.Files) (target : Crates.PathBuf)
    (path original old new : Crates.RustString) (replaceAll : Bool)
    (htarget : tools.resolveExisting files path = .ok target)
    (hread : Crates.readFileText files target = .ok original)
    (horiginal : Crates.RustText.toJs original = before ++ oldString ++ after)
    (hjsOld : Crates.RustText.toJs old = oldString)
    (hjsNew : Crates.RustText.toJs new = newString) :
    ∃ text, tools.edited files path old new replaceAll = .ok (target, text, 1) ∧
      Crates.RustText.toJs text = before ++ newString ++ after := by
  subst hjsOld hjsNew
  have hne : old ≠ [] := by
    rintro rfl
    exact hold rfl
  obtain ⟨front, back, rfl, rfl, rfl⟩ := Crates.toJs_inside hne horiginal
  rw [← horiginal] at honce
  refine ⟨front ++ new ++ back, ?_, ?_⟩
  · have hedit := Crates.editText_once hne (Crates.once_of_units hne honce) new replaceAll
    exact Crates.WorkspaceTools.edited_of_editText hne htarget hread hedit
  · rw [Crates.RustText.toJs_append, Crates.RustText.toJs_append]

/-- A replacement text without a dollar is put in as it is. -/
theorem expandReplacement_plain (h : 36 ∉ newString) :
    expandReplacement before oldString after newString = newString := by
  induction newString with
  | nil => rfl
  | cons u s ih =>
    cases s with
    | nil => rfl
    | cons v s =>
      have hu : u ≠ 36 := fun hu => h (by simp [hu])
      rw [expandReplacement, if_neg (by simp [hu]), if_neg (by simp [hu]), if_neg (by simp [hu]),
        if_neg (by simp [hu]), ih fun hmem => h (by simp [hmem])]

end once

section samples

/-- A workspace of one file. -/
def oneFile (content : JsString) : World Unit :=
  ⟨(), .dir [(js "a.txt", .file (Utf8.bufferFrom content))], false⟩

def bareHost : Host Unit := .bare fun _ => .ok .null

theorem apart_refused :
    RefusesAmbiguous bareHost (js "/") (js "a.txt") (js "ab") (js "c") (oneFile (js "abab"))
      (js "abab") := by
  have hresolved : resolveInsideRoot bareHost (js "/") (js "a.txt") = .ok [js "a.txt"] := rfl
  refine (refusesAmbiguous_iff (by decide) hresolved rfl).mpr ?_
  intro i hi _
  obtain rfl : 0 = i := Option.some.inj (Eq.trans (by decide) hi)
  exact ⟨2, by decide, by decide⟩

theorem overlap_edited :
    ¬ RefusesAmbiguous bareHost (js "/") (js "a.txt") (js "aa") (js "b") (oneFile (js "aaa"))
      (js "aaa") := by
  intro h
  obtain ⟨i, -, honly⟩ := h.succeeds _ _ rfl
  have hzero := honly 0 (by decide)
  have hone := honly 1 (by decide)
  omega

end samples

end Solarcido.Tools
