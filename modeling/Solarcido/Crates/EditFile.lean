import Solarcido.Crates.Workspace
import Solarcido.Js.Surrogates

namespace Solarcido.Crates

open RustText PathBuf Search

section texts

/-- `s.matches(pat).count()`, for a pattern that is not empty. -/
def matchCount (s pat : RustString) : Nat := (pieces pat s).length - 1

/-- `s.replace(pat, new)`, for a pattern that is not empty. -/
def replace (s pat new : RustString) : RustString := join new (pieces pat s)

/-- `s.replacen(pat, new, 1)`. -/
def replaceOne (s pat new : RustString) : RustString :=
  match firstIndexOf pat s with
  | none => s
  | some i => s.take i ++ new ++ s.drop (i + pat.length)

/-- What an edit makes of a text, and how many places it has found. -/
def editText (old new : RustString) (replaceAll : Bool) (original : RustString) :
    Except RustString (RustString × Nat) :=
  let matches_ := matchCount original old
  if matches_ = 0 then .error (str "old_string not found in file")
  else if matches_ > 1 && !replaceAll then
    .error (str "old_string appears " ++ decimal matches_ ++
      str " times; set replace_all true or provide more context")
  else if replaceAll then .ok (replace original old new, matches_)
  else .ok (replaceOne original old new, matches_)

end texts

/-- `fs::read_to_string(path)`, with the text of its error. -/
def readFileText (files : Files) (p : PathBuf) : Except RustString RustString :=
  match canonicalize files p with
  | .error e => .error e.text
  | .ok l =>
    match files.node l with
    | some (.file content) =>
      match fromUtf8 content with
      | some text => .ok text
      | none => .error (str "stream did not contain valid UTF-8")
    | _ => .error IoError.isDirectory.text

namespace WorkspaceTools

variable (self : WorkspaceTools) (files : Files) (path old new : RustString) (replaceAll : Bool)

/-- The file that an edit writes, the text it writes there, and how many places it has found. -/
def edited : Except RustString (PathBuf × RustString × Nat) :=
  if old.isEmpty then .error (str "old_string must not be empty")
  else do
    let resolved ← self.resolveExisting files path
    let original ← readFileText files resolved
    let (updated, matches_) ← editText old new replaceAll original
    .ok (resolved, updated, matches_)

variable {self files path old new replaceAll} in
theorem edited_of_editText {target : PathBuf} {original text : RustString} {count : Nat}
    (hold : old ≠ []) (htarget : self.resolveExisting files path = .ok target)
    (hread : readFileText files target = .ok original)
    (hedit : editText old new replaceAll original = .ok (text, count)) :
    self.edited files path old new replaceAll = .ok (target, text, count) := by
  unfold edited
  rw [if_neg (by simpa using hold), htarget]
  simp only [bind, Except.bind, hread, hedit]

/-- `edit_file`. -/
def editFile (input : Value) : DiskM RustString := do
  let path ← orFail (stringArg input (str "path"))
  let old ← orFail (stringArg input (str "old_string"))
  let new ← orFail (stringArg input (str "new_string"))
  let replaceAll := ((input.get (str "replace_all")).bind Value.asBool).getD false
  let disk ← get
  let (resolved, updated, matches_) ← orFail (self.edited disk.files path old new replaceAll)
  let disk ← orIo (disk.write resolved (utf8 updated))
  set disk
  pure (Value.object [
    (str "filePath", .string (self.relative resolved)),
    (str "newString", .string new),
    (str "oldString", .string old),
    (str "replaceAll", .bool replaceAll),
    (str "replacements", .number (.int (if replaceAll then matches_ else 1 : Nat)))]).text

end WorkspaceTools

section once

variable {before old after : RustString}

/-- Both ways of an edit put the new text in the place of the old one. -/
theorem editText_once (hold : old ≠ []) (honce : OccursOnce old (before ++ old ++ after))
    (new : RustString) (replaceAll : Bool) :
    editText old new replaceAll (before ++ old ++ after) = .ok (before ++ new ++ after, 1) := by
  obtain ⟨hfirst, hpieces⟩ := pieces_of_once hold honce
  have hbehind : (before ++ old ++ after).drop (before.length + old.length) = after := by
    rw [← List.length_append, List.drop_left]
  have hcount : matchCount (before ++ old ++ after) old = 1 := by
    rw [matchCount, hpieces]
    rfl
  cases replaceAll with
  | true =>
    have hreplace : replace (before ++ old ++ after) old new = before ++ new ++ after := by
      rw [replace, hpieces, RustText.join]
      simp
    rw [editText, hcount, hreplace]
    rfl
  | false =>
    have hreplace : replaceOne (before ++ old ++ after) old new = before ++ new ++ after := by
      rw [replaceOne, hfirst]
      dsimp only
      rw [hbehind, List.append_assoc before old, List.take_left]
    rw [editText, hcount, hreplace]
    rfl

end once

section units

open Text

theorem toJs_prefix {s t : RustString} {y : JsString} (h : toJs s = toJs t ++ y) :
    ∃ rest, s = t ++ rest ∧ toJs rest = y := by
  induction t generalizing s with
  | nil => exact ⟨s, rfl, h⟩
  | cons c t ih =>
    rw [toJs_cons, List.append_assoc] at h
    cases s with
    | nil =>
      obtain ⟨u, rest, hu, -⟩ := utf16_head (isScalar_toNat c)
      rw [hu] at h
      cases h
    | cons d s =>
      rw [toJs_cons] at h
      have hpoints := congrArg codePoints h
      rw [codePoints_utf16 _ (isScalar_toNat d), codePoints_utf16 _ (isScalar_toNat c)] at hpoints
      obtain rfl : d = c := Char.toNat_inj.mp (List.cons.inj hpoints).1
      obtain ⟨rest, rfl, hrest⟩ := ih (List.append_cancel_left h)
      exact ⟨rest, rfl, hrest⟩

/-- A string inside the units of another starts and ends between characters. -/
theorem toJs_inside {s t : RustString} {x y : JsString} (ht : t ≠ []) (h : toJs s = x ++ toJs t ++ y) :
    ∃ before after, s = before ++ t ++ after ∧ toJs before = x ∧ toJs after = y := by
  obtain ⟨c, t, rfl⟩ := List.exists_cons_of_ne_nil ht
  rw [List.append_assoc] at h
  induction s generalizing x with
  | nil =>
    obtain ⟨u, rest, hu, -⟩ := utf16_head (isScalar_toNat c)
    rw [toJs_cons, hu] at h
    simp [toJs, fromCodePoints] at h
  | cons d s ih =>
    cases x with
    | nil =>
      obtain ⟨after, hs, hafter⟩ := toJs_prefix h
      exact ⟨[], after, hs, rfl, hafter⟩
    | cons u x =>
      rw [toJs_cons] at h
      by_cases hd : d.toNat < 0x10000
      · have hunit : utf16 d.toNat = [UInt16.ofNat d.toNat] := by
          rw [utf16, if_pos hd]
        rw [hunit] at h
        obtain ⟨rfl, hrest⟩ := List.cons.inj h
        obtain ⟨before, after, rfl, rfl, hafter⟩ := ih hrest
        exact ⟨d :: before, after, rfl, by rw [toJs_cons, hunit, List.singleton_append], hafter⟩
      · obtain ⟨high, low, hpair, -, hlow⟩ := utf16_pair (isScalar_toNat d) hd
        rw [hpair] at h
        change high :: low :: toJs s = u :: (x ++ (toJs (c :: t) ++ y)) at h
        obtain ⟨rfl, hrest⟩ := List.cons.inj h
        cases x with
        | nil =>
          obtain ⟨first, rest, hc, hfirst⟩ := utf16_head (isScalar_toNat c)
          change low :: toJs s = toJs (c :: t) ++ y at hrest
          rw [toJs_cons, hc] at hrest
          rw [(List.cons.inj hrest).1, hfirst] at hlow
          cases hlow
        | cons v x =>
          change low :: toJs s = v :: (x ++ (toJs (c :: t) ++ y)) at hrest
          obtain ⟨rfl, hlast⟩ := List.cons.inj hrest
          obtain ⟨before, after, rfl, rfl, hafter⟩ := ih hlast
          exact ⟨d :: before, after, rfl, by rw [toJs_cons, hpair]; rfl, hafter⟩

/-- What stands once among the units of a string stands once among its characters. -/
theorem once_of_units {before old after : RustString} (hold : old ≠ [])
    (honce : OccursOnce (toJs old) (toJs (before ++ old ++ after))) :
    OccursOnce old (before ++ old ++ after) := by
  have hunits : ∀ front back : RustString, before ++ old ++ after = front ++ old ++ back →
      Occurs (toJs old) (toJs (before ++ old ++ after)) (toJs front).length := by
    intro front back h
    rw [h, toJs_append, toJs_append, Occurs, List.append_assoc, List.drop_left]
    exact List.prefix_append _ _
  refine ⟨before.length, ?_, ?_⟩
  · rw [Occurs, List.append_assoc, List.drop_left]
    exact List.prefix_append _ _
  · rintro j ⟨back, hback⟩
    have hsplit : before ++ old ++ after = (before ++ old ++ after).take j ++ old ++ back := by
      rw [List.append_assoc (List.take j _), hback, List.take_append_drop]
    obtain ⟨i, -, honly⟩ := honce
    have hlen : (toJs ((before ++ old ++ after).take j)).length = (toJs before).length := by
      rw [honly _ (hunits _ back hsplit), honly _ (hunits before after rfl)]
    have hsame : (before ++ old ++ after).take j = before := by
      have hjs := congrArg toJs hsplit
      rw [List.append_assoc, toJs_append, List.append_assoc, toJs_append (List.take j _)] at hjs
      rw [List.append_assoc] at hlen ⊢
      exact toJs_injective (List.append_inj_left hjs.symm hlen)
    have hj : j ≤ (before ++ old ++ after).length := by
      by_contra hbig
      rw [List.drop_eq_nil_of_le (Nat.le_of_not_le hbig)] at hback
      exact hold (List.append_eq_nil_iff.mp hback).1
    rw [← hsame, List.length_take, Nat.min_eq_left hj]

end units

end Solarcido.Crates
