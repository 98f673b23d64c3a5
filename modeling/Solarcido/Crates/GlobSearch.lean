import Solarcido.Crates.Places
import Solarcido.Crates.Workspace

namespace Solarcido.Crates

open LinkedTree PathBuf

namespace WorkspaceTools

variable (self : WorkspaceTools) {files : Files}

/-- The path that a shown name stands for. -/
def shownPath (name : RustString) : PathBuf := joinPath self.cwd (utf8 name)

/-- Where a name that a search shows leads. -/
def shownAt (files : Files) (name : RustString) : Except IoError Location :=
  canonicalize files (self.shownPath name)

/-- A name that a search shows leads to a place inside the root. -/
def LeadsInside (files : Files) (name : RustString) : Prop :=
  ∃ root l, canonicalize files self.cwd = .ok root ∧ self.shownAt files name = .ok l ∧ root <+: l

/-- The part behind the first `i` parts takes a path out of the root for good: it is `..` in the
root itself, or a link inside the root, and no longer front of the path is inside again. -/
structure Leaves (files : Files) (root : Location) (p : PathBuf) (i : Nat) : Prop where
  exit : ∃ l part, canonicalize files (p.take i) = .ok l ∧ root <+: l ∧ p[i]? = some part ∧
    ((part = dotDot ∧ l = root) ∨
      ∃ (n : FileName) (route : Route FileName), part = n.val ∧
        files.node (l ++ [n]) = some (.link route))
  outside : ∀ j l, i < j → canonicalize files (p.take j) = .ok l → ¬ root <+: l

/-- What the name stands for is there, and its path comes into the root and does not leave it. -/
structure Kept (tools : WorkspaceTools) (files : Files) (name : RustString) : Prop where
  there : ∃ l, tools.shownAt files name = .ok l
  enters : ∃ root i l, canonicalize files tools.cwd = .ok root ∧
    canonicalize files ((tools.shownPath name).take i) = .ok l ∧ root <+: l
  stays : ∀ root i, canonicalize files tools.cwd = .ok root →
    ¬ Leaves files root (tools.shownPath name) i

/-- A match whose path neither goes up nor passes a link, and is what its name says. -/
structure Plain (tools : WorkspaceTools) (files : Files) (entry : PathBuf) : Prop where
  stays : dotDot ∉ entry
  unlinked : ∀ m : Location, m.map Subtype.val <+: components entry →
    ∀ route, files.node m ≠ some (.link route)
  named : tools.shownAt files (tools.relative entry) = canonicalize files entry

section matches_

variable {self}

theorem up_out {root m : Location} (hm : root <+: m) (hout : ¬ root <+: m.dropLast) : m = root := by
  obtain ⟨rest, rfl⟩ := hm
  cases rest using List.reverseRecOn with
  | nil => exact List.append_nil root
  | append_singleton rest n =>
    refine absurd ?_ hout
    rw [← List.append_assoc, List.dropLast_concat]
    exact List.prefix_append root rest

/-- A path that comes into the root and ends outside leaves it for good at some part. -/
theorem leaves_of_out {root l m : Location} {p : PathBuf} {i : Nat}
    (h : canonicalize files p = .ok l) (hout : ¬ root <+: l)
    (hi : canonicalize files (p.take i) = .ok m) (hm : root <+: m) :
    ∃ j, Leaves files root p j := by
  obtain ⟨segments, hsegments⟩ := segments_of_ok h
  have hfront : ∀ j l', canonicalize files (p.take j) = .ok l' ↔
      files.walk maxLinks [] (segments.take j) = .ok (.found l') :=
    fun j l' => canonicalize_walk (mapM_segments_take hsegments j)
  obtain ⟨j, s, m', hj, hm', hs, hexit, hlater⟩ :=
    Tree.walk_exit (P := (root <+: ·)) (fun m n hm => hm.trans (List.prefix_append m [n])) maxLinks
      ((canonicalize_walk hsegments).mp h) hout ((hfront i m).mp hi) hm
  obtain ⟨part, hpart, hsegment⟩ := mapM_segments_get hsegments hs
  refine ⟨j, ⟨m', part, (hfront j m').mpr hj, hm', hpart, ?_⟩, fun j' l' hj' hl' => ?_⟩
  · rcases hexit with ⟨rfl, hup⟩ | ⟨n, route, rfl, hlink⟩
    · exact .inl ⟨segmentOf_up hsegment, up_out hm' hup⟩
    · exact .inr ⟨n, route, segmentOf_name_inv hsegment, hlink⟩
  · exact hlater j' l' hj' ((hfront j' l').mp hl')

theorem leadsInside_iff {name : RustString} :
    self.LeadsInside files name ↔ Kept self files name := by
  constructor
  · rintro ⟨root, l, hroot, hl, hinside⟩
    have hwhole : (self.shownPath name).take (self.shownPath name).length = self.shownPath name :=
      List.take_length
    refine ⟨⟨l, hl⟩, ⟨root, _, l, hroot, by rw [hwhole]; exact hl, hinside⟩, ?_⟩
    intro root' i hroot' hleaves
    obtain rfl := Except.ok.inj (hroot.symm.trans hroot')
    obtain ⟨l', part, -, -, hpart, -⟩ := hleaves.exit
    have hlt := (List.getElem?_eq_some_iff.mp hpart).1
    exact hleaves.outside _ l hlt (by rw [hwhole]; exact hl) hinside
  · rintro ⟨⟨l, hl⟩, ⟨root, i, m, hroot, hi, hm⟩, hstays⟩
    refine ⟨root, l, hroot, hl, ?_⟩
    by_contra hout
    obtain ⟨j, hleaves⟩ := leaves_of_out hl hout hi hm
    exact hstays root j hroot hleaves

/-- The files among the paths that the crate gives. -/
def fileEntries (files : Files) (entries : List (Except RustString PathBuf)) : List PathBuf :=
  entries.filterMap fun
    | .ok entry => if isFile files entry then some entry else none
    | .error _ => none

/-- What is shown are the files among the paths, all of which pass the check. -/
theorem matchedFiles_ok {entries : List (Except RustString PathBuf)} {matched : List RustString}
    (h : self.matchedFiles files entries = .ok matched) :
    matched = (fileEntries files entries).map self.relative ∧
      ∀ entry ∈ fileEntries files entries,
        isFile files entry = true ∧ self.ensureInside files entry = .ok () := by
  induction entries generalizing matched with
  | nil =>
    obtain rfl := Except.ok.inj h
    exact ⟨rfl, by simp [fileEntries]⟩
  | cons first rest ih =>
    cases first with
    | error error => cases h
    | ok entry =>
      rw [matchedFiles] at h
      by_cases hfile : isFile files entry = true
      · rw [if_pos hfile] at h
        have hcons : fileEntries files (.ok entry :: rest) = entry :: fileEntries files rest := by
          simp [fileEntries, hfile]
        cases hinside : self.ensureInside files entry with
        | error error =>
          rw [hinside] at h
          exact absurd h (by rintro ⟨⟩)
        | ok inside =>
          cases hrest : self.matchedFiles files rest with
          | error error =>
            rw [hinside, hrest] at h
            exact absurd h (by rintro ⟨⟩)
          | ok more =>
            rw [hinside, hrest] at h
            obtain rfl := Except.ok.inj h
            obtain ⟨hmore, hpass⟩ := ih hrest
            refine ⟨by rw [hcons, List.map_cons, hmore], fun entry' hmem => ?_⟩
            rw [hcons] at hmem
            rcases List.mem_cons.mp hmem with rfl | hmem
            · exact ⟨hfile, hinside⟩
            · exact hpass entry' hmem
      · rw [if_neg hfile] at h
        have hcons : fileEntries files (.ok entry :: rest) = fileEntries files rest := by
          simp [fileEntries, hfile]
        rw [hcons]
        exact ih h

/-- A plain match is where its components say. -/
theorem Plain.leadsInside {entry : PathBuf} (h : Plain self files entry)
    (hfile : isFile files entry = true) (hinside : self.ensureInside files entry = .ok ()) :
    self.LeadsInside files (self.relative entry) := by
  obtain ⟨root, hroot, hstarts⟩ := (self.ensureInside_ok_iff entry).mp hinside
  rw [isFile, fileAt] at hfile
  cases hentry : canonicalize files entry with
  | error error =>
    rw [hentry] at hfile
    cases hfile
  | ok l =>
    refine ⟨root, l, hroot, h.named.trans hentry, ?_⟩
    obtain ⟨segments, hsegments⟩ := segments_of_ok hentry
    obtain ⟨hup, hnames⟩ := names_of_segments h.stays hsegments
    have hl : l = Tree.names segments := by
      refine Tree.walk_plain maxLinks hup (fun m hm route => ?_) ((canonicalize_walk hsegments).mp hentry)
      apply h.unlinked m
      rw [← hnames]
      exact hm.map Subtype.val
    rw [startsWith, List.isPrefixOf_iff_prefix, components_pathOf, ← hnames, ← hl] at hstarts
    exact map_val_prefix_iff.mp hstarts

variable (self files)

/-- Every path that a search returns leads to a place inside the root. -/
def Confined (glob : Glob) (input : Value) : Prop :=
  ∀ matched, self.sortedMatches files glob input = .ok matched →
    ∀ name ∈ matched.take globLimit, self.LeadsInside files name

/-- The matches that a search reports, where it does not fail: the files among the paths of its
pattern, those that come first by their names. -/
def Reported (glob : Glob) (input : Value) (entry : PathBuf) : Prop :=
  ∃ entries, self.globEntries files glob input = .ok entries ∧
    (self.matchedFiles files entries).isOk = true ∧ entry ∈ fileEntries files entries ∧
    self.relative entry ∈
      (((fileEntries files entries).map self.relative).mergeSort textLe).take globLimit

end matches_

section texts

/-- The parts of a path behind its first names. -/
theorem partsBehind_names (root rest : Location) :
    partsBehind (root.map Subtype.val) ((root ++ rest).map Subtype.val) =
      some (rest.map Subtype.val) := by
  induction root with
  | nil => rfl
  | cons n root ih =>
    rw [List.cons_append, List.map_cons, List.map_cons, partsBehind,
      List.dropWhile_cons_of_neg (by simp [isNoise_name])]
    simp only [if_true]
    exact ih

theorem trim_names (l : Location) :
    ((l.map Subtype.val).dropWhile isNoise).rdropWhile isNoise = l.map Subtype.val := by
  have hstart : (l.map Subtype.val).dropWhile isNoise = l.map Subtype.val := by
    cases l with
    | nil => rfl
    | cons n l => rw [List.map_cons, List.dropWhile_cons_of_neg (by simp [isNoise_name])]
  rw [hstart, rdropWhile_names]

/-- A name shown for a match below the root is the match, where it is a text with no backslash. -/
theorem named_of_text (root rest : Location) (hrest : rest ≠ []) {text : RustString}
    (htext : fromUtf8 ([slash].intercalate (rest.map Subtype.val)) = some text) (hslash : '\\' ∉ text) :
    shownAt ⟨pathOf root⟩ files (relative ⟨pathOf root⟩ ((root ++ rest).map Subtype.val)) =
      canonicalize files ((root ++ rest).map Subtype.val) := by
  have hbytes : utf8 text = [slash].intercalate (rest.map Subtype.val) := by
    rw [fromUtf8] at htext
    split_ifs at htext with hvalid
    rw [← Option.some.inj htext, hvalid]
  have hshown : relative ⟨pathOf root⟩ ((root ++ rest).map Subtype.val) = text := by
    rw [relative, stripPrefix, components_pathOf, partsBehind_names, Option.map_some, trim_names,
      Option.getD_some]
    rw [fromUtf8] at htext
    split_ifs at htext with hvalid
    rw [Option.some.inj htext, List.map_congr_left, List.map_id]
    intro c hc
    rw [if_neg]
    · rfl
    · rintro rfl
      exact hslash hc
  -- the text starts with a name, and the slashes in it are those between names
  have hfirst : ([slash].intercalate (rest.map Subtype.val)).head? ≠ some slash := by
    cases rest with
    | nil => exact absurd rfl hrest
    | cons n rest =>
      obtain ⟨hnil, -, -, hfree, -⟩ := n.property
      obtain ⟨b, name, hname⟩ := List.exists_cons_of_ne_nil hnil
      rw [hname] at hfree
      cases rest with
      | nil => simpa [hname] using fun heq => hfree (by simp [heq])
      | cons m rest => simpa [hname] using fun heq => hfree (by simp [heq])
  have hsplit : ([slash].intercalate (rest.map Subtype.val)).splitOn slash = rest.map Subtype.val := by
    apply List.splitOn_intercalate
    · intro part hpart
      obtain ⟨n, -, rfl⟩ := List.mem_map.mp hpart
      exact n.property.2.2.2.1
    · exact fun hnil => hrest (List.map_eq_nil_iff.mp hnil)
  rw [shownAt, shownPath, hshown, joinPath, hbytes, if_neg hfirst, hsplit, join_pathOf, List.map_append]

/-- A match below the root with no link on its path is plain, where its name is a text with no
backslash. -/
theorem plain_of_names (root rest : Location) (hrest : rest ≠ [])
    (hlinks : ∀ m, m <+: root ++ rest → ∀ route, files.node m ≠ some (.link route)) {text : RustString}
    (htext : fromUtf8 ([slash].intercalate (rest.map Subtype.val)) = some text) (hslash : '\\' ∉ text) :
    Plain ⟨pathOf root⟩ files ((root ++ rest).map Subtype.val) where
  stays hmem := by
    obtain ⟨n, -, hn⟩ := List.mem_map.mp hmem
    exact n.property.2.2.1 hn
  unlinked m hm := by
    rw [components_names] at hm
    exact hlinks m (map_val_prefix_iff.mp hm)
  named := named_of_text root rest hrest htext hslash

end texts

section sample

/-- What a pattern without special characters is expanded to. -/
def literalGlob : Glob := fun pattern files =>
  .ok (if isFile files ((utf8 pattern).tail.splitOn slash) then
    [.ok ((utf8 pattern).tail.splitOn slash)] else [])

/-- A directory `r` with a file `x` beside it. -/
def besideFiles : Files where
  node
    | [] => some .dir
    | [n] => if n.val = [114] then some .dir else if n.val = [120] then some (.file []) else none
    | _ => none
  root := rfl
  parents l n hsome := by
    cases l with
    | nil => rfl
    | cons m l =>
      cases l with
      | nil => cases hsome
      | cons m' l => cases hsome

end sample

end WorkspaceTools

end Solarcido.Crates
