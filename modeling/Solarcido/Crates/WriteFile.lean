import Solarcido.Crates.Places
import Solarcido.Crates.Workspace
import Solarcido.Lib.ThrowingProgram

namespace Solarcido.Crates

open LinkedTree PathBuf ThrowingProgram

theorem ends_orFail {α : Type} {x : Except RustString α} {disk : Disk} {Q : α → Disk → Prop}
    {E : RustString → Disk → Prop} (hok : ∀ a, x = .ok a → Q a disk)
    (herror : ∀ e, x = .error e → E e disk) : Ends (orFail x) disk Q E := by
  cases x with
  | ok a => exact hok a rfl
  | error e => exact herror e rfl

theorem stringArg_ok_iff (input : Value) (key value : RustString) :
    stringArg input key = .ok value ↔ input.get key = some (.string value) := by
  rw [stringArg]
  cases input.get key with
  | none => simp
  | some v =>
    cases v <;> simp [Value.asStr]

namespace WorkspaceTools

variable (self : WorkspaceTools) {files : Files}

/-- What a path that may be missing is resolved to: its last name, in a directory inside. -/
theorem resolveAllowMissing_ok_iff (path : RustString) (resolved : PathBuf) :
    self.resolveAllowMissing files path = .ok resolved ↔ ∃ root parent part,
      canonicalize files self.cwd = .ok root ∧
      canonicalize files ((self.resolveCandidate path).parent.getD self.cwd) = .ok parent ∧
      root <+: parent ∧ (self.resolveCandidate path).fileName = some part ∧
      resolved = parent.map Subtype.val ++ [part] := by
  constructor
  · intro h
    rw [resolveAllowMissing] at h
    cases hparent : canonicalize files ((self.resolveCandidate path).parent.getD self.cwd) with
    | error error =>
      simp only [hparent] at h
      cases h
    | ok parent =>
      simp only [hparent] at h
      cases hinside : self.ensureInside files (pathOf parent) with
      | error error =>
        rw [hinside] at h
        exact absurd h (by rintro ⟨⟩)
      | ok inside =>
        obtain ⟨root, hroot, hstarts⟩ := (self.ensureInside_ok_iff (pathOf parent)).mp hinside
        rw [hinside] at h
        cases hname : (self.resolveCandidate path).fileName with
        | none =>
          simp only [hname] at h
          exact absurd h (by rintro ⟨⟩)
        | some part =>
          simp only [hname] at h
          exact ⟨root, parent, part, hroot, rfl, startsWith_pathOf.mp hstarts, rfl,
            (Except.ok.inj h).symm.trans (join_pathOf parent [part])⟩
  · rintro ⟨root, parent, part, hroot, hparent, hbelow, hname, rfl⟩
    have hinside : self.ensureInside files (pathOf parent) = .ok () :=
      (self.ensureInside_ok_iff (pathOf parent)).mpr ⟨root, hroot, startsWith_pathOf.mpr hbelow⟩
    rw [resolveAllowMissing]
    simp only [hparent, hinside, hname, join_pathOf]
    rfl

/-- The arguments of a call, and the path it gets to write. -/
structure Writes (tools : WorkspaceTools) (input : Value) (files : Files) (path content : RustString)
    (resolved : PathBuf) : Prop where
  pathGiven : input.get (str "path") = some (.string path)
  contentGiven : input.get (str "content") = some (.string content)
  fits : (utf8 content).length ≤ maxWriteBytes
  resolves : tools.resolveAllowMissing files path = .ok resolved
  parentThere : makeParent files resolved = .ok ()

theorem mapError_ok_iff {α : Type} (x : Except IoError α) (a : α) :
    x.mapError IoError.text = .ok a ↔ x = .ok a := by
  cases x <;> simp [Except.mapError]

/-- A call writes its path, or changes nothing. -/
theorem writeFile_ends (input : Value) (disk : Disk) : Ends (self.writeFile input) disk
    (fun _ disk' => ∃ path content resolved, self.Writes input disk.files path content resolved ∧
      disk.write resolved (utf8 content) = .ok disk')
    (fun _ disk' => disk' = disk) := by
  refine ends_bind (ends_orFail (fun path hpath => ?_) fun _ _ => rfl)
  refine ends_bind (ends_orFail (fun content hcontent => ?_) fun _ _ => rfl)
  by_cases hsize : maxWriteBytes < (utf8 content).length
  · simp only [if_pos hsize]
    exact rfl
  simp only [if_neg hsize]
  refine ends_bind_of_ok (rfl : _ = EStateM.Result.ok disk disk) ?_
  refine ends_bind (ends_orFail (fun resolved hresolved => ?_) fun _ _ => rfl)
  refine ends_bind (ends_orFail (fun made hmade => ?_) fun _ _ => rfl)
  refine ends_bind (ends_orFail (fun disk' hwrite => ?_) fun _ _ => rfl)
  exact ⟨path, content, resolved, ⟨(stringArg_ok_iff _ _ _).mp hpath,
    (stringArg_ok_iff _ _ _).mp hcontent, not_lt.mp hsize, hresolved, (mapError_ok_iff _ _).mp hmade⟩,
    (mapError_ok_iff _ _).mp hwrite⟩

theorem orFail_ok {α : Type} {x : Except RustString α} {a : α} (h : x = .ok a) (disk : Disk) :
    orFail x disk = .ok a disk := by
  rw [h]
  rfl

theorem writeFile_ok {input : Value} {disk disk' : Disk} {path content : RustString}
    {resolved : PathBuf} (h : self.Writes input disk.files path content resolved)
    (hwrite : disk.write resolved (utf8 content) = .ok disk') :
    ∃ out, self.writeFile input disk = .ok out disk' := by
  have hends : Ends (self.writeFile input) disk (fun _ after => after = disk') fun _ _ => False := by
    refine ends_bind_of_ok (orFail_ok ((stringArg_ok_iff _ _ _).mpr h.pathGiven) disk) ?_
    refine ends_bind_of_ok (orFail_ok ((stringArg_ok_iff _ _ _).mpr h.contentGiven) disk) ?_
    simp only [if_neg (not_lt.mpr h.fits)]
    refine ends_bind_of_ok (rfl : _ = EStateM.Result.ok disk disk) ?_
    refine ends_bind_of_ok (orFail_ok h.resolves disk) ?_
    refine ends_bind_of_ok (orFail_ok ((mapError_ok_iff _ _).mpr h.parentThere) disk) ?_
    refine ends_bind_of_ok (orFail_ok ((mapError_ok_iff _ _).mpr hwrite) disk) ?_
    rfl
  cases hrun : self.writeFile input disk with
  | ok out after =>
    obtain rfl := ends_of_ok hends hrun
    exact ⟨out, rfl⟩
  | error e after =>
    rw [Ends, hrun] at hends
    exact hends.elim

section inside

/-- A successful call writes inside the root and nowhere else, and a failing call nowhere. -/
def StaysInside (self : WorkspaceTools) (disk : Disk) : EStateM.Result RustString Disk RustString → Prop
  | .ok _ disk' => ∃ root places, canonicalize disk.files self.cwd = .ok root ∧
    disk'.written = disk.written ++ places ∧ (∀ l ∈ places, root <+: l) ∧
    ∀ l, l ∉ places → disk'.files.node l = disk.files.node l
  | .error _ disk' => disk' = disk

/-- The last name of a path, in a directory inside the root, is a link to a place outside that can
be written. -/
structure LinkOut (tools : WorkspaceTools) (files : Files) (path : RustString) (root parent : Location)
    (n : FileName) (route : Route FileName) (e : End FileName) : Prop where
  rootAt : canonicalize files tools.cwd = .ok root
  parentAt : canonicalize files ((tools.resolveCandidate path).parent.getD tools.cwd) = .ok parent
  inside : root <+: parent
  last : (tools.resolveCandidate path).fileName = some n.val
  link : files.node (parent ++ [n]) = some (.link route)
  leads : files.walk (maxLinks - 1) (if route.fromRoot then [] else parent) route.segments = .ok e
  writable : files.Writable e.place
  outside : ¬ root <+: e.place

def LinksOut (tools : WorkspaceTools) (files : Files) (path : RustString) : Prop :=
  ∃ root parent n route e, LinkOut tools files path root parent n route e

variable {self} {disk : Disk} {path : RustString} {parent : Location} {n : FileName}

theorem parentThere_child (h : files.node parent = some .dir) (n : FileName) :
    makeParent files (parent.map Subtype.val ++ [n.val]) = .ok () := by
  rw [makeParent, parent_child]
  simp only [createDirAll, canonicalize_pathOf (Tree.real_dir h), h]

theorem leadsTo_link (h : files.Real parent) {route : Route FileName}
    (hlink : files.node (parent ++ [n]) = some (.link route)) :
    leadsTo files (parent.map Subtype.val ++ [n.val]) =
      (files.walk (maxLinks - 1) (if route.fromRoot then [] else parent) route.segments).mapError
        .ofFault := by
  rw [leadsTo_child h, ← Tree.walk_link (maxLinks - 1) hlink]
  rfl

/-- What is not a link leads nowhere else. -/
theorem place_of_not_link (hparent : files.Real parent)
    (hnot : ∀ route, files.node (parent ++ [n]) ≠ some (.link route)) {e : End FileName}
    (hdir : files.node parent = some .dir)
    (h : leadsTo files (parent.map Subtype.val ++ [n.val]) = .ok e) : e.place = parent ++ [n] := by
  rw [leadsTo_child hparent] at h
  cases hnode : files.node (parent ++ [n]) with
  | none =>
    rw [Tree.walk_missing maxLinks hdir hnode] at h
    obtain rfl := Except.ok.inj h
    rfl
  | some node =>
    have hreal : files.Real (parent ++ [n]) := by
      refine ⟨node, hnode, ?_⟩
      rintro route rfl
      exact hnot route hnode
    have hfound := Tree.walk_found_names (l := parent) (m := [n]) maxLinks hreal
    rw [List.map_singleton] at hfound
    rw [hfound] at h
    obtain rfl := Except.ok.inj h
    rfl

/-- The last part of a path that leads somewhere is a name. -/
theorem name_of_leadsTo {p : PathBuf} {part : Bytes} (hlast : p.fileName = some part)
    {l : Location} {e : End FileName} (h : leadsTo files (l.map Subtype.val ++ [part]) = .ok e) :
    ∃ n : FileName, part = n.val := by
  rw [fileName, Option.filter_eq_some_iff] at hlast
  obtain ⟨hpart, hup⟩ := hlast
  have hnoise : isNoise part = false := by
    have hne : p.rdropWhile isNoise ≠ [] := by
      intro hnil
      rw [hnil] at hpart
      cases hpart
    rw [List.getLast?_eq_getLast_of_ne_nil hne] at hpart
    have hnot := List.rdropWhile_last_not isNoise p hne
    rwa [Option.some.inj hpart, Bool.not_eq_true] at hnot
  cases hsegment : segmentOf part with
  | none =>
    have hnone : (l.map Subtype.val ++ [part]).mapM segmentOf = none := by
      simp [List.mapM_append, hsegment]
    rw [leadsTo, hnone] at h
    cases h
  | some segment =>
    rw [segmentOf, if_neg (by simpa [isNoise] using hnoise), if_neg (by simpa using hup)] at hsegment
    split_ifs at hsegment with hvalid
    exact ⟨⟨part, hvalid⟩, rfl⟩

theorem dir_of_made (hmade : makeParent files (parent.map Subtype.val ++ [n.val]) = .ok ())
    (hreal : files.Real parent) : files.node parent = some .dir := by
  rw [makeParent, parent_child] at hmade
  simp only [createDirAll, canonicalize_pathOf hreal] at hmade
  split at hmade
  · next hdir => exact hdir
  · cases hmade

/-- What a link leads out to is written. -/
theorem LinkOut.escapes {tools : WorkspaceTools} {input : Value} {content : RustString}
    {root : Location} {route : Route FileName} {e : End FileName}
    (h : LinkOut tools disk.files path root parent n route e)
    (hpath : input.get (str "path") = some (.string path))
    (hcontent : input.get (str "content") = some (.string content))
    (hfits : (utf8 content).length ≤ maxWriteBytes) :
    ¬ StaysInside tools disk (tools.writeFile input disk) := by
  have hdir := disk.files.parents parent n (by rw [h.link]; rfl)
  have hleads : leadsTo disk.files (parent.map Subtype.val ++ [n.val]) = .ok e := by
    rw [leadsTo_link (Tree.real_dir hdir) h.link, h.leads]
    rfl
  obtain ⟨disk', hwrite, hwritten, -⟩ := write_ok (utf8 content) hleads h.writable
  obtain ⟨out, hrun⟩ := tools.writeFile_ok ⟨hpath, hcontent, hfits,
    (tools.resolveAllowMissing_ok_iff path _).mpr
      ⟨root, parent, n.val, h.rootAt, h.parentAt, h.inside, h.last, rfl⟩,
    parentThere_child hdir n⟩ hwrite
  rw [hrun]
  rintro ⟨root', places, hroot, hplaces, hall, -⟩
  obtain rfl := Except.ok.inj (hroot.symm.trans h.rootAt)
  have hplace : places = [e.place] := List.append_cancel_left (hplaces.symm.trans hwritten)
  exact h.outside (hall e.place (by rw [hplace]; exact List.mem_singleton_self _))

/-- A call stays inside the root just when its path is no link that leads out. -/
theorem writeFile_inside_iff (self : WorkspaceTools) (input : Value) (disk : Disk) :
    StaysInside self disk (self.writeFile input disk) ↔
      ∀ path content, input.get (str "path") = some (.string path) →
        input.get (str "content") = some (.string content) → (utf8 content).length ≤ maxWriteBytes →
        ¬ LinksOut self disk.files path := by
  constructor
  · rintro hinside path content hpath hcontent hfits ⟨root, parent, n, route, e, hout⟩
    exact hout.escapes hpath hcontent hfits hinside
  · intro hnone
    have hends := self.writeFile_ends input disk
    cases hrun : self.writeFile input disk with
    | error error disk' =>
      rw [Ends, hrun] at hends
      exact hends
    | ok out disk' =>
      obtain ⟨path, content, resolved, hwrites, hwrite⟩ := ends_of_ok hends hrun
      obtain ⟨root, parent, part, hroot, hparent, hinside, hlast, rfl⟩ :=
        (self.resolveAllowMissing_ok_iff path resolved).mp hwrites.resolves
      obtain ⟨e, hleads, hplace⟩ := write_of_ok hwrite
      obtain ⟨n, rfl⟩ := name_of_leadsTo hlast hleads
      obtain ⟨after, hafter, hwritten, hframe⟩ := write_ok (utf8 content) hleads hplace
      obtain rfl := Except.ok.inj (hwrite.symm.trans hafter)
      have hreal := leadsTo_isEnd (canonicalize_ok_iff.mp hparent)
      have hdir : disk.files.node parent = some .dir := dir_of_made hwrites.parentThere hreal
      refine ⟨root, [e.place], hroot, hwritten, ?_, fun l hl => hframe l (by simpa using hl)⟩
      intro l hl
      obtain rfl := List.mem_singleton.mp hl
      by_contra houtside
      by_cases hlink : ∃ route, disk.files.node (parent ++ [n]) = some (.link route)
      · obtain ⟨route, hlink⟩ := hlink
        rw [leadsTo_link hreal hlink] at hleads
        refine hnone path content hwrites.pathGiven hwrites.contentGiven hwrites.fits
          ⟨root, parent, n, route, e, hroot, hparent, hinside, hlast, hlink, ?_, hplace, houtside⟩
        cases hwalk : disk.files.walk (maxLinks - 1) (if route.fromRoot then [] else parent)
            route.segments with
        | error fault =>
          rw [hwalk] at hleads
          cases hleads
        | ok e' =>
          rw [hwalk] at hleads
          exact congrArg Except.ok (Except.ok.inj hleads)
      · rw [place_of_not_link hreal (fun route hroute => hlink ⟨route, hroute⟩) hdir hleads] at houtside
        exact houtside (hinside.trans (List.prefix_append parent [n]))

/-- A directory `r` with a link `l` to a file `x` beside it. -/
def linkedFiles : Files where
  node
    | [] => some .dir
    | [n] => if n.val = [114] then some .dir else if n.val = [120] then some (.file []) else none
    | [m, n] =>
      if m.val = [114] ∧ n.val = [108] then some (.link ⟨true, [.name ⟨[120], by decide⟩]⟩) else none
    | _ => none
  root := rfl
  parents l n hsome := by
    match l with
    | [] => rfl
    | [m] =>
      have hm : m.val = [114] := by
        by_contra hne
        simp [hne] at hsome
      simp [hm]
    | first :: second :: rest =>
      cases rest with
      | nil => cases hsome
      | cons third rest => cases hsome

theorem linkedFiles_linkOut : LinkOut ⟨[[114]]⟩ linkedFiles (str "l") [⟨[114], by decide⟩]
    [⟨[114], by decide⟩] ⟨[108], by decide⟩ ⟨true, [.name ⟨[120], by decide⟩]⟩
    (.found [⟨[120], by decide⟩]) where
  rootAt := rfl
  parentAt := rfl
  inside := List.prefix_rfl
  last := rfl
  link := rfl
  leads := rfl
  writable := Tree.writable_found (rfl : linkedFiles.node [⟨[120], by decide⟩] = some (.file []))
  outside := by decide

theorem link_written_through : ¬ StaysInside ⟨[[114]]⟩ ⟨linkedFiles, []⟩ (writeFile ⟨[[114]]⟩
    (.object [(str "content", .string (str "c")), (str "path", .string (str "l"))])
    ⟨linkedFiles, []⟩) :=
  linkedFiles_linkOut.escapes rfl rfl (by decide)

end inside

end WorkspaceTools

end Solarcido.Crates
