import Solarcido.Crates.Paths

namespace Solarcido.Crates

open LinkedTree PathBuf

section places

variable {files : Files} {l root : Location}

theorem isNoise_name (n : FileName) : isNoise n.val = false := by
  obtain ⟨hnil, hdot, -⟩ := n.property
  simp [isNoise, hnil, hdot]

theorem segmentOf_name (n : FileName) : segmentOf n.val = some (.name n) := by
  obtain ⟨hnil, hdot, hup, -⟩ := n.property
  rw [segmentOf, if_neg (by simp [hnil, hdot]), if_neg hup, dif_pos n.property]

theorem mapM_segmentOf_names (l : Location) :
    (l.map Subtype.val).mapM segmentOf = some (l.map .name) := by
  induction l with
  | nil => rfl
  | cons n l ih =>
    rw [List.map_cons, List.mapM_cons, segmentOf_name, ih]
    rfl

theorem components_names (l : Location) : components (l.map Subtype.val) = l.map Subtype.val := by
  rw [components, List.filter_eq_self]
  intro part hpart
  obtain ⟨n, -, rfl⟩ := List.mem_map.mp hpart
  rw [isNoise_name]
  rfl

theorem pathOf_of_ne_nil (h : l ≠ []) : pathOf l = l.map Subtype.val := by
  rw [pathOf, ofParts, if_neg]
  exact fun hnil => h (List.map_eq_nil_iff.mp hnil)

theorem components_pathOf (l : Location) : components (pathOf l) = l.map Subtype.val := by
  by_cases hnil : l = []
  · subst hnil
    rfl
  · rw [pathOf_of_ne_nil hnil]
    exact components_names l

theorem map_val_prefix_iff : root.map Subtype.val <+: l.map Subtype.val ↔ root <+: l := by
  constructor
  · intro h
    have htake := List.prefix_iff_eq_take.mp h
    rw [List.length_map, ← List.map_take] at htake
    rw [List.prefix_iff_eq_take]
    exact List.map_injective_iff.mpr Subtype.val_injective htake
  · exact fun h => h.map Subtype.val

theorem startsWith_pathOf : startsWith (pathOf l) (pathOf root) = true ↔ root <+: l := by
  rw [startsWith, List.isPrefixOf_iff_prefix, components_pathOf, components_pathOf,
    map_val_prefix_iff]

theorem join_pathOf (l : Location) (parts : List Bytes) :
    join (pathOf l) parts = l.map Subtype.val ++ parts := by
  cases l using List.reverseRecOn with
  | nil => rfl
  | append_singleton l n =>
    have hlast : ((l ++ [n]).map Subtype.val).getLast? = some n.val := by
      rw [List.map_append, List.map_singleton, List.getLast?_concat]
    rw [pathOf_of_ne_nil (by simp), join, hlast, if_neg]
    exact fun heq => n.property.1 (Option.some.inj heq)

theorem canonicalize_ok_iff {p : PathBuf} :
    canonicalize files p = .ok l ↔ leadsTo files p = .ok (.found l) := by
  rw [canonicalize]
  cases leadsTo files p with
  | error e => simp
  | ok e =>
    cases e with
    | found l' => simp
    | missing l' n => simp

theorem leadsTo_ok_iff {p : PathBuf} {e : End FileName} : leadsTo files p = .ok e ↔
    ∃ segments, p.mapM segmentOf = some segments ∧ files.walk maxLinks [] segments = .ok e := by
  rw [leadsTo]
  cases hsegments : p.mapM segmentOf with
  | none => simp
  | some segments =>
    cases hwalk : files.walk maxLinks [] segments with
    | error fault => simp [hwalk, Except.mapError]
    | ok e' => simp [hwalk, Except.mapError]

/-- What a path is canonicalized to is where the walk along its segments ends. -/
theorem canonicalize_walk {p : PathBuf} {segments : List (Segment FileName)}
    (h : p.mapM segmentOf = some segments) :
    canonicalize files p = .ok l ↔ files.walk maxLinks [] segments = .ok (.found l) := by
  rw [canonicalize_ok_iff, leadsTo_ok_iff, h]
  simp only [Option.some.injEq, exists_eq_left']

theorem segments_of_ok {p : PathBuf} (h : canonicalize files p = .ok l) :
    ∃ segments, p.mapM segmentOf = some segments := by
  obtain ⟨segments, hsegments, -⟩ := leadsTo_ok_iff.mp (canonicalize_ok_iff.mp h)
  exact ⟨segments, hsegments⟩

theorem mapM_segments_cons {part : Bytes} {p : PathBuf} {segments : List (Segment FileName)}
    (h : (part :: p).mapM segmentOf = some segments) : ∃ segment rest,
      segmentOf part = some segment ∧ p.mapM segmentOf = some rest ∧ segments = segment :: rest := by
  rw [List.mapM_cons] at h
  obtain ⟨segment, hpart, h⟩ := Option.bind_eq_some_iff.mp h
  obtain ⟨rest, hrest, hsegments⟩ := Option.bind_eq_some_iff.mp h
  exact ⟨segment, rest, hpart, hrest, (Option.some.inj hsegments).symm⟩

theorem mapM_segments_take {p : PathBuf} {segments : List (Segment FileName)}
    (h : p.mapM segmentOf = some segments) (i : Nat) :
    (p.take i).mapM segmentOf = some (segments.take i) := by
  induction p generalizing segments i with
  | nil =>
    obtain rfl := Option.some.inj h
    simp
  | cons part p ih =>
    obtain ⟨segment, rest, hpart, hrest, rfl⟩ := mapM_segments_cons h
    cases i with
    | zero => rfl
    | succ i =>
      rw [List.take_succ_cons, List.mapM_cons, hpart, ih hrest]
      rfl

theorem mapM_segments_get {p : PathBuf} {segments : List (Segment FileName)}
    (h : p.mapM segmentOf = some segments) {i : Nat} {s : Segment FileName}
    (hs : segments[i]? = some s) : ∃ part, p[i]? = some part ∧ segmentOf part = some s := by
  induction p generalizing segments i with
  | nil =>
    obtain rfl := Option.some.inj h
    simp at hs
  | cons part p ih =>
    obtain ⟨segment, rest, hpart, hrest, rfl⟩ := mapM_segments_cons h
    cases i with
    | zero =>
      obtain rfl := Option.some.inj hs
      exact ⟨part, rfl, hpart⟩
    | succ i => exact ih hrest hs

theorem segmentOf_up {part : Bytes} (h : segmentOf part = some .up) : part = dotDot := by
  rw [segmentOf] at h
  split_ifs at h with hstay hup hname
  · cases h
  · exact hup
  · cases h

theorem segmentOf_name_inv {part : Bytes} {n : FileName} (h : segmentOf part = some (.name n)) :
    part = n.val := by
  rw [segmentOf] at h
  split_ifs at h with hstay hup hname
  · cases h
  · cases h
  · rw [← Segment.name.inj (Option.some.inj h)]

theorem leadsTo_isEnd {p : PathBuf} {e : End FileName} (h : leadsTo files p = .ok e) :
    files.IsEnd e := by
  obtain ⟨segments, -, hwalk⟩ := leadsTo_ok_iff.mp h
  exact Tree.walk_isEnd maxLinks (Tree.real_dir files.root) hwalk

/-- The segments of a path that does not go up are its components. -/
theorem names_of_segments {p : PathBuf} {segments : List (Segment FileName)} (hup : dotDot ∉ p)
    (h : p.mapM segmentOf = some segments) :
    .up ∉ segments ∧ (Tree.names segments).map Subtype.val = components p := by
  induction p generalizing segments with
  | nil =>
    obtain rfl := Option.some.inj h
    exact ⟨List.not_mem_nil, rfl⟩
  | cons part p ih =>
    obtain ⟨segment, rest, hpart, hrest, rfl⟩ := mapM_segments_cons h
    obtain ⟨hrestUp, hnames⟩ := ih (fun hmem => hup (List.mem_cons_of_mem part hmem)) hrest
    have hne : part ≠ dotDot := fun heq => hup (by rw [heq]; exact List.mem_cons_self)
    rw [segmentOf] at hpart
    split_ifs at hpart with hstay hvalid
    · obtain rfl := Option.some.inj hpart
      refine ⟨by simpa using hrestUp, ?_⟩
      have hnoise : isNoise part = true := decide_eq_true hstay
      change (Tree.names rest).map Subtype.val = _
      rw [hnames, components, components, List.filter_cons_of_neg]
      simp [hnoise]
    · obtain rfl := Option.some.inj hpart
      refine ⟨by simpa using hrestUp, ?_⟩
      have hnoise : isNoise part = false := isNoise_name ⟨part, hvalid⟩
      rw [Tree.names, List.map_cons, hnames, components, components, List.filter_cons_of_pos]
      simp [hnoise]

/-- The path of what is there leads to it. -/
theorem canonicalize_pathOf (h : files.Real l) : canonicalize files (pathOf l) = .ok l := by
  rw [canonicalize_ok_iff, leadsTo]
  by_cases hnil : l = []
  · subst hnil
    have hroot : (pathOf []).mapM segmentOf = some [.stay] := rfl
    rw [hroot]
    simp [maxLinks, Tree.walk, Tree.stepsWith, files.root, Except.mapError]
  · have hfound : files.walk maxLinks [] (l.map .name) = .ok (.found l) :=
      Tree.walk_found_names maxLinks h
    rw [pathOf_of_ne_nil hnil, mapM_segmentOf_names]
    simp only [hfound]
    rfl

/-- A name in a directory leads on from there. -/
theorem leadsTo_child (h : files.Real l) (n : FileName) :
    leadsTo files (l.map Subtype.val ++ [n.val]) =
      (files.walk maxLinks l [.name n]).mapError .ofFault := by
  have hsegments : (l.map Subtype.val ++ [n.val]).mapM segmentOf =
      some (l.map Segment.name ++ [.name n]) := by
    rw [← List.map_singleton, ← List.map_append, mapM_segmentOf_names, List.map_append,
      List.map_singleton]
  have hwalk : files.walk maxLinks [] (l.map .name ++ [.name n]) = files.walk maxLinks l [.name n] :=
    Tree.walk_names maxLinks h
  rw [leadsTo, hsegments]
  simp only [hwalk]

theorem rdropWhile_names (l : Location) :
    (l.map Subtype.val).rdropWhile isNoise = l.map Subtype.val := by
  rw [List.rdropWhile_eq_self_iff]
  intro hne hnoise
  obtain ⟨m, -, hm⟩ := List.mem_map.mp (List.getLast_mem hne)
  rw [← hm, isNoise_name] at hnoise
  cases hnoise

theorem parent_child (l : Location) (n : FileName) :
    parent (l.map Subtype.val ++ [n.val]) = some (pathOf l) := by
  have hsnoc : l.map Subtype.val ++ [n.val] = (l ++ [n]).map Subtype.val := by
    rw [List.map_append, List.map_singleton]
  rw [parent, hsnoc, rdropWhile_names, if_neg (by simp), List.map_append, List.map_singleton,
    List.dropLast_concat, rdropWhile_names, pathOf]

/-- What a path leads to is written, or nothing is. -/
theorem write_ok {disk : Disk} {p : PathBuf} {e : End FileName} (contents : Bytes)
    (hleads : leadsTo disk.files p = .ok e) (hplace : disk.files.Writable e.place) :
    ∃ disk', disk.write p contents = .ok disk' ∧ disk'.written = disk.written ++ [e.place] ∧
      ∀ l, l ≠ e.place → disk'.files.node l = disk.files.node l := by
  have hend := leadsTo_isEnd hleads
  cases e with
  | found l =>
    obtain ⟨node, hnode, -⟩ := hend
    obtain hnone | ⟨content, hfile⟩ := hplace.free
    · rw [End.place, hnode] at hnone
      cases hnone
    · refine ⟨⟨disk.files.setFile l contents (Tree.writable_found hfile), disk.written ++ [l]⟩, ?_, rfl,
        fun l' hne => disk.files.setFile_node l contents (Tree.writable_found hfile) l' hne⟩
      rw [Disk.write, hleads]
      simp only
      split
      · rfl
      · next hnot => exact absurd hfile (hnot content)
  | missing l n =>
    obtain ⟨hdir, hnone⟩ := hend
    refine ⟨⟨disk.files.setFile (l ++ [n]) contents (Tree.writable_missing hdir hnone),
      disk.written ++ [l ++ [n]]⟩, ?_, rfl, fun l' hne =>
        disk.files.setFile_node _ contents (Tree.writable_missing hdir hnone) l' hne⟩
    rw [Disk.write, hleads]
    simp only
    split
    · rfl
    · next hnot => exact absurd hnone (hnot hdir)

theorem write_of_ok {disk disk' : Disk} {p : PathBuf} {contents : Bytes}
    (h : disk.write p contents = .ok disk') :
    ∃ e, leadsTo disk.files p = .ok e ∧ disk.files.Writable e.place := by
  rw [Disk.write] at h
  cases hleads : leadsTo disk.files p with
  | error error =>
    rw [hleads] at h
    cases h
  | ok e =>
    rw [hleads] at h
    refine ⟨e, rfl, ?_⟩
    cases e with
    | found l =>
      simp only at h
      split at h
      · next content hfile => exact Tree.writable_found hfile
      · cases h
    | missing l n =>
      simp only at h
      split at h
      · next hdir hnone => exact Tree.writable_missing hdir hnone
      · cases h

end places

end Solarcido.Crates
