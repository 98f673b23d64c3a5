import Solarcido.Sessions.Partition

namespace Solarcido.Sessions

open Text NodePath NormalPath

theorem join_name (s : JsString) (n : FileName) : join [s, n.val] = ((parse s).push n).text := by
  by_cases hs : s = []
  · subst hs
    have hfilter : [[], n.val].filter (· ≠ []) = [n.val] := by simp [n.property.1]
    have hjoin : Text.join [slash] [n.val] = [] ++ n.val := by simp [Text.join]
    have hnil : parse [] = NormalPath.start false := by
      rw [parse, split, splitFrom, List.reverse_nil, List.foldl_cons, List.foldl_nil, step_nil]
      rfl
    rw [NodePath.join, hfilter, if_neg (by simp), hjoin, normalize_append _ _ n.property.1 n.property.2.1,
      List.nil_append, parse_name, hnil]
  · have hfilter : [s, n.val].filter (· ≠ []) = [s, n.val] := by simp [hs, n.property.1]
    have hjoin : Text.join [slash] [s, n.val] = (s ++ [slash]) ++ n.val := by simp [Text.join]
    rw [NodePath.join, hfilter, if_neg (by simp), hjoin, normalize_append _ _ n.property.1 n.property.2.1,
      List.append_assoc, List.singleton_append, parse_append_name s hs]

/-- The id of a path is its last name without a session file's extension. -/
theorem basename_of_sessionId {path id : JsString} (h : sessionIdFromPath path = some id) :
    ∃ ext ∈ sessionExtensions, basename path = id ++ (js "." ++ ext) := by
  obtain ⟨ext, hext, hid⟩ := List.exists_of_findSome?_eq_some h
  split at hid
  · next hends =>
    obtain ⟨front, hfront⟩ := List.isSuffixOf_iff_suffix.mp hends
    rw [Option.some.injEq] at hid
    refine ⟨ext, hext, ?_⟩
    have hlen : (js "." ++ ext).length = ext.length + 1 := by
      rw [List.length_append, Nat.add_comm]
      rfl
    rw [← hid, ← hfront, List.length_append, hlen, Nat.add_sub_cancel, List.take_left]
  · cases hid

section references

variable {fs : FsAdapter} {localeCompare : JsString → JsString → Int} {loadSummary : LoadSummary}
  {store : SessionStore} {id path : JsString}

theorem resolve_alias (h : isSessionReferenceAlias id = true) :
    store.resolveReference fs localeCompare loadSummary id =
      (store.latestSession fs localeCompare loadSummary).map fun summary =>
        ⟨summary.id, summary.path⟩ := by
  rw [SessionStore.resolveReference, if_pos h]

theorem isAbsolute_of_no_slash {s : JsString} (h : slash ∉ s) : isAbsolute s = false := by
  cases s with
  | nil => rfl
  | cons c s =>
    have hc : slash ≠ c := fun heq => h (by simp [heq])
    simp [isAbsolute, startsWith, List.isPrefixOf, hc]

/-- An id with an extension is taken for a path under the workspace. -/
theorem resolve_extension (halias : isSessionReferenceAlias id = false) (hslash : slash ∉ id)
    (hext : extname id ≠ []) :
    store.resolveReference fs localeCompare loadSummary id =
      if fs.pathExists (join [store.workspaceRoot, id]) then
        .ok ⟨(sessionIdFromPath (join [store.workspaceRoot, id])).getD id,
          join [store.workspaceRoot, id]⟩
      else .error (.notFound id store.sessionsRoot) := by
  rw [SessionStore.resolveReference, halias]
  simp only [isAbsolute_of_no_slash hslash, Bool.false_eq_true, if_false, hext, ne_eq,
    not_false_eq_true, true_or, if_true]

/-- A bare id is looked for under the first extension and then under the second. -/
theorem resolve_bare (halias : isSessionReferenceAlias id = false) (hslash : slash ∉ id)
    (hext : extname id = []) :
    store.resolveReference fs localeCompare loadSummary id =
      if fs.pathExists (store.createHandle id).path then .ok (store.createHandle id)
      else if fs.pathExists (join [store.sessionsRoot, id ++ (js "." ++ legacySessionExtension)]) then
        .ok ⟨id, join [store.sessionsRoot, id ++ (js "." ++ legacySessionExtension)]⟩
      else .error (.notFound id store.sessionsRoot) := by
  have hpath : (store.createHandle id).path =
      join [store.sessionsRoot, id ++ (js "." ++ primarySessionExtension)] := rfl
  have hhandle : store.createHandle id = ⟨id, (store.createHandle id).path⟩ := rfl
  rw [SessionStore.resolveReference, halias, hhandle, hpath]
  simp only [hext, hslash, ne_eq, not_true_eq_false, or_self, if_false, Bool.false_eq_true,
    sessionExtensions, List.findSome?_cons, List.findSome?_nil]
  split_ifs <;> rfl

/-- A file that the store lists under the id of its name. -/
structure ListedAs (fs : FsAdapter) (store : SessionStore) (id path : JsString) : Prop where
  listed : ∃ summary ∈ SessionStore.collectFromDir fs none store.sessionsRoot,
    summary.id = id ∧ summary.path = path
  named : sessionIdFromPath path = some id
  there : fs.pathExists path = true

/-- A listed file's name is its id and one of the two extensions. -/
theorem listed_path (h : ListedAs fs store id path) :
    slash ∉ id ∧ ∃ ext ∈ sessionExtensions,
      path = join [store.sessionsRoot, id ++ (js "." ++ ext)] := by
  obtain ⟨summary, hmem, -, hpath⟩ := h.listed
  obtain ⟨n, -, hsome⟩ := List.mem_filterMap.mp hmem
  dsimp only at hsome
  split at hsome
  · have hfull : path = join [store.sessionsRoot, n.val] := by
      rw [← hpath, ← Option.some.inj hsome]
      rfl
    obtain ⟨ext, hext, hbase⟩ := basename_of_sessionId h.named
    rw [hfull, join_name, basename_push] at hbase
    refine ⟨fun hslash => n.property.2.1 ?_, ext, hext, ?_⟩
    · rw [hbase]
      exact List.mem_append_left _ hslash
    · rw [hfull, hbase]
  · cases hsome

/-- A listed id leads to its file, or to the file of the first extension where there is one. -/
theorem resolve_listed (h : ListedAs fs store id path) (halias : isSessionReferenceAlias id = false)
    (hext : extname id = []) :
    store.resolveReference fs localeCompare loadSummary id =
      .ok (if fs.pathExists (store.createHandle id).path then store.createHandle id else ⟨id, path⟩) := by
  obtain ⟨hslash, ext, hmem, hpath⟩ := listed_path h
  rw [resolve_bare halias hslash hext]
  split
  · rfl
  · next hprimary =>
    obtain rfl | rfl : ext = primarySessionExtension ∨ ext = legacySessionExtension := by
      simpa [sessionExtensions] using hmem
    · have hthere := h.there
      rw [hpath] at hthere
      exact absurd hthere hprimary
    · rw [← hpath, if_pos h.there]

/-- How the store's own ids are taken as references. -/
structure RoundTrip (fs : FsAdapter) (localeCompare : JsString → JsString → Int)
    (loadSummary : LoadSummary) (store : SessionStore) : Prop where
  bare : ∀ id, slash ∉ id → fs.pathExists (store.createHandle id).path = true →
    isSessionReferenceAlias id = false → extname id = [] →
      store.resolveReference fs localeCompare loadSummary id = .ok (store.createHandle id)
  aliased : ∀ id, isSessionReferenceAlias id = true →
    store.resolveReference fs localeCompare loadSummary id =
      (store.latestSession fs localeCompare loadSummary).map fun summary =>
        ⟨summary.id, summary.path⟩
  extension : ∀ id, slash ∉ id → isSessionReferenceAlias id = false → extname id ≠ [] →
    store.resolveReference fs localeCompare loadSummary id =
      if fs.pathExists (join [store.workspaceRoot, id]) then
        .ok ⟨(sessionIdFromPath (join [store.workspaceRoot, id])).getD id,
          join [store.workspaceRoot, id]⟩
      else .error (.notFound id store.sessionsRoot)
  listed : ∀ id path, ListedAs fs store id path → isSessionReferenceAlias id = false →
    extname id = [] → store.resolveReference fs localeCompare loadSummary id =
      .ok (if fs.pathExists (store.createHandle id).path then store.createHandle id else ⟨id, path⟩)

theorem resolveReference_roundTrip (fs : FsAdapter) (localeCompare : JsString → JsString → Int)
    (loadSummary : LoadSummary) (store : SessionStore) :
    RoundTrip fs localeCompare loadSummary store where
  bare id hslash hexists halias hext := by rw [resolve_bare halias hslash hext, if_pos hexists]
  aliased id halias := resolve_alias halias
  extension id hslash halias hext := resolve_extension halias hslash hext
  listed id path h halias hext := resolve_listed h halias hext

/-- One file and nothing else. -/
def onlyFile (path : JsString) : FsAdapter where
  realpath := some
  mkdir _ := .ok ()
  pathExists p := p = path
  readdir _ := []
  mtimeMs _ := 0

def dottedName : FileName := ⟨js "v1.2" ++ (js "." ++ primarySessionExtension), by decide⟩

theorem handle_dotted : ((storeOf (js "/a")).createHandle (js "v1.2")).path =
    ((parse (storeOf (js "/a")).sessionsRoot).push dottedName).text :=
  join_name (storeOf (js "/a")).sessionsRoot dottedName

/-- A session of a dotted id has its file at its handle's path, and is not found by its id. -/
theorem dotted_id_not_found :
    slash ∉ js "v1.2" ∧
      (onlyFile ((storeOf (js "/a")).createHandle (js "v1.2")).path).pathExists
        ((storeOf (js "/a")).createHandle (js "v1.2")).path = true ∧
      (storeOf (js "/a")).resolveReference
        (onlyFile ((storeOf (js "/a")).createHandle (js "v1.2")).path) compareUnits none (js "v1.2") =
          .error (.notFound (js "v1.2") (storeOf (js "/a")).sessionsRoot) := by
  have hslash : slash ∉ js "v1.2" := by decide
  have hcandidate : join [js "/a", js "v1.2"] = js "/a/v1.2" := by decide
  have hother : js "/a/v1.2" ≠ ((storeOf (js "/a")).createHandle (js "v1.2")).path := by
    intro h
    have hbase := congrArg basename h
    rw [handle_dotted, basename_push] at hbase
    revert hbase
    decide
  refine ⟨hslash, by simp [onlyFile], ?_⟩
  rw [resolve_extension (by decide) hslash (by decide)]
  have hroot : (storeOf (js "/a")).workspaceRoot = js "/a" := rfl
  rw [hroot, hcandidate, onlyFile]
  simp only [hother, decide_false, Bool.false_eq_true, if_false]

end references

end Solarcido.Sessions
