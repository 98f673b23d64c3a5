import Mathlib.Data.Set.Basic
import Solarcido.Sessions.Store

namespace Solarcido.Sessions

open Text NodePath

section names

theorem digitChar_ne (d : Nat) : d.digitChar ≠ '/' ∧ d.digitChar.toNat < 128 := by
  by_cases hd : d < 16
  · revert d
    decide
  · have hstar : d.digitChar = '*' := by
      unfold Nat.digitChar
      repeat rw [if_neg (by omega)]
    rw [hstar]
    decide

theorem mem_toDigits (n : Nat) : ∀ c ∈ Nat.toDigits 16 n, ∃ d : Nat, c = d.digitChar := by
  induction n using Nat.strongRecOn with
  | _ n ih =>
    intro c hc
    rw [Nat.toDigits_eq_if (by decide)] at hc
    split at hc
    · exact ⟨n, List.mem_singleton.mp hc⟩
    · next hn =>
      rcases List.mem_append.mp hc with hc | hc
      · exact ih (n / 16) (by omega) c hc
      · exact ⟨n % 16, List.mem_singleton.mp hc⟩

theorem hexWord_slash (word : UInt32) : slash ∉ hexWord word := by
  intro h
  rcases List.mem_append.mp h with h | h
  · exact absurd (List.eq_of_mem_replicate h) (by decide)
  · obtain ⟨c, hc, hslash⟩ := List.mem_map.mp h
    obtain ⟨d, rfl⟩ := mem_toDigits word.toNat c hc
    have hd := digitChar_ne d
    have hnat : d.digitChar.toNat = '/'.toNat := by
      have := congrArg UInt16.toNat hslash
      rw [UInt16.toNat_ofNat'] at this
      rw [show (slash : UInt16).toNat = 47 from rfl] at this
      rw [show '/'.toNat = 47 from rfl]
      omega
    exact hd.1 (Char.toNat_inj.mp hnat)

theorem hexWord_length (word : UInt32) : 8 ≤ (hexWord word).length := by
  simp only [hexWord, Text.padStart, List.length_append, List.length_replicate]
  omega

theorem workspaceFingerprint_isName (workspacePath : JsString) :
    IsName (workspaceFingerprint workspacePath) := by
  have hlen : 16 ≤ (workspaceFingerprint workspacePath).length := by
    rw [workspaceFingerprint, List.length_append]
    exact Nat.add_le_add (hexWord_length _) (hexWord_length _)
  have hslash : slash ∉ workspaceFingerprint workspacePath := by
    rw [workspaceFingerprint, List.mem_append]
    exact not_or.mpr ⟨hexWord_slash _, hexWord_slash _⟩
  refine ⟨fun h => ?_, hslash, fun h => ?_, fun h => ?_⟩
  · simp [h] at hlen
  · exact absurd (h ▸ hlen) (by decide)
  · exact absurd (h ▸ hlen) (by decide)

def sessionsName : FileName := ⟨js "sessions", by decide⟩

def fingerprintName (workspacePath : JsString) : FileName :=
  ⟨workspaceFingerprint workspacePath, workspaceFingerprint_isName workspacePath⟩

/-- The directory that all the stores of a data directory share. -/
def shared (dataDir : JsString) : NormalPath := (parse dataDir).push sessionsName

/-- The directory of one workspace's store. -/
def home (dataDir workspacePath : JsString) : NormalPath :=
  (shared dataDir).push (fingerprintName workspacePath)

theorem dataDirSessionsRoot_eq (dataDir workspacePath : JsString) :
    dataDirSessionsRoot dataDir workspacePath = (home dataDir workspacePath).text :=
  join_names dataDir sessionsName (fingerprintName workspacePath)

theorem dirname_home (dataDir workspacePath : JsString) :
    dirname (home dataDir workspacePath).text = (shared dataDir).text := dirname_push _ _

theorem legacySessionsRoot_home (dataDir workspacePath : JsString) :
    legacySessionsRoot (home dataDir workspacePath).text = some (shared dataDir).text := by
  have hbase : basename (shared dataDir).text = js "sessions" := basename_push _ sessionsName
  simp only [legacySessionsRoot, dirname_home]
  rw [if_pos hbase]

end names

section handles

theorem lastDot_jsonl (s : JsString) :
    isManagedSessionFile (s ++ (js "." ++ primarySessionExtension)) = true := by
  have hplain : ∀ c ∈ primarySessionExtension.reverse, (c != 46) = true :=
    List.all_eq_true.mp (by decide)
  have hext : afterLastDot (s ++ (js "." ++ primarySessionExtension)) = primarySessionExtension := by
    rw [afterLastDot, List.reverse_append, List.reverse_append, List.append_assoc,
      List.takeWhile_append_of_pos hplain]
    have hdot : ((js ".").reverse ++ s.reverse).takeWhile (· != 46) = [] := by
      rw [show (js ".").reverse = [46] by decide, List.singleton_append, List.takeWhile_cons,
        if_neg (by decide)]
    rw [hdot, List.append_nil, List.reverse_reverse]
  rw [isManagedSessionFile, hext]
  decide

/-- A handle's path is the path of an entry of some directory, and its extension is a
session file's. -/
theorem handle_path (p : NormalPath) (id : JsString) :
    ∃ (q : NormalPath) (n : FileName), sessionHandlePath p.text id = (q.push n).text ∧
      isManagedSessionFile (q.push n).text = true := by
  obtain ⟨q, n, front, hjoin, hn⟩ := join_text_tail p id (js "." ++ primarySessionExtension)
    (by decide) (by decide)
  refine ⟨q, n, hjoin, ?_⟩
  obtain ⟨before, htext⟩ := q.text_push_suffix n
  rw [htext, hn, ← List.append_assoc]
  exact lastDot_jsonl _

/-- An id without a slash stays in the directory. -/
theorem plain_dirname (p : NormalPath) (id ext : JsString) (hid : slash ∉ id)
    (hext : ext ∈ sessionExtensions) : dirname (join [p.text, id ++ (js "." ++ ext)]) = p.text := by
  have hplain : slash ∉ js "." ++ ext ∧ 5 ≤ (js "." ++ ext).length := by
    revert ext
    decide
  have hslash : slash ∉ id ++ (js "." ++ ext) := by
    rw [List.mem_append]
    exact not_or.mpr ⟨hid, hplain.1⟩
  have hlen : 5 ≤ (id ++ (js "." ++ ext)).length := by
    rw [List.length_append]
    exact Nat.le_add_left_of_le hplain.2
  have hname : IsName (id ++ (js "." ++ ext)) := by
    refine ⟨fun h => ?_, hslash, fun h => ?_, fun h => ?_⟩
    · simp [h] at hlen
    · exact absurd (h ▸ hlen) (by decide)
    · exact absurd (h ▸ hlen) (by decide)
  have hjoin := join_text_name p ⟨_, hname⟩
  rw [hjoin, dirname_push]

end handles

section visible

variable (fs : FsAdapter) (localeCompare : JsString → JsString → Int) (loadSummary : LoadSummary)

/-- A file is written at the path: it is there, and its directory lists it. -/
def Written (path : JsString) : Prop :=
  fs.pathExists path = true ∧ ∃ n ∈ fs.readdir (dirname path), n.val = basename path

/-- One of the store's sessions is the file at the path. -/
def Lists (store : SessionStore) (path : JsString) : Prop :=
  ∃ summary ∈ store.listSessions fs localeCompare loadSummary, summary.path = path

/-- A reference that is looked up as the id of a session. -/
def IsBareId (reference : JsString) : Prop := extname reference = [] ∧ slash ∉ reference

/-- The store gives the file at the path away. -/
inductive Shows (store : SessionStore) (path : JsString) : Prop where
  | listed (h : Lists fs localeCompare loadSummary store path)
  | latest (summary : SessionSummary)
      (h : store.latestSession fs localeCompare loadSummary = .ok summary)
      (hpath : summary.path = path)
  | resolved (reference : JsString) (handle : SessionHandle)
      (hkind : isSessionReferenceAlias reference = true ∨ IsBareId reference)
      (h : store.resolveReference fs localeCompare loadSummary reference = .ok handle)
      (hpath : handle.path = path)

/-- The directory has a session file at the path. -/
def Holds (p : NormalPath) (path : JsString) : Prop :=
  ∃ n ∈ fs.readdir p.text, (p.push n).text = path ∧ isManagedSessionFile path = true

variable {fs localeCompare loadSummary}

variable (loadSummary) in
theorem collectFromDir_path (p : NormalPath) (path : JsString) :
    (∃ summary ∈ SessionStore.collectFromDir fs loadSummary p.text, summary.path = path) ↔
      Holds fs p path := by
  constructor
  · rintro ⟨summary, hmem, hpath⟩
    obtain ⟨n, hn, hsome⟩ := List.mem_filterMap.mp hmem
    simp only [join_text_name] at hsome
    split at hsome
    · next hmanaged =>
      rw [Option.some.injEq] at hsome
      have hn' : (p.push n).text = path := by
        rw [← hpath, ← hsome]
        rfl
      exact ⟨n, hn, hn', hn' ▸ hmanaged⟩
    · simp at hsome
  · rintro ⟨n, hn, rfl, hmanaged⟩
    refine ⟨SessionStore.summaryOf fs loadSummary n.val (p.push n).text, ?_, rfl⟩
    refine List.mem_filterMap.mpr ⟨n, hn, ?_⟩
    simp only [join_text_name]
    rw [if_pos hmanaged]

variable {store : SessionStore} {dataDir workspace path : JsString}

theorem lists_iff (hroot : store.sessionsRoot = (home dataDir workspace).text) :
    Lists fs localeCompare loadSummary store path ↔
      Holds fs (home dataDir workspace) path ∨ Holds fs (shared dataDir) path := by
  have hmem : ∀ summary, summary ∈ store.listSessions fs localeCompare loadSummary ↔
      summary ∈ SessionStore.collectFromDir fs loadSummary (home dataDir workspace).text ∨
        summary ∈ SessionStore.collectFromDir fs loadSummary (shared dataDir).text := by
    intro summary
    rw [SessionStore.listSessions, hroot, legacySessionsRoot_home, sortSessionSummaries,
      List.mem_mergeSort, List.mem_append]
  rw [← collectFromDir_path loadSummary, ← collectFromDir_path loadSummary]
  constructor
  · rintro ⟨summary, hs, hpath⟩
    rcases (hmem summary).mp hs with hs | hs
    · exact .inl ⟨summary, hs, hpath⟩
    · exact .inr ⟨summary, hs, hpath⟩
  · rintro (⟨summary, hs, hpath⟩ | ⟨summary, hs, hpath⟩)
    · exact ⟨summary, (hmem summary).mpr (.inl hs), hpath⟩
    · exact ⟨summary, (hmem summary).mpr (.inr hs), hpath⟩

theorem latest_listed {summary : SessionSummary}
    (h : store.latestSession fs localeCompare loadSummary = .ok summary) :
    Lists fs localeCompare loadSummary store summary.path := by
  unfold SessionStore.latestSession at h
  split at h
  · simp at h
  · next first rest hlist =>
    obtain rfl : first = summary := by simpa using h
    exact ⟨first, by simp [hlist], rfl⟩

/-- A bare id leads into the store's own directory. -/
theorem bare_resolved {reference : JsString} {handle : SessionHandle}
    (hroot : store.sessionsRoot = (home dataDir workspace).text) (hbare : IsBareId reference)
    (halias : isSessionReferenceAlias reference = false)
    (h : store.resolveReference fs localeCompare loadSummary reference = .ok handle) :
    dirname handle.path = (home dataDir workspace).text := by
  rw [SessionStore.resolveReference, halias] at h
  simp only [hbare.1, hbare.2, ne_eq, not_true_eq_false, or_self, if_false, Bool.false_eq_true] at h
  split at h
  · next p hfound =>
    obtain rfl : (⟨reference, p⟩ : SessionHandle) = handle := by simpa using h
    obtain ⟨ext, hext, hp⟩ := List.exists_of_findSome?_eq_some hfound
    split at hp
    · rw [Option.some.injEq] at hp
      rw [← hp, hroot]
      exact plain_dirname _ reference ext hbare.2 hext
    · simp at hp
  · simp at h

theorem shows_cases (hroot : store.sessionsRoot = (home dataDir workspace).text)
    (h : Shows fs localeCompare loadSummary store path) :
    Lists fs localeCompare loadSummary store path ∨
      dirname path = (home dataDir workspace).text := by
  cases h with
  | listed h => exact .inl h
  | latest summary h hpath => exact .inl (hpath ▸ latest_listed h)
  | resolved reference handle hkind h hpath =>
    cases halias : isSessionReferenceAlias reference with
    | true =>
      rw [SessionStore.resolveReference, if_pos halias] at h
      cases hlatest : store.latestSession fs localeCompare loadSummary with
      | error e => simp [hlatest, Except.map] at h
      | ok summary =>
        obtain rfl : (⟨summary.id, summary.path⟩ : SessionHandle) = handle := by
          simpa [hlatest, Except.map] using h
        exact .inl (hpath ▸ latest_listed hlatest)
    | false =>
      have hbare := hkind.resolve_left (by simp [halias])
      exact .inr (hpath ▸ bare_resolved hroot hbare halias h)

end visible

section partition

variable {fs : FsAdapter} {localeCompare : JsString → JsString → Int}
  {loadA loadB : LoadSummary} {a b : SessionStore} {dataDir path : JsString}
  {idsA idsB : Set JsString}

variable (fs localeCompare loadA loadB a b idsA idsB) in
/-- No session file is visible through both stores. Two results are the same file when their
paths are. -/
structure Isolated : Prop where
  first : ∀ id ∈ idsA, Written fs (a.createHandle id).path →
    ¬ Shows fs localeCompare loadB b (a.createHandle id).path
  second : ∀ id ∈ idsB, Written fs (b.createHandle id).path →
    ¬ Shows fs localeCompare loadA a (b.createHandle id).path
  lists : ∀ path, ¬ (Lists fs localeCompare loadA a path ∧ Lists fs localeCompare loadB b path)

variable (fs a b idsA idsB) in
/-- The directory above the stores has no session file of its own, and no id that is written
climbs from its own store into the other's directory. -/
structure Separated : Prop where
  legacy : ∀ n ∈ fs.readdir (dirname a.sessionsRoot),
    isManagedSessionFile (join [dirname a.sessionsRoot, n.val]) = false
  first : ∀ id ∈ idsA, Written fs (sessionHandlePath a.sessionsRoot id) →
    dirname (sessionHandlePath a.sessionsRoot id) ≠ b.sessionsRoot
  second : ∀ id ∈ idsB, Written fs (sessionHandlePath b.sessionsRoot id) →
    dirname (sessionHandlePath b.sessionsRoot id) ≠ a.sessionsRoot

theorem fromDataDir_root {fs : FsAdapter} {workspaceRoot : JsString}
    (h : SessionStore.fromDataDir fs dataDir workspaceRoot = .ok a) :
    a.sessionsRoot = (home dataDir a.workspaceRoot).text := by
  unfold SessionStore.fromDataDir at h
  cases hmkdir : fs.mkdir
      (dataDirSessionsRoot dataDir ((fs.realpath workspaceRoot).getD workspaceRoot)) with
  | error e => simp [hmkdir, bind, Except.bind] at h
  | ok u =>
    simp only [hmkdir, bind, Except.bind, pure, Except.pure, Except.ok.injEq] at h
    rw [← h, dataDirSessionsRoot_eq]

/-- A file that is written in the store's directory is listed by the store. -/
theorem written_listed {p q : NormalPath} {n : FileName} (hpath : (q.push n).text = path)
    (hw : Written fs path) (hmanaged : isManagedSessionFile path = true)
    (hdir : dirname path = p.text) : Holds fs p path := by
  obtain ⟨-, m, hm, hname⟩ := hw
  have hq : q = p := NormalPath.text_injective (by rw [← dirname_push q n, hpath, hdir])
  have hn : m = n := Subtype.ext (by rw [hname, ← hpath, basename_push])
  rw [hdir] at hm
  exact ⟨m, hm, by rw [hn, ← hq, hpath], hmanaged⟩

theorem holds_dirname {p : NormalPath} (h : Holds fs p path) : dirname path = p.text := by
  obtain ⟨n, -, rfl, -⟩ := h
  exact dirname_push p n

theorem legacy_iff (ha : a.sessionsRoot = (home dataDir a.workspaceRoot).text) :
    (∀ n ∈ fs.readdir (dirname a.sessionsRoot),
      isManagedSessionFile (join [dirname a.sessionsRoot, n.val]) = false) ↔
      ∀ path, ¬ Holds fs (shared dataDir) path := by
  rw [ha, dirname_home]
  simp only [join_text_name]
  constructor
  · rintro h path ⟨n, hn, rfl, hmanaged⟩
    exact absurd hmanaged (by simp [h n hn])
  · intro h n hn
    by_contra hmanaged
    exact h _ ⟨n, hn, rfl, by simpa using hmanaged⟩

/-- A store with nothing in the shared directory shows files of its own directory only. -/
theorem not_shows (hroot : b.sessionsRoot = (home dataDir b.workspaceRoot).text)
    (hshared : ∀ path, ¬ Holds fs (shared dataDir) path) (hdir : dirname path ≠ b.sessionsRoot) :
    ¬ Shows fs localeCompare loadB b path := by
  intro hshows
  rw [hroot] at hdir
  rcases shows_cases hroot hshows with hlists | hhome
  · rcases (lists_iff hroot).mp hlists with h | h
    · exact hdir (holds_dirname h)
    · exact hshared path h
  · exact hdir hhome

theorem strayed_shows (ha : a.sessionsRoot = (home dataDir a.workspaceRoot).text)
    (hb : b.sessionsRoot = (home dataDir b.workspaceRoot).text) {id : JsString}
    (hw : Written fs (sessionHandlePath a.sessionsRoot id))
    (hdir : dirname (sessionHandlePath a.sessionsRoot id) = b.sessionsRoot) :
    Shows fs localeCompare loadB b (sessionHandlePath a.sessionsRoot id) := by
  obtain ⟨q, n, hpath, hmanaged⟩ := handle_path (home dataDir a.workspaceRoot) id
  rw [← ha] at hpath
  rw [← hpath] at hmanaged
  exact .listed ((lists_iff hb).mpr (.inl (written_listed hpath.symm hw hmanaged (hb ▸ hdir))))

/-- Two stores over one data directory are isolated exactly when the directory they share has
no session file and no id leads from one store into the other. -/
theorem isolated_iff {fs₁ fs₂ : FsAdapter} {workspaceA workspaceB : JsString}
    (ha : SessionStore.fromDataDir fs₁ dataDir workspaceA = .ok a)
    (hb : SessionStore.fromDataDir fs₂ dataDir workspaceB = .ok b)
    (hne : workspaceFingerprint a.workspaceRoot ≠ workspaceFingerprint b.workspaceRoot) :
    Isolated fs localeCompare loadA loadB a b idsA idsB ↔ Separated fs a b idsA idsB := by
  have hrootA := fromDataDir_root ha
  have hrootB := fromDataDir_root hb
  constructor
  · intro h
    refine ⟨(legacy_iff hrootA).mpr fun path hshared => ?_, fun id hid hw hdir => ?_,
      fun id hid hw hdir => ?_⟩
    · exact h.lists path ⟨(lists_iff hrootA).mpr (.inr hshared), (lists_iff hrootB).mpr (.inr hshared)⟩
    · exact h.first id hid hw (strayed_shows hrootA hrootB hw hdir)
    · exact h.second id hid hw (strayed_shows hrootB hrootA hw hdir)
  · intro h
    have hshared := (legacy_iff hrootA).mp h.legacy
    refine ⟨fun id hid hw => not_shows hrootB hshared (h.first id hid hw),
      fun id hid hw => not_shows hrootA hshared (h.second id hid hw), ?_⟩
    rintro path ⟨hlistsA, hlistsB⟩
    rcases (lists_iff hrootA).mp hlistsA with hA | hA
    · rcases (lists_iff hrootB).mp hlistsB with hB | hB
      · have hhome : home dataDir a.workspaceRoot = home dataDir b.workspaceRoot :=
          NormalPath.text_injective (by rw [← holds_dirname hA, holds_dirname hB])
        have hpush := push_text_inj (congrArg NormalPath.text hhome)
        exact hne (congrArg Subtype.val hpush.2)
      · exact hshared path hB
    · exact hshared path hA

/-- Ids without a slash never stray, so what is left is the shared directory. -/
theorem separated_of_plain {fs₁ fs₂ : FsAdapter} {workspaceA workspaceB : JsString}
    (ha : SessionStore.fromDataDir fs₁ dataDir workspaceA = .ok a)
    (hb : SessionStore.fromDataDir fs₂ dataDir workspaceB = .ok b)
    (hne : a.sessionsRoot ≠ b.sessionsRoot) (hidsA : ∀ id ∈ idsA, slash ∉ id)
    (hidsB : ∀ id ∈ idsB, slash ∉ id)
    (hlegacy : ∀ n ∈ fs.readdir (dirname a.sessionsRoot),
      isManagedSessionFile (join [dirname a.sessionsRoot, n.val]) = false) :
    Separated fs a b idsA idsB := by
  have hprimary : primarySessionExtension ∈ sessionExtensions := by simp [sessionExtensions]
  refine ⟨hlegacy, fun id hid _ hdir => ?_, fun id hid _ hdir => ?_⟩
  · rw [fromDataDir_root ha] at hdir hne
    rw [sessionHandlePath, plain_dirname _ id _ (hidsA id hid) hprimary] at hdir
    exact hne hdir
  · rw [fromDataDir_root hb] at hdir hne
    rw [sessionHandlePath, plain_dirname _ id _ (hidsB id hid) hprimary] at hdir
    exact hne hdir.symm

end partition

section instances

/-- Files in one directory. -/
def directoryFs (dir : JsString) (names : List FileName) : FsAdapter where
  realpath := some
  mkdir _ := .ok ()
  pathExists p := dirname p = dir ∧ basename p ∈ names.map Subtype.val
  readdir p := if p = dir then names else []
  mtimeMs _ := 0

def compareUnits (x y : JsString) : Int := if x = y then 0 else if x < y then -1 else 1

def storeOf (workspaceRoot : JsString) : SessionStore :=
  ⟨dataDirSessionsRoot (js "/d") workspaceRoot, workspaceRoot⟩

theorem fingerprints_differ :
    workspaceFingerprint (js "/a") ≠ workspaceFingerprint (js "/b") := by
  decide +kernel

theorem empty_stores_isolated :
    Isolated (directoryFs (js "/d/sessions") []) compareUnits none none
      (storeOf (js "/a")) (storeOf (js "/b")) Set.univ Set.univ := by
  have ha : SessionStore.fromDataDir (directoryFs [] []) (js "/d") (js "/a") =
      .ok (storeOf (js "/a")) := rfl
  have hb : SessionStore.fromDataDir (directoryFs [] []) (js "/d") (js "/b") =
      .ok (storeOf (js "/b")) := rfl
  refine (isolated_iff ha hb fingerprints_differ).mpr ⟨?_, ?_, ?_⟩
  · simp [directoryFs]
  · rintro id - ⟨hexists, -⟩
    simp [directoryFs] at hexists
  · rintro id - ⟨hexists, -⟩
    simp [directoryFs] at hexists

/-- A session file in the shared directory is listed by both stores. -/
theorem legacy_session_shared :
    SessionStore.fromDataDir (directoryFs [] []) (js "/d") (js "/a") = .ok (storeOf (js "/a")) ∧
      SessionStore.fromDataDir (directoryFs [] []) (js "/d") (js "/b") = .ok (storeOf (js "/b")) ∧
      workspaceFingerprint (js "/a") ≠ workspaceFingerprint (js "/b") ∧
      ¬ Isolated (directoryFs (js "/d/sessions") [⟨js "s.jsonl", by decide⟩]) compareUnits none none
        (storeOf (js "/a")) (storeOf (js "/b")) ∅ ∅ := by
  refine ⟨rfl, rfl, fingerprints_differ, fun h => ?_⟩
  have hshared : Holds (directoryFs (js "/d/sessions") [⟨js "s.jsonl", by decide⟩])
      (shared (js "/d")) (js "/d/sessions/s.jsonl") := by
    refine ⟨⟨js "s.jsonl", by decide⟩, ?_, by decide, by decide⟩
    have hdir : (shared (js "/d")).text = js "/d/sessions" := by decide
    simp [directoryFs, hdir]
  have hrootA := dataDirSessionsRoot_eq (js "/d") (js "/a")
  have hrootB := dataDirSessionsRoot_eq (js "/d") (js "/b")
  exact h.lists _ ⟨(lists_iff hrootA).mpr (.inr hshared), (lists_iff hrootB).mpr (.inr hshared)⟩

end instances

end Solarcido.Sessions
