import Solarcido.Js.Surrogates
import Solarcido.Lsp.Documents

namespace Solarcido.Lsp

open Text Uri
open NodePath (slash)

section resolving

/-- The system the program runs on: a POSIX one, with its working directory, or Windows, with what
`path.resolve` gives there for a path without the root of a drive. -/
inductive Host where
  | posix (cwd : JsString)
  | windows (elsewhere : JsString → JsString)

namespace Host

def isPosix : Host → Bool
  | .posix _ => true
  | .windows _ => false

/-- What stands behind the root of a drive, as a POSIX path. -/
def behindDrive (tail : JsString) : NodePath.NormalPath :=
  NodePath.parse (slash :: tail.map foldSlash)

/-- `path.resolve(p)`. -/
def resolve : Host → JsString → JsString
  | .posix cwd, p => (NodePath.parse (if NodePath.isAbsolute p then p else cwd ++ slash :: p)).text
  | .windows elsewhere, c :: 58 :: u :: tail =>
    if isLetter c ∧ foldSlash u = slash then
      c :: 58 :: 92 :: join [92] (behindDrive tail).segments
    else elsewhere (c :: 58 :: u :: tail)
  | .windows elsewhere, p => elsewhere p

/-- An absolute path; of Windows, one from the root of a drive. -/
def IsAbsolute : Host → JsString → Prop
  | .posix _, p => NodePath.isAbsolute p = true
  | .windows _, p =>
    ∃ c u tail, isLetter c = true ∧ foldSlash u = slash ∧ p = c :: 58 :: u :: tail

/-- An absolute path as `path.resolve` returns it, without lone surrogates. -/
structure IsNormal (host : Host) (p : JsString) : Prop where
  absolute : host.IsAbsolute p
  fixed : host.resolve p = p
  wellFormed : WellFormed p

/-- The same path, on Windows up to the direction of its slashes. -/
def Same : Host → JsString → JsString → Prop
  | .posix _, p, q => p = q
  | .windows _, p, q => List.Forall₂ SameSlash p q

end Host

variable {host : Host} {p : JsString}

theorem back_not_mem_fold (p : JsString) : 92 ∉ p.map foldSlash := by
  intro hmem
  obtain ⟨u, -, hu⟩ := List.mem_map.mp hmem
  rw [foldSlash] at hu
  split at hu
  · cases hu
  · next hne => exact hne hu

theorem map_foldSlash_of_not_mem (h : 92 ∉ p) : p.map foldSlash = p :=
  (List.map_congr_left fun _ hu => if_neg (ne_of_mem_of_not_mem hu h)).trans (List.map_id p)

theorem map_foldSlash_join {parts : List JsString} (h : ∀ part ∈ parts, 92 ∉ part) :
    (join [92] parts).map foldSlash = join [slash] parts := by
  induction parts with
  | nil => rfl
  | cons first parts ih =>
    have hfirst := map_foldSlash_of_not_mem (h first List.mem_cons_self)
    have hparts := ih fun part hpart => h part (List.mem_cons_of_mem first hpart)
    cases parts with
    | nil => rw [join, join, List.intercalate_singleton, List.intercalate_singleton, hfirst]
    | cons second parts =>
      rw [join_cons_cons, join_cons_cons, List.map_append, List.map_append, hfirst, hparts]
      rfl

namespace Host

theorem behindDrive_absolute (tail : JsString) : (behindDrive tail).absolute = true :=
  NodePath.NormalPath.parse_absolute _

theorem back_not_mem_behindDrive {tail segment : JsString}
    (h : segment ∈ (behindDrive tail).segments) : 92 ∉ segment := by
  have hups := (behindDrive tail).rooted (behindDrive_absolute tail)
  rw [NodePath.NormalPath.segments, hups, List.replicate_zero, List.nil_append] at h
  obtain ⟨n, hn, rfl⟩ := List.mem_map.mp h
  have hpiece := subset_join [slash] (NodePath.NormalPath.mem_names_parse hn)
  rw [join_split] at hpiece
  exact fun hback => back_not_mem_fold (slash :: tail) (hpiece hback)

/-- What stands behind the root of a resolved drive path is what it was resolved to. -/
theorem behindDrive_join (tail : JsString) :
    behindDrive (join [92] (behindDrive tail).segments) = behindDrive tail := by
  have htext : slash :: join [slash] (behindDrive tail).segments = (behindDrive tail).text := by
    rw [NodePath.NormalPath.text, if_pos (behindDrive_absolute tail)]
  rw [behindDrive, map_foldSlash_join fun _ hs => back_not_mem_behindDrive hs, htext,
    NodePath.NormalPath.parse_text]

theorem resolve_drive {elsewhere : JsString → JsString} {c u : UInt16} (tail : JsString)
    (hc : isLetter c = true) (hu : foldSlash u = slash) :
    (windows elsewhere).resolve (c :: 58 :: u :: tail) =
      c :: 58 :: 92 :: join [92] (behindDrive tail).segments := if_pos ⟨hc, hu⟩

/-- What an absolute path is resolved to is in normal form. -/
theorem resolve_isNormal (h : host.IsAbsolute p) (hwellFormed : WellFormed (host.resolve p)) :
    host.IsNormal (host.resolve p) := by
  cases host with
  | posix cwd =>
    have habsolute : NodePath.isAbsolute p = true := h
    have hresolve : (posix cwd).resolve p = (NodePath.parse p).text := by
      rw [resolve, if_pos habsolute]
    rw [hresolve] at hwellFormed ⊢
    have hroot : NodePath.isAbsolute (NodePath.parse p).text = true := by
      rw [NodePath.NormalPath.isAbsolute_text, NodePath.NormalPath.parse_absolute, habsolute]
    refine ⟨hroot, ?_, hwellFormed⟩
    rw [resolve, if_pos hroot, NodePath.NormalPath.parse_text]
  | windows elsewhere =>
    obtain ⟨c, u, tail, hc, hu, rfl⟩ := h
    rw [resolve_drive tail hc hu] at hwellFormed ⊢
    refine ⟨⟨c, 92, _, hc, rfl, rfl⟩, ?_, hwellFormed⟩
    rw [resolve_drive _ hc rfl, behindDrive_join]

end Host

end resolving

section uris

/-- `/^[A-Za-z]:/.test(p)`. -/
def startsDrive : JsString → Bool
  | c :: 58 :: _ => isLetter c
  | _ => false

/-- `pathToFileUri`, `none` where it throws. -/
def pathToFileUri (host : Host) (filePath : JsString) : Option JsString := do
  let resolved := replaceUnit 92 [47] (host.resolve filePath)
  let resolved := if startsDrive resolved then slash :: resolved else resolved
  let encoded ← (split resolved [slash]).mapM encodeURIComponent
  return js "file://" ++ join [slash] encoded

variable {host : Host} {p q : JsString}

theorem codePoints_slash (s t : JsString) :
    codePoints (s ++ slash :: t) = codePoints s ++ 47 :: codePoints t :=
  codePoints_append_plain ⟨rfl, rfl⟩ s t

/-- The segments are encoded one by one, and decoding them together gives the whole path. -/
theorem encode_segments (first : JsString) (parts : List JsString)
    (h : ∀ c ∈ codePoints (join [slash] (first :: parts)), IsScalar c) :
    ∃ encoded others, (first :: parts).mapM encodeURIComponent = some (encoded :: others) ∧
      decodeURIComponent (join [slash] (encoded :: others)) =
        some (join [slash] (first :: parts)) := by
  induction parts generalizing first with
  | nil =>
    have hfirst : encodeURIComponent first = some ((codePoints first).flatMap encodePoint) := by
      rw [join, List.intercalate_singleton] at h
      exact if_pos h
    have hdecode := decode_encode hfirst []
    rw [List.append_nil] at hdecode
    refine ⟨_, [], by rw [List.mapM_cons, hfirst]; rfl, ?_⟩
    rw [join, join, List.intercalate_singleton, List.intercalate_singleton, hdecode]
    exact congrArg some (List.append_nil first)
  | cons second parts ih =>
    rw [join_cons_cons, List.append_assoc, List.singleton_append, codePoints_slash] at h
    have hfirst : encodeURIComponent first = some ((codePoints first).flatMap encodePoint) :=
      if_pos fun c hc => h c (List.mem_append_left _ hc)
    obtain ⟨encoded, others, hothers, hdecode⟩ := ih second fun c hc =>
      h c (List.mem_append_right _ (List.mem_cons_of_mem _ hc))
    refine ⟨_, encoded :: others, by rw [List.mapM_cons, hfirst, hothers]; rfl, ?_⟩
    rw [join_cons_cons, join_cons_cons, List.append_assoc, decode_encode hfirst,
      List.singleton_append, decodeURIComponent_cons (by decide), hdecode, Option.map_some,
      Option.map_some, List.append_assoc, List.singleton_append]

/-- The path of the URI of a rooted text is the text. -/
theorem encode_rooted {rest : JsString} (h : ∀ c ∈ codePoints (slash :: rest), IsScalar c) :
    ∃ (encoded : List JsString) (u : FileUri),
      (split (slash :: rest) [slash]).mapM encodeURIComponent = some encoded ∧
        js "file://" ++ join [slash] encoded = u.text ∧ u.decoded = slash :: rest := by
  have hpoints : codePoints (slash :: rest) = 47 :: codePoints rest := codePoints_slash [] rest
  have hsplit : split (slash :: rest) [slash] = [] :: split rest [slash] := splitFrom_sep slash [] rest
  obtain ⟨first, parts, hparts⟩ := List.exists_cons_of_ne_nil (splitFrom_ne_nil (c := slash) [] rest)
  change split rest [slash] = first :: parts at hparts
  have hjoin : join [slash] (first :: parts) = rest := by
    rw [← hparts, join_split]
  obtain ⟨encoded, others, hothers, hdecode⟩ := encode_segments first parts (by
    rw [hjoin]
    exact fun c hc => h c (hpoints ▸ List.mem_cons_of_mem _ hc))
  rw [hjoin] at hdecode
  refine ⟨[] :: encoded :: others, ⟨[], join [slash] (encoded :: others), slash :: rest,
    List.not_mem_nil, ?_⟩, ?_, ?_, rfl⟩
  · rw [decodeURIComponent_cons (by decide), hdecode]
    rfl
  · rw [hsplit, hparts, List.mapM_cons, encodeURIComponent_nil, hothers]
    rfl
  · rw [FileUri.text, join_cons_cons, List.nil_append, List.nil_append, List.singleton_append]

theorem map_foldSlash_utf16 (c : Nat) (hc : IsScalar c) :
    (utf16 c).map foldSlash = utf16 (if c = 92 then 47 else c) := by
  by_cases hback : c = 92
  · subst hback
    rfl
  · unfold IsScalar at hc
    have hvalue : ∀ n < 65536, (92 : UInt16) = UInt16.ofNat n → n = 92 := by
      intro n hn heq
      have hnat := congrArg UInt16.toNat heq
      rw [UInt16.toNat_ofNat', Nat.mod_eq_of_lt hn] at hnat
      exact hnat.symm
    have hunit : ∀ u ∈ utf16 c, u ≠ 92 := by
      rintro u hu rfl
      rw [utf16] at hu
      split at hu
      · exact hback (hvalue c (by omega) (List.mem_singleton.mp hu))
      · simp only [List.mem_cons, List.not_mem_nil, or_false] at hu
        obtain hu | hu := hu
        · have hhigh := hvalue _ (by omega) hu
          omega
        · have hlow := hvalue _ (by omega) hu
          omega
    rw [if_neg hback]
    exact (List.map_congr_left fun u hu => if_neg (hunit u hu)).trans (List.map_id _)

theorem wellFormed_foldSlash (h : WellFormed p) : WellFormed (p.map foldSlash) := by
  obtain ⟨cs, hcs, rfl⟩ := h
  refine ⟨cs.map fun c => if c = 92 then 47 else c, ?_, ?_⟩
  · intro d hd
    obtain ⟨c, hc, rfl⟩ := List.mem_map.mp hd
    split
    · exact .inl (by decide)
    · exact hcs c hc
  · rw [fromCodePoints, fromCodePoints, List.map_flatMap, List.flatMap_map]
    exact List.flatMap_congr fun c hc => map_foldSlash_utf16 c (hcs c hc)

/-- The path comes back from its URI. -/
def Host.ComesBack (host : Host) (p : JsString) : Prop :=
  ∃ uri, pathToFileUri host p = some uri ∧ host.Same (uriToPath uri) p

end uris

section trips

variable {host : Host} {cwd p q : JsString}

theorem rooted_of_absolute (h : NodePath.isAbsolute p = true) : ∃ rest, p = slash :: rest := by
  obtain ⟨rest, hrest⟩ := List.isPrefixOf_iff_prefix.mp h
  exact ⟨rest, hrest.symm⟩

theorem scalar_of_wellFormed (h : WellFormed p) : ∀ c ∈ codePoints p, IsScalar c :=
  ((wellFormed_iff_codePoints p).mp h).1

/-- The URI depends on the folded path only. -/
theorem pathToFileUri_of_fixed (h : host.resolve p = p) : pathToFileUri host p =
    ((split (if startsDrive (p.map foldSlash) then slash :: p.map foldSlash else p.map foldSlash)
      [slash]).mapM encodeURIComponent).map fun encoded => js "file://" ++ join [slash] encoded := by
  rw [pathToFileUri, h, replaceUnit_slash, Option.map_eq_bind]
  rfl

/-- The URI of a path that is sent as a rooted text has that text for its path. -/
theorem uri_of_sent (h : host.resolve p = p) {rest : JsString}
    (hsent : (if startsDrive (p.map foldSlash) then slash :: p.map foldSlash
      else p.map foldSlash) = slash :: rest)
    (hscalar : ∀ c ∈ codePoints (slash :: rest), IsScalar c) :
    ∃ u : FileUri, pathToFileUri host p = some u.text ∧ u.decoded = slash :: rest := by
  obtain ⟨encoded, u, hencoded, htext, hdecoded⟩ := encode_rooted hscalar
  refine ⟨u, ?_, hdecoded⟩
  rw [pathToFileUri_of_fixed h, hsent, hencoded, Option.map_some, htext]

theorem posix_uri (h : (Host.posix cwd).IsNormal p) :
    ∃ u : FileUri, pathToFileUri (.posix cwd) p = some u.text ∧ u.decoded = p.map foldSlash := by
  have hscalar := scalar_of_wellFormed (wellFormed_foldSlash h.wellFormed)
  obtain ⟨rest, hrest⟩ := rooted_of_absolute h.absolute
  have hfold : p.map foldSlash = slash :: rest.map foldSlash := by
    rw [hrest]
    rfl
  have hdrive : startsDrive (slash :: rest.map foldSlash) = false := by
    rw [startsDrive.eq_def]
    split
    · next heq =>
      rw [← (List.cons.inj heq).1]
      rfl
    · rfl
  rw [hfold] at hscalar ⊢
  apply uri_of_sent h.fixed _ hscalar
  rw [hfold, hdrive, if_neg Bool.false_ne_true]

theorem windows_uri {elsewhere : JsString → JsString} (h : (Host.windows elsewhere).IsNormal p) :
    ∃ u : FileUri, pathToFileUri (.windows elsewhere) p = some u.text ∧
      u.decoded = slash :: p.map foldSlash ∧ HasDrive u.decoded := by
  have hscalar : ∀ c ∈ codePoints (slash :: p.map foldSlash), IsScalar c :=
    scalar_of_wellFormed ((wellFormed_utf16 (c := 47) (by decide)).append
      (wellFormed_foldSlash h.wellFormed))
  obtain ⟨c, unit, tail, hc, -, rfl⟩ := h.absolute
  have hfold : (c :: 58 :: unit :: tail).map foldSlash =
      c :: 58 :: (unit :: tail).map foldSlash := by
    rw [List.map_cons, List.map_cons, (letter_cases hc).1]
    rfl
  have hsent : (if startsDrive ((c :: 58 :: unit :: tail).map foldSlash) then
      slash :: (c :: 58 :: unit :: tail).map foldSlash
      else (c :: 58 :: unit :: tail).map foldSlash) =
        slash :: (c :: 58 :: unit :: tail).map foldSlash := by
    rw [hfold, startsDrive, if_pos hc]
  obtain ⟨u, htext, hdecoded⟩ := uri_of_sent h.fixed hsent hscalar
  exact ⟨u, htext, hdecoded, c, (unit :: tail).map foldSlash, hc, by rw [hdecoded, hfold]; rfl⟩

/-- A folded path without its drive is the path it was iff nothing was folded or stripped. -/
theorem stripDrive_fold_iff (p : JsString) :
    stripDrive (p.map foldSlash) = p ↔ 92 ∉ p ∧ ¬HasDrive p := by
  constructor
  · intro h
    have hdrive : ¬HasDrive (p.map foldSlash) := by
      rintro ⟨c, rest, hc, heq⟩
      have hlength := congrArg List.length heq
      rw [heq, stripDrive, if_pos hc] at h
      rw [List.length_map, ← h, List.length_cons, List.length_cons] at hlength
      simp at hlength
    rw [stripDrive_plain hdrive] at h
    rw [h] at hdrive
    exact ⟨h ▸ back_not_mem_fold p, hdrive⟩
  · rintro ⟨hback, hdrive⟩
    rw [map_foldSlash_of_not_mem hback, stripDrive_plain hdrive]

theorem posix_back_iff (h : (Host.posix cwd).IsNormal p) :
    (Host.posix cwd).ComesBack p ↔ 92 ∉ p ∧ ¬HasDrive p := by
  obtain ⟨u, huri, hdecoded⟩ := posix_uri h
  rw [← stripDrive_fold_iff, ← hdecoded, ← uriToPath_text, Host.ComesBack, huri]
  simp only [Option.some.injEq, exists_eq_left']
  rfl

example : (pathToFileUri (.posix (js "/")) (js "/C:/x")).map uriToPath = some (js "C:/x") := by
  decide

theorem posix_uri_eq_iff (hp : (Host.posix cwd).IsNormal p) (hq : (Host.posix cwd).IsNormal q) :
    pathToFileUri (.posix cwd) p = pathToFileUri (.posix cwd) q ↔ List.Forall₂ SameSlash p q := by
  rw [← map_foldSlash_eq_iff]
  constructor
  · intro h
    obtain ⟨u, hu, hudecoded⟩ := posix_uri hp
    obtain ⟨v, hv, hvdecoded⟩ := posix_uri hq
    rw [hu, hv] at h
    rw [← hudecoded, ← hvdecoded, FileUri.decoded_of_text (Option.some.inj h)]
  · intro h
    rw [pathToFileUri_of_fixed hp.fixed, pathToFileUri_of_fixed hq.fixed, h]

theorem windows_back {elsewhere : JsString → JsString} (h : (Host.windows elsewhere).IsNormal p) :
    (Host.windows elsewhere).ComesBack p := by
  obtain ⟨u, huri, hdecoded, c, rest, hc, hdrive⟩ := windows_uri h
  have hpath : uriToPath u.text = p.map foldSlash := by
    rw [uriToPath_text, hdrive, stripDrive, if_pos hc]
    rw [hdrive] at hdecoded
    exact (List.cons.inj hdecoded).2
  refine ⟨u.text, huri, (map_foldSlash_eq_iff _ _).mp ?_⟩
  rw [hpath, map_foldSlash_of_not_mem (back_not_mem_fold p)]

theorem comesBack_iff (h : host.IsNormal p) :
    host.ComesBack p ↔ (host.isPosix = true → 92 ∉ p ∧ ¬HasDrive p) := by
  cases host with
  | posix cwd =>
    rw [posix_back_iff h]
    exact ⟨fun hclean _ => hclean, fun hclean => hclean rfl⟩
  | windows elsewhere => exact iff_of_true (windows_back h) fun hposix => by cases hposix

/-- When a path in normal form comes back from its URI, and when two of them on a POSIX system are
told apart by their URIs. -/
theorem fileUri_keeps_iff (hp : host.IsNormal p) (hq : host.IsNormal q) :
    (host.ComesBack p ↔ (host.isPosix = true → 92 ∉ p ∧ ¬HasDrive p)) ∧
      (host.isPosix = true → ((pathToFileUri host p = pathToFileUri host q → p = q) ↔
        p = q ∨ ¬List.Forall₂ SameSlash p q)) := by
  refine ⟨comesBack_iff hp, fun hposix => ?_⟩
  cases host with
  | posix cwd =>
    rw [posix_uri_eq_iff hp hq]
    tauto
  | windows elsewhere => cases hposix

end trips

section sample

theorem sample_isNormal : (Host.posix (js "/w")).IsNormal (js "/a b/c:d") where
  absolute := rfl
  fixed := by decide
  wellFormed := wellFormed_js _

theorem fileUri_keeps_space : (Host.posix (js "/w")).ComesBack (js "/a b/c:d") := by
  refine (fileUri_keeps_iff sample_isNormal sample_isNormal).1.mpr fun _ => ⟨by decide, ?_⟩
  rintro ⟨c, rest, -, heq⟩
  cases heq

/-- A backslash in the name of a POSIX file comes back as a slash. -/
theorem backslash_lost : (Host.posix (js "/w")).IsNormal (js "/a\\b") ∧
    (Host.posix (js "/w")).IsNormal (js "/a/b") ∧
    ¬(Host.posix (js "/w")).ComesBack (js "/a\\b") ∧
    pathToFileUri (.posix (js "/w")) (js "/a\\b") = pathToFileUri (.posix (js "/w")) (js "/a/b") := by
  have hback : (Host.posix (js "/w")).IsNormal (js "/a\\b") := ⟨rfl, by decide, wellFormed_js _⟩
  refine ⟨hback, ⟨rfl, by decide, wellFormed_js _⟩, ?_, by decide⟩
  rw [posix_back_iff hback]
  exact fun h => h.1 (by decide)

end sample

end Solarcido.Lsp
