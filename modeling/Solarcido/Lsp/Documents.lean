import Mathlib.Data.List.Forall2
import Solarcido.Js.LowerCase
import Solarcido.Js.NodePath
import Solarcido.Js.Replacement
import Solarcido.Js.Uri
import Solarcido.Lib.InsertionMap

namespace Solarcido.Lsp

open Text Uri
open NodePath (slash)

section uris

/-- `[A-Za-z]`. -/
def isLetter (u : UInt16) : Bool :=
  (65 ≤ u.toNat && u.toNat ≤ 90) || (97 ≤ u.toNat && u.toNat ≤ 122)

/-- `/C:/x` without the slash in front. -/
def stripDrive : JsString → JsString
  | 47 :: c :: 58 :: rest => if isLetter c then c :: 58 :: rest else 47 :: c :: 58 :: rest
  | decoded => decoded

/-- What a `file://` text has behind its authority. -/
def pathPart (uri : JsString) : JsString :=
  let rest := uri.drop (js "file://").length
  if startsWith rest (js "/") then rest else rest.dropWhile (· != slash)

def uriToPath (uri : JsString) : JsString :=
  if startsWith uri (js "file://") then
    stripDrive ((decodeURIComponent (pathPart uri)).getD (pathPart uri))
  else uri

/-- `p[0].toLowerCase() + p.slice(1)` where a letter and a colon are in front. -/
def lowerDrive : JsString → JsString
  | c :: 58 :: rest => if isLetter c then toLowerCase [c] ++ 58 :: rest else c :: 58 :: rest
  | p => p

def canonicalUriKey (uri : JsString) : JsString := lowerDrive (replaceUnit 92 [47] (uriToPath uri))

end uris

section session

structure LspPosition where
  line : Nat
  character : Nat

structure LspRange where
  start : LspPosition
  finish : LspPosition

structure LspWireDiagnostic where
  range : LspRange
  severity : Option Int
  message : JsString
  source : Option JsString

/-- `uri` is `none` where it is no string. -/
structure PublishDiagnosticsParams where
  uri : Option JsString
  diagnostics : Option (List LspWireDiagnostic)

structure LspDiagnostic where
  path : JsString
  line : Nat
  character : Nat
  severity : JsString
  message : JsString
  source : Option JsString

def SEVERITY_NAMES : List (Int × JsString) :=
  [(1, js "error"), (2, js "warning"), (3, js "information"), (4, js "hint")]

def severityName : Option Int → JsString
  | none => js "error"
  | some severity => (SEVERITY_NAMES.lookup severity).getD (js "error")

def mapDiagnostic (uri : JsString) (d : LspWireDiagnostic) : LspDiagnostic where
  path := uriToPath uri
  line := d.range.start.line
  character := d.range.start.character
  severity := severityName d.severity
  message := d.message
  source := d.source

/-- The diagnostics by the key of their document. -/
abbrev DiagnosticsByUri := InsertionMap JsString (List LspDiagnostic)

def mappedDiagnostics (uri : JsString) (params : PublishDiagnosticsParams) : List LspDiagnostic :=
  (params.diagnostics.getD []).map (mapDiagnostic uri)

def onPublishDiagnostics (self : DiagnosticsByUri) (params : Option PublishDiagnosticsParams) :
    DiagnosticsByUri :=
  match params with
  | none => self
  | some params =>
    match params.uri with
    | none => self
    | some uri => self.set (canonicalUriKey uri) (mappedDiagnostics uri params)

def diagnostics (self : DiagnosticsByUri) (uri : JsString) : List LspDiagnostic :=
  (self.get (canonicalUriKey uri)).getD []

/-- The session's diagnostics after some notifications. -/
def afterPublishes (publishes : List (Option PublishDiagnosticsParams)) : DiagnosticsByUri :=
  publishes.foldl onPublishDiagnostics .empty

end session

section paths

def IsSlash (u : UInt16) : Prop := u = 47 ∨ u = 92

def SameSlash (u v : UInt16) : Prop := u = v ∨ IsSlash u ∧ IsSlash v

/-- Decoded paths that are the same up to the direction of their slashes, and up to the case of
the drive letter where they have a drive. -/
inductive SamePath : JsString → JsString → Prop where
  | plain {p q : JsString} (h : List.Forall₂ SameSlash p q) : SamePath p q
  | drive {a b : UInt16} {p q : JsString} (ha : isLetter a = true) (hb : isLetter b = true)
      (hcase : lowerUnit a = lowerUnit b) (h : List.Forall₂ SameSlash p q) :
      SamePath (47 :: a :: 58 :: p) (47 :: b :: 58 :: q)

def foldSlash (u : UInt16) : UInt16 := if u = 92 then 47 else u

theorem replaceUnit_slash (s : JsString) : replaceUnit 92 [47] s = s.map foldSlash := by
  rw [replaceUnit, ← List.flatMap_singleton' (s.map foldSlash), List.flatMap_map]
  apply List.flatMap_congr
  intro u _
  rw [foldSlash]
  split <;> rfl

theorem foldSlash_eq_iff (u v : UInt16) : foldSlash u = foldSlash v ↔ SameSlash u v := by
  rw [foldSlash, foldSlash, SameSlash, IsSlash, IsSlash]
  split_ifs <;> grind

theorem map_foldSlash_eq_iff (p q : JsString) :
    p.map foldSlash = q.map foldSlash ↔ List.Forall₂ SameSlash p q := by
  have hsame : SameSlash = fun u v => foldSlash u = foldSlash v := by
    funext u v
    exact propext (foldSlash_eq_iff u v).symm
  rw [hsame, ← List.forall₂_map_left_iff (f := foldSlash) (R := fun u v => u = foldSlash v),
    ← List.forall₂_map_right_iff (f := foldSlash) (R := fun u v => u = v), List.forall₂_eq_eq_eq]

theorem letter_cases {c : UInt16} (h : isLetter c = true) :
    foldSlash c = c ∧ c ≠ 47 ∧ c ≠ 92 ∧ toLowerCase [c] = [lowerUnit c] ∧ lowerUnit c ≠ 47 := by
  have hrange : (65 ≤ c.toNat ∧ c.toNat ≤ 90) ∨ (97 ≤ c.toNat ∧ c.toNat ≤ 122) := by
    simpa [isLetter] using h
  have hslash : c ≠ 47 := by
    rintro rfl
    revert hrange
    decide
  have hback : c ≠ 92 := by
    rintro rfl
    revert hrange
    decide
  have hascii : IsAscii [c] := by
    intro u hu
    rw [List.mem_singleton.mp hu]
    omega
  refine ⟨if_neg hback, hslash, hback, toLowerCase_ascii _ hascii, ?_⟩
  rw [lowerUnit]
  split
  · intro heq
    have := congrArg UInt16.toNat heq
    rw [UInt16.toNat_add] at this
    have h32 : (32 : UInt16).toNat = 32 := rfl
    have h47 : (47 : UInt16).toNat = 47 := rfl
    omega
  · exact hslash

/-- A path with a drive has the letter in lower case in its key. -/
theorem key_drive {c : UInt16} (h : isLetter c = true) (rest : JsString) :
    lowerDrive (replaceUnit 92 [47] (stripDrive (47 :: c :: 58 :: rest))) =
      lowerUnit c :: 58 :: rest.map foldSlash := by
  obtain ⟨hfold, -, -, hlower, -⟩ := letter_cases h
  have h58 : foldSlash 58 = 58 := rfl
  rw [stripDrive, if_pos h, replaceUnit_slash, List.map_cons, List.map_cons, hfold, h58, lowerDrive,
    if_pos h, hlower, List.singleton_append]

/-- The path has a drive: a letter and a colon stand behind its first slash. -/
def HasDrive (p : JsString) : Prop := ∃ c rest, isLetter c = true ∧ p = 47 :: c :: 58 :: rest

theorem stripDrive_plain {p : JsString} (h : ¬HasDrive p) : stripDrive p = p := by
  rw [stripDrive.eq_def]
  split
  · next c rest =>
    split
    · next hletter => exact absurd ⟨c, rest, hletter, rfl⟩ h
    · rfl
  · rfl

theorem key_plain {p : JsString} (h : ¬HasDrive (47 :: p)) :
    lowerDrive (replaceUnit 92 [47] (stripDrive (47 :: p))) = 47 :: p.map foldSlash := by
  have h47 : foldSlash 47 = 47 := rfl
  rw [stripDrive_plain h, replaceUnit_slash, List.map_cons, h47, lowerDrive.eq_def]
  split
  · next c rest heq =>
    obtain ⟨rfl, -⟩ := List.cons.inj heq
    have hno : isLetter 47 = false := rfl
    rw [hno, if_neg Bool.false_ne_true]
    exact heq.symm
  · rfl

theorem sameSlash_letter {c d : UInt16} (hc : isLetter c = true) (h : SameSlash c d) : c = d := by
  obtain ⟨-, hslash, hback, -⟩ := letter_cases hc
  rcases h with h | ⟨hc' | hc', -⟩
  · exact h
  · exact absurd hc' hslash
  · exact absurd hc' hback

theorem sameSlash_colon {d : UInt16} (h : SameSlash 58 d) : d = 58 := by
  rcases h with h | ⟨h | h, -⟩
  · exact h.symm
  · exact absurd h (by decide)
  · exact absurd h (by decide)

theorem sameSlash_symm {u v : UInt16} (h : SameSlash u v) : SameSlash v u :=
  h.imp Eq.symm And.symm

/-- What is the same as a path with a drive has a drive with the same letter in some case. -/
theorem samePath_drive {c : UInt16} {rest q : JsString} (hc : isLetter c = true) :
    SamePath (47 :: c :: 58 :: rest) (47 :: q) ↔ ∃ d rest', isLetter d = true ∧
      q = d :: 58 :: rest' ∧ lowerUnit c = lowerUnit d ∧ List.Forall₂ SameSlash rest rest' := by
  constructor
  · intro h
    cases h with
    | plain h =>
      have htail := (List.forall₂_cons.mp h).2
      obtain ⟨d, afterLetter, hd, hafter, rfl⟩ := List.forall₂_cons_left_iff.mp htail
      obtain ⟨e, rest', he, hrest, rfl⟩ := List.forall₂_cons_left_iff.mp hafter
      rw [← sameSlash_letter hc hd, sameSlash_colon he]
      exact ⟨c, rest', hc, rfl, rfl, hrest⟩
    | drive _ hd hcase h => exact ⟨_, _, hd, rfl, hcase, h⟩
  · rintro ⟨d, rest', hd, rfl, hcase, h⟩
    exact .drive hc hd hcase h

theorem samePath_symm {p q : JsString} (h : SamePath p q) : SamePath q p := by
  cases h with
  | plain h => exact .plain (h.flip.imp fun _ _ hsame => sameSlash_symm hsame)
  | drive ha hb hcase h => exact .drive hb ha hcase.symm (h.flip.imp fun _ _ hsame => sameSlash_symm hsame)

theorem samePath_plain {p q : JsString} (hp : ¬HasDrive (47 :: p)) :
    SamePath (47 :: p) (47 :: q) ↔ List.Forall₂ SameSlash p q := by
  constructor
  · intro h
    cases h with
    | plain h => exact (List.forall₂_cons.mp h).2
    | drive ha _ _ _ => exact absurd ⟨_, _, ha, rfl⟩ hp
  · exact fun h => .plain (.cons (.inl rfl) h)

/-- Paths from the root have the same key iff they are the same path. -/
theorem key_eq_iff (p q : JsString) :
    lowerDrive (replaceUnit 92 [47] (stripDrive (47 :: p))) =
        lowerDrive (replaceUnit 92 [47] (stripDrive (47 :: q))) ↔
      SamePath (47 :: p) (47 :: q) := by
  by_cases hp : HasDrive (47 :: p)
  · obtain ⟨c, rest, hc, heq⟩ := hp
    obtain rfl := (List.cons.inj heq).2
    rw [key_drive hc, samePath_drive hc]
    by_cases hq : HasDrive (47 :: q)
    · obtain ⟨d, rest', hd, heq⟩ := hq
      obtain rfl := (List.cons.inj heq).2
      rw [key_drive hd]
      constructor
      · intro h
        obtain ⟨hcase, h⟩ := List.cons.inj h
        exact ⟨d, rest', hd, rfl, hcase, (map_foldSlash_eq_iff _ _).mp (List.cons.inj h).2⟩
      · rintro ⟨d', rest'', hd', heq, hcase, h⟩
        obtain ⟨rfl, hrest⟩ := List.cons.inj heq
        obtain rfl := (List.cons.inj hrest).2
        rw [hcase, (map_foldSlash_eq_iff _ _).mpr h]
    · rw [key_plain hq]
      obtain ⟨-, -, -, -, hlower⟩ := letter_cases hc
      refine iff_of_false (fun h => hlower (List.cons.inj h).1) ?_
      rintro ⟨d, rest', hd, rfl, -⟩
      exact hq ⟨d, rest', hd, rfl⟩
  · rw [key_plain hp, samePath_plain hp]
    by_cases hq : HasDrive (47 :: q)
    · obtain ⟨d, rest, hd, heq⟩ := hq
      obtain rfl := (List.cons.inj heq).2
      rw [key_drive hd]
      obtain ⟨-, -, -, -, hlower⟩ := letter_cases hd
      refine iff_of_false (fun h => hlower (List.cons.inj h).1.symm) fun h => ?_
      have hsame := samePath_symm ((samePath_plain hp).mpr h)
      obtain ⟨c, rest', hc, rfl, -⟩ := (samePath_drive hd).mp hsame
      exact hp ⟨c, rest', hc, rfl⟩
    · rw [key_plain hq, List.cons.injEq, and_iff_right rfl, map_foldSlash_eq_iff]

end paths

section fileUris

/-- A `file://` text whose escapes are well formed. -/
structure FileUri where
  authority : JsString
  path : JsString
  decoded : JsString
  plain : slash ∉ authority
  decodes : decodeURIComponent (slash :: path) = some decoded

def FileUri.text (u : FileUri) : JsString := js "file://" ++ (u.authority ++ slash :: u.path)

/-- The path behind the authority, decoded, starts at the root. -/
theorem FileUri.rooted (u : FileUri) : ∃ rest, u.decoded = 47 :: rest := by
  have hdecodes := u.decodes
  rw [decodeURIComponent_cons (by decide)] at hdecodes
  obtain ⟨rest, -, heq⟩ := Option.map_eq_some_iff.mp hdecodes
  exact ⟨rest, heq.symm⟩

theorem pathPart_text (u : FileUri) : pathPart u.text = slash :: u.path := by
  rw [pathPart, FileUri.text, List.drop_left]
  cases hauthority : u.authority with
  | nil => rfl
  | cons c authority =>
    have hplain : ∀ v ∈ c :: authority, (v != slash) = true := by
      intro v hv
      rw [bne_iff_ne]
      rintro rfl
      exact u.plain (hauthority ▸ hv)
    have hfirst : startsWith (c :: authority ++ slash :: u.path) (js "/") = false := by
      have hc : (47 == c) = false := beq_false_of_ne fun heq =>
        bne_iff_ne.mp (hplain c List.mem_cons_self) heq.symm
      rw [startsWith, show js "/" = [47] from rfl, List.cons_append, List.isPrefixOf_cons_cons, hc,
        Bool.false_and]
    rw [hfirst, if_neg Bool.false_ne_true, List.dropWhile_append_of_pos hplain,
      List.dropWhile_cons_of_neg (by simp)]

theorem uriToPath_text (u : FileUri) : uriToPath u.text = stripDrive u.decoded := by
  have hstart : startsWith u.text (js "file://") = true :=
    List.isPrefixOf_iff_prefix.mpr (List.prefix_append _ _)
  rw [uriToPath, if_pos hstart, pathPart_text, u.decodes, Option.getD_some]

theorem FileUri.decoded_of_text {u v : FileUri} (h : u.text = v.text) : u.decoded = v.decoded := by
  have hpath : slash :: u.path = slash :: v.path := by
    rw [← pathPart_text, h, pathPart_text]
  exact Option.some.inj (u.decodes.symm.trans ((congrArg decodeURIComponent hpath).trans v.decodes))

theorem canonicalUriKey_text (u : FileUri) :
    canonicalUriKey u.text = lowerDrive (replaceUnit 92 [47] (stripDrive u.decoded)) := by
  rw [canonicalUriKey, uriToPath_text]

theorem canonicalUriKey_eq_iff (u v : FileUri) :
    canonicalUriKey u.text = canonicalUriKey v.text ↔ SamePath u.decoded v.decoded := by
  obtain ⟨p, hp⟩ := u.rooted
  obtain ⟨q, hq⟩ := v.rooted
  rw [canonicalUriKey_text, canonicalUriKey_text, hp, hq, key_eq_iff]

end fileUris

section runs

/-- The notification is of a document with this key. -/
def IsFor (key : JsString) (params : Option PublishDiagnosticsParams) : Prop :=
  ∃ p uri, params = some p ∧ p.uri = some uri ∧ canonicalUriKey uri = key

variable {self : DiagnosticsByUri} {publishes : List (Option PublishDiagnosticsParams)}

theorem get_onPublish {params : Option PublishDiagnosticsParams} {key : JsString}
    (h : ¬IsFor key params) : (onPublishDiagnostics self params).get key = self.get key := by
  cases params with
  | none => rfl
  | some p =>
    rw [onPublishDiagnostics]
    cases huri : p.uri with
    | none => rfl
    | some uri =>
      exact InsertionMap.get_set_of_ne _ _ _ _ fun heq => h ⟨p, uri, rfl, huri, heq.symm⟩

/-- What stands under a key is what came with the last notification of it. -/
theorem get_afterPublishes (publishes : List (Option PublishDiagnosticsParams)) (key : JsString) :
    (∃ before p uri after, publishes = before ++ some p :: after ∧ p.uri = some uri ∧
        canonicalUriKey uri = key ∧ (∀ q ∈ after, ¬IsFor key q) ∧
        (afterPublishes publishes).get key = some (mappedDiagnostics uri p)) ∨
      (∀ q ∈ publishes, ¬IsFor key q) ∧ (afterPublishes publishes).get key = none := by
  induction publishes using List.reverseRecOn with
  | nil => exact .inr ⟨by simp, rfl⟩
  | append_singleton publishes last ih =>
    have hlast : afterPublishes (publishes ++ [last]) =
        onPublishDiagnostics (afterPublishes publishes) last := List.foldl_concat ..
    rw [hlast]
    by_cases hfor : IsFor key last
    · obtain ⟨p, uri, rfl, huri, hkey⟩ := hfor
      refine .inl ⟨publishes, p, uri, [], rfl, huri, hkey, by simp, ?_⟩
      rw [onPublishDiagnostics, huri]
      dsimp only
      rw [hkey, InsertionMap.get_set_self]
    · rw [get_onPublish hfor]
      have hsnoc : ∀ {others : List (Option PublishDiagnosticsParams)},
          (∀ q ∈ others, ¬IsFor key q) → ∀ q ∈ others ++ [last], ¬IsFor key q := by
        intro others hothers q hq
        rcases List.mem_append.mp hq with hq | hq
        · exact hothers q hq
        · rwa [List.mem_singleton.mp hq]
      rcases ih with ⟨before, p, uri, after, rfl, huri, hkey, hafter, hget⟩ | ⟨hnone, hget⟩
      · exact .inl ⟨before, p, uri, after ++ [last], by simp, huri, hkey, hsnoc hafter, hget⟩
      · exact .inr ⟨hsnoc hnone, hget⟩

/-- The diagnostics of a text are those of the last notification of its document, and none where
there is no such notification. -/
def LastPublished (publishes : List (Option PublishDiagnosticsParams)) (uri : JsString) : Prop :=
  (∃ before p published after, publishes = before ++ some p :: after ∧ p.uri = some published ∧
      canonicalUriKey published = canonicalUriKey uri ∧
      (∀ q ∈ after, ¬IsFor (canonicalUriKey uri) q) ∧
      diagnostics (afterPublishes publishes) uri = mappedDiagnostics published p) ∨
    (∀ q ∈ publishes, ¬IsFor (canonicalUriKey uri) q) ∧
      diagnostics (afterPublishes publishes) uri = []

/-- The key of a `file://` text tells its path and not its authority, and the diagnostics of a
text are the last published under its key. -/
theorem canonicalUriKey_diagnostics :
    (∀ u v : FileUri,
      canonicalUriKey u.text = canonicalUriKey v.text ↔ SamePath u.decoded v.decoded) ∧
      ∀ (publishes : List (Option PublishDiagnosticsParams)) (uri : JsString),
        LastPublished publishes uri := by
  refine ⟨canonicalUriKey_eq_iff, fun publishes uri => ?_⟩
  rcases get_afterPublishes publishes (canonicalUriKey uri) with
    ⟨before, p, published, after, heq, huri, hkey, hafter, hget⟩ | ⟨hnone, hget⟩
  · exact .inl ⟨before, p, published, after, heq, huri, hkey, hafter,
      by rw [diagnostics, hget, Option.getD_some]⟩
  · exact .inr ⟨hnone, by rw [diagnostics, hget, Option.getD_none]⟩

def onFirstHost : FileUri := ⟨js "h1", js "x", js "/x", by decide, by decide⟩

def onSecondHost : FileUri := ⟨js "h2", js "x", js "/x", by decide, by decide⟩

/-- Documents of two hosts share a key. -/
theorem hosts_share_key : onFirstHost.authority ≠ onSecondHost.authority ∧
    canonicalUriKey onFirstHost.text = canonicalUriKey onSecondHost.text := by
  decide

end runs

end Solarcido.Lsp
