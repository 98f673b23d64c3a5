import Mathlib.Data.List.DropRight
import Mathlib.Data.List.Induction
import Mathlib.Data.List.TakeWhile
import Solarcido.Trust.Patterns

namespace Solarcido.Trust

open Text
open Workers (norm collapseSlashes pathMatchesAllowlist)

section segments

variable {s t : JsString} {l m : List JsString}

/-- The text with the separators of either kind written as slashes. -/
def slashed (p : JsString) : JsString := p.map fun u => if u = 92 then 47 else u

/-- The names in a path, between separators of either kind. -/
def segments (p : JsString) : List JsString :=
  (split (slashed p) [47]).filter fun s => !s.isEmpty

def pathOf (l : List JsString) : JsString := l.flatMap (47 :: ·)

/-- The names that can stand between separators. -/
structure IsName (s : JsString) : Prop where
  nonempty : s ≠ []
  noSlash : 47 ∉ s
  noBackslash : 92 ∉ s

theorem slashed_append (s t : JsString) : slashed (s ++ t) = slashed s ++ slashed t :=
  List.map_append

theorem slashed_noBackslash (s : JsString) : 92 ∉ slashed s := by
  intro h
  obtain ⟨u, -, hu⟩ := List.mem_map.mp h
  split_ifs at hu with hback
  · cases hu
  · exact hback hu

theorem slashed_of_noBackslash (h : 92 ∉ s) : slashed s = s := by
  nth_rewrite 2 [← List.map_id s]
  apply List.map_congr_left
  intro u hu
  have hne : u ≠ 92 := by
    rintro rfl
    exact h hu
  rw [if_neg hne, id]

theorem segments_isName (p : JsString) : ∀ s ∈ segments p, IsName s := by
  intro s hs
  obtain ⟨hmem, hne⟩ := List.mem_filter.mp hs
  refine ⟨by simpa using hne, not_mem_of_mem_splitFrom 47 [] _ List.not_mem_nil s hmem, ?_⟩
  have hjoin : join [47] (split (slashed p) [47]) = slashed p := join_split _
  intro hback
  exact slashed_noBackslash p (hjoin ▸ (infix_join [47] hmem).subset hback)

theorem segments_append (s t : JsString) : segments (s ++ 47 :: t) = segments s ++ segments t := by
  rw [segments, slashed_append, show slashed (47 :: t) = 47 :: slashed t from rfl, split_append,
    List.filter_append, segments, segments]

theorem segments_cons (t : JsString) : segments (47 :: t) = segments t :=
  segments_append [] t

theorem segments_name (hs : IsName s) : segments s = [s] := by
  rw [segments, slashed_of_noBackslash hs.noBackslash, split_of_not_mem 47 [] s hs.noSlash]
  simp [hs.nonempty]

theorem pathOf_cons (s : JsString) (l : List JsString) : pathOf (s :: l) = 47 :: (s ++ pathOf l) :=
  List.flatMap_cons

theorem pathOf_append (l m : List JsString) : pathOf (l ++ m) = pathOf l ++ pathOf m :=
  List.flatMap_append

theorem segments_pathOf (hl : ∀ s ∈ l, IsName s) : segments (pathOf l) = l := by
  induction l with
  | nil => rfl
  | cons s l ih =>
    have hs := segments_name (hl s List.mem_cons_self)
    have htail := ih fun r hr => hl r (List.mem_cons_of_mem s hr)
    rw [pathOf_cons, segments_cons]
    cases l with
    | nil => rw [show s ++ pathOf [] = s from List.append_nil s, hs]
    | cons r l =>
      rw [pathOf_cons] at htail ⊢
      rw [segments_append, ← segments_cons (r ++ pathOf l), htail, hs]
      rfl

/-- A path is, or lies below, another exactly when its names begin with the other's. -/
theorem reaches_pathOf_iff (hl : ∀ s ∈ l, IsName s) (hm : ∀ s ∈ m, IsName s) :
    (pathOf m = pathOf l ∨ Below (pathOf m) (pathOf l)) ↔ l <+: m := by
  constructor
  · rintro (h | h)
    · rw [← segments_pathOf hl, ← h, segments_pathOf hm]
    · obtain ⟨rest, hrest⟩ := below_iff.mp h
      refine ⟨segments rest, ?_⟩
      rw [← segments_pathOf hm, hrest, segments_append, segments_pathOf hl]
  · rintro ⟨rest, rfl⟩
    cases rest with
    | nil => exact Or.inl (by rw [List.append_nil])
    | cons s rest =>
      refine Or.inr (below_iff.mpr ⟨s ++ pathOf rest, ?_⟩)
      rw [pathOf_append, pathOf_cons]

end segments

section normalForm

variable {s : JsString}

theorem collapseSlashes_name (hs : 47 ∉ s) (t : JsString) :
    collapseSlashes (s ++ 47 :: t) = s ++ collapseSlashes (47 :: t) := by
  induction s with
  | nil => rfl
  | cons u s ih =>
    rw [List.mem_cons, not_or] at hs
    have hfirst : ∀ v r, collapseSlashes (u :: v :: r) = u :: collapseSlashes (v :: r) := by
      intro v r
      rw [collapseSlashes, if_neg fun h => hs.1 h.1.symm]
    cases s with
    | nil => exact hfirst 47 t
    | cons v s =>
      rw [List.cons_append, List.cons_append, hfirst, ← List.cons_append, ih hs.2]
      rfl

/-- `p.replace(/\/$/, "")`. -/
def dropSlash (p : JsString) : JsString := if endsWith p (js "/") then p.dropLast else p

theorem dropSlash_append {t : JsString} (ht : t ≠ []) (s : JsString) :
    dropSlash (s ++ t) = s ++ dropSlash t := by
  have hlast : endsWith (s ++ t) (js "/") = endsWith t (js "/") := by
    rw [Bool.eq_iff_iff]
    exact (endsWith_unit _ 47).trans
      (by rw [List.getLast?_append_of_ne_nil s ht]; exact (endsWith_unit t 47).symm)
  rw [dropSlash, dropSlash, hlast]
  split_ifs
  · exact List.dropLast_append_of_ne_nil ht
  · rfl

theorem collapseSlashes_ne_nil (u : UInt16) (t : JsString) : collapseSlashes (u :: t) ≠ [] := by
  intro h
  have hhead := head_collapseSlashes (u :: t)
  rw [h] at hhead
  cases hhead

theorem dropSlash_collapseSlashes (parts : List JsString) (hparts : ∀ s ∈ parts, 47 ∉ s) :
    dropSlash (collapseSlashes (47 :: join [47] parts)) =
      pathOf (parts.filter fun s => !s.isEmpty) := by
  induction parts with
  | nil => rfl
  | cons s parts ih =>
    have hs := hparts s List.mem_cons_self
    have htail := ih fun r hr => hparts r (List.mem_cons_of_mem s hr)
    cases s with
    | nil =>
      cases parts with
      | nil => rfl
      | cons r parts =>
        rw [join_cons_cons, List.append_assoc, List.nil_append, List.singleton_append,
          collapseSlashes, if_pos ⟨rfl, rfl⟩, htail]
        rfl
    | cons u s =>
      have hu : u ≠ 47 := fun h => hs (h ▸ List.mem_cons_self)
      have hfirst : ∀ r, collapseSlashes (47 :: u :: r) = 47 :: collapseSlashes (u :: r) := by
        intro r
        rw [collapseSlashes, if_neg fun h => hu h.2]
      cases parts with
      | nil =>
        have hend : ¬ endsWith (47 :: u :: s) (js "/") = true := by
          intro h
          have hmem := (endsWith_unit _ 47).mp h
          rw [List.getLast?_cons_cons] at hmem
          exact hs (List.mem_of_getLast? hmem)
        rw [show join [47] [u :: s] = u :: s from List.append_nil _, hfirst,
          collapseSlashes_of_single (single_of_no_slash hs), dropSlash, if_neg hend]
        simp [pathOf]
      | cons r parts =>
        rw [join_cons_cons, List.append_assoc, List.singleton_append, List.cons_append, hfirst,
          ← List.cons_append, collapseSlashes_name hs, ← List.cons_append,
          dropSlash_append (collapseSlashes_ne_nil 47 _), htail]
        rfl

/-- What the normalization makes of an absolute path. -/
theorem norm_absolute (rest : JsString) : norm (47 :: rest) = pathOf (segments (47 :: rest)) := by
  have hparts := not_mem_of_mem_splitFrom 47 [] (slashed rest) List.not_mem_nil
  have hjoin : join [47] (split (slashed rest) [47]) = slashed rest := join_split _
  have h := dropSlash_collapseSlashes (split (slashed rest) [47]) hparts
  rw [hjoin] at h
  rw [segments_cons]
  exact h

end normalForm

section lexical

variable {a l : List JsString}

/-- The names that a path keeps when `.` and `..` are resolved, the root being its own parent. -/
def resolveName (names : List JsString) (s : JsString) : List JsString :=
  if s = js "." then names else if s = js ".." then names.dropLast else names ++ [s]

def resolveNames (l : List JsString) : List JsString := l.foldl resolveName []

/-- The names of the lexically normalized path. -/
def normalNames (p : JsString) : List JsString := resolveNames (segments p)

/-- A path is, or lies below, a directory, both read lexically. -/
def LiesIn (p root : JsString) : Prop := normalNames root <+: normalNames p

instance (p root : JsString) : Decidable (LiesIn p root) := inferInstanceAs (Decidable (_ <+: _))

/-- A name that is neither a step nor a pattern. -/
def isPlainName (s : JsString) : Bool := s ≠ js "." && s ≠ js ".." && !hasWildcard s

/-- A normalized absolute path without wildcards. -/
structure IsPlainRoot (p : JsString) : Prop where
  spelled : p = if segments p = [] then js "/" else pathOf (segments p)
  plain : ∀ s ∈ segments p, isPlainName s = true

theorem resolveName_plain {s : JsString} (hs : isPlainName s = true) (names : List JsString) :
    resolveName names s = names ++ [s] := by
  simp only [isPlainName, Bool.and_eq_true, decide_eq_true_eq] at hs
  rw [resolveName, if_neg hs.1.1, if_neg hs.1.2]

theorem foldl_resolveName_plain (hl : ∀ s ∈ l, isPlainName s = true) (names : List JsString) :
    l.foldl resolveName names = names ++ l := by
  induction l generalizing names with
  | nil => rw [List.foldl_nil, List.append_nil]
  | cons s l ih =>
    rw [List.foldl_cons, resolveName_plain (hl s List.mem_cons_self),
      ih fun r hr => hl r (List.mem_cons_of_mem s hr), List.append_assoc, List.singleton_append]

theorem resolveNames_plain (hl : ∀ s ∈ l, isPlainName s = true) : resolveNames l = l :=
  foldl_resolveName_plain hl []

theorem IsPlainRoot.normalNames {p : JsString} (h : IsPlainRoot p) : normalNames p = segments p :=
  resolveNames_plain h.plain

theorem resolveNames_subset (l : List JsString) : resolveNames l ⊆ l := by
  suffices h : ∀ names, l.foldl resolveName names ⊆ names ++ l from h []
  induction l with
  | nil =>
    intro names
    rw [List.append_nil]
    exact List.Subset.refl _
  | cons s l ih =>
    intro names
    rw [List.foldl_cons]
    refine List.Subset.trans (ih _) ?_
    intro r hr
    rw [List.mem_append, List.mem_cons]
    rw [resolveName, List.mem_append] at hr
    split_ifs at hr
    · rcases hr with hr | hr
      · exact Or.inl hr
      · exact Or.inr (Or.inr hr)
    · rcases hr with hr | hr
      · exact Or.inl (List.dropLast_subset names hr)
      · exact Or.inr (Or.inr hr)
    · rw [List.mem_append, List.mem_singleton, or_assoc] at hr
      exact hr

/-- The part of a path before its first step or wildcard. -/
def plainPart (l : List JsString) : List JsString := l.takeWhile isPlainName

theorem prefix_plainPart_iff (ha : ∀ s ∈ a, isPlainName s = true) :
    a <+: plainPart l ↔ a <+: l := by
  constructor
  · exact fun h => h.trans (List.takeWhile_prefix _)
  · rintro ⟨rest, rfl⟩
    rw [plainPart, List.takeWhile_append_of_pos ha]
    exact List.prefix_append a _

theorem plainPart_plain (l : List JsString) : ∀ s ∈ plainPart l, isPlainName s = true :=
  fun _ hs => List.mem_takeWhile_imp hs

end lexical

section roots

variable {a : List JsString}

/-- The path with these names. -/
def rootOf (a : List JsString) : JsString := if a = [] then js "/" else pathOf a

theorem segments_rootOf (ha : ∀ s ∈ a, IsName s) : segments (rootOf a) = a := by
  rw [rootOf]
  split_ifs with h
  · rw [h]
    rfl
  · exact segments_pathOf ha

theorem isPlainRoot_rootOf (ha : ∀ s ∈ a, IsName s) (hplain : ∀ s ∈ a, isPlainName s = true) :
    IsPlainRoot (rootOf a) := by
  constructor
  · rw [segments_rootOf ha, rootOf]
  · rwa [segments_rootOf ha]

theorem rootOf_absolute (a : List JsString) : ∃ rest, rootOf a = 47 :: rest := by
  cases a with
  | nil => exact ⟨[], rfl⟩
  | cons s a => exact ⟨s ++ pathOf a, by rw [rootOf, if_neg (List.cons_ne_nil s a), pathOf_cons]⟩

theorem IsPlainRoot.absolute {p : JsString} (h : IsPlainRoot p) : ∃ rest, p = 47 :: rest := by
  rw [h.spelled]
  exact rootOf_absolute (segments p)

theorem IsPlainRoot.norm {p : JsString} (h : IsPlainRoot p) :
    Workers.norm p = pathOf (segments p) := by
  obtain ⟨rest, hrest⟩ := h.absolute
  rw [hrest]
  exact norm_absolute rest

/-- The root check of `isDenied` and `pathMatchesAllowlist`. -/
theorem pathMatchesAllowlist_iff {root : JsString} (hroot : IsPlainRoot root) (rest : JsString) :
    pathMatchesAllowlist (47 :: rest) root = true ↔ segments root <+: segments (47 :: rest) := by
  rw [← reaches_pathOf_iff (segments_isName root) (segments_isName _), pathMatchesAllowlist,
    hroot.norm, norm_absolute, Bool.or_eq_true, beq_iff_eq]
  rfl

theorem noWildcard_of_plain {s : JsString} (hs : isPlainName s = true) : hasWildcard s = false := by
  simp only [isPlainName, Bool.and_eq_true, Bool.not_eq_true'] at hs
  exact hs.2

theorem pathOf_plain (ha : ∀ s ∈ a, hasWildcard s = false) : hasWildcard (pathOf a) = false := by
  induction a with
  | nil => rfl
  | cons s a ih =>
    have htail := ih fun r hr => ha r (List.mem_cons_of_mem s hr)
    have hs := ha s List.mem_cons_self
    rw [hasWildcard_eq_false_iff] at htail hs ⊢
    rw [pathOf_cons]
    simp [hs.1, hs.2, htail.1, htail.2]

theorem trimEnd_slash (s t : JsString) : trimEnd (s ++ 47 :: t) = s ++ 47 :: trimEnd t := by
  rw [trimEnd, trimEnd, List.reverse_append, List.reverse_cons, List.append_assoc,
    List.dropWhile_append]
  split_ifs with h
  · rw [List.isEmpty_iff] at h
    rw [h]
    simp [isWhiteSpace]
  · simp

theorem trim_absolute (rest : JsString) : trim (47 :: rest) = 47 :: trimEnd rest :=
  trimEnd_slash [] rest

/-- A pattern without wildcards matches by the names of the trimmed path. -/
theorem patternMatches_absolute_iff {pattern kept : JsString} (hkept : trim pattern = 47 :: kept)
    (hplain : hasWildcard (normPath (trim pattern)) = false) (rest : JsString) :
    patternMatches pattern (47 :: rest) = true ↔
      segments (trim pattern) <+: segments (trim (47 :: rest)) := by
  have hnorm : normPath (trim pattern) = pathOf (segments (trim pattern)) := by
    rw [hkept]
    exact norm_absolute kept
  have hpath : normPath (trim (47 :: rest)) = pathOf (segments (trim (47 :: rest))) := by
    rw [trim_absolute]
    exact norm_absolute _
  rw [patternMatches, matchNormal_plain hplain, hnorm, hpath,
    ← reaches_pathOf_iff (segments_isName _) (segments_isName _), ← or_assoc]
  apply or_iff_left
  rintro ⟨hnot, hin⟩
  cases hnames : segments (trim pattern) with
  | nil =>
    rw [hnames] at hnot
    exact hnot List.nil_prefix
  | cons s a =>
    rw [hnames, pathOf_cons] at hin
    exact not_inComponent List.mem_cons_self hin

theorem patternMatches_plain_iff {pattern : JsString} (hroot : IsPlainRoot pattern)
    (htrim : trim pattern = pattern) (rest : JsString) :
    patternMatches pattern (47 :: rest) = true ↔
      segments pattern <+: segments (trim (47 :: rest)) := by
  obtain ⟨kept, hkept⟩ := hroot.absolute
  have hplain : hasWildcard (normPath (trim pattern)) = false := by
    rw [htrim, normPath, hroot.norm]
    exact pathOf_plain fun s hs => noWildcard_of_plain (hroot.plain s hs)
  have h := patternMatches_absolute_iff (htrim.trans hkept) hplain rest
  rwa [htrim] at h

end roots

section trimming

variable {a : List JsString}

def endsInSpace (s : JsString) : Bool := s.getLast?.any isWhiteSpace

theorem endsInSpace_eq_false_iff (s : JsString) :
    endsInSpace s = false ↔ ∀ u ∈ s.getLast?, isWhiteSpace u = false := by
  rw [endsInSpace]
  cases s.getLast? <;> simp

theorem pathOf_getLast {s : JsString} (hs : s ≠ []) (a : List JsString) :
    (pathOf (a ++ [s])).getLast? = s.getLast? := by
  have htail : pathOf [s] = [47] ++ s := by simp [pathOf]
  rw [pathOf_append, htail, ← List.append_assoc, List.getLast?_append_of_ne_nil _ hs]

theorem trim_rootOf_iff (ha : ∀ s ∈ a, IsName s) :
    trim (rootOf a) = rootOf a ↔ ∀ s ∈ a.getLast?, endsInSpace s = false := by
  rcases List.eq_nil_or_concat a with rfl | ⟨front, s, rfl⟩
  · exact iff_of_true (by decide) (by simp)
  · rw [List.concat_eq_append] at ha ⊢
    have hs : s ≠ [] := (ha s (by simp)).nonempty
    have hlast : (rootOf (front ++ [s])).getLast? = s.getLast? := by
      rw [rootOf, if_neg (by simp), pathOf_getLast hs]
    simp only [List.getLast?_concat, Option.mem_some_iff, forall_eq']
    rw [endsInSpace_eq_false_iff]
    constructor
    · intro h
      rw [← hlast, ← h]
      exact trim_last _
    · intro h
      obtain ⟨rest, hrest⟩ := rootOf_absolute (front ++ [s])
      apply trim_of_ends
      · rw [hrest]
        rintro u hu
        cases hu
        rfl
      · rwa [hlast]

/-- The part of a path before its first step or wildcard, up to a name that no trimming
changes. -/
def settledPart (l : List JsString) : List JsString := (plainPart l).rdropWhile endsInSpace

theorem prefix_rdropWhile (hlast : ∀ s ∈ a.getLast?, endsInSpace s = false)
    (rest : List JsString) : a <+: (a ++ rest).rdropWhile endsInSpace := by
  induction rest using List.reverseRecOn with
  | nil =>
    rw [List.append_nil, List.rdropWhile_eq_self_iff.mpr]
    intro hne
    rw [hlast _ (List.getLast?_eq_some_getLast hne)]
    exact Bool.false_ne_true
  | append_singleton rest s ih =>
    rw [← List.append_assoc]
    by_cases hs : endsInSpace s = true
    · rwa [List.rdropWhile_concat_pos _ _ _ hs]
    · rw [List.rdropWhile_concat_neg _ _ _ hs, List.append_assoc]
      exact List.prefix_append a _

theorem prefix_settledPart {l : List JsString} (ha : ∀ s ∈ a, isPlainName s = true)
    (hlast : ∀ s ∈ a.getLast?, endsInSpace s = false) (h : a <+: l) : a <+: settledPart l := by
  obtain ⟨rest, hrest⟩ := (prefix_plainPart_iff ha).mpr h
  rw [settledPart, ← hrest]
  exact prefix_rdropWhile hlast rest

theorem settledPart_front (l : List JsString) : settledPart l <+: plainPart l :=
  List.rdropWhile_prefix _ _

theorem settledPart_last (l : List JsString) :
    ∀ s ∈ (settledPart l).getLast?, endsInSpace s = false := by
  intro s hs
  have hne : settledPart l ≠ [] := by
    intro h
    rw [h] at hs
    cases hs
  rw [List.getLast?_eq_some_getLast hne, Option.mem_some_iff] at hs
  rw [← hs]
  exact Bool.not_eq_true _ ▸ List.rdropWhile_last_not _ _ hne

end trimming

end Solarcido.Trust
