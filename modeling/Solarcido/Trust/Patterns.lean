import Mathlib.Data.List.Chain
import Mathlib.Data.List.Infix
import Solarcido.Js.CodePoints
import Solarcido.Js.Text
import Solarcido.Lib.Glob
import Solarcido.Workers.Screen

namespace Solarcido.Trust

open Text Search Glob

section matching

def normPath (p : JsString) : JsString := Workers.norm p

/-- The letters of the pattern and of the path that are still to be read. -/
def globMatchRecursive : List Nat → List Nat → Bool
  | [], s => s.isEmpty
  | c :: p, s =>
    if c = 42 then
      if p.isEmpty then true else s.tails.any fun rest => globMatchRecursive p rest
    else if c = 63 then
      match s with
      | [] => false
      | _ :: rest => globMatchRecursive p rest
    else
      match s with
      | [] => false
      | d :: rest => if d ≠ c then false else globMatchRecursive p rest

def globMatches (pattern path : JsString) : Bool :=
  globMatchRecursive (codePoints pattern) (codePoints path)

/-- `p.includes("*") || p.includes("?")` -/
def hasWildcard (p : JsString) : Bool := includes p (js "*") || includes p (js "?")

/-- `patternMatches` behind the two normalizations. -/
def matchNormal (p s : JsString) : Bool :=
  if p = s then true
  else if !hasWildcard p && startsWith s p then
    let rest := s.drop p.length
    rest.isEmpty || startsWith rest (js "/")
  else if endsWith p (js "/*") then
    let pre := p.take (p.length - 2)
    let rest := s.drop pre.length
    startsWith s pre && (rest.isEmpty || startsWith rest (js "/"))
  else if endsWith p (js "*") && !includes p (js "/*/") then
    let pre := p.take (p.length - 1)
    let rest := s.drop pre.length
    startsWith s pre && (rest.isEmpty || !startsWith rest (js "/"))
  else if (split s (js "/")).contains p then true
  else if (split s (js "/")).any fun c => includes c p then true
  else if includes p (js "?") || includes p (js "/*/") || startsWith p (js "*/") then
    globMatches p s
  else false

def patternMatches (pattern path : JsString) : Bool :=
  matchNormal (normPath (trim pattern)) (normPath (trim path))

end matching

section reading

/-- What a letter of a pattern stands for. -/
def mark (c : Nat) : Mark Nat := if c = 42 then .run else if c = 63 then .one else .only c

def marks (p : JsString) : List (Mark Nat) := (codePoints p).map mark

/-- A text is in the glob language of a pattern. -/
def InGlob (p s : JsString) : Prop := Matches (marks p) (codePoints s)

theorem tails_any_iff (s : List Nat) (f : List Nat → Bool) :
    (s.tails.any f) = true ↔ ∃ first rest, s = first ++ rest ∧ f rest = true := by
  simp only [List.any_eq_true, List.mem_tails]
  constructor
  · rintro ⟨rest, ⟨first, rfl⟩, h⟩
    exact ⟨first, rest, rfl, h⟩
  · rintro ⟨first, rest, rfl, h⟩
    exact ⟨rest, ⟨first, rfl⟩, h⟩

theorem globMatchRecursive_iff (p s : List Nat) :
    globMatchRecursive p s = true ↔ Matches (p.map mark) s := by
  induction p generalizing s with
  | nil => rw [globMatchRecursive, List.map_nil, matches_nil_iff, List.isEmpty_iff]
  | cons c p ih =>
    rw [globMatchRecursive.eq_def, List.map_cons]
    dsimp only
    by_cases hrun : c = 42
    · rw [if_pos hrun, mark, if_pos hrun, matches_run_iff]
      cases p with
      | nil =>
        refine iff_of_true rfl ⟨s, [], by simp, .nil⟩
      | cons d p =>
        rw [List.isEmpty_cons, if_neg Bool.false_ne_true, tails_any_iff]
        simp only [ih]
    · rw [if_neg hrun, mark, if_neg hrun]
      by_cases hone : c = 63
      · rw [if_pos hone, if_pos hone, matches_one_iff]
        cases s with
        | nil => simp
        | cons d rest => simp [ih]
      · rw [if_neg hone, if_neg hone, matches_only_iff]
        cases s with
        | nil => simp
        | cons d rest =>
          by_cases hd : d = c
          · simp [hd, ih]
          · simp [hd]

theorem globMatches_iff (p s : JsString) : globMatches p s = true ↔ InGlob p s :=
  globMatchRecursive_iff _ _

/-- A path lies below another. -/
def Below (s p : JsString) : Prop := startsWith s (p ++ js "/") = true

/-- What a pattern is to match, both strings normalized. -/
def ShouldMatch (p s : JsString) : Prop :=
  s = p ∨ (hasWildcard p = false ∧ Below s p) ∨ InGlob p s ∨
    ∃ q, p = q ++ js "/*" ∧ ∃ m, InGlob q m ∧ (s = m ∨ Below s m)

end reading

section languages

variable {p s : JsString}

theorem hasWildcard_iff (p : JsString) : hasWildcard p = true ↔ 42 ∈ p ∨ 63 ∈ p := by
  rw [hasWildcard, Bool.or_eq_true]
  exact or_congr (includes_unit p 42) (includes_unit p 63)

theorem mem_of_mem_codePoints {c : Nat} (hc : c < 0x10000) (h : c ∈ codePoints s) :
    UInt16.ofNat c ∈ s := by
  rw [← fromCodePoints_codePoints s, fromCodePoints, List.mem_flatMap]
  exact ⟨c, h, by rw [utf16, if_pos hc]; exact List.mem_singleton_self _⟩

theorem marks_of_plain (hplain : hasWildcard p = false) :
    marks p = (codePoints p).map fun c => .only c := by
  rw [← Bool.not_eq_true, hasWildcard_iff, not_or] at hplain
  apply List.map_congr_left
  intro c hc
  have hrun : c ≠ 42 := by
    rintro rfl
    exact hplain.1 (mem_of_mem_codePoints (by decide) hc)
  have hone : c ≠ 63 := by
    rintro rfl
    exact hplain.2 (mem_of_mem_codePoints (by decide) hc)
  rw [mark, if_neg hrun, if_neg hone]

theorem codePoints_injective {s t : JsString} (h : codePoints s = codePoints t) : s = t := by
  rw [← fromCodePoints_codePoints s, h, fromCodePoints_codePoints]

theorem inGlob_plain (hplain : hasWildcard p = false) : InGlob p s ↔ s = p := by
  rw [InGlob, marks_of_plain hplain, matches_only_map_iff fun c => c, List.map_id']
  exact ⟨codePoints_injective, congrArg codePoints⟩

theorem inGlob_self (p : JsString) : InGlob p p := by
  have h := matches_map mark id (fun c => by simp only [mark]; split_ifs <;> simp) (codePoints p)
  rwa [List.map_id] at h

/-- The wildcards of a pattern with a letter in their place. -/
def fillUnit (u : UInt16) : UInt16 := if u = 42 ∨ u = 63 then 120 else u

def fill (p : JsString) : JsString := p.map fillUnit

def fillPoint (c : Nat) : Nat := if c = 42 ∨ c = 63 then 120 else c

theorem fillUnit_toNat (u : UInt16) : (fillUnit u).toNat = fillPoint u.toNat := by
  have h42 : u = 42 ↔ u.toNat = 42 := by rw [← UInt16.toNat_inj]; rfl
  have h63 : u = 63 ↔ u.toNat = 63 := by rw [← UInt16.toNat_inj]; rfl
  simp only [fillUnit, fillPoint, h42, h63]
  split_ifs <;> rfl

theorem isHighSurrogate_fillUnit (u : UInt16) :
    isHighSurrogate (fillUnit u) = isHighSurrogate u := by
  rw [isHighSurrogate, isHighSurrogate, fillUnit_toNat, fillPoint]
  split_ifs with h
  · rcases h with h | h <;> rw [h] <;> rfl
  · rfl

theorem isLowSurrogate_fillUnit (u : UInt16) : isLowSurrogate (fillUnit u) = isLowSurrogate u := by
  rw [isLowSurrogate, isLowSurrogate, fillUnit_toNat, fillPoint]
  split_ifs with h
  · rcases h with h | h <;> rw [h] <;> rfl
  · rfl

theorem codePoints_fill (p : JsString) : codePoints (fill p) = (codePoints p).map fillPoint := by
  induction p using codePoints.induct with
  | case1 => rfl
  | case2 u => simp [fill, codePoints, fillUnit_toNat]
  | case3 u v rest h ih =>
    have hu := h
    rw [← isHighSurrogate_fillUnit u, ← isLowSurrogate_fillUnit v] at hu
    have hpoint : ∀ w : UInt16, 128 ≤ w.toNat → (fillUnit w).toNat = w.toNat := by
      intro w hw
      rw [fillUnit_toNat, fillPoint, if_neg (by omega)]
    simp only [isHighSurrogate, isLowSurrogate, Bool.and_eq_true, decide_eq_true_eq] at h
    have hpair : (isHighSurrogate u && isLowSurrogate v) = true := by
      simpa [isHighSurrogate, isLowSurrogate] using h
    rw [fill, List.map_cons, List.map_cons, codePoints, if_pos hu, codePoints, if_pos hpair,
      List.map_cons, ← ih, hpoint u (by omega), hpoint v (by omega), fillPoint,
      if_neg (by omega)]
    rfl
  | case4 u v rest h ih =>
    have hu := h
    rw [← isHighSurrogate_fillUnit u, ← isLowSurrogate_fillUnit v] at hu
    rw [fill, List.map_cons, List.map_cons, codePoints, if_neg hu, codePoints, if_neg h,
      List.map_cons, ← ih, fillUnit_toNat]
    rfl

theorem inGlob_fill (p : JsString) : InGlob p (fill p) := by
  rw [InGlob, codePoints_fill]
  apply matches_map
  intro c
  rw [mark, fillPoint]
  split_ifs with hrun hone <;> simp_all

theorem fill_eq_iff (p : JsString) : fill p = p ↔ hasWildcard p = false := by
  have hsame : ∀ u, fillUnit u = u ↔ ¬ (u = 42 ∨ u = 63) := by
    intro u
    rw [fillUnit]
    split_ifs with h
    · rcases h with rfl | rfl <;> simp
    · simp [h]
  have hmap : fill p = p ↔ ∀ u ∈ p, fillUnit u = u := by
    rw [fill]
    nth_rewrite 2 [← List.map_id p]
    exact List.map_inj_left
  rw [hmap, ← Bool.not_eq_true, hasWildcard_iff]
  simp only [hsame]
  constructor
  · rintro h (hmem | hmem)
    · exact h 42 hmem (Or.inl rfl)
    · exact h 63 hmem (Or.inr rfl)
  · rintro h u hu (rfl | rfl)
    · exact h (Or.inl hu)
    · exact h (Or.inr hu)

end languages

section normal

open Workers (collapseSlashes)

variable {p s : JsString}

/-- A path whose separators are single slashes, with none at the end. -/
structure IsNormal (p : JsString) : Prop where
  slashed : 92 ∉ p
  single : p.IsChain fun u v => ¬ (u = 47 ∧ v = 47)
  closed : ∀ u ∈ p.getLast?, u ≠ 47

theorem head_collapseSlashes (p : JsString) : (collapseSlashes p).head? = p.head? := by
  induction p using Workers.collapseSlashes.induct with
  | case1 => rfl
  | case2 u => rfl
  | case3 u v rest h ih =>
    rw [collapseSlashes, if_pos h, ih, h.1, h.2]
    rfl
  | case4 u v rest h ih =>
    rw [collapseSlashes, if_neg h]
    rfl

theorem collapseSlashes_single (p : JsString) :
    (collapseSlashes p).IsChain fun u v => ¬ (u = 47 ∧ v = 47) := by
  induction p using Workers.collapseSlashes.induct with
  | case1 => exact .nil
  | case2 u => exact .singleton u
  | case3 u v rest h ih => rwa [collapseSlashes, if_pos h]
  | case4 u v rest h ih =>
    rw [collapseSlashes, if_neg h, List.isChain_cons]
    refine ⟨?_, ih⟩
    rw [head_collapseSlashes]
    rintro w hw
    rw [List.head?_cons, Option.mem_some_iff] at hw
    rwa [← hw]

theorem collapseSlashes_subset (p : JsString) : collapseSlashes p ⊆ p := by
  induction p using Workers.collapseSlashes.induct with
  | case1 => exact List.Subset.refl _
  | case2 u => exact List.Subset.refl _
  | case3 u v rest h ih =>
    rw [collapseSlashes, if_pos h]
    exact List.Subset.trans ih (List.subset_cons_self _ _)
  | case4 u v rest h ih =>
    rw [collapseSlashes, if_neg h]
    exact List.cons_subset_cons u ih

theorem collapseSlashes_of_single (h : p.IsChain fun u v => ¬ (u = 47 ∧ v = 47)) :
    collapseSlashes p = p := by
  induction p using Workers.collapseSlashes.induct with
  | case1 => rfl
  | case2 u => rfl
  | case3 u v rest hslashes ih => exact absurd hslashes (List.isChain_cons_cons.mp h).1
  | case4 u v rest hslashes ih =>
    rw [collapseSlashes, if_neg hslashes, ih (List.isChain_cons_cons.mp h).2]

theorem isNormal_normPath (p : JsString) : IsNormal (normPath p) := by
  have hsingle := collapseSlashes_single (p.map fun u => if u = 92 then 47 else u)
  have hslashed : 92 ∉ collapseSlashes (p.map fun u => if u = 92 then 47 else u) := by
    intro hmem
    obtain ⟨u, -, hu⟩ := List.mem_map.mp (collapseSlashes_subset _ hmem)
    split_ifs at hu with h
    · cases hu
    · exact h hu
  rw [normPath, Workers.norm]
  generalize collapseSlashes (p.map fun u => if u = 92 then 47 else u) = q at hsingle hslashed ⊢
  by_cases hend : endsWith q (js "/") = true
  · rw [if_pos hend]
    obtain ⟨front, rfl⟩ := List.getLast?_eq_some_iff.mp ((endsWith_unit q 47).mp hend)
    rw [List.dropLast_concat]
    refine ⟨fun hmem => hslashed (List.mem_append_left _ hmem), hsingle.left_of_append, ?_⟩
    rintro u hu rfl
    exact (List.isChain_append.mp hsingle).2.2 47 hu 47 (by simp) ⟨rfl, rfl⟩
  · rw [if_neg hend]
    refine ⟨hslashed, hsingle, ?_⟩
    rintro u hu rfl
    exact hend ((endsWith_unit q 47).mpr hu)

/-- Each normal path is what is left of a path. -/
theorem normPath_snoc (hs : IsNormal s) : normPath (s ++ [47]) = s := by
  have hmap : ((s ++ [47]).map fun u => if u = 92 then 47 else u) = s ++ [47] := by
    nth_rewrite 2 [← List.map_id (s ++ [47])]
    apply List.map_congr_left
    intro u hu
    have hne : u ≠ 92 := by
      rintro rfl
      rcases List.mem_append.mp hu with hu | hu
      · exact hs.slashed hu
      · exact absurd hu (by decide)
    rw [if_neg hne, id]
  have hsingle : (s ++ [47]).IsChain fun u v => ¬ (u = 47 ∧ v = 47) := by
    refine List.isChain_append.mpr ⟨hs.single, .singleton 47, ?_⟩
    rintro u hu v - ⟨rfl, -⟩
    exact hs.closed 47 hu rfl
  have hend : endsWith (s ++ [47]) (js "/") = true :=
    (endsWith_unit _ 47).mpr (by simp)
  rw [normPath, Workers.norm, hmap, collapseSlashes_of_single hsingle]
  rw [if_pos hend, List.dropLast_concat]

theorem normPath_head (hp : ∀ u ∈ p.head?, isWhiteSpace u = false) :
    ∀ u ∈ (normPath p).head?, isWhiteSpace u = false := by
  have hcollapsed : ∀ u ∈ (collapseSlashes (p.map fun u => if u = 92 then 47 else u)).head?,
      isWhiteSpace u = false := by
    intro u hu
    rw [head_collapseSlashes, List.head?_map, Option.mem_map] at hu
    obtain ⟨v, hv, rfl⟩ := hu
    split_ifs with h
    · rfl
    · exact hp v hv
  intro u hu
  rw [normPath, Workers.norm] at hu
  split_ifs at hu
  · obtain ⟨rest, hrest⟩ := List.dropLast_prefix
      (collapseSlashes (p.map fun u => if u = 92 then 47 else u))
    apply hcollapsed u
    rw [← hrest, List.head?_append, Option.mem_def.mp hu]
    rfl
  · exact hcollapsed u hu

theorem normPath_trim_snoc (hs : IsNormal s) (hhead : ∀ u ∈ s.head?, isWhiteSpace u = false) :
    normPath (trim (s ++ [47])) = s := by
  have htrim : trim (s ++ [47]) = s ++ [47] := by
    apply trim_of_ends
    · intro u hu
      rw [List.head?_append] at hu
      cases s with
      | nil => cases hu; rfl
      | cons v s => exact hhead u hu
    · intro u hu
      rw [List.getLast?_concat] at hu
      cases hu
      rfl
  rw [htrim, normPath_snoc hs]

end normal

section cases

variable {p q s : JsString}

theorem below_iff : Below s p ↔ ∃ rest, s = p ++ 47 :: rest := by
  rw [Below, startsWith_iff]
  constructor
  · rintro ⟨rest, rfl⟩
    exact ⟨rest, by simp [js, fromCodePoints, utf16]⟩
  · rintro ⟨rest, rfl⟩
    exact ⟨rest, by simp [js, fromCodePoints, utf16]⟩

/-- What the code asks of the rest behind a prefix. -/
theorem reaches_iff : (startsWith s p && ((s.drop p.length).isEmpty ||
    startsWith (s.drop p.length) (js "/"))) = true ↔ s = p ∨ Below s p := by
  rw [Bool.and_eq_true, startsWith_iff, below_iff]
  constructor
  · rintro ⟨⟨rest, rfl⟩, hrest⟩
    rw [List.drop_left, Bool.or_eq_true, List.isEmpty_iff, startsWith_iff] at hrest
    rcases hrest with rfl | ⟨tail, htail⟩
    · exact Or.inl (List.append_nil p)
    · exact Or.inr ⟨tail, by rw [← htail]; rfl⟩
  · rintro (rfl | ⟨rest, rfl⟩)
    · simp
    · refine ⟨List.prefix_append p _, ?_⟩
      rw [List.drop_left, Bool.or_eq_true, startsWith_iff]
      exact Or.inr ⟨rest, rfl⟩

/-- A component of the path has the pattern as a part. -/
def InComponent (p s : JsString) : Prop := ∃ c ∈ split s (js "/"), p <:+: c

theorem inComponent_iff : ((split s (js "/")).contains p = true ∨
    ((split s (js "/")).any fun c => includes c p) = true) ↔ InComponent p s := by
  rw [List.contains_iff_mem, List.any_eq_true]
  simp only [includes_iff]
  constructor
  · rintro (h | h)
    · exact ⟨p, h, List.infix_rfl⟩
    · exact h
  · exact Or.inr

theorem not_inComponent (hp : 47 ∈ p) : ¬ InComponent p s := by
  rintro ⟨c, hc, hpart⟩
  exact not_mem_of_mem_splitFrom 47 [] s List.not_mem_nil c hc (hpart.subset hp)

theorem inComponent_of_part (hs : 47 ∉ s) (h : p <:+: s) : InComponent p s := by
  refine ⟨s, ?_, h⟩
  rw [show split s (js "/") = [s] from split_of_not_mem 47 [] s hs]
  exact List.mem_singleton_self s

theorem part_of_inComponent (h : InComponent p s) : p <:+: s := by
  obtain ⟨c, hc, hpart⟩ := h
  have hinfix := hpart.trans (infix_join [47] hc)
  rwa [show join [47] (split s (js "/")) = s from join_split s] at hinfix

theorem hasWildcard_eq_false_iff (p : JsString) : hasWildcard p = false ↔ 42 ∉ p ∧ 63 ∉ p := by
  rw [← Bool.not_eq_true, hasWildcard_iff, not_or]

theorem matchNormal_plain (hplain : hasWildcard p = false) :
    matchNormal p s = true ↔ s = p ∨ Below s p ∨ (¬ p <+: s ∧ InComponent p s) := by
  obtain ⟨hrun, hone⟩ := (hasWildcard_eq_false_iff p).mp hplain
  have hbelow : endsWith p (js "/*") ≠ true := fun h =>
    hrun (((endsWith_iff _ _).mp h).subset (by decide))
  have hend : endsWith p (js "*") ≠ true := fun h =>
    hrun (((endsWith_iff _ _).mp h).subset (by decide))
  have hmark : includes p (js "?") ≠ true := fun h => hone ((includes_unit p 63).mp h)
  have hmiddle : includes p (js "/*/") ≠ true := fun h =>
    hrun (((includes_iff _ _).mp h).subset (by decide))
  have hfront : startsWith p (js "*/") ≠ true := fun h =>
    hrun (((startsWith_iff _ _).mp h).subset (by decide))
  rw [← or_assoc, ← reaches_iff, matchNormal]
  by_cases hsame : p = s
  · subst hsame
    simp [startsWith_iff]
  · rw [if_neg hsame]
    by_cases hstart : startsWith s p = true
    · rw [if_pos (by simp [hplain, hstart])]
      simp [hstart, (startsWith_iff s p).mp hstart]
    · rw [if_neg (by simp [hstart]), if_neg hbelow, if_neg (by simp [hend])]
      simp only [Bool.not_eq_true] at hstart hmark hmiddle hfront
      rw [← inComponent_iff, ← startsWith_iff, hstart, hmark, hmiddle, hfront]
      simp

theorem not_plainPrefix (hwild : hasWildcard p = true) (s : JsString) :
    ¬ (!hasWildcard p && startsWith s p) = true := by
  simp [hwild]

theorem take_below (q : JsString) : (q ++ [47, 42]).take ((q ++ [47, 42]).length - 2) = q := by
  rw [List.length_append]
  exact List.take_left

theorem matchNormal_below :
    matchNormal (q ++ [47, 42]) s = true ↔ s = q ∨ Below s q := by
  have hwild : hasWildcard (q ++ [47, 42]) = true := (hasWildcard_iff _).mpr (Or.inl (by simp))
  have hend : endsWith (q ++ [47, 42]) (js "/*") = true := (endsWith_iff _ _).mpr ⟨q, rfl⟩
  rw [matchNormal, if_neg (not_plainPrefix hwild s), if_pos hend, take_below]
  by_cases hsame : q ++ [47, 42] = s
  · rw [if_pos hsame]
    exact iff_of_true rfl (Or.inr (below_iff.mpr ⟨[42], hsame.symm⟩))
  · rw [if_neg hsame]
    exact reaches_iff

theorem matchNormal_run (hbelow : ¬ endsWith (q ++ [42]) (js "/*") = true)
    (hmiddle : includes (q ++ [42]) (js "/*/") = false)
    (h : matchNormal (q ++ [42]) s = true) :
    s = q ++ [42] ∨ ∃ rest, s = q ++ rest ∧ rest.head? ≠ some 47 := by
  have hwild : hasWildcard (q ++ [42]) = true := (hasWildcard_iff _).mpr (Or.inl (by simp))
  have hend : endsWith (q ++ [42]) (js "*") = true := (endsWith_iff _ _).mpr ⟨q, rfl⟩
  have htake : (q ++ [42]).take ((q ++ [42]).length - 1) = q := by
    rw [List.length_append]
    exact List.take_left
  have hrun : (endsWith (q ++ [42]) (js "*") && !includes (q ++ [42]) (js "/*/")) = true := by
    rw [hend, hmiddle]
    rfl
  rw [matchNormal] at h
  by_cases hsame : q ++ [42] = s
  · exact Or.inl hsame.symm
  · rw [if_neg hsame, if_neg (not_plainPrefix hwild s), if_neg hbelow, if_pos hrun, htake,
      Bool.and_eq_true, startsWith_iff] at h
    obtain ⟨⟨rest, rfl⟩, hrest⟩ := h
    refine Or.inr ⟨rest, rfl, ?_⟩
    rw [List.drop_left] at hrest
    intro hhead
    obtain ⟨tail, rfl⟩ := List.head?_eq_some_iff.mp hhead
    simp [js, fromCodePoints, utf16, startsWith] at hrest

theorem matchNormal_rest (hwild : hasWildcard p = true) (hbelow : ¬ endsWith p (js "/*") = true)
    (hrun : endsWith p (js "*") = true → includes p (js "/*/") = true) :
    matchNormal p s = true ↔ s = p ∨ InComponent p s ∨
      ((63 ∈ p ∨ includes p (js "/*/") = true ∨ startsWith p (js "*/") = true) ∧ InGlob p s) := by
  have hnotRun : ¬ (endsWith p (js "*") && !includes p (js "/*/")) = true := by
    rw [Bool.and_eq_true]
    rintro ⟨hend, hmiddle⟩
    simp [hrun hend] at hmiddle
  have hmark : 63 ∈ p ↔ includes p (js "?") = true := (includes_unit p 63).symm
  rw [matchNormal]
  by_cases hsame : p = s
  · rw [if_pos hsame]
    exact iff_of_true rfl (Or.inl hsame.symm)
  · rw [if_neg hsame, if_neg (not_plainPrefix hwild s), if_neg hbelow, if_neg hnotRun,
      or_iff_right (Ne.symm hsame), ← inComponent_iff, ← globMatches_iff, hmark]
    generalize (split s (js "/")).contains p = whole
    generalize ((split s (js "/")).any fun c => includes c p) = part
    cases whole <;> cases part <;> simp [or_assoc]

end cases

section agreement

variable {p q s : JsString}

/-- The code's answer is the meant one. -/
def Agrees (p s : JsString) : Prop := matchNormal p s = true ↔ ShouldMatch p s

/-- The patterns that the code reads as they are meant, along its cases. -/
def Readable (p : JsString) : Prop :=
  if hasWildcard p = false then p = [] ∨ 47 ∈ p
  else if endsWith p (js "/*") = true then hasWildcard (p.take (p.length - 2)) = false
  else if endsWith p (js "*") = true then includes p (js "/*/") = true
  else if 47 ∈ p then 63 ∈ p ∨ includes p (js "/*/") = true ∨ startsWith p (js "*/") = true
  else 63 ∈ p ∧ OpensFreely (marks p) ∧ OpensFreely (marks p).reverse

theorem shouldMatch_plain (hplain : hasWildcard p = false) :
    ShouldMatch p s ↔ s = p ∨ Below s p := by
  rw [ShouldMatch, inGlob_plain hplain]
  constructor
  · rintro (h | h | h | ⟨q, rfl, -⟩)
    · exact Or.inl h
    · exact Or.inr h.2
    · exact Or.inl h
    · exact absurd (by simp [js, fromCodePoints, utf16])
        ((hasWildcard_eq_false_iff _).mp hplain).1
  · rintro (h | h)
    · exact Or.inl h
    · exact Or.inr (Or.inl ⟨hplain, h⟩)

theorem shouldMatch_rest (hwild : hasWildcard p = true) (hbelow : ¬ endsWith p (js "/*") = true) :
    ShouldMatch p s ↔ InGlob p s := by
  rw [ShouldMatch, hwild]
  constructor
  · rintro (rfl | ⟨h, -⟩ | h | ⟨q, rfl, -⟩)
    · exact inGlob_self s
    · cases h
    · exact h
    · exact absurd ((endsWith_iff _ _).mpr ⟨q, rfl⟩) hbelow
  · exact fun h => Or.inr (Or.inr (Or.inl h))

theorem isPlain_of_lt {u : UInt16} (hu : u.toNat < 0xD800) : IsPlain u := by
  constructor
  · simp only [isHighSurrogate, Bool.and_eq_false_iff, decide_eq_false_iff_not]
    omega
  · simp only [isLowSurrogate, Bool.and_eq_false_iff, decide_eq_false_iff_not]
    omega

theorem marks_append_plain {u : UInt16} (hu : IsPlain u) (p q : JsString) :
    marks (p ++ u :: q) = marks p ++ mark u.toNat :: marks q := by
  rw [marks, codePoints_append_plain hu, List.map_append, List.map_cons, marks, marks]

theorem inGlob_below (h : InGlob (q ++ [47, 42]) s) (hplain : hasWildcard q = false) :
    Below s q := by
  rw [InGlob, marks_append_plain (isPlain_of_lt (by decide)), marks_of_plain hplain,
    matches_append_iff] at h
  obtain ⟨first, rest, hs, hfirst, hrest⟩ := h
  rw [matches_only_map_iff fun c => c, List.map_id'] at hfirst
  obtain ⟨tail, rfl, -⟩ := matches_only_iff.mp hrest
  rw [hfirst] at hs
  refine below_iff.mpr ⟨fromCodePoints tail, ?_⟩
  rw [← fromCodePoints_codePoints s, hs, fromCodePoints_append, fromCodePoints_codePoints]
  rfl

theorem shouldMatch_below (hplain : hasWildcard q = false) :
    ShouldMatch (q ++ [47, 42]) s ↔ s = q ∨ Below s q := by
  constructor
  · rintro (rfl | ⟨hnone, -⟩ | h | ⟨r, hr, m, hm, h⟩)
    · exact Or.inr (below_iff.mpr ⟨[42], rfl⟩)
    · exact absurd (by simp) ((hasWildcard_eq_false_iff _).mp hnone).1
    · exact Or.inr (inGlob_below h hplain)
    · obtain rfl := List.append_cancel_right (show q ++ [47, 42] = r ++ [47, 42] from hr)
      rwa [(inGlob_plain hplain).mp hm] at h
  · intro h
    exact Or.inr (Or.inr (Or.inr ⟨q, rfl, q, inGlob_self q, h⟩))

/-- The patterns that reach the glob reading. -/
theorem agrees_of_glob (hwild : hasWildcard p = true) (hbelow : ¬ endsWith p (js "/*") = true)
    (hrun : endsWith p (js "*") = true → includes p (js "/*/") = true)
    (hglob : 63 ∈ p ∨ includes p (js "/*/") = true ∨ startsWith p (js "*/") = true)
    (hpart : InComponent p s → InGlob p s) : Agrees p s := by
  rw [Agrees, matchNormal_rest hwild hbelow hrun, shouldMatch_rest hwild hbelow]
  constructor
  · rintro (rfl | h | ⟨-, h⟩)
    · exact inGlob_self s
    · exact hpart h
    · exact h
  · exact fun h => Or.inr (Or.inr ⟨hglob, h⟩)

theorem wild_of_opensFreely {c : Nat} {rest : List (Mark Nat)}
    (h : OpensFreely (mark c :: rest)) : c = 42 ∨ c = 63 := by
  by_contra hnot
  rw [not_or] at hnot
  rw [mark, if_neg hnot.1, if_neg hnot.2] at h
  exact not_opensFreely_only c h

theorem isPlain_wild {c : Nat} (hc : c = 42 ∨ c = 63) :
    IsPlain (UInt16.ofNat c) ∧ (UInt16.ofNat c).toNat = c ∧ utf16 c = [UInt16.ofNat c] := by
  rcases hc with rfl | rfl
  · exact ⟨isPlain_of_lt (by decide), rfl, rfl⟩
  · exact ⟨isPlain_of_lt (by decide), rfl, rfl⟩

theorem codePoints_before (hfront : OpensFreely (marks p)) (before after : JsString) :
    codePoints (before ++ (p ++ after)) = codePoints before ++ codePoints (p ++ after) := by
  cases hp : codePoints p with
  | nil =>
    rw [marks, hp] at hfront
    cases hfront
  | cons c rest =>
    rw [marks, hp, List.map_cons] at hfront
    obtain ⟨hplain, hnat, hunit⟩ := isPlain_wild (wild_of_opensFreely hfront)
    have hshape : p = UInt16.ofNat c :: fromCodePoints rest := by
      rw [← fromCodePoints_codePoints p, hp, fromCodePoints, List.flatMap_cons, hunit]
      rfl
    have hown := codePoints_append_plain hplain [] (fromCodePoints rest ++ after)
    rw [hshape, List.cons_append, codePoints_append_plain hplain]
    exact congrArg (codePoints before ++ ·) hown.symm

theorem codePoints_after (hback : OpensFreely (marks p).reverse) (after : JsString) :
    codePoints (p ++ after) = codePoints p ++ codePoints after := by
  rcases List.eq_nil_or_concat (codePoints p) with hp | ⟨front, c, hp⟩
  · rw [marks, hp] at hback
    cases hback
  · rw [List.concat_eq_append] at hp
    rw [marks, hp, List.map_append, List.reverse_append] at hback
    obtain ⟨hplain, hnat, hunit⟩ := isPlain_wild (wild_of_opensFreely hback)
    have hshape : p = fromCodePoints front ++ [UInt16.ofNat c] := by
      rw [← fromCodePoints_codePoints p, hp, fromCodePoints_append]
      have hlast : fromCodePoints [c] = [UInt16.ofNat c] := by
        rw [fromCodePoints, List.flatMap_singleton, hunit]
      exact congrArg (fromCodePoints front ++ ·) hlast
    rw [hshape, codePoints_snoc_plain hplain, List.append_assoc, List.singleton_append,
      codePoints_append_plain hplain, List.append_assoc, List.singleton_append]

/-- A pattern that is free at both ends matches around each of its places. -/
theorem inGlob_of_infix (hfront : OpensFreely (marks p)) (hback : OpensFreely (marks p).reverse)
    (h : p <:+: s) : InGlob p s := by
  obtain ⟨before, after, rfl⟩ := h
  rw [InGlob, List.append_assoc, codePoints_before hfront, codePoints_after hback,
    ← List.append_assoc]
  exact hfront.surround hback (inGlob_self p) _ _

theorem agrees_of_readable (h : Readable p) (s : JsString) : Agrees p s := by
  rw [Readable] at h
  split_ifs at h with hplain hbelow hrun hslash
  · rw [Agrees, matchNormal_plain hplain, shouldMatch_plain hplain, ← or_assoc]
    apply or_iff_left
    rintro ⟨hnot, hin⟩
    rcases h with rfl | h
    · exact hnot List.nil_prefix
    · exact not_inComponent h hin
  · obtain ⟨q, rfl⟩ := (endsWith_iff _ _).mp hbelow
    rw [show q ++ js "/*" = q ++ [47, 42] from rfl] at h ⊢
    rw [take_below] at h
    rw [Agrees, matchNormal_below, shouldMatch_below h]
  · have hslash : 47 ∈ p := ((includes_iff _ _).mp h).subset (by decide)
    exact agrees_of_glob (Bool.not_eq_false _ ▸ hplain) hbelow (fun _ => h) (Or.inr (Or.inl h))
      fun hin => absurd hin (not_inComponent hslash)
  · exact agrees_of_glob (Bool.not_eq_false _ ▸ hplain) hbelow (fun hend => absurd hend hrun) h
      fun hin => absurd hin (not_inComponent hslash)
  · exact agrees_of_glob (Bool.not_eq_false _ ▸ hplain) hbelow (fun hend => absurd hend hrun)
      (Or.inl h.1) fun hin => inGlob_of_infix h.2.1 h.2.2 (part_of_inComponent hin)

end agreement

section disagreement

variable {p q s : JsString}

/-- A path as the matching sees it. -/
structure IsSeen (p : JsString) : Prop extends IsNormal p where
  front : ∀ u ∈ p.head?, isWhiteSpace u = false

theorem isSeen_normPath_trim (p : JsString) : IsSeen (normPath (trim p)) where
  toIsNormal := isNormal_normPath (trim p)
  front := normPath_head (trim_head p)

theorem single_of_no_slash (h : 47 ∉ p) : p.IsChain fun u v => ¬ (u = 47 ∧ v = 47) := by
  induction p with
  | nil => exact .nil
  | cons u p ih =>
    rw [List.mem_cons, not_or] at h
    refine List.isChain_cons.mpr ⟨?_, ih h.2⟩
    rintro v - ⟨hu, -⟩
    exact h.1 hu.symm

theorem isNormal_of_no_slash (h47 : 47 ∉ p) (h92 : 92 ∉ p) : IsNormal p := by
  refine ⟨h92, single_of_no_slash h47, ?_⟩
  rintro u hu rfl
  exact h47 (List.mem_of_getLast? hu)

theorem fillUnit_eq_iff {u v : UInt16} (hv : v ≠ 42 ∧ v ≠ 63 ∧ v ≠ 120) :
    fillUnit u = v ↔ u = v := by
  rw [fillUnit]
  split_ifs with h
  · constructor
    · rintro rfl
      exact absurd rfl hv.2.2
    · rintro rfl
      exact absurd h (not_or.mpr ⟨hv.1, hv.2.1⟩)
  · rfl

theorem mem_fill_iff {v : UInt16} (hv : v ≠ 42 ∧ v ≠ 63 ∧ v ≠ 120) : v ∈ fill p ↔ v ∈ p := by
  rw [fill, List.mem_map]
  simp only [fillUnit_eq_iff hv, exists_eq_right]

theorem IsSeen.fill (hp : IsSeen p) : IsSeen (fill p) where
  slashed := (mem_fill_iff (by decide)).not.mpr hp.slashed
  single := by
    rw [Trust.fill, List.isChain_map]
    exact hp.single.imp fun u v h => by
      rwa [fillUnit_eq_iff (by decide), fillUnit_eq_iff (by decide)]
  closed := by
    rw [Trust.fill, List.getLast?_map]
    rintro u hu rfl
    obtain ⟨v, hv, hslash⟩ := Option.mem_map.mp hu
    exact hp.closed v hv ((fillUnit_eq_iff (by decide)).mp hslash)
  front := by
    rw [Trust.fill, List.head?_map]
    rintro u hu
    obtain ⟨v, hv, rfl⟩ := Option.mem_map.mp hu
    rw [fillUnit]
    split_ifs
    · rfl
    · exact hp.front v hv

theorem IsSeen.of_append {t : JsString} (hp : IsSeen (p ++ t)) (hlast : ∀ u ∈ p.getLast?, u ≠ 47) :
    IsSeen p where
  slashed := fun h => hp.slashed (List.mem_append_left t h)
  single := hp.single.left_of_append
  closed := hlast
  front := by
    intro u hu
    apply hp.front
    rw [List.head?_append, Option.mem_def.mp hu]
    rfl

theorem IsSeen.append {t : JsString} (hp : IsSeen p) (ht : IsSeen t) :
    IsSeen (p ++ t) where
  slashed := by
    rw [List.mem_append, not_or]
    exact ⟨hp.slashed, ht.slashed⟩
  single := by
    refine List.isChain_append.mpr ⟨hp.single, ht.single, ?_⟩
    rintro u hu v - ⟨rfl, -⟩
    exact hp.closed 47 hu rfl
  closed := by
    intro u hu
    rw [List.getLast?_append, Option.mem_def, Option.or_eq_some_iff] at hu
    rcases hu with hu | ⟨-, hu⟩
    · exact ht.closed u hu
    · exact hp.closed u hu
  front := by
    intro u hu
    rw [List.head?_append, Option.mem_def, Option.or_eq_some_iff] at hu
    rcases hu with hu | ⟨-, hu⟩
    · exact hp.front u hu
    · exact ht.front u hu

/-- A component that carries a plain pattern is enough, wherever the path begins. -/
theorem disagrees_plain (hp : IsSeen p) (hplain : hasWildcard p = false) (hne : p ≠ [])
    (hslash : 47 ∉ p) : IsSeen (47 :: p) ∧ ¬ Agrees p (47 :: p) := by
  obtain ⟨u, rest, rfl⟩ := List.exists_cons_of_ne_nil hne
  have hu : u ≠ 47 := fun h => hslash (h ▸ List.mem_cons_self)
  have hnot : ¬ u :: rest <+: 47 :: u :: rest := by
    rw [List.cons_prefix_cons]
    exact fun h => hu h.1
  refine ⟨⟨⟨?_, ?_, ?_⟩, ?_⟩, ?_⟩
  · rw [List.mem_cons, not_or]
    exact ⟨by decide, hp.slashed⟩
  · exact List.isChain_cons_cons.mpr ⟨fun h => hu h.2, hp.single⟩
  · rw [List.getLast?_cons_cons]
    exact hp.closed
  · rintro v hv
    rw [List.head?_cons, Option.mem_some_iff] at hv
    subst hv
    rfl
  · rw [Agrees, matchNormal_plain hplain, shouldMatch_plain hplain]
    intro h
    have hsplit : split (47 :: u :: rest) [47] = [] :: split (u :: rest) [47] :=
      splitFrom_sep 47 [] (u :: rest)
    have hin : InComponent (u :: rest) (47 :: u :: rest) := by
      refine ⟨u :: rest, ?_, List.infix_rfl⟩
      rw [show split (47 :: u :: rest) (js "/") = _ from hsplit,
        split_of_not_mem 47 [] _ hslash]
      simp
    rcases h.mp (Or.inr (Or.inr ⟨hnot, hin⟩)) with h | h
    · exact hu (List.cons.inj h).1.symm
    · obtain ⟨tail, htail⟩ := below_iff.mp h
      exact hnot ⟨47 :: tail, htail.symm⟩

theorem disagrees_below (hp : IsSeen (q ++ [47, 42])) (hwild : hasWildcard q = true) :
    IsSeen (fill q) ∧ ¬ Agrees (q ++ [47, 42]) (fill q) := by
  have hq : IsSeen q := by
    refine hp.of_append ?_
    rintro u hu rfl
    exact (List.isChain_append.mp hp.single).2.2 47 hu 47 (by simp) ⟨rfl, rfl⟩
  refine ⟨hq.fill, ?_⟩
  rw [Agrees, matchNormal_below]
  intro h
  have hshould : ShouldMatch (q ++ [47, 42]) (fill q) :=
    Or.inr (Or.inr (Or.inr ⟨q, rfl, fill q, inGlob_fill q, Or.inl rfl⟩))
  rcases h.mpr hshould with h | h
  · rw [fill_eq_iff, hwild] at h
    cases h
  · obtain ⟨rest, hrest⟩ := below_iff.mp h
    have hlength := congrArg List.length hrest
    rw [fill, List.length_map, List.length_append, List.length_cons] at hlength
    omega

theorem disagrees_run (hp : IsSeen (q ++ [42])) (hbelow : ¬ endsWith (q ++ [42]) (js "/*") = true)
    (hmiddle : includes (q ++ [42]) (js "/*/") = false) :
    IsSeen (fill q ++ [47, 121]) ∧ ¬ Agrees (q ++ [42]) (fill q ++ [47, 121]) := by
  have hq : IsSeen q := by
    refine hp.of_append ?_
    rintro u hu rfl
    obtain ⟨front, rfl⟩ := List.getLast?_eq_some_iff.mp hu
    exact hbelow ((endsWith_iff _ _).mpr ⟨front, by simp [js, fromCodePoints, utf16]⟩)
  have hrest : IsSeen [47, 121] :=
    ⟨⟨by simp, by simp, by simp⟩, by rintro u ⟨⟩; rfl⟩
  refine ⟨hq.fill.append hrest, ?_⟩
  have hwild : hasWildcard (q ++ [42]) = true := (hasWildcard_iff _).mpr (Or.inl (by simp))
  have hglob : InGlob (q ++ [42]) (fill q ++ [47, 121]) := by
    rw [InGlob, marks_append_plain (isPlain_of_lt (by decide)),
      codePoints_append_plain (isPlain_of_lt (by decide))]
    exact (inGlob_fill q).append (.run [47, 121] .nil)
  rw [Agrees, shouldMatch_rest hwild hbelow]
  intro h
  rcases matchNormal_run hbelow hmiddle (h.mpr hglob) with h | ⟨rest, h, hhead⟩
  · have hlast := congrArg List.getLast? h
    simp at hlast
  · obtain ⟨-, rfl⟩ := List.append_inj h (by rw [fill, List.length_map])
    exact hhead rfl

theorem disagrees_unread (hp : IsSeen p) (hwild : hasWildcard p = true)
    (hbelow : ¬ endsWith p (js "/*") = true)
    (hrun : endsWith p (js "*") = true → includes p (js "/*/") = true)
    (hglob : ¬ (63 ∈ p ∨ includes p (js "/*/") = true ∨ startsWith p (js "*/") = true)) :
    IsSeen (fill p) ∧ ¬ Agrees p (fill p) := by
  refine ⟨hp.fill, ?_⟩
  have hne : fill p ≠ p := by
    rw [ne_eq, fill_eq_iff, hwild]
    exact Bool.noConfusion
  rw [Agrees, matchNormal_rest hwild hbelow hrun, shouldMatch_rest hwild hbelow]
  intro h
  rcases h.mpr (inGlob_fill p) with h | h | h
  · exact hne h
  · have hpart := part_of_inComponent h
    exact hne (hpart.eq_of_length (by rw [fill, List.length_map])).symm
  · exact hglob h.1

theorem codePoints_replicate_append {a : Nat} (ha : a < 0xD800) (n : Nat) (s : JsString) :
    codePoints (List.replicate n (UInt16.ofNat a) ++ s) = List.replicate n a ++ codePoints s := by
  have hnat : (UInt16.ofNat a).toNat = a := by
    rw [UInt16.toNat_ofNat', Nat.mod_eq_of_lt (by omega)]
  have hplain : IsPlain (UInt16.ofNat a) := isPlain_of_lt (by rwa [hnat])
  induction n with
  | zero => rfl
  | succ n ih =>
    rw [List.replicate_succ, List.cons_append, codePoints_cons _ _ hplain.high, ih, hnat]
    rfl

theorem codePoints_append_replicate {a : Nat} (ha : a < 0xD800) (n : Nat) (s : JsString) :
    codePoints (s ++ List.replicate n (UInt16.ofNat a)) = codePoints s ++ List.replicate n a := by
  have hnat : (UInt16.ofNat a).toNat = a := by
    rw [UInt16.toNat_ofNat', Nat.mod_eq_of_lt (by omega)]
  have hplain : IsPlain (UInt16.ofNat a) := isPlain_of_lt (by rwa [hnat])
  induction n with
  | zero => simp
  | succ n ih =>
    rw [List.replicate_succ', ← List.append_assoc, codePoints_snoc_plain hplain, ih, hnat,
      List.replicate_succ', List.append_assoc]

theorem isSeen_replicate {a : Nat} (ha : a = 120 ∨ a = 121) (n : Nat) :
    IsSeen (List.replicate n (UInt16.ofNat a)) := by
  refine ⟨isNormal_of_no_slash ?_ ?_, ?_⟩
  · intro h
    rcases ha with rfl | rfl <;> exact absurd (List.eq_of_mem_replicate h) (by decide)
  · intro h
    rcases ha with rfl | rfl <;> exact absurd (List.eq_of_mem_replicate h) (by decide)
  · intro u hu
    rcases ha with rfl | rfl <;> rw [List.eq_of_mem_replicate (List.mem_of_head? hu)] <;> rfl

theorem not_mem_replicate {a : Nat} (ha : a = 120 ∨ a = 121) (n : Nat) :
    47 ∉ List.replicate n (UInt16.ofNat a) := by
  intro h
  rcases ha with rfl | rfl <;> exact absurd (List.eq_of_mem_replicate h) (by decide)

/-- A pattern in one component, without runs at both ends, is found where it does not match. -/
theorem disagrees_part (hwild : hasWildcard p = true) (hbelow : ¬ endsWith p (js "/*") = true)
    (hrun : endsWith p (js "*") = true → includes p (js "/*/") = true)
    (hs : 47 ∉ s) (hin : p <:+: s) (hnot : ¬ InGlob p s) : ¬ Agrees p s := by
  rw [Agrees, matchNormal_rest hwild hbelow hrun, shouldMatch_rest hwild hbelow]
  exact fun h => hnot (h.mp (Or.inr (Or.inl (inComponent_of_part hs hin))))

theorem exists_disagreement (hp : IsSeen p) (h : ¬ Readable p) : ∃ s, IsSeen s ∧ ¬ Agrees p s := by
  rw [Readable] at h
  split_ifs at h with hplain hbelow hrun hslash
  · rw [not_or] at h
    exact ⟨47 :: p, disagrees_plain hp hplain h.1 h.2⟩
  · obtain ⟨q, rfl⟩ := (endsWith_iff _ _).mp hbelow
    rw [show q ++ js "/*" = q ++ [47, 42] from rfl] at h hp ⊢
    rw [take_below, Bool.not_eq_false] at h
    exact ⟨fill q, disagrees_below hp h⟩
  · obtain ⟨q, rfl⟩ := (endsWith_iff _ _).mp hrun
    exact ⟨fill q ++ [47, 121], disagrees_run hp hbelow (Bool.not_eq_true _ ▸ h)⟩
  · rw [Bool.not_eq_false] at hplain
    exact ⟨fill p, disagrees_unread hp hplain hbelow (fun hend => absurd hend hrun) h⟩
  · rw [Bool.not_eq_false] at hplain
    have hend : endsWith p (js "*") = true → includes p (js "/*/") = true :=
      fun hend => absurd hend hrun
    by_cases hone : 63 ∈ p
    · by_cases hfront : OpensFreely (marks p)
      · have hback : ¬ OpensFreely (marks p).reverse := fun hback => h ⟨hone, hfront, hback⟩
        obtain ⟨a, n, ha, hnot⟩ := exists_unmatched_back hback (show 120 ≠ 121 by decide)
        have hsmall : a < 0xD800 := by omega
        refine ⟨p ++ List.replicate (n + 1) (UInt16.ofNat a), ?_, ?_⟩
        · exact hp.append (isSeen_replicate ha _)
        apply disagrees_part hplain hbelow hend
        · rw [List.mem_append, not_or]
          exact ⟨hslash, not_mem_replicate ha _⟩
        · exact (List.prefix_append p _).isInfix
        · rw [InGlob, codePoints_append_replicate hsmall]
          exact hnot _
      · obtain ⟨a, n, ha, hnot⟩ := exists_unmatched_front hfront (show 120 ≠ 121 by decide)
        have hsmall : a < 0xD800 := by omega
        refine ⟨List.replicate (n + 1) (UInt16.ofNat a) ++ p, ?_, ?_⟩
        · exact (isSeen_replicate ha _).append hp
        apply disagrees_part hplain hbelow hend
        · rw [List.mem_append, not_or]
          exact ⟨not_mem_replicate ha _, hslash⟩
        · exact (List.suffix_append _ p).isInfix
        · rw [InGlob, codePoints_replicate_append hsmall]
          exact hnot _
    · refine ⟨fill p, disagrees_unread hp hplain hbelow hend ?_⟩
      rintro (hmark | hmiddle | hstart)
      · exact hone hmark
      · exact hslash (((includes_iff _ _).mp hmiddle).subset (by decide))
      · exact hslash (((startsWith_iff _ _).mp hstart).subset (by decide))

/-- Which patterns match exactly the paths they are to match. -/
theorem patternMatches_exact_iff (pattern : JsString) :
    (∀ path, patternMatches pattern path = true ↔
      ShouldMatch (normPath (trim pattern)) (normPath (trim path))) ↔
    Readable (normPath (trim pattern)) := by
  constructor
  · intro h
    by_contra hnot
    obtain ⟨s, hs, hdisagrees⟩ := exists_disagreement (isSeen_normPath_trim pattern) hnot
    have hpath := h (s ++ [47])
    rw [patternMatches, normPath_trim_snoc hs.toIsNormal hs.front] at hpath
    exact hdisagrees hpath
  · exact fun h path => agrees_of_readable h (normPath (trim path))

/-- A wildcard within a component is not read as one. -/
theorem middle_run_unread :
    ¬ (patternMatches (js "/foo*/bar") (js "/foox/bar") = true ↔
      ShouldMatch (normPath (trim (js "/foo*/bar"))) (normPath (trim (js "/foox/bar")))) := by
  have hshould : ShouldMatch (normPath (trim (js "/foo*/bar")))
      (normPath (trim (js "/foox/bar"))) :=
    Or.inr (Or.inr (Or.inl ((globMatches_iff _ _).mp (by decide +kernel))))
  intro h
  exact absurd (h.mpr hshould) (by decide +kernel)

end disagreement

end Solarcido.Trust
