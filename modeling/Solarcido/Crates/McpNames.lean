import Solarcido.Crates.EditFile
import Solarcido.Mcp.Naming

namespace Solarcido.Crates

open RustText

section names

def CLAUDE_AI_PREFIX : RustString := str "claude.ai "

/-- `'a'..='z' | 'A'..='Z' | '0'..='9' | '_' | '-'`. -/
def isNameChar (ch : Char) : Bool :=
  ('a' ≤ ch && ch ≤ 'z') || ('A' ≤ ch && ch ≤ 'Z') || ('0' ≤ ch && ch ≤ '9') || ch == '_' ||
    ch == '-'

def sanitizeChar (ch : Char) : Char := if isNameChar ch then ch else '_'

def collapseFrom : Bool → RustString → RustString
  | _, [] => []
  | lastWasUnderscore, ch :: rest =>
    if ch = '_' then
      if lastWasUnderscore then collapseFrom true rest else ch :: collapseFrom true rest
    else ch :: collapseFrom false rest

def collapseUnderscores (value : RustString) : RustString := collapseFrom false value

/-- `s.trim_matches(ch)`. -/
def trimMatches (ch : Char) (s : RustString) : RustString :=
  (s.dropWhile (· = ch)).rdropWhile (· = ch)

def normalizeNameForMcp (name : RustString) : RustString :=
  let normalized := name.map sanitizeChar
  if startsWith name CLAUDE_AI_PREFIX then trimMatches '_' (collapseUnderscores normalized)
  else normalized

def mcpToolPrefix (serverName : RustString) : RustString :=
  str "mcp__" ++ normalizeNameForMcp serverName ++ str "__"

def mcpToolName (serverName toolName : RustString) : RustString :=
  mcpToolPrefix serverName ++ normalizeNameForMcp toolName

end names

def IsNameChars (s : RustString) : Prop := ∀ ch ∈ s, isNameChar ch = true

section characters

theorem isNameChar_sanitizeChar (ch : Char) : isNameChar (sanitizeChar ch) = true := by
  rw [sanitizeChar]
  split
  · assumption
  · decide

theorem isNameUnit_toNat (ch : Char) : Mcp.isNameUnit ch.toNat = isNameChar ch := by
  have hle : ∀ a b : Char, (a ≤ b) = (a.toNat ≤ b.toNat) := fun a b => rfl
  have heq : ∀ b : Char, (ch == b) = (ch.toNat == b.toNat) := by
    intro b
    rw [Bool.eq_iff_iff, beq_iff_eq, beq_iff_eq, Char.toNat_inj]
  simp only [Mcp.isNameUnit, isNameChar, hle, heq, Char.reduceToNat]
  grind

theorem toNat_lt_of_isNameChar {ch : Char} (h : isNameChar ch = true) : ch.toNat < 128 := by
  rw [← isNameUnit_toNat] at h
  simp only [Mcp.isNameUnit, Bool.or_eq_true, Bool.and_eq_true, decide_eq_true_eq,
    beq_iff_eq] at h
  omega

/-- The unit of a character of a name; no other character has one. -/
def nameUnit (ch : Char) : UInt16 := if isNameChar ch then UInt16.ofNat ch.toNat else 0

theorem nameUnit_eq_iff (ch : Char) : nameUnit ch = 95 ↔ ch = '_' := by
  rw [nameUnit]
  split
  · next hch =>
    have hsmall := toNat_lt_of_isNameChar hch
    rw [← UInt16.toNat_inj, UInt16.toNat_ofNat', ← Char.toNat_inj, Nat.mod_eq_of_lt (by omega)]
    rfl
  · next hch =>
    constructor
    · intro h
      exact absurd h (by decide)
    · rintro rfl
      exact absurd rfl hch

theorem toJs_isNameChars {s : RustString} (h : IsNameChars s) : toJs s = s.map nameUnit := by
  induction s with
  | nil => rfl
  | cons ch s ih =>
    have hch : isNameChar ch = true := h ch List.mem_cons_self
    have hsmall : ch.toNat < 0x10000 := (toNat_lt_of_isNameChar hch).trans (by decide)
    rw [toJs_cons, ih fun c hc => h c (List.mem_cons_of_mem _ hc), Text.utf16, if_pos hsmall,
      List.map_cons, nameUnit, if_pos hch]
    rfl

end characters

section collapse

theorem collapseFrom_sublist (lastWasUnderscore : Bool) (s : RustString) :
    (collapseFrom lastWasUnderscore s).Sublist s := by
  induction s generalizing lastWasUnderscore with
  | nil => exact List.Sublist.refl _
  | cons ch rest ih =>
    rw [collapseFrom]
    split
    · split
      · exact (ih true).cons _
      · exact (ih true).cons_cons _
    · exact (ih false).cons_cons _

theorem trimMatches_sublist (ch : Char) (s : RustString) : (trimMatches ch s).Sublist s :=
  (List.rdropWhile_prefix _ _).sublist.trans (List.dropWhile_sublist _)

theorem collapseFrom_map_nameUnit (lastWasUnderscore : Bool) (s : RustString) :
    Mcp.collapseFrom lastWasUnderscore (s.map nameUnit) =
      (collapseFrom lastWasUnderscore s).map nameUnit := by
  induction s generalizing lastWasUnderscore with
  | nil => rfl
  | cons ch rest ih =>
    rw [List.map_cons, Mcp.collapseFrom, collapseFrom]
    by_cases hch : ch = '_'
    · rw [if_pos ((nameUnit_eq_iff ch).mpr hch), if_pos hch]
      cases lastWasUnderscore with
      | true => exact ih true
      | false =>
        rw [if_neg Bool.false_ne_true, if_neg Bool.false_ne_true, ih true, List.map_cons]
    · rw [if_neg (mt (nameUnit_eq_iff ch).mp hch), if_neg hch, ih false, List.map_cons]

theorem trimUnderscores_map_nameUnit (s : RustString) :
    Mcp.trimUnderscores (s.map nameUnit) = (trimMatches '_' s).map nameUnit := by
  have hdrop : ∀ t : RustString,
      (t.map nameUnit).dropWhile (· = 95) = (t.dropWhile (· = '_')).map nameUnit := by
    intro t
    have hsame : (fun u : UInt16 => decide (u = 95)) ∘ nameUnit = fun ch => decide (ch = '_') := by
      funext ch
      rw [Function.comp_apply, decide_eq_decide]
      exact nameUnit_eq_iff ch
    rw [List.dropWhile_map, hsame]
  rw [Mcp.trimUnderscores, trimMatches, List.rdropWhile, hdrop, ← List.map_reverse, hdrop,
    ← List.map_reverse]

end collapse

section normalize

theorem isNameChars_sanitized (name : RustString) : IsNameChars (name.map sanitizeChar) := by
  intro ch hch
  obtain ⟨c, -, rfl⟩ := List.mem_map.mp hch
  exact isNameChar_sanitizeChar c

theorem normalizeNameForMcp_isNameChars (name : RustString) :
    IsNameChars (normalizeNameForMcp name) := by
  have hname := isNameChars_sanitized name
  rw [normalizeNameForMcp]
  split
  · intro ch hch
    exact hname ch
      ((collapseFrom_sublist false _).subset ((trimMatches_sublist '_' _).subset hch))
  · exact hname

theorem normalizeNameForMcp_of_isNameChars {name : RustString} (h : IsNameChars name) :
    normalizeNameForMcp name = name := by
  have hlabel : startsWith name CLAUDE_AI_PREFIX = false := by
    by_contra hlabel
    rw [Bool.not_eq_false, startsWith, List.isPrefixOf_iff_prefix] at hlabel
    exact absurd (h ' ' (hlabel.subset (by decide))) (by decide)
  have hname : name.map sanitizeChar = name :=
    (List.map_congr_left fun ch hch => if_pos (h ch hch)).trans (List.map_id name)
  rw [normalizeNameForMcp, hlabel, hname]
  exact if_neg Bool.false_ne_true

theorem sanitizeChars_toJs (name : RustString) :
    Mcp.sanitizeChars (toJs name) = (name.map sanitizeChar).map nameUnit := by
  rw [Mcp.sanitizeChars, codePoints_toJs, List.map_map, List.map_map]
  apply List.map_congr_left
  intro ch _
  rw [Function.comp_apply, Function.comp_apply, isNameUnit_toNat, nameUnit,
    isNameChar_sanitizeChar, if_pos rfl, sanitizeChar]
  split <;> rfl

theorem startsWith_label (name : RustString) :
    Text.startsWith (toJs name) Mcp.COLLAPSE_PREFIX = startsWith name CLAUDE_AI_PREFIX := by
  have hlabel : Mcp.COLLAPSE_PREFIX = toJs CLAUDE_AI_PREFIX := rfl
  rw [Bool.eq_iff_iff, Text.startsWith_iff, startsWith, List.isPrefixOf_iff_prefix, hlabel]
  constructor
  · rintro ⟨rest, hrest⟩
    obtain ⟨tail, htail, -⟩ := toJs_prefix hrest.symm
    exact ⟨tail, htail.symm⟩
  · rintro ⟨rest, rfl⟩
    exact ⟨toJs rest, (toJs_append _ _).symm⟩

theorem normalizeNameForMcp_toJs (name : RustString) :
    Mcp.normalizeNameForMcp (toJs name) = toJs (normalizeNameForMcp name) := by
  rw [toJs_isNameChars (normalizeNameForMcp_isNameChars name), Mcp.normalizeNameForMcp,
    normalizeNameForMcp, startsWith_label, sanitizeChars_toJs]
  split
  · rw [Mcp.collapseUnderscores, collapseFrom_map_nameUnit, trimUnderscores_map_nameUnit]
    rfl
  · rfl

theorem mcpToolName_toJs (serverName toolName : RustString) :
    Mcp.mcpToolName (toJs serverName) (toJs toolName) = toJs (mcpToolName serverName toolName) := by
  rw [mcpToolName, mcpToolPrefix, toJs_append, toJs_append, toJs_append, Mcp.mcpToolName,
    Mcp.mcpToolPrefix, normalizeNameForMcp_toJs, normalizeNameForMcp_toJs]
  rfl

/-- What both ports promise about the names of the servers and their tools. -/
structure SameNames : Prop where
  tool : ∀ serverName toolName : RustString,
    Mcp.mcpToolName (toJs serverName) (toJs toolName) = toJs (mcpToolName serverName toolName)
  units : ∀ name : JsString, Mcp.IsNameText (Mcp.normalizeNameForMcp name)
  chars : ∀ name : RustString, IsNameChars (normalizeNameForMcp name)
  unitsTwice : ∀ name : JsString,
    Mcp.normalizeNameForMcp (Mcp.normalizeNameForMcp name) = Mcp.normalizeNameForMcp name
  charsTwice : ∀ name : RustString,
    normalizeNameForMcp (normalizeNameForMcp name) = normalizeNameForMcp name

theorem mcpNames_agree : SameNames where
  tool := mcpToolName_toJs
  units := Mcp.normalizeNameForMcp_isNameText
  chars := normalizeNameForMcp_isNameChars
  unitsTwice name :=
    Mcp.normalizeNameForMcp_of_isNameText (Mcp.normalizeNameForMcp_isNameText name)
  charsTwice name := normalizeNameForMcp_of_isNameChars (normalizeNameForMcp_isNameChars name)

end normalize

end Solarcido.Crates
