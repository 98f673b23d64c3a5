import Solarcido.Js.Replacement
import Solarcido.Lib.Escaping
import Solarcido.Tools.Registry

namespace Solarcido.Mcp

open Text

def COLLAPSE_PREFIX : JsString := js "claude.ai "

/-- `[A-Za-z0-9_-]`. -/
def isNameUnit (c : Nat) : Bool :=
  (65 ≤ c && c ≤ 90) || (97 ≤ c && c ≤ 122) || (48 ≤ c && c ≤ 57) || c == 95 || c == 45

/-- One unit for each code point of the name. -/
def sanitizeChars (name : JsString) : JsString :=
  (codePoints name).map fun c => if isNameUnit c then UInt16.ofNat c else 95

def collapseFrom : Bool → JsString → JsString
  | _, [] => []
  | lastWasUnderscore, u :: rest =>
    if u = 95 then
      if lastWasUnderscore then collapseFrom true rest else u :: collapseFrom true rest
    else u :: collapseFrom false rest

def collapseUnderscores (value : JsString) : JsString := collapseFrom false value

def trimUnderscores (value : JsString) : JsString :=
  ((value.dropWhile (· = 95)).reverse.dropWhile (· = 95)).reverse

def normalizeNameForMcp (name : JsString) : JsString :=
  let normalized := sanitizeChars name
  if startsWith name COLLAPSE_PREFIX then trimUnderscores (collapseUnderscores normalized)
  else normalized

def mcpToolPrefix (serverName : JsString) : JsString :=
  js "mcp__" ++ normalizeNameForMcp serverName ++ js "__"

def mcpToolName (serverName toolName : JsString) : JsString :=
  mcpToolPrefix serverName ++ normalizeNameForMcp toolName

def IsNameText (s : JsString) : Prop := ∀ u ∈ s, isNameUnit u.toNat = true

instance (s : JsString) : Decidable (IsNameText s) :=
  List.decidableBAll (fun u : UInt16 => isNameUnit u.toNat = true) s

theorem isNameText_append {s t : JsString} (hs : IsNameText s) (ht : IsNameText t) :
    IsNameText (s ++ t) := by
  intro u hu
  obtain h | h := List.mem_append.mp hu
  · exact hs u h
  · exact ht u h

theorem sanitizeChars_isNameText (name : JsString) : IsNameText (sanitizeChars name) := by
  intro u hu
  obtain ⟨c, -, rfl⟩ := List.mem_map.mp hu
  split
  · next hc =>
    have hsmall : (UInt16.ofNat c).toNat = c := by
      simp only [isNameUnit, Bool.or_eq_true, Bool.and_eq_true, decide_eq_true_eq,
        beq_iff_eq] at hc
      rw [UInt16.toNat_ofNat']
      omega
    rw [hsmall]
    exact hc
  · decide

theorem collapseFrom_sublist (lastWasUnderscore : Bool) (s : JsString) :
    (collapseFrom lastWasUnderscore s).Sublist s := by
  induction s generalizing lastWasUnderscore with
  | nil => exact List.Sublist.refl _
  | cons u rest ih =>
    rw [collapseFrom]
    split
    · split
      · exact (ih true).cons _
      · exact (ih true).cons_cons _
    · exact (ih false).cons_cons _

theorem trimUnderscores_sublist (s : JsString) : (trimUnderscores s).Sublist s := by
  have hback := (List.dropWhile_sublist (l := (s.dropWhile (· = 95)).reverse) (· = 95)).reverse
  rw [List.reverse_reverse] at hback
  exact hback.trans (List.dropWhile_sublist _)

theorem normalizeNameForMcp_isNameText (name : JsString) :
    IsNameText (normalizeNameForMcp name) := by
  have hname := sanitizeChars_isNameText name
  rw [normalizeNameForMcp]
  split
  · intro u hu
    exact hname u ((collapseFrom_sublist false _).subset ((trimUnderscores_sublist _).subset hu))
  · exact hname

theorem mcpToolName_isNameText (serverName toolName : JsString) :
    IsNameText (mcpToolName serverName toolName) :=
  isNameText_append
    (isNameText_append (isNameText_append (by decide) (normalizeNameForMcp_isNameText _))
      (by decide))
    (normalizeNameForMcp_isNameText _)

theorem nameUnit_ascii (u : UInt16) (h : isNameUnit u.toNat = true) : u.toNat < 128 := by
  simp only [isNameUnit, Bool.or_eq_true, Bool.and_eq_true, decide_eq_true_eq, beq_iff_eq] at h
  omega

theorem IsNameText.isAscii {s : JsString} (h : IsNameText s) : IsAscii s :=
  fun u hu => nameUnit_ascii u (h u hu)

theorem sanitizeChars_of_isNameText {s : JsString} (h : IsNameText s) : sanitizeChars s = s := by
  rw [sanitizeChars, codePoints_ascii s h.isAscii, List.map_map]
  refine (List.map_congr_left fun u hu => ?_).trans (List.map_id s)
  rw [Function.comp_apply, if_pos (h u hu), UInt16.ofNat_toNat, id]

/-- A normalized name has no space, so it does not carry the vendor label any more. -/
theorem normalizeNameForMcp_of_isNameText {s : JsString} (h : IsNameText s) :
    normalizeNameForMcp s = s := by
  have hlabel : startsWith s COLLAPSE_PREFIX = false := by
    by_contra hlabel
    rw [Bool.not_eq_false, startsWith_iff] at hlabel
    exact absurd (h 32 (hlabel.subset (by decide))) (by decide)
  rw [normalizeNameForMcp, hlabel, sanitizeChars_of_isNameText h]
  exact if_neg Bool.false_ne_true

theorem nameUnit_not_whiteSpace (u : UInt16) (h : isNameUnit u.toNat = true) :
    isWhiteSpace u = false := by
  simp only [isNameUnit, Bool.or_eq_true, Bool.and_eq_true, decide_eq_true_eq, beq_iff_eq] at h
  simp [isWhiteSpace]
  omega

/-- Normalizing a qualified name for the registry leaves its namespace in place. -/
theorem normalizeToolName_mcp (serverName toolName : JsString) :
    js "mcp__" <+: Tools.normalizeToolName (mcpToolName serverName toolName) := by
  have hname := mcpToolName_isNameText serverName toolName
  have hlower : toLowerCase (trim (mcpToolName serverName toolName)) =
      (mcpToolName serverName toolName).map lowerUnit := by
    rw [trim_of_no_space _ fun u hu => nameUnit_not_whiteSpace u (hname u hu),
      toLowerCase_ascii _ fun u hu => nameUnit_ascii u (hname u hu)]
  have hprefix : js "mcp__" <+: ((mcpToolName serverName toolName).map lowerUnit).map
      fun u => if u = 45 then 95 else u := by
    rw [mcpToolName, mcpToolPrefix, List.append_assoc, List.append_assoc, List.map_append,
      List.map_append]
    exact List.prefix_append_of_prefix (by decide)
  have hother : ∀ other : JsString, ¬ js "mcp__" <+: other →
      ((mcpToolName serverName toolName).map lowerUnit).map
        (fun u => if u = 45 then 95 else u) ≠ other := fun other hno heq => hno (heq ▸ hprefix)
  rw [Tools.normalizeToolName, hlower]
  rw [if_neg (hother _ (by decide)), if_neg (hother _ (by decide)), if_neg (hother _ (by decide))]
  exact hprefix

section signatures

open Escaping

inductive McpSignatureTarget where
  | stdio (command : JsString) (args : Option (List JsString))
  | url (url : JsString)
  deriving DecidableEq

def escapeCommandPart (part : JsString) : JsString :=
  replaceUnit 124 [92, 124] (replaceUnit 92 [92, 92] part)

def renderCommandSignature (command : List JsString) : JsString :=
  js "[" ++ join (js "|") (command.map escapeCommandPart) ++ js "]"

/-- Every target of the type has a signature. -/
def mcpServerSignature : McpSignatureTarget → Option JsString
  | .stdio command args =>
    some (js "stdio:" ++ renderCommandSignature (command :: args.getD []))
  | .url url => some (js "url:" ++ url)

/-- The same command vector, or the same url. -/
def SameServer : McpSignatureTarget → McpSignatureTarget → Prop
  | .stdio command args, .stdio command' args' =>
    command :: args.getD [] = command' :: args'.getD []
  | .url url, .url url' => url = url'
  | _, _ => False

theorem escapeCommandPart_eq (part : JsString) : escapeCommandPart part = escape 92 124 part := by
  rw [escapeCommandPart, replaceUnit, replaceUnit, List.flatMap_assoc, escape]
  apply List.flatMap_congr
  intro u _
  rw [escapeOne]
  by_cases hmark : u = 92
  · subst hmark
    rfl
  · by_cases hsep : u = 124
    · subst hsep
      rfl
    · simp [hmark, hsep]

theorem renderCommandSignature_eq (command : List JsString) :
    renderCommandSignature command = js "[" ++ joined 92 124 command ++ js "]" := by
  have hparts : command.map escapeCommandPart = command.map (escape 92 124) :=
    List.map_congr_left fun part _ => escapeCommandPart_eq part
  rw [renderCommandSignature, hparts]
  rfl

theorem renderCommandSignature_inj {command command' : JsString} {args args' : List JsString} :
    renderCommandSignature (command :: args) = renderCommandSignature (command' :: args') ↔
      command :: args = command' :: args' := by
  rw [renderCommandSignature_eq, renderCommandSignature_eq, List.append_left_inj,
    List.append_right_inj]
  exact joined_inj (by decide)

theorem stdio_ne_url (s t : JsString) : js "stdio:" ++ s ≠ js "url:" ++ t := by
  intro h
  have hhead : (115 : UInt16) = 117 := (List.cons.inj h).1
  exact absurd hhead (by decide)

theorem mcpServerSignature_injective (a b : McpSignatureTarget) :
    mcpServerSignature a = mcpServerSignature b ↔ SameServer a b := by
  cases a with
  | stdio command args =>
    cases b with
    | stdio command' args' =>
      rw [mcpServerSignature, mcpServerSignature, Option.some.injEq, List.append_right_inj,
        renderCommandSignature_inj]
      rfl
    | url url =>
      rw [mcpServerSignature, mcpServerSignature, Option.some.injEq]
      exact iff_of_false (stdio_ne_url _ _) id
  | url url =>
    cases b with
    | stdio command args =>
      rw [mcpServerSignature, mcpServerSignature, Option.some.injEq]
      exact iff_of_false (stdio_ne_url _ _).symm id
    | url url' =>
      rw [mcpServerSignature, mcpServerSignature, Option.some.injEq, List.append_right_inj]
      rfl

end signatures

end Solarcido.Mcp
