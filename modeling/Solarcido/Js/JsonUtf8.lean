import Solarcido.Js.JsonTree
import Solarcido.Js.Surrogates

namespace Solarcido.Json

open Text Documents Doc

section strings

theorem wellFormed_unit {u : UInt16} (hhigh : isHighSurrogate u = false)
    (hlow : isLowSurrogate u = false) : WellFormed [u] := by
  have hu := u.toNat_lt
  simp only [isHighSurrogate, isLowSurrogate, Bool.and_eq_false_iff, decide_eq_false_iff_not]
    at hhigh hlow
  refine ⟨[u.toNat], ?_, ?_⟩
  · intro c hc
    rw [List.mem_singleton.mp hc]
    unfold IsScalar
    omega
  · simp [fromCodePoints, utf16, hu]

theorem wellFormed_pair {u v : UInt16} (hu : isHighSurrogate u = true)
    (hv : isLowSurrogate v = true) : WellFormed [u, v] := by
  simp only [isHighSurrogate, isLowSurrogate, Bool.and_eq_true, decide_eq_true_eq] at hu hv
  refine ⟨[0x10000 + (u.toNat - 0xD800) * 0x400 + (v.toNat - 0xDC00)], ?_, ?_⟩
  · intro c hc
    rw [List.mem_singleton.mp hc]
    unfold IsScalar
    omega
  · have hhigh : 0xD800 + (0x10000 + (u.toNat - 0xD800) * 0x400 + (v.toNat - 0xDC00) - 0x10000) /
        0x400 = u.toNat := by omega
    have hlow : 0xDC00 + (0x10000 + (u.toNat - 0xD800) * 0x400 + (v.toNat - 0xDC00) - 0x10000) %
        0x400 = v.toNat := by omega
    rw [fromCodePoints, List.flatMap_singleton, utf16, if_neg (by omega), hhigh, hlow,
      UInt16.ofNat_toNat, UInt16.ofNat_toNat]

theorem hexUnit_ascii {n : Nat} (h : n < 16) : (hexUnit n).toNat < 128 := by
  have hall : ∀ n : Fin 16, (hexUnit n).toNat < 128 := by decide
  exact hall ⟨n, h⟩

theorem wellFormed_unicodeEscape (u : UInt16) : WellFormed (unicodeEscape u) := by
  apply wellFormed_ascii
  have hhex : ∀ n, (hexUnit (n % 16)).toNat < 128 := fun n => hexUnit_ascii (by omega)
  simp only [IsAscii, unicodeEscape, List.forall_mem_cons]
  exact ⟨by decide, by decide, hhex _, hhex _, hhex _, hhex _, List.forall_mem_nil _⟩

theorem wellFormed_escapeUnit (u : UInt16) : WellFormed (escapeUnit u) := by
  unfold escapeUnit
  split_ifs with h34 h92 h8 h9 h10 h12 h13 hcontrol hsurrogate
  · exact wellFormed_ascii _ (by decide)
  · exact wellFormed_ascii _ (by decide)
  · exact wellFormed_ascii _ (by decide)
  · exact wellFormed_ascii _ (by decide)
  · exact wellFormed_ascii _ (by decide)
  · exact wellFormed_ascii _ (by decide)
  · exact wellFormed_ascii _ (by decide)
  · exact wellFormed_unicodeEscape u
  · exact wellFormed_unicodeEscape u
  · rw [Bool.or_eq_true, not_or, Bool.not_eq_true, Bool.not_eq_true] at hsurrogate
    exact wellFormed_unit hsurrogate.1 hsurrogate.2

theorem wellFormed_escape (s : JsString) : WellFormed (escape s) := by
  fun_induction escape s with
  | case1 => exact wellFormed_nil
  | case2 u => exact wellFormed_escapeUnit u
  | case3 u v rest h ih =>
    rw [Bool.and_eq_true] at h
    exact (wellFormed_pair h.1 h.2).append ih
  | case4 u v rest h ih => exact (wellFormed_escapeUnit u).append ih

theorem wellFormed_quote (s : JsString) : WellFormed (quote s) :=
  ((wellFormed_ascii [34] (by decide)).append (wellFormed_escape s)).append
    (wellFormed_ascii [34] (by decide))

theorem wellFormed_join {sep : JsString} {parts : List JsString} (hsep : WellFormed sep)
    (h : ∀ part ∈ parts, WellFormed part) : WellFormed (join sep parts) := by
  induction parts with
  | nil => exact wellFormed_nil
  | cons part rest ih =>
    obtain ⟨hpart, hrest⟩ := List.forall_mem_cons.mp h
    cases rest with
    | nil => simpa [join] using hpart
    | cons second rest =>
      have hjoin := (hpart.append hsep).append (ih hrest)
      simpa [join] using hjoin

end strings

section values

variable {numbers : NumberTexts}

theorem wellFormed_word {a : Scalar} (h : a.IsKnown numbers) :
    WellFormed (a.word numbers.text) := by
  cases a with
  | null => exact wellFormed_js "null"
  | bool b =>
    cases b with
    | false => exact wellFormed_js "false"
    | true => exact wellFormed_js "true"
  | num n =>
    cases n with
    | nan => cases h
    | infinite negative => cases h
    | finite q =>
      refine wellFormed_ascii _ fun u hu => ?_
      have hunit := isNumberUnit_of_isNumberText (numbers.text_number q h) u hu
      simp only [isNumberUnit, Number.isDigit, Bool.or_eq_true, Bool.and_eq_true,
        decide_eq_true_eq, beq_iff_eq] at hunit
      rcases hunit with ((((hdigit | rfl) | rfl) | rfl) | rfl) | rfl
      · omega
      all_goals decide

theorem wellFormed_spaces (n : Nat) : WellFormed (spaces n) := by
  refine wellFormed_ascii _ fun u hu => ?_
  rw [List.eq_of_mem_replicate hu]
  decide

theorem wellFormed_block {opening closing : JsString} {indent : Nat} {parts : List JsString}
    (hopening : WellFormed opening) (hclosing : WellFormed closing)
    (h : ∀ part ∈ parts, WellFormed part) : WellFormed (block opening closing indent parts) := by
  unfold block
  split
  · exact hopening.append hclosing
  · have hparts : ∀ part ∈ parts.map (spaces (indent + 2) ++ ·), WellFormed part :=
      List.forall_mem_map.mpr fun part hpart => (wellFormed_spaces _).append (h part hpart)
    exact ((((hopening.append (wellFormed_js "\n")).append
      (wellFormed_join (wellFormed_js ",\n") hparts)).append (wellFormed_js "\n")).append
        (wellFormed_spaces indent)).append hclosing

/-- No surrogate stands alone in a JSON text that is written. -/
theorem wellFormed_prettyFrom (v : Json) (h : v.data.AllAtoms (Scalar.IsKnown numbers))
    (indent : Nat) : WellFormed (prettyFrom numbers.text indent v) := by
  induction v generalizing indent with
  | null => exact wellFormed_js "null"
  | bool b =>
    have hword := wellFormed_word (a := .bool b) (allAtoms_atom.mp h)
    cases b <;> exact hword
  | num n => exact wellFormed_word (a := .num n) (allAtoms_atom.mp h)
  | str s => exact wellFormed_quote s
  | arr items ih =>
    rw [data_arr, allAtoms_arr, List.forall_mem_map] at h
    rw [prettyFrom, prettyItems_eq]
    refine wellFormed_block (wellFormed_js "[") (wellFormed_js "]") ?_
    exact List.forall_mem_map.mpr fun item hitem => ih item hitem (h item hitem) _
  | obj members ih =>
    rw [data_obj, allAtoms_obj, List.forall_mem_map] at h
    rw [prettyFrom, prettyMembers_eq]
    refine wellFormed_block (wellFormed_js "\x7b") (wellFormed_js "\x7d") ?_
    refine List.forall_mem_map.mpr fun m hm => ?_
    exact ((wellFormed_quote m.1).append (wellFormed_js ": ")).append (ih m hm (h m hm) _)

end values

end Solarcido.Json
