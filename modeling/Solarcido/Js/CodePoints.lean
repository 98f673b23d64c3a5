import Mathlib.Algebra.Order.Ring.Nat
import Solarcido.Js.Text

namespace Solarcido.Text

/-- A unit that is no half of a pair. -/
structure IsPlain (u : UInt16) : Prop where
  high : isHighSurrogate u = false
  low : isLowSurrogate u = false

section counting

variable {u : UInt16}

/-- A text is read on its own on both sides of a plain unit. -/
theorem codePoints_append_plain (hu : IsPlain u) (s t : JsString) :
    codePoints (s ++ u :: t) = codePoints s ++ u.toNat :: codePoints t := by
  induction s using codePoints.induct with
  | case1 => exact codePoints_cons u t hu.high
  | case2 v =>
    have hnot : ¬ (isHighSurrogate v && isLowSurrogate u) = true := by
      simp [hu.low]
    have hstart : codePoints (v :: u :: t) = v.toNat :: codePoints (u :: t) := by
      rw [codePoints, if_neg hnot]
    rw [List.singleton_append, hstart, codePoints_cons u t hu.high]
    rfl
  | case3 v w rest h ih =>
    rw [List.cons_append, List.cons_append, codePoints, if_pos h, codePoints, if_pos h, ih,
      List.cons_append]
  | case4 v w rest h ih =>
    rw [List.cons_append, List.cons_append, codePoints, if_neg h, codePoints, if_neg h,
      ← List.cons_append, ih, List.cons_append]

theorem codePoints_snoc_plain (hu : IsPlain u) (s : JsString) :
    codePoints (s ++ [u]) = codePoints s ++ [u.toNat] := by
  rw [codePoints_append_plain hu s [], codePoints]

theorem codePoints_length_cons (u : UInt16) (s : JsString) :
    (codePoints (u :: s)).length ≤ (codePoints s).length + 1 := by
  cases s with
  | nil => simp [codePoints]
  | cons v rest =>
    rw [codePoints]
    split
    · next h =>
      have hlow : isLowSurrogate v = true := (Bool.and_eq_true_iff.mp h).2
      have hhigh : isHighSurrogate v = false := by
        simp only [isLowSurrogate, isHighSurrogate, Bool.and_eq_true, decide_eq_true_eq,
          Bool.and_eq_false_iff, decide_eq_false_iff_not] at hlow ⊢
        omega
      rw [codePoints_cons v rest hhigh, List.length_cons, List.length_cons]
      omega
    · exact Nat.le_refl _

theorem codePoints_eq_nil_iff (s : JsString) : codePoints s = [] ↔ s = [] := by
  cases s with
  | nil => simp [codePoints]
  | cons u s =>
    cases s with
    | nil => simp [codePoints]
    | cons v rest =>
      rw [codePoints]
      split <;> simp

theorem codePoints_lt (s : JsString) : ∀ c ∈ codePoints s, c < 0x110000 := by
  induction s using codePoints.induct with
  | case1 => simp [codePoints]
  | case2 u =>
    intro c hc
    rw [codePoints, List.mem_singleton] at hc
    have hu : u.toNat < 65536 := u.toNat_lt
    omega
  | case3 u v rest h ih =>
    intro c hc
    rw [codePoints, if_pos h] at hc
    rcases List.mem_cons.mp hc with hc | hc
    · simp only [isHighSurrogate, isLowSurrogate, Bool.and_eq_true, decide_eq_true_eq] at h
      omega
    · exact ih c hc
  | case4 u v rest h ih =>
    intro c hc
    rw [codePoints, if_neg h] at hc
    rcases List.mem_cons.mp hc with rfl | hc
    · have hu : u.toNat < 65536 := u.toNat_lt
      omega
    · exact ih c hc

theorem codePoints_fromCodePoints_length (cs : List Nat) (h : ∀ c ∈ cs, c < 0x110000) :
    (codePoints (fromCodePoints cs)).length ≤ cs.length := by
  induction cs with
  | nil => exact Nat.le_refl 0
  | cons c cs ih =>
    have hrest := ih fun d hd => h d (List.mem_cons_of_mem c hd)
    have hc := h c List.mem_cons_self
    have hcons : fromCodePoints (c :: cs) = utf16 c ++ fromCodePoints cs := List.flatMap_cons
    rw [hcons, List.length_cons]
    by_cases hb : c < 0x10000
    · have hle := codePoints_length_cons (UInt16.ofNat c) (fromCodePoints cs)
      rw [utf16, if_pos hb, List.singleton_append]
      omega
    · rw [codePoints_utf16 c (Or.inr ⟨by omega, hc⟩), List.length_cons]
      omega

theorem fromCodePoints_codePoints (s : JsString) : fromCodePoints (codePoints s) = s := by
  have hsmall : ∀ u : UInt16, utf16 u.toNat = [u] := by
    intro u
    have hu : u.toNat < 65536 := u.toNat_lt
    rw [utf16, if_pos hu, UInt16.ofNat_toNat]
  induction s using codePoints.induct with
  | case1 => rfl
  | case2 u =>
    rw [codePoints, fromCodePoints, List.flatMap_singleton]
    exact hsmall u
  | case3 u v rest h ih =>
    simp only [isHighSurrogate, isLowSurrogate, Bool.and_eq_true, decide_eq_true_eq] at h
    have hhigh : 0xD800 + (0x10000 + (u.toNat - 0xD800) * 0x400 + (v.toNat - 0xDC00) - 0x10000) /
        0x400 = u.toNat := by omega
    have hlow : 0xDC00 + (0x10000 + (u.toNat - 0xD800) * 0x400 + (v.toNat - 0xDC00) - 0x10000) %
        0x400 = v.toNat := by omega
    have hpair : utf16 (0x10000 + (u.toNat - 0xD800) * 0x400 + (v.toNat - 0xDC00)) = [u, v] := by
      rw [utf16, if_neg (by omega), hhigh, hlow, UInt16.ofNat_toNat, UInt16.ofNat_toNat]
    have hif : (isHighSurrogate u && isLowSurrogate v) = true := by
      simpa [isHighSurrogate, isLowSurrogate] using h
    rw [codePoints, if_pos hif, fromCodePoints, List.flatMap_cons, hpair]
    exact congrArg ([u, v] ++ ·) ih
  | case4 u v rest h ih =>
    rw [codePoints, if_neg h, fromCodePoints, List.flatMap_cons, hsmall]
    exact congrArg ([u] ++ ·) ih

/-- The first code points of a text are a part of it. -/
theorem take_codePoints_prefix (s : JsString) (n : Nat) :
    fromCodePoints ((codePoints s).take n) <+: s := by
  refine ⟨fromCodePoints ((codePoints s).drop n), ?_⟩
  rw [← fromCodePoints_append, List.take_append_drop, fromCodePoints_codePoints]

end counting

section joining

variable {c : UInt16}

theorem join_cons_cons (sep first second : JsString) (parts : List JsString) :
    join sep (first :: second :: parts) = first ++ sep ++ join sep (second :: parts) := by
  simp [join]

theorem mem_join {sep : JsString} {parts : List JsString} {u : UInt16} (h : u ∈ join sep parts) :
    u ∈ sep ∨ ∃ part ∈ parts, u ∈ part := by
  induction parts with
  | nil => cases h
  | cons first parts ih =>
    cases parts with
    | nil => exact Or.inr ⟨first, List.mem_cons_self, by simpa [join] using h⟩
    | cons second parts =>
      rw [join_cons_cons, List.mem_append, List.mem_append] at h
      rcases h with (h | h) | h
      · exact Or.inr ⟨first, List.mem_cons_self, h⟩
      · exact Or.inl h
      · rcases ih h with h | ⟨part, hpart, h⟩
        · exact Or.inl h
        · exact Or.inr ⟨part, List.mem_cons_of_mem first hpart, h⟩

theorem prefix_join (sep first : JsString) (parts : List JsString) :
    first <+: join sep (first :: parts) := by
  cases parts with
  | nil => simp [join]
  | cons second parts =>
    rw [join_cons_cons, List.append_assoc]
    exact List.prefix_append first _

theorem infix_join (sep : JsString) {parts : List JsString} {part : JsString}
    (h : part ∈ parts) : part <:+: join sep parts := by
  induction parts with
  | nil => cases h
  | cons first parts ih =>
    rcases List.mem_cons.mp h with rfl | h
    · exact (prefix_join sep part parts).isInfix
    · cases parts with
      | nil => cases h
      | cons second parts =>
        rw [join_cons_cons]
        exact (ih h).trans (List.suffix_append _ _).isInfix

theorem subset_join (sep : JsString) {parts : List JsString} {part : JsString}
    (h : part ∈ parts) : part ⊆ join sep parts :=
  (infix_join sep h).subset

theorem codePoints_join_length (hc : IsPlain c) (parts : List JsString) :
    (codePoints (join [c] parts)).length =
      (parts.map fun s => (codePoints s).length).sum + (parts.length - 1) := by
  induction parts with
  | nil => rfl
  | cons first parts ih =>
    cases parts with
    | nil => simp [join]
    | cons second parts =>
      rw [join_cons_cons, List.append_assoc, List.singleton_append, codePoints_append_plain hc,
        List.length_append, List.length_cons, ih]
      simp only [List.map_cons, List.sum_cons, List.length_cons]
      omega

theorem splitFrom_ne_nil (piece s : JsString) : splitFrom [c] 0 piece s ≠ [] := by
  induction s generalizing piece with
  | nil => simp [splitFrom]
  | cons u s ih =>
    by_cases hu : c = u
    · subst hu
      rw [splitFrom_sep]
      exact List.cons_ne_nil _ _
    · rw [splitFrom_unit c hu]
      exact ih (u :: piece)

theorem join_splitFrom (piece s : JsString) :
    join [c] (splitFrom [c] 0 piece s) = piece.reverse ++ s := by
  induction s generalizing piece with
  | nil => simp [splitFrom, join]
  | cons u s ih =>
    by_cases hu : c = u
    · subst hu
      rw [splitFrom_sep]
      cases hrest : splitFrom [c] 0 [] s with
      | nil => exact absurd hrest (splitFrom_ne_nil [] s)
      | cons second parts =>
        rw [join_cons_cons, ← hrest, ih, List.append_assoc]
        rfl
    · rw [splitFrom_unit c hu, ih, List.reverse_cons, List.append_assoc, List.singleton_append]

/-- A text is what its pieces make when they are joined again. -/
theorem join_split (s : JsString) : join [c] (split s [c]) = s := join_splitFrom [] s

/-- A unit behind a text goes to the last of its pieces. -/
theorem split_snoc {u : UInt16} (hu : c ≠ u) (s : JsString) :
    ∃ front last, split s [c] = front ++ [last] ∧ split (s ++ [u]) [c] = front ++ [last ++ [u]] := by
  suffices h : ∀ piece, ∃ front last, splitFrom [c] 0 piece s = front ++ [last] ∧
      splitFrom [c] 0 piece (s ++ [u]) = front ++ [last ++ [u]] from h []
  induction s with
  | nil =>
    intro piece
    refine ⟨[], piece.reverse, rfl, ?_⟩
    rw [List.nil_append, splitFrom_unit c hu, splitFrom, List.reverse_cons, List.nil_append]
  | cons v s ih =>
    intro piece
    rw [List.cons_append]
    by_cases hv : c = v
    · subst hv
      obtain ⟨front, last, hs, hsu⟩ := ih []
      exact ⟨piece.reverse :: front, last, by rw [splitFrom_sep, hs, List.cons_append],
        by rw [splitFrom_sep, hsu, List.cons_append]⟩
    · obtain ⟨front, last, hs, hsu⟩ := ih (v :: piece)
      exact ⟨front, last, by rw [splitFrom_unit c hv, hs], by rw [splitFrom_unit c hv, hsu]⟩

theorem split_cons {u : UInt16} (hu : c ≠ u) (s : JsString) :
    ∃ first rest, split s [c] = first :: rest ∧ split (u :: s) [c] = (u :: first) :: rest := by
  suffices h : ∀ piece more, ∃ first rest, splitFrom [c] 0 piece s = (piece.reverse ++ first) :: rest ∧
      splitFrom [c] 0 (piece ++ more) s = (more.reverse ++ piece.reverse ++ first) :: rest by
    obtain ⟨first, rest, hs, hsu⟩ := h [] [u]
    exact ⟨first, rest, hs, by rw [split, splitFrom_unit c hu]; exact hsu⟩
  induction s with
  | nil =>
    intro piece more
    exact ⟨[], [], by simp [splitFrom], by simp [splitFrom]⟩
  | cons v s ih =>
    intro piece more
    by_cases hv : c = v
    · subst hv
      refine ⟨[], splitFrom [c] 0 [] s, ?_, ?_⟩ <;> rw [splitFrom_sep] <;> simp
    · obtain ⟨first, rest, hs, hsu⟩ := ih (v :: piece) more
      refine ⟨v :: first, rest, ?_, ?_⟩
      · rw [splitFrom_unit c hv, hs, List.reverse_cons, List.append_assoc, List.singleton_append]
      · rw [splitFrom_unit c hv, ← List.cons_append, hsu]
        simp

end joining

end Solarcido.Text
