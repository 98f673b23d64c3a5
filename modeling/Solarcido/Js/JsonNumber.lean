import Mathlib.Tactic.IntervalCases
import Solarcido.Js.JsonText

namespace Solarcido.Json

open Text

def isNumberUnit (u : UInt16) : Bool :=
  Number.isDigit u || u == 43 || u == 45 || u == 46 || u == 69 || u == 101

/-- What follows one or more digits. -/
def afterDigits : JsString → Option JsString
  | [] => none
  | u :: rest => if Number.isDigit u then some (rest.dropWhile Number.isDigit) else none

def afterInteger : JsString → Option JsString
  | 48 :: rest => some rest
  | s => afterDigits s

def afterFraction : JsString → Option JsString
  | 46 :: rest => afterDigits rest
  | s => some s

def afterExponent : JsString → Option JsString
  | [] => some []
  | u :: rest =>
    if u = 69 ∨ u = 101 then afterDigits (Number.signOf rest).2 else some (u :: rest)

def dropMinus : JsString → JsString
  | 45 :: rest => rest
  | s => s

/-- A number of the JSON grammar. -/
def isNumberText (s : JsString) : Bool :=
  ((afterInteger (dropMinus s)).bind afterFraction).bind afterExponent == some []

section units

/-- The rest of a text behind units of numbers. -/
def Behind (s rest : JsString) : Prop :=
  ∃ front, s = front ++ rest ∧ ∀ u ∈ front, isNumberUnit u = true

variable {s rest : JsString} {u : UInt16}

theorem Behind.cons (hu : isNumberUnit u = true) (h : Behind s rest) : Behind (u :: s) rest := by
  obtain ⟨front, rfl, hfront⟩ := h
  exact ⟨u :: front, rfl, List.forall_mem_cons.mpr ⟨hu, hfront⟩⟩

theorem Behind.trans {middle : JsString} (h : Behind s middle) (h' : Behind middle rest) :
    Behind s rest := by
  obtain ⟨front, rfl, hfront⟩ := h
  obtain ⟨back, rfl, hback⟩ := h'
  exact ⟨front ++ back, (List.append_assoc ..).symm, List.forall_mem_append.mpr ⟨hfront, hback⟩⟩

theorem behind_self (s : JsString) : Behind s s := ⟨[], rfl, fun _ h => nomatch h⟩

theorem behind_afterDigits (h : afterDigits s = some rest) : Behind s rest := by
  cases s with
  | nil => cases h
  | cons u s =>
    rw [afterDigits] at h
    split_ifs at h with hu
    obtain rfl := Option.some.inj h
    refine Behind.cons (by simp [isNumberUnit, hu]) ⟨s.takeWhile Number.isDigit, ?_, ?_⟩
    · exact (List.takeWhile_append_dropWhile ..).symm
    · intro v hv
      simp [isNumberUnit, List.mem_takeWhile_imp hv]

theorem behind_signOf (s : JsString) : Behind s (Number.signOf s).2 := by
  unfold Number.signOf
  split
  · exact Behind.cons rfl (behind_self _)
  · exact Behind.cons rfl (behind_self _)
  · exact behind_self _

theorem behind_dropMinus (s : JsString) : Behind s (dropMinus s) := by
  unfold dropMinus
  split
  · exact Behind.cons rfl (behind_self _)
  · exact behind_self _

theorem behind_afterInteger (h : afterInteger s = some rest) : Behind s rest := by
  unfold afterInteger at h
  split at h
  · obtain rfl := Option.some.inj h
    exact Behind.cons rfl (behind_self _)
  · exact behind_afterDigits h

theorem behind_afterFraction (h : afterFraction s = some rest) : Behind s rest := by
  unfold afterFraction at h
  split at h
  · exact Behind.cons rfl (behind_afterDigits h)
  · obtain rfl := Option.some.inj h
    exact behind_self _

theorem behind_afterExponent (h : afterExponent s = some rest) : Behind s rest := by
  cases s with
  | nil =>
    obtain rfl := Option.some.inj h
    exact behind_self _
  | cons u s =>
    rw [afterExponent] at h
    split_ifs at h with hu
    · refine Behind.cons ?_ ((behind_signOf s).trans (behind_afterDigits h))
      rcases hu with rfl | rfl <;> rfl
    · obtain rfl := Option.some.inj h
      exact behind_self _

theorem isNumberUnit_of_isNumberText (h : isNumberText s = true) :
    ∀ u ∈ s, isNumberUnit u = true := by
  rw [isNumberText, beq_iff_eq] at h
  obtain ⟨afterwards, h, hexponent⟩ := Option.bind_eq_some_iff.mp h
  obtain ⟨behindInteger, hinteger, hfraction⟩ := Option.bind_eq_some_iff.mp h
  obtain ⟨front, rfl, hfront⟩ := (behind_dropMinus s).trans ((behind_afterInteger hinteger).trans
    ((behind_afterFraction hfraction).trans (behind_afterExponent hexponent)))
  rwa [List.append_nil]

theorem isWord_of_isNumberText (h : isNumberText s = true) : IsWord s := by
  refine ⟨?_, fun u hu => ?_⟩
  · rintro rfl
    exact absurd h (by decide)
  · have hunit := isNumberUnit_of_isNumberText h u hu
    simp only [isNumberUnit, Number.isDigit, Bool.or_eq_true, Bool.and_eq_true, decide_eq_true_eq,
      beq_iff_eq] at hunit
    have hplain : (43 ≤ u.toNat ∧ u.toNat ≤ 57 ∧ u.toNat ≠ 44) ∨ u.toNat = 69 ∨ u.toNat = 101 := by
      rcases hunit with ((((h | rfl) | rfl) | rfl) | rfl) | rfl
      · omega
      all_goals decide
    have hne : ∀ v : UInt16, u.toNat ≠ v.toNat → u ≠ v := fun v hv heq => hv (congrArg _ heq)
    refine ⟨?_, hne 34 (by simp; omega), ?_⟩
    · simp only [isBlank, Bool.or_eq_false_iff, beq_eq_false_iff_ne]
      exact ⟨⟨⟨hne 9 (by simp; omega), hne 10 (by simp; omega)⟩, hne 13 (by simp; omega)⟩,
        hne 32 (by simp; omega)⟩
    · rw [markOf, if_neg (hne 91 (by simp; omega)), if_neg (hne 93 (by simp; omega)),
        if_neg (hne 123 (by simp; omega)), if_neg (hne 125 (by simp; omega)),
        if_neg (hne 44 (by simp; omega)), if_neg (hne 58 (by simp; omega))]

end units

/-- The numbers of the language, how the engine writes them, and what it makes of a number of the
JSON grammar: a number that is written is a number of the grammar, and is read as itself. -/
structure NumberTexts where
  IsNumber : ℚ → Prop
  text : ℚ → JsString
  value : JsString → JsNumber
  text_number : ∀ q, IsNumber q → isNumberText (text q) = true
  value_text : ∀ q, IsNumber q → value (text q) = .finite q

section whole

theorem decimal_snoc {n : Nat} (h : 10 ≤ n) :
    ∃ u, Number.decimal n = Number.decimal (n / 10) ++ [u] := by
  rw [Number.decimal, Nat.toDigits_of_base_le (by decide) h, List.map_append]
  exact ⟨_, rfl⟩

theorem decimal_head (n : Nat) (hn : 0 < n) : ∀ u ∈ (Number.decimal n).head?, u ≠ 48 := by
  induction n using Nat.strongRecOn with
  | _ n ih =>
    by_cases hsmall : n < 10
    · have hdigit : ∀ m : Fin 10, 0 < m.val → UInt16.ofNat m.val.digitChar.toNat ≠ 48 := by decide
      rw [Number.decimal, Nat.toDigits_of_lt_base hsmall]
      intro u hu
      cases hu
      exact hdigit ⟨n, hsmall⟩ hn
    · obtain ⟨u, hsnoc⟩ := decimal_snoc (n := n) (by omega)
      rw [hsnoc, List.head?_append_of_ne_nil _ (Number.decimal_ne_nil _)]
      exact ih (n / 10) (by omega) (by omega)

theorem isNumberText_decimal (n : Nat) : isNumberText (Number.decimal n) = true := by
  by_cases hn : n = 0
  · subst hn
    decide
  · have hdigits := Number.decimal_digits n
    have hhead := decimal_head n (by omega)
    cases h : Number.decimal n with
    | nil => exact absurd h (Number.decimal_ne_nil n)
    | cons u rest =>
      rw [h] at hdigits hhead
      have hu := hdigits u List.mem_cons_self
      have hrest : rest.dropWhile Number.isDigit = [] :=
        List.dropWhile_eq_nil_iff.mpr fun v hv => hdigits v (List.mem_cons_of_mem u hv)
      have hminus : dropMinus (u :: rest) = u :: rest := by
        unfold dropMinus
        split
        · next heq => exact absurd hu (by simp [(List.cons.inj heq).1, Number.isDigit])
        · rfl
      have hinteger : afterInteger (u :: rest) = some [] := by
        unfold afterInteger
        split
        · next heq => exact absurd (List.cons.inj heq).1 (hhead u rfl)
        · rw [afterDigits, if_pos hu, hrest]
      rw [isNumberText, hminus, hinteger]
      rfl

/-- Whole numbers that the language has exactly. -/
def wholeNumberTexts : NumberTexts where
  IsNumber q := ∃ n : Nat, q = n ∧ n < 2 ^ 53
  text q := Number.decimal q.floor.toNat
  value s := if s.all Number.isDigit then .finite (Number.digitsValue s) else .nan
  text_number q _ := isNumberText_decimal _
  value_text := by
    rintro q ⟨n, rfl, -⟩
    have hfloor : ((n : ℚ).floor).toNat = n := by
      rw [← Int.cast_natCast, Rat.floor_intCast, Int.toNat_natCast]
    rw [hfloor, Number.digitsValue_decimal]
    exact if_pos (List.all_eq_true.mpr (Number.decimal_digits n))

end whole

end Solarcido.Json
