import Mathlib.Data.List.Induction
import Solarcido.Js.Text

namespace Solarcido.Text

theorem wellFormed_iff_codePoints (s : JsString) :
    WellFormed s ↔ (∀ c ∈ codePoints s, IsScalar c) ∧ fromCodePoints (codePoints s) = s := by
  constructor
  · rintro ⟨cs, hcs, rfl⟩
    rw [codePoints_fromCodePoints cs hcs]
    exact ⟨hcs, rfl⟩
  · rintro ⟨hscalar, hs⟩
    exact ⟨codePoints s, hscalar, hs.symm⟩

instance (s : JsString) : Decidable (WellFormed s) :=
  decidable_of_iff _ (wellFormed_iff_codePoints s).symm

theorem wellFormed_js (s : String) : WellFormed (js s) := by
  refine ⟨s.toList.map Char.toNat, ?_, rfl⟩
  intro c hc
  obtain ⟨char, -, rfl⟩ := List.mem_map.mp hc
  exact isScalar_toNat char

theorem WellFormed.append {s t : JsString} (hs : WellFormed s) (ht : WellFormed t) :
    WellFormed (s ++ t) := by
  obtain ⟨cs, hcs, rfl⟩ := hs
  obtain ⟨ds, hds, rfl⟩ := ht
  refine ⟨cs ++ ds, ?_, (fromCodePoints_append cs ds).symm⟩
  intro c hc
  rcases List.mem_append.mp hc with h | h
  · exact hcs c h
  · exact hds c h

theorem utf16_single {c : Nat} (hc : IsScalar c) (hsmall : c < 0x10000) :
    ∃ u, utf16 c = [u] ∧ isHighSurrogate u = false ∧ isLowSurrogate u = false := by
  unfold IsScalar at hc
  refine ⟨_, by rw [utf16, if_pos hsmall], ?_, ?_⟩
  · simp only [isHighSurrogate, UInt16.toNat_ofNat', Bool.and_eq_false_iff, decide_eq_false_iff_not]
    omega
  · simp only [isLowSurrogate, UInt16.toNat_ofNat', Bool.and_eq_false_iff, decide_eq_false_iff_not]
    omega

theorem utf16_pair {c : Nat} (hc : IsScalar c) (hbig : ¬ c < 0x10000) :
    ∃ high low, utf16 c = [high, low] ∧ isHighSurrogate high = true ∧
      isLowSurrogate low = true := by
  unfold IsScalar at hc
  refine ⟨_, _, by rw [utf16, if_neg hbig], ?_, ?_⟩
  · simp only [isHighSurrogate, UInt16.toNat_ofNat', Bool.and_eq_true, decide_eq_true_eq]
    omega
  · simp only [isLowSurrogate, UInt16.toNat_ofNat', Bool.and_eq_true, decide_eq_true_eq]
    omega

/-- No unit is both halves of a pair. -/
theorem not_low_of_high {u : UInt16} (h : isHighSurrogate u = true) : isLowSurrogate u = false := by
  simp only [isHighSurrogate, isLowSurrogate, Bool.and_eq_true, decide_eq_true_eq,
    Bool.and_eq_false_iff, decide_eq_false_iff_not] at *
  omega

theorem utf16_head {c : Nat} (hc : IsScalar c) :
    ∃ u rest, utf16 c = u :: rest ∧ isLowSurrogate u = false := by
  by_cases hsmall : c < 0x10000
  · obtain ⟨u, hu, -, hlow⟩ := utf16_single hc hsmall
    exact ⟨u, [], hu, hlow⟩
  · obtain ⟨high, low, hpair, hhigh, -⟩ := utf16_pair hc hsmall
    exact ⟨high, [low], hpair, not_low_of_high hhigh⟩

theorem utf16_last {c : Nat} (hc : IsScalar c) :
    ∃ front u, utf16 c = front ++ [u] ∧ isHighSurrogate u = false := by
  by_cases hsmall : c < 0x10000
  · obtain ⟨u, hu, hhigh, -⟩ := utf16_single hc hsmall
    exact ⟨[], u, hu, hhigh⟩
  · obtain ⟨high, low, hpair, -, hlow⟩ := utf16_pair hc hsmall
    refine ⟨[high], low, hpair, ?_⟩
    by_contra hboth
    rw [Bool.not_eq_false] at hboth
    rw [not_low_of_high hboth] at hlow
    cases hlow

theorem wellFormed_nil : WellFormed [] := ⟨[], by simp, rfl⟩

theorem wellFormed_utf16 {c : Nat} (hc : IsScalar c) : WellFormed (utf16 c) := by
  refine ⟨[c], ?_, by simp [fromCodePoints]⟩
  intro d hd
  obtain rfl := List.mem_singleton.mp hd
  exact hc

section cuts

/-- The two halves of a pair stand on the two sides of a place. -/
def splitsPair (before after : JsString) : Bool :=
  before.getLast?.any isHighSurrogate && after.head?.any isLowSurrogate

theorem splitsPair_of_last (before after : JsString) {u : UInt16}
    (h : isHighSurrogate u = false) : splitsPair (before ++ [u]) after = false := by
  simp [splitsPair, h]

theorem splitsPair_of_head (before after : JsString) {u : UInt16}
    (h : isLowSurrogate u = false) : splitsPair before (u :: after) = false := by
  simp [splitsPair, h]

theorem splitsPair_tail {u : UInt16} {before after : JsString}
    (h : splitsPair (u :: before) after = false) : splitsPair before after = false := by
  cases before with
  | nil => rfl
  | cons v before =>
    rw [splitsPair, List.getLast?_cons_cons] at h
    exact h

theorem WellFormed.not_splits_left {before : JsString} (after : JsString)
    (h : WellFormed before) : splitsPair before after = false := by
  obtain ⟨cs, hcs, rfl⟩ := h
  induction cs using List.reverseRecOn with
  | nil => rfl
  | append_singleton cs c _ =>
    obtain ⟨front, u, hc, hhigh⟩ := utf16_last (hcs c (by simp))
    have hlast : fromCodePoints (cs ++ [c]) = fromCodePoints cs ++ front ++ [u] := by
      rw [fromCodePoints_append, List.append_assoc, ← hc]
      simp [fromCodePoints]
    rw [hlast]
    exact splitsPair_of_last _ after hhigh

theorem WellFormed.not_splits_right {after : JsString} (before : JsString)
    (h : WellFormed after) : splitsPair before after = false := by
  obtain ⟨cs, hcs, rfl⟩ := h
  cases cs with
  | nil => simp [splitsPair, fromCodePoints]
  | cons c cs =>
    obtain ⟨u, rest, hc, hlow⟩ := utf16_head (hcs c (by simp))
    rw [fromCodePoints, List.flatMap_cons, hc]
    exact splitsPair_of_head before _ hlow

/-- A well-formed text falls into well-formed parts where no pair is split. -/
theorem WellFormed.parts {before after : JsString} (h : WellFormed (before ++ after))
    (hcut : splitsPair before after = false) : WellFormed before ∧ WellFormed after := by
  obtain ⟨cs, hcs, htext⟩ := h
  induction cs generalizing before with
  | nil =>
    obtain ⟨rfl, rfl⟩ := List.append_eq_nil_iff.mp htext
    exact ⟨wellFormed_nil, wellFormed_nil⟩
  | cons c cs ih =>
    have hc : IsScalar c := hcs c (by simp)
    have hrest : ∀ d ∈ cs, IsScalar d := fun d hd => hcs d (by simp [hd])
    rw [fromCodePoints, List.flatMap_cons, ← fromCodePoints] at htext
    cases before with
    | nil => exact ⟨wellFormed_nil, c :: cs, hcs, htext⟩
    | cons u before =>
      by_cases hsmall : c < 0x10000
      · obtain ⟨v, hv, -, -⟩ := utf16_single hc hsmall
        rw [hv] at htext
        obtain ⟨rfl, htail⟩ := List.cons.inj htext
        obtain ⟨hbefore, hafter⟩ := ih (splitsPair_tail hcut) hrest htail
        have hunit := wellFormed_utf16 hc
        rw [hv] at hunit
        exact ⟨hunit.append hbefore, hafter⟩
      · obtain ⟨high, low, hpair, hhigh, hlow⟩ := utf16_pair hc hsmall
        rw [hpair] at htext
        obtain ⟨rfl, htail⟩ := List.cons.inj htext
        cases before with
        | nil =>
          -- the cut stands between the halves of this pair
          change after = low :: fromCodePoints cs at htail
          simp [splitsPair, htail, hhigh, hlow] at hcut
        | cons v before =>
          obtain ⟨rfl, hlast⟩ := List.cons.inj htail
          obtain ⟨hbefore, hafter⟩ := ih (splitsPair_tail (splitsPair_tail hcut)) hrest hlast
          have hunits := wellFormed_utf16 hc
          rw [hpair] at hunits
          exact ⟨hunits.append hbefore, hafter⟩

theorem wellFormed_left_iff {before after : JsString} (h : WellFormed (before ++ after)) :
    WellFormed before ↔ splitsPair before after = false :=
  ⟨WellFormed.not_splits_left after, fun hcut => (h.parts hcut).1⟩

theorem wellFormed_right_iff {before after : JsString} (h : WellFormed (before ++ after)) :
    WellFormed after ↔ splitsPair before after = false :=
  ⟨WellFormed.not_splits_right before, fun hcut => (h.parts hcut).2⟩

end cuts

end Solarcido.Text
