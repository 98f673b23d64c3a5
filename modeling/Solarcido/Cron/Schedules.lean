import Solarcido.Cron.Denotation
import Solarcido.Js.Text

namespace Solarcido.Cron

open Text

section spaces

theorem splitSpacesFrom_eq (piece s : JsString) (hlast : ∀ u ∈ s.getLast?, isWhiteSpace u = false) :
    ((piece ≠ [] ∨ ∃ u ∈ s.head?, isWhiteSpace u = false) →
      splitSpacesFrom false piece s =
        (List.splitOnPPrepend isWhiteSpace s piece).filter fun piece => !piece.isEmpty) ∧
    (s ≠ [] → splitSpacesFrom true [] s = fieldTexts s) := by
  induction s generalizing piece with
  | nil =>
    refine ⟨?_, fun h => absurd rfl h⟩
    rintro (hpiece | ⟨u, hu, -⟩)
    · rw [splitSpacesFrom, List.splitOnPPrepend_nil]
      simp [hpiece]
    · cases hu
  | cons u s ih =>
    have hrest : ∀ v ∈ s.getLast?, isWhiteSpace v = false := by
      intro v hv
      apply hlast
      cases s with
      | nil => cases hv
      | cons w s => simpa [List.getLast?_cons_cons] using hv
    cases hu : isWhiteSpace u with
    | true =>
      have hne : s ≠ [] := by
        rintro rfl
        have hspace := hlast u rfl
        rw [hu] at hspace
        cases hspace
      constructor
      · rintro (hpiece | ⟨v, hv, hspace⟩)
        · rw [splitSpacesFrom, if_pos hu, if_neg Bool.false_ne_true, (ih [] hrest).2 hne,
            List.splitOnPPrepend_cons_pos hu, fieldTexts]
          simp [hpiece]
        · obtain rfl := Option.some.inj hv
          rw [hu] at hspace
          cases hspace
      · intro
        rw [splitSpacesFrom, if_pos hu, if_pos rfl, (ih [] hrest).2 hne, fieldTexts, fieldTexts,
          List.splitOnP_eq_splitOnPPrepend, List.splitOnP_eq_splitOnPPrepend,
          List.splitOnPPrepend_cons_pos hu]
        rfl
    | false =>
      have hnot : ¬ isWhiteSpace u = true := by
        rw [hu]
        exact Bool.false_ne_true
      constructor
      · intro
        rw [splitSpacesFrom, if_neg hnot, (ih (u :: piece) hrest).1 (Or.inl (List.cons_ne_nil u piece)),
          List.splitOnPPrepend_cons_neg hu]
      · intro
        rw [splitSpacesFrom, if_neg hnot, (ih [u] hrest).1 (Or.inl (List.cons_ne_nil u [])),
          fieldTexts, List.splitOnP_eq_splitOnPPrepend, List.splitOnPPrepend_cons_neg hu]

theorem fieldTexts_trim (s : JsString) : fieldTexts (trim s) = fieldTexts s := by
  apply trim_unseen fieldTexts
  · intro u s hu
    have hsplit : (u :: s).splitOnP isWhiteSpace = [] :: s.splitOnP isWhiteSpace :=
      List.splitOnPPrepend_cons_pos hu
    rw [fieldTexts, fieldTexts, hsplit]
    rfl
  · intro u s hu
    rw [fieldTexts, fieldTexts, List.splitOnP_append_cons s [] hu, List.filter_append]
    simp

theorem splitSpaces_trim (expr : JsString) :
    splitSpaces (trim expr) = if trim expr = [] then [[]] else fieldTexts expr := by
  split
  · next hnil =>
    rw [hnil]
    rfl
  · next hne =>
    obtain ⟨u, rest, hcons⟩ := List.exists_cons_of_ne_nil hne
    have hfirst : ∃ u ∈ (trim expr).head?, isWhiteSpace u = false :=
      ⟨u, by rw [hcons]; rfl, trim_head expr u (by rw [hcons]; rfl)⟩
    rw [splitSpaces, (splitSpacesFrom_eq [] (trim expr) (trim_last expr)).1 (Or.inr hfirst)]
    exact fieldTexts_trim expr

theorem not_mem_splitOnPPrepend (s acc : JsString) (hacc : ∀ u ∈ acc, isWhiteSpace u = false) :
    ∀ piece ∈ List.splitOnPPrepend isWhiteSpace s acc, ∀ u ∈ piece, isWhiteSpace u = false := by
  induction s generalizing acc with
  | nil =>
    intro piece hpiece u hu
    rw [List.splitOnPPrepend_nil, List.mem_singleton] at hpiece
    rw [hpiece] at hu
    exact hacc u (List.mem_reverse.mp hu)
  | cons v s ih =>
    cases hv : isWhiteSpace v with
    | true =>
      rw [List.splitOnPPrepend_cons_pos hv]
      intro piece hpiece u hu
      rcases List.mem_cons.mp hpiece with rfl | hpiece
      · exact hacc u (List.mem_reverse.mp hu)
      · exact ih [] (by simp) piece hpiece u hu
    | false =>
      rw [List.splitOnPPrepend_cons_neg hv]
      exact ih (v :: acc) (List.forall_mem_cons.mpr ⟨hv, hacc⟩)

theorem fieldTexts_no_space {expr raw : JsString} (h : raw ∈ fieldTexts expr) :
    ∀ u ∈ raw, isWhiteSpace u = false :=
  not_mem_splitOnPPrepend expr [] (by simp) raw (List.mem_filter.mp h).1

end spaces

section schedules

variable {expr : JsString} {schedule : Schedule} {parsed : CronExpression}

/-- The parsed fields have the sets that the fields of the schedule denote. -/
structure Interprets (schedule : Schedule) (parsed : CronExpression) : Prop where
  minute : Stands ⟨0, 59⟩ schedule.minute parsed.minute
  hour : Stands ⟨0, 23⟩ schedule.hour parsed.hour
  dayOfMonth : Stands ⟨1, 31⟩ schedule.dayOfMonth parsed.dayOfMonth
  month : Stands ⟨1, 12⟩ schedule.month parsed.month
  dayOfWeek : Stands ⟨0, 6⟩ schedule.dayOfWeek parsed.dayOfWeek

theorem parse_of_reads (h : schedule.Reads expr) (hvalid : schedule.Valid) :
    ∃ parsed, parseCronExpression expr = .ok parsed ∧ Interprets schedule parsed := by
  have hfields := h.fields
  simp only [List.forall₂_cons_left_iff, List.forall₂_nil_left_iff] at hfields
  obtain ⟨a, _, ha, ⟨b, _, hb, ⟨c, _, hc, ⟨d, _, hd, ⟨e, _, he, rfl, rfl⟩, rfl⟩, rfl⟩, rfl⟩,
    htexts⟩ := hfields
  have hne : trim expr ≠ [] := by
    intro hnil
    rw [← fieldTexts_trim, hnil] at htexts
    cases htexts
  have hsplit : splitSpaces (trim expr) = [a, b, c, d, e] := by
    rw [splitSpaces_trim, if_neg hne, htexts]
  obtain ⟨minute, hminute, hm⟩ := parseField_of_reads (by decide) ha hvalid.minute
  obtain ⟨hour, hhour, hh⟩ := parseField_of_reads (by decide) hb hvalid.hour
  obtain ⟨dayOfMonth, hdom, hdm⟩ := parseField_of_reads (by decide) hc hvalid.dayOfMonth
  obtain ⟨month, hmonth, hmo⟩ := parseField_of_reads (by decide) hd hvalid.month
  obtain ⟨dayOfWeek, hdow, hdw⟩ := parseField_of_reads (by decide) he hvalid.dayOfWeek
  refine ⟨⟨minute, hour, dayOfMonth, month, dayOfWeek⟩, ?_, ⟨hm, hh, hdm, hmo, hdw⟩⟩
  rw [parseCronExpression, hsplit]
  simp only [hminute, hhour, hdom, hmonth, hdow]
  rfl

theorem reads_of_parse (h : parseCronExpression expr = .ok parsed) :
    ∃ schedule : Schedule, schedule.Reads expr ∧ schedule.Valid := by
  rw [parseCronExpression] at h
  split at h
  · next a b c d e hsplit =>
    have htexts : fieldTexts expr = [a, b, c, d, e] := by
      rw [splitSpaces_trim] at hsplit
      split at hsplit
      · cases hsplit
      · exact hsplit
    have hspace : ∀ raw ∈ [a, b, c, d, e], ∀ u ∈ raw, isWhiteSpace u = false := by
      intro raw hraw
      rw [← htexts] at hraw
      exact fieldTexts_no_space hraw
    simp only [bind_eq_ok] at h
    obtain ⟨_, hm, _, hh, _, hdm, _, hmo, _, hdw, -⟩ := h
    obtain ⟨minute, ha, hminute⟩ := reads_of_parseField (hspace a (by simp)) hm
    obtain ⟨hour, hb, hhour⟩ := reads_of_parseField (hspace b (by simp)) hh
    obtain ⟨dayOfMonth, hc, hdom⟩ := reads_of_parseField (hspace c (by simp)) hdm
    obtain ⟨month, hd, hmonth⟩ := reads_of_parseField (hspace d (by simp)) hmo
    obtain ⟨dayOfWeek, he, hdow⟩ := reads_of_parseField (hspace e (by simp)) hdw
    refine ⟨⟨minute, hour, dayOfMonth, month, dayOfWeek⟩, ⟨?_⟩, ⟨hminute, hhour, hdom, hmonth, hdow⟩⟩
    rw [htexts]
    exact List.Forall₂.cons ha (List.Forall₂.cons hb (List.Forall₂.cons hc (List.Forall₂.cons hd
      (List.Forall₂.cons he List.Forall₂.nil))))
  · cases h

theorem dayMatches_iff (schedule : Schedule) (date : Date) :
    schedule.DayMatches date ↔
      (schedule.dayOfMonth = .star ∧ schedule.dayOfWeek = .star) ∨
      (schedule.dayOfMonth ≠ .star ∧ schedule.dayOfMonth.Denotes ⟨1, 31⟩ date.getUTCDate.toNat) ∨
      (schedule.dayOfWeek ≠ .star ∧ schedule.dayOfWeek.Denotes ⟨0, 6⟩ date.getUTCDay.toNat) := by
  rw [Schedule.DayMatches]
  cases schedule.dayOfMonth <;> cases schedule.dayOfWeek <;> simp

theorem Stands.contains_iff {bounds : FieldBounds} {field : Field} {fieldSet : FieldSet}
    (h : Stands bounds field fieldSet) (v : Nat) :
    fieldSet.values.contains v = true ↔ field.Denotes bounds v := by
  rw [List.contains_iff_mem, h.values]

theorem Stands.restricted_iff {bounds : FieldBounds} {field : Field} {fieldSet : FieldSet}
    (h : Stands bounds field fieldSet) : (!fieldSet.isStar) = true ↔ field ≠ .star := by
  rw [Bool.not_eq_true', ← Bool.not_eq_true, h.star]

theorem test_day_iff (h : Interprets schedule parsed) (date : Date) :
    (if !parsed.dayOfMonth.isStar && !parsed.dayOfWeek.isStar then
      parsed.dayOfMonth.values.contains date.getUTCDate.toNat ||
        parsed.dayOfWeek.values.contains date.getUTCDay.toNat
    else if !parsed.dayOfMonth.isStar then
      parsed.dayOfMonth.values.contains date.getUTCDate.toNat
    else if !parsed.dayOfWeek.isStar then
      parsed.dayOfWeek.values.contains date.getUTCDay.toNat
    else true) = true ↔ schedule.DayMatches date := by
  rw [dayMatches_iff, ← h.dayOfMonth.contains_iff, ← h.dayOfWeek.contains_iff,
    ← h.dayOfMonth.restricted_iff, ← h.dayOfWeek.restricted_iff, ← h.dayOfMonth.star,
    ← h.dayOfWeek.star]
  cases parsed.dayOfMonth.isStar <;> cases parsed.dayOfWeek.isStar <;> simp

theorem test_iff (h : Interprets schedule parsed) (date : Date) :
    parsed.test date = true ↔ schedule.Matches date := by
  rw [CronExpression.test]
  constructor
  · intro htest
    split at htest
    · cases htest
    · next hminute =>
      split at htest
      · cases htest
      · next hhour =>
        split at htest
        · cases htest
        · next hmonth =>
          rw [Bool.not_eq_true', Bool.not_eq_false] at hminute hhour hmonth
          exact ⟨(h.minute.contains_iff _).mp hminute, (h.hour.contains_iff _).mp hhour,
            (h.month.contains_iff _).mp hmonth, (test_day_iff h date).mp htest⟩
  · rintro ⟨hminute, hhour, hmonth, hday⟩
    rw [← h.minute.contains_iff] at hminute
    rw [← h.hour.contains_iff] at hhour
    rw [← h.month.contains_iff] at hmonth
    simp only [hminute, hhour, hmonth, Bool.not_true, Bool.false_eq_true, if_false]
    exact (test_day_iff h date).mpr hday

variable (expr)

theorem cronMatches_denotes :
    ((∃ parsed, parseCronExpression expr = .ok parsed) ↔
      ∃ schedule : Schedule, schedule.Reads expr ∧ schedule.Valid) ∧
    ∀ schedule : Schedule, schedule.Reads expr → schedule.Valid → ∀ date,
      ∃ matched, cronMatches expr date = .ok matched ∧
        (matched = true ↔ schedule.Matches date) := by
  constructor
  · constructor
    · rintro ⟨parsed, h⟩
      exact reads_of_parse h
    · rintro ⟨schedule, h, hvalid⟩
      obtain ⟨parsed, hparsed, -⟩ := parse_of_reads h hvalid
      exact ⟨parsed, hparsed⟩
  · intro schedule h hvalid date
    obtain ⟨parsed, hparsed, hinterprets⟩ := parse_of_reads h hvalid
    refine ⟨parsed.test date, ?_, test_iff hinterprets date⟩
    rw [cronMatches, hparsed]
    rfl

end schedules

end Solarcido.Cron
