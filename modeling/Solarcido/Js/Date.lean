import Mathlib.Data.Int.Basic
import Solarcido.Js.Number

namespace Solarcido

/-- A `Date` that is not invalid: milliseconds since the epoch, in the range of the language. -/
structure Date where
  time : Int
  first : -8640000000000000 ≤ time
  last : time ≤ 8640000000000000

namespace Date

open Text Number

instance : LE Date := ⟨fun a b => a.time ≤ b.time⟩

theorem le_def (a b : Date) : a ≤ b ↔ a.time ≤ b.time := Iff.rfl

/-- The number of a date's minute, counted from the epoch, as with the hour and the day. -/
def minute (d : Date) : Int := d.time / 60000

def hour (d : Date) : Int := d.time / 3600000

def day (d : Date) : Int := d.time / 86400000

section calendar

def dayFromYear (y : Int) : Int := 365 * (y - 1970) + (y - 1969) / 4 - (y - 1901) / 100 + (y - 1601) / 400

/-- The year of a day: the guess by the mean length of a year is off by one at most. -/
def yearFromDay (day : Int) : Int :=
  let y := 1970 + 400 * day / 146097
  if day < dayFromYear y then y - 1 else if dayFromYear (y + 1) ≤ day then y + 1 else y

def leapDays (y : Int) : Int := if (y % 4 = 0 ∧ y % 100 ≠ 0) ∨ y % 400 = 0 then 1 else 0

/-- The month, from 0, of a day of the year. -/
def monthOfDay (leap d : Int) : Int :=
  if d < 31 then 0
  else if d < 59 + leap then 1
  else if d < 90 + leap then 2
  else if d < 120 + leap then 3
  else if d < 151 + leap then 4
  else if d < 181 + leap then 5
  else if d < 212 + leap then 6
  else if d < 243 + leap then 7
  else if d < 273 + leap then 8
  else if d < 304 + leap then 9
  else if d < 334 + leap then 10
  else 11

/-- The day of the year a month starts on. -/
def monthStart (leap m : Int) : Int :=
  if m = 0 then 0
  else if m = 1 then 31
  else if m = 2 then 59 + leap
  else if m = 3 then 90 + leap
  else if m = 4 then 120 + leap
  else if m = 5 then 151 + leap
  else if m = 6 then 181 + leap
  else if m = 7 then 212 + leap
  else if m = 8 then 243 + leap
  else if m = 9 then 273 + leap
  else if m = 10 then 304 + leap
  else 334 + leap

/-- The start of a year lies near the multiple of a year's mean length. -/
theorem dayFromYear_mean (y : Int) :
    146097 * (y - 1970) - 800 ≤ 400 * dayFromYear y ∧
      400 * dayFromYear y ≤ 146097 * (y - 1970) + 800 := by
  unfold dayFromYear
  omega

theorem yearFromDay_spec (day : Int) :
    dayFromYear (yearFromDay day) ≤ day ∧ day < dayFromYear (yearFromDay day + 1) := by
  unfold yearFromDay
  dsimp only
  generalize hy : 1970 + 400 * day / 146097 = y
  have hguess : 146097 * (y - 1970) ≤ 400 * day ∧ 400 * day < 146097 * (y - 1970) + 146097 := by
    omega
  have hbefore := dayFromYear_mean (y - 1)
  have hafter := dayFromYear_mean (y + 1 + 1)
  split
  · rw [show y - 1 + 1 = y by omega]
    omega
  · split <;> omega

theorem dayFromYear_succ (y : Int) : dayFromYear (y + 1) = dayFromYear y + 365 + leapDays y := by
  unfold leapDays dayFromYear
  split <;> omega

theorem leapDays_range (y : Int) : 0 ≤ leapDays y ∧ leapDays y ≤ 1 := by
  unfold leapDays
  split <;> omega

theorem monthOfDay_range (leap d : Int) : 0 ≤ monthOfDay leap d ∧ monthOfDay leap d ≤ 11 := by
  unfold monthOfDay
  omega

theorem monthStart_spec (leap d : Int) (hl : 0 ≤ leap ∧ leap ≤ 1) (hd : 0 ≤ d)
    (hlast : d < 365 + leap) :
    monthStart leap (monthOfDay leap d) ≤ d ∧ d < monthStart leap (monthOfDay leap d) + 31 := by
  unfold monthOfDay
  -- one month after the other: what is left of the chain is a month
  repeat'
    apply iteInduction (motive := fun m => monthStart leap m ≤ d ∧ d < monthStart leap m + 31) <;>
      intro _
  all_goals
    simp only [monthStart, Int.reduceEq, if_true, if_false]
    omega

end calendar

section getters

variable (d : Date)

def getUTCFullYear : Int := yearFromDay d.day

def dayInYear : Int := d.day - dayFromYear d.getUTCFullYear

def getUTCMonth : Int := monthOfDay (leapDays d.getUTCFullYear) d.dayInYear

def getUTCDate : Int := d.dayInYear - monthStart (leapDays d.getUTCFullYear) d.getUTCMonth + 1

def getUTCDay : Int := (d.day + 4) % 7

def getUTCHours : Int := d.hour % 24

def getUTCMinutes : Int := d.minute % 60

def getUTCSeconds : Int := d.time / 1000 % 60

def getUTCMilliseconds : Int := d.time % 1000

/-- The years an ISO date writes with four digits. -/
def FourDigits (y : Int) : Prop := 0 ≤ y ∧ y ≤ 9999

instance (y : Int) : Decidable (FourDigits y) := inferInstanceAs (Decidable (_ ∧ _))

def yearText (y : Int) : JsString :=
  if FourDigits y then padded 4 y.toNat
  else (if y < 0 then js "-" else js "+") ++ padded 6 y.natAbs

/-- An ISO date down to the hour. -/
def hourText : JsString :=
  yearText d.getUTCFullYear ++ js "-" ++ padded 2 (d.getUTCMonth + 1).toNat ++ js "-" ++
    padded 2 d.getUTCDate.toNat ++ js "T" ++ padded 2 d.getUTCHours.toNat

/-- An ISO date down to the minute. -/
def minuteText : JsString := d.hourText ++ js ":" ++ padded 2 d.getUTCMinutes.toNat

def toISOString : JsString :=
  d.minuteText ++ (js ":" ++ padded 2 d.getUTCSeconds.toNat ++ js "." ++
    padded 3 d.getUTCMilliseconds.toNat ++ js "Z")

end getters

section fields

variable {d e : Date}

theorem hour_of_minute (d : Date) : d.hour = d.minute / 60 := by
  unfold hour minute
  omega

theorem day_of_hour (d : Date) : d.day = d.hour / 24 := by
  unfold hour day
  omega

theorem year_range (d : Date) : -999999 ≤ d.getUTCFullYear ∧ d.getUTCFullYear ≤ 999999 := by
  have hspec := yearFromDay_spec d.day
  have hstart := dayFromYear_mean d.getUTCFullYear
  have hnext := dayFromYear_mean (d.getUTCFullYear + 1)
  have hfirst := d.first
  have hlast := d.last
  simp only [getUTCFullYear, day] at *
  omega

theorem dayInYear_range (d : Date) :
    0 ≤ d.dayInYear ∧ d.dayInYear < 365 + leapDays d.getUTCFullYear := by
  have hspec := yearFromDay_spec d.day
  rw [dayFromYear_succ] at hspec
  simp only [dayInYear, getUTCFullYear] at *
  omega

theorem month_range (d : Date) : 0 ≤ d.getUTCMonth ∧ d.getUTCMonth ≤ 11 := monthOfDay_range _ _

theorem date_range (d : Date) : 1 ≤ d.getUTCDate ∧ d.getUTCDate ≤ 31 := by
  have hday := dayInYear_range d
  have hmonth := monthStart_spec _ _ (leapDays_range d.getUTCFullYear) hday.1 hday.2
  simp only [getUTCDate, getUTCMonth] at *
  omega

/-- The year, the month and the date say which day it is. -/
theorem day_eq (hyear : d.getUTCFullYear = e.getUTCFullYear) (hmonth : d.getUTCMonth = e.getUTCMonth)
    (hdate : d.getUTCDate = e.getUTCDate) : d.day = e.day := by
  simp only [getUTCDate, dayInYear, hyear, hmonth] at hdate
  omega

theorem yearText_length (d : Date) :
    (yearText d.getUTCFullYear).length = if FourDigits d.getUTCFullYear then 4 else 7 := by
  have hyear := year_range d
  unfold yearText
  split
  · next h =>
    unfold FourDigits at h
    exact padded_length (by decide) (by omega)
  · have hsign : (if d.getUTCFullYear < 0 then js "-" else js "+").length = 1 := by
      split <;> rfl
    rw [List.length_append, hsign, padded_length (by decide) (by omega)]

theorem yearText_injective {x y : Int} (hkind : FourDigits x ↔ FourDigits y)
    (h : yearText x = yearText y) : x = y := by
  unfold yearText at h
  by_cases hx : FourDigits x
  · have hy := hkind.mp hx
    rw [if_pos hx, if_pos hy] at h
    have hnat := padded_injective h
    unfold FourDigits at hx hy
    omega
  · have hy : ¬ FourDigits y := fun hy => hx (hkind.mpr hy)
    rw [if_neg hx, if_neg hy] at h
    have hlen : (if x < 0 then js "-" else js "+").length =
        (if y < 0 then js "-" else js "+").length := by
      split <;> split <;> decide
    obtain ⟨hsign, hdigits⟩ := List.append_inj h hlen
    have hnat := padded_injective hdigits
    have hneg : x < 0 ↔ y < 0 := by
      by_cases hxn : x < 0 <;> by_cases hyn : y < 0 <;> simp [hxn, hyn] at hsign ⊢
      · exact absurd hsign (by decide)
      · exact absurd hsign (by decide)
    omega

/-- Two numbers of two digits at the end of a text are read off it. -/
theorem two_digits {s t : JsString} {m n : Nat} (hm : m < 100) (hn : n < 100)
    (h : s ++ padded 2 m = t ++ padded 2 n) : s = t ∧ m = n := by
  have hlen : (padded 2 m).length = (padded 2 n).length := by
    rw [padded_length (by decide) hm, padded_length (by decide) hn]
  obtain ⟨hs, hdigits⟩ := List.append_inj' h hlen
  exact ⟨hs, padded_injective hdigits⟩

theorem hours_range (d : Date) : 0 ≤ d.getUTCHours ∧ d.getUTCHours < 24 := by
  unfold getUTCHours
  omega

theorem minutes_range (d : Date) : 0 ≤ d.getUTCMinutes ∧ d.getUTCMinutes < 60 := by
  unfold getUTCMinutes
  omega

theorem hourText_length (d : Date) :
    d.hourText.length = if FourDigits d.getUTCFullYear then 13 else 16 := by
  have hmonth := month_range d
  have hdate := date_range d
  have hhours := hours_range d
  have hseparators : (js "-").length = 1 ∧ (js "T").length = 1 := by decide
  simp only [hourText, List.length_append, yearText_length, hseparators]
  rw [padded_length (by decide) (by omega), padded_length (by decide) (by omega),
    padded_length (by decide) (by omega)]
  split <;> rfl

theorem hourText_injective (h : d.hourText = e.hourText) : d.hour = e.hour := by
  have hkind : FourDigits d.getUTCFullYear ↔ FourDigits e.getUTCFullYear := by
    have hlen := congrArg List.length h
    rw [hourText_length, hourText_length] at hlen
    by_cases hd : FourDigits d.getUTCFullYear <;> by_cases he : FourDigits e.getUTCFullYear <;>
      simp_all
  have hmonth := month_range d
  have hmonth' := month_range e
  have hdate := date_range d
  have hdate' := date_range e
  have hhours := hours_range d
  have hhours' := hours_range e
  obtain ⟨h, hh⟩ := two_digits (by omega) (by omega) h
  obtain ⟨h, hd⟩ := two_digits (by omega) (by omega) (List.append_cancel_right h)
  obtain ⟨h, hm⟩ := two_digits (by omega) (by omega) (List.append_cancel_right h)
  have hyear := yearText_injective hkind (List.append_cancel_right h)
  have hday := day_eq hyear (by omega) (by omega)
  rw [day_of_hour, day_of_hour] at hday
  unfold getUTCHours at hh
  omega

theorem year_eq (h : d.day = e.day) : d.getUTCFullYear = e.getUTCFullYear := by
  rw [getUTCFullYear, getUTCFullYear, h]

theorem month_eq (h : d.day = e.day) : d.getUTCMonth = e.getUTCMonth := by
  simp only [getUTCMonth, dayInYear, year_eq h, h]

theorem date_eq (h : d.day = e.day) : d.getUTCDate = e.getUTCDate := by
  simp only [getUTCDate, dayInYear, year_eq h, month_eq h, h]

theorem hours_eq (h : d.hour = e.hour) : d.getUTCHours = e.getUTCHours := by
  rw [getUTCHours, getUTCHours, h]

theorem hour_eq (h : d.minute = e.minute) : d.hour = e.hour := by
  rw [hour_of_minute, hour_of_minute, h]

theorem day_eq_of_hour (h : d.hour = e.hour) : d.day = e.day := by
  rw [day_of_hour, day_of_hour, h]

theorem hourText_eq (h : d.hour = e.hour) : d.hourText = e.hourText := by
  have hday := day_eq_of_hour h
  simp only [hourText, year_eq hday, month_eq hday, date_eq hday, hours_eq h]

theorem minuteText_length (d : Date) :
    d.minuteText.length = if FourDigits d.getUTCFullYear then 16 else 19 := by
  have hminutes := minutes_range d
  rw [minuteText, List.length_append, List.length_append, hourText_length,
    padded_length (by decide) (by omega)]
  split <;> rfl

theorem minuteText_injective (h : d.minuteText = e.minuteText) : d.minute = e.minute := by
  have hminutes := minutes_range d
  have hminutes' := minutes_range e
  obtain ⟨h, hm⟩ := two_digits (by omega) (by omega) h
  have hhour := hourText_injective (List.append_cancel_right h)
  rw [hour_of_minute, hour_of_minute] at hhour
  unfold getUTCMinutes at hm
  omega

theorem minuteText_eq (h : d.minute = e.minute) : d.minuteText = e.minuteText := by
  rw [minuteText, minuteText, hourText_eq (hour_eq h), getUTCMinutes, getUTCMinutes, h]

/-- A minute of a year with four digits is never spelled like an hour of another year. -/
theorem minuteText_ne_hourText : d.minuteText ≠ e.hourText := by
  intro h
  have hminutes := minutes_range d
  have hhours := hours_range e
  obtain ⟨h, -⟩ := two_digits (by omega) (by omega) h
  obtain ⟨-, hsep⟩ := List.append_inj' h (by decide)
  exact absurd hsep (by decide)

/-- The first sixteen units of an ISO date reach the minute in a year with four digits, and
the hour in any other. -/
theorem toISOString_take (d : Date) :
    d.toISOString.take 16 = if FourDigits d.getUTCFullYear then d.minuteText else d.hourText := by
  split
  · next h =>
    rw [toISOString, List.take_left' (by rw [minuteText_length, if_pos h])]
  · next h =>
    rw [toISOString, minuteText, List.append_assoc, List.append_assoc,
      List.take_left' (by rw [hourText_length, if_neg h])]

theorem toISOString_take_eq_iff : d.toISOString.take 16 = e.toISOString.take 16 ↔
    d.minute = e.minute ∨ (d.hour = e.hour ∧ ¬ FourDigits d.getUTCFullYear) := by
  rw [toISOString_take, toISOString_take]
  constructor
  · intro h
    by_cases hd : FourDigits d.getUTCFullYear <;> by_cases he : FourDigits e.getUTCFullYear
    · rw [if_pos hd, if_pos he] at h
      exact .inl (minuteText_injective h)
    · rw [if_pos hd, if_neg he] at h
      exact absurd h minuteText_ne_hourText
    · rw [if_neg hd, if_pos he] at h
      exact absurd h.symm minuteText_ne_hourText
    · rw [if_neg hd, if_neg he] at h
      exact .inr ⟨hourText_injective h, hd⟩
  · rintro (h | ⟨h, hd⟩)
    · rw [year_eq (day_eq_of_hour (hour_eq h)), minuteText_eq h, hourText_eq (hour_eq h)]
    · have he := year_eq (day_eq_of_hour h) ▸ hd
      rw [if_neg hd, if_neg he, hourText_eq h]

end fields

end Date

end Solarcido
